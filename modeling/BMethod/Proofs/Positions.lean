import BMethod.Proofs.Carets
import Mathlib.Data.Prod.Lex

/-!
# Positions in a text

The position of an offset leads back to it. Its line is one of those that start in the text, and the
offset lies as many characters behind that start as the column says, with no line feed among them. So
offsets between characters have positions of their own, in the order of the offsets
(`position_locates`).
-/

namespace BMethod

namespace Position

/-- The place of a position in the order of a text: by lines, and by columns within a line. -/
def rank (p : Position) : ℕ ×ₗ ℕ := toLex (p.line, p.column)

/-- Every character leads on. -/
lemma rank_lt_advance (p : Position) (c : Char) : p.rank < (p.advance c).rank := by
  rw [rank, rank, Prod.Lex.toLex_lt_toLex, advance]
  split
  · exact .inl p.line.lt_succ_self
  · exact .inr ⟨rfl, p.column.lt_succ_self⟩

lemma rank_le_foldl_advance (p : Position) (cs : List Char) :
    p.rank ≤ (cs.foldl advance p).rank := by
  induction cs generalizing p with
  | nil => exact le_rfl
  | cons c cs ih => exact (p.rank_lt_advance c).le.trans (ih (p.advance c))

/-- Some characters lead on. -/
lemma rank_lt_foldl_advance (p : Position) {cs : List Char} (h : cs ≠ []) :
    p.rank < (cs.foldl advance p).rank := by
  obtain ⟨c, cs, rfl⟩ := List.exists_cons_of_ne_nil h
  exact (p.rank_lt_advance c).trans_le ((p.advance c).rank_le_foldl_advance cs)

/-- The position leads to the offset. Its line starts somewhere in the text, not behind the offset.
From there on there are as many characters as the column says, none of them a line feed, and the
offset lies as many bytes behind the start as these characters have. -/
def Locates (source : String) (p : Position) (offset : source.Pos) : Prop :=
  ∃ (start : source.Pos) (before after : String), start.Splits before after ∧
    (Source.lineStarts source)[p.line]? = some start.offset.byteIdx ∧ start ≤ offset ∧
    p.column ≤ after.length ∧ '\n' ∉ after.toList.take p.column ∧
    offset.offset.byteIdx =
      start.offset.byteIdx + ((after.toList.take p.column).map Char.utf8Size).sum

end Position

namespace Source

variable {source before after : String}

lemma byteIdx_of_splits {offset : source.Pos} (splits : offset.Splits before after) :
    offset.offset.byteIdx = String.utf8Len before.toList := by
  rw [splits.offset_eq_rawEndPos, String.byteIdx_rawEndPos, String.utf8Len_toList]

/-- Before an offset between two parts of the text are the characters of the first part. -/
lemma charsBefore_of_splits {offset : source.Pos} (splits : offset.Splits before after) :
    charsBefore offset.offset.byteIdx source.toList = before.toList := by
  rw [byteIdx_of_splits splits, splits.eq_append, String.toList_append, charsBefore_append]

/-- Where the complete lines of a text end, a line starts. -/
lemma exists_start {ls : List (List Char)} {rest : List Char}
    (text : source.toList = terminated ls ++ rest) (complete : ∀ l ∈ ls, '\n' ∉ l) :
    ∃ start : source.Pos, start.Splits (String.ofList (terminated ls)) (String.ofList rest) ∧
      (lineStarts source)[ls.length]? = some start.offset.byteIdx := by
  have split : source = String.ofList (terminated ls) ++ String.ofList rest := by
    rw [← String.ofList_append, ← text, String.ofList_toList]
  have valid : (String.ofList (terminated ls)).rawEndPos.IsValid source :=
    String.Pos.Raw.isValid_iff_exists_append.2 ⟨_, _, split, rfl⟩
  refine ⟨⟨_, valid⟩, ⟨split, rfl⟩, ?_⟩
  rw [lineStarts_getElem? text complete, String.byteIdx_rawEndPos, String.utf8ByteSize_ofList]

lemma locates_position (offset : source.Pos) :
    (position source offset.offset.byteIdx).Locates source offset := by
  have splits := offset.splits
  generalize (source.sliceTo offset).copy = before, (source.sliceFrom offset).copy = after at splits
  obtain ⟨ls, pre, text, complete, last⟩ := exists_terminated before.toList
  have whole : source.toList = terminated ls ++ (pre ++ after.toList) := by
    rw [splits.eq_append, String.toList_append, text, List.append_assoc]
  obtain ⟨start, atStart, begins⟩ := exists_start whole complete
  have position := position_eq ((charsBefore_of_splits splits).trans text) complete last
  have behind : offset.offset.byteIdx = start.offset.byteIdx + (pre.map Char.utf8Size).sum := by
    rw [byteIdx_of_splits splits, byteIdx_of_splits atStart, text, String.toList_ofList,
      String.utf8Len_append, utf8Len_eq_sum pre]
  refine ⟨start, _, _, atStart, ?_, ?_, ?_, ?_, ?_⟩
  · rw [position, begins]
  · rw [String.Pos.le_iff, String.Pos.Raw.le_iff]
    omega
  · simp [position]
  · simpa [position] using last
  · simpa [position] using behind

/-- A later offset has a later position: the characters between the two lead on. -/
lemma rank_position_lt {a b : source.Pos} (h : a < b) :
    (position source a.offset.byteIdx).rank < (position source b.offset.byteIdx).rank := by
  have hA := byteIdx_of_splits a.splits
  have hB := byteIdx_of_splits b.splits
  rw [String.Pos.lt_iff, String.Pos.Raw.lt_iff] at h
  rw [position, position, charsBefore_of_splits a.splits, charsBefore_of_splits b.splits]
  have parts := congrArg String.toList (a.splits.eq_append.symm.trans b.splits.eq_append)
  rw [String.toList_append, String.toList_append] at parts
  generalize (source.sliceTo a).copy.toList = before, (source.sliceTo b).copy.toList = before' at *
  obtain ⟨between, rfl, -⟩ | ⟨between, rfl, -⟩ := List.append_eq_append_iff.1 parts
  · rw [List.foldl_append]
    refine Position.rank_lt_foldl_advance _ ?_
    rintro rfl
    simp [hA, hB] at h
  · rw [String.utf8Len_append] at hA
    omega

/-- The position of an offset between characters leads back to the offset. Two such offsets have one
position only if they are the same, and the earlier offset has the earlier position. -/
theorem position_locates (source : String) (a b : source.Pos) :
    (position source a.offset.byteIdx).Locates source a ∧
      (position source a.offset.byteIdx = position source b.offset.byteIdx ↔ a = b) ∧
      ((position source a.offset.byteIdx).rank < (position source b.offset.byteIdx).rank ↔ a < b) := by
  have trichotomy : a < b ∨ a = b ∨ b < a := by
    simp only [String.Pos.lt_iff, String.Pos.Raw.lt_iff, String.Pos.ext_iff, String.Pos.Raw.ext_iff]
    omega
  refine ⟨locates_position a, ⟨fun same => ?_, fun same => by rw [same]⟩, fun less => ?_,
    rank_position_lt⟩
  · obtain less | same' | less := trichotomy
    · exact absurd (rank_position_lt less) (by simp [same])
    · exact same'
    · exact absurd (rank_position_lt less) (by simp [same])
  · obtain less' | rfl | less' := trichotomy
    · exact less'
    · exact absurd less (lt_irrefl _)
    · exact absurd (less.trans (rank_position_lt less')) (lt_irrefl _)

end Source

end BMethod
