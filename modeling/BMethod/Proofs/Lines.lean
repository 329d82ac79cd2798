import BMethod.Source
import Mathlib.Data.String.Basic
import Mathlib.Tactic

/-!
# Lines of a text

Every text is a number of complete lines, each with its line feed, and what comes after the last line
feed (`exists_terminated`). In this form the three views of the lines of a text agree: the position of
an offset counts the complete lines before it (`position_eq`), the line of that number begins where
they end (`lineStarts_getElem?`), and it is the next one that the text is split into
(`lines_eq`).
-/

namespace BMethod.Source

open String (utf8Len)

/-! ## Characters before an offset. -/

/-- Before the offset at which some characters end are these characters. -/
lemma charsBefore_append (before after : List Char) :
    charsBefore (utf8Len before) (before ++ after) = before := by
  induction before with
  | nil => cases after <;> simp [charsBefore]
  | cons c before ih =>
    have pos := c.utf8Size_pos
    have zero : utf8Len before + c.utf8Size ≠ 0 := by omega
    rw [List.cons_append, charsBefore, String.utf8Len_cons, if_neg zero, Nat.add_sub_cancel_right,
      ih]

/-! ## Complete lines. -/

/-- Lines with their line feeds. -/
def terminated (ls : List (List Char)) : List Char := ls.flatMap (· ++ ['\n'])

@[simp] lemma terminated_nil : terminated [] = [] := rfl

lemma terminated_cons_append (l : List Char) (ls : List (List Char)) (cs : List Char) :
    terminated (l :: ls) ++ cs = l ++ '\n' :: (terminated ls ++ cs) := by
  simp [terminated]

/-- A text is its complete lines and what comes after the last line feed. -/
lemma exists_terminated (cs : List Char) :
    ∃ ls rest, cs = terminated ls ++ rest ∧ (∀ l ∈ ls, '\n' ∉ l) ∧ '\n' ∉ rest := by
  induction cs with
  | nil => exact ⟨[], [], rfl, nofun, nofun⟩
  | cons c cs ih =>
    obtain ⟨ls, rest, rfl, complete, open'⟩ := ih
    by_cases hc : c = '\n'
    · subst hc
      exact ⟨[] :: ls, rest, rfl, by simpa using complete, open'⟩
    · cases ls with
      | nil => exact ⟨[], c :: rest, rfl, nofun, by simp [open', Ne.symm hc]⟩
      | cons l ls =>
        refine ⟨(c :: l) :: ls, rest, by simp [terminated], ?_, open'⟩
        simp only [List.forall_mem_cons] at complete ⊢
        exact ⟨by simp [complete.1, Ne.symm hc], complete.2⟩

/-! ## Positions. -/

lemma foldl_advance (p : Position) {l : List Char} (h : '\n' ∉ l) :
    l.foldl Position.advance p = ⟨p.line, p.column + l.length⟩ := by
  induction l generalizing p with
  | nil => rfl
  | cons c l ih =>
    obtain ⟨hc, h⟩ : c ≠ '\n' ∧ '\n' ∉ l := by simpa [eq_comm] using h
    rw [List.foldl_cons, ih _ h, Position.advance, if_neg hc, List.length_cons]
    simp only [Position.mk.injEq, true_and]
    omega

lemma foldl_advance_terminated (n : Nat) {ls : List (List Char)} {rest : List Char}
    (complete : ∀ l ∈ ls, '\n' ∉ l) (last : '\n' ∉ rest) :
    (terminated ls ++ rest).foldl Position.advance ⟨n, 0⟩ = ⟨n + ls.length, rest.length⟩ := by
  induction ls generalizing n with
  | nil => simp [foldl_advance _ last]
  | cons l ls ih =>
    rw [List.forall_mem_cons] at complete
    rw [terminated_cons_append, List.foldl_append, foldl_advance _ complete.1, List.foldl_cons,
      Position.advance, if_pos rfl, ih _ complete.2, List.length_cons]
    simp only [Position.mk.injEq, and_true]
    omega

/-- The line of a position is the number of complete lines before it, and the column that of the
characters after them. -/
lemma position_eq {source : String} {offset : Nat} {ls : List (List Char)} {rest : List Char}
    (before : charsBefore offset source.toList = terminated ls ++ rest)
    (complete : ∀ l ∈ ls, '\n' ∉ l) (last : '\n' ∉ rest) :
    position source offset = ⟨ls.length, rest.length⟩ := by
  rw [position, before, foldl_advance_terminated 0 complete last, Nat.zero_add]

/-! ## Starts of lines. -/

lemma startsAfter_line (offset : Nat) {l : List Char} (h : '\n' ∉ l) (cs : List Char) :
    startsAfter offset (l ++ '\n' :: cs) =
      (offset + utf8Len l + 1) :: startsAfter (offset + utf8Len l + 1) cs := by
  induction l generalizing offset with
  | nil => simp [startsAfter, show Char.utf8Size '\n' = 1 from rfl]
  | cons c l ih =>
    obtain ⟨hc, h⟩ : c ≠ '\n' ∧ '\n' ∉ l := by simpa [eq_comm] using h
    rw [List.cons_append, startsAfter, if_neg hc, ih _ h, String.utf8Len_cons]
    congr 2 <;> omega

lemma startsAfter_terminated (offset : Nat) {ls : List (List Char)}
    (complete : ∀ l ∈ ls, '\n' ∉ l) (cs : List Char) :
    (offset :: startsAfter offset (terminated ls ++ cs))[ls.length]? =
      some (offset + utf8Len (terminated ls)) := by
  induction ls generalizing offset with
  | nil => simp
  | cons l ls ih =>
    rw [List.forall_mem_cons] at complete
    rw [terminated_cons_append, startsAfter_line _ complete.1, List.length_cons,
      List.getElem?_cons_succ, ih _ complete.2, ← List.append_nil (terminated (l :: ls)),
      terminated_cons_append]
    simp only [String.utf8Len_append, String.utf8Len_cons, show Char.utf8Size '\n' = 1 from rfl,
      String.utf8Len_nil]
    congr 1
    omega

/-- A line starts where the complete lines before it end. -/
lemma lineStarts_getElem? {source : String} {ls : List (List Char)} {cs : List Char}
    (text : source.toList = terminated ls ++ cs) (complete : ∀ l ∈ ls, '\n' ∉ l) :
    (lineStarts source)[ls.length]? = some (utf8Len (terminated ls)) := by
  rw [lineStarts, text, startsAfter_terminated 0 complete, Nat.zero_add]

/-! ## Contents of lines. -/

/-- A character that does not end its line is the first of its line. -/
lemma splitLines_cons {c : Char} {cs : List Char} (feed : c ≠ '\n')
    (ret : c = '\r' → cs.head? ≠ some '\n') :
    splitLines (c :: cs) = (c :: (splitLines cs).headD []) :: (splitLines cs).tail := by
  rw [splitLines]
  · cases splitLines cs <;> rfl
  · exact feed
  · rintro ds rfl rfl
    exact ret rfl rfl

lemma splitLines_line {l : List Char} (h : '\n' ∉ l) (cs : List Char) :
    ∃ first, splitLines (l ++ '\n' :: cs) = first :: splitLines cs := by
  induction l with
  | nil => exact ⟨[], rfl⟩
  | cons c l ih =>
    obtain ⟨hc, hl⟩ : c ≠ '\n' ∧ '\n' ∉ l := by simpa [eq_comm] using h
    by_cases ret : c = '\r' ∧ l = []
    · obtain ⟨rfl, rfl⟩ := ret
      exact ⟨[], rfl⟩
    · obtain ⟨first, split⟩ := ih hl
      refine ⟨c :: first, ?_⟩
      rw [List.cons_append, splitLines_cons hc, split]
      · rfl
      · rintro rfl
        cases l with
        | nil => exact absurd ⟨rfl, rfl⟩ ret
        | cons d l =>
        rw [List.cons_append, List.head?_cons]
        rintro ⟨⟩
        exact hl List.mem_cons_self

/-- Complete lines are lines of their own. -/
lemma splitLines_terminated {ls : List (List Char)} (complete : ∀ l ∈ ls, '\n' ∉ l)
    (cs : List Char) :
    ∃ firsts, firsts.length = ls.length ∧
      splitLines (terminated ls ++ cs) = firsts ++ splitLines cs := by
  induction ls with
  | nil => exact ⟨[], rfl, rfl⟩
  | cons l ls ih =>
    rw [List.forall_mem_cons] at complete
    obtain ⟨firsts, length, split⟩ := ih complete.2
    obtain ⟨first, split'⟩ := splitLines_line complete.1 (terminated ls ++ cs)
    exact ⟨first :: firsts, by simp [length], by rw [terminated_cons_append, split', split]; rfl⟩

/-- The line of a character that does not belong to the end of the line has the character after what
comes before it in the line. -/
lemma splitLines_append {pre : List Char} {c : Char} {post : List Char} (h : '\n' ∉ pre)
    (feed : c ≠ '\n') (ret : c = '\r' → post.head? ≠ some '\n') :
    ∃ rest more, splitLines (pre ++ c :: post) = (pre ++ c :: rest) :: more := by
  induction pre with
  | nil => exact ⟨_, _, splitLines_cons feed ret⟩
  | cons d pre ih =>
    obtain ⟨hd, hl⟩ : d ≠ '\n' ∧ '\n' ∉ pre := by simpa [eq_comm] using h
    obtain ⟨rest, more, split⟩ := ih hl
    refine ⟨rest, more, ?_⟩
    rw [List.cons_append, splitLines_cons hd, split]
    · rfl
    · rintro -
      cases pre with
      | nil => simpa using feed
      | cons e pre =>
        rw [List.cons_append, List.head?_cons]
        rintro ⟨⟩
        exact hl List.mem_cons_self

/-! ## The lines of a text. -/

/-- The complete lines come first in a text, and what follows them is split on its own. -/
lemma lines_eq {source : String} {ls : List (List Char)} {cs : List Char}
    (text : source.toList = terminated ls ++ cs) (complete : ∀ l ∈ ls, '\n' ∉ l) :
    ∃ firsts, firsts.length = ls.length ∧
      lines source = firsts ++ (splitLines cs).map String.ofList := by
  obtain ⟨firsts, length, split⟩ := splitLines_terminated complete cs
  exact ⟨firsts.map String.ofList, by simpa using length, by rw [lines, text, split, List.map_append]⟩

end BMethod.Source
