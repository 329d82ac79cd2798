import BMethod.Diagnostic.Render
import BMethod.Proofs.Lines

/-!
# Excerpts

The excerpt of a diagnostic shows the lines around its labels in increasing order, each followed by the
labels that start on it (`Diagnostic.excerpt_shows`). The labels are sorted once, before they are
dealt to their lines, and sorting keeps the order of labels with the same start; so what stands under a
line is sorted in the same way (`Label.Sorts.filter`).
-/

namespace BMethod

open Source

/-! ## The order of labels. -/

/-- The same labels in the order of their starts; labels with the same start keep their order. -/
structure Label.Sorts (labels sorted : List Label) : Prop where
  perm : sorted.Perm labels
  ordered : sorted.Pairwise fun a b => a.span.start ≤ b.span.start
  stable (start : Nat) :
    sorted.filter (·.span.start == start) = labels.filter (·.span.start == start)

lemma Label.Sorts.mem_iff {labels sorted : List Label} (h : Label.Sorts labels sorted) {l : Label} :
    l ∈ sorted ↔ l ∈ labels :=
  h.perm.mem_iff

lemma Label.Sorts.filter {labels sorted : List Label} (h : Label.Sorts labels sorted)
    (p : Label → Bool) : Label.Sorts (labels.filter p) (sorted.filter p) where
  perm := h.perm.filter p
  ordered := h.ordered.filter p
  stable start := by rw [List.filter_comm, h.stable, List.filter_comm]

lemma Diagnostic.sortedLabels_sorts (d : Diagnostic) : Label.Sorts d.labels d.sortedLabels where
  perm := List.mergeSort_perm _ _
  ordered := by
    have sorted : d.sortedLabels.Pairwise fun a b => decide (a.span.start ≤ b.span.start) :=
      List.pairwise_mergeSort (fun a b c => by simpa using Nat.le_trans)
        (fun a b => by simpa using Nat.le_total _ _) d.labels
    simpa using sorted
  stable start := by
    -- The labels with this start are in order as they stand, so sorting leaves them in a row.
    have sub : (d.labels.filter (·.span.start == start)).Sublist d.sortedLabels := by
      refine List.sublist_mergeSort (fun a b c => by simpa using Nat.le_trans)
        (fun a b => by simpa using Nat.le_total _ _) ?_ List.filter_sublist
      refine List.pairwise_of_forall_mem_list fun a ha b hb => ?_
      simp only [List.mem_filter, beq_iff_eq] at ha hb
      simp [ha.2, hb.2]
    have same := sub.filter (·.span.start == start)
    simp only [List.filter_filter, Bool.and_self] at same
    exact (same.eq_of_length ((List.mergeSort_perm _ _).filter _).length_eq.symm).symm

/-! ## The shown lines. -/

variable {source : String} {labels sorted : List Label}

lemma mem_shownLines {context i : Nat} :
    i ∈ shownLines source labels context ↔ i < (lines source).length ∧
      ∃ l ∈ labels, i ≤ l.line source + context ∧ l.line source ≤ i + context := by
  simp only [shownLines, List.mem_filter, List.mem_range, List.any_eq_true, Bool.and_eq_true,
    decide_eq_true_eq, tsub_le_iff_right]
  exact and_congr_right fun _ => exists_congr fun l => and_congr_right fun _ => and_comm

lemma shownLines_ascending (source : String) (labels : List Label) (context : Nat) :
    (shownLines source labels context).Pairwise (· < ·) :=
  List.pairwise_lt_range.filter _

/-- The line on which a label starts is shown, if it is one of the text. -/
lemma line_mem_shownLines (context : Nat) {l : Label} (label : l ∈ labels)
    (inside : l.line source < (lines source).length) :
    l.line source ∈ shownLines source labels context :=
  mem_shownLines.2 ⟨inside, l, label, by omega, by omega⟩

/-! ## The rows of a line. -/

/-- The row of a label under the line on which it starts. -/
def Label.ownRow (source : String) (l : Label) : Row :=
  l.row ((lineStarts source)[l.line source]?.getD 0) ((lines source)[l.line source]?.getD "")

/-- The rows of one line of the text: the line itself, and directly after it the labels that start on
it, in the order of their starts. -/
def ShowsLine (source : String) (labels : List Label) (index : Nat) (rows : List Row) : Prop :=
  ∃ line under, (lines source)[index]? = some line ∧
    Label.Sorts (labels.filter (·.line source == index)) under ∧
    rows = .source index line :: under.map (·.ownRow source)

/-- The rows of a nonempty list of lines, in increasing order, with a gap where lines are left out. -/
inductive Shows (source : String) (labels : List Label) : List Nat → List Row → Prop
  | last {i rows} : ShowsLine source labels i rows → Shows source labels [i] rows
  | next {i rest rows more} : ShowsLine source labels i rows →
    Shows source labels ((i + 1) :: rest) more →
    Shows source labels (i :: (i + 1) :: rest) (rows ++ more)
  | skip {i j rest rows more} : ShowsLine source labels i rows → i + 1 < j →
    Shows source labels (j :: rest) more →
    Shows source labels (i :: j :: rest) (rows ++ .gap :: more)

/-- The rows of a line of a text show that line with its labels. -/
lemma sourceRows_showsLine (h : Label.Sorts labels sorted) {i : Nat}
    (inside : i < (lines source).length) :
    ShowsLine source labels i (sourceRows source sorted i) := by
  refine ⟨(lines source)[i], sorted.filter (·.line source == i), List.getElem?_eq_getElem inside,
    h.filter _, ?_⟩
  rw [sourceRows, List.getElem?_eq_getElem inside, Option.getD_some]
  congr 1
  refine List.map_congr_left fun l mem => ?_
  obtain ⟨-, rfl⟩ : l ∈ sorted ∧ l.line source = i := by simpa using mem
  rw [Label.ownRow, List.getElem?_eq_getElem inside, Option.getD_some]

/-- The first of some lines does not depend on what is shown before it, but for the gap. -/
lemma shownRows_cons (previous : Option Nat) (i : Nat) (rest : List Nat) :
    shownRows source labels previous (i :: rest) =
      (if gapBefore previous i then [.gap] else []) ++ shownRows source labels none (i :: rest) := by
  simp [shownRows, gapBefore]

lemma shows_shownRows (h : Label.Sorts labels sorted) {i : Nat} {rest : List Nat}
    (ascending : (i :: rest).Pairwise (· < ·)) (inside : ∀ j ∈ i :: rest, j < (lines source).length) :
    Shows source labels (i :: rest) (shownRows source sorted none (i :: rest)) := by
  induction rest generalizing i with
  | nil => simpa [shownRows, gapBefore] using .last (sourceRows_showsLine h (inside i (by simp)))
  | cons j rest ih =>
    have first := sourceRows_showsLine h (inside i List.mem_cons_self)
    have more := ih ascending.of_cons fun k mem => inside k (List.mem_cons_of_mem _ mem)
    have less : i < j := List.rel_of_pairwise_cons ascending List.mem_cons_self
    rw [shownRows, gapBefore, if_neg Bool.false_ne_true, List.nil_append, shownRows_cons, gapBefore]
    by_cases far : i + 1 < j
    · simpa [far] using Shows.skip first far more
    · obtain rfl : j = i + 1 := by omega
      simpa using Shows.next first more

/-- The rows between the margins show the shown lines. -/
lemma Diagnostic.shownRows_shows (d : Diagnostic) {context : Nat}
    (some' : shownLines source d.sortedLabels context ≠ []) :
    Shows source d.labels (shownLines source d.sortedLabels context)
      (shownRows source d.sortedLabels none (shownLines source d.sortedLabels context)) := by
  have ascending := shownLines_ascending source d.sortedLabels context
  have inside (j : Nat) (mem : j ∈ shownLines source d.sortedLabels context) :=
    (mem_shownLines.1 mem).1
  obtain ⟨i, rest, eq⟩ := List.exists_cons_of_ne_nil some'
  rw [eq] at ascending inside ⊢
  exact shows_shownRows d.sortedLabels_sorts ascending inside

lemma Diagnostic.excerpt_eq {d : Diagnostic} {context : Nat} {first : Label} {rest : List Label}
    (sorted : d.sortedLabels = first :: rest) :
    d.excerpt context source =
      .location (d.filename.getD "<machine>") (position source first.span.start) :: .margin ::
        (shownRows source d.sortedLabels none (shownLines source d.sortedLabels context) ++
          [.margin]) := by
  rw [Diagnostic.excerpt, sorted]
  rfl

/-! ## Every label once. -/

/-- Whether a row is that of a label. -/
def Row.isCarets : Row → Bool
  | carets .. => true
  | _ => false

/-- The row of a label is one of carets. -/
@[simp] lemma Label.isCarets_ownRow (l : Label) : (l.ownRow source).isCarets = true := rfl

/-- Among the rows of a line, those of carets are its labels. -/
lemma ShowsLine.carets {i : Nat} {rows : List Row} (h : ShowsLine source labels i rows) :
    ∃ owners : List Label, owners.Perm (labels.filter (·.line source == i)) ∧
      rows.filter Row.isCarets = owners.map (·.ownRow source) := by
  obtain ⟨line, under, -, sorts, rfl⟩ := h
  refine ⟨under, sorts.perm, ?_⟩
  rw [List.filter_cons_of_neg (by simp [Row.isCarets]), List.filter_eq_self]
  simp

/-- The labels on a line and those on further lines are those on either. -/
lemma perm_filter_lines {i : Nat} {rest : List Nat} (new : i ∉ rest) {owners others : List Label}
    (here : owners.Perm (labels.filter (·.line source == i)))
    (there : others.Perm (labels.filter (rest.contains <| ·.line source))) :
    (owners ++ others).Perm (labels.filter ((i :: rest).contains <| ·.line source)) := by
  refine (here.append there).trans ?_
  refine .trans ?_ (List.filter_append_perm (·.line source == i) _)
  simp only [List.filter_filter]
  refine .of_eq ?_
  congr 1 <;> refine List.filter_congr fun l _ => ?_
  · by_cases h : l.line source = i <;> simp [h]
  · by_cases h : l.line source = i <;> simp [h, new]

/-- Among the rows of some lines, those of carets are the labels on these lines, each once. -/
lemma Shows.carets {shown : List Nat} {rows : List Row} (h : Shows source labels shown rows)
    (nodup : shown.Nodup) :
    ∃ owners : List Label, owners.Perm (labels.filter (shown.contains <| ·.line source)) ∧
      rows.filter Row.isCarets = owners.map (·.ownRow source) := by
  induction h with
  | last line =>
    obtain ⟨owners, perm, eq⟩ := line.carets
    exact ⟨owners, by simpa [List.contains_cons, beq_eq_decide] using perm, eq⟩
  | next line _ ih =>
    obtain ⟨owners, perm, eq⟩ := line.carets
    obtain ⟨others, perm', eq'⟩ := ih nodup.of_cons
    exact ⟨owners ++ others, perm_filter_lines (List.nodup_cons.1 nodup).1 perm perm',
      by rw [List.filter_append, eq, eq', List.map_append]⟩
  | skip line _ _ ih =>
    obtain ⟨owners, perm, eq⟩ := line.carets
    obtain ⟨others, perm', eq'⟩ := ih nodup.of_cons
    exact ⟨owners ++ others, perm_filter_lines (List.nodup_cons.1 nodup).1 perm perm',
      by rw [List.filter_append, List.filter_cons_of_neg (by simp [Row.isCarets]), eq, eq',
        List.map_append]⟩

/-! ## The gutter. -/

/-- What stands before the bar of a row with a bar. -/
def Row.gutter (width : Nat) : Row → Option String
  | .location .. | .gap => none
  | .margin | .carets .. => some (repeated width ' ')
  | .source index _ => some (padLeft width (toString (index + 1)))

lemma Layout.paint_of_plain {layout : Layout} (plain : layout.colors = false) (c : Color) :
    layout.paint c = "" := by
  simp [Layout.paint, plain]

lemma Layout.reset_of_plain {layout : Layout} (plain : layout.colors = false) :
    layout.reset = "" := by
  simp [Layout.reset, plain]

/-- In plain text, the gutter of a row comes first, and then the bar. -/
lemma Row.text_eq_gutter {layout : Layout} (plain : layout.colors = false) (severity : Severity)
    {width : Nat} {row : Row} {gutter : String} (h : row.gutter width = some gutter) :
    ∃ rest, row.text layout severity width = gutter ++ " |" ++ rest ∧
      ∀ index line, row = .source index line →
        rest = " " ++ (layout.expandTabs line ++ "\n") := by
  cases row <;> simp only [Row.gutter, reduceCtorEq, Option.some.injEq] at h <;> subst h
  all_goals
    simp only [Row.text, Layout.paint_of_plain plain, Layout.reset_of_plain plain,
      String.empty_append, String.append_empty, String.append_assoc]
    exact ⟨_, rfl, by simp⟩

end BMethod
