import BMethod.Proofs.Excerpt

/-!
# Carets

The carets of a label stand below its line with nothing between but those of other labels. Their offset
counts the bytes before the label in the line, while the line itself is written in characters, with
blanks in place of tabs. So the carets stand under the label exactly where these two numbers agree, as
they do behind characters of one byte other than tabs (`Diagnostic.carets_at_byte`).
-/

namespace BMethod

open Source

/-! ## Lines and their carets. -/

variable {source : String} {labels : List Label}

/-- Among some rows, the line on which a label starts, with no rows but those of other labels between it
and the row of the label. -/
def Label.StandsIn (source : String) (l : Label) (line : String) (rows : List Row) : Prop :=
  ∃ above under below,
    rows = above ++ .source (l.line source) line :: (under ++ l.ownRow source :: below) ∧
      ∀ row ∈ under, row.isCarets

lemma Label.StandsIn.append {l : Label} {line : String} {rows : List Row}
    (h : l.StandsIn source line rows) (before after : List Row) :
    l.StandsIn source line (before ++ rows ++ after) := by
  obtain ⟨above, under, below, rfl, carets⟩ := h
  exact ⟨before ++ above, under, below ++ after, by simp, carets⟩

lemma ShowsLine.standsIn {rows : List Row} {l : Label} {line : String} (label : l ∈ labels)
    (text : (lines source)[l.line source]? = some line)
    (h : ShowsLine source labels (l.line source) rows) : l.StandsIn source line rows := by
  obtain ⟨line', owners, text', sorts, rfl⟩ := h
  obtain rfl : line' = line := Option.some.inj (text'.symm.trans text)
  have mem : l ∈ owners := sorts.mem_iff.2 (by simpa using label)
  obtain ⟨before, after, rfl⟩ := List.append_of_mem mem
  exact ⟨[], before.map (·.ownRow source), after.map (·.ownRow source), by simp, by simp⟩

lemma Shows.standsIn {shown : List Nat} {rows : List Row} {l : Label} {line : String}
    (label : l ∈ labels) (text : (lines source)[l.line source]? = some line)
    (h : Shows source labels shown rows) (mem : l.line source ∈ shown) :
    l.StandsIn source line rows := by
  induction h with
  | last first =>
    obtain rfl := List.mem_singleton.1 mem
    exact first.standsIn label text
  | @next _ _ rows more first _ ih =>
    obtain rfl | mem := List.mem_cons.1 mem
    · simpa using (first.standsIn label text).append [] more
    · simpa using (ih mem).append rows []
  | @skip _ _ _ rows more first _ _ ih =>
    obtain rfl | mem := List.mem_cons.1 mem
    · simpa using (first.standsIn label text).append [] (.gap :: more)
    · have stands := (ih mem).append (rows ++ [.gap]) []
      rwa [List.append_nil, List.append_assoc] at stands

/-- A label that starts on a line of the text stands in the excerpt, wherever the others start. -/
lemma Diagnostic.standsIn_excerpt {d : Diagnostic} {l : Label} (label : l ∈ d.labels)
    {line : String} (text : (lines source)[l.line source]? = some line) (context : Nat) :
    l.StandsIn source line (d.excerpt context source) := by
  have label' : l ∈ d.sortedLabels := d.sortedLabels_sorts.mem_iff.2 label
  obtain ⟨first, rest, sorted⟩ := List.exists_cons_of_ne_nil (List.ne_nil_of_mem label')
  have mem := line_mem_shownLines context label' (List.getElem?_eq_some_iff.1 text).1
  have stands := (d.shownRows_shows (List.ne_nil_of_mem mem)).standsIn label text mem
  simpa [Diagnostic.excerpt_eq sorted] using stands.append [_, .margin] [.margin]

/-! ## Printed characters. -/

/-- The number of characters that a character is printed as. -/
def Layout.columns (layout : Layout) (c : Char) : Nat := if c = '\t' then layout.tabWidth else 1

lemma Layout.expandTabs_append (layout : Layout) (l m : List Char) :
    layout.expandTabs (String.ofList (l ++ m)) =
      layout.expandTabs (String.ofList l) ++ layout.expandTabs (String.ofList m) := by
  simp [Layout.expandTabs]

lemma Layout.length_expandTabs (layout : Layout) (l : List Char) :
    (layout.expandTabs (String.ofList l)).length = (l.map layout.columns).sum := by
  simp only [Layout.expandTabs, String.length_ofList, String.toList_ofList, List.length_flatMap]
  congr 2
  funext c
  by_cases h : c = '\t' <;> simp [Layout.columns, h]

/-- What stands after the bar of a row and the blank behind it. -/
def afterGutter (text : String) : List Char := (text.toList.dropWhile (· ≠ '|')).drop 2

/-- The number of characters between the gutter of a row and its first caret. -/
def caretColumn (text : String) : Nat := ((afterGutter text).takeWhile (· ≠ '^')).length

lemma afterGutter_eq {gutter : String} (h : '|' ∉ gutter.toList) (rest : String) :
    afterGutter (gutter ++ " |" ++ (" " ++ rest)) = rest.toList := by
  rw [afterGutter]
  simp only [String.toList_append]
  have before (c : Char) (mem : c ∈ gutter.toList) : decide (c ≠ '|') = true := by
    simp only [ne_eq, decide_eq_true_eq]
    rintro rfl
    exact h mem
  rw [List.append_assoc, List.dropWhile_append_of_pos before]
  rfl

lemma not_mem_blanks {n : Nat} : '|' ∉ (repeated n ' ').toList := by
  simp [repeated]

lemma not_mem_padLeft_number {width n : Nat} : '|' ∉ (padLeft width (toString n)).toList := by
  rw [padLeft, String.toList_append, List.mem_append, not_or]
  refine ⟨not_mem_blanks, fun mem => ?_⟩
  rw [Nat.toString_eq_ofList_toDigits, String.toList_ofList] at mem
  exact absurd (Nat.isDigit_of_mem_toDigits (by decide) (by decide) mem) (by decide)

/-- In plain text, the first caret of a row is as many characters behind the gutter as its offset says. -/
lemma caretColumn_carets {layout : Layout} (plain : layout.colors = false) (severity : Severity)
    (width offset : Nat) {length : Nat} (pos : 0 < length) (message : String) :
    caretColumn ((Row.carets offset length message).text layout severity width) = offset := by
  obtain ⟨more, rfl⟩ : ∃ more, length = more + 1 := ⟨length - 1, by omega⟩
  simp only [Row.text, Layout.paint_of_plain plain, Layout.reset_of_plain plain, String.empty_append,
    String.append_empty, String.append_assoc]
  rw [← String.append_assoc, caretColumn, afterGutter_eq not_mem_blanks, String.toList_append]
  have blanks : ∀ c ∈ (repeated offset ' ').toList, decide (c ≠ '^') = true := by simp [repeated]
  rw [List.takeWhile_append_of_pos blanks]
  simp [repeated, List.replicate_succ]

/-! ## The place of carets. -/

/-- What comes after the last line feed. -/
def sinceFeed (cs : List Char) : List Char := (cs.reverse.takeWhile (· ≠ '\n')).reverse

lemma sinceFeed_eq {ls : List (List Char)} {pre : List Char} (last : '\n' ∉ pre) :
    sinceFeed (terminated ls ++ pre) = pre := by
  have none' : ∀ c ∈ pre.reverse, decide (c ≠ '\n') = true := by
    simp only [List.mem_reverse, ne_eq, decide_eq_true_eq]
    rintro c mem rfl
    exact last mem
  have stop : (terminated ls).reverse.takeWhile (· ≠ '\n') = [] := by
    obtain rfl | ⟨init, l, rfl⟩ := ls.eq_nil_or_concat'
    · rfl
    · simp [terminated]
  rw [sinceFeed, List.reverse_append, List.takeWhile_append_of_pos none', stop, List.append_nil,
    List.reverse_reverse]

lemma utf8Len_eq_sum (cs : List Char) : String.utf8Len cs = (cs.map Char.utf8Size).sum := by
  induction cs with
  | nil => rfl
  | cons c cs ih => rw [String.utf8Len_cons, ih, List.map_cons, List.sum_cons, Nat.add_comm]

/-- The place of a label that starts at a character other than a line end: its line holds the character
behind what stands before it since the last line feed, and it starts as many bytes into the line. -/
lemma Label.exists_line {l : Label} {before after : List Char} {c : Char}
    (text : source.toList = before ++ c :: after)
    (start : l.span.start = (String.ofList before).utf8ByteSize) (feed : c ≠ '\n')
    (ret : c = '\r' → after.head? ≠ some '\n') :
    ∃ rest lineStart,
      (lines source)[l.line source]? = some (String.ofList (sinceFeed before ++ c :: rest)) ∧
      (lineStarts source)[l.line source]? = some lineStart ∧
      l.span.start = lineStart + ((sinceFeed before).map Char.utf8Size).sum := by
  obtain ⟨ls, pre, rfl, complete, last⟩ := exists_terminated before
  rw [String.utf8ByteSize_ofList] at start
  have line : l.line source = ls.length := by
    rw [Label.line, position_eq (by rw [text, start, charsBefore_append]) complete last]
  rw [List.append_assoc] at text
  obtain ⟨firsts, length, eq⟩ := lines_eq text complete
  obtain ⟨rest, more, split⟩ := @splitLines_append pre c after last feed ret
  refine ⟨rest, String.utf8Len (terminated ls), ?_, ?_, ?_⟩
  · rw [sinceFeed_eq last, line, eq, ← length, List.getElem?_append_right le_rfl, split]
    simp
  · rw [line, lineStarts_getElem? text complete]
  · rw [start, sinceFeed_eq last, ← utf8Len_eq_sum, String.utf8Len_append]

/-- The carets of a label are as many characters behind the gutter as there are bytes before the label in
its line. In the line above them, the label is behind as many characters as the text before it is
printed as. -/
theorem Diagnostic.carets_at_byte {layout : Layout} (plain : layout.colors = false)
    {d : Diagnostic} {source : String} {l : Label} (label : l ∈ d.labels)
    {before after : List Char} {c : Char} (text : source.toList = before ++ c :: after)
    (start : l.span.start = (String.ofList before).utf8ByteSize) (feed : c ≠ '\n')
    (ret : c = '\r' → after.head? ≠ some '\n') (width : Nat) :
    ∃ rest printed,
      l.StandsIn source (String.ofList (sinceFeed before ++ c :: rest))
        (d.excerpt layout.contextLines source) ∧
      afterGutter ((Row.source (l.line source) (String.ofList (sinceFeed before ++ c :: rest))).text
        layout d.severity width) =
          (printed ++ layout.expandTabs (String.ofList (c :: rest)) ++ "\n").toList ∧
      printed = layout.expandTabs (String.ofList (sinceFeed before)) ∧
      caretColumn ((l.ownRow source).text layout d.severity width) =
        ((sinceFeed before).map Char.utf8Size).sum ∧
      (caretColumn ((l.ownRow source).text layout d.severity width) = printed.length ↔
        ((sinceFeed before).map Char.utf8Size).sum = ((sinceFeed before).map layout.columns).sum) := by
  obtain ⟨rest, lineStart, line, lineStart', offset⟩ := Label.exists_line text start feed ret
  have column : caretColumn ((l.ownRow source).text layout d.severity width) =
      ((sinceFeed before).map Char.utf8Size).sum := by
    rw [Label.ownRow, line, lineStart', Label.row, Option.getD_some,
      caretColumn_carets plain _ _ _ (by omega), offset, Nat.add_sub_cancel_left]
  refine ⟨rest, _, d.standsIn_excerpt label line _, ?_, rfl, column, ?_⟩
  · have shown : (Row.source (l.line source) (String.ofList (sinceFeed before ++ c :: rest))).gutter
        width = some _ := rfl
    obtain ⟨_, row, eq⟩ := Row.text_eq_gutter plain d.severity shown
    rw [row, eq _ _ rfl, afterGutter_eq not_mem_padLeft_number,
      Layout.expandTabs_append]
  · rw [column, Layout.length_expandTabs]

/-- A label behind a tab. -/
def sampleTabbed : Diagnostic :=
  (Diagnostic.ofMessage .error "m").withLabel (some ⟨1, 2⟩) ""

/-- The carets of a label behind a tab are too far to the left. -/
theorem Diagnostic.carets_left_of_tabbed :
    sampleTabbed.excerpt 1 "\tx" =
      [.location "<machine>" ⟨0, 1⟩, .margin, .source 0 "\tx", .carets 1 1 "", .margin] ∧
      afterGutter ((Row.source 0 "\tx").text .plain .error 1) = [' ', ' ', ' ', ' ', 'x', '\n'] ∧
      caretColumn ((Row.carets 1 1 "").text .plain .error 1) = 1 ∧
      caretColumn ((Row.carets 1 1 "").text .plain .error 1) ≠
        ((afterGutter ((Row.source 0 "\tx").text .plain .error 1)).takeWhile (· ≠ 'x')).length := by
  have sorted : sampleTabbed.sortedLabels = [⟨⟨1, 2⟩, ""⟩] := List.mergeSort_singleton _
  refine ⟨?_, by decide, by decide, by decide⟩
  rw [Diagnostic.excerpt, sorted]
  decide

theorem Diagnostic.carets_at_byte_sampleTabbed :
    ∃ rest, "\tx".toList = ['\t'] ++ 'x' :: [] ∧
      Label.StandsIn "\tx" ⟨⟨1, 2⟩, ""⟩ (String.ofList ('\t' :: 'x' :: rest))
        (sampleTabbed.excerpt 1 "\tx") := by
  have label : (⟨⟨1, 2⟩, ""⟩ : Label) ∈ sampleTabbed.labels := by decide
  obtain ⟨rest, _, stands, -⟩ := @Diagnostic.carets_at_byte .plain rfl _ "\tx" _ label ['\t'] [] 'x'
    rfl (by decide) (by decide) (by decide) 1
  exact ⟨rest, rfl, stands⟩

end BMethod
