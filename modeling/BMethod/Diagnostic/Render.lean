import BMethod.Diagnostic.Basic
import BMethod.Source

/-!
# Rendering diagnostics

A diagnostic is shown with an excerpt of the text: the lines on which its labels start and some
lines around them, each followed by the labels that start on it, drawn as carets. The excerpt is
built as a list of rows (`Diagnostic.excerpt`) and then written out, in color or plain.
-/

namespace BMethod

/-- The colors of the terminal that are used. -/
inductive Color where
  | red | green | yellow | blue | cyan | white
  deriving DecidableEq, Repr

/-- The sequence that switches to a color, in bold. -/
def Color.code : Color → String
  | red => "\x1b[1;31m"
  | green => "\x1b[1;32m"
  | yellow => "\x1b[1;33m"
  | blue => "\x1b[1;34m"
  | cyan => "\x1b[1;36m"
  | white => "\x1b[1;37m"

/-- The color of a severity. -/
def Severity.color : Severity → Color
  | error => .red
  | warning => .yellow

/-- How diagnostics are shown. -/
structure Layout where
  colors : Bool
  /-- How many lines are shown before and after a line with a label. -/
  contextLines : Nat
  /-- How many blanks a tab becomes. -/
  tabWidth : Nat
  deriving DecidableEq, Repr

namespace Layout

/-- Colors, one line of context, tabs of four. -/
def colored : Layout := ⟨true, 1, 4⟩

/-- The same without colors. -/
def plain : Layout := { colored with colors := false }

/-- Switches to a color, if there are colors. -/
def paint (layout : Layout) (c : Color) : String := if layout.colors then c.code else ""

/-- Switches back, if there are colors. -/
def reset (layout : Layout) : String := if layout.colors then "\x1b[0m" else ""

/-- A line with blanks in place of tabs. -/
def expandTabs (layout : Layout) (line : String) : String :=
  String.ofList (line.toList.flatMap fun c =>
    if c = '\t' then List.replicate layout.tabWidth ' ' else [c])

end Layout

/-! ## The excerpt. -/

/-- A row of an excerpt. -/
inductive Row where
  /-- The place that the diagnostic is about. -/
  | location (filename : String) (position : Position)
  /-- An empty row beside the margin. -/
  | margin
  /-- Lines are left out here. -/
  | gap
  | source (index : Nat) (line : String)
  /-- A label under the line before. -/
  | carets (offset length : Nat) (message : String)
  deriving DecidableEq, Repr

/-- The line on which a label starts. -/
def Label.line (source : String) (l : Label) : Nat := (Source.position source l.span.start).line

/-- The row of a label under a line that starts at a byte offset. A label is at least one caret long
and ends with its line at the latest. -/
def Label.row (lineStart : Nat) (line : String) (l : Label) : Row :=
  .carets (l.span.start - lineStart)
    (max 1 (min l.span.stop (lineStart + line.utf8ByteSize) - l.span.start)) l.message

/-- The rows of a line of the text: the line, then the labels that start on it. -/
def sourceRows (source : String) (labels : List Label) (index : Nat) : List Row :=
  let line := (Source.lines source)[index]?.getD ""
  let start := (Source.lineStarts source)[index]?.getD 0
  .source index line :: (labels.filter (·.line source == index)).map (·.row start line)

/-- Whether lines are left out between two shown lines. -/
def gapBefore : Option Nat → Nat → Bool
  | none, _ => false
  | some previous, index => previous + 1 < index

/-- The rows of the shown lines, with a gap wherever lines are left out. -/
def shownRows (source : String) (labels : List Label) : Option Nat → List Nat → List Row
  | _, [] => []
  | previous, index :: rest =>
    (if gapBefore previous index then [.gap] else []) ++ sourceRows source labels index ++
      shownRows source labels (some index) rest

/-- The lines of the text that are at most `context` lines away from the start of a label. -/
def shownLines (source : String) (labels : List Label) (context : Nat) : List Nat :=
  (List.range (Source.lines source).length).filter fun index =>
    labels.any fun l => l.line source - context ≤ index && index ≤ l.line source + context

namespace Diagnostic

/-- The labels in the order of their starts. -/
def sortedLabels (d : Diagnostic) : List Label :=
  d.labels.mergeSort fun a b => a.span.start ≤ b.span.start

/-- The rows that show the labels of a diagnostic; none if there are no labels. -/
def excerpt (d : Diagnostic) (context : Nat) (source : String) : List Row :=
  match d.sortedLabels with
  | [] => []
  | first :: rest =>
    let labels := first :: rest
    [.location (d.filename.getD "<machine>") (Source.position source first.span.start), .margin] ++
      shownRows source labels none (shownLines source labels context) ++ [.margin]

/-- The width of the margin: that of the greatest line number shown. -/
def marginWidth (d : Diagnostic) (context : Nat) (source : String) : Nat :=
  match (shownLines source d.sortedLabels context).getLast? with
  | some index => (toString (index + 1)).length
  | none => 1

end Diagnostic

/-! ## Writing out. -/

/-- A number of equal characters. -/
def repeated (n : Nat) (c : Char) : String := String.ofList (List.replicate n c)

/-- A text with blanks before it up to a width. -/
def padLeft (width : Nat) (s : String) : String := repeated (width - s.length) ' ' ++ s

/-- A row as a line of text. -/
def Row.text (layout : Layout) (severity : Severity) (width : Nat) : Row → String
  | .location filename p =>
    layout.paint .blue ++ repeated width ' ' ++ "--> " ++ layout.reset ++
      s!"{filename}:{p.line + 1}:{p.column + 1}\n"
  | .margin => layout.paint .blue ++ repeated width ' ' ++ " |" ++ layout.reset ++ "\n"
  | .gap => layout.paint .blue ++ "..." ++ layout.reset ++ "\n"
  | .source index line =>
    layout.paint .blue ++ padLeft width (toString (index + 1)) ++ " |" ++ layout.reset ++ " " ++
      layout.expandTabs line ++ "\n"
  | .carets offset length message =>
    layout.paint .blue ++ repeated width ' ' ++ " |" ++ layout.reset ++ " " ++
      repeated offset ' ' ++ layout.paint severity.color ++ repeated length '^' ++
      (if message.isEmpty then "" else " " ++ message) ++ layout.reset ++ "\n"

namespace Diagnostic

/-- The first line: severity, code and message. -/
def header (d : Diagnostic) (layout : Layout) : String :=
  layout.paint d.severity.color ++ d.severity.text ++
    (match d.code with
    | some code => s!"[{code}]"
    | none => "") ++
    layout.reset ++ ": " ++ layout.paint .white ++ d.message ++ layout.reset ++ "\n"

/-- A remark after the excerpt. -/
def trailer (layout : Layout) (kind : String) (color : Color) (remark : String) : String :=
  layout.paint .blue ++ " = " ++ layout.paint color ++ kind ++ layout.reset ++
    s!": {remark}\n"

/-- A diagnostic as text, with an excerpt of the source. -/
def render (layout : Layout) (d : Diagnostic) (source : String) : String :=
  let width := d.marginWidth layout.contextLines source
  d.header layout ++
    String.join ((d.excerpt layout.contextLines source).map (Row.text layout d.severity width)) ++
    String.join (d.notes.map (trailer layout "note" .cyan)) ++
    String.join (d.help.map (trailer layout "help" .green))

end Diagnostic

end BMethod
