/-!
# Source text

The text of a machine or formula, by lines. An offset counts bytes of the UTF-8 form; a position
counts lines and characters. A text is cut into lines at every line feed, and `lines`, `lineStarts`
and `position` are three views of that one cut.
-/

namespace BMethod

/-- A line and a column in characters, both counted from zero. -/
structure Position where
  line : Nat
  column : Nat
  deriving DecidableEq, Repr, Inhabited

/-- The position after one more character. -/
def Position.advance (p : Position) (c : Char) : Position :=
  if c = '\n' then ⟨p.line + 1, 0⟩ else ⟨p.line, p.column + 1⟩

namespace Source

/-- The characters that begin before a byte offset. -/
def charsBefore : Nat → List Char → List Char
  | _, [] => []
  | offset, c :: cs => if offset = 0 then [] else c :: charsBefore (offset - c.utf8Size) cs

/-- The position at a byte offset: where one stands after reading all characters that begin
before it. An offset past the end has the position of the end. -/
def position (source : String) (offset : Nat) : Position :=
  (charsBefore offset source.toList).foldl Position.advance ⟨0, 0⟩

/-- The offsets just after each line feed, for characters that begin at `offset`. -/
def startsAfter (offset : Nat) : List Char → List Nat
  | [] => []
  | c :: cs =>
    if c = '\n' then (offset + c.utf8Size) :: startsAfter (offset + c.utf8Size) cs
    else startsAfter (offset + c.utf8Size) cs

/-- The byte offsets at which lines start: zero, and the offset after each line feed. -/
def lineStarts (source : String) : List Nat := 0 :: startsAfter 0 source.toList

/-- The lines of a list of characters. A line feed ends a line, together with a carriage return
right before it; an end that leaves no characters behind starts no further line. -/
def splitLines : List Char → List (List Char)
  | [] => []
  | '\n' :: cs => [] :: splitLines cs
  | '\r' :: '\n' :: cs => [] :: splitLines cs
  | c :: cs =>
    match splitLines cs with
    | [] => [[c]]
    | l :: ls => (c :: l) :: ls

/-- The lines of a text, without their ends. -/
def lines (source : String) : List String := (splitLines source.toList).map String.ofList

end Source

end BMethod
