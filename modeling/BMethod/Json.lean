/-!
# JSON values

The values of JSON and how to look into them. What a number is depends on how it is written: `1` is
an integer, while `1.0` and `1e0` are not, although they have the same value. Looking in never
converts one kind of value into another.
-/

namespace BMethod

/-- A JSON value. -/
inductive Json where
  | null
  | bool (b : Bool)
  /-- A number written with digits alone, or with a minus sign before digits. -/
  | integer (n : Int)
  /-- Any other number, as it is written. -/
  | decimal (numeral : String)
  | string (s : String)
  | array (items : List Json)
  | object (members : List (String × Json))
  deriving Repr, Inhabited

namespace Json

/-- The number of a natural number. -/
def ofNat (n : Nat) : Json := .integer n

/-- The natural number that some digits stand for. -/
def natOfDigits? (cs : List Char) : Option Nat :=
  if cs.isEmpty || !cs.all Char.isDigit then none
  else some (cs.foldl (fun n c => 10 * n + (c.toNat - '0'.toNat)) 0)

/-- The value of a numeral. A point or an exponent makes it a decimal whatever its value, and so
does a minus sign before zero, since no integer is written that way. -/
def ofNumeral (numeral : String) : Json :=
  match numeral.toList with
  | '-' :: cs =>
    match natOfDigits? cs with
    | some (n + 1) => .integer (.negSucc n)
    | _ => .decimal numeral
  | cs =>
    match natOfDigits? cs with
    | some n => .integer n
    | none => .decimal numeral

/-- An array of strings. -/
def strings (ss : List String) : Json := .array (ss.map .string)

/-- An integer that is a natural number below `bound`. -/
def natBelow? (bound : Nat) : Json → Option Nat
  | .integer (.ofNat n) => if n < bound then some n else none
  | _ => none

/-- The text of a string. -/
def string? : Json → Option String
  | .string s => some s
  | _ => none

/-- The items of an array. -/
def array? : Json → Option (List Json)
  | .array items => some items
  | _ => none

/-- The values under the given keys. An array with one item per key gives them by position. -/
def fields? (keys : List String) : Json → Option (List Json)
  | .array items => if items.length = keys.length then some items else none
  | .object members => keys.mapM fun key => members.lookup key
  | _ => none

end Json

end BMethod
