import BMethod.Json
import BMethod.Span
import BMethod.Ty.Basic

/-!
# Types and spans as JSON

A basic type is written as its name. Every other type is an object whose one key names the type
former and whose value holds the arguments: one argument on its own, two as an array, named
arguments as an object. Reading accepts what writing produces, and besides it objects with further
members, named arguments given by position, and a basic type as an object with the value `null`.
-/

namespace BMethod

/-- Variables and declarations are numbered below `2 ^ 32`. -/
def indexBound : Nat := 4294967296

/-- Offsets into a text are numbers below `2 ^ 64`. -/
def offsetBound : Nat := 18446744073709551616

/-- A set's identity as an object. -/
def SetId.toJson (id : SetId) : Json :=
  .object [("machine", .string id.machine), ("decl", .ofNat id.decl)]

/-- Reads a set's identity. -/
def SetId.ofJson? (j : Json) : Option SetId := do
  let [machine, decl] ← j.fields? ["machine", "decl"] | none
  return ⟨← machine.string?, ← decl.natBelow? indexBound⟩

/-- A span as an object. -/
def Span.toJson (s : Span) : Json := .object [("start", .ofNat s.start), ("end", .ofNat s.stop)]

/-- Reads a span. -/
def Span.ofJson? (j : Json) : Option Span := do
  let [start, stop] ← j.fields? ["start", "end"] | none
  return ⟨← start.natBelow? offsetBound, ← stop.natBelow? offsetBound⟩

namespace Ty

/-! ## Writing. -/

mutual

/-- A type as JSON. -/
def toJson : Ty → Json
  | .var v => .object [("Untyped", .ofNat v)]
  | .integer => .string "Integer"
  | .bool => .string "Bool"
  | .string => .string "String"
  | .real => .string "Real"
  | .set elem => .object [("Set", toJson elem)]
  | .couple left right => .object [("Couple", .array [toJson left, toJson right])]
  | .record fields => .object [("Record", .object [("fields", .array (fieldsToJson fields))])]
  | .enumerated id name literals =>
    .object [("EnumeratedSetElement",
      .object [("id", id.toJson), ("name", .string name), ("literals", .strings literals)])]
  | .deferred id name =>
    .object [("DeferredSetElement", .object [("id", id.toJson), ("name", .string name)])]
  | .setOrInteger elem => .object [("SetOrInteger", toJson elem)]
  | .integerOrPairs left right => .object [("IntegerOrPairs", .array [toJson left, toJson right])]

/-- Fields as pairs of a name and a type. -/
def fieldsToJson : List (String × Ty) → List Json
  | [] => []
  | (name, t) :: fields => .array [.string name, toJson t] :: fieldsToJson fields

end

/-! ## Reading. -/

/-- The basic types by their names. -/
def basicOfName? : String → Option Ty
  | "Integer" => some .integer
  | "Bool" => some .bool
  | "String" => some .string
  | "Real" => some .real
  | _ => none

/-- Reads the element type of an enumerated set. -/
def enumeratedOfJson? (j : Json) : Option Ty := do
  let [id, name, literals] ← j.fields? ["id", "name", "literals"] | none
  return .enumerated (← SetId.ofJson? id) (← name.string?)
    (← (← literals.array?).mapM Json.string?)

/-- Reads the element type of a deferred set. -/
def deferredOfJson? (j : Json) : Option Ty := do
  let [id, name] ← j.fields? ["id", "name"] | none
  return .deferred (← SetId.ofJson? id) (← name.string?)

mutual

/-- Reads a type. -/
def ofJson? : Json → Option Ty
  | .string name => basicOfName? name
  | .object [(former, argument)] =>
    match former with
    | "Untyped" => return .var (← argument.natBelow? indexBound)
    | "Set" => return .set (← ofJson? argument)
    | "SetOrInteger" => return .setOrInteger (← ofJson? argument)
    | "Couple" => do
      let (left, right) ← pairOfJson? argument
      return .couple left right
    | "IntegerOrPairs" => do
      let (left, right) ← pairOfJson? argument
      return .integerOrPairs left right
    | "Record" => return .record (← recordOfJson? argument)
    | "EnumeratedSetElement" => enumeratedOfJson? argument
    | "DeferredSetElement" => deferredOfJson? argument
    | basic =>
      match argument with
      | .null => basicOfName? basic
      | _ => none
  | _ => none

/-- Reads two types from an array of two. -/
def pairOfJson? : Json → Option (Ty × Ty)
  | .array [left, right] => return (← ofJson? left, ← ofJson? right)
  | _ => none

/-- Reads the named argument of a record type, its fields. -/
def recordOfJson? : Json → Option (List (String × Ty))
  | .array [fields] => fieldsOfJson? fields
  | .object members => memberFields? members
  | _ => none

/-- Reads the fields from the first member that holds them. -/
def memberFields? : List (String × Json) → Option (List (String × Ty))
  | [] => none
  | (key, value) :: members => if key = "fields" then fieldsOfJson? value else memberFields? members

/-- Reads an array of fields. -/
def fieldsOfJson? : Json → Option (List (String × Ty))
  | .array items => fieldItems? items
  | _ => none

/-- Reads each item as a field. -/
def fieldItems? : List Json → Option (List (String × Ty))
  | [] => some []
  | item :: items => return (← fieldOfJson? item) :: (← fieldItems? items)

/-- Reads a field from an array of a name and a type. -/
def fieldOfJson? : Json → Option (String × Ty)
  | .array [.string name, t] => return (name, ← ofJson? t)
  | _ => none

end

end Ty

end BMethod
