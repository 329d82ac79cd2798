import BMethod.Machine
import BMethod.Ty.Json

/-!
# Type reports

A summary of the types of a machine: its sets, constants, variables and operations by name, each
with its type if it has one. A report is written as JSON and read back.
-/

namespace BMethod

/-- A name and its type, if it has one. -/
structure TypedName where
  name : String
  ty : Option Ty
  deriving DecidableEq, Repr

/-- The types of an operation's parameters and outputs. -/
structure OperationReport where
  name : String
  params : List TypedName
  outputs : List TypedName
  deriving DecidableEq, Repr

/-- The types of a machine. -/
structure Report where
  machine : String
  /-- Enumerated sets, then deferred sets. -/
  sets : List TypedName
  constants : List TypedName
  /-- The machine's own variables, then those taken over. -/
  vars : List TypedName
  operations : List OperationReport
  deriving DecidableEq, Repr

/-- The names and types of those declarations that exist. -/
def Declarations.typedNames (ds : Declarations) (ids : List Nat) : List TypedName :=
  (ds.existing ids).map fun d => ⟨d.name, d.ty⟩

/-- The report of a machine. -/
def Report.ofMachine (m : Machine) : Report where
  machine := m.name
  sets := m.decls.typedNames (m.enumerated.map (·.set) ++ m.deferred)
  constants := m.decls.typedNames m.constants
  vars := m.decls.typedNames m.vars ++ m.decls.typedNames m.included
  operations := m.operations.map fun o =>
    ⟨o.name, m.decls.typedNames o.params, m.decls.typedNames o.outputs⟩

/-- All names of a report. -/
def Report.names (r : Report) : List TypedName :=
  r.sets ++ r.constants ++ r.vars ++ r.operations.flatMap fun o => o.params ++ o.outputs

/-- Whether every name has a type. -/
def Report.isComplete (r : Report) : Bool := r.names.all (·.ty.isSome)

/-! ## Writing. -/

/-- A name and its type as an object. -/
def TypedName.toJson (n : TypedName) : Json :=
  .object [("name", .string n.name), ("ty", (n.ty.map Ty.toJson).getD .null)]

/-- The types of an operation as an object. -/
def OperationReport.toJson (o : OperationReport) : Json :=
  .object [("name", .string o.name), ("params", .array (o.params.map TypedName.toJson)),
    ("outputs", .array (o.outputs.map TypedName.toJson))]

/-- A report as an object. -/
def Report.toJson (r : Report) : Json :=
  .object [("machine", .string r.machine), ("sets", .array (r.sets.map TypedName.toJson)),
    ("constants", .array (r.constants.map TypedName.toJson)),
    ("variables", .array (r.vars.map TypedName.toJson)),
    ("operations", .array (r.operations.map OperationReport.toJson))]

/-! ## Reading. -/

/-- Reads a type that may be `null`. -/
def Ty.ofNullable? : Json → Option (Option Ty)
  | .null => some none
  | j => (Ty.ofJson? j).map some

/-- Reads a name and its type. In an object the type may be missing. -/
def TypedName.ofJson? : Json → Option TypedName
  | .array [name, ty] => return ⟨← name.string?, ← Ty.ofNullable? ty⟩
  | .object members => do
    let name ← members.lookup "name"
    return ⟨← name.string?, ← Ty.ofNullable? ((members.lookup "ty").getD .null)⟩
  | _ => none

/-- Reads an array of names and types. -/
def TypedName.listOfJson? (j : Json) : Option (List TypedName) := do
  (← j.array?).mapM TypedName.ofJson?

/-- Reads the types of an operation. -/
def OperationReport.ofJson? (j : Json) : Option OperationReport := do
  let [name, params, outputs] ← j.fields? ["name", "params", "outputs"] | none
  return ⟨← name.string?, ← TypedName.listOfJson? params, ← TypedName.listOfJson? outputs⟩

/-- Reads a report. -/
def Report.ofJson? (j : Json) : Option Report := do
  let [machine, sets, constants, vars, operations] ←
    j.fields? ["machine", "sets", "constants", "variables", "operations"] | none
  return ⟨← machine.string?, ← TypedName.listOfJson? sets, ← TypedName.listOfJson? constants,
    ← TypedName.listOfJson? vars, ← (← operations.array?).mapM OperationReport.ofJson?⟩

end BMethod
