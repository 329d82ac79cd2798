import BMethod.Span
import BMethod.Ty.Basic

/-!
# Declarations

Every name that a machine or formula introduces is declared once and referred to by its number.
The declaration has a slot for its type, empty until something is known. Numbers that belong to no
declaration are allowed everywhere and mean nothing.
-/

namespace BMethod

/-- A declared name: a set, constant, variable, parameter or bound identifier. -/
structure Declaration where
  name : String
  span : Option Span
  ty : Option Ty
  /-- For a name taken over from another machine, what it was qualified with. -/
  qualifier : Option String
  deriving DecidableEq, Repr, Inhabited

namespace Declaration

/-- A name of which nothing else is known. -/
def named (name : String) : Declaration := ⟨name, none, none, none⟩

/-- The description of a declaration in messages. -/
def describe (d : Declaration) : String := s!"declaration `{d.name}`"

end Declaration

/-- The declarations of one machine or formula, numbered from zero. -/
structure Declarations where
  all : Array Declaration
  deriving DecidableEq, Repr, Inhabited

namespace Declarations

/-- No declarations. -/
def empty : Declarations := ⟨#[]⟩

/-- The declaration with a number. -/
def get? (ds : Declarations) (id : Nat) : Option Declaration := ds.all[id]?

/-- The type of a declaration, if it exists and has one. -/
def ty? (ds : Declarations) (id : Nat) : Option Ty := do (← ds.get? id).ty

/-- The name of a declaration, empty if there is none. -/
def nameOf (ds : Declarations) (id : Nat) : String := ((ds.get? id).map (·.name)).getD ""

/-- How many declarations there are. -/
def size (ds : Declarations) : Nat := ds.all.size

/-- Adds a declaration and gives its number. -/
def declare (ds : Declarations) (d : Declaration) : Nat × Declarations :=
  (ds.all.size, ⟨ds.all.push d⟩)

/-- Adds one declaration per name and gives their numbers. -/
def declareAll (ds : Declarations) : List String → List Nat × Declarations
  | [] => ([], ds)
  | name :: names =>
    let (id, ds) := ds.declare (.named name)
    let (ids, ds) := ds.declareAll names
    (id :: ids, ds)

/-- Fills or empties the slot of a declaration, if it exists. -/
def setTy (ds : Declarations) (id : Nat) (ty : Option Ty) : Declarations :=
  ⟨ds.all.modify id fun d => { d with ty }⟩

/-- Filling a slot changes that slot alone. -/
theorem get?_setTy (ds : Declarations) (id i : Nat) (ty : Option Ty) :
    (ds.setTy id ty).get? i =
      if id = i then (ds.get? i).map fun d => { d with ty } else ds.get? i := by
  unfold setTy get?
  rw [Array.getElem?_modify]

/-- A new declaration is found under its number and all others under theirs. -/
theorem get?_declare (ds : Declarations) (d : Declaration) (i : Nat) :
    (ds.declare d).2.get? i = if i = ds.size then some d else ds.get? i := by
  unfold declare get? size
  rw [Array.getElem?_push]

/-- Empties all slots. -/
def clear (ds : Declarations) : Declarations := ⟨ds.all.map fun d => { d with ty := none }⟩

/-- Those of the given declarations that exist. -/
def existing (ds : Declarations) (ids : List Nat) : List Declaration := ids.filterMap ds.get?

end Declarations

end BMethod
