import BMethod.Ty.Basic

/-!
# The store of type variables

A variable is free, or it awaits a choice between the integers and a kind of sets, or it is bound
to a type. The contents of its cell mention further variables; if no variable leads back to itself
along these mentions, every search below ends.

The searches (`head?`, `reaches?`, `resolve?`) count how many cells they have entered on the way
down. A way that enters more cells than the store has enters one of them twice and would go on
forever; the search then gives `none`.
-/

namespace BMethod

/-- What is known of a variable. -/
inductive Cell where
  | free
  /-- Not bound; either the integers or sets of `elem`. -/
  | setOrInteger (elem : Ty)
  /-- Not bound; either the integers or sets of pairs. -/
  | integerOrPairs (left right : Ty)
  | bound (t : Ty)
  deriving DecidableEq, Repr, Inhabited

namespace Cell

/-- The types held by a cell. -/
def contents : Cell → List Ty
  | .free => []
  | .setOrInteger elem => [elem]
  | .integerOrPairs left right => [left, right]
  | .bound t => [t]

/-- The variables mentioned in a cell, from left to right. -/
def mentions (c : Cell) : List Nat := c.contents.flatMap Ty.vars

/-- The number of type formers in a cell. -/
def size (c : Cell) : Nat := c.contents.foldr (fun t n => t.size + n) 0

end Cell

/-- The cells of the variables that have been allocated, or bound, so far. -/
structure Store where
  cells : Array Cell
  deriving DecidableEq, Repr, Inhabited

namespace Store

/-- The store without variables. -/
def empty : Store := ⟨#[]⟩

/-- The cell of a variable. One that was never allocated is free. -/
def cell (s : Store) (v : Nat) : Cell := s.cells[v]?.getD .free

/-- Puts a cell in place, after as many free cells as are missing before it. -/
def assign (s : Store) (v : Nat) (c : Cell) : Store :=
  ⟨(s.cells ++ Array.replicate (v + 1 - s.cells.size) Cell.free).setIfInBounds v c⟩

/-- The type of a new variable with the given cell, numbered after all others. -/
def allocate (s : Store) (c : Cell) : Ty × Store := (.var s.cells.size, ⟨s.cells.push c⟩)

/-- After an assignment the variable has the new cell and all others have theirs. -/
theorem cell_assign (s : Store) (v w : Nat) (c : Cell) :
    (s.assign v c).cell w = if w = v then c else s.cell w := by
  unfold assign cell
  by_cases h : w = v
  · subst h
    have hw : w < s.cells.size + (w + 1 - s.cells.size) := by omega
    simp [hw]
  · rw [Array.getElem?_setIfInBounds_ne (Ne.symm h), if_neg h, Array.getElem?_append,
      Array.getElem?_replicate]
    by_cases hs : w < s.cells.size
    · simp [hs]
    · by_cases hr : w - s.cells.size < v + 1 - s.cells.size <;> simp [hs, hr]

/-- After an allocation the new variable has its cell and all others have theirs. -/
theorem cell_allocate (s : Store) (c : Cell) (v : Nat) :
    (s.allocate c).2.cell v = if v = s.cells.size then c else s.cell v := by
  unfold allocate cell
  by_cases h : v = s.cells.size
  · subst h
    simp
  · simp [Array.getElem?_push, h]

/-- The number of cells and of type formers in them. -/
def size (s : Store) : Nat := s.cells.foldl (fun n c => n + c.size) s.cells.size

/-! ## Following bindings. -/

/-- The type at the end of a chain of at most `hops` bindings. -/
def headWithin (s : Store) : Nat → Ty → Option Ty
  | hops, .var v =>
    match s.cell v, hops with
    | .bound _, 0 => none
    | .bound t, hops + 1 => s.headWithin hops t
    | _, _ => some (.var v)
  | _, t => some t

/-- A type seen through bindings: no bound variable, but its parts may hold some. -/
def head? (s : Store) (t : Ty) : Option Ty := s.headWithin s.cells.size t

/-! ## Searching for a variable. -/

/-- Whether `target` is `v` or is found by following mentions from `v` through at most `hops`
cells, looking from left to right and stopping at the first find. -/
def reachesWithin (s : Store) (target : Nat) : Nat → Nat → Option Bool
  | 0, v => if v = target then some true else if (s.cell v).mentions = [] then some false else none
  | hops + 1, v =>
    if v = target then some true else (s.cell v).mentions.anyM (s.reachesWithin target hops)

/-- Whether a type mentions a variable, at once or through other variables. -/
def occurs? (s : Store) (v : Nat) (t : Ty) : Option Bool :=
  t.vars.anyM (s.reachesWithin v s.cells.size)

/-- Whether one of two variables is found behind the cell of the other. -/
def entangled? (s : Store) (a b : Nat) : Option Bool := do
  if ← (s.cell b).mentions.anyM (s.reachesWithin a s.cells.size) then
    return true
  (s.cell a).mentions.anyM (s.reachesWithin b s.cells.size)

/-! ## Resolving. -/

/-- What a variable stands for, given how to resolve the types in its cell. -/
def expand (s : Store) (inside : Ty → Option Ty) (v : Nat) : Option Ty :=
  match s.cell v with
  | .free => some (.var v)
  | .setOrInteger elem => return .setOrInteger (← inside elem)
  | .integerOrPairs left right => return .integerOrPairs (← inside left) (← inside right)
  | .bound t => inside t

/-- Resolves a type, entering at most `hops` cells one inside the other. -/
def resolveWithin (s : Store) : Nat → Ty → Option Ty
  | 0, t => t.bindVars (s.expand fun _ => none)
  | hops + 1, t => t.bindVars (s.expand (s.resolveWithin hops))

/-- A type with all that is known of its variables put in: a bound variable is replaced by its
type, and one that awaits a choice by the ambiguous type. -/
def resolve? (s : Store) (t : Ty) : Option Ty := s.resolveWithin s.cells.size t

end Store

end BMethod
