import BMethod.Unifier.Unify

/-!
# Products

The operator `*` is the product of integers or the Cartesian product of sets. As long as neither
is known, its result and its two operands are tied by a link: once one of the three turns out to be
an integer, so are the other two, and once one turns out to be a set, the result is a set of pairs
and the operands are sets of their halves. A unifier is a store with the links that are still open.

Every unification is followed by deciding links, the earliest that can be decided first, until none
can. A link is gone from the list before its equations are unified.
-/

namespace BMethod

/-- The tie between a product and its operands. -/
structure ProductLink where
  result : Ty
  left : Ty
  right : Ty
  leftElem : Ty
  rightElem : Ty
  deriving DecidableEq, Repr

/-- How to read an operator that works on integers and on sets. -/
inductive Reading where
  | integers
  | sets
  deriving DecidableEq, Repr

namespace Store

/-- The reading that a type decides, if it decides one. -/
def reading? (s : Store) (t : Ty) : Option (Option Reading) := do
  match ← s.head? t with
  | .integer => return some .integers
  | .set _ => return some .sets
  | _ => return none

/-- The reading that the first deciding type of a list decides. -/
def firstReading? (s : Store) : List Ty → Option (Option Reading)
  | [] => return none
  | t :: ts => do
    match ← s.reading? t with
    | some r => return some r
    | none => s.firstReading? ts

end Store

namespace ProductLink

/-- The reading that the result or an operand decides. -/
def reading? (link : ProductLink) (s : Store) : Option (Option Reading) :=
  s.firstReading? [link.result, link.left, link.right]

/-- The types that result, left and right operand have under a reading. -/
def types (link : ProductLink) : Reading → Ty × Ty × Ty
  | .integers => (.integer, .integer, .integer)
  | .sets => (.relation link.leftElem link.rightElem, .set link.leftElem, .set link.rightElem)

/-- Gives the result and the operands the types of a reading. -/
def decide (link : ProductLink) (r : Reading) : StoreM Unit := do
  let (result, left, right) := link.types r
  discard (Store.unify link.result result)
  discard (Store.unify link.left left)
  discard (Store.unify link.right right)

end ProductLink

/-- The first link that can be decided, its reading, and the other links. -/
def Store.firstDecided? (s : Store) :
    List ProductLink → Option (Option (ProductLink × Reading × List ProductLink))
  | [] => return none
  | link :: links => do
    match ← link.reading? s with
    | some r => return some (link, r, links)
    | none =>
      match ← s.firstDecided? links with
      | some (other, r, rest) => return some (other, r, link :: rest)
      | none => return none

/-- A store of type variables and the open links of products. -/
structure Unifier where
  store : Store
  links : List ProductLink
  deriving DecidableEq, Repr

/-- Computations on a unifier that may fail and keep what they did to it. -/
abbrev UnifierM := ExceptT (Halt UnifyError) (StateM Unifier)

namespace Unifier

/-- The unifier without variables and links. -/
def empty : Unifier := ⟨.empty, []⟩

/-- Runs a computation on the store alone. -/
def onStore {α : Type} (x : StoreM α) : UnifierM α := fun ⟨store, links⟩ =>
  match x store with
  | (result, store) => (result, ⟨store, links⟩)

/-- A new variable with the given cell. -/
def allocate (u : Unifier) (c : Cell) : Ty × Unifier :=
  match u.store.allocate c with
  | (t, store) => (t, ⟨store, u.links⟩)

/-- Decides at most `rounds` links, one after the other. -/
def decideWithin : Nat → UnifierM Unit
  | 0 => return ()
  | rounds + 1 => do
    let u ← get
    match u.store.firstDecided? u.links with
    | none => throw .divergence
    | some none => return ()
    | some (some (link, r, rest)) =>
      set { u with links := rest }
      onStore (link.decide r)
      decideWithin rounds

/-- Decides links until none can be decided. -/
def decideLinks : UnifierM Unit := do
  decideWithin (← get).links.length

/-- Unifies two types and decides what follows for products. -/
def unify (left right : Ty) : UnifierM Ty := do
  let t ← onStore (Store.unify left right)
  decideLinks
  return t

/-- Adds a link after the others and decides what follows for products. -/
def link (l : ProductLink) : UnifierM Unit := do
  modify fun u => { u with links := u.links ++ [l] }
  decideLinks

end Unifier

end BMethod
