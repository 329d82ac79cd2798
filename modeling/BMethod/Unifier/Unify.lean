import BMethod.Halt
import BMethod.Ty.Text
import BMethod.Unifier.Store

/-!
# Unification

Two types are made equal by binding variables. A variable that awaits the choice between integers
and sets may be bound only to the integers or to a set, and in the second case the element types
are unified too; two such variables are joined and their alternatives unified. An ambiguous type
that is met on the way becomes a new variable awaiting the choice.

Bindings made before a failure stay in the store. `unifyWithin` is bounded by the depth of its
recursion and `unify` gives it the depth that suffices on every store in which no variable leads
back to itself: a step goes down one type former or through a variable, and what was looked through
comes back only after another variable has been bound. There are no more variables and type formers
than the store and the two types have.
-/

namespace BMethod

/-- Why two types can not be made equal. -/
inductive UnifyError where
  /-- Two types of different kinds. -/
  | mismatch (left right : Ty)
  /-- A variable would have to stand for a type that contains it. -/
  | occurs (v : Nat) (t : Ty)
  deriving DecidableEq, Repr

/-- The message of a failed unification. -/
def UnifyError.text : UnifyError → String
  | .mismatch left right => s!"cannot unify {left.text} with {right.text}"
  | .occurs v t => s!"type variable {(Ty.var v).text} occurs in {t.text}"

/-- Computations on a store that may fail and keep what they did to it. -/
abbrev StoreM := ExceptT (Halt UnifyError) (StateM Store)

namespace Store

/-- Asks the store. -/
def ask {α : Type} (search : Store → Option α) : StoreM α := do
  match search (← get) with
  | some a => return a
  | none => throw .divergence

/-- A type with all that is known put in. -/
def resolved (t : Ty) : StoreM Ty := ask (·.resolve? t)

/-- A new variable. -/
def new (c : Cell) : StoreM Ty := modifyGet (·.allocate c)

/-- Sets what is known of a variable. -/
def put (v : Nat) (c : Cell) : StoreM Unit := modify (·.assign v c)

/-- Fails on two types as they are known now. -/
def clash {α : Type} (left right : Ty) : StoreM α := do
  throw (.error (.mismatch (← resolved left) (← resolved right)))

/-- An ambiguous type as a variable that awaits the choice; any other type as it is. -/
def awaiting : Ty → StoreM Ty
  | .setOrInteger elem => new (.setOrInteger elem)
  | .integerOrPairs left right => new (.integerOrPairs left right)
  | t => pure t

/-- Binds an unbound variable to a type that is no variable, after unifying what the variable's
alternatives say about the elements. -/
def bind (unify : Ty → Ty → StoreM Ty) (v : Nat) (t : Ty) : StoreM Ty := do
  if ← ask (·.occurs? v t) then
    throw (.error (.occurs v (← resolved t)))
  match (← get).cell v, t with
  | .setOrInteger _, .integer => pure ()
  | .setOrInteger elem, .set inner => discard (unify elem inner)
  | .setOrInteger elem, t => clash (.setOrInteger elem) t
  | .integerOrPairs _ _, .integer => pure ()
  | .integerOrPairs left right, .set inner => discard (unify inner (.couple left right))
  | .integerOrPairs left right, t => clash (.integerOrPairs left right) t
  | _, _ => pure ()
  put v (.bound t)
  return t

/-- Joins two unbound variables and unifies their alternatives. The second stands for both, unless
it is free and the first is not, or it knows less about the shape of the elements. -/
def merge (unify : Ty → Ty → StoreM Ty) (a b : Nat) : StoreM Ty := do
  if ← ask (·.entangled? a b) then
    throw (.error (.occurs a (← resolved (.var b))))
  match (← get).cell a, (← get).cell b with
  | .setOrInteger x, .setOrInteger y =>
    put a (.bound (.var b))
    discard (unify x y)
    return .var b
  | .setOrInteger elem, .integerOrPairs left right =>
    put a (.bound (.var b))
    discard (unify elem (.couple left right))
    return .var b
  | .integerOrPairs left right, .setOrInteger elem =>
    put b (.bound (.var a))
    discard (unify elem (.couple left right))
    return .var a
  | .integerOrPairs x y, .integerOrPairs z w =>
    put a (.bound (.var b))
    discard (unify x z)
    discard (unify y w)
    return .var b
  | .setOrInteger _, _ | .integerOrPairs _ _, _ =>
    put b (.bound (.var a))
    return .var a
  | _, _ =>
    put a (.bound (.var b))
    return .var b

/-- Unifies the types of fields pairwise, under the names of the first list. -/
def unifyFields (unify : Ty → Ty → StoreM Ty) :
    List (String × Ty) → List (String × Ty) → StoreM (List (String × Ty))
  | (name, s) :: as, (_, t) :: bs => do
    let u ← unify s t
    return (name, u) :: (← unifyFields unify as bs)
  | _, _ => return []

/-- Unifies two types, going down at most `depth` steps. -/
def unifyWithin : Nat → Ty → Ty → StoreM Ty
  | 0, _, _ => throw .divergence
  | depth + 1, left, right => do
    let left ← awaiting (← ask (·.head? left))
    let right ← awaiting (← ask (·.head? right))
    match left, right with
    | .var a, .var b => if a = b then return .var a else merge (unifyWithin depth) a b
    | .var v, t | t, .var v => bind (unifyWithin depth) v t
    | .integer, .integer => return .integer
    | .bool, .bool => return .bool
    | .string, .string => return .string
    | .real, .real => return .real
    | .set s, .set t => return .set (← unifyWithin depth s t)
    | .couple a b, .couple c d => do
      let first ← unifyWithin depth a c
      return .couple first (← unifyWithin depth b d)
    | .record as, .record bs =>
      if Ty.sameNames as bs then return .record (← unifyFields (unifyWithin depth) as bs)
      else clash left right
    | .enumerated i name literals, .enumerated j _ _ =>
      if i = j then return .enumerated i name literals else clash left right
    | .deferred i name, .deferred j _ =>
      if i = j then return .deferred i name else clash left right
    | left, right => clash left right

/-- A depth that unifying two types does not exceed, if no variable leads back to itself. -/
def depthBound (s : Store) (left right : Ty) : Nat :=
  let n := 2 * (s.size + left.size + right.size)
  n * n * n

/-- Unifies two types and gives the type that both have become. -/
def unify (left right : Ty) : StoreM Ty := do
  unifyWithin ((← get).depthBound left right) left right

end Store

end BMethod
