import BMethod.Declaration
import BMethod.Typing.Event
import BMethod.Unifier.Product

/-!
# The state of a check

A check walks through a formula with the declarations it refers to, a unifier and the events
reported so far. A failure does not undo what was done before it: the declarations, and the part of
the formula already walked through, keep the types they were given. Walking through a node therefore
returns the node as it has become beside the verdict.
-/

namespace BMethod

/-- What a check works on. -/
structure State where
  decls : Declarations
  unifier : Unifier
  /-- The events so far, the latest first. -/
  events : List Event

/-- The outcome of a part of a check. -/
abbrev Verdict (α : Type) := Except (Halt TypeError) α

/-- Steps of a check. A step that may fail returns a verdict. -/
abbrev CheckM := StateM State

/-- What walking through a node leaves: the node as it has become, and the verdict. -/
abbrev Visited (ν α : Type) := ν × Verdict α

namespace CheckM

/-- Ends a walk well. -/
def done {ν α : Type} (node : ν) (a : α) : CheckM (Visited ν α) := return (node, .ok a)

/-- Ends a walk with an error. -/
def fail {ν α : Type} (node : ν) (e : TypeError) : CheckM (Visited ν α) :=
  return (node, .error (.error e))

/-- Walks through a part and goes on with the whole. If the part fails, so does the whole, with the
part as far as it got put back in place. -/
def andThen {π ν α β : Type} (part : CheckM (Visited π α)) (whole : π → ν)
    (next : π → α → CheckM (Visited ν β)) : CheckM (Visited ν β) := do
  match ← part with
  | (p, .ok a) => next p a
  | (p, .error e) => return (whole p, .error e)

/-- Goes on with a node after a step that leaves the node as it is. -/
def orFail {ν α β : Type} (step : CheckM (Verdict α)) (node : ν)
    (next : α → CheckM (Visited ν β)) : CheckM (Visited ν β) := do
  match ← step with
  | .ok a => next a
  | .error e => return (node, .error e)

/-- Forgets the result of a walk and keeps whether it failed. -/
def ignore {ν α : Type} (walk : CheckM (Visited ν α)) : CheckM (Visited ν Unit) :=
  walk.andThen id fun node _ => done node ()

/-- Walks through something that may be missing. -/
def optional {ν : Type} (walk : ν → CheckM (Visited ν Unit)) :
    Option ν → CheckM (Visited (Option ν) Unit)
  | none => done none ()
  | some x => (walk x).andThen some fun x _ => done (some x) ()

end CheckM

namespace State

/-- The state at the start of a check. -/
def start (decls : Declarations) : State := ⟨decls, .empty, []⟩

/-- Reports an event. -/
def report (e : Event) : CheckM Unit := modify fun s => { s with events := e :: s.events }

/-- Runs a computation on the unifier alone. -/
def onUnifier {α : Type} (x : UnifierM α) : CheckM (Except (Halt UnifyError) α) :=
  fun ⟨decls, unifier, events⟩ =>
    match x unifier with
    | (result, unifier) => (result, ⟨decls, unifier, events⟩)

/-! ## Variables. -/

/-- A new variable with the given cell. -/
def allocate (c : Cell) : CheckM Ty := modifyGet fun ⟨decls, unifier, events⟩ =>
  match unifier.allocate c with
  | (t, unifier) => (t, ⟨decls, unifier, events⟩)

/-- A new variable of which nothing is known. -/
def fresh : CheckM Ty := allocate .free

/-- New variables of which nothing is known. -/
def freshList : Nat → CheckM (List Ty)
  | 0 => return []
  | n + 1 => do
    let t ← fresh
    return t :: (← freshList n)

/-- A type with all that is known put in. -/
def resolve (t : Ty) : CheckM (Verdict Ty) := do
  match (← get).unifier.store.resolve? t with
  | some t => return .ok t
  | none => return .error .divergence

/-! ## Declarations. -/

/-- The type of a declaration. If its slot is empty, a new variable is put there. -/
def declaredType (id : Nat) : CheckM (Option Ty) := do
  match (← get).decls.get? id with
  | none => return none
  | some { ty := some t, .. } => return some t
  | some { ty := none, .. } =>
    let t ← fresh
    modify fun s => { s with decls := s.decls.setTy id (some t) }
    return some t

/-- The types of those declarations that exist. -/
def declaredTypes : List Nat → CheckM (List Ty)
  | [] => return []
  | id :: ids => do
    let t ← declaredType id
    return t.toList ++ (← declaredTypes ids)

/-- Makes sure that declarations have types. -/
def declare (ids : List Nat) : CheckM Unit := discard (declaredTypes ids)

/-- Gives each declaration a new variable in place of what it had. -/
def redeclare : List Nat → CheckM Unit
  | [] => return ()
  | id :: ids => do
    let t ← fresh
    modify fun s => { s with decls := s.decls.setTy id (some t) }
    redeclare ids

/-- The type of a declaration, or a new variable if there is no such declaration. -/
def declaredOrFresh (id : Nat) : CheckM Ty := do
  match ← declaredType id with
  | some t => return t
  | none => fresh

/-- The type of what an identifier refers to. A missing declaration is reported. -/
def identifierType (id : Nat) (name : String) : CheckM Ty := do
  match ← declaredType id with
  | some t => return t
  | none =>
    report (.undeclared name)
    fresh

/-- Fails on the first declaration that has a type which is not concrete. -/
def requireConcrete (what : Subject) : List Nat → CheckM (Verdict Unit)
  | [] => return .ok ()
  | id :: ids => do
    match (← get).decls.get? id with
    | some { ty := some t, name, span, .. } =>
      match ← resolve t with
      | .error e => return .error e
      | .ok t =>
        if t.isConcrete then requireConcrete what ids
        else return .error (.error (.unresolved what name t span))
    | _ => requireConcrete what ids

/-! ## Unifying at a place. -/

/-- The failure to unify at a place, with both types as they are known now. -/
def mismatch {α : Type} (site : Site) (expected found : Ty) :
    Halt UnifyError → CheckM (Verdict α)
  | .divergence => return .error .divergence
  | .error cause => do
    match ← resolve expected with
    | .error e => return .error e
    | .ok expected =>
      match ← resolve found with
      | .error e => return .error e
      | .ok found => return .error (.error (.mismatch expected found site cause))

/-- Unifies what a place requires with what stands there. -/
def unifyAt (site : Site) (expected found : Ty) : CheckM (Verdict Ty) := do
  match ← onUnifier (Unifier.unify expected found) with
  | .ok t => return .ok t
  | .error e => mismatch site expected found e

/-- Ties a product to its operands. -/
def linkAt (site : Site) (expected found : Ty) (link : ProductLink) : CheckM (Verdict Unit) := do
  match ← onUnifier (Unifier.link link) with
  | .ok () => return .ok ()
  | .error e => mismatch site expected found e

end State

end BMethod
