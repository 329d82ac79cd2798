import BMethod.Node
import BMethod.Typing.Formula

/-!
# Concluding a check

After the walk all that can be learnt is in the unifier. Concluding puts it into the slots: every
node that has a concrete type gets it, and a difference or product whose type is a set is read as
the set operator. Then every declaration gets its type.

What has no concrete type keeps its slot and makes the check fail. Of several such places one is
reported: an operator that reads two ways or an empty collection before a declaration, and a
declaration before any other node; among those of one kind, the first. Declarations are settled in
order up to the one that is reported, and not at all if an operator is.
-/

namespace BMethod

open State CheckM

/-- The operator that a type tells an ambiguous operator to be. -/
def Operator.reread? : Operator → Ty → Option Operator
  | .minus, .set _ => some .setSubtraction
  | .mult, .set _ => some .cartesianProduct
  | _, _ => none

/-- A check during the sweep through its nodes, with the first failures found. -/
structure Sweep where
  state : State
  /-- The first operator without a concrete type that is reported by its own name. -/
  undecided : Option TypeError
  /-- The first other node without a concrete type. -/
  untyped : Option TypeError

/-- Steps of a sweep; `none` if resolving a type would not end. -/
abbrev SweepM := StateT Sweep Option

namespace Sweep

/-- What is known of a slot. Nothing is known of an empty slot, and a new variable says so. -/
def slotType (n : Note) : SweepM Ty := do
  let sweep ← get
  match n.ty with
  | some t => sweep.state.unifier.store.resolve? t
  | none =>
    let (t, state) := State.fresh sweep.state
    set { sweep with state }
    return t

/-- Remembers a node without a concrete type, if it is the first of its kind. -/
def blame (what : Subject) (name : String) (t : Ty) (span : Option Span) : SweepM Unit :=
  let e := TypeError.unresolved what name t span
  modify fun sweep =>
    match what with
    | .operator => { sweep with undecided := sweep.undecided <|> some e }
    | _ => { sweep with untyped := sweep.untyped <|> some e }

/-- Reports that an operator is read on sets. -/
def reportReread (before after : Operator) : SweepM Unit := modify fun sweep =>
  { sweep with state := (State.report (.rereads before after) sweep.state).2 }

/-- Puts the type of an expression into its slot and settles how its operator is read. -/
def expr (e : Expr) : SweepM Expr := do
  let t ← slotType e.note
  match e with
  | .apply n op args =>
    if t.isConcrete then
      match op.reread? t with
      | some after =>
        reportReread op after
        return .apply (n.withTy t) after args
      | none => return .apply (n.withTy t) op args
    else
      if op.isTracked then blame .operator op.name t n.span
      else blame .expression (Expr.apply n op args).describe t n.span
      return .apply n op args
  | e =>
    if t.isConcrete then return e.withTy t
    else
      blame .expression e.describe t e.note.span
      return e

/-- Puts the type of a predicate into its slot. -/
def pred (p : Pred) : SweepM Pred := do
  let t ← slotType p.note
  if t.isConcrete then return p.withTy t
  else
    blame .expression p.describe t p.note.span
    return p

end Sweep

/-- Puts the types of declarations into their slots, up to the first that is not concrete. -/
def settleDeclarations (s : Store) : List Declaration → List Declaration × Verdict Unit
  | [] => ([], .ok ())
  | d :: ds =>
    match d.ty with
    | none =>
      let (ds, verdict) := settleDeclarations s ds
      (d :: ds, verdict)
    | some t =>
      match s.resolve? t with
      | none => (d :: ds, .error .divergence)
      | some t =>
        if t.isConcrete then
          let (ds, verdict) := settleDeclarations s ds
          ({ d with ty := some t } :: ds, verdict)
        else (d :: ds, .error (.error (.unresolved .localVariable d.name t d.span)))

/-- Puts the types of all declarations into their slots. -/
def settleAllDeclarations : CheckM (Verdict Unit) := modifyGet fun s =>
  let (ds, verdict) := settleDeclarations s.unifier.store s.decls.all.toList
  (verdict, { s with decls := ⟨ds.toArray⟩ })

/-- Concludes the check of a tree, given the sweep through its nodes. -/
def conclude {τ : Type} (tree : τ) (sweep : τ → SweepM τ) : CheckM (Visited τ Unit) := do
  match sweep tree ⟨← get, none, none⟩ with
  | none => return (tree, .error .divergence)
  | some (tree, swept) =>
    set swept.state
    match swept.undecided with
    | some e => fail tree e
    | none =>
      settleAllDeclarations.orFail tree fun _ =>
        match swept.untyped with
        | some e => fail tree e
        | none => done tree ()

end BMethod
