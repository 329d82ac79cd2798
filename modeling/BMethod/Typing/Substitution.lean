import BMethod.Ltl
import BMethod.Substitution
import BMethod.Typing.Formula

/-!
# Checking substitutions and temporal formulas

A substitution is checked for what it assigns: every target has the type of its value, conditions
are boolean, variants are integers, and the arguments and outputs of a call have the types of the
called operation.
-/

namespace BMethod

open State CheckM

/-- The parameters and outputs of an operation of the machine itself. -/
structure Interface where
  params : List Nat
  outputs : List Nat
  deriving DecidableEq, Repr

/-- The types of the parameters and outputs of an operation of another machine, as far as they have
been settled there. -/
structure TypedInterface where
  params : List (Option Ty)
  outputs : List (Option Ty)
  deriving DecidableEq, Repr

/-- The operations that can be called. -/
structure Scope where
  own : List Interface
  /-- For each machine that is referred to, its operations. -/
  referred : List (List TypedInterface)
  deriving DecidableEq, Repr

/-- The scope without operations. -/
def Scope.empty : Scope := ⟨[], []⟩

/-- Types, with a new variable for each that is not settled. -/
def typesOrFresh : List (Option Ty) → CheckM (List Ty)
  | [] => return []
  | some t :: ts => return t :: (← typesOrFresh ts)
  | none :: ts => do
    let t ← fresh
    return t :: (← typesOrFresh ts)

/-- The types of the parameters and of the outputs of a called operation, if it exists. -/
def Scope.types? (scope : Scope) : Callee → CheckM (Option (List Ty × List Ty))
  | .own operation => do
    match scope.own[operation]? with
    | none => return none
    | some interface =>
      let params ← declaredTypes interface.params
      return some (params, ← declaredTypes interface.outputs)
  | .referred reference operation => do
    match scope.referred[reference]? >>= (·[operation]?) with
    | none => return none
    | some interface =>
      let params ← typesOrFresh interface.params
      return some (params, ← typesOrFresh interface.outputs)

/-- Checks pairs of a target and a value, each value against the type of its target. -/
def checkAssigned : List Expr → List Expr → CheckM (Visited (List Expr × List Expr) Unit)
  | target :: targets, value :: values => do
    (target.check (← fresh)).andThen (fun target => (target :: targets, value :: values))
      fun target t =>
        (value.check t).andThen (fun value => (target :: targets, value :: values)) fun value _ =>
          (checkAssigned targets values).andThen
            (fun (targets, values) => (target :: targets, value :: values))
            fun (targets, values) _ => done (target :: targets, value :: values) ()
  | targets, values => done (targets, values) ()

/-- Checks a call: as many arguments and assigned expressions as the operation has parameters and
outputs, with their types. -/
def checkCalled (scope : Scope) (span : Option Span) (name : String) (callee : Callee)
    (args assigned : List Expr) : CheckM (Visited (List Expr × List Expr) Unit) := do
  match ← scope.types? callee with
  | none => fail (args, assigned) (.undefinedOperation name span)
  | some (params, outputs) =>
    if args.length ≠ params.length then
      fail (args, assigned) (.arity params.length args.length ⟨s!"call of operation {name}", span⟩)
    else if assigned.length ≠ outputs.length then
      fail (args, assigned)
        (.arity outputs.length assigned.length ⟨s!"outputs of operation {name}", span⟩)
    else
      (Expr.checkForward args params).andThen (·, assigned) fun args _ =>
        (Expr.checkForward assigned outputs).andThen (args, ·) fun assigned _ =>
          done (args, assigned) ()

mutual

/-- Checks a substitution. -/
def Substitution.check (scope : Scope) : Substitution → CheckM (Visited Substitution Unit)
  | .skip s => done (.skip s) ()
  | .assign s targets values =>
    if targets.length = values.length then
      (checkAssigned targets values).andThen (fun (targets, values) => .assign s targets values)
        fun (targets, values) _ => done (.assign s targets values) ()
    else
      fail (.assign s targets values) (.arity targets.length values.length ⟨"assignment", s⟩)
  | .becomesElement s targets set =>
    (Expr.checkApart targets).andThen (.becomesElement s · set) fun targets types =>
      match Ty.tuple? types with
      | none => fail (.becomesElement s targets set) (.arity 1 0 ⟨"becomes element of", s⟩)
      | some tuple =>
        (set.check (.set tuple)).andThen (.becomesElement s targets) fun set _ =>
          done (.becomesElement s targets set) ()
  | .becomesSuch s targets pred =>
    (Expr.checkApart targets).andThen (.becomesSuch s · pred) fun targets _ =>
      (pred.check .bool).andThen (.becomesSuch s targets) fun pred _ =>
        done (.becomesSuch s targets pred) ()
  | .any s bound pred body => do
    declare bound
    (pred.check .bool).andThen (.any s bound · body) fun pred _ =>
      (body.check scope).andThen (.any s bound pred) fun body _ => done (.any s bound pred body) ()
  | .letIn s bound pred body => do
    declare bound
    (pred.check .bool).andThen (.letIn s bound · body) fun pred _ =>
      (body.check scope).andThen (.letIn s bound pred) fun body _ =>
        done (.letIn s bound pred body) ()
  | .var s bound body => do
    declare bound
    (body.check scope).andThen (.var s bound) fun body _ => done (.var s bound body) ()
  | .guarded s kind cond body =>
    (cond.check .bool).andThen (.guarded s kind · body) fun cond _ =>
      (body.check scope).andThen (.guarded s kind cond) fun body _ =>
        done (.guarded s kind cond body) ()
  | .branch s kind conds branches otherwise =>
    (Pred.checkAll conds).andThen (.branch s kind · branches otherwise) fun conds _ =>
      (Substitution.checkAll scope branches).andThen (.branch s kind conds · otherwise)
        fun branches _ =>
          (Substitution.checkOption scope otherwise).andThen (.branch s kind conds branches)
            fun otherwise _ => done (.branch s kind conds branches otherwise) ()
  | .choice s branches =>
    (Substitution.checkAll scope branches).andThen (.choice s) fun branches _ =>
      done (.choice s branches) ()
  | .block s kind parts =>
    (Substitution.checkAll scope parts).andThen (.block s kind) fun parts _ =>
      done (.block s kind parts) ()
  | .loop s cond body inv variant =>
    (cond.check .bool).andThen (.loop s · body inv variant) fun cond _ =>
      (body.check scope).andThen (.loop s cond · inv variant) fun body _ =>
        (inv.check .bool).andThen (.loop s cond body · variant) fun inv _ =>
          (variant.check .integer).andThen (.loop s cond body inv) fun variant _ =>
            done (.loop s cond body inv variant) ()
  | .call s name callee args assigned =>
    (checkCalled scope s name callee args assigned).andThen
      (fun (args, assigned) => .call s name callee args assigned)
      fun (args, assigned) _ => done (.call s name callee args assigned) ()

/-- Checks substitutions, from the first to the last. -/
def Substitution.checkAll (scope : Scope) :
    List Substitution → CheckM (Visited (List Substitution) Unit)
  | [] => done [] ()
  | s :: ss =>
    (s.check scope).andThen (· :: ss) fun s _ =>
      (Substitution.checkAll scope ss).andThen (s :: ·) fun ss _ => done (s :: ss) ()

/-- Checks a substitution that may be missing. -/
def Substitution.checkOption (scope : Scope) :
    Option Substitution → CheckM (Visited (Option Substitution) Unit)
  | none => done none ()
  | some s => (s.check scope).andThen some fun s _ => done (some s) ()

end

/-- Checks that all predicates of a temporal formula are boolean. -/
def Ltl.check : Ltl → CheckM (Visited Ltl Unit)
  | .unary op arg => arg.check.andThen (.unary op) fun arg _ => done (.unary op arg) ()
  | .binary op left right =>
    left.check.andThen (.binary op · right) fun left _ =>
      right.check.andThen (.binary op left) fun right _ => done (.binary op left right) ()
  | .keyword op => done (.keyword op) ()
  | .pred p => (p.check .bool).andThen .pred fun p _ => done (.pred p) ()

end BMethod
