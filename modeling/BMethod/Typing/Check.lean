import BMethod.Typing.Conclude
import BMethod.Typing.Substitution

/-!
# Checking formulas

The complete checks of expressions, predicates, formulas and temporal formulas against their
declarations. A check returns the tree and the declarations as they have become, whatever the
verdict, and the events in the order in which they happened.

Expressions and predicates are checked with the types that their declarations have. A formula first
forgets the types of the identifiers that it declares implicitly, and requires that they are known
in the end; a temporal formula forgets them in the same way.
-/

namespace BMethod

open State CheckM

/-- What a check leaves. -/
structure Checked (τ α : Type) where
  tree : τ
  decls : Declarations
  verdict : Verdict α
  /-- What happened, in order. -/
  events : List Event

/-- Runs a check from the start. A failure is the last event. -/
def runCheck {τ α : Type} (target : Target) (decls : Declarations) (walk : CheckM (Visited τ α)) :
    Checked τ α :=
  let ((tree, verdict), s) := walk (State.start decls)
  let events :=
    match verdict with
    | .error (.error e) => Event.fails target e :: s.events
    | _ => s.events
  { tree, decls := s.decls, verdict, events := events.reverse }

/-! ## Roots. -/

/-- Puts the types into the slots of an expression and its parts. -/
def Expr.conclude (e : Expr) : CheckM (Visited Expr Unit) :=
  BMethod.conclude e (Expr.rewriteM Sweep.expr Sweep.pred)

/-- Puts the types into the slots of a predicate and its parts. -/
def Pred.conclude (p : Pred) : CheckM (Visited Pred Unit) :=
  BMethod.conclude p (Pred.rewriteM Sweep.expr Sweep.pred)

/-- Puts the types into the slots of the predicates of a temporal formula. -/
def Ltl.conclude (f : Ltl) : CheckM (Visited Ltl Unit) :=
  BMethod.conclude f (Ltl.rewriteM Sweep.expr Sweep.pred)

/-- Concludes the check of an expression and gives its type. The types of the implicitly declared
identifiers must be known. -/
def Expr.finish (implicit : List Nat) (e : Expr) : CheckM (Visited Expr Ty) :=
  (requireConcrete .localVariable implicit).orFail e fun _ =>
    e.conclude.andThen id fun e _ =>
      match e.note.ty with
      | some t => done e t
      | none => fail e (.unresolved .formula e.describe .bool e.note.span)

/-- Concludes the check of a predicate and gives its type. The types of the implicitly declared
identifiers must be known. -/
def Pred.finish (implicit : List Nat) (p : Pred) : CheckM (Visited Pred Ty) :=
  (requireConcrete .localVariable implicit).orFail p fun _ =>
    p.conclude.andThen id fun p _ =>
      match p.note.ty with
      | some t => done p t
      | none => fail p (.unresolved .formula p.describe .bool p.note.span)

/-- Checks an expression on its own and gives its type, which must be known. -/
def Expr.checkRoot (implicit : List Nat) (e : Expr) : CheckM (Visited Expr Ty) := do
  (e.check (← fresh)).andThen id fun e t => do
    match (← get).unifier.store.head? t with
    | none => return (e, .error .divergence)
    | some (.var _) =>
      (resolve t).orFail e fun t => fail e (.unresolved .formula e.describe t e.note.span)
    | some _ => e.finish implicit

/-- Checks a predicate on its own and gives its type. -/
def Pred.checkRoot (implicit : List Nat) (p : Pred) : CheckM (Visited Pred Ty) :=
  (p.check .bool).andThen id fun p _ => p.finish implicit

/-! ## Checks. -/

/-- Checks an expression and gives its type. -/
def checkExpression (decls : Declarations) (e : Expr) : Checked Expr Ty :=
  runCheck .expression decls (e.checkRoot [])

/-- Checks a predicate and gives its type. -/
def checkPredicate (decls : Declarations) (p : Pred) : Checked Pred Ty :=
  runCheck .predicate decls (p.checkRoot [])

/-- Checks a formula and gives its type. -/
def checkFormula (decls : Declarations) (implicit : List Nat) (f : Formula) : Checked Formula Ty :=
  runCheck .formula decls do
    redeclare implicit
    match f with
    | .expr e => (e.checkRoot implicit).andThen .expr fun e t => done (.expr e) t
    | .pred p => (p.checkRoot implicit).andThen .pred fun p t => done (.pred p) t

/-- Checks a temporal formula. -/
def checkLtl (decls : Declarations) (implicit : List Nat) (f : Ltl) : Checked Ltl Unit :=
  runCheck .ltlFormula decls do
    redeclare implicit
    f.check.andThen id fun f _ => f.conclude

end BMethod
