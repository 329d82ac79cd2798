import BMethod.Formula
import BMethod.Typing.Signature
import BMethod.Typing.State

/-!
# Checking expressions and predicates

A node is checked against the type that its place requires. The node's own kind gives the type that
stands there; the two are unified, and the result becomes the type of the node. The parts of a node
are checked against types built from the same variables, so that what is learnt at one place is
known at all others.

Expressions and predicates are walked through together by recursion on the tree. The rules for
operators are stated before, each with the walks through its operands as parameters.
-/

namespace BMethod

open State CheckM

/-- The place of an expression in messages. -/
def Expr.site (e : Expr) : Site := ⟨e.describe, e.note.span⟩

/-- The place of a predicate in messages. -/
def Pred.site (p : Pred) : Site := ⟨p.describe, p.note.span⟩

/-- Unifies the required type with the type of an expression, which is then put in its slot. -/
def Expr.settle (e : Expr) (expected found : Ty) : CheckM (Visited Expr Ty) :=
  (unifyAt e.site expected found).orFail e fun t => done (e.withTy t) t

/-- Unifies the required type with the type of a predicate, which is then put in its slot. -/
def Pred.settle (p : Pred) (expected found : Ty) : CheckM (Visited Pred Ty) :=
  (unifyAt p.site expected found).orFail p fun t => done (p.withTy t) t

/-- The type of the tuples over the bound identifiers that exist; there must be one. -/
def boundTuple (site : Site) (bound : List Nat) : CheckM (Verdict Ty) := do
  match Ty.tuple? (← declaredTypes bound) with
  | some t => return .ok t
  | none => return .error (.error (.arity 1 0 site))

/-! ## Rules of operators. -/

/-- How to walk through the operands of an operator. -/
structure OperandWalks where
  /-- Against one type each, from the first to the last. -/
  forward : List Ty → CheckM (Visited (List Expr) Unit)
  /-- Against one type each, from the last to the first. -/
  backward : List Ty → CheckM (Visited (List Expr) Unit)
  /-- The first against a given type, and each further one against the type of the one before. -/
  chain : Ty → CheckM (Visited (List Expr) Ty)
  /-- Each against a new variable, from the first to the last. -/
  apart : CheckM (Visited (List Expr) (List Ty))
  /-- The first as a function from the others to a given type. -/
  call : Ty → CheckM (Visited (List Expr) Unit)

section

variable (n : Note) (op : Operator) (args : List Expr) (expected : Ty) (walks : OperandWalks)

/-- Walks through the operands if there are as many as there have to be. -/
def Expr.withOperands {α : Type} (count : Nat) (walk : CheckM (Visited (List Expr) α))
    (next : List Expr → α → CheckM (Visited Expr Ty)) : CheckM (Visited Expr Ty) :=
  if args.length = count then walk.andThen (.apply n op) next
  else fail (.apply n op args) (.arity count args.length (Expr.apply n op args).site)

/-- Settles the result first, then walks through a fixed number of operands. -/
def Expr.resultFirst (result : Ty) (count : Nat) (walk : Ty → CheckM (Visited (List Expr) Unit)) :
    CheckM (Visited Expr Ty) :=
  (unifyAt (Expr.apply n op args).site expected result).orFail (.apply n op args) fun t =>
    Expr.withOperands (n.withTy t) op args count (walk t) fun args _ =>
      done (.apply (n.withTy t) op args) t

/-- The rule of a signature. -/
def Signature.check (s : Signature) : CheckM (Visited Expr Ty) := do
  let params ← freshList s.params
  let result := s.result.instantiate params expected
  let operands := fun whole => s.operands.map (Shape.instantiate params whole)
  match s.order with
  | .forward =>
    Expr.resultFirst n op args expected result s.operands.length fun t =>
      walks.forward (operands t)
  | .backward =>
    Expr.resultFirst n op args expected result s.operands.length fun t =>
      walks.backward (operands t)
  | .inward =>
    Expr.withOperands n op args s.operands.length (walks.forward (operands expected)) fun args _ =>
      (Expr.apply n op args).settle expected result

/-- The rule of a difference: both operands have the type of the whole, the integers or sets. -/
def Rule.checkDifference : CheckM (Visited Expr Ty) := do
  let elem ← fresh
  let found ← allocate (.setOrInteger elem)
  Expr.resultFirst n op args expected found 2 fun t => walks.forward [t, t]

/-- The rule of a product: the whole and the operands are tied by a link. -/
def Rule.checkProduct : CheckM (Visited Expr Ty) := do
  let leftElem ← fresh
  let rightElem ← fresh
  let found ← allocate (.integerOrPairs leftElem rightElem)
  let site := (Expr.apply n op args).site
  (unifyAt site expected found).orFail (.apply n op args) fun t => do
    let left ← allocate (.setOrInteger leftElem)
    let right ← allocate (.setOrInteger rightElem)
    (linkAt site expected found ⟨t, left, right, leftElem, rightElem⟩).orFail
      (.apply (n.withTy t) op args) fun _ =>
        Expr.withOperands (n.withTy t) op args 2 (walks.forward [left, right]) fun args _ =>
          done (.apply (n.withTy t) op args) t

/-- The rule of a pair: its type is the pair of the types of its halves. -/
def Rule.checkPair : CheckM (Visited Expr Ty) :=
  Expr.withOperands n op args 2 walks.apart fun args types =>
    match Ty.tuple? types with
    | some t => (Expr.apply n op args).settle expected t
    | none => fail (.apply n op args) (.arity 2 0 (Expr.apply n op args).site)

/-- The rule of an enumeration: all elements have one type. -/
def Rule.checkEnumeration (shape : Shape) : CheckM (Visited Expr Ty) := do
  let elem ← fresh
  (unifyAt (Expr.apply n op args).site expected (shape.instantiate [elem] expected)).orFail
    (.apply n op args) fun t =>
      (walks.chain elem).andThen (.apply (n.withTy t) op) fun args _ =>
        done (.apply (n.withTy t) op args) t

/-- The rule of an application: the first operand is a relation from the tuples of the others to
the type of the whole. -/
def Rule.checkApplication : CheckM (Visited Expr Ty) := do
  if args.length < 2 then
    fail (.apply n op args) (.arity 2 args.length (Expr.apply n op args).site)
  else
    let result ← fresh
    (walks.call result).andThen (.apply n op) fun args _ =>
      (Expr.apply n op args).settle expected result

/-- The rule of an operator. -/
def Operator.check : CheckM (Visited Expr Ty) := do
  match op.rule with
  | .fixed s => s.check n op args expected walks
  | .constant params shape =>
    let params ← freshList params
    (Expr.apply n op args).settle expected (shape.instantiate params expected)
  | .difference => Rule.checkDifference n op args expected walks
  | .product => Rule.checkProduct n op args expected walks
  | .pair => Rule.checkPair n op args expected walks
  | .enumeration shape => Rule.checkEnumeration n op args expected walks shape
  | .application => Rule.checkApplication n op args expected walks

end

/-! ## The walk. -/

/-- The type of an aggregate: sums and products are integers, unions and intersections are sets. -/
def Aggregate.type : Aggregate → CheckM Ty
  | .sigma | .pi => return .integer
  | .union | .inter => return .set (← fresh)

mutual

/-- Checks an expression against the type that its place requires. -/
def Expr.check : Expr → Ty → CheckM (Visited Expr Ty)
  | .identifier n decl name, expected => do
    (Expr.identifier n decl name).settle expected (← identifierType decl name)
  | .integer n value, expected => (Expr.integer n value).settle expected .integer
  | .real n digits, expected => (Expr.real n digits).settle expected .real
  | .string n value, expected => (Expr.string n value).settle expected .string
  | .apply n op args, expected =>
    op.check n args expected
      { forward := Expr.checkForward args
        backward := Expr.checkBackward args
        chain := Expr.checkChain args
        apart := Expr.checkApart args
        call := Expr.checkCall (Expr.apply n op args).site args }
  | .aggregate n op bound pred body, expected => do
    declare bound
    (pred.check .bool).andThen (.aggregate n op bound · body) fun pred _ => do
      let found ← op.type
      (unifyAt (Expr.aggregate n op bound pred body).site expected found).orFail
        (.aggregate n op bound pred body) fun t =>
          (body.check t).andThen (.aggregate (n.withTy t) op bound pred) fun body _ =>
            done (.aggregate (n.withTy t) op bound pred body) t
  | .comprehension n bound pred, expected => do
    declare bound
    (pred.check .bool).andThen (.comprehension n bound) fun pred _ =>
      let node := Expr.comprehension n bound pred
      (boundTuple node.site bound).orFail node fun tuple => node.settle expected (.set tuple)
  | .lambda n bound pred body, expected => do
    declare bound
    (pred.check .bool).andThen (.lambda n bound · body) fun pred _ =>
      let node := Expr.lambda n bound pred body
      (boundTuple node.site bound).orFail node fun tuple => do
        (body.check (← fresh)).andThen (.lambda n bound pred) fun body t =>
          (Expr.lambda n bound pred body).settle expected (.relation tuple t)
  | .ite n cond yes no, expected =>
    (cond.check .bool).andThen (.ite n · yes no) fun cond _ => do
      (yes.check (← fresh)).andThen (.ite n cond · no) fun yes t =>
        (no.check t).andThen (.ite n cond yes) fun no t =>
          (Expr.ite n cond yes no).settle expected t
  | .letIn n bound pred body, expected => do
    declare bound
    (pred.check .bool).andThen (.letIn n bound · body) fun pred _ => do
      (body.check (← fresh)).andThen (.letIn n bound pred) fun body t =>
        (Expr.letIn n bound pred body).settle expected t
  | .record n fields, expected =>
    (Expr.checkRecord fields).andThen (.record n) fun fields types =>
      (Expr.record n fields).settle expected (.record types)
  | .struct n fields, expected =>
    (Expr.checkStruct fields).andThen (.struct n) fun fields types =>
      (Expr.struct n fields).settle expected (.set (.record types))
  | .field n target name, expected => do
    (target.check (← fresh)).andThen (.field n · name) fun target t => do
      let node := Expr.field n target name
      match (← get).unifier.store.head? t with
      | none => return (node, .error .divergence)
      | some (.record fields) =>
        match Ty.field? fields name with
        | some found => node.settle expected found
        | none => (resolve t).orFail node fun t => fail node (.unknownField t name n.span)
      | some other =>
        (resolve other).orFail node fun t => fail node (.expectedRecord name t n.span)
  | .bool n pred, expected =>
    (pred.check .bool).andThen (.bool n) fun pred _ => (Expr.bool n pred).settle expected .bool

/-- Checks each expression against a type of its own, from the first to the last. -/
def Expr.checkForward : List Expr → List Ty → CheckM (Visited (List Expr) Unit)
  | e :: es, t :: ts =>
    (e.check t).andThen (· :: es) fun e _ =>
      (Expr.checkForward es ts).andThen (e :: ·) fun es _ => done (e :: es) ()
  | es, _ => done es ()

/-- Checks each expression against a type of its own, from the last to the first. -/
def Expr.checkBackward : List Expr → List Ty → CheckM (Visited (List Expr) Unit)
  | e :: es, t :: ts =>
    (Expr.checkBackward es ts).andThen (e :: ·) fun es _ =>
      (e.check t).andThen (· :: es) fun e _ => done (e :: es) ()
  | es, _ => done es ()

/-- Checks the first expression against a type and each further one against the type of the one
before. -/
def Expr.checkChain : List Expr → Ty → CheckM (Visited (List Expr) Ty)
  | [], t => done [] t
  | e :: es, t =>
    (e.check t).andThen (· :: es) fun e t =>
      (Expr.checkChain es t).andThen (e :: ·) fun es t => done (e :: es) t

/-- Checks each expression against a new variable and gives their types. -/
def Expr.checkApart : List Expr → CheckM (Visited (List Expr) (List Ty))
  | [] => done [] []
  | e :: es => do
    (e.check (← fresh)).andThen (· :: es) fun e t =>
      (Expr.checkApart es).andThen (e :: ·) fun es ts => done (e :: es) (t :: ts)

/-- Checks arguments, then the function in front of them, which has the given result. -/
def Expr.checkCall (site : Site) : List Expr → Ty → CheckM (Visited (List Expr) Unit)
  | [], _ => done [] ()
  | f :: args, result =>
    (Expr.checkApart args).andThen (f :: ·) fun args types =>
      match Ty.tuple? types with
      | none => fail (f :: args) (.arity 2 1 site)
      | some domain =>
        (f.check (.relation domain result)).andThen (· :: args) fun f _ => done (f :: args) ()

/-- Checks the values of a record against the types of the fields, and gives the fields. -/
def Expr.checkRecord :
    List (FieldLabel × Expr) → CheckM (Visited (List (FieldLabel × Expr)) (List (String × Ty)))
  | [] => done [] []
  | (label, e) :: fields => do
    (e.check (← declaredOrFresh label.decl)).andThen (fun e => (label, e) :: fields) fun e t =>
      (Expr.checkRecord fields).andThen ((label, e) :: ·) fun fields types =>
        done ((label, e) :: fields) ((label.name, t) :: types)

/-- Checks the sets of values of a struct against the types of the fields, and gives the fields. -/
def Expr.checkStruct :
    List (FieldLabel × Expr) → CheckM (Visited (List (FieldLabel × Expr)) (List (String × Ty)))
  | [] => done [] []
  | (label, e) :: fields => do
    let t ← declaredOrFresh label.decl
    (e.check (.set t)).andThen (fun e => (label, e) :: fields) fun e _ =>
      (Expr.checkStruct fields).andThen ((label, e) :: ·) fun fields types =>
        done ((label, e) :: fields) ((label.name, t) :: types)

/-- Checks a predicate against the type that its place requires. -/
def Pred.check : Pred → Ty → CheckM (Visited Pred Ty)
  | .connective n op args, expected =>
    let node := Pred.connective n op args
    (unifyAt node.site expected .bool).orFail node fun t =>
      (Pred.checkAll args).andThen (.connective (n.withTy t) op) fun args _ =>
        done (.connective (n.withTy t) op args) t
  | .comparison n op args, expected =>
    let node := Pred.comparison n op args
    (unifyAt node.site expected .bool).orFail node fun t =>
      if args.length = 2 then
        (Expr.checkCompared op args).andThen (.comparison (n.withTy t) op) fun args _ =>
          done (.comparison (n.withTy t) op args) t
      else
        fail (.comparison (n.withTy t) op args) (.arity 2 args.length node.site)
  | .identifier n decl name, expected => do
    (Pred.identifier n decl name).settle expected (← identifierType decl name)
  | .quantified n op bound pred, expected => do
    declare bound
    (pred.check .bool).andThen (.quantified n op bound) fun pred _ =>
      (Pred.quantified n op bound pred).settle expected .bool
  | .ite n cond yes no, expected =>
    (cond.check .bool).andThen (.ite n · yes no) fun cond _ =>
      (yes.check .bool).andThen (.ite n cond · no) fun yes _ =>
        (no.check .bool).andThen (.ite n cond yes) fun no _ =>
          (Pred.ite n cond yes no).settle expected .bool
  | .letIn n bound defs body, expected => do
    declare bound
    (defs.check .bool).andThen (.letIn n bound · body) fun defs _ =>
      (body.check .bool).andThen (.letIn n bound defs) fun body _ =>
        (Pred.letIn n bound defs body).settle expected .bool

/-- Checks the two sides of a comparison. Equal sides have one type, found on the right first; the
right of a membership is a set of what is on the left; numbers are ordered, and sets of one type
are included in each other. -/
def Expr.checkCompared (op : Comparison) : List Expr → CheckM (Visited (List Expr) Unit)
  | [l, r] =>
    match op with
    | .equal | .notEqual => do
      (r.check (← fresh)).andThen ([l, ·]) fun r t =>
        (l.check t).andThen ([·, r]) fun l _ => done [l, r] ()
    | .elementOf | .notBelonging => do
      (l.check (← fresh)).andThen ([·, r]) fun l t =>
        (r.check (.set t)).andThen ([l, ·]) fun r _ => done [l, r] ()
    | .less | .lessEqual | .greater | .greaterEqual =>
      (l.check .integer).andThen ([·, r]) fun l _ =>
        (r.check .integer).andThen ([l, ·]) fun r _ => done [l, r] ()
    | .inclusion | .nonInclusion | .strictInclusion | .strictNonInclusion => do
      (l.check (.set (← fresh))).andThen ([·, r]) fun l t =>
        (r.check t).andThen ([l, ·]) fun r _ => done [l, r] ()
  | args => done args ()

/-- Checks that all predicates are boolean, from the first to the last. -/
def Pred.checkAll : List Pred → CheckM (Visited (List Pred) Unit)
  | [] => done [] ()
  | p :: ps =>
    (p.check .bool).andThen (· :: ps) fun p _ =>
      (Pred.checkAll ps).andThen (p :: ·) fun ps _ => done (p :: ps) ()

end

end BMethod
