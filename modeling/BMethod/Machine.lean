import BMethod.Declaration
import BMethod.Node

/-!
# Machines

An abstract machine: its sets, constants and variables, the clauses that constrain them, and its
operations. Names are numbers of declarations. A machine may refer to other machines, whose
operations it calls and whose variables it takes over under qualified names.
-/

namespace BMethod

/-- A set given by its elements. -/
structure EnumeratedSet where
  set : Nat
  elements : List Nat
  deriving DecidableEq, Repr

/-- An operation with its parameters and outputs. -/
structure Operation where
  name : String
  params : List Nat
  outputs : List Nat
  body : Substitution
  span : Option Span

/-- A machine. -/
structure Machine where
  name : String
  decls : Declarations
  enumerated : List EnumeratedSet
  deferred : List Nat
  constants : List Nat
  vars : List Nat
  /-- Variables taken over from other machines. -/
  included : List Nat
  /-- Other machines, each with what its names are qualified with. -/
  references : List (Option String × Machine)
  properties : Option Pred
  values : List Substitution
  invariant : Option Pred
  assertions : List Pred
  initialisation : Option Substitution
  operations : List Operation

namespace Machine

/-- The machine of that name without any clauses. -/
def named (name : String) : Machine where
  name
  decls := .empty
  enumerated := []
  deferred := []
  constants := []
  vars := []
  included := []
  references := []
  properties := none
  values := []
  invariant := none
  assertions := []
  initialisation := none
  operations := []

/-! ## Building. -/

/-- Adds a declaration that belongs to no clause. -/
def declare (m : Machine) (d : Declaration) : Nat × Machine :=
  let (id, decls) := m.decls.declare d
  (id, { m with decls })

/-- Adds a set with its elements. -/
def addEnumerated (m : Machine) (name : String) (elements : List String) : Nat × Machine :=
  let (set, decls) := m.decls.declare (.named name)
  let (elements, decls) := decls.declareAll elements
  (set, { m with decls, enumerated := m.enumerated ++ [⟨set, elements⟩] })

/-- Adds a set of which no elements are given. -/
def addDeferred (m : Machine) (name : String) : Nat × Machine :=
  let (id, m) := m.declare (.named name)
  (id, { m with deferred := m.deferred ++ [id] })

/-- Adds a constant. -/
def addConstant (m : Machine) (name : String) : Nat × Machine :=
  let (id, m) := m.declare (.named name)
  (id, { m with constants := m.constants ++ [id] })

/-- Adds a variable. -/
def addVariable (m : Machine) (name : String) : Nat × Machine :=
  let (id, m) := m.declare (.named name)
  (id, { m with vars := m.vars ++ [id] })

/-- Adds a variable taken over from another machine. -/
def addIncluded (m : Machine) (name qualifier : String) : Nat × Machine :=
  let (id, m) := m.declare { Declaration.named name with qualifier := some qualifier }
  (id, { m with included := m.included ++ [id] })

/-- Adds an operation, declaring its parameters and then its outputs, and gives its number among
the operations. -/
def addOperation (m : Machine) (name : String) (params outputs : List String)
    (body : Substitution) : Nat × Machine :=
  let (params, decls) := m.decls.declareAll params
  let (outputs, decls) := decls.declareAll outputs
  (m.operations.length,
    { m with decls, operations := m.operations ++ [⟨name, params, outputs, body, none⟩] })

/-! ## Looking up. -/

/-- The first operation of that name. -/
def operation? (m : Machine) (name : String) : Option Operation :=
  m.operations.find? (·.name == name)

/-- The type of the first declaration of that name. -/
def typeOf? (m : Machine) (name : String) : Option Ty := do
  (← m.decls.all.find? (·.name == name)).ty

/-! ## Nodes. -/

/-- The trees of a machine, in the order of its clauses. -/
def roots (m : Machine) : List Node :=
  m.properties.toList.map .pred ++ m.values.map .substitution ++ m.invariant.toList.map .pred ++
    m.assertions.map .pred ++ m.initialisation.toList.map .substitution ++
    m.operations.map (.substitution ·.body)

/-- All nodes of a machine. -/
def nodes (m : Machine) : List Node := m.roots.flatMap Node.preorder

section

variable {μ : Type → Type} [Monad μ] (onExpr : Expr → μ Expr) (onPred : Pred → μ Pred)

/-- Rewrites all expressions and predicates of a machine, in the order of its clauses. -/
def rewriteM (m : Machine) : μ Machine := do
  let properties ← m.properties.mapM (·.rewriteM onExpr onPred)
  let values ← Substitution.rewriteAllM onExpr onPred m.values
  let invariant ← m.invariant.mapM (·.rewriteM onExpr onPred)
  let assertions ← Pred.rewriteAllM onExpr onPred m.assertions
  let initialisation ← m.initialisation.mapM (·.rewriteM onExpr onPred)
  let operations ← m.operations.mapM fun o => do
    return { o with body := ← o.body.rewriteM onExpr onPred }
  return { m with properties, values, invariant, assertions, initialisation, operations }

end

end Machine

end BMethod
