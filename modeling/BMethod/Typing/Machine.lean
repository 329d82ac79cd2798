import BMethod.Machine
import BMethod.Typing.Check

/-!
# Checking machines

A machine is checked in phases: its sets get element types of their own; its constants are typed
through the properties, its variables through the invariant and the assertions; then the
initialisation and the operations are checked. Constants and variables must be known at the end of
their phase. Variables taken over from other machines have the types that they have there.
-/

namespace BMethod

open State CheckM

/-! ## Sets. -/

/-- Gives an enumerated set without a type the type of sets of its elements, and each element the
element type. -/
def seedEnumerated (machine : String) (s : EnumeratedSet) : CheckM Unit := do
  let decls := (← get).decls
  match decls.get? s.set with
  | some { name, ty := none, .. } =>
    let elem := Ty.enumerated ⟨machine, s.set⟩ name ((decls.existing s.elements).map (·.name))
    report (.seedsEnumerated name)
    let decls := s.elements.foldl (fun ds id => ds.setTy id (some elem))
      (decls.setTy s.set (some (.set elem)))
    modify fun s => { s with decls }
  | _ => return ()

/-- Gives a deferred set without a type the type of sets of its elements. -/
def seedDeferred (machine : String) (id : Nat) : CheckM Unit := do
  match (← get).decls.get? id with
  | some { name, ty := none, .. } =>
    report (.seedsDeferred name)
    let elem := Ty.deferred ⟨machine, id⟩ name
    modify fun s => { s with decls := s.decls.setTy id (some (.set elem)) }
  | _ => return ()

/-- Gives all sets of a machine their types. -/
def Machine.seedSets (m : Machine) : CheckM Unit := do
  m.enumerated.forM (seedEnumerated m.name)
  m.deferred.forM (seedDeferred m.name)

/-! ## Other machines. -/

namespace Machine

/-- The type of a declaration, if it is concrete. -/
def settled? (m : Machine) (id : Nat) : Option Ty := (m.decls.ty? id).filter (·.isConcrete)

/-- The operations of a machine with the types that are settled. -/
def interfaces (m : Machine) : List TypedInterface :=
  m.operations.map fun o => ⟨o.params.map m.settled?, o.outputs.map m.settled?⟩

/-- The operations that the substitutions of a machine can call. -/
def scope (m : Machine) : Scope where
  own := m.operations.map fun o => ⟨o.params, o.outputs⟩
  referred := m.references.map (·.2.interfaces)

/-- The type of the last of the given declarations that has that name, if it is concrete. -/
def settledNamed? (m : Machine) (ids : List Nat) (name : String) : Option Ty := do
  let d ← ((m.decls.existing ids).filter (·.name == name)).getLast?
  d.ty.filter (·.isConcrete)

end Machine

/-- What follows a qualifier and a dot in a name. -/
def unqualified? (qualifier name : String) : Option String :=
  ((qualifier ++ ".").toList.isPrefixOf? name.toList).map String.ofList

/-- Puts a type taken from elsewhere, if there is one, into the slot of a declaration. -/
def takeType (id : Nat) (offer : Option Ty) : CheckM Unit := do
  match (← get).decls.get? id, offer with
  | some d, some ty =>
    report (.takes d.name ty)
    modify fun s => { s with decls := s.decls.setTy id (some ty) }
  | _, _ => return ()

/-- The type that the last other declaration of the same name has, for a name that begins with its
qualifier. -/
def siblingType? (ds : Declarations) (included : List Nat) (id : Nat) : Option Ty := do
  let d ← ds.get? id
  let qualifier ← d.qualifier
  guard (qualifier.toList.isPrefixOf d.name.toList)
  ((ds.existing (included.filter (· ≠ id))).filter (·.name == d.name)).filterMap (·.ty) |>.getLast?

/-- Takes over the type of a variable from a machine. From one with a qualifier, the type of the
variable that the qualified name refers to, and then that of another declaration of the same name;
from one without, the type of the variable of the same name that was taken over there. -/
def takeTypeFrom (included : List Nat) (reference : Option String × Machine) (id : Nat) :
    CheckM Unit := do
  match (← get).decls.get? id, reference with
  | none, _ => return ()
  | some d, (some qualifier, source) =>
    takeType id (unqualified? qualifier d.name >>= source.settledNamed? source.vars)
    takeType id (siblingType? (← get).decls included id)
  | some d, (none, source) => takeType id (source.settledNamed? source.included d.name)

/-! ## Phases. -/

namespace Machine

/-- Takes over the types of variables from the machines referred to. -/
def takeTypes (m : Machine) : CheckM Unit :=
  m.references.forM fun reference => m.included.forM (takeTypeFrom m.included reference)

/-- Types the constants through the properties, and checks their values. -/
def checkConstants (scope : Scope) (m : Machine) : CheckM (Visited Machine Unit) := do
  report (.enters .constants)
  State.declare m.constants
  (optional (fun p => ignore (p.check .bool)) m.properties).andThen
    (fun properties => { m with properties }) fun properties _ =>
      (requireConcrete .constant m.constants).orFail { m with properties } fun _ =>
        (Substitution.checkAll scope m.values).andThen
          (fun values => { m with properties, values }) fun values _ =>
            done { m with properties, values } ()

/-- Types the variables through the invariant and the assertions. -/
def checkVariables (m : Machine) : CheckM (Visited Machine Unit) := do
  report (.enters .stateVariables)
  State.declare m.vars
  State.declare m.included
  m.takeTypes
  (requireConcrete .includedVariable m.included).orFail m fun _ =>
    (optional (fun p => ignore (p.check .bool)) m.invariant).andThen
      (fun invariant => { m with invariant }) fun invariant _ =>
        (Pred.checkAll m.assertions).andThen
          (fun assertions => { m with invariant, assertions }) fun assertions _ =>
            (requireConcrete .stateVariable m.vars).orFail
              { m with invariant, assertions } fun _ => done { m with invariant, assertions } ()

/-- Checks the body of an operation, after its outputs and parameters have been declared. -/
def checkOperations (scope : Scope) : List Operation → CheckM (Visited (List Operation) Unit)
  | [] => done [] ()
  | o :: os => do
    State.declare o.outputs
    State.declare o.params
    (o.body.check scope).andThen (fun body => { o with body } :: os) fun body _ =>
      (checkOperations scope os).andThen ({ o with body } :: ·) fun os _ =>
        done ({ o with body } :: os) ()

/-- Checks the initialisation and the operations. -/
def checkBehaviour (scope : Scope) (m : Machine) : CheckM (Visited Machine Unit) := do
  report (.enters .behaviour)
  (Substitution.checkOption scope m.initialisation).andThen
    (fun initialisation => { m with initialisation }) fun initialisation _ =>
      (checkOperations scope m.operations).andThen
        (fun operations => { m with initialisation, operations }) fun operations _ =>
          done { m with initialisation, operations } ()

/-- Puts the types into the slots of all clauses. -/
def conclude (m : Machine) : CheckM (Visited Machine Unit) :=
  BMethod.conclude m (Machine.rewriteM Sweep.expr Sweep.pred)

/-- Checks all clauses of a machine. -/
def checkClauses (m : Machine) : CheckM (Visited Machine Unit) := do
  report (.begins m.name)
  m.seedSets
  (m.checkConstants m.scope).andThen id fun m _ =>
    m.checkVariables.andThen id fun m _ =>
      (m.checkBehaviour m.scope).andThen id fun m _ => m.conclude

end Machine

/-- Checks a machine. The machine that results has the declarations as they have become. -/
def checkMachine (m : Machine) : Checked Machine Unit :=
  let checked := runCheck (.machine m.name) m.decls m.checkClauses
  { checked with tree := { checked.tree with decls := checked.decls } }

end BMethod
