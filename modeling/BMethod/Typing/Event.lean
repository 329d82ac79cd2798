import BMethod.Operator
import BMethod.Typing.Error

/-!
# Events of a check

What a check reports while it runs, in order, each event with its level and message.
-/

namespace BMethod

/-- How important an event is. -/
inductive Level where
  | error | warn | debug | trace
  deriving DecidableEq, Repr

/-- The name of a level. -/
def Level.name : Level → String
  | error => "ERROR"
  | warn => "WARN"
  | debug => "DEBUG"
  | trace => "TRACE"

/-- The phases of checking a machine. -/
inductive Phase where
  | constants | stateVariables | behaviour
  deriving DecidableEq, Repr

/-- What a phase is about. -/
def Phase.text : Phase → String
  | constants => "constants"
  | stateVariables => "variables"
  | behaviour => "initialisation and operations"

/-- What is checked as a whole. -/
inductive Target where
  | expression | predicate | formula | ltlFormula
  | machine (name : String)
  deriving DecidableEq, Repr

/-- The description of what is checked. -/
def Target.text : Target → String
  | expression => "expression"
  | predicate => "predicate"
  | formula => "formula"
  | ltlFormula => "LTL formula"
  | machine name => s!"machine {name}"

/-- Something worth reporting. -/
inductive Event where
  | begins (machine : String)
  | seedsEnumerated (name : String)
  | seedsDeferred (name : String)
  | enters (phase : Phase)
  /-- An identifier refers to no declaration. -/
  | undeclared (name : String)
  /-- A variable taken over from another machine gets its type from there. -/
  | takes (name : String) (ty : Ty)
  /-- An operator that reads two ways turns out to work on sets. -/
  | rereads (before after : Operator)
  | fails (target : Target) (error : TypeError)
  deriving DecidableEq, Repr

namespace Event

/-- The level of an event. -/
def level : Event → Level
  | begins _ | seedsEnumerated _ | seedsDeferred _ | enters _ => .debug
  | undeclared _ => .warn
  | takes .. | rereads .. => .trace
  | fails .. => .error

/-- The message of an event. -/
def text : Event → String
  | begins machine => s!"type checking machine {machine}"
  | seedsEnumerated name => s!"seeding enumerated set {name}"
  | seedsDeferred name => s!"seeding deferred set {name}"
  | enters phase => s!"checking {phase.text}"
  | undeclared name => s!"identifier {name} has no declaration"
  | takes name ty => s!"renamed variable {name} takes type {ty.text}"
  | rereads before after => s!"rewriting {before.name} to {after.name}"
  | fails target error => s!"type checking {target.text} failed: {error.text}"

end Event

end BMethod
