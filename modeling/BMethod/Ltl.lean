import BMethod.Formula

/-!
# Formulas of linear temporal logic

Temporal formulas over B predicates. Only the predicates inside have types.
-/

namespace BMethod.Ltl

/-- Temporal operators with one argument. -/
inductive Unary where
  | globally | eventually | next | not | historically | once | yesterday
  deriving DecidableEq, Repr

/-- The name of an operator with one argument. -/
def Unary.name : Unary → String
  | globally => "Globally"
  | eventually => "Finally"
  | next => "Next"
  | not => "Not"
  | historically => "Historically"
  | once => "Once"
  | yesterday => "Yesterday"

/-- Temporal operators with two arguments. -/
inductive Binary where
  | and | or | implication | strongUntil | weakUntil | release | since | trigger
  deriving DecidableEq, Repr

/-- The name of an operator with two arguments. -/
def Binary.name : Binary → String
  | and => "And"
  | or => "Or"
  | implication => "Implication"
  | strongUntil => "Until"
  | weakUntil => "WeakUntil"
  | release => "Release"
  | since => "Since"
  | trigger => "Trigger"

/-- Temporal constants. -/
inductive Keyword where
  | true | false | sink | deadlock | current
  deriving DecidableEq, Repr

/-- The name of a constant. -/
def Keyword.name : Keyword → String
  | true => "True"
  | false => "False"
  | sink => "Sink"
  | deadlock => "Deadlock"
  | current => "Current"

end BMethod.Ltl

namespace BMethod

/-- A temporal formula. -/
inductive Ltl where
  | unary (op : Ltl.Unary) (arg : Ltl)
  | binary (op : Ltl.Binary) (left right : Ltl)
  | keyword (op : Ltl.Keyword)
  | pred (p : Pred)

end BMethod
