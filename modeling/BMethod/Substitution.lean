import BMethod.Formula

/-!
# Substitutions

The statements of B: assignments in several forms, blocks that bind names, guards, branches, loops
and calls of operations. A substitution has no type of its own.
-/

namespace BMethod

/-- Whose operation is called. -/
inductive Callee where
  /-- The operation of the machine itself with this number. -/
  | own (operation : Nat)
  /-- An operation of a machine that is referred to. -/
  | referred (reference operation : Nat)
  deriving DecidableEq, Repr

/-- What a condition before a substitution means. -/
inductive Guard where
  | precondition | assertion
  deriving DecidableEq, Repr

/-- How branches with conditions are chosen from. -/
inductive Branching where
  | ifThen | select
  deriving DecidableEq, Repr

/-- How substitutions are composed. -/
inductive Composition where
  | sequential | parallel
  deriving DecidableEq, Repr

/-- A substitution. -/
inductive Substitution where
  | skip (span : Option Span)
  /-- Each target takes the value at its place in the list. -/
  | assign (span : Option Span) (targets values : List Expr)
  /-- The targets together take some tuple of the set. -/
  | becomesElement (span : Option Span) (targets : List Expr) (set : Expr)
  /-- The targets take some values of which `pred` holds. -/
  | becomesSuch (span : Option Span) (targets : List Expr) (pred : Pred)
  | any (span : Option Span) (bound : List Nat) (pred : Pred) (body : Substitution)
  | letIn (span : Option Span) (bound : List Nat) (pred : Pred) (body : Substitution)
  | var (span : Option Span) (bound : List Nat) (body : Substitution)
  | guarded (span : Option Span) (kind : Guard) (cond : Pred) (body : Substitution)
  | branch (span : Option Span) (kind : Branching) (conds : List Pred)
      (branches : List Substitution) (otherwise : Option Substitution)
  | choice (span : Option Span) (branches : List Substitution)
  | block (span : Option Span) (kind : Composition) (parts : List Substitution)
  | loop (span : Option Span) (cond : Pred) (body : Substitution) (inv : Pred) (variant : Expr)
  /-- A call with arguments, whose outputs go to the assigned expressions. -/
  | call (span : Option Span) (name : String) (callee : Callee) (args assigned : List Expr)

/-- Where a substitution stands in the text. -/
def Substitution.span : Substitution → Option Span
  | skip s | assign s .. | becomesElement s .. | becomesSuch s .. | any s .. | letIn s .. | var s ..
  | guarded s .. | branch s .. | choice s .. | block s .. | loop s .. | call s .. => s

end BMethod
