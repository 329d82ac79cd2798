import BMethod.Operator
import BMethod.Span
import BMethod.Ty.Basic

/-!
# Expressions and predicates

Expressions and predicates contain each other. Every node of either kind has a note, which holds
where the node stands in the text and what is known of its type. Identifiers refer to declarations
by number, and binders list the numbers of what they bind.
-/

namespace BMethod

/-- What a node carries besides its form. -/
structure Note where
  span : Option Span
  /-- The type of the node, empty until something is known. -/
  ty : Option Ty
  deriving DecidableEq, Repr, Inhabited

/-- A note that has been given a type. -/
def Note.withTy (n : Note) (t : Ty) : Note := { n with ty := some t }

/-- The name of a record field, and the declaration that all records with the field share. -/
structure FieldLabel where
  decl : Nat
  name : String
  deriving DecidableEq, Repr, Inhabited

mutual

/-- An expression. -/
inductive Expr where
  | identifier (note : Note) (decl : Nat) (name : String)
  | integer (note : Note) (value : Int)
  /-- A real number, as it is written. -/
  | real (note : Note) (digits : String)
  | string (note : Note) (value : String)
  | apply (note : Note) (op : Operator) (args : List Expr)
  /-- The aggregate of the values of `body` where `pred` holds. -/
  | aggregate (note : Note) (op : Aggregate) (bound : List Nat) (pred : Pred) (body : Expr)
  /-- The set of the tuples of which `pred` holds. -/
  | comprehension (note : Note) (bound : List Nat) (pred : Pred)
  | lambda (note : Note) (bound : List Nat) (pred : Pred) (body : Expr)
  | ite (note : Note) (cond : Pred) (yes no : Expr)
  | letIn (note : Note) (bound : List Nat) (pred : Pred) (body : Expr)
  /-- A record with the given values. -/
  | record (note : Note) (fields : List (FieldLabel × Expr))
  /-- The set of records with values in the given sets. -/
  | struct (note : Note) (fields : List (FieldLabel × Expr))
  | field (note : Note) (target : Expr) (name : String)
  /-- The truth value of a predicate. -/
  | bool (note : Note) (pred : Pred)

/-- A predicate. -/
inductive Pred where
  | connective (note : Note) (op : Connective) (args : List Pred)
  | comparison (note : Note) (op : Comparison) (args : List Expr)
  | identifier (note : Note) (decl : Nat) (name : String)
  | quantified (note : Note) (op : Quantifier) (bound : List Nat) (pred : Pred)
  | ite (note : Note) (cond yes no : Pred)
  | letIn (note : Note) (bound : List Nat) (defs body : Pred)

end

namespace Expr

/-- The note of an expression. -/
def note : Expr → Note
  | identifier n .. | integer n _ | real n _ | string n _ | apply n .. | aggregate n ..
  | comprehension n .. | lambda n .. | ite n .. | letIn n .. | record n _ | struct n _
  | field n .. | bool n _ => n

/-- The same expression with another note. -/
def withNote (n : Note) : Expr → Expr
  | identifier _ decl name => identifier n decl name
  | integer _ value => integer n value
  | real _ digits => real n digits
  | string _ value => string n value
  | apply _ op args => apply n op args
  | aggregate _ op bound pred body => aggregate n op bound pred body
  | comprehension _ bound pred => comprehension n bound pred
  | lambda _ bound pred body => lambda n bound pred body
  | ite _ cond yes no => ite n cond yes no
  | letIn _ bound pred body => letIn n bound pred body
  | record _ fields => record n fields
  | struct _ fields => struct n fields
  | field _ target name => field n target name
  | bool _ pred => bool n pred

/-- The same expression with a type in its slot. -/
def withTy (t : Ty) (e : Expr) : Expr := e.withNote (e.note.withTy t)

/-- The description of an expression in messages. -/
def describe : Expr → String
  | identifier _ _ name => s!"identifier `{name}`"
  | integer _ value => s!"number {value}"
  | real _ digits => s!"real {digits}"
  | string _ value => s!"string \"{value}\""
  | apply _ op _ => s!"operator {op.name}"
  | aggregate _ op .. => s!"quantified expression {op.name}"
  | comprehension .. => "set comprehension"
  | lambda .. => "lambda expression"
  | ite .. => "IF expression"
  | letIn .. => "LET expression"
  | record .. => "record"
  | struct .. => "struct"
  | field _ _ name => s!"field access `'{name}`"
  | bool .. => "bool(...)"

end Expr

namespace Pred

/-- The note of a predicate. -/
def note : Pred → Note
  | connective n .. | comparison n .. | identifier n .. | quantified n .. | ite n ..
  | letIn n .. => n

/-- The same predicate with another note. -/
def withNote (n : Note) : Pred → Pred
  | connective _ op args => connective n op args
  | comparison _ op args => comparison n op args
  | identifier _ decl name => identifier n decl name
  | quantified _ op bound pred => quantified n op bound pred
  | ite _ cond yes no => ite n cond yes no
  | letIn _ bound defs body => letIn n bound defs body

/-- The same predicate with a type in its slot. -/
def withTy (t : Ty) (p : Pred) : Pred := p.withNote (p.note.withTy t)

/-- The description of a predicate in messages. -/
def describe : Pred → String
  | connective _ op _ => s!"predicate {op.name}"
  | comparison _ op _ => s!"predicate {op.name}"
  | identifier _ _ name => s!"identifier `{name}`"
  | quantified _ op .. => s!"{op.name} predicate"
  | ite .. => "IF predicate"
  | letIn .. => "LET predicate"

end Pred

/-- An expression or a predicate on its own. -/
inductive Formula where
  | expr (e : Expr)
  | pred (p : Pred)

end BMethod
