import BMethod.Span
import BMethod.Unifier.Unify

/-!
# Type errors

Why a check fails, each cause with what it says about the place. The wording is in `TypeError.text`.
-/

namespace BMethod

/-- A place in a formula or machine: what stands there, and where, if that is known. -/
structure Site where
  description : String
  span : Option Span
  deriving DecidableEq, Repr

/-- The written form of a place. -/
def Site.text (s : Site) : String :=
  match s.span with
  | some span => s!"{s.description} at {span.text}"
  | none => s.description

/-- The kinds of things that must have a type. -/
inductive Subject where
  | constant | stateVariable | includedVariable | localVariable | operator | formula | expression
  deriving DecidableEq, Repr

/-- The word for a kind of thing. -/
def Subject.text : Subject → String
  | constant => "constant"
  | stateVariable => "variable"
  | includedVariable => "included variable"
  | localVariable => "local variable"
  | operator => "operator"
  | formula => "formula"
  | expression => "expression"

/-- Why a check fails. -/
inductive TypeError where
  /-- What the place requires and what stands there can not be unified. -/
  | mismatch (expected found : Ty) (site : Site) (cause : UnifyError)
  /-- The type of something stays unknown, or known only in part. -/
  | unresolved (what : Subject) (name : String) (ty : Ty) (span : Option Span)
  | unknownField (record : Ty) (field : String) (span : Option Span)
  /-- A field is asked of something that is not known to be a record. -/
  | expectedRecord (field : String) (found : Ty) (span : Option Span)
  | arity (expected found : Nat) (site : Site)
  | undefinedOperation (name : String) (span : Option Span)
  deriving DecidableEq, Repr

namespace TypeError

/-- The message of a type error. -/
def text : TypeError → String
  | mismatch expected found site _ =>
    s!"Type mismatch in {site.text}: expected {expected.text}, found {found.text}"
  | unresolved what name ty _ =>
    s!"Can not infer the type of {what.text} {name}. Type variable: {ty.text}"
  | unknownField record field _ => s!"Unknown field {field} in record {record.text}"
  | expectedRecord field found _ =>
    s!"Expected a record to access field {field}, found {found.text}"
  | arity expected found site =>
    s!"Wrong number of arguments in {site.text}: expected {expected}, found {found}"
  | undefinedOperation name _ => s!"Operation {name} is not defined"

/-- Where the error was found, if that is known. -/
def span : TypeError → Option Span
  | mismatch _ _ site _ | arity _ _ site => site.span
  | unresolved _ _ _ span | unknownField _ _ span | expectedRecord _ _ span
  | undefinedOperation _ span => span

/-- The error that a type error follows from. -/
def cause? : TypeError → Option UnifyError
  | mismatch _ _ _ cause => some cause
  | _ => none

end TypeError

end BMethod
