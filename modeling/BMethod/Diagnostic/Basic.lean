import BMethod.Typing.Error

/-!
# Diagnostics

A diagnostic says what is wrong, marks the places in the text that show it, and adds notes and
help. Every type error has a code and a diagnostic.
-/

namespace BMethod

/-- How bad a diagnostic is. -/
inductive Severity where
  | error | warning
  deriving DecidableEq, Repr

/-- The word for a severity. -/
def Severity.text : Severity → String
  | error => "error"
  | warning => "warning"

/-- A message about a span of the text. -/
structure Label where
  span : Span
  message : String
  deriving DecidableEq, Repr

/-- A message with the places that it is about. -/
structure Diagnostic where
  severity : Severity
  code : Option String
  message : String
  labels : List Label
  notes : List String
  help : List String
  /-- The name of the file that the spans refer to. -/
  filename : Option String
  deriving DecidableEq, Repr

namespace Diagnostic

/-- A diagnostic that says only what is wrong. -/
def ofMessage (severity : Severity) (message : String) : Diagnostic :=
  ⟨severity, none, message, [], [], [], none⟩

/-- Marks a span, if it is known. -/
def withLabel (d : Diagnostic) (span : Option Span) (message : String) : Diagnostic :=
  { d with labels := d.labels ++ (span.map (⟨·, message⟩)).toList }

/-- Adds notes. -/
def withNotes (d : Diagnostic) (notes : List String) : Diagnostic :=
  { d with notes := d.notes ++ notes }

/-- Adds help. -/
def withHelp (d : Diagnostic) (help : List String) : Diagnostic := { d with help := d.help ++ help }

end Diagnostic

/-- Whether one text stands somewhere inside another. -/
def standsIn (part : List Char) : List Char → Bool
  | [] => part.isEmpty
  | c :: cs => part.isPrefixOf (c :: cs) || standsIn part cs

/-- What helps against an unknown type of something. -/
def Subject.help : Subject → List String
  | operator => ["constrain an operand to tell whether this works on integers or on sets"]
  | constant => ["give the constant a type in the PROPERTIES clause"]
  | stateVariable => ["give the variable a type in the INVARIANT clause"]
  | _ => []

namespace TypeError

/-- The code of a type error. -/
def code : TypeError → String
  | mismatch .. => "E0001"
  | unresolved .. => "E0002"
  | unknownField .. => "E0003"
  | expectedRecord .. => "E0004"
  | arity .. => "E0005"
  | undefinedOperation .. => "E0006"

/-- What a mismatch follows from, unless that says no more than the mismatch itself: it names both
types. -/
def causeNotes (expected found : Ty) (cause : UnifyError) : List String :=
  let names (t : Ty) : Bool := standsIn t.text.toList cause.text.toList
  if names expected && names found then [] else [cause.text]

/-- What a type error says, before it is given its code. -/
def describe (e : TypeError) : Diagnostic :=
  match e with
  | mismatch expected found site cause =>
    Diagnostic.ofMessage .error "mismatched types"
      |>.withLabel e.span s!"expected `{expected.text}`, found `{found.text}`"
      |>.withNotes [s!"in {site.description}"]
      |>.withNotes (causeNotes expected found cause)
  | unresolved what name ty _ =>
    Diagnostic.ofMessage .error s!"cannot infer the type of {what.text} `{name}`"
      |>.withLabel e.span s!"only known as `{ty.text}`"
      |>.withHelp what.help
  | unknownField record field _ =>
    Diagnostic.ofMessage .error s!"no field `{field}` in `{record.text}`"
      |>.withLabel e.span "unknown field"
      |>.withHelp
        (match record with
        | .record fields => ["available fields: " ++ ", ".intercalate (fields.map (·.1))]
        | _ => [])
  | expectedRecord field found _ =>
    Diagnostic.ofMessage .error s!"field access `'{field}` on a non-record value"
      |>.withLabel e.span s!"this has type `{found.text}`"
  | arity expected found site =>
    Diagnostic.ofMessage .error s!"wrong number of arguments in {site.description}"
      |>.withLabel e.span s!"expected {expected}, found {found}"
  | undefinedOperation name _ =>
    Diagnostic.ofMessage .error s!"operation `{name}` is not defined"
      |>.withLabel e.span "called here"

/-- The diagnostic of a type error. -/
def diagnostic (e : TypeError) : Diagnostic := { e.describe with code := some e.code }

end TypeError

end BMethod
