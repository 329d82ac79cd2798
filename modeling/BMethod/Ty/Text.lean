import BMethod.Ty.Basic

/-!
# The written form of types

Types are written as B expressions: `POW(t)` for sets, `(l*r)` for pairs, `struct(a:s,b:t)` for
records. A variable is its number after a question mark, and the ambiguous forms list their two
alternatives.
-/

namespace BMethod.Ty

mutual

/-- The written form of a type. -/
def text : Ty → String
  | .var v => s!"?{v}"
  | .integer => "INTEGER"
  | .bool => "BOOL"
  | .string => "STRING"
  | .real => "REAL"
  | .set elem => s!"POW({text elem})"
  | .couple left right => s!"({text left}*{text right})"
  | .record fields => "struct(" ++ ",".intercalate (fieldTexts fields) ++ ")"
  | .enumerated _ name _ | .deferred _ name => name
  | .setOrInteger elem => s!"INTEGER|POW({text elem})"
  | .integerOrPairs left right => s!"INTEGER|POW({text left}*{text right})"

/-- The written forms of fields: name, colon, type. -/
def fieldTexts : List (String × Ty) → List String
  | [] => []
  | (name, t) :: fields => s!"{name}:{text t}" :: fieldTexts fields

end

end BMethod.Ty
