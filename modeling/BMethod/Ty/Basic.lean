/-!
# Types

The types of the B method: integers, booleans, strings and reals, powersets, pairs, records, and
the elements of enumerated and deferred sets. A type under inference may also hold variables and
the two ambiguous forms that binary `-` and `*` leave open, `setOrInteger` and `integerOrPairs`.

Two relations compare types. Equality is the equality of terms. `Ty.same` identifies the element
types of a set by the set's identity alone, so that a set and its copy have the same elements.
-/

namespace BMethod

/-- What identifies a set: the machine that introduces it and its declaration there. -/
structure SetId where
  machine : String
  decl : Nat
  deriving DecidableEq, Repr, Inhabited

/-- A type, possibly not known in all its parts. -/
inductive Ty where
  /-- An unknown type. -/
  | var (v : Nat)
  | integer
  | bool
  | string
  | real
  /-- Sets of elements of one type. -/
  | set (elem : Ty)
  | couple (left right : Ty)
  /-- Records; the order of the fields matters. -/
  | record (fields : List (String × Ty))
  /-- Elements of the enumerated set `name`, which are its literals. -/
  | enumerated (id : SetId) (name : String) (literals : List String)
  /-- Elements of the deferred set `name`. -/
  | deferred (id : SetId) (name : String)
  /-- Either the integers or sets of `elem`. -/
  | setOrInteger (elem : Ty)
  /-- Either the integers or sets of pairs. -/
  | integerOrPairs (left right : Ty)
  deriving Repr, Inhabited

namespace Ty

/-- Induction on types with one case for records, in which the claim holds of every field. -/
@[elab_as_elim, induction_eliminator]
theorem induction {P : Ty → Prop}
    (var : ∀ v, P (.var v)) (integer : P .integer) (bool : P .bool) (string : P .string)
    (real : P .real) (set : ∀ elem, P elem → P (.set elem))
    (couple : ∀ left right, P left → P right → P (.couple left right))
    (record : ∀ fields : List (String × Ty), (∀ f ∈ fields, P f.2) → P (.record fields))
    (enumerated : ∀ id name literals, P (.enumerated id name literals))
    (deferred : ∀ id name, P (.deferred id name))
    (setOrInteger : ∀ elem, P elem → P (.setOrInteger elem))
    (integerOrPairs : ∀ left right, P left → P right → P (.integerOrPairs left right))
    (t : Ty) : P t :=
  @Ty.rec P (fun fields => ∀ f ∈ fields, P f.2) (fun f => P f.2)
    var integer bool string real set couple record enumerated deferred setOrInteger integerOrPairs
    (fun _ h => nomatch h)
    (fun _ _ head tail _ h => by
      cases h with
      | head => exact head
      | tail _ h => exact tail _ h)
    (fun _ _ h => h) t

/-! ## Derived forms. -/

/-- Relations are sets of pairs. -/
def relation (left right : Ty) : Ty := .set (.couple left right)

/-- Sequences are relations from integers. -/
def sequence (elem : Ty) : Ty := relation .integer elem

/-- The type of a tuple, nested to the left; there is no empty tuple. -/
def tuple? : List Ty → Option Ty
  | [] => none
  | t :: ts => some (ts.foldl couple t)

/-- The type of the first field of that name. -/
def field? (fields : List (String × Ty)) (name : String) : Option Ty := fields.lookup name

/-! ## Variables and size. -/

/-- A variable on its own. -/
def isVar : Ty → Bool
  | .var _ => true
  | _ => false

mutual

/-- The variables of a type, from left to right, as often as they occur. -/
def vars : Ty → List Nat
  | .var v => [v]
  | .set elem | .setOrInteger elem => vars elem
  | .couple left right | .integerOrPairs left right => vars left ++ vars right
  | .record fields => fieldVars fields
  | _ => []

/-- The variables of the types of some fields. -/
def fieldVars : List (String × Ty) → List Nat
  | [] => []
  | (_, t) :: fields => vars t ++ fieldVars fields

end

mutual

/-- The number of type formers. -/
def size : Ty → Nat
  | .set elem | .setOrInteger elem => size elem + 1
  | .couple left right | .integerOrPairs left right => size left + size right + 1
  | .record fields => fieldsSize fields + 1
  | _ => 1

/-- The number of type formers in some fields. -/
def fieldsSize : List (String × Ty) → Nat
  | [] => 0
  | (_, t) :: fields => size t + fieldsSize fields

end

mutual

/-- Replaces every variable, unless there is nothing to put for one of them. -/
def bindVars (f : Nat → Option Ty) : Ty → Option Ty
  | .var v => f v
  | .set elem => return .set (← bindVars f elem)
  | .couple left right => return .couple (← bindVars f left) (← bindVars f right)
  | .record fields => return .record (← bindFields f fields)
  | .setOrInteger elem => return .setOrInteger (← bindVars f elem)
  | .integerOrPairs left right => return .integerOrPairs (← bindVars f left) (← bindVars f right)
  | t => some t

/-- Replaces every variable in the types of some fields. -/
def bindFields (f : Nat → Option Ty) : List (String × Ty) → Option (List (String × Ty))
  | [] => some []
  | (name, t) :: fields => return (name, ← bindVars f t) :: (← bindFields f fields)

end

/-! ## Concrete types. -/

mutual

/-- A concrete type has no unknown and no ambiguous part. -/
def isConcrete : Ty → Bool
  | .var _ | .setOrInteger _ | .integerOrPairs _ _ => false
  | .set elem => isConcrete elem
  | .couple left right => isConcrete left && isConcrete right
  | .record fields => fieldsConcrete fields
  | _ => true

/-- All fields have concrete types. -/
def fieldsConcrete : List (String × Ty) → Bool
  | [] => true
  | (_, t) :: fields => isConcrete t && fieldsConcrete fields

end

theorem fieldVars_eq_flatMap (fields : List (String × Ty)) :
    fieldVars fields = fields.flatMap fun f => f.2.vars := by
  induction fields with
  | nil => rfl
  | cons f fields ih => simp [fieldVars, ih]

theorem fieldsConcrete_eq_all (fields : List (String × Ty)) :
    fieldsConcrete fields = fields.all fun f => f.2.isConcrete := by
  induction fields with
  | nil => rfl
  | cons f fields ih => simp [fieldsConcrete, ih]

/-! ## Sameness. -/

mutual

/-- Equality up to the names and literals of enumerated and deferred sets, which their identity
determines. -/
def same : Ty → Ty → Bool
  | .var a, .var b => a == b
  | .integer, .integer | .bool, .bool | .string, .string | .real, .real => true
  | .set a, .set b | .setOrInteger a, .setOrInteger b => same a b
  | .couple a b, .couple c d | .integerOrPairs a b, .integerOrPairs c d => same a c && same b d
  | .record as, .record bs => sameFields as bs
  | .enumerated a _ _, .enumerated b _ _ | .deferred a _, .deferred b _ => a == b
  | _, _ => false

/-- The same names in the same order, with the same types. -/
def sameFields : List (String × Ty) → List (String × Ty) → Bool
  | [], [] => true
  | (a, s) :: as, (b, t) :: bs => a == b && same s t && sameFields as bs
  | _, _ => false

end

/-- Two records have one shape if they have the same field names in the same order. -/
def sameNames (as bs : List (String × Ty)) : Bool := as.map (·.1) == bs.map (·.1)

/-! ## Decidable equality. -/

mutual

/-- Decides equality of types. -/
def beq : Ty → Ty → Bool
  | .var a, .var b => a == b
  | .integer, .integer | .bool, .bool | .string, .string | .real, .real => true
  | .set a, .set b | .setOrInteger a, .setOrInteger b => beq a b
  | .couple a b, .couple c d | .integerOrPairs a b, .integerOrPairs c d => beq a c && beq b d
  | .record as, .record bs => beqFields as bs
  | .enumerated a n ls, .enumerated b m ms => a == b && n == m && ls == ms
  | .deferred a n, .deferred b m => a == b && n == m
  | _, _ => false

/-- Decides equality of field lists. -/
def beqFields : List (String × Ty) → List (String × Ty) → Bool
  | [], [] => true
  | (a, s) :: as, (b, t) :: bs => a == b && beq s t && beqFields as bs
  | _, _ => false

end

theorem beqFields_iff {as bs : List (String × Ty)}
    (h : ∀ f ∈ as, ∀ t, beq f.2 t = true ↔ f.2 = t) : beqFields as bs = true ↔ as = bs := by
  induction as generalizing bs with
  | nil => cases bs <;> simp [beqFields]
  | cons f as ih =>
    obtain ⟨a, s⟩ := f
    have hs := h (a, s) (by simp)
    have has : ∀ bs, beqFields as bs = true ↔ as = bs := fun _ => ih fun f hf => h f (by simp [hf])
    cases bs with
    | nil => simp [beqFields]
    | cons g bs =>
      obtain ⟨b, t⟩ := g
      simp [beqFields, hs, has, and_assoc]

theorem beq_iff (s t : Ty) : beq s t = true ↔ s = t := by
  induction s generalizing t with
  | record fields ih =>
    cases t <;> simp [beq]
    exact beqFields_iff ih
  | _ => cases t <;> simp_all [beq, and_assoc]

instance : DecidableEq Ty := fun s t => decidable_of_iff _ (beq_iff s t)

end Ty

end BMethod
