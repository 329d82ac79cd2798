import BMethod.Ty.Basic
import Mathlib.Data.Finset.Card
import Mathlib.Tactic

/-!
# Values of types

A valuation gives every type variable a type. The value of a type under it has the variables
replaced and the names and literals of sets forgotten, so that two types without variables have one
value exactly if they are the same (`same_iff_canon`). Everything that is said about unification
later is said about values.

Besides values the file has the measures and closure conditions of types on which the theory of the
store rests: `depth`, `Scoped` (no ambiguous part, and no variable from a bound on), and the homomorphisms
of types, under which typing rules are stable.
-/

namespace BMethod.Ty

/-! ## Values. -/

mutual

/-- The value of a type under a valuation of its variables. -/
def eval (σ : Nat → Ty) : Ty → Ty
  | .var v => σ v
  | .integer => .integer
  | .bool => .bool
  | .string => .string
  | .real => .real
  | .set elem => .set (eval σ elem)
  | .couple left right => .couple (eval σ left) (eval σ right)
  | .record fields => .record (evalFields σ fields)
  | .enumerated id _ _ => .enumerated id "" []
  | .deferred id _ => .deferred id ""
  | .setOrInteger elem => .setOrInteger (eval σ elem)
  | .integerOrPairs left right => .integerOrPairs (eval σ left) (eval σ right)

/-- The values of the types of some fields. -/
def evalFields (σ : Nat → Ty) : List (String × Ty) → List (String × Ty)
  | [] => []
  | (name, t) :: fields => (name, eval σ t) :: evalFields σ fields

end

/-- The form of a type in which names and literals of sets are forgotten. -/
def canon (t : Ty) : Ty := t.eval .var

lemma evalFields_eq_map (σ : Nat → Ty) (fields : List (String × Ty)) :
    evalFields σ fields = fields.map fun f => (f.1, f.2.eval σ) := by
  induction fields with
  | nil => rfl
  | cons f fields ih => simp [evalFields, ih]

@[simp] lemma eval_relation (σ : Nat → Ty) (left right : Ty) :
    (relation left right).eval σ = relation (left.eval σ) (right.eval σ) := by
  simp [relation, eval]

/-- Fields keep their names, so a value has the same names as its type. -/
lemma map_fst_evalFields (σ : Nat → Ty) (fields : List (String × Ty)) :
    (evalFields σ fields).map (·.1) = fields.map (·.1) := by
  simp [evalFields_eq_map]

@[simp] lemma mem_fieldVars {v : Nat} {fields : List (String × Ty)} :
    v ∈ fieldVars fields ↔ ∃ f ∈ fields, v ∈ f.2.vars := by
  simp [fieldVars_eq_flatMap]

/-- The value depends on the variables of the type alone. -/
lemma eval_congr {σ σ' : Nat → Ty} {t : Ty} (h : ∀ v ∈ t.vars, σ v = σ' v) :
    t.eval σ = t.eval σ' := by
  induction t with
  | var v => exact h v (by simp [vars])
  | set elem ih => simp only [eval]; rw [ih h]
  | setOrInteger elem ih => simp only [eval]; rw [ih h]
  | couple left right ihl ihr =>
    simp only [vars, List.mem_append] at h
    simp only [eval]
    rw [ihl fun v hv => h v (.inl hv), ihr fun v hv => h v (.inr hv)]
  | integerOrPairs left right ihl ihr =>
    simp only [vars, List.mem_append] at h
    simp only [eval]
    rw [ihl fun v hv => h v (.inl hv), ihr fun v hv => h v (.inr hv)]
  | record fields ih =>
    simp only [vars, mem_fieldVars] at h
    simp only [eval, evalFields_eq_map, record.injEq]
    refine List.map_congr_left fun f hf => ?_
    rw [ih f hf fun v hv => h v ⟨f, hf, hv⟩]
  | _ => rfl

/-- A variable may have the value of any type that it does not occur in. -/
lemma exists_eval_eq {v : Nat} {t : Ty} (h : v ∉ t.vars) : ∃ σ : Nat → Ty, σ v = t.eval σ := by
  refine ⟨Function.update (fun _ => .integer) v (t.eval fun _ => .integer), ?_⟩
  rw [Function.update_self]
  refine eval_congr fun w hw => ?_
  rw [Function.update_of_ne]
  rintro rfl
  exact h hw

/-- Evaluating a value once more evaluates the values of the variables. -/
lemma eval_eval (σ τ : Nat → Ty) (t : Ty) :
    (t.eval σ).eval τ = t.eval fun v => (σ v).eval τ := by
  induction t with
  | record fields ih =>
    simp only [eval, evalFields_eq_map, List.map_map, record.injEq]
    refine List.map_congr_left fun f hf => ?_
    simp [ih f hf]
  | _ => simp_all [eval]

lemma eval_canon (σ : Nat → Ty) (t : Ty) : t.canon.eval σ = t.eval σ := by
  rw [canon, eval_eval]
  rfl

@[simp] lemma canon_canon (t : Ty) : t.canon.canon = t.canon := eval_canon _ _

/-! ## Sameness. -/

/-- Types are the same if they differ in the names and literals of sets at most. -/
lemma same_iff_canon (s t : Ty) : same s t = true ↔ s.canon = t.canon := by
  induction s generalizing t with
  | record as ih =>
    cases t with
    | record bs =>
      simp only [same, canon, eval, record.injEq]
      induction as generalizing bs with
      | nil => cases bs <;> simp [sameFields, evalFields]
      | cons f as ihs =>
        obtain ⟨a, s⟩ := f
        have hs := ih (a, s) (by simp)
        have has : ∀ bs, sameFields as bs = true ↔ evalFields .var as = evalFields .var bs :=
          ihs fun f hf => ih f (by simp [hf])
        cases bs with
        | nil => simp [sameFields, evalFields]
        | cons g bs =>
          obtain ⟨b, t⟩ := g
          simp [sameFields, evalFields, has, hs, canon, and_assoc]
    | _ => exact iff_of_false Bool.false_ne_true (by simp only [canon, eval, reduceCtorEq,
        not_false_iff])
  | _ =>
    cases t
    -- Types of two kinds differ by evaluation, without the equations of `same`.
    all_goals first
      | exact iff_of_false Bool.false_ne_true (by simp only [canon, eval, reduceCtorEq,
          not_false_iff])
      | simp_all [same, canon, eval]

lemma same_refl (t : Ty) : same t t = true := (same_iff_canon t t).2 rfl

lemma same_comm {s t : Ty} (h : same s t = true) : same t s = true :=
  (same_iff_canon t s).2 ((same_iff_canon s t).1 h).symm

lemma same_trans {s t u : Ty} (h : same s t = true) (h' : same t u = true) : same s u = true :=
  (same_iff_canon s u).2 (((same_iff_canon s t).1 h).trans ((same_iff_canon t u).1 h'))

lemma eq_integer_of_same {t : Ty} (h : same t .integer = true) : t = .integer := by
  cases t with
  | integer => rfl
  | _ => cases h

/-! ## Concrete types. -/

/-- A concrete type has no variables. -/
lemma vars_of_isConcrete {t : Ty} (h : t.isConcrete = true) : t.vars = [] := by
  induction t with
  | record fields ih =>
    simp only [isConcrete, fieldsConcrete_eq_all, List.all_eq_true] at h
    simp only [vars, fieldVars_eq_flatMap, List.flatMap_eq_nil_iff]
    exact fun f hf => ih f hf (h f hf)
  | _ => simp_all [isConcrete, vars]

/-- A concrete type has one value. -/
lemma eval_of_isConcrete {t : Ty} (h : t.isConcrete = true) (σ : Nat → Ty) : t.eval σ = t.canon :=
  eval_congr (by simp [vars_of_isConcrete h])

/-- A value is concrete if the type has no ambiguous part and its variables have concrete values. -/
lemma isConcrete_canon (t : Ty) : t.canon.isConcrete = t.isConcrete := by
  induction t with
  | record fields ih =>
    simp only [canon, eval, isConcrete, fieldsConcrete_eq_all, evalFields_eq_map, List.all_map]
    rw [Bool.eq_iff_iff, List.all_eq_true, List.all_eq_true]
    refine forall₂_congr fun f hf => ?_
    rw [← ih f hf]
    rfl
  | _ => simp_all [canon, eval, isConcrete]

/-- Sameness preserves concreteness. -/
lemma isConcrete_of_same {s t : Ty} (h : same s t = true) (hs : s.isConcrete = true) :
    t.isConcrete = true := by
  rw [← isConcrete_canon, ← (same_iff_canon s t).1 h, isConcrete_canon, hs]

/-! ## Homomorphisms. -/

/-- A map of types that is given by what it does to variables and to elements of sets. -/
structure Hom (f : Ty → Ty) : Prop where
  integer : f .integer = .integer
  bool : f .bool = .bool
  string : f .string = .string
  real : f .real = .real
  set : ∀ t, f (.set t) = .set (f t)
  couple : ∀ l r, f (.couple l r) = .couple (f l) (f r)
  record : ∀ fields, f (.record fields) = .record (fields.map fun x => (x.1, f x.2))

/-- Taking values is a homomorphism. -/
lemma hom_eval (σ : Nat → Ty) : Hom (eval σ) where
  integer := rfl
  bool := rfl
  string := rfl
  real := rfl
  set _ := by simp only [eval]
  couple _ _ := by simp only [eval]
  record _ := by simp only [eval, evalFields_eq_map]

lemma hom_canon : Hom canon := hom_eval .var

lemma Hom.relation {f : Ty → Ty} (hom : Hom f) (l r : Ty) :
    f (relation l r) = relation (f l) (f r) := by
  rw [Ty.relation, hom.set, hom.couple, Ty.relation]

/-- A homomorphism maps the type of a tuple componentwise. -/
lemma Hom.tuple? {f : Ty → Ty} (hom : Hom f) (ts : List Ty) :
    tuple? (ts.map f) = (tuple? ts).map f := by
  cases ts with
  | nil => rfl
  | cons t ts =>
    simp only [Ty.tuple?, List.map_cons, Option.map_some, Option.some.injEq]
    induction ts generalizing t with
    | nil => rfl
    | cons u ts ih => rw [List.map_cons, List.foldl_cons, ← hom.couple, ih, List.foldl_cons]

/-- A homomorphism maps the type of a field. -/
lemma field?_map (f : Ty → Ty) (fields : List (String × Ty)) (name : String) :
    field? (fields.map fun x => (x.1, f x.2)) name = (field? fields name).map f := by
  induction fields with
  | nil => rfl
  | cons x fields ih =>
    obtain ⟨a, t⟩ := x
    simp only [field?, List.map_cons, List.lookup_cons] at ih ⊢
    cases name == a <;> simp [ih]

/-! ## Types over the first variables. -/

mutual

/-- No ambiguous part, and no variable but the first `k`. -/
def Scoped (k : Nat) : Ty → Prop
  | .var v => v < k
  | .set elem => Scoped k elem
  | .couple left right => Scoped k left ∧ Scoped k right
  | .record fields => FieldsScoped k fields
  | .setOrInteger _ | .integerOrPairs _ _ => False
  | _ => True

/-- All fields have scoped types. -/
def FieldsScoped (k : Nat) : List (String × Ty) → Prop
  | [] => True
  | (_, t) :: fields => Scoped k t ∧ FieldsScoped k fields

end

mutual

/-- Decides whether a type is scoped. -/
def decidableScoped (k : Nat) : (t : Ty) → Decidable (Scoped k t)
  | .var v => inferInstanceAs (Decidable (v < k))
  | .set elem => decidableScoped k elem
  | .couple left right =>
    have := decidableScoped k left
    have := decidableScoped k right
    inferInstanceAs (Decidable (Scoped k left ∧ Scoped k right))
  | .record fields => decidableFieldsScoped k fields
  | .setOrInteger _ | .integerOrPairs _ _ => .isFalse id
  | .integer | .bool | .string | .real | .enumerated _ _ _ | .deferred _ _ => .isTrue trivial

/-- Decides whether all fields have scoped types. -/
def decidableFieldsScoped (k : Nat) :
    (fields : List (String × Ty)) → Decidable (FieldsScoped k fields)
  | [] => .isTrue trivial
  | (_, t) :: fields =>
    have := decidableScoped k t
    have := decidableFieldsScoped k fields
    inferInstanceAs (Decidable (Scoped k t ∧ FieldsScoped k fields))

end

instance (k : Nat) (t : Ty) : Decidable (Scoped k t) := decidableScoped k t

lemma fieldsScoped_iff {k : Nat} {fields : List (String × Ty)} :
    FieldsScoped k fields ↔ ∀ f ∈ fields, Scoped k f.2 := by
  induction fields with
  | nil => simp [FieldsScoped]
  | cons f fields ih => simp [FieldsScoped, ih]

lemma Scoped.lt {k v : Nat} {t : Ty} (h : Scoped k t) (hv : v ∈ t.vars) : v < k := by
  induction t with
  | record fields ih =>
    simp only [vars, mem_fieldVars] at hv
    obtain ⟨f, hf, hv⟩ := hv
    exact ih f hf (fieldsScoped_iff.1 h f hf) hv
  | _ => simp_all [Scoped, vars] <;> grind

lemma Scoped.mono {k k' : Nat} {t : Ty} (h : Scoped k t) (le : k ≤ k') : Scoped k' t := by
  induction t with
  | var v => exact Nat.lt_of_lt_of_le h le
  | record fields ih =>
    exact fieldsScoped_iff.2 fun f hf => ih f hf (fieldsScoped_iff.1 h f hf)
  | _ => simp_all [Scoped]

lemma scoped_of_isConcrete {k : Nat} {t : Ty} (h : t.isConcrete = true) : Scoped k t := by
  induction t with
  | record fields ih =>
    simp only [isConcrete, fieldsConcrete_eq_all, List.all_eq_true] at h
    exact fieldsScoped_iff.2 fun f hf => ih f hf (h f hf)
  | _ => simp_all [Scoped, isConcrete]

@[simp] lemma scoped_relation {k : Nat} {left right : Ty} :
    Scoped k (relation left right) ↔ Scoped k left ∧ Scoped k right := by
  simp [relation, Scoped]

/-- The value of a scoped type is concrete if all values of variables are. -/
lemma Scoped.isConcrete_eval {k : Nat} {t : Ty} {σ : Nat → Ty} (h : Scoped k t)
    (hσ : ∀ v, (σ v).isConcrete = true) : (t.eval σ).isConcrete = true := by
  induction t with
  | var v => exact hσ v
  | record fields ih =>
    simp only [eval, isConcrete, fieldsConcrete_eq_all, evalFields_eq_map, List.all_map,
      List.all_eq_true]
    exact fun f hf => ih f hf (fieldsScoped_iff.1 h f hf)
  | _ => simp_all [Scoped, eval, isConcrete]

/-- A field that is found is one of the fields. -/
lemma mem_of_field? {fields : List (String × Ty)} {name : String} {t : Ty}
    (h : field? fields name = some t) : (name, t) ∈ fields := by
  obtain ⟨before, after, rfl, -⟩ := List.lookup_eq_some_iff.1 h
  simp

/-- A tuple of scoped types is scoped. -/
lemma scoped_of_tuple? {k : Nat} {ts : List Ty} {t : Ty} (h : tuple? ts = some t)
    (hs : ∀ u ∈ ts, Scoped k u) : Scoped k t := by
  cases ts with
  | nil => cases h
  | cons u ts =>
    simp only [tuple?, Option.some.injEq] at h
    subst h
    induction ts generalizing u with
    | nil => exact hs u (by simp)
    | cons x ts ih =>
      refine ih (.couple u x) fun y hy => ?_
      cases hy with
      | head => exact ⟨hs u (by simp), hs x (by simp)⟩
      | tail _ hy => exact hs y (.tail _ (.tail _ hy))

/-! ## Size and depth. -/

lemma fieldsSize_eq_sum (fields : List (String × Ty)) :
    fieldsSize fields = (fields.map fun f => f.2.size).sum := by
  induction fields with
  | nil => rfl
  | cons f fields ih => simp [fieldsSize, ih]

lemma size_le_fieldsSize {f : String × Ty} {fields : List (String × Ty)} (h : f ∈ fields) :
    f.2.size ≤ fieldsSize fields := by
  rw [fieldsSize_eq_sum]
  exact List.single_le_sum (by simp) _ (List.mem_map.2 ⟨f, h, rfl⟩)

lemma size_pos (t : Ty) : 0 < t.size := by
  cases t <;> simp [size]

/-- The value of a variable is part of the value of a type that has the variable. -/
lemma size_le_size_eval (σ : Nat → Ty) {v : Nat} {t : Ty} (h : v ∈ t.vars) :
    (σ v).size ≤ (t.eval σ).size := by
  induction t with
  | var w =>
    obtain rfl : v = w := by simpa [vars] using h
    exact le_rfl
  | record fields ih =>
    simp only [vars, mem_fieldVars] at h
    obtain ⟨f, hf, hv⟩ := h
    simp only [eval, size, evalFields_eq_map]
    have hmem : (f.1, f.2.eval σ) ∈ fields.map fun f => (f.1, f.2.eval σ) :=
      List.mem_map.2 ⟨f, hf, rfl⟩
    have hle := size_le_fieldsSize hmem
    have := ih f hf hv
    simp only at hle
    omega
  | _ => simp_all [vars, eval, size] <;> grind

/-- It is a proper part, unless the type is the variable. -/
lemma size_lt_size_eval (σ : Nat → Ty) {v : Nat} {t : Ty} (h : v ∈ t.vars)
    (nonvar : ∀ w, t ≠ .var w) : (σ v).size < (t.eval σ).size := by
  cases t with
  | var w => exact absurd rfl (nonvar w)
  | record fields =>
    simp only [vars, mem_fieldVars] at h
    obtain ⟨f, hf, hv⟩ := h
    simp only [eval, size, evalFields_eq_map]
    have hmem : (f.1, f.2.eval σ) ∈ fields.map fun f => (f.1, f.2.eval σ) :=
      List.mem_map.2 ⟨f, hf, rfl⟩
    have hle := size_le_fieldsSize hmem
    have := size_le_size_eval σ hv
    simp only at hle
    omega
  | set elem =>
    have := size_le_size_eval σ (t := elem) h
    simp only [eval, size]
    omega
  | setOrInteger elem =>
    have := size_le_size_eval σ (t := elem) h
    simp only [eval, size]
    omega
  | couple left right =>
    simp only [vars, List.mem_append] at h
    have := h.imp (size_le_size_eval σ) (size_le_size_eval σ)
    simp only [eval, size]
    omega
  | integerOrPairs left right =>
    simp only [vars, List.mem_append] at h
    have := h.imp (size_le_size_eval σ) (size_le_size_eval σ)
    simp only [eval, size]
    omega
  | _ => simp [vars] at h

mutual

/-- How deep type formers are nested; pairs in sets are two of them. -/
def depth : Ty → Nat
  | .set elem | .setOrInteger elem => depth elem + 1
  | .couple left right => max (depth left) (depth right) + 1
  | .record fields => fieldsDepth fields + 1
  | .integerOrPairs left right => max (depth left) (depth right) + 2
  | _ => 0

/-- How deep type formers are nested in some fields. -/
def fieldsDepth : List (String × Ty) → Nat
  | [] => 0
  | (_, t) :: fields => max (depth t) (fieldsDepth fields)

end

lemma fieldsDepth_le_iff {fields : List (String × Ty)} {n : Nat} :
    fieldsDepth fields ≤ n ↔ ∀ f ∈ fields, f.2.depth ≤ n := by
  induction fields with
  | nil => simp [fieldsDepth]
  | cons f fields ih => simp only [fieldsDepth, max_le_iff, ih, List.forall_mem_cons]

/-- There are at least as many type formers as one inside the other. -/
lemma depth_le_size (t : Ty) : t.depth ≤ t.size := by
  induction t with
  | record fields ih =>
    simp only [depth, size, Nat.add_le_add_iff_right]
    exact fieldsDepth_le_iff.2 fun f hf => (ih f hf).trans (size_le_fieldsSize hf)
  | couple left right ihl ihr | integerOrPairs left right ihl ihr =>
    have := left.size_pos
    have := right.size_pos
    simp only [depth, size]
    omega
  | _ => simp only [depth, size]; omega

end BMethod.Ty
