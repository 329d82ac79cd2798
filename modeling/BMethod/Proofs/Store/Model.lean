import BMethod.Proofs.Store.Holds

/-!
# Models of a store

Every well-formed store is satisfied by some valuation: bindings are followed down, free variables
get one given type, and the variables that await a choice all take the same side of it. Such a
`model` gives a type the value that its resolved form has when its open parts are read in this way
(`eval_model`). Two models that differ in both respects give a type one value only if its resolved
form is concrete (`isConcrete_of_ground_eq`), which is why a type that stays open leaves two readings.
-/

namespace BMethod

/-! ## Closing the open parts of a type. -/

/-- How the open parts of types are read: whether what awaits a choice is a set, and what stands for
a variable of which nothing is known. -/
structure Choice where
  sets : Bool
  atom : Ty

/-- What is open is an integer. -/
def Choice.integers : Choice := ⟨false, .integer⟩

/-- What is open is no integer. -/
def Choice.others : Choice := ⟨true, .bool⟩

namespace Ty

mutual

/-- A type with its open parts read. -/
def ground (c : Choice) : Ty → Ty
  | .var _ => c.atom
  | .integer => .integer
  | .bool => .bool
  | .string => .string
  | .real => .real
  | .set elem => .set (ground c elem)
  | .couple left right => .couple (ground c left) (ground c right)
  | .record fields => .record (groundFields c fields)
  | .enumerated id _ _ => .enumerated id "" []
  | .deferred id _ => .deferred id ""
  | .setOrInteger elem => if c.sets then .set (ground c elem) else .integer
  | .integerOrPairs left right =>
    if c.sets then .relation (ground c left) (ground c right) else .integer

/-- Reads the open parts of the types of some fields. -/
def groundFields (c : Choice) : List (String × Ty) → List (String × Ty)
  | [] => []
  | (name, t) :: fields => (name, ground c t) :: groundFields c fields

end

lemma groundFields_eq_map (c : Choice) (fields : List (String × Ty)) :
    groundFields c fields = fields.map fun f => (f.1, f.2.ground c) := by
  induction fields with
  | nil => rfl
  | cons f fields ih => simp [groundFields, ih]

/-- With its open parts read a type is concrete. -/
lemma isConcrete_ground {c : Choice} (h : c.atom.isConcrete = true) (t : Ty) :
    (t.ground c).isConcrete = true := by
  induction t with
  | record fields ih =>
    simp only [ground, isConcrete, fieldsConcrete_eq_all, groundFields_eq_map, List.all_map,
      List.all_eq_true]
    exact ih
  | setOrInteger e ih =>
    rw [ground]
    cases c.sets <;> simp [isConcrete, ih]
  | integerOrPairs l r ihl ihr =>
    rw [ground]
    cases c.sets <;> simp [isConcrete, relation, ihl, ihr]
  | _ => simp_all [ground, isConcrete]

/-- With its open parts read a type has no names. -/
lemma canon_ground {c : Choice} (h : c.atom.canon = c.atom) (t : Ty) :
    (t.ground c).canon = t.ground c := by
  induction t with
  | record fields ih =>
    simp only [ground, canon, eval, evalFields_eq_map, groundFields_eq_map, record.injEq,
      List.map_map]
    exact List.map_congr_left fun f hf => by simp only [Function.comp]; rw [← canon, ih f hf]
  | setOrInteger e ih =>
    rw [ground]
    cases c.sets <;> simp_all [canon, eval]
  | integerOrPairs l r ihl ihr =>
    rw [ground]
    cases c.sets <;> simp_all [canon, eval, relation]
  | _ => simp_all [ground, canon, eval]

/-- A type with an open part is read in two ways. -/
lemma isConcrete_of_ground_eq {t : Ty} (h : t.ground .integers = t.ground .others) :
    t.isConcrete = true := by
  induction t with
  | record fields ih =>
    simp only [ground, groundFields_eq_map, record.injEq] at h
    simp only [isConcrete, fieldsConcrete_eq_all, List.all_eq_true]
    refine fun f hf => ih f hf ?_
    have := List.map_inj_left.1 h f hf
    exact (Prod.mk.inj this).2
  | _ => simp_all [isConcrete, ground, relation, Choice.integers, Choice.others]

/-! ## Replacing variables. -/

/-- Fields are replaced one by one under their names. -/
lemma bindFields_eq_some {f : Nat → Option Ty} {fields gs : List (String × Ty)} :
    bindFields f fields = some gs ↔
      List.Forall₂ (fun x y => x.1 = y.1 ∧ x.2.bindVars f = some y.2) fields gs := by
  induction fields generalizing gs with
  | nil => cases gs <;> simp [bindFields]
  | cons x fields ih =>
    obtain ⟨a, t⟩ := x
    simp only [bindFields, Option.bind_eq_bind, Option.bind_eq_some_iff, Option.pure_def,
      Option.some.injEq]
    constructor
    · rintro ⟨w, hw, ws, hws, rfl⟩
      exact .cons ⟨rfl, hw⟩ (ih.1 hws)
    · intro h
      cases h with
      | @cons _ y _ ys hy hys =>
        obtain ⟨b, u⟩ := y
        obtain ⟨rfl, hu⟩ := hy
        exact ⟨u, hu, ys, ih.2 hys, rfl⟩

section

variable {f : Nat → Option Ty} {t l r u : Ty} {fields : List (String × Ty)}

@[simp] lemma bindVars_set_eq_some :
    bindVars f (.set t) = some u ↔ ∃ x, t.bindVars f = some x ∧ .set x = u := by
  simp [bindVars, Option.bind_eq_some_iff]

@[simp] lemma bindVars_setOrInteger_eq_some :
    bindVars f (.setOrInteger t) = some u ↔ ∃ x, t.bindVars f = some x ∧ .setOrInteger x = u := by
  simp [bindVars, Option.bind_eq_some_iff]

@[simp] lemma bindVars_couple_eq_some :
    bindVars f (.couple l r) = some u ↔
      ∃ x, l.bindVars f = some x ∧ ∃ y, r.bindVars f = some y ∧ .couple x y = u := by
  simp [bindVars, Option.bind_eq_some_iff]

@[simp] lemma bindVars_integerOrPairs_eq_some :
    bindVars f (.integerOrPairs l r) = some u ↔
      ∃ x, l.bindVars f = some x ∧ ∃ y, r.bindVars f = some y ∧ .integerOrPairs x y = u := by
  simp [bindVars, Option.bind_eq_some_iff]

@[simp] lemma bindVars_record_eq_some :
    bindVars f (.record fields) = some u ↔ ∃ gs, List.Forall₂
      (fun x y => x.1 = y.1 ∧ x.2.bindVars f = some y.2) fields gs ∧ .record gs = u := by
  simp [bindVars, Option.bind_eq_some_iff, bindFields_eq_some]

end

/-- What is put for the variables is all that counts. -/
lemma bindVars_mono {f g : Nat → Option Ty} {t u : Ty}
    (put : ∀ v ∈ t.vars, ∀ w, f v = some w → g v = some w) (h : t.bindVars f = some u) :
    t.bindVars g = some u := by
  induction t generalizing u with
  | var v => exact put v (by simp [vars]) u h
  | set t ih | setOrInteger t ih =>
    simp only [bindVars_set_eq_some, bindVars_setOrInteger_eq_some] at h ⊢
    obtain ⟨w, hw, rfl⟩ := h
    exact ⟨w, ih put hw, rfl⟩
  | couple l r ihl ihr | integerOrPairs l r ihl ihr =>
    simp only [bindVars_couple_eq_some, bindVars_integerOrPairs_eq_some] at h ⊢
    obtain ⟨w, hw, w', hw', rfl⟩ := h
    simp only [vars, List.mem_append] at put
    exact ⟨w, ihl (fun v hv => put v (.inl hv)) hw, w', ihr (fun v hv => put v (.inr hv)) hw', rfl⟩
  | record fields ih =>
    simp only [bindVars_record_eq_some] at h ⊢
    obtain ⟨gs, hgs, rfl⟩ := h
    simp only [vars, mem_fieldVars] at put
    refine ⟨gs, ?_, rfl⟩
    induction hgs with
    | nil => exact .nil
    | @cons x y fields gs hxy _ ihf =>
      refine .cons ⟨hxy.1, ih x (by simp) (fun v hv => put v ⟨x, by simp, hv⟩) hxy.2⟩
        (ihf (fun z hz => ih z (by simp [hz])) ?_)
      rintro v ⟨z, hz, hv⟩
      exact put v ⟨z, by simp [hz], hv⟩
  | _ => exact h

/-- Replacing the variables of a type that has none. -/
lemma bindVars_of_vars_eq_nil {f : Nat → Option Ty} {t : Ty} (h : t.vars = []) :
    t.bindVars f = some t := by
  induction t with
  | var v => cases h
  | set t ih | setOrInteger t ih => simp [bindVars, ih h]
  | couple l r ihl ihr | integerOrPairs l r ihl ihr =>
    simp only [vars, List.append_eq_nil_iff] at h
    simp [bindVars, ihl h.1, ihr h.2]
  | record fields ih =>
    have none (f : String × Ty) (hf : f ∈ fields) : f.2.vars = [] := by
      refine List.eq_nil_iff_forall_not_mem.2 fun v hv => ?_
      have mem : v ∈ (record fields).vars := mem_fieldVars.2 ⟨f, hf, hv⟩
      rw [h] at mem
      cases mem
    have same : bindFields f fields = some fields :=
      bindFields_eq_some.2 (List.forall₂_same.2 fun x hx => ⟨rfl, ih x hx (none x hx)⟩)
    simp [bindVars, same]
  | _ => rfl

/-- A property that passes from a type to its parts. -/
structure Hereditary (Q : Ty → Prop) : Prop where
  set : ∀ t, Q (.set t) → Q t
  couple : ∀ l r, Q (.couple l r) → Q l ∧ Q r
  record : ∀ fields, Q (.record fields) → ∀ f ∈ fields, Q f.2

lemma hereditary_true : Hereditary fun _ => True where
  set _ _ := trivial
  couple _ _ _ := ⟨trivial, trivial⟩
  record _ _ _ _ := trivial

lemma hereditary_isConcrete : Hereditary fun t => t.isConcrete = true where
  set _ h := h
  couple _ _ h := by simpa [isConcrete] using h
  record _ h := by simpa [isConcrete, fieldsConcrete_eq_all] using h

/-- What a type becomes by replacing its variables is known from what is put for them. -/
lemma eval_of_bindVars {f : Nat → Option Ty} {σ : Nat → Ty} {g : Ty → Ty} {Q : Ty → Prop}
    (hom : Hom g) (nominal : ∀ t : Ty, t.vars = [] → t.depth = 0 → g t = t.canon)
    (down : Hereditary Q) {k : Nat} {t u : Ty} (scope : t.Scoped k)
    (put : ∀ v ∈ t.vars, ∀ w, f v = some w → Q w → g w = σ v)
    (h : t.bindVars f = some u) (hu : Q u) : g u = t.eval σ := by
  induction t generalizing u with
  | var v => exact put v (by simp [vars]) u h hu
  | set t ih =>
    obtain ⟨w, hw, rfl⟩ := bindVars_set_eq_some.1 h
    rw [hom.set, eval, ih scope put hw (down.set _ hu)]
  | couple l r ihl ihr =>
    obtain ⟨w, hw, w', hw', rfl⟩ := bindVars_couple_eq_some.1 h
    simp only [vars, List.mem_append] at put
    obtain ⟨hu, hu'⟩ := down.couple _ _ hu
    rw [hom.couple, eval, ihl scope.1 (fun v hv => put v (.inl hv)) hw hu,
      ihr scope.2 (fun v hv => put v (.inr hv)) hw' hu']
  | record fields ih =>
    rw [bindVars_record_eq_some] at h
    obtain ⟨gs, hgs, rfl⟩ := h
    replace hu := down.record _ hu
    rw [Scoped, fieldsScoped_iff] at scope
    simp only [vars, mem_fieldVars] at put
    rw [hom.record, eval, record.injEq]
    induction hgs with
    | nil => rfl
    | @cons x y fields gs hxy _ ihf =>
      rw [List.forall_mem_cons] at hu scope
      have first := ih x (by simp) scope.1 (fun v hv => put v ⟨x, by simp, hv⟩) hxy.2 hu.1
      have rest := ihf (fun z hz => ih z (by simp [hz])) scope.2 hu.2 (by
        rintro v ⟨z, hz, hv⟩
        exact put v ⟨z, by simp [hz], hv⟩)
      rw [List.map_cons, evalFields, first, rest, hxy.1]
  | setOrInteger e ih => exact scope.elim
  | integerOrPairs l r ihl ihr => exact scope.elim
  | _ =>
    cases h
    exact nominal _ rfl rfl

/-- Reading the open parts is a homomorphism. -/
lemma hom_ground (c : Choice) : Hom (ground c) where
  integer := rfl
  bool := rfl
  string := rfl
  real := rfl
  set _ := by simp only [ground]
  couple _ _ := by simp only [ground]
  record _ := by simp only [ground, groundFields_eq_map]

end Ty

namespace Store

variable {s : Store}

/-! ## Resolved types. -/

lemma resolve?_of_vars_eq_nil (s : Store) {t : Ty} (h : t.vars = []) :
    s.resolve? t = some t := by
  rw [resolve?]
  cases s.cells.size <;> exact Ty.bindVars_of_vars_eq_nil h

/-- What a variable that resolves to a concrete type is bound to. -/
lemma bound_of_expand {inside : Ty → Option Ty} {v : Nat} {w : Ty}
    (h : s.expand inside v = some w) (hw : w.isConcrete = true) :
    ∃ t, s.cell v = .bound t ∧ inside t = some w := by
  rw [expand] at h
  cases hc : s.cell v with
  | bound t =>
    rw [hc] at h
    exact ⟨t, rfl, h⟩
  | free =>
    simp only [hc, Option.some.injEq] at h
    subst h
    simp [Ty.isConcrete] at hw
  | setOrInteger e =>
    simp only [hc, Option.bind_eq_bind, Option.bind_eq_some_iff, Option.pure_def,
      Option.some.injEq] at h
    obtain ⟨_, _, rfl⟩ := h
    simp [Ty.isConcrete] at hw
  | integerOrPairs l r =>
    simp only [hc, Option.bind_eq_bind, Option.bind_eq_some_iff, Option.pure_def,
      Option.some.injEq] at h
    obtain ⟨_, _, _, _, rfl⟩ := h
    simp [Ty.isConcrete] at hw

/-- A concrete resolved type is the value of the type, for every valuation that respects the
bindings of variables in a set which bindings do not leave. -/
lemma canon_of_resolveWithin {L : Set Nat} {σ : Nat → Ty} (wf : s.WellFormed)
    (hL : ∀ v ∈ L, ∀ t, s.cell v = .bound t → σ v = t.eval σ ∧ ∀ w ∈ t.vars, w ∈ L) {n : Nat}
    {t u : Ty} (ht : t.Over s.cells.size L) (h : s.resolveWithin n t = some u)
    (hu : u.isConcrete = true) : u.canon = t.eval σ := by
  induction n generalizing t u with
  | zero =>
    refine Ty.eval_of_bindVars Ty.hom_canon (fun _ _ _ => rfl) Ty.hereditary_isConcrete ht.1
      (fun v hv w hw hc => ?_) h hu
    obtain ⟨x, _, hx⟩ := bound_of_expand hw hc
    cases hx
  | succ n ih =>
    refine Ty.eval_of_bindVars Ty.hom_canon (fun _ _ _ => rfl) Ty.hereditary_isConcrete ht.1
      (fun v hv w hw hc => ?_) h hu
    obtain ⟨x, hcell, hx⟩ := bound_of_expand hw hc
    obtain ⟨e, sub⟩ := hL v (ht.2 v hv) x hcell
    rw [e]
    exact ih ⟨wf.within v x (by simp [hcell, Cell.contents]), sub⟩ hx hc

/-- Who satisfies a store gives a type that resolves to a concrete type this value. -/
lemma Holds.canon_of_resolve? {σ : Nat → Ty} (h : s.Holds σ) (wf : s.WellFormed) {t u : Ty}
    (ht : t.Scoped s.cells.size) (e : s.resolve? t = some u) (hu : u.isConcrete = true) :
    u.canon = t.eval σ := by
  refine canon_of_resolveWithin (L := Set.univ) wf (fun v _ x hx => ⟨?_, fun _ _ => trivial⟩)
    (Ty.over_univ ht) e hu
  have := h v
  rwa [hx] at this

/-- More hops resolve to the same type. -/
lemma resolveWithin_mono {n m : Nat} (le : n ≤ m) {t u : Ty} (h : s.resolveWithin n t = some u) :
    s.resolveWithin m t = some u := by
  induction n generalizing m t u with
  | zero =>
    cases m with
    | zero => exact h
    | succ m =>
      refine Ty.bindVars_mono (fun v _ w hw => ?_) h
      rw [expand] at hw ⊢
      cases hc : s.cell v <;> simp_all
  | succ n ih =>
    obtain ⟨m, rfl⟩ : ∃ k, m = k + 1 := ⟨m - 1, by omega⟩
    refine Ty.bindVars_mono (fun v _ w hw => ?_) h
    have le : n ≤ m := by omega
    rw [expand] at hw ⊢
    cases hc : s.cell v with
    | free => rw [hc] at hw; exact hw
    | bound t => rw [hc] at hw; exact ih le hw
    | setOrInteger e =>
      simp only [hc, Option.bind_eq_bind, Option.bind_eq_some_iff] at hw ⊢
      obtain ⟨x, hx, hw⟩ := hw
      exact ⟨x, ih le hx, hw⟩
    | integerOrPairs l r =>
      simp only [hc, Option.bind_eq_bind, Option.bind_eq_some_iff] at hw ⊢
      obtain ⟨x, hx, y, hy, hw⟩ := hw
      exact ⟨x, ih le hx, y, ih le hy, hw⟩

/-! ## Models. -/

/-- The valuation that gives every variable what it resolves to, with the open parts read. -/
def model (s : Store) (c : Choice) (v : Nat) : Ty :=
  ((s.resolve? (.var v)).map (Ty.ground c)).getD c.atom

/-- The values of a model are concrete. -/
lemma isConcrete_model (s : Store) {c : Choice} (h : c.atom.isConcrete = true) (v : Nat) :
    (s.model c v).isConcrete = true := by
  rw [model]
  cases s.resolve? (.var v) with
  | none => exact h
  | some u => exact Ty.isConcrete_ground h u

/-- The values of a model have no names. -/
lemma canon_model (s : Store) {c : Choice} (h : c.atom.canon = c.atom) (v : Nat) :
    (s.model c v).canon = s.model c v := by
  rw [model]
  cases s.resolve? (.var v) with
  | none => exact h
  | some u => exact Ty.canon_ground h u

/-- What a model gives a type has no names. -/
lemma canon_eval_model (s : Store) {c : Choice} (h : c.atom.canon = c.atom) (t : Ty) :
    (t.eval (s.model c)).canon = t.eval (s.model c) := by
  rw [Ty.canon, Ty.eval_eval]
  exact Ty.eval_congr fun v _ => s.canon_model h v

/-- A variable resolves to what it expands to with the types in its cell resolved. -/
lemma WellFormed.resolve?_var (wf : s.WellFormed) (v : Nat) :
    s.resolve? (.var v) = s.expand s.resolve? v := by
  obtain ⟨u, hu⟩ := wf.acyclic.exists_resolve? (.var v)
  rw [hu]
  cases hn : s.cells.size with
  | zero =>
    have free : s.cell v = .free := cell_of_size_le (by omega)
    rw [resolve?, hn, resolveWithin, Ty.bindVars, expand, free] at hu
    rw [expand, free, ← hu]
  | succ n =>
    have more : s.expand (s.resolveWithin n) v = some u := by
      rw [resolve?, hn] at hu
      exact hu
    have mono {t w : Ty} (h : s.resolveWithin n t = some w) : s.resolve? t = some w :=
      resolveWithin_mono (by omega) h
    rw [expand] at more ⊢
    cases hc : s.cell v with
    | free => rw [hc] at more; exact more.symm
    | bound t => rw [hc] at more; exact (mono more).symm
    | setOrInteger e =>
      simp only [hc, Option.bind_eq_bind, Option.bind_eq_some_iff] at more
      obtain ⟨x, hx, e⟩ := more
      simp [mono hx, ← e]
    | integerOrPairs l r =>
      simp only [hc, Option.bind_eq_bind, Option.bind_eq_some_iff] at more
      obtain ⟨x, hx, y, hy, e⟩ := more
      simp [mono hx, mono hy, ← e]

/-- Resolving a type replaces its variables by what they resolve to. -/
lemma bindVars_of_resolve? {t u : Ty} (h : s.resolve? t = some u) :
    t.bindVars (fun v => s.resolve? (.var v)) = some u := by
  rw [resolve?] at h
  cases hn : s.cells.size with
  | zero | succ n =>
    rw [hn] at h
    refine Ty.bindVars_mono (fun v _ w hw => ?_) h
    rw [resolve?, hn]
    exact hw

/-- A model gives a type what it resolves to, with the open parts read. -/
lemma eval_model (s : Store) (c : Choice) {k : Nat} {t u : Ty}
    (ht : t.Scoped k) (h : s.resolve? t = some u) : t.eval (s.model c) = u.ground c := by
  have nominal (t : Ty) (hv : t.vars = []) (hd : t.depth = 0) : t.ground c = t.canon := by
    cases t <;> simp_all [Ty.vars, Ty.depth, Ty.ground, Ty.canon, Ty.eval]
  refine (Ty.eval_of_bindVars (Ty.hom_ground c) nominal Ty.hereditary_true ht
    (fun v _ w hw _ => ?_) (bindVars_of_resolve? h) trivial).symm
  rw [model, hw, Option.map_some, Option.getD_some]

/-- Models satisfy the store. -/
lemma WellFormed.holds_model (wf : s.WellFormed) (c : Choice) : s.Holds (s.model c) := by
  intro v
  obtain ⟨u, hu⟩ := wf.acyclic.exists_resolve? (.var v)
  have value : s.model c v = u.ground c := by rw [model, hu, Option.map_some, Option.getD_some]
  have inside {t x : Ty} (ht : t ∈ (s.cell v).contents) (hx : s.resolve? t = some x) :
      t.eval (s.model c) = x.ground c := s.eval_model c (wf.within v t ht) hx
  rw [wf.resolve?_var, expand] at hu
  cases hc : s.cell v with
  | free => trivial
  | bound t =>
    rw [hc] at hu
    rw [Cell.Holds, value, inside (by simp [hc, Cell.contents]) hu]
  | setOrInteger e =>
    simp only [hc, Option.bind_eq_bind, Option.bind_eq_some_iff, Option.pure_def,
      Option.some.injEq] at hu
    obtain ⟨x, hx, rfl⟩ := hu
    rw [Cell.Holds, value, inside (by simp [hc, Cell.contents]) hx, Ty.ground]
    cases c.sets <;> simp
  | integerOrPairs l r =>
    simp only [hc, Option.bind_eq_bind, Option.bind_eq_some_iff, Option.pure_def,
      Option.some.injEq] at hu
    obtain ⟨x, hx, y, hy, rfl⟩ := hu
    rw [Cell.Holds, value, inside (by simp [hc, Cell.contents]) hx,
      inside (by simp [hc, Cell.contents]) hy, Ty.ground]
    cases c.sets <;> simp

/-- What a model gives a variable that awaits a choice is up to the choice alone. -/
lemma WellFormed.model_eq_integer_iff (wf : s.WellFormed) (c : Choice) {v : Nat}
    (h : Awaits (s.cell v)) : s.model c v = .integer ↔ c.sets = false := by
  obtain ⟨u, hu⟩ := wf.acyclic.exists_resolve? (.var v)
  have value : s.model c v = u.ground c := by rw [model, hu, Option.map_some, Option.getD_some]
  rw [wf.resolve?_var, expand] at hu
  generalize s.cell v = cell at h hu
  cases h with
  | set =>
    simp only [Option.bind_eq_bind, Option.bind_eq_some_iff, Option.pure_def,
      Option.some.injEq] at hu
    obtain ⟨x, hx, rfl⟩ := hu
    rw [value, Ty.ground]
    cases c.sets <;> simp
  | pairs =>
    simp only [Option.bind_eq_bind, Option.bind_eq_some_iff, Option.pure_def,
      Option.some.injEq] at hu
    obtain ⟨x, hx, y, hy, rfl⟩ := hu
    rw [value, Ty.ground]
    cases c.sets <;> simp [Ty.relation]

/-- A type without a concrete resolved form has different values in two models. -/
lemma isConcrete_of_eval_model_eq {k : Nat} {t u : Ty} (ht : t.Scoped k)
    (h : s.resolve? t = some u)
    (e : t.eval (s.model .integers) = t.eval (s.model .others)) : u.isConcrete = true := by
  rw [s.eval_model _ ht h, s.eval_model _ ht h] at e
  exact Ty.isConcrete_of_ground_eq e

end Store

end BMethod
