import BMethod.Proofs.Store.Graph

/-!
# Growing and narrowing a store

All that unification does to a store is to bind unbound variables, one after the other, each to a
type that does not lead back to it, and to add new variables for the ambiguous types that it meets.
`Writes amb C` is one such step with everything it names inside the set `C`, and `Grows amb C` is any
number of them. A tidy store stays tidy, its bound variables keep their types, and nothing outside `C`
changes.

Ambiguous types are around only if `amb` says so. Where they are not, no variables are added: the
store is narrowed (`Narrows`) and stays well formed.
-/

namespace BMethod

open Relation

/-- A type over the first `k` variables and inside a set of them. -/
def Ty.Over (k : Nat) (C : Set Nat) (t : Ty) : Prop := t.Scoped k ∧ ∀ v ∈ t.vars, v ∈ C

namespace Ty

variable {k : Nat} {C D : Set Nat}

@[simp] lemma over_var {v : Nat} : Over k C (.var v) ↔ v < k ∧ v ∈ C := by
  simp [Over, Scoped, vars]

@[simp] lemma over_set {t : Ty} : Over k C (.set t) ↔ Over k C t := by
  simp [Over, Scoped, vars]

@[simp] lemma over_couple {l r : Ty} : Over k C (.couple l r) ↔ Over k C l ∧ Over k C r := by
  simp only [Over, Scoped, vars, List.mem_append]
  grind

@[simp] lemma over_record {fields : List (String × Ty)} :
    Over k C (.record fields) ↔ ∀ f ∈ fields, Over k C f.2 := by
  simp only [Over, Scoped, vars, mem_fieldVars, fieldsScoped_iff]
  refine ⟨fun h f hf => ⟨h.1 f hf, fun v hv => h.2 v ⟨f, hf, hv⟩⟩,
    fun h => ⟨fun f hf => (h f hf).1, ?_⟩⟩
  rintro v ⟨f, hf, hv⟩
  exact (h f hf).2 v hv

lemma Over.subset {t : Ty} (h : Over k C t) (sub : ∀ v ∈ t.vars, v ∈ D) : Over k D t := ⟨h.1, sub⟩

lemma Over.mono {t : Ty} (h : Over k C t) (sub : C ⊆ D) : Over k D t :=
  ⟨h.1, fun v hv => sub (h.2 v hv)⟩

lemma over_univ {t : Ty} (h : t.Scoped k) : Over k Set.univ t := ⟨h, fun _ _ => trivial⟩

end Ty

/-- A type inside a set of the first `k` variables, with ambiguous parts only if they are allowed. -/
def Ty.Inside (amb : Prop) (k : Nat) (C : Set Nat) (t : Ty) : Prop :=
  (∀ v ∈ t.vars, v < k ∧ v ∈ C) ∧ (amb ∨ t.Scoped k)

namespace Ty

variable {amb : Prop} {k k' : Nat} {C D : Set Nat}

lemma inside_false {t : Ty} : Inside False k C t ↔ Over k C t := by
  rw [Inside, Over, false_or]
  exact ⟨fun h => ⟨h.2, fun v hv => (h.1 v hv).2⟩, fun h => ⟨fun v hv => ⟨h.1.lt hv, h.2 v hv⟩, h.1⟩⟩

lemma inside_true {t : Ty} : Inside True k Set.univ t ↔ ∀ v ∈ t.vars, v < k := by
  simp [Inside]

@[simp] lemma inside_var {v : Nat} : Inside amb k C (.var v) ↔ v < k ∧ v ∈ C := by
  simp only [Inside, Scoped, vars, List.mem_singleton, forall_eq]
  tauto

@[simp] lemma inside_set {t : Ty} : Inside amb k C (.set t) ↔ Inside amb k C t := by
  simp [Inside, Scoped, vars]

@[simp] lemma inside_couple {l r : Ty} :
    Inside amb k C (.couple l r) ↔ Inside amb k C l ∧ Inside amb k C r := by
  simp only [Inside, Scoped, vars, List.mem_append]
  grind

@[simp] lemma inside_record {fields : List (String × Ty)} :
    Inside amb k C (.record fields) ↔ ∀ f ∈ fields, Inside amb k C f.2 := by
  simp only [Inside, Scoped, vars, mem_fieldVars, fieldsScoped_iff]
  constructor
  · exact fun h f hf => ⟨fun v hv => h.1 v ⟨f, hf, hv⟩, h.2.imp_right fun h => h f hf⟩
  · refine fun h => ⟨?_, ?_⟩
    · rintro v ⟨f, hf, hv⟩
      exact (h f hf).1 v hv
    · by_cases ha : amb
      · exact .inl ha
      · exact .inr fun f hf => (h f hf).2.resolve_left ha

@[simp] lemma inside_setOrInteger {t : Ty} :
    Inside amb k C (.setOrInteger t) ↔ amb ∧ Inside amb k C t := by
  simp only [Inside, Scoped, vars]
  tauto

@[simp] lemma inside_integerOrPairs {l r : Ty} :
    Inside amb k C (.integerOrPairs l r) ↔ amb ∧ Inside amb k C l ∧ Inside amb k C r := by
  simp only [Inside, Scoped, vars, List.mem_append]
  grind

lemma Inside.mono {t : Ty} (h : Inside amb k C t) (le : k ≤ k') (sub : C ⊆ D) :
    Inside amb k' D t :=
  ⟨fun v hv => ⟨(h.1 v hv).1.trans_le le, sub (h.1 v hv).2⟩, h.2.imp_right fun h => h.mono le⟩

lemma Inside.subset {t : Ty} (h : Inside amb k C t) (sub : ∀ v ∈ t.vars, v ∈ D) :
    Inside amb k D t :=
  ⟨fun v hv => ⟨(h.1 v hv).1, sub v hv⟩, h.2⟩

/-- A scoped type has no ambiguous parts, wherever they are allowed or not. -/
lemma Scoped.inside {t : Ty} (h : t.Scoped k) : Inside amb k Set.univ t :=
  ⟨fun _ hv => ⟨h.lt hv, trivial⟩, .inr h⟩

end Ty

namespace Store

variable {amb : Prop} {s s' : Store} {C D : Set Nat}

/-- What a cell in a closed set holds lies over the set. -/
lemma WellFormed.over (wf : s.WellFormed) (cl : s.Closed C) {v : Nat} (hv : v ∈ C) {t : Ty}
    (ht : t ∈ (s.cell v).contents) : t.Over s.cells.size C :=
  ⟨wf.within v t ht, fun w hw => cl v hv w (Cell.mem_mentions.2 ⟨t, ht, hw⟩)⟩

/-- The head of a type over a closed set lies over it. -/
lemma WellFormed.over_head? (wf : s.WellFormed) (cl : s.Closed C) {t u : Ty}
    (h : s.head? t = some u) (ht : t.Over s.cells.size C) : u.Over s.cells.size C := by
  refine head?_induction (P := fun t => t.Over s.cells.size C) (fun v t hv hc => ?_) h ht
  exact wf.over cl (Ty.over_var.1 hv).2 (by simp [hc, Cell.contents])

/-! ## Tidy stores. -/

/-- Cells mention allocated variables, and no variable leads back to itself. -/
structure Tidy (amb : Prop) (s : Store) : Prop where
  within : ∀ v, ∀ t ∈ (s.cell v).contents, t.Inside amb s.cells.size Set.univ
  acyclic : s.Acyclic

lemma WellFormed.tidy (wf : s.WellFormed) : s.Tidy amb where
  within v t ht := (wf.within v t ht).inside
  acyclic := wf.acyclic

lemma tidy_false : s.Tidy False ↔ s.WellFormed :=
  ⟨fun h => ⟨fun v t ht => (Ty.inside_false.1 (h.within v t ht)).1, h.acyclic⟩, fun h => h.tidy⟩

/-- A closed set that also holds the variables to come, if there may be any. -/
structure Region (amb : Prop) (s : Store) (C : Set Nat) : Prop where
  closed : s.Closed C
  fresh : amb → ∀ v, s.cells.size ≤ v → v ∈ C

lemma region_univ (amb : Prop) (s : Store) : s.Region amb Set.univ :=
  ⟨s.closed_univ, fun _ _ _ => trivial⟩

lemma Closed.region (cl : s.Closed C) : s.Region False C := ⟨cl, nofun⟩

lemma Tidy.edge_lt (tidy : s.Tidy amb) {v w : Nat} (e : s.Edge v w) : w < s.cells.size := by
  obtain ⟨t, ht, hw⟩ := Cell.mem_mentions.1 e
  exact ((tidy.within v t ht).1 w hw).1

lemma Tidy.inside (tidy : s.Tidy amb) (cl : s.Closed C) {v : Nat} (hv : v ∈ C) {t : Ty}
    (ht : t ∈ (s.cell v).contents) : t.Inside amb s.cells.size C :=
  (tidy.within v t ht).subset fun w hw => cl v hv w (Cell.mem_mentions.2 ⟨t, ht, hw⟩)

lemma Tidy.inside_head? (tidy : s.Tidy amb) (cl : s.Closed C) {t u : Ty}
    (h : s.head? t = some u) (ht : t.Inside amb s.cells.size C) :
    u.Inside amb s.cells.size C := by
  refine head?_induction (P := fun t => t.Inside amb s.cells.size C) (fun v t hv hc => ?_) h ht
  exact tidy.inside cl (Ty.inside_var.1 hv).2 (by simp [hc, Cell.contents])

/-- From a variable that is not allocated nothing else is found. -/
lemma eq_of_reaches {v w : Nat} (r : s.Reaches v w) (h : s.cells.size ≤ v) : w = v := by
  obtain rfl | ⟨x, e, -⟩ := r.cases_head
  · rfl
  · have := e.lt_left
    omega

/-- Leaving out what leads to a variable keeps a region. -/
lemma Region.avoid (reg : s.Region amb C) {v : Nat} (hv : v < s.cells.size) :
    s.Region amb (C ∩ {w | ¬ s.Reaches w v}) where
  closed := reg.closed.inter (s.closed_not_reaching v)
  fresh ha w hw := by
    refine ⟨reg.fresh ha w hw, fun r => ?_⟩
    have := eq_of_reaches r hw
    omega

/-! ## Setting a cell. -/

lemma size_assign {v : Nat} (h : v < s.cells.size) (c : Cell) :
    (s.assign v c).cells.size = s.cells.size := by
  simp [assign]
  omega

lemma edge_assign {v x w : Nat} {c : Cell} :
    (s.assign v c).Edge x w ↔ if x = v then w ∈ c.mentions else s.Edge x w := by
  rw [Edge, cell_assign]
  split <;> rfl

section

variable {v : Nat} {c : Cell}

/-- A way that leads to the variable leads to it with its old cell. -/
lemma reaches_of_reaches_assign {w : Nat} (h : (s.assign v c).Reaches w v) : s.Reaches w v := by
  induction h using ReflTransGen.head_induction_on with
  | refl => exact .refl
  | @head x y e _ ih =>
    by_cases hx : x = v
    · rw [hx]
    · rw [edge_assign, if_neg hx] at e
      exact .head e ih

/-- A way either does not need the new cell or passes through it. -/
lemma reaches_assign_cases {w x : Nat} (h : (s.assign v c).Reaches w x) :
    s.Reaches w x ∨ (s.assign v c).Reaches w v ∧
      ∃ u ∈ c.mentions, (s.assign v c).Reaches u x := by
  induction h using ReflTransGen.head_induction_on with
  | refl => exact .inl .refl
  | @head y z e r ih =>
    by_cases hy : y = v
    · subst hy
      have hz : z ∈ c.mentions := by simpa [edge_assign] using e
      exact .inr ⟨.refl, z, hz, r⟩
    · obtain ih | ⟨rv, u, hu, ru⟩ := ih
      · rw [edge_assign, if_neg hy] at e
        exact .inl (.head e ih)
      · exact .inr ⟨.head e rv, u, hu, ru⟩

/-- A cell that does not lead back closes no circle. -/
lemma Acyclic.assign (ac : s.Acyclic) (apart : ∀ w ∈ c.mentions, ¬ s.Reaches w v) :
    (s.assign v c).Acyclic := by
  intro x w e r
  by_cases hx : x = v
  · subst hx
    have hw : w ∈ c.mentions := by simpa [edge_assign] using e
    exact apart w hw (reaches_of_reaches_assign r)
  · obtain r | ⟨rv, u, hu, ru⟩ := reaches_assign_cases r
    · rw [edge_assign, if_neg hx] at e
      exact ac x w e r
    · exact apart u hu (reaches_of_reaches_assign (ru.trans (.head e rv)))

end

/-! ## Adding a cell. -/

lemma size_allocate (s : Store) (c : Cell) :
    (s.allocate c).2.cells.size = s.cells.size + 1 := by
  simp [allocate]

lemma edge_allocate {c : Cell} {x w : Nat} :
    (s.allocate c).2.Edge x w ↔ if x = s.cells.size then w ∈ c.mentions else s.Edge x w := by
  rw [Edge, cell_allocate]
  split <;> rfl

lemma bound_allocate {c : Cell} {v : Nat} {t : Ty} (h : s.cell v = .bound t) :
    (s.allocate c).2.cell v = .bound t := by
  have := lt_size_of_cell_ne (s := s) (v := v) (by simp [h])
  rw [cell_allocate, if_neg (by omega), h]

/-- From an old variable only old variables are found, in the old ways. -/
lemma Tidy.reaches_of_allocate (tidy : s.Tidy amb) {c : Cell} {w x : Nat} (hw : w < s.cells.size)
    (r : (s.allocate c).2.Reaches w x) : s.Reaches w x ∧ x < s.cells.size := by
  induction r with
  | refl => exact ⟨.refl, hw⟩
  | tail _ e ih =>
    rw [edge_allocate, if_neg (by omega)] at e
    exact ⟨ih.1.tail e, tidy.edge_lt e⟩

/-- A store stays tidy with a new variable that mentions old ones. -/
lemma Tidy.allocate (tidy : s.Tidy amb) {c : Cell}
    (hc : ∀ t ∈ c.contents, t.Inside amb s.cells.size C) : (s.allocate c).2.Tidy amb where
  within v t ht := by
    rw [size_allocate]
    rw [cell_allocate] at ht
    split at ht
    · exact (hc t ht).mono (by omega) (Set.subset_univ C)
    · exact (tidy.within v t ht).mono (by omega) subset_rfl
  acyclic v w e r := by
    have hw : w < s.cells.size := by
      rw [edge_allocate] at e
      split at e
      · obtain ⟨t, ht, hw⟩ := Cell.mem_mentions.1 e
        exact ((hc t ht).1 w hw).1
      · exact tidy.edge_lt e
    obtain ⟨r, hv⟩ := tidy.reaches_of_allocate hw r
    rw [edge_allocate, if_neg (by omega)] at e
    exact tidy.acyclic v w e r

/-! ## One write. -/

/-- Binds a variable of `C` to a type inside `C` that does not lead back to it, or adds a variable
with a cell inside `C`. -/
inductive Writes (amb : Prop) (C : Set Nat) (s : Store) : Store → Prop where
  | bind {v t} : v ∈ C → v < s.cells.size → (s.cell v).Unbound → t.Inside amb s.cells.size C →
    (∀ w ∈ t.vars, ¬ s.Reaches w v) → Writes amb C s (s.assign v (.bound t))
  | grow {c} : amb → s.cells.size ∈ C → (∀ t ∈ c.contents, t.Inside amb s.cells.size C) →
    Writes amb C s (s.allocate c).2

namespace Writes

lemma size_le (h : Writes amb C s s') : s.cells.size ≤ s'.cells.size := by
  cases h with
  | bind _ hv => rw [size_assign hv]
  | grow => rw [size_allocate]; omega

lemma cell_eq (h : Writes amb C s s') {w : Nat} (hw : w ∉ C) : s'.cell w = s.cell w := by
  cases h with
  | bind hv =>
    rw [cell_assign, if_neg]
    rintro rfl
    exact hw hv
  | grow _ hk =>
    rw [cell_allocate, if_neg]
    rintro rfl
    exact hw hk

lemma bound (h : Writes amb C s s') {w : Nat} {u : Ty} (hw : s.cell w = .bound u) :
    s'.cell w = .bound u := by
  cases h with
  | bind _ _ hu =>
    rw [cell_assign, if_neg, hw]
    rintro rfl
    exact hu u hw
  | grow => exact bound_allocate hw

lemma tidy (h : Writes amb C s s') (tidy : s.Tidy amb) : s'.Tidy amb := by
  cases h with
  | @bind v t _ hv _ ht apart =>
    refine ⟨fun w u hu => ?_, tidy.acyclic.assign (by simpa using apart)⟩
    rw [size_assign hv]
    rw [cell_assign] at hu
    split at hu
    · obtain rfl : u = t := by simpa [Cell.contents] using hu
      exact ht.mono le_rfl (Set.subset_univ C)
    · exact tidy.within w u hu
  | grow _ _ hc => exact tidy.allocate hc

lemma region (h : Writes amb C s s') (reg : s.Region amb C) : s'.Region amb C := by
  refine ⟨fun x hx w e => ?_, fun ha v hv => reg.fresh ha v (h.size_le.trans hv)⟩
  cases h with
  | bind _ _ _ ht =>
    rw [edge_assign] at e
    split at e
    · exact (ht.1 w (by simpa using e)).2
    · exact reg.closed x hx w e
  | grow _ _ hc =>
    rw [edge_allocate] at e
    split at e
    · obtain ⟨t, ht, hw⟩ := Cell.mem_mentions.1 e
      exact ((hc t ht).1 w hw).2
    · exact reg.closed x hx w e

lemma mono (h : Writes amb C s s') (sub : C ⊆ D) : Writes amb D s s' := by
  cases h with
  | bind hv hlt hu ht apart => exact .bind (sub hv) hlt hu (ht.mono le_rfl sub) apart
  | grow ha hk hc => exact .grow ha (sub hk) fun t ht => (hc t ht).mono le_rfl sub

end Writes

/-! ## Any number of writes. -/

/-- Binds variables of `C` and adds new ones, one after the other. -/
abbrev Grows (amb : Prop) (C : Set Nat) : Store → Store → Prop := ReflTransGen (Writes amb C)

namespace Grows

lemma size_le (g : Grows amb C s s') : s.cells.size ≤ s'.cells.size := by
  induction g with
  | refl => exact le_rfl
  | tail _ h ih => exact ih.trans h.size_le

lemma cell_eq (g : Grows amb C s s') {w : Nat} (hw : w ∉ C) : s'.cell w = s.cell w := by
  induction g with
  | refl => rfl
  | tail _ h ih => exact (h.cell_eq hw).trans ih

lemma bound (g : Grows amb C s s') {w : Nat} {u : Ty} (hw : s.cell w = .bound u) :
    s'.cell w = .bound u := by
  induction g with
  | refl => exact hw
  | tail _ h ih => exact h.bound ih

lemma tidy (g : Grows amb C s s') (tidy : s.Tidy amb) : s'.Tidy amb := by
  induction g with
  | refl => exact tidy
  | tail _ h ih => exact h.tidy ih

lemma region (g : Grows amb C s s') (reg : s.Region amb C) : s'.Region amb C := by
  induction g with
  | refl => exact reg
  | tail _ h ih => exact h.region ih

lemma mono (g : Grows amb C s s') (sub : C ⊆ D) : Grows amb D s s' := by
  induction g with
  | refl => exact .refl
  | tail _ h ih => exact ih.tail (h.mono sub)

end Grows

/-! ## Bindings only. -/

/-- Binds variables of `C` one after the other. -/
abbrev Narrows (C : Set Nat) : Store → Store → Prop := Grows False C

namespace Narrows

lemma size_eq (n : Narrows C s s') : s'.cells.size = s.cells.size := by
  induction n with
  | refl => rfl
  | tail _ h ih =>
    cases h with
    | bind _ hv => exact (size_assign hv _).trans ih
    | grow no => exact no.elim

/-- A variable that is not bound has the cell that it had. -/
lemma cell_of_unbound (n : Narrows C s s') {v : Nat} (h : (s'.cell v).Unbound) :
    s'.cell v = s.cell v := by
  induction n with
  | refl => rfl
  | tail _ w ih =>
    cases w with
    | bind =>
      rw [cell_assign] at h ⊢
      split at h
      · exact absurd rfl (h _)
      · rename_i ne
        rw [if_neg ne]
        exact ih h
    | grow no => exact no.elim

lemma wellFormed (n : Narrows C s s') (wf : s.WellFormed) : s'.WellFormed :=
  tidy_false.1 (Grows.tidy n wf.tidy)

lemma closed (n : Narrows C s s') (cl : s.Closed C) : s'.Closed C :=
  (Grows.region n cl.region).closed

end Narrows

end Store

end BMethod
