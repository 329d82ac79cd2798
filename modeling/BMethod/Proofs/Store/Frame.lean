import BMethod.Proofs.Store.Under

/-!
# Runs inside a closed set

A run on types over a closed set looks at no cell outside it. So it goes the same way on every store
that has the same cells there (`Run.frame`). In particular, where nothing awaits a choice, what is
unified is unified like terms: given values that the bindings respect and that make the two types
equal, it does not fail (`Run.calm_of_chosen`).

Joined choices have equal elements under all values that the bindings respect in the end (`Run.follows`).
-/

namespace BMethod

lemma Cell.awaits_of_mem_elements {c : Cell} {e : Ty} (h : e ∈ c.elements) : Store.Awaits c := by
  cases c with
  | setOrInteger => exact .set
  | integerOrPairs => exact .pairs
  | _ => cases h

lemma Cell.unbound_of_mem_elements {c : Cell} {e : Ty} (h : e ∈ c.elements) : c.Unbound :=
  (awaits_of_mem_elements h).unbound

namespace Store

open Relation

variable {s s' s₁ : Store} {D : Set Nat} {σ : Nat → Ty}

/-- The second store has the same cells in a set. -/
structure Agrees (D : Set Nat) (s s' : Store) : Prop where
  size : s'.cells.size = s.cells.size
  cell : ∀ v ∈ D, s'.cell v = s.cell v

namespace Agrees

lemma symm (h : Agrees D s s') : Agrees D s' s := ⟨h.size.symm, fun v hv => (h.cell v hv).symm⟩

lemma closed (h : Agrees D s s') (cl : s.Closed D) : s'.Closed D := fun v hv w e => by
  rw [Edge, h.cell v hv] at e
  exact cl v hv w e

lemma reaches_iff (h : Agrees D s s') (cl : s.Closed D) {v w : Nat} (hv : v ∈ D) :
    s'.Reaches v w ↔ s.Reaches v w := by
  have follow {s s' : Store} (h : Agrees D s s') (cl : s.Closed D) (r : s'.Reaches v w) :
      s.Reaches v w ∧ w ∈ D := by
    induction r with
    | refl => exact ⟨.refl, hv⟩
    | tail _ e ih =>
      rw [Edge, h.cell _ ih.2] at e
      exact ⟨ih.1.tail e, cl _ ih.2 _ e⟩
  exact ⟨fun r => (follow h cl r).1, fun r => (follow h.symm (h.closed cl) r).1⟩

lemma entangled_iff (h : Agrees D s s') (cl : s.Closed D) {a b : Nat} (ha : a ∈ D) (hb : b ∈ D) :
    s'.Entangled a b ↔ s.Entangled a b := by
  have behind {v : Nat} (hv : v ∈ D) (z : Nat) :
      (∃ w, s'.Edge v w ∧ s'.Reaches w z) ↔ ∃ w, s.Edge v w ∧ s.Reaches w z := by
    refine exists_congr fun w => ?_
    rw [Edge, h.cell v hv]
    exact and_congr_right fun e => h.reaches_iff cl (cl v hv w e)
  rw [Entangled, Entangled, behind hb, behind ha]

lemma occurs_iff (h : Agrees D s s') (cl : s.Closed D) {t : Ty} (ht : ∀ w ∈ t.vars, w ∈ D) {v : Nat} :
    (∃ w ∈ t.vars, s'.Reaches w v) ↔ ∃ w ∈ t.vars, s.Reaches w v :=
  exists_congr fun w => and_congr_right fun hw => h.reaches_iff cl (ht w hw)

lemma headWithin_eq (h : Agrees D s s') (cl : s.Closed D) (n : Nat) {t : Ty}
    (ht : ∀ v ∈ t.vars, v ∈ D) : s'.headWithin n t = s.headWithin n t := by
  induction n generalizing t with
  | zero =>
    cases t with
    | var v =>
      have hv := ht v (by simp [Ty.vars])
      obtain unbound | ⟨t, hc⟩ := unbound_or_bound (s.cell v)
      · rw [headWithin_of_unbound _ unbound, headWithin_of_unbound]
        rwa [h.cell v hv]
      · rw [headWithin_zero_of_bound hc, headWithin_zero_of_bound ((h.cell v hv).trans hc)]
    | _ => rfl
  | succ n ih =>
    cases t with
    | var v =>
      have hv := ht v (by simp [Ty.vars])
      obtain unbound | ⟨t, hc⟩ := unbound_or_bound (s.cell v)
      · rw [headWithin_of_unbound _ unbound, headWithin_of_unbound]
        rwa [h.cell v hv]
      · rw [headWithin_succ_of_bound n hc, headWithin_succ_of_bound n ((h.cell v hv).trans hc)]
        exact ih fun w hw => cl v hv w (by simpa [Edge, hc] using hw)
    | _ => rfl

lemma head?_eq (h : Agrees D s s') (cl : s.Closed D) {t : Ty} (ht : ∀ v ∈ t.vars, v ∈ D) :
    s'.head? t = s.head? t := by
  rw [head?, head?, h.size]
  exact h.headWithin_eq cl _ ht

lemma assign (h : Agrees D s s') {x : Nat} (hx : x < s.cells.size) (c : Cell) :
    Agrees D (s.assign x c) (s'.assign x c) where
  size := by
    rw [size_assign hx, size_assign (by rwa [h.size]), h.size]
  cell v hv := by
    rw [cell_assign, cell_assign, h.cell v hv]

lemma joins (h : Agrees D s s') {a b x y : Nat} {d} (ha : a ∈ D) (hb : b ∈ D)
    (j : Joins s a b x y d) : Joins s' a b x y d := by
  have ea := h.cell a ha
  have eb := h.cell b hb
  cases j with
  | into ca cb => exact .into (ea.trans ca) (eb ▸ cb)
  | «from» ca cb => exact .from (ea ▸ ca) (eb.trans cb)
  | sets ca cb => exact .sets (ea.trans ca) (eb.trans cb)
  | setPairs ca cb => exact .setPairs (ea.trans ca) (eb.trans cb)
  | pairsSet ca cb => exact .pairsSet (ea.trans ca) (eb.trans cb)
  | pairs ca cb => exact .pairs (ea.trans ca) (eb.trans cb)

end Agrees

/-- A run on types over a closed set goes the same way where the cells in the set are the same. -/
theorem Run.frame {stage n s l r out s₁} (run : Run stage n s l r out s₁) (wf : s.WellFormed)
    (cl : s.Closed D) (hl : l.Over s.cells.size D) (hr : r.Over s.cells.size D) {s' : Store}
    (same : Agrees D s s') : ∃ s₁', Run stage n s' l r out s₁' ∧ Agrees D s₁ s₁' := by
  induction run generalizing s' with
  | exhausted => exact ⟨s', .exhausted, same⟩
  | enter el ml er mr _ ih =>
    have ⟨dl, dl'⟩ := ml.definite
    have ⟨dr, dr'⟩ := mr.definite
    have ol := wf.over_head? cl el hl
    obtain ⟨rfl, rfl⟩ := ml.of_scoped ol.1
    have or := wf.over_head? cl er hr
    obtain ⟨rfl, rfl⟩ := mr.of_scoped or.1
    obtain ⟨s₁', run, after⟩ := ih wf cl ol or same
    refine ⟨s₁', .enter ?_ (.same dl dl') ?_ (.same dr dr') run, after⟩
    · rw [same.head?_eq cl hl.2, el]
    · rw [same.head?_eq cl hr.2, er]
  | self => exact ⟨s', .self, same⟩
  | entangled ne ua ub tied =>
    have ha := (Ty.over_var.1 hl).2
    have hb := (Ty.over_var.1 hr).2
    refine ⟨s', .entangled ne ?_ ?_ ((same.entangled_iff cl ha hb).2 tied), same⟩
    · rwa [same.cell _ ha]
    · rwa [same.cell _ hb]
  | @join n s a b x y ne apart j =>
    have ha := Ty.over_var.1 hl
    have hb := Ty.over_var.1 hr
    have hx : x < s.cells.size := by obtain ⟨rfl, -⟩ | ⟨rfl, -⟩ := j.sides <;> first | exact ha.1 | exact hb.1
    exact ⟨_, .join ne (mt (same.entangled_iff cl ha.2 hb.2).1 apart) (same.joins ha.2 hb.2 j),
      same.assign hx _⟩
  | @joinThen n s a b x y stage p q out s₁ ne apart j _ ih =>
    have ha := Ty.over_var.1 hl
    have hb := Ty.over_var.1 hr
    have bind := j.narrows ne apart ha hb
    have hx : x < s.cells.size := by obtain ⟨rfl, -⟩ | ⟨rfl, -⟩ := j.sides <;> first | exact ha.1 | exact hb.1
    obtain ⟨hp, hq⟩ := j.over (fun t ht => wf.over cl ha.2 ht) (fun t ht => wf.over cl hb.2 ht)
    rw [← bind.size_eq] at hp hq
    obtain ⟨s₁', run, after⟩ := ih (bind.wellFormed wf) (bind.closed cl) hp hq (same.assign hx _)
    exact ⟨s₁', .joinThen ne (mt (same.entangled_iff cl ha.2 hb.2).1 apart)
      (same.joins ha.2 hb.2 j) run, after⟩
  | flip nonvar _ ih =>
    obtain ⟨s₁', run, after⟩ := ih wf cl hr hl same
    exact ⟨s₁', .flip nonvar run, after⟩
  | occurs nonvar found =>
    exact ⟨s', .occurs nonvar ((same.occurs_iff cl hr.2).2 found), same⟩
  | refuse wait ni ns nonvar =>
    refine ⟨s', .refuse ?_ ni ns nonvar, same⟩
    rwa [same.cell _ (Ty.over_var.1 hl).2]
  | bind nonvar apart ask =>
    have hv := Ty.over_var.1 hl
    refine ⟨_, .bind nonvar (mt (same.occurs_iff cl hr.2).1 apart) ?_, same.assign hv.1 _⟩
    rwa [same.cell _ hv.2]
  | @bindThen n s v t p q u s₁ nonvar apart ask run ih =>
    have hv := Ty.over_var.1 hl
    obtain ⟨hp, hq⟩ := ask.over (fun t ht => wf.over cl hv.2 ht) hr
    obtain ⟨s₁', run', after⟩ := ih wf cl hp hq same
    have size := (run.narrows wf cl hp hq).1.size_eq
    refine ⟨_, .bindThen nonvar (mt (same.occurs_iff cl hr.2).1 apart) ?_ run',
      after.assign (by rw [size]; exact hv.1) _⟩
    rwa [same.cell _ hv.2]
  | bindFails nonvar apart ask _ ih =>
    have hv := Ty.over_var.1 hl
    obtain ⟨hp, hq⟩ := ask.over (fun t ht => wf.over cl hv.2 ht) hr
    obtain ⟨s₁', run', after⟩ := ih wf cl hp hq same
    refine ⟨_, .bindFails nonvar (mt (same.occurs_iff cl hr.2).1 apart) ?_ run', after⟩
    rwa [same.cell _ hv.2]
  | leaf atom eq => exact ⟨s', .leaf atom eq, same⟩
  | clash differ => exact ⟨s', .clash differ, same⟩
  | set _ ih =>
    obtain ⟨s₁', run, after⟩ := ih wf cl (Ty.over_set.1 hl) (Ty.over_set.1 hr) same
    exact ⟨s₁', .set run, after⟩
  | couple run run₁ ih ih₁ =>
    rw [Ty.over_couple] at hl hr
    obtain ⟨s₁', run', after⟩ := ih wf cl hl.1 hr.1 same
    have nar := (run.narrows wf cl hl.1 hr.1).1
    rw [← nar.size_eq] at hl hr
    obtain ⟨s₂', run₁', after⟩ := ih₁ (nar.wellFormed wf) (nar.closed cl) hl.2 hr.2 after
    exact ⟨s₂', .couple run' run₁', after⟩
  | coupleFails _ ih =>
    rw [Ty.over_couple] at hl hr
    obtain ⟨s₁', run', after⟩ := ih wf cl hl.1 hr.1 same
    exact ⟨s₁', .coupleFails run', after⟩
  | record _ ih =>
    obtain ⟨s₁', run', after⟩ := ih wf cl hl hr same
    exact ⟨s₁', .record run', after⟩
  | nil => exact ⟨s', .nil, same⟩
  | cons run run₁ ih ih₁ =>
    rw [Ty.over_record, List.forall_mem_cons, ← Ty.over_record] at hl hr
    obtain ⟨s₁', run', after⟩ := ih wf cl hl.1 hr.1 same
    have nar := (run.narrows wf cl hl.1 hr.1).1
    rw [← nar.size_eq] at hl hr
    obtain ⟨s₂', run₁', after⟩ := ih₁ (nar.wellFormed wf) (nar.closed cl) hl.2 hr.2 after
    exact ⟨s₂', .cons run' run₁', after⟩
  | consFails _ ih =>
    rw [Ty.over_record, List.forall_mem_cons] at hl hr
    obtain ⟨s₁', run', after⟩ := ih wf cl hl.1 hr.1 same
    exact ⟨s₁', .consFails run', after⟩
  | consRestFails run run₁ ih ih₁ =>
    rw [Ty.over_record, List.forall_mem_cons, ← Ty.over_record] at hl hr
    obtain ⟨s₁', run', after⟩ := ih wf cl hl.1 hr.1 same
    have nar := (run.narrows wf cl hl.1 hr.1).1
    rw [← nar.size_eq] at hl hr
    obtain ⟨s₂', run₁', after⟩ := ih₁ (nar.wellFormed wf) (nar.closed cl) hl.2 hr.2 after
    exact ⟨s₂', .consRestFails run' run₁', after⟩

/-! ## Where nothing awaits a choice. -/

/-- The valuation respects the bindings of a set of variables. -/
def RespectsOn (s : Store) (D : Set Nat) (σ : Nat → Ty) : Prop :=
  ∀ v ∈ D, ∀ t, s.cell v = .bound t → σ v = t.eval σ

/-- In a closed set where nothing awaits a choice, types with one value are unified without failure. -/
theorem Run.calm_of_chosen {stage n s l r out s₁} (run : Run stage n s l r out s₁)
    (wf : s.WellFormed) (cl : s.Closed D) (chosen : ∀ v ∈ D, ¬ Awaits (s.cell v))
    (resp : s.RespectsOn D σ) (hl : l.Over s.cells.size D) (hr : r.Over s.cells.size D)
    (eq : l.eval σ = r.eval σ) :
    (∀ e, out ≠ .error (.error e)) ∧ ∀ t, out = .ok t → s₁.RespectsOn D σ := by
  -- The part of the store inside the set fits a guess without idle variables.
  have pins (v : Nat) (hv : v ∈ D) : (s.cell v).pins? (σ v) = none ∧ s.cell v = .free ∨
      ∃ t, (s.cell v).pins? (σ v) = some t ∧ s.cell v = .bound t := by
    have no := chosen v hv
    cases hc : s.cell v with
    | free => exact .inl ⟨rfl, rfl⟩
    | bound t => exact .inr ⟨t, rfl, rfl⟩
    | setOrInteger e => exact absurd .set (hc ▸ no)
    | integerOrPairs l r => exact absurd .pairs (hc ▸ no)
  have same : Agrees D s (s.under ⟨σ, Dᶜ⟩) := by
    refine ⟨size_under .., fun v hv => ?_⟩
    rw [cell_under, if_neg (fun h => h hv)]
    obtain ⟨e, hc⟩ | ⟨t, e, hc⟩ := pins v hv
    · rw [e, hc]
      rfl
    · rw [e, hc]
      rfl
  have bound (v : Nat) : (s.under ⟨σ, Dᶜ⟩).cell v = .free ∨
      ∃ t, (s.under ⟨σ, Dᶜ⟩).cell v = .bound t ∧ σ v = t.eval σ := by
    by_cases hv : v ∈ D
    · rw [same.cell v hv]
      obtain ⟨-, hc⟩ | ⟨t, -, hc⟩ := pins v hv
      · exact .inl hc
      · exact .inr ⟨t, hc, resp v hv t hc⟩
    · refine .inl ?_
      rw [cell_under]
      exact if_pos hv
  have fits : (s.under ⟨σ, Dᶜ⟩).Fits ⟨σ, ∅⟩ := by
    refine ⟨fun v hv => absurd hv (by simp), fun v _ => ?_⟩
    obtain free | ⟨t, hc, value⟩ := bound v
    · rw [free]
      trivial
    · rw [hc]
      exact ⟨value, by simp⟩
  obtain ⟨s₁', run', after⟩ := run.frame wf cl hl hr same
  rw [← size_under s ⟨σ, Dᶜ⟩] at hl hr
  obtain ⟨ok, error⟩ := run'.complete (u := l.eval σ) (wf.under _) fits
    ⟨⟨hl.1, by simp⟩, rfl⟩ ⟨⟨hr.1, by simp⟩, eq.symm⟩
  refine ⟨fun e h => (error e h).2 fun v wait => ?_, fun t h v hv u hc => ?_⟩
  · obtain free | ⟨t, hc, -⟩ := bound v
    · rw [free] at wait
      cases wait
    · rw [hc] at wait
      cases wait
  · have cell := (ok t h).1.cells v (by simp)
    rw [after.cell v hv, hc] at cell
    exact cell.1

/-! ## Elements of choices. -/

/-- The elements of one choice have one value with those of another. -/
def Follows (σ : Nat → Ty) (s s₁ : Store) : Prop := ∀ v, ∀ e ∈ (s.cell v).elements,
  ∀ w, s₁.head? (.var v) = some (.var w) →
    ∃ e' ∈ (s₁.cell w).elements, e'.eval σ = e.eval σ

namespace Follows

lemma refl (σ : Nat → Ty) (s : Store) : Follows σ s s := by
  intro v e he w hw
  rw [head?_of_unbound (Cell.unbound_of_mem_elements he)] at hw
  cases hw
  exact ⟨e, he, rfl⟩

lemma trans {s₂ : Store} (h : Follows σ s s₁) (h' : Follows σ s₁ s₂) (wf : s₁.WellFormed)
    (wf' : s₂.WellFormed) (keep : s₁.Keeps s₂) : Follows σ s s₂ := by
  intro v e he w hw
  obtain ⟨u, hu⟩ := wf.acyclic.exists_head? (.var v)
  rw [wf'.acyclic.head?_head? keep hu] at hw
  by_cases hx : ∃ x, u = .var x
  · obtain ⟨x, rfl⟩ := hx
    obtain ⟨e', he', eq⟩ := h v e he x hu
    obtain ⟨e'', he'', eq'⟩ := h' x e' he' w hw
    exact ⟨e'', he'', eq'.trans eq⟩
  · rw [head?_of_nonvar _ fun x e => hx ⟨x, e⟩] at hw
    cases hw
    exact absurd ⟨w, rfl⟩ hx

/-- A binding of an unbound variable keeps the elements of all choices, if it keeps those of its own. -/
lemma assign {x : Nat} {t : Ty} (wf₁ : (s.assign x (.bound t)).WellFormed)
    (h : ∀ e ∈ (s.cell x).elements, ∀ w, (s.assign x (.bound t)).head? t = some (.var w) →
      ∃ e' ∈ ((s.assign x (.bound t)).cell w).elements, e'.eval σ = e.eval σ) :
    Follows σ s (s.assign x (.bound t)) := by
  intro v e he w hw
  by_cases eq : v = x
  · subst eq
    rw [wf₁.acyclic.head?_of_bound (cell_assign_self ..)] at hw
    exact h e he w hw
  · have cell := cell_assign_of_ne (s := s) eq (c := .bound t)
    rw [head?_of_unbound (by rw [cell]; exact Cell.unbound_of_mem_elements he)] at hw
    cases hw
    exact ⟨e, by rwa [cell], rfl⟩

end Follows

/-- Joined choices have elements of one value if the equation of their cells holds. -/
lemma Joins.follows {a b x y : Nat} {d : Option (Stage × Ty × Ty)} (j : Joins s a b x y d)
    (ne : a ≠ b) (wf₁ : (s.assign x (.bound (.var y))).WellFormed)
    (eq : ∀ e ∈ d, e.2.1.eval σ = e.2.2.eval σ) : Follows σ s (s.assign x (.bound (.var y))) := by
  refine Follows.assign wf₁ fun e he w hw => ?_
  have cell := cell_assign_of_ne (s := s) (j.ne ne) (c := .bound (.var y))
  rw [head?_of_unbound (by rw [cell]; exact j.unbound.2)] at hw
  cases hw
  rw [cell]
  cases j with
  | into ha =>
    rw [ha] at he
    cases he
  | «from» _ hb =>
    rw [hb] at he
    cases he
  | sets ha hb | setPairs ha hb | pairs ha hb =>
    rw [ha] at he
    obtain rfl := List.mem_singleton.1 he
    exact ⟨_, by simp [hb, Cell.elements], (eq _ rfl).symm⟩
  | pairsSet ha hb =>
    rw [hb] at he
    obtain rfl := List.mem_singleton.1 he
    exact ⟨_, by simp [ha, Cell.elements], (eq _ rfl).symm⟩

/-- Choices that a run joins have elements of one value under what the bindings respect after it. -/
theorem Run.follows {stage n s l r out s₁} (run : Run stage n s l r out s₁) (wf : s.WellFormed)
    (hl : l.Scoped s.cells.size) (hr : r.Scoped s.cells.size) {t : Ty} (ok : out = .ok t)
    (resp : s₁.Respects σ) : Follows σ s s₁ := by
  induction run generalizing t with
  | exhausted | entangled | occurs | refuse | bindFails | clash | coupleFails | consFails
  | consRestFails => cases ok
  | enter el ml er mr _ ih =>
    have ol := wf.over_head? (closed_univ _) el (Ty.over_univ hl)
    obtain ⟨rfl, rfl⟩ := ml.of_scoped ol.1
    have or := wf.over_head? (closed_univ _) er (Ty.over_univ hr)
    obtain ⟨rfl, rfl⟩ := mr.of_scoped or.1
    exact ih wf ol.1 or.1 ok resp
  | self | leaf | nil => exact .refl σ _
  | @join n s a b x y ne apart j =>
    have bind := j.narrows (C := Set.univ) ne apart ⟨hl, trivial⟩ ⟨hr, trivial⟩
    exact j.follows ne (bind.wellFormed wf) nofun
  | @joinThen n s a b x y stage p q out s' ne apart j run ih =>
    obtain ⟨u, rfl, -⟩ := map_eq_ok ok
    have bind := j.narrows (C := Set.univ) ne apart ⟨hl, trivial⟩ ⟨hr, trivial⟩
    obtain ⟨hp, hq⟩ := j.over (fun t ht => Ty.over_univ (wf.within a t ht))
      (fun t ht => Ty.over_univ (wf.within b t ht))
    rw [← bind.size_eq] at hp hq
    have wf' := bind.wellFormed wf
    have nar := (run.narrows wf' (closed_univ _) hp hq).1
    have forced := (run.forces wf' hp.1 hq.1 rfl resp).1
    refine (j.follows ne wf' fun e he => ?_).trans (ih wf' hp.1 hq.1 rfl resp) wf'
      (nar.wellFormed wf') nar.keeps
    cases he
    exact forced
  | flip _ _ ih => exact ih wf hr hl ok resp
  | @bind n s v t nonvar apart ask =>
    have nar := ((Run.bind nonvar apart ask : Run .heads n s _ _ _ _).narrows wf (closed_univ _)
      (Ty.over_univ hl) (Ty.over_univ hr)).1
    refine Follows.assign (nar.wellFormed wf) fun e _ w hw => ?_
    rw [head?_of_nonvar _ nonvar] at hw
    cases hw
    exact absurd rfl (nonvar w)
  | @bindThen n s v t p q u s' nonvar apart ask run ih =>
    cases ok
    have whole := Run.bindThen nonvar apart ask run
    have nar := (whole.narrows wf (closed_univ _) (Ty.over_univ hl) (Ty.over_univ hr)).1
    have ⟨hp, hq⟩ := ask.over (C := Set.univ) (fun t ht => Ty.over_univ (wf.within v t ht))
      (Ty.over_univ hr)
    have nar' := (run.narrows wf (closed_univ _) hp hq).1
    have keep : s'.Keeps (s'.assign v (.bound t)) := fun w u hu => by
      rw [cell_assign_of_ne, hu]
      rintro rfl
      rw [ask.cell_eq run wf hr apart] at hu
      exact ask.unbound u hu
    refine (ih wf hp.1 hq.1 rfl (resp.of_keeps keep)).trans
      (Follows.assign (nar.wellFormed wf) fun e _ w hw => ?_) (nar'.wellFormed wf)
      (nar.wellFormed wf) keep
    rw [head?_of_nonvar _ nonvar] at hw
    cases hw
    exact absurd rfl (nonvar w)
  | set _ ih =>
    obtain ⟨u, hu, rfl⟩ := map_eq_ok ok
    exact ih wf hl hr hu resp
  | couple run run' ih ih' =>
    obtain ⟨u, hu, rfl⟩ := map_eq_ok ok
    have nar := (run.narrows wf (closed_univ _) (Ty.over_univ hl.1) (Ty.over_univ hr.1)).1
    have wf' := nar.wellFormed wf
    have hl' := nar.size_eq ▸ hl.2
    have hr' := nar.size_eq ▸ hr.2
    have nar' := (run'.narrows wf' (closed_univ _) (Ty.over_univ hl') (Ty.over_univ hr')).1
    exact (ih wf hl.1 hr.1 rfl (resp.of_keeps nar'.keeps)).trans (ih' wf' hl' hr' hu resp) wf'
      (nar'.wellFormed wf') nar'.keeps
  | record _ ih => exact ih wf hl hr ok resp
  | cons run run' ih ih' =>
    have nar := (run.narrows wf (closed_univ _) (Ty.over_univ hl.1) (Ty.over_univ hr.1)).1
    have wf' := nar.wellFormed wf
    have hl' : (Ty.record _).Scoped _ := nar.size_eq ▸ hl.2
    have hr' : (Ty.record _).Scoped _ := nar.size_eq ▸ hr.2
    have nar' := (run'.narrows wf' (closed_univ _) (Ty.over_univ hl') (Ty.over_univ hr')).1
    exact (ih wf hl.1 hr.1 rfl (resp.of_keeps nar'.keeps)).trans (ih' wf' hl' hr' rfl resp) wf'
      (nar'.wellFormed wf') nar'.keeps

end Store

end BMethod
