import BMethod.Proofs.Store.Model

/-!
# What bindings say

A bound variable keeps its type for as long as the store is used (`Keeps`). So whatever the bindings
of a store say, they say of every store after it. A type that resolves to a concrete type does so by
bindings alone and always resolves to that type (`Keeps.resolve?_eq`).

A valuation respects the bindings if it gives every bound variable the value of its type, whatever it
does to the variables that await a choice. Two types that were unified have one value under every such
valuation (`Run.forces`). One of these valuations gives the variables what they resolve to, which is
why types that the bindings make equal resolve to the same type (`Forces.same`).
-/

namespace BMethod

/-- What is put for the variables of a type that becomes concrete is concrete. -/
lemma Ty.isConcrete_of_bindVars {f : Nat → Option Ty} {t u : Ty} (h : t.bindVars f = some u)
    (hu : u.isConcrete = true) {v : Nat} (hv : v ∈ t.vars) {w : Ty} (hw : f v = some w) :
    w.isConcrete = true := by
  induction t generalizing u with
  | var x =>
    obtain rfl : v = x := by simpa [vars] using hv
    obtain rfl : w = u := Option.some.inj (hw.symm.trans h)
    exact hu
  | set t ih =>
    obtain ⟨x, hx, rfl⟩ := bindVars_set_eq_some.1 h
    exact ih hx hu hv
  | couple l r ihl ihr =>
    obtain ⟨x, hx, y, hy, rfl⟩ := bindVars_couple_eq_some.1 h
    obtain ⟨cx, cy⟩ : x.isConcrete = true ∧ y.isConcrete = true := by simpa [isConcrete] using hu
    rw [vars, List.mem_append] at hv
    exact hv.elim (ihl hx cx) (ihr hy cy)
  | record fields ih =>
    rw [bindVars_record_eq_some] at h
    obtain ⟨gs, hgs, rfl⟩ := h
    simp only [isConcrete, fieldsConcrete_eq_all, List.all_eq_true] at hu
    simp only [vars, mem_fieldVars] at hv
    obtain ⟨x, hx, hv⟩ := hv
    induction hgs with
    | nil => cases hx
    | @cons y z fields gs hyz _ ihf =>
      obtain rfl | hx := List.mem_cons.1 hx
      · exact ih x (by simp) hyz.2 (hu z (by simp)) hv
      · exact ihf (fun y hy => ih y (by simp [hy])) (fun y hy => hu y (by simp [hy])) hx
  | setOrInteger t ih =>
    obtain ⟨x, -, rfl⟩ := bindVars_setOrInteger_eq_some.1 h
    cases hu
  | integerOrPairs l r ihl ihr =>
    obtain ⟨x, -, y, -, rfl⟩ := bindVars_integerOrPairs_eq_some.1 h
    cases hu
  | _ => simp [vars] at hv

namespace Store

variable {s s' : Store}

/-! ## Bindings stay. -/

/-- Bound variables keep their types. -/
def Keeps (s s' : Store) : Prop := ∀ v t, s.cell v = .bound t → s'.cell v = .bound t

lemma Grows.keeps {amb : Prop} {C : Set Nat} (g : Grows amb C s s') : s.Keeps s' :=
  fun _ _ h => g.bound h

lemma keeps_allocate (s : Store) (c : Cell) : s.Keeps (s.allocate c).2 :=
  fun _ _ h => bound_allocate h

/-- A concrete type is found again in a store that keeps the bindings. -/
lemma Keeps.resolveWithin_eq (keep : s.Keeps s') {n : Nat} {t u : Ty}
    (h : s.resolveWithin n t = some u) (hu : u.isConcrete = true) :
    s'.resolveWithin n t = some u := by
  induction n generalizing t u with
  | zero =>
    refine Ty.bindVars_mono (fun v hv w hw => ?_) h
    obtain ⟨x, -, hx⟩ := bound_of_expand hw (Ty.isConcrete_of_bindVars h hu hv hw)
    cases hx
  | succ n ih =>
    refine Ty.bindVars_mono (fun v hv w hw => ?_) h
    have hc := Ty.isConcrete_of_bindVars h hu hv hw
    -- Only a bound variable resolves to a concrete type.
    obtain ⟨x, bound, hx⟩ := bound_of_expand hw hc
    rw [expand, keep v x bound]
    exact ih hx hc

lemma Keeps.resolve?_eq (keep : s.Keeps s') (le : s.cells.size ≤ s'.cells.size) {t u : Ty}
    (h : s.resolve? t = some u) (hu : u.isConcrete = true) : s'.resolve? t = some u :=
  resolveWithin_mono le (keep.resolveWithin_eq h hu)

/-! ## Valuations that respect bindings. -/

/-- The valuation gives every bound variable the value of its type. -/
def Respects (s : Store) (σ : Nat → Ty) : Prop := ∀ v t, s.cell v = .bound t → σ v = t.eval σ

lemma Holds.respects {σ : Nat → Ty} (h : s.Holds σ) : s.Respects σ := by
  intro v t hc
  have := h v
  rwa [hc] at this

lemma Respects.of_keeps {σ : Nat → Ty} (h : s'.Respects σ) (keep : s.Keeps s') : s.Respects σ :=
  fun v t hc => h v t (keep v t hc)

/-- A head has the value of the type. -/
lemma Respects.eval_head? {σ : Nat → Ty} (h : s.Respects σ) {t u : Ty} (e : s.head? t = some u) :
    u.eval σ = t.eval σ := by
  refine head?_induction (P := fun x => x.eval σ = t.eval σ) (fun v x hv hc => ?_) e rfl
  rw [← hv, Ty.eval, h v x hc]

/-- The bindings alone make the two sides of all equations equal. -/
def Forces (s : Store) (es : List (Ty × Ty)) : Prop :=
  ∀ σ, s.Respects σ → ∀ e ∈ es, e.1.eval σ = e.2.eval σ

lemma Forces.of_keeps {es : List (Ty × Ty)} (h : s.Forces es) (keep : s.Keeps s') : s'.Forces es :=
  fun σ resp => h σ (resp.of_keeps keep)

/-- After two types were unified, the bindings make them equal, and the result with them. -/
lemma Run.forces {stage n s l r out s'} (run : Run stage n s l r out s') (wf : s.WellFormed)
    (hl : l.Scoped s.cells.size) (hr : r.Scoped s.cells.size) {t : Ty} (ok : out = .ok t)
    {σ : Nat → Ty} (resp : s'.Respects σ) : l.eval σ = r.eval σ ∧ t.eval σ = l.eval σ := by
  induction run generalizing t with
  | exhausted | entangled | occurs | refuse | bindFails | clash | coupleFails | consFails
  | consRestFails => cases ok
  | enter el ml er mr run ih =>
    have ol := wf.over_head? (closed_univ _) el (Ty.over_univ hl)
    obtain ⟨rfl, rfl⟩ := ml.of_scoped ol.1
    have or := wf.over_head? (closed_univ _) er (Ty.over_univ hr)
    obtain ⟨rfl, rfl⟩ := mr.of_scoped or.1
    have before := resp.of_keeps (run.narrows wf (closed_univ _) ol or).1.keeps
    obtain ⟨e, e'⟩ := ih wf ol.1 or.1 ok resp
    rw [before.eval_head? el] at e e'
    rw [before.eval_head? er] at e
    exact ⟨e, e'⟩
  | self =>
    cases ok
    exact ⟨rfl, rfl⟩
  | @join n s a b x y ne apart j =>
    cases ok
    have e : σ x = σ y := resp x (.var y) (by rw [cell_assign, if_pos rfl])
    obtain ⟨rfl, rfl⟩ | ⟨rfl, rfl⟩ := j.sides
    · exact ⟨e, e.symm⟩
    · exact ⟨e.symm, rfl⟩
  | @joinThen n s a b x y stage p q out s' ne apart j run _ =>
    obtain ⟨u, -, rfl⟩ := map_eq_ok ok
    have bind := j.narrows (C := Set.univ) ne apart ⟨hl, trivial⟩ ⟨hr, trivial⟩
    obtain ⟨hp, hq⟩ := j.over (fun t ht => Ty.over_univ (wf.within a t ht))
      (fun t ht => Ty.over_univ (wf.within b t ht))
    rw [← bind.size_eq] at hp hq
    have keep := (run.narrows (bind.wellFormed wf) (closed_univ _) hp hq).1.keeps
    have e : σ x = σ y := resp x (.var y) (keep x _ (by rw [cell_assign, if_pos rfl]))
    obtain ⟨rfl, rfl⟩ | ⟨rfl, rfl⟩ := j.sides
    · exact ⟨e, e.symm⟩
    · exact ⟨e.symm, rfl⟩
  | flip _ _ ih =>
    obtain ⟨e, e'⟩ := ih wf hr hl ok resp
    exact ⟨e.symm, e'.trans e⟩
  | @bind n s v t | @bindThen n s v t =>
    cases ok
    have e : σ v = t.eval σ := resp v t (by rw [cell_assign, if_pos rfl])
    exact ⟨e, e.symm⟩
  | leaf _ e =>
    cases ok
    exact ⟨e σ, rfl⟩
  | set _ ih =>
    obtain ⟨u, hu, rfl⟩ := map_eq_ok ok
    obtain ⟨e, e'⟩ := ih wf hl hr hu resp
    exact ⟨by rw [Ty.eval, Ty.eval, e], by rw [Ty.eval, Ty.eval, e']⟩
  | couple run run' ih ih' =>
    obtain ⟨u, hu, rfl⟩ := map_eq_ok ok
    have nar := (run.narrows wf (closed_univ _) (Ty.over_univ hl.1) (Ty.over_univ hr.1)).1
    have hl' := nar.size_eq ▸ hl.2
    have hr' := nar.size_eq ▸ hr.2
    have keep := (run'.narrows (nar.wellFormed wf) (closed_univ _) (Ty.over_univ hl')
      (Ty.over_univ hr')).1.keeps
    obtain ⟨e, e'⟩ := ih wf hl.1 hr.1 rfl (resp.of_keeps keep)
    obtain ⟨f, f'⟩ := ih' (nar.wellFormed wf) hl' hr' hu resp
    exact ⟨by rw [Ty.eval, Ty.eval, e, f], by rw [Ty.eval, Ty.eval, e', f']⟩
  | record _ ih => exact ih wf hl hr ok resp
  | nil =>
    cases ok
    exact ⟨rfl, rfl⟩
  | cons run run' ih ih' =>
    cases ok
    have nar := (run.narrows wf (closed_univ _) (Ty.over_univ hl.1) (Ty.over_univ hr.1)).1
    have hl' : (Ty.record _).Scoped _ := nar.size_eq ▸ hl.2
    have hr' : (Ty.record _).Scoped _ := nar.size_eq ▸ hr.2
    have keep := (run'.narrows (nar.wellFormed wf) (closed_univ _) (Ty.over_univ hl')
      (Ty.over_univ hr')).1.keeps
    obtain ⟨e, e'⟩ := ih wf hl.1 hr.1 rfl (resp.of_keeps keep)
    obtain ⟨f, f'⟩ := ih' (nar.wellFormed wf) hl' hr' rfl resp
    simp only [Ty.eval, Ty.record.injEq] at f f'
    refine ⟨?_, ?_⟩
    · rw [Ty.eval, Ty.eval, Ty.evalFields, Ty.evalFields, e, f]
    · rw [Ty.eval, Ty.eval, Ty.evalFields, Ty.evalFields, e', f']

/-! ## The valuation that resolves. -/

/-- The valuation that gives every variable what it resolves to. -/
def resolution (s : Store) (v : Nat) : Ty := ((s.resolve? (.var v)).getD (.var v)).canon

/-- A type has the value of its resolved form. -/
lemma eval_resolution (s : Store) {k : Nat} {t u : Ty} (ht : t.Scoped k)
    (h : s.resolve? t = some u) : t.eval s.resolution = u.canon := by
  refine (Ty.eval_of_bindVars Ty.hom_canon (fun _ _ _ => rfl) Ty.hereditary_true ht
    (fun v _ w hw _ => ?_) (bindVars_of_resolve? h) trivial).symm
  rw [resolution, hw, Option.getD_some]

lemma WellFormed.respects_resolution (wf : s.WellFormed) : s.Respects s.resolution := by
  intro v t hc
  obtain ⟨u, hu⟩ := wf.acyclic.exists_resolve? t
  have whole : s.resolve? (.var v) = some u := by
    rw [wf.resolve?_var, expand, hc]
    exact hu
  rw [s.eval_resolution (wf.within v t (by simp [hc, Cell.contents])) hu, resolution, whole,
    Option.getD_some]

/-- Types that the bindings make equal resolve to the same type. -/
lemma Forces.same {es : List (Ty × Ty)} (h : s.Forces es) (wf : s.WellFormed) {e : Ty × Ty}
    (he : e ∈ es) (hl : e.1.Scoped s.cells.size) (hr : e.2.Scoped s.cells.size) {x y : Ty}
    (hx : s.resolve? e.1 = some x) (hy : s.resolve? e.2 = some y) : Ty.same x y = true := by
  rw [Ty.same_iff_canon, ← s.eval_resolution hl hx, ← s.eval_resolution hr hy]
  exact h _ wf.respects_resolution e he

end Store

end BMethod
