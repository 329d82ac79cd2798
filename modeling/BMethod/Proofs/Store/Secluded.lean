import BMethod.Proofs.Store.Bindings
import BMethod.Proofs.Store.Solutions

/-!
# Why unification has failed

The element types of undecided choices between integers and sets are secluded as long as nothing but
their choices refers to them: they are variables of which nothing is known, each the element of one
choice (`Secluded`). Two such choices can always be joined, and each of them can be decided either way.
So if unification fails, it fails on what the two types say of themselves, and they are still different
when everything that was bound on the way is put in (`Run.secluded`).

With choices between integers and pairs this is not so: joining two of them unifies types that are not
secluded, and the two variables are one by the time this fails.
-/

namespace BMethod.Store

open Relation

variable {s s' : Store}

/-! ## What resolved types say. -/

/-- A variable that awaits a choice resolves to the ambiguous type. -/
lemma WellFormed.resolution_of_setOrInteger (wf : s.WellFormed) {v : Nat} {e : Ty}
    (h : s.cell v = .setOrInteger e) : s.resolution v = .setOrInteger (e.eval s.resolution) := by
  obtain ⟨u, hu⟩ := wf.acyclic.exists_resolve? e
  have whole : s.resolve? (.var v) = some (.setOrInteger u) := by
    rw [wf.resolve?_var, expand, h]
    simp [hu]
  rw [s.eval_resolution (wf.within v e (by simp [h, Cell.contents])) hu, resolution, whole]
  rfl

lemma WellFormed.resolution_of_integerOrPairs (wf : s.WellFormed) {v : Nat} {l r : Ty}
    (h : s.cell v = .integerOrPairs l r) :
    s.resolution v = .integerOrPairs (l.eval s.resolution) (r.eval s.resolution) := by
  obtain ⟨t, ht⟩ := wf.acyclic.exists_resolve? l
  obtain ⟨u, hu⟩ := wf.acyclic.exists_resolve? r
  have whole : s.resolve? (.var v) = some (.integerOrPairs t u) := by
    rw [wf.resolve?_var, expand, h]
    simp [ht, hu]
  rw [s.eval_resolution (wf.within v l (by simp [h, Cell.contents])) ht,
    s.eval_resolution (wf.within v r (by simp [h, Cell.contents])) hu, resolution, whole]
  rfl

/-- What a variable resolves to contains what those it mentions resolve to, as a proper part if the
variable is not bound. -/
lemma WellFormed.size_resolution_le (wf : s.WellFormed) {v w : Nat} (e : s.Edge v w) :
    (s.resolution w).size ≤ (s.resolution v).size ∧
      ((s.cell v).Unbound → (s.resolution w).size < (s.resolution v).size) := by
  obtain ⟨t, ht, hw⟩ := Cell.mem_mentions.1 e
  have part := Ty.size_le_size_eval s.resolution hw
  cases hc : s.cell v with
  | free =>
    rw [hc] at ht
    cases ht
  | bound u =>
    obtain rfl : t = u := by simpa [hc, Cell.contents] using ht
    rw [wf.respects_resolution v t hc]
    exact ⟨part, fun unbound => absurd rfl (unbound t)⟩
  | setOrInteger u =>
    obtain rfl : t = u := by simpa [hc, Cell.contents] using ht
    rw [wf.resolution_of_setOrInteger hc, Ty.size]
    exact ⟨by omega, fun _ => by omega⟩
  | integerOrPairs l r =>
    have sides : t = l ∨ t = r := by simpa [hc, Cell.contents] using ht
    rw [wf.resolution_of_integerOrPairs hc, Ty.size]
    obtain rfl | rfl := sides
    · exact ⟨by omega, fun _ => by omega⟩
    · exact ⟨by omega, fun _ => by omega⟩

lemma WellFormed.size_resolution_le_of_reaches (wf : s.WellFormed) {v w : Nat} (r : s.Reaches v w) :
    (s.resolution w).size ≤ (s.resolution v).size := by
  induction r with
  | refl => exact le_rfl
  | tail _ e ih => exact (wf.size_resolution_le e).1.trans ih

/-- Entangled variables resolve to different types. -/
lemma WellFormed.resolution_ne_of_entangled (wf : s.WellFormed) {a b : Nat} (ua : (s.cell a).Unbound)
    (ub : (s.cell b).Unbound) (h : s.Entangled a b) : s.resolution a ≠ s.resolution b := by
  intro same
  obtain ⟨w, e, r⟩ | ⟨w, e, r⟩ := h
  · have lt := (wf.size_resolution_le e).2 ub
    have le := wf.size_resolution_le_of_reaches r
    rw [same] at le
    omega
  · have lt := (wf.size_resolution_le e).2 ua
    have le := wf.size_resolution_le_of_reaches r
    rw [same] at lt
    omega

/-- A variable does not resolve to the type that it occurs in. -/
lemma WellFormed.resolution_ne_of_occurs (wf : s.WellFormed) {v : Nat} {t : Ty}
    (nonvar : ∀ w, t ≠ .var w) (h : ∃ w ∈ t.vars, s.Reaches w v) :
    s.resolution v ≠ t.eval s.resolution := by
  obtain ⟨w, hw, r⟩ := h
  intro same
  have lt := Ty.size_lt_size_eval s.resolution hw nonvar
  have le := wf.size_resolution_le_of_reaches r
  rw [same] at le
  omega

/-- A variable that awaits a choice does not resolve to a type that is no choice. -/
lemma WellFormed.resolution_ne_of_awaits (wf : s.WellFormed) {v k : Nat} {t : Ty}
    (wait : Awaits (s.cell v)) (nonvar : ∀ w, t ≠ .var w) (scope : t.Scoped k) :
    s.resolution v ≠ t.eval s.resolution := by
  have choice : (∃ e, s.resolution v = .setOrInteger e) ∨ ∃ l r, s.resolution v = .integerOrPairs l r := by
    cases hc : s.cell v with
    | free | bound =>
      rw [hc] at wait
      cases wait
    | setOrInteger e => exact .inl ⟨_, wf.resolution_of_setOrInteger hc⟩
    | integerOrPairs l r => exact .inr ⟨_, _, wf.resolution_of_integerOrPairs hc⟩
  obtain ⟨e, he⟩ | ⟨l, r, he⟩ := choice <;> rw [he] <;> cases t with
  | var w => exact absurd rfl (nonvar w)
  | setOrInteger | integerOrPairs => exact scope.elim
  | _ => simp [Ty.eval]

/-! ## Secluded elements. -/

/-- The variables of the set are the elements of undecided choices or stand for such. Each belongs to one
choice, and nothing else refers to it. -/
structure Secluded (s : Store) (I : Set Nat) : Prop where
  plain : s.Plain ⟨.var, I⟩
  closed : s.Closed I
  elem : ∀ v w, s.cell v = .setOrInteger (.var w) → w ∈ I
  apart : ∀ v ∉ I, ∀ t, s.cell v = .bound t → ∀ w ∈ t.vars, w ∉ I
  single : ∀ v v' w w' x, s.cell v = .setOrInteger (.var w) → s.cell v' = .setOrInteger (.var w') →
    s.Reaches w x → s.Reaches w' x → v = v'

/-- Where cells are as they were, what is found is as it was. -/
lemma Closed.reaches_of_cell_eq {C : Set Nat} (cl : s.Closed C)
    (same : ∀ v ∈ C, s'.cell v = s.cell v) {v w : Nat} (hv : v ∈ C) (r : s'.Reaches v w) :
    s.Reaches v w := by
  have found : s.Reaches v w ∧ w ∈ C := by
    induction r with
    | refl => exact ⟨.refl, hv⟩
    | tail _ e ih =>
      rw [Edge, same _ ih.2] at e
      exact ⟨ih.1.tail e, cl _ ih.2 _ e⟩
  exact found.1

namespace Secluded

variable {I : Set Nat}

/-- A variable that awaits a choice is not secluded, and its element is. -/
lemma of_awaits (sec : s.Secluded I) {v : Nat} (wait : Awaits (s.cell v)) :
    v ∉ I ∧ ∃ w ∈ I, s.cell v = .setOrInteger (.var w) := by
  refine ⟨fun hv => ?_, ?_⟩
  · obtain free | ⟨w, bound⟩ := sec.plain.idle v hv
    · rw [free] at wait
      cases wait
    · rw [bound] at wait
      cases wait
  · cases hc : s.cell v with
    | free | bound =>
      rw [hc] at wait
      cases wait
    | setOrInteger e =>
      obtain ⟨w, rfl⟩ := sec.plain.elem v e hc
      exact ⟨w, sec.elem v w hc, rfl⟩
    | integerOrPairs l r => exact absurd hc (sec.plain.noPairs v l r)

/-- From outside, a secluded variable is found through its choice alone. -/
lemma exists_choice (sec : s.Secluded I) {y x : Nat} (hy : y ∉ I) (hx : x ∈ I) (r : s.Reaches y x) :
    ∃ v w, s.cell v = .setOrInteger (.var w) ∧ s.Reaches y v ∧ s.Reaches w x := by
  induction r using ReflTransGen.head_induction_on with
  | refl => exact absurd hx hy
  | @head y z e r ih =>
    cases hc : s.cell y with
    | free => simp [Edge, hc, Cell.mentions, Cell.contents] at e
    | bound t =>
      obtain ⟨v, w, hv, rv, rw⟩ := ih (sec.apart y hy t hc z (by simpa [Edge, hc] using e))
      exact ⟨v, w, hv, .head e rv, rw⟩
    | setOrInteger t =>
      obtain ⟨w, rfl⟩ := sec.plain.elem y t hc
      obtain rfl : z = w := by simpa [Edge, hc, Cell.mentions, Cell.contents, Ty.vars] using e
      exact ⟨y, z, hc, .refl, r⟩
    | integerOrPairs l r => exact absurd hc (sec.plain.noPairs y l r)

/-- The head of a type without secluded variables has none. -/
lemma over_head? (sec : s.Secluded I) (wf : s.WellFormed) {t u : Ty} (h : s.head? t = some u)
    (ht : t.Over s.cells.size Iᶜ) : u.Over s.cells.size Iᶜ := by
  refine head?_induction (P := fun t => t.Over s.cells.size Iᶜ) (fun v t hv hc => ?_) h ht
  exact ⟨wf.within v t (by simp [hc, Cell.contents]), sec.apart v (Ty.over_var.1 hv).2 t hc⟩

/-! ## Bindings. -/

/-- Binding a variable that is not secluded to a type without secluded variables. -/
lemma assign (sec : s.Secluded I) {x : Nat} {t : Ty} (hx : x ∉ I) (ht : ∀ w ∈ t.vars, w ∉ I) :
    (s.assign x (.bound t)).Secluded I := by
  have same : ∀ v ∈ I, (s.assign x (.bound t)).cell v = s.cell v := fun v hv => by
    rw [cell_assign, if_neg]
    rintro rfl
    exact hx hv
  have old {v w : Nat} (h : (s.assign x (.bound t)).cell v = .setOrInteger (.var w)) :
      s.cell v = .setOrInteger (.var w) := by
    rw [cell_assign] at h
    split at h
    · cases h
    · exact h
  refine ⟨sec.plain.assign fun h => absurd h hx, fun v hv w e => ?_, fun v w h => sec.elem v w (old h),
    fun v hv u h => ?_, fun v v' w w' y h h' r r' => ?_⟩
  · rw [Edge, same v hv] at e
    exact sec.closed v hv w e
  · rw [cell_assign] at h
    split at h
    · cases h
      exact ht
    · exact sec.apart v hv u h
  · exact sec.single v v' w w' y (old h) (old h')
      (sec.closed.reaches_of_cell_eq same (sec.elem v w (old h)) r)
      (sec.closed.reaches_of_cell_eq same (sec.elem v' w' (old h')) r')

/-- Binding a secluded variable that belongs to no choice to another. -/
lemma merge (sec : s.Secluded I) {x y : Nat} (hx : x ∈ I) (hy : y ∈ I)
    (lone : ∀ v w, s.cell v = .setOrInteger (.var w) → ¬ s.Reaches w x) :
    (s.assign x (.bound (.var y))).Secluded I := by
  have old {v w : Nat} (h : (s.assign x (.bound (.var y))).cell v = .setOrInteger (.var w)) :
      s.cell v = .setOrInteger (.var w) := by
    rw [cell_assign] at h
    split at h
    · cases h
    · exact h
  -- The elements of choices lie where nothing changes.
  have reaches {v w z : Nat} (h : s.cell v = .setOrInteger (.var w))
      (r : (s.assign x (.bound (.var y))).Reaches w z) : s.Reaches w z := by
    refine (s.closed_not_reaching x).reaches_of_cell_eq (fun u hu => ?_) (lone v w h) r
    rw [cell_assign, if_neg]
    rintro rfl
    exact hu .refl
  refine ⟨sec.plain.assign fun _ => ⟨y, rfl⟩, fun v hv w e => ?_, fun v w h => sec.elem v w (old h),
    fun v hv u h => ?_, fun v v' w w' z h h' r r' => ?_⟩
  · rw [edge_assign] at e
    split at e
    · obtain rfl : w = y := by simpa [Cell.mentions, Cell.contents, Ty.vars] using e
      exact hy
    · exact sec.closed v hv w e
  · rw [cell_assign, if_neg] at h
    · exact sec.apart v hv u h
    · rintro rfl
      exact hv hx
  · exact sec.single v v' w w' z (old h) (old h') (reaches (old h) r) (reaches (old h') r')

/-- Joining two undecided choices. -/
lemma joinThen (sec : s.Secluded I) {n a b x y st p q out} (ne : a ≠ b)
    (j : Joins s a b x y (some (st, p, q)))
    (run : Run st n (s.assign x (.bound (.var y))) p q out s') :
    (∀ e, out ≠ .error (.error e)) ∧ s'.Secluded I := by
  cases j with
  | setPairs _ h | pairsSet h _ | pairs h _ => exact absurd h (sec.plain.noPairs _ _ _)
  | sets ha hb =>
    obtain ⟨wa, rfl⟩ := sec.plain.elem a _ ha
    obtain ⟨wb, rfl⟩ := sec.plain.elem b _ hb
    have outside {v w : Nat} (h : s.cell v = .setOrInteger (.var w)) : v ∉ I :=
      (sec.of_awaits (by rw [h]; exact .set)).1
    have sec' : (s.assign a (.bound (.var b))).Secluded I :=
      sec.assign (outside ha) (by simpa [Ty.vars] using outside hb)
    obtain ⟨total, rfl | ⟨c, hc, d, hd, ra, -, rfl⟩⟩ :=
      run.of_idle sec'.closed sec'.plain (sec.elem a wa ha) (sec.elem b wb hb)
    · exact ⟨total, sec'⟩
    refine ⟨total, sec'.merge hc hd fun v w h r => ?_⟩
    -- The choice that the bound element belonged to is bound itself by now.
    have same : ∀ v ∈ I, (s.assign a (.bound (.var b))).cell v = s.cell v := fun v hv => by
      rw [cell_assign, if_neg]
      rintro rfl
      exact outside ha hv
    have hv : v ≠ a := by
      rintro rfl
      rw [cell_assign, if_pos rfl] at h
      cases h
    rw [cell_assign, if_neg hv] at h
    exact hv (sec.single v a w wa c h ha (sec.closed.reaches_of_cell_eq same (sec.elem v w h) r)
      (sec.closed.reaches_of_cell_eq same (sec.elem a wa ha) ra))

/-- The element of an undecided choice can be unified with any type that does not lead to the choice: the
secluded variable that stands for it is bound. -/
lemma unify_elem (sec : s.Secluded I) (wf : s.WellFormed) {n v w t out}
    (hv : s.cell v = .setOrInteger (.var w)) (ht : t.Over s.cells.size Iᶜ)
    (avoids : ¬ ∃ y ∈ t.vars, s.Reaches y v) (run : Run .types n s (.var w) t out s') :
    out = .error .divergence ∧ s' = s ∨ (∃ r, out = .ok r) ∧ ∃ h ∈ I, s.Reaches w h ∧
      ∃ u : Ty, (∀ x ∈ u.vars, x ∉ I) ∧ s' = s.assign h (.bound u) := by
  cases run with
  | exhausted => exact .inl ⟨rfl, rfl⟩
  | @enter n _ _ _ _ _ _ u _ s₂ _ _ el ml er mr run =>
    obtain ⟨h, hI, rfl, free, reach⟩ := sec.plain.head?_idle sec.closed (sec.elem v w hv) el
    obtain ⟨rfl, rfl⟩ := ml.of_scoped (k := h + 1) (by simp [Ty.Scoped])
    have hu := sec.over_head? wf er ht
    obtain ⟨rfl, rfl⟩ := mr.of_scoped hu.1
    -- What leads to the secluded variable leads there through the choice.
    have lone {y : Nat} (hy : y ∈ u.vars) (r : s₂.Reaches y h) : False := by
      obtain ⟨v', w', hv', r, r'⟩ := sec.exists_choice (hu.2 y hy) hI r
      obtain rfl := sec.single v v' w w' h hv hv' reach r'
      obtain ⟨z, hz, r''⟩ := reaches_of_head? er hy
      exact avoids ⟨z, hz, r''.trans r⟩
    have known (wait : Awaits (s₂.cell h)) : False := by
      rw [free] at wait
      cases wait
    cases run with
    | self => exact (lone (by simp [Ty.vars]) .refl).elim
    | entangled _ _ _ ent =>
      obtain ⟨z, e, r⟩ | ⟨z, e, -⟩ := ent
      · exact (lone (by simp [Ty.vars]) (.head e r)).elim
      · simp [Edge, free, Cell.mentions, Cell.contents] at e
    | join _ _ j =>
      cases j with
      | into => exact .inr ⟨⟨_, rfl⟩, h, hI, reach, _, hu.2, rfl⟩
      | «from» wait _ => exact (known wait).elim
    | joinThen _ _ j _ =>
      cases j with
      | sets e _ | setPairs e _ | pairsSet e _ | pairs e _ =>
        rw [free] at e
        cases e
    | occurs _ occ =>
      obtain ⟨z, hz, r⟩ := occ
      exact (lone hz r).elim
    | refuse wait => exact (known wait).elim
    | bind => exact .inr ⟨⟨_, rfl⟩, h, hI, reach, u, hu.2, rfl⟩
    | bindThen _ _ ask _ | bindFails _ _ ask _ =>
      rw [free] at ask
      cases ask
    | flip nonvar => exact absurd rfl (nonvar h)
    | leaf atom => exact atom.elim
    | clash differ =>
      obtain ⟨σ, e⟩ := Ty.exists_eval_eq fun hy => lone hy .refl
      exact absurd e (differ σ)

/-- Deciding a choice for a type: what stood for its element is secluded no longer. -/
lemma decided (sec : s.Secluded I) {v w h : Nat} {t u : Ty} (hv : s.cell v = .setOrInteger (.var w))
    (hh : h ∈ I) (reach : s.Reaches w h) (ht : ∀ x ∈ t.vars, x ∉ I) (hu : ∀ x ∈ u.vars, x ∉ I) :
    ((s.assign h (.bound u)).assign v (.bound t)).Secluded (I ∩ {x | ¬ s.Reaches x h}) := by
  have outside : v ∉ I := (sec.of_awaits (by rw [hv]; exact .set)).1
  have cell (x : Nat) : ((s.assign h (.bound u)).assign v (.bound t)).cell x =
      if x = v then .bound t else if x = h then .bound u else s.cell x := by
    rw [cell_assign, cell_assign]
  have same : ∀ x ∈ I ∩ {x | ¬ s.Reaches x h},
      ((s.assign h (.bound u)).assign v (.bound t)).cell x = s.cell x := fun x hx => by
    rw [cell, if_neg, if_neg]
    · rintro rfl
      exact hx.2 .refl
    · rintro rfl
      exact outside hx.1
  have cl := sec.closed.inter (s.closed_not_reaching h)
  -- The choices that are left have other elements.
  have old {x y : Nat}
      (e : ((s.assign h (.bound u)).assign v (.bound t)).cell x = .setOrInteger (.var y)) :
      s.cell x = .setOrInteger (.var y) ∧ y ∈ I ∩ {x | ¬ s.Reaches x h} := by
    rw [cell] at e
    split at e
    · cases e
    split at e
    · cases e
    · exact ⟨e, sec.elem x y e, fun r => ‹¬ x = v› (sec.single x v y w h e hv r reach)⟩
  refine ⟨⟨fun x l r e => ?_, fun x e he => ?_, fun x hx => ?_⟩, fun x hx y e => ?_,
    fun x y e => (old e).2, fun x hx t' e y hy => ?_, fun x x' y y' z e e' r r' => ?_⟩
  · rw [cell] at e
    split at e
    · cases e
    split at e
    · cases e
    · exact sec.plain.noPairs x l r e
  · rw [cell] at he
    split at he
    · cases he
    split at he
    · cases he
    · exact sec.plain.elem x e he
  · rw [same x hx]
    exact sec.plain.idle x hx.1
  · rw [Edge, same x hx] at e
    exact cl x hx y e
  · rw [cell] at e
    split at e
    · cases e
      exact fun h => ht y hy h.1
    split at e
    · cases e
      exact fun h => hu y hy h.1
    · by_cases hI : x ∈ I
      · -- The variable stood for the element, and so does what it is bound to.
        have r : s.Reaches x h := by
          by_contra r
          exact hx ⟨hI, r⟩
        obtain rfl | ⟨z, edge, r⟩ := r.cases_head
        · exact absurd rfl ‹¬ x = x›
        · obtain free | ⟨b, bound⟩ := sec.plain.idle x hI
          · rw [free] at e
            cases e
          · rw [bound] at e
            cases e
            obtain rfl : y = b := by simpa [Ty.vars] using hy
            obtain rfl : z = y := by
              simpa [Edge, bound, Cell.mentions, Cell.contents, Ty.vars] using edge
            exact fun h => h.2 r
      · exact fun h => sec.apart x hI t' e y hy h.1
  · exact sec.single x x' y y' z (old e).1 (old e').1 (cl.reaches_of_cell_eq same (old e).2 r)
      (cl.reaches_of_cell_eq same (old e').2 r')

end Secluded

/-- Unifying types without secluded variables leaves secluded what is not used up, and if it fails, the two
types are different with all put in that is known by then. -/
theorem Run.secluded {stage n s l r out s'} (run : Run stage n s l r out s') (wf : s.WellFormed)
    {I : Set Nat} (sec : s.Secluded I) (hl : l.Over s.cells.size Iᶜ) (hr : r.Over s.cells.size Iᶜ) :
    (∃ J ⊆ I, s'.Secluded J ∧ ∀ t, out = .ok t → t.Over s.cells.size Jᶜ) ∧
      ∀ e, out = .error (.error e) → l.eval s'.resolution ≠ r.eval s'.resolution := by
  have away {I J : Set Nat} {k : Nat} {t : Ty} (h : t.Over k Iᶜ) (sub : J ⊆ I) : t.Over k Jᶜ :=
    h.mono (Set.compl_subset_compl.2 sub)
  induction run generalizing I with
  | exhausted => exact ⟨⟨I, subset_rfl, sec, fun _ h => by cases h⟩, fun _ h => by cases h⟩
  | enter el ml er mr run ih =>
    have ovl := sec.over_head? wf el hl
    obtain ⟨rfl, rfl⟩ := ml.of_scoped ovl.1
    have ovr := sec.over_head? wf er hr
    obtain ⟨rfl, rfl⟩ := mr.of_scoped ovr.1
    obtain ⟨left, error⟩ := ih wf sec ovl ovr
    refine ⟨left, fun e he => ?_⟩
    have nar := (run.narrows wf (closed_univ _) (Ty.over_univ ovl.1) (Ty.over_univ ovr.1)).1
    have resp := (nar.wellFormed wf).respects_resolution.of_keeps nar.keeps
    rw [← resp.eval_head? el, ← resp.eval_head? er]
    exact error e he
  | self => exact ⟨⟨I, subset_rfl, sec, fun t e => by cases e; exact hl⟩, fun _ h => by cases h⟩
  | entangled ne ua ub ent =>
    exact ⟨⟨I, subset_rfl, sec, fun _ h => by cases h⟩, fun _ _ => wf.resolution_ne_of_entangled ua ub ent⟩
  | @join n s a b x y ne apart j =>
    refine ⟨⟨I, subset_rfl, ?_, fun t e => ?_⟩, fun _ h => by cases h⟩
    · obtain ⟨rfl, rfl⟩ | ⟨rfl, rfl⟩ := j.sides
      · exact sec.assign (Ty.over_var.1 hl).2 hr.2
      · exact sec.assign (Ty.over_var.1 hr).2 hl.2
    · cases e
      obtain ⟨-, rfl⟩ | ⟨-, rfl⟩ := j.sides
      · exact hr
      · exact hl
  | joinThen ne apart j run _ =>
    obtain ⟨total, sec'⟩ := sec.joinThen ne j run
    refine ⟨⟨I, subset_rfl, sec', fun t e => ?_⟩, fun e h => absurd (map_eq_error h) (total e)⟩
    obtain ⟨u, -, rfl⟩ := map_eq_ok e
    obtain ⟨-, rfl⟩ | ⟨-, rfl⟩ := j.sides
    · exact hr
    · exact hl
  | flip _ _ ih =>
    obtain ⟨left, error⟩ := ih wf sec hr hl
    exact ⟨left, fun e h => (error e h).symm⟩
  | occurs nonvar occ =>
    exact ⟨⟨I, subset_rfl, sec, fun _ h => by cases h⟩, fun _ _ => wf.resolution_ne_of_occurs nonvar occ⟩
  | refuse wait _ _ nonvar =>
    exact ⟨⟨I, subset_rfl, sec, fun _ h => by cases h⟩, fun _ _ => wf.resolution_ne_of_awaits wait nonvar hr.1⟩
  | bind =>
    refine ⟨⟨I, subset_rfl, sec.assign (Ty.over_var.1 hl).2 hr.2, fun t e => ?_⟩, fun _ h => by cases h⟩
    cases e
    exact hr
  | @bindThen n s v t p q u s' nonvar apart ask run _ =>
    obtain ⟨w, -, hc⟩ := (sec.of_awaits ask.awaits).2
    rw [hc] at ask
    cases ask
    obtain ⟨e, -⟩ | ⟨-, h, hI, reach, u', hu, rfl⟩ :=
      sec.unify_elem wf hc (Ty.over_set.1 hr) apart run
    · cases e
    · refine ⟨⟨_, Set.inter_subset_left, sec.decided hc hI reach hr.2 hu, fun t e => ?_⟩, fun _ h => by cases h⟩
      cases e
      exact away hr Set.inter_subset_left
  | @bindFails n s v t p q e s' nonvar apart ask run _ =>
    obtain ⟨w, -, hc⟩ := (sec.of_awaits ask.awaits).2
    rw [hc] at ask
    cases ask
    obtain ⟨e, rfl⟩ | ⟨⟨r, e⟩, -⟩ := sec.unify_elem wf hc (Ty.over_set.1 hr) apart run
    · refine ⟨⟨I, subset_rfl, sec, fun _ h => by cases h⟩, fun e' h => ?_⟩
      cases e.symm.trans h
    · cases e
  | leaf => exact ⟨⟨I, subset_rfl, sec, fun t e => by cases e; exact hl⟩, fun _ h => by cases h⟩
  | clash differ => exact ⟨⟨I, subset_rfl, sec, fun _ h => by cases h⟩, fun _ _ => differ _⟩
  | set _ ih =>
    obtain ⟨⟨J, sub, sec', within⟩, error⟩ := ih wf sec (Ty.over_set.1 hl) (Ty.over_set.1 hr)
    refine ⟨⟨J, sub, sec', fun t e => ?_⟩, fun e h same => error e (map_eq_error h) (Ty.set.inj same)⟩
    obtain ⟨u, hu, rfl⟩ := map_eq_ok e
    exact Ty.over_set.2 (within u hu)
  | couple run run' ih ih' =>
    rw [Ty.over_couple] at hl hr
    have nar := (run.narrows wf (closed_univ _) (Ty.over_univ hl.1.1) (Ty.over_univ hr.1.1)).1
    obtain ⟨⟨J, sub, sec', hx⟩, -⟩ := ih wf sec hl.1 hr.1
    obtain ⟨⟨K, sub', sec'', hy⟩, error⟩ := ih' (nar.wellFormed wf) sec'
      (nar.size_eq ▸ away hl.2 sub) (nar.size_eq ▸ away hr.2 sub)
    refine ⟨⟨K, sub'.trans sub, sec'', fun t e => ?_⟩,
      fun e h same => error e (map_eq_error h) (Ty.couple.inj same).2⟩
    obtain ⟨u, hu, rfl⟩ := map_eq_ok e
    exact Ty.over_couple.2 ⟨away (hx _ rfl) sub', nar.size_eq ▸ hy u hu⟩
  | coupleFails _ ih =>
    rw [Ty.over_couple] at hl hr
    obtain ⟨⟨J, sub, sec', -⟩, error⟩ := ih wf sec hl.1 hr.1
    exact ⟨⟨J, sub, sec', fun _ h => by cases h⟩, fun e h same => error e h (Ty.couple.inj same).1⟩
  | record _ ih => exact ih wf sec hl hr
  | nil => exact ⟨⟨I, subset_rfl, sec, fun t e => by cases e; exact hl⟩, fun _ h => by cases h⟩
  | cons run run' ih ih' =>
    rw [Ty.over_record, List.forall_mem_cons, ← Ty.over_record] at hl hr
    have nar := (run.narrows wf (closed_univ _) (Ty.over_univ hl.1.1) (Ty.over_univ hr.1.1)).1
    obtain ⟨⟨J, sub, sec', hx⟩, -⟩ := ih wf sec hl.1 hr.1
    obtain ⟨⟨K, sub', sec'', hy⟩, -⟩ := ih' (nar.wellFormed wf) sec'
      (nar.size_eq ▸ away hl.2 sub) (nar.size_eq ▸ away hr.2 sub)
    refine ⟨⟨K, sub'.trans sub, sec'', fun t e => ?_⟩, fun _ h => by cases h⟩
    cases e
    rw [Ty.over_record, List.forall_mem_cons, ← Ty.over_record]
    exact ⟨away (hx _ rfl) sub', nar.size_eq ▸ hy _ rfl⟩
  | consFails _ ih =>
    rw [Ty.over_record, List.forall_mem_cons] at hl hr
    obtain ⟨⟨J, sub, sec', -⟩, error⟩ := ih wf sec hl.1 hr.1
    refine ⟨⟨J, sub, sec', fun _ h => by cases h⟩, fun e h same => error e h ?_⟩
    simp only [Ty.eval, Ty.evalFields, Ty.record.injEq, List.cons.injEq, Prod.mk.injEq] at same
    exact same.1.2
  | consRestFails run _ ih ih' =>
    rw [Ty.over_record, List.forall_mem_cons, ← Ty.over_record] at hl hr
    have nar := (run.narrows wf (closed_univ _) (Ty.over_univ hl.1.1) (Ty.over_univ hr.1.1)).1
    obtain ⟨⟨J, sub, sec', -⟩, -⟩ := ih wf sec hl.1 hr.1
    obtain ⟨⟨K, sub', sec'', -⟩, error⟩ := ih' (nar.wellFormed wf) sec'
      (nar.size_eq ▸ away hl.2 sub) (nar.size_eq ▸ away hr.2 sub)
    refine ⟨⟨K, sub'.trans sub, sec'', fun _ h => by cases h⟩, fun e h same => error e h ?_⟩
    simp only [Ty.eval, Ty.evalFields, Ty.record.injEq, List.cons.injEq] at same ⊢
    exact same.2

/-! ## The least secluded set. -/

/-- The variables that every secluded set has. -/
def hidden (s : Store) : Set Nat := {v | ∀ I, s.Secluded I → v ∈ I}

namespace Secluded

variable {I : Set Nat}

lemma hidden_subset (sec : s.Secluded I) : s.hidden ⊆ I := fun _ h => h I sec

/-- If there is a secluded set, there is a least one. -/
lemma least (sec : s.Secluded I) : s.Secluded s.hidden where
  plain := ⟨sec.plain.noPairs, sec.plain.elem, fun v hv => sec.plain.idle v (hv I sec)⟩
  closed v hv w e J sec' := sec'.closed v (hv J sec') w e
  elem v w h J sec' := sec'.elem v w h
  apart v hv t h w hw hid := by
    obtain ⟨J, sec', hJ⟩ : ∃ J, s.Secluded J ∧ v ∉ J := by simpa [hidden] using hv
    exact sec'.apart v hJ t h w hw (hid J sec')
  single := sec.single

/-- What is secluded depends on the cells alone. -/
lemma congr (sec : s.Secluded I) (same : s'.cell = s.cell) : s'.Secluded I := by
  have edges : s'.Edge = s.Edge := by
    funext v w
    rw [Edge, Edge, same]
  refine ⟨⟨?_, ?_, ?_⟩, ?_, ?_, ?_, ?_⟩ <;> simp only [Closed, Reaches, edges, same]
  · exact sec.plain.noPairs
  · exact sec.plain.elem
  · exact sec.plain.idle
  · exact sec.closed
  · exact sec.elem
  · exact sec.apart
  · exact sec.single

/-- A variable that was never allocated need not be secluded. -/
lemma allocated (sec : s.Secluded I) (wf : s.WellFormed) : s.Secluded (I ∩ Set.Iio s.cells.size) where
  plain := ⟨sec.plain.noPairs, sec.plain.elem, fun v hv => sec.plain.idle v hv.1⟩
  closed v hv w e := ⟨sec.closed v hv.1 w e, wf.edge_lt e⟩
  elem v w h := by
    refine ⟨sec.elem v w h, wf.edge_lt (v := v) ?_⟩
    simp [Edge, h, Cell.mentions, Cell.contents, Ty.vars]
  apart v hv t h w hw hid :=
    sec.apart v (fun hI => hv ⟨hI, lt_size_of_cell_ne (by simp [h])⟩) t h w hw hid.1
  single := sec.single

lemma lt_of_mem_hidden (sec : s.Secluded I) (wf : s.WellFormed) {v : Nat} (hv : v ∈ s.hidden) :
    v < s.cells.size := (hv _ (sec.allocated wf)).2

/-- A new choice with a new element. -/
lemma choice (sec : s.Secluded I) (wf : s.WellFormed) (old : I ⊆ Set.Iio s.cells.size) {k : Nat}
    (new : s.cells.size < k)
    (cells : ∀ v, s'.cell v = if v = k then .setOrInteger (.var s.cells.size) else s.cell v) :
    s'.Secluded (insert s.cells.size I) := by
  have free : s.cell s.cells.size = .free := cell_of_size_le le_rfl
  have same {v : Nat} (h : v ≠ k) : s'.cell v = s.cell v := by rw [cells, if_neg h]
  have inside {v : Nat} (h : v ∈ insert s.cells.size I) : v ≠ k := by
    obtain rfl | h := h
    · exact new.ne
    · exact ((old h).trans new).ne
  have cl : s.Closed (insert s.cells.size I) := fun v hv w e => by
    obtain rfl | hv := hv
    · exact absurd e.lt_left (lt_irrefl _)
    · exact .inr (sec.closed v hv w e)
  -- The new element is found through the new choice alone.
  have only {x : Nat} (r : s'.Reaches s.cells.size x) : x = s.cells.size := by
    obtain rfl | ⟨y, e, -⟩ := r.cases_head
    · rfl
    · rw [Edge, same new.ne, free] at e
      simp [Cell.mentions, Cell.contents] at e
  have found {w x : Nat} (hw : w ∈ I) (r : s'.Reaches w x) : s.Reaches w x :=
    sec.closed.reaches_of_cell_eq (fun v hv => same (inside (.inr hv))) hw r
  have elem {v w : Nat} (h : s'.cell v = .setOrInteger (.var w)) :
      v = k ∧ w = s.cells.size ∨ s.cell v = .setOrInteger (.var w) := by
    rw [cells] at h
    split at h
    · cases h
      exact .inl ⟨‹_›, rfl⟩
    · exact .inr h
  have clash {v w x : Nat} (h : s.cell v = .setOrInteger (.var w)) (r : s'.Reaches w x)
      (r' : s'.Reaches s.cells.size x) : False := by
    have hw := sec.elem v w h
    have hx : x ∈ I := sec.closed.reaches hw (found hw r)
    rw [only r'] at hx
    exact lt_irrefl _ (Set.mem_Iio.1 (old hx))
  refine ⟨⟨fun v l r h => ?_, fun v e h => ?_, fun v hv => ?_⟩, fun v hv w e => ?_, fun v w h => ?_,
    fun v hv t h w hw hid => ?_, fun v v' w w' x h h' r r' => ?_⟩
  · rw [cells] at h
    split at h
    · cases h
    · exact sec.plain.noPairs v l r h
  · rw [cells] at h
    split at h
    · cases h
      exact ⟨_, rfl⟩
    · exact sec.plain.elem v e h
  · rw [same (inside hv)]
    obtain rfl | hv := hv
    · exact .inl free
    · exact sec.plain.idle v hv
  · rw [Edge, same (inside hv)] at e
    exact cl v hv w e
  · obtain ⟨-, rfl⟩ | h := elem h
    · exact .inl rfl
    · exact .inr (sec.elem v w h)
  · rw [cells] at h
    split at h
    · cases h
    obtain rfl | hw' := hid
    · exact absurd ((wf.within v t (by simp [h, Cell.contents])).lt hw) (lt_irrefl _)
    · exact sec.apart v (fun hI => hv (.inr hI)) t h w hw hw'
  · obtain ⟨rfl, rfl⟩ | h := elem h <;> obtain ⟨hv', hw'⟩ | h' := elem h'
    · exact hv'.symm
    · exact (clash h' r' r).elim
    · exact (clash h r (hw' ▸ r')).elim
    · exact sec.single v v' w w' x h h' (found (sec.elem v w h) r) (found (sec.elem v' w' h') r')

end Secluded

end BMethod.Store
