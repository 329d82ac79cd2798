import BMethod.Proofs.Store.Abreast

/-!
# The second run follows the first

Two stores are abreast, and tied types were unified on the first. Then they can be unified on the second
(`Abreast.follow`). What might fail there is that two choices are joined whose idle elements do not fit
together. But as long as both runs go down side by side, the first run has joined the same two choices
(`Run.elements_of_vars`), so their elements have one value. Where the first run ends earlier, since it has
bound a variable, the second goes on through types that are settled, and meets no choices.
-/

namespace BMethod

/-- The elements of a cell are of one type. -/
lemma Cell.elements_eq {c : Cell} {e f : Ty} (he : e ∈ c.elements) (hf : f ∈ c.elements) :
    e = f := by
  cases c with
  | free | bound => cases he
  | _ => rw [List.mem_singleton.1 he, List.mem_singleton.1 hf]

/-- The elements of a scoped cell are scoped. -/
lemma Cell.scoped_of_mem_elements {c : Cell} {k : Nat} (scope : ∀ t ∈ c.contents, t.Scoped k) {e : Ty}
    (he : e ∈ c.elements) : e.Scoped k := by
  cases c with
  | free | bound => cases he
  | setOrInteger f =>
    rw [List.mem_singleton.1 he]
    exact scope f (by simp [contents])
  | integerOrPairs l r =>
    rw [List.mem_singleton.1 he]
    exact ⟨scope l (by simp [contents]), scope r (by simp [contents])⟩

/-- What the cell of an unbound variable pins it to are sets that it offers. -/
lemma Cell.exists_set_of_pins {c : Cell} {value t : Ty} (hc : c.Unbound) (h : c.pins? value = some t) :
    ∃ e ∈ c.elements, t = .set e := by
  cases c with
  | free => cases h
  | bound u => exact absurd rfl (hc u)
  | setOrInteger e =>
    simp only [pins?] at h
    split at h
    · cases h
    · cases h
      exact ⟨e, List.mem_singleton_self _, rfl⟩
  | integerOrPairs l r =>
    simp only [pins?] at h
    split at h
    · cases h
    · cases h
      exact ⟨_, List.mem_singleton_self _, rfl⟩

namespace Store

open Relation

variable {κ : Coupling} {s s' s₁ s₁' : Store} {t t' u u' l r l' r' a b c d a' b' c' d' : Ty}
  {σ : Nat → Ty} {stage : Stage} {n : Nat}

/-! ## What a run unifies below sets. -/

/-- The type is a set of such elements, or a choice that offers them. -/
def Offers (s : Store) (l a : Ty) : Prop := l = .set a ∨ ∃ x, l = .var x ∧ a ∈ (s.cell x).elements

/-- Pairs that are heads may be taken for types. -/
lemma Run.types_of_heads {out : Outcome} (run : Run .heads n s (.couple a b) (.couple c d) out s₁) :
    Run .types (n + 1) s (.couple a b) (.couple c d) out s₁ :=
  .enter (head?_of_nonvar _ nofun) (.same nofun nofun) (head?_of_nonvar _ nofun) (.same nofun nofun) run

/-- Two types were unified with success, in their order or in the other, with bindings that the valuation
respects. -/
def Unites (σ : Nat → Ty) (s : Store) (a b : Ty) : Prop :=
  ∃ n p q u s₂, (p = a ∧ q = b ∨ p = b ∧ q = a) ∧ Run .types n s p q (.ok u) s₂ ∧ s₂.Respects σ

lemma Unites.symm (h : Unites σ s a b) : Unites σ s b a := by
  obtain ⟨n, p, q, u, s₂, sides, run⟩ := h
  exact ⟨n, p, q, u, s₂, sides.symm, run⟩

/-- Types that were unified have one value. -/
lemma Unites.eval_eq (h : Unites σ s a b) (wf : s.WellFormed) (ha : a.Scoped s.cells.size)
    (hb : b.Scoped s.cells.size) : a.eval σ = b.eval σ := by
  obtain ⟨n, p, q, u, s₂, ⟨rfl, rfl⟩ | ⟨rfl, rfl⟩, run, resp⟩ := h
  · exact (run.forces wf ha hb rfl resp).1
  · exact (run.forces wf hb ha rfl resp).1.symm

lemma WellFormed.scoped_elements (wf : s.WellFormed) {v : Nat} {e : Ty}
    (he : e ∈ (s.cell v).elements) : e.Scoped s.cells.size :=
  Cell.scoped_of_mem_elements (wf.within v) he

/-- To unify two sets is to unify their elements. -/
lemma Run.unites_of_sets (run : Run .heads n s (.set a) (.set b) (.ok t) s₁) (resp : s₁.Respects σ) :
    Unites σ s a b := by
  generalize ho : (.ok t : Outcome) = out at run
  cases run with
  | leaf atom => exact atom.elim
  | clash => cases ho
  | set run =>
    obtain ⟨u, rfl, -⟩ := map_eq_ok ho.symm
    exact ⟨n, a, b, u, s₁, .inl ⟨rfl, rfl⟩, run, resp⟩

/-- To unify a choice with a set is to unify their elements. -/
lemma Run.unites_of_var {x : Nat} (run : Run .heads n s (.var x) (.set b) (.ok t) s₁)
    (wf : s.WellFormed) (hb : b.Scoped s.cells.size) (ha : a ∈ (s.cell x).elements)
    (resp : s₁.Respects σ) : Unites σ s a b := by
  generalize ho : (.ok t : Outcome) = out at run
  cases run with
  | occurs | refuse | bindFails | clash => cases ho
  | leaf atom => exact atom.elim
  | bind _ _ ask =>
    generalize s.cell x = cell at ask ha
    cases ask
    cases ha
  | @bindThen _ _ _ _ p q u s' nonvar apart ask run =>
    refine ⟨n, p, q, u, s', ?_, run, entails_assign ?_ σ resp⟩
    · obtain ⟨hp, e⟩ | ⟨hq, e⟩ := ask.elements <;> cases e
      · exact .inl ⟨Cell.elements_eq hp ha, rfl⟩
      · exact .inr ⟨rfl, Cell.elements_eq hq ha⟩
    · rw [ask.cell_eq run wf hb apart]
      exact ask.unbound

/-- To unify two choices is to unify their elements. -/
lemma Run.unites_of_vars {x y : Nat} (run : Run .heads n s (.var x) (.var y) (.ok t) s₁)
    (wf : s.WellFormed) (hx : x < s.cells.size) (hy : y < s.cells.size) (ne : x ≠ y)
    (ha : a ∈ (s.cell x).elements) (hb : b ∈ (s.cell y).elements) (resp : s₁.Respects σ) :
    Unites σ s a b := by
  have whole := (run.narrows wf s.closed_univ (Ty.over_var.2 ⟨hx, trivial⟩)
    (Ty.over_var.2 ⟨hy, trivial⟩)).1
  generalize ho : (.ok t : Outcome) = out at run
  cases run with
  | self => exact absurd rfl ne
  | flip nonvar | bind nonvar | bindThen nonvar => exact absurd rfl (nonvar _)
  | leaf atom => exact atom.elim
  | entangled | occurs | refuse | bindFails | clash => cases ho
  | join _ _ j =>
    cases j with
    | into h =>
      rw [h] at ha
      cases ha
    | «from» _ h =>
      rw [h] at hb
      cases hb
  | @joinThen _ _ _ _ x' y' stage p q out _ _ apart j run =>
    obtain ⟨u, rfl, -⟩ := map_eq_ok ho.symm
    -- The equation lies where neither of the choices is found, so it can be unified before the join.
    have pose : Posed .heads Set.univ s (.var x) (.var y) := by
      refine ⟨s.closed_univ, Ty.over_var.2 ⟨hx, trivial⟩, Ty.over_var.2 ⟨hy, trivial⟩, fun _ v h => ?_⟩
      obtain h | h := h <;> cases h
      · exact Cell.unbound_of_mem_elements ha
      · exact Cell.unbound_of_mem_elements hb
    have inner := j.posed_then wf pose apart
    have out := (j.left_out Set.univ).1
    have lx := (j.posed pose).var.2.1
    have bind := j.narrows (C := Set.univ) ne apart ⟨hx, trivial⟩ ⟨hy, trivial⟩
    have same : Agrees (Set.univ ∩ {w | ¬ s.Reaches w x} ∩ {w | ¬ s.Reaches w y})
        (s.assign x' (.bound (.var y'))) s :=
      ⟨(size_assign lx _).symm, fun v hv => (cell_assign_of_ne (by rintro rfl; exact out hv)).symm⟩
    obtain ⟨s₂, run₂, after⟩ := run.frame (bind.wellFormed wf) inner.closed inner.left inner.right same
    have ol := inner.left
    have or := inner.right
    rw [size_assign lx] at ol or
    have nar := (run₂.narrows wf (same.closed inner.closed) ol or).1
    have resp₂ : s₂.Respects σ := fun v t hc => by
      by_cases hv : v ∈ Set.univ ∩ {w | ¬ s.Reaches w x} ∩ {w | ¬ s.Reaches w y}
      · exact resp v t (by rw [← after.cell v hv, hc])
      · rw [nar.cell_eq hv] at hc
        exact resp.of_keeps whole.keeps v t hc
    have sides : p = a ∧ q = b ∨ p = b ∧ q = a :=
      j.elements.imp (fun h => ⟨Cell.elements_eq h.1 ha, Cell.elements_eq h.2 hb⟩)
        fun h => ⟨Cell.elements_eq h.1 hb, Cell.elements_eq h.2 ha⟩
    cases j with
    | sets | setPairs | pairsSet => exact ⟨n, _, _, u, s₂, sides, run₂, resp₂⟩
    | pairs => exact ⟨n + 1, _, _, u, s₂, sides, run₂.types_of_heads, resp₂⟩

/-- To unify two types that offer elements is to unify the elements. -/
lemma Run.unites (run : Run .heads n s l r (.ok t) s₁) (wf : s.WellFormed)
    (hl : l.Scoped s.cells.size) (hr : r.Scoped s.cells.size) (ha : s.Offers l a) (hb : s.Offers r b)
    (resp : s₁.Respects σ) : a = b ∨ Unites σ s a b := by
  obtain rfl | ⟨x, rfl, ha⟩ := ha
  · obtain rfl | ⟨y, rfl, hb⟩ := hb
    · exact .inr (run.unites_of_sets resp)
    · exact .inr ((run.unflip nofun).unites_of_var wf hl hb resp).symm
  · obtain rfl | ⟨y, rfl, hb⟩ := hb
    · exact .inr (run.unites_of_var wf hr ha resp)
    · by_cases e : x = y
      · subst e
        exact .inl (Cell.elements_eq ha hb)
      · exact .inr (run.unites_of_vars wf hl hr e ha hb resp)

/-! ## Forms of tied types. -/

namespace Abreast

variable (ab : Abreast κ s s')

include ab

/-- A head that is tied to a type which is no variable is of its form, unless the type is settled; or it is
a choice that is read as sets. -/
lemma nonvar_or (h : Tied κ s s' l t') (hl : ∀ v, l = .var v → (s.cell v).Unbound)
    (nonvar : ∀ w, t' ≠ .var w) : s'.Rigid κ t' ∨ (∀ w, l ≠ .var w) ∨
      ∃ x e, l = .var x ∧ e ∈ (s.cell x).elements ∧ Tied κ s s' (.set e) t' := by
  by_cases hx : ∃ x, l = .var x
  · obtain ⟨x, rfl⟩ := hx
    have hx := Ty.over_var.1 h.left
    cases pin : (s.cell x).pins? (κ.first.value x) with
    | none => exact .inl (ab.rigid_of_known (ab.known_of_nonvar (unbound_under.2 (.inr pin)) h nonvar) h)
    | some u =>
      obtain ⟨e, he, rfl⟩ := Cell.exists_set_of_pins (hl x rfl) pin
      refine .inr (.inr ⟨x, e, rfl, he, (ab.fits.means_pinned ab.wellFormed hx.2 pin).1, h.right,
        fun τ adm => ?_⟩)
      rw [← h.eq τ adm]
      exact (respects_under.1 (ab.pull τ adm) x hx.2 _ pin).symm
  · exact .inr (.inl fun w e => hx ⟨w, e⟩)

/-- A head that is tied to a set offers elements that are tied to those of the set, unless the set is
settled. -/
lemma offers_or (h : Tied κ s s' l (.set a')) (hl : ∀ v, l = .var v → (s.cell v).Unbound) :
    s'.Rigid κ (.set a') ∨ ∃ a, s.Offers l a ∧ Tied κ s s' a a' := by
  obtain rigid | nonvar | ⟨x, e, rfl, he, tied⟩ := ab.nonvar_or h hl nofun
  · exact .inl rigid
  · have eq := h.eq _ ab.admits_second
    cases l with
    | var w => exact absurd rfl (nonvar w)
    | set a => exact .inr ⟨a, .inl rfl, Tied.set_iff.1 h⟩
    | _ => simp [Ty.eval] at eq
  · exact .inr ⟨e, .inr ⟨x, rfl, he⟩, Tied.set_iff.1 tied⟩

lemma couple_or (h : Tied κ s s' l (.couple a' b')) (hl : ∀ v, l = .var v → (s.cell v).Unbound) :
    s'.Rigid κ (.couple a' b') ∨ ∃ a b, l = .couple a b ∧ Tied κ s s' a a' ∧ Tied κ s s' b b' := by
  obtain rigid | nonvar | ⟨x, e, rfl, he, tied⟩ := ab.nonvar_or h hl nofun
  · exact .inl rigid
  · have eq := h.eq _ ab.admits_second
    cases l with
    | var w => exact absurd rfl (nonvar w)
    | couple a b => exact .inr ⟨a, b, rfl, Tied.couple_iff.1 h⟩
    | _ => simp [Ty.eval] at eq
  · have eq := tied.eq _ ab.admits_second
    simp [Ty.eval] at eq

lemma record_or {fs' : List (String × Ty)} (h : Tied κ s s' l (.record fs'))
    (hl : ∀ v, l = .var v → (s.cell v).Unbound) :
    s'.Rigid κ (.record fs') ∨ ∃ fs, l = .record fs := by
  obtain rigid | nonvar | ⟨x, e, rfl, he, tied⟩ := ab.nonvar_or h hl nofun
  · exact .inl rigid
  · have eq := h.eq _ ab.admits_second
    cases l with
    | var w => exact absurd rfl (nonvar w)
    | record fs => exact .inr ⟨fs, rfl⟩
    | _ => simp [Ty.eval] at eq
  · have eq := tied.eq _ ab.admits_second
    simp [Ty.eval] at eq

lemma exists_cons {k : String} {fs fs' : List (String × Ty)}
    (h : Tied κ s s' (.record fs) (.record ((k, t') :: fs'))) :
    ∃ t rest, fs = (k, t) :: rest ∧ Tied κ s s' t t' ∧ Tied κ s s' (.record rest) (.record fs') := by
  have eq := h.eq _ ab.admits_second
  cases fs with
  | nil => simp [Ty.eval, Ty.evalFields] at eq
  | cons f rest =>
    obtain ⟨j, t⟩ := f
    simp only [Ty.eval, Ty.evalFields, Ty.record.injEq, List.cons.injEq, Prod.mk.injEq] at eq
    obtain ⟨⟨rfl, -⟩, -⟩ := eq
    obtain ⟨hl, hr, eq⟩ := h
    rw [Ty.over_record, List.forall_mem_cons, ← Ty.over_record] at hl hr
    simp only [Ty.eval, Ty.evalFields, Ty.record.injEq, List.cons.injEq, Prod.mk.injEq] at eq
    exact ⟨t, rest, rfl, ⟨hl.1, hr.1, fun τ adm => (eq τ adm).1.2⟩, hl.2, hr.2,
      fun τ adm => by rw [Ty.eval, Ty.eval, (eq τ adm).2]⟩

/-- A head that is tied to a choice which is left is its mark. -/
lemma exists_mark {v' : Nat} {e' : Ty} (h : Tied κ s s' l (.var v'))
    (hl : ∀ v, l = .var v → (s.cell v).Unbound) (he' : e' ∈ (s'.cell v').elements) :
    ∃ x e, l = .var x ∧ e ∈ (s.cell x).elements ∧ e.eval κ.first.value = e'.eval κ.second.value := by
  have unbound := Cell.unbound_of_mem_elements he'
  obtain ⟨x, rfl⟩ := ab.steady.exists_var unbound h.eq
  obtain ⟨w, e, he, hw, tied, eq⟩ := ab.marks v' e' he'
  have lx := Ty.over_var.1 h.left
  have lw : w < s.cells.size := lt_size_of_cell_ne fun free => by simp [free, Cell.elements] at he
  have tw : Tied κ s s' (.var w) (.var v') := ⟨Ty.over_var.2 ⟨lw, hw⟩, h.right, tied⟩
  have freed {y : Nat} (ty : Tied κ s s' (.var y) (.var v')) (uy : (s.cell y).Unbound) :
      ((s.under κ.first).cell y).Unbound := by
    refine unbound_under.2 (.inr ?_)
    cases pin : (s.cell y).pins? (κ.first.value y) with
    | none => rfl
    | some u =>
      obtain ⟨f, -, rfl⟩ := Cell.exists_set_of_pins uy pin
      obtain ⟨z, hz⟩ := ab.steady.exists_var (t := .set f) unbound fun τ adm =>
        (respects_under.1 (ab.pull τ adm) y (Ty.over_var.1 ty.left).2 _ pin).symm.trans (ty.eq τ adm)
      cases hz
  obtain rfl := ab.eq_of_tied (freed h (hl x rfl)) (freed tw (Cell.unbound_of_mem_elements he)) unbound h tw
  exact ⟨x, e, rfl, he, eq⟩

end Abreast

/-! ## Pairs of tied heads. -/

section

variable (ab : Abreast κ s s') (hu : ∀ v, l = .var v ∨ r = .var v → (s.cell v).Unbound)

include ab hu

lemma TiedPair.offers (pair : TiedPair κ s s' l r (.set a') (.set b')) :
    s'.Rigid κ (.set a') ∨ s'.Rigid κ (.set b') ∨
      ∃ a b, s.Offers l a ∧ s.Offers r b ∧ TiedPair κ s s' a b a' b' := by
  obtain ⟨tl, tr⟩ | ⟨tl, tr⟩ := pair
  · obtain rigid | ⟨a, ha, ta⟩ := ab.offers_or tl fun v e => hu v (.inl e)
    · exact .inl rigid
    obtain rigid | ⟨b, hb, tb⟩ := ab.offers_or tr fun v e => hu v (.inr e)
    · exact .inr (.inl rigid)
    exact .inr (.inr ⟨a, b, ha, hb, .inl ⟨ta, tb⟩⟩)
  · obtain rigid | ⟨a, ha, ta⟩ := ab.offers_or tl fun v e => hu v (.inl e)
    · exact .inr (.inl rigid)
    obtain rigid | ⟨b, hb, tb⟩ := ab.offers_or tr fun v e => hu v (.inr e)
    · exact .inl rigid
    exact .inr (.inr ⟨a, b, ha, hb, .inr ⟨ta, tb⟩⟩)

lemma TiedPair.couples (pair : TiedPair κ s s' l r (.couple a' b') (.couple c' d')) :
    s'.Rigid κ (.couple a' b') ∨ s'.Rigid κ (.couple c' d') ∨
      ∃ a b c d, l = .couple a b ∧ r = .couple c d ∧ TiedPair κ s s' a c a' c' ∧
        TiedPair κ s s' b d b' d' := by
  obtain ⟨tl, tr⟩ | ⟨tl, tr⟩ := pair
  · obtain rigid | ⟨a, b, rfl, ta, tb⟩ := ab.couple_or tl fun v e => hu v (.inl e)
    · exact .inl rigid
    obtain rigid | ⟨c, d, rfl, tc, td⟩ := ab.couple_or tr fun v e => hu v (.inr e)
    · exact .inr (.inl rigid)
    exact .inr (.inr ⟨a, b, c, d, rfl, rfl, .inl ⟨ta, tc⟩, .inl ⟨tb, td⟩⟩)
  · obtain rigid | ⟨a, b, rfl, ta, tb⟩ := ab.couple_or tl fun v e => hu v (.inl e)
    · exact .inr (.inl rigid)
    obtain rigid | ⟨c, d, rfl, tc, td⟩ := ab.couple_or tr fun v e => hu v (.inr e)
    · exact .inl rigid
    exact .inr (.inr ⟨a, b, c, d, rfl, rfl, .inr ⟨ta, tc⟩, .inr ⟨tb, td⟩⟩)

lemma TiedPair.records {as' bs' : List (String × Ty)}
    (pair : TiedPair κ s s' l r (.record as') (.record bs')) :
    s'.Rigid κ (.record as') ∨ s'.Rigid κ (.record bs') ∨
      ∃ as bs, l = .record as ∧ r = .record bs := by
  obtain ⟨tl, tr⟩ | ⟨tl, tr⟩ := pair
  · obtain rigid | ⟨as, rfl⟩ := ab.record_or tl fun v e => hu v (.inl e)
    · exact .inl rigid
    exact .inr ((ab.record_or tr fun v e => hu v (.inr e)).imp_right fun ⟨bs, e⟩ => ⟨as, bs, rfl, e⟩)
  · obtain rigid | ⟨as, rfl⟩ := ab.record_or tl fun v e => hu v (.inl e)
    · exact .inr (.inl rigid)
    obtain rigid | ⟨bs, rfl⟩ := ab.record_or tr fun v e => hu v (.inr e)
    · exact .inl rigid
    exact .inr (.inr ⟨as, bs, rfl, rfl⟩)

end

lemma TiedPair.cons (ab : Abreast κ s s') {k : String} {as bs as' bs' : List (String × Ty)}
    (pair : TiedPair κ s s' (.record as) (.record bs) (.record ((k, t') :: as'))
      (.record ((k, u') :: bs'))) :
    ∃ t u fs gs, as = (k, t) :: fs ∧ bs = (k, u) :: gs ∧ TiedPair κ s s' t u t' u' ∧
      TiedPair κ s s' (.record fs) (.record gs) (.record as') (.record bs') := by
  obtain ⟨tl, tr⟩ | ⟨tl, tr⟩ := pair
  · obtain ⟨t, fs, rfl, tt, tf⟩ := ab.exists_cons tl
    obtain ⟨u, gs, rfl, tu, tg⟩ := ab.exists_cons tr
    exact ⟨t, u, fs, gs, rfl, rfl, .inl ⟨tt, tu⟩, .inl ⟨tf, tg⟩⟩
  · obtain ⟨t, fs, rfl, tt, tf⟩ := ab.exists_cons tl
    obtain ⟨u, gs, rfl, tu, tg⟩ := ab.exists_cons tr
    exact ⟨t, u, fs, gs, rfl, rfl, .inr ⟨tt, tu⟩, .inr ⟨tf, tg⟩⟩

/-! ## How a successful run goes on. -/

lemma Run.exists_couple {out} (run : Run .heads n s (.couple a b) (.couple c d) (.ok out) s₁) :
    ∃ x y s₂, Run .types n s a c (.ok x) s₂ ∧ Run .types n s₂ b d (.ok y) s₁ := by
  generalize ho : (.ok out : Outcome) = o at run
  cases run with
  | leaf atom => exact atom.elim
  | clash | coupleFails => cases ho
  | couple run run₁ =>
    obtain ⟨y, rfl, -⟩ := map_eq_ok ho.symm
    exact ⟨_, y, _, run, run₁⟩

lemma Run.exists_fields {as bs : List (String × Ty)}
    (run : Run .heads n s (.record as) (.record bs) (.ok t) s₁) :
    Run .fields n s (.record as) (.record bs) (.ok t) s₁ := by
  cases run with
  | leaf atom => exact atom.elim
  | record run => exact run

lemma Run.exists_cons {j k : String} {as bs : List (String × Ty)}
    (run : Run .fields n s (.record ((j, a) :: as)) (.record ((k, b) :: bs)) (.ok t) s₁) :
    ∃ x y s₂, Run .types n s a b (.ok x) s₂ ∧ Run .fields n s₂ (.record as) (.record bs) (.ok y) s₁ := by
  cases run with
  | cons run run₁ => exact ⟨_, _, _, run, run₁⟩

/-- What is unified after something else on the first store keeps the bindings. -/
lemma Abreast.keeps_later (ab : Abreast κ s s') (pair : TiedPair κ s s' a c a' c')
    (pair' : TiedPair κ s s' b d b' d') {stage'} {s₂ : Store} (run : Run stage n s a c (.ok t) s₁)
    (run₁ : Run stage' n s₁ b d (.ok u) s₂) : s₁.Keeps s₂ := by
  obtain ⟨⟨ha, hc⟩, -⟩ := pair.over
  obtain ⟨⟨hb, hd⟩, -⟩ := pair'.over
  have nar := (run.narrows ab.wellFormed s.closed_univ (Ty.over_univ ha.1) (Ty.over_univ hc.1)).1
  rw [← nar.size_eq] at hb hd
  exact (run₁.narrows (nar.wellFormed ab.wellFormed) (closed_univ _) (Ty.over_univ hb.1)
    (Ty.over_univ hd.1)).1.keeps

/-- After tied types were unified, what was tied still is. -/
lemma Abreast.unify_then (ab : Abreast κ s s') (pair : TiedPair κ s s' l r l' r')
    (run : Run stage n s l r (.ok t) s₁) (resp : s₁.Respects κ.first.value) {stage' n'}
    (run' : Run stage' n' s' l' r' (.ok t') s₁') (steady : s₁'.Steady κ.second) :
    Abreast κ s₁ s₁' ∧ ∀ {a b a' b'}, TiedPair κ s s' a b a' b' → TiedPair κ s₁ s₁' a b a' b' := by
  obtain ⟨⟨v, hl, hr⟩, v', hl', hr'⟩ := ab.means pair run resp
  exact ⟨ab.unify pair run resp run' steady, fun h => h.mono
    (Absorbs.of_run run ab.wellFormed ab.fits hl hr)
    (Absorbs.of_run run' ab.steady.wellFormed ab.steady.fits hl' hr')⟩

/-! ## What is met on the way down. -/

namespace Rigid

lemma of_set (h : s'.Rigid κ (.set a')) : s'.Rigid κ a' := fun τ adm => by
  simpa [Ty.eval] using h τ adm

lemma of_couple (h : s'.Rigid κ (.couple a' b')) : s'.Rigid κ a' ∧ s'.Rigid κ b' := by
  simp only [Rigid, Ty.eval, Ty.couple.injEq] at h
  exact ⟨fun τ adm => (h τ adm).1, fun τ adm => (h τ adm).2⟩

lemma of_cons {k : String} {fs : List (String × Ty)} (h : s'.Rigid κ (.record ((k, t') :: fs))) :
    s'.Rigid κ t' ∧ s'.Rigid κ (.record fs) := by
  simp only [Rigid, Ty.eval, Ty.evalFields, Ty.record.injEq, List.cons.injEq, Prod.mk.injEq] at h ⊢
  exact ⟨fun τ adm => (h τ adm).1.2, fun τ adm => (h τ adm).2⟩

lemma head? (h : s'.Rigid κ t') (steady : s'.Steady κ.second) {v : Ty}
    (means : κ.second.Means s'.cells.size t' v) (e : s'.head? t' = some u') : s'.Rigid κ u' :=
  fun τ adm => by
    have adm₀ := steady.fits.respects_under steady.wellFormed
    rw [steady.fits.eval_head? steady.wellFormed adm e means,
      steady.fits.eval_head? steady.wellFormed adm₀ e means, h τ adm]

end Rigid

/-- What is unified on the second store is settled on one side, or has one value already, or was unified
on the first store, too. -/
inductive Guided (κ : Coupling) (stage : Stage) (s' : Store) (l' r' : Ty) : Prop where
  | left : s'.Rigid κ l' → Guided κ stage s' l' r'
  | right : s'.Rigid κ r' → Guided κ stage s' l' r'
  | same : (∀ τ, s'.Admits κ.second τ → l'.eval τ = r'.eval τ) → Guided κ stage s' l' r'
  | first {s s₁ : Store} {l r t : Ty} {n : Nat} : Abreast κ s s' → TiedPair κ s s' l r l' r' →
    (stage = .heads → ∀ v, l = .var v ∨ r = .var v → (s.cell v).Unbound) →
      Run stage n s l r (.ok t) s₁ → s₁.Respects κ.first.value → Guided κ stage s' l' r'

/-- The elements of two choices that were joined on the first store have one value. -/
lemma Guided.elements_eq {x' y' : Nat} {e' f' : Ty} (h : Guided κ .heads s' (.var x') (.var y'))
    (steady : s'.Steady κ.second) (ne : x' ≠ y') (he : e' ∈ (s'.cell x').elements)
    (hf : f' ∈ (s'.cell y').elements) : e'.eval κ.second.value = f'.eval κ.second.value := by
  have ux := Cell.unbound_of_mem_elements he
  have uy := Cell.unbound_of_mem_elements hf
  cases h with
  | left rigid => exact absurd rigid (steady.not_rigid ux)
  | right rigid => exact absurd rigid (steady.not_rigid uy)
  | same eq =>
    obtain ⟨c, hc⟩ := Ty.exists_ne (κ.second.value y')
    obtain ⟨τ, adm, val⟩ := steady.exists_admits (Function.update κ.second.value x' c)
    have := eq τ adm
    rw [Ty.eval, Ty.eval, val x' ux, val y' uy, Function.update_self,
      Function.update_of_ne (Ne.symm ne)] at this
    exact absurd this hc
  | @first s l r n t s₁ ab pair hu run resp =>
    have marks {l r : Ty} (tl : Tied κ s s' l (.var x')) (tr : Tied κ s s' r (.var y'))
        (hl : ∀ v, l = .var v → (s.cell v).Unbound) (hr : ∀ v, r = .var v → (s.cell v).Unbound) :
        ∃ e f, s.Offers l e ∧ s.Offers r f ∧ e.eval κ.first.value = e'.eval κ.second.value ∧
          f.eval κ.first.value = f'.eval κ.second.value ∧ e.Scoped s.cells.size ∧
            f.Scoped s.cells.size := by
      obtain ⟨x, e, rfl, he, ee⟩ := ab.exists_mark tl hl he
      obtain ⟨y, f, rfl, hf, ef⟩ := ab.exists_mark tr hr hf
      exact ⟨e, f, .inr ⟨x, rfl, he⟩, .inr ⟨y, rfl, hf⟩, ee, ef,
        ab.wellFormed.scoped_elements he, ab.wellFormed.scoped_elements hf⟩
    have scope := pair.over
    have same {e f : Ty} (se : e.Scoped s.cells.size) (sf : f.Scoped s.cells.size)
        (h : e = f ∨ Unites κ.first.value s e f) : e.eval κ.first.value = f.eval κ.first.value := by
      obtain rfl | h := h
      · rfl
      · exact h.eval_eq ab.wellFormed se sf
    obtain ⟨tl, tr⟩ | ⟨tl, tr⟩ := pair
    · obtain ⟨e, f, oe, of, ee, ef, se, sf⟩ := marks tl tr (fun v h => hu rfl v (.inl h))
        fun v h => hu rfl v (.inr h)
      rw [← ee, ← ef]
      exact same se sf (run.unites ab.wellFormed scope.1.1.1 scope.1.2.1 oe of resp)
    · obtain ⟨e, f, oe, of, ee, ef, se, sf⟩ := marks tr tl (fun v h => hu rfl v (.inr h))
        fun v h => hu rfl v (.inl h)
      rw [← ee, ← ef]
      exact (same sf se (run.unites ab.wellFormed scope.1.1.1 scope.1.2.1 of oe resp)).symm

/-- Being guided passes down. -/
lemma calm_guided (κ : Coupling) : Calm κ.second (Guided κ) where
  heads steady hl hr h el er := by
    have wf := steady.wellFormed
    cases h with
    | left rigid => exact .left (rigid.head? steady hl el)
    | right rigid => exact .right (rigid.head? steady hr er)
    | same eq =>
      refine .same fun τ adm => ?_
      rw [steady.fits.eval_head? wf adm el hl, steady.fits.eval_head? wf adm er hr, eq τ adm]
    | first ab pair _ run resp =>
      generalize ho : (.ok _ : Outcome) = out at run
      cases run with
      | exhausted => cases ho
      | enter e₁ m₁ e₂ m₂ run =>
        obtain ⟨⟨ol, or⟩, -⟩ := pair.over
        obtain ⟨rfl, rfl⟩ := m₁.of_scoped (ab.wellFormed.over_head? (closed_univ _) e₁ (Ty.over_univ ol.1)).1
        obtain ⟨rfl, rfl⟩ := m₂.of_scoped (ab.wellFormed.over_head? (closed_univ _) e₂ (Ty.over_univ or.1)).1
        cases ho
        refine .first ab ?_ (fun _ v h => ?_) run resp
        · exact pair.imp (fun h => ⟨ab.tied_head? h.1 e₁ el, ab.tied_head? h.2 e₂ er⟩)
            fun h => ⟨ab.tied_head? h.1 e₁ er, ab.tied_head? h.2 e₂ el⟩
        · obtain rfl | rfl := h
          · exact unbound_of_head? e₁
          · exact unbound_of_head? e₂
  swap h := by
    cases h with
    | left rigid => exact .right rigid
    | right rigid => exact .left rigid
    | same eq => exact .same fun τ adm => (eq τ adm).symm
    | first ab pair hu run resp => exact .first ab pair.swap hu run resp
  set steady h := by
    cases h with
    | left rigid => exact .left rigid.of_set
    | right rigid => exact .right rigid.of_set
    | same eq => exact .same fun τ adm => by simpa [Ty.eval] using eq τ adm
    | first ab pair hu run resp =>
      obtain rigid | rigid | ⟨a, b, ha, hb, pair'⟩ := pair.offers ab (hu rfl)
      · exact .left rigid.of_set
      · exact .right rigid.of_set
      obtain rfl | ⟨m, p, q, u, s₂, sides, run', resp'⟩ :=
        run.unites ab.wellFormed pair.over.1.1.1 pair.over.1.2.1 ha hb resp
      · exact .same fun τ adm => (pair'.eq_iff adm).1 rfl
      · refine .first ab ?_ (by rintro ⟨⟩) run' resp'
        obtain ⟨rfl, rfl⟩ | ⟨rfl, rfl⟩ := sides
        · exact pair'
        · exact pair'.flip
  first steady h := by
    cases h with
    | left rigid => exact .left rigid.of_couple.1
    | right rigid => exact .right rigid.of_couple.1
    | same eq =>
      simp only [Ty.eval, Ty.couple.injEq] at eq
      exact .same fun τ adm => (eq τ adm).1
    | first ab pair hu run resp =>
      obtain rigid | rigid | ⟨a, b, c, d, rfl, rfl, halves, halves'⟩ := pair.couples ab (hu rfl)
      · exact .left rigid.of_couple.1
      · exact .right rigid.of_couple.1
      obtain ⟨x, y, s₂, run, run₁⟩ := run.exists_couple
      exact .first ab halves (by rintro ⟨⟩) run (resp.of_keeps (ab.keeps_later halves halves' run run₁))
  second steady h run' hl hr steady' := by
    have before (τ : Nat → Ty) := ((run'.respects_under_iff (τ := τ) steady.wellFormed steady.fits hl hr
      rfl).1 · |>.1)
    cases h with
    | left rigid => exact .left (rigid.of_couple.2.mono before)
    | right rigid => exact .right (rigid.of_couple.2.mono before)
    | same eq =>
      simp only [Ty.eval, Ty.couple.injEq] at eq
      exact .same fun τ adm => (eq τ (before τ adm)).2
    | first ab pair hu run resp =>
      obtain rigid | rigid | ⟨a, b, c, d, rfl, rfl, halves, halves'⟩ := pair.couples ab (hu rfl)
      · exact .left (rigid.of_couple.2.mono before)
      · exact .right (rigid.of_couple.2.mono before)
      obtain ⟨x, y, s₂, run, run₁⟩ := run.exists_couple
      have resp₂ := resp.of_keeps (ab.keeps_later halves halves' run run₁)
      obtain ⟨ab', later⟩ := ab.unify_then halves run resp₂ run' steady'
      exact .first ab' (later halves') (by rintro ⟨⟩) run₁ resp
  fields steady h := by
    cases h with
    | left rigid => exact .left rigid
    | right rigid => exact .right rigid
    | same eq => exact .same eq
    | first ab pair hu run resp =>
      obtain rigid | rigid | ⟨as, bs, rfl, rfl⟩ := pair.records ab (hu rfl)
      · exact .left rigid
      · exact .right rigid
      exact .first ab pair (by rintro ⟨⟩) run.exists_fields resp
  field steady h := by
    cases h with
    | left rigid => exact .left rigid.of_cons.1
    | right rigid => exact .right rigid.of_cons.1
    | same eq =>
      simp only [Ty.eval, Ty.evalFields, Ty.record.injEq, List.cons.injEq, Prod.mk.injEq] at eq
      exact .same fun τ adm => (eq τ adm).1.2
    | first ab pair _ run resp =>
      obtain ⟨fs, gs, rfl, rfl⟩ := run.of_fields
      obtain ⟨t, u, fs, gs, rfl, rfl, field, rest⟩ := pair.cons ab
      obtain ⟨x, y, s₂, run, run₁⟩ := run.exists_cons
      exact .first ab field (by rintro ⟨⟩) run (resp.of_keeps (ab.keeps_later field rest run run₁))
  rest steady h run' hl hr steady' := by
    have before (τ : Nat → Ty) := ((run'.respects_under_iff (τ := τ) steady.wellFormed steady.fits hl hr
      rfl).1 · |>.1)
    cases h with
    | left rigid => exact .left (rigid.of_cons.2.mono before)
    | right rigid => exact .right (rigid.of_cons.2.mono before)
    | same eq =>
      simp only [Ty.eval, Ty.evalFields, Ty.record.injEq, List.cons.injEq, Prod.mk.injEq] at eq
      exact .same fun τ adm => by rw [Ty.eval, Ty.eval, (eq τ (before τ adm)).2]
    | first ab pair _ run resp =>
      obtain ⟨fs, gs, rfl, rfl⟩ := run.of_fields
      obtain ⟨t, u, fs, gs, rfl, rfl, field, rest⟩ := pair.cons ab
      obtain ⟨x, y, s₂, run, run₁⟩ := run.exists_cons
      have resp₂ := resp.of_keeps (ab.keeps_later field rest run run₁)
      obtain ⟨ab', later⟩ := ab.unify_then field run resp₂ run' steady'
      exact .first ab' (later rest) (by rintro ⟨⟩) run₁ resp
  elements steady h ne j := by
    obtain ⟨hp, hq⟩ | ⟨hp, hq⟩ := j.elements
    · exact h.elements_eq steady ne hp hq
    · exact (h.elements_eq steady ne hq hp).symm

/-- What a run gives has the value of its types under all that the store admits. -/
lemma Run.eval_result {g : Guess} (run : Run stage n s l r (.ok t) s₁) (wf : s.WellFormed)
    (fits : s.Fits g) {v : Ty} (hl : g.Means s.cells.size l v) (hr : g.Means s.cells.size r v)
    {τ : Nat → Ty} (adm : s₁.Admits g τ) :
    t.Over s₁.cells.size g.idleᶜ ∧ t.eval τ = l.eval τ := by
  obtain ⟨fits₁, means, -⟩ := (run.complete wf fits hl hr).1 t rfl
  have nar := (run.narrows wf s.closed_univ (Ty.over_univ hl.1.1) (Ty.over_univ hr.1.1)).1
  obtain ⟨σ, resp, live⟩ := fits₁.exists_respects (nar.wellFormed wf) adm
  have forced := (run.forces wf hl.1.1 hr.1.1 rfl resp).2
  rw [nar.size_eq]
  refine ⟨means.1, ?_⟩
  rwa [Ty.eval_congr fun w hw => live w (means.1.2 w hw),
    Ty.eval_congr fun w hw => live w (hl.1.2 w hw)] at forced

/-- What was unified on the first of two stores abreast can be unified on the second. The stores stay
abreast, and the results are tied. -/
theorem Abreast.follow (ab : Abreast κ s s') (tl : Tied κ s s' l l') (tr : Tied κ s s' r r')
    (run : Run .types n s l r (.ok t) s₁) (resp : s₁.Respects κ.first.value) {n' out'}
    (run' : Run .types n' s' l' r' out' s₁') :
    (∀ e, out' ≠ .error (.error e)) ∧
      ∀ t', out' = .ok t' → Abreast κ s₁ s₁' ∧ Tied κ s₁ s₁' t t' := by
  have pair : TiedPair κ s s' l r l' r' := .inl ⟨tl, tr⟩
  obtain ⟨⟨v, hl, hr⟩, v', hl', hr'⟩ := ab.means pair run resp
  obtain ⟨total, after⟩ := run'.calm (calm_guided κ) ab.steady (.first ab pair nofun run resp) hl' hr'
  refine ⟨total, fun t' e => ?_⟩
  subst e
  have ab₁ := ab.unify pair run resp run' (after t' rfl)
  have result' {τ : Nat → Ty} (adm : s₁'.Admits κ.second τ) :=
    run'.eval_result ab.steady.wellFormed ab.steady.fits hl' hr' adm
  have result {τ : Nat → Ty} (adm : s₁.Admits κ.first τ) :=
    run.eval_result ab.wellFormed ab.fits hl hr adm
  refine ⟨ab₁, (result (ab₁.fits.respects_under ab₁.wellFormed)).1, (result' ab₁.admits_second).1,
    fun τ adm => ?_⟩
  have before := ((run'.respects_under_iff ab.steady.wellFormed ab.steady.fits hl' hr' rfl).1 adm).1
  rw [(result (ab₁.pull τ adm)).2, (result' adm).2, tl.eq τ before]

end Store

end BMethod
