import BMethod.Proofs.Store.Calm

/-!
# Two stores abreast

The second of two stores knows more than the first: some of its variables are missing, and in their
place stand types that the first has yet to find out. A coupling gives every live variable of the first
store its image in the second. The stores are abreast (`Abreast`) if the images solve what the first store
demands, and every solution of the first that gives the variables with a fixed image this one value comes
from a solution of the second. So the second store is the first with some variables settled, and it holds
no demand that the first does not.

Two types are tied if the image of the one is the other under all that the second store demands (`Tied`).
When tied types are unified on both sides, the stores stay abreast (`Abreast.unify`).
-/

namespace BMethod

open Relation

namespace Ty

/-- Equal values are equal at every variable. -/
lemma eq_of_eval_eq {σ τ : Nat → Ty} {t : Ty} (h : t.eval σ = t.eval τ) : ∀ v ∈ t.vars, σ v = τ v := by
  induction t with
  | var v => simpa [vars, eval] using h
  | set t ih | setOrInteger t ih =>
    simp only [eval, set.injEq, setOrInteger.injEq] at h
    exact ih h
  | couple l r ihl ihr | integerOrPairs l r ihl ihr =>
    simp only [eval, couple.injEq, integerOrPairs.injEq] at h
    intro v hv
    exact (List.mem_append.1 hv).elim (ihl h.1 v) (ihr h.2 v)
  | record fields ih =>
    simp only [eval, evalFields_eq_map, record.injEq] at h
    intro v hv
    simp only [vars, mem_fieldVars] at hv
    obtain ⟨f, hf, hv⟩ := hv
    have := List.map_inj_left.1 h f hf
    exact ih f hf (Prod.mk.inj this).2 v hv
  | _ => simp [vars]

/-- A type that is no variable does not have every value. -/
lemma exists_ne_eval {t : Ty} (nonvar : ∀ w, t ≠ .var w) : ∃ c : Ty, ∀ σ, c ≠ t.eval σ := by
  cases t with
  | var w => exact absurd rfl (nonvar w)
  | integer => exact ⟨.bool, by simp [eval]⟩
  | _ => exact ⟨.integer, by simp [eval]⟩

/-- There is another type. -/
lemma exists_ne (t : Ty) : ∃ c : Ty, c ≠ t := by
  by_cases h : t = .integer
  · exact ⟨.bool, by simp [h]⟩
  · exact ⟨.integer, Ne.symm h⟩

end Ty

/-- Guesses for two stores, and what stands in the second for the variables of the first. -/
structure Coupling where
  first : Guess
  image : Nat → Ty
  second : Guess

/-- The values of the images of variables. -/
def Coupling.pull (κ : Coupling) (τ : Nat → Ty) (v : Nat) : Ty := (κ.image v).eval τ

namespace Store

variable {κ : Coupling} {s s' s₁ s₁' : Store} {t t' u u' l r l' r' : Ty}

/-! ## Known and tied. -/

/-- The image of the variable has one value under all that the second store demands. -/
def Known (κ : Coupling) (s' : Store) (v : Nat) : Prop :=
  ∀ τ, s'.Admits κ.second τ → κ.pull τ v = κ.first.value v

/-- The type has one value under all that the second store demands. -/
def Rigid (κ : Coupling) (s' : Store) (t' : Ty) : Prop :=
  ∀ τ, s'.Admits κ.second τ → t'.eval τ = t'.eval κ.second.value

/-- The image of the one type is the other. -/
structure Tied (κ : Coupling) (s s' : Store) (t t' : Ty) : Prop where
  left : t.Over s.cells.size κ.first.idleᶜ
  right : t'.Over s'.cells.size κ.second.idleᶜ
  eq : ∀ τ, s'.Admits κ.second τ → t.eval (κ.pull τ) = t'.eval τ

/-- The second store is the first with some variables settled. -/
structure Abreast (κ : Coupling) (s s' : Store) : Prop where
  wellFormed : s.WellFormed
  fits : s.Fits κ.first
  steady : s'.Steady κ.second
  scope : ∀ v, s.Live κ.first v → (κ.image v).Over s'.cells.size κ.second.idleᶜ
  value : ∀ v, s.Live κ.first v → κ.pull κ.second.value v = κ.first.value v
  pull : ∀ τ, s'.Admits κ.second τ → s.Admits κ.first (κ.pull τ)
  push : ∀ τ, s.Admits κ.first τ → (∀ v, s.Live κ.first v → s'.Known κ v → τ v = κ.first.value v) →
    ∃ τ', s'.Admits κ.second τ' ∧ ∀ v, s.Live κ.first v → τ v = κ.pull τ' v
  /-- The choices that are left in the second store are choices of the first, with the same elements. -/
  marks : ∀ v', ∀ e' ∈ (s'.cell v').elements, ∃ w, ∃ e ∈ (s.cell w).elements, w ∉ κ.first.idle ∧
    (∀ τ, s'.Admits κ.second τ → κ.pull τ w = τ v') ∧
      e.eval κ.first.value = e'.eval κ.second.value

namespace Tied

lemma set_iff : Tied κ s s' (.set t) (.set t') ↔ Tied κ s s' t t' := by
  constructor
  · rintro ⟨hl, hr, eq⟩
    exact ⟨Ty.over_set.1 hl, Ty.over_set.1 hr, fun τ h => by simpa [Ty.eval] using eq τ h⟩
  · rintro ⟨hl, hr, eq⟩
    exact ⟨Ty.over_set.2 hl, Ty.over_set.2 hr, fun τ h => by simpa [Ty.eval] using eq τ h⟩

lemma couple_iff : Tied κ s s' (.couple l r) (.couple l' r') ↔ Tied κ s s' l l' ∧ Tied κ s s' r r' := by
  constructor
  · rintro ⟨hl, hr, eq⟩
    rw [Ty.over_couple] at hl hr
    simp only [Ty.eval, Ty.couple.injEq] at eq
    exact ⟨⟨hl.1, hr.1, fun τ h => (eq τ h).1⟩, hl.2, hr.2, fun τ h => (eq τ h).2⟩
  · rintro ⟨⟨hl, hl', el⟩, hr, hr', er⟩
    exact ⟨Ty.over_couple.2 ⟨hl, hr⟩, Ty.over_couple.2 ⟨hl', hr'⟩,
      fun τ h => by rw [Ty.eval, Ty.eval, el τ h, er τ h]⟩

end Tied

/-- The variables of a steady store that are not bound may have any values. -/
lemma Steady.exists_admits {g : Guess} (steady : s.Steady g) (f : Nat → Ty) :
    ∃ τ, s.Admits g τ ∧ ∀ v, (s.cell v).Unbound → τ v = f v := by
  obtain ⟨τ, adm, val⟩ := (steady.wellFormed.under g).exists_respects f
  exact ⟨τ, adm, fun v hv => val v (steady.unbound_under hv)⟩

/-- A variable that is not bound has several values. -/
lemma Steady.not_rigid (steady : s'.Steady κ.second) {v' : Nat} (hv' : (s'.cell v').Unbound) :
    ¬ s'.Rigid κ (.var v') := by
  intro rigid
  obtain ⟨c, ne⟩ := Ty.exists_ne (κ.second.value v')
  obtain ⟨τ, adm, val⟩ := steady.exists_admits fun _ => c
  have := rigid τ adm
  rw [Ty.eval, Ty.eval, val v' hv'] at this
  exact ne this

/-- What always has the value of a variable that is not bound is a variable itself. -/
lemma Steady.exists_var {g : Guess} (steady : s.Steady g) {f : (Nat → Ty) → Nat → Ty} {v : Nat}
    (hv : (s.cell v).Unbound) (eq : ∀ τ, s.Admits g τ → t.eval (f τ) = τ v) : ∃ x, t = .var x := by
  by_contra nonvar
  obtain ⟨c, hc⟩ := Ty.exists_ne_eval fun x e => nonvar ⟨x, e⟩
  obtain ⟨τ, adm, val⟩ := steady.exists_admits fun _ => c
  exact hc _ ((val v hv).symm.trans (eq τ adm).symm)

namespace Abreast

variable (ab : Abreast κ s s')

include ab

/-- The values of the second guess are admitted by the second store. -/
lemma admits_second : s'.Admits κ.second κ.second.value :=
  ab.steady.fits.respects_under ab.steady.wellFormed

/-- A live variable is tied to its image. -/
lemma tied_var {v : Nat} (hv : s.Live κ.first v) : Tied κ s s' (.var v) (κ.image v) :=
  ⟨Ty.over_var.2 hv, ab.scope v hv, fun _ _ => rfl⟩

/-- Tied types have one value under the guesses. -/
lemma eval_eq (h : Tied κ s s' t t') : t.eval κ.first.value = t'.eval κ.second.value := by
  rw [← h.eq _ ab.admits_second]
  exact (Ty.eval_congr fun v hv => ab.value v (live_of_over h.left hv)).symm

/-- The heads of tied types are tied. -/
lemma tied_head? (h : Tied κ s s' t t') (e : s.head? t = some u) (e' : s'.head? t' = some u') :
    Tied κ s s' u u' where
  left := (ab.fits.means_head? ab.wellFormed e ⟨h.left, rfl⟩).1
  right := (ab.steady.fits.means_head? ab.steady.wellFormed e' ⟨h.right, rfl⟩).1
  eq τ adm := by
    rw [ab.fits.eval_head? ab.wellFormed (ab.pull τ adm) e ⟨h.left, rfl⟩,
      ab.steady.fits.eval_head? ab.steady.wellFormed adm e' ⟨h.right, rfl⟩, h.eq τ adm]

/-! ### Choosing solutions. -/

/-- What a known variable is pinned to mentions known variables. -/
lemma known_of_edge {v w : Nat} (known : s'.Known κ v) (e : (s.under κ.first).Edge v w) :
    s'.Known κ w := by
  obtain ⟨t, ht, hw⟩ := Cell.mem_mentions.1 e
  obtain ⟨hv, pin⟩ := mem_contents_under.1 ht
  intro τ adm
  have value : t.eval (κ.pull τ) = t.eval κ.first.value := by
    rw [← respects_under.1 (ab.pull τ adm) v hv t pin, known τ adm]
    exact respects_under.1 (ab.fits.respects_under ab.wellFormed) v hv t pin
  exact Ty.eq_of_eval_eq value w hw

/-- Values for the unpinned variables of the first store come from a solution of the second, if the known
ones have theirs. -/
lemma choose (f : Nat → Ty) (hf : ∀ v, s.Live κ.first v → ((s.under κ.first).cell v).Unbound →
      s'.Known κ v → f v = κ.first.value v) :
    ∃ τ, s'.Admits κ.second τ ∧
      ∀ v, s.Live κ.first v → ((s.under κ.first).cell v).Unbound → κ.pull τ v = f v := by
  have wf := ab.wellFormed.under κ.first
  obtain ⟨σ, adm, val⟩ := wf.exists_respects f
  obtain ⟨τ, adm', same⟩ := ab.push σ adm fun v hv known => by
    induction v using wf.acyclic.wellFounded.induction with
    | _ v ih =>
      obtain unbound | ⟨t, hc⟩ := unbound_or_bound ((s.under κ.first).cell v)
      · rw [val v unbound, hf v hv unbound known]
      · rw [adm v t hc, ab.fits.respects_under ab.wellFormed v t hc]
        refine Ty.eval_congr fun w hw => ?_
        have e : (s.under κ.first).Edge v w := by simpa [Edge, hc] using hw
        exact ih w e ⟨by simpa [size_under] using wf.edge_lt e,
          ab.fits.closed_under ab.wellFormed v hv.2 w e⟩ (ab.known_of_edge known e)
  exact ⟨τ, adm', fun v hv unbound => by rw [← same v hv, val v unbound]⟩

/-- A variable that nothing pins down is known if it is tied to a type that is no variable. -/
lemma known_of_nonvar {x : Nat} (hx : ((s.under κ.first).cell x).Unbound)
    (h : Tied κ s s' (.var x) t') (nonvar : ∀ w, t' ≠ .var w) : s'.Known κ x := by
  by_contra unknown
  obtain ⟨c, hc⟩ := Ty.exists_ne_eval nonvar
  obtain ⟨τ, adm, val⟩ := ab.choose (Function.update κ.first.value x c) fun v _ _ known => by
    rw [Function.update_of_ne]
    rintro rfl
    exact unknown known
  refine hc τ ?_
  rw [← h.eq τ adm, Ty.eval, val x (Ty.over_var.1 h.left) hx, Function.update_self]

/-- What is tied to a known variable is rigid. -/
lemma rigid_of_known {x : Nat} (known : s'.Known κ x) (h : Tied κ s s' (.var x) t') :
    s'.Rigid κ t' := by
  intro τ adm
  rw [← h.eq τ adm, ← ab.eval_eq h]
  exact known τ adm

/-- What is tied to a variable that is not bound leads to a variable that nothing pins down. -/
lemma unknown_of_var {x v' : Nat} (hv' : (s'.cell v').Unbound) (h : Tied κ s s' (.var x) (.var v')) :
    ¬ s'.Known κ x :=
  fun known => ab.steady.not_rigid hv' (ab.rigid_of_known known h)

/-- At most one variable that nothing pins down is tied to a variable that is not bound. -/
lemma eq_of_tied {x y v' : Nat} (hx : ((s.under κ.first).cell x).Unbound)
    (hy : ((s.under κ.first).cell y).Unbound) (hv' : (s'.cell v').Unbound)
    (tx : Tied κ s s' (.var x) (.var v')) (ty : Tied κ s s' (.var y) (.var v')) : x = y := by
  by_contra ne
  obtain ⟨c, hc⟩ := Ty.exists_ne (κ.first.value x)
  obtain ⟨τ, adm, val⟩ := ab.choose (Function.update κ.first.value x c) fun v _ _ known => by
    rw [Function.update_of_ne]
    rintro rfl
    exact ab.unknown_of_var hv' tx known
  have ex := tx.eq τ adm
  have ey := ty.eq τ adm
  have same : κ.first.value x = κ.first.value y := (ab.eval_eq tx).trans (ab.eval_eq ty).symm
  rw [Ty.eval, val x (Ty.over_var.1 tx.left) hx, Function.update_self] at ex
  rw [Ty.eval, val y (Ty.over_var.1 ty.left) hy, Function.update_of_ne (Ne.symm ne), ← same, ← ex] at ey
  exact hc ey.symm

end Abreast

/-! ## Steps. -/

/-- The valuations that a store admits depend on live variables only. -/
lemma Fits.admits_congr {g : Guess} (fits : s.Fits g) (wf : s.WellFormed) {σ τ : Nat → Ty}
    (same : ∀ v, s.Live g v → σ v = τ v) (adm : s.Admits g σ) : s.Admits g τ := by
  refine Store.respects_under.2 fun v hv t pin => ?_
  have lt : v < s.cells.size := by
    by_contra le
    rw [cell_of_size_le (by omega)] at pin
    cases pin
  rw [← same v ⟨lt, hv⟩, Store.respects_under.1 adm v hv t pin]
  exact Ty.eval_congr fun w hw => same w (live_of_over (fits.means_pinned wf hv pin).1 hw)

/-- The second store is the first after some unification that adds one demand. -/
structure Absorbs (g : Guess) (E : (Nat → Ty) → Prop) (s s₁ : Store) : Prop where
  wellFormed : s₁.WellFormed
  fits : s₁.Fits g
  size : s₁.cells.size = s.cells.size
  cell : ∀ v, (s₁.cell v).Unbound → s₁.cell v = s.cell v
  keeps : s.Keeps s₁
  follows : s₁.Respects g.value → Follows g.value s s₁
  admits_iff : ∀ τ, s₁.Admits g τ ↔ s.Admits g τ ∧ E τ

namespace Absorbs

variable {g : Guess} {E E' : (Nat → Ty) → Prop}

lemma refl (wf : s.WellFormed) (fits : s.Fits g) : Absorbs g (fun _ => True) s s where
  wellFormed := wf
  fits := fits
  size := rfl
  cell _ _ := rfl
  keeps _ _ := id
  follows _ := .refl _ _
  admits_iff _ := (and_iff_left trivial).symm

lemma trans {s₂ : Store} (h : Absorbs g E s s₁) (h' : Absorbs g E' s₁ s₂) :
    Absorbs g (fun τ => E τ ∧ E' τ) s s₂ where
  wellFormed := h'.wellFormed
  fits := h'.fits
  size := h'.size.trans h.size
  cell v hv := by
    have e := h'.cell v hv
    rw [e, h.cell v (e ▸ hv)]
  keeps v t hc := h'.keeps v t (h.keeps v t hc)
  follows resp := (h.follows (resp.of_keeps h'.keeps)).trans (h'.follows resp) h.wellFormed
    h'.wellFormed h'.keeps
  admits_iff τ := by rw [h'.admits_iff, h.admits_iff, and_assoc]

/-- A successful run adds the equation of its types. -/
lemma of_run {stage n t} (run : Run stage n s l r (.ok t) s₁) (wf : s.WellFormed) (fits : s.Fits g)
    {u : Ty} (hl : g.Means s.cells.size l u) (hr : g.Means s.cells.size r u) :
    Absorbs g (fun τ => l.eval τ = r.eval τ) s s₁ := by
  have nar := (run.narrows wf s.closed_univ (Ty.over_univ hl.1.1) (Ty.over_univ hr.1.1)).1
  exact ⟨nar.wellFormed wf, ((run.complete wf fits hl hr).1 t rfl).1, nar.size_eq,
    fun _ => nar.cell_of_unbound, nar.keeps, run.follows wf hl.1.1 hr.1.1 rfl,
    fun τ => run.respects_under_iff wf fits hl hr rfl⟩

lemma live_iff (h : Absorbs g E s s₁) {v : Nat} : s₁.Live g v ↔ s.Live g v := by
  rw [Live, Live, h.size]

end Absorbs

lemma Known.mono {v : Nat} (known : s'.Known κ v)
    (adm : ∀ τ, s₁'.Admits κ.second τ → s'.Admits κ.second τ) : s₁'.Known κ v :=
  fun τ h => known τ (adm τ h)

lemma Rigid.mono (rigid : s'.Rigid κ t') (adm : ∀ τ, s₁'.Admits κ.second τ → s'.Admits κ.second τ) :
    s₁'.Rigid κ t' := fun τ h => rigid τ (adm τ h)

section

variable {E E' : (Nat → Ty) → Prop}

lemma Tied.mono (h : Tied κ s s' t t') (step : Absorbs κ.first E s s₁)
    (step' : Absorbs κ.second E' s' s₁') : Tied κ s₁ s₁' t t' where
  left := by
    rw [step.size]
    exact h.left
  right := by
    rw [step'.size]
    exact h.right
  eq τ adm := h.eq τ ((step'.admits_iff τ).1 adm).1

/-- Stores stay abreast under unification that adds demands with one meaning, apart from what follows from
the second store, and from what holds of known variables. -/
theorem Abreast.step (ab : Abreast κ s s') (step : Absorbs κ.first E s s₁)
    (step' : Absorbs κ.second E' s' s₁') (steady : s₁'.Steady κ.second)
    (resp : s₁.Respects κ.first.value) (sound : ∀ τ, s₁'.Admits κ.second τ → E (κ.pull τ))
    (complete : ∀ τ, s'.Admits κ.second τ → E (κ.pull τ) →
      (∀ v, s.Live κ.first v → s₁'.Known κ v → κ.pull τ v = κ.first.value v) → E' τ) :
    Abreast κ s₁ s₁' := by
  have before (τ : Nat → Ty) (h : s₁'.Admits κ.second τ) : s'.Admits κ.second τ :=
    ((step'.admits_iff τ).1 h).1
  have pull (τ : Nat → Ty) (h : s₁'.Admits κ.second τ) : s₁.Admits κ.first (κ.pull τ) :=
    (step.admits_iff _).2 ⟨ab.pull τ (before τ h), sound τ h⟩
  refine ⟨step.wellFormed, step.fits, steady, fun v hv => ?_,
    fun v hv => ab.value v (step.live_iff.1 hv), pull, fun τ adm known => ?_, fun v' e' he' => ?_⟩
  · rw [step'.size]
    exact ab.scope v (step.live_iff.1 hv)
  · have adm₀ := ((step.admits_iff τ).1 adm).1
    obtain ⟨τ', adm', same⟩ := ab.push τ adm₀ fun v hv k =>
      known v (step.live_iff.2 hv) (k.mono before)
    have demand : E (κ.pull τ') := by
      refine ((step.admits_iff _).1 (step.fits.admits_congr step.wellFormed (fun v hv => ?_) adm)).2
      exact same v (step.live_iff.1 hv)
    refine ⟨τ', (step'.admits_iff τ').2 ⟨adm', complete τ' adm' demand fun v hv k => ?_⟩,
      fun v hv => same v (step.live_iff.1 hv)⟩
    rw [← same v hv]
    exact known v (step.live_iff.2 hv) k
  · -- The mark of a choice that is left leads to a choice with the same elements.
    have unbound := Cell.unbound_of_mem_elements he'
    rw [step'.cell v' unbound] at he'
    obtain ⟨w, e, he, hw, tied, eq⟩ := ab.marks v' e' he'
    obtain ⟨u, hu⟩ := step.wellFormed.acyclic.exists_head? (.var w)
    have lw : w < s₁.cells.size := by
      rw [step.size]
      exact lt_size_of_cell_ne fun h => by simp [h, Cell.elements] at he
    have means : κ.first.Means s₁.cells.size (.var w) (κ.first.value w) :=
      ⟨Ty.over_var.2 ⟨lw, hw⟩, rfl⟩
    have head (τ : Nat → Ty) (h : s₁'.Admits κ.second τ) : u.eval (κ.pull τ) = τ v' := by
      rw [step.fits.eval_head? step.wellFormed (pull τ h) hu means, ← tied τ (before τ h)]
      rfl
    obtain ⟨z, rfl⟩ := steady.exists_var unbound head
    obtain ⟨e₁, he₁, eq₁⟩ := step.follows resp w e he z hu
    exact ⟨z, e₁, he₁, (Ty.over_var.1 (step.fits.means_head? step.wellFormed hu means).1).2, head,
      eq₁.trans eq⟩

end

/-- Two types are tied to two others, in their order or in the other. -/
def TiedPair (κ : Coupling) (s s' : Store) (l r l' r' : Ty) : Prop :=
  Tied κ s s' l l' ∧ Tied κ s s' r r' ∨ Tied κ s s' l r' ∧ Tied κ s s' r l'

lemma TiedPair.swap (h : TiedPair κ s s' l r l' r') : TiedPair κ s s' l r r' l' := h.symm

lemma TiedPair.flip (h : TiedPair κ s s' l r l' r') : TiedPair κ s s' r l l' r' :=
  h.elim (fun h => .inr h.symm) fun h => .inl h.symm

/-- One pair has one value exactly if the other does. -/
lemma TiedPair.eq_iff (h : TiedPair κ s s' l r l' r') {τ : Nat → Ty} (adm : s'.Admits κ.second τ) :
    l.eval (κ.pull τ) = r.eval (κ.pull τ) ↔ l'.eval τ = r'.eval τ := by
  obtain ⟨tl, tr⟩ | ⟨tl, tr⟩ := h
  · rw [tl.eq τ adm, tr.eq τ adm]
  · rw [tl.eq τ adm, tr.eq τ adm, eq_comm]

lemma TiedPair.over (h : TiedPair κ s s' l r l' r') :
    (l.Over s.cells.size κ.first.idleᶜ ∧ r.Over s.cells.size κ.first.idleᶜ) ∧
      l'.Over s'.cells.size κ.second.idleᶜ ∧ r'.Over s'.cells.size κ.second.idleᶜ := by
  obtain ⟨tl, tr⟩ | ⟨tl, tr⟩ := h
  · exact ⟨⟨tl.left, tr.left⟩, tl.right, tr.right⟩
  · exact ⟨⟨tl.left, tr.left⟩, tr.right, tl.right⟩

lemma TiedPair.mono {E E' : (Nat → Ty) → Prop} (h : TiedPair κ s s' l r l' r')
    (step : Absorbs κ.first E s s₁) (step' : Absorbs κ.second E' s' s₁') :
    TiedPair κ s₁ s₁' l r l' r' :=
  h.imp (fun h => ⟨h.1.mono step step', h.2.mono step step'⟩)
    fun h => ⟨h.1.mono step step', h.2.mono step step'⟩

/-- Types that were unified have one value, and so have those tied to them. -/
lemma Abreast.means (ab : Abreast κ s s') (pair : TiedPair κ s s' l r l' r') {stage n}
    (run : Run stage n s l r (.ok t) s₁) (resp : s₁.Respects κ.first.value) :
    (∃ v, κ.first.Means s.cells.size l v ∧ κ.first.Means s.cells.size r v) ∧
      ∃ v, κ.second.Means s'.cells.size l' v ∧ κ.second.Means s'.cells.size r' v := by
  have ⟨⟨ol, or⟩, ol', or'⟩ := pair.over
  have eq := (run.forces ab.wellFormed ol.1 or.1 rfl resp).1
  refine ⟨⟨_, ⟨ol, rfl⟩, or, eq.symm⟩, _, ⟨ol', rfl⟩, or', ?_⟩
  obtain ⟨tl, tr⟩ | ⟨tl, tr⟩ := pair
  · rw [← ab.eval_eq tl, ← ab.eval_eq tr, eq]
  · rw [← ab.eval_eq tl, ← ab.eval_eq tr, eq]

/-- Stores stay abreast when tied types are unified. -/
theorem Abreast.unify (ab : Abreast κ s s') (pair : TiedPair κ s s' l r l' r') {stage n stage' n'}
    (run : Run stage n s l r (.ok t) s₁) (resp : s₁.Respects κ.first.value)
    (run' : Run stage' n' s' l' r' (.ok t') s₁') (steady : s₁'.Steady κ.second) :
    Abreast κ s₁ s₁' := by
  obtain ⟨⟨v, hl, hr⟩, v', hl', hr'⟩ := ab.means pair run resp
  have step' := Absorbs.of_run run' ab.steady.wellFormed ab.steady.fits hl' hr'
  refine ab.step (.of_run run ab.wellFormed ab.fits hl hr) step' steady resp (fun τ adm => ?_)
    fun τ adm eq _ => (pair.eq_iff adm).1 eq
  obtain ⟨adm, eq⟩ := (step'.admits_iff τ).1 adm
  exact (pair.eq_iff adm).2 eq

end Store

end BMethod
