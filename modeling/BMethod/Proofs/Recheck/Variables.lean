import BMethod.Proofs.Recheck.Links
import BMethod.Proofs.Store.Allocate

/-!
# New variables of unifiers abreast

Two unifiers stay abreast when variables are allocated: one on each of which nothing is known, or which
await the same choice and are read as the integers (`Abreast.allocate`); or one on the first alone, for
which something stands in the second that is settled or tied to what the variable is pinned to
(`Abreast.allocate_first`).
-/

namespace BMethod

/-- The second coupling says the same about the first `k` variables of the first store and the first `k'`
of the second. -/
structure Coupling.Extends (k k' : Nat) (κ κ₁ : Coupling) : Prop where
  first : κ.first.Extends k κ₁.first
  image : ∀ v < k, κ₁.image v = κ.image v
  second : κ.second.Extends k' κ₁.second

open Classical in
/-- A coupling with one more variable of the first store. -/
noncomputable def Coupling.push (κ : Coupling) (k : Nat) (value : Ty) (idle : Prop) (image : Ty)
    (second : Guess) : Coupling :=
  ⟨κ.first.push k value idle, Function.update κ.image k image, second⟩

lemma Coupling.extends_push {k' : Nat} (κ : Coupling) (k : Nat) (value : Ty) (idle : Prop) (image : Ty)
    {second : Guess} (ext : κ.second.Extends k' second) :
    κ.Extends k k' (κ.push k value idle image second) where
  first := κ.first.extends_push k value idle
  image v hv := Function.update_of_ne (by omega) _ _
  second := ext

namespace Coupling.Extends

variable {κ κ₁ : Coupling} {k k' v : Nat}

lemma pull_eq (ext : κ.Extends k k' κ₁) (hv : v < k) (τ : Nat → Ty) : κ₁.pull τ v = κ.pull τ v := by
  rw [pull, ext.image v hv, pull]

lemma eval_pull (ext : κ.Extends k k' κ₁) {t : Ty} (scope : t.Scoped k) (τ : Nat → Ty) :
    t.eval (κ₁.pull τ) = t.eval (κ.pull τ) :=
  Ty.eval_congr fun _ hv => ext.pull_eq (scope.lt hv) τ

end Coupling.Extends

/-- A new variable with the value that it has already. -/
lemma Guess.push_self (g : Guess) (k : Nat) (idle : Prop) : (g.push k (g.value k) idle).value = g.value := by
  funext v
  simp only [push]
  split <;> simp_all

/-- Live types stay live and keep their values. -/
lemma Guess.Extends.over {g g' : Guess} {k k' : Nat} {t : Ty} (ext : g.Extends k g') (le : k ≤ k')
    (h : t.Over k g.idleᶜ) : t.Over k' g'.idleᶜ ∧ t.eval g'.value = t.eval g.value :=
  Guess.Means.extend (g := g) ⟨h, rfl⟩ ext le

/-- Idle types stay idle. -/
lemma Guess.Extends.idle {g g' : Guess} {k k' : Nat} {t : Ty} (ext : g.Extends k g') (le : k ≤ k')
    (h : t.Over k g.idle) : t.Over k' g'.idle :=
  ⟨h.1.mono le, fun v hv => (ext v (h.1.lt hv)).2.2 (h.2 v hv)⟩

namespace Cell

variable {c : Cell} {t : Ty}

/-- What is scoped as soon as that is to which a cell pins its variable. -/
lemma scoped_of_pins {k : Nat} {value : Ty} (h : c.pins? value = some t) (scope : t.Scoped k) :
    ∀ u ∈ c.contents, u.Scoped k := by
  cases c with
  | free => cases h
  | bound u =>
    cases h
    simpa [contents] using scope
  | setOrInteger e =>
    simp only [pins?, Option.ite_none_left_eq_some] at h
    obtain ⟨-, ⟨⟩⟩ := h
    exact List.forall_mem_singleton.2 scope
  | integerOrPairs l r =>
    simp only [pins?, Option.ite_none_left_eq_some] at h
    obtain ⟨-, ⟨⟩⟩ := h
    exact List.forall_mem_cons.2 ⟨scope.1, List.forall_mem_singleton.2 scope.2⟩

/-- A guess that gives a variable the value of what it is pinned to fits its cell. -/
lemma fits_of_pins {g : Guess} {v : Nat} (h : c.pins? (g.value v) = some t)
    (value : t.eval g.value = g.value v) (live : ∀ w ∈ t.vars, w ∉ g.idle) : c.Fits g v := by
  cases c with
  | free => cases h
  | bound u =>
    cases h
    exact ⟨value.symm, live⟩
  | setOrInteger e | integerOrPairs l r =>
    simp only [pins?, Option.ite_none_left_eq_some] at h
    obtain ⟨-, ⟨⟩⟩ := h
    exact .inr ⟨value.symm, live⟩

end Cell

namespace Store

variable {κ κ₁ : Coupling} {s s' s₁ s₁' : Store} {c c' : Cell} {g g' : Guess} {t t' : Ty}
  {τ : Nat → Ty}

/-- What a store with one more variable admits under an extended guess. -/
lemma admits_allocate (ext : g.Extends s.cells.size g') :
    (s.allocate c).2.Admits g' τ ↔ s.Admits g τ ∧ (s.cells.size ∉ g'.idle →
      ∀ t, c.pins? (g'.value s.cells.size) = some t → τ s.cells.size = t.eval τ) := by
  have lt {v : Nat} {t value : Ty} (pin : (s.cell v).pins? value = some t) : v < s.cells.size :=
    lt_size_of_cell_ne fun free => by simp [free, Cell.pins?] at pin
  simp only [Admits, respects_under, cell_allocate]
  constructor
  · intro h
    refine ⟨fun v hv t pin => ?_, fun live t pin => h _ live t (by simpa using pin)⟩
    have old := ext v (lt pin)
    refine h v (fun idle => hv (old.2.1 idle)) t ?_
    rwa [if_neg (by have := lt pin; omega), old.1]
  · rintro ⟨h, new⟩ v hv t pin
    split at pin
    · rename_i e
      subst e
      exact new hv t pin
    · have old := ext v (lt pin)
      rw [old.1] at pin
      exact h v (fun idle => hv (old.2.2 idle)) t pin

/-- A store stays steady with a variable that is not bound, if a choice that it awaits is read as the
integers. -/
lemma Steady.allocate (steady : s.Steady g) (ext : g.Extends s.cells.size g') (unbound : c.Unbound)
    (scope : ∀ t ∈ c.contents, t.Scoped s.cells.size) (fits : (s.allocate c).2.Fits g')
    (integer : Awaits c → s.cells.size ∉ g'.idle ∧ g'.value s.cells.size = .integer) :
    (s.allocate c).2.Steady g' where
  wellFormed := steady.wellFormed.allocate scope
  fits := fits
  respects v t hc := by
    rw [cell_allocate] at hc
    split at hc
    · exact absurd hc (unbound t)
    · have lt : v < s.cells.size := lt_size_of_cell_ne (by simp [hc])
      rw [(ext v lt).1, steady.respects v t hc]
      have within := steady.wellFormed.within v t (by simp [hc, Cell.contents])
      exact Ty.eval_congr fun w hw => ((ext w (within.lt hw)).1).symm
  integer v wait := by
    rw [cell_allocate] at wait
    split at wait
    · rename_i e
      subst e
      exact integer wait
    · have lt : v < s.cells.size := lt_size_of_cell_ne fun free => by
        rw [free] at wait
        cases wait
      obtain ⟨live, value⟩ := steady.integer v wait
      exact ⟨fun idle => live ((ext v lt).2.1 idle), (ext v lt).1.trans value⟩

/-- What is tied stays tied when variables are added. -/
lemma Ties.grow (ext : κ.Extends s.cells.size s'.cells.size κ₁) (le : s.cells.size ≤ s₁.cells.size)
    (le' : s'.cells.size ≤ s₁'.cells.size)
    (before : ∀ τ, s₁'.Admits κ₁.second τ → s'.Admits κ.second τ) : Ties κ s s' κ₁ s₁ s₁' :=
  fun _ _ h => ⟨(ext.first.over le h.left).1, (ext.second.over le' h.right).1,
    fun τ adm => (ext.eval_pull h.left.1 τ).trans (h.eq τ (before τ adm))⟩

/-- Stores stay abreast when the first gets a variable whose image has what the second demands of it, and
that takes in the second store no more values than it may. -/
theorem Abreast.grow (ab : Abreast κ s s') (ext : κ.Extends s.cells.size s'.cells.size κ₁)
    (scope : ∀ t ∈ c.contents, t.Scoped s.cells.size) (fits : (s.allocate c).2.Fits κ₁.first)
    (steady : s₁'.Steady κ₁.second) (le' : s'.cells.size ≤ s₁'.cells.size)
    (before : ∀ τ, s₁'.Admits κ₁.second τ → s'.Admits κ.second τ)
    (image : s.cells.size ∉ κ₁.first.idle →
      (κ₁.image s.cells.size).Over s₁'.cells.size κ₁.second.idleᶜ ∧
        κ₁.pull κ₁.second.value s.cells.size = κ₁.first.value s.cells.size ∧
          ∀ t, c.pins? (κ₁.first.value s.cells.size) = some t → ∀ τ, s₁'.Admits κ₁.second τ →
            κ₁.pull τ s.cells.size = t.eval (κ₁.pull τ))
    (push : ∀ τ, (s.allocate c).2.Admits κ₁.first τ →
      (s.cells.size ∉ κ₁.first.idle → s₁'.Known κ₁ s.cells.size →
        τ s.cells.size = κ₁.first.value s.cells.size) →
      ∀ τ', s'.Admits κ.second τ' → (∀ v, s.Live κ.first v → τ v = κ.pull τ' v) →
        ∃ τ₁, s₁'.Admits κ₁.second τ₁ ∧ (∀ v < s'.cells.size, τ₁ v = τ' v) ∧
          (s.cells.size ∉ κ₁.first.idle → τ s.cells.size = κ₁.pull τ₁ s.cells.size))
    (marks : ∀ v', ∀ e' ∈ (s₁'.cell v').elements, e' ∈ (s'.cell v').elements ∨
      s.cells.size ∉ κ₁.first.idle ∧ (∀ τ, κ₁.pull τ s.cells.size = τ v') ∧
        ∃ e ∈ c.elements, e.eval κ₁.first.value = e'.eval κ₁.second.value) :
    Abreast κ₁ (s.allocate c).2 s₁' := by
  have size := s.size_allocate c
  have split {v : Nat} (hv : (s.allocate c).2.Live κ₁.first v) :
      v = s.cells.size ∨ v < s.cells.size ∧ s.Live κ.first v := by
    obtain ⟨lt, live⟩ := hv
    obtain e | lt : v = s.cells.size ∨ v < s.cells.size := by omega
    · exact .inl e
    · exact .inr ⟨lt, lt, fun idle => live ((ext.first v lt).2.2 idle)⟩
  have old {v : Nat} (hv : s.Live κ.first v) : (s.allocate c).2.Live κ₁.first v :=
    ⟨by have := hv.1; omega, fun idle => hv.2 ((ext.first v hv.1).2.1 idle)⟩
  refine ⟨ab.wellFormed.allocate scope, fits, steady, fun v hv => ?_, fun v hv => ?_, fun τ adm => ?_,
    fun τ adm known => ?_, fun v' e' he' => ?_⟩
  · obtain rfl | ⟨lt, live⟩ := split hv
    · exact (image hv.2).1
    · rw [ext.image v lt]
      exact (ext.second.over le' (ab.scope v live)).1
  · obtain rfl | ⟨lt, live⟩ := split hv
    · exact (image hv.2).2.1
    · rw [(ext.first v lt).1, ← ab.value v live, ext.pull_eq lt]
      exact (ext.second.over le' (ab.scope v live)).2
  · have adm₀ := ab.pull τ (before τ adm)
    refine (admits_allocate ext.first).2 ⟨?_, fun live t pin => (image live).2.2 t pin τ adm⟩
    exact ab.fits.admits_congr ab.wellFormed (fun v hv => (ext.pull_eq hv.1 τ).symm) adm₀
  · have adm₀ := ((admits_allocate ext.first).1 adm).1
    obtain ⟨τ', adm', same⟩ := ab.push τ adm₀ fun v hv k => by
      rw [known v (old hv) fun τ₁ adm₁ => ?_, (ext.first v hv.1).1]
      rw [ext.pull_eq hv.1, k τ₁ (before τ₁ adm₁), (ext.first v hv.1).1]
    obtain ⟨τ₁, adm₁, same₁, new⟩ := push τ adm
      (fun live k => known _ ⟨by omega, live⟩ k) τ' adm' same
    refine ⟨τ₁, adm₁, fun v hv => ?_⟩
    obtain rfl | ⟨lt, live⟩ := split hv
    · exact new hv.2
    · rw [same v live, ext.pull_eq lt]
      exact Ty.eval_congr fun w hw => (same₁ w ((ab.scope v live).1.lt hw)).symm
  · obtain he' | ⟨live, tied, e, he, eq⟩ := marks v' e' he'
    · obtain ⟨w, e, he, live, tied, eq⟩ := ab.marks v' e' he'
      have lt : w < s.cells.size := lt_size_of_cell_ne fun free => by simp [free, Cell.elements] at he
      refine ⟨w, e, ?_, (old ⟨lt, live⟩).2, fun τ adm => ?_, ?_⟩
      · rwa [cell_allocate, if_neg (by omega)]
      · rw [ext.pull_eq lt, tied τ (before τ adm)]
      · have se := ab.wellFormed.scoped_elements he
        have se' := ab.steady.wellFormed.scoped_elements he'
        rw [Ty.eval_congr fun v hv => (ext.first v (se.lt hv)).1, eq]
        exact (Ty.eval_congr fun v hv => (ext.second v (se'.lt hv)).1).symm
    · exact ⟨s.cells.size, e, by rwa [cell_allocate, if_pos rfl], live, fun τ _ => tied τ, eq⟩

/-- The first store alone gets a variable for which a settled type stands in the second store, or a type
that is tied to what the variable is pinned to. -/
theorem Abreast.allocate_first (ab : Abreast κ s s') {value image : Ty}
    (within : image.Over s'.cells.size κ.second.idleᶜ) (eq : image.eval κ.second.value = value)
    (source : c = .free ∧ s'.Rigid κ image ∨ ∃ t, c.pins? value = some t ∧ Tied κ s s' t image) :
    let κ₁ := κ.push s.cells.size value False image κ.second
    Abreast κ₁ (s.allocate c).2 s' ∧ Ties κ s s' κ₁ (s.allocate c).2 s' ∧
      Tied κ₁ (s.allocate c).2 s' (.var s.cells.size) image := by
  intro κ₁
  have ext : κ.Extends s.cells.size s'.cells.size κ₁ := κ.extends_push _ _ _ _ (.refl _ _)
  have value₁ : κ₁.first.value s.cells.size = value := by simp [κ₁, Coupling.push]
  have image₁ : κ₁.image s.cells.size = image := by simp [κ₁, Coupling.push]
  have live₁ : s.cells.size ∉ κ₁.first.idle := by simp [κ₁, Coupling.push]
  have pull₁ (τ : Nat → Ty) : κ₁.pull τ s.cells.size = image.eval τ := by rw [Coupling.pull, image₁]
  have ties : Ties κ s s' κ₁ (s.allocate c).2 s' :=
    .grow ext (by rw [size_allocate]; omega) le_rfl fun _ h => h
  have scope : ∀ t ∈ c.contents, t.Scoped s.cells.size := by
    obtain ⟨rfl, -⟩ | ⟨t, pin, tied⟩ := source
    · exact List.forall_mem_nil _
    · exact c.scoped_of_pins pin tied.left.1
  have fits : (s.allocate c).2.Fits κ₁.first := by
    refine ab.fits.allocate ab.wellFormed ext.first (fun _ => ?_) fun idle => absurd idle live₁
    obtain ⟨rfl, -⟩ | ⟨t, pin, tied⟩ := source
    · trivial
    · have first := ext.first.over le_rfl tied.left
      refine Cell.fits_of_pins (by rwa [value₁]) ?_ fun w hw => first.1.2 w hw
      rw [value₁, first.2, ab.eval_eq tied, eq]
  have abreast : Abreast κ₁ (s.allocate c).2 s' := by
    refine ab.grow ext scope fits ab.steady le_rfl (fun _ h => h) (fun _ => ?_)
      (fun τ adm known τ' adm' same => ⟨τ', adm', fun _ _ => rfl, fun _ => ?_⟩) fun _ _ h => .inl h
    · rw [image₁, pull₁, value₁]
      refine ⟨within, eq, fun t pin τ adm => ?_⟩
      obtain ⟨rfl, -⟩ | ⟨u, pin', tied⟩ := source
      · cases pin
      · cases pin.symm.trans pin'
        rw [pull₁, ext.eval_pull tied.left.1, tied.eq τ adm]
    · rw [pull₁]
      obtain ⟨-, rigid⟩ | ⟨t, pin, tied⟩ := source
      · rw [known live₁ fun τ adm => ?_, value₁, ← eq, rigid τ' adm']
        rw [pull₁, rigid τ adm, eq, value₁]
      · have demand := ((admits_allocate ext.first).1 adm).2 live₁ t (by rwa [value₁])
        rw [demand, ← tied.eq τ' adm']
        exact Ty.eval_congr fun v hv => same v (live_of_over tied.left hv)
  refine ⟨abreast, ties, ?_⟩
  have tied := abreast.tied_var (v := s.cells.size) ⟨by rw [size_allocate]; omega, live₁⟩
  rwa [image₁] at tied

/-- Each store gets a variable that nothing pins down: a free one, which may be idle, or one that awaits a
choice and is read as the integers, with elements that have one value. -/
theorem Abreast.allocate (ab : Abreast κ s s') {value : Ty} {idle : Prop} (unbound : c'.Unbound)
    (scope : ∀ t ∈ c.contents, t.Scoped s.cells.size)
    (scope' : ∀ t ∈ c'.contents, t.Scoped s'.cells.size)
    (pins : c.pins? value = none) (pins' : c'.pins? value = none)
    (fits : ¬ idle → c.Fits (κ.first.push s.cells.size value idle) s.cells.size)
    (fits' : ¬ idle → c'.Fits (κ.second.push s'.cells.size value idle) s'.cells.size)
    (free : idle → c = .free ∧ c' = .free) (integer : Awaits c' → value = .integer)
    (elements : ∀ e' ∈ c'.elements, ∃ e ∈ c.elements,
      e.eval κ.first.value = e'.eval κ.second.value) :
    let κ₁ := κ.push s.cells.size value idle (.var s'.cells.size)
      (κ.second.push s'.cells.size value idle)
    Abreast κ₁ (s.allocate c).2 (s'.allocate c').2 ∧
      Ties κ s s' κ₁ (s.allocate c).2 (s'.allocate c').2 ∧
      (¬ idle → Tied κ₁ (s.allocate c).2 (s'.allocate c').2 (.var s.cells.size)
        (.var s'.cells.size)) := by
  intro κ₁
  have ext' := κ.second.extends_push s'.cells.size value idle
  have ext : κ.Extends s.cells.size s'.cells.size κ₁ := κ.extends_push _ _ _ _ ext'
  have value₁ : κ₁.first.value s.cells.size = value := by simp [κ₁, Coupling.push]
  have value₁' : κ₁.second.value s'.cells.size = value := by simp [κ₁, Coupling.push]
  have image₁ : κ₁.image s.cells.size = .var s'.cells.size := by simp [κ₁, Coupling.push]
  have live₁ : s.cells.size ∉ κ₁.first.idle ↔ ¬ idle := by simp [κ₁, Coupling.push]
  have live₁' : s'.cells.size ∉ κ₁.second.idle ↔ ¬ idle := by simp [κ₁, Coupling.push]
  have pull₁ (τ : Nat → Ty) : κ₁.pull τ s.cells.size = τ s'.cells.size := by
    rw [Coupling.pull, image₁, Ty.eval]
  have before (τ : Nat → Ty) (adm : (s'.allocate c').2.Admits κ₁.second τ) : s'.Admits κ.second τ :=
    ((admits_allocate ext').1 adm).1
  have size := s.size_allocate c
  have size' := s'.size_allocate c'
  have ties : Ties κ s s' κ₁ (s.allocate c).2 (s'.allocate c').2 := .grow ext (by omega) (by omega) before
  have lead {g : Guess} {k : Nat} (d : Cell) (h : idle → d = .free) (hi : ¬ k ∉ g.idle → idle)
      (mem : k ∈ g.idle) : ∀ w ∈ d.mentions, w ∈ g.idle := by
    rw [h (hi fun h => h mem)]
    exact List.forall_mem_nil _
  have first : (s.allocate c).2.Fits κ₁.first :=
    ab.fits.allocate ab.wellFormed ext.first (fun h => fits (live₁.1 h))
      (lead c (fun h => (free h).1) fun h => not_not.1 (mt live₁.2 h))
  have second : (s'.allocate c').2.Fits κ₁.second :=
    ab.steady.fits.allocate ab.steady.wellFormed ext' (fun h => fits' (live₁'.1 h))
      (lead c' (fun h => (free h).2) fun h => not_not.1 (mt live₁'.2 h))
  have steady : (s'.allocate c').2.Steady κ₁.second := by
    refine ab.steady.allocate ext' unbound scope' second fun wait => ⟨live₁'.2 fun h => ?_, ?_⟩
    · rw [(free h).2] at wait
      cases wait
    · exact value₁'.trans (integer wait)
  have abreast : Abreast κ₁ (s.allocate c).2 (s'.allocate c').2 := by
    refine ab.grow ext scope first steady (by omega) before (fun live => ?_)
      (fun τ adm _ τ' adm' same => ?_) fun v' e' he' => ?_
    · rw [image₁, pull₁, value₁, value₁']
      refine ⟨Ty.over_var.2 ⟨by omega, live₁'.2 (live₁.1 live)⟩, rfl, fun t pin => ?_⟩
      rw [pins] at pin
      cases pin
    · -- The new variable of the second store takes whatever value that of the first has.
      refine ⟨Function.update τ' s'.cells.size (τ s.cells.size), ?_,
        fun v hv => Function.update_of_ne (by omega) _ _, fun _ => ?_⟩
      · refine (admits_allocate ext').2 ⟨?_, fun _ t pin => ?_⟩
        · refine ab.steady.fits.admits_congr ab.steady.wellFormed (fun v hv => ?_) adm'
          exact (Function.update_of_ne (by have := hv.1; omega) _ _).symm
        · rw [Guess.push_value, pins'] at pin
          cases pin
      · rw [pull₁, Function.update_self]
    · rw [cell_allocate] at he'
      split at he'
      · rename_i e
        subst e
        obtain ⟨e, he, eq⟩ := elements e' he'
        refine .inr ⟨live₁.2 fun h => ?_, pull₁, e, he, ?_⟩
        · rw [(free h).2] at he'
          cases he'
        · have se := Cell.scoped_of_mem_elements scope he
          have se' := Cell.scoped_of_mem_elements scope' he'
          rw [Ty.eval_congr fun v hv => (ext.first v (se.lt hv)).1, eq]
          exact (Ty.eval_congr fun v hv => (ext' v (se'.lt hv)).1).symm
      · exact .inl he'
  refine ⟨abreast, ties, fun live => ?_⟩
  have tied := abreast.tied_var (v := s.cells.size) ⟨by omega, live₁.2 live⟩
  rwa [image₁] at tied

end Store

/-- Unifiers stay abreast when variables are added to their stores. -/
lemma Unifier.Abreast.extend {κ κ₁ : Coupling} {u u' : Unifier} {s₁ s₁' : Store} (ab : u.Abreast κ u')
    (ext : κ.Extends u.store.cells.size u'.store.cells.size κ₁) (store : s₁.Abreast κ₁ s₁')
    (le : u.store.cells.size ≤ s₁.cells.size) (le' : u'.store.cells.size ≤ s₁'.cells.size)
    (ties : Store.Ties κ u.store u'.store κ₁ s₁ s₁') :
    Abreast κ₁ ⟨s₁, u.links⟩ ⟨s₁', u'.links⟩ where
  store := store
  scope l hl := (ab.scope l hl).mono le
  scope' l hl := (ab.scope' l hl).mono le'
  links l hl := by
    refine (ab.links l hl).imp (·.mono ties) ?_
    rintro ⟨l', hl', tied⟩
    exact ⟨l', hl', tied.mono ties⟩
  integral l' hl' t' ht := by
    obtain ⟨value, t, tied⟩ := ab.integral l' hl' t' ht
    exact ⟨(ext.second.over le' tied.right).2.trans value, t, ties _ _ tied⟩

end BMethod
