import BMethod.Proofs.Store.Follow
import BMethod.Proofs.Unifier

/-!
# Two unifiers abreast

Two unifiers are abreast if their stores are, and if their open links are accounted for: a link of the
first either is tied to an open link of the second, or stands for equations that the second store has
settled already; and the open links of the second are products of integers (`Unifier.Abreast`). What one
call unifies or links on the first unifier, a call unifies or links on the second (`Abreast.unify`,
`Abreast.link`).

After the unification itself the second unifier decides its links before the first does: all it learns
from them is that products are integers, which the first store is free to find out later. Then the first
unifier decides its links, and what it unifies is settled on the second.
-/

namespace BMethod

namespace Store

variable {κ : Coupling} {s s' s₁ s₁' s₂ s₂' : Store} {t t' u u' l r : Ty}

/-- What is tied in one pair of stores is tied in another. -/
def Ties (κ : Coupling) (s s' : Store) (κ₁ : Coupling) (s₁ s₁' : Store) : Prop :=
  ∀ t t', Tied κ s s' t t' → Tied κ₁ s₁ s₁' t t'

lemma Ties.refl : Ties κ s s' κ s s' := fun _ _ h => h

lemma Ties.trans {κ₁ κ₂ : Coupling} (h : Ties κ s s' κ₁ s₁ s₁') (h' : Ties κ₁ s₁ s₁' κ₂ s₂ s₂') :
    Ties κ s s' κ₂ s₂ s₂' :=
  fun t t' tied => h' t t' (h t t' tied)

/-- Steps that add demands keep what is tied. -/
lemma Absorbs.ties {E E' : (Nat → Ty) → Prop} (step : Absorbs κ.first E s s₁)
    (step' : Absorbs κ.second E' s' s₁') : Ties κ s s' κ s₁ s₁' :=
  fun _ _ tied => tied.mono step step'

/-- What has the value of a tied type under all that the first store demands is tied, too. -/
lemma Tied.congr_left (h : Tied κ s s' t t') (ab : Abreast κ s s')
    (scope : u.Over s.cells.size κ.first.idleᶜ)
    (eq : ∀ σ, s.Admits κ.first σ → u.eval σ = t.eval σ) : Tied κ s s' u t' :=
  ⟨scope, h.right, fun τ adm => (eq _ (ab.pull τ adm)).trans (h.eq τ adm)⟩

namespace Abreast

variable (ab : Abreast κ s s')

include ab

/-- A product of integers is found out on the second store. The first store may come to it later. -/
lemma settle_integer (resp : s.Respects κ.first.value) (tied : Tied κ s s' t t')
    (value : t'.eval κ.second.value = .integer) :
    ∃ u s₁', Store.unify t' .integer s' = (.ok u, s₁') ∧ Abreast κ s s₁' ∧ Ties κ s s' κ s s₁' ∧
      Tied κ s s₁' .integer t' := by
  have wf := ab.steady.wellFormed
  have hl : κ.second.Means s'.cells.size t' .integer := ⟨tied.right, value⟩
  have hr : κ.second.Means s'.cells.size .integer .integer := ⟨⟨trivial, nofun⟩, rfl⟩
  have run := wf.run_unify hl.1.1 hr.1.1
  have total := wf.tidy.unify_ne_divergence hl.1.1.inside hr.1.1.inside
  obtain ⟨calm, after⟩ := run.calm (calm_guided κ) ab.steady (.right fun _ _ => rfl) hl hr
  revert run total calm after
  obtain ⟨(e | _) | u, s₁'⟩ := Store.unify t' .integer s'
  · exact fun _ _ calm => absurd rfl (calm e)
  · exact fun _ total => absurd rfl total
  intro run _ _ after
  have step := Absorbs.of_run run wf ab.steady.fits hl hr
  have ties := (Absorbs.refl ab.wellFormed ab.fits).ties step
  have integer (τ : Nat → Ty) (adm : s₁'.Admits κ.second τ) : t'.eval τ = .integer :=
    ((step.admits_iff τ).1 adm).2
  refine ⟨u, s₁', rfl, ?_, ties, ⟨trivial, nofun⟩, (ties t t' tied).right, fun τ adm => (integer τ adm).symm⟩
  refine ab.step (.refl ab.wellFormed ab.fits) step (after u rfl) resp (fun _ _ => trivial)
    fun τ adm _ known => ?_
  -- What the variables of the product must be for it to be an integer is known on the second store.
  have same : t.eval κ.first.value = .integer := (ab.eval_eq tied).trans value
  show t'.eval τ = .integer
  rw [← tied.eq τ adm, ← same]
  refine Ty.eval_congr fun v hv => known v (live_of_over tied.left hv) fun τ' adm' => ?_
  have eq : t.eval (κ.pull τ') = t.eval κ.first.value := by
    rw [same, tied.eq τ' ((step.admits_iff τ').1 adm').1, integer τ' adm']
  exact Ty.eq_of_eval_eq eq v hv

/-- Types that are tied to one type may be unified on the first store alone. -/
lemma unify_first (tl : Tied κ s s' l t') (tr : Tied κ s s' r t') {n : Nat}
    (run : Run .types n s l r (.ok u) s₁) (resp : s₁.Respects κ.first.value) :
    Abreast κ s₁ s' ∧ Ties κ s s' κ s₁ s' := by
  have step := Absorbs.of_run run ab.wellFormed ab.fits ⟨tl.left, ab.eval_eq tl⟩
    ⟨tr.left, ab.eval_eq tr⟩
  have step' := Absorbs.refl ab.steady.wellFormed ab.steady.fits
  refine ⟨ab.step step step' ab.steady resp (fun τ adm => ?_) fun _ _ _ _ => trivial, step.ties step'⟩
  rw [tl.eq τ adm, tr.eq τ adm]

/-- Several products of integers are found out on the second store. -/
lemma settle_integers (resp : s.Respects κ.first.value) {ts : List Ty}
    (h : ∀ t' ∈ ts, t'.eval κ.second.value = .integer ∧ ∃ t, Tied κ s s' t t') :
    ∃ s₁', unifyAll (ts.map fun t' => (t', .integer)) s' = (.ok (), s₁') ∧ Abreast κ s s₁' ∧
      Ties κ s s' κ s s₁' ∧ ∀ t' ∈ ts, Tied κ s s₁' .integer t' := by
  induction ts generalizing s' with
  | nil => exact ⟨s', rfl, ab, .refl, nofun⟩
  | cons t' ts ih =>
    rw [List.forall_mem_cons] at h
    obtain ⟨⟨value, t, tied⟩, rest⟩ := h
    obtain ⟨u, s₁', run, ab₁, ties, integer⟩ := ab.settle_integer resp tied value
    obtain ⟨s₂', run₂, ab₂, ties₂, integers⟩ := ih ab₁ fun t' ht => by
      obtain ⟨value, t, tied⟩ := rest t' ht
      exact ⟨value, t, ties t t' tied⟩
    refine ⟨s₂', ?_, ab₂, ties.trans ties₂, List.forall_mem_cons.2 ⟨ties₂ _ _ integer, integers⟩⟩
    rw [List.map_cons, unifyAll, run_bind, run_discard, run]
    exact run₂

/-- Equations between types that are tied to one type each may be unified on the first store alone. -/
lemma equate_first {es : List (Ty × Ty)}
    (h : ∀ e ∈ es, ∃ t', Tied κ s s' e.1 t' ∧ Tied κ s s' e.2 t')
    (run : unifyAll es s = (.ok (), s₁)) (resp : s₁.Respects κ.first.value) :
    Abreast κ s₁ s' ∧ Ties κ s s' κ s₁ s' := by
  induction es generalizing s with
  | nil =>
    cases run
    exact ⟨ab, .refl⟩
  | cons e es ih =>
    obtain ⟨l, r⟩ := e
    rw [List.forall_mem_cons] at h
    obtain ⟨⟨t', tl, tr⟩, rest⟩ := h
    have first := ab.wellFormed.run_unify tl.left.1 tr.left.1
    have nar := ab.wellFormed.unify_narrows tl.left.1 tr.left.1
    rw [unifyAll, run_bind, run_discard] at run
    revert first nar run
    obtain ⟨_ | u, s₂⟩ := Store.unify l r s
    · rintro ⟨⟩
    intro run first nar
    have wf₂ := nar.wellFormed ab.wellFormed
    have scope : ∀ e ∈ es, e.1.Scoped s₂.cells.size ∧ e.2.Scoped s₂.cells.size := fun e he => by
      obtain ⟨t', tl, tr⟩ := rest e he
      rw [nar.size_eq]
      exact ⟨tl.left.1, tr.left.1⟩
    have later := (wf₂.unifyAll_spec scope).1
    rw [show unifyAll es s₂ = (.ok (), s₁) from run] at later
    obtain ⟨ab₂, ties⟩ := ab.unify_first tl tr first (resp.of_keeps later.keeps)
    obtain ⟨ab₁, ties₁⟩ := ih ab₂ (fun e he => by
      obtain ⟨t', tl, tr⟩ := rest e he
      exact ⟨t', ties _ _ tl, ties _ _ tr⟩) run
    exact ⟨ab₁, ties.trans ties₁⟩

end Abreast

end Store

open Store

/-! ## Links. -/

namespace ProductLink

variable {κ κ₁ : Coupling} {s s' s₁ s₁' : Store} {link link' : ProductLink}

/-- The equations of one reading of the link are settled on the second store. -/
def Granted (κ : Coupling) (s s' : Store) (link : ProductLink) : Prop :=
  ∃ r, ∀ e ∈ link.equations r, ∃ t', Store.Tied κ s s' e.1 t' ∧ Store.Tied κ s s' e.2 t'

/-- The product and its operands are tied to those of another link. -/
structure Tied (κ : Coupling) (s s' : Store) (link link' : ProductLink) : Prop where
  result : Store.Tied κ s s' link.result link'.result
  left : Store.Tied κ s s' link.left link'.left
  right : Store.Tied κ s s' link.right link'.right

/-- The product and its operands are integers, and the first store has types that are tied to them. -/
def Integral (κ : Coupling) (s s' : Store) (link' : ProductLink) : Prop :=
  ∀ t' ∈ [link'.result, link'.left, link'.right],
    t'.eval κ.second.value = .integer ∧ ∃ t, Store.Tied κ s s' t t'

lemma Granted.mono (h : link.Granted κ s s') (ties : Ties κ s s' κ₁ s₁ s₁') :
    link.Granted κ₁ s₁ s₁' := by
  obtain ⟨r, h⟩ := h
  refine ⟨r, fun e he => ?_⟩
  obtain ⟨t', tl, tr⟩ := h e he
  exact ⟨t', ties _ _ tl, ties _ _ tr⟩

lemma Tied.mono (h : link.Tied κ s s' link') (ties : Ties κ s s' κ₁ s₁ s₁') :
    link.Tied κ₁ s₁ s₁' link' :=
  ⟨ties _ _ h.result, ties _ _ h.left, ties _ _ h.right⟩

lemma Integral.mono (h : link'.Integral κ s s') (ties : Ties κ s s' κ s₁ s₁') :
    link'.Integral κ s₁ s₁' := fun t' ht =>
  (h t' ht).imp_right fun ⟨t, tied⟩ => ⟨t, ties _ _ tied⟩

/-- A link that is tied to a product of integers is granted once the integers are found out. -/
lemma Tied.granted (h : link.Tied κ s s' link')
    (integers : ∀ t' ∈ [link'.result, link'.left, link'.right], Store.Tied κ s s' .integer t') :
    link.Granted κ s s' := by
  simp only [List.forall_mem_cons] at integers
  refine ⟨.integers, ?_⟩
  simp only [equations, types, List.forall_mem_cons]
  exact ⟨⟨_, h.result, integers.1⟩, ⟨_, h.left, integers.2.1⟩, ⟨_, h.right, integers.2.2.1⟩,
    List.forall_mem_nil _⟩

/-- A decided reading is the one that is granted. -/
lemma Granted.equations (h : link.Granted κ s s') (ab : s.Abreast κ s') {r : Reading}
    (dec : link.reading? s = some (some r)) :
    ∀ e ∈ link.equations r, ∃ t', Store.Tied κ s s' e.1 t' ∧ Store.Tied κ s s' e.2 t' := by
  obtain ⟨r', h⟩ := h
  suffices r' = r by rwa [← this]
  have means (e : Ty × Ty) (he : e ∈ link.equations r') :
      ∃ u, κ.first.Means s.cells.size e.1 u ∧ κ.first.Means s.cells.size e.2 u := by
    obtain ⟨t', tl, tr⟩ := h e he
    exact ⟨_, ⟨tl.left, ab.eval_eq tl⟩, tr.left, ab.eval_eq tr⟩
  have fits : link.Fits κ.first s.cells.size := ⟨r', means⟩
  -- The result has the value of both readings, and integers are no sets.
  obtain ⟨u, ml, mr⟩ := means (link.result, (link.types r').1) (by simp [ProductLink.equations])
  obtain ⟨v, nl, nr⟩ := fits.equations ab.wellFormed ab.fits dec (link.result, (link.types r).1)
    (by simp [ProductLink.equations])
  have eq := mr.2.trans (ml.2.symm.trans (nl.2.trans nr.2.symm))
  cases r <;> cases r' <;> first | rfl | simp [types, Ty.relation, Ty.eval] at eq

/-- A link that is tied to an undecided product of integers can not be decided. -/
lemma Tied.undecided (h : link.Tied κ s s' link') (ab : s.Abreast κ s')
    (undecided : link'.Undecided s') (integral : link'.Integral κ s s') {r : Reading} :
    link.reading? s ≠ some (some r) := by
  intro dec
  obtain ⟨t, ht, hr⟩ := firstReading?_eq_some dec
  obtain ⟨u, hu, shape⟩ := reading?_eq_some hr
  obtain ⟨t', ht', tied⟩ : ∃ t' ∈ [link'.result, link'.left, link'.right], Store.Tied κ s s' t t' := by
    simp only [List.mem_cons, List.not_mem_nil, or_false] at ht ⊢
    obtain rfl | rfl | rfl := ht
    · exact ⟨_, .inl rfl, h.result⟩
    · exact ⟨_, .inr (.inl rfl), h.left⟩
    · exact ⟨_, .inr (.inr rfl), h.right⟩
  obtain ⟨u', hu', ni, ns⟩ := reading?_eq_none (firstReading?_eq_none undecided t' ht')
  have heads := ab.tied_head? tied hu hu'
  have value : u'.eval κ.second.value = .integer :=
    (ab.steady.fits.means_head? ab.steady.wellFormed hu' ⟨tied.right, (integral t' ht').1⟩).2
  have first := (ab.eval_eq heads).trans value
  obtain ⟨-, rfl⟩ | ⟨-, e, rfl⟩ := shape
  · cases u' with
    | var v' =>
      refine ab.steady.not_rigid (unbound_of_head? hu') fun τ adm => ?_
      rw [← heads.eq τ adm, value]
      rfl
    | integer => exact ni rfl
    | _ => simp [Ty.eval] at value
  · simp [Ty.eval] at first

end ProductLink

/-! ## Unifiers. -/

namespace Unifier

/-- The stores are abreast. The open links of the first unifier are tied to open links of the second, or
granted; those of the second are products of integers. -/
structure Abreast (κ : Coupling) (u u' : Unifier) : Prop where
  store : u.store.Abreast κ u'.store
  scope : ∀ l ∈ u.links, l.Scoped u.store.cells.size
  scope' : ∀ l ∈ u'.links, l.Scoped u'.store.cells.size
  links : ∀ l ∈ u.links, l.Granted κ u.store u'.store ∨ ∃ l' ∈ u'.links, l.Tied κ u.store u'.store l'
  integral : ∀ l' ∈ u'.links, l'.Integral κ u.store u'.store

namespace Abreast

variable {κ : Coupling} {u u' u₁ : Unifier} {l l' : ProductLink} {a b t a' b' : Ty}

lemma proper (ab : u.Abreast κ u') : u.Proper := ⟨ab.store.wellFormed, ab.scope⟩

lemma proper' (ab : u.Abreast κ u') : u'.Proper := ⟨ab.store.steady.wellFormed, ab.scope'⟩

/-- The second unifier decides links, and what it finds out are integers. -/
lemma decide_second (ab : u.Abreast κ u') (resp : u.store.Respects κ.first.value) (n : Nat) :
    ∃ u₁', decideWithin n u' = (.ok (), u₁') ∧ u.Abreast κ u₁' ∧
      Ties κ u.store u'.store κ u.store u₁'.store ∧ (u'.links.length ≤ n → u₁'.Settled) := by
  induction n generalizing u' with
  | zero =>
    refine ⟨u', rfl, ab, .refl, fun le => ?_⟩
    have none : u'.links = [] := List.length_eq_zero_iff.1 (by omega)
    simp [Settled, none]
  | succ n ih =>
    rw [decideWithin, run_bind, run_get]
    obtain ⟨none, all⟩ | ⟨link', r, rest, some, dec, perm⟩ :=
      ab.proper'.wellFormed.acyclic.firstDecided?_spec u'.links
    · simp only [none]
      exact ⟨u', rfl, ab, .refl, fun _ => all⟩
    · have mine : link' ∈ u'.links := perm.mem_iff.2 (by simp)
      obtain rfl : r = .integers := by
        obtain ⟨t', ht', hr⟩ := firstReading?_eq_some dec
        obtain ⟨x, hx, shape⟩ := reading?_eq_some hr
        obtain ⟨value, t, tied⟩ := ab.integral link' mine t' ht'
        have head := (ab.store.steady.fits.means_head? ab.proper'.wellFormed hx ⟨tied.right, value⟩).2
        obtain ⟨rfl, -⟩ | ⟨-, e, rfl⟩ := shape
        · rfl
        · simp [Ty.eval] at head
      obtain ⟨s₁', run, store, ties, integers⟩ :=
        ab.store.settle_integers resp (ab.integral link' mine)
      have run : link'.decide .integers u'.store = (.ok (), s₁') := by
        rw [link'.decide_eq]
        exact run
      have size : s₁'.cells.size = u'.store.cells.size := by
        have nar := (ab.proper'.wellFormed.unifyAll_spec ((ab.scope' link' mine).equations .integers)).1
        rw [← link'.decide_eq, run] at nar
        exact nar.size_eq
      have next : u.Abreast κ ⟨s₁', rest⟩ := by
        refine ⟨store, ab.scope, fun l hl => ?_, fun l hl => ?_, fun l' hl' => ?_⟩
        · show l.Scoped s₁'.cells.size
          rw [size]
          exact ab.scope' l (perm.mem_iff.2 (by simp [hl]))
        · obtain granted | ⟨l', hl', tied⟩ := ab.links l hl
          · exact .inl (granted.mono ties)
          · obtain rfl | hl' := List.mem_cons.1 (perm.mem_iff.1 hl')
            · exact .inl ((tied.mono ties).granted integers)
            · exact .inr ⟨l', hl', tied.mono ties⟩
        · exact (ab.integral l' (perm.mem_iff.2 (by simp [hl']))).mono ties
      obtain ⟨u₁', run₁, ab₁, ties₁, settled⟩ := ih next
      refine ⟨u₁', ?_, ab₁, ties.trans ties₁, fun le => settled ?_⟩
      · simp only [some, run_bind, run_set, run_onStore, run]
        exact run₁
      · have := perm.length_eq
        simp only [List.length_cons] at this ⊢
        omega

/-- The first unifier decides links, after the second has. -/
lemma decide_first (ab : u.Abreast κ u') (settled : u'.Settled) {n : Nat}
    (run : decideWithin n u = (.ok (), u₁)) (resp : u₁.store.Respects κ.first.value) :
    u₁.Abreast κ u' ∧ Ties κ u.store u'.store κ u₁.store u'.store := by
  induction n generalizing u with
  | zero =>
    cases run
    exact ⟨ab, .refl⟩
  | succ n ih =>
    rw [decideWithin, run_bind, run_get] at run
    obtain ⟨none, -⟩ | ⟨link, r, rest, some, dec, perm⟩ :=
      ab.proper.wellFormed.acyclic.firstDecided?_spec u.links
    · simp only [none] at run
      cases run
      exact ⟨ab, .refl⟩
    · have mine : link ∈ u.links := perm.mem_iff.2 (by simp)
      have granted : link.Granted κ u.store u'.store := by
        refine (ab.links link mine).resolve_right ?_
        rintro ⟨l', hl', tied⟩
        exact tied.undecided ab.store (settled l' hl') (ab.integral l' hl') dec
      have nar := (ab.proper.wellFormed.unifyAll_spec ((ab.scope link mine).equations r)).1
      simp only [some, run_bind, run_set, run_onStore, link.decide_eq r] at run
      revert nar run
      cases decided : unifyAll (link.equations r) u.store with
      | mk out s =>
      cases out with
      | error e => rintro - ⟨⟩
      | ok _ =>
      intro nar run
      have proper : Proper ⟨s, rest⟩ := by
        refine ⟨nar.wellFormed ab.proper.wellFormed, fun l hl => ?_⟩
        show l.Scoped s.cells.size
        rw [nar.size_eq]
        exact ab.scope l (perm.mem_iff.2 (by simp [hl]))
      have later := (proper.decideWithin_spec n).1
      rw [show decideWithin n ⟨s, rest⟩ = (.ok (), u₁) from run] at later
      obtain ⟨store, ties⟩ := ab.store.equate_first (granted.equations ab.store dec) decided
        (resp.of_keeps later.keeps)
      have next : Abreast κ ⟨s, rest⟩ u' := by
        refine ⟨store, proper.links, ab.scope', fun l hl => ?_, fun l' hl' => ?_⟩
        · refine (ab.links l (perm.mem_iff.2 (by simp [hl]))).imp (·.mono ties) ?_
          rintro ⟨l', hl', tied⟩
          exact ⟨l', hl', tied.mono ties⟩
        · exact (ab.integral l' hl').mono ties
      obtain ⟨ab₁, ties₁⟩ := ih next run
      exact ⟨ab₁, ties.trans ties₁⟩

/-- Both unifiers decide links. -/
lemma decideLinks (ab : u.Abreast κ u') (run : Unifier.decideLinks u = (.ok (), u₁))
    (resp : u₁.store.Respects κ.first.value) :
    ∃ u₁', Unifier.decideLinks u' = (.ok (), u₁') ∧ u₁.Abreast κ u₁' ∧ u₁'.Settled ∧
      Ties κ u.store u'.store κ u₁.store u₁'.store := by
  have run : decideWithin u.links.length u = (.ok (), u₁) := run
  have later := (ab.proper.decideWithin_spec u.links.length).1
  rw [run] at later
  obtain ⟨u₁', run', ab', ties', settled⟩ :=
    ab.decide_second (resp.of_keeps later.keeps) u'.links.length
  obtain ⟨ab₁, ties₁⟩ := ab'.decide_first (settled le_rfl) run resp
  exact ⟨u₁', run', ab₁, settled le_rfl, ties'.trans ties₁⟩

/-- What was unified on the first of two unifiers abreast can be unified on the second, and the result of
the first is tied to the result of the second and to what stood there. -/
theorem unify (ab : u.Abreast κ u') (ta : Store.Tied κ u.store u'.store a a')
    (tb : Store.Tied κ u.store u'.store b b') (run : Unifier.unify a b u = (.ok t, u₁))
    (resp : u₁.store.Respects κ.first.value) :
    ∃ t' u₁', Unifier.unify a' b' u' = (.ok t', u₁') ∧ u₁.Abreast κ u₁' ∧ u₁'.Settled ∧
      Ties κ u.store u'.store κ u₁.store u₁'.store ∧ Store.Tied κ u₁.store u₁'.store t t' ∧
      Store.Tied κ u₁.store u₁'.store t b' := by
  have wf := ab.proper.wellFormed
  have wf' := ab.proper'.wellFormed
  have first := wf.run_unify ta.left.1 tb.left.1
  have nar := wf.unify_narrows ta.left.1 tb.left.1
  have second := wf'.run_unify ta.right.1 tb.right.1
  have nar' := wf'.unify_narrows ta.right.1 tb.right.1
  have total := wf'.tidy.unify_ne_divergence ta.right.1.inside tb.right.1.inside
  rw [Unifier.unify, run_bind, run_onStore] at run
  rw [Unifier.unify, run_bind, run_onStore]
  revert first nar run
  obtain ⟨_ | t₀, s⟩ := Store.unify a b u.store
  · rintro ⟨⟩
  intro run first nar
  simp only [run_bind] at run
  revert run
  cases decided : Unifier.decideLinks ⟨s, u.links⟩ with
  | mk out u₂ =>
  cases out with
  | error e => rintro ⟨⟩
  | ok _ =>
  rintro ⟨⟩
  have scope : ∀ l ∈ u.links, l.Scoped s.cells.size := fun l hl => by
    rw [nar.size_eq]
    exact ab.scope l hl
  have later := (Proper.decideWithin_spec (u := ⟨s, u.links⟩) ⟨nar.wellFormed wf, scope⟩
    u.links.length).1
  rw [show decideWithin u.links.length ⟨s, u.links⟩ = (.ok (), u₁) from decided] at later
  have resp₁ := resp.of_keeps later.keeps
  obtain ⟨total', follow⟩ := ab.store.follow ta tb first resp₁ second
  revert second nar' total total' follow
  obtain ⟨(e | _) | t', s'⟩ := Store.unify a' b' u'.store
  · exact fun _ _ _ total' => absurd rfl (total' e)
  · exact fun _ _ total => absurd rfl total
  intro second nar' _ _ follow
  obtain ⟨store, tied⟩ := follow t' rfl
  obtain ⟨⟨v, hl, hr⟩, v', hl', hr'⟩ := ab.store.means (.inl ⟨ta, tb⟩) first resp₁
  have ties := (Absorbs.of_run first wf ab.store.fits hl hr).ties
    (Absorbs.of_run second wf' ab.store.steady.fits hl' hr')
  have next : Abreast κ ⟨s, u.links⟩ ⟨s', u'.links⟩ := by
    refine ⟨store, scope, fun l hl => ?_, fun l hl => ?_, fun l' hl' => (ab.integral l' hl').mono ties⟩
    · show l.Scoped s'.cells.size
      rw [nar'.size_eq]
      exact ab.scope' l hl
    · refine (ab.links l hl).imp (·.mono ties) ?_
      rintro ⟨l', hl', tied⟩
      exact ⟨l', hl', tied.mono ties⟩
  have found : Store.Tied κ s s' t b' := by
    refine (ties _ _ tb).congr_left store tied.left fun σ adm => ?_
    rw [(first.eval_result wf ab.store.fits hl hr adm).2,
      ((first.respects_under_iff wf ab.store.fits hl hr rfl).1 adm).2]
  obtain ⟨u₁', run', ab₁, settled, ties₁⟩ := next.decideLinks decided resp
  refine ⟨t', u₁', ?_, ab₁, settled, ties.trans ties₁, ties₁ _ _ tied, ties₁ _ _ found⟩
  simp only [run_bind, run']
  rfl

/-- Tied links are added to both unifiers. -/
theorem link (ab : u.Abreast κ u') (tied : l.Tied κ u.store u'.store l')
    (scope : l.Scoped u.store.cells.size) (scope' : l'.Scoped u'.store.cells.size)
    (integers : ∀ t' ∈ [l'.result, l'.left, l'.right], t'.eval κ.second.value = .integer)
    (run : Unifier.link l u = (.ok (), u₁)) (resp : u₁.store.Respects κ.first.value) :
    ∃ u₁', Unifier.link l' u' = (.ok (), u₁') ∧ u₁.Abreast κ u₁' ∧ u₁'.Settled ∧
      Ties κ u.store u'.store κ u₁.store u₁'.store := by
  have next : Abreast κ ⟨u.store, u.links ++ [l]⟩ ⟨u'.store, u'.links ++ [l']⟩ := by
    refine ⟨ab.store, (ab.proper.concat scope).links, (ab.proper'.concat scope').links, ?_, ?_⟩
    · simp only [List.forall_mem_append, List.forall_mem_singleton]
      refine ⟨fun l hl => (ab.links l hl).imp_right ?_, .inr ⟨l', by simp, tied⟩⟩
      rintro ⟨l', hl', tied⟩
      exact ⟨l', by simp [hl'], tied⟩
    · simp only [List.forall_mem_append, List.forall_mem_singleton]
      refine ⟨ab.integral, fun t' ht => ⟨integers t' ht, ?_⟩⟩
      simp only [List.mem_cons, List.not_mem_nil, or_false] at ht
      obtain rfl | rfl | rfl := ht
      · exact ⟨_, tied.result⟩
      · exact ⟨_, tied.left⟩
      · exact ⟨_, tied.right⟩
  exact next.decideLinks run resp

/-- A link that is granted is added to the first unifier alone. -/
theorem link_first (ab : u.Abreast κ u') (settled : u'.Settled)
    (granted : l.Granted κ u.store u'.store) (scope : l.Scoped u.store.cells.size)
    (run : Unifier.link l u = (.ok (), u₁)) (resp : u₁.store.Respects κ.first.value) :
    u₁.Abreast κ u' ∧ Ties κ u.store u'.store κ u₁.store u'.store := by
  have next : Abreast κ ⟨u.store, u.links ++ [l]⟩ u' := by
    refine ⟨ab.store, (ab.proper.concat scope).links, ab.scope', ?_, ab.integral⟩
    simp only [List.forall_mem_append, List.forall_mem_singleton]
    exact ⟨ab.links, .inl granted⟩
  exact next.decide_first settled run resp

end Abreast

end Unifier

end BMethod
