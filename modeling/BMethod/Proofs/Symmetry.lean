import BMethod.Proofs.Solving
import BMethod.Proofs.Store.Mirror

/-!
# Unification is symmetric

Which of two variables comes to stand for both depends on the order of the operands, and with it the
alternatives that stay and every later step. Still, unifying in the other order succeeds exactly if
unifying in the one does, and leaves a store that is alike. Alike stores decide the same links in the
same order, so this is so of all that follows, and the same types become concrete, with the same concrete
types (`unify_symmetric`).
-/

namespace BMethod

namespace Store

variable {s s' : Store} {C : Set Nat} {l r l' r' t : Ty}

/-! ## Unification on alike stores. -/

namespace Alike

/-- Unification succeeds on alike stores alike, in either order. -/
lemma unify (alike : Alike Set.univ s s') (hl : l.Scoped s.cells.size) (hr : r.Scoped s.cells.size)
    (hl' : l'.Scoped s.cells.size) (hr' : r'.Scoped s.cells.size) (m : s.Matches l r l' r')
    (ok : (unify l r s).1 = .ok t) :
    (∃ t', (Store.unify l' r' s').1 = .ok t') ∧
      Alike Set.univ (Store.unify l r s).2 (Store.unify l' r' s').2 := by
  rw [← alike.size_eq] at hl' hr'
  refine (alike.wellFormed.run_unify hl hr).alike ok (alike.wellFormed'.run_unify hl' hr')
    (alike.wellFormed'.tidy.unify_ne_divergence hl'.inside hr'.inside) ⟨alike, ?_, ?_, m⟩
  · exact ⟨s.closed_univ, Ty.over_univ hl, Ty.over_univ hr, nofun⟩
  · exact ⟨s'.closed_univ, Ty.over_univ hl', Ty.over_univ hr', nofun⟩

lemma unifyAll {es : List (Ty × Ty)} (alike : Alike Set.univ s s')
    (scope : ∀ e ∈ es, e.1.Scoped s.cells.size ∧ e.2.Scoped s.cells.size)
    (ok : (Store.unifyAll es s).1 = .ok ()) :
    (Store.unifyAll es s').1 = .ok () ∧
      Alike Set.univ (Store.unifyAll es s).2 (Store.unifyAll es s').2 := by
  induction es generalizing s s' with
  | nil => exact ⟨rfl, alike⟩
  | cons e es ih =>
    obtain ⟨⟨hl, hr⟩, rest⟩ := List.forall_mem_cons.1 scope
    have nar := alike.wellFormed.unify_narrows hl hr
    have step (t : Ty) (ok : (Store.unify e.1 e.2 s).1 = .ok t) :=
      alike.unify hl hr hl hr (.inl ⟨.refl e.1, .refl e.2⟩) ok
    rw [Store.unifyAll, run_bind, run_discard] at ok ⊢
    rw [run_bind, run_discard]
    generalize Store.unify e.1 e.2 s = done at nar step ok ⊢
    generalize Store.unify e.1 e.2 s' = done' at step ⊢
    obtain ⟨_ | t, s₁⟩ := done
    · cases ok
    · obtain ⟨⟨t', ht'⟩, after⟩ := step t rfl
      obtain ⟨out', s₁'⟩ := done'
      subst ht'
      exact ih after (fun e he => by rw [nar.size_eq]; exact rest e he) ok

/-- A type decides the same reading. -/
lemma reading?_eq (alike : Alike C s s') (t : Ty) : s'.reading? t = s.reading? t := by
  have decided {s s' : Store} (alike : Alike C s s') {r : Reading}
      (h : s.reading? t = some (some r)) : s'.reading? t = some (some r) := by
    obtain ⟨u, hu, shape⟩ := reading?_eq_some h
    obtain ⟨u', hu'⟩ := alike.wellFormed'.acyclic.exists_head? t
    have same : s.Identifies u u' :=
      (Identifies.of_head? hu).symm.trans ((Identifies.of_head? hu').mono alike.entails)
    have head (v : Nat) (e : u' = .var v) : (s'.cell v).Unbound := unbound_of_head? (e ▸ hu')
    obtain ⟨rfl, rfl⟩ | ⟨rfl, e, rfl⟩ := shape
    · obtain rfl := alike.wellFormed.eq_integer same (alike.nonvar same (by simp) head)
      simp [reading?, hu']
    · obtain ⟨e', rfl, -⟩ := alike.wellFormed.exists_set same (alike.nonvar same (by simp) head)
      simp [reading?, hu']
  obtain ⟨o, ho⟩ := alike.wellFormed.acyclic.exists_reading? t
  obtain ⟨o', ho'⟩ := alike.wellFormed'.acyclic.exists_reading? t
  cases o with
  | some r => rw [ho, decided alike ho]
  | none =>
    cases o' with
    | none => rw [ho, ho']
    | some r => rw [ho', decided alike.symm ho']

/-- Alike stores decide the same link first. -/
lemma firstDecided?_eq (alike : Alike C s s') (links : List ProductLink) :
    s'.firstDecided? links = s.firstDecided? links := by
  have first (ts : List Ty) : s'.firstReading? ts = s.firstReading? ts := by
    induction ts with
    | nil => rfl
    | cons t ts ih => rw [firstReading?, firstReading?, alike.reading?_eq, ih]
  induction links with
  | nil => rfl
  | cons link links ih =>
    rw [firstDecided?, firstDecided?, ProductLink.reading?, ProductLink.reading?, first, ih]

/-- A type that is concrete in the one store is the same concrete type in the other. -/
lemma resolve? (alike : Alike C s s') (ht : t.Scoped s.cells.size) {x : Ty}
    (hx : s.resolve? t = some x) (concrete : x.isConcrete = true) :
    ∃ y, s'.resolve? t = some y ∧ y.isConcrete = true ∧ Ty.same x y = true := by
  obtain ⟨y, hy⟩ := alike.wellFormed'.acyclic.exists_resolve? t
  have resp := alike.entails' _ alike.wellFormed'.respects_resolution
  have value := canon_of_resolveWithin (L := Set.univ) alike.wellFormed
    (fun v _ u hc => ⟨resp v u hc, fun _ _ => trivial⟩) (Ty.over_univ ht) hx concrete
  rw [s'.eval_resolution ht hy] at value
  have same := (Ty.same_iff_canon x y).2 value
  exact ⟨y, hy, Ty.isConcrete_of_same same concrete, same⟩

end Alike

end Store

namespace Unifier

variable {u u' : Unifier}

/-- Deciding the same links succeeds on alike stores alike. -/
lemma Proper.decideWithin_alike (proper : u.Proper) (alike : Store.Alike Set.univ u.store u'.store)
    (links : u'.links = u.links) {n : Nat} (ok : (decideWithin n u).1 = .ok ()) :
    (decideWithin n u').1 = .ok () ∧
      Store.Alike Set.univ (decideWithin n u).2.store (decideWithin n u').2.store := by
  induction n generalizing u u' with
  | zero => exact ⟨rfl, alike⟩
  | succ n ih =>
    rw [decideWithin, run_bind, run_get] at ok ⊢
    rw [run_bind, run_get]
    simp only [alike.firstDecided?_eq, links]
    obtain ⟨none, -⟩ | ⟨link, r, rest, some, dec, perm⟩ :=
      proper.wellFormed.acyclic.firstDecided?_spec u.links
    · simp only [none]
      exact ⟨rfl, alike⟩
    · have mine : link ∈ u.links := perm.mem_iff.2 (by simp)
      have scope := (proper.links link mine).equations r
      have nar := (proper.wellFormed.unifyAll_spec scope).1
      have step := alike.unifyAll scope
      rw [← link.decide_eq r] at nar step
      simp only [some, run_bind, run_set, run_onStore] at ok ⊢
      generalize link.decide r u.store = done at nar step ok ⊢
      generalize link.decide r u'.store = done' at step ⊢
      obtain ⟨_ | _, s₁⟩ := done
      · cases ok
      · obtain ⟨ok', after⟩ := step rfl
        obtain ⟨out', s₁'⟩ := done'
        subst ok'
        refine ih ⟨nar.wellFormed proper.wellFormed, fun l hl => ?_⟩ after rfl ok
        rw [nar.size_eq]
        exact proper.links l (perm.mem_iff.2 (by simp [hl]))

/-- Unification in one order succeeds if it does in the other, and leaves stores that are alike. -/
lemma Proper.unify_alike (proper : u.Proper) {l r t : Ty} (hl : l.Scoped u.store.cells.size)
    (hr : r.Scoped u.store.cells.size) (ok : (unify l r u).1 = .ok t) :
    (∃ t', (unify r l u).1 = .ok t') ∧
      Store.Alike Set.univ (unify l r u).2.store (unify r l u).2.store := by
  have same : Store.Alike Set.univ u.store u.store := .refl proper.wellFormed _
  have nar := proper.wellFormed.unify_narrows hl hr
  have step (t : Ty) (ok : (Store.unify l r u.store).1 = .ok t) :=
    same.unify hl hr hr hl (.inr ⟨.refl l, .refl r⟩) ok
  rw [unify, run_bind, run_onStore] at ok ⊢
  rw [unify, run_bind, run_onStore]
  generalize Store.unify l r u.store = done at nar step ok ⊢
  generalize Store.unify r l u.store = done' at step ⊢
  obtain ⟨_ | x, s⟩ := done
  · cases ok
  obtain ⟨⟨x', hx'⟩, after⟩ := step x rfl
  obtain ⟨out', s'⟩ := done'
  subst hx'
  have proper : Proper ⟨s, u.links⟩ := by
    refine ⟨nar.wellFormed proper.wellFormed, fun l hl => ?_⟩
    rw [nar.size_eq]
    exact proper.links l hl
  have rest := @Proper.decideWithin_alike _ ⟨s', u.links⟩ proper after rfl u.links.length
  simp only [run_bind, decideLinks, run_get] at ok ⊢
  generalize decideWithin u.links.length ⟨s, u.links⟩ = done at rest ok ⊢
  generalize decideWithin u.links.length ⟨s', u.links⟩ = done' at rest ⊢
  obtain ⟨_ | _, v⟩ := done
  · cases ok
  · obtain ⟨ok', after⟩ := rest rfl
    obtain ⟨out', v'⟩ := done'
    subst ok'
    exact ⟨⟨x', rfl⟩, after⟩

/-- On a unifier made by successful calls, unification of two types in one order succeeds if and only if
it does in the other, and then every type that resolves to a concrete type after the one resolves to a
concrete type that is the same after the other. -/
theorem unify_symmetric {calls : List Call} (made : Made calls u) {a b : Ty}
    (ha : a.Scoped u.store.cells.size) (hb : b.Scoped u.store.cells.size) :
    ((∃ t v, unify a b u = (.ok t, v)) ↔ ∃ t w, unify b a u = (.ok t, w)) ∧
      ∀ t t' v w, unify a b u = (.ok t, v) → unify b a u = (.ok t', w) →
        ∀ x : Ty, x.Scoped v.store.cells.size → ∀ c : Ty, c.isConcrete = true →
          (v.store.resolve? x = some c →
            ∃ d, w.store.resolve? x = some d ∧ d.isConcrete = true ∧ Ty.same c d = true) ∧
          (w.store.resolve? x = some c →
            ∃ d, v.store.resolve? x = some d ∧ d.isConcrete = true ∧ Ty.same c d = true) := by
  have proper := made.accounts.1.1
  have other {l r : Ty} (hl : l.Scoped u.store.cells.size) (hr : r.Scoped u.store.cells.size) :
      (∃ t v, unify l r u = (.ok t, v)) → ∃ t v, unify r l u = (.ok t, v) := by
    rintro ⟨t, v, run⟩
    obtain ⟨⟨t', ok⟩, -⟩ := proper.unify_alike hl hr (t := t) (by rw [run])
    exact ⟨t', _, Prod.ext ok rfl⟩
  refine ⟨⟨other ha hb, other hb ha⟩, fun t t' v w run run' x hx c hc => ?_⟩
  have alike := (proper.unify_alike ha hb (t := t) (by rw [run])).2
  rw [run, run'] at alike
  refine ⟨fun h => alike.resolve? hx h hc, fun h => alike.symm.resolve? ?_ h hc⟩
  rwa [alike.size_eq]

/-- The operand `?4` of the inner product and the operand `?7` of the outer one are unified with each
other, and then `?7` and the other operand `?5` with sets. -/
def sampleOperands : Ty × Ty :=
  (.couple (.var 4) (.couple (.var 7) (.var 5)), .couple (.var 7) (.couple (.set .bool) (.set .integer)))

/-- Either order decides both products, although `?4` stands for `?7` after the one, and `?7` for `?4`
after the other. -/
theorem unify_symmetric_sampleOperands :
    Made sampleCalls sampleProducts ∧
      ∃ t t' v w, unify sampleOperands.1 sampleOperands.2 sampleProducts = (.ok t, v) ∧
        unify sampleOperands.2 sampleOperands.1 sampleProducts = (.ok t', w) ∧
        v.store.cell 4 = .bound (.var 7) ∧ w.store.cell 7 = .bound (.var 4) ∧
        ∃ d, w.store.resolve? (.var 6) = some d ∧ d.isConcrete = true ∧
          Ty.same (.relation (.couple .bool .integer) .bool) d = true := by
  obtain ⟨orders, concrete⟩ := unify_symmetric made_sampleProducts
    (a := sampleOperands.1) (b := sampleOperands.2) (by decide +kernel) (by decide +kernel)
  have run : unify sampleOperands.1 sampleOperands.2 sampleProducts =
      (.ok sampleOperands.2, (unify sampleOperands.1 sampleOperands.2 sampleProducts).2) := by
    refine Prod.ext ?_ rfl
    decide +kernel
  obtain ⟨t, w, run'⟩ := orders.1 ⟨_, _, run⟩
  have known := (concrete _ _ _ _ run run' (.var 6) (by decide +kernel)
    (.relation (.couple .bool .integer) .bool) (by decide)).1 (by decide +kernel)
  refine ⟨made_sampleProducts, _, t, _, w, run, run', by decide +kernel, ?_, known⟩
  rw [show w = (unify sampleOperands.2 sampleOperands.1 sampleProducts).2 by rw [run']]
  decide +kernel

end Unifier

end BMethod
