import BMethod.Proofs.Store.Allocate
import BMethod.Proofs.Store.Bindings
import BMethod.Proofs.Store.Depth
import BMethod.Unifier.Product

/-!
# Unification with products

What unification does to a unifier, links included. A link is satisfied if one reading makes its
equations true. It stays open until a reading is decided, and when it is gone, the bindings make the
equations of the reading true (`Unifier.Advances`).

The links of a check are sane: what satisfies the store gives the product and its operands integers or
the sets that the link says. After every unification the open links are undecided, so that all their
types are variables awaiting a choice, and a model of the store satisfies them too, whichever side it
takes (`Unifier.Settled.holds_model`).
-/

namespace BMethod

namespace Store

/-! ## Several equations. -/

/-- Unifies the two sides of equations, one after the other. -/
def unifyAll : List (Ty × Ty) → StoreM Unit
  | [] => pure ()
  | e :: es => do
    discard (unify e.1 e.2)
    unifyAll es

/-- What unifying the two sides of equations has done to a store. -/
structure Equates (s : Store) (es : List (Ty × Ty)) (s' : Store) : Prop where
  holds : ∀ σ, s'.Holds σ → s.Holds σ
  forces : s'.Forces es
  complete : ∀ g : Guess, s.Fits g →
    (∀ e ∈ es, ∃ u, g.Means s.cells.size e.1 u ∧ g.Means s.cells.size e.2 u) → s'.Fits g

variable {s : Store}

/-- Unification runs by its rules. -/
lemma WellFormed.run_unify (wf : s.WellFormed) {l r : Ty} (hl : l.Scoped s.cells.size)
    (hr : r.Scoped s.cells.size) :
    Run .types (s.depthBound l r) s l r (unify l r s).1 (unify l r s).2 :=
  runsBy_unifyWithin _ s l r wf.tidy hl.inside hr.inside

lemma WellFormed.unify_narrows (wf : s.WellFormed) {l r : Ty} (hl : l.Scoped s.cells.size)
    (hr : r.Scoped s.cells.size) : Narrows Set.univ s (unify l r s).2 :=
  ((wf.run_unify hl hr).narrows wf s.closed_univ (Ty.over_univ hl) (Ty.over_univ hr)).1

/-- Unifying equations narrows the store, does not diverge, and makes the two sides equal; it can not
fail if a guess that reads all choices as sets makes them equal. -/
lemma WellFormed.unifyAll_spec (wf : s.WellFormed) {es : List (Ty × Ty)}
    (scope : ∀ e ∈ es, e.1.Scoped s.cells.size ∧ e.2.Scoped s.cells.size) :
    Narrows Set.univ s (unifyAll es s).2 ∧ (unifyAll es s).1 ≠ .error .divergence ∧
      ((unifyAll es s).1 = .ok () → Equates s es (unifyAll es s).2) ∧
      ∀ e, (unifyAll es s).1 = .error (.error e) → ∀ g : Guess, s.Fits g →
        (∀ e ∈ es, ∃ u, g.Means s.cells.size e.1 u ∧ g.Means s.cells.size e.2 u) →
          ¬ s.ReadsSets g := by
  induction es generalizing s with
  | nil => exact ⟨.refl, nofun, fun _ => ⟨fun σ h => h, nofun, fun g fits _ => fits⟩, nofun⟩
  | cons e es ih =>
    obtain ⟨l, r⟩ := e
    obtain ⟨hl, hr⟩ := scope (l, r) (by simp)
    have run := wf.run_unify hl hr
    have nar := wf.unify_narrows hl hr
    have total := wf.tidy.unify_ne_divergence hl.inside hr.inside
    rw [unifyAll, run_bind, run_discard]
    revert run nar total
    obtain ⟨_ | t, s'⟩ := unify l r s
    · intro run nar total
      refine ⟨nar, by simpa using total, nofun, fun e h g fits means => ?_⟩
      obtain ⟨u, ml, mr⟩ := means (l, r) (by simp)
      cases h
      exact ((run.complete wf fits ml mr).2 e rfl).2
    · intro run nar total
      have wf' := nar.wellFormed wf
      obtain ⟨nar', total', ok, refused⟩ := ih wf' fun e he => by
        rw [nar.size_eq]
        exact scope e (by simp [he])
      have fits' {g : Guess} (fits : s.Fits g) (means : ∀ e ∈ (l, r) :: es,
          ∃ u, g.Means s.cells.size e.1 u ∧ g.Means s.cells.size e.2 u) : s'.Fits g ∧
            ∀ e ∈ es, ∃ u, g.Means s'.cells.size e.1 u ∧ g.Means s'.cells.size e.2 u := by
        obtain ⟨⟨u, ml, mr⟩, means⟩ := List.forall_mem_cons.1 means
        refine ⟨((run.complete wf fits ml mr).1 t rfl).1, fun e he => ?_⟩
        rw [nar.size_eq]
        exact means e he
      refine ⟨nar.trans nar', total', fun h => ⟨fun σ hσ => ?_, fun σ resp => ?_,
        fun g fits means => ?_⟩, fun e h g fits means sets => ?_⟩
      · have old := run.sound wf s.closed_univ (Ty.over_univ hl) (Ty.over_univ hr) rfl
          (holdsOn_univ.2 ((ok h).holds σ hσ))
        exact holdsOn_univ.1 old.1
      · have first := (run.forces wf hl hr rfl (resp.of_keeps nar'.keeps)).1
        exact List.forall_mem_cons.2 ⟨first, (ok h).forces σ resp⟩
      · exact (ok h).complete g (fits' fits means).1 (fits' fits means).2
      · exact refused e h g (fits' fits means).1 (fits' fits means).2 (sets.narrows nar)

/-! ## Readings. -/

lemma reading?_eq_some {t : Ty} {r : Reading} (h : s.reading? t = some (some r)) :
    ∃ u, s.head? t = some u ∧ (r = .integers ∧ u = .integer ∨ r = .sets ∧ ∃ e, u = .set e) := by
  rw [reading?] at h
  cases hu : s.head? t with
  | none => simp [hu] at h
  | some u =>
    refine ⟨u, rfl, ?_⟩
    cases u <;> simp_all

/-- A type that decides no reading has a head that is neither the integers nor a set. -/
lemma reading?_eq_none {t : Ty} (h : s.reading? t = some none) :
    ∃ u, s.head? t = some u ∧ u ≠ .integer ∧ ∀ e, u ≠ .set e := by
  rw [reading?] at h
  cases hu : s.head? t with
  | none => simp [hu] at h
  | some u =>
    refine ⟨u, rfl, ?_⟩
    cases u <;> simp_all

lemma Acyclic.exists_reading? (ac : s.Acyclic) (t : Ty) : ∃ r, s.reading? t = some r := by
  obtain ⟨u, hu⟩ := ac.exists_head? t
  rw [reading?, hu]
  cases u <;> simp

lemma Acyclic.exists_firstReading? (ac : s.Acyclic) (ts : List Ty) :
    ∃ r, s.firstReading? ts = some r := by
  induction ts with
  | nil => exact ⟨none, rfl⟩
  | cons t ts ih =>
    obtain ⟨r, hr⟩ := ac.exists_reading? t
    obtain ⟨r', hr'⟩ := ih
    cases r <;> simp [firstReading?, hr, hr']

lemma firstReading?_eq_some {ts : List Ty} {r : Reading} (h : s.firstReading? ts = some (some r)) :
    ∃ t ∈ ts, s.reading? t = some (some r) := by
  induction ts with
  | nil => simp [firstReading?] at h
  | cons t ts ih =>
    rw [firstReading?] at h
    cases hr : s.reading? t with
    | none => simp [hr] at h
    | some o =>
      cases o with
      | none =>
        simp only [hr, Option.bind_eq_bind, Option.bind_some] at h
        obtain ⟨t', ht', hr'⟩ := ih h
        exact ⟨t', by simp [ht'], hr'⟩
      | some r' =>
        simp only [hr, Option.bind_eq_bind, Option.bind_some, Option.pure_def, Option.some.injEq] at h
        subst h
        exact ⟨t, by simp, hr⟩

lemma firstReading?_eq_none {ts : List Ty} (h : s.firstReading? ts = some none) :
    ∀ t ∈ ts, s.reading? t = some none := by
  induction ts with
  | nil => exact nofun
  | cons t ts ih =>
    rw [firstReading?] at h
    cases hr : s.reading? t with
    | none => simp [hr] at h
    | some o =>
      cases o with
      | none =>
        simp only [hr, Option.bind_eq_bind, Option.bind_some] at h
        exact List.forall_mem_cons.2 ⟨hr, ih h⟩
      | some r' => simp [hr] at h

end Store

/-! ## Links. -/

namespace ProductLink

/-- The equations that a link stands for under a reading. -/
def equations (link : ProductLink) (r : Reading) : List (Ty × Ty) :=
  [(link.result, (link.types r).1), (link.left, (link.types r).2.1),
    (link.right, (link.types r).2.2)]

/-- The types of a link. -/
def parts (link : ProductLink) : List Ty :=
  [link.result, link.left, link.right, link.leftElem, link.rightElem]

/-- All types of a link are scoped. -/
def Scoped (k : Nat) (link : ProductLink) : Prop := ∀ t ∈ link.parts, t.Scoped k

/-- One reading makes the equations true. -/
def Holds (σ : Nat → Ty) (link : ProductLink) : Prop :=
  ∃ r, ∀ e ∈ link.equations r, e.1.eval σ = e.2.eval σ

/-- The product and each operand are integers or the sets that the link says. -/
def Sane (σ : Nat → Ty) (link : ProductLink) : Prop :=
  ∀ e ∈ link.equations .sets, e.1.eval σ = .integer ∨ e.1.eval σ = e.2.eval σ

/-- Under a guess the equations of one reading have sides with one meaning. -/
def Fits (g : Guess) (k : Nat) (link : ProductLink) : Prop :=
  ∃ r, ∀ e ∈ link.equations r, ∃ u, g.Means k e.1 u ∧ g.Means k e.2 u

/-- No reading is decided. -/
def Undecided (s : Store) (link : ProductLink) : Prop := link.reading? s = some none

variable {s : Store} {link : ProductLink}

lemma decide_eq (link : ProductLink) (r : Reading) :
    link.decide r = Store.unifyAll (link.equations r) := by
  simp only [decide, equations, Store.unifyAll, bind_pure_unit]

lemma Scoped.equations {k : Nat} (h : link.Scoped k) (r : Reading) :
    ∀ e ∈ link.equations r, e.1.Scoped k ∧ e.2.Scoped k := by
  simp only [Scoped, parts, List.forall_mem_cons] at h
  cases r <;> simp [ProductLink.equations, types, Ty.Scoped, h]

lemma Scoped.mono {k k' : Nat} (h : link.Scoped k) (le : k ≤ k') : link.Scoped k' :=
  fun t ht => (h t ht).mono le

/-- A decided reading is the one under which the link fits a guess. -/
lemma Fits.equations {g : Guess} {r : Reading} (h : link.Fits g s.cells.size) (wf : s.WellFormed)
    (fits : s.Fits g) (dec : link.reading? s = some (some r)) :
    ∀ e ∈ link.equations r, ∃ u, g.Means s.cells.size e.1 u ∧ g.Means s.cells.size e.2 u := by
  obtain ⟨r', h⟩ := h
  suffices r' = r by rwa [← this]
  obtain ⟨t, ht, hr⟩ := Store.firstReading?_eq_some dec
  obtain ⟨u, hu, shape⟩ := Store.reading?_eq_some hr
  -- The deciding type is the left side of an equation, so its head has the value of the right side.
  obtain ⟨e, he, rfl⟩ : ∃ e ∈ link.equations r', e.1 = t := by
    simpa [ProductLink.equations, eq_comm] using ht
  obtain ⟨v, ml, mr⟩ := h e he
  have value := (fits.means_head? wf hu ml).2
  rw [← mr.2] at value
  cases r' with
  | integers =>
    have right : e.2 = .integer := by
      simp only [ProductLink.equations, types, List.mem_cons, List.not_mem_nil, or_false] at he
      obtain rfl | rfl | rfl := he <;> rfl
    obtain ⟨rfl, -⟩ | ⟨-, c, rfl⟩ := shape
    · rfl
    · rw [right] at value
      simp [Ty.eval] at value
  | sets =>
    have right : ∃ c, e.2 = .set c := by
      simp only [ProductLink.equations, types, List.mem_cons, List.not_mem_nil, or_false] at he
      obtain rfl | rfl | rfl := he <;> exact ⟨_, rfl⟩
    obtain ⟨c, right⟩ := right
    obtain ⟨-, rfl⟩ | ⟨rfl, -⟩ := shape
    · rw [right] at value
      simp [Ty.eval] at value
    · rfl

end ProductLink

/-- The links are searched from the first to the last, and the search ends. -/
lemma Store.Acyclic.firstDecided?_spec {s : Store} (ac : s.Acyclic)
    (links : List ProductLink) :
    (s.firstDecided? links = some none ∧ ∀ link ∈ links, link.Undecided s) ∨
      ∃ link r rest, s.firstDecided? links = some (some (link, r, rest)) ∧
        link.reading? s = some (some r) ∧ links.Perm (link :: rest) := by
  induction links with
  | nil => exact .inl ⟨rfl, nofun⟩
  | cons l links ih =>
    obtain ⟨o, ho⟩ := ac.exists_firstReading? [l.result, l.left, l.right]
    have ho : l.reading? s = some o := ho
    cases o with
    | some r =>
      refine .inr ⟨l, r, links, ?_, ho, .refl _⟩
      simp [firstDecided?, ho]
    | none =>
      obtain ⟨none, all⟩ | ⟨link, r, rest, some, dec, perm⟩ := ih
      · refine .inl ⟨?_, List.forall_mem_cons.2 ⟨ho, all⟩⟩
        simp [firstDecided?, ho, none]
      · refine .inr ⟨link, r, l :: rest, ?_, dec, (perm.cons l).trans (.swap _ _ _)⟩
        simp [firstDecided?, ho, some]

/-! ## Unifiers. -/

namespace Unifier

/-- A well-formed store with scoped links. -/
structure Proper (u : Unifier) : Prop where
  wellFormed : u.store.WellFormed
  links : ∀ link ∈ u.links, link.Scoped u.store.cells.size

lemma proper_empty : Unifier.empty.Proper := ⟨Store.wellFormed_empty, nofun⟩

/-- A well-formed store with scoped links that are sane. -/
structure Inv (u : Unifier) : Prop extends u.Proper where
  sane : ∀ link ∈ u.links, ∀ σ, u.store.Holds σ → link.Sane σ

/-- The valuation satisfies the store and the links. -/
def Holds (u : Unifier) (σ : Nat → Ty) : Prop :=
  u.store.Holds σ ∧ ∀ link ∈ u.links, link.Holds σ

/-- The guess fits the store and the links. -/
def Fits (u : Unifier) (g : Guess) : Prop :=
  u.store.Fits g ∧ ∀ link ∈ u.links, link.Fits g u.store.cells.size

/-- The store is plain and there are no links. -/
def Plain (u : Unifier) (g : Guess) : Prop := u.store.Plain g ∧ u.links = []

/-- No open link can be decided. -/
def Settled (u : Unifier) : Prop := ∀ link ∈ u.links, link.Undecided u.store

/-- The store was narrowed, and the links that are gone are decided by its bindings. -/
structure Advances (u u' : Unifier) : Prop where
  proper : u'.Proper
  narrows : Store.Narrows Set.univ u.store u'.store
  store : ∀ σ, u'.store.Holds σ → u.store.Holds σ
  links : ∀ link ∈ u'.links, link ∈ u.links
  decided : ∀ link ∈ u.links, link ∈ u'.links ∨ ∃ r, u'.store.Forces (link.equations r)

variable {u : Unifier}

lemma Advances.refl (proper : u.Proper) : u.Advances u :=
  ⟨proper, .refl, fun _ h => h, fun _ h => h, fun _ h => .inl h⟩

lemma Advances.trans {v w : Unifier} (h : u.Advances v) (h' : v.Advances w) : u.Advances w where
  proper := h'.proper
  narrows := h.narrows.trans h'.narrows
  store σ hw := h.store σ (h'.store σ hw)
  links link hl := h.links link (h'.links link hl)
  decided link hl := by
    obtain hl | ⟨r, forces⟩ := h.decided link hl
    · exact h'.decided link hl
    · exact .inr ⟨r, forces.of_keeps h'.narrows.keeps⟩

lemma Advances.size_eq {u' : Unifier} (h : u.Advances u') :
    u'.store.cells.size = u.store.cells.size :=
  h.narrows.size_eq

/-- What satisfies the unifier afterwards satisfied it before. -/
lemma Advances.holds {u' : Unifier} (h : u.Advances u') {σ : Nat → Ty} (hσ : u'.Holds σ) :
    u.Holds σ := by
  refine ⟨h.store σ hσ.1, fun link hl => ?_⟩
  obtain hl | ⟨r, forces⟩ := h.decided link hl
  · exact hσ.2 link hl
  · exact ⟨r, forces σ hσ.1.respects⟩

/-- Links stay sane. -/
lemma Advances.inv {u' : Unifier} (h : u.Advances u') (inv : u.Inv) : u'.Inv where
  toProper := h.proper
  sane link hl σ hσ := inv.sane link (h.links link hl) σ (h.store σ hσ)

/-- What deciding links does to a unifier. -/
structure Settles (u u' : Unifier) : Prop extends u.Advances u' where
  complete : ∀ g, u.Fits g → u'.Fits g

lemma Settles.trans {v w : Unifier} (h : u.Settles v) (h' : v.Settles w) : u.Settles w where
  toAdvances := h.toAdvances.trans h'.toAdvances
  complete g hu := h'.complete g (h.complete g hu)

lemma run_onStore {α : Type} (x : StoreM α) (u : Unifier) :
    onStore x u = ((x u.store).1, ⟨(x u.store).2, u.links⟩) := rfl

/-- Without links a unifier is its store. -/
lemma run_unify_of_links_eq_nil {u : Unifier} (h : u.links = []) (l r : Ty) :
    Unifier.unify l r u = ((Store.unify l r u.store).1, ⟨(Store.unify l r u.store).2, []⟩) := by
  rw [Unifier.unify, run_bind, run_onStore, h]
  obtain ⟨_ | t, s⟩ := Store.unify l r u.store <;> rfl

/-- Taking a decided link out of the list and unifying its equations. -/
lemma Proper.settles_decide {link : ProductLink} {r : Reading} {rest : List ProductLink}
    {s' : Store} (proper : u.Proper) (perm : u.links.Perm (link :: rest))
    (dec : link.reading? u.store = some (some r))
    (nar : Store.Narrows Set.univ u.store s') (eqs : u.store.Equates (link.equations r) s') :
    u.Settles ⟨s', rest⟩ := by
  have mem {l : ProductLink} (hl : l ∈ rest) : l ∈ u.links := perm.mem_iff.2 (by simp [hl])
  have mine : link ∈ u.links := perm.mem_iff.2 (by simp)
  refine ⟨⟨⟨nar.wellFormed proper.wellFormed, fun l hl => ?_⟩, nar, eqs.holds, fun l hl => mem hl,
    fun l hl => ?_⟩, fun g fits => ⟨?_, fun l hl => ?_⟩⟩
  · rw [nar.size_eq]
    exact proper.links l (mem hl)
  · obtain rfl | hl := List.mem_cons.1 (perm.mem_iff.1 hl)
    · exact .inr ⟨r, eqs.forces⟩
    · exact .inl hl
  · exact eqs.complete g fits.1 ((fits.2 link mine).equations proper.wellFormed fits.1 dec)
  · rw [nar.size_eq]
    exact fits.2 l (mem hl)

/-- Deciding links ends, and enough rounds leave no link that can be decided. It can not fail if a
guess that reads all choices as sets fits. -/
lemma Proper.decideWithin_spec (proper : u.Proper) (n : Nat) :
    Store.Narrows Set.univ u.store (decideWithin n u).2.store ∧
      (decideWithin n u).1 ≠ .error .divergence ∧
      ((decideWithin n u).1 = .ok () → u.Settles (decideWithin n u).2 ∧
        (u.links.length ≤ n → (decideWithin n u).2.Settled)) ∧
      ∀ e, (decideWithin n u).1 = .error (.error e) →
        ∀ g, u.Fits g → ¬ u.store.ReadsSets g := by
  induction n generalizing u with
  | zero =>
    refine ⟨.refl, nofun, fun _ => ⟨⟨.refl proper, fun _ h => h⟩, fun h => ?_⟩, nofun⟩
    have none : u.links = [] := List.length_eq_zero_iff.1 (by omega)
    intro link hl
    rw [show (decideWithin 0 u).2.links = [] from none] at hl
    cases hl
  | succ n ih =>
    rw [decideWithin, run_bind, run_get]
    obtain ⟨none, all⟩ | ⟨link, r, rest, some, dec, perm⟩ :=
      proper.wellFormed.acyclic.firstDecided?_spec u.links
    · simp only [none]
      exact ⟨.refl, nofun, fun _ => ⟨⟨.refl proper, fun _ h => h⟩, fun _ => all⟩, nofun⟩
    · have mine : link ∈ u.links := perm.mem_iff.2 (by simp)
      obtain ⟨nar, total, ok, refused⟩ :=
        proper.wellFormed.unifyAll_spec ((proper.links link mine).equations r)
      rw [← link.decide_eq r] at nar total ok refused
      simp only [some, run_bind, run_set, run_onStore]
      revert nar total ok refused
      obtain ⟨_ | _, s'⟩ := link.decide r u.store
      · intro nar total _ refused
        refine ⟨nar, by simpa using total, nofun, fun e h g fits => ?_⟩
        cases h
        exact refused e rfl g fits.1 ((fits.2 link mine).equations proper.wellFormed fits.1 dec)
      · intro nar _ ok _
        have settles := proper.settles_decide perm dec nar (ok rfl)
        obtain ⟨nar', total', ok', refused'⟩ := ih settles.proper
        refine ⟨nar.trans nar', total', fun h => ⟨settles.trans (ok' h).1, fun le => (ok' h).2 ?_⟩,
          fun e h g fits sets => refused' e h g (settles.complete g fits) (sets.narrows nar)⟩
        have := perm.length_eq
        simp only [List.length_cons] at this ⊢
        omega

/-- What unifying two types does to a unifier, and the type it gives. -/
structure Unifies (u : Unifier) (l r t : Ty) (u' : Unifier) : Prop extends u.Advances u' where
  settled : u'.Settled
  scope : t.Scoped u.store.cells.size
  forces : u'.store.Forces [(l, r), (t, l)]
  complete : ∀ (g : Guess) (v : Ty), u.Fits g → g.Means u.store.cells.size l v →
    g.Means u.store.cells.size r v →
      u'.Fits g ∧ g.Means u.store.cells.size t v ∧ (u.Plain g → u'.Plain g)

/-- What respects the bindings afterwards gives the types one value. -/
lemma Unifies.eval_eq {l r t : Ty} {u' : Unifier} (h : u.Unifies l r t u') {σ : Nat → Ty}
    (hσ : u'.store.Respects σ) : l.eval σ = r.eval σ ∧ t.eval σ = l.eval σ := by
  have eqs := h.forces σ hσ
  exact ⟨eqs (l, r) (by simp), eqs (t, l) (by simp)⟩

/-- Unification either makes two types equal or fails; a guess that makes them equal is missed only
where the unifier is not plain and a choice is read as the integers. -/
lemma Proper.unify_spec (proper : u.Proper) {l r : Ty} (hl : l.Scoped u.store.cells.size)
    (hr : r.Scoped u.store.cells.size) :
    (∃ t, (unify l r u).1 = .ok t ∧ u.Unifies l r t (unify l r u).2) ∨
      ∃ e, (unify l r u).1 = .error (.error e) ∧ (unify l r u).2.store.WellFormed ∧
        ∀ (g : Guess) (v : Ty), u.Fits g → g.Means u.store.cells.size l v →
          g.Means u.store.cells.size r v → ¬ u.Plain g ∧ ¬ u.store.ReadsSets g := by
  have wf := proper.wellFormed
  have run := wf.run_unify hl hr
  have nar := wf.unify_narrows hl hr
  have total := wf.tidy.unify_ne_divergence hl.inside hr.inside
  rw [unify, run_bind, run_onStore]
  revert run nar total
  obtain ⟨e | t, s'⟩ := Store.unify l r u.store
  · intro run nar total
    cases e with
    | divergence => exact absurd rfl total
    | error e =>
      refine .inr ⟨e, rfl, nar.wellFormed wf, fun g v fits ml mr => ?_⟩
      exact ((run.complete wf fits.1 ml mr).2 e rfl).imp_left fun no plain => no plain.1
  · intro run nar _
    have sound (σ : Nat → Ty) (h : s'.Holds σ) := run.sound wf u.store.closed_univ
      (Ty.over_univ hl) (Ty.over_univ hr) rfl (Store.holdsOn_univ.2 h)
    have proper' : Proper ⟨s', u.links⟩ := by
      refine ⟨nar.wellFormed wf, fun l hl => ?_⟩
      rw [nar.size_eq]
      exact proper.links l hl
    have first : u.Advances ⟨s', u.links⟩ :=
      ⟨proper', nar, fun σ h => Store.holdsOn_univ.1 (sound σ h).1, fun _ h => h, fun _ h => .inl h⟩
    have fits' {g : Guess} (fits : u.Fits g) (h : s'.Fits g) : Fits ⟨s', u.links⟩ g := by
      refine ⟨h, fun l hl => ?_⟩
      rw [first.size_eq]
      exact fits.2 l hl
    obtain ⟨nar', total', ok, refused⟩ := proper'.decideWithin_spec u.links.length
    have plain : u.links = [] → decideWithin u.links.length ⟨s', u.links⟩ = (.ok (), ⟨s', []⟩) := by
      intro none
      rw [none]
      rfl
    simp only [run_bind, decideLinks, run_get]
    revert nar' total' ok refused plain
    obtain ⟨e | _, u'⟩ := decideWithin u.links.length ⟨s', u.links⟩
    · intro nar' total' _ refused plain
      cases e with
      | divergence => exact absurd rfl total'
      | error e =>
        refine .inr ⟨e, rfl, nar'.wellFormed proper'.wellFormed, fun g v fits ml mr =>
          ⟨fun h => ?_, fun sets => ?_⟩⟩
        · cases plain h.2
        · have f := ((run.complete wf fits.1 ml mr).1 t rfl).1
          exact refused e rfl g (fits' fits f) (sets.narrows nar)
    · intro nar' _ ok _ plain
      obtain ⟨settles, settled⟩ := ok rfl
      refine .inl ⟨t, rfl, first.trans settles.toAdvances, settled le_rfl, ?_, ?_, ?_⟩
      · exact ((run.narrows wf u.store.closed_univ (Ty.over_univ hl) (Ty.over_univ hr)).2 t rfl).1
      · intro σ resp
        obtain ⟨e, e'⟩ := run.forces wf hl hr rfl (resp.of_keeps nar'.keeps)
        simp [e, e']
      · intro g v fits ml mr
        obtain ⟨f, m, p⟩ := (run.complete wf fits.1 ml mr).1 t rfl
        refine ⟨settles.complete g (fits' fits f), m, fun h => ?_⟩
        cases plain h.2
        exact ⟨p h.1, rfl⟩

/-- What adding a link does to a unifier. -/
structure Links (u : Unifier) (l : ProductLink) (u' : Unifier) : Prop
    extends Advances ⟨u.store, u.links ++ [l]⟩ u' where
  settled : u'.Settled
  complete : ∀ g : Guess, u.Fits g → l.Fits g u.store.cells.size → u'.Fits g

/-- What satisfies the unifier afterwards satisfied it before and satisfies the link. -/
lemma Links.sound {l : ProductLink} {u' : Unifier} (h : u.Links l u') {σ : Nat → Ty}
    (hσ : u'.Holds σ) : u.Holds σ ∧ l.Holds σ := by
  obtain ⟨store, links⟩ := h.holds hσ
  exact ⟨⟨store, fun l' h' => links l' (List.mem_append_left _ h')⟩, links l (by simp)⟩

/-- A unifier with one more link. -/
lemma Proper.concat (proper : u.Proper) {l : ProductLink} (hl : l.Scoped u.store.cells.size) :
    Proper ⟨u.store, u.links ++ [l]⟩ := by
  refine ⟨proper.wellFormed, fun l' h => ?_⟩
  obtain h | h := List.mem_append.1 h
  · exact proper.links l' h
  · rw [List.mem_singleton.1 h]
    exact hl

lemma Inv.concat (inv : u.Inv) {l : ProductLink} (hl : l.Scoped u.store.cells.size)
    (sane : ∀ σ, u.store.Holds σ → l.Sane σ) : Inv ⟨u.store, u.links ++ [l]⟩ := by
  refine ⟨inv.toProper.concat hl, fun l' h σ hσ => ?_⟩
  obtain h | h := List.mem_append.1 h
  · exact inv.sane l' h σ hσ
  · rw [List.mem_singleton.1 h]
    exact sane σ hσ

/-- A link is added, or it can be decided and its equations fail. -/
lemma Proper.link_spec (proper : u.Proper) {l : ProductLink} (hl : l.Scoped u.store.cells.size) :
    ((link l u).1 = .ok () ∧ u.Links l (link l u).2) ∨
      ∃ e, (link l u).1 = .error (.error e) ∧ (link l u).2.store.WellFormed := by
  obtain ⟨nar, total, ok, -⟩ := (proper.concat hl).decideWithin_spec (u.links ++ [l]).length
  simp only [link, decideLinks, run_bind, run_modify, run_get]
  revert nar total ok
  obtain ⟨e | _, u'⟩ := decideWithin (u.links ++ [l]).length ⟨u.store, u.links ++ [l]⟩
  · intro nar total _
    cases e with
    | divergence => exact absurd rfl total
    | error e => exact .inr ⟨e, rfl, nar.wellFormed proper.wellFormed⟩
  · intro nar _ ok
    obtain ⟨settles, settled⟩ := ok rfl
    refine .inl ⟨rfl, settles.toAdvances, settled le_rfl, fun g fits hl => ?_⟩
    refine settles.complete g ⟨fits.1, fun l' h => ?_⟩
    obtain h | h := List.mem_append.1 h
    · exact fits.2 l' h
    · rw [List.mem_singleton.1 h]
      exact hl

/-! ## New variables. -/

variable {c : Cell}

lemma size_allocate (u : Unifier) (c : Cell) :
    (u.allocate c).2.store.cells.size = u.store.cells.size + 1 :=
  u.store.size_allocate c

lemma Proper.allocate (proper : u.Proper)
    (hc : ∀ t ∈ c.contents, t.Scoped u.store.cells.size) : (u.allocate c).2.Proper where
  wellFormed := proper.wellFormed.allocate hc
  links l hl := by
    rw [size_allocate]
    exact (proper.links l hl).mono (by omega)

lemma Inv.allocate (inv : u.Inv) (hc : ∀ t ∈ c.contents, t.Scoped u.store.cells.size) :
    (u.allocate c).2.Inv where
  toProper := inv.toProper.allocate hc
  sane l hl σ h := inv.sane l hl σ (Store.holds_allocate.1 h).1

lemma Settled.allocate (settled : u.Settled) (proper : u.Proper)
    (hc : ∀ t ∈ c.contents, t.Scoped u.store.cells.size) : (u.allocate c).2.Settled := by
  intro l hl
  have scope : ∀ t ∈ [l.result, l.left, l.right], t.Scoped u.store.cells.size := fun t ht =>
    proper.links l hl t (by simp [ProductLink.parts] at ht ⊢; tauto)
  have old := Store.firstReading?_eq_none (settled l hl)
  show (u.store.allocate c).2.firstReading? [l.result, l.left, l.right] = some none
  generalize [l.result, l.left, l.right] = ts at scope old
  induction ts with
  | nil => rfl
  | cons t ts ih =>
    rw [List.forall_mem_cons] at scope old
    obtain ⟨v, hv, ni, ns⟩ := Store.reading?_eq_none old.1
    have same : (u.store.allocate c).2.reading? t = some none := by
      rw [Store.reading?, proper.wellFormed.head?_allocate hc scope.1 hv]
      cases v <;> simp_all
    simp only [Store.firstReading?, same, Option.bind_eq_bind, Option.bind_some]
    exact ih scope.2 old.2

lemma holds_allocate {σ : Nat → Ty} :
    (u.allocate c).2.Holds σ ↔ u.Holds σ ∧ c.Holds σ u.store.cells.size := by
  rw [Holds, Holds, show (u.allocate c).2.store = (u.store.allocate c).2 from rfl,
    Store.holds_allocate, show (u.allocate c).2.links = u.links from rfl]
  tauto

lemma Fits.allocate {g g' : Guess} (fits : u.Fits g) (inv : u.Inv)
    (ext : g.Extends u.store.cells.size g')
    (live : u.store.cells.size ∉ g'.idle → c.Fits g' u.store.cells.size)
    (idle : u.store.cells.size ∈ g'.idle → ∀ w ∈ c.mentions, w ∈ g'.idle) :
    (u.allocate c).2.Fits g' := by
  refine ⟨fits.1.allocate inv.wellFormed ext live idle, fun l hl => ?_⟩
  obtain ⟨r, hr⟩ := fits.2 l hl
  refine ⟨r, fun e he => ?_⟩
  obtain ⟨v, m, m'⟩ := hr e he
  rw [size_allocate]
  exact ⟨v, m.extend ext (by omega), m'.extend ext (by omega)⟩

/-! ## Models. -/

/-- Models of the store satisfy open links that can not be decided. -/
lemma Settled.holds_model (settled : u.Settled) (inv : u.Inv) (c : Choice) :
    u.Holds (u.store.model c) := by
  have wf := inv.wellFormed
  refine ⟨wf.holds_model c, fun l hl => ?_⟩
  -- In every model the product and its operands are integers exactly if choices are.
  have sides : ∀ e ∈ l.equations .sets,
      (e.1.eval (u.store.model c) = .integer ↔ c.sets = false) := by
    intro e he
    have part : e.1 ∈ [l.result, l.left, l.right] := by
      simp only [ProductLink.equations, List.mem_cons, List.not_mem_nil, or_false] at he
      obtain rfl | rfl | rfl := he <;> simp
    have scope := ((inv.links l hl).equations .sets e he).1
    obtain ⟨t, ht, ni, ns⟩ :=
      Store.reading?_eq_none (Store.firstReading?_eq_none (settled l hl) e.1 part)
    have value (c : Choice) := (Store.holdsOn_univ.2 (wf.holds_model c)).eval_head? wf
      u.store.closed_univ ht (Ty.over_univ scope)
    have sane (c : Choice) := inv.sane l hl _ (wf.holds_model c) e he
    have right : ∃ x, e.2 = .set x := by
      simp only [ProductLink.equations, ProductLink.types, List.mem_cons, List.not_mem_nil,
        or_false] at he
      obtain rfl | rfl | rfl := he <;> exact ⟨_, rfl⟩
    obtain ⟨x, right⟩ := right
    simp only [← value, right, Ty.eval] at sane
    cases t with
    | var v =>
      have await : Store.Awaits (u.store.cell v) := by
        have unbound := Store.unbound_of_head? ht
        cases hc : u.store.cell v with
        | bound t => exact absurd hc (unbound t)
        | setOrInteger => exact .set
        | integerOrPairs => exact .pairs
        | free =>
          have := sane .others
          rw [Ty.eval, Store.model, wf.resolve?_var, Store.expand, hc] at this
          simp [Choice.others, Ty.ground] at this
      rw [← value, Ty.eval, wf.model_eq_integer_iff c await]
    | integer => exact absurd rfl ni
    | set y => exact absurd rfl (ns y)
    | _ => simpa [Ty.eval] using sane .others
  have sane := inv.sane l hl _ (wf.holds_model c)
  cases hs : c.sets with
  | false =>
    refine ⟨.integers, fun e he => ?_⟩
    simp only [hs, iff_true, ProductLink.equations, List.forall_mem_cons] at sides
    simp only [ProductLink.equations, ProductLink.types, List.mem_cons, List.not_mem_nil,
      or_false] at he
    obtain rfl | rfl | rfl := he
    · exact sides.1
    · exact sides.2.1
    · exact sides.2.2.1
  | true =>
    refine ⟨.sets, fun e he => (sane e he).resolve_left ?_⟩
    simp [sides e he, hs]

end Unifier

end BMethod
