import BMethod.Proofs.Store.Frame

/-!
# Runs that do not fail on idle types

A store is steady under a guess if the guess reads every choice of it as the integers, and the bindings
respect the values of idle variables as well. On a steady store what is live is unified without failure
if the guess gives it one value; only joining two choices may fail, since their idle elements are unified
then. It does not where the values of these elements are equal.

Whether they are is known for those variables that are met on the way down from two types. `Calm` says of
a property of what is unified that it passes to all that is met, and that it makes the elements of joined
choices equal. A run on types of such a property does not fail (`Run.calm`).
-/

namespace BMethod.Store

open Relation

variable {s s₁ : Store} {g : Guess}

/-- The guess fits, all its values respect the bindings, and it reads every choice as the integers. -/
structure Steady (s : Store) (g : Guess) : Prop where
  wellFormed : s.WellFormed
  fits : s.Fits g
  respects : s.Respects g.value
  integer : ∀ v, Awaits (s.cell v) → v ∉ g.idle ∧ g.value v = .integer

namespace Steady

/-- A steady store is one under its guess as far as live variables go. -/
lemma pins?_eq (steady : s.Steady g) (v : Nat) :
    (s.cell v).pins? (g.value v) = none ∧ (s.cell v).Unbound ∨
      ∃ t, (s.cell v).pins? (g.value v) = some t ∧ s.cell v = .bound t := by
  have value := steady.integer v
  cases hc : s.cell v with
  | free =>
    have none : Cell.free.pins? (g.value v) = none := rfl
    exact .inl ⟨none, Cell.unbound_of_pins? none⟩
  | bound t => exact .inr ⟨t, rfl, rfl⟩
  | setOrInteger e =>
    rw [hc] at value
    have none : (Cell.setOrInteger e).pins? (g.value v) = none := by simp [Cell.pins?, value .set]
    exact .inl ⟨none, Cell.unbound_of_pins? none⟩
  | integerOrPairs l r =>
    rw [hc] at value
    have none : (Cell.integerOrPairs l r).pins? (g.value v) = none := by simp [Cell.pins?, value .pairs]
    exact .inl ⟨none, Cell.unbound_of_pins? none⟩

/-- A live variable of a steady store that is not bound is free under the guess. -/
lemma unbound_under (steady : s.Steady g) {v : Nat} (h : (s.cell v).Unbound) :
    ((s.under g).cell v).Unbound := by
  obtain ⟨none, -⟩ | ⟨t, -, bound⟩ := steady.pins?_eq v
  · exact Store.unbound_under.2 (.inr none)
  · exact absurd bound (h t)

/-- What respects the bindings respects them under the guess. -/
lemma respects_under (steady : s.Steady g) {τ : Nat → Ty} (resp : s.Respects τ) :
    s.Admits g τ := by
  refine Store.respects_under.2 fun v hv t ht => ?_
  obtain ⟨none, -⟩ | ⟨u, some, bound⟩ := steady.pins?_eq v
  · rw [none] at ht
    cases ht
  · rw [some] at ht
    cases ht
    exact resp v t bound

/-- A store stays steady under a successful run if the bindings of idle variables do. -/
lemma run (steady : s.Steady g) {stage n l r t} (run : Run stage n s l r (.ok t) s₁) {u : Ty}
    (hl : g.Means s.cells.size l u) (hr : g.Means s.cells.size r u)
    (idle : s₁.RespectsOn g.idle g.value) : s₁.Steady g := by
  have nar := (run.narrows steady.wellFormed s.closed_univ (Ty.over_univ hl.1.1)
    (Ty.over_univ hr.1.1)).1
  have fits := ((run.complete steady.wellFormed steady.fits hl hr).1 t rfl).1
  refine ⟨nar.wellFormed steady.wellFormed, fits, fun v u hc => ?_, fun v wait => ?_⟩
  · by_cases hv : v ∈ g.idle
    · exact idle v hv u hc
    · have cell := fits.cells v hv
      rw [hc] at cell
      exact cell.1
  · rw [nar.cell_of_unbound wait.unbound] at wait
    exact steady.integer v wait

end Steady

/-- A property of what is unified passes to the heads of types, to the parts of heads of one form, and on
to later parts when earlier ones were unified; and of two different choices that have the property the
elements have one value. -/
structure Calm (g : Guess) (P : Stage → Store → Ty → Ty → Prop) : Prop where
  heads : ∀ {s l r l' r' u}, s.Steady g → g.Means s.cells.size l u → g.Means s.cells.size r u →
    P .types s l r → s.head? l = some l' → s.head? r = some r' → P .heads s l' r'
  swap : ∀ {s l r}, P .heads s l r → P .heads s r l
  set : ∀ {s a b}, s.Steady g → P .heads s (.set a) (.set b) → P .types s a b
  first : ∀ {s a b c d}, s.Steady g → P .heads s (.couple a b) (.couple c d) → P .types s a c
  second : ∀ {s a b c d n x s₁ u}, s.Steady g → P .heads s (.couple a b) (.couple c d) →
    Run .types n s a c (.ok x) s₁ → g.Means s.cells.size a u → g.Means s.cells.size c u →
      s₁.Steady g → P .types s₁ b d
  fields : ∀ {s as bs}, s.Steady g → P .heads s (.record as) (.record bs) →
    P .fields s (.record as) (.record bs)
  field : ∀ {s a t u as bs}, s.Steady g → P .fields s (.record ((a, t) :: as)) (.record ((a, u) :: bs)) →
    P .types s t u
  rest : ∀ {s a t u as bs n x s₁ v}, s.Steady g →
    P .fields s (.record ((a, t) :: as)) (.record ((a, u) :: bs)) → Run .types n s t u (.ok x) s₁ →
      g.Means s.cells.size t v → g.Means s.cells.size u v → s₁.Steady g →
        P .fields s₁ (.record as) (.record bs)
  elements : ∀ {s a b x y stage p q}, s.Steady g → P .heads s (.var a) (.var b) → a ≠ b →
    Joins s a b x y (some (stage, p, q)) → p.eval g.value = q.eval g.value

/-- An equation is asked for only of sets. -/
lemma Asks.exists_set {c : Cell} {t : Ty} {e : Ty × Ty} (ask : Asks c t (some e)) :
    ∃ u, t = .set u := by
  cases ask <;> exact ⟨_, rfl⟩

/-- A run on types of a calm property to which the guess gives one value does not fail, and leaves a
steady store. -/
theorem Run.calm {P : Stage → Store → Ty → Ty → Prop} (calm : Calm g P) {stage n s l r out s₁}
    (run : Run stage n s l r out s₁) (steady : s.Steady g) (prop : P stage s l r) {u : Ty}
    (hl : g.Means s.cells.size l u) (hr : g.Means s.cells.size r u) :
    (∀ e, out ≠ .error (.error e)) ∧ ∀ t, out = .ok t → s₁.Steady g := by
  suffices h : (∀ e, out ≠ .error (.error e)) ∧ ∀ t, out = .ok t → s₁.RespectsOn g.idle g.value by
    refine ⟨h.1, fun t e => ?_⟩
    subst e
    exact steady.run run hl hr (h.2 t rfl)
  have kept (s : Store) (steady : s.Steady g) : s.RespectsOn g.idle g.value :=
    fun v _ => steady.respects v
  have assigned {s : Store} (steady : s.Steady g) {v : Nat} (hv : v ∉ g.idle) (c : Cell) :
      (s.assign v c).RespectsOn g.idle g.value := fun w hw t hc => by
    rw [cell_assign_of_ne (by rintro rfl; exact hv hw)] at hc
    exact steady.respects w t hc
  have integer {s : Store} (steady : s.Steady g) {v : Nat} {t : Ty} (wait : Awaits (s.cell v))
      (nonvar : ∀ w, t ≠ .var w) (eq : t.eval g.value = g.value v) : t = .integer := by
    rw [(steady.integer v wait).2] at eq
    cases t with
    | var w => exact absurd rfl (nonvar w)
    | integer => rfl
    | _ => simp [Ty.eval] at eq
  induction run generalizing u with
  | exhausted => exact ⟨by simp, by simp⟩
  | enter el ml er mr run ih =>
    have hl' := steady.fits.means_head? steady.wellFormed el hl
    obtain ⟨rfl, rfl⟩ := ml.of_scoped hl'.1.1
    have hr' := steady.fits.means_head? steady.wellFormed er hr
    obtain ⟨rfl, rfl⟩ := mr.of_scoped hr'.1.1
    exact ih steady (calm.heads steady hl hr prop el er) hl' hr'
  | self => exact ⟨by simp, fun _ _ => kept _ steady⟩
  | entangled ne ua ub tied =>
    exact absurd tied (steady.fits.not_entangled (Ty.over_var.1 hl.1).2 (Ty.over_var.1 hr.1).2 ua ub
      (hl.2.trans hr.2.symm))
  | @join n s a b x y ne apart j =>
    refine ⟨by simp, fun _ _ => assigned steady ?_ _⟩
    obtain ⟨rfl, -⟩ | ⟨rfl, -⟩ := j.sides
    · exact (Ty.over_var.1 hl.1).2
    · exact (Ty.over_var.1 hr.1).2
  | @joinThen n s a b x y stage p q out s₁ ne apart j run _ =>
    -- What is unified is idle, where nothing awaits a choice.
    have value : g.value a = g.value b := hl.2.trans hr.2.symm
    have la := Ty.over_var.1 hl.1
    have lb := Ty.over_var.1 hr.1
    have lx : x ∉ g.idle := by obtain ⟨rfl, -⟩ | ⟨rfl, -⟩ := j.sides <;> first | exact la.2 | exact lb.2
    have ly : y ∉ g.idle := by obtain ⟨-, rfl⟩ | ⟨-, rfl⟩ := j.sides <;> first | exact la.2 | exact lb.2
    have ib := (steady.integer b j.awaits).2
    have ia := value.trans ib
    have ixy : g.value x = .integer ∧ g.value y = .integer := by
      obtain ⟨rfl, rfl⟩ | ⟨rfl, rfl⟩ := j.sides
      · exact ⟨ia, ib⟩
      · exact ⟨ib, ia⟩
    obtain ⟨ip, iq⟩ := j.idle_of_integer steady.wellFormed steady.fits lx ly ixy.1 ixy.2
    have bind := j.narrows ne apart la lb
    have same : ∀ v ∈ g.idle, (s.assign x (.bound (.var y))).cell v = s.cell v := fun v hv =>
      cell_assign_of_ne (by rintro rfl; exact lx hv)
    rw [← bind.size_eq] at ip iq
    have closed : (s.assign x (.bound (.var y))).Closed g.idle := fun v hv w e => by
      rw [Edge, same v hv] at e
      exact steady.fits.closed v hv w e
    obtain ⟨total, after⟩ := run.calm_of_chosen (bind.wellFormed steady.wellFormed) closed
      (fun v hv wait => (steady.integer v (by rwa [same v hv] at wait)).1 hv) (assigned steady lx _)
      ip iq (calm.elements steady prop ne j)
    refine ⟨fun e h => total e (map_eq_error h), fun t e => ?_⟩
    obtain ⟨_, rfl, -⟩ := map_eq_ok e
    exact after _ rfl
  | flip _ _ ih => exact ih steady (calm.swap prop) hr hl
  | @occurs n s v t e nonvar found =>
    exact absurd found (steady.fits.not_occurs (Ty.over_var.1 hl.1).2
      ⟨hr.1, hr.2.trans hl.2.symm⟩ nonvar)
  | refuse wait ni _ nonvar =>
    exact absurd (integer steady wait nonvar (hr.2.trans hl.2.symm)) ni
  | bind => exact ⟨by simp, fun _ _ => assigned steady (Ty.over_var.1 hl.1).2 _⟩
  | bindThen nonvar _ ask | bindFails nonvar _ ask =>
    obtain ⟨_, rfl⟩ := ask.exists_set
    cases integer steady ask.awaits nonvar (hr.2.trans hl.2.symm)
  | leaf => exact ⟨by simp, fun _ _ => kept _ steady⟩
  | clash differ => exact absurd (hl.2.trans hr.2.symm) (differ _)
  | @set n s a b out s₁ _ ih =>
    have value := hl.2
    rw [Ty.eval] at value
    subst value
    obtain ⟨total, after⟩ := ih steady (calm.set steady prop) ⟨Ty.over_set.1 hl.1, rfl⟩
      (Guess.Means.set_iff.1 hr)
    refine ⟨fun e h => total e (map_eq_error h), fun t e => ?_⟩
    obtain ⟨v, rfl, -⟩ := map_eq_ok e
    exact after v rfl
  | @couple n s a b c d x s' out s₁ run _ ih ih' =>
    have value := hl.2
    rw [Ty.eval] at value
    subst value
    obtain ⟨ma, mb⟩ := Guess.Means.couple_iff.1 ⟨hl.1, rfl⟩
    obtain ⟨mc, md⟩ := Guess.Means.couple_iff.1 hr
    have steady' := steady.run run ma mc ((ih steady (calm.first steady prop) ma mc).2 x rfl)
    have nar := (run.narrows steady.wellFormed s.closed_univ (Ty.over_univ ma.1.1)
      (Ty.over_univ mc.1.1)).1
    have next := calm.second steady prop run ma mc steady'
    rw [← nar.size_eq] at mb md
    obtain ⟨total, after⟩ := ih' steady' next mb md
    refine ⟨fun e h => total e (map_eq_error h), fun t e => ?_⟩
    obtain ⟨v, rfl, -⟩ := map_eq_ok e
    exact after v rfl
  | @coupleFails n s a b c d e s' _ ih =>
    have value := hl.2
    rw [Ty.eval] at value
    subst value
    obtain ⟨ma, -⟩ := Guess.Means.couple_iff.1 ⟨hl.1, rfl⟩
    obtain ⟨mc, -⟩ := Guess.Means.couple_iff.1 hr
    refine ⟨fun d h => ?_, by simp⟩
    cases h
    exact (ih steady (calm.first steady prop) ma mc).1 d rfl
  | record _ ih => exact ih steady (calm.fields steady prop) hl hr
  | nil => exact ⟨by simp, fun _ _ => kept _ steady⟩
  | @cons n s a t as v bs x cs s' s₁ run _ ih ih' =>
    have value := hl.2
    rw [Ty.eval, Ty.evalFields] at value
    subst value
    obtain ⟨-, mt, mts⟩ := Guess.Means.record_cons_iff.1 ⟨hl.1, rfl⟩
    obtain ⟨-, mv, mvs⟩ := Guess.Means.record_cons_iff.1 hr
    have steady' := steady.run run mt mv ((ih steady (calm.field steady prop) mt mv).2 x rfl)
    have nar := (run.narrows steady.wellFormed s.closed_univ (Ty.over_univ mt.1.1)
      (Ty.over_univ mv.1.1)).1
    have next := calm.rest steady prop run mt mv steady'
    rw [← nar.size_eq] at mts mvs
    exact ⟨by simp, fun _ _ => (ih' steady' next mts mvs).2 _ rfl⟩
  | @consFails n s a t as v bs e s' _ ih =>
    have value := hl.2
    rw [Ty.eval, Ty.evalFields] at value
    subst value
    obtain ⟨-, mt, -⟩ := Guess.Means.record_cons_iff.1 ⟨hl.1, rfl⟩
    obtain ⟨-, mv, -⟩ := Guess.Means.record_cons_iff.1 hr
    refine ⟨fun d h => ?_, by simp⟩
    cases h
    exact (ih steady (calm.field steady prop) mt mv).1 d rfl
  | @consRestFails n s a t as v bs x e s' s₁ run _ ih ih' =>
    have value := hl.2
    rw [Ty.eval, Ty.evalFields] at value
    subst value
    obtain ⟨-, mt, mts⟩ := Guess.Means.record_cons_iff.1 ⟨hl.1, rfl⟩
    obtain ⟨-, mv, mvs⟩ := Guess.Means.record_cons_iff.1 hr
    have steady' := steady.run run mt mv ((ih steady (calm.field steady prop) mt mv).2 x rfl)
    have nar := (run.narrows steady.wellFormed s.closed_univ (Ty.over_univ mt.1.1)
      (Ty.over_univ mv.1.1)).1
    have next := calm.rest steady prop run mt mv steady'
    rw [← nar.size_eq] at mts mvs
    refine ⟨fun d h => ?_, by simp⟩
    cases h
    exact (ih' steady' next mts mvs).1 d rfl

end BMethod.Store
