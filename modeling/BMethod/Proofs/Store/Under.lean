import BMethod.Proofs.Store.Mirror
import BMethod.Proofs.Store.Solutions

/-!
# A store under a guess

A guess decides how the choices of a store are read. Under the guess the store is one without choices:
what is read as sets is bound to its alternative, and what is read as the integers, or is idle, is
free (`Store.under`). What respects its bindings is all that the live part of the store demands once
the choices are read.

A successful run adds the one equation of its two types to these demands, whatever it has unified
besides (`Run.respects_under_iff`).
-/

namespace BMethod

open Relation

/-- The type that the cell of a variable with a value gives the variable: its binding, or its sets if
the value says that they are chosen. -/
def Cell.pins? (value : Ty) : Cell → Option Ty
  | .free => none
  | .bound t => some t
  | .setOrInteger e => if value = .integer then none else some (.set e)
  | .integerOrPairs l r => if value = .integer then none else some (.relation l r)

lemma Cell.unbound_of_pins? {value : Ty} {c : Cell} (h : c.pins? value = none) : c.Unbound := by
  rintro t rfl
  cases h

/-- What a cell says is made up of what it holds. -/
lemma Cell.pins?_parts {Q : Ty → Prop} (set : ∀ t, Q t → Q (.set t))
    (couple : ∀ l r, Q l → Q r → Q (.couple l r)) {value t : Ty} {c : Cell}
    (h : c.pins? value = some t) (hc : ∀ u ∈ c.contents, Q u) : Q t := by
  cases c with
  | free => cases h
  | bound u =>
    cases h
    exact hc _ (by simp [contents])
  | setOrInteger e =>
    simp only [pins?] at h
    split at h
    · cases h
    · cases h
      exact set _ (hc _ (by simp [contents]))
  | integerOrPairs l r =>
    simp only [pins?] at h
    split at h
    · cases h
    · cases h
      exact set _ (couple _ _ (hc _ (by simp [contents])) (hc _ (by simp [contents])))

namespace Store

variable {s s' : Store} {g : Guess} {τ : Nat → Ty}

open Classical in
/-- The store with the choices that the guess reads as sets made, and nothing else known. -/
noncomputable def under (s : Store) (g : Guess) : Store :=
  ⟨Array.ofFn fun i : Fin s.cells.size =>
    if i.1 ∈ g.idle then .free else ((s.cell i).pins? (g.value i)).elim .free .bound⟩

/-- The valuation respects the store under the guess. -/
abbrev Admits (s : Store) (g : Guess) (τ : Nat → Ty) : Prop := (s.under g).Respects τ

/-- The variable is allocated and not idle. -/
def Live (s : Store) (g : Guess) (v : Nat) : Prop := v < s.cells.size ∧ v ∉ g.idle

lemma live_of_over {t : Ty} (h : t.Over s.cells.size g.idleᶜ) {v : Nat} (hv : v ∈ t.vars) :
    s.Live g v := ⟨h.1.lt hv, h.2 v hv⟩

lemma size_under (s : Store) (g : Guess) : (s.under g).cells.size = s.cells.size := by
  simp [under]

open Classical in
lemma cell_under (s : Store) (g : Guess) (v : Nat) :
    (s.under g).cell v =
      if v ∈ g.idle then .free else ((s.cell v).pins? (g.value v)).elim .free .bound := by
  by_cases h : v < s.cells.size
  · have : v < (s.under g).cells.size := by rwa [size_under]
    simp [cell, under, h]
  · rw [cell_of_size_le (by rw [size_under]; omega), cell_of_size_le (s := s) (by omega)]
    simp [Cell.pins?]

/-- Under a guess the live variables are bound to what their cells say. -/
lemma bound_under {v : Nat} {t : Ty} :
    (s.under g).cell v = .bound t ↔ v ∉ g.idle ∧ (s.cell v).pins? (g.value v) = some t := by
  rw [cell_under]
  split
  · simp [*]
  · cases h : (s.cell v).pins? (g.value v) <;> simp [*]

lemma unbound_under {v : Nat} :
    ((s.under g).cell v).Unbound ↔ v ∈ g.idle ∨ (s.cell v).pins? (g.value v) = none := by
  rw [cell_under]
  split
  · simp [Cell.Unbound, *]
  · cases h : (s.cell v).pins? (g.value v) <;> simp [Cell.Unbound, *]

lemma respects_under : s.Admits g τ ↔
    ∀ v, v ∉ g.idle → ∀ t, (s.cell v).pins? (g.value v) = some t → τ v = t.eval τ := by
  simp only [Admits, Respects, bound_under, and_imp]
  exact ⟨fun h v hv t => h v t hv, fun h v t hv => h v hv t⟩

/-- All that cells hold under a guess is what they pin their variables to. -/
lemma mem_contents_under {v : Nat} {t : Ty} : t ∈ ((s.under g).cell v).contents ↔
    v ∉ g.idle ∧ (s.cell v).pins? (g.value v) = some t := by
  rw [cell_under]
  split
  · simp [Cell.contents, *]
  · cases h : (s.cell v).pins? (g.value v) <;> simp [Cell.contents, *, eq_comm]

/-- A mention under the guess is a mention. -/
lemma edge_of_under {v w : Nat} (e : (s.under g).Edge v w) : s.Edge v w := by
  obtain ⟨t, ht, hw⟩ := Cell.mem_mentions.1 e
  refine Cell.pins?_parts (Q := fun u => ∀ w ∈ u.vars, s.Edge v w) (fun _ h => h)
    (fun l r hl hr x hx => ?_) (mem_contents_under.1 ht).2
    (fun u hu x hx => Cell.mem_mentions.2 ⟨u, hu, hx⟩) w hw
  exact (List.mem_append.1 hx).elim (hl x) (hr x)

lemma WellFormed.under (wf : s.WellFormed) (g : Guess) : (s.under g).WellFormed where
  within v t ht := by
    rw [size_under]
    exact Cell.pins?_parts (Q := Ty.Scoped s.cells.size) (fun _ h => h) (fun _ _ hl hr => ⟨hl, hr⟩)
      (mem_contents_under.1 ht).2 (wf.within v)
  acyclic v w e r := wf.acyclic v w (edge_of_under e) (ReflTransGen.mono (fun _ _ => edge_of_under) w v r)

/-! ## What fits. -/

/-- The type that a live variable is pinned to means its value. -/
lemma Fits.means_pinned (fits : s.Fits g) (wf : s.WellFormed) {v : Nat} {t : Ty} (hv : v ∉ g.idle)
    (h : (s.cell v).pins? (g.value v) = some t) : g.Means s.cells.size t (g.value v) := by
  have cell := fits.cells v hv
  have within := wf.within v
  generalize s.cell v = c at cell within h
  cases c with
  | free => cases h
  | bound u =>
    cases h
    exact ⟨⟨within _ (by simp [Cell.contents]), cell.2⟩, cell.1.symm⟩
  | setOrInteger e =>
    simp only [Cell.pins?] at h
    split at h
    · cases h
    · rename_i ne
      cases h
      obtain ⟨integer, -⟩ | ⟨value, live⟩ := cell
      · exact absurd integer ne
      · exact ⟨⟨within e (by simp [Cell.contents]), live⟩, value.symm⟩
  | integerOrPairs l r =>
    simp only [Cell.pins?] at h
    split at h
    · cases h
    · rename_i ne
      cases h
      obtain ⟨integer, -⟩ | ⟨value, live⟩ := cell
      · exact absurd integer ne
      · exact ⟨⟨⟨within l (by simp [Cell.contents]), within r (by simp [Cell.contents])⟩, live⟩,
          value.symm⟩

/-- The values of a guess that fits respect the store under it. -/
lemma Fits.respects_under (fits : s.Fits g) (wf : s.WellFormed) : s.Admits g g.value :=
  Store.respects_under.2 fun _ hv _ h => (fits.means_pinned wf hv h).2.symm

/-- Under a guess that fits, live variables lead to live ones. -/
lemma Fits.closed_under (fits : s.Fits g) (wf : s.WellFormed) : (s.under g).Closed g.idleᶜ := by
  intro v hv w e
  obtain ⟨t, ht, hw⟩ := Cell.mem_mentions.1 e
  obtain ⟨hv, ht⟩ := mem_contents_under.1 ht
  exact (fits.means_pinned wf hv ht).1.2 w hw

/-- What respects the store under a guess respects the store with other values for idle variables. -/
lemma Fits.exists_respects (fits : s.Fits g) (wf : s.WellFormed) (resp : s.Admits g τ) :
    ∃ σ, s.Respects σ ∧ ∀ v ∉ g.idle, σ v = τ v := by
  obtain ⟨σ, hσ, val⟩ := wf.exists_respects τ
  refine ⟨σ, hσ, fun v hv => ?_⟩
  induction v using wf.acyclic.wellFounded.induction with
  | _ v ih =>
    obtain unbound | ⟨t, hc⟩ := unbound_or_bound (s.cell v)
    · exact val v unbound
    · have live := fits.cells v hv
      rw [hc] at live
      rw [hσ v t hc, Store.respects_under.1 resp v hv t (by rw [hc]; rfl)]
      exact Ty.eval_congr fun w hw => ih w (by simpa [Edge, hc] using hw) (live.2 w hw)

/-- A live type has the value of its head. -/
lemma Fits.eval_head? (fits : s.Fits g) (wf : s.WellFormed) (resp : s.Admits g τ)
    {t u x : Ty} (h : s.head? t = some u) (ht : g.Means s.cells.size t x) :
    u.eval τ = t.eval τ := by
  obtain ⟨σ, hσ, same⟩ := fits.exists_respects wf resp
  have live {t : Ty} (ht : g.Means s.cells.size t x) : t.eval σ = t.eval τ :=
    Ty.eval_congr fun v hv => same v (ht.1.2 v hv)
  rw [← live ht, ← live (fits.means_head? wf h ht), hσ.eval_head? h]

/-! ## Runs. -/

/-- Only the cells of live variables count. -/
lemma respects_under_congr (same : ∀ v ∉ g.idle, s'.cell v = s.cell v) :
    s'.Admits g τ ↔ s.Admits g τ := by
  simp only [Admits, respects_under]
  exact forall₂_congr fun v hv => by rw [same v hv]

/-- Binding a live variable replaces what its cell pins it to by its type. -/
lemma respects_under_assign {x : Nat} {t : Ty} (hx : x ∉ g.idle) :
    (s.assign x (.bound t)).Admits g τ ∧
        (∀ u, (s.cell x).pins? (g.value x) = some u → τ x = u.eval τ) ↔
      s.Admits g τ ∧ τ x = t.eval τ := by
  simp only [Admits, respects_under]
  constructor
  · rintro ⟨resp, old⟩
    refine ⟨fun v hv u hu => ?_, resp x hx t (by rw [cell_assign_self]; rfl)⟩
    by_cases e : v = x
    · subst e
      exact old u hu
    · exact resp v hv u (by rwa [cell_assign_of_ne e])
  · rintro ⟨resp, eq⟩
    refine ⟨fun v hv u hu => ?_, fun u hu => resp x hx u hu⟩
    by_cases e : v = x
    · subst e
      rw [cell_assign_self] at hu
      cases hu
      exact eq
    · exact resp v hv u (by rwa [cell_assign_of_ne e] at hu)

/-- What a cell pins a variable to says the same as the equation that the cell asks for. -/
lemma Asks.pins_iff {c : Cell} {t : Ty} {d : Option (Ty × Ty)} (ask : Asks c t d) :
    (∀ u, c.pins? (t.eval g.value) = some u → t.eval τ = u.eval τ) ↔
      ∀ e ∈ d, e.1.eval τ = e.2.eval τ := by
  cases ask <;> simp [Cell.pins?, Ty.eval, Ty.relation, eq_comm]

/-- What the cell of a joined variable pins it to says the same as the equation that follows, if the
choice is read as sets. -/
lemma Joins.pins_iff {a b x y : Nat} {d : Option (Stage × Ty × Ty)} (j : Joins s a b x y d)
    {value : Ty} (hy : ∀ u, (s.cell y).pins? value = some u → τ y = u.eval τ) :
    (∀ u, (s.cell x).pins? value = some u → τ y = u.eval τ) ↔
      (value ≠ .integer → ∀ e ∈ d, e.2.1.eval τ = e.2.2.eval τ) := by
  cases j with
  | into ha hb => simp [ha, Cell.pins?]
  | «from» ha hb => simp [hb, Cell.pins?]
  | sets ha hb | setPairs ha hb | pairs ha hb =>
    rw [hb] at hy
    rw [ha]
    by_cases e : value = .integer <;> simp_all [Cell.pins?, Ty.eval, Ty.relation, eq_comm]
  | pairsSet ha hb =>
    rw [ha] at hy
    rw [hb]
    by_cases e : value = .integer <;> simp_all [Cell.pins?, Ty.eval, Ty.relation, eq_comm]

/-- The element types of a live choice that is read as the integers are idle. -/
lemma Fits.idle_contents (fits : s.Fits g) (wf : s.WellFormed) {v : Nat} (hv : v ∉ g.idle)
    (wait : Awaits (s.cell v)) (integer : g.value v = .integer) :
    ∀ t ∈ (s.cell v).contents, t.Over s.cells.size g.idle := by
  have cell := fits.cells v hv
  have within := wf.within v
  intro t ht
  refine ⟨within t ht, ?_⟩
  generalize s.cell v = c at cell wait ht
  cases wait with
  | set =>
    obtain rfl : t = _ := by simpa [Cell.contents] using ht
    obtain ⟨-, idle⟩ | ⟨set, -⟩ := cell
    · exact idle
    · rw [integer] at set
      cases set
  | pairs =>
    obtain ⟨-, idle⟩ | ⟨set, -⟩ := cell
    · obtain rfl | rfl : t = _ ∨ t = _ := by simpa [Cell.contents] using ht
      · exact fun w hw => idle w (List.mem_append.2 (.inl hw))
      · exact fun w hw => idle w (List.mem_append.2 (.inr hw))
    · rw [integer] at set
      cases set

/-- The equation that follows from joining two choices which are read as the integers is idle. -/
lemma Joins.idle_of_integer {a b x y : Nat} {stage : Stage} {p q : Ty}
    (j : Joins s a b x y (some (stage, p, q))) (wf : s.WellFormed) (fits : s.Fits g)
    (lx : x ∉ g.idle) (ly : y ∉ g.idle) (ix : g.value x = .integer) (iy : g.value y = .integer) :
    p.Over s.cells.size g.idle ∧ q.Over s.cells.size g.idle := by
  have wait : Awaits (s.cell a) ∧ Awaits (s.cell b) := by
    cases j with
    | sets ha hb | setPairs ha hb | pairsSet ha hb | pairs ha hb =>
      rw [ha, hb]
      constructor <;> constructor
  obtain ⟨rfl, rfl⟩ | ⟨rfl, rfl⟩ := j.sides
  · exact j.over (fits.idle_contents wf lx wait.1 ix) (fits.idle_contents wf ly wait.2 iy)
  · exact j.over (fits.idle_contents wf ly wait.1 iy) (fits.idle_contents wf lx wait.2 ix)

/-- Unifying the equation that a cell asks for leaves the cell. -/
lemma Asks.cell_eq {n v : Nat} {t p q : Ty} {out : Outcome} (ask : Asks (s.cell v) t (some (p, q)))
    (run : Run .types n s p q out s') (wf : s.WellFormed) (ht : t.Scoped s.cells.size)
    (apart : ¬ ∃ w ∈ t.vars, s.Reaches w v) : s'.cell v = s.cell v := by
  obtain ⟨-, hp, hq⟩ := ask.avoids (C := Set.univ) wf.tidy s.closed_univ trivial
    (Ty.inside_false.2 (Ty.over_univ ht)) apart
  have nar := (run.narrows wf (s.closed_univ.inter (s.closed_not_reaching v))
    (Ty.inside_false.1 hp) (Ty.inside_false.1 hq)).1
  exact nar.cell_eq fun h => h.2 .refl

/-- Under a guess that fits, what respects the store after a successful run is what respected it before
and gives the two types one value. -/
theorem Run.respects_under_iff {stage n s l r out s₁} (run : Run stage n s l r out s₁)
    (wf : s.WellFormed) (fits : s.Fits g) {u : Ty} (hl : g.Means s.cells.size l u)
    (hr : g.Means s.cells.size r u) {t : Ty} (ok : out = .ok t) :
    s₁.Admits g τ ↔ s.Admits g τ ∧ l.eval τ = r.eval τ := by
  induction run generalizing u t with
  | exhausted | entangled | occurs | refuse | bindFails | clash | coupleFails | consFails
  | consRestFails => cases ok
  | enter el ml er mr _ ih =>
    have hl' := fits.means_head? wf el hl
    obtain ⟨rfl, rfl⟩ := ml.of_scoped hl'.1.1
    have hr' := fits.means_head? wf er hr
    obtain ⟨rfl, rfl⟩ := mr.of_scoped hr'.1.1
    rw [ih wf fits hl' hr' ok]
    refine and_congr_right fun resp => ?_
    rw [fits.eval_head? wf resp el hl, fits.eval_head? wf resp er hr]
  | self => simp
  | @join n s a b x y ne apart j =>
    have value : g.value a = g.value b := hl.2.trans hr.2.symm
    have la := (Ty.over_var.1 hl.1).2
    have lb := (Ty.over_var.1 hr.1).2
    have lx : x ∉ g.idle := by obtain ⟨rfl, -⟩ | ⟨rfl, -⟩ := j.sides <;> assumption
    have free : (s.cell x).pins? (g.value x) = none := by
      cases j with
      | into ha => rw [ha]; rfl
      | «from» _ hb => rw [hb]; rfl
    have step := respects_under_assign (s := s) (τ := τ) (t := .var y) lx
    simp only [free, reduceCtorEq, false_imp_iff, forall_const, and_true] at step
    rw [step]
    obtain ⟨rfl, rfl⟩ | ⟨rfl, rfl⟩ := j.sides
    · rfl
    · exact and_congr_right fun _ => eq_comm
  | @joinThen n s a b x y stage p q out s' ne apart j run ih =>
    obtain ⟨w, rfl, -⟩ := map_eq_ok ok
    have value : g.value a = g.value b := hl.2.trans hr.2.symm
    have la := Ty.over_var.1 hl.1
    have lb := Ty.over_var.1 hr.1
    have bind := j.narrows ne apart la lb
    have lx : x ∉ g.idle := by obtain ⟨rfl, -⟩ | ⟨rfl, -⟩ := j.sides <;> first | exact la.2 | exact lb.2
    have ly : y ∉ g.idle := by obtain ⟨-, rfl⟩ | ⟨-, rfl⟩ := j.sides <;> first | exact la.2 | exact lb.2
    have eq : g.value x = g.value y := by
      obtain ⟨rfl, rfl⟩ | ⟨rfl, rfl⟩ := j.sides
      · exact value
      · exact value.symm
    have fits' : (s.assign x (.bound (.var y))).Fits g :=
      fits.assign lx eq (by simpa [Ty.vars] using ly)
    -- What the equation adds to the binding is what the cell of the bound variable has said.
    have follows : s'.Admits g τ ↔
        (s.assign x (.bound (.var y))).Admits g τ ∧
          (g.value y ≠ .integer → p.eval τ = q.eval τ) := by
      by_cases integer : g.value y = .integer
      · obtain ⟨ip, iq⟩ := j.idle_of_integer wf fits lx ly (eq.trans integer) integer
        rw [← bind.size_eq] at ip iq
        have nar := (run.narrows (bind.wellFormed wf) fits'.closed ip iq).1
        simp only [integer, ne_eq, not_true_eq_false, false_imp_iff, and_true]
        exact respects_under_congr fun v hv => nar.cell_eq hv
      · obtain ⟨read, -⟩ | ⟨w, mp, mq⟩ :=
          j.idle_or_means wf (fits.cells a la.2) (fits.cells b lb.2) value
        · refine absurd ?_ integer
          obtain ⟨-, rfl⟩ | ⟨-, rfl⟩ := j.sides
          · exact read
          · exact value.trans read
        · rw [← bind.size_eq] at mp mq
          rw [ih (bind.wellFormed wf) fits' mp mq rfl]
          simp [integer]
    have step := respects_under_assign (s := s) (τ := τ) (t := .var y) lx
    have sides : s.Admits g τ ∧ τ x = τ y ↔
        s.Admits g τ ∧ (Ty.var a).eval τ = (Ty.var b).eval τ := by
      obtain ⟨rfl, rfl⟩ | ⟨rfl, rfl⟩ := j.sides
      · rfl
      · exact and_congr_right fun _ => eq_comm
    rw [← sides, follows]
    refine Iff.trans (and_congr_right fun resp => ?_) step
    have resp := respects_under.1 resp
    have ev : τ x = τ y := resp x lx (.var y) (by rw [cell_assign_self]; rfl)
    have pinned (u : Ty) (hu : (s.cell y).pins? (g.value y) = some u) : τ y = u.eval τ :=
      resp y ly u (by rwa [cell_assign_of_ne (j.ne ne)])
    rw [ev, eq, j.pins_iff pinned]
    simp
  | flip _ run ih =>
    rw [ih wf fits hr hl ok]
    exact and_congr_right fun _ => eq_comm
  | @bind n s v t nonvar apart ask =>
    cases ok
    have lv := (Ty.over_var.1 hl.1).2
    have value : t.eval g.value = g.value v := hr.2.trans hl.2.symm
    have step := respects_under_assign (s := s) (τ := τ) (t := t) lv
    rw [Ty.eval, ← step]
    refine ⟨fun resp => ⟨resp, ?_⟩, And.left⟩
    have ev : τ v = t.eval τ := respects_under.1 resp v lv t (by rw [cell_assign_self]; rfl)
    rw [ev, ← value, ask.pins_iff]
    simp
  | @bindThen n s v t p q w s' nonvar apart ask run ih =>
    cases ok
    have lv := Ty.over_var.1 hl.1
    have value : t.eval g.value = g.value v := hr.2.trans hl.2.symm
    obtain ⟨x, mp, mq⟩ := ask.means (fits.cells v lv.2) (wf.within v) ⟨hr.1, value⟩
    have same := ask.cell_eq run wf hr.1.1 apart
    have unbound : (s'.cell v).Unbound := by
      rw [same]
      exact ask.unbound
    have whole := Run.bindThen nonvar apart ask run
    have wf' := (whole.narrows wf s.closed_univ (Ty.over_univ hl.1.1) (Ty.over_univ hr.1.1)).1.wellFormed wf
    have fits' := ((whole.complete wf fits hl hr).1 t rfl).1
    have sub := ih wf fits mp mq rfl
    have step := respects_under_assign (s := s') (τ := τ) (t := t) lv.2
    have iff := ask.pins_iff (g := g) (τ := τ)
    rw [value] at iff
    simp only [Option.mem_def, Option.some.injEq, forall_eq'] at iff
    rw [Ty.eval]
    constructor
    · intro resp
      have ev : τ v = t.eval τ := respects_under.1 resp v lv.2 t (by rw [cell_assign_self]; rfl)
      -- The equation on the alternatives is forced by the bindings, whose other demands on `v` it is.
      have eq : p.eval τ = q.eval τ := by
        obtain ⟨σ, hσ, live⟩ := fits'.exists_respects wf' resp
        have forced := (run.forces wf mp.1.1 mq.1.1 rfl (entails_assign unbound σ hσ)).1
        rwa [Ty.eval_congr fun w hw => live w (mp.1.2 w hw),
          Ty.eval_congr fun w hw => live w (mq.1.2 w hw)] at forced
      obtain ⟨resp', -⟩ := step.1 ⟨resp, by rwa [same, ev, iff]⟩
      exact ⟨(sub.1 resp').1, ev⟩
    · rintro ⟨resp, ev⟩
      have eq : p.eval τ = q.eval τ := by
        rw [← iff, ← ev]
        exact respects_under.1 resp v lv.2
      exact (step.2 ⟨sub.2 ⟨resp, eq⟩, ev⟩).1
  | leaf _ eq => simp [eq]
  | @set n s a b out s' run ih =>
    obtain ⟨v, hv, rfl⟩ := map_eq_ok ok
    have value := hl.2
    rw [Ty.eval] at value
    subst value
    rw [ih wf fits ⟨Ty.over_set.1 hl.1, rfl⟩ (Guess.Means.set_iff.1 hr) hv]
    simp [Ty.eval]
  | @couple n s a b c d x s' out s'' run run' ih ih' =>
    obtain ⟨v, hv, rfl⟩ := map_eq_ok ok
    have value := hl.2
    rw [Ty.eval] at value
    subst value
    obtain ⟨ma, mb⟩ := Guess.Means.couple_iff.1 ⟨hl.1, rfl⟩
    obtain ⟨mc, md⟩ := Guess.Means.couple_iff.1 hr
    have nar := (run.narrows wf s.closed_univ (Ty.over_univ ma.1.1) (Ty.over_univ mc.1.1)).1
    have fits' := ((run.complete wf fits ma mc).1 x rfl).1
    rw [← nar.size_eq] at mb md
    rw [ih' (nar.wellFormed wf) fits' mb md hv, ih wf fits ma mc rfl]
    simp [Ty.eval, and_assoc]
  | record _ ih => exact ih wf fits hl hr ok
  | nil => simp
  | @cons n s a t as v bs x cs s' s'' run run' ih ih' =>
    have value := hl.2
    rw [Ty.eval, Ty.evalFields] at value
    subst value
    obtain ⟨-, mt, mts⟩ := Guess.Means.record_cons_iff.1 ⟨hl.1, rfl⟩
    obtain ⟨-, mv, mvs⟩ := Guess.Means.record_cons_iff.1 hr
    have nar := (run.narrows wf s.closed_univ (Ty.over_univ mt.1.1) (Ty.over_univ mv.1.1)).1
    have fits' := ((run.complete wf fits mt mv).1 x rfl).1
    rw [← nar.size_eq] at mts mvs
    rw [ih' (nar.wellFormed wf) fits' mts mvs rfl, ih wf fits mt mv rfl]
    simp [Ty.eval, Ty.evalFields, and_assoc]

end Store

end BMethod
