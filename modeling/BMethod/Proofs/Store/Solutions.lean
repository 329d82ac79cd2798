import BMethod.Proofs.Store.Holds

/-!
# Solutions survive unification

A guess gives the variables values before unification has found them. Where it reads a choice
between integers and sets as the integers, what the choice says about elements means nothing: the
variables there are idle. Unification still unifies such element types, but nothing that is live
ever comes to depend on them. So a guess that fits the store and gives two live types one value
fits the store after they were unified (`Run.complete`).

Unifying idle element types may fail although the guess is right. It can not where no choice
between integers and pairs is involved, since idle variables then stand for each other at most
(`Plain`), nor where the guess reads every choice as sets (`ReadsSets`), since nothing is idle then.
-/

namespace BMethod

open Relation

/-- Values for variables, some of which are idle. -/
structure Guess where
  value : Nat → Ty
  idle : Set Nat

namespace Guess

/-- The guess makes a live type over the first `k` variables mean a value. -/
def Means (g : Guess) (k : Nat) (t u : Ty) : Prop := t.Over k g.idleᶜ ∧ t.eval g.value = u

/-- The guess reads a choice as the integers, with idle elements, or as sets of live elements. -/
def Chooses (g : Guess) (value elem : Ty) : Prop :=
  value = .integer ∧ (∀ w ∈ elem.vars, w ∈ g.idle) ∨
    value = .set (elem.eval g.value) ∧ ∀ w ∈ elem.vars, w ∉ g.idle

variable {g : Guess} {k : Nat}

lemma Means.set_iff {t u : Ty} : g.Means k (.set t) (.set u) ↔ g.Means k t u := by
  simp [Means, Ty.eval]

lemma Means.couple_iff {l r u v : Ty} :
    g.Means k (.couple l r) (.couple u v) ↔ g.Means k l u ∧ g.Means k r v := by
  simp only [Means, Ty.over_couple, Ty.eval, Ty.couple.injEq]
  tauto

lemma Means.record_cons_iff {a b : String} {t u : Ty} {ts us : List (String × Ty)} :
    g.Means k (.record ((a, t) :: ts)) (.record ((b, u) :: us)) ↔
      a = b ∧ g.Means k t u ∧ g.Means k (.record ts) (.record us) := by
  simp only [Means, Ty.over_record, List.forall_mem_cons, Ty.eval, Ty.evalFields, Ty.record.injEq,
    List.cons.injEq, Prod.mk.injEq]
  tauto

/-- Two choices with one value are read in one way. -/
lemma Chooses.agree {value p q : Ty} (hp : g.Chooses value p) (hq : g.Chooses value q)
    (sp : p.Scoped k) (sq : q.Scoped k) :
    (value = .integer ∧ p.Over k g.idle ∧ q.Over k g.idle) ∨
      ∃ u, g.Means k p u ∧ g.Means k q u := by
  obtain ⟨rfl, ip⟩ | ⟨ep, lp⟩ := hp
  · obtain ⟨-, iq⟩ | ⟨e, -⟩ := hq
    · exact .inl ⟨rfl, ⟨sp, ip⟩, sq, iq⟩
    · cases e
  · obtain ⟨e, -⟩ | ⟨eq, lq⟩ := hq
    · rw [e] at ep
      cases ep
    · rw [ep, Ty.set.injEq] at eq
      exact .inr ⟨_, ⟨⟨sp, lp⟩, rfl⟩, ⟨sq, lq⟩, eq.symm⟩

/-- A choice whose value is a set is read as sets. -/
lemma Chooses.means {u p : Ty} (h : g.Chooses (.set u) p) (sp : p.Scoped k) : g.Means k p u := by
  obtain ⟨e, -⟩ | ⟨e, live⟩ := h
  · cases e
  · exact ⟨⟨sp, live⟩, (Ty.set.inj e).symm⟩

end Guess

/-- What a guess must say about a live variable with a cell. -/
def Cell.Fits (g : Guess) (v : Nat) : Cell → Prop
  | .free => True
  | .bound t => g.value v = t.eval g.value ∧ ∀ w ∈ t.vars, w ∉ g.idle
  | .setOrInteger e => g.Chooses (g.value v) e
  | .integerOrPairs l r => g.Chooses (g.value v) (.couple l r)

namespace Store

/-- The guess fits the store: idle variables lead to idle variables, and the live ones have values
that their cells allow. -/
structure Fits (s : Store) (g : Guess) : Prop where
  closed : s.Closed g.idle
  cells : ∀ v, v ∉ g.idle → (s.cell v).Fits g v

/-- No choice between integers and pairs, and idle variables that stand for each other at most. -/
structure Plain (s : Store) (g : Guess) : Prop where
  noPairs : ∀ v l r, s.cell v ≠ .integerOrPairs l r
  elem : ∀ v e, s.cell v = .setOrInteger e → ∃ w, e = .var w
  idle : ∀ v ∈ g.idle, s.cell v = .free ∨ ∃ w, s.cell v = .bound (.var w)

/-- The guess reads no choice as the integers. -/
def ReadsSets (s : Store) (g : Guess) : Prop := ∀ v, Awaits (s.cell v) → g.value v ≠ .integer

variable {s s' : Store} {g : Guess}

/-- Variables that await a choice in a narrowed store have awaited it before. -/
lemma ReadsSets.narrows {C : Set Nat} (sets : s.ReadsSets g) (nar : Narrows C s s') :
    s'.ReadsSets g := by
  intro v wait
  refine sets v ?_
  rwa [nar.cell_of_unbound wait.unbound] at wait

/-! ## Values go down along mentions. -/

/-- Between live variables, values do not grow along a mention, and shrink if the variable is not
bound. -/
lemma Fits.size_le_of_edge (fits : s.Fits g) {v w : Nat} (hv : v ∉ g.idle) (hw : w ∉ g.idle)
    (e : s.Edge v w) : (g.value w).size ≤ (g.value v).size ∧
      ((s.cell v).Unbound → (g.value w).size < (g.value v).size) := by
  have choice (c : Ty) (h : g.Chooses (g.value v) c) (mem : w ∈ c.vars) :
      (g.value w).size < (g.value v).size := by
    obtain ⟨-, h⟩ | ⟨h, -⟩ := h
    · exact absurd (h w mem) hw
    · have := Ty.size_le_size_eval g.value mem
      rw [h, Ty.size]
      omega
  have cell := fits.cells v hv
  rw [Edge] at e
  generalize s.cell v = c at cell e
  cases c with
  | free => simp [Cell.mentions, Cell.contents] at e
  | bound t =>
    have mem : w ∈ t.vars := by simpa [Cell.mentions, Cell.contents] using e
    rw [cell.1]
    exact ⟨Ty.size_le_size_eval g.value mem, fun h => absurd rfl (h t)⟩
  | setOrInteger c =>
    have lt := choice c cell (by simpa [Cell.mentions, Cell.contents] using e)
    exact ⟨lt.le, fun _ => lt⟩
  | integerOrPairs l r =>
    have lt := choice (.couple l r) cell (by simpa [Cell.mentions, Cell.contents, Ty.vars] using e)
    exact ⟨lt.le, fun _ => lt⟩

/-- What a live variable is found from is live and has no smaller value. -/
lemma Fits.size_le_of_reaches (fits : s.Fits g) {v w : Nat} (hv : v ∉ g.idle)
    (r : s.Reaches w v) : w ∉ g.idle ∧ (g.value v).size ≤ (g.value w).size := by
  induction r using ReflTransGen.head_induction_on with
  | refl => exact ⟨hv, le_rfl⟩
  | @head x y e _ ih =>
    have hx : x ∉ g.idle := fun h => ih.1 (fits.closed x h y e)
    exact ⟨hx, ih.2.trans (fits.size_le_of_edge hx ih.1 e).1⟩

/-- A type that means the value of a live variable does not lead to the variable. -/
lemma Fits.not_occurs (fits : s.Fits g) {k v : Nat} {t : Ty} (hv : v ∉ g.idle)
    (ht : g.Means k t (g.value v)) (nonvar : ∀ w, t ≠ .var w) :
    ¬ ∃ w ∈ t.vars, s.Reaches w v := by
  rintro ⟨w, hw, r⟩
  have le := (fits.size_le_of_reaches hv r).2
  have lt := Ty.size_lt_size_eval g.value hw nonvar
  rw [ht.2] at lt
  omega

/-- Two live unbound variables with one value are not found behind each other. -/
lemma Fits.not_entangled (fits : s.Fits g) {a b : Nat} (ha : a ∉ g.idle) (hb : b ∉ g.idle)
    (ua : (s.cell a).Unbound) (ub : (s.cell b).Unbound) (e : g.value a = g.value b) :
    ¬ s.Entangled a b := by
  rintro (⟨w, edge, r⟩ | ⟨w, edge, r⟩)
  · obtain ⟨hw, le⟩ := fits.size_le_of_reaches ha r
    have lt := (fits.size_le_of_edge hb hw edge).2 ub
    rw [e] at le
    omega
  · obtain ⟨hw, le⟩ := fits.size_le_of_reaches hb r
    have lt := (fits.size_le_of_edge ha hw edge).2 ua
    rw [e] at lt
    omega

/-- A head means what the type means. -/
lemma Fits.means_head? (fits : s.Fits g) (wf : s.WellFormed) {t u v : Ty} (h : s.head? t = some v)
    (ht : g.Means s.cells.size t u) : g.Means s.cells.size v u := by
  refine head?_induction (P := fun t => g.Means s.cells.size t u) (fun x t hx hc => ?_) h ht
  have cell := fits.cells x (Ty.over_var.1 hx.1).2
  rw [hc] at cell
  refine ⟨⟨wf.within x t (by simp [hc, Cell.contents]), cell.2⟩, ?_⟩
  rw [← cell.1]
  exact hx.2

/-! ## Bindings that keep a guess. -/

/-- A live variable may be bound to a live type that means its value. -/
lemma Fits.assign (fits : s.Fits g) {v : Nat} {t : Ty} (hv : v ∉ g.idle)
    (value : g.value v = t.eval g.value) (live : ∀ w ∈ t.vars, w ∉ g.idle) :
    (s.assign v (.bound t)).Fits g where
  closed w hw x e := by
    have ne : w ≠ v := by
      rintro rfl
      exact hv hw
    rw [edge_assign, if_neg ne] at e
    exact fits.closed w hw x e
  cells w hw := by
    rw [cell_assign]
    split
    · rename_i e
      subst e
      exact ⟨value, live⟩
    · exact fits.cells w hw

/-- A run on idle types keeps the guess. -/
lemma Run.fits_of_idle {stage n s p q out s'} (run : Run stage n s p q out s') (wf : s.WellFormed)
    (fits : s.Fits g) (hp : p.Over s.cells.size g.idle) (hq : q.Over s.cells.size g.idle) :
    s'.Fits g := by
  have nar := (run.narrows wf fits.closed hp hq).1
  refine ⟨nar.closed fits.closed, fun v hv => ?_⟩
  rw [nar.cell_eq hv]
  exact fits.cells v hv

lemma Plain.assign (plain : s.Plain g) {v : Nat} {t : Ty} (h : v ∈ g.idle → ∃ w, t = .var w) :
    (s.assign v (.bound t)).Plain g where
  noPairs w l r := by
    rw [cell_assign]
    split
    · exact nofun
    · exact plain.noPairs w l r
  elem w e := by
    rw [cell_assign]
    split
    · exact nofun
    · exact plain.elem w e
  idle w hw := by
    rw [cell_assign]
    split
    · rename_i e
      subst e
      obtain ⟨x, rfl⟩ := h hw
      exact .inr ⟨x, rfl⟩
    · exact plain.idle w hw

/-- In a plain store the head of an idle variable is an idle variable of which nothing is known. -/
lemma Plain.head?_idle (plain : s.Plain g) (cl : s.Closed g.idle) {v : Nat} (hv : v ∈ g.idle)
    {t : Ty} (h : s.head? (.var v) = some t) :
    ∃ w ∈ g.idle, t = .var w ∧ s.cell w = .free ∧ s.Reaches v w := by
  have head := headWithin_induction (P := fun t => ∃ w ∈ g.idle, t = .var w)
    (fun x t hx hc => ?_) h ⟨v, hv, rfl⟩
  · obtain ⟨⟨w, hw, rfl⟩, ub⟩ := head
    have reach : s.Reaches v w := by
      simpa [Ty.vars] using reaches_of_head? h (w := w) (by simp [Ty.vars])
    refine ⟨w, hw, rfl, (plain.idle w hw).resolve_right ?_, reach⟩
    rintro ⟨x, hx⟩
    exact ub w rfl _ hx
  · obtain ⟨w, hw, e⟩ := hx
    obtain rfl : x = w := by simpa using e
    obtain hf | ⟨y, hy⟩ := plain.idle x hw
    · rw [hf] at hc
      cases hc
    · rw [hy] at hc
      cases hc
      refine ⟨y, cl x hw y ?_, rfl⟩
      simp [Edge, hy, Cell.mentions, Cell.contents, Ty.vars]

/-- In a plain store idle variables can be unified. At most one idle variable is bound to another. -/
lemma Run.of_idle {n s a b out s'} (run : Run .types n s (.var a) (.var b) out s')
    (cl : s.Closed g.idle) (plain : s.Plain g) (ha : a ∈ g.idle) (hb : b ∈ g.idle) :
    (∀ e, out ≠ .error (.error e)) ∧ (s' = s ∨ ∃ x ∈ g.idle, ∃ y ∈ g.idle,
      s.Reaches a x ∧ s.Reaches b y ∧ s' = s.assign x (.bound (.var y))) := by
  cases run with
  | exhausted => exact ⟨by simp, .inl rfl⟩
  | enter el ml er mr run =>
    obtain ⟨x, hx, rfl, fx, rx⟩ := plain.head?_idle cl ha el
    obtain ⟨rfl, rfl⟩ := ml.of_scoped (k := x + 1) (by simp [Ty.Scoped])
    obtain ⟨y, hy, rfl, fy, ry⟩ := plain.head?_idle cl hb er
    obtain ⟨rfl, rfl⟩ := mr.of_scoped (k := y + 1) (by simp [Ty.Scoped])
    have leaf (c : Cell) (h : c = .free) (w : Nat) : w ∉ c.mentions := by
      simp [h, Cell.mentions, Cell.contents]
    cases run with
    | self => exact ⟨by simp, .inl rfl⟩
    | entangled _ _ _ h =>
      obtain ⟨w, e, -⟩ | ⟨w, e, -⟩ := h
      · exact absurd e (leaf _ fy w)
      · exact absurd e (leaf _ fx w)
    | join _ _ j =>
      cases j with
      | into => exact ⟨by simp, .inr ⟨x, hx, y, hy, rx, ry, rfl⟩⟩
      | «from» wait _ =>
        rw [fx] at wait
        cases wait
    | joinThen _ _ j _ =>
      cases j with
      | sets h _ | setPairs h _ | pairsSet h _ | pairs h _ =>
        rw [fx] at h
        cases h
    | flip nonvar | occurs nonvar | refuse _ _ _ nonvar | bind nonvar | bindThen nonvar
    | bindFails nonvar => exact absurd rfl (nonvar _)
    | leaf atom => exact atom.elim
    | clash h => exact absurd rfl (h fun _ => .integer)

/-- Unifying idle variables keeps a store plain. -/
lemma Run.plain_of_idle {n s p q out s'} (run : Run .types n s p q out s') (cl : s.Closed g.idle)
    (plain : s.Plain g) (hp : ∃ a ∈ g.idle, p = .var a) (hq : ∃ b ∈ g.idle, q = .var b) :
    s'.Plain g ∧ ∀ e, out ≠ .error (.error e) := by
  obtain ⟨a, ha, rfl⟩ := hp
  obtain ⟨b, hb, rfl⟩ := hq
  obtain ⟨total, rfl | ⟨x, -, y, -, -, -, rfl⟩⟩ := run.of_idle cl plain ha hb
  · exact ⟨plain, total⟩
  · exact ⟨plain.assign fun _ => ⟨y, rfl⟩, total⟩

/-! ## Equations that follow from cells. -/

/-- The equation that a cell asks for holds under a guess that fits. -/
lemma Asks.means {k v : Nat} {c : Cell} {t p q : Ty} (ask : Asks c t (some (p, q)))
    (fits : c.Fits g v) (scope : ∀ u ∈ c.contents, u.Scoped k) (ht : g.Means k t (g.value v)) :
    ∃ u, g.Means k p u ∧ g.Means k q u := by
  obtain ⟨live, value⟩ := ht
  cases ask with
  | set =>
    rw [Cell.Fits, ← value, Ty.eval] at fits
    exact ⟨_, fits.means (scope _ (by simp [Cell.contents])), Ty.over_set.1 live, rfl⟩
  | pairs =>
    rw [Cell.Fits, ← value, Ty.eval] at fits
    refine ⟨_, ⟨Ty.over_set.1 live, rfl⟩, fits.means ⟨?_, ?_⟩⟩ <;>
      exact scope _ (by simp [Cell.contents])

/-- The equation that follows from two cells with one value holds or is idle. -/
lemma Joins.idle_or_means {a b x y : Nat} {stage : Stage} {p q : Ty}
    (j : Joins s a b x y (some (stage, p, q))) (wf : s.WellFormed) (fa : (s.cell a).Fits g a)
    (fb : (s.cell b).Fits g b) (e : g.value a = g.value b) :
    (g.value b = .integer ∧ p.Over s.cells.size g.idle ∧ q.Over s.cells.size g.idle) ∨
      ∃ u, g.Means s.cells.size p u ∧ g.Means s.cells.size q u := by
  have within (v : Nat) (t : Ty) := wf.within v t
  cases j with
  | sets ha hb =>
    rw [ha, Cell.Fits, e] at fa
    rw [hb] at fb
    exact fa.agree fb (within a _ (by simp [ha, Cell.contents]))
      (within b _ (by simp [hb, Cell.contents]))
  | setPairs ha hb =>
    rw [ha, Cell.Fits, e] at fa
    rw [hb] at fb
    exact fa.agree fb (within a _ (by simp [ha, Cell.contents]))
      ⟨within b _ (by simp [hb, Cell.contents]), within b _ (by simp [hb, Cell.contents])⟩
  | pairsSet ha hb =>
    rw [ha, Cell.Fits, e] at fa
    rw [hb] at fb
    exact fb.agree fa (within b _ (by simp [hb, Cell.contents]))
      ⟨within a _ (by simp [ha, Cell.contents]), within a _ (by simp [ha, Cell.contents])⟩
  | pairs ha hb =>
    rw [ha, Cell.Fits, e] at fa
    rw [hb] at fb
    exact fa.agree fb
      ⟨within a _ (by simp [ha, Cell.contents]), within a _ (by simp [ha, Cell.contents])⟩
      ⟨within b _ (by simp [hb, Cell.contents]), within b _ (by simp [hb, Cell.contents])⟩

/-- In a plain store only choices between integers and sets of a variable follow from two cells. -/
lemma Joins.of_plain {a b x y : Nat} {stage : Stage} {p q : Ty}
    (j : Joins s a b x y (some (stage, p, q))) (plain : s.Plain g) :
    stage = .types ∧ (∃ v, p = .var v) ∧ ∃ w, q = .var w := by
  cases j with
  | sets ha hb => exact ⟨rfl, plain.elem a _ ha, plain.elem b _ hb⟩
  | setPairs _ hb => exact absurd hb (plain.noPairs b _ _)
  | pairsSet ha _ | pairs ha _ => exact absurd ha (plain.noPairs a _ _)

/-! ## Completeness. -/

/-- A guess that fits the store and gives two types one value fits after they were unified, and
unifying them can fail only where the store is not plain and a choice is read as the integers. -/
lemma Run.complete {stage n s l r out s'} (run : Run stage n s l r out s') (wf : s.WellFormed)
    (fits : s.Fits g) {u : Ty} (hl : g.Means s.cells.size l u) (hr : g.Means s.cells.size r u) :
    (∀ t, out = .ok t → s'.Fits g ∧ g.Means s.cells.size t u ∧ (s.Plain g → s'.Plain g)) ∧
      ∀ e, out = .error (.error e) → ¬ s.Plain g ∧ ¬ s.ReadsSets g := by
  induction run generalizing u with
  | exhausted => exact ⟨by simp, by simp⟩
  | enter el ml er mr _ ih =>
    have hl' := fits.means_head? wf el hl
    obtain ⟨rfl, rfl⟩ := ml.of_scoped hl'.1.1
    have hr' := fits.means_head? wf er hr
    obtain ⟨rfl, rfl⟩ := mr.of_scoped hr'.1.1
    exact ih wf fits hl' hr'
  | self =>
    refine ⟨fun t e => ?_, by simp⟩
    cases e
    exact ⟨fits, hl, id⟩
  | @entangled n s a b e ne ua ub h =>
    have ha := (Ty.over_var.1 hl.1).2
    have hb := (Ty.over_var.1 hr.1).2
    exact absurd h (fits.not_entangled ha hb ua ub (hl.2.trans hr.2.symm))
  | @join n s a b x y ne apart j =>
    refine ⟨fun t e => ?_, by simp⟩
    cases e
    have value : g.value a = g.value b := hl.2.trans hr.2.symm
    have la := (Ty.over_var.1 hl.1).2
    have lb := (Ty.over_var.1 hr.1).2
    obtain ⟨rfl, rfl⟩ | ⟨rfl, rfl⟩ := j.sides
    · exact ⟨fits.assign la value (by simpa [Ty.vars] using lb), hr,
        fun plain => plain.assign fun _ => ⟨_, rfl⟩⟩
    · exact ⟨fits.assign lb value.symm (by simpa [Ty.vars] using la), hl,
        fun plain => plain.assign fun _ => ⟨_, rfl⟩⟩
  | @joinThen n s a b x y stage p q out s' ne apart j run ih =>
    have value : g.value a = g.value b := hl.2.trans hr.2.symm
    have la := Ty.over_var.1 hl.1
    have lb := Ty.over_var.1 hr.1
    have bind := j.narrows ne apart la lb
    have wf' := bind.wellFormed wf
    have fits' : (s.assign x (.bound (.var y))).Fits g ∧ g.Means s.cells.size (.var y) u := by
      obtain ⟨rfl, rfl⟩ | ⟨rfl, rfl⟩ := j.sides
      · exact ⟨fits.assign la.2 value (by simpa [Ty.vars] using lb.2), hr⟩
      · exact ⟨fits.assign lb.2 value.symm (by simpa [Ty.vars] using la.2), hl⟩
    have plain' (plain : s.Plain g) : (s.assign x (.bound (.var y))).Plain g :=
      plain.assign fun _ => ⟨_, rfl⟩
    obtain ⟨integer, ip, iq⟩ | ⟨w, mp, mq⟩ :=
      j.idle_or_means wf (fits.cells a la.2) (fits.cells b lb.2) value
    · -- The guess reads both as the integers; what is unified is idle.
      rw [← bind.size_eq] at ip iq
      have idle (plain : s.Plain g) : s'.Plain g ∧ ∀ e, out ≠ .error (.error e) := by
        obtain ⟨rfl, ⟨c, rfl⟩, d, rfl⟩ := j.of_plain plain
        exact run.plain_of_idle fits'.1.closed (plain' plain) ⟨c, (Ty.over_var.1 ip).2, rfl⟩
          ⟨d, (Ty.over_var.1 iq).2, rfl⟩
      refine ⟨fun t e => ?_, fun e h => ⟨fun plain => (idle plain).2 e (map_eq_error h),
        fun sets => sets b j.awaits integer⟩⟩
      obtain ⟨v, hv, rfl⟩ := map_eq_ok e
      exact ⟨run.fits_of_idle wf' fits'.1 ip iq, fits'.2, fun plain => (idle plain).1⟩
    · rw [← bind.size_eq] at mp mq
      obtain ⟨ok, error⟩ := ih wf' fits'.1 mp mq
      refine ⟨fun t e => ?_, fun e h => (error e (map_eq_error h)).imp
        (fun no plain => no (plain' plain)) fun no sets => no (sets.narrows bind)⟩
      obtain ⟨v, hv, rfl⟩ := map_eq_ok e
      obtain ⟨f, -, p⟩ := ok v hv
      exact ⟨f, fits'.2, fun plain => p (plain' plain)⟩
  | flip _ _ ih => exact ih wf fits hr hl
  | @occurs n s v t e nonvar h =>
    have value : g.Means s.cells.size t (g.value v) := ⟨hr.1, hr.2.trans hl.2.symm⟩
    exact absurd h (fits.not_occurs (Ty.over_var.1 hl.1).2 value nonvar)
  | @refuse n s v t e awaits ni ns nonvar =>
    -- The value of the variable is an integer or a set, and the type is neither.
    exfalso
    have value : t.eval g.value = g.value v := hr.2.trans hl.2.symm
    have choice {c : Ty} (h : g.Chooses (g.value v) c) : False := by
      rw [← value] at h
      cases t with
      | var w => exact nonvar w rfl
      | integer => exact ni rfl
      | set c => exact ns c rfl
      | _ => simp [Guess.Chooses, Ty.eval] at h
    have cell := fits.cells v (Ty.over_var.1 hl.1).2
    generalize s.cell v = c at awaits cell
    cases awaits <;> exact choice cell
  | @bind n s v t nonvar apart ask =>
    refine ⟨fun t e => ?_, by simp⟩
    cases e
    have lv := (Ty.over_var.1 hl.1).2
    exact ⟨fits.assign lv (hl.2.trans hr.2.symm) hr.1.2, hr,
      fun plain => plain.assign fun h => absurd h lv⟩
  | @bindThen n s v t p q w s' nonvar apart ask run ih =>
    refine ⟨fun t e => ?_, by simp⟩
    cases e
    have lv := (Ty.over_var.1 hl.1).2
    obtain ⟨x, mp, mq⟩ := ask.means (fits.cells v lv) (wf.within v)
      ⟨hr.1, hr.2.trans hl.2.symm⟩
    obtain ⟨f, -, p⟩ := (ih wf fits mp mq).1 w rfl
    exact ⟨f.assign lv (hl.2.trans hr.2.symm) hr.1.2, hr,
      fun plain => (p plain).assign fun h => absurd h lv⟩
  | @bindFails n s v t p q e s' nonvar apart ask run ih =>
    obtain ⟨x, mp, mq⟩ := ask.means (fits.cells v (Ty.over_var.1 hl.1).2) (wf.within v)
      ⟨hr.1, hr.2.trans hl.2.symm⟩
    refine ⟨by simp, fun d h => ?_⟩
    cases h
    exact (ih wf fits mp mq).2 d rfl
  | leaf =>
    refine ⟨fun t e => ?_, by simp⟩
    cases e
    exact ⟨fits, hl, id⟩
  | clash h => exact absurd (hl.2.trans hr.2.symm) (h _)
  | @set n s a b out s' _ ih =>
    have value := hl.2
    rw [Ty.eval] at value
    subst value
    obtain ⟨ok, error⟩ := ih wf fits ⟨Ty.over_set.1 hl.1, rfl⟩
      (Guess.Means.set_iff.1 hr)
    refine ⟨fun t e => ?_, fun e h => error e (map_eq_error h)⟩
    obtain ⟨v, hv, rfl⟩ := map_eq_ok e
    obtain ⟨f, m, p⟩ := ok v hv
    exact ⟨f, Guess.Means.set_iff.2 m, p⟩
  | @couple n s a b c d x s' out s'' run _ ih ih' =>
    have value := hl.2
    rw [Ty.eval] at value
    subst value
    obtain ⟨ma, mb⟩ := Guess.Means.couple_iff.1 ⟨hl.1, rfl⟩
    obtain ⟨mc, md⟩ := Guess.Means.couple_iff.1 hr
    have nar := (run.narrows wf s.closed_univ (Ty.over_univ ma.1.1) (Ty.over_univ mc.1.1)).1
    obtain ⟨f, m, p⟩ := (ih wf fits ma mc).1 x rfl
    rw [← nar.size_eq] at mb md
    obtain ⟨ok, error⟩ := ih' (nar.wellFormed wf) f mb md
    refine ⟨fun t e => ?_, fun e h => (error e (map_eq_error h)).imp
      (fun no plain => no (p plain)) fun no sets => no (sets.narrows nar)⟩
    obtain ⟨v, hv, rfl⟩ := map_eq_ok e
    obtain ⟨f, m', p'⟩ := ok v hv
    rw [nar.size_eq] at m'
    exact ⟨f, Guess.Means.couple_iff.2 ⟨m, m'⟩, fun plain => p' (p plain)⟩
  | @coupleFails n s a b c d e s' _ ih =>
    have value := hl.2
    rw [Ty.eval] at value
    subst value
    obtain ⟨ma, -⟩ := Guess.Means.couple_iff.1 ⟨hl.1, rfl⟩
    obtain ⟨mc, -⟩ := Guess.Means.couple_iff.1 hr
    refine ⟨by simp, fun d h => ?_⟩
    cases h
    exact (ih wf fits ma mc).2 d rfl
  | record _ ih => exact ih wf fits hl hr
  | nil =>
    refine ⟨fun t e => ?_, by simp⟩
    cases e
    exact ⟨fits, hl, id⟩
  | @cons n s a t as v bs x cs s' s'' run _ ih ih' =>
    have value := hl.2
    rw [Ty.eval, Ty.evalFields] at value
    subst value
    obtain ⟨-, mt, mts⟩ := Guess.Means.record_cons_iff.1 ⟨hl.1, rfl⟩
    obtain ⟨-, mv, mvs⟩ := Guess.Means.record_cons_iff.1 hr
    have nar := (run.narrows wf s.closed_univ (Ty.over_univ mt.1.1) (Ty.over_univ mv.1.1)).1
    obtain ⟨f, m, p⟩ := (ih wf fits mt mv).1 x rfl
    rw [← nar.size_eq] at mts mvs
    obtain ⟨f, m', p'⟩ := (ih' (nar.wellFormed wf) f mts mvs).1 _ rfl
    refine ⟨fun t e => ?_, by simp⟩
    cases e
    rw [nar.size_eq] at m'
    exact ⟨f, Guess.Means.record_cons_iff.2 ⟨rfl, m, m'⟩, fun plain => p' (p plain)⟩
  | @consFails n s a t as v bs e s' _ ih =>
    have value := hl.2
    rw [Ty.eval, Ty.evalFields] at value
    subst value
    obtain ⟨-, mt, -⟩ := Guess.Means.record_cons_iff.1 ⟨hl.1, rfl⟩
    obtain ⟨-, mv, -⟩ := Guess.Means.record_cons_iff.1 hr
    refine ⟨by simp, fun d h => ?_⟩
    cases h
    exact (ih wf fits mt mv).2 d rfl
  | @consRestFails n s a t as v bs x e s' s'' run _ ih ih' =>
    have value := hl.2
    rw [Ty.eval, Ty.evalFields] at value
    subst value
    obtain ⟨-, mt, mts⟩ := Guess.Means.record_cons_iff.1 ⟨hl.1, rfl⟩
    obtain ⟨-, mv, mvs⟩ := Guess.Means.record_cons_iff.1 hr
    have nar := (run.narrows wf s.closed_univ (Ty.over_univ mt.1.1) (Ty.over_univ mv.1.1)).1
    obtain ⟨f, -, p⟩ := (ih wf fits mt mv).1 x rfl
    rw [← nar.size_eq] at mts mvs
    refine ⟨by simp, fun d h => ?_⟩
    cases h
    exact ((ih' (nar.wellFormed wf) f mts mvs).2 d rfl).imp (fun no plain => no (p plain))
      fun no sets => no (sets.narrows nar)

end Store

end BMethod
