import BMethod.Proofs.Store.Unify

/-!
# Unification ends

Unification adds variables for the ambiguous types that it meets, so its variables do not run out by
themselves. But every equation on the way down is between parts of types that were there at the
beginning, over the first `k` variables (`Small`), and two numbers go down. Passing through the
alternatives of an unbound variable leaves the region of what leads to it, since the occurs check has
found that the equation does not, and with the region an old variable that was open (`openCount`).
Passing through a type former or a binding makes types lower (`height`). Heights change only when an
old variable gets bound, and then fewer are open.

The bound that `unify` starts with exceeds the number of steps: on a tidy store it always ends with a
type or an error (`Tidy.unify_ne_divergence`).
-/

namespace BMethod

open Relation

/-! ## Small types. -/

namespace Ty

variable {k K : Nat}

/-- A type over the first `k` variables and not deeper than `K`. -/
def Small (k K : Nat) (t : Ty) : Prop := (∀ v ∈ t.vars, v < k) ∧ t.depth ≤ K

/-- A variable or a small type. -/
def Brief (k K : Nat) (t : Ty) : Prop := (∃ v, t = .var v) ∨ t.Small k K

/-- A type with no other variables than another one, and at least `d` less deep. -/
def Under (d : Nat) (t u : Ty) : Prop := (∀ v ∈ t.vars, v ∈ u.vars) ∧ t.depth + d ≤ u.depth

lemma under_set (t : Ty) : Under 1 t (.set t) := by
  simp [Under, vars, depth]

lemma under_setOrInteger (t : Ty) : Under 1 t (.setOrInteger t) := by
  simp [Under, vars, depth]

lemma under_integerOrPairs (l r : Ty) : Under 1 (.couple l r) (.integerOrPairs l r) := by
  simp [Under, vars, depth]

lemma under_couple (l r : Ty) : Under 1 l (.couple l r) ∧ Under 1 r (.couple l r) := by
  simp only [Under, vars, depth, List.mem_append]
  exact ⟨⟨fun _ => .inl, by omega⟩, fun _ => .inr, by omega⟩

lemma under_record (a : String) (t : Ty) (fields : List (String × Ty)) :
    Under 1 t (.record ((a, t) :: fields)) ∧
      Under 0 (.record fields) (.record ((a, t) :: fields)) := by
  simp only [Under, vars, fieldVars, depth, fieldsDepth, List.mem_append]
  exact ⟨⟨fun _ => .inl, by omega⟩, fun _ => .inr, by omega⟩

lemma Small.under {d : Nat} {t u : Ty} (h : u.Small k K) (hd : Under d t u) : t.Small k K :=
  ⟨fun v hv => h.1 v (hd.1 v hv), by have := h.2; have := hd.2; omega⟩

lemma Brief.small {t : Ty} (h : t.Brief k K) (nonvar : ∀ v, t ≠ .var v) : t.Small k K := by
  refine h.resolve_left ?_
  rintro ⟨v, rfl⟩
  exact nonvar v rfl

end Ty

/-- The types that the alternatives of a cell bring into equations, the halves of pairs as one. -/
def Cell.elements : Cell → List Ty
  | .setOrInteger elem => [elem]
  | .integerOrPairs left right => [.couple left right]
  | _ => []

namespace Store

variable {k K : Nat} {s s' : Store} {C D : Set Nat}

/-- The types of a store are small, up to variables that are bound to variables. -/
def Compact (k K : Nat) (s : Store) : Prop :=
  ∀ v, (∀ t ∈ (s.cell v).elements, t.Small k K) ∧ ∀ t, s.cell v = .bound t → t.Brief k K

lemma Compact.assign (compact : s.Compact k K) {v : Nat} {t : Ty} (ht : t.Brief k K) :
    (s.assign v (.bound t)).Compact k K := by
  intro w
  rw [cell_assign]
  split
  · refine ⟨nofun, fun u e => ?_⟩
    cases e
    exact ht
  · exact compact w

lemma Compact.allocate (compact : s.Compact k K) {c : Cell} (unbound : c.Unbound)
    (hc : ∀ t ∈ c.elements, t.Small k K) : (s.allocate c).2.Compact k K := by
  intro w
  rw [cell_allocate]
  split
  · exact ⟨hc, fun t e => absurd e (unbound t)⟩
  · exact compact w

lemma Compact.head? (compact : s.Compact k K) {t u : Ty} (h : s.head? t = some u)
    (ht : t.Brief k K) : u.Brief k K :=
  head?_induction (P := fun t => t.Brief k K) (fun v t _ hc => (compact v).2 t hc) h ht

/-- An equation between a cell's alternatives and the elements of a set. -/
lemma Asks.elements {c : Cell} {t p q : Ty} (ask : Asks c t (some (p, q))) :
    (p ∈ c.elements ∧ t = .set q) ∨ (q ∈ c.elements ∧ t = .set p) := by
  cases ask with
  | set => exact .inl ⟨by simp [Cell.elements], rfl⟩
  | pairs => exact .inr ⟨by simp [Cell.elements], rfl⟩

/-- An equation between the alternatives of two cells. -/
lemma Joins.elements {a b x y : Nat} {stage : Stage} {p q : Ty}
    (j : Joins s a b x y (some (stage, p, q))) :
    (p ∈ (s.cell a).elements ∧ q ∈ (s.cell b).elements) ∨
      (p ∈ (s.cell b).elements ∧ q ∈ (s.cell a).elements) := by
  cases j with
  | sets ha hb | setPairs ha hb | pairs ha hb => simp [ha, hb, Cell.elements]
  | pairsSet ha hb => simp [ha, hb, Cell.elements]

lemma Compact.asks (compact : s.Compact k K) {v : Nat} {t p q : Ty}
    (ask : Asks (s.cell v) t (some (p, q))) (ht : t.Brief k K) : p.Small k K ∧ q.Small k K := by
  obtain ⟨h, rfl⟩ | ⟨h, rfl⟩ := ask.elements
  · exact ⟨(compact v).1 _ h, (ht.small nofun).under (Ty.under_set _)⟩
  · exact ⟨(ht.small nofun).under (Ty.under_set _), (compact v).1 _ h⟩

lemma Compact.joins (compact : s.Compact k K) {a b x y : Nat} {stage : Stage} {p q : Ty}
    (j : Joins s a b x y (some (stage, p, q))) : p.Small k K ∧ q.Small k K := by
  obtain ⟨hp, hq⟩ | ⟨hp, hq⟩ := j.elements
  · exact ⟨(compact a).1 _ hp, (compact b).1 _ hq⟩
  · exact ⟨(compact b).1 _ hp, (compact a).1 _ hq⟩

lemma Meets.compact {t u : Ty} (m : Meets s t u s') (compact : s.Compact k K)
    (ht : t.Brief k K) : s'.Compact k K ∧ u.Brief k K := by
  cases m with
  | same => exact ⟨compact, ht⟩
  | set =>
    refine ⟨compact.allocate nofun fun e he => ?_, .inl ⟨_, rfl⟩⟩
    obtain rfl : e = _ := by simpa [Cell.elements] using he
    exact (ht.small nofun).under (Ty.under_setOrInteger _)
  | pairs =>
    refine ⟨compact.allocate nofun fun e he => ?_, .inl ⟨_, rfl⟩⟩
    obtain rfl : e = _ := by simpa [Cell.elements] using he
    exact (ht.small nofun).under (Ty.under_integerOrPairs _ _)

/-- Runs keep a store compact. -/
lemma Run.compact {stage n s l r out s'} (run : Run stage n s l r out s') (compact : s.Compact k K)
    (hl : l.Brief k K) (hr : r.Brief k K) : s'.Compact k K := by
  induction run with
  | exhausted | self | entangled | occurs | refuse | leaf | clash | nil => exact compact
  | enter el ml er mr _ ih =>
    obtain ⟨compact, hl⟩ := ml.compact compact (compact.head? el hl)
    obtain ⟨compact, hr⟩ := mr.compact compact (compact.head? er hr)
    exact ih compact hl hr
  | join => exact compact.assign (.inl ⟨_, rfl⟩)
  | joinThen _ _ j _ ih =>
    obtain ⟨hp, hq⟩ := compact.joins j
    exact ih (compact.assign (.inl ⟨_, rfl⟩)) (.inr hp) (.inr hq)
  | flip _ _ ih => exact ih compact hr hl
  | bind => exact compact.assign hr
  | bindThen _ _ ask _ ih =>
    obtain ⟨hp, hq⟩ := compact.asks ask hr
    exact (ih compact (.inr hp) (.inr hq)).assign hr
  | bindFails _ _ ask _ ih =>
    obtain ⟨hp, hq⟩ := compact.asks ask hr
    exact ih compact (.inr hp) (.inr hq)
  | set _ ih =>
    exact ih compact (.inr ((hl.small nofun).under (Ty.under_set _)))
      (.inr ((hr.small nofun).under (Ty.under_set _)))
  | couple _ _ ih ih' =>
    have hl := hl.small nofun
    have hr := hr.small nofun
    have first := ih compact (.inr (hl.under (Ty.under_couple _ _).1))
      (.inr (hr.under (Ty.under_couple _ _).1))
    exact ih' first (.inr (hl.under (Ty.under_couple _ _).2))
      (.inr (hr.under (Ty.under_couple _ _).2))
  | coupleFails _ ih =>
    exact ih compact (.inr ((hl.small nofun).under (Ty.under_couple _ _).1))
      (.inr ((hr.small nofun).under (Ty.under_couple _ _).1))
  | record _ ih => exact ih compact hl hr
  | cons _ _ ih ih' | consRestFails _ _ ih ih' =>
    have hl := hl.small nofun
    have hr := hr.small nofun
    have first := ih compact (.inr (hl.under (Ty.under_record _ _ _).1))
      (.inr (hr.under (Ty.under_record _ _ _).1))
    exact ih' first (.inr (hl.under (Ty.under_record _ _ _).2))
      (.inr (hr.under (Ty.under_record _ _ _).2))
  | consFails _ ih =>
    exact ih compact (.inr ((hl.small nofun).under (Ty.under_record _ _ _).1))
      (.inr ((hr.small nofun).under (Ty.under_record _ _ _).1))

/-! ## The height of a type. -/

/-- The variable stands for a type that mentions the other and is no variable. -/
def Leads (s : Store) (b x : Nat) : Prop :=
  ∃ u, s.head? (.var b) = some u ∧ (∀ v, u ≠ .var v) ∧ x ∈ u.vars

/-- What a variable stands for is behind its cell. -/
lemma Leads.reaches {b x : Nat} (h : s.Leads b x) : ∃ w, s.Edge b w ∧ s.Reaches w x := by
  obtain ⟨u, hu, nonvar, hx⟩ := h
  have way := head?_induction
    (P := fun t => t = .var b ∨ ∀ z ∈ t.vars, ∃ w, s.Edge b w ∧ s.Reaches w z)
    (fun v t ht hc => .inr fun z hz => ?_) hu (.inl rfl)
  · obtain rfl | way := way
    · exact absurd rfl (nonvar b)
    · exact way x hx
  · have e : s.Edge v z := by simpa [Edge, hc] using hz
    obtain ht | ht := ht
    · cases ht
      exact ⟨z, e, .refl⟩
    · obtain ⟨w, e', r⟩ := ht v (by simp [Ty.vars])
      exact ⟨w, e', r.tail e⟩

lemma reaches_of_leads {b x : Nat} (h : ReflTransGen s.Leads b x) : s.Reaches b x := by
  induction h with
  | refl => exact .refl
  | tail _ l ih =>
    obtain ⟨w, e, r⟩ := l.reaches
    exact (ih.tail e).trans r

lemma Compact.leads_lt (compact : s.Compact k K) {b x : Nat} (h : s.Leads b x) : x < k := by
  obtain ⟨u, hu, nonvar, hx⟩ := h
  exact ((compact.head? hu (.inl ⟨b, rfl⟩)).small nonvar).1 x hx

open Classical in
/-- How many of the first `k` variables the types that a variable stands for mention, one inside the
other. -/
noncomputable def spread (k : Nat) (s : Store) (b : Nat) : Nat :=
  ((Finset.range k).filter (ReflTransGen s.Leads b)).card

lemma spread_le (k : Nat) (s : Store) (b : Nat) : s.spread k b ≤ k := by
  classical
  simpa [spread] using Finset.card_filter_le (Finset.range k) (ReflTransGen s.Leads b)

lemma Acyclic.spread_lt (ac : s.Acyclic) {b x : Nat} (hb : b < k) (h : s.Leads b x) :
    s.spread k x < s.spread k b := by
  classical
  refine Finset.card_lt_card ⟨fun z hz => ?_, fun sub => ?_⟩
  · simp only [Finset.mem_filter] at hz ⊢
    exact ⟨hz.1, .head h hz.2⟩
  · have hb : b ∈ (Finset.range k).filter (ReflTransGen s.Leads b) := by
      simpa using ⟨hb, ReflTransGen.refl⟩
    have back := sub hb
    simp only [Finset.mem_filter] at back
    obtain ⟨w, e, r⟩ := h.reaches
    exact ac b w e (r.trans (reaches_of_leads back.2))

/-- How deep a small type is with the types of its variables put in, at most. -/
noncomputable def height (k K : Nat) (s : Store) (t : Ty) : Nat :=
  t.vars.toFinset.sup (s.spread k) * (K + 1) + t.depth

lemma height_add_le {d : Nat} {t u : Ty} (h : t.Under d u) :
    s.height k K t + d ≤ s.height k K u := by
  have sub : t.vars.toFinset.sup (s.spread k) ≤ u.vars.toFinset.sup (s.spread k) :=
    Finset.sup_mono fun v hv => by simpa using h.1 v (by simpa using hv)
  have := Nat.mul_le_mul_right (K + 1) sub
  have := h.2
  rw [height, height]
  omega

/-- No small type is higher than that. -/
def top (k K : Nat) : Nat := k * (K + 1) + K

lemma height_le_top {t : Ty} (h : t.Small k K) : s.height k K t ≤ top k K := by
  have : t.vars.toFinset.sup (s.spread k) ≤ k := Finset.sup_le fun v _ => s.spread_le k v
  have := Nat.mul_le_mul_right (K + 1) this
  have := h.2
  rw [height, top]
  omega

/-- A variable is higher than the type that it stands for. -/
lemma Acyclic.height_head? (ac : s.Acyclic) {b : Nat} {u : Ty} (hb : b < k)
    (h : s.head? (.var b) = some u) (nonvar : ∀ v, u ≠ .var v) (hu : u.Small k K) :
    s.height k K u + 1 ≤ s.height k K (.var b) := by
  have pos : 0 < s.spread k b := by
    classical
    exact Finset.card_pos.2 ⟨b, by simpa using ⟨hb, ReflTransGen.refl⟩⟩
  have less : u.vars.toFinset.sup (s.spread k) < s.spread k b := by
    refine (Finset.sup_lt_iff pos).2 fun x hx => ac.spread_lt hb ⟨u, h, nonvar, ?_⟩
    simpa using hx
  have := Nat.mul_le_mul_right (K + 1) (Nat.succ_le_of_lt less)
  rw [Nat.succ_mul] at this
  have := hu.2
  simp only [height, Ty.vars, Ty.depth, List.toFinset_cons, List.toFinset_nil,
    insert_empty_eq, Finset.sup_singleton]
  omega

/-- Two stores in which the old variables of a set stand for the same types. -/
def Agree (k : Nat) (C : Set Nat) (s s' : Store) : Prop :=
  ∀ b ∈ C, b < k → ∀ x, s'.Leads b x ↔ s.Leads b x

/-- Heights inside a closed set depend on what its old variables stand for. -/
lemma Agree.height_eq (agree : Agree k C s s') (cl : s.Closed C) (compact : s.Compact k K) {t : Ty}
    (ht : t.Small k K) (inside : ∀ v ∈ t.vars, v ∈ C) : s'.height k K t = s.height k K t := by
  have step {b x : Nat} (hb : b ∈ C) (h : s.Leads b x) : x ∈ C := by
    obtain ⟨w, e, r⟩ := h.reaches
    exact cl.reaches (cl b hb w e) r
  have same {b x : Nat} (hb : b ∈ C ∧ b < k) :
      ReflTransGen s'.Leads b x ↔ ReflTransGen s.Leads b x := by
    constructor
    · intro h
      refine (ReflTransGen.head_induction_on (motive := fun b _ => b ∈ C ∧ b < k →
        ReflTransGen s.Leads b x) h (fun _ => .refl) fun l _ ih hb => ?_) hb
      have l := (agree _ hb.1 hb.2 _).1 l
      exact .head l (ih ⟨step hb.1 l, compact.leads_lt l⟩)
    · intro h
      refine (ReflTransGen.head_induction_on (motive := fun b _ => b ∈ C ∧ b < k →
        ReflTransGen s'.Leads b x) h (fun _ => .refl) fun l _ ih hb => ?_) hb
      exact .head ((agree _ hb.1 hb.2 _).2 l) (ih ⟨step hb.1 l, compact.leads_lt l⟩)
  have spread (v : Nat) (hv : v ∈ t.vars.toFinset) : s'.spread k v = s.spread k v := by
    classical
    have hv : v ∈ t.vars := by simpa using hv
    rw [Store.spread, Store.spread]
    congr 1
    refine Finset.filter_congr fun x _ => same ⟨inside v hv, ht.1 v hv⟩
  rw [height, height, Finset.sup_congr rfl spread]

/-! ## Open variables. -/

/-- Nothing is known of the shape of the variable. -/
def Open (s : Store) (b : Nat) : Prop := ∃ a, s.head? (.var b) = some (.var a)

open Classical in
/-- How many of the first `k` variables are open and in the set. -/
noncomputable def openCount (k : Nat) (C : Set Nat) (s : Store) : Nat :=
  ((Finset.range k).filter fun b => b ∈ C ∧ s.Open b).card

lemma openCount_le (k : Nat) (C : Set Nat) (s : Store) : openCount k C s ≤ k := by
  classical
  simpa [openCount] using Finset.card_filter_le (Finset.range k) fun b => b ∈ C ∧ s.Open b

/-- A variable that stands for a type goes on standing for it. -/
lemma Grows.head?_eq {amb : Prop} (g : Grows amb C s s') (tidy : s.Tidy amb) {t u : Ty}
    (h : s.head? t = some u) (nonvar : ∀ v, u ≠ .var v) : s'.head? t = some u := by
  rw [(g.tidy tidy).acyclic.head?_head? (fun v t => g.bound) h, head?_of_nonvar _ nonvar]

lemma Grows.open_of_open {amb : Prop} (g : Grows amb C s s') (tidy : s.Tidy amb) {b : Nat}
    (h : s'.Open b) : s.Open b := by
  obtain ⟨u, hu⟩ := tidy.acyclic.exists_head? (.var b)
  by_cases nonvar : ∃ v, u = .var v
  · obtain ⟨v, rfl⟩ := nonvar
    exact ⟨v, hu⟩
  · obtain ⟨a, ha⟩ := h
    rw [g.head?_eq tidy hu fun v e => nonvar ⟨v, e⟩] at ha
    exact ⟨a, hu.trans ha⟩

/-- Growing opens no old variable. -/
lemma Grows.openCount_le {amb : Prop} (g : Grows amb C s s') (tidy : s.Tidy amb) (sub : D ⊆ C) :
    openCount k D s' ≤ openCount k C s := by
  classical
  refine Finset.card_le_card fun b hb => ?_
  simp only [Finset.mem_filter] at hb ⊢
  exact ⟨hb.1, sub hb.2.1, g.open_of_open tidy hb.2.2⟩

/-- With what leads to a variable, the open variables that stand for it are left out. -/
lemma Grows.openCount_lt {amb : Prop} (g : Grows amb C s s') (tidy : s.Tidy amb) {a b : Nat}
    (sub : D ⊆ C ∩ {w | ¬ s.Reaches w a}) (hb : b < k) (hC : b ∈ C)
    (h : s.head? (.var b) = some (.var a)) : openCount k D s' < openCount k C s := by
  classical
  refine Finset.card_lt_card ⟨fun x hx => ?_, fun le => ?_⟩
  · simp only [Finset.mem_filter] at hx ⊢
    exact ⟨hx.1, (sub hx.2.1).1, g.open_of_open tidy hx.2.2⟩
  · have hb : b ∈ (Finset.range k).filter fun x => x ∈ D ∧ s'.Open x :=
      le (by simpa using ⟨hb, hC, a, h⟩)
    simp only [Finset.mem_filter] at hb
    have reach : s.Reaches b a := by
      simpa [Ty.vars] using reaches_of_head? h (w := a) (by simp [Ty.vars])
    exact (sub hb.2.1).2 reach

/-- If as many variables stay open, all stand for the same types. -/
lemma Grows.agree {amb : Prop} (g : Grows amb C s s') (tidy : s.Tidy amb)
    (le : openCount k C s ≤ openCount k C s') : Agree k C s s' := by
  classical
  have sub : ((Finset.range k).filter fun b => b ∈ C ∧ s'.Open b) ⊆
      (Finset.range k).filter fun b => b ∈ C ∧ s.Open b := fun b hb => by
    simp only [Finset.mem_filter] at hb ⊢
    exact ⟨hb.1, hb.2.1, g.open_of_open tidy hb.2.2⟩
  have same := Finset.eq_of_subset_of_card_le sub le
  intro b hC hb x
  obtain ⟨u, hu⟩ := tidy.acyclic.exists_head? (.var b)
  by_cases nonvar : ∃ v, u = .var v
  · -- The variable is open before and after, and stands for no type.
    obtain ⟨v, rfl⟩ := nonvar
    have still : b ∈ (Finset.range k).filter fun b => b ∈ C ∧ s'.Open b := by
      rw [same]
      simpa using ⟨hb, hC, v, hu⟩
    simp only [Finset.mem_filter] at still
    obtain ⟨a, ha⟩ := still.2.2
    constructor
    · rintro ⟨u, hu', nonvar, -⟩
      exact absurd (Option.some.inj (hu'.symm.trans ha)) (nonvar a)
    · rintro ⟨u, hu', nonvar, -⟩
      exact absurd (Option.some.inj (hu'.symm.trans hu)) (nonvar v)
  · have hu' := g.head?_eq tidy hu fun v e => nonvar ⟨v, e⟩
    simp only [Leads, hu, hu']

/-! ## Counting steps. -/

/-- A bound on the steps down from types of some height: each variable that is open allows a new way
down from the highest types. -/
noncomputable def steps (k K : Nat) (C : Set Nat) (s : Store) (height : Nat) : Nat :=
  openCount k C s * (2 * top k K + 1) + height

/-- With fewer variables open there are fewer steps, from any small types. -/
lemma steps_lt_of_openCount_lt (lt : openCount k D s' < openCount k C s) {p q : Ty}
    (hp : p.Small k K) (hq : q.Small k K) (n : Nat) :
    steps k K D s' (s'.height k K p + s'.height k K q) + 1 ≤ steps k K C s n := by
  have := height_le_top (s := s') hp
  have := height_le_top (s := s') hq
  have := Nat.mul_le_mul_right (2 * top k K + 1) (Nat.succ_le_of_lt lt)
  rw [Nat.succ_mul] at this
  rw [steps, steps]
  omega

/-- Below the same store the steps go down with the height, and below a grown one anyway. -/
lemma Grows.steps_le {amb : Prop} (g : Grows amb C s s') (tidy : s.Tidy amb) (cl : s.Closed C)
    (compact : s.Compact k K) (sub : D ⊆ C) {p q : Ty} (hp : p.Small k K) (hq : q.Small k K)
    (inside : ∀ v ∈ p.vars ++ q.vars, v ∈ C) {d n : Nat} (hd : d ≤ 1)
    (le : s.height k K p + s.height k K q + d ≤ n) :
    steps k K D s' (s'.height k K p + s'.height k K q) + d ≤ steps k K C s n := by
  by_cases lt : openCount k D s' < openCount k C s
  · have := steps_lt_of_openCount_lt lt hp hq n
    omega
  · simp only [List.mem_append] at inside
    have agree := g.agree tidy ((Nat.le_of_not_lt lt).trans
      ((Grows.openCount_le (C := C) .refl (g.tidy tidy) sub)))
    rw [agree.height_eq cl compact hp fun v hv => inside v (.inl hv),
      agree.height_eq cl compact hq fun v hv => inside v (.inr hv)]
    have := Nat.mul_le_mul_right (2 * top k K + 1) (g.openCount_le (k := k) tidy sub)
    rw [steps, steps]
    omega

/-! ## What is left to pass. -/

/-- A type that stands for no more than some height: a small type, a variable that an open variable of
the set stands for, or a variable whose alternatives are low. -/
inductive Weighs (k K : Nat) (C : Set Nat) (s : Store) : Ty → Nat → Prop where
  | small {t n} : t.Small k K → s.height k K t ≤ n → Weighs k K C s t n
  | seen {a b n} : b < k → b ∈ C → s.head? (.var b) = some (.var a) → Weighs k K C s (.var a) n
  | new {a n} : (s.cell a).Unbound →
    (∀ t ∈ (s.cell a).elements, t.Small k K ∧ s.height k K t + 1 ≤ n) → Weighs k K C s (.var a) n

/-- What is under a type is small and lower than the type may be. -/
lemma Weighs.under {t u : Ty} {d n : Nat} (w : Weighs k K C s u n) (nonvar : ∀ v, u ≠ .var v)
    (h : t.Under d u) : t.Small k K ∧ s.height k K t + d ≤ n := by
  cases w with
  | small hu le => exact ⟨hu.under h, (height_add_le h).trans le⟩
  | seen | new => exact absurd rfl (nonvar _)

lemma Weighs.brief {t : Ty} {n : Nat} (w : Weighs k K C s t n) : t.Brief k K := by
  cases w with
  | small ht => exact .inr ht
  | seen | new => exact .inl ⟨_, rfl⟩

/-- An unbound variable is one that an open variable stands for, or its alternatives are low. -/
lemma Weighs.of_unbound {a n : Nat} (w : Weighs k K C s (.var a) n) (ua : (s.cell a).Unbound)
    (ha : a ∈ C) : (∃ b < k, b ∈ C ∧ s.head? (.var b) = some (.var a)) ∨
      ∀ t ∈ (s.cell a).elements, t.Small k K ∧ s.height k K t + 1 ≤ n := by
  cases w with
  | small ht => exact .inl ⟨a, ht.1 a (by simp [Ty.vars]), ha, head?_of_unbound ua⟩
  | seen hb hC h => exact .inl ⟨_, hb, hC, h⟩
  | new _ h => exact .inr h

/-- Meeting a type changes no heads. -/
lemma Meets.head?_eq {t u : Ty} (m : Meets s t u s') (ac : s.Acyclic) (ac' : s'.Acyclic) (x : Ty) :
    s'.head? x = s.head? x := by
  obtain ⟨y, hy⟩ := ac.exists_head? x
  have keep (v : Nat) (t : Ty) (hc : s.cell v = .bound t) : s'.cell v = .bound t := by
    have lt := lt_size_of_cell_ne (s := s) (v := v) (by simp [hc])
    cases m with
    | same => exact hc
    | set | pairs => rwa [cell_allocate, if_neg (by omega)]
  rw [ac'.head?_head? keep hy, hy]
  by_cases hv : ∃ v, y = .var v
  · obtain ⟨v, rfl⟩ := hv
    exact head?_of_unbound (m.cell_unbound (unbound_of_head? hy))
  · exact head?_of_nonvar _ fun v e => hv ⟨v, e⟩

section

variable (heads : ∀ x, s'.head? x = s.head? x)

include heads

lemma height_congr (t : Ty) : s'.height k K t = s.height k K t := by
  have leads : s'.Leads = s.Leads := by
    funext b x
    simp only [Leads, heads]
  have spread : s'.spread k = s.spread k := by
    funext b
    rw [Store.spread, leads, Store.spread]
  rw [height, spread, height]

lemma openCount_congr : openCount k C s' = openCount k C s := by
  have opens : s'.Open = s.Open := by
    funext b
    simp only [Open, heads]
  rw [openCount, opens, openCount]

end

/-- What is met in place of a type's head weighs no more than the type. -/
lemma Weighs.meet {l l' a : Ty} {n : Nat} (w : Weighs k K C s l n) (e : s.head? l = some l')
    (m : Meets s l' a s') (ac : s.Acyclic) (ac' : s'.Acyclic) (compact : s.Compact k K)
    (inside : ∀ v ∈ l.vars, v ∈ C) : Weighs k K C s' a n := by
  have heads := m.head?_eq ac ac'
  -- A variable that is not bound is its own head and is met as it is.
  have same {v : Nat} (hv : (s.cell v).Unbound) (hl : l = .var v) : a = .var v ∧ s' = s := by
    subst hl
    rw [head?_of_unbound hv] at e
    cases e
    cases m
    exact ⟨rfl, rfl⟩
  cases w with
  | @seen v b n hb hC h =>
    obtain ⟨rfl, rfl⟩ := same (unbound_of_head? h) rfl
    exact .seen hb hC h
  | new hv h =>
    obtain ⟨rfl, rfl⟩ := same hv rfl
    exact .new hv h
  | small ht le =>
    have small := compact.head? e (.inr ht)
    by_cases isVar : ∃ v, l' = .var v
    · obtain ⟨v, rfl⟩ := isVar
      cases m
      obtain ⟨b, rfl⟩ : ∃ b, l = .var b := by
        by_contra nonvar
        rw [head?_of_nonvar _ fun v e => nonvar ⟨v, e⟩] at e
        exact nonvar ⟨v, Option.some.inj e⟩
      exact .seen (ht.1 b (by simp [Ty.vars])) (inside b (by simp [Ty.vars])) e
    · have small := small.small fun v e => isVar ⟨v, e⟩
      have low : s.height k K l' ≤ n := by
        by_cases h : ∃ b, l = .var b
        · obtain ⟨b, rfl⟩ := h
          have := ac.height_head? (ht.1 b (by simp [Ty.vars])) e (fun v e => isVar ⟨v, e⟩) small
          omega
        · rw [head?_of_nonvar _ fun v e => h ⟨v, e⟩] at e
          cases e
          exact le
      cases m with
      | same => exact .small small low
      | @set x =>
        refine .new (by rw [cell_allocate, if_pos rfl]; exact fun t h => by cases h) fun y hy => ?_
        rw [cell_allocate, if_pos rfl] at hy
        obtain rfl : y = x := by simpa [Cell.elements] using hy
        refine ⟨small.under (Ty.under_setOrInteger y), ?_⟩
        rw [height_congr heads]
        exact (height_add_le (Ty.under_setOrInteger y)).trans low
      | @pairs x z =>
        refine .new (by rw [cell_allocate, if_pos rfl]; exact fun t h => by cases h) fun y hy => ?_
        rw [cell_allocate, if_pos rfl] at hy
        obtain rfl : y = .couple x z := by simpa [Cell.elements] using hy
        refine ⟨small.under (Ty.under_integerOrPairs x z), ?_⟩
        rw [height_congr heads]
        exact (height_add_le (Ty.under_integerOrPairs x z)).trans low

/-- Meeting another type changes no weights. -/
lemma Weighs.meet_other {a t u : Ty} {n : Nat} (w : Weighs k K C s a n) (m : Meets s t u s')
    (ac : s.Acyclic) (ac' : s'.Acyclic) (old : ∀ v ∈ a.vars, v < s.cells.size) :
    Weighs k K C s' a n := by
  have heads := m.head?_eq ac ac'
  cases w with
  | small ht le =>
    refine .small ht ?_
    rwa [height_congr heads]
  | seen hb hC h => exact .seen hb hC ((heads _).trans h)
  | @new a n hv h =>
    have lt := old a (by simp [Ty.vars])
    have cell : s'.cell a = s.cell a := by
      cases m with
      | same => rfl
      | set | pairs => rw [cell_allocate, if_neg (by omega)]
    refine .new (cell ▸ hv) fun t ht => ?_
    rw [height_congr heads]
    exact h t (cell ▸ ht)

lemma Region.assign {amb : Prop} (reg : s.Region amb C) {v : Nat} (hv : v < s.cells.size)
    (out : v ∉ C) (c : Cell) : (s.assign v c).Region amb C where
  closed x hx w e := by
    rw [edge_assign, if_neg] at e
    · exact reg.closed x hx w e
    · rintro rfl
      exact out hx
  fresh ha w hw := reg.fresh ha w (by rwa [size_assign hv] at hw)

/-- The equation that follows from two cells avoids both variables. -/
lemma Joins.avoids {amb : Prop} {a b x y : Nat} {stage : Stage} {p q : Ty}
    (j : Joins s a b x y (some (stage, p, q))) (tidy : s.Tidy amb) (cl : s.Closed C)
    (ha : a ∈ C) (hb : b ∈ C) (apart : ¬ s.Entangled a b) :
    p.Inside amb s.cells.size (C ∩ {w | ¬ s.Reaches w a} ∩ {w | ¬ s.Reaches w b}) ∧
      q.Inside amb s.cells.size (C ∩ {w | ¬ s.Reaches w a} ∩ {w | ¬ s.Reaches w b}) := by
  refine j.forall (fun _ _ hl hr => Ty.inside_couple.2 ⟨hl, hr⟩) (fun t ht => ?_) fun t ht => ?_
  · refine (tidy.inside cl ha ht).subset fun w hw => ?_
    have e : s.Edge a w := Cell.mem_mentions.2 ⟨t, ht, hw⟩
    exact ⟨⟨cl a ha w e, tidy.acyclic a w e⟩, fun r => apart (.inr ⟨w, e, r⟩)⟩
  · refine (tidy.inside cl hb ht).subset fun w hw => ?_
    have e : s.Edge b w := Cell.mem_mentions.2 ⟨t, ht, hw⟩
    exact ⟨⟨cl b hb w e, fun r => apart (.inl ⟨w, e, r⟩)⟩, tidy.acyclic b w e⟩

/-- An equation between the elements of a set and the alternatives of a variable has fewer steps than
the set and the variable. -/
lemma Asks.steps_lt {v : Nat} {t p q : Ty} {m n : Nat} (ask : Asks (s.cell v) t (some (p, q)))
    (tidy : s.Tidy True) (reg : s.Region True C) (compact : s.Compact k K) (hv : v ∈ C)
    (ht : t.Inside True s.cells.size C) (apart : ¬ ∃ w ∈ t.vars, s.Reaches w v)
    (wv : Weighs k K C s (.var v) m) (wt : Weighs k K C s t n) :
    steps k K (C ∩ {w | ¬ s.Reaches w v}) s (s.height k K p + s.height k K q) + 1 ≤
      steps k K C s (m + n) := by
  obtain ⟨hp, hq⟩ := compact.asks ask wt.brief
  obtain ⟨-, ip, iq⟩ := ask.avoids tidy reg.closed hv ht apart
  have same : Grows True C s s := .refl
  obtain ⟨b, hb, hC, h⟩ | low' := wv.of_unbound ask.unbound hv
  · exact steps_lt_of_openCount_lt (same.openCount_lt tidy subset_rfl hb hC h) hp hq _
  · refine same.steps_le tidy reg.closed compact Set.inter_subset_left hp hq (fun w hw => ?_)
      le_rfl ?_
    · exact ((List.mem_append.1 hw).elim (fun hw => (ip.1 w hw).2) fun hw => (iq.1 w hw).2).1
    · obtain ⟨h, rfl⟩ | ⟨h, rfl⟩ := ask.elements
      · have := (low' _ h).2
        have := (wt.under nofun (Ty.under_set q)).2
        omega
      · have := (low' _ h).2
        have := (wt.under nofun (Ty.under_set p)).2
        omega

/-- An equation between the alternatives of two variables has fewer steps than the variables. -/
lemma Joins.steps_lt {a b x y : Nat} {stage : Stage} {p q : Ty} {m n : Nat}
    (j : Joins s a b x y (some (stage, p, q))) (tidy : s.Tidy True) (reg : s.Region True C)
    (compact : s.Compact k K) (ha : a < s.cells.size ∧ a ∈ C) (hb : b < s.cells.size ∧ b ∈ C)
    (ne : a ≠ b) (apart : ¬ s.Entangled a b) (wa : Weighs k K C s (.var a) m)
    (wb : Weighs k K C s (.var b) n) :
    steps k K (C ∩ {w | ¬ s.Reaches w a} ∩ {w | ¬ s.Reaches w b}) (s.assign x (.bound (.var y)))
        ((s.assign x (.bound (.var y))).height k K p +
          (s.assign x (.bound (.var y))).height k K q) + 1 ≤
      steps k K C s (m + n) := by
  have g : Grows True C s (s.assign x (.bound (.var y))) := .single (j.writes ne apart ha hb)
  obtain ⟨hp, hq⟩ := compact.joins j
  obtain ⟨ip, iq⟩ := j.avoids tidy reg.closed ha.2 hb.2 apart
  have unbound : (s.cell a).Unbound ∧ (s.cell b).Unbound := by
    obtain ⟨rfl, rfl⟩ | ⟨rfl, rfl⟩ := j.sides
    · exact j.unbound
    · exact j.unbound.symm
  obtain ⟨c, hc, hC, h⟩ | low := wa.of_unbound unbound.1 ha.2
  · exact steps_lt_of_openCount_lt (g.openCount_lt tidy Set.inter_subset_left hc hC h) hp hq _
  obtain ⟨c, hc, hC, h⟩ | low' := wb.of_unbound unbound.2 hb.2
  · refine steps_lt_of_openCount_lt (g.openCount_lt tidy (fun w hw => ?_) hc hC h) hp hq _
    exact ⟨hw.1.1, hw.2⟩
  refine g.steps_le tidy reg.closed compact (fun w hw => hw.1.1) hp hq (fun w hw => ?_) le_rfl ?_
  · exact ((List.mem_append.1 hw).elim (fun hw => (ip.1 w hw).2) fun hw => (iq.1 w hw).2).1.1
  · obtain ⟨hp, hq⟩ | ⟨hp, hq⟩ := j.elements
    · have := (low _ hp).2
      have := (low' _ hq).2
      omega
    · have := (low' _ hp).2
      have := (low _ hq).2
      omega

/-- Looking through bindings takes a step of its own. -/
def Stage.own : Stage → Nat
  | .types => 1
  | .heads | .fields => 0

/-- A run with enough steps does not run out of them. -/
lemma Run.ne_divergence {stage n s l r out s'} (run : Run stage n s l r out s')
    (tidy : s.Tidy True) {C : Set Nat} (reg : s.Region True C)
    (hl : l.Inside True s.cells.size C) (hr : r.Inside True s.cells.size C)
    (compact : s.Compact k K) {i j : Nat} (wl : Weighs k K C s l i) (wr : Weighs k K C s r j)
    (enough : steps k K C s (i + j) + stage.own ≤ n) : out ≠ .error .divergence := by
  -- A step into a type is paid for by its height, and one to the alternatives of variables by an open
  -- variable that leaves the region; so the region is generalized together with the weights.
  induction run generalizing C i j with
  | exhausted => simp [Stage.own] at enough
  | self | entangled | join | occurs | refuse | bind | bindThen | leaf | clash | nil | cons =>
    exact nofun
  | enter el ml er mr _ ih =>
    obtain ⟨g, ia⟩ := ml.grows reg (tidy.inside_head? reg.closed el hl)
    have tidy' := g.tidy tidy
    have reg' := g.region reg
    obtain ⟨g', ib⟩ := mr.grows reg'
      (tidy'.inside_head? reg'.closed er (hr.mono g.size_le subset_rfl))
    have tidy'' := g'.tidy tidy'
    have compact' := (ml.compact compact (compact.head? el wl.brief)).1
    have compact'' := (mr.compact compact' (compact'.head? er wr.brief)).1
    have wa := (wl.meet el ml tidy.acyclic tidy'.acyclic compact fun v hv => (hl.1 v hv).2).meet_other
      mr tidy'.acyclic tidy''.acyclic fun v hv => (ia.1 v hv).1
    have wb := (wr.meet_other ml tidy.acyclic tidy'.acyclic fun v hv => (hr.1 v hv).1).meet er mr
      tidy'.acyclic tidy''.acyclic compact' fun v hv => (hr.1 v hv).2
    refine ih tidy'' (g'.region reg') (ia.mono g'.size_le subset_rfl) ib compact'' wa wb ?_
    -- Meeting ambiguous types allocates variables but binds none, so the same ones are open.
    rw [steps, openCount_congr (mr.head?_eq tidy'.acyclic tidy''.acyclic),
      openCount_congr (ml.head?_eq tidy.acyclic tidy'.acyclic), ← steps]
    simp only [Stage.own] at enough ⊢
    omega
  | @joinThen n s a b x y stage p q out s' ne apart jn _ ih =>
    rw [Ty.inside_var] at hl hr
    have step : Writes True C s (s.assign x (.bound (.var y))) := jn.writes ne apart hl hr
    have hx : x = a ∨ x = b := jn.sides.imp And.left And.left
    have lt : x < s.cells.size := by obtain rfl | rfl := hx <;> [exact hl.1; exact hr.1]
    have out : x ∉ C ∩ {w | ¬ s.Reaches w a} ∩ {w | ¬ s.Reaches w b} := by
      obtain rfl | rfl := hx
      · exact fun h => h.1.2 .refl
      · exact fun h => h.2 .refl
    obtain ⟨ip, iq⟩ := jn.avoids tidy reg.closed hl.2 hr.2 apart
    obtain ⟨hp, hq⟩ := compact.joins jn
    have less := jn.steps_lt tidy reg compact hl hr ne apart wl wr
    intro e
    refine ih (step.tidy tidy) (((reg.avoid hl.1).avoid hr.1).assign lt out _)
      (ip.mono step.size_le subset_rfl) (iq.mono step.size_le subset_rfl)
      (compact.assign (.inl ⟨_, rfl⟩)) (.small hp le_rfl) (.small hq le_rfl) ?_ (map_eq_error e)
    cases stage <;> simp only [Stage.own] at enough ⊢ <;> omega
  | flip _ _ ih =>
    refine ih tidy reg hr hl compact wr wl ?_
    rwa [Nat.add_comm j i]
  | @bindFails n s v t p q e s' nonvar apart ask _ ih =>
    have hv := Ty.inside_var.1 hl
    obtain ⟨-, ip, iq⟩ := ask.avoids tidy reg.closed hv.2 hr apart
    obtain ⟨hp, hq⟩ := compact.asks ask wr.brief
    have less := ask.steps_lt tidy reg compact hv.2 hr apart wl wr
    refine ih tidy (reg.avoid hv.1) ip iq compact (.small hp le_rfl) (.small hq le_rfl) ?_
    simp only [Stage.own] at enough ⊢
    omega
  | @set n s a b out s' _ ih =>
    obtain ⟨sl, ll⟩ := wl.under nofun (Ty.under_set a)
    obtain ⟨sr, lr⟩ := wr.under nofun (Ty.under_set b)
    intro e
    refine ih tidy reg (Ty.inside_set.1 hl) (Ty.inside_set.1 hr) compact (.small sl le_rfl)
      (.small sr le_rfl) ?_ (map_eq_error e)
    rw [steps] at enough ⊢
    simp only [Stage.own] at enough ⊢
    omega
  | @couple n s a b c d x s' out s'' run _ ih ih' =>
    obtain ⟨sl, ll⟩ := wl.under nofun (Ty.under_couple a b).2
    obtain ⟨sr, lr⟩ := wr.under nofun (Ty.under_couple c d).2
    rw [Ty.inside_couple] at hl hr
    have g := (run.grows tidy reg hl.1 hr.1).1
    have compact' := run.compact compact (.inr (wl.under nofun (Ty.under_couple a b).1).1)
      (.inr (wr.under nofun (Ty.under_couple c d).1).1)
    have less := g.steps_le tidy reg.closed compact subset_rfl sl sr
      (fun w hw => (List.mem_append.1 hw).elim (fun hw => (hl.2.1 w hw).2) fun hw => (hr.2.1 w hw).2)
      le_rfl (show s.height k K b + s.height k K d + 1 ≤ i + j by omega)
    intro e
    exact ih' (g.tidy tidy) (g.region reg) (hl.2.mono g.size_le subset_rfl)
      (hr.2.mono g.size_le subset_rfl) compact' (.small sl le_rfl) (.small sr le_rfl)
      (less.trans enough) (map_eq_error e)
  | @coupleFails n s a b c d e s' _ ih =>
    obtain ⟨sl, ll⟩ := wl.under nofun (Ty.under_couple a b).1
    obtain ⟨sr, lr⟩ := wr.under nofun (Ty.under_couple c d).1
    rw [Ty.inside_couple] at hl hr
    refine ih tidy reg hl.1 hr.1 compact (.small sl le_rfl) (.small sr le_rfl) ?_
    rw [steps] at enough ⊢
    simp only [Stage.own] at enough ⊢
    omega
  | record _ ih => exact ih tidy reg hl hr compact wl wr enough
  | @consFails n s a t as u bs e s' _ ih =>
    obtain ⟨sl, ll⟩ := wl.under nofun (Ty.under_record a t as).1
    obtain ⟨sr, lr⟩ := wr.under nofun (Ty.under_record a u bs).1
    rw [Ty.inside_record, List.forall_mem_cons] at hl hr
    refine ih tidy reg hl.1 hr.1 compact (.small sl le_rfl) (.small sr le_rfl) ?_
    rw [steps] at enough ⊢
    simp only [Stage.own] at enough ⊢
    omega
  | @consRestFails n s a t as u bs x e s' s'' run _ ih ih' =>
    obtain ⟨sl, ll⟩ := wl.under nofun (Ty.under_record a t as).2
    obtain ⟨sr, lr⟩ := wr.under nofun (Ty.under_record a u bs).2
    rw [Ty.inside_record, List.forall_mem_cons, ← Ty.inside_record] at hl hr
    have g := (run.grows tidy reg hl.1 hr.1).1
    have compact' := run.compact compact (.inr (wl.under nofun (Ty.under_record a t as).1).1)
      (.inr (wr.under nofun (Ty.under_record a u bs).1).1)
    have less := g.steps_le tidy reg.closed compact subset_rfl sl sr
      (fun w hw => (List.mem_append.1 hw).elim (fun hw => (hl.2.1 w hw).2) fun hw => (hr.2.1 w hw).2)
      (Nat.zero_le 1) (show s.height k K (.record as) + s.height k K (.record bs) + 0 ≤ i + j by omega)
    exact ih' (g.tidy tidy) (g.region reg) (hl.2.mono g.size_le subset_rfl)
      (hr.2.mono g.size_le subset_rfl) compact' (.small sl le_rfl) (.small sr le_rfl)
      (less.trans enough)

/-! ## The bound that unification starts with. -/

/-- The size of a store counts its cells and what they hold. -/
lemma size_eq_sum (s : Store) :
    s.size = s.cells.size + (s.cells.toList.map Cell.size).sum := by
  have fold (l : List Cell) (n : Nat) :
      l.foldl (fun n c => n + c.size) n = n + (l.map Cell.size).sum := by
    induction l generalizing n with
    | nil => rfl
    | cons c l ih => rw [List.foldl_cons, ih, List.map_cons, List.sum_cons, Nat.add_assoc]
  rw [size, ← Array.foldl_toList, fold]

lemma cell_size_le (s : Store) (v : Nat) : (s.cell v).size + s.cells.size ≤ s.size := by
  have : (s.cell v).size ≤ (s.cells.toList.map Cell.size).sum := by
    by_cases hv : v < s.cells.size
    · refine List.single_le_sum (by simp) _ (List.mem_map.2 ⟨s.cell v, ?_, rfl⟩)
      simp [cell, hv]
    · rw [cell_of_size_le (by omega)]
      exact Nat.zero_le _
  rw [size_eq_sum]
  omega

/-- Nothing in a store is deeper than the store is large. -/
lemma Tidy.compact (tidy : s.Tidy True) {K : Nat} (large : s.size < K) :
    s.Compact s.cells.size K := by
  have cell {v : Nat} {t : Ty} (ht : t ∈ (s.cell v).contents) (w : Nat) (hw : w ∈ t.vars) :
      w < s.cells.size := ((tidy.within v t ht).1 w hw).1
  intro v
  have room := s.cell_size_le v
  cases hc : s.cell v with
  | free => exact ⟨by simp [Cell.elements], by simp⟩
  | bound e =>
    refine ⟨by simp [Cell.elements], fun t h => ?_⟩
    cases h
    refine .inr ⟨cell (v := v) (by simp [hc, Cell.contents]), ?_⟩
    have := e.depth_le_size
    simp only [hc, Cell.size, Cell.contents, List.foldr_cons, List.foldr_nil] at room
    omega
  | setOrInteger e =>
    refine ⟨fun t h => ?_, by simp⟩
    obtain rfl : t = e := by simpa [Cell.elements] using h
    refine ⟨cell (v := v) (by simp [hc, Cell.contents]), ?_⟩
    have := t.depth_le_size
    simp only [hc, Cell.size, Cell.contents, List.foldr_cons, List.foldr_nil] at room
    omega
  | integerOrPairs x y =>
    refine ⟨fun t h => ?_, by simp⟩
    obtain rfl : t = .couple x y := by simpa [Cell.elements] using h
    refine ⟨fun w hw => ?_, ?_⟩
    · rw [Ty.vars, List.mem_append] at hw
      obtain hw | hw := hw
      · exact cell (v := v) (t := x) (by simp [hc, Cell.contents]) w hw
      · exact cell (v := v) (t := y) (by simp [hc, Cell.contents]) w hw
    · have := x.depth_le_size
      have := y.depth_le_size
      simp only [hc, Cell.size, Cell.contents, List.foldr_cons, List.foldr_nil] at room
      rw [Ty.depth]
      omega

/-- The bound exceeds the number of steps. -/
lemma steps_lt_depthBound (s : Store) (C : Set Nat) (l r : Ty) {i j : Nat}
    (hi : i ≤ top s.cells.size (s.size + l.size + r.size))
    (hj : j ≤ top s.cells.size (s.size + l.size + r.size)) :
    steps s.cells.size (s.size + l.size + r.size) C s (i + j) < s.depthBound l r := by
  have hl := l.size_pos
  have hr := r.size_pos
  have cells : s.cells.size ≤ s.size := by
    rw [size_eq_sum]
    omega
  have opens := openCount_le s.cells.size C s
  simp only [steps, depthBound, top] at hi hj ⊢
  obtain ⟨S, hS⟩ : ∃ S, s.size + l.size + r.size = S + 2 := ⟨s.size + l.size + r.size - 2, by omega⟩
  rw [hS] at hi hj ⊢
  have count : openCount s.cells.size C s ≤ S := by omega
  have cells' : s.cells.size ≤ S := by omega
  generalize s.cells.size = N at *
  have high : N * (S + 2 + 1) + (S + 2) ≤ S * (S + 2 + 1) + (S + 2) := by gcongr
  have first : openCount N C s * (2 * (N * (S + 2 + 1) + (S + 2)) + 1) ≤
      S * (2 * (S * (S + 2 + 1) + (S + 2)) + 1) := by gcongr
  nlinarith [first, high, hi, hj]

/-- On a tidy store unification always comes to an end. -/
theorem Tidy.unify_ne_divergence (tidy : s.Tidy True) {l r : Ty}
    (hl : l.Inside True s.cells.size Set.univ) (hr : r.Inside True s.cells.size Set.univ) :
    (unify l r s).1 ≠ .error .divergence := by
  have run := runsBy_unifyWithin (s.depthBound l r) s l r tidy hl hr
  have sl : l.Small s.cells.size (s.size + l.size + r.size) :=
    ⟨Ty.inside_true.1 hl, l.depth_le_size.trans (by omega)⟩
  have sr : r.Small s.cells.size (s.size + l.size + r.size) :=
    ⟨Ty.inside_true.1 hr, r.depth_le_size.trans (by omega)⟩
  have := l.size_pos
  exact run.ne_divergence tidy (s.region_univ True) hl hr (tidy.compact (by omega))
    (.small sl le_rfl) (.small sr le_rfl)
    (s.steps_lt_depthBound Set.univ l r (height_le_top sl) (height_le_top sr))

end Store

end BMethod
