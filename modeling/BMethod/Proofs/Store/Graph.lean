import BMethod.Proofs.Value
import BMethod.Unifier.Store
import Mathlib.Logic.Relation

/-!
# The graph of a store

Cells mention variables, which makes a store a directed graph. A store is well formed if its cells
mention allocated variables only, have no ambiguous types inside, and no variable leads back to
itself. Where none does, the number of variables found from a variable (`rank`) goes down along
every mention, so the bounded searches `head?`, `occurs?`, `entangled?` and `resolve?` find what they
look for and never give up.
-/

namespace BMethod

open Relation

lemma Cell.mem_mentions {v : Nat} {c : Cell} : v ∈ c.mentions ↔ ∃ t ∈ c.contents, v ∈ t.vars := by
  simp [Cell.mentions]

@[simp] lemma Cell.mentions_bound (t : Ty) : (Cell.bound t).mentions = t.vars := by
  simp [mentions, contents]

/-- A variable that is not bound has at most its alternatives in its cell. -/
def Cell.Unbound (c : Cell) : Prop := ∀ t, c ≠ .bound t

namespace Store

/-! ## Mentions. -/

/-- The cell of `v` mentions `w`. -/
def Edge (s : Store) (v w : Nat) : Prop := w ∈ (s.cell v).mentions

/-- `w` is `v` or is found by following mentions from `v`. -/
abbrev Reaches (s : Store) : Nat → Nat → Prop := ReflTransGen s.Edge

/-- What is mentioned inside the set stays inside. -/
def Closed (s : Store) (C : Set Nat) : Prop := ∀ v ∈ C, ∀ w, s.Edge v w → w ∈ C

/-- No variable leads back to itself. -/
def Acyclic (s : Store) : Prop := ∀ v w, s.Edge v w → ¬ s.Reaches w v

/-- A store whose cells are scoped and in which no variable leads back to itself. -/
structure WellFormed (s : Store) : Prop where
  within : ∀ v, ∀ t ∈ (s.cell v).contents, t.Scoped s.cells.size
  acyclic : s.Acyclic

lemma cell_of_size_le {s : Store} {v : Nat} (h : s.cells.size ≤ v) : s.cell v = .free := by
  simp [cell, h]

lemma lt_size_of_cell_ne {s : Store} {v : Nat} (h : s.cell v ≠ .free) : v < s.cells.size := by
  by_contra hv
  exact h (cell_of_size_le (Nat.le_of_not_lt hv))

lemma Edge.lt_left {s : Store} {v w : Nat} (e : s.Edge v w) : v < s.cells.size := by
  refine lt_size_of_cell_ne fun h => ?_
  rw [Edge, h] at e
  simp [Cell.mentions, Cell.contents] at e

lemma WellFormed.edge_lt {s : Store} (wf : s.WellFormed) {v w : Nat} (e : s.Edge v w) :
    w < s.cells.size := by
  obtain ⟨t, ht, hw⟩ := Cell.mem_mentions.1 e
  exact (wf.within v t ht).lt hw

lemma wellFormed_empty : empty.WellFormed where
  within v t ht := by simp [empty, cell, Cell.contents] at ht
  acyclic v w e := by simp [Edge, empty, cell, Cell.mentions, Cell.contents] at e

/-- A closed set holds all that is found from its members. -/
lemma Closed.reaches {s : Store} {C : Set Nat} (cl : s.Closed C) {v w : Nat} (hv : v ∈ C)
    (h : s.Reaches v w) : w ∈ C := by
  induction h with
  | refl => exact hv
  | tail _ e ih => exact cl _ ih _ e

/-- The variables from which `v` is not found make up a closed set. -/
lemma closed_not_reaching (s : Store) (v : Nat) : s.Closed {w | ¬ s.Reaches w v} :=
  fun _ hw _ e h => hw (.head e h)

lemma Closed.inter {s : Store} {C D : Set Nat} (hC : s.Closed C) (hD : s.Closed D) :
    s.Closed (C ∩ D) :=
  fun v hv w e => ⟨hC v hv.1 w e, hD v hv.2 w e⟩

lemma closed_univ (s : Store) : s.Closed Set.univ := fun _ _ _ _ => trivial

/-! ## Rank. -/

open Classical in
/-- How many variables are found from a variable, itself included. -/
noncomputable def rank (s : Store) (v : Nat) : Nat :=
  ((Finset.range s.cells.size).filter (s.Reaches v)).card

lemma rank_le (s : Store) (v : Nat) : s.rank v ≤ s.cells.size := by
  classical
  simpa [rank] using Finset.card_filter_le (Finset.range s.cells.size) (s.Reaches v)

/-- A variable finds more than any variable that it mentions. -/
lemma Acyclic.rank_lt {s : Store} (ac : s.Acyclic) {v w : Nat} (e : s.Edge v w) :
    s.rank w < s.rank v := by
  classical
  refine Finset.card_lt_card ⟨fun x hx => ?_, fun sub => ?_⟩
  · simp only [Finset.mem_filter] at hx ⊢
    exact ⟨hx.1, .head e hx.2⟩
  · have hv : v ∈ (Finset.range s.cells.size).filter (s.Reaches v) := by
      simpa using ⟨e.lt_left, ReflTransGen.refl⟩
    have := sub hv
    simp only [Finset.mem_filter] at this
    exact ac v w e this.2

lemma rank_pos {s : Store} {v : Nat} (h : v < s.cells.size) : 0 < s.rank v := by
  classical
  exact Finset.card_pos.2 ⟨v, by simpa using ⟨h, ReflTransGen.refl⟩⟩

/-- From a variable of rank zero nothing is found. -/
lemma cell_of_rank_le_zero {s : Store} {v : Nat} (h : s.rank v ≤ 0) : s.cell v = .free := by
  refine cell_of_size_le (Nat.le_of_not_lt fun hv => ?_)
  have := rank_pos hv
  omega

/-! ## Following bindings. -/

lemma headWithin_of_nonvar (s : Store) (n : Nat) {t : Ty} (h : ∀ v, t ≠ .var v) :
    s.headWithin n t = some t := by
  cases t with
  | var v => exact absurd rfl (h v)
  | _ => cases n <;> rfl

lemma headWithin_of_unbound {s : Store} {v : Nat} (n : Nat) (h : (s.cell v).Unbound) :
    s.headWithin n (.var v) = some (.var v) := by
  cases hc : s.cell v with
  | bound t => exact absurd hc (h t)
  | _ => cases n <;> simp [headWithin, hc]

lemma headWithin_zero_of_bound {s : Store} {v : Nat} {t : Ty} (h : s.cell v = .bound t) :
    s.headWithin 0 (.var v) = none := by
  simp [headWithin, h]

lemma headWithin_succ_of_bound {s : Store} {v : Nat} {t : Ty} (n : Nat) (h : s.cell v = .bound t) :
    s.headWithin (n + 1) (.var v) = s.headWithin n t := by
  simp [headWithin, h]

lemma unbound_or_bound (c : Cell) : c.Unbound ∨ ∃ t, c = .bound t := by
  cases c with
  | bound t => exact .inr ⟨t, rfl⟩
  | _ => exact .inl nofun

/-- What holds of a type, and passes from a bound variable to its type, holds at the end; and a
variable at the end is not bound. -/
lemma headWithin_induction {s : Store} {P : Ty → Prop}
    (step : ∀ v t, P (.var v) → s.cell v = .bound t → P t) {n : Nat} {t u : Ty}
    (h : s.headWithin n t = some u) (ht : P t) :
    P u ∧ ∀ v, u = .var v → (s.cell v).Unbound := by
  induction n generalizing t with
  | zero =>
    by_cases hv : ∃ v, t = .var v
    · obtain ⟨v, rfl⟩ := hv
      obtain hc | ⟨t', hc⟩ := unbound_or_bound (s.cell v)
      · rw [headWithin_of_unbound _ hc] at h
        cases h
        exact ⟨ht, fun w hw => by cases hw; exact hc⟩
      · rw [headWithin_zero_of_bound hc] at h
        cases h
    · rw [headWithin_of_nonvar _ _ fun v e => hv ⟨v, e⟩] at h
      cases h
      exact ⟨ht, fun w hw => absurd ⟨w, hw⟩ hv⟩
  | succ n ih =>
    by_cases hv : ∃ v, t = .var v
    · obtain ⟨v, rfl⟩ := hv
      obtain hc | ⟨t', hc⟩ := unbound_or_bound (s.cell v)
      · rw [headWithin_of_unbound _ hc] at h
        cases h
        exact ⟨ht, fun w hw => by cases hw; exact hc⟩
      · rw [headWithin_succ_of_bound n hc] at h
        exact ih h (step v t' ht hc)
    · rw [headWithin_of_nonvar _ _ fun v e => hv ⟨v, e⟩] at h
      cases h
      exact ⟨ht, fun w hw => absurd ⟨w, hw⟩ hv⟩

lemma head?_induction {s : Store} {P : Ty → Prop}
    (step : ∀ v t, P (.var v) → s.cell v = .bound t → P t) {t u : Ty}
    (h : s.head? t = some u) (ht : P t) : P u :=
  (headWithin_induction step h ht).1

lemma unbound_of_head? {s : Store} {t : Ty} {v : Nat} (h : s.head? t = some (.var v)) :
    (s.cell v).Unbound :=
  (headWithin_induction (P := fun _ => True) (fun _ _ _ _ => trivial) h trivial).2 v rfl

/-- What the head of a type mentions is found from the type. -/
lemma reaches_of_head? {s : Store} {t u : Ty} (h : s.head? t = some u) {w : Nat} (hw : w ∈ u.vars) :
    ∃ v ∈ t.vars, s.Reaches v w := by
  refine head?_induction (P := fun x => ∀ w ∈ x.vars, ∃ v ∈ t.vars, s.Reaches v w)
    (fun x y hx hc w hw => ?_) h (fun v hv => ⟨v, hv, .refl⟩) w hw
  obtain ⟨v, hv, r⟩ := hx x (by simp [Ty.vars])
  exact ⟨v, hv, r.tail (by simpa [Edge, hc] using hw)⟩

/-- Following bindings ends. -/
lemma Acyclic.exists_headWithin {s : Store} (ac : s.Acyclic) {n : Nat} {t : Ty}
    (h : ∀ v, t = .var v → s.rank v ≤ n) : ∃ u, s.headWithin n t = some u := by
  induction n generalizing t with
  | zero =>
    by_cases hv : ∃ v, t = .var v
    · obtain ⟨v, rfl⟩ := hv
      have hc := cell_of_rank_le_zero (h v rfl)
      exact ⟨_, headWithin_of_unbound 0 fun t => by simp [hc]⟩
    · exact ⟨t, headWithin_of_nonvar _ _ fun v e => hv ⟨v, e⟩⟩
  | succ n ih =>
    by_cases hv : ∃ v, t = .var v
    · obtain ⟨v, rfl⟩ := hv
      obtain hc | ⟨t', hc⟩ := unbound_or_bound (s.cell v)
      · exact ⟨_, headWithin_of_unbound _ hc⟩
      · rw [headWithin_succ_of_bound n hc]
        refine ih fun w hw => ?_
        have e : s.Edge v w := by simp [Edge, hc, hw, Cell.mentions, Cell.contents, Ty.vars]
        have := ac.rank_lt e
        have := h v rfl
        omega
    · exact ⟨t, headWithin_of_nonvar _ _ fun v e => hv ⟨v, e⟩⟩

lemma Acyclic.exists_head? {s : Store} (ac : s.Acyclic) (t : Ty) :
    ∃ u, s.head? t = some u :=
  ac.exists_headWithin fun v _ => s.rank_le v

lemma headWithin_mono {s : Store} {n m : Nat} (le : n ≤ m) {t u : Ty}
    (h : s.headWithin n t = some u) : s.headWithin m t = some u := by
  induction n generalizing m t with
  | zero =>
    by_cases hv : ∃ v, t = .var v
    · obtain ⟨v, rfl⟩ := hv
      obtain hc | ⟨t', hc⟩ := unbound_or_bound (s.cell v)
      · rwa [headWithin_of_unbound _ hc] at h ⊢
      · rw [headWithin_zero_of_bound hc] at h
        cases h
    · rwa [headWithin_of_nonvar _ _ fun v e => hv ⟨v, e⟩] at h ⊢
  | succ n ih =>
    obtain ⟨m, rfl⟩ : ∃ j, m = j + 1 := ⟨m - 1, by omega⟩
    by_cases hv : ∃ v, t = .var v
    · obtain ⟨v, rfl⟩ := hv
      obtain hc | ⟨t', hc⟩ := unbound_or_bound (s.cell v)
      · rwa [headWithin_of_unbound _ hc] at h ⊢
      · rw [headWithin_succ_of_bound _ hc] at h ⊢
        exact ih (by omega) h
    · rwa [headWithin_of_nonvar _ _ fun v e => hv ⟨v, e⟩] at h ⊢

lemma head?_of_unbound {s : Store} {v : Nat} (h : (s.cell v).Unbound) :
    s.head? (.var v) = some (.var v) :=
  headWithin_of_unbound _ h

/-- A bound variable has the head of its type. -/
lemma Acyclic.head?_of_bound {s : Store} (ac : s.Acyclic) {v : Nat} {t : Ty}
    (h : s.cell v = .bound t) : s.head? (.var v) = s.head? t := by
  have lt := lt_size_of_cell_ne (s := s) (v := v) (by simp [h])
  obtain ⟨n, hn⟩ : ∃ n, s.cells.size = n + 1 := ⟨s.cells.size - 1, by omega⟩
  obtain ⟨u, hu⟩ := ac.exists_headWithin (n := n) (t := t) fun w hw => by
    have e : s.Edge v w := by simp [Edge, h, hw, Ty.vars]
    have := ac.rank_lt e
    have := s.rank_le v
    omega
  rw [head?, head?, hn, headWithin_succ_of_bound n h, hu, headWithin_mono (by omega) hu]

/-- Where bound variables keep their types, a type has the head of its former head. -/
lemma Acyclic.head?_head? {s s' : Store} (ac : s'.Acyclic)
    (keep : ∀ v t, s.cell v = .bound t → s'.cell v = .bound t) {t u : Ty}
    (h : s.head? t = some u) : s'.head? t = s'.head? u := by
  refine head?_induction (P := fun x => s'.head? t = s'.head? x) (fun v x e hc => ?_) h rfl
  rw [e, ac.head?_of_bound (keep v x hc)]

/-- The head of a type that is no variable is the type. -/
lemma head?_of_nonvar (s : Store) {t : Ty} (h : ∀ v, t ≠ .var v) : s.head? t = some t :=
  headWithin_of_nonvar s _ h

/-! ## Searching for a variable. -/

/-- A search through a list that never gives up. -/
lemma anyM_eq_some {α : Type} {p : α → Option Bool} {f : α → Bool} {l : List α}
    (h : ∀ x ∈ l, p x = some (f x)) : l.anyM p = some (l.any f) := by
  induction l with
  | nil => rfl
  | cons x l ih =>
    rw [List.anyM_cons, h x (by simp), ih fun y hy => h y (by simp [hy])]
    cases hx : f x <;> simp [hx]

open Classical in
/-- Enough hops find out whether a variable is found. -/
lemma Acyclic.reachesWithin_eq {s : Store} (ac : s.Acyclic) (target : Nat) {n v : Nat}
    (h : s.rank v ≤ n) : s.reachesWithin target n v = some (decide (s.Reaches v target)) := by
  induction n generalizing v with
  | zero =>
    rw [reachesWithin]
    have free := cell_of_rank_le_zero h
    by_cases e : v = target
    · simp [e, ReflTransGen.refl]
    · have : ¬ s.Reaches v target := fun r => by
        obtain rfl | ⟨w, e', _⟩ := r.cases_head
        · exact e rfl
        · simp [Edge, free, Cell.mentions, Cell.contents] at e'
      simp [e, this, free, Cell.mentions, Cell.contents]
  | succ n ih =>
    rw [reachesWithin]
    by_cases e : v = target
    · simp [e, ReflTransGen.refl]
    · rw [if_neg e, anyM_eq_some fun w hw => ih (v := w) ?_]
      · rw [Option.some.injEq, Bool.eq_iff_iff, List.any_eq_true, decide_eq_true_iff]
        simp only [decide_eq_true_iff]
        constructor
        · rintro ⟨w, hw, r⟩
          exact .head hw r
        · intro r
          obtain rfl | ⟨w, hw, r⟩ := r.cases_head
          · exact absurd rfl e
          · exact ⟨w, hw, r⟩
      · have := ac.rank_lt (v := v) (w := w) hw
        omega

open Classical in
/-- The occurs check finds out whether a variable of the type leads to the variable. -/
lemma Acyclic.occurs?_eq {s : Store} (ac : s.Acyclic) (v : Nat) (t : Ty) :
    s.occurs? v t = some (decide (∃ w ∈ t.vars, s.Reaches w v)) := by
  rw [occurs?, anyM_eq_some fun w _ => ac.reachesWithin_eq v (s.rank_le w)]
  rw [Option.some.injEq, Bool.eq_iff_iff, List.any_eq_true, decide_eq_true_iff]
  simp only [decide_eq_true_iff]

/-- One of two variables is found behind the cell of the other. -/
def Entangled (s : Store) (a b : Nat) : Prop :=
  (∃ w, s.Edge b w ∧ s.Reaches w a) ∨ ∃ w, s.Edge a w ∧ s.Reaches w b

open Classical in
lemma Acyclic.entangled?_eq {s : Store} (ac : s.Acyclic) (a b : Nat) :
    s.entangled? a b = some (decide (s.Entangled a b)) := by
  rw [entangled?, anyM_eq_some fun w _ => ac.reachesWithin_eq a (s.rank_le w),
    anyM_eq_some fun w _ => ac.reachesWithin_eq b (s.rank_le w)]
  have found (v w : Nat) : ((s.cell v).mentions.any fun x => decide (s.Reaches x w)) =
      decide (∃ x, s.Edge v x ∧ s.Reaches x w) := by
    rw [Bool.eq_iff_iff, List.any_eq_true, decide_eq_true_iff]
    simp only [decide_eq_true_iff]
    exact Iff.rfl
  rw [found, found]
  by_cases ha : ∃ w, s.Edge b w ∧ s.Reaches w a <;> simp [Entangled, ha]

/-! ## Resolving. -/

/-- Replacing variables succeeds if there is something to put for each. -/
lemma exists_bindVars {f : Nat → Option Ty} {t : Ty} (h : ∀ v ∈ t.vars, ∃ u, f v = some u) :
    ∃ u, t.bindVars f = some u := by
  induction t with
  | var v => exact h v (by simp [Ty.vars])
  | set elem ih =>
    obtain ⟨u, hu⟩ := ih h
    simp [Ty.bindVars, hu]
  | setOrInteger elem ih =>
    obtain ⟨u, hu⟩ := ih h
    simp [Ty.bindVars, hu]
  | couple left right ihl ihr =>
    simp only [Ty.vars, List.mem_append] at h
    obtain ⟨u, hu⟩ := ihl fun v hv => h v (.inl hv)
    obtain ⟨u', hu'⟩ := ihr fun v hv => h v (.inr hv)
    simp [Ty.bindVars, hu, hu']
  | integerOrPairs left right ihl ihr =>
    simp only [Ty.vars, List.mem_append] at h
    obtain ⟨u, hu⟩ := ihl fun v hv => h v (.inl hv)
    obtain ⟨u', hu'⟩ := ihr fun v hv => h v (.inr hv)
    simp [Ty.bindVars, hu, hu']
  | record fields ih =>
    simp only [Ty.vars, Ty.mem_fieldVars] at h
    have : ∃ gs, Ty.bindFields f fields = some gs := by
      induction fields with
      | nil => exact ⟨[], rfl⟩
      | cons g fields ihf =>
        obtain ⟨u, hu⟩ := ih g (by simp) fun v hv => h v ⟨g, by simp, hv⟩
        obtain ⟨gs, hgs⟩ := ihf (fun g hg => ih g (by simp [hg])) (by
          rintro v ⟨g, hg, hv⟩
          exact h v ⟨g, by simp [hg], hv⟩)
        exact ⟨_, by rw [Ty.bindFields, hu, hgs]; rfl⟩
    obtain ⟨gs, hgs⟩ := this
    simp [Ty.bindVars, hgs]
  | _ => simp [Ty.bindVars]

/-- Resolving ends. -/
lemma Acyclic.exists_resolveWithin {s : Store} (ac : s.Acyclic) {n : Nat} {t : Ty}
    (h : ∀ v ∈ t.vars, s.rank v ≤ n) : ∃ u, s.resolveWithin n t = some u := by
  induction n generalizing t with
  | zero =>
    refine exists_bindVars fun v hv => ?_
    simp [expand, cell_of_rank_le_zero (h v hv)]
  | succ n ih =>
    refine exists_bindVars fun v hv => ?_
    have inside : ∀ u ∈ (s.cell v).contents, ∃ u', s.resolveWithin n u = some u' := by
      refine fun u hu => ih fun w hw => ?_
      have := ac.rank_lt (v := v) (w := w) (Cell.mem_mentions.2 ⟨u, hu, hw⟩)
      have := h v hv
      omega
    rw [expand]
    cases hc : s.cell v with
    | free => simp
    | bound u => exact inside u (by simp [hc, Cell.contents])
    | setOrInteger e =>
      obtain ⟨u, hu⟩ := inside e (by simp [hc, Cell.contents])
      simp [hu]
    | integerOrPairs l r =>
      obtain ⟨u, hu⟩ := inside l (by simp [hc, Cell.contents])
      obtain ⟨u', hu'⟩ := inside r (by simp [hc, Cell.contents])
      simp [hu, hu']

lemma Acyclic.exists_resolve? {s : Store} (ac : s.Acyclic) (t : Ty) :
    ∃ u, s.resolve? t = some u :=
  ac.exists_resolveWithin fun v _ => s.rank_le v

end Store

end BMethod
