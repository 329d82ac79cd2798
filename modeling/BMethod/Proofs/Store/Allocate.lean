import BMethod.Proofs.Store.Solutions

/-!
# New variables

A new variable is mentioned by no cell, so a store stays well formed when one is allocated, heads
stay what they are, and only the cell of the new variable makes a demand. A guess is extended by a
value for it.
-/

namespace BMethod

open Relation

namespace Store

variable {s : Store} {c : Cell}

/-- A store stays well formed if the new cell is scoped. -/
lemma WellFormed.allocate (wf : s.WellFormed) (hc : ∀ t ∈ c.contents, t.Scoped s.cells.size) :
    (s.allocate c).2.WellFormed :=
  tidy_false.1 (wf.tidy.allocate fun t ht => (hc t ht).inside)

/-- What was never allocated is free. -/
lemma cell_allocate_free (s : Store) : (s.allocate .free).2.cell = s.cell := funext fun v => by
  rw [cell_allocate]
  split
  · rw [cell_of_size_le (by omega)]
  · rfl

/-- A new variable of which nothing is known leads nowhere. -/
lemma Acyclic.allocate_free (ac : s.Acyclic) : (s.allocate .free).2.Acyclic := by
  have edges : (s.allocate .free).2.Edge = s.Edge := by
    funext v w
    rw [Edge, cell_allocate_free, Edge]
  rwa [Acyclic, Reaches, edges]

/-- Old types keep their heads. -/
lemma WellFormed.head?_allocate (wf : s.WellFormed) (hc : ∀ t ∈ c.contents, t.Scoped s.cells.size)
    {t u : Ty} (ht : t.Scoped s.cells.size) (h : s.head? t = some u) :
    (s.allocate c).2.head? t = some u := by
  have old {v : Nat} (hv : v < s.cells.size) : (s.allocate c).2.cell v = s.cell v := by
    rw [cell_allocate, if_neg (by omega)]
  have keep (v : Nat) (x : Ty) (hx : s.cell v = .bound x) :
      (s.allocate c).2.cell v = .bound x := by
    rwa [old (lt_size_of_cell_ne (by simp [hx]))]
  rw [(wf.allocate hc).acyclic.head?_head? keep h]
  by_cases hv : ∃ v, u = .var v
  · obtain ⟨v, rfl⟩ := hv
    have lt : v < s.cells.size := (wf.over_head? s.closed_univ h (Ty.over_univ ht)).1
    refine head?_of_unbound ?_
    rw [old lt]
    exact unbound_of_head? h
  · exact head?_of_nonvar _ fun v e => hv ⟨v, e⟩

/-! ## Valuations and guesses. -/

/-- Who satisfies a store with a new variable satisfied it before. -/
lemma holds_allocate {σ : Nat → Ty} :
    (s.allocate c).2.Holds σ ↔ s.Holds σ ∧ c.Holds σ s.cells.size := by
  constructor
  · intro h
    refine ⟨fun v => ?_, ?_⟩
    · by_cases e : v = s.cells.size
      · rw [cell_of_size_le (by omega)]
        trivial
      · have := h v
        rwa [cell_allocate, if_neg e] at this
    · have := h s.cells.size
      rwa [cell_allocate, if_pos rfl] at this
  · rintro ⟨h, hc⟩ v
    rw [cell_allocate]
    split
    · rename_i e
      rw [e]
      exact hc
    · exact h v

end Store

namespace Guess

/-- The second guess says the same about the first `k` variables. -/
def Extends (k : Nat) (g g' : Guess) : Prop :=
  ∀ v < k, g'.value v = g.value v ∧ (v ∈ g'.idle ↔ v ∈ g.idle)

variable {g g' g'' : Guess} {k k' : Nat}

lemma Extends.refl (k : Nat) (g : Guess) : g.Extends k g := fun _ _ => ⟨rfl, Iff.rfl⟩

lemma Extends.trans (h : g.Extends k g') (h' : g'.Extends k' g'') (le : k ≤ k') :
    g.Extends k g'' := fun v hv =>
  have h' := h' v (by omega)
  ⟨h'.1.trans (h v hv).1, h'.2.trans (h v hv).2⟩

/-- What a type means does not change. -/
lemma Means.extend {t u : Ty} (m : g.Means k t u) (h : g.Extends k g') (le : k ≤ k') :
    g'.Means k' t u := by
  have lt {v : Nat} (hv : v ∈ t.vars) : v < k := m.1.1.lt hv
  refine ⟨⟨m.1.1.mono le, fun v hv => ?_⟩, ?_⟩
  · exact fun hi => m.1.2 v hv ((h v (lt hv)).2.1 hi)
  · rw [← m.2]
    exact Ty.eval_congr fun v hv => (h v (lt hv)).1

/-- How a choice is read does not change. -/
lemma Chooses.extend {value elem : Ty} (m : g.Chooses value elem) (h : g.Extends k g')
    (scope : elem.Scoped k) : g'.Chooses value elem := by
  have lt {v : Nat} (hv : v ∈ elem.vars) : v < k := scope.lt hv
  have same : elem.eval g'.value = elem.eval g.value :=
    Ty.eval_congr fun v hv => (h v (lt hv)).1
  rw [Chooses, same]
  refine m.imp (fun m => ⟨m.1, fun w hw => ?_⟩) fun m => ⟨m.1, fun w hw => ?_⟩
  · exact (h w (lt hw)).2.2 (m.2 w hw)
  · exact fun hi => m.2 w hw ((h w (lt hw)).2.1 hi)

open Classical in
/-- A guess with a value for one more variable. -/
noncomputable def push (g : Guess) (k : Nat) (value : Ty) (idle : Prop) : Guess where
  value v := if v = k then value else g.value v
  idle := {v | if v = k then idle else v ∈ g.idle}

lemma extends_push (g : Guess) (k : Nat) (value : Ty) (idle : Prop) :
    g.Extends k (g.push k value idle) := by
  intro v hv
  have : v ≠ k := by omega
  simp [push, this]

@[simp] lemma push_value (g : Guess) (k : Nat) (value : Ty) (idle : Prop) :
    (g.push k value idle).value k = value := by
  simp [push]

@[simp] lemma mem_push_idle (g : Guess) (k : Nat) (value : Ty) (idle : Prop) :
    k ∈ (g.push k value idle).idle ↔ idle := by
  simp [push]

/-- A live new variable means its value. -/
lemma means_push (g : Guess) (k : Nat) (value : Ty) :
    (g.push k value False).Means (k + 1) (.var k) value := by
  refine ⟨Ty.over_var.2 ⟨by omega, ?_⟩, ?_⟩
  · simp
  · simp [Ty.eval]

end Guess

namespace Store

variable {s : Store} {c : Cell} {g g' : Guess}

/-- A guess that is extended by what the new cell allows fits with the new variable. -/
lemma Fits.allocate (fits : s.Fits g) (wf : s.WellFormed) (ext : g.Extends s.cells.size g')
    (live : s.cells.size ∉ g'.idle → c.Fits g' s.cells.size)
    (idle : s.cells.size ∈ g'.idle → ∀ w ∈ c.mentions, w ∈ g'.idle) :
    (s.allocate c).2.Fits g' where
  closed v hv w e := by
    rw [edge_allocate] at e
    split at e
    · rename_i h
      subst h
      exact idle hv w e
    · have lt := e.lt_left
      exact (ext w (wf.edge_lt e)).2.2 (fits.closed v ((ext v lt).2.1 hv) w e)
  cells v hv := by
    rw [cell_allocate]
    split
    · rename_i h
      subst h
      exact live hv
    · by_cases lt : v < s.cells.size
      · have old := fits.cells v fun h => hv ((ext v lt).2.2 h)
        have value := (ext v lt).1
        have within := wf.within v
        generalize s.cell v = d at old within
        cases d with
        | free => trivial
        | bound t =>
          have scope := within t (by simp [Cell.contents])
          obtain ⟨e, live⟩ := old
          have m : g.Means s.cells.size t (t.eval g.value) := ⟨⟨scope, live⟩, rfl⟩
          obtain ⟨o, e'⟩ := m.extend ext le_rfl
          exact ⟨by rw [value, e, e'], o.2⟩
        | setOrInteger e =>
          rw [Cell.Fits, value]
          exact Guess.Chooses.extend old ext (within e (by simp [Cell.contents]))
        | integerOrPairs l r =>
          rw [Cell.Fits, value]
          exact Guess.Chooses.extend old ext
            ⟨within l (by simp [Cell.contents]), within r (by simp [Cell.contents])⟩
      · rw [cell_of_size_le (by omega)]
        trivial

/-- A plain store stays plain with a variable of which nothing is known, or with a live one that
awaits a choice between the integers and sets of a variable. -/
lemma Plain.allocate (plain : s.Plain g) (ext : g.Extends s.cells.size g')
    (hc : c = .free ∨ s.cells.size ∉ g'.idle ∧ ∃ w, c = .setOrInteger (.var w)) :
    (s.allocate c).2.Plain g' where
  noPairs v l r := by
    rw [cell_allocate]
    split
    · obtain rfl | ⟨-, w, rfl⟩ := hc <;> exact nofun
    · exact plain.noPairs v l r
  elem v e h := by
    rw [cell_allocate] at h
    split at h
    · obtain rfl | ⟨-, w, rfl⟩ := hc
      · cases h
      · cases h
        exact ⟨w, rfl⟩
    · exact plain.elem v e h
  idle v hv := by
    rw [cell_allocate]
    split
    · rename_i e
      subst e
      obtain rfl | ⟨live, -⟩ := hc
      · exact .inl rfl
      · exact absurd hv live
    · by_cases lt : v < s.cells.size
      · exact plain.idle v ((ext v lt).2.1 hv)
      · exact .inl (cell_of_size_le (by omega))

end Store

end BMethod
