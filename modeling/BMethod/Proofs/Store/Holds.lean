import BMethod.Proofs.Store.Unify

/-!
# Valuations that satisfy a store

A valuation satisfies a store if it gives every bound variable the value of its type, and every
variable that awaits a choice the value of one of its alternatives. Unification only makes demands:
whoever satisfies the store after it satisfies the store before it and gives the two types one value
(`Run.sound`).

For the equation that a cell asks for before its variable is bound, the store is looked at on a
closed set that the variable does not belong to: otherwise the new binding would be used to justify
itself.
-/

namespace BMethod

/-- What the cell of a variable says about its value. -/
def Cell.Holds (σ : Nat → Ty) (v : Nat) : Cell → Prop
  | .free => True
  | .bound t => σ v = t.eval σ
  | .setOrInteger e => σ v = .integer ∨ σ v = .set (e.eval σ)
  | .integerOrPairs l r => σ v = .integer ∨ σ v = .relation (l.eval σ) (r.eval σ)

namespace Store

/-- The valuation satisfies the cells of a set of variables. -/
def HoldsOn (s : Store) (C : Set Nat) (σ : Nat → Ty) : Prop := ∀ v ∈ C, (s.cell v).Holds σ v

/-- The valuation satisfies the store. -/
def Holds (s : Store) (σ : Nat → Ty) : Prop := ∀ v, (s.cell v).Holds σ v

section

variable {s : Store} {C : Set Nat} {σ : Nat → Ty}

lemma holdsOn_univ : s.HoldsOn Set.univ σ ↔ s.Holds σ :=
  ⟨fun h v => h v trivial, fun h v _ => h v⟩

/-- A head has the value of the type. -/
lemma HoldsOn.eval_head? (h : s.HoldsOn C σ) (wf : s.WellFormed) (cl : s.Closed C) {t u : Ty}
    (e : s.head? t = some u) (ht : t.Over s.cells.size C) : u.eval σ = t.eval σ := by
  refine (head?_induction (P := fun u => u.Over s.cells.size C ∧ u.eval σ = t.eval σ)
    (fun v u hv hc => ⟨?_, ?_⟩) e ⟨ht, rfl⟩).2
  · exact wf.over cl (Ty.over_var.1 hv.1).2 (by simp [hc, Cell.contents])
  · have := h v (Ty.over_var.1 hv.1).2
    rw [hc] at this
    rw [← hv.2]
    exact Eq.symm this

/-- What a cell asks for makes it satisfied by the type that the variable is bound to. -/
lemma Asks.holds {v : Nat} {c : Cell} {t : Ty} {d} (ask : Asks c t d) (hv : σ v = t.eval σ)
    (hd : ∀ p q, d = some (p, q) → p.eval σ = q.eval σ) : c.Holds σ v := by
  cases ask with
  | free => trivial
  | integer => exact .inl hv
  | product => exact .inl hv
  | set => exact .inr (by rw [hd _ _ rfl, hv, Ty.eval])
  | pairs =>
    have := hd _ _ rfl
    rw [Ty.eval] at this
    exact .inr (by rw [hv, Ty.eval, this, Ty.relation])

/-- What follows from two cells makes the one satisfied by the value of the other. -/
lemma Joins.holds {a b x y : Nat} {d} (j : Joins s a b x y d) (hxy : σ x = σ y)
    (hy : (s.cell y).Holds σ y) (hd : ∀ st p q, d = some (st, p, q) → p.eval σ = q.eval σ) :
    (s.cell x).Holds σ x := by
  cases j with
  | into ha _ => rw [ha]; trivial
  | «from» _ hb => rw [hb]; trivial
  | sets ha hb =>
    rw [hb] at hy
    rw [ha]
    simpa only [Cell.Holds, hxy, hd _ _ _ rfl] using hy
  | setPairs ha hb =>
    have := hd _ _ _ rfl
    rw [Ty.eval] at this
    rw [hb] at hy
    rw [ha]
    simpa only [Cell.Holds, hxy, this, Ty.relation] using hy
  | pairsSet ha hb =>
    have := hd _ _ _ rfl
    rw [Ty.eval] at this
    rw [ha] at hy
    rw [hb]
    simpa only [Cell.Holds, hxy, this, Ty.relation] using hy
  | pairs ha hb =>
    have := hd _ _ _ rfl
    rw [Ty.eval, Ty.eval] at this
    rw [hb] at hy
    rw [ha]
    simpa only [Cell.Holds, hxy, this, Ty.relation] using hy

/-- A satisfied join of two variables was satisfied before. -/
lemma Joins.holdsOn {a b x y : Nat} {d} (j : Joins s a b x y d) (ne : a ≠ b) (ha : a ∈ C)
    (hb : b ∈ C) (h : (s.assign x (.bound (.var y))).HoldsOn C σ)
    (hd : ∀ st p q, d = some (st, p, q) → p.eval σ = q.eval σ) :
    s.HoldsOn C σ ∧ σ x = σ y := by
  have hx : x ∈ C := by obtain ⟨rfl, -⟩ | ⟨rfl, -⟩ := j.sides <;> assumption
  have hy : y ∈ C := by obtain ⟨-, rfl⟩ | ⟨-, rfl⟩ := j.sides <;> assumption
  have nyx : y ≠ x := by
    obtain ⟨rfl, rfl⟩ | ⟨rfl, rfl⟩ := j.sides
    · exact ne.symm
    · exact ne
  have hxy : σ x = σ y := by
    have := h x hx
    rw [cell_assign, if_pos rfl] at this
    exact this
  have old : ∀ w ∈ C, w ≠ x → (s.cell w).Holds σ w := fun w hw hne => by
    have := h w hw
    rwa [cell_assign, if_neg hne] at this
  refine ⟨fun w hw => ?_, hxy⟩
  by_cases e : w = x
  · subst e
    exact j.holds hxy (old y hy nyx) hd
  · exact old w hw e

end

/-- Who satisfies the store after a successful run satisfied it before, and the two types and the
result have one value. -/
lemma Run.sound {stage n s l r out s'} (run : Run stage n s l r out s') (wf : s.WellFormed)
    {C : Set Nat} (cl : s.Closed C) (hl : l.Over s.cells.size C) (hr : r.Over s.cells.size C)
    {t : Ty} (ok : out = .ok t) {σ : Nat → Ty} (h : s'.HoldsOn C σ) :
    s.HoldsOn C σ ∧ l.eval σ = r.eval σ ∧ t.eval σ = l.eval σ := by
  induction run generalizing C t with
  | exhausted | entangled | occurs | refuse | bindFails | clash | coupleFails | consFails
  | consRestFails => cases ok
  | enter el ml er mr _ ih =>
    have ol := wf.over_head? cl el hl
    obtain ⟨rfl, rfl⟩ := ml.of_scoped ol.1
    have or := wf.over_head? cl er hr
    obtain ⟨rfl, rfl⟩ := mr.of_scoped or.1
    obtain ⟨h, e, e'⟩ := ih wf cl ol or ok h
    have hl' := h.eval_head? wf cl el hl
    have hr' := h.eval_head? wf cl er hr
    exact ⟨h, by rw [← hl', e, hr'], by rw [e', hl']⟩
  | self =>
    cases ok
    exact ⟨h, rfl, rfl⟩
  | join ne apart j =>
    cases ok
    obtain ⟨h, e⟩ := j.holdsOn ne (Ty.over_var.1 hl).2 (Ty.over_var.1 hr).2 h nofun
    obtain ⟨rfl, rfl⟩ | ⟨rfl, rfl⟩ := j.sides
    · exact ⟨h, e, e.symm⟩
    · exact ⟨h, e.symm, rfl⟩
  | @joinThen n s a b x y stage p q out s' ne apart j _ ih =>
    obtain ⟨u, hu, rfl⟩ := map_eq_ok ok
    rw [Ty.over_var] at hl hr
    have bind := j.narrows ne apart hl hr
    obtain ⟨hp, hq⟩ := j.over (fun t ht => wf.over cl hl.2 ht) (fun t ht => wf.over cl hr.2 ht)
    rw [← bind.size_eq] at hp hq
    obtain ⟨h, eq, -⟩ := ih (bind.wellFormed wf) (bind.closed cl) hp hq hu h
    -- The alternatives have one value, so the cell that the join has overwritten held, too.
    obtain ⟨h, e⟩ := j.holdsOn ne hl.2 hr.2 h fun _ _ _ hd => by cases hd; exact eq
    obtain ⟨rfl, rfl⟩ | ⟨rfl, rfl⟩ := j.sides
    · exact ⟨h, e, e.symm⟩
    · exact ⟨h, e.symm, rfl⟩
  | flip _ _ ih =>
    obtain ⟨h, e, e'⟩ := ih wf cl hr hl ok h
    exact ⟨h, e.symm, e'.trans e⟩
  | @bind n s v t nonvar apart ask =>
    cases ok
    rw [Ty.over_var] at hl
    have hv : σ v = t.eval σ := by
      have := h v hl.2
      rw [cell_assign, if_pos rfl] at this
      exact this
    refine ⟨fun w hw => ?_, hv, hv.symm⟩
    by_cases e : w = v
    · subst e
      exact ask.holds hv nofun
    · have := h w hw
      rwa [cell_assign, if_neg e] at this
  | @bindThen n s v t p q u s' nonvar apart ask run ih =>
    cases ok
    rw [Ty.over_var] at hl
    have cl' := cl.inter (s.closed_not_reaching v)
    obtain ⟨-, hp, hq⟩ := ask.avoids wf.tidy cl hl.2 (Ty.inside_false.2 hr) apart
    rw [Ty.inside_false] at hp hq
    have hv : σ v = t.eval σ := by
      have := h v hl.2
      rw [cell_assign, if_pos rfl] at this
      exact this
    have old : ∀ w ∈ C, w ≠ v → (s'.cell w).Holds σ w := fun w hw hne => by
      have := h w hw
      rwa [cell_assign, if_neg hne] at this
    obtain ⟨h', eq, -⟩ := ih wf cl' hp hq rfl fun w hw => old w hw.1 fun e => hw.2 (e ▸ .refl)
    refine ⟨fun w hw => ?_, hv, hv.symm⟩
    by_cases e : w = v
    · subst e
      exact ask.holds hv fun _ _ hd => by cases hd; exact eq
    · by_cases reach : s.Reaches w v
      · -- Outside the set that the equation is over, the cell has not changed.
        rw [← (run.narrows wf cl' hp hq).1.cell_eq fun h => h.2 reach]
        exact old w hw e
      · exact h' w ⟨hw, reach⟩
  | leaf _ e =>
    cases ok
    exact ⟨h, e σ, rfl⟩
  | set _ ih =>
    obtain ⟨u, hu, rfl⟩ := map_eq_ok ok
    obtain ⟨h, e, e'⟩ := ih wf cl (Ty.over_set.1 hl) (Ty.over_set.1 hr) hu h
    exact ⟨h, by rw [Ty.eval, Ty.eval, e], by rw [Ty.eval, Ty.eval, e']⟩
  | couple run _ ih ih' =>
    obtain ⟨u, hu, rfl⟩ := map_eq_ok ok
    rw [Ty.over_couple] at hl hr
    have nar := (run.narrows wf cl hl.1 hr.1).1
    obtain ⟨h, e, e'⟩ := ih' (nar.wellFormed wf) (nar.closed cl) (nar.size_eq ▸ hl.2)
      (nar.size_eq ▸ hr.2) hu h
    obtain ⟨h, f, f'⟩ := ih wf cl hl.1 hr.1 rfl h
    exact ⟨h, by rw [Ty.eval, Ty.eval, e, f], by rw [Ty.eval, Ty.eval, e', f']⟩
  | record _ ih => exact ih wf cl hl hr ok h
  | nil =>
    cases ok
    exact ⟨h, rfl, rfl⟩
  | cons run _ ih ih' =>
    cases ok
    rw [Ty.over_record, List.forall_mem_cons, ← Ty.over_record] at hl hr
    have nar := (run.narrows wf cl hl.1 hr.1).1
    obtain ⟨h, e, e'⟩ := ih' (nar.wellFormed wf) (nar.closed cl) (nar.size_eq ▸ hl.2)
      (nar.size_eq ▸ hr.2) rfl h
    obtain ⟨h, f, f'⟩ := ih wf cl hl.1 hr.1 rfl h
    simp only [Ty.eval, Ty.record.injEq] at e e'
    refine ⟨h, ?_, ?_⟩
    · rw [Ty.eval, Ty.eval, Ty.evalFields, Ty.evalFields, e, f]
    · rw [Ty.eval, Ty.eval, Ty.evalFields, Ty.evalFields, e', f']

end Store

end BMethod
