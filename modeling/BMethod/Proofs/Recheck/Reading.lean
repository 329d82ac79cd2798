import BMethod.Proofs.Recheck.Substitution

/-!
# Trees as they have been read

Concluding puts other types into slots and reads operators by these, and so the second check is given
another tree than the one that the second walk has been followed through. What it finds in the slots it
overwrites, so that it is enough if the operators are those that the world tells (`World.Reads`).
-/

namespace BMethod

open State Walk

/-! ## Operators without operands. -/

/-- Reading an operator by a type makes none that has no operands, and leaves those alone. -/
lemma Operator.mem_nullary_reread (op : Operator) (o : Option Ty) :
    (o.bind op.reread?).getD op ∈ nullary ↔ op ∈ nullary := by
  cases o with
  | none => rfl
  | some t =>
    by_cases minus : op = .minus
    · subst minus
      cases t <;> simp [reread?, nullary]
    by_cases mult : op = .mult
    · subst mult
      cases t <;> simp [reread?, nullary]
    rw [Option.bind_some, reread?_eq_none minus mult]
    rfl

namespace Node

variable {f g h : Stamp} {n n' : Node}

/-- No operator without operands is applied to some in the tree. -/
def AllApplied (n : Node) : Prop := ∀ m ∈ n.preorder, m.WellApplied

/-- Whether the operators are those without operands is all that matters. -/
lemma allApplied_restamp (nullary : ∀ k op, f.op k op ∈ Operator.nullary ↔ op ∈ Operator.nullary) :
    (n.restamp f).AllApplied ↔ n.AllApplied := by
  have node (m : Node) : (m.restamp f).WellApplied ↔ m.WellApplied := by
    cases m with
    | expr e => cases e <;> simp [restamp, WellApplied, nullary]
    | _ => exact Iff.rfl
  simp only [AllApplied, preorder_restamp, List.forall_mem_map, node]

lemma allApplied_erase : n.erase.AllApplied ↔ n.AllApplied := allApplied_restamp fun _ _ => Iff.rfl

lemma AllApplied.of_erase (applied : n.AllApplied) (same : n.erase = n'.erase) : n'.AllApplied := by
  rwa [← allApplied_erase, ← same, allApplied_erase]

/-- Maps that do the same to the operators of a tree, and do not touch where its nodes are, leave the same
but for slots. -/
lemma erase_restamp_congr (note : ∀ k, Stamp.blank.note (f.note k) = Stamp.blank.note (g.note k))
    (op : ∀ k o args, .expr (.apply k o args) ∈ n.preorder → f.op k o = g.op k o) :
    (n.restamp f).erase = (n.restamp g).erase :=
  (restamp_restamp_of (h := ⟨fun k => Stamp.blank.note (g.note k), g.op⟩) note op).trans
    (restamp_restamp (fun _ => rfl) (fun _ _ => rfl) n).symm

end Node

/-! ## Walks that overwrite the same. -/

/-- Walks that overwrite the same tree leave the same, if one of them succeeds. -/
lemma Walk.Overwrites.eq_ok {ν α : Type} {R : ν → Prop} {x y z : CheckM (Visited ν α)} {s s' : State}
    {n : ν} {a : α} (hx : Overwrites R x z) (hy : Overwrites R y z) (run : x s = ((n, .ok a), s')) :
    y s = ((n, .ok a), s') := by
  obtain ⟨state, verdict, ok⟩ := hx s
  obtain ⟨state', verdict', ok'⟩ := hy s
  have succeeds : (x s).1.2 = .ok a := by rw [run]
  have succeeds' : (y s).1.2 = .ok a := verdict'.trans (verdict.symm.trans succeeds)
  have left : (y s).1.1 = (x s).1.1 := (ok' a succeeds').1.trans (ok a succeeds).1.symm
  calc y s = (((y s).1.1, (y s).1.2), (y s).2) := rfl
    _ = (((x s).1.1, (x s).1.2), (x s).2) := by rw [left, verdict', ← verdict, state', ← state]
    _ = ((n, .ok a), s') := run

/-- What stands beside a walk stands beside another that overwrites the same tree. -/
lemma Duo.Visits.overwrite {ν α : Type} {w : World} {known : Nat → Bool} {d : Duo} {s₁ : State}
    {R : ν → Prop} {x y z : CheckM (Visited ν α)} {P : Duo → ν → α → Prop}
    (h : d.Visits w known x s₁ P) (hx : Overwrites R x z) (hy : Overwrites R y z) :
    d.Visits w known y s₁ P := by
  obtain ⟨d₁, _, first, run, n, a, rfl, ha⟩ := h
  exact ⟨d₁, _, first, ⟨run.toGoes, fun m => hx.eq_ok hy (run.run m)⟩, n, a, rfl, ha⟩

/-! ## Trees that have been read. -/

/-- The operators of the changed tree are those that the world tells. -/
structure World.Reads (w : World) (f : Stamp) (n : Node) : Prop where
  erase : (n.restamp f).erase = (n.restamp w.reading).erase
  applied : n.AllApplied

variable {w : World} {known : Nat → Bool} {f : Stamp} {d : Duo} {s₁ : State} {t t' u : Ty}

namespace World.Reads

variable {n : Node}

lemma applied_reading (h : w.Reads f n) : (n.restamp w.reading).AllApplied :=
  (Node.allApplied_restamp fun _ op => op.mem_nullary_reread _).2 h.applied

lemma applied_stamped (h : w.Reads f n) : (n.restamp f).AllApplied :=
  h.applied_reading.of_erase h.erase.symm

lemma overwritten (h : w.Reads f n) : (n.restamp f).Overwritten ∧ (n.restamp w.reading).Overwritten :=
  ⟨Node.overwritten _ h.applied_stamped, Node.overwritten _ h.applied_reading⟩

end World.Reads

namespace Duo.Sound

variable (h : d.Sound w known)

include h

/-- The second check of an expression that has been read follows the first. -/
lemma expr {e e₁ : Expr} (reads : w.Reads f (.expr e₁)) (tie : d.Tie w t t')
    (run : e.check t d.first = ((e₁, .ok u), s₁)) :
    d.Visits w known ((e₁.restamp f).check t') s₁ fun d₁ e' u' =>
      d₁.Yields w (.expr e₁) u (.expr e') u' := by
  have form : e₁.erase = e.erase := by
    have walked := (Node.walked (.expr e) t d.first).1
    rwa [run] at walked
  have repeats : (Node.expr e).Repeats w known :=
    Node.repeats (reads.applied.of_erase (congrArg Node.expr form))
  have same : (e₁.restamp f).erase = (e₁.restamp w.reading).erase := Node.expr.inj reads.erase
  obtain ⟨stamped, read⟩ := reads.overwritten
  exact (repeats h tie run).overwrite (read t') (same ▸ stamped t')

/-- The second check of a predicate that has been read follows the first. -/
lemma pred {p p₁ : Pred} (reads : w.Reads f (.pred p₁)) (tie : d.Tie w t t')
    (run : p.check t d.first = ((p₁, .ok u), s₁)) :
    d.Visits w known ((p₁.restamp f).check t') s₁ fun d₁ p' u' =>
      d₁.Yields w (.pred p₁) u (.pred p') u' := by
  have form : p₁.erase = p.erase := by
    have walked := (Node.walked (.pred p) t d.first).1
    rwa [run] at walked
  have repeats : (Node.pred p).Repeats w known :=
    Node.repeats (reads.applied.of_erase (congrArg Node.pred form))
  have same : (p₁.restamp f).erase = (p₁.restamp w.reading).erase := Node.pred.inj reads.erase
  obtain ⟨stamped, read⟩ := reads.overwritten
  exact (repeats h tie run).overwrite (read t') (same ▸ stamped t')

/-- The second check of a substitution that has been read follows the first. -/
lemma substitution {scope : Scope} (concrete : scope.Concrete) {σ σ₁ : Substitution}
    (reads : w.Reads f (.substitution σ₁)) (run : σ.check scope d.first = ((σ₁, .ok ()), s₁)) :
    d.Visits w known ((σ₁.restamp f).check scope) s₁ fun d₁ σ' _ =>
      d₁.Level w (.substitution σ₁) (.substitution σ') := by
  have form : σ₁.erase = σ.erase := by
    have walked := (Node.walked (.substitution σ) scope d.first).1
    rwa [run] at walked
  have repeats : (Node.substitution σ).Repeats w known :=
    Node.repeats (reads.applied.of_erase (congrArg Node.substitution form))
  have same : (σ₁.restamp f).erase = (σ₁.restamp w.reading).erase := Node.substitution.inj reads.erase
  obtain ⟨stamped, read⟩ := reads.overwritten
  exact (repeats concrete h run).overwrite (read scope) (same ▸ stamped scope)

end Duo.Sound

end BMethod
