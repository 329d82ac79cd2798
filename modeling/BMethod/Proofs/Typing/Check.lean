import BMethod.Proofs.Typing.Conclude

/-!
# Complete checks

What a complete check makes of what its walk leaves. If all slots of nodes and declarations are
known after the walk, the check succeeds and puts the known types into the slots; if not, it fails
with an error.
-/

namespace BMethod

open State

variable {known : Nat → Bool} {s : State}

lemma Ensures.and {ν α : Type} {x : CheckM (Visited ν α)} {Q Q' : ν → α → State → Prop}
    {E E' : Halt TypeError → Prop} (h : Ensures x s Q E) (h' : Ensures x s Q' E') :
    Ensures x s (fun n a s' => Q n a s' ∧ Q' n a s') fun e => E e ∧ E' e := by
  rw [Ensures] at h h' ⊢
  revert h h'
  obtain ⟨⟨n, _ | a⟩, s'⟩ := x s <;> exact And.intro

/-- What a computation ensures of each of several things. -/
lemma Ensures.forall {ι ν α : Type} {x : CheckM (Visited ν α)} {Q : ι → ν → α → State → Prop}
    {E : ι → Halt TypeError → Prop} (h : ∀ i, Ensures x s (Q i) (E i)) :
    Ensures x s (fun n a s' => ∀ i, Q i n a s') fun e => ∀ i, E i e := by
  simp only [Ensures] at h ⊢
  revert h
  obtain ⟨⟨n, _ | a⟩, s'⟩ := x s <;> exact id

/-- Whether a check has succeeded can be computed. -/
lemma Checked.isOk_iff {τ α : Type} {c : Checked τ α} :
    c.verdict.isOk = true ↔ ∃ t, c.verdict = .ok t := by
  cases c.verdict <;> simp [Except.isOk, Except.toBool]

/-- What is left for a result after the walk: all slots of the trees and of the declarations are
known. -/
def State.AllKnown (s : State) (ns : List Node) : Prop :=
  (∀ n ∈ ns, n.AllKnown s.unifier.store) ∧ s.decls.AllKnown s.unifier.store

/-- What concluding makes of a state. -/
def State.Settled (s s' : State) : Prop := s'.decls = s.decls.settle s.unifier.store

section

variable {E : Halt TypeError → Prop}

/-- Concluding, given what follows from the slots being known and from their not being known. -/
lemma ensures_conclude {τ : Type} {tree tree' : τ} {sweep : τ → SweepM τ} {clean : Prop}
    {Q : τ → Unit → State → Prop} (inv : s.Inv known)
    (swept : Sweeps s.unifier (sweep tree) clean tree')
    (ok : clean → s.decls.AllKnown s.unifier.store → ∀ s', s.Settled s' → Q tree' () s')
    (error : ¬ (clean ∧ s.decls.AllKnown s.unifier.store) → ∀ e, E (.error e)) :
    Ensures (conclude tree sweep) s Q E := by
  rw [Ensures]
  obtain ⟨hc, hd, s', run, settled⟩ | ⟨vague, t, e, s', run⟩ :=
    conclude_spec inv.unifier.wellFormed.acyclic swept
  · rw [run]
    exact ok hc hd s' settled
  · rw [run]
    exact error vague e

/-- A type whose head is a variable is not known completely. -/
lemma Store.WellFormed.not_knows_of_head? {s : Store} (wf : s.WellFormed) {t : Ty} {v : Nat}
    (ht : t.Scoped s.cells.size) (h : s.head? t = some (.var v)) : ¬ s.Knows t := by
  rintro ⟨u, hu, hc⟩
  have value (c : Choice) : (Ty.var v).eval (s.model c) = u.canon := by
    rw [(wf.holds_model c).canon_of_resolve? wf ht hu hc]
    exact (holdsOn_univ.2 (wf.holds_model c)).eval_head? wf s.closed_univ h (Ty.over_univ ht)
  obtain ⟨w, hw⟩ := wf.acyclic.exists_resolve? (.var v)
  have concrete := isConcrete_of_eval_model_eq (t := .var v) (Nat.lt_succ_self v) hw
    ((value _).trans (value _).symm)
  rw [wf.resolve?_var] at hw
  obtain ⟨x, hx, -⟩ := bound_of_expand hw concrete
  exact unbound_of_head? h x hx

/-- Declarations of which one is not settled are not all known. -/
lemma State.Inv.requireConcrete_or (inv : s.Inv known) (what : Subject) (ids : List Nat) :
    State.requireConcrete what ids s = (.ok (), s) ∨
      ∃ e, State.requireConcrete what ids s = (.error (.error e), s) ∧
        ¬ s.decls.AllKnown s.unifier.store := by
  obtain ⟨run, -⟩ | ⟨e, run, vague⟩ := inv.requireConcrete what ids
  · exact .inl run
  · refine .inr ⟨e, run, fun h => vague fun id _ t u ht hu => ?_⟩
    obtain ⟨u', hu', hc⟩ := h id t ht
    rw [hu] at hu'
    cases hu'
    exact hc

/-- A slot that is known is filled by the conclusion. -/
lemma Store.Knows.stamp {s : Store} {n : Note} {t : Ty} (slot : n.ty = some t) (h : s.Knows t) :
    ∃ u, (s.stamp.note n).ty = some u ∧ s.resolve? t = some u ∧ u.isConcrete = true := by
  obtain ⟨u, hu, hc⟩ := h
  refine ⟨u, ?_, hu, hc⟩
  simp [Store.stamp, slot, hu]

/-- The check of an expression on its own, after its walk. -/
lemma Expr.ensures_checkRoot (known : Nat → Bool) {e : Expr} {implicit : List Nat} {Q : Expr → Ty → State → Prop}
    (walk : Ensures (e.check (.var s.vars)) (s.grow .free) (fun e' t s' => s'.Inv known ∧
      e'.note.ty = some t ∧ t.Scoped s'.vars ∧
      (s'.AllKnown [.expr e'] → ∀ u s'', s'.Settled s'' →
        (e'.restamp s'.unifier.store.stamp).note.ty = some u →
        Q (e'.restamp s'.unifier.store.stamp) u s'') ∧
      (¬ s'.AllKnown [.expr e'] → ∀ err, E (.error err))) E) :
    Ensures (e.checkRoot implicit) s Q E := by
  refine ensures_bind (ensures_andThen (walk.mono fun e' t s' h => ?_))
  obtain ⟨inv, slot, ht, ok, error⟩ := h
  have wf := inv.unifier.wellFormed
  have allKnown : s'.AllKnown [.expr e'] ↔
      (Node.expr e').AllKnown s'.unifier.store ∧ s'.decls.AllKnown s'.unifier.store := by
    simp [State.AllKnown]
  rw [allKnown] at ok error
  have knows (h : (Node.expr e').AllKnown s'.unifier.store) : s'.unifier.store.Knows t := by
    obtain ⟨t', ht', hk⟩ := (Node.allKnown_expr (u := s'.unifier)).1 h |>.2
    rw [slot] at ht'
    cases ht'
    exact hk
  have finish : Ensures (e'.finish implicit) s' Q E := by
    refine ensures_orFail ?_
    obtain run | ⟨err, run, vague⟩ := inv.requireConcrete_or .localVariable implicit
    · rw [Concludes, run]
      refine ensures_andThen (ensures_conclude inv (Node.swept s'.unifier (.expr e'))
        (fun hn hd s'' settled => ?_) error)
      obtain ⟨u, hu, -⟩ := (knows hn).stamp slot
      have root : (e'.restamp s'.unifier.store.stamp).note.ty = some u := by
        rw [Expr.note_restamp, hu]
      simp only [root]
      exact ensures_done (ok ⟨hn, hd⟩ u s'' settled root)
    · rw [Concludes, run]
      exact error (fun h => vague h.2) err
  obtain ⟨h, hh⟩ := wf.acyclic.exists_head? t
  refine ensures_bind ?_
  simp only [show (get : CheckM State) s' = (s', s') from rfl, hh]
  cases h with
  | var v =>
    have vague := wf.not_knows_of_head? ht hh
    obtain ⟨r, -, run⟩ := run_resolve wf t
    refine ensures_orFail ?_
    rw [Concludes, run]
    exact error (fun h => vague (knows h.1)) _
  | _ => exact finish

/-- The check of a predicate on its own, after its walk. -/
lemma Pred.ensures_checkRoot (known : Nat → Bool) {p : Pred} {implicit : List Nat} {Q : Pred → Ty → State → Prop}
    (walk : Ensures (p.check .bool) s (fun p' t s' => s'.Inv known ∧ p'.note.ty = some t ∧
      (s'.AllKnown [.pred p'] → ∀ u s'', s'.Settled s'' →
        (p'.restamp s'.unifier.store.stamp).note.ty = some u →
        Q (p'.restamp s'.unifier.store.stamp) u s'') ∧
      (¬ s'.AllKnown [.pred p'] → ∀ err, E (.error err))) E) :
    Ensures (p.checkRoot implicit) s Q E := by
  refine ensures_andThen (walk.mono fun p' t s' h => ?_)
  obtain ⟨inv, slot, ok, error⟩ := h
  have allKnown : s'.AllKnown [.pred p'] ↔
      (Node.pred p').AllKnown s'.unifier.store ∧ s'.decls.AllKnown s'.unifier.store := by
    simp [State.AllKnown]
  rw [allKnown] at ok error
  refine ensures_orFail ?_
  obtain run | ⟨err, run, vague⟩ := inv.requireConcrete_or .localVariable implicit
  · rw [Concludes, run]
    refine ensures_andThen (ensures_conclude inv (Node.swept s'.unifier (.pred p'))
      (fun hn hd s'' settled => ?_) error)
    obtain ⟨t', ht', hk⟩ := (Node.allKnown_pred (u := s'.unifier)).1 hn |>.2
    obtain ⟨u, hu, -⟩ := hk.stamp ht'
    have root : (p'.restamp s'.unifier.store.stamp).note.ty = some u := by
      rw [Pred.note_restamp, hu]
    simp only [root]
    exact ensures_done (ok ⟨hn, hd⟩ u s'' settled root)
  · rw [Concludes, run]
    exact error (fun h => vague h.2) err

end

/-! ## Running a check. -/

/-- The outcome of a check from what its walk ensures. -/
lemma runCheck_spec {τ α : Type} (target : Target) {ds : Declarations}
    {walk : CheckM (Visited τ α)} {Q : τ → α → State → Prop} {E : Halt TypeError → Prop}
    (h : Ensures walk (start ds) Q E) :
    (∃ a s', (runCheck target ds walk).verdict = .ok a ∧ Q (runCheck target ds walk).tree a s' ∧
        (runCheck target ds walk).decls = s'.decls) ∨
      ∃ e, (runCheck target ds walk).verdict = .error e ∧ E e := by
  rw [Ensures] at h
  simp only [runCheck]
  revert h
  obtain ⟨⟨tree, e | a⟩, s'⟩ := walk (start ds)
  · exact fun h => .inr ⟨e, rfl, h⟩
  · exact fun h => .inl ⟨a, s', rfl, h, rfl⟩

end BMethod
