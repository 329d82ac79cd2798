import BMethod.Proofs.Soundness

/-!
# Temporal formulas and conjunctions

A temporal formula is checked as the conjunction of its predicates is: the walk goes through the same
predicates in the same order, and so does the conclusion (`temporal_agrees`). A formula requires
before the conclusion that the identifiers it declares are known, and a temporal formula does not.
This makes a difference only to which of several unresolved types is reported.
-/

namespace BMethod

open State

/-- The predicates of a temporal formula, from left to right. -/
def Ltl.predicates : Ltl → List Pred
  | .unary _ arg => arg.predicates
  | .binary _ left right => left.predicates ++ right.predicates
  | .keyword _ => []
  | .pred p => [p]

/-! ## Walks. -/

/-- Predicates are walked through one part of the list after the other. -/
lemma Pred.checkAll_append (ps qs : List Pred) :
    checkAll (ps ++ qs) = (checkAll ps).andThen (· ++ qs) fun ps _ =>
      (checkAll qs).mapNode (ps ++ ·) := by
  induction ps with
  | nil => rfl
  | cons p ps ih =>
    simp only [List.cons_append, checkAll, ih, CheckM.andThen_done, CheckM.andThen_assoc,
      CheckM.mapNode_andThen]

/-- Walking through a temporal formula is walking through its predicates. -/
lemma Ltl.checkAll_predicates (f : Ltl) : Pred.checkAll f.predicates = f.check.mapNode predicates := by
  induction f with
  | unary op arg ih => simp only [predicates, check, ih, CheckM.andThen_done]; rfl
  | binary op left right ihl ihr =>
    simp only [predicates, check, Pred.checkAll_append, ihl, ihr, CheckM.mapNode_andThen,
      CheckM.andThen_done, CheckM.andThen_mapNode]
    rfl
  | keyword op => rfl
  | pred p =>
    simp only [predicates, check, Pred.checkAll, CheckM.andThen_mapNode]
    rfl

/-! ## Sweeps. -/

section

variable {m : Type → Type} [Monad m] [LawfulMonad m] {onExpr : Expr → m Expr} {onPred : Pred → m Pred}

lemma Pred.rewriteAllM_append (ps qs : List Pred) :
    rewriteAllM onExpr onPred (ps ++ qs) = (do
      let ps ← rewriteAllM onExpr onPred ps
      return ps ++ (← rewriteAllM onExpr onPred qs)) := by
  induction ps with
  | nil => simp [rewriteAllM]
  | cons p ps ih => simp [rewriteAllM, ih]

/-- Rewriting a temporal formula is rewriting its predicates. -/
lemma Ltl.rewriteAllM_predicates (f : Ltl) :
    Pred.rewriteAllM onExpr onPred f.predicates = predicates <$> f.rewriteM onExpr onPred := by
  induction f with
  | unary op arg ih => simp [predicates, rewriteM, ih]
  | binary op left right ihl ihr => simp [predicates, rewriteM, Pred.rewriteAllM_append, ihl, ihr]
  | keyword op => simp [predicates, rewriteM, Pred.rewriteAllM]
  | pred p => simp [predicates, rewriteM, Pred.rewriteAllM]

end

/-- A connective that is boolean stays so. -/
lemma Sweep.pred_connective (n : Note) (op : Connective) (ps : List Pred) :
    Sweep.pred (.connective (n.withTy .bool) op ps) = pure (.connective (n.withTy .bool) op ps) := by
  funext w
  have known : w.state.unifier.store.resolve? .bool = some .bool :=
    Store.resolve?_of_vars_eq_nil _ rfl
  have slot : slotType (n.withTy .bool) w = some (.bool, w) := by
    obtain ⟨none, -⟩ | ⟨t, ht, run⟩ := slotType_cases (n.withTy .bool) w
    · cases none
    · cases ht
      rw [run, known, Option.map_some]
  simp only [Sweep.pred, Pred.note, bind, StateT.bind, slot]
  rfl

/-- The conjunction of the predicates of a temporal formula. -/
def Ltl.conjunction (n : Note) (f : Ltl) : Pred := .connective n .and f.predicates

/-- The sweep through the conjunction of the predicates is the sweep through the formula. -/
lemma Ltl.rewriteM_conjunction (n : Note) (f : Ltl) :
    (f.conjunction (n.withTy .bool)).rewriteM Sweep.expr Sweep.pred =
      conjunction (n.withTy .bool) <$> f.rewriteM Sweep.expr Sweep.pred := by
  simp only [conjunction, Pred.rewriteM, Ltl.rewriteAllM_predicates, Sweep.pred_connective,
    bind_pure_comp, Functor.map_map]
  rfl

/-- A sweep through what is mapped concludes as the sweep does. -/
lemma conclude_mapNode {τ π : Type} (g : τ → π) {sweep : τ → SweepM τ} {sweep' : π → SweepM π} {t : τ}
    (h : sweep' (g t) = g <$> sweep t) : conclude (g t) sweep' = (conclude t sweep).mapNode g := by
  funext s
  have run' : sweep' (g t) ⟨s, none, none⟩ =
      (sweep t ⟨s, none, none⟩).map fun r => (g r.1, r.2) := by
    rw [h]
    simp only [Functor.map, StateT.map, bind, Option.bind]
    cases sweep t ⟨s, none, none⟩ <;> rfl
  rw [CheckM.mapNode]
  cases run : sweep t ⟨s, none, none⟩ with
  | none =>
    rw [run] at run'
    rw [conclude_of_none run, conclude_of_none run']
  | some r =>
    obtain ⟨b, w⟩ := r
    rw [run] at run'
    cases hu : w.undecided with
    | some e => rw [conclude_of_undecided run hu, conclude_of_undecided run' hu]
    | none =>
      rw [conclude_of_decided run hu, conclude_of_decided run' hu]
      simp only [CheckM.orFail, bind, StateT.bind]
      cases settleAllDeclarations w.state with
      | mk v s₁ =>
        cases v with
        | error e => rfl
        | ok _ => cases w.untyped <;> rfl

lemma Ltl.conclude_conjunction (n : Note) (f : Ltl) :
    (f.conjunction (n.withTy .bool)).conclude = f.conclude.mapNode (conjunction (n.withTy .bool)) :=
  conclude_mapNode _ (f.rewriteM_conjunction n)

/-! ## Roots. -/

/-- Unifying the booleans with themselves changes nothing. -/
lemma Store.run_unify_bool (s : Store) : Store.unify .bool .bool s = (.ok .bool, s) := by
  have depth : ∃ d, s.depthBound .bool .bool = d + 1 := by
    refine Nat.exists_eq_succ_of_ne_zero ?_
    simp [depthBound, Ty.size]
  obtain ⟨d, hd⟩ := depth
  have head : s.head? .bool = some .bool := head?_of_nonvar _ fun v h => by cases h
  have plain : awaiting .bool s = (.ok .bool, s) := rfl
  rw [Store.unify, run_bind, run_get]
  simp only [hd, unifyWithin, run_bind, run_ask (·.head? .bool) head, plain]
  rfl

/-- Before any product has been met the booleans are unified at once. -/
lemma State.run_unifyAt_bool (site : Site) {s : State} (none : s.unifier.links = []) :
    unifyAt site .bool .bool s = (.ok .bool, s) := by
  obtain ⟨decls, ⟨store, links⟩, events⟩ := s
  cases none
  have run : Unifier.unify .bool .bool ⟨store, []⟩ = (.ok .bool, ⟨store, []⟩) := by
    rw [Unifier.unify, run_bind]
    simp only [Unifier.onStore, Store.run_unify_bool]
    rfl
  simp only [unifyAt, bind, StateT.bind, run_onUnifier, run]
  rfl

/-- Forgetting the types of declarations adds no products. -/
lemma State.links_redeclare (ids : List Nat) (s : State) :
    (redeclare ids s).2.unifier.links = s.unifier.links := by
  induction ids generalizing s with
  | nil => rfl
  | cons id ids ih => exact ih _

/-- The walk through the conjunction is the walk through the formula. -/
lemma Ltl.check_conjunction (n : Note) (f : Ltl) {s : State} (none : s.unifier.links = []) :
    (f.conjunction n).check .bool s = (f.check.andThen (conjunction (n.withTy .bool))
      fun f _ => CheckM.done (f.conjunction (n.withTy .bool)) .bool) s := by
  simp only [conjunction, Pred.check, CheckM.orFail, bind, StateT.bind, run_unifyAt_bool _ none,
    Ltl.checkAll_predicates, CheckM.mapNode_andThen]
  rfl

/-- If all declarations are known, none of them stops a check. -/
lemma State.run_requireConcrete {s : State} (all : s.decls.AllKnown s.unifier.store) (what : Subject)
    (ids : List Nat) : requireConcrete what ids s = (.ok (), s) := by
  induction ids with
  | nil => rfl
  | cons id ids ih =>
    obtain ⟨-, run⟩ | ⟨t, ht, h⟩ := requireConcrete_cons what id ids s
    · rw [run, ih]
    · obtain ⟨u, hu, hc⟩ := all id t ht
      obtain ⟨none, -⟩ | ⟨u', hu', ⟨-, run⟩ | ⟨vague, -⟩⟩ := h
      · cases none.symm.trans hu
      · rw [run, ih]
      · cases hu'.symm.trans hu
        cases vague.symm.trans hc

/-- What stops a check is that a declaration is not known, and it leaves the state as it is. -/
lemma State.requireConcrete_error (what : Subject) (ids : List Nat) (s : State) :
    requireConcrete what ids s = (.ok (), s) ∨
      ∃ e, requireConcrete what ids s = (.error e, s) ∧
        ∀ err, e = .error err → err.isUnresolved = true := by
  obtain run | run | ⟨id, -, d, t, u, -, -, -, -, run⟩ := requireConcrete_cases what ids s
  · exact .inl run
  · exact .inr ⟨_, run, nofun⟩
  · refine .inr ⟨_, run, ?_⟩
    rintro err ⟨⟩
    rfl

/-- Nothing but that a type is not known. -/
def Halt.Unresolved : Halt TypeError → Prop
  | .error e => e.isUnresolved = true
  | .divergence => True

/-- Finishing the check of the conjunction is concluding that of the formula, after the identifiers that
are declared implicitly have been found to be known. -/
lemma Ltl.finish_conjunction (n : Note) (implicit : List Nat) (f : Ltl) :
    (f.conjunction (n.withTy .bool)).finish implicit =
      (requireConcrete .localVariable implicit).orFail (f.conjunction (n.withTy .bool)) fun _ =>
        f.conclude.andThen (conjunction (n.withTy .bool)) fun f _ =>
          CheckM.done (f.conjunction (n.withTy .bool)) .bool := by
  simp only [Pred.finish, conclude_conjunction, CheckM.mapNode_andThen]
  rfl

lemma Ltl.checkRoot_conjunction (n : Note) (implicit : List Nat) (f : Ltl) {s : State}
    (none : s.unifier.links = []) :
    (f.conjunction n).checkRoot implicit s = (f.check.andThen (conjunction (n.withTy .bool))
      fun f _ => (f.conjunction (n.withTy .bool)).finish implicit) s := by
  rw [Pred.checkRoot, CheckM.run_andThen, f.check_conjunction n none, CheckM.run_andThen,
    CheckM.run_andThen]
  obtain ⟨⟨f', _ | a⟩, s'⟩ := f.check s <;> rfl

/-- The two checks succeed together, with the same slots and declarations, or fail together, with the same
error unless types are not known. -/
lemma Ltl.agrees (n : Note) (implicit : List Nat) (f : Ltl) {s : State} (none : s.unifier.links = []) :
    (∃ f' s', (f.check.andThen id fun f _ => f.conclude) s = ((f', .ok ()), s') ∧
        (f.conjunction n).checkRoot implicit s =
          ((f'.conjunction (n.withTy .bool), .ok .bool), s')) ∨
      ∃ e e', ((f.check.andThen id fun f _ => f.conclude) s).1.2 = .error e ∧
        ((f.conjunction n).checkRoot implicit s).1.2 = .error e' ∧
        (e = e' ∨ e.Unresolved ∧ e'.Unresolved) := by
  rw [checkRoot_conjunction n implicit f none, CheckM.run_andThen, CheckM.run_andThen]
  obtain ⟨⟨f₁, e | a⟩, s₁⟩ := f.check s
  · exact .inr ⟨e, e, rfl, rfl, .inl rfl⟩
  simp only [finish_conjunction, CheckM.run_orFail, CheckM.run_andThen]
  have swept := Node.swept s₁.unifier (.ltl f₁)
  obtain run | ⟨e', run, unresolved⟩ := requireConcrete_error .localVariable implicit s₁
  · rw [run]
    simp only
    obtain ⟨⟨f₂, e | a⟩, s₂⟩ := f₁.conclude s₁
    · exact .inr ⟨e, e, rfl, rfl, .inl rfl⟩
    · exact .inl ⟨f₂, s₂, rfl, rfl⟩
  · -- A declaration that is not known stops the one check, and the other in the end.
    rw [run]
    cases conclude : f₁.conclude s₁ with
    | mk r s₂ =>
      obtain ⟨f₂, e | a⟩ := r
      · refine .inr ⟨e, e', rfl, rfl, .inr ⟨?_, ?_⟩⟩
        · cases e with
          | divergence => trivial
          | error e => exact TypeError.isUnresolved_of_isLeftOpen (conclude_error swept conclude)
        · cases e' with
          | divergence => trivial
          | error e' => exact unresolved e' rfl
      · obtain ⟨-, all, -⟩ := conclude_ok swept conclude
        rw [run_requireConcrete all] at run
        cases run

/-! ## The checks. -/

/-- The check of a formula is that of its predicate, after the identifiers that it declares have lost
their types. -/
lemma checkFormula_pred (ds : Declarations) (implicit : List Nat) (p : Pred) :
    checkFormula ds implicit (.pred p) = runCheck .formula ds
      (redeclare implicit >>= fun _ => (p.checkRoot implicit).mapNode .pred) := by
  rw [← CheckM.andThen_return]
  rfl

/-- Temporal formulas and conjunctions are checked alike. The check of a temporal formula succeeds
exactly if that of the conjunction of its predicates does, as a formula with the same declarations of
which the same are implicit. Then it leaves the same declarations and the same slots and operators of
predicates. An error of the one, unless it is that a type is not known, is the error of the other. -/
theorem temporal_agrees (ds : Declarations) (implicit : List Nat) (f : Ltl) (n : Note) :
    let temporal := checkLtl ds implicit f
    let formula := checkFormula ds implicit (.pred (.connective n .and f.predicates))
    (temporal.verdict = .ok () ↔ ∃ t, formula.verdict = .ok t) ∧
    (temporal.verdict = .ok () → temporal.decls = formula.decls ∧
      formula.tree = .pred (.connective (n.withTy .bool) .and temporal.tree.predicates)) ∧
    ∀ e : TypeError, e.isUnresolved = false →
      (temporal.verdict = .error (.error e) ↔ formula.verdict = .error (.error e)) := by
  intro temporal formula
  have none : (redeclare implicit (start ds)).2.unifier.links = [] := links_redeclare implicit (start ds)
  have formula_eq : formula = runCheck .formula ds (redeclare implicit >>= fun _ =>
    ((f.conjunction n).checkRoot implicit).mapNode .pred) := checkFormula_pred ds implicit _
  rw [formula_eq]
  obtain ⟨f', s', ltl, pred⟩ | ⟨e, e', ltl, pred, same⟩ := f.agrees n implicit none
  · have verdict : temporal.verdict = .ok () := congrArg (·.1.2) ltl
    have decls : temporal.decls = s'.decls := congrArg (·.2.decls) ltl
    have tree : temporal.tree = f' := congrArg (·.1.1) ltl
    rw [verdict, decls, tree]
    refine ⟨⟨fun _ => ⟨.bool, congrArg (·.1.2) pred⟩, fun _ => rfl⟩, fun _ => ⟨?_, ?_⟩, fun e _ => ⟨nofun, ?_⟩⟩
    · exact (congrArg (·.2.decls) pred).symm
    · exact congrArg (Formula.pred ·.1.1) pred
    · intro error
      cases (congrArg (·.1.2) pred).symm.trans error
  · have verdict : temporal.verdict = .error e := ltl
    have verdict' : (runCheck .formula ds (redeclare implicit >>= fun _ =>
      ((f.conjunction n).checkRoot implicit).mapNode Formula.pred)).verdict = .error e' := pred
    rw [verdict, verdict']
    refine ⟨⟨nofun, nofun⟩, nofun, fun err known => ?_⟩
    obtain rfl | ⟨left, right⟩ := same
    · simp
    · constructor
      · rintro ⟨⟩
        cases left.symm.trans known
      · rintro ⟨⟩
        cases right.symm.trans known

/-- The temporal formula `G {s - t = {1}} U {s <: t}`, in which all is to be typed through both
predicates. -/
def Ltl.sampleUntil : Ltl :=
  let note : Note := ⟨none, none⟩
  let s := Expr.identifier note 0 "s"
  let t := Expr.identifier note 1 "t"
  let one := Expr.apply note .setEnumeration [.integer note 1]
  .unary .globally (.binary .strongUntil
    (.pred (.comparison note .equal [.apply note .minus [s, t], one]))
    (.pred (.comparison note .inclusion [s, t])))

/-- It is accepted with both names declared implicitly, and so is the conjunction, in which the difference
is one of sets as well. -/
theorem temporal_agrees_sampleUntil :
    let ds : Declarations := ⟨#[.named "s", .named "t"]⟩
    let conjunction := Formula.pred (.connective ⟨none, none⟩ .and Ltl.sampleUntil.predicates)
    (checkLtl ds [0, 1] .sampleUntil).decls.ty? 0 = some (.set .integer) ∧
      (checkFormula ds [0, 1] conjunction).decls.ty? 0 = some (.set .integer) ∧
      ∃ t, (checkFormula ds [0, 1] conjunction).verdict = .ok t := by
  intro ds conjunction
  obtain ⟨_, ok⟩ : ∃ t, (checkLtl ds [0, 1] .sampleUntil).verdict = .ok t :=
    Checked.isOk_iff.1 (by decide +kernel)
  obtain ⟨accepts, same, -⟩ := temporal_agrees ds [0, 1] .sampleUntil ⟨none, none⟩
  have type : (checkLtl ds [0, 1] .sampleUntil).decls.ty? 0 = some (.set .integer) := by decide +kernel
  exact ⟨type, (congrArg (·.ty? 0) (same ok).1).symm.trans type, accepts.1 ok⟩

end BMethod
