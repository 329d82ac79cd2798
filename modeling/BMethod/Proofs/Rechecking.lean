import BMethod.Proofs.Acceptance
import BMethod.Proofs.Annotation
import BMethod.Proofs.Recheck.Outcome

/-!
# Checking what has been checked

A check that succeeds leaves a tree with types in its slots, and with differences and products that have
been read. Checking that once more succeeds with the same type, reads no operator anew, and leaves every
slot and every declaration with the type that it had (`recheck_stable`).
-/

namespace BMethod

open State Walk

variable {known : Nat → Bool} {s s' s₁ s₂ S S' : State}

/-! ## Roots. -/

/-- Run again by `again` on what it has left, and on the declarations as they have become, the walk
succeeds with the same result and agrees with itself. -/
def Walk.Rechecks {τ α : Type} (roots : τ → List Node) (same : α → α → Prop)
    (x : CheckM (Visited τ α)) (again : τ → CheckM (Visited τ α)) (s : State) : Prop :=
  ∀ n a s₂, x s = ((n, .ok a), s₂) → ∀ s', s.Starts s₂.decls s' →
    ∃ n' a' s₂', again n s' = ((n', .ok a'), s₂') ∧ same a a' ∧
      Agrees s₂.decls (roots n) s₂'.decls (roots n')

/-- The roots of trees that agree have the same type. -/
lemma Agrees.root {ds ds' : Declarations} {n n' : Node} (h : Agrees ds [n] ds' [n']) :
    SameType? n.slot n'.slot := by
  have slots := h.slots
  rw [List.flatMap_singleton, List.flatMap_singleton, Node.preorder_eq, n'.preorder_eq] at slots
  cases slots with
  | cons head _ => exact head

/-- The type of the one root is that of the other. -/
lemma SameType?.same {o o' : Option Ty} (h : SameType? o o') {t t' : Ty} (ht : o = some t)
    (ht' : o' = some t') : Ty.same t t' = true := by
  subst ht ht'
  cases h with
  | some same => exact same

lemma State.allKnown_singleton {n : Node} :
    s.AllKnown [n] ↔ n.AllKnown s.unifier.store ∧ s.decls.AllKnown s.unifier.store := by
  simp [State.AllKnown]

/-- The sweep through what is known completely ends with a success. -/
lemma conclude_of_allKnown {τ : Type} {tree tree' : τ} {sweep : τ → SweepM τ} {clean : Prop}
    (ac : s.unifier.store.Acyclic) (swept : Sweeps s.unifier (sweep tree) clean tree') (hc : clean)
    (hd : s.decls.AllKnown s.unifier.store) :
    ∃ s', conclude tree sweep s = ((tree', .ok ()), s') ∧ s.Settled s' := by
  obtain ⟨-, -, s', run, decls⟩ | ⟨vague, -⟩ := conclude_spec ac swept
  · exact ⟨s', run, decls⟩
  · exact absurd ⟨hc, hd⟩ vague

section

variable {τ α : Type} {tree tree' n : τ} {sweep : τ → SweepM τ} {clean : Prop} {implicit : List Nat}
  {next : τ → Unit → CheckM (Visited τ α)} {a : α}

/-- How the check of a root ends, if it succeeds: the identifiers that it declares are settled, and all
that is swept is known. -/
lemma finished_eq_ok (inv : S.Inv known) (swept : Sweeps S.unifier (sweep tree) clean tree')
    (run : ((requireConcrete .localVariable implicit).orFail tree fun _ =>
      (conclude tree sweep).andThen id next) S = ((n, .ok a), S')) :
    S.Settles implicit ∧ clean ∧ S.decls.AllKnown S.unifier.store ∧
      ∃ S₁, S.Settled S₁ ∧ next tree' () S₁ = ((n, .ok a), S') := by
  obtain ⟨_, S₁, required, run⟩ := CheckM.orFail_eq_ok.1 run
  obtain ⟨passed, settles⟩ | ⟨err, failed, -⟩ := inv.requireConcrete .localVariable implicit
  swap
  · cases failed.symm.trans required
  cases passed.symm.trans required
  obtain ⟨_, _, S₁, concluded, run⟩ := CheckM.andThen_eq_ok.1 run
  obtain ⟨nodes, decls, rfl, settled⟩ := conclude_ok swept concluded
  exact ⟨settles, nodes, decls, S₁, settled, run⟩

/-- The check of a root ends with a success if all is known. -/
lemma finished_of_allKnown (ac : S.unifier.store.Acyclic)
    (swept : Sweeps S.unifier (sweep tree) clean tree') (settles : S.Settles implicit) (hc : clean)
    (hd : S.decls.AllKnown S.unifier.store)
    (run : ∀ S₁, next tree' () S₁ = ((tree', .ok a), S₁)) :
    ∃ S', ((requireConcrete .localVariable implicit).orFail tree fun _ =>
      (conclude tree sweep).andThen id next) S = ((tree', .ok a), S') ∧ S.Settled S' := by
  obtain ⟨S', concluded, settled⟩ := conclude_of_allKnown ac swept hc hd
  refine ⟨S', CheckM.orFail_eq_ok.2 ⟨(), S, requireConcrete_of_settles ac _ settles, ?_⟩, settled⟩
  exact CheckM.andThen_eq_ok.2 ⟨tree', (), S', concluded, run S'⟩

end

/-- How the check of an expression on its own ends, if it succeeds. -/
lemma Expr.finish_eq_ok {e e' : Expr} {implicit : List Nat} {t : Ty} (inv : S.Inv known)
    (run : e.finish implicit S = ((e', .ok t), S')) :
    S.Settles implicit ∧ S.AllKnown [.expr e] ∧ S.Settled S' ∧ e' = e.restamp S.unifier.store.stamp ∧
      e'.note.ty = some t := by
  obtain ⟨settles, nodes, decls, S₁, settled, run⟩ :=
    finished_eq_ok inv (Node.swept S.unifier (.expr e)) run
  cases slot : (e.restamp S.unifier.store.stamp).note.ty with
  | none =>
    rw [slot] at run
    cases run
  | some u =>
    rw [slot] at run
    cases run
    exact ⟨settles, allKnown_singleton.2 ⟨nodes, decls⟩, settled, rfl, slot⟩

/-- The check of an expression of which everything is known ends with a success. -/
lemma Expr.finish_of_allKnown {e : Expr} {implicit : List Nat} (ac : S.unifier.store.Acyclic)
    (settles : S.Settles implicit) (all : S.AllKnown [.expr e]) :
    ∃ t S', e.finish implicit S = ((e.restamp S.unifier.store.stamp, .ok t), S') ∧ S.Settled S' ∧
      (e.restamp S.unifier.store.stamp).note.ty = some t := by
  obtain ⟨nodes, decls⟩ := allKnown_singleton.1 all
  obtain ⟨u, hu, known⟩ := (Node.allKnown_expr (u := S.unifier)).1 nodes |>.2
  obtain ⟨t, ht, -⟩ := known.stamp hu
  have slot : (e.restamp S.unifier.store.stamp).note.ty = some t := by rw [note_restamp, ht]
  obtain ⟨S', run, settled⟩ : ∃ S', e.finish implicit S =
      ((e.restamp S.unifier.store.stamp, .ok t), S') ∧ S.Settled S' := by
    refine finished_of_allKnown ac (Node.swept S.unifier (.expr e)) settles nodes decls fun S₁ => ?_
    rw [slot]
    rfl
  exact ⟨t, S', run, settled, slot⟩

/-- The check of an expression on its own goes through the expression, finds a type that is no variable,
and ends. -/
lemma Expr.checkRoot_eq_ok {e e₂ : Expr} {implicit : List Nat} {t : Ty} :
    e.checkRoot implicit s = ((e₂, .ok t), s₂) ↔ ∃ v s₀ e₁ u S h, State.fresh s = (v, s₀) ∧
      e.check v s₀ = ((e₁, .ok u), S) ∧ S.unifier.store.head? u = some h ∧ (∀ x, h ≠ .var x) ∧
        e₁.finish implicit S = ((e₂, .ok t), s₂) := by
  constructor
  · intro run
    obtain ⟨v, s₀, fresh, run⟩ := CheckM.bind_eq.1 run
    obtain ⟨e₁, u, S, walk, run⟩ := CheckM.andThen_eq_ok.1 run
    obtain ⟨_, _, ⟨⟩, run⟩ := CheckM.bind_eq.1 run
    cases head : S.unifier.store.head? u with
    | none =>
      simp only [head] at run
      cases run
    | some h =>
      simp only [head] at run
      cases h with
      | var x =>
        obtain ⟨_, _, -, failed⟩ := CheckM.orFail_eq_ok.1 run
        cases failed
      | _ => exact ⟨v, s₀, e₁, u, S, _, fresh, walk, head, nofun, run⟩
  · rintro ⟨v, s₀, e₁, u, S, h, fresh, walk, head, nonvar, run⟩
    refine CheckM.bind_eq.2 ⟨v, s₀, fresh, CheckM.andThen_eq_ok.2 ⟨e₁, u, S, walk, ?_⟩⟩
    refine CheckM.bind_eq.2 ⟨S, S, rfl, ?_⟩
    simp only [head]
    cases h with
    | var x => exact absurd rfl (nonvar x)
    | _ => exact run

/-- Checking an expression on its own once more changes nothing. -/
lemma Expr.rechecks_checkRoot {e : Expr} (blank : (Node.expr e).Blank) (inv : s.Inv known)
    (implicit : List Nat) :
    Rechecks (fun e => [.expr e]) (fun t t' => Ty.same t t' = true) (e.checkRoot implicit)
      (checkRoot implicit) s := by
  intro e₂ t s₂ run s' starts
  obtain ⟨v, s₀, e₁, u, S, h, fresh, walk, head, nonvar, finish⟩ := checkRoot_eq_ok.1 run
  have grown := fresh
  rw [run_fresh] at grown
  cases grown
  have typed := e.sound known .empty _ (.var s.vars) inv.fresh.inv (by simp [Ty.Scoped]) blank
  rw [Ensures, walk] at typed
  obtain ⟨settles, all, settled, rfl, slot⟩ := finish_eq_ok typed.walked.steps.inv finish
  -- The world to compare the walks in is one of the last state of the first, in which all is known.
  have models := typed.walked.steps.inv.models_world .integers
  have reads := typed.walked.reads all settled _ (.head _)
  obtain ⟨κ, sound⟩ := starts.sound inv (inv.fresh.trans typed.walked.steps) all.2 settled
  have visit : Duo.Visits (S.world .integers) known ⟨κ, s, s'⟩
      (State.fresh >>= fun v => (e₁.restamp S.unifier.store.stamp).check v) S fun d₁ e' u' =>
        d₁.Yields (S.world .integers) (.expr e₁) u (.expr e') u' := by
    refine .bind (sound.fresh fresh) ?_
    rintro d₁ v' g first tie
    rw [← first] at walk
    exact g.sound.expr reads tie walk
  obtain ⟨d₁, _, rfl, runs, e', u', rfl, yields⟩ := visit
  have ab := (runs.later models).abreast
  obtain ⟨v', s₀', fresh', walk'⟩ := CheckM.bind_eq.1 (runs.run models)
  have form : e'.erase = (e₁.restamp d₁.first.unifier.store.stamp).erase := by
    have walked := (Node.walked (.expr (e₁.restamp d₁.first.unifier.store.stamp)) v' s₀').1
    rwa [walk'] at walked
  obtain ⟨all', agrees⟩ := Duo.agrees ab all models (.cons yields.level .nil)
    (congrArg (fun a => [Node.expr a]) form)
  obtain ⟨h', head', nonvar', -⟩ := ab.unifier.store.exists_head? (yields.tie.tied models) head nonvar
  obtain ⟨t', s₂', finish', settled', slot'⟩ :=
    finish_of_allKnown ab.unifier.proper'.wellFormed.acyclic (ab.settles settles) all'
  rw [← settled, ← settled'] at agrees
  exact ⟨_, t', s₂', checkRoot_eq_ok.2 ⟨v', s₀', e', u', _, h', fresh', walk', head', nonvar', finish'⟩,
    agrees.root.same slot slot', agrees⟩

/-- How the check of a predicate on its own ends, if it succeeds. -/
lemma Pred.finish_eq_ok {p p' : Pred} {implicit : List Nat} {t : Ty} (inv : S.Inv known)
    (run : p.finish implicit S = ((p', .ok t), S')) :
    S.Settles implicit ∧ S.AllKnown [.pred p] ∧ S.Settled S' ∧ p' = p.restamp S.unifier.store.stamp ∧
      p'.note.ty = some t := by
  obtain ⟨settles, nodes, decls, S₁, settled, run⟩ :=
    finished_eq_ok inv (Node.swept S.unifier (.pred p)) run
  cases slot : (p.restamp S.unifier.store.stamp).note.ty with
  | none =>
    rw [slot] at run
    cases run
  | some u =>
    rw [slot] at run
    cases run
    exact ⟨settles, allKnown_singleton.2 ⟨nodes, decls⟩, settled, rfl, slot⟩

/-- The check of a predicate of which everything is known ends with a success. -/
lemma Pred.finish_of_allKnown {p : Pred} {implicit : List Nat} (ac : S.unifier.store.Acyclic)
    (settles : S.Settles implicit) (all : S.AllKnown [.pred p]) :
    ∃ t S', p.finish implicit S = ((p.restamp S.unifier.store.stamp, .ok t), S') ∧ S.Settled S' ∧
      (p.restamp S.unifier.store.stamp).note.ty = some t := by
  obtain ⟨nodes, decls⟩ := allKnown_singleton.1 all
  obtain ⟨u, hu, known⟩ := (Node.allKnown_pred (u := S.unifier)).1 nodes |>.2
  obtain ⟨t, ht, -⟩ := known.stamp hu
  have slot : (p.restamp S.unifier.store.stamp).note.ty = some t := by rw [note_restamp, ht]
  obtain ⟨S', run, settled⟩ : ∃ S', p.finish implicit S =
      ((p.restamp S.unifier.store.stamp, .ok t), S') ∧ S.Settled S' := by
    refine finished_of_allKnown ac (Node.swept S.unifier (.pred p)) settles nodes decls fun S₁ => ?_
    rw [slot]
    rfl
  exact ⟨t, S', run, settled, slot⟩

/-- Checking a predicate on its own once more changes nothing. -/
lemma Pred.rechecks_checkRoot {p : Pred} (blank : (Node.pred p).Blank) (inv : s.Inv known)
    (implicit : List Nat) :
    Rechecks (fun p => [.pred p]) (fun t t' => Ty.same t t' = true) (p.checkRoot implicit)
      (checkRoot implicit) s := by
  intro p₂ t s₂ run s' starts
  obtain ⟨p₁, u, S, walk, finish⟩ := CheckM.andThen_eq_ok.1 run
  have typed := p.sound known .empty s inv blank
  rw [Ensures, walk] at typed
  obtain ⟨settles, all, settled, rfl, slot⟩ := finish_eq_ok typed.walked.steps.inv finish
  have models := typed.walked.steps.inv.models_world .integers
  have reads := typed.walked.reads all settled _ (.head _)
  obtain ⟨κ, sound⟩ := starts.sound inv typed.walked.steps all.2 settled
  obtain ⟨d₁, _, rfl, runs, p', u', rfl, yields⟩ := sound.pred reads (Duo.tie_concrete rfl) walk
  have ab := (runs.later models).abreast
  have walk' := runs.run models
  have form : p'.erase = (p₁.restamp d₁.first.unifier.store.stamp).erase := by
    have walked := (Node.walked (.pred (p₁.restamp d₁.first.unifier.store.stamp)) .bool s').1
    rwa [walk'] at walked
  obtain ⟨all', agrees⟩ := Duo.agrees ab all models (.cons yields.level .nil)
    (congrArg (fun a => [Node.pred a]) form)
  obtain ⟨t', s₂', finish', settled', slot'⟩ :=
    finish_of_allKnown ab.unifier.proper'.wellFormed.acyclic (ab.settles settles) all'
  rw [← settled, ← settled'] at agrees
  exact ⟨_, t', s₂', CheckM.andThen_eq_ok.2 ⟨p', u', _, walk', finish'⟩, agrees.root.same slot slot',
    agrees⟩

/-- The check of a formula, after the identifiers that it declares have lost their types. -/
def Formula.checkRoot (implicit : List Nat) : Formula → CheckM (Visited Formula Ty)
  | .expr e => (e.checkRoot implicit).andThen .expr fun e t => CheckM.done (.expr e) t
  | .pred p => (p.checkRoot implicit).andThen .pred fun p t => CheckM.done (.pred p) t

/-- Checking a formula once more changes nothing. -/
lemma Formula.rechecks_checkRoot {f : Formula} (blank : f.root.Blank) (inv : s.Inv known)
    (implicit : List Nat) :
    Rechecks (fun f => [f.root]) (fun t t' => Ty.same t t' = true) (f.checkRoot implicit)
      (checkRoot implicit) s := by
  intro f₂ t s₂ run s' starts
  cases f with
  | expr e =>
    obtain ⟨e₂, _, _, run, ⟨⟩⟩ := CheckM.andThen_eq_ok.1 run
    obtain ⟨e', t', s₂', run', same⟩ := Expr.rechecks_checkRoot blank inv implicit _ _ _ run s' starts
    exact ⟨.expr e', t', s₂', CheckM.andThen_eq_ok.2 ⟨e', t', s₂', run', rfl⟩, same⟩
  | pred p =>
    obtain ⟨p₂, _, _, run, ⟨⟩⟩ := CheckM.andThen_eq_ok.1 run
    obtain ⟨p', t', s₂', run', same⟩ := Pred.rechecks_checkRoot blank inv implicit _ _ _ run s' starts
    exact ⟨.pred p', t', s₂', CheckM.andThen_eq_ok.2 ⟨p', t', s₂', run', rfl⟩, same⟩

/-! ## The start. -/

/-- A second check starts with the declarations that the first has left. -/
lemma starts_start {ds ds' : Declarations} (concrete : ds.Concrete) (clear : ds'.clear = ds.clear) :
    (start ds).Starts ds' (start ds') where
  unifier := rfl
  free v := Store.cell_of_size_le (Nat.zero_le v)
  links := rfl
  exist id := Declarations.isSome_get?_of_label? (Declarations.label?_of_clear clear id)
  types id := .inr ⟨concrete id, rfl⟩

/-- A declaration gets the same new variable in both states, if it exists. -/
lemma State.Starts.seed {ds : Declarations} (h : s.Starts ds s') (id : Nat) :
    (s.seed id).Starts ds (s'.seed id) where
  unifier := congrArg (fun u : Unifier => (u.allocate .free).2) h.unifier
  free v := by
    show (s.unifier.store.allocate .free).2.cell v = .free
    rw [Store.cell_allocate_free]
    exact h.free v
  links := h.links
  exist i := by
    show ((s'.decls.setTy id _).get? i).isSome = ((s.decls.setTy id _).get? i).isSome
    rw [isSome_get?_setTy, isSome_get?_setTy]
    exact h.exist i
  types i := by
    have vars : s'.vars = s.vars := congrArg (fun u : Unifier => u.store.cells.size) h.unifier
    show (∃ t, (s.decls.setTy id (some (.var s.vars))).ty? i = some t ∧
      (s'.decls.setTy id (some (.var s'.vars))).ty? i = some t) ∨
        (∀ t, (s.decls.setTy id (some (.var s.vars))).ty? i = some t → t.isConcrete = true) ∧
          (s'.decls.setTy id (some (.var s'.vars))).ty? i = ds.ty? i
    have other {ds : Declarations} {t : Ty} (no : ¬ ((ds.get? id).isSome = true ∧ id = i)) :
        (ds.setTy id (some t)).ty? i = ds.ty? i := by
      rw [Declarations.ty?, Declarations.get?_setTy, Declarations.ty?]
      split
      · rename_i e
        subst e
        cases hd : ds.get? id with
        | none => rfl
        | some d => exact absurd ⟨by rw [hd]; rfl, rfl⟩ no
      · rfl
    by_cases hid : (s.decls.get? id).isSome = true ∧ id = i
    · obtain ⟨exist, rfl⟩ := hid
      refine .inl ⟨.var s.vars, ?_, ?_⟩
      · rw [ty?_setTy exist, if_pos rfl]
      · rw [ty?_setTy ((h.exist id).trans exist), if_pos rfl, vars]
    · rw [other hid, other (by rwa [h.exist id])]
      exact h.types i

/-- Both checks of a formula give new variables to the identifiers that it declares. -/
lemma State.Starts.redeclare {ds : Declarations} (h : s.Starts ds s') (ids : List Nat) :
    (State.redeclare ids s).2.Starts ds (State.redeclare ids s').2 := by
  induction ids generalizing s s' with
  | nil => exact h
  | cons id ids ih => exact ih (h.seed id)

/-! ## Machines. -/

namespace Machine

variable {m x : Machine}

/-- The phases leave all trees of the machine walked through, if no types are taken over. -/
lemma checkPhases_sound (none : m.included = []) (blank : ∀ n ∈ m.roots, n.Blank)
    (labels : ∀ i, s.decls.label? i = m.decls.label? i) (inv : s.Inv known) :
    Ensures m.checkPhases s (fun m' _ s' => Walked known m.scope s m'.roots s') Proper := by
  simp only [roots, List.forall_mem_append, List.forall_mem_map] at blank
  obtain ⟨⟨⟨⟨⟨blankP, blankV⟩, blankI⟩, blankA⟩, blankInit⟩, blankO⟩ := blank
  refine ensures_andThen ((checkConstants_sound m.concrete_scope
    (fun p hp => blankP p (by simpa using hp)) blankV inv).mono ?_)
  rintro m₁ _ s₁ ⟨properties, values, rfl, walked₁⟩
  refine ensures_andThen ((checkVariables_sound m.scope (m := { m with properties, values })
    (fun i => (walked₁.steps.labels i).trans (labels i))
    (fun p hp => blankI p (by simpa using hp)) blankA walked₁.steps.inv).mono ?_)
  rintro m₂ _ s₄ ⟨invariant, assertions, s₂, s₃, rfl, steps, taken, walked₂⟩
  have steps := steps.trans (steps.inv.steps_retyped taken fun id => by simp [takesOver, none])
  refine (checkBehaviour_sound m.concrete_scope
    (m := { m with properties, values, invariant, assertions })
    (fun σ hσ => blankInit σ (by simpa using hσ)) blankO walked₂.steps.inv).mono ?_
  rintro m₃ _ s₅ ⟨initialisation, operations, rfl, walked₃⟩
  rw [roots_eq]
  exact (walked₁.trans steps).append (walked₂.append walked₃)

/-- Going through the phases of a machine once more, after its sets have got their types, changes
nothing. -/
lemma rechecks_checkPhases (none : m.included = []) (blank : ∀ n ∈ m.roots, n.Blank)
    (labels : ∀ i, s.decls.label? i = m.decls.label? i) (inv : s.Inv known) (ds : Declarations) :
    Rechecks roots Eq (m.checkPhases.andThen id fun m _ => m.conclude)
      (fun x => ({ x with decls := ds } : Machine).checkPhases.andThen id fun m _ => m.conclude) s := by
  rintro T ⟨⟩ s₂ run s' starts
  obtain ⟨M, _, S, walk, concluded⟩ := CheckM.andThen_eq_ok.1 run
  have walked : Walked known m.scope s M.roots S := by
    have sound := checkPhases_sound none blank labels inv
    rwa [Ensures, walk] at sound
  obtain ⟨nodes, decls, rfl, settled⟩ := conclude_ok (M.swept S.unifier) concluded
  have all : S.AllKnown M.roots := ⟨nodes, decls⟩
  have models := walked.steps.inv.models_world .integers
  obtain ⟨κ, sound⟩ := starts.sound inv walked.steps decls settled
  have visits : Duo.Visits (S.world .integers) known ⟨κ, s, s'⟩
      ({ M.restamp S.unifier.store.stamp with decls := ds } : Machine).checkPhases S fun d₁ x _ =>
        d₁.LevelAll (S.world .integers) M.roots x.roots :=
    repeats_checkPhases sound none (walked.reads all settled) walk
  obtain ⟨d₁, _, rfl, runs, x, _, rfl, level⟩ := visits
  have ab := (runs.later models).abreast
  have walk' := runs.run models
  have form : x.roots.map Node.erase =
      (M.roots.map (Node.restamp d₁.first.unifier.store.stamp)).map Node.erase := by
    have same := (preserves_checkPhases { M.restamp d₁.first.unifier.store.stamp with decls := ds } s').1
    rw [walk'] at same
    have same := congrArg roots same
    rw [← roots_restamp, ← roots_restamp, ← roots_restamp]
    exact same
  obtain ⟨all', agrees⟩ := Duo.agrees ab all models level form
  obtain ⟨s₂', concluded', settled'⟩ := conclude_of_allKnown ab.unifier.proper'.wellFormed.acyclic
    (x.swept d₁.second.unifier) all'.1 all'.2
  rw [← settled, ← settled', ← roots_restamp, ← roots_restamp] at agrees
  exact ⟨_, (), s₂', CheckM.andThen_eq_ok.2 ⟨x, (), _, walk', concluded'⟩, rfl, agrees⟩

/-- A loop whose rounds change nothing changes nothing. -/
lemma forM_eq_self {α : Type} {f : α → CheckM Unit} {as : List α} (h : ∀ a ∈ as, f a s = ((), s)) :
    as.forM f s = ((), s) := by
  induction as with
  | nil => rfl
  | cons a as ih =>
    rw [List.forall_mem_cons] at h
    show as.forM f (f a s).2 = ((), s)
    rw [h.1]
    exact ih h.2

/-- Sets that have types keep them. -/
lemma seedSets_of_filled (filled : ∀ id ∈ m.enumerated.map (·.set) ++ m.deferred, s.decls.Filled id) :
    m.seedSets s = ((), s) := by
  rw [List.forall_mem_append, List.forall_mem_map] at filled
  have enumerated : m.enumerated.forM (seedEnumerated m.name) s = ((), s) := by
    refine forM_eq_self fun set hs => ?_
    simp only [seedEnumerated, bind, StateT.bind, get, getThe, MonadStateOf.get, StateT.get, pure]
    cases hd : s.decls.get? set.set with
    | none => rfl
    | some d =>
      obtain ⟨t, ht⟩ := filled.1 set hs d hd
      obtain ⟨name, span, _ | u, qualifier⟩ := d
      · cases ht
      · rfl
  have deferred : m.deferred.forM (seedDeferred m.name) s = ((), s) := by
    refine forM_eq_self fun id hid => ?_
    simp only [seedDeferred, bind, StateT.bind, get, getThe, MonadStateOf.get, StateT.get, pure]
    cases hd : s.decls.get? id with
    | none => rfl
    | some d =>
      obtain ⟨t, ht⟩ := filled.2 id hid d hd
      obtain ⟨name, span, _ | u, qualifier⟩ := d
      · cases ht
      · rfl
  show m.deferred.forM (seedDeferred m.name) (m.enumerated.forM (seedEnumerated m.name) s).2 = _
  rw [enumerated]
  exact deferred

/-- A second check starts where the sets have got their types in the first, and have them in the
second. -/
lemma starts_seedSets {ds' : Declarations} (concrete : m.decls.Concrete)
    (clear : ds'.clear = m.decls.clear) :
    (m.seedSets (report (.begins m.name) (start m.decls)).2).2.Starts ds'
      (report (.begins x.name) (start ds')).2 := by
  have seeded := m.retyped_seedSets (report (.begins m.name) (start m.decls)).2
  have begin := starts_start concrete clear
  refine ⟨seeded.unifier.symm, ?_, ?_, fun id => ?_, fun id => .inr ⟨fun t ht => ?_, rfl⟩⟩
  · rw [seeded.unifier]
    exact begin.free
  · rw [seeded.unifier]
    exact begin.links
  · exact (begin.exist id).trans (Declarations.isSome_get?_of_label? (seeded.labels id)).symm
  · obtain known | ⟨i, ht⟩ := seeded.types id t ht
    · exact known
    · exact concrete i t ht

end Machine

/-! ## Checks. -/

/-- If the first check has succeeded, so has the second, with the same result; the trees that they have
left are the same but for their slots, and all slots and declarations have the same types. -/
def Checked.Stable {τ α : Type} (roots : τ → List Node) (same : α → α → Prop) (c again : Checked τ α) :
    Prop :=
  ∀ a, c.verdict = .ok a → ∃ a', again.verdict = .ok a' ∧ same a a' ∧
    Agrees c.decls (roots c.tree) again.decls (roots again.tree)

section

variable {τ α : Type} {target : Target} {ds : Declarations} {x : CheckM (Visited τ α)} {a : α}

/-- The run of a check that has succeeded. -/
lemma exists_run_of_ok (ok : (runCheck target ds x).verdict = .ok a) :
    ∃ s', x (start ds) = (((runCheck target ds x).tree, .ok a), s') ∧
      (runCheck target ds x).decls = s'.decls :=
  ⟨(x (start ds)).2, Prod.ext (Prod.ext rfl ok) rfl, rfl⟩

/-- A check has succeeded if its walk has. -/
lemma runCheck_of_run {n : τ} {s' : State} (run : x (start ds) = ((n, .ok a), s')) :
    (runCheck target ds x).verdict = .ok a ∧ (runCheck target ds x).tree = n ∧
      (runCheck target ds x).decls = s'.decls := by
  simp [runCheck, run]

/-- What a check on its own leaves is stable if its walk is. -/
lemma runCheck_stable {roots : τ → List Node} {same : α → α → Prop} {again : τ → CheckM (Visited τ α)}
    (concrete : ds.Concrete) (clear : (runCheck target ds x).decls.clear = ds.clear)
    (rechecks : Rechecks roots same x again (start ds)) :
    (runCheck target ds x).Stable roots same
      (runCheck target (runCheck target ds x).decls (again (runCheck target ds x).tree)) := by
  intro a ok
  obtain ⟨s₂, run, decls⟩ := exists_run_of_ok ok
  rw [decls] at clear ⊢
  obtain ⟨n', a', s₂', run', same, agrees⟩ := rechecks _ _ _ run _ (starts_start concrete clear)
  obtain ⟨ok', tree', decls'⟩ := runCheck_of_run run'
  exact ⟨a', ok', same, tree'.symm ▸ decls'.symm ▸ agrees⟩

end

/-- The check of a formula goes through its root after the declarations have lost their types. -/
lemma checkFormula_eq (ds : Declarations) (implicit : List Nat) (f : Formula) :
    checkFormula ds implicit f =
      runCheck .formula ds (redeclare implicit >>= fun _ => f.checkRoot implicit) := by
  cases f <;> rfl

/-- A walk after declarations have lost their types changes nothing when it is made once more, if it does
not from the states that it can start from. -/
lemma Walk.Rechecks.redeclare {τ α : Type} {roots : τ → List Node} {same : α → α → Prop}
    {x : CheckM (Visited τ α)} {again : τ → CheckM (Visited τ α)} {ids : List Nat}
    (h : Rechecks roots same x again (State.redeclare ids s).2) :
    Rechecks roots same (State.redeclare ids >>= fun _ => x)
      (fun n => State.redeclare ids >>= fun _ => again n) s :=
  fun n a s₂ run _ starts => h n a s₂ run _ (starts.redeclare ids)

namespace Machine

variable {m T : Machine}

/-- A machine whose walk has succeeded is left with the declarations as they have become. -/
lemma checkMachine_of_run (run : m.checkClauses (start m.decls) = ((T, .ok ()), s')) :
    (checkMachine m).verdict = .ok () ∧ (checkMachine m).tree = { T with decls := s'.decls } ∧
      (checkMachine m).decls = s'.decls := by
  simp [checkMachine, runCheck, run]

/-- The walk through a machine whose sets have their types goes through the phases. -/
lemma checkClauses_of_filled {a : Except (Halt TypeError) Unit}
    (filled : ∀ id ∈ m.enumerated.map (·.set) ++ m.deferred, s.decls.Filled id)
    (run : (m.checkPhases.andThen id fun m _ => m.conclude) (report (.begins m.name) s).2 = ((T, a), s')) :
    m.checkClauses s = ((T, a), s') := by
  rw [checkClauses_eq_phases]
  exact CheckM.bind_eq.2 ⟨_, _, rfl, CheckM.bind_eq.2 ⟨_, _, seedSets_of_filled filled, run⟩⟩

/-- A machine of which no variables are taken over is stable. -/
lemma stable_checkMachine (concrete : m.decls.Concrete) (none : m.included = [])
    (blank : ∀ n ∈ m.roots, n.Blank) :
    (checkMachine m).Stable roots Eq (checkMachine (checkMachine m).tree) := by
  rintro ⟨⟩ (ok : (runCheck (.machine m.name) m.decls m.checkClauses).verdict = .ok ())
  have filled := ((annotates_checkClauses (m := m)).complete (.machine m.name) ok).2.2
  obtain ⟨s₂, run, left⟩ := exists_run_of_ok ok
  generalize (runCheck (.machine m.name) m.decls m.checkClauses).tree = T at run
  rw [left] at filled
  obtain ⟨-, tree, decls⟩ := checkMachine_of_run run
  obtain ⟨form, clear⟩ := m.preserves_checkClauses (start m.decls)
  rw [run] at form clear
  have walk := run
  rw [checkClauses_eq_phases] at walk
  obtain ⟨_, _, ⟨⟩, walk⟩ := CheckM.bind_eq.1 walk
  obtain ⟨_, s₀, (seed : m.seedSets (report (.begins m.name) (start m.decls)).2 = _), walk⟩ :=
    CheckM.bind_eq.1 walk
  have seeded := m.retyped_seedSets (report (.begins m.name) (start m.decls)).2
  have starts := starts_seedSets (x := { T with decls := s₂.decls }) concrete clear
  rw [seed] at seeded starts
  have inv := (steps_report (.begins m.name) (.refl (inv_start concrete))).inv.retyped seeded
  obtain ⟨x, _, s₂', walk', -, agrees⟩ :=
    rechecks_checkPhases none blank seeded.labels inv s₂.decls _ _ _ walk _ starts
  have enumerated := congrArg Machine.enumerated form.form
  have deferred := congrArg Machine.deferred form.form
  have sets : ∀ id ∈ T.enumerated.map (·.set) ++ T.deferred, s₂.decls.Filled id := by
    intro id hid
    rw [show T.enumerated = m.enumerated from enumerated, show T.deferred = m.deferred from deferred] at hid
    refine filled id (.inl ?_)
    simp only [listed, Set.mem_ofPred_eq, List.mem_append] at hid ⊢
    tauto
  obtain ⟨ok', tree', decls'⟩ := checkMachine_of_run (checkClauses_of_filled sets walk')
  rw [tree, decls]
  exact ⟨(), ok', rfl, tree'.symm ▸ decls'.symm ▸ agrees⟩

end Machine

/-- Checking what has been checked changes nothing. If the slots of a tree are empty and the declarations
have concrete types or none, and the check succeeds, then so does the same check of the tree and the
declarations that it has left, with the same type. The tree that the second check leaves is that of the
first but for its slots, so that no operator is read anew, and every slot and every declaration has the
type that it had. For machines this holds if they take over no types of included variables. -/
theorem recheck_stable {ds : Declarations} (concrete : ds.Concrete) :
    (∀ e, (Node.expr e).Blank → (checkExpression ds e).Stable (fun e => [.expr e])
      (fun t t' => Ty.same t t' = true)
      (checkExpression (checkExpression ds e).decls (checkExpression ds e).tree)) ∧
    (∀ p, (Node.pred p).Blank → (checkPredicate ds p).Stable (fun p => [.pred p])
      (fun t t' => Ty.same t t' = true)
      (checkPredicate (checkPredicate ds p).decls (checkPredicate ds p).tree)) ∧
    (∀ implicit f, f.root.Blank → (checkFormula ds implicit f).Stable (fun f => [f.root])
      (fun t t' => Ty.same t t' = true)
      (checkFormula (checkFormula ds implicit f).decls implicit (checkFormula ds implicit f).tree)) ∧
    ∀ m : Machine, m.decls = ds → m.included = [] → (∀ n ∈ m.roots, n.Blank) →
      (checkMachine m).Stable Machine.roots Eq (checkMachine (checkMachine m).tree) := by
  refine ⟨fun e blank => ?_, fun p blank => ?_, fun implicit f blank => ?_,
    fun m decls none blank => ?_⟩
  · exact runCheck_stable concrete (runCheck_preserves (e.preserves_checkRoot []) .expression ds).2
      (Expr.rechecks_checkRoot blank (inv_start concrete) [])
  · exact runCheck_stable concrete (runCheck_preserves (p.preserves_checkRoot []) .predicate ds).2
      (Pred.rechecks_checkRoot blank (inv_start concrete) [])
  · have clear := (runCheck_preserves (preserves_bind (Step.spares_redeclare implicit) fun _ =>
      f.preserves_checkRoot implicit) .formula ds).2
    have inv := keeps_redeclare implicit _ (inv_start concrete)
    rw [checkFormula_eq, checkFormula_eq]
    refine runCheck_stable concrete ?_ (Formula.rechecks_checkRoot blank inv implicit).redeclare
    cases f <;> exact clear
  · exact Machine.stable_checkMachine (decls ▸ concrete) none blank

/-- In `z = x * (y - {1})` the first check reads the product and the difference on sets, and the second
keeps them. A machine with sets and an operation is left as it is, too. -/
theorem recheck_stable_sampleProduct :
    let c := checkPredicate .sample .sampleProduct
    let again := checkPredicate c.decls c.tree
    let m := checkMachine Machine.sampleStale.erase
    ((Node.pred c.tree).preorder.filterMap Node.operator? =
        [.cartesianProduct, .setSubtraction, .setEnumeration] ∧
      (∃ t t', c.verdict = .ok t ∧ again.verdict = .ok t' ∧ Ty.same t t' = true) ∧
      Agrees c.decls [.pred c.tree] again.decls [.pred again.tree]) ∧
    m.verdict = .ok () ∧ (checkMachine m.tree).verdict = .ok () ∧
      Agrees m.decls m.tree.roots (checkMachine m.tree).decls (checkMachine m.tree).tree.roots := by
  intro c again m
  have blank : (Node.pred .sampleProduct).Blank := by
    rw [Node.Blank]
    decide
  have empty : Machine.sampleStale.erase.decls.Concrete := by
    rintro (_ | _ | _ | _ | _ | _ | _ | id) t h <;>
      simp [Machine.sampleStale, Machine.restamp, Declarations.ty?, Declarations.get?, Declaration.named] at h
  have erased : ∀ n ∈ Machine.sampleStale.erase.roots, n.Blank := by
    simp only [Node.Blank]
    decide
  obtain ⟨t, ok⟩ : ∃ t, c.verdict = .ok t := Checked.isOk_iff.1 (by decide +kernel)
  obtain ⟨⟨⟩, okM⟩ : ∃ u, m.verdict = .ok u := Checked.isOk_iff.1 (by decide +kernel)
  obtain ⟨t', ok', same, agrees⟩ := (recheck_stable Declarations.concrete_sample).2.1 _ blank t ok
  obtain ⟨_, okM', -, agreesM⟩ := (recheck_stable empty).2.2.2 _ rfl rfl erased () okM
  exact ⟨⟨by decide +kernel, ⟨t, t', ok, ok', same⟩, agrees⟩, okM, okM', agreesM⟩

end BMethod
