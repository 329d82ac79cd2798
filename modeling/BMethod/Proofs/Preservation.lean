import BMethod.Proofs.Isolation
import BMethod.Proofs.Typing.Form
import BMethod.Proofs.Typing.Retyped

/-!
# What a check leaves as it was

Whatever its verdict, a check changes nothing of its input but types and the reading of operators. The
tree it leaves has the form of the tree it was given, and an operator has changed only from a
difference or a product to the set operator that the type now in its slot tells it to be; the
declarations are the same but for their types; and of a machine all other clauses are the same, other
machines included (`checks_preserve_input`).
-/

namespace BMethod

open State Walk

/-! ## Declarations. -/

/-- The computation changes no more of the declarations than their types. -/
def Step.Spares {α : Type} (x : CheckM α) : Prop := ∀ s, (x s).2.decls.clear = s.decls.clear

/-- Whatever its verdict, the walk leaves something of which `R` holds, and changes no more of the
declarations than their types. -/
def Walk.Preserves {ν α : Type} (R : ν → Prop) (x : CheckM (Visited ν α)) : Prop :=
  ∀ s, R (x s).1.1 ∧ (x s).2.decls.clear = s.decls.clear

section

variable {ν π α β : Type} {R : ν → Prop} {P : π → Prop}

namespace Step

lemma spares_pure (a : α) : Spares (Pure.pure a : CheckM α) := fun _ => rfl

lemma Spares.bind {x : CheckM α} {f : α → CheckM β} (h : Spares x) (rest : ∀ a, Spares (f a)) :
    Spares (x >>= f) := fun s => (rest (x s).1 (x s).2).trans (h s)

/-- A computation that moves states spares declarations. -/
lemma spares_of_runs {x : CheckM α} {Q : α → State → Prop}
    (h : ∀ s, Runs False (fun _ => True) x s Q) : Spares x := fun s => (h s orderly_false).1.clear

lemma spares_get : Spares (get : CheckM State) := fun _ => rfl

lemma spares_fresh : Spares fresh := spares_of_runs fun _ => Runs.fresh

lemma spares_report (e : Event) : Spares (report e) := spares_of_runs fun _ => Runs.report e

lemma spares_declare (ids : List Nat) : Spares (declare ids) :=
  spares_of_runs fun _ => (frame False _).declare fun _ _ => trivial

lemma spares_resolve (t : Ty) : Spares (resolve t) := spares_of_runs fun _ => Tries.resolve t

lemma spares_redeclare (ids : List Nat) : Spares (redeclare ids) := by
  induction ids with
  | nil => exact spares_pure ()
  | cons id ids ih =>
    exact spares_fresh.bind fun t => Spares.bind (fun s => Declarations.clear_setTy _ _ _) fun _ => ih

lemma spares_requireConcrete (what : Subject) (ids : List Nat) :
    Spares (requireConcrete what ids) := by
  intro s
  obtain run | run | ⟨_, -, _, _, _, -, -, -, -, run⟩ := requireConcrete_cases what ids s <;> rw [run]

/-- Settling declarations changes their types alone, and none after the first that is not known. -/
lemma map_clear_settleDeclarations (s : Store) (ds : List Declaration) :
    (settleDeclarations s ds).1.map (fun d => { d with ty := none }) =
      ds.map fun d => { d with ty := none } := by
  induction ds with
  | nil => rfl
  | cons d ds ih =>
    obtain ⟨name, span, _ | t, qualifier⟩ := d
    · exact congrArg (_ :: ·) ih
    · simp only [settleDeclarations]
      split
      · rfl
      · split
        · exact congrArg (_ :: ·) ih
        · rfl

lemma spares_settleAllDeclarations : Spares settleAllDeclarations := by
  intro s
  have same := map_clear_settleDeclarations s.unifier.store s.decls.all.toList
  have clear (ds : List Declaration) : Declarations.clear ⟨ds.toArray⟩ =
      ⟨(ds.map fun d => { d with ty := none }).toArray⟩ := by
    simp [Declarations.clear]
  show Declarations.clear ⟨(settleDeclarations s.unifier.store s.decls.all.toList).1.toArray⟩ = _
  rw [clear, same, ← clear, Array.toArray_toList]

end Step

namespace Walk

lemma preserves_done {n : ν} {a : α} (h : R n) : Preserves R (CheckM.done n a) := fun _ => ⟨h, rfl⟩

lemma preserves_fail {n : ν} {e : TypeError} (h : R n) :
    Preserves R (CheckM.fail n e : CheckM (Visited ν α)) := fun _ => ⟨h, rfl⟩

lemma preserves_bind {x : CheckM α} {f : α → CheckM (Visited ν β)} (h : Step.Spares x)
    (rest : ∀ a, Preserves R (f a)) : Preserves R (x >>= f) := fun s =>
  ⟨(rest (x s).1 (x s).2).1, (rest (x s).1 (x s).2).2.trans (h s)⟩

lemma Preserves.mono {x : CheckM (Visited ν α)} {Q : ν → Prop} (h : Preserves R x)
    (imp : ∀ n, R n → Q n) : Preserves Q x := fun s => ⟨imp _ (h s).1, (h s).2⟩

/-- A walk through a part and then on with the whole. -/
lemma Preserves.andThen {part : CheckM (Visited π α)} {whole : π → ν}
    {next : π → α → CheckM (Visited ν β)} (h : Preserves P part) (back : ∀ p, P p → R (whole p))
    (rest : ∀ p a, P p → Preserves R (next p a)) : Preserves R (part.andThen whole next) := by
  intro s
  have first := h s
  rw [CheckM.run_andThen]
  revert first
  obtain ⟨⟨p, _ | a⟩, s'⟩ := part s
  · exact fun ⟨hp, clear⟩ => ⟨back p hp, clear⟩
  · exact fun ⟨hp, clear⟩ => ⟨(rest p a hp s').1, (rest p a hp s').2.trans clear⟩

/-- A step and then on with the walk. -/
lemma preserves_orFail {step : CheckM (Verdict α)} {n : ν} {next : α → CheckM (Visited ν β)}
    (hs : Step.Spares step) (h : R n) (rest : ∀ a, Preserves R (next a)) :
    Preserves R (step.orFail n next) := by
  intro s
  have first := hs s
  rw [CheckM.run_orFail]
  revert first
  obtain ⟨_ | a, s'⟩ := step s
  · exact fun clear => ⟨h, clear⟩
  · exact fun clear => ⟨(rest a s').1, (rest a s').2.trans clear⟩

/-- A walk that keeps the form of a tree and moves states. -/
lemma Yields.preserves {x : CheckM (Visited ν α)} {Q : α → State → Prop} (h : Yields R x)
    (moves : ∀ s, Visits False (fun _ => True) x s Q) : Preserves R x := fun s =>
  ⟨(h s).1, (moves s orderly_false).1.clear⟩

end Walk

/-! ## The conclusion. -/

/-- Whatever its verdict, the conclusion leaves the tree or what the sweep has made of it. -/
lemma Walk.preserves_conclude {τ : Type} {R : τ → Prop} {tree : τ} {sweep : τ → SweepM τ}
    {clean : Unifier → Prop} {stamped : Unifier → τ}
    (h : ∀ u, Sweeps u (sweep tree) (clean u) (stamped u)) (tree_ok : R tree)
    (gives : Sweep.Gives R (sweep tree)) : Preserves R (conclude tree sweep) := by
  intro s
  cases run : sweep tree ⟨s, none, none⟩ with
  | none =>
    rw [conclude_of_none run]
    exact ⟨tree_ok, rfl⟩
  | some r =>
    obtain ⟨t, w⟩ := r
    have decls : w.state.decls = s.decls := ((h s.unifier).frame _ _ _ run).1
    have swept : R t := gives _ _ _ run
    cases undecided : w.undecided with
    | some e =>
      rw [conclude_of_undecided run undecided]
      exact ⟨swept, congrArg _ decls⟩
    | none =>
      have rest : Preserves R (settleAllDeclarations.orFail t fun _ =>
          w.untyped.elim (CheckM.done t ()) (CheckM.fail t)) := by
        refine preserves_orFail Step.spares_settleAllDeclarations swept fun _ => ?_
        cases w.untyped with
        | none => exact preserves_done swept
        | some e => exact preserves_fail swept
      rw [conclude_of_decided run undecided]
      exact ⟨(rest w.state).1, (rest w.state).2.trans (congrArg _ decls)⟩

end

/-! ## Formulas. -/

section

variable (implicit : List Nat)

lemma Expr.preserves_check (e : Expr) (t : Ty) :
    Preserves (fun e' => e'.erase = e.erase) (e.check t) :=
  (Node.walked (.expr e) t).preserves fun s => e.visit False s t fun h => h.elim

lemma Pred.preserves_check (p : Pred) (t : Ty) :
    Preserves (fun p' => p'.erase = p.erase) (p.check t) :=
  (Node.walked (.pred p) t).preserves fun s => p.visit False s t fun h => h.elim

lemma Expr.preserves_finish (e : Expr) :
    Preserves (fun e' => (Node.expr e).Retyped (.expr e')) (e.finish implicit) := by
  have concluded : Preserves (fun e' => (Node.expr e).Retyped (.expr e')) e.conclude :=
    preserves_conclude (fun u => Node.swept u (.expr e)) (.refl _) (Node.resettled (.expr e))
  refine preserves_orFail (Step.spares_requireConcrete _ _) (.refl _) fun _ => ?_
  refine concluded.andThen (fun _ h => h) fun e' _ h => ?_
  cases e'.note.ty with
  | none => exact preserves_fail h
  | some t => exact preserves_done h

lemma Pred.preserves_finish (p : Pred) :
    Preserves (fun p' => (Node.pred p).Retyped (.pred p')) (p.finish implicit) := by
  have concluded : Preserves (fun p' => (Node.pred p).Retyped (.pred p')) p.conclude :=
    preserves_conclude (fun u => Node.swept u (.pred p)) (.refl _) (Node.resettled (.pred p))
  refine preserves_orFail (Step.spares_requireConcrete _ _) (.refl _) fun _ => ?_
  refine concluded.andThen (fun _ h => h) fun p' _ h => ?_
  cases p'.note.ty with
  | none => exact preserves_fail h
  | some t => exact preserves_done h

/-- The check of an expression on its own. -/
lemma Expr.preserves_checkRoot (e : Expr) :
    Preserves (fun e' => (Node.expr e).Retyped (.expr e')) (e.checkRoot implicit) := by
  refine preserves_bind Step.spares_fresh fun t => (e.preserves_check t).andThen
    (fun e' same => Node.retyped_of_erase (congrArg Node.expr same)) fun e' t same => ?_
  have retyped : (Node.expr e).Retyped (.expr e') :=
    Node.retyped_of_erase (congrArg Node.expr same)
  refine preserves_bind Step.spares_get fun s => ?_
  split
  · exact fun _ => ⟨retyped, rfl⟩
  · exact preserves_orFail (Step.spares_resolve _) retyped fun _ => preserves_fail retyped
  · exact (e'.preserves_finish implicit).mono fun _ h => h.after (congrArg Node.expr same)

/-- The check of a predicate on its own. -/
lemma Pred.preserves_checkRoot (p : Pred) :
    Preserves (fun p' => (Node.pred p).Retyped (.pred p')) (p.checkRoot implicit) :=
  (p.preserves_check .bool).andThen (fun _ same => Node.retyped_of_erase (congrArg Node.pred same))
    fun p' _ same => (p'.preserves_finish implicit).mono fun _ h => h.after (congrArg Node.pred same)

/-- The check of a formula, after the identifiers that it declares have lost their types. -/
lemma Formula.preserves_checkRoot (f : Formula) :
    Preserves (fun f' : Formula => f.root.Retyped f'.root) (match f with
      | .expr e => (e.checkRoot implicit).andThen .expr fun e t => CheckM.done (.expr e) t
      | .pred p => (p.checkRoot implicit).andThen .pred fun p t => CheckM.done (.pred p) t) := by
  cases f with
  | expr e => exact (e.preserves_checkRoot implicit).andThen (fun _ h => h) fun _ _ h => preserves_done h
  | pred p => exact (p.preserves_checkRoot implicit).andThen (fun _ h => h) fun _ _ h => preserves_done h

end

/-- Temporal formulas have no slots but those of their predicates. -/
lemma Ltl.spares_check (f : Ltl) : Step.Spares f.check := by
  have walk {g : Ltl} (h : Preserves (fun _ => True) g.check) : Step.Spares g.check := fun s => (h s).2
  have all (g : Ltl) : Preserves (fun _ => True) g.check := by
    induction g with
    | unary op arg ih =>
      exact ih.andThen (fun _ _ => trivial) fun _ _ _ => preserves_done trivial
    | binary op left right ihl ihr =>
      exact ihl.andThen (fun _ _ => trivial) fun _ _ _ => ihr.andThen (fun _ _ => trivial)
        fun _ _ _ => preserves_done trivial
    | keyword op => exact fun s => ⟨trivial, rfl⟩
    | pred p =>
      exact (p.preserves_check .bool).andThen (fun _ _ => trivial) fun _ _ _ => preserves_done trivial
  exact walk (all f)

/-- The check of a temporal formula. -/
lemma Ltl.preserves_check (f : Ltl) : Preserves (fun f' => (Node.ltl f).Retyped (.ltl f'))
    (f.check.andThen id fun f _ => f.conclude) := by
  have walked : Preserves (fun f' => f'.erase = f.erase) f.check :=
    fun s => ⟨(Node.walked (.ltl f) s).1, f.spares_check s⟩
  refine walked.andThen (fun _ same => Node.retyped_of_erase (congrArg Node.ltl same))
    fun f' _ same => ?_
  have concluded : Preserves (fun f'' => (Node.ltl f').Retyped (.ltl f'')) f'.conclude :=
    preserves_conclude (fun u => Node.swept u (.ltl f')) (.refl _) (Node.resettled (.ltl f'))
  exact concluded.mono fun _ h => h.after (congrArg Node.ltl same)

/-! ## Machines. -/

namespace Machine

variable {m m' : Machine} {scope : Scope}

/-- The second machine is the first but for slots and declarations, and for operators that are read on
sets. -/
structure Retyped (m m' : Machine) : Prop where
  form : m'.restamp .bare = { m.restamp .bare with decls := m'.decls }
  roots : List.Forall₂ Node.Retyped m.roots m'.roots

/-- The machine with empty slots. -/
abbrev erase (m : Machine) : Machine := m.restamp .blank

lemma Retyped.after {a : Machine} (h : a.Retyped m') (same : a.erase = m.erase) : m.Retyped m' := by
  have roots : a.roots.map Node.erase = m.roots.map Node.erase := by
    rw [← roots_restamp, ← roots_restamp]
    exact congrArg Machine.roots same
  have bare (n : Machine) : n.erase.restamp .bare = n.restamp .bare := by
    have pred (p : Pred) : (p.restamp .blank).restamp .bare = p.restamp .bare :=
      Node.pred.inj (Node.restamp_restamp (fun _ => rfl) (fun _ _ => rfl) (.pred p))
    have substitution (σ : Substitution) : (σ.restamp .blank).restamp .bare = σ.restamp .bare :=
      Node.substitution.inj (Node.restamp_restamp (fun _ => rfl) (fun _ _ => rfl) (.substitution σ))
    simp [erase, restamp, Function.comp_def, pred, substitution]
  refine ⟨?_, Node.forall₂_retyped_after h.roots roots⟩
  rw [h.form, ← bare a, same, bare m]

lemma Retyped.refl (m : Machine) : m.Retyped m :=
  ⟨rfl, List.forall₂_same.2 fun n _ => .refl n⟩

lemma spares_seedSets : Step.Spares m.seedSets := fun s => (m.retyped_seedSets s).clear

lemma spares_takeTypes : Step.Spares m.takeTypes := fun s =>
  (retyped_takeTypes (m := { m with decls := s.decls }) fun _ => rfl).clear

lemma yields_optional (p : Option Pred) : Yields (fun p' => p'.map Pred.erase = p.map Pred.erase)
    (CheckM.optional (fun p => CheckM.ignore (p.check .bool)) p) := by
  cases p with
  | none => exact yields_done rfl
  | some p =>
    have part : Yields (fun p' => p'.erase = p.erase) (CheckM.ignore (p.check .bool)) :=
      Yields.andThen (Node.walked (.pred p) .bool) (fun _ h => h) fun _ _ h => yields_done h
    exact part.andThen (fun p' h => by simp [h]) fun p' _ h => yields_done (by simp [h])

lemma preserves_substitutions (concrete : scope.Concrete) (σs : List Substitution) :
    Preserves (fun σs' => Substitution.eraseAll σs' = Substitution.eraseAll σs)
      (Substitution.checkAll scope σs) :=
  (Substitution.yields_checkAll fun σ _ => Node.walked (.substitution σ)).preserves fun s =>
    Substitution.visits_checkAll (fun σ _ => σ.visit concrete) s

lemma preserves_checkConstants (concrete : scope.Concrete) :
    Preserves (fun m' => m'.erase = m.erase) (m.checkConstants scope) := by
  refine preserves_bind (Step.spares_report _) fun _ => preserves_bind (Step.spares_declare _) fun _ => ?_
  refine ((yields_optional m.properties).preserves fun _ => visits_optional _).andThen (fun p hp => by simp [restamp, hp]) fun p _ hp => ?_
  refine preserves_orFail (Step.spares_requireConcrete _ _) (by simp [restamp, hp]) fun _ => ?_
  exact (preserves_substitutions concrete m.values).andThen (fun v hv => by simp [restamp, hp, hv])
    fun v _ hv => preserves_done (by simp [restamp, hp, hv])

lemma preserves_checkVariables : Preserves (fun m' => m'.erase = m.erase) m.checkVariables := by
  refine preserves_bind (Step.spares_report _) fun _ => preserves_bind (Step.spares_declare _) fun _ => ?_
  refine preserves_bind (Step.spares_declare _) fun _ => preserves_bind spares_takeTypes fun _ => ?_
  refine preserves_orFail (Step.spares_requireConcrete _ _) rfl fun _ => ?_
  refine ((yields_optional m.invariant).preserves fun _ => visits_optional _).andThen (fun p hp => by simp [restamp, hp]) fun p _ hp => ?_
  have assertions : Preserves (fun ps => Pred.eraseAll ps = Pred.eraseAll m.assertions)
      (Pred.checkAll m.assertions) :=
    (Pred.yields_checkAll fun p _ => Node.walked (.pred p)).preserves fun s =>
      Pred.visits_checkAll (fun p _ => p.visit False) s
  refine assertions.andThen (fun a ha => by simp [restamp, hp, ha]) fun a _ ha => ?_
  exact preserves_orFail (Step.spares_requireConcrete _ _) (by simp [restamp, hp, ha]) fun _ =>
    preserves_done (by simp [restamp, hp, ha])

/-- Operations with empty slots. -/
abbrev eraseBodies (os : List Operation) : List Operation :=
  os.map fun o => { o with body := o.body.erase }

lemma yields_checkOperations (os : List Operation) :
    Yields (fun os' => eraseBodies os' = eraseBodies os) (checkOperations scope os) := by
  induction os with
  | nil => exact yields_done rfl
  | cons o os ih =>
    rw [checkOperations]
    refine yields_bind fun _ => yields_bind fun _ => ?_
    refine Yields.andThen (Node.walked (.substitution o.body) scope) (fun b hb => by simp [hb])
      fun b _ hb => ?_
    exact ih.andThen (fun os' h => by simp [hb, h]) fun os' _ h => yields_done (by simp [hb, h])

lemma yields_checkBehaviour :
    Yields (fun m' => m'.erase = m.erase) (m.checkBehaviour scope) := by
  refine yields_bind fun _ => ?_
  refine (Substitution.yields_checkOption fun σ _ => Node.walked (.substitution σ)).andThen
    (fun i hi => by simp [restamp, hi]) fun i _ hi => ?_
  exact (yields_checkOperations m.operations).andThen (fun os h => by simp [restamp, hi, h])
    fun os _ h => yields_done (by simp [restamp, hi, h])

/-! The sweep through a machine. -/

lemma gives_mapM {α : Type} {R : α → α → Prop} {f : α → SweepM α} (h : ∀ a, Sweep.Gives (R a) (f a))
    (as : List α) : Sweep.Gives (List.Forall₂ R as) (as.mapM f) := by
  induction as with
  | nil => exact Sweep.gives_pure .nil
  | cons a as ih =>
    rw [List.mapM_cons]
    exact Sweep.gives_cons (h a) ih

lemma gives_option {α : Type} {R : α → α → Prop} {f : α → SweepM α}
    (h : ∀ a, Sweep.Gives (R a) (f a)) (o : Option α) :
    Sweep.Gives (fun o' => List.Forall₂ R o.toList o'.toList) (o.mapM f) := by
  cases o with
  | none => exact Sweep.gives_pure .nil
  | some a => exact (h a).bind fun b hb => Sweep.gives_pure (.cons hb .nil)

/-- Operations of which the bodies alone have been swept. -/
def SweptOperation (o o' : Operation) : Prop :=
  o' = { o with body := o'.body } ∧ (Node.substitution o.body).Retyped (.substitution o'.body)

lemma gives_operation (o : Operation) : Sweep.Gives (SweptOperation o)
    (do return { o with body := ← o.body.rewriteM Sweep.expr Sweep.pred }) :=
  Sweep.Gives.bind (Node.resettled (.substitution o.body)) fun _ h => Sweep.gives_pure ⟨rfl, h⟩

lemma gives_rewriteM (m : Machine) :
    Sweep.Gives m.Retyped (m.rewriteM Sweep.expr Sweep.pred) := by
  refine (gives_option (fun p => Node.resettled (.pred p)) m.properties).bind fun ps hp => ?_
  refine (Substitution.gives_rewriteAllM fun σ _ => Node.resettled (.substitution σ)).bind
    fun vs hv => ?_
  refine (gives_option (fun p => Node.resettled (.pred p)) m.invariant).bind fun is hi => ?_
  refine (Pred.gives_rewriteAllM fun p _ => Node.resettled (.pred p)).bind fun as ha => ?_
  refine (gives_option (fun σ => Node.resettled (.substitution σ)) m.initialisation).bind
    fun ns hn => ?_
  refine (gives_mapM gives_operation m.operations).bind fun os ho => Sweep.gives_pure ⟨?_, ?_⟩
  · have option {α : Type} {R : α → α → Prop} {g : α → α} {o o' : Option α}
        (h : List.Forall₂ R o.toList o'.toList) (imp : ∀ {a b}, R a b → g b = g a) :
        o'.map g = o.map g := by
      simpa using congrArg List.head? (Node.map_eq_of_forall₂ h imp)
    have body {o o' : Operation} (h : SweptOperation o o') :
        { o' with body := o'.body.restamp .bare } = { o with body := o.body.restamp .bare } := by
      rw [h.1, h.2.substitution]
    simp only [restamp]
    rw [option hp Node.Retyped.pred, Node.map_eq_of_forall₂ hv Node.Retyped.substitution,
      option hi Node.Retyped.pred, Node.map_eq_of_forall₂ ha Node.Retyped.pred,
      option hn Node.Retyped.substitution, Node.map_eq_of_forall₂ ho body]
  · have bodies : List.Forall₂ Node.Retyped (m.operations.map fun o => .substitution o.body)
        (os.map fun o => .substitution o.body) := Node.forall₂_map (ho.imp fun _ _ h => h.2)
    exact List.rel_append (List.rel_append (List.rel_append (List.rel_append (List.rel_append
      (Node.forall₂_map hp) (Node.forall₂_map hv)) (Node.forall₂_map hi)) (Node.forall₂_map ha))
        (Node.forall₂_map hn)) bodies

/-- The check of a machine. -/
lemma preserves_checkClauses (m : Machine) : Preserves m.Retyped m.checkClauses := by
  have retyped {m' : Machine} (same : m'.erase = m.erase) : m.Retyped m' := (Retyped.refl m').after same
  refine preserves_bind (Step.spares_report _) fun _ => preserves_bind spares_seedSets fun _ => ?_
  refine (preserves_checkConstants m.concrete_scope).andThen (fun _ => retyped) fun m₁ _ same₁ => ?_
  refine preserves_checkVariables.andThen (fun _ same => retyped (same.trans same₁)) fun m₂ _ same₂ => ?_
  refine (yields_checkBehaviour.preserves fun _ => visits_checkBehaviour m₂.concrete_scope).andThen
    (fun _ same => retyped (same.trans (same₂.trans same₁))) fun m₃ _ same₃ => ?_
  have concluded : Preserves m₃.Retyped m₃.conclude :=
    preserves_conclude (fun u => swept u m₃) (.refl _) (gives_rewriteM m₃)
  exact concluded.mono fun _ h => h.after (same₃.trans (same₂.trans same₁))

end Machine

/-! ## Checks. -/

lemma runCheck_preserves {τ α : Type} {R : τ → Prop} {x : CheckM (Visited τ α)} (h : Preserves R x)
    (target : Target) (ds : Declarations) :
    R (runCheck target ds x).tree ∧ (runCheck target ds x).decls.clear = ds.clear := h (start ds)

/-- Checking only fills slots and settles how operators are read, whatever the input and whatever the
verdict. The declarations are those of the input but for their types; the tree has the form of the
input and its operators but where a difference or a product stands over a concrete type of sets and is
read on sets; and a machine keeps everything but the slots of its trees, those operators and the types
of its declarations. -/
theorem checks_preserve_input :
    (∀ ds e, (Node.expr e).Retyped (.expr (checkExpression ds e).tree) ∧
      (checkExpression ds e).decls.clear = ds.clear) ∧
    (∀ ds p, (Node.pred p).Retyped (.pred (checkPredicate ds p).tree) ∧
      (checkPredicate ds p).decls.clear = ds.clear) ∧
    (∀ ds implicit f, f.root.Retyped (checkFormula ds implicit f).tree.root ∧
      (checkFormula ds implicit f).decls.clear = ds.clear) ∧
    (∀ ds implicit f, (Node.ltl f).Retyped (.ltl (checkLtl ds implicit f).tree) ∧
      (checkLtl ds implicit f).decls.clear = ds.clear) ∧
    ∀ m, m.Retyped (checkMachine m).tree ∧ (checkMachine m).tree.decls.clear = m.decls.clear := by
  refine ⟨fun ds e => ?_, fun ds p => ?_, fun ds implicit f => ?_, fun ds implicit f => ?_,
    fun m => ?_⟩
  · exact runCheck_preserves (e.preserves_checkRoot []) .expression ds
  · exact runCheck_preserves (p.preserves_checkRoot []) .predicate ds
  · exact runCheck_preserves (preserves_bind (Step.spares_redeclare implicit) fun _ =>
      f.preserves_checkRoot implicit) .formula ds
  · exact runCheck_preserves (preserves_bind (Step.spares_redeclare implicit) fun _ =>
      f.preserves_check) .ltlFormula ds
  · obtain ⟨⟨form, roots⟩, clear⟩ :=
      runCheck_preserves m.preserves_checkClauses (.machine m.name) m.decls
    exact ⟨⟨congrArg (fun n : Machine => { n with decls := (checkMachine m).decls }) form, roots⟩,
      clear⟩

end BMethod
