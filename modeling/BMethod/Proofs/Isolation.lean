import BMethod.Proofs.Annotation
import BMethod.Proofs.Typing.Frame

/-!
# Phases of the check of a machine

The constants and variables of a machine, and the variables that it takes over, get their types from
the clauses before the initialisation and the operations. At the end of its phase the type of each is
known completely, and what is known completely stays as it is whatever is unified later. So the
initialisation and the bodies of operations have no part in these types.
-/

namespace BMethod

open State

/-! ## Substitutions. -/

section

variable {own : Prop} {scope : Scope} {s : State}

lemma Runs.typesOrFresh {P : Nat → Prop} {os : List (Option Ty)}
    (concrete : ∀ t, some t ∈ os → t.isConcrete = true) :
    Runs own P (typesOrFresh os) s fun ts s' => ∀ t ∈ ts, t.Owned own s' := by
  induction os generalizing s with
  | nil => exact .pure fun _ ht => by cases ht
  | cons o os ih =>
    have rest (t : Ty) (h : some t ∈ os) : t.isConcrete = true := concrete t (by simp [h])
    cases o with
    | none =>
      refine .bind Runs.fresh fun t s₁ _ ht => .bind (ih rest) fun ts s₂ m hts => .pure ?_
      exact List.forall_mem_cons.2 ⟨ht.mono m, hts⟩
    | some t =>
      have ht (s : State) : t.Owned own s :=
        Ty.owned_of_vars_eq_nil (Ty.vars_of_isConcrete (concrete t (by simp)))
      exact .bind (ih rest) fun ts s₁ _ hts => .pure (List.forall_mem_cons.2 ⟨ht s₁, hts⟩)

/-- The types of the parameters and outputs of an operation are over the variables there are. -/
lemma Runs.types? (concrete : scope.Concrete) (callee : Callee) :
    Runs own (fun _ => True) (scope.types? callee) s fun o s' => ∀ x ∈ o,
      (∀ t ∈ x.1, t.Owned own s') ∧ ∀ t ∈ x.2, t.Owned own s' := by
  cases callee with
  | own operation =>
    rw [Scope.types?]
    split
    · exact .pure fun _ h => by cases h
    · refine .bind ((frame own _).declaredTypes fun _ _ => trivial) fun ps s₁ _ hps =>
        .bind ((frame own _).declaredTypes fun _ _ => trivial) fun os s₂ m hos => .pure ?_
      rintro x ⟨⟩
      exact ⟨Ty.Owned.all_mono hps m, hos⟩
  | referred reference operation =>
    rw [Scope.types?]
    split
    · exact .pure fun _ h => by cases h
    · rename_i i found
      have concrete : ∀ t, some t ∈ i.params ++ i.outputs → t.isConcrete = true := by
        obtain ⟨is, his, hi⟩ := Option.bind_eq_some_iff.1 found
        exact concrete is (List.mem_of_getElem? his) i (List.mem_of_getElem? hi)
      refine .bind (Runs.typesOrFresh fun t h => concrete t (List.mem_append_left _ h)) fun ps s₁ _ hps =>
        .bind (Runs.typesOrFresh fun t h => concrete t (List.mem_append_right _ h)) fun os s₂ m hos =>
          .pure ?_
      rintro x ⟨⟩
      exact ⟨Ty.Owned.all_mono hps m, hos⟩

/-- Walking through any expression or predicate moves orderly states. -/
lemma Expr.visit (own : Prop) (e : Expr) : (Node.expr e).Visit own fun _ => True :=
  Node.visits own fun _ _ => trivial

lemma Pred.visit (own : Prop) (p : Pred) : (Node.pred p).Visit own fun _ => True :=
  Node.visits own fun _ _ => trivial

lemma Visits.pred (p : Pred) : Visits own (fun _ => True) (p.check .bool) s (Ty.Owned own) :=
  p.visit own s .bool (Ty.owned_of_vars_eq_nil rfl)

lemma visits_checkAssigned (targets values : List Expr) :
    Visits own (fun _ => True) (checkAssigned targets values) s fun _ _ => True := by
  induction targets generalizing values s with
  | nil => exact .done trivial
  | cons target targets ih =>
    cases values with
    | nil => exact .done trivial
    | cons value values =>
      rw [checkAssigned]
      refine .bind Runs.fresh fun t s₁ _ ht => .andThen (target.visit own s₁ t ht) fun _ u s₂ _ hu => ?_
      exact .andThen (value.visit own s₂ u hu) fun _ _ s₃ _ _ =>
        .andThen (ih values) fun _ _ _ _ _ => .done trivial

lemma visits_checkCalled (concrete : scope.Concrete) (span : Option Span) (name : String)
    (callee : Callee) (args assigned : List Expr) :
    Visits own (fun _ => True) (checkCalled scope span name callee args assigned) s
      fun _ _ => True := by
  refine .bind (Runs.types? concrete callee) fun types s₁ _ owned => ?_
  cases types with
  | none => exact Visits.fail
  | some types =>
    obtain ⟨params, outputs⟩ := types
    obtain ⟨hp, ho⟩ := owned _ rfl
    simp only
    split
    · exact Visits.fail
    · split
      · exact Visits.fail
      · exact .andThen (Expr.visits_checkForward (fun e _ => e.visit own) s₁ params hp)
          fun _ _ s₂ m _ => .andThen (Expr.visits_checkForward (fun e _ => e.visit own) s₂ outputs
            (Ty.Owned.all_mono ho m)) fun _ _ _ _ _ => .done trivial

namespace Substitution

/-- Walking through the substitution moves orderly states. -/
def Visit (own : Prop) (scope : Scope) (σ : Substitution) : Prop :=
  ∀ s, Visits own (fun _ => True) (σ.check scope) s fun _ _ => True

lemma visits_checkAll {σs : List Substitution} (h : ∀ σ ∈ σs, σ.Visit own scope) (s : State) :
    Visits own (fun _ => True) (checkAll scope σs) s fun _ _ => True := by
  induction σs generalizing s with
  | nil => exact .done trivial
  | cons σ σs ih =>
    rw [List.forall_mem_cons] at h
    rw [checkAll]
    exact .andThen (h.1 s) fun _ _ s' _ _ => .andThen (ih h.2 s') fun _ _ _ _ _ => .done trivial

lemma visits_checkOption {o : Option Substitution} (h : ∀ σ ∈ o, σ.Visit own scope) (s : State) :
    Visits own (fun _ => True) (checkOption scope o) s fun _ _ => True := by
  cases o with
  | none => exact .done trivial
  | some σ => exact .andThen (h σ rfl s) fun _ _ _ _ _ => .done trivial

/-- A substitution does what looking up declarations and walking through its parts do. -/
lemma visit_of_children (concrete : scope.Concrete) {σ : Substitution}
    (ih : ∀ τ, .substitution τ ∈ σ.children → τ.Visit own scope) : σ.Visit own scope := by
  intro s
  have declare (ids : List Nat) (s : State) :
      Runs own (fun _ => True) (State.declare ids) s fun _ _ => True := (frame own _).declare fun _ _ => trivial
  have apart (es : List Expr) (s : State) : Visits own (fun _ => True) (Expr.checkApart es) s
      fun ts s' => ∀ t ∈ ts, t.Owned own s' := Expr.visits_checkApart (fun e _ => e.visit own) s
  cases σ with
  | skip span => exact .done trivial
  | assign span targets values =>
    rw [check]
    split
    · exact .andThen (visits_checkAssigned targets values) fun _ _ _ _ _ => .done trivial
    · exact Visits.fail
  | becomesElement span targets set =>
    rw [check]
    refine .andThen (apart targets s) fun _ ts s₁ _ hts => ?_
    split
    · exact Visits.fail
    · rename_i tuple found
      exact .andThen (set.visit own s₁ _ (Ty.tracked_of_tuple? (D := frame own _) found hts).set)
        fun _ _ _ _ _ => .done trivial
  | becomesSuch span targets pred =>
    rw [check]
    exact .andThen (apart targets s) fun _ _ _ _ _ => .andThen (Visits.pred pred)
      fun _ _ _ _ _ => .done trivial
  | any span bound pred body | letIn span bound pred body =>
    rw [check]
    exact .bind (declare bound s) fun _ _ _ _ => .andThen (Visits.pred pred) fun _ _ s₁ _ _ =>
      .andThen (ih body (by simp [children]) s₁) fun _ _ _ _ _ => .done trivial
  | var span bound body =>
    rw [check]
    exact .bind (declare bound s) fun _ s₁ _ _ => .andThen (ih body (by simp [children]) s₁)
      fun _ _ _ _ _ => .done trivial
  | guarded span kind cond body =>
    rw [check]
    exact .andThen (Visits.pred cond) fun _ _ s₁ _ _ => .andThen (ih body (by simp [children]) s₁)
      fun _ _ _ _ _ => .done trivial
  | branch span kind conds branches otherwise =>
    rw [check]
    refine .andThen (Pred.visits_checkAll (fun p _ => p.visit own) s) fun _ _ s₁ _ _ => ?_
    refine .andThen (visits_checkAll (fun τ hτ => ih τ (by simp [children, hτ])) s₁)
      fun _ _ s₂ _ _ => ?_
    exact .andThen (visits_checkOption (fun τ hτ => ih τ (by simp [children, Option.mem_def.1 hτ])) s₂)
      fun _ _ _ _ _ => .done trivial
  | choice span parts | block span kind parts =>
    rw [check]
    exact .andThen (visits_checkAll (fun τ hτ => ih τ (by simp [children, hτ])) s)
      fun _ _ _ _ _ => .done trivial
  | loop span cond body inv variant =>
    rw [check]
    refine .andThen (Visits.pred cond) fun _ _ s₁ _ _ => .andThen (ih body (by simp [children]) s₁)
      fun _ _ s₂ _ _ => .andThen (Visits.pred inv) fun _ _ s₃ _ _ => ?_
    exact .andThen (variant.visit own s₃ .integer (Ty.owned_of_vars_eq_nil rfl))
      fun _ _ _ _ _ => .done trivial
  | call span name callee args assigned =>
    rw [check]
    exact .andThen (visits_checkCalled concrete span name callee args assigned)
      fun _ _ _ _ _ => .done trivial

theorem visit (concrete : scope.Concrete) (σ : Substitution) : σ.Visit own scope := by
  suffices ∀ n : Node, ∀ σ, n = .substitution σ → σ.Visit own scope from this _ σ rfl
  intro n
  induction n using Node.induction with
  | step n ih =>
    rintro σ rfl
    exact visit_of_children concrete fun τ hτ => ih _ hτ τ rfl

end Substitution

end

/-! ## What stays known. -/

section

variable {P : Nat → Prop} {s s' : State} {id : Nat}

/-- The type of the declaration is known completely, unless there is no such declaration. -/
def State.Pins (s : State) (id : Nat) : Prop :=
  s.decls.Filled id ∧ ∀ t, s.decls.ty? id = some t → s.unifier.store.Knows t

/-- The type of a declaration with all that is known put in. -/
def State.known? (s : State) (id : Nat) : Option Ty := s.decls.ty? id >>= s.unifier.store.resolve?

/-- A filled slot is not written to. -/
lemma Declarations.Filled.moves {own : Prop} (filled : s.decls.Filled id) (h : s.Moves own P s') :
    s'.decls.Filled id ∧ s'.decls.ty? id = s.decls.ty? id := by
  have exist := isSome_get?_of_label? (h.labels id)
  cases hd : s.decls.get? id with
  | none =>
    have missing : s'.decls.get? id = none := by simpa [hd] using exist
    refine ⟨fun d hd' => ?_, by simp [ty?, hd, missing]⟩
    rw [missing] at hd'
    cases hd'
  | some d =>
    obtain ⟨t, ht⟩ := filled d hd
    have slot : s.decls.ty? id = some t := by rw [ty?_eq hd, ht]
    have kept := h.kept id t slot
    exact ⟨filled_of_ty? kept, kept.trans slot.symm⟩

/-- What is known completely stays as it is. -/
lemma State.Pins.moves (h : s.Pins id) (m : s.Moves True P s') :
    s'.Pins id ∧ s'.known? id = s.known? id := by
  obtain ⟨filled, slot⟩ := h.1.moves m
  have again {t u : Ty} (hu : s.unifier.store.resolve? t = some u) (hc : u.isConcrete = true) :
      s'.unifier.store.resolve? t = some u :=
    (m.keeps trivial).resolve?_eq (m.vars_le trivial) hu hc
  refine ⟨⟨filled, fun t ht => ?_⟩, ?_⟩
  · rw [slot] at ht
    obtain ⟨u, hu, hc⟩ := h.2 t ht
    exact ⟨u, again hu hc, hc⟩
  · rw [known?, known?, slot]
    cases ht : s.decls.ty? id with
    | none => rfl
    | some t =>
      obtain ⟨u, hu, hc⟩ := h.2 t ht
      exact (again hu hc).trans hu.symm

/-- Putting types into other slots changes nothing. -/
lemma State.Pins.retyped (h : s.Pins id) (r : s.Retyped P s') (hid : ¬ P id) : s'.Pins id := by
  have slot := r.kept id hid
  refine ⟨fun d' hd' => ?_, fun t ht => ?_⟩
  · have exist := Declarations.isSome_get?_of_label? (r.labels id)
    rw [hd', Option.isSome_some, eq_comm, Option.isSome_iff_exists] at exist
    obtain ⟨d, hd⟩ := exist
    obtain ⟨t, ht⟩ := h.1 d hd
    rw [ty?_eq hd, ht, ty?_eq hd'] at slot
    exact ⟨t, slot⟩
  · rw [r.unifier]
    exact h.2 t (slot.symm.trans ht)

/-- Types that are concrete or were in slots before leave the state orderly. -/
lemma State.Orderly.retyped {own : Prop} (o : s.Orderly own fun _ => True) (r : s.Retyped P s') :
    s'.Orderly own fun _ => True where
  reached ho := r.unifier ▸ o.reached ho
  slots id t _ ht ho v hv := by
    rw [vars, r.unifier]
    obtain concrete | ⟨i, hi⟩ := r.types id t ht
    · rw [Ty.vars_of_isConcrete concrete] at hv
      cases hv
    · exact o.slots i t trivial hi ho v hv

/-- What has to be concrete is known completely from then on. -/
lemma ensures_requireConcrete_pins {ν β : Type} {what : Subject} {ids : List Nat} {node : ν}
    {next : Unit → CheckM (Visited ν β)} {Q : ν → β → State → Prop}
    (filled : ∀ id ∈ ids, s.decls.Filled id)
    (h : (∀ id ∈ ids, s.Pins id) → Ensures (next ()) s Q fun _ => True) :
    Ensures ((requireConcrete what ids).orFail node next) s Q fun _ => True := by
  have found : requireConcrete what ids s = (.ok (), s) ∧ (∀ id ∈ ids, s.Pins id) ∨
      ∃ e, requireConcrete what ids s = (.error e, s) := by
    clear h
    induction ids with
    | nil => exact .inl ⟨rfl, nofun⟩
    | cons id ids ih =>
      rw [List.forall_mem_cons] at filled ⊢
      obtain ⟨ht, run⟩ | ⟨t, ht, ⟨-, run⟩ | ⟨u, hu, ⟨hc, run⟩ | ⟨-, name, span, run⟩⟩⟩ :=
        requireConcrete_cons what id ids s
      · rw [run]
        refine (ih filled.2).imp_left (And.imp_right fun rest => ⟨⟨filled.1, fun t ht' => ?_⟩, rest⟩)
        cases ht.symm.trans ht'
      · exact .inr ⟨_, run⟩
      · rw [run]
        refine (ih filled.2).imp_left (And.imp_right fun rest => ⟨⟨filled.1, fun t' ht' => ?_⟩, rest⟩)
        cases ht.symm.trans ht'
        exact ⟨u, hu, hc⟩
      · exact .inr ⟨_, run⟩
  apply ensures_orFail
  obtain ⟨run, pins⟩ | ⟨e, run⟩ := found
  · rw [Concludes, run]
    exact h pins
  · rw [Concludes, run]
    trivial

end

/-! ## Phases. -/

namespace Machine

variable {own : Prop} {m : Machine} {scope : Scope} {s : State}

lemma visits_optional (p : Option Pred) : Visits own (fun _ => True)
    (CheckM.optional (fun p => CheckM.ignore (p.check .bool)) p) s fun _ _ => True := by
  cases p with
  | none => exact .done trivial
  | some p =>
    have part : Visits own (fun _ => True) (CheckM.ignore (p.check .bool)) s fun _ _ => True :=
      .andThen (Visits.pred p) fun _ _ _ _ _ => .done trivial
    exact .andThen part fun _ _ _ _ _ => .done trivial

/-- Declaring moves an orderly state and leaves no slot empty. -/
lemma moves_declare (o : s.Orderly True fun _ => True) (ids : List Nat) :
    s.Moves True (fun _ => True) (State.declare ids s).2 ∧
      ∀ id ∈ ids, (State.declare ids s).2.decls.Filled id :=
  ⟨((frame True _).declare (fun _ _ => trivial) o).1, fun id hid => Step.supplies_declare ids s id (.inr hid)⟩

/-- After the properties and values the constants are known. -/
lemma pins_checkConstants (concrete : scope.Concrete) (o : s.Orderly True fun _ => True) :
    Ensures (m.checkConstants scope) s (fun _ _ s' => s.Moves True (fun _ => True) s' ∧
      ∀ id ∈ m.constants, s'.Pins id) fun _ => True := by
  have begin := (Runs.report (.enters .constants) o).1
  obtain ⟨declared, filled⟩ := moves_declare begin.orderly m.constants
  refine ensures_bind (ensures_bind (ensures_andThen
    (((visits_optional m.properties).ensures declared.orderly).mono fun _ _ s₁ ⟨typed, _⟩ => ?_)))
  apply ensures_requireConcrete_pins fun id hid => ((filled id hid).moves typed).1
  intro pins
  have values : Visits True (fun _ => True) (Substitution.checkAll scope m.values) s₁ fun _ _ => True :=
    Substitution.visits_checkAll (fun σ _ => σ.visit concrete) s₁
  refine ensures_andThen ((values.ensures typed.orderly).mono fun _ _ s₂ ⟨rest, _⟩ => ?_)
  exact ensures_done ⟨((begin.trans declared).trans typed).trans rest,
    fun id hid => ((pins id hid).moves rest).1⟩

/-- What is done before the invariant is looked at: declaring variables and taking over types. -/
def prepare (m : Machine) : CheckM Unit := do
  report (.enters .stateVariables)
  State.declare m.vars
  State.declare m.included
  m.takeTypes

/-- Then variables have types, and only variables that are taken over may have got others. -/
lemma pins_prepare {K : List Nat} (o : s.Orderly True fun _ => True)
    (labels : ∀ i, s.decls.label? i = m.decls.label? i) (before : ∀ id ∈ K, s.Pins id) :
    (m.prepare s).2.Orderly True (fun _ => True) ∧
      (∀ id ∈ m.vars ++ m.included, (m.prepare s).2.decls.Filled id) ∧
      ∀ id ∈ K, id ∉ m.included → (m.prepare s).2.Pins id := by
  have begin := (Runs.report (.enters .stateVariables) o).1
  obtain ⟨vars, filledV⟩ := moves_declare begin.orderly m.vars
  obtain ⟨included, filledI⟩ := moves_declare vars.orderly m.included
  have moves := (begin.trans vars).trans included
  have taken := m.retyped_takeTypes fun i => (moves.labels i).trans (labels i)
  refine ⟨moves.orderly.retyped taken, fun id hid => ?_, fun id hid notIncluded => ?_⟩
  · refine supplies_takeTypes _ id (.inl ?_)
    obtain hid | hid := List.mem_append.1 hid
    · exact ((filledV id hid).moves included).1
    · exact filledI id hid
  · refine ((before id hid).moves moves).1.retyped taken ?_
    simp [takesOver, notIncluded]

/-- After the invariant and assertions the variables are known, those that are taken over included, and
so is what was known before. -/
lemma pins_checkVariables {K : List Nat} (o : s.Orderly True fun _ => True)
    (labels : ∀ i, s.decls.label? i = m.decls.label? i) (before : ∀ id ∈ K, s.Pins id) :
    Ensures m.checkVariables s (fun _ _ s' => s'.Orderly True (fun _ => True) ∧
      ∀ id ∈ K ++ m.vars ++ m.included, s'.Pins id) fun _ => True := by
  obtain ⟨orderly, filled, pins⟩ := pins_prepare o labels before
  refine ensures_bind (ensures_bind (ensures_bind (ensures_bind ?_)))
  change Ensures _ (m.prepare s).2 _ _
  generalize (m.prepare s).2 = s₁ at orderly filled pins
  simp only [List.mem_append] at filled ⊢
  apply ensures_requireConcrete_pins fun id hid => filled id (.inr hid)
  intro pinsI
  refine ensures_andThen (((visits_optional m.invariant).ensures orderly).mono
    fun _ _ s₂ ⟨invariant, _⟩ => ?_)
  have assertions : Visits True (fun _ => True) (Pred.checkAll m.assertions) s₂ fun _ _ => True :=
    Pred.visits_checkAll (fun p _ => p.visit True) s₂
  refine ensures_andThen ((assertions.ensures invariant.orderly).mono fun _ _ s₃ ⟨rest, _⟩ => ?_)
  have typed := invariant.trans rest
  apply ensures_requireConcrete_pins fun id hid => ((filled id (.inl hid)).moves typed).1
  intro pinsV
  refine ensures_done ⟨typed.orderly, fun id hid => ?_⟩
  by_cases included : id ∈ m.included
  · exact ((pinsI id included).moves typed).1
  · obtain hid | hid := hid.resolve_right included
    · exact ((pins id hid included).moves typed).1
    · exact pinsV id hid

lemma visits_checkOperations (concrete : scope.Concrete) (os : List Operation) (s : State) :
    Visits own (fun _ => True) (checkOperations scope os) s fun _ _ => True := by
  induction os generalizing s with
  | nil => exact .done trivial
  | cons o os ih =>
    rw [checkOperations]
    refine .bind ((frame own _).declare fun _ _ => trivial) fun _ _ _ _ => .bind ((frame own _).declare fun _ _ => trivial)
      fun _ s₁ _ _ => ?_
    exact .andThen (o.body.visit concrete s₁) fun _ _ s₂ _ _ =>
      .andThen (ih s₂) fun _ _ _ _ _ => .done trivial

/-- The initialisation and the operations move orderly states. -/
lemma visits_checkBehaviour (concrete : scope.Concrete) :
    Visits own (fun _ => True) (m.checkBehaviour scope) s fun _ _ => True :=
  .bind (Runs.report _) fun _ s₁ _ _ =>
    .andThen (Substitution.visits_checkOption (fun σ _ => σ.visit concrete) s₁) fun _ _ s₂ _ _ =>
      .andThen (visits_checkOperations concrete _ s₂) fun _ _ _ _ _ => .done trivial

/-- The phases before the initialisation and the operations. -/
def checkFront (m : Machine) : CheckM (Visited Machine Unit) := do
  report (.begins m.name)
  m.seedSets
  (m.checkConstants m.scope).andThen id fun m _ => m.checkVariables

/-- The phases after that, and the conclusion. -/
def checkRest (m : Machine) : CheckM (Visited Machine Unit) :=
  (m.checkBehaviour m.scope).andThen id fun m _ => m.conclude

lemma checkClauses_eq (m : Machine) :
    m.checkClauses = m.checkFront.andThen id fun m _ => m.checkRest := by
  simp only [checkFront, CheckM.bind_andThen, CheckM.andThen_assoc]
  rfl

/-- The phases before the initialisation and the operations leave constants and variables known. -/
lemma pins_checkFront (concrete : m.decls.Concrete) :
    Ensures m.checkFront (start m.decls) (fun _ _ s' => s'.Orderly True (fun _ => True) ∧
      ∀ id ∈ m.constants ++ m.vars ++ m.included, s'.Pins id) fun _ => True := by
  have empty : (start m.decls).Orderly True fun _ => True := by
    refine ⟨fun _ => .empty, fun id t _ ht => Ty.owned_of_vars_eq_nil ?_⟩
    exact Ty.vars_of_isConcrete (concrete id t ht)
  have begin := (Runs.report (.begins m.name) empty).1
  have seeded := m.retyped_seedSets (report (.begins m.name) (start m.decls)).2
  have constants := (pins_checkConstants (m := m) m.concrete_scope (begin.orderly.retyped seeded)).and
    (leaves_checkConstants _)
  refine ensures_bind (ensures_bind (ensures_andThen (constants.imp ?_ fun _ _ => trivial)))
  rintro m₁ _ s₁ ⟨⟨moves, pins⟩, properties, values, rfl⟩
  refine pins_checkVariables (m := { m with properties, values }) moves.orderly (fun i => ?_) pins
  exact (moves.labels i).trans ((seeded.labels i).trans (begin.labels i))

/-- What is known before the initialisation and the operations is what declarations have in the end. -/
lemma settles_checkRest (o : s.Orderly True fun _ => True) :
    Ensures m.checkRest s (fun _ _ s' => ∀ id, s.Pins id → s'.decls.ty? id = s.known? id)
      fun _ => True := by
  refine ensures_andThen (((visits_checkBehaviour m.concrete_scope).ensures o).mono
    fun m₁ _ s₁ ⟨moves, _⟩ => ?_)
  rw [Ensures]
  split
  · rename_i run
    obtain ⟨-, -, -, decls⟩ := conclude_ok (swept s₁.unifier m₁) run
    intro id pins
    rw [decls, Declarations.ty?_settle]
    exact (pins.moves moves).2
  · trivial

/-- The machine with another initialisation and other operations. -/
def behaving (m : Machine) (initialisation : Option Substitution) (operations : List Operation) :
    Machine :=
  { m with initialisation, operations }

/-- The phases before do not look at them but for what operations can be called. -/
lemma checkFront_behaving {initialisation : Option Substitution} {operations : List Operation}
    (same : (m.behaving initialisation operations).scope = m.scope) :
    (m.behaving initialisation operations).checkFront =
      m.checkFront.mapNode (·.behaving initialisation operations) := by
  have constants (scope : Scope) : (m.behaving initialisation operations).checkConstants scope =
      (m.checkConstants scope).mapNode (·.behaving initialisation operations) := by
    simp only [checkConstants, CheckM.bind_mapNode, CheckM.andThen_mapNode, CheckM.orFail_mapNode,
      CheckM.mapNode_done]
    rfl
  have invariants (m : Machine) : (m.behaving initialisation operations).checkVariables =
      m.checkVariables.mapNode (·.behaving initialisation operations) := by
    simp only [checkVariables, CheckM.bind_mapNode, CheckM.andThen_mapNode, CheckM.orFail_mapNode,
      CheckM.mapNode_done]
    rfl
  simp only [checkFront, same, constants, invariants, CheckM.bind_mapNode, CheckM.andThen_mapNode,
    CheckM.mapNode_andThen, id]
  rfl

/-- The machine without what its initialisation and the bodies of its operations say. -/
def front (m : Machine) : Machine :=
  { m with
    initialisation := none
    operations := m.operations.map fun o => { o with body := .skip none } }

lemma scope_front (m : Machine) : m.front.scope = m.scope := by
  simp only [scope, front, List.map_map]
  rfl

/-- Machines with the same front differ in their initialisations and operations only. -/
lemma eq_behaving_of_front {m' : Machine} (h : m.front = m'.front) :
    m' = m.behaving m'.initialisation m'.operations := by
  obtain ⟨⟩ := m
  obtain ⟨⟩ := m'
  simp only [front, mk.injEq] at h
  obtain ⟨rfl, rfl, rfl, rfl, rfl, rfl, rfl, rfl, rfl, rfl, rfl, rfl, -, -⟩ := h
  rfl

/-- The types that a successful check gives to constants and variables, from the phases before the
initialisation and the operations. -/
lemma ty?_checkMachine (concrete : m.decls.Concrete) (ok : (checkMachine m).verdict = .ok ()) {id : Nat}
    (hid : id ∈ m.constants ++ m.vars ++ m.included) :
    (checkMachine m).decls.ty? id = (m.checkFront (start m.decls)).2.known? id := by
  have front := pins_checkFront concrete
  have whole : Ensures m.checkClauses (start m.decls) (fun _ _ s' =>
      s'.decls.ty? id = (m.checkFront (start m.decls)).2.known? id) fun _ => True := by
    rw [checkClauses_eq]
    apply ensures_andThen
    rw [Ensures] at front ⊢
    revert front
    obtain ⟨⟨m₁, _ | a⟩, s₁⟩ := m.checkFront (start m.decls)
    · exact fun _ => trivial
    · rintro ⟨orderly, pins⟩
      exact (settles_checkRest orderly).mono fun _ _ _ h => h id (pins id hid)
  obtain ⟨_, s', -, same, decls⟩ | ⟨e, error, -⟩ := runCheck_spec (.machine m.name) whole
  · rw [← same, ← decls]
    rfl
  · cases error.symm.trans ok

end Machine

/-- Phases are isolated. Two machines that are equal but for their initialisations and the bodies of
their operations give the same types to their constants and variables and to the variables they take
over, if the checks of both succeed. -/
theorem phases_isolated {m m' : Machine} (same : m.front = m'.front) (concrete : m.decls.Concrete)
    (ok : (checkMachine m).verdict = .ok ()) (ok' : (checkMachine m').verdict = .ok ()) :
    ∀ id ∈ m.constants ++ m.vars ++ m.included,
      (checkMachine m).decls.ty? id = (checkMachine m').decls.ty? id := by
  intro id hid
  have other := Machine.eq_behaving_of_front same
  have scope : m'.scope = m.scope := by rw [← m'.scope_front, ← same, m.scope_front]
  generalize m'.initialisation = initialisation, m'.operations = operations at other
  subst other
  have type := Machine.ty?_checkMachine (m := m.behaving initialisation operations) concrete ok' hid
  rw [m.ty?_checkMachine concrete ok hid, type, Machine.checkFront_behaving scope]
  rfl

/-- A machine with a constant, a variable and a variable `p.y` taken over from another machine, with the
given initialisation and body of its operation. -/
def Machine.sampleBehaving (initialisation body : Substitution) : Machine :=
  let note : Note := ⟨none, none⟩
  let natural (e : Expr) := Pred.comparison note .elementOf [e, .apply note .natural []]
  { Machine.named "Counter" with
    decls := ⟨#[.named "c", .named "x", { Declaration.named "p.y" with qualifier := some "p" }]⟩
    constants := [0]
    vars := [1]
    included := [2]
    references := [(some "p", { Machine.named "A" with
      decls := ⟨#[{ Declaration.named "y" with ty := some (.set .integer) }]⟩, vars := [0] })]
    properties := some (natural (.identifier note 0 "c"))
    invariant := some (.comparison note .inclusion
      [.identifier note 1 "x", .identifier note 2 "p.y"])
    initialisation := some initialisation
    operations := [⟨"act", [], [], body, none⟩] }

/-- The variable is a set of integers whether it is initialised with the one taken over and then loses
an element, or is initialised with no elements and then stays as it is. -/
theorem phases_isolated_sampleBehaving :
    let note : Note := ⟨none, none⟩
    let x := Expr.identifier note 1 "x"
    let one := Expr.apply note .setEnumeration [.integer note 1]
    let shrinking := Machine.sampleBehaving (.assign none [x] [.identifier note 2 "p.y"])
      (.assign none [x] [.apply note .minus [x, one]])
    let idle := Machine.sampleBehaving (.assign none [x] [.apply note .emptySet []]) (.skip none)
    (checkMachine shrinking).decls.ty? 1 = some (.set .integer) ∧
      (checkMachine idle).decls.ty? 1 = some (.set .integer) := by
  intro note x one shrinking idle
  have concrete : shrinking.decls.Concrete := by
    rintro (_ | _ | _ | id) t h <;> simp [shrinking, Machine.sampleBehaving, Declarations.ty?,
      Declarations.get?, Declaration.named] at h
  obtain ⟨_, ok⟩ : ∃ t, (checkMachine shrinking).verdict = .ok t :=
    Checked.isOk_iff.1 (by decide +kernel)
  obtain ⟨_, ok'⟩ : ∃ t, (checkMachine idle).verdict = .ok t := Checked.isOk_iff.1 (by decide +kernel)
  have front : shrinking.front = idle.front := rfl
  have same := phases_isolated front concrete ok ok' 1 (by decide)
  have type : (checkMachine shrinking).decls.ty? 1 = some (.set .integer) := by decide +kernel
  exact ⟨type, same.symm.trans type⟩

end BMethod
