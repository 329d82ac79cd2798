import BMethod.Proofs.Soundness
import BMethod.Proofs.Typing.Supply
import BMethod.Report

/-!
# Nothing is left untyped

A check that succeeds has filled every slot of its trees with a concrete type, and has given a type
to every declaration that the trees mention or a machine lists; what types declarations have are
concrete. So the report of a machine is complete. This holds whatever the slots of nodes and
declarations held before, left over from other checks or put there by hand.
-/

namespace BMethod

open State

/-! ## Forms. -/

/-- If the walk succeeds, it leaves something of which `R` holds. -/
def Leaves {ν α : Type} (R : ν → Prop) (x : CheckM (Visited ν α)) : Prop :=
  ∀ s : State, Ensures x s (fun n _ _ => R n) fun _ => True

section

variable {ν π α β : Type} {s : State} {R : ν → Prop} {P : π → Prop}

lemma ensures_trivial (x : CheckM (Visited ν α)) (s : State) :
    Ensures x s (fun _ _ _ => True) fun _ => True := by
  rw [Ensures]
  obtain ⟨⟨n, _ | a⟩, s'⟩ := x s <;> trivial

lemma Leaves.done {n : ν} {a : α} (h : R n) : Leaves R (CheckM.done n a) := fun _ => ensures_done h

lemma Leaves.bind {x : CheckM α} {f : α → CheckM (Visited ν β)} (h : ∀ a, Leaves R (f a)) :
    Leaves R (x >>= f) := fun _ => ensures_bind (h _ _)

lemma Leaves.andThen {part : CheckM (Visited π α)} {whole : π → ν}
    {next : π → α → CheckM (Visited ν β)} (h : Leaves P part)
    (h' : ∀ p a, P p → Leaves R (next p a)) : Leaves R (part.andThen whole next) :=
  fun s => ensures_andThen ((h s).mono fun p a s' hp => h' p a hp s')

lemma Leaves.orFail {step : CheckM (Verdict α)} {n : ν} {next : α → CheckM (Visited ν β)}
    (h : ∀ a, Leaves R (next a)) : Leaves R (step.orFail n next) := by
  intro s
  apply ensures_orFail
  rw [Concludes]
  obtain ⟨_ | a, s'⟩ := step s
  · trivial
  · exact h a s'

/-- A part of which nothing needs to be known. -/
lemma Leaves.after {part : CheckM (Visited π α)} {whole : π → ν}
    {next : π → α → CheckM (Visited ν β)} (h : ∀ p a, Leaves R (next p a)) :
    Leaves R (part.andThen whole next) :=
  fun s => ensures_andThen ((ensures_trivial part s).mono fun p a s' _ => h p a s')

end

/-! ## Conclusions. -/

/-- All slots of the trees are filled with concrete types. -/
def Node.Annotated (roots : List Node) : Prop :=
  ∀ n ∈ roots.flatMap Node.preorder, n.hasSlot = true → ∃ t, n.slot = some t ∧ t.isConcrete = true

/-- What is known is concrete once it has been put into the slots. -/
lemma Node.annotated_stamp {s : Store} {ns : List Node} (h : ∀ n ∈ ns, n.AllKnown s) :
    Annotated (ns.map (restamp s.stamp)) := by
  intro m hm slotted
  rw [flatMap_preorder_restamp] at hm
  obtain ⟨n, hn, rfl⟩ := List.mem_map.1 hm
  obtain ⟨root, hr, hn⟩ := List.mem_flatMap.1 hn
  rw [hasSlot_restamp] at slotted
  obtain ⟨t, ht, u, hu, hc⟩ := h root hr n hn slotted
  exact ⟨u, by simp [slot_stamp, ht, hu], hc⟩

/-- So are declarations, and none of them loses its type. -/
lemma Declarations.AllKnown.settle {s : Store} {ds : Declarations} (h : ds.AllKnown s) :
    (ds.settle s).Concrete ∧ ∀ id, ds.Filled id → (ds.settle s).Filled id := by
  constructor
  · intro id u hu
    rw [ty?_settle] at hu
    obtain ⟨t, ht, hu⟩ := Option.bind_eq_some_iff.1 hu
    obtain ⟨u', hu', hc⟩ := h id t ht
    rw [hu] at hu'
    cases hu'
    exact hc
  · intro id filled d hd
    rw [get?_settle] at hd
    obtain ⟨d₀, hd₀, rfl⟩ := Option.map_eq_some_iff.1 hd
    obtain ⟨t, ht⟩ := filled d₀ hd₀
    obtain ⟨u, hu, -⟩ := h id t (by rw [ty?_eq hd₀, ht])
    exact ⟨u, by simp [Declaration.settle, ht, hu]⟩

/-- If the check succeeds, it leaves trees and declarations with concrete types only, and has filled the
slots of the given declarations. -/
def Annotates {τ α : Type} (M : Set Nat) (roots : τ → List Node) (x : CheckM (Visited τ α)) : Prop :=
  ∀ s : State, Ensures x s (fun t _ s' =>
    Node.Annotated (roots t) ∧ s'.decls.Concrete ∧ s.Supplies M s') fun _ => True

namespace Annotates

variable {τ π α β : Type} {M N : Set Nat} {roots : τ → List Node}

lemma mono {x : CheckM (Visited τ α)} (h : Annotates M roots x) (le : N ⊆ M) :
    Annotates N roots x := fun s => (h s).mono fun _ _ _ h => ⟨h.1, h.2.1, h.2.2.mono le⟩

/-- What comes before the conclusion: a computation. -/
lemma bind {x : CheckM α} {f : α → CheckM (Visited τ β)} (hx : Step.Supplies M x)
    (hf : ∀ a, Annotates N roots (f a)) : Annotates (M ∪ N) roots (x >>= f) :=
  fun s => ensures_bind ((hf _ _).mono fun _ _ _ h => ⟨h.1, h.2.1, (hx s).trans h.2.2⟩)

/-- What comes before the conclusion: a walk. -/
lemma andThen {P : π → Prop} {part : CheckM (Visited π α)} {whole : π → τ}
    {next : π → α → CheckM (Visited τ β)} (h : Walk.Supplies M part) (leaves : Leaves P part)
    (h' : ∀ p a, P p → Annotates N roots (next p a)) :
    Annotates (M ∪ N) roots (part.andThen whole next) :=
  fun s => ensures_andThen (((h s).and (leaves s)).imp (fun p a s' hp =>
    (h' p a hp.2 s').mono fun _ _ _ h => ⟨h.1, h.2.1, hp.1.trans h.2.2⟩) fun _ _ => trivial)

/-- What comes before the conclusion: a step that may fail. -/
lemma orFail {step : CheckM (Verdict α)} {n : τ} {next : α → CheckM (Visited τ β)}
    (h : Step.Supplies M step) (h' : ∀ a, Annotates N roots (next a)) :
    Annotates (M ∪ N) roots (step.orFail n next) := by
  intro s
  apply ensures_orFail
  have first := h s
  rw [Concludes]
  revert first
  obtain ⟨_ | a, s'⟩ := step s
  · exact fun _ => trivial
  · exact fun first => (h' a s').mono fun _ _ _ h => ⟨h.1, h.2.1, first.trans h.2.2⟩

/-- What comes after the conclusion: reading the result off. -/
lemma readOff {ν : Type} {x : CheckM (Visited τ α)} {whole : τ → ν} {roots' : ν → List Node}
    {next : τ → α → CheckM (Visited ν β)} (h : Annotates M roots x)
    (h' : ∀ t a s, Ensures (next t a) s (fun t' _ s' => roots' t' = roots t ∧ s' = s) fun _ => True) :
    Annotates M roots' (x.andThen whole next) := by
  intro s
  refine ensures_andThen ((h s).mono fun t a s' ⟨nodes, decls, supplies⟩ => (h' t a s').mono ?_)
  rintro t' _ _ ⟨same, rfl⟩
  rw [same]
  exact ⟨nodes, decls, supplies⟩

/-- The conclusion, if the sweep is through all the trees. -/
lemma conclude {sweep : τ → SweepM τ} {tree : τ} {stamped : Stamp → τ}
    (h : ∀ u : Unifier, Sweeps u (sweep tree) (∀ n ∈ roots tree, n.AllKnown u.store)
      (stamped u.store.stamp))
    (same : ∀ f, roots (stamped f) = (roots tree).map (Node.restamp f)) :
    Annotates ∅ roots (BMethod.conclude tree sweep) := by
  intro s
  rw [Ensures]
  cases run : BMethod.conclude tree sweep s with
  | mk r s' =>
    obtain ⟨t, _ | ⟨⟩⟩ := r
    · trivial
    · obtain ⟨known, all, rfl, decls⟩ := conclude_ok (h s.unifier) run
      obtain ⟨concrete, filled⟩ := all.settle
      simp only [same, decls]
      refine ⟨Node.annotated_stamp known, concrete, fun id hid => ?_⟩
      rw [decls]
      exact filled id (hid.resolve_right (Set.notMem_empty id))

end Annotates

/-! ## Formulas. -/

section

variable (implicit : List Nat)

lemma Expr.annotates_finish (e : Expr) : Annotates ∅ (fun e => [.expr e]) (e.finish implicit) := by
  refine (Annotates.orFail (N := ∅) (Step.supplies_requireConcrete _ _) fun _ => ?_).mono
    (Set.empty_subset _)
  have concluded : Annotates ∅ (fun e => [.expr e]) e.conclude :=
    .conclude (fun u => (Node.swept u (.expr e)).congr (by simp) rfl) fun _ => rfl
  refine concluded.readOff fun e' _ s => ?_
  cases e'.note.ty with
  | none => exact ensures_fail trivial
  | some t => exact ensures_done ⟨rfl, rfl⟩

lemma Pred.annotates_finish (p : Pred) : Annotates ∅ (fun p => [.pred p]) (p.finish implicit) := by
  refine (Annotates.orFail (N := ∅) (Step.supplies_requireConcrete _ _) fun _ => ?_).mono
    (Set.empty_subset _)
  have concluded : Annotates ∅ (fun p => [.pred p]) p.conclude :=
    .conclude (fun u => (Node.swept u (.pred p)).congr (by simp) rfl) fun _ => rfl
  refine concluded.readOff fun p' _ s => ?_
  cases p'.note.ty with
  | none => exact ensures_fail trivial
  | some t => exact ensures_done ⟨rfl, rfl⟩

/-- The check of an expression on its own. -/
lemma Expr.annotates_checkRoot (e : Expr) :
    Annotates (Node.expr e).refs (fun e => [.expr e]) (e.checkRoot implicit) := by
  refine (Annotates.bind Step.supplies_fresh fun t => .andThen (N := ∅) (Node.supplies (.expr e) t)
    (fun s => ensures_trivial _ s) fun e' t _ => ?_).mono (by simp)
  refine (Annotates.bind (N := ∅) Step.supplies_get fun s => ?_).mono (Set.empty_subset _)
  split
  · exact fun _ => trivial
  · refine (Annotates.orFail (N := ∅) (Step.supplies_resolve _) fun _ => ?_).mono (Set.empty_subset _)
    exact fun _ => trivial
  · exact annotates_finish implicit e'

/-- The check of a predicate on its own. -/
lemma Pred.annotates_checkRoot (p : Pred) :
    Annotates (Node.pred p).refs (fun p => [.pred p]) (p.checkRoot implicit) :=
  (Annotates.andThen (Node.supplies (.pred p) .bool) (fun s => ensures_trivial _ s) fun p' _ _ =>
    annotates_finish implicit p').mono Set.subset_union_left

/-- The check of a formula, after the identifiers that it declares have lost their types. -/
lemma Formula.annotates_checkRoot (f : Formula) :
    Annotates f.root.refs (fun f : Formula => [f.root]) (match f with
      | .expr e => (e.checkRoot implicit).andThen .expr fun e t => CheckM.done (.expr e) t
      | .pred p => (p.checkRoot implicit).andThen .pred fun p t => CheckM.done (.pred p) t) := by
  cases f with
  | expr e => exact (e.annotates_checkRoot implicit).readOff fun _ _ _ => ensures_done ⟨rfl, rfl⟩
  | pred p => exact (p.annotates_checkRoot implicit).readOff fun _ _ _ => ensures_done ⟨rfl, rfl⟩

lemma Step.supplies_redeclare : Step.Supplies ∅ (redeclare implicit) := by
  induction implicit with
  | nil => exact supplies_pure _
  | cons id ids ih =>
    refine Supplies.bindIdle supplies_fresh fun t => Supplies.bindIdle (fun s => ?_) fun _ => ih
    exact State.Supplies.mono (supplies_setTy rfl) (Set.empty_subset _)

/-- The check of a temporal formula. -/
lemma Ltl.annotates_check (f : Ltl) : Annotates (Node.ltl f).refs (fun f => [.ltl f])
    (f.check.andThen id fun f _ => f.conclude) := by
  refine (Annotates.andThen (N := ∅) (Node.supplies (.ltl f)) (fun s => ensures_trivial _ s)
    fun f' _ _ => ?_).mono Set.subset_union_left
  exact .conclude (fun u => (Node.swept u (.ltl f')).congr (by simp) rfl) fun _ => rfl

end

/-! ## Machines. -/

namespace Machine

/-- The declarations that a machine lists: its sets, constants and variables, those it takes over, and
the parameters and outputs of its operations. -/
def listed (m : Machine) : List Nat :=
  m.enumerated.map (·.set) ++ m.deferred ++ m.constants ++ m.vars ++ m.included ++
    m.operations.flatMap fun o => o.params ++ o.outputs

variable {m : Machine} {scope : Scope}

/-- The same operations but for their bodies. -/
def SameHeads (os os' : List Operation) : Prop :=
  os'.map (fun o => (o.params, o.outputs)) = os.map fun o => (o.params, o.outputs)

lemma flatMap_of_sameHeads {os os' : List Operation} (h : SameHeads os os') :
    (os'.flatMap fun o => o.params ++ o.outputs) = os.flatMap fun o => o.params ++ o.outputs := by
  have flat (os : List Operation) : (os.flatMap fun o => o.params ++ o.outputs) =
      (os.map fun o => (o.params, o.outputs)).flatMap fun x => x.1 ++ x.2 := by
    rw [List.flatMap_map]
  rw [flat, flat, h]

lemma leaves_checkConstants : Leaves (fun m' => ∃ properties values, m' = { m with properties, values })
    (m.checkConstants scope) :=
  .bind fun _ => .bind fun _ => .after fun properties _ => .orFail fun _ => .after fun values _ =>
    .done ⟨properties, values, rfl⟩

lemma leaves_checkVariables :
    Leaves (fun m' => ∃ invariant assertions, m' = { m with invariant, assertions })
      m.checkVariables :=
  .bind fun _ => .bind fun _ => .bind fun _ => .bind fun _ => .orFail fun _ => .after fun invariant _ =>
    .after fun assertions _ => .orFail fun _ => .done ⟨invariant, assertions, rfl⟩

lemma leaves_checkOperations (os : List Operation) :
    Leaves (SameHeads os) (checkOperations scope os) := by
  induction os with
  | nil => exact .done rfl
  | cons o os ih =>
    rw [checkOperations]
    refine .bind fun _ => .bind fun _ => .after fun body _ => .andThen ih fun os' _ same => .done ?_
    exact congrArg ((o.params, o.outputs) :: ·) same

lemma leaves_checkBehaviour :
    Leaves (fun m' => ∃ initialisation operations, SameHeads m.operations operations ∧
      m' = { m with initialisation, operations }) (m.checkBehaviour scope) :=
  .bind fun _ => .after fun initialisation _ => .andThen (leaves_checkOperations m.operations)
    fun operations _ same => .done ⟨initialisation, operations, same, rfl⟩

/-- A loop fills what its rounds fill. -/
lemma supplies_forM {α : Type} {f : α → CheckM Unit} {M : α → Set Nat}
    (h : ∀ a, Step.Supplies (M a) (f a)) (as : List α) :
    Step.Supplies {id | ∃ a ∈ as, id ∈ M a} (as.forM f) := by
  induction as with
  | nil => exact (Step.supplies_pure ()).mono fun _ ⟨_, ha, _⟩ => by cases ha
  | cons a as ih =>
    refine ((h a).bind fun _ => ih).mono ?_
    rintro id ⟨b, hb, hid⟩
    cases hb with
    | head => exact .inl hid
    | tail _ hb => exact .inr ⟨b, hb, hid⟩

lemma supplies_takeTypes : Step.Supplies ∅ m.takeTypes := by
  have takeType (id : Nat) (offer : Option Ty) : Step.Supplies ∅ (takeType id offer) := by
    intro s
    simp only [takeType, bind, StateT.bind, get, getThe, MonadStateOf.get, StateT.get, pure]
    cases s.decls.get? id with
    | none => exact supplies_of_decls rfl
    | some d =>
      cases offer with
      | none => exact supplies_of_decls rfl
      | some t => exact State.Supplies.mono (supplies_setTy rfl) (Set.empty_subset _)
  have takeTypeFrom (reference : Option String × Machine) (id : Nat) :
      Step.Supplies ∅ (takeTypeFrom m.included reference id) := by
    refine Step.supplies_get.bindIdle fun s => ?_
    cases s.decls.get? id with
    | none => exact Step.supplies_pure _
    | some d =>
      obtain ⟨_ | qualifier, source⟩ := reference
      · exact takeType _ _
      · exact (takeType _ _).bindIdle fun _ => Step.supplies_get.bindIdle fun _ => takeType _ _
  exact (supplies_forM (fun reference => (supplies_forM (takeTypeFrom reference) m.included).mono
    (Set.empty_subset _)) m.references).mono (Set.empty_subset _)

/-- Sets get their types if they have none. -/
lemma supplies_seedSets :
    Step.Supplies {id | id ∈ m.enumerated.map (·.set) ++ m.deferred} m.seedSets := by
  have filled {s : State} {id : Nat} {d : Declaration} {t : Ty} (hd : s.decls.get? id = some d)
      (ht : d.ty = some t) : s.Supplies {id} s := by
    rintro i (hi | rfl)
    · exact hi
    · exact Declarations.filled_of_ty? (by rw [ty?_eq hd, ht])
  have missing {s : State} {id : Nat} (hd : s.decls.get? id = none) : s.Supplies {id} s := by
    rintro i (hi | rfl)
    · exact hi
    · intro d h
      rw [hd] at h
      cases h
  have elements (ds : Declarations) (t : Ty) (ids : List Nat) {i : Nat} (h : ds.Filled i) :
      (ids.foldl (fun ds id => ds.setTy id (some t)) ds).Filled i := by
    induction ids generalizing ds with
    | nil => exact h
    | cons id ids ih => exact ih _ (Declarations.filled_setTy t (.inl h))
  have enumerated (set : EnumeratedSet) : Step.Supplies {set.set} (seedEnumerated m.name set) := by
    intro s
    simp only [seedEnumerated, bind, StateT.bind, get, getThe, MonadStateOf.get, StateT.get, pure]
    cases hd : s.decls.get? set.set with
    | none => exact missing hd
    | some d =>
      obtain ⟨name, span, _ | t, qualifier⟩ := d
      · intro i hi
        exact elements _ _ _ (Declarations.filled_setTy _ (hi.imp_right Eq.symm))
      · exact filled hd rfl
  have deferred (id : Nat) : Step.Supplies {id} (seedDeferred m.name id) := by
    intro s
    simp only [seedDeferred, bind, StateT.bind, get, getThe, MonadStateOf.get, StateT.get, pure]
    cases hd : s.decls.get? id with
    | none => exact missing hd
    | some d =>
      obtain ⟨name, span, _ | t, qualifier⟩ := d
      · exact supplies_setTy rfl
      · exact filled hd rfl
  refine ((supplies_forM enumerated m.enumerated).bind fun _ =>
    supplies_forM deferred m.deferred).mono fun id hid => ?_
  obtain hid | hid := List.mem_append.1 hid
  · obtain ⟨set, hs, rfl⟩ := List.mem_map.1 hid
    exact .inl ⟨set, hs, rfl⟩
  · exact .inr ⟨id, hid, rfl⟩

/-- A clause that may be missing. -/
lemma supplies_optional (p : Option Pred) : Walk.Supplies (Node.refsAll (p.toList.map .pred))
    (CheckM.optional (fun p => CheckM.ignore (p.check .bool)) p) := by
  cases p with
  | none => exact (Walk.supplies_done _ _).mono (by simp)
  | some p =>
    exact (((Node.supplies (.pred p) .bool).andThen fun _ _ => Walk.supplies_done _ _).andThen
      fun _ _ => Walk.supplies_done _ _).mono (by simp)

lemma supplies_checkConstants : Walk.Supplies ({id | id ∈ m.constants} ∪ Node.refsAll m.constantRoots)
    (m.checkConstants scope) :=
  (Walk.Supplies.bind (Step.supplies_report _) fun _ => Walk.Supplies.bind (Step.supplies_declare _)
    fun _ => (supplies_optional m.properties).andThen fun _ _ =>
      Walk.Supplies.orFail (Step.supplies_requireConcrete _ _) fun _ =>
        (Substitution.supplies_checkAll fun σ _ => Node.supplies (.substitution σ)).andThen fun _ _ =>
          Walk.supplies_done _ _).mono (by simp [constantRoots])

lemma supplies_checkVariables :
    Walk.Supplies ({id | id ∈ m.vars} ∪ {id | id ∈ m.included} ∪
      Node.refsAll (m.invariant.toList.map .pred ++ m.assertions.map .pred)) m.checkVariables :=
  (Walk.Supplies.bind (Step.supplies_report _) fun _ => Walk.Supplies.bind (Step.supplies_declare _)
    fun _ => Walk.Supplies.bind (Step.supplies_declare _) fun _ => Walk.Supplies.bind supplies_takeTypes
      fun _ => Walk.Supplies.orFail (Step.supplies_requireConcrete _ _) fun _ =>
        (supplies_optional m.invariant).andThen fun _ _ =>
          (Pred.supplies_checkAll fun p _ => Node.supplies (.pred p)).andThen fun _ _ =>
            Walk.Supplies.orFail (Step.supplies_requireConcrete _ _) fun _ =>
              Walk.supplies_done _ _).mono (by simp [Set.union_assoc])

lemma supplies_checkOperations (os : List Operation) :
    Walk.Supplies ({id | id ∈ os.flatMap fun o => o.params ++ o.outputs} ∪
      Node.refsAll (os.map (.substitution ·.body))) (checkOperations scope os) := by
  induction os with
  | nil => exact (Walk.supplies_done _ _).mono (by simp)
  | cons o os ih =>
    rw [checkOperations]
    refine (Walk.Supplies.bind (Step.supplies_declare _) fun _ =>
      Walk.Supplies.bind (Step.supplies_declare _) fun _ =>
        (Node.supplies (.substitution o.body) scope).andThen fun _ _ => ih.andThen fun _ _ =>
          Walk.supplies_done _ _).mono fun id => ?_
    simp only [List.flatMap_cons, List.map_cons, Node.refsAll_cons, Set.mem_union, Set.mem_ofPred_eq,
      List.mem_append]
    tauto

lemma supplies_checkBehaviour :
    Walk.Supplies ({id | id ∈ m.operations.flatMap fun o => o.params ++ o.outputs} ∪
      Node.refsAll (m.initialisation.toList.map .substitution ++
        m.operations.map (.substitution ·.body))) (m.checkBehaviour scope) := by
  refine (Walk.Supplies.bind (Step.supplies_report _) fun _ =>
    (Substitution.supplies_checkOption fun σ _ => Node.supplies (.substitution σ)).andThen fun _ _ =>
      (supplies_checkOperations m.operations).andThen fun _ _ => Walk.supplies_done _ _).mono
        fun id => ?_
  simp only [Node.refsAll_append, Set.mem_union]
  tauto

/-- The check of a machine fills the slots of all declarations that it lists or its trees mention. -/
lemma annotates_checkClauses :
    Annotates ({id | id ∈ m.listed} ∪ Node.refsAll m.roots) roots m.checkClauses := by
  refine (Annotates.bind (Step.supplies_report _) fun _ => .bind supplies_seedSets fun _ =>
    .andThen (N := {id | id ∈ m.vars} ∪ {id | id ∈ m.included} ∪
      Node.refsAll (m.invariant.toList.map .pred ++ m.assertions.map .pred) ∪
      ({id | id ∈ m.operations.flatMap fun o => o.params ++ o.outputs} ∪
        Node.refsAll (m.initialisation.toList.map .substitution ++
          m.operations.map (.substitution ·.body))))
      supplies_checkConstants leaves_checkConstants ?_).mono fun id => ?_
  · rintro m₁ _ ⟨properties, values, rfl⟩
    refine .andThen supplies_checkVariables leaves_checkVariables ?_
    rintro m₂ _ ⟨invariant, assertions, rfl⟩
    refine (Annotates.andThen (N := ∅) supplies_checkBehaviour leaves_checkBehaviour ?_).mono
      Set.subset_union_left
    rintro m₃ _ -
    exact .conclude (fun u => m₃.swept u) fun f => m₃.roots_restamp f
  · simp only [listed, roots, constantRoots, Node.refsAll_append, Set.mem_union, Set.mem_ofPred_eq,
      List.mem_append]
    tauto

/-- The check of a machine leaves the lists as they are. -/
lemma leaves_checkClauses : Leaves (fun m' => m'.listed = m.listed) m.checkClauses := by
  refine .bind fun _ => .bind fun _ => .andThen leaves_checkConstants ?_
  rintro m₁ _ ⟨properties, values, rfl⟩
  refine .andThen leaves_checkVariables ?_
  rintro m₂ _ ⟨invariant, assertions, rfl⟩
  refine .andThen leaves_checkBehaviour ?_
  rintro m₃ _ ⟨initialisation, operations, same, rfl⟩
  intro s
  rw [Ensures]
  split
  · rename_i run
    obtain ⟨-, -, rfl, -⟩ := conclude_ok (swept s.unifier _) run
    simp only [listed, restamp, List.flatMap_map]
    exact congrArg _ (flatMap_of_sameHeads same)
  · trivial

/-- The names of a report are those of the declarations that the machine lists. -/
lemma exists_of_mem_report {n : TypedName} (h : n ∈ (Report.ofMachine m).names) :
    ∃ id ∈ m.listed, ∃ d, m.decls.get? id = some d ∧ n.ty = d.ty := by
  have typed {ids : List Nat} (hn : n ∈ m.decls.typedNames ids) :
      ∃ id ∈ ids, ∃ d, m.decls.get? id = some d ∧ n.ty = d.ty := by
    obtain ⟨d, hd, rfl⟩ := List.mem_map.1 hn
    obtain ⟨id, hid, found⟩ := List.mem_filterMap.1 hd
    exact ⟨id, hid, d, found, rfl⟩
  simp only [Report.names, Report.ofMachine, List.flatMap_map, List.mem_append, List.mem_flatMap] at h
  simp only [listed, List.mem_append, List.mem_flatMap]
  obtain ((h | h) | h | h) | ⟨o, ho, h | h⟩ := h <;> obtain ⟨id, hid, found⟩ := typed h <;>
    refine ⟨id, ?_, found⟩
  · rw [List.mem_append] at hid
    tauto
  · tauto
  · tauto
  · tauto
  · exact .inr ⟨o, ho, .inl hid⟩
  · exact .inr ⟨o, ho, .inr hid⟩

/-- The report of a machine is complete if the declarations that it lists have types. -/
lemma report_complete (h : ∀ id ∈ m.listed, m.decls.Filled id) (concrete : m.decls.Concrete) :
    (Report.ofMachine m).isComplete = true ∧
      ∀ n ∈ (Report.ofMachine m).names, ∃ t, n.ty = some t ∧ t.isConcrete = true := by
  have typed (n : TypedName) (hn : n ∈ (Report.ofMachine m).names) :
      ∃ t, n.ty = some t ∧ t.isConcrete = true := by
    obtain ⟨id, hid, d, hd, same⟩ := exists_of_mem_report hn
    obtain ⟨t, ht⟩ := h id hid d hd
    exact ⟨t, same.trans ht, concrete id t (by rw [ty?_eq hd, ht])⟩
  refine ⟨List.all_eq_true.2 fun n hn => ?_, typed⟩
  obtain ⟨t, ht, -⟩ := typed n hn
  simp [ht]

end Machine

/-! ## The checks. -/

/-- What is left of trees and declarations if nothing is untyped: all slots of nodes are filled with
concrete types, so are those of declarations unless they are empty, and no declaration that the trees
mention has an empty one. -/
structure NothingUntyped (mentioning annotated : List Node) (ds : Declarations) : Prop where
  nodes : ∀ n ∈ annotated.flatMap Node.preorder, n.hasSlot = true →
    ∃ t, n.slot = some t ∧ t.isConcrete = true
  decls : ∀ id t, ds.ty? id = some t → t.isConcrete = true
  mentioned : ∀ n ∈ mentioning, ∀ id, n.Refers id → ds.Filled id

/-- If the check of the tree succeeds, it leaves nothing untyped. -/
def Checked.Complete {τ α : Type} (roots : τ → List Node) (tree : τ) (c : Checked τ α) : Prop :=
  ∀ a, c.verdict = .ok a → NothingUntyped (roots tree) (roots c.tree) c.decls

lemma Annotates.complete {τ α : Type} {M : Set Nat} {roots : τ → List Node}
    {x : CheckM (Visited τ α)} (h : Annotates M roots x) (target : Target) {ds : Declarations} {a : α}
    (ok : (runCheck target ds x).verdict = .ok a) :
    Node.Annotated (roots (runCheck target ds x).tree) ∧ (runCheck target ds x).decls.Concrete ∧
      ∀ id ∈ M, (runCheck target ds x).decls.Filled id := by
  obtain ⟨a', s', -, ⟨nodes, decls, supplies⟩, eq⟩ | ⟨e, error, -⟩ := runCheck_spec target (h (start ds))
  · rw [eq]
    exact ⟨nodes, decls, fun id hid => supplies id (.inr hid)⟩
  · rw [error] at ok
    cases ok

/-- Success leaves nothing untyped. Whatever the slots of nodes and declarations held before, a check
that succeeds leaves every expression and predicate of its trees with a concrete type, every declaration
with a concrete type or none, and every declaration that the trees mention with one, unless they mention
it under operators without operands only. After the check of a machine all declarations that it lists have
types, so its report is complete and all types in it are concrete. -/
theorem success_leaves_nothing_untyped :
    (∀ ds e, (checkExpression ds e).Complete (fun e => [.expr e]) e) ∧
    (∀ ds p, (checkPredicate ds p).Complete (fun p => [.pred p]) p) ∧
    (∀ ds implicit f, (checkFormula ds implicit f).Complete (fun f => [f.root]) f) ∧
    (∀ ds implicit f, (checkLtl ds implicit f).Complete (fun f => [.ltl f]) f) ∧
    (∀ m, (checkMachine m).Complete Machine.roots m) ∧
    ∀ m, (checkMachine m).verdict = .ok () →
      (∀ id ∈ m.listed, (checkMachine m).decls.Filled id) ∧
      (Report.ofMachine (checkMachine m).tree).isComplete = true ∧
      ∀ n ∈ (Report.ofMachine (checkMachine m).tree).names, ∃ t, n.ty = some t ∧ t.isConcrete = true := by
  have one {n : Node} {id : Nat} (h : ∃ r ∈ [n], r.Refers id) : id ∈ n.refs := by
    obtain ⟨r, hr, h⟩ := h
    rwa [List.mem_singleton.1 hr] at h
  refine ⟨fun ds e a ok => ?_, fun ds p a ok => ?_, fun ds implicit f a ok => ?_,
    fun ds implicit f a ok => ?_, fun m a ok => ?_, fun m ok => ?_⟩
  · obtain ⟨nodes, decls, filled⟩ := (e.annotates_checkRoot []).complete .expression ok
    exact ⟨nodes, decls, fun r hr id h => filled id (one ⟨r, hr, h⟩)⟩
  · obtain ⟨nodes, decls, filled⟩ := (p.annotates_checkRoot []).complete .predicate ok
    exact ⟨nodes, decls, fun r hr id h => filled id (one ⟨r, hr, h⟩)⟩
  · obtain ⟨nodes, decls, filled⟩ := (Annotates.bind (Step.supplies_redeclare implicit) fun _ =>
      f.annotates_checkRoot implicit).complete .formula ok
    exact ⟨nodes, decls, fun r hr id h => filled id (.inr (one ⟨r, hr, h⟩))⟩
  · obtain ⟨nodes, decls, filled⟩ := (Annotates.bind (Step.supplies_redeclare implicit) fun _ =>
      f.annotates_check).complete .ltlFormula ok
    exact ⟨nodes, decls, fun r hr id h => filled id (.inr (one ⟨r, hr, h⟩))⟩
  · obtain ⟨nodes, decls, filled⟩ :=
      (Machine.annotates_checkClauses (m := m)).complete (.machine m.name) ok
    exact ⟨nodes, decls, fun r hr id h => filled id (.inr ⟨r, hr, h⟩)⟩
  · obtain ⟨-, decls, filled⟩ := (Machine.annotates_checkClauses (m := m)).complete (.machine m.name) ok
    have lists : (checkMachine m).tree.listed = m.listed := by
      obtain ⟨_, s', -, same, -⟩ | ⟨e, error, -⟩ := runCheck_spec (.machine m.name)
        (Machine.leaves_checkClauses (m := m) (start m.decls))
      · exact same
      · cases error.symm.trans ok
    have listed (id : Nat) (hid : id ∈ m.listed) := filled id (.inl hid)
    refine ⟨listed, Machine.report_complete (fun id hid => listed id ?_) decls⟩
    rwa [lists] at hid

/-- A machine with a set, an element, a deferred set, a constant, a variable and an operation, all
nodes of which have got a type already that means nothing. -/
def Machine.sampleStale : Machine :=
  let note : Note := ⟨none, some (.var 7)⟩
  let c := Expr.identifier note 3 "c"
  let x := Expr.identifier note 4 "x"
  let natural (e : Expr) := Pred.comparison note .elementOf [e, .apply note .natural []]
  { Machine.named "Stale" with
    decls := ⟨#[.named "S", .named "s", .named "D", .named "c", .named "x", .named "n", .named "r"]⟩
    enumerated := [⟨0, [1]⟩]
    deferred := [2]
    constants := [3]
    vars := [4]
    properties := some (natural c)
    invariant := some (natural x)
    initialisation := some (.assign none [x] [c])
    operations := [⟨"lower", [5], [6], .assign none [x, .identifier note 6 "r"]
      [.apply note .minus [x, .identifier note 5 "n"], x], none⟩] }

/-- The check of the machine succeeds, so its report is complete. -/
theorem success_leaves_nothing_untyped_sampleStale :
    (checkMachine .sampleStale).verdict = .ok () ∧
      NothingUntyped Machine.sampleStale.roots (checkMachine .sampleStale).tree.roots
        (checkMachine .sampleStale).decls ∧
      (Report.ofMachine (checkMachine .sampleStale).tree).isComplete = true := by
  obtain ⟨_, ok⟩ : ∃ t, (checkMachine .sampleStale).verdict = .ok t :=
    Checked.isOk_iff.1 (by decide +kernel)
  obtain ⟨-, -, -, -, complete, report⟩ := success_leaves_nothing_untyped
  exact ⟨ok, complete _ () ok, (report _ ok).2.1⟩

end BMethod
