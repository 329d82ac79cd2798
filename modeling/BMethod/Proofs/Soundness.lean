import BMethod.Proofs.Typing.Check

/-!
# Soundness of inference

A check that succeeds leaves a tree in which every node has a concrete type and obeys the rule of its
kind, for the types that the declarations have been given. Differences and products are read by then:
what is still called a difference or product is one of integers.
-/

namespace BMethod

open State

/-! ## Well-typed trees. -/

namespace Declarations

/-- All slots are empty or concrete. -/
def Concrete (ds : Declarations) : Prop := ∀ id t, ds.ty? id = some t → t.isConcrete = true

/-- Which declarations exist, and their types up to names of sets. -/
def context (ds : Declarations) : Context :=
  ⟨fun id => (ds.get? id).isSome, fun id => (ds.ty? id).map Ty.canon⟩

/-- The rules, read with the types of the declarations, types being equal if they are the same. -/
def view (ds : Declarations) (scope : Scope) : View :=
  ⟨Operator.HasType, ds.context, scope, Ty.canon⟩

end Declarations

/-- All nodes of the trees have concrete types and obey their rules. -/
structure WellTyped (ds : Declarations) (scope : Scope) (roots : List Node) : Prop where
  filled : ∀ n ∈ roots.flatMap Node.preorder, n.hasSlot = true →
    ∃ t, n.slot = some t ∧ t.isConcrete = true
  obeys : ∀ n ∈ roots.flatMap Node.preorder, n.Obeys (ds.view scope)

/-! ## From a walk to its conclusion. -/

/-- What concluding does to slots. -/
lemma Node.slot_stamp (s : Store) (n : Node) :
    (n.restamp s.stamp).slot = n.slot >>= s.resolve? := by
  cases n with
  | expr e =>
    show (e.restamp s.stamp).note.ty = _
    rw [Expr.note_restamp]
    rfl
  | pred p =>
    show (p.restamp s.stamp).note.ty = _
    rw [Pred.note_restamp]
    rfl
  | substitution | ltl => rfl

lemma Node.flatMap_preorder_restamp (f : Stamp) (ns : List Node) :
    (ns.map (Node.restamp f)).flatMap Node.preorder = (ns.flatMap Node.preorder).map (Node.restamp f) := by
  rw [List.flatMap_map, List.map_flatMap]
  exact List.flatMap_congr fun n _ => n.preorder_restamp f

/-- Trees of which all slots are known are full. -/
lemma State.AllKnown.full {s : State} {ns : List Node} (all : s.AllKnown ns) : ∀ n ∈ ns, n.Full := by
  intro n hn m hm slotted
  obtain ⟨t, ht, -⟩ := all.1 n hn m hm slotted
  exact ⟨t, ht⟩

/-- An operator that has been read by its type has one type only. -/
lemma Operator.hasType_reread {op : Operator} {ts : List Ty} {t : Ty}
    (h : op.MayHaveType ts t.canon) : ((op.reread? t).getD op).HasType ts t.canon := by
  obtain ⟨op', reads, h⟩ := h
  cases reads with
  | self =>
    cases op with
    | minus =>
      cases t with
      | set elem => simp [HasType, Ty.canon, Ty.eval] at h
      | _ => exact h
    | mult =>
      cases t with
      | set elem => simp [HasType, Ty.canon, Ty.eval] at h
      | _ => exact h
    | _ => exact h
  | difference =>
    cases t with
    | set elem => exact h
    | _ => simp [HasType, Ty.canon, Ty.eval] at h
  | product =>
    cases t with
    | set elem => exact h
    | _ => simp [HasType, Ty.canon, Ty.eval, Ty.relation] at h

/-- The world of a model. -/
def State.world (s : State) (c : Choice) : World :=
  ⟨s.unifier.store.model c, fun id => (s.decls.ty? id).map (Ty.eval (s.unifier.store.model c))⟩

variable {known : Nat → Bool} {scope : Scope} {s s' : State}

lemma State.Inv.models_world (inv : s.Inv known) (c : Choice) : (s.world c).Models s where
  unifier := inv.settled.holds_model inv.unifier c
  types id t h := by simp [world, h]

/-- A known type has its resolved form as value in every world. -/
lemma State.Inv.canon_eq (inv : s.Inv known) {w : World} (hw : w.Models s) {t u : Ty}
    (ht : t.Scoped s.vars) (h : s.unifier.store.resolve? t = some u) (hu : u.isConcrete = true) :
    u.canon = t.eval w.value :=
  hw.unifier.1.canon_of_resolve? inv.unifier.wellFormed ht h hu

/-- Settled declarations have the types of the world of a model. -/
lemma State.Settled.context (settled : s.Settled s') (inv : s.Inv known)
    (all : s.decls.AllKnown s.unifier.store) (c : Choice) :
    s'.decls.context = (s.world c).context known := by
  have exist : (fun id => (s'.decls.get? id).isSome) = known := by
    funext id
    rw [settled, Declarations.get?_settle, Option.isSome_map, inv.known]
  have types : (fun id => (s'.decls.ty? id).map Ty.canon) = (s.world c).type? := by
    funext id
    rw [settled, Declarations.ty?_settle]
    cases ht : s.decls.ty? id with
    | none => simp [world, ht]
    | some t =>
      obtain ⟨u, hu, hc⟩ := all id t ht
      have value := inv.canon_eq (inv.models_world c) (inv.scope id t ht) hu hc
      simpa [hu, world, ht] using value
  rw [Declarations.context, exist, types]
  rfl

/-- Concluded slots have the values of the world of a model. -/
lemma Walked.value?_stamp {s₀ : State} {ns : List Node} (walked : Walked known scope s₀ ns s)
    (all : s.AllKnown ns) (c : Choice) {m : Node} (hm : m ∈ ns.flatMap Node.preorder)
    (ds : Declarations) :
    (ds.view scope).value? (m.restamp s.unifier.store.stamp) =
      ((s.world c).view known scope).value? m := by
  have inv := walked.steps.inv
  rw [View.value?, Node.slot_stamp, View.value?]
  cases ht : m.slot with
  | none => rfl
  | some t =>
    obtain ⟨root, hr, hn⟩ := List.mem_flatMap.1 hm
    obtain ⟨t', ht', u, hu, hc⟩ := all.1 root hr m hn (Node.hasSlot_of_slot ht)
    rw [ht] at ht'
    cases ht'
    have value := inv.canon_eq (inv.models_world c) (walked.within m hm t ht) hu hc
    simpa [hu, Declarations.view, World.view] using value

/-- A walk after which all slots are known leaves well-typed trees. -/
theorem Walked.wellTyped {s₀ : State} {ns : List Node} (walked : Walked known scope s₀ ns s)
    (all : s.AllKnown ns) (settled : s.Settled s') :
    WellTyped s'.decls scope (ns.map (Node.restamp s.unifier.store.stamp)) := by
  have inv := walked.steps.inv
  have slots {n : Node} (hn : n ∈ ns.flatMap Node.preorder) (slotted : n.hasSlot = true) :
      ∃ t, n.slot = some t ∧ s.unifier.store.Knows t := by
    obtain ⟨root, hr, hn⟩ := List.mem_flatMap.1 hn
    exact all.1 root hr n hn slotted
  refine ⟨fun m hm => ?_, fun m hm => ?_⟩
  · rw [Node.flatMap_preorder_restamp] at hm
    obtain ⟨n, hn, rfl⟩ := List.mem_map.1 hm
    intro slotted
    rw [Node.hasSlot_restamp] at slotted
    obtain ⟨t, ht, u, hu, hc⟩ := slots hn slotted
    exact ⟨u, by simp [Node.slot_stamp, ht, hu], hc⟩
  · rw [Node.flatMap_preorder_restamp] at hm
    obtain ⟨n, hn, rfl⟩ := List.mem_map.1 hm
    refine (walked.obeys _ (inv.models_world .integers) all.full n hn).restamp
      (settled.context inv all.2 .integers) rfl (fun m op args ts t eq type value => ?_) fun m hm => ?_
    · -- The slot of the operator is known, and the value of its type is the type it is read by.
      subst eq
      obtain ⟨t', ht', u, hu, hc⟩ := slots hn rfl
      have canon := inv.canon_eq (inv.models_world .integers) (walked.within _ hn t' ht') hu hc
      have ht' : m.ty = some t' := ht'
      rw [ht', Option.map_some, Option.some.injEq] at value
      have same : u.canon = t := canon.trans value
      subst same
      have op : s.unifier.store.stamp.op m op = (op.reread? u).getD op := by
        simp [Store.stamp, ht', hu]
      rw [op]
      exact Operator.hasType_reread type
    · refine walked.value?_stamp all .integers ?_ _
      obtain rfl | hm := List.mem_cons.1 hm
      · exact hn
      · obtain ⟨root, hr, hn⟩ := List.mem_flatMap.1 hn
        exact List.mem_flatMap.2 ⟨root, hr, Node.mem_preorder_of_child hn hm⟩

/-! ## The checks. -/

/-- A check that succeeds leaves well-typed trees. -/
def Checked.Sound {τ α : Type} (scope : Scope) (roots : τ → List Node) (c : Checked τ α) : Prop :=
  ∀ a, c.verdict = .ok a → WellTyped c.decls scope (roots c.tree)

/-- The tree of a formula. -/
def Formula.root : Formula → Node
  | .expr e => .expr e
  | .pred p => .pred p

lemma runCheck_sound {τ α : Type} {target : Target} {ds : Declarations}
    {walk : CheckM (Visited τ α)} {roots : τ → List Node}
    (h : Ensures walk (start ds) (fun tree _ s' => WellTyped s'.decls scope (roots tree)) Proper) :
    (runCheck target ds walk).Sound scope roots := by
  intro a ok
  obtain ⟨a', s', -, typed, decls⟩ | ⟨e, error, -⟩ := runCheck_spec target h
  · rwa [decls]
  · rw [error] at ok
    cases ok

lemma Expr.checkRoot_sound {e : Expr} (blank : (Node.expr e).Blank) (inv : s.Inv known)
    (implicit : List Nat) :
    Ensures (e.checkRoot implicit) s (fun e' _ s' => WellTyped s'.decls .empty [.expr e']) Proper := by
  refine Expr.ensures_checkRoot known ((e.sound known .empty _ (.var s.vars) inv.fresh.inv
    (by simp [Ty.Scoped]) blank).mono fun e' t s₁ typed => ?_)
  exact ⟨typed.walked.steps.inv, typed.slot, typed.within,
    fun all u s' settled _ => typed.walked.wellTyped all settled, fun _ _ h => by cases h⟩

lemma Pred.checkRoot_sound {p : Pred} (blank : (Node.pred p).Blank) (inv : s.Inv known)
    (implicit : List Nat) :
    Ensures (p.checkRoot implicit) s (fun p' _ s' => WellTyped s'.decls .empty [.pred p']) Proper := by
  refine Pred.ensures_checkRoot known ((p.sound known .empty s inv blank).mono
    fun p' t s₁ typed => ?_)
  exact ⟨typed.walked.steps.inv, typed.slot,
    fun all u s' settled _ => typed.walked.wellTyped all settled, fun _ _ => nofun⟩

/-- Inference is sound. If the slots of a tree are empty and those of its declarations are empty or
concrete, then a check that succeeds leaves a tree in which every node has a concrete type and obeys
the rule of its kind: an expression, a predicate, a formula, a temporal formula, and a machine that
takes over no variables from others. -/
theorem inference_sound {ds : Declarations} (concrete : ds.Concrete) :
    (∀ e, (Node.expr e).Blank → (checkExpression ds e).Sound .empty fun e => [.expr e]) ∧
    (∀ p, (Node.pred p).Blank → (checkPredicate ds p).Sound .empty fun p => [.pred p]) ∧
    (∀ implicit f, f.root.Blank → (checkFormula ds implicit f).Sound .empty fun f => [f.root]) ∧
    (∀ implicit f, (Node.ltl f).Blank → (checkLtl ds implicit f).Sound .empty fun f => [.ltl f]) ∧
    (∀ m : Machine, m.decls = ds → m.included = [] → (∀ n ∈ m.roots, n.Blank) →
      (checkMachine m).Sound m.scope Machine.roots) := by
  have inv := inv_start concrete
  refine ⟨fun e blank => ?_, fun p blank => ?_, fun implicit f blank => ?_,
    fun implicit f blank => ?_, fun m eq none blank => ?_⟩
  · exact runCheck_sound (e.checkRoot_sound blank inv [])
  · exact runCheck_sound (p.checkRoot_sound blank inv [])
  · have inv := keeps_redeclare implicit _ inv
    refine runCheck_sound (ensures_bind ?_)
    cases f with
    | expr e =>
      exact ensures_andThen ((e.checkRoot_sound blank inv implicit).mono
        fun _ _ _ typed => ensures_done typed)
    | pred p =>
      exact ensures_andThen ((p.checkRoot_sound blank inv implicit).mono
        fun _ _ _ typed => ensures_done typed)
  · have inv := keeps_redeclare implicit _ inv
    refine runCheck_sound (ensures_bind (ensures_andThen ((Ltl.sound .empty inv blank).mono
      fun f' _ s₁ walked => ?_)))
    exact ensures_conclude walked.steps.inv (Node.swept s₁.unifier (.ltl f'))
      (fun hn hd s' settled => walked.wellTyped ⟨by simpa using hn, hd⟩ settled) fun _ _ => nofun
  · subst eq
    suffices (runCheck (.machine m.name) m.decls m.checkClauses).Sound m.scope Machine.roots from this
    refine runCheck_sound (Machine.checkClauses_sound none blank inv fun m' s₀ s' walked => ?_)
    refine ensures_conclude walked.steps.inv (m'.swept s'.unifier) (fun hn hd s'' settled => ?_)
      fun _ _ => nofun
    rw [Machine.roots_restamp]
    exact walked.wellTyped ⟨hn, hd⟩ settled

/-- A machine with a natural number that one operation lowers by its argument, which has no declared
type, and another lowers by two through a call. -/
def Machine.countdown : Machine :=
  let note : Note := ⟨none, none⟩
  let x := Expr.identifier note 0 "x"
  { Machine.named "Countdown" with
    decls := ⟨#[.named "x", .named "n"]⟩
    vars := [0]
    invariant := some (.comparison note .elementOf [x, .apply note .natural []])
    initialisation := some (.assign none [x] [.integer note 10])
    operations :=
      [⟨"lower", [1], [], .assign none [x] [.apply note .minus [x, .identifier note 1 "n"]], none⟩,
        ⟨"step", [], [], .call none "lower" (.own 0) [.integer note 2] [], none⟩] }

/-- The check of the machine succeeds, so it leaves a well-typed machine. -/
theorem inference_sound_countdown :
    (checkMachine .countdown).verdict = .ok () ∧
      WellTyped (checkMachine .countdown).decls Machine.countdown.scope
        (checkMachine .countdown).tree.roots := by
  have concrete : Machine.countdown.decls.Concrete := by
    rintro (_ | _ | id) t h <;> simp [Machine.countdown, Declarations.ty?, Declarations.get?,
      Declaration.named] at h
  have blank : ∀ n ∈ Machine.countdown.roots, n.Blank := by
    simp only [Node.Blank]
    decide
  obtain ⟨_, accepted⟩ : ∃ t, (checkMachine .countdown).verdict = .ok t :=
    Checked.isOk_iff.1 (by decide +kernel)
  exact ⟨accepted, (inference_sound concrete).2.2.2.2 _ rfl rfl blank () accepted⟩

end BMethod
