import BMethod.Proofs.Typing.Check
import BMethod.Proofs.Typing.Sound.Machine

/-!
# Declarations that get types

A walk that succeeds has given a type to every declaration that it came across: those that the nodes
of the tree mention, but for what is written under operators without operands, which is not looked at.
It never takes a type away. Both hold from every state, whatever the slots of nodes and declarations
hold, and whatever the unifier is like.

The sets of declarations are put together along the walk, as the walk is from its steps.
-/

namespace BMethod

open State

/-! ## Filled slots. -/

/-- The declaration has a type, or there is no such declaration. -/
def Declarations.Filled (ds : Declarations) (id : Nat) : Prop :=
  ∀ d, ds.get? id = some d → ∃ t, d.ty = some t

lemma Declarations.filled_of_ty? {ds : Declarations} {id : Nat} {t : Ty} (h : ds.ty? id = some t) :
    ds.Filled id := by
  intro d hd
  rw [ty?_eq hd] at h
  exact ⟨t, h⟩

/-- Filling one slot leaves no other empty. -/
lemma Declarations.filled_setTy {ds : Declarations} {id i : Nat} (t : Ty)
    (h : ds.Filled i ∨ id = i) : (ds.setTy id (some t)).Filled i := by
  intro d hd
  rw [get?_setTy] at hd
  split at hd
  · obtain ⟨d', -, rfl⟩ := Option.map_eq_some_iff.1 hd
    exact ⟨t, rfl⟩
  · rename_i ne
    exact (h.resolve_right ne) d hd

/-- No slot has been emptied, and those of the given declarations have been filled. -/
def State.Supplies (M : Set Nat) (s s' : State) : Prop :=
  ∀ id, s.decls.Filled id ∨ id ∈ M → s'.decls.Filled id

section

variable {s s' s'' : State} {M N : Set Nat}

lemma State.Supplies.trans (h : s.Supplies M s') (h' : s'.Supplies N s'') :
    s.Supplies (M ∪ N) s'' := by
  intro id hid
  apply h' id
  obtain hid | hid | hid := hid
  · exact .inl (h id (.inl hid))
  · exact .inl (h id (.inr hid))
  · exact .inr hid

lemma State.Supplies.mono (h : s.Supplies M s') (le : N ⊆ M) : s.Supplies N s' :=
  fun _ hid => h _ (hid.imp_right (@le _))

/-- A state with the same declarations. -/
lemma State.supplies_of_decls (h : s'.decls = s.decls) : s.Supplies ∅ s' := by
  intro id hid
  rw [h]
  exact hid.resolve_right (Set.notMem_empty id)

lemma State.supplies_setTy {id : Nat} {t : Ty} (h : s'.decls = s.decls.setTy id (some t)) :
    s.Supplies {id} s' := by
  intro i hi
  rw [h]
  exact Declarations.filled_setTy t (hi.imp_right Eq.symm)

end

/-! ## Walks. -/

/-- The computation fills the slots of the given declarations. -/
def Step.Supplies {α : Type} (M : Set Nat) (x : CheckM α) : Prop := ∀ s : State, s.Supplies M (x s).2

/-- If the walk succeeds, it has filled the slots of the given declarations. -/
def Walk.Supplies {ν α : Type} (M : Set Nat) (x : CheckM (Visited ν α)) : Prop :=
  ∀ s : State, Ensures x s (fun _ _ s' => s.Supplies M s') fun _ => True

section

variable {α β ν π : Type} {M N : Set Nat}

lemma Step.supplies_pure (a : α) : Step.Supplies ∅ (pure a : CheckM α) :=
  fun _ => supplies_of_decls rfl

lemma Step.Supplies.bind {x : CheckM α} {f : α → CheckM β} (hx : Step.Supplies M x)
    (hf : ∀ a, Step.Supplies N (f a)) : Step.Supplies (M ∪ N) (x >>= f) :=
  fun s => (hx s).trans (hf _ _)

lemma Step.Supplies.mono {x : CheckM α} (h : Step.Supplies M x) (le : N ⊆ M) : Step.Supplies N x :=
  fun s => (h s).mono le

/-- Two steps that fill nothing in particular. -/
lemma Step.Supplies.bindIdle {x : CheckM α} {f : α → CheckM β} (hx : Step.Supplies ∅ x)
    (hf : ∀ a, Step.Supplies ∅ (f a)) : Step.Supplies ∅ (x >>= f) :=
  (hx.bind hf).mono (Set.empty_subset _)

lemma Step.supplies_get : Step.Supplies ∅ (get : CheckM State) := fun _ => supplies_of_decls rfl

namespace Walk

lemma supplies_done (n : ν) (a : α) : Walk.Supplies ∅ (CheckM.done n a) :=
  fun _ => ensures_done (supplies_of_decls rfl)

lemma supplies_fail (n : ν) (e : TypeError) :
    Walk.Supplies M (CheckM.fail n e : CheckM (Visited ν α)) := fun _ => ensures_fail trivial

lemma Supplies.mono {x : CheckM (Visited ν α)} (h : Walk.Supplies M x) (le : N ⊆ M) :
    Walk.Supplies N x := fun s => (h s).mono fun _ _ _ h => h.mono le

lemma Supplies.bind {x : CheckM α} {f : α → CheckM (Visited ν β)} (hx : Step.Supplies M x)
    (hf : ∀ a, Walk.Supplies N (f a)) : Walk.Supplies (M ∪ N) (x >>= f) :=
  fun s => ensures_bind ((hf _ _).mono fun _ _ _ h => (hx s).trans h)

/-- A walk through a part and then on with the whole. -/
lemma Supplies.andThen {part : CheckM (Visited π α)} {whole : π → ν}
    {next : π → α → CheckM (Visited ν β)} (h : Walk.Supplies M part)
    (h' : ∀ p a, Walk.Supplies N (next p a)) : Walk.Supplies (M ∪ N) (part.andThen whole next) :=
  fun s => ensures_andThen ((h s).mono fun _ _ s' first =>
    (h' _ _ s').mono fun _ _ _ rest => first.trans rest)

/-- A step and then on with the walk. -/
lemma Supplies.orFail {step : CheckM (Verdict α)} {n : ν} {next : α → CheckM (Visited ν β)}
    (h : Step.Supplies M step) (h' : ∀ a, Walk.Supplies N (next a)) :
    Walk.Supplies (M ∪ N) (step.orFail n next) := by
  intro s
  apply ensures_orFail
  have first := h s
  rw [Concludes]
  revert first
  obtain ⟨_ | a, s'⟩ := step s
  · exact fun _ => trivial
  · exact fun first => (h' a s').mono fun _ _ _ rest => first.trans rest

end Walk

/-! ## Steps. -/

lemma Step.supplies_allocate (c : Cell) : Step.Supplies ∅ (allocate c) :=
  fun _ => supplies_of_decls rfl

lemma Step.supplies_fresh : Step.Supplies ∅ fresh := supplies_allocate .free

lemma Step.supplies_freshList (n : Nat) : Step.Supplies ∅ (freshList n) := by
  induction n with
  | zero => exact supplies_pure []
  | succ n ih =>
    exact supplies_fresh.bindIdle fun t => ih.bindIdle fun ts => supplies_pure (t :: ts)

lemma Step.supplies_report (e : Event) : Step.Supplies ∅ (report e) :=
  fun _ => supplies_of_decls rfl

lemma Step.supplies_resolve (t : Ty) : Step.Supplies ∅ (resolve t) := by
  refine supplies_get.bindIdle fun s => ?_
  cases s.unifier.store.resolve? t with
  | none => exact supplies_pure _
  | some u => exact supplies_pure _

lemma Step.supplies_mismatch (site : Site) (l r : Ty) (e : Halt UnifyError) :
    Step.Supplies ∅ (mismatch site l r e : CheckM (Verdict α)) := by
  cases e with
  | divergence => exact supplies_pure _
  | error cause =>
    refine (supplies_resolve l).bindIdle fun v => ?_
    cases v with
    | error e => exact supplies_pure _
    | ok l =>
      refine (supplies_resolve r).bindIdle fun v => ?_
      cases v with
      | error e => exact supplies_pure _
      | ok r => exact supplies_pure _

lemma Step.supplies_unifyAt (site : Site) (l r : Ty) : Step.Supplies ∅ (unifyAt site l r) := by
  refine Supplies.bindIdle (fun _ => supplies_of_decls rfl) fun v => ?_
  cases v with
  | ok t => exact supplies_pure _
  | error e => exact supplies_mismatch site l r e

lemma Step.supplies_linkAt (site : Site) (l r : Ty) (link : ProductLink) :
    Step.Supplies ∅ (linkAt site l r link) := by
  refine Supplies.bindIdle (fun _ => supplies_of_decls rfl) fun v => ?_
  cases v with
  | ok t => exact supplies_pure _
  | error e => exact supplies_mismatch site l r e

/-- Looking up the type of a declaration fills its slot. -/
lemma Step.supplies_declaredType (id : Nat) : Step.Supplies {id} (declaredType id) := by
  intro s
  obtain ⟨missing, run⟩ | ⟨t, ht, run⟩ | ⟨-, -, run⟩ := declaredType_cases id s
  · rw [run]
    rintro i (hi | rfl)
    · exact hi
    · intro d hd
      rw [missing] at hd
      cases hd
  · rw [run]
    rintro i (hi | rfl)
    · exact hi
    · exact Declarations.filled_of_ty? ht
  · rw [run]
    exact supplies_setTy rfl

lemma Step.supplies_declaredTypes (ids : List Nat) :
    Step.Supplies {id | id ∈ ids} (declaredTypes ids) := by
  induction ids with
  | nil => exact (supplies_pure []).mono fun _ h => by cases h
  | cons id ids ih =>
    refine ((supplies_declaredType id).bind fun _ => ih.bind fun _ => supplies_pure _).mono ?_
    intro i hi
    cases hi with
    | head => exact .inl rfl
    | tail _ hi => exact .inr (.inl hi)

lemma Step.supplies_declare (ids : List Nat) : Step.Supplies {id | id ∈ ids} (declare ids) :=
  supplies_declaredTypes ids

lemma Step.supplies_declaredOrFresh (id : Nat) : Step.Supplies {id} (declaredOrFresh id) := by
  refine ((supplies_declaredType id).bind (N := ∅) fun t => ?_).mono Set.subset_union_left
  cases t with
  | none => exact supplies_fresh
  | some t => exact supplies_pure _

lemma Step.supplies_identifierType (id : Nat) (name : String) :
    Step.Supplies {id} (identifierType id name) := by
  refine ((supplies_declaredType id).bind (N := ∅) fun t => ?_).mono Set.subset_union_left
  cases t with
  | none =>
    exact (supplies_report _).bindIdle fun _ => supplies_fresh
  | some t => exact supplies_pure _

lemma Step.supplies_boundTuple (site : Site) (bound : List Nat) :
    Step.Supplies ∅ (boundTuple site bound) := by
  refine ((supplies_declaredTypes bound).bind (N := ∅) fun ts => ?_).mono (Set.empty_subset _)
  cases Ty.tuple? ts with
  | none => exact supplies_pure _
  | some t => exact supplies_pure _

lemma Step.supplies_requireConcrete (what : Subject) (ids : List Nat) :
    Step.Supplies ∅ (requireConcrete what ids) := by
  induction ids with
  | nil => exact supplies_pure _
  | cons id ids ih =>
    refine supplies_get.bindIdle fun s => ?_
    split
    · refine (supplies_resolve _).bindIdle fun v => ?_
      cases v with
      | error e => exact supplies_pure _
      | ok t =>
        simp only
        split
        · exact ih
        · exact supplies_pure _
    · exact ih

lemma Walk.supplies_settleExpr (e : Expr) (expected found : Ty) :
    Walk.Supplies ∅ (e.settle expected found) :=
  (Supplies.orFail (Step.supplies_unifyAt _ _ _) fun _ => supplies_done _ _).mono (Set.empty_subset _)

lemma Walk.supplies_settlePred (p : Pred) (expected found : Ty) :
    Walk.Supplies ∅ (p.settle expected found) :=
  (Supplies.orFail (Step.supplies_unifyAt _ _ _) fun _ => supplies_done _ _).mono (Set.empty_subset _)

end

/-! ## What a tree mentions. -/

/-- Whether the operator stands for itself: what is written under it as operands is not looked at. -/
def Operator.isNullary (op : Operator) : Bool :=
  match op.rule with
  | .constant .. => true
  | _ => false

/-- The declarations that a substitution binds. -/
def Substitution.bound : Substitution → List Nat
  | .any _ bound _ _ | .letIn _ bound _ _ | .var _ bound _ => bound
  | _ => []

namespace Node

/-- The declarations that the node itself mentions: by an identifier, a list of binders or the fields
of a record. -/
def names : Node → List Nat
  | .substitution σ => σ.bound
  | n => n.mentions

/-- The parts of a node but for operands of an operator that has none. -/
def looked : Node → List Node
  | .expr (.apply _ op args) => if op.isNullary then [] else args.map .expr
  | n => n.children

/-- The tree mentions the declaration, and not under an operator that has no operands. -/
inductive Refers : Node → Nat → Prop
  | root {n : Node} {id : Nat} : id ∈ n.names → n.Refers id
  | part {n c : Node} {id : Nat} : c ∈ n.looked → c.Refers id → n.Refers id

/-- The declarations that the tree mentions. -/
def refs (n : Node) : Set Nat := {id | n.Refers id}

/-- The declarations that the trees mention. -/
def refsAll (ns : List Node) : Set Nat := {id | ∃ n ∈ ns, n.Refers id}

@[simp] lemma refsAll_nil : refsAll [] = ∅ := by simp [refsAll]

@[simp] lemma refsAll_cons (n : Node) (ns : List Node) : refsAll (n :: ns) = n.refs ∪ refsAll ns := by
  ext id
  simp [refsAll, refs]

@[simp] lemma refsAll_append (ns ms : List Node) :
    refsAll (ns ++ ms) = refsAll ns ∪ refsAll ms := by
  induction ns with
  | nil => simp
  | cons n ns ih => simp [ih, Set.union_assoc]

lemma refs_eq (n : Node) : n.refs = {id | id ∈ n.names} ∪ refsAll n.looked := by
  ext id
  constructor
  · intro h
    cases h with
    | root h => exact .inl h
    | part hc h => exact .inr ⟨_, hc, h⟩
  · rintro (h | ⟨c, hc, h⟩)
    · exact .root h
    · exact .part hc h

/-- Walking through the node fills the slots of the declarations that the tree mentions. -/
def Supplies : Node → Prop
  | .expr e => ∀ expected, Walk.Supplies (Node.expr e).refs (e.check expected)
  | .pred p => ∀ expected, Walk.Supplies (Node.pred p).refs (p.check expected)
  | .substitution σ => ∀ scope, Walk.Supplies (Node.substitution σ).refs (σ.check scope)
  | .ltl f => Walk.Supplies (Node.ltl f).refs f.check

end Node

/-! ## Operators. -/

section

variable {n : Note} {op : Operator} {args : List Expr} {expected : Ty} {M : Set Nat}

/-- Walks through the operands that fill the slots of the given declarations if no operand is left
out. -/
structure OperandWalks.Supply (args : List Expr) (M : Set Nat) (walks : OperandWalks) : Prop where
  forward : ∀ ts, args.length = ts.length → Walk.Supplies M (walks.forward ts)
  backward : ∀ ts, args.length = ts.length → Walk.Supplies M (walks.backward ts)
  chain : ∀ t, Walk.Supplies M (walks.chain t)
  apart : Walk.Supplies M walks.apart
  call : ∀ t, Walk.Supplies M (walks.call t)

variable {walks : OperandWalks}

lemma Expr.supplies_withOperands {α : Type} {count : Nat} {walk : CheckM (Visited (List Expr) α)}
    {next : List Expr → α → CheckM (Visited Expr Ty)} (h : args.length = count → Walk.Supplies M walk)
    (h' : ∀ args a, Walk.Supplies ∅ (next args a)) :
    Walk.Supplies M (withOperands n op args count walk next) := by
  rw [withOperands]
  split
  · rename_i len
    exact ((h len).andThen h').mono Set.subset_union_left
  · exact Walk.supplies_fail _ _

lemma Expr.supplies_resultFirst {result : Ty} {count : Nat}
    {walk : Ty → CheckM (Visited (List Expr) Unit)}
    (h : args.length = count → ∀ t, Walk.Supplies M (walk t)) :
    Walk.Supplies M (resultFirst n op args expected result count walk) :=
  (Walk.Supplies.orFail (Step.supplies_unifyAt _ _ _) fun t =>
    supplies_withOperands (fun len => h len t) fun _ _ => Walk.supplies_done _ _).mono
      Set.subset_union_right

lemma Signature.supplies_check (sig : Signature) (h : walks.Supply args M) :
    Walk.Supplies M (sig.check n op args expected walks) := by
  refine (Walk.Supplies.bind (N := M) (Step.supplies_freshList _) fun ps => ?_).mono
    Set.subset_union_right
  have operands (len : args.length = sig.operands.length) (t : Ty) :
      args.length = (sig.operands.map (Shape.instantiate ps t)).length := by
    rw [len, List.length_map]
  cases sig.order with
  | forward => exact Expr.supplies_resultFirst fun len t => h.forward _ (operands len t)
  | backward => exact Expr.supplies_resultFirst fun len t => h.backward _ (operands len t)
  | inward =>
    exact Expr.supplies_withOperands (fun len => h.forward _ (operands len expected)) fun _ _ =>
      Walk.supplies_settleExpr _ _ _

lemma Rule.supplies_checkDifference (h : walks.Supply args M) :
    Walk.Supplies M (checkDifference n op args expected walks) := by
  refine (Walk.Supplies.bind Step.supplies_fresh fun _ =>
    Walk.Supplies.bind (N := M) (Step.supplies_allocate _) fun _ => ?_).mono (by simp)
  exact Expr.supplies_resultFirst fun len t => h.forward [t, t] len

lemma Rule.supplies_checkProduct (h : walks.Supply args M) :
    Walk.Supplies M (checkProduct n op args expected walks) := by
  refine (Walk.Supplies.bind Step.supplies_fresh fun _ => Walk.Supplies.bind Step.supplies_fresh fun _ =>
    Walk.Supplies.bind (Step.supplies_allocate _) fun _ =>
      Walk.Supplies.orFail (Step.supplies_unifyAt _ _ _) fun _ =>
        Walk.Supplies.bind (Step.supplies_allocate _) fun left =>
          Walk.Supplies.bind (Step.supplies_allocate _) fun right =>
            Walk.Supplies.orFail (N := M) (Step.supplies_linkAt _ _ _ _) fun _ => ?_).mono (by simp)
  exact Expr.supplies_withOperands (fun len => h.forward [left, right] len) fun _ _ =>
    Walk.supplies_done _ _

lemma Rule.supplies_checkPair (h : walks.Supply args M) :
    Walk.Supplies M (checkPair n op args expected walks) := by
  refine Expr.supplies_withOperands (fun _ => h.apart) fun args ts => ?_
  cases Ty.tuple? ts with
  | none => exact Walk.supplies_fail _ _
  | some t => exact Walk.supplies_settleExpr _ _ _

lemma Rule.supplies_checkEnumeration (shape : Shape) (h : walks.Supply args M) :
    Walk.Supplies M (checkEnumeration n op args expected walks shape) :=
  (Walk.Supplies.bind Step.supplies_fresh fun _ =>
    Walk.Supplies.orFail (Step.supplies_unifyAt _ _ _) fun _ =>
      (h.chain _).andThen fun _ _ => Walk.supplies_done _ _).mono (by simp)

lemma Rule.supplies_checkApplication (h : walks.Supply args M) :
    Walk.Supplies M (checkApplication n op args expected walks) := by
  rw [checkApplication]
  split
  · exact Walk.supplies_fail _ _
  · exact (Walk.Supplies.bind Step.supplies_fresh fun _ => (h.call _).andThen fun _ _ =>
      Walk.supplies_settleExpr _ _ _).mono (by simp)

/-- An operator that has operands fills what the walks through them fill. -/
lemma Operator.supplies_check (h : walks.Supply args M) :
    Walk.Supplies (if op.isNullary then ∅ else M) (op.check n args expected walks) := by
  rw [check, isNullary]
  cases op.rule with
  | fixed sig => exact sig.supplies_check h
  | constant params shape =>
    exact (Walk.Supplies.bind (Step.supplies_freshList _) fun _ =>
      Walk.supplies_settleExpr _ _ _).mono (by simp)
  | difference => exact Rule.supplies_checkDifference h
  | product => exact Rule.supplies_checkProduct h
  | pair => exact Rule.supplies_checkPair h
  | enumeration shape => exact Rule.supplies_checkEnumeration shape h
  | application => exact Rule.supplies_checkApplication h

end

/-! ## Expressions and predicates. -/

namespace Expr

variable {es : List Expr} {fields : List (FieldLabel × Expr)}

lemma supplies_checkForward (h : ∀ e ∈ es, (Node.expr e).Supplies) (ts : List Ty)
    (len : es.length = ts.length) :
    Walk.Supplies (Node.refsAll (es.map .expr)) (checkForward es ts) := by
  induction es generalizing ts with
  | nil => exact (Walk.supplies_done _ _).mono (by simp)
  | cons e es ih =>
    rw [List.forall_mem_cons] at h
    cases ts with
    | nil => cases len
    | cons t ts =>
      rw [checkForward]
      exact ((h.1 t).andThen fun _ _ => (ih h.2 ts (by simpa using len)).andThen fun _ _ =>
        Walk.supplies_done _ _).mono (by simp)

lemma supplies_checkBackward (h : ∀ e ∈ es, (Node.expr e).Supplies) (ts : List Ty)
    (len : es.length = ts.length) :
    Walk.Supplies (Node.refsAll (es.map .expr)) (checkBackward es ts) := by
  induction es generalizing ts with
  | nil => exact (Walk.supplies_done _ _).mono (by simp)
  | cons e es ih =>
    rw [List.forall_mem_cons] at h
    cases ts with
    | nil => cases len
    | cons t ts =>
      rw [checkBackward]
      refine ((ih h.2 ts (by simpa using len)).andThen fun _ _ => (h.1 t).andThen fun _ _ =>
        Walk.supplies_done _ _).mono ?_
      rw [List.map_cons, Node.refsAll_cons, Set.union_empty, Set.union_comm]

lemma supplies_checkChain (h : ∀ e ∈ es, (Node.expr e).Supplies) (t : Ty) :
    Walk.Supplies (Node.refsAll (es.map .expr)) (checkChain es t) := by
  induction es generalizing t with
  | nil => exact (Walk.supplies_done _ _).mono (by simp)
  | cons e es ih =>
    rw [List.forall_mem_cons] at h
    rw [checkChain]
    exact ((h.1 t).andThen fun _ t => (ih h.2 t).andThen fun _ _ => Walk.supplies_done _ _).mono
      (by simp)

lemma supplies_checkApart (h : ∀ e ∈ es, (Node.expr e).Supplies) :
    Walk.Supplies (Node.refsAll (es.map .expr)) (checkApart es) := by
  induction es with
  | nil => exact (Walk.supplies_done _ _).mono (by simp)
  | cons e es ih =>
    rw [List.forall_mem_cons] at h
    rw [checkApart]
    exact (Walk.Supplies.bind Step.supplies_fresh fun t => (h.1 t).andThen fun _ _ =>
      (ih h.2).andThen fun _ _ => Walk.supplies_done _ _).mono (by simp)

lemma supplies_checkCall (h : ∀ e ∈ es, (Node.expr e).Supplies) (site : Site) (t : Ty) :
    Walk.Supplies (Node.refsAll (es.map .expr)) (checkCall site es t) := by
  cases es with
  | nil => exact (Walk.supplies_done _ _).mono (by simp)
  | cons f args =>
    rw [List.forall_mem_cons] at h
    rw [checkCall]
    refine ((supplies_checkApart h.2).andThen (N := (Node.expr f).refs) fun _ ts => ?_).mono ?_
    · cases Ty.tuple? ts with
      | none => exact Walk.supplies_fail _ _
      | some domain =>
        exact ((h.1 _).andThen fun _ _ => Walk.supplies_done _ _).mono (by simp)
    · rw [List.map_cons, Node.refsAll_cons, Set.union_comm]

lemma supplies_checkRecord (h : ∀ f ∈ fields, (Node.expr f.2).Supplies) :
    Walk.Supplies ({id | id ∈ fields.map (·.1.decl)} ∪ Node.refsAll (fields.map (.expr ·.2)))
      (checkRecord fields) := by
  induction fields with
  | nil => exact (Walk.supplies_done _ _).mono (by simp)
  | cons f fields ih =>
    obtain ⟨label, e⟩ := f
    rw [List.forall_mem_cons] at h
    rw [checkRecord]
    refine (Walk.Supplies.bind (Step.supplies_declaredOrFresh _) fun t => (h.1 t).andThen fun _ _ =>
      (ih h.2).andThen fun _ _ => Walk.supplies_done _ _).mono fun id => ?_
    simp only [List.map_cons, Node.refsAll_cons, Set.mem_union, Set.mem_ofPred_eq, List.mem_cons,
      Set.mem_singleton_iff]
    tauto

lemma supplies_checkStruct (h : ∀ f ∈ fields, (Node.expr f.2).Supplies) :
    Walk.Supplies ({id | id ∈ fields.map (·.1.decl)} ∪ Node.refsAll (fields.map (.expr ·.2)))
      (checkStruct fields) := by
  induction fields with
  | nil => exact (Walk.supplies_done _ _).mono (by simp)
  | cons f fields ih =>
    obtain ⟨label, e⟩ := f
    rw [List.forall_mem_cons] at h
    rw [checkStruct]
    refine (Walk.Supplies.bind (Step.supplies_declaredOrFresh _) fun t => (h.1 _).andThen fun _ _ =>
      (ih h.2).andThen fun _ _ => Walk.supplies_done _ _).mono fun id => ?_
    simp only [List.map_cons, Node.refsAll_cons, Set.mem_union, Set.mem_ofPred_eq, List.mem_cons,
      Set.mem_singleton_iff]
    tauto

lemma supplies_checkCompared {op : Comparison} {l r : Expr} (hl : (Node.expr l).Supplies)
    (hr : (Node.expr r).Supplies) :
    Walk.Supplies (Node.refsAll [.expr l, .expr r]) (checkCompared op [l, r]) := by
  cases op with
  | equal | notEqual =>
    refine (Walk.Supplies.bind Step.supplies_fresh fun t => (hr t).andThen fun _ t =>
      (hl t).andThen fun _ _ => Walk.supplies_done _ _).mono ?_
    simp [Set.union_comm]
  | elementOf | notBelonging =>
    exact (Walk.Supplies.bind Step.supplies_fresh fun t => (hl t).andThen fun _ t =>
      (hr _).andThen fun _ _ => Walk.supplies_done _ _).mono (by simp)
  | less | lessEqual | greater | greaterEqual =>
    exact ((hl _).andThen fun _ _ => (hr _).andThen fun _ _ => Walk.supplies_done _ _).mono (by simp)
  | inclusion | nonInclusion | strictInclusion | strictNonInclusion =>
    exact (Walk.Supplies.bind Step.supplies_fresh fun t => (hl _).andThen fun _ t =>
      (hr t).andThen fun _ _ => Walk.supplies_done _ _).mono (by simp)

/-- An expression fills what its declarations and its parts fill. -/
lemma supplies_of_children {e : Expr} (ih : ∀ c ∈ e.children, c.Supplies) :
    (Node.expr e).Supplies := by
  intro expected
  rw [Node.refs_eq]
  cases e with
  | identifier n decl name =>
    exact (Walk.Supplies.bind (Step.supplies_identifierType decl name) fun _ =>
      Walk.supplies_settleExpr _ _ _).mono
        (by simp [Node.names, Node.mentions, mentions, Node.looked, Node.children, children])
  | integer | real | string =>
    exact (Walk.supplies_settleExpr _ _ _).mono
      (by simp [Node.names, Node.mentions, mentions, Node.looked, Node.children, children])
  | apply n op args =>
    have args (a : Expr) (ha : a ∈ args) : (Node.expr a).Supplies :=
      ih _ (List.mem_map.2 ⟨a, ha, rfl⟩)
    rw [check]
    refine (Operator.supplies_check ⟨supplies_checkForward args, supplies_checkBackward args,
      supplies_checkChain args, supplies_checkApart args, supplies_checkCall args _⟩).mono ?_
    cases h : op.isNullary <;> simp [Node.names, Node.mentions, mentions, Node.looked, h]
  | aggregate n op bound pred body =>
    simp only [children, List.forall_mem_cons] at ih
    have type : Step.Supplies ∅ op.type := by
      cases op with
      | sigma | pi => exact Step.supplies_pure _
      | union | inter => exact Step.supplies_fresh.bindIdle fun _ => Step.supplies_pure _
    rw [check]
    exact (Walk.Supplies.bind (Step.supplies_declare bound) fun _ => (ih.1 _).andThen fun _ _ =>
      Walk.Supplies.bind type fun _ => Walk.Supplies.orFail (Step.supplies_unifyAt _ _ _) fun _ =>
        (ih.2.1 _).andThen fun _ _ => Walk.supplies_done _ _).mono
          (by simp [Node.names, Node.mentions, mentions, Node.looked, Node.children, children])
  | comprehension n bound pred =>
    simp only [children, List.forall_mem_cons] at ih
    rw [check]
    exact (Walk.Supplies.bind (Step.supplies_declare bound) fun _ => (ih.1 _).andThen fun _ _ =>
      Walk.Supplies.orFail (Step.supplies_boundTuple _ _) fun _ => Walk.supplies_settleExpr _ _ _).mono
        (by simp [Node.names, Node.mentions, mentions, Node.looked, Node.children, children])
  | lambda n bound pred body =>
    simp only [children, List.forall_mem_cons] at ih
    rw [check]
    exact (Walk.Supplies.bind (Step.supplies_declare bound) fun _ => (ih.1 _).andThen fun _ _ =>
      Walk.Supplies.orFail (Step.supplies_boundTuple _ _) fun _ =>
        Walk.Supplies.bind Step.supplies_fresh fun _ => (ih.2.1 _).andThen fun _ _ =>
          Walk.supplies_settleExpr _ _ _).mono
            (by simp [Node.names, Node.mentions, mentions, Node.looked, Node.children, children])
  | ite n cond yes no =>
    simp only [children, List.forall_mem_cons] at ih
    rw [check]
    exact ((ih.1 _).andThen fun _ _ => Walk.Supplies.bind Step.supplies_fresh fun _ =>
      (ih.2.1 _).andThen fun _ _ => (ih.2.2.1 _).andThen fun _ _ =>
        Walk.supplies_settleExpr _ _ _).mono
          (by simp [Node.names, Node.mentions, mentions, Node.looked, Node.children, children])
  | letIn n bound pred body =>
    simp only [children, List.forall_mem_cons] at ih
    rw [check]
    exact (Walk.Supplies.bind (Step.supplies_declare bound) fun _ => (ih.1 _).andThen fun _ _ =>
      Walk.Supplies.bind Step.supplies_fresh fun _ => (ih.2.1 _).andThen fun _ _ =>
        Walk.supplies_settleExpr _ _ _).mono
          (by simp [Node.names, Node.mentions, mentions, Node.looked, Node.children, children])
  | record n fields =>
    have values (f : FieldLabel × Expr) (hf : f ∈ fields) : (Node.expr f.2).Supplies :=
      ih _ (List.mem_map.2 ⟨f, hf, rfl⟩)
    rw [check]
    exact ((supplies_checkRecord values).andThen fun _ _ => Walk.supplies_settleExpr _ _ _).mono
      Set.subset_union_left
  | struct n fields =>
    have values (f : FieldLabel × Expr) (hf : f ∈ fields) : (Node.expr f.2).Supplies :=
      ih _ (List.mem_map.2 ⟨f, hf, rfl⟩)
    rw [check]
    exact ((supplies_checkStruct values).andThen fun _ _ => Walk.supplies_settleExpr _ _ _).mono
      Set.subset_union_left
  | field n target name =>
    simp only [children, List.forall_mem_cons] at ih
    rw [check]
    refine (Walk.Supplies.bind Step.supplies_fresh fun t => (ih.1 t).andThen fun _ t =>
      Walk.Supplies.bind (N := ∅) Step.supplies_get fun s => ?_).mono
        (by simp [Node.names, Node.mentions, mentions, Node.looked, Node.children, children])
    have unresolved {node : Expr} (t : Ty) (error : Ty → TypeError) :
        Walk.Supplies ∅ ((resolve t).orFail node fun t =>
          (CheckM.fail node (error t) : CheckM (Visited Expr Ty))) :=
      (Walk.Supplies.orFail (N := ∅) (Step.supplies_resolve t) fun _ => Walk.supplies_fail _ _).mono
        (Set.empty_subset _)
    split
    · exact fun _ => trivial
    · split
      · exact Walk.supplies_settleExpr _ _ _
      · exact unresolved _ _
    · exact unresolved _ _
  | bool n pred =>
    simp only [children, List.forall_mem_cons] at ih
    rw [check]
    exact ((ih.1 _).andThen fun _ _ => Walk.supplies_settleExpr _ _ _).mono
      (by simp [Node.names, Node.mentions, mentions, Node.looked, Node.children, children])

end Expr

namespace Pred

lemma supplies_checkAll {ps : List Pred} (h : ∀ p ∈ ps, (Node.pred p).Supplies) :
    Walk.Supplies (Node.refsAll (ps.map .pred)) (checkAll ps) := by
  induction ps with
  | nil => exact (Walk.supplies_done _ _).mono (by simp)
  | cons p ps ih =>
    rw [List.forall_mem_cons] at h
    rw [checkAll]
    exact ((h.1 _).andThen fun _ _ => (ih h.2).andThen fun _ _ => Walk.supplies_done _ _).mono
      (by simp)

/-- A predicate fills what its declarations and its parts fill. -/
lemma supplies_of_children {p : Pred} (ih : ∀ c ∈ p.children, c.Supplies) :
    (Node.pred p).Supplies := by
  intro expected
  rw [Node.refs_eq]
  cases p with
  | connective n op args =>
    have args (a : Pred) (ha : a ∈ args) : (Node.pred a).Supplies :=
      ih _ (List.mem_map.2 ⟨a, ha, rfl⟩)
    rw [check]
    exact (Walk.Supplies.orFail (Step.supplies_unifyAt _ _ _) fun _ =>
      (supplies_checkAll args).andThen fun _ _ => Walk.supplies_done _ _).mono
        (by simp [Node.names, Node.mentions, mentions, Node.looked, Node.children, children])
  | comparison n op args =>
    rw [check]
    refine (Walk.Supplies.orFail (N := Node.refsAll (args.map .expr)) (Step.supplies_unifyAt _ _ _)
      fun _ => ?_).mono
        (by simp [Node.names, Node.mentions, mentions, Node.looked, Node.children, children])
    split
    · rename_i len
      obtain ⟨l, r, rfl⟩ := List.length_eq_two.1 len
      simp only [children, List.map_cons, List.forall_mem_cons] at ih
      exact ((Expr.supplies_checkCompared ih.1 ih.2.1).andThen fun _ _ =>
        Walk.supplies_done _ _).mono Set.subset_union_left
    · exact Walk.supplies_fail _ _
  | identifier n decl name =>
    exact (Walk.Supplies.bind (Step.supplies_identifierType decl name) fun _ =>
      Walk.supplies_settlePred _ _ _).mono
        (by simp [Node.names, Node.mentions, mentions, Node.looked, Node.children, children])
  | quantified n op bound pred =>
    simp only [children, List.forall_mem_cons] at ih
    rw [check]
    exact (Walk.Supplies.bind (Step.supplies_declare bound) fun _ => (ih.1 _).andThen fun _ _ =>
      Walk.supplies_settlePred _ _ _).mono
        (by simp [Node.names, Node.mentions, mentions, Node.looked, Node.children, children])
  | ite n cond yes no =>
    simp only [children, List.forall_mem_cons] at ih
    rw [check]
    exact ((ih.1 _).andThen fun _ _ => (ih.2.1 _).andThen fun _ _ => (ih.2.2.1 _).andThen fun _ _ =>
      Walk.supplies_settlePred _ _ _).mono
        (by simp [Node.names, Node.mentions, mentions, Node.looked, Node.children, children])
  | letIn n bound defs body =>
    simp only [children, List.forall_mem_cons] at ih
    rw [check]
    exact (Walk.Supplies.bind (Step.supplies_declare bound) fun _ => (ih.1 _).andThen fun _ _ =>
      (ih.2.1 _).andThen fun _ _ => Walk.supplies_settlePred _ _ _).mono
        (by simp [Node.names, Node.mentions, mentions, Node.looked, Node.children, children])

end Pred

/-! ## Substitutions and temporal formulas. -/

section

variable {scope : Scope}

lemma Step.supplies_typesOrFresh (ts : List (Option Ty)) : Step.Supplies ∅ (typesOrFresh ts) := by
  induction ts with
  | nil => exact supplies_pure _
  | cons t ts ih =>
    cases t with
    | none => exact supplies_fresh.bindIdle fun _ => ih.bindIdle fun _ => supplies_pure _
    | some t => exact ih.bindIdle fun _ => supplies_pure _

lemma Step.supplies_types? (callee : Callee) : Step.Supplies ∅ (scope.types? callee) := by
  cases callee with
  | own operation =>
    rw [Scope.types?]
    split
    · exact supplies_pure _
    · exact ((supplies_declaredTypes _).bind fun _ => (supplies_declaredTypes _).bind fun _ =>
        supplies_pure _).mono (Set.empty_subset _)
  | referred reference operation =>
    rw [Scope.types?]
    split
    · exact supplies_pure _
    · exact (supplies_typesOrFresh _).bindIdle fun _ => (supplies_typesOrFresh _).bindIdle fun _ =>
        supplies_pure _

lemma supplies_checkAssigned {targets values : List Expr}
    (ht : ∀ e ∈ targets, (Node.expr e).Supplies) (hv : ∀ e ∈ values, (Node.expr e).Supplies)
    (len : targets.length = values.length) :
    Walk.Supplies (Node.refsAll (targets.map .expr ++ values.map .expr))
      (checkAssigned targets values) := by
  induction targets generalizing values with
  | nil =>
    obtain rfl : values = [] := List.length_eq_zero_iff.1 len.symm
    exact (Walk.supplies_done _ _).mono (by simp)
  | cons target targets ih =>
    cases values with
    | nil => cases len
    | cons value values =>
      rw [List.forall_mem_cons] at ht hv
      rw [checkAssigned]
      refine (Walk.Supplies.bind Step.supplies_fresh fun t => (ht.1 t).andThen fun _ t =>
        (hv.1 t).andThen fun _ _ => (ih ht.2 hv.2 (by simpa using len)).andThen fun _ _ =>
          Walk.supplies_done _ _).mono fun id => ?_
      simp only [List.map_cons, Node.refsAll_cons, Node.refsAll_append, Set.mem_union,
        Set.mem_empty_iff_false]
      tauto

lemma supplies_checkCalled {span : Option Span} {name : String} {callee : Callee}
    {args assigned : List Expr} (ha : ∀ e ∈ args, (Node.expr e).Supplies)
    (ho : ∀ e ∈ assigned, (Node.expr e).Supplies) :
    Walk.Supplies (Node.refsAll (args.map .expr ++ assigned.map .expr))
      (checkCalled scope span name callee args assigned) := by
  refine (Walk.Supplies.bind (N := Node.refsAll (args.map .expr ++ assigned.map .expr))
    (Step.supplies_types? callee) fun types => ?_).mono Set.subset_union_right
  cases types with
  | none => exact Walk.supplies_fail _ _
  | some types =>
    obtain ⟨params, outputs⟩ := types
    simp only
    split
    · exact Walk.supplies_fail _ _
    · split
      · exact Walk.supplies_fail _ _
      · rename_i lenA lenO
        exact ((Expr.supplies_checkForward ha params (not_not.1 lenA)).andThen fun _ _ =>
          (Expr.supplies_checkForward ho outputs (not_not.1 lenO)).andThen fun _ _ =>
            Walk.supplies_done _ _).mono (by simp)

namespace Substitution

lemma supplies_checkAll {σs : List Substitution} (h : ∀ σ ∈ σs, (Node.substitution σ).Supplies) :
    Walk.Supplies (Node.refsAll (σs.map .substitution)) (checkAll scope σs) := by
  induction σs with
  | nil => exact (Walk.supplies_done _ _).mono (by simp)
  | cons σ σs ih =>
    rw [List.forall_mem_cons] at h
    rw [checkAll]
    exact ((h.1 scope).andThen fun _ _ => (ih h.2).andThen fun _ _ => Walk.supplies_done _ _).mono
      (by simp)

lemma supplies_checkOption {o : Option Substitution}
    (h : ∀ σ ∈ o, (Node.substitution σ).Supplies) :
    Walk.Supplies (Node.refsAll (o.toList.map .substitution)) (checkOption scope o) := by
  cases o with
  | none => exact (Walk.supplies_done _ _).mono (by simp)
  | some σ =>
    rw [checkOption]
    exact ((h σ rfl scope).andThen fun _ _ => Walk.supplies_done _ _).mono (by simp)

/-- A substitution fills what its declarations and its parts fill. -/
lemma supplies_of_children {σ : Substitution} (ih : ∀ c ∈ σ.children, c.Supplies) :
    (Node.substitution σ).Supplies := by
  intro scope
  rw [Node.refs_eq]
  have exprs {es : List Expr} (h : ∀ e ∈ es, .expr e ∈ σ.children) :
      ∀ e ∈ es, (Node.expr e).Supplies := fun e he => ih _ (h e he)
  have preds {ps : List Pred} (h : ∀ p ∈ ps, .pred p ∈ σ.children) :
      ∀ p ∈ ps, (Node.pred p).Supplies := fun p hp => ih _ (h p hp)
  have substitutions {τs : List Substitution} (h : ∀ τ ∈ τs, .substitution τ ∈ σ.children) :
      ∀ τ ∈ τs, (Node.substitution τ).Supplies := fun τ hτ => ih _ (h τ hτ)
  cases σ with
  | skip s =>
    exact (Walk.supplies_done _ _).mono
      (by simp [Node.names, bound, Node.looked, Node.children, children])
  | assign s targets values =>
    rw [check]
    split
    · rename_i len
      exact ((supplies_checkAssigned (exprs fun e he => by simp [children, he])
        (exprs fun e he => by simp [children, he]) len).andThen fun _ _ =>
          Walk.supplies_done _ _).mono
            (by simp [Node.names, bound, Node.looked, Node.children, children])
    · exact Walk.supplies_fail _ _
  | becomesElement s targets set =>
    rw [check]
    refine ((Expr.supplies_checkApart (exprs fun e he => by simp [children, he])).andThen
      (N := (Node.expr set).refs) fun _ ts => ?_).mono
        (by simp [Node.names, bound, Node.looked, Node.children, children])
    cases Ty.tuple? ts with
    | none => exact Walk.supplies_fail _ _
    | some t =>
      have part : (Node.expr set).Supplies := ih _ (by simp [children])
      exact ((part _).andThen fun _ _ => Walk.supplies_done _ _).mono Set.subset_union_left
  | becomesSuch s targets pred =>
    have part : (Node.pred pred).Supplies := ih _ (by simp [children])
    rw [check]
    exact ((Expr.supplies_checkApart (exprs fun e he => by simp [children, he])).andThen fun _ _ =>
      (part _).andThen fun _ _ => Walk.supplies_done _ _).mono
        (by simp [Node.names, bound, Node.looked, Node.children, children])
  | any s bound pred body | letIn s bound pred body =>
    simp only [children, List.forall_mem_cons] at ih
    rw [check]
    exact (Walk.Supplies.bind (Step.supplies_declare _) fun _ => (ih.1 _).andThen fun _ _ =>
      (ih.2.1 scope).andThen fun _ _ => Walk.supplies_done _ _).mono
        (by simp [Node.names, Substitution.bound, Node.looked, Node.children, children])
  | var s bound body =>
    simp only [children, List.forall_mem_cons] at ih
    rw [check]
    exact (Walk.Supplies.bind (Step.supplies_declare _) fun _ => (ih.1 scope).andThen fun _ _ =>
      Walk.supplies_done _ _).mono
        (by simp [Node.names, Substitution.bound, Node.looked, Node.children, children])
  | guarded s kind cond body =>
    simp only [children, List.forall_mem_cons] at ih
    rw [check]
    exact ((ih.1 _).andThen fun _ _ => (ih.2.1 scope).andThen fun _ _ => Walk.supplies_done _ _).mono
      (by simp [Node.names, bound, Node.looked, Node.children, children])
  | branch s kind conds branches otherwise =>
    rw [check]
    exact ((Pred.supplies_checkAll (preds fun p hp => by simp [children, hp])).andThen fun _ _ =>
      (supplies_checkAll (substitutions fun τ hτ => by simp [children, hτ])).andThen fun _ _ =>
        (supplies_checkOption fun τ hτ => ih (.substitution τ)
          (by simp [children, Option.mem_def.1 hτ])).andThen fun _ _ => Walk.supplies_done _ _).mono
            (by simp [Node.names, bound, Node.looked, Node.children, children])
  | choice s branches =>
    rw [check]
    exact ((supplies_checkAll (substitutions fun τ hτ => by simp [children, hτ])).andThen fun _ _ =>
      Walk.supplies_done _ _).mono (by simp [Node.names, bound, Node.looked, Node.children, children])
  | block s kind parts =>
    rw [check]
    exact ((supplies_checkAll (substitutions fun τ hτ => by simp [children, hτ])).andThen fun _ _ =>
      Walk.supplies_done _ _).mono (by simp [Node.names, bound, Node.looked, Node.children, children])
  | loop s cond body inv variant =>
    simp only [children, List.forall_mem_cons] at ih
    rw [check]
    exact ((ih.1 _).andThen fun _ _ => (ih.2.1 scope).andThen fun _ _ => (ih.2.2.1 _).andThen
      fun _ _ => (ih.2.2.2.1 _).andThen fun _ _ => Walk.supplies_done _ _).mono
        (by simp [Node.names, bound, Node.looked, Node.children, children])
  | call s name callee args assigned =>
    rw [check]
    exact ((supplies_checkCalled (exprs fun e he => by simp [children, he])
      (exprs fun e he => by simp [children, he])).andThen fun _ _ => Walk.supplies_done _ _).mono
        (by simp [Node.names, bound, Node.looked, Node.children, children])

end Substitution

/-- A temporal formula fills what its parts fill. -/
lemma Ltl.supplies_of_children {f : Ltl} (ih : ∀ c ∈ f.children, c.Supplies) :
    (Node.ltl f).Supplies := by
  rw [Node.Supplies, Node.refs_eq]
  cases f with
  | unary op arg =>
    simp only [children, List.forall_mem_cons] at ih
    exact (Walk.Supplies.andThen ih.1 fun _ _ => Walk.supplies_done _ _).mono
      (by simp [Node.names, Node.mentions, Node.looked, Node.children, children])
  | binary op left right =>
    simp only [children, List.forall_mem_cons] at ih
    exact (Walk.Supplies.andThen ih.1 fun _ _ => Walk.Supplies.andThen ih.2.1 fun _ _ =>
      Walk.supplies_done _ _).mono
        (by simp [Node.names, Node.mentions, Node.looked, Node.children, children])
  | keyword op =>
    exact (Walk.supplies_done _ _).mono
      (by simp [Node.names, Node.mentions, Node.looked, Node.children, children])
  | pred p =>
    simp only [children, List.forall_mem_cons] at ih
    exact ((ih.1 _).andThen fun _ _ => Walk.supplies_done _ _).mono
      (by simp [Node.names, Node.mentions, Node.looked, Node.children, children])

end

/-- A walk through any tree that succeeds has given types to the declarations that the tree
mentions. -/
theorem Node.supplies (n : Node) : n.Supplies := by
  induction n using Node.induction with
  | step n ih =>
    cases n with
    | expr e => exact Expr.supplies_of_children ih
    | pred p => exact Pred.supplies_of_children ih
    | substitution σ => exact Substitution.supplies_of_children ih
    | ltl f => exact Ltl.supplies_of_children ih

end BMethod
