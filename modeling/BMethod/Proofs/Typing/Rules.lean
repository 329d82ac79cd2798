import BMethod.Proofs.Tree
import BMethod.Proofs.Value
import BMethod.Typing.Machine

/-!
# Typing rules

Which types the nodes of a tree may have, stated without reference to how they are found. For every
kind of node there is one rule about the type of the node and the types of its parts; `HasType` is
the table. The rules speak of values of types, so that they can be read through any map of types: a
node obeys its rule under a map `val` if the values of the slots do (`Node.Obeys`).

A difference or product may be read on integers or on sets. A tree under inference keeps the
ambiguous operator, which then may have either type (`Operator.MayHaveType`).
-/

namespace BMethod

/-! ## Operators. -/

/-- The types of the operands, and the type of the whole, that an operator has. -/
def Operator.HasType : Operator → List Ty → Ty → Prop
  -- Arithmetic.
  | .plus, ts, t | .minus, ts, t | .mult, ts, t | .divide, ts, t | .modulo, ts, t
  | .powerOf, ts, t => ts = [.integer, .integer] ∧ t = .integer
  | .unaryMinus, ts, t | .pred, ts, t | .succ, ts, t => ts = [.integer] ∧ t = .integer
  | .interval, ts, t => ts = [.integer, .integer] ∧ t = .set .integer
  | .min, ts, t | .max, ts, t => ts = [.set .integer] ∧ t = .integer
  -- Constants.
  | .minInt, ts, t | .maxInt, ts, t => ts = [] ∧ t = .integer
  | .integerSet, ts, t | .natural, ts, t | .natural1, ts, t | .int, ts, t | .nat, ts, t
  | .nat1, ts, t => ts = [] ∧ t = .set .integer
  | .stringSet, ts, t => ts = [] ∧ t = .set .string
  | .boolSet, ts, t => ts = [] ∧ t = .set .bool
  | .trueValue, ts, t | .falseValue, ts, t => ts = [] ∧ t = .bool
  | .emptySet, ts, t => ∃ a, ts = [] ∧ t = .set a
  | .emptySequence, ts, t => ∃ a, ts = [] ∧ t = .sequence a
  -- Sets.
  | .setEnumeration, ts, t => ∃ a, (∀ u ∈ ts, u = a) ∧ t = .set a
  | .setSubtraction, ts, t | .intersection, ts, t | .union, ts, t =>
    ∃ a, ts = [.set a, .set a] ∧ t = .set a
  | .cartesianProduct, ts, t => ∃ a b, ts = [.set a, .set b] ∧ t = .relation a b
  | .generalizedUnion, ts, t | .generalizedInter, ts, t =>
    ∃ a, ts = [.set (.set a)] ∧ t = .set a
  | .card, ts, t | .size, ts, t => ∃ a, ts = [.set a] ∧ t = .integer
  | .pow, ts, t | .pow1, ts, t | .fin, ts, t | .fin1, ts, t => ∃ a, ts = [a] ∧ t = .set a
  -- Pairs and relations.
  | .couple, ts, t => ∃ a b, ts = [a, b] ∧ t = .couple a b
  | .domain, ts, t => ∃ a b, ts = [.relation a b] ∧ t = .set a
  | .range, ts, t => ∃ a b, ts = [.relation a b] ∧ t = .set b
  | .identity, ts, t => ∃ a, ts = [.set a] ∧ t = .relation a a
  | .closure, ts, t | .closure1, ts, t => ∃ a b, ts = [.relation a b] ∧ t = .relation a b
  | .iterate, ts, t => ∃ a b, ts = [.relation a b, .integer] ∧ t = .relation a b
  | .prj1, ts, t => ∃ a b, ts = [.set a, .set b] ∧ t = .relation (.couple a b) a
  | .prj2, ts, t => ∃ a b, ts = [.set a, .set b] ∧ t = .relation (.couple a b) b
  | .fnc, ts, t => ∃ a b, ts = [.relation a b] ∧ t = .relation a (.set b)
  | .rel, ts, t => ∃ a b, ts = [.relation a (.set b)] ∧ t = .relation a b
  | .directProduct, ts, t =>
    ∃ a b c, ts = [.relation a b, .relation a c] ∧ t = .relation a (.couple b c)
  | .parallelProduct, ts, t =>
    ∃ a b c d, ts = [.relation a b, .relation c d] ∧ t = .relation (.couple a c) (.couple b d)
  | .composition, ts, t => ∃ a b c d, ts = [.relation a b, .relation c d] ∧ t = .relation a d
  | .domainRestriction, ts, t | .domainSubtraction, ts, t =>
    ∃ a b, ts = [.set a, .relation a b] ∧ t = .relation a b
  | .rangeRestriction, ts, t | .rangeSubtraction, ts, t =>
    ∃ a b, ts = [.relation a b, .set b] ∧ t = .relation a b
  | .overwrite, ts, t => ∃ a b, ts = [.relation a b, .relation a b] ∧ t = .relation a b
  | .inverse, ts, t => ∃ a b, ts = [.relation a b] ∧ t = .relation b a
  | .relationalImage, ts, t => ∃ a b, ts = [.relation a b, .set a] ∧ t = .set b
  | .functionCall, ts, t => ∃ us u, ts = .relation u t :: us ∧ Ty.tuple? us = some u
  | .relation, ts, t | .totalRelation, ts, t | .surjectionRelation, ts, t
  | .totalSurjectionRelation, ts, t | .totalFunction, ts, t | .partialFunction, ts, t
  | .totalInjection, ts, t | .partialInjection, ts, t | .totalSurjection, ts, t
  | .partialSurjection, ts, t | .totalBijection, ts, t | .partialBijection, ts, t =>
    ∃ a b, ts = [.set a, .set b] ∧ t = .set (.relation a b)
  -- Sequences.
  | .seqEnumeration, ts, t => ∃ a, (∀ u ∈ ts, u = a) ∧ t = .sequence a
  | .concat, ts, t => ∃ a, ts = [.sequence a, .sequence a] ∧ t = .sequence a
  | .conc, ts, t => ∃ a, ts = [.sequence (.sequence a)] ∧ t = .sequence a
  | .insertFront, ts, t => ∃ a, ts = [a, .sequence a] ∧ t = .sequence a
  | .insertTail, ts, t => ∃ a, ts = [.sequence a, a] ∧ t = .sequence a
  | .restrictFront, ts, t | .restrictTail, ts, t =>
    ∃ a, ts = [.sequence a, .integer] ∧ t = .sequence a
  | .first, ts, t | .last, ts, t => ts = [.sequence t]
  | .front, ts, t | .tail, ts, t | .rev, ts, t => ∃ a, ts = [.sequence a] ∧ t = .sequence a
  | .seq, ts, t | .seq1, ts, t | .iseq, ts, t | .iseq1, ts, t | .perm, ts, t =>
    ∃ a, ts = [.set a] ∧ t = .set (.sequence a)

/-- How an operator may be read: a difference and a product on sets too. -/
inductive Operator.ReadsAs : Operator → Operator → Prop where
  | self (op) : ReadsAs op op
  | difference : ReadsAs .minus .setSubtraction
  | product : ReadsAs .mult .cartesianProduct

/-- The types that an operator has under one of its readings. -/
def Operator.MayHaveType (op : Operator) (ts : List Ty) (t : Ty) : Prop :=
  ∃ op', op.ReadsAs op' ∧ op'.HasType ts t

/-- The types of the predicate and the body, and the type of the whole, that an aggregate has. -/
def Aggregate.HasType : Aggregate → List Ty → Ty → Prop
  | .sigma, ts, t | .pi, ts, t => ts = [.bool, .integer] ∧ t = .integer
  | .union, ts, t | .inter, ts, t => ∃ a, ts = [.bool, .set a] ∧ t = .set a

/-- The types that the two sides of a comparison have. -/
def Comparison.HasType : Comparison → List Ty → Prop
  | .equal, ts | .notEqual, ts => ∃ a, ts = [a, a]
  | .elementOf, ts | .notBelonging, ts => ∃ a, ts = [a, .set a]
  | .less, ts | .lessEqual, ts | .greater, ts | .greaterEqual, ts => ts = [.integer, .integer]
  | .inclusion, ts | .nonInclusion, ts | .strictInclusion, ts | .strictNonInclusion, ts =>
    ∃ a, ts = [.set a, .set a]

/-! ## Contexts. -/

/-- What is known of declarations: which of them exist, and their types. -/
structure Context where
  known : Nat → Bool
  type? : Nat → Option Ty

namespace Context

/-- The declaration has the type, unless it does not exist. -/
def Has (Γ : Context) (id : Nat) (t : Ty) : Prop := Γ.known id = true → Γ.type? id = some t

/-- The types of those declarations that exist, if they have types. -/
def types? (Γ : Context) (ids : List Nat) : Option (List Ty) :=
  (ids.filter Γ.known).mapM Γ.type?

/-- All of the declarations that exist have types. -/
def Declares (Γ : Context) (ids : List Nat) : Prop := ∃ ts, Γ.types? ids = some ts

/-- The type of the tuples over the declarations that exist; there must be one. -/
def HasTuple (Γ : Context) (ids : List Nat) (t : Ty) : Prop :=
  ∃ ts, Γ.types? ids = some ts ∧ Ty.tuple? ts = some t

end Context

/-! ## Expressions and predicates. -/

/-- What an operator may have as types of operands and whole. -/
abbrev OperatorRule := Operator → List Ty → Ty → Prop

section

variable (R : OperatorRule) (Γ : Context)

/-- The types of the parts, and the type of the whole, that an expression has. -/
def Expr.HasType : Expr → List Ty → Ty → Prop
  | .identifier _ decl _, ts, t => ts = [] ∧ Γ.Has decl t
  | .integer .., ts, t => ts = [] ∧ t = .integer
  | .real .., ts, t => ts = [] ∧ t = .real
  | .string .., ts, t => ts = [] ∧ t = .string
  | .apply _ op _, ts, t => R op ts t
  | .aggregate _ op bound _ _, ts, t => Γ.Declares bound ∧ op.HasType ts t
  | .comprehension _ bound _, ts, t => ∃ u, Γ.HasTuple bound u ∧ ts = [.bool] ∧ t = .set u
  | .lambda _ bound _ _, ts, t =>
    ∃ u r, Γ.HasTuple bound u ∧ ts = [.bool, r] ∧ t = .relation u r
  | .ite .., ts, t => ts = [.bool, t, t]
  | .letIn _ bound _ _, ts, t => Γ.Declares bound ∧ ts = [.bool, t]
  | .record _ fields, ts, t =>
    fields.Forall₂ (fun f u => Γ.Has f.1.decl u) ts ∧
      t = .record ((fields.map (·.1.name)).zip ts)
  | .struct _ fields, ts, t =>
    ∃ us, fields.Forall₂ (fun f u => Γ.Has f.1.decl u) us ∧ ts = us.map .set ∧
      t = .set (.record ((fields.map (·.1.name)).zip us))
  | .field _ _ name, ts, t => ∃ fields, ts = [.record fields] ∧ Ty.field? fields name = some t
  | .bool .., ts, t => ts = [.bool] ∧ t = .bool

/-- The types of the parts, and the type of the whole, that a predicate has. -/
def Pred.HasType : Pred → List Ty → Ty → Prop
  | .connective .., ts, t => (∀ u ∈ ts, u = .bool) ∧ t = .bool
  | .comparison _ op _, ts, t => op.HasType ts ∧ t = .bool
  | .identifier _ decl _, ts, t => ts = [] ∧ Γ.Has decl t ∧ t = .bool
  | .quantified _ _ bound _, ts, t => Γ.Declares bound ∧ ts = [.bool] ∧ t = .bool
  | .ite .., ts, t => ts = [.bool, .bool, .bool] ∧ t = .bool
  | .letIn _ bound _ _, ts, t => Γ.Declares bound ∧ ts = [.bool, .bool] ∧ t = .bool

end

/-! ## Obeying the rules. -/

/-- What the rules are read with: the rule of operators, the declarations, the operations that can
be called, and the values of the types in slots. -/
structure View where
  rule : OperatorRule
  context : Context
  scope : Scope
  val : Ty → Ty

namespace View

variable (V : View)

/-- The value in the slot of a node. -/
def value? (n : Node) : Option Ty := n.slot.map V.val

/-- The nodes have the types. -/
def Gives (ns : List Node) (ts : List Ty) : Prop := ns.map V.value? = ts.map some

/-- The types that parameters and outputs of an operation have. -/
def Accepts : Callee → List Ty → List Ty → Prop
  | .own operation, ps, os => ∃ i, V.scope.own[operation]? = some i ∧
    V.context.types? i.params = some ps ∧ V.context.types? i.outputs = some os
  | .referred reference operation, ps, os =>
    ∃ i, V.scope.referred[reference]? >>= (·[operation]?) = some i ∧
      i.params.Forall₂ (fun o u => ∀ t, o = some t → t.canon = u) ps ∧
      i.outputs.Forall₂ (fun o u => ∀ t, o = some t → t.canon = u) os

end View

/-- An expression obeys its rule. -/
def Expr.Obeys (V : View) (e : Expr) : Prop :=
  ∃ ts t, V.Gives e.children ts ∧ V.value? (.expr e) = some t ∧ e.HasType V.rule V.context ts t

/-- A predicate obeys its rule. -/
def Pred.Obeys (V : View) (p : Pred) : Prop :=
  ∃ ts t, V.Gives p.children ts ∧ V.value? (.pred p) = some t ∧ p.HasType V.context ts t

/-- A substitution obeys its rule: targets have the types of their values, conditions are boolean,
variants are integers, and calls have the types of the operation. -/
def Substitution.Obeys (V : View) : Substitution → Prop
  | .skip _ | .choice .. | .block .. => True
  | .assign _ targets values =>
    ∃ ts, V.Gives (targets.map .expr) ts ∧ V.Gives (values.map .expr) ts
  | .becomesElement _ targets set =>
    ∃ ts t, V.Gives (targets.map .expr) ts ∧ Ty.tuple? ts = some t ∧
      V.value? (.expr set) = some (.set t)
  | .becomesSuch _ targets pred =>
    (∃ ts, V.Gives (targets.map .expr) ts) ∧ V.value? (.pred pred) = some .bool
  | .any _ bound pred _ | .letIn _ bound pred _ =>
    V.context.Declares bound ∧ V.value? (.pred pred) = some .bool
  | .var _ bound _ => V.context.Declares bound
  | .guarded _ _ cond _ => V.value? (.pred cond) = some .bool
  | .branch _ _ conds _ _ => ∀ cond ∈ conds, V.value? (.pred cond) = some .bool
  | .loop _ cond _ inv variant =>
    V.value? (.pred cond) = some .bool ∧ V.value? (.pred inv) = some .bool ∧
      V.value? (.expr variant) = some .integer
  | .call _ _ callee args assigned =>
    ∃ ps os, V.Gives (args.map .expr) ps ∧ V.Gives (assigned.map .expr) os ∧
      V.Accepts callee ps os

/-- A temporal formula obeys its rule: its predicates are boolean. -/
def Ltl.Obeys (V : View) : Ltl → Prop
  | .pred p => V.value? (.pred p) = some .bool
  | _ => True

/-- A node obeys the rule of its kind. -/
def Node.Obeys (V : View) : Node → Prop
  | .expr e => e.Obeys V
  | .pred p => p.Obeys V
  | .substitution s => s.Obeys V
  | .ltl f => f.Obeys V

/-! ## Reading the rules through maps. -/

section

variable {V V' : View} {f : Stamp}

lemma View.gives_congr {ns : List Node} (h : ∀ n ∈ ns, V'.value? (n.restamp f) = V.value? n)
    (ts : List Ty) : V'.Gives (ns.map (Node.restamp f)) ts ↔ V.Gives ns ts := by
  have same : ns.map (V'.value? ∘ Node.restamp f) = ns.map V.value? := List.map_congr_left h
  rw [Gives, Gives, List.map_map, same]

/-- An expression with changed slots obeys its rule if the values are those of one that does. -/
lemma Expr.Obeys.restamp {e : Expr} (h : e.Obeys V) (context : V'.context = V.context)
    (rule : ∀ n op args ts t, e = .apply n op args → V.rule op ts t → n.ty.map V.val = some t →
      V'.rule (f.op n op) ts t)
    (value : ∀ n ∈ Node.expr e :: e.children, V'.value? (n.restamp f) = V.value? n) :
    (e.restamp f).Obeys V' := by
  obtain ⟨ts, t, parts, whole, type⟩ := h
  rw [List.forall_mem_cons] at value
  refine ⟨ts, t, ?_, value.1.trans whole, ?_⟩
  · have := (Node.expr e).children_restamp f
    rw [Node.restamp, Node.children, Node.children] at this
    rw [this]
    exact (View.gives_congr value.2 ts).2 parts
  · rw [context]
    cases e with
    | apply n op args =>
      rw [Expr.restamp_apply]
      exact rule n op args ts t rfl type whole
    | record n fields =>
      simpa [HasType, List.forall₂_map_left_iff, Function.comp_def] using type
    | struct n fields =>
      simpa [HasType, List.forall₂_map_left_iff, Function.comp_def] using type
    | _ => exact type

lemma Pred.Obeys.restamp {p : Pred} (h : p.Obeys V) (context : V'.context = V.context)
    (value : ∀ n ∈ Node.pred p :: p.children, V'.value? (n.restamp f) = V.value? n) :
    (p.restamp f).Obeys V' := by
  obtain ⟨ts, t, parts, whole, type⟩ := h
  rw [List.forall_mem_cons] at value
  refine ⟨ts, t, ?_, value.1.trans whole, ?_⟩
  · have := (Node.pred p).children_restamp f
    rw [Node.restamp, Node.children, Node.children] at this
    rw [this]
    exact (View.gives_congr value.2 ts).2 parts
  · rw [context]
    cases p with
    | connective n op args =>
      rw [Pred.restamp_connective]
      exact type
    | comparison n op args =>
      rw [Pred.restamp_comparison]
      exact type
    | _ => exact type

lemma Substitution.Obeys.restamp {s : Substitution} (h : s.Obeys V)
    (context : V'.context = V.context) (scope : V'.scope = V.scope)
    (value : ∀ n ∈ s.children, V'.value? (n.restamp f) = V.value? n) :
    (s.restamp f).Obeys V' := by
  have gives {es : List Expr} (sub : ∀ e ∈ es, Node.expr e ∈ s.children) {ts : List Ty} :
      V'.Gives ((es.map (Expr.restamp f)).map .expr) ts ↔ V.Gives (es.map .expr) ts := by
    have values : ∀ n ∈ es.map Node.expr, V'.value? (n.restamp f) = V.value? n := by
      intro n hn
      obtain ⟨e, he, rfl⟩ := List.mem_map.1 hn
      exact value _ (sub e he)
    rw [← View.gives_congr values, List.map_map, List.map_map]
    rfl
  have expr {e : Expr} (he : Node.expr e ∈ s.children) :
      V'.value? (.expr (e.restamp f)) = V.value? (.expr e) := value _ he
  have pred {p : Pred} (hp : Node.pred p ∈ s.children) :
      V'.value? (.pred (p.restamp f)) = V.value? (.pred p) := value _ hp
  have accepts {callee : Callee} {ps os : List Ty} :
      V'.Accepts callee ps os ↔ V.Accepts callee ps os := by
    cases callee <;> simp only [View.Accepts, context, scope]
  cases s with
  | skip | choice | block =>
    simp only [restamp_skip, restamp_choice, restamp_block]
    trivial
  | assign s targets values =>
    obtain ⟨ts, ht, hv⟩ := h
    rw [restamp_assign]
    exact ⟨ts, (gives fun e he => by simp [children, he]).2 ht,
      (gives fun e he => by simp [children, he]).2 hv⟩
  | becomesElement s targets set =>
    obtain ⟨ts, t, ht, tuple, hs⟩ := h
    rw [restamp_becomesElement]
    exact ⟨ts, t, (gives fun e he => by simp [children, he]).2 ht, tuple,
      (expr (by simp [children])).trans hs⟩
  | becomesSuch s targets p =>
    obtain ⟨⟨ts, ht⟩, hp⟩ := h
    rw [restamp_becomesSuch]
    exact ⟨⟨ts, (gives fun e he => by simp [children, he]).2 ht⟩,
      (pred (by simp [children])).trans hp⟩
  | any s bound p body | letIn s bound p body =>
    obtain ⟨hb, hp⟩ := h
    exact ⟨by rwa [context], (pred (by simp [children])).trans hp⟩
  | var s bound body =>
    rw [restamp_var, Obeys, context]
    exact h
  | guarded s kind cond body => exact (pred (by simp [children])).trans h
  | branch s kind conds branches otherwise =>
    rw [restamp_branch]
    intro cond mem
    obtain ⟨c, hc, rfl⟩ := List.mem_map.1 mem
    exact (pred (by simp [children, hc])).trans (h c hc)
  | loop s cond body inv variant =>
    obtain ⟨hc, hi, hv⟩ := h
    exact ⟨(pred (by simp [children])).trans hc, (pred (by simp [children])).trans hi,
      (expr (by simp [children])).trans hv⟩
  | call s name callee args assigned =>
    obtain ⟨ps, os, hp, ho, ha⟩ := h
    rw [restamp_call]
    exact ⟨ps, os, (gives fun e he => by simp [children, he]).2 hp,
      (gives fun e he => by simp [children, he]).2 ho, accepts.2 ha⟩

/-- A node with changed slots obeys its rule if the values are those of one that does. -/
lemma Node.Obeys.restamp {n : Node} (h : n.Obeys V) (context : V'.context = V.context)
    (scope : V'.scope = V.scope)
    (rule : ∀ m op args ts t, n = .expr (.apply m op args) → V.rule op ts t →
      m.ty.map V.val = some t → V'.rule (f.op m op) ts t)
    (value : ∀ m ∈ n :: n.children, V'.value? (m.restamp f) = V.value? m) :
    (n.restamp f).Obeys V' := by
  cases n with
  | expr e =>
    exact Expr.Obeys.restamp h context (fun m op args ts t eq => rule m op args ts t (by rw [eq]))
      value
  | pred p => exact Pred.Obeys.restamp h context value
  | substitution s =>
    exact Substitution.Obeys.restamp h context scope (List.forall_mem_cons.1 value).2
  | ltl φ =>
    cases φ with
    | pred p =>
      have := value (.pred p) (by simp [children, Ltl.children])
      exact this.trans h
    | _ => trivial

end

end BMethod
