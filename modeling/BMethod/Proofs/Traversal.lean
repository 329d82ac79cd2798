import BMethod.Proofs.Tree

/-!
# Traversals

`rewriteM` visits the nodes of a tree from the leaves up, in the order of `Node.postorder`. What is
known of the step at a node, and is kept when computations follow one another, is a `Traversal`; it
then holds of the rewriting of every tree and machine, for all nodes in that order.
-/

namespace BMethod

/-! ## All nodes, each after its parts. -/

/-- The nodes of a tree, each after its parts. -/
def Node.postorder (n : Node) : List Node :=
  n.children.attach.flatMap (fun c => c.1.postorder) ++ [n]
termination_by n.preorder.length
decreasing_by exact length_preorder_lt c.2

namespace Node

lemma postorder_eq (n : Node) : n.postorder = n.children.flatMap postorder ++ [n] := by
  rw [postorder, List.flatMap_subtype (g := postorder) (fun _ _ => rfl), List.unattach_attach]

/-- Both orders have the same nodes. -/
lemma mem_postorder {n m : Node} : m ∈ n.postorder ↔ m ∈ n.preorder := by
  induction n using Node.induction with
  | step n ih =>
    rw [postorder_eq, preorder_eq, List.mem_append, List.mem_singleton, List.mem_cons, or_comm,
      List.mem_flatMap, List.mem_flatMap]
    exact or_congr_right (exists_congr fun c => and_congr_right (ih c))

end Node

/-! ## What is known of a traversal. -/

/-- Changes all notes and operators of the trees of a machine. -/
def Machine.restamp (f : Stamp) (m : Machine) : Machine :=
  { m with
    properties := m.properties.map (Pred.restamp f)
    values := m.values.map (Substitution.restamp f)
    invariant := m.invariant.map (Pred.restamp f)
    assertions := m.assertions.map (Pred.restamp f)
    initialisation := m.initialisation.map (Substitution.restamp f)
    operations := m.operations.map fun o => { o with body := o.body.restamp f } }

/-- The expression is the other one but for its parts. -/
structure Expr.Resembles (e' e : Expr) : Prop where
  note : e'.note = e.note
  describe : e'.describe = e.describe
  operator? : (Node.expr e').operator? = (Node.expr e).operator?

/-- The predicate is the other one but for its parts. -/
structure Pred.Resembles (p' p : Pred) : Prop where
  note : p'.note = p.note
  describe : p'.describe = p.describe

/-- What is known of computations that visit a list of nodes and return a result: it holds of those
that visit no slots, of sequences, and of the step at each node, when the parts of the node have been
rewritten. -/
structure Traversal {m : Type → Type} [Monad m] (onExpr : Expr → m Expr) (onPred : Pred → m Pred)
    (f : Stamp) where
  Does {α : Type} : m α → List Node → α → Prop
  pure {α : Type} (a : α) {ns : List Node} : (∀ n ∈ ns, n.hasSlot = false) → Does (pure a) ns a
  bind {α β : Type} {x : m α} {g : α → m β} {ns ms : List Node} {a : α} {b : α → β} :
    Does x ns a → (∀ a', Does (g a') ms (b a')) → Does (x >>= g) (ns ++ ms) (b a)
  expr {e' e : Expr} : e'.Resembles e → Does (onExpr e') [.expr e] (f.expr e')
  pred {p' p : Pred} : p'.Resembles p → Does (onPred p') [.pred p] (f.pred p')

namespace Traversal

section

variable {m : Type → Type} [Monad m] {onExpr : Expr → m Expr} {onPred : Pred → m Pred} {f : Stamp}
  (T : Traversal onExpr onPred f)

include T in
lemma congr {α : Type} {x : m α} {ns ns' : List Node} {a a' : α} (h : T.Does x ns a)
    (hn : ns = ns') (ha : a = a') : T.Does x ns' a' := by
  subst hn ha
  exact h

lemma nothing {α : Type} (a : α) : T.Does (Pure.pure a) [] a := T.pure a nofun

/-- The rewriting of the tree is known. -/
def Covers : Node → Prop
  | .expr e => T.Does (e.rewriteM onExpr onPred) (Node.expr e).postorder (e.restamp f)
  | .pred p => T.Does (p.rewriteM onExpr onPred) (Node.pred p).postorder (p.restamp f)
  | .substitution σ =>
    T.Does (σ.rewriteM onExpr onPred) (Node.substitution σ).postorder (σ.restamp f)
  | .ltl φ => T.Does (φ.rewriteM onExpr onPred) (Node.ltl φ).postorder (φ.restamp f)

/-! ### Lists of trees. -/

lemma mapOption [LawfulMonad m] {α : Type} {g : α → m α} {g' : α → α} {nodes : α → List Node} (o : Option α)
    (h : ∀ a ∈ o, T.Does (g a) (nodes a) (g' a)) :
    T.Does (o.mapM g) (o.toList.flatMap nodes) (o.map g') := by
  cases o with
  | none => exact T.nothing none
  | some a =>
    rw [Option.mapM_some, map_eq_pure_bind]
    exact T.congr (T.bind (h a rfl) fun b => T.nothing (some b)) (by simp) rfl

lemma mapM [LawfulMonad m] {α : Type} {g : α → m α} {g' : α → α} {nodes : α → List Node}
    (as : List α) (h : ∀ a ∈ as, T.Does (g a) (nodes a) (g' a)) :
    T.Does (as.mapM g) (as.flatMap nodes) (as.map g') := by
  induction as with
  | nil => exact T.nothing []
  | cons a as ih =>
    rw [List.forall_mem_cons] at h
    rw [List.mapM_cons]
    exact T.congr (T.bind h.1 fun b => T.bind (ih h.2) fun bs => T.nothing (b :: bs)) (by simp) rfl

lemma exprs (es : List Expr) (h : ∀ e ∈ es, T.Covers (.expr e)) :
    T.Does (Expr.rewriteAllM onExpr onPred es) ((es.map Node.expr).flatMap Node.postorder)
      (es.map (Expr.restamp f)) := by
  induction es with
  | nil => exact T.nothing []
  | cons e es ih =>
    rw [List.forall_mem_cons] at h
    exact T.congr (T.bind h.1 fun b => T.bind (ih h.2) fun bs => T.nothing (b :: bs)) (by simp) rfl

lemma fields (fs : List (FieldLabel × Expr)) (h : ∀ x ∈ fs, T.Covers (.expr x.2)) :
    T.Does (Expr.rewriteFieldsM onExpr onPred fs) ((fs.map (Node.expr ·.2)).flatMap Node.postorder)
      (fs.map fun x => (x.1, x.2.restamp f)) := by
  induction fs with
  | nil => exact T.nothing []
  | cons x fs ih =>
    obtain ⟨label, e⟩ := x
    rw [List.forall_mem_cons] at h
    exact T.congr (T.bind h.1 fun b => T.bind (ih h.2) fun bs => T.nothing ((label, b) :: bs))
      (by simp) rfl

lemma preds (ps : List Pred) (h : ∀ p ∈ ps, T.Covers (.pred p)) :
    T.Does (Pred.rewriteAllM onExpr onPred ps) ((ps.map Node.pred).flatMap Node.postorder)
      (ps.map (Pred.restamp f)) := by
  induction ps with
  | nil => exact T.nothing []
  | cons p ps ih =>
    rw [List.forall_mem_cons] at h
    exact T.congr (T.bind h.1 fun b => T.bind (ih h.2) fun bs => T.nothing (b :: bs)) (by simp) rfl

lemma substitutions (σs : List Substitution) (h : ∀ σ ∈ σs, T.Covers (.substitution σ)) :
    T.Does (Substitution.rewriteAllM onExpr onPred σs)
      ((σs.map Node.substitution).flatMap Node.postorder) (σs.map (Substitution.restamp f)) := by
  induction σs with
  | nil => exact T.nothing []
  | cons σ σs ih =>
    rw [List.forall_mem_cons] at h
    exact T.congr (T.bind h.1 fun b => T.bind (ih h.2) fun bs => T.nothing (b :: bs)) (by simp) rfl

lemma otherwise (o : Option Substitution) (h : ∀ σ ∈ o, T.Covers (.substitution σ)) :
    T.Does (Substitution.rewriteOptionM onExpr onPred o)
      ((o.toList.map Node.substitution).flatMap Node.postorder)
      (o.map (Substitution.restamp f)) := by
  cases o with
  | none => exact T.nothing none
  | some σ => exact T.congr (T.bind (h σ rfl) fun b => T.nothing (some b)) (by simp) rfl

/-! ### Trees. -/

/-- The nodes of the parts and then the root are the nodes of the tree. -/
lemma whole {α : Type} {x : m α} {ns : List Node} {a a' : α} {n : Node} (h : T.Does x ns a)
    (order : ns = n.children.flatMap Node.postorder ++ [n]) (eq : a = a') :
    T.Does x n.postorder a' :=
  T.congr h (order.trans n.postorder_eq.symm) eq

lemma covers_expr {e : Expr} (ih : ∀ c ∈ e.children, T.Covers c) : T.Covers (.expr e) := by
  have root {e' : Expr} (note : e'.note = e.note) (describe : e'.describe = e.describe)
      (operator? : (Node.expr e').operator? = (Node.expr e).operator?) :
      T.Does (onExpr e') [.expr e] (f.expr e') :=
    T.expr ⟨note, describe, operator?⟩
  cases e with
  | identifier | integer | real | string =>
    exact T.whole (root rfl rfl rfl) (by simp [Node.children, Expr.children]) rfl
  | apply n op args =>
    exact T.whole (T.bind (T.exprs args fun a ha => ih (.expr a) (by simp [Expr.children, ha]))
      fun args' => root rfl rfl rfl) (by simp [Node.children, Expr.children]) (by simp [Stamp.expr])
  | aggregate n op bound pred body | lambda n bound pred body | letIn n bound pred body =>
    exact T.whole (T.bind (ih (.pred pred) (by simp [Expr.children])) fun p =>
      T.bind (ih (.expr body) (by simp [Expr.children])) fun b => root rfl rfl rfl)
      (by simp [Node.children, Expr.children]) rfl
  | comprehension n bound pred | bool n pred =>
    exact T.whole (T.bind (ih (.pred pred) (by simp [Expr.children])) fun p => root rfl rfl rfl)
      (by simp [Node.children, Expr.children]) rfl
  | ite n cond yes no =>
    exact T.whole (T.bind (ih (.pred cond) (by simp [Expr.children])) fun c =>
      T.bind (ih (.expr yes) (by simp [Expr.children])) fun y =>
        T.bind (ih (.expr no) (by simp [Expr.children])) fun z => root rfl rfl rfl)
      (by simp [Node.children, Expr.children]) rfl
  | record n fields | struct n fields =>
    exact T.whole (T.bind (T.fields fields fun x hx => ih (.expr x.2) (List.mem_map.2 ⟨x, hx, rfl⟩))
      fun fs => root rfl rfl rfl) (by simp [Node.children, Expr.children]) (by simp [Stamp.expr]; rfl)
  | field n target name =>
    exact T.whole (T.bind (ih (.expr target) (by simp [Expr.children])) fun t =>
      root rfl rfl rfl) (by simp [Node.children, Expr.children]) rfl

lemma covers_pred {p : Pred} (ih : ∀ c ∈ p.children, T.Covers c) : T.Covers (.pred p) := by
  have root {p' : Pred} (note : p'.note = p.note) (describe : p'.describe = p.describe) :
      T.Does (onPred p') [.pred p] (f.pred p') := T.pred ⟨note, describe⟩
  cases p with
  | connective n op args =>
    exact T.whole (T.bind (T.preds args fun a ha => ih (.pred a) (by simp [Pred.children, ha]))
      fun args' => root rfl rfl) (by simp [Node.children, Pred.children])
        (by simp [Stamp.pred]; rfl)
  | comparison n op args =>
    exact T.whole (T.bind (T.exprs args fun a ha => ih (.expr a) (by simp [Pred.children, ha]))
      fun args' => root rfl rfl) (by simp [Node.children, Pred.children])
        (by simp [Stamp.pred]; rfl)
  | identifier =>
    exact T.whole (root rfl rfl) (by simp [Node.children, Pred.children]) rfl
  | quantified n op bound pred =>
    exact T.whole (T.bind (ih (.pred pred) (by simp [Pred.children])) fun p => root rfl rfl)
      (by simp [Node.children, Pred.children]) rfl
  | ite n cond yes no =>
    exact T.whole (T.bind (ih (.pred cond) (by simp [Pred.children])) fun c =>
      T.bind (ih (.pred yes) (by simp [Pred.children])) fun y =>
        T.bind (ih (.pred no) (by simp [Pred.children])) fun z => root rfl rfl)
      (by simp [Node.children, Pred.children]) rfl
  | letIn n bound defs body =>
    exact T.whole (T.bind (ih (.pred defs) (by simp [Pred.children])) fun d =>
      T.bind (ih (.pred body) (by simp [Pred.children])) fun b => root rfl rfl)
      (by simp [Node.children, Pred.children]) rfl

lemma covers_substitution {σ : Substitution} (ih : ∀ c ∈ σ.children, T.Covers c) :
    T.Covers (.substitution σ) := by
  have root (σ' : Substitution) : T.Does (Pure.pure σ' : m Substitution) [.substitution σ] σ' :=
    T.pure σ' (by simp [Node.hasSlot])
  have exprs (es : List Expr) (sub : ∀ a ∈ es, Node.expr a ∈ σ.children) :=
    T.exprs es fun a ha => ih _ (sub a ha)
  have parts (σs : List Substitution) (sub : ∀ τ ∈ σs, .substitution τ ∈ σ.children) :=
    T.substitutions σs fun τ hτ => ih _ (sub τ hτ)
  cases σ with
  | skip => exact T.whole (root _) (by simp [Node.children, Substitution.children]) rfl
  | assign s targets values =>
    exact T.whole (T.bind (exprs targets fun a ha => by simp [Substitution.children, ha]) fun t =>
      T.bind (exprs values fun a ha => by simp [Substitution.children, ha]) fun v => root _)
      (by simp [Node.children, Substitution.children]) (by simp)
  | becomesElement s targets set =>
    exact T.whole (T.bind (exprs targets fun a ha => by simp [Substitution.children, ha]) fun t =>
      T.bind (ih (.expr set) (by simp [Substitution.children])) fun v => root _)
      (by simp [Node.children, Substitution.children]) (by simp)
  | becomesSuch s targets pred =>
    exact T.whole (T.bind (exprs targets fun a ha => by simp [Substitution.children, ha]) fun t =>
      T.bind (ih (.pred pred) (by simp [Substitution.children])) fun v => root _)
      (by simp [Node.children, Substitution.children]) (by simp)
  | any s bound pred body | letIn s bound pred body | guarded s kind pred body =>
    exact T.whole (T.bind (ih (.pred pred) (by simp [Substitution.children])) fun p =>
      T.bind (ih (.substitution body) (by simp [Substitution.children])) fun b => root _)
      (by simp [Node.children, Substitution.children]) rfl
  | var s bound body =>
    exact T.whole (T.bind (ih (.substitution body) (by simp [Substitution.children])) fun b => root _)
      (by simp [Node.children, Substitution.children]) rfl
  | branch s kind conds branches otherwise =>
    exact T.whole (T.bind (T.preds conds fun a ha => ih (.pred a) (by simp [Substitution.children, ha]))
      fun c => T.bind (parts branches fun τ hτ => by simp [Substitution.children, hτ]) fun b =>
        T.bind (T.otherwise otherwise fun τ hτ => ih (.substitution τ)
          (by simp [Substitution.children, Option.mem_def.1 hτ])) fun o => root _)
      (by simp [Node.children, Substitution.children]) (by simp)
  | choice s branches | block s kind branches =>
    exact T.whole (T.bind (parts branches fun τ hτ => by simp [Substitution.children, hτ])
      fun b => root _) (by simp [Node.children, Substitution.children]) (by simp)
  | loop s cond body inv variant =>
    exact T.whole (T.bind (ih (.pred cond) (by simp [Substitution.children])) fun c =>
      T.bind (ih (.substitution body) (by simp [Substitution.children])) fun b =>
        T.bind (ih (.pred inv) (by simp [Substitution.children])) fun i =>
          T.bind (ih (.expr variant) (by simp [Substitution.children])) fun v => root _)
      (by simp [Node.children, Substitution.children]) rfl
  | call s name callee args assigned =>
    exact T.whole (T.bind (exprs args fun a ha => by simp [Substitution.children, ha]) fun a =>
      T.bind (exprs assigned fun a ha => by simp [Substitution.children, ha]) fun o => root _)
      (by simp [Node.children, Substitution.children]) (by simp)

lemma covers_ltl {φ : Ltl} (ih : ∀ c ∈ φ.children, T.Covers c) : T.Covers (.ltl φ) := by
  have root (φ' : Ltl) : T.Does (Pure.pure φ' : m Ltl) [.ltl φ] φ' :=
    T.pure φ' (by simp [Node.hasSlot])
  cases φ with
  | unary op arg =>
    exact T.whole (T.bind (ih (.ltl arg) (by simp [Ltl.children])) fun a => root _)
      (by simp [Node.children, Ltl.children]) rfl
  | binary op left right =>
    exact T.whole (T.bind (ih (.ltl left) (by simp [Ltl.children])) fun l =>
      T.bind (ih (.ltl right) (by simp [Ltl.children])) fun r => root _)
      (by simp [Node.children, Ltl.children]) rfl
  | keyword => exact T.whole (root _) (by simp [Node.children, Ltl.children]) rfl
  | pred p =>
    exact T.whole (T.bind (ih (.pred p) (by simp [Ltl.children])) fun p => root _)
      (by simp [Node.children, Ltl.children]) rfl

/-- What is known of the steps is known of the rewriting of every tree. -/
theorem covers (n : Node) : T.Covers n := by
  induction n using Node.induction with
  | step n ih =>
    cases n with
    | expr e => exact T.covers_expr ih
    | pred p => exact T.covers_pred ih
    | substitution σ => exact T.covers_substitution ih
    | ltl φ => exact T.covers_ltl ih

/-- The rewriting of a tree of any kind. -/
lemma node (n : Node) : T.Does (n.rewriteM onExpr onPred) n.postorder (n.restamp f) := by
  cases n with
  | expr e =>
    exact T.congr (T.bind (T.covers (.expr e)) fun a => T.nothing (Node.expr a)) (List.append_nil _) rfl
  | pred p =>
    exact T.congr (T.bind (T.covers (.pred p)) fun a => T.nothing (Node.pred a)) (List.append_nil _) rfl
  | substitution σ =>
    exact T.congr (T.bind (T.covers (.substitution σ)) fun a => T.nothing (Node.substitution a))
      (List.append_nil _) rfl
  | ltl φ =>
    exact T.congr (T.bind (T.covers (.ltl φ)) fun a => T.nothing (Node.ltl a)) (List.append_nil _) rfl

/-- The rewriting of a machine visits the nodes of its trees, clause by clause. -/
theorem machine [LawfulMonad m] (M : Machine) :
    T.Does (M.rewriteM onExpr onPred) (M.roots.flatMap Node.postorder) (M.restamp f) := by
  have operation (o : Operation) : T.Does
      (do return { o with body := ← o.body.rewriteM onExpr onPred })
      (Node.substitution o.body).postorder { o with body := o.body.restamp f } :=
    T.congr (T.bind (T.covers (.substitution o.body)) fun body => T.nothing _) (List.append_nil _) rfl
  have all := T.bind (T.mapOption M.properties fun p _ => T.covers (.pred p)) fun properties =>
    T.bind (T.substitutions M.values fun σ _ => T.covers _) fun values =>
    T.bind (T.mapOption M.invariant fun p _ => T.covers (.pred p)) fun invariant =>
    T.bind (T.preds M.assertions fun p _ => T.covers _) fun assertions =>
    T.bind (T.mapOption M.initialisation fun σ _ => T.covers (.substitution σ)) fun initialisation =>
    T.bind (T.mapM M.operations fun o _ => operation o) fun operations =>
    T.nothing (Machine.mk M.name M.decls M.enumerated M.deferred M.constants M.vars M.included
      M.references properties values invariant assertions initialisation operations)
  refine T.congr all ?_ rfl
  simp [Machine.roots, List.flatMap_append, List.flatMap_map]

end

end Traversal

end BMethod
