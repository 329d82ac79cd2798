import BMethod.Proofs.Typing.Conclude

/-!
# What the sweep does to trees

The sweep that concludes a check changes no more than slots and the reading of operators: the tree it
leaves has the form of the tree it was given, and an operator has changed only from a difference or a
product to the set operator that the type now in its slot tells it to be (`Node.resettled`). This holds
of every sweep that ends, whether it finds all types or not.
-/

namespace BMethod

/-! ## Trees of one form. -/

/-- Empties slots and forgets which operators were applied. -/
def Stamp.bare : Stamp := ⟨fun n => { n with ty := none }, fun _ _ => .plus⟩

@[simp] lemma Stamp.bare_note (n : Note) : bare.note n = ⟨n.span, none⟩ := rfl

@[simp] lemma Stamp.bare_op (n : Note) (op : Operator) : bare.op n op = .plus := rfl

namespace Node

variable {n n' a : Node}

/-- The node has the given operator, or the reading of it on sets because a concrete type of sets is in
its slot. -/
def Reads (o : Option Operator) (n : Node) : Prop :=
  n.operator? = o ∨ ∃ op op' elem, o = some op ∧ n.operator? = some op' ∧ op.ReadsAs op' ∧
    n.slot = some (.set elem) ∧ elem.isConcrete = true

/-- The second tree is the first but for slots, and for operators that are read on sets. -/
structure Retyped (n n' : Node) : Prop where
  form : n'.restamp .bare = n.restamp .bare
  readings : List.Forall₂ (fun m m' => Reads m.operator? m') n.preorder n'.preorder

lemma Retyped.refl (n : Node) : n.Retyped n := ⟨rfl, List.forall₂_same.2 fun _ _ => .inl rfl⟩

lemma operator?_erase (n : Node) : n.erase.operator? = n.operator? := by
  cases n with
  | expr e => cases e <;> simp [restamp, operator?]
  | pred | substitution | ltl => rfl

/-- What was in the slots before does not matter. -/
lemma retyped_erase_iff : n.erase.Retyped n' ↔ n.Retyped n' := by
  have form : n.erase.restamp .bare = n.restamp .bare :=
    restamp_restamp (fun _ => rfl) (fun _ _ => rfl) n
  have readings : List.Forall₂ (fun m m' => Reads m.operator? m') n.erase.preorder n'.preorder ↔
      List.Forall₂ (fun m m' => Reads m.operator? m') n.preorder n'.preorder := by
    simp only [preorder_restamp, List.forall₂_map_left_iff, operator?_erase]
  exact ⟨fun h => ⟨h.form.trans form, readings.1 h.readings⟩,
    fun h => ⟨h.form.trans form.symm, readings.2 h.readings⟩⟩

/-- A tree that differs in slots alone may come first. -/
lemma Retyped.after (h : a.Retyped n') (same : a.erase = n.erase) : n.Retyped n' := by
  rw [← retyped_erase_iff, ← same, retyped_erase_iff]
  exact h

lemma retyped_of_erase (same : n'.erase = n.erase) : n.Retyped n' := (Retyped.refl n').after same

lemma forall₂_retyped_after {ns as ms : List Node} (h : List.Forall₂ Retyped as ms)
    (same : as.map erase = ns.map erase) : List.Forall₂ Retyped ns ms := by
  have erased (l : List Node) :
      List.Forall₂ Retyped (l.map erase) ms ↔ List.Forall₂ Retyped l ms := by
    simp only [List.forall₂_map_left_iff, retyped_erase_iff]
  rw [← erased, ← same, erased]
  exact h

/-- Trees with one root but for its slot are as their parts are. -/
lemma Retyped.of_children (form : n'.restamp .bare = n.restamp .bare)
    (op : n'.operator? = n.operator?) (parts : List.Forall₂ Retyped n.children n'.children) :
    n.Retyped n' := by
  refine ⟨form, ?_⟩
  rw [preorder_eq n, preorder_eq n']
  exact .cons (.inl op) (List.rel_flatMap parts fun _ _ h => h.readings)

/-- Of the tree at most the slot and the operator of its root have changed. -/
structure Touched (n n' : Node) : Prop where
  form : n'.restamp .bare = n.restamp .bare
  children : n'.children = n.children
  reading : Reads n.operator? n'

lemma Touched.refl (n : Node) : n.Touched n := ⟨rfl, rfl, .inl rfl⟩

lemma Retyped.touch (h : n.Retyped a) (op : a.operator? = n.operator?) (touched : a.Touched n') :
    n.Retyped n' := by
  obtain ⟨form, readings⟩ := h
  refine ⟨touched.form.trans form, ?_⟩
  rw [preorder_eq, preorder_eq a] at readings
  rw [preorder_eq, preorder_eq n', touched.children]
  exact .cons (op ▸ touched.reading) (List.forall₂_cons.1 readings).2

end Node

/-! ## The sweep. -/

/-- If the sweep ends, `R` holds of its result. -/
def Sweep.Gives {α : Type} (R : α → Prop) (x : SweepM α) : Prop :=
  ∀ w a w', x w = some (a, w') → R a

namespace Sweep

section

variable {α β : Type} {P : α → Prop} {R : β → Prop}

lemma gives_pure {b : β} (h : R b) : Gives R (pure b : SweepM β) := by
  rintro w b' w' run
  cases run
  exact h

lemma Gives.bind {x : SweepM α} {f : α → SweepM β} (h : Gives P x)
    (rest : ∀ a, P a → Gives R (f a)) : Gives R (x >>= f) := by
  intro w b w' run
  obtain ⟨⟨a, w₁⟩, run₁, run₂⟩ := Option.bind_eq_some_iff.1 run
  exact rest a (h w a w₁ run₁) w₁ b w' run₂

lemma Gives.mono {x : SweepM β} {Q : β → Prop} (h : Gives R x) (imp : ∀ b, R b → Q b) :
    Gives Q x := fun w b w' run => imp b (h w b w' run)

lemma gives_after {x : SweepM α} {f : α → SweepM β} (rest : ∀ a, Gives R (f a)) :
    Gives R (x >>= f) :=
  Gives.bind (P := fun _ => True) (fun _ _ _ _ => trivial) fun a _ => rest a

end

lemma touched_withTy (e : Expr) (t : Ty) : (Node.expr e).Touched (.expr (e.withTy t)) := by
  cases e with
  | _ => exact ⟨by simp [Expr.withTy, Expr.withNote, Expr.note, Node.restamp, Note.withTy], rfl, .inl rfl⟩

/-- An operator is read again where the type is one of sets. -/
lemma touched_reread {n : Note} {op after : Operator} {args : List Expr} {t : Ty}
    (concrete : t.isConcrete = true) (h : op.reread? t = some after) :
    (Node.expr (.apply n op args)).Touched (.expr (.apply (n.withTy t) after args)) := by
  refine ⟨by simp [Node.restamp, Note.withTy], rfl, .inr ?_⟩
  cases op with
  | minus =>
    cases t with
    | set elem =>
      cases h
      exact ⟨_, _, elem, rfl, rfl, .difference, rfl, concrete⟩
    | _ => cases h
  | mult =>
    cases t with
    | set elem =>
      cases h
      exact ⟨_, _, elem, rfl, rfl, .product, rfl, concrete⟩
    | _ => cases h
  | _ => cases h

/-- The sweep changes at most the slot and the operator of an expression. -/
lemma gives_expr (e : Expr) : Gives (fun e' => (Node.expr e).Touched (.expr e')) (expr e) := by
  refine gives_after fun t => ?_
  cases e with
  | apply n op args =>
    simp only
    split
    · rename_i concrete
      split
      · rename_i after found
        exact gives_after fun _ => gives_pure (touched_reread concrete found)
      · exact gives_pure (touched_withTy (.apply n op args) t)
    · split
      · exact gives_after fun _ => gives_pure (.refl _)
      · exact gives_after fun _ => gives_pure (.refl _)
  | _ =>
    simp only
    split
    · exact gives_pure (touched_withTy _ t)
    · exact gives_after fun _ => gives_pure (.refl _)

/-- The sweep changes at most the slot of a predicate. -/
lemma gives_pred (p : Pred) : Gives (fun p' => (Node.pred p).Touched (.pred p')) (pred p) := by
  refine gives_after fun t => ?_
  split
  · refine gives_pure ⟨?_, ?_, .inl rfl⟩
    · cases p <;> simp [Pred.withTy, Pred.withNote, Pred.note, Node.restamp, Note.withTy]
    · cases p <;> rfl
  · exact gives_after fun _ => gives_pure (.refl _)

end Sweep

/-! ## Sweeping trees. -/

open Sweep

namespace Node

/-- What the sweep makes of the tree is the tree but for slots, and for operators read on sets. -/
def Resettled : Node → Prop
  | .expr e =>
    Gives (fun e' => (Node.expr e).Retyped (.expr e')) (e.rewriteM Sweep.expr Sweep.pred)
  | .pred p =>
    Gives (fun p' => (Node.pred p).Retyped (.pred p')) (p.rewriteM Sweep.expr Sweep.pred)
  | .substitution σ =>
    Gives (fun σ' => (Node.substitution σ).Retyped (.substitution σ'))
      (σ.rewriteM Sweep.expr Sweep.pred)
  | .ltl f => Gives (fun f' => (Node.ltl f).Retyped (.ltl f')) (f.rewriteM Sweep.expr Sweep.pred)

lemma Retyped.expr {e e' : Expr} (h : (Node.expr e).Retyped (.expr e')) :
    e'.restamp .bare = e.restamp .bare := Node.expr.inj h.form

lemma Retyped.pred {p p' : Pred} (h : (Node.pred p).Retyped (.pred p')) :
    p'.restamp .bare = p.restamp .bare := Node.pred.inj h.form

lemma Retyped.substitution {σ σ' : Substitution}
    (h : (Node.substitution σ).Retyped (.substitution σ')) :
    σ'.restamp .bare = σ.restamp .bare := Node.substitution.inj h.form

lemma Retyped.ltl {f f' : Ltl} (h : (Node.ltl f).Retyped (.ltl f')) :
    f'.restamp .bare = f.restamp .bare := Node.ltl.inj h.form

/-- Members that are as those of another list have one image under maps that do not tell them
apart. -/
lemma map_eq_of_forall₂ {α β : Type} {R : α → α → Prop} {g : α → β} {as bs : List α}
    (h : List.Forall₂ R as bs) (imp : ∀ {a b}, R a b → g b = g a) : bs.map g = as.map g := by
  induction h with
  | nil => rfl
  | cons head _ ih => rw [List.map_cons, List.map_cons, imp head, ih]

lemma forall₂_map {α : Type} {node : α → Node} {as bs : List α}
    (h : List.Forall₂ (fun a b => (node a).Retyped (node b)) as bs) :
    List.Forall₂ Retyped (as.map node) (bs.map node) :=
  List.forall₂_map_left_iff.2 (List.forall₂_map_right_iff.2 h)

end Node

open Node (map_eq_of_forall₂ forall₂_map)

/-- A list of which each member is rewritten, one after the other. -/
lemma Sweep.gives_cons {α : Type} {R : α → α → Prop} {a : α} {as : List α} {x : SweepM α}
    {xs : SweepM (List α)} (h : Gives (R a) x) (hs : Gives (List.Forall₂ R as) xs) :
    Gives (List.Forall₂ R (a :: as)) (do return (← x) :: (← xs)) :=
  h.bind fun _ hb => hs.bind fun _ hbs => gives_pure (.cons hb hbs)

lemma Expr.gives_rewriteAllM {es : List Expr} (h : ∀ e ∈ es, (Node.expr e).Resettled) :
    Gives (List.Forall₂ (fun e e' => (Node.expr e).Retyped (.expr e')) es)
      (Expr.rewriteAllM Sweep.expr Sweep.pred es) := by
  induction es with
  | nil => exact gives_pure .nil
  | cons e es ih =>
    rw [List.forall_mem_cons] at h
    exact gives_cons h.1 (ih h.2)

lemma Expr.gives_rewriteFieldsM {fields : List (FieldLabel × Expr)}
    (h : ∀ x ∈ fields, (Node.expr x.2).Resettled) :
    Gives (List.Forall₂ (fun x x' => x'.1 = x.1 ∧ (Node.expr x.2).Retyped (.expr x'.2)) fields)
      (Expr.rewriteFieldsM Sweep.expr Sweep.pred fields) := by
  induction fields with
  | nil => exact gives_pure .nil
  | cons x fields ih =>
    obtain ⟨label, e⟩ := x
    rw [List.forall_mem_cons] at h
    exact h.1.bind fun e' he => (ih h.2).bind fun fields' hfs => gives_pure (.cons ⟨rfl, he⟩ hfs)

lemma Pred.gives_rewriteAllM {ps : List Pred} (h : ∀ p ∈ ps, (Node.pred p).Resettled) :
    Gives (List.Forall₂ (fun p p' => (Node.pred p).Retyped (.pred p')) ps)
      (Pred.rewriteAllM Sweep.expr Sweep.pred ps) := by
  induction ps with
  | nil => exact gives_pure .nil
  | cons p ps ih =>
    rw [List.forall_mem_cons] at h
    exact gives_cons h.1 (ih h.2)

lemma Substitution.gives_rewriteAllM {σs : List Substitution}
    (h : ∀ σ ∈ σs, (Node.substitution σ).Resettled) :
    Gives (List.Forall₂ (fun σ σ' => (Node.substitution σ).Retyped (.substitution σ')) σs)
      (Substitution.rewriteAllM Sweep.expr Sweep.pred σs) := by
  induction σs with
  | nil => exact gives_pure .nil
  | cons σ σs ih =>
    rw [List.forall_mem_cons] at h
    exact gives_cons h.1 (ih h.2)

lemma Substitution.gives_rewriteOptionM {o : Option Substitution}
    (h : ∀ σ ∈ o, (Node.substitution σ).Resettled) :
    Gives (fun o' => List.Forall₂ (fun σ σ' => (Node.substitution σ).Retyped (.substitution σ'))
      o.toList o'.toList) (Substitution.rewriteOptionM Sweep.expr Sweep.pred o) := by
  cases o with
  | none => exact gives_pure .nil
  | some σ => exact (h σ rfl).bind fun σ' hσ => gives_pure (.cons hσ .nil)

/-- The root comes last, after the parts have been put in. -/
lemma Expr.gives_root {e a : Expr} (form : a.restamp .bare = e.restamp .bare)
    (op : (Node.expr a).operator? = (Node.expr e).operator?)
    (parts : List.Forall₂ Node.Retyped e.children a.children) :
    Gives (fun e' => (Node.expr e).Retyped (.expr e')) (Sweep.expr a) :=
  have retyped : (Node.expr e).Retyped (.expr a) :=
    .of_children (congrArg Node.expr form) op parts
  (gives_expr a).mono fun _ touched => retyped.touch op touched

lemma Pred.gives_root {p a : Pred} (form : a.restamp .bare = p.restamp .bare)
    (parts : List.Forall₂ Node.Retyped p.children a.children) :
    Gives (fun p' => (Node.pred p).Retyped (.pred p')) (Sweep.pred a) :=
  have retyped : (Node.pred p).Retyped (.pred a) :=
    .of_children (congrArg Node.pred form) rfl parts
  (gives_pred a).mono fun _ touched => retyped.touch rfl touched

lemma Substitution.gives_root {σ a : Substitution} (form : a.restamp .bare = σ.restamp .bare)
    (parts : List.Forall₂ Node.Retyped σ.children a.children) :
    Gives (fun σ' => (Node.substitution σ).Retyped (.substitution σ')) (pure a) :=
  gives_pure (.of_children (congrArg Node.substitution form) rfl parts)

lemma Ltl.gives_root {f a : Ltl} (form : a.restamp .bare = f.restamp .bare)
    (parts : List.Forall₂ Node.Retyped f.children a.children) :
    Gives (fun f' => (Node.ltl f).Retyped (.ltl f')) (pure a) :=
  gives_pure (.of_children (congrArg Node.ltl form) rfl parts)

lemma Expr.resettled_of_children {e : Expr} (ih : ∀ c ∈ e.children, c.Resettled) :
    (Node.expr e).Resettled := by
  cases e with
  | identifier | integer | real | string => exact gives_root rfl rfl .nil
  | apply n op args =>
    refine (gives_rewriteAllM fun a ha => ih (.expr a) (by simp [children, ha])).bind
      fun args' h => gives_root ?_ rfl (forall₂_map h)
    simp [map_eq_of_forall₂ h Node.Retyped.expr]
  | aggregate n op bound pred body =>
    exact (ih (.pred pred) (by simp [children])).bind fun p hp =>
      (ih (.expr body) (by simp [children])).bind fun b hb =>
        gives_root (by simp [hp.pred, hb.expr]) rfl (.cons hp (.cons hb .nil))
  | comprehension n bound pred =>
    exact (ih (.pred pred) (by simp [children])).bind fun p hp =>
      gives_root (by simp [hp.pred]) rfl (.cons hp .nil)
  | lambda n bound pred body =>
    exact (ih (.pred pred) (by simp [children])).bind fun p hp =>
      (ih (.expr body) (by simp [children])).bind fun b hb =>
        gives_root (by simp [hp.pred, hb.expr]) rfl (.cons hp (.cons hb .nil))
  | ite n cond yes no =>
    exact (ih (.pred cond) (by simp [children])).bind fun c hc =>
      (ih (.expr yes) (by simp [children])).bind fun y hy =>
        (ih (.expr no) (by simp [children])).bind fun z hz =>
          gives_root (by simp [hc.pred, hy.expr, hz.expr]) rfl (.cons hc (.cons hy (.cons hz .nil)))
  | letIn n bound pred body =>
    exact (ih (.pred pred) (by simp [children])).bind fun p hp =>
      (ih (.expr body) (by simp [children])).bind fun b hb =>
        gives_root (by simp [hp.pred, hb.expr]) rfl (.cons hp (.cons hb .nil))
  | record n fields | struct n fields =>
    refine (gives_rewriteFieldsM fun x hx => ih (.expr x.2)
      (List.mem_map.2 ⟨x, hx, rfl⟩)).bind fun fields' h => gives_root ?_ rfl ?_
    · simp [map_eq_of_forall₂ h (g := fun x => (x.1, x.2.restamp .bare))
        fun h => Prod.ext h.1 h.2.expr]
    · exact forall₂_map (h.imp fun _ _ h => h.2)
  | field n target name =>
    exact (ih (.expr target) (by simp [children])).bind fun t ht =>
      gives_root (by simp [ht.expr]) rfl (.cons ht .nil)
  | bool n pred =>
    exact (ih (.pred pred) (by simp [children])).bind fun p hp =>
      gives_root (by simp [hp.pred]) rfl (.cons hp .nil)

lemma Pred.resettled_of_children {p : Pred} (ih : ∀ c ∈ p.children, c.Resettled) :
    (Node.pred p).Resettled := by
  cases p with
  | connective n op args =>
    refine (gives_rewriteAllM fun a ha => ih (.pred a) (by simp [children, ha])).bind
      fun args' h => gives_root ?_ (forall₂_map h)
    simp [map_eq_of_forall₂ h Node.Retyped.pred]
  | comparison n op args =>
    refine (Expr.gives_rewriteAllM fun a ha => ih (.expr a) (by simp [children, ha])).bind
      fun args' h => gives_root ?_ (forall₂_map h)
    simp [map_eq_of_forall₂ h Node.Retyped.expr]
  | identifier => exact gives_root rfl .nil
  | quantified n op bound pred =>
    exact (ih (.pred pred) (by simp [children])).bind fun p hp =>
      gives_root (by simp [hp.pred]) (.cons hp .nil)
  | ite n cond yes no =>
    exact (ih (.pred cond) (by simp [children])).bind fun c hc =>
      (ih (.pred yes) (by simp [children])).bind fun y hy =>
        (ih (.pred no) (by simp [children])).bind fun z hz =>
          gives_root (by simp [hc.pred, hy.pred, hz.pred]) (.cons hc (.cons hy (.cons hz .nil)))
  | letIn n bound defs body =>
    exact (ih (.pred defs) (by simp [children])).bind fun d hd =>
      (ih (.pred body) (by simp [children])).bind fun b hb =>
        gives_root (by simp [hd.pred, hb.pred]) (.cons hd (.cons hb .nil))

lemma Substitution.resettled_of_children {σ : Substitution} (ih : ∀ c ∈ σ.children, c.Resettled) :
    (Node.substitution σ).Resettled := by
  have exprs (es : List Expr) (sub : ∀ a ∈ es, Node.expr a ∈ σ.children) :=
    Expr.gives_rewriteAllM fun a ha => ih _ (sub a ha)
  have substitutions (σs : List Substitution) (sub : ∀ τ ∈ σs, .substitution τ ∈ σ.children) :=
    gives_rewriteAllM fun τ hτ => ih _ (sub τ hτ)
  cases σ with
  | skip s => exact gives_root rfl .nil
  | assign s targets values =>
    refine (exprs targets fun a ha => by simp [children, ha]).bind fun ts ht =>
      (exprs values fun a ha => by simp [children, ha]).bind fun vs hv =>
        gives_root ?_ (List.rel_append (forall₂_map ht) (forall₂_map hv))
    simp [map_eq_of_forall₂ ht Node.Retyped.expr, map_eq_of_forall₂ hv Node.Retyped.expr]
  | becomesElement s targets set =>
    refine (exprs targets fun a ha => by simp [children, ha]).bind fun ts ht =>
      (ih (.expr set) (by simp [children])).bind fun e he =>
        gives_root ?_ (List.rel_append (forall₂_map ht) (.cons he .nil))
    simp [map_eq_of_forall₂ ht Node.Retyped.expr, he.expr]
  | becomesSuch s targets pred =>
    refine (exprs targets fun a ha => by simp [children, ha]).bind fun ts ht =>
      (ih (.pred pred) (by simp [children])).bind fun p hp =>
        gives_root ?_ (List.rel_append (forall₂_map ht) (.cons hp .nil))
    simp [map_eq_of_forall₂ ht Node.Retyped.expr, hp.pred]
  | any s bound pred body | letIn s bound pred body =>
    exact (ih (.pred pred) (by simp [children])).bind fun p hp =>
      (ih (.substitution body) (by simp [children])).bind fun b hb =>
        gives_root (by simp [hp.pred, hb.substitution]) (.cons hp (.cons hb .nil))
  | var s bound body =>
    exact (ih (.substitution body) (by simp [children])).bind fun b hb =>
      gives_root (by simp [hb.substitution]) (.cons hb .nil)
  | guarded s kind cond body =>
    exact (ih (.pred cond) (by simp [children])).bind fun p hp =>
      (ih (.substitution body) (by simp [children])).bind fun b hb =>
        gives_root (by simp [hp.pred, hb.substitution]) (.cons hp (.cons hb .nil))
  | branch s kind conds branches otherwise =>
    refine (Pred.gives_rewriteAllM fun a ha => ih (.pred a) (by simp [children, ha])).bind
      fun cs hc => (substitutions branches fun τ hτ => by simp [children, hτ]).bind fun bs hb =>
        (gives_rewriteOptionM fun τ hτ => ih (.substitution τ)
          (by simp [children, Option.mem_def.1 hτ])).bind fun o ho => gives_root ?_
            (List.rel_append (List.rel_append (forall₂_map hc) (forall₂_map hb)) (forall₂_map ho))
    have last : o.map (restamp .bare) = otherwise.map (restamp .bare) := by
      simpa using congrArg List.head? (map_eq_of_forall₂ ho Node.Retyped.substitution)
    simp [map_eq_of_forall₂ hc Node.Retyped.pred, map_eq_of_forall₂ hb Node.Retyped.substitution,
      last]
  | choice s branches =>
    refine (substitutions branches fun τ hτ => by simp [children, hτ]).bind fun bs hb =>
      gives_root ?_ (forall₂_map hb)
    simp [map_eq_of_forall₂ hb Node.Retyped.substitution]
  | block s kind parts =>
    refine (substitutions parts fun τ hτ => by simp [children, hτ]).bind fun bs hb =>
      gives_root ?_ (forall₂_map hb)
    simp [map_eq_of_forall₂ hb Node.Retyped.substitution]
  | loop s cond body inv variant =>
    exact (ih (.pred cond) (by simp [children])).bind fun c hc =>
      (ih (.substitution body) (by simp [children])).bind fun b hb =>
        (ih (.pred inv) (by simp [children])).bind fun i hi =>
          (ih (.expr variant) (by simp [children])).bind fun v hv =>
            gives_root (by simp [hc.pred, hb.substitution, hi.pred, hv.expr])
              (.cons hc (.cons hb (.cons hi (.cons hv .nil))))
  | call s name callee args assigned =>
    refine (exprs args fun a ha => by simp [children, ha]).bind fun as ha =>
      (exprs assigned fun a ha => by simp [children, ha]).bind fun os ho =>
        gives_root ?_ (List.rel_append (forall₂_map ha) (forall₂_map ho))
    simp [map_eq_of_forall₂ ha Node.Retyped.expr, map_eq_of_forall₂ ho Node.Retyped.expr]

lemma Ltl.resettled_of_children {f : Ltl} (ih : ∀ c ∈ f.children, c.Resettled) :
    (Node.ltl f).Resettled := by
  cases f with
  | unary op arg =>
    exact (ih (.ltl arg) (by simp [children])).bind fun a ha =>
      gives_root (by simp [ha.ltl]) (.cons ha .nil)
  | binary op left right =>
    exact (ih (.ltl left) (by simp [children])).bind fun l hl =>
      (ih (.ltl right) (by simp [children])).bind fun r hr =>
        gives_root (by simp [hl.ltl, hr.ltl]) (.cons hl (.cons hr .nil))
  | keyword op => exact gives_root rfl .nil
  | pred p =>
    exact (ih (.pred p) (by simp [children])).bind fun p hp =>
      gives_root (by simp [hp.pred]) (.cons hp .nil)

/-- The sweep through any tree changes no more than slots and the reading of operators. -/
theorem Node.resettled (n : Node) : n.Resettled := by
  induction n using Node.induction with
  | step n ih =>
    cases n with
    | expr e => exact Expr.resettled_of_children ih
    | pred p => exact Pred.resettled_of_children ih
    | substitution σ => exact Substitution.resettled_of_children ih
    | ltl f => exact Ltl.resettled_of_children ih

end BMethod
