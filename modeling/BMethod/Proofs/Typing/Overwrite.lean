import BMethod.Proofs.Typing.Form
import BMethod.Proofs.Typing.Supply

/-!
# Walks fill all slots anew

A walk that succeeds has put a type into the slot of every node of its tree, whatever the slots held
before: through the tree with empty slots it goes in the same way, and leaves the same
(`Node.overwritten`). Only what is written under an operator without operands is left out, and of such
trees nothing is said.

Both are shown at once, for a pair of walks that take the same steps.
-/

namespace BMethod

open State

/-! ## Pairs of walks. -/

/-- From every state the walks come to the same verdict and the same state, and if they succeed, they
leave the same thing, of which `R` holds. -/
def Walk.Overwrites {ν α : Type} (R : ν → Prop) (x y : CheckM (Visited ν α)) : Prop :=
  ∀ s, (x s).2 = (y s).2 ∧ (x s).1.2 = (y s).1.2 ∧
    ∀ a, (x s).1.2 = .ok a → (x s).1.1 = (y s).1.1 ∧ R (x s).1.1

namespace Walk

variable {ν π α β : Type} {R : ν → Prop} {P : π → Prop}

lemma overwrites_done {n : ν} {a : α} (h : R n) :
    Overwrites R (CheckM.done n a) (CheckM.done n a) := fun _ => ⟨rfl, rfl, fun _ _ => ⟨rfl, h⟩⟩

lemma overwrites_error (n n' : ν) (e : Halt TypeError) :
    Overwrites R (pure (n, .error e) : CheckM (Visited ν α)) (pure (n', .error e)) :=
  fun _ => ⟨rfl, rfl, nofun⟩

lemma overwrites_fail (n n' : ν) (e : TypeError) :
    Overwrites R (CheckM.fail n e : CheckM (Visited ν α)) (CheckM.fail n' e) :=
  overwrites_error n n' (.error e)

lemma overwrites_bind {x : CheckM α} {f g : α → CheckM (Visited ν β)}
    (h : ∀ a, Overwrites R (f a) (g a)) : Overwrites R (x >>= f) (x >>= g) :=
  fun s => h (x s).1 (x s).2

/-- Walks through a part and then on with the whole. -/
lemma Overwrites.andThen {x y : CheckM (Visited π α)} {whole whole' : π → ν}
    {next next' : π → α → CheckM (Visited ν β)} (h : Overwrites P x y)
    (rest : ∀ p a, P p → Overwrites R (next p a) (next' p a)) :
    Overwrites R (x.andThen whole next) (y.andThen whole' next') := by
  intro s
  obtain ⟨state, verdict, ok⟩ := h s
  rw [CheckM.run_andThen, CheckM.run_andThen]
  revert state verdict ok
  obtain ⟨⟨p, v⟩, s'⟩ := x s
  obtain ⟨⟨q, w⟩, t'⟩ := y s
  rintro rfl rfl ok
  cases v with
  | error e => exact ⟨rfl, rfl, nofun⟩
  | ok a =>
    obtain ⟨rfl, hp⟩ := ok a rfl
    exact rest p a hp s'

/-- A step and then on with the walks. -/
lemma overwrites_orFail {step : CheckM (Verdict α)} {n n' : ν}
    {next next' : α → CheckM (Visited ν β)} (rest : ∀ a, Overwrites R (next a) (next' a)) :
    Overwrites R (step.orFail n next) (step.orFail n' next') := by
  intro s
  rw [CheckM.run_orFail, CheckM.run_orFail]
  obtain ⟨_ | a, s'⟩ := step s
  · exact ⟨rfl, rfl, nofun⟩
  · exact rest a s'

end Walk

open Walk

/-! ## Trees. -/

/-- The operators without operands: the least and the greatest integer, the built-in sets, the truth
values, and the empty set and sequence. -/
def Operator.nullary : List Operator :=
  [.minInt, .maxInt, .integerSet, .natural, .natural1, .int, .nat, .nat1, .stringSet, .boolSet,
    .trueValue, .falseValue, .emptySet, .emptySequence]

/-- They are the operators with the rule of constants. -/
lemma Operator.mem_nullary_iff {op : Operator} : op ∈ nullary ↔ op.isNullary = true := by
  cases op <;> decide

namespace Node

/-- The node does not apply an operator without operands to operands. -/
def WellApplied : Node → Prop
  | .expr (.apply _ op args) => op ∈ Operator.nullary → args = []
  | _ => True

/-- The walk through the tree sets all slots of the tree. -/
def Overwritten : Node → Prop
  | .expr e => ∀ expected,
      Overwrites (fun e' => (Node.expr e').Full) (e.check expected) (e.erase.check expected)
  | .pred p => ∀ expected,
      Overwrites (fun p' => (Node.pred p').Full) (p.check expected) (p.erase.check expected)
  | .substitution σ => ∀ scope,
      Overwrites (fun σ' => (Node.substitution σ').Full) (σ.check scope) (σ.erase.check scope)
  | .ltl φ => Overwrites (fun φ' => (Node.ltl φ').Full) φ.check φ.erase.check

lemma full_expr {e : Expr} {t : Ty} (slot : e.note.ty = some t) (parts : ∀ c ∈ e.children, c.Full) :
    (Node.expr e).Full :=
  full_iff.2 ⟨fun _ => ⟨t, slot⟩, parts⟩

lemma full_pred {p : Pred} {t : Ty} (slot : p.note.ty = some t) (parts : ∀ c ∈ p.children, c.Full) :
    (Node.pred p).Full :=
  full_iff.2 ⟨fun _ => ⟨t, slot⟩, parts⟩

lemma full_substitution {σ : Substitution} (parts : ∀ c ∈ σ.children, c.Full) :
    (Node.substitution σ).Full :=
  full_iff.2 ⟨nofun, parts⟩

lemma full_ltl {φ : Ltl} (parts : ∀ c ∈ φ.children, c.Full) : (Node.ltl φ).Full :=
  full_iff.2 ⟨nofun, parts⟩

end Node

/-- All slots of the expressions are filled. -/
def Expr.AllFull (es : List Expr) : Prop := ∀ c ∈ es.map Node.expr, c.Full

/-- All slots of the values of the fields are filled. -/
def Expr.FieldsFull (fields : List (FieldLabel × Expr)) : Prop :=
  ∀ c ∈ fields.map (Node.expr ·.2), c.Full

/-- All slots of the predicates are filled. -/
def Pred.AllFull (ps : List Pred) : Prop := ∀ c ∈ ps.map Node.pred, c.Full

/-- All slots of the substitutions are filled. -/
def Substitution.AllFull (σs : List Substitution) : Prop := ∀ c ∈ σs.map Node.substitution, c.Full

/-- Settling two nodes that differ in their slots alone, when their parts are full. -/
lemma Expr.overwrites_settle {a b : Expr} {expected found : Ty} (site : a.site = b.site)
    (same : ∀ t, a.withTy t = b.withTy t) (parts : ∀ c ∈ a.children, c.Full) :
    Overwrites (fun e => (Node.expr e).Full) (a.settle expected found) (b.settle expected found) := by
  rw [settle, settle, site]
  refine overwrites_orFail fun t => ?_
  rw [← same t]
  exact overwrites_done (Node.full_expr (t := t) (by simp [Note.withTy]) (by simpa using parts))

lemma Pred.overwrites_settle {a b : Pred} {expected found : Ty} (site : a.site = b.site)
    (same : ∀ t, a.withTy t = b.withTy t) (parts : ∀ c ∈ a.children, c.Full) :
    Overwrites (fun p => (Node.pred p).Full) (a.settle expected found) (b.settle expected found) := by
  rw [settle, settle, site]
  refine overwrites_orFail fun t => ?_
  rw [← same t]
  exact overwrites_done (Node.full_pred (t := t) (by simp [Note.withTy]) (by simpa using parts))

/-! ## Operators. -/

section

variable {n : Note} {op : Operator} {args args' : List Expr} {expected : Ty}

/-- Walks through the operands, and through those with empty slots, that set all slots if no operand is
left out. -/
structure OperandWalks.Overwrite (args : List Expr) (walks walks' : OperandWalks) : Prop where
  forward : ∀ ts, args.length = ts.length →
    Overwrites Expr.AllFull (walks.forward ts) (walks'.forward ts)
  backward : ∀ ts, args.length = ts.length →
    Overwrites Expr.AllFull (walks.backward ts) (walks'.backward ts)
  chain : ∀ t, Overwrites Expr.AllFull (walks.chain t) (walks'.chain t)
  apart : Overwrites Expr.AllFull walks.apart walks'.apart
  call : ∀ t, Overwrites Expr.AllFull (walks.call t) (walks'.call t)

variable {walks walks' : OperandWalks}

lemma Expr.overwrites_withOperands {α : Type} {m m' : Note} {count : Nat}
    {walk walk' : CheckM (Visited (List Expr) α)}
    {next next' : List Expr → α → CheckM (Visited Expr Ty)} (span : m.span = m'.span)
    (len : args.length = args'.length)
    (h : args.length = count → Overwrites AllFull walk walk')
    (rest : ∀ es a, AllFull es → Overwrites (fun e => (Node.expr e).Full) (next es a) (next' es a)) :
    Overwrites (fun e => (Node.expr e).Full) (withOperands m op args count walk next)
      (withOperands m' op args' count walk' next') := by
  have site : (apply m op args).site = (apply m' op args').site := congrArg (Site.mk _) span
  rw [withOperands, withOperands, ← len, site]
  split
  · rename_i count'
    exact (h count').andThen rest
  · exact overwrites_fail _ _ _

lemma Expr.overwrites_resultFirst {result : Ty} {count : Nat}
    {walk walk' : Ty → CheckM (Visited (List Expr) Unit)} (len : args.length = args'.length)
    (h : args.length = count → ∀ t, Overwrites AllFull (walk t) (walk' t)) :
    Overwrites (fun e => (Node.expr e).Full)
      (resultFirst n op args expected result count walk)
      (resultFirst (Stamp.blank.note n) op args' expected result count walk') :=
  overwrites_orFail fun t => overwrites_withOperands rfl len (fun count => h count t) fun _ _ full =>
    overwrites_done (Node.full_expr rfl full)

lemma Signature.overwrites_check (sig : Signature) (len : args.length = args'.length)
    (h : walks.Overwrite args walks') :
    Overwrites (fun e => (Node.expr e).Full) (sig.check n op args expected walks)
      (sig.check (Stamp.blank.note n) op args' expected walks') := by
  refine overwrites_bind fun ps => ?_
  have operands (count : args.length = sig.operands.length) (t : Ty) :
      args.length = (sig.operands.map (Shape.instantiate ps t)).length := by
    rw [count, List.length_map]
  cases sig.order with
  | forward =>
    exact Expr.overwrites_resultFirst len fun count t => h.forward _ (operands count t)
  | backward =>
    exact Expr.overwrites_resultFirst len fun count t => h.backward _ (operands count t)
  | inward =>
    exact Expr.overwrites_withOperands rfl len (fun count => h.forward _ (operands count expected))
      fun _ _ full => Expr.overwrites_settle rfl (fun _ => rfl) full

lemma Rule.overwrites_checkDifference (len : args.length = args'.length)
    (h : walks.Overwrite args walks') :
    Overwrites (fun e => (Node.expr e).Full) (checkDifference n op args expected walks)
      (checkDifference (Stamp.blank.note n) op args' expected walks') :=
  overwrites_bind fun _ => overwrites_bind fun _ =>
    Expr.overwrites_resultFirst len fun count t => h.forward [t, t] count

lemma Rule.overwrites_checkProduct (len : args.length = args'.length)
    (h : walks.Overwrite args walks') :
    Overwrites (fun e => (Node.expr e).Full) (checkProduct n op args expected walks)
      (checkProduct (Stamp.blank.note n) op args' expected walks') :=
  overwrites_bind fun _ => overwrites_bind fun _ => overwrites_bind fun _ =>
    overwrites_orFail fun _ => overwrites_bind fun left => overwrites_bind fun right =>
      overwrites_orFail fun _ => Expr.overwrites_withOperands rfl len
        (fun count => h.forward [left, right] count) fun _ _ full =>
          overwrites_done (Node.full_expr rfl full)

lemma Rule.overwrites_checkPair (len : args.length = args'.length)
    (h : walks.Overwrite args walks') :
    Overwrites (fun e => (Node.expr e).Full) (checkPair n op args expected walks)
      (checkPair (Stamp.blank.note n) op args' expected walks') := by
  refine Expr.overwrites_withOperands rfl len (fun _ => h.apart) fun es ts full => ?_
  cases Ty.tuple? ts with
  | none => exact overwrites_fail _ _ _
  | some t => exact Expr.overwrites_settle rfl (fun _ => rfl) full

lemma Rule.overwrites_checkEnumeration (shape : Shape) (h : walks.Overwrite args walks') :
    Overwrites (fun e => (Node.expr e).Full) (checkEnumeration n op args expected walks shape)
      (checkEnumeration (Stamp.blank.note n) op args' expected walks' shape) :=
  overwrites_bind fun _ => overwrites_orFail fun _ => (h.chain _).andThen fun _ _ full =>
    overwrites_done (Node.full_expr rfl full)

lemma Rule.overwrites_checkApplication (len : args.length = args'.length)
    (h : walks.Overwrite args walks') :
    Overwrites (fun e => (Node.expr e).Full) (checkApplication n op args expected walks)
      (checkApplication (Stamp.blank.note n) op args' expected walks') := by
  rw [checkApplication, checkApplication, ← len]
  split
  · exact overwrites_fail _ _ _
  · exact overwrites_bind fun _ => (h.call _).andThen fun _ _ full =>
      Expr.overwrites_settle rfl (fun _ => rfl) full

/-- The rules of all operators set the slot of the whole, and those of the operands if the walks through
the operands do. A constant has no operands. -/
lemma Operator.overwrites_check (len : args.length = args'.length)
    (bare : op.isNullary = true → args = []) (h : walks.Overwrite args walks') :
    Overwrites (fun e => (Node.expr e).Full) (op.check n args expected walks)
      (op.check (Stamp.blank.note n) args' expected walks') := by
  rw [isNullary] at bare
  rw [check, check]
  revert bare
  cases op.rule with
  | fixed sig => exact fun _ => sig.overwrites_check len h
  | constant params shape =>
    intro bare
    obtain rfl := bare rfl
    obtain rfl := List.length_eq_zero_iff.1 len.symm
    exact overwrites_bind fun _ => Expr.overwrites_settle rfl (fun _ => rfl) (List.forall_mem_nil _)
  | difference => exact fun _ => Rule.overwrites_checkDifference len h
  | product => exact fun _ => Rule.overwrites_checkProduct len h
  | pair => exact fun _ => Rule.overwrites_checkPair len h
  | enumeration shape => exact fun _ => Rule.overwrites_checkEnumeration shape h
  | application => exact fun _ => Rule.overwrites_checkApplication len h

end

/-! ## Expressions and predicates. -/

namespace Expr

variable {es : List Expr} {fields : List (FieldLabel × Expr)}

lemma allFull_nil : AllFull [] := nofun

lemma AllFull.cons {e : Expr} (h : (Node.expr e).Full) (hs : AllFull es) : AllFull (e :: es) :=
  List.forall_mem_cons.2 ⟨h, hs⟩

lemma overwrites_checkForward (h : ∀ e ∈ es, (Node.expr e).Overwritten) (ts : List Ty)
    (len : es.length = ts.length) :
    Overwrites AllFull (checkForward es ts) (checkForward (es.map erase) ts) := by
  induction es generalizing ts with
  | nil => exact overwrites_done allFull_nil
  | cons e es ih =>
    rw [List.forall_mem_cons] at h
    cases ts with
    | nil => cases len
    | cons t ts =>
      rw [List.map_cons, checkForward, checkForward]
      exact (h.1 t).andThen fun _ _ full => (ih h.2 ts (by simpa using len)).andThen
        fun _ _ all => overwrites_done (.cons full all)

lemma overwrites_checkBackward (h : ∀ e ∈ es, (Node.expr e).Overwritten) (ts : List Ty)
    (len : es.length = ts.length) :
    Overwrites AllFull (checkBackward es ts) (checkBackward (es.map erase) ts) := by
  induction es generalizing ts with
  | nil => exact overwrites_done allFull_nil
  | cons e es ih =>
    rw [List.forall_mem_cons] at h
    cases ts with
    | nil => cases len
    | cons t ts =>
      rw [List.map_cons, checkBackward, checkBackward]
      exact (ih h.2 ts (by simpa using len)).andThen fun _ _ all => (h.1 t).andThen
        fun _ _ full => overwrites_done (.cons full all)

lemma overwrites_checkChain (h : ∀ e ∈ es, (Node.expr e).Overwritten) (t : Ty) :
    Overwrites AllFull (checkChain es t) (checkChain (es.map erase) t) := by
  induction es generalizing t with
  | nil => exact overwrites_done allFull_nil
  | cons e es ih =>
    rw [List.forall_mem_cons] at h
    rw [List.map_cons, checkChain, checkChain]
    exact (h.1 t).andThen fun _ t full => (ih h.2 t).andThen fun _ _ all =>
      overwrites_done (.cons full all)

lemma overwrites_checkApart (h : ∀ e ∈ es, (Node.expr e).Overwritten) :
    Overwrites AllFull (checkApart es) (checkApart (es.map erase)) := by
  induction es with
  | nil => exact overwrites_done allFull_nil
  | cons e es ih =>
    rw [List.forall_mem_cons] at h
    rw [List.map_cons, checkApart, checkApart]
    exact overwrites_bind fun t => (h.1 t).andThen fun _ _ full => (ih h.2).andThen fun _ _ all =>
      overwrites_done (.cons full all)

lemma overwrites_checkCall (h : ∀ e ∈ es, (Node.expr e).Overwritten) (site : Site) (t : Ty) :
    Overwrites AllFull (checkCall site es t) (checkCall site (es.map erase) t) := by
  cases es with
  | nil => exact overwrites_done allFull_nil
  | cons f args =>
    rw [List.forall_mem_cons] at h
    rw [List.map_cons, checkCall, checkCall]
    refine (overwrites_checkApart h.2).andThen fun _ ts all => ?_
    cases Ty.tuple? ts with
    | none => exact overwrites_fail _ _ _
    | some domain =>
      exact (h.1 _).andThen fun _ _ full => overwrites_done (.cons full all)

lemma fieldsFull_cons {label : FieldLabel} {e : Expr} (h : (Node.expr e).Full)
    (hs : FieldsFull fields) : FieldsFull ((label, e) :: fields) :=
  List.forall_mem_cons.2 ⟨h, hs⟩

lemma overwrites_checkRecord (h : ∀ f ∈ fields, (Node.expr f.2).Overwritten) :
    Overwrites FieldsFull (checkRecord fields) (checkRecord (eraseFields fields)) := by
  induction fields with
  | nil => exact overwrites_done nofun
  | cons f fields ih =>
    obtain ⟨label, e⟩ := f
    rw [List.forall_mem_cons] at h
    rw [eraseFields, List.map_cons, checkRecord, checkRecord]
    exact overwrites_bind fun t => (h.1 t).andThen fun _ _ full => (ih h.2).andThen
      fun _ _ all => overwrites_done (fieldsFull_cons full all)

lemma overwrites_checkStruct (h : ∀ f ∈ fields, (Node.expr f.2).Overwritten) :
    Overwrites FieldsFull (checkStruct fields) (checkStruct (eraseFields fields)) := by
  induction fields with
  | nil => exact overwrites_done nofun
  | cons f fields ih =>
    obtain ⟨label, e⟩ := f
    rw [List.forall_mem_cons] at h
    rw [eraseFields, List.map_cons, checkStruct, checkStruct]
    exact overwrites_bind fun t => (h.1 _).andThen fun _ _ full => (ih h.2).andThen
      fun _ _ all => overwrites_done (fieldsFull_cons full all)

lemma overwrites_checkCompared {op : Comparison} {l r : Expr} (hl : (Node.expr l).Overwritten)
    (hr : (Node.expr r).Overwritten) :
    Overwrites AllFull (checkCompared op [l, r]) (checkCompared op [l.erase, r.erase]) := by
  have both {l r : Expr} (hl : (Node.expr l).Full) (hr : (Node.expr r).Full) : AllFull [l, r] :=
    .cons hl (.cons hr allFull_nil)
  cases op with
  | equal | notEqual =>
    exact overwrites_bind fun t => (hr t).andThen fun _ t fr => (hl t).andThen fun _ _ fl =>
      overwrites_done (both fl fr)
  | elementOf | notBelonging =>
    exact overwrites_bind fun t => (hl t).andThen fun _ t fl => (hr _).andThen fun _ _ fr =>
      overwrites_done (both fl fr)
  | less | lessEqual | greater | greaterEqual =>
    exact (hl _).andThen fun _ _ fl => (hr _).andThen fun _ _ fr => overwrites_done (both fl fr)
  | inclusion | nonInclusion | strictInclusion | strictNonInclusion =>
    exact overwrites_bind fun t => (hl _).andThen fun _ t fl => (hr t).andThen fun _ _ fr =>
      overwrites_done (both fl fr)

/-- The walk through an expression sets its slot and what the walks through its parts set. -/
lemma overwritten_of_children {e : Expr} (applied : (Node.expr e).WellApplied)
    (ih : ∀ c ∈ e.children, c.Overwritten) : (Node.expr e).Overwritten := by
  intro expected
  cases e with
  | identifier n decl name =>
    exact overwrites_bind fun _ => overwrites_settle rfl (fun _ => rfl) (List.forall_mem_nil _)
  | integer | real | string => exact overwrites_settle rfl (fun _ => rfl) (List.forall_mem_nil _)
  | apply n op args =>
    have parts (a : Expr) (ha : a ∈ args) : (Node.expr a).Overwritten :=
      ih _ (List.mem_map.2 ⟨a, ha, rfl⟩)
    rw [erase, restamp_apply, check, check]
    exact Operator.overwrites_check (by simp) (applied ∘ Operator.mem_nullary_iff.2) ⟨overwrites_checkForward parts,
      overwrites_checkBackward parts, overwrites_checkChain parts, overwrites_checkApart parts,
      overwrites_checkCall parts _⟩
  | aggregate n op bound pred body =>
    simp only [children, List.forall_mem_cons] at ih
    rw [erase, restamp_aggregate, check, check]
    exact overwrites_bind fun _ => (ih.1 _).andThen fun _ _ fp => overwrites_bind fun _ =>
      overwrites_orFail fun _ => (ih.2.1 _).andThen fun _ _ fb =>
        overwrites_done (Node.full_expr rfl (by simp [children, fp, fb]))
  | comprehension n bound pred =>
    simp only [children, List.forall_mem_cons] at ih
    rw [erase, restamp_comprehension, check, check]
    exact overwrites_bind fun _ => (ih.1 _).andThen fun _ _ fp => overwrites_orFail fun _ =>
      overwrites_settle rfl (fun _ => rfl) (by simp [children, fp])
  | lambda n bound pred body =>
    simp only [children, List.forall_mem_cons] at ih
    rw [erase, restamp_lambda, check, check]
    exact overwrites_bind fun _ => (ih.1 _).andThen fun _ _ fp => overwrites_orFail fun _ =>
      overwrites_bind fun _ => (ih.2.1 _).andThen fun _ _ fb =>
        overwrites_settle rfl (fun _ => rfl) (by simp [children, fp, fb])
  | ite n cond yes no =>
    simp only [children, List.forall_mem_cons] at ih
    rw [erase, restamp_ite, check, check]
    exact (ih.1 _).andThen fun _ _ fc => overwrites_bind fun _ => (ih.2.1 _).andThen fun _ _ fy =>
      (ih.2.2.1 _).andThen fun _ _ fn =>
        overwrites_settle rfl (fun _ => rfl) (by simp [children, fc, fy, fn])
  | letIn n bound pred body =>
    simp only [children, List.forall_mem_cons] at ih
    rw [erase, restamp_letIn, check, check]
    exact overwrites_bind fun _ => (ih.1 _).andThen fun _ _ fp => overwrites_bind fun _ =>
      (ih.2.1 _).andThen fun _ _ fb =>
        overwrites_settle rfl (fun _ => rfl) (by simp [children, fp, fb])
  | record n fields =>
    have values (f : FieldLabel × Expr) (hf : f ∈ fields) : (Node.expr f.2).Overwritten :=
      ih _ (List.mem_map.2 ⟨f, hf, rfl⟩)
    rw [erase, restamp_record, check, check]
    exact (overwrites_checkRecord values).andThen fun _ _ all =>
      overwrites_settle rfl (fun _ => rfl) all
  | struct n fields =>
    have values (f : FieldLabel × Expr) (hf : f ∈ fields) : (Node.expr f.2).Overwritten :=
      ih _ (List.mem_map.2 ⟨f, hf, rfl⟩)
    rw [erase, restamp_struct, check, check]
    exact (overwrites_checkStruct values).andThen fun _ _ all =>
      overwrites_settle rfl (fun _ => rfl) all
  | field n target name =>
    simp only [children, List.forall_mem_cons] at ih
    rw [erase, restamp_field, check, check]
    refine overwrites_bind fun t => (ih.1 t).andThen fun target' t ft => overwrites_bind fun s => ?_
    split
    · exact overwrites_error _ _ _
    · split
      · exact overwrites_settle rfl (fun _ => rfl) (by simp [children, ft])
      · exact overwrites_orFail fun _ => overwrites_fail _ _ _
    · exact overwrites_orFail fun _ => overwrites_fail _ _ _
  | bool n pred =>
    simp only [children, List.forall_mem_cons] at ih
    rw [erase, restamp_bool, check, check]
    exact (ih.1 _).andThen fun _ _ fp =>
      overwrites_settle rfl (fun _ => rfl) (by simp [children, fp])

end Expr

namespace Pred

lemma overwrites_checkAll {ps : List Pred} (h : ∀ p ∈ ps, (Node.pred p).Overwritten) :
    Overwrites AllFull (checkAll ps) (checkAll (ps.map erase)) := by
  induction ps with
  | nil => exact overwrites_done nofun
  | cons p ps ih =>
    rw [List.forall_mem_cons] at h
    rw [List.map_cons, checkAll, checkAll]
    exact (h.1 _).andThen fun _ _ full => (ih h.2).andThen fun _ _ all =>
      overwrites_done (List.forall_mem_cons.2 ⟨full, all⟩)

/-- The walk through a predicate sets its slot and what the walks through its parts set. -/
lemma overwritten_of_children {p : Pred} (ih : ∀ c ∈ p.children, c.Overwritten) :
    (Node.pred p).Overwritten := by
  intro expected
  cases p with
  | connective n op args =>
    have parts (a : Pred) (ha : a ∈ args) : (Node.pred a).Overwritten :=
      ih _ (List.mem_map.2 ⟨a, ha, rfl⟩)
    rw [erase, restamp_connective, check, check]
    exact overwrites_orFail fun _ => (overwrites_checkAll parts).andThen fun _ _ all =>
      overwrites_done (Node.full_pred rfl all)
  | comparison n op args =>
    rw [erase, restamp_comparison, check, check]
    refine overwrites_orFail fun _ => ?_
    rw [List.length_map]
    split
    · rename_i len
      obtain ⟨l, r, rfl⟩ := List.length_eq_two.1 len
      simp only [children, List.map_cons, List.forall_mem_cons] at ih
      exact (Expr.overwrites_checkCompared ih.1 ih.2.1).andThen fun _ _ all =>
        overwrites_done (Node.full_pred rfl all)
    · exact overwrites_fail _ _ _
  | identifier n decl name =>
    exact overwrites_bind fun _ => overwrites_settle rfl (fun _ => rfl) (List.forall_mem_nil _)
  | quantified n op bound pred =>
    simp only [children, List.forall_mem_cons] at ih
    rw [erase, restamp_quantified, check, check]
    exact overwrites_bind fun _ => (ih.1 _).andThen fun _ _ fp =>
      overwrites_settle rfl (fun _ => rfl) (by simp [children, fp])
  | ite n cond yes no =>
    simp only [children, List.forall_mem_cons] at ih
    rw [erase, restamp_ite, check, check]
    exact (ih.1 _).andThen fun _ _ fc => (ih.2.1 _).andThen fun _ _ fy =>
      (ih.2.2.1 _).andThen fun _ _ fn =>
        overwrites_settle rfl (fun _ => rfl) (by simp [children, fc, fy, fn])
  | letIn n bound defs body =>
    simp only [children, List.forall_mem_cons] at ih
    rw [erase, restamp_letIn, check, check]
    exact overwrites_bind fun _ => (ih.1 _).andThen fun _ _ fd => (ih.2.1 _).andThen fun _ _ fb =>
      overwrites_settle rfl (fun _ => rfl) (by simp [children, fd, fb])

end Pred

/-! ## Substitutions and temporal formulas. -/

section

variable {scope : Scope}

lemma overwrites_checkAssigned {targets values : List Expr}
    (ht : ∀ e ∈ targets, (Node.expr e).Overwritten) (hv : ∀ e ∈ values, (Node.expr e).Overwritten)
    (len : targets.length = values.length) :
    Overwrites (fun r => Expr.AllFull r.1 ∧ Expr.AllFull r.2) (checkAssigned targets values)
      (checkAssigned (targets.map Expr.erase) (values.map Expr.erase)) := by
  induction targets generalizing values with
  | nil =>
    obtain rfl : values = [] := List.length_eq_zero_iff.1 len.symm
    exact overwrites_done ⟨nofun, nofun⟩
  | cons target targets ih =>
    cases values with
    | nil => cases len
    | cons value values =>
      rw [List.forall_mem_cons] at ht hv
      rw [List.map_cons, List.map_cons, checkAssigned, checkAssigned]
      exact overwrites_bind fun t => (ht.1 t).andThen fun _ t ft => (hv.1 t).andThen fun _ _ fv =>
        (ih ht.2 hv.2 (by simpa using len)).andThen fun _ _ all =>
          overwrites_done ⟨all.1.cons ft, all.2.cons fv⟩

lemma overwrites_checkCalled {span : Option Span} {name : String} {callee : Callee}
    {args assigned : List Expr} (ha : ∀ e ∈ args, (Node.expr e).Overwritten)
    (ho : ∀ e ∈ assigned, (Node.expr e).Overwritten) :
    Overwrites (fun r => Expr.AllFull r.1 ∧ Expr.AllFull r.2)
      (checkCalled scope span name callee args assigned)
      (checkCalled scope span name callee (args.map Expr.erase) (assigned.map Expr.erase)) := by
  refine overwrites_bind fun types => ?_
  cases types with
  | none => exact overwrites_fail _ _ _
  | some types =>
    obtain ⟨params, outputs⟩ := types
    simp only [List.length_map]
    split
    · exact overwrites_fail _ _ _
    · split
      · exact overwrites_fail _ _ _
      · rename_i lenA lenO
        exact (Expr.overwrites_checkForward ha params (not_not.1 lenA)).andThen fun _ _ fa =>
          (Expr.overwrites_checkForward ho outputs (not_not.1 lenO)).andThen fun _ _ fo =>
            overwrites_done ⟨fa, fo⟩

namespace Substitution

lemma overwrites_checkAll {σs : List Substitution}
    (h : ∀ σ ∈ σs, (Node.substitution σ).Overwritten) :
    Overwrites AllFull (checkAll scope σs) (checkAll scope (σs.map erase)) := by
  induction σs with
  | nil => exact overwrites_done nofun
  | cons σ σs ih =>
    rw [List.forall_mem_cons] at h
    rw [List.map_cons, checkAll, checkAll]
    exact (h.1 scope).andThen fun _ _ full => (ih h.2).andThen fun _ _ all =>
      overwrites_done (List.forall_mem_cons.2 ⟨full, all⟩)

lemma overwrites_checkOption {o : Option Substitution}
    (h : ∀ σ ∈ o, (Node.substitution σ).Overwritten) :
    Overwrites (fun o' => AllFull o'.toList) (checkOption scope o)
      (checkOption scope (o.map erase)) := by
  cases o with
  | none => exact overwrites_done nofun
  | some σ =>
    rw [Option.map_some, checkOption, checkOption]
    exact (h σ rfl scope).andThen fun _ _ full => overwrites_done (by simpa [AllFull] using full)

/-- The walk through a substitution sets what the walks through its parts set. -/
lemma overwritten_of_children {σ : Substitution} (ih : ∀ c ∈ σ.children, c.Overwritten) :
    (Node.substitution σ).Overwritten := by
  intro scope
  have exprs {es : List Expr} (h : ∀ e ∈ es, .expr e ∈ σ.children) :
      ∀ e ∈ es, (Node.expr e).Overwritten := fun e he => ih _ (h e he)
  have substitutions {τs : List Substitution} (h : ∀ τ ∈ τs, .substitution τ ∈ σ.children) :
      ∀ τ ∈ τs, (Node.substitution τ).Overwritten := fun τ hτ => ih _ (h τ hτ)
  cases σ with
  | skip s => exact overwrites_done (Node.full_substitution (List.forall_mem_nil _))
  | assign s targets values =>
    rw [erase, restamp_assign, check, check, List.length_map, List.length_map]
    split
    · rename_i len
      exact (overwrites_checkAssigned (exprs fun e he => by simp [children, he])
        (exprs fun e he => by simp [children, he]) len).andThen fun _ _ all =>
          overwrites_done (Node.full_substitution (List.forall_mem_append.2 all))
    · exact overwrites_fail _ _ _
  | becomesElement s targets set =>
    rw [erase, restamp_becomesElement, check, check]
    refine (Expr.overwrites_checkApart (exprs fun e he => by simp [children, he])).andThen
      fun _ ts all => ?_
    cases Ty.tuple? ts with
    | none => exact overwrites_fail _ _ _
    | some t =>
      have part : (Node.expr set).Overwritten := ih _ (by simp [children])
      exact (part _).andThen fun _ _ full => overwrites_done
        (Node.full_substitution (List.forall_mem_append.2 ⟨all, by simpa using full⟩))
  | becomesSuch s targets pred =>
    have part : (Node.pred pred).Overwritten := ih _ (by simp [children])
    rw [erase, restamp_becomesSuch, check, check]
    exact (Expr.overwrites_checkApart (exprs fun e he => by simp [children, he])).andThen
      fun _ _ all => (part _).andThen fun _ _ full => overwrites_done
        (Node.full_substitution (List.forall_mem_append.2 ⟨all, by simpa using full⟩))
  | any s bound pred body =>
    simp only [children, List.forall_mem_cons] at ih
    rw [erase, restamp_any, check, check]
    exact overwrites_bind fun _ => (ih.1 _).andThen fun _ _ fp => (ih.2.1 scope).andThen
      fun _ _ fb => overwrites_done (Node.full_substitution (by simp [children, fp, fb]))
  | letIn s bound pred body =>
    simp only [children, List.forall_mem_cons] at ih
    rw [erase, restamp_letIn, check, check]
    exact overwrites_bind fun _ => (ih.1 _).andThen fun _ _ fp => (ih.2.1 scope).andThen
      fun _ _ fb => overwrites_done (Node.full_substitution (by simp [children, fp, fb]))
  | var s bound body =>
    simp only [children, List.forall_mem_cons] at ih
    rw [erase, restamp_var, check, check]
    exact overwrites_bind fun _ => (ih.1 scope).andThen fun _ _ fb =>
      overwrites_done (Node.full_substitution (by simp [children, fb]))
  | guarded s kind cond body =>
    simp only [children, List.forall_mem_cons] at ih
    rw [erase, restamp_guarded, check, check]
    exact (ih.1 _).andThen fun _ _ fc => (ih.2.1 scope).andThen fun _ _ fb =>
      overwrites_done (Node.full_substitution (by simp [children, fc, fb]))
  | branch s kind conds branches otherwise =>
    have conditions (p : Pred) (hp : p ∈ conds) : (Node.pred p).Overwritten :=
      ih _ (by simp [children, hp])
    have last (τ : Substitution) (hτ : τ ∈ otherwise) : (Node.substitution τ).Overwritten :=
      ih _ (by simp [children, Option.mem_def.1 hτ])
    rw [erase, restamp_branch, check, check]
    exact (Pred.overwrites_checkAll conditions).andThen fun _ _ fc =>
      (overwrites_checkAll (substitutions fun τ hτ => by simp [children, hτ])).andThen fun _ _ fb =>
        (overwrites_checkOption last).andThen fun _ _ fo => overwrites_done (Node.full_substitution
          (List.forall_mem_append.2 ⟨List.forall_mem_append.2 ⟨fc, fb⟩, fo⟩))
  | choice s branches =>
    rw [erase, restamp_choice, check, check]
    exact (overwrites_checkAll (substitutions fun τ hτ => by simp [children, hτ])).andThen
      fun _ _ all => overwrites_done (Node.full_substitution all)
  | block s kind parts =>
    rw [erase, restamp_block, check, check]
    exact (overwrites_checkAll (substitutions fun τ hτ => by simp [children, hτ])).andThen
      fun _ _ all => overwrites_done (Node.full_substitution all)
  | loop s cond body inv variant =>
    simp only [children, List.forall_mem_cons] at ih
    rw [erase, restamp_loop, check, check]
    exact (ih.1 _).andThen fun _ _ fc => (ih.2.1 scope).andThen fun _ _ fb =>
      (ih.2.2.1 _).andThen fun _ _ fi => (ih.2.2.2.1 _).andThen fun _ _ fv =>
        overwrites_done (Node.full_substitution (by simp [children, fc, fb, fi, fv]))
  | call s name callee args assigned =>
    rw [erase, restamp_call, check, check]
    exact (overwrites_checkCalled (exprs fun e he => by simp [children, he])
      (exprs fun e he => by simp [children, he])).andThen fun _ _ all =>
        overwrites_done (Node.full_substitution (List.forall_mem_append.2 all))

end Substitution

/-- The walk through a temporal formula sets what the walks through its parts set. -/
lemma Ltl.overwritten_of_children {φ : Ltl} (ih : ∀ c ∈ φ.children, c.Overwritten) :
    (Node.ltl φ).Overwritten := by
  have part {ψ : Ltl} (h : (Node.ltl ψ).Overwritten) :
      Overwrites (fun φ' => (Node.ltl φ').Full) ψ.check (ψ.restamp .blank).check := h
  rw [Node.Overwritten]
  cases φ with
  | unary op arg =>
    simp only [children, List.forall_mem_cons] at ih
    rw [erase, restamp_unary, check, check]
    exact (part ih.1).andThen fun _ _ fa => overwrites_done (Node.full_ltl (by simp [children, fa]))
  | binary op left right =>
    simp only [children, List.forall_mem_cons] at ih
    rw [erase, restamp_binary, check, check]
    exact (part ih.1).andThen fun _ _ fl => (part ih.2.1).andThen fun _ _ fr =>
      overwrites_done (Node.full_ltl (by simp [children, fl, fr]))
  | keyword op => exact overwrites_done (Node.full_ltl (List.forall_mem_nil _))
  | pred p =>
    simp only [children, List.forall_mem_cons] at ih
    rw [erase, restamp_pred, check, check]
    exact (ih.1 _).andThen fun _ _ fp => overwrites_done (Node.full_ltl (by simp [children, fp]))

end

/-- The walk through any tree sets all slots of the tree, unless an operator without operands has some
written under it. -/
theorem Node.overwritten (n : Node) (applied : ∀ m ∈ n.preorder, m.WellApplied) : n.Overwritten := by
  induction n using Node.induction with
  | step n ih =>
    rw [preorder_eq, List.forall_mem_cons, List.forall_mem_flatMap] at applied
    have parts (c : Node) (hc : c ∈ n.children) : c.Overwritten := ih c hc (applied.2 c hc)
    cases n with
    | expr e => exact Expr.overwritten_of_children applied.1 parts
    | pred p => exact Pred.overwritten_of_children parts
    | substitution σ => exact Substitution.overwritten_of_children parts
    | ltl φ => exact Ltl.overwritten_of_children parts

end BMethod
