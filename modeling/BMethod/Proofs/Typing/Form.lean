import BMethod.Proofs.Typing.Conclude

/-!
# Walks keep the form of trees

Walking through a tree puts types into slots and does nothing else to the tree: whatever the verdict,
emptying all slots of what the walk leaves gives the same as emptying those of the tree
(`Node.walked`). A walk that fails has put the parts it got through back in place; and it never fails
because a type is not known, which is for the conclusion and the phases of a machine to find out.
-/

namespace BMethod

open State

/-! ## What a walk leaves. -/

/-- Whatever its verdict, the walk leaves something of which `R` holds. If it fails with an error, then not
because a type is not known. -/
def Walk.Yields {ν α : Type} (R : ν → Prop) (x : CheckM (Visited ν α)) : Prop :=
  ∀ s, R (x s).1.1 ∧ ∀ e, (x s).1.2 = .error (.error e) → e.isUnresolved = false

/-- If the step fails with an error, then not because a type is not known. -/
def Step.Definite {α : Type} (x : CheckM (Verdict α)) : Prop :=
  ∀ s e, (x s).1 = .error (.error e) → e.isUnresolved = false

section

variable {ν π α β : Type} {R : ν → Prop} {P : π → Prop}

namespace Step

lemma definite_ok (a : α) : Definite (pure (.ok a) : CheckM (Verdict α)) := nofun

lemma definite_divergence : Definite (pure (.error .divergence) : CheckM (Verdict α)) := nofun

lemma definite_error {e : TypeError} (h : e.isUnresolved = false) :
    Definite (pure (.error (.error e)) : CheckM (Verdict α)) := by
  rintro s e' ⟨⟩
  exact h

lemma definite_bind {x : CheckM α} {f : α → CheckM (Verdict β)} (h : ∀ a, Definite (f a)) :
    Definite (x >>= f) := fun s => h (x s).1 (x s).2

lemma run_resolve_cases (t : Ty) (s : State) :
    resolve t s = (.error .divergence, s) ∨ ∃ u, resolve t s = (.ok u, s) := by
  simp only [resolve, bind, StateT.bind, get, getThe, MonadStateOf.get, StateT.get, pure]
  cases s.unifier.store.resolve? t with
  | none => exact .inl rfl
  | some u => exact .inr ⟨u, rfl⟩

lemma definite_resolve {t : Ty} : Definite (resolve t) := by
  intro s e error
  obtain run | ⟨u, run⟩ := run_resolve_cases t s <;> rw [run] at error <;> cases error

/-- A mismatch is one of types, as far as they are known. -/
lemma definite_mismatch (site : Site) (l r : Ty) (e : Halt UnifyError) :
    Definite (mismatch site l r e : CheckM (Verdict α)) := by
  cases e with
  | divergence => exact definite_divergence
  | error cause =>
    intro s e error
    obtain hl | ⟨l', hl⟩ := run_resolve_cases l s
    · simp only [mismatch, bind, StateT.bind, hl] at error
      cases error
    · obtain hr | ⟨r', hr⟩ := run_resolve_cases r s <;>
        simp only [mismatch, bind, StateT.bind, hl, hr] at error <;> cases error
      rfl

lemma definite_unifyAt {site : Site} {l r : Ty} : Definite (unifyAt site l r) := by
  refine definite_bind fun v => ?_
  cases v with
  | ok t => exact definite_ok t
  | error e => exact definite_mismatch site l r e

lemma definite_linkAt {site : Site} {l r : Ty} {link : ProductLink} :
    Definite (linkAt site l r link) := by
  refine definite_bind fun v => ?_
  cases v with
  | ok t => exact definite_ok t
  | error e => exact definite_mismatch site l r e

lemma definite_boundTuple {site : Site} {bound : List Nat} : Definite (boundTuple site bound) := by
  refine definite_bind fun ts => ?_
  cases Ty.tuple? ts with
  | none => exact definite_error rfl
  | some t => exact definite_ok t

end Step

namespace Walk

lemma yields_done {n : ν} {a : α} (h : R n) : Yields R (CheckM.done n a) := fun _ => ⟨h, nofun⟩

lemma yields_divergence {n : ν} (h : R n) :
    Yields R (pure (n, .error .divergence) : CheckM (Visited ν α)) := fun _ => ⟨h, nofun⟩

lemma yields_fail {n : ν} {e : TypeError} (h : R n) (known : e.isUnresolved = false := by rfl) :
    Yields R (CheckM.fail n e : CheckM (Visited ν α)) := by
  refine fun _ => ⟨h, ?_⟩
  rintro e' ⟨⟩
  exact known

lemma yields_bind {x : CheckM α} {f : α → CheckM (Visited ν β)} (h : ∀ a, Yields R (f a)) :
    Yields R (x >>= f) := fun s => h (x s).1 (x s).2

/-- A walk through a part and then on with the whole. -/
lemma Yields.andThen {part : CheckM (Visited π α)} {whole : π → ν}
    {next : π → α → CheckM (Visited ν β)} (h : Yields P part) (back : ∀ p, P p → R (whole p))
    (rest : ∀ p a, P p → Yields R (next p a)) : Yields R (part.andThen whole next) := by
  intro s
  have left := h s
  rw [CheckM.run_andThen]
  revert left
  obtain ⟨⟨p, _ | a⟩, s'⟩ := part s
  · exact fun ⟨hp, known⟩ =>
      ⟨back p hp, fun e error => known e (congrArg Except.error (Except.error.inj error))⟩
  · exact fun left => rest p a left.1 s'

/-- A step and then on with the walk. -/
lemma yields_orFail {step : CheckM (Verdict α)} {n : ν} {next : α → CheckM (Visited ν β)}
    (hs : Step.Definite step) (h : R n) (rest : ∀ a, Yields R (next a)) :
    Yields R (step.orFail n next) := by
  intro s
  have known := hs s
  rw [CheckM.run_orFail]
  revert known
  obtain ⟨_ | a, s'⟩ := step s
  · exact fun known =>
      ⟨h, fun e error => known e (congrArg Except.error (Except.error.inj error))⟩
  · exact fun _ => rest a s'

end Walk

end

open Walk

/-! ## Trees with emptied slots. -/

/-- Expressions with emptied slots. -/
abbrev Expr.eraseAll (es : List Expr) : List Expr := es.map Expr.erase

/-- Predicates with emptied slots. -/
abbrev Pred.eraseAll (ps : List Pred) : List Pred := ps.map Pred.erase

/-- Fields with emptied slots. -/
abbrev Expr.eraseFields (fields : List (FieldLabel × Expr)) : List (FieldLabel × Expr) :=
  fields.map fun f => (f.1, f.2.erase)

/-- A substitution with all slots emptied. -/
abbrev Substitution.erase (σ : Substitution) : Substitution := σ.restamp .blank

/-- Substitutions with emptied slots. -/
abbrev Substitution.eraseAll (σs : List Substitution) : List Substitution :=
  σs.map Substitution.erase

/-- A temporal formula with all slots emptied. -/
abbrev Ltl.erase (f : Ltl) : Ltl := f.restamp .blank

/-- Whatever its verdict, the walk through the tree keeps the form of the tree. -/
def Node.Walked : Node → Prop
  | .expr e => ∀ expected, Yields (fun e' => e'.erase = e.erase) (e.check expected)
  | .pred p => ∀ expected, Yields (fun p' => p'.erase = p.erase) (p.check expected)
  | .substitution σ => ∀ scope, Yields (fun σ' => σ'.erase = σ.erase) (σ.check scope)
  | .ltl f => Yields (fun f' => f'.erase = f.erase) f.check

lemma Expr.yields_settle {e a : Expr} {expected found : Ty} (h : a.erase = e.erase) :
    Yields (fun e' => e'.erase = e.erase) (a.settle expected found) :=
  yields_orFail Step.definite_unifyAt h fun t => yields_done ((a.erase_withTy t).trans h)

lemma Pred.yields_settle {p q : Pred} {expected found : Ty} (h : q.erase = p.erase) :
    Yields (fun p' => p'.erase = p.erase) (q.settle expected found) :=
  yields_orFail Step.definite_unifyAt h fun t => yields_done ((q.erase_withTy t).trans h)

/-! ## Operators. -/

section

variable {n : Note} {op : Operator} {args : List Expr} {expected : Ty}

/-- Walks through the operands that keep their form. -/
structure OperandWalks.Yield (args : List Expr) (walks : OperandWalks) : Prop where
  forward : ∀ ts, Yields (fun args' => Expr.eraseAll args' = Expr.eraseAll args) (walks.forward ts)
  backward : ∀ ts, Yields (fun args' => Expr.eraseAll args' = Expr.eraseAll args) (walks.backward ts)
  chain : ∀ t, Yields (fun args' => Expr.eraseAll args' = Expr.eraseAll args) (walks.chain t)
  apart : Yields (fun args' => Expr.eraseAll args' = Expr.eraseAll args) walks.apart
  call : ∀ t, Yields (fun args' => Expr.eraseAll args' = Expr.eraseAll args) (walks.call t)

variable {walks : OperandWalks}

/-- Operators applied to operands of one form have one form, whatever their slots. -/
lemma Expr.erase_apply {n' : Note} {args' : List Expr} (span : n'.span = n.span)
    (h : Expr.eraseAll args' = Expr.eraseAll args) :
    (Expr.apply n' op args').erase = (Expr.apply n op args).erase := by
  simp [span, h]

lemma Expr.yields_withOperands {α : Type} {n' : Note} {count : Nat}
    {walk : CheckM (Visited (List Expr) α)} {next : List Expr → α → CheckM (Visited Expr Ty)}
    (span : n'.span = n.span) (h : Yields (fun args' => eraseAll args' = eraseAll args) walk)
    (rest : ∀ args' a, eraseAll args' = eraseAll args →
      Yields (fun e' => e'.erase = (apply n op args).erase) (next args' a)) :
    Yields (fun e' => e'.erase = (apply n op args).erase)
      (withOperands n' op args count walk next) := by
  rw [withOperands]
  split
  · exact h.andThen (fun args' => erase_apply span) rest
  · exact yields_fail (erase_apply span rfl)

lemma Expr.yields_resultFirst {result : Ty} {count : Nat}
    {walk : Ty → CheckM (Visited (List Expr) Unit)}
    (h : ∀ t, Yields (fun args' => eraseAll args' = eraseAll args) (walk t)) :
    Yields (fun e' => e'.erase = (apply n op args).erase)
      (resultFirst n op args expected result count walk) :=
  yields_orFail Step.definite_unifyAt rfl fun t => yields_withOperands rfl (h t) fun _ _ same =>
    yields_done (erase_apply rfl same)

lemma Signature.yields_check (sig : Signature) (h : walks.Yield args) :
    Yields (fun e' => e'.erase = (Expr.apply n op args).erase)
      (sig.check n op args expected walks) := by
  refine yields_bind fun ps => ?_
  cases sig.order with
  | forward => exact Expr.yields_resultFirst fun t => h.forward _
  | backward => exact Expr.yields_resultFirst fun t => h.backward _
  | inward =>
    exact Expr.yields_withOperands rfl (h.forward _) fun _ _ same =>
      Expr.yields_settle (Expr.erase_apply rfl same)

lemma Rule.yields_checkProduct (h : walks.Yield args) :
    Yields (fun e' => e'.erase = (Expr.apply n op args).erase)
      (checkProduct n op args expected walks) := by
  refine yields_bind fun _ => yields_bind fun _ => yields_bind fun _ => ?_
  refine yields_orFail Step.definite_unifyAt rfl fun t => yields_bind fun left => yields_bind fun right => ?_
  refine yields_orFail Step.definite_linkAt (Expr.erase_apply rfl rfl) fun _ => ?_
  exact Expr.yields_withOperands rfl (h.forward _) fun _ _ same =>
    yields_done (Expr.erase_apply rfl same)

lemma Rule.yields_checkPair (h : walks.Yield args) :
    Yields (fun e' => e'.erase = (Expr.apply n op args).erase)
      (checkPair n op args expected walks) := by
  refine Expr.yields_withOperands rfl h.apart fun args' ts same => ?_
  cases Ty.tuple? ts with
  | none => exact yields_fail (Expr.erase_apply rfl same)
  | some t => exact Expr.yields_settle (Expr.erase_apply rfl same)

lemma Rule.yields_checkEnumeration (shape : Shape) (h : walks.Yield args) :
    Yields (fun e' => e'.erase = (Expr.apply n op args).erase)
      (checkEnumeration n op args expected walks shape) :=
  yields_bind fun _ => yields_orFail Step.definite_unifyAt rfl fun _ => (h.chain _).andThen
    (fun _ same => Expr.erase_apply rfl same) fun _ _ same => yields_done (Expr.erase_apply rfl same)

lemma Rule.yields_checkApplication (h : walks.Yield args) :
    Yields (fun e' => e'.erase = (Expr.apply n op args).erase)
      (checkApplication n op args expected walks) := by
  rw [checkApplication]
  split
  · exact yields_fail rfl
  · exact yields_bind fun _ => (h.call _).andThen (fun _ same => Expr.erase_apply rfl same)
      fun _ _ same => Expr.yields_settle (Expr.erase_apply rfl same)

/-- The rules of all operators keep the form if the walks through the operands do. -/
lemma Operator.yields_check (h : walks.Yield args) :
    Yields (fun e' => e'.erase = (Expr.apply n op args).erase)
      (op.check n args expected walks) := by
  rw [check]
  cases op.rule with
  | fixed sig => exact sig.yields_check h
  | constant params shape => exact yields_bind fun _ => Expr.yields_settle rfl
  | difference =>
    exact yields_bind fun _ => yields_bind fun _ => Expr.yields_resultFirst fun t => h.forward [t, t]
  | product => exact Rule.yields_checkProduct h
  | pair => exact Rule.yields_checkPair h
  | enumeration shape => exact Rule.yields_checkEnumeration shape h
  | application => exact Rule.yields_checkApplication h

end

/-! ## Expressions and predicates. -/

namespace Expr

variable {es : List Expr} {fields : List (FieldLabel × Expr)}

lemma yields_checkForward (h : ∀ e ∈ es, (Node.expr e).Walked) (ts : List Ty) :
    Yields (fun es' => eraseAll es' = eraseAll es) (checkForward es ts) := by
  induction es generalizing ts with
  | nil => cases ts <;> exact yields_done rfl
  | cons e es ih =>
    rw [List.forall_mem_cons] at h
    cases ts with
    | nil => exact yields_done rfl
    | cons t ts =>
      rw [checkForward]
      exact (h.1 t).andThen (fun e' he => by simp [he]) fun e' _ he =>
        (ih h.2 ts).andThen (fun es' hes => by simp [he, hes]) fun es' _ hes =>
          yields_done (by simp [he, hes])

lemma yields_checkBackward (h : ∀ e ∈ es, (Node.expr e).Walked) (ts : List Ty) :
    Yields (fun es' => eraseAll es' = eraseAll es) (checkBackward es ts) := by
  induction es generalizing ts with
  | nil => cases ts <;> exact yields_done rfl
  | cons e es ih =>
    rw [List.forall_mem_cons] at h
    cases ts with
    | nil => exact yields_done rfl
    | cons t ts =>
      rw [checkBackward]
      exact (ih h.2 ts).andThen (fun es' hes => by simp [hes]) fun es' _ hes =>
        (h.1 t).andThen (fun e' he => by simp [he, hes]) fun e' _ he =>
          yields_done (by simp [he, hes])

lemma yields_checkChain (h : ∀ e ∈ es, (Node.expr e).Walked) (t : Ty) :
    Yields (fun es' => eraseAll es' = eraseAll es) (checkChain es t) := by
  induction es generalizing t with
  | nil => exact yields_done rfl
  | cons e es ih =>
    rw [List.forall_mem_cons] at h
    rw [checkChain]
    exact (h.1 t).andThen (fun e' he => by simp [he]) fun e' t he =>
      (ih h.2 t).andThen (fun es' hes => by simp [he, hes]) fun es' _ hes =>
        yields_done (by simp [he, hes])

lemma yields_checkApart (h : ∀ e ∈ es, (Node.expr e).Walked) :
    Yields (fun es' => eraseAll es' = eraseAll es) (checkApart es) := by
  induction es with
  | nil => exact yields_done rfl
  | cons e es ih =>
    rw [List.forall_mem_cons] at h
    rw [checkApart]
    exact yields_bind fun t => (h.1 t).andThen (fun e' he => by simp [he]) fun e' _ he =>
      (ih h.2).andThen (fun es' hes => by simp [he, hes]) fun es' _ hes =>
        yields_done (by simp [he, hes])

lemma yields_checkCall (h : ∀ e ∈ es, (Node.expr e).Walked) (site : Site) (t : Ty) :
    Yields (fun es' => eraseAll es' = eraseAll es) (checkCall site es t) := by
  cases es with
  | nil => exact yields_done rfl
  | cons f args =>
    rw [List.forall_mem_cons] at h
    rw [checkCall]
    refine (yields_checkApart h.2).andThen (fun args' same => by simp [same])
      fun args' ts same => ?_
    cases Ty.tuple? ts with
    | none => exact yields_fail (by simp [same])
    | some domain =>
      exact (h.1 _).andThen (fun f' hf => by simp [hf, same]) fun f' _ hf =>
        yields_done (by simp [hf, same])

lemma yields_checkRecord (h : ∀ f ∈ fields, (Node.expr f.2).Walked) :
    Yields (fun fields' => eraseFields fields' = eraseFields fields) (checkRecord fields) := by
  induction fields with
  | nil => exact yields_done rfl
  | cons f fields ih =>
    obtain ⟨label, e⟩ := f
    rw [List.forall_mem_cons] at h
    rw [checkRecord]
    exact yields_bind fun t => (h.1 t).andThen (fun e' he => by simp [he]) fun e' _ he =>
      (ih h.2).andThen (fun fs' hfs => by simp [he, hfs]) fun fs' _ hfs =>
        yields_done (by simp [he, hfs])

lemma yields_checkStruct (h : ∀ f ∈ fields, (Node.expr f.2).Walked) :
    Yields (fun fields' => eraseFields fields' = eraseFields fields) (checkStruct fields) := by
  induction fields with
  | nil => exact yields_done rfl
  | cons f fields ih =>
    obtain ⟨label, e⟩ := f
    rw [List.forall_mem_cons] at h
    rw [checkStruct]
    exact yields_bind fun t => (h.1 _).andThen (fun e' he => by simp [he]) fun e' _ he =>
      (ih h.2).andThen (fun fs' hfs => by simp [he, hfs]) fun fs' _ hfs =>
        yields_done (by simp [he, hfs])

lemma yields_checkCompared {op : Comparison} {l r : Expr} (hl : (Node.expr l).Walked)
    (hr : (Node.expr r).Walked) :
    Yields (fun es' => eraseAll es' = eraseAll [l, r]) (checkCompared op [l, r]) := by
  have both (l' r' : Expr) (el : l'.erase = l.erase) (er : r'.erase = r.erase) :
      eraseAll [l', r'] = eraseAll [l, r] := by simp [el, er]
  cases op with
  | equal | notEqual =>
    exact yields_bind fun t => (hr t).andThen (fun r' er => both l r' rfl er) fun r' t er =>
      (hl t).andThen (fun l' el => both l' r' el er) fun l' _ el => yields_done (both l' r' el er)
  | elementOf | notBelonging =>
    exact yields_bind fun t => (hl t).andThen (fun l' el => both l' r el rfl) fun l' t el =>
      (hr _).andThen (fun r' er => both l' r' el er) fun r' _ er => yields_done (both l' r' el er)
  | less | lessEqual | greater | greaterEqual =>
    exact (hl _).andThen (fun l' el => both l' r el rfl) fun l' t el =>
      (hr _).andThen (fun r' er => both l' r' el er) fun r' _ er => yields_done (both l' r' el er)
  | inclusion | nonInclusion | strictInclusion | strictNonInclusion =>
    exact yields_bind fun t => (hl _).andThen (fun l' el => both l' r el rfl) fun l' t el =>
      (hr t).andThen (fun r' er => both l' r' el er) fun r' _ er => yields_done (both l' r' el er)

/-- The walk through an expression keeps its form if the walks through its parts do. -/
lemma walked_of_children {e : Expr} (ih : ∀ c ∈ e.children, c.Walked) : (Node.expr e).Walked := by
  intro expected
  cases e with
  | identifier => exact yields_bind fun _ => yields_settle rfl
  | integer | real | string => exact yields_settle rfl
  | apply n op args =>
    have args (a : Expr) (ha : a ∈ args) : (Node.expr a).Walked :=
      ih _ (List.mem_map.2 ⟨a, ha, rfl⟩)
    rw [check]
    exact Operator.yields_check ⟨yields_checkForward args, yields_checkBackward args,
      yields_checkChain args, yields_checkApart args, yields_checkCall args _⟩
  | aggregate n op bound pred body =>
    simp only [children, List.forall_mem_cons] at ih
    rw [check]
    refine yields_bind fun _ => (ih.1 _).andThen (fun p hp => by simp [hp]) fun p _ hp => ?_
    refine yields_bind fun _ => yields_orFail Step.definite_unifyAt (by simp [hp]) fun t => ?_
    exact (ih.2.1 _).andThen (fun b hb => by simp [hp, hb, Note.withTy]) fun b _ hb =>
      yields_done (by simp [hp, hb, Note.withTy])
  | comprehension n bound pred =>
    simp only [children, List.forall_mem_cons] at ih
    rw [check]
    exact yields_bind fun _ => (ih.1 _).andThen (fun p hp => by simp [hp]) fun p _ hp =>
      yields_orFail Step.definite_boundTuple (by simp [hp]) fun _ => yields_settle (by simp [hp])
  | lambda n bound pred body =>
    simp only [children, List.forall_mem_cons] at ih
    rw [check]
    refine yields_bind fun _ => (ih.1 _).andThen (fun p hp => by simp [hp]) fun p _ hp => ?_
    refine yields_orFail Step.definite_boundTuple (by simp [hp]) fun _ => yields_bind fun _ => ?_
    exact (ih.2.1 _).andThen (fun b hb => by simp [hp, hb]) fun b _ hb =>
      yields_settle (by simp [hp, hb])
  | ite n cond yes no =>
    simp only [children, List.forall_mem_cons] at ih
    rw [check]
    refine (ih.1 _).andThen (fun c hc => by simp [hc]) fun c _ hc => yields_bind fun _ => ?_
    refine (ih.2.1 _).andThen (fun y hy => by simp [hc, hy]) fun y _ hy => ?_
    exact (ih.2.2.1 _).andThen (fun z hz => by simp [hc, hy, hz]) fun z _ hz =>
      yields_settle (by simp [hc, hy, hz])
  | letIn n bound pred body =>
    simp only [children, List.forall_mem_cons] at ih
    rw [check]
    refine yields_bind fun _ => (ih.1 _).andThen (fun p hp => by simp [hp]) fun p _ hp => ?_
    exact yields_bind fun _ => (ih.2.1 _).andThen (fun b hb => by simp [hp, hb]) fun b _ hb =>
      yields_settle (by simp [hp, hb])
  | record n fields =>
    have values (f : FieldLabel × Expr) (hf : f ∈ fields) : (Node.expr f.2).Walked :=
      ih _ (List.mem_map.2 ⟨f, hf, rfl⟩)
    rw [check]
    exact (yields_checkRecord values).andThen (fun fs hfs => by simp [hfs]) fun fs _ hfs =>
      yields_settle (by simp [hfs])
  | struct n fields =>
    have values (f : FieldLabel × Expr) (hf : f ∈ fields) : (Node.expr f.2).Walked :=
      ih _ (List.mem_map.2 ⟨f, hf, rfl⟩)
    rw [check]
    exact (yields_checkStruct values).andThen (fun fs hfs => by simp [hfs]) fun fs _ hfs =>
      yields_settle (by simp [hfs])
  | field n target name =>
    simp only [children, List.forall_mem_cons] at ih
    rw [check]
    refine yields_bind fun _ => (ih.1 _).andThen (fun t ht => by simp [ht]) fun t _ ht => ?_
    have same : (field n t name).erase = (field n target name).erase := by simp [ht]
    refine yields_bind fun _ => ?_
    split
    · exact yields_divergence same
    · split
      · exact yields_settle same
      · exact yields_orFail Step.definite_resolve same fun _ => yields_fail same
    · exact yields_orFail Step.definite_resolve same fun _ => yields_fail same
  | bool n pred =>
    simp only [children, List.forall_mem_cons] at ih
    rw [check]
    exact (ih.1 _).andThen (fun p hp => by simp [hp]) fun p _ hp => yields_settle (by simp [hp])

end Expr

namespace Pred

lemma yields_checkAll {ps : List Pred} (h : ∀ p ∈ ps, (Node.pred p).Walked) :
    Yields (fun ps' => eraseAll ps' = eraseAll ps) (checkAll ps) := by
  induction ps with
  | nil => exact yields_done rfl
  | cons p ps ih =>
    rw [List.forall_mem_cons] at h
    rw [checkAll]
    exact (h.1 _).andThen (fun p' hp => by simp [hp]) fun p' _ hp =>
      (ih h.2).andThen (fun ps' hps => by simp [hp, hps]) fun ps' _ hps =>
        yields_done (by simp [hp, hps])

/-- The walk through a predicate keeps its form if the walks through its parts do. -/
lemma walked_of_children {p : Pred} (ih : ∀ c ∈ p.children, c.Walked) : (Node.pred p).Walked := by
  intro expected
  cases p with
  | connective n op args =>
    have args (a : Pred) (ha : a ∈ args) : (Node.pred a).Walked :=
      ih _ (List.mem_map.2 ⟨a, ha, rfl⟩)
    rw [check]
    exact yields_orFail Step.definite_unifyAt rfl fun t => (yields_checkAll args).andThen
      (fun _ same => by simp [same, Note.withTy]) fun _ _ same =>
        yields_done (by simp [same, Note.withTy])
  | comparison n op args =>
    rw [check]
    refine yields_orFail Step.definite_unifyAt rfl fun t => ?_
    split
    · rename_i len
      obtain ⟨l, r, rfl⟩ := List.length_eq_two.1 len
      simp only [children, List.map_cons, List.forall_mem_cons] at ih
      exact (Expr.yields_checkCompared ih.1 ih.2.1).andThen
        (fun _ same => by simp [same, Note.withTy]) fun _ _ same =>
          yields_done (by simp [same, Note.withTy])
    · exact yields_fail (by simp [Note.withTy])
  | identifier => exact yields_bind fun _ => yields_settle rfl
  | quantified n op bound pred =>
    simp only [children, List.forall_mem_cons] at ih
    rw [check]
    exact yields_bind fun _ => (ih.1 _).andThen (fun p hp => by simp [hp]) fun p _ hp =>
      yields_settle (by simp [hp])
  | ite n cond yes no =>
    simp only [children, List.forall_mem_cons] at ih
    rw [check]
    refine (ih.1 _).andThen (fun c hc => by simp [hc]) fun c _ hc => ?_
    refine (ih.2.1 _).andThen (fun y hy => by simp [hc, hy]) fun y _ hy => ?_
    exact (ih.2.2.1 _).andThen (fun z hz => by simp [hc, hy, hz]) fun z _ hz =>
      yields_settle (by simp [hc, hy, hz])
  | letIn n bound defs body =>
    simp only [children, List.forall_mem_cons] at ih
    rw [check]
    refine yields_bind fun _ => (ih.1 _).andThen (fun d hd => by simp [hd]) fun d _ hd => ?_
    exact (ih.2.1 _).andThen (fun b hb => by simp [hd, hb]) fun b _ hb =>
      yields_settle (by simp [hd, hb])

end Pred

/-! ## Substitutions and temporal formulas. -/

section

variable {scope : Scope}

lemma yields_checkAssigned {targets values : List Expr}
    (ht : ∀ e ∈ targets, (Node.expr e).Walked) (hv : ∀ e ∈ values, (Node.expr e).Walked) :
    Yields (fun x => Expr.eraseAll x.1 = Expr.eraseAll targets ∧
      Expr.eraseAll x.2 = Expr.eraseAll values) (checkAssigned targets values) := by
  induction targets generalizing values with
  | nil => exact yields_done ⟨rfl, rfl⟩
  | cons target targets ih =>
    cases values with
    | nil => exact yields_done ⟨rfl, rfl⟩
    | cons value values =>
      rw [List.forall_mem_cons] at ht hv
      rw [checkAssigned]
      refine yields_bind fun t => (ht.1 t).andThen (fun a ha => ⟨by simp [ha], rfl⟩) fun a t ha => ?_
      refine (hv.1 t).andThen (fun b hb => ⟨by simp [ha], by simp [hb]⟩) fun b _ hb => ?_
      exact (ih ht.2 hv.2).andThen
        (fun x hx => ⟨by simp [ha, hx.1], by simp [hb, hx.2]⟩) fun x _ hx =>
          yields_done ⟨by simp [ha, hx.1], by simp [hb, hx.2]⟩

lemma yields_checkCalled {span : Option Span} {name : String} {callee : Callee}
    {args assigned : List Expr} (ha : ∀ e ∈ args, (Node.expr e).Walked)
    (ho : ∀ e ∈ assigned, (Node.expr e).Walked) :
    Yields (fun x => Expr.eraseAll x.1 = Expr.eraseAll args ∧
      Expr.eraseAll x.2 = Expr.eraseAll assigned)
        (checkCalled scope span name callee args assigned) := by
  refine yields_bind fun types => ?_
  cases types with
  | none => exact yields_fail ⟨rfl, rfl⟩
  | some types =>
    obtain ⟨params, outputs⟩ := types
    simp only
    split
    · exact yields_fail ⟨rfl, rfl⟩
    · split
      · exact yields_fail ⟨rfl, rfl⟩
      · exact (Expr.yields_checkForward ha params).andThen (fun a same => ⟨same, rfl⟩)
          fun a _ same => (Expr.yields_checkForward ho outputs).andThen (fun o same' => ⟨same, same'⟩)
            fun o _ same' => yields_done ⟨same, same'⟩

namespace Substitution

lemma yields_checkAll {σs : List Substitution} (h : ∀ σ ∈ σs, (Node.substitution σ).Walked) :
    Yields (fun σs' => eraseAll σs' = eraseAll σs) (checkAll scope σs) := by
  induction σs with
  | nil => exact yields_done rfl
  | cons σ σs ih =>
    rw [List.forall_mem_cons] at h
    rw [checkAll]
    exact (h.1 scope).andThen (fun σ' hσ => by simp [hσ]) fun σ' _ hσ =>
      (ih h.2).andThen (fun σs' hσs => by simp [hσ, hσs]) fun σs' _ hσs =>
        yields_done (by simp [hσ, hσs])

lemma yields_checkOption {o : Option Substitution} (h : ∀ σ ∈ o, (Node.substitution σ).Walked) :
    Yields (fun o' => o'.map erase = o.map erase) (checkOption scope o) := by
  cases o with
  | none => exact yields_done rfl
  | some σ =>
    rw [checkOption]
    exact (h σ rfl scope).andThen (fun σ' hσ => by simp [hσ]) fun σ' _ hσ =>
      yields_done (by simp [hσ])

/-- The walk through a substitution keeps its form if the walks through its parts do. -/
lemma walked_of_children {σ : Substitution} (ih : ∀ c ∈ σ.children, c.Walked) :
    (Node.substitution σ).Walked := by
  intro scope
  have exprs {es : List Expr} (h : ∀ e ∈ es, .expr e ∈ σ.children) :
      ∀ e ∈ es, (Node.expr e).Walked := fun e he => ih _ (h e he)
  have substitutions {τs : List Substitution} (h : ∀ τ ∈ τs, .substitution τ ∈ σ.children) :
      ∀ τ ∈ τs, (Node.substitution τ).Walked := fun τ hτ => ih _ (h τ hτ)
  cases σ with
  | skip s => exact yields_done rfl
  | assign s targets values =>
    rw [check]
    split
    · exact (yields_checkAssigned (exprs fun e he => by simp [children, he])
        (exprs fun e he => by simp [children, he])).andThen (fun x hx => by simp [hx.1, hx.2])
          fun x _ hx => yields_done (by simp [hx.1, hx.2])
    · exact yields_fail rfl
  | becomesElement s targets set =>
    have part : (Node.expr set).Walked := ih _ (by simp [children])
    rw [check]
    refine (Expr.yields_checkApart (exprs fun e he => by simp [children, he])).andThen
      (fun ts hts => by simp [hts]) fun ts types hts => ?_
    cases Ty.tuple? types with
    | none => exact yields_fail (by simp [hts])
    | some t =>
      exact (part _).andThen (fun a ha => by simp [hts, ha]) fun a _ ha =>
        yields_done (by simp [hts, ha])
  | becomesSuch s targets pred =>
    have part : (Node.pred pred).Walked := ih _ (by simp [children])
    rw [check]
    exact (Expr.yields_checkApart (exprs fun e he => by simp [children, he])).andThen
      (fun ts hts => by simp [hts]) fun ts _ hts => (part _).andThen (fun p hp => by simp [hts, hp])
        fun p _ hp => yields_done (by simp [hts, hp])
  | any s bound pred body | letIn s bound pred body =>
    simp only [children, List.forall_mem_cons] at ih
    rw [check]
    exact yields_bind fun _ => (ih.1 _).andThen (fun p hp => by simp [hp]) fun p _ hp =>
      (ih.2.1 scope).andThen (fun b hb => by simp [hp, hb]) fun b _ hb =>
        yields_done (by simp [hp, hb])
  | var s bound body =>
    simp only [children, List.forall_mem_cons] at ih
    rw [check]
    exact yields_bind fun _ => (ih.1 scope).andThen (fun b hb => by simp [hb]) fun b _ hb =>
      yields_done (by simp [hb])
  | guarded s kind cond body =>
    simp only [children, List.forall_mem_cons] at ih
    rw [check]
    exact (ih.1 _).andThen (fun p hp => by simp [hp]) fun p _ hp =>
      (ih.2.1 scope).andThen (fun b hb => by simp [hp, hb]) fun b _ hb =>
        yields_done (by simp [hp, hb])
  | branch s kind conds branches otherwise =>
    rw [check]
    refine (Pred.yields_checkAll fun p hp => ih (.pred p) (by simp [children, hp])).andThen
      (fun cs hc => by simp [hc]) fun cs _ hc => ?_
    refine (yields_checkAll (substitutions fun τ hτ => by simp [children, hτ])).andThen
      (fun bs hb => by simp [hc, hb]) fun bs _ hb => ?_
    exact (yields_checkOption fun τ hτ => ih (.substitution τ)
      (by simp [children, Option.mem_def.1 hτ])).andThen (fun o ho => by simp [hc, hb, ho])
        fun o _ ho => yields_done (by simp [hc, hb, ho])
  | choice s branches =>
    rw [check]
    exact (yields_checkAll (substitutions fun τ hτ => by simp [children, hτ])).andThen
      (fun bs hb => by simp [hb]) fun bs _ hb => yields_done (by simp [hb])
  | block s kind parts =>
    rw [check]
    exact (yields_checkAll (substitutions fun τ hτ => by simp [children, hτ])).andThen
      (fun bs hb => by simp [hb]) fun bs _ hb => yields_done (by simp [hb])
  | loop s cond body inv variant =>
    simp only [children, List.forall_mem_cons] at ih
    rw [check]
    refine (ih.1 _).andThen (fun c hc => by simp [hc]) fun c _ hc => ?_
    refine (ih.2.1 scope).andThen (fun b hb => by simp [hc, hb]) fun b _ hb => ?_
    refine (ih.2.2.1 _).andThen (fun i hi => by simp [hc, hb, hi]) fun i _ hi => ?_
    exact (ih.2.2.2.1 _).andThen (fun v hv => by simp [hc, hb, hi, hv]) fun v _ hv =>
      yields_done (by simp [hc, hb, hi, hv])
  | call s name callee args assigned =>
    rw [check]
    exact (yields_checkCalled (exprs fun e he => by simp [children, he])
      (exprs fun e he => by simp [children, he])).andThen (fun x hx => by simp [hx.1, hx.2])
        fun x _ hx => yields_done (by simp [hx.1, hx.2])

end Substitution

end

/-- The walk through a temporal formula keeps its form if the walks through its parts do. -/
lemma Ltl.walked_of_children {f : Ltl} (ih : ∀ c ∈ f.children, c.Walked) : (Node.ltl f).Walked := by
  cases f with
  | unary op arg =>
    have part : Yields (fun f' => f'.erase = arg.erase) arg.check := ih (.ltl arg) (.head _)
    rw [Node.Walked, check]
    exact part.andThen (fun _ ha => by simp [ha]) fun _ _ ha => yields_done (by simp [ha])
  | binary op left right =>
    have first : Yields (fun f' => f'.erase = left.erase) left.check := ih (.ltl left) (.head _)
    have second : Yields (fun f' => f'.erase = right.erase) right.check :=
      ih (.ltl right) (.tail _ (.head _))
    rw [Node.Walked, check]
    exact first.andThen (fun _ hl => by simp [hl]) fun _ _ hl =>
      second.andThen (fun _ hr => by simp [hl, hr]) fun _ _ hr => yields_done (by simp [hl, hr])
  | keyword op =>
    rw [Node.Walked, check]
    exact yields_done rfl
  | pred p =>
    have part : Yields (fun p' => p'.erase = p.erase) (p.check .bool) :=
      ih (.pred p) (.head _) .bool
    rw [Node.Walked, check]
    exact part.andThen (fun _ hp => by simp [hp]) fun _ _ hp => yields_done (by simp [hp])

/-- Whatever its verdict, the walk through any tree keeps the form of the tree. -/
theorem Node.walked (n : Node) : n.Walked := by
  induction n using Node.induction with
  | step n ih =>
    cases n with
    | expr e => exact Expr.walked_of_children ih
    | pred p => exact Pred.walked_of_children ih
    | substitution σ => exact Substitution.walked_of_children ih
    | ltl f => exact Ltl.walked_of_children ih

end BMethod
