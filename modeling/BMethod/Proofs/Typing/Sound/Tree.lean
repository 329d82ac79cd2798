import BMethod.Proofs.Typing.Sound.Operator

/-!
# Expressions and predicates are checked soundly

Walking through an expression or predicate with empty slots either fails with an error or leaves a
tree whose nodes obey their rules in every world of the state (`Node.sound`).
-/

namespace BMethod

open State

variable {known : Nat → Bool} {scope : Scope} {s s' s'' : State}

/-! ## Bound identifiers. -/

/-- What declaring bound identifiers leaves. -/
lemma State.Inv.declare (inv : s.Inv known) (bound : List Nat) :
    s.Declares known (declare bound s).2 ∧
      ∃ ts, List.Forall₂ (fun id t => (State.declare bound s).2.decls.ty? id = some t)
        (bound.filter known) ts := by
  obtain ⟨decl, types⟩ := inv.declaredTypes bound
  exact ⟨decl, _, types⟩

/-- In every later world bound identifiers have types. -/
lemma World.Models.declares {w : World} (hw : w.Models s') {bound : List Nat} {ts : List Ty}
    (types : List.Forall₂ (fun id t => s.decls.ty? id = some t) (bound.filter known) ts)
    (steps : s.Steps known s') : (w.context known).Declares bound :=
  ⟨_, hw.types?_eq (types.imp fun _ _ => steps.kept _ _)⟩

/-- The type of the tuples over bound identifiers, and what looking it up leaves. -/
structure State.Bounds (known : Nat → Bool) (s : State) (bound : List Nat) (t : Ty)
    (s' : State) : Prop where
  declares : s.Declares known s'
  types : ∃ ts, List.Forall₂ (fun id t => s'.decls.ty? id = some t) (bound.filter known) ts ∧
    Ty.tuple? ts = some t

/-- There are no tuples over no identifiers. -/
lemma Ty.tuple?_eq_none {ts : List Ty} : tuple? ts = none ↔ ts = [] := by
  cases ts <;> simp [tuple?]

lemma State.Inv.boundTuple (inv : s.Inv known) (site : Site) (bound : List Nat) :
    (∃ t s', boundTuple site bound s = (.ok t, s') ∧ s.Bounds known bound t s') ∨
      (bound.filter known = [] ∧ ∃ e s', boundTuple site bound s = (.error (.error e), s')) := by
  obtain ⟨decl, types⟩ := inv.declaredTypes bound
  simp only [BMethod.boundTuple, bind, StateT.bind]
  revert decl types
  obtain ⟨ts, s'⟩ := State.declaredTypes bound s
  intro decl types
  cases tuple : Ty.tuple? ts with
  | none =>
    rw [Ty.tuple?_eq_none.1 tuple, List.forall₂_nil_right_iff] at types
    refine .inr ⟨types, .arity 1 0 site, s', ?_⟩
    simp only [tuple]
    rfl
  | some t =>
    refine .inl ⟨t, s', ?_, decl, ts, types, tuple⟩
    simp only [tuple]
    rfl

/-- Types of declarations are scoped. -/
lemma State.Inv.within_of_slots (inv : s.Inv known) {ids : List Nat} {ts : List Ty}
    (types : List.Forall₂ (fun id t => s.decls.ty? id = some t) ids ts) :
    ∀ t ∈ ts, t.Scoped s.vars := by
  induction types with
  | nil => exact nofun
  | cons ht _ ih => exact List.forall_mem_cons.2 ⟨inv.scope _ _ ht, ih⟩

lemma State.Bounds.within {bound : List Nat} {t : Ty} (h : s.Bounds known bound t s') :
    t.Scoped s'.vars := by
  obtain ⟨ts, types, tuple⟩ := h.types
  exact Ty.scoped_of_tuple? tuple (h.declares.steps.inv.within_of_slots types)

/-- In every later world the tuples have the type. -/
lemma State.Bounds.hasTuple {bound : List Nat} {t : Ty} (h : s.Bounds known bound t s')
    {w : World} (hw : w.Models s') : (w.context known).HasTuple bound (t.eval w.value) := by
  obtain ⟨ts, types, tuple⟩ := h.types
  refine ⟨_, hw.types?_eq types, ?_⟩
  rw [(Ty.hom_eval w.value).tuple?, tuple, Option.map_some]

/-! ## Heads and fields. -/

/-- The head of a scoped type is scoped. -/
lemma Store.WellFormed.scoped_head? {s : Store} (wf : s.WellFormed) {t u : Ty}
    (h : s.head? t = some u) (ht : t.Scoped s.cells.size) : u.Scoped s.cells.size :=
  head?_induction (P := Ty.Scoped s.cells.size)
    (fun v t _ hc => wf.within v t (by simp [hc, Cell.contents])) h ht

/-- A field of a scoped record has a scoped type. -/
lemma Ty.scoped_of_field? {k : Nat} {fields : List (String × Ty)} {name : String} {t : Ty}
    (h : (record fields).Scoped k) (ht : field? fields name = some t) : t.Scoped k :=
  fieldsScoped_iff.1 h (name, t) (mem_of_field? ht)

/-! ## Lists of predicates and fields. -/

/-- Walking through a predicate with empty slots makes it typed, or fails with an error. -/
def Pred.Sound (known : Nat → Bool) (scope : Scope) (p : Pred) : Prop :=
  ∀ s : State, s.Inv known → (Node.pred p).Blank →
    Ensures (p.check .bool) s (p.Typed known scope s) Proper

/-- What a walk has made of predicates. -/
structure Pred.TypedAll (known : Nat → Bool) (scope : Scope) (s : State) (ps ps' : List Pred)
    (s' : State) : Prop where
  walked : Walked known scope s (ps'.map .pred) s'
  gives : ∀ w : World, w.Models s' →
    (w.view known scope).Gives (ps'.map .pred) (List.replicate ps'.length .bool)
  erased : ps'.map Pred.erase = ps.map Pred.erase

lemma Pred.TypedAll.value? {ps ps' : List Pred} (h : TypedAll known scope s ps ps' s') {w : World}
    (hw : w.Models s') {p : Pred} (hp : p ∈ ps') :
    (w.view known scope).value? (.pred p) = some .bool := by
  have mem : (w.view known scope).value? (.pred p) ∈
      (ps'.map Node.pred).map (w.view known scope).value? :=
    List.mem_map_of_mem (List.mem_map_of_mem hp)
  rw [h.gives w hw, List.map_replicate] at mem
  exact List.eq_of_mem_replicate mem

/-- All predicates of a list are boolean. -/
lemma Pred.checkAll_sound (scope : Scope) {ps : List Pred}
    (sound : ∀ p ∈ ps, p.Sound known scope ∧ (Node.pred p).Blank) (inv : s.Inv known) :
    Ensures (checkAll ps) s (fun ps' _ => TypedAll known scope s ps ps') Proper := by
  induction ps generalizing s with
  | nil => exact ensures_done ⟨.nil inv, fun _ _ => rfl, rfl⟩
  | cons p ps ih =>
    rw [List.forall_mem_cons] at sound
    rw [checkAll]
    refine ensures_andThen ((sound.1.1 s inv sound.1.2).mono fun p' _ s₁ typed => ?_)
    refine ensures_andThen ((ih sound.2 typed.walked.steps.inv).mono fun ps' _ s₂ all => ?_)
    refine ensures_done ⟨typed.walked.cons all.walked, fun w hw => ?_, ?_⟩
    · exact View.gives_cons.2 ⟨typed.value? (all.walked.steps.models w hw), all.gives w hw⟩
    · rw [List.map_cons, List.map_cons, typed.erased, all.erased]

namespace Expr

/-- What a walk has made of the fields of a record or struct, with their types. The values in the
fields have the types under `former`. -/
structure FieldsTyped (known : Nat → Bool) (scope : Scope) (former : Ty → Ty) (s : State)
    (fields fields' : List (FieldLabel × Expr)) (types : List (String × Ty)) (s' : State) :
    Prop where
  walked : Walked known scope s (fields'.map (.expr ·.2)) s'
  within : ∀ x ∈ types, x.2.Scoped s'.vars
  names : types.map (·.1) = fields'.map (·.1.name)
  gives : ∀ w : World, w.Models s' → (w.view known scope).Gives (fields'.map (.expr ·.2))
    (types.map fun x => former (x.2.eval w.value))
  has : ∀ w : World, w.Models s' → List.Forall₂ (fun f u => (w.context known).Has f.1.decl u)
    fields' (types.map fun x => x.2.eval w.value)
  erased : fields'.map (fun x => (x.1, x.2.erase)) = fields.map fun x => (x.1, x.2.erase)

variable {former : Ty → Ty} {fields fields' : List (FieldLabel × Expr)}
  {types : List (String × Ty)}

lemma FieldsTyped.nil (inv : s.Inv known) : FieldsTyped known scope former s [] [] [] s :=
  ⟨.nil inv, nofun, rfl, fun _ _ => rfl, fun _ _ => .nil, rfl⟩

/-- The first field and then the others. -/
lemma FieldsTyped.cons {label : FieldLabel} {e e' : Expr} {t u v x : Ty} {s₁ : State}
    (found : s.Finds known label.decl t s₁) (typed : e.Typed known scope s₁ v e' x s')
    (hu : u.Scoped s'.vars)
    (type : ∀ w : World, w.Models s' → u.eval w.value = t.eval w.value)
    (value : ∀ w : World, w.Models s' → v.eval w.value = former (u.eval w.value))
    (rest : FieldsTyped known scope former s' fields fields' types s'') :
    FieldsTyped known scope former s ((label, e) :: fields) ((label, e') :: fields')
      ((label.name, u) :: types) s'' where
  walked := (typed.walked.after found.steps).cons rest.walked
  within := List.forall_mem_cons.2 ⟨hu.mono rest.walked.steps.vars_le, rest.within⟩
  names := by rw [List.map_cons, List.map_cons, rest.names]
  gives w hw := by
    have early := rest.walked.steps.models w hw
    have first := typed.value? early
    rw [value w early] at first
    exact View.gives_cons.2 ⟨first, rest.gives w hw⟩
  has w hw := by
    have early := rest.walked.steps.models w hw
    refine .cons (fun exist => ?_) (rest.has w hw)
    have slot := early.types _ _ (typed.walked.steps.kept _ _ (found.type exist))
    rwa [← type w early] at slot
  erased := by rw [List.map_cons, List.map_cons, typed.erased, rest.erased]

/-- The values of a record have the types of the fields. -/
lemma checkRecord_sound (sound : SoundAll known scope (fields.map (·.2))) (inv : s.Inv known) :
    Ensures (checkRecord fields) s (FieldsTyped known scope id s fields) Proper := by
  induction fields generalizing s with
  | nil => exact ensures_done (.nil inv)
  | cons f fields ih =>
    obtain ⟨label, e⟩ := f
    rw [List.map_cons, SoundAll, List.forall_mem_cons] at sound
    rw [checkRecord]
    have found := inv.declaredOrFresh label.decl
    refine ensures_bind (ensures_andThen ((sound.1.1 _ _ found.steps.inv found.scope
      sound.1.2).mono fun e' u s₂ typed => ?_))
    refine ensures_andThen ((ih sound.2 typed.walked.steps.inv).mono fun fields' types s₃ rest => ?_)
    exact ensures_done (.cons found typed typed.within typed.value
      (fun w hw => (typed.value w hw).symm) rest)

/-- The values of a struct are sets over the types of the fields. -/
lemma checkStruct_sound (sound : SoundAll known scope (fields.map (·.2))) (inv : s.Inv known) :
    Ensures (checkStruct fields) s (FieldsTyped known scope .set s fields) Proper := by
  induction fields generalizing s with
  | nil => exact ensures_done (.nil inv)
  | cons f fields ih =>
    obtain ⟨label, e⟩ := f
    rw [List.map_cons, SoundAll, List.forall_mem_cons] at sound
    rw [checkStruct]
    have found := inv.declaredOrFresh label.decl
    refine ensures_bind (ensures_andThen ((sound.1.1 _ (.set _) found.steps.inv found.scope
      sound.1.2).mono fun e' u s₂ typed => ?_))
    refine ensures_andThen ((ih sound.2 typed.walked.steps.inv).mono fun fields' types s₃ rest => ?_)
    exact ensures_done (.cons found typed (found.scope.mono typed.walked.steps.vars_le)
      (fun _ _ => rfl) (fun _ _ => by rw [Ty.eval]) rest)

/-- The type of the record with the fields, in a world. -/
lemma FieldsTyped.eval_record (h : FieldsTyped known scope former s fields fields' types s')
    (σ : Nat → Ty) : (Ty.record types).eval σ =
      .record ((fields'.map (·.1.name)).zip (types.map fun x => x.2.eval σ)) := by
  rw [Ty.eval, Ty.evalFields_eq_map, ← h.names]
  congr 1
  clear h
  induction types with
  | nil => rfl
  | cons x types ih => simp [ih]

end Expr

/-! ## The two sides of a comparison. -/

/-- The two sides of a comparison have the types that it says. -/
lemma Expr.checkCompared_sound {op : Comparison} {l r : Expr}
    (sound : SoundAll known scope [l, r]) (inv : s.Inv known) :
    Ensures (checkCompared op [l, r]) s (fun es' _ s' =>
      ∃ a b, TypedAll known scope s [l, r] [a, b] es' s' ∧
        ∀ w : World, w.Models s' → op.HasType [a.eval w.value, b.eval w.value]) Proper := by
  obtain ⟨⟨soundL, blankL⟩, ⟨soundR, blankR⟩, -⟩ : (l.Sound known scope ∧ (Node.expr l).Blank) ∧
      (r.Sound known scope ∧ (Node.expr r).Blank) ∧ True := by
    simpa [SoundAll] using sound
  -- The two ways to walk through both sides, for given types of the two.
  have forward {s₀ s₁ s₂ : State} {a b t u : Ty} {l' r' : Expr} (steps : s.Steps known s₀)
      (typedL : l.Typed known scope s₀ a l' t s₁) (typedR : r.Typed known scope s₁ b r' u s₂)
      (ha : a.Scoped s₀.vars) (hb : b.Scoped s₁.vars) :
      TypedAll known scope s [l, r] [a, b] [l', r'] s₂ :=
    .after (.cons typedL (.cons typedR (.nil typedR.walked.steps.inv)
      (hb.mono typedR.walked.steps.vars_le))
      (ha.mono (typedL.walked.steps.trans typedR.walked.steps).vars_le)) steps
  have fresh : (Ty.var s.vars).Scoped (s.grow .free).vars := by simp [Ty.Scoped]
  cases op with
  | equal | notEqual =>
    refine ensures_bind (ensures_andThen ((soundR _ _ inv.fresh.inv fresh blankR).mono
      fun r' t s₁ typedR => ?_))
    refine ensures_andThen ((soundL _ _ typedR.walked.steps.inv typedR.within blankL).mono
      fun l' u s₂ typedL => ?_)
    have single : TypedAll known scope _ [r] [_] [r'] s₁ := .cons typedR
      (.nil typedR.walked.steps.inv) (fresh.mono typedR.walked.steps.vars_le)
    refine ensures_done ⟨_, _, .after (single.consLast typedL
      (typedR.within.mono typedL.walked.steps.vars_le)) inv.fresh,
      fun w hw => ⟨(Ty.var s.vars).eval w.value, ?_⟩⟩
    rw [typedR.value w (typedL.walked.steps.models w hw)]
  | elementOf | notBelonging =>
    refine ensures_bind (ensures_andThen ((soundL _ _ inv.fresh.inv fresh blankL).mono
      fun l' t s₁ typedL => ?_))
    refine ensures_andThen ((soundR _ (.set t) typedL.walked.steps.inv typedL.within blankR).mono
      fun r' u s₂ typedR => ?_)
    refine ensures_done ⟨_, _, forward inv.fresh typedL typedR fresh typedL.within,
      fun w hw => ⟨t.eval w.value, ?_⟩⟩
    rw [← typedL.value w (typedR.walked.steps.models w hw), Ty.eval]
  | less | lessEqual | greater | greaterEqual =>
    refine ensures_andThen ((soundL _ .integer inv trivial blankL).mono fun l' t s₁ typedL => ?_)
    refine ensures_andThen ((soundR _ .integer typedL.walked.steps.inv trivial blankR).mono
      fun r' u s₂ typedR => ?_)
    exact ensures_done ⟨_, _, forward (.refl inv) typedL typedR trivial trivial, fun w _ => rfl⟩
  | inclusion | nonInclusion | strictInclusion | strictNonInclusion =>
    refine ensures_bind (ensures_andThen ((soundL _ (.set (.var s.vars)) inv.fresh.inv fresh
      blankL).mono fun l' t s₁ typedL => ?_))
    refine ensures_andThen ((soundR _ _ typedL.walked.steps.inv typedL.within blankR).mono
      fun r' u s₂ typedR => ?_)
    refine ensures_done ⟨_, _, forward inv.fresh typedL typedR fresh typedL.within,
      fun w hw => ⟨(Ty.var s.vars).eval w.value, ?_⟩⟩
    rw [typedL.value w (typedR.walked.steps.models w hw), Ty.eval]
    rfl

/-! ## All kinds of nodes. -/

/-- Walking through the node is sound. -/
def Node.Sound (known : Nat → Bool) (scope : Scope) : Node → Prop
  | .expr e => e.Sound known scope
  | .pred p => p.Sound known scope
  | _ => True

/-- What an aggregate asks of its body. -/
lemma Aggregate.type_sound (op : Aggregate) (inv : s.Inv known) :
    s.Steps known (op.type s).2 ∧ (op.type s).1.Scoped (op.type s).2.vars ∧
      ∀ σ, op.HasType [.bool, (op.type s).1.eval σ] ((op.type s).1.eval σ) := by
  cases op with
  | sigma | pi => exact ⟨.refl inv, trivial, fun σ => ⟨rfl, rfl⟩⟩
  | union | inter =>
    refine ⟨inv.fresh, ?_, fun σ => ⟨σ s.vars, ?_⟩⟩
    · show (Ty.var s.vars).Scoped (s.grow .free).vars
      simp [Ty.Scoped]
    · exact ⟨rfl, rfl⟩

section

variable {n : Note}

/-- A node of one part. -/
lemma View.gives_singleton {V : View} {m : Node} {t : Ty} (h : V.value? m = some t) :
    V.Gives [m] [t] := View.gives_cons.2 ⟨h, rfl⟩

namespace Expr

lemma check_aggregate_sound {op : Aggregate} {bound : List Nat} {pred : Pred} {body : Expr}
    (soundP : pred.Sound known scope) (soundB : body.Sound known scope) :
    (aggregate n op bound pred body).Sound known scope := by
  intro s expected inv he blank
  obtain ⟨-, blank⟩ := Node.blank_iff.1 blank
  simp only [Node.children, children, List.forall_mem_cons] at blank
  obtain ⟨decl, ts, types⟩ := inv.declare bound
  rw [check]
  refine ensures_bind (ensures_andThen ((soundP _ decl.steps.inv blank.1).mono
    fun pred' _ s₁ typedP => ?_))
  obtain ⟨steps, hf, rule⟩ := op.type_sound typedP.walked.steps.inv
  refine ensures_bind ?_
  revert steps hf rule
  obtain ⟨found, s₂⟩ := op.type s₁
  intro steps hf rule
  have early := decl.steps.trans (typedP.walked.steps.trans steps)
  refine ensures_orFail (steps.inv.unifyAt (he.mono early.vars_le) hf (fun t s₃ uni => ?_)
    fun _ _ h => by cases h)
  refine ensures_andThen ((soundB _ _ uni.steps.inv uni.scope blank.2.1).mono
    fun body' _ s₄ typedB => ?_)
  have late := uni.steps.trans typedB.walked.steps
  have same (w : World) (hw : w.Models s₄) := uni.sound w (typedB.walked.steps.models w hw)
  refine ensures_done (.intro ?_ rfl (uni.scope.mono typedB.walked.steps.vars_le)
    (fun w hw => (same w hw).2) (fun w hw _ => ?_) ?_)
  · exact ((typedP.walked.after decl.steps).trans (steps.trans uni.steps)).cons typedB.walked
  · refine ⟨_, View.gives_cons.2 ⟨typedP.value? ((steps.trans late).models w hw),
      View.gives_singleton (typedB.value? hw)⟩, ?_, ?_⟩
    · exact hw.declares types (typedP.walked.steps.trans (steps.trans late))
    · rw [(same w hw).2, (same w hw).1]
      exact rule w.value
  · simp [typedP.erased, typedB.erased, Note.withTy]

lemma check_comprehension_sound {bound : List Nat} {pred : Pred}
    (soundP : pred.Sound known scope) : (comprehension n bound pred).Sound known scope := by
  intro s expected inv he blank
  obtain ⟨-, blank⟩ := Node.blank_iff.1 blank
  simp only [Node.children, children, List.forall_mem_cons] at blank
  obtain ⟨decl, ts, types⟩ := inv.declare bound
  rw [check]
  refine ensures_bind (ensures_andThen ((soundP _ decl.steps.inv blank.1).mono
    fun pred' _ s₁ typedP => ?_))
  refine ensures_orFail ?_
  obtain ⟨t, s₂, run, bounds⟩ | ⟨-, e, s₂, run⟩ :=
    typedP.walked.steps.inv.boundTuple (comprehension n bound pred').site bound
  · rw [Concludes, run]
    have steps := bounds.declares.steps
    have walked := (typedP.walked.after decl.steps).trans steps
    refine ensures_settle walked (he.mono walked.steps.vars_le) bounds.within
      (fun w hw _ _ => ?_) (by simp [typedP.erased])
    refine ⟨_, View.gives_singleton (typedP.value? (steps.models w hw)), _, bounds.hasTuple hw,
      rfl, ?_⟩
    rw [Ty.eval]
  · rw [Concludes, run]
    exact fun h => by cases h

lemma check_lambda_sound {bound : List Nat} {pred : Pred} {body : Expr}
    (soundP : pred.Sound known scope) (soundB : body.Sound known scope) :
    (lambda n bound pred body).Sound known scope := by
  intro s expected inv he blank
  obtain ⟨-, blank⟩ := Node.blank_iff.1 blank
  simp only [Node.children, children, List.forall_mem_cons] at blank
  obtain ⟨decl, ts, types⟩ := inv.declare bound
  rw [check]
  refine ensures_bind (ensures_andThen ((soundP _ decl.steps.inv blank.1).mono
    fun pred' _ s₁ typedP => ?_))
  refine ensures_orFail ?_
  obtain ⟨t, s₂, run, bounds⟩ | ⟨-, e, s₂, run⟩ :=
    typedP.walked.steps.inv.boundTuple (lambda n bound pred' body).site bound
  · rw [Concludes, run]
    have steps := bounds.declares.steps
    refine ensures_bind (ensures_andThen ((soundB _ (.var s₂.vars) steps.inv.fresh.inv
      (by simp [Ty.Scoped]) blank.2.1).mono fun body' r s₃ typedB => ?_))
    have late := steps.inv.fresh.trans typedB.walked.steps
    have walked : Walked known scope s [.pred pred', .expr body'] s₃ :=
      ((typedP.walked.after decl.steps).trans (steps.trans steps.inv.fresh)).cons typedB.walked
    refine ensures_settle walked (he.mono walked.steps.vars_le)
      (Ty.scoped_relation.2 ⟨bounds.within.mono late.vars_le, typedB.within⟩) (fun w hw _ _ => ?_)
      (by simp [typedP.erased, typedB.erased])
    refine ⟨_, View.gives_cons.2 ⟨typedP.value? ((steps.trans late).models w hw),
      View.gives_singleton (typedB.value? hw)⟩, t.eval w.value, _, ?_, rfl, ?_⟩
    · exact bounds.hasTuple (late.models w hw)
    · rw [Ty.eval_relation, typedB.value w hw]
  · rw [Concludes, run]
    exact fun h => by cases h

lemma check_ite_sound {cond : Pred} {yes no : Expr} (soundC : cond.Sound known scope)
    (soundY : yes.Sound known scope) (soundN : no.Sound known scope) :
    (ite n cond yes no).Sound known scope := by
  intro s expected inv he blank
  obtain ⟨-, blank⟩ := Node.blank_iff.1 blank
  simp only [Node.children, children, List.forall_mem_cons] at blank
  rw [check]
  refine ensures_andThen ((soundC _ inv blank.1).mono fun cond' _ s₁ typedC => ?_)
  have inv₁ := typedC.walked.steps.inv
  refine ensures_bind (ensures_andThen ((soundY _ (.var s₁.vars) inv₁.fresh.inv
    (by simp [Ty.Scoped]) blank.2.1).mono fun yes' t s₂ typedY => ?_))
  refine ensures_andThen ((soundN _ _ typedY.walked.steps.inv typedY.within blank.2.2.1).mono
    fun no' u s₃ typedN => ?_)
  have late := typedY.walked.steps.trans typedN.walked.steps
  have walked : Walked known scope s [.pred cond', .expr yes', .expr no'] s₃ :=
    (typedC.walked.trans inv₁.fresh).cons (typedY.walked.cons typedN.walked)
  refine ensures_settle walked (he.mono walked.steps.vars_le) typedN.within (fun w hw _ _ => ?_)
    (by simp [typedC.erased, typedY.erased, typedN.erased])
  have hw₂ := typedN.walked.steps.models w hw
  refine ⟨_, View.gives_cons.2 ⟨typedC.value? ((inv₁.fresh.trans late).models w hw),
    View.gives_cons.2 ⟨typedY.value? hw₂, View.gives_singleton (typedN.value? hw)⟩⟩, ?_⟩
  rw [HasType, typedN.value w hw, typedY.value w hw₂]

lemma check_letIn_sound {bound : List Nat} {pred : Pred} {body : Expr}
    (soundP : pred.Sound known scope) (soundB : body.Sound known scope) :
    (letIn n bound pred body).Sound known scope := by
  intro s expected inv he blank
  obtain ⟨-, blank⟩ := Node.blank_iff.1 blank
  simp only [Node.children, children, List.forall_mem_cons] at blank
  obtain ⟨decl, ts, types⟩ := inv.declare bound
  rw [check]
  refine ensures_bind (ensures_andThen ((soundP _ decl.steps.inv blank.1).mono
    fun pred' _ s₁ typedP => ?_))
  have inv₁ := typedP.walked.steps.inv
  refine ensures_bind (ensures_andThen ((soundB _ (.var s₁.vars) inv₁.fresh.inv
    (by simp [Ty.Scoped]) blank.2.1).mono fun body' t s₂ typedB => ?_))
  have late := inv₁.fresh.trans typedB.walked.steps
  have walked : Walked known scope s [.pred pred', .expr body'] s₂ :=
    ((typedP.walked.after decl.steps).trans inv₁.fresh).cons typedB.walked
  refine ensures_settle walked (he.mono walked.steps.vars_le) typedB.within (fun w hw _ _ => ?_)
    (by simp [typedP.erased, typedB.erased])
  refine ⟨_, View.gives_cons.2 ⟨typedP.value? (late.models w hw),
    View.gives_singleton (typedB.value? hw)⟩, ?_, ?_⟩
  · exact hw.declares types (typedP.walked.steps.trans late)
  · rw [typedB.value w hw]

lemma check_field_sound {target : Expr} {name : String} (sound : target.Sound known scope) :
    (field n target name).Sound known scope := by
  intro s expected inv he blank
  obtain ⟨-, blank⟩ := Node.blank_iff.1 blank
  simp only [Node.children, children, List.forall_mem_cons] at blank
  rw [check]
  refine ensures_bind (ensures_andThen ((sound _ (.var s.vars) inv.fresh.inv
    (by simp [Ty.Scoped]) blank.1).mono fun target' t s₁ typed => ?_))
  have wf := typed.walked.steps.inv.unifier.wellFormed
  obtain ⟨h, hh⟩ := wf.acyclic.exists_head? t
  refine ensures_bind ?_
  simp only [show (get : CheckM State) s₁ = (s₁, s₁) from rfl, hh]
  have refuse (u : Ty) (e : Ty → TypeError) : Ensures
      ((State.resolve u).orFail (field n target' name) fun t => CheckM.fail (field n target' name) (e t))
      s₁ ((field n target name).Typed known scope s expected) Proper := by
    obtain ⟨u', -, run⟩ := run_resolve wf u
    refine ensures_orFail ?_
    rw [Concludes, run]
    exact ensures_fail fun h => by cases h
  cases h with
  | record fields =>
    have hf := wf.scoped_head? hh typed.within
    cases found : Ty.field? fields name with
    | none =>
      simp only [found]
      exact refuse t fun t => .unknownField t name n.span
    | some u =>
      simp only [found]
      have steps := inv.fresh.trans typed.walked.steps
      have walked : Walked known scope s (field n target' name).children s₁ :=
        typed.walked.after inv.fresh
      refine ensures_settle walked (he.mono steps.vars_le)
        (Ty.scoped_of_field? hf found) (fun w hw _ _ => ?_) (by simp [typed.erased])
      have value : (Ty.record fields).eval w.value = t.eval w.value :=
        (Store.holdsOn_univ.2 hw.unifier.1).eval_head? wf (Store.closed_univ _) hh
          (Ty.over_univ typed.within)
      refine ⟨_, View.gives_singleton (typed.value? hw), fields.map fun x => (x.1, x.2.eval w.value),
        ?_, ?_⟩
      · rw [← typed.value w hw, ← value, (Ty.hom_eval w.value).record]
      · rw [Ty.field?_map, found, Option.map_some]
  | _ => exact refuse _ fun t => .expectedRecord name t n.span

lemma check_record_sound {fields : List (FieldLabel × Expr)}
    (sound : SoundAll known scope (fields.map (·.2))) : (record n fields).Sound known scope := by
  intro s expected inv he _
  rw [check]
  refine ensures_andThen ((checkRecord_sound sound inv).mono fun fields' types s₁ typed => ?_)
  refine ensures_settle typed.walked (he.mono typed.walked.steps.vars_le)
    (Ty.fieldsScoped_iff.2 typed.within) (fun w hw _ _ => ?_) (by simpa using typed.erased)
  refine ⟨_, typed.gives w hw, typed.has w hw, ?_⟩
  exact typed.eval_record w.value

lemma check_struct_sound {fields : List (FieldLabel × Expr)}
    (sound : SoundAll known scope (fields.map (·.2))) : (struct n fields).Sound known scope := by
  intro s expected inv he _
  rw [check]
  refine ensures_andThen ((checkStruct_sound sound inv).mono fun fields' types s₁ typed => ?_)
  refine ensures_settle typed.walked (he.mono typed.walked.steps.vars_le)
    (Ty.fieldsScoped_iff.2 typed.within) (fun w hw _ _ => ?_)
    (by simpa using typed.erased)
  refine ⟨_, typed.gives w hw, types.map fun x => x.2.eval w.value, typed.has w hw, ?_, ?_⟩
  · rw [List.map_map]
    rfl
  · rw [Ty.eval, typed.eval_record w.value]

/-- Walking through an expression is sound if walking through its parts is. -/
lemma sound_of_children {e : Expr} (ih : ∀ c ∈ e.children, c.Sound known scope) :
    e.Sound known scope := by
  cases e with
  | identifier n decl name =>
    intro s expected inv he _
    have found := inv.identifierType decl name
    rw [check]
    refine ensures_bind ?_
    revert found
    obtain ⟨t, s₁⟩ := identifierType decl name s
    intro found
    refine ensures_settle ((Walked.nil inv).trans found.steps) (he.mono found.steps.vars_le)
      found.scope (fun w hw _ _ => ?_) rfl
    exact ⟨[], rfl, rfl, fun exist => hw.types _ _ (found.type exist)⟩
  | integer n value =>
    intro s expected inv he _
    exact ensures_settle (.nil inv) he trivial
      (fun w _ _ _ => ⟨[], rfl, rfl, rfl⟩) rfl
  | real n digits =>
    intro s expected inv he _
    exact ensures_settle (.nil inv) he trivial
      (fun w _ _ _ => ⟨[], rfl, rfl, rfl⟩) rfl
  | string n value =>
    intro s expected inv he _
    exact ensures_settle (.nil inv) he trivial
      (fun w _ _ _ => ⟨[], rfl, rfl, rfl⟩) rfl
  | apply n op args =>
    intro s expected inv he blank
    have blank (a : Expr) (ha : a ∈ args) : (Node.expr a).Blank :=
      (Node.blank_iff.1 blank).2 _ (List.mem_map.2 ⟨a, ha, rfl⟩)
    have sound : SoundAll known scope args := fun a ha =>
      ⟨ih (.expr a) (List.mem_map.2 ⟨a, ha, rfl⟩), blank a ha⟩
    rw [check]
    exact check_apply_sound
      ⟨fun _ _ inv within length => checkForward_sound sound inv within length,
        fun _ _ inv within length => checkBackward_sound sound inv within length,
        fun _ _ inv ht => checkChain_sound sound inv ht, fun _ inv => checkApart_sound sound inv,
        fun _ _ inv ht length => checkCall_sound sound inv ht length⟩ blank inv he
  | aggregate n op bound pred body =>
    exact check_aggregate_sound (ih (.pred pred) (by simp [children]))
      (ih (.expr body) (by simp [children]))
  | comprehension n bound pred =>
    exact check_comprehension_sound (ih (.pred pred) (by simp [children]))
  | lambda n bound pred body =>
    exact check_lambda_sound (ih (.pred pred) (by simp [children]))
      (ih (.expr body) (by simp [children]))
  | ite n cond yes no =>
    exact check_ite_sound (ih (.pred cond) (by simp [children]))
      (ih (.expr yes) (by simp [children])) (ih (.expr no) (by simp [children]))
  | letIn n bound pred body =>
    exact check_letIn_sound (ih (.pred pred) (by simp [children]))
      (ih (.expr body) (by simp [children]))
  | record n fields =>
    intro s expected inv he blank
    refine check_record_sound (fun a ha => ?_) s expected inv he blank
    obtain ⟨f, hf, rfl⟩ := List.mem_map.1 ha
    have mem : Node.expr f.2 ∈ (record n fields).children := List.mem_map.2 ⟨f, hf, rfl⟩
    exact ⟨ih _ mem, (Node.blank_iff.1 blank).2 _ mem⟩
  | struct n fields =>
    intro s expected inv he blank
    refine check_struct_sound (fun a ha => ?_) s expected inv he blank
    obtain ⟨f, hf, rfl⟩ := List.mem_map.1 ha
    have mem : Node.expr f.2 ∈ (struct n fields).children := List.mem_map.2 ⟨f, hf, rfl⟩
    exact ⟨ih _ mem, (Node.blank_iff.1 blank).2 _ mem⟩
  | field n target name => exact check_field_sound (ih (.expr target) (by simp [children]))
  | bool n pred =>
    intro s expected inv he blank
    obtain ⟨-, blank⟩ := Node.blank_iff.1 blank
    have sound : pred.Sound known scope := ih (.pred pred) (by simp [children])
    rw [check]
    refine ensures_andThen ((sound s inv (blank _ (by simp [Node.children, children]))).mono
      fun pred' _ s₁ typed => ?_)
    refine ensures_settle typed.walked (he.mono typed.walked.steps.vars_le) trivial
      (fun w hw _ _ => ?_) (by simp [typed.erased])
    exact ⟨_, View.gives_singleton (typed.value? hw), rfl, rfl⟩

end Expr

namespace Pred

/-- Walking through a predicate is sound if walking through its parts is. -/
lemma sound_of_children {p : Pred} (ih : ∀ c ∈ p.children, c.Sound known scope) :
    p.Sound known scope := by
  intro s inv blank
  have blank := (Node.blank_iff.1 blank).2
  cases p with
  | connective n op args =>
    have sound (a : Pred) (ha : a ∈ args) : a.Sound known scope ∧ (Node.pred a).Blank := by
      have mem : Node.pred a ∈ (connective n op args).children := List.mem_map.2 ⟨a, ha, rfl⟩
      exact ⟨ih _ mem, blank _ mem⟩
    rw [check]
    refine ensures_orFail (inv.unifyAt (l := .bool) (r := .bool) trivial trivial (fun t s₁ uni => ?_)
      fun _ _ h => by cases h)
    refine ensures_andThen ((checkAll_sound scope sound uni.steps.inv).mono fun args' _ s₂ all => ?_)
    have steps := all.walked.steps
    refine ensures_done (.intro (all.walked.after uni.steps) rfl (uni.scope.mono steps.vars_le)
      (fun w hw => (uni.sound w (steps.models w hw)).2) (fun w hw _ => ?_) ?_)
    · exact ⟨_, all.gives w hw, fun u hu => List.eq_of_mem_replicate hu, rfl⟩
    · have erased := all.erased
      simpa [Note.withTy] using erased
  | comparison n op args =>
    rw [check]
    refine ensures_orFail (inv.unifyAt (l := .bool) (r := .bool) trivial trivial (fun t s₁ uni => ?_)
      fun _ _ h => by cases h)
    split
    · rename_i len
      obtain ⟨l, r, rfl⟩ := List.length_eq_two.1 len
      have sound : Expr.SoundAll known scope [l, r] := fun a ha => by
        have mem : Node.expr a ∈ (comparison n op [l, r]).children := List.mem_map.2 ⟨a, ha, rfl⟩
        exact ⟨ih _ mem, blank _ mem⟩
      refine ensures_andThen ((Expr.checkCompared_sound sound uni.steps.inv).mono
        fun args' _ s₂ h => ?_)
      obtain ⟨a, b, all, rule⟩ := h
      have steps := all.walked.steps
      refine ensures_done (.intro (all.walked.after uni.steps) rfl (uni.scope.mono steps.vars_le)
        (fun w hw => (uni.sound w (steps.models w hw)).2) (fun w hw _ => ?_) ?_)
      · exact ⟨_, all.gives w hw, rule w hw, rfl⟩
      · have erased := all.erased
        simpa [Note.withTy] using erased
    · exact ensures_fail fun h => by cases h
  | identifier n decl name =>
    have found := inv.identifierType decl name
    rw [check]
    refine ensures_bind ?_
    revert found
    obtain ⟨t, s₁⟩ := identifierType decl name s
    intro found
    refine ensures_settle ((Walked.nil inv).trans found.steps) found.scope (fun w hw value _ => ?_)
      rfl
    refine ⟨[], rfl, rfl, fun exist => ?_, rfl⟩
    have slot := hw.types _ _ (found.type exist)
    rwa [value] at slot
  | quantified n op bound pred =>
    have sound : pred.Sound known scope := ih (.pred pred) (by simp [children])
    obtain ⟨decl, ts, types⟩ := inv.declare bound
    rw [check]
    refine ensures_bind (ensures_andThen ((sound _ decl.steps.inv
      (blank (.pred pred) (by simp [Node.children, children]))).mono fun pred' _ s₁ typed => ?_))
    refine ensures_settle (typed.walked.after decl.steps) trivial
      (fun w hw _ _ => ?_) (by simp [typed.erased])
    exact ⟨_, View.gives_singleton (typed.value? hw), hw.declares types typed.walked.steps, rfl, rfl⟩
  | ite n cond yes no =>
    have soundC : cond.Sound known scope := ih (.pred cond) (by simp [children])
    have soundY : yes.Sound known scope := ih (.pred yes) (by simp [children])
    have soundN : no.Sound known scope := ih (.pred no) (by simp [children])
    simp only [Node.children, children, List.forall_mem_cons] at blank
    rw [check]
    refine ensures_andThen ((soundC _ inv blank.1).mono fun cond' _ s₁ typedC => ?_)
    refine ensures_andThen ((soundY _ typedC.walked.steps.inv blank.2.1).mono
      fun yes' _ s₂ typedY => ?_)
    refine ensures_andThen ((soundN _ typedY.walked.steps.inv blank.2.2.1).mono
      fun no' _ s₃ typedN => ?_)
    have walked : Walked known scope s (ite n cond' yes' no').children s₃ :=
      typedC.walked.cons (typedY.walked.cons typedN.walked)
    refine ensures_settle walked trivial (fun w hw _ _ => ?_)
      (by simp [typedC.erased, typedY.erased, typedN.erased])
    have hw₂ := typedN.walked.steps.models w hw
    exact ⟨_, View.gives_cons.2 ⟨typedC.value? (typedY.walked.steps.models w hw₂),
      View.gives_cons.2 ⟨typedY.value? hw₂, View.gives_singleton (typedN.value? hw)⟩⟩, rfl, rfl⟩
  | letIn n bound defs body =>
    have soundD : defs.Sound known scope := ih (.pred defs) (by simp [children])
    have soundB : body.Sound known scope := ih (.pred body) (by simp [children])
    simp only [Node.children, children, List.forall_mem_cons] at blank
    obtain ⟨decl, ts, types⟩ := inv.declare bound
    rw [check]
    refine ensures_bind (ensures_andThen ((soundD _ decl.steps.inv blank.1).mono
      fun defs' _ s₁ typedD => ?_))
    refine ensures_andThen ((soundB _ typedD.walked.steps.inv blank.2.1).mono
      fun body' _ s₂ typedB => ?_)
    have walked : Walked known scope s (letIn n bound defs' body').children s₂ :=
      (typedD.walked.after decl.steps).cons typedB.walked
    refine ensures_settle walked trivial (fun w hw _ _ => ?_)
      (by simp [typedD.erased, typedB.erased])
    have steps := typedD.walked.steps.trans typedB.walked.steps
    exact ⟨_, View.gives_cons.2 ⟨typedD.value? (typedB.walked.steps.models w hw),
      View.gives_singleton (typedB.value? hw)⟩, hw.declares types steps, rfl, rfl⟩

end Pred

end

/-- Walking through any expression or predicate is sound. -/
theorem Node.sound (known : Nat → Bool) (scope : Scope) (n : Node) : n.Sound known scope := by
  induction n using Node.induction with
  | step n ih =>
    cases n with
    | expr e => exact Expr.sound_of_children ih
    | pred p => exact Pred.sound_of_children ih
    | substitution | ltl => trivial

lemma Expr.sound (known : Nat → Bool) (scope : Scope) (e : Expr) : e.Sound known scope :=
  Node.sound known scope (.expr e)

lemma Pred.sound (known : Nat → Bool) (scope : Scope) (p : Pred) : p.Sound known scope :=
  Node.sound known scope (.pred p)

end BMethod
