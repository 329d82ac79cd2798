import BMethod.Proofs.Typing.Sound.Tree

/-!
# Substitutions, temporal formulas and machines are checked soundly

What was shown for expressions and predicates goes on to the trees that contain them: a walk through
a substitution, a temporal formula or the clauses of a machine leaves nodes that obey their rules in
every world of the state. The phases of a machine follow the order of its clauses, so together they
leave all its trees (`Machine.checkClauses_sound`).
-/

namespace BMethod

open State

variable {known : Nat → Bool} {scope : Scope} {s s' s'' : State}

/-! ## Operations that can be called. -/

/-- The types that other machines give for their operations are concrete. -/
def Scope.Concrete (scope : Scope) : Prop :=
  ∀ is ∈ scope.referred, ∀ i ∈ is, ∀ t, some t ∈ i.params ++ i.outputs → t.isConcrete = true

/-- Types that are settled are taken as they are. -/
lemma typesOrFresh_sound {os : List (Option Ty)} (inv : s.Inv known)
    (concrete : ∀ t, some t ∈ os → t.isConcrete = true) :
    s.Steps known (typesOrFresh os s).2 ∧
      (∀ t ∈ (typesOrFresh os s).1, t.Scoped (typesOrFresh os s).2.vars) ∧
      List.Forall₂ (fun o t => ∀ u, o = some u → t = u) os (typesOrFresh os s).1 := by
  induction os generalizing s with
  | nil => exact ⟨.refl inv, nofun, .nil⟩
  | cons o os ih =>
    have rest (t : Ty) (h : some t ∈ os) : t.isConcrete = true := concrete t (by simp [h])
    cases o with
    | none =>
      obtain ⟨steps, within, types⟩ := ih inv.fresh.inv rest
      have le := steps.vars_le
      rw [vars_grow] at le
      exact ⟨inv.fresh.trans steps, List.forall_mem_cons.2 ⟨Nat.lt_of_succ_le le, within⟩,
        .cons nofun types⟩
    | some t =>
      obtain ⟨steps, within, types⟩ := ih inv rest
      have ht : t.isConcrete = true := concrete t (by simp)
      exact ⟨steps, List.forall_mem_cons.2 ⟨Ty.scoped_of_isConcrete ht, within⟩,
        .cons (fun _ h => Option.some.inj h) types⟩

/-- The types for a call, and what looking them up leaves. -/
structure State.Calls (known : Nat → Bool) (scope : Scope) (s : State) (callee : Callee)
    (params outputs : List Ty) (s' : State) : Prop where
  steps : s.Steps known s'
  within : ∀ t ∈ params ++ outputs, t.Scoped s'.vars
  accepts : ∀ (s'' : State) (w : World), s'.Steps known s'' → w.Models s'' →
    (w.view known scope).Accepts callee (params.map (Ty.eval w.value))
      (outputs.map (Ty.eval w.value))

/-- Types that are settled are accepted in every world. -/
lemma forall₂_canon {os : List (Option Ty)} {ts : List Ty}
    (concrete : ∀ t, some t ∈ os → t.isConcrete = true)
    (types : List.Forall₂ (fun o t => ∀ u, o = some u → t = u) os ts) (σ : Nat → Ty) :
    List.Forall₂ (fun o u => ∀ t, o = some t → t.canon = u) os (ts.map (Ty.eval σ)) := by
  induction types with
  | nil => exact .nil
  | cons h _ ih =>
    refine .cons (fun t ht => ?_) (ih fun t ht => concrete t (by simp [ht]))
    rw [h t ht, Ty.eval_of_isConcrete (concrete t (by simp [ht]))]

/-- The types of the parameters and outputs of an operation that exists. -/
lemma Scope.types?_sound (concrete : scope.Concrete) (inv : s.Inv known) (callee : Callee) :
    (∃ s', scope.types? callee s = (none, s')) ∨
      ∃ params outputs s', scope.types? callee s = (some (params, outputs), s') ∧
        s.Calls known scope callee params outputs s' := by
  cases callee with
  | own operation =>
    cases found : scope.own[operation]? with
    | none =>
      refine .inl ⟨s, ?_⟩
      simp only [types?, found]
      rfl
    | some i =>
      obtain ⟨declP, typesP⟩ := inv.declaredTypes i.params
      obtain ⟨declO, typesO⟩ := declP.steps.inv.declaredTypes i.outputs
      have typesP' := typesP.imp fun _ _ h => declO.steps.kept _ _ h
      refine .inr ⟨(declaredTypes i.params s).1,
        (declaredTypes i.outputs (declaredTypes i.params s).2).1,
        (declaredTypes i.outputs (declaredTypes i.params s).2).2, ?_,
        declP.steps.trans declO.steps, ?_, fun s'' w steps hw => ⟨i, found, ?_, ?_⟩⟩
      · simp only [types?, found]
        rfl
      · rw [List.forall_mem_append]
        exact ⟨declO.steps.inv.within_of_slots typesP', declO.steps.inv.within_of_slots typesO⟩
      · exact hw.types?_eq (typesP'.imp fun _ _ h => steps.kept _ _ h)
      · exact hw.types?_eq (typesO.imp fun _ _ h => steps.kept _ _ h)
  | referred reference operation =>
    cases found : scope.referred[reference]? >>= (·[operation]?) with
    | none =>
      refine .inl ⟨s, ?_⟩
      simp only [types?, found]
      rfl
    | some i =>
      have concrete : ∀ t, some t ∈ i.params ++ i.outputs → t.isConcrete = true := by
        obtain ⟨is, his, hi⟩ := Option.bind_eq_some_iff.1 found
        exact concrete is (List.mem_of_getElem? his) i (List.mem_of_getElem? hi)
      have concreteP (t : Ty) (h : some t ∈ i.params) := concrete t (List.mem_append_left _ h)
      have concreteO (t : Ty) (h : some t ∈ i.outputs) := concrete t (List.mem_append_right _ h)
      obtain ⟨stepsP, withinP, typesP⟩ := typesOrFresh_sound inv concreteP
      obtain ⟨stepsO, withinO, typesO⟩ := typesOrFresh_sound stepsP.inv concreteO
      refine .inr ⟨(typesOrFresh i.params s).1,
        (typesOrFresh i.outputs (typesOrFresh i.params s).2).1,
        (typesOrFresh i.outputs (typesOrFresh i.params s).2).2, ?_, stepsP.trans stepsO, ?_,
        fun s'' w _ _ => ⟨i, found, forall₂_canon concreteP typesP _,
          forall₂_canon concreteO typesO _⟩⟩
      · simp only [types?, found]
        rfl
      · rw [List.forall_mem_append]
        exact ⟨fun t ht => (withinP t ht).mono stepsO.vars_le, withinO⟩

/-! ## Substitutions. -/

/-- A walk through the targets and values of an assignment gives each value the type of its
target. -/
lemma checkAssigned_sound (scope : Scope) {targets values : List Expr}
    (soundT : ∀ e ∈ targets, (Node.expr e).Blank) (soundV : ∀ e ∈ values, (Node.expr e).Blank)
    (length : targets.length = values.length) (inv : s.Inv known) :
    Ensures (checkAssigned targets values) s (fun x _ s' => ∃ ts : List Ty,
      Walked known scope s (x.1.map .expr ++ x.2.map .expr) s' ∧ ∀ w : World, w.Models s' →
        (w.view known scope).Gives (x.1.map .expr) (ts.map (Ty.eval w.value)) ∧
          (w.view known scope).Gives (x.2.map .expr) (ts.map (Ty.eval w.value))) Proper := by
  induction targets generalizing values s with
  | nil =>
    rw [List.length_eq_zero_iff.1 length.symm]
    exact ensures_done ⟨[], .nil inv, fun _ _ => ⟨rfl, rfl⟩⟩
  | cons target targets ih =>
    obtain _ | ⟨value, values⟩ := values
    · cases length
    · rw [List.forall_mem_cons] at soundT soundV
      rw [checkAssigned]
      refine ensures_bind (ensures_andThen ((target.sound known scope _ (.var s.vars)
        inv.fresh.inv (by simp [Ty.Scoped]) soundT.1).mono fun target' t s₁ typedT => ?_))
      refine ensures_andThen ((value.sound known scope _ t typedT.walked.steps.inv typedT.within
        soundV.1).mono fun value' u s₂ typedV => ?_)
      refine ensures_andThen ((ih soundT.2 soundV.2 (by simpa using length)
        typedV.walked.steps.inv).mono fun x _ s₃ h => ?_)
      obtain ⟨ts, walked, gives⟩ := h
      obtain ⟨targets', values'⟩ := x
      refine ensures_done ⟨t :: ts, ?_, fun w hw => ?_⟩
      · have order : (Node.expr target' :: (Node.expr value' ::
            (targets'.map .expr ++ values'.map .expr))).Perm
            (Node.expr target' :: targets'.map .expr ++ Node.expr value' :: values'.map .expr) :=
          .cons _ List.perm_middle.symm
        exact ((typedT.walked.cons (typedV.walked.cons walked)).perm order).after inv.fresh
      · have hw₂ := walked.steps.models w hw
        have hw₁ := typedV.walked.steps.models w hw₂
        have same := typedT.value? hw₁
        rw [← typedT.value w hw₁] at same
        exact ⟨View.gives_cons.2 ⟨same, (gives w hw).1⟩,
          View.gives_cons.2 ⟨typedV.value? hw₂, (gives w hw).2⟩⟩

/-- A walk through a call gives arguments and assigned expressions the types of the operation. -/
lemma checkCalled_sound (concrete : scope.Concrete) {span : Option Span} {name : String}
    {callee : Callee} {args assigned : List Expr} (blankA : ∀ e ∈ args, (Node.expr e).Blank)
    (blankO : ∀ e ∈ assigned, (Node.expr e).Blank) (inv : s.Inv known) :
    Ensures (checkCalled scope span name callee args assigned) s (fun x _ s' =>
      Walked known scope s (x.1.map .expr ++ x.2.map .expr) s' ∧ ∀ w : World, w.Models s' →
        ∃ ps os, (w.view known scope).Gives (x.1.map .expr) ps ∧
          (w.view known scope).Gives (x.2.map .expr) os ∧
          (w.view known scope).Accepts callee ps os) Proper := by
  refine ensures_bind ?_
  obtain ⟨s₁, run⟩ | ⟨params, outputs, s₁, run, calls⟩ := scope.types?_sound concrete inv callee
  · rw [run]
    exact ensures_fail nofun
  · rw [run]
    have within := List.forall_mem_append.1 calls.within
    simp only
    split
    · exact ensures_fail nofun
    · rename_i lenA
      split
      · exact ensures_fail nofun
      · rename_i lenO
        have soundA : Expr.SoundAll known scope args := fun e he => ⟨e.sound known scope, blankA e he⟩
        have soundO : Expr.SoundAll known scope assigned := fun e he => ⟨e.sound known scope, blankO e he⟩
        refine ensures_andThen ((Expr.checkForward_sound soundA calls.steps.inv within.1
          (not_not.1 lenA).symm).mono fun args' _ s₂ all => ?_)
        refine ensures_andThen ((Expr.checkForward_sound soundO all.walked.steps.inv
          (fun t ht => (within.2 t ht).mono all.walked.steps.vars_le)
          (not_not.1 lenO).symm).mono fun assigned' _ s₃ all' => ?_)
        refine ensures_done ⟨(all.walked.append all'.walked).after calls.steps, fun w hw => ?_⟩
        exact ⟨_, _, all.gives w (all'.walked.steps.models w hw), all'.gives w hw,
          calls.accepts s₃ w (all.walked.steps.trans all'.walked.steps) hw⟩

namespace Substitution

/-- Walking through a substitution with empty slots is sound. -/
def Sound (known : Nat → Bool) (scope : Scope) (σ : Substitution) : Prop :=
  ∀ s : State, s.Inv known → (Node.substitution σ).Blank →
    Ensures (σ.check scope) s (fun σ' _ => Walked known scope s [.substitution σ']) Proper

lemma checkAll_sound {σs : List Substitution}
    (sound : ∀ σ ∈ σs, σ.Sound known scope ∧ (Node.substitution σ).Blank) (inv : s.Inv known) :
    Ensures (checkAll scope σs) s (fun σs' _ => Walked known scope s (σs'.map .substitution))
      Proper := by
  induction σs generalizing s with
  | nil => exact ensures_done (.nil inv)
  | cons σ σs ih =>
    rw [List.forall_mem_cons] at sound
    rw [checkAll]
    refine ensures_andThen ((sound.1.1 s inv sound.1.2).mono fun σ' _ s₁ walked => ?_)
    refine ensures_andThen ((ih sound.2 walked.steps.inv).mono fun σs' _ s₂ rest => ?_)
    exact ensures_done (walked.cons rest)

lemma checkOption_sound {σ : Option Substitution}
    (sound : ∀ τ ∈ σ, τ.Sound known scope ∧ (Node.substitution τ).Blank) (inv : s.Inv known) :
    Ensures (checkOption scope σ) s
      (fun σ' _ => Walked known scope s (σ'.toList.map .substitution)) Proper := by
  cases σ with
  | none => exact ensures_done (.nil inv)
  | some σ =>
    obtain ⟨sound, blank⟩ := sound σ rfl
    exact ensures_andThen ((sound s inv blank).mono fun σ' _ s₁ walked => ensures_done walked)

/-- A substitution whose parts have been walked through, and whose rule holds in every world. -/
lemma ensures_done_of {σ : Substitution} (walked : Walked known scope s σ.children s')
    (obeys : ∀ w : World, w.Models s' → σ.Obeys (w.view known scope)) :
    Ensures (CheckM.done σ ()) s' (fun σ' _ => Walked known scope s [.substitution σ']) Proper :=
  ensures_done (walked.node (n := .substitution σ) nofun fun w hw _ => obeys w hw)

/-- Walking through any substitution is sound. -/
lemma sound_of_children (concrete : scope.Concrete) {σ : Substitution}
    (ih : ∀ τ, .substitution τ ∈ σ.children → τ.Sound known scope) : σ.Sound known scope := by
  intro s inv blank
  have blank : ∀ c ∈ σ.children, c.Blank := (Node.blank_iff.1 blank).2
  cases σ with
  | skip span =>
    rw [check]
    exact ensures_done_of (.nil inv) fun _ _ => trivial
  | assign span targets values =>
    rw [check]
    split
    · rename_i length
      refine ensures_andThen ((checkAssigned_sound scope
        (fun e he => blank _ (by simp [children, he])) (fun e he => blank _ (by simp [children, he]))
        length inv).mono fun x _ s₁ h => ?_)
      obtain ⟨ts, walked, gives⟩ := h
      exact ensures_done_of walked fun w hw => ⟨_, gives w hw⟩
    · exact ensures_fail fun h => by cases h
  | becomesElement span targets set =>
    have sound : Expr.SoundAll known scope targets := fun e he =>
      ⟨e.sound known scope, blank _ (by simp [children, he])⟩
    rw [check]
    refine ensures_andThen ((Expr.checkApart_sound sound inv).mono
      fun targets' types s₁ h => ?_)
    obtain ⟨all, _⟩ := h
    cases tuple : Ty.tuple? types with
    | none => exact ensures_fail fun h => by cases h
    | some t =>
      have ht : t.Scoped s₁.vars := Ty.scoped_of_tuple? tuple all.within
      refine ensures_andThen ((set.sound known scope _ (.set t) all.walked.steps.inv ht
        (blank _ (by simp [children]))).mono fun set' _ s₂ typed => ?_)
      refine ensures_done_of (all.walked.append typed.walked) fun w hw => ?_
      refine ⟨_, t.eval w.value, all.gives w (typed.walked.steps.models w hw), ?_, ?_⟩
      · rw [(Ty.hom_eval w.value).tuple?, tuple, Option.map_some]
      · rw [← Ty.eval]
        exact typed.value? hw
  | becomesSuch span targets pred =>
    have sound : Expr.SoundAll known scope targets := fun e he =>
      ⟨e.sound known scope, blank _ (by simp [children, he])⟩
    rw [check]
    refine ensures_andThen ((Expr.checkApart_sound sound inv).mono
      fun targets' types s₁ h => ?_)
    obtain ⟨all, _⟩ := h
    refine ensures_andThen ((pred.sound known scope _ all.walked.steps.inv
      (blank _ (by simp [children]))).mono fun pred' _ s₂ typed => ?_)
    exact ensures_done_of (all.walked.append typed.walked) fun w hw =>
      ⟨⟨_, all.gives w (typed.walked.steps.models w hw)⟩, typed.value? hw⟩
  | any span bound pred body | letIn span bound pred body =>
    obtain ⟨decl, ts, types⟩ := inv.declare bound
    rw [check]
    refine ensures_bind (ensures_andThen ((pred.sound known scope _ decl.steps.inv
      (blank _ (by simp [children]))).mono fun pred' _ s₁ typed => ?_))
    refine ensures_andThen ((ih body (by simp [children]) _ typed.walked.steps.inv
      (blank _ (by simp [children]))).mono fun body' _ s₂ walked => ?_)
    exact ensures_done_of ((typed.walked.after decl.steps).cons walked) fun w hw =>
      ⟨hw.declares types (typed.walked.steps.trans walked.steps),
        typed.value? (walked.steps.models w hw)⟩
  | var span bound body =>
    obtain ⟨decl, ts, types⟩ := inv.declare bound
    rw [check]
    refine ensures_bind (ensures_andThen ((ih body (by simp [children]) _ decl.steps.inv
      (blank _ (by simp [children]))).mono fun body' _ s₁ walked => ?_))
    exact ensures_done_of (walked.after decl.steps) fun w hw => hw.declares types walked.steps
  | guarded span kind cond body =>
    rw [check]
    refine ensures_andThen ((cond.sound known scope _ inv (blank _ (by simp [children]))).mono
      fun cond' _ s₁ typed => ?_)
    refine ensures_andThen ((ih body (by simp [children]) _ typed.walked.steps.inv
      (blank _ (by simp [children]))).mono fun body' _ s₂ walked => ?_)
    exact ensures_done_of (typed.walked.cons walked) fun w hw =>
      typed.value? (walked.steps.models w hw)
  | branch span kind conds branches otherwise =>
    rw [check]
    refine ensures_andThen ((Pred.checkAll_sound scope (fun p hp =>
      ⟨p.sound known scope, blank _ (by simp [children, hp])⟩) inv).mono fun conds' _ s₁ all => ?_)
    refine ensures_andThen ((checkAll_sound (fun τ hτ => ⟨ih τ (by simp [children, hτ]),
      blank _ (by simp [children, hτ])⟩) all.walked.steps.inv).mono fun branches' _ s₂ walked => ?_)
    refine ensures_andThen ((checkOption_sound (fun τ hτ =>
      have some : otherwise = some τ := hτ
      ⟨ih τ (by simp [children, some]), blank _ (by simp [children, some])⟩) walked.steps.inv).mono
      fun otherwise' _ s₃ last => ?_)
    refine ensures_done_of ((all.walked.append walked).append last) fun w hw cond hc => ?_
    exact all.value? ((walked.steps.trans last.steps).models w hw) hc
  | choice span branches | block span kind branches =>
    rw [check]
    refine ensures_andThen ((checkAll_sound (fun τ hτ => ⟨ih τ (by simp [children, hτ]),
      blank _ (by simp [children, hτ])⟩) inv).mono fun branches' _ s₁ walked => ?_)
    exact ensures_done_of walked fun _ _ => trivial
  | loop span cond body inv' variant =>
    rw [check]
    refine ensures_andThen ((cond.sound known scope _ inv (blank _ (by simp [children]))).mono
      fun cond' _ s₁ typedC => ?_)
    refine ensures_andThen ((ih body (by simp [children]) _ typedC.walked.steps.inv
      (blank _ (by simp [children]))).mono fun body' _ s₂ walked => ?_)
    refine ensures_andThen ((inv'.sound known scope _ walked.steps.inv
      (blank _ (by simp [children]))).mono fun inv'' _ s₃ typedI => ?_)
    refine ensures_andThen ((variant.sound known scope _ .integer typedI.walked.steps.inv trivial
      (blank _ (by simp [children]))).mono fun variant' _ s₄ typedV => ?_)
    refine ensures_done_of (typedC.walked.cons (walked.cons (typedI.walked.cons typedV.walked)))
      fun w hw => ?_
    have hw₃ := typedV.walked.steps.models w hw
    have hw₁ := walked.steps.models w (typedI.walked.steps.models w hw₃)
    exact ⟨typedC.value? hw₁, typedI.value? hw₃, typedV.value? hw⟩
  | call span name callee args assigned =>
    rw [check]
    refine ensures_andThen ((checkCalled_sound concrete
      (fun e he => blank _ (by simp [children, he])) (fun e he => blank _ (by simp [children, he]))
      inv).mono fun x _ s₁ h => ?_)
    obtain ⟨walked, obeys⟩ := h
    exact ensures_done_of walked obeys

/-- Walking through any substitution is sound. -/
theorem sound (known : Nat → Bool) (concrete : scope.Concrete) (σ : Substitution) :
    σ.Sound known scope := by
  suffices ∀ n : Node, ∀ σ, n = .substitution σ → σ.Sound known scope from this _ σ rfl
  intro n
  induction n using Node.induction with
  | step n ih =>
    rintro σ rfl
    exact sound_of_children concrete fun τ hτ => ih _ hτ τ rfl

end Substitution

/-! ## Temporal formulas. -/

/-- Walking through any temporal formula is sound. -/
theorem Ltl.sound (scope : Scope) {f : Ltl} (inv : s.Inv known) (blank : (Node.ltl f).Blank) :
    Ensures f.check s (fun f' _ => Walked known scope s [.ltl f']) Proper := by
  have done {f : Ltl} {s s' : State} (walked : Walked known scope s f.children s')
      (obeys : ∀ w : World, w.Models s' → f.Obeys (w.view known scope)) :
      Ensures (CheckM.done f ()) s' (fun f' _ => Walked known scope s [.ltl f']) Proper :=
    ensures_done (walked.node (n := .ltl f) nofun fun w hw _ => obeys w hw)
  induction f generalizing s with
  | unary op arg ih =>
    have blank := (Node.blank_iff.1 blank).2
    simp only [Node.children, children, List.forall_mem_cons] at blank
    rw [check]
    refine ensures_andThen ((ih inv blank.1).mono fun arg' _ s₁ walked => ?_)
    exact done walked fun _ _ => trivial
  | binary op left right ihl ihr =>
    have blank := (Node.blank_iff.1 blank).2
    simp only [Node.children, children, List.forall_mem_cons] at blank
    rw [check]
    refine ensures_andThen ((ihl inv blank.1).mono fun left' _ s₁ walkedL => ?_)
    refine ensures_andThen ((ihr walkedL.steps.inv blank.2.1).mono fun right' _ s₂ walkedR => ?_)
    exact done (walkedL.cons walkedR) fun _ _ => trivial
  | keyword op => exact done (.nil inv) fun _ _ => trivial
  | pred p =>
    have blank := (Node.blank_iff.1 blank).2
    simp only [Node.children, children, List.forall_mem_cons] at blank
    rw [check]
    refine ensures_andThen ((p.sound known scope s inv blank.1).mono fun p' _ s₁ typed => ?_)
    exact done typed.walked fun w hw => typed.value? hw

/-! ## Machines. -/

/-- A slot holds what it held, or what was put there. -/
lemma Declarations.ty?_setTy_cases {ds : Declarations} {id i : Nat} {t u : Ty}
    (h : (ds.setTy id (some t)).ty? i = some u) : ds.ty? i = some u ∨ u = t := by
  rw [ty?, get?_setTy] at h
  split at h
  · cases hd : ds.get? i with
    | none => simp [hd] at h
    | some d =>
      right
      simpa [hd] using h.symm
  · exact .inl h

/-- Declarations with the same labels exist in the same places. -/
lemma Declarations.isSome_get?_of_label? {ds ds' : Declarations} {id : Nat}
    (h : ds'.label? id = ds.label? id) : (ds'.get? id).isSome = (ds.get? id).isSome := by
  simpa [label?] using congrArg Option.isSome h

/-- Types have been put into the slots of declarations of which `P` holds, such that are concrete or
that declarations had before. Nothing else has changed but what was reported. -/
structure State.Retyped (P : Nat → Prop) (s s' : State) : Prop where
  unifier : s'.unifier = s.unifier
  clear : s'.decls.clear = s.decls.clear
  kept : ∀ id, ¬ P id → s'.decls.ty? id = s.decls.ty? id
  types : ∀ id t, s'.decls.ty? id = some t → t.isConcrete = true ∨ ∃ i, s.decls.ty? i = some t

section

variable {P : Nat → Prop}

lemma State.Retyped.refl (s : State) : s.Retyped P s :=
  ⟨rfl, rfl, fun _ _ => rfl, fun id _ h => .inr ⟨id, h⟩⟩

lemma State.Retyped.trans (h : s.Retyped P s') (h' : s'.Retyped P s'') : s.Retyped P s'' where
  unifier := h'.unifier.trans h.unifier
  clear := h'.clear.trans h.clear
  kept id hid := (h'.kept id hid).trans (h.kept id hid)
  types id t ht := by
    obtain concrete | ⟨i, ht⟩ := h'.types id t ht
    · exact .inl concrete
    · exact h.types i t ht

lemma State.Retyped.labels (h : s.Retyped P s') (id : Nat) :
    s'.decls.label? id = s.decls.label? id :=
  Declarations.label?_of_clear h.clear id

/-- One type is put into a slot. -/
lemma State.retyped_setTy {id : Nat} {t : Ty} (hid : P id)
    (ht : t.isConcrete = true ∨ ∃ i, s.decls.ty? i = some t) (events : List Event) :
    s.Retyped P { s with decls := s.decls.setTy id (some t), events } where
  unifier := rfl
  clear := Declarations.clear_setTy _ _ _
  kept i hi := by
    have ne : id ≠ i := by
      rintro rfl
      exact hi hid
    rw [Declarations.ty?, Declarations.get?_setTy, if_neg ne, Declarations.ty?]
  types i u hu := by
    obtain hu | rfl := Declarations.ty?_setTy_cases hu
    · exact .inr ⟨i, hu⟩
    · exact ht

/-- The invariant does not ask which types are in the slots. -/
lemma State.Inv.retyped (inv : s.Inv known) (h : s.Retyped P s') : s'.Inv known where
  unifier := h.unifier ▸ inv.unifier
  settled := h.unifier ▸ inv.settled
  known id := (Declarations.isSome_get?_of_label? (h.labels id)).trans (inv.known id)
  scope id t ht := by
    rw [vars, h.unifier]
    obtain concrete | ⟨i, ht⟩ := h.types id t ht
    · exact Ty.scoped_of_isConcrete concrete
    · exact inv.scope i t ht

/-- Where no types are put the worlds stay the same. -/
lemma State.Inv.steps_retyped (inv : s.Inv known) (h : s.Retyped P s') (none : ∀ id, ¬ P id) :
    s.Steps known s' where
  inv := inv.retyped h
  vars_le := by rw [vars, vars, h.unifier]
  labels := h.labels
  kept id t ht := (h.kept id (none id)).trans ht
  models w hw :=
    ⟨h.unifier ▸ hw.unifier, fun id t ht => hw.types id t ((h.kept id (none id)).trans ht)⟩

end

/-- Forgetting types of declarations keeps the invariant. -/
lemma keeps_redeclare (ids : List Nat) (s : State) (inv : s.Inv known) :
    (redeclare ids s).2.Inv known := by
  induction ids generalizing s with
  | nil => exact inv
  | cons id ids ih =>
    refine ih (s.seed id) ?_
    have fresh := inv.fresh.inv
    refine ⟨fresh.unifier, fresh.settled, fun i => ?_, fun i t ht => ?_⟩
    · rw [← inv.known i]
      exact isSome_get?_setTy ..
    · show t.Scoped (s.grow .free).vars
      obtain ht | rfl := Declarations.ty?_setTy_cases ht
      · exact (inv.scope i t ht).mono (by simp)
      · simp [Ty.Scoped]

/-! ### Types of sets. -/

/-- A loop that puts types into slots, as long as nothing else changes. -/
lemma retyped_forM {α : Type} {P : Nat → Prop} {ds : Declarations} {f : α → CheckM Unit} {as : List α}
    (h : ∀ a ∈ as, ∀ s : State, (∀ i, s.decls.label? i = ds.label? i) → s.Retyped P (f a s).2)
    (labels : ∀ i, s.decls.label? i = ds.label? i) : s.Retyped P (as.forM f s).2 := by
  induction as generalizing s with
  | nil => exact .refl s
  | cons a as ih =>
    rw [List.forall_mem_cons] at h
    have first := h.1 s labels
    exact first.trans (ih h.2 fun i => (first.labels i).trans (labels i))

/-- One concrete type is put into many slots. -/
lemma retyped_foldl_setTy {P : Nat → Prop} {t : Ty} (ht : t.isConcrete = true) (ids : List Nat)
    (h : ∀ id ∈ ids, P id) (s : State) :
    s.Retyped P { s with decls := ids.foldl (fun ds id => ds.setTy id (some t)) s.decls } := by
  induction ids generalizing s with
  | nil => exact .refl s
  | cons id ids ih =>
    rw [List.forall_mem_cons] at h
    exact (retyped_setTy h.1 (.inl ht) s.events).trans (ih h.2 _)

lemma retyped_seedEnumerated (machine : String) (set : EnumeratedSet) (s : State) :
    s.Retyped (fun _ => True) (seedEnumerated machine set s).2 := by
  simp only [seedEnumerated, bind, StateT.bind, get, getThe, MonadStateOf.get, StateT.get, pure]
  cases hd : s.decls.get? set.set with
  | none => exact .refl s
  | some d =>
    obtain ⟨name, span, _ | t, qualifier⟩ := d
    · exact (retyped_setTy trivial (.inl rfl) _).trans (retyped_foldl_setTy rfl _ (fun _ _ => trivial) _)
    · exact .refl s

lemma retyped_seedDeferred (machine : String) (id : Nat) (s : State) :
    s.Retyped (fun _ => True) (seedDeferred machine id s).2 := by
  simp only [seedDeferred, bind, StateT.bind, get, getThe, MonadStateOf.get, StateT.get, pure]
  cases hd : s.decls.get? id with
  | none => exact .refl s
  | some d =>
    obtain ⟨name, span, _ | t, qualifier⟩ := d
    · exact retyped_setTy trivial (.inl rfl) _
    · exact .refl s

/-- Giving sets their types puts concrete types into slots. -/
lemma Machine.retyped_seedSets (m : Machine) (s : State) :
    s.Retyped (fun _ => True) (m.seedSets s).2 :=
  (retyped_forM (fun set _ s _ => retyped_seedEnumerated m.name set s) fun _ => rfl).trans
    (retyped_forM (fun id _ s _ => retyped_seedDeferred m.name id s) fun _ => rfl)

/-! ### Types taken over. -/

/-- A type, if there is one, is put into the slot of a declaration. -/
lemma retyped_takeType {P : Nat → Prop} {id : Nat} {offer : Option Ty}
    (h : ∀ t ∈ offer, P id ∧ (t.isConcrete = true ∨ ∃ i, s.decls.ty? i = some t)) :
    s.Retyped P (takeType id offer s).2 := by
  simp only [takeType, bind, StateT.bind, get, getThe, MonadStateOf.get, StateT.get, pure]
  cases hd : s.decls.get? id with
  | none => exact .refl s
  | some d =>
    cases offer with
    | none => exact .refl s
    | some t =>
      obtain ⟨hid, ht⟩ := h t rfl
      exact retyped_setTy hid ht _

namespace Machine

/-- A settled type is concrete. -/
lemma isConcrete_of_settledNamed? {m : Machine} {ids : List Nat} {name : String} {t : Ty}
    (h : m.settledNamed? ids name = some t) : t.isConcrete = true := by
  obtain ⟨d, -, h⟩ := Option.bind_eq_some_iff.1 h
  exact (Option.filter_eq_some_iff.1 h).2

variable (m : Machine)

/-- Whether a machine that is referred to offers a type for a variable: one with a qualifier has a
variable with a settled type that the qualified name refers to, or makes the variable get the type of
another that is taken over under the same name; one without has taken over a variable of the same name
with a settled type. -/
def offers (id : Nat) (name : String) : Option String × Machine → Bool
  | (some qualifier, source) =>
    (unqualified? qualifier name >>= source.settledNamed? source.vars).isSome ||
      m.included.any fun other => other ≠ id && (m.decls.get? other).any (·.name == name)
  | (none, source) => (source.settledNamed? source.included name).isSome

/-- Whether a type is taken over for a declaration. -/
def takesOver (id : Nat) : Bool :=
  m.included.contains id &&
    (m.decls.get? id).any fun d => m.references.any (m.offers id d.name)

variable {m}

/-- A sibling is another variable of the same name, with a type of its own. -/
lemma exists_of_siblingType? {ds : Declarations} {included : List Nat} {id : Nat} {t : Ty}
    (h : siblingType? ds included id = some t) :
    (∃ i, ds.ty? i = some t) ∧ ∃ d other d', ds.get? id = some d ∧ other ∈ included ∧ other ≠ id ∧
      ds.get? other = some d' ∧ d'.name = d.name := by
  obtain ⟨d, hd, h⟩ := Option.bind_eq_some_iff.1 h
  obtain ⟨qualifier, -, h⟩ := Option.bind_eq_some_iff.1 h
  obtain ⟨-, -, h⟩ := Option.bind_eq_some_iff.1 h
  obtain ⟨d', hd', ht⟩ := List.mem_filterMap.1 (List.mem_of_getLast? h)
  obtain ⟨hd', name⟩ := List.mem_filter.1 hd'
  obtain ⟨other, ho, found⟩ := List.mem_filterMap.1 hd'
  obtain ⟨ho, ne⟩ := List.mem_filter.1 ho
  exact ⟨⟨other, (ty?_eq found).trans ht⟩, d, other, d', hd, ho, by simpa using ne, found,
    by simpa using name⟩

/-- The name of a declaration, wherever what is written there is the same. -/
lemma exists_get?_of_label? {ds ds' : Declarations} {id : Nat} (h : ds.label? id = ds'.label? id)
    {d : Declaration} (hd : ds.get? id = some d) : ∃ d', ds'.get? id = some d' ∧ d'.name = d.name := by
  rw [Declarations.label?, hd, Option.map_some, eq_comm, Declarations.label?,
    Option.map_eq_some_iff] at h
  obtain ⟨d', hd', eq⟩ := h
  exact ⟨d', hd', congrArg Prod.fst eq⟩

/-- An offer for the variable is one for taking it over. -/
lemma takesOver_of_offers {reference : Option String × Machine} (hr : reference ∈ m.references)
    {id : Nat} (hid : id ∈ m.included) (labels : ∀ i, s.decls.label? i = m.decls.label? i)
    {d : Declaration} (hd : s.decls.get? id = some d) (h : m.offers id d.name reference = true) :
    m.takesOver id = true := by
  obtain ⟨d₀, hd₀, name⟩ := exists_get?_of_label? (labels id) hd
  simp only [takesOver, List.contains_iff_mem.2 hid, hd₀, Option.any_some, Bool.true_and, name]
  exact List.any_eq_true.2 ⟨reference, hr, h⟩

/-- Taking over a type from a machine retypes at most the variable, if there is an offer for it. -/
lemma retyped_takeTypeFrom {reference : Option String × Machine} (hr : reference ∈ m.references)
    {id : Nat} (hid : id ∈ m.included) (labels : ∀ i, s.decls.label? i = m.decls.label? i) :
    s.Retyped (m.takesOver · = true) (takeTypeFrom m.included reference id s).2 := by
  simp only [takeTypeFrom, bind, StateT.bind, get, getThe, MonadStateOf.get, StateT.get, pure]
  cases hd : s.decls.get? id with
  | none => exact .refl s
  | some d =>
    have offered := takesOver_of_offers hr hid labels hd
    obtain ⟨_ | qualifier, source⟩ := reference
    · refine retyped_takeType fun t offer => ⟨offered ?_, .inl (isConcrete_of_settledNamed? offer)⟩
      simp [offers, Option.mem_def.1 offer]
    · have taken : s.Retyped (m.takesOver · = true) (takeType id
          (unqualified? qualifier d.name >>= source.settledNamed? source.vars) s).2 := by
        refine retyped_takeType fun t offer => ⟨offered ?_, .inl ?_⟩
        · simp [offers, Option.mem_def.1 offer]
        · obtain ⟨name, -, settled⟩ := Option.bind_eq_some_iff.1 offer
          exact isConcrete_of_settledNamed? settled
      refine taken.trans (retyped_takeType fun t sibling => ?_)
      obtain ⟨⟨i, ht⟩, d', other, d'', hd', ho, ne, hd'', name⟩ := exists_of_siblingType? sibling
      have labels (i : Nat) := (taken.labels i).trans (labels i)
      obtain ⟨d₁, hd₁, name'⟩ := exists_get?_of_label? (labels other) hd''
      refine ⟨takesOver_of_offers hr hid labels hd' ?_, .inr ⟨i, ht⟩⟩
      refine Bool.or_eq_true_iff.2 (.inr (List.any_eq_true.2 ⟨other, ho, ?_⟩))
      simp [ne, hd₁, name', name]

/-- Taking over types retypes at most the variables for which there are offers. -/
lemma retyped_takeTypes (labels : ∀ i, s.decls.label? i = m.decls.label? i) :
    s.Retyped (m.takesOver · = true) (m.takeTypes s).2 :=
  retyped_forM (fun _ hr _ labels => retyped_forM
    (fun _ hid _ labels => retyped_takeTypeFrom hr hid labels) labels) labels

end Machine

/-- At the start of a check nothing is known but concrete types of declarations. -/
lemma State.inv_start {ds : Declarations} (concrete : ∀ id t, ds.ty? id = some t →
    t.isConcrete = true) : (start ds).Inv fun id => (ds.get? id).isSome where
  unifier := ⟨Unifier.proper_empty, nofun⟩
  settled := nofun
  known _ := rfl
  scope id t h := Ty.scoped_of_isConcrete (concrete id t h)

/-- Declarations that have to be concrete at the end of a phase. -/
lemma ensures_requireConcrete {ν β : Type} (inv : s.Inv known) {what : Subject} {ids : List Nat}
    {node : ν} {next : Unit → CheckM (Visited ν β)} {Q : ν → β → State → Prop}
    (h : Ensures (next ()) s Q Proper) :
    Ensures ((requireConcrete what ids).orFail node next) s Q Proper := by
  refine ensures_orFail ?_
  obtain ⟨run, -⟩ | ⟨e, run, -⟩ := inv.requireConcrete what ids
  · rwa [Concludes, run]
  · rw [Concludes, run]
    exact fun h => by cases h

/-- A clause that may be missing. -/
lemma Pred.checkOption_sound (scope : Scope) {p : Option Pred} (blank : ∀ q ∈ p, (Node.pred q).Blank)
    (inv : s.Inv known) :
    Ensures (CheckM.optional (fun p => CheckM.ignore (p.check .bool)) p) s
      (fun p' _ => Walked known scope s (p'.toList.map .pred)) Proper := by
  cases p with
  | none => exact ensures_done (.nil inv)
  | some p =>
    refine ensures_andThen (ensures_andThen ((p.sound known scope s inv (blank p rfl)).mono
      fun p' _ s₁ typed => ?_))
    exact ensures_done (ensures_done typed.walked)

namespace Machine

lemma concrete_scope (m : Machine) : m.scope.Concrete := by
  intro is his i hi t ht
  obtain ⟨r, -, rfl⟩ := List.mem_map.1 his
  obtain ⟨o, -, rfl⟩ := List.mem_map.1 hi
  simp only [List.mem_append, List.mem_map] at ht
  obtain ⟨id, -, h⟩ | ⟨id, -, h⟩ := ht <;> exact (Option.filter_eq_some_iff.1 h).2

variable {m : Machine}

/-- Through the properties and values. -/
lemma checkConstants_sound (concrete : scope.Concrete)
    (blankP : ∀ p ∈ m.properties, (Node.pred p).Blank)
    (blankV : ∀ σ ∈ m.values, (Node.substitution σ).Blank) (inv : s.Inv known) :
    Ensures (m.checkConstants scope) s (fun m' _ s' => ∃ properties values,
      m' = { m with properties, values } ∧ Walked known scope s
        (properties.toList.map .pred ++ values.map .substitution) s') Proper := by
  have begin := steps_report (.enters .constants) (.refl inv)
  obtain ⟨decl, -⟩ := begin.inv.declare m.constants
  refine ensures_bind (ensures_bind (ensures_andThen ((Pred.checkOption_sound scope
    blankP decl.steps.inv).mono fun properties _ s₁ walkedP => ?_)))
  refine ensures_requireConcrete walkedP.steps.inv (ensures_andThen
    ((Substitution.checkAll_sound (fun σ hσ => ⟨σ.sound known concrete, blankV σ hσ⟩)
      walkedP.steps.inv).mono fun values _ s₂ walkedV => ?_))
  exact ensures_done ⟨properties, values, rfl,
    (walkedP.append walkedV).after (begin.trans decl.steps)⟩

/-- Through the invariant and assertions, after types have been taken over. -/
lemma checkVariables_sound (scope : Scope) (labels : ∀ i, s.decls.label? i = m.decls.label? i)
    (blankI : ∀ p ∈ m.invariant, (Node.pred p).Blank)
    (blankA : ∀ p ∈ m.assertions, (Node.pred p).Blank) (inv : s.Inv known) :
    Ensures m.checkVariables s (fun m' _ s' => ∃ invariant assertions s₁ s₂,
      m' = { m with invariant, assertions } ∧ s.Steps known s₁ ∧
      s₁.Retyped (m.takesOver · = true) s₂ ∧ Walked known scope s₂
        (invariant.toList.map .pred ++ assertions.map .pred) s') Proper := by
  have begin := steps_report (.enters .stateVariables) (.refl inv)
  obtain ⟨vars, -⟩ := begin.inv.declare m.vars
  obtain ⟨included, -⟩ := vars.steps.inv.declare m.included
  have steps := (begin.trans vars.steps).trans included.steps
  have taken := m.retyped_takeTypes fun i => (steps.labels i).trans (labels i)
  have inv := steps.inv.retyped taken
  refine ensures_bind (ensures_bind (ensures_bind (ensures_bind ?_)))
  refine ensures_requireConcrete inv (ensures_andThen ((Pred.checkOption_sound
    scope blankI inv).mono fun invariant _ s₁ walkedI => ?_))
  refine ensures_andThen ((Pred.checkAll_sound scope (fun p hp => ⟨p.sound known scope, blankA p hp⟩)
    walkedI.steps.inv).mono fun assertions _ s₂ all => ?_)
  exact ensures_requireConcrete all.walked.steps.inv (ensures_done
    ⟨invariant, assertions, _, _, rfl, steps, taken, walkedI.append all.walked⟩)

/-- Through the bodies of operations. -/
lemma checkOperations_sound (concrete : scope.Concrete) {os : List Operation}
    (blank : ∀ o ∈ os, (Node.substitution o.body).Blank) (inv : s.Inv known) :
    Ensures (checkOperations scope os) s (fun os' _ s' =>
      Walked known scope s (os'.map (.substitution ·.body)) s') Proper := by
  induction os generalizing s with
  | nil => exact ensures_done (.nil inv)
  | cons o os ih =>
    rw [List.forall_mem_cons] at blank
    obtain ⟨outputs, -⟩ := inv.declare o.outputs
    obtain ⟨params, -⟩ := outputs.steps.inv.declare o.params
    rw [checkOperations]
    refine ensures_bind (ensures_bind (ensures_andThen ((o.body.sound known concrete _
      params.steps.inv blank.1).mono fun body _ s₁ walked => ?_)))
    refine ensures_andThen ((ih blank.2 walked.steps.inv).mono fun os' _ s₂ rest => ?_)
    exact ensures_done ((walked.after (outputs.steps.trans params.steps)).cons rest)

/-- Through the initialisation and the operations. -/
lemma checkBehaviour_sound (concrete : scope.Concrete)
    (blankI : ∀ σ ∈ m.initialisation, (Node.substitution σ).Blank)
    (blankO : ∀ o ∈ m.operations, (Node.substitution o.body).Blank) (inv : s.Inv known) :
    Ensures (m.checkBehaviour scope) s (fun m' _ s' => ∃ initialisation operations,
      m' = { m with initialisation, operations } ∧ Walked known scope s
        (initialisation.toList.map .substitution ++ operations.map (.substitution ·.body)) s')
      Proper := by
  have begin := steps_report (.enters .behaviour) (.refl inv)
  refine ensures_bind (ensures_andThen ((Substitution.checkOption_sound
    (fun σ hσ => ⟨σ.sound known concrete, blankI σ hσ⟩) begin.inv).mono
    fun initialisation _ s₁ walkedI => ?_))
  refine ensures_andThen ((checkOperations_sound concrete blankO walkedI.steps.inv).mono
    fun operations _ s₂ walkedO => ?_)
  exact ensures_done ⟨initialisation, operations, rfl, (walkedI.append walkedO).after begin⟩

/-- The trees that are walked through before types are taken over: the properties and values. -/
def constantRoots (m : Machine) : List Node :=
  m.properties.toList.map .pred ++ m.values.map .substitution

/-- The trees that are walked through after that. -/
def variableRoots (m : Machine) : List Node :=
  m.invariant.toList.map .pred ++ m.assertions.map .pred ++
    (m.initialisation.toList.map .substitution ++ m.operations.map (.substitution ·.body))

lemma roots_eq (m : Machine) : m.roots = m.constantRoots ++ m.variableRoots := by
  simp only [roots, constantRoots, variableRoots, List.append_assoc]

/-- The phases leave all trees of the machine walked through, some before and some after types have
been taken over, and conclude. -/
theorem checkClauses_phases (blank : ∀ n ∈ m.roots, n.Blank) (inv : (start m.decls).Inv known)
    {Q : Machine → Unit → State → Prop}
    (conclude : ∀ (m' : Machine) (s₀ s₁ s₂ s' : State), Walked known m.scope s₀ m'.constantRoots s₁ →
      s₁.Retyped (m.takesOver · = true) s₂ → Walked known m.scope s₂ m'.variableRoots s' →
      Ensures m'.conclude s' Q Proper) : Ensures m.checkClauses (start m.decls) Q Proper := by
  simp only [roots, List.forall_mem_append, List.forall_mem_map] at blank
  obtain ⟨⟨⟨⟨⟨blankP, blankV⟩, blankI⟩, blankA⟩, blankInit⟩, blankO⟩ := blank
  have begin := steps_report (.begins m.name) (.refl inv)
  have seeded := m.retyped_seedSets (report (.begins m.name) (start m.decls)).2
  refine ensures_bind (ensures_bind (ensures_andThen ((checkConstants_sound m.concrete_scope
    (fun p hp => blankP p (by simpa using hp)) blankV (begin.inv.retyped seeded)).mono ?_)))
  rintro m₁ _ s₁ ⟨properties, values, rfl, walked₁⟩
  refine ensures_andThen ((checkVariables_sound m.scope (m := { m with properties, values })
    (fun i => (walked₁.steps.labels i).trans ((seeded.labels i).trans (begin.labels i)))
    (fun p hp => blankI p (by simpa using hp)) blankA walked₁.steps.inv).mono ?_)
  rintro m₂ _ s₄ ⟨invariant, assertions, s₂, s₃, rfl, steps, taken, walked₂⟩
  refine ensures_andThen ((checkBehaviour_sound m.concrete_scope
    (m := { m with properties, values, invariant, assertions })
    (fun σ hσ => blankInit σ (by simpa using hσ)) blankO walked₂.steps.inv).mono ?_)
  rintro m₃ _ s₅ ⟨initialisation, operations, rfl, walked₃⟩
  exact conclude _ _ _ _ _ (walked₁.trans steps) taken (walked₂.append walked₃)

/-- If no types are taken over, all trees are walked through together. -/
theorem checkClauses_sound (none : m.included = []) (blank : ∀ n ∈ m.roots, n.Blank)
    (inv : (start m.decls).Inv known) {Q : Machine → Unit → State → Prop}
    (conclude : ∀ (m' : Machine) (s₀ s' : State), Walked known m.scope s₀ m'.roots s' →
      Ensures m'.conclude s' Q Proper) : Ensures m.checkClauses (start m.decls) Q Proper := by
  refine checkClauses_phases blank inv fun m' s₀ s₁ s₂ s' walked taken walked' => ?_
  have steps := walked.steps.inv.steps_retyped taken fun id => by simp [takesOver, none]
  refine conclude m' s₀ s' ?_
  rw [roots_eq]
  exact (walked.trans steps).append walked'

end Machine

end BMethod
