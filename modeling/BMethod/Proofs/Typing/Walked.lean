import BMethod.Proofs.Typing.Signature
import BMethod.Proofs.Typing.State

/-!
# What a walk leaves

A walk through a tree fills its slots. In every world of the state after it the nodes obey their
rules, provided all their slots are filled (`Walked`); a part that the walk passes over, such as the
operands of a constant, keeps its empty slots. This file has the combinations of walks and the rules
of operators; the trees follow in the next.
-/

namespace BMethod

open State

/-- How a world reads the rules. -/
def World.view (w : World) (known : Nat → Bool) (scope : Scope) : View :=
  ⟨Operator.MayHaveType, w.context known, scope, Ty.eval w.value⟩

/-- A walk that does not end with a result ends with an error. -/
def Proper (e : Halt TypeError) : Prop := e ≠ .divergence

section

variable (known : Nat → Bool) (scope : Scope)

/-- What a walk has made of some trees. -/
structure Walked (s : State) (news : List Node) (s' : State) : Prop where
  steps : s.Steps known s'
  within : ∀ n ∈ news.flatMap Node.preorder, ∀ t, n.slot = some t → t.Scoped s'.vars
  obeys : ∀ w : World, w.Models s' → (∀ n ∈ news, n.Full) →
    ∀ n ∈ news.flatMap Node.preorder, n.Obeys (w.view known scope)

/-- What a walk has made of an expression, with its type. -/
structure Expr.Typed (s : State) (e : Expr) (expected : Ty) (e' : Expr) (t : Ty) (s' : State) :
    Prop where
  walked : Walked known scope s [.expr e'] s'
  slot : e'.note.ty = some t
  within : t.Scoped s'.vars
  value : ∀ w : World, w.Models s' → t.eval w.value = expected.eval w.value
  erased : e'.erase = e.erase

/-- What a walk has made of a predicate, with its type. -/
structure Pred.Typed (s : State) (p p' : Pred) (t : Ty) (s' : State) : Prop where
  walked : Walked known scope s [.pred p'] s'
  slot : p'.note.ty = some t
  within : t.Scoped s'.vars
  value : ∀ w : World, w.Models s' → t.eval w.value = .bool
  erased : p'.erase = p.erase

/-- What a walk has made of expressions, with types that have the values of theirs. -/
structure Expr.TypedAll (s : State) (es : List Expr) (ts : List Ty) (es' : List Expr)
    (s' : State) : Prop where
  walked : Walked known scope s (es'.map .expr) s'
  within : ∀ t ∈ ts, t.Scoped s'.vars
  gives : ∀ w : World, w.Models s' →
    (w.view known scope).Gives (es'.map .expr) (ts.map (Ty.eval w.value))
  erased : es'.map Expr.erase = es.map Expr.erase

end

variable {known : Nat → Bool} {scope : Scope} {s s' s'' : State}

namespace Walked

lemma nil (inv : s.Inv known) : Walked known scope s [] s := ⟨.refl inv, nofun, fun _ _ _ => nofun⟩

/-- What comes after a walk keeps what it has made. -/
lemma trans {ns : List Node} (h : Walked known scope s ns s') (h' : s'.Steps known s'') :
    Walked known scope s ns s'' where
  steps := h.steps.trans h'
  within n hn t ht := (h.within n hn t ht).mono h'.vars_le
  obeys w hw := h.obeys w (h'.models w hw)

lemma after {ns : List Node} (h' : Walked known scope s' ns s'') (h : s.Steps known s') :
    Walked known scope s ns s'' :=
  ⟨h.trans h'.steps, h'.within, h'.obeys⟩

/-- Two walks one after the other. -/
lemma append {ms ns : List Node} (h : Walked known scope s ms s')
    (h' : Walked known scope s' ns s'') : Walked known scope s (ms ++ ns) s'' where
  steps := h.steps.trans h'.steps
  within n hn t ht := by
    rw [List.flatMap_append, List.mem_append] at hn
    obtain hn | hn := hn
    · exact (h.trans h'.steps).within n hn t ht
    · exact h'.within n hn t ht
  obeys w hw full n hn := by
    rw [List.flatMap_append, List.mem_append] at hn
    obtain hn | hn := hn
    · exact (h.trans h'.steps).obeys w hw (fun m hm => full m (by simp [hm])) n hn
    · exact h'.obeys w hw (fun m hm => full m (by simp [hm])) n hn

lemma cons {m : Node} {ns : List Node} (h : Walked known scope s [m] s')
    (h' : Walked known scope s' ns s'') : Walked known scope s (m :: ns) s'' := h.append h'

/-- The same trees in another order. -/
lemma perm {ms ns : List Node} (h : Walked known scope s ms s') (p : ms.Perm ns) :
    Walked known scope s ns s' where
  steps := h.steps
  within n hn := h.within n ((p.flatMap_right _).mem_iff.2 hn)
  obeys w hw full n hn :=
    h.obeys w hw (fun m hm => full m (p.mem_iff.1 hm)) n ((p.flatMap_right _).mem_iff.2 hn)

/-- A node whose parts have been walked through. -/
lemma node {n : Node} (h : Walked known scope s n.children s')
    (slot : ∀ t, n.slot = some t → t.Scoped s'.vars)
    (obeys : ∀ w : World, w.Models s' → (∀ c ∈ n.children, c.Full) →
      n.Obeys (w.view known scope)) : Walked known scope s [n] s' where
  steps := h.steps
  within m hm := by
    rw [List.flatMap_singleton, Node.preorder_eq] at hm
    obtain rfl | hm := List.mem_cons.1 hm
    · exact slot
    · exact h.within m hm
  obeys w hw full m hm := by
    have parts := (Node.full_iff.1 (full n (by simp))).2
    rw [List.flatMap_singleton, Node.preorder_eq] at hm
    obtain rfl | hm := List.mem_cons.1 hm
    · exact obeys w hw parts
    · exact h.obeys w hw parts m hm

/-- Trees with empty slots that no walk has gone through. -/
lemma blank (inv : s.Inv known) {ns : List Node} (blank : ∀ n ∈ ns, n.Blank)
    (slotted : ∀ n ∈ ns, n.hasSlot = true) : Walked known scope s ns s where
  steps := .refl inv
  within n hn t ht := by
    obtain ⟨m, hm, hn⟩ := List.mem_flatMap.1 hn
    rw [blank m hm n hn] at ht
    cases ht
  obeys w _ full n hn := by
    obtain ⟨m, hm, -⟩ := List.mem_flatMap.1 hn
    obtain ⟨t, ht⟩ := (Node.full_iff.1 (full m hm)).1 (slotted m hm)
    rw [(blank m hm).slot] at ht
    cases ht

end Walked

/-! ## One expression or predicate. -/

lemma View.gives_cons {V : View} {n : Node} {ns : List Node} {t : Ty} {ts : List Ty} :
    V.Gives (n :: ns) (t :: ts) ↔ V.value? n = some t ∧ V.Gives ns ts := by
  simp [Gives]

namespace Expr

variable {e e' : Expr} {expected t : Ty}

/-- An expression whose parts have been walked through, and whose rule holds in every world. -/
lemma Typed.intro (walked : Walked known scope s e'.children s') (slot : e'.note.ty = some t)
    (within : t.Scoped s'.vars)
    (value : ∀ w : World, w.Models s' → t.eval w.value = expected.eval w.value)
    (rule : ∀ w : World, w.Models s' → (∀ c ∈ e'.children, c.Full) →
      ∃ ts, (w.view known scope).Gives e'.children ts ∧
        e'.HasType Operator.MayHaveType (w.context known) ts (t.eval w.value))
    (erased : e'.erase = e.erase) : e.Typed known scope s expected e' t s' := by
  refine ⟨walked.node (n := .expr e') (fun u hu => ?_) (fun w hw full => ?_), slot, within, value,
    erased⟩
  · have hu : e'.note.ty = some u := hu
    rw [slot] at hu
    cases hu
    exact within
  · obtain ⟨ts, gives, type⟩ := rule w hw full
    refine ⟨ts, t.eval w.value, gives, ?_, type⟩
    simp [View.value?, Node.slot, slot, World.view]

/-- In every world of a later state the slot has the value that was expected. -/
lemma Typed.value? (h : e.Typed known scope s expected e' t s') {w : World} (hw : w.Models s') :
    (w.view known scope).value? (.expr e') = some (expected.eval w.value) := by
  rw [← h.value w hw]
  simp [View.value?, Node.slot, h.slot, World.view]

lemma Typed.after (h' : e.Typed known scope s' expected e' t s'') (h : s.Steps known s') :
    e.Typed known scope s expected e' t s'' :=
  ⟨h'.walked.after h, h'.slot, h'.within, h'.value, h'.erased⟩

@[simp] lemma note_withTy (e : Expr) (t : Ty) : (e.withTy t).note = e.note.withTy t := by
  cases e <;> rfl

@[simp] lemma children_withTy (e : Expr) (t : Ty) : (e.withTy t).children = e.children := by
  cases e <;> rfl

@[simp] lemma erase_withTy (e : Expr) (t : Ty) : (e.withTy t).erase = e.erase := by
  cases e <;> simp [withTy, withNote, note, erase, Note.withTy]

lemma hasType_withTy (R : OperatorRule) (Γ : Context) (e : Expr) (t : Ty) :
    (e.withTy t).HasType R Γ = e.HasType R Γ := by
  cases e <;> rfl

/-- Settling a node whose parts have been walked through, with the type that its rule says. -/
lemma ensures_settle {node : Expr} {found : Ty} (walked : Walked known scope s node.children s')
    (he : expected.Scoped s'.vars) (hf : found.Scoped s'.vars)
    (rule : ∀ w : World, w.Models s' → expected.eval w.value = found.eval w.value →
      (∀ c ∈ node.children, c.Full) → ∃ ts, (w.view known scope).Gives node.children ts ∧
        node.HasType Operator.MayHaveType (w.context known) ts (found.eval w.value))
    (erased : node.erase = e.erase) :
    Ensures (node.settle expected found) s' (e.Typed known scope s expected) Proper := by
  refine ensures_orFail (walked.steps.inv.unifyAt he hf (fun t s₁ uni => ?_) fun _ _ => nofun)
  refine ensures_done (.intro ?_ (by simp [Note.withTy]) uni.scope (fun w hw => (uni.sound w hw).2)
    (fun w hw full => ?_) (by simpa using erased))
  · rw [children_withTy]
    exact walked.trans uni.steps
  · rw [children_withTy] at full ⊢
    obtain ⟨ts, gives, type⟩ := rule w (uni.steps.models w hw) (uni.sound w hw).1 full
    refine ⟨ts, gives, ?_⟩
    rwa [hasType_withTy, (uni.sound w hw).2, (uni.sound w hw).1]

end Expr

namespace Pred

variable {p p' : Pred} {t : Ty}

lemma Typed.intro (walked : Walked known scope s p'.children s') (slot : p'.note.ty = some t)
    (within : t.Scoped s'.vars) (value : ∀ w : World, w.Models s' → t.eval w.value = .bool)
    (rule : ∀ w : World, w.Models s' → (∀ c ∈ p'.children, c.Full) →
      ∃ ts, (w.view known scope).Gives p'.children ts ∧ p'.HasType (w.context known) ts .bool)
    (erased : p'.erase = p.erase) : p.Typed known scope s p' t s' := by
  refine ⟨walked.node (n := .pred p') (fun u hu => ?_) (fun w hw full => ?_), slot, within, value,
    erased⟩
  · have hu : p'.note.ty = some u := hu
    rw [slot] at hu
    cases hu
    exact within
  · obtain ⟨ts, gives, type⟩ := rule w hw full
    refine ⟨ts, .bool, gives, ?_, type⟩
    rw [← value w hw]
    simp [View.value?, Node.slot, slot, World.view]

lemma Typed.value? (h : p.Typed known scope s p' t s') {w : World} (hw : w.Models s') :
    (w.view known scope).value? (.pred p') = some .bool := by
  rw [← h.value w hw]
  simp [View.value?, Node.slot, h.slot, World.view]

lemma Typed.after (h' : p.Typed known scope s' p' t s'') (h : s.Steps known s') :
    p.Typed known scope s p' t s'' :=
  ⟨h'.walked.after h, h'.slot, h'.within, h'.value, h'.erased⟩

@[simp] lemma note_withTy (p : Pred) (t : Ty) : (p.withTy t).note = p.note.withTy t := by
  cases p <;> rfl

@[simp] lemma children_withTy (p : Pred) (t : Ty) : (p.withTy t).children = p.children := by
  cases p <;> rfl

@[simp] lemma erase_withTy (p : Pred) (t : Ty) : (p.withTy t).erase = p.erase := by
  cases p <;> simp [withTy, withNote, note, erase, Note.withTy]

lemma hasType_withTy (Γ : Context) (p : Pred) (t : Ty) :
    (p.withTy t).HasType Γ = p.HasType Γ := by
  cases p <;> rfl

/-- Settling a node whose parts have been walked through. -/
lemma ensures_settle {node : Pred} {found : Ty} (walked : Walked known scope s node.children s')
    (hf : found.Scoped s'.vars)
    (rule : ∀ w : World, w.Models s' → found.eval w.value = .bool → (∀ c ∈ node.children, c.Full) →
      ∃ ts, (w.view known scope).Gives node.children ts ∧ node.HasType (w.context known) ts .bool)
    (erased : node.erase = p.erase) :
    Ensures (node.settle .bool found) s' (p.Typed known scope s) Proper := by
  refine ensures_orFail (walked.steps.inv.unifyAt (l := .bool) trivial hf (fun t s₁ uni => ?_) fun _ _ => nofun)
  refine ensures_done (.intro ?_ (by simp [Note.withTy]) uni.scope (fun w hw => (uni.sound w hw).2)
    (fun w hw full => ?_) (by simpa using erased))
  · rw [children_withTy]
    exact walked.trans uni.steps
  · rw [children_withTy] at full ⊢
    rw [hasType_withTy]
    exact rule w (uni.steps.models w hw) (uni.sound w hw).1.symm full

end Pred

/-! ## Several expressions. -/

namespace Expr

variable {e e' : Expr} {es es' : List Expr} {t u : Ty} {ts : List Ty}

lemma TypedAll.nil (inv : s.Inv known) : TypedAll known scope s [] [] [] s :=
  ⟨.nil inv, nofun, fun _ _ => rfl, rfl⟩

/-- The first expression and then the others. -/
lemma TypedAll.cons (h : e.Typed known scope s t e' u s')
    (h' : TypedAll known scope s' es ts es' s'') (ht : t.Scoped s''.vars) :
    TypedAll known scope s (e :: es) (t :: ts) (e' :: es') s'' where
  walked := h.walked.cons h'.walked
  within := List.forall_mem_cons.2 ⟨ht, h'.within⟩
  gives w hw := View.gives_cons.2 ⟨h.value? (h'.walked.steps.models w hw), h'.gives w hw⟩
  erased := by rw [List.map_cons, List.map_cons, h.erased, h'.erased]

/-- The others and then the first expression. -/
lemma TypedAll.consLast (h' : TypedAll known scope s es ts es' s')
    (h : e.Typed known scope s' t e' u s'') (ht : t.Scoped s''.vars) :
    TypedAll known scope s (e :: es) (t :: ts) (e' :: es') s'' where
  walked := (h'.walked.append h.walked).perm (List.perm_append_singleton _ _)
  within := by
    rw [List.forall_mem_cons]
    exact ⟨ht, fun u hu => (h'.within u hu).mono h.walked.steps.vars_le⟩
  gives w hw := View.gives_cons.2 ⟨h.value? hw, h'.gives w (h.walked.steps.models w hw)⟩
  erased := by rw [List.map_cons, List.map_cons, h.erased, h'.erased]

lemma TypedAll.after (h' : TypedAll known scope s' es ts es' s'') (h : s.Steps known s') :
    TypedAll known scope s es ts es' s'' :=
  ⟨h'.walked.after h, h'.within, h'.gives, h'.erased⟩

lemma TypedAll.trans (h : TypedAll known scope s es ts es' s') (h' : s'.Steps known s'') :
    TypedAll known scope s es ts es' s'' :=
  ⟨h.walked.trans h', fun t ht => (h.within t ht).mono h'.vars_le,
    fun w hw => h.gives w (h'.models w hw), h.erased⟩

/-- The types may be replaced by others with the same values. -/
lemma TypedAll.congr {us : List Ty} (h : TypedAll known scope s es ts es' s')
    (within : ∀ u ∈ us, u.Scoped s'.vars)
    (values : ∀ w : World, w.Models s' → us.map (Ty.eval w.value) = ts.map (Ty.eval w.value)) :
    TypedAll known scope s es us es' s' :=
  ⟨h.walked, within, fun w hw => values w hw ▸ h.gives w hw, h.erased⟩

/-- Walking through an expression with empty slots makes it typed, or fails with an error. -/
def Sound (known : Nat → Bool) (scope : Scope) (e : Expr) : Prop :=
  ∀ (s : State) (expected : Ty), s.Inv known → expected.Scoped s.vars → (Node.expr e).Blank →
    Ensures (e.check expected) s (e.Typed known scope s expected) Proper

/-- The expressions are sound and their slots are empty. -/
def SoundAll (known : Nat → Bool) (scope : Scope) (es : List Expr) : Prop :=
  ∀ e ∈ es, e.Sound known scope ∧ (Node.expr e).Blank

lemma checkForward_sound (sound : SoundAll known scope es) (inv : s.Inv known)
    (within : ∀ t ∈ ts, t.Scoped s.vars) (length : ts.length = es.length) :
    Ensures (checkForward es ts) s (fun es' _ => TypedAll known scope s es ts es') Proper := by
  induction es generalizing s ts with
  | nil =>
    rw [List.length_eq_zero_iff.1 length]
    exact ensures_done (.nil inv)
  | cons e es ih =>
    obtain _ | ⟨t, ts⟩ := ts
    · cases length
    · rw [SoundAll, List.forall_mem_cons] at sound
      rw [List.forall_mem_cons] at within
      rw [checkForward]
      refine ensures_andThen ((sound.1.1 s t inv within.1 sound.1.2).mono fun e' u s₁ typed => ?_)
      have le := typed.walked.steps.vars_le
      refine ensures_andThen ((ih sound.2 typed.walked.steps.inv
        (fun u hu => (within.2 u hu).mono le) (by simpa using length)).mono fun es' _ s₂ all => ?_)
      exact ensures_done (.cons typed all (within.1.mono (le.trans all.walked.steps.vars_le)))

lemma checkBackward_sound (sound : SoundAll known scope es) (inv : s.Inv known)
    (within : ∀ t ∈ ts, t.Scoped s.vars) (length : ts.length = es.length) :
    Ensures (checkBackward es ts) s (fun es' _ => TypedAll known scope s es ts es') Proper := by
  induction es generalizing s ts with
  | nil =>
    rw [List.length_eq_zero_iff.1 length]
    exact ensures_done (.nil inv)
  | cons e es ih =>
    obtain _ | ⟨t, ts⟩ := ts
    · cases length
    · rw [SoundAll, List.forall_mem_cons] at sound
      rw [List.forall_mem_cons] at within
      rw [checkBackward]
      refine ensures_andThen ((ih sound.2 inv within.2 (by simpa using length)).mono
        fun es' _ s₁ all => ?_)
      have ht := within.1.mono all.walked.steps.vars_le
      refine ensures_andThen ((sound.1.1 s₁ t all.walked.steps.inv ht sound.1.2).mono
        fun e' u s₂ typed => ?_)
      exact ensures_done (.consLast all typed (ht.mono typed.walked.steps.vars_le))

/-- In a chain every expression has the type that the first is checked against. -/
lemma checkChain_sound (sound : SoundAll known scope es) (inv : s.Inv known)
    (ht : t.Scoped s.vars) :
    Ensures (checkChain es t) s (fun es' u s' =>
      TypedAll known scope s es (List.replicate es.length t) es' s' ∧ u.Scoped s'.vars ∧
        ∀ w : World, w.Models s' → u.eval w.value = t.eval w.value) Proper := by
  induction es generalizing s t with
  | nil => exact ensures_done ⟨.nil inv, ht, fun _ _ => rfl⟩
  | cons e es ih =>
    rw [SoundAll, List.forall_mem_cons] at sound
    rw [checkChain]
    refine ensures_andThen ((sound.1.1 s t inv ht sound.1.2).mono fun e' u s₁ typed => ?_)
    refine ensures_andThen ((ih sound.2 typed.walked.steps.inv typed.within).mono
      fun es' v s₂ h => ?_)
    obtain ⟨all, hv, value⟩ := h
    have le := all.walked.steps.vars_le
    have ht' := ht.mono (typed.walked.steps.vars_le.trans le)
    have same (w : World) (hw : w.Models s₂) : u.eval w.value = t.eval w.value :=
      typed.value w (all.walked.steps.models w hw)
    refine ensures_done ⟨.cons typed (all.congr (fun x hx => ?_) fun w hw => ?_) ht', hv,
      fun w hw => (value w hw).trans (same w hw)⟩
    · rw [List.eq_of_mem_replicate hx]
      exact ht'
    · rw [List.map_replicate, List.map_replicate, same w hw]

/-- Apart, every expression has the type that is given for it. -/
lemma checkApart_sound (sound : SoundAll known scope es) (inv : s.Inv known) :
    Ensures (checkApart es) s (fun es' ts s' => TypedAll known scope s es ts es' s' ∧
      ts.length = es.length) Proper := by
  induction es generalizing s with
  | nil => exact ensures_done ⟨.nil inv, rfl⟩
  | cons e es ih =>
    rw [SoundAll, List.forall_mem_cons] at sound
    rw [checkApart]
    refine ensures_bind (ensures_andThen ?_)
    rw [run_fresh]
    refine (sound.1.1 _ _ inv.fresh.inv (by simp [Ty.Scoped]) sound.1.2).mono
      fun e' u s₁ typed => ?_
    refine ensures_andThen ((ih sound.2 typed.walked.steps.inv).mono
      fun es' ts s₂ h => ?_)
    obtain ⟨all, length⟩ := h
    have le := all.walked.steps.vars_le
    have typed' : e.Typed known scope s u e' u s₁ :=
      ⟨typed.walked.after inv.fresh, typed.slot, typed.within, fun _ _ => rfl, typed.erased⟩
    exact ensures_done ⟨.cons typed' all (typed.within.mono le), by simp [length]⟩

/-- A function and its arguments. -/
lemma checkCall_sound {site : Site} (sound : SoundAll known scope es) (inv : s.Inv known)
    (ht : t.Scoped s.vars) (length : 2 ≤ es.length) :
    Ensures (checkCall site es t) s (fun es' _ s' => ∃ us u,
      TypedAll known scope s es (.relation u t :: us) es' s' ∧ Ty.tuple? us = some u) Proper := by
  obtain _ | ⟨f, args⟩ := es
  · simp at length
  · rw [SoundAll, List.forall_mem_cons] at sound
    rw [checkCall]
    refine ensures_andThen ((checkApart_sound sound.2 inv).mono fun args' us s₁ h => ?_)
    obtain ⟨all, len⟩ := h
    have ht₁ := ht.mono all.walked.steps.vars_le
    cases hu : Ty.tuple? us with
    | none => exact ensures_fail nofun
    | some u =>
      have within : (Ty.relation u t).Scoped s₁.vars :=
        Ty.scoped_relation.2 ⟨Ty.scoped_of_tuple? hu all.within, ht₁⟩
      refine ensures_andThen ((sound.1.1 s₁ _ all.walked.steps.inv within sound.1.2).mono
        fun f' v s₂ typed => ?_)
      exact ensures_done ⟨us, u, .consLast all typed (within.mono typed.walked.steps.vars_le), hu⟩

end Expr

end BMethod
