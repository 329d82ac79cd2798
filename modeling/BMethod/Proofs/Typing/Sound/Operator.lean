import BMethod.Proofs.Typing.Walked

/-!
# Operators are checked soundly

Walking through an operator and its operands either fails with an error or leaves operands with the
types that the rule of the operator says, in every world of the state (`Expr.check_apply_sound`).
The walks through the operands are parameters, as they are of the check; what is needed of them is
`Expr.WalksSound`.
-/

namespace BMethod

open State

variable {known : Nat → Bool} {scope : Scope} {s s' s'' : State}

/-! ## Shapes. -/

namespace Shape

/-- A homomorphism passes through a shape to its parameters. -/
lemma hom_instantiate {f : Ty → Ty} (hom : Ty.Hom f) (ps : List Ty) (t : Ty) (shape : Shape) :
    f (shape.instantiate ps t) = shape.instantiate (ps.map f) (f t) := by
  induction shape with
  | param i => simp [instantiate, List.getD_eq_getElem?_getD, Option.getD_map]
  | whole => rfl
  | integer => exact hom.integer
  | bool => exact hom.bool
  | string => exact hom.string
  | set elem ih => rw [instantiate, hom.set, ih, instantiate]
  | couple l r ihl ihr => rw [instantiate, hom.couple, ihl, ihr, instantiate]

lemma scoped_instantiate {k : Nat} {ps : List Ty} {t : Ty} (hp : ∀ p ∈ ps, p.Scoped k)
    (ht : t.Scoped k) (shape : Shape) : (shape.instantiate ps t).Scoped k := by
  induction shape with
  | param i =>
    rw [instantiate, List.getD_eq_getElem?_getD]
    cases h : ps[i]? with
    | none => exact ht
    | some p => exact hp p (List.mem_of_getElem? h)
  | whole => exact ht
  | integer | bool | string => trivial
  | set elem ih => exact ih
  | couple l r ihl ihr => exact ⟨ihl, ihr⟩

end Shape

/-! ## Operators. -/

namespace Expr

variable {n : Note} {op : Operator} {args args' : List Expr} {expected t : Ty} {ts : List Ty}

/-- An operator whose operands have been walked through, and whose rule holds in every world. -/
lemma typed_apply (all : TypedAll known scope s args ts args' s')
    (slot : n.ty = some t) (within : t.Scoped s'.vars)
    (value : ∀ w : World, w.Models s' → t.eval w.value = expected.eval w.value)
    (rule : ∀ w : World, w.Models s' → op.rule.Types (ts.map (Ty.eval w.value)) (t.eval w.value))
    {m : Note} (span : m.span = n.span) :
    (apply m op args).Typed known scope s expected (apply n op args') t s' := by
  refine .intro all.walked slot within value (fun w hw _ => ?_) ?_
  · exact ⟨_, all.gives w hw, (op.mayHaveType_iff _ _).2 (rule w hw)⟩
  · have : args'.map (restamp .blank) = args.map (restamp .blank) := all.erased
    simp [erase, span, this]

/-- Settling an operator whose operands have been walked through. -/
lemma settle_apply_sound {found : Ty} (all : TypedAll known scope s args ts args' s')
    (he : expected.Scoped s'.vars) (hf : found.Scoped s'.vars)
    (rule : ∀ w : World, w.Models s' → expected.eval w.value = found.eval w.value →
      op.rule.Types (ts.map (Ty.eval w.value)) (found.eval w.value)) :
    Ensures ((apply n op args').settle expected found) s'
      ((apply n op args).Typed known scope s expected) Proper := by
  refine ensures_settle all.walked he hf (fun w hw value _ => ?_) ?_
  · exact ⟨_, all.gives w hw, (op.mayHaveType_iff _ _).2 (rule w hw value)⟩
  · have : args'.map (restamp .blank) = args.map (restamp .blank) := all.erased
    simp [erase, this]

/-- How the walks through the operands of an operator have to end. -/
structure WalksSound (known : Nat → Bool) (scope : Scope) (args : List Expr)
    (walks : OperandWalks) : Prop where
  forward : ∀ (s : State) (ts : List Ty), s.Inv known → (∀ t ∈ ts, t.Scoped s.vars) →
    ts.length = args.length →
    Ensures (walks.forward ts) s (fun args' _ => TypedAll known scope s args ts args') Proper
  backward : ∀ (s : State) (ts : List Ty), s.Inv known → (∀ t ∈ ts, t.Scoped s.vars) →
    ts.length = args.length →
    Ensures (walks.backward ts) s (fun args' _ => TypedAll known scope s args ts args') Proper
  chain : ∀ (s : State) (t : Ty), s.Inv known → t.Scoped s.vars →
    Ensures (walks.chain t) s (fun args' u s' =>
      TypedAll known scope s args (List.replicate args.length t) args' s' ∧ u.Scoped s'.vars ∧
        ∀ w : World, w.Models s' → u.eval w.value = t.eval w.value) Proper
  apart : ∀ s : State, s.Inv known →
    Ensures walks.apart s (fun args' ts s' => TypedAll known scope s args ts args' s' ∧
      ts.length = args.length) Proper
  call : ∀ (s : State) (t : Ty), s.Inv known → t.Scoped s.vars → 2 ≤ args.length →
    Ensures (walks.call t) s (fun args' _ s' => ∃ us u,
      TypedAll known scope s args (.relation u t :: us) args' s' ∧ Ty.tuple? us = some u) Proper

variable {walks : OperandWalks}

/-- Settling the result first and then walking through the operands. -/
lemma resultFirst_sound {result : Ty} {count : Nat} {types : Ty → List Ty}
    {walk : List Ty → CheckM (Visited (List Expr) Unit)} (inv : s.Inv known)
    (he : expected.Scoped s.vars) (hr : result.Scoped s.vars)
    (sound : ∀ (s : State) (ts : List Ty), s.Inv known → (∀ t ∈ ts, t.Scoped s.vars) →
      ts.length = args.length →
      Ensures (walk ts) s (fun args' _ => TypedAll known scope s args ts args') Proper)
    (length : ∀ t, (types t).length = count)
    (within : ∀ k t, s.vars ≤ k → t.Scoped k → ∀ u ∈ types t, u.Scoped k)
    (rule : ∀ (w : World) (t : Ty), w.Models s → t.eval w.value = expected.eval w.value →
      t.eval w.value = result.eval w.value →
      op.rule.Types ((types t).map (Ty.eval w.value)) (t.eval w.value)) :
    Ensures (resultFirst n op args expected result count fun t => walk (types t)) s
      ((apply n op args).Typed known scope s expected) Proper := by
  refine ensures_orFail (inv.unifyAt he hr (fun t s₁ uni => ?_) fun _ _ => nofun)
  rw [withOperands]
  split
  · rename_i len
    refine ensures_andThen ((sound s₁ (types t) uni.steps.inv
      (within _ t uni.steps.vars_le uni.scope) ((length t).trans len.symm)).mono
      fun args' _ s₂ all => ?_)
    have steps := all.walked.steps
    have same (w : World) (hw : w.Models s₂) := uni.sound w (steps.models w hw)
    refine ensures_done (typed_apply (all.after uni.steps) rfl (uni.scope.mono steps.vars_le)
      (fun w hw => (same w hw).2) (fun w hw => ?_) rfl)
    exact rule w t (uni.steps.models w (steps.models w hw)) (same w hw).2
      ((same w hw).2.trans (same w hw).1)
  · exact ensures_fail nofun

end Expr

/-- A signature is applied to new variables; the values of these are its parameters. -/
lemma Signature.check_sound {n : Note} {op : Operator} {args : List Expr} {expected : Ty}
    {walks : OperandWalks} {sig : Signature} (rule : op.rule = .fixed sig)
    (sound : Expr.WalksSound known scope args walks) (inv : s.Inv known)
    (he : expected.Scoped s.vars) :
    Ensures (sig.check n op args expected walks) s
      ((Expr.apply n op args).Typed known scope s expected) Proper := by
  obtain ⟨steps, length, scoped', -⟩ := inv.freshList sig.params
  refine ensures_bind ?_
  generalize freshList sig.params s = fresh at steps length scoped'
  obtain ⟨ps, s₁⟩ := fresh
  have he₁ := he.mono steps.vars_le
  have hr : (sig.result.instantiate ps expected).Scoped s₁.vars :=
    Shape.scoped_instantiate scoped' he₁ _
  have within (k : Nat) (t : Ty) (le : s₁.vars ≤ k) (ht : t.Scoped k) :
      ∀ u ∈ sig.operands.map (Shape.instantiate ps t), u.Scoped k := by
    intro u hu
    obtain ⟨shape, -, rfl⟩ := List.mem_map.1 hu
    exact Shape.scoped_instantiate (fun p hp => (scoped' p hp).mono le) ht _
  have types (w : World) (t : Ty) (value : t.eval w.value = expected.eval w.value)
      (result : t.eval w.value = (sig.result.instantiate ps expected).eval w.value) :
      op.rule.Types ((sig.operands.map (Shape.instantiate ps t)).map (Ty.eval w.value))
        (t.eval w.value) := by
    have hom := Ty.hom_eval w.value
    rw [rule]
    refine ⟨ps.map (Ty.eval w.value), by simpa using length, ?_, ?_⟩
    · rw [Shape.hom_instantiate hom, ← value] at result
      exact result.symm
    · rw [List.map_map]
      exact List.map_congr_left fun shape _ => Shape.hom_instantiate hom ps t shape
  have after {e' : Expr} {t : Ty} {s'' : State}
      (h : (Expr.apply n op args).Typed known scope s₁ expected e' t s'') := h.after steps
  simp only
  cases sig.order with
  | forward =>
    refine (Expr.resultFirst_sound steps.inv he₁ hr sound.forward (by simp) within
      fun w t _ => types w t).mono fun _ _ _ => after
  | backward =>
    refine (Expr.resultFirst_sound steps.inv he₁ hr sound.backward (by simp) within
      fun w t _ => types w t).mono fun _ _ _ => after
  | inward =>
    simp only [Expr.withOperands]
    split
    · rename_i len
      refine ensures_andThen ((sound.forward s₁ _ steps.inv
        (within _ expected le_rfl he₁) (by simp [len])).mono fun args' _ s₂ all => ?_)
      have le := all.walked.steps.vars_le
      refine (Expr.settle_apply_sound all (he₁.mono le) (hr.mono le) fun w _ value => ?_).mono
        fun _ _ _ => after
      rw [← value]
      exact types w expected rfl value
    · exact ensures_fail nofun

namespace Expr

variable {n : Note} {op : Operator} {args : List Expr} {expected : Ty} {walks : OperandWalks}

/-- The operands of a difference have the type of the whole, which is the integers or a set. -/
lemma checkDifference_sound (rule : op.rule = .difference)
    (sound : WalksSound known scope args walks) (inv : s.Inv known)
    (he : expected.Scoped s.vars) :
    Ensures (Rule.checkDifference n op args expected walks) s
      ((apply n op args).Typed known scope s expected) Proper := by
  refine ensures_bind (ensures_bind ?_)
  rw [run_fresh, run_allocate]
  have steps := inv.fresh.trans (inv.fresh.inv.grow (c := .setOrInteger (.var s.vars))
    (by simp [Cell.contents, Ty.Scoped]))
  refine (resultFirst_sound steps.inv (he.mono steps.vars_le)
    (by simp [Ty.Scoped]) sound.forward (by simp) (by simp) fun w t hw _ value => ?_).mono
    fun _ _ _ h => h.after steps
  have choice := (models_grow.1 hw).2
  rw [rule]
  refine ⟨rfl, ?_⟩
  rw [value]
  exact choice.imp id fun h => ⟨_, h⟩

/-- The link of a product is sane, since the three types that it ties await the right choices. -/
lemma sane_product {σ : Nat → Ty} {a b : Nat} {t : Ty} {left right : Nat}
    (result : t.eval σ = .integer ∨ t.eval σ = .relation (σ a) (σ b))
    (hl : (Cell.setOrInteger (.var a)).Holds σ left)
    (hr : (Cell.setOrInteger (.var b)).Holds σ right) :
    (ProductLink.mk t (.var left) (.var right) (.var a) (.var b)).Sane σ := by
  simp only [ProductLink.Sane, ProductLink.equations, ProductLink.types, List.forall_mem_cons,
    Ty.eval_relation, Ty.eval]
  exact ⟨result, hl, hr, by simp⟩

/-- The state with what a product needs before its type is unified: its two element types, and a
variable that awaits the choice. -/
def productStart (s : State) : State :=
  ((s.grow .free).grow .free).grow (.integerOrPairs (.var s.vars) (.var (s.vars + 1)))

/-- The state with the types of the operands of a product, given its element types. -/
def productOperands (s : State) (leftElem rightElem : Nat) : State :=
  (s.grow (.setOrInteger (.var leftElem))).grow (.setOrInteger (.var rightElem))

/-- The link of a product is scoped and sane once its type has been unified. -/
lemma link_of_unified {s s' : State} {expected t : Ty}
    (uni : (productStart s).Unified known expected (.var (s.vars + 2)) t s') :
    (ProductLink.mk t (.var s'.vars) (.var (s'.vars + 1)) (.var s.vars) (.var (s.vars + 1))).Scoped
        (productOperands s' s.vars (s.vars + 1)).vars ∧
      ∀ σ, (productOperands s' s.vars (s.vars + 1)).unifier.store.Holds σ →
        (ProductLink.mk t (.var s'.vars) (.var (s'.vars + 1)) (.var s.vars)
          (.var (s.vars + 1))).Sane σ := by
  have before : (productStart s).vars = s.vars + 3 := by simp [productStart]
  have vars : s'.vars = s.vars + 3 := by rw [uni.vars_eq, before]
  have after : (productOperands s' s.vars (s.vars + 1)).vars = s'.vars + 2 := by
    simp [productOperands]
  constructor
  · rw [after]
    simp only [ProductLink.Scoped, ProductLink.parts, List.forall_mem_cons]
    refine ⟨uni.scope.mono (by omega), ?_, ?_, ?_, ?_, by simp⟩ <;> simp [Ty.Scoped] <;> omega
  · intro σ hσ
    obtain ⟨hσ, hr⟩ := Store.holds_allocate.1 hσ
    obtain ⟨hσ, hl⟩ := Store.holds_allocate.1 hσ
    obtain ⟨hσ, eq, value⟩ := uni.store σ hσ
    have choice := (Store.holds_allocate.1 hσ).2
    have size : ((s.grow .free).grow .free).unifier.store.cells.size = s.vars + 2 := by
      show ((s.grow .free).grow .free).vars = _
      simp
    rw [size] at choice
    refine sane_product ?_ hl ?_
    · rw [value, eq]
      exact choice
    · exact s'.vars_grow (.setOrInteger (.var s.vars)) ▸ hr

/-- What a link says about a product is what the rule says. -/
lemma types_of_holds {link : ProductLink} {σ : Nat → Ty} (h : link.Holds σ) :
    Rule.product.Types [link.left.eval σ, link.right.eval σ] (link.result.eval σ) := by
  obtain ⟨r, h⟩ := h
  simp only [ProductLink.equations, List.forall_mem_cons] at h
  obtain ⟨result, left, right, -⟩ := h
  rw [result, left, right]
  cases r with
  | integers => exact .inl ⟨rfl, rfl⟩
  | sets =>
    refine .inr ⟨link.leftElem.eval σ, link.rightElem.eval σ, ?_⟩
    simp [ProductLink.types, Ty.eval]

/-- A product and its operands are tied by a link, which one reading makes true. -/
lemma checkProduct_sound (rule : op.rule = .product)
    (sound : WalksSound known scope args walks) (inv : s.Inv known)
    (he : expected.Scoped s.vars) :
    Ensures (Rule.checkProduct n op args expected walks) s
      ((apply n op args).Typed known scope s expected) Proper := by
  have steps₁ := inv.fresh.trans inv.fresh.inv.fresh
  have steps₂ : s.Steps known (productStart s) := steps₁.trans (steps₁.inv.grow
    (by simp [Cell.contents, Ty.Scoped]))
  have vars : (productStart s).vars = s.vars + 3 := by simp [productStart]
  refine ensures_bind (ensures_bind (ensures_bind ?_))
  simp only [run_fresh, run_allocate, vars_grow]
  refine ensures_orFail (steps₂.inv.unifyAt (he.mono steps₂.vars_le)
    (show (Ty.var (s.vars + 2)).Scoped _ by simp [Ty.Scoped]; omega) (fun t s₃ uni => ?_) fun _ _ h => by cases h)
  refine ensures_bind (ensures_bind ?_)
  simp only [run_allocate, vars_grow]
  obtain ⟨scoped', sane⟩ := link_of_unified uni
  have eq := uni.vars_eq
  have left := uni.steps.inv.grow (c := .setOrInteger (.var s.vars))
    (by simp [Cell.contents, Ty.Scoped]; omega)
  have right := left.inv.grow (c := .setOrInteger (.var (s.vars + 1)))
    (by simp [Cell.contents, Ty.Scoped]; omega)
  refine ensures_orFail (right.inv.linkAt scoped' sane (fun s₄ linked => ?_) fun _ _ h => by cases h)
  rw [withOperands]
  split
  · rename_i len
    have le := linked.steps.vars_le
    refine ensures_andThen ((sound.forward s₄ _ linked.steps.inv ?_ (by simp [len])).mono
      fun args' _ s₅ all => ?_)
    · simp only [vars_grow] at le
      simp [Ty.Scoped]
      omega
    · have steps := all.walked.steps
      have early := right.trans linked.steps |>.trans steps
      refine ensures_done (typed_apply (all.after (steps₂.trans (uni.steps.trans
        (left.trans (right.trans linked.steps))))) rfl
        (uni.scope.mono (left.vars_le.trans early.vars_le)) (fun w hw => ?_) (fun w hw => ?_) rfl)
      · exact (uni.sound w (left.models w (early.models w hw))).2
      · rw [rule]
        exact types_of_holds (linked.sound w (steps.models w hw))
  · exact ensures_fail fun h => by cases h

/-- A pair has the pair of the types of its halves. -/
lemma checkPair_sound (rule : op.rule = .pair) (sound : WalksSound known scope args walks)
    (inv : s.Inv known) (he : expected.Scoped s.vars) :
    Ensures (Rule.checkPair n op args expected walks) s
      ((apply n op args).Typed known scope s expected) Proper := by
  rw [Rule.checkPair, withOperands]
  split
  · rename_i len
    refine ensures_andThen ((sound.apart s inv).mono fun args' ts s₁ h => ?_)
    obtain ⟨all, length⟩ := h
    rw [len] at length
    obtain ⟨a, b, rfl⟩ := List.length_eq_two.1 length
    have ha := all.within a (by simp)
    have hb := all.within b (by simp)
    refine settle_apply_sound all (he.mono all.walked.steps.vars_le) ⟨ha, hb⟩ fun w _ _ => ?_
    rw [rule]
    exact ⟨_, _, rfl, rfl⟩
  · exact ensures_fail nofun

/-- The elements of an enumeration have one type. -/
lemma checkEnumeration_sound {shape : Shape} (rule : op.rule = .enumeration shape)
    (sound : WalksSound known scope args walks) (inv : s.Inv known)
    (he : expected.Scoped s.vars) :
    Ensures (Rule.checkEnumeration n op args expected walks shape) s
      ((apply n op args).Typed known scope s expected) Proper := by
  refine ensures_bind ?_
  rw [run_fresh]
  have he₁ : expected.Scoped (s.grow .free).vars := he.mono inv.fresh.vars_le
  have elem : (Ty.var s.vars).Scoped (s.grow .free).vars := by simp [Ty.Scoped]
  have hr : (shape.instantiate [.var s.vars] expected).Scoped (s.grow .free).vars :=
    Shape.scoped_instantiate (by simpa using elem) he₁ shape
  refine ensures_orFail (inv.fresh.inv.unifyAt he₁ hr (fun t s₂ uni => ?_) fun _ _ h => by cases h)
  refine ensures_andThen ((sound.chain s₂ _ uni.steps.inv (elem.mono uni.steps.vars_le)).mono
    fun args' u s₃ h => ?_)
  obtain ⟨all, _⟩ := h
  have steps := all.walked.steps
  have same (w : World) (hw : w.Models s₃) := uni.sound w (steps.models w hw)
  refine ensures_done (typed_apply (all.after (inv.fresh.trans uni.steps)) rfl
    (uni.scope.mono steps.vars_le) (fun w hw => (same w hw).2) (fun w hw => ?_) rfl)
  rw [rule]
  refine ⟨(Ty.var s.vars).eval w.value, fun u hu => ?_, ?_⟩
  · rw [List.map_replicate] at hu
    exact List.eq_of_mem_replicate hu
  · have := Shape.hom_instantiate (Ty.hom_eval w.value) [.var s.vars] expected shape
    rw [← (same w hw).1, ← (same w hw).2] at this
    exact this.symm

/-- The function of an application is a relation from the arguments to the whole. -/
lemma checkApplication_sound (rule : op.rule = .application)
    (sound : WalksSound known scope args walks) (inv : s.Inv known)
    (he : expected.Scoped s.vars) :
    Ensures (Rule.checkApplication n op args expected walks) s
      ((apply n op args).Typed known scope s expected) Proper := by
  rw [Rule.checkApplication]
  split
  · exact ensures_fail nofun
  · rename_i len
    refine ensures_bind (ensures_andThen ?_)
    rw [run_fresh]
    refine (sound.call _ _ inv.fresh.inv (by simp [Ty.Scoped]) (by omega)).mono
      fun args' _ s₁ h => ?_
    obtain ⟨us, u, all, tuple⟩ := h
    have steps := inv.fresh.trans all.walked.steps
    have elem : (Ty.var s.vars).Scoped s₁.vars := by
      have := all.walked.steps.vars_le
      rw [vars_grow] at this
      exact Nat.lt_of_succ_le this
    refine settle_apply_sound (all.after inv.fresh) (he.mono steps.vars_le) elem fun w _ _ => ?_
    rw [rule]
    refine ⟨us.map (Ty.eval w.value), u.eval w.value, ?_, ?_⟩
    · simp
    · rw [(Ty.hom_eval w.value).tuple?, tuple, Option.map_some]

/-- Walking through an operator and its operands makes it typed, or fails with an error. -/
lemma check_apply_sound (sound : WalksSound known scope args walks)
    (blank : ∀ e ∈ args, (Node.expr e).Blank) (inv : s.Inv known) (he : expected.Scoped s.vars) :
    Ensures (op.check n args expected walks) s
      ((apply n op args).Typed known scope s expected) Proper := by
  rw [Operator.check]
  cases rule : op.rule with
  | fixed sig => exact sig.check_sound rule sound inv he
  | difference => exact checkDifference_sound rule sound inv he
  | product => exact checkProduct_sound rule sound inv he
  | pair => exact checkPair_sound rule sound inv he
  | enumeration shape => exact checkEnumeration_sound rule sound inv he
  | application => exact checkApplication_sound rule sound inv he
  | constant params shape =>
    -- The operands of a constant are passed over, so their slots stay empty.
    obtain ⟨steps, length, within, -⟩ := inv.freshList params
    refine ensures_bind ?_
    generalize freshList params s = fresh at steps length within
    obtain ⟨ps, s₁⟩ := fresh
    have he₁ := he.mono steps.vars_le
    have none : Walked known scope s₁ (apply n op args).children s₁ := by
      refine .blank steps.inv (fun m hm => ?_) fun m hm => ?_
      · obtain ⟨e, he, rfl⟩ := List.mem_map.1 hm
        exact blank e he
      · obtain ⟨e, he, rfl⟩ := List.mem_map.1 hm
        rfl
    refine (ensures_settle none he₁ (Shape.scoped_instantiate within he₁ shape)
      (fun w _ value full => ?_) rfl).mono fun _ _ _ h => h.after steps
    have empty : args = [] := by
      obtain _ | ⟨e, args⟩ := args
      · rfl
      · obtain ⟨t, ht⟩ := (Node.full_iff.1 (full (.expr e) (by simp [children]))).1 rfl
        rw [(blank e (by simp)).slot] at ht
        cases ht
    refine ⟨[], by simp [View.Gives, children, empty], (op.mayHaveType_iff _ _).2 ?_⟩
    rw [rule]
    refine ⟨ps.map (Ty.eval w.value), by simpa using length, ?_, rfl⟩
    have hom := Shape.hom_instantiate (Ty.hom_eval w.value) ps expected shape
    rw [value] at hom
    exact hom.symm

end Expr

end BMethod
