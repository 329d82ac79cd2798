import BMethod.Proofs.Typing.Guessed
import BMethod.Proofs.Typing.Sound.Operator

/-!
# Operators are checked beside a typing

If the operands and the whole have types that the rule of an operator allows, walking through the
operator and its operands goes on beside the typing (`Expr.check_apply_complete`). The element types
of a difference or product that is read on integers are guessed to be idle.
-/

namespace BMethod

open State

variable {T : Trial} {g g' : Guess} {s s' : State}

/-- A shape over types with meanings means the shape over the meanings. -/
lemma Shape.means_instantiate {k : Nat} {ps vs : List Ty} {t v : Ty}
    (hp : List.Forall₂ (g.Means k) ps vs) (ht : g.Means k t v) (shape : Shape) :
    g.Means k (shape.instantiate ps t) (shape.instantiate vs v) := by
  induction shape with
  | param i =>
    rw [instantiate, instantiate]
    induction hp generalizing i with
    | nil => exact ht
    | cons m _ ih =>
      cases i with
      | zero => exact m
      | succ i => exact ih i
  | whole => exact ht
  | integer | bool | string => exact ⟨⟨trivial, by simp [instantiate, Ty.vars]⟩, rfl⟩
  | set elem ih => exact Guess.Means.set_iff.2 ih
  | couple l r ihl ihr => exact Guess.Means.couple_iff.2 ⟨ihl, ihr⟩

namespace Expr

/-- How the walks through the operands of an operator have to go on beside a typing. -/
structure WalksComplete (T : Trial) (as : List Expr) (walks : OperandWalks) : Prop where
  forward : ∀ (g : Guess) (s : State) (ts vs : List Ty), T.Supports g s →
    List.Forall₂ (g.Means s.vars) ts vs → T.view.Gives (as.map .expr) vs →
    Ensures (walks.forward ts) s (fun es' _ s' => ∃ g',
      T.Guessed g s (as.map .expr) (es'.map .expr) g' s') T.Excuses
  backward : ∀ (g : Guess) (s : State) (ts vs : List Ty), T.Supports g s →
    List.Forall₂ (g.Means s.vars) ts vs → T.view.Gives (as.map .expr) vs →
    Ensures (walks.backward ts) s (fun es' _ s' => ∃ g',
      T.Guessed g s (as.map .expr) (es'.map .expr) g' s') T.Excuses
  chain : ∀ (g : Guess) (s : State) (t v : Ty), T.Supports g s → g.Means s.vars t v →
    (∀ a ∈ as, T.view.value? (.expr a) = some v) →
    Ensures (walks.chain t) s (fun es' _ s' => ∃ g',
      T.Guessed g s (as.map .expr) (es'.map .expr) g' s') T.Excuses
  apart : ∀ (g : Guess) (s : State) (vs : List Ty), T.Supports g s →
    T.view.Gives (as.map .expr) vs →
    Ensures walks.apart s (fun es' ts s' => ∃ g',
      T.Guessed g s (as.map .expr) (es'.map .expr) g' s' ∧
        List.Forall₂ (g'.Means s'.vars) ts vs) T.Excuses
  call : ∀ (g : Guess) (s : State) (t u v : Ty) (us : List Ty), T.Supports g s →
    g.Means s.vars t v → T.view.Gives (as.map .expr) (.relation u v :: us) →
    Ty.tuple? us = some u →
    Ensures (walks.call t) s (fun es' _ s' => ∃ g',
      T.Guessed g s (as.map .expr) (es'.map .expr) g' s') T.Excuses

section

variable {m n : Note} {op : Operator} {as args : List Expr} {expected v : Ty} {vs : List Ty}
  {walks : OperandWalks}

/-- An operator whose operands have been walked through beside a typing. -/
lemma guessed_apply {t : Ty} (parts : T.Guessed g s (as.map .expr) (args.map .expr) g' s')
    (value : T.view.value? (.expr (apply m op as)) = some v) (slot : n.ty = some t)
    (ht : g'.Means s'.vars t v) :
    ∃ g', T.Guessed g s [.expr (apply m op as)] [.expr (apply n op args)] g' s' ∧
      g'.Means s'.vars t v :=
  ⟨g', .node parts ⟨t, v, value, slot, ht⟩, ht⟩

/-- Settling the result first and then walking through the operands. -/
lemma resultFirst_complete {result : Ty} {count : Nat} {types : Ty → List Ty}
    {walk : List Ty → CheckM (Visited (List Expr) Unit)} (sup : T.Supports g s)
    (value : T.view.value? (.expr (apply m op as)) = some v) (me : g.Means s.vars expected v)
    (mr : g.Means s.vars result v) (length : args.length = count)
    (complete : ∀ (g : Guess) (s : State) (ts vs : List Ty), T.Supports g s →
      List.Forall₂ (g.Means s.vars) ts vs → T.view.Gives (as.map .expr) vs →
      Ensures (walk ts) s (fun es' _ s' => ∃ g',
        T.Guessed g s (as.map .expr) (es'.map .expr) g' s') T.Excuses)
    (gives : T.view.Gives (as.map .expr) vs)
    (means : ∀ k t, s.vars ≤ k → g.Means k t v → List.Forall₂ (g.Means k) (types t) vs) :
    Ensures (resultFirst n op args expected result count fun t => walk (types t)) s
      (fun e' t s' => ∃ g', T.Guessed g s [.expr (apply m op as)] [.expr e'] g' s' ∧
        g'.Means s'.vars t v) T.Excuses := by
  refine ensures_orFail (sup.unifyAt me mr fun t s₁ _ sur mt => ?_)
  rw [withOperands, if_pos length]
  refine ensures_andThen ((complete g s₁ (types t) vs sur.supports
    (means _ t sur.steps.vars_le mt) gives).mono fun args' _ s₂ h => ?_)
  obtain ⟨g₂, parts⟩ := h
  exact ensures_done (guessed_apply (parts.after sur) value rfl (parts.means mt))

end

end Expr

section

variable {m n : Note} {op : Operator} {as args : List Expr} {expected v : Ty} {vs : List Ty}
  {walks : OperandWalks}

/-- A signature is applied to new variables, which are guessed to be its parameters. -/
lemma Signature.check_complete {sig : Signature} (complete : Expr.WalksComplete T as walks)
    (sup : T.Supports g s) (value : T.view.value? (.expr (.apply m op as)) = some v)
    (me : g.Means s.vars expected v) (gives : T.view.Gives (as.map .expr) vs)
    (types : (Rule.fixed sig).Types vs v) (length : args.length = as.length) :
    Ensures (sig.check n op args expected walks) s
      (fun e' t s' => ∃ g', T.Guessed g s [.expr (.apply m op as)] [.expr e'] g' s' ∧
        g'.Means s'.vars t v) T.Excuses := by
  obtain ⟨ps, len, result, rfl⟩ := types
  have count : args.length = sig.operands.length := by
    have := congrArg List.length gives
    simp only [List.length_map] at this
    omega
  obtain ⟨steps, -, -, fresh⟩ := sup.inv.freshList sig.params
  obtain ⟨g₁, ext, fits, params⟩ := fresh _ _ g ps sup.fits len
  refine ensures_bind ?_
  generalize freshList sig.params s = new at steps ext fits params
  obtain ⟨qs, s₁⟩ := new
  have sur : T.Survives g s g₁ s₁ := ⟨steps, ext, fits⟩
  have me₁ := sur.means me
  have mr : g₁.Means s₁.vars (sig.result.instantiate qs expected) v := by
    have := Shape.means_instantiate params me₁ sig.result
    rwa [result] at this
  have means (k : Nat) (t : Ty) (le : s₁.vars ≤ k) (mt : g₁.Means k t v) :
      List.Forall₂ (g₁.Means k) (sig.operands.map (Shape.instantiate qs t))
        (sig.operands.map (Shape.instantiate ps v)) := by
    have params : List.Forall₂ (g₁.Means k) qs ps := params.imp fun _ _ h => h.extend (.refl _ _) le
    rw [List.forall₂_map_left_iff, List.forall₂_map_right_iff]
    exact List.forall₂_same.2 fun shape _ => Shape.means_instantiate params mt shape
  have after {e' : Expr} {t : Ty} {s'' : State} (h : ∃ g'',
      T.Guessed g₁ s₁ [.expr (.apply m op as)] [.expr e'] g'' s'' ∧ g''.Means s''.vars t v) :
      ∃ g'', T.Guessed g s [.expr (.apply m op as)] [.expr e'] g'' s'' ∧
        g''.Means s''.vars t v := by
    obtain ⟨g'', guessed, mt⟩ := h
    exact ⟨g'', guessed.after sur, mt⟩
  simp only
  cases sig.order with
  | forward =>
    exact (Expr.resultFirst_complete sur.supports value me₁ mr count complete.forward gives
      means).mono fun _ _ _ => after
  | backward =>
    exact (Expr.resultFirst_complete sur.supports value me₁ mr count complete.backward gives
      means).mono fun _ _ _ => after
  | inward =>
    simp only [Expr.withOperands, if_pos count]
    refine ensures_andThen ((complete.forward g₁ s₁ _ _ sur.supports
      (means _ expected le_rfl me₁) gives).mono fun args' _ s₂ h => ?_)
    obtain ⟨g₂, parts⟩ := h
    exact (Expr.settle_complete parts value (parts.means me₁)
      (parts.means mr)).mono fun _ _ _ => after

end

/-! ## Choices. -/

namespace Trial

variable {v : Ty}

/-- A new variable may be guessed to be idle. -/
lemma Supports.freshIdle (sup : T.Supports g s) :
    T.Survives g s (g.push s.vars .integer True) (s.grow .free) :=
  ⟨sup.inv.fresh, g.extends_push _ _ _, sup.fits.freshIdle sup.inv⟩

/-- A new variable may be guessed to be the element type of a given type, whether that is the
integers or a set. -/
lemma Supports.freshElem (sup : T.Supports g s) (h : v = .integer ∨ ∃ a, v = .set a) :
    ∃ g', T.Survives g s g' (s.grow .free) ∧ g'.Chooses v (.var s.vars) := by
  obtain rfl | ⟨a, rfl⟩ := h
  · exact ⟨_, sup.freshIdle, .inl ⟨rfl, by simp [Ty.vars]⟩⟩
  · exact ⟨_, (sup.fresh a).1, .inr ⟨by simp [Ty.eval], by simp [Ty.vars]⟩⟩

/-- A new variable awaiting the choice between the integers and sets may be guessed to be either. -/
lemma Supports.setOrInteger (sup : T.Supports g s) {w : Nat} (hw : w < s.vars)
    (choice : g.Chooses v (.var w)) :
    ∃ g', T.Survives g s g' (s.grow (.setOrInteger (.var w))) ∧
      g'.Means (s.grow (.setOrInteger (.var w))).vars (.var s.vars) v := by
  have ext := g.extends_push s.vars v False
  refine ⟨_, ⟨sup.inv.grow (by simpa [Cell.contents, Ty.Scoped] using hw), ext,
    sup.fits.grow sup.inv ext (fun _ => ?_) (fun h => by simp at h) ?_⟩, ?_⟩
  · rw [Cell.Fits, Guess.push_value]
    exact choice.extend ext hw
  · exact .inr (.inr ⟨by simp, w, rfl⟩)
  · rw [vars_grow]
    exact g.means_push _ _

/-- A new variable awaiting the choice between the integers and sets of pairs may be guessed to be
either, where there may be products. -/
lemma Supports.integerOrPairs (sup : T.Supports g s) (products : T.products) {a b : Nat}
    (ha : a < s.vars) (hb : b < s.vars) (choice : g.Chooses v (.couple (.var a) (.var b))) :
    ∃ g', T.Survives g s g' (s.grow (.integerOrPairs (.var a) (.var b))) ∧
      g'.Means (s.grow (.integerOrPairs (.var a) (.var b))).vars (.var s.vars) v := by
  have ext := g.extends_push s.vars v False
  refine ⟨_, ⟨sup.inv.grow (by simpa [Cell.contents, Ty.Scoped] using ⟨ha, hb⟩), ext,
    sup.fits.grow sup.inv ext (fun _ => ?_) (fun h => by simp at h) (.inl products)⟩, ?_⟩
  · rw [Cell.Fits, Guess.push_value]
    exact choice.extend ext ⟨ha, hb⟩
  · rw [vars_grow]
    exact g.means_push _ _

/-- Two new variables may be guessed to be the element types of the operands of a product. -/
lemma Supports.freshElems (sup : T.Supports g s) {l r : Ty} (types : Rule.product.Types [l, r] v) :
    ∃ g', T.Survives g s g' ((s.grow .free).grow .free) ∧
      g'.Chooses v (.couple (.var s.vars) (.var (s.vars + 1))) ∧ g'.Chooses l (.var s.vars) ∧
      g'.Chooses r (.var (s.vars + 1)) := by
  have integerOrSet : (l = .integer ∨ ∃ a, l = .set a) ∧ (r = .integer ∨ ∃ b, r = .set b) := by
    obtain ⟨e, -⟩ | ⟨a, b, e, -⟩ := types <;> cases e
    · exact ⟨.inl rfl, .inl rfl⟩
    · exact ⟨.inr ⟨a, rfl⟩, .inr ⟨b, rfl⟩⟩
  obtain ⟨g₁, first, left⟩ := sup.freshElem integerOrSet.1
  obtain ⟨g₂, second, right⟩ := first.supports.freshElem integerOrSet.2
  have left := left.extend second.ext (by simp [Ty.Scoped])
  rw [vars_grow] at right
  refine ⟨g₂, first.trans second, ?_, left, right⟩
  obtain ⟨e, rfl⟩ | ⟨a, b, e, rfl⟩ := types <;> cases e
  · refine .inl ⟨rfl, fun w hw => ?_⟩
    obtain ⟨-, il⟩ | ⟨e, -⟩ := left
    · obtain ⟨-, ir⟩ | ⟨e, -⟩ := right
      · obtain hw | hw := List.mem_append.1 hw
        · exact il w hw
        · exact ir w hw
      · cases e
    · cases e
  · refine .inr ⟨?_, fun w hw => ?_⟩ <;> obtain ⟨e, -⟩ | ⟨ea, la⟩ := left
    · cases e
    · obtain ⟨e, -⟩ | ⟨eb, lb⟩ := right
      · cases e
      · rw [Ty.relation, Ty.eval, Ty.set.inj ea, Ty.set.inj eb]
    · cases e
    · obtain ⟨e, -⟩ | ⟨eb, lb⟩ := right
      · cases e
      · obtain hw | hw := List.mem_append.1 hw
        · exact la w hw
        · exact lb w hw

end Trial

/-- The link of a product fits a guess that reads it in one way. -/
lemma ProductLink.fits_of_types {k a b : Nat} {t left right l r v : Ty} (ha : a < k) (hb : b < k)
    (types : Rule.product.Types [l, r] v) (whole : g.Chooses v (.couple (.var a) (.var b)))
    (cl : g.Chooses l (.var a)) (cr : g.Chooses r (.var b)) (mt : g.Means k t v)
    (ml : g.Means k left l) (mr : g.Means k right r) :
    (ProductLink.mk t left right (.var a) (.var b)).Fits g k := by
  obtain ⟨e, rfl⟩ | ⟨x, y, e, rfl⟩ := types <;> cases e
  · have integer : g.Means k .integer .integer := ⟨⟨trivial, by simp [Ty.vars]⟩, rfl⟩
    refine ⟨.integers, ?_⟩
    simp only [equations, ProductLink.types, List.forall_mem_cons]
    exact ⟨⟨_, mt, integer⟩, ⟨_, ml, integer⟩, ⟨_, mr, integer⟩, by simp⟩
  · refine ⟨.sets, ?_⟩
    simp only [equations, ProductLink.types, List.forall_mem_cons]
    exact ⟨⟨_, mt, Guess.Means.set_iff.2 (whole.means ⟨ha, hb⟩)⟩,
      ⟨_, ml, Guess.Means.set_iff.2 (cl.means ha)⟩, ⟨_, mr, Guess.Means.set_iff.2 (cr.means hb)⟩,
      by simp⟩

/-! ## Operators. -/

namespace Expr

variable {m n : Note} {op : Operator} {as args : List Expr} {expected v : Ty} {vs : List Ty}
  {walks : OperandWalks}

/-- A difference is read on integers or on sets, as the typing says. -/
lemma checkDifference_complete (complete : WalksComplete T as walks) (sup : T.Supports g s)
    (value : T.view.value? (.expr (apply m op as)) = some v) (me : g.Means s.vars expected v)
    (gives : T.view.Gives (as.map .expr) vs) (types : Rule.difference.Types vs v)
    (length : args.length = as.length) :
    Ensures (Rule.checkDifference n op args expected walks) s
      (fun e' t s' => ∃ g', T.Guessed g s [.expr (apply m op as)] [.expr e'] g' s' ∧
        g'.Means s'.vars t v) T.Excuses := by
  obtain ⟨rfl, integerOrSet⟩ := types
  obtain ⟨g₁, elem, choice⟩ := sup.freshElem integerOrSet
  obtain ⟨g₂, found, mf⟩ := elem.supports.setOrInteger (w := s.vars) (by simp) choice
  have sur := elem.trans found
  have count : args.length = 2 := by
    rw [length]
    simpa using congrArg List.length gives
  refine ensures_bind (ensures_bind ?_)
  rw [run_fresh, run_allocate]
  refine (resultFirst_complete sur.supports value (sur.means me) mf
    count complete.forward gives fun k t _ mt => .cons mt (.cons mt .nil)).mono ?_
  rintro e' t s' ⟨g', guessed, mt⟩
  exact ⟨g', guessed.after sur, mt⟩

/-- A product is read on integers or on sets, as the typing says. -/
lemma checkProduct_complete (products : T.products) (complete : WalksComplete T as walks)
    (sup : T.Supports g s) (value : T.view.value? (.expr (apply m op as)) = some v)
    (me : g.Means s.vars expected v) (gives : T.view.Gives (as.map .expr) vs)
    (types : Rule.product.Types vs v) (length : args.length = as.length) :
    Ensures (Rule.checkProduct n op args expected walks) s
      (fun e' t s' => ∃ g', T.Guessed g s [.expr (apply m op as)] [.expr e'] g' s' ∧
        g'.Means s'.vars t v) T.Excuses := by
  obtain ⟨l, r, rfl⟩ : ∃ l r, vs = [l, r] := by
    obtain ⟨rfl, -⟩ | ⟨a, b, rfl, -⟩ := types <;> exact ⟨_, _, rfl⟩
  have count : args.length = 2 := by
    rw [length]
    simpa using congrArg List.length gives
  obtain ⟨g₁, elems, whole, cl, cr⟩ := sup.freshElems types
  have vars : ((s.grow .free).grow .free).vars = s.vars + 2 := by simp
  obtain ⟨g₂, result, mf⟩ := elems.supports.integerOrPairs products (a := s.vars) (b := s.vars + 1)
    (by omega) (by omega) whole
  rw [vars] at mf
  have sur : T.Survives g s g₂ (productStart s) := elems.trans result
  refine ensures_bind (ensures_bind (ensures_bind ?_))
  simp only [run_fresh, run_allocate, vars_grow]
  refine ensures_orFail (sur.supports.unifyAt (sur.means me) mf fun t s₃ unified uni mt => ?_)
  have later := result.trans uni
  have le : ((s.grow .free).grow .free).vars ≤ s₃.vars := later.steps.vars_le
  obtain ⟨ha, hb⟩ : (Ty.var s.vars).Scoped ((s.grow .free).grow .free).vars ∧
      (Ty.var (s.vars + 1)).Scoped ((s.grow .free).grow .free).vars := by
    simp only [Ty.Scoped]
    omega
  obtain ⟨g₃, left, ml⟩ := uni.supports.setOrInteger (w := s.vars) (by omega) (later.chooses cl ha)
  obtain ⟨g₄, right, mr⟩ := left.supports.setOrInteger (w := s.vars + 1)
    (by rw [vars_grow]; omega) ((later.trans left).chooses cr hb)
  rw [s₃.vars_grow (.setOrInteger (.var s.vars))] at mr
  have last := later.trans (left.trans right)
  have bound := last.steps.vars_le
  obtain ⟨scope, sane⟩ := link_of_unified unified
  have fits := ProductLink.fits_of_types (k := (productOperands s₃ s.vars (s.vars + 1)).vars)
    (Nat.lt_of_lt_of_le ha bound) (Nat.lt_of_lt_of_le hb bound) types
    (last.chooses whole ⟨ha, hb⟩) (last.chooses cl ha) (last.chooses cr hb)
    ((left.trans right).means mt) (right.means ml) mr
  refine ensures_bind (ensures_bind ?_)
  simp only [run_allocate, vars_grow]
  refine ensures_orFail (right.supports.linkAt products scope sane fits fun s₄ linked => ?_)
  rw [withOperands, if_pos count]
  refine ensures_andThen ((complete.forward g₄ s₄ _ _ linked.supports
    (.cons ((right.trans linked).means ml) (.cons (linked.means mr) .nil)) gives).mono
    fun args' _ s₅ h => ?_)
  obtain ⟨g₅, parts⟩ := h
  have rest := (left.trans right).trans (linked.trans parts.toSurvives)
  exact ensures_done (guessed_apply (parts.after (sur.trans (uni.trans ((left.trans right).trans
    linked)))) value rfl (rest.means mt))

/-- A pair is typed by its halves. -/
lemma checkPair_complete (complete : WalksComplete T as walks) (sup : T.Supports g s)
    (value : T.view.value? (.expr (apply m op as)) = some v) (me : g.Means s.vars expected v)
    (gives : T.view.Gives (as.map .expr) vs) (types : Rule.pair.Types vs v)
    (length : args.length = as.length) :
    Ensures (Rule.checkPair n op args expected walks) s
      (fun e' t s' => ∃ g', T.Guessed g s [.expr (apply m op as)] [.expr e'] g' s' ∧
        g'.Means s'.vars t v) T.Excuses := by
  obtain ⟨a, b, rfl, rfl⟩ := types
  have count : args.length = 2 := by
    rw [length]
    simpa using congrArg List.length gives
  rw [Rule.checkPair, withOperands, if_pos count]
  refine ensures_andThen ((complete.apart g s _ sup gives).mono
    fun args' ts s₁ h => ?_)
  obtain ⟨g₁, parts, means⟩ := h
  obtain ⟨t, tuple, mt⟩ := Guess.means_tuple means (v := .couple a b) rfl
  simp only [tuple]
  exact settle_complete parts value (parts.means me) mt

/-- The elements of an enumeration have one type. -/
lemma checkEnumeration_complete {shape : Shape} (complete : WalksComplete T as walks)
    (sup : T.Supports g s) (value : T.view.value? (.expr (apply m op as)) = some v)
    (me : g.Means s.vars expected v) (gives : T.view.Gives (as.map .expr) vs)
    (types : (Rule.enumeration shape).Types vs v) :
    Ensures (Rule.checkEnumeration n op args expected walks shape) s
      (fun e' t s' => ∃ g', T.Guessed g s [.expr (apply m op as)] [.expr e'] g' s' ∧
        g'.Means s'.vars t v) T.Excuses := by
  obtain ⟨a, all, result⟩ := types
  obtain ⟨fresh, ma⟩ := sup.fresh a
  have mr := Shape.means_instantiate (.cons ma .nil) (fresh.means me) shape
  rw [result] at mr
  have elements (e : Expr) (he : e ∈ as) : T.view.value? (.expr e) = some a := by
    have mem : T.view.value? (.expr e) ∈ (as.map Node.expr).map T.view.value? :=
      List.mem_map_of_mem (List.mem_map_of_mem he)
    rw [gives, List.mem_map] at mem
    obtain ⟨u, hu, eq⟩ := mem
    rw [← eq, all u hu]
  refine ensures_bind ?_
  rw [run_fresh]
  refine ensures_orFail (fresh.supports.unifyAt (fresh.means me) mr fun t s₂ _ uni mt => ?_)
  refine ensures_andThen ((complete.chain _ s₂ _ a uni.supports (uni.means ma) elements).mono
    fun args' _ s₃ h => ?_)
  obtain ⟨g₃, parts⟩ := h
  exact ensures_done (guessed_apply (parts.after (fresh.trans uni)) value rfl (parts.means mt))

/-- The function of an application is a relation from the arguments to the whole. -/
lemma checkApplication_complete (complete : WalksComplete T as walks) (sup : T.Supports g s)
    (value : T.view.value? (.expr (apply m op as)) = some v) (me : g.Means s.vars expected v)
    (gives : T.view.Gives (as.map .expr) vs) (types : Rule.application.Types vs v)
    (length : args.length = as.length) :
    Ensures (Rule.checkApplication n op args expected walks) s
      (fun e' t s' => ∃ g', T.Guessed g s [.expr (apply m op as)] [.expr e'] g' s' ∧
        g'.Means s'.vars t v) T.Excuses := by
  obtain ⟨us, u, rfl, tuple⟩ := types
  have count : ¬ args.length < 2 := by
    have some : us ≠ [] := by
      rintro rfl
      cases tuple
    have positive := List.length_pos_of_ne_nil some
    have := congrArg List.length gives
    simp only [List.length_map, List.length_cons] at this
    omega
  obtain ⟨fresh, mr⟩ := sup.fresh v
  simp only [Rule.checkApplication, if_neg count]
  refine ensures_bind (ensures_andThen ((complete.call _ _ _ u v us fresh.supports mr gives
    tuple).mono fun args' _ s₁ h => ?_))
  obtain ⟨g₁, parts⟩ := h
  have sur := fresh.trans parts.toSurvives
  exact settle_complete (parts.after fresh) value (sur.means me)
    (parts.means mr)

/-- Walking through an operator and its operands goes on beside a typing of them. -/
lemma check_apply_complete (complete : WalksComplete T as walks) (sup : T.Supports g s)
    (accepts : T.Accepts (.expr (apply m op as)))
    (value : T.view.value? (.expr (apply m op as)) = some v) (me : g.Means s.vars expected v) :
    Ensures (op.check n (as.map erase) expected walks) s
      (fun e' t s' => ∃ g', T.Guessed g s [.expr (apply m op as)] [.expr e'] g' s' ∧
        g'.Means s'.vars t v) T.Excuses := by
  obtain ⟨⟨⟨vs, v', gives, value', type⟩, allows⟩, -⟩ := Trial.accepts_iff.1 accepts
  obtain rfl : v' = v := by
    rw [value] at value'
    exact (Option.some.inj value').symm
  have types : op.rule.Types vs v' := (op.mayHaveType_iff _ _).1 type
  have length : (as.map erase).length = as.length := by simp
  rw [Operator.check]
  cases rule : op.rule with
  | fixed sig =>
    rw [rule] at types
    exact sig.check_complete complete sup value me gives types length
  | difference =>
    rw [rule] at types
    exact checkDifference_complete complete sup value me gives types length
  | product =>
    rw [rule] at types
    obtain rfl : op = .mult := by cases op <;> first | rfl | cases rule
    exact checkProduct_complete (allows.1 rfl) complete sup value me gives types length
  | pair =>
    rw [rule] at types
    exact checkPair_complete complete sup value me gives types length
  | enumeration shape =>
    rw [rule] at types
    exact checkEnumeration_complete complete sup value me gives types
  | application =>
    rw [rule] at types
    exact checkApplication_complete complete sup value me gives types length
  | constant params shape =>
    rw [rule] at types
    obtain ⟨ps, len, result, rfl⟩ := types
    obtain rfl : as = [] := by simpa [View.Gives, children] using gives
    obtain ⟨steps, -, -, fresh⟩ := sup.inv.freshList params
    obtain ⟨g₁, ext, fits, means⟩ := fresh _ _ g ps sup.fits len
    refine ensures_bind ?_
    generalize freshList params s = new at steps ext fits means
    obtain ⟨qs, s₁⟩ := new
    have sur : T.Survives g s g₁ s₁ := ⟨steps, ext, fits⟩
    have mr := Shape.means_instantiate means (sur.means me) shape
    rw [result] at mr
    exact settle_complete ((Trial.Guessed.nil sur.supports).after sur) value
      (sur.means me) mr

end Expr

end BMethod
