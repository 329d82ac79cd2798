import BMethod.Proofs.Typing.Walked

/-!
# Walking beside a typing

Suppose that the nodes of a tree can be given types so that all obey their rules. A walk through the
tree with its slots emptied then goes on beside that typing: a guess for the variables survives each
step, and makes the slots that the walk fills mean the types of the typing (`Guessed`). What can
stop the walk is a product, whose operands may be unified too eagerly, or the access to a field of
something that is not known to be a record yet (`Trial.Excuses`).
-/

namespace BMethod

open State

/-- Types for declarations to be tried, and whether there may be products and accesses to fields. -/
structure Trial where
  known : Nat → Bool
  type : Nat → Ty
  products : Prop
  accesses : Prop

namespace Trial

variable (T : Trial)

/-- How a trial reads the rules. -/
def view : View := ⟨Operator.MayHaveType, ⟨T.known, fun id => some (T.type id)⟩, .empty, Ty.canon⟩

/-- The failures that a trial does not rule out. -/
def Excuses : Halt TypeError → Prop
  | .divergence => False
  | .error e => T.products ∧ e.isMismatch = true ∨ T.accesses

/-- Products and accesses to fields only where there may be some. -/
def Allows (n : Node) : Prop :=
  (n.isProduct = true → T.products) ∧ (n.isAccess = true → T.accesses)

/-- All nodes of the tree obey their rules. -/
def Accepts (n : Node) : Prop := ∀ m ∈ n.preorder, m.Obeys T.view ∧ T.Allows m

/-- A guess for the variables of a state. -/
structure Supports (g : Guess) (s : State) : Prop where
  inv : s.Inv T.known
  fits : s.Fits T.type T.products g

/-- A guess for the variables of a state, extended to those of a later one. -/
structure Survives (g : Guess) (s : State) (g' : Guess) (s' : State) : Prop where
  steps : s.Steps T.known s'
  ext : g.Extends s.vars g'
  fits : s'.Fits T.type T.products g'

/-- The slot of the second node means the type of the first. -/
def Explains (g : Guess) (k : Nat) (a n : Node) : Prop :=
  ∃ t v, T.view.value? a = some v ∧ n.slot = some t ∧ g.Means k t v

/-- What a walk has made of some trees beside a typing of them. -/
structure Guessed (g : Guess) (s : State) (as news : List Node) (g' : Guess) (s' : State) : Prop
    extends T.Survives g s g' s' where
  slots : List.Forall₂ (T.Explains g' s'.vars) (as.flatMap Node.preorder)
    (news.flatMap Node.preorder)

end Trial

variable {T : Trial} {g g' g'' : Guess} {s s' s'' : State}

namespace Trial

/-- What a trial accepts of a tree, at the root and below. -/
lemma accepts_iff {n : Node} :
    T.Accepts n ↔ (n.Obeys T.view ∧ T.Allows n) ∧ ∀ c ∈ n.children, T.Accepts c := by
  rw [Accepts, Node.preorder_eq]
  simp only [List.forall_mem_cons, List.mem_flatMap, forall_exists_index, and_imp, Accepts]
  exact and_congr_right fun _ => ⟨fun h c hc m hm => h m c hc hm, fun h m c hc hm => h c hc m hm⟩

/-! ## Guesses survive steps. -/

lemma Survives.refl (h : T.Supports g s) : T.Survives g s g s :=
  ⟨.refl h.inv, .refl _ _, h.fits⟩

lemma Survives.trans (h : T.Survives g s g' s') (h' : T.Survives g' s' g'' s'') :
    T.Survives g s g'' s'' :=
  ⟨h.steps.trans h'.steps, h.ext.trans h'.ext h.steps.vars_le, h'.fits⟩

lemma Survives.supports (h : T.Survives g s g' s') : T.Supports g' s' := ⟨h.steps.inv, h.fits⟩

/-- Types mean in the end what they meant before. -/
lemma Survives.means (h : T.Survives g s g' s') {t v : Ty} (m : g.Means s.vars t v) :
    g'.Means s'.vars t v := m.extend h.ext h.steps.vars_le

lemma Survives.meansAll (h : T.Survives g s g' s') {ts vs : List Ty}
    (m : List.Forall₂ (g.Means s.vars) ts vs) : List.Forall₂ (g'.Means s'.vars) ts vs :=
  m.imp fun _ _ => h.means

/-- Choices are read in the end as they were before. -/
lemma Survives.chooses (h : T.Survives g s g' s') {v elem : Ty} (c : g.Chooses v elem)
    (scope : elem.Scoped s.vars) : g'.Chooses v elem := c.extend h.ext scope

lemma Explains.extend {k k' : Nat} {a n : Node} (h : T.Explains g k a n) (ext : g.Extends k g')
    (le : k ≤ k') : T.Explains g' k' a n := by
  obtain ⟨t, v, value, slot, m⟩ := h
  exact ⟨t, v, value, slot, m.extend ext le⟩

/-- A new variable may be guessed to have any value. -/
lemma Supports.fresh (h : T.Supports g s) (v : Ty) :
    T.Survives g s (g.push s.vars v False) (s.grow .free) ∧
      (g.push s.vars v False).Means (s.grow .free).vars (.var s.vars) v := by
  refine ⟨⟨h.inv.fresh, g.extends_push _ _ _, h.fits.fresh h.inv v⟩, ?_⟩
  rw [vars_grow]
  exact g.means_push _ _

/-- Types that mean one value can be unified; only products excuse a failure. -/
lemma Supports.unifyAt (h : T.Supports g s) {site : Site} {l r v : Ty} (ml : g.Means s.vars l v)
    (mr : g.Means s.vars r v) {Q : Ty → State → Prop}
    (ok : ∀ t s', s.Unified T.known l r t s' → T.Survives g s g s' → g.Means s'.vars t v → Q t s') :
    Concludes (unifyAt site l r) s Q T.Excuses := by
  refine h.inv.unifyAt ml.1.1 mr.1.1 (fun t s' uni => ?_) fun e refused => ?_
  · obtain ⟨fits, m⟩ := uni.complete _ _ g v h.fits ml mr
    exact ok t s' uni ⟨uni.steps, .refl _ _, fits⟩ m
  · exact .inl ⟨refused.products _ _ g v h.fits ml mr, refused.isMismatch⟩

/-- A product that is read in one way can be tied to its operands, where there may be products. -/
lemma Supports.linkAt (h : T.Supports g s) (products : T.products) {site : Site} {l r : Ty}
    {link : ProductLink} (scope : link.Scoped s.vars)
    (sane : ∀ σ, s.unifier.store.Holds σ → link.Sane σ) (fits : link.Fits g s.vars)
    {Q : Unit → State → Prop} (ok : ∀ s', T.Survives g s g s' → Q () s') :
    Concludes (linkAt site l r link) s Q T.Excuses := by
  refine h.inv.linkAt scope sane (fun s' linked => ?_) fun e isMismatch => ?_
  · exact ok s' ⟨linked.steps, .refl _ _, linked.complete _ _ g h.fits products fits⟩
  · exact .inl ⟨products, isMismatch⟩

/-- Declarations are looked up beside a typing. -/
lemma Supports.declares (h : T.Supports g s) (decl : s.Declares T.known s') :
    ∃ g', T.Survives g s g' s' := by
  obtain ⟨g', ext, fits⟩ := decl.complete _ _ g h.fits
  exact ⟨g', decl.steps, ext, fits⟩

/-- What stands for a declaration means any type that the trial has for it. -/
lemma Supports.finds (h : T.Supports g s) {id : Nat} {t v : Ty}
    (found : s.Finds T.known id t s') (has : T.view.context.Has id v) :
    ∃ g', T.Survives g s g' s' ∧ g'.Means s'.vars t v := by
  obtain ⟨g', ext, fits, m⟩ := found.complete _ _ g v h.fits fun exist => by
    have eq : some (T.type id) = some v := has exist
    cases eq
    rfl
  exact ⟨g', ⟨found.steps, ext, fits⟩, m⟩

/-! ## Combinations of walks. -/

namespace Guessed

lemma nil (h : T.Supports g s) : T.Guessed g s [] [] g s := ⟨.refl h, .nil⟩

/-- What comes after a walk keeps what it has made. -/
lemma trans {as ns : List Node} (h : T.Guessed g s as ns g' s') (h' : T.Survives g' s' g'' s'') :
    T.Guessed g s as ns g'' s'' :=
  ⟨h.toSurvives.trans h', h.slots.imp fun _ _ e => e.extend h'.ext h'.steps.vars_le⟩

lemma after {as ns : List Node} (h' : T.Guessed g' s' as ns g'' s'')
    (h : T.Survives g s g' s') : T.Guessed g s as ns g'' s'' :=
  ⟨h.trans h'.toSurvives, h'.slots⟩

/-- Two walks one after the other. -/
lemma append {as bs ms ns : List Node} (h : T.Guessed g s as ms g' s')
    (h' : T.Guessed g' s' bs ns g'' s'') : T.Guessed g s (as ++ bs) (ms ++ ns) g'' s'' where
  toSurvives := h.toSurvives.trans h'.toSurvives
  slots := by
    rw [List.flatMap_append, List.flatMap_append]
    exact List.rel_append (h.trans h'.toSurvives).slots h'.slots

lemma cons {a m : Node} {as ms : List Node} (h : T.Guessed g s [a] [m] g' s')
    (h' : T.Guessed g' s' as ms g'' s'') : T.Guessed g s (a :: as) (m :: ms) g'' s'' :=
  h.append h'

/-- Two walks one after the other, the trees of the second before those of the first. -/
lemma consLast {a m : Node} {as ms : List Node} (h : T.Guessed g s as ms g' s')
    (h' : T.Guessed g' s' [a] [m] g'' s'') : T.Guessed g s (a :: as) (m :: ms) g'' s'' where
  toSurvives := h.toSurvives.trans h'.toSurvives
  slots := by
    rw [List.flatMap_cons, List.flatMap_cons]
    have first := h'.slots
    rw [List.flatMap_singleton, List.flatMap_singleton] at first
    exact List.rel_append first (h.trans h'.toSurvives).slots

/-- A node whose parts have been walked through. -/
lemma node {a n : Node} (h : T.Guessed g s a.children n.children g' s')
    (root : T.Explains g' s'.vars a n) : T.Guessed g s [a] [n] g' s' where
  toSurvives := h.toSurvives
  slots := by
    rw [List.flatMap_singleton, List.flatMap_singleton, Node.preorder_eq a, Node.preorder_eq n]
    exact .cons root h.slots

/-- A walk beside a typing fills all slots. -/
lemma full {as ns : List Node} (h : T.Guessed g s as ns g' s') {n : Node} (hn : n ∈ ns) :
    n.Full := fun m hm _ => by
  have mem : m ∈ ns.flatMap Node.preorder := List.mem_flatMap.2 ⟨n, hn, hm⟩
  have slots := h.slots
  generalize as.flatMap Node.preorder = as at slots
  generalize ns.flatMap Node.preorder = ns at slots mem
  induction slots with
  | nil => cases mem
  | cons first _ ih =>
    obtain rfl | mem := List.mem_cons.1 mem
    · obtain ⟨t, v, -, slot, -⟩ := first
      exact ⟨t, slot⟩
    · exact ih mem

end Guessed

end Trial

/-! ## One expression or predicate. -/

namespace Expr

variable {a node : Expr} {expected found v : Ty}

/-- Settling a node whose parts have been walked through beside a typing. -/
lemma settle_complete (parts : T.Guessed g s a.children node.children g' s')
    (value : T.view.value? (.expr a) = some v) (he : g'.Means s'.vars expected v)
    (hf : g'.Means s'.vars found v) :
    Ensures (node.settle expected found) s' (fun e' t s'' => ∃ g'',
      T.Guessed g s [.expr a] [.expr e'] g'' s'' ∧ g''.Means s''.vars t v) T.Excuses := by
  refine ensures_orFail (parts.supports.unifyAt he hf fun t s₁ _ sur m => ?_)
  refine ensures_done ⟨g', .node ?_ ⟨t, v, value, ?_, m⟩, m⟩
  · rw [Node.children, Node.children, children_withTy]
    exact parts.trans sur
  · simp [Node.slot, Note.withTy]

/-- Walking through the expression with its slots emptied goes on beside a typing. -/
def Complete (T : Trial) (a : Expr) : Prop :=
  ∀ (g : Guess) (s : State) (expected v : Ty), T.Supports g s → T.Accepts (.expr a) →
    T.view.value? (.expr a) = some v → g.Means s.vars expected v →
    Ensures (a.erase.check expected) s (fun e' t s' => ∃ g',
      T.Guessed g s [.expr a] [.expr e'] g' s' ∧ g'.Means s'.vars t v) T.Excuses

/-- Walking through the expressions goes on beside typings. -/
def CompleteAll (T : Trial) (as : List Expr) : Prop :=
  ∀ a ∈ as, a.Complete T ∧ T.Accepts (.expr a)

end Expr

namespace Pred

variable {a node : Pred} {found : Ty}

/-- Settling a node whose parts have been walked through beside a typing. -/
lemma settle_complete (parts : T.Guessed g s a.children node.children g' s')
    (value : T.view.value? (.pred a) = some .bool) (hf : g'.Means s'.vars found .bool) :
    Ensures (node.settle .bool found) s' (fun p' t s'' => ∃ g'',
      T.Guessed g s [.pred a] [.pred p'] g'' s'' ∧ g''.Means s''.vars t .bool) T.Excuses := by
  have he : g'.Means s'.vars .bool .bool := ⟨⟨trivial, nofun⟩, rfl⟩
  refine ensures_orFail (parts.supports.unifyAt he hf fun t s₁ _ sur m => ?_)
  refine ensures_done ⟨g', .node ?_ ⟨t, .bool, value, ?_, m⟩, m⟩
  · rw [Node.children, Node.children, children_withTy]
    exact parts.trans sur
  · simp [Node.slot, Note.withTy]

/-- Walking through the predicate with its slots emptied goes on beside a typing. -/
def Complete (T : Trial) (a : Pred) : Prop :=
  ∀ (g : Guess) (s : State), T.Supports g s → T.Accepts (.pred a) →
    T.view.value? (.pred a) = some .bool →
    Ensures (a.erase.check .bool) s (fun p' t s' => ∃ g',
      T.Guessed g s [.pred a] [.pred p'] g' s' ∧ g'.Means s'.vars t .bool) T.Excuses

end Pred

/-! ## Several expressions. -/

/-- A type for one node and types for the others. -/
lemma View.gives_cons_iff {V : View} {n : Node} {ns : List Node} {vs : List Ty} :
    V.Gives (n :: ns) vs ↔ ∃ v ws, vs = v :: ws ∧ V.value? n = some v ∧ V.Gives ns ws := by
  cases vs with
  | nil => simp [Gives]
  | cons v vs => simp [gives_cons]

namespace Expr

variable {as : List Expr} {ts vs : List Ty} {t v : Ty}

lemma checkForward_complete (complete : CompleteAll T as) (sup : T.Supports g s)
    (means : List.Forall₂ (g.Means s.vars) ts vs) (gives : T.view.Gives (as.map .expr) vs) :
    Ensures (checkForward (as.map erase) ts) s (fun es' _ s' => ∃ g',
      T.Guessed g s (as.map .expr) (es'.map .expr) g' s') T.Excuses := by
  induction as generalizing g s ts vs with
  | nil => exact ensures_done ⟨g, .nil sup⟩
  | cons a as ih =>
    obtain ⟨v, vs, rfl, value, gives⟩ := View.gives_cons_iff.1 gives
    rw [CompleteAll, List.forall_mem_cons] at complete
    cases means with
    | cons m means =>
      rw [List.map_cons, checkForward]
      refine ensures_andThen ((complete.1.1 g s _ v sup complete.1.2 value m).mono
        fun e' _ s₁ h => ?_)
      obtain ⟨g₁, first, _⟩ := h
      refine ensures_andThen ((ih complete.2 first.supports (first.meansAll means) gives).mono
        fun es' _ s₂ h => ?_)
      obtain ⟨g₂, rest⟩ := h
      exact ensures_done ⟨g₂, first.cons rest⟩

lemma checkBackward_complete (complete : CompleteAll T as) (sup : T.Supports g s)
    (means : List.Forall₂ (g.Means s.vars) ts vs) (gives : T.view.Gives (as.map .expr) vs) :
    Ensures (checkBackward (as.map erase) ts) s (fun es' _ s' => ∃ g',
      T.Guessed g s (as.map .expr) (es'.map .expr) g' s') T.Excuses := by
  induction as generalizing g s ts vs with
  | nil => exact ensures_done ⟨g, .nil sup⟩
  | cons a as ih =>
    obtain ⟨v, vs, rfl, value, gives⟩ := View.gives_cons_iff.1 gives
    rw [CompleteAll, List.forall_mem_cons] at complete
    cases means with
    | cons m means =>
      rw [List.map_cons, checkBackward]
      refine ensures_andThen ((ih complete.2 sup means gives).mono fun es' _ s₁ h => ?_)
      obtain ⟨g₁, rest⟩ := h
      refine ensures_andThen ((complete.1.1 g₁ s₁ _ v rest.supports complete.1.2 value
        (rest.means m)).mono fun e' _ s₂ h => ?_)
      obtain ⟨g₂, first, _⟩ := h
      exact ensures_done ⟨g₂, rest.consLast first⟩

/-- In a chain all expressions have one type. -/
lemma checkChain_complete (complete : CompleteAll T as) (sup : T.Supports g s)
    (m : g.Means s.vars t v) (gives : ∀ a ∈ as, T.view.value? (.expr a) = some v) :
    Ensures (checkChain (as.map erase) t) s (fun es' _ s' => ∃ g',
      T.Guessed g s (as.map .expr) (es'.map .expr) g' s') T.Excuses := by
  induction as generalizing g s t with
  | nil => exact ensures_done ⟨g, .nil sup⟩
  | cons a as ih =>
    rw [List.forall_mem_cons] at gives
    rw [CompleteAll, List.forall_mem_cons] at complete
    rw [List.map_cons, checkChain]
    refine ensures_andThen ((complete.1.1 g s _ v sup complete.1.2 gives.1 m).mono
      fun e' u s₁ h => ?_)
    obtain ⟨g₁, first, mu⟩ := h
    refine ensures_andThen ((ih complete.2 first.supports mu gives.2).mono
      fun es' _ s₂ h => ?_)
    obtain ⟨g₂, rest⟩ := h
    exact ensures_done ⟨g₂, first.cons rest⟩

/-- Apart, the types that are given mean the types of the expressions. -/
lemma checkApart_complete (complete : CompleteAll T as) (sup : T.Supports g s)
    (gives : T.view.Gives (as.map .expr) vs) :
    Ensures (checkApart (as.map erase)) s (fun es' ts s' => ∃ g',
      T.Guessed g s (as.map .expr) (es'.map .expr) g' s' ∧
        List.Forall₂ (g'.Means s'.vars) ts vs) T.Excuses := by
  induction as generalizing g s vs with
  | nil =>
    obtain rfl : vs = [] := by simpa [View.Gives] using gives
    exact ensures_done ⟨g, .nil sup, .nil⟩
  | cons a as ih =>
    obtain ⟨v, vs, rfl, value, gives⟩ := View.gives_cons_iff.1 gives
    rw [CompleteAll, List.forall_mem_cons] at complete
    obtain ⟨fresh, m⟩ := sup.fresh v
    rw [List.map_cons, checkApart]
    refine ensures_bind (ensures_andThen ((complete.1.1 _ _ _ v fresh.supports complete.1.2 value
      m).mono fun e' u s₁ h => ?_))
    obtain ⟨g₁, first, mu⟩ := h
    refine ensures_andThen ((ih complete.2 first.supports gives).mono
      fun es' ts s₂ h => ?_)
    obtain ⟨g₂, rest, means⟩ := h
    exact ensures_done ⟨g₂, (first.after fresh).cons rest, .cons (rest.means mu) means⟩

end Expr

/-! ## Tuples. -/

/-- Pairing up types with meanings pairs up the meanings. -/
lemma Guess.means_foldl {k : Nat} {t v : Ty} {ts vs : List Ty} (m : g.Means k t v)
    (means : List.Forall₂ (g.Means k) ts vs) :
    g.Means k (ts.foldl .couple t) (vs.foldl .couple v) := by
  induction means generalizing t v with
  | nil => exact m
  | cons m' _ ih => exact ih (Guess.Means.couple_iff.2 ⟨m, m'⟩)

/-- Tuples over types with meanings mean the tuples over the meanings. -/
lemma Guess.means_tuple {k : Nat} {ts vs : List Ty} {v : Ty}
    (means : List.Forall₂ (g.Means k) ts vs) (h : Ty.tuple? vs = some v) :
    ∃ t, Ty.tuple? ts = some t ∧ g.Means k t v := by
  cases means with
  | nil => cases h
  | cons m means =>
    cases h
    exact ⟨_, rfl, Guess.means_foldl m means⟩

namespace Expr

variable {as : List Expr} {us : List Ty} {t u v : Ty}

/-- A function and its arguments. -/
lemma checkCall_complete {site : Site} (complete : CompleteAll T as) (sup : T.Supports g s)
    (m : g.Means s.vars t v) (gives : T.view.Gives (as.map .expr) (.relation u v :: us))
    (tuple : Ty.tuple? us = some u) :
    Ensures (checkCall site (as.map erase) t) s (fun es' _ s' => ∃ g',
      T.Guessed g s (as.map .expr) (es'.map .expr) g' s') T.Excuses := by
  obtain _ | ⟨f, args⟩ := as
  · simp [View.Gives] at gives
  · obtain ⟨value, gives⟩ := View.gives_cons.1 gives
    rw [CompleteAll, List.forall_mem_cons] at complete
    rw [List.map_cons, checkCall]
    refine ensures_andThen ((checkApart_complete complete.2 sup gives).mono
      fun args' ts s₁ h => ?_)
    obtain ⟨g₁, rest, means⟩ := h
    obtain ⟨domain, ht, md⟩ := Guess.means_tuple means tuple
    simp only [ht]
    have mr : g₁.Means s₁.vars (.relation domain t) (.relation u v) :=
      Guess.Means.set_iff.2 (Guess.Means.couple_iff.2 ⟨md, rest.means m⟩)
    refine ensures_andThen ((complete.1.1 g₁ s₁ _ _ rest.supports complete.1.2 value mr).mono
      fun f' _ s₂ h => ?_)
    obtain ⟨g₂, first, _⟩ := h
    exact ensures_done ⟨g₂, rest.consLast first⟩

end Expr

end BMethod
