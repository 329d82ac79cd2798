import BMethod.Proofs.Tree
import BMethod.Proofs.Typing.State

/-!
# Disciplines of walks

What a walk through an expression or predicate does it does by a few kinds of steps: it adds variables,
looks up declarations, and unifies types that belong to the state. A discipline says what each of these
steps keeps of a state and how it may fail (`Discipline`). A walk through any tree keeps to every
discipline, as long as the declarations that the tree mentions may be looked up and the tree has no
products where the discipline has no room for them (`Node.follows`).
-/

namespace BMethod

open State

/-! ## Regimes. -/

/-- Which states are valid, which later states keep the earlier ones, which types belong to a state, and how
a walk may fail. -/
structure Regime where
  Valid : State → Prop
  Keeps : State → State → Prop
  Owns : Ty → State → Prop
  Fails : Halt TypeError → Prop
  refl : ∀ {s}, Valid s → Keeps s s
  trans : ∀ {s s' s''}, Keeps s s' → Keeps s' s'' → Keeps s s''
  valid : ∀ {s s'}, Keeps s s' → Valid s'
  mono : ∀ {s s' t}, Keeps s s' → Owns t s → Owns t s'

/-- The type belongs to the state. -/
def Ty.Tracked (R : Regime) (t : Ty) (s : State) : Prop := R.Owns t s

lemma Ty.Tracked.mono {R : Regime} {t : Ty} {s s' : State} (h : t.Tracked R s) (k : R.Keeps s s') :
    t.Tracked R s' := R.mono k h

lemma Ty.Tracked.all_mono {R : Regime} {ts : List Ty} {s s' : State}
    (h : ∀ t ∈ ts, t.Tracked R s) (k : R.Keeps s s') : ∀ t ∈ ts, t.Tracked R s' :=
  fun t ht => (h t ht).mono k

namespace Regime

variable (R : Regime) {ν π α β : Type} {s : State}

/-- The computation keeps a valid state, and `Q` holds of its result. -/
def Runs (x : CheckM α) (s : State) (Q : α → State → Prop) : Prop :=
  R.Valid s → R.Keeps s (x s).2 ∧ Q (x s).1 (x s).2

/-- A result of which `Q` holds, or a failure that is allowed. -/
def Outcome (Q : α → State → Prop) : Verdict α → State → Prop
  | .ok a, s => Q a s
  | .error e, _ => R.Fails e

/-- The step keeps a valid state, and `Q` holds of its result if there is one. -/
def Tries (x : CheckM (Verdict α)) (s : State) (Q : α → State → Prop) : Prop :=
  R.Runs x s (R.Outcome Q)

/-- The walk keeps a valid state, and `Q` holds of its result if there is one. -/
def Visits (x : CheckM (Visited ν α)) (s : State) (Q : α → State → Prop) : Prop :=
  R.Runs x s fun r => R.Outcome Q r.2

variable {R}

lemma Runs.pure {Q : α → State → Prop} {a : α} (h : Q a s) : R.Runs (Pure.pure a) s Q :=
  fun v => ⟨R.refl v, h⟩

/-- Two computations one after the other. -/
lemma Runs.bind {x : CheckM α} {f : α → CheckM β} {Q : α → State → Prop} {Q' : β → State → Prop}
    (hx : R.Runs x s Q) (hf : ∀ a s', R.Keeps s s' → Q a s' → R.Runs (f a) s' Q') :
    R.Runs (x >>= f) s Q' := fun v => by
  obtain ⟨k, h⟩ := hx v
  obtain ⟨k', h'⟩ := hf _ _ k h (R.valid k)
  exact ⟨R.trans k k', h'⟩

lemma Visits.done {Q : α → State → Prop} {n : ν} {a : α} (h : Q a s) :
    R.Visits (CheckM.done n a) s Q := Runs.pure h

lemma Visits.fail {Q : α → State → Prop} {n : ν} {e : TypeError} (h : R.Fails (.error e)) :
    R.Visits (CheckM.fail n e) s Q := Runs.pure h

lemma Visits.bind {x : CheckM α} {f : α → CheckM (Visited ν β)} {Q : α → State → Prop}
    {Q' : β → State → Prop} (hx : R.Runs x s Q)
    (hf : ∀ a s', R.Keeps s s' → Q a s' → R.Visits (f a) s' Q') : R.Visits (x >>= f) s Q' :=
  Runs.bind hx hf

/-- Looking at the state and then on with the walk. -/
lemma Visits.get {f : State → CheckM (Visited ν β)} {Q : β → State → Prop}
    (h : R.Visits (f s) s Q) : R.Visits (MonadStateOf.get >>= f) s Q := h

/-- A walk through a part and then on with the whole. -/
lemma Visits.andThen {part : CheckM (Visited π α)} {whole : π → ν}
    {next : π → α → CheckM (Visited ν β)} {Q : α → State → Prop} {Q' : β → State → Prop}
    (h : R.Visits part s Q)
    (h' : ∀ p a s', R.Keeps s s' → Q a s' → R.Visits (next p a) s' Q') :
    R.Visits (part.andThen whole next) s Q' := by
  refine Runs.bind h fun r s' k hr => ?_
  obtain ⟨p, e | a⟩ := r
  · exact Runs.pure hr
  · exact h' p a s' k hr

/-- A step and then on with the walk. -/
lemma Visits.orFail {step : CheckM (Verdict α)} {n : ν} {next : α → CheckM (Visited ν β)}
    {Q : α → State → Prop} {Q' : β → State → Prop} (h : R.Tries step s Q)
    (h' : ∀ a s', R.Keeps s s' → Q a s' → R.Visits (next a) s' Q') :
    R.Visits (step.orFail n next) s Q' := by
  refine Runs.bind h fun r s' k hr => ?_
  obtain e | a := r
  · exact Runs.pure hr
  · exact h' a s' k hr

/-- What a walk from a valid state has done. -/
lemma Visits.ensures {x : CheckM (Visited ν α)} {Q : α → State → Prop} (h : R.Visits x s Q)
    (v : R.Valid s) : Ensures x s (fun _ a s' => R.Keeps s s' ∧ Q a s') R.Fails := by
  have keeps := h v
  rw [Ensures]
  revert keeps
  obtain ⟨⟨n, _ | a⟩, s'⟩ := x s
  · exact fun h => h.2
  · exact id

end Regime

/-! ## Disciplines. -/

/-- A regime to which all steps of a walk keep: types that belong to a state can be unified, and what a step
finds belongs to the state after it. -/
structure Discipline extends Regime where
  /-- The declarations that may be looked up. -/
  Mentions : Nat → Prop
  /-- Whether there may be products. -/
  Products : Prop
  ground : ∀ {s t}, t.isConcrete = true → Owns t s
  set : ∀ {s t}, Owns t s → Owns (.set t) s
  couple : ∀ {s l r}, Owns l s → Owns r s → Owns (.couple l r) s
  record : ∀ {s fields}, Owns (.record fields) s ↔ ∀ f ∈ fields, Owns f.2 s
  head : ∀ {s t u}, Valid s → s.unifier.store.head? t = some u → Owns t s → Owns u s
  headless : ∀ {s t}, Valid s → s.unifier.store.head? t = none → Fails .divergence
  refuses : ∀ {e}, e.isMismatch = false → Fails (.error e)
  fresh : ∀ {s}, toRegime.Runs State.fresh s (Ty.Tracked toRegime)
  choice : ∀ {s}, toRegime.Runs (State.fresh >>= fun elem => State.allocate (.setOrInteger elem)) s
    (Ty.Tracked toRegime)
  allocate : ∀ {s c}, Products → c.Unbound → (∀ t ∈ c.contents, Owns t s) →
    toRegime.Runs (State.allocate c) s (Ty.Tracked toRegime)
  lookUp : ∀ {s id}, Mentions id →
    toRegime.Runs (declaredType id) s fun o s' => ∀ t ∈ o, t.Tracked toRegime s'
  report : ∀ {s} e, toRegime.Runs (State.report e) s fun _ _ => True
  resolve : ∀ {s} t, toRegime.Tries (State.resolve t) s fun _ _ => True
  unifyAt : ∀ {s} site {l r}, Owns l s → Owns r s →
    toRegime.Tries (State.unifyAt site l r) s (Ty.Tracked toRegime)
  linkAt : ∀ {s} site l r {link : ProductLink}, Products → (∀ t ∈ link.parts, Owns t s) →
    toRegime.Tries (State.linkAt site l r link) s fun _ _ => True

instance : Coe Discipline Regime := ⟨Discipline.toRegime⟩

namespace Ty

variable {D : Discipline} {s : State} {t l r : Ty}

lemma tracked_ground (h : t.isConcrete = true) : t.Tracked D s := D.ground h

lemma Tracked.set (h : t.Tracked D s) : (Ty.set t).Tracked D s := D.set h

lemma Tracked.couple (hl : l.Tracked D s) (hr : r.Tracked D s) : (Ty.couple l r).Tracked D s :=
  D.couple hl hr

lemma Tracked.relation (hl : l.Tracked D s) (hr : r.Tracked D s) : (Ty.relation l r).Tracked D s :=
  (hl.couple hr).set

lemma tracked_record {fields : List (String × Ty)} :
    (Ty.record fields).Tracked D s ↔ ∀ f ∈ fields, f.2.Tracked D s := D.record

lemma tracked_of_tuple? {ts : List Ty} (h : tuple? ts = some t) (hs : ∀ u ∈ ts, u.Tracked D s) :
    t.Tracked D s := by
  cases ts with
  | nil => cases h
  | cons u ts =>
    rw [List.forall_mem_cons] at hs
    simp only [tuple?, Option.some.injEq] at h
    subst h
    induction ts generalizing u with
    | nil => exact hs.1
    | cons x ts ih =>
      have rest := List.forall_mem_cons.1 hs.2
      exact ih (.couple u x) ⟨hs.1.couple rest.1, rest.2⟩

end Ty

/-- If the parameters of a shape and the whole belong to a state, so does the shape. -/
lemma Shape.tracked_instantiate {D : Discipline} {s : State} {ps : List Ty} {whole : Ty}
    (shape : Shape) (hps : ∀ p ∈ ps, p.Tracked D s) (hw : whole.Tracked D s) :
    (shape.instantiate ps whole).Tracked D s := by
  induction shape with
  | param i =>
    rw [instantiate, List.getD_eq_getElem?_getD]
    cases hi : ps[i]? with
    | none => exact hw
    | some p => exact hps p (List.mem_of_getElem? hi)
  | whole => exact hw
  | integer | bool | string => exact Ty.tracked_ground rfl
  | set _ ih => exact ih.set
  | couple _ _ ihl ihr => exact ihl.couple ihr

namespace Discipline

variable {D : Discipline} {s : State}

/-! ## Steps. -/

lemma freshList (n : Nat) :
    D.Runs (State.freshList n) s fun ts s' => ∀ t ∈ ts, t.Tracked D s' := by
  induction n generalizing s with
  | zero => exact .pure fun _ ht => by cases ht
  | succ n ih =>
    refine .bind D.fresh fun t s₁ k ht => .bind ih fun ts s₂ k' hts => .pure ?_
    exact List.forall_mem_cons.2 ⟨ht.mono k', hts⟩

lemma declaredTypes {ids : List Nat} (h : ∀ id ∈ ids, D.Mentions id) :
    D.Runs (State.declaredTypes ids) s fun ts s' => ∀ t ∈ ts, t.Tracked D s' := by
  induction ids generalizing s with
  | nil => exact .pure fun _ ht => by cases ht
  | cons id ids ih =>
    rw [List.forall_mem_cons] at h
    refine .bind (D.lookUp h.1) fun t s₁ k ht => .bind (ih h.2) fun ts s₂ k' hts => .pure ?_
    intro u hu
    obtain hu | hu := List.mem_append.1 hu
    · exact (ht u (Option.mem_toList.1 hu)).mono k'
    · exact hts u hu

lemma declare {ids : List Nat} (h : ∀ id ∈ ids, D.Mentions id) :
    D.Runs (State.declare ids) s fun _ _ => True :=
  fun v => ⟨(D.declaredTypes h v).1, trivial⟩

lemma declaredOrFresh {id : Nat} (h : D.Mentions id) :
    D.Runs (State.declaredOrFresh id) s (Ty.Tracked D) := by
  refine .bind (D.lookUp h) fun t s' k ht => ?_
  cases t with
  | none => exact D.fresh
  | some t => exact .pure (ht t rfl)

lemma identifierType {id : Nat} (h : D.Mentions id) (name : String) :
    D.Runs (State.identifierType id name) s (Ty.Tracked D) := by
  refine .bind (D.lookUp h) fun t s' k ht => ?_
  cases t with
  | none => exact .bind (D.report _) fun _ _ _ _ => D.fresh
  | some t => exact .pure (ht t rfl)

lemma boundTuple (site : Site) {ids : List Nat} (h : ∀ id ∈ ids, D.Mentions id) :
    D.Tries (BMethod.boundTuple site ids) s (Ty.Tracked D) := by
  refine Regime.Runs.bind (D.declaredTypes h) fun ts s' k hts => ?_
  split
  · rename_i t ht
    exact .pure (Ty.tracked_of_tuple? ht hts)
  · exact .pure (D.refuses rfl)

lemma settleExpr (e : Expr) {expected found : Ty} (he : expected.Tracked D s)
    (hf : found.Tracked D s) : D.Visits (e.settle expected found) s (Ty.Tracked D) :=
  .orFail (D.unifyAt _ he hf) fun _ _ _ ht => .done ht

lemma settlePred (p : Pred) {expected found : Ty} (he : expected.Tracked D s)
    (hf : found.Tracked D s) : D.Visits (p.settle expected found) s (Ty.Tracked D) :=
  .orFail (D.unifyAt _ he hf) fun _ _ _ ht => .done ht

end Discipline

/-! ## Operators. -/

section

variable {D : Discipline} {n : Note} {op : Operator} {args : List Expr} {expected : Ty}
  {s : State}

/-- Walks through operands that move orderly states. -/
structure OperandWalks.Follow (D : Discipline) (walks : OperandWalks) : Prop where
  forward : ∀ s ts, (∀ t ∈ ts, t.Tracked D s) → D.Visits (walks.forward ts) s fun _ _ => True
  backward : ∀ s ts, (∀ t ∈ ts, t.Tracked D s) → D.Visits (walks.backward ts) s fun _ _ => True
  chain : ∀ s t, t.Tracked D s → D.Visits (walks.chain t) s (Ty.Tracked D)
  apart : ∀ s, D.Visits walks.apart s fun ts s' => ∀ t ∈ ts, t.Tracked D s'
  call : ∀ s t, t.Tracked D s → D.Visits (walks.call t) s fun _ _ => True

variable {walks : OperandWalks}

lemma Expr.visits_withOperands {α : Type} {count : Nat} {walk : CheckM (Visited (List Expr) α)}
    {next : List Expr → α → CheckM (Visited Expr Ty)} {Q : α → State → Prop}
    (h : D.Visits walk s Q)
    (h' : ∀ args a s', D.Keeps s s' → Q a s' → D.Visits (next args a) s' (Ty.Tracked D)) :
    D.Visits (withOperands n op args count walk next) s (Ty.Tracked D) := by
  rw [withOperands]
  split
  · exact .andThen h h'
  · exact .fail (D.refuses rfl)

lemma Expr.visits_resultFirst {result : Ty} {count : Nat}
    {walk : Ty → CheckM (Visited (List Expr) Unit)} (he : expected.Tracked D s)
    (hr : result.Tracked D s)
    (h : ∀ t s', D.Keeps s s' → t.Tracked D s' → D.Visits (walk t) s' fun _ _ => True) :
    D.Visits (resultFirst n op args expected result count walk) s (Ty.Tracked D) :=
  .orFail (D.unifyAt _ he hr) fun t s₁ m ht =>
    visits_withOperands (h t s₁ m ht) fun _ _ _ m' _ => .done (ht.mono m')

lemma Signature.visits_check (sig : Signature) (h : walks.Follow D) (he : expected.Tracked D s) :
    D.Visits (sig.check n op args expected walks) s (Ty.Tracked D) := by
  refine .bind (D.freshList _) fun ps s₁ m hps => ?_
  have he := he.mono m
  have hr := sig.result.tracked_instantiate hps he
  have operands (t : Ty) (s' : State) (m : D.Keeps s₁ s') (ht : t.Tracked D s') :
      ∀ u ∈ sig.operands.map (Shape.instantiate ps t), u.Tracked D s' := fun u hu => by
    obtain ⟨shape, -, rfl⟩ := List.mem_map.1 hu
    exact shape.tracked_instantiate (Ty.Tracked.all_mono hps m) ht
  cases sig.order with
  | forward =>
    exact Expr.visits_resultFirst he hr fun t s' m ht => h.forward s' _ (operands t s' m ht)
  | backward =>
    exact Expr.visits_resultFirst he hr fun t s' m ht => h.backward s' _ (operands t s' m ht)
  | inward =>
    exact Expr.visits_withOperands (h.forward s₁ _ (operands expected s₁ (D.refl (D.valid m)) he))
      fun _ _ _ m' _ => D.settleExpr _ (he.mono m') (hr.mono m')

lemma Rule.visits_checkDifference (h : walks.Follow D) (he : expected.Tracked D s) :
    D.Visits (checkDifference n op args expected walks) s (Ty.Tracked D) := by
  rw [checkDifference, ← bind_assoc]
  refine .bind D.choice fun found s₁ m₁ hfound => ?_
  refine Expr.visits_resultFirst (he.mono m₁) hfound fun t s' _ ht => ?_
  exact h.forward s' _ (by simpa using ht)

lemma Rule.visits_checkProduct (products : D.Products) (h : walks.Follow D) (he : expected.Tracked D s) :
    D.Visits (checkProduct n op args expected walks) s (Ty.Tracked D) := by
  refine .bind D.fresh fun l s₁ m₁ hl => .bind D.fresh fun r s₂ m₂ hr => ?_
  have hl := hl.mono m₂
  refine .bind (D.allocate products (fun t h => by cases h) fun t ht => ?_) fun found s₃ m₃ hfound => ?_
  · obtain rfl | ht := List.mem_cons.1 ht
    · exact hl
    · rwa [List.mem_singleton.1 ht]
  have hl := hl.mono m₃
  have hr := hr.mono m₃
  have he := ((he.mono m₁).mono m₂).mono m₃
  refine .orFail (D.unifyAt _ he hfound) fun t s₄ m₄ ht => ?_
  have hl := hl.mono m₄
  refine .bind (D.allocate products (fun t h => by cases h) fun t ht => ?_) fun left s₅ m₅ hleft => ?_
  · rwa [List.mem_singleton.1 ht]
  have hr := (hr.mono m₄).mono m₅
  refine .bind (D.allocate products (fun t h => by cases h) fun t ht => ?_) fun right s₆ m₆ hright => ?_
  · rwa [List.mem_singleton.1 ht]
  have ht := (ht.mono m₅).mono m₆
  have hleft := hleft.mono m₆
  refine .orFail (D.linkAt _ _ _ products ?_) fun _ s₇ m₇ _ => ?_
  · simp only [ProductLink.parts, List.forall_mem_cons]
    exact ⟨ht, hleft, hright, (hl.mono m₅).mono m₆, hr.mono m₆, fun _ h => by cases h⟩
  · refine Expr.visits_withOperands (h.forward s₇ _ ?_) fun _ _ _ m₈ _ => .done ((ht.mono m₇).mono m₈)
    exact List.forall_mem_cons.2 ⟨hleft.mono m₇, by simpa using hright.mono m₇⟩

lemma Rule.visits_checkPair (h : walks.Follow D) (he : expected.Tracked D s) :
    D.Visits (checkPair n op args expected walks) s (Ty.Tracked D) := by
  refine Expr.visits_withOperands (h.apart s) fun args ts s' m hts => ?_
  split
  · rename_i t ht
    exact D.settleExpr _ (he.mono m) (Ty.tracked_of_tuple? ht hts)
  · exact .fail (D.refuses rfl)

lemma Rule.visits_checkEnumeration (shape : Shape) (h : walks.Follow D)
    (he : expected.Tracked D s) :
    D.Visits (checkEnumeration n op args expected walks shape) s (Ty.Tracked D) := by
  refine .bind D.fresh fun elem s₁ m₁ helem => ?_
  have he := he.mono m₁
  refine .orFail (D.unifyAt _ he (shape.tracked_instantiate (by simpa using helem) he))
    fun t s₂ m₂ ht => ?_
  exact .andThen (h.chain s₂ _ (helem.mono m₂)) fun _ _ _ m₃ _ => .done (ht.mono m₃)

lemma Rule.visits_checkApplication (h : walks.Follow D) (he : expected.Tracked D s) :
    D.Visits (checkApplication n op args expected walks) s (Ty.Tracked D) := by
  simp only [checkApplication]
  split
  · exact .fail (D.refuses rfl)
  · refine .bind D.fresh fun result s₁ m₁ hresult => ?_
    exact .andThen (h.call s₁ _ hresult) fun _ _ _ m₂ _ =>
      D.settleExpr _ ((he.mono m₁).mono m₂) (hresult.mono m₂)

lemma Operator.eq_mult_of_rule (h : op.rule = .product) : op = .mult := by
  cases op <;> first | rfl | cases h

/-- An operator does what the walks through its operands do. -/
lemma Operator.visits_check (products : op = .mult → D.Products) (h : walks.Follow D)
    (he : expected.Tracked D s) : D.Visits (op.check n args expected walks) s (Ty.Tracked D) := by
  rw [check]
  cases rule : op.rule with
  | fixed sig => exact sig.visits_check h he
  | constant params shape =>
    exact .bind (D.freshList _) fun ps s₁ m hps =>
      D.settleExpr _ (he.mono m) (shape.tracked_instantiate hps (he.mono m))
  | difference => exact Rule.visits_checkDifference h he
  | product => exact Rule.visits_checkProduct (products (eq_mult_of_rule rule)) h he
  | pair => exact Rule.visits_checkPair h he
  | enumeration shape => exact Rule.visits_checkEnumeration shape h he
  | application => exact Rule.visits_checkApplication h he

end

/-! ## Trees. -/

/-- Walking through the node keeps to the discipline, and its type belongs to the state. -/
def Node.Follows (D : Discipline) : Node → Prop
  | .expr e => ∀ s expected, expected.Tracked D s → D.Visits (e.check expected) s (Ty.Tracked D)
  | .pred p => ∀ s expected, expected.Tracked D s → D.Visits (p.check expected) s (Ty.Tracked D)
  | _ => True

variable {D : Discipline} {s : State}

namespace Expr

variable {es : List Expr} {fields : List (FieldLabel × Expr)}

lemma visits_checkForward (h : ∀ e ∈ es, (Node.expr e).Follows D) (s : State) (ts : List Ty)
    (hts : ∀ t ∈ ts, t.Tracked D s) : D.Visits (checkForward es ts) s fun _ _ => True := by
  induction es generalizing ts s with
  | nil => exact .done trivial
  | cons e es ih =>
    rw [List.forall_mem_cons] at h
    obtain _ | ⟨t, ts⟩ := ts
    · exact .done trivial
    · rw [List.forall_mem_cons] at hts
      rw [checkForward]
      exact .andThen (h.1 s t hts.1) fun _ _ s' m _ =>
        .andThen (ih h.2 s' ts (Ty.Tracked.all_mono hts.2 m)) fun _ _ _ _ _ => .done trivial

lemma visits_checkBackward (h : ∀ e ∈ es, (Node.expr e).Follows D) (s : State) (ts : List Ty)
    (hts : ∀ t ∈ ts, t.Tracked D s) : D.Visits (checkBackward es ts) s fun _ _ => True := by
  induction es generalizing ts s with
  | nil => exact .done trivial
  | cons e es ih =>
    rw [List.forall_mem_cons] at h
    obtain _ | ⟨t, ts⟩ := ts
    · exact .done trivial
    · rw [List.forall_mem_cons] at hts
      rw [checkBackward]
      exact .andThen (ih h.2 s ts hts.2) fun _ _ s' m _ =>
        .andThen (h.1 s' t (hts.1.mono m)) fun _ _ _ _ _ => .done trivial

lemma visits_checkChain (h : ∀ e ∈ es, (Node.expr e).Follows D) (s : State) (t : Ty)
    (ht : t.Tracked D s) : D.Visits (checkChain es t) s (Ty.Tracked D) := by
  induction es generalizing t s with
  | nil => exact .done ht
  | cons e es ih =>
    rw [List.forall_mem_cons] at h
    rw [checkChain]
    exact .andThen (h.1 s t ht) fun _ t s' _ ht => .andThen (ih h.2 s' t ht) fun _ _ _ _ ht => .done ht

lemma visits_checkApart (h : ∀ e ∈ es, (Node.expr e).Follows D) (s : State) :
    D.Visits (checkApart es) s fun ts s' => ∀ t ∈ ts, t.Tracked D s' := by
  induction es generalizing s with
  | nil => exact .done fun _ ht => by cases ht
  | cons e es ih =>
    rw [List.forall_mem_cons] at h
    rw [checkApart]
    refine .bind D.fresh fun t s₁ _ ht => .andThen (h.1 s₁ t ht) fun _ u s₂ _ hu => ?_
    exact .andThen (ih h.2 s₂) fun _ us s₃ m hus => .done (List.forall_mem_cons.2 ⟨hu.mono m, hus⟩)

lemma visits_checkCall (h : ∀ e ∈ es, (Node.expr e).Follows D) (site : Site) (s : State) (t : Ty)
    (ht : t.Tracked D s) : D.Visits (checkCall site es t) s fun _ _ => True := by
  cases es with
  | nil => exact .done trivial
  | cons f args =>
    rw [List.forall_mem_cons] at h
    rw [checkCall]
    refine .andThen (visits_checkApart h.2 s) fun args ts s' m hts => ?_
    split
    · exact .fail (D.refuses rfl)
    · rename_i domain hd
      exact .andThen (h.1 s' _ ((Ty.tracked_of_tuple? hd hts).relation (ht.mono m)))
        fun _ _ _ _ _ => .done trivial

lemma visits_checkRecord (labels : ∀ f ∈ fields, D.Mentions f.1.decl)
    (h : ∀ f ∈ fields, (Node.expr f.2).Follows D) (s : State) :
    D.Visits (checkRecord fields) s fun fs s' => ∀ f ∈ fs, f.2.Tracked D s' := by
  induction fields generalizing s with
  | nil => exact .done fun _ hf => by cases hf
  | cons f fields ih =>
    obtain ⟨label, e⟩ := f
    rw [List.forall_mem_cons] at h labels
    rw [checkRecord]
    refine .bind (D.declaredOrFresh labels.1) fun t s₁ _ ht => ?_
    refine .andThen (h.1 s₁ t ht) fun _ u s₂ _ hu => ?_
    exact .andThen (ih labels.2 h.2 s₂) fun _ fs s₃ m hfs =>
      .done (List.forall_mem_cons.2 ⟨hu.mono m, hfs⟩)

lemma visits_checkStruct (labels : ∀ f ∈ fields, D.Mentions f.1.decl)
    (h : ∀ f ∈ fields, (Node.expr f.2).Follows D) (s : State) :
    D.Visits (checkStruct fields) s fun fs s' => ∀ f ∈ fs, f.2.Tracked D s' := by
  induction fields generalizing s with
  | nil => exact .done fun _ hf => by cases hf
  | cons f fields ih =>
    obtain ⟨label, e⟩ := f
    rw [List.forall_mem_cons] at h labels
    rw [checkStruct]
    refine .bind (D.declaredOrFresh labels.1) fun t s₁ _ ht => ?_
    refine .andThen (h.1 s₁ _ ht.set) fun _ _ s₂ m₂ _ => ?_
    exact .andThen (ih labels.2 h.2 s₂) fun _ fs s₃ m hfs =>
      .done (List.forall_mem_cons.2 ⟨(ht.mono m₂).mono m, hfs⟩)

lemma visits_checkCompared {op : Comparison} {l r : Expr} (hl : (Node.expr l).Follows D)
    (hr : (Node.expr r).Follows D) (s : State) :
    D.Visits (checkCompared op [l, r]) s fun _ _ => True := by
  cases op with
  | equal | notEqual =>
    exact .bind D.fresh fun t s₁ _ ht => .andThen (hr s₁ t ht) fun _ u s₂ _ hu =>
      .andThen (hl s₂ u hu) fun _ _ _ _ _ => .done trivial
  | elementOf | notBelonging =>
    exact .bind D.fresh fun t s₁ _ ht => .andThen (hl s₁ t ht) fun _ u s₂ _ hu =>
      .andThen (hr s₂ _ hu.set) fun _ _ _ _ _ => .done trivial
  | less | lessEqual | greater | greaterEqual =>
    have integer (s : State) : Ty.integer.Tracked D s := Ty.tracked_ground rfl
    exact .andThen (hl s _ (integer s)) fun _ _ s₁ _ _ =>
      .andThen (hr s₁ _ (integer s₁)) fun _ _ _ _ _ => .done trivial
  | inclusion | nonInclusion | strictInclusion | strictNonInclusion =>
    exact .bind D.fresh fun t s₁ _ ht => .andThen (hl s₁ _ ht.set) fun _ u s₂ _ hu =>
      .andThen (hr s₂ u hu) fun _ _ _ _ _ => .done trivial

/-- An expression does what looking up its declarations and walking through its parts do. -/
lemma visit_of_children {e : Expr} (mentions : ∀ id ∈ e.mentions, D.Mentions id)
    (products : (Node.expr e).isProduct = true → D.Products)
    (ih : ∀ c ∈ e.children, c.Follows D) : (Node.expr e).Follows D := by
  intro s expected he
  have bool (s : State) : Ty.bool.Tracked D s := Ty.tracked_ground rfl
  cases e with
  | identifier n decl name =>
    exact .bind (D.identifierType (mentions decl (by simp [Expr.mentions])) name)
      fun _ _ m ht => D.settleExpr _ (he.mono m) ht
  | integer | real | string => exact D.settleExpr _ he (Ty.tracked_ground rfl)
  | apply n op args =>
    have args (a : Expr) (ha : a ∈ args) : (Node.expr a).Follows D :=
      ih _ (List.mem_map.2 ⟨a, ha, rfl⟩)
    rw [check]
    exact Operator.visits_check (by simpa [Node.isProduct] using products) ⟨visits_checkForward args, visits_checkBackward args,
      visits_checkChain args, visits_checkApart args, visits_checkCall args _⟩ he
  | aggregate n op bound pred body =>
    simp only [children, List.forall_mem_cons] at ih
    have type (s : State) : D.Runs op.type s (Ty.Tracked D) := by
      cases op with
      | sigma | pi => exact .pure (Ty.tracked_ground rfl)
      | union | inter => exact .bind D.fresh fun _ _ _ ht => .pure ht.set
    rw [check]
    refine .bind (D.declare mentions) fun _ s₁ m₁ _ => .andThen (ih.1 s₁ _ (bool s₁)) fun _ _ s₂ m₂ _ => ?_
    refine .bind (type s₂) fun found s₃ m₃ hf => ?_
    refine .orFail (D.unifyAt _ (((he.mono m₁).mono m₂).mono m₃) hf) fun t s₄ _ ht => ?_
    exact .andThen (ih.2.1 s₄ t ht) fun _ _ _ m _ => .done (ht.mono m)
  | comprehension n bound pred =>
    simp only [children, List.forall_mem_cons] at ih
    rw [check]
    refine .bind (D.declare mentions) fun _ s₁ m₁ _ => .andThen (ih.1 s₁ _ (bool s₁)) fun _ _ s₂ m₂ _ => ?_
    exact .orFail (D.boundTuple _ mentions) fun _ _ m₃ ht =>
      D.settleExpr _ (((he.mono m₁).mono m₂).mono m₃) ht.set
  | lambda n bound pred body =>
    simp only [children, List.forall_mem_cons] at ih
    rw [check]
    refine .bind (D.declare mentions) fun _ s₁ m₁ _ => .andThen (ih.1 s₁ _ (bool s₁)) fun _ _ s₂ m₂ _ => ?_
    refine .orFail (D.boundTuple _ mentions) fun domain s₃ m₃ hd => .bind D.fresh fun t s₄ m₄ ht => ?_
    refine .andThen (ih.2.1 s₄ t ht) fun _ u s₅ m₅ hu => ?_
    exact D.settleExpr _ (((((he.mono m₁).mono m₂).mono m₃).mono m₄).mono m₅)
      (((hd.mono m₄).mono m₅).relation hu)
  | ite n cond yes no =>
    simp only [children, List.forall_mem_cons] at ih
    rw [check]
    refine .andThen (ih.1 s _ (bool s)) fun _ _ s₁ m₁ _ => .bind D.fresh fun t s₂ m₂ ht => ?_
    refine .andThen (ih.2.1 s₂ t ht) fun _ t s₃ m₃ ht => ?_
    exact .andThen (ih.2.2.1 s₃ t ht) fun _ _ _ m₄ ht =>
      D.settleExpr _ ((((he.mono m₁).mono m₂).mono m₃).mono m₄) ht
  | letIn n bound pred body =>
    simp only [children, List.forall_mem_cons] at ih
    rw [check]
    refine .bind (D.declare mentions) fun _ s₁ m₁ _ => .andThen (ih.1 s₁ _ (bool s₁)) fun _ _ s₂ m₂ _ => ?_
    refine .bind D.fresh fun t s₃ m₃ ht => .andThen (ih.2.1 s₃ t ht) fun _ u s₄ m₄ hu => ?_
    exact D.settleExpr _ ((((he.mono m₁).mono m₂).mono m₃).mono m₄) hu
  | record n fields =>
    have labels (f : FieldLabel × Expr) (hf : f ∈ fields) : D.Mentions f.1.decl :=
      mentions _ (List.mem_map.2 ⟨f, hf, rfl⟩)
    have values (f : FieldLabel × Expr) (hf : f ∈ fields) : (Node.expr f.2).Follows D :=
      ih _ (List.mem_map.2 ⟨f, hf, rfl⟩)
    rw [check]
    exact .andThen (visits_checkRecord labels values s) fun _ _ _ m hfs =>
      D.settleExpr _ (he.mono m) (Ty.tracked_record.2 hfs)
  | struct n fields =>
    have labels (f : FieldLabel × Expr) (hf : f ∈ fields) : D.Mentions f.1.decl :=
      mentions _ (List.mem_map.2 ⟨f, hf, rfl⟩)
    have values (f : FieldLabel × Expr) (hf : f ∈ fields) : (Node.expr f.2).Follows D :=
      ih _ (List.mem_map.2 ⟨f, hf, rfl⟩)
    rw [check]
    exact .andThen (visits_checkStruct labels values s) fun _ _ _ m hfs =>
      D.settleExpr _ (he.mono m) (Ty.tracked_record.2 hfs).set
  | field n target name =>
    simp only [children, List.forall_mem_cons] at ih
    rw [check]
    refine .bind D.fresh fun t s₁ m₁ ht => .andThen (ih.1 s₁ t ht) fun target t s₂ m₂ ht => ?_
    refine Regime.Visits.get ?_
    split
    · rename_i none
      exact .pure (D.headless (D.valid m₂) none)
    · rename_i fields head
      split
      · rename_i found field
        have tracked := Ty.tracked_record.1 (D.head (D.valid m₂) head ht)
        exact D.settleExpr _ ((he.mono m₁).mono m₂) (tracked _ (Ty.mem_of_field? field))
      · exact .orFail (D.resolve _) fun _ _ _ _ => .fail (D.refuses rfl)
    · exact .orFail (D.resolve _) fun _ _ _ _ => .fail (D.refuses rfl)
  | bool n pred =>
    simp only [children, List.forall_mem_cons] at ih
    rw [check]
    exact .andThen (ih.1 s _ (bool s)) fun _ _ _ m _ => D.settleExpr _ (he.mono m) (bool _)

end Expr

namespace Pred

lemma visits_checkAll {ps : List Pred} (h : ∀ p ∈ ps, (Node.pred p).Follows D) (s : State) :
    D.Visits (checkAll ps) s fun _ _ => True := by
  induction ps generalizing s with
  | nil => exact .done trivial
  | cons p ps ih =>
    rw [List.forall_mem_cons] at h
    rw [checkAll]
    exact .andThen (h.1 s _ (Ty.tracked_ground rfl)) fun _ _ s' _ _ =>
      .andThen (ih h.2 s') fun _ _ _ _ _ => .done trivial

/-- A predicate does what looking up its declarations and walking through its parts do. -/
lemma visit_of_children {p : Pred} (mentions : ∀ id ∈ p.mentions, D.Mentions id)
    (ih : ∀ c ∈ p.children, c.Follows D) : (Node.pred p).Follows D := by
  intro s expected he
  have bool (s : State) : Ty.bool.Tracked D s := Ty.tracked_ground rfl
  cases p with
  | connective n op args =>
    have args (a : Pred) (ha : a ∈ args) : (Node.pred a).Follows D :=
      ih _ (List.mem_map.2 ⟨a, ha, rfl⟩)
    rw [check]
    exact .orFail (D.unifyAt _ he (bool s)) fun _ s₁ _ ht =>
      .andThen (visits_checkAll args s₁) fun _ _ _ m _ => .done (ht.mono m)
  | comparison n op args =>
    rw [check]
    refine .orFail (D.unifyAt _ he (bool s)) fun t s₁ _ ht => ?_
    split
    · rename_i len
      obtain ⟨l, r, rfl⟩ := List.length_eq_two.1 len
      simp only [children, List.map_cons, List.forall_mem_cons] at ih
      exact .andThen (Expr.visits_checkCompared ih.1 ih.2.1 s₁) fun _ _ _ m _ => .done (ht.mono m)
    · exact .fail (D.refuses rfl)
  | identifier n decl name =>
    exact .bind (D.identifierType (mentions decl (by simp [Pred.mentions])) name)
      fun _ _ m ht => D.settlePred _ (he.mono m) ht
  | quantified n op bound pred =>
    simp only [children, List.forall_mem_cons] at ih
    rw [check]
    exact .bind (D.declare mentions) fun _ s₁ m₁ _ => .andThen (ih.1 s₁ _ (bool s₁))
      fun _ _ s₂ m₂ _ => D.settlePred _ ((he.mono m₁).mono m₂) (bool s₂)
  | ite n cond yes no =>
    simp only [children, List.forall_mem_cons] at ih
    rw [check]
    exact .andThen (ih.1 s _ (bool s)) fun _ _ s₁ m₁ _ => .andThen (ih.2.1 s₁ _ (bool s₁))
      fun _ _ s₂ m₂ _ => .andThen (ih.2.2.1 s₂ _ (bool s₂)) fun _ _ s₃ m₃ _ =>
        D.settlePred _ (((he.mono m₁).mono m₂).mono m₃) (bool s₃)
  | letIn n bound defs body =>
    simp only [children, List.forall_mem_cons] at ih
    rw [check]
    exact .bind (D.declare mentions) fun _ s₁ m₁ _ => .andThen (ih.1 s₁ _ (bool s₁))
      fun _ _ s₂ m₂ _ => .andThen (ih.2.1 s₂ _ (bool s₂)) fun _ _ s₃ m₃ _ =>
        D.settlePred _ (((he.mono m₁).mono m₂).mono m₃) (bool s₃)

end Pred

/-- The declarations that the nodes of a tree mention. -/
def Node.Mentions (n : Node) (id : Nat) : Prop := ∃ m ∈ n.preorder, id ∈ m.mentions

/-- What a part mentions the whole mentions. -/
lemma Node.Mentions.of_child {n c : Node} {id : Nat} (hc : c ∈ n.children) (h : c.Mentions id) :
    n.Mentions id := by
  obtain ⟨m, hm, hid⟩ := h
  refine ⟨m, ?_, hid⟩
  rw [preorder_eq]
  exact .tail _ (List.mem_flatMap.2 ⟨c, hc, hm⟩)

lemma Node.mentions_of_root {n : Node} {id : Nat} (h : id ∈ n.mentions) : n.Mentions id :=
  ⟨n, n.self_mem_preorder, h⟩

/-- Walking through a tree keeps to the discipline, if this allows for what the nodes of the tree mention and
for its products. -/
theorem Node.follows (D : Discipline) {n : Node} (mentions : ∀ id, n.Mentions id → D.Mentions id)
    (products : ∀ m ∈ n.preorder, m.isProduct = true → D.Products) : n.Follows D := by
  induction n using Node.induction with
  | step n ih =>
    have parts (c : Node) (hc : c ∈ n.children) : c.Follows D :=
      ih c hc (fun id hid => mentions id (hid.of_child hc)) fun m hm => products m (by
        rw [preorder_eq]
        exact .tail _ (List.mem_flatMap.2 ⟨c, hc, hm⟩))
    have root (id : Nat) (hid : id ∈ n.mentions) : D.Mentions id := mentions id (mentions_of_root hid)
    cases n with
    | expr e => exact Expr.visit_of_children root (products _ (self_mem_preorder _)) parts
    | pred p => exact Pred.visit_of_children root parts
    | substitution | ltl => trivial

end BMethod
