import BMethod.Proofs.Recheck.State

/-!
# The second check follows the first

What a computation of the first check does is given by the state to which it comes; that the second check
follows it with some computation is said by `Follows`, and by `Tries` and `Visits` if the first has
succeeded. Computations that follow each other part by part follow each other as a whole. The steps of a
check on tied types follow each other, and what they give is tied.
-/

namespace BMethod

open State

/-! ## What has succeeded. -/

namespace CheckM

variable {ν π α β : Type} {s s' : State}

lemma bind_eq {x : CheckM α} {f : α → CheckM β} {r : β × State} :
    (x >>= f) s = r ↔ ∃ a s₁, x s = (a, s₁) ∧ f a s₁ = r := by
  constructor
  · exact fun h => ⟨_, _, rfl, h⟩
  · rintro ⟨a, s₁, hx, hf⟩
    show f (x s).1 (x s).2 = r
    rw [hx]
    exact hf

lemma andThen_eq_ok {part : CheckM (Visited π α)} {whole : π → ν}
    {next : π → α → CheckM (Visited ν β)} {n : ν} {b : β} :
    part.andThen whole next s = ((n, .ok b), s') ↔
      ∃ p a s₁, part s = ((p, .ok a), s₁) ∧ next p a s₁ = ((n, .ok b), s') := by
  rw [run_andThen]
  obtain ⟨⟨p, e | a⟩, s₁⟩ := part s
  · exact ⟨nofun, nofun⟩
  · constructor
    · exact fun h => ⟨p, a, s₁, rfl, h⟩
    · rintro ⟨_, _, _, ⟨⟩, h⟩
      exact h

lemma orFail_eq_ok {step : CheckM (Verdict α)} {m n : ν} {next : α → CheckM (Visited ν β)} {b : β} :
    step.orFail m next s = ((n, .ok b), s') ↔
      ∃ a s₁, step s = (.ok a, s₁) ∧ next a s₁ = ((n, .ok b), s') := by
  rw [run_orFail]
  obtain ⟨e | a, s₁⟩ := step s
  · exact ⟨nofun, nofun⟩
  · constructor
    · exact fun h => ⟨a, s₁, rfl, h⟩
    · rintro ⟨_, _, ⟨⟩, h⟩
      exact h

end CheckM

namespace Duo

/-! ## Following. -/

section

variable {ν π α β : Type} (w : World) (known : Nat → Bool)

/-- Beside what brings the first state to the given one, the second check runs the computation, and `P`
holds of the states then and of the result. -/
def Follows (d : Duo) (x : CheckM α) (s₁ : State) (P : Duo → α → Prop) : Prop :=
  ∃ d₁ a, d₁.first = s₁ ∧ d.Runs w known x d₁ a ∧ P d₁ a

/-- The second check runs a step that succeeds. -/
def Tries (d : Duo) (x : CheckM (Verdict α)) (s₁ : State) (P : Duo → α → Prop) : Prop :=
  d.Follows w known x s₁ fun d₁ r => ∃ a, r = .ok a ∧ P d₁ a

/-- The second check runs a walk that succeeds. -/
def Visits (d : Duo) (x : CheckM (Visited ν α)) (s₁ : State) (P : Duo → ν → α → Prop) : Prop :=
  d.Follows w known x s₁ fun d₁ r => ∃ n a, r = (n, .ok a) ∧ P d₁ n a

variable {w known} {d : Duo} {s₁ s₂ : State}

lemma Follows.pure (h : d.Sound w known) {P : Duo → α → Prop} {a : α} (ha : P d a) :
    d.Follows w known (Pure.pure a) d.first P := ⟨d, a, rfl, .pure h a, ha⟩

lemma Follows.bind {x : CheckM α} {f : α → CheckM β} {P : Duo → α → Prop} {Q : Duo → β → Prop}
    (h : d.Follows w known x s₁ P)
    (h' : ∀ d₁ a, d.Goes w known d₁ → d₁.first = s₁ → P d₁ a → d₁.Follows w known (f a) s₂ Q) :
    d.Follows w known (x >>= f) s₂ Q := by
  obtain ⟨d₁, a, first, run, ha⟩ := h
  obtain ⟨d₂, b, second, run', hb⟩ := h' d₁ a run.toGoes first ha
  exact ⟨d₂, b, second, run.bind run', hb⟩

lemma Visits.done (h : d.Sound w known) {P : Duo → ν → α → Prop} {n : ν} {a : α} (ha : P d n a) :
    d.Visits w known (CheckM.done n a) d.first P := Follows.pure h ⟨n, a, rfl, ha⟩

lemma Visits.bind {x : CheckM α} {f : α → CheckM (Visited ν β)} {P : Duo → α → Prop}
    {Q : Duo → ν → β → Prop} (h : d.Follows w known x s₁ P)
    (h' : ∀ d₁ a, d.Goes w known d₁ → d₁.first = s₁ → P d₁ a → d₁.Visits w known (f a) s₂ Q) :
    d.Visits w known (x >>= f) s₂ Q := Follows.bind h h'

/-- A walk through a part and then on with the whole. -/
lemma Visits.andThen {part : CheckM (Visited π α)} {whole : π → ν}
    {next : π → α → CheckM (Visited ν β)} {P : Duo → π → α → Prop} {Q : Duo → ν → β → Prop}
    (h : d.Visits w known part s₁ P)
    (h' : ∀ d₁ p a, d.Goes w known d₁ → d₁.first = s₁ → P d₁ p a →
      d₁.Visits w known (next p a) s₂ Q) : d.Visits w known (part.andThen whole next) s₂ Q := by
  obtain ⟨d₁, _, first, run, p, a, rfl, ha⟩ := h
  obtain ⟨d₂, b, second, run', hb⟩ := h' d₁ p a run.toGoes first ha
  exact ⟨d₂, b, second, run.andThen run', hb⟩

/-- A step and then on with the walk. -/
lemma Visits.orFail {step : CheckM (Verdict α)} {n : ν} {next : α → CheckM (Visited ν β)}
    {P : Duo → α → Prop} {Q : Duo → ν → β → Prop} (h : d.Tries w known step s₁ P)
    (h' : ∀ d₁ a, d.Goes w known d₁ → d₁.first = s₁ → P d₁ a → d₁.Visits w known (next a) s₂ Q) :
    d.Visits w known (step.orFail n next) s₂ Q := by
  obtain ⟨d₁, _, first, run, a, rfl, ha⟩ := h
  obtain ⟨d₂, b, second, run', hb⟩ := h' d₁ a run.toGoes first ha
  exact ⟨d₂, b, second, run.orFail run', hb⟩

lemma Visits.mono {x : CheckM (Visited ν α)} {P Q : Duo → ν → α → Prop} (h : d.Visits w known x s₁ P)
    (imp : ∀ d₁ n a, d.Goes w known d₁ → P d₁ n a → Q d₁ n a) : d.Visits w known x s₁ Q := by
  obtain ⟨d₁, _, first, run, n, a, rfl, ha⟩ := h
  exact ⟨d₁, _, first, run, n, a, rfl, imp d₁ n a run.toGoes ha⟩

/-- To find what the second check does beside a step of the first, the world may be taken for one of the
state after the step. -/
lemma Sound.follows {ρ : Type} (h : d.Sound w known) (default : α) {x : CheckM ρ} (mk : α → ρ)
    (steps : d.first.Steps known s₁) {P : Duo → α → Prop}
    (step : w.Models s₁ → d.Abreast w → ∃ κ₁ s₁' a, let d₁ : Duo := ⟨κ₁, s₁, s₁'⟩
      x d.second = (mk a, s₁') ∧ d.Later w d₁ ∧ P d₁ a) :
    d.Follows w known x s₁ fun d₁ r => ∃ a, r = mk a ∧ (w.Models d₁.first → P d₁ a) := by
  -- If it is none, nothing is asked of the second state, which stays as it is.
  by_cases m : w.Models s₁
  · obtain ⟨κ₁, s₁', a, run, later, p⟩ := step m (h.abreast (steps.models w m))
    exact ⟨⟨κ₁, s₁, s₁'⟩, mk a, rfl, ⟨⟨steps, fun _ => later⟩, fun _ => run⟩, a, rfl, fun _ => p⟩
  · exact ⟨⟨d.coupling, s₁, d.second⟩, mk default, rfl,
      ⟨⟨steps, fun m' => absurd m' m⟩, fun m' => absurd m' m⟩, default, rfl, fun m' => absurd m' m⟩

end

variable {w : World} {known : Nat → Bool} {d d₁ : Duo} {t t' l r l' r' : Ty} {s₁ : State}

/-- The second check finds a type beside that which the first finds. -/
lemma Sound.follows_tie (h : d.Sound w known) {x : CheckM Ty} (steps : d.first.Steps known s₁)
    (scope : t.Scoped s₁.vars)
    (step : w.Models s₁ → d.Abreast w → ∃ κ₁ s₁' t', let d₁ : Duo := ⟨κ₁, s₁, s₁'⟩
      x d.second = (t', s₁') ∧ d.Later w d₁ ∧ d₁.Tied t t') :
    d.Follows w known x s₁ fun d₁ t' => d₁.Tie w t t' := by
  obtain ⟨d₁, t', rfl, runs, _, rfl, tied⟩ :=
    h.follows Ty.bool id steps (x := x) (P := fun d₁ => d₁.Tied t) step
  exact ⟨d₁, t', rfl, runs, scope, tied⟩

/-! ## New variables. -/

namespace Sound

variable (h : d.Sound w known)

include h

lemma fresh (run : State.fresh d.first = (t, s₁)) :
    d.Follows w known State.fresh s₁ fun d₁ t' => d₁.Tie w t t' := by
  rw [run_fresh] at run
  cases run
  refine h.follows_tie h.inv.fresh (by simp [Ty.Scoped]) fun m ab => ?_
  obtain ⟨κ₁, later, tied⟩ := ab.grow_free
  exact ⟨κ₁, _, _, run_fresh _, later, tied⟩

lemma freshList {n : Nat} {ts : List Ty} (run : State.freshList n d.first = (ts, s₁)) :
    d.Follows w known (State.freshList n) s₁ fun d₁ ts' => List.Forall₂ (d₁.Tie w) ts ts' := by
  induction n generalizing d ts with
  | zero =>
    cases run
    exact .pure h .nil
  | succ n ih =>
    obtain ⟨t, s, head, run⟩ := CheckM.bind_eq.1 run
    obtain ⟨ts, s₁, rest, ⟨⟩⟩ := CheckM.bind_eq.1 run
    refine .bind (h.fresh head) ?_
    rintro d₁ t' g₁ rfl tie
    refine .bind (ih g₁.sound rest) ?_
    rintro d₂ ts' g₂ rfl ties
    exact .pure g₂.sound (.cons (tie.mono g₂) ties)

lemma freshIdle (run : State.fresh d.first = (t, s₁)) :
    d.Follows w known State.fresh s₁ fun d₁ t' => d₁.Mate w t t' := by
  rw [run_fresh] at run
  cases run
  obtain ⟨d₁, t', first, runs, _, rfl, idle⟩ := h.follows Ty.bool id h.inv.fresh (x := State.fresh)
    (P := fun d₁ => d₁.Idle (.var d.first.vars)) fun m ab => by
      obtain ⟨κ₁, later, idle⟩ := ab.grow_idle
      exact ⟨κ₁, _, _, run_fresh _, later, idle⟩
  refine ⟨d₁, t', first, runs, ?_, idle⟩
  rw [first]
  simp [Ty.Scoped]

/-- A choice between integers and sets that is read as the integers. -/
lemma choice (integer : w.value d.first.vars = .integer) (elem : d.Mate w l l') :
    d.Follows w known (State.allocate (.setOrInteger l')) (d.first.grow (.setOrInteger l))
      fun d₁ t' => d₁.Tie w (.var d.first.vars) t' := by
  have steps := h.inv.grow (c := .setOrInteger l) (List.forall_mem_singleton.2 elem.scope)
  refine h.follows_tie steps (by simp [Ty.Scoped]) fun m ab => ?_
  obtain ⟨κ₁, later, tied⟩ := ab.grow_integers integer (.setOrInteger l) (.setOrInteger l') rfl rfl
    (elem.idle (steps.models w m))
  exact ⟨κ₁, _, _, run_allocate _ _, later, tied⟩

/-- A choice between integers and pairs that is read as the integers. -/
lemma product (integer : w.value d.first.vars = .integer) (left : d.Mate w l l')
    (right : d.Mate w r r') :
    d.Follows w known (State.allocate (.integerOrPairs l' r')) (d.first.grow (.integerOrPairs l r))
      fun d₁ t' => d₁.Tie w (.var d.first.vars) t' := by
  have steps := h.inv.grow (c := .integerOrPairs l r)
    (List.forall_mem_cons.2 ⟨left.scope, List.forall_mem_singleton.2 right.scope⟩)
  refine h.follows_tie steps (by simp [Ty.Scoped]) fun m ab => ?_
  have before := steps.models w m
  have pair := (left.idle before).couple (right.idle before)
  obtain ⟨κ₁, later, tied⟩ := ab.grow_integers integer (.integerOrPairs l r) (.integerOrPairs l' r')
    rfl rfl pair
  exact ⟨κ₁, _, _, run_allocate _ _, later, tied⟩

/-- A variable of the first check alone, which is pinned to a type. -/
lemma pinned {c : Cell} (scope : ∀ t ∈ c.contents, t.Scoped d.first.vars) (tie : d.Tie w t t')
    (pins : c.Holds w.value d.first.vars →
      c.pins? (w.value d.first.vars) = some t ∧ w.value d.first.vars = t.eval w.value) :
    d.Follows w known (Pure.pure ()) (d.first.grow c) fun d₁ _ => d₁.Tie w (.var d.first.vars) t' := by
  obtain ⟨d₁, _, first, runs, _, rfl, tied⟩ := h.follows () id (h.inv.grow scope) (x := Pure.pure ())
    (P := fun d₁ _ => d₁.Tied (.var d.first.vars) t') fun m ab => by
      obtain ⟨before, holds⟩ := models_grow.1 m
      obtain ⟨pin, value⟩ := pins holds
      have tied := tie.tied before
      obtain ⟨κ₁, later, tied'⟩ := ab.grow_first tied.right
        (by rw [← ab.unifier.store.eval_eq tied, ab.value, value]) (.inr ⟨t, pin, tied⟩)
      exact ⟨κ₁, d.second, (), rfl, later, tied'⟩
  refine ⟨d₁, (), first, runs, ?_, tied⟩
  rw [first]
  simp [Ty.Scoped]

/-! ## Declarations. -/

lemma declaredType {id : Nat} {o : Option Ty} (run : State.declaredType id d.first = (o, s₁)) :
    d.Follows w known (State.declaredType id) s₁ fun d₁ o' => Option.Rel (d₁.Tie w) o o' := by
  obtain ⟨missing, e⟩ | ⟨t, ht, e⟩ | ⟨exist, empty, e⟩ := declaredType_cases id d.first
  · rw [e] at run
    cases run
    refine ⟨d, none, rfl, ⟨.refl h, fun m => ?_⟩, .none⟩
    have exist := (h.abreast m).declared.exist id
    rw [missing] at exist
    exact declaredType_of_none (Option.isNone_iff_eq_none.1 (Option.isSome_eq_false_iff.1 exist))
  · rw [e] at run
    cases run
    obtain ⟨d₁, _, first, runs, t', rfl, tied⟩ := h.follows Ty.bool some (.refl h.inv)
      (x := State.declaredType id) (P := fun d₁ => d₁.Tied t) fun m ab => by
        obtain ⟨t', ht', tied⟩ := ab.declared.tied id t ht
        exact ⟨d.coupling, d.second, t', declaredType_of_some ht', .refl ab, tied⟩
    refine ⟨d₁, _, first, runs, .some ⟨?_, tied⟩⟩
    rw [first]
    exact h.inv.scope id t ht
  · rw [e] at run
    cases run
    obtain ⟨d₁, _, first, runs, t', rfl, tied⟩ := h.follows Ty.bool some
      (h.inv.declares_seed exist empty).steps (x := State.declaredType id)
      (P := fun d₁ => d₁.Tied (.var d.first.vars)) fun m ab => by
        obtain ⟨κ₁, t', ht', later, tied⟩ := ab.seed exist empty m
        exact ⟨κ₁, d.second, t', declaredType_of_some ht', later, tied⟩
    refine ⟨d₁, _, first, runs, .some ⟨?_, tied⟩⟩
    rw [first]
    show d.first.vars < (d.first.grow .free).vars
    rw [vars_grow]
    omega

lemma declaredTypes {ids : List Nat} {ts : List Ty}
    (run : State.declaredTypes ids d.first = (ts, s₁)) :
    d.Follows w known (State.declaredTypes ids) s₁ fun d₁ ts' => List.Forall₂ (d₁.Tie w) ts ts' := by
  induction ids generalizing d ts with
  | nil =>
    cases run
    exact .pure h .nil
  | cons id ids ih =>
    obtain ⟨o, s, head, run⟩ := CheckM.bind_eq.1 run
    obtain ⟨ts, s₁, rest, ⟨⟩⟩ := CheckM.bind_eq.1 run
    refine .bind (h.declaredType head) ?_
    rintro d₁ o' g₁ rfl tie
    refine .bind (ih g₁.sound rest) ?_
    rintro d₂ ts' g₂ rfl ties
    refine .pure g₂.sound ?_
    cases tie with
    | none => exact ties
    | some tie => exact .cons (tie.mono g₂) ties

lemma declare {ids : List Nat} {u : Unit} (run : State.declare ids d.first = (u, s₁)) :
    d.Follows w known (State.declare ids) s₁ fun _ _ => True := by
  have eq (ids : List Nat) : State.declare ids = State.declaredTypes ids >>= fun _ => pure () := rfl
  rw [eq] at run ⊢
  obtain ⟨ts, s, types, ⟨⟩⟩ := CheckM.bind_eq.1 run
  refine .bind (h.declaredTypes types) ?_
  rintro d₁ ts' g₁ rfl -
  exact .pure g₁.sound trivial

lemma declaredOrFresh {id : Nat} (run : State.declaredOrFresh id d.first = (t, s₁)) :
    d.Follows w known (State.declaredOrFresh id) s₁ fun d₁ t' => d₁.Tie w t t' := by
  obtain ⟨o, s, type, run⟩ := CheckM.bind_eq.1 run
  refine .bind (h.declaredType type) ?_
  rintro d₁ o' g₁ rfl tie
  cases tie with
  | none => exact g₁.sound.fresh run
  | some tie =>
    cases run
    exact .pure g₁.sound tie

lemma report {e : Event} {u : Unit} (run : State.report e d.first = (u, s₁)) :
    d.Follows w known (State.report e) s₁ fun _ _ => True := by
  cases run
  refine ⟨⟨d.coupling, (State.report e d.first).2, (State.report e d.second).2⟩, (), rfl,
    ⟨⟨steps_report e (.refl h.inv), fun m => ?_⟩, fun _ => rfl⟩, trivial⟩
  exact .of_ties ((h.abreast ⟨m.unifier, m.types⟩).report _ _) .refl rfl rfl rfl

lemma identifierType {id : Nat} {name : String}
    (run : State.identifierType id name d.first = (t, s₁)) :
    d.Follows w known (State.identifierType id name) s₁ fun d₁ t' => d₁.Tie w t t' := by
  obtain ⟨o, s, type, run⟩ := CheckM.bind_eq.1 run
  refine .bind (h.declaredType type) ?_
  rintro d₁ o' g₁ rfl tie
  cases tie with
  | none =>
    obtain ⟨_, _, unknown, run⟩ := CheckM.bind_eq.1 run
    refine .bind (g₁.sound.report unknown) ?_
    rintro d₂ _ g₂ rfl -
    exact g₂.sound.fresh run
  | some tie =>
    cases run
    exact .pure g₁.sound tie

lemma boundTuple {site : Site} {bound : List Nat}
    (run : BMethod.boundTuple site bound d.first = (.ok t, s₁)) (site' : Site) :
    d.Tries w known (BMethod.boundTuple site' bound) s₁ fun d₁ t' => d₁.Tie w t t' := by
  obtain ⟨ts, s, types, run⟩ := CheckM.bind_eq.1 run
  refine Follows.bind (h.declaredTypes types) ?_
  rintro d₁ ts' g₁ rfl ties
  cases ht : Ty.tuple? ts with
  | none =>
    rw [ht] at run
    cases run
  | some u =>
    rw [ht] at run
    cases run
    obtain ⟨t', ht', tie⟩ := exists_tuple? ties ht
    rw [ht']
    exact .pure g₁.sound ⟨t', rfl, tie⟩

/-! ## Unification. -/

/-- Tied types are unified. The result of the first check is tied to that of the second, and to what stood
there. -/
lemma unifyAt (hl : d.Tie w l l') (hr : d.Tie w r r') {site : Site}
    (run : State.unifyAt site l r d.first = (.ok t, s₁)) (site' : Site) :
    d.Tries w known (State.unifyAt site' l' r') s₁ fun d₁ t' => d₁.Tie w t t' ∧ d₁.Tie w t r' := by
  have uni := h.inv.unified hl.scope hr.scope run
  obtain ⟨d₁, _, rfl, runs, t', rfl, tied⟩ := h.follows Ty.bool .ok uni.steps
    (x := State.unifyAt site' l' r') (P := fun d₁ t' => d₁.Tied t t' ∧ d₁.Tied t r') fun m ab => by
      have before := uni.steps.models w m
      obtain ⟨t', s₁', run', later, tied⟩ := ab.unifyAt (hl.tied before) (hr.tied before) run m site'
      exact ⟨_, s₁', t', run', later, tied⟩
  exact ⟨d₁, _, rfl, runs, t', rfl, ⟨uni.scope, fun m => (tied m).1⟩, uni.scope, fun m => (tied m).2⟩

/-- Tied products of integers are tied to their operands. -/
lemma linkAt (link link' : ProductLink) (result : d.Tie w link.result link'.result)
    (left : d.Tie w link.left link'.left) (right : d.Tie w link.right link'.right)
    (leftElem : d.Mate w link.leftElem link'.leftElem)
    (rightElem : d.Mate w link.rightElem link'.rightElem)
    (sane : ∀ σ, d.first.unifier.store.Holds σ → link.Sane σ)
    (integers : w.Models s₁ → ∀ t ∈ [link.result, link.left, link.right], t.eval w.value = .integer)
    {site : Site} (run : State.linkAt site l r link d.first = (.ok (), s₁)) (site' : Site) :
    d.Tries w known (State.linkAt site' l' r' link') s₁ fun _ _ => True := by
  have scope : link.Scoped d.first.vars := by
    simp only [ProductLink.Scoped, ProductLink.parts, List.forall_mem_cons]
    exact ⟨result.scope, left.scope, right.scope, leftElem.scope, rightElem.scope,
      List.forall_mem_nil _⟩
  have linked := h.inv.linked scope sane run
  obtain ⟨d₁, _, rfl, runs, _, rfl, -⟩ := h.follows () .ok linked.steps
    (x := State.linkAt site' l' r' link') (P := fun _ _ => True) fun m ab => by
      have before := linked.steps.models w m
      have value {t t' : Ty} (tied : d.Tied t t') (ht : t.eval w.value = .integer) :
          t'.eval d.coupling.second.value = .integer := by
        rw [← ab.unifier.store.eval_eq tied, ab.value, ht]
      have ints := integers m
      have tr := result.tied before
      have tl := left.tied before
      have tr' := right.tied before
      have scope' : link'.Scoped d.second.vars := by
        simp only [ProductLink.Scoped, ProductLink.parts, List.forall_mem_cons]
        exact ⟨tr.right.1, tl.right.1, tr'.right.1, (leftElem.idle before).right.1,
          (rightElem.idle before).right.1, List.forall_mem_nil _⟩
      simp only [List.forall_mem_cons] at ints
      obtain ⟨s₁', run', later⟩ := ab.linkAt ⟨tr, tl, tr'⟩ scope scope'
        (List.forall_mem_cons.2 ⟨value tr ints.1, List.forall_mem_cons.2
          ⟨value tl ints.2.1, List.forall_mem_singleton.2 (value tr' ints.2.2.1)⟩⟩) run m site'
      exact ⟨_, s₁', (), run', later, trivial⟩
  exact ⟨d₁, _, rfl, runs, (), rfl, trivial⟩

/-- The first check alone ties a product of sets to its operands, which are such sets in the second. -/
lemma linkAt_first (link : ProductLink) {t' left' right' : Ty} (result : d.Tie w link.result t')
    (pairs : d.Tie w (.relation link.leftElem link.rightElem) t')
    (left : d.Tie w link.left left') (leftSet : d.Tie w (.set link.leftElem) left')
    (right : d.Tie w link.right right') (rightSet : d.Tie w (.set link.rightElem) right')
    (sane : ∀ σ, d.first.unifier.store.Holds σ → link.Sane σ)
    {site : Site} (run : State.linkAt site l r link d.first = (.ok (), s₁)) :
    d.Follows w known (Pure.pure ()) s₁ fun _ _ => True := by
  have scope : link.Scoped d.first.vars := by
    simp only [ProductLink.Scoped, ProductLink.parts, List.forall_mem_cons]
    exact ⟨result.scope, left.scope, right.scope, leftSet.scope, rightSet.scope,
      List.forall_mem_nil _⟩
  have linked := h.inv.linked scope sane run
  obtain ⟨d₁, _, rfl, runs, -⟩ := h.follows () id linked.steps (x := Pure.pure ())
    (P := fun _ _ => True) fun m ab => by
      have before := linked.steps.models w m
      have granted : link.Granted d.coupling d.first.unifier.store d.second.unifier.store := by
        refine ⟨.sets, ?_⟩
        simp only [ProductLink.equations, ProductLink.types, List.forall_mem_cons]
        exact ⟨⟨t', result.tied before, pairs.tied before⟩, ⟨left', left.tied before, leftSet.tied before⟩,
          ⟨right', right.tied before, rightSet.tied before⟩, List.forall_mem_nil _⟩
      exact ⟨_, d.second, (), rfl, ab.linkAt_first granted scope run m, trivial⟩
  exact ⟨d₁, (), rfl, runs, trivial⟩

/-! ## Requiring concrete types. -/

lemma requireConcrete {what : Subject} {ids : List Nat}
    (run : State.requireConcrete what ids d.first = (.ok (), s₁)) :
    d.Tries w known (State.requireConcrete what ids) s₁ fun _ _ => True := by
  obtain ⟨run', settles⟩ | ⟨e, failed, -⟩ := h.inv.requireConcrete what ids
  · rw [run'] at run
    cases run
    refine ⟨d, .ok (), rfl, ⟨.refl h, fun m => ?_⟩, (), rfl, trivial⟩
    have ab := h.abreast m
    exact requireConcrete_of_settles ab.unifier.proper'.wellFormed.acyclic what (ab.settles settles)
  · rw [failed] at run
    cases run

end Sound

end Duo

end BMethod
