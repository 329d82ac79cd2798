import BMethod.Proofs.Recheck.Variables
import BMethod.Proofs.Typing.State

/-!
# Two checks side by side

A check that has succeeded is run again, on what it has left. The second run has the types that the first
found in the end, so its states are compared with those of the first in a world of the last state
(`Duo.Abreast`). Whether a world is one of the last state is known at the end only; what a step of the
two runs does is therefore said under the condition that the world is one of the first state after it
(`Duo.Runs`), and the conditions follow from each other backwards.
-/

namespace BMethod

open State

namespace Store

variable {κ : Coupling} {s s' : Store} {t t' u : Ty}

/-- Known types are tied if they are the same. -/
lemma tied_concrete (ht : t.isConcrete = true) (ht' : t'.isConcrete = true)
    (same : t.canon = t'.canon) : Tied κ s s' t t' where
  left := ⟨Ty.scoped_of_isConcrete ht, by simp [Ty.vars_of_isConcrete ht]⟩
  right := ⟨Ty.scoped_of_isConcrete ht', by simp [Ty.vars_of_isConcrete ht']⟩
  eq τ _ := by rw [Ty.eval_of_isConcrete ht, Ty.eval_of_isConcrete ht', same]

lemma Tied.record {fs fs' : List (String × Ty)}
    (h : List.Forall₂ (fun f f' => f.1 = f'.1 ∧ Tied κ s s' f.2 f'.2) fs fs') :
    Tied κ s s' (.record fs) (.record fs') := by
  induction h with
  | nil => exact ⟨Ty.over_record.2 nofun, Ty.over_record.2 nofun, fun _ _ => rfl⟩
  | @cons f f' fs fs' head _ ih =>
    obtain ⟨name, tied⟩ := head
    obtain ⟨left, right, eq⟩ := ih
    rw [Ty.over_record] at left right
    refine ⟨Ty.over_record.2 (List.forall_mem_cons.2 ⟨tied.left, left⟩),
      Ty.over_record.2 (List.forall_mem_cons.2 ⟨tied.right, right⟩), fun τ adm => ?_⟩
    have rest := eq τ adm
    simp only [Ty.eval, Ty.evalFields_eq_map, Ty.record.injEq, List.map_cons] at rest ⊢
    rw [rest, name, tied.eq τ adm]

namespace Abreast

variable (ab : Abreast κ s s')

include ab

/-- A field of a record is tied to that of a record tied to it. -/
lemma field? {fs fs' : List (String × Ty)} (h : Tied κ s s' (.record fs) (.record fs')) {name : String}
    (found : Ty.field? fs name = some u) : ∃ u', Ty.field? fs' name = some u' ∧ Tied κ s s' u u' := by
  induction fs' generalizing fs with
  | nil =>
    have eq := h.eq _ ab.admits_second
    cases fs with
    | nil => cases found
    | cons => simp [Ty.eval, Ty.evalFields] at eq
  | cons f' fs' ih =>
    obtain ⟨k, x'⟩ := f'
    obtain ⟨x, fs, rfl, tied, rest⟩ := ab.exists_cons h
    rw [Ty.field?, List.lookup_cons] at found ⊢
    cases hk : name == k with
    | true =>
      rw [hk] at found
      cases found
      exact ⟨x', rfl, tied⟩
    | false =>
      rw [hk] at found
      exact ih rest found

/-- What is tied to a type with a head that is no variable has such a head, too. -/
lemma exists_head? (h : Tied κ s s' t t') (head : s.head? t = some u) (nonvar : ∀ v, u ≠ .var v) :
    ∃ u', s'.head? t' = some u' ∧ (∀ v, u' ≠ .var v) ∧ Tied κ s s' u u' := by
  obtain ⟨u', head'⟩ := ab.steady.wellFormed.acyclic.exists_head? t'
  have tied := ab.tied_head? h head head'
  refine ⟨u', head', ?_, tied⟩
  rintro v rfl
  obtain ⟨x, rfl⟩ := ab.steady.exists_var (unbound_of_head? head') tied.eq
  exact nonvar x rfl

/-- What is tied to a known type is known, and the same. -/
lemma exists_resolve? (h : Tied κ s s' t t') (hu : s.resolve? t = some u) (hc : u.isConcrete = true) :
    ∃ u', s'.resolve? t' = some u' ∧ u'.isConcrete = true ∧ u.canon = u'.canon := by
  have wf' := ab.steady.wellFormed
  obtain ⟨u', hu'⟩ := wf'.acyclic.exists_resolve? t'
  have value {τ : Nat → Ty} (holds : s'.Holds τ) : u.canon = t'.eval τ := by
    have adm := ab.steady.respects_under holds.respects
    rw [← h.eq τ adm]
    refine canon_of_resolveWithin ab.wellFormed (L := κ.first.idleᶜ) (fun v hv x hx => ?_) h.left hu hc
    have cell := ab.fits.cells v hv
    rw [hx] at cell
    exact ⟨respects_under.1 (ab.pull τ adm) v hv x (by rw [hx, Cell.pins?]), cell.2⟩
  have concrete := isConcrete_of_eval_model_eq h.right.1 hu'
    ((value (wf'.holds_model .integers)).symm.trans (value (wf'.holds_model .others)))
  have holds := wf'.holds_model .integers
  exact ⟨u', hu', concrete,
    (value holds).trans (holds.canon_of_resolve? wf' h.right.1 hu' concrete).symm⟩

end Abreast

end Store

namespace Unifier

variable {u u₁ : Unifier} {l r t : Ty}

lemma Proper.size_unify (proper : u.Proper) (hl : l.Scoped u.store.cells.size)
    (hr : r.Scoped u.store.cells.size) (run : unify l r u = (.ok t, u₁)) :
    u₁.store.cells.size = u.store.cells.size := by
  obtain ⟨_, -, uni⟩ | ⟨e, failed, -⟩ := proper.unify_spec hl hr
  · rw [run] at uni
    exact uni.size_eq
  · rw [run] at failed
    cases failed

lemma Proper.size_link (proper : u.Proper) {link : ProductLink} (scope : link.Scoped u.store.cells.size)
    (run : Unifier.link link u = (.ok (), u₁)) : u₁.store.cells.size = u.store.cells.size := by
  obtain ⟨-, links⟩ | ⟨e, failed, -⟩ := proper.link_spec scope
  · rw [run] at links
    exact links.size_eq
  · rw [run] at failed
    cases failed

end Unifier

namespace State

variable {s s₁ : State} {site : Site} {l r t : Ty}

lemma declaredType_of_some {id : Nat} (h : s.decls.ty? id = some t) :
    declaredType id s = (some t, s) := by
  obtain ⟨missing, -⟩ | ⟨u, hu, e⟩ | ⟨-, empty, -⟩ := declaredType_cases id s
  · simp [Declarations.ty?, missing] at h
  · cases hu.symm.trans h
    exact e
  · cases empty.symm.trans h

lemma declaredType_of_none {id : Nat} (h : s.decls.get? id = none) : declaredType id s = (none, s) := by
  obtain ⟨-, e⟩ | ⟨u, hu, -⟩ | ⟨exist, -⟩ := declaredType_cases id s
  · exact e
  · simp [Declarations.ty?, h] at hu
  · simp [h] at exist

lemma requireConcrete_of_settles (ac : s.unifier.store.Acyclic) (what : Subject) {ids : List Nat}
    (h : s.Settles ids) : requireConcrete what ids s = (.ok (), s) := by
  induction ids with
  | nil => rfl
  | cons id ids ih =>
    have rest := ih fun i hi => h i (.tail _ hi)
    obtain ⟨-, run⟩ | ⟨t, ht, ⟨hu, -⟩ | ⟨u, hu, ⟨-, run⟩ | ⟨vague, -⟩⟩⟩ :=
      requireConcrete_cons what id ids s
    · exact run.trans rest
    · obtain ⟨u, hu'⟩ := ac.exists_resolve? t
      cases hu.symm.trans hu'
    · exact run.trans rest
    · rw [h id (.head _) t u ht hu] at vague
      cases vague

/-- A mismatch is no success. -/
lemma mismatch_ne_ok {α : Type} (a : α) (e : Halt UnifyError) :
    mismatch site l r e s ≠ (.ok a, s₁) := by
  cases e with
  | divergence => rintro ⟨⟩
  | error e =>
    simp only [mismatch, bind, StateT.bind]
    obtain ⟨_ | _, s'⟩ := resolve l s
    · rintro ⟨⟩
    · simp only [bind, StateT.bind]
      obtain ⟨_ | _, s''⟩ := resolve r s' <;> rintro ⟨⟩

/-- Unifying at a place is unifying, if it succeeds. -/
lemma unifyAt_eq_ok : unifyAt site l r s = (.ok t, s₁) ↔
    ∃ u₁, Unifier.unify l r s.unifier = (.ok t, u₁) ∧ s₁ = { s with unifier := u₁ } := by
  simp only [unifyAt, bind, StateT.bind, run_onUnifier]
  obtain ⟨e | u, u₁⟩ := Unifier.unify l r s.unifier
  · refine ⟨fun run => absurd run (mismatch_ne_ok _ e), ?_⟩
    rintro ⟨_, ⟨⟩, -⟩
  · constructor
    · rintro ⟨⟩
      exact ⟨u₁, rfl, rfl⟩
    · rintro ⟨_, ⟨⟩, rfl⟩
      rfl

/-- What unifying at a place does, if it succeeds. -/
lemma Inv.unified {known : Nat → Bool} (inv : s.Inv known) (hl : l.Scoped s.vars)
    (hr : r.Scoped s.vars) (run : State.unifyAt site l r s = (.ok t, s₁)) : s.Unified known l r t s₁ := by
  have spec : Concludes (State.unifyAt site l r) s (s.Unified known l r) fun _ => True :=
    inv.unifyAt hl hr (fun _ _ uni => uni) fun _ _ => trivial
  rwa [Concludes, run] at spec

/-- What linking at a place does, if it succeeds. -/
lemma Inv.linked {known : Nat → Bool} (inv : s.Inv known) {link : ProductLink}
    (scope : link.Scoped s.vars) (sane : ∀ σ, s.unifier.store.Holds σ → link.Sane σ)
    (run : State.linkAt site l r link s = (.ok (), s₁)) : s.Linked known link s₁ := by
  have spec : Concludes (State.linkAt site l r link) s (fun _ => s.Linked known link) fun _ => True :=
    inv.linkAt scope sane (fun _ linked => linked) fun _ _ => trivial
  rwa [Concludes, run] at spec

/-- Linking at a place is linking, if it succeeds. -/
lemma linkAt_eq_ok {link : ProductLink} : linkAt site l r link s = (.ok (), s₁) ↔
    ∃ u₁, Unifier.link link s.unifier = (.ok (), u₁) ∧ s₁ = { s with unifier := u₁ } := by
  simp only [linkAt, bind, StateT.bind, run_onUnifier]
  obtain ⟨e | u, u₁⟩ := Unifier.link link s.unifier
  · refine ⟨fun run => absurd run (mismatch_ne_ok _ e), ?_⟩
    rintro ⟨_, ⟨⟩, -⟩
  · constructor
    · rintro ⟨⟩
      exact ⟨u₁, rfl, rfl⟩
    · rintro ⟨_, ⟨⟩, rfl⟩
      rfl

end State

/-- Two states of checks, and what stands in the second for the variables of the first. -/
structure Duo where
  coupling : Coupling
  first : State
  second : State

namespace Duo

/-- What stands in the second state for the one type is the other. -/
abbrev Tied (d : Duo) (t t' : Ty) : Prop :=
  Store.Tied d.coupling d.first.unifier.store d.second.unifier.store t t'

/-- What is tied in the first duo is tied in the second. -/
abbrev Ties (d d₁ : Duo) : Prop :=
  Store.Ties d.coupling d.first.unifier.store d.second.unifier.store
    d₁.coupling d₁.first.unifier.store d₁.second.unifier.store

/-- The same declarations exist. The type that one has in the second state is tied to the one that it has
in the first; if it has none there, it is the type that the declaration has in the world. -/
structure Declared (w : World) (d : Duo) : Prop where
  exist : ∀ id, (d.second.decls.get? id).isSome = (d.first.decls.get? id).isSome
  tied : ∀ id t, d.first.decls.ty? id = some t →
    ∃ t', d.second.decls.ty? id = some t' ∧ d.Tied t t'
  ahead : ∀ id u, d.first.decls.ty? id = none → w.type? id = some u →
    ∃ t', d.second.decls.ty? id = some t' ∧ t'.isConcrete = true ∧ t'.canon = u
  absent : ∀ id, d.first.decls.ty? id = none → w.type? id = none → d.second.decls.ty? id = none

/-- The second state is the first with some variables settled, as far as the world goes. -/
structure Abreast (w : World) (d : Duo) : Prop where
  unifier : d.first.unifier.Abreast d.coupling d.second.unifier
  settled : d.second.unifier.Settled
  value : d.coupling.first.value = w.value
  declared : d.Declared w

/-- Idle types with one value. -/
structure Idle (d : Duo) (t t' : Ty) : Prop where
  left : t.Over d.first.vars d.coupling.first.idle
  right : t'.Over d.second.vars d.coupling.second.idle
  eq : t.eval d.coupling.first.value = t'.eval d.coupling.second.value

lemma Idle.couple {d : Duo} {l l' r r' : Ty} (left : d.Idle l l') (right : d.Idle r r') :
    d.Idle (.couple l r) (.couple l' r') :=
  ⟨Ty.over_couple.2 ⟨left.left, right.left⟩, Ty.over_couple.2 ⟨left.right, right.right⟩,
    congrArg₂ Ty.couple left.eq right.eq⟩

/-- The states of the second duo are abreast, and what is said of types in the first holds in the
second. -/
structure Later (w : World) (d d₁ : Duo) : Prop where
  abreast : d₁.Abreast w
  ties : d.Ties d₁
  idle : ∀ t t', d.Idle t t' → d₁.Idle t t'

section

variable (w : World) (known : Nat → Bool)

/-- If the world is one of the first state, the states are abreast. -/
structure Sound (d : Duo) : Prop where
  inv : d.first.Inv known
  abreast : w.Models d.first → d.Abreast w

/-- Steps of the first check, beside which the states stay abreast. -/
structure Goes (d d₁ : Duo) : Prop where
  steps : d.first.Steps known d₁.first
  later : w.Models d₁.first → d.Later w d₁

/-- Steps of the first check, beside which the second runs a computation with the given result. -/
structure Runs {α : Type} (d : Duo) (x : CheckM α) (d₁ : Duo) (a : α) : Prop
    extends d.Goes w known d₁ where
  run : w.Models d₁.first → x d.second = (a, d₁.second)

/-- The types are tied if the world is one of the first state. -/
structure Tie (d : Duo) (t t' : Ty) : Prop where
  scope : t.Scoped d.first.vars
  tied : w.Models d.first → d.Tied t t'

/-- The types are idle, with one value, if the world is one of the first state. -/
structure Mate (d : Duo) (t t' : Ty) : Prop where
  scope : t.Scoped d.first.vars
  idle : w.Models d.first → d.Idle t t'

end

variable {w : World} {known : Nat → Bool} {d d₁ d₂ : Duo} {t t' u l r l' r' : Ty}

namespace Later

lemma refl (h : d.Abreast w) : d.Later w d := ⟨h, .refl, fun _ _ h => h⟩

lemma trans (h : d.Later w d₁) (h' : d₁.Later w d₂) : d.Later w d₂ :=
  ⟨h'.abreast, h.ties.trans h'.ties, fun t t' i => h'.idle t t' (h.idle t t' i)⟩

/-- The states stay abreast under unification, which adds no variables. -/
lemma of_ties (h : d₁.Abreast w) (ties : d.Ties d₁) (coupling : d₁.coupling = d.coupling)
    (first : d₁.first.vars = d.first.vars) (second : d₁.second.vars = d.second.vars) :
    d.Later w d₁ := by
  refine ⟨h, ties, fun t t' i => ?_⟩
  obtain ⟨left, right, eq⟩ := i
  exact ⟨by rwa [coupling, first], by rwa [coupling, second], by rwa [coupling]⟩

/-- The states stay abreast when variables are added. -/
lemma of_extends (h : d₁.Abreast w) (ties : d.Ties d₁)
    (ext : d.coupling.Extends d.first.vars d.second.vars d₁.coupling)
    (first : d.first.vars ≤ d₁.first.vars) (second : d.second.vars ≤ d₁.second.vars) :
    d.Later w d₁ := by
  refine ⟨h, ties, fun t t' i => ?_⟩
  obtain ⟨left, right, eq⟩ := i
  refine ⟨ext.first.idle first left, ext.second.idle second right, ?_⟩
  rw [Ty.eval_congr fun v hv => (ext.first v (left.1.lt hv)).1, eq]
  exact (Ty.eval_congr fun v hv => (ext.second v (right.1.lt hv)).1).symm

end Later

namespace Goes

lemma sound (g : d.Goes w known d₁) : d₁.Sound w known := ⟨g.steps.inv, fun m => (g.later m).abreast⟩

lemma refl (h : d.Sound w known) : d.Goes w known d := ⟨.refl h.inv, fun m => .refl (h.abreast m)⟩

lemma trans (g : d.Goes w known d₁) (g' : d₁.Goes w known d₂) : d.Goes w known d₂ where
  steps := g.steps.trans g'.steps
  later m := (g.later (g'.steps.models w m)).trans (g'.later m)

end Goes

namespace Runs

variable {ν π α β : Type}

lemma pure (h : d.Sound w known) (a : α) : d.Runs w known (Pure.pure a) d a :=
  ⟨.refl h, fun _ => rfl⟩

lemma done (h : d.Sound w known) (n : ν) (a : α) : d.Runs w known (CheckM.done n a) d (n, .ok a) :=
  .pure h _

lemma bind {x : CheckM α} {f : α → CheckM β} {a : α} {b : β} (h : d.Runs w known x d₁ a)
    (h' : d₁.Runs w known (f a) d₂ b) : d.Runs w known (x >>= f) d₂ b where
  toGoes := h.toGoes.trans h'.toGoes
  run m := by
    rw [← h'.run m]
    exact congrArg (fun p : α × State => f p.1 p.2) (h.run (h'.steps.models w m))

lemma andThen {part : CheckM (Visited π α)} {whole : π → ν} {next : π → α → CheckM (Visited ν β)}
    {p : π} {a : α} {b : Visited ν β} (h : d.Runs w known part d₁ (p, .ok a))
    (h' : d₁.Runs w known (next p a) d₂ b) : d.Runs w known (part.andThen whole next) d₂ b where
  toGoes := h.toGoes.trans h'.toGoes
  run m := by rw [CheckM.run_andThen, h.run (h'.steps.models w m), ← h'.run m]

lemma orFail {step : CheckM (Verdict α)} {n : ν} {next : α → CheckM (Visited ν β)} {a : α}
    {b : Visited ν β} (h : d.Runs w known step d₁ (.ok a)) (h' : d₁.Runs w known (next a) d₂ b) :
    d.Runs w known (step.orFail n next) d₂ b where
  toGoes := h.toGoes.trans h'.toGoes
  run m := by rw [CheckM.run_orFail, h.run (h'.steps.models w m), ← h'.run m]

end Runs

/-! ## Tied types. -/

lemma Tie.mono (h : d.Tie w t t') (g : d.Goes w known d₁) : d₁.Tie w t t' where
  scope := h.scope.mono g.steps.vars_le
  tied m := (g.later m).ties _ _ (h.tied (g.steps.models w m))

lemma Mate.mono (h : d.Mate w t t') (g : d.Goes w known d₁) : d₁.Mate w t t' where
  scope := h.scope.mono g.steps.vars_le
  idle m := (g.later m).idle _ _ (h.idle (g.steps.models w m))

lemma Tie.mono_all {ts ts' : List Ty} (h : List.Forall₂ (d.Tie w) ts ts') (g : d.Goes w known d₁) :
    List.Forall₂ (d₁.Tie w) ts ts' := h.imp fun _ _ h => h.mono g

lemma tie_concrete (h : t.isConcrete = true) : d.Tie w t t :=
  ⟨Ty.scoped_of_isConcrete h, fun _ => Store.tied_concrete h h rfl⟩

lemma Tie.set (h : d.Tie w t t') : d.Tie w (.set t) (.set t') :=
  ⟨h.scope, fun m => Store.Tied.set_iff.2 (h.tied m)⟩

lemma Tie.couple (hl : d.Tie w l l') (hr : d.Tie w r r') : d.Tie w (.couple l r) (.couple l' r') :=
  ⟨⟨hl.scope, hr.scope⟩, fun m => Store.Tied.couple_iff.2 ⟨hl.tied m, hr.tied m⟩⟩

lemma Tie.relation (hl : d.Tie w l l') (hr : d.Tie w r r') :
    d.Tie w (.relation l r) (.relation l' r') := (hl.couple hr).set

/-- Fields of the same names with tied types. -/
def TieFields (w : World) (d : Duo) (fs fs' : List (String × Ty)) : Prop :=
  List.Forall₂ (fun f f' => f.1 = f'.1 ∧ d.Tie w f.2 f'.2) fs fs'

lemma TieFields.record {fs fs' : List (String × Ty)} (h : d.TieFields w fs fs') :
    d.Tie w (.record fs) (.record fs') where
  scope := by
    have inside : ∀ f ∈ fs, Ty.Over d.first.vars Set.univ f.2 := by
      induction h with
      | nil => exact nofun
      | cons head _ ih => exact List.forall_mem_cons.2 ⟨Ty.over_univ head.2.scope, ih⟩
    exact (Ty.over_record.2 inside).1
  tied m := .record (h.imp fun _ _ hf => ⟨hf.1, hf.2.tied m⟩)

lemma TieFields.mono {fs fs' : List (String × Ty)} (h : d.TieFields w fs fs')
    (g : d.Goes w known d₁) : d₁.TieFields w fs fs' :=
  List.Forall₂.imp (fun _ _ hf => ⟨hf.1, hf.2.mono g⟩) h

/-- The tuples over tied types are tied. -/
lemma exists_tuple? {ts ts' : List Ty} (h : List.Forall₂ (d.Tie w) ts ts') (ht : Ty.tuple? ts = some t) :
    ∃ t', Ty.tuple? ts' = some t' ∧ d.Tie w t t' := by
  cases h with
  | nil => cases ht
  | @cons u u' ts ts' head rest =>
    cases ht
    refine ⟨_, rfl, ?_⟩
    induction rest generalizing u u' with
    | nil => exact head
    | cons hx _ ih => exact ih (head.couple hx)

/-- The same shape over tied types. -/
lemma tie_instantiate (shape : Shape) {ps ps' : List Ty} (hps : List.Forall₂ (d.Tie w) ps ps')
    (ht : d.Tie w t t') : d.Tie w (shape.instantiate ps t) (shape.instantiate ps' t') := by
  induction shape with
  | param i =>
    rw [Shape.instantiate, Shape.instantiate]
    induction hps generalizing i with
    | nil => exact ht
    | cons head _ ih =>
      cases i with
      | zero => exact head
      | succ i => exact ih i
  | whole => exact ht
  | integer | bool | string => exact tie_concrete rfl
  | set _ ih => exact ih.set
  | couple _ _ ihl ihr => exact ihl.couple ihr

/-! ## Steps without unification. -/

/-- The declarations stay related if the types that they have stay tied. -/
lemma Declared.mono (h : d.Declared w) (first : d₁.first.decls = d.first.decls)
    (second : d₁.second.decls = d.second.decls) (ties : d.Ties d₁) : d₁.Declared w where
  exist id := by rw [first, second, h.exist]
  tied id t ht := by
    rw [first] at ht
    obtain ⟨t', ht', tied⟩ := h.tied id t ht
    exact ⟨t', by rw [second, ht'], ties _ _ tied⟩
  ahead id u none hu := by
    rw [first] at none
    rw [second]
    exact h.ahead id u none hu
  absent id none hu := by
    rw [first] at none
    rw [second]
    exact h.absent id none hu

/-- Reporting events changes nothing that is compared. -/
lemma Abreast.report (h : d.Abreast w) (es es' : List Event) :
    Abreast w ⟨d.coupling, { d.first with events := es }, { d.second with events := es' }⟩ :=
  ⟨h.unifier, h.settled, h.value, ⟨h.declared.exist, h.declared.tied, h.declared.ahead, h.declared.absent⟩⟩

/-- Both states get a variable, of which nothing is known or which awaits a choice and is read as the
integers. -/
lemma Abreast.grow (h : d.Abreast w) (c c' : Cell) (idle : Prop) (unbound : c'.Unbound)
    (scope : ∀ t ∈ c.contents, t.Scoped d.first.vars)
    (scope' : ∀ t ∈ c'.contents, t.Scoped d.second.vars)
    (pins : c.pins? (w.value d.first.vars) = none) (pins' : c'.pins? (w.value d.first.vars) = none)
    (fits : ¬ idle → c.Fits (d.coupling.first.push d.first.vars (w.value d.first.vars) idle) d.first.vars)
    (fits' : ¬ idle →
      c'.Fits (d.coupling.second.push d.second.vars (w.value d.first.vars) idle) d.second.vars)
    (free : idle → c = .free ∧ c' = .free)
    (integer : Store.Awaits c' → w.value d.first.vars = .integer)
    (elements : ∀ e' ∈ c'.elements, ∃ e ∈ c.elements,
      e.eval d.coupling.first.value = e'.eval d.coupling.second.value) :
    ∃ κ₁, let d₁ : Duo := ⟨κ₁, d.first.grow c, d.second.grow c'⟩
      d.Later w d₁ ∧ (¬ idle → d₁.Tied (.var d.first.vars) (.var d.second.vars)) ∧
        (idle → d₁.Idle (.var d.first.vars) (.var d.second.vars)) := by
  obtain ⟨store, ties, tied⟩ := h.unifier.store.allocate unbound scope scope' pins pins' fits fits' free
    integer elements
  have ext := d.coupling.extends_push d.first.vars (w.value d.first.vars) idle (.var d.second.vars)
    (d.coupling.second.extends_push d.second.vars (w.value d.first.vars) idle)
  refine ⟨_, .of_extends ⟨h.unifier.extend ext store (by simp) (by simp) ties,
    h.settled.allocate h.unifier.proper' scope', ?_, h.declared.mono rfl rfl ties⟩ ties ext (by simp)
    (by simp), tied, fun i => ?_⟩
  · show (d.coupling.first.push d.first.vars (w.value d.first.vars) idle).value = w.value
    rw [← h.value, Guess.push_self]
  · refine ⟨Ty.over_var.2 ⟨by simp, (Guess.mem_push_idle ..).2 i⟩,
      Ty.over_var.2 ⟨by simp, (Guess.mem_push_idle ..).2 i⟩, ?_⟩
    exact (Guess.push_value ..).trans (Guess.push_value ..).symm

/-- The first state alone gets a variable, for which something stands in the second. -/
lemma Abreast.grow_first (h : d.Abreast w) {c : Cell} {image : Ty}
    (within : image.Over d.second.vars d.coupling.second.idleᶜ)
    (eq : image.eval d.coupling.second.value = w.value d.first.vars)
    (source : c = .free ∧ d.second.unifier.store.Rigid d.coupling image ∨
      ∃ t, c.pins? (w.value d.first.vars) = some t ∧ d.Tied t image) :
    ∃ κ₁, let d₁ : Duo := ⟨κ₁, d.first.grow c, d.second⟩
      d.Later w d₁ ∧ d₁.Tied (.var d.first.vars) image := by
  obtain ⟨store, ties, tied⟩ := h.unifier.store.allocate_first within eq source
  have ext := d.coupling.extends_push d.first.vars (w.value d.first.vars) False image
    (.refl d.second.vars d.coupling.second)
  refine ⟨_, .of_extends ⟨h.unifier.extend ext store (by simp) le_rfl ties, h.settled, ?_,
    h.declared.mono rfl rfl ties⟩ ties ext (by simp) le_rfl, tied⟩
  show (d.coupling.first.push d.first.vars (w.value d.first.vars) False).value = w.value
  rw [← h.value, Guess.push_self]

/-- Both states get a live variable of which nothing is known. -/
lemma Abreast.grow_free (h : d.Abreast w) :
    ∃ κ₁, let d₁ : Duo := ⟨κ₁, d.first.grow .free, d.second.grow .free⟩
      d.Later w d₁ ∧ d₁.Tied (.var d.first.vars) (.var d.second.vars) := by
  obtain ⟨κ₁, later, tied, -⟩ := h.grow .free .free False nofun nofun nofun rfl
    rfl (fun _ => trivial) (fun _ => trivial) nofun nofun nofun
  exact ⟨κ₁, later, tied id⟩

/-- Both states get an idle variable. -/
lemma Abreast.grow_idle (h : d.Abreast w) :
    ∃ κ₁, let d₁ : Duo := ⟨κ₁, d.first.grow .free, d.second.grow .free⟩
      d.Later w d₁ ∧ d₁.Idle (.var d.first.vars) (.var d.second.vars) := by
  obtain ⟨κ₁, later, -, idle⟩ := h.grow .free .free True nofun nofun nofun rfl
    rfl (fun _ => trivial) (fun _ => trivial) (fun _ => ⟨rfl, rfl⟩) nofun nofun
  exact ⟨κ₁, later, idle trivial⟩

/-- Both states get a choice that is read as the integers, so that its elements are idle. -/
lemma Abreast.grow_integers (h : d.Abreast w) (integer : w.value d.first.vars = .integer) (c c' : Cell)
    (holds : c.elements = [t]) (holds' : c'.elements = [t']) (idle : d.Idle t t') :
    ∃ κ₁, let d₁ : Duo := ⟨κ₁, d.first.grow c, d.second.grow c'⟩
      d.Later w d₁ ∧ d₁.Tied (.var d.first.vars) (.var d.second.vars) := by
  have ext := d.coupling.first.extends_push d.first.vars (w.value d.first.vars) False
  have ext' := d.coupling.second.extends_push d.second.vars (w.value d.first.vars) False
  have unbound : c'.Unbound := by
    rintro u rfl
    cases holds'
  have scope {c : Cell} {t : Ty} {n : Nat} (holds : c.elements = [t]) (ht : t.Scoped n) :
      ∀ u ∈ c.contents, u.Scoped n := by
    cases c <;> cases holds
    · exact List.forall_mem_singleton.2 ht
    · exact List.forall_mem_cons.2 ⟨ht.1, List.forall_mem_singleton.2 ht.2⟩
  have pins {c : Cell} {t : Ty} (holds : c.elements = [t]) :
      c.pins? (w.value d.first.vars) = none := by
    cases c <;> cases holds <;> simp [Cell.pins?, integer]
  have fits {c : Cell} {t : Ty} {g : Guess} {v : Nat} (holds : c.elements = [t])
      (value : g.value v = .integer) (ht : t.Over v g.idle) : c.Fits g v := by
    cases c <;> cases holds <;> exact .inl ⟨value, ht.2⟩
  obtain ⟨κ₁, later, tied, -⟩ := h.grow c c' False unbound (scope holds idle.left.1)
    (scope holds' idle.right.1) (pins holds) (pins holds')
    (fun _ => fits holds (by simp [integer]) (ext.idle le_rfl idle.left))
    (fun _ => fits holds' (by simp [integer]) (ext'.idle le_rfl idle.right)) False.elim
    (fun _ => integer)
    (by simpa [holds, holds'] using idle.eq)
  exact ⟨κ₁, later, tied id⟩

/-- The first state alone gets a variable in the slot of a declaration. In the second the type that it has
in the world is there already. -/
lemma Abreast.seed (h : d.Abreast w) {id : Nat} (exist : (d.first.decls.get? id).isSome = true)
    (empty : d.first.decls.ty? id = none) (m : w.Models (d.first.seed id)) :
    ∃ κ₁ t', let d₁ : Duo := ⟨κ₁, d.first.seed id, d.second⟩
      d.second.decls.ty? id = some t' ∧ d.Later w d₁ ∧ d₁.Tied (.var d.first.vars) t' := by
  have slot (i : Nat) : (d.first.seed id).decls.ty? i =
      if id = i then some (.var d.first.vars) else d.first.decls.ty? i := ty?_setTy exist
  have type : w.type? id = some (w.value d.first.vars) :=
    m.types id (.var d.first.vars) (by rw [slot, if_pos rfl])
  obtain ⟨t', ht', concrete, canon⟩ := h.declared.ahead id _ empty type
  have within : t'.Over d.second.vars d.coupling.second.idleᶜ :=
    ⟨Ty.scoped_of_isConcrete concrete, by simp [Ty.vars_of_isConcrete concrete]⟩
  have value (σ : Nat → Ty) : t'.eval σ = w.value d.first.vars := by
    rw [Ty.eval_of_isConcrete concrete, canon]
  obtain ⟨κ₁, later, tied⟩ := h.grow_first within (value _)
    (.inl ⟨rfl, fun τ _ => (value τ).trans (value _).symm⟩)
  have ab := later.abreast
  have idle (u u' : Ty) (i : d.Idle u u') : Idle ⟨κ₁, d.first.seed id, d.second⟩ u u' :=
    have after := later.idle u u' i
    ⟨after.left, after.right, after.eq⟩
  refine ⟨κ₁, t', ht', ⟨⟨ab.unifier, ab.settled, ab.value, ?_⟩, later.ties, idle⟩, tied⟩
  -- The second state was ahead by this one declaration, and now the two types of it are tied.
  constructor
  · intro i
    rw [ab.declared.exist i]
    exact (isSome_get?_setTy _ _ _ _).symm
  · intro i t ht
    rw [slot] at ht
    split at ht
    · rename_i e
      subst e
      cases ht
      exact ⟨t', ht', tied⟩
    · exact ab.declared.tied i t ht
  · intro i u none hu
    rw [slot] at none
    split at none
    · cases none
    · exact ab.declared.ahead i u none hu
  · intro i none hu
    rw [slot] at none
    split at none
    · cases none
    · exact ab.declared.absent i none hu

/-- Declarations with known types have known types in the second state, too. -/
lemma Abreast.settles (h : d.Abreast w) {ids : List Nat} (settles : d.first.Settles ids) :
    d.second.Settles ids := by
  intro id hid t' u' ht' hu'
  cases ht : d.first.decls.ty? id with
  | some t =>
    obtain ⟨_, hx, tied⟩ := h.declared.tied id t ht
    cases hx.symm.trans ht'
    obtain ⟨u, hu⟩ := h.unifier.store.wellFormed.acyclic.exists_resolve? t
    obtain ⟨_, hx, concrete, -⟩ :=
      h.unifier.store.exists_resolve? tied hu (settles id hid t u ht hu)
    cases hx.symm.trans hu'
    exact concrete
  | none =>
    cases type : w.type? id with
    | none => cases (h.declared.absent id ht type).symm.trans ht'
    | some u =>
      obtain ⟨_, hx, concrete, -⟩ := h.declared.ahead id u ht type
      cases hx.symm.trans ht'
      cases (Store.resolve?_of_vars_eq_nil _ (Ty.vars_of_isConcrete concrete)).symm.trans hu'
      exact concrete

/-! ## Unification. -/

/-- Both checks unify tied types. -/
lemma Abreast.unifyAt (h : d.Abreast w) (hl : d.Tied l l') (hr : d.Tied r r') {site : Site} {s₁ : State}
    (run : State.unifyAt site l r d.first = (.ok t, s₁)) (m : w.Models s₁) (site' : Site) :
    ∃ t' s₁', let d₁ : Duo := ⟨d.coupling, s₁, s₁'⟩
      State.unifyAt site' l' r' d.second = (.ok t', s₁') ∧ d.Later w d₁ ∧ d₁.Tied t t' ∧ d₁.Tied t r' := by
  obtain ⟨u₁, uni, rfl⟩ := unifyAt_eq_ok.1 run
  obtain ⟨t', u₁', run', unifier, settled, ties, tied, found⟩ :=
    h.unifier.unify hl hr uni (h.value ▸ m.unifier.1.respects)
  refine ⟨t', _, unifyAt_eq_ok.2 ⟨u₁', run', rfl⟩, ?_, tied, found⟩
  exact .of_ties ⟨unifier, settled, h.value, h.declared.mono rfl rfl ties⟩ ties rfl
    (h.unifier.proper.size_unify hl.left.1 hr.left.1 uni)
    (h.unifier.proper'.size_unify hl.right.1 hr.right.1 run')

/-- Both checks tie a product of integers to its operands. -/
lemma Abreast.linkAt (h : d.Abreast w) {link link' : ProductLink}
    (tied : link.Tied d.coupling d.first.unifier.store d.second.unifier.store link')
    (scope : link.Scoped d.first.vars) (scope' : link'.Scoped d.second.vars)
    (integers : ∀ t' ∈ [link'.result, link'.left, link'.right],
      t'.eval d.coupling.second.value = .integer) {site : Site} {s₁ : State}
    (run : State.linkAt site l r link d.first = (.ok (), s₁)) (m : w.Models s₁) (site' : Site) :
    ∃ s₁', State.linkAt site' l' r' link' d.second = (.ok (), s₁') ∧
      d.Later w ⟨d.coupling, s₁, s₁'⟩ := by
  obtain ⟨u₁, uni, rfl⟩ := linkAt_eq_ok.1 run
  obtain ⟨u₁', run', unifier, settled, ties⟩ :=
    h.unifier.link tied scope scope' integers uni (h.value ▸ m.unifier.1.respects)
  refine ⟨_, linkAt_eq_ok.2 ⟨u₁', run', rfl⟩, ?_⟩
  exact .of_ties ⟨unifier, settled, h.value, h.declared.mono rfl rfl ties⟩ ties rfl
    (h.unifier.proper.size_link scope uni) (h.unifier.proper'.size_link scope' run')

/-- The first check alone ties a product to its operands. -/
lemma Abreast.linkAt_first (h : d.Abreast w) {link : ProductLink}
    (granted : link.Granted d.coupling d.first.unifier.store d.second.unifier.store)
    (scope : link.Scoped d.first.vars) {site : Site} {s₁ : State}
    (run : State.linkAt site l r link d.first = (.ok (), s₁)) (m : w.Models s₁) :
    d.Later w ⟨d.coupling, s₁, d.second⟩ := by
  obtain ⟨u₁, uni, rfl⟩ := linkAt_eq_ok.1 run
  obtain ⟨unifier, ties⟩ :=
    h.unifier.link_first h.settled granted scope uni (h.value ▸ m.unifier.1.respects)
  exact .of_ties ⟨unifier, h.settled, h.value, h.declared.mono rfl rfl ties⟩ ties rfl
    (h.unifier.proper.size_link scope uni) rfl

end Duo

end BMethod
