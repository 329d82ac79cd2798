import BMethod.Proofs.Calls
import BMethod.Proofs.Typing.Discipline

/-!
# What a walk does to the state

Walking through an expression or predicate changes at most the declarations that some node of it
mentions, whether the walk succeeds or not. If the types of these declarations have only variables of
the unifier, so have all types that the walk meets: it uses the unifier by calls over its own
variables, and comes to an end, again whether it succeeds or not (`Node.visits`).

Both are proved at once. The condition `own` says whether variables matter; without it the declarations
may hold any types, and only the first part is left.
-/

namespace BMethod

open State

/-! ## Variables of types. -/

/-- If variables matter, those of the type are allocated. -/
def Ty.Owned (own : Prop) (t : Ty) (s : State) : Prop := own → ∀ v ∈ t.vars, v < s.vars

namespace Ty

variable {own : Prop} {s : State} {t l r : Ty}

lemma owned_of_vars_eq_nil (h : t.vars = []) : t.Owned own s := fun _ v hv => by
  rw [h] at hv
  cases hv

lemma Owned.set (h : t.Owned own s) : (Ty.set t).Owned own s := h

lemma Owned.couple (hl : l.Owned own s) (hr : r.Owned own s) : (Ty.couple l r).Owned own s :=
  fun ho v hv => (List.mem_append.1 hv).elim (hl ho v) (hr ho v)

lemma owned_record {fields : List (String × Ty)} :
    (Ty.record fields).Owned own s ↔ ∀ f ∈ fields, f.2.Owned own s := by
  simp only [Owned, vars, mem_fieldVars]
  constructor
  · exact fun h f hf ho v hv => h ho v ⟨f, hf, hv⟩
  · rintro h ho v ⟨f, hf, hv⟩
    exact h f hf ho v hv

end Ty

/-! ## Moves. -/

namespace State

variable {own : Prop} {P : Nat → Prop} {s s' s'' : State}

/-- If variables matter, the unifier was made by calls over its variables, and so are the types of the
declarations of which `P` holds. -/
structure Orderly (own : Prop) (P : Nat → Prop) (s : State) : Prop where
  reached : own → s.unifier.Reached
  slots : ∀ id t, P id → s.decls.ty? id = some t → t.Owned own s

/-- An orderly state with no fewer variables, all bound as they were, if they matter, and types for at
most those declarations of which `P` holds and which had none. -/
structure Moves (own : Prop) (P : Nat → Prop) (s s' : State) : Prop where
  orderly : s'.Orderly own P
  vars_le : own → s.vars ≤ s'.vars
  keeps : own → s.unifier.store.Keeps s'.unifier.store
  frame : ∀ id, ¬ P id → s'.decls.get? id = s.decls.get? id
  clear : s'.decls.clear = s.decls.clear
  kept : ∀ id t, s.decls.ty? id = some t → s'.decls.ty? id = some t

lemma Moves.refl (h : s.Orderly own P) : s.Moves own P s :=
  ⟨h, fun _ => le_rfl, fun _ _ _ h => h, fun _ _ => rfl, rfl, fun _ _ h => h⟩

lemma Moves.trans (h : s.Moves own P s') (h' : s'.Moves own P s'') : s.Moves own P s'' where
  orderly := h'.orderly
  vars_le ho := (h.vars_le ho).trans (h'.vars_le ho)
  keeps ho v t ht := h'.keeps ho v t (h.keeps ho v t ht)
  frame id hid := (h'.frame id hid).trans (h.frame id hid)
  clear := h'.clear.trans h.clear
  kept id t ht := h'.kept id t (h.kept id t ht)

lemma Moves.labels (h : s.Moves own P s') (id : Nat) : s'.decls.label? id = s.decls.label? id :=
  Declarations.label?_of_clear h.clear id

end State

lemma Ty.Owned.mono {own : Prop} {P : Nat → Prop} {s s' : State} {t : Ty} (h : t.Owned own s)
    (m : s.Moves own P s') : t.Owned own s' :=
  fun ho v hv => (h ho v hv).trans_le (m.vars_le ho)

lemma Ty.Owned.all_mono {own : Prop} {P : Nat → Prop} {s s' : State} {ts : List Ty}
    (h : ∀ t ∈ ts, t.Owned own s) (m : s.Moves own P s') : ∀ t ∈ ts, t.Owned own s' :=
  fun t ht => (h t ht).mono m

/-- Moves of orderly states. If variables matter, no walk goes on forever. -/
abbrev moving (own : Prop) (P : Nat → Prop) : Regime where
  Valid := Orderly own P
  Keeps := Moves own P
  Owns := Ty.Owned own
  Fails e := own → e ≠ .divergence
  refl := .refl
  trans := .trans
  valid := Moves.orderly
  mono m h := h.mono m

/-- The computation moves an orderly state, and `Q` holds of its result. -/
abbrev Runs (own : Prop) (P : Nat → Prop) {α : Type} (x : CheckM α) (s : State)
    (Q : α → State → Prop) : Prop := (moving own P).Runs x s Q

/-- The step moves an orderly state, and `Q` holds of its result if there is one. -/
abbrev Tries (own : Prop) (P : Nat → Prop) {α : Type} (x : CheckM (Verdict α)) (s : State)
    (Q : α → State → Prop) : Prop := (moving own P).Tries x s Q

/-- The walk moves an orderly state, and `Q` holds of its result if there is one. -/
abbrev Visits (own : Prop) (P : Nat → Prop) {ν α : Type} (x : CheckM (Visited ν α)) (s : State)
    (Q : α → State → Prop) : Prop := (moving own P).Visits x s Q

section

variable {own : Prop} {P : Nat → Prop} {ν π α β : Type} {s : State}

lemma Visits.fail {Q : α → State → Prop} {n : ν} {e : TypeError} :
    Visits own P (CheckM.fail n e) s Q := Regime.Visits.fail fun _ h => by cases h

/-- What a walk from an orderly state has done if it ends with a result. -/
lemma Visits.ensures {x : CheckM (Visited ν α)} {Q : α → State → Prop} (h : Visits own P x s Q)
    (o : s.Orderly own P) : Ensures x s (fun _ a s' => s.Moves own P s' ∧ Q a s') fun _ => True :=
  Ensures.imp (Regime.Visits.ensures h o) (fun _ _ _ h => h) fun _ _ => trivial

/-- Every state is orderly if variables do not matter. -/
lemma State.orderly_false : s.Orderly False P := ⟨False.elim, fun _ _ _ _ h => h.elim⟩

/-- What is found at the end of a chain of bindings. -/
lemma State.Orderly.owned_head? (o : s.Orderly own P) {t u : Ty}
    (h : s.unifier.store.head? t = some u) (ht : t.Owned own s) : u.Owned own s := fun ho =>
  Ty.inside_true.1 ((o.reached ho).tidy.store.inside_head? (Store.closed_univ _) h
    (Ty.inside_true.2 (ht ho)))

/-! ## Steps. -/

/-- What a call does to the unifier it does to the state. -/
lemma State.Orderly.call (o : s.Orderly own P) {u : Unifier} (reached : own → u.Reached)
    (grows : own → Store.Grows True Set.univ s.unifier.store u.store) :
    s.Moves own P { s with unifier := u } where
  orderly :=
    ⟨reached, fun id t hp ht ho v hv => (o.slots id t hp ht ho v hv).trans_le (grows ho).size_le⟩
  vars_le ho := (grows ho).size_le
  keeps ho := (grows ho).keeps
  frame _ _ := rfl
  clear := rfl
  kept _ _ h := h

/-- A new variable with an unbound cell over the variables there are. -/
lemma Runs.allocate {c : Cell} (unbound : c.Unbound) (hc : ∀ t ∈ c.contents, t.Owned own s) :
    Runs own P (allocate c) s (Ty.Owned own) := fun o => by
  have size : (s.grow c).vars = s.vars + 1 := Unifier.size_allocate s.unifier c
  have call (ho : own) : ∃ k : Unifier.Call, k.Scoped s.unifier ∧
      (s.grow c).unifier = (k.run s.unifier).2 := by
    cases c with
    | bound t => exact absurd rfl (unbound t)
    | free => exact ⟨.fresh, (fun t ht => by cases ht), rfl⟩
    | setOrInteger e => exact ⟨.setOrInteger e, fun t ht => hc t ht ho, rfl⟩
    | integerOrPairs l r => exact ⟨.integerOrPairs l r, fun t ht => hc t ht ho, rfl⟩
  refine ⟨o.call (fun ho => ?_) fun ho => ?_, fun _ v hv => ?_⟩
  · obtain ⟨k, scope, run⟩ := call ho
    show (s.grow c).unifier.Reached
    rw [run]
    exact .call k (o.reached ho) scope
  · obtain ⟨k, scope, run⟩ := call ho
    show Store.Grows True Set.univ s.unifier.store (s.grow c).unifier.store
    rw [run]
    exact ((o.reached ho).tidy.run_call scope).2.1
  · rw [run_allocate, Ty.vars, List.mem_singleton] at hv
    rw [hv]
    exact (Nat.lt_succ_self _).trans_eq size.symm

lemma Runs.fresh : Runs own P fresh s (Ty.Owned own) :=
  .allocate (fun t h => by cases h) fun t ht => by cases ht

lemma Tries.resolve (t : Ty) : Tries own P (resolve t) s fun _ _ => True := fun o => by
  cases ht : s.unifier.store.resolve? t with
  | some u =>
    have run : State.resolve t s = (.ok u, s) := by
      simp only [State.resolve, Bind.bind, StateT.bind, get, getThe, MonadStateOf.get, StateT.get,
        Pure.pure, ht]
      rfl
    rw [run]
    exact ⟨.refl o, trivial⟩
  | none =>
    have run : State.resolve t s = (.error .divergence, s) := by
      simp only [State.resolve, Bind.bind, StateT.bind, get, getThe, MonadStateOf.get, StateT.get,
        Pure.pure, ht]
      rfl
    rw [run]
    refine ⟨.refl o, fun ho => ?_⟩
    obtain ⟨u, hu⟩ := (o.reached ho).tidy.store.acyclic.exists_resolve? t
    rw [ht] at hu
    cases hu

lemma Tries.mismatch {Q : α → State → Prop} (site : Site) (l r : Ty) {e : Halt UnifyError}
    (h : own → e ≠ .divergence) : Tries own P (mismatch site l r e) s Q := by
  cases e with
  | divergence => exact .pure fun ho => absurd rfl (h ho)
  | error cause =>
    refine Regime.Runs.bind (Tries.resolve l) fun v s₁ _ hv => ?_
    obtain e | l := v
    · exact .pure hv
    · refine Regime.Runs.bind (Tries.resolve r) fun w s₂ _ hw => ?_
      obtain e | r := w
      · exact .pure hw
      · exact .pure fun _ h => by cases h

lemma Tries.unifyAt (site : Site) {l r : Ty} (hl : l.Owned own s) (hr : r.Owned own s) :
    Tries own P (unifyAt site l r) s (Ty.Owned own) := by
  have call : Runs own P (onUnifier (Unifier.unify l r)) s fun v s' =>
      (∀ t, v = .ok t → t.Owned own s') ∧ ∀ e, v = .error e → own → e ≠ .divergence := fun o => by
    have spec (ho : own) := (o.reached ho).tidy.unify_spec (Ty.inside_true.2 (hl ho))
      (Ty.inside_true.2 (hr ho))
    have reached (ho : own) : (Unifier.unify l r s.unifier).2.Reached := by
      have h := Unifier.Reached.call (.unify l r) (o.reached ho) fun t ht => by
        obtain rfl | ht := List.mem_cons.1 ht
        · exact hl ho
        · rw [List.mem_singleton.1 ht]
          exact hr ho
      rw [Unifier.Call.run, run_discard] at h
      revert h
      obtain ⟨_ | _, _⟩ := Unifier.unify l r s.unifier <;> exact id
    have moves := o.call reached fun ho => (spec ho).1.store
    rw [run_onUnifier]
    revert spec moves
    obtain ⟨e | t, u⟩ := Unifier.unify l r s.unifier
    · refine fun spec moves => ⟨moves, (fun _ h => by cases h), fun e' h ho => ?_⟩
      cases h
      exact fun h => (spec ho).2.1 (by rw [h])
    · refine fun spec moves => ⟨moves, fun t' h ho => ?_, fun _ h => by cases h⟩
      cases h
      exact Ty.inside_true.1 ((spec ho).2.2 t rfl)
  refine Regime.Runs.bind call fun v s' m hv => ?_
  obtain e | t := v
  · exact Tries.mismatch site l r (hv.2 e rfl)
  · exact .pure (hv.1 t rfl)

lemma Tries.linkAt (site : Site) (l r : Ty) {link : ProductLink}
    (h : ∀ t ∈ link.parts, t.Owned own s) :
    Tries own P (linkAt site l r link) s fun _ _ => True := by
  have call : Runs own P (onUnifier (Unifier.link link)) s fun v _ =>
      ∀ e, v = .error e → own → e ≠ .divergence := fun o => by
    have scope (ho : own) : (Unifier.Call.link link).Scoped s.unifier := fun t ht => h t ht ho
    have spec (ho : own) := (o.reached ho).tidy.run_call (scope ho)
    have moves := o.call (fun ho => Unifier.Reached.call (.link link) (o.reached ho) (scope ho))
      fun ho => (spec ho).2.1
    rw [run_onUnifier]
    refine ⟨moves, ?_⟩
    revert spec
    rw [Unifier.Call.run]
    obtain ⟨e | t, u⟩ := Unifier.link link s.unifier
    · intro spec e' h ho
      cases h
      exact fun h => (spec ho).2.2 (by rw [h])
    · exact fun _ _ h => by cases h
  refine Regime.Runs.bind call fun v s' m hv => ?_
  obtain e | t := v
  · exact Tries.mismatch site l r (hv e rfl)
  · exact .pure trivial

/-- Looking up the type of a declaration changes at most that declaration. -/
lemma Runs.declaredType {id : Nat} (h : P id) :
    Runs own P (declaredType id) s fun o s' => ∀ t ∈ o, t.Owned own s' := fun o => by
  obtain ⟨-, run⟩ | ⟨t, ht, run⟩ | ⟨exist, empty, run⟩ := declaredType_cases id s
  · rw [run]
    exact ⟨.refl o, fun t ht => by cases ht⟩
  · rw [run]
    refine ⟨.refl o, fun u hu => ?_⟩
    cases hu
    exact o.slots id t h ht
  · rw [run]
    obtain ⟨m, found⟩ := Runs.fresh o
    rw [run_fresh] at m found
    refine ⟨⟨⟨m.orderly.reached, fun i t hi ht => ?_⟩, m.vars_le, m.keeps, fun i hi => ?_,
      Declarations.clear_setTy _ _ _, fun i t ht => ?_⟩, fun t ht => ?_⟩
    · rw [seed, ty?_setTy exist] at ht
      split at ht
      · cases ht
        exact found
      · exact m.orderly.slots i t hi ht
    · have ne : id ≠ i := by
        rintro rfl
        exact hi h
      rw [seed, Declarations.get?_setTy, if_neg ne]
    · have ne : id ≠ i := by
        rintro rfl
        rw [empty] at ht
        cases ht
      rw [seed, ty?_setTy exist, if_neg ne, ht]
    · cases ht
      exact found

lemma Runs.report (e : Event) : Runs own P (report e) s fun _ _ => True :=
  fun o => ⟨⟨⟨o.reached, o.slots⟩, fun _ => le_rfl, fun _ _ _ h => h, fun _ _ => rfl, rfl,
    fun _ _ h => h⟩, trivial⟩

/-- The steps of walks move orderly states. -/
abbrev frame (own : Prop) (P : Nat → Prop) : Discipline where
  toRegime := moving own P
  Mentions := P
  Products := True
  ground h := Ty.owned_of_vars_eq_nil (Ty.vars_of_isConcrete h)
  set := Ty.Owned.set
  couple := Ty.Owned.couple
  record := Ty.owned_record
  head o := o.owned_head?
  headless o h ho := by
    obtain ⟨u, hu⟩ := (o.reached ho).tidy.store.acyclic.exists_head? _
    cases h.symm.trans hu
  refuses _ _ h := by cases h
  fresh := Runs.fresh
  choice := Regime.Runs.bind Runs.fresh fun t s' _ ht =>
    Runs.allocate (fun _ h => by cases h) fun u hu => by rwa [List.mem_singleton.1 hu]
  allocate _ := Runs.allocate
  lookUp := Runs.declaredType
  report := Runs.report
  resolve := Tries.resolve
  unifyAt := Tries.unifyAt
  linkAt site l r _ _ := Tries.linkAt site l r

end

/-- Walking through the node moves orderly states, and its type is over their variables. -/
abbrev Node.Visit (own : Prop) (P : Nat → Prop) (n : Node) : Prop := n.Follows (frame own P)

/-- Walking through a tree changes at most the declarations that its nodes mention. If the types of
these are over the variables of the unifier, this is used by calls over its variables, and the walk
comes to an end. -/
theorem Node.visits (own : Prop) {P : Nat → Prop} {n : Node} (h : ∀ id, n.Mentions id → P id) :
    n.Visit own P := Node.follows (frame own P) h fun _ _ _ => trivial

end BMethod
