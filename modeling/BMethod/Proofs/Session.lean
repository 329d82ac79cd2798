import BMethod.Proofs.Soundness
import BMethod.Proofs.Typing.Frame

/-!
# Checks one after the other

Expressions and predicates are checked against the types that earlier checks have left in the slots
of the declarations. A check that succeeds leaves concrete types. One that fails may leave variables
of its own unifier, which mean nothing to the next check: that one has a new unifier, whose variables
have the same numbers.

So a check that meets no such slot comes to an end, using its unifier by calls over its own variables
(`session_total`), and it leaves every other slot that has no variables as it was (`session_frame`).
With variables from an earlier check neither holds.
-/

namespace BMethod

open State

/-! ## Types without variables. -/

/-- The slot of the declaration is empty, or its type has no variables. -/
def Declarations.Closed (ds : Declarations) (id : Nat) : Prop :=
  ∀ t, ds.ty? id = some t → t.vars = []

lemma Declarations.closed_congr {ds ds' : Declarations} {id : Nat} (h : ds'.get? id = ds.get? id)
    (closed : ds.Closed id) : ds'.Closed id := by
  rwa [Closed, ty?, h]

/-- There is nothing to learn about a type without variables. -/
lemma Declaration.settle_of_closed (s : Store) {d : Declaration}
    (h : ∀ t, d.ty = some t → t.vars = []) : d.settle s = d := by
  obtain ⟨name, span, _ | t, qualifier⟩ := d
  · rfl
  · simp [settle, s.resolve?_of_vars_eq_nil (h t rfl)]

/-! ## Concluding. -/

/-- The first declaration is settled before the others, or the rest is left as it is. -/
lemma settleDeclarations_cons (s : Store) (d : Declaration) (ds : List Declaration) :
    (settleDeclarations s (d :: ds) =
        (d.settle s :: (settleDeclarations s ds).1, (settleDeclarations s ds).2) ∧
      ∀ t, (d.settle s).ty = some t → t.isConcrete = true) ∨
    ∃ e, settleDeclarations s (d :: ds) = (d :: ds, .error e) := by
  obtain ⟨name, span, _ | t, qualifier⟩ := d
  · exact .inl ⟨rfl, fun t h => by cases h⟩
  · cases found : s.resolve? t with
    | none => exact .inr ⟨_, by simp only [settleDeclarations, found]; rfl⟩
    | some r =>
      by_cases hc : r.isConcrete = true
      · refine .inl ⟨by simp [settleDeclarations, Declaration.settle, found, hc], fun u hu => ?_⟩
        obtain rfl : r = u := by simpa [Declaration.settle, found] using hu
        exact hc
      · exact .inr ⟨_, by simp only [settleDeclarations, found, if_neg hc]; rfl⟩

/-- Whether settling declarations succeeds or not, one whose type has no variables stays as it is. -/
lemma settleDeclarations_frame (s : Store) (ds : List Declaration) {i : Nat}
    (h : ∀ d ∈ ds[i]?, ∀ t, d.ty = some t → t.vars = []) :
    (settleDeclarations s ds).1[i]? = ds[i]? := by
  induction ds generalizing i with
  | nil => rfl
  | cons d ds ih =>
    obtain ⟨run, -⟩ | ⟨e, run⟩ := settleDeclarations_cons s d ds
    · rw [run]
      cases i with
      | zero =>
        rw [List.getElem?_cons_zero, List.getElem?_cons_zero, Declaration.settle_of_closed s (h d rfl)]
      | succ i => exact ih h
    · rw [run]

/-- If settling declarations succeeds, their types are concrete. -/
lemma settleDeclarations_concrete (s : Store) {ds : List Declaration}
    (ok : (settleDeclarations s ds).2 = .ok ()) :
    ∀ d ∈ (settleDeclarations s ds).1, ∀ t, d.ty = some t → t.isConcrete = true := by
  induction ds with
  | nil => exact fun _ hd => by cases hd
  | cons d ds ih =>
    obtain ⟨run, concrete⟩ | ⟨e, run⟩ := settleDeclarations_cons s d ds
    · rw [run] at ok ⊢
      exact List.forall_mem_cons.2 ⟨concrete, ih ok⟩
    · rw [run] at ok
      cases ok

/-- What is left in the slots when all declarations have been settled, or some of them. -/
lemma State.settleAllDeclarations_frame (s : State) :
    ∃ v ds, settleAllDeclarations s = (v, { s with decls := ds }) ∧
      (s.unifier.store.Acyclic → v ≠ .error .divergence) ∧
      (∀ id, s.decls.Closed id → ds.get? id = s.decls.get? id) ∧
      (v = .ok () → ∀ id, ds.Closed id) := by
  refine ⟨_, _, rfl, fun ac h => ?_, fun id closed => ?_, fun ok id t ht => ?_⟩
  · obtain ⟨run, -⟩ | ⟨ds, e, run, -⟩ := ac.settleDeclarations_spec s.decls.all.toList <;>
      rw [run] at h <;> cases h
  · rw [Declarations.get?, List.getElem?_toArray, settleDeclarations_frame, Array.getElem?_toList,
      Declarations.get?]
    intro d hd t ht
    rw [Array.getElem?_toList] at hd
    exact closed t (by rw [Declarations.ty?, Declarations.get?, Option.mem_def.1 hd]; exact ht)
  · obtain ⟨d, hd, ht⟩ := Option.bind_eq_some_iff.1 ht
    rw [Declarations.get?, List.getElem?_toArray] at hd
    exact Ty.vars_of_isConcrete
      (settleDeclarations_concrete _ ok d (List.mem_of_getElem? hd) t ht)

/-- New variables are a call each. -/
lemma Unifier.Refreshed.reached {u u' : Unifier} (h : u.Refreshed u') (reached : u.Reached) :
    u'.Reached := by
  induction h with
  | refl => exact reached
  | tail _ e ih =>
    subst e
    exact .call .fresh ih fun t ht => by cases ht

/-! ## Complete checks. -/

section

variable {own : Prop} {P : Nat → Prop} {ν π τ α β : Type} {s s' s'' : State}

/-- What a complete check leaves: slots of which `P` does not hold are as they were unless they had
variables, and none has variables if the check has succeeded. If variables matter, the unifier was
used by calls over its variables, and the check has come to an end. -/
structure Completed (own : Prop) (P : Nat → Prop) (s : State) (v : Verdict α) (s' : State) : Prop where
  reached : own → s'.unifier.Reached
  ends : own → v ≠ .error .divergence
  frame : ∀ id, ¬ P id → s.decls.Closed id → s'.decls.get? id = s.decls.get? id
  closed : v.isOk = true → ∀ id, s'.decls.Closed id

/-- Running the computation from an orderly state completes a check. -/
def Completes (own : Prop) (P : Nat → Prop) (x : CheckM (Visited ν α)) (s : State) : Prop :=
  s.Orderly own P → Completed own P s (x s).1.2 (x s).2

lemma Completed.of_error (o : s.Orderly own P) {e : Halt TypeError} (h : own → e ≠ .divergence) :
    Completed own P s (.error e : Verdict α) s where
  reached := o.reached
  ends ho eq := h ho (by simpa using eq)
  frame _ _ _ := rfl
  closed ok := by cases ok

lemma Completed.trans {v : Verdict α} (m : s.Moves own P s') (c : Completed own P s' v s'') :
    Completed own P s v s'' where
  reached := c.reached
  ends := c.ends
  frame id hid closed :=
    (c.frame id hid (Declarations.closed_congr (m.frame id hid) closed)).trans (m.frame id hid)
  closed := c.closed

lemma Completes.fail {n : ν} {e : TypeError} :
    Completes own P (CheckM.fail n e : CheckM (Visited ν α)) s :=
  fun o => .of_error o fun _ h => by cases h

lemma Completes.bind {x : CheckM α} {f : α → CheckM (Visited ν β)} {Q : α → State → Prop}
    (hx : Runs own P x s Q) (hf : ∀ a s', s.Moves own P s' → Q a s' → Completes own P (f a) s') :
    Completes own P (x >>= f) s := fun o => by
  obtain ⟨m, h⟩ := hx o
  exact (hf _ _ m h m.orderly).trans m

lemma Completes.andThen {part : CheckM (Visited π α)} {whole : π → ν}
    {next : π → α → CheckM (Visited ν β)} {Q : α → State → Prop} (h : Visits own P part s Q)
    (h' : ∀ p a s', s.Moves own P s' → Q a s' → Completes own P (next p a) s') :
    Completes own P (part.andThen whole next) s := by
  refine .bind h fun r s' m hr => ?_
  obtain ⟨p, e | a⟩ := r
  · exact fun o => .of_error o hr
  · exact h' p a s' m hr

lemma Completes.orFail {step : CheckM (Verdict α)} {n : ν} {next : α → CheckM (Visited ν β)}
    {Q : α → State → Prop} (h : Tries own P step s Q)
    (h' : ∀ a s', s.Moves own P s' → Q a s' → Completes own P (next a) s') :
    Completes own P (step.orFail n next) s := by
  refine .bind h fun r s' m hr => ?_
  obtain e | a := r
  · exact fun o => .of_error o hr
  · exact h' a s' m hr

/-- Concluding completes a check. -/
lemma completes_conclude {tree tree' : τ} {sweep : τ → SweepM τ} {clean : Prop}
    (h : Sweeps s.unifier (sweep tree) clean tree') : Completes own P (conclude tree sweep) s := by
  intro o
  cases run : sweep tree ⟨s, none, none⟩ with
  | none =>
    rw [conclude_of_none run]
    refine .of_error o fun ho => ?_
    obtain ⟨b, w, run'⟩ := h.ends ⟨s, none, none⟩ (o.reached ho).tidy.store.acyclic
    rw [run] at run'
    cases run'
  | some r =>
    obtain ⟨b, w⟩ := r
    -- The sweep may add variables to the unifier, but it leaves the declarations alone.
    obtain ⟨decls, refreshed⟩ := h.frame _ _ _ run
    have reached (ho : own) : w.state.unifier.Reached := refreshed.reached (o.reached ho)
    cases hu : w.undecided with
    | some e =>
      rw [conclude_of_undecided run hu]
      exact ⟨reached, (fun _ h => by cases h), fun id _ _ => by rw [decls], fun h => by cases h⟩
    | none =>
      obtain ⟨v, ds, settle, ends, frame, closed⟩ := settleAllDeclarations_frame w.state
      have go := conclude_of_decided run hu
      rw [decls] at frame
      simp only [CheckM.orFail, Bind.bind, StateT.bind, settle] at go
      rw [go]
      cases v with
      | error e =>
        exact ⟨reached, fun ho h => ends (reached ho).tidy.store.acyclic h,
          fun id _ => frame id, fun h => by cases h⟩
      | ok =>
        cases w.untyped with
        | none =>
          exact ⟨reached, (fun _ h => by cases h), fun id _ => frame id, fun _ => closed rfl⟩
        | some e =>
          exact ⟨reached, (fun _ h => by cases h), fun id _ => frame id, fun h => by cases h⟩

/-- A complete check and then a step that reads its result off. -/
lemma Completes.readOff {x : CheckM (Visited π α)} {whole : π → ν}
    {next : π → α → CheckM (Visited ν β)} (h : Completes own P x s)
    (same : ∀ p a s, (next p a s).2 = s) (ends : ∀ p a s, (next p a s).1.2 ≠ .error .divergence) :
    Completes own P (x.andThen whole next) s := by
  intro o
  have c := h o
  simp only [CheckM.andThen, Bind.bind, StateT.bind]
  revert c
  obtain ⟨⟨p, e | a⟩, s'⟩ := x s
  · exact fun c => ⟨c.reached, fun ho eq => c.ends ho (by cases eq; rfl), c.frame,
      fun ok => by cases ok⟩
  · intro c
    refine ⟨?_, fun _ => ends p a s', ?_, fun _ => ?_⟩
    all_goals rw [same]
    · exact c.reached
    · exact c.frame
    · exact c.closed rfl

/-- The check of an expression on its own is complete. -/
lemma Expr.completes_checkRoot {e : Expr} (h : ∀ id, (Node.expr e).Mentions id → P id) :
    Completes own P (e.checkRoot []) s := by
  refine .bind .fresh fun t s₁ _ ht => .andThen (Node.visits own h s₁ t ht) fun e t s₂ m ht => ?_
  have finish (s : State) : Completes own P (e.finish []) s := by
    refine .orFail (Q := fun _ _ => True) (Regime.Runs.pure trivial) fun _ s₃ _ _ => ?_
    refine .readOff (completes_conclude (Node.swept s₃.unifier (.expr e))) (fun e _ s => ?_)
      fun e _ s => ?_
    · cases e.note.ty <;> rfl
    · cases e.note.ty <;> exact fun h => by cases h
  refine .bind (Q := fun r s => r = s) (fun o => ⟨.refl o, rfl⟩) fun r s₃ _ eq => ?_
  subst eq
  split
  · -- The head of the root's type is looked up first, and is always found.
    rename_i none
    refine fun o => .of_error o fun ho => ?_
    obtain ⟨u, hu⟩ := (o.reached ho).tidy.store.acyclic.exists_head? t
    rw [none] at hu
    cases hu
  · exact .orFail (.resolve t) fun _ _ _ _ => .fail
  · exact finish r

/-- The check of a predicate on its own is complete. -/
lemma Pred.completes_checkRoot {p : Pred} (h : ∀ id, (Node.pred p).Mentions id → P id) :
    Completes own P (p.checkRoot []) s := by
  refine .andThen (Node.visits own h s .bool (Ty.owned_of_vars_eq_nil rfl)) fun p _ s₁ _ _ => ?_
  refine .orFail (Q := fun _ _ => True) (Regime.Runs.pure trivial) fun _ s₂ _ _ => ?_
  refine .readOff (completes_conclude (Node.swept s₂.unifier (.pred p))) (fun p _ s => ?_)
    fun p _ s => ?_
  · cases p.note.ty <;> rfl
  · cases p.note.ty <;> exact fun h => by cases h

end

/-! ## Sessions. -/

namespace Formula

/-- The verdict on an expression or predicate, checked with the types that declarations have. -/
def verdict (ds : Declarations) : Formula → Verdict Ty
  | .expr e => (checkExpression ds e).verdict
  | .pred p => (checkPredicate ds p).verdict

/-- The declarations after the check. -/
def leaves (ds : Declarations) : Formula → Declarations
  | .expr e => (checkExpression ds e).decls
  | .pred p => (checkPredicate ds p).decls

/-- The unifier that the check ends with. -/
def unifier (ds : Declarations) : Formula → Unifier
  | .expr e => (e.checkRoot [] (.start ds)).2.unifier
  | .pred p => (p.checkRoot [] (.start ds)).2.unifier

variable {ds : Declarations}

/-- The check is complete, and variables matter if the declarations that it mentions have none. -/
lemma completed (ds : Declarations) (f : Formula) :
    ∃ s : State, s.decls = f.leaves ds ∧ s.unifier = f.unifier ds ∧
      Completed (∀ id, f.root.Mentions id → ds.Closed id) f.root.Mentions (start ds)
        (f.verdict ds) s := by
  have orderly : (start ds).Orderly (∀ id, f.root.Mentions id → ds.Closed id) f.root.Mentions :=
    ⟨fun _ => .empty, fun id t hid ht ho => by simp [ho id hid t ht]⟩
  cases f with
  | expr e => exact ⟨_, rfl, rfl, Expr.completes_checkRoot (fun _ h => h) orderly⟩
  | pred p => exact ⟨_, rfl, rfl, Pred.completes_checkRoot (fun _ h => h) orderly⟩

end Formula

/-- Declarations that checks may leave, one after the other, if nothing was known at first, and those
of them that were mentioned by checks which have failed since the last success. -/
inductive Session : Declarations → Set Nat → Prop where
  | start {ds : Declarations} : (∀ id, ds.ty? id = none) → Session ds ∅
  | passed {ds : Declarations} {stale : Set Nat} (f : Formula) : Session ds stale →
    (f.verdict ds).isOk = true → Session (f.leaves ds) ∅
  | failed {ds : Declarations} {stale : Set Nat} (f : Formula) : Session ds stale →
    (f.verdict ds).isOk = false → Session (f.leaves ds) (stale ∪ {id | f.root.Mentions id})

variable {ds : Declarations} {stale : Set Nat}

/-- Only checks that have failed leave variables. -/
lemma Session.closed (h : Session ds stale) : ∀ id ∉ stale, ds.Closed id := by
  induction h with
  | start empty => exact fun id _ t ht => by simp [empty id] at ht
  | @passed ds stale f _ ok ih =>
    obtain ⟨s, decls, -, c⟩ := f.completed ds
    rw [← decls]
    exact fun id _ => c.closed ok id
  | @failed ds stale f _ _ ih =>
    obtain ⟨s, decls, -, c⟩ := f.completed ds
    rw [← decls]
    intro id hid
    rw [Set.mem_union, not_or] at hid
    have closed := ih id hid.1
    exact Declarations.closed_congr (c.frame id hid.2 closed) closed

/-- After any checks, of which some may have failed, a check that mentions no declaration with
variables left over comes to an end. At every point the unifier, which has been made by calls, has no
variable that leads back to itself, and searches on it end. -/
theorem session_total (h : Session ds stale) (f : Formula)
    (fresh : ∀ id ∈ stale, f.root.Mentions id → ds.Closed id) :
    f.verdict ds ≠ .error .divergence ∧
      ∃ calls, f.unifier ds = .after calls ∧ ∀ prior, prior <+: calls →
        (Unifier.after prior).store.Acyclic ∧
        ∀ t, (∃ u, (Unifier.after prior).store.head? t = some u) ∧
          (∀ v, ∃ found, (Unifier.after prior).store.occurs? v t = some found) ∧
          ∃ u, (Unifier.after prior).store.resolve? t = some u := by
  have own (id : Nat) (hid : f.root.Mentions id) : ds.Closed id := by
    by_cases hs : id ∈ stale
    · exact fresh id hs hid
    · exact h.closed id hs
  obtain ⟨s, -, unifier, c⟩ := f.completed ds
  obtain ⟨calls, made, reached⟩ := (c.reached own).exists_calls
  refine ⟨c.ends own, calls, unifier.symm.trans made, fun prior le => ?_⟩
  have ac := (reached prior le).tidy.store.acyclic
  exact ⟨ac, fun t => ⟨ac.exists_head? t, fun v => ⟨_, ac.occurs?_eq v t⟩, ac.exists_resolve? t⟩⟩

/-- Three names of which nothing is known. -/
def Declarations.sampleNames : Declarations := ⟨#[.named "x", .named "a", .named "b"]⟩

namespace Formula

/-- The predicate `l = r`. -/
def sampleEqual (l r : Expr) : Pred := .comparison ⟨none, none⟩ .equal [l, r]

/-- The name with a number. -/
def sampleName (id : Nat) : Expr := .identifier ⟨none, none⟩ id (Declarations.sampleNames.nameOf id)

/-- The predicate `1 = 1 ∧ … ∧ x = x`, which says nothing about `x`. -/
def sampleOpen (n : Nat) : Formula :=
  let one := Expr.integer ⟨none, none⟩ 1
  .pred (.connective ⟨none, none⟩ .and
    (.replicate n (sampleEqual one one) ++ [sampleEqual (sampleName 0) (sampleName 0)]))

/-- The predicate `a = 1`. -/
def sampleOne : Formula := .pred (sampleEqual (sampleName 1) (.integer ⟨none, none⟩ 1))

/-- The predicate `a * b = {({x}, 1)} ∧ x = 2`. -/
def sampleProduct : Formula :=
  let apply := Expr.apply ⟨none, none⟩
  let pair := apply .couple [apply .setEnumeration [sampleName 0], .integer ⟨none, none⟩ 1]
  .pred (.connective ⟨none, none⟩ .and
    [sampleEqual (apply .mult [sampleName 1, sampleName 2]) (apply .setEnumeration [pair]),
      sampleEqual (sampleName 0) (.integer ⟨none, none⟩ 2)])

end Formula

/-- The check of `x = x` fails, after `n` comparisons. -/
lemma Session.sampleOpen (n : Nat)
    (failed : ((Formula.sampleOpen n).verdict .sampleNames).isOk = false) :
    Session ((Formula.sampleOpen n).leaves .sampleNames)
      (∅ ∪ {id | (Formula.sampleOpen n).root.Mentions id}) := by
  refine .failed _ (.start ?_) failed
  rintro (_ | _ | _ | id) <;> rfl

/-- After the check of `x = x` has failed, `a = 1` is checked with no trouble. -/
theorem session_total_sampleOne :
    let ds := (Formula.sampleOpen 7).leaves .sampleNames
    Session ds (∅ ∪ {id | (Formula.sampleOpen 7).root.Mentions id}) ∧ ds.ty? 0 = some (.var 8) ∧
      Formula.sampleOne.verdict ds ≠ .error .divergence := by
  intro ds
  have session := Session.sampleOpen 7 (by decide +kernel)
  have other (id : Nat) (h : Formula.sampleOne.root.Mentions id) : id = 1 := by
    obtain ⟨m, hm, hid⟩ := h
    have all : ∀ m ∈ Formula.sampleOne.root.preorder, ∀ i ∈ m.mentions, i = 1 := by decide
    exact all m hm id hid
  refine ⟨session, by decide +kernel, (session_total session _ fun id _ h => ?_).1⟩
  rw [other id h]
  have none : ds.ty? 1 = none := by decide +kernel
  exact fun t ht => by cases none.symm.trans ht

/-- The check of `x = x` has left the variable `?8` in the slot of `x`. The next check gives this
number to an operand of the product, which is then a set of what stands for sets of `?8`. It finds the
circle and goes around in it forever. -/
theorem session_total_stale :
    let ds := (Formula.sampleOpen 7).leaves .sampleNames
    Session ds (∅ ∪ {id | (Formula.sampleOpen 7).root.Mentions id}) ∧
      Formula.sampleProduct.verdict ds = .error .divergence ∧
      ¬ (Formula.sampleProduct.unifier ds).store.Acyclic := by
  intro ds
  refine ⟨Session.sampleOpen 7 (by decide +kernel), by decide +kernel, fun ac => ?_⟩
  obtain ⟨t, ht⟩ := ac.exists_resolve? (.var 8)
  have none : (Formula.sampleProduct.unifier ds).store.resolve? (.var 8) = none := by decide +kernel
  rw [none] at ht
  cases ht

/-- After any checks, of which some may have failed, a further check leaves a declaration that it
does not mention exactly as it was, unless variables were left over in its slot. -/
theorem session_frame (h : Session ds stale) (f : Formula) {id : Nat} (hid : ¬ f.root.Mentions id)
    (fresh : id ∈ stale → ds.Closed id) : (f.leaves ds).get? id = ds.get? id := by
  have closed : ds.Closed id := by
    by_cases hs : id ∈ stale
    · exact fresh hs
    · exact h.closed id hs
  obtain ⟨s, decls, -, c⟩ := f.completed ds
  rw [← decls]
  exact c.frame id hid closed

/-- After the check of `x = x` has failed, `a = 1` leaves `b` alone. -/
theorem session_frame_sampleOne :
    let ds := (Formula.sampleOpen 0).leaves .sampleNames
    Session ds (∅ ∪ {id | (Formula.sampleOpen 0).root.Mentions id}) ∧
      (Formula.sampleOne.verdict ds).isOk = true ∧ (Formula.sampleOne.leaves ds).get? 2 = ds.get? 2 := by
  intro ds
  have session := Session.sampleOpen 0 (by decide +kernel)
  refine ⟨session, by decide +kernel, session_frame session _ ?_ fun _ => ?_⟩
  · rintro ⟨m, hm, hid⟩
    have all : ∀ m ∈ Formula.sampleOne.root.preorder, 2 ∉ m.mentions := by decide
    exact all m hm hid
  · have none : ds.ty? 2 = none := by decide +kernel
    exact fun t ht => by cases none.symm.trans ht

/-- The check of `x = x` has left the variable `?1` in the slot of `x`, and `a = 1` gives this number
to the type of `a`. So it succeeds and makes an integer of `x`, which it does not mention. -/
theorem session_frame_stale :
    let ds := (Formula.sampleOpen 0).leaves .sampleNames
    Session ds (∅ ∪ {id | (Formula.sampleOpen 0).root.Mentions id}) ∧
      (Formula.sampleOne.verdict ds).isOk = true ∧ ¬ Formula.sampleOne.root.Mentions 0 ∧
      ds.ty? 0 = some (.var 1) ∧ (Formula.sampleOne.leaves ds).ty? 0 = some .integer := by
  intro ds
  refine ⟨Session.sampleOpen 0 (by decide +kernel), by decide +kernel, ?_, by decide +kernel,
    by decide +kernel⟩
  rintro ⟨m, hm, hid⟩
  have all : ∀ m ∈ Formula.sampleOne.root.preorder, 0 ∉ m.mentions := by decide
  exact all m hm hid

end BMethod
