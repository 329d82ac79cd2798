import BMethod.Proofs.Typing.Conclude

/-!
# What a conclusion reports

The sweep visits the nodes of a tree from the leaves up, fills what it knows completely and remembers
the first failure of each of two kinds (`Finds`). Which failures there are does not depend on what the
sweep has done before: all it adds to the unifier are variables of which nothing is known
(`Unifier.Refreshed.resolve?`). The conclusion then chooses between them and the declarations
(`conclude_reports`).
-/

namespace BMethod

open State

/-! ## Slots. -/

namespace Store

variable {s s' : Store}

lemma resolveWithin_congr (cells : s'.cell = s.cell) (n : Nat) (t : Ty) :
    s'.resolveWithin n t = s.resolveWithin n t := by
  have expand (inside : Ty → Option Ty) : s'.expand inside = s.expand inside := by
    funext v
    simp only [Store.expand, cells]
  induction n generalizing t with
  | zero => rw [resolveWithin, resolveWithin, expand]
  | succ n ih => rw [resolveWithin, resolveWithin, expand, funext ih]

/-- The type in a slot, if it is known completely. -/
def concrete? (s : Store) (n : Note) : Option Ty := (n.ty >>= s.resolve?).filter (·.isConcrete)

/-- Fills the slots whose types are known completely, settles how operators under them are read, and
leaves all others as they are. -/
def settling (s : Store) : Stamp where
  note n := (s.concrete? n).elim n n.withTy
  op n op := (s.concrete? n >>= op.reread?).getD op

end Store

namespace Unifier.Refreshed

variable {u u' : Unifier}

lemma cell_eq (h : u.Refreshed u') : u'.store.cell = u.store.cell := by
  induction h with
  | refl => rfl
  | tail _ e ih =>
    subst e
    exact (Store.cell_allocate_free _).trans ih

lemma size_le (h : u.Refreshed u') : u.store.cells.size ≤ u'.store.cells.size := by
  induction h with
  | refl => exact le_rfl
  | tail _ e ih =>
    subst e
    exact ih.trans (by simp [allocate, Store.allocate])

/-- New variables of which nothing is known leave all types as they were. -/
lemma resolve? (h : u.Refreshed u') (ac : u.store.Acyclic) (t : Ty) :
    u'.store.resolve? t = u.store.resolve? t := by
  obtain ⟨r, hr⟩ := ac.exists_resolve? t
  rw [hr, Store.resolve?, Store.resolveWithin_congr h.cell_eq]
  exact Store.resolveWithin_mono h.size_le hr

end Unifier.Refreshed

namespace Node

/-- A difference, a product or an empty collection. -/
def isTracked : Node → Bool
  | .expr (.apply _ op _) => op.isTracked
  | _ => false

/-- The error that a node with a type other than a concrete one leads to. -/
def complaint? (t : Ty) : Node → Option TypeError
  | .expr (.apply n op args) =>
    if op.isTracked then some (.unresolved .operator op.name t n.span)
    else some (.unresolved .expression (Expr.apply n op args).describe t n.span)
  | .expr e => some (.unresolved .expression e.describe t e.note.span)
  | .pred p => some (.unresolved .expression p.describe t p.note.span)
  | .substitution _ | .ltl _ => none

/-- The node has a slot, and what is known of the slot is no concrete type; it leads to the error. An
empty slot counts as a new variable. -/
def Complains (s : Store) (n : Node) (e : TypeError) : Prop :=
  ∃ t, t.isConcrete = false ∧ (∀ slot, n.slot = some slot → s.resolve? slot = some t) ∧
    (n.slot = none → ∃ v, s.cells.size ≤ v ∧ t = .var v) ∧ n.complaint? t = some e

/-- The node leads to the error, and is a tracked operator or not. -/
def Fails (s : Store) (tracked : Bool) (n : Node) (e : TypeError) : Prop :=
  n.isTracked = tracked ∧ n.Complains s e

lemma not_complains_of_slotless {n : Node} {s : Store} (h : n.hasSlot = false) (e : TypeError) :
    ¬ n.Complains s e := by
  rintro ⟨t, -, -, -, complaint⟩
  cases n with
  | expr | pred => cases h
  | substitution | ltl => cases complaint

end Node

/-- The first error of a kind that nodes lead to, if any of them does. -/
def FirstOf (p : Node → TypeError → Prop) (ns : List Node) : Option TypeError → Prop
  | none => ∀ n ∈ ns, ∀ e, ¬ p n e
  | some e => ∃ before n after, ns = before ++ n :: after ∧ (∀ m ∈ before, ∀ e, ¬ p m e) ∧ p n e

lemma FirstOf.append {p : Node → TypeError → Prop} {ns ms : List Node} {r r' : Option TypeError}
    (h : FirstOf p ns r) (h' : FirstOf p ms r') : FirstOf p (ns ++ ms) (r <|> r') := by
  cases r with
  | some e =>
    obtain ⟨before, n, after, rfl, none', first⟩ := h
    exact ⟨before, n, after ++ ms, by simp, none', first⟩
  | none =>
    cases r' with
    | none => exact List.forall_mem_append.2 ⟨h, h'⟩
    | some e =>
      obtain ⟨before, n, after, rfl, none', first⟩ := h'
      exact ⟨ns ++ before, n, after, by simp, List.forall_mem_append.2 ⟨h, none'⟩, first⟩

lemma FirstOf.quiet {p : Node → TypeError → Prop} {ns : List Node} (h : ∀ n ∈ ns, ∀ e, ¬ p n e) :
    FirstOf p ns none := h

lemma FirstOf.single {p : Node → TypeError → Prop} {n : Node} {e : TypeError} (h : p n e) :
    FirstOf p [n] (some e) :=
  ⟨[], n, [], rfl, nofun, h⟩

lemma Expr.withNote_note (e : Expr) : e.withNote e.note = e := by cases e <;> rfl

lemma Pred.withNote_note (p : Pred) : p.withNote p.note = p := by cases p <;> rfl

/-! ## The sweep. -/

/-- Remembers an error, if it is the first of its kind. -/
def Sweep.remember (tracked : Bool) (e : TypeError) (w : Sweep) : Sweep :=
  if tracked then { w with undecided := w.undecided <|> some e }
  else { w with untyped := w.untyped <|> some e }

section

variable {α β : Type} {u : Unifier}

/-- The sweep has visited the nodes. It has changed the unifier by new variables of which nothing is
known and left the declarations alone, and it remembers the first errors of the nodes. -/
structure Found (u : Unifier) (ns : List Node) (w w' : Sweep) : Prop where
  refreshed : u.Refreshed w'.state.unifier
  decls : w'.state.decls = w.state.decls
  undecided : ∃ r, FirstOf (Node.Fails u.store true) ns r ∧ w'.undecided = (w.undecided <|> r)
  untyped : ∃ r, FirstOf (Node.Fails u.store false) ns r ∧ w'.untyped = (w.untyped <|> r)

/-- The sweep ends with the result, having visited the nodes. -/
def Finds (u : Unifier) (x : SweepM α) (ns : List Node) (a : α) : Prop :=
  ∀ w : Sweep, u.Refreshed w.state.unifier → ∃ w', x w = some (a, w') ∧ Found u ns w w'

/-- Nothing is found among nodes that lead to no error. -/
lemma found_nothing {ns : List Node} (quiet : ∀ n ∈ ns, ∀ e, ¬ n.Complains u.store e) {w w' : Sweep}
    (refreshed : u.Refreshed w'.state.unifier) (decls : w'.state.decls = w.state.decls)
    (undecided : w'.undecided = w.undecided) (untyped : w'.untyped = w.untyped) : Found u ns w w' where
  refreshed := refreshed
  decls := decls
  undecided := ⟨none, .quiet fun n mem e h => quiet n mem e h.2, by simp [undecided]⟩
  untyped := ⟨none, .quiet fun n mem e h => quiet n mem e h.2, by simp [untyped]⟩

/-- The error of one node is found. -/
lemma found_single {n : Node} {e : TypeError} (h : n.Complains u.store e) {w : Sweep}
    (refreshed : u.Refreshed w.state.unifier) : Found u [n] w (w.remember n.isTracked e) := by
  cases tracked : n.isTracked with
  | true =>
    exact ⟨refreshed, rfl, ⟨some e, .single ⟨tracked, h⟩, rfl⟩,
      ⟨none, .quiet (by simp [Node.Fails, tracked]), by simp [Sweep.remember]⟩⟩
  | false =>
    exact ⟨refreshed, rfl, ⟨none, .quiet (by simp [Node.Fails, tracked]), by simp [Sweep.remember]⟩,
      ⟨some e, .single ⟨tracked, h⟩, rfl⟩⟩

lemma Found.trans {ns ms : List Node} {w₁ w₂ w₃ : Sweep} (h : Found u ns w₁ w₂)
    (h' : Found u ms w₂ w₃) : Found u (ns ++ ms) w₁ w₃ where
  refreshed := h'.refreshed
  decls := h'.decls.trans h.decls
  undecided := by
    obtain ⟨r, first, eq⟩ := h.undecided
    obtain ⟨r', first', eq'⟩ := h'.undecided
    refine ⟨r <|> r', first.append first', ?_⟩
    rw [eq', eq]
    cases w₁.undecided <;> rfl
  untyped := by
    obtain ⟨r, first, eq⟩ := h.untyped
    obtain ⟨r', first', eq'⟩ := h'.untyped
    refine ⟨r <|> r', first.append first', ?_⟩
    rw [eq', eq]
    cases w₁.untyped <;> rfl

lemma finds_pure (a : α) {ns : List Node} (h : ∀ n ∈ ns, n.hasSlot = false) :
    Finds u (pure a) ns a := fun w refreshed =>
  ⟨w, rfl, found_nothing (fun n mem => Node.not_complains_of_slotless (h n mem)) refreshed rfl rfl rfl⟩

lemma Finds.bind {x : SweepM α} {f : α → SweepM β} {ns ms : List Node} {a : α} {b : α → β}
    (hx : Finds u x ns a) (hf : ∀ a', Finds u (f a') ms (b a')) :
    Finds u (x >>= f) (ns ++ ms) (b a) := by
  intro w refreshed
  obtain ⟨w₁, run, found⟩ := hx w refreshed
  obtain ⟨w₂, run₂, found₂⟩ := hf a w₁ found.refreshed
  exact ⟨w₂, Option.bind_eq_some_iff.2 ⟨(a, w₁), run, run₂⟩, found.trans found₂⟩

/-- A step that is told the type in the slot of a node: it fills the slot if the type is concrete, and
else remembers what the node leads to. -/
structure Settles (n : Node) (next : Ty → SweepM α) (fill : Ty → α) (keep : α) : Prop where
  concrete : ∀ t w, t.isConcrete = true → ∃ state : State, next t w = some (fill t, { w with state }) ∧
    state.unifier = w.state.unifier ∧ state.decls = w.state.decls
  vague : ∀ t w, t.isConcrete = false → ∃ e, n.complaint? t = some e ∧
    next t w = some (keep, w.remember n.isTracked e)

/-- The step at a node with a slot. -/
lemma Settles.finds {n : Node} {note : Note} {next : Ty → SweepM α} {fill : Ty → α} {keep : α}
    (h : Settles n next fill keep) (ac : u.store.Acyclic) (slot : n.slot = note.ty) :
    Finds u (Sweep.slotType note >>= next) [n] ((u.store.concrete? note).elim keep fill) := by
  intro w refreshed
  obtain ⟨empty, run⟩ | ⟨t, filled, run⟩ := Sweep.slotType_cases note w
  · -- An empty slot gives a new variable, which is not concrete.
    obtain ⟨e, complaint, run'⟩ :=
      h.vague (.var w.state.vars) { w with state := w.state.grow .free } rfl
    have complains : n.Complains u.store e :=
      ⟨_, rfl, by simp [slot, empty], fun _ => ⟨_, refreshed.size_le, rfl⟩, complaint⟩
    rw [show u.store.concrete? note = none by simp [Store.concrete?, empty]]
    have grown : u.Refreshed (w.state.grow .free).unifier := refreshed.tail rfl
    have found := @found_single u n e complains { w with state := w.state.grow .free } grown
    exact ⟨_, Option.bind_eq_some_iff.2 ⟨_, run, run'⟩,
      ⟨found.refreshed, found.decls, found.undecided, found.untyped⟩⟩
  · obtain ⟨r, hr⟩ := ac.exists_resolve? t
    rw [refreshed.resolve? ac, hr, Option.map_some] at run
    have known (slot' : Ty) (eq : n.slot = some slot') : u.store.resolve? slot' = some r := by
      rw [slot, filled] at eq
      cases eq
      exact hr
    cases hc : r.isConcrete with
    | true =>
      obtain ⟨state, run', unifier, decls⟩ := h.concrete r w hc
      have quiet (e : TypeError) : ¬ n.Complains u.store e := by
        rintro ⟨t', vague, known', -⟩
        cases (known' t (slot.trans filled)).symm.trans hr
        rw [hc] at vague
        cases vague
      rw [show u.store.concrete? note = some r by simp [Store.concrete?, filled, hr, hc]]
      refine ⟨_, Option.bind_eq_some_iff.2 ⟨(r, w), run, run'⟩,
        found_nothing (by simpa using quiet) ?_ decls rfl rfl⟩
      rwa [unifier]
    | false =>
      obtain ⟨e, complaint, run'⟩ := h.vague r w hc
      have complains : n.Complains u.store e :=
        ⟨r, hc, known, by simp [slot, filled], complaint⟩
      rw [show u.store.concrete? note = none by simp [Store.concrete?, filled, hr, hc]]
      exact ⟨_, Option.bind_eq_some_iff.2 ⟨_, run, run'⟩, found_single complains refreshed⟩

/-- A slot that is filled if its type is concrete, over a node that is not a tracked operator. -/
lemma settles_fill {n : Node} {next : Ty → SweepM α} {fill : Ty → α} {keep : α} {name : String}
    {span : Option Span} (tracked : n.isTracked = false)
    (complaint : ∀ t, n.complaint? t = some (.unresolved .expression name t span))
    (concrete : ∀ t, t.isConcrete = true → next t = pure (fill t))
    (vague : ∀ t, t.isConcrete = false →
      next t = (do Sweep.blame .expression name t span; return keep)) :
    Settles n next fill keep where
  concrete t w ht := ⟨w.state, by rw [concrete t ht]; rfl, rfl, rfl⟩
  vague t w ht := ⟨_, complaint t, by rw [vague t ht, tracked]; rfl⟩

lemma finds_pred {p' p : Pred} (ac : u.store.Acyclic) (same : p'.Resembles p) :
    Finds u (Sweep.pred p') [.pred p] (u.store.settling.pred p') := by
  have settles : Settles (.pred p) (fun t => if t.isConcrete = true then pure (p'.withTy t) else do
      Sweep.blame .expression p'.describe t p'.note.span
      return p') p'.withTy p' :=
    settles_fill rfl (fun t => by simp [Node.complaint?, same.describe, same.note])
      (fun t ht => if_pos ht) fun t ht => if_neg (by simp [ht])
  have finds := settles.finds ac (congrArg Note.ty same.note.symm)
  have filled : (u.store.concrete? p'.note).elim p' p'.withTy = u.store.settling.pred p' := by
    cases h : u.store.concrete? p'.note with
    | none => simp [Stamp.pred, Store.settling, h, p'.withNote_note]
    | some t => simp [Stamp.pred, Store.settling, h, Pred.withTy]
  rw [filled] at finds
  exact finds

lemma finds_apply {n : Note} {op : Operator} {args' args : List Expr} (ac : u.store.Acyclic) :
    Finds u (Sweep.expr (.apply n op args')) [.expr (.apply n op args)]
      (u.store.settling.expr (.apply n op args')) := by
  have filled : (u.store.concrete? n).elim (Expr.apply n op args')
      (fun t => Expr.apply (n.withTy t) ((op.reread? t).getD op) args') =
        u.store.settling.expr (.apply n op args') := by
    cases h : u.store.concrete? n with
    | none => simp [Stamp.expr, Store.settling, h]
    | some t => simp [Stamp.expr, Store.settling, h]
  rw [← filled]
  refine @Settles.finds _ u (.expr (.apply n op args)) n _ _ _ ⟨?_, ?_⟩ ac rfl
  · intro t w ht
    simp only [if_pos ht]
    cases op.reread? t with
    | none => exact ⟨w.state, rfl, rfl, rfl⟩
    | some after => exact ⟨_, rfl, rfl, rfl⟩
  · intro t w ht
    simp only [if_neg (show ¬ t.isConcrete = true by simp [ht])]
    cases tracked : op.isTracked with
    | true => exact ⟨_, if_pos tracked, by simp only [Node.isTracked, tracked]; rfl⟩
    | false => exact ⟨_, if_neg (by simp [tracked]), by simp only [Node.isTracked, tracked]; rfl⟩

lemma finds_expr {e' e : Expr} (ac : u.store.Acyclic) (same : e'.Resembles e) :
    Finds u (Sweep.expr e') [.expr e] (u.store.settling.expr e') := by
  by_cases h : ∃ n op args, e' = .apply n op args
  · obtain ⟨n, op, args', rfl⟩ := h
    obtain ⟨args, rfl⟩ : ∃ args, e = .apply n op args := by
      have note := same.note
      have operator? := same.operator?
      cases e with
      | apply n' op' args =>
        cases operator?
        cases note
        exact ⟨args, rfl⟩
      | _ => cases operator?
    exact finds_apply ac
  · have other' (n op args) : e' ≠ .apply n op args := fun eq => h ⟨n, op, args, eq⟩
    have other (n op args) : e ≠ .apply n op args := by
      rintro rfl
      have operator? := same.operator?
      cases e' with
      | apply n' op' args' => exact other' _ _ _ rfl
      | _ => cases operator?
    have tracked : (Node.expr e).isTracked = false := by
      cases e with
      | apply n op args => exact absurd rfl (other n op args)
      | _ => rfl
    have complaint (t : Ty) : (Node.expr e).complaint? t =
        some (.unresolved .expression e.describe t e.note.span) := by
      cases e with
      | apply n op args => exact absurd rfl (other n op args)
      | _ => rfl
    have settles : Settles (.expr e) (fun t => if t.isConcrete = true then pure (e'.withTy t) else do
        Sweep.blame .expression e'.describe t e'.note.span
        return e') e'.withTy e' :=
      settles_fill tracked (fun t => by rw [complaint, same.describe, same.note])
        (fun t ht => if_pos ht) fun t ht => if_neg (by simp [ht])
    have finds := settles.finds ac (congrArg Note.ty same.note.symm)
    have filled : (u.store.concrete? e'.note).elim e' e'.withTy = u.store.settling.expr e' := by
      cases h : u.store.concrete? e'.note with
      | none => simp [Stamp.expr_eq other', Store.settling, h, e'.withNote_note]
      | some t => simp [Stamp.expr_eq other', Store.settling, h, Expr.withTy]
    rw [Sweep.expr_eq other', ← filled]
    exact finds

/-- The first errors are found by every traversal. -/
def findsTraversal (ac : u.store.Acyclic) : Traversal Sweep.expr Sweep.pred u.store.settling where
  Does := Finds u
  pure := finds_pure
  bind := Finds.bind
  expr := finds_expr ac
  pred := finds_pred ac

end

/-! ## The conclusion. -/

/-- A node leads to an error exactly if its slot is not known completely. -/
lemma Node.exists_complains_iff {s : Store} (ac : s.Acyclic) {n : Node} :
    (∃ e, n.Complains s e) ↔ ¬ n.Known s := by
  constructor
  · rintro ⟨e, t, vague, known, new, complaint⟩ all
    have slotted : n.hasSlot = true := by
      by_contra slotless
      exact not_complains_of_slotless (by simpa using slotless) e ⟨t, vague, known, new, complaint⟩
    obtain ⟨slot, filled, r, hr, hc⟩ := all slotted
    cases (known slot filled).symm.trans hr
    rw [vague] at hc
    cases hc
  · intro open'
    obtain ⟨slotted, open'⟩ := Classical.not_imp.1 open'
    have complaint (t : Ty) : ∃ e, n.complaint? t = some e := by
      cases n with
      | expr e =>
        cases e with
        | apply n op args => by_cases tracked : op.isTracked = true <;> simp [complaint?, tracked]
        | _ => exact ⟨_, rfl⟩
      | pred p => exact ⟨_, rfl⟩
      | substitution | ltl => cases slotted
    cases slot : n.slot with
    | none =>
      obtain ⟨e, he⟩ := complaint (.var s.cells.size)
      exact ⟨e, _, rfl, by simp [slot], fun _ => ⟨_, le_rfl, rfl⟩, he⟩
    | some t =>
      obtain ⟨r, hr⟩ := ac.exists_resolve? t
      obtain ⟨e, he⟩ := complaint r
      refine ⟨e, r, ?_, ?_, by simp [slot], he⟩
      · by_contra concrete
        exact open' ⟨t, slot, r, hr, by simpa using concrete⟩
      · rintro t' eq
        cases slot.symm.trans eq
        exact hr

/-- What a conclusion over a list of nodes reports and leaves of the declarations. A tracked operator
comes before the declarations, and these are settled up to the first that is reported; what is left is
the first node of all. -/
inductive Outcome (s : Store) (nodes : List Node) (ds : List Declaration) :
    Verdict Unit → List Declaration → Prop
  | operator {e} : FirstOf (Node.Fails s true) nodes (some e) → Outcome s nodes ds (.error (.error e)) ds
  | declaration {before d after t} : FirstOf (Node.Fails s true) nodes none →
    ds = before ++ d :: after → (∀ d' ∈ before, d'.Known s) → d.ty >>= s.resolve? = some t →
    t.isConcrete = false →
    Outcome s nodes ds (.error (.error (.unresolved .localVariable d.name t d.span)))
      (before.map (Declaration.settle s) ++ d :: after)
  | node {e} : FirstOf (Node.Fails s true) nodes none → (∀ d ∈ ds, d.Known s) →
    FirstOf (Node.Complains s) nodes (some e) →
    Outcome s nodes ds (.error (.error e)) (ds.map (Declaration.settle s))
  | ok : (∀ n ∈ nodes, n.Known s) → (∀ d ∈ ds, d.Known s) →
    Outcome s nodes ds (.ok ()) (ds.map (Declaration.settle s))

/-- Success is for nodes and declarations that are all known completely. -/
lemma Outcome.ok_iff {s : Store} (ac : s.Acyclic) {nodes : List Node} {ds ds' : List Declaration}
    {verdict : Verdict Unit} (h : Outcome s nodes ds verdict ds') :
    verdict = .ok () ↔ (∀ n ∈ nodes, n.Known s) ∧ ∀ d ∈ ds, d.Known s := by
  have vague {n : Node} {e : TypeError} (mem : n ∈ nodes) (complains : n.Complains s e) :
      ¬ ∀ n ∈ nodes, n.Known s :=
    fun all => (Node.exists_complains_iff ac).1 ⟨e, complains⟩ (all n mem)
  cases h with
  | ok nodes decls => exact iff_of_true rfl ⟨nodes, decls⟩
  | operator first =>
    obtain ⟨before, n, after, rfl, -, fails⟩ := first
    exact iff_of_false nofun fun h => vague (by simp) fails.2 h.1
  | node _ _ first =>
    obtain ⟨before, n, after, rfl, -, complains⟩ := first
    exact iff_of_false nofun fun h => vague (by simp) complains h.1
  | @declaration before d after t _ split _ slot concrete =>
    refine iff_of_false nofun fun h => ?_
    obtain ⟨t', ht', slot⟩ := Option.bind_eq_some_iff.1 slot
    obtain ⟨r, hr, hc⟩ := h.2 d (by simp [split]) t' ht'
    cases slot.symm.trans hr
    rw [concrete] at hc
    cases hc

/-- A conclusion over the nodes leaves the result and what the declarations have become, and succeeds
exactly if everything is known. -/
def ConcludesIn {τ : Type} (s : State) (nodes : List Node) (tree : τ) (x : CheckM (Visited τ Unit)) :
    Prop :=
  ∃ verdict s', x s = ((tree, verdict), s') ∧
    Outcome s.unifier.store nodes s.decls.all.toList verdict s'.decls.all.toList ∧
    (verdict = .ok () ↔ (∀ n ∈ nodes, n.Known s.unifier.store) ∧
      ∀ d ∈ s.decls.all.toList, d.Known s.unifier.store)

/-- Without tracked operators among them, the first node that leads to an error is the first of the
others. -/
lemma FirstOf.complains {s : Store} {nodes : List Node} {e : TypeError}
    (quiet : FirstOf (Node.Fails s true) nodes none) (h : FirstOf (Node.Fails s false) nodes (some e)) :
    FirstOf (Node.Complains s) nodes (some e) := by
  obtain ⟨before, n, after, rfl, none', fails⟩ := h
  refine ⟨before, n, after, rfl, fun m mem e' complains => ?_, fails.2⟩
  cases tracked : m.isTracked with
  | true => exact quiet m (by simp [mem]) e' ⟨tracked, complains⟩
  | false => exact none' m mem e' ⟨tracked, complains⟩

lemma settleDeclarations_congr {s s' : Store} (h : ∀ t, s'.resolve? t = s.resolve? t)
    (ds : List Declaration) : settleDeclarations s' ds = settleDeclarations s ds := by
  induction ds with
  | nil => rfl
  | cons d ds ih => simp only [settleDeclarations, h, ih]

theorem Finds.concludes {τ : Type} {s : State} {nodes : List Node} {tree tree' : τ}
    {sweep : τ → SweepM τ} (ac : s.unifier.store.Acyclic)
    (finds : Finds s.unifier (sweep tree) nodes tree') :
    ConcludesIn s nodes tree' (conclude tree sweep) := by
  suffices outcome : ∃ verdict s', conclude tree sweep s = ((tree', verdict), s') ∧
      Outcome s.unifier.store nodes s.decls.all.toList verdict s'.decls.all.toList by
    obtain ⟨verdict, s', run, outcome⟩ := outcome
    exact ⟨verdict, s', run, outcome, outcome.ok_iff ac⟩
  obtain ⟨w, run, found⟩ := finds ⟨s, none, none⟩ .refl
  obtain ⟨r, first, undecided⟩ := found.undecided
  obtain ⟨r', first', untyped⟩ := found.untyped
  replace undecided : w.undecided = r := undecided
  replace untyped : w.untyped = r' := untyped
  cases r with
  | some e =>
    refine ⟨_, _, conclude_of_undecided run undecided, ?_⟩
    rw [found.decls]
    exact .operator first
  | none =>
    have settling := ac.settles_declarations s.decls.all.toList
    have settled : settleAllDeclarations w.state =
        ((settleDeclarations s.unifier.store s.decls.all.toList).2,
          { w.state with
            decls := ⟨(settleDeclarations s.unifier.store s.decls.all.toList).1.toArray⟩ }) := by
      rw [← settleDeclarations_congr (found.refreshed.resolve? ac), ← found.decls]
      rfl
    have start := conclude_of_decided run undecided
    simp only [CheckM.orFail, Bind.bind, StateT.bind, settled] at start
    generalize s.decls.all.toList = ds at settling start ⊢
    generalize settleDeclarations s.unifier.store ds = result at settling start
    cases settling with
    | upTo known slot vague =>
      exact ⟨_, _, start, by simpa using .declaration first rfl known slot vague⟩
    | all known =>
      rw [untyped] at start
      cases r' with
      | some e => exact ⟨_, _, start, by simpa using .node first known (first.complains first')⟩
      | none =>
        have all (n : Node) (mem : n ∈ nodes) : n.Known s.unifier.store := by
          by_contra open'
          obtain ⟨e, complains⟩ := (Node.exists_complains_iff ac).2 open'
          cases tracked : n.isTracked with
          | true => exact first n mem e ⟨tracked, complains⟩
          | false => exact first' n mem e ⟨tracked, complains⟩
        exact ⟨_, _, start, by simpa using .ok all known⟩

/-- Concluding the check of any list of trees, and so that of an expression, a predicate, a temporal
formula or a machine. Every node of which the type is known completely gets it, and a difference or
product of sets is read so; all other nodes keep their slots. The check succeeds exactly if all slots and
all declarations are known, and else the first tracked operator that is not is reported, else the first
declaration, else the first node, where nodes come after their parts. Declarations are settled up to the
one that is reported, and not at all if an operator is. -/
theorem conclude_reports {s : State} (ac : s.unifier.store.Acyclic) :
    (∀ roots : List Node, ConcludesIn s (roots.flatMap Node.postorder)
      (roots.map (Node.restamp s.unifier.store.settling))
      (conclude roots (List.mapM (Node.rewriteM Sweep.expr Sweep.pred)))) ∧
    (∀ e : Expr, ConcludesIn s (Node.expr e).postorder (e.restamp s.unifier.store.settling)
      e.conclude) ∧
    (∀ p : Pred, ConcludesIn s (Node.pred p).postorder (p.restamp s.unifier.store.settling)
      p.conclude) ∧
    (∀ f : Ltl, ConcludesIn s (Node.ltl f).postorder (f.restamp s.unifier.store.settling)
      f.conclude) ∧
    ∀ m : Machine, ConcludesIn s (m.roots.flatMap Node.postorder)
      (m.restamp s.unifier.store.settling) m.conclude :=
  ⟨fun roots => Finds.concludes ac ((findsTraversal ac).mapM roots fun n _ => (findsTraversal ac).node n),
    fun e => Finds.concludes ac ((findsTraversal ac).covers (.expr e)),
    fun p => Finds.concludes ac ((findsTraversal ac).covers (.pred p)),
    fun f => Finds.concludes ac ((findsTraversal ac).covers (.ltl f)),
    fun m => Finds.concludes ac ((findsTraversal ac).machine m)⟩

/-- An empty set of which nothing is known. -/
def sampleUnknown : Node := .expr (.apply ⟨none, none⟩ .emptySet [])

theorem conclude_reports_sampleUnknown :
    (State.start ⟨#[]⟩).unifier.store.Acyclic ∧ ∃ e v s',
      conclude [sampleUnknown] (List.mapM (Node.rewriteM Sweep.expr Sweep.pred)) (State.start ⟨#[]⟩) =
        (([sampleUnknown], .error (.error e)), s') ∧
      e = .unresolved .operator "EMPTY_SET" (.var v) none := by
  have ac : (State.start ⟨#[]⟩).unifier.store.Acyclic := Store.wellFormed_empty.acyclic
  obtain ⟨verdict, s', run, outcome, -⟩ := (conclude_reports ac).1 [sampleUnknown]
  have nodes : [sampleUnknown].flatMap Node.postorder = [sampleUnknown] := by
    rw [List.flatMap_singleton, Node.postorder_eq]
    rfl
  have complains : sampleUnknown.Complains (State.start ⟨#[]⟩).unifier.store
      (.unresolved .operator "EMPTY_SET" (.var 0) none) :=
    ⟨.var 0, rfl, nofun, fun _ => ⟨0, le_rfl, rfl⟩, rfl⟩
  rw [nodes] at outcome
  generalize (State.start ⟨#[]⟩).decls.all.toList = ds, s'.decls.all.toList = ds' at outcome
  cases outcome with
  | @operator e first =>
    obtain ⟨before, n, after, split, -, -, t, vague, -, new, complaint⟩ := first
    obtain ⟨rfl, rfl, rfl⟩ : before = [] ∧ n = sampleUnknown ∧ after = [] := by
      cases before <;> simp_all
    obtain ⟨v, -, rfl⟩ := new rfl
    cases complaint
    exact ⟨ac, _, v, s', run, rfl⟩
  | declaration first | node first => exact absurd ⟨rfl, complains⟩ (first _ (by simp) _)
  | ok known => exact absurd (known _ (by simp)) ((Node.exists_complains_iff ac).1 ⟨_, complains⟩)

end BMethod
