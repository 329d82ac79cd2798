import BMethod.Proofs.Soundness
import BMethod.Proofs.Typing.Complete.Tree
import BMethod.Proofs.Typing.Frame

/-!
# Typings and checks

A typing gives concrete types to the nodes of a tree and to the declarations that it mentions, so
that all nodes obey their rules. A check that succeeds finds a typing, and all typings are the same
as the one it finds. A check that fails does so because there are different typings or none, unless
a product or the access to a field has stopped it (`Checked.Decides`).

If something is left open after the walk, two models of the store, which differ in all that is open,
give two different typings.
-/

namespace BMethod

open State

/-! ## Typings. -/

/-- The tree contains a product. -/
def Node.HasProduct (n : Node) : Prop := ∃ m ∈ n.preorder, m.isProduct = true

/-- The tree contains the access to a field. -/
def Node.HasAccess (n : Node) : Prop := ∃ m ∈ n.preorder, m.isAccess = true

/-- Whether a declaration exists. -/
abbrev Declarations.has (ds : Declarations) (id : Nat) : Bool := (ds.get? id).isSome

/-- How the rules are read with given types of the declarations that exist. A difference or product
may be read on integers and on sets. -/
def Declarations.reading (ds : Declarations) (type : Nat → Ty) : View :=
  ⟨Operator.MayHaveType, ⟨ds.has, fun id => some (type id).canon⟩, .empty, Ty.canon⟩

/-- A typing of a tree with empty slots: the tree with concrete types in its slots, and types for
declarations which agree with those that the declarations have already. -/
structure Typing (ds : Declarations) (n : Node) where
  tree : Node
  type : Nat → Ty
  erased : tree.erase = n
  filled : ∀ m ∈ tree.preorder, m.hasSlot = true → ∃ t, m.slot = some t ∧ t.isConcrete = true
  declared : ∀ id, n.Mentions id → ds.has id = true → (type id).isConcrete = true
  agrees : ∀ id t, ds.ty? id = some t → Ty.same t (type id) = true
  obeys : ∀ m ∈ tree.preorder, m.Obeys (ds.reading type)

/-- Two nodes have the same type. -/
def Node.SameSlot (m n : Node) : Prop :=
  ∃ t u, m.slot = some t ∧ n.slot = some u ∧ Ty.same t u = true

/-- Nodes that have the same type as a third have the same type. -/
lemma Node.SameSlot.trans_symm {a b c : Node} (h : a.SameSlot c) (h' : b.SameSlot c) :
    a.SameSlot b := by
  obtain ⟨t, u, ht, hu, same⟩ := h
  obtain ⟨t', u', ht', hu', same'⟩ := h'
  rw [hu] at hu'
  cases hu'
  exact ⟨t, t', ht, ht', Ty.same_trans same (Ty.same_comm same')⟩

namespace Typing

variable {ds : Declarations} {n : Node}

/-- Two typings give the same types to all nodes and to all declarations that are mentioned. -/
structure Same (T T' : Typing ds n) : Prop where
  nodes : List.Forall₂ Node.SameSlot T.tree.preorder T'.tree.preorder
  types : ∀ id, n.Mentions id → ds.has id = true → Ty.same (T.type id) (T'.type id) = true

/-- The tree and the declarations that a check leaves have the types of the typing. -/
structure Matches (T : Typing ds n) (tree : Node) (decls : Declarations) : Prop where
  nodes : List.Forall₂ Node.SameSlot T.tree.preorder tree.preorder
  types : ∀ id, n.Mentions id → ds.has id = true →
    ∃ t, decls.ty? id = some t ∧ Ty.same (T.type id) t = true

/-- Typings that a check has found are the same. -/
lemma Matches.same {T T' : Typing ds n} {tree : Node} {decls : Declarations}
    (h : T.Matches tree decls) (h' : T'.Matches tree decls) : T.Same T' where
  nodes := by
    have first := h.nodes
    have second := h'.nodes
    generalize T.tree.preorder = as at first
    generalize T'.tree.preorder = bs at second
    generalize tree.preorder = cs at first second
    induction first generalizing bs with
    | nil =>
      cases second
      exact .nil
    | cons hac _ ih =>
      cases second with
      | cons hbc second => exact .cons (hac.trans_symm hbc) (ih _ second)
  types id mentioned exist := by
    obtain ⟨t, ht, same⟩ := h.types id mentioned exist
    obtain ⟨t', ht', same'⟩ := h'.types id mentioned exist
    rw [ht] at ht'
    cases ht'
    exact Ty.same_trans same (Ty.same_comm same')

end Typing

/-! ## Typings as trials. -/

/-- The kind of a node does not depend on its slot. -/
lemma Node.isProduct_erase (m : Node) : m.erase.isProduct = m.isProduct := by
  cases m with
  | expr e => cases e <;> simp [restamp, isProduct]
  | _ => rfl

lemma Node.isAccess_erase (m : Node) : m.erase.isAccess = m.isAccess := by
  cases m with
  | expr e => cases e <;> simp [restamp, isAccess]
  | _ => rfl

/-- The guess before anything has been guessed. -/
def Guess.none : Guess := ⟨fun _ => .integer, ∅⟩

namespace Typing

variable {ds : Declarations} {n : Node}

/-- The trial of a typing. -/
def trial (T : Typing ds n) : Trial :=
  ⟨ds.has, fun id => (T.type id).canon, n.HasProduct, n.HasAccess⟩

/-- Every node of a typing stands for a node of the tree. -/
lemma exists_erase (T : Typing ds n) {m : Node} (hm : m ∈ T.tree.preorder) :
    m.erase ∈ n.preorder := by
  rw [← T.erased, Node.preorder_restamp]
  exact List.mem_map_of_mem hm

/-- The trial of a typing accepts its tree. -/
lemma accepts (T : Typing ds n) : T.trial.Accepts T.tree := fun m hm =>
  ⟨T.obeys m hm,
    fun h => ⟨m.erase, T.exists_erase hm, m.isProduct_erase.trans h⟩,
    fun h => ⟨m.erase, T.exists_erase hm, m.isAccess_erase.trans h⟩⟩

/-- At the start of a check nothing has to be guessed. -/
lemma supports_start (T : Typing ds n) (concrete : ds.Concrete) :
    T.trial.Supports .none (start ds) := by
  have free (v : Nat) : (start ds).unifier.store.cell v = .free :=
    Store.cell_of_size_le (Nat.zero_le v)
  refine ⟨inv_start concrete, ⟨⟨nofun, fun v _ => ?_⟩, nofun⟩, fun id t h => ?_,
    .inr ⟨⟨fun v l r => ?_, fun v e h => ?_, nofun⟩, rfl⟩⟩
  · rw [free v]
    trivial
  · have ht := concrete id t h
    refine ⟨⟨Ty.scoped_of_isConcrete ht, fun _ _ => Set.notMem_empty _⟩, ?_⟩
    rw [Ty.eval_of_isConcrete ht]
    exact (Ty.same_iff_canon _ _).1 (T.agrees id t h)
  · rw [free v]
    exact nofun
  · rw [free v] at h
    cases h

end Typing

/-! ## What a walk says about typings. -/

section

variable {ds : Declarations} {n n' : Node} {s s' : State} {g g' : Guess}

/-- A known type is what a guess makes it mean. -/
lemma Store.Fits.canon_of_resolve? {s : Store} (fits : s.Fits g) (wf : s.WellFormed) {t u v : Ty}
    (m : g.Means s.cells.size t v) (h : s.resolve? t = some u) (hu : u.isConcrete = true) :
    u.canon = v := by
  rw [← m.2]
  refine Store.canon_of_resolveWithin wf (L := g.idleᶜ) (fun w hw x hx => ?_) m.1 h hu
  have cell := fits.cells w hw
  rwa [hx] at cell

/-- If the declarations that exist have types, each of them has one. -/
lemma Context.exists_type_of_types? {Γ : Context} {ids : List Nat} {ts : List Ty}
    (types : Γ.types? ids = some ts) {id : Nat} (mem : id ∈ ids) (exist : Γ.known id = true) :
    ∃ t, Γ.type? id = some t := by
  have mem : id ∈ ids.filter Γ.known := List.mem_filter.2 ⟨mem, exist⟩
  rw [Context.types?] at types
  generalize ids.filter Γ.known = known at mem types
  induction known generalizing ts with
  | nil => cases mem
  | cons i known ih =>
    simp only [List.mapM_cons, Option.bind_eq_bind, Option.bind_eq_some_iff] at types
    obtain ⟨t, ht, us, hus, -⟩ := types
    obtain rfl | mem := List.mem_cons.1 mem
    · exact ⟨t, ht⟩
    · exact ih mem hus

/-- A node that obeys its rule and mentions a declaration has a type for it, if it exists. -/
lemma Node.Obeys.type_of_mentions {V : View} {m : Node} (h : m.Obeys V) {id : Nat}
    (mentioned : id ∈ m.mentions) (exist : V.context.known id = true) :
    ∃ t, V.context.type? id = some t := by
  have of_has {fields : List (FieldLabel × Expr)} {us : List Ty}
      (has : List.Forall₂ (fun f u => V.context.Has f.1.decl u) fields us)
      (mem : id ∈ fields.map (·.1.decl)) : ∃ t, V.context.type? id = some t := by
    induction has with
    | nil => cases mem
    | @cons f u fields us hf _ ih =>
      obtain rfl | mem := List.mem_cons.1 mem
      · exact ⟨u, hf exist⟩
      · exact ih mem
  cases m with
  | expr e =>
    obtain ⟨ts, t, -, -, type⟩ := h
    cases e with
    | identifier n decl name =>
      obtain rfl : id = decl := by simpa [mentions, Expr.mentions] using mentioned
      exact ⟨t, type.2 exist⟩
    | aggregate n op bound pred body | letIn n bound pred body =>
      obtain ⟨⟨us, types⟩, -⟩ := type
      exact Context.exists_type_of_types? types mentioned exist
    | comprehension n bound pred =>
      obtain ⟨u, ⟨us, types, -⟩, -⟩ := type
      exact Context.exists_type_of_types? types mentioned exist
    | lambda n bound pred body =>
      obtain ⟨u, r, ⟨us, types, -⟩, -⟩ := type
      exact Context.exists_type_of_types? types mentioned exist
    | record n fields => exact of_has type.1 mentioned
    | struct n fields =>
      obtain ⟨us, has, -⟩ := type
      exact of_has has mentioned
    | _ => cases mentioned
  | pred p =>
    obtain ⟨ts, t, -, -, type⟩ := h
    cases p with
    | identifier n decl name =>
      obtain rfl : id = decl := by simpa [mentions, Pred.mentions] using mentioned
      exact ⟨t, type.2.1 exist⟩
    | quantified n op bound pred | letIn n bound defs body =>
      obtain ⟨⟨us, types⟩, -⟩ := type
      exact Context.exists_type_of_types? types mentioned exist
    | _ => cases mentioned
  | substitution | ltl => cases mentioned

/-- If all slots are known after a walk beside a typing, they are filled with the types of the
typing. -/
lemma Typing.matches_of_guessed (T : Typing ds n) {s₀ : State}
    (guessed : T.trial.Guessed g s₀ [T.tree] [n'] g' s) (all : s.AllKnown [n'])
    (settled : s.Settled s') (erased : n'.erase = n)
    (typed : WellTyped s'.decls .empty [n'.restamp s.unifier.store.stamp]) :
    T.Matches (n'.restamp s.unifier.store.stamp) s'.decls := by
  have inv := guessed.steps.inv
  have wf := inv.unifier.wellFormed
  have fits := guessed.fits.unifier.1
  constructor
  · have slots := guessed.slots
    simp only [List.flatMap_singleton] at slots
    rw [Node.preorder_restamp, List.forall₂_map_right_iff]
    have known := all.1 n' (by simp)
    rw [Node.AllKnown] at known
    revert known slots
    generalize T.tree.preorder = as
    generalize n'.preorder = ns
    intro slots known
    induction slots with
    | nil => exact .nil
    | @cons a m as ns h _ ih =>
      rw [List.forall_mem_cons] at known
      refine .cons ?_ (ih known.2)
      obtain ⟨t, v, value, slot, means⟩ := h
      obtain ⟨t', ht', u, hu, hc⟩ := known.1 (Node.hasSlot_of_slot slot)
      rw [slot] at ht'
      cases ht'
      obtain ⟨x, hx, rfl⟩ := Option.map_eq_some_iff.1 value
      refine ⟨x, u, hx, by simp [Node.slot_stamp, slot, hu], ?_⟩
      rw [Ty.same_iff_canon]
      exact (fits.canon_of_resolve? wf means hu hc).symm
  · rintro id ⟨m, hm, mentioned⟩ exist
    -- The node stands for one of the tree that the check leaves, which obeys its rule.
    rw [← erased, Node.preorder_restamp] at hm
    obtain ⟨k, hk, rfl⟩ := List.mem_map.1 hm
    rw [Node.mentions_restamp] at mentioned
    have final : k.restamp s.unifier.store.stamp ∈
        [n'.restamp s.unifier.store.stamp].flatMap Node.preorder := by
      rw [List.flatMap_singleton, Node.preorder_restamp]
      exact List.mem_map_of_mem hk
    have exist' : (s'.decls.get? id).isSome = true := by
      rw [settled, Declarations.get?_settle, Option.isSome_map]
      exact (inv.known id).trans exist
    obtain ⟨c, hc⟩ := (typed.obeys _ final).type_of_mentions (by rwa [Node.mentions_restamp]) exist'
    obtain ⟨u, hu, -⟩ := Option.map_eq_some_iff.1 hc
    refine ⟨u, hu, ?_⟩
    rw [settled, Declarations.ty?_settle] at hu
    obtain ⟨t, ht, hu⟩ := Option.bind_eq_some_iff.1 hu
    obtain ⟨u', hu', concrete⟩ := all.2 id t ht
    rw [hu] at hu'
    cases hu'
    rw [Ty.same_iff_canon]
    exact (fits.canon_of_resolve? wf (guessed.fits.types id t ht) hu concrete).symm

/-! ## Typings from models. -/

/-- What stands for variables of which nothing is known is concrete and has no names. -/
structure Choice.Closed (c : Choice) : Prop where
  concrete : c.atom.isConcrete = true
  canon : c.atom.canon = c.atom

lemma Choice.closed_integers : Choice.integers.Closed := ⟨rfl, rfl⟩

lemma Choice.closed_others : Choice.others.Closed := ⟨rfl, rfl⟩

/-- The types that a model has for declarations. Those without a type may have any. -/
def State.modelType (s : State) (c : Choice) (id : Nat) : Ty :=
  ((s.decls.ty? id).map (Ty.eval (s.unifier.store.model c))).getD .integer

lemma State.modelType_eq {c : Choice} {id : Nat} {t : Ty} (h : s.decls.ty? id = some t) :
    s.modelType c id = t.eval (s.unifier.store.model c) := by
  simp [modelType, h]

lemma State.canon_modelType {c : Choice} (hc : c.Closed) (id : Nat) :
    (s.modelType c id).canon = s.modelType c id := by
  rw [modelType]
  cases s.decls.ty? id with
  | none => rfl
  | some t => exact s.unifier.store.canon_eval_model hc.canon t

/-- A model of the state after a walk that has filled all slots makes a typing. -/
def Walked.typing {s₀ : State} (walked : Walked ds.has .empty s₀ [n'] s)
    (steps : (start ds).Steps ds.has s) (concrete : ds.Concrete) (full : n'.Full)
    (erased : n'.erase = n) {c : Choice} (hc : c.Closed) :
    Typing ds n where
  tree := n'.restamp (.types (Ty.eval (s.unifier.store.model c)))
  type := s.modelType c
  erased := (Node.restamp_restamp (fun _ => rfl) (fun _ _ => rfl) n').trans erased
  filled m hm slotted := by
    rw [Node.preorder_restamp] at hm
    obtain ⟨k, hk, rfl⟩ := List.mem_map.1 hm
    rw [Node.hasSlot_restamp] at slotted
    obtain ⟨t, ht⟩ := full k hk slotted
    refine ⟨_, by rw [Node.slot_types, ht, Option.map_some], ?_⟩
    exact (walked.within k (by simpa using hk) t ht).isConcrete_eval
      (s.unifier.store.isConcrete_model hc.concrete)
  declared id _ _ := by
    rw [modelType]
    cases ht : s.decls.ty? id with
    | none => rfl
    | some t =>
      exact (steps.inv.scope id t ht).isConcrete_eval
        (s.unifier.store.isConcrete_model hc.concrete)
  agrees id t ht := by
    rw [modelType_eq (steps.kept id t ht), Ty.eval_of_isConcrete (concrete id t ht),
      Ty.same_iff_canon, Ty.canon_canon]
  obeys m hm := by
    rw [Node.preorder_restamp] at hm
    obtain ⟨k, hk, rfl⟩ := List.mem_map.1 hm
    have models : World.Models ⟨s.unifier.store.model c, fun id => some (s.modelType c id)⟩ s :=
      ⟨steps.inv.settled.holds_model steps.inv.unifier c,
        fun id t ht => by simp only [modelType_eq ht]⟩
    refine (walked.obeys _ models (by simpa using full) k (by simpa using hk)).restamp ?_ rfl
      (fun _ _ _ _ _ _ type _ => type) fun m _ => ?_
    · simp only [Declarations.reading, canon_modelType hc]
      rfl
    · rw [View.value?, Node.slot_types, View.value?, Option.map_map]
      cases m.slot with
      | none => rfl
      | some t => exact congrArg some (s.unifier.store.canon_eval_model hc.canon t)

/-- A type that two models give one value is known. -/
lemma State.Inv.knows_of_eval_eq {known : Nat → Bool} (inv : s.Inv known) {t : Ty}
    (ht : t.Scoped s.vars)
    (h : t.eval (s.unifier.store.model .integers) = t.eval (s.unifier.store.model .others)) :
    s.unifier.store.Knows t := by
  obtain ⟨u, hu⟩ := inv.unifier.wellFormed.acyclic.exists_resolve? t
  exact ⟨u, hu, Store.isConcrete_of_eval_model_eq ht hu h⟩

/-- If all typings are the same, nothing is left open after a walk that has filled all slots. -/
lemma Walked.allKnown_of_same {s₀ : State} (walked : Walked ds.has .empty s₀ [n'] s)
    (steps : (start ds).Steps ds.has s) (concrete : ds.Concrete) (full : n'.Full)
    (erased : n'.erase = n)
    (frame : ∀ id, ¬ n.Mentions id → s.decls.get? id = ds.get? id)
    (same : ∀ T T' : Typing ds n, T.Same T') : s.AllKnown [n'] := by
  have eq_of_same {t u : Ty} (h : Ty.same (t.eval (s.unifier.store.model .integers))
      (u.eval (s.unifier.store.model .others)) = true) :
      t.eval (s.unifier.store.model .integers) = u.eval (s.unifier.store.model .others) := by
    rw [Ty.same_iff_canon, Store.canon_eval_model _ rfl, Store.canon_eval_model _ rfl] at h
    exact h
  -- The two models differ in what they make of a variable of which nothing is known.
  have two := same (walked.typing steps concrete full erased Choice.closed_integers)
    (walked.typing steps concrete full erased Choice.closed_others)
  constructor
  · intro m hm
    obtain rfl := List.mem_singleton.1 hm
    intro k hk slotted
    obtain ⟨t, ht⟩ := full k hk slotted
    have nodes := two.nodes
    simp only [typing, Node.preorder_restamp, List.forall₂_map_left_iff,
      List.forall₂_map_right_iff, List.forall₂_same] at nodes
    obtain ⟨x, y, hx, hy, h⟩ := nodes k hk
    rw [Node.slot_types, ht, Option.map_some] at hx hy
    cases hx
    cases hy
    exact ⟨t, ht, steps.inv.knows_of_eval_eq (walked.within k (by simpa using hk) t ht)
      (eq_of_same h)⟩
  · intro id t ht
    refine steps.inv.knows_of_eval_eq (steps.inv.scope id t ht) ?_
    cases old : ds.ty? id with
    | some u =>
      have kept := steps.kept id u old
      rw [ht] at kept
      cases kept
      rw [Ty.eval_of_isConcrete (concrete id t old), Ty.eval_of_isConcrete (concrete id t old)]
    | none =>
      -- The slot has been filled by the walk, so the declaration is mentioned.
      have mentioned : n.Mentions id := by
        by_contra h
        rw [Declarations.ty?, frame id h, ← Declarations.ty?, old] at ht
        cases ht
      have exist : ds.has id = true := by
        rw [← steps.inv.known id]
        cases hd : s.decls.get? id with
        | none => simp [Declarations.ty?, hd] at ht
        | some d => rfl
      have h := two.types id mentioned exist
      simp only [typing, modelType_eq ht] at h
      exact eq_of_same h

/-! ## Walks beside all typings. -/

/-- A predicate is boolean. -/
lemma Pred.HasType.eq_bool {Γ : Context} {p : Pred} {ts : List Ty} {t : Ty}
    (h : p.HasType Γ ts t) : t = .bool := by
  cases p with
  | connective | comparison | ite => exact h.2
  | identifier | quantified | letIn => exact h.2.2

/-- The walk through an expression goes on beside each of its typings. -/
lemma Typing.walk_expr {e : Expr} (T : Typing ds (.expr e)) (concrete : ds.Concrete) :
    Ensures (e.check (.var (start ds).vars)) ((start ds).grow .free) (fun e' _ s' => ∃ g',
      T.trial.Guessed .none (start ds) [T.tree] [.expr e'] g' s') T.trial.Excuses := by
  have sup := T.supports_start concrete
  have accepts := T.accepts
  have filled := T.filled T.tree T.tree.self_mem_preorder
  have erased := T.erased
  generalize T.tree = tree at accepts filled erased
  cases tree with
  | expr a =>
    obtain rfl : a.erase = e := Node.expr.inj erased
    obtain ⟨u, hu, -⟩ := filled rfl
    obtain ⟨fresh, m⟩ := sup.fresh u.canon
    have value : T.trial.view.value? (.expr a) = some u.canon := by
      rw [View.value?, hu]
      rfl
    refine (Node.complete T.trial (.expr a) _ _ _ _ fresh.supports accepts value m).mono ?_
    rintro e' t s' ⟨g', guessed, _⟩
    exact ⟨g', guessed.after fresh⟩
  | _ => cases erased

/-- The walk through a predicate goes on beside each of its typings. -/
lemma Typing.walk_pred {p : Pred} (T : Typing ds (.pred p)) (concrete : ds.Concrete) :
    Ensures (p.check .bool) (start ds) (fun p' _ s' => ∃ g',
      T.trial.Guessed .none (start ds) [T.tree] [.pred p'] g' s') T.trial.Excuses := by
  have sup := T.supports_start concrete
  have accepts := T.accepts
  have erased := T.erased
  generalize T.tree = tree at accepts erased
  cases tree with
  | pred a =>
    obtain rfl : a.erase = p := Node.pred.inj erased
    obtain ⟨ts, t, -, value, type⟩ := (accepts _ (Node.self_mem_preorder _)).1
    rw [type.eq_bool] at value
    refine (Node.complete T.trial (.pred a) _ _ sup accepts value).mono ?_
    rintro p' t s' ⟨g', guessed, _⟩
    exact ⟨g', guessed⟩
  | _ => cases erased

/-- A failure that typings explain: there are different ones, or each of them excuses it. -/
def Explained (ds : Declarations) (n : Node) (e : Halt TypeError) : Prop :=
  (∃ T T' : Typing ds n, ¬ T.Same T') ∨ ∀ T : Typing ds n, T.trial.Excuses e

/-- What a check has found: typings exist, and all are the one that it leaves. Declarations that are
not mentioned keep their empty slots. -/
structure Determined (ds : Declarations) (n tree : Node) (decls : Declarations) : Prop where
  nonempty : Nonempty (Typing ds n)
  unique : ∀ T : Typing ds n, T.Matches tree decls
  unmentioned : ∀ id, ¬ n.Mentions id → ds.ty? id = none → decls.ty? id = none

/-- All that is said about the state after a walk through a tree. -/
structure Surveyed (ds : Declarations) (n n' : Node) (s : State) : Prop where
  walked : ∃ s₀, Walked ds.has .empty s₀ [n'] s
  steps : (start ds).Steps ds.has s
  erased : n'.erase = n
  frame : ∀ id, ¬ n.Mentions id → s.decls.get? id = ds.get? id
  guessed : ∀ T : Typing ds n, ∃ g, T.trial.Guessed .none (start ds) [T.tree] [n'] g s

/-- If all is known, the check has found the only typing. -/
lemma Surveyed.determined (h : Surveyed ds n n' s) (concrete : ds.Concrete)
    (all : s.AllKnown [n']) (settled : s.Settled s') :
    Determined ds n (n'.restamp s.unifier.store.stamp) s'.decls := by
  obtain ⟨s₀, walked⟩ := h.walked
  have full : n'.Full := fun m hm slotted => by
    obtain ⟨t, ht, -⟩ := all.1 n' (by simp) m hm slotted
    exact ⟨t, ht⟩
  refine ⟨⟨walked.typing h.steps concrete full h.erased Choice.closed_integers⟩,
    fun T => ?_, fun id hid none => ?_⟩
  · obtain ⟨g, guessed⟩ := h.guessed T
    exact T.matches_of_guessed guessed all settled h.erased (walked.wellTyped all settled)
  · rw [settled, Declarations.ty?_settle, Declarations.ty?, h.frame id hid, ← Declarations.ty?,
      none]
    rfl

/-- If not all is known, there are different typings or none. -/
lemma Surveyed.explained (h : Surveyed ds n n' s) (concrete : ds.Concrete)
    (vague : ¬ s.AllKnown [n']) (e : Halt TypeError) : Explained ds n e := by
  obtain ⟨s₀, walked⟩ := h.walked
  by_contra unexplained
  rw [Explained, not_or, not_forall] at unexplained
  obtain ⟨same, T, -⟩ := unexplained
  obtain ⟨g, guessed⟩ := h.guessed T
  refine vague (walked.allKnown_of_same h.steps concrete (guessed.full (by simp)) h.erased h.frame ?_)
  intro T T'
  by_contra different
  exact same ⟨T, T', different⟩

/-- A failure that typings explain and that is not a divergence. -/
def Justified (ds : Declarations) (n : Node) (e : Halt TypeError) : Prop :=
  Proper e ∧ Explained ds n e

/-- The walk through an expression leaves a state that has been surveyed. -/
lemma Expr.surveyed {e : Expr} (concrete : ds.Concrete) (blank : (Node.expr e).Blank) :
    Ensures (e.check (.var (start ds).vars)) ((start ds).grow .free) (fun e' t s' =>
      Surveyed ds (.expr e) (.expr e') s' ∧ e'.note.ty = some t ∧ t.Scoped s'.vars)
      (Justified ds (.expr e)) := by
  have inv := inv_start concrete
  have sound := e.sound ds.has .empty _ (.var (start ds).vars) inv.fresh.inv
    (by simp [Ty.Scoped]) blank
  have frame := (Node.visits False (n := .expr e) fun _ h => h) ((start ds).grow .free)
    (.var (start ds).vars) fun h => h.elim
  refine (sound.and ((frame.ensures orderly_false).and (Ensures.forall fun T : Typing ds (.expr e) =>
    T.walk_expr concrete))).imp ?_ fun err h => ⟨h.1, .inr h.2.2⟩
  rintro e' t s' ⟨typed, ⟨moves, -⟩, guessed⟩
  refine ⟨⟨⟨_, typed.walked⟩, inv.fresh.trans typed.walked.steps, ?_, moves.frame, guessed⟩,
    typed.slot, typed.within⟩
  have erased : (Node.expr e').erase = (Node.expr e).erase := congrArg Node.expr typed.erased
  rw [erased, Node.erase_of_blank blank rfl]

/-- The walk through a predicate leaves a state that has been surveyed. -/
lemma Pred.surveyed {p : Pred} (concrete : ds.Concrete) (blank : (Node.pred p).Blank) :
    Ensures (p.check .bool) (start ds) (fun p' t s' =>
      Surveyed ds (.pred p) (.pred p') s' ∧ p'.note.ty = some t) (Justified ds (.pred p)) := by
  have inv := inv_start concrete
  have frame := (Node.visits False (n := .pred p) fun _ h => h) (start ds) .bool fun h => h.elim
  refine ((p.sound ds.has .empty _ inv blank).and ((frame.ensures orderly_false).and
    (Ensures.forall fun T : Typing ds (.pred p) => T.walk_pred concrete))).imp ?_
    fun err h => ⟨h.1, .inr h.2.2⟩
  rintro p' t s' ⟨typed, ⟨moves, -⟩, guessed⟩
  refine ⟨⟨⟨_, typed.walked⟩, typed.walked.steps, ?_, moves.frame, guessed⟩, typed.slot⟩
  have erased : (Node.pred p').erase = (Node.pred p).erase := congrArg Node.pred typed.erased
  rw [erased, Node.erase_of_blank blank rfl]

end

/-! ## Checks. -/

/-- A check finds the only typing there is, or fails for a reason that typings explain. -/
def Checked.Decides {τ : Type} (ds : Declarations) (n : Node) (root : τ → Node)
    (c : Checked τ Ty) : Prop :=
  (∃ t, c.verdict = .ok t) ∧ Determined ds n (root c.tree) c.decls ∨
    ∃ e, c.verdict = .error (.error e) ∧ Explained ds n (.error e)

/-- The outcome of a check from what its walk ensures. -/
lemma runCheck_decides {τ : Type} {target : Target} {ds : Declarations} {n : Node}
    {root : τ → Node} {walk : CheckM (Visited τ Ty)}
    (h : Ensures walk (start ds) (fun tree _ s' => Determined ds n (root tree) s'.decls)
      (Justified ds n)) : (runCheck target ds walk).Decides ds n root := by
  obtain ⟨t, s', ok, found, decls⟩ | ⟨e, error, proper, explained⟩ := runCheck_spec target h
  · refine .inl ⟨⟨t, ok⟩, ?_⟩
    rwa [decls]
  · cases e with
    | divergence => exact absurd rfl proper
    | error e => exact .inr ⟨e, error, explained⟩

/-- The check of an expression finds the only typing there is, or fails for a reason. -/
theorem checkExpression_decides {ds : Declarations} (concrete : ds.Concrete) {e : Expr}
    (blank : (Node.expr e).Blank) : (checkExpression ds e).Decides ds (.expr e) .expr := by
  refine runCheck_decides (Expr.ensures_checkRoot ds.has ((Expr.surveyed concrete blank).mono
    fun e' t s' h => ?_))
  obtain ⟨surveyed, slot, within⟩ := h
  exact ⟨surveyed.steps.inv, slot, within,
    fun all _ _ settled _ => surveyed.determined concrete all settled,
    fun vague err => ⟨nofun, surveyed.explained concrete vague _⟩⟩

/-- The check of a predicate finds the only typing there is, or fails for a reason. -/
theorem checkPredicate_decides {ds : Declarations} (concrete : ds.Concrete) {p : Pred}
    (blank : (Node.pred p).Blank) : (checkPredicate ds p).Decides ds (.pred p) .pred := by
  refine runCheck_decides (Pred.ensures_checkRoot ds.has ((Pred.surveyed concrete blank).mono
    fun p' t s' h => ?_))
  obtain ⟨surveyed, slot⟩ := h
  exact ⟨surveyed.steps.inv, slot,
    fun all _ _ settled _ => surveyed.determined concrete all settled,
    fun vague err => ⟨nofun, surveyed.explained concrete vague _⟩⟩

end BMethod
