import BMethod.Proofs.Recheck.Machine

/-!
# From the start to the end of two checks

A second check starts beside the first (`State.Starts`): of its variables nothing is known, and the
declarations have the types that they have after the first. When both walks are over and the first check
finds all types, the second finds the same (`Duo.agrees`): it fills the slots with what they held, and
reads no operator anew.
-/

namespace BMethod

open State

/-! ## Lists. -/

section

variable {α β : Type} {as : List α} {bs : List β}

/-- What holds of all pairs holds of the second list. -/
lemma forall_mem_of_forall₂ {P : β → Prop} (h : List.Forall₂ (fun _ b => P b) as bs) : ∀ b ∈ bs, P b := by
  induction h with
  | nil => exact nofun
  | cons head _ ih => exact List.forall_mem_cons.2 ⟨head, ih⟩

end

/-! ## The start. -/

/-- A store of which nothing is known is abreast of itself. -/
lemma Store.abreast_self {s : Store} (wf : s.WellFormed) (free : ∀ v, s.cell v = .free)
    (value : Nat → Ty) : s.Abreast ⟨⟨value, ∅⟩, .var, ⟨value, ∅⟩⟩ s where
  wellFormed := wf
  fits := ⟨nofun, fun v _ => by rw [free v]; trivial⟩
  steady := by
    refine ⟨wf, ⟨nofun, fun v _ => by rw [free v]; trivial⟩, fun v t h => ?_, fun v h => ?_⟩
    · rw [free v] at h
      cases h
    · rw [free v] at h
      cases h
  scope v hv := Ty.over_var.2 hv
  value _ _ := rfl
  pull _ adm := adm
  push τ adm _ := ⟨τ, adm, fun _ _ => rfl⟩
  marks v e he := by
    rw [free v] at he
    cases he

/-- How a check starts beside another one that has left the given declarations. Nothing is known of the
variables that both have. A declaration has the same type in both states; or it has at most a known type
in the first, and in the second that which was left. -/
structure State.Starts (s : State) (ds : Declarations) (s' : State) : Prop where
  unifier : s'.unifier = s.unifier
  free : ∀ v, s.unifier.store.cell v = .free
  links : s.unifier.links = []
  exist : ∀ id, (s'.decls.get? id).isSome = (s.decls.get? id).isSome
  types : ∀ id, (∃ t, s.decls.ty? id = some t ∧ s'.decls.ty? id = some t) ∨
    (∀ t, s.decls.ty? id = some t → t.isConcrete = true) ∧ s'.decls.ty? id = ds.ty? id

variable {known : Nat → Bool} {s s' S S' : State} {t u : Ty}

/-- What a known declaration is left with, and its type in the world of a model. -/
lemma State.Settled.exists_ty? (settled : S.Settled S') (inv : S.Inv known)
    (all : S.decls.AllKnown S.unifier.store) {id : Nat} (ht : S.decls.ty? id = some t) :
    ∃ u, S'.decls.ty? id = some u ∧ u.isConcrete = true ∧ S.unifier.store.resolve? t = some u ∧
      u.canon = t.eval (S.world .integers).value := by
  obtain ⟨u, hu, concrete⟩ := all id t ht
  refine ⟨u, ?_, concrete, hu, ?_⟩
  · rw [settled, Declarations.ty?_settle, ht]
    exact hu
  · exact inv.canon_eq (inv.models_world .integers) (inv.scope id t ht) hu concrete

/-- At the start the states are abreast, for the types that the first check finds in the end. -/
lemma State.Starts.sound (h : s.Starts S'.decls s') (inv : s.Inv known) (steps : s.Steps known S)
    (all : S.decls.AllKnown S.unifier.store) (settled : S.Settled S') :
    ∃ κ, (⟨κ, s, s'⟩ : Duo).Sound (S.world .integers) known := by
  let value := (S.world .integers).value
  let κ : Coupling := ⟨⟨value, ∅⟩, .var, ⟨value, ∅⟩⟩
  have self {t : Ty} (ht : t.Scoped s.vars) : Duo.Tied ⟨κ, s, s'⟩ t t := by
    refine ⟨⟨ht, fun _ _ => Set.notMem_empty _⟩, ⟨?_, fun _ _ => Set.notMem_empty _⟩, fun _ _ => rfl⟩
    show t.Scoped s'.unifier.store.cells.size
    rw [h.unifier]
    exact ht
  refine ⟨κ, inv, fun _ => ⟨?_, h.unifier ▸ inv.settled, rfl, h.exist, fun id t ht => ?_,
    fun id u none hu => ?_, fun id none hu => ?_⟩⟩
  · show Unifier.Abreast _ s.unifier s'.unifier
    rw [h.unifier]
    refine ⟨Store.abreast_self inv.unifier.wellFormed h.free _, ?_, ?_, ?_, ?_⟩ <;> simp [h.links]
  · obtain ⟨t', ht', same⟩ | ⟨concrete, left⟩ := h.types id
    · cases ht.symm.trans ht'
      exact ⟨t, same, self (inv.scope id t ht)⟩
    · obtain ⟨u, hu, -, resolves, -⟩ := settled.exists_ty? steps.inv all (steps.kept id t ht)
      cases (Store.resolve?_of_vars_eq_nil _ (Ty.vars_of_isConcrete (concrete t ht))).symm.trans resolves
      exact ⟨t, left.trans hu, self (inv.scope id t ht)⟩
  · obtain ⟨t, ht, rfl⟩ := Option.map_eq_some_iff.1 hu
    obtain ⟨t', ht', -⟩ | ⟨-, left⟩ := h.types id
    · cases none.symm.trans ht'
    · obtain ⟨u, hu, concrete, -, canon⟩ := settled.exists_ty? steps.inv all ht
      exact ⟨u, left.trans hu, concrete, canon⟩
  · have missing : S.decls.ty? id = .none := Option.map_eq_none_iff.1 hu
    obtain ⟨t', ht', -⟩ | ⟨-, left⟩ := h.types id
    · cases none.symm.trans ht'
    · rw [left, settled, Declarations.ty?_settle, missing]
      rfl

/-! ## The tree of the first check. -/

/-- Reading an operator does not ask for the names in a type. -/
lemma Operator.reread?_canon (op : Operator) (t : Ty) : op.reread? t.canon = op.reread? t := by
  cases op <;> cases t <;> rfl

/-- An operator that has been read by a type stays what it is. -/
lemma Operator.reread?_reread (op : Operator) {t u : Ty} (same : t.canon = u.canon) :
    (((op.reread? t).getD op).reread? u).getD ((op.reread? t).getD op) = (op.reread? t).getD op := by
  have eq : op.reread? u = op.reread? t := by rw [← reread?_canon, ← same, reread?_canon]
  cases h : op.reread? t with
  | none => rw [Option.getD_none, eq, h, Option.getD_none]
  | some op' =>
    have set : op' = .setSubtraction ∨ op' = .cartesianProduct := by
      cases op <;> cases t <;> simp_all [reread?]
    obtain rfl | rfl := set <;> rfl

/-- An operator without operands has none in a node that obeys its rule. -/
lemma Operator.HasType.eq_nil {op : Operator} {ts : List Ty} (h : op.HasType ts t) (hop : op ∈ nullary) :
    ts = [] := by
  simp only [nullary, List.mem_cons, List.not_mem_nil, or_false] at hop
  obtain rfl | rfl | rfl | rfl | rfl | rfl | rfl | rfl | rfl | rfl | rfl | rfl | rfl | rfl := hop <;>
    simp only [HasType] at h <;> grind

/-- Nodes that obey their rules apply no operator without operands to some. -/
lemma WellTyped.wellApplied {ds : Declarations} {scope : Scope} {ns : List Node}
    (typed : WellTyped ds scope ns) : ∀ n ∈ ns, n.AllApplied := by
  intro n hn m hm
  have obeys := typed.obeys m (List.mem_flatMap.2 ⟨n, hn, hm⟩)
  cases m with
  | expr e =>
    cases e with
    | apply k op args =>
      intro hop
      obtain ⟨ts, t, parts, -, type⟩ := obeys
      have none := type.eq_nil hop
      subst none
      simpa [View.Gives, Expr.children] using parts
    | _ => trivial
  | _ => trivial

/-- What the conclusion of the first check leaves of a walk is read as the world of its model says. -/
lemma Walked.reads {scope : Scope} {s₀ : State} {ns : List Node} (walked : Walked known scope s₀ ns S)
    (all : S.AllKnown ns) (settled : S.Settled S') :
    ∀ n ∈ ns, (S.world .integers).Reads S.unifier.store.stamp n := by
  intro n hn
  have inv := walked.steps.inv
  have applied := (walked.wellTyped all settled).wellApplied _ (List.mem_map_of_mem hn)
  refine ⟨Node.erase_restamp_congr (fun _ => rfl) fun k op args hm => ?_,
    (Node.allApplied_restamp fun _ op => op.mem_nullary_reread _).1 applied⟩
  obtain ⟨t, ht, u, hu, concrete⟩ := all.1 n hn _ hm rfl
  have ht : k.ty = some t := ht
  have scope := walked.within _ (List.mem_flatMap.2 ⟨n, hn, hm⟩) t ht
  have canon := inv.canon_eq (inv.models_world .integers) scope hu concrete
  simp only [Store.stamp, World.reading, ht, Option.map_some, Option.bind_some, Option.bind_eq_bind, hu,
    ← canon, op.reread?_canon]

/-! ## The end. -/

/-- Two types are the same, if there are any. -/
abbrev SameType? : Option Ty → Option Ty → Prop := Option.Rel fun t u => Ty.same t u = true

/-- The second trees are the first but for their slots, and slots and declarations have the same types. -/
structure Agrees (ds : Declarations) (ns : List Node) (ds' : Declarations) (ns' : List Node) : Prop where
  form : ns'.map Node.erase = ns.map Node.erase
  slots : List.Forall₂ (fun m m' => SameType? m.slot m'.slot) (ns.flatMap Node.preorder)
    (ns'.flatMap Node.preorder)
  decls : ∀ id, SameType? (ds.ty? id) (ds'.ty? id)

namespace Duo

variable {d : Duo} {w : World} {ns ns' : List Node}

/-- A tied type is known, and the same. -/
lemma Abreast.exists_same (ab : d.Abreast w) {t' : Ty} (tied : d.Tied t t')
    (ht : d.first.unifier.store.resolve? t = some u) (concrete : u.isConcrete = true) :
    ∃ u', d.second.unifier.store.resolve? t' = some u' ∧ u'.isConcrete = true ∧ u.canon = u'.canon :=
  ab.unifier.store.exists_resolve? tied ht concrete

/-- What the second check knows of a node beside one that the first knows. -/
structure Matches (d : Duo) (m m' : Node) : Prop where
  known : m'.Known d.second.unifier.store
  slot : SameType? (m.restamp d.first.unifier.store.stamp).slot
    (m'.restamp d.second.unifier.store.stamp).slot
  op : ∀ k op args, m' = .expr (.apply k op args) → d.second.unifier.store.stamp.op k op = op

lemma Abreast.matches (ab : d.Abreast w) {m m' : Node} (known : m.Known d.first.unifier.store)
    (tied : Option.Rel d.Tied m.slot m'.slot)
    (form : (m.restamp d.first.unifier.store.stamp).erase = m'.erase) : d.Matches m m' := by
  have slotted : m'.hasSlot = m.hasSlot := by
    have slotted := congrArg Node.hasSlot form
    rw [Node.erase, Node.erase, Node.hasSlot_restamp, Node.hasSlot_restamp, Node.hasSlot_restamp] at slotted
    exact slotted.symm
  cases hm : m.slot with
  | none =>
    have none : m'.slot = none := by
      rw [hm] at tied
      cases hm' : m'.slot with
      | none => rfl
      | some => rw [hm'] at tied; cases tied
    have bare : m.hasSlot ≠ true := fun slotted => by
      obtain ⟨t, ht, -⟩ := known slotted
      cases hm.symm.trans ht
    refine ⟨fun h => absurd (slotted ▸ h) bare, ?_, ?_⟩
    · rw [Node.slot_stamp, Node.slot_stamp, hm, none]
      exact .none
    · rintro k op args rfl
      exact absurd slotted.symm bare
  | some t =>
    obtain ⟨t', ht', tied⟩ : ∃ t', m'.slot = some t' ∧ d.Tied t t' := by
      rw [hm] at tied
      cases hm' : m'.slot with
      | none => rw [hm'] at tied; cases tied
      | some t' =>
        rw [hm'] at tied
        cases tied with
        | some tied => exact ⟨t', rfl, tied⟩
    obtain ⟨t₀, ht₀, u, hu, concrete⟩ := known (Node.hasSlot_of_slot hm)
    cases hm.symm.trans ht₀
    obtain ⟨u', hu', concrete', same⟩ := ab.exists_same tied hu concrete
    refine ⟨fun _ => ⟨t', ht', u', hu', concrete'⟩, ?_, ?_⟩
    · simp only [Node.slot_stamp, hm, ht', Option.bind_eq_bind, Option.bind_some, hu, hu']
      exact .some ((Ty.same_iff_canon u u').2 same)
    · rintro k' op' args' rfl
      obtain ⟨k, op, args, rfl⟩ : ∃ k op args, m = .expr (.apply k op args) := by
        cases m with
        | expr e => cases e <;> simp_all [Node.restamp]
        | _ => simp [Node.restamp] at form
      have hm : k.ty = some t := hm
      have ht' : k'.ty = some t' := ht'
      have read : (op.reread? u).getD op = op' := by
        simp only [Node.restamp, Expr.restamp_apply, Node.expr.injEq, Expr.apply.injEq] at form
        simpa [Store.stamp, hm, hu] using form.2.1
      simp only [Store.stamp, ht', Option.bind_eq_bind, Option.bind_some, hu']
      rw [← read]
      exact op.reread?_reread same

/-- Trees whose slots hold tied types, node by node. -/
lemma LevelAll.nodes (level : d.LevelAll w ns ns') (models : w.Models d.first) :
    List.Forall₂ (fun m m' => Option.Rel d.Tied m.slot m'.slot) (ns.flatMap Node.preorder)
      (ns'.flatMap Node.preorder) := by
  induction level with
  | nil => exact .nil
  | cons head _ ih => exact List.rel_append (head models) ih

/-- If the first check knows all types after its walk, so does the second, and the types are the same. -/
theorem agrees (ab : d.Abreast (d.first.world .integers)) (all : d.first.AllKnown ns)
    (models : (d.first.world .integers).Models d.first)
    (level : d.LevelAll (d.first.world .integers) ns ns')
    (form : ns'.map Node.erase = (ns.map (Node.restamp d.first.unifier.store.stamp)).map Node.erase) :
    d.second.AllKnown ns' ∧ Agrees (d.first.decls.settle d.first.unifier.store)
      (ns.map (Node.restamp d.first.unifier.store.stamp))
      (d.second.decls.settle d.second.unifier.store)
      (ns'.map (Node.restamp d.second.unifier.store.stamp)) := by
  have known : ∀ m ∈ ns.flatMap Node.preorder, m.Known d.first.unifier.store := by
    rw [List.forall_mem_flatMap]
    exact all.1
  have nodes : ((ns.flatMap Node.preorder).map (Node.restamp d.first.unifier.store.stamp)).map Node.erase =
      (ns'.flatMap Node.preorder).map Node.erase := by
    rw [← Node.flatMap_preorder_restamp, ← Node.flatMap_preorder_restamp .blank,
      ← Node.flatMap_preorder_restamp .blank]
    exact congrArg (List.flatMap Node.preorder) form.symm
  have forms : List.Forall₂ (fun m m' : Node => (m.restamp d.first.unifier.store.stamp).erase = m'.erase)
      (ns.flatMap Node.preorder) (ns'.flatMap Node.preorder) := by
    rw [← List.forall₂_eq_eq_eq] at nodes
    rwa [List.forall₂_map_left_iff, List.forall₂_map_left_iff, List.forall₂_map_right_iff] at nodes
  have pairs : List.Forall₂ d.Matches (ns.flatMap Node.preorder) (ns'.flatMap Node.preorder) :=
    .mp (fun m m' h form => ab.matches h.1 h.2 form)
      ((List.forall₂_and_left _ _).2 ⟨known, level.nodes models⟩) forms
  have left : ∀ m ∈ ns'.flatMap Node.preorder, m.Known d.second.unifier.store ∧
      ∀ k op args, m = .expr (.apply k op args) → d.second.unifier.store.stamp.op k op = op :=
    forall_mem_of_forall₂ (pairs.imp fun _ _ h => ⟨h.known, h.op⟩)
  have declared (id : Nat) (t : Ty) (ht : d.first.decls.ty? id = some t) : ∃ u u' t',
      d.first.unifier.store.resolve? t = some u ∧ d.second.decls.ty? id = some t' ∧
        d.second.unifier.store.resolve? t' = some u' ∧ u'.isConcrete = true ∧ u.canon = u'.canon := by
    obtain ⟨u, hu, concrete⟩ := all.2 id t ht
    obtain ⟨t', ht', tied⟩ := ab.declared.tied id t ht
    obtain ⟨u', hu', concrete', same⟩ := ab.exists_same tied hu concrete
    exact ⟨u, u', t', hu, ht', hu', concrete', same⟩
  have absent (id : Nat) (ht : d.first.decls.ty? id = none) : d.second.decls.ty? id = none :=
    ab.declared.absent id ht (Option.map_eq_none_iff.2 ht)
  refine ⟨⟨fun n hn m hm => (left m (List.mem_flatMap.2 ⟨n, hn, hm⟩)).1, fun id t' ht' => ?_⟩,
    ?_, ?_, fun id => ?_⟩
  · cases ht : d.first.decls.ty? id with
    | none => cases (absent id ht).symm.trans ht'
    | some t =>
      obtain ⟨u, u', _, -, hx, hu', concrete, -⟩ := declared id t ht
      cases hx.symm.trans ht'
      exact ⟨u', hu', concrete⟩
  · rw [← form, List.map_map]
    refine List.map_congr_left fun n hn => ?_
    have kept := Node.erase_restamp_congr (g := .blank) (n := n) (f := d.second.unifier.store.stamp)
      (fun _ => rfl) fun k op args hm => (left _ (List.mem_flatMap.2 ⟨n, hn, hm⟩)).2 k op args rfl
    exact kept.trans (Node.restamp_restamp (fun _ => rfl) (fun _ _ => rfl) n)
  · rw [Node.flatMap_preorder_restamp, Node.flatMap_preorder_restamp, List.forall₂_map_left_iff,
      List.forall₂_map_right_iff]
    exact pairs.imp fun _ _ h => h.slot
  · rw [Declarations.ty?_settle, Declarations.ty?_settle]
    cases ht : d.first.decls.ty? id with
    | none =>
      rw [absent id ht]
      exact .none
    | some t =>
      obtain ⟨u, u', t', hu, ht', hu', -, same⟩ := declared id t ht
      simp only [ht', Option.bind_eq_bind, Option.bind_some, hu, hu']
      exact .some ((Ty.same_iff_canon u u').2 same)

end Duo

end BMethod
