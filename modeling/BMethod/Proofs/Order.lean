import BMethod.Proofs.Acceptance

/-!
# The order of conjuncts

A typing of a conjunction consists of types for the declarations and, under these, a typing of each
conjunct, whatever the order of the conjuncts. So if the conjunction is accepted in two orders, the
declarations get the same types; and without products it is accepted in one order exactly if it is in
every other (`conjunction_order`).

With products the second part fails: what a product says about the elements of its operands, should
they be sets, can stop a check before a later conjunct says that they are integers.
-/

namespace BMethod

variable {ds : Declarations} {type type' : Nat → Ty}

/-! ## Typings of conjuncts. -/

/-- A predicate with concrete types in its slots that obey the rules, given the types of the
declarations. -/
structure Pred.Fills (ds : Declarations) (type : Nat → Ty) (p a : Pred) : Prop where
  erased : (Node.pred a).erase = .pred p
  filled : ∀ m ∈ (Node.pred a).preorder, m.hasSlot = true →
    ∃ t, m.slot = some t ∧ t.isConcrete = true
  obeys : ∀ m ∈ (Node.pred a).preorder, m.Obeys (ds.reading type)

/-- A predicate that obeys its rule is boolean. -/
lemma Pred.Fills.value {p a : Pred} (h : p.Fills ds type a) :
    (ds.reading type).value? (.pred a) = some .bool := by
  obtain ⟨ts, t, -, value, typed⟩ := h.obeys _ (Node.self_mem_preorder _)
  rw [value, typed.eq_bool]

/-- Both have as many nodes as the predicate. -/
lemma Pred.Fills.length_eq {p a b : Pred} (h : p.Fills ds type a) (h' : p.Fills ds type' b) :
    (Node.pred a).preorder.length = (Node.pred b).preorder.length := by
  have same := congrArg (List.length ∘ Node.preorder) (h.erased.trans h'.erased.symm)
  simpa [Node.erase, Node.preorder_restamp] using same

section

variable {note note' : Note} {op : Connective} {ps qs : List Pred}

lemma Node.preorder_connective (note : Note) (op : Connective) (ps : List Pred) :
    (Node.pred (.connective note op ps)).preorder =
      .pred (.connective note op ps) :: ps.flatMap fun p => (Node.pred p).preorder := by
  rw [preorder_eq, children, Pred.children, List.flatMap_map]

/-- A typing of a connective consists of typings of its parts. -/
lemma Typing.exists_parts (T : Typing ds (.pred (.connective note op ps))) :
    ∃ n as, T.tree = .pred (.connective n op as) ∧ List.Forall₂ (Pred.Fills ds T.type) ps as := by
  have erased := T.erased
  have filled := T.filled
  have obeys := T.obeys
  generalize T.tree = tree at erased filled obeys
  cases tree with
  | pred a =>
    cases a with
    | connective n op' as =>
      simp only [Node.erase, Node.restamp, Pred.restamp_connective, Node.pred.injEq,
        Pred.connective.injEq] at erased
      obtain ⟨-, rfl, rfl⟩ := erased
      refine ⟨n, as, rfl, ?_⟩
      rw [List.forall₂_map_left_iff, List.forall₂_same]
      have part {a : Pred} (ha : a ∈ as) {m : Node} (hm : m ∈ (Node.pred a).preorder) :
          m ∈ (Node.pred (.connective n op' as)).preorder := by
        rw [Node.preorder_connective]
        exact .tail _ (List.mem_flatMap.2 ⟨a, ha, hm⟩)
      exact fun a ha => ⟨rfl, fun m hm => filled m (part ha hm), fun m hm => obeys m (part ha hm)⟩
    | _ => simp [Node.erase, Node.restamp] at erased
  | _ => cases erased

/-- A connective is boolean. -/
lemma Typing.root_bool (T : Typing ds (.pred (.connective note op ps))) {n : Note} {as : List Pred}
    (tree : T.tree = .pred (.connective n op as)) :
    ∃ t, (Node.pred (.connective n op as)).slot = some t ∧ t.canon = .bool := by
  have root := T.tree.self_mem_preorder
  obtain ⟨t, ht, -⟩ := T.filled T.tree root (by rw [tree]; rfl)
  have obeys := T.obeys T.tree root
  rw [tree] at ht obeys
  obtain ⟨ts, u, -, value, typed⟩ := obeys
  rw [typed.eq_bool, View.value?, ht] at value
  exact ⟨t, ht, Option.some.inj value⟩

/-- Typings of the parts make up a typing of a connective. -/
def Typing.ofParts (note : Note) (op : Connective) (f : Pred → Pred) (empty : note.ty = none)
    (parts : ∀ p ∈ ps, p.Fills ds type (f p))
    (declared : ∀ id, (Node.pred (.connective note op ps)).Mentions id → ds.has id = true →
      (type id).isConcrete = true)
    (agrees : ∀ id t, ds.ty? id = some t → Ty.same t (type id) = true) :
    Typing ds (.pred (.connective note op ps)) where
  tree := .pred (.connective (note.withTy .bool) op (ps.map f))
  type := type
  erased := by
    have same : (ps.map f).map (Pred.restamp .blank) = ps := by
      rw [List.map_map]
      refine (List.map_congr_left fun p hp => ?_).trans (List.map_id _)
      exact Node.pred.inj (parts p hp).erased
    simp only [Node.erase, Node.restamp, Pred.restamp_connective, same, Stamp.blank_note]
    rw [Note.withTy, ← empty]
  filled m hm slotted := by
    rw [Node.preorder_connective, List.flatMap_map] at hm
    obtain rfl | hm := List.mem_cons.1 hm
    · exact ⟨.bool, rfl, rfl⟩
    · obtain ⟨p, hp, hm⟩ := List.mem_flatMap.1 hm
      exact (parts p hp).filled m hm slotted
  declared := declared
  agrees := agrees
  obeys m hm := by
    rw [Node.preorder_connective, List.flatMap_map] at hm
    obtain rfl | hm := List.mem_cons.1 hm
    · refine ⟨ps.map fun _ => .bool, .bool, ?_, rfl, ?_, rfl⟩
      · simp only [View.Gives, Pred.children, List.map_map]
        exact List.map_congr_left fun p hp => (parts p hp).value
      · intro u hu
        obtain ⟨p, -, rfl⟩ := List.mem_map.1 hu
        rfl
    · obtain ⟨p, hp, hm⟩ := List.mem_flatMap.1 hm
      exact (parts p hp).obeys m hm

lemma Node.mentions_connective {id : Nat} :
    (Node.pred (.connective note op ps)).Mentions id ↔ ∃ p ∈ ps, (Node.pred p).Mentions id := by
  simp only [Mentions, preorder_connective, List.mem_cons, List.mem_flatMap]
  constructor
  · rintro ⟨m, rfl | ⟨p, hp, hm⟩, hid⟩
    · simp [mentions, Pred.mentions] at hid
    · exact ⟨p, hp, m, hm, hid⟩
  · rintro ⟨p, hp, m, hm, hid⟩
    exact ⟨m, .inr ⟨p, hp, hm⟩, hid⟩

/-- Which declarations a connective mentions does not depend on the order of its parts. -/
lemma Node.mentions_of_members (members : ∀ p, p ∈ ps ↔ p ∈ qs) {id : Nat} :
    (Node.pred (.connective note op ps)).Mentions id ↔
      (Node.pred (.connective note' op qs)).Mentions id := by
  simp only [mentions_connective, members]

/-- Whether a kind of node occurs in a connective does not depend on the order of its parts. -/
lemma Node.has_of_members {kind : Node → Bool} (members : ∀ p, p ∈ ps ↔ p ∈ qs)
    (root : ∀ ps, kind (.pred (.connective note op ps)) = false) :
    (∃ m ∈ (Node.pred (.connective note op ps)).preorder, kind m = true) ↔
      ∃ m ∈ (Node.pred (.connective note op qs)).preorder, kind m = true := by
  simp only [preorder_connective, List.mem_cons, List.mem_flatMap, members, exists_eq_or_imp, root,
    Bool.false_eq_true, false_or]

lemma Node.blank_connective (members : ∀ p, p ∈ ps ↔ p ∈ qs)
    (blank : (Node.pred (.connective note op ps)).Blank) :
    (Node.pred (.connective note op qs)).Blank := by
  rw [blank_iff] at blank ⊢
  refine ⟨blank.1, fun c hc => blank.2 c ?_⟩
  simp only [children, Pred.children, List.mem_map] at hc ⊢
  obtain ⟨p, hp, rfl⟩ := hc
  exact ⟨p, (members p).2 hp, rfl⟩

/-! ## Typings in another order. -/

/-- A typing with other typings of the parts, in another order. -/
def Typing.reorder (T : Typing ds (.pred (.connective note op ps))) (f : Pred → Pred)
    (empty : note'.ty = none) (members : ∀ p, p ∈ qs → p ∈ ps)
    (parts : ∀ p ∈ qs, p.Fills ds T.type (f p)) : Typing ds (.pred (.connective note' op qs)) :=
  .ofParts note' op f empty parts (fun id mentioned exist => by
    obtain ⟨p, hp, h⟩ := Node.mentions_connective.1 mentioned
    exact T.declared id (Node.mentions_connective.2 ⟨p, members p hp, h⟩) exist) T.agrees

lemma Typing.exists_fills (T : Typing ds (.pred (.connective note op ps))) :
    ∃ f : Pred → Pred, ∀ p ∈ ps, p.Fills ds T.type (f p) := by
  obtain ⟨n, as, -, parts⟩ := T.exists_parts
  obtain ⟨length, parts⟩ := List.forall₂_iff_get.1 parts
  have each : ∀ p ∈ ps, ∃ a, p.Fills ds T.type a := fun p hp => by
    obtain ⟨i, rfl⟩ := List.mem_iff_get.1 hp
    exact ⟨_, parts i i.2 (length ▸ i.2)⟩
  choose! f hf using each
  exact ⟨f, hf⟩

/-- Lists that agree agree in their blocks. -/
lemma forall₂_of_flatMap {α β : Type} {R : β → β → Prop} {f g : α → List β} {l : List α}
    (h : List.Forall₂ R (l.flatMap f) (l.flatMap g))
    (length : ∀ x ∈ l, (f x).length = (g x).length) : ∀ x ∈ l, List.Forall₂ R (f x) (g x) := by
  induction l with
  | nil => exact fun _ hx => by cases hx
  | cons y l ih =>
    rw [List.flatMap_cons, List.flatMap_cons] at h
    rw [List.forall_mem_cons] at length ⊢
    have first := List.forall₂_take_append _ _ _ h
    have rest := List.forall₂_drop_append _ _ _ h
    rw [← length.1, List.take_left] at first
    rw [← length.1, List.drop_left] at rest
    exact ⟨first, ih rest length.2⟩

/-- What two lists say about a third they say about each other. -/
lemma forall₂_of_common {α β γ : Type} {R : α → β → Prop} {S : α → γ → Prop} {l : List α}
    {bs : List β} {cs : List γ} (h : List.Forall₂ R l bs) (h' : List.Forall₂ S l cs) :
    List.Forall₂ (fun b c => ∃ a ∈ l, R a b ∧ S a c) bs cs := by
  induction h generalizing cs with
  | nil =>
    cases h'
    exact .nil
  | cons hab _ ih =>
    cases h' with
    | cons hac h' =>
      refine .cons ⟨_, by simp, hab, hac⟩ ((ih h').imp ?_)
      rintro b c ⟨a, ha, h⟩
      exact ⟨a, by simp [ha], h⟩

/-- If a connective has one typing, so has each of its parts under the types of the declarations. -/
lemma UniquelyTyped.sameSlots (h : UniquelyTyped ds (.pred (.connective note op ps)))
    (empty : note.ty = none) (members : ∀ p, p ∈ ps ↔ p ∈ qs)
    (T T' : Typing ds (.pred (.connective note' op qs))) {p a b : Pred} (hp : p ∈ qs)
    (ha : p.Fills ds T.type a) (hb : p.Fills ds T'.type b) :
    List.Forall₂ Node.SameSlot (Node.pred a).preorder (Node.pred b).preorder := by
  classical
  obtain ⟨f, hf⟩ := T.exists_fills
  obtain ⟨g, hg⟩ := T'.exists_fills
  -- In the first order the part has these two typings, and the other parts have any.
  have first : ∀ q ∈ ps, q.Fills ds T.type (if q = p then a else f q) := fun q hq => by
    split
    · rename_i e
      exact e ▸ ha
    · exact hf q ((members q).1 hq)
  have second : ∀ q ∈ ps, q.Fills ds T'.type (if q = p then b else g q) := fun q hq => by
    split
    · rename_i e
      exact e ▸ hb
    · exact hg q ((members q).1 hq)
  have same := (h.2 (T.reorder _ empty (fun q hq => (members q).1 hq) first)
    (T'.reorder _ empty (fun q hq => (members q).1 hq) second)).nodes
  simp only [Typing.reorder, Typing.ofParts, Node.preorder_connective, List.flatMap_map] at same
  have block := forall₂_of_flatMap (List.forall₂_cons.1 same).2
    (fun q hq => (first q hq).length_eq (second q hq)) p ((members p).2 hp)
  simpa using block

/-- Whether a connective has exactly one typing does not depend on the order of its parts. -/
lemma UniquelyTyped.reorder (h : UniquelyTyped ds (.pred (.connective note op ps)))
    (empty : note.ty = none) (empty' : note'.ty = none) (members : ∀ p, p ∈ ps ↔ p ∈ qs) :
    UniquelyTyped ds (.pred (.connective note' op qs)) := by
  have back : ∀ p, p ∈ ps → p ∈ qs := fun p hp => (members p).1 hp
  -- Typings are carried over part by part, and two of them are compared in the order that has only one.
  refine ⟨?_, fun T T' => ⟨?_, fun id mentioned exist => ?_⟩⟩
  · obtain ⟨T⟩ := h.1
    obtain ⟨f, hf⟩ := T.exists_fills
    exact ⟨T.reorder f empty' (fun p hp => (members p).2 hp) fun p hp => hf p ((members p).2 hp)⟩
  · obtain ⟨n, as, tree, parts⟩ := T.exists_parts
    obtain ⟨n', bs, tree', parts'⟩ := T'.exists_parts
    rw [tree, tree', Node.preorder_connective, Node.preorder_connective]
    refine .cons ?_ (List.rel_flatMap (forall₂_of_common parts parts') ?_)
    · -- The roots are boolean.
      obtain ⟨t, ht, value⟩ := T.root_bool tree
      obtain ⟨t', ht', value'⟩ := T'.root_bool tree'
      exact ⟨t, t', ht, ht', (Ty.same_iff_canon t t').2 (value.trans value'.symm)⟩
    · rintro a b ⟨p, hp, ha, hb⟩
      exact h.sameSlots empty members T T' hp ha hb
  · obtain ⟨f, hf⟩ := T.exists_fills
    obtain ⟨g, hg⟩ := T'.exists_fills
    obtain ⟨p, hp, hid⟩ := Node.mentions_connective.1 mentioned
    exact (h.2 (T.reorder f empty back fun p hp => hf p (back p hp))
      (T'.reorder g empty back fun p hp => hg p (back p hp))).types id
      (Node.mentions_connective.2 ⟨p, (members p).2 hp, hid⟩) exist

end

/-! ## Checks. -/

/-- If the conjuncts of a predicate are put into another order, and the check succeeds in both orders,
it gives every declaration the same type. Without products it succeeds in both orders or in none. -/
theorem conjunction_order {note : Note} {ps qs : List Pred} (perm : ps.Perm qs)
    (empty : ∀ id, ds.ty? id = none) (blank : (Node.pred (.connective note .and ps)).Blank)
    (access : ¬ (Node.pred (.connective note .and ps)).HasAccess) :
    let first := checkPredicate ds (.connective note .and ps)
    let second := checkPredicate ds (.connective note .and qs)
    ((∃ t, first.verdict = .ok t) → (∃ t, second.verdict = .ok t) → ∀ id, ds.has id = true →
      Option.Rel (fun t u => Ty.same t u = true) (first.decls.ty? id) (second.decls.ty? id)) ∧
    (¬ (Node.pred (.connective note .and ps)).HasProduct →
      ((∃ t, first.verdict = .ok t) ↔ ∃ t, second.verdict = .ok t)) := by
  intro first second
  have members : ∀ p, p ∈ ps ↔ p ∈ qs := fun p => perm.mem_iff
  have concrete : ds.Concrete := fun id t h => by simp [empty id] at h
  have noted : note.ty = none := blank.slot
  have blank' : (Node.pred (.connective note .and qs)).Blank := Node.blank_connective members blank
  have decides := checkPredicate_decides concrete blank
  have decides' := checkPredicate_decides concrete blank'
  refine ⟨?_, fun product => ?_⟩
  · rintro ⟨t, ok⟩ ⟨t', ok'⟩ id exist
    have found := decides.determined ok
    have found' := decides'.determined ok'
    by_cases mentioned : (Node.pred (.connective note .and ps)).Mentions id
    · obtain ⟨T⟩ := found.nonempty
      obtain ⟨f, hf⟩ := T.exists_fills
      have back (p : Pred) (hp : p ∈ qs) : p ∈ ps := (members p).2 hp
      obtain ⟨u, hu, same⟩ := (found.unique T).types id mentioned exist
      obtain ⟨u', hu', same'⟩ := (found'.unique
        (T.reorder f noted back fun p hp => hf p (back p hp))).types id
          ((Node.mentions_of_members members).1 mentioned) exist
      rw [hu, hu']
      exact .some (Ty.same_trans (Ty.same_comm same) same')
    · rw [found.unmentioned id mentioned (empty id), found'.unmentioned id
        (mt (Node.mentions_of_members members).2 mentioned) (empty id)]
      exact .none
  · have access' := mt (Node.has_of_members members fun _ => rfl).2 access
    have product' := mt (Node.has_of_members members fun _ => rfl).2 product
    rw [(decides.exact product access).1, (decides'.exact product' access').1]
    exact ⟨fun h => h.reorder noted noted members,
      fun h => h.reorder noted noted fun p => (members p).symm⟩

/-- The predicates `op(a, b) = a` and `a = right`. -/
def Pred.sampleConjuncts (op : Operator) (right : Expr) : List Pred :=
  let note : Note := ⟨none, none⟩
  let a := Expr.identifier note 0 "a"
  [.comparison note .equal [.apply note op [a, .identifier note 1 "b"], a],
    .comparison note .equal [a, right]]

/-- Two declarations of which nothing is known. -/
def Declarations.samplePair : Declarations := ⟨#[.named "a", .named "b"]⟩

/-- `a - b = a ∧ a = {1}` is accepted in both orders, and the operands are sets. -/
theorem conjunction_order_sampleDifference :
    let ps := Pred.sampleConjuncts .minus (.apply ⟨none, none⟩ .setEnumeration [.integer ⟨none, none⟩ 1])
    let first := checkPredicate .samplePair (.connective ⟨none, none⟩ .and ps)
    let second := checkPredicate .samplePair (.connective ⟨none, none⟩ .and ps.reverse)
    (∃ t, first.verdict = .ok t) ∧ (∃ t, second.verdict = .ok t) ∧
      ∀ id, Declarations.samplePair.has id = true →
        Option.Rel (fun t u => Ty.same t u = true) (first.decls.ty? id) (second.decls.ty? id) := by
  intro ps first second
  have empty : ∀ id, Declarations.samplePair.ty? id = none := by
    rintro (_ | _ | id) <;> rfl
  have blank : (Node.pred (.connective ⟨none, none⟩ .and ps)).Blank := by
    rw [Node.Blank]
    decide
  have access : ¬ (Node.pred (.connective ⟨none, none⟩ .and ps)).HasAccess := by
    rw [Node.HasAccess]
    decide
  have product : ¬ (Node.pred (.connective ⟨none, none⟩ .and ps)).HasProduct := by
    rw [Node.HasProduct]
    decide
  have ok : ∃ t, first.verdict = .ok t := Checked.isOk_iff.1 (by decide +kernel)
  have order := conjunction_order ps.reverse_perm.symm empty blank access
  have ok' := (order.2 product).1 ok
  exact ⟨ok, ok', order.1 ok ok'⟩

/-- `a * b = a ∧ a = 1` is refused, although it is accepted in the other order: as sets the product
and its operand could not be equal, and that they are integers is said too late. -/
theorem conjunction_order_product :
    let ps := Pred.sampleConjuncts .mult (.integer ⟨none, none⟩ 1)
    (¬ ∃ t, (checkPredicate .samplePair (.connective ⟨none, none⟩ .and ps)).verdict = .ok t) ∧
    ∃ t, (checkPredicate .samplePair (.connective ⟨none, none⟩ .and ps.reverse)).verdict = .ok t := by
  intro ps
  refine ⟨?_, Checked.isOk_iff.1 (by decide +kernel)⟩
  rw [← Checked.isOk_iff]
  decide +kernel

end BMethod
