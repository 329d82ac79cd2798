import BMethod.Proofs.Soundness

/-!
# Types shared by the occurrences of a name

After a machine has been checked, every identifier has the type that its declaration has
(`machine_shares`), in whatever clause it stands and with whatever types are taken over from other
machines; with one exception. The properties and values are walked through before types are taken over,
and a type that is taken over replaces the one that a declaration has. So an identifier in these two
clauses may be left with another type than its declaration.
-/

namespace BMethod

open State

/-- The declaration that an identifier refers to. -/
def Node.refers? : Node → Option Nat
  | .expr (.identifier _ id _) => some id
  | .pred (.identifier _ id _) => some id
  | _ => none

lemma Node.refers?_restamp (f : Stamp) (n : Node) : (n.restamp f).refers? = n.refers? := by
  cases n with
  | expr e => cases e <;> rfl
  | pred p => cases p <;> rfl
  | substitution | ltl => rfl

/-- If the node is an identifier and its declaration exists, the two have the same type. -/
def Node.Shares (ds : Declarations) (n : Node) : Prop :=
  ∀ id, n.refers? = some id → (ds.get? id).isSome = true →
    ∃ t u, n.slot = some t ∧ ds.ty? id = some u ∧ Ty.same t u = true

/-- An identifier that obeys its rule has the type of its declaration. -/
lemma Node.Obeys.has {V : View} {n : Node} (h : n.Obeys V) {id : Nat} (refers : n.refers? = some id) :
    ∃ t, V.value? n = some t ∧ V.context.Has id t := by
  cases n with
  | expr e =>
    obtain ⟨ts, t, -, value, typed⟩ := h
    cases e with
    | identifier n decl name =>
      cases refers
      exact ⟨t, value, typed.2⟩
    | _ => cases refers
  | pred p =>
    obtain ⟨ts, t, -, value, typed⟩ := h
    cases p with
    | identifier n decl name =>
      cases refers
      exact ⟨t, value, typed.2.1⟩
    | _ => cases refers
  | substitution | ltl => cases refers

variable {known : Nat → Bool} {scope : Scope} {P : Nat → Prop} {s s₀ s₁ s₂ s' : State}

/-- A world of the state before types were taken over: the declarations that have got another type
still have their old one. -/
lemma State.Retyped.exists_models (h : s₁.Retyped P s₂) {w : World} (hw : w.Models s₂) :
    ∃ w' : World, w'.Models s₁ ∧ w'.value = w.value ∧ ∀ id, ¬ P id → w'.type? id = w.type? id := by
  classical
  -- Only the types of declarations may change, as the unifier is the same.
  let type (id : Nat) := if P id then (s₁.decls.ty? id).map (Ty.eval w.value) else w.type? id
  refine ⟨⟨w.value, type⟩, ⟨h.unifier ▸ hw.unifier, fun id t ht => ?_⟩, rfl, fun id hid => if_neg hid⟩
  by_cases hid : P id
  · simp only [type, if_pos hid, ht, Option.map_some]
  · simp only [type, if_neg hid]
    exact hw.types id t ((h.kept id hid).trans ht)

/-- Identifiers have the types of their declarations, if the worlds of the state at the end come from
worlds of the state in which the walk has left them. -/
lemma Walked.shares {ns : List Node} (walked : Walked known scope s₀ ns s₁) (inv : s.Inv known)
    (vars_le : s₁.vars ≤ s.vars)
    (worlds : ∀ w : World, w.Models s → ∃ w' : World, w'.Models s₁ ∧ w'.value = w.value ∧
      ∀ id, ¬ P id → w'.type? id = w.type? id)
    (all : s.AllKnown ns) (settled : s.Settled s') :
    ∀ n ∈ (ns.map (Node.restamp s.unifier.store.stamp)).flatMap Node.preorder,
      (∀ id, n.refers? = some id → ¬ P id) → n.Shares s'.decls := by
  intro m hm hP id refers exist
  rw [Node.flatMap_preorder_restamp] at hm
  obtain ⟨n, hn, rfl⟩ := List.mem_map.1 hm
  have hP := hP id refers
  rw [Node.refers?_restamp] at refers
  have models := inv.models_world .integers
  obtain ⟨w, hw, values, types⟩ := worlds _ models
  obtain ⟨t, value, has⟩ := (walked.obeys w hw all.full n hn).has refers
  -- The declaration has the type `t` in the world of the model, so this is what is left in its slot.
  have context := settled.context inv all.2 .integers
  have declared : (s'.decls.ty? id).map Ty.canon = some t := by
    have exist : known id = true := by
      rw [← exist]
      exact (congrFun (congrArg Context.known context) id).symm
    rw [show (s'.decls.ty? id).map Ty.canon = _ from congrFun (congrArg Context.type? context) id]
    exact (types id hP).symm.trans (has exist)
  -- The slot of the identifier has it in the same world.
  obtain ⟨x, slot, rfl⟩ := Option.map_eq_some_iff.1 value
  obtain ⟨root, hr, hn'⟩ := List.mem_flatMap.1 hn
  obtain ⟨x', slot', u, hu, concrete⟩ := all.1 root hr n hn' (Node.hasSlot_of_slot slot)
  rw [slot] at slot'
  cases slot'
  have canon := inv.canon_eq models ((walked.within n hn x slot).mono vars_le) hu concrete
  obtain ⟨v, hv, eq⟩ := Option.map_eq_some_iff.1 declared
  refine ⟨u, v, by simp [Node.slot_stamp, slot, hu], hv, (Ty.same_iff_canon u v).2 ?_⟩
  rw [canon, eq]
  show x.eval _ = x.eval w.value
  rw [values]

/-- After a successful check of a machine every identifier has the type of its declaration, wherever
it stands; in the properties and values, if no type has been taken over for its declaration. -/
theorem machine_shares {m : Machine} (concrete : m.decls.Concrete) (blank : ∀ n ∈ m.roots, n.Blank)
    (ok : (checkMachine m).verdict = .ok ()) :
    (∀ n ∈ (checkMachine m).tree.constantRoots.flatMap Node.preorder,
      (∀ id, n.refers? = some id → m.takesOver id = false) → n.Shares (checkMachine m).decls) ∧
    ∀ n ∈ (checkMachine m).tree.variableRoots.flatMap Node.preorder,
      n.Shares (checkMachine m).decls := by
  have walk : Ensures m.checkClauses (start m.decls) (fun m' _ s' =>
      (∀ n ∈ m'.constantRoots.flatMap Node.preorder,
        (∀ id, n.refers? = some id → ¬ m.takesOver id = true) → n.Shares s'.decls) ∧
      ∀ n ∈ m'.variableRoots.flatMap Node.preorder,
        (∀ id, n.refers? = some id → ¬ False) → n.Shares s'.decls) Proper := by
    refine Machine.checkClauses_phases blank (inv_start concrete)
      fun m' s₀ s₁ s₂ s walked taken walked' => ?_
    refine ensures_conclude walked'.steps.inv (m'.swept s.unifier) (fun hn hd s' settled => ?_)
      fun _ _ h => by cases h
    rw [Machine.roots_eq, List.forall_mem_append] at hn
    rw [Machine.constantRoots_restamp, Machine.variableRoots_restamp]
    constructor
    · refine walked.shares walked'.steps.inv ?_
        (fun w hw => taken.exists_models (walked'.steps.models w hw)) ⟨hn.1, hd⟩ settled
      rw [State.vars, ← taken.unifier]
      exact walked'.steps.vars_le
    · exact walked'.shares walked'.steps.inv le_rfl (fun w hw => ⟨w, hw, rfl, fun _ _ => rfl⟩)
        ⟨hn.2, hd⟩ settled
  obtain ⟨_, s', -, ⟨early, late⟩, decls⟩ | ⟨e, error, -⟩ := runCheck_spec (.machine m.name) walk
  · have decls : (checkMachine m).decls = s'.decls := decls
    rw [decls]
    exact ⟨fun n hn own => early n hn fun id refers => by simp [own id refers],
      fun n hn => late n hn fun _ _ => not_false⟩
  · cases ok.symm.trans error

/-- A machine that takes over the variable `p.x`, a set of integers in the machine it comes from, with
the given properties and the invariant `p.x = {1}`. -/
def Machine.sampleIncluding (properties : Pred) : Machine :=
  let note : Note := ⟨none, none⟩
  let set := Expr.apply note .setEnumeration [.integer note 1]
  { Machine.named "M" with
    decls := ⟨#[{ Declaration.named "p.x" with qualifier := some "p" }, .named "k"]⟩
    constants := [1]
    included := [0]
    references := [(some "p", { Machine.named "A" with
      decls := ⟨#[{ Declaration.named "x" with ty := some (.set .integer) }]⟩, vars := [0] })]
    properties := some properties
    invariant := some (.comparison note .equal [.identifier note 0 "p.x", set]) }

/-- The predicate `name = 1`. -/
def Pred.sampleOne (id : Nat) (name : String) : Pred :=
  let note : Note := ⟨none, none⟩
  .comparison note .equal [.identifier note id name, .integer note 1]

lemma Machine.sampleIncluding_concrete (properties : Pred) :
    (Machine.sampleIncluding properties).decls.Concrete := by
  rintro (_ | _ | id) t h <;> simp [sampleIncluding, Declarations.ty?, Declarations.get?,
    Declaration.named] at h

/-- With the properties `k = 1` a type is taken over for `p.x` but for no name in them, and all
identifiers have the types of their declarations. -/
theorem machine_shares_sampleConstant :
    let m := Machine.sampleIncluding (.sampleOne 1 "k")
    (checkMachine m).verdict = .ok () ∧ m.takesOver 0 = true ∧ m.takesOver 1 = false ∧
      (∀ n ∈ (checkMachine m).tree.constantRoots.flatMap Node.preorder,
        (∀ id, n.refers? = some id → m.takesOver id = false) → n.Shares (checkMachine m).decls) ∧
      ∀ n ∈ (checkMachine m).tree.variableRoots.flatMap Node.preorder,
        n.Shares (checkMachine m).decls := by
  intro m
  have blank : ∀ n ∈ m.roots, n.Blank := by
    simp only [Node.Blank]
    decide
  obtain ⟨_, ok⟩ : ∃ t, (checkMachine m).verdict = .ok t := Checked.isOk_iff.1 (by decide +kernel)
  exact ⟨ok, by decide +kernel, by decide +kernel,
    machine_shares (Machine.sampleIncluding_concrete _) blank ok⟩

/-- With the properties `k = 1 ∧ p.x = 1` the check succeeds, too. It leaves the variable an integer
in the properties, while its declaration gets the type that is taken over. -/
theorem machine_shares_replaced :
    let m := Machine.sampleIncluding (.connective ⟨none, none⟩ .and
      [.sampleOne 1 "k", .sampleOne 0 "p.x"])
    (checkMachine m).verdict = .ok () ∧ (checkMachine m).decls.ty? 0 = some (.set .integer) ∧
      ∃ n ∈ (checkMachine m).tree.constantRoots.flatMap Node.preorder,
        n.slot = some .integer ∧ ¬ n.Shares (checkMachine m).decls := by
  intro m
  obtain ⟨_, ok⟩ : ∃ t, (checkMachine m).verdict = .ok t := Checked.isOk_iff.1 (by decide +kernel)
  have type : (checkMachine m).decls.ty? 0 = some (.set .integer) := by decide +kernel
  have left : (some 0, some Ty.integer) ∈ ((checkMachine m).tree.constantRoots.flatMap
      Node.preorder).map fun n => (n.refers?, n.slot) := by decide +kernel
  obtain ⟨n, hn, eq⟩ := List.mem_map.1 left
  obtain ⟨refers, slot⟩ := Prod.mk.inj eq
  refine ⟨ok, type, n, hn, slot, fun shares => ?_⟩
  obtain ⟨t, u, ht, hu, same⟩ := shares 0 refers (by decide +kernel)
  cases slot.symm.trans ht
  cases type.symm.trans hu
  cases same

end BMethod
