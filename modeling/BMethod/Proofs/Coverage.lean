import BMethod.Proofs.Typing.Overwrite
import BMethod.Proofs.Typing.Retyped

/-!
# Walks and sweeps cover the same nodes

Every expression and predicate that is a part of a tree, however deep, gets its slot set when a walk
goes through the tree and succeeds. So the sweep that concludes the check, which follows the parts of
nodes, finds no slot empty, and has no reason to put a new variable where nothing is known
(`walks_fill_slots`).
-/

namespace BMethod

open State Walk

/-! ## Sweeps without empty slots. -/

/-- If the sweep ends, it has left the unifier as it was. -/
def Sweep.Idle {α : Type} (x : SweepM α) : Prop :=
  ∀ w a w', x w = some (a, w') → w'.state.unifier = w.state.unifier

namespace Sweep

variable {α β : Type}

lemma idle_pure (a : α) : Idle (pure a : SweepM α) := by
  rintro w a' w' ⟨⟩
  rfl

lemma Idle.bind {x : SweepM α} {f : α → SweepM β} (h : Idle x) (rest : ∀ a, Idle (f a)) :
    Idle (x >>= f) := by
  intro w b w' run
  obtain ⟨⟨a, w₁⟩, run₁, run₂⟩ := Option.bind_eq_some_iff.1 run
  exact (rest a w₁ b w' run₂).trans (h w a w₁ run₁)

lemma idle_blame (what : Subject) (name : String) (t : Ty) (span : Option Span) :
    Idle (blame what name t span) := by
  rintro w a w' ⟨⟩
  cases what <;> rfl

lemma idle_reportReread (before after : Operator) : Idle (reportReread before after) := by
  rintro w a w' ⟨⟩
  rfl

/-- What is in a slot is looked up without a new variable. -/
lemma idle_slotType {n : Note} {t : Ty} (slot : n.ty = some t) : Idle (slotType n) := by
  intro w a w' run
  obtain ⟨empty, -⟩ | ⟨t, -, found⟩ := slotType_cases n w
  · rw [slot] at empty
    cases empty
  · rw [found] at run
    obtain ⟨r, -, hr⟩ := Option.map_eq_some_iff.1 run
    cases hr
    rfl

lemma idle_pred {p : Pred} {t : Ty} (slot : p.note.ty = some t) : Idle (pred p) := by
  refine (idle_slotType slot).bind fun t => ?_
  split
  · exact idle_pure _
  · exact (idle_blame _ _ _ _).bind fun _ => idle_pure _

lemma idle_expr {e : Expr} {t : Ty} (slot : e.note.ty = some t) : Idle (expr e) := by
  by_cases h : ∃ n op args, e = .apply n op args
  · obtain ⟨n, op, args, rfl⟩ := h
    refine (idle_slotType slot).bind fun t => ?_
    simp only
    split
    · split
      · exact (idle_reportReread _ _).bind fun _ => idle_pure _
      · exact idle_pure _
    · split
      · exact (idle_blame _ _ _ _).bind fun _ => idle_pure _
      · exact (idle_blame _ _ _ _).bind fun _ => idle_pure _
  · rw [expr_eq fun n op args eq => h ⟨n, op, args, eq⟩]
    refine (idle_slotType slot).bind fun t => ?_
    split
    · exact idle_pure _
    · exact (idle_blame _ _ _ _).bind fun _ => idle_pure _

end Sweep

/-- A sweep leaves the unifier as it was if the slots of the nodes it visits are filled. -/
def idleTraversal : Traversal Sweep.expr Sweep.pred .blank where
  Does x ns _ := (∀ n ∈ ns, n.hasSlot = true → ∃ t, n.slot = some t) → Sweep.Idle x
  pure a _ _ _ := Sweep.idle_pure a
  bind hx hf filled := by
    rw [List.forall_mem_append] at filled
    exact (hx filled.1).bind fun a => hf a filled.2
  expr {e' e} same filled := by
    obtain ⟨t, slot⟩ := filled (.expr e) (List.mem_singleton_self _) rfl
    exact Sweep.idle_expr ((congrArg Note.ty same.note).trans slot)
  pred {p' p} same filled := by
    obtain ⟨t, slot⟩ := filled (.pred p) (List.mem_singleton_self _) rfl
    exact Sweep.idle_pred ((congrArg Note.ty same.note).trans slot)

/-- The sweep through a tree with no empty slot allocates no variable. -/
lemma Node.Full.idle {n : Node} (h : n.Full) : Sweep.Idle (n.rewriteM Sweep.expr Sweep.pred) :=
  idleTraversal.node n fun m hm => h m (mem_postorder.1 hm)

/-! ## Walks. -/

/-- What a walk through a tree leaves when it sets all slots: a tree of the same form without empty
slots. With empty slots at the beginning, the walk leaves the same. The sweep that follows allocates no
variable. -/
structure Walk.Fills {ν α : Type} (node : ν → Node) (tree : ν) (blank : CheckM (Visited ν α))
    (s : State) (tree' : ν) (a : α) (s' : State) : Prop where
  form : (node tree').erase = (node tree).erase
  full : ∀ n ∈ (node tree').preorder, n.hasSlot = true → ∃ t, n.slot = some t
  anew : blank s = ((tree', .ok a), s')
  swept : ∀ w n w', (node tree').rewriteM Sweep.expr Sweep.pred w = some (n, w') →
    w'.state.unifier = w.state.unifier

lemma Walk.Overwrites.fills {ν α : Type} {node : ν → Node} {tree : ν}
    {walk blank : CheckM (Visited ν α)}
    (h : Overwrites (fun tree' => (node tree').Full) walk blank)
    (form : ∀ s, (node (walk s).1.1).erase = (node tree).erase) (s : State) :
    Ensures walk s (Fills node tree blank s) fun _ => True := by
  have same := form s
  have alike := h s
  rw [Ensures]
  revert same alike
  obtain ⟨⟨tree', _ | a⟩, s'⟩ := walk s
  · exact fun _ _ => trivial
  · rintro same ⟨state, verdict, ok⟩
    obtain ⟨eq, full⟩ := ok a rfl
    exact ⟨same, full, Prod.ext (Prod.ext eq.symm verdict.symm) state.symm, full.idle⟩

/-- A walk through a tree that succeeds has set the slot of every expression and predicate in the tree,
from whatever state it starts and whatever the slots held, unless operands are written under an operator
that has none. -/
theorem walks_fill_slots :
    (∀ (e : Expr) (expected : Ty) (s : State), (∀ m ∈ (Node.expr e).preorder, m.WellApplied) →
      Ensures (e.check expected) s (Fills .expr e (e.erase.check expected) s) fun _ => True) ∧
    (∀ (p : Pred) (expected : Ty) (s : State), (∀ m ∈ (Node.pred p).preorder, m.WellApplied) →
      Ensures (p.check expected) s (Fills .pred p (p.erase.check expected) s) fun _ => True) ∧
    (∀ (σ : Substitution) (scope : Scope) (s : State),
      (∀ m ∈ (Node.substitution σ).preorder, m.WellApplied) →
      Ensures (σ.check scope) s (Fills .substitution σ (σ.erase.check scope) s) fun _ => True) ∧
    ∀ (φ : Ltl) (s : State), (∀ m ∈ (Node.ltl φ).preorder, m.WellApplied) →
      Ensures φ.check s (Fills .ltl φ φ.erase.check s) fun _ => True := by
  refine ⟨fun e t s applied => ?_, fun p t s applied => ?_, fun σ scope s applied => ?_,
    fun φ s applied => ?_⟩
  · exact ((Node.expr e).overwritten applied t).fills
      (fun s => congrArg Node.expr ((Node.expr e).walked t s).1) s
  · exact ((Node.pred p).overwritten applied t).fills
      (fun s => congrArg Node.pred ((Node.pred p).walked t s).1) s
  · exact ((Node.substitution σ).overwritten applied scope).fills
      (fun s => congrArg Node.substitution ((Node.substitution σ).walked scope s).1) s
  · exact Walk.Overwrites.fills ((Node.ltl φ).overwritten applied)
      (fun s => congrArg Node.ltl ((Node.ltl φ).walked s).1) s

/-- What is ensured of a walk holds of it if it succeeds. -/
lemma Ensures.of_isOk {ν : Type} {x : CheckM (Visited ν Unit)} {s : State}
    {Q : ν → Unit → State → Prop} {E : Halt TypeError → Prop} (h : Ensures x s Q E)
    (ok : (x s).1.2.isOk = true) : ∃ n s', x s = ((n, .ok ()), s') ∧ Q n () s' := by
  rw [Ensures] at h
  revert h ok
  obtain ⟨⟨n, _ | _⟩, s'⟩ := x s
  · exact fun _ ok => Bool.noConfusion ok
  · exact fun h _ => ⟨n, s', rfl, h⟩

/-- The substitution `IF x = {} THEN x := {1} ELSE x, y := y, NAT END`, with types in its slots that mean
nothing. -/
def Substitution.sampleBranch : Substitution :=
  let note : Note := ⟨none, some (.var 7)⟩
  let x := Expr.identifier note 0 "x"
  let y := Expr.identifier note 1 "y"
  .branch none .ifThen [.comparison note .equal [x, .apply note .emptySet []]]
    [.assign none [x] [.apply note .setEnumeration [.integer note 1]]]
    (some (.assign none [x, y] [y, .apply note .nat []]))

theorem walks_fill_slots_sampleBranch :
    let s := State.start ⟨#[.named "x", .named "y"]⟩
    let blank := Substitution.sampleBranch.erase.check .empty
    (∀ m ∈ (Node.substitution .sampleBranch).preorder, m.WellApplied) ∧
      ∃ σ s', Substitution.sampleBranch.check .empty s = ((σ, .ok ()), s') ∧
        Fills .substitution .sampleBranch blank s σ () s' := by
  intro s blank
  have applied : ∀ m ∈ (Node.substitution .sampleBranch).preorder, m.WellApplied := by
    simp [Substitution.sampleBranch, Node.preorder, Substitution.preorder, Substitution.preorderAll,
      Substitution.preorderOption, Pred.preorder, Pred.preorderAll, Expr.preorder,
      Expr.preorderAll, Node.WellApplied, Operator.nullary]
  have ok : (Substitution.sampleBranch.check .empty s).1.2.isOk = true := by decide +kernel
  -- The tree and the state are variables here, so that the walk is not run once more by unfolding.
  have fills {σ : Substitution} {s : State}
      (applied : ∀ m ∈ (Node.substitution σ).preorder, m.WellApplied)
      (ok : (σ.check .empty s).1.2.isOk = true) :
      ∃ σ' s', σ.check .empty s = ((σ', .ok ()), s') ∧
        Fills .substitution σ (σ.erase.check .empty) s σ' () s' :=
    (walks_fill_slots.2.2.1 σ .empty s applied).of_isOk ok
  exact ⟨applied, fills applied ok⟩

end BMethod
