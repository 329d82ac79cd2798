import BMethod.Proofs.Traversal
import BMethod.Proofs.Typing.Sound.Machine

/-!
# What concluding a check leaves

The sweep through the nodes either finds a concrete type for every slot, and then changes slots and
operators and nothing else (`Sweeps`), or it remembers a node to be reported. So a check that gets
as far as its conclusion succeeds exactly if all slots of nodes and declarations have concrete types,
and leaves these types in the slots (`concludes`).
-/

namespace BMethod

open State

/-! ## Slots. -/

namespace Store

/-- The type is known completely. -/
def Knows (s : Store) (t : Ty) : Prop := ∃ u, s.resolve? t = some u ∧ u.isConcrete = true

/-- What concluding does to slots and to the operators under them. -/
def stamp (s : Store) : Stamp where
  note n := { n with ty := n.ty >>= s.resolve? }
  op n op := ((n.ty >>= s.resolve?) >>= op.reread?).getD op

end Store

/-- The slot of the node, if it has one, is filled and known completely. -/
def Node.Known (s : Store) (n : Node) : Prop :=
  n.hasSlot = true → ∃ t, n.slot = some t ∧ s.Knows t

/-! ## The sweep. -/

/-- The type of something is not known. -/
def TypeError.isUnresolved : TypeError → Bool
  | .unresolved .. => true
  | _ => false

/-- The type of a node, or of a declaration whatever its clause, is not known. -/
def TypeError.isLeftOpen : TypeError → Bool
  | .unresolved .operator .. | .unresolved .expression .. | .unresolved .localVariable .. => true
  | _ => false

lemma TypeError.isUnresolved_of_isLeftOpen {e : TypeError} (h : e.isLeftOpen = true) :
    e.isUnresolved = true := by
  cases e with
  | unresolved => rfl
  | _ => cases h

namespace Sweep

/-- No node is to be reported. -/
def Clean (w : Sweep) : Prop := w.undecided = none ∧ w.untyped = none

/-- Nothing is reported of nodes but that their types are not known. -/
def Tame (w : Sweep) : Prop :=
  (∀ e, w.undecided = some e → e.isLeftOpen = true) ∧
    ∀ e, w.untyped = some e → e.isLeftOpen = true

end Sweep

/-- The unifier with new variables of which nothing is known. -/
def Unifier.Refreshed : Unifier → Unifier → Prop :=
  Relation.ReflTransGen fun u u' => u' = (u.allocate .free).2

/-- New variables of which nothing is known lead nowhere. -/
lemma Unifier.Refreshed.acyclic {u u' : Unifier} (h : u.Refreshed u') (ac : u.store.Acyclic) :
    u'.store.Acyclic := by
  induction h with
  | refl => exact ac
  | tail _ e ih =>
    subst e
    exact ih.allocate_free

section

variable {α β : Type} {u : Unifier}

/-- The sweep adds at most new variables to the unifier, leaves the declarations alone and reports
nothing but unknown types. On an acyclic store it ends. If it ends, it stays clean exactly if `clean`
holds, and then its result is `a` and it has left the unifier alone, too. -/
structure Sweeps (u : Unifier) (x : SweepM α) (clean : Prop) (a : α) : Prop where
  frame : ∀ w b w', x w = some (b, w') →
    w'.state.decls = w.state.decls ∧ w.state.unifier.Refreshed w'.state.unifier
  tame : ∀ w b w', x w = some (b, w') → w.Tame → w'.Tame
  ends : ∀ w : Sweep, w.state.unifier.store.Acyclic → ∃ b w', x w = some (b, w')
  spec : ∀ w b w', x w = some (b, w') → (w'.Clean → w.Clean) ∧
    (w.Clean → w.state.unifier = u →
      (w'.Clean ↔ clean) ∧ (clean → b = a ∧ w'.state.unifier = u))

lemma sweeps_pure (a : α) : Sweeps u (pure a) True a where
  frame w b w' h := by
    cases h
    exact ⟨rfl, .refl⟩
  tame w b w' h := by
    cases h
    exact id
  ends w _ := ⟨a, w, rfl⟩
  spec w b w' h := by
    cases h
    exact ⟨id, fun clean same => ⟨by simp [clean], fun _ => ⟨rfl, same⟩⟩⟩

lemma Sweeps.bind {x : SweepM α} {f : α → SweepM β} {c : Prop} {c' : α → Prop} {a : α}
    {a' : α → β} (hx : Sweeps u x c a) (hf : ∀ b, Sweeps u (f b) (c' b) (a' b)) :
    Sweeps u (x >>= f) (c ∧ c' a) (a' a) where
  frame w b' w₂ run := by
    obtain ⟨⟨b, w₁⟩, run₁, run₂⟩ := Option.bind_eq_some_iff.1 run
    obtain ⟨decls, refreshed⟩ := hx.frame w b w₁ run₁
    obtain ⟨decls', refreshed'⟩ := (hf b).frame w₁ b' w₂ run₂
    exact ⟨decls'.trans decls, refreshed.trans refreshed'⟩
  tame w b' w₂ run tame := by
    obtain ⟨⟨b, w₁⟩, run₁, run₂⟩ := Option.bind_eq_some_iff.1 run
    exact (hf b).tame w₁ b' w₂ run₂ (hx.tame w b w₁ run₁ tame)
  ends w ac := by
    obtain ⟨b, w₁, run⟩ := hx.ends w ac
    obtain ⟨b', w₂, run'⟩ := (hf b).ends w₁ ((hx.frame w b w₁ run).2.acyclic ac)
    exact ⟨b', w₂, Option.bind_eq_some_iff.2 ⟨(b, w₁), run, run'⟩⟩
  spec w b' w₂ run := by
    obtain ⟨⟨b, w₁⟩, run₁, run₂⟩ := Option.bind_eq_some_iff.1 run
    obtain ⟨mono, spec⟩ := hx.spec w b w₁ run₁
    obtain ⟨mono', spec'⟩ := (hf b).spec w₁ b' w₂ run₂
    refine ⟨mono ∘ mono', fun clean same => ?_⟩
    obtain ⟨iff₁, end₁⟩ := spec clean same
    by_cases hc : c
    · obtain ⟨rfl, same₁⟩ := end₁ hc
      obtain ⟨iff₂, end₂⟩ := spec' (iff₁.2 hc) same₁
      exact ⟨by simp [hc, iff₂], fun h => end₂ h.2⟩
    · refine ⟨iff_of_false (fun h => hc (iff₁.1 (mono' h))) fun h => hc h.1, fun h => absurd h.1 hc⟩

lemma Sweeps.congr {x : SweepM α} {c c' : Prop} {a a' : α} (h : Sweeps u x c a) (hc : c ↔ c')
    (ha : a = a') : Sweeps u x c' a' := by
  subst ha
  rwa [show c = c' from propext hc] at h

/-- A step that is told the type in a slot stays clean if it is concrete, and does not if not. -/
structure Judges (next : Ty → SweepM α) (a : Ty → α) : Prop where
  concrete : ∀ t w, t.isConcrete = true → ∃ w', next t w = some (a t, w') ∧
    w'.state.unifier = w.state.unifier ∧ w'.state.decls = w.state.decls ∧
    (w'.Clean ↔ w.Clean) ∧ (w.Tame → w'.Tame)
  vague : ∀ t w, t.isConcrete = false → ∃ b w', next t w = some (b, w') ∧
    w'.state.unifier = w.state.unifier ∧ w'.state.decls = w.state.decls ∧ ¬ w'.Clean ∧
    (w.Tame → w'.Tame)

/-- What a sweep finds in a slot. -/
lemma Sweep.slotType_cases (n : Note) (w : Sweep) :
    (n.ty = none ∧
      slotType n w = some (.var w.state.vars, { w with state := w.state.grow .free })) ∨
    ∃ t, n.ty = some t ∧ slotType n w = (w.state.unifier.store.resolve? t).map (·, w) := by
  cases slot : n.ty with
  | none =>
    refine .inl ⟨rfl, ?_⟩
    simp only [slotType, slot]
    rfl
  | some t =>
    refine .inr ⟨t, rfl, ?_⟩
    simp only [slotType, slot, Bind.bind, StateT.bind, get, getThe, MonadStateOf.get, StateT.get,
      Pure.pure, Option.bind]
    cases w.state.unifier.store.resolve? t <;> rfl

lemma Judges.frame {next : Ty → SweepM α} {a : Ty → α} (h : Judges next a) {t : Ty} {w w' : Sweep}
    {b : α} (run : next t w = some (b, w')) :
    w'.state.unifier = w.state.unifier ∧ w'.state.decls = w.state.decls ∧ (w.Tame → w'.Tame) := by
  by_cases ht : t.isConcrete = true
  · obtain ⟨w₁, run₁, same, decls, -, tame⟩ := h.concrete t w ht
    rw [run₁] at run
    cases run
    exact ⟨same, decls, tame⟩
  · obtain ⟨b₁, w₁, run₁, same, decls, -, tame⟩ := h.vague t w (by simpa using ht)
    rw [run₁] at run
    cases run
    exact ⟨same, decls, tame⟩

lemma Judges.sweeps {n : Note} {next : Ty → SweepM α} {a : Ty → α} {b : α} (h : Judges next a)
    (value : ∀ t, n.ty >>= u.store.resolve? = some t → a t = b) :
    Sweeps u (Sweep.slotType n >>= next) (∃ t, n.ty = some t ∧ u.store.Knows t) b where
  frame w b w' run := by
    obtain ⟨⟨t, w₁⟩, run₁, run₂⟩ := Option.bind_eq_some_iff.1 run
    obtain ⟨same, decls, -⟩ := h.frame run₂
    rw [same, decls]
    obtain ⟨-, found⟩ | ⟨t, -, found⟩ := Sweep.slotType_cases n w
    · rw [found] at run₁
      cases run₁
      exact ⟨rfl, .single rfl⟩
    · rw [found] at run₁
      obtain ⟨r, -, hr⟩ := Option.map_eq_some_iff.1 run₁
      cases hr
      exact ⟨rfl, .refl⟩
  tame w b' w' run tame := by
    obtain ⟨⟨t, w₁⟩, run₁, run₂⟩ := Option.bind_eq_some_iff.1 run
    refine (h.frame run₂).2.2 ?_
    obtain ⟨-, found⟩ | ⟨t, -, found⟩ := Sweep.slotType_cases n w
    · rw [found] at run₁
      cases run₁
      exact tame
    · rw [found] at run₁
      obtain ⟨r, -, hr⟩ := Option.map_eq_some_iff.1 run₁
      cases hr
      exact tame
  ends w ac := by
    have step (t : Ty) (w' : Sweep) : ∃ r, next t w' = some r := by
      by_cases ht : t.isConcrete = true
      · obtain ⟨w₁, run, -⟩ := h.concrete t w' ht
        exact ⟨_, run⟩
      · obtain ⟨b, w₁, run, -⟩ := h.vague t w' (by simpa using ht)
        exact ⟨_, run⟩
    have slot : ∃ r, Sweep.slotType n w = some r := by
      obtain ⟨-, run⟩ | ⟨t, -, run⟩ := Sweep.slotType_cases n w
      · exact ⟨_, run⟩
      · obtain ⟨r, hr⟩ := ac.exists_resolve? t
        rw [hr, Option.map_some] at run
        exact ⟨_, run⟩
    obtain ⟨⟨t, w₁⟩, run₁⟩ := slot
    obtain ⟨⟨b, w₂⟩, run₂⟩ := step t w₁
    exact ⟨b, w₂, Option.bind_eq_some_iff.2 ⟨(t, w₁), run₁, run₂⟩⟩
  spec w b' w₂ run := by
    obtain ⟨⟨r, w₁⟩, run₁, run₂⟩ := Option.bind_eq_some_iff.1 run
    obtain ⟨slot, found⟩ | ⟨t, slot, found⟩ := Sweep.slotType_cases n w
    · -- Nothing is known of an empty slot, and the new variable is not concrete.
      rw [found] at run₁
      cases run₁
      obtain ⟨b, w', run', -, -, unclean, -⟩ :=
        h.vague (.var w.state.vars) { w with state := w.state.grow .free } rfl
      cases run'.symm.trans run₂
      exact ⟨fun h => absurd h unclean, fun _ _ => by simp [slot, unclean]⟩
    · rw [found] at run₁
      obtain ⟨r', hr, e⟩ := Option.map_eq_some_iff.1 run₁
      cases e
      have knows (same : w.state.unifier = u) : (∃ t', n.ty = some t' ∧ u.store.Knows t') ↔
          r.isConcrete = true := by
        rw [← same, slot]
        constructor
        · rintro ⟨t', ht', r', hr', hc⟩
          cases ht'
          rw [hr] at hr'
          cases hr'
          exact hc
        · exact fun hc => ⟨t, rfl, r, hr, hc⟩
      by_cases hc : r.isConcrete = true
      · obtain ⟨w', run', same, -, clean, -⟩ := h.concrete r w hc
        cases run'.symm.trans run₂
        refine ⟨clean.1, fun hw hu => ⟨?_, fun _ => ⟨?_, by rw [same, hu]⟩⟩⟩
        · rw [knows hu]
          simp [hc, clean, hw]
        · refine value r ?_
          rw [← hu, slot]
          exact hr
      · obtain ⟨b, w', run', -, -, unclean, -⟩ := h.vague r w (by simpa using hc)
        cases run'.symm.trans run₂
        refine ⟨fun h => absurd h unclean, fun _ hu => ?_⟩
        rw [knows hu]
        exact ⟨iff_of_false unclean hc, fun h => absurd h hc⟩

/-- A node that is remembered makes the sweep unclean. -/
lemma Sweep.blame_spec (what : Subject) (name : String) (t : Ty) (span : Option Span)
    (left : (TypeError.unresolved what name t span).isLeftOpen = true) (w : Sweep) :
    ∃ w', Sweep.blame what name t span w = some ((), w') ∧
      w'.state.unifier = w.state.unifier ∧ w'.state.decls = w.state.decls ∧ ¬ w'.Clean ∧
      (w.Tame → w'.Tame) := by
  obtain ⟨state, undecided, untyped⟩ := w
  have first {o : Option TypeError} (h : ∀ e, o = some e → e.isLeftOpen = true) :
      ∀ e, (o <|> some (.unresolved what name t span)) = some e → e.isLeftOpen = true := by
    cases o with
    | none => rintro e ⟨⟩; exact left
    | some e => exact h
  cases what with
  | operator =>
    refine ⟨_, rfl, rfl, rfl, ?_, fun tame => ⟨first tame.1, tame.2⟩⟩
    cases undecided <;> simp [Sweep.Clean]
  | _ =>
    refine ⟨_, rfl, rfl, rfl, ?_, fun tame => ⟨tame.1, first tame.2⟩⟩
    cases untyped <;> simp [Sweep.Clean]

/-- Puts the type into the slot if it is concrete, and remembers the node if not. -/
lemma judges_fill {next : Ty → SweepM α} {a : Ty → α} {b : α} (name : String)
    (span : Option Span) (concrete : ∀ t, t.isConcrete = true → next t = pure (a t))
    (vague : ∀ t, t.isConcrete = false →
      next t = (do Sweep.blame .expression name t span; return b)) : Judges next a where
  concrete t w ht := by
    rw [concrete t ht]
    exact ⟨w, rfl, rfl, rfl, Iff.rfl, id⟩
  vague t w ht := by
    rw [vague t ht]
    obtain ⟨w', run, same, decls, unclean⟩ := Sweep.blame_spec .expression name t span rfl w
    refine ⟨b, w', ?_, same, decls, unclean⟩
    simp only [Bind.bind, StateT.bind, run]
    rfl

lemma sweeps_pred (p : Pred) :
    Sweeps u (Sweep.pred p) (∃ t, p.note.ty = some t ∧ u.store.Knows t)
      (u.store.stamp.pred p) := by
  refine Judges.sweeps (a := p.withTy) (judges_fill p.describe p.note.span (b := p)
    (fun t ht => ?_) fun t ht => ?_) fun t ht => ?_
  · rw [if_pos ht]
  · rw [if_neg (by simp [ht])]
  · simp only [Stamp.pred, Store.stamp, ht]
    rfl

/-- All expressions but applied operators are treated alike. -/
lemma Sweep.expr_eq {e : Expr} (h : ∀ n op args, e ≠ .apply n op args) :
    Sweep.expr e = (do
      let t ← Sweep.slotType e.note
      if t.isConcrete then return e.withTy t
      else
        Sweep.blame .expression e.describe t e.note.span
        return e) := by
  cases e with
  | apply n op args => exact absurd rfl (h n op args)
  | _ => rfl

lemma Stamp.expr_eq {e : Expr} (h : ∀ n op args, e ≠ .apply n op args) (f : Stamp) :
    f.expr e = e.withNote (f.note e.note) := by
  cases e with
  | apply n op args => exact absurd rfl (h n op args)
  | _ => rfl

lemma sweeps_expr (e : Expr) :
    Sweeps u (Sweep.expr e) (∃ t, e.note.ty = some t ∧ u.store.Knows t)
      (u.store.stamp.expr e) := by
  by_cases h : ∃ n op args, e = .apply n op args
  · obtain ⟨n, op, args, rfl⟩ := h
    refine Judges.sweeps (n := n)
      (a := fun t => .apply (n.withTy t) ((op.reread? t).getD op) args) ⟨?_, ?_⟩ fun t ht => ?_
    · intro t w ht
      simp only [if_pos ht]
      cases op.reread? t with
      | none => exact ⟨w, rfl, rfl, rfl, Iff.rfl, id⟩
      | some after => exact ⟨_, rfl, rfl, rfl, Iff.rfl, fun tame => tame⟩
    · intro t w ht
      simp only [if_neg (show ¬ t.isConcrete = true by simp [ht])]
      split
      · obtain ⟨w', run, same, decls, unclean⟩ := Sweep.blame_spec .operator op.name t n.span rfl w
        refine ⟨.apply n op args, w', ?_, same, decls, unclean⟩
        simp only [Bind.bind, StateT.bind, run]
        rfl
      · obtain ⟨w', run, same, decls, unclean⟩ :=
          Sweep.blame_spec .expression (Expr.apply n op args).describe t n.span rfl w
        refine ⟨.apply n op args, w', ?_, same, decls, unclean⟩
        simp only [Bind.bind, StateT.bind, run]
        rfl
    · simp only [Stamp.expr, Store.stamp, ht]
      rfl
  · have h (n op args) : e ≠ .apply n op args := fun eq => h ⟨n, op, args, eq⟩
    rw [Sweep.expr_eq h, Stamp.expr_eq h]
    refine Judges.sweeps (a := e.withTy) (judges_fill e.describe e.note.span (b := e)
      (fun t ht => ?_) fun t ht => ?_) fun t ht => ?_
    · rw [if_pos ht]
    · rw [if_neg (by simp [ht])]
    · simp only [Store.stamp, ht]
      rfl

end

/-! ## Trees. -/

/-- All slots of the tree are filled and known completely. -/
def Node.AllKnown (s : Store) (n : Node) : Prop := ∀ m ∈ n.preorder, m.Known s

lemma Node.allKnown_iff {s : Store} {n : Node} :
    n.AllKnown s ↔ n.Known s ∧ ∀ c ∈ n.children, c.AllKnown s := by
  rw [AllKnown, preorder_eq]
  simp only [List.forall_mem_cons, List.mem_flatMap, forall_exists_index, and_imp, AllKnown]
  exact and_congr_right fun _ => ⟨fun h c hc m hm => h m c hc hm, fun h m c hc hm => h c hc m hm⟩

section

variable {u : Unifier}

/-- The sweep through the tree is clean exactly if all slots are known. -/
def Node.Swept (u : Unifier) : Node → Prop
  | .expr e => Sweeps u (e.rewriteM Sweep.expr Sweep.pred) ((Node.expr e).AllKnown u.store)
      (e.restamp u.store.stamp)
  | .pred p => Sweeps u (p.rewriteM Sweep.expr Sweep.pred) ((Node.pred p).AllKnown u.store)
      (p.restamp u.store.stamp)
  | .substitution σ => Sweeps u (σ.rewriteM Sweep.expr Sweep.pred)
      ((Node.substitution σ).AllKnown u.store) (σ.restamp u.store.stamp)
  | .ltl f => Sweeps u (f.rewriteM Sweep.expr Sweep.pred) ((Node.ltl f).AllKnown u.store)
      (f.restamp u.store.stamp)

/-- What is known of an expression or predicate: its slot and its parts. -/
lemma Node.allKnown_expr {e : Expr} : (Node.expr e).AllKnown u.store ↔
    (∀ c ∈ e.children, c.AllKnown u.store) ∧ ∃ t, e.note.ty = some t ∧ u.store.Knows t := by
  rw [allKnown_iff, and_comm]
  simp [Known, hasSlot, slot, children]

lemma Node.allKnown_pred {p : Pred} : (Node.pred p).AllKnown u.store ↔
    (∀ c ∈ p.children, c.AllKnown u.store) ∧ ∃ t, p.note.ty = some t ∧ u.store.Knows t := by
  rw [allKnown_iff, and_comm]
  simp [Known, hasSlot, slot, children]

lemma Node.allKnown_postorder {n : Node} :
    n.AllKnown u.store ↔ ∀ m ∈ n.postorder, m.Known u.store := by
  simp only [AllKnown, mem_postorder]

/-- A sweep is clean exactly if the slots of the nodes it visits are known. -/
def sweepsTraversal (u : Unifier) : Traversal Sweep.expr Sweep.pred u.store.stamp where
  Does x ns a := Sweeps u x (∀ n ∈ ns, n.Known u.store) a
  pure a ns h := (sweeps_pure a).congr (by simp +contextual [Node.Known, h]) rfl
  bind hx hf := (hx.bind hf).congr List.forall_mem_append.symm rfl
  expr {e' e} same := (sweeps_expr e').congr
    (by simp [Node.Known, Node.hasSlot, Node.slot, same.note]) rfl
  pred {p' p} same := (sweeps_pred p').congr
    (by simp [Node.Known, Node.hasSlot, Node.slot, same.note]) rfl

/-- The sweep through any tree is clean exactly if all its slots are known. -/
theorem Node.swept (u : Unifier) (n : Node) : n.Swept u := by
  have covers := (sweepsTraversal u).covers n
  cases n with
  | expr | pred | substitution | ltl => exact Sweeps.congr covers allKnown_postorder.symm rfl

/-! ## Machines. -/

section

variable (f : Stamp) (m : Machine)

lemma Machine.map_restamp_option {α : Type} (o : Option α) (g : α → α) (n : α → Node)
    (h : ∀ a, n (g a) = (n a).restamp f) :
    (o.map g).toList.map n = (o.toList.map n).map (Node.restamp f) := by
  cases o <;> simp [h]

lemma Machine.constantRoots_restamp :
    (m.restamp f).constantRoots = m.constantRoots.map (Node.restamp f) := by
  simp only [constantRoots, restamp, List.map_append, List.map_map]
  rw [map_restamp_option f _ _ Node.pred fun _ => rfl]
  simp [Function.comp_def, Node.restamp]

lemma Machine.variableRoots_restamp :
    (m.restamp f).variableRoots = m.variableRoots.map (Node.restamp f) := by
  simp only [variableRoots, restamp, List.map_append, List.map_map]
  rw [map_restamp_option f _ _ Node.pred fun _ => rfl,
    map_restamp_option f _ _ Node.substitution fun _ => rfl]
  simp [Function.comp_def, Node.restamp]

lemma Machine.roots_restamp : (m.restamp f).roots = m.roots.map (Node.restamp f) := by
  rw [roots_eq, roots_eq, constantRoots_restamp, variableRoots_restamp, List.map_append]

end

/-- The sweep through a machine is clean exactly if all slots of its trees are known. -/
theorem Machine.swept (u : Unifier) (m : Machine) :
    Sweeps u (m.rewriteM Sweep.expr Sweep.pred) (∀ n ∈ m.roots, n.AllKnown u.store)
      (m.restamp u.store.stamp) :=
  Sweeps.congr ((sweepsTraversal u).machine m)
    (by simp only [List.forall_mem_flatMap, Node.allKnown_postorder]) rfl

end

/-! ## Declarations. -/

/-- The type of the declaration, if it has one, is known completely. -/
def Declaration.Known (s : Store) (d : Declaration) : Prop := ∀ t, d.ty = some t → s.Knows t

/-- The declaration with what is known of its type. -/
def Declaration.settle (s : Store) (d : Declaration) : Declaration :=
  { d with ty := d.ty >>= s.resolve? }

/-- How settling declarations ends: all are known completely, or those before the first that is not are
settled, and that one is reported. -/
inductive Settling (s : Store) : List Declaration → List Declaration × Verdict Unit → Prop
  | all {ds} : (∀ d ∈ ds, d.Known s) → Settling s ds (ds.map (Declaration.settle s), .ok ())
  | upTo {before d after t} : (∀ d' ∈ before, d'.Known s) → d.ty >>= s.resolve? = some t →
    t.isConcrete = false → Settling s (before ++ d :: after)
      (before.map (Declaration.settle s) ++ d :: after,
        .error (.error (.unresolved .localVariable d.name t d.span)))

lemma Settling.cons {s : Store} {d : Declaration} {ds : List Declaration}
    {r : List Declaration × Verdict Unit} (known : d.Known s) (h : Settling s ds r) :
    Settling s (d :: ds) (d.settle s :: r.1, r.2) := by
  cases h with
  | all all => exact .all (List.forall_mem_cons.2 ⟨known, all⟩)
  | upTo all slot vague => exact .upTo (List.forall_mem_cons.2 ⟨known, all⟩) slot vague

theorem Store.Acyclic.settles_declarations {s : Store} (ac : s.Acyclic) (ds : List Declaration) :
    Settling s ds (settleDeclarations s ds) := by
  induction ds with
  | nil => exact .all nofun
  | cons d ds ih =>
    obtain ⟨name, span, _ | t, qualifier⟩ := d
    · exact ih.cons nofun
    · obtain ⟨r, hr⟩ := ac.exists_resolve? t
      cases hc : r.isConcrete with
      | true =>
        have known : Declaration.Known s ⟨name, span, some t, qualifier⟩ := by
          rintro t' ⟨⟩
          exact ⟨r, hr, hc⟩
        simpa [settleDeclarations, hr, hc, Declaration.settle] using ih.cons known
      | false =>
        have first := @Settling.upTo s [] ⟨name, span, some t, qualifier⟩ ds r nofun hr hc
        simpa [settleDeclarations, hr, hc] using first

lemma Store.Acyclic.settleDeclarations_spec {s : Store} (ac : s.Acyclic)
    (ds : List Declaration) :
    (settleDeclarations s ds = (ds.map (Declaration.settle s), .ok ()) ∧ ∀ d ∈ ds, d.Known s) ∨
      (∃ ds' e, settleDeclarations s ds = (ds', .error (.error e)) ∧ ¬ ∀ d ∈ ds, d.Known s) := by
  generalize run : settleDeclarations s ds = r
  cases run ▸ ac.settles_declarations ds with
  | all known => exact .inl ⟨rfl, known⟩
  | @upTo before d after t _ slot vague =>
    refine .inr ⟨_, _, rfl, fun all => ?_⟩
    obtain ⟨t', ht', slot⟩ := Option.bind_eq_some_iff.1 slot
    obtain ⟨r, hr, hc⟩ := all d (by simp) t' ht'
    cases slot.symm.trans hr
    rw [vague] at hc
    cases hc

/-- If settling declarations succeeds, they were all known, whatever the store is like. -/
lemma settleDeclarations_ok {s : Store} {ds : List Declaration}
    (ok : (settleDeclarations s ds).2 = .ok ()) :
    (settleDeclarations s ds).1 = ds.map (Declaration.settle s) ∧ ∀ d ∈ ds, d.Known s := by
  induction ds with
  | nil => exact ⟨rfl, nofun⟩
  | cons d ds ih =>
    obtain ⟨name, span, _ | t, qualifier⟩ := d
    · obtain ⟨rest, known⟩ := ih ok
      exact ⟨congrArg (_ :: ·) rest, List.forall_mem_cons.2 ⟨nofun, known⟩⟩
    · simp only [settleDeclarations] at ok ⊢
      split at ok
      · cases ok
      · rename_i r hr
        split at ok
        · rename_i hc
          obtain ⟨rest, known⟩ := ih ok
          refine ⟨?_, List.forall_mem_cons.2 ⟨?_, known⟩⟩
          · simp [hr, hc, rest, Declaration.settle]
          · rintro t' ⟨⟩
            exact ⟨r, hr, hc⟩
        · cases ok

/-- If settling declarations fails with an error, a type is not known. -/
lemma settleDeclarations_error {s : Store} {ds : List Declaration} {e : TypeError}
    (error : (settleDeclarations s ds).2 = .error (.error e)) : e.isLeftOpen = true := by
  induction ds with
  | nil => cases error
  | cons d ds ih =>
    obtain ⟨name, span, _ | t, qualifier⟩ := d
    · exact ih error
    · simp only [settleDeclarations] at error
      split at error
      · cases error
      · split at error
        · exact ih error
        · cases error
          rfl

/-- The declarations with what is known of their types. -/
def Declarations.settle (s : Store) (ds : Declarations) : Declarations :=
  ⟨ds.all.map (Declaration.settle s)⟩

namespace Declarations

lemma get?_settle (s : Store) (ds : Declarations) (id : Nat) :
    (ds.settle s).get? id = (ds.get? id).map (Declaration.settle s) := by
  simp [get?, settle]

lemma ty?_settle (s : Store) (ds : Declarations) (id : Nat) :
    (ds.settle s).ty? id = ds.ty? id >>= s.resolve? := by
  rw [ty?, get?_settle, ty?]
  cases ds.get? id <;> rfl

/-- All declarations that have types are known completely. -/
def AllKnown (s : Store) (ds : Declarations) : Prop := ∀ id t, ds.ty? id = some t → s.Knows t

lemma allKnown_iff (s : Store) (ds : Declarations) :
    ds.AllKnown s ↔ ∀ d ∈ ds.all.toList, d.Known s := by
  constructor
  · intro h d hd t ht
    obtain ⟨id, hid⟩ := List.mem_iff_getElem?.1 hd
    refine h id t ?_
    have found : ds.get? id = some d := by rwa [get?, ← Array.getElem?_toList]
    rw [ty?_eq found, ht]
  · intro h id t ht
    cases hd : ds.get? id with
    | none => simp [ty?, hd] at ht
    | some d =>
      rw [ty?_eq hd] at ht
      refine h d ?_ t ht
      rw [get?, ← Array.getElem?_toList] at hd
      exact List.mem_of_getElem? hd

end Declarations

/-! ## The conclusion. -/

/-- Putting the types of all declarations into their slots. -/
lemma State.settleAllDeclarations_spec {s : State} (ac : s.unifier.store.Acyclic) :
    (settleAllDeclarations s =
        (.ok (), { s with decls := s.decls.settle s.unifier.store }) ∧
      s.decls.AllKnown s.unifier.store) ∨
    (∃ e s', settleAllDeclarations s = (.error (.error e), s') ∧
      ¬ s.decls.AllKnown s.unifier.store) := by
  have settle := ac.settleDeclarations_spec s.decls.all.toList
  rw [← Declarations.allKnown_iff] at settle
  obtain ⟨run, all⟩ | ⟨ds, e, run, vague⟩ := settle
  · refine .inl ⟨?_, all⟩
    have same : (s.decls.all.toList.map (Declaration.settle s.unifier.store)).toArray =
        s.decls.all.map (Declaration.settle s.unifier.store) := by
      rw [← List.map_toArray, Array.toArray_toList]
    simp only [settleAllDeclarations, modifyGet, MonadStateOf.modifyGet, StateT.modifyGet, run,
      pure, Declarations.settle, same]
  · refine .inr ⟨e, { s with decls := ⟨ds.toArray⟩ }, ?_, vague⟩
    simp only [settleAllDeclarations, modifyGet, MonadStateOf.modifyGet, StateT.modifyGet, run]
    rfl

/-- If putting the types of all declarations into their slots succeeds, they were all known. -/
lemma State.settleAllDeclarations_ok {s s' : State} (ok : settleAllDeclarations s = (.ok (), s')) :
    s' = { s with decls := s.decls.settle s.unifier.store } ∧
      s.decls.AllKnown s.unifier.store := by
  obtain ⟨verdict, state⟩ := Prod.mk.inj ok
  obtain ⟨settled, known⟩ := settleDeclarations_ok verdict
  refine ⟨?_, (Declarations.allKnown_iff _ _).2 known⟩
  rw [← state, settled, ← List.map_toArray, Array.toArray_toList]
  rfl

section

variable {τ : Type} {s : State} {tree swept : τ} {sweep : τ → SweepM τ} {w : Sweep}

/-- If the sweep goes on forever, so does the conclusion. -/
lemma conclude_of_none (run : sweep tree ⟨s, none, none⟩ = none) :
    conclude tree sweep s = ((tree, .error .divergence), s) := by
  simp only [conclude, bind, StateT.bind, get, getThe, MonadStateOf.get, StateT.get, pure, run]
  rfl

/-- An operator that the sweep finds undecided is reported before the declarations are looked at. -/
lemma conclude_of_undecided (run : sweep tree ⟨s, none, none⟩ = some (swept, w)) {e : TypeError}
    (undecided : w.undecided = some e) :
    conclude tree sweep s = ((swept, .error (.error e)), w.state) := by
  simp only [conclude, bind, StateT.bind, get, getThe, MonadStateOf.get, StateT.get, pure, run,
    undecided]
  rfl

/-- A node without a type is reported after the declarations have been settled. -/
lemma conclude_of_decided (run : sweep tree ⟨s, none, none⟩ = some (swept, w))
    (undecided : w.undecided = none) :
    conclude tree sweep s = settleAllDeclarations.orFail swept (fun _ =>
      w.untyped.elim (CheckM.done swept ()) (CheckM.fail swept)) w.state := by
  simp only [conclude, bind, StateT.bind, get, getThe, MonadStateOf.get, StateT.get, pure, run,
    undecided]
  cases w.untyped <;> rfl

end

/-- Concluding a check succeeds exactly if the sweep is clean and all declarations are known; then
it leaves what the sweep has made of the tree, and what is known of the declarations. Else it fails
with an error. -/
theorem conclude_spec {τ : Type} {s : State} {tree tree' : τ} {sweep : τ → SweepM τ} {clean : Prop}
    (ac : s.unifier.store.Acyclic) (h : Sweeps s.unifier (sweep tree) clean tree') :
    (clean ∧ s.decls.AllKnown s.unifier.store ∧ ∃ s', conclude tree sweep s = ((tree', .ok ()), s') ∧
        s'.decls = s.decls.settle s.unifier.store) ∨
      (¬ (clean ∧ s.decls.AllKnown s.unifier.store) ∧
        ∃ t e s', conclude tree sweep s = ((t, .error (.error e)), s')) := by
  obtain ⟨b, w, run⟩ := h.ends ⟨s, none, none⟩ ac
  obtain ⟨decls, refreshed⟩ := h.frame _ _ _ run
  obtain ⟨iff, done⟩ := (h.spec _ _ _ run).2 ⟨rfl, rfl⟩ rfl
  cases hu : w.undecided with
  | some e =>
    refine .inr ⟨fun h => ?_, b, e, w.state, conclude_of_undecided run hu⟩
    have clean := iff.2 h.1
    rw [Sweep.Clean, hu] at clean
    cases clean.1
  | none =>
    have start := conclude_of_decided run hu
    obtain ⟨settled, all⟩ | ⟨e, s', settled, vague⟩ := settleAllDeclarations_spec (refreshed.acyclic ac)
    · simp only [CheckM.orFail, bind, StateT.bind, settled] at start
      cases ht : w.untyped with
      | some e =>
        rw [ht] at start
        refine .inr ⟨fun h => ?_, b, e, _, start⟩
        have clean := iff.2 h.1
        rw [Sweep.Clean, ht] at clean
        cases clean.2
      | none =>
        rw [ht] at start
        have hc := iff.1 ⟨hu, ht⟩
        obtain ⟨rfl, same⟩ := done hc
        rw [same, decls] at all
        refine .inl ⟨hc, all, _, start, ?_⟩
        rw [← same, ← decls]
    · simp only [CheckM.orFail, bind, StateT.bind, settled] at start
      refine .inr ⟨fun h => vague ?_, b, e, s', start⟩
      rw [(done h.1).2, decls]
      exact h.2

/-- If concluding succeeds, the sweep was clean and all declarations were known, whatever the state
is like. -/
theorem conclude_ok {τ : Type} {s s' : State} {tree tree' t : τ} {sweep : τ → SweepM τ}
    {clean : Prop} (h : Sweeps s.unifier (sweep tree) clean tree')
    (ok : conclude tree sweep s = ((t, .ok ()), s')) :
    clean ∧ s.decls.AllKnown s.unifier.store ∧ t = tree' ∧
      s'.decls = s.decls.settle s.unifier.store := by
  cases run : sweep tree ⟨s, none, none⟩ with
  | none =>
    rw [conclude_of_none run] at ok
    cases ok
  | some r =>
    obtain ⟨b, w⟩ := r
    obtain ⟨decls, -⟩ := h.frame _ _ _ run
    obtain ⟨iff, done⟩ := (h.spec _ _ _ run).2 ⟨rfl, rfl⟩ rfl
    cases hu : w.undecided with
    | some e =>
      rw [conclude_of_undecided run hu] at ok
      cases ok
    | none =>
      rw [conclude_of_decided run hu] at ok
      simp only [CheckM.orFail, bind, StateT.bind] at ok
      cases settle : settleAllDeclarations w.state with
      | mk v s₁ =>
        rw [settle] at ok
        cases v with
        | error e => cases ok
        | ok _ =>
          cases ht : w.untyped with
          | some e =>
            rw [ht] at ok
            cases ok
          | none =>
            rw [ht] at ok
            cases ok
            have hc := iff.1 ⟨hu, ht⟩
            obtain ⟨rfl, same⟩ := done hc
            obtain ⟨rfl, all⟩ := settleAllDeclarations_ok settle
            rw [same, decls] at all
            exact ⟨hc, all, rfl, by rw [← same, ← decls]⟩

/-- If concluding fails with an error, a type is not known. -/
theorem conclude_error {τ : Type} {s s' : State} {tree tree' t : τ} {sweep : τ → SweepM τ}
    {clean : Prop} {e : TypeError} (h : Sweeps s.unifier (sweep tree) clean tree')
    (error : conclude tree sweep s = ((t, .error (.error e)), s')) : e.isLeftOpen = true := by
  cases run : sweep tree ⟨s, none, none⟩ with
  | none =>
    rw [conclude_of_none run] at error
    cases error
  | some r =>
    obtain ⟨b, w⟩ := r
    obtain ⟨undecided, untyped⟩ := h.tame _ _ _ run ⟨nofun, nofun⟩
    cases hu : w.undecided with
    | some e' =>
      rw [conclude_of_undecided run hu] at error
      cases error
      exact undecided e hu
    | none =>
      rw [conclude_of_decided run hu] at error
      simp only [CheckM.orFail, bind, StateT.bind] at error
      cases settle : settleAllDeclarations w.state with
      | mk v s₁ =>
        rw [settle] at error
        cases v with
        | error e' =>
          cases error
          exact settleDeclarations_error (congrArg Prod.fst settle)
        | ok _ =>
          cases ht : w.untyped with
          | some e' =>
            rw [ht] at error
            cases error
            exact untyped e ht
          | none =>
            rw [ht] at error
            cases error

end BMethod
