import BMethod.Proofs.Order
import BMethod.Proofs.Store.Secluded
import BMethod.Proofs.Typing.Discipline

/-!
# What a mismatch names

If a tree has no products, a check that fails to unify two types names two different types
(`mismatch_differs`). The types it names have everything put in that was bound before unification
failed, and that this leaves a difference is due to how walks use the unifier: the only choices are those
of differences, between the integers and sets of a new variable, and this variable is given to nothing
else (`State.Plain`).

With products this is not so. A product is joined with another choice before their alternatives are
compared, and if these do not fit together, the types that are named have become one by then; and a link
that can not be satisfied is found out only after the types have been unified.
-/

namespace BMethod

open State

/-- If the reason is a mismatch, it names two types that are not the same. -/
def Contrasts (e : Halt TypeError) : Prop :=
  ∀ expected found site cause, e = .error (.mismatch expected found site cause) →
    Ty.same expected found = false

lemma contrasts_divergence : Contrasts .divergence := fun _ _ _ _ h => by cases h

lemma contrasts_of_isMismatch {e : TypeError} (h : e.isMismatch = false) : Contrasts (.error e) :=
  fun _ _ _ _ eq => by
    cases eq
    cases h

/-! ## Plain states. -/

/-- The type has no secluded variables. -/
def Ty.Exposed (t : Ty) (s : State) : Prop := t.Over s.vars s.unifier.store.hiddenᶜ

/-- There are no products, and the elements of undecided choices are secluded: no declaration has a type
with one of them. -/
structure State.Plain (s : State) : Prop where
  wellFormed : s.unifier.store.WellFormed
  links : s.unifier.links = []
  secluded : s.unifier.store.Secluded s.unifier.store.hidden
  slots : ∀ id t, s.decls.ty? id = some t → t.Exposed s

/-- A later plain state, in which none of the old variables is newly secluded. -/
structure State.Exposes (s s' : State) : Prop where
  plain : s'.Plain
  vars_le : s.vars ≤ s'.vars
  hidden : ∀ v < s.vars, v ∈ s'.unifier.store.hidden → v ∈ s.unifier.store.hidden

lemma Ty.Exposed.mono {s s' : State} {t : Ty} (h : t.Exposed s) (vars_le : s.vars ≤ s'.vars)
    (hidden : ∀ v < s.vars, v ∈ s'.unifier.store.hidden → v ∈ s.unifier.store.hidden) :
    t.Exposed s' :=
  ⟨h.1.mono vars_le, fun v hv hid => h.2 v hv (hidden v (h.1.lt hv) hid)⟩

lemma Ty.exposed_of_isConcrete {s : State} {t : Ty} (h : t.isConcrete = true) : t.Exposed s :=
  ⟨scoped_of_isConcrete h, by simp [vars_of_isConcrete h]⟩

namespace State

variable {s s' s'' : State}

lemma Exposes.refl (h : s.Plain) : s.Exposes s := ⟨h, le_rfl, fun _ _ h => h⟩

lemma Exposes.trans (h : s.Exposes s') (h' : s'.Exposes s'') : s.Exposes s'' where
  plain := h'.plain
  vars_le := h.vars_le.trans h'.vars_le
  hidden v hv hid := h.hidden v hv (h'.hidden v (hv.trans_le h.vars_le) hid)

/-- A change of the unifier that keeps the old variables exposed. -/
lemma Plain.exposes (h : s.Plain) {u : Unifier} {I : Set Nat} (wf : u.store.WellFormed)
    (links : u.links = []) (sec : u.store.Secluded I) (le : s.vars ≤ u.store.cells.size)
    (sub : ∀ v < s.vars, v ∈ I → v ∈ s.unifier.store.hidden) :
    s.Exposes { s with unifier := u } := by
  have hidden (v : Nat) (hv : v < s.vars) (hid : v ∈ u.store.hidden) : v ∈ s.unifier.store.hidden :=
    sub v hv (sec.hidden_subset hid)
  exact ⟨⟨wf, links, sec.least, fun id t ht => (h.slots id t ht).mono le hidden⟩, le, hidden⟩

/-- A new variable of which nothing is known is exposed. -/
lemma Plain.grow (h : s.Plain) : s.Exposes (s.grow .free) ∧ (Ty.var s.vars).Exposed (s.grow .free) := by
  have size : s.vars + 1 = (s.grow .free).vars := (vars_grow s .free).symm
  have sec := h.secluded.congr s.unifier.store.cell_allocate_free
  have wf : (s.unifier.store.allocate .free).2.WellFormed :=
    h.wellFormed.allocate fun t ht => by cases ht
  refine ⟨h.exposes wf h.links sec ((Nat.le_succ _).trans_eq size) fun _ _ h => h, ?_⟩
  refine Ty.over_var.2 ⟨(Nat.lt_succ_self _).trans_eq size, fun hid => ?_⟩
  exact absurd (h.secluded.lt_of_mem_hidden h.wellFormed (sec.hidden_subset hid)) (lt_irrefl _)

/-- The state with a new choice between the integers and sets of a new variable. -/
def growChoice (s : State) : State := (s.grow .free).grow (.setOrInteger (.var s.vars))

lemma run_choice (s : State) : (fresh >>= fun elem => allocate (.setOrInteger elem)) s =
    (.var (s.vars + 1), s.growChoice) := by
  show (Ty.var (s.grow .free).vars, s.growChoice) = _
  rw [vars_grow]

/-- The element of a new choice is secluded, the choice is exposed. -/
lemma Plain.growChoice (h : s.Plain) :
    s.Exposes s.growChoice ∧ (Ty.var (s.vars + 1)).Exposed s.growChoice := by
  have size : s.vars + 2 = s.growChoice.vars := by
    rw [State.growChoice, vars_grow, vars_grow]
  have old : s.unifier.store.hidden ⊆ Set.Iio s.vars := fun v hv =>
    h.secluded.lt_of_mem_hidden h.wellFormed hv
  have wf : s.growChoice.unifier.store.WellFormed :=
    Store.WellFormed.allocate (Store.WellFormed.allocate h.wellFormed fun t ht => by cases ht) fun t ht => by
      rw [List.mem_singleton.1 ht]
      exact (Nat.lt_succ_self _).trans_eq (vars_grow s .free).symm
  have cells (v : Nat) : s.growChoice.unifier.store.cell v =
      if v = s.vars + 1 then .setOrInteger (.var s.vars) else s.unifier.store.cell v := by
    have cell := (s.grow .free).unifier.store.cell_allocate (.setOrInteger (.var s.vars)) v
    rw [← vars, vars_grow] at cell
    exact cell.trans (by rw [← s.unifier.store.cell_allocate_free]; rfl)
  have sec := h.secluded.choice h.wellFormed old (Nat.lt_succ_self s.vars) cells
  refine ⟨h.exposes wf h.links sec ((Nat.le_add_right _ 2).trans_eq size) fun v hv hid => ?_,
    Ty.over_var.2 ⟨by omega, fun hid => ?_⟩⟩
  · exact (hid.resolve_left hv.ne)
  · obtain eq | hid := sec.hidden_subset hid
    · exact absurd eq (Nat.succ_ne_self _)
    · exact absurd (Set.mem_Iio.1 (old hid)) (by omega)

end State

/-! ## Steps. -/

/-- Later plain states, and mismatches that name two different types. -/
abbrev exposing : Regime where
  Valid := Plain
  Keeps := Exposes
  Owns := Ty.Exposed
  Fails := Contrasts
  refl := .refl
  trans := .trans
  valid := Exposes.plain
  mono m h := h.mono m.vars_le m.hidden

section

variable {s : State}

/-- If two exposed types can not be unified, what is known of them by then is different. -/
lemma exposing_unifyAt (site : Site) {l r : Ty} (hl : l.Exposed s) (hr : r.Exposed s) :
    exposing.Tries (unifyAt site l r) s Ty.Exposed := by
  intro plain
  have wf := plain.wellFormed
  have run := wf.run_unify hl.1 hr.1
  have nar := wf.unify_narrows hl.1 hr.1
  obtain ⟨⟨J, sub, sec, exposed⟩, differ⟩ := run.secluded wf plain.secluded hl hr
  have exposes := plain.exposes (u := ⟨(Store.unify l r s.unifier.store).2, []⟩)
    (nar.wellFormed wf) rfl sec nar.size_eq.ge fun v _ hv => sub hv
  simp only [unifyAt, Bind.bind, StateT.bind, run_onUnifier,
    Unifier.run_unify_of_links_eq_nil plain.links]
  clear run
  generalize Store.unify l r s.unifier.store = unified at *
  obtain ⟨e | t, s₁⟩ := unified
  · cases e with
    | divergence => exact ⟨exposes, contrasts_divergence⟩
    | error cause =>
      obtain ⟨l', r', resolved, resolved', run⟩ := run_mismatch Ty exposes.plain.wellFormed site l r
        cause
      simp only [run]
      refine ⟨exposes, fun expected found _ _ eq => ?_⟩
      cases eq
      have differ := differ cause rfl
      rw [Store.eval_resolution _ hl.1 resolved, Store.eval_resolution _ hr.1 resolved', Ne,
        ← Ty.same_iff_canon] at differ
      exact Bool.eq_false_iff.2 differ
  · have ht := exposed t rfl
    exact ⟨exposes, ht.1.mono nar.size_eq.ge, fun v hv hid => ht.2 v hv (sec.hidden_subset hid)⟩

/-- Looking up the type of a declaration exposes it. -/
lemma exposing_declaredType (id : Nat) :
    exposing.Runs (declaredType id) s fun o s' => ∀ t ∈ o, t.Exposed s' := by
  intro plain
  obtain ⟨-, run⟩ | ⟨t, ht, run⟩ | ⟨exist, -, run⟩ := declaredType_cases id s
  · rw [run]
    exact ⟨.refl plain, fun t ht => by cases ht⟩
  · rw [run]
    refine ⟨.refl plain, fun u hu => ?_⟩
    cases hu
    exact plain.slots id t ht
  · rw [run]
    obtain ⟨exposes, exposed⟩ := plain.grow
    obtain ⟨wf, links, sec, slots⟩ := exposes.plain
    refine ⟨⟨⟨wf, links, sec, fun i t ht => ?_⟩, exposes.vars_le, exposes.hidden⟩, fun t ht => ?_⟩
    · rw [seed, ty?_setTy exist] at ht
      split at ht
      · cases ht
        exact exposed
      · exact slots i t ht
    · cases ht
      exact exposed

/-- The steps of walks through trees without products. -/
abbrev exposure : Discipline where
  toRegime := exposing
  Mentions _ := True
  Products := False
  ground := Ty.exposed_of_isConcrete
  set h := Ty.over_set.2 h
  couple hl hr := Ty.over_couple.2 ⟨hl, hr⟩
  record := Ty.over_record
  head plain h ht := plain.secluded.over_head? plain.wellFormed h ht
  headless _ _ := contrasts_divergence
  refuses := contrasts_of_isMismatch
  fresh plain := plain.grow
  choice plain := by
    obtain ⟨exposes, exposed⟩ := plain.growChoice
    rw [run_choice]
    exact ⟨exposes, exposed⟩
  allocate := False.elim
  lookUp _ := exposing_declaredType _
  report e plain := by
    obtain ⟨wf, links, sec, slots⟩ := plain
    exact ⟨⟨⟨wf, links, sec, slots⟩, le_rfl, fun _ _ h => h⟩, trivial⟩
  resolve t plain := by
    obtain ⟨u, -, run⟩ := run_resolve plain.wellFormed t
    rw [run]
    exact ⟨.refl plain, trivial⟩
  unifyAt := exposing_unifyAt
  linkAt _ _ _ _ h := h.elim

end

/-! ## Checks. -/

section

variable {ds : Declarations} {s : State}

lemma plain_start (concrete : ds.Concrete) : (start ds).Plain := by
  have secluded : Store.empty.Secluded ∅ := by
    refine ⟨⟨fun v l r h => ?_, fun v e h => ?_, fun _ h => h.elim⟩, fun _ h => h.elim,
      fun v w h => ?_, fun v _ t h => ?_, fun v _ w _ _ h => ?_⟩ <;>
    rw [Store.cell_of_size_le (Nat.zero_le v)] at h <;> cases h
  exact ⟨Store.wellFormed_empty, rfl, secluded.least,
    fun id t ht => Ty.exposed_of_isConcrete (concrete id t ht)⟩

/-- Concluding finds no mismatches. -/
lemma contrasts_conclude {τ : Type} {tree tree' : τ} {sweep : τ → SweepM τ} {clean : Prop}
    (h : Sweeps s.unifier (sweep tree) clean tree') :
    Ensures (conclude tree sweep) s (fun _ _ _ => True) Contrasts := by
  rw [Ensures]
  cases run : conclude tree sweep s with
  | mk r s' =>
    obtain ⟨t, (e | _) | a⟩ := r
    · refine contrasts_of_isMismatch ?_
      have left := conclude_error h run
      cases e with
      | mismatch => cases left
      | _ => rfl
    · exact contrasts_divergence
    · trivial

lemma Expr.contrasts_finish (e : Expr) :
    Ensures (e.finish []) s (fun _ _ _ => True) Contrasts := by
  refine ensures_orFail (ensures_andThen ?_)
  refine (contrasts_conclude (Node.swept s.unifier (.expr e))).mono fun e' _ s' _ => ?_
  cases e'.note.ty with
  | none => exact ensures_fail (contrasts_of_isMismatch rfl)
  | some t => exact ensures_done trivial

lemma Pred.contrasts_finish (p : Pred) :
    Ensures (p.finish []) s (fun _ _ _ => True) Contrasts := by
  refine ensures_orFail (ensures_andThen ?_)
  refine (contrasts_conclude (Node.swept s.unifier (.pred p))).mono fun p' _ s' _ => ?_
  cases p'.note.ty with
  | none => exact ensures_fail (contrasts_of_isMismatch rfl)
  | some t => exact ensures_done trivial

/-- A tree without products keeps to what is exposed. -/
lemma Node.exposes {n : Node} (plain : ¬ n.HasProduct) : n.Follows exposure :=
  Node.follows exposure (fun _ _ => trivial) fun m hm product => plain ⟨m, hm, product⟩

lemma Expr.contrasts_checkRoot {e : Expr} (h : s.Plain)
    (plain : ¬ (Node.expr e).HasProduct) :
    Ensures (e.checkRoot []) s (fun _ _ _ => True) Contrasts := by
  obtain ⟨grown, exposed⟩ := h.grow
  have walk := (Node.exposes plain _ _ exposed).ensures grown.plain
  refine ensures_bind (ensures_andThen (walk.mono fun e' t s' moved => ensures_bind ?_))
  simp only [show (get : CheckM State) s' = (s', s') from rfl]
  split
  · exact contrasts_divergence
  · obtain ⟨u, -, run⟩ := run_resolve moved.1.plain.wellFormed t
    refine ensures_orFail ?_
    rw [Concludes, run]
    exact ensures_fail (contrasts_of_isMismatch rfl)
  · exact e'.contrasts_finish

lemma Pred.contrasts_checkRoot {p : Pred} (h : s.Plain)
    (plain : ¬ (Node.pred p).HasProduct) :
    Ensures (p.checkRoot []) s (fun _ _ _ => True) Contrasts := by
  have walk := (Node.exposes plain s .bool (Ty.exposed_of_isConcrete rfl)).ensures h
  exact ensures_andThen (walk.mono fun p' _ _ _ => p'.contrasts_finish)

lemma runCheck_contrasts {τ α : Type} {target : Target} {walk : CheckM (Visited τ α)}
    (h : Ensures walk (start ds) (fun _ _ _ => True) Contrasts) {e : Halt TypeError}
    (error : (runCheck target ds walk).verdict = .error e) : Contrasts e := by
  obtain ⟨a, -, ok, -⟩ | ⟨e', error', contrasts⟩ := runCheck_spec target h
  · rw [ok] at error
    cases error
  · rw [error'] at error
    cases error
    exact contrasts

end

/-- If the slots of the declarations are empty or concrete and the tree has no products, a mismatch that
the check of an expression or a predicate reports names two different types. -/
theorem mismatch_differs {ds : Declarations} (concrete : ds.Concrete) {expected found : Ty} {site : Site}
    {cause : UnifyError} :
    (∀ e, ¬ (Node.expr e).HasProduct →
      (checkExpression ds e).verdict = .error (.error (.mismatch expected found site cause)) →
        Ty.same expected found = false) ∧
    ∀ p, ¬ (Node.pred p).HasProduct →
      (checkPredicate ds p).verdict = .error (.error (.mismatch expected found site cause)) →
        Ty.same expected found = false := by
  have start := plain_start concrete
  constructor
  · intro e plain error
    exact runCheck_contrasts (e.contrasts_checkRoot start plain) error _ _ _ _ rfl
  · intro p plain error
    exact runCheck_contrasts (p.contrasts_checkRoot start plain) error _ _ _ _ rfl

/-- The predicate `op(a, b) = right`. -/
def Pred.sampleEquation (op : Operator) (right : Expr) : Pred :=
  let note : Note := ⟨none, none⟩
  .comparison note .equal [.apply note op [.identifier note 0 "a", .identifier note 1 "b"], right]

lemma Declarations.concrete_samplePair : Declarations.samplePair.Concrete := by
  rintro (_ | _ | id) t h <;> cases h

/-- In `a - b = (a, "s")` what is required is a pair, and what is found is the choice that the difference
still leaves. -/
theorem mismatch_differs_sampleEquation :
    let pair := Expr.apply ⟨none, none⟩ .couple [.identifier ⟨none, none⟩ 0 "a", .string ⟨none, none⟩ "s"]
    let p := Pred.sampleEquation .minus pair
    let expected := Ty.couple (.var 2) .string
    let found := Ty.setOrInteger (.var 4)
    ¬ (Node.pred p).HasProduct ∧ (checkPredicate .samplePair p).verdict = .error (.error
        (.mismatch expected found ⟨"operator MINUS", none⟩ (.mismatch found expected))) ∧
      Ty.same expected found = false := by
  intro pair p expected found
  have plain : ¬ (Node.pred p).HasProduct := by
    rw [Node.HasProduct]
    decide
  have error : (checkPredicate .samplePair p).verdict = .error (.error
      (.mismatch expected found ⟨"operator MINUS", none⟩ (.mismatch found expected))) := by
    decide +kernel
  exact ⟨plain, error, (mismatch_differs Declarations.concrete_samplePair).2 p plain error⟩

/-- In `a * b = a` the product and its left operand are made one type before it turns out that the halves
of a pair would have to be in themselves, and this one type is named twice. -/
theorem mismatch_repeats_sampleEquation :
    let p := Pred.sampleEquation .mult (.identifier ⟨none, none⟩ 0 "a")
    let t := Ty.integerOrPairs (.var 2) (.var 3)
    Declarations.samplePair.Concrete ∧ (Node.pred p).Blank ∧
      (checkPredicate .samplePair p).verdict = .error (.error
        (.mismatch t t ⟨"identifier `a`", none⟩ (.occurs 2 (.couple (.var 2) (.var 3))))) ∧
      Ty.same t t = true := by
  intro p t
  have blank : (Node.pred p).Blank := by
    rw [Node.Blank]
    decide
  exact ⟨Declarations.concrete_samplePair, blank, by decide +kernel, by decide⟩

end BMethod
