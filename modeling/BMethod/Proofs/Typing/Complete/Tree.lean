import BMethod.Proofs.Typing.Complete.Operator
import BMethod.Proofs.Typing.Sound.Tree

/-!
# Expressions and predicates are checked beside a typing

Walking through an expression or predicate whose nodes can be given types goes on beside these types
to its end, unless a product or the access to a field stops it (`Node.complete`).
-/

namespace BMethod

open State

variable {T : Trial} {g g' : Guess} {s s' : State}

/-! ## Rules of accepted nodes. -/

namespace Trial

/-- The parts of an accepted expression have types by its rule. -/
lemma Accepts.expr {a : Expr} {v : Ty} (h : T.Accepts (.expr a))
    (value : T.view.value? (.expr a) = some v) :
    (∃ vs, T.view.Gives a.children vs ∧ a.HasType Operator.MayHaveType T.view.context vs v) ∧
      ∀ c ∈ a.children, T.Accepts c := by
  obtain ⟨⟨⟨vs, v', gives, value', type⟩, -⟩, parts⟩ := accepts_iff.1 h
  rw [value] at value'
  cases value'
  exact ⟨⟨vs, gives, type⟩, parts⟩

/-- The parts of an accepted predicate have types by its rule. -/
lemma Accepts.pred {a : Pred} {v : Ty} (h : T.Accepts (.pred a))
    (value : T.view.value? (.pred a) = some v) :
    (∃ vs, T.view.Gives a.children vs ∧ a.HasType T.view.context vs v) ∧
      ∀ c ∈ a.children, T.Accepts c := by
  obtain ⟨⟨⟨vs, v', gives, value', type⟩, -⟩, parts⟩ := accepts_iff.1 h
  rw [value] at value'
  cases value'
  exact ⟨⟨vs, gives, type⟩, parts⟩

/-! ## Bound identifiers. -/

/-- In a trial all declarations that exist have types. -/
lemma types?_eq (T : Trial) (ids : List Nat) :
    T.view.context.types? ids = some ((ids.filter T.known).map T.type) := by
  rw [Context.types?]
  show (ids.filter T.known).mapM (fun id => some (T.type id)) = _
  generalize ids.filter T.known = known
  induction known with
  | nil => rfl
  | cons id known ih => simp [ih]

lemma Supports.declare (sup : T.Supports g s) (bound : List Nat) :
    ∃ g', T.Survives g s g' (State.declare bound s).2 :=
  sup.declares (sup.inv.declare bound).1

/-- The types in the slots of declarations mean the types of the trial. -/
lemma Supports.meansSlots (sup : T.Supports g s) {ids : List Nat} {ts : List Ty}
    (types : List.Forall₂ (fun id t => s.decls.ty? id = some t) ids ts) :
    List.Forall₂ (g.Means s.vars) ts (ids.map T.type) := by
  induction types with
  | nil => exact .nil
  | cons ht _ ih => exact .cons (sup.fits.types _ _ ht) ih

/-- If there are tuples over bound identifiers in the trial, the check finds their type. -/
lemma Supports.boundTuple (sup : T.Supports g s) {site : Site} {bound : List Nat} {u : Ty}
    (has : T.view.context.HasTuple bound u) {Q : Ty → State → Prop}
    (ok : ∀ t g' s', T.Survives g s g' s' → g'.Means s'.vars t u → Q t s') :
    Concludes (boundTuple site bound) s Q T.Excuses := by
  obtain ⟨vs, types, tuple⟩ := has
  rw [types?_eq, Option.some.injEq] at types
  subst types
  obtain ⟨t, s', run, bounds⟩ | ⟨none, -⟩ := sup.inv.boundTuple site bound
  · rw [Concludes, run]
    obtain ⟨g', sur⟩ := sup.declares bounds.declares
    obtain ⟨ts, slots, tuple'⟩ := bounds.types
    obtain ⟨t', ht', m⟩ := Guess.means_tuple (sur.supports.meansSlots slots) tuple
    rw [tuple'] at ht'
    cases ht'
    exact ok t g' s' sur m
  · rw [none] at tuple
    cases tuple

end Trial

lemma Guess.means_bool {k : Nat} : g.Means k .bool .bool := ⟨⟨trivial, nofun⟩, rfl⟩

lemma Guess.means_integer {k : Nat} : g.Means k .integer .integer := ⟨⟨trivial, nofun⟩, rfl⟩

/-- A field of a record with a meaning has the meaning of the field. -/
lemma Guess.means_field? {k : Nat} {fs us : List (String × Ty)} {name : String}
    {t u : Ty} (m : g.Means k (.record fs) (.record us)) (ht : Ty.field? fs name = some t)
    (hu : Ty.field? us name = some u) : g.Means k t u := by
  obtain ⟨before, after, rfl, -⟩ := List.lookup_eq_some_iff.1 ht
  refine ⟨Ty.over_record.1 m.1 (name, t) (by simp), ?_⟩
  have eq := m.2
  rw [Ty.eval, Ty.evalFields_eq_map, Ty.record.injEq] at eq
  rw [← eq, Ty.field?_map, ht, Option.map_some, Option.some.injEq] at hu
  exact hu

/-- A comparison has two sides. -/
lemma Comparison.HasType.length_eq {op : Comparison} {ts : List Ty} (h : op.HasType ts) :
    ts.length = 2 := by
  cases op with
  | equal | notEqual | elementOf | notBelonging | inclusion | nonInclusion | strictInclusion
  | strictNonInclusion =>
    obtain ⟨a, rfl⟩ := h
    rfl
  | less | lessEqual | greater | greaterEqual =>
    cases h
    rfl

/-! ## Lists of predicates and fields. -/

lemma Pred.checkAll_complete {as : List Pred}
    (complete : ∀ a ∈ as, a.Complete T ∧ T.Accepts (.pred a)) (sup : T.Supports g s)
    (value : ∀ a ∈ as, T.view.value? (.pred a) = some .bool) :
    Ensures (checkAll (as.map erase)) s (fun ps' _ s' => ∃ g',
      T.Guessed g s (as.map .pred) (ps'.map .pred) g' s') T.Excuses := by
  induction as generalizing g s with
  | nil => exact ensures_done ⟨g, .nil sup⟩
  | cons a as ih =>
    rw [List.forall_mem_cons] at complete value
    rw [List.map_cons, checkAll]
    refine ensures_andThen ((complete.1.1 g s sup complete.1.2 value.1).mono
      fun p' _ s₁ h => ?_)
    obtain ⟨g₁, first, _⟩ := h
    refine ensures_andThen ((ih complete.2 first.supports value.2).mono
      fun ps' _ s₂ h => ?_)
    obtain ⟨g₂, rest⟩ := h
    exact ensures_done ⟨g₂, first.cons rest⟩

namespace Expr

variable {fields : List (FieldLabel × Expr)} {us : List Ty}

/-- The fields of a record have the types of the trial. -/
lemma checkRecord_complete (complete : CompleteAll T (fields.map (·.2))) (sup : T.Supports g s)
    (has : List.Forall₂ (fun f u => T.view.context.Has f.1.decl u) fields us)
    (gives : T.view.Gives (fields.map (.expr ·.2)) us) :
    Ensures (checkRecord (fields.map fun x => (x.1, x.2.erase))) s (fun fields' types s' => ∃ g',
      T.Guessed g s (fields.map (.expr ·.2)) (fields'.map (.expr ·.2)) g' s' ∧
        g'.Means s'.vars (.record types) (.record ((fields.map (·.1.name)).zip us))) T.Excuses := by
  induction has generalizing g s with
  | nil => exact ensures_done ⟨g, .nil sup, ⟨trivial, nofun⟩, rfl⟩
  | @cons f u fields us hf _ ih =>
    obtain ⟨label, a⟩ := f
    rw [List.map_cons, CompleteAll, List.forall_mem_cons] at complete
    obtain ⟨value, gives⟩ := View.gives_cons.1 gives
    obtain ⟨g₁, found, mt⟩ := sup.finds (sup.inv.declaredOrFresh label.decl) hf
    rw [List.map_cons, checkRecord]
    refine ensures_bind (ensures_andThen ((complete.1.1 g₁ _ _ u found.supports complete.1.2 value
      mt).mono fun e' t s₂ h => ?_))
    obtain ⟨g₂, first, mu⟩ := h
    refine ensures_andThen ((ih complete.2 first.supports gives).mono
      fun fields' types s₃ h => ?_)
    obtain ⟨g₃, rest, means⟩ := h
    exact ensures_done ⟨g₃, (first.after found).cons rest,
      Guess.Means.record_cons_iff.2 ⟨rfl, rest.means mu, means⟩⟩

/-- The sets of values of a struct are over the types of the trial. -/
lemma checkStruct_complete (complete : CompleteAll T (fields.map (·.2))) (sup : T.Supports g s)
    (has : List.Forall₂ (fun f u => T.view.context.Has f.1.decl u) fields us)
    (gives : T.view.Gives (fields.map (.expr ·.2)) (us.map .set)) :
    Ensures (checkStruct (fields.map fun x => (x.1, x.2.erase))) s (fun fields' types s' => ∃ g',
      T.Guessed g s (fields.map (.expr ·.2)) (fields'.map (.expr ·.2)) g' s' ∧
        g'.Means s'.vars (.record types) (.record ((fields.map (·.1.name)).zip us))) T.Excuses := by
  induction has generalizing g s with
  | nil => exact ensures_done ⟨g, .nil sup, ⟨trivial, nofun⟩, rfl⟩
  | @cons f u fields us hf _ ih =>
    obtain ⟨label, a⟩ := f
    rw [List.map_cons, CompleteAll, List.forall_mem_cons] at complete
    obtain ⟨value, gives⟩ := View.gives_cons.1 gives
    obtain ⟨g₁, found, mt⟩ := sup.finds (sup.inv.declaredOrFresh label.decl) hf
    rw [List.map_cons, checkStruct]
    refine ensures_bind (ensures_andThen ((complete.1.1 g₁ _ _ (.set u) found.supports complete.1.2
      value (Guess.Means.set_iff.2 mt)).mono fun e' _ s₂ h => ?_))
    obtain ⟨g₂, first, _⟩ := h
    refine ensures_andThen ((ih complete.2 first.supports gives).mono
      fun fields' types s₃ h => ?_)
    obtain ⟨g₃, rest, means⟩ := h
    exact ensures_done ⟨g₃, (first.after found).cons rest, Guess.Means.record_cons_iff.2
      ⟨rfl, (first.toSurvives.trans rest.toSurvives).means mt, means⟩⟩

/-! ## The two sides of a comparison. -/

lemma checkCompared_complete {op : Comparison} {l r : Expr} {vs : List Ty}
    (complete : CompleteAll T [l, r]) (sup : T.Supports g s)
    (gives : T.view.Gives [.expr l, .expr r] vs) (type : op.HasType vs) :
    Ensures (checkCompared op [l.erase, r.erase]) s (fun es' _ s' => ∃ g',
      T.Guessed g s [.expr l, .expr r] (es'.map .expr) g' s') T.Excuses := by
  obtain ⟨a, rest, rfl, valueL, gives⟩ := View.gives_cons_iff.1 gives
  obtain ⟨b, rest, rfl, valueR, none⟩ := View.gives_cons_iff.1 gives
  obtain rfl : rest = [] := by simpa [View.Gives] using none
  obtain ⟨⟨completeL, acceptsL⟩, ⟨completeR, acceptsR⟩, -⟩ :
      (l.Complete T ∧ T.Accepts (.expr l)) ∧ (r.Complete T ∧ T.Accepts (.expr r)) ∧ True := by
    simpa [CompleteAll] using complete
  cases op with
  | equal | notEqual =>
    obtain ⟨_, eq⟩ := type
    cases eq
    obtain ⟨fresh, m⟩ := sup.fresh a
    refine ensures_bind (ensures_andThen ((completeR _ _ _ a fresh.supports acceptsR valueR m).mono
      fun r' t s₁ h => ?_))
    obtain ⟨g₁, right, mt⟩ := h
    refine ensures_andThen ((completeL _ _ _ a right.supports acceptsL valueL mt).mono
      fun l' _ s₂ h => ?_)
    obtain ⟨g₂, left, _⟩ := h
    exact ensures_done ⟨g₂, (right.after fresh).consLast left⟩
  | elementOf | notBelonging =>
    obtain ⟨_, eq⟩ := type
    cases eq
    obtain ⟨fresh, m⟩ := sup.fresh a
    refine ensures_bind (ensures_andThen ((completeL _ _ _ a fresh.supports acceptsL valueL m).mono
      fun l' t s₁ h => ?_))
    obtain ⟨g₁, left, mt⟩ := h
    refine ensures_andThen ((completeR _ _ _ (.set a) left.supports acceptsR valueR
      (Guess.Means.set_iff.2 mt)).mono fun r' _ s₂ h => ?_)
    obtain ⟨g₂, right, _⟩ := h
    exact ensures_done ⟨g₂, (left.after fresh).cons right⟩
  | less | lessEqual | greater | greaterEqual =>
    cases type
    refine ensures_andThen ((completeL _ _ _ .integer sup acceptsL valueL
      Guess.means_integer).mono fun l' _ s₁ h => ?_)
    obtain ⟨g₁, left, _⟩ := h
    refine ensures_andThen ((completeR _ _ _ .integer left.supports acceptsR valueR
      Guess.means_integer).mono fun r' _ s₂ h => ?_)
    obtain ⟨g₂, right, _⟩ := h
    exact ensures_done ⟨g₂, left.cons right⟩
  | inclusion | nonInclusion | strictInclusion | strictNonInclusion =>
    obtain ⟨c, eq⟩ := type
    cases eq
    obtain ⟨fresh, m⟩ := sup.fresh c
    refine ensures_bind (ensures_andThen ((completeL _ _ (.set (.var s.vars)) (.set c)
      fresh.supports acceptsL valueL (Guess.Means.set_iff.2 m)).mono
      fun l' t s₁ h => ?_))
    obtain ⟨g₁, left, mt⟩ := h
    refine ensures_andThen ((completeR _ _ _ (.set c) left.supports acceptsR valueR mt).mono
      fun r' _ s₂ h => ?_)
    obtain ⟨g₂, right, _⟩ := h
    exact ensures_done ⟨g₂, (left.after fresh).cons right⟩

end Expr

/-! ## All kinds of nodes. -/

/-- Walking through the node goes on beside a typing. -/
def Node.Complete (T : Trial) : Node → Prop
  | .expr a => a.Complete T
  | .pred a => a.Complete T
  | _ => True

/-- The type that an aggregate asks of its body, beside a typing. -/
lemma Aggregate.type_complete (op : Aggregate) {vs : List Ty} {v : Ty} (sup : T.Supports g s)
    (type : op.HasType vs v) :
    vs = [.bool, v] ∧ ∃ g', T.Survives g s g' (op.type s).2 ∧
      g'.Means (op.type s).2.vars (op.type s).1 v := by
  cases op with
  | sigma | pi =>
    obtain ⟨rfl, rfl⟩ := type
    exact ⟨rfl, g, .refl sup, Guess.means_integer⟩
  | union | inter =>
    obtain ⟨a, rfl, rfl⟩ := type
    obtain ⟨fresh, m⟩ := sup.fresh a
    exact ⟨rfl, _, fresh, Guess.Means.set_iff.2 m⟩

section

variable {n : Note}

/-- The types of two parts. -/
lemma View.gives_two {V : View} {a b : Node} {v w : Ty} (h : V.Gives [a, b] [v, w]) :
    V.value? a = some v ∧ V.value? b = some w := by
  obtain ⟨ha, h⟩ := View.gives_cons.1 h
  exact ⟨ha, (View.gives_cons.1 h).1⟩

namespace Expr

lemma check_aggregate_complete {op : Aggregate} {bound : List Nat} {pred : Pred} {body : Expr}
    (completeP : pred.Complete T) (completeB : body.Complete T) :
    (aggregate n op bound pred body).Complete T := by
  intro g s expected v sup accepts value me
  obtain ⟨⟨vs, gives, -, type⟩, parts⟩ := accepts.expr value
  simp only [children, List.forall_mem_cons] at parts
  obtain ⟨g₁, decl⟩ := sup.declare bound
  rw [erase, restamp_aggregate, check]
  obtain ⟨rfl, -⟩ := op.type_complete sup type
  obtain ⟨valueP, valueB⟩ := View.gives_two gives
  refine ensures_bind (ensures_andThen ((completeP g₁ _ decl.supports parts.1 valueP).mono
    fun pred' _ s₂ h => ?_))
  obtain ⟨g₂, guessP, _⟩ := h
  obtain ⟨-, g₃, sur, mf⟩ := op.type_complete guessP.supports type
  refine ensures_bind ?_
  revert sur mf
  obtain ⟨found, s₃⟩ := op.type s₂
  intro sur mf
  have early := decl.trans (guessP.toSurvives.trans sur)
  refine ensures_orFail (sur.supports.unifyAt (early.means me) mf fun t s₄ _ uni mt => ?_)
  refine ensures_andThen ((completeB _ _ _ v uni.supports parts.2.1 valueB mt).mono
    fun body' _ s₅ h => ?_)
  obtain ⟨g₅, guessB, _⟩ := h
  have walked := ((guessP.after decl).trans (sur.trans uni)).cons guessB
  exact ensures_done ⟨g₅, .node walked ⟨t, v, value, rfl, guessB.means mt⟩, guessB.means mt⟩

lemma check_comprehension_complete {bound : List Nat} {pred : Pred}
    (completeP : pred.Complete T) : (comprehension n bound pred).Complete T := by
  intro g s expected v sup accepts value me
  obtain ⟨⟨vs, gives, u, has, rfl, rfl⟩, parts⟩ := accepts.expr value
  simp only [children, List.forall_mem_cons] at parts
  obtain ⟨g₁, decl⟩ := sup.declare bound
  rw [erase, restamp_comprehension, check]
  refine ensures_bind (ensures_andThen ((completeP g₁ _ decl.supports parts.1
    (View.gives_cons.1 gives).1).mono fun pred' _ s₂ h => ?_))
  obtain ⟨g₂, guessP, _⟩ := h
  refine ensures_orFail (guessP.supports.boundTuple has fun t g₃ s₃ sur mt => ?_)
  have walked := (guessP.after decl).trans sur
  exact settle_complete walked value (walked.means me)
    (Guess.Means.set_iff.2 mt)

lemma check_lambda_complete {bound : List Nat} {pred : Pred} {body : Expr}
    (completeP : pred.Complete T) (completeB : body.Complete T) :
    (lambda n bound pred body).Complete T := by
  intro g s expected v sup accepts value me
  obtain ⟨⟨vs, gives, u, r, has, rfl, rfl⟩, parts⟩ := accepts.expr value
  simp only [children, List.forall_mem_cons] at parts
  obtain ⟨valueP, valueB⟩ := View.gives_two gives
  obtain ⟨g₁, decl⟩ := sup.declare bound
  rw [erase, restamp_lambda, check]
  refine ensures_bind (ensures_andThen ((completeP g₁ _ decl.supports parts.1 valueP).mono
    fun pred' _ s₂ h => ?_))
  obtain ⟨g₂, guessP, _⟩ := h
  refine ensures_orFail (guessP.supports.boundTuple has fun t g₃ s₃ sur mt => ?_)
  obtain ⟨fresh, mr⟩ := sur.supports.fresh r
  refine ensures_bind (ensures_andThen ((completeB _ _ _ r fresh.supports parts.2.1 valueB mr).mono
    fun body' t' s₄ h => ?_))
  obtain ⟨g₄, guessB, mb⟩ := h
  have walked := ((guessP.after decl).trans (sur.trans fresh)).cons guessB
  exact settle_complete walked value (walked.means me)
    (Guess.Means.set_iff.2 (Guess.Means.couple_iff.2
      ⟨(fresh.trans guessB.toSurvives).means mt, mb⟩))

lemma check_ite_complete {cond : Pred} {yes no : Expr} (completeC : cond.Complete T)
    (completeY : yes.Complete T) (completeN : no.Complete T) :
    (ite n cond yes no).Complete T := by
  intro g s expected v sup accepts value me
  obtain ⟨⟨vs, gives, rfl⟩, parts⟩ := accepts.expr value
  simp only [children, List.forall_mem_cons] at parts
  obtain ⟨valueC, gives⟩ := View.gives_cons.1 gives
  obtain ⟨valueY, valueN⟩ := View.gives_two gives
  rw [erase, restamp_ite, check]
  refine ensures_andThen ((completeC g s sup parts.1 valueC).mono
    fun cond' _ s₁ h => ?_)
  obtain ⟨g₁, guessC, _⟩ := h
  obtain ⟨fresh, m⟩ := guessC.supports.fresh v
  refine ensures_bind (ensures_andThen ((completeY _ _ _ v fresh.supports parts.2.1 valueY m).mono
    fun yes' t s₂ h => ?_))
  obtain ⟨g₂, guessY, mt⟩ := h
  refine ensures_andThen ((completeN _ _ _ v guessY.supports parts.2.2.1 valueN mt).mono
    fun no' u s₃ h => ?_)
  obtain ⟨g₃, guessN, mu⟩ := h
  have walked := (guessC.trans fresh).cons (guessY.cons guessN)
  exact settle_complete walked value (walked.means me) mu

lemma check_letIn_complete {bound : List Nat} {pred : Pred} {body : Expr}
    (completeP : pred.Complete T) (completeB : body.Complete T) :
    (letIn n bound pred body).Complete T := by
  intro g s expected v sup accepts value me
  obtain ⟨⟨vs, gives, -, rfl⟩, parts⟩ := accepts.expr value
  simp only [children, List.forall_mem_cons] at parts
  obtain ⟨valueP, valueB⟩ := View.gives_two gives
  obtain ⟨g₁, decl⟩ := sup.declare bound
  rw [erase, restamp_letIn, check]
  refine ensures_bind (ensures_andThen ((completeP g₁ _ decl.supports parts.1 valueP).mono
    fun pred' _ s₂ h => ?_))
  obtain ⟨g₂, guessP, _⟩ := h
  obtain ⟨fresh, m⟩ := guessP.supports.fresh v
  refine ensures_bind (ensures_andThen ((completeB _ _ _ v fresh.supports parts.2.1 valueB m).mono
    fun body' t s₃ h => ?_))
  obtain ⟨g₃, guessB, mt⟩ := h
  have walked := ((guessP.after decl).trans fresh).cons guessB
  exact settle_complete walked value (walked.means me) mt

lemma check_field_complete {target : Expr} {name : String} (complete : target.Complete T) :
    (field n target name).Complete T := by
  intro g s expected v sup accepts value me
  have accesses : T.accesses := (Trial.accepts_iff.1 accepts).1.2.2 rfl
  obtain ⟨⟨vs, gives, us, rfl, hu⟩, parts⟩ := accepts.expr value
  simp only [children, List.forall_mem_cons] at parts
  obtain ⟨fresh, m⟩ := sup.fresh (.record us)
  rw [erase, restamp_field, check]
  refine ensures_bind (ensures_andThen ((complete _ _ _ _ fresh.supports parts.1
    (View.gives_cons.1 gives).1 m).mono fun target' t s₁ h => ?_))
  obtain ⟨g₁, guess, mt⟩ := h
  have wf := guess.steps.inv.unifier.wellFormed
  obtain ⟨h, hh⟩ := wf.acyclic.exists_head? t
  have mh := guess.fits.unifier.1.means_head? wf hh mt
  refine ensures_bind ?_
  simp only [show (get : CheckM State) s₁ = (s₁, s₁) from rfl, hh]
  have refuse (x : Ty) (node : Expr) (err : Ty → TypeError) (Q : Expr → Ty → State → Prop) :
      Ensures ((State.resolve x).orFail node fun t => CheckM.fail node (err t)) s₁ Q T.Excuses := by
    obtain ⟨x', -, run⟩ := run_resolve wf x
    refine ensures_orFail ?_
    rw [Concludes, run]
    exact ensures_fail (.inr accesses)
  cases h with
  | record fs =>
    have walked := guess.after fresh
    cases found : Ty.field? fs name with
    | none =>
      simp only [found]
      exact refuse _ _ (fun t => .unknownField t name _) _
    | some u =>
      simp only [found]
      exact settle_complete walked value (walked.means me)
        (Guess.means_field? mh found hu)
  | _ => exact refuse _ _ (fun t => .expectedRecord name t _) _

lemma check_record_complete {fields : List (FieldLabel × Expr)}
    (complete : ∀ a ∈ fields.map (·.2), a.Complete T) : (record n fields).Complete T := by
  intro g s expected v sup accepts value me
  obtain ⟨⟨us, gives, has, rfl⟩, parts⟩ := accepts.expr value
  have all : CompleteAll T (fields.map (·.2)) := fun a ha => by
    refine ⟨complete a ha, parts _ ?_⟩
    obtain ⟨f, hf, rfl⟩ := List.mem_map.1 ha
    exact List.mem_map.2 ⟨f, hf, rfl⟩
  rw [erase, restamp_record, check]
  refine ensures_andThen ((checkRecord_complete all sup has gives).mono
    fun fields' types s₁ h => ?_)
  obtain ⟨g₁, guess, mt⟩ := h
  exact settle_complete guess value (guess.means me) mt

lemma check_struct_complete {fields : List (FieldLabel × Expr)}
    (complete : ∀ a ∈ fields.map (·.2), a.Complete T) : (struct n fields).Complete T := by
  intro g s expected v sup accepts value me
  obtain ⟨⟨vs, gives, us, has, rfl, rfl⟩, parts⟩ := accepts.expr value
  have all : CompleteAll T (fields.map (·.2)) := fun a ha => by
    refine ⟨complete a ha, parts _ ?_⟩
    obtain ⟨f, hf, rfl⟩ := List.mem_map.1 ha
    exact List.mem_map.2 ⟨f, hf, rfl⟩
  rw [erase, restamp_struct, check]
  refine ensures_andThen ((checkStruct_complete all sup has gives).mono
    fun fields' types s₁ h => ?_)
  obtain ⟨g₁, guess, mt⟩ := h
  exact settle_complete guess value (guess.means me)
    (Guess.Means.set_iff.2 mt)

/-- Walking through an expression goes on beside a typing if walking through its parts does. -/
lemma complete_of_children {a : Expr} (ih : ∀ c ∈ a.children, c.Complete T) : a.Complete T := by
  cases a with
  | identifier n decl name =>
    intro g s expected v sup accepts value me
    obtain ⟨⟨vs, gives, -, has⟩, -⟩ := accepts.expr value
    obtain ⟨g₁, found, mt⟩ := sup.finds (sup.inv.identifierType decl name) has
    rw [erase, restamp_identifier, check]
    refine ensures_bind ?_
    exact settle_complete
      ((Trial.Guessed.nil found.supports).after found) value (found.means me) mt
  | integer n value' =>
    intro g s expected v sup accepts value me
    obtain ⟨⟨vs, gives, -, rfl⟩, -⟩ := accepts.expr value
    exact settle_complete (.nil sup) value me ⟨⟨trivial, by simp [Ty.vars]⟩, rfl⟩
  | real n digits =>
    intro g s expected v sup accepts value me
    obtain ⟨⟨vs, gives, -, rfl⟩, -⟩ := accepts.expr value
    exact settle_complete (.nil sup) value me ⟨⟨trivial, by simp [Ty.vars]⟩, rfl⟩
  | string n value' =>
    intro g s expected v sup accepts value me
    obtain ⟨⟨vs, gives, -, rfl⟩, -⟩ := accepts.expr value
    exact settle_complete (.nil sup) value me ⟨⟨trivial, by simp [Ty.vars]⟩, rfl⟩
  | apply n op as =>
    intro g s expected v sup accepts value me
    have all : CompleteAll T as := fun a ha => by
      have mem : Node.expr a ∈ (apply n op as).children := List.mem_map.2 ⟨a, ha, rfl⟩
      exact ⟨ih _ mem, (accepts.expr value).2 _ mem⟩
    rw [erase, restamp_apply, check]
    exact check_apply_complete
      ⟨fun _ _ _ _ sup means gives => checkForward_complete all sup means gives,
        fun _ _ _ _ sup means gives => checkBackward_complete all sup means gives,
        fun _ _ _ _ sup m gives => checkChain_complete all sup m gives,
        fun _ _ _ sup gives => checkApart_complete all sup gives,
        fun _ _ _ _ _ _ sup m gives tuple => checkCall_complete all sup m gives tuple⟩
      sup accepts value me
  | aggregate n op bound pred body =>
    exact check_aggregate_complete (ih (.pred pred) (by simp [children]))
      (ih (.expr body) (by simp [children]))
  | comprehension n bound pred =>
    exact check_comprehension_complete (ih (.pred pred) (by simp [children]))
  | lambda n bound pred body =>
    exact check_lambda_complete (ih (.pred pred) (by simp [children]))
      (ih (.expr body) (by simp [children]))
  | ite n cond yes no =>
    exact check_ite_complete (ih (.pred cond) (by simp [children]))
      (ih (.expr yes) (by simp [children])) (ih (.expr no) (by simp [children]))
  | letIn n bound pred body =>
    exact check_letIn_complete (ih (.pred pred) (by simp [children]))
      (ih (.expr body) (by simp [children]))
  | record n fields =>
    refine check_record_complete fun a ha => ?_
    obtain ⟨f, hf, rfl⟩ := List.mem_map.1 ha
    exact ih (.expr f.2) (List.mem_map.2 ⟨f, hf, rfl⟩)
  | struct n fields =>
    refine check_struct_complete fun a ha => ?_
    obtain ⟨f, hf, rfl⟩ := List.mem_map.1 ha
    exact ih (.expr f.2) (List.mem_map.2 ⟨f, hf, rfl⟩)
  | field n target name => exact check_field_complete (ih (.expr target) (by simp [children]))
  | bool n pred =>
    intro g s expected v sup accepts value me
    have complete : pred.Complete T := ih (.pred pred) (by simp [children])
    obtain ⟨⟨vs, gives, rfl, rfl⟩, parts⟩ := accepts.expr value
    simp only [children, List.forall_mem_cons] at parts
    rw [erase, restamp_bool, check]
    refine ensures_andThen ((complete g s sup parts.1 (View.gives_cons.1 gives).1).mono
      fun pred' _ s₁ h => ?_)
    obtain ⟨g₁, guess, _⟩ := h
    exact settle_complete guess value (guess.means me) Guess.means_bool

end Expr

namespace Pred

/-- Walking through a predicate goes on beside a typing if walking through its parts does. -/
lemma complete_of_children {a : Pred} (ih : ∀ c ∈ a.children, c.Complete T) : a.Complete T := by
  intro g s sup accepts value
  obtain ⟨⟨vs, gives, type⟩, parts⟩ := accepts.pred value
  cases a with
  | connective n op as =>
    have all (a : Pred) (ha : a ∈ as) : a.Complete T ∧ T.Accepts (.pred a) := by
      have mem : Node.pred a ∈ (connective n op as).children := List.mem_map.2 ⟨a, ha, rfl⟩
      exact ⟨ih _ mem, parts _ mem⟩
    have bools (a : Pred) (ha : a ∈ as) : T.view.value? (.pred a) = some .bool := by
      have mem : T.view.value? (.pred a) ∈ (as.map Node.pred).map T.view.value? :=
        List.mem_map_of_mem (List.mem_map_of_mem ha)
      have gives : (as.map Node.pred).map T.view.value? = vs.map some := gives
      rw [gives, List.mem_map] at mem
      obtain ⟨u, hu, eq⟩ := mem
      rw [← eq, type.1 u hu]
    rw [erase, restamp_connective, check]
    refine ensures_orFail (sup.unifyAt Guess.means_bool Guess.means_bool
      fun t s₁ _ uni mt => ?_)
    refine ensures_andThen ((checkAll_complete all uni.supports bools).mono
      fun as' _ s₂ h => ?_)
    obtain ⟨g₂, guess⟩ := h
    exact ensures_done ⟨g₂, .node (guess.after uni) ⟨t, .bool, value, rfl, guess.means mt⟩,
      guess.means mt⟩
  | comparison n op as =>
    obtain ⟨l, r, rfl⟩ : ∃ l r, as = [l, r] := by
      have length : as.length = vs.length := by simpa [children] using congrArg List.length gives
      exact List.length_eq_two.1 (length.trans type.1.length_eq)
    have all : Expr.CompleteAll T [l, r] := fun a ha => by
      have mem : Node.expr a ∈ (comparison n op [l, r]).children := List.mem_map.2 ⟨a, ha, rfl⟩
      exact ⟨ih _ mem, parts _ mem⟩
    rw [erase, restamp_comparison, check]
    refine ensures_orFail (sup.unifyAt Guess.means_bool Guess.means_bool
      fun t s₁ _ uni mt => ?_)
    rw [if_pos (by simp)]
    refine ensures_andThen ((Expr.checkCompared_complete all uni.supports gives type.1).mono
      fun as' _ s₂ h => ?_)
    obtain ⟨g₂, guess⟩ := h
    exact ensures_done ⟨g₂, .node (guess.after uni) ⟨t, .bool, value, rfl, guess.means mt⟩,
      guess.means mt⟩
  | identifier n decl name =>
    obtain ⟨-, has, -⟩ := type
    obtain ⟨g₁, found, mt⟩ := sup.finds (sup.inv.identifierType decl name) has
    rw [erase, restamp_identifier, check]
    refine ensures_bind ?_
    exact settle_complete
      ((Trial.Guessed.nil found.supports).after found) value mt
  | quantified n op bound pred =>
    have complete : pred.Complete T := ih (.pred pred) (by simp [children])
    obtain ⟨-, rfl, -⟩ := type
    simp only [children, List.forall_mem_cons] at parts
    obtain ⟨g₁, decl⟩ := sup.declare bound
    rw [erase, restamp_quantified, check]
    refine ensures_bind (ensures_andThen ((complete g₁ _ decl.supports parts.1
      (View.gives_cons.1 gives).1).mono fun pred' _ s₂ h => ?_))
    obtain ⟨g₂, guess, _⟩ := h
    exact settle_complete (guess.after decl) value
      Guess.means_bool
  | ite n cond yes no =>
    have completeC : cond.Complete T := ih (.pred cond) (by simp [children])
    have completeY : yes.Complete T := ih (.pred yes) (by simp [children])
    have completeN : no.Complete T := ih (.pred no) (by simp [children])
    obtain ⟨rfl, -⟩ := type
    simp only [children, List.forall_mem_cons] at parts
    obtain ⟨valueC, gives⟩ := View.gives_cons.1 gives
    obtain ⟨valueY, valueN⟩ := View.gives_two gives
    rw [erase, restamp_ite, check]
    refine ensures_andThen ((completeC g s sup parts.1 valueC).mono
      fun cond' _ s₁ h => ?_)
    obtain ⟨g₁, guessC, _⟩ := h
    refine ensures_andThen ((completeY g₁ s₁ guessC.supports parts.2.1 valueY).mono
      fun yes' _ s₂ h => ?_)
    obtain ⟨g₂, guessY, _⟩ := h
    refine ensures_andThen ((completeN g₂ s₂ guessY.supports parts.2.2.1 valueN).mono
      fun no' _ s₃ h => ?_)
    obtain ⟨g₃, guessN, _⟩ := h
    exact settle_complete (guessC.cons (guessY.cons guessN)) value
      Guess.means_bool
  | letIn n bound defs body =>
    have completeD : defs.Complete T := ih (.pred defs) (by simp [children])
    have completeB : body.Complete T := ih (.pred body) (by simp [children])
    obtain ⟨-, rfl, -⟩ := type
    simp only [children, List.forall_mem_cons] at parts
    obtain ⟨valueD, valueB⟩ := View.gives_two gives
    obtain ⟨g₁, decl⟩ := sup.declare bound
    rw [erase, restamp_letIn, check]
    refine ensures_bind (ensures_andThen ((completeD g₁ _ decl.supports parts.1 valueD).mono
      fun defs' _ s₂ h => ?_))
    obtain ⟨g₂, guessD, _⟩ := h
    refine ensures_andThen ((completeB g₂ s₂ guessD.supports parts.2.1 valueB).mono
      fun body' _ s₃ h => ?_)
    obtain ⟨g₃, guessB, _⟩ := h
    exact settle_complete ((guessD.after decl).cons guessB)
      value Guess.means_bool

end Pred

end

/-- Walking through any expression or predicate goes on beside a typing of it. -/
theorem Node.complete (T : Trial) (n : Node) : n.Complete T := by
  induction n using Node.induction with
  | step n ih =>
    cases n with
    | expr a => exact Expr.complete_of_children ih
    | pred a => exact Pred.complete_of_children ih
    | substitution | ltl => trivial

end BMethod
