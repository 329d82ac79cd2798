import BMethod.Proofs.Typings

/-!
# Which trees are accepted

The types that a check leaves are forced: no other typing obeys the rules, in whichever way the
differences and products are read. Where there are neither products nor accesses to fields, a check
succeeds exactly on the trees with one typing, up to `Ty.same`.
-/

namespace BMethod

/-! ## Forced types. -/

/-- A check that succeeds has found the only typing there is. -/
lemma Checked.Decides.determined {τ : Type} {ds : Declarations} {n : Node} {root : τ → Node}
    {c : Checked τ Ty} (decides : c.Decides ds n root) {t : Ty} (ok : c.verdict = .ok t) :
    Determined ds n (root c.tree) c.decls := by
  obtain ⟨-, determined⟩ | ⟨e, error, -⟩ := decides
  · exact determined
  · rw [ok] at error
    cases error

/-- If the check of an expression or predicate succeeds, typings exist, and all of them give each
node and each declaration that is mentioned the type that the check has found. -/
theorem inferred_typing_forced {ds : Declarations} (concrete : ds.Concrete) :
    (∀ e t, (Node.expr e).Blank → (checkExpression ds e).verdict = .ok t →
      Nonempty (Typing ds (.expr e)) ∧ ∀ T : Typing ds (.expr e),
        T.Matches (.expr (checkExpression ds e).tree) (checkExpression ds e).decls) ∧
    ∀ p t, (Node.pred p).Blank → (checkPredicate ds p).verdict = .ok t →
      Nonempty (Typing ds (.pred p)) ∧ ∀ T : Typing ds (.pred p),
        T.Matches (.pred (checkPredicate ds p).tree) (checkPredicate ds p).decls := by
  refine ⟨fun e t blank ok => ?_, fun p t blank ok => ?_⟩
  · have found := (checkExpression_decides concrete blank).determined ok
    exact ⟨found.nonempty, found.unique⟩
  · have found := (checkPredicate_decides concrete blank).determined ok
    exact ⟨found.nonempty, found.unique⟩

/-- A variable that holds sets of integers, and two variables of which nothing is known. -/
def Declarations.sample : Declarations :=
  ⟨#[⟨"x", none, some (.set .integer), none⟩, .named "y", .named "z"]⟩

lemma Declarations.concrete_sample : Declarations.sample.Concrete := by
  rintro (_ | _ | _ | id) t h <;> simp [sample, ty?, get?, Declaration.named] at h
  subst h
  rfl

/-- The predicate `z = x * (y - {1})`. -/
def Pred.sampleProduct : Pred :=
  let note : Note := ⟨none, none⟩
  .comparison note .equal [.identifier note 2 "z",
    .apply note .mult [.identifier note 0 "x", .apply note .minus [.identifier note 1 "y",
      .apply note .setEnumeration [.integer note 1]]]]

/-- The difference and the product are forced to be those of sets. -/
theorem inferred_typing_forced_sampleProduct :
    (∃ t, (checkPredicate .sample .sampleProduct).verdict = .ok t) ∧
      Nonempty (Typing .sample (.pred .sampleProduct)) ∧
      ∀ T : Typing .sample (.pred .sampleProduct),
        T.Matches (.pred (checkPredicate .sample .sampleProduct).tree)
          (checkPredicate .sample .sampleProduct).decls := by
  have blank : (Node.pred .sampleProduct).Blank := by
    rw [Node.Blank]
    decide
  obtain ⟨t, ok⟩ : ∃ t, (checkPredicate .sample .sampleProduct).verdict = .ok t :=
    Checked.isOk_iff.1 (by decide +kernel)
  exact ⟨⟨t, ok⟩, (inferred_typing_forced Declarations.concrete_sample).2 _ t blank ok⟩

/-! ## Exact acceptance. -/

/-- There is a typing, and all typings are the same. -/
def UniquelyTyped (ds : Declarations) (n : Node) : Prop :=
  Nonempty (Typing ds n) ∧ ∀ T T' : Typing ds n, T.Same T'

/-- A check succeeds if there is exactly one typing, and fails with an error if there is none or more
than one. -/
def Checked.Exact {τ : Type} (ds : Declarations) (n : Node) (c : Checked τ Ty) : Prop :=
  ((∃ t, c.verdict = .ok t) ↔ UniquelyTyped ds n) ∧
    ((∃ e, c.verdict = .error (.error e)) ↔ ¬ UniquelyTyped ds n)

/-- All typings are the one that a check leaves. -/
lemma Determined.uniquelyTyped {ds : Declarations} {n tree : Node} {decls : Declarations}
    (h : Determined ds n tree decls) : UniquelyTyped ds n :=
  ⟨h.nonempty, fun T T' => (h.unique T).same (h.unique T')⟩

/-- Without products and accesses to fields nothing excuses a failure. -/
lemma Typing.not_excuses {ds : Declarations} {n : Node} (T : Typing ds n)
    (product : ¬ n.HasProduct) (access : ¬ n.HasAccess) (e : Halt TypeError) :
    ¬ T.trial.Excuses e := by
  cases e with
  | divergence => exact id
  | error e =>
    rintro (⟨products, -⟩ | accesses)
    · exact product products
    · exact access accesses

/-- Without products and accesses to fields a failure means that there are different typings or
none. -/
lemma Explained.not_uniquelyTyped {ds : Declarations} {n : Node} {e : Halt TypeError}
    (h : Explained ds n e) (product : ¬ n.HasProduct) (access : ¬ n.HasAccess) :
    ¬ UniquelyTyped ds n := by
  rintro ⟨⟨T⟩, same⟩
  obtain ⟨T₁, T₂, different⟩ | excuses := h
  · exact different (same T₁ T₂)
  · exact T.not_excuses product access e (excuses T)

/-- Without products and accesses to fields a check that decides is exact. -/
lemma Checked.Decides.exact {τ : Type} {ds : Declarations} {n : Node} {root : τ → Node}
    {c : Checked τ Ty} (decides : c.Decides ds n root) (product : ¬ n.HasProduct)
    (access : ¬ n.HasAccess) : c.Exact ds n := by
  obtain ⟨⟨t, ok⟩, determined⟩ | ⟨e, error, explained⟩ := decides
  · have unique := determined.uniquelyTyped
    exact ⟨⟨fun _ => unique, fun _ => ⟨t, ok⟩⟩, by simp [ok, unique]⟩
  · have unique := explained.not_uniquelyTyped product access
    exact ⟨by simp [error, unique], ⟨fun _ => unique, fun _ => ⟨e, error⟩⟩⟩

/-- Without products and accesses to fields the check of an expression or predicate succeeds if and
only if there is exactly one typing, and fails with an error otherwise. -/
theorem acceptance_exact {ds : Declarations} (concrete : ds.Concrete) :
    (∀ e, (Node.expr e).Blank → ¬ (Node.expr e).HasProduct → ¬ (Node.expr e).HasAccess →
      (checkExpression ds e).Exact ds (.expr e)) ∧
    ∀ p, (Node.pred p).Blank → ¬ (Node.pred p).HasProduct → ¬ (Node.pred p).HasAccess →
      (checkPredicate ds p).Exact ds (.pred p) :=
  ⟨fun _ blank product access => (checkExpression_decides concrete blank).exact product access,
    fun _ blank product access => (checkPredicate_decides concrete blank).exact product access⟩

/-- The predicate `y - z = right`. -/
def Pred.sampleDifference (right : Expr) : Pred :=
  let note : Note := ⟨none, none⟩
  .comparison note .equal
    [.apply note .minus [.identifier note 1 "y", .identifier note 2 "z"], right]

/-- The predicate `y - z = x` has one typing and is accepted, and `y - z = z` has more than one and
is refused. -/
theorem acceptance_exact_sampleDifference :
    let x := Expr.identifier ⟨none, none⟩ 0 "x"
    let z := Expr.identifier ⟨none, none⟩ 2 "z"
    ((∃ t, (checkPredicate .sample (.sampleDifference x)).verdict = .ok t) ∧
      UniquelyTyped .sample (.pred (.sampleDifference x))) ∧
    (∃ e, (checkPredicate .sample (.sampleDifference z)).verdict = .error (.error e)) ∧
      ¬ UniquelyTyped .sample (.pred (.sampleDifference z)) := by
  intro x z
  have exact (right : Expr) (blank : (Node.pred (.sampleDifference right)).Blank)
      (product : ¬ (Node.pred (.sampleDifference right)).HasProduct)
      (access : ¬ (Node.pred (.sampleDifference right)).HasAccess) :=
    (acceptance_exact Declarations.concrete_sample).2 _ blank product access
  simp only [Node.Blank, Node.HasProduct, Node.HasAccess] at exact
  have one := exact x (by decide) (by decide) (by decide)
  have more := exact z (by decide) (by decide) (by decide)
  have ok := Checked.isOk_iff.1
    (show (checkPredicate .sample (.sampleDifference x)).verdict.isOk = true by decide +kernel)
  have refused : ¬ ∃ t, (checkPredicate .sample (.sampleDifference z)).verdict = .ok t := by
    rw [← Checked.isOk_iff]
    decide +kernel
  have different := mt more.1.2 refused
  exact ⟨⟨ok, one.1.1 ok⟩, more.2.2 different, different⟩

end BMethod
