import BMethod.Proofs.Solving

/-!
# Unifying concrete types

A concrete type has no variables and no ambiguous parts, so unifying two of them learns nothing: it
finds out whether they are the same, which is an equivalence of types, and leaves the unifier as it was
(`concrete_decided`). A failure names two types that differ, the first that were met.
-/

namespace BMethod

namespace Ty

/-- Records that are the same have the same names. -/
lemma sameNames_of_same {as bs : List (String × Ty)} (h : same (.record as) (.record bs) = true) :
    sameNames as bs = true := by
  have e := (same_iff_canon _ _).1 h
  simp only [canon, eval, record.injEq] at e
  rw [sameNames, beq_iff_eq, ← map_fst_evalFields .var as, e, map_fst_evalFields]

/-- The fields of a concrete record are concrete. -/
lemma isConcrete_of_mem {fields : List (String × Ty)} (h : (record fields).isConcrete = true)
    {f : String × Ty} (hf : f ∈ fields) : f.2.isConcrete = true := by
  rw [isConcrete, fieldsConcrete_eq_all, List.all_eq_true] at h
  exact h f hf

end Ty

open Ty

namespace Store

variable {s : Store} {a b : Ty}

/-- Unification has found out whether two types are the same and left the store alone: if they are, it
gives a type that is the same, and if not, it names two types that are not. -/
inductive Tests (s : Store) (a b : Ty) : Outcome × Store → Prop where
  | agree {t} : same a b = true → same t a = true → Tests s a b (.ok t, s)
  | differ {x y} : same a b = false → same x y = false →
    Tests s a b (.error (.error (.mismatch x y)), s)

/-- Concrete types clash as they are. -/
lemma run_clash_concrete {α : Type} (ha : a.isConcrete = true) (hb : b.isConcrete = true) :
    (clash a b : StoreM α) s = (.error (.error (.mismatch a b)), s) := by
  have resolved (t : Ty) (ht : t.isConcrete = true) : Store.resolved t s = (.ok t, s) :=
    run_ask (·.resolve? t) (s.resolve?_of_vars_eq_nil (vars_of_isConcrete ht))
  rw [clash, run_bind, resolved a ha]
  simp only [run_bind, resolved b hb, run_throw]

/-- Concrete types that are not the same fail the test by clashing. -/
lemma tests_clash (ha : a.isConcrete = true) (hb : b.isConcrete = true)
    (differ : same a b = false) : Tests s a b ((clash a b : StoreM Ty) s) := by
  rw [run_clash_concrete ha hb]
  exact .differ differ differ

/-- A concrete type is met as it is. -/
lemma run_meet_concrete (ha : a.isConcrete = true) :
    ask (·.head? a) s = (.ok a, s) ∧ awaiting a s = (.ok a, s) := by
  refine ⟨run_ask (·.head? a) (s.head?_of_nonvar ?_), ?_⟩
  · rintro v rfl
    cases ha
  · cases a with
    | var | setOrInteger | integerOrPairs => cases ha
    | _ => rfl

/-- Records are tested field by field. -/
lemma tests_unifyFields {unify : Ty → Ty → StoreM Ty} {as bs : List (String × Ty)}
    (names : sameNames as bs = true)
    (test : ∀ f ∈ as, ∀ g ∈ bs, Tests s f.2 g.2 (unify f.2 g.2 s)) :
    Tests s (.record as) (.record bs)
      ((unifyFields unify as bs s).1.map .record, (unifyFields unify as bs s).2) := by
  induction as generalizing bs with
  | nil =>
    cases bs with
    | nil => exact .agree rfl rfl
    | cons g bs => cases names
  | cons f as ih =>
    cases bs with
    | nil => cases names
    | cons g bs =>
      obtain ⟨a, t⟩ := f
      obtain ⟨b, u⟩ := g
      obtain ⟨rfl, rest⟩ : a = b ∧ sameNames as bs = true := by simpa [sameNames] using names
      have first := test (a, t) (by simp) (a, u) (by simp)
      replace ih := ih rest fun f hf g hg => test f (by simp [hf]) g (by simp [hg])
      rw [unifyFields, run_bind]
      generalize unify t u s = done at first ⊢
      cases first with
      | differ no named => exact .differ (by simp [same, sameFields, no]) named
      | @agree x yes result =>
        simp only [run_bind]
        generalize unifyFields unify as bs s = done at ih ⊢
        obtain ⟨out | cs, s'⟩ := done
        · -- The remaining fields have failed the test.
          cases ih with
          | differ no named =>
            refine .differ ?_ named
            rw [same] at no
            simp [same, sameFields, no]
        · cases ih with
          | agree yes' result' =>
            rw [same] at yes' result'
            exact .agree (by simp [same, sameFields, yes, yes'])
              (by simp [same, sameFields, result, result'])

/-- Types are tested down to the depth of the first. -/
lemma tests_unifyWithin {n : Nat} (ha : a.isConcrete = true) (hb : b.isConcrete = true)
    (deep : a.depth < n) : Tests s a b (unifyWithin n a b s) := by
  induction n generalizing a b with
  | zero => omega
  | succ n ih =>
    rw [unifyWithin]
    simp only [run_bind, (run_meet_concrete ha).1, (run_meet_concrete ha).2,
      (run_meet_concrete hb).1, (run_meet_concrete hb).2]
    cases a with
    | var | setOrInteger | integerOrPairs => cases ha
    | integer | bool | string | real =>
      cases b with
      | var | setOrInteger | integerOrPairs => cases hb
      | integer | bool | string | real =>
        first
          | exact .agree rfl rfl
          | exact tests_clash ha hb rfl
      | _ => exact tests_clash ha hb rfl
    | set t =>
      cases b with
      | var | setOrInteger | integerOrPairs => cases hb
      | set u =>
        have inner := ih (a := t) (b := u) ha hb (by simpa [depth] using deep)
        simp only [run_bind]
        generalize unifyWithin n t u s = done at inner ⊢
        cases inner with
        | agree yes result => exact .agree yes result
        | differ no named => exact .differ no named
      | _ => exact tests_clash ha hb rfl
    | couple l r =>
      cases b with
      | var | setOrInteger | integerOrPairs => cases hb
      | couple l' r' =>
        simp only [isConcrete, Bool.and_eq_true] at ha hb
        simp only [depth] at deep
        have left := ih ha.1 hb.1 (by omega)
        have right := ih ha.2 hb.2 (by omega)
        simp only [run_bind]
        generalize unifyWithin n l l' s = done at left ⊢
        cases left with
        | differ no named => exact .differ (by simp [same, no]) named
        | agree yes result =>
          simp only
          generalize unifyWithin n r r' s = done at right ⊢
          cases right with
          | differ no named => exact .differ (by simp [same, no]) named
          | agree yes' result' =>
            exact .agree (by simp [same, yes, yes']) (by simp [same, result, result'])
      | _ => exact tests_clash ha hb rfl
    | record as =>
      cases b with
      | var | setOrInteger | integerOrPairs => cases hb
      | record bs =>
        by_cases names : sameNames as bs = true
        · have deep : fieldsDepth as < n := by simpa [depth] using deep
          have fields := @tests_unifyFields s (unifyWithin n) _ _ names
            fun f hf g hg => ih (isConcrete_of_mem ha hf) (isConcrete_of_mem hb hg)
              ((fieldsDepth_le_iff.1 le_rfl f hf).trans_lt deep)
          simp only [names, if_true, run_bind]
          generalize unifyFields (unifyWithin n) as bs s = done at fields ⊢
          obtain ⟨_ | _, s'⟩ := done <;> exact fields
        · simp only [names]
          refine tests_clash ha hb (Bool.eq_false_iff.2 fun same => ?_)
          exact absurd (sameNames_of_same same) names
      | _ => exact tests_clash ha hb rfl
    | enumerated i name literals =>
      cases b with
      | var | setOrInteger | integerOrPairs => cases hb
      | enumerated j name' literals' =>
        by_cases e : i = j
        · simp only [e, if_true]
          exact .agree (by simp [same]) (by simp [same])
        · simp only [e, if_false]
          exact tests_clash ha hb (by simpa [same] using e)
      | _ => exact tests_clash ha hb rfl
    | deferred i name =>
      cases b with
      | var | setOrInteger | integerOrPairs => cases hb
      | deferred j name' =>
        by_cases e : i = j
        · simp only [e, if_true]
          exact .agree (by simp [same]) (by simp [same])
        · simp only [e, if_false]
          exact tests_clash ha hb (by simpa [same] using e)
      | _ => exact tests_clash ha hb rfl

/-- The depth that unification is given suffices. -/
lemma tests_unify (ha : a.isConcrete = true) (hb : b.isConcrete = true) :
    Tests s a b (unify a b s) := by
  have deep : a.depth < s.depthBound a b := by
    have le := a.depth_le_size
    have pos := a.size_pos
    rw [depthBound]
    generalize hn : 2 * (s.size + a.size + b.size) = n
    calc a.depth < n := by omega
      _ ≤ n * n := Nat.le_mul_self n
      _ ≤ n * n * n := Nat.le_mul_of_pos_right _ (by omega)
  exact tests_unifyWithin ha hb deep

end Store

namespace Unifier

variable {u : Unifier}

/-- Where no link can be decided, deciding links does nothing. -/
lemma Settled.decideWithin (settled : u.Settled) (proper : u.Proper) (n : Nat) :
    decideWithin n u = (.ok (), u) := by
  cases n with
  | zero => rfl
  | succ n =>
    obtain ⟨none, -⟩ | ⟨link, r, rest, -, dec, perm⟩ :=
      proper.wellFormed.acyclic.firstDecided?_spec u.links
    · rw [Unifier.decideWithin, run_bind, run_get]
      simp only [none]
      rfl
    · have undecided := settled link (perm.mem_iff.2 (by simp))
      rw [ProductLink.Undecided, dec] at undecided
      cases undecided

/-- Sameness is an equivalence of types. On a unifier made by successful calls, unification of two
concrete types decides whether they are the same, and changes nothing: it succeeds exactly if they are,
with a type that is the same as both, and otherwise fails with a mismatch of two types that differ. -/
theorem concrete_decided :
    (Equivalence fun a b : Ty => same a b = true) ∧
      ∀ {calls : List Call} {u : Unifier}, Made calls u →
        ∀ a b : Ty, a.isConcrete = true → b.isConcrete = true →
          (same a b = true ∧
            ∃ t, unify a b u = (.ok t, u) ∧ same t a = true ∧ same t b = true) ∨
          (same a b = false ∧
            ∃ x y, unify a b u = (.error (.error (.mismatch x y)), u) ∧ same x y = false) := by
  refine ⟨⟨same_refl, same_comm, same_trans⟩, fun {calls u} made a b ha hb => ?_⟩
  obtain ⟨⟨proper, -, -⟩, settled⟩ := made.accounts
  have tests := Store.tests_unify (s := u.store) ha hb
  have done : decideLinks u = (.ok (), u) := settled.decideWithin proper u.links.length
  rw [unify, run_bind, run_onStore]
  generalize Store.unify a b u.store = run at tests ⊢
  cases tests with
  | @agree t yes result =>
    refine .inl ⟨yes, t, ?_, result, same_trans result yes⟩
    simp only [run_bind, done, run_pure]
  | @differ x y no named => exact .inr ⟨no, x, y, rfl, named⟩

/-- Two records whose first fields are the elements of copies of one set, and whose second fields differ,
are compared while products are undecided. -/
theorem concrete_decided_sampleProducts :
    Made sampleCalls sampleProducts ∧
      ∃ x y, unify
        (.record [("a", .enumerated ⟨"M", 0⟩ "S" ["e"]), ("b", .set .integer)])
        (.record [("a", .enumerated ⟨"M", 0⟩ "T" []), ("b", .set .bool)]) sampleProducts =
          (.error (.error (.mismatch x y)), sampleProducts) ∧ same x y = false := by
  obtain ⟨yes, -⟩ | ⟨-, fails⟩ := concrete_decided.2 made_sampleProducts
    (.record [("a", .enumerated ⟨"M", 0⟩ "S" ["e"]), ("b", .set .integer)])
    (.record [("a", .enumerated ⟨"M", 0⟩ "T" []), ("b", .set .bool)]) (by decide) (by decide)
  · exact absurd yes (by decide)
  · exact ⟨made_sampleProducts, fails⟩

end Unifier

end BMethod
