import BMethod.Proofs.Typing.Rules

/-!
# Signatures and the table of types

The check types operators by signatures. What a signature says about types (`Rule.Types`) is what
the table says, for every operator (`Operator.mayHaveType_iff`); so the rest of the theory treats
the few kinds of rules instead of the many operators.
-/

namespace BMethod

/-- What the rule of an operator says about the types of operands and whole. -/
def Rule.Types : Rule → List Ty → Ty → Prop
  | .fixed s, ts, t => ∃ ps : List Ty, ps.length = s.params ∧ s.result.instantiate ps t = t ∧
    ts = s.operands.map (Shape.instantiate ps t)
  | .constant params result, ts, t => ∃ ps : List Ty, ps.length = params ∧
    result.instantiate ps t = t ∧ ts = []
  | .difference, ts, t => ts = [t, t] ∧ (t = .integer ∨ ∃ a, t = .set a)
  | .product, ts, t => ts = [.integer, .integer] ∧ t = .integer ∨
    ∃ a b, ts = [.set a, .set b] ∧ t = .relation a b
  | .pair, ts, t => ∃ a b, ts = [a, b] ∧ t = .couple a b
  | .enumeration result, ts, t => ∃ a, (∀ u ∈ ts, u = a) ∧ result.instantiate [a] t = t
  | .application, ts, t => ∃ us u, ts = .relation u t :: us ∧ Ty.tuple? us = some u

section

variable {P : List Ty → Prop}

lemma exists_length_zero : (∃ ps : List Ty, ps.length = 0 ∧ P ps) ↔ P [] := by
  simp [List.length_eq_zero_iff]

/-- One more type parameter to choose. -/
lemma exists_length_succ {n : Nat} :
    (∃ ps : List Ty, ps.length = n + 1 ∧ P ps) ↔ ∃ a, ∃ ps : List Ty, ps.length = n ∧ P (a :: ps) := by
  constructor
  · rintro ⟨_ | ⟨a, ps⟩, h, hp⟩
    · cases h
    · exact ⟨a, ps, by simpa using h, hp⟩
  · rintro ⟨a, ps, h, hp⟩
    exact ⟨a :: ps, by simp [h], hp⟩

end

/-- Only differences and products are read in another way. -/
lemma Operator.mayHaveType_of_ne {op : Operator} (minus : op ≠ .minus) (mult : op ≠ .mult)
    (ts : List Ty) (t : Ty) : op.MayHaveType ts t ↔ op.HasType ts t := by
  constructor
  · rintro ⟨op', reads, h⟩
    cases reads with
    | self => exact h
    | difference => exact absurd rfl minus
    | product => exact absurd rfl mult
  · exact fun h => ⟨op, .self op, h⟩

/-- The rule of an operator says what the table says. -/
theorem Operator.mayHaveType_iff (op : Operator) (ts : List Ty) (t : Ty) :
    op.MayHaveType ts t ↔ op.rule.Types ts t := by
  cases op with
  | minus =>
    constructor
    · rintro ⟨op', reads, h⟩
      cases reads with
      | self => obtain ⟨rfl, rfl⟩ := h; exact ⟨rfl, .inl rfl⟩
      | difference => obtain ⟨a, rfl, rfl⟩ := h; exact ⟨rfl, .inr ⟨a, rfl⟩⟩
    · rintro ⟨rfl, rfl | ⟨a, rfl⟩⟩
      · exact ⟨_, .self _, rfl, rfl⟩
      · exact ⟨_, .difference, a, rfl, rfl⟩
  | mult =>
    constructor
    · rintro ⟨op', reads, h⟩
      cases reads with
      | self => exact .inl h
      | product => exact .inr h
    · rintro (h | h)
      · exact ⟨_, .self _, h⟩
      · exact ⟨_, .product, h⟩
  | couple | functionCall => exact mayHaveType_of_ne (by simp) (by simp) ts t
  | _ =>
    rw [mayHaveType_of_ne (by simp) (by simp)]
    simp only [HasType, rule, Rule.forward, Rule.backward, Rule.inward, Rule.Types,
      exists_length_succ, exists_length_zero, Shape.instantiate, Shape.relation, Shape.sequence,
      Ty.relation, Ty.sequence, List.map_cons, List.map_nil, List.getD_cons_zero,
      List.getD_cons_succ]
    grind

end BMethod
