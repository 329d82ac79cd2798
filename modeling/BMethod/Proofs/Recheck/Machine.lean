import BMethod.Proofs.Preservation
import BMethod.Proofs.Recheck.Reading

/-!
# Machines side by side

Phase by phase the second check of a machine follows the first, if no types are taken over from other
machines. The order of the phases is the same, and so is what operations can be called.
-/

namespace BMethod

open State Walk

variable {w : World} {known : Nat → Bool} {f : Stamp} {scope : Scope} {d : Duo} {s₁ : State}

/-! ## Clauses. -/

namespace Duo.Sound

variable (h : d.Sound w known)

include h

/-- A predicate that may be missing. -/
lemma clause {p p₁ : Option Pred} (reads : ∀ n ∈ p₁.toList.map Node.pred, w.Reads f n)
    (run : CheckM.optional (fun p => CheckM.ignore (p.check .bool)) p d.first = ((p₁, .ok ()), s₁)) :
    d.Visits w known
      (CheckM.optional (fun p => CheckM.ignore (p.check .bool)) (p₁.map (Pred.restamp f))) s₁
      fun d₁ p' _ => d₁.LevelAll w (p₁.toList.map .pred) (p'.toList.map .pred) := by
  cases p with
  | none =>
    cases run
    exact .done h .nil
  | some p =>
    obtain ⟨q, _, s, walk, ⟨⟩⟩ := CheckM.andThen_eq_ok.1 run
    obtain ⟨_, _, _, walk, ⟨⟩⟩ := CheckM.andThen_eq_ok.1 walk
    have part : d.Visits w known (CheckM.ignore ((q.restamp f).check .bool)) s₁ fun d₁ p' _ =>
        d₁.Level w (.pred q) (.pred p') := by
      refine .andThen (h.pred (reads _ (.head _)) (tie_concrete rfl) walk) ?_
      rintro d₁ p' _ g rfl yields
      exact .done g.sound yields.level
    refine .andThen part ?_
    rintro d₁ p' _ g rfl level
    exact .done g.sound (.cons level .nil)

lemma preds {ps ps₁ : List Pred} (reads : ∀ n ∈ ps₁.map Node.pred, w.Reads f n)
    (run : Pred.checkAll ps d.first = ((ps₁, .ok ()), s₁)) :
    d.Visits w known (Pred.checkAll (ps₁.map (Pred.restamp f))) s₁ fun d₁ ps' _ =>
      d₁.LevelAll w (ps₁.map .pred) (ps'.map .pred) := by
  induction ps generalizing d ps₁ with
  | nil =>
    cases run
    exact .done h .nil
  | cons p ps ih =>
    obtain ⟨p₁, _, s, head, run⟩ := CheckM.andThen_eq_ok.1 run
    obtain ⟨ps₁, _, _, rest, ⟨⟩⟩ := CheckM.andThen_eq_ok.1 run
    rw [List.map_cons, List.forall_mem_cons] at reads
    rw [List.map_cons, Pred.checkAll]
    refine .andThen (h.pred reads.1 (tie_concrete rfl) head) ?_
    rintro d₁ p' _ g rfl first
    refine .andThen (ih g.sound reads.2 rest) ?_
    rintro d₂ ps' _ g₂ rfl level
    exact .done g₂.sound (.cons (first.level.mono g₂) level)

lemma substitutions (concrete : scope.Concrete) {σs σs₁ : List Substitution}
    (reads : ∀ n ∈ σs₁.map Node.substitution, w.Reads f n)
    (run : Substitution.checkAll scope σs d.first = ((σs₁, .ok ()), s₁)) :
    d.Visits w known (Substitution.checkAll scope (σs₁.map (Substitution.restamp f))) s₁
      fun d₁ σs' _ => d₁.LevelAll w (σs₁.map .substitution) (σs'.map .substitution) := by
  induction σs generalizing d σs₁ with
  | nil =>
    cases run
    exact .done h .nil
  | cons σ σs ih =>
    obtain ⟨σ₁, _, s, head, run⟩ := CheckM.andThen_eq_ok.1 run
    obtain ⟨σs₁, _, _, rest, ⟨⟩⟩ := CheckM.andThen_eq_ok.1 run
    rw [List.map_cons, List.forall_mem_cons] at reads
    rw [List.map_cons, Substitution.checkAll]
    refine .andThen (h.substitution concrete reads.1 head) ?_
    rintro d₁ σ' _ g rfl first
    refine .andThen (ih g.sound reads.2 rest) ?_
    rintro d₂ σs' _ g₂ rfl level
    exact .done g₂.sound (.cons (first.mono g₂) level)

/-- A substitution that may be missing. -/
lemma substitution? (concrete : scope.Concrete) {o o₁ : Option Substitution}
    (reads : ∀ n ∈ o₁.toList.map Node.substitution, w.Reads f n)
    (run : Substitution.checkOption scope o d.first = ((o₁, .ok ()), s₁)) :
    d.Visits w known (Substitution.checkOption scope (o₁.map (Substitution.restamp f))) s₁
      fun d₁ o' _ => d₁.LevelAll w (o₁.toList.map .substitution) (o'.toList.map .substitution) := by
  cases o with
  | none =>
    cases run
    exact .done h .nil
  | some σ =>
    obtain ⟨σ₁, _, s, walk, ⟨⟩⟩ := CheckM.andThen_eq_ok.1 run
    rw [Option.map_some, Substitution.checkOption]
    refine .andThen (h.substitution concrete (reads _ (.head _)) walk) ?_
    rintro d₁ σ' _ g rfl level
    exact .done g.sound (.cons level .nil)

lemma operations (concrete : scope.Concrete) {os os₁ : List Operation}
    (reads : ∀ n ∈ os₁.map (Node.substitution ·.body), w.Reads f n)
    (run : Machine.checkOperations scope os d.first = ((os₁, .ok ()), s₁)) :
    d.Visits w known
      (Machine.checkOperations scope (os₁.map fun o => { o with body := o.body.restamp f })) s₁
      fun d₁ os' _ =>
        d₁.LevelAll w (os₁.map (.substitution ·.body)) (os'.map (.substitution ·.body)) := by
  induction os generalizing d os₁ with
  | nil =>
    cases run
    exact .done h .nil
  | cons o os ih =>
    obtain ⟨_, s, outputs, run⟩ := CheckM.bind_eq.1 run
    obtain ⟨_, s, params, run⟩ := CheckM.bind_eq.1 run
    obtain ⟨body₁, _, s, head, run⟩ := CheckM.andThen_eq_ok.1 run
    obtain ⟨os₁, _, _, rest, ⟨⟩⟩ := CheckM.andThen_eq_ok.1 run
    rw [List.map_cons, List.forall_mem_cons] at reads
    rw [List.map_cons, Machine.checkOperations]
    refine .bind (h.declare outputs) ?_
    rintro d₁ _ g₁ rfl -
    refine .bind (g₁.sound.declare params) ?_
    rintro d₂ _ g₂ rfl -
    refine .andThen (g₂.sound.substitution concrete reads.1 head) ?_
    rintro d₃ body' _ g₃ rfl first
    refine .andThen (ih g₃.sound reads.2 rest) ?_
    rintro d₄ os' _ g₄ rfl level
    exact .done g₄.sound (.cons (first.mono g₄) level)

end Duo.Sound

/-! ## Phases. -/

/-- What holds of what a walk has left, if it has succeeded. -/
lemma Leaves.of_ok {ν α : Type} {R : ν → Prop} {x : CheckM (Visited ν α)} {n : ν} {a : α} {s s' : State}
    (h : Leaves R x) (run : x s = ((n, .ok a), s')) : R n := by
  have left := h s
  rwa [Ensures, run] at left

namespace Machine

variable {m m₁ x : Machine} {ds : Declarations}

/-- No types are taken over if there is no variable to take them over for. -/
lemma takeTypes_of_included (none : m.included = []) : m.takeTypes = pure () := by
  rw [takeTypes, none]
  induction m.references with
  | nil => rfl
  | cons r rs ih => exact ih

lemma repeats_checkConstants (h : d.Sound w known) (concrete : scope.Concrete)
    (run : m.checkConstants scope d.first = ((m₁, .ok ()), s₁))
    (reads : ∀ n ∈ m₁.constantRoots, w.Reads f n) (constants : x.constants = m.constants)
    (properties : x.properties = m₁.properties.map (Pred.restamp f))
    (values : x.values = m₁.values.map (Substitution.restamp f)) :
    d.Visits w known (x.checkConstants scope) s₁ fun d₁ x₁ _ =>
      (∃ properties values, x₁ = { x with properties, values }) ∧
        d₁.LevelAll w m₁.constantRoots x₁.constantRoots := by
  obtain ⟨_, s, enters, run⟩ := CheckM.bind_eq.1 run
  obtain ⟨_, s, declared, run⟩ := CheckM.bind_eq.1 run
  obtain ⟨p₁, _, s, first, run⟩ := CheckM.andThen_eq_ok.1 run
  obtain ⟨_, s, known, run⟩ := CheckM.orFail_eq_ok.1 run
  obtain ⟨v₁, _, _, second, ⟨⟩⟩ := CheckM.andThen_eq_ok.1 run
  rw [constantRoots, List.forall_mem_append] at reads
  rw [checkConstants, constants, properties, values]
  refine .bind (h.report enters) ?_
  rintro d₁ _ g₁ rfl -
  refine .bind (g₁.sound.declare declared) ?_
  rintro d₂ _ g₂ rfl -
  refine .andThen (g₂.sound.clause reads.1 first) ?_
  rintro d₃ p' _ g₃ rfl levelP
  refine .orFail (g₃.sound.requireConcrete known) ?_
  rintro d₄ _ g₄ rfl -
  refine .andThen (g₄.sound.substitutions concrete reads.2 second) ?_
  rintro d₅ v' _ g₅ rfl levelV
  exact .done g₅.sound ⟨⟨p', v', rfl⟩, List.rel_append ((levelP.mono g₄).mono g₅) levelV⟩

lemma repeats_checkVariables (h : d.Sound w known)
    (run : m.checkVariables d.first = ((m₁, .ok ()), s₁)) (none : m.included = [])
    (reads : ∀ n ∈ m₁.invariant.toList.map Node.pred ++ m₁.assertions.map Node.pred, w.Reads f n)
    (vars : x.vars = m.vars) (included : x.included = m.included)
    (invariant : x.invariant = m₁.invariant.map (Pred.restamp f))
    (assertions : x.assertions = m₁.assertions.map (Pred.restamp f)) :
    d.Visits w known x.checkVariables s₁ fun d₁ x₁ _ =>
      (∃ invariant assertions, x₁ = { x with invariant, assertions }) ∧
        d₁.LevelAll w (m₁.invariant.toList.map .pred ++ m₁.assertions.map .pred)
          (x₁.invariant.toList.map .pred ++ x₁.assertions.map .pred) := by
  rw [checkVariables, takeTypes_of_included none] at run
  obtain ⟨_, s, enters, run⟩ := CheckM.bind_eq.1 run
  obtain ⟨_, s, declared, run⟩ := CheckM.bind_eq.1 run
  obtain ⟨_, s, declared', run⟩ := CheckM.bind_eq.1 run
  obtain ⟨_, _, ⟨⟩, run⟩ := CheckM.bind_eq.1 run
  obtain ⟨_, s, known', run⟩ := CheckM.orFail_eq_ok.1 run
  obtain ⟨i₁, _, s, first, run⟩ := CheckM.andThen_eq_ok.1 run
  obtain ⟨a₁, _, s, second, run⟩ := CheckM.andThen_eq_ok.1 run
  obtain ⟨_, _, known'', ⟨⟩⟩ := CheckM.orFail_eq_ok.1 run
  rw [List.forall_mem_append] at reads
  rw [checkVariables, takeTypes_of_included (included.trans none), vars, included, invariant, assertions]
  refine .bind (h.report enters) ?_
  rintro d₁ _ g₁ rfl -
  refine .bind (g₁.sound.declare declared) ?_
  rintro d₂ _ g₂ rfl -
  refine .bind (g₂.sound.declare declared') ?_
  rintro d₃ _ g₃ rfl -
  refine .bind (P := fun _ _ => True) (.pure g₃.sound trivial) ?_
  rintro d₄ _ g₄ same -
  rw [← same] at known'
  refine .orFail (g₄.sound.requireConcrete known') ?_
  rintro d₅ _ g₅ rfl -
  refine .andThen (g₅.sound.clause reads.1 first) ?_
  rintro d₆ i' _ g₆ rfl levelI
  refine .andThen (g₆.sound.preds reads.2 second) ?_
  rintro d₇ a' _ g₇ rfl levelA
  refine .orFail (g₇.sound.requireConcrete known'') ?_
  rintro d₈ _ g₈ rfl -
  exact .done g₈.sound ⟨⟨i', a', rfl⟩, List.rel_append ((levelI.mono g₇).mono g₈) (levelA.mono g₈)⟩

lemma repeats_checkBehaviour (h : d.Sound w known) (concrete : scope.Concrete)
    (run : m.checkBehaviour scope d.first = ((m₁, .ok ()), s₁)) {scope' : Scope} (same : scope' = scope)
    (reads : ∀ n ∈ m₁.initialisation.toList.map Node.substitution ++
      m₁.operations.map (Node.substitution ·.body), w.Reads f n)
    (initialisation : x.initialisation = m₁.initialisation.map (Substitution.restamp f))
    (operations : x.operations = m₁.operations.map fun o => { o with body := o.body.restamp f }) :
    d.Visits w known (x.checkBehaviour scope') s₁ fun d₁ x₁ _ =>
      (∃ initialisation operations, x₁ = { x with initialisation, operations }) ∧
        d₁.LevelAll w
          (m₁.initialisation.toList.map .substitution ++ m₁.operations.map (.substitution ·.body))
          (x₁.initialisation.toList.map .substitution ++ x₁.operations.map (.substitution ·.body)) := by
  obtain ⟨_, s, enters, run⟩ := CheckM.bind_eq.1 run
  obtain ⟨i₁, _, s, first, run⟩ := CheckM.andThen_eq_ok.1 run
  obtain ⟨os₁, _, _, second, ⟨⟩⟩ := CheckM.andThen_eq_ok.1 run
  rw [List.forall_mem_append] at reads
  rw [same, checkBehaviour, initialisation, operations]
  refine .bind (h.report enters) ?_
  rintro d₁ _ g₁ rfl -
  refine .andThen (g₁.sound.substitution? concrete reads.1 first) ?_
  rintro d₂ i' _ g₂ rfl levelI
  refine .andThen (g₂.sound.operations concrete reads.2 second) ?_
  rintro d₃ os' _ g₃ rfl levelO
  exact .done g₃.sound ⟨⟨i', os', rfl⟩, List.rel_append (levelI.mono g₃) levelO⟩

/-- All phases after the sets have got their types, up to the conclusion. -/
def checkPhases (m : Machine) : CheckM (Visited Machine Unit) :=
  (m.checkConstants m.scope).andThen id fun m _ =>
    m.checkVariables.andThen id fun m _ => m.checkBehaviour m.scope

lemma checkClauses_eq_phases (m : Machine) : m.checkClauses = (do
    report (.begins m.name)
    m.seedSets
    m.checkPhases.andThen id fun m _ => m.conclude) := by
  simp only [checkPhases, CheckM.andThen_assoc]
  rfl

/-- The phases keep everything but slots. -/
lemma preserves_checkPhases (m : Machine) : Preserves (fun m' => m'.erase = m.erase) m.checkPhases := by
  refine (preserves_checkConstants m.concrete_scope).andThen (fun _ same => same) fun m₁ _ same₁ => ?_
  refine preserves_checkVariables.andThen (fun _ same => same.trans same₁) fun m₂ _ same₂ => ?_
  exact (yields_checkBehaviour.preserves fun _ => visits_checkBehaviour m₂.concrete_scope).mono
    fun _ same => same.trans (same₂.trans same₁)

/-- What can be called does not depend on slots. -/
lemma scope_erase (m : Machine) : m.erase.scope = m.scope := by
  simp [scope, erase, restamp, Function.comp_def]

/-- The second check of a machine follows the first through its phases. -/
theorem repeats_checkPhases (h : d.Sound w known) (none : m.included = [])
    (reads : ∀ n ∈ m₁.roots, w.Reads f n) (run : m.checkPhases d.first = ((m₁, .ok ()), s₁)) :
    d.Visits w known ({ m₁.restamp f with decls := ds } : Machine).checkPhases s₁ fun d₁ x _ =>
      d₁.LevelAll w m₁.roots x.roots := by
  have form := (m.preserves_checkPhases d.first).1
  rw [run] at form
  have callable : m₁.scope = m.scope := by rw [← scope_erase, form, scope_erase]
  obtain ⟨a, _, s, first, run⟩ := CheckM.andThen_eq_ok.1 run
  obtain ⟨b, _, s, second, third⟩ := CheckM.andThen_eq_ok.1 run
  obtain ⟨properties, values, rfl⟩ := leaves_checkConstants.of_ok first
  obtain ⟨invariant, assertions, rfl⟩ := leaves_checkVariables.of_ok second
  obtain ⟨initialisation, operations, -, rfl⟩ := leaves_checkBehaviour.of_ok third
  rw [roots_eq, variableRoots, List.forall_mem_append, List.forall_mem_append] at reads
  obtain ⟨readsC, readsV, readsB⟩ := reads
  rw [checkPhases]
  -- What can be called is compared before the second machine is unfolded.
  generalize hx : ({ restamp f _ with decls := ds } : Machine) = x
  have scope : x.scope = m.scope := by
    rw [← callable, ← hx]
    simp [Machine.scope, restamp, Function.comp_def]
  rw [scope]
  subst hx
  refine .andThen (repeats_checkConstants h m.concrete_scope first readsC rfl rfl rfl) ?_
  rintro d₁ _ _ g₁ rfl ⟨⟨properties', values', rfl⟩, levelC⟩
  refine .andThen (repeats_checkVariables g₁.sound second none readsV rfl rfl rfl rfl) ?_
  rintro d₂ _ _ g₂ rfl ⟨⟨invariant', assertions', rfl⟩, levelV⟩
  refine (repeats_checkBehaviour g₂.sound m.concrete_scope third scope readsB rfl rfl).mono ?_
  rintro d₃ _ _ g₃ ⟨⟨initialisation', operations', rfl⟩, levelB⟩
  simp only [roots_eq, variableRoots]
  exact List.rel_append ((levelC.mono g₂).mono g₃) (List.rel_append (levelV.mono g₃) levelB)

end Machine

end BMethod
