import BMethod.Proofs.Recheck.Operator
import BMethod.Proofs.Typing.Overwrite

/-!
# Trees side by side

The second check goes through the tree that the first has left, with its operators read as the types in
the slots say. Walk by walk it follows the first, and the slots of the two trees that result hold tied
types (`Node.Repeats`).
-/

namespace BMethod

open State

/-- A second walk through what the walk through the tree leaves follows the first. -/
def Node.Repeats (w : World) (known : Nat → Bool) : Node → Prop
  | .expr e => ∀ ⦃d : Duo⦄ ⦃t t' u : Ty⦄ ⦃e₁ : Expr⦄ ⦃s₁ : State⦄, d.Sound w known → d.Tie w t t' →
      e.check t d.first = ((e₁, .ok u), s₁) →
        d.Echoes w known e₁ u ((e₁.restamp w.reading).check t') s₁
  | .pred p => ∀ ⦃d : Duo⦄ ⦃t t' u : Ty⦄ ⦃p₁ : Pred⦄ ⦃s₁ : State⦄, d.Sound w known → d.Tie w t t' →
      p.check t d.first = ((p₁, .ok u), s₁) →
        d.Visits w known ((p₁.restamp w.reading).check t') s₁ fun d₁ p' u' =>
          d₁.Yields w (.pred p₁) u (.pred p') u'
  | .substitution σ => ∀ ⦃scope : Scope⦄ ⦃d : Duo⦄ ⦃σ₁ : Substitution⦄ ⦃s₁ : State⦄, scope.Concrete →
      d.Sound w known → σ.check scope d.first = ((σ₁, .ok ()), s₁) →
        d.Visits w known ((σ₁.restamp w.reading).check scope) s₁ fun d₁ σ' _ =>
          d₁.Level w (.substitution σ₁) (.substitution σ')
  | .ltl _ => True

variable {w : World} {known : Nat → Bool} {d : Duo} {s s₁ : State} {t t' u : Ty}

/-! ## Steps. -/

namespace Duo

/-- Another computation that does the same in the second state, if the world is one of the first. -/
lemma Visits.of_run_eq {ν α : Type} {x y : CheckM (Visited ν α)} {P : Duo → ν → α → Prop}
    (h : d.Visits w known x s₁ P) (eq : w.Models d.first → x d.second = y d.second) :
    d.Visits w known y s₁ P := by
  obtain ⟨d₁, r, first, run, hr⟩ := h
  exact ⟨d₁, r, first, ⟨run.toGoes, fun m => by rw [← eq (run.steps.models w m), run.run m]⟩, hr⟩

namespace Sound

variable (h : d.Sound w known)

include h

lemma aggregateType {op : Aggregate} (run : op.type d.first = (t, s₁)) :
    d.Follows w known op.type s₁ fun d₁ t' => d₁.Tie w t t' := by
  cases op with
  | sigma | pi =>
    cases run
    exact .pure h (tie_concrete rfl)
  | union | inter =>
    obtain ⟨elem, s, fresh, ⟨⟩⟩ := CheckM.bind_eq.1 run
    refine .bind (h.fresh fresh) ?_
    rintro d₁ elem' g rfl tie
    exact .pure g.sound tie.set

/-- The field of a record that the second check finds beside that of the first. -/
lemma exists_field {fields : List (String × Ty)} {name : String} (tie : d.Tie w t t')
    (head : d.first.unifier.store.head? t = some (.record fields))
    (found : Ty.field? fields name = some u) :
    ∃ u', d.Tie w u u' ∧ (w.Models d.first → ∃ fields',
      d.second.unifier.store.head? t' = some (.record fields') ∧ Ty.field? fields' name = some u') := by
  have scope : u.Scoped d.first.vars :=
    Ty.scoped_of_field? (h.inv.unifier.wellFormed.scoped_head? head tie.scope) found
  by_cases m : w.Models d.first
  · have ab := (h.abreast m).unifier.store
    obtain ⟨r, head', nonvar, tied⟩ := ab.exists_head? (tie.tied m) head nofun
    obtain ⟨fields', rfl⟩ : ∃ fields', r = .record fields' := by
      have eq := tied.eq _ ab.admits_second
      cases r with
      | record fields' => exact ⟨fields', rfl⟩
      | var v => exact absurd rfl (nonvar v)
      | _ => simp [Ty.eval] at eq
    obtain ⟨u', found', tied'⟩ := ab.field? tied found
    exact ⟨u', ⟨scope, fun _ => tied'⟩, fun _ => ⟨fields', head', found'⟩⟩
  · exact ⟨.bool, ⟨scope, fun m' => absurd m' m⟩, fun m' => absurd m' m⟩

end Sound

end Duo

/-! ## Walks through lists. -/

namespace Expr

variable {es es₁ : List Expr} {ts ts' : List Ty} {fields fields₁ : List (FieldLabel × Expr)}

lemma repeats_checkForward (h : ∀ e ∈ es, (Node.expr e).Repeats w known) (sound : d.Sound w known)
    (ties : List.Forall₂ (d.Tie w) ts ts') (len : es₁.length = ts.length)
    (run : checkForward es ts d.first = ((es₁, .ok ()), s₁)) :
    d.Visits w known (checkForward (Duo.reread w es₁) ts') s₁ fun d₁ es' _ =>
      d₁.LevelAll w (es₁.map .expr) (es'.map .expr) := by
  induction es generalizing d ts ts' es₁ with
  | nil =>
    cases run
    exact .done sound .nil
  | cons e es ih =>
    rw [List.forall_mem_cons] at h
    cases ties with
    | nil =>
      cases run
      cases len
    | cons tie ties =>
      rw [checkForward] at run
      obtain ⟨e₁, _, s, head, run⟩ := CheckM.andThen_eq_ok.1 run
      obtain ⟨es₁, _, _, rest, ⟨⟩⟩ := CheckM.andThen_eq_ok.1 run
      rw [Duo.reread, List.map_cons, checkForward]
      refine .andThen (h.1 sound tie head) ?_
      rintro d₁ e' _ g rfl first
      refine .andThen (ih h.2 g.sound (Duo.Tie.mono_all ties g) (by simpa using len) rest) ?_
      rintro d₂ es' _ g₂ rfl level
      exact .done g₂.sound (.cons (first.level.mono g₂) level)

lemma repeats_checkBackward (h : ∀ e ∈ es, (Node.expr e).Repeats w known) (sound : d.Sound w known)
    (ties : List.Forall₂ (d.Tie w) ts ts') (len : es₁.length = ts.length)
    (run : checkBackward es ts d.first = ((es₁, .ok ()), s₁)) :
    d.Visits w known (checkBackward (Duo.reread w es₁) ts') s₁ fun d₁ es' _ =>
      d₁.LevelAll w (es₁.map .expr) (es'.map .expr) := by
  induction es generalizing ts ts' es₁ s₁ with
  | nil =>
    cases run
    exact .done sound .nil
  | cons e es ih =>
    rw [List.forall_mem_cons] at h
    cases ties with
    | nil =>
      cases run
      cases len
    | cons tie ties =>
      rw [checkBackward] at run
      obtain ⟨es₁, _, s, rest, run⟩ := CheckM.andThen_eq_ok.1 run
      obtain ⟨e₁, _, _, head, ⟨⟩⟩ := CheckM.andThen_eq_ok.1 run
      rw [Duo.reread, List.map_cons, checkBackward]
      refine .andThen (ih h.2 ties (by simpa using len) rest) ?_
      rintro d₁ es' _ g rfl level
      refine .andThen (h.1 g.sound (tie.mono g) head) ?_
      rintro d₂ e' _ g₂ rfl first
      exact .done g₂.sound (.cons first.level (level.mono g₂))

lemma repeats_checkChain (h : ∀ e ∈ es, (Node.expr e).Repeats w known) (sound : d.Sound w known)
    (tie : d.Tie w t t') (run : checkChain es t d.first = ((es₁, .ok u), s₁)) :
    d.Visits w known (checkChain (Duo.reread w es₁) t') s₁ fun d₁ es' _ =>
      d₁.LevelAll w (es₁.map .expr) (es'.map .expr) := by
  induction es generalizing d t t' es₁ with
  | nil =>
    cases run
    exact .done sound .nil
  | cons e es ih =>
    rw [List.forall_mem_cons] at h
    rw [checkChain] at run
    obtain ⟨e₁, _, s, head, run⟩ := CheckM.andThen_eq_ok.1 run
    obtain ⟨es₁, _, _, rest, ⟨⟩⟩ := CheckM.andThen_eq_ok.1 run
    rw [Duo.reread, List.map_cons, checkChain]
    refine .andThen (h.1 sound tie head) ?_
    rintro d₁ e' _ g rfl first
    refine .andThen (ih h.2 g.sound first.tie rest) ?_
    rintro d₂ es' _ g₂ rfl level
    exact .done g₂.sound (.cons (first.level.mono g₂) level)

lemma repeats_checkApart (h : ∀ e ∈ es, (Node.expr e).Repeats w known) (sound : d.Sound w known)
    (run : checkApart es d.first = ((es₁, .ok ts), s₁)) :
    d.Visits w known (checkApart (Duo.reread w es₁)) s₁ fun d₁ es' ts' =>
      List.Forall₂ (d₁.Tie w) ts ts' ∧ d₁.LevelAll w (es₁.map .expr) (es'.map .expr) := by
  induction es generalizing d es₁ ts with
  | nil =>
    cases run
    exact .done sound ⟨.nil, .nil⟩
  | cons e es ih =>
    rw [List.forall_mem_cons] at h
    rw [checkApart] at run
    obtain ⟨_, s, fresh, run⟩ := CheckM.bind_eq.1 run
    obtain ⟨e₁, _, s', head, run⟩ := CheckM.andThen_eq_ok.1 run
    obtain ⟨es₁, _, _, rest, ⟨⟩⟩ := CheckM.andThen_eq_ok.1 run
    rw [Duo.reread, List.map_cons, checkApart]
    refine .bind (sound.fresh fresh) ?_
    rintro d₁ t' g₁ rfl tie
    refine .andThen (h.1 g₁.sound tie head) ?_
    rintro d₂ e' _ g₂ rfl first
    refine .andThen (ih h.2 g₂.sound rest) ?_
    rintro d₃ es' ts' g₃ rfl ⟨ties, level⟩
    exact .done g₃.sound ⟨.cons (first.tie.mono g₃) ties, .cons (first.level.mono g₃) level⟩

lemma repeats_checkCall (h : ∀ e ∈ es, (Node.expr e).Repeats w known) (sound : d.Sound w known)
    (tie : d.Tie w t t') {site : Site} (run : checkCall site es t d.first = ((es₁, .ok ()), s₁))
    (site' : Site) :
    d.Visits w known (checkCall site' (Duo.reread w es₁) t') s₁ fun d₁ es' _ =>
      d₁.LevelAll w (es₁.map .expr) (es'.map .expr) := by
  cases es with
  | nil =>
    cases run
    exact .done sound .nil
  | cons f args =>
    rw [List.forall_mem_cons] at h
    rw [checkCall] at run
    obtain ⟨args₁, ts, s, apart, run⟩ := CheckM.andThen_eq_ok.1 run
    cases domain : Ty.tuple? ts with
    | none =>
      rw [domain] at run
      cases run
    | some domain₁ =>
      rw [domain] at run
      obtain ⟨f₁, _, _, head, ⟨⟩⟩ := CheckM.andThen_eq_ok.1 run
      rw [Duo.reread, List.map_cons, checkCall]
      refine .andThen (repeats_checkApart h.2 sound apart) ?_
      rintro d₁ args' ts' g rfl ⟨ties, level⟩
      obtain ⟨domain', found, dom⟩ := Duo.exists_tuple? ties domain
      rw [found]
      refine .andThen (h.1 g.sound (dom.relation (tie.mono g)) head) ?_
      rintro d₂ f' _ g₂ rfl first
      exact .done g₂.sound (.cons first.level (level.mono g₂))

/-- The walks through operands that are walked through again. -/
lemma repeats_walks (h : ∀ e ∈ es, (Node.expr e).Repeats w known) (site : Site)
    (site' : List Expr → Site) :
    OperandWalks.Repeat w known
      ⟨checkForward es, checkBackward es, checkChain es, checkApart es, checkCall site es⟩
      fun es₁ => ⟨checkForward (Duo.reread w es₁), checkBackward (Duo.reread w es₁),
        checkChain (Duo.reread w es₁), checkApart (Duo.reread w es₁),
        checkCall (site' es₁) (Duo.reread w es₁)⟩ where
  forward := repeats_checkForward h
  backward := repeats_checkBackward h
  chain := repeats_checkChain h
  apart := repeats_checkApart h
  call sound tie run := repeats_checkCall h sound tie run _

/-- The fields of records or structs, with operators read as the types of the world say. -/
abbrev rereadFields (w : World) (fields : List (FieldLabel × Expr)) : List (FieldLabel × Expr) :=
  fields.map fun f => (f.1, f.2.restamp w.reading)

lemma repeats_checkRecord (h : ∀ f ∈ fields, (Node.expr f.2).Repeats w known)
    (sound : d.Sound w known) {types : List (String × Ty)}
    (run : checkRecord fields d.first = ((fields₁, .ok types), s₁)) :
    d.Visits w known (checkRecord (rereadFields w fields₁)) s₁ fun d₁ fields' types' =>
      d₁.TieFields w types types' ∧
        d₁.LevelAll w (fields₁.map (.expr ·.2)) (fields'.map (.expr ·.2)) := by
  induction fields generalizing d fields₁ types with
  | nil =>
    cases run
    exact .done sound ⟨.nil, .nil⟩
  | cons f fields ih =>
    obtain ⟨label, e⟩ := f
    rw [List.forall_mem_cons] at h
    rw [checkRecord] at run
    obtain ⟨_, s, type, run⟩ := CheckM.bind_eq.1 run
    obtain ⟨e₁, _, s', head, run⟩ := CheckM.andThen_eq_ok.1 run
    obtain ⟨fields₁, _, _, rest, ⟨⟩⟩ := CheckM.andThen_eq_ok.1 run
    rw [rereadFields, List.map_cons, checkRecord]
    refine .bind (sound.declaredOrFresh type) ?_
    rintro d₁ t' g₁ rfl tie
    refine .andThen (h.1 g₁.sound tie head) ?_
    rintro d₂ e' _ g₂ rfl first
    refine .andThen (ih h.2 g₂.sound rest) ?_
    rintro d₃ fields' types' g₃ rfl ⟨ties, level⟩
    exact .done g₃.sound ⟨.cons ⟨rfl, first.tie.mono g₃⟩ ties, .cons (first.level.mono g₃) level⟩

lemma repeats_checkStruct (h : ∀ f ∈ fields, (Node.expr f.2).Repeats w known)
    (sound : d.Sound w known) {types : List (String × Ty)}
    (run : checkStruct fields d.first = ((fields₁, .ok types), s₁)) :
    d.Visits w known (checkStruct (rereadFields w fields₁)) s₁ fun d₁ fields' types' =>
      d₁.TieFields w types types' ∧
        d₁.LevelAll w (fields₁.map (.expr ·.2)) (fields'.map (.expr ·.2)) := by
  induction fields generalizing d fields₁ types with
  | nil =>
    cases run
    exact .done sound ⟨.nil, .nil⟩
  | cons f fields ih =>
    obtain ⟨label, e⟩ := f
    rw [List.forall_mem_cons] at h
    rw [checkStruct] at run
    obtain ⟨_, s, type, run⟩ := CheckM.bind_eq.1 run
    obtain ⟨e₁, _, s', head, run⟩ := CheckM.andThen_eq_ok.1 run
    obtain ⟨fields₁, _, _, rest, ⟨⟩⟩ := CheckM.andThen_eq_ok.1 run
    rw [rereadFields, List.map_cons, checkStruct]
    refine .bind (sound.declaredOrFresh type) ?_
    rintro d₁ t' g₁ rfl tie
    refine .andThen (h.1 g₁.sound tie.set head) ?_
    rintro d₂ e' _ g₂ rfl first
    refine .andThen (ih h.2 g₂.sound rest) ?_
    rintro d₃ fields' types' g₃ rfl ⟨ties, level⟩
    exact .done g₃.sound
      ⟨.cons ⟨rfl, (tie.mono g₂).mono g₃⟩ ties, .cons (first.level.mono g₃) level⟩

lemma repeats_checkCompared {op : Comparison} {l r : Expr} (hl : (Node.expr l).Repeats w known)
    (hr : (Node.expr r).Repeats w known) (sound : d.Sound w known)
    (run : checkCompared op [l, r] d.first = ((es₁, .ok ()), s₁)) :
    es₁.length = 2 ∧ d.Visits w known (checkCompared op (Duo.reread w es₁)) s₁ fun d₁ es' _ =>
      d₁.LevelAll w (es₁.map .expr) (es'.map .expr) := by
  cases op with
  | equal | notEqual =>
    obtain ⟨_, s, fresh, run⟩ := CheckM.bind_eq.1 run
    obtain ⟨r₁, _, s', right, run⟩ := CheckM.andThen_eq_ok.1 run
    obtain ⟨l₁, _, _, left, ⟨⟩⟩ := CheckM.andThen_eq_ok.1 run
    refine ⟨rfl, .bind (sound.fresh fresh) ?_⟩
    rintro d₁ t' g₁ rfl tie
    refine .andThen (hr g₁.sound tie right) ?_
    rintro d₂ r' _ g₂ rfl second
    refine .andThen (hl g₂.sound second.tie left) ?_
    rintro d₃ l' _ g₃ rfl first
    exact .done g₃.sound (.cons first.level (.cons (second.level.mono g₃) .nil))
  | elementOf | notBelonging =>
    obtain ⟨_, s, fresh, run⟩ := CheckM.bind_eq.1 run
    obtain ⟨l₁, _, s', left, run⟩ := CheckM.andThen_eq_ok.1 run
    obtain ⟨r₁, _, _, right, ⟨⟩⟩ := CheckM.andThen_eq_ok.1 run
    refine ⟨rfl, .bind (sound.fresh fresh) ?_⟩
    rintro d₁ t' g₁ rfl tie
    refine .andThen (hl g₁.sound tie left) ?_
    rintro d₂ l' _ g₂ rfl first
    refine .andThen (hr g₂.sound first.tie.set right) ?_
    rintro d₃ r' _ g₃ rfl second
    exact .done g₃.sound (.cons (first.level.mono g₃) (.cons second.level .nil))
  | less | lessEqual | greater | greaterEqual =>
    obtain ⟨l₁, _, s', left, run⟩ := CheckM.andThen_eq_ok.1 run
    obtain ⟨r₁, _, _, right, ⟨⟩⟩ := CheckM.andThen_eq_ok.1 run
    refine ⟨rfl, .andThen (hl sound (Duo.tie_concrete rfl) left) ?_⟩
    rintro d₁ l' _ g₁ rfl first
    refine .andThen (hr g₁.sound (Duo.tie_concrete rfl) right) ?_
    rintro d₂ r' _ g₂ rfl second
    exact .done g₂.sound (.cons (first.level.mono g₂) (.cons second.level .nil))
  | inclusion | nonInclusion | strictInclusion | strictNonInclusion =>
    obtain ⟨_, s, fresh, run⟩ := CheckM.bind_eq.1 run
    obtain ⟨l₁, _, s', left, run⟩ := CheckM.andThen_eq_ok.1 run
    obtain ⟨r₁, _, _, right, ⟨⟩⟩ := CheckM.andThen_eq_ok.1 run
    refine ⟨rfl, .bind (sound.fresh fresh) ?_⟩
    rintro d₁ t' g₁ rfl tie
    refine .andThen (hl g₁.sound tie.set left) ?_
    rintro d₂ l' _ g₂ rfl first
    refine .andThen (hr g₂.sound first.tie right) ?_
    rintro d₃ r' _ g₃ rfl second
    exact .done g₃.sound (.cons (first.level.mono g₃) (.cons second.level .nil))

end Expr

lemma Pred.repeats_checkAll {ps ps₁ : List Pred} (h : ∀ p ∈ ps, (Node.pred p).Repeats w known)
    (sound : d.Sound w known) (run : checkAll ps d.first = ((ps₁, .ok ()), s₁)) :
    d.Visits w known (checkAll (ps₁.map (restamp w.reading))) s₁ fun d₁ ps' _ =>
      d₁.LevelAll w (ps₁.map .pred) (ps'.map .pred) := by
  induction ps generalizing d ps₁ with
  | nil =>
    cases run
    exact .done sound .nil
  | cons p ps ih =>
    rw [List.forall_mem_cons] at h
    rw [checkAll] at run
    obtain ⟨p₁, _, s, head, run⟩ := CheckM.andThen_eq_ok.1 run
    obtain ⟨ps₁, _, _, rest, ⟨⟩⟩ := CheckM.andThen_eq_ok.1 run
    rw [List.map_cons, checkAll]
    refine .andThen (h.1 sound (Duo.tie_concrete rfl) head) ?_
    rintro d₁ p' _ g rfl first
    refine .andThen (ih h.2 g.sound rest) ?_
    rintro d₂ ps' _ g₂ rfl level
    exact .done g₂.sound (.cons (first.level.mono g₂) level)

/-! ## Expressions. -/

/-- The second check of an expression follows the first if that of its parts does. An operator without
operands has none. -/
lemma Expr.repeats_of_children {e : Expr} (applied : (Node.expr e).WellApplied)
    (ih : ∀ c ∈ e.children, c.Repeats w known) : (Node.expr e).Repeats w known := by
  intro d t t' u e₁ s₁ h he run
  cases e with
  | identifier n decl name =>
    obtain ⟨found, s, type, run⟩ := CheckM.bind_eq.1 run
    obtain rfl : e₁ = .identifier (n.withTy u) decl name := eq_of_settle run
    rw [restamp_identifier, check]
    refine .bind (h.identifierType type) ?_
    rintro d₁ found' g rfl tie
    exact g.sound.settleExpr (he.mono g) tie run .nil
  | integer n value =>
    obtain rfl : e₁ = .integer (n.withTy u) value := eq_of_settle run
    exact h.settleExpr he (Duo.tie_concrete rfl) run .nil
  | real n digits =>
    obtain rfl : e₁ = .real (n.withTy u) digits := eq_of_settle run
    exact h.settleExpr he (Duo.tie_concrete rfl) run .nil
  | string n value =>
    obtain rfl : e₁ = .string (n.withTy u) value := eq_of_settle run
    exact h.settleExpr he (Duo.tie_concrete rfl) run .nil
  | apply n op args =>
    have parts (a : Expr) (ha : a ∈ args) : (Node.expr a).Repeats w known :=
      ih _ (List.mem_map.2 ⟨a, ha, rfl⟩)
    have bare (params : Nat) (shape : Shape) (rule : op.rule = .constant params shape) : args = [] :=
      applied (Operator.mem_nullary_iff.2 (by rw [Operator.isNullary, rule]))
    have walked (a : Expr) (ha : a ∈ args) : (Node.expr a).Walked := (Node.expr a).walked
    rw [check] at run
    obtain ⟨es, rfl, echo⟩ := h.operator he ⟨yields_checkForward walked,
      yields_checkBackward walked, yields_checkChain walked, yields_checkApart walked,
      yields_checkCall walked _⟩ (repeats_walks parts _
      fun es => (apply (n.withTy u) (w.reading.op (n.withTy u) op) (Duo.reread w es)).site) bare run
    rw [restamp_apply, check]
    exact echo
  | aggregate n op bound pred body =>
    simp only [children, List.forall_mem_cons] at ih
    rw [check] at run
    obtain ⟨_, s, decl, run⟩ := CheckM.bind_eq.1 run
    obtain ⟨pred₁, _, s, cond, run⟩ := CheckM.andThen_eq_ok.1 run
    obtain ⟨found, s, type, run⟩ := CheckM.bind_eq.1 run
    obtain ⟨_, s, uni, run⟩ := CheckM.orFail_eq_ok.1 run
    obtain ⟨body₁, _, _, head, ⟨⟩⟩ := CheckM.andThen_eq_ok.1 run
    rw [restamp_aggregate, check]
    refine .bind (h.declare decl) ?_
    rintro d₁ _ g₁ rfl -
    refine .andThen (ih.1 g₁.sound (Duo.tie_concrete rfl) cond) ?_
    rintro d₂ pred' _ g₂ rfl first
    refine .bind (g₂.sound.aggregateType type) ?_
    rintro d₃ found' g₃ rfl tie
    refine .orFail (g₃.sound.unifyAt (((he.mono g₁).mono g₂).mono g₃) tie uni _) ?_
    rintro d₄ t' g₄ rfl ⟨tie, -⟩
    refine .andThen (ih.2.1 g₄.sound tie head) ?_
    rintro d₅ body' _ g₅ rfl second
    have first := first.level.mono (g₃.trans (g₄.trans g₅))
    exact .done g₅.sound
      ⟨tie.mono g₅, .expr rfl rfl (tie.mono g₅) (.cons first (.cons second.level .nil))⟩
  | comprehension n bound pred =>
    simp only [children, List.forall_mem_cons] at ih
    rw [check] at run
    obtain ⟨_, s, decl, run⟩ := CheckM.bind_eq.1 run
    obtain ⟨pred₁, _, s, cond, run⟩ := CheckM.andThen_eq_ok.1 run
    obtain ⟨tuple, s, types, run⟩ := CheckM.orFail_eq_ok.1 run
    obtain rfl : e₁ = .comprehension (n.withTy u) bound pred₁ := eq_of_settle run
    rw [restamp_comprehension, check]
    refine .bind (h.declare decl) ?_
    rintro d₁ _ g₁ rfl -
    refine .andThen (ih.1 g₁.sound (Duo.tie_concrete rfl) cond) ?_
    rintro d₂ pred' _ g₂ rfl first
    refine .orFail (g₂.sound.boundTuple types _) ?_
    rintro d₃ tuple' g₃ rfl tie
    exact g₃.sound.settleExpr (((he.mono g₁).mono g₂).mono g₃) tie.set run
      (.cons (first.level.mono g₃) .nil)
  | lambda n bound pred body =>
    simp only [children, List.forall_mem_cons] at ih
    rw [check] at run
    obtain ⟨_, s, decl, run⟩ := CheckM.bind_eq.1 run
    obtain ⟨pred₁, _, s, cond, run⟩ := CheckM.andThen_eq_ok.1 run
    obtain ⟨tuple, s, types, run⟩ := CheckM.orFail_eq_ok.1 run
    obtain ⟨result, s, fresh, run⟩ := CheckM.bind_eq.1 run
    obtain ⟨body₁, _, s, head, run⟩ := CheckM.andThen_eq_ok.1 run
    obtain rfl : e₁ = .lambda (n.withTy u) bound pred₁ body₁ := eq_of_settle run
    rw [restamp_lambda, check]
    refine .bind (h.declare decl) ?_
    rintro d₁ _ g₁ rfl -
    refine .andThen (ih.1 g₁.sound (Duo.tie_concrete rfl) cond) ?_
    rintro d₂ pred' _ g₂ rfl first
    refine .orFail (g₂.sound.boundTuple types _) ?_
    rintro d₃ tuple' g₃ rfl domain
    refine .bind (g₃.sound.fresh fresh) ?_
    rintro d₄ result' g₄ rfl tie
    refine .andThen (ih.2.1 g₄.sound tie head) ?_
    rintro d₅ body' _ g₅ rfl second
    have rest := g₃.trans (g₄.trans g₅)
    exact g₅.sound.settleExpr (he.mono (g₁.trans (g₂.trans rest)))
      ((domain.mono (g₄.trans g₅)).relation second.tie) run
      (.cons (first.level.mono rest) (.cons second.level .nil))
  | ite n cond yes no =>
    simp only [children, List.forall_mem_cons] at ih
    rw [check] at run
    obtain ⟨cond₁, _, s, head, run⟩ := CheckM.andThen_eq_ok.1 run
    obtain ⟨result, s, fresh, run⟩ := CheckM.bind_eq.1 run
    obtain ⟨yes₁, _, s, left, run⟩ := CheckM.andThen_eq_ok.1 run
    obtain ⟨no₁, _, s, right, run⟩ := CheckM.andThen_eq_ok.1 run
    obtain rfl : e₁ = .ite (n.withTy u) cond₁ yes₁ no₁ := eq_of_settle run
    rw [restamp_ite, check]
    refine .andThen (ih.1 h (Duo.tie_concrete rfl) head) ?_
    rintro d₁ cond' _ g₁ rfl first
    refine .bind (g₁.sound.fresh fresh) ?_
    rintro d₂ result' g₂ rfl tie
    refine .andThen (ih.2.1 g₂.sound tie left) ?_
    rintro d₃ yes' _ g₃ rfl second
    refine .andThen (ih.2.2.1 g₃.sound second.tie right) ?_
    rintro d₄ no' _ g₄ rfl third
    have rest := g₂.trans (g₃.trans g₄)
    exact g₄.sound.settleExpr (he.mono (g₁.trans rest)) third.tie run
      (.cons (first.level.mono rest) (.cons (second.level.mono g₄) (.cons third.level .nil)))
  | letIn n bound pred body =>
    simp only [children, List.forall_mem_cons] at ih
    rw [check] at run
    obtain ⟨_, s, decl, run⟩ := CheckM.bind_eq.1 run
    obtain ⟨pred₁, _, s, cond, run⟩ := CheckM.andThen_eq_ok.1 run
    obtain ⟨result, s, fresh, run⟩ := CheckM.bind_eq.1 run
    obtain ⟨body₁, _, s, head, run⟩ := CheckM.andThen_eq_ok.1 run
    obtain rfl : e₁ = .letIn (n.withTy u) bound pred₁ body₁ := eq_of_settle run
    rw [restamp_letIn, check]
    refine .bind (h.declare decl) ?_
    rintro d₁ _ g₁ rfl -
    refine .andThen (ih.1 g₁.sound (Duo.tie_concrete rfl) cond) ?_
    rintro d₂ pred' _ g₂ rfl first
    refine .bind (g₂.sound.fresh fresh) ?_
    rintro d₃ result' g₃ rfl tie
    refine .andThen (ih.2.1 g₃.sound tie head) ?_
    rintro d₄ body' _ g₄ rfl second
    have rest := g₃.trans g₄
    exact g₄.sound.settleExpr (he.mono (g₁.trans (g₂.trans rest))) second.tie run
      (.cons (first.level.mono rest) (.cons second.level .nil))
  | record n fields =>
    have values (f : FieldLabel × Expr) (hf : f ∈ fields) : (Node.expr f.2).Repeats w known :=
      ih _ (List.mem_map.2 ⟨f, hf, rfl⟩)
    rw [check] at run
    obtain ⟨fields₁, types, s, walk, run⟩ := CheckM.andThen_eq_ok.1 run
    obtain rfl : e₁ = .record (n.withTy u) fields₁ := eq_of_settle run
    rw [restamp_record, check]
    refine .andThen (repeats_checkRecord values h walk) ?_
    rintro d₁ fields' types' g rfl ⟨ties, level⟩
    exact g.sound.settleExpr (he.mono g) ties.record run level
  | struct n fields =>
    have values (f : FieldLabel × Expr) (hf : f ∈ fields) : (Node.expr f.2).Repeats w known :=
      ih _ (List.mem_map.2 ⟨f, hf, rfl⟩)
    rw [check] at run
    obtain ⟨fields₁, types, s, walk, run⟩ := CheckM.andThen_eq_ok.1 run
    obtain rfl : e₁ = .struct (n.withTy u) fields₁ := eq_of_settle run
    rw [restamp_struct, check]
    refine .andThen (repeats_checkStruct values h walk) ?_
    rintro d₁ fields' types' g rfl ⟨ties, level⟩
    exact g.sound.settleExpr (he.mono g) ties.record.set run level
  | field n target name =>
    simp only [children, List.forall_mem_cons] at ih
    rw [check] at run
    obtain ⟨record, s, fresh, run⟩ := CheckM.bind_eq.1 run
    obtain ⟨target₁, r, s, walk, run⟩ := CheckM.andThen_eq_ok.1 run
    obtain ⟨_, _, ⟨⟩, run⟩ := CheckM.bind_eq.1 run
    obtain ⟨fields, found, head, lookup, run⟩ : ∃ fields found,
        s.unifier.store.head? r = some (.record fields) ∧ Ty.field? fields name = some found ∧
          (Expr.field n target₁ name).settle t found s = ((e₁, .ok u), s₁) := by
      generalize s.unifier.store.head? r = head at run ⊢
      obtain _ | x := head
      · cases run
      cases x with
      | record fields =>
        cases lookup : Ty.field? fields name with
        | none =>
          simp only [lookup] at run
          obtain ⟨_, _, -, failed⟩ := CheckM.orFail_eq_ok.1 run
          cases failed
        | some found =>
          simp only [lookup] at run
          exact ⟨fields, found, rfl, lookup, run⟩
      | _ =>
        obtain ⟨_, _, -, failed⟩ := CheckM.orFail_eq_ok.1 run
        cases failed
    obtain rfl : e₁ = .field (n.withTy u) target₁ name := eq_of_settle run
    rw [restamp_field, check]
    refine .bind (h.fresh fresh) ?_
    rintro d₁ record' g₁ rfl tie
    refine .andThen (ih.1 g₁.sound tie walk) ?_
    rintro d₂ target' r' g₂ rfl first
    obtain ⟨found', tie, look⟩ := g₂.sound.exists_field first.tie head lookup
    have parts : d₂.LevelAll w (field n target₁ name).children
      (field (n.withTy u) target' name).children := .cons first.level .nil
    refine (g₂.sound.settleExpr ((he.mono g₁).mono g₂) tie run parts).of_run_eq fun m => ?_
    obtain ⟨fields', head', lookup'⟩ := look m
    symm
    refine CheckM.bind_eq.2 ⟨d₂.second, d₂.second, rfl, ?_⟩
    simp only [head', lookup', World.reading_note]
  | bool n pred =>
    simp only [children, List.forall_mem_cons] at ih
    rw [check] at run
    obtain ⟨pred₁, _, s, walk, run⟩ := CheckM.andThen_eq_ok.1 run
    obtain rfl : e₁ = .bool (n.withTy u) pred₁ := eq_of_settle run
    rw [restamp_bool, check]
    refine .andThen (ih.1 h (Duo.tie_concrete rfl) walk) ?_
    rintro d₁ pred' _ g rfl first
    exact g.sound.settleExpr (he.mono g) (Duo.tie_concrete rfl) run (.cons first.level .nil)

/-! ## Predicates. -/

/-- The second check of a predicate follows the first if that of its parts does. -/
lemma Pred.repeats_of_children {p : Pred} (ih : ∀ c ∈ p.children, c.Repeats w known) :
    (Node.pred p).Repeats w known := by
  intro d t t' u p₁ s₁ h he run
  cases p with
  | connective n op args =>
    have parts (a : Pred) (ha : a ∈ args) : (Node.pred a).Repeats w known :=
      ih _ (List.mem_map.2 ⟨a, ha, rfl⟩)
    rw [check] at run
    obtain ⟨_, s, uni, run⟩ := CheckM.orFail_eq_ok.1 run
    obtain ⟨args₁, _, _, walk, ⟨⟩⟩ := CheckM.andThen_eq_ok.1 run
    rw [restamp_connective, check]
    refine .orFail (h.unifyAt he (Duo.tie_concrete rfl) uni _) ?_
    rintro d₁ t' g rfl ⟨tie, -⟩
    refine .andThen (repeats_checkAll parts g.sound walk) ?_
    rintro d₂ args' _ g₂ rfl level
    exact .done g₂.sound ⟨tie.mono g₂, .pred rfl rfl (tie.mono g₂) level⟩
  | comparison n op args =>
    rw [check] at run
    obtain ⟨_, s, uni, run⟩ := CheckM.orFail_eq_ok.1 run
    split at run
    · rename_i len
      obtain ⟨l, r, rfl⟩ := List.length_eq_two.1 len
      simp only [children, List.map_cons, List.forall_mem_cons] at ih
      obtain ⟨args₁, _, _, walk, ⟨⟩⟩ := CheckM.andThen_eq_ok.1 run
      rw [restamp_comparison, check]
      refine .orFail (h.unifyAt he (Duo.tie_concrete rfl) uni _) ?_
      rintro d₁ t' g rfl ⟨tie, -⟩
      obtain ⟨len, echo⟩ := Expr.repeats_checkCompared ih.1 ih.2.1 g.sound walk
      rw [if_pos (by simpa using len)]
      refine .andThen echo ?_
      rintro d₂ args' _ g₂ rfl level
      exact .done g₂.sound ⟨tie.mono g₂, .pred rfl rfl (tie.mono g₂) level⟩
    · cases run
  | identifier n decl name =>
    obtain ⟨found, s, type, run⟩ := CheckM.bind_eq.1 run
    obtain rfl : p₁ = .identifier (n.withTy u) decl name := eq_of_settle run
    rw [restamp_identifier, check]
    refine .bind (h.identifierType type) ?_
    rintro d₁ found' g rfl tie
    exact g.sound.settlePred (he.mono g) tie run .nil
  | quantified n op bound pred =>
    simp only [children, List.forall_mem_cons] at ih
    rw [check] at run
    obtain ⟨_, s, decl, run⟩ := CheckM.bind_eq.1 run
    obtain ⟨pred₁, _, s, walk, run⟩ := CheckM.andThen_eq_ok.1 run
    obtain rfl : p₁ = .quantified (n.withTy u) op bound pred₁ := eq_of_settle run
    rw [restamp_quantified, check]
    refine .bind (h.declare decl) ?_
    rintro d₁ _ g₁ rfl -
    refine .andThen (ih.1 g₁.sound (Duo.tie_concrete rfl) walk) ?_
    rintro d₂ pred' _ g₂ rfl first
    exact g₂.sound.settlePred ((he.mono g₁).mono g₂) (Duo.tie_concrete rfl) run
      (.cons first.level .nil)
  | ite n cond yes no =>
    simp only [children, List.forall_mem_cons] at ih
    rw [check] at run
    obtain ⟨cond₁, _, s, head, run⟩ := CheckM.andThen_eq_ok.1 run
    obtain ⟨yes₁, _, s, left, run⟩ := CheckM.andThen_eq_ok.1 run
    obtain ⟨no₁, _, s, right, run⟩ := CheckM.andThen_eq_ok.1 run
    obtain rfl : p₁ = .ite (n.withTy u) cond₁ yes₁ no₁ := eq_of_settle run
    rw [restamp_ite, check]
    refine .andThen (ih.1 h (Duo.tie_concrete rfl) head) ?_
    rintro d₁ cond' _ g₁ rfl first
    refine .andThen (ih.2.1 g₁.sound (Duo.tie_concrete rfl) left) ?_
    rintro d₂ yes' _ g₂ rfl second
    refine .andThen (ih.2.2.1 g₂.sound (Duo.tie_concrete rfl) right) ?_
    rintro d₃ no' _ g₃ rfl third
    exact g₃.sound.settlePred (((he.mono g₁).mono g₂).mono g₃) (Duo.tie_concrete rfl) run
      (.cons ((first.level.mono g₂).mono g₃) (.cons (second.level.mono g₃) (.cons third.level .nil)))
  | letIn n bound defs body =>
    simp only [children, List.forall_mem_cons] at ih
    rw [check] at run
    obtain ⟨_, s, decl, run⟩ := CheckM.bind_eq.1 run
    obtain ⟨defs₁, _, s, head, run⟩ := CheckM.andThen_eq_ok.1 run
    obtain ⟨body₁, _, s, rest, run⟩ := CheckM.andThen_eq_ok.1 run
    obtain rfl : p₁ = .letIn (n.withTy u) bound defs₁ body₁ := eq_of_settle run
    rw [restamp_letIn, check]
    refine .bind (h.declare decl) ?_
    rintro d₁ _ g₁ rfl -
    refine .andThen (ih.1 g₁.sound (Duo.tie_concrete rfl) head) ?_
    rintro d₂ defs' _ g₂ rfl first
    refine .andThen (ih.2.1 g₂.sound (Duo.tie_concrete rfl) rest) ?_
    rintro d₃ body' _ g₃ rfl second
    exact g₃.sound.settlePred (((he.mono g₁).mono g₂).mono g₃) (Duo.tie_concrete rfl) run
      (.cons (first.level.mono g₃) (.cons second.level .nil))

end BMethod
