import BMethod.Proofs.Store.Narrow
import BMethod.Unifier.Unify

/-!
# Runs of unification

`Run` states what unification does as a relation between the store before and the store after, with
one rule for each way that a step can go. It has three stages, since a step first looks through
bindings, then compares what it finds, and in a record goes on field by field. On a tidy store the
function runs by these rules (`runsBy_unifyWithin`), and all that is proved of unification is proved by
induction on them. The first such result is that a run grows the store (`Run.grows`), and narrows it
where there are no ambiguous types (`Run.narrows`).
-/

namespace BMethod

/-- The type has neither parts nor variables. -/
def Ty.IsAtom : Ty → Prop
  | .integer | .bool | .string | .real | .enumerated .. | .deferred .. => True
  | _ => False

namespace Store

open Relation

/-- What unification ends with. -/
abbrev Outcome := Except (Halt UnifyError) Ty

/-- Whether a step stands before any two types, before two heads, or before the fields of two
records. -/
inductive Stage where
  | types | heads | fields
  deriving DecidableEq

/-- What a variable with a cell asks for when it is bound to a type: an equation at most. -/
inductive Asks : Cell → Ty → Option (Ty × Ty) → Prop where
  | free {t} : Asks .free t none
  | integer {e} : Asks (.setOrInteger e) .integer none
  | set {e t} : Asks (.setOrInteger e) (.set t) (some (e, t))
  | product {l r} : Asks (.integerOrPairs l r) .integer none
  | pairs {l r t} : Asks (.integerOrPairs l r) (.set t) (some (t, .couple l r))

/-- A cell awaits the choice between integers and sets. -/
inductive Awaits : Cell → Prop where
  | set {e} : Awaits (.setOrInteger e)
  | pairs {l r} : Awaits (.integerOrPairs l r)

lemma Awaits.unbound {c : Cell} (h : Awaits c) : c.Unbound := by
  cases h <;> exact nofun

/-- Which of two variables is bound to the other, and which equation follows from their cells. -/
inductive Joins (s : Store) (a b : Nat) : Nat → Nat → Option (Stage × Ty × Ty) → Prop where
  | into : s.cell a = .free → (s.cell b).Unbound → Joins s a b a b none
  | from : Awaits (s.cell a) → s.cell b = .free → Joins s a b b a none
  | sets {x y} : s.cell a = .setOrInteger x → s.cell b = .setOrInteger y →
    Joins s a b a b (some (.types, x, y))
  | setPairs {e l r} : s.cell a = .setOrInteger e → s.cell b = .integerOrPairs l r →
    Joins s a b a b (some (.types, e, .couple l r))
  | pairsSet {e l r} : s.cell a = .integerOrPairs l r → s.cell b = .setOrInteger e →
    Joins s a b b a (some (.types, e, .couple l r))
  | pairs {x y z w} : s.cell a = .integerOrPairs x y → s.cell b = .integerOrPairs z w →
    Joins s a b a b (some (.heads, .couple x y, .couple z w))

/-- What is met in place of a head: an ambiguous type becomes a new variable that awaits the choice. -/
inductive Meets (s : Store) : Ty → Ty → Store → Prop where
  | same {t} : (∀ e, t ≠ .setOrInteger e) → (∀ l r, t ≠ .integerOrPairs l r) → Meets s t t s
  | set {e} : Meets s (.setOrInteger e) (.var s.cells.size) (s.allocate (.setOrInteger e)).2
  | pairs {l r} :
    Meets s (.integerOrPairs l r) (.var s.cells.size) (s.allocate (.integerOrPairs l r)).2

/-- `Run stage n s l r out s'`: unifying `l` and `r` in `s`, at most `n` steps down, ends with `out`
and leaves `s'`. -/
inductive Run : Stage → Nat → Store → Ty → Ty → Outcome → Store → Prop where
  | exhausted {s l r} :
    Run .types 0 s l r (.error .divergence) s
  | enter {n s l r l' r' a b s₁ s₂ out s'} :
    s.head? l = some l' → Meets s l' a s₁ → s₁.head? r = some r' → Meets s₁ r' b s₂ →
    Run .heads n s₂ a b out s' →
    Run .types (n + 1) s l r out s'
  -- Two variables.
  | self {n s v} :
    Run .heads n s (.var v) (.var v) (.ok (.var v)) s
  | entangled {n s a b e} :
    a ≠ b → (s.cell a).Unbound → (s.cell b).Unbound → s.Entangled a b →
    Run .heads n s (.var a) (.var b) (.error (.error e)) s
  | join {n s a b x y} :
    a ≠ b → ¬ s.Entangled a b → Joins s a b x y none →
    Run .heads n s (.var a) (.var b) (.ok (.var y)) (s.assign x (.bound (.var y)))
  | joinThen {n s a b x y stage p q out s'} :
    a ≠ b → ¬ s.Entangled a b → Joins s a b x y (some (stage, p, q)) →
    Run stage n (s.assign x (.bound (.var y))) p q out s' →
    Run .heads n s (.var a) (.var b) (out.map fun _ => .var y) s'
  -- A variable and another type.
  | flip {n s v t out s'} :
    (∀ w, t ≠ .var w) →
    Run .heads n s (.var v) t out s' →
    Run .heads n s t (.var v) out s'
  | occurs {n s v t e} :
    (∀ w, t ≠ .var w) → (∃ w ∈ t.vars, s.Reaches w v) →
    Run .heads n s (.var v) t (.error (.error e)) s
  | refuse {n s v t e} :
    Awaits (s.cell v) → t ≠ .integer → (∀ u, t ≠ .set u) → (∀ w, t ≠ .var w) →
    Run .heads n s (.var v) t (.error (.error e)) s
  | bind {n s v t} :
    (∀ w, t ≠ .var w) → (¬ ∃ w ∈ t.vars, s.Reaches w v) → Asks (s.cell v) t none →
    Run .heads n s (.var v) t (.ok t) (s.assign v (.bound t))
  | bindThen {n s v t p q u s'} :
    (∀ w, t ≠ .var w) → (¬ ∃ w ∈ t.vars, s.Reaches w v) → Asks (s.cell v) t (some (p, q)) →
    Run .types n s p q (.ok u) s' →
    Run .heads n s (.var v) t (.ok t) (s'.assign v (.bound t))
  | bindFails {n s v t p q e s'} :
    (∀ w, t ≠ .var w) → (¬ ∃ w ∈ t.vars, s.Reaches w v) → Asks (s.cell v) t (some (p, q)) →
    Run .types n s p q (.error e) s' →
    Run .heads n s (.var v) t (.error e) s'
  -- Two types that are no variables.
  | leaf {n s l r} :
    l.IsAtom → (∀ σ, l.eval σ = r.eval σ) →
    Run .heads n s l r (.ok l) s
  | clash {n s l r e} :
    (∀ σ, l.eval σ ≠ r.eval σ) →
    Run .heads n s l r (.error (.error e)) s
  | set {n s a b out s'} :
    Run .types n s a b out s' →
    Run .heads n s (.set a) (.set b) (out.map .set) s'
  | couple {n s a b c d x s' out s''} :
    Run .types n s a c (.ok x) s' →
    Run .types n s' b d out s'' →
    Run .heads n s (.couple a b) (.couple c d) (out.map (.couple x)) s''
  | coupleFails {n s a b c d e s'} :
    Run .types n s a c (.error e) s' →
    Run .heads n s (.couple a b) (.couple c d) (.error e) s'
  | record {n s as bs out s'} :
    Run .fields n s (.record as) (.record bs) out s' →
    Run .heads n s (.record as) (.record bs) out s'
  -- Fields.
  | nil {n s} :
    Run .fields n s (.record []) (.record []) (.ok (.record [])) s
  | cons {n s a t as u bs x cs s' s''} :
    Run .types n s t u (.ok x) s' →
    Run .fields n s' (.record as) (.record bs) (.ok (.record cs)) s'' →
    Run .fields n s (.record ((a, t) :: as)) (.record ((a, u) :: bs)) (.ok (.record ((a, x) :: cs)))
      s''
  | consFails {n s a t as u bs e s'} :
    Run .types n s t u (.error e) s' →
    Run .fields n s (.record ((a, t) :: as)) (.record ((a, u) :: bs)) (.error e) s'
  | consRestFails {n s a t as u bs x e s' s''} :
    Run .types n s t u (.ok x) s' →
    Run .fields n s' (.record as) (.record bs) (.error e) s'' →
    Run .fields n s (.record ((a, t) :: as)) (.record ((a, u) :: bs)) (.error e) s''

/-- Without ambiguous types a type is met as it is. -/
lemma Meets.of_scoped {s s' : Store} {t u : Ty} {k : Nat} (h : Meets s t u s') (ht : t.Scoped k) :
    u = t ∧ s' = s := by
  cases h with
  | same => exact ⟨rfl, rfl⟩
  | set | pairs => exact ht.elim

/-- What is met is no ambiguous type. -/
lemma Meets.definite {s s' : Store} {t u : Ty} (h : Meets s t u s') :
    (∀ e, u ≠ .setOrInteger e) ∧ ∀ l r, u ≠ .integerOrPairs l r := by
  cases h with
  | same hs hp => exact ⟨hs, hp⟩
  | set | pairs => exact ⟨nofun, nofun⟩

/-- A variable that is met in place of a head is not bound. -/
lemma Meets.unbound {s s' : Store} {x t u : Ty} (h : Meets s t u s') (e : s.head? x = some t) :
    ∀ v, u = .var v → (s'.cell v).Unbound := by
  rintro v rfl
  cases h with
  | same => exact unbound_of_head? e
  | set | pairs =>
    rw [cell_allocate, if_pos rfl]
    exact nofun

/-- Meeting a type leaves unbound what is unbound. -/
lemma Meets.cell_unbound {s s' : Store} {t u : Ty} (h : Meets s t u s') {v : Nat}
    (hv : (s.cell v).Unbound) : (s'.cell v).Unbound := by
  cases h with
  | same => exact hv
  | set | pairs =>
    rw [cell_allocate]
    split
    · exact nofun
    · exact hv

/-! ## What the rules name. -/

section

variable {amb : Prop} {s : Store} {C : Set Nat}

lemma Asks.unbound {c : Cell} {t : Ty} {d} (h : Asks c t d) : c.Unbound := by
  cases h <;> exact nofun

/-- An equation is asked for only by a cell that awaits a choice. -/
lemma Asks.awaits {c : Cell} {t : Ty} {e : Ty × Ty} (h : Asks c t (some e)) : Awaits c := by
  cases h with
  | set => exact .set
  | pairs => exact .pairs

/-- What holds of the types in the cell and of the type holds of the equation asked for. -/
lemma Asks.forall {Q : Ty → Prop} (set : ∀ t, Q (.set t) → Q t)
    (couple : ∀ l r, Q l → Q r → Q (.couple l r)) {c : Cell} {t p q : Ty}
    (h : Asks c t (some (p, q))) (hc : ∀ u ∈ c.contents, Q u) (ht : Q t) : Q p ∧ Q q := by
  cases h with
  | set => exact ⟨hc _ (by simp [Cell.contents]), set _ ht⟩
  | pairs =>
    refine ⟨set _ ht, couple _ _ ?_ ?_⟩ <;> exact hc _ (by simp [Cell.contents])

/-- The equation asked for is over the variables of the cell and of the type. -/
lemma Asks.over {k : Nat} {c : Cell} {t p q : Ty} (h : Asks c t (some (p, q)))
    (hc : ∀ u ∈ c.contents, u.Over k C) (ht : t.Over k C) : p.Over k C ∧ q.Over k C :=
  h.forall (fun _ => Ty.over_set.1) (fun _ _ hl hr => Ty.over_couple.2 ⟨hl, hr⟩) hc ht

/-- The equation avoids the variable: neither its cell nor the type leads to it. -/
lemma Asks.avoids {v : Nat} {t p q : Ty} (ask : Asks (s.cell v) t (some (p, q)))
    (tidy : s.Tidy amb) (cl : s.Closed C) (hv : v ∈ C) (ht : t.Inside amb s.cells.size C)
    (apart : ¬ ∃ w ∈ t.vars, s.Reaches w v) :
    t.Inside amb s.cells.size (C ∩ {w | ¬ s.Reaches w v}) ∧
      p.Inside amb s.cells.size (C ∩ {w | ¬ s.Reaches w v}) ∧
      q.Inside amb s.cells.size (C ∩ {w | ¬ s.Reaches w v}) := by
  have ht' : t.Inside amb s.cells.size (C ∩ {w | ¬ s.Reaches w v}) :=
    ht.subset fun w hw => ⟨(ht.1 w hw).2, fun reach => apart ⟨w, hw, reach⟩⟩
  refine ⟨ht', ask.forall (fun _ => Ty.inside_set.1) (fun _ _ hl hr => Ty.inside_couple.2 ⟨hl, hr⟩)
    (fun c hc => (tidy.inside cl hv hc).subset fun w hw => ?_) ht'⟩
  have e : s.Edge v w := Cell.mem_mentions.2 ⟨c, hc, hw⟩
  exact ⟨cl v hv w e, tidy.acyclic v w e⟩

/-- One of the two variables is bound to the other. -/
lemma Joins.sides {a b x y : Nat} {d} (h : Joins s a b x y d) :
    x = a ∧ y = b ∨ x = b ∧ y = a := by
  cases h <;> simp

lemma Joins.unbound {a b x y : Nat} {d} (h : Joins s a b x y d) :
    (s.cell x).Unbound ∧ (s.cell y).Unbound := by
  cases h with
  | into ha hb => exact ⟨fun t => by simp [ha], hb⟩
  | «from» ha hb =>
    refine ⟨fun t => by simp [hb], fun t e => ?_⟩
    rw [e] at ha
    cases ha
  | sets ha hb => exact ⟨fun t => by simp [ha], fun t => by simp [hb]⟩
  | setPairs ha hb => exact ⟨fun t => by simp [ha], fun t => by simp [hb]⟩
  | pairsSet ha hb => exact ⟨fun t => by simp [hb], fun t => by simp [ha]⟩
  | pairs ha hb => exact ⟨fun t => by simp [ha], fun t => by simp [hb]⟩

/-- An equation follows only if the variables await a choice. -/
lemma Joins.awaits {a b x y : Nat} {e : Stage × Ty × Ty} (h : Joins s a b x y (some e)) :
    Awaits (s.cell b) := by
  cases h with
  | sets _ hb | pairsSet _ hb => rw [hb]; exact .set
  | setPairs _ hb | pairs _ hb => rw [hb]; exact .pairs

/-- What holds of the types in the two cells holds of the equation that follows. -/
lemma Joins.forall {Q : Ty → Prop} (couple : ∀ l r, Q l → Q r → Q (.couple l r)) {a b x y : Nat}
    {stage : Stage} {p q : Ty} (h : Joins s a b x y (some (stage, p, q)))
    (ha : ∀ t ∈ (s.cell a).contents, Q t) (hb : ∀ t ∈ (s.cell b).contents, Q t) : Q p ∧ Q q := by
  cases h with
  | sets ea eb => exact ⟨ha _ (by simp [ea, Cell.contents]), hb _ (by simp [eb, Cell.contents])⟩
  | setPairs ea eb =>
    refine ⟨ha _ (by simp [ea, Cell.contents]), couple _ _ ?_ ?_⟩ <;>
      exact hb _ (by simp [eb, Cell.contents])
  | pairsSet ea eb =>
    refine ⟨hb _ (by simp [eb, Cell.contents]), couple _ _ ?_ ?_⟩ <;>
      exact ha _ (by simp [ea, Cell.contents])
  | pairs ea eb =>
    refine ⟨couple _ _ ?_ ?_, couple _ _ ?_ ?_⟩
    · exact ha _ (by simp [ea, Cell.contents])
    · exact ha _ (by simp [ea, Cell.contents])
    · exact hb _ (by simp [eb, Cell.contents])
    · exact hb _ (by simp [eb, Cell.contents])

/-- The equation that follows is over the variables of the two cells. -/
lemma Joins.over {k : Nat} {a b x y : Nat} {stage : Stage} {p q : Ty}
    (h : Joins s a b x y (some (stage, p, q))) (ha : ∀ t ∈ (s.cell a).contents, t.Over k C)
    (hb : ∀ t ∈ (s.cell b).contents, t.Over k C) : p.Over k C ∧ q.Over k C :=
  h.forall (fun _ _ hl hr => Ty.over_couple.2 ⟨hl, hr⟩) ha hb

/-- Joining variables that are not entangled closes no circle. -/
lemma Joins.apart {a b x y : Nat} {d} (h : Joins s a b x y d) (ne : a ≠ b)
    (apart : ¬ s.Entangled a b) : ¬ s.Reaches y x := by
  intro r
  obtain rfl | ⟨u, e, r⟩ := r.cases_head
  · obtain ⟨rfl, rfl⟩ | ⟨rfl, rfl⟩ := h.sides <;> exact ne rfl
  · obtain ⟨rfl, rfl⟩ | ⟨rfl, rfl⟩ := h.sides
    · exact apart (.inl ⟨u, e, r⟩)
    · exact apart (.inr ⟨u, e, r⟩)

/-- Joining two variables of a set is a binding in the set. -/
lemma Joins.writes {a b x y : Nat} {d} (h : Joins s a b x y d) (ne : a ≠ b)
    (apart : ¬ s.Entangled a b) (ha : a < s.cells.size ∧ a ∈ C) (hb : b < s.cells.size ∧ b ∈ C) :
    Writes amb C s (s.assign x (.bound (.var y))) := by
  have hx : x < s.cells.size ∧ x ∈ C := by obtain ⟨rfl, -⟩ | ⟨rfl, -⟩ := h.sides <;> assumption
  have hy : y < s.cells.size ∧ y ∈ C := by obtain ⟨-, rfl⟩ | ⟨-, rfl⟩ := h.sides <;> assumption
  refine .bind hx.2 hx.1 h.unbound.1 (Ty.inside_var.2 hy) fun w hw => ?_
  obtain rfl : w = y := by simpa [Ty.vars] using hw
  exact h.apart ne apart

/-- Joining two variables narrows the store. -/
lemma Joins.narrows {a b x y : Nat} {d} (h : Joins s a b x y d) (ne : a ≠ b)
    (apart : ¬ s.Entangled a b) (ha : a < s.cells.size ∧ a ∈ C) (hb : b < s.cells.size ∧ b ∈ C) :
    Narrows C s (s.assign x (.bound (.var y))) :=
  .single (h.writes ne apart ha hb)

/-- Meeting a type grows the store by one variable at most. -/
lemma Meets.grows {t u : Ty} {s' : Store} (h : Meets s t u s') (reg : s.Region amb C)
    (ht : t.Inside amb s.cells.size C) :
    Grows amb C s s' ∧ u.Inside amb s'.cells.size C := by
  cases h with
  | same => exact ⟨.refl, ht⟩
  | set =>
    rw [Ty.inside_setOrInteger] at ht
    have new := reg.fresh ht.1 _ le_rfl
    refine ⟨.single (.grow ht.1 new ?_), ?_⟩
    · simpa [Cell.contents] using ht.2
    · rw [Ty.inside_var, size_allocate]
      exact ⟨by omega, new⟩
  | pairs =>
    rw [Ty.inside_integerOrPairs] at ht
    have new := reg.fresh ht.1 _ le_rfl
    refine ⟨.single (.grow ht.1 new ?_), ?_⟩
    · simpa [Cell.contents] using ht.2
    · rw [Ty.inside_var, size_allocate]
      exact ⟨by omega, new⟩

end

lemma map_eq_ok {f : Ty → Ty} {out : Outcome} {t : Ty} (h : out.map f = .ok t) :
    ∃ u, out = .ok u ∧ f u = t := by
  cases out with
  | error e => cases h
  | ok u => exact ⟨u, rfl, by simpa [Except.map] using h⟩

lemma map_eq_error {f : Ty → Ty} {out : Outcome} {e : Halt UnifyError}
    (h : out.map f = .error e) : out = .error e := by
  cases out with
  | error e' => simpa [Except.map] using h
  | ok u => cases h

/-! ## Runs grow the store. -/

/-- A run on types inside a region writes in the region, and ends with a type inside it. -/
lemma Run.grows {amb : Prop} {stage n s l r out s'} (run : Run stage n s l r out s')
    (tidy : s.Tidy amb) {C : Set Nat} (reg : s.Region amb C) (hl : l.Inside amb s.cells.size C)
    (hr : r.Inside amb s.cells.size C) :
    Grows amb C s s' ∧ ∀ t, out = .ok t → t.Inside amb s'.cells.size C := by
  induction run generalizing C with
  | exhausted => exact ⟨.refl, nofun⟩
  | enter el ml er mr _ ih =>
    obtain ⟨g, hl⟩ := ml.grows reg (tidy.inside_head? reg.closed el hl)
    have tidy := g.tidy tidy
    have reg := g.region reg
    obtain ⟨g', hr⟩ := mr.grows reg
      (tidy.inside_head? reg.closed er (hr.mono g.size_le subset_rfl))
    obtain ⟨g'', ok⟩ := ih (g'.tidy tidy) (g'.region reg) (hl.mono g'.size_le subset_rfl) hr
    exact ⟨(g.trans g').trans g'', ok⟩
  | self =>
    refine ⟨.refl, fun t e => ?_⟩
    cases e
    exact hl
  | entangled => exact ⟨.refl, nofun⟩
  | join ne apart j =>
    rw [Ty.inside_var] at hl hr
    have w : Writes amb C _ _ := j.writes ne apart hl hr
    refine ⟨.single w, fun t e => ?_⟩
    cases e
    obtain ⟨-, rfl⟩ | ⟨-, rfl⟩ := j.sides
    · exact (Ty.inside_var.2 hr).mono w.size_le subset_rfl
    · exact (Ty.inside_var.2 hl).mono w.size_le subset_rfl
  | @joinThen n s a b x y stage p q out s' ne apart j _ ih =>
    rw [Ty.inside_var] at hl hr
    have w : Writes amb C _ _ := j.writes ne apart hl hr
    obtain ⟨hp, hq⟩ := j.forall (fun _ _ hl hr => Ty.inside_couple.2 ⟨hl, hr⟩)
      (fun t ht => tidy.inside reg.closed hl.2 ht) (fun t ht => tidy.inside reg.closed hr.2 ht)
    have g := (ih (w.tidy tidy) (w.region reg) (hp.mono w.size_le subset_rfl)
      (hq.mono w.size_le subset_rfl)).1
    refine ⟨.head w g, fun t e => ?_⟩
    obtain ⟨_, _, rfl⟩ := map_eq_ok e
    have le := w.size_le.trans g.size_le
    obtain ⟨-, rfl⟩ | ⟨-, rfl⟩ := j.sides
    · exact (Ty.inside_var.2 hr).mono le subset_rfl
    · exact (Ty.inside_var.2 hl).mono le subset_rfl
  | flip _ _ ih => exact ih tidy reg hr hl
  | occurs => exact ⟨.refl, nofun⟩
  | refuse => exact ⟨.refl, nofun⟩
  | @bind n s v t nonvar apart ask =>
    rw [Ty.inside_var] at hl
    refine ⟨.single (.bind hl.2 hl.1 ask.unbound hr fun w hw reach => apart ⟨w, hw, reach⟩),
      fun t e => ?_⟩
    cases e
    rwa [size_assign hl.1]
  | @bindThen n s v t p q u s' nonvar apart ask _ ih =>
    rw [Ty.inside_var] at hl
    have reg' := reg.avoid hl.1
    obtain ⟨ht, hp, hq⟩ := ask.avoids tidy reg.closed hl.2 hr apart
    have g := (ih tidy reg' hp hq).1
    -- The equation on the alternatives stays where `v` is not reached, so `v` is bound only now, and
    -- still to a type that does not reach it.
    have hv : v ∉ C ∩ {w | ¬ s.Reaches w v} := fun h => h.2 .refl
    have lt := hl.1.trans_le g.size_le
    have le : t.Inside amb s'.cells.size C := hr.mono g.size_le subset_rfl
    refine ⟨.tail (g.mono Set.inter_subset_left) (.bind hl.2 lt ?_ le ?_), fun t e => ?_⟩
    · rw [g.cell_eq hv]
      exact ask.unbound
    · exact fun w hw reach => hv ((g.region reg').closed.reaches (ht.1 w hw).2 reach)
    · cases e
      rwa [size_assign lt]
  | @bindFails n s v t p q e s' nonvar apart ask _ ih =>
    rw [Ty.inside_var] at hl
    obtain ⟨-, hp, hq⟩ := ask.avoids tidy reg.closed hl.2 hr apart
    exact ⟨(ih tidy (reg.avoid hl.1) hp hq).1.mono Set.inter_subset_left, nofun⟩
  | leaf => exact ⟨.refl, fun t e => by cases e; exact hl⟩
  | clash => exact ⟨.refl, nofun⟩
  | set _ ih =>
    obtain ⟨g, ok⟩ := ih tidy reg (Ty.inside_set.1 hl) (Ty.inside_set.1 hr)
    refine ⟨g, fun t e => ?_⟩
    obtain ⟨u, hu, rfl⟩ := map_eq_ok e
    exact Ty.inside_set.2 (ok u hu)
  | couple _ _ ih ih' =>
    rw [Ty.inside_couple] at hl hr
    obtain ⟨g, ok⟩ := ih tidy reg hl.1 hr.1
    obtain ⟨g', ok'⟩ := ih' (g.tidy tidy) (g.region reg) (hl.2.mono g.size_le subset_rfl)
      (hr.2.mono g.size_le subset_rfl)
    refine ⟨g.trans g', fun t e => ?_⟩
    obtain ⟨u, hu, rfl⟩ := map_eq_ok e
    exact Ty.inside_couple.2 ⟨(ok _ rfl).mono g'.size_le subset_rfl, ok' u hu⟩
  | coupleFails _ ih =>
    rw [Ty.inside_couple] at hl hr
    exact ⟨(ih tidy reg hl.1 hr.1).1, nofun⟩
  | record _ ih => exact ih tidy reg hl hr
  | nil => exact ⟨.refl, fun t e => by cases e; exact hl⟩
  | cons _ _ ih ih' =>
    rw [Ty.inside_record, List.forall_mem_cons, ← Ty.inside_record] at hl hr
    obtain ⟨g, ok⟩ := ih tidy reg hl.1 hr.1
    obtain ⟨g', ok'⟩ := ih' (g.tidy tidy) (g.region reg) (hl.2.mono g.size_le subset_rfl)
      (hr.2.mono g.size_le subset_rfl)
    refine ⟨g.trans g', fun t e => ?_⟩
    cases e
    rw [Ty.inside_record, List.forall_mem_cons, ← Ty.inside_record]
    exact ⟨(ok _ rfl).mono g'.size_le subset_rfl, ok' _ rfl⟩
  | consFails _ ih =>
    rw [Ty.inside_record, List.forall_mem_cons] at hl hr
    exact ⟨(ih tidy reg hl.1 hr.1).1, nofun⟩
  | consRestFails _ _ ih ih' =>
    rw [Ty.inside_record, List.forall_mem_cons, ← Ty.inside_record] at hl hr
    obtain ⟨g, -⟩ := ih tidy reg hl.1 hr.1
    exact ⟨g.trans (ih' (g.tidy tidy) (g.region reg) (hl.2.mono g.size_le subset_rfl)
      (hr.2.mono g.size_le subset_rfl)).1, nofun⟩

/-- Without ambiguous types a run binds variables of the set only. -/
lemma Run.narrows {stage n s l r out s'} (run : Run stage n s l r out s') (wf : s.WellFormed)
    {C : Set Nat} (cl : s.Closed C) (hl : l.Over s.cells.size C) (hr : r.Over s.cells.size C) :
    Narrows C s s' ∧ ∀ t, out = .ok t → t.Over s.cells.size C := by
  obtain ⟨g, ok⟩ := run.grows wf.tidy cl.region (Ty.inside_false.2 hl) (Ty.inside_false.2 hr)
  refine ⟨g, fun t e => ?_⟩
  rw [← Narrows.size_eq g]
  exact Ty.inside_false.1 (ok t e)

end Store

end BMethod
