import BMethod.Proofs.Store.Alike

/-!
# Runs on alike stores

Two runs face each other if they begin on alike stores, with types that match in the one order or the
other (`Facing`). If one of them succeeds, the other goes through the same steps and succeeds as well,
and the stores stay alike (`Run.alike`). The proof follows the first run. Before two heads the second
run can not but do what the first does: the heads are of one form, the cells of unbound variables are
similar, and the occurs checks agree.
-/

namespace BMethod

open Relation

namespace Store

variable {s s' s₁ s₁' : Store} {C : Set Nat} {l r l' r' t t' : Ty} {stage : Stage} {n : Nat}
  {out : Outcome}

/-! ## How a run may go. -/

/-- A run may be read with the variable first. -/
lemma Run.unflip {v : Nat} (run : Run .heads n s t (.var v) out s') (nonvar : ∀ w, t ≠ .var w) :
    Run .heads n s (.var v) t out s' := by
  cases run with
  | flip _ run => exact run
  | clash differ => exact .clash fun σ e => differ σ e.symm
  | leaf atom e =>
    have := (e fun _ => .set .integer).symm
    cases t <;> first | exact atom.elim | simp [Ty.eval] at this
  | self | entangled | join | joinThen | occurs | refuse | bind | bindThen | bindFails =>
    exact absurd rfl (nonvar _)

/-- Unifying a variable with itself does nothing. -/
lemma Run.of_self {v : Nat} (run : Run .heads n s (.var v) (.var v) out s') :
    out = .ok (.var v) ∧ s' = s := by
  cases run with
  | self => exact ⟨rfl, rfl⟩
  | entangled ne | join ne | joinThen ne => exact absurd rfl ne
  | flip nonvar | occurs nonvar | refuse _ _ _ nonvar | bind nonvar | bindThen nonvar
  | bindFails nonvar => exact absurd rfl (nonvar _)
  | leaf atom => exact atom.elim
  | clash differ => exact absurd rfl (differ fun _ => .integer)

/-- Two variables that are not entangled are joined, and then the equation of their cells is unified. -/
lemma Run.of_vars {a b : Nat} (run : Run .heads n s (.var a) (.var b) out s') (ne : a ≠ b)
    (apart : ¬ s.Entangled a b) :
    ∃ x y d, Joins s a b x y d ∧
      (d = none ∧ out = .ok (.var y) ∧ s' = s.assign x (.bound (.var y)) ∨
        ∃ stage p q out₁, d = some (stage, p, q) ∧ out = out₁.map (fun _ => .var y) ∧
          Run stage n (s.assign x (.bound (.var y))) p q out₁ s') := by
  cases run with
  | self => exact absurd rfl ne
  | entangled _ _ _ tied => exact absurd tied apart
  | join _ _ j => exact ⟨_, _, _, j, .inl ⟨rfl, rfl, rfl⟩⟩
  | joinThen _ _ j run => exact ⟨_, _, _, j, .inr ⟨_, _, _, _, rfl, rfl, run⟩⟩
  | flip nonvar | occurs nonvar | refuse _ _ _ nonvar | bind nonvar | bindThen nonvar
  | bindFails nonvar => exact absurd rfl (nonvar _)
  | leaf atom => exact atom.elim
  | clash differ => exact absurd rfl (differ fun _ => .integer)

/-- A variable that does not occur in a type is refused the type, or it is bound after the equation
that its cell asks for was unified. -/
lemma Run.of_var {v : Nat} (run : Run .heads n s (.var v) t out s') (nonvar : ∀ w, t ≠ .var w)
    (apart : ¬ ∃ w ∈ t.vars, s.Reaches w v) :
    (Awaits (s.cell v) ∧ t ≠ .integer ∧ ∀ u, t ≠ .set u) ∨
      ∃ d, Asks (s.cell v) t d ∧
        (d = none ∧ out = .ok t ∧ s' = s.assign v (.bound t) ∨
          ∃ p q out₁ s₁, d = some (p, q) ∧ Run .types n s p q out₁ s₁ ∧
            (∀ u, out₁ = .ok u → out = .ok t ∧ s' = s₁.assign v (.bound t)) ∧
              ∀ e, out₁ = .error e → out = .error e) := by
  cases run with
  | self | entangled | join | joinThen | flip => exact absurd rfl (nonvar _)
  | occurs _ found => exact absurd found apart
  | refuse wait ni ns => exact .inl ⟨wait, ni, ns⟩
  | bind _ _ ask => exact .inr ⟨_, ask, .inl ⟨rfl, rfl, rfl⟩⟩
  | bindThen _ _ ask run =>
    exact .inr ⟨_, ask, .inr ⟨_, _, _, _, rfl, run, fun _ _ => ⟨rfl, rfl⟩, nofun⟩⟩
  | bindFails _ _ ask run => exact .inr ⟨_, ask, .inr ⟨_, _, _, _, rfl, run, nofun, fun _ e => e⟩⟩
  | leaf atom => exact atom.elim
  | clash differ =>
    obtain ⟨σ, e⟩ := Ty.exists_eval_eq (v := v) (t := t) fun hv => apart ⟨v, hv, .refl⟩
    exact absurd e (differ σ)

/-- Pairs that may have one value are unified half by half, and what fails fails the whole. -/
lemma Run.of_couples {a b c d : Ty} (run : Run .heads n s (.couple a b) (.couple c d) out s')
    (eq : ∃ σ, (Ty.couple a b).eval σ = (Ty.couple c d).eval σ) :
    ∃ out₁ s₁, Run .types n s a c out₁ s₁ ∧ (∀ e, out₁ = .error e → out = .error e) ∧
      ∀ x, out₁ = .ok x → ∃ out₂, Run .types n s₁ b d out₂ s' ∧ out = out₂.map (.couple x) := by
  cases run with
  | leaf atom => exact atom.elim
  | clash differ =>
    obtain ⟨σ, eq⟩ := eq
    exact absurd eq (differ σ)
  | couple run run₁ =>
    refine ⟨_, _, run, nofun, fun x e => ?_⟩
    cases e
    exact ⟨_, run₁, rfl⟩
  | coupleFails run => exact ⟨_, _, run, fun _ e => e, nofun⟩

/-- Fields are fields of records. -/
lemma Run.of_fields (run : Run .fields n s l r out s') :
    ∃ as bs, l = .record as ∧ r = .record bs := by
  cases run <;> exact ⟨_, _, rfl, rfl⟩

/-- Fields are unified from the first to the last, and what fails fails the whole. -/
lemma Run.of_cons {a b : String} {as bs : List (String × Ty)}
    (run : Run .fields n s (.record ((a, l) :: as)) (.record ((b, r) :: bs)) out s') :
    ∃ out₁ s₁, Run .types n s l r out₁ s₁ ∧ (∀ e, out₁ = .error e → out = .error e) ∧
      ∀ x, out₁ = .ok x → ∃ out₂, Run .fields n s₁ (.record as) (.record bs) out₂ s' ∧
        (∀ e, out₂ = .error e → out = .error e) ∧ ∀ y, out₂ = .ok y → ∃ z, out = .ok z := by
  cases run with
  | cons run run₁ =>
    exact ⟨_, _, run, nofun, fun _ _ => ⟨_, run₁, nofun, fun _ _ => ⟨_, rfl⟩⟩⟩
  | consFails run => exact ⟨_, _, run, fun _ e => e, nofun⟩
  | consRestFails run run₁ => exact ⟨_, _, run, nofun, fun _ _ => ⟨_, run₁, fun _ e => e, nofun⟩⟩

/-! ## What stands before a run. -/

/-- A stage stands before two types over a closed set. Variables that are heads are not bound. -/
structure Posed (stage : Stage) (C : Set Nat) (s : Store) (l r : Ty) : Prop where
  closed : s.Closed C
  left : l.Over s.cells.size C
  right : r.Over s.cells.size C
  heads : stage = .heads → ∀ v, l = .var v ∨ r = .var v → (s.cell v).Unbound

namespace Posed

lemma swap (pose : Posed stage C s l r) : Posed stage C s r l :=
  ⟨pose.closed, pose.right, pose.left, fun e v h => pose.heads e v h.symm⟩

lemma var {v : Nat} (pose : Posed .heads C s (.var v) r) :
    (s.cell v).Unbound ∧ v < s.cells.size ∧ v ∈ C :=
  ⟨pose.heads rfl v (.inl rfl), Ty.over_var.1 pose.left⟩

/-- A run from what stands before a stage narrows the store. -/
lemma run (pose : Posed stage C s l r) (wf : s.WellFormed) (run : Run stage n s l r out s₁) :
    Narrows C s s₁ :=
  (run.narrows wf pose.closed pose.left pose.right).1

/-- Looking through bindings changes nothing, and leads to heads that the types are identified with. -/
lemma enter {s₂ : Store} {l₁ r₁ a b : Ty} (pose : Posed stage C s l r) (wf : s.WellFormed)
    (el : s.head? l = some l₁) (ml : Meets s l₁ a s₁) (er : s₁.head? r = some r₁)
    (mr : Meets s₁ r₁ b s₂) :
    s₂ = s ∧ Posed .heads C s a b ∧ s.Identifies l a ∧ s.Identifies r b := by
  have ol := wf.over_head? pose.closed el pose.left
  obtain ⟨rfl, rfl⟩ := ml.of_scoped ol.1
  have or := wf.over_head? pose.closed er pose.right
  obtain ⟨rfl, rfl⟩ := mr.of_scoped or.1
  refine ⟨rfl, ⟨pose.closed, ol, or, fun _ v h => ?_⟩, .of_head? el, .of_head? er⟩
  obtain rfl | rfl := h
  · exact unbound_of_head? el
  · exact unbound_of_head? er

/-- What stands before a stage other than heads stands there after the store was narrowed. -/
lemma narrows (pose : Posed stage C s l r) (nar : Narrows C s s₁) (ne : stage ≠ .heads) :
    Posed stage C s₁ l r where
  closed := nar.closed pose.closed
  left := by
    rw [nar.size_eq]
    exact pose.left
  right := by
    rw [nar.size_eq]
    exact pose.right
  heads e := absurd e ne

lemma set (pose : Posed .heads C s (.set l) (.set r)) : Posed .types C s l r :=
  ⟨pose.closed, Ty.over_set.1 pose.left, Ty.over_set.1 pose.right, nofun⟩

lemma couple {a b c d : Ty} (pose : Posed .heads C s (.couple a b) (.couple c d)) :
    Posed .types C s a c ∧ Posed .types C s b d := by
  obtain ⟨ha, hb⟩ := Ty.over_couple.1 pose.left
  obtain ⟨hc, hd⟩ := Ty.over_couple.1 pose.right
  exact ⟨⟨pose.closed, ha, hc, nofun⟩, pose.closed, hb, hd, nofun⟩

lemma record {as bs : List (String × Ty)} (pose : Posed .heads C s (.record as) (.record bs)) :
    Posed .fields C s (.record as) (.record bs) :=
  ⟨pose.closed, pose.left, pose.right, nofun⟩

lemma cons {a b : String} {as bs : List (String × Ty)}
    (pose : Posed .fields C s (.record ((a, l) :: as)) (.record ((b, r) :: bs))) :
    Posed .types C s l r ∧ Posed .fields C s (.record as) (.record bs) := by
  obtain ⟨cl, hl, hr, -⟩ := pose
  rw [Ty.over_record, List.forall_mem_cons, ← Ty.over_record] at hl hr
  exact ⟨⟨cl, hl.1, hr.1, nofun⟩, cl, hl.2, hr.2, nofun⟩

end Posed

/-- The equation that a cell asks for stands where the variable is not found. -/
lemma Asks.posed {v : Nat} {p q : Ty} (ask : Asks (s.cell v) t (some (p, q))) (wf : s.WellFormed)
    (pose : Posed .heads C s (.var v) t) (apart : ¬ ∃ w ∈ t.vars, s.Reaches w v) :
    Posed .types (C ∩ {w | ¬ s.Reaches w v}) s p q := by
  obtain ⟨-, hp, hq⟩ :=
    ask.avoids wf.tidy pose.closed pose.var.2.2 (Ty.inside_false.2 pose.right) apart
  rw [Ty.inside_false] at hp hq
  exact ⟨pose.closed.inter (s.closed_not_reaching v), hp, hq, nofun⟩

/-- A cell that awaits a choice asks of the integers and of sets only. -/
lemma Asks.accepts {c : Cell} {d} (ask : Asks c t d) (wait : Awaits c) :
    t = .integer ∨ ∃ u, t = .set u := by
  cases ask with
  | free => cases wait
  | integer | product => exact .inl rfl
  | set | pairs => exact .inr ⟨_, rfl⟩

section

variable {a b x y : Nat} {d : Option (Stage × Ty × Ty)}

lemma Joins.ne (j : Joins s a b x y d) (ne : a ≠ b) : y ≠ x := by
  obtain ⟨rfl, rfl⟩ | ⟨rfl, rfl⟩ := j.sides
  · exact ne.symm
  · exact ne

/-- Neither of two variables is found where what leads to them is left out. -/
lemma Joins.left_out (j : Joins s a b x y d) (C : Set Nat) :
    x ∉ C ∩ {w | ¬ s.Reaches w a} ∩ {w | ¬ s.Reaches w b} ∧
      y ∉ C ∩ {w | ¬ s.Reaches w a} ∩ {w | ¬ s.Reaches w b} := by
  obtain ⟨rfl, rfl⟩ | ⟨rfl, rfl⟩ := j.sides
  · exact ⟨fun h => h.1.2 .refl, fun h => h.2 .refl⟩
  · exact ⟨fun h => h.2 .refl, fun h => h.1.2 .refl⟩

/-- Two variables stand in the order of their join. -/
lemma Joins.posed (j : Joins s a b x y d) (pose : Posed .heads C s (.var a) (.var b)) :
    Posed .heads C s (.var x) (.var y) := by
  obtain ⟨rfl, rfl⟩ | ⟨rfl, rfl⟩ := j.sides
  · exact pose
  · exact pose.swap

/-- The equation that follows from two cells stands where neither of the variables is found. -/
lemma Joins.posed_then {p q : Ty} (j : Joins s a b x y (some (stage, p, q))) (wf : s.WellFormed)
    (pose : Posed .heads C s (.var a) (.var b)) (apart : ¬ s.Entangled a b) :
    Posed stage (C ∩ {w | ¬ s.Reaches w a} ∩ {w | ¬ s.Reaches w b})
      (s.assign x (.bound (.var y))) p q := by
  have hx := (j.posed pose).var.2.1
  have cl := (pose.closed.inter (s.closed_not_reaching a)).inter (s.closed_not_reaching b)
  obtain ⟨hp, hq⟩ := j.avoids wf.tidy pose.closed pose.var.2.2 pose.swap.var.2.2 apart
  rw [Ty.inside_false] at hp hq
  refine ⟨(cl.region.assign hx (j.left_out C).1 _).closed, ?_, ?_, fun e v h => ?_⟩
  · rwa [size_assign hx]
  · rwa [size_assign hx]
  · cases j with
    | sets | setPairs | pairsSet => cases e
    | pairs => simp at h

end

/-! ## Runs that face each other. -/

/-- Two runs begin on alike stores, with types that match. -/
structure Facing (stage : Stage) (C : Set Nat) (s : Store) (l r : Ty) (s' : Store) (l' r' : Ty) : Prop
    extends Alike C s s' where
  pose : Posed stage C s l r
  pose' : Posed stage C s' l' r'
  same : s.Matches l r l' r'

namespace Facing

lemma symm (f : Facing stage C s l r s' l' r') : Facing stage C s' l' r' s l r where
  toAlike := f.toAlike.symm
  pose := f.pose'
  pose' := f.pose
  same := f.same.symm.mono f.entails'

lemma swap (f : Facing stage C s l r s' l' r') : Facing stage C s r l s' l' r' :=
  ⟨f.toAlike, f.pose.swap, f.pose', f.same.swap⟩

/-- What faces two types that were unified may have one value. -/
lemma exists_eval_eq (f : Facing stage C s l r s' l' r') (run : Run stage n s l r out s₁)
    (ok : out = .ok t) : ∃ σ, l'.eval σ = r'.eval σ := by
  have nar := f.pose.run f.wellFormed run
  obtain ⟨σ, resp, -⟩ := (nar.wellFormed f.wellFormed).exists_respects .var
  have eq := (run.forces f.wellFormed f.pose.left.1 f.pose.right.1 ok resp).1
  exact ⟨σ, (f.same.eval_eq_iff (resp.of_keeps nar.keeps)).1 eq⟩

/-! ### Forms of heads. -/

/-- Two types that face types which are no variables are no variables. -/
lemma nonvars (f : Facing .heads C s l r s' l' r') (nl : ∀ w, l ≠ .var w)
    (nr : ∀ w, r ≠ .var w) : (∀ w, l' ≠ .var w) ∧ ∀ w, r' ≠ .var w := by
  have headl (v : Nat) (e : l' = .var v) := f.pose'.heads rfl v (.inl e)
  have headr (v : Nat) (e : r' = .var v) := f.pose'.heads rfl v (.inr e)
  obtain ⟨el, er⟩ | ⟨el, er⟩ := f.same
  · exact ⟨f.nonvar el nl headl, f.nonvar er nr headr⟩
  · exact ⟨f.nonvar er nr headl, f.nonvar el nl headr⟩

/-- Types that face types without parts have no parts. -/
lemma atoms (f : Facing .heads C s l r s' l' r') (atom : l.IsAtom)
    (eq : ∀ σ, l.eval σ = r.eval σ) : l'.IsAtom ∧ r'.IsAtom := by
  have wf := f.wellFormed
  have nl : ∀ w, l ≠ .var w := by
    rintro w rfl
    exact atom.elim
  have nr : ∀ w, r ≠ .var w := by
    rintro w rfl
    have := eq fun _ => .set .integer
    cases l <;> first | exact atom.elim | simp [Ty.eval] at this
  have atom' := wf.isAtom (fun σ _ => eq σ) nr atom
  obtain ⟨nl', nr'⟩ := f.nonvars nl nr
  obtain ⟨el, er⟩ | ⟨el, er⟩ := f.same
  · exact ⟨wf.isAtom el nl' atom, wf.isAtom er nr' atom'⟩
  · exact ⟨wf.isAtom er nl' atom', wf.isAtom el nr' atom⟩

lemma exists_sets {a b : Ty} (f : Facing .heads C s (.set a) (.set b) s' l' r') :
    ∃ a' b', l' = .set a' ∧ r' = .set b' ∧ Facing .types C s a b s' a' b' := by
  have wf := f.wellFormed
  obtain ⟨nl, nr⟩ := f.nonvars nofun nofun
  obtain ⟨el, er⟩ | ⟨el, er⟩ := f.same
  · obtain ⟨a', rfl, ea⟩ := wf.exists_set el nl
    obtain ⟨b', rfl, eb⟩ := wf.exists_set er nr
    exact ⟨a', b', rfl, rfl, f.toAlike, f.pose.set, f.pose'.set, .inl ⟨ea, eb⟩⟩
  · obtain ⟨b', rfl, ea⟩ := wf.exists_set el nr
    obtain ⟨a', rfl, eb⟩ := wf.exists_set er nl
    exact ⟨a', b', rfl, rfl, f.toAlike, f.pose.set, f.pose'.set, .inr ⟨ea, eb⟩⟩

lemma exists_couples {a b c d : Ty} (f : Facing .heads C s (.couple a b) (.couple c d) s' l' r') :
    ∃ a' b' c' d', l' = .couple a' b' ∧ r' = .couple c' d' ∧ Facing .types C s a c s' a' c' ∧
      Facing .types C s b d s' b' d' := by
  have wf := f.wellFormed
  obtain ⟨nl, nr⟩ := f.nonvars nofun nofun
  obtain ⟨el, er⟩ | ⟨el, er⟩ := f.same
  · obtain ⟨a', b', rfl, ea, eb⟩ := wf.exists_couple el nl
    obtain ⟨c', d', rfl, ec, ed⟩ := wf.exists_couple er nr
    exact ⟨a', b', c', d', rfl, rfl,
      ⟨f.toAlike, f.pose.couple.1, f.pose'.couple.1, .inl ⟨ea, ec⟩⟩,
      ⟨f.toAlike, f.pose.couple.2, f.pose'.couple.2, .inl ⟨eb, ed⟩⟩⟩
  · obtain ⟨c', d', rfl, ea, eb⟩ := wf.exists_couple el nr
    obtain ⟨a', b', rfl, ec, ed⟩ := wf.exists_couple er nl
    exact ⟨a', b', c', d', rfl, rfl,
      ⟨f.toAlike, f.pose.couple.1, f.pose'.couple.1, .inr ⟨ea, ec⟩⟩,
      ⟨f.toAlike, f.pose.couple.2, f.pose'.couple.2, .inr ⟨eb, ed⟩⟩⟩

lemma exists_records {as bs : List (String × Ty)}
    (f : Facing .heads C s (.record as) (.record bs) s' l' r') :
    ∃ as' bs', l' = .record as' ∧ r' = .record bs' ∧
      Facing .fields C s (.record as) (.record bs) s' (.record as') (.record bs') := by
  have wf := f.wellFormed
  obtain ⟨nl, nr⟩ := f.nonvars nofun nofun
  obtain ⟨⟨as', rfl⟩, bs', rfl⟩ : (∃ as', l' = .record as') ∧ ∃ bs', r' = .record bs' := by
    obtain ⟨el, er⟩ | ⟨el, er⟩ := f.same
    · exact ⟨wf.exists_record el nl, wf.exists_record er nr⟩
    · exact ⟨wf.exists_record er nl, wf.exists_record el nr⟩
  exact ⟨as', bs', rfl, rfl, f.toAlike, f.pose.record, f.pose'.record, f.same⟩

/-- Fields that face fields begin with types that face each other. -/
lemma exists_cons {a : String} {as bs as' bs' : List (String × Ty)}
    (f : Facing .fields C s (.record ((a, l) :: as)) (.record ((a, r) :: bs)) s' (.record as')
      (.record bs')) :
    ∃ l' r' as₁ bs₁, as' = (a, l') :: as₁ ∧ bs' = (a, r') :: bs₁ ∧
      Facing .types C s l r s' l' r' ∧
      Facing .fields C s (.record as) (.record bs) s' (.record as₁) (.record bs₁) := by
  have wf := f.wellFormed
  obtain ⟨el, er⟩ | ⟨el, er⟩ := f.same
  · obtain ⟨l', as₁, rfl, et, eas⟩ := wf.exists_cons el
    obtain ⟨r', bs₁, rfl, et', ebs⟩ := wf.exists_cons er
    exact ⟨l', r', as₁, bs₁, rfl, rfl,
      ⟨f.toAlike, f.pose.cons.1, f.pose'.cons.1, .inl ⟨et, et'⟩⟩,
      ⟨f.toAlike, f.pose.cons.2, f.pose'.cons.2, .inl ⟨eas, ebs⟩⟩⟩
  · obtain ⟨r', bs₁, rfl, et, eas⟩ := wf.exists_cons el
    obtain ⟨l', as₁, rfl, et', ebs⟩ := wf.exists_cons er
    exact ⟨l', r', as₁, bs₁, rfl, rfl,
      ⟨f.toAlike, f.pose.cons.1, f.pose'.cons.1, .inr ⟨et, et'⟩⟩,
      ⟨f.toAlike, f.pose.cons.2, f.pose'.cons.2, .inr ⟨eas, ebs⟩⟩⟩

/-- What is unified next still faces each other after both stores were narrowed. -/
lemma next (f : Facing stage C s l r s' l' r') (ne : stage ≠ .heads) (nar : Narrows C s s₁)
    (nar' : Narrows C s' s₁') (after : Alike C s₁ s₁') : Facing stage C s₁ l r s₁' l' r' :=
  ⟨after, f.pose.narrows nar ne, f.pose'.narrows nar' ne, f.same.mono nar.keeps.entails⟩

/-! ### Two variables. -/

section

variable {a b x y a' b' x' y' : Nat} {d d' : Option (Stage × Ty × Ty)}

/-- Two unbound variables face two unbound variables, which differ if the first do and are not
entangled if the first are not. -/
lemma exists_vars (f : Facing .heads C s (.var a) (.var b) s' l' r') (ne : a ≠ b)
    (apart : ¬ s.Entangled a b) :
    ∃ a' b', l' = .var a' ∧ r' = .var b' ∧ a' ≠ b' ∧ ¬ s'.Entangled a' b' := by
  obtain ⟨ua, -, ha⟩ := f.pose.var
  obtain ⟨ub, -, hb⟩ := f.pose.swap.var
  obtain ⟨⟨a', rfl⟩, b', rfl⟩ : (∃ a', l' = .var a') ∧ ∃ b', r' = .var b' := by
    obtain ⟨ea, eb⟩ | ⟨ea, eb⟩ := f.same
    · exact ⟨f.wellFormed.exists_var ua ea, f.wellFormed.exists_var ub eb⟩
    · exact ⟨f.wellFormed.exists_var ub eb, f.wellFormed.exists_var ua ea⟩
  have ne' : a' ≠ b' := by
    rintro rfl
    refine ne (f.wellFormed.eq_of_identifies ua ub ?_)
    exact f.same.elim (fun m => m.1.trans m.2.symm) fun m => m.1.trans m.2.symm
  obtain ⟨ua', -, ha'⟩ := f.pose'.var
  obtain ⟨ub', -, hb'⟩ := f.pose'.swap.var
  refine ⟨a', b', rfl, rfl, ne', fun tied => apart ?_⟩
  exact f.toAlike.symm.entangled f.pose'.closed f.pose.closed ua' ub' ua ub ha' hb' ne' ne
    f.symm.same tied

variable (f : Facing .heads C s (.var a) (.var b) s' (.var a') (.var b'))
include f

/-- The cells of variables that face each other are similar. -/
lemma similar :
    s.Similar (s.cell a) (s'.cell a') ∧ s.Similar (s.cell b) (s'.cell b') ∨
      s.Similar (s.cell a) (s'.cell b') ∧ s.Similar (s.cell b) (s'.cell a') := by
  obtain ⟨ua, -, ha⟩ := f.pose.var
  obtain ⟨ub, -, hb⟩ := f.pose.swap.var
  obtain ⟨ua', -, ha'⟩ := f.pose'.var
  obtain ⟨ub', -, hb'⟩ := f.pose'.swap.var
  refine f.same.imp (fun m => ?_) fun m => ?_
  · exact ⟨f.cells a ha a' ha' ua ua' m.1, f.cells b hb b' hb' ub ub' m.2⟩
  · exact ⟨f.cells a ha b' hb' ua ub' m.1, f.cells b hb a' ha' ub ua' m.2⟩

/-- The variables that lead to neither of two variables are those that lead to neither of the two that
face them. -/
lemma avoid_eq :
    C ∩ {w | ¬ s'.Reaches w a'} ∩ {w | ¬ s'.Reaches w b'} =
      C ∩ {w | ¬ s.Reaches w a} ∩ {w | ¬ s.Reaches w b} := by
  have avoid {v v' : Nat} := @Alike.avoid_eq _ _ _ f.toAlike f.pose.closed f.pose'.closed v v'
  have ua := f.pose.var.1
  have ub := f.pose.swap.var.1
  have ua' := f.pose'.var.1
  have ub' := f.pose'.swap.var.1
  obtain ⟨ea, eb⟩ | ⟨ea, eb⟩ := f.same
  · rw [avoid ua ua' ea, Set.inter_right_comm, ← avoid ub ub' eb, Set.inter_right_comm]
  · rw [← avoid ub ua' eb, avoid ua ub' ea, Set.inter_right_comm]

variable (j : Joins s a b x y d) (j' : Joins s' a' b' x' y' d')
include j j'

/-- From the cells of variables that face each other corresponding equations follow. -/
lemma corresponds : s.Corresponds d d' := by
  rw [← j.equation_eq, ← j'.equation_eq]
  obtain ⟨sa, sb⟩ | ⟨sa, sb⟩ := f.similar
  · exact (sa.corresponds sb).1
  · exact (sa.corresponds sb).2

/-- Joined variables that face each other do so in the order of the join. -/
lemma sorted : Facing .heads C s (.var x) (.var y) s' (.var x') (.var y') := by
  refine ⟨f.toAlike, j.posed f.pose, j'.posed f.pose', ?_⟩
  obtain ⟨rfl, rfl⟩ | ⟨rfl, rfl⟩ := j.sides <;> obtain ⟨rfl, rfl⟩ | ⟨rfl, rfl⟩ := j'.sides
  · exact f.same
  · exact Or.symm f.same
  · exact f.same.swap
  · exact f.same.imp And.symm And.symm

/-- After a join the variables that stand for both may still have different alternatives. -/
lemma join (ne : a ≠ b) (ne' : a' ≠ b') (apart : ¬ s.Entangled a b)
    (apart' : ¬ s'.Entangled a' b') :
    Alike (C \ {y}) (s.assign x (.bound (.var y))) (s'.assign x' (.bound (.var y'))) := by
  have wf := (j.narrows ne apart f.pose.var.2 f.pose.swap.var.2).wellFormed f.wellFormed
  have wf' := (j'.narrows ne' apart' f.pose'.var.2 f.pose'.swap.var.2).wellFormed f.wellFormed'
  have f := f.sorted j j'
  obtain ⟨ux, lt, -⟩ := f.pose.var
  obtain ⟨ux', lt', -⟩ := f.pose'.var
  have uy := f.pose.swap.var.1
  refine (f.toAlike.mono Set.sdiff_subset).assign ux ux' lt lt' wf wf'
    (fun σ resp => f.same.eval_eq_iff resp) fun v hv v' _ _ _ uv joined h => ?_
  -- Only `y` is identified with what was identified with `x`.
  refine absurd (wf.eq_of_identifies uv ?_ (h.trans ?_)) hv.2
  · rwa [cell_assign_of_ne (j.ne ne)]
  · exact (joined.symm.mono (entails_assign ux)).trans (.of_bound (cell_assign_self ..))

/-- Stores are alike after a join once the equation that follows is identified. -/
lemma joined (outer : Alike (C \ {y}) s₁ s₁') (ent : s₁.Entails s)
    (xy : s₁.Identifies (.var x) (.var y)) (hy : s₁.cell y = s.cell y)
    (hy' : s₁'.cell y' = s'.cell y') (eq : ∀ e ∈ d, s₁.Identifies e.2.1 e.2.2) :
    Alike C s₁ s₁' := by
  have f := f.sorted j j'
  obtain ⟨ux, -, hx⟩ := f.pose.var
  obtain ⟨uy, -, hyC⟩ := f.pose.swap.var
  obtain ⟨ux', -, hx'⟩ := f.pose'.var
  obtain ⟨uy', -, hyC'⟩ := f.pose'.swap.var
  obtain ⟨-, eyy⟩ | ⟨exy, eyx⟩ := f.same
  · refine outer.insert (by rwa [hy]) (by rwa [hy']) (eyy.mono ent) ?_
    rw [hy, hy']
    exact (f.cells y hyC y' hyC' uy uy' eyy).mono ent
  · -- The other variable stands for both, which can only be where as much is known of either.
    refine outer.insert (by rwa [hy]) (by rwa [hy']) (xy.symm.trans (exy.mono ent)) ?_
    have simy := f.cells y hyC x' hx' uy ux' eyx
    have simx := f.cells x hx y' hyC' ux uy' exy
    have detail : (s.cell x).detail = (s.cell y).detail := by
      have := j.detail_le
      have := j'.detail_le
      have := simx.detail_eq
      have := simy.detail_eq
      omega
    have own : s₁.Similar (s.cell y) (s.cell x) := by
      rw [← j.equation_eq] at eq
      obtain ⟨rfl, rfl⟩ | ⟨rfl, rfl⟩ := j.sides
      · exact (similar_of_equation ux uy detail eq).symm
      · exact similar_of_equation uy ux detail.symm eq
    rw [hy, hy']
    exact own.trans (simx.mono ent)

end

/-! ### A variable and another type. -/

/-- A variable and another type face a variable and another type, which a run may be read to begin
with. -/
lemma exists_var_first {v : Nat} (f : Facing .heads C s (.var v) t s' l' r')
    (nonvar : ∀ w, t ≠ .var w) (run : Run .heads n s' l' r' out s₁') :
    ∃ v' t', Run .heads n s' (.var v') t' out s₁' ∧ Facing .heads C s (.var v) t s' (.var v') t' ∧
      s.Identifies (.var v) (.var v') ∧ s.Identifies t t' ∧ ∀ w, t' ≠ .var w := by
  have uv := f.pose.var.1
  obtain ⟨ev, et⟩ | ⟨ev, et⟩ := f.same
  · obtain ⟨v', rfl⟩ := f.wellFormed.exists_var uv ev
    have other := f.nonvar et nonvar fun w e => f.pose'.heads rfl w (.inr e)
    exact ⟨v', r', run, f, ev, et, other⟩
  · obtain ⟨v', rfl⟩ := f.wellFormed.exists_var uv ev
    have other := f.nonvar et nonvar fun w e => f.pose'.heads rfl w (.inl e)
    exact ⟨v', l', run.unflip other, f.symm.swap.symm, ev, et, other⟩

/-- Where a variable is bound to a type, what faces them is bound, after an equation that corresponds
was unified. -/
lemma of_var {v v' : Nat} {d} (f : Facing .heads C s (.var v) t s' (.var v') t')
    (ev : s.Identifies (.var v) (.var v')) (et : s.Identifies t t') (nonvar' : ∀ w, t' ≠ .var w)
    (apart : ¬ ∃ w ∈ t.vars, s.Reaches w v) (ask : Asks (s.cell v) t d)
    (run : Run .heads n s' (.var v') t' out s₁') :
    ∃ d', Asks (s'.cell v') t' d' ∧ (¬ ∃ w ∈ t'.vars, s'.Reaches w v') ∧
      Option.Rel (fun e e' => s.Identifies e.1 e'.1 ∧ s.Identifies e.2 e'.2) d d' ∧
        (d' = none ∧ out = .ok t' ∧ s₁' = s'.assign v' (.bound t') ∨
          ∃ p q out₁ s₂, d' = some (p, q) ∧ Run .types n s' p q out₁ s₂ ∧
            (∀ u, out₁ = .ok u → out = .ok t' ∧ s₁' = s₂.assign v' (.bound t')) ∧
              ∀ e, out₁ = .error e → out = .error e) := by
  obtain ⟨uv, -, hv⟩ := f.pose.var
  obtain ⟨uv', -, hv'⟩ := f.pose'.var
  have sim := f.cells v hv v' hv' uv uv' ev
  have apart' : ¬ ∃ w ∈ t'.vars, s'.Reaches w v' := fun found => apart <|
    f.toAlike.symm.occurs f.pose'.closed f.pose.closed uv' uv (ev.symm.mono f.entails')
      f.pose'.right.2 (et.symm.mono f.entails') found
  obtain ⟨wait, ni, ns⟩ | ⟨d', ask', how⟩ := run.of_var nonvar' apart'
  · -- The type is refused on neither store.
    obtain rfl | ⟨u, rfl⟩ := ask.accepts (sim.symm.awaits wait)
    · exact absurd (f.wellFormed.eq_integer et nonvar') ni
    · obtain ⟨u', rfl, -⟩ := f.wellFormed.exists_set et nonvar'
      exact absurd rfl (ns u')
  · exact ⟨d', ask', apart', ask.corresponds f.wellFormed ask' sim et, how⟩

end Facing

/-- A run that faces a successful run succeeds as well, unless it is cut off, and the stores stay
alike. -/
lemma Run.alike {stage n s l r out s₁} (run : Run stage n s l r out s₁) {z} (ok : out = .ok z)
    {C n' s' l' r' out' s₁'} (run' : Run stage n' s' l' r' out' s₁')
    (total : out' ≠ .error .divergence) (f : Facing stage C s l r s' l' r') :
    (∃ z', out' = .ok z') ∧ Alike C s₁ s₁' := by
  induction run generalizing z C n' s' l' r' out' s₁' with
  | exhausted | entangled | occurs | refuse | bindFails | clash | coupleFails | consFails
  | consRestFails => cases ok
  | enter el ml er mr run ih =>
    obtain ⟨rfl, pose, al, ar⟩ := f.pose.enter f.wellFormed el ml er mr
    cases run' with
    | exhausted => exact absurd rfl total
    | enter el' ml' er' mr' run' =>
      obtain ⟨rfl, pose', al', ar'⟩ := f.pose'.enter f.wellFormed' el' ml' er' mr'
      exact ih ok run' total ⟨f.toAlike, pose, pose',
        f.same.congr al ar (al'.mono f.entails) (ar'.mono f.entails)⟩
  | @self n s v =>
    obtain ⟨el, er⟩ : s.Identifies (.var v) l' ∧ s.Identifies (.var v) r' :=
      f.same.elim id And.symm
    obtain ⟨a, rfl⟩ := f.wellFormed.exists_var f.pose.var.1 el
    obtain ⟨b, rfl⟩ := f.wellFormed.exists_var f.pose.var.1 er
    obtain rfl : a = b :=
      f.eq_of_identifies f.pose'.var.1 f.pose'.swap.var.1 (el.symm.trans er)
    obtain ⟨rfl, rfl⟩ := run'.of_self
    exact ⟨⟨_, rfl⟩, f.toAlike⟩
  | @join n s a b x y ne apart j =>
    obtain ⟨a', b', rfl, rfl, ne', apart'⟩ := f.exists_vars ne apart
    obtain ⟨x', y', d', j', how⟩ := run'.of_vars ne' apart'
    have outer := f.join j j' ne ne' apart apart'
    have follows := f.corresponds j j'
    obtain ⟨-, rfl, rfl⟩ | ⟨_, _, _, _, rfl, -⟩ := how
    · exact ⟨⟨_, rfl⟩, f.joined j j' outer (entails_assign j.unbound.1)
        (.of_bound (cell_assign_self ..)) (cell_assign_of_ne (j.ne ne))
        (cell_assign_of_ne (j'.ne ne')) nofun⟩
    · cases follows
  | @joinThen n s a b x y stage p q out s₁ ne apart j run ih =>
    obtain ⟨a', b', rfl, rfl, ne', apart'⟩ := f.exists_vars ne apart
    obtain ⟨x', y', d', j', how⟩ := run'.of_vars ne' apart'
    have outer := f.join j j' ne ne' apart apart'
    have follows := f.corresponds j j'
    obtain ⟨rfl, -⟩ | ⟨stage', p', q', out₁', rfl, rfl, run₁'⟩ := how
    · cases follows
    obtain ⟨rfl, same⟩ : stage = stage' ∧ s.Matches p q p' q' := by cases follows; assumption
    obtain ⟨u, rfl, -⟩ := map_eq_ok ok
    -- The equation is unified where neither variable is found, and there the stores are alike.
    have inner := j.posed_then f.wellFormed f.pose apart
    have inner' := j'.posed_then f.wellFormed' f.pose' apart'
    have hy := (j.left_out C).2
    have hy' := (j'.left_out C).2
    rw [f.avoid_eq] at inner' hy'
    have ent : (s.assign x (.bound (.var y))).Entails s := entails_assign j.unbound.1
    obtain ⟨⟨u', hu'⟩, after⟩ := ih rfl run₁' (fun e => total (by rw [e]; rfl))
      ⟨outer.mono fun w hw => ⟨hw.1.1, fun e => hy (e ▸ hw)⟩, inner, inner', same.mono ent⟩
    have nar := inner.run outer.wellFormed run
    have nar' := inner'.run outer.wellFormed' run₁'
    refine ⟨⟨_, by rw [hu']; rfl⟩, f.joined j j'
      (outer.extend inner.closed inner'.closed nar nar' after)
      (fun σ h => ent σ (nar.keeps.entails σ h)) ?_ ?_ ?_ ?_⟩
    · exact (Identifies.of_bound (cell_assign_self ..)).mono nar.keeps.entails
    · rw [nar.cell_eq hy, cell_assign_of_ne (j.ne ne)]
    · rw [nar'.cell_eq hy', cell_assign_of_ne (j'.ne ne')]
    · intro e he σ resp
      cases he
      exact (run.forces outer.wellFormed inner.left.1 inner.right.1 rfl resp).1
  | flip _ run ih => exact ih ok run' total f.swap
  | @bind n s v t nonvar apart ask =>
    obtain ⟨v', t', run', f, ev, et, nonvar'⟩ := f.exists_var_first nonvar run'
    have nar := f.pose.run f.wellFormed (.bind nonvar apart ask : Run .heads n s (.var v) t _ _)
    have nar' := f.pose'.run f.wellFormed' run'
    obtain ⟨d', ask', -, follows, ⟨-, rfl, rfl⟩ | ⟨_, _, _, _, rfl, -⟩⟩ :=
      f.of_var ev et nonvar' apart ask run'
    · exact ⟨⟨_, rfl⟩, f.bind ask.unbound ask'.unbound f.pose.var.2.1 f.pose'.var.2.1
        (nar.wellFormed f.wellFormed) (nar'.wellFormed f.wellFormed') ev et⟩
    · cases follows
  | @bindThen n s v t p q u s₁ nonvar apart ask run ih =>
    obtain ⟨v', t', run', f, ev, et, nonvar'⟩ := f.exists_var_first nonvar run'
    have nar := f.pose.run f.wellFormed (.bindThen nonvar apart ask run)
    have nar' := f.pose'.run f.wellFormed' run'
    obtain ⟨d', ask', apart', follows, ⟨rfl, -⟩ | ⟨p', q', out₁', s₂', rfl, run₁', done, fails⟩⟩ :=
      f.of_var ev et nonvar' apart ask run'
    · cases follows
    have same : s.Identifies p p' ∧ s.Identifies q q' := by cases follows; assumption
    -- The equation is unified where the variable is not found, before it is bound.
    have inner := ask.posed f.wellFormed f.pose apart
    have inner' := ask'.posed f.wellFormed' f.pose' apart'
    have hv : v ∉ C ∩ {w | ¬ s.Reaches w v} := fun h => h.2 .refl
    have hv' : v' ∉ C ∩ {w | ¬ s'.Reaches w v'} := fun h => h.2 .refl
    rw [← f.toAlike.avoid_eq f.pose.closed f.pose'.closed ask.unbound ask'.unbound ev] at inner' hv'
    obtain ⟨⟨u', rfl⟩, after⟩ := ih rfl run₁' (fun e => total (fails _ e))
      ⟨f.toAlike.mono Set.inter_subset_left, inner, inner', .inl same⟩
    obtain ⟨rfl, rfl⟩ := done u' rfl
    have nar₁ := inner.run f.wellFormed run
    have nar₁' := inner'.run f.wellFormed' run₁'
    have after := f.extend inner.closed inner'.closed nar₁ nar₁' after
    refine ⟨⟨_, rfl⟩, after.bind ?_ ?_ ?_ ?_ (nar.wellFormed f.wellFormed)
      (nar'.wellFormed f.wellFormed') (ev.mono nar₁.keeps.entails) (et.mono nar₁.keeps.entails)⟩
    · rw [nar₁.cell_eq hv]
      exact ask.unbound
    · rw [nar₁'.cell_eq hv']
      exact ask'.unbound
    · rw [nar₁.size_eq]
      exact f.pose.var.2.1
    · rw [nar₁'.size_eq]
      exact f.pose'.var.2.1
  | @leaf n s l r atom eq =>
    obtain ⟨σ, eval⟩ := f.exists_eval_eq (.leaf atom eq : Run .heads n s l r _ _) rfl
    obtain ⟨atom, atom'⟩ := f.atoms atom eq
    cases run' with
    | leaf => exact ⟨⟨_, rfl⟩, f.toAlike⟩
    | clash differ => exact absurd eval (differ σ)
    | flip => exact atom'.elim
    | _ => exact atom.elim
  | @set n s a b out s₁ run ih =>
    obtain ⟨σ, eq⟩ := f.exists_eval_eq (.set run) ok
    obtain ⟨a', b', rfl, rfl, elems⟩ := f.exists_sets
    obtain ⟨u, hu, -⟩ := map_eq_ok ok
    cases run' with
    | leaf atom => exact atom.elim
    | clash differ => exact absurd eq (differ σ)
    | set run' =>
      obtain ⟨⟨u', rfl⟩, after⟩ := ih hu run' (fun e => total (by rw [e]; rfl)) elems
      exact ⟨⟨_, rfl⟩, after⟩
  | @couple n s a b c d x s₁ out s₂ run run₁ ih ih₁ =>
    have eq := f.exists_eval_eq (.couple run run₁) ok
    obtain ⟨a', b', c', d', rfl, rfl, first, second⟩ := f.exists_couples
    obtain ⟨u, hu, -⟩ := map_eq_ok ok
    obtain ⟨out₁', s₁', run₁', fails, rest⟩ := run'.of_couples eq
    obtain ⟨⟨x', rfl⟩, after⟩ := ih rfl run₁' (fun e => total (fails _ e)) first
    obtain ⟨out₂', run₂', rfl⟩ := rest x' rfl
    have nar := first.pose.run f.wellFormed run
    have nar' := first.pose'.run f.wellFormed' run₁'
    obtain ⟨⟨u', rfl⟩, after⟩ := ih₁ hu run₂' (fun e => total (by rw [e]; rfl))
      (second.next nofun nar nar' after)
    exact ⟨⟨_, rfl⟩, after⟩
  | @record n s as bs out s₁ run ih =>
    obtain ⟨σ, eq⟩ := f.exists_eval_eq (.record run) ok
    obtain ⟨as', bs', rfl, rfl, fields⟩ := f.exists_records
    cases run' with
    | leaf atom => exact atom.elim
    | clash differ => exact absurd eq (differ σ)
    | record run' => exact ih ok run' total fields
  | nil =>
    cases run' with
    | nil => exact ⟨⟨_, rfl⟩, f.toAlike⟩
    | cons | consFails | consRestFails =>
      obtain ⟨el, -⟩ | ⟨-, el⟩ := f.same <;> cases f.wellFormed.exists_nil el
  | @cons n s a t as u bs x cs s₁ s₂ run run₁ ih ih₁ =>
    obtain ⟨as', bs', rfl, rfl⟩ := run'.of_fields
    obtain ⟨t', u', as', bs', rfl, rfl, first, rest⟩ := f.exists_cons
    obtain ⟨out₁', s₁', run₁', fails, later⟩ := run'.of_cons
    obtain ⟨⟨x', rfl⟩, after⟩ := ih rfl run₁' (fun e => total (fails _ e)) first
    obtain ⟨out₂', run₂', fails', done⟩ := later x' rfl
    have nar := first.pose.run f.wellFormed run
    have nar' := first.pose'.run f.wellFormed' run₁'
    obtain ⟨⟨y', rfl⟩, after⟩ := ih₁ rfl run₂' (fun e => total (fails' _ e))
      (rest.next nofun nar nar' after)
    exact ⟨done y' rfl, after⟩

end Store

end BMethod
