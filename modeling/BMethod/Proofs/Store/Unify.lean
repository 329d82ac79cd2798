import BMethod.Proofs.Store.Run

/-!
# Unification runs by its rules

The function `unifyWithin` on a tidy store ends as the rules of `Run` say.
-/

namespace BMethod

/-! ## Running computations that keep their state when they fail. -/

section

variable {ε σ α β : Type}

lemma run_bind (x : ExceptT ε (StateM σ) α) (f : α → ExceptT ε (StateM σ) β) (s : σ) :
    (x >>= f) s =
      match x s with
      | (.ok a, s') => f a s'
      | (.error e, s') => (.error e, s') := by
  show (StateT.bind x (ExceptT.bindCont f)) s = _
  simp only [StateT.bind, bind]
  rcases x s with ⟨_ | _, _⟩ <;> rfl

lemma run_pure (a : α) (s : σ) : (pure a : ExceptT ε (StateM σ) α) s = (.ok a, s) := rfl

lemma run_throw (e : ε) (s : σ) : (throw e : ExceptT ε (StateM σ) α) s = (.error e, s) := rfl

lemma run_get (s : σ) : (get : ExceptT ε (StateM σ) σ) s = (.ok s, s) := rfl

lemma run_set (s s' : σ) : (set s' : ExceptT ε (StateM σ) Unit) s = (.ok (), s') := rfl

lemma run_modify (f : σ → σ) (s : σ) :
    (modify f : ExceptT ε (StateM σ) Unit) s = (.ok (), f s) := rfl

lemma run_discard (x : ExceptT ε (StateM σ) α) (s : σ) :
    (discard x : ExceptT ε (StateM σ) Unit) s =
      match x s with
      | (.ok _, s') => (.ok (), s')
      | (.error e, s') => (.error e, s') := by
  show (Functor.map _ x) s = _
  simp only [Functor.map, ExceptT.map, ExceptT.mk, StateT.bind, bind, pure]
  rcases x s with ⟨_ | _, _⟩ <;> rfl

end

namespace Store

section

variable {s : Store}

lemma run_ask {α : Type} (search : Store → Option α) {a : α} (h : search s = some a) :
    ask search s = (.ok a, s) := by
  rw [ask, run_bind, run_get]
  simp only [h]
  rfl

lemma run_put (v : Nat) (c : Cell) (s : Store) : put v c s = (.ok (), s.assign v c) := rfl

/-- Where no variable leads back to itself a clash is an error that leaves the store as it is. -/
lemma Acyclic.run_clash (ac : s.Acyclic) {α : Type} (l r : Ty) :
    ∃ e, (clash l r : StoreM α) s = (.error (.error e), s) := by
  obtain ⟨l', hl⟩ := ac.exists_resolve? l
  obtain ⟨r', hr⟩ := ac.exists_resolve? r
  refine ⟨.mismatch l' r', ?_⟩
  simp only [clash, resolved, run_bind, run_ask (·.resolve? l) hl,
    run_ask (·.resolve? r) hr]
  rfl

/-- Ambiguous types become variables and other types are met as they are. -/
lemma run_awaiting (t : Ty) (s : Store) :
    ∃ u s', awaiting t s = (.ok u, s') ∧ Meets s t u s' := by
  cases t with
  | setOrInteger e => exact ⟨_, _, rfl, .set⟩
  | integerOrPairs l r => exact ⟨_, _, rfl, .pairs⟩
  | _ => exact ⟨_, _, rfl, .same nofun nofun⟩

end

/-- What the recursive calls of unification at one depth do. -/
def RunsBy (n : Nat) (unify : Ty → Ty → StoreM Ty) : Prop :=
  ∀ (s : Store) (l r : Ty), s.Tidy True → l.Inside True s.cells.size Set.univ →
    r.Inside True s.cells.size Set.univ →
    Run .types n s l r (unify l r s).1 (unify l r s).2

section

variable {s : Store} {n : Nat} {unify : Ty → Ty → StoreM Ty}

/-- Unifying what the cell asks for and then binding runs by the rules. -/
lemma RunsBy.bindThen (runs : RunsBy n unify) (tidy : s.Tidy True) {v : Nat} {t p q : Ty}
    (ht : t.Inside True s.cells.size Set.univ) (nonvar : ∀ w, t ≠ .var w)
    (apart : ¬ ∃ w ∈ t.vars, s.Reaches w v) (ask : Asks (s.cell v) t (some (p, q))) :
    Run .heads n s (.var v) t
      ((do discard (unify p q); put v (.bound t); pure t : StoreM Ty) s).1
      ((do discard (unify p q); put v (.bound t); pure t : StoreM Ty) s).2 := by
  obtain ⟨hp, hq⟩ := ask.forall (fun _ => Ty.inside_set.1)
    (fun _ _ hl hr => Ty.inside_couple.2 ⟨hl, hr⟩) (tidy.within v) ht
  have run := runs s p q tidy hp hq
  rw [run_bind, run_discard]
  generalize unify p q s = done at run ⊢
  obtain ⟨out, s'⟩ := done
  cases out with
  | ok u => exact .bindThen nonvar apart ask run
  | error e => exact .bindFails nonvar apart ask run

/-- Refusing a type runs by the rules. -/
lemma Acyclic.run_refuse (ac : s.Acyclic) {v : Nat} {t l r : Ty} (nonvar : ∀ w, t ≠ .var w)
    (wait : Awaits (s.cell v)) (integer : t ≠ .integer) (set : ∀ u, t ≠ .set u) :
    Run .heads n s (.var v) t
      ((do clash l r; put v (.bound t); pure t : StoreM Ty) s).1
      ((do clash l r; put v (.bound t); pure t : StoreM Ty) s).2 := by
  obtain ⟨e, he⟩ := @Acyclic.run_clash s ac PUnit l r
  rw [run_bind, he]
  exact .refuse wait integer set nonvar

/-- Binding runs by the rules. -/
lemma RunsBy.bind (runs : RunsBy n unify) (tidy : s.Tidy True) {v : Nat} {t : Ty}
    (hu : (s.cell v).Unbound) (ht : t.Inside True s.cells.size Set.univ) (nonvar : ∀ w, t ≠ .var w) :
    Run .heads n s (.var v) t (bind unify v t s).1 (bind unify v t s).2 := by
  classical
  have occ := tidy.acyclic.occurs?_eq v t
  rw [Store.bind]
  simp only [run_bind, run_ask (·.occurs? v t) occ]
  by_cases found : ∃ w ∈ t.vars, s.Reaches w v
  · obtain ⟨t', ht'⟩ := tidy.acyclic.exists_resolve? t
    simp only [found, decide_true, if_true, run_bind, resolved, run_ask (·.resolve? t) ht',
      run_throw]
    exact .occurs nonvar found
  · simp only [found, decide_false, if_false, run_bind, run_get, Bool.false_eq_true]
    cases hc : s.cell v with
    | bound u => exact absurd hc (hu u)
    | free => exact .bind nonvar found (hc ▸ .free)
    | setOrInteger e =>
      have wait : Awaits (s.cell v) := hc ▸ .set
      cases t with
      | integer => exact .bind nonvar found (hc ▸ .integer)
      | set u => exact runs.bindThen tidy ht nonvar found (hc ▸ .set)
      | _ => exact tidy.acyclic.run_refuse nonvar wait nofun nofun
    | integerOrPairs x y =>
      have wait : Awaits (s.cell v) := hc ▸ .pairs
      cases t with
      | integer => exact .bind nonvar found (hc ▸ .product)
      | set u => exact runs.bindThen tidy ht nonvar found (hc ▸ .pairs)
      | _ => exact tidy.acyclic.run_refuse nonvar wait nofun nofun

/-- Joining two variables leaves a tidy store that has the types of the equation. -/
lemma Joins.inside {a b x y : Nat} {stage : Stage} {p q : Ty}
    (j : Joins s a b x y (some (stage, p, q))) (tidy : s.Tidy True) (ha : a < s.cells.size)
    (hb : b < s.cells.size) (ne : a ≠ b) (apart : ¬ s.Entangled a b) :
    Writes True Set.univ s (s.assign x (.bound (.var y))) ∧
      p.Inside True (s.assign x (.bound (.var y))).cells.size Set.univ ∧
      q.Inside True (s.assign x (.bound (.var y))).cells.size Set.univ := by
  have w : Writes True Set.univ s (s.assign x (.bound (.var y))) :=
    j.writes ne apart ⟨ha, trivial⟩ ⟨hb, trivial⟩
  obtain ⟨hp, hq⟩ := j.forall (fun _ _ hl hr => Ty.inside_couple.2 ⟨hl, hr⟩) (tidy.within a)
    (tidy.within b)
  exact ⟨w, hp.mono w.size_le subset_rfl, hq.mono w.size_le subset_rfl⟩

/-- Binding one variable to the other and unifying what follows runs by the rules. -/
lemma RunsBy.joinThen (runs : RunsBy n unify) (tidy : s.Tidy True) {a b x y : Nat} {p q : Ty}
    (ha : a < s.cells.size) (hb : b < s.cells.size) (ne : a ≠ b) (apart : ¬ s.Entangled a b)
    (j : Joins s a b x y (some (.types, p, q))) :
    Run .heads n s (.var a) (.var b)
      ((do put x (.bound (.var y)); discard (unify p q); pure (.var y) : StoreM Ty) s).1
      ((do put x (.bound (.var y)); discard (unify p q); pure (.var y) : StoreM Ty) s).2 := by
  obtain ⟨step, hp, hq⟩ := j.inside tidy ha hb ne apart
  have run := Run.joinThen ne apart j (runs _ p q (step.tidy tidy) hp hq)
  rw [run_bind, run_put]
  simp only [run_bind, run_discard]
  generalize unify p q (s.assign x (.bound (.var y))) = done at run ⊢
  obtain ⟨_ | _, s'⟩ := done <;> exact run

/-- Unifying two pairs of types runs by the rules. -/
lemma RunsBy.couple (runs : RunsBy n unify) (tidy : s.Tidy True) {a b c d : Ty}
    (hl : (Ty.couple a b).Inside True s.cells.size Set.univ)
    (hr : (Ty.couple c d).Inside True s.cells.size Set.univ) :
    Run .heads n s (.couple a b) (.couple c d)
      ((do let first ← unify a c; return .couple first (← unify b d) : StoreM Ty) s).1
      ((do let first ← unify a c; return .couple first (← unify b d) : StoreM Ty) s).2 := by
  rw [Ty.inside_couple] at hl hr
  have run := runs s a c tidy hl.1 hr.1
  rw [run_bind]
  generalize unify a c s = done at run ⊢
  obtain ⟨out, s'⟩ := done
  cases out with
  | error e => exact .coupleFails run
  | ok x =>
    have g := (run.grows tidy (s.region_univ True) hl.1 hr.1).1
    have run' := Run.couple run (runs s' b d (g.tidy tidy) (hl.2.mono g.size_le subset_rfl)
      (hr.2.mono g.size_le subset_rfl))
    simp only [run_bind]
    generalize unify b d s' = done at run' ⊢
    obtain ⟨_ | _, s''⟩ := done <;> exact run'

/-- Joining two variables that await pairs runs by the rules. -/
lemma RunsBy.joinPairs (runs : RunsBy n unify) (tidy : s.Tidy True) {a b : Nat} {x y z w : Ty}
    (ha : a < s.cells.size) (hb : b < s.cells.size) (ne : a ≠ b) (apart : ¬ s.Entangled a b)
    (j : Joins s a b a b (some (.heads, .couple x y, .couple z w))) :
    Run .heads n s (.var a) (.var b)
      ((do put a (.bound (.var b)); discard (unify x z); discard (unify y w); pure (.var b)
        : StoreM Ty) s).1
      ((do put a (.bound (.var b)); discard (unify x z); discard (unify y w); pure (.var b)
        : StoreM Ty) s).2 := by
  obtain ⟨step, hp, hq⟩ := j.inside tidy ha hb ne apart
  have run := Run.joinThen ne apart j (runs.couple (step.tidy tidy) hp hq)
  rw [run_bind, run_put]
  simp only [run_bind, run_discard] at run ⊢
  generalize unify x z (s.assign a (.bound (.var b))) = done at run ⊢
  obtain ⟨_ | _, s'⟩ := done
  · exact run
  · simp only at run ⊢
    generalize unify y w s' = done at run ⊢
    obtain ⟨_ | _, s''⟩ := done <;> exact run

/-- Joining runs by the rules. -/
lemma RunsBy.merge (runs : RunsBy n unify) (tidy : s.Tidy True) {a b : Nat} (ha : a < s.cells.size)
    (hb : b < s.cells.size) (ua : (s.cell a).Unbound) (ub : (s.cell b).Unbound) (ne : a ≠ b) :
    Run .heads n s (.var a) (.var b) (merge unify a b s).1 (merge unify a b s).2 := by
  classical
  rw [Store.merge]
  simp only [run_bind, run_ask (·.entangled? a b) (tidy.acyclic.entangled?_eq a b)]
  by_cases tied : s.Entangled a b
  · obtain ⟨t', ht'⟩ := tidy.acyclic.exists_resolve? (.var b)
    simp only [tied, decide_true, if_true, run_bind, resolved, run_ask (·.resolve? (.var b)) ht',
      run_throw]
    exact .entangled ne ua ub tied
  · simp only [tied, decide_false, if_false, run_bind, run_get, Bool.false_eq_true]
    cases hca : s.cell a with
    | bound u => exact absurd hca (ua u)
    | free =>
      cases hcb : s.cell b with
      | bound u => exact absurd hcb (ub u)
      | _ => exact .join ne tied (.into hca ub)
    | setOrInteger e =>
      cases hcb : s.cell b with
      | bound u => exact absurd hcb (ub u)
      | free => exact .join ne tied (.from (hca ▸ .set) hcb)
      | setOrInteger e' => exact runs.joinThen tidy ha hb ne tied (.sets hca hcb)
      | integerOrPairs l r => exact runs.joinThen tidy ha hb ne tied (.setPairs hca hcb)
    | integerOrPairs l r =>
      cases hcb : s.cell b with
      | bound u => exact absurd hcb (ub u)
      | free => exact .join ne tied (.from (hca ▸ .pairs) hcb)
      | setOrInteger e => exact runs.joinThen tidy ha hb ne tied (.pairsSet hca hcb)
      | integerOrPairs l' r' => exact runs.joinPairs tidy ha hb ne tied (.pairs hca hcb)

/-- Unifying fields one after the other runs by the rules. -/
lemma RunsBy.fields (runs : RunsBy n unify) (tidy : s.Tidy True) {as bs : List (String × Ty)}
    (names : as.map Prod.fst = bs.map Prod.fst)
    (hl : (Ty.record as).Inside True s.cells.size Set.univ)
    (hr : (Ty.record bs).Inside True s.cells.size Set.univ) :
    Run .fields n s (.record as) (.record bs) ((unifyFields unify as bs s).1.map .record)
      (unifyFields unify as bs s).2 := by
  induction as generalizing s bs with
  | nil =>
    cases bs with
    | nil => exact .nil
    | cons f bs => cases names
  | cons f as ih =>
    obtain ⟨a, t⟩ := f
    cases bs with
    | nil => cases names
    | cons g bs =>
      obtain ⟨b, u⟩ := g
      obtain ⟨rfl, rest⟩ : a = b ∧ as.map Prod.fst = bs.map Prod.fst := by simpa using names
      rw [Ty.inside_record, List.forall_mem_cons, ← Ty.inside_record] at hl hr
      have run := runs s t u tidy hl.1 hr.1
      rw [unifyFields, run_bind]
      generalize unify t u s = done at run ⊢
      obtain ⟨out, s'⟩ := done
      cases out with
      | error e => exact .consFails run
      | ok x =>
        have g := (run.grows tidy (s.region_univ True) hl.1 hr.1).1
        have rest := ih (g.tidy tidy) rest (hl.2.mono g.size_le subset_rfl)
          (hr.2.mono g.size_le subset_rfl)
        simp only [run_bind]
        generalize unifyFields unify as bs s' = done at rest ⊢
        obtain ⟨_ | _, s''⟩ := done
        · exact .consRestFails run rest
        · exact .cons run rest

end

/-- Failing on two types runs by the rules, if the types have no common value. -/
lemma Acyclic.run_clash_heads {s : Store} (ac : s.Acyclic) {n : Nat} {l r : Ty}
    (differ : ∀ σ, l.eval σ ≠ r.eval σ) :
    Run .heads n s l r ((clash l r : StoreM Ty) s).1 ((clash l r : StoreM Ty) s).2 := by
  obtain ⟨e, he⟩ := @Acyclic.run_clash s ac Ty l r
  rw [he]
  exact .clash differ

/-- Unification runs by the rules. -/
lemma runsBy_unifyWithin (n : Nat) : RunsBy n (unifyWithin n) := by
  induction n with
  | zero => exact fun s l r _ _ _ => .exhausted
  | succ n runs =>
    intro s l r tidy hl hr
    obtain ⟨l', el⟩ := tidy.acyclic.exists_head? l
    obtain ⟨lh, s₁, ea, ml⟩ := run_awaiting l' s
    obtain ⟨g, hl⟩ := ml.grows (s.region_univ True) (tidy.inside_head? s.closed_univ el hl)
    replace tidy := g.tidy tidy
    replace hr := hr.mono g.size_le subset_rfl
    obtain ⟨r', er⟩ := tidy.acyclic.exists_head? r
    obtain ⟨rh, s₂, eb, mr⟩ := run_awaiting r' s₁
    obtain ⟨g, hr⟩ := mr.grows (s₁.region_univ True) (tidy.inside_head? s₁.closed_univ er hr)
    replace tidy := g.tidy tidy
    replace hl := hl.mono g.size_le subset_rfl
    refine .enter el ml er mr ?_
    rw [unifyWithin]
    simp only [run_bind, run_ask (·.head? l) el, ea, run_ask (·.head? r) er, eb]
    have ua (v : Nat) (e : lh = .var v) := mr.cell_unbound (ml.unbound el v e)
    have ub := mr.unbound er
    obtain ⟨definite, definite'⟩ := ml.definite
    clear el ml er mr ea eb g
    -- What is left are the cases of the program on two heads, neither of which is ambiguous.
    cases lh with
    | var a =>
      cases rh with
      | var b =>
        by_cases e : a = b
        · subst e
          simpa using .self
        · simpa [e] using runs.merge tidy (Ty.inside_var.1 hl).1 (Ty.inside_var.1 hr).1 (ua _ rfl)
            (ub _ rfl) e
      | _ => exact runs.bind tidy (ua _ rfl) hr nofun
    | integer =>
      cases rh with
      | var b => exact .flip nofun (runs.bind tidy (ub _ rfl) hl nofun)
      | integer => exact .leaf trivial fun _ => rfl
      | _ => exact tidy.acyclic.run_clash_heads fun σ => by simp [Ty.eval]
    | bool =>
      cases rh with
      | var b => exact .flip nofun (runs.bind tidy (ub _ rfl) hl nofun)
      | bool => exact .leaf trivial fun _ => rfl
      | _ => exact tidy.acyclic.run_clash_heads fun σ => by simp [Ty.eval]
    | string =>
      cases rh with
      | var b => exact .flip nofun (runs.bind tidy (ub _ rfl) hl nofun)
      | string => exact .leaf trivial fun _ => rfl
      | _ => exact tidy.acyclic.run_clash_heads fun σ => by simp [Ty.eval]
    | real =>
      cases rh with
      | var b => exact .flip nofun (runs.bind tidy (ub _ rfl) hl nofun)
      | real => exact .leaf trivial fun _ => rfl
      | _ => exact tidy.acyclic.run_clash_heads fun σ => by simp [Ty.eval]
    | set t =>
      cases rh with
      | var b => exact .flip nofun (runs.bind tidy (ub _ rfl) hl nofun)
      | set u =>
        have run := Run.set (runs s₂ t u tidy (Ty.inside_set.1 hl) (Ty.inside_set.1 hr))
        simp only [run_bind]
        generalize unifyWithin n t u s₂ = done at run ⊢
        obtain ⟨_ | _, s'⟩ := done <;> exact run
      | _ => exact tidy.acyclic.run_clash_heads fun σ => by simp [Ty.eval]
    | couple a b =>
      cases rh with
      | var b => exact .flip nofun (runs.bind tidy (ub _ rfl) hl nofun)
      | couple c d => exact runs.couple tidy hl hr
      | _ => exact tidy.acyclic.run_clash_heads fun σ => by simp [Ty.eval]
    | record as =>
      cases rh with
      | var b => exact .flip nofun (runs.bind tidy (ub _ rfl) hl nofun)
      | record bs =>
        by_cases names : as.map Prod.fst = bs.map Prod.fst
        · have run := Run.record (runs.fields tidy names hl hr)
          have shape : Ty.sameNames as bs = true := by simpa [Ty.sameNames] using names
          simp only [shape, if_true, run_bind]
          generalize unifyFields (unifyWithin n) as bs s₂ = done at run ⊢
          obtain ⟨_ | _, s'⟩ := done <;> exact run
        · have shape : Ty.sameNames as bs = false := by simpa [Ty.sameNames] using names
          simp only [shape]
          refine tidy.acyclic.run_clash_heads fun σ e => names ?_
          simp only [Ty.eval, Ty.record.injEq] at e
          rw [← Ty.map_fst_evalFields σ as, e, Ty.map_fst_evalFields]
      | _ => exact tidy.acyclic.run_clash_heads fun σ => by simp [Ty.eval]
    | enumerated i name literals =>
      cases rh with
      | var b => exact .flip nofun (runs.bind tidy (ub _ rfl) hl nofun)
      | enumerated j name' literals' =>
        by_cases e : i = j
        · subst e
          simpa using .leaf trivial fun σ => by simp [Ty.eval]
        · simpa [e] using tidy.acyclic.run_clash_heads fun σ => by simp [Ty.eval, e]
      | _ => exact tidy.acyclic.run_clash_heads fun σ => by simp [Ty.eval]
    | deferred i name =>
      cases rh with
      | var b => exact .flip nofun (runs.bind tidy (ub _ rfl) hl nofun)
      | deferred j name' =>
        by_cases e : i = j
        · subst e
          simpa using .leaf trivial fun σ => by simp [Ty.eval]
        · simpa [e] using tidy.acyclic.run_clash_heads fun σ => by simp [Ty.eval, e]
      | _ => exact tidy.acyclic.run_clash_heads fun σ => by simp [Ty.eval]
    | setOrInteger e => exact absurd rfl (definite e)
    | integerOrPairs x y => exact absurd rfl (definite' x y)

end Store

end BMethod
