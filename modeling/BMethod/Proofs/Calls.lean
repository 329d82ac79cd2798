import BMethod.Proofs.Unifier

/-!
# Calls to a unifier

A unifier is used through five calls: three that add a variable, unification, and the link of a
product. The types of a call may have ambiguous parts, and a call may fail; the unifier is then used
on as the call has left it. If every call is made with types over the variables allocated so far, no
variable ever leads back to itself, and no call and no search goes on forever (`reached_total`). What
a call has found out is never taken back, neither by a later call nor by a failure
(`reached_permanent`).
-/

namespace BMethod

open Relation

/-! ## Resolved types. -/

/-- The variables of a type with its variables replaced are found in what is put for them. -/
lemma Ty.mem_vars_bindVars {f : Nat → Option Ty} {t u : Ty} (h : t.bindVars f = some u) {v : Nat}
    (hv : v ∈ u.vars) : ∃ w x, f w = some x ∧ v ∈ x.vars := by
  induction t generalizing u with
  | var w => exact ⟨w, u, h, hv⟩
  | set t ih | setOrInteger t ih =>
    simp only [bindVars_set_eq_some, bindVars_setOrInteger_eq_some] at h
    obtain ⟨x, hx, rfl⟩ := h
    exact ih hx hv
  | couple l r ihl ihr | integerOrPairs l r ihl ihr =>
    simp only [bindVars_couple_eq_some, bindVars_integerOrPairs_eq_some] at h
    obtain ⟨x, hx, y, hy, rfl⟩ := h
    simp only [vars, List.mem_append] at hv
    exact hv.elim (ihl hx) (ihr hy)
  | record fields ih =>
    rw [bindVars_record_eq_some] at h
    obtain ⟨gs, hgs, rfl⟩ := h
    simp only [vars, mem_fieldVars] at hv
    obtain ⟨g, hg, hv⟩ := hv
    induction hgs with
    | nil => cases hg
    | @cons x y fields gs hxy _ ihf =>
      obtain rfl | hg := List.mem_cons.1 hg
      · exact ih x (by simp) hxy.2 hv
      · exact ihf (fun z hz => ih z (by simp [hz])) hg
  | _ =>
    cases h
    simp [vars] at hv

namespace Store

variable {s : Store}

/-- What a variable stands for mentions variables of which nothing is known, if so does what the
types of its cell stand for. -/
lemma cell_of_mem_expand {inside : Ty → Option Ty} {v w : Nat} {x : Ty}
    (free : ∀ t u, inside t = some u → ∀ z ∈ u.vars, s.cell z = .free)
    (h : s.expand inside w = some x) (hv : v ∈ x.vars) : s.cell v = .free := by
  rw [expand] at h
  cases hc : s.cell w with
  | free =>
    simp only [hc, Option.some.injEq] at h
    subst h
    obtain rfl : v = w := by simpa [Ty.vars] using hv
    exact hc
  | bound t =>
    rw [hc] at h
    exact free t x h v hv
  | setOrInteger e =>
    simp only [hc, Option.bind_eq_bind, Option.bind_eq_some_iff, Option.pure_def,
      Option.some.injEq] at h
    obtain ⟨y, hy, rfl⟩ := h
    exact free e y hy v hv
  | integerOrPairs l r =>
    simp only [hc, Option.bind_eq_bind, Option.bind_eq_some_iff, Option.pure_def,
      Option.some.injEq] at h
    obtain ⟨y, hy, z, hz, rfl⟩ := h
    obtain hv | hv := List.mem_append.1 hv
    · exact free l y hy v hv
    · exact free r z hz v hv

/-- A resolved type mentions variables of which nothing is known. -/
lemma cell_of_mem_resolveWithin {n : Nat} {t u : Ty} (h : s.resolveWithin n t = some u) {v : Nat}
    (hv : v ∈ u.vars) : s.cell v = .free := by
  induction n generalizing t u v with
  | zero =>
    obtain ⟨w, x, hx, hv⟩ := Ty.mem_vars_bindVars h hv
    exact cell_of_mem_expand (fun _ _ h => by cases h) hx hv
  | succ n ih =>
    obtain ⟨w, x, hx, hv⟩ := Ty.mem_vars_bindVars h hv
    exact cell_of_mem_expand (fun _ _ h _ hv => ih h hv) hx hv

/-! ## Unification of types with ambiguous parts. -/

lemma Tidy.unify_grows (tidy : s.Tidy True) {l r : Ty} (hl : l.Inside True s.cells.size Set.univ)
    (hr : r.Inside True s.cells.size Set.univ) :
    Grows True Set.univ s (unify l r s).2 ∧ ∀ t, (unify l r s).1 = .ok t →
      t.Inside True (unify l r s).2.cells.size Set.univ :=
  (runsBy_unifyWithin _ s l r tidy hl hr).grows tidy (s.region_univ True) hl hr

/-- Unifying equations grows the store and comes to an end. -/
lemma Tidy.unifyAll_grows (tidy : s.Tidy True) {es : List (Ty × Ty)}
    (scope : ∀ e ∈ es, e.1.Inside True s.cells.size Set.univ ∧
      e.2.Inside True s.cells.size Set.univ) :
    Grows True Set.univ s (unifyAll es s).2 ∧ (unifyAll es s).1 ≠ .error .divergence := by
  induction es generalizing s with
  | nil => exact ⟨.refl, nofun⟩
  | cons e es ih =>
    obtain ⟨l, r⟩ := e
    obtain ⟨⟨hl, hr⟩, rest⟩ := List.forall_mem_cons.1 scope
    have g := (tidy.unify_grows hl hr).1
    have total := tidy.unify_ne_divergence hl hr
    rw [unifyAll, run_bind, run_discard]
    revert g total
    obtain ⟨_ | t, s'⟩ := unify l r s
    · exact fun g total => ⟨g, by simpa using total⟩
    · intro g _
      obtain ⟨g', total'⟩ := ih (g.tidy tidy) fun e he =>
        ⟨(rest e he).1.mono g.size_le subset_rfl, (rest e he).2.mono g.size_le subset_rfl⟩
      exact ⟨g.trans g', total'⟩

end Store

namespace Unifier

variable {u : Unifier}

/-- A tidy store with links over its variables. -/
structure Tidy (u : Unifier) : Prop where
  store : u.store.Tidy True
  links : ∀ l ∈ u.links, ∀ t ∈ l.parts, t.Inside True u.store.cells.size Set.univ

/-- The store has grown, and a link is among the old ones. -/
structure Grows (u u' : Unifier) : Prop where
  store : Store.Grows True Set.univ u.store u'.store
  links : ∀ l ∈ u'.links, l ∈ u.links

lemma Grows.trans {u' u'' : Unifier} (g : u.Grows u') (g' : u'.Grows u'') : u.Grows u'' :=
  ⟨g.store.trans g'.store, fun l hl => g.links l (g'.links l hl)⟩

lemma Grows.tidy {u' : Unifier} (g : u.Grows u') (tidy : u.Tidy) : u'.Tidy where
  store := g.store.tidy tidy.store
  links l hl t ht := (tidy.links l (g.links l hl) t ht).mono g.store.size_le subset_rfl

/-- The equations of a link are over the variables of the link. -/
lemma Tidy.equations (tidy : u.Tidy) {l : ProductLink} (hl : l ∈ u.links) (r : Reading) :
    ∀ e ∈ l.equations r, e.1.Inside True u.store.cells.size Set.univ ∧
      e.2.Inside True u.store.cells.size Set.univ := by
  have parts := tidy.links l hl
  simp only [ProductLink.parts, List.forall_mem_cons] at parts
  have integer : Ty.Inside True u.store.cells.size Set.univ .integer := Ty.inside_true.2 (by simp [Ty.vars])
  cases r <;> simp [ProductLink.equations, ProductLink.types, Ty.relation, parts, integer]

/-- Deciding links comes to an end. -/
lemma Tidy.decideWithin_grows (tidy : u.Tidy) (n : Nat) :
    u.Grows (decideWithin n u).2 ∧ (decideWithin n u).1 ≠ .error .divergence := by
  induction n generalizing u with
  | zero => exact ⟨⟨.refl, fun _ h => h⟩, by simp [decideWithin, run_pure]⟩
  | succ n ih =>
    rw [decideWithin, run_bind, run_get]
    obtain ⟨none, -⟩ | ⟨link, r, rest, some, -, perm⟩ :=
      tidy.store.acyclic.firstDecided?_spec u.links
    · simp only [none]
      exact ⟨⟨.refl, fun _ h => h⟩, by simp [run_pure]⟩
    · have mine : link ∈ u.links := perm.mem_iff.2 (by simp)
      have others (l : ProductLink) (hl : l ∈ rest) : l ∈ u.links := perm.mem_iff.2 (by simp [hl])
      obtain ⟨g, total⟩ := tidy.store.unifyAll_grows (tidy.equations mine r)
      rw [← link.decide_eq r] at g total
      simp only [some, run_bind, run_set, run_onStore]
      revert g total
      obtain ⟨_ | _, s'⟩ := link.decide r u.store
      · exact fun g total => ⟨⟨g, others⟩, by simpa using total⟩
      · intro g _
        have g' : u.Grows ⟨s', rest⟩ := ⟨g, others⟩
        obtain ⟨g'', total⟩ := ih (g'.tidy tidy)
        exact ⟨g'.trans g'', total⟩

/-! ## Calls. -/

/-- The ways to use a unifier. -/
inductive Call where
  | fresh
  | setOrInteger (elem : Ty)
  | integerOrPairs (left right : Ty)
  | unify (left right : Ty)
  | link (l : ProductLink)

namespace Call

/-- The types that a call is made with. -/
def types : Call → List Ty
  | .fresh => []
  | .setOrInteger elem => [elem]
  | .integerOrPairs left right | .unify left right => [left, right]
  | .link l => l.parts

/-- Makes the call. -/
def run : Call → UnifierM Unit
  | .fresh => discard (modifyGet (·.allocate .free))
  | .setOrInteger elem => discard (modifyGet (·.allocate (.setOrInteger elem)))
  | .integerOrPairs left right => discard (modifyGet (·.allocate (.integerOrPairs left right)))
  | .unify left right => discard (Unifier.unify left right)
  | .link l => Unifier.link l

lemma run_unify (left right : Ty) (u : Unifier) :
    (Call.unify left right).run u =
      ((Unifier.unify left right u).1.map fun _ => (), (Unifier.unify left right u).2) := by
  rw [run, run_discard]
  obtain ⟨_ | _, _⟩ := Unifier.unify left right u <;> rfl

/-- The types of the call mention variables that are allocated. -/
def Scoped (c : Call) (u : Unifier) : Prop :=
  ∀ t ∈ c.types, ∀ v ∈ t.vars, v < u.store.cells.size

instance (c : Call) (u : Unifier) : Decidable (c.Scoped u) :=
  inferInstanceAs (Decidable (∀ t ∈ c.types, ∀ v ∈ t.vars, v < u.store.cells.size))

end Call

/-- What a unifier may be after calls, some of which may have failed. -/
inductive Reached : Unifier → Prop where
  | empty : Reached .empty
  | call {u : Unifier} (c : Call) : Reached u → c.Scoped u → Reached (c.run u).2

lemma tidy_empty : Unifier.empty.Tidy := ⟨Store.wellFormed_empty.tidy, nofun⟩

lemma Tidy.allocate (tidy : u.Tidy) {c : Cell}
    (hc : ∀ t ∈ c.contents, t.Inside True u.store.cells.size Set.univ) : (u.allocate c).2.Tidy where
  store := tidy.store.allocate hc
  links l hl t ht := by
    rw [size_allocate]
    exact (tidy.links l hl t ht).mono (by omega) subset_rfl

/-- Unification grows the unifier, comes to an end and gives a type over its variables. -/
lemma Tidy.unify_spec (tidy : u.Tidy) {l r : Ty} (hl : l.Inside True u.store.cells.size Set.univ)
    (hr : r.Inside True u.store.cells.size Set.univ) :
    u.Grows (Unifier.unify l r u).2 ∧ (Unifier.unify l r u).1 ≠ .error .divergence ∧
      ∀ t, (Unifier.unify l r u).1 = .ok t →
        t.Inside True (Unifier.unify l r u).2.store.cells.size Set.univ := by
  have g := tidy.store.unify_grows hl hr
  have total := tidy.store.unify_ne_divergence hl hr
  rw [Unifier.unify, run_bind, run_onStore]
  revert g total
  obtain ⟨_ | t, s'⟩ := Store.unify l r u.store
  · exact fun g total => ⟨⟨g.1, fun _ h => h⟩, by simpa using total, fun _ h => by cases h⟩
  · intro g _
    have grows : u.Grows ⟨s', u.links⟩ := ⟨g.1, fun _ h => h⟩
    obtain ⟨g', total⟩ := (grows.tidy tidy).decideWithin_grows u.links.length
    simp only [run_bind, decideLinks, run_get]
    revert g' total
    obtain ⟨_ | _, u'⟩ := decideWithin u.links.length ⟨s', u.links⟩
    · exact fun g' total => ⟨grows.trans g', by simpa using total, fun _ h => by cases h⟩
    · refine fun g' _ => ⟨grows.trans g', by simp [run_pure], fun x h => ?_⟩
      cases h
      exact (g.2 t rfl).mono g'.store.size_le subset_rfl

/-- A call leaves the unifier tidy, grows its store and comes to an end. -/
lemma Tidy.run_call (tidy : u.Tidy) {c : Call} (scope : c.Scoped u) :
    (c.run u).2.Tidy ∧ Store.Grows True Set.univ u.store (c.run u).2.store ∧
      (c.run u).1 ≠ .error .divergence := by
  have inside (t : Ty) (ht : t ∈ c.types) : t.Inside True u.store.cells.size Set.univ :=
    Ty.inside_true.2 (scope t ht)
  have grown {cell : Cell}
      (hc : ∀ t ∈ cell.contents, t.Inside True u.store.cells.size Set.univ) :
      Store.Grows True Set.univ u.store (u.allocate cell).2.store :=
    .single (.grow trivial trivial hc)
  have free : ∀ t ∈ Cell.free.contents, t.Inside True u.store.cells.size Set.univ := nofun
  cases c with
  | fresh => exact ⟨tidy.allocate free, grown free, fun h => by cases h⟩
  | setOrInteger e => exact ⟨tidy.allocate inside, grown inside, fun h => by cases h⟩
  | integerOrPairs l r => exact ⟨tidy.allocate inside, grown inside, fun h => by cases h⟩
  | unify l r =>
    obtain ⟨g, total, -⟩ := tidy.unify_spec (inside l (by simp [Call.types]))
      (inside r (by simp [Call.types]))
    rw [Call.run_unify]
    refine ⟨g.tidy tidy, g.store, fun h => ?_⟩
    cases out : (Unifier.unify l r u).1 with
    | error e =>
      rw [out] at h total
      cases h
      exact total rfl
    | ok t =>
      rw [out] at h
      cases h
  | link l =>
    have tidy' : Tidy ⟨u.store, u.links ++ [l]⟩ := by
      refine ⟨tidy.store, fun l' hl => ?_⟩
      obtain hl | hl := List.mem_append.1 hl
      · exact tidy.links l' hl
      · rw [List.mem_singleton.1 hl]
        exact inside
    obtain ⟨g, total⟩ := tidy'.decideWithin_grows (u.links ++ [l]).length
    rw [Call.run, Unifier.link]
    simp only [decideLinks, run_bind, run_modify, run_get]
    exact ⟨g.tidy tidy', g.store, total⟩

lemma Reached.tidy (h : Reached u) : u.Tidy := by
  induction h with
  | empty => exact tidy_empty
  | call c _ scope ih => exact (ih.run_call scope).1

/-- The unifier after calls, made one after the other. -/
def after (calls : List Call) : Unifier := calls.foldl (fun u c => (c.run u).2) .empty

/-- What is reached is reached by calls, and so is what these calls have made on the way. -/
lemma Reached.exists_calls (h : Reached u) :
    ∃ calls, u = after calls ∧ ∀ prior, prior <+: calls → Reached (after prior) := by
  induction h with
  | empty =>
    refine ⟨[], rfl, fun prior le => ?_⟩
    rw [List.prefix_nil.1 le]
    exact .empty
  | @call u c reached scope ih =>
    -- A list of calls that comes before this one ends with it, or it was there already.
    obtain ⟨calls, rfl, prior⟩ := ih
    have last : ((c.run (after calls)).2) = after (calls ++ [c]) := by simp [after]
    refine ⟨calls ++ [c], last, fun cs le => ?_⟩
    obtain rfl | le := List.prefix_concat_iff.1 le
    · rw [← last]
      exact .call c reached scope
    · exact prior cs le

/-- Whatever calls were made with types over the variables allocated before, and whether they failed
or not: every further call comes to an end, the variables in cells and links are allocated, no
variable leads back to itself, and the searches on the store end, resolving with a type that mentions
no bound variable. -/
theorem reached_total (h : Reached u) :
    (∀ c : Call, c.Scoped u → (c.run u).1 ≠ .error .divergence) ∧
      (∀ v w, u.store.Edge v w → w < u.store.cells.size) ∧
      (∀ l ∈ u.links, ∀ t ∈ l.parts, ∀ v ∈ t.vars, v < u.store.cells.size) ∧
      u.store.Acyclic ∧
      ∀ t : Ty, (∀ v ∈ t.vars, v < u.store.cells.size) →
        (∃ x, u.store.head? t = some x) ∧
        (∀ v, ∃ found, u.store.occurs? v t = some found) ∧
        ∃ x, u.store.resolve? t = some x ∧ ∀ v ∈ x.vars, (u.store.cell v).Unbound := by
  have tidy := h.tidy
  have ac := tidy.store.acyclic
  refine ⟨fun c scope => (tidy.run_call scope).2.2, fun v w e => tidy.store.edge_lt e,
    fun l hl t ht => Ty.inside_true.1 (tidy.links l hl t ht), ac, fun t _ => ⟨ac.exists_head? t, ?_, ?_⟩⟩
  · intro v
    exact ⟨_, ac.occurs?_eq v t⟩
  · obtain ⟨x, hx⟩ := ac.exists_resolve? t
    refine ⟨x, hx, fun v hv b => ?_⟩
    simp [Store.cell_of_mem_resolveWithin hx hv]

/-- After a call that fails: `?1` is an integer or a set of `?0`, and the elements of a set can not be
`?0` and also either integers or sets of `?0`. The call has added a variable before it failed. -/
def sampleCalled : Unifier :=
  ((Call.unify (.var 1) (.set (.setOrInteger (.var 0)))).run
    ((Call.setOrInteger (.var 0)).run (Call.fresh.run .empty).2).2).2

theorem reached_total_sampleCalled :
    sampleCalled.Reached ∧ sampleCalled.store.cell 2 = .setOrInteger (.var 0) ∧
      sampleCalled.store.Acyclic ∧
      ((Call.unify (.var 0) (.var 2)).run sampleCalled).1 ≠ .error .divergence := by
  have h : sampleCalled.Reached :=
    .call _ (.call _ (.call _ .empty (by decide)) (by decide)) (by decide +kernel)
  exact ⟨h, by decide +kernel, (reached_total h).2.2.2.1, (reached_total h).1 _ (by decide +kernel)⟩

/-! ## What stays known. -/

/-- Whatever calls were made with types over the variables allocated before, and whether they failed
or not: every further call, whether it fails or not, leaves a bound variable bound to the same type,
and a type that resolves to a concrete type resolves to exactly this type afterwards. -/
theorem reached_permanent (h : Reached u) {c : Call} (scope : c.Scoped u) :
    (∀ v t, u.store.cell v = .bound t → (c.run u).2.store.cell v = .bound t) ∧
      ∀ t x, u.store.resolve? t = some x → x.isConcrete = true →
        (c.run u).2.store.resolve? t = some x := by
  have grows := (h.tidy.run_call scope).2.1
  exact ⟨grows.keeps, fun t x hx hc => grows.keeps.resolve?_eq grows.size_le hx hc⟩

/-- After the choice between integers and sets of `?0` was decided for sets of booleans. -/
def sampleNarrowed : Unifier :=
  ((Call.unify (.var 1) (.set .bool)).run
    ((Call.setOrInteger (.var 0)).run (Call.fresh.run .empty).2).2).2

/-- A failing call goes through `?1`, whose type and whose element type stay what they were. -/
theorem reached_permanent_sampleNarrowed :
    sampleNarrowed.Reached ∧
      ((Call.unify (.couple (.var 2) (.var 1)) (.couple .integer .real)).run
        (Call.fresh.run sampleNarrowed).2).1.toBool = false ∧
      ((Call.unify (.couple (.var 2) (.var 1)) (.couple .integer .real)).run
        (Call.fresh.run sampleNarrowed).2).2.store.cell 1 = .bound (.set .bool) ∧
      ((Call.unify (.couple (.var 2) (.var 1)) (.couple .integer .real)).run
        (Call.fresh.run sampleNarrowed).2).2.store.resolve? (.couple (.var 0) (.var 1)) =
          some (.couple .bool (.set .bool)) := by
  have h : sampleNarrowed.Reached :=
    .call _ (.call _ (.call _ .empty (by decide)) (by decide)) (by decide +kernel)
  have later : Reached (Call.fresh.run sampleNarrowed).2 := .call _ h (by decide +kernel)
  have stays := reached_permanent later
    (c := .unify (.couple (.var 2) (.var 1)) (.couple .integer .real)) (by decide +kernel)
  exact ⟨h, by decide +kernel, stays.1 1 _ (by decide +kernel),
    stays.2 _ _ (by decide +kernel) (by decide)⟩

end Unifier

end BMethod
