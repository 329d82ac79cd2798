import BMethod.Proofs.Calls

/-!
# Solving a unifier

A map from variables to types solves a unifier if it sends every bound variable to the image of its
type, every variable that awaits a choice to one of its alternatives, and the product and the operands
of every open link to the types of one reading. Types are compared up to sameness.

A unifier is made by calls that succeed, on types over the variables allocated so far and without
ambiguous parts. Unification of such types is sound: what solves the unifier after it has solved it
before and sends the two types to one (`made_sound`). It is complete where choices are read as sets: a
map that solves the unifier in this way and sends two types to one makes unification succeed and is
kept (`made_complete`). The links of products are decided as a whole or not at all (`made_links`).
-/

namespace BMethod

/-! ## Images. -/

namespace Ty

/-- The image of a type under a map of its variables. -/
def image (σ : Nat → Ty) (t : Ty) : Ty := (t.bindVars fun v => some (σ v)).getD t

lemma image_integer (σ : Nat → Ty) : image σ .integer = .integer := rfl

/-- Up to names, images are values. -/
lemma canon_image (σ : Nat → Ty) {k : Nat} {t : Ty} (ht : t.Scoped k) :
    (t.image σ).canon = t.eval (canon ∘ σ) := by
  obtain ⟨u, hu⟩ := Store.exists_bindVars (f := fun v => some (σ v)) (t := t) fun v _ => ⟨σ v, rfl⟩
  rw [image, hu, Option.getD_some]
  refine eval_of_bindVars hom_canon (fun _ _ _ => rfl) hereditary_true ht (fun v _ w hw _ => ?_) hu
    trivial
  exact congrArg canon (Option.some.inj hw).symm

lemma same_image_iff (σ : Nat → Ty) {k : Nat} {s t : Ty} (hs : s.Scoped k) (ht : t.Scoped k) :
    same (s.image σ) (t.image σ) = true ↔
      s.eval (canon ∘ σ) = t.eval (canon ∘ σ) := by
  rw [same_iff_canon, canon_image σ hs, canon_image σ ht]

end Ty

/-! ## Readings of cells and links. -/

/-- All readings. -/
def Reading.all : List Reading := [.integers, .sets]

lemma Reading.exists_mem_all {P : Reading → Prop} : (∃ r ∈ Reading.all, P r) ↔ ∃ r, P r := by
  constructor
  · rintro ⟨r, -, h⟩
    exact ⟨r, h⟩
  · rintro ⟨r, h⟩
    exact ⟨r, by cases r <;> simp [all], h⟩

/-- The type that a reading gives a variable with a cell, if anything is known of the variable. -/
def Cell.type? : Cell → Reading → Option Ty
  | .free, _ => none
  | .bound t, _ => some t
  | .setOrInteger _, .integers | .integerOrPairs _ _, .integers => some .integer
  | .setOrInteger elem, .sets => some (.set elem)
  | .integerOrPairs left right, .sets => some (.relation left right)

lemma Cell.scoped_type? {c : Cell} {k : Nat} (hc : ∀ t ∈ c.contents, t.Scoped k) {r : Reading}
    {t : Ty} (ht : t ∈ c.type? r) : t.Scoped k := by
  cases c with
  | free => cases ht
  | bound u =>
    cases ht
    exact hc _ (by simp [contents])
  | setOrInteger e =>
    cases r with
    | integers => cases ht; trivial
    | sets => cases ht; exact hc e (by simp [contents])
  | integerOrPairs x y =>
    cases r with
    | integers => cases ht; trivial
    | sets => cases ht; exact ⟨hc x (by simp [contents]), hc y (by simp [contents])⟩

/-- A cell is satisfied if a reading gives the variable its value. -/
lemma Cell.holds_iff {σ : Nat → Ty} {v : Nat} {c : Cell} :
    c.Holds σ v ↔ ∃ r, ∀ t ∈ c.type? r, σ v = t.eval σ := by
  constructor
  · intro h
    cases c with
    | free => exact ⟨.sets, nofun⟩
    | bound t => exact ⟨.sets, fun u hu => by cases hu; exact h⟩
    | setOrInteger e =>
      obtain h | h := h
      · exact ⟨.integers, fun u hu => by cases hu; exact h⟩
      · exact ⟨.sets, fun u hu => by cases hu; rw [h, Ty.eval]⟩
    | integerOrPairs x y =>
      obtain h | h := h
      · exact ⟨.integers, fun u hu => by cases hu; exact h⟩
      · exact ⟨.sets, fun u hu => by cases hu; rw [h, Ty.eval_relation]⟩
  · rintro ⟨r, h⟩
    cases c with
    | free => trivial
    | bound t => exact h t rfl
    | setOrInteger e =>
      cases r with
      | integers => exact .inl (h _ rfl)
      | sets => exact .inr (by rw [h _ rfl, Ty.eval])
    | integerOrPairs x y =>
      cases r with
      | integers => exact .inl (h _ rfl)
      | sets => exact .inr (by rw [h _ rfl, Ty.eval_relation])

/-- Without idle variables, a guess fits and reads no choice as the integers if it gives every variable
the type of its cell, read as sets. -/
lemma Store.fits_sets_iff {s : Store} {σ : Nat → Ty} :
    (s.Fits ⟨σ, ∅⟩ ∧ s.ReadsSets ⟨σ, ∅⟩) ↔ ∀ v, ∀ t ∈ (s.cell v).type? .sets, σ v = t.eval σ := by
  constructor
  · rintro ⟨fits, sets⟩ v t ht
    have cell := fits.cells v (by simp)
    have notInteger := sets v
    generalize s.cell v = c at cell notInteger ht
    cases c with
    | free => cases ht
    | bound u =>
      cases ht
      exact cell.1
    | setOrInteger e =>
      cases ht
      obtain ⟨h, -⟩ | ⟨h, -⟩ := cell
      · exact absurd h (notInteger .set)
      · simpa [Ty.eval] using h
    | integerOrPairs x y =>
      cases ht
      obtain ⟨h, -⟩ | ⟨h, -⟩ := cell
      · exact absurd h (notInteger .pairs)
      · simpa [Ty.eval, Ty.relation] using h
  · intro h
    refine ⟨⟨fun v hv => hv.elim, fun v _ => ?_⟩, fun v wait integer => ?_⟩
    · have cell := h v
      generalize s.cell v = c at cell
      cases c with
      | free => trivial
      | bound u => exact ⟨cell u rfl, fun _ _ hw => hw.elim⟩
      | setOrInteger e => exact .inr ⟨by simpa [Ty.eval] using cell _ rfl, fun _ _ hw => hw.elim⟩
      | integerOrPairs x y =>
        exact .inr ⟨by simpa [Ty.eval, Ty.relation] using cell _ rfl, fun _ _ hw => hw.elim⟩
    · have cell := h v
      generalize s.cell v = c at wait cell
      cases wait with
      | set => simp [Cell.type?, Ty.eval, show σ v = .integer from integer] at cell
      | pairs => simp [Cell.type?, Ty.eval, Ty.relation, show σ v = .integer from integer] at cell

/-! ## Solutions. -/

namespace ProductLink

/-- The product and its operands, each with what it is if the operands are sets. -/
def sets (link : ProductLink) : List (Ty × Ty) :=
  [(link.result, .set (.couple link.leftElem link.rightElem)), (link.left, .set link.leftElem),
    (link.right, .set link.rightElem)]

/-- The map sends the product and its operands to the types of one of the readings: all three to the
integers, or all three to the sets that the link says. -/
def Solved (rs : List Reading) (σ : Nat → Ty) (link : ProductLink) : Prop :=
  (.integers ∈ rs ∧ ∀ t ∈ [link.result, link.left, link.right],
      Ty.same (t.image σ) .integer = true) ∨
    (.sets ∈ rs ∧ ∀ e ∈ link.sets, Ty.same (e.1.image σ) (e.2.image σ) = true)

variable {rs : List Reading} {σ : Nat → Ty} {link : ProductLink} {k : Nat}

/-- A link is solved if a reading makes its equations true. -/
lemma Scoped.solved_iff (scope : link.Scoped k) :
    link.Solved rs σ ↔ ∃ r ∈ rs, ∀ e ∈ link.equations r,
      e.1.eval (Ty.canon ∘ σ) = e.2.eval (Ty.canon ∘ σ) := by
  have values (r : Reading) :
      (∀ e ∈ link.equations r, Ty.same (e.1.image σ) (e.2.image σ) = true) ↔
        ∀ e ∈ link.equations r, e.1.eval (Ty.canon ∘ σ) = e.2.eval (Ty.canon ∘ σ) :=
    forall₂_congr fun e he =>
      Ty.same_image_iff σ (scope.equations r e he).1 (scope.equations r e he).2
  have integers : (∀ e ∈ link.equations .integers, Ty.same (e.1.image σ) (e.2.image σ) = true) ↔
      ∀ t ∈ [link.result, link.left, link.right], Ty.same (t.image σ) .integer = true := by
    simp [ProductLink.equations, types, Ty.image_integer]
  simp only [← values]
  constructor
  · rintro (⟨mem, all⟩ | ⟨mem, all⟩)
    · exact ⟨.integers, mem, integers.2 all⟩
    · exact ⟨.sets, mem, all⟩
  · rintro ⟨r, mem, all⟩
    cases r with
    | integers => exact Or.inl ⟨mem, integers.1 all⟩
    | sets => exact Or.inr ⟨mem, all⟩

end ProductLink

namespace Unifier

variable {u : Unifier} {rs : List Reading} {σ : Nat → Ty}

/-- The map sends every variable to the type that one of the readings gives it, and solves all open
links under one of the readings. -/
structure Solves (u : Unifier) (rs : List Reading) (σ : Nat → Ty) : Prop where
  cells : ∀ v, ∃ r ∈ rs, ∀ t ∈ (u.store.cell v).type? r, Ty.same (σ v) (t.image σ) = true
  links : ∀ link ∈ u.links, link.Solved rs σ

/-- A map solves a unifier if its values do. -/
lemma Proper.solves_iff (proper : u.Proper) :
    u.Solves rs σ ↔
      (∀ v, ∃ r ∈ rs, ∀ t ∈ (u.store.cell v).type? r,
        (σ v).canon = t.eval (Ty.canon ∘ σ)) ∧
      ∀ link ∈ u.links, ∃ r ∈ rs, ∀ e ∈ link.equations r,
        e.1.eval (Ty.canon ∘ σ) = e.2.eval (Ty.canon ∘ σ) := by
  have cell (v : Nat) (r : Reading) (t : Ty) (ht : t ∈ (u.store.cell v).type? r) :
      Ty.same (σ v) (t.image σ) = true ↔ (σ v).canon = t.eval (Ty.canon ∘ σ) := by
    rw [Ty.same_iff_canon, Ty.canon_image σ (Cell.scoped_type? (proper.wellFormed.within v) ht)]
  have cells : (∀ v, ∃ r ∈ rs, ∀ t ∈ (u.store.cell v).type? r,
        Ty.same (σ v) (t.image σ) = true) ↔
      ∀ v, ∃ r ∈ rs, ∀ t ∈ (u.store.cell v).type? r,
        (σ v).canon = t.eval (Ty.canon ∘ σ) :=
    forall_congr' fun v => exists_congr fun r => and_congr_right fun _ => forall₂_congr (cell v r)
  have links : (∀ link ∈ u.links, link.Solved rs σ) ↔
      ∀ link ∈ u.links, ∃ r ∈ rs, ∀ e ∈ link.equations r,
        e.1.eval (Ty.canon ∘ σ) = e.2.eval (Ty.canon ∘ σ) :=
    forall₂_congr fun link hl => (proper.links link hl).solved_iff
  rw [← cells, ← links]
  exact ⟨fun h => ⟨h.cells, h.links⟩, fun h => ⟨h.1, h.2⟩⟩

/-- What solves a unifier under any readings satisfies it. -/
lemma Proper.solves_all_iff (proper : u.Proper) :
    u.Solves Reading.all σ ↔ u.Holds (Ty.canon ∘ σ) := by
  rw [proper.solves_iff, Holds]
  refine and_congr (forall_congr' fun v => ?_) (forall₂_congr fun link _ => ?_)
  · rw [Reading.exists_mem_all, Cell.holds_iff]
    rfl
  · rw [Reading.exists_mem_all, ProductLink.Holds]

/-- What solves a unifier with all choices read as sets is a guess that fits. -/
lemma Proper.solves_sets_iff (proper : u.Proper) :
    u.Solves [.sets] σ ↔
      (u.store.Fits ⟨Ty.canon ∘ σ, ∅⟩ ∧ u.store.ReadsSets ⟨Ty.canon ∘ σ, ∅⟩) ∧
        ∀ link ∈ u.links, ∀ e ∈ link.equations .sets,
          e.1.eval (Ty.canon ∘ σ) = e.2.eval (Ty.canon ∘ σ) := by
  rw [proper.solves_iff, Store.fits_sets_iff]
  simp

/-! ## Calls that succeed. -/

/-- What a unifier is after calls, the latest first, all of which succeed and are made with types over
the variables allocated before and without ambiguous parts. -/
inductive Made : List Call → Unifier → Prop where
  | empty : Made [] .empty
  | call {calls : List Call} {u : Unifier} (c : Call) : Made calls u →
    (∀ t ∈ c.types, t.Scoped u.store.cells.size) → (c.run u).1 = .ok () →
    Made (c :: calls) (c.run u).2

/-- Every link that was added is still open, or its equations are made true by the bindings. -/
structure Accounts (calls : List Call) (u : Unifier) : Prop where
  proper : u.Proper
  scope : ∀ link, .link link ∈ calls → link.Scoped u.store.cells.size
  links : ∀ link, .link link ∈ calls → link ∈ u.links ∨ ∃ r, u.store.Forces (link.equations r)

variable {calls : List Call}

lemma Accounts.allocate (acc : Accounts calls u) {c : Cell}
    (hc : ∀ t ∈ c.contents, t.Scoped u.store.cells.size) : Accounts calls (u.allocate c).2 where
  proper := acc.proper.allocate hc
  scope link h := by
    rw [size_allocate]
    exact (acc.scope link h).mono (by omega)
  links link h := (acc.links link h).imp_right fun ⟨r, forces⟩ =>
    ⟨r, forces.of_keeps (u.store.keeps_allocate c)⟩

lemma Accounts.concat (acc : Accounts calls u) {l : ProductLink}
    (hl : l.Scoped u.store.cells.size) :
    Accounts (.link l :: calls) ⟨u.store, u.links ++ [l]⟩ where
  proper := acc.proper.concat hl
  scope link h := by
    obtain e | h := List.mem_cons.1 h
    · cases e
      exact hl
    · exact acc.scope link h
  links link h := by
    obtain e | h := List.mem_cons.1 h
    · cases e
      exact .inl (by simp)
    · exact (acc.links link h).imp_left fun h => List.mem_append_left _ h

/-- A call that adds no link leaves as many to account for. -/
lemma Accounts.cons (acc : Accounts calls u) {c : Call} (other : ∀ link, c ≠ .link link) :
    Accounts (c :: calls) u := by
  have old {link : ProductLink} (h : Call.link link ∈ c :: calls) : .link link ∈ calls :=
    (List.mem_cons.1 h).resolve_left fun e => other link e.symm
  exact ⟨acc.proper, fun link h => acc.scope link (old h), fun link h => acc.links link (old h)⟩

/-- Where a unifier advances, a link that is closed is decided, and a decided one stays so. -/
lemma Advances.accounts {u' : Unifier} (adv : u.Advances u') (acc : Accounts calls u) :
    Accounts calls u' where
  proper := adv.proper
  scope link h := by
    rw [adv.size_eq]
    exact acc.scope link h
  links link h := by
    obtain h | ⟨r, forces⟩ := acc.links link h
    · exact adv.decided link h
    · exact .inr ⟨r, forces.of_keeps adv.narrows.keeps⟩

/-- After a call that succeeds all links are accounted for, and no open one can be decided. -/
lemma Accounts.call (acc : Accounts calls u) (settled : u.Settled) (c : Call)
    (scope : ∀ t ∈ c.types, t.Scoped u.store.cells.size) (ok : (c.run u).1 = .ok ()) :
    Accounts (c :: calls) (c.run u).2 ∧ (c.run u).2.Settled := by
  have allocated {cell : Cell} (other : ∀ link, c ≠ .link link)
      (hc : ∀ t ∈ cell.contents, t.Scoped u.store.cells.size) :
      Accounts (c :: calls) (u.allocate cell).2 ∧ (u.allocate cell).2.Settled :=
    ⟨(acc.allocate hc).cons other, settled.allocate acc.proper hc⟩
  cases c with
  | fresh => exact allocated (by simp) nofun
  | setOrInteger e => exact allocated (by simp) scope
  | integerOrPairs l r => exact allocated (by simp) scope
  | unify l r =>
    rw [Call.run_unify] at ok ⊢
    obtain ⟨t, run, uni⟩ | ⟨e, run, -⟩ :=
      acc.proper.unify_spec (scope l (by simp [Call.types])) (scope r (by simp [Call.types]))
    · exact ⟨(uni.toAdvances.accounts acc).cons (by simp), uni.settled⟩
    · rw [run] at ok
      cases ok
  | link l =>
    obtain ⟨-, links⟩ | ⟨e, run, -⟩ := acc.proper.link_spec scope
    · exact ⟨links.toAdvances.accounts (acc.concat scope), links.settled⟩
    · rw [Call.run, run] at ok
      cases ok

lemma Made.accounts (h : Made calls u) : Accounts calls u ∧ u.Settled := by
  induction h with
  | empty => exact ⟨⟨proper_empty, nofun, nofun⟩, nofun⟩
  | call c _ scope ok ih => exact ih.1.call ih.2 c scope ok

/-- The tie of the product `?3` of `?4` and `?5`, which are sets of `?0` and of `?1` if they are sets. -/
def sampleInner : ProductLink := ⟨.var 3, .var 4, .var 5, .var 0, .var 1⟩

/-- The tie of the product `?6` of the first product and `?7`. -/
def sampleOuter : ProductLink := ⟨.var 6, .var 3, .var 7, .couple (.var 0) (.var 1), .var 2⟩

/-- The calls for a product of which the left operand is a product, the latest first. -/
def sampleCalls : List Call :=
  [.link sampleOuter, .setOrInteger (.var 2), .integerOrPairs (.couple (.var 0) (.var 1)) (.var 2),
    .link sampleInner, .setOrInteger (.var 1), .setOrInteger (.var 0),
    .integerOrPairs (.var 0) (.var 1), .fresh, .fresh, .fresh]

/-- The unifier after these calls. -/
def sampleProducts : Unifier := after sampleCalls.reverse

lemma made_sampleProducts : Made sampleCalls sampleProducts := by
  refine .call _ (.call _ (.call _ (.call _ (.call _ (.call _ (.call _ (.call _ (.call _
    (.call _ .empty ?_ ?_) ?_ ?_) ?_ ?_) ?_ ?_) ?_ ?_) ?_ ?_) ?_ ?_) ?_ ?_) ?_ ?_) ?_ ?_
  all_goals decide +kernel

/-! ## What unification means. -/

/-- On a unifier made by successful calls: if two types are unified, what solves the unifier afterwards
solved it before and sends the two types and the result to one type, and the three resolve to the same
type; and what solves the unifier after a link was added solved it before and solves the link. -/
theorem made_sound (h : Made calls u) :
    (∀ l r t u', l.Scoped u.store.cells.size → r.Scoped u.store.cells.size →
      unify l r u = (.ok t, u') →
        (∀ σ, u'.Solves Reading.all σ → u.Solves Reading.all σ ∧
          Ty.same (l.image σ) (r.image σ) = true ∧ Ty.same (l.image σ) (t.image σ) = true) ∧
        ∃ x y z, u'.store.resolve? l = some x ∧ u'.store.resolve? r = some y ∧
          u'.store.resolve? t = some z ∧ Ty.same x y = true ∧ Ty.same x z = true) ∧
    ∀ product u', product.Scoped u.store.cells.size → link product u = (.ok (), u') →
      ∀ σ, u'.Solves Reading.all σ → u.Solves Reading.all σ ∧ product.Solved Reading.all σ := by
  have proper := h.accounts.1.proper
  refine ⟨fun l r t u' hl hr run => ?_, fun product u' scope run σ sol => ?_⟩
  · obtain ⟨t', ok, uni⟩ | ⟨e, error, -⟩ := proper.unify_spec hl hr
    · rw [run] at ok uni
      cases ok
      refine ⟨fun σ sol => ?_, ?_⟩
      · have holds := uni.proper.solves_all_iff.1 sol
        obtain ⟨left, result⟩ := uni.eval_eq holds.1.respects
        exact ⟨proper.solves_all_iff.2 (uni.holds holds), (Ty.same_image_iff σ hl hr).2 left,
          (Ty.same_image_iff σ hl uni.scope).2 result.symm⟩
      · have wf := uni.proper.wellFormed
        obtain ⟨x, hx⟩ := wf.acyclic.exists_resolve? l
        obtain ⟨y, hy⟩ := wf.acyclic.exists_resolve? r
        obtain ⟨z, hz⟩ := wf.acyclic.exists_resolve? t
        have scope := uni.scope
        rw [← uni.size_eq] at hl hr scope
        exact ⟨x, y, z, hx, hy, hz, uni.forces.same wf (e := (l, r)) (by simp) hl hr hx hy,
          Ty.same_comm (uni.forces.same wf (e := (t, l)) (by simp) scope hl hz hx)⟩
    · rw [run] at error
      cases error
  · obtain ⟨-, links⟩ | ⟨e, error, -⟩ := proper.link_spec scope
    · rw [run] at links
      obtain ⟨old, new⟩ := links.sound (links.proper.solves_all_iff.1 sol)
      refine ⟨proper.solves_all_iff.2 old, scope.solved_iff.2 ?_⟩
      exact Reading.exists_mem_all.2 new
    · rw [run] at error
      cases error

/-- Deciding that the outer right operand is an integer says so of the inner operands. -/
theorem made_sound_sampleProducts :
    Made sampleCalls sampleProducts ∧
      (unify (.var 7) .integer sampleProducts).1 = .ok .integer ∧
      (unify (.var 7) .integer sampleProducts).2.links = [] ∧
      ∀ σ, (unify (.var 7) .integer sampleProducts).2.Solves Reading.all σ →
        sampleProducts.Solves Reading.all σ ∧ Ty.same (σ 7) .integer = true := by
  have run : unify (.var 7) .integer sampleProducts =
      (.ok .integer, (unify (.var 7) .integer sampleProducts).2) := by
    refine Prod.ext ?_ rfl
    decide +kernel
  obtain ⟨sound, -⟩ := (made_sound made_sampleProducts).1 (.var 7) .integer .integer _
    (by decide +kernel) trivial run
  refine ⟨made_sampleProducts, by decide +kernel, by decide +kernel, fun σ sol => ?_⟩
  obtain ⟨old, same, -⟩ := sound σ sol
  exact ⟨old, same⟩

/-- On a unifier made by successful calls: if a map solves it with all choices and links read as sets
and sends two types to one, unifying them succeeds, and the map solves the unifier in the same way
afterwards. -/
theorem made_complete (h : Made calls u) {l r : Ty} (hl : l.Scoped u.store.cells.size)
    (hr : r.Scoped u.store.cells.size) {σ : Nat → Ty} (sol : u.Solves [.sets] σ)
    (eq : Ty.same (l.image σ) (r.image σ) = true) :
    ∃ t u', unify l r u = (.ok t, u') ∧ u'.Solves [.sets] σ := by
  have proper := h.accounts.1.proper
  obtain ⟨⟨fits, sets⟩, links⟩ := proper.solves_sets_iff.1 sol
  -- Nothing is idle, so every scoped type means its value.
  have means {t : Ty} (ht : t.Scoped u.store.cells.size) :
      Guess.Means ⟨Ty.canon ∘ σ, ∅⟩ u.store.cells.size t (t.eval (Ty.canon ∘ σ)) :=
    ⟨⟨ht, by simp⟩, rfl⟩
  have all : u.Fits ⟨Ty.canon ∘ σ, ∅⟩ := by
    refine ⟨fits, fun link hlink => ⟨.sets, fun e he => ?_⟩⟩
    obtain ⟨sl, sr⟩ := (proper.links link hlink).equations .sets e he
    exact ⟨_, links link hlink e he ▸ means sl, means sr⟩
  have ml := means hl
  rw [(Ty.same_image_iff σ hl hr).1 eq] at ml
  obtain ⟨t, ok, uni⟩ | ⟨e, -, -, refused⟩ := proper.unify_spec hl hr
  · refine ⟨t, _, Prod.ext ok rfl, uni.proper.solves_sets_iff.2 ⟨⟨?_, ?_⟩, fun link hlink => ?_⟩⟩
    · exact (uni.complete _ _ all ml (means hr)).1.1
    · exact sets.narrows uni.narrows
    · exact links link (uni.links link hlink)
  · exact absurd sets (refused _ _ all ml (means hr)).2

/-- The map that makes the operands sets of booleans, of strings and of reals. -/
def sampleSets : Nat → Ty
  | 0 => .bool
  | 1 => .string
  | 3 => .relation .bool .string
  | 4 => .set .bool
  | 5 => .set .string
  | 6 => .relation (.couple .bool .string) .real
  | 7 => .set .real
  | _ => .real

/-- Unifying the outer product with a set of pairs decides both products. -/
theorem made_complete_sampleProducts :
    Made sampleCalls sampleProducts ∧ sampleProducts.Solves [.sets] sampleSets ∧
      ∃ t u', unify (.var 6) (.relation (.couple .bool (.var 1)) (.var 2)) sampleProducts =
        (.ok t, u') ∧ u'.Solves [.sets] sampleSets := by
  have cells : ∀ v < 8, ∃ r ∈ [Reading.sets], ∀ t ∈ (sampleProducts.store.cell v).type? r,
      Ty.same (sampleSets v) (t.image sampleSets) = true := by
    decide +kernel
  have solves : sampleProducts.Solves [.sets] sampleSets := by
    refine ⟨fun v => ?_, ?_⟩
    · by_cases lt : v < 8
      · exact cells v lt
      · have free : sampleProducts.store.cell v = .free :=
          Store.cell_of_size_le (Nat.le_trans (by decide +kernel) (Nat.le_of_not_lt lt))
        exact ⟨.sets, by simp, by simp [free, Cell.type?]⟩
    · unfold ProductLink.Solved
      decide +kernel
  exact ⟨made_sampleProducts, solves, made_complete made_sampleProducts (by decide +kernel)
    (by decide +kernel) solves (by decide +kernel)⟩

/-- On a unifier made by successful calls, every link that was added is open and nothing is decided of
the product and its operands, or these are all integers, or they are all the sets that the link says. -/
theorem made_links (h : Made calls u) {product : ProductLink} (added : .link product ∈ calls) :
    (product ∈ u.links ∧ ∀ t ∈ [product.result, product.left, product.right],
        ∃ x, u.store.head? t = some x ∧ x ≠ .integer ∧ ∀ e, x ≠ .set e) ∨
      (∀ t ∈ [product.result, product.left, product.right], u.store.resolve? t = some .integer) ∨
      ∀ e ∈ product.sets, ∃ x y, u.store.resolve? e.1 = some x ∧ u.store.resolve? e.2 = some y ∧
        Ty.same x y = true := by
  obtain ⟨⟨proper, scope, links⟩, settled⟩ := h.accounts
  have wf := proper.wellFormed
  obtain isOpen | ⟨r, forces⟩ := links product added
  · left
    refine ⟨isOpen, fun t ht => ?_⟩
    exact Store.reading?_eq_none (Store.firstReading?_eq_none (settled product isOpen) t ht)
  · have resolved : ∀ e ∈ product.equations r, ∃ x y, u.store.resolve? e.1 = some x ∧
        u.store.resolve? e.2 = some y ∧ Ty.same x y = true := by
      intro e he
      obtain ⟨x, hx⟩ := wf.acyclic.exists_resolve? e.1
      obtain ⟨y, hy⟩ := wf.acyclic.exists_resolve? e.2
      obtain ⟨sl, sr⟩ := (scope product added).equations r e he
      exact ⟨x, y, hx, hy, forces.same wf he sl sr hx hy⟩
    right
    cases r with
    | sets => exact .inr resolved
    | integers =>
      left
      intro t ht
      obtain ⟨x, y, hx, hy, same⟩ := resolved (t, .integer) (by
        simpa [ProductLink.equations, ProductLink.types] using ht)
      cases (u.store.resolve?_of_vars_eq_nil rfl).symm.trans hy
      rw [hx, Ty.eq_integer_of_same same]

/-- Deciding the outer product has decided the inner one. -/
theorem made_links_sampleProducts :
    Made (.unify (.var 7) .integer :: sampleCalls)
        ((Call.unify (.var 7) .integer).run sampleProducts).2 ∧
      ∀ t ∈ [sampleInner.result, sampleInner.left, sampleInner.right],
        ((Call.unify (.var 7) .integer).run sampleProducts).2.store.resolve? t = some .integer := by
  have made : Made (.unify (.var 7) .integer :: sampleCalls)
      ((Call.unify (.var 7) .integer).run sampleProducts).2 :=
    .call _ made_sampleProducts (by decide +kernel) (by decide +kernel)
  have added : Call.link sampleInner ∈ Call.unify (.var 7) .integer :: sampleCalls := by
    simp [sampleCalls]
  refine ⟨made, ?_⟩
  obtain ⟨isOpen, -⟩ | integers | sets := made_links made added
  · exact absurd isOpen (by decide +kernel)
  · exact integers
  · obtain ⟨x, y, hx, hy, same⟩ := sets (.var 4, .set (.var 0))
      (by simp [sampleInner, ProductLink.sets])
    have left : ((Call.unify (.var 7) .integer).run sampleProducts).2.store.resolve? (.var 4) =
        some .integer := by decide +kernel
    have right : ((Call.unify (.var 7) .integer).run sampleProducts).2.store.resolve?
        (.set (.var 0)) = some (.set (.var 0)) := by decide +kernel
    cases left.symm.trans hx
    cases right.symm.trans hy
    cases same

end Unifier

end BMethod
