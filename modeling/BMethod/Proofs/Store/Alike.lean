import BMethod.Proofs.Store.Depth
import BMethod.Proofs.Store.Identify

/-!
# Stores that differ in representatives

When two unbound variables are unified, either may come to stand for both, with its own alternatives.
Two stores are alike on a set of variables if their bindings identify the same types, and an unbound
variable of the one has, up to what is identified, the cell of the unbound variable of the other that
it is identified with (`Alike`). On a closed set, alike stores lead to the same unbound variables, so
their occurs checks agree (`Alike.occurs`, `Alike.entangled`).

While two variables are being joined, their alternatives are not yet identified, and the stores are
alike only where the variables are not found. Stores that are alike stay so under
bindings inside a closed set on which they are alike again afterwards (`Alike.extend`).
-/

namespace BMethod

open Relation

/-- How much a cell says about a variable that is not bound. -/
def Cell.detail : Cell → Nat
  | .free => 0
  | .setOrInteger _ => 1
  | .integerOrPairs _ _ => 2
  | .bound _ => 3

/-- The equation that follows from the cells of two variables that are joined. -/
def Cell.equation? : Cell → Cell → Option (Store.Stage × Ty × Ty)
  | .setOrInteger x, .setOrInteger y => some (.types, x, y)
  | .setOrInteger e, .integerOrPairs l r | .integerOrPairs l r, .setOrInteger e =>
    some (.types, e, .couple l r)
  | .integerOrPairs x y, .integerOrPairs z w => some (.heads, .couple x y, .couple z w)
  | _, _ => none

namespace Store

/-- Two cells of unbound variables that say the same. -/
inductive Similar (s : Store) : Cell → Cell → Prop where
  | free : Similar s .free .free
  | sets {e e' : Ty} : s.Identifies e e' → Similar s (.setOrInteger e) (.setOrInteger e')
  | pairs {l r l' r' : Ty} : s.Identifies l l' → s.Identifies r r' →
    Similar s (.integerOrPairs l r) (.integerOrPairs l' r')

/-- Two types are identified with two others, in their order or in the other. -/
def Matches (s : Store) (l r l' r' : Ty) : Prop :=
  s.Identifies l l' ∧ s.Identifies r r' ∨ s.Identifies l r' ∧ s.Identifies r l'

/-- Two stores whose bindings identify the same types, and whose unbound variables in a set have
similar cells. -/
structure Alike (C : Set Nat) (s s' : Store) : Prop where
  wellFormed : s.WellFormed
  wellFormed' : s'.WellFormed
  size_eq : s'.cells.size = s.cells.size
  entails : s.Entails s'
  entails' : s'.Entails s
  cells : ∀ v ∈ C, ∀ v' ∈ C, (s.cell v).Unbound → (s'.cell v').Unbound →
    s.Identifies (.var v) (.var v') → s.Similar (s.cell v) (s'.cell v')

variable {s s' s₁ s₁' : Store} {C D : Set Nat} {l r l' r' t t' : Ty}

/-! ## Similar cells. -/

namespace Similar

variable {c c' : Cell}

lemma refl (h : c.Unbound) : s.Similar c c := by
  cases c with
  | free => exact .free
  | bound t => exact absurd rfl (h t)
  | setOrInteger => exact .sets (.refl _)
  | integerOrPairs => exact .pairs (.refl _) (.refl _)

lemma symm (h : s.Similar c c') : s.Similar c' c := by
  cases h with
  | free => exact .free
  | sets e => exact .sets e.symm
  | pairs e e' => exact .pairs e.symm e'.symm

lemma trans {c'' : Cell} (h : s.Similar c c') (h' : s.Similar c' c'') : s.Similar c c'' := by
  cases h with
  | free => exact h'
  | sets e =>
    cases h' with
    | sets e' => exact .sets (e.trans e')
  | pairs el er =>
    cases h' with
    | pairs el' er' => exact .pairs (el.trans el') (er.trans er')

lemma mono (h : s.Similar c c') (ent : s'.Entails s) : s'.Similar c c' := by
  cases h with
  | free => exact .free
  | sets e => exact .sets (e.mono ent)
  | pairs e e' => exact .pairs (e.mono ent) (e'.mono ent)

/-- What the one mentions stands in a type that is identified with a type of the other. -/
lemma exists_mention (h : s.Similar c c') {v : Nat} (hv : v ∈ c.mentions) :
    ∃ t t', v ∈ t.vars ∧ t' ∈ c'.contents ∧ s.Identifies t t' := by
  obtain ⟨t, ht, hv'⟩ := Cell.mem_mentions.1 hv
  cases h with
  | free => cases ht
  | @sets e e' eq =>
    obtain rfl : t = e := by simpa [Cell.contents] using ht
    exact ⟨t, e', hv', by simp [Cell.contents], eq⟩
  | @pairs l r l' r' eq eq' =>
    obtain rfl | rfl : t = l ∨ t = r := by simpa [Cell.contents] using ht
    · exact ⟨t, l', hv', by simp [Cell.contents], eq⟩
    · exact ⟨t, r', hv', by simp [Cell.contents], eq'⟩

lemma awaits (h : s.Similar c c') (wait : Awaits c) : Awaits c' := by
  cases h with
  | free => cases wait
  | sets => exact .set
  | pairs => exact .pairs

end Similar

namespace Matches

lemma symm (h : s.Matches l r l' r') : s.Matches l' r' l r :=
  h.imp (fun h => ⟨h.1.symm, h.2.symm⟩) fun h => ⟨h.2.symm, h.1.symm⟩

lemma swap (h : s.Matches l r l' r') : s.Matches r l l' r' :=
  (Or.symm h).imp And.symm And.symm

lemma mono (h : s.Matches l r l' r') (ent : s'.Entails s) : s'.Matches l r l' r' :=
  h.imp (fun h => ⟨h.1.mono ent, h.2.mono ent⟩) fun h => ⟨h.1.mono ent, h.2.mono ent⟩

lemma congr {a b a' b' : Ty} (h : s.Matches l r l' r') (hl : s.Identifies l a)
    (hr : s.Identifies r b) (hl' : s.Identifies l' a') (hr' : s.Identifies r' b') :
    s.Matches a b a' b' :=
  h.imp (fun h => ⟨(hl.symm.trans h.1).trans hl', (hr.symm.trans h.2).trans hr'⟩)
    fun h => ⟨(hl.symm.trans h.1).trans hr', (hr.symm.trans h.2).trans hl'⟩

/-- A valuation makes two types equal if it makes the other two equal. -/
lemma eval_eq_iff (h : s.Matches l r l' r') {σ : Nat → Ty} (resp : s.Respects σ) :
    l.eval σ = r.eval σ ↔ l'.eval σ = r'.eval σ := by
  obtain ⟨hl, hr⟩ | ⟨hl, hr⟩ := h
  · rw [hl σ resp, hr σ resp]
  · rw [hl σ resp, hr σ resp, eq_comm]

end Matches

/-! ## Equations that follow from similar cells. -/

section

variable {c c' : Cell}

/-- Two equations for one stage match, if there are any. -/
def Corresponds (s : Store) : Option (Stage × Ty × Ty) → Option (Stage × Ty × Ty) → Prop :=
  Option.Rel fun e e' => e.1 = e'.1 ∧ s.Matches e.2.1 e.2.2 e'.2.1 e'.2.2

lemma Joins.equation_eq {a b x y : Nat} {d} (j : Joins s a b x y d) :
    (s.cell a).equation? (s.cell b) = d := by
  cases j with
  | into ha _ => rw [ha]; rfl
  | «from» wait hb =>
    rw [hb]
    generalize s.cell a = c at wait
    cases wait <;> rfl
  | sets ha hb | setPairs ha hb | pairsSet ha hb | pairs ha hb => rw [ha, hb]; rfl

/-- A variable is bound to one of which as much is known, or more. -/
lemma Joins.detail_le {a b x y : Nat} {d} (j : Joins s a b x y d) :
    (s.cell x).detail ≤ (s.cell y).detail := by
  cases j with
  | into ha _ => simp [ha, Cell.detail]
  | «from» _ hb => simp [hb, Cell.detail]
  | sets ha hb | setPairs ha hb | pairsSet ha hb | pairs ha hb => simp [ha, hb, Cell.detail]

lemma Similar.detail_eq (h : s.Similar c c') : c.detail = c'.detail := by
  cases h <;> rfl

/-- Cells that say as much are similar once the equation that follows from them is identified. -/
lemma similar_of_equation (hc : c.Unbound) (hc' : c'.Unbound) (e : c.detail = c'.detail)
    (eq : ∀ e ∈ c.equation? c', s.Identifies e.2.1 e.2.2) : s.Similar c c' := by
  cases c with
  | bound t => exact absurd rfl (hc t)
  | free =>
    cases c' with
    | free => exact .free
    | _ => cases e
  | setOrInteger x =>
    cases c' with
    | setOrInteger y => exact .sets (eq (.types, x, y) rfl)
    | _ => cases e
  | integerOrPairs x y =>
    cases c' with
    | integerOrPairs z w =>
      obtain ⟨hl, hr⟩ := (eq (.heads, .couple x y, .couple z w) rfl).of_couple
      exact .pairs hl hr
    | _ => cases e

/-- From similar cells corresponding equations follow, in either order. -/
lemma Similar.corresponds {a b a' b' : Cell} (ha : s.Similar a a') (hb : s.Similar b b') :
    s.Corresponds (a.equation? b) (a'.equation? b') ∧
      s.Corresponds (a.equation? b) (b'.equation? a') := by
  cases ha with
  | free => cases hb <;> exact ⟨.none, .none⟩
  | sets e =>
    cases hb with
    | free => exact ⟨.none, .none⟩
    | sets e' => exact ⟨.some ⟨rfl, .inl ⟨e, e'⟩⟩, .some ⟨rfl, .inr ⟨e, e'⟩⟩⟩
    | pairs el er => exact ⟨.some ⟨rfl, .inl ⟨e, el.couple er⟩⟩, .some ⟨rfl, .inl ⟨e, el.couple er⟩⟩⟩
  | pairs el er =>
    cases hb with
    | free => exact ⟨.none, .none⟩
    | sets e => exact ⟨.some ⟨rfl, .inl ⟨e, el.couple er⟩⟩, .some ⟨rfl, .inl ⟨e, el.couple er⟩⟩⟩
    | pairs el' er' =>
      exact ⟨.some ⟨rfl, .inl ⟨el.couple er, el'.couple er'⟩⟩,
        .some ⟨rfl, .inr ⟨el.couple er, el'.couple er'⟩⟩⟩

/-- Cells that are similar ask for equations that are identified when their variables are bound to types
that are identified. -/
lemma Asks.corresponds (wf : s.WellFormed) {d d'} (ask : Asks c t d) (ask' : Asks c' t' d')
    (sim : s.Similar c c') (et : s.Identifies t t') :
    Option.Rel (fun e e' => s.Identifies e.1 e'.1 ∧ s.Identifies e.2 e'.2) d d' := by
  cases sim with
  | free =>
    cases ask
    cases ask'
    exact .none
  | sets e =>
    cases ask with
    | integer =>
      cases ask' with
      | integer => exact .none
      | set => cases wf.eq_integer et nofun
    | set =>
      cases ask' with
      | integer => cases wf.eq_integer et.symm nofun
      | set => exact .some ⟨e, et.of_set⟩
  | pairs el er =>
    cases ask with
    | product =>
      cases ask' with
      | product => exact .none
      | pairs => cases wf.eq_integer et nofun
    | pairs =>
      cases ask' with
      | product => cases wf.eq_integer et.symm nofun
      | pairs => exact .some ⟨et.of_set, el.couple er⟩

end

/-! ## Alike stores. -/

/-- Variables are entangled if one is found from the other. -/
lemma entangled_iff {a b : Nat} (ne : a ≠ b) :
    s.Entangled a b ↔ s.Reaches b a ∨ s.Reaches a b := by
  have found {v w : Nat} (ne : v ≠ w) : (∃ x, s.Edge v x ∧ s.Reaches x w) ↔ s.Reaches v w :=
    ⟨fun ⟨_, e, r⟩ => .head e r, fun r => r.cases_head.resolve_left ne⟩
  exact or_congr (found ne.symm) (found ne)

lemma Entails.refl (s : Store) : s.Entails s := fun _ h => h

namespace Alike

lemma refl (wf : s.WellFormed) (C : Set Nat) : Alike C s s where
  wellFormed := wf
  wellFormed' := wf
  size_eq := rfl
  entails := .refl s
  entails' := .refl s
  cells v _ w _ hv hw h := by
    obtain rfl := wf.eq_of_identifies hv hw h
    exact .refl hv

lemma symm (alike : Alike C s s') : Alike C s' s where
  wellFormed := alike.wellFormed'
  wellFormed' := alike.wellFormed
  size_eq := alike.size_eq.symm
  entails := alike.entails'
  entails' := alike.entails
  cells v hv w hw uv uw h :=
    ((alike.cells w hw v hv uw uv (h.symm.mono alike.entails)).mono alike.entails').symm

lemma mono (alike : Alike C s s') (sub : D ⊆ C) : Alike D s s' :=
  { alike with cells := fun v hv w hw => alike.cells v (sub hv) w (sub hw) }

/-- An unbound variable leads in the other store to an unbound variable that it is identified with. -/
lemma exists_unbound (alike : Alike C s s') {v : Nat} (hv : (s.cell v).Unbound) :
    ∃ v', (s'.cell v').Unbound ∧ s'.Reaches v v' ∧ s.Identifies (.var v) (.var v') := by
  obtain ⟨v', hv', r, h⟩ :=
    alike.wellFormed'.exists_unbound alike.wellFormed alike.entails hv (.refl _)
  exact ⟨v', hv', r, h.mono alike.entails⟩

/-- Unbound variables of the other store that are identified with one variable are one. -/
lemma eq_of_identifies (alike : Alike C s s') {v v' : Nat} (hv : (s'.cell v).Unbound)
    (hv' : (s'.cell v').Unbound) (h : s.Identifies (.var v) (.var v')) : v = v' :=
  alike.wellFormed'.eq_of_identifies hv hv' (h.mono alike.entails')

/-- A type that is no variable is identified with no unbound variable. -/
lemma nonvar (alike : Alike C s s') (h : s.Identifies t t') (nonvar : ∀ w, t ≠ .var w)
    (head : ∀ v, t' = .var v → (s'.cell v).Unbound) : ∀ w, t' ≠ .var w := by
  rintro w rfl
  obtain ⟨v, rfl⟩ := alike.wellFormed'.exists_var (head w rfl) (h.symm.mono alike.entails')
  exact nonvar v rfl

/-! ## What is found. -/

section

variable (alike : Alike C s s') (cl : s.Closed C) (cl' : s'.Closed C)
include alike cl cl'

lemma reaches {v v' w : Nat} (hv : (s.cell v).Unbound) (hv' : (s'.cell v').Unbound)
    (h : s.Identifies (.var v) (.var v')) (hw : w ∈ C) (r : s.Reaches w v) : s'.Reaches w v' := by
  have wf' := alike.wellFormed'
  induction r using ReflTransGen.head_induction_on with
  | refl =>
    obtain ⟨x, hx, r, h'⟩ := alike.exists_unbound hv
    rwa [alike.eq_of_identifies hv' hx (h.symm.trans h')]
  | @head w y e _ ih =>
    have ih := ih (cl w hw y e)
    obtain unbound | ⟨t, hc⟩ := unbound_or_bound (s.cell w)
    · -- The step is from an unbound variable, and its cell in the other store says the same.
      obtain ⟨x, hx, r, h'⟩ := alike.exists_unbound unbound
      have sim := alike.cells w hw x (cl'.reaches hw r) unbound hx h'
      obtain ⟨t, t', hy, ht', eq⟩ := sim.exists_mention e
      obtain ⟨z, hz, rz⟩ := wf'.exists_reaches (eq.mono alike.entails') hv' ⟨y, hy, ih⟩
      exact r.trans (.head (Cell.mem_mentions.2 ⟨t', ht', hz⟩) rz)
    · -- The step is along a binding, which the other store has, too, although perhaps another way.
      have eq := ((Identifies.of_bound hc).mono alike.entails').symm
      obtain ⟨z, hz, rz⟩ := wf'.exists_reaches eq hv' ⟨y, by simpa [Edge, hc] using e, ih⟩
      obtain rfl : z = w := by simpa [Ty.vars] using hz
      exact rz

/-- The occurs checks on types and variables that are identified agree. -/
lemma occurs {v v' : Nat} (hv : (s.cell v).Unbound) (hv' : (s'.cell v').Unbound)
    (h : s.Identifies (.var v) (.var v')) (ht : ∀ w ∈ t.vars, w ∈ C) (eq : s.Identifies t t')
    (r : ∃ w ∈ t.vars, s.Reaches w v) : ∃ w ∈ t'.vars, s'.Reaches w v' := by
  obtain ⟨w, hw, r⟩ := r
  have r := alike.reaches cl cl' hv hv' h (ht w hw) r
  exact alike.wellFormed'.exists_reaches (eq.mono alike.entails') hv' ⟨w, hw, r⟩

/-- In a closed set the same variables do not lead to variables that are identified. -/
lemma avoid_eq {v v' : Nat} (hv : (s.cell v).Unbound) (hv' : (s'.cell v').Unbound)
    (h : s.Identifies (.var v) (.var v')) :
    C ∩ {w | ¬ s.Reaches w v} = C ∩ {w | ¬ s'.Reaches w v'} := by
  have h' := h.symm.mono alike.entails'
  ext w
  refine and_congr_right fun hw => not_congr ⟨?_, ?_⟩
  · exact alike.reaches cl cl' hv hv' h hw
  · exact alike.symm.reaches cl' cl hv' hv h' hw

/-- Variables that are identified with entangled variables are entangled. -/
lemma entangled {a b a' b' : Nat} (ua : (s.cell a).Unbound) (ub : (s.cell b).Unbound)
    (ua' : (s'.cell a').Unbound) (ub' : (s'.cell b').Unbound) (ha : a ∈ C) (hb : b ∈ C)
    (ne : a ≠ b) (ne' : a' ≠ b') (m : s.Matches (.var a) (.var b) (.var a') (.var b'))
    (h : s.Entangled a b) : s'.Entangled a' b' := by
  have leads {v w v' w' : Nat} (uv : (s.cell v).Unbound) (uv' : (s'.cell v').Unbound)
      (hw : w ∈ C) (ev : s.Identifies (.var v) (.var v')) (ew : s.Identifies (.var w) (.var w'))
      (r : s.Reaches w v) : s'.Reaches w' v' := by
    simpa [Ty.vars] using alike.occurs cl cl' uv uv' ev (by simpa [Ty.vars] using hw) ew
      ⟨w, by simp [Ty.vars], r⟩
  rw [entangled_iff ne] at h
  rw [entangled_iff ne']
  obtain ⟨ea, eb⟩ | ⟨ea, eb⟩ := m
  · exact h.imp (leads ua ua' hb ea eb) (leads ub ub' ha eb ea)
  · exact h.symm.imp (leads ub ua' ha eb ea) (leads ua ub' hb ea eb)

end

end Alike

/-! ## Further bindings. -/

/-- After one more binding, what respects the bindings gives the variable the value of its type. -/
lemma respects_assign {x : Nat} (hx : (s.cell x).Unbound) {σ : Nat → Ty} :
    (s.assign x (.bound t)).Respects σ ↔ s.Respects σ ∧ σ x = t.eval σ := by
  constructor
  · refine fun h => ⟨fun v u hc => h v u ?_, h x t (by rw [cell_assign, if_pos rfl])⟩
    rw [cell_assign, if_neg, hc]
    rintro rfl
    exact hx u hc
  · rintro ⟨h, e⟩ v u hc
    rw [cell_assign] at hc
    split at hc
    · rename_i eq
      cases hc
      rw [eq, e]
    · exact h v u hc

lemma entails_assign {x : Nat} (hx : (s.cell x).Unbound) : (s.assign x (.bound t)).Entails s :=
  fun _ h => ((respects_assign hx).1 h).1

lemma unbound_assign {x v : Nat} (h : ((s.assign x (.bound t)).cell v).Unbound) :
    v ≠ x ∧ (s.cell v).Unbound := by
  rw [cell_assign] at h
  split at h
  · exact absurd rfl (h t)
  · exact ⟨‹_›, h⟩

lemma cell_assign_self (s : Store) (x : Nat) (c : Cell) : (s.assign x c).cell x = c := by
  rw [cell_assign, if_pos rfl]

lemma cell_assign_of_ne {x v : Nat} (h : v ≠ x) {c : Cell} : (s.assign x c).cell v = s.cell v := by
  rw [cell_assign, if_neg h]

/-- What one more binding identifies with an unbound variable was identified with it, or with the
variable that is bound now. -/
lemma WellFormed.identifies_of_assign (wf : s.WellFormed) {x v w : Nat}
    (wf₁ : (s.assign x (.bound t)).WellFormed) (hx : (s.cell x).Unbound)
    (hv : ((s.assign x (.bound t)).cell v).Unbound)
    (h : (s.assign x (.bound t)).Identifies (.var v) (.var w)) :
    s.Identifies (.var v) (.var w) ∨ s.Identifies (.var x) (.var w) := by
  have ent : (s.assign x (.bound t)).Entails s := entails_assign hx
  obtain ⟨y, hy, -, same⟩ := wf.exists_unbound wf₁ ent hv h
  by_cases e : y = x
  · subst e
    exact .inr same.symm
  · have := wf₁.eq_of_identifies hv (by rwa [cell_assign_of_ne e]) (h.trans (same.mono ent))
    subst this
    exact .inl same.symm

/-- What bindings inside a closed set identify with an unbound variable outside was identified with
it. -/
lemma Narrows.identifies (nar : Narrows D s s₁) (wf : s.WellFormed) (cl : s.Closed D) {v w : Nat}
    (hv : v ∉ D) (unbound : (s₁.cell v).Unbound) (h : s₁.Identifies (.var v) (.var w)) :
    s.Identifies (.var v) (.var w) := by
  have wf₁ := nar.wellFormed wf
  obtain ⟨y, hy, -, same⟩ := wf.exists_unbound wf₁ nar.keeps.entails unbound h
  have eq := h.trans (same.mono nar.keeps.entails)
  by_cases hD : y ∈ D
  · obtain ⟨z, hz, r, same⟩ := wf₁.exists_unbound wf₁ (.refl s₁) unbound eq
    obtain rfl := wf₁.eq_of_identifies unbound hz (eq.trans same)
    exact absurd ((nar.closed cl).reaches hD r) hv
  · have := wf₁.eq_of_identifies unbound (by rwa [nar.cell_eq hD]) eq
    subst this
    exact same.symm

namespace Alike

/-- Alike stores stay so under bindings inside a closed set on which they are alike afterwards. -/
lemma extend (alike : Alike C s s') (cl : s.Closed D) (cl' : s'.Closed D) (nar : Narrows D s s₁)
    (nar' : Narrows D s' s₁') (inner : Alike D s₁ s₁') : Alike C s₁ s₁' := by
  refine { inner with cells := fun v hv v' hv' uv uv' h => ?_ }
  have into {s s' : Store} (alike : Alike D s s') (cl' : s'.Closed D) {v v' : Nat}
      (uv : (s.cell v).Unbound) (uv' : (s'.cell v').Unbound)
      (h : s.Identifies (.var v) (.var v')) (hv : v ∈ D) : v' ∈ D := by
    obtain ⟨x, hx, r, same⟩ := alike.exists_unbound uv
    rw [alike.eq_of_identifies uv' hx (h.symm.trans same)]
    exact cl'.reaches hv r
  by_cases hD : v ∈ D
  · exact inner.cells v hD v' (into inner (nar'.closed cl') uv uv' h hD) uv uv' h
  · have hD' : v' ∉ D := fun mem =>
      hD (into inner.symm (nar.closed cl) uv' uv (h.symm.mono inner.entails') mem)
    have before := nar.identifies alike.wellFormed cl hD uv h
    rw [nar.cell_eq hD] at uv ⊢
    rw [nar'.cell_eq hD'] at uv' ⊢
    exact (alike.cells v hv v' hv' uv uv' before).mono nar.keeps.entails

/-- Alike stores stay so under corresponding bindings, if that is so of the unbound variables that the
binding identifies. -/
lemma assign (alike : Alike C s s') {x x' : Nat} (hx : (s.cell x).Unbound)
    (hx' : (s'.cell x').Unbound) (lt : x < s.cells.size) (lt' : x' < s'.cells.size)
    (wf : (s.assign x (.bound t)).WellFormed) (wf' : (s'.assign x' (.bound t')).WellFormed)
    (eq : ∀ σ, s.Respects σ → (σ x = t.eval σ ↔ σ x' = t'.eval σ))
    (new : ∀ v ∈ C, ∀ v' ∈ C, v' ≠ x' → (s'.cell v').Unbound →
      ((s.assign x (.bound t)).cell v).Unbound → s.Identifies (.var x) (.var v') →
      (s.assign x (.bound t)).Identifies (.var v) (.var v') →
      (s.assign x (.bound t)).Similar (s.cell v) (s'.cell v')) :
    Alike C (s.assign x (.bound t)) (s'.assign x' (.bound t')) where
  wellFormed := wf
  wellFormed' := wf'
  size_eq := by rw [size_assign lt, size_assign lt', alike.size_eq]
  entails σ h := by
    rw [respects_assign hx] at h
    exact (respects_assign hx').2 ⟨alike.entails σ h.1, (eq σ h.1).1 h.2⟩
  entails' σ h := by
    rw [respects_assign hx'] at h
    have resp := alike.entails' σ h.1
    exact (respects_assign hx).2 ⟨resp, (eq σ resp).2 h.2⟩
  cells v hv v' hv' uv uv' h := by
    obtain ⟨ne, uv₀⟩ := unbound_assign uv
    obtain ⟨ne', uv₀'⟩ := unbound_assign uv'
    rw [cell_assign_of_ne ne, cell_assign_of_ne ne']
    obtain before | joined := alike.wellFormed.identifies_of_assign wf hx uv h
    · exact (alike.cells v hv v' hv' uv₀ uv₀' before).mono (entails_assign hx)
    · exact new v hv v' hv' ne' uv₀' uv joined h

/-- Binding variables that are identified to types that are identified. -/
lemma bind (alike : Alike C s s') {x x' : Nat} (hx : (s.cell x).Unbound)
    (hx' : (s'.cell x').Unbound) (lt : x < s.cells.size) (lt' : x' < s'.cells.size)
    (wf : (s.assign x (.bound t)).WellFormed) (wf' : (s'.assign x' (.bound t')).WellFormed)
    (ex : s.Identifies (.var x) (.var x')) (et : s.Identifies t t') :
    Alike C (s.assign x (.bound t)) (s'.assign x' (.bound t')) := by
  refine alike.assign hx hx' lt lt' wf wf' (fun σ resp => ?_) fun v _ v' _ ne' uv' _ joined _ => ?_
  · rw [show σ x = σ x' from ex σ resp, et σ resp]
  · exact absurd (alike.eq_of_identifies uv' hx' (joined.symm.trans ex)) ne'

/-- Stores are alike with one more variable if its cell is similar to that of the variable which it is
identified with. -/
lemma insert {y y' : Nat} (alike : Alike (C \ {y}) s s') (hy : (s.cell y).Unbound)
    (hy' : (s'.cell y').Unbound) (h : s.Identifies (.var y) (.var y'))
    (sim : s.Similar (s.cell y) (s'.cell y')) : Alike C s s' := by
  refine { alike with cells := fun v hv v' hv' uv uv' e => ?_ }
  by_cases hvy : v = y
  · subst hvy
    rwa [alike.eq_of_identifies uv' hy' (e.symm.trans h)]
  · by_cases hvy' : v' = y
    · subst hvy'
      exact absurd (alike.wellFormed.eq_of_identifies uv hy e) hvy
    · exact alike.cells v ⟨hv, hvy⟩ v' ⟨hv', hvy'⟩ uv uv' e

end Alike

end Store

end BMethod
