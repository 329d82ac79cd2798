import BMethod.Proofs.Store.Bindings

/-!
# What bindings identify

The bindings of a store identify two types if every valuation that respects the bindings gives them
one value. The values of the unbound variables can be chosen (`WellFormed.exists_respects`), and they
decide the values of all others. So an unbound variable is identified with variables only, with one
unbound variable at most, and a type that is no variable with types of its own form. What types that
are identified lead to is the same as far as unbound variables go (`WellFormed.exists_reaches`).
-/

namespace BMethod

open Relation

namespace Store

variable {s s' : Store} {t u : Ty}

/-- The bindings give two types one value. -/
def Identifies (s : Store) (t u : Ty) : Prop := ∀ σ, s.Respects σ → t.eval σ = u.eval σ

/-- What respects the bindings of the store respects those of the other. -/
def Entails (s s' : Store) : Prop := ∀ σ, s.Respects σ → s'.Respects σ

lemma Keeps.entails (keep : s.Keeps s') : s'.Entails s := fun _ h => h.of_keeps keep

namespace Identifies

lemma refl (t : Ty) : s.Identifies t t := fun _ _ => rfl

lemma symm (h : s.Identifies t u) : s.Identifies u t := fun σ resp => (h σ resp).symm

lemma trans {v : Ty} (h : s.Identifies t u) (h' : s.Identifies u v) : s.Identifies t v :=
  fun σ resp => (h σ resp).trans (h' σ resp)

lemma mono (h : s.Identifies t u) (ent : s'.Entails s) : s'.Identifies t u :=
  fun σ resp => h σ (ent σ resp)

/-- A bound variable is identified with its type. -/
lemma of_bound {v : Nat} (h : s.cell v = .bound t) : s.Identifies (.var v) t :=
  fun _ resp => resp v t h

/-- A type is identified with its head. -/
lemma of_head? (h : s.head? t = some u) : s.Identifies t u :=
  fun _ resp => (resp.eval_head? h).symm

lemma couple {l r l' r' : Ty} (h : s.Identifies l l') (h' : s.Identifies r r') :
    s.Identifies (.couple l r) (.couple l' r') := fun σ resp => by
  rw [Ty.eval, Ty.eval, h σ resp, h' σ resp]

lemma of_set (h : s.Identifies (.set t) (.set u)) : s.Identifies t u := fun σ resp => by
  simpa only [Ty.eval, Ty.set.injEq] using h σ resp

lemma of_couple {l r l' r' : Ty} (h : s.Identifies (.couple l r) (.couple l' r')) :
    s.Identifies l l' ∧ s.Identifies r r' := by
  have parts (σ : Nat → Ty) (resp : s.Respects σ) :
      l.eval σ = l'.eval σ ∧ r.eval σ = r'.eval σ := by
    simpa only [Ty.eval, Ty.couple.injEq] using h σ resp
  exact ⟨fun σ resp => (parts σ resp).1, fun σ resp => (parts σ resp).2⟩

end Identifies

/-! ## Choosing values of unbound variables. -/

/-- Mentions come to an end. -/
lemma Acyclic.wellFounded (ac : s.Acyclic) : WellFounded fun w v => s.Edge v w :=
  Subrelation.wf (fun e => ac.rank_lt e) (InvImage.wf s.rank Nat.lt_wfRel.wf)

open Classical in
/-- The valuation that gives the unbound variables the chosen values. -/
noncomputable def Acyclic.extend (ac : s.Acyclic) (f : Nat → Ty) : Nat → Ty :=
  ac.wellFounded.fix fun v value =>
    match s.cell v with
    | .bound t => t.eval fun w => if e : s.Edge v w then value w e else f w
    | _ => f v

lemma Acyclic.extend_of_unbound (ac : s.Acyclic) (f : Nat → Ty) {v : Nat}
    (h : (s.cell v).Unbound) : ac.extend f v = f v := by
  rw [extend, WellFounded.fix_eq]
  cases hc : s.cell v with
  | bound t => exact absurd hc (h t)
  | _ => rfl

lemma Acyclic.respects_extend (ac : s.Acyclic) (f : Nat → Ty) : s.Respects (ac.extend f) := by
  intro v t hc
  rw [extend, WellFounded.fix_eq]
  simp only [hc]
  refine Ty.eval_congr fun w hw => ?_
  have e : s.Edge v w := by simpa [Edge, hc] using hw
  rw [dif_pos e]

/-- Every choice of values for the unbound variables respects the bindings with the right values of
the others. -/
lemma WellFormed.exists_respects (wf : s.WellFormed) (f : Nat → Ty) :
    ∃ σ, s.Respects σ ∧ ∀ v, (s.cell v).Unbound → σ v = f v :=
  ⟨_, wf.acyclic.respects_extend f, fun _ h => wf.acyclic.extend_of_unbound f h⟩

/-- In a closed set the values of the unbound variables decide those of all. -/
lemma Respects.eq_of_unbound {σ τ : Nat → Ty} (hσ : s.Respects σ) (hτ : s.Respects τ)
    (wf : s.WellFormed) {C : Set Nat} (cl : s.Closed C)
    (eq : ∀ v ∈ C, (s.cell v).Unbound → σ v = τ v) {v : Nat} (hv : v ∈ C) : σ v = τ v := by
  induction v using wf.acyclic.wellFounded.induction with
  | _ v ih =>
    obtain unbound | ⟨t, hc⟩ := unbound_or_bound (s.cell v)
    · exact eq v hv unbound
    · rw [hσ v t hc, hτ v t hc]
      refine Ty.eval_congr fun w hw => ?_
      have e : s.Edge v w := by simpa [Edge, hc] using hw
      exact ih w e (cl v hv w e)

/-- Two unbound variables that are identified are one. -/
lemma WellFormed.eq_of_identifies (wf : s.WellFormed) {v w : Nat} (hv : (s.cell v).Unbound)
    (hw : (s.cell w).Unbound) (h : s.Identifies (.var v) (.var w)) : v = w := by
  obtain ⟨σ, resp, val⟩ := wf.exists_respects (Function.update (fun _ => .integer) v .bool)
  have e : σ v = σ w := h σ resp
  rw [val v hv, val w hw, Function.update_self] at e
  by_contra ne
  rw [Function.update_of_ne (Ne.symm ne)] at e
  cases e

/-- An unbound variable is identified with variables only. -/
lemma WellFormed.exists_var (wf : s.WellFormed) {v : Nat} (hv : (s.cell v).Unbound)
    (h : s.Identifies (.var v) t) : ∃ w, t = .var w := by
  by_contra no
  -- The variable may have the value of another form.
  obtain ⟨f, differ⟩ : ∃ x : Ty, ∀ σ, x ≠ t.eval σ := by
    cases t with
    | var w => exact absurd ⟨w, rfl⟩ no
    | integer => exact ⟨.bool, by simp [Ty.eval]⟩
    | _ => exact ⟨.integer, by simp [Ty.eval]⟩
  obtain ⟨σ, resp, val⟩ := wf.exists_respects fun _ => f
  have e : σ v = t.eval σ := h σ resp
  rw [val v hv] at e
  exact differ σ e

/-- A variable that is identified with an unbound one, be it after further bindings, leads to an
unbound one and is identified with it. -/
lemma WellFormed.exists_unbound (wf : s.WellFormed) (wf' : s'.WellFormed) (ent : s'.Entails s)
    {v w : Nat} (hv : (s'.cell v).Unbound) (h : s'.Identifies (.var v) (.var w)) :
    ∃ x, (s.cell x).Unbound ∧ s.Reaches w x ∧ s.Identifies (.var w) (.var x) := by
  obtain ⟨t, ht⟩ := wf.acyclic.exists_head? (.var w)
  have same := Identifies.of_head? ht
  obtain ⟨x, rfl⟩ := wf'.exists_var hv (h.trans (same.mono ent))
  refine ⟨x, unbound_of_head? ht, ?_, same⟩
  simpa [Ty.vars] using reaches_of_head? ht (w := x) (by simp [Ty.vars])

/-! ## Types of one form. -/

/-- A type that is identified with a set is a set. -/
lemma WellFormed.exists_set (wf : s.WellFormed) (h : s.Identifies (.set t) u)
    (nonvar : ∀ w, u ≠ .var w) : ∃ t', u = .set t' ∧ s.Identifies t t' := by
  obtain ⟨σ, resp, -⟩ := wf.exists_respects .var
  have e := h σ resp
  cases u with
  | var w => exact absurd rfl (nonvar w)
  | set t' => exact ⟨t', rfl, h.of_set⟩
  | _ => simp [Ty.eval] at e

lemma WellFormed.exists_couple (wf : s.WellFormed) {l r : Ty}
    (h : s.Identifies (.couple l r) u) (nonvar : ∀ w, u ≠ .var w) :
    ∃ l' r', u = .couple l' r' ∧ s.Identifies l l' ∧ s.Identifies r r' := by
  obtain ⟨σ, resp, -⟩ := wf.exists_respects .var
  have e := h σ resp
  cases u with
  | var w => exact absurd rfl (nonvar w)
  | couple l' r' => exact ⟨l', r', rfl, h.of_couple⟩
  | _ => simp [Ty.eval] at e

lemma WellFormed.exists_record (wf : s.WellFormed) {fields : List (String × Ty)}
    (h : s.Identifies (.record fields) u) (nonvar : ∀ w, u ≠ .var w) :
    ∃ fields', u = .record fields' := by
  obtain ⟨σ, resp, -⟩ := wf.exists_respects .var
  have e := h σ resp
  cases u with
  | var w => exact absurd rfl (nonvar w)
  | record fields' => exact ⟨fields', rfl⟩
  | _ => simp [Ty.eval] at e

/-- A type that is identified with one that has no parts has none. -/
lemma WellFormed.isAtom (wf : s.WellFormed) (h : s.Identifies t u) (nonvar : ∀ w, u ≠ .var w)
    (atom : t.IsAtom) : u.IsAtom := by
  obtain ⟨σ, resp, -⟩ := wf.exists_respects .var
  have e := h σ resp
  cases u with
  | var w => exact absurd rfl (nonvar w)
  | set | couple | record | setOrInteger | integerOrPairs =>
    cases t <;> first | exact atom.elim | simp [Ty.eval] at e
  | _ => trivial

lemma WellFormed.eq_integer (wf : s.WellFormed) (h : s.Identifies .integer u)
    (nonvar : ∀ w, u ≠ .var w) : u = .integer := by
  obtain ⟨σ, resp, -⟩ := wf.exists_respects .var
  have e := h σ resp
  cases u with
  | var w => exact absurd rfl (nonvar w)
  | integer => rfl
  | _ => simp [Ty.eval] at e

lemma WellFormed.exists_nil (wf : s.WellFormed) {fields : List (String × Ty)}
    (h : s.Identifies (.record []) (.record fields)) : fields = [] := by
  obtain ⟨σ, resp, -⟩ := wf.exists_respects .var
  have e := h σ resp
  cases fields with
  | nil => rfl
  | cons f fields => simp [Ty.eval, Ty.evalFields] at e

lemma WellFormed.exists_cons (wf : s.WellFormed) {a : String} {fields fields' : List (String × Ty)}
    (h : s.Identifies (.record ((a, t) :: fields)) (.record fields')) :
    ∃ t' rest, fields' = (a, t') :: rest ∧ s.Identifies t t' ∧
      s.Identifies (.record fields) (.record rest) := by
  obtain ⟨σ, resp, -⟩ := wf.exists_respects .var
  have e := h σ resp
  cases fields' with
  | nil => simp [Ty.eval, Ty.evalFields] at e
  | cons f rest =>
    obtain ⟨b, t'⟩ := f
    simp only [Identifies, Ty.eval, Ty.evalFields, Ty.record.injEq, List.cons.injEq,
      Prod.mk.injEq] at e h ⊢
    exact ⟨t', rest, ⟨⟨e.1.1.symm, rfl⟩, rfl⟩, fun σ resp => (h σ resp).1.2,
      fun σ resp => (h σ resp).2⟩

/-! ## Leading to an unbound variable. -/

/-- On the way to an unbound variable there is one whose value is part of every value that the first
may have. -/
lemma Reaches.exists_part {v z : Nat} (r : s.Reaches z v) (hv : (s.cell v).Unbound) :
    ∃ x, (s.cell x).Unbound ∧ s.Reaches x v ∧
      ∀ σ, s.Respects σ → (σ x).size ≤ (σ z).size := by
  induction r using ReflTransGen.head_induction_on with
  | refl => exact ⟨v, hv, .refl, fun _ _ => le_rfl⟩
  | @head y z e r ih =>
    obtain unbound | ⟨t, hc⟩ := unbound_or_bound (s.cell y)
    · exact ⟨y, unbound, .head e r, fun _ _ => le_rfl⟩
    · obtain ⟨x, hx, rx, part⟩ := ih
      have hz : z ∈ t.vars := by simpa [Edge, hc] using e
      refine ⟨x, hx, rx, fun σ resp => ?_⟩
      rw [resp y t hc]
      exact (part σ resp).trans (Ty.size_le_size_eval σ hz)

/-- Types that are identified lead to the same unbound variables. -/
lemma WellFormed.exists_reaches (wf : s.WellFormed) (h : s.Identifies t u) {v : Nat}
    (hv : (s.cell v).Unbound) (r : ∃ z ∈ t.vars, s.Reaches z v) : ∃ z ∈ u.vars, s.Reaches z v := by
  obtain ⟨z, hz, r⟩ := r
  obtain ⟨x, hx, rx, part⟩ := r.exists_part hv
  by_contra apart
  -- If no variable of `u` leads to `x`, then giving `x` a large value leaves `u` small.
  obtain ⟨σ, hσ, valσ⟩ := wf.exists_respects fun _ => .integer
  obtain ⟨τ, hτ, valτ⟩ := wf.exists_respects (Function.update (fun _ => .integer) x (.set (u.eval σ)))
  have small : u.eval τ = u.eval σ := by
    refine Ty.eval_congr fun w hw => hτ.eq_of_unbound hσ wf (s.closed_not_reaching x)
      (fun y hy unbound => ?_) (show ¬ s.Reaches w x from fun r => apart ⟨w, hw, r.trans rx⟩)
    rw [valτ y unbound, valσ y unbound, Function.update_of_ne]
    rintro rfl
    exact hy .refl
  have large : (Ty.set (u.eval σ)).size ≤ (t.eval τ).size := by
    have := (part τ hτ).trans (Ty.size_le_size_eval τ hz)
    rwa [valτ x hx, Function.update_self] at this
  rw [h τ hτ, small, Ty.size] at large
  omega

end Store

end BMethod
