import BMethod.Proofs.Typing.Rules
import BMethod.Proofs.Unifier

/-!
# The state of a check

What the steps of a check do to its state, said twice. A world is a valuation of the variables with
types for the declarations; who is a world of the state after a step was one before, so what a walk
learns is never lost (`Steps`). A guess that agrees with given types of the declarations survives
the steps that it has no reason to refuse (`Fits`).

Walks are specified by what they ensure: a condition on the result if there is one, and one on the
error if not.
-/

namespace BMethod

/-- What is written at a declaration: its name and its qualifier. -/
def Declarations.label? (ds : Declarations) (id : Nat) : Option (String × Option String) :=
  (ds.get? id).map fun d => (d.name, d.qualifier)

lemma Declarations.label?_setTy (ds : Declarations) (id : Nat) (t : Option Ty) (i : Nat) :
    (ds.setTy id t).label? i = ds.label? i := by
  rw [label?, get?_setTy, label?]
  split
  · rw [Option.map_map]
    rfl
  · rfl

/-- Filling a slot changes no more than the slot. -/
lemma Declarations.clear_setTy (ds : Declarations) (id : Nat) (t : Option Ty) :
    (ds.setTy id t).clear = ds.clear := by
  have same (i : Nat) : (ds.setTy id t).clear.all[i]? = ds.clear.all[i]? := by
    simp only [clear, setTy, Array.getElem?_map, Array.getElem?_modify]
    split
    · simp [Option.map_map, Function.comp_def]
    · rfl
  exact congrArg Declarations.mk (Array.ext_getElem? same)

/-- Declarations that differ in their slots alone have the same labels. -/
lemma Declarations.label?_of_clear {ds ds' : Declarations} (h : ds'.clear = ds.clear) (id : Nat) :
    ds'.label? id = ds.label? id := by
  have read (ds : Declarations) : ds.clear.label? id = ds.label? id := by
    simp [label?, get?, clear, Function.comp_def]
  rw [← read ds', h, read ds]

/-! ## What a computation ensures. -/

section

variable {ν π α β : Type}

/-- The walk ends with a result of which `Q` holds, or without one for a reason of which `E`
holds. -/
def Ensures (x : CheckM (Visited ν α)) (s : State) (Q : ν → α → State → Prop)
    (E : Halt TypeError → Prop) : Prop :=
  match x s with
  | ((n, .ok a), s') => Q n a s'
  | ((_, .error e), _) => E e

/-- The step ends with a result of which `Q` holds, or without one for a reason of which `E`
holds. -/
def Concludes (x : CheckM (Verdict α)) (s : State) (Q : α → State → Prop)
    (E : Halt TypeError → Prop) : Prop :=
  match x s with
  | (.ok a, s') => Q a s'
  | (.error e, _) => E e

variable {s : State} {E : Halt TypeError → Prop}

lemma Ensures.mono {x : CheckM (Visited ν α)} {Q Q' : ν → α → State → Prop}
    (h : Ensures x s Q E) (imp : ∀ n a s', Q n a s' → Q' n a s') : Ensures x s Q' E := by
  rw [Ensures] at h ⊢
  revert h
  obtain ⟨⟨n, _ | a⟩, s'⟩ := x s
  · exact id
  · exact imp n a s'

lemma Ensures.imp {x : CheckM (Visited ν α)} {Q Q' : ν → α → State → Prop}
    {E E' : Halt TypeError → Prop} (h : Ensures x s Q E) (ok : ∀ n a s', Q n a s' → Q' n a s')
    (error : ∀ e, E e → E' e) : Ensures x s Q' E' := by
  rw [Ensures] at h ⊢
  revert h
  obtain ⟨⟨n, e | a⟩, s'⟩ := x s
  · exact error e
  · exact ok n a s'

/-- What holds of the last state whatever the result. -/
lemma Ensures.of_final {x : CheckM (Visited ν α)} {P : State → Prop} (h : P (x s).2) :
    Ensures x s (fun _ _ s' => P s') fun _ => True := by
  rw [Ensures]
  revert h
  obtain ⟨⟨n, _ | a⟩, s'⟩ := x s
  · exact fun _ => trivial
  · exact id

lemma ensures_done {Q : ν → α → State → Prop} {n : ν} {a : α} (h : Q n a s) :
    Ensures (CheckM.done n a) s Q E := h

lemma ensures_fail {Q : ν → α → State → Prop} {n : ν} {e : TypeError} (h : E (.error e)) :
    Ensures (CheckM.fail n e) s Q E := h

/-- A walk through a part and then on with the whole. -/
lemma ensures_andThen {part : CheckM (Visited π α)} {whole : π → ν}
    {next : π → α → CheckM (Visited ν β)} {Q : ν → β → State → Prop}
    (h : Ensures part s (fun p a s' => Ensures (next p a) s' Q E) E) :
    Ensures (part.andThen whole next) s Q E := by
  simp only [Ensures, CheckM.andThen, bind, StateT.bind] at h ⊢
  revert h
  obtain ⟨⟨p, _ | a⟩, s'⟩ := part s <;> exact id

/-- A step and then on with the walk. -/
lemma ensures_orFail {step : CheckM (Verdict α)} {n : ν} {next : α → CheckM (Visited ν β)}
    {Q : ν → β → State → Prop}
    (h : Concludes step s (fun a s' => Ensures (next a) s' Q E) E) :
    Ensures (step.orFail n next) s Q E := by
  simp only [Ensures, Concludes, CheckM.orFail, bind, StateT.bind] at h ⊢
  revert h
  obtain ⟨_ | a, s'⟩ := step s <;> exact id

/-- A computation that does not fail and then on with the walk. -/
lemma ensures_bind {x : CheckM α} {next : α → CheckM (Visited ν β)} {Q : ν → β → State → Prop}
    (h : Ensures (next (x s).1) (x s).2 Q E) : Ensures (x >>= next) s Q E := h

end

/-! ## Mapping what a walk leaves. -/

section

variable {ν π μ α β : Type}

/-- The walk, with what it leaves of the node mapped. -/
def CheckM.mapNode (g : ν → π) (x : CheckM (Visited ν α)) : CheckM (Visited π α) :=
  fun s => ((g (x s).1.1, (x s).1.2), (x s).2)

lemma CheckM.run_andThen (x : CheckM (Visited ν α)) (whole : ν → μ)
    (next : ν → α → CheckM (Visited μ β)) (s : State) :
    x.andThen whole next s =
      match x s with
      | ((n, .ok a), s') => next n a s'
      | ((n, .error e), s') => ((whole n, .error e), s') := by
  simp only [andThen, bind, StateT.bind]
  obtain ⟨⟨n, _ | a⟩, s'⟩ := x s <;> rfl

lemma CheckM.run_orFail (x : CheckM (Verdict α)) (n : ν) (next : α → CheckM (Visited ν β))
    (s : State) :
    x.orFail n next s =
      match x s with
      | (.ok a, s') => next a s'
      | (.error e, s') => ((n, .error e), s') := by
  simp only [orFail, bind, StateT.bind]
  obtain ⟨_ | a, s'⟩ := x s <;> rfl

/-- Going on with the whole, after a part that is mapped. -/
lemma CheckM.mapNode_andThen (g : ν → π) (x : CheckM (Visited ν α)) (whole : π → μ)
    (next : π → α → CheckM (Visited μ β)) :
    (x.mapNode g).andThen whole next = x.andThen (fun n => whole (g n)) fun n => next (g n) := by
  funext s
  simp only [run_andThen, mapNode]
  obtain ⟨⟨n, _ | a⟩, s'⟩ := x s <;> rfl

/-- Mapping the whole. -/
lemma CheckM.andThen_mapNode (g : μ → π) (x : CheckM (Visited ν α)) (whole : ν → μ)
    (next : ν → α → CheckM (Visited μ β)) :
    (x.andThen whole next).mapNode g =
      x.andThen (fun n => g (whole n)) fun n a => (next n a).mapNode g := by
  funext s
  simp only [run_andThen, mapNode]
  obtain ⟨⟨n, _ | a⟩, s'⟩ := x s <;> rfl

/-- A walk that goes on with the same part and nothing else. -/
lemma CheckM.andThen_return (g : ν → π) (x : CheckM (Visited ν α)) :
    (x.andThen g fun n a => done (g n) a) = x.mapNode g := by
  funext s
  simp only [run_andThen, mapNode]
  obtain ⟨⟨n, _ | a⟩, s'⟩ := x s <;> rfl

lemma CheckM.andThen_done (g : ν → π) (x : CheckM (Visited ν Unit)) :
    (x.andThen g fun n _ => done (g n) ()) = x.mapNode g := andThen_return g x

lemma CheckM.mapNode_done (g : ν → π) (n : ν) (a : α) : (done n a).mapNode g = done (g n) a := rfl

lemma CheckM.bind_mapNode (g : ν → π) (x : CheckM α) (f : α → CheckM (Visited ν β)) :
    (x >>= f).mapNode g = x >>= fun a => (f a).mapNode g := rfl

lemma CheckM.orFail_mapNode (g : ν → π) (x : CheckM (Verdict α)) (n : ν)
    (next : α → CheckM (Visited ν β)) :
    (x.orFail n next).mapNode g = x.orFail (g n) fun a => (next a).mapNode g := by
  funext s
  simp only [run_orFail, mapNode]
  obtain ⟨_ | a, s'⟩ := x s <;> rfl

lemma CheckM.bind_andThen (x : CheckM α) (f : α → CheckM (Visited ν β)) {γ : Type} (whole : ν → μ)
    (next : ν → β → CheckM (Visited μ γ)) :
    (x >>= f).andThen whole next = x >>= fun a => (f a).andThen whole next := rfl

lemma CheckM.andThen_assoc {γ κ : Type} (x : CheckM (Visited ν α)) (whole : ν → π)
    (next : ν → α → CheckM (Visited π β)) (whole' : π → κ)
    (next' : π → β → CheckM (Visited κ γ)) :
    (x.andThen whole next).andThen whole' next' =
      x.andThen (fun n => whole' (whole n)) fun n a => (next n a).andThen whole' next' := by
  funext s
  simp only [run_andThen]
  obtain ⟨⟨n, _ | a⟩, s'⟩ := x s <;> rfl

end

namespace State

/-! ## Invariants. -/

/-- How many variables there are. -/
def vars (s : State) : Nat := s.unifier.store.cells.size

/-- A state with a sound and settled unifier, with the known declarations, and with scoped types in
their slots. -/
structure Inv (known : Nat → Bool) (s : State) : Prop where
  unifier : s.unifier.Inv
  settled : s.unifier.Settled
  known : ∀ id, (s.decls.get? id).isSome = known id
  scope : ∀ id t, s.decls.ty? id = some t → t.Scoped s.vars

end State

/-- A valuation of the variables, and types for declarations. -/
structure World where
  value : Nat → Ty
  type? : Nat → Option Ty

/-- The world satisfies the unifier and gives declarations the values of their types. -/
structure World.Models (w : World) (s : State) : Prop where
  unifier : s.unifier.Holds w.value
  types : ∀ id t, s.decls.ty? id = some t → w.type? id = some (t.eval w.value)

/-- The context of a world. -/
def World.context (w : World) (known : Nat → Bool) : Context := ⟨known, w.type?⟩

namespace State

variable {known : Nat → Bool} {s s' s'' : State}

/-- What steps of a check do to a state. -/
structure Steps (known : Nat → Bool) (s s' : State) : Prop where
  inv : s'.Inv known
  vars_le : s.vars ≤ s'.vars
  labels : ∀ id, s'.decls.label? id = s.decls.label? id
  kept : ∀ id t, s.decls.ty? id = some t → s'.decls.ty? id = some t
  models : ∀ w : World, w.Models s' → w.Models s

lemma Steps.refl (inv : s.Inv known) : s.Steps known s :=
  ⟨inv, le_rfl, fun _ => rfl, fun _ _ h => h, fun _ h => h⟩

lemma Steps.trans (h : s.Steps known s') (h' : s'.Steps known s'') : s.Steps known s'' where
  inv := h'.inv
  vars_le := h.vars_le.trans h'.vars_le
  labels id := (h'.labels id).trans (h.labels id)
  kept id t ht := h'.kept id t (h.kept id t ht)
  models w hw := h.models w (h'.models w hw)

/-- What a guess and types for the declarations say about a state. If there are no products, the
unifier is plain. -/
structure Fits (δ : Nat → Ty) (products : Prop) (g : Guess) (s : State) : Prop where
  unifier : s.unifier.Fits g
  types : ∀ id t, s.decls.ty? id = some t → g.Means s.vars t (δ id)
  plain : products ∨ s.unifier.Plain g

/-! ## New variables. -/

/-- The state with one more variable. -/
def grow (s : State) (c : Cell) : State := { s with unifier := (s.unifier.allocate c).2 }

lemma run_allocate (c : Cell) (s : State) : allocate c s = (.var s.vars, s.grow c) := rfl

lemma run_fresh (s : State) : fresh s = (.var s.vars, s.grow .free) := rfl

@[simp] lemma vars_grow (s : State) (c : Cell) : (s.grow c).vars = s.vars + 1 :=
  s.unifier.size_allocate c

lemma models_grow {w : World} {c : Cell} :
    w.Models (s.grow c) ↔ w.Models s ∧ c.Holds w.value s.vars := by
  constructor
  · intro h
    obtain ⟨hu, hc⟩ := Unifier.holds_allocate.1 h.unifier
    exact ⟨⟨hu, h.types⟩, hc⟩
  · rintro ⟨h, hc⟩
    exact ⟨Unifier.holds_allocate.2 ⟨h.unifier, hc⟩, h.types⟩

lemma Inv.grow (inv : s.Inv known) {c : Cell} (hc : ∀ t ∈ c.contents, t.Scoped s.vars) :
    s.Steps known (s.grow c) where
  inv :=
    { unifier := inv.unifier.allocate hc
      settled := inv.settled.allocate inv.unifier.toProper hc
      known := inv.known
      scope := fun id t h => by
        rw [vars_grow]
        exact (inv.scope id t h).mono (by omega) }
  vars_le := by simp
  labels _ := rfl
  kept _ _ h := h
  models w h := (models_grow.1 h).1

lemma Inv.fresh (inv : s.Inv known) : s.Steps known (s.grow .free) := inv.grow nofun

/-- A guess is extended by what the new cell allows. -/
lemma Fits.grow {δ : Nat → Ty} {products : Prop} {g g' : Guess} {c : Cell}
    (fits : s.Fits δ products g) (inv : s.Inv known) (ext : g.Extends s.vars g')
    (live : s.vars ∉ g'.idle → c.Fits g' s.vars)
    (idle : s.vars ∈ g'.idle → ∀ w ∈ c.mentions, w ∈ g'.idle)
    (plain : products ∨ c = .free ∨ s.vars ∉ g'.idle ∧ ∃ w, c = .setOrInteger (.var w)) :
    (s.grow c).Fits δ products g' where
  unifier := fits.unifier.allocate inv.unifier ext live idle
  types id t h := by
    rw [vars_grow]
    exact (fits.types id t h).extend ext (by omega)
  plain := by
    obtain h | h := fits.plain
    · exact .inl h
    · exact plain.imp id fun hc => ⟨h.1.allocate ext hc, h.2⟩

/-- A new variable may be guessed to have any value. -/
lemma Fits.fresh {δ : Nat → Ty} {products : Prop} {g : Guess} (fits : s.Fits δ products g)
    (inv : s.Inv known) (value : Ty) :
    (s.grow .free).Fits δ products (g.push s.vars value False) :=
  fits.grow inv (g.extends_push _ _ _) (fun _ => trivial) (fun h => by simp at h) (.inr (.inl rfl))

/-- A new variable may be guessed to be idle. -/
lemma Fits.freshIdle {δ : Nat → Ty} {products : Prop} {g : Guess} (fits : s.Fits δ products g)
    (inv : s.Inv known) : (s.grow .free).Fits δ products (g.push s.vars .integer True) :=
  fits.grow inv (g.extends_push _ _ _) (fun _ => trivial)
    (fun _ w hw => by simp [Cell.mentions, Cell.contents] at hw) (.inr (.inl rfl))

/-! ## Declarations. -/

lemma ty?_eq {ds : Declarations} {id : Nat} {d : Declaration} (h : ds.get? id = some d) :
    ds.ty? id = d.ty := by
  simp [Declarations.ty?, h]

lemma ty?_setTy {ds : Declarations} {id i : Nat} {t : Ty} (h : (ds.get? id).isSome = true) :
    (ds.setTy id (some t)).ty? i = if id = i then some t else ds.ty? i := by
  obtain ⟨d, hd⟩ := Option.isSome_iff_exists.1 h
  rw [Declarations.ty?, Declarations.get?_setTy]
  by_cases e : id = i
  · subst e
    simp [hd]
  · simp [e, Declarations.ty?]

lemma isSome_get?_setTy (ds : Declarations) (id i : Nat) (t : Option Ty) :
    ((ds.setTy id t).get? i).isSome = (ds.get? i).isSome := by
  rw [Declarations.get?_setTy]
  split <;> simp

/-- The state with a new variable in the slot of a declaration. -/
def seed (s : State) (id : Nat) : State :=
  { s.grow .free with decls := s.decls.setTy id (some (.var s.vars)) }

/-- The three ways to look up the type of a declaration. -/
lemma declaredType_cases (id : Nat) (s : State) :
    (s.decls.get? id = none ∧ declaredType id s = (none, s)) ∨
      (∃ t, s.decls.ty? id = some t ∧ declaredType id s = (some t, s)) ∨
      ((s.decls.get? id).isSome = true ∧ s.decls.ty? id = none ∧
        declaredType id s = (some (.var s.vars), s.seed id)) := by
  simp only [declaredType, bind, StateT.bind, get, getThe, MonadStateOf.get, StateT.get, pure]
  cases h : s.decls.get? id with
  | none => exact .inl ⟨rfl, rfl⟩
  | some d =>
    rw [ty?_eq h]
    obtain ⟨name, span, _ | t, qualifier⟩ := d
    · exact .inr (.inr ⟨rfl, rfl, rfl⟩)
    · exact .inr (.inl ⟨t, rfl, rfl⟩)

/-- What looking up declarations, and putting new variables into their empty slots, does to a state.
A guess survives it. -/
structure Declares (known : Nat → Bool) (s s' : State) : Prop where
  steps : s.Steps known s'
  complete : ∀ (δ : Nat → Ty) (products : Prop) (g : Guess), s.Fits δ products g →
    ∃ g', g.Extends s.vars g' ∧ s'.Fits δ products g'

lemma Declares.refl (inv : s.Inv known) : s.Declares known s :=
  ⟨.refl inv, fun _ _ g fits => ⟨g, .refl _ g, fits⟩⟩

lemma Declares.trans (h : s.Declares known s') (h' : s'.Declares known s'') :
    s.Declares known s'' where
  steps := h.steps.trans h'.steps
  complete δ products g fits := by
    obtain ⟨g', ext, fits⟩ := h.complete δ products g fits
    obtain ⟨g'', ext', fits⟩ := h'.complete δ products g' fits
    exact ⟨g'', ext.trans ext' h.steps.vars_le, fits⟩

lemma Inv.declares_seed (inv : s.Inv known) {id : Nat} (exist : (s.decls.get? id).isSome = true)
    (empty : s.decls.ty? id = none) : s.Declares known (s.seed id) := by
  have slot (i : Nat) :
      (s.seed id).decls.ty? i = if id = i then some (.var s.vars) else s.decls.ty? i :=
    ty?_setTy exist
  have old {i : Nat} {t : Ty} (h : s.decls.ty? i = some t) : id ≠ i := by
    rintro rfl
    rw [h] at empty
    cases empty
  have vars : (s.seed id).vars = s.vars + 1 := s.vars_grow .free
  refine ⟨⟨⟨inv.fresh.inv.unifier, inv.fresh.inv.settled, fun i => ?_, fun i t h => ?_⟩, ?_,
    Declarations.label?_setTy _ _ _, fun i t h => ?_, fun w h => ?_⟩, fun δ products g fits => ?_⟩
  · rw [← inv.known i]
    exact isSome_get?_setTy _ _ _ _
  · rw [slot] at h
    rw [vars]
    split at h
    · cases h
      exact Nat.lt_succ_self _
    · exact (inv.scope i t h).mono (by omega)
  · omega
  · rw [slot, if_neg (old h), h]
  · refine ⟨(Unifier.holds_allocate.1 h.unifier).1, fun i t ht => h.types i t ?_⟩
    rw [slot, if_neg (old ht), ht]
  · have fresh := fits.fresh inv (δ id)
    refine ⟨_, g.extends_push s.vars (δ id) False, fresh.unifier, fun i t h => ?_, fresh.plain⟩
    rw [slot] at h
    rw [vars]
    split at h
    · rename_i e
      subst e
      cases h
      exact g.means_push _ _
    · exact (fits.types i t h).extend (g.extends_push _ _ _) (by omega)

/-- A known declaration gets a type. -/
lemma Inv.declaredType (inv : s.Inv known) (id : Nat) :
    s.Declares known (declaredType id s).2 ∧
      (known id = false ∧ (State.declaredType id s).1 = none ∨
        known id = true ∧ ∃ t, (State.declaredType id s).1 = some t ∧
          (State.declaredType id s).2.decls.ty? id = some t) := by
  have exist := inv.known id
  obtain ⟨none, e⟩ | ⟨t, ht, e⟩ | ⟨some, empty, e⟩ := declaredType_cases id s
  · rw [none] at exist
    rw [e]
    exact ⟨.refl inv, .inl ⟨exist.symm, rfl⟩⟩
  · rw [e]
    refine ⟨.refl inv, .inr ⟨?_, t, rfl, ht⟩⟩
    rw [← exist]
    cases hd : s.decls.get? id with
    | none => simp [Declarations.ty?, hd] at ht
    | some d => rfl
  · rw [e]
    refine ⟨inv.declares_seed some empty, .inr ⟨exist ▸ some, _, rfl, ?_⟩⟩
    exact (ty?_setTy some).trans (if_pos rfl)

/-- Known declarations get types, which are those of every world. -/
lemma Inv.declaredTypes (inv : s.Inv known) (ids : List Nat) :
    s.Declares known (declaredTypes ids s).2 ∧
      List.Forall₂ (fun id t => (State.declaredTypes ids s).2.decls.ty? id = some t)
        (ids.filter known) (State.declaredTypes ids s).1 := by
  induction ids generalizing s with
  | nil => exact ⟨.refl inv, .nil⟩
  | cons id ids ih =>
    obtain ⟨first, type⟩ := inv.declaredType id
    obtain ⟨rest, types⟩ := ih first.steps.inv
    have run : State.declaredTypes (id :: ids) s =
        ((State.declaredType id s).1.toList ++
          (State.declaredTypes ids (State.declaredType id s).2).1,
          (State.declaredTypes ids (State.declaredType id s).2).2) := rfl
    rw [run]
    refine ⟨first.trans rest, ?_⟩
    obtain ⟨unknown, none⟩ | ⟨exist, t, some, ht⟩ := type
    · rw [none, List.filter_cons_of_neg (by simp [unknown])]
      exact types
    · rw [some, List.filter_cons_of_pos exist]
      exact .cons (rest.steps.kept id t ht) types

/-- What stands for a declaration that may be missing: its type, or a new variable. -/
structure Finds (known : Nat → Bool) (s : State) (id : Nat) (t : Ty) (s' : State) : Prop where
  steps : s.Steps known s'
  scope : t.Scoped s'.vars
  type : known id = true → s'.decls.ty? id = some t
  complete : ∀ (δ : Nat → Ty) (products : Prop) (g : Guess) (v : Ty), s.Fits δ products g →
    (known id = true → v = δ id) →
      ∃ g', g.Extends s.vars g' ∧ s'.Fits δ products g' ∧ g'.Means s'.vars t v

lemma Inv.declaredOrFresh (inv : s.Inv known) (id : Nat) :
    s.Finds known id (declaredOrFresh id s).1 (declaredOrFresh id s).2 := by
  obtain ⟨decl, type⟩ := inv.declaredType id
  have run : State.declaredOrFresh id s =
      match State.declaredType id s with
      | (some t, s') => (t, s')
      | (none, s') => State.fresh s' := by
    simp only [State.declaredOrFresh, bind, StateT.bind]
    obtain ⟨_ | t, s'⟩ := State.declaredType id s <;> rfl
  rw [run]
  revert decl type
  obtain ⟨_ | t, s'⟩ := State.declaredType id s
  · intro decl type
    obtain ⟨unknown, -⟩ | ⟨-, t, e, -⟩ := type
    · simp only [run_fresh]
      refine ⟨decl.steps.trans decl.steps.inv.fresh, by simp [Ty.Scoped], by simp [unknown],
        fun δ products g v fits _ => ?_⟩
      obtain ⟨g', ext, fits⟩ := decl.complete δ products g fits
      refine ⟨_, ext.trans (g'.extends_push _ v False) decl.steps.vars_le,
        fits.fresh decl.steps.inv v, ?_⟩
      rw [vars_grow]
      exact g'.means_push _ _
    · cases e
  · intro decl type
    obtain ⟨-, e⟩ | ⟨exist, u, e, ht⟩ := type
    · cases e
    · cases e
      refine ⟨decl.steps, decl.steps.inv.scope id t ht, fun _ => ht,
        fun δ products g v fits hv => ?_⟩
      obtain ⟨g', ext, fits⟩ := decl.complete δ products g fits
      exact ⟨g', ext, fits, hv exist ▸ fits.types id t ht⟩

/-- Reporting an event changes nothing else. -/
lemma steps_report (e : Event) {t : State} (h : s.Steps known t) :
    s.Steps known (report e t).2 where
  inv := ⟨h.inv.unifier, h.inv.settled, h.inv.known, h.inv.scope⟩
  vars_le := h.vars_le
  labels := h.labels
  kept := h.kept
  models w hw := h.models w ⟨hw.unifier, hw.types⟩

lemma Inv.identifierType (inv : s.Inv known) (id : Nat) (name : String) :
    s.Finds known id (identifierType id name s).1 (identifierType id name s).2 := by
  have found := inv.declaredOrFresh id
  have run : (State.identifierType id name s).1 = (State.declaredOrFresh id s).1 ∧
      (State.identifierType id name s).2.decls = (State.declaredOrFresh id s).2.decls ∧
      (State.identifierType id name s).2.unifier = (State.declaredOrFresh id s).2.unifier := by
    simp only [State.identifierType, State.declaredOrFresh, bind, StateT.bind]
    obtain ⟨_ | t, s'⟩ := State.declaredType id s <;> exact ⟨rfl, rfl, rfl⟩
  rw [run.1]
  revert found run
  generalize State.declaredOrFresh id s = found
  obtain ⟨t, ⟨ds, u, es⟩⟩ := found
  generalize (State.identifierType id name s).2 = after
  obtain ⟨ds', u', es'⟩ := after
  rintro ⟨steps, scope, type, complete⟩ ⟨-, rfl, rfl⟩
  refine ⟨⟨⟨steps.inv.unifier, steps.inv.settled, steps.inv.known, steps.inv.scope⟩, steps.vars_le,
    steps.labels, steps.kept, fun w h => steps.models w ⟨h.unifier, h.types⟩⟩, scope, type,
    fun δ products g v fits hv => ?_⟩
  obtain ⟨g', ext, fits, means⟩ := complete δ products g v fits hv
  exact ⟨g', ext, ⟨fits.unifier, fits.types, fits.plain⟩, means⟩

/-- New variables, which may be guessed to have any values. -/
lemma Inv.freshList (inv : s.Inv known) (n : Nat) :
    s.Steps known (freshList n s).2 ∧ (State.freshList n s).1.length = n ∧
      (∀ t ∈ (State.freshList n s).1, t.Scoped (State.freshList n s).2.vars) ∧
      ∀ (δ : Nat → Ty) (products : Prop) (g : Guess) (vs : List Ty), s.Fits δ products g →
        vs.length = n → ∃ g', g.Extends s.vars g' ∧ (State.freshList n s).2.Fits δ products g' ∧
          List.Forall₂ (g'.Means (State.freshList n s).2.vars) (State.freshList n s).1 vs := by
  induction n generalizing s with
  | zero =>
    refine ⟨.refl inv, rfl, nofun, fun δ products g vs fits len => ⟨g, .refl _ g, fits, ?_⟩⟩
    rw [List.length_eq_zero_iff.1 len]
    exact .nil
  | succ n ih =>
    obtain ⟨steps, length, scope, complete⟩ := ih inv.fresh.inv
    have run : State.freshList (n + 1) s = (.var s.vars :: (State.freshList n (s.grow .free)).1,
        (State.freshList n (s.grow .free)).2) := rfl
    rw [run]
    have le := steps.vars_le
    rw [vars_grow] at le
    refine ⟨inv.fresh.trans steps, by simp [length], ?_, fun δ products g vs fits len => ?_⟩
    · rw [List.forall_mem_cons]
      exact ⟨Nat.lt_of_succ_le le, scope⟩
    · obtain _ | ⟨v, vs⟩ := vs
      · cases len
      · obtain ⟨g', ext, fits, means⟩ :=
          complete δ products _ vs (fits.fresh inv v) (by simpa using len)
        rw [vars_grow] at ext
        refine ⟨g', (g.extends_push _ _ _).trans ext (by omega), fits, .cons ?_ means⟩
        exact (g.means_push s.vars v).extend ext le

end State

/-- A mismatch of two types. -/
def TypeError.isMismatch : TypeError → Bool
  | .mismatch .. => true
  | _ => false

namespace State

variable {known : Nat → Bool} {s s' : State}

/-! ## Unifying at a place. -/

lemma run_onUnifier {α : Type} (x : UnifierM α) (s : State) :
    onUnifier x s = ((x s.unifier).1, { s with unifier := (x s.unifier).2 }) := rfl

/-- On a well-formed store a type can be resolved. -/
lemma run_resolve (wf : s.unifier.store.WellFormed) (t : Ty) :
    ∃ u, s.unifier.store.resolve? t = some u ∧ resolve t s = (.ok u, s) := by
  obtain ⟨u, hu⟩ := wf.acyclic.exists_resolve? t
  refine ⟨u, hu, ?_⟩
  simp only [resolve, bind, StateT.bind, get, getThe, MonadStateOf.get, StateT.get, pure, hu]
  rfl

/-- On a well-formed store the failure to unify is reported with what is known of both types. -/
lemma run_mismatch (α : Type) (wf : s.unifier.store.WellFormed) (site : Site) (l r : Ty)
    (cause : UnifyError) :
    ∃ l' r', s.unifier.store.resolve? l = some l' ∧ s.unifier.store.resolve? r = some r' ∧
      (mismatch site l r (.error cause) : CheckM (Verdict α)) s =
        (.error (.error (.mismatch l' r' site cause)), s) := by
  obtain ⟨l', resolved, hl⟩ := run_resolve wf l
  obtain ⟨r', resolved', hr⟩ := run_resolve wf r
  refine ⟨l', r', resolved, resolved', ?_⟩
  simp only [mismatch, bind, StateT.bind, hl, hr]
  rfl

/-- What unifying two types does to a state, and the type it gives. -/
structure Unified (known : Nat → Bool) (s : State) (l r t : Ty) (s' : State) : Prop where
  steps : s.Steps known s'
  vars_eq : s'.vars = s.vars
  scope : t.Scoped s'.vars
  store : ∀ σ, s'.unifier.store.Holds σ →
    s.unifier.store.Holds σ ∧ l.eval σ = r.eval σ ∧ t.eval σ = l.eval σ
  complete : ∀ (δ : Nat → Ty) (products : Prop) (g : Guess) (v : Ty), s.Fits δ products g →
    g.Means s.vars l v → g.Means s.vars r v → s'.Fits δ products g ∧ g.Means s'.vars t v

lemma Unified.sound {l r t : Ty} (h : s.Unified known l r t s') (w : World) (hw : w.Models s') :
    l.eval w.value = r.eval w.value ∧ t.eval w.value = l.eval w.value :=
  (h.store w.value hw.unifier.1).2

/-- Two types could not be unified; without products no guess gives them one value. -/
structure Refused (s : State) (l r : Ty) (e : TypeError) : Prop where
  isMismatch : e.isMismatch = true
  products : ∀ (δ : Nat → Ty) (products : Prop) (g : Guess) (v : Ty), s.Fits δ products g →
    g.Means s.vars l v → g.Means s.vars r v → products

/-- Two types are unified, or it is reported that they can not be. -/
lemma Inv.unifyAt (inv : s.Inv known) {site : Site} {l r : Ty} (hl : l.Scoped s.vars)
    (hr : r.Scoped s.vars) {Q : Ty → State → Prop} {E : Halt TypeError → Prop}
    (ok : ∀ t s', s.Unified known l r t s' → Q t s')
    (error : ∀ e, s.Refused l r e → E (.error e)) :
    Concludes (unifyAt site l r) s Q E := by
  simp only [Concludes, State.unifyAt, bind, StateT.bind, run_onUnifier]
  obtain ⟨t, run, uni⟩ | ⟨e, run, wf, refused⟩ := inv.unifier.unify_spec hl hr
  · simp only [run]
    refine ok t _ ⟨⟨⟨uni.inv inv.unifier, uni.settled, inv.known, fun id u h => ?_⟩, ?_, fun _ => rfl,
      fun _ _ h => h, fun w h => ⟨uni.holds h.unifier, h.types⟩⟩, uni.size_eq, ?_,
      fun σ h => ⟨uni.store σ h, uni.eval_eq h.respects⟩, fun δ products g v fits ml mr => ?_⟩
    · rw [vars, uni.size_eq]
      exact inv.scope id u h
    · rw [vars, vars, uni.size_eq]
    · rw [vars, uni.size_eq]
      exact uni.scope
    · obtain ⟨f, m, p⟩ := uni.complete g v fits.unifier ml mr
      refine ⟨⟨f, fun id u h => ?_, fits.plain.imp id p⟩, ?_⟩
      · rw [vars, uni.size_eq]
        exact fits.types id u h
      · rw [vars, uni.size_eq]
        exact m
  · simp only [run]
    obtain ⟨_, _, -, -, run⟩ := run_mismatch Ty
      (s := { s with unifier := (Unifier.unify l r s.unifier).2 }) wf site l r e
    rw [run]
    refine error _ ⟨rfl, fun δ products g v fits ml mr => ?_⟩
    exact fits.plain.resolve_right (refused g v fits.unifier ml mr).1

/-- What tying a product to its operands does to a state. -/
structure Linked (known : Nat → Bool) (s : State) (link : ProductLink) (s' : State) : Prop where
  steps : s.Steps known s'
  vars_eq : s'.vars = s.vars
  sound : ∀ w : World, w.Models s' → link.Holds w.value
  complete : ∀ (δ : Nat → Ty) (products : Prop) (g : Guess), s.Fits δ products g → products →
    link.Fits g s.vars → s'.Fits δ products g

/-- A product is tied to its operands, or it is reported that it can not be. -/
lemma Inv.linkAt (inv : s.Inv known) {site : Site} {l r : Ty} {link : ProductLink}
    (scope : link.Scoped s.vars) (sane : ∀ σ, s.unifier.store.Holds σ → link.Sane σ)
    {Q : Unit → State → Prop} {E : Halt TypeError → Prop}
    (ok : ∀ s', s.Linked known link s' → Q () s')
    (error : ∀ e : TypeError, e.isMismatch = true → E (.error e)) :
    Concludes (linkAt site l r link) s Q E := by
  simp only [Concludes, State.linkAt, bind, StateT.bind, run_onUnifier]
  obtain ⟨run, links⟩ | ⟨e, run, wf⟩ := inv.unifier.link_spec scope
  · simp only [run]
    refine ok _ ⟨⟨⟨links.inv (inv.unifier.concat scope sane), links.settled, inv.known, fun id u h => ?_⟩, ?_, fun _ => rfl,
      fun _ _ h => h, fun w h => ⟨(links.sound h.unifier).1, h.types⟩⟩, links.size_eq,
      fun w h => (links.sound h.unifier).2, fun δ products g fits hp hl => ?_⟩
    · rw [vars, links.size_eq]
      exact inv.scope id u h
    · rw [vars, vars, links.size_eq]
    · refine ⟨links.complete g fits.unifier hl, fun id u h => ?_, .inl hp⟩
      rw [vars, links.size_eq]
      exact fits.types id u h
  · simp only [run]
    obtain ⟨_, _, -, -, run⟩ := run_mismatch Unit
      (s := { s with unifier := (Unifier.link link s.unifier).2 }) wf site l r e
    rw [run]
    exact error _ rfl

/-! ## Requiring concrete types. -/

/-- All given declarations with a type have a concrete one. -/
def Settles (s : State) (ids : List Nat) : Prop :=
  ∀ id ∈ ids, ∀ t u, s.decls.ty? id = some t → s.unifier.store.resolve? t = some u →
    u.isConcrete = true

/-- Requiring that a declaration has a concrete type, before the others are looked at. -/
lemma requireConcrete_cons (what : Subject) (id : Nat) (ids : List Nat) (s : State) :
    (s.decls.ty? id = none ∧ requireConcrete what (id :: ids) s = requireConcrete what ids s) ∨
      ∃ t, s.decls.ty? id = some t ∧
        ((s.unifier.store.resolve? t = none ∧
            requireConcrete what (id :: ids) s = (.error .divergence, s)) ∨
          ∃ u, s.unifier.store.resolve? t = some u ∧
            ((u.isConcrete = true ∧
                requireConcrete what (id :: ids) s = requireConcrete what ids s) ∨
              (u.isConcrete = false ∧ ∃ d, s.decls.get? id = some d ∧
                requireConcrete what (id :: ids) s =
                  (.error (.error (.unresolved what d.name u d.span)), s)))) := by
  simp only [requireConcrete, bind, StateT.bind, get, getThe, MonadStateOf.get, StateT.get, pure]
  cases hd : s.decls.get? id with
  | none => exact .inl ⟨by simp [Declarations.ty?, hd], rfl⟩
  | some d =>
    rw [ty?_eq hd]
    obtain ⟨name, span, _ | t, qualifier⟩ := d
    · exact .inl ⟨rfl, rfl⟩
    · refine .inr ⟨t, rfl, ?_⟩
      simp only [StateT.bind, resolve, bind, get, getThe, MonadStateOf.get, StateT.get, pure]
      cases hu : s.unifier.store.resolve? t with
      | none => exact .inl ⟨rfl, rfl⟩
      | some u =>
        refine .inr ⟨u, rfl, ?_⟩
        cases hc : u.isConcrete with
        | true =>
          refine .inl ⟨rfl, ?_⟩
          show (if u.isConcrete = true then _ else _ : CheckM (Verdict Unit)) s = _
          rw [if_pos hc]
        | false =>
          refine .inr ⟨rfl, _, rfl, ?_⟩
          show (if u.isConcrete = true then _ else _ : CheckM (Verdict Unit)) s = _
          rw [if_neg (by simp [hc])]
          rfl

/-- Requiring that declarations are known leaves the state as it is, and fails for one that is not. -/
lemma requireConcrete_cases (what : Subject) (ids : List Nat) (s : State) :
    requireConcrete what ids s = (.ok (), s) ∨
      requireConcrete what ids s = (.error .divergence, s) ∨
        ∃ id ∈ ids, ∃ d t u, s.decls.get? id = some d ∧ s.decls.ty? id = some t ∧
          s.unifier.store.resolve? t = some u ∧ u.isConcrete = false ∧
          requireConcrete what ids s = (.error (.error (.unresolved what d.name u d.span)), s) := by
  induction ids with
  | nil => exact .inl rfl
  | cons id ids ih =>
    have later {P : Nat → Prop} : (∃ i ∈ ids, P i) → ∃ i ∈ id :: ids, P i :=
      fun ⟨i, hi, h⟩ => ⟨i, .tail _ hi, h⟩
    obtain ⟨-, run⟩ | ⟨t, ht, ⟨-, run⟩ | ⟨u, hu, ⟨-, run⟩ | ⟨hc, d, hd, run⟩⟩⟩ :=
      requireConcrete_cons what id ids s
    · rw [run]
      exact ih.imp_right (Or.imp_right later)
    · exact .inr (.inl run)
    · rw [run]
      exact ih.imp_right (Or.imp_right later)
    · exact .inr (.inr ⟨id, .head _, d, t, u, hd, ht, hu, hc, run⟩)

lemma Inv.requireConcrete (inv : s.Inv known) (what : Subject) (ids : List Nat) :
    (requireConcrete what ids s = (.ok (), s) ∧ s.Settles ids) ∨
      ∃ e, requireConcrete what ids s = (.error (.error e), s) ∧ ¬ s.Settles ids := by
  induction ids with
  | nil => exact .inl ⟨rfl, nofun⟩
  | cons id ids ih =>
    obtain ⟨ht, run⟩ | ⟨t, ht, ⟨hu, -⟩ | ⟨u, hu, ⟨hc, run⟩ | ⟨hc, name, span, run⟩⟩⟩ :=
      requireConcrete_cons what id ids s
    · have settles : s.Settles (id :: ids) ↔ s.Settles ids := by simp [Settles, ht]
      rwa [run, settles]
    · obtain ⟨u, found⟩ := inv.unifier.wellFormed.acyclic.exists_resolve? t
      rw [hu] at found
      cases found
    · have settles : s.Settles (id :: ids) ↔ s.Settles ids := by
        simp only [Settles, List.forall_mem_cons, and_iff_right_iff_imp]
        intro _ t' u' ht' hu'
        rw [ht] at ht'
        cases ht'
        rw [hu] at hu'
        cases hu'
        exact hc
      rwa [run, settles]
    · rw [run]
      exact .inr ⟨_, rfl, fun h => by simp [h id (by simp) t u ht hu] at hc⟩

end State

/-- The types in the slots of declarations are their types in every world. -/
lemma World.Models.types?_eq {w : World} {s : State} {known : Nat → Bool} (h : w.Models s)
    {ids : List Nat} {ts : List Ty}
    (types : List.Forall₂ (fun id t => s.decls.ty? id = some t) (ids.filter known) ts) :
    (w.context known).types? ids = some (ts.map (Ty.eval w.value)) := by
  rw [Context.types?]
  show (ids.filter known).mapM w.type? = _
  generalize ids.filter known = known at types
  induction types with
  | nil => rfl
  | cons ht _ ih => simp [h.types _ _ ht, ih]

end BMethod
