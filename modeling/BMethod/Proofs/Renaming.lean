import BMethod.Proofs.Preservation

/-!
# Types of renamed variables

A machine takes the types of its renamed variables from the machines that it refers to. If each renamed
variable `p.x` names the one variable `x` of the machine with the prefix `p`, and the type of that is
known, then no check fails because the type of a renamed variable is not known, and if it succeeds the
renamed variable has the type that it has there (`renamed_take_included_type`).

That is so of the variables that no other included declaration shares its name with. Of two declarations
of one name each takes the type of the other after that of the machine, and that type may be a variable
still (`renamed_twice_unresolved`).
-/

namespace BMethod

open State Walk

/-! ## Renamed variables. -/

namespace Machine

/-- The machine has exactly one variable of that name, and its type is known. -/
structure Declares (m : Machine) (name : String) (t : Ty) : Prop where
  var : ∃ id ∈ m.vars, ∃ d, m.decls.get? id = some d ∧ d.name = name ∧ d.ty = some t
  unique : ∀ id ∈ m.vars, ∀ id' ∈ m.vars, ∀ d d', m.decls.get? id = some d →
    m.decls.get? id' = some d' → d.name = name → d'.name = name → id = id'
  concrete : t.isConcrete = true

/-- The declaration renames a variable of a machine that is referred to: it is named with the prefix of
that machine, and the variable has the type `t` there. -/
def Renames (m : Machine) (d : Declaration) (t : Ty) : Prop :=
  ∃ qualifier name source, d.qualifier = some qualifier ∧ d.name = qualifier ++ "." ++ name ∧
    (some qualifier, source) ∈ m.references ∧ source.Declares name t

/-- Nothing has a type yet, machines are referred to by different prefixes without dots, and all
included variables are renamed variables of these machines. -/
structure Renaming (m : Machine) : Prop where
  empty : ∀ id, m.decls.ty? id = none
  qualified : ∀ r ∈ m.references, ∃ q, r.1 = some q ∧ '.' ∉ q.toList
  distinct : (m.references.map (·.1)).Nodup
  renames : ∀ id ∈ m.included, ∀ d, m.decls.get? id = some d → ∃ t, m.Renames d t

/-- Another included declaration has the same name. -/
def HasNamesake (m : Machine) (id : Nat) : Prop :=
  ∃ d, m.decls.get? id = some d ∧ ∃ other ∈ m.included, other ≠ id ∧
    ∃ d', m.decls.get? other = some d' ∧ d'.name = d.name

/-- A type that is known is found under the name of its variable. -/
lemma Declares.settledNamed? {m : Machine} {name : String} {t : Ty} (h : m.Declares name t) :
    m.settledNamed? m.vars name = some t := by
  obtain ⟨id, hid, d, hd, named, type⟩ := h.var
  have members (d' : Declaration) (hd' : d' ∈ (m.decls.existing m.vars).filter (·.name == name)) :
      d' = d := by
    obtain ⟨found, named'⟩ := List.mem_filter.1 hd'
    obtain ⟨id', hid', found⟩ := List.mem_filterMap.1 found
    obtain rfl := h.unique id hid id' hid' d d' hd found named (by simpa using named')
    exact Option.some.inj (found.symm.trans hd)
  have mem : d ∈ (m.decls.existing m.vars).filter (·.name == name) :=
    List.mem_filter.2 ⟨List.mem_filterMap.2 ⟨id, hid, hd⟩, by simpa using named⟩
  obtain ⟨last, hlast⟩ := List.getLast?_isSome.2 (List.ne_nil_of_mem mem) |> Option.isSome_iff_exists.1
  obtain rfl := members last (List.mem_of_getLast? hlast)
  rw [Machine.settledNamed?, hlast]
  show last.ty.filter _ = _
  rw [type, Option.filter_some, if_pos h.concrete]

end Machine

/-! ## Qualified names. -/

/-- What stands before the first dot. -/
lemma takeWhile_append_dot {p x : List Char} (hp : '.' ∉ p) :
    (p ++ '.' :: x).takeWhile (· ≠ '.') = p := by
  have all : ∀ c ∈ p, decide (c ≠ '.') = true := fun c hc => by
    rw [decide_eq_true_eq]
    rintro rfl
    exact hp hc
  rw [List.takeWhile_append_of_pos all]
  simp

/-- A qualified name is that of its own qualifier and of no other. -/
lemma unqualified?_append {p q x : String} (hp : '.' ∉ p.toList) (hq : '.' ∉ q.toList) :
    unqualified? p (q ++ "." ++ x) = if p = q then some x else none := by
  rw [unqualified?]
  split
  · rename_i same
    subst same
    have rest : (p ++ ".").toList.isPrefixOf? (p ++ "." ++ x).toList = some x.toList := by simp
    rw [rest, Option.map_some, String.ofList_toList]
  · rename_i ne
    rw [Option.map_eq_none_iff]
    by_contra some
    obtain ⟨rest, found⟩ := Option.ne_none_iff_exists'.1 some
    have names : p.toList ++ '.' :: rest = q.toList ++ '.' :: x.toList := by simpa using found
    refine ne (String.toList_inj.1 ?_)
    rw [← takeWhile_append_dot (x := rest) hp, names, takeWhile_append_dot hq]

/-! ## Taking over types. -/

section

variable {α : Type} {f : α → CheckM Unit} {I J : State → Prop} {as : List α}

lemma forM_keeps (keep : ∀ a ∈ as, ∀ s, I s → I (f a s).2) {s : State} (hs : I s) :
    I (as.forM f s).2 := by
  induction as generalizing s with
  | nil => exact hs
  | cons a as ih =>
    rw [List.forall_mem_cons] at keep
    exact ih keep.2 (keep.1 s hs)

/-- What one round of a loop brings about and the others keep holds at the end. -/
lemma forM_reaches (inv : ∀ a ∈ as, ∀ s, I s → I (f a s).2)
    (keep : ∀ a ∈ as, ∀ s, I s → J s → J (f a s).2) {a : α} (ha : a ∈ as)
    (reach : ∀ s, I s → J (f a s).2) {s : State} (hs : I s) : J (as.forM f s).2 := by
  induction as generalizing s with
  | nil => cases ha
  | cons b as ih =>
    rw [List.forall_mem_cons] at inv keep
    cases ha with
    | head =>
      exact (forM_keeps (I := fun s => I s ∧ J s) (fun c hc s h => ⟨inv.2 c hc s h.1, keep.2 c hc s h.1 h.2⟩)
        ⟨inv.1 s hs, reach s hs⟩).2
    | tail _ ha => exact ih inv.2 keep.2 ha (inv.1 s hs)

end

namespace Machine

variable {m : Machine} {s : State} {id : Nat} {d : Declaration} {t : Ty}

lemma takeType_none (s : State) : (takeType id none s).2 = s := by
  simp only [takeType, bind, StateT.bind, get, getThe, MonadStateOf.get, StateT.get, pure]
  cases s.decls.get? id <;> rfl

lemma ty?_takeType_some (hd : (s.decls.get? id).isSome = true) :
    (takeType id (some t) s).2.decls.ty? id = some t := by
  obtain ⟨d, found⟩ := Option.isSome_iff_exists.1 hd
  simp only [takeType, bind, StateT.bind, get, getThe, MonadStateOf.get, StateT.get, pure, found]
  exact (ty?_setTy hd).trans (if_pos rfl)

lemma ty?_takeType_of_ne {other : Nat} (ne : other ≠ id) (offer : Option Ty) :
    (takeType other offer s).2.decls.ty? id = s.decls.ty? id := by
  simp only [takeType, bind, StateT.bind, get, getThe, MonadStateOf.get, StateT.get, pure]
  cases s.decls.get? other with
  | none => rfl
  | some d =>
    cases offer with
    | none => rfl
    | some t =>
      show (s.decls.setTy other (some t)).ty? id = _
      rw [Declarations.ty?, Declarations.get?_setTy, if_neg ne, Declarations.ty?]

/-- The declarations are those of the machine but for their types. -/
def Same (m : Machine) (s : State) : Prop := s.decls.clear = m.decls.clear

lemma Same.get? (h : m.Same s) (hd : m.decls.get? id = some d) :
    ∃ d', s.decls.get? id = some d' ∧ d'.name = d.name ∧ d'.qualifier = d.qualifier := by
  have label := Declarations.label?_of_clear h id
  rw [Declarations.label?, Declarations.label?, hd, Option.map_some, Option.map_eq_some_iff] at label
  obtain ⟨d', hd', eq⟩ := label
  exact ⟨d', hd', congrArg Prod.fst eq, congrArg Prod.snd eq⟩

/-- Without a namesake no type is taken from one. -/
lemma Same.siblingType?_eq_none (h : m.Same s) (alone : ¬ m.HasNamesake id) :
    siblingType? s.decls m.included id = none := by
  by_contra some
  obtain ⟨u, found⟩ := Option.ne_none_iff_exists'.1 some
  obtain ⟨-, d, other, d', hd, ho, ne, hd', name⟩ := exists_of_siblingType? found
  have back {i : Nat} {e : Declaration} (he : s.decls.get? i = Option.some e) :
      ∃ e', m.decls.get? i = Option.some e' ∧ e'.name = e.name :=
    exists_get?_of_label? (Declarations.label?_of_clear h i) he
  obtain ⟨e, he, nameE⟩ := back hd
  obtain ⟨e', he', nameE'⟩ := back hd'
  exact alone ⟨e, he, other, ho, ne, e', he', nameE'.trans (name.trans nameE.symm)⟩

/-- What a round of the loops does to declarations keeps them the same but for their types. -/
lemma Same.takeTypeFrom (h : m.Same s) {reference : Option String × Machine}
    (hr : reference ∈ m.references) (hid : id ∈ m.included) :
    m.Same (takeTypeFrom m.included reference id s).2 :=
  (retyped_takeTypeFrom hr hid (Declarations.label?_of_clear h)).clear.trans h

/-- A round for another declaration does not change the type. -/
lemma ty?_takeTypeFrom_of_ne {other : Nat} (ne : other ≠ id) (included : List Nat)
    (reference : Option String × Machine) :
    (BMethod.takeTypeFrom included reference other s).2.decls.ty? id = s.decls.ty? id := by
  simp only [BMethod.takeTypeFrom, bind, StateT.bind, get, getThe, MonadStateOf.get, StateT.get, pure]
  cases s.decls.get? other with
  | none => rfl
  | some d =>
    obtain ⟨_ | qualifier, source⟩ := reference
    · exact ty?_takeType_of_ne ne _
    · exact (ty?_takeType_of_ne ne _).trans (ty?_takeType_of_ne ne _)

/-- In a round for a declaration without a namesake the machine that is referred to decides. -/
lemma Same.takeTypeFrom_eq (h : m.Same s) (alone : ¬ m.HasNamesake id) (hd : m.decls.get? id = some d)
    (qualifier : String) (source : Machine) :
    (BMethod.takeTypeFrom m.included (some qualifier, source) id s).2 =
      (takeType id (unqualified? qualifier d.name >>= source.settledNamed? source.vars) s).2 := by
  obtain ⟨d', hd', name, -⟩ := h.get? hd
  let taken (offer : Option Ty) : State := (takeType id offer s).2
  have run : (BMethod.takeTypeFrom m.included (some qualifier, source) id s).2 =
      (takeType id (siblingType? (taken (unqualified? qualifier d.name >>=
        source.settledNamed? source.vars)).decls m.included id)
          (taken (unqualified? qualifier d.name >>= source.settledNamed? source.vars))).2 := by
    simp only [BMethod.takeTypeFrom, bind, StateT.bind, get, getThe, MonadStateOf.get, StateT.get,
      pure, hd', name]
    rfl
  rw [run]
  generalize offered : unqualified? qualifier d.name >>= source.settledNamed? source.vars = offer
  have same : m.Same (taken offer) := by
    refine (retyped_takeType (P := fun _ => True) fun t ht => ⟨trivial, .inl ?_⟩).clear.trans h
    obtain ⟨_, -, settled⟩ := Option.bind_eq_some_iff.1 (offered.trans ht)
    exact isConcrete_of_settledNamed? settled
  rw [same.siblingType?_eq_none alone, takeType_none]

/-- The round for a renamed variable and the machine of its prefix takes over the type, and so would any
other machine of that prefix. -/
lemma Renames.takeTypeFrom (setup : m.Renaming) (h : m.Same s) (alone : ¬ m.HasNamesake id)
    (hd : m.decls.get? id = some d) (renames : m.Renames d t)
    {reference : Option String × Machine} (hr : reference ∈ m.references)
    (before : reference.1 = d.qualifier ∨ s.decls.ty? id = some t) :
    (BMethod.takeTypeFrom m.included reference id s).2.decls.ty? id = some t := by
  obtain ⟨qualifier, name, source, qualified, named, refers, declares⟩ := renames
  obtain ⟨_, ⟨⟩, dotless⟩ := setup.qualified _ refers
  obtain ⟨reference, source'⟩ := reference
  obtain ⟨prefix', same, dotless'⟩ := setup.qualified _ hr
  cases same
  rw [h.takeTypeFrom_eq alone hd, named, unqualified?_append dotless' dotless]
  split
  · rename_i same
    subst same
    obtain rfl : source' = source :=
      congrArg Prod.snd (List.inj_on_of_nodup_map setup.distinct hr refers rfl)
    rw [Option.bind_eq_bind, Option.bind_some, declares.settledNamed?]
    obtain ⟨d', hd', -⟩ := h.get? hd
    exact ty?_takeType_some (by rw [hd', Option.isSome_some])
  · rename_i ne
    rw [Option.bind_eq_bind, Option.bind_none, takeType_none]
    refine before.resolve_left fun eq => ne ?_
    exact Option.some.inj (eq.trans qualified)

/-- After the types have been taken over, a renamed variable without a namesake has the type that it has
in the machine of its prefix. -/
lemma Renames.takeTypes (setup : m.Renaming) (h : m.Same s) (alone : ¬ m.HasNamesake id)
    (hd : m.decls.get? id = some d) (renames : m.Renames d t) (hid : id ∈ m.included) :
    (m.takeTypes s).2.decls.ty? id = some t := by
  have inv (reference : Option String × Machine) (hr : reference ∈ m.references) (i : Nat)
      (hi : i ∈ m.included) (s : State) (h : m.Same s) := h.takeTypeFrom hr hi
  have keep (reference : Option String × Machine) (hr : reference ∈ m.references) (i : Nat)
      (hi : i ∈ m.included) (s : State) (h : m.Same s) (ht : s.decls.ty? id = some t) :
      (BMethod.takeTypeFrom m.included reference i s).2.decls.ty? id = some t := by
    by_cases same : i = id
    · subst same
      exact renames.takeTypeFrom setup h alone hd hr (.inr ht)
    · rw [ty?_takeTypeFrom_of_ne same, ht]
  have ⟨qualifier, _, source, qualified, _, refers, _⟩ := renames
  refine forM_reaches (I := m.Same) (J := fun s => s.decls.ty? id = some t)
    (fun r hr s h => forM_keeps (inv r hr) h) (fun r hr s h ht => ?_) refers (fun s h => ?_) h
  · exact (forM_keeps (I := fun s => m.Same s ∧ s.decls.ty? id = some t)
      (fun i hi s h => ⟨inv r hr i hi s h.1, keep r hr i hi s h.1 h.2⟩) ⟨h, ht⟩).2
  · exact forM_reaches (I := m.Same) (J := fun s => s.decls.ty? id = some t) (inv _ refers)
      (keep _ refers) hid
      (fun s h => renames.takeTypeFrom setup h alone hd refers (.inl qualified.symm)) h

end Machine

/-! ## What a check is not stopped by. -/

/-- The walk does not fail because the type of a thing of that kind is not known. -/
def Walk.Avoids (what : Subject) {ν α : Type} (x : CheckM (Visited ν α)) : Prop :=
  ∀ s name t span, (x s).1.2 ≠ .error (.error (.unresolved what name t span))

section

variable {ν π α β : Type} {what : Subject}

lemma Walk.Yields.avoids {R : ν → Prop} {x : CheckM (Visited ν α)} (h : Yields R x) :
    Avoids what x := fun s _ _ _ error => nomatch (h s).2 _ error

lemma Walk.avoids_bind {x : CheckM α} {f : α → CheckM (Visited ν β)} (h : ∀ a, Avoids what (f a)) :
    Avoids what (x >>= f) := fun s => h (x s).1 (x s).2

lemma Walk.Avoids.andThen {part : CheckM (Visited π α)} {whole : π → ν}
    {next : π → α → CheckM (Visited ν β)} (h : Avoids what part)
    (rest : ∀ p a, Avoids what (next p a)) : Avoids what (part.andThen whole next) := by
  intro s name t span error
  have first := h s name t span
  rw [CheckM.run_andThen] at error
  revert first error
  obtain ⟨⟨p, e | a⟩, s'⟩ := part s
  · exact fun error first => first (congrArg Except.error (Except.error.inj error))
  · exact fun error _ => rest p a s' name t span error

/-- Requiring that things of another kind are known. -/
lemma Walk.avoids_requireConcrete {other : Subject} (ne : other ≠ what) {ids : List Nat} {n : ν}
    {next : Unit → CheckM (Visited ν β)} (rest : ∀ a, Avoids what (next a)) :
    Avoids what ((requireConcrete other ids).orFail n next) := by
  intro s name t span error
  rw [CheckM.run_orFail] at error
  obtain run | run | ⟨_, -, d, _, u, -, -, -, -, run⟩ := requireConcrete_cases other ids s
  · rw [run] at error
    exact rest () s name t span error
  · rw [run] at error
    cases error
  · rw [run] at error
    cases error
    exact ne rfl

/-- The conclusion reports nodes and declarations as such. -/
lemma Walk.avoids_conclude {tree : ν} {sweep : ν → SweepM ν} {clean : Unifier → Prop}
    {stamped : Unifier → ν} (h : ∀ u, Sweeps u (sweep tree) (clean u) (stamped u)) :
    Avoids .includedVariable (conclude tree sweep) := by
  intro s name t span error
  have run : conclude tree sweep s =
      (((conclude tree sweep s).1.1, .error (.error (.unresolved .includedVariable name t span))),
        (conclude tree sweep s).2) := Prod.ext (Prod.ext rfl error) rfl
  cases conclude_error (h s.unifier) run

end

namespace Machine

variable {m : Machine} {scope : Scope} {s : State}

lemma avoids_checkConstants : Avoids .includedVariable (m.checkConstants scope) := by
  refine avoids_bind fun _ => avoids_bind fun _ => ?_
  refine (yields_optional m.properties).avoids.andThen fun p _ => ?_
  refine avoids_requireConcrete (by decide) fun _ => ?_
  exact (Substitution.yields_checkAll fun σ _ => Node.walked (.substitution σ)).avoids.andThen
    fun _ _ _ _ _ _ => nofun

/-- The phases after the variables. -/
lemma avoids_checkRest : Avoids .includedVariable m.checkRest :=
  yields_checkBehaviour.avoids.andThen fun m' _ => avoids_conclude fun u => swept u m'

/-- What stops the check of the clauses because the type of an included variable is not known is one
with a namesake. -/
def Excused (m : Machine) (e : Halt TypeError) : Prop :=
  ∀ name t span, e = .error (.unresolved .includedVariable name t span) →
    ∃ id ∈ m.included, ∃ d, m.decls.get? id = some d ∧ d.name = name ∧ m.HasNamesake id

/-- Renamed variables without namesakes have the types that they have elsewhere. -/
def Adopted (m : Machine) (s : State) : Prop :=
  ∀ id ∈ m.included, ∀ d t, m.decls.get? id = some d → m.Renames d t → ¬ m.HasNamesake id →
    s.decls.ty? id = some t

lemma Adopted.moves {own : Prop} {P : Nat → Prop} {s' : State} (h : m.Adopted s)
    (moves : s.Moves own P s') : m.Adopted s' :=
  fun id hid d t hd renames alone => moves.kept id t (h id hid d t hd renames alone)

lemma Renames.concrete {d : Declaration} {t : Ty} (h : m.Renames d t) : t.isConcrete = true := by
  obtain ⟨_, _, _, -, -, -, declares⟩ := h
  exact declares.concrete

/-- Types that are known stay when the conclusion puts what is known into the slots. -/
lemma Adopted.settle {s' : State} {u : Store} (h : m.Adopted s) (settled : s'.decls = s.decls.settle u) :
    m.Adopted s' := by
  intro id hid d t hd renames alone
  rw [settled, Declarations.ty?_settle, h id hid d t hd renames alone]
  exact u.resolve?_of_vars_eq_nil (Ty.vars_of_isConcrete renames.concrete)

/-- Only a variable with a namesake can be one of which the type is not known. -/
lemma Adopted.ensures_requireConcrete {ν α : Type} {n : ν} {next : Unit → CheckM (Visited ν α)}
    {Q : ν → α → State → Prop} (h : m.Adopted s) (setup : m.Renaming) (same : m.Same s)
    (rest : Ensures (next ()) s Q m.Excused) :
    Ensures ((requireConcrete .includedVariable m.included).orFail n next) s Q m.Excused := by
  apply ensures_orFail
  obtain run | run | ⟨id, hid, d, u, v, hd, hu, hv, vague, run⟩ :=
    requireConcrete_cases .includedVariable m.included s
  · rw [Concludes, run]
    exact rest
  · rw [Concludes, run]
    rintro name t span ⟨⟩
  · rw [Concludes, run]
    rintro name t span ⟨⟩
    obtain ⟨d', hd', name⟩ := exists_get?_of_label? (Declarations.label?_of_clear same id) hd
    refine ⟨id, hid, d', hd', name, ?_⟩
    -- Without a namesake the type would be that of the other machine, which is concrete.
    by_contra alone
    obtain ⟨t, renames⟩ := setup.renames id hid d' hd'
    cases hu.symm.trans (h id hid d' t hd' renames alone)
    rw [s.unifier.store.resolve?_of_vars_eq_nil (Ty.vars_of_isConcrete renames.concrete)] at hv
    cases hv
    cases vague.symm.trans renames.concrete

lemma Excused.of_avoids {ν α : Type} {x : CheckM (Visited ν α)} (h : Avoids .includedVariable x) :
    Ensures x s (fun _ _ _ => True) m.Excused := by
  have avoids := h s
  rw [Ensures]
  revert avoids
  obtain ⟨⟨n, e | a⟩, s'⟩ := x s
  · exact fun avoids name t span error => absurd (congrArg Except.error error) (avoids name t span)
  · exact fun _ => trivial

/-- What is done before the invariant is looked at takes over the types. -/
lemma adopted_prepare (setup : m.Renaming) (same : m.Same s) :
    m.Same (m.prepare s).2 ∧ m.Adopted (m.prepare s).2 := by
  let declared := (State.declare m.included (State.declare m.vars (report (.enters .stateVariables) s).2).2).2
  have before : m.Same declared := (Step.spares_declare _ _).trans ((Step.spares_declare _ _).trans
    ((Step.spares_report _ s).trans same))
  have run : (m.prepare s).2 = (m.takeTypes declared).2 := rfl
  rw [run]
  exact ⟨(spares_takeTypes declared).trans before,
    fun id hid d t hd renames alone => renames.takeTypes setup before alone hd hid⟩

/-- The phase of the variables takes over the types and keeps them. -/
lemma ensures_checkVariables (setup : m.Renaming) (same : m.Same s) :
    Ensures m.checkVariables s (fun _ _ s' => m.Adopted s') m.Excused := by
  have excused {ν α : Type} {R : ν → Prop} {Q : α → State → Prop} {x : CheckM (Visited ν α)} {s : State}
      (yields : Yields R x) (visits : Visits False (fun _ => True) x s Q) :
      Ensures x s (fun _ _ s' => s.Moves False (fun _ => True) s') m.Excused :=
    ((visits.ensures orderly_false).and (Excused.of_avoids yields.avoids)).imp
      (fun _ _ _ h => h.1.1) fun _ h => h.2
  refine ensures_bind (ensures_bind (ensures_bind (ensures_bind ?_)))
  change Ensures _ (m.prepare s).2 _ _
  obtain ⟨same, adopted⟩ := adopted_prepare setup same
  generalize (m.prepare s).2 = s₁ at same adopted
  refine adopted.ensures_requireConcrete setup same ?_
  refine ensures_andThen ((excused (yields_optional m.invariant) (visits_optional _)).mono
    fun i _ s₂ first => ?_)
  refine ensures_andThen ((excused (Pred.yields_checkAll fun p _ => Node.walked (.pred p))
    (Pred.visits_checkAll (fun p _ => p.visit False) s₂)).mono fun a _ s₃ second => ?_)
  have kept : m.Adopted s₃ := (adopted.moves first).moves second
  apply ensures_orFail
  obtain run | run | ⟨_, -, _, _, _, -, -, -, -, run⟩ := requireConcrete_cases .stateVariable m.vars s₃
  · rw [Concludes, run]
    exact ensures_done kept
  · rw [Concludes, run]
    rintro name t span ⟨⟩
  · rw [Concludes, run]
    rintro name t span ⟨⟩

/-- The phases after the variables keep the types, and so does the conclusion. -/
lemma ensures_checkRest (h : m.Adopted s) :
    Ensures m.checkRest s (fun _ _ s' => m.Adopted s') m.Excused := by
  have kept : Ensures m.checkRest s (fun _ _ s' => m.Adopted s') fun _ => True := by
    refine ensures_andThen (((visits_checkBehaviour m.concrete_scope).ensures orderly_false).mono
      fun m₁ _ s₁ ⟨moves, _⟩ => ?_)
    rw [Ensures]
    split
    · rename_i run
      obtain ⟨-, -, -, settled⟩ := conclude_ok (swept s₁.unifier m₁) run
      exact (h.moves moves).settle settled
    · trivial
  exact (kept.and (Excused.of_avoids avoids_checkRest)).imp (fun _ _ _ h => h.1) fun _ h => h.2

/-- The check of all clauses of a machine with renamed variables. -/
lemma ensures_checkClauses (setup : m.Renaming) :
    Ensures m.checkClauses (start m.decls) (fun _ _ s' => m.Adopted s') m.Excused := by
  refine ensures_bind (ensures_bind (ensures_andThen ?_))
  generalize begin : (m.seedSets (report (.begins m.name) (start m.decls)).2).2 = s₀
  have seeded : m.Same s₀ := begin ▸ (spares_seedSets _).trans (Step.spares_report _ _)
  have constants : Ensures (m.checkConstants m.scope) s₀ (fun m₁ _ s₁ => m.Same s₁ ∧
      ∃ properties values, m₁ = { m with properties, values }) m.Excused := by
    have same := (preserves_checkConstants (m := m) m.concrete_scope s₀).2.trans seeded
    refine ((Excused.of_avoids avoids_checkConstants).and
      ((leaves_checkConstants s₀).and (Ensures.of_final same))).imp
        (fun _ _ _ h => ⟨h.2.2, h.2.1⟩) fun _ h => h.1
  refine constants.mono ?_
  rintro _ _ s₁ ⟨same₁, properties, values, rfl⟩
  have setup₁ : { m with properties, values }.Renaming :=
    ⟨setup.empty, setup.qualified, setup.distinct, setup.renames⟩
  refine ensures_andThen (((ensures_checkVariables setup₁ same₁).and (leaves_checkVariables s₁)).imp ?_
    fun _ h => h.1)
  rintro _ _ s₂ ⟨adopted, invariant, assertions, rfl⟩
  exact ensures_checkRest (m := { m with properties, values, invariant, assertions }) adopted

end Machine

/-! ## Checks. -/

/-- A renamed variable that shares its name with no other included declaration takes its type from the
machine that it comes from. With renamed variables only, and nothing typed yet, the check of a machine
never fails because the type of such a variable is not known, and if it succeeds the variable has the
type that it has there. -/
theorem renamed_take_included_type {m : Machine} (setup : m.Renaming) :
    (∀ name t span,
      (checkMachine m).verdict = .error (.error (.unresolved .includedVariable name t span)) →
        ∃ id ∈ m.included, ∃ d, m.decls.get? id = some d ∧ d.name = name ∧ m.HasNamesake id) ∧
    ((checkMachine m).verdict = .ok () → ∀ id ∈ m.included, ∀ d t, m.decls.get? id = some d →
      m.Renames d t → ¬ m.HasNamesake id → (checkMachine m).decls.ty? id = some t) := by
  obtain ⟨a, s', ok, adopted, decls⟩ | ⟨e, error, excused⟩ :=
    runCheck_spec (.machine m.name) (Machine.ensures_checkClauses setup)
  · refine ⟨fun name t span error => ?_, fun _ id hid d t hd renames alone => ?_⟩
    · cases ok.symm.trans error
    · exact (congrArg (·.ty? id) decls).trans (adopted id hid d t hd renames alone)
  · refine ⟨fun name t span error' => excused name t span ?_, fun ok => ?_⟩
    · exact Except.error.inj (error.symm.trans error')
    · cases error.symm.trans ok

/-- The machine `A` with a variable `x`, an integer, and a variable `y`, a set of integers. -/
def Machine.sampleSource : Machine :=
  { Machine.named "A" with
    decls := ⟨#[{ Declaration.named "x" with ty := some .integer },
      { Declaration.named "y" with ty := some (.set .integer) }]⟩
    vars := [0, 1] }

/-- A machine that takes over variables of the given names from `A` under the prefix `p`. -/
def Machine.sampleRenaming (names : List String) : Machine :=
  { Machine.named "M" with
    decls := ⟨(names.map fun name => { Declaration.named name with qualifier := some "p" }).toArray⟩
    included := List.range names.length
    references := [(some "p", sampleSource)] }

namespace Machine

lemma sampleSource_declares : sampleSource.Declares "x" .integer ∧
    sampleSource.Declares "y" (.set .integer) := by
  have distinct : ∀ id ∈ sampleSource.vars, ∀ id' ∈ sampleSource.vars,
      sampleSource.decls.nameOf id = sampleSource.decls.nameOf id' → id = id' := by decide
  have unique (name : String) : ∀ id ∈ sampleSource.vars, ∀ id' ∈ sampleSource.vars, ∀ d d',
      sampleSource.decls.get? id = some d → sampleSource.decls.get? id' = some d' →
        d.name = name → d'.name = name → id = id' := by
    intro id hid id' hid' d d' hd hd' named named'
    exact distinct id hid id' hid' (by simp [Declarations.nameOf, hd, hd', named, named'])
  exact ⟨⟨⟨0, by decide, _, rfl, rfl, rfl⟩, unique "x", rfl⟩,
    ⟨⟨1, by decide, _, rfl, rfl, rfl⟩, unique "y", rfl⟩⟩

lemma sampleRenaming_renaming {names : List String} (h : ∀ name ∈ names, name = "p.x" ∨ name = "p.y") :
    (sampleRenaming names).Renaming := by
  have declared {id : Nat} {d : Declaration} (hd : (sampleRenaming names).decls.get? id = some d) :
      ∃ name ∈ names, d = { Declaration.named name with qualifier := some "p" } := by
    simp only [sampleRenaming, Declarations.get?, List.getElem?_toArray, List.getElem?_map,
      Option.map_eq_some_iff] at hd
    obtain ⟨name, found, rfl⟩ := hd
    exact ⟨name, List.mem_of_getElem? found, rfl⟩
  refine ⟨fun id => ?_, ?_, List.nodup_singleton _, fun id _ d hd => ?_⟩
  · rw [Declarations.ty?]
    cases hd : (sampleRenaming names).decls.get? id with
    | none => rfl
    | some d =>
      obtain ⟨name, -, rfl⟩ := declared hd
      rfl
  · rintro r (_ | ⟨_, ⟨⟩⟩)
    exact ⟨"p", rfl, by decide⟩
  · obtain ⟨name, hn, rfl⟩ := declared hd
    obtain rfl | rfl := h name hn
    · exact ⟨_, "p", "x", _, rfl, rfl, .head _, sampleSource_declares.1⟩
    · exact ⟨_, "p", "y", _, rfl, rfl, .head _, sampleSource_declares.2⟩

end Machine

/-- Taking over both variables, each gets its type. -/
theorem renamed_take_included_type_sampleRenaming :
    let m := Machine.sampleRenaming ["p.x", "p.y"]
    m.Renaming ∧ (checkMachine m).verdict = .ok () ∧
      (checkMachine m).decls.ty? 0 = some .integer ∧ (checkMachine m).decls.ty? 1 = some (.set .integer) := by
  intro m
  have setup : m.Renaming := Machine.sampleRenaming_renaming (by simp)
  obtain ⟨_, ok⟩ : ∃ t, (checkMachine m).verdict = .ok t := Checked.isOk_iff.1 (by decide +kernel)
  have distinct : ∀ id ∈ m.included, ∀ other ∈ m.included,
      m.decls.nameOf other = m.decls.nameOf id → other = id := by decide
  have alone (id : Nat) (hid : id ∈ m.included) : ¬ m.HasNamesake id := by
    rintro ⟨d, hd, other, ho, ne, d', hd', name⟩
    exact ne (distinct id hid other ho (by simp [Declarations.nameOf, hd, hd', name]))
  have types := (renamed_take_included_type setup).2 ok
  exact ⟨setup, ok, types 0 (by decide) _ _ rfl
      ⟨"p", "x", _, rfl, rfl, .head _, Machine.sampleSource_declares.1⟩ (alone 0 (by decide)),
    types 1 (by decide) _ _ rfl
      ⟨"p", "y", _, rfl, rfl, .head _, Machine.sampleSource_declares.2⟩ (alone 1 (by decide))⟩

/-- Taking over `x` twice, either declaration ends up with the variable that the other had before, and the
check fails for the first. -/
theorem renamed_twice_unresolved :
    let m := Machine.sampleRenaming ["p.x", "p.x"]
    m.Renaming ∧
      (checkMachine m).verdict = .error (.error (.unresolved .includedVariable "p.x" (.var 1) none)) :=
  ⟨Machine.sampleRenaming_renaming (by simp), by decide +kernel⟩

end BMethod
