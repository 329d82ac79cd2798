import BMethod.Proofs.Recheck.Steps
import BMethod.Proofs.Typing.Form
import BMethod.Proofs.Typing.Sound.Operator

/-!
# Operators side by side

The second check reads a difference or product as the type that the first found for it says
(`World.reading`). Where that are the integers, the second goes the way of the first, and what the first
leaves open both have open. Where it are sets, the second has the signature of the set operator, and the
choices that the first introduces are pinned to what stands there in the second.
-/

namespace BMethod

open State

/-- Operators are read as the types of a world in their slots say. -/
def World.reading (w : World) : Stamp where
  note n := n
  op n op := ((n.ty.map (Ty.eval w.value)).bind op.reread?).getD op

@[simp] lemma World.reading_note (w : World) (n : Note) : w.reading.note n = n := rfl

/-- Only differences and products are read in two ways. -/
lemma Operator.reread?_eq_none {op : Operator} (minus : op ≠ .minus) (mult : op ≠ .mult) (t : Ty) :
    op.reread? t = none := by
  cases op <;> first | contradiction | rfl

lemma World.reading_op {w : World} {op : Operator} (minus : op ≠ .minus) (mult : op ≠ .mult) (n : Note) :
    w.reading.op n op = op := by
  simp only [reading]
  cases n.ty with
  | none => rfl
  | some t => simp [Operator.reread?_eq_none minus mult]

/-- What settling an expression leaves, if it succeeds. -/
lemma Expr.eq_of_settle {a e : Expr} {l r t : Ty} {s s₁ : State}
    (run : a.settle l r s = ((e, .ok t), s₁)) : e = a.withTy t := by
  obtain ⟨_, _, -, ⟨⟩⟩ := CheckM.orFail_eq_ok.1 run
  rfl

/-- What settling a predicate leaves, if it succeeds. -/
lemma Pred.eq_of_settle {a p : Pred} {l r t : Ty} {s s₁ : State}
    (run : a.settle l r s = ((p, .ok t), s₁)) : p = a.withTy t := by
  obtain ⟨_, _, -, ⟨⟩⟩ := CheckM.orFail_eq_ok.1 run
  rfl

namespace Duo

/-! ## Slots. -/

/-- Node by node, the slots of the two trees hold tied types. -/
def Level (w : World) (d : Duo) (n n' : Node) : Prop :=
  w.Models d.first →
    List.Forall₂ (fun m m' => Option.Rel d.Tied m.slot m'.slot) n.preorder n'.preorder

/-- The slots of the trees of two lists hold tied types. -/
abbrev LevelAll (w : World) (d : Duo) (ns ns' : List Node) : Prop := List.Forall₂ (d.Level w) ns ns'

/-- Trees whose slots hold tied types, and tied types for the whole. -/
structure Yields (w : World) (n : Node) (t : Ty) (d : Duo) (n' : Node) (t' : Ty) : Prop where
  tie : d.Tie w t t'
  level : d.Level w n n'

variable {w : World} {known : Nat → Bool} {d d₁ : Duo} {n n' : Node} {ns ns' : List Node}

lemma Level.node (slot : w.Models d.first → Option.Rel d.Tied n.slot n'.slot)
    (parts : d.LevelAll w n.children n'.children) : d.Level w n n' := by
  intro m
  rw [Node.preorder_eq, Node.preorder_eq n']
  refine .cons (slot m) ?_
  generalize n.children = cs at parts
  generalize n'.children = cs' at parts
  induction parts with
  | nil => exact .nil
  | cons head _ ih => exact List.rel_append (head m) ih

lemma Level.mono (h : d.Level w n n') (g : d.Goes w known d₁) : d₁.Level w n n' := fun m =>
  (h (g.steps.models w m)).imp fun a b rel => by
    revert rel
    generalize a.slot = o
    generalize b.slot = o'
    rintro (tied | -)
    · exact .some ((g.later m).ties _ _ tied)
    · exact .none

lemma LevelAll.mono (h : d.LevelAll w ns ns') (g : d.Goes w known d₁) : d₁.LevelAll w ns ns' :=
  List.Forall₂.imp (fun _ _ h => h.mono g) h

lemma Level.expr {a b : Expr} {t t' : Ty} (slot : a.note.ty = some t) (slot' : b.note.ty = some t')
    (tie : d.Tie w t t') (parts : d.LevelAll w a.children b.children) :
    d.Level w (.expr a) (.expr b) :=
  .node (fun m => by
    show Option.Rel d.Tied a.note.ty b.note.ty
    rw [slot, slot']
    exact .some (tie.tied m)) parts

lemma Level.pred {a b : Pred} {t t' : Ty} (slot : a.note.ty = some t) (slot' : b.note.ty = some t')
    (tie : d.Tie w t t') (parts : d.LevelAll w a.children b.children) :
    d.Level w (.pred a) (.pred b) :=
  .node (fun m => by
    show Option.Rel d.Tied a.note.ty b.note.ty
    rw [slot, slot']
    exact .some (tie.tied m)) parts

/-! ## Settling a node. -/

variable {l l' r r' t : Ty} {s₁ : State}

/-- Nodes with parts whose slots hold tied types are settled with tied types. -/
lemma Sound.settleExpr (h : d.Sound w known) {a b e : Expr} (hl : d.Tie w l l') (hr : d.Tie w r r')
    (run : a.settle l r d.first = ((e, .ok t), s₁)) (parts : d.LevelAll w a.children b.children) :
    d.Visits w known (b.settle l' r') s₁ fun d₁ e' t' => d₁.Yields w (.expr e) t (.expr e') t' := by
  obtain ⟨u, s, uni, ⟨⟩⟩ := CheckM.orFail_eq_ok.1 run
  refine .orFail (h.unifyAt hl hr uni _) ?_
  rintro d₁ t' g rfl ⟨tie, -⟩
  exact .done g.sound ⟨tie, .expr (by simp [Note.withTy]) (by simp [Note.withTy]) tie
    (by simpa using parts.mono g)⟩

lemma Sound.settlePred (h : d.Sound w known) {a b p : Pred} (hl : d.Tie w l l') (hr : d.Tie w r r')
    (run : a.settle l r d.first = ((p, .ok t), s₁)) (parts : d.LevelAll w a.children b.children) :
    d.Visits w known (b.settle l' r') s₁ fun d₁ p' t' => d₁.Yields w (.pred p) t (.pred p') t' := by
  obtain ⟨u, s, uni, ⟨⟩⟩ := CheckM.orFail_eq_ok.1 run
  refine .orFail (h.unifyAt hl hr uni _) ?_
  rintro d₁ t' g rfl ⟨tie, -⟩
  exact .done g.sound ⟨tie, .pred (by simp [Note.withTy]) (by simp [Note.withTy]) tie
    (by simpa using parts.mono g)⟩

/-- Another computation that is the same, if the world is one of the last state. -/
lemma Visits.congr {ν α : Type} {x y : CheckM (Visited ν α)} {V : Prop} {P : Duo → ν → α → Prop}
    (h : d.Visits w known x s₁ fun d₁ n a => P d₁ n a ∧ (w.Models s₁ → V)) (eq : V → x = y) :
    d.Visits w known y s₁ P := by
  obtain ⟨d₁, _, rfl, run, n, a, rfl, ha, v⟩ := h
  exact ⟨d₁, _, rfl, ⟨run.toGoes, fun m => by rw [← eq (v m), run.run m]⟩, n, a, rfl, ha⟩

/-- Nothing is said of a world that is none of a state on the way. -/
lemma Visits.of_not_models {ν π α β : Type} {x : CheckM (Visited ν α)} {y : CheckM (Visited π β)}
    {s' : State} {P : Duo → ν → α → Prop} {Q : Duo → π → β → Prop} {n : ν} {a : α}
    (steps : d.first.Steps known s') (no : ¬ w.Models s')
    (after : ∀ d', d.Goes w known d' → d'.first = s' → d'.Visits w known y s₁ Q)
    (vacuous : ∀ d₁ : Duo, s'.Steps known d₁.first → ¬ w.Models d₁.first → P d₁ n a) :
    d.Visits w known x s₁ P := by
  have g : d.Goes w known ⟨d.coupling, s', d.second⟩ := ⟨steps, fun m => absurd m no⟩
  obtain ⟨d₁, _, rfl, run, -⟩ := after _ g rfl
  have no₁ : ¬ w.Models d₁.first := fun m => no (run.steps.models w m)
  exact ⟨d₁, (n, .ok a), rfl, ⟨g.trans run.toGoes, fun m => absurd m no₁⟩, n, a, rfl,
    vacuous d₁ run.steps no₁⟩

/-- The first check adds something while the second rests. -/
lemma Visits.skip {ν α : Type} {x : CheckM (Visited ν α)} {s₂ : State} {P : Duo → Unit → Prop}
    {Q : Duo → ν → α → Prop} (h : d.Follows w known (Pure.pure ()) s₁ P)
    (h' : ∀ d₁ a, d.Goes w known d₁ → d₁.first = s₁ → P d₁ a → d₁.Visits w known x s₂ Q) :
    d.Visits w known x s₂ Q := Visits.bind h h'

end Duo

/-! ## Operands. -/

section

variable {w : World} {known : Nat → Bool} {d : Duo} {s s₁ : State} {n : Note} {op : Operator}
  {args es : List Expr} {e : Expr} {expected expected' result result' t : Ty} {count : Nat}

/-- The walks `walks'` through what the walks `walks` leave follow these, and give tied types. -/
structure OperandWalks.Repeat (w : World) (known : Nat → Bool) (walks : OperandWalks)
    (walks' : List Expr → OperandWalks) : Prop where
  forward : ∀ {d : Duo} {ts ts' es s₁}, d.Sound w known → List.Forall₂ (d.Tie w) ts ts' →
    es.length = ts.length → walks.forward ts d.first = ((es, .ok ()), s₁) →
      d.Visits w known ((walks' es).forward ts') s₁ fun d₁ es' _ =>
        d₁.LevelAll w (es.map .expr) (es'.map .expr)
  backward : ∀ {d : Duo} {ts ts' es s₁}, d.Sound w known → List.Forall₂ (d.Tie w) ts ts' →
    es.length = ts.length → walks.backward ts d.first = ((es, .ok ()), s₁) →
      d.Visits w known ((walks' es).backward ts') s₁ fun d₁ es' _ =>
        d₁.LevelAll w (es.map .expr) (es'.map .expr)
  chain : ∀ {d : Duo} {t t' es u s₁}, d.Sound w known → d.Tie w t t' →
    walks.chain t d.first = ((es, .ok u), s₁) →
      d.Visits w known ((walks' es).chain t') s₁ fun d₁ es' _ =>
        d₁.LevelAll w (es.map .expr) (es'.map .expr)
  apart : ∀ {d : Duo} {es ts s₁}, d.Sound w known → walks.apart d.first = ((es, .ok ts), s₁) →
    d.Visits w known (walks' es).apart s₁ fun d₁ es' ts' =>
      List.Forall₂ (d₁.Tie w) ts ts' ∧ d₁.LevelAll w (es.map .expr) (es'.map .expr)
  call : ∀ {d : Duo} {t t' es s₁}, d.Sound w known → d.Tie w t t' →
    walks.call t d.first = ((es, .ok ()), s₁) →
      d.Visits w known ((walks' es).call t') s₁ fun d₁ es' _ =>
        d₁.LevelAll w (es.map .expr) (es'.map .expr)

lemma Walk.Yields.length {α : Type} {x : CheckM (Visited (List Expr) α)} {r : Verdict α}
    (h : Walk.Yields (fun args' => Expr.eraseAll args' = Expr.eraseAll args) x)
    (run : x s = ((es, r), s₁)) : es.length = args.length := by
  have same := (h s).1
  rw [run] at same
  simpa using congrArg List.length same

lemma Expr.withOperands_eq_ok {α : Type} {walk : CheckM (Visited (List Expr) α)}
    {next : List Expr → α → CheckM (Visited Expr Ty)} :
    withOperands n op args count walk next s = ((e, .ok t), s₁) ↔
      args.length = count ∧ ∃ es a s', walk s = ((es, .ok a), s') ∧ next es a s' = ((e, .ok t), s₁) := by
  rw [withOperands]
  split
  · rw [CheckM.andThen_eq_ok]
    tauto
  · refine ⟨?_, fun h => absurd h.1 ‹_›⟩
    rintro ⟨⟩

lemma Expr.resultFirst_eq_ok {walk : Ty → CheckM (Visited (List Expr) Unit)} :
    resultFirst n op args expected result count walk s = ((e, .ok t), s₁) ↔
      ∃ es s', unifyAt (apply n op args).site expected result s = (.ok t, s') ∧ args.length = count ∧
        walk t s' = ((es, .ok ()), s₁) ∧ e = apply (n.withTy t) op es := by
  rw [resultFirst, CheckM.orFail_eq_ok]
  constructor
  · rintro ⟨u, s', uni, run⟩
    obtain ⟨len, es, _, s'', walk, ⟨⟩⟩ := withOperands_eq_ok.1 run
    exact ⟨es, s', uni, len, walk, rfl⟩
  · rintro ⟨es, s', uni, len, walk, rfl⟩
    exact ⟨t, s', uni, withOperands_eq_ok.2 ⟨len, es, (), s₁, walk, rfl⟩⟩

variable {walks : OperandWalks} {walks' : List Expr → OperandWalks}

/-- What the walks of an operator are, as the second check goes through what the first has left. -/
abbrev Duo.reread (w : World) (es : List Expr) : List Expr := es.map (Expr.restamp w.reading)

namespace Duo

/-- The second check gives a tree with tied slots, and a type that is tied to that of the first. -/
abbrev Echoes (w : World) (known : Nat → Bool) (d : Duo) (e : Expr) (t : Ty)
    (x : CheckM (Visited Expr Ty)) (s₁ : State) : Prop :=
  d.Visits w known x s₁ fun d₁ e' t' => d₁.Yields w (.expr e) t (.expr e') t'

/-- As many operands as there have to be are walked through. -/
lemma Visits.withOperands {α : Type} {walk : CheckM (Visited (List Expr) α)} {s₂ : State}
    {next : List Expr → α → CheckM (Visited Expr Ty)} {P : Duo → List Expr → α → Prop}
    {Q : Duo → Expr → Ty → Prop} (len : args.length = count) (h : d.Visits w known walk s₁ P)
    (h' : ∀ d₁ es a, d.Goes w known d₁ → d₁.first = s₁ → P d₁ es a →
      d₁.Visits w known (next es a) s₂ Q) :
    d.Visits w known (Expr.withOperands n op args count walk next) s₂ Q := by
  rw [Expr.withOperands, if_pos len]
  exact h.andThen h'

/-- The shapes of operands over tied types. -/
lemma ties_operands {shapes : List Shape} {ps ps' : List Ty} (hps : List.Forall₂ (d.Tie w) ps ps')
    (ht : d.Tie w expected expected') :
    List.Forall₂ (d.Tie w) (shapes.map (Shape.instantiate ps expected))
      (shapes.map (Shape.instantiate ps' expected')) := by
  induction shapes with
  | nil => exact .nil
  | cons shape _ ih => exact .cons (tie_instantiate shape hps ht) ih

namespace Sound

variable (h : d.Sound w known)

include h

/-- A tied result is settled first, then tied operands are walked through. In a world of the last state,
which is one of the first, the whole has the value of the result. -/
lemma resultFirst {walk' : Ty → CheckM (Visited (List Expr) Unit)} (he : d.Tie w expected expected')
    (hr : d.Tie w result result') {site : Site} {s' : State}
    (uni : State.unifyAt site expected result d.first = (.ok t, s'))
    (len : es.length = count) (m : Note) (op' : Operator)
    (operands : ∀ {d₁ : Duo} {t'}, d.Goes w known d₁ → d₁.first = s' → d₁.Tie w t t' →
      d₁.Visits w known (walk' t') s₁ fun d₁ es' _ => d₁.LevelAll w (es.map .expr) (es'.map .expr)) :
    d.Visits w known (Expr.resultFirst m op' (reread w es) expected' result' count walk') s₁
      fun d₁ e' t' => d₁.Yields w (.expr (.apply (n.withTy t) op es)) t (.expr e') t' ∧
        (w.Models s₁ → w.Models d.first ∧ t.eval w.value = result.eval w.value) := by
  have unified := h.inv.unified he.scope hr.scope uni
  refine .orFail (h.unifyAt he hr uni _) ?_
  rintro d₁ t' g rfl ⟨tie, -⟩
  refine .withOperands (by simp [len]) (operands g rfl tie) ?_
  rintro d₂ es' _ g₂ rfl level
  refine .done g₂.sound ⟨⟨tie.mono g₂, .expr rfl rfl (tie.mono g₂) level⟩, fun m => ?_⟩
  have after := g₂.steps.models w m
  obtain ⟨sides, whole⟩ := unified.sound w after
  exact ⟨unified.steps.models w after, whole.trans sides⟩

/-- The rule of a signature. -/
lemma signature {sig : Signature} (he : d.Tie w expected expected') (hy : walks.Yield args)
    (again : walks.Repeat w known walks')
    (run : sig.check n op args expected walks d.first = ((e, .ok t), s₁)) :
    ∃ es, e = .apply (n.withTy t) op es ∧ d.Echoes w known e t
      (sig.check (n.withTy t) op (reread w es) expected' (walks' es)) s₁ := by
  obtain ⟨ps, s, fresh, run⟩ := CheckM.bind_eq.1 run
  obtain ⟨params, res, operands, order⟩ := sig
  cases order with
  | forward =>
    obtain ⟨es, s', uni, len, walk, rfl⟩ := Expr.resultFirst_eq_ok.1 run
    refine ⟨es, rfl, .bind (h.freshList fresh) ?_⟩
    rintro d₁ ps' g rfl ties
    have len := ((hy.forward _).length walk).trans len
    refine Visits.congr (g.sound.resultFirst (he.mono g) (tie_instantiate res ties (he.mono g)) uni
      len _ op ?_) fun _ => rfl
    rintro d₂ t' g₂ rfl tie
    exact again.forward g₂.sound (ties_operands (Tie.mono_all ties g₂) tie) (by simpa using len) walk
  | backward =>
    obtain ⟨es, s', uni, len, walk, rfl⟩ := Expr.resultFirst_eq_ok.1 run
    refine ⟨es, rfl, .bind (h.freshList fresh) ?_⟩
    rintro d₁ ps' g rfl ties
    have len := ((hy.backward _).length walk).trans len
    refine Visits.congr (g.sound.resultFirst (he.mono g) (tie_instantiate res ties (he.mono g)) uni
      len _ op ?_) fun _ => rfl
    rintro d₂ t' g₂ rfl tie
    exact again.backward g₂.sound (ties_operands (Tie.mono_all ties g₂) tie) (by simpa using len) walk
  | inward =>
    obtain ⟨len, es, _, s', walk, run⟩ := Expr.withOperands_eq_ok.1 run
    refine ⟨es, Expr.eq_of_settle run, .bind (h.freshList fresh) ?_⟩
    rintro d₁ ps' g rfl ties
    have he := he.mono g
    have len := ((hy.forward _).length walk).trans len
    refine .withOperands (by simp [len])
      (again.forward g.sound (ties_operands ties he) (by simpa using len) walk) ?_
    rintro d₂ es' _ g₂ rfl level
    have tie := tie_instantiate res (Tie.mono_all ties g₂) (he.mono g₂)
    exact g₂.sound.settleExpr (he.mono g₂) tie run level

/-- The rule of a constant, which has no operands. -/
lemma constant {params : Nat} {shape : Shape} (he : d.Tie w expected expected') {ps : List Ty}
    {s : State} (fresh : State.freshList params d.first = (ps, s))
    (run : (Expr.apply n op []).settle expected (shape.instantiate ps expected) s = ((e, .ok t), s₁)) :
    e = .apply (n.withTy t) op [] ∧ d.Echoes w known e t (do
      let params ← State.freshList params
      (Expr.apply (n.withTy t) op []).settle expected' (shape.instantiate params expected')) s₁ := by
  refine ⟨Expr.eq_of_settle run, .bind (h.freshList fresh) ?_⟩
  rintro d₁ ps' g rfl ties
  have he := he.mono g
  exact g.sound.settleExpr he (tie_instantiate shape ties he) run .nil

/-- The rule of a pair. -/
lemma pair (he : d.Tie w expected expected') (hy : walks.Yield args)
    (again : walks.Repeat w known walks')
    (run : Rule.checkPair n op args expected walks d.first = ((e, .ok t), s₁)) :
    ∃ es, e = .apply (n.withTy t) op es ∧ d.Echoes w known e t
      (Rule.checkPair (n.withTy t) op (reread w es) expected' (walks' es)) s₁ := by
  obtain ⟨len, es, ts, s', walk, run⟩ := Expr.withOperands_eq_ok.1 run
  cases ht : Ty.tuple? ts with
  | none =>
    rw [ht] at run
    cases run
  | some u =>
    rw [ht] at run
    have len : es.length = 2 := (hy.apart.length walk).trans len
    refine ⟨es, Expr.eq_of_settle run, .withOperands (by simp [len]) (again.apart h walk) ?_⟩
    rintro d₁ es' ts' g rfl ⟨ties, level⟩
    obtain ⟨t', ht', tie⟩ := exists_tuple? ties ht
    rw [ht']
    exact g.sound.settleExpr (he.mono g) tie run level

/-- The rule of an enumeration. -/
lemma enumeration {shape : Shape} (he : d.Tie w expected expected')
    (again : walks.Repeat w known walks')
    (run : Rule.checkEnumeration n op args expected walks shape d.first = ((e, .ok t), s₁)) :
    ∃ es, e = .apply (n.withTy t) op es ∧ d.Echoes w known e t
      (Rule.checkEnumeration (n.withTy t) op (reread w es) expected' (walks' es) shape) s₁ := by
  obtain ⟨elem, s, fresh, run⟩ := CheckM.bind_eq.1 run
  obtain ⟨u, s', uni, run⟩ := CheckM.orFail_eq_ok.1 run
  obtain ⟨es, _, s₂, walk, ⟨⟩⟩ := CheckM.andThen_eq_ok.1 run
  refine ⟨es, rfl, .bind (h.fresh fresh) ?_⟩
  rintro d₁ elem' g rfl tie
  have he := he.mono g
  refine .orFail (g.sound.unifyAt he (tie_instantiate shape (.cons tie .nil) he) uni _) ?_
  rintro d₂ t' g₂ rfl ⟨whole, -⟩
  refine .andThen (again.chain g₂.sound (tie.mono g₂) walk) ?_
  rintro d₃ es' _ g₃ rfl level
  exact .done g₃.sound ⟨whole.mono g₃, .expr rfl rfl (whole.mono g₃) level⟩

/-- The rule of an application. -/
lemma application (he : d.Tie w expected expected') (hy : walks.Yield args)
    (again : walks.Repeat w known walks')
    (run : Rule.checkApplication n op args expected walks d.first = ((e, .ok t), s₁)) :
    ∃ es, e = .apply (n.withTy t) op es ∧ d.Echoes w known e t
      (Rule.checkApplication (n.withTy t) op (reread w es) expected' (walks' es)) s₁ := by
  rw [Rule.checkApplication] at run
  split at run
  · cases run
  rename_i many
  obtain ⟨result, s, fresh, run⟩ := CheckM.bind_eq.1 run
  obtain ⟨es, _, s', walk, run⟩ := CheckM.andThen_eq_ok.1 run
  refine ⟨es, Expr.eq_of_settle run, ?_⟩
  rw [Rule.checkApplication, if_neg (by simpa [(hy.call _).length walk] using many)]
  refine .bind (h.fresh fresh) ?_
  rintro d₁ result' g rfl tie
  refine .andThen (again.call g.sound tie walk) ?_
  rintro d₂ es' _ g₂ rfl level
  exact g₂.sound.settleExpr ((he.mono g).mono g₂) (tie.mono g₂) run level

/-- The rule of a difference. Of integers it is one in the second check, too; of sets it is the signature of
the difference of sets. -/
lemma difference (he : d.Tie w expected expected') (hy : walks.Yield args)
    (again : walks.Repeat w known walks')
    (run : Rule.checkDifference n .minus args expected walks d.first = ((e, .ok t), s₁)) :
    ∃ es, e = .apply (n.withTy t) .minus es ∧ d.Echoes w known e t
      ((w.reading.op (n.withTy t) .minus).check (n.withTy t) (reread w es) expected' (walks' es)) s₁ := by
  obtain ⟨elem, s, fresh, run⟩ := CheckM.bind_eq.1 run
  obtain ⟨found, s', alloc, run⟩ := CheckM.bind_eq.1 run
  rw [run_allocate] at alloc
  cases alloc
  obtain ⟨es, s₂, uni, len, walk, rfl⟩ := Expr.resultFirst_eq_ok.1 run
  have len := ((hy.forward _).length walk).trans len
  have operands {d₁ : Duo} {t' : Ty} (h : d₁.Sound w known) (first : d₁.first = s₂)
      (tie : d₁.Tie w t t') : d₁.Visits w known ((walks' es).forward [t', t']) s₁
        fun d₁ es' _ => d₁.LevelAll w (es.map .expr) (es'.map .expr) :=
    again.forward h (.cons tie (.cons tie .nil)) len (first ▸ walk)
  refine ⟨es, rfl, ?_⟩
  -- Of integers the element of the choice stays idle, in both checks.
  by_cases integer : w.value s.vars = .integer
  · refine Visits.congr (x := Rule.checkDifference (n.withTy t) .minus (reread w es) expected' (walks' es))
      (V := w.Models (s.grow (.setOrInteger elem)) ∧ t.eval w.value = w.value s.vars) ?_ fun value => ?_
    · refine .bind (h.freshIdle fresh) ?_
      rintro d₁ elem' g rfl mate
      refine .bind (g.sound.choice integer mate) ?_
      rintro d₂ found' g₂ first tie
      rw [← first]
      exact g₂.sound.resultFirst ((he.mono g).mono g₂) tie (first ▸ uni) len _ .minus
        fun g₃ first tie => operands g₃.sound first tie
    · simp [World.reading, Note.withTy, value.2, integer, Operator.reread?, Operator.check, Operator.rule]
  -- The second check asks for a set at once, and to that the choice of the first is pinned.
  · refine Visits.congr (x := Operator.setSubtraction.check (n.withTy t) (reread w es) expected' (walks' es))
      (V := w.Models (s.grow (.setOrInteger elem)) ∧ t.eval w.value = w.value s.vars) ?_ fun value => ?_
    · refine .bind (h.freshList (n := 1) (CheckM.bind_eq.2 ⟨elem, s, fresh, rfl⟩)) ?_
      rintro d₁ ps' g rfl ties
      cases ties with | cons tie none => ?_
      cases none
      refine .skip (g.sound.pinned (c := .setOrInteger elem) (List.forall_mem_singleton.2 tie.scope)
        tie.set fun holds => ?_) ?_
      · exact ⟨by simp [Cell.pins?, integer], holds.resolve_left integer⟩
      rintro d₂ _ g₂ first set
      rw [← first]
      exact g₂.sound.resultFirst ((he.mono g).mono g₂) set (first ▸ uni) len _ .setSubtraction
        fun g₃ first tie => operands g₃.sound first tie
    · have set := (models_grow.1 value.1).2.resolve_left integer
      simp [World.reading, Note.withTy, value.2, set, Operator.reread?]

end Sound

end Duo

/-! ## Products. -/

/-- The steps of the rule of a product up to its operands: two new variables for elements, a choice for the
result, the result, choices for the operands, and the link. -/
structure ProductRun (expected : Ty) (s : State) (l r t : Ty) (s₁ s₂ s₃ : State) : Prop where
  fresh : ∃ s', State.fresh s = (l, s') ∧ State.fresh s' = (r, s₁)
  unify : ∃ site, State.unifyAt site expected (.var s₁.vars) (s₁.grow (.integerOrPairs l r)) = (.ok t, s₂)
  link : ∃ site, State.linkAt site expected (.var s₁.vars)
    ⟨t, .var s₂.vars, .var (s₂.vars + 1), l, r⟩
      ((s₂.grow (.setOrInteger l)).grow (.setOrInteger r)) = (.ok (), s₃)

lemma Rule.checkProduct_eq_ok (run : checkProduct n op args expected walks s = ((e, .ok t), s₁)) :
    ∃ l r s' s'' s₃ es, ProductRun expected s l r t s' s'' s₃ ∧ args.length = 2 ∧
      walks.forward [.var s''.vars, .var (s''.vars + 1)] s₃ = ((es, .ok ()), s₁) ∧
        e = .apply (n.withTy t) op es := by
  obtain ⟨l, s', fl, run⟩ := CheckM.bind_eq.1 run
  obtain ⟨r, s'', fr, run⟩ := CheckM.bind_eq.1 run
  obtain ⟨found, _, alloc, run⟩ := CheckM.bind_eq.1 run
  rw [run_allocate] at alloc
  cases alloc
  obtain ⟨u, s₃, uni, run⟩ := CheckM.orFail_eq_ok.1 run
  obtain ⟨left, _, alloc, run⟩ := CheckM.bind_eq.1 run
  rw [run_allocate] at alloc
  cases alloc
  obtain ⟨right, _, alloc, run⟩ := CheckM.bind_eq.1 run
  rw [run_allocate, vars_grow] at alloc
  cases alloc
  obtain ⟨_, s₄, lnk, run⟩ := CheckM.orFail_eq_ok.1 run
  obtain ⟨len, es, _, _, walk, ⟨⟩⟩ := Expr.withOperands_eq_ok.1 run
  exact ⟨l, r, s'', s₃, s₄, es, ⟨⟨s', fl, fr⟩, ⟨_, uni⟩, _, lnk⟩, len, walk, rfl⟩

/-- What the steps of a product do, and the values that they leave: the result and the operands are integers,
or none of them is and the result is a set. -/
structure ProductRun.Spec (known : Nat → Bool) (s : State) (l r t : Ty) (s₁ s₂ s₃ : State) : Prop where
  steps : s.Steps known s₃
  scope : t.Scoped s₃.vars
  vars_le : s₂.vars + 2 ≤ s₃.vars
  sane : ∀ σ, ((s₂.grow (.setOrInteger l)).grow (.setOrInteger r)).unifier.store.Holds σ →
    (⟨t, .var s₂.vars, .var (s₂.vars + 1), l, r⟩ : ProductLink).Sane σ
  values : ∀ w : World, w.Models s₃ →
    w.value s₁.vars = .integer ∧ w.value s₂.vars = .integer ∧ w.value (s₂.vars + 1) = .integer ∧
        t.eval w.value = .integer ∨
      w.value s₁.vars ≠ .integer ∧ w.value s₂.vars ≠ .integer ∧ w.value (s₂.vars + 1) ≠ .integer ∧
        ∃ u, t.eval w.value = .set u

lemma ProductRun.spec {l r : Ty} {s₂ s₃ : State} (run : ProductRun expected s l r t s₁ s₂ s₃)
    (inv : s.Inv known) (he : expected.Scoped s.vars) : Spec known s l r t s₁ s₂ s₃ := by
  obtain ⟨⟨s', fl, fr⟩, ⟨site, uni⟩, site', lnk⟩ := run
  rw [run_fresh] at fl
  cases fl
  rw [run_fresh] at fr
  cases fr
  simp only [vars_grow] at uni lnk ⊢
  have start : s.Steps known (Expr.productStart s) := (inv.fresh.trans inv.fresh.inv.fresh).trans
    ((inv.fresh.trans inv.fresh.inv.fresh).inv.grow (by simp [Cell.contents, Ty.Scoped]))
  have unified := start.inv.unified (he.mono start.vars_le) (r := .var (s.vars + 2))
    (by simp [Ty.Scoped, Expr.productStart]) uni
  obtain ⟨scope, sane⟩ := Expr.link_of_unified unified
  have vars := unified.vars_eq
  simp only [Expr.productStart, vars_grow] at vars
  have left := unified.steps.inv.grow (c := .setOrInteger (.var s.vars))
    (by simp [Cell.contents, Ty.Scoped]; omega)
  have right := left.inv.grow (c := .setOrInteger (.var (s.vars + 1)))
    (by simp [Cell.contents, Ty.Scoped]; omega)
  have linked := right.inv.linked scope sane lnk
  have le := linked.vars_eq
  simp only [vars_grow] at le
  refine ⟨start.trans (unified.steps.trans (left.trans (right.trans linked.steps))),
    unified.scope.mono (by omega), by omega, sane, fun w m => ?_⟩
  obtain ⟨reading, h⟩ := linked.sound w m
  have value := unified.sound w (left.models w (right.models w (linked.steps.models w m)))
  simp only [ProductLink.equations, List.forall_mem_cons] at h
  obtain ⟨result, left, right, -⟩ := h
  rw [Ty.eval] at left right
  have found : w.value (s.vars + 2) = t.eval w.value := (value.2.trans value.1).symm
  rw [show ((s.grow .free).grow .free).vars = s.vars + 2 by simp, found]
  cases reading with
  | integers => exact .inl ⟨result, left, right, result⟩
  | sets =>
    rw [left, right, result]
    refine .inr ⟨?_, ?_, ?_, _, rfl⟩ <;> rintro ⟨⟩

namespace Duo.Sound

variable (h : d.Sound w known) {l r : Ty} {s₂ s₃ : State}

include h

/-- A product that is read as one of integers, before its operands. -/
lemma integerProduct (he : d.Tie w expected expected') (run : ProductRun expected d.first l r t s s₂ s₃)
    (found : w.value s.vars = .integer) (left : w.value s₂.vars = .integer)
    (right : w.value (s₂.vars + 1) = .integer) (len : es.length = 2)
    (walk : walks.forward [.var s₂.vars, .var (s₂.vars + 1)] s₃ = ((es, .ok ()), s₁))
    (again : walks.Repeat w known walks') :
    d.Visits w known (Rule.checkProduct (n.withTy t) .mult (reread w es) expected' (walks' es)) s₁
      fun d₁ e' t' => d₁.Yields w (.expr (.apply (n.withTy t) .mult es)) t (.expr e') t' ∧
        (w.Models s₁ → w.Models s₃) := by
  have spec := run.spec h.inv he.scope
  obtain ⟨⟨s', fl, fr⟩, ⟨site, uni⟩, site', lnk⟩ := run
  refine .bind (h.freshIdle fl) ?_
  rintro d₁ l' g₁ rfl ml
  refine .bind (g₁.sound.freshIdle fr) ?_
  rintro d₂ r' g₂ rfl mr
  -- Both checks allocate the same choices, and what they would be sets of stays idle.
  refine .bind (g₂.sound.product found (ml.mono g₂) mr) ?_
  rintro d₃ found' g₃ f₃ tf
  refine .orFail (g₃.sound.unifyAt (((he.mono g₁).mono g₂).mono g₃) tf (f₃ ▸ uni) _) ?_
  rintro d₄ t' g₄ rfl ⟨tt, -⟩
  refine .bind (g₄.sound.choice left (ml.mono (g₂.trans (g₃.trans g₄)))) ?_
  rintro d₅ left' g₅ f₅ tl
  have next : d₅.first.vars = d₄.first.vars + 1 := by rw [f₅, vars_grow]
  refine .bind (g₅.sound.choice (next ▸ right) (mr.mono (g₃.trans (g₄.trans g₅)))) ?_
  rintro d₆ right' g₆ f₆ tr
  rw [next] at tr
  rw [f₅] at f₆
  have tt := tt.mono (g₅.trans g₆)
  have tl := tl.mono g₆
  have mr := mr.mono (g₃.trans (g₄.trans (g₅.trans g₆)))
  have ml := ml.mono (g₂.trans (g₃.trans (g₄.trans (g₅.trans g₆))))
  have integers (m : w.Models s₃) :
      ∀ u ∈ [t, .var d₄.first.vars, .var (d₄.first.vars + 1)], u.eval w.value = .integer := by
    obtain ⟨-, hl, hr, ht⟩ | ⟨no, -⟩ := spec.values w m
    · simp [ht, hl, hr, Ty.eval]
    · exact absurd found no
  refine .orFail (g₆.sound.linkAt ⟨t, .var d₄.first.vars, .var (d₄.first.vars + 1), l, r⟩
    ⟨t', left', right', l', r'⟩ tt tl tr ml mr (f₆ ▸ spec.sane) integers (f₆ ▸ lnk) _) ?_
  rintro d₇ _ g₇ rfl -
  have operands := List.Forall₂.cons (tl.mono g₇) (.cons (tr.mono g₇) .nil)
  refine .withOperands (by simp [len]) (again.forward g₇.sound operands len walk) ?_
  rintro d₈ es' _ g₈ rfl level
  have tt := tt.mono (g₇.trans g₈)
  exact .done g₈.sound ⟨⟨tt, .expr rfl rfl tt level⟩, g₈.steps.models w⟩

/-- A product that is read as one of sets, before its operands. -/
lemma cartesianProduct (he : d.Tie w expected expected')
    (run : ProductRun expected d.first l r t s s₂ s₃) (found : w.value s.vars ≠ .integer)
    (left : w.value s₂.vars ≠ .integer) (right : w.value (s₂.vars + 1) ≠ .integer) (len : es.length = 2)
    (walk : walks.forward [.var s₂.vars, .var (s₂.vars + 1)] s₃ = ((es, .ok ()), s₁))
    (again : walks.Repeat w known walks') :
    d.Visits w known (Operator.cartesianProduct.check (n.withTy t) (reread w es) expected' (walks' es)) s₁
      fun d₁ e' t' => d₁.Yields w (.expr (.apply (n.withTy t) .mult es)) t (.expr e') t' ∧
        (w.Models s₁ → w.Models s₃) := by
  have spec := run.spec h.inv he.scope
  obtain ⟨⟨s', fl, fr⟩, ⟨site, uni⟩, site', lnk⟩ := run
  have fresh : State.freshList 2 d.first = ([l, r], s) :=
    CheckM.bind_eq.2 ⟨l, s', fl, CheckM.bind_eq.2 ⟨[r], s, CheckM.bind_eq.2 ⟨r, s, fr, rfl⟩, rfl⟩⟩
  refine .bind (h.freshList fresh) ?_
  rintro d₁ ps' g₁ rfl ties
  cases ties with | cons ml rest => ?_
  cases rest with | cons mr none => ?_
  cases none
  -- The second check has the relation at once, and to parts of it the choices of the first are pinned.
  refine .skip (g₁.sound.pinned (c := .integerOrPairs l r)
    (List.forall_mem_cons.2 ⟨ml.scope, List.forall_mem_singleton.2 mr.scope⟩) (ml.relation mr)
    fun holds => ⟨by simp [Cell.pins?, found], holds.resolve_left found⟩) ?_
  rintro d₂ _ g₂ f₂ tf
  refine .orFail (g₂.sound.unifyAt ((he.mono g₁).mono g₂) tf (f₂ ▸ uni) _) ?_
  rintro d₃ t' g₃ rfl ⟨tt, pairs⟩
  have ml := ml.mono (g₂.trans g₃)
  refine .skip (g₃.sound.pinned (c := .setOrInteger l) (List.forall_mem_singleton.2 ml.scope) ml.set
    fun holds => ⟨by simp [Cell.pins?, left], holds.resolve_left left⟩) ?_
  rintro d₄ _ g₄ f₄ tl
  have next : d₄.first.vars = d₃.first.vars + 1 := by rw [f₄, vars_grow]
  have mr := mr.mono (g₂.trans (g₃.trans g₄))
  rw [← next] at right
  refine .skip (g₄.sound.pinned (c := .setOrInteger r) (List.forall_mem_singleton.2 mr.scope) mr.set
    fun holds => ⟨by simp [Cell.pins?, right], holds.resolve_left right⟩) ?_
  rintro d₅ _ g₅ f₅ tr
  rw [next] at tr
  rw [f₄] at f₅
  have ml := ml.mono (g₄.trans g₅)
  have mr := mr.mono g₅
  have tl := tl.mono g₅
  refine .skip (g₅.sound.linkAt_first ⟨t, .var d₃.first.vars, .var (d₃.first.vars + 1), l, r⟩
    (pairs.mono (g₄.trans g₅)) (ml.relation mr) tl ml.set tr mr.set (f₅ ▸ spec.sane) (f₅ ▸ lnk)) ?_
  rintro d₆ _ g₆ rfl -
  have operands := List.Forall₂.cons (tl.mono g₆) (.cons (tr.mono g₆) .nil)
  refine .withOperands (by simp [len]) (again.forward g₆.sound operands len walk) ?_
  rintro d₇ es' _ g₇ rfl level
  have tt := tt.mono (g₄.trans (g₅.trans (g₆.trans g₇)))
  exact .done g₇.sound ⟨⟨tt, .expr rfl rfl tt level⟩, g₇.steps.models w⟩

/-- The rule of a product. Of integers it is one in the second check, too; of sets it is the signature of
the Cartesian product. -/
lemma multiplication (he : d.Tie w expected expected') (hy : walks.Yield args)
    (again : walks.Repeat w known walks')
    (run : Rule.checkProduct n .mult args expected walks d.first = ((e, .ok t), s₁)) :
    ∃ es, e = .apply (n.withTy t) .mult es ∧ d.Echoes w known e t
      ((w.reading.op (n.withTy t) .mult).check (n.withTy t) (reread w es) expected' (walks' es)) s₁ := by
  obtain ⟨l, r, s, s₂, s₃, es, steps, len, walk, rfl⟩ := Rule.checkProduct_eq_ok run
  have len := ((hy.forward _).length walk).trans len
  have spec := steps.spec h.inv he.scope
  refine ⟨es, rfl, ?_⟩
  by_cases ints : w.value s.vars = .integer ∧ w.value s₂.vars = .integer ∧
    w.value (s₂.vars + 1) = .integer
  · obtain ⟨found, left, right⟩ := ints
    refine Visits.congr (h.integerProduct he steps found left right len walk again) fun models => ?_
    obtain ⟨-, -, -, value⟩ | ⟨no, -⟩ := spec.values w models
    · simp [World.reading, Note.withTy, value, Operator.reread?, Operator.check, Operator.rule]
    · exact absurd found no
  by_cases sets : w.value s.vars ≠ .integer ∧ w.value s₂.vars ≠ .integer ∧
    w.value (s₂.vars + 1) ≠ .integer
  · obtain ⟨found, left, right⟩ := sets
    refine Visits.congr (h.cartesianProduct he steps found left right len walk again) fun models => ?_
    obtain ⟨no, -⟩ | ⟨-, -, -, u, value⟩ := spec.values w models
    · exact absurd no found
    · simp [World.reading, Note.withTy, value, Operator.reread?]
  · -- The world is none of the state, which the link rules out.
    have no : ¬ w.Models s₃ := fun m => by
      obtain ⟨found, left, right, -⟩ | ⟨found, left, right, -⟩ := spec.values w m
      · exact ints ⟨found, left, right⟩
      · exact sets ⟨found, left, right⟩
    refine .of_not_models (n := .apply (n.withTy t) .mult es) (a := t)
      (Q := fun d₁ (es' : List Expr) (_ : Unit) => d₁.LevelAll w (es.map .expr) (es'.map .expr))
      (y := (walks' es).forward [.bool, .bool]) spec.steps no (fun d' g first => ?_) fun d₁ later no => ?_
    · subst first
      have operand {u : Ty} (scope : u.Scoped d'.first.vars) : d'.Tie w u .bool :=
        ⟨scope, fun m => absurd m no⟩
      have le := spec.vars_le
      refine again.forward g.sound (.cons (operand ?_) (.cons (operand ?_) .nil)) len walk
      · exact Nat.lt_of_lt_of_le (by omega) le
      · exact Nat.lt_of_lt_of_le (by omega) le
    · exact ⟨⟨spec.scope.mono later.vars_le, fun m => absurd m no⟩, fun m => absurd m no⟩

/-- The second check of an operator, as it is read in the world, follows the first. A constant has no
operands. -/
theorem operator (he : d.Tie w expected expected') (hy : walks.Yield args)
    (again : walks.Repeat w known walks')
    (bare : ∀ params shape, op.rule = .constant params shape → args = [])
    (run : op.check n args expected walks d.first = ((e, .ok t), s₁)) :
    ∃ es, e = .apply (n.withTy t) op es ∧ d.Echoes w known e t
      ((w.reading.op (n.withTy t) op).check (n.withTy t) (reread w es) expected' (walks' es)) s₁ := by
  have read (diff : op.rule ≠ .difference) (prod : op.rule ≠ .product) :
      w.reading.op (n.withTy t) op = op :=
    World.reading_op (by rintro rfl; exact diff rfl) (by rintro rfl; exact prod rfl) _
  rw [Operator.check] at run
  cases rule : op.rule with
  | difference =>
    obtain rfl : op = .minus := by cases op <;> first | rfl | cases rule
    exact h.difference he hy again run
  | product =>
    obtain rfl : op = .mult := by cases op <;> first | rfl | cases rule
    exact h.multiplication he hy again run
  | fixed sig =>
    rw [rule] at run
    obtain ⟨es, rfl, echo⟩ := h.signature he hy again run
    refine ⟨es, rfl, ?_⟩
    rw [read (by simp [rule]) (by simp [rule]), Operator.check, rule]
    exact echo
  | pair =>
    rw [rule] at run
    obtain ⟨es, rfl, echo⟩ := h.pair he hy again run
    refine ⟨es, rfl, ?_⟩
    rw [read (by simp [rule]) (by simp [rule]), Operator.check, rule]
    exact echo
  | enumeration shape =>
    rw [rule] at run
    obtain ⟨es, rfl, echo⟩ := h.enumeration he again run
    refine ⟨es, rfl, ?_⟩
    rw [read (by simp [rule]) (by simp [rule]), Operator.check, rule]
    exact echo
  | application =>
    rw [rule] at run
    obtain ⟨es, rfl, echo⟩ := h.application he hy again run
    refine ⟨es, rfl, ?_⟩
    rw [read (by simp [rule]) (by simp [rule]), Operator.check, rule]
    exact echo
  | constant params shape =>
    obtain rfl := bare params shape rule
    rw [rule] at run
    obtain ⟨ps, s, fresh, run⟩ := CheckM.bind_eq.1 run
    obtain ⟨rfl, echo⟩ := h.constant he fresh run
    refine ⟨[], rfl, ?_⟩
    rw [read (by simp [rule]) (by simp [rule]), Operator.check, rule]
    exact echo

end Duo.Sound

end

end BMethod
