import BMethod.Machine
import Mathlib.Tactic

/-!
# Trees

What the proofs need of trees: induction over the parts of a node whatever its kind, the slots of
nodes, the declarations a node mentions, and the maps that change slots and operators but not the
form of a tree (`restamp`), of which emptying all slots (`erase`) is one.
-/

namespace BMethod

/-! ## Induction. -/

namespace Node

/-- A part has fewer nodes than the whole. -/
lemma length_preorder_lt {n c : Node} (h : c ∈ n.children) :
    c.preorder.length < n.preorder.length := by
  rw [n.preorder_eq, List.length_cons, List.length_flatMap]
  have := List.single_le_sum (by simp) _ (List.mem_map.2 ⟨c, h, rfl⟩ :
    c.preorder.length ∈ n.children.map fun c => c.preorder.length)
  omega

/-- What passes from the parts of every node to the node holds of all nodes. -/
theorem induction {P : Node → Prop} (step : ∀ n : Node, (∀ c ∈ n.children, P c) → P n)
    (n : Node) : P n :=
  step n fun c h =>
    have := length_preorder_lt h
    induction step c
termination_by n.preorder.length

lemma self_mem_preorder (n : Node) : n ∈ n.preorder := by
  rw [preorder_eq]
  exact List.mem_cons_self

/-- The parts of a node of a tree are nodes of the tree. -/
lemma mem_preorder_of_child {r n c : Node} (hn : n ∈ r.preorder) (hc : c ∈ n.children) :
    c ∈ r.preorder := by
  induction r using Node.induction with
  | step r ih =>
    rw [preorder_eq, List.mem_cons, List.mem_flatMap] at hn
    rw [preorder_eq]
    obtain rfl | ⟨part, hp, hn⟩ := hn
    · exact .tail _ (List.mem_flatMap.2 ⟨c, hc, c.self_mem_preorder⟩)
    · exact .tail _ (List.mem_flatMap.2 ⟨part, hp, ih part hp hn⟩)

/-! ## Slots. -/

/-- The type in the slot of an expression or predicate; other nodes have no slot. -/
def slot : Node → Option Ty
  | .expr e => e.note.ty
  | .pred p => p.note.ty
  | _ => none

/-- The kinds of nodes that have a slot. -/
def hasSlot : Node → Bool
  | .expr _ | .pred _ => true
  | _ => false

lemma hasSlot_of_slot {n : Node} {t : Ty} (h : n.slot = some t) : n.hasSlot = true := by
  cases n with
  | expr | pred => rfl
  | substitution | ltl => cases h

/-- No slot of the tree is filled. -/
def Blank (n : Node) : Prop := ∀ m ∈ n.preorder, m.slot = none

/-- All slots of the tree are filled. -/
def Full (n : Node) : Prop := ∀ m ∈ n.preorder, m.hasSlot = true → ∃ t, m.slot = some t

lemma Blank.slot {n : Node} (h : n.Blank) : n.slot = none := h n n.self_mem_preorder

lemma blank_iff {n : Node} : n.Blank ↔ n.slot = none ∧ ∀ c ∈ n.children, c.Blank := by
  rw [Blank, preorder_eq]
  simp only [List.forall_mem_cons, List.mem_flatMap, forall_exists_index, and_imp, Blank]
  exact and_congr_right fun _ => ⟨fun h c hc m hm => h m c hc hm, fun h m c hc hm => h c hc m hm⟩

lemma full_iff {n : Node} :
    n.Full ↔ (n.hasSlot = true → ∃ t, n.slot = some t) ∧ ∀ c ∈ n.children, c.Full := by
  rw [Full, preorder_eq]
  simp only [List.forall_mem_cons, List.mem_flatMap, forall_exists_index, and_imp, Full]
  exact and_congr_right fun _ => ⟨fun h c hc m hm => h m c hc hm, fun h m c hc hm => h c hc m hm⟩

/-! ## Kinds of nodes. -/

/-- A product, of integers or of sets. -/
def isProduct : Node → Bool
  | .expr (.apply _ op _) => op = .mult
  | _ => false

/-- The operator that is applied at the node. -/
def operator? : Node → Option Operator
  | .expr (.apply _ op _) => some op
  | _ => none

/-- The access to a field of a record. -/
def isAccess : Node → Bool
  | .expr (.field ..) => true
  | _ => false

end Node

/-! ## Maps that keep the form. -/

/-- What to do with the notes of nodes and with the operators under them. -/
structure Stamp where
  note : Note → Note
  op : Note → Operator → Operator

namespace Stamp

/-- Changes the note of an expression, and its operator if it has one. -/
def expr (f : Stamp) : Expr → Expr
  | .apply n op args => .apply (f.note n) (f.op n op) args
  | e => e.withNote (f.note e.note)

/-- Changes the note of a predicate. -/
def pred (f : Stamp) (p : Pred) : Pred := p.withNote (f.note p.note)

/-- Empties slots. -/
def blank : Stamp := ⟨fun n => { n with ty := none }, fun _ op => op⟩

@[simp] lemma blank_note (n : Note) : blank.note n = ⟨n.span, none⟩ := rfl

@[simp] lemma blank_op (n : Note) (op : Operator) : blank.op n op = op := rfl

/-- Maps the types in slots. -/
def types (f : Ty → Ty) : Stamp := ⟨fun n => { n with ty := n.ty.map f }, fun _ op => op⟩

end Stamp

/-- Changes all notes and operators of an expression. -/
def Expr.restamp (f : Stamp) (e : Expr) : Expr := Id.run (e.rewriteM f.expr f.pred)

/-- Changes all notes and operators of a predicate. -/
def Pred.restamp (f : Stamp) (p : Pred) : Pred := Id.run (p.rewriteM f.expr f.pred)

/-- Changes all notes and operators of a substitution. -/
def Substitution.restamp (f : Stamp) (s : Substitution) : Substitution :=
  Id.run (s.rewriteM f.expr f.pred)

/-- Changes all notes and operators of a temporal formula. -/
def Ltl.restamp (f : Stamp) (φ : Ltl) : Ltl := Id.run (φ.rewriteM f.expr f.pred)

/-- Changes all notes and operators of a tree. -/
def Node.restamp (f : Stamp) : Node → Node
  | .expr e => .expr (e.restamp f)
  | .pred p => .pred (p.restamp f)
  | .substitution s => .substitution (s.restamp f)
  | .ltl φ => .ltl (φ.restamp f)

/-! What the maps do to each form. -/

section

variable (f : Stamp)

lemma Expr.run_rewriteAllM (es : List Expr) :
    Id.run (Expr.rewriteAllM f.expr f.pred es) = es.map (Expr.restamp f) := by
  induction es with
  | nil => rfl
  | cons e es ih => exact congrArg (e.restamp f :: ·) ih

lemma Expr.run_rewriteFieldsM (fields : List (FieldLabel × Expr)) :
    Id.run (Expr.rewriteFieldsM f.expr f.pred fields) =
      fields.map fun x => (x.1, x.2.restamp f) := by
  induction fields with
  | nil => rfl
  | cons x fields ih => exact congrArg ((x.1, x.2.restamp f) :: ·) ih

lemma Pred.run_rewriteAllM (ps : List Pred) :
    Id.run (Pred.rewriteAllM f.expr f.pred ps) = ps.map (Pred.restamp f) := by
  induction ps with
  | nil => rfl
  | cons p ps ih => exact congrArg (p.restamp f :: ·) ih

lemma Substitution.run_rewriteAllM (ss : List Substitution) :
    Id.run (Substitution.rewriteAllM f.expr f.pred ss) = ss.map (Substitution.restamp f) := by
  induction ss with
  | nil => rfl
  | cons s ss ih => exact congrArg (s.restamp f :: ·) ih

lemma Substitution.run_rewriteOptionM (s : Option Substitution) :
    Id.run (Substitution.rewriteOptionM f.expr f.pred s) = s.map (Substitution.restamp f) := by
  cases s <;> rfl

namespace Expr

@[simp] lemma restamp_identifier (n decl name) :
    (identifier n decl name).restamp f = identifier (f.note n) decl name := rfl

@[simp] lemma restamp_integer (n v) : (integer n v).restamp f = integer (f.note n) v := rfl

@[simp] lemma restamp_real (n v) : (real n v).restamp f = real (f.note n) v := rfl

@[simp] lemma restamp_string (n v) : (string n v).restamp f = string (f.note n) v := rfl

@[simp] lemma restamp_apply (n op args) :
    (apply n op args).restamp f = apply (f.note n) (f.op n op) (args.map (restamp f)) :=
  congrArg (apply (f.note n) (f.op n op)) (run_rewriteAllM f args)

@[simp] lemma restamp_aggregate (n op bound pred body) :
    (aggregate n op bound pred body).restamp f =
      aggregate (f.note n) op bound (pred.restamp f) (body.restamp f) := rfl

@[simp] lemma restamp_comprehension (n bound pred) :
    (comprehension n bound pred).restamp f = comprehension (f.note n) bound (pred.restamp f) := rfl

@[simp] lemma restamp_lambda (n bound pred body) :
    (lambda n bound pred body).restamp f =
      lambda (f.note n) bound (pred.restamp f) (body.restamp f) := rfl

@[simp] lemma restamp_ite (n cond yes no) :
    (ite n cond yes no).restamp f =
      ite (f.note n) (cond.restamp f) (yes.restamp f) (no.restamp f) := rfl

@[simp] lemma restamp_letIn (n bound pred body) :
    (letIn n bound pred body).restamp f =
      letIn (f.note n) bound (pred.restamp f) (body.restamp f) := rfl

@[simp] lemma restamp_record (n fields) :
    (record n fields).restamp f =
      record (f.note n) (fields.map fun x => (x.1, x.2.restamp f)) :=
  congrArg (record (f.note n)) (run_rewriteFieldsM f fields)

@[simp] lemma restamp_struct (n fields) :
    (struct n fields).restamp f =
      struct (f.note n) (fields.map fun x => (x.1, x.2.restamp f)) :=
  congrArg (struct (f.note n)) (run_rewriteFieldsM f fields)

@[simp] lemma restamp_field (n target name) :
    (field n target name).restamp f = field (f.note n) (target.restamp f) name := rfl

@[simp] lemma restamp_bool (n pred) :
    (bool n pred).restamp f = bool (f.note n) (pred.restamp f) := rfl

@[simp] lemma note_restamp (e : Expr) : (e.restamp f).note = f.note e.note := by
  cases e <;> simp [note]

end Expr

namespace Pred

@[simp] lemma restamp_connective (n op args) :
    (connective n op args).restamp f = connective (f.note n) op (args.map (restamp f)) :=
  congrArg (connective (f.note n) op) (run_rewriteAllM f args)

@[simp] lemma restamp_comparison (n op args) :
    (comparison n op args).restamp f =
      comparison (f.note n) op (args.map (Expr.restamp f)) :=
  congrArg (comparison (f.note n) op) (Expr.run_rewriteAllM f args)

@[simp] lemma restamp_identifier (n decl name) :
    (identifier n decl name).restamp f = identifier (f.note n) decl name := rfl

@[simp] lemma restamp_quantified (n op bound pred) :
    (quantified n op bound pred).restamp f =
      quantified (f.note n) op bound (pred.restamp f) := rfl

@[simp] lemma restamp_ite (n cond yes no) :
    (ite n cond yes no).restamp f =
      ite (f.note n) (cond.restamp f) (yes.restamp f) (no.restamp f) := rfl

@[simp] lemma restamp_letIn (n bound defs body) :
    (letIn n bound defs body).restamp f =
      letIn (f.note n) bound (defs.restamp f) (body.restamp f) := rfl

@[simp] lemma note_restamp (p : Pred) : (p.restamp f).note = f.note p.note := by
  cases p <;> simp [note]

end Pred

namespace Substitution

@[simp] lemma restamp_skip (s) : (skip s).restamp f = skip s := rfl

@[simp] lemma restamp_assign (s targets values) :
    (assign s targets values).restamp f =
      assign s (targets.map (Expr.restamp f)) (values.map (Expr.restamp f)) :=
  congrArg₂ (assign s) (Expr.run_rewriteAllM f targets) (Expr.run_rewriteAllM f values)

@[simp] lemma restamp_becomesElement (s targets set) :
    (becomesElement s targets set).restamp f =
      becomesElement s (targets.map (Expr.restamp f)) (set.restamp f) :=
  congrArg (becomesElement s · (set.restamp f)) (Expr.run_rewriteAllM f targets)

@[simp] lemma restamp_becomesSuch (s targets pred) :
    (becomesSuch s targets pred).restamp f =
      becomesSuch s (targets.map (Expr.restamp f)) (pred.restamp f) :=
  congrArg (becomesSuch s · (pred.restamp f)) (Expr.run_rewriteAllM f targets)

@[simp] lemma restamp_any (s bound pred body) :
    (any s bound pred body).restamp f = any s bound (pred.restamp f) (body.restamp f) := rfl

@[simp] lemma restamp_letIn (s bound pred body) :
    (letIn s bound pred body).restamp f = letIn s bound (pred.restamp f) (body.restamp f) := rfl

@[simp] lemma restamp_var (s bound body) :
    (var s bound body).restamp f = var s bound (body.restamp f) := rfl

@[simp] lemma restamp_guarded (s kind cond body) :
    (guarded s kind cond body).restamp f =
      guarded s kind (cond.restamp f) (body.restamp f) := rfl

@[simp] lemma restamp_branch (s kind conds branches otherwise) :
    (branch s kind conds branches otherwise).restamp f =
      branch s kind (conds.map (Pred.restamp f)) (branches.map (restamp f))
        (otherwise.map (restamp f)) := by
  rw [← Pred.run_rewriteAllM, ← run_rewriteAllM, ← run_rewriteOptionM]
  rfl

@[simp] lemma restamp_choice (s branches) :
    (choice s branches).restamp f = choice s (branches.map (restamp f)) :=
  congrArg (choice s) (run_rewriteAllM f branches)

@[simp] lemma restamp_block (s kind parts) :
    (block s kind parts).restamp f = block s kind (parts.map (restamp f)) :=
  congrArg (block s kind) (run_rewriteAllM f parts)

@[simp] lemma restamp_loop (s cond body inv variant) :
    (loop s cond body inv variant).restamp f =
      loop s (cond.restamp f) (body.restamp f) (inv.restamp f) (variant.restamp f) := rfl

@[simp] lemma restamp_call (s name callee args assigned) :
    (call s name callee args assigned).restamp f =
      call s name callee (args.map (Expr.restamp f)) (assigned.map (Expr.restamp f)) :=
  congrArg₂ (call s name callee) (Expr.run_rewriteAllM f args) (Expr.run_rewriteAllM f assigned)

end Substitution

namespace Ltl

@[simp] lemma restamp_unary (op arg) : (unary op arg).restamp f = unary op (arg.restamp f) := rfl

@[simp] lemma restamp_binary (op left right) :
    (binary op left right).restamp f = binary op (left.restamp f) (right.restamp f) := rfl

@[simp] lemma restamp_keyword (op) : (keyword op).restamp f = keyword op := rfl

@[simp] lemma restamp_pred (p) : (pred p).restamp f = pred (p.restamp f) := rfl

end Ltl

namespace Node

/-- A map passes to the parts of every node. -/
lemma children_restamp (n : Node) : (n.restamp f).children = n.children.map (restamp f) := by
  cases n with
  | expr e => cases e <;> simp [restamp, children, Expr.children]
  | pred p => cases p <;> simp [restamp, children, Pred.children]
  | substitution s =>
    cases s <;> simp [restamp, children, Substitution.children, Function.comp_def]
    rename_i otherwise
    cases otherwise <;> simp
  | ltl φ => cases φ <;> rfl

/-- The nodes of a changed tree are the changed nodes of the tree. -/
lemma preorder_restamp (n : Node) : (n.restamp f).preorder = n.preorder.map (restamp f) := by
  induction n using Node.induction with
  | step n ih =>
    rw [preorder_eq, preorder_eq n, children_restamp, List.map_cons, List.flatMap_map,
      List.map_flatMap]
    congr 1
    exact List.flatMap_congr ih

lemma hasSlot_restamp (n : Node) : (n.restamp f).hasSlot = n.hasSlot := by
  cases n <;> rfl

/-- Two maps one after the other change every node by both, if both agree with a third on notes and on
the operators of the tree. -/
lemma restamp_restamp_of {f g h : Stamp} {n : Node} (note : ∀ k, g.note (f.note k) = h.note k)
    (op : ∀ k o args, .expr (.apply k o args) ∈ n.preorder → g.op (f.note k) (f.op k o) = h.op k o) :
    (n.restamp f).restamp g = n.restamp h := by
  induction n using Node.induction with
  | step n ih =>
    have parts (c : Node) (hc : c ∈ n.children) : (c.restamp f).restamp g = c.restamp h :=
      ih c hc fun k o args hm => op k o args (by
        rw [preorder_eq]
        exact .tail _ (List.mem_flatMap.2 ⟨c, hc, hm⟩))
    have self (k o args) (e : n = .expr (.apply k o args)) : g.op (f.note k) (f.op k o) = h.op k o :=
      op k o args (e ▸ self_mem_preorder n)
    have he (a : Expr) (ha : .expr a ∈ n.children) : (a.restamp f).restamp g = a.restamp h := by
      simpa [restamp] using parts (.expr a) ha
    have hp (p : Pred) (hp : .pred p ∈ n.children) : (p.restamp f).restamp g = p.restamp h := by
      simpa [restamp] using parts (.pred p) hp
    have hσ (σ : Substitution) (hσ : .substitution σ ∈ n.children) :
        (σ.restamp f).restamp g = σ.restamp h := by
      simpa [restamp] using parts (.substitution σ) hσ
    have hφ (φ : Ltl) (hφ : .ltl φ ∈ n.children) : (φ.restamp f).restamp g = φ.restamp h := by
      simpa [restamp] using parts (.ltl φ) hφ
    clear ih parts op
    cases n with
    | expr e =>
      cases e <;> simp_all [restamp, children, Expr.children] <;>
        exact fun label a ha => he a label ha
    | pred p => cases p <;> simp_all [restamp, children, Pred.children]
    | substitution σ =>
      cases σ with
      | branch s kind conds branches otherwise =>
        cases otherwise <;> simp_all [restamp, children, Substitution.children]
      | _ => simp_all [restamp, children, Substitution.children]
    | ltl φ => cases φ <;> simp_all [restamp, children, Ltl.children]

lemma restamp_restamp {f g h : Stamp} (note : ∀ n, g.note (f.note n) = h.note n)
    (op : ∀ n o, g.op (f.note n) (f.op n o) = h.op n o) (n : Node) :
    (n.restamp f).restamp g = n.restamp h :=
  restamp_restamp_of note fun k o _ _ => op k o

end Node

end

/-! ## Erasing. -/

/-- An expression with all slots emptied. -/
abbrev Expr.erase (e : Expr) : Expr := e.restamp .blank

/-- A predicate with all slots emptied. -/
abbrev Pred.erase (p : Pred) : Pred := p.restamp .blank

/-- A tree with all slots emptied. -/
abbrev Node.erase (n : Node) : Node := n.restamp .blank

/-- Emptying the slots of a note that is empty changes nothing. -/
lemma Stamp.blank_note_eq {n : Note} (h : n.ty = none) : Stamp.blank.note n = n := by
  obtain ⟨span, ty⟩ := n
  cases h
  rfl

/-- Emptying empty slots changes nothing. -/
lemma Node.erase_of_blank {n : Node} (blank : n.Blank) (slotted : n.hasSlot = true) :
    n.erase = n := by
  induction n using Node.induction with
  | step n ih =>
    obtain ⟨slot, parts⟩ := blank_iff.1 blank
    have expr (a : Expr) (ha : .expr a ∈ n.children) : a.restamp .blank = a := by
      simpa [restamp] using ih (.expr a) ha (parts _ ha) rfl
    have pred (p : Pred) (hp : .pred p ∈ n.children) : p.restamp .blank = p := by
      simpa [restamp] using ih (.pred p) hp (parts _ hp) rfl
    have exprs {es : List Expr} (h : ∀ e ∈ es, e.restamp .blank = e) :
        es.map (Expr.restamp .blank) = es := (List.map_congr_left h).trans (List.map_id _)
    clear ih parts blank
    cases n with
    | expr e =>
      have note := Stamp.blank_note_eq (n := e.note) slot
      have fields {fs : List (FieldLabel × Expr)} (h : ∀ f ∈ fs, f.2.restamp .blank = f.2) :
          fs.map (fun x => (x.1, x.2.restamp .blank)) = fs :=
        (List.map_congr_left fun f hf => by rw [h f hf, id]).trans (List.map_id _)
      cases e with
      | record n fs | struct n fs =>
        have values (f : FieldLabel × Expr) (hf : f ∈ fs) : f.2.restamp .blank = f.2 :=
          expr f.2 (List.mem_map.2 ⟨f, hf, rfl⟩)
        rw [erase, restamp]
        simp only [Expr.restamp_record, Expr.restamp_struct, fields values]
        rw [show Stamp.blank.note n = n from note]
      | _ => simp_all [restamp, children, Expr.children, Expr.note]
    | pred p =>
      have note := Stamp.blank_note_eq (n := p.note) slot
      have preds {ps : List Pred} (h : ∀ p ∈ ps, p.restamp .blank = p) :
          ps.map (Pred.restamp .blank) = ps := (List.map_congr_left h).trans (List.map_id _)
      cases p <;> simp_all [restamp, children, Pred.children, Pred.note]
    | substitution s => cases slotted
    | ltl φ => cases slotted

/-! ## Mentioned declarations. -/

/-- The declarations that an expression mentions itself: by an identifier, a list of binders or the
fields of a record. -/
def Expr.mentions : Expr → List Nat
  | .identifier _ decl _ => [decl]
  | .aggregate _ _ bound _ _ | .comprehension _ bound _ | .lambda _ bound _ _
  | .letIn _ bound _ _ => bound
  | .record _ fields | .struct _ fields => fields.map (·.1.decl)
  | _ => []

/-- The declarations that a predicate mentions itself. -/
def Pred.mentions : Pred → List Nat
  | .identifier _ decl _ => [decl]
  | .quantified _ _ bound _ | .letIn _ bound _ _ => bound
  | _ => []

/-- The declarations that an expression or predicate mentions itself. -/
def Node.mentions : Node → List Nat
  | .expr e => e.mentions
  | .pred p => p.mentions
  | _ => []

/-- Maps that keep the form keep what is mentioned. -/
lemma Node.mentions_restamp (f : Stamp) (n : Node) : (n.restamp f).mentions = n.mentions := by
  cases n with
  | expr e => cases e <;> simp [restamp, mentions, Expr.mentions]
  | pred p => cases p <;> simp [restamp, mentions, Pred.mentions]
  | substitution | ltl => rfl

/-- Mapping the types in slots. -/
lemma Node.slot_types (f : Ty → Ty) (n : Node) : (n.restamp (.types f)).slot = n.slot.map f := by
  cases n with
  | expr e =>
    show (e.restamp (.types f)).note.ty = _
    rw [Expr.note_restamp]
    rfl
  | pred p =>
    show (p.restamp (.types f)).note.ty = _
    rw [Pred.note_restamp]
    rfl
  | substitution | ltl => rfl

end BMethod
