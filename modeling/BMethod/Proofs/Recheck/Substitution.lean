import BMethod.Proofs.Recheck.Tree

/-!
# Substitutions side by side

The second check of a substitution follows the first, too: targets and values are tied one by one, and
what an operation of another machine gives for its parameters and outputs both checks get. With that the
second walk through any tree follows the first (`Node.repeats`).
-/

namespace BMethod

open State

variable {w : World} {known : Nat → Bool} {scope : Scope} {d : Duo} {s s₁ : State}

namespace Duo

lemma Level.substitution {σ σ' : Substitution} (parts : d.LevelAll w σ.children σ'.children) :
    d.Level w (.substitution σ) (.substitution σ') :=
  .node (fun _ => .none) parts

/-! ## Operations that can be called. -/

namespace Sound

/-- Types that are settled are the same in both checks. -/
lemma typesOrFresh {os : List (Option Ty)} {ts : List Ty} (h : d.Sound w known)
    (concrete : ∀ t, some t ∈ os → t.isConcrete = true)
    (run : BMethod.typesOrFresh os d.first = (ts, s₁)) :
    d.Follows w known (BMethod.typesOrFresh os) s₁ fun d₁ ts' => List.Forall₂ (d₁.Tie w) ts ts' := by
  induction os generalizing d ts with
  | nil =>
    cases run
    exact .pure h .nil
  | cons o os ih =>
    have rest (t : Ty) (ht : some t ∈ os) : t.isConcrete = true := concrete t (.tail _ ht)
    cases o with
    | none =>
      obtain ⟨t, s, fresh, run⟩ := CheckM.bind_eq.1 run
      obtain ⟨ts, _, more, ⟨⟩⟩ := CheckM.bind_eq.1 run
      refine .bind (h.fresh fresh) ?_
      rintro d₁ t' g rfl tie
      refine .bind (ih g.sound rest more) ?_
      rintro d₂ ts' g₂ rfl ties
      exact .pure g₂.sound (.cons (tie.mono g₂) ties)
    | some t =>
      obtain ⟨ts, _, more, ⟨⟩⟩ := CheckM.bind_eq.1 run
      refine .bind (ih h rest more) ?_
      rintro d₁ ts' g rfl ties
      exact .pure g.sound (.cons (tie_concrete (concrete t (.head _))) ties)

/-- The types for a call. -/
lemma calledTypes (h : d.Sound w known) (concrete : scope.Concrete) {callee : Callee}
    {params outputs : List Ty} (run : scope.types? callee d.first = (some (params, outputs), s₁)) :
    d.Follows w known (scope.types? callee) s₁ fun d₁ types => ∃ params' outputs',
      types = some (params', outputs') ∧ List.Forall₂ (d₁.Tie w) params params' ∧
        List.Forall₂ (d₁.Tie w) outputs outputs' := by
  cases callee with
  | own operation =>
    rw [Scope.types?] at run ⊢
    cases found : scope.own[operation]? with
    | none =>
      rw [found] at run
      cases run
    | some i =>
      rw [found] at run
      obtain ⟨ps, s, first, run⟩ := CheckM.bind_eq.1 run
      obtain ⟨os, _, second, ⟨⟩⟩ := CheckM.bind_eq.1 run
      refine .bind (h.declaredTypes first) ?_
      rintro d₁ ps' g rfl ties
      refine .bind (g.sound.declaredTypes second) ?_
      rintro d₂ os' g₂ rfl ties'
      exact .pure g₂.sound ⟨ps', os', rfl, Tie.mono_all ties g₂, ties'⟩
  | referred reference operation =>
    rw [Scope.types?] at run ⊢
    cases found : scope.referred[reference]? >>= (·[operation]?) with
    | none =>
      rw [found] at run
      cases run
    | some i =>
      have settled : ∀ t, some t ∈ i.params ++ i.outputs → t.isConcrete = true := by
        obtain ⟨is, his, hi⟩ := Option.bind_eq_some_iff.1 found
        exact concrete is (List.mem_of_getElem? his) i (List.mem_of_getElem? hi)
      rw [found] at run
      obtain ⟨ps, s, first, run⟩ := CheckM.bind_eq.1 run
      obtain ⟨os, _, second, ⟨⟩⟩ := CheckM.bind_eq.1 run
      refine .bind (h.typesOrFresh (fun t ht => settled t (List.mem_append_left _ ht)) first) ?_
      rintro d₁ ps' g rfl ties
      refine .bind (g.sound.typesOrFresh (fun t ht => settled t (List.mem_append_right _ ht)) second) ?_
      rintro d₂ os' g₂ rfl ties'
      exact .pure g₂.sound ⟨ps', os', rfl, Tie.mono_all ties g₂, ties'⟩

end Sound

end Duo

/-! ## Assignments and calls. -/

section

variable {targets targets₁ values values₁ args args₁ assigned assigned₁ : List Expr}

lemma repeats_checkAssigned (hT : ∀ e ∈ targets, (Node.expr e).Repeats w known)
    (hV : ∀ e ∈ values, (Node.expr e).Repeats w known) (sound : d.Sound w known)
    (len : targets.length = values.length)
    (run : checkAssigned targets values d.first = (((targets₁, values₁), .ok ()), s₁)) :
    d.Visits w known (checkAssigned (Duo.reread w targets₁) (Duo.reread w values₁)) s₁
      fun d₁ x _ => d₁.LevelAll w (targets₁.map .expr) (x.1.map .expr) ∧
        d₁.LevelAll w (values₁.map .expr) (x.2.map .expr) := by
  induction targets generalizing values d targets₁ values₁ with
  | nil =>
    obtain rfl := List.length_eq_zero_iff.1 len.symm
    cases run
    exact .done sound ⟨.nil, .nil⟩
  | cons target targets ih =>
    obtain _ | ⟨value, values⟩ := values
    · cases len
    rw [List.forall_mem_cons] at hT hV
    rw [checkAssigned] at run
    obtain ⟨_, s, fresh, run⟩ := CheckM.bind_eq.1 run
    obtain ⟨target₁, _, s, left, run⟩ := CheckM.andThen_eq_ok.1 run
    obtain ⟨value₁, _, s, right, run⟩ := CheckM.andThen_eq_ok.1 run
    obtain ⟨⟨targets₁, values₁⟩, _, s, rest, ⟨⟩⟩ := CheckM.andThen_eq_ok.1 run
    rw [Duo.reread, Duo.reread, List.map_cons, List.map_cons, checkAssigned]
    refine .bind (sound.fresh fresh) ?_
    rintro d₁ t' g₁ rfl tie
    refine .andThen (hT.1 g₁.sound tie left) ?_
    rintro d₂ target' _ g₂ rfl first
    refine .andThen (hV.1 g₂.sound first.tie right) ?_
    rintro d₃ value' _ g₃ rfl second
    refine .andThen (ih hT.2 hV.2 g₃.sound (by simpa using len) rest) ?_
    rintro d₄ ⟨targets', values'⟩ _ g₄ rfl ⟨levelT, levelV⟩
    exact .done g₄.sound
      ⟨.cons ((first.level.mono g₃).mono g₄) levelT, .cons (second.level.mono g₄) levelV⟩

lemma repeats_checkCalled (concrete : scope.Concrete)
    (hA : ∀ e ∈ args, (Node.expr e).Repeats w known)
    (hO : ∀ e ∈ assigned, (Node.expr e).Repeats w known) (sound : d.Sound w known)
    {span : Option Span} {name : String} {callee : Callee}
    (run : checkCalled scope span name callee args assigned d.first =
      (((args₁, assigned₁), .ok ()), s₁)) :
    d.Visits w known
      (checkCalled scope span name callee (Duo.reread w args₁) (Duo.reread w assigned₁)) s₁
      fun d₁ x _ => d₁.LevelAll w (args₁.map .expr) (x.1.map .expr) ∧
        d₁.LevelAll w (assigned₁.map .expr) (x.2.map .expr) := by
  have walked (es : List Expr) (e : Expr) (_ : e ∈ es) : (Node.expr e).Walked := (Node.expr e).walked
  obtain ⟨types, s, called, run⟩ := CheckM.bind_eq.1 run
  obtain _ | ⟨params, outputs⟩ := types
  · cases run
  simp only at run
  split at run
  · cases run
  rename_i lenA
  split at run
  · cases run
  rename_i lenO
  obtain ⟨args₁, _, s, left, run⟩ := CheckM.andThen_eq_ok.1 run
  obtain ⟨assigned₁, _, _, right, ⟨⟩⟩ := CheckM.andThen_eq_ok.1 run
  have lenA := ((Expr.yields_checkForward (walked args) _).length left).trans (not_not.1 lenA)
  have lenO := ((Expr.yields_checkForward (walked assigned) _).length right).trans (not_not.1 lenO)
  refine .bind (sound.calledTypes concrete called) ?_
  rintro d₁ _ g₁ rfl ⟨params', outputs', rfl, tiesA, tiesO⟩
  simp only [List.length_map]
  rw [if_neg (not_not.2 (lenA.trans tiesA.length_eq)), if_neg (not_not.2 (lenO.trans tiesO.length_eq))]
  refine .andThen (Expr.repeats_checkForward hA g₁.sound tiesA lenA left) ?_
  rintro d₂ args' _ g₂ rfl levelA
  refine .andThen (Expr.repeats_checkForward hO g₂.sound (Duo.Tie.mono_all tiesO g₂) lenO right) ?_
  rintro d₃ assigned' _ g₃ rfl levelO
  exact .done g₃.sound ⟨levelA.mono g₃, levelO⟩

end

/-! ## Substitutions. -/

namespace Substitution

lemma repeats_checkAll {σs σs₁ : List Substitution} (concrete : scope.Concrete)
    (h : ∀ σ ∈ σs, (Node.substitution σ).Repeats w known) (sound : d.Sound w known)
    (run : checkAll scope σs d.first = ((σs₁, .ok ()), s₁)) :
    d.Visits w known (checkAll scope (σs₁.map (restamp w.reading))) s₁ fun d₁ σs' _ =>
      d₁.LevelAll w (σs₁.map .substitution) (σs'.map .substitution) := by
  induction σs generalizing d σs₁ with
  | nil =>
    cases run
    exact .done sound .nil
  | cons σ σs ih =>
    rw [List.forall_mem_cons] at h
    rw [checkAll] at run
    obtain ⟨σ₁, _, s, head, run⟩ := CheckM.andThen_eq_ok.1 run
    obtain ⟨σs₁, _, _, rest, ⟨⟩⟩ := CheckM.andThen_eq_ok.1 run
    rw [List.map_cons, checkAll]
    refine .andThen (h.1 concrete sound head) ?_
    rintro d₁ σ' _ g rfl first
    refine .andThen (ih h.2 g.sound rest) ?_
    rintro d₂ σs' _ g₂ rfl level
    exact .done g₂.sound (.cons (first.mono g₂) level)

lemma repeats_checkOption {o o₁ : Option Substitution} (concrete : scope.Concrete)
    (h : ∀ σ ∈ o, (Node.substitution σ).Repeats w known) (sound : d.Sound w known)
    (run : checkOption scope o d.first = ((o₁, .ok ()), s₁)) :
    d.Visits w known (checkOption scope (o₁.map (restamp w.reading))) s₁ fun d₁ o' _ =>
      d₁.LevelAll w (o₁.toList.map .substitution) (o'.toList.map .substitution) := by
  cases o with
  | none =>
    cases run
    exact .done sound .nil
  | some σ =>
    rw [checkOption] at run
    obtain ⟨σ₁, _, s, walk, ⟨⟩⟩ := CheckM.andThen_eq_ok.1 run
    rw [Option.map_some, checkOption]
    refine .andThen (h σ rfl concrete sound walk) ?_
    rintro d₁ σ' _ g rfl level
    exact .done g.sound (.cons level .nil)

/-- The second check of a substitution follows the first if that of its parts does. -/
lemma repeats_of_children {σ : Substitution} (ih : ∀ c ∈ σ.children, c.Repeats w known) :
    (Node.substitution σ).Repeats w known := by
  intro scope d σ₁ s₁ concrete h run
  have bool {d : Duo} : d.Tie w .bool .bool := Duo.tie_concrete rfl
  have exprs {es : List Expr} (h : ∀ e ∈ es, .expr e ∈ σ.children) (e : Expr) (he : e ∈ es) :
      (Node.expr e).Repeats w known := ih _ (h e he)
  have preds {ps : List Pred} (h : ∀ p ∈ ps, .pred p ∈ σ.children) (p : Pred) (hp : p ∈ ps) :
      (Node.pred p).Repeats w known := ih _ (h p hp)
  have branches {σs : List Substitution} (h : ∀ τ ∈ σs, .substitution τ ∈ σ.children)
      (τ : Substitution) (hτ : τ ∈ σs) : (Node.substitution τ).Repeats w known := ih _ (h τ hτ)
  cases σ with
  | skip span =>
    cases run
    exact .done h (.substitution .nil)
  | assign span targets values =>
    rw [check] at run
    split at run
    · rename_i len
      obtain ⟨⟨targets₁, values₁⟩, _, _, walk, ⟨⟩⟩ := CheckM.andThen_eq_ok.1 run
      have same := (yields_checkAssigned (fun e (_ : e ∈ targets) => (Node.expr e).walked)
        (fun e (_ : e ∈ values) => (Node.expr e).walked) d.first).1
      simp only [walk] at same
      have lenT := congrArg List.length same.1
      have lenV := congrArg List.length same.2
      simp only [List.length_map] at lenT lenV
      have len₁ : targets₁.length = values₁.length := by rw [lenT, len, lenV]
      rw [restamp_assign, check, if_pos (by simpa using len₁)]
      refine .andThen (repeats_checkAssigned (exprs fun e he => by simp [children, he])
        (exprs fun e he => by simp [children, he]) h len walk) ?_
      rintro d₁ ⟨targets', values'⟩ _ g rfl ⟨levelT, levelV⟩
      exact .done g.sound (.substitution (List.rel_append levelT levelV))
    · cases run
  | becomesElement span targets set =>
    rw [check] at run
    obtain ⟨targets₁, ts, s, walk, run⟩ := CheckM.andThen_eq_ok.1 run
    cases tuple : Ty.tuple? ts with
    | none =>
      rw [tuple] at run
      cases run
    | some t =>
      rw [tuple] at run
      obtain ⟨set₁, _, _, last, ⟨⟩⟩ := CheckM.andThen_eq_ok.1 run
      rw [restamp_becomesElement, check]
      refine .andThen (Expr.repeats_checkApart (exprs fun e he => by simp [children, he]) h walk) ?_
      rintro d₁ targets' ts' g rfl ⟨ties, level⟩
      obtain ⟨t', found, tie⟩ := Duo.exists_tuple? ties tuple
      have last := ih (.expr set) (by simp [children]) g.sound tie.set last
      rw [found]
      refine .andThen last ?_
      rintro d₂ set' _ g₂ rfl second
      exact .done g₂.sound (.substitution (List.rel_append (level.mono g₂) (.cons second.level .nil)))
  | becomesSuch span targets pred =>
    rw [check] at run
    obtain ⟨targets₁, ts, s, walk, run⟩ := CheckM.andThen_eq_ok.1 run
    obtain ⟨pred₁, _, _, last, ⟨⟩⟩ := CheckM.andThen_eq_ok.1 run
    rw [restamp_becomesSuch, check]
    refine .andThen (Expr.repeats_checkApart (exprs fun e he => by simp [children, he]) h walk) ?_
    rintro d₁ targets' ts' g rfl ⟨-, level⟩
    refine .andThen (ih (.pred pred) (by simp [children]) g.sound bool last) ?_
    rintro d₂ pred' _ g₂ rfl second
    exact .done g₂.sound (.substitution (List.rel_append (level.mono g₂) (.cons second.level .nil)))
  | any span bound pred body | letIn span bound pred body =>
    simp only [children, List.forall_mem_cons] at ih
    rw [check] at run
    obtain ⟨_, s, decl, run⟩ := CheckM.bind_eq.1 run
    obtain ⟨pred₁, _, s, walk, run⟩ := CheckM.andThen_eq_ok.1 run
    obtain ⟨body₁, _, _, last, ⟨⟩⟩ := CheckM.andThen_eq_ok.1 run
    simp only [restamp_any, restamp_letIn]
    rw [check]
    refine .bind (h.declare decl) ?_
    rintro d₁ _ g₁ rfl -
    refine .andThen (ih.1 g₁.sound bool walk) ?_
    rintro d₂ pred' _ g₂ rfl first
    refine .andThen (ih.2.1 concrete g₂.sound last) ?_
    rintro d₃ body' _ g₃ rfl second
    exact .done g₃.sound (.substitution (.cons (first.level.mono g₃) (.cons second .nil)))
  | var span bound body =>
    simp only [children, List.forall_mem_cons] at ih
    rw [check] at run
    obtain ⟨_, s, decl, run⟩ := CheckM.bind_eq.1 run
    obtain ⟨body₁, _, _, walk, ⟨⟩⟩ := CheckM.andThen_eq_ok.1 run
    rw [restamp_var, check]
    refine .bind (h.declare decl) ?_
    rintro d₁ _ g₁ rfl -
    refine .andThen (ih.1 concrete g₁.sound walk) ?_
    rintro d₂ body' _ g₂ rfl level
    exact .done g₂.sound (.substitution (.cons level .nil))
  | guarded span kind cond body =>
    simp only [children, List.forall_mem_cons] at ih
    rw [check] at run
    obtain ⟨cond₁, _, s, walk, run⟩ := CheckM.andThen_eq_ok.1 run
    obtain ⟨body₁, _, _, last, ⟨⟩⟩ := CheckM.andThen_eq_ok.1 run
    rw [restamp_guarded, check]
    refine .andThen (ih.1 h bool walk) ?_
    rintro d₁ cond' _ g₁ rfl first
    refine .andThen (ih.2.1 concrete g₁.sound last) ?_
    rintro d₂ body' _ g₂ rfl second
    exact .done g₂.sound (.substitution (.cons (first.level.mono g₂) (.cons second .nil)))
  | branch span kind conds branches otherwise =>
    rw [check] at run
    obtain ⟨conds₁, _, s, first, run⟩ := CheckM.andThen_eq_ok.1 run
    obtain ⟨branches₁, _, s, second, run⟩ := CheckM.andThen_eq_ok.1 run
    obtain ⟨otherwise₁, _, _, third, ⟨⟩⟩ := CheckM.andThen_eq_ok.1 run
    rw [restamp_branch, check]
    refine .andThen (Pred.repeats_checkAll (preds fun p hp => by simp [children, hp]) h first) ?_
    rintro d₁ conds' _ g₁ rfl levelC
    refine .andThen (repeats_checkAll concrete (branches fun τ hτ => by simp [children, hτ])
      g₁.sound second) ?_
    rintro d₂ branches' _ g₂ rfl levelB
    have last (τ : Substitution) (hτ : τ ∈ otherwise) : (Node.substitution τ).Repeats w known :=
      ih _ (by simp [children, Option.mem_def.1 hτ])
    refine .andThen (repeats_checkOption concrete last g₂.sound third) ?_
    rintro d₃ otherwise' _ g₃ rfl levelO
    exact .done g₃.sound (.substitution
      (List.rel_append (List.rel_append ((levelC.mono g₂).mono g₃) (levelB.mono g₃)) levelO))
  | choice span branches | block span kind branches =>
    rw [check] at run
    obtain ⟨branches₁, _, _, walk, ⟨⟩⟩ := CheckM.andThen_eq_ok.1 run
    simp only [restamp_choice, restamp_block]
    rw [check]
    refine .andThen (repeats_checkAll concrete (branches fun τ hτ => by simp [children, hτ]) h walk) ?_
    rintro d₁ branches' _ g rfl level
    exact .done g.sound (.substitution level)
  | loop span cond body inv variant =>
    simp only [children, List.forall_mem_cons] at ih
    rw [check] at run
    obtain ⟨cond₁, _, s, walk, run⟩ := CheckM.andThen_eq_ok.1 run
    obtain ⟨body₁, _, s, inner, run⟩ := CheckM.andThen_eq_ok.1 run
    obtain ⟨inv₁, _, s, outer, run⟩ := CheckM.andThen_eq_ok.1 run
    obtain ⟨variant₁, _, _, last, ⟨⟩⟩ := CheckM.andThen_eq_ok.1 run
    rw [restamp_loop, check]
    refine .andThen (ih.1 h bool walk) ?_
    rintro d₁ cond' _ g₁ rfl first
    refine .andThen (ih.2.1 concrete g₁.sound inner) ?_
    rintro d₂ body' _ g₂ rfl second
    refine .andThen (ih.2.2.1 g₂.sound bool outer) ?_
    rintro d₃ inv' _ g₃ rfl third
    refine .andThen (ih.2.2.2.1 g₃.sound (Duo.tie_concrete rfl) last) ?_
    rintro d₄ variant' _ g₄ rfl fourth
    have rest := g₃.trans g₄
    exact .done g₄.sound (.substitution (.cons (first.level.mono (g₂.trans rest))
      (.cons (second.mono rest) (.cons (third.level.mono g₄) (.cons fourth.level .nil)))))
  | call span name callee args assigned =>
    rw [check] at run
    obtain ⟨⟨args₁, assigned₁⟩, _, _, walk, ⟨⟩⟩ := CheckM.andThen_eq_ok.1 run
    rw [restamp_call, check]
    refine .andThen (repeats_checkCalled concrete (exprs fun e he => by simp [children, he])
      (exprs fun e he => by simp [children, he]) h walk) ?_
    rintro d₁ ⟨args', assigned'⟩ _ g rfl ⟨levelA, levelO⟩
    exact .done g.sound (.substitution (List.rel_append levelA levelO))

end Substitution

/-- The second walk through any tree follows the first, if no operator without operands is applied to
some. -/
theorem Node.repeats {n : Node} (applied : ∀ m ∈ n.preorder, m.WellApplied) : n.Repeats w known := by
  induction n using Node.induction with
  | step n ih =>
    have parts (c : Node) (hc : c ∈ n.children) : c.Repeats w known := ih c hc fun m hm => applied m (by
      rw [preorder_eq]
      exact .tail _ (List.mem_flatMap.2 ⟨c, hc, hm⟩))
    cases n with
    | expr e => exact Expr.repeats_of_children (applied _ (self_mem_preorder _)) parts
    | pred p => exact Pred.repeats_of_children parts
    | substitution σ => exact Substitution.repeats_of_children parts
    | ltl => trivial

end BMethod
