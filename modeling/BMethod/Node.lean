import BMethod.Ltl
import BMethod.Substitution

/-!
# Trees of nodes

Expressions, predicates, substitutions and temporal formulas as nodes of one tree. `children` gives
the parts of a node in order, `preorder` all nodes of a tree, each before its parts, and `rewriteM`
changes the expressions and predicates of a tree from the leaves up, each after its parts.
-/

namespace BMethod

/-- A node of any kind. -/
inductive Node where
  | expr (e : Expr)
  | pred (p : Pred)
  | substitution (s : Substitution)
  | ltl (f : Ltl)

/-! ## Parts. -/

/-- The parts of an expression. -/
def Expr.children : Expr → List Node
  | .identifier .. | .integer .. | .real .. | .string .. => []
  | .apply _ _ args => args.map .expr
  | .aggregate _ _ _ pred body | .lambda _ _ pred body | .letIn _ _ pred body =>
    [.pred pred, .expr body]
  | .comprehension _ _ pred | .bool _ pred => [.pred pred]
  | .ite _ cond yes no => [.pred cond, .expr yes, .expr no]
  | .record _ fields | .struct _ fields => fields.map (.expr ·.2)
  | .field _ target _ => [.expr target]

/-- The parts of a predicate. -/
def Pred.children : Pred → List Node
  | .connective _ _ args => args.map .pred
  | .comparison _ _ args => args.map .expr
  | .identifier .. => []
  | .quantified _ _ _ pred => [.pred pred]
  | .ite _ cond yes no => [.pred cond, .pred yes, .pred no]
  | .letIn _ _ defs body => [.pred defs, .pred body]

/-- The parts of a substitution. -/
def Substitution.children : Substitution → List Node
  | .skip _ => []
  | .assign _ targets values => targets.map .expr ++ values.map .expr
  | .becomesElement _ targets set => targets.map .expr ++ [.expr set]
  | .becomesSuch _ targets pred => targets.map .expr ++ [.pred pred]
  | .any _ _ pred body | .letIn _ _ pred body | .guarded _ _ pred body =>
    [.pred pred, .substitution body]
  | .var _ _ body => [.substitution body]
  | .branch _ _ conds branches otherwise =>
    conds.map .pred ++ branches.map .substitution ++ otherwise.toList.map .substitution
  | .choice _ branches => branches.map .substitution
  | .block _ _ parts => parts.map .substitution
  | .loop _ cond body inv variant => [.pred cond, .substitution body, .pred inv, .expr variant]
  | .call _ _ _ args assigned => args.map .expr ++ assigned.map .expr

/-- The parts of a temporal formula. -/
def Ltl.children : Ltl → List Node
  | .unary _ arg => [.ltl arg]
  | .binary _ left right => [.ltl left, .ltl right]
  | .keyword _ => []
  | .pred p => [.pred p]

/-- The parts of a node, in order. -/
def Node.children : Node → List Node
  | .expr e => e.children
  | .pred p => p.children
  | .substitution s => s.children
  | .ltl f => f.children

/-! ## All nodes, each before its parts. -/

mutual

/-- The nodes of an expression. -/
def Expr.preorder : Expr → List Node
  | .identifier n decl name => [.expr (.identifier n decl name)]
  | .integer n value => [.expr (.integer n value)]
  | .real n digits => [.expr (.real n digits)]
  | .string n value => [.expr (.string n value)]
  | .apply n op args => .expr (.apply n op args) :: Expr.preorderAll args
  | .aggregate n op bound pred body =>
    .expr (.aggregate n op bound pred body) :: (pred.preorder ++ body.preorder)
  | .comprehension n bound pred => .expr (.comprehension n bound pred) :: pred.preorder
  | .lambda n bound pred body =>
    .expr (.lambda n bound pred body) :: (pred.preorder ++ body.preorder)
  | .ite n cond yes no =>
    .expr (.ite n cond yes no) :: (cond.preorder ++ yes.preorder ++ no.preorder)
  | .letIn n bound pred body =>
    .expr (.letIn n bound pred body) :: (pred.preorder ++ body.preorder)
  | .record n fields => .expr (.record n fields) :: Expr.preorderFields fields
  | .struct n fields => .expr (.struct n fields) :: Expr.preorderFields fields
  | .field n target name => .expr (.field n target name) :: target.preorder
  | .bool n pred => .expr (.bool n pred) :: pred.preorder

/-- The nodes of expressions. -/
def Expr.preorderAll : List Expr → List Node
  | [] => []
  | e :: es => e.preorder ++ Expr.preorderAll es

/-- The nodes of the values of fields. -/
def Expr.preorderFields : List (FieldLabel × Expr) → List Node
  | [] => []
  | (_, e) :: fields => e.preorder ++ Expr.preorderFields fields

/-- The nodes of a predicate. -/
def Pred.preorder : Pred → List Node
  | .connective n op args => .pred (.connective n op args) :: Pred.preorderAll args
  | .comparison n op args => .pred (.comparison n op args) :: Expr.preorderAll args
  | .identifier n decl name => [.pred (.identifier n decl name)]
  | .quantified n op bound pred => .pred (.quantified n op bound pred) :: pred.preorder
  | .ite n cond yes no =>
    .pred (.ite n cond yes no) :: (cond.preorder ++ yes.preorder ++ no.preorder)
  | .letIn n bound defs body =>
    .pred (.letIn n bound defs body) :: (defs.preorder ++ body.preorder)

/-- The nodes of predicates. -/
def Pred.preorderAll : List Pred → List Node
  | [] => []
  | p :: ps => p.preorder ++ Pred.preorderAll ps

end

mutual

/-- The nodes of a substitution. -/
def Substitution.preorder : Substitution → List Node
  | .skip s => [.substitution (.skip s)]
  | .assign s targets values =>
    .substitution (.assign s targets values) ::
      (Expr.preorderAll targets ++ Expr.preorderAll values)
  | .becomesElement s targets set =>
    .substitution (.becomesElement s targets set) :: (Expr.preorderAll targets ++ set.preorder)
  | .becomesSuch s targets pred =>
    .substitution (.becomesSuch s targets pred) :: (Expr.preorderAll targets ++ pred.preorder)
  | .any s bound pred body =>
    .substitution (.any s bound pred body) :: (pred.preorder ++ body.preorder)
  | .letIn s bound pred body =>
    .substitution (.letIn s bound pred body) :: (pred.preorder ++ body.preorder)
  | .var s bound body => .substitution (.var s bound body) :: body.preorder
  | .guarded s kind cond body =>
    .substitution (.guarded s kind cond body) :: (cond.preorder ++ body.preorder)
  | .branch s kind conds branches otherwise =>
    .substitution (.branch s kind conds branches otherwise) ::
      (Pred.preorderAll conds ++ Substitution.preorderAll branches ++
        Substitution.preorderOption otherwise)
  | .choice s branches => .substitution (.choice s branches) :: Substitution.preorderAll branches
  | .block s kind parts => .substitution (.block s kind parts) :: Substitution.preorderAll parts
  | .loop s cond body inv variant =>
    .substitution (.loop s cond body inv variant) ::
      (cond.preorder ++ body.preorder ++ inv.preorder ++ variant.preorder)
  | .call s name callee args assigned =>
    .substitution (.call s name callee args assigned) ::
      (Expr.preorderAll args ++ Expr.preorderAll assigned)

/-- The nodes of substitutions. -/
def Substitution.preorderAll : List Substitution → List Node
  | [] => []
  | s :: ss => s.preorder ++ Substitution.preorderAll ss

/-- The nodes of a substitution that may be missing. -/
def Substitution.preorderOption : Option Substitution → List Node
  | none => []
  | some s => s.preorder

end

/-- The nodes of a temporal formula. -/
def Ltl.preorder : Ltl → List Node
  | .unary op arg => .ltl (.unary op arg) :: arg.preorder
  | .binary op left right => .ltl (.binary op left right) :: (left.preorder ++ right.preorder)
  | .keyword op => [.ltl (.keyword op)]
  | .pred p => .ltl (.pred p) :: p.preorder

/-- The nodes of a tree, each before its parts. -/
def Node.preorder : Node → List Node
  | .expr e => e.preorder
  | .pred p => p.preorder
  | .substitution s => s.preorder
  | .ltl f => f.preorder

theorem Expr.preorderAll_eq_flatMap (es : List Expr) :
    Expr.preorderAll es = es.flatMap Expr.preorder := by
  induction es with
  | nil => rfl
  | cons e es ih => rw [Expr.preorderAll, ih, List.flatMap_cons]

theorem Expr.preorderFields_eq_flatMap (fields : List (FieldLabel × Expr)) :
    Expr.preorderFields fields = fields.flatMap fun f => f.2.preorder := by
  induction fields with
  | nil => rfl
  | cons f fields ih => rw [Expr.preorderFields, ih, List.flatMap_cons]

theorem Pred.preorderAll_eq_flatMap (ps : List Pred) :
    Pred.preorderAll ps = ps.flatMap Pred.preorder := by
  induction ps with
  | nil => rfl
  | cons p ps ih => rw [Pred.preorderAll, ih, List.flatMap_cons]

theorem Substitution.preorderAll_eq_flatMap (ss : List Substitution) :
    Substitution.preorderAll ss = ss.flatMap Substitution.preorder := by
  induction ss with
  | nil => rfl
  | cons s ss ih => rw [Substitution.preorderAll, ih, List.flatMap_cons]

theorem Substitution.preorderOption_eq_flatMap (s : Option Substitution) :
    Substitution.preorderOption s = s.toList.flatMap Substitution.preorder := by
  cases s <;> simp [Substitution.preorderOption]

/-- A tree is its root followed by the trees of the root's parts. -/
theorem Node.preorder_eq (n : Node) : n.preorder = n :: n.children.flatMap Node.preorder := by
  cases n with
  | expr e =>
    cases e <;>
      simp [Node.preorder, Node.children, Expr.preorder, Expr.children, List.flatMap_map,
        Expr.preorderAll_eq_flatMap, Expr.preorderFields_eq_flatMap]
  | pred p =>
    cases p <;>
      simp [Node.preorder, Node.children, Pred.preorder, Pred.children, List.flatMap_map,
        Expr.preorderAll_eq_flatMap, Pred.preorderAll_eq_flatMap]
  | substitution s =>
    cases s <;>
      simp [Node.preorder, Node.children, Substitution.preorder, Substitution.children,
        List.flatMap_map, Expr.preorderAll_eq_flatMap, Pred.preorderAll_eq_flatMap,
        Substitution.preorderAll_eq_flatMap, Substitution.preorderOption_eq_flatMap]
  | ltl f => cases f <;> simp [Node.preorder, Node.children, Ltl.preorder, Ltl.children]

/-! ## Rewriting from the leaves up. -/

section

variable {m : Type → Type} [Monad m] (onExpr : Expr → m Expr) (onPred : Pred → m Pred)

mutual

/-- Rewrites all nodes of an expression. -/
def Expr.rewriteM : Expr → m Expr
  | .identifier n decl name => onExpr (.identifier n decl name)
  | .integer n value => onExpr (.integer n value)
  | .real n digits => onExpr (.real n digits)
  | .string n value => onExpr (.string n value)
  | .apply n op args => do onExpr (.apply n op (← Expr.rewriteAllM args))
  | .aggregate n op bound pred body => do
    let pred ← pred.rewriteM
    onExpr (.aggregate n op bound pred (← body.rewriteM))
  | .comprehension n bound pred => do onExpr (.comprehension n bound (← pred.rewriteM))
  | .lambda n bound pred body => do
    let pred ← pred.rewriteM
    onExpr (.lambda n bound pred (← body.rewriteM))
  | .ite n cond yes no => do
    let cond ← cond.rewriteM
    let yes ← yes.rewriteM
    onExpr (.ite n cond yes (← no.rewriteM))
  | .letIn n bound pred body => do
    let pred ← pred.rewriteM
    onExpr (.letIn n bound pred (← body.rewriteM))
  | .record n fields => do onExpr (.record n (← Expr.rewriteFieldsM fields))
  | .struct n fields => do onExpr (.struct n (← Expr.rewriteFieldsM fields))
  | .field n target name => do onExpr (.field n (← target.rewriteM) name)
  | .bool n pred => do onExpr (.bool n (← pred.rewriteM))

/-- Rewrites all nodes of expressions. -/
def Expr.rewriteAllM : List Expr → m (List Expr)
  | [] => return []
  | e :: es => do
    let e ← e.rewriteM
    return e :: (← Expr.rewriteAllM es)

/-- Rewrites all nodes of the values of fields. -/
def Expr.rewriteFieldsM : List (FieldLabel × Expr) → m (List (FieldLabel × Expr))
  | [] => return []
  | (label, e) :: fields => do
    let e ← e.rewriteM
    return (label, e) :: (← Expr.rewriteFieldsM fields)

/-- Rewrites all nodes of a predicate. -/
def Pred.rewriteM : Pred → m Pred
  | .connective n op args => do onPred (.connective n op (← Pred.rewriteAllM args))
  | .comparison n op args => do onPred (.comparison n op (← Expr.rewriteAllM args))
  | .identifier n decl name => onPred (.identifier n decl name)
  | .quantified n op bound pred => do onPred (.quantified n op bound (← pred.rewriteM))
  | .ite n cond yes no => do
    let cond ← cond.rewriteM
    let yes ← yes.rewriteM
    onPred (.ite n cond yes (← no.rewriteM))
  | .letIn n bound defs body => do
    let defs ← defs.rewriteM
    onPred (.letIn n bound defs (← body.rewriteM))

/-- Rewrites all nodes of predicates. -/
def Pred.rewriteAllM : List Pred → m (List Pred)
  | [] => return []
  | p :: ps => do
    let p ← p.rewriteM
    return p :: (← Pred.rewriteAllM ps)

end

mutual

/-- Rewrites all expressions and predicates of a substitution. -/
def Substitution.rewriteM : Substitution → m Substitution
  | .skip s => return .skip s
  | .assign s targets values => do
    let targets ← Expr.rewriteAllM onExpr onPred targets
    return .assign s targets (← Expr.rewriteAllM onExpr onPred values)
  | .becomesElement s targets set => do
    let targets ← Expr.rewriteAllM onExpr onPred targets
    return .becomesElement s targets (← set.rewriteM onExpr onPred)
  | .becomesSuch s targets pred => do
    let targets ← Expr.rewriteAllM onExpr onPred targets
    return .becomesSuch s targets (← pred.rewriteM onExpr onPred)
  | .any s bound pred body => do
    let pred ← pred.rewriteM onExpr onPred
    return .any s bound pred (← body.rewriteM)
  | .letIn s bound pred body => do
    let pred ← pred.rewriteM onExpr onPred
    return .letIn s bound pred (← body.rewriteM)
  | .var s bound body => return .var s bound (← body.rewriteM)
  | .guarded s kind cond body => do
    let cond ← cond.rewriteM onExpr onPred
    return .guarded s kind cond (← body.rewriteM)
  | .branch s kind conds branches otherwise => do
    let conds ← Pred.rewriteAllM onExpr onPred conds
    let branches ← Substitution.rewriteAllM branches
    return .branch s kind conds branches (← Substitution.rewriteOptionM otherwise)
  | .choice s branches => return .choice s (← Substitution.rewriteAllM branches)
  | .block s kind parts => return .block s kind (← Substitution.rewriteAllM parts)
  | .loop s cond body inv variant => do
    let cond ← cond.rewriteM onExpr onPred
    let body ← body.rewriteM
    let inv ← inv.rewriteM onExpr onPred
    return .loop s cond body inv (← variant.rewriteM onExpr onPred)
  | .call s name callee args assigned => do
    let args ← Expr.rewriteAllM onExpr onPred args
    return .call s name callee args (← Expr.rewriteAllM onExpr onPred assigned)

/-- Rewrites all expressions and predicates of substitutions. -/
def Substitution.rewriteAllM : List Substitution → m (List Substitution)
  | [] => return []
  | s :: ss => do
    let s ← s.rewriteM
    return s :: (← Substitution.rewriteAllM ss)

/-- Rewrites all expressions and predicates of a substitution that may be missing. -/
def Substitution.rewriteOptionM : Option Substitution → m (Option Substitution)
  | none => return none
  | some s => return some (← s.rewriteM)

end

/-- Rewrites all expressions and predicates of a temporal formula. -/
def Ltl.rewriteM : Ltl → m Ltl
  | .unary op arg => return .unary op (← arg.rewriteM)
  | .binary op left right => do
    let left ← left.rewriteM
    return .binary op left (← right.rewriteM)
  | .keyword op => return .keyword op
  | .pred p => return .pred (← p.rewriteM onExpr onPred)

/-- Rewrites all expressions and predicates of a tree. -/
def Node.rewriteM : Node → m Node
  | .expr e => return .expr (← e.rewriteM onExpr onPred)
  | .pred p => return .pred (← p.rewriteM onExpr onPred)
  | .substitution s => return .substitution (← s.rewriteM onExpr onPred)
  | .ltl f => return .ltl (← f.rewriteM onExpr onPred)

end

end BMethod
