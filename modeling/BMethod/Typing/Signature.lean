import BMethod.Operator
import BMethod.Ty.Basic

/-!
# Signatures of operators

How each operator is typed. Most operators have a signature: the shape of the result and of each
operand, over a number of type parameters that are chosen anew at every use. An operand's shape may
refer to the type of the whole, for operators that work within one type. The remaining operators,
which read two ways, take any number of operands or do not look at them, have rules of their own.

The order in which result and operands are looked at decides which of several errors is reported
and how variables are numbered, so it belongs to the signature.
-/

namespace BMethod

/-- The shape of a type over type parameters. -/
inductive Shape where
  /-- A type parameter, counted from zero. -/
  | param (i : Nat)
  /-- The type of the whole expression. -/
  | whole
  | integer
  | bool
  | string
  | set (elem : Shape)
  | couple (left right : Shape)
  deriving DecidableEq, Repr

namespace Shape

/-- The shape of relations. -/
def relation (left right : Shape) : Shape := .set (.couple left right)

/-- The shape of sequences. -/
def sequence (elem : Shape) : Shape := relation .integer elem

/-- The type of a shape, for given parameters and a given type of the whole. -/
def instantiate (params : List Ty) (whole : Ty) : Shape → Ty
  | .param i => params.getD i whole
  | .whole => whole
  | .integer => .integer
  | .bool => .bool
  | .string => .string
  | .set elem => .set (elem.instantiate params whole)
  | .couple left right => .couple (left.instantiate params whole) (right.instantiate params whole)

end Shape

/-- What is looked at first, the result or the operands, and from which end the operands. -/
inductive Order where
  /-- The result, then the operands from the first to the last. -/
  | forward
  /-- The result, then the operands from the last to the first. -/
  | backward
  /-- The operands from the first to the last, then the result. -/
  | inward
  deriving DecidableEq, Repr

/-- The type of an operator with a fixed number of operands. -/
structure Signature where
  /-- How many type parameters the shapes use. -/
  params : Nat
  result : Shape
  operands : List Shape
  order : Order
  deriving DecidableEq, Repr

/-- How an operator is typed. -/
inductive Rule where
  | fixed (s : Signature)
  /-- A constant; operands written behind it are not looked at. -/
  | constant (params : Nat) (result : Shape)
  /-- The difference of integers or of sets. -/
  | difference
  /-- The product of integers or of sets. -/
  | product
  /-- A pair, typed by its two halves. -/
  | pair
  /-- Any number of elements of one type; the shape is over that type. -/
  | enumeration (result : Shape)
  /-- A function applied to one or more arguments. -/
  | application
  deriving DecidableEq, Repr

namespace Rule

/-- A signature whose result is looked at first. -/
def forward (params : Nat) (result : Shape) (operands : List Shape) : Rule :=
  .fixed ⟨params, result, operands, .forward⟩

/-- A signature whose result is looked at first and its first operand last. -/
def backward (params : Nat) (result : Shape) (operands : List Shape) : Rule :=
  .fixed ⟨params, result, operands, .backward⟩

/-- A signature whose result is looked at last. -/
def inward (params : Nat) (result : Shape) (operands : List Shape) : Rule :=
  .fixed ⟨params, result, operands, .inward⟩

end Rule

namespace Shape

/-! The four type parameters that the table below needs. -/

abbrev a : Shape := .param 0
abbrev b : Shape := .param 1
abbrev c : Shape := .param 2
abbrev d : Shape := .param 3

end Shape

open Shape (a b c d) in
/-- The typing rule of an operator. -/
def Operator.rule : Operator → Rule
  -- Arithmetic.
  | .plus | .divide | .modulo | .powerOf => .forward 0 .integer [.integer, .integer]
  | .unaryMinus | .pred | .succ => .forward 0 .integer [.integer]
  | .interval => .forward 0 (.set .integer) [.integer, .integer]
  | .min | .max => .forward 0 .integer [.set .integer]
  -- Operators that read two ways.
  | .minus => .difference
  | .mult => .product
  -- Constants.
  | .minInt | .maxInt => .constant 0 .integer
  | .integerSet | .natural | .natural1 | .int | .nat | .nat1 => .constant 0 (.set .integer)
  | .stringSet => .constant 0 (.set .string)
  | .boolSet => .constant 0 (.set .bool)
  | .trueValue | .falseValue => .constant 0 .bool
  | .emptySet => .constant 1 (.set a)
  | .emptySequence => .constant 1 (.sequence a)
  -- Sets.
  | .setEnumeration => .enumeration (.set a)
  | .setSubtraction | .intersection | .union => .forward 1 (.set a) [.whole, .whole]
  | .cartesianProduct => .forward 2 (.relation a b) [.set a, .set b]
  | .generalizedUnion | .generalizedInter => .forward 1 (.set a) [.set .whole]
  | .card | .size => .inward 1 .integer [.set a]
  | .pow | .pow1 | .fin | .fin1 => .forward 1 (.set a) [a]
  -- Pairs and relations.
  | .couple => .pair
  | .domain => .inward 2 (.set a) [.relation a b]
  | .range => .forward 2 (.set b) [.relation a b]
  | .identity => .inward 1 (.relation a a) [.set a]
  | .closure | .closure1 => .forward 2 (.relation a b) [.whole]
  | .iterate => .forward 2 (.relation a b) [.whole, .integer]
  | .prj1 => .forward 2 (.relation (.couple a b) a) [.set a, .set b]
  | .prj2 => .forward 2 (.relation (.couple a b) b) [.set a, .set b]
  | .fnc => .forward 2 (.relation a (.set b)) [.relation a b]
  | .rel => .forward 2 (.relation a b) [.relation a (.set b)]
  | .directProduct => .forward 3 (.relation a (.couple b c)) [.relation a b, .relation a c]
  | .parallelProduct =>
    .forward 4 (.relation (.couple a c) (.couple b d)) [.relation a b, .relation c d]
  | .composition => .inward 4 (.relation a d) [.relation a b, .relation c d]
  | .domainRestriction | .domainSubtraction => .backward 2 (.relation a b) [.set a, .whole]
  | .rangeRestriction | .rangeSubtraction => .forward 2 (.relation a b) [.whole, .set b]
  | .overwrite => .forward 2 (.relation a b) [.whole, .whole]
  | .inverse => .inward 2 (.relation b a) [.relation a b]
  | .relationalImage => .inward 2 (.set b) [.relation a b, .set a]
  | .functionCall => .application
  | .relation | .totalRelation | .surjectionRelation | .totalSurjectionRelation | .totalFunction
  | .partialFunction | .totalInjection | .partialInjection | .totalSurjection | .partialSurjection
  | .totalBijection | .partialBijection => .forward 2 (.set (.relation a b)) [.set a, .set b]
  -- Sequences.
  | .seqEnumeration => .enumeration (.sequence a)
  | .concat => .forward 1 (.sequence a) [.whole, .whole]
  | .conc => .forward 1 (.sequence a) [.sequence .whole]
  | .insertFront => .backward 1 (.sequence a) [a, .whole]
  | .insertTail => .forward 1 (.sequence a) [.whole, a]
  | .restrictFront | .restrictTail => .forward 1 (.sequence a) [.whole, .integer]
  | .first | .last => .inward 1 a [.sequence a]
  | .front | .tail | .rev => .forward 1 (.sequence a) [.whole]
  | .seq | .seq1 | .iseq | .iseq1 | .perm => .forward 1 (.set (.sequence a)) [.set a]

end BMethod
