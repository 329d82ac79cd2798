/-!
# Operators

The operators of B expressions, the connectives and comparisons of predicates, and the binders, each
with the word that names it in messages.
-/

namespace BMethod

/-- The operators of expressions that are written with operands alone. -/
inductive Operator where
  | plus | minus | unaryMinus | mult | divide | modulo | powerOf | pred | succ | interval
  | min | max | minInt | maxInt | integerSet | natural | natural1 | int | nat | nat1 | stringSet | boolSet
  | trueValue | falseValue
  | emptySet | setEnumeration | setSubtraction | intersection | union | cartesianProduct
  | generalizedUnion | generalizedInter | card | pow | pow1 | fin | fin1
  | couple | domain | range | identity | closure | closure1 | iterate | prj1 | prj2 | fnc | rel
  | directProduct | parallelProduct | composition | domainRestriction | domainSubtraction
  | rangeRestriction | rangeSubtraction | overwrite | inverse | relationalImage | functionCall
  | relation | totalRelation | surjectionRelation | totalSurjectionRelation | totalFunction
  | partialFunction | totalInjection | partialInjection | totalSurjection | partialSurjection
  | totalBijection | partialBijection
  | emptySequence | seqEnumeration | concat | conc | insertFront | insertTail | restrictFront
  | restrictTail | first | last | front | tail | rev | size | seq | seq1 | iseq | iseq1 | perm
  deriving DecidableEq, Repr

namespace Operator

/-- The name of an operator. -/
def name : Operator → String
  | plus => "PLUS"
  | minus => "MINUS"
  | unaryMinus => "UNARY_MINUS"
  | mult => "MULT"
  | divide => "DIVIDE"
  | modulo => "MOD"
  | powerOf => "POWER_OF"
  | pred => "PRED"
  | succ => "SUCC"
  | interval => "INTERVAL"
  | min => "MIN"
  | max => "MAX"
  | minInt => "MININT"
  | maxInt => "MAXINT"
  | integerSet => "INTEGER"
  | natural => "NATURAL"
  | natural1 => "NATURAL1"
  | int => "INT"
  | nat => "NAT"
  | nat1 => "NAT1"
  | stringSet => "STRING"
  | boolSet => "BOOL"
  | trueValue => "TRUE"
  | falseValue => "FALSE"
  | emptySet => "EMPTY_SET"
  | setEnumeration => "SET_ENUMERATION"
  | setSubtraction => "SET_SUBTRACTION"
  | intersection => "INTERSECTION"
  | union => "UNION"
  | cartesianProduct => "CARTESIAN_PRODUCT"
  | generalizedUnion => "GENERALIZED_UNION"
  | generalizedInter => "GENERALIZED_INTER"
  | card => "CARD"
  | pow => "POW"
  | pow1 => "POW1"
  | fin => "FIN"
  | fin1 => "FIN1"
  | couple => "COUPLE"
  | domain => "DOMAIN"
  | range => "RANGE"
  | identity => "ID"
  | closure => "CLOSURE"
  | closure1 => "CLOSURE1"
  | iterate => "ITERATE"
  | prj1 => "PRJ1"
  | prj2 => "PRJ2"
  | fnc => "FNC"
  | rel => "REL"
  | directProduct => "DIRECT_PRODUCT"
  | parallelProduct => "PARALLEL_PRODUCT"
  | composition => "COMPOSITION"
  | domainRestriction => "DOMAIN_RESTRICTION"
  | domainSubtraction => "DOMAIN_SUBTRACTION"
  | rangeRestriction => "RANGE_RESTRICTION"
  | rangeSubtraction => "RANGE_SUBTRACTION"
  | overwrite => "OVERWRITE_RELATION"
  | inverse => "INVERSE_RELATION"
  | relationalImage => "RELATIONAL_IMAGE"
  | functionCall => "FUNCTION_CALL"
  | relation => "SET_RELATION"
  | totalRelation => "TOTAL_RELATION"
  | surjectionRelation => "SURJECTION_RELATION"
  | totalSurjectionRelation => "TOTAL_SURJECTION_RELATION"
  | totalFunction => "TOTAL_FUNCTION"
  | partialFunction => "PARTIAL_FUNCTION"
  | totalInjection => "TOTAL_INJECTION"
  | partialInjection => "PARTIAL_INJECTION"
  | totalSurjection => "TOTAL_SURJECTION"
  | partialSurjection => "PARTIAL_SURJECTION"
  | totalBijection => "TOTAL_BIJECTION"
  | partialBijection => "PARTIAL_BIJECTION"
  | emptySequence => "EMPTY_SEQUENCE"
  | seqEnumeration => "SEQ_ENUMERATION"
  | concat => "CONCAT"
  | conc => "CONC"
  | insertFront => "INSERT_FRONT"
  | insertTail => "INSERT_TAIL"
  | restrictFront => "RESTRICT_FRONT"
  | restrictTail => "RESTRICT_TAIL"
  | first => "FIRST"
  | last => "LAST"
  | front => "FRONT"
  | tail => "TAIL"
  | rev => "REV"
  | size => "SIZE"
  | seq => "SEQ"
  | seq1 => "SEQ1"
  | iseq => "ISEQ"
  | iseq1 => "ISEQ1"
  | perm => "PERM"

/-- All operators. -/
def all : List Operator :=
  [plus, minus, unaryMinus, mult, divide, modulo, powerOf, pred, succ, interval, min, max, minInt,
    maxInt, integerSet, natural, natural1, int, nat, nat1, stringSet, boolSet, trueValue,
    falseValue, emptySet, setEnumeration, setSubtraction, intersection, union, cartesianProduct,
    generalizedUnion, generalizedInter, card, pow, pow1, fin, fin1, couple, domain, range, identity,
    closure, closure1, iterate, prj1, prj2, fnc, rel, directProduct, parallelProduct, composition,
    domainRestriction, domainSubtraction, rangeRestriction, rangeSubtraction, overwrite, inverse,
    relationalImage, functionCall, relation, totalRelation, surjectionRelation,
    totalSurjectionRelation, totalFunction, partialFunction, totalInjection, partialInjection,
    totalSurjection, partialSurjection, totalBijection, partialBijection, emptySequence,
    seqEnumeration, concat, conc, insertFront, insertTail, restrictFront, restrictTail, first, last,
    front, tail, rev, size, seq, seq1, iseq, iseq1, perm]

/-- The operator of that name. -/
def ofName? (name : String) : Option Operator := all.find? (·.name == name)

/-- Operators have different names, by which they are found. -/
theorem ofName?_name (op : Operator) : ofName? op.name = some op := by
  cases op <;> decide

/-- An operator whose type the operands alone may leave open: it is reported by its own name when
its type stays unknown. -/
def isTracked : Operator → Bool
  | minus | mult | emptySet | emptySequence => true
  | _ => false

end Operator

/-- The binders that form a sum, product, union or intersection over a family. -/
inductive Aggregate where
  | sigma | pi | union | inter
  deriving DecidableEq, Repr

/-- The name of an aggregate. -/
def Aggregate.name : Aggregate → String
  | sigma => "Sigma"
  | pi => "Pi"
  | union => "Union"
  | inter => "Inter"

/-- The connectives of predicates, the two constant ones included. -/
inductive Connective where
  | and | or | implication | equivalence | not | true | false
  deriving DecidableEq, Repr

/-- The name of a connective. -/
def Connective.name : Connective → String
  | and => "And"
  | or => "Or"
  | implication => "Implication"
  | equivalence => "Equivalence"
  | not => "Not"
  | true => "True"
  | false => "False"

/-- The comparisons of two expressions. -/
inductive Comparison where
  | equal | notEqual | elementOf | notBelonging | less | lessEqual | greater | greaterEqual
  | inclusion | nonInclusion | strictInclusion | strictNonInclusion
  deriving DecidableEq, Repr

/-- The name of a comparison. -/
def Comparison.name : Comparison → String
  | equal => "Equal"
  | notEqual => "NotEqual"
  | elementOf => "ElementOf"
  | notBelonging => "NotBelonging"
  | less => "Less"
  | lessEqual => "LessEqual"
  | greater => "Greater"
  | greaterEqual => "GreaterEqual"
  | inclusion => "Inclusion"
  | nonInclusion => "NonInclusion"
  | strictInclusion => "StrictInclusion"
  | strictNonInclusion => "StrictNonInclusion"

/-- The quantifiers of predicates. -/
inductive Quantifier where
  | universal | existential
  deriving DecidableEq, Repr

/-- The name of a quantifier. -/
def Quantifier.name : Quantifier → String
  | universal => "ForAll"
  | existential => "Exists"

end BMethod
