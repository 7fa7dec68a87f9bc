import SqlQuery.Token

/-!
# Operators and their precedence

Operators fall into classes, and the classes are ranked by a table of levels,
loosest first.  A level yields two *binding powers*: an operator takes what
stands to its left only where its left power is at least the power demanded
there, and it demands its right power of what stands to its right.  Level `i`
has the powers `2 * i + 1` and `2 * i + 2`, the smaller one on the side to
which a row of operators groups.  Powers are numbers of eight bits.
-/

namespace SqlQuery

/-- A family of operators of the same rank and shape. -/
inductive OperatorClass where
  | disjunction
  | conjunction
  | comparison
  /-- `IS` and `IS NOT`. -/
  | identity
  /-- `IN` and `NOT IN`. -/
  | membership
  /-- `LIKE` and `NOT LIKE`. -/
  | likeness
  /-- `BETWEEN` and `NOT BETWEEN`. -/
  | range
  | additive
  | multiplicative
  /-- A minus sign before its operand. -/
  | negation
  /-- `NOT` before its operand. -/
  | complement
deriving DecidableEq, Repr

namespace OperatorClass

/-- Every class once. -/
def all : List OperatorClass :=
  [ .disjunction, .conjunction, .comparison, .identity, .membership, .likeness, .range,
    .additive, .multiplicative, .negation, .complement ]

def label : OperatorClass → String
  | .disjunction => "Or"
  | .conjunction => "And"
  | .comparison => "Comparison"
  | .identity => "Is"
  | .membership => "In"
  | .likeness => "Like"
  | .range => "Between"
  | .additive => "Additive"
  | .multiplicative => "Multiplicative"
  | .negation => "Negate"
  | .complement => "Not"

/-- The class with a given label. -/
def ofLabel? (name : String) : Option OperatorClass :=
  all.find? fun operator => operator.label == name

end OperatorClass

/-- The side to which a row of operators of one level groups. -/
inductive Associativity where
  | left | right
deriving DecidableEq, Repr

def Associativity.label : Associativity → String
  | .left => "Left"
  | .right => "Right"

/-- A level of the table. -/
structure PrecedenceLevel where
  name : String
  associativity : Associativity
  operators : List OperatorClass
deriving DecidableEq, Repr

/-- The left and the right binding power of an operator. -/
structure BindingPower where
  left : Nat
  right : Nat
deriving DecidableEq, Repr

/-- Levels, loosest first. -/
structure PrecedenceTable where
  levels : List PrecedenceLevel
deriving DecidableEq, Repr

namespace PrecedenceTable

/-- The table that every dialect shares. -/
def base : PrecedenceTable :=
  ⟨[ ⟨"or", .left, [.disjunction]⟩,
     ⟨"and", .left, [.conjunction]⟩,
     ⟨"comparison", .left, [.comparison, .identity, .membership, .likeness, .range]⟩,
     ⟨"additive", .left, [.additive]⟩,
     ⟨"multiplicative", .left, [.multiplicative]⟩,
     ⟨"unary", .right, [.negation, .complement]⟩ ]⟩

/-- The powers of the level with a given index, unless one of them does not fit in
eight bits.  That begins at the index 127 and so does not happen in the base table,
which has six levels. -/
def powerAt? (index : Nat) (associativity : Associativity) : Option BindingPower :=
  let low := 2 * index + 1
  let high := low + 1
  if 256 ≤ high then none
  else match associativity with
    | .left => some ⟨low, high⟩
    | .right => some ⟨high, low⟩

/-- The powers of a class among levels, the first of which has a given index. -/
def powerFrom? (index : Nat) (operator : OperatorClass) :
    List PrecedenceLevel → Option BindingPower
  | [] => none
  | level :: rest =>
    if level.operators.contains operator then powerAt? index level.associativity
    else powerFrom? (index + 1) operator rest

/-- The binding powers of an operator between two operands. -/
def infixPower? (table : PrecedenceTable) (operator : OperatorClass) : Option BindingPower :=
  powerFrom? 0 operator table.levels

/-- The power that an operator before its operand demands of it. -/
def prefixPower? (table : PrecedenceTable) (operator : OperatorClass) : Option Nat :=
  (table.infixPower? operator).map (·.right)

end PrecedenceTable

namespace TokenKind

/-- The class of the operator that begins between two operands with this token
and is continued by the `following` one. -/
def infixClass? (kind following : TokenKind) : Option OperatorClass :=
  match kind with
  | .keyword .OR => some .disjunction
  | .keyword .AND => some .conjunction
  | .equal | .notEqual | .less | .lessEqual | .greater | .greaterEqual => some .comparison
  | .keyword .IS => some .identity
  | .keyword .IN => some .membership
  | .keyword .LIKE => some .likeness
  | .keyword .BETWEEN => some .range
  | .keyword .NOT =>
    match following with
    | .keyword .IN => some .membership
    | .keyword .LIKE => some .likeness
    | .keyword .BETWEEN => some .range
    | _ => none
  | .plus | .minus | .concat => some .additive
  | .star | .slash | .percent => some .multiplicative
  | _ => none

/-- The class of the operator that stands with this token before an operand. -/
def prefixClass? : TokenKind → Option OperatorClass
  | .minus => some .negation
  | .keyword .NOT => some .complement
  | _ => none

end TokenKind

end SqlQuery
