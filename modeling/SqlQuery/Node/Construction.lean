import SqlQuery.Node

/-!
# Construction of nodes

The constructors of nodes.  Those with a question mark check the number or the
form of the parts they are given, and fail with a structural error; the others
cannot go wrong.
-/

namespace SqlQuery

namespace Node

/-- An undecorated node. -/
def ofForm (form : Form Node) : Node := { form := form }

def withAlias (aliasName : String) (node : Node) : Node := { node with aliasName := some aliasName }

def withParentheses (parentheses : Bool) (node : Node) : Node :=
  { node with parentheses := parentheses }

def identifier (value : String) (wrap : Option Char) : Node := ofForm (.identifier value wrap)

def null : Node := ofForm .nullConstant

/-- A literal; the null value has a form of its own. -/
def constant : Value → Node
  | .null => null
  | value => ofForm (.constant value)

def parameter : Node := ofForm .parameter

def binary (op : String) (left right : Node) : Node := ofForm (.binary op left right)

def unary (op : String) (arg : Node) : Node := ofForm (.unary op arg)

def call (name : String) (args : List Node) (distinct : Bool) : Node :=
  ofForm (.call name args distinct)

def between (subject low high : Node) (negated : Bool) : Node :=
  ofForm (.between subject low high negated)

def tuple (items : List Node) : Node := ofForm (.tuple items)

/-- An operation on at least one operand. -/
def operation? (op : String) (args : List Node) : Except StructuralError Node :=
  if args.isEmpty then .error (.arity "Operation" "at least 1" 0)
  else .ok (ofForm (.operation op args))

/-- An infix operation on exactly two operands. -/
def binary? (op : String) : List Node → Except StructuralError Node
  | [left, right] => .ok (binary op left right)
  | args => .error (.arity "BinaryOperation" "exactly 2" args.length)

/-- A prefix operation on exactly one operand. -/
def unary? (op : String) : List Node → Except StructuralError Node
  | [arg] => .ok (unary op arg)
  | args => .error (.arity "UnaryOperation" "exactly 1" args.length)

/-- A range test of exactly a subject and two bounds. -/
def between? (negated : Bool) : List Node → Except StructuralError Node
  | [subject, low, high] => .ok (between subject low high negated)
  | args => .error (.arity "BetweenOperation" "exactly 3" args.length)

/-- A case distinction with at least one rule. -/
def caseWhen? (rules : List (Node × Node)) (default : Option Node) :
    Except StructuralError Node :=
  if rules.isEmpty then .error (.arity "Case" "at least 1 WHEN" 0)
  else .ok (ofForm (.caseWhen rules default))

/-- Whether a node is an entry of an ordering. -/
def isOrdering (node : Node) : Bool :=
  node.form matches .orderBy ..

end Node

namespace Query

/-- A query for at least one target, without any further clause. -/
def ofTargets? (targets : List Node) : Except StructuralError (Query Node) :=
  if targets.isEmpty then .error .emptyTargets else .ok { targets := targets }

/-- The query with an ordering, whose entries must be of that form. -/
def withOrdering? (query : Query Node) (entries : List Node) :
    Except StructuralError (Query Node) :=
  match entries.find? (fun entry => !entry.isOrdering) with
  | some other => .error (.notAnOrdering other.label)
  | none => .ok { query with ordering := entries }

end Query

end SqlQuery
