import SqlQuery.Error

/-!
# Query trees

A node of a query tree is a form, such as an infix operation or a query, with
two decorations that every form may bear: an alias, and a pair of parentheses
around it.

The forms are written once, over an arbitrary type of *parts*.  A tree is then
a node whose parts are nodes, and what a computation over trees does at one
node is a function on forms whose parts have been dealt with already.

## Main definitions

* `Form α` — the forms of a node with parts of type `α`.
* `Node` — a decorated form whose parts are nodes.
-/

namespace SqlQuery

/-- The value of a literal. -/
inductive Value where
  | null
  | boolean (value : Bool)
  | integer (value : Int64)
  | float (value : Number.Binary64)
  | text (value : String)
deriving DecidableEq, Repr

/-- The direction of an entry of an ordering. -/
inductive Direction where
  | unspecified | ascending | descending
deriving DecidableEq, Repr

def Direction.spelling : Direction → String
  | .unspecified => ""
  | .ascending => "ASC"
  | .descending => "DESC"

def Direction.label : Direction → String
  | .unspecified => "Default"
  | .ascending => "Asc"
  | .descending => "Desc"

/-- Where an ordering puts the entries without a value. -/
inductive NullPlacement where
  | unspecified | first | last
deriving DecidableEq, Repr

def NullPlacement.spelling : NullPlacement → String
  | .unspecified => ""
  | .first => "NULLS FIRST"
  | .last => "NULLS LAST"

def NullPlacement.label : NullPlacement → String
  | .unspecified => "Default"
  | .first => "First"
  | .last => "Last"

/-- How two sources of a query are joined. -/
inductive JoinKind where
  | plain | inner | left | right | full | cross
  /-- A comma between the sources. -/
  | comma
deriving DecidableEq, Repr

def JoinKind.spelling : JoinKind → String
  | .plain => "JOIN"
  | .inner => "INNER JOIN"
  | .left => "LEFT JOIN"
  | .right => "RIGHT JOIN"
  | .full => "FULL JOIN"
  | .cross => "CROSS JOIN"
  | .comma => ","

def JoinKind.label : JoinKind → String
  | .plain => "Join"
  | .inner => "Inner"
  | .left => "Left"
  | .right => "Right"
  | .full => "Full"
  | .cross => "Cross"
  | .comma => "Implicit"

/-- The clauses of a query. -/
structure Query (α : Type) where
  distinct : Bool := false
  targets : List α
  source : Option α := none
  condition : Option α := none
  groups : List α := []
  having : Option α := none
  ordering : List α := []
  limit : Option α := none
  offset : Option α := none

/-- The forms of a node with parts of type `α`. -/
inductive Form (α : Type) where
  /-- A name, enclosed in the character `wrap` if that is given. -/
  | identifier (value : String) (wrap : Option Char)
  | constant (value : Value)
  | nullConstant
  | variableName (name : String) (system : Bool)
  /-- The placeholder for a value supplied later. -/
  | parameter
  /-- An operation written like a call. -/
  | operation (op : String) (args : List α)
  | binary (op : String) (left right : α)
  | unary (op : String) (arg : α)
  | call (name : String) (args : List α) (distinct : Bool)
  | between (subject low high : α) (negated : Bool)
  | tuple (items : List α)
  | select (query : Query α)
  | join (left right : α) (kind : JoinKind) (condition : Option α)
  | orderBy (field : α) (direction : Direction) (nulls : NullPlacement)
  | typeCast (typeName : String) (arg : α)
  | caseWhen (rules : List (α × α)) (default : Option α)

/-- A node of a query tree. -/
structure Node where
  form : Form Node
  aliasName : Option String := none
  parentheses : Bool := false

namespace Form

/-- The name of the form. -/
def label {α : Type} : Form α → String
  | .identifier .. => "Identifier"
  | .constant _ => "Constant"
  | .nullConstant => "NullConstant"
  | .variableName .. => "Variable"
  | .parameter => "Parameter"
  | .operation .. => "Operation"
  | .binary .. => "BinaryOperation"
  | .unary .. => "UnaryOperation"
  | .call .. => "Function"
  | .between .. => "BetweenOperation"
  | .tuple _ => "Tuple"
  | .select _ => "Select"
  | .join .. => "Join"
  | .orderBy .. => "OrderBy"
  | .typeCast .. => "TypeCast"
  | .caseWhen .. => "Case"

end Form

namespace Node

/-- The name of the node's form. -/
def label (node : Node) : String := node.form.label

end Node

end SqlQuery
