import SqlQuery.Node.Fold
import SqlQuery.Token.RuleSet

/-!
# The SQL text of a tree

Rendering keeps the words of a query and fixes everything else: keywords in
upper case, one space between tokens, a space after each comma, aliases
introduced by `AS`.  No parentheses are added, only those that a node bears.

An alias is written bare where it reads back as that name, and in backticks
where it is not a word, is reserved, or opens a keyword phrase that the next
clause might complete.
-/

namespace SqlQuery

namespace Value

/-- The literal.  A text stands in double quotes unless it holds one. -/
def render : Value → String
  | .null => "NULL"
  | .boolean true => "TRUE"
  | .boolean false => "FALSE"
  | .integer value => toString value.toInt
  | .float value => literalStyle.text value
  | .text value =>
    let quote := if value.toList.contains '\x22' then "\x27" else "\x22"
    quote ++ value ++ quote

end Value

/-- Whether a text is a word that reads back as an identifier whatever follows
it. -/
def isPlainWord (word : List Char) : Bool :=
  match word with
  | [] => false
  | c :: cs =>
    Text.isWordStart c && cs.all Text.isWordChar && (Keyword.ofWord? word).isNone &&
      !RuleSet.base.startsPhrase word

/-- An alias, in backticks unless it is a plain word. -/
def renderAlias (aliasName : String) : String :=
  if isPlainWord aliasName.toList then aliasName else "\x60" ++ aliasName ++ "\x60"

/-- A text enclosed in a character, if one is given. -/
def enclose (value : String) (wrap : Option Char) : String :=
  match wrap with
  | some c => c.toString ++ value ++ c.toString
  | none => value

/-- A clause that may be missing, with its keyword. -/
def renderClause (keyword : String) (body : Option String) : String :=
  match body with
  | some body => " " ++ keyword ++ " " ++ body
  | none => ""

/-- A list with a comma and a space between its members. -/
def renderList (items : List String) : String :=
  ", ".intercalate items

/-- A list, unless it is empty. -/
def renderList? (items : List String) : Option String :=
  if items.isEmpty then none else some (renderList items)

/-- A word after a space, unless the word is empty. -/
def renderSuffix (word : String) : String :=
  if word.isEmpty then "" else " " ++ word

/-- The text of a query, from the texts of its parts. -/
def Query.renderParts (q : Query String) : String :=
  "SELECT " ++ (if q.distinct then "DISTINCT " else "") ++ renderList q.targets ++
    renderClause "FROM" q.source ++
    renderClause "WHERE" q.condition ++
    renderClause "GROUP BY" (renderList? q.groups) ++
    renderClause "HAVING" q.having ++
    renderClause "ORDER BY" (renderList? q.ordering) ++
    renderClause "LIMIT" q.limit ++
    renderClause "OFFSET" q.offset

/-- The text of a form, from the texts of its parts. -/
def Form.renderParts : Form String → String
  | .identifier value wrap => enclose value wrap
  | .constant value => value.render
  | .nullConstant => "NULL"
  | .variableName name system => (if system then "@@" else "@") ++ name
  | .parameter => "?"
  | .operation op args => op ++ "(" ++ ",".intercalate args ++ ")"
  | .binary op left right => left ++ " " ++ op ++ " " ++ right
  | .unary op arg => op ++ " " ++ arg
  | .call name args distinct =>
    name ++ "(" ++ (if distinct then "DISTINCT " else "") ++ renderList args ++ ")"
  | .between subject low high negated =>
    subject ++ (if negated then " NOT BETWEEN " else " BETWEEN ") ++ low ++ " AND " ++ high
  | .tuple items => "(" ++ renderList items ++ ")"
  | .select query => query.renderParts
  | .join left right kind condition =>
    left ++ (if kind == .comma then ", " else " " ++ kind.spelling ++ " ") ++ right ++
      renderClause "ON" condition
  | .orderBy field direction nulls =>
    field ++ renderSuffix direction.spelling ++ renderSuffix nulls.spelling
  | .typeCast typeName arg => "CAST(" ++ arg ++ " AS " ++ typeName ++ ")"
  | .caseWhen rules default =>
    "CASE" ++ String.join (rules.map fun rule => " WHEN " ++ rule.1 ++ " THEN " ++ rule.2) ++
      renderClause "ELSE" default ++ " END"

/-- A text with the decorations of a node: parentheses, then the alias. -/
def decorate (body : String) (aliasName : Option String) (parentheses : Bool) : String :=
  (if parentheses then "(" ++ body ++ ")" else body) ++
    renderClause "AS" (aliasName.map renderAlias)

namespace Node

/-- The SQL text of a tree. -/
def render : Node → String :=
  Node.fold fun form aliasName parentheses => decorate form.renderParts aliasName parentheses

/-- The SQL text of a node without its own decorations. -/
def renderForm (node : Node) : String :=
  (node.form.map render).renderParts

/-- A node's text is that of its form, decorated. -/
theorem render_eq_decorate (node : Node) :
    node.render = decorate node.renderForm node.aliasName node.parentheses := by
  cases node
  simp [render, renderForm, Node.fold_mk]

end Node

end SqlQuery
