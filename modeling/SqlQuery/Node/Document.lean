import SqlQuery.Json
import SqlQuery.Node.Fold

/-!
# Trees and tokens as documents

A value of a sum type becomes an object with the name of the alternative as
its only key, or just that name where the alternative carries nothing.
-/

namespace SqlQuery

open Json (ofOption)

/-- A document of one member. -/
def Json.tagged (name : String) (content : Json) : Json :=
  .object [(name, content)]

/-- A single character as a text. -/
def Json.ofChar (c : Char) : Json := .text c.toString

namespace Value

def toJson : Value → Json
  | .null => .text "Null"
  | .boolean value => .tagged "Bool" (.boolean value)
  | .integer value => .tagged "Integer" (.integer value.toInt)
  | .float value => .tagged "Float" (.float value)
  | .text value => .tagged "String" (.text value)

end Value

namespace Query

/-- The document of a query, from those of its parts. -/
def documentParts (q : Query Json) : Json :=
  .object
    [ ("targets", .array q.targets),
      ("from_table", q.source.getD .null),
      ("where_clause", q.condition.getD .null),
      ("group_by", .array q.groups),
      ("having", q.having.getD .null),
      ("order_by", .array q.ordering),
      ("limit", q.limit.getD .null),
      ("offset", q.offset.getD .null),
      ("distinct", .boolean q.distinct) ]

end Query

namespace Form

/-- The members that describe a form, from the documents of its parts. -/
def documentMembers : Form Json → List (String × Json)
  | .identifier value wrap => [("value", .text value), ("wrap", ofOption .ofChar wrap)]
  | .variableName name system => [("value", .text name), ("is_system_var", .boolean system)]
  | .operation op args => [("op", .text op), ("args", .array args)]
  | .binary op left right => [("op", .text op), ("args", .array [left, right])]
  | .unary op arg => [("op", .text op), ("arg", arg)]
  | .call name args distinct =>
    [("op", .text name), ("args", .array args), ("distinct", .boolean distinct)]
  | .between subject low high negated =>
    [("args", .array [subject, low, high]), ("negated", .boolean negated)]
  | .tuple items => [("items", .array items)]
  | .join left right kind condition =>
    [ ("left", left), ("right", right), ("join_type", .text kind.label),
      ("condition", condition.getD .null) ]
  | .orderBy field direction nulls =>
    [("field", field), ("direction", .text direction.label), ("nulls", .text nulls.label)]
  | .typeCast typeName arg => [("type_name", .text typeName), ("arg", arg)]
  | .caseWhen rules default =>
    [ ("rules", .array (rules.map fun rule => .array [rule.1, rule.2])),
      ("default", default.getD .null) ]
  | .constant _ | .nullConstant | .parameter | .select _ => []

/-- The document of a form, from those of its parts. -/
def document (form : Form Json) : Json :=
  match form with
  | .nullConstant | .parameter => .text form.label
  | .constant value => .tagged form.label value.toJson
  | .select query => .tagged form.label query.documentParts
  | _ => .tagged form.label (.object form.documentMembers)

end Form

namespace Node

/-- The document of a tree. -/
def toJson : Node → Json :=
  Node.fold fun form aliasName parentheses =>
    .object
      [ ("kind", form.document),
        ("alias", ofOption .text aliasName),
        ("parentheses", .boolean parentheses) ]

end Node

namespace TokenKind

def toJson (kind : TokenKind) : Json :=
  match kind with
  | .integer value => .tagged kind.label (.integer value.toInt)
  | .float value => .tagged kind.label (.float value)
  | .text value => .tagged kind.label (.text value)
  | .identifier value quote =>
    .tagged kind.label (.object [("value", .text value), ("quote", ofOption .ofChar quote)])
  | .keyword word => .tagged kind.label (.text word.label)
  | .userVariable name => .tagged kind.label (.text name)
  | .systemVariable name => .tagged kind.label (.text name)
  | _ => .text kind.label

end TokenKind

def Span.toJson (span : Span) : Json :=
  .object [("start", .integer span.start), ("end", .integer span.stop)]

def Token.toJson (token : Token) : Json :=
  .object [("kind", token.kind.toJson), ("span", token.span.toJson)]

end SqlQuery
