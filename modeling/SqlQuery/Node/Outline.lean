import SqlQuery.Node.Fold

/-!
# The outline of a tree

An outline shows a tree line by line: each node is a line with the name of its
form and its attributes, and its parts follow below it, two spaces further in.
A part that may be missing, or a list that may be empty, stands under a line
that names its role, so that one part cannot be taken for another.

Texts are shown quoted, so a line holds no line break.
-/

namespace SqlQuery

namespace Outline

/-- A line and how many steps it is moved in. -/
structure Line where
  depth : Nat
  text : String
deriving DecidableEq, Repr

/-- The line with its indentation and a line break. -/
def Line.print (line : Line) : String :=
  String.ofList (List.replicate (2 * line.depth) ' ') ++ line.text ++ "\n"

/-- Lines moved in by one step. -/
def indent (lines : List Line) : List Line :=
  lines.map fun line => { line with depth := line.depth + 1 }

/-- Parts under a line that names their role; nothing if there are none. -/
def role (name : String) (parts : List (List Line)) : List Line :=
  if parts.isEmpty then [] else ⟨0, name ++ ":"⟩ :: indent parts.flatten

/-- An attribute with its value. -/
def entry (name value : String) : String :=
  " " ++ name ++ "=" ++ value

/-- An attribute that is shown when it is true. -/
def flag (name : String) (value : Bool) : String :=
  if value then entry name "true" else ""

/-- A literal's value, with texts quoted. -/
def value : Value → String
  | .null => "null"
  | .boolean b => toString b
  | .integer i => toString i.toInt
  | .float x => literalStyle.text x
  | .text s => Text.quoted s

end Outline

open Outline

namespace Form

/-- The attributes of a form. -/
def outlineHead {α : Type} : Form α → String
  | .identifier value wrap =>
    entry "value" (Text.quoted value) ++ match wrap with
      | some c => entry "wrap" (Text.quotedChar c)
      | none => ""
  | .constant value => entry "value" (Outline.value value)
  | .variableName name system =>
    entry "value" (Text.quoted name) ++ entry "is_system_var" (toString system)
  | .operation op _ => entry "op" (Text.quoted op)
  | .binary op _ _ => entry "op" (Text.quoted op)
  | .unary op _ => entry "op" (Text.quoted op)
  | .call name _ distinct => entry "op" (Text.quoted name) ++ flag "distinct" distinct
  | .between _ _ _ negated => flag "negated" negated
  | .select query => flag "distinct" query.distinct
  | .join _ _ kind _ => entry "join_type" kind.label
  | .orderBy _ direction nulls =>
    entry "direction" direction.label ++ entry "nulls" nulls.label
  | .typeCast typeName _ => entry "type_name" (Text.quoted typeName)
  | .nullConstant | .parameter | .tuple _ | .caseWhen .. => ""

/-- The lines of a form's parts, from the outlines of the parts. -/
def outlineParts : Form (List Line) → List Line
  | .identifier .. | .constant _ | .nullConstant | .variableName .. | .parameter => []
  | .operation _ args => args.flatten
  | .binary _ left right => left ++ right
  | .unary _ arg => arg
  | .call _ args _ => args.flatten
  | .between subject low high _ => subject ++ low ++ high
  | .tuple items => items.flatten
  | .select query =>
    role "targets" query.targets ++ role "from_table" query.source.toList ++
      role "where" query.condition.toList ++ role "group_by" query.groups ++
      role "having" query.having.toList ++ role "order_by" query.ordering ++
      role "limit" query.limit.toList ++ role "offset" query.offset.toList
  | .join left right _ condition => left ++ right ++ role "condition" condition.toList
  | .orderBy field _ _ => field
  | .typeCast _ arg => arg
  | .caseWhen rules default =>
    rules.flatMap (fun rule => role "when" [rule.1] ++ role "then" [rule.2]) ++
      role "else" default.toList

end Form

namespace Node

/-- The lines of a tree's outline. -/
def outlineLines : Node → List Line :=
  Node.fold fun form aliasName parentheses =>
    let decorations := flag "parentheses" parentheses ++ match aliasName with
      | some name => entry "alias" (Text.quoted name)
      | none => ""
    ⟨0, form.label ++ form.outlineHead ++ decorations⟩ :: indent form.outlineParts

/-- The outline of a tree, a line break after every line. -/
def outline (node : Node) : String :=
  String.join (node.outlineLines.map Line.print)

end Node

end SqlQuery
