import SqlQuery.Text.Word

/-!
# Keywords

The reserved words of the query language.  Some are phrases of two words,
such as `GROUP BY`; a phrase is one keyword, and the lexer reads it as one
token.  A single word is recognised in any mixture of case.
-/

namespace SqlQuery

/-- A reserved word or phrase. -/
inductive Keyword where
  | SELECT | DISTINCT | ALL | FROM | WHERE | GROUP_BY | HAVING | ORDER_BY | LIMIT | OFFSET | AS | ON
  | JOIN | INNER_JOIN | LEFT_JOIN | RIGHT_JOIN | FULL_JOIN | CROSS_JOIN
  | AND | OR | NOT | IN | IS | LIKE | BETWEEN
  | NULL | TRUE | FALSE
  | ASC | DESC | NULLS_FIRST | NULLS_LAST
  | CAST | CASE | WHEN | THEN | ELSE | END
deriving DecidableEq, Repr

namespace Keyword

/-- Every keyword once. -/
def all : List Keyword :=
  [ .SELECT, .DISTINCT, .ALL, .FROM, .WHERE, .GROUP_BY, .HAVING, .ORDER_BY, .LIMIT, .OFFSET,
    .AS, .ON, .JOIN, .INNER_JOIN, .LEFT_JOIN, .RIGHT_JOIN, .FULL_JOIN, .CROSS_JOIN, .AND, .OR,
    .NOT, .IN, .IS, .LIKE, .BETWEEN, .NULL, .TRUE, .FALSE, .ASC, .DESC, .NULLS_FIRST,
    .NULLS_LAST, .CAST, .CASE, .WHEN, .THEN, .ELSE, .END ]

theorem mem_all (k : Keyword) : k ∈ all := by
  cases k <;> decide

/-- The words of the keyword, in upper case. -/
def words : Keyword → List String
  | .SELECT => ["SELECT"]
  | .DISTINCT => ["DISTINCT"]
  | .ALL => ["ALL"]
  | .FROM => ["FROM"]
  | .WHERE => ["WHERE"]
  | .GROUP_BY => ["GROUP", "BY"]
  | .HAVING => ["HAVING"]
  | .ORDER_BY => ["ORDER", "BY"]
  | .LIMIT => ["LIMIT"]
  | .OFFSET => ["OFFSET"]
  | .AS => ["AS"]
  | .ON => ["ON"]
  | .JOIN => ["JOIN"]
  | .INNER_JOIN => ["INNER", "JOIN"]
  | .LEFT_JOIN => ["LEFT", "JOIN"]
  | .RIGHT_JOIN => ["RIGHT", "JOIN"]
  | .FULL_JOIN => ["FULL", "JOIN"]
  | .CROSS_JOIN => ["CROSS", "JOIN"]
  | .AND => ["AND"]
  | .OR => ["OR"]
  | .NOT => ["NOT"]
  | .IN => ["IN"]
  | .IS => ["IS"]
  | .LIKE => ["LIKE"]
  | .BETWEEN => ["BETWEEN"]
  | .NULL => ["NULL"]
  | .TRUE => ["TRUE"]
  | .FALSE => ["FALSE"]
  | .ASC => ["ASC"]
  | .DESC => ["DESC"]
  | .NULLS_FIRST => ["NULLS", "FIRST"]
  | .NULLS_LAST => ["NULLS", "LAST"]
  | .CAST => ["CAST"]
  | .CASE => ["CASE"]
  | .WHEN => ["WHEN"]
  | .THEN => ["THEN"]
  | .ELSE => ["ELSE"]
  | .END => ["END"]

/-- The canonical spelling: the words with one space between them. -/
def spelling (k : Keyword) : String :=
  " ".intercalate k.words

/-- The name by which messages and documents refer to the keyword. -/
def label : Keyword → String
  | .SELECT => "Select"
  | .DISTINCT => "Distinct"
  | .ALL => "All"
  | .FROM => "From"
  | .WHERE => "Where"
  | .GROUP_BY => "GroupBy"
  | .HAVING => "Having"
  | .ORDER_BY => "OrderBy"
  | .LIMIT => "Limit"
  | .OFFSET => "Offset"
  | .AS => "As"
  | .ON => "On"
  | .JOIN => "Join"
  | .INNER_JOIN => "InnerJoin"
  | .LEFT_JOIN => "LeftJoin"
  | .RIGHT_JOIN => "RightJoin"
  | .FULL_JOIN => "FullJoin"
  | .CROSS_JOIN => "CrossJoin"
  | .AND => "And"
  | .OR => "Or"
  | .NOT => "Not"
  | .IN => "In"
  | .IS => "Is"
  | .LIKE => "Like"
  | .BETWEEN => "Between"
  | .NULL => "Null"
  | .TRUE => "True"
  | .FALSE => "False"
  | .ASC => "Asc"
  | .DESC => "Desc"
  | .NULLS_FIRST => "NullsFirst"
  | .NULLS_LAST => "NullsLast"
  | .CAST => "Cast"
  | .CASE => "Case"
  | .WHEN => "When"
  | .THEN => "Then"
  | .ELSE => "Else"
  | .END => "End"

/-- The keyword that consists of one given word, in any case.  A phrase is
never found here. -/
def ofWord? (word : List Char) : Option Keyword :=
  all.find? fun k => match k.words with
    | [single] => Text.sameWord single.toList word
    | _ => false

/-- The keyword with a given label. -/
def ofLabel? (name : String) : Option Keyword :=
  all.find? fun k => k.label == name

end Keyword

end SqlQuery
