import SqlQuery.Grammar

/-!
# The productions that every dialect shares

Operands are literals, placeholders, columns and calls, the star, whatever
stands in parentheses, casts and case distinctions.  Sources are tables and
queries in parentheses.
-/

namespace SqlQuery

open SqlQuery.Parser

namespace Production

/-- A number or a text. -/
def literal : Production where
  symbol := .operand
  name := "literal"
  starts
    | .integer _ | .float _ | .text _ => true
    | _ => false
  reduce _ := do
    match (← current).kind with
    | .integer value =>
      let _ ← advance
      return .constant (.integer value)
    | .float value =>
      let _ ← advance
      return .constant (.float value)
    | .text value =>
      let _ ← advance
      return .constant (.text value)
    | _ => unexpected "literal"

/-- `NULL`, `TRUE` or `FALSE`. -/
def keywordLiteral : Production where
  symbol := .operand
  name := "keyword_literal"
  starts
    | .keyword .NULL | .keyword .TRUE | .keyword .FALSE => true
    | _ => false
  reduce _ := do
    match (← current).keyword? with
    | some .NULL =>
      let _ ← advance
      return .null
    | some .TRUE =>
      let _ ← advance
      return .constant (.boolean true)
    | some .FALSE =>
      let _ ← advance
      return .constant (.boolean false)
    | _ => unexpected "NULL, TRUE or FALSE"

/-- A placeholder. -/
def placeholder : Production where
  symbol := .operand
  name := "parameter"
  starts kind := kind matches .question
  reduce _ := do
    let _ ← expect .question
    return .parameter

/-- Expressions with commas between them, up to a closing parenthesis, or
none. -/
def arguments (inner : Subparsers) : Parser (List Node) := do
  let items ←
    if ← check .rightParen then pure [] else commaSeparated (inner.expression 0)
  let _ ← expect .rightParen
  return items

/-- A column, or a call if a parenthesis follows a name without quotes. -/
def columnOrCall : Production where
  symbol := .operand
  name := "column_or_function"
  starts kind := kind.isIdentifier
  reduce inner := do
    match (← advance).kind with
    | .identifier value quote =>
      if quote.isSome then
        return .identifier value quote
      else if ← eat .leftParen then
        let distinct ← eatKeyword .DISTINCT
        let args ← arguments inner
        return .call value args distinct
      else
        return .identifier value none
    | _ => unexpected "identifier"

/-- The star in place of a list of columns. -/
def everything : Production where
  symbol := .operand
  name := "star"
  starts kind := kind matches .star
  reduce _ := do
    let _ ← expect .star
    return .identifier "*" none

/-- A query, a list of two or more expressions, or an expression, in
parentheses. -/
def parenthesized : Production where
  symbol := .operand
  name := "parenthesized"
  starts kind := kind matches .leftParen
  reduce inner := do
    let _ ← expect .leftParen
    if ← checkKeyword .SELECT then
      let query ← inner.select
      let _ ← expect .rightParen
      return query.withParentheses true
    else
      let first ← inner.expression 0
      if ← check .comma then
        let further ← furtherItems (inner.expression 0)
        let _ ← expect .rightParen
        return .tuple (first :: further)
      else
        let _ ← expect .rightParen
        return first.withParentheses true

/-- The first word of a type's name.  One in quotes keeps them. -/
def typeWord : Parser String := do
  match (← current).kind with
  | .identifier value (some quote) =>
    let _ ← advance
    return quote.toString ++ value ++ quote.toString
  | .identifier value none =>
    let _ ← advance
    return value
  | _ => unexpected "type name"

/-- A further word of a type's name, if an identifier without quotes
follows. -/
def furtherTypeWord : Parser (Option String) := do
  match (← current).kind with
  | .identifier value none =>
    let _ ← advance
    return some value
  | _ => return none

/-- A size of a type. -/
def typeSize : Parser String := do
  match (← current).kind with
  | .integer value =>
    let _ ← advance
    return toString value.toInt
  | _ => unexpected "type size"

/-- The name of a type: one or more words, and sizes in parentheses if there
are any. -/
def typeName : Parser String := do
  let first ← typeWord
  let further ← collect furtherTypeWord
  let name := " ".intercalate (first :: further)
  if ← eat .leftParen then
    let sizes ← commaSeparated typeSize
    let _ ← expect .rightParen
    return name ++ "(" ++ ", ".intercalate sizes ++ ")"
  else
    return name

/-- `CAST ( expression AS type )`. -/
def typeCast : Production where
  symbol := .operand
  name := "cast"
  starts kind := kind matches .keyword .CAST
  reduce inner := do
    let _ ← expectKeyword .CAST
    let _ ← expect .leftParen
    let arg ← inner.expression 0
    let _ ← expectKeyword .AS
    let name ← typeName
    let _ ← expect .rightParen
    return .ofForm (.typeCast name arg)

/-- A rule of a case distinction, if one follows. -/
def caseRule (inner : Subparsers) : Parser (Option (Node × Node)) := do
  if ← eatKeyword .WHEN then
    let condition ← inner.expression 0
    let _ ← expectKeyword .THEN
    let result ← inner.expression 0
    return some (condition, result)
  else
    return none

/-- What a case distinction gives when no rule applies, if it says so. -/
def caseDefault (inner : Subparsers) : Parser (Option Node) := do
  if ← eatKeyword .ELSE then
    return some (← inner.expression 0)
  else
    return none

/-- `CASE WHEN condition THEN result ... [ELSE default] END`. -/
def caseWhen : Production where
  symbol := .operand
  name := "case"
  starts kind := kind matches .keyword .CASE
  reduce inner := do
    let _ ← expectKeyword .CASE
    if ← checkKeyword .WHEN then
      let rules ← collect (caseRule inner)
      let default ← caseDefault inner
      let _ ← expectKeyword .END
      ofStructural (Node.caseWhen? rules default)
    else
      unexpected "WHEN"

/-- A table by its name. -/
def tableName : Production where
  symbol := .source
  name := "table_name"
  starts kind := kind.isIdentifier
  reduce _ := do
    match (← advance).kind with
    | .identifier value quote => return .identifier value quote
    | _ => unexpected "table name"

/-- A query in parentheses as a source. -/
def subquery : Production where
  symbol := .source
  name := "subquery"
  starts kind := kind matches .leftParen
  reduce inner := do
    let _ ← expect .leftParen
    let query ← inner.select
    let _ ← expect .rightParen
    return query.withParentheses true

/-- The productions of every grammar, in the order in which they are tried. -/
def base : List Production :=
  [ literal, keywordLiteral, placeholder, columnOrCall, everything, parenthesized, typeCast,
    caseWhen, tableName, subquery ]

end Production

namespace Grammar

/-- The grammar that dialects build upon, under a name. -/
def base (name : String) : Grammar :=
  { name := name
    tokens := .base
    productions := Production.base
    precedence := .base }

end Grammar

end SqlQuery
