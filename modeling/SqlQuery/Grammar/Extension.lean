import SqlQuery.Grammar.Base

/-!
# Productions for trying out extensions

Three reductions that make a production out of any test on its first token.
They build nothing of their own kind, so a grammar can be extended by them
without a new form of node.
-/

namespace SqlQuery

open SqlQuery.Parser

namespace Production

/-- Any one token, read as the null literal. -/
def reduceNull (_ : Subparsers) : Parser Node := do
  let _ ← advance
  return .null

/-- Any one token, read as a name that is the token's text. -/
def reduceVerbatim (_ : Subparsers) : Parser Node := do
  let token ← advance
  return .identifier token.lexeme none

/-- Any one token, then one or more expressions with commas between them, then
a token of the same form again; read as a list of the expressions. -/
def reduceDelimited (inner : Subparsers) : Parser Node := do
  let opening ← advance
  let items ← commaSeparated (inner.expression 0)
  let _ ← expect opening.kind
  return .tuple items

end Production

end SqlQuery
