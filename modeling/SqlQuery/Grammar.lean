import SqlQuery.Parser
import SqlQuery.Precedence

/-!
# Grammars

A grammar is a value that holds all that tells one dialect from another: the
rules of its tokens, the productions of its operands and sources, and the
ranks of its operators.  Grammars grow by addition only: rules are united with
those already there, and a production is tried after all others of its
symbol.

A production needs parsers for the expressions and queries inside it, and
those need the productions in turn.  The knot is tied one level of nesting at
a time: a production is given the parsers of the level below.
-/

namespace SqlQuery

/-- The parsers on which a production may call for what stands inside it. -/
structure Subparsers where
  /-- An expression whose operators bind at least as tightly as a given
  power. -/
  expression : Nat → Parser Node
  /-- A query from its first keyword on. -/
  select : Parser Node
  /-- A source with its alias. -/
  source : Parser Node

/-- The symbols that productions derive. -/
inductive Symbol where
  /-- An operand of an expression. -/
  | operand
  /-- A table or a query in its place. -/
  | source
deriving DecidableEq, Repr

def Symbol.label : Symbol → String
  | .operand => "Expr"
  | .source => "TableOrSubquery"

/-- One way to derive a symbol. -/
structure Production where
  symbol : Symbol
  name : String
  /-- Whether the production applies, by the kind of the first token. -/
  starts : TokenKind → Bool
  /-- Consumes the tokens of the production and builds its node. -/
  reduce : Subparsers → Parser Node

/-- The grammar of a dialect. -/
structure Grammar where
  name : String
  tokens : RuleSet
  productions : List Production
  precedence : PrecedenceTable

namespace Grammar

/-- The grammar with further token rules. -/
def withTokens (rules : RuleSet) (grammar : Grammar) : Grammar :=
  { grammar with tokens := grammar.tokens.union rules }

/-- The grammar with one more production, tried last. -/
def withProduction (production : Production) (grammar : Grammar) : Grammar :=
  { grammar with productions := grammar.productions ++ [production] }

/-- The productions of a symbol in the order in which they are tried. -/
def alternatives (grammar : Grammar) (symbol : Symbol) : List Production :=
  grammar.productions.filter (·.symbol == symbol)

/-- The production of a symbol that a token of the given kind starts. -/
def production? (grammar : Grammar) (symbol : Symbol) (kind : TokenKind) : Option Production :=
  (grammar.alternatives symbol).find? fun production => production.starts kind

/-- Derives a symbol with the first production that the token at the front
starts. -/
def derive (grammar : Grammar) (symbol : Symbol) (expected : String) (inner : Subparsers) :
    Parser Node := do
  match grammar.production? symbol (← Parser.current).kind with
  | some production => production.reduce inner
  | none => Parser.unexpected expected

end Grammar

end SqlQuery
