import SqlQuery.Grammar.Base

/-!
# Expressions, queries and statements

The parsers of a grammar.  Expressions are read by operator precedence: an
operand, then as long as an operator of sufficient left power follows, that
operator and what it takes on its right.  Queries are read clause by clause
in a fixed order.

Every parser is given the parsers of the level of nesting below and calls
them only after it has consumed a token.  A stream with `n` tokens ahead
therefore needs no more than `n + 1` levels.

## Main definitions

* `Grammar.subparsers` — the parsers that serve a number of levels.
* `Grammar.expression`, `Grammar.select`, `Grammar.source` — the parsers with
  as many levels as the stream may need.
* `Grammar.statement` — one statement up to the end of the input.
* `Grammar.parse` — the tree of a text.
-/

namespace SqlQuery

open SqlQuery.Parser

namespace Grammar

variable (grammar : Grammar) (inner : Subparsers)

/-! ## Expressions -/

/-- An operand, with the operators before it. -/
def operand : Parser Node := do
  let first ← current
  match first.kind.prefixClass?.bind grammar.precedence.prefixPower? with
  | some power =>
    let op ← advance
    let arg ← inner.expression power
    ofStructural (Node.unary? op.lexeme [arg])
  | none => grammar.derive .operand "expression" inner

/-- What stands to the right of `IN`: a list in parentheses, or an operand such
as a query in parentheses. -/
def membershipOperand (power : Nat) : Parser Node := do
  let listed := (← check .leftParen) && (← peek 1) != .keyword .SELECT
  if listed then
    let _ ← advance
    return .tuple (← Production.arguments inner)
  else
    inner.expression power

/-- The two bounds of a range test. -/
def rangeTest (subject : Node) (negated : Bool) (power : Nat) : Parser Node := do
  let low ← inner.expression power
  let _ ← expectKeyword .AND
  let high ← inner.expression power
  ofStructural (Node.between? negated [subject, low, high])

/-- Whether an operator is negated by a `NOT` before it, and its text as
written, a space between its two words. -/
def negatableOperator : Parser (Bool × String) := do
  let first ← advance
  if first.keyword? == some .NOT then
    let second ← advance
    return (true, first.lexeme ++ " " ++ second.lexeme)
  else
    return (false, first.lexeme)

/-- The operation with a given left operand whose operator is at the front. -/
def infixOperation (left : Node) (operator : OperatorClass) (power : Nat) : Parser Node := do
  match operator with
  | .identity =>
    let _ ← advance
    let op := if ← eatKeyword .NOT then "is not" else "is"
    return .binary op left (← inner.expression power)
  | .membership =>
    let (_, op) ← negatableOperator
    return .binary op left (← membershipOperand inner power)
  | .likeness =>
    let (_, op) ← negatableOperator
    return .binary op left (← inner.expression power)
  | .range =>
    let (negated, _) ← negatableOperator
    rangeTest inner left negated power
  | _ =>
    let op ← advance
    let right ← inner.expression power
    ofStructural (Node.binary? op.lexeme [left, right])

/-- Extends an expression by the operator that follows it, if its left power is
at least `least`. -/
def extendExpression (least : Nat) (left : Node) : Parser (Option Node) := do
  let first ← current
  match first.kind.infixClass? (← peek 1) with
  | none => return none
  | some operator =>
    match grammar.precedence.infixPower? operator with
    | none => return none
    | some power =>
      if power.left < least then return none
      else return some (← infixOperation inner left operator power.right)

/-- An expression whose operators have a left power of at least `least`. -/
def expressionWith (least : Nat) : Parser Node := do
  let first ← grammar.operand inner
  iterate (grammar.extendExpression inner least) first

/-! ## Sources -/

/-- A source with its alias. -/
def sourceWith : Parser Node := do
  applyAlias (← grammar.derive .source "table name or subquery" inner)

/-- The kind of join that a token introduces. -/
def joinKind? : TokenKind → Option JoinKind
  | .comma => some .comma
  | .keyword .JOIN => some .plain
  | .keyword .INNER_JOIN => some .inner
  | .keyword .LEFT_JOIN => some .left
  | .keyword .RIGHT_JOIN => some .right
  | .keyword .FULL_JOIN => some .full
  | .keyword .CROSS_JOIN => some .cross
  | _ => none

/-- The condition of a join, if one follows.  A comma takes none. -/
def joinCondition (kind : JoinKind) : Parser (Option Node) := do
  if kind == .comma then
    return none
  else if ← eatKeyword .ON then
    return some (← inner.expression 0)
  else
    return none

/-- Joins one more source to those before it, if a join follows. -/
def extendSources (left : Node) : Parser (Option Node) := do
  match joinKind? (← current).kind with
  | none => return none
  | some kind =>
    let _ ← advance
    let right ← inner.source
    let condition ← joinCondition inner kind
    return some (.ofForm (.join left right kind condition))

/-- Sources joined from left to right. -/
def sources : Parser Node := do
  iterate (extendSources inner) (← inner.source)

/-! ## Queries -/

/-- What a query selects: an expression with its alias. -/
def target : Parser Node := do
  applyAlias (← inner.expression 0)

/-- The direction of an entry of an ordering. -/
def direction : Parser Direction := do
  if ← eatKeyword .ASC then return .ascending
  else if ← eatKeyword .DESC then return .descending
  else return .unspecified

/-- The placement of nulls in an entry of an ordering. -/
def nullPlacement : Parser NullPlacement := do
  if ← eatKeyword .NULLS_FIRST then return .first
  else if ← eatKeyword .NULLS_LAST then return .last
  else return .unspecified

/-- An entry of an ordering. -/
def orderingEntry : Parser Node := do
  let field ← inner.expression 0
  let direction ← direction
  let nulls ← nullPlacement
  return .ofForm (.orderBy field direction nulls)

/-- A clause, if its keyword is at the front. -/
def clause {α : Type} (word : Keyword) (body : Parser α) : Parser (Option α) := do
  if ← eatKeyword word then return some (← body) else return none

/-- Whether a query asks for distinct rows.  `ALL` says that it does not. -/
def distinctness : Parser Bool := do
  if ← eatKeyword .DISTINCT then
    return true
  else
    let _ ← eatKeyword .ALL
    return false

/-- A query from its first keyword on. -/
def selectWith : Parser Node := do
  let _ ← expectKeyword .SELECT
  let distinct ← distinctness
  let targets ← commaSeparated (target inner)
  let query ← ofStructural (Query.ofTargets? targets)
  let source ← clause .FROM (sources inner)
  let condition ← clause .WHERE (inner.expression 0)
  let groups ← clause .GROUP_BY (commaSeparated (inner.expression 0))
  let having ← clause .HAVING (inner.expression 0)
  let ordering ← clause .ORDER_BY (commaSeparated (orderingEntry inner))
  let query ← ofStructural (query.withOrdering? (ordering.getD []))
  let limit ← clause .LIMIT (inner.expression 0)
  let offset ← clause .OFFSET (inner.expression 0)
  return .ofForm (.select
    { query with
      distinct := distinct
      source := source
      condition := condition
      groups := groups.getD []
      having := having
      limit := limit
      offset := offset })

/-! ## Levels of nesting -/

/-- The parsers that serve a number of levels of nesting. -/
def subparsers : Nat → Subparsers
  | 0 => ⟨fun _ => fail .tooDeep, fail .tooDeep, fail .tooDeep⟩
  | levels + 1 =>
    let inner := subparsers levels
    ⟨grammar.expressionWith inner, selectWith inner, grammar.sourceWith inner⟩

/-- The parsers with as many levels as a stream may need. -/
def subparsersFor (stream : TokenStream) : Subparsers :=
  grammar.subparsers (stream.ahead.length + 1)

/-- An expression whose operators have a left power of at least `least`. -/
def expression (least : Nat) : Parser Node := fun stream =>
  (grammar.subparsersFor stream).expression least stream

/-- A query from its first keyword on. -/
def select : Parser Node := fun stream =>
  (grammar.subparsersFor stream).select stream

/-- A source with its alias. -/
def source : Parser Node := fun stream =>
  (grammar.subparsersFor stream).source stream

/-! ## Statements -/

/-- A query in at most `limit - 1` pairs of parentheses. -/
def queryWithin : Nat → Parser Node
  | 0 => fail .tooDeep
  | limit + 1 => do
    if ← eat .leftParen then
      let query ← queryWithin limit
      let _ ← expect .rightParen
      return query.withParentheses true
    else
      grammar.select

/-- A query in any number of pairs of parentheses. -/
def query : Parser Node := fun stream =>
  grammar.queryWithin (stream.ahead.length + 1) stream

/-- One statement: a query, a semicolon if there is one, and the end of the
input. -/
def statement : Parser Node := do
  let node ← grammar.query
  let _ ← eat .semicolon
  if (← current).kind.isFinish then return node else unexpected "end of input"

/-- The tree of a text. -/
def parse (source : String) : Except ParseError Node :=
  match grammar.tokens.tokenize source with
  | .error e => .error (.lexical e)
  | .ok stream =>
    match grammar.statement stream with
    | .ok node _ => .ok node
    | .fail e _ => .error e

/-! ## What the parsers depend on

The name of a grammar and the rules of its tokens do not change what it makes
of tokens.
-/

section Congruence

variable {a b : Grammar}

theorem subparsers_congr (hProductions : a.productions = b.productions)
    (hPrecedence : a.precedence = b.precedence) (levels : Nat) :
    a.subparsers levels = b.subparsers levels := by
  obtain ⟨name, tokens, productions, precedence⟩ := a
  cases hProductions
  cases hPrecedence
  induction levels with
  | zero => rfl
  | succ levels ih =>
    rw [subparsers, subparsers, ih]
    rfl

theorem queryWithin_congr (hProductions : a.productions = b.productions)
    (hPrecedence : a.precedence = b.precedence) (limit : Nat) :
    a.queryWithin limit = b.queryWithin limit := by
  have hSelect : a.select = b.select := by
    funext stream
    rw [select, select, subparsersFor, subparsersFor, subparsers_congr hProductions hPrecedence]
  induction limit with
  | zero => rfl
  | succ limit ih => rw [queryWithin, queryWithin, ih, hSelect]

theorem statement_congr (hProductions : a.productions = b.productions)
    (hPrecedence : a.precedence = b.precedence) : a.statement = b.statement := by
  have hQuery : a.query = b.query := by
    funext stream
    rw [query, query, queryWithin_congr hProductions hPrecedence]
  rw [statement, statement, hQuery]

end Congruence

end Grammar

end SqlQuery
