import SqlQuery.Node.Construction
import SqlQuery.Token.Lexer

/-!
# Parsers

A parser looks at the tokens ahead and replies with a value and the tokens
after it, or with an error.  A failure also says how far the parser came, for
nothing is taken back: a choice is made by looking at one or two tokens and
then stands.

Repetition is bounded by the number of tokens ahead.  A step of a repetition
consumes a token before it goes on, so the bound is never reached by parsers
that only move forward.
-/

namespace SqlQuery

/-- The outcome of a parser, with the tokens left over. -/
inductive Reply (α : Type) where
  | ok (value : α) (rest : TokenStream)
  | fail (error : ParseError) (rest : TokenStream)

/-- A computation that reads tokens. -/
def Parser (α : Type) : Type := TokenStream → Reply α

namespace TokenStream

/-- The token at the front; at the end, the token of the end. -/
def current (stream : TokenStream) : Token :=
  stream.ahead.headD stream.last

/-- The kind of the token `n` places ahead; past the end, that of the end. -/
def peek (n : Nat) (stream : TokenStream) : TokenKind :=
  (stream.ahead[n]?.getD stream.last).kind

/-- The stream after the token at the front; the end is never passed. -/
def advance (stream : TokenStream) : TokenStream :=
  { stream with ahead := stream.ahead.tail }

end TokenStream

namespace Parser

variable {α β : Type}

protected def pure (value : α) : Parser α := fun stream => .ok value stream

protected def bind (first : Parser α) (next : α → Parser β) : Parser β := fun stream =>
  match first stream with
  | .ok value rest => next value rest
  | .fail error rest => .fail error rest

instance : Monad Parser where
  pure := Parser.pure
  bind := Parser.bind

@[simp] theorem pure_apply (value : α) (stream : TokenStream) :
    (pure value : Parser α) stream = .ok value stream := rfl

theorem bind_apply (first : Parser α) (next : α → Parser β) (stream : TokenStream) :
    (first >>= next) stream =
      match first stream with
      | .ok value rest => next value rest
      | .fail error rest => .fail error rest := rfl

/-! ## Looking at and consuming tokens -/

/-- Fails where the parser stands. -/
def fail (error : ParseError) : Parser α := fun stream => .fail error stream

/-- The token at the front. -/
def current : Parser Token := fun stream => .ok stream.current stream

/-- The kind of the token `n` places ahead. -/
def peek (n : Nat) : Parser TokenKind := fun stream => .ok (stream.peek n) stream

/-- Consumes the token at the front.  The end of the input stays where it
is. -/
def advance : Parser Token := fun stream => .ok stream.current stream.advance

/-- Fails because the token at the front is not what was expected. -/
def unexpected (expected : String) : Parser α := fun stream =>
  .fail (.grammatical (.unexpected expected stream.current.kind stream.current.span)) stream

/-- Gives the value, or fails with the error of a malformed node. -/
def ofStructural : Except StructuralError α → Parser α
  | .ok value => pure value
  | .error e => fail (.structural e)

/-- Whether the token at the front has the form of `kind`. -/
def check (kind : TokenKind) : Parser Bool := do
  return (← current).kind.sameForm kind

/-- Whether the token at the front is a given keyword. -/
def checkKeyword (word : Keyword) : Parser Bool := do
  return (← current).keyword? == some word

/-- Consumes the token at the front if it passes a test, and says whether it
did. -/
def eatIf (test : Parser Bool) : Parser Bool := do
  if ← test then
    let _ ← advance
    return true
  else
    return false

/-- Consumes a token of the form of `kind`, if one is at the front. -/
def eat (kind : TokenKind) : Parser Bool := eatIf (check kind)

/-- Consumes a given keyword, if it is at the front. -/
def eatKeyword (word : Keyword) : Parser Bool := eatIf (checkKeyword word)

/-- Consumes a token of the form of `kind` and fails on any other. -/
def expect (kind : TokenKind) : Parser Token := do
  if ← check kind then advance else unexpected kind.describe

/-- Consumes a given keyword and fails on any other token. -/
def expectKeyword (word : Keyword) : Parser Token := do
  if ← checkKeyword word then advance else unexpected word.spelling

/-- Consumes an identifier, gives its name and fails on any other token. -/
def expectIdentifier : Parser String := do
  match (← current).kind with
  | .identifier value _ =>
    let _ ← advance
    return value
  | _ => unexpected "identifier"

/-! ## Repetition -/

/-- Repeats a step until it gives nothing, at most `limit` times. -/
def iterateWithin (step : α → Parser (Option α)) : Nat → α → Parser α
  | 0, _ => fail .tooDeep
  | limit + 1, value => do
    match ← step value with
    | some further => iterateWithin step limit further
    | none => return value

/-- Repeats a step from a value until it gives nothing. -/
def iterate (step : α → Parser (Option α)) (value : α) : Parser α := fun stream =>
  iterateWithin step (stream.ahead.length + 1) value stream

/-- Collects what a step gives until it gives nothing, at most `limit`
times. -/
def collectWithin (step : Parser (Option α)) : Nat → Parser (List α)
  | 0 => fail .tooDeep
  | limit + 1 => do
    match ← step with
    | some value => return value :: (← collectWithin step limit)
    | none => return []

/-- Collects what a step gives until it gives nothing. -/
def collect (step : Parser (Option α)) : Parser (List α) := fun stream =>
  collectWithin step (stream.ahead.length + 1) stream

/-- The items that follow with a comma before each. -/
def furtherItems (item : Parser α) : Parser (List α) :=
  collect do
    if ← eat .comma then return some (← item) else return none

/-- One or more items with commas between them. -/
def commaSeparated (item : Parser α) : Parser (List α) := do
  let first ← item
  return first :: (← furtherItems item)

/-! ## Aliases -/

/-- An alias, introduced by `AS` or standing bare as an identifier. -/
def optionalAlias : Parser (Option String) := do
  if ← eatKeyword .AS then
    return some (← expectIdentifier)
  else if (← current).kind.isIdentifier then
    return some (← expectIdentifier)
  else
    return none

/-- The node with the alias that follows it, if there is one. -/
def applyAlias (node : Node) : Parser Node := do
  match ← optionalAlias with
  | some aliasName => return node.withAlias aliasName
  | none => return node

end Parser

end SqlQuery
