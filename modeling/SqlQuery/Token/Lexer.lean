import SqlQuery.Error
import SqlQuery.Token.RuleSet

/-!
# Division of a text into tokens

Between tokens stand blanks and comments: `--` up to the end of the line, and
`/*` up to `*/` or, where that is missing, up to the end of the text.  At the
first character of anything else the rules are tried in order.  The first
rule whose pattern matches decides: it yields the token, or it rejects the
text, and no later rule is asked.

A lexer is the text still to be read together with its position.  After a
failure it stands before the offending text, so asking again gives the same
answer.

## Main definitions

* `Lexer.next` — one token, and the lexer after it.
* `Lexer.tokenize` — all tokens up to the end of the text.
-/

namespace SqlQuery

/-! ## Blanks and comments -/

namespace Text

mutual

/-- The number of characters in the blanks and comments that a text starts
with. -/
def gapLength : List Char → Nat
  | [] => 0
  | '-' :: '-' :: cs => lineCommentLength cs + 2
  | '/' :: '*' :: cs => blockCommentLength cs + 2
  | c :: cs => if isBlank c then gapLength cs + 1 else 0

/-- The number of characters in the rest of a line comment and the gap behind
it. -/
def lineCommentLength : List Char → Nat
  | [] => 0
  | c :: cs => (if c == '\n' then gapLength cs else lineCommentLength cs) + 1

/-- The number of characters in the rest of a block comment and the gap behind
it. -/
def blockCommentLength : List Char → Nat
  | [] => 0
  | '*' :: '/' :: cs => gapLength cs + 2
  | _ :: cs => blockCommentLength cs + 1

end

end Text

/-! ## One token at a time -/

/-- A text that is being read with a set of rules. -/
structure Lexer where
  rules : RuleSet
  /-- The text still to be read. -/
  rest : List Char
  /-- The number of bytes read so far. -/
  position : Nat

namespace Lexer

/-- A lexer at the beginning of a text. -/
def start (rules : RuleSet) (source : String) : Lexer :=
  ⟨rules, source.toList, 0⟩

/-- The lexer after the first `length` characters of the rest. -/
def advance (lexer : Lexer) (length : Nat) : Lexer :=
  { lexer with
    rest := lexer.rest.drop length
    position := lexer.position + Text.byteLength (lexer.rest.take length) }

/-- The lexer after the blanks and comments at its position. -/
def skip (lexer : Lexer) : Lexer :=
  lexer.advance (Text.gapLength lexer.rest)

/-- The span of a text that begins at the lexer's position. -/
def spanOf (lexer : Lexer) (cs : List Char) : Span :=
  ⟨lexer.position, lexer.position + Text.byteLength cs⟩

/-- The text that the first matching rule takes, and what it makes of it. -/
def firstMatch? (lexer : Lexer) : Option (List Char × Option TokenKind) :=
  lexer.rules.rules.findSome? fun rule => rule.match? lexer.rest

/-- The token at the lexer's position, where neither blank nor comment stands,
and the lexer after it. -/
def read (lexer : Lexer) : Except LexicalError Token × Lexer :=
  if lexer.rest.isEmpty then (.ok ⟨.finish, lexer.spanOf [], ""⟩, lexer)
  else
    match lexer.firstMatch? with
    | some (lexeme, some kind) =>
      (.ok ⟨kind, lexer.spanOf lexeme, String.ofList lexeme⟩, lexer.advance lexeme.length)
    | some (lexeme, none) =>
      (.error (.unrecognized (String.ofList lexeme) (lexer.spanOf lexeme)), lexer)
    | none =>
      let fragment := Text.firstWord lexer.rest
      (.error (.unrecognized (String.ofList fragment) (lexer.spanOf fragment)), lexer)

/-- The next token and the lexer after it.  At the end of the text the token is
the end of the input, again and again. -/
def next (lexer : Lexer) : Except LexicalError Token × Lexer :=
  lexer.skip.read

end Lexer

/-! ## All tokens of a text -/

/-- The tokens of a text: those before the end of the input, and the token of
the end itself. -/
structure TokenStream where
  ahead : List Token
  last : Token
deriving DecidableEq, Repr

namespace TokenStream

/-- All tokens, the end included. -/
def toList (stream : TokenStream) : List Token :=
  stream.ahead ++ [stream.last]

/-- The stream with one more token in front. -/
def cons (token : Token) (stream : TokenStream) : TokenStream :=
  { stream with ahead := token :: stream.ahead }

end TokenStream

namespace Lexer

/-- The tokens that `limit` readings find. -/
def tokenizeWithin : Nat → Lexer → Except LexicalError TokenStream
  | 0, lexer => .error (.stalled lexer.position)
  | limit + 1, lexer =>
    match lexer.next with
    | (.error e, _) => .error e
    | (.ok token, after) =>
      if token.kind.isFinish then .ok ⟨[], token⟩
      else (tokenizeWithin limit after).map (TokenStream.cons token)

/-- All tokens of the rest of the text.  A token takes at least one character
unless a rule matches the empty text, so one reading more than there are
characters reaches the end. -/
def tokenize (lexer : Lexer) : Except LexicalError TokenStream :=
  lexer.tokenizeWithin (lexer.rest.length + 1)

end Lexer

namespace RuleSet

/-- The tokens of a text under a set of rules. -/
def tokenize (rules : RuleSet) (source : String) : Except LexicalError TokenStream :=
  (Lexer.start rules source).tokenize

end RuleSet

end SqlQuery
