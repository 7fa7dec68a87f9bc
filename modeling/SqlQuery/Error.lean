import SqlQuery.Token

/-!
# Errors

What can go wrong between a query text and its tree, by cause.  Each cause
has one message; the position that a message ends with is the span of the
offending text.
-/

namespace SqlQuery

/-- A failure to divide a text into tokens. -/
inductive LexicalError where
  /-- No rule recognises the text here, or the rule that does rejects it. -/
  | unrecognized (fragment : String) (span : Span)
  /-- A rule matched the empty text, so that reading would never move on from
  this position. -/
  | stalled (position : Nat)
deriving DecidableEq, Repr

namespace LexicalError

def span : LexicalError → Span
  | .unrecognized _ span => span
  | .stalled position => ⟨position, position⟩

def message : LexicalError → String
  | .unrecognized fragment span =>
    "unrecognized input \x60" ++ fragment ++ "\x60 at position " ++ span.describe
  | .stalled position => "no progress at position " ++ toString position

end LexicalError

/-- A sequence of tokens that no statement begins with. -/
inductive SyntaxError where
  /-- Something else than the token found was expected. -/
  | unexpected (expected : String) (found : TokenKind) (span : Span)
  /-- A failure in words of its own. -/
  | described (text : String) (span : Span)
deriving DecidableEq, Repr

namespace SyntaxError

def span : SyntaxError → Span
  | .unexpected _ _ span => span
  | .described _ span => span

def expected? : SyntaxError → Option String
  | .unexpected expected _ _ => some expected
  | .described .. => none

def found? : SyntaxError → Option TokenKind
  | .unexpected _ found _ => some found
  | .described .. => none

/-- The message without its position. -/
def text : SyntaxError → String
  | .unexpected expected .finish _ => "Unexpected end of input: expected " ++ expected
  | .unexpected expected found _ =>
    "Unexpected token: expected " ++ expected ++ ", found " ++ found.describe
  | .described text _ => text

def message (e : SyntaxError) : String :=
  e.text ++ " at position " ++ e.span.describe

end SyntaxError

/-- A node that would be malformed. -/
inductive StructuralError where
  /-- The wrong number of operands for a form of node. -/
  | arity (node expected : String) (found : Nat)
  /-- A query without anything to select. -/
  | emptyTargets
  /-- An entry of an ordering that is of another form. -/
  | notAnOrdering (form : String)
deriving DecidableEq, Repr

def StructuralError.message : StructuralError → String
  | .arity node expected found =>
    node ++ " takes " ++ expected ++ " argument(s), got " ++ toString found
  | .emptyTargets => "Select requires at least one target"
  | .notAnOrdering form => "ORDER BY list entries must be OrderBy nodes, got " ++ form

/-- Any failure to parse a text. -/
inductive ParseError where
  | lexical (error : LexicalError)
  | grammatical (error : SyntaxError)
  | structural (error : StructuralError)
  /-- A production called for itself without consuming a token. -/
  | tooDeep
deriving DecidableEq, Repr

namespace ParseError

/-- The place of the failure in the text, if it has one. -/
def span? : ParseError → Option Span
  | .lexical e => some e.span
  | .grammatical e => some e.span
  | .structural _ => none
  | .tooDeep => none

def message : ParseError → String
  | .lexical e => e.message
  | .grammatical e => e.message
  | .structural e => e.message
  | .tooDeep => "the grammar recurs without consuming a token"

end ParseError

end SqlQuery
