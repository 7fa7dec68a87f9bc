import SqlQuery.Keyword
import SqlQuery.Number.Style
import SqlQuery.Span
import SqlQuery.Text.Quoted

/-!
# Tokens

A token is what the lexer makes of a stretch of text: its kind, which carries
the value of a literal or the name of an identifier, the bytes it was read
from, and the text of these bytes.
-/

namespace SqlQuery

/-- How floating-point literals are written in queries, outlines and messages:
positionally from `10 ^ -4` up to `10 ^ 16`, always with a fraction or an
exponent, a tie going to the larger magnitude. -/
def literalStyle : Number.Style :=
  { tie := .up
    leastPlace := -4
    plus := ""
    nan := "NaN"
    infinity := "inf"
    negativeInfinity := "-inf" }

/-- What a token stands for. -/
inductive TokenKind where
  | integer (value : Int64)
  | float (value : Number.Binary64)
  /-- A quoted text, without its quotes. -/
  | text (value : String)
  /-- A name, possibly dotted, without quote characters; `quote` is set when
  some part of it was quoted. -/
  | identifier (value : String) (quote : Option Char)
  | keyword (word : Keyword)
  /-- A user variable, without its sign. -/
  | userVariable (name : String)
  /-- A system variable, without its signs. -/
  | systemVariable (name : String)
  | plus | minus | star | slash | percent
  | equal | notEqual | less | lessEqual | greater | greaterEqual
  /-- Two bars, which join texts. -/
  | concat
  | leftParen | rightParen | comma | semicolon | question
  /-- The end of the input. -/
  | finish
deriving DecidableEq, Repr

namespace TokenKind

/-- Whether two kinds agree up to the value they carry.  All keywords agree
with each other in this sense. -/
def sameForm (a b : TokenKind) : Bool :=
  a.ctorIdx == b.ctorIdx

def isFinish (kind : TokenKind) : Bool :=
  kind matches .finish

def isIdentifier (kind : TokenKind) : Bool :=
  kind matches .identifier ..

/-- The name of the kind without the value it carries. -/
def label : TokenKind → String
  | .integer _ => "Integer"
  | .float _ => "Float"
  | .text _ => "String"
  | .identifier .. => "Identifier"
  | .keyword _ => "Keyword"
  | .userVariable _ => "Variable"
  | .systemVariable _ => "SystemVariable"
  | .plus => "Plus"
  | .minus => "Minus"
  | .star => "Star"
  | .slash => "Slash"
  | .percent => "Percent"
  | .equal => "Eq"
  | .notEqual => "NotEq"
  | .less => "Lt"
  | .lessEqual => "LtEq"
  | .greater => "Gt"
  | .greaterEqual => "GtEq"
  | .concat => "Concat"
  | .leftParen => "LeftParen"
  | .rightParen => "RightParen"
  | .comma => "Comma"
  | .semicolon => "Semicolon"
  | .question => "Question"
  | .finish => "Eof"

/-- The kinds that carry no value. -/
def plain : List TokenKind :=
  [ .plus, .minus, .star, .slash, .percent, .equal, .notEqual, .less, .lessEqual, .greater,
    .greaterEqual, .concat, .leftParen, .rightParen, .comma, .semicolon, .question, .finish ]

/-- The kind with a given label, among those that carry no value. -/
def ofLabel? (name : String) : Option TokenKind :=
  plain.find? fun kind => kind.label == name

/-- The kind and the value it carries, as messages show them. -/
def describe (kind : TokenKind) : String :=
  match kind with
  | .integer value => kind.label ++ "(" ++ toString value.toInt ++ ")"
  | .float value => kind.label ++ "(" ++ literalStyle.text value ++ ")"
  | .text value => kind.label ++ "(" ++ Text.quoted value ++ ")"
  | .identifier value quote =>
    let quoteText := match quote with
      | some c => "Some(" ++ Text.quotedChar c ++ ")"
      | none => "None"
    kind.label ++ " \x7b value: " ++ Text.quoted value ++ ", quote: " ++ quoteText ++ " \x7d"
  | .keyword word => kind.label ++ "(" ++ word.label ++ ")"
  | .userVariable name => kind.label ++ "(" ++ Text.quoted name ++ ")"
  | .systemVariable name => kind.label ++ "(" ++ Text.quoted name ++ ")"
  | _ => kind.label

end TokenKind

/-- A token in its place. -/
structure Token where
  kind : TokenKind
  span : Span
  /-- The text the token was read from. -/
  lexeme : String
deriving DecidableEq, Repr

namespace Token

/-- The keyword that the token is, if it is one. -/
def keyword? (token : Token) : Option Keyword :=
  match token.kind with
  | .keyword word => some word
  | _ => none

end Token

end SqlQuery
