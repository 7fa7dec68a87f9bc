import SqlQuery.Token.Name
import SqlQuery.Token.Rule

/-!
# Sets of token rules

The rules of a lexer in the order in which they are tried: by falling
priority, rules of equal priority in the order in which they came in.  Two
sets are united by name.  A rule of the second set takes the place of its
namesake in the first; a rule with a new name goes to the end; then the rules
are put in order again.
-/

namespace SqlQuery

/-- Rules in matching order. -/
structure RuleSet where
  rules : List TokenRule

namespace RuleSet

/-- The set without rules. -/
def empty : RuleSet := ⟨[]⟩

/-- Replaces the first rule of the same name, or appends. -/
def place (rules : List TokenRule) (rule : TokenRule) : List TokenRule :=
  match rules with
  | [] => [rule]
  | other :: rest => if other.name == rule.name then rule :: rest else other :: place rest rule

/-- Puts a rule before the first one of the same or a lower priority. -/
def insertByPriority (rule : TokenRule) : List TokenRule → List TokenRule
  | [] => [rule]
  | other :: rest =>
    if other.priority ≤ rule.priority then rule :: other :: rest
    else other :: insertByPriority rule rest

/-- The rules by falling priority; equal priorities keep their order. -/
def byPriority : List TokenRule → List TokenRule
  | [] => []
  | rule :: rest => insertByPriority rule (byPriority rest)

/-- The rules of both sets, those of `b` prevailing. -/
def union (a b : RuleSet) : RuleSet :=
  ⟨byPriority (b.rules.foldl place a.rules)⟩

/-- The set of the given rules; of two namesakes the later one stays, in the
place of the earlier one. -/
def ofRules (rules : List TokenRule) : RuleSet :=
  empty.union ⟨rules⟩

/-- The rule with a given name. -/
def find? (set : RuleSet) (name : String) : Option TokenRule :=
  set.rules.find? fun rule => rule.name == name

/-- The number of rules. -/
def size (set : RuleSet) : Nat := set.rules.length

/-- Whether a word is the first of a phrase, so that the word would be read as
part of the phrase if the others followed it. -/
def startsPhrase (set : RuleSet) (word : List Char) : Bool :=
  set.rules.any fun rule => rule.pattern.opensWith word

/-- The rules that every dialect shares.  Phrases outrank names, so that
`GROUP BY` does not start with a name, and marks of two characters outrank
those of one. -/
def base : RuleSet :=
  ofRules
    [ .phrase "LEFT_OUTER_JOIN" 41 ["LEFT", "OUTER", "JOIN"] .LEFT_JOIN,
      .phrase "RIGHT_OUTER_JOIN" 41 ["RIGHT", "OUTER", "JOIN"] .RIGHT_JOIN,
      .phrase "FULL_OUTER_JOIN" 41 ["FULL", "OUTER", "JOIN"] .FULL_JOIN,
      .phrase "GROUP_BY" 40 ["GROUP", "BY"] .GROUP_BY,
      .phrase "ORDER_BY" 40 ["ORDER", "BY"] .ORDER_BY,
      .phrase "NULLS_FIRST" 40 ["NULLS", "FIRST"] .NULLS_FIRST,
      .phrase "NULLS_LAST" 40 ["NULLS", "LAST"] .NULLS_LAST,
      .phrase "INNER_JOIN" 40 ["INNER", "JOIN"] .INNER_JOIN,
      .phrase "LEFT_JOIN" 40 ["LEFT", "JOIN"] .LEFT_JOIN,
      .phrase "RIGHT_JOIN" 40 ["RIGHT", "JOIN"] .RIGHT_JOIN,
      .phrase "FULL_JOIN" 40 ["FULL", "JOIN"] .FULL_JOIN,
      .phrase "CROSS_JOIN" 40 ["CROSS", "JOIN"] .CROSS_JOIN,
      .scanned "NUMBER" 30 Token.numberLength? Token.readNumber,
      .scanned "STRING_SINGLE" 30 (Token.quotedLength? '\x27') Token.readText,
      .scanned "STRING_DOUBLE" 30 (Token.quotedLength? '\x22') Token.readText,
      .scanned "IDENTIFIER" 20 Token.nameLength? Token.readName,
      .symbol "LT_EQ" 15 "<=" .lessEqual,
      .symbol "GT_EQ" 15 ">=" .greaterEqual,
      .symbol "NOT_EQ_ANGLE" 15 "<>" .notEqual,
      .symbol "NOT_EQ_BANG" 15 "!=" .notEqual,
      .symbol "CONCAT" 15 "||" .concat,
      .symbol "PLUS" 10 "+" .plus,
      .symbol "MINUS" 10 "-" .minus,
      .symbol "STAR" 10 "*" .star,
      .symbol "SLASH" 10 "/" .slash,
      .symbol "PERCENT" 10 "%" .percent,
      .symbol "EQ" 10 "=" .equal,
      .symbol "LT" 10 "<" .less,
      .symbol "GT" 10 ">" .greater,
      .symbol "LPAREN" 10 "(" .leftParen,
      .symbol "RPAREN" 10 ")" .rightParen,
      .symbol "COMMA" 10 "," .comma,
      .symbol "SEMICOLON" 10 ";" .semicolon,
      .symbol "QUESTION" 10 "?" .question ]

end RuleSet

end SqlQuery
