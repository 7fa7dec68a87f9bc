import SqlQuery.Proofs.Comparison
import SqlQuery.Proofs.Descent

/-!
# The places of errors

A text without a tree either is not divided into tokens, and then the error is
that of the lexer, or has a token at which the parser stopped.  The error is about
that token.  No node is built that would be malformed, and no production meets a
token that it does not start with; what the productions would do with such a
token does not matter.

## Main definitions

* `SyntaxError.About` — errors about a token.

## Main results

* `parse_error_located` — every error of a text is the lexer's or is about one of
  the tokens.
-/

namespace SqlQuery

open SqlQuery.Parser

/-- An error about a token: it says what was expected in the token's place, what
was found there and where, and speaks of the end of the input exactly at the end
of the input. -/
structure SyntaxError.About (error : SyntaxError) (token : Token) : Prop where
  expected : error.expected?.isSome = true
  found : error.found? = some token.kind
  span : error.span = token.span
  text : "Unexpected end of input".toList <+: error.text.toList ↔ token.kind = .finish

/-- The message says that the input ended exactly if it did. -/
theorem SyntaxError.text_unexpected_iff (expected : String) (found : TokenKind) (span : Span) :
    "Unexpected end of input".toList <+: (text (.unexpected expected found span)).toList ↔
      found = .finish := by
  by_cases hFound : found = .finish
  · subst hFound
    have hText : (text (.unexpected expected .finish span)).toList =
        "Unexpected end of input: expected ".toList ++ expected.toList := String.toList_append
    have hBegin : "Unexpected end of input".toList <+:
        "Unexpected end of input: expected ".toList := by decide +kernel
    exact iff_of_true (hBegin.trans ⟨_, hText.symm⟩) rfl
  · have hText : text (.unexpected expected found span) =
        "Unexpected token: expected " ++ expected ++ ", found " ++ found.describe := by
      cases found with
      | finish => exact absurd rfl hFound
      | _ => rfl
    have hBegin : "Unexpected token: expected ".toList <+:
        (text (.unexpected expected found span)).toList := by
      refine ⟨expected.toList ++ (", found ".toList ++ found.describe.toList), ?_⟩
      simp only [hText, String.toList_append, List.append_assoc]
    -- The two beginnings differ before either of them ends.
    have hDiffer : ¬"Unexpected end of input".toList <+: "Unexpected token: expected ".toList := by
      decide +kernel
    have hLength : "Unexpected end of input".toList.length ≤
        "Unexpected token: expected ".toList.length := by decide +kernel
    exact iff_of_false
      (fun hPrefix => hDiffer (List.prefix_of_prefix_length_le hPrefix hBegin hLength)) hFound

theorem SyntaxError.about_unexpected (expected : String) (token : Token) :
    About (.unexpected expected token.kind token.span) token :=
  ⟨rfl, rfl, rfl, text_unexpected_iff expected token.kind token.span⟩

/-- The token at the front of a later part of a stream is one of its tokens. -/
theorem TokenStream.LeadsTo.current_mem {stream rest : TokenStream} (hLeads : stream.LeadsTo rest) :
    rest.current ∈ stream.toList := by
  obtain ⟨ahead, last⟩ := rest
  obtain ⟨hLast, hAhead⟩ := hLeads
  cases ahead with
  | nil => exact List.mem_append_right _ (List.mem_singleton.2 hLast)
  | cons token ahead => exact List.mem_append_left _ (hAhead.subset List.mem_cons_self)

/-- The branches of the productions for tokens that they do not start with are
never taken: with others in their place every text has the same outcome. -/
theorem Dialect.parse_grammarWith (dialect : Dialect) (fallbacks : Fallbacks) (source : String) :
    (dialect.grammarWith fallbacks).parse source = parse source dialect := by
  cases hTokens : dialect.grammar.tokens.tokenize source with
  | error e =>
    rw [parse, Grammar.parse_of_tokenize_error hTokens]
    exact Grammar.parse_of_tokenize_error hTokens
  | ok stream =>
    obtain ⟨-, hClosed, -⟩ :=
      Dialect.reads_of_tokenize hTokens fun h : false = true => absurd h Bool.false_ne_true
    have hSame := (Grammar.move_statement dialect fallbacks {} stream (.refl stream) hClosed).same
    rw [dialect.grammarWith_default] at hSame
    rw [parse, Grammar.parse_of_tokenize hTokens, ← hSame]
    exact Grammar.parse_of_tokenize hTokens

/-- **Errors have a place.**  If the lexer fails on a text, the error is the
lexer's.  If not, and if the text has no tree, it is a syntax error about one of
the tokens of the text, never one about a malformed node.  And whatever the
productions do with tokens that they do not start with, the outcome is the
same. -/
theorem parse_error_located (source : String) (dialect : Dialect) :
    (∀ error, parse source dialect = .error error →
      (∀ e, dialect.grammar.tokens.tokenize source = .error e → error = .lexical e) ∧
      ∀ stream, dialect.grammar.tokens.tokenize source = .ok stream →
        ∃ e, error = .grammatical e ∧ ∃ token ∈ stream.toList, e.About token) ∧
    ∀ fallbacks, (dialect.grammarWith fallbacks).parse source = parse source dialect := by
  refine ⟨fun error hParse => ⟨fun e hTokens => ?_, fun stream hTokens => ?_⟩,
    fun fallbacks => dialect.parse_grammarWith fallbacks source⟩
  · rw [parse, Grammar.parse_of_tokenize_error hTokens] at hParse
    cases hParse
    rfl
  · obtain ⟨-, hClosed, -⟩ :=
      Dialect.reads_of_tokenize hTokens fun h : false = true => absurd h Bool.false_ne_true
    have hStep := Grammar.move_statement dialect {} {} stream (.refl stream) hClosed
    rw [dialect.grammarWith_default] at hStep
    rw [parse, Grammar.parse_of_tokenize hTokens] at hParse
    cases hRun : dialect.grammar.statement stream with
    | ok node rest => rw [hRun] at hParse; cases hParse
    | fail e rest =>
      rw [hRun] at hParse
      cases hParse
      obtain ⟨hLeads, expected, rfl⟩ := hStep.fail hRun
      exact ⟨_, rfl, rest.current, hLeads.current_mem, SyntaxError.about_unexpected _ _⟩

/-- A text that ends where an operand is expected. -/
theorem parse_error_located_finish :
    parse "SELECT NOT -" .mysql =
        .error (.grammatical (.unexpected "expression" .finish ⟨12, 12⟩)) ∧
      ∀ stream, Grammar.mysql.tokens.tokenize "SELECT NOT -" = .ok stream →
        ∃ token ∈ stream.toList,
          SyntaxError.About (.unexpected "expression" .finish ⟨12, 12⟩) token := by
  have hParse : parse "SELECT NOT -" .mysql =
      .error (.grammatical (.unexpected "expression" .finish ⟨12, 12⟩)) := by
    decide +kernel
  refine ⟨hParse, fun stream hTokens => ?_⟩
  obtain ⟨e, hError, hToken⟩ := ((parse_error_located "SELECT NOT -" .mysql).1 _ hParse).2 _ hTokens
  cases hError
  exact hToken

end SqlQuery
