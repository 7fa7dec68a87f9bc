import SqlQuery.Proofs.Cutting
import SqlQuery.Proofs.Progress

/-!
# Lexical errors

A lexer that fails stands behind the tokens it has found and in front of the text
that is no token.  It fails again whenever it is asked, as it finds the end of the
input again.  What it has found is what it finds in the text up to the error: a
lexeme is the same whether the error follows or not.

## Main definitions

* `Lexer.replies` — what a lexer replies when it is asked repeatedly.

## Main results

* `RuleSet.Runs.exists_of_tokenizeWithin_error` — tokens up to an error.
* `RuleSet.Runs.cut` — the run up to an error in a text that is cut off there.
* `Dialect.lexical_error_exact` — lexical errors are exact and stable.
-/

namespace SqlQuery

open Text (Apart Gap)

/-! ## Gaps at a cut -/

namespace Text

variable {gap rest a b : List Char}

/-- What stands in front of a text is a gap in front of its beginnings, too. -/
theorem Gap.cut {rest' : List Char} (hGap : Gap gap rest) (hRest : rest ≠ [])
    (hHead : ∀ c ∈ rest'.head?, c ∈ rest.head?) : Gap gap rest' := by
  induction hGap with
  | none => exact .none rest'
  | blank hBlank _ ih => exact .blank hBlank (ih hRest hHead)
  | @comment comment gap rest hComment _ ih =>
    refine .comment ?_ (ih hRest hHead)
    generalize hText : gap ++ rest = text at hComment
    cases hComment with
    | line hBody hEnd =>
      refine .line hBody fun c hc => hEnd c ?_
      subst hText
      cases gap with
      | nil => exact hHead c hc
      | cons d gap => exact hc
    | block hBody => exact .block hBody
    | unterminated => exact absurd (List.append_eq_nil_iff.1 hText).2 hRest

/-- Where nothing is skipped in a text, nothing is skipped in its beginnings. -/
theorem gapLength_cut (hGap : gapLength (a ++ b) = 0) : gapLength a = 0 := by
  unfold gapLength
  split
  · rfl
  · rw [List.cons_append, List.cons_append, gapLength] at hGap
    omega
  · rw [List.cons_append, List.cons_append, gapLength] at hGap
    omega
  · next c cs _ _ => exact if_neg (by simp [isBlank_of_gapLength hGap c rfl])

/-- No word goes on behind a gap. -/
theorem Gap.apart (hGap : Gap gap rest) (hRest : rest ≠ []) (hEnd : gapLength rest = 0) :
    Apart gap rest := by
  induction hGap with
  | none => exact fun c hc => absurd hc (by simp)
  | @blank c gap rest hBlank _ ih =>
    cases gap with
    | nil =>
      intro d hd hStart
      obtain rfl : c = d := Option.some.inj hd
      rw [isBlank_of_isWordStart hStart] at hBlank
      cases hBlank
    | cons d gap =>
      intro e he
      rw [List.getLast?_cons_cons] at he
      exact ih hRest hEnd e he
  | @comment comment gap rest hComment _ ih =>
    cases gap with
    | cons d gap =>
      intro e he
      rw [List.getLast?_append_of_ne_nil _ (List.cons_ne_nil d gap)] at he
      exact ih hRest hEnd e he
    | nil =>
      rw [List.append_nil]
      generalize hText : [] ++ rest = text at hComment
      subst hText
      cases hComment with
      | line _ hLine =>
        -- A line comment ends in front of a line feed, which would be skipped.
        obtain ⟨c, rest, rfl⟩ := List.exists_cons_of_ne_nil hRest
        have hBlank := isBlank_of_gapLength hEnd c rfl
        rw [hLine c rfl] at hBlank
        exact absurd hBlank (by decide)
      | @block body _ _ =>
        intro c hc hStart
        have hLast : ('/' :: '*' :: (body ++ ['*', '/'])).getLast? = some '/' := by
          rw [show '/' :: '*' :: (body ++ ['*', '/']) = '/' :: '*' :: (body ++ ['*']) ++ ['/'] by
            simp]
          exact List.getLast?_concat
        rw [hLast] at hc
        cases hc
        exact absurd hStart (by decide)
      | unterminated => exact absurd rfl hRest

end Text

/-! ## Readings without a token -/

namespace Lexer

variable {rules : RuleSet} {read cs : List Char} {lexer after : Lexer} {e : LexicalError}

/-- **What one reading leaves when it fails.**  Behind a gap stands a text that is no
token. -/
theorem next_between_eq_error (hMoving : ∀ rule ∈ rules.rules, rule.Moving)
    (hNext : (between rules read cs).next = (.error e, after)) :
    ∃ gap fragment rest, cs = gap ++ (fragment ++ rest) ∧ Gap gap (fragment ++ rest) ∧
      Text.gapLength (fragment ++ rest) = 0 ∧ fragment ≠ [] ∧
      e = .unrecognized (String.ofList fragment)
        ⟨Text.byteLength (read ++ gap), Text.byteLength (read ++ gap ++ fragment)⟩ := by
  obtain ⟨gap, rest, rfl, -, hEnd, hGap⟩ := Text.exists_gap cs
  have hSkip : (between rules (read ++ gap) rest).skip = between rules (read ++ gap) rest := by
    simp [skip, advance, between, hEnd]
  rw [next_gap hGap, next, hSkip, Lexer.read] at hNext
  have hSpan : ∀ fragment, (between rules (read ++ gap) rest).spanOf fragment =
      ⟨Text.byteLength (read ++ gap), Text.byteLength (read ++ gap ++ fragment)⟩ := by
    intro fragment
    simp [spanOf, between, Nat.add_assoc]
  split at hNext
  · cases hNext
  · next hText =>
    have hNe : rest ≠ [] := fun h => hText (List.isEmpty_iff.2 h)
    split at hNext
    · cases hNext
    · next fragment hMatch =>
      cases hNext
      obtain ⟨rule, hMem, hRule⟩ := List.exists_of_findSome?_eq_some hMatch
      obtain ⟨length, hLength, hFragment, -⟩ := TokenRule.match?_eq_some_iff.1 hRule
      obtain ⟨rest', rfl⟩ : fragment <+: rest := TokenRule.prefix_of_match? hRule
      refine ⟨gap, fragment, rest', rfl, hGap, hEnd, ?_, by rw [hSpan]⟩
      have hPos := (hMoving rule hMem).length_pos _ _ hLength
      rw [hFragment, Ne, List.take_eq_nil_iff, not_or]
      exact ⟨by omega, hNe⟩
    · cases hNext
      obtain ⟨c, rest, rfl⟩ := List.exists_cons_of_ne_nil hNe
      have hHead : Text.firstWord (c :: rest) = c :: Text.firstWord rest := by
        rw [Text.firstWord, List.takeWhile_cons, Text.isBlank_of_gapLength hEnd c rfl]
        rfl
      obtain ⟨rest', hRest⟩ : Text.firstWord (c :: rest) <+: c :: rest := List.takeWhile_prefix _
      refine ⟨gap, Text.firstWord (c :: rest), rest', ?_, ?_, ?_, ?_, ?_⟩
      · rw [hRest]
      · rw [hRest]
        exact hGap
      · rw [hRest]
        exact hEnd
      · rw [hHead]
        exact List.cons_ne_nil _ _
      · rw [hSpan]
        rfl

/-- A lexer that fails stands where it fails, and fails again. -/
theorem next_again_of_error (hNext : lexer.next = (.error e, after)) :
    after.next = (.error e, after) := by
  have hAfter : after = lexer.skip := by
    rw [next, read] at hNext
    split at hNext
    · cases hNext
    · split at hNext <;> cases hNext <;> rfl
  subst hAfter
  rw [next, skip_skip]
  exact hNext

/-- What a lexer replies when it is asked a number of times. -/
def replies : Nat → Lexer → List (Except LexicalError Token)
  | 0, _ => []
  | calls + 1, lexer => lexer.next.1 :: replies calls lexer.next.2

theorem replies_congr {other : Lexer} (hNext : lexer.next = other.next) (calls : Nat) :
    replies calls lexer = replies calls other := by
  cases calls with
  | zero => rfl
  | succ calls => rw [replies, replies, hNext]

/-- A lexer that does not change replies the same ever after. -/
theorem replies_of_next_again {reply : Except LexicalError Token}
    (hNext : lexer.next = (reply, after)) (hAgain : after.next = (reply, after)) (calls : Nat) :
    replies calls lexer = List.replicate calls reply := by
  have hAfter : ∀ calls, replies calls after = List.replicate calls reply := by
    intro calls
    induction calls with
    | zero => rfl
    | succ calls ih => rw [replies, hAgain, ih, List.replicate_succ]
  cases calls with
  | zero => rfl
  | succ calls => rw [replies, hNext, hAfter, List.replicate_succ]

end Lexer

/-! ## Runs up to an error -/

namespace RuleSet.Runs

variable {rules : RuleSet} {read cs read' rest : List Char} {tokens : List Token}

/-- The tokens of a run are the first replies of the lexer. -/
theorem replies (hRuns : rules.Runs read cs tokens read' rest) (further : Nat) :
    Lexer.replies (tokens.length + further) (.between rules read cs) =
      tokens.map Except.ok ++ Lexer.replies further (.between rules read' rest) := by
  induction hRuns with
  | done =>
    rw [List.length_nil, Nat.zero_add]
    rfl
  | gap hGap _ ih => rw [Lexer.replies_congr (Lexer.next_gap hGap), ih]
  | token hFinds _ _ ih =>
    rw [List.length_cons, Nat.add_right_comm, Lexer.replies, Lexer.next_between hFinds, ih]
    rfl

/-- The readings up to the end of a text. -/
theorem of_tokenizeWithin (hMoving : ∀ rule ∈ rules.rules, rule.Moving) {limit : Nat}
    {stream : TokenStream}
    (hTokens : (Lexer.between rules read cs).tokenizeWithin limit = .ok stream) :
    rules.Runs read cs stream.ahead (read ++ cs) [] ∧
      stream.last = .behind (read ++ cs) .finish [] := by
  induction limit generalizing read cs stream with
  | zero => cases hTokens
  | succ limit ih =>
    rw [Lexer.tokenizeWithin] at hTokens
    split at hTokens
    · cases hTokens
    · next token after hNext =>
      rcases Lexer.next_between_eq_ok hNext with ⟨hGap, rfl⟩ |
        ⟨gap, lexeme, tail, kind, rfl, hGap, hEnd, hNe, hFirst, rfl, rfl⟩
      · cases hTokens
        have hRuns : rules.Runs read (cs ++ []) [] (read ++ cs) [] := .gap hGap .done
        rw [List.append_nil] at hRuns
        exact ⟨hRuns, rfl⟩
      · obtain ⟨hLexeme, hKind⟩ := RuleSet.match_moves hMoving hNe hFirst
        have hNot : ¬(Token.behind (read ++ gap) kind lexeme).kind.isFinish = true :=
          fun h => hKind (TokenKind.isFinish_iff.1 h)
        rw [if_neg hNot] at hTokens
        cases hRest : (Lexer.between rules (read ++ gap ++ lexeme) tail).tokenizeWithin limit with
        | error e => rw [hRest] at hTokens; cases hTokens
        | ok stream' =>
          rw [hRest] at hTokens
          cases hTokens
          obtain ⟨hRuns, hLast⟩ := ih hRest
          have hText : read ++ gap ++ lexeme ++ tail = read ++ (gap ++ (lexeme ++ tail)) := by
            simp only [List.append_assoc]
          rw [hText] at hRuns hLast
          exact ⟨.gap hGap (.token ⟨hLexeme, hEnd, hFirst⟩ hKind hRuns), hLast⟩

/-- The readings up to an error, and the text in front of which they stop. -/
theorem exists_of_tokenizeWithin_error (hMoving : ∀ rule ∈ rules.rules, rule.Moving) {limit : Nat}
    {e : LexicalError} (hLimit : cs.length < limit)
    (hError : (Lexer.between rules read cs).tokenizeWithin limit = .error e) :
    ∃ tokens read' fragment rest after, rules.Runs read cs tokens read' (fragment ++ rest) ∧
      Text.gapLength (fragment ++ rest) = 0 ∧ fragment ≠ [] ∧
      e = .unrecognized (String.ofList fragment)
        ⟨Text.byteLength read', Text.byteLength (read' ++ fragment)⟩ ∧
      (Lexer.between rules read' (fragment ++ rest)).next = (.error e, after) := by
  induction limit generalizing read cs with
  | zero => omega
  | succ limit ih =>
    rw [Lexer.tokenizeWithin] at hError
    split at hError
    · next after hNext =>
      cases hError
      obtain ⟨gap, fragment, rest, rfl, hGap, hEnd, hFragment, hPlace⟩ :=
        Lexer.next_between_eq_error hMoving hNext
      rw [Lexer.next_gap hGap] at hNext
      exact ⟨[], read ++ gap, fragment, rest, after, .gap hGap .done, hEnd, hFragment, hPlace,
        hNext⟩
    · next token after hNext =>
      split at hError
      · cases hError
      · next hKind =>
        rcases Lexer.next_between_eq_ok hNext with ⟨-, rfl⟩ |
          ⟨gap, lexeme, tail, kind, rfl, hGap, hEnd, hNe, hFirst, rfl, rfl⟩
        · exact absurd rfl hKind
        · obtain ⟨hLexeme, hFinish⟩ := RuleSet.match_moves hMoving hNe hFirst
          have hPos := List.length_pos_iff.2 hLexeme
          simp only [List.length_append] at hLimit
          cases hRest : (Lexer.between rules (read ++ gap ++ lexeme) tail).tokenizeWithin limit with
          | ok stream => rw [hRest] at hError; cases hError
          | error e' =>
            rw [hRest] at hError
            cases hError
            obtain ⟨tokens, read', fragment, rest, after, hRuns, hRest⟩ :=
              ih (show tail.length < limit by omega) hRest
            exact ⟨_, read', fragment, rest, after,
              .gap hGap (.token ⟨hLexeme, hEnd, hFirst⟩ hFinish hRuns), hRest⟩

end RuleSet.Runs

section Dialects

variable {dialect : Dialect} {read cs read' rest : List Char} {tokens : List Token}

/-- **A run in a text that is cut off.**  Up to a place where no lexeme and no gap
goes on, a run finds the same if the text ends there, and no word goes on
there. -/
theorem RuleSet.Runs.cut (hRuns : dialect.grammar.tokens.Runs read cs tokens read' rest)
    (hRest : rest ≠ []) (hEnd : Text.gapLength rest = 0) :
    ∃ before, cs = before ++ rest ∧ read' = read ++ before ∧
      dialect.grammar.tokens.Runs read before tokens read' [] ∧ Apart before rest := by
  induction hRuns with
  | @done read rest => exact ⟨[], rfl, (List.append_nil _).symm, .done, fun c hc => by cases hc⟩
  | @gap gap read cs read' rest tokens hGap _ ih =>
    obtain ⟨before, rfl, rfl, hRuns, hApart⟩ := ih hRest hEnd
    have hText : before ++ rest ≠ [] := List.append_ne_nil_of_right_ne_nil before hRest
    refine ⟨gap ++ before, (List.append_assoc _ _ _).symm, List.append_assoc _ _ _,
      .gap (hGap.cut hText ?_) hRuns, ?_⟩
    · intro c hc
      rw [List.head?_append, Option.mem_def.1 hc]
      rfl
    · cases before with
      | nil =>
        rw [List.append_nil]
        exact hGap.apart hRest hEnd
      | cons c before =>
        rw [Apart, List.getLast?_append_of_ne_nil _ (List.cons_ne_nil c before)]
        exact hApart
  | @token read lexeme tail read' rest kind tokens hFinds hKind _ ih =>
    obtain ⟨before, rfl, rfl, hRuns, hApart⟩ := ih hRest hEnd
    have hApart' : Apart (lexeme ++ before) rest := by
      cases before with
      | nil =>
        rw [List.append_nil]
        exact Dialect.apart_of_first? hFinds.first
      | cons c before =>
        rw [Apart, List.getLast?_append_of_ne_nil _ (List.cons_ne_nil c before)]
        exact hApart
    have hText : lexeme ++ (before ++ rest) = lexeme ++ before ++ rest :=
      (List.append_assoc _ _ _).symm
    have hCut : dialect.grammar.tokens.Finds lexeme before kind := by
      refine ⟨hFinds.ne_nil, Text.gapLength_cut (hText ▸ hFinds.gap), ?_⟩
      refine Dialect.first?_cut hApart' (hText ▸ hFinds.first) ?_
      rw [List.length_append]
      exact Nat.le_add_right _ _
    exact ⟨lexeme ++ before, hText, List.append_assoc _ _ _, .token hCut hKind hRuns, hApart'⟩

/-- **Lexical errors are exact and stable.**  If a text is not divided into tokens,
the error is about a part of the text that is not empty, by its characters and
its place.  The text up to this part is divided into the tokens that the lexer
finds before it fails, and then it fails in the same way as often as it is asked.
In a text that is divided into tokens the lexer finds the end as often as it is
asked. -/
theorem Dialect.lexical_error_exact (dialect : Dialect) (source : String) :
    (∀ e, dialect.grammar.tokens.tokenize source = .error e →
      ∃ before fragment rest tokens, source.toList = before ++ (fragment ++ rest) ∧
        e = .unrecognized (String.ofList fragment)
          ⟨Text.byteLength before, Text.byteLength (before ++ fragment)⟩ ∧
        e.span.start < e.span.stop ∧ e.span.text source = String.ofList fragment ∧
        dialect.grammar.tokens.tokenize (String.ofList before) =
          .ok ⟨tokens, ⟨.finish, ⟨Text.byteLength before, Text.byteLength before⟩, ""⟩⟩ ∧
        ∀ further, Lexer.replies (tokens.length + further)
            (Lexer.start dialect.grammar.tokens source) =
          tokens.map Except.ok ++ List.replicate further (.error e)) ∧
    ∀ stream, dialect.grammar.tokens.tokenize source = .ok stream →
      ∀ further, Lexer.replies (stream.ahead.length + further)
          (Lexer.start dialect.grammar.tokens source) =
        stream.ahead.map Except.ok ++ List.replicate further (.ok stream.last) := by
  have hMoving : ∀ rule ∈ dialect.grammar.tokens.rules, rule.Moving :=
    fun _ => Dialect.moving_of_mem
  constructor
  · intro e hError
    obtain ⟨tokens, before, fragment, rest, after, hRuns, hEnd, hFragment, rfl, hNext⟩ :=
      @RuleSet.Runs.exists_of_tokenizeWithin_error _ [] source.toList hMoving _ e
        (Nat.lt_succ_self _) hError
    have hRest : fragment ++ rest ≠ [] := List.append_ne_nil_of_left_ne_nil hFragment rest
    obtain ⟨before, hText, rfl, hCut, -⟩ := hRuns.cut hRest hEnd
    refine ⟨before, fragment, rest, tokens, hText, rfl, ?_, Span.text_of_append _ _ _ hText, ?_, ?_⟩
    · have hPos := Text.byteLength_pos_of_ne_nil hFragment
      show Text.byteLength before < Text.byteLength (before ++ fragment)
      rw [Text.byteLength_append]
      omega
    · have hBefore :
          dialect.grammar.tokens.Runs [] (String.ofList before).toList tokens before [] := by
        rw [String.toList_ofList]
        exact hCut
      rw [hBefore.tokenize_ok]
      simp [Token.behind]
    · intro further
      have hReplies := hRuns.replies further
      rw [Lexer.replies_of_next_again hNext (Lexer.next_again_of_error hNext)] at hReplies
      exact hReplies
  · intro stream hTokens further
    obtain ⟨hRuns, hLast⟩ :=
      @RuleSet.Runs.of_tokenizeWithin _ [] source.toList hMoving _ stream hTokens
    have hReplies := hRuns.replies further
    rw [Lexer.replies_of_next_again Lexer.next_between_nil Lexer.next_between_nil] at hReplies
    rw [hLast]
    exact hReplies

/-- A text that is not closed behind a phrase that is not complete. -/
theorem Dialect.lexical_error_exact_openText :
    Grammar.mysql.tokens.tokenize "@é LEFT /* → */ OUTER 'JOIN b" =
        .error (.unrecognized "'JOIN" ⟨25, 30⟩) ∧
      ∃ before fragment rest tokens,
        "@é LEFT /* → */ OUTER 'JOIN b".toList = before ++ (fragment ++ rest) ∧
        (25, 30) = (Text.byteLength before, Text.byteLength (before ++ fragment)) ∧
        Grammar.mysql.tokens.tokenize (String.ofList before) =
          .ok ⟨tokens, ⟨.finish, ⟨25, 25⟩, ""⟩⟩ ∧
        Lexer.replies (tokens.length + 2)
            (Lexer.start Grammar.mysql.tokens "@é LEFT /* → */ OUTER 'JOIN b") =
          tokens.map Except.ok ++ [.error (.unrecognized "'JOIN" ⟨25, 30⟩),
            .error (.unrecognized "'JOIN" ⟨25, 30⟩)] := by
  have hError : Grammar.mysql.tokens.tokenize "@é LEFT /* → */ OUTER 'JOIN b" =
      .error (.unrecognized "'JOIN" ⟨25, 30⟩) := by
    decide +kernel
  obtain ⟨before, fragment, rest, tokens, hText, hPlace, -, -, hTokens, hReplies⟩ :=
    (Dialect.lexical_error_exact .mysql "@é LEFT /* → */ OUTER 'JOIN b").1 _ hError
  injection hPlace with _ hSpan
  injection hSpan with hStart hStop
  rw [← hStart] at hTokens
  exact ⟨hError, before, fragment, rest, tokens, hText, Prod.ext hStart hStop, hTokens, hReplies 2⟩

end Dialects

end SqlQuery
