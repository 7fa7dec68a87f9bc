import SqlQuery.Proofs.Comments
import SqlQuery.Proofs.Runs

/-!
# The partition of a text into tokens

The lexer goes over a text once and from left to right.  A position is the
number of bytes before it, and it is moved on by the length of what was read
there, so no part of the text is passed over unseen and none is read twice.
What it passes over without making a token of it are blanks and comments.

The only thing that the rules have to grant for this is that none of them takes
the empty text and that none of them makes the end of the input of a text.

## Main definitions

* `Tiling` — the tokens of a text that stands behind another one.
* `TokenStream.Partitions` — what tokens and gaps are to the whole text.

## Main results

* `Lexer.next_between_eq_ok` — what one reading takes of a text.
* `Lexer.tiling_of_tokenizeWithin` — what all readings take of it.
* `TokenStream.partitions_of_tokenize` — tokens and gaps make up the text.
-/

namespace SqlQuery

/-! ## Gaps -/

namespace Text

/-- A text that holds a closing mark of a comment holds a first one. -/
theorem exists_first_close {cs : List Char} (hClose : ['*', '/'] <:+: cs) :
    ∃ body rest, cs = body ++ '*' :: '/' :: rest ∧ ¬['*', '/'] <:+: body := by
  induction cs with
  | nil => simp at hClose
  | cons c cs ih =>
    by_cases hHead : ['*', '/'] <+: c :: cs
    · obtain ⟨rest, hRest⟩ := hHead
      exact ⟨[], rest, hRest.symm, by simp⟩
    · obtain ⟨body, rest, rfl, hBody⟩ := ih ((List.infix_cons_iff.1 hClose).resolve_left hHead)
      refine ⟨c :: body, rest, rfl, fun hInfix => ?_⟩
      rcases List.infix_cons_iff.1 hInfix with hPrefix | hInfix
      · exact hHead (hPrefix.trans (List.prefix_append (c :: body) ('*' :: '/' :: rest)))
      · exact hBody hInfix

/-- What the lexer passes over in front of a token is a gap, and there is nothing
to pass over behind it. -/
theorem exists_gap (cs : List Char) :
    ∃ gap rest, cs = gap ++ rest ∧ gapLength cs = gap.length ∧ gapLength rest = 0 ∧
      Gap gap rest := by
  induction hLength : cs.length using Nat.strong_induction_on generalizing cs with
  | _ length ih =>
    subst hLength
    -- A comment in front of a shorter text: the gap goes on behind the comment.
    have hOn : ∀ {comment cs' : List Char}, comment ≠ [] → cs = comment ++ cs' →
        Comment comment cs' → ∃ gap rest, cs = gap ++ rest ∧ gapLength cs = gap.length ∧
          gapLength rest = 0 ∧ Gap gap rest := by
      intro comment cs' hNe hText hComment
      have hShorter : cs'.length < cs.length := by
        have := List.length_pos_iff.2 hNe
        rw [hText, List.length_append]
        omega
      obtain ⟨gap, rest, rfl, hGapLength, hEnd, hGap⟩ := ih cs'.length hShorter cs' rfl
      refine ⟨comment ++ gap, rest, by rw [hText, List.append_assoc], ?_, hEnd,
        .comment hComment hGap⟩
      rw [hText, hComment.gapLength_append, hGapLength, List.length_append]
    generalize hGapLength : gapLength cs = total at hOn ⊢
    unfold gapLength at hGapLength
    split at hGapLength
    · exact ⟨[], [], rfl, hGapLength.symm, rfl, .none []⟩
    · next cs =>
      have hLine : '\n' ∉ cs.takeWhile (· != '\n') := fun hMem => by
        simpa using List.all_eq_true.1 List.all_takeWhile _ hMem
      have hRest : ∀ c ∈ (cs.dropWhile (· != '\n')).head?, c = '\n' := by
        intro c hHead
        have hNot := List.head?_dropWhile_not (· != '\n') cs
        rw [Option.mem_def.1 hHead] at hNot
        simpa using hNot
      exact hOn (List.cons_ne_nil _ _) (by simp) (.line hLine hRest)
    · next cs =>
      by_cases hClose : ['*', '/'] <:+: cs
      · obtain ⟨body, rest, rfl, hBody⟩ := exists_first_close hClose
        exact hOn (List.cons_ne_nil _ _) (by simp) (@Comment.block body rest hBody)
      · exact hOn (List.cons_ne_nil _ _) (List.append_nil _).symm (.unterminated hClose)
    · next c cs hLine hBlock =>
      subst hGapLength
      split
      · next hBlank =>
        obtain ⟨gap, rest, rfl, hLength, hEnd, hGap⟩ := ih cs.length (by simp) cs rfl
        exact ⟨c :: gap, rest, rfl, by rw [hLength, List.length_cons], hEnd, .blank hBlank hGap⟩
      · next hBlank =>
        refine ⟨[], c :: cs, rfl, rfl, ?_, .none _⟩
        rw [gapLength.eq_4 _ _ hLine hBlock, if_neg hBlank]

end Text

/-! ## Lengths -/

namespace Pattern

variable {words : List String} {cs : List Char} {length : Nat}

/-- A pattern that takes no more of a text than there is. -/
def Within (pattern : Pattern) : Prop :=
  ∀ cs length, pattern.length? cs = some length → length ≤ cs.length

theorem within_words (words : List String) : (Pattern.words words).Within := by
  intro cs length hLength
  cases words with
  | nil => exact furtherWordsLength?_le hLength
  | cons word words =>
    obtain ⟨a, rest, further, rfl, -, hFurther, rfl⟩ := wordsLength?_cons_iff.1 hLength
    have := furtherWordsLength?_le hFurther
    simp only [List.length_append]
    omega

theorem within_literal (text : String) : (Pattern.literal text).Within := by
  intro cs length hLength
  rw [Pattern.length?] at hLength
  split at hLength
  · next hPrefix =>
    cases hLength
    rw [← String.length_toList]
    exact (List.isPrefixOf_iff_prefix.1 hPrefix).length_le
  · cases hLength

theorem within_scan {length? : List Char → Option Nat}
    (hScan : ∀ cs length, length? cs = some length → length ≤ cs.length) :
    (Pattern.scan length?).Within :=
  fun cs length hLength => hScan cs length (Option.filter_eq_some_iff.1 hLength).1

end Pattern

namespace Token

variable {cs : List Char} {length : Nat}

theorem digitCount_le (cs : List Char) : digitCount cs ≤ cs.length :=
  (List.takeWhile_prefix _).length_le

theorem fractionLength_le (cs : List Char) : fractionLength cs ≤ cs.length := by
  unfold fractionLength
  split
  · next cs =>
    have := digitCount_le cs
    rw [List.length_cons]
    split <;> omega
  · exact Nat.zero_le _

theorem exponentBodyLength_le (cs : List Char) : exponentBodyLength cs ≤ cs.length + 1 := by
  have := digitCount_le (cs.drop (signLength cs))
  rw [List.length_drop] at this
  rw [exponentBodyLength]
  split <;> omega

theorem exponentLength_le (cs : List Char) : exponentLength cs ≤ cs.length := by
  unfold exponentLength
  split
  · exact exponentBodyLength_le _
  · exact exponentBodyLength_le _
  · exact Nat.zero_le _

theorem numberLength?_le (hLength : numberLength? cs = some length) : length ≤ cs.length := by
  rw [numberLength?] at hLength
  split at hLength
  · cases hLength
  · cases hLength
    have hWhole := digitCount_le cs
    have hFraction := fractionLength_le (cs.drop (digitCount cs))
    have hExponent :=
      exponentLength_le (cs.drop (digitCount cs + fractionLength (cs.drop (digitCount cs))))
    rw [List.length_drop] at hFraction hExponent
    omega

theorem quotedLength?_le {quote : Char} (hLength : quotedLength? quote cs = some length) :
    length ≤ cs.length := by
  obtain ⟨word, rest, rfl, -, rfl⟩ := quotedLength?_eq_some_iff.1 hLength
  simp only [List.length_cons, List.length_append]
  omega

theorem nameLength?_le (hLength : nameLength? cs = some length) : length ≤ cs.length := by
  obtain ⟨text, rest, parts, rfl, rfl, -⟩ := exists_nameText_of_nameLength? hLength
  rw [List.length_append]
  omega

theorem variableNameLength_le (cs : List Char) : variableNameLength cs ≤ cs.length :=
  (List.takeWhile_prefix _).length_le

theorem systemVariableLength?_le (hLength : systemVariableLength? cs = some length) :
    length ≤ cs.length := by
  unfold systemVariableLength? at hLength
  split at hLength
  · next cs =>
    have := variableNameLength_le cs
    split at hLength <;> cases hLength
    simp only [List.length_cons]
    omega
  · cases hLength

theorem userVariableLength?_le (hLength : userVariableLength? cs = some length) :
    length ≤ cs.length := by
  unfold userVariableLength? at hLength
  split at hLength
  · next cs =>
    have := variableNameLength_le cs
    split at hLength <;> cases hLength
    simp only [List.length_cons]
    omega
  · cases hLength

end Token

open Pattern in
/-- The rules of the dialects take no more of a text than there is. -/
theorem Dialect.within_of_mem {dialect : Dialect} {rule : TokenRule}
    (hMem : rule ∈ dialect.grammar.tokens.rules) : rule.pattern.Within := by
  cases isRule_of_mem hMem with
  | phrase hPhrase =>
    obtain ⟨_, _, words, _, rfl⟩ := RuleSet.exists_phrase hPhrase
    exact within_words words
  | systemVariable => exact within_scan fun _ _ => Token.systemVariableLength?_le
  | userVariable => exact within_scan fun _ _ => Token.userVariableLength?_le
  | number => exact within_scan fun _ _ => Token.numberLength?_le
  | singleText | doubleText => exact within_scan fun _ _ => Token.quotedLength?_le
  | name => exact within_scan fun _ _ => Token.nameLength?_le
  | mark hMark =>
    obtain ⟨_, _, text, _, rfl⟩ := RuleSet.exists_symbol hMark
    exact within_literal text

/-! ## Readings in their place -/

namespace Lexer

variable {rules : RuleSet} {before cs : List Char} {token : Token} {after : Lexer}

/-- A lexer that goes on behind a part of its text. -/
theorem advance_between (before part rest : List Char) :
    (between rules before (part ++ rest)).advance part.length =
      between rules (before ++ part) rest := by
  simp [advance, between]

/-- **What one reading takes.**  Behind a gap it comes to the end of the text, or
it takes what the first matching rule matches. -/
theorem next_between_eq_ok (hNext : (between rules before cs).next = (.ok token, after)) :
    (Text.Gap cs [] ∧ token = .behind (before ++ cs) .finish []) ∨
      ∃ gap lexeme rest kind, cs = gap ++ (lexeme ++ rest) ∧ Text.Gap gap (lexeme ++ rest) ∧
        Text.gapLength (lexeme ++ rest) = 0 ∧ lexeme ++ rest ≠ [] ∧
        rules.first? (lexeme ++ rest) = some (lexeme, some kind) ∧
        token = .behind (before ++ gap) kind lexeme ∧
        after = between rules (before ++ gap ++ lexeme) rest := by
  obtain ⟨gap, rest, rfl, hLength, hEnd, hGap⟩ := Text.exists_gap cs
  have hSkip : (between rules before (gap ++ rest)).skip = between rules (before ++ gap) rest := by
    rw [skip, between, hLength, ← between, advance_between]
  rw [next, hSkip, read] at hNext
  split at hNext
  · next hEmpty =>
    obtain rfl : rest = [] := List.isEmpty_iff.1 hEmpty
    cases hNext
    rw [List.append_nil]
    exact Or.inl ⟨hGap, by simp [Token.behind, spanOf, between]⟩
  · next hEmpty =>
    split at hNext
    · next lexeme kind hMatch =>
      have hFirst : rules.first? rest = some (lexeme, some kind) := hMatch
      have hPrefix : lexeme <+: rest := by
        obtain ⟨rule, -, hRule⟩ := List.exists_of_findSome?_eq_some hFirst
        exact TokenRule.prefix_of_match? hRule
      obtain ⟨rest, rfl⟩ := hPrefix
      rw [advance_between] at hNext
      cases hNext
      refine Or.inr ⟨gap, lexeme, rest, kind, rfl, hGap, hEnd, ?_, hFirst, ?_, rfl⟩
      · exact fun h => hEmpty (List.isEmpty_iff.2 h)
      · simp [Token.behind, spanOf, between, Nat.add_assoc]
    · cases hNext
    · cases hNext

end Lexer

/-! ## Tilings -/

/-- The tokens of a text that stands behind another one: gaps and lexemes in
turn, and a gap up to the end. -/
inductive Tiling : List Char → List Char → TokenStream → Prop
  | finish {before gap : List Char} (hGap : Text.Gap gap []) :
    Tiling before gap ⟨[], .behind (before ++ gap) .finish []⟩
  | token {before gap lexeme rest : List Char} {kind : TokenKind} {stream : TokenStream}
      (hGap : Text.Gap gap (lexeme ++ rest)) (hLexeme : lexeme ≠ []) (hKind : kind ≠ .finish)
      (hRest : Tiling (before ++ gap ++ lexeme) rest stream) :
    Tiling before (gap ++ (lexeme ++ rest)) (stream.cons (.behind (before ++ gap) kind lexeme))

/-- The readings of rules that move on tile the text. -/
theorem Lexer.tiling_of_tokenizeWithin {rules : RuleSet}
    (hMoving : ∀ rule ∈ rules.rules, rule.Moving) {limit : Nat} {before cs : List Char}
    {stream : TokenStream} (hTokens : (between rules before cs).tokenizeWithin limit = .ok stream) :
    Tiling before cs stream := by
  induction limit generalizing before cs stream with
  | zero => cases hTokens
  | succ limit ih =>
    rw [tokenizeWithin] at hTokens
    split at hTokens
    · cases hTokens
    · next token after hNext =>
      rcases next_between_eq_ok hNext with ⟨hGap, rfl⟩ |
        ⟨gap, lexeme, rest, kind, rfl, hGap, -, hNe, hFirst, rfl, rfl⟩
      · cases hTokens
        exact .finish hGap
      · obtain ⟨hLexeme, hKind⟩ := RuleSet.match_moves hMoving hNe hFirst
        have hNot : ¬(Token.behind (before ++ gap) kind lexeme).kind.isFinish = true :=
          fun h => hKind (TokenKind.isFinish_iff.1 h)
        rw [if_neg hNot] at hTokens
        cases hRest : (between rules (before ++ gap ++ lexeme) rest).tokenizeWithin limit with
        | error e => rw [hRest] at hTokens; cases hTokens
        | ok stream' =>
          rw [hRest] at hTokens
          cases hTokens
          exact .token hGap hLexeme hKind (ih hRest)

theorem TokenStream.toList_cons (token : Token) (stream : TokenStream) :
    (stream.cons token).toList = token :: stream.toList := rfl

namespace Tiling

variable {before cs : List Char} {stream : TokenStream}

/-- The last token is the end of the input, behind the whole text. -/
theorem last_eq (hTiling : Tiling before cs stream) :
    stream.last = .behind (before ++ cs) .finish [] := by
  induction hTiling with
  | finish => rfl
  | token _ _ _ _ ih => exact ih.trans (by simp)

/-- The tokens before the last one are not the end and take some of the text. -/
theorem of_mem_ahead (hTiling : Tiling before cs stream) {token : Token}
    (hMem : token ∈ stream.ahead) :
    token.kind ≠ .finish ∧ token.span.start < token.span.stop := by
  induction hTiling with
  | finish => cases hMem
  | @token before gap lexeme _ _ _ _ hLexeme hKind _ ih =>
    rcases List.mem_cons.1 hMem with rfl | hMem
    · refine ⟨hKind, ?_⟩
      have := Text.byteLength_pos_of_ne_nil hLexeme
      simp only [Token.behind, Text.byteLength_append]
      omega
    · exact ih hMem

/-- Each token stands at a lexeme of the text. -/
theorem exists_lexeme (hTiling : Tiling before cs stream) {token : Token}
    (hMem : token ∈ stream.toList) :
    ∃ skipped lexeme rest, cs = skipped ++ (lexeme ++ rest) ∧
      token = .behind (before ++ skipped) token.kind lexeme := by
  induction hTiling with
  | @finish before gap _ =>
    obtain rfl := List.mem_singleton.1 hMem
    exact ⟨gap, [], [], (List.append_nil _).symm, rfl⟩
  | @token before gap lexeme rest kind stream _ _ _ _ ih =>
    rcases List.mem_cons.1 hMem with rfl | hMem
    · exact ⟨gap, lexeme, rest, rfl, rfl⟩
    · obtain ⟨skipped, lexeme', rest', rfl, hToken⟩ := ih hMem
      refine ⟨gap ++ (lexeme ++ skipped), lexeme', rest', by simp, ?_⟩
      rw [hToken]
      simp [Token.behind]

/-- The tokens stand one behind the other. -/
theorem pairwise (hTiling : Tiling before cs stream) :
    stream.toList.Pairwise fun a b => a.span.stop ≤ b.span.start := by
  induction hTiling with
  | finish => exact List.pairwise_singleton _ _
  | @token before gap lexeme rest kind stream _ _ _ hRest ih =>
    refine List.pairwise_cons.2 ⟨fun token hMem => ?_, ih⟩
    obtain ⟨skipped, lexeme', -, -, hToken⟩ := hRest.exists_lexeme hMem
    rw [hToken]
    simp only [Token.behind, Text.byteLength_append]
    omega

end Tiling

/-! ## Parts of a text -/

namespace Text

/-- A position between two characters of a text, or at one of its ends. -/
def Border (cs : List Char) (position : Nat) : Prop :=
  ∃ front back, cs = front ++ back ∧ position = byteLength front

end Text

/-- The span from the end of one part of a text to the end of the next. -/
theorem Span.text_of_append {source : String} (front part back : List Char)
    (hSource : source.toList = front ++ (part ++ back)) :
    Span.text ⟨Text.byteLength front, Text.byteLength (front ++ part)⟩ source =
      String.ofList part := by
  rw [Span.text, hSource, Span.covered?_of_append, Option.getD_some]

/-! ## The whole text -/

/-- The spans between tokens: from a position to the first of them, and from
each to the next. -/
def gapSpans : Nat → List Token → List Span
  | _, [] => []
  | position, token :: tokens => ⟨position, token.span.start⟩ :: gapSpans token.span.stop tokens

namespace Tiling

variable {before cs : List Char} {stream : TokenStream}

/-- What stands between two tokens is a gap. -/
theorem exists_gap_of_mem (hTiling : Tiling before cs stream) {span : Span}
    (hMem : span ∈ gapSpans (Text.byteLength before) stream.toList) :
    ∃ skipped gap rest, cs = skipped ++ (gap ++ rest) ∧ Text.Gap gap rest ∧
      span = ⟨Text.byteLength (before ++ skipped), Text.byteLength (before ++ skipped ++ gap)⟩ := by
  induction hTiling with
  | @finish before gap hGap =>
    obtain rfl := List.mem_singleton.1 hMem
    exact ⟨[], gap, [], by simp, hGap, by simp [Token.behind]⟩
  | @token before gap lexeme rest kind stream hGap _ _ _ ih =>
    rcases List.mem_cons.1 hMem with rfl | hMem
    · exact ⟨[], gap, lexeme ++ rest, rfl, hGap, by simp [Token.behind]⟩
    · obtain ⟨skipped, gap', rest', rfl, hGap', rfl⟩ := ih hMem
      exact ⟨gap ++ (lexeme ++ skipped), gap', rest', by simp, hGap', by simp⟩

/-- Gaps and lexemes in turn are the text. -/
theorem join_eq (hTiling : Tiling before cs stream) {source : String}
    (hSource : source.toList = before ++ cs) :
    (String.join (List.zipWith (fun gap token => gap.text source ++ token.lexeme)
      (gapSpans (Text.byteLength before) stream.toList) stream.toList)).toList = cs := by
  induction hTiling with
  | @finish before gap _ =>
    have hText := Span.text_of_append before gap [] (by simpa using hSource)
    simp [TokenStream.toList, gapSpans, Token.behind, -Text.byteLength_append, hText]
  | @token before gap lexeme rest kind stream _ _ _ _ ih =>
    have hText := Span.text_of_append before gap (lexeme ++ rest) hSource
    have hRest := ih (by simpa using hSource)
    rw [TokenStream.toList_cons, gapSpans, List.zipWith_cons_cons, String.join_cons,
      String.toList_append]
    simp only [Token.behind, hText, hRest, String.toList_append, String.toList_ofList]
    rw [List.append_assoc]

end Tiling

/-- **What a text is divided into.**  The end of the input comes last and once,
behind the whole text; the other tokens take some of the text each, whole
characters and one behind the other; between them are blanks and comments; and
what is between them and what they took is the text. -/
structure TokenStream.Partitions (stream : TokenStream) (source : String) : Prop where
  last_eq : stream.last =
    ⟨.finish, ⟨Text.byteLength source.toList, Text.byteLength source.toList⟩, ""⟩
  kind_ne_finish : ∀ token ∈ stream.ahead, token.kind ≠ .finish
  start_lt_stop : ∀ token ∈ stream.ahead, token.span.start < token.span.stop
  border : ∀ token ∈ stream.toList,
    Text.Border source.toList token.span.start ∧ Text.Border source.toList token.span.stop
  stop_le_start : stream.toList.Pairwise fun a b => a.span.stop ≤ b.span.start
  lexeme_eq : ∀ token ∈ stream.toList, token.lexeme = token.span.text source
  gap : ∀ span ∈ gapSpans 0 stream.toList, ∃ rest,
    Text.dropBytes? span.stop source.toList = some rest ∧ Text.Gap (span.text source).toList rest
  join_eq : String.join (List.zipWith (fun gap token => gap.text source ++ token.lexeme)
    (gapSpans 0 stream.toList) stream.toList) = source

/-- A tiling of a whole text is a partition of it. -/
theorem Tiling.partitions {source : String} {stream : TokenStream}
    (hTiling : Tiling [] source.toList stream) : stream.Partitions source where
  last_eq := hTiling.last_eq.trans (by simp [Token.behind])
  kind_ne_finish _ hMem := (hTiling.of_mem_ahead hMem).1
  start_lt_stop _ hMem := (hTiling.of_mem_ahead hMem).2
  border token hMem := by
    obtain ⟨skipped, lexeme, rest, hText, hToken⟩ := hTiling.exists_lexeme hMem
    rw [hToken, hText]
    exact ⟨⟨skipped, lexeme ++ rest, rfl, rfl⟩, ⟨skipped ++ lexeme, rest, by simp, rfl⟩⟩
  stop_le_start := hTiling.pairwise
  lexeme_eq token hMem := by
    obtain ⟨skipped, lexeme, rest, hText, hToken⟩ := hTiling.exists_lexeme hMem
    rw [hToken]
    exact (Span.text_of_append _ _ _ hText).symm
  gap span hMem := by
    obtain ⟨skipped, gap, rest, hText, hGap, rfl⟩ := hTiling.exists_gap_of_mem hMem
    refine ⟨rest, ?_, ?_⟩
    · rw [hText, ← List.append_assoc]
      exact Text.dropBytes?_byteLength _ _
    · rw [List.nil_append, Span.text_of_append _ _ _ hText, String.toList_ofList]
      exact hGap
  join_eq := String.toList_injective (hTiling.join_eq rfl)

/-- **Nothing of a text is lost.**  Under rules that never take the empty text
and never make the end of the input of a text, the tokens of a text and the gaps
between them make it up; and the rules of both dialects are such, their lengths
never leaving the text. -/
theorem TokenStream.partitions_of_tokenize :
    (∀ dialect : Dialect, ∀ rule ∈ dialect.grammar.tokens.rules,
      rule.Moving ∧ rule.pattern.Within) ∧
    ∀ (rules : RuleSet) (source : String) (stream : TokenStream),
      (∀ rule ∈ rules.rules, rule.Moving) → rules.tokenize source = .ok stream →
        stream.Partitions source :=
  ⟨fun _ _ hMem => ⟨Dialect.moving_of_mem hMem, Dialect.within_of_mem hMem⟩,
    fun _ source _ hMoving hTokens =>
      (@Lexer.tiling_of_tokenizeWithin _ hMoving _ [] source.toList _ hTokens).partitions⟩

/-- The tokens of a text with characters of several bytes, a variable and
comments of each sort, the last of them without an end. -/
def variableStream : TokenStream :=
  ⟨[⟨.keyword .SELECT, ⟨2, 8⟩, "SELECT"⟩, ⟨.identifier "né" none, ⟨9, 12⟩, "né"⟩,
      ⟨.comma, ⟨21, 22⟩, ","⟩, ⟨.systemVariable "x", ⟨26, 29⟩, "@@x"⟩],
    ⟨.finish, ⟨36, 36⟩, ""⟩⟩

theorem TokenStream.partitions_variableStream :
    (∀ rule ∈ Grammar.mysql.tokens.rules, rule.Moving) ∧
      Grammar.mysql.tokens.tokenize "  SELECT né /* ü */, --\n@@x /* →" = .ok variableStream ∧
      variableStream.Partitions "  SELECT né /* ü */, --\n@@x /* →" := by
  have hMoving : ∀ rule ∈ Grammar.mysql.tokens.rules, rule.Moving := fun rule hMem =>
    @Dialect.moving_of_mem .mysql rule hMem
  have hTokens : Grammar.mysql.tokens.tokenize "  SELECT né /* ü */, --\n@@x /* →" =
      .ok variableStream := by
    decide +kernel
  exact ⟨hMoving, hTokens, TokenStream.partitions_of_tokenize.2 _ _ _ hMoving hTokens⟩

end SqlQuery
