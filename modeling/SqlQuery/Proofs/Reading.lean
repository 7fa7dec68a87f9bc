import SqlQuery.Proofs.Completeness
import SqlQuery.Proofs.RuleOrder

/-!
# Readings

What the lexer makes of a text, without positions: a *reading* divides a text
into gaps and lexemes, each lexeme taken by the first rule that matches.  The
tokens of a text are its reading, and a text has a tree exactly if its reading
is the glyphs of a statement.

A reading is *plain* if all of its gaps consist of blanks, that is, if no
comment was skipped.

## Main definitions

* `RuleSet.Reads` — the readings of a text.
* `RuleSet.commentFree` — whether the lexer skips only blanks in a text.

## Main results

* `Dialect.reads_of_tokenize`, `Dialect.tokenize_of_reads` — tokens and readings.
* `parse_eq_ok_iff` — trees and derivations of readings.
-/

namespace SqlQuery

open Glyph (front)

/-! ## Matches -/

namespace RuleSet

/-- The text that the first matching rule takes at the start of a text, and what
it makes of it. -/
def first? (rules : RuleSet) (cs : List Char) : Option (List Char × Option TokenKind) :=
  rules.rules.findSome? fun rule => rule.match? cs

end RuleSet

theorem Lexer.firstMatch?_eq_first? (lexer : Lexer) :
    lexer.firstMatch? = lexer.rules.first? lexer.rest := rfl

namespace TokenRule

variable {rule : TokenRule} {cs lexeme : List Char} {kind? : Option TokenKind}

theorem match?_eq_some_iff :
    rule.match? cs = some (lexeme, kind?) ↔
      ∃ length, rule.pattern.length? cs = some length ∧ lexeme = cs.take length ∧
        kind? = rule.reading.apply lexeme := by
  rw [match?, Option.map_eq_some_iff]
  constructor
  · rintro ⟨length, hLength, hPair⟩
    cases hPair
    exact ⟨length, hLength, rfl, rfl⟩
  · rintro ⟨length, hLength, rfl, rfl⟩
    exact ⟨length, hLength, rfl⟩

/-- A rule takes its text from the front. -/
theorem prefix_of_match? (hMatch : rule.match? cs = some (lexeme, kind?)) : lexeme <+: cs := by
  obtain ⟨length, -, rfl, -⟩ := match?_eq_some_iff.1 hMatch
  exact List.take_prefix length cs

/-- A rule that never takes the empty text, and never stands for the end. -/
structure Moving (rule : TokenRule) : Prop where
  length_pos : ∀ cs length, rule.pattern.length? cs = some length → 0 < length
  ne_finish : ∀ cs, rule.reading.apply cs ≠ some .finish

/-- A rule for a phrase moves on if its first word is not empty. -/
theorem moving_phrase {name : String} {priority : Nat} {word : String} {words : List String}
    {keyword : Keyword} (hWord : 0 < word.toList.length) :
    (phrase name priority (word :: words) keyword).Moving := by
  constructor
  · intro cs length hLength
    obtain ⟨first, hFirst, hRest⟩ := Option.bind_eq_some_iff.1 hLength
    obtain ⟨further, -, hSum⟩ := Option.bind_eq_some_iff.1 hRest
    rw [Pattern.wordLength?] at hFirst
    split at hFirst
    · cases hFirst
      cases hSum
      omega
    · cases hFirst
  · intro cs hFinish
    cases hFinish

theorem moving_symbol {name : String} {priority : Nat} {text : String} {kind : TokenKind}
    (hText : 0 < text.length) (hKind : kind ≠ .finish) :
    (symbol name priority text kind).Moving := by
  constructor
  · intro cs length hLength
    rw [symbol, Pattern.length?] at hLength
    split at hLength
    · cases hLength
      exact hText
    · cases hLength
  · intro cs hFinish
    exact hKind (Option.some.inj hFinish)

theorem moving_scanned {name : String} {priority : Nat} {length? : List Char → Option Nat}
    {read : List Char → Option TokenKind} (hRead : ∀ cs, read cs ≠ some .finish) :
    (scanned name priority length? read).Moving := by
  constructor
  · intro cs length hLength
    obtain ⟨-, hPos⟩ := Option.filter_eq_some_iff.1 hLength
    exact Nat.blt_eq ▸ hPos
  · exact hRead

end TokenRule

/-! ## The rules of the dialects move on -/

namespace Token

/-- A number is an integer or floating. -/
theorem readNumber_cases {cs : List Char} {kind : TokenKind} (hRead : readNumber cs = some kind) :
    (∃ value, kind = .integer value) ∨ ∃ value, kind = .float value := by
  unfold readNumber at hRead
  split at hRead
  · obtain ⟨value, -, hValue⟩ := Option.bind_eq_some_iff.1 hRead
    split at hValue <;> cases hValue
    exact Or.inr ⟨value, rfl⟩
  · split at hRead
    · cases hRead
    · dsimp only at hRead
      split at hRead <;> cases hRead
      exact Or.inl ⟨_, rfl⟩

theorem readNumber_ne_finish (cs : List Char) : readNumber cs ≠ some .finish := by
  intro hFinish
  rcases readNumber_cases hFinish with ⟨value, hKind⟩ | ⟨value, hKind⟩ <;> cases hKind

/-- A quoted text is a text. -/
theorem exists_of_readText {cs : List Char} {kind : TokenKind} (hRead : readText cs = some kind) :
    ∃ value, kind = .text value := by
  obtain ⟨word, -, rfl⟩ := Option.map_eq_some_iff.1 hRead
  exact ⟨_, rfl⟩

theorem readText_ne_finish (cs : List Char) : readText cs ≠ some .finish := by
  intro hFinish
  obtain ⟨value, hKind⟩ := exists_of_readText hFinish
  cases hKind

theorem readName_ne_finish (cs : List Char) : readName cs ≠ some .finish := by
  intro hFinish
  obtain ⟨parts, -, hParts⟩ := Option.map_eq_some_iff.1 hFinish
  dsimp only at hParts
  split at hParts <;> cases hParts

theorem readSystemVariable_ne_finish (cs : List Char) : readSystemVariable cs ≠ some .finish := by
  intro hFinish
  unfold readSystemVariable at hFinish
  split at hFinish <;> cases hFinish

theorem readUserVariable_ne_finish (cs : List Char) : readUserVariable cs ≠ some .finish := by
  intro hFinish
  unfold readUserVariable at hFinish
  split at hFinish <;> cases hFinish

end Token

open TokenRule in
theorem Dialect.moving_of_mem {dialect : Dialect} {rule : TokenRule}
    (hMem : rule ∈ dialect.grammar.tokens.rules) : rule.Moving := by
  cases isRule_of_mem hMem with
  | phrase hPhrase =>
    simp only [RuleSet.phrases, List.mem_cons, List.not_mem_nil, or_false] at hPhrase
    rcases hPhrase with rfl | rfl | rfl | rfl | rfl | rfl | rfl | rfl | rfl | rfl | rfl | rfl <;>
      exact moving_phrase (by decide)
  | systemVariable => exact moving_scanned Token.readSystemVariable_ne_finish
  | userVariable => exact moving_scanned Token.readUserVariable_ne_finish
  | number => exact moving_scanned Token.readNumber_ne_finish
  | singleText | doubleText => exact moving_scanned Token.readText_ne_finish
  | name => exact moving_scanned Token.readName_ne_finish
  | mark hMark =>
    simp only [RuleSet.marks, List.mem_cons, List.not_mem_nil, or_false] at hMark
    rcases hMark with rfl | rfl | rfl | rfl | rfl | rfl | rfl | rfl | rfl | rfl | rfl | rfl | rfl |
      rfl | rfl | rfl | rfl | rfl <;> exact moving_symbol (by decide) (by simp)

/-! ## Readings -/

/-- The readings of a text: gaps, and lexemes with their kinds.  In a plain
reading the gaps consist of blanks. -/
inductive RuleSet.Reads (rules : RuleSet) (plain : Bool) : List Char → List Glyph → Prop
  | done {gap : List Char} (hGap : Text.gapLength gap = gap.length)
      (hPlain : plain = true → ∀ c ∈ gap, Text.isBlank c = true) :
    Reads rules plain gap []
  | token {gap lexeme rest : List Char} {kind : TokenKind} {gs : List Glyph}
      (hGap : Text.gapLength (gap ++ (lexeme ++ rest)) = gap.length)
      (hPlain : plain = true → ∀ c ∈ gap, Text.isBlank c = true)
      (hLexeme : lexeme ≠ [])
      (hMatch : rules.first? (lexeme ++ rest) = some (lexeme, some kind))
      (hRest : Reads rules plain rest gs) :
    Reads rules plain (gap ++ (lexeme ++ rest)) (⟨kind, String.ofList lexeme⟩ :: gs)

namespace Lexer

/-- Whether at most `limit` readings skip only blanks. -/
def commentFreeWithin : Nat → Lexer → Bool
  | 0, _ => true
  | limit + 1, lexer =>
    (lexer.rest.take (Text.gapLength lexer.rest)).all Text.isBlank &&
      match lexer.next with
      | (.error _, _) => true
      | (.ok token, after) => token.kind.isFinish || commentFreeWithin limit after

end Lexer

/-- Whether the lexer skips only blanks, and never a comment, in a text. -/
def RuleSet.commentFree (rules : RuleSet) (source : String) : Bool :=
  (Lexer.start rules source).commentFreeWithin (source.length + 1)

namespace Text

mutual

theorem gapLength_le (cs : List Char) : gapLength cs ≤ cs.length := by
  unfold gapLength
  split
  · exact Nat.le_refl _
  · next cs =>
    have := lineCommentLength_le cs
    simp only [List.length_cons]
    omega
  · next cs =>
    have := blockCommentLength_le cs
    simp only [List.length_cons]
    omega
  · next c cs _ _ =>
    have := gapLength_le cs
    simp only [List.length_cons]
    split <;> omega
termination_by cs.length

theorem lineCommentLength_le (cs : List Char) : lineCommentLength cs ≤ cs.length := by
  unfold lineCommentLength
  split
  · exact Nat.le_refl _
  · next c cs =>
    have := gapLength_le cs
    have := lineCommentLength_le cs
    simp only [List.length_cons]
    split <;> omega
termination_by cs.length

theorem blockCommentLength_le (cs : List Char) : blockCommentLength cs ≤ cs.length := by
  unfold blockCommentLength
  split
  · exact Nat.le_refl _
  · next cs =>
    have := gapLength_le cs
    simp only [List.length_cons]
    omega
  · next c cs _ =>
    have := blockCommentLength_le cs
    simp only [List.length_cons]
    omega
termination_by cs.length

end

end Text

namespace Lexer

variable {lexer after : Lexer} {token : Token}

/-- What a successful reading of one token is: the end of the text, or the match
of a rule after the gap. -/
theorem next_eq_ok (hNext : lexer.next = (.ok token, after)) :
    (token.glyph = ⟨.finish, ""⟩ ∧ Text.gapLength lexer.rest = lexer.rest.length) ∨
      ∃ gap lexeme rest kind, lexer.rest = gap ++ (lexeme ++ rest) ∧
        gap.length = Text.gapLength lexer.rest ∧ lexeme ++ rest ≠ [] ∧
        lexer.rules.first? (lexeme ++ rest) = some (lexeme, some kind) ∧
        token.glyph = ⟨kind, String.ofList lexeme⟩ ∧
        after.rules = lexer.rules ∧ after.rest = rest := by
  have hGap := Text.gapLength_le lexer.rest
  rw [next, read] at hNext
  split at hNext
  · next hEmpty =>
    cases hNext
    refine Or.inl ⟨rfl, ?_⟩
    have hDrop : lexer.rest.drop (Text.gapLength lexer.rest) = [] := List.isEmpty_iff.1 hEmpty
    exact Nat.le_antisymm hGap (List.drop_eq_nil_iff.1 hDrop)
  · next hEmpty =>
    split at hNext
    · next lexeme kind hMatch =>
      cases hNext
      have hRest : lexer.skip.rest = lexer.rest.drop (Text.gapLength lexer.rest) := rfl
      have hPrefix : lexeme <+: lexer.skip.rest := by
        obtain ⟨rule, -, hRule⟩ := List.exists_of_findSome?_eq_some hMatch
        exact TokenRule.prefix_of_match? hRule
      obtain ⟨rest, hAppend⟩ := hPrefix
      refine Or.inr ⟨lexer.rest.take (Text.gapLength lexer.rest), lexeme, rest, kind,
        ?_, ?_, ?_, ?_, rfl, rfl, ?_⟩
      · rw [hAppend, hRest, List.take_append_drop]
      · rw [List.length_take, Nat.min_eq_left hGap]
      · rw [hAppend]
        exact fun h => hEmpty (List.isEmpty_iff.2 h)
      · rw [hAppend]
        exact hMatch
      · show lexer.skip.rest.drop lexeme.length = rest
        rw [← hAppend, List.drop_left]
    · cases hNext
    · cases hNext

/-- The lexer at the end of a text. -/
theorem next_of_end (hGap : Text.gapLength lexer.rest = lexer.rest.length) :
    ∃ token after, lexer.next = (.ok token, after) ∧ token.kind = .finish := by
  have hEmpty : lexer.skip.rest.isEmpty = true := by
    rw [List.isEmpty_iff]
    exact List.drop_eq_nil_of_le (Nat.le_of_eq hGap.symm)
  exact ⟨_, _, by rw [next, read, if_pos hEmpty], rfl⟩

/-- The lexer before a gap and a lexeme. -/
theorem next_of_match {gap lexeme rest : List Char} {kind : TokenKind}
    (hText : lexer.rest = gap ++ (lexeme ++ rest))
    (hGap : Text.gapLength lexer.rest = gap.length) (hLexeme : lexeme ≠ [])
    (hMatch : lexer.rules.first? (lexeme ++ rest) = some (lexeme, some kind)) :
    ∃ token after, lexer.next = (.ok token, after) ∧ token.glyph = ⟨kind, String.ofList lexeme⟩ ∧
      after.rules = lexer.rules ∧ after.rest = rest := by
  have hRest : lexer.skip.rest = lexeme ++ rest := by
    show lexer.rest.drop (Text.gapLength lexer.rest) = _
    rw [hGap, hText, List.drop_left]
  have hEmpty : ¬lexer.skip.rest.isEmpty = true := by
    rw [hRest, List.isEmpty_iff]
    exact List.append_ne_nil_of_left_ne_nil hLexeme rest
  have hMatch' : lexer.skip.firstMatch? = some (lexeme, some kind) := by
    rw [firstMatch?_eq_first?, hRest]
    exact hMatch
  refine ⟨⟨kind, lexer.skip.spanOf lexeme, String.ofList lexeme⟩, lexer.skip.advance lexeme.length,
    ?_, rfl, rfl, ?_⟩
  · rw [next, read, if_neg hEmpty, hMatch']
  show lexer.skip.rest.drop lexeme.length = rest
  rw [hRest, List.drop_left]

end Lexer

namespace TokenKind

theorem isFinish_iff {kind : TokenKind} : kind.isFinish = true ↔ kind = .finish := by
  cases kind <;> simp [isFinish]

end TokenKind

/-! ## Tokens are readings -/

section Tokens

variable {rules : RuleSet} {dialect : Dialect} {plain : Bool}

/-- A match of rules that move on is not empty and not the end. -/
theorem RuleSet.match_moves (hMoving : ∀ rule ∈ rules.rules, rule.Moving) {cs lexeme : List Char}
    {kind : TokenKind} (hText : cs ≠ []) (hMatch : rules.first? cs = some (lexeme, some kind)) :
    lexeme ≠ [] ∧ kind ≠ .finish := by
  obtain ⟨rule, hMem, hRule⟩ := List.exists_of_findSome?_eq_some hMatch
  obtain ⟨length, hLength, rfl, hKind⟩ := TokenRule.match?_eq_some_iff.1 hRule
  have hMoving := hMoving rule hMem
  refine ⟨?_, ?_⟩
  · have := hMoving.length_pos _ _ hLength
    rw [Ne, List.take_eq_nil_iff]
    rintro (h | h)
    · omega
    · exact hText h
  · rintro rfl
    exact hMoving.ne_finish _ hKind.symm

theorem Dialect.match_moves {cs lexeme : List Char} {kind : TokenKind} (hText : cs ≠ [])
    (hMatch : dialect.grammar.tokens.first? cs = some (lexeme, some kind)) :
    lexeme ≠ [] ∧ kind ≠ .finish :=
  RuleSet.match_moves (fun _ => Dialect.moving_of_mem) hText hMatch

/-- The tokens that the lexer finds are a reading of the text, plain if it skips
only blanks. -/
theorem RuleSet.reads_of_tokenizeWithin (hMoving : ∀ rule ∈ rules.rules, rule.Moving)
    {limit : Nat} {lexer : Lexer} {stream : TokenStream} (hRules : lexer.rules = rules)
    (hTokens : lexer.tokenizeWithin limit = .ok stream)
    (hPlain : plain = true → lexer.commentFreeWithin limit = true) :
    rules.Reads plain lexer.rest stream.glyphs ∧ stream.Closed ∧
      ∀ glyph ∈ stream.glyphs, glyph.kind ≠ .finish := by
  induction limit generalizing lexer stream with
  | zero => cases hTokens
  | succ limit ih =>
    have hBlanks : plain = true →
        ∀ c ∈ lexer.rest.take (Text.gapLength lexer.rest), Text.isBlank c = true := by
      intro h
      have hFree := hPlain h
      rw [Lexer.commentFreeWithin, Bool.and_eq_true] at hFree
      exact List.all_eq_true.1 hFree.1
    rw [Lexer.tokenizeWithin] at hTokens
    split at hTokens
    · cases hTokens
    · next token after hNext =>
      rcases Lexer.next_eq_ok hNext with ⟨hGlyph, hGap⟩ | ⟨gap, lexeme, rest, kind, hText, hGap,
        hNe, hMatch, hGlyph, hRules', hRest⟩
      · have hKind : token.kind.isFinish = true :=
          TokenKind.isFinish_iff.2 (Glyph.mk.inj hGlyph).1
        rw [if_pos hKind] at hTokens
        cases hTokens
        rw [hGap, List.take_length] at hBlanks
        exact ⟨.done hGap hBlanks, TokenKind.isFinish_iff.1 hKind, by simp [TokenStream.glyphs]⟩
      · rw [hRules] at hMatch hRules'
        obtain ⟨hLexeme, hFinish⟩ := match_moves hMoving hNe hMatch
        have hKind : ¬token.kind.isFinish = true := by
          rw [TokenKind.isFinish_iff, (Glyph.mk.inj hGlyph).1]
          exact hFinish
        rw [if_neg hKind] at hTokens
        cases hRest' : after.tokenizeWithin limit with
        | error e => rw [hRest'] at hTokens; cases hTokens
        | ok stream' =>
          rw [hRest'] at hTokens
          cases hTokens
          have hPlain' : plain = true → after.commentFreeWithin limit = true := by
            intro h
            have hFree := hPlain h
            rw [Lexer.commentFreeWithin, hNext, Bool.and_eq_true] at hFree
            simpa [hKind] using hFree.2
          obtain ⟨hReads, hClosed, hKinds⟩ := ih hRules' hRest' hPlain'
          have hGlyphs : (TokenStream.cons token stream').glyphs =
              ⟨kind, String.ofList lexeme⟩ :: stream'.glyphs := by
            rw [← hGlyph]
            rfl
          have hTake : lexer.rest.take (Text.gapLength lexer.rest) = gap := by
            rw [← hGap, hText, List.take_left]
          rw [hTake] at hBlanks
          rw [hRest] at hReads
          rw [hGlyphs, hText]
          refine ⟨.token (by rw [← hText, hGap]) hBlanks hLexeme hMatch hReads, hClosed, ?_⟩
          rintro glyph (_ | ⟨_, hMem⟩)
          · exact hFinish
          · exact hKinds glyph hMem

/-- A reading of a text is what the lexer finds. -/
theorem Dialect.tokenizeWithin_of_reads {cs : List Char} {gs : List Glyph}
    (hReads : dialect.grammar.tokens.Reads plain cs gs) {limit : Nat} (hLimit : cs.length < limit)
    {lexer : Lexer} (hRules : lexer.rules = dialect.grammar.tokens) (hText : lexer.rest = cs) :
    ∃ stream, lexer.tokenizeWithin limit = .ok stream ∧ stream.glyphs = gs ∧ stream.Closed := by
  induction hReads generalizing limit lexer with
  | @done gap hGap _ =>
    obtain ⟨limit, rfl⟩ : ∃ below, limit = below + 1 := ⟨limit - 1, by omega⟩
    subst hText
    obtain ⟨token, after, hNext, hKind⟩ := Lexer.next_of_end hGap
    refine ⟨⟨[], token⟩, ?_, rfl, hKind⟩
    rw [Lexer.tokenizeWithin, hNext]
    exact if_pos (TokenKind.isFinish_iff.2 hKind)
  | @token gap lexeme rest kind gs hGap _ hLexeme hMatch _ ih =>
    obtain ⟨limit, rfl⟩ : ∃ below, limit = below + 1 := ⟨limit - 1, by omega⟩
    have hPos := List.length_pos_iff.2 hLexeme
    rw [← hText] at hGap
    have hFinish := (Dialect.match_moves (List.append_ne_nil_of_left_ne_nil hLexeme rest) hMatch).2
    obtain ⟨token, after, hNext, hGlyph, hRules', hRest⟩ :=
      Lexer.next_of_match hText hGap hLexeme (by rw [hRules]; exact hMatch)
    simp only [List.length_append] at hLimit
    obtain ⟨stream, hTokens, hGlyphs, hClosed⟩ :=
      ih (show rest.length < limit by omega) (hRules'.trans hRules) hRest
    refine ⟨stream.cons token, ?_, ?_, hClosed⟩
    · have hKind : ¬token.kind.isFinish = true := by
        rw [TokenKind.isFinish_iff, (Glyph.mk.inj hGlyph).1]
        exact hFinish
      rw [Lexer.tokenizeWithin, hNext]
      dsimp only
      rw [if_neg hKind, hTokens]
      rfl
    · rw [← hGlyphs, ← hGlyph]
      rfl

/-- The tokens of a text are a reading of it. -/
theorem Dialect.reads_of_tokenize {source : String} {stream : TokenStream}
    (hTokens : dialect.grammar.tokens.tokenize source = .ok stream)
    (hPlain : plain = true → dialect.grammar.tokens.commentFree source = true) :
    dialect.grammar.tokens.Reads plain source.toList stream.glyphs ∧ stream.Closed ∧
      ∀ glyph ∈ stream.glyphs, glyph.kind ≠ .finish :=
  RuleSet.reads_of_tokenizeWithin (fun _ => Dialect.moving_of_mem) rfl hTokens hPlain

/-- A reading of a text is its tokens. -/
theorem Dialect.tokenize_of_reads {source : String} {gs : List Glyph}
    (hReads : dialect.grammar.tokens.Reads plain source.toList gs) :
    ∃ stream, dialect.grammar.tokens.tokenize source = .ok stream ∧ stream.glyphs = gs ∧
      stream.Closed :=
  Dialect.tokenizeWithin_of_reads hReads (Nat.lt_succ_self _) rfl rfl

/-- A text has a tree if its reading is the glyphs of a statement. -/
theorem parse_of_derives {source : String} {node : Node} {gs : List Glyph}
    (hReads : dialect.grammar.tokens.Reads plain source.toList gs)
    (hDerives : DerivesStatement dialect node gs) : parse source dialect = .ok node := by
  obtain ⟨stream, hTokens, rfl, hClosed⟩ := Dialect.tokenize_of_reads hReads
  obtain ⟨rest, hRun⟩ := Grammar.statement_of_derives hClosed hDerives
  rw [parse, Grammar.parse, hTokens]
  dsimp only
  rw [hRun]

/-- A text with a tree has a reading that is the glyphs of a statement, and a
plain one if no comment is skipped in it. -/
theorem derives_of_parse (plain : Bool) {source : String} {node : Node}
    (hParse : parse source dialect = .ok node)
    (hPlain : plain = true → dialect.grammar.tokens.commentFree source = true) :
    ∃ stream, dialect.grammar.tokens.tokenize source = .ok stream ∧
      dialect.grammar.tokens.Reads plain source.toList stream.glyphs ∧
      DerivesStatement dialect node stream.glyphs := by
  rw [parse, Grammar.parse] at hParse
  split at hParse
  · cases hParse
  · next stream hTokens =>
    obtain ⟨hReads, hClosed, hFinish⟩ := Dialect.reads_of_tokenize hTokens hPlain
    split at hParse
    · next node' rest hRun =>
      cases hParse
      exact ⟨stream, hTokens, hReads, Grammar.derives_of_statement hClosed hFinish hRun⟩
    · cases hParse

end Tokens

end SqlQuery
