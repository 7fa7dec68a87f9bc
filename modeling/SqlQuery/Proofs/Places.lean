import SqlQuery.Proofs.Comparison
import SqlQuery.Proofs.Reading

/-!
# Places

No parser looks at the place of a token, so a place can reach its outcome only
as the place of an error.  Two texts with the same reading have therefore the
same tree, or errors that differ in nothing but their place.

## Main definitions

* `ParseError.unplaced` — an error without its place.
* `Comparison.places` — runs on streams that differ in places only.

## Main results

* `parse_congr` — texts with the same reading parse alike.
-/

namespace SqlQuery

/-! ## Forgetting places -/

/-- The error, moved to the beginning of the text. -/
def LexicalError.unplaced : LexicalError → LexicalError
  | .unrecognized fragment _ => .unrecognized fragment .zero
  | .stalled _ => .stalled 0

/-- The error, moved to the beginning of the text. -/
def SyntaxError.unplaced : SyntaxError → SyntaxError
  | .unexpected expected found _ => .unexpected expected found .zero
  | .described text _ => .described text .zero

/-- The error, moved to the beginning of the text: what was expected and what
was found, but not where. -/
def ParseError.unplaced : ParseError → ParseError
  | .lexical e => .lexical e.unplaced
  | .grammatical e => .grammatical e.unplaced
  | .structural e => .structural e
  | .tooDeep => .tooDeep

namespace TokenStream

variable {stream stream' : TokenStream}

theorem glyph_current_eq (hAhead : stream.glyphs = stream'.glyphs)
    (hLast : stream.last.glyph = stream'.last.glyph) :
    stream.current.glyph = stream'.current.glyph := by
  have hCurrent : ∀ stream : TokenStream,
      stream.current.glyph = stream.glyphs.headD stream.last.glyph := by
    rintro ⟨_ | ⟨token, ahead⟩, last⟩ <;> rfl
  rw [hCurrent, hCurrent stream', hAhead, hLast]

theorem peek_eq_of_glyphs (hAhead : stream.glyphs = stream'.glyphs)
    (hLast : stream.last.glyph = stream'.last.glyph) (n : Nat) :
    stream.peek n = stream'.peek n := by
  have hPeek : ∀ stream : TokenStream,
      stream.peek n = (stream.glyphs[n]?.getD stream.last.glyph).kind := by
    intro stream
    rw [glyphs, List.getElem?_map, Option.getD_map]
    rfl
  rw [hPeek, hPeek stream', hAhead, hLast]

end TokenStream

/-- Runs on streams that differ in places only. -/
def Comparison.places : Comparison where
  Streams stream stream' := stream.glyphs = stream'.glyphs ∧ stream.last.glyph = stream'.last.glyph
  Errors e e' := e.unplaced = e'.unplaced
  Waived _ := False
  view := id
  view_append := @view_append_id
  length_eq h := by simpa [TokenStream.glyphs] using congrArg List.length h.1
  peek_alike h n := by
    rw [TokenStream.peek_eq_of_glyphs h.1 h.2 n]
    exact .same _
  lexeme_eq h := (Glyph.mk.inj (TokenStream.glyph_current_eq h.1 h.2)).2
  streams_advance h := by
    refine ⟨?_, h.2⟩
    rw [TokenStream.glyphs_advance, TokenStream.glyphs_advance, h.1]
  errors_unexpected h expected := by
    have hKind := (Glyph.mk.inj (TokenStream.glyph_current_eq h.1 h.2)).1
    rw [hKind]
    rfl
  errors_structural := structural_refl
  errors_tooDeep := rfl

/-- The productions of a dialect agree with themselves under any comparison. -/
theorem Dialect.reduces (c : Comparison) (dialect : Dialect) :
    ∀ production ∈ dialect.grammar.productions, c.Reduces production := by
  cases dialect with
  | generic => exact fun _ hMem => Comparison.reduces_of_mem_base hMem
  | mysql =>
    intro production hMem
    rcases List.mem_append.1 hMem with hMem | hMem
    · rcases List.mem_append.1 hMem with hMem | hMem
      · exact Comparison.reduces_of_mem_base hMem
      · rw [List.mem_singleton.1 hMem]
        exact Comparison.reduces_variableName .operand
    · rw [List.mem_singleton.1 hMem]
      exact Comparison.reduces_variableName .source

/-! ## Texts with the same reading -/

section Texts

variable {dialect : Dialect}

/-- The end of the input is a token without text. -/
theorem Dialect.last_of_tokenizeWithin {limit : Nat} {lexer : Lexer} {stream : TokenStream}
    (hRules : lexer.rules = dialect.grammar.tokens)
    (hTokens : lexer.tokenizeWithin limit = .ok stream) : stream.last.glyph = ⟨.finish, ""⟩ := by
  induction limit generalizing lexer stream with
  | zero => cases hTokens
  | succ limit ih =>
    rw [Lexer.tokenizeWithin] at hTokens
    split at hTokens
    · cases hTokens
    · next token after hNext =>
      rcases Lexer.next_eq_ok hNext with ⟨hGlyph, -⟩ | ⟨gap, lexeme, rest, kind, -, -, hNe, hMatch,
        hGlyph, hRules', -⟩
      · rw [if_pos (TokenKind.isFinish_iff.2 (Glyph.mk.inj hGlyph).1)] at hTokens
        cases hTokens
        exact hGlyph
      · rw [hRules] at hMatch hRules'
        have hFinish := (Dialect.match_moves hNe hMatch).2
        have hKind : ¬token.kind.isFinish = true := by
          rw [TokenKind.isFinish_iff, (Glyph.mk.inj hGlyph).1]
          exact hFinish
        rw [if_neg hKind] at hTokens
        cases hRest : after.tokenizeWithin limit with
        | error e => rw [hRest] at hTokens; cases hTokens
        | ok stream' =>
          rw [hRest] at hTokens
          cases hTokens
          have hLast : stream'.last.glyph = ⟨.finish, ""⟩ := ih hRules' hRest
          exact hLast

/-- Texts with the same glyphs have the same tree, or errors that differ only in
their place. -/
theorem parse_congr {source source' : String} {stream stream' : TokenStream}
    (hTokens : dialect.grammar.tokens.tokenize source = .ok stream)
    (hTokens' : dialect.grammar.tokens.tokenize source' = .ok stream')
    (hGlyphs : stream.glyphs = stream'.glyphs) :
    (parse source dialect).mapError ParseError.unplaced =
      (parse source' dialect).mapError ParseError.unplaced := by
  have hLast := (Dialect.last_of_tokenizeWithin rfl hTokens).trans
    (Dialect.last_of_tokenizeWithin rfl hTokens').symm
  have hReplies := (Comparison.Grammars.refl (dialect.reduces .places)).statement
    stream stream' ⟨hGlyphs, hLast⟩
  rw [parse, parse, Grammar.parse_of_tokenize hTokens, Grammar.parse_of_tokenize hTokens']
  generalize dialect.grammar.statement stream = reply at hReplies
  generalize dialect.grammar.statement stream' = reply' at hReplies
  cases hReplies with
  | ok hValue _ =>
    rw [eq_of_mapTexts_id hValue]
    rfl
  | fail hError => exact congrArg Except.error hError
  | waived hError => exact hError.elim

end Texts

end SqlQuery
