import SqlQuery.Proofs.Comments

/-!
# Runs of a lexer

A lexer reads token after token, and skips the gaps in between.  What it has
read on its way from one place in a text to another makes up the text in
between, and it is settled by the text: of two runs from the same place, the
longer one passes the place where the shorter one ends.

## Main definitions

* `RuleSet.Runs` — the tokens that a lexer reads on its way.

## Main results

* `RuleSet.Runs.tokenize_ok` — a run to the end of a text gives its tokens.
* `RuleSet.Runs.exists_of_shorter` — a longer run passes the end of a shorter
  one.
-/

namespace SqlQuery

/-- The token of a lexeme that stands behind a given text. -/
def Token.behind (before : List Char) (kind : TokenKind) (lexeme : List Char) : Token :=
  ⟨kind, ⟨Text.byteLength before, Text.byteLength (before ++ lexeme)⟩, String.ofList lexeme⟩

/-- The tokens that a lexer reads on its way from one place in a text to
another, each place given by what is before it and what is behind it. -/
inductive RuleSet.Runs (rules : RuleSet) :
    List Char → List Char → List Token → List Char → List Char → Prop
  | done {read cs : List Char} : Runs rules read cs [] read cs
  | gap {gap read cs read' rest : List Char} {tokens : List Token} (hGap : Text.Gap gap cs)
      (hRuns : Runs rules (read ++ gap) cs tokens read' rest) :
    Runs rules read (gap ++ cs) tokens read' rest
  | token {read lexeme tail read' rest : List Char} {kind : TokenKind} {tokens : List Token}
      (hFinds : rules.Finds lexeme tail kind) (hKind : kind ≠ .finish)
      (hRuns : Runs rules (read ++ lexeme) tail tokens read' rest) :
    Runs rules read (lexeme ++ tail) (.behind read kind lexeme :: tokens) read' rest

namespace Lexer

/-- The lexer that has read one text and has another one before it. -/
def between (rules : RuleSet) (read rest : List Char) : Lexer := ⟨rules, rest, Text.byteLength read⟩

variable {rules : RuleSet} {read cs lexeme tail : List Char} {kind : TokenKind}

theorem next_gap {gap : List Char} (hGap : Text.Gap gap cs) :
    (between rules read (gap ++ cs)).next = (between rules (read ++ gap) cs).next := by
  have hSkip : (between rules read (gap ++ cs)).skip = (between rules (read ++ gap) cs).skip := by
    simp only [skip, advance, between]
    rw [hGap.gapLength_append, List.drop_length_add_append, List.take_length_add_append]
    simp [Nat.add_assoc]
  rw [next, next, hSkip]

theorem next_between (hFinds : rules.Finds lexeme tail kind) :
    (between rules read (lexeme ++ tail)).next =
      (.ok (.behind read kind lexeme), between rules (read ++ lexeme) tail) := by
  have hSkip :
      (between rules read (lexeme ++ tail)).skip = between rules read (lexeme ++ tail) := by
    simp [skip, advance, between, hFinds.gap]
  have hEmpty : ¬(lexeme ++ tail).isEmpty = true := by simp [hFinds.ne_nil]
  have hMatch : (between rules read (lexeme ++ tail)).firstMatch? = some (lexeme, some kind) :=
    hFinds.first
  rw [next, hSkip, Lexer.read, between, if_neg hEmpty, ← between, hMatch]
  simp [between, advance, spanOf, Token.behind]

/-- At the end of a text the lexer finds the end, again and again. -/
theorem next_between_nil : (between rules read []).next =
    (.ok (.behind read .finish []), between rules read []) := by
  simp [next, skip, advance, Lexer.read, between, spanOf, Token.behind, Text.gapLength]

end Lexer

namespace RuleSet.Runs

variable {rules : RuleSet} {read cs read' rest : List Char} {tokens : List Token}

theorem trans {more : List Token} {read'' rest' : List Char}
    (hFirst : rules.Runs read cs tokens read' rest)
    (hSecond : rules.Runs read' rest more read'' rest') :
    rules.Runs read cs (tokens ++ more) read'' rest' := by
  induction hFirst with
  | done => exact hSecond
  | gap hGap _ ih => exact .gap hGap (ih hSecond)
  | token hFinds hKind _ ih => exact .token hFinds hKind (ih hSecond)

/-- A run does not change the text. -/
theorem append_eq (hRuns : rules.Runs read cs tokens read' rest) : read ++ cs = read' ++ rest := by
  induction hRuns with
  | done => rfl
  | gap _ _ ih => simpa using ih
  | token _ _ _ ih => simpa using ih

theorem length_le (hRuns : rules.Runs read cs tokens read' rest) :
    tokens.length + rest.length ≤ cs.length := by
  induction hRuns with
  | done => simp
  | gap _ _ ih =>
    rw [List.length_append]
    omega
  | token hFinds _ _ ih =>
    have := List.length_pos_iff.2 hFinds.ne_nil
    simp only [List.length_cons, List.length_append]
    omega

/-- The tokens of a run come first, and the lexer goes on where the run ends. -/
theorem tokenizeWithin (hRuns : rules.Runs read cs tokens read' rest) (limit : Nat) :
    (Lexer.between rules read cs).tokenizeWithin (tokens.length + limit + 1) =
      ((Lexer.between rules read' rest).tokenizeWithin (limit + 1)).map fun stream =>
        { stream with ahead := tokens ++ stream.ahead } := by
  induction hRuns with
  | @done read cs =>
    rw [List.length_nil, Nat.zero_add]
    cases (Lexer.between rules read cs).tokenizeWithin (limit + 1) <;> rfl
  | gap hGap _ ih =>
    rw [Lexer.tokenizeWithin, Lexer.next_gap hGap, ← Lexer.tokenizeWithin, ih]
  | @token read lexeme tail read' rest kind tokens hFinds hKind _ ih =>
    have hFinish : ¬(Token.behind read kind lexeme).kind.isFinish = true := fun h =>
      hKind (TokenKind.isFinish_iff.1 h)
    rw [Lexer.tokenizeWithin, Lexer.next_between hFinds]
    dsimp only
    rw [if_neg hFinish, List.length_cons, Nat.add_right_comm, ih]
    cases (Lexer.between rules read' rest).tokenizeWithin (limit + 1) <;> rfl

/-- A run to the end of a text gives its tokens. -/
theorem tokenize_ok {source : String} (hRuns : rules.Runs [] source.toList tokens read' []) :
    rules.tokenize source = .ok ⟨tokens, .behind read' .finish []⟩ := by
  obtain ⟨limit, hLimit⟩ : ∃ limit, source.toList.length + 1 = tokens.length + limit + 1 :=
    ⟨source.toList.length - tokens.length, by have := hRuns.length_le; omega⟩
  show (Lexer.between rules [] source.toList).tokenizeWithin (source.toList.length + 1) = _
  rw [hLimit, hRuns.tokenizeWithin, Lexer.tokenizeWithin, Lexer.next_between_nil]
  have hFinish : (Token.behind read' .finish []).kind.isFinish = true := rfl
  dsimp only
  rw [if_pos hFinish]
  simp [Except.map]

/-- The tokens of a run from the beginning of a text are its first tokens. -/
theorem prefix_of_tokenize {source : String} {stream : TokenStream}
    (hRuns : rules.Runs [] source.toList tokens read' rest)
    (hTokens : rules.tokenize source = .ok stream) : tokens <+: stream.ahead := by
  obtain ⟨limit, hLimit⟩ : ∃ limit, source.toList.length + 1 = tokens.length + limit + 1 :=
    ⟨source.toList.length - tokens.length, by have := hRuns.length_le; omega⟩
  have hWithin : (Lexer.between rules [] source.toList).tokenizeWithin (source.toList.length + 1) =
      .ok stream := hTokens
  rw [hLimit, hRuns.tokenizeWithin] at hWithin
  cases hRest : (Lexer.between rules read' rest).tokenizeWithin (limit + 1) with
  | error e =>
    rw [hRest] at hWithin
    cases hWithin
  | ok further =>
    rw [hRest] at hWithin
    cases hWithin
    exact List.prefix_append tokens further.ahead

end RuleSet.Runs

/-! ## Runs from the same place -/

namespace Text

/-- A text without the gap in front of it. -/
def skipGap (cs : List Char) : List Char := cs.drop (gapLength cs)

theorem skipGap_of_gapLength {cs : List Char} (hGap : gapLength cs = 0) : skipGap cs = cs := by
  rw [skipGap, hGap, List.drop_zero]

theorem Gap.skipGap_append {gap cs : List Char} (hGap : Gap gap cs) :
    skipGap (gap ++ cs) = skipGap cs := by
  rw [skipGap, hGap.gapLength_append, List.drop_length_add_append, skipGap]

theorem length_skipGap_le (cs : List Char) : (skipGap cs).length ≤ cs.length := by
  rw [skipGap, List.length_drop]
  omega

end Text

open Text (skipGap)

namespace RuleSet

variable {rules : RuleSet} {read cs read' rest lexeme tail : List Char} {tokens : List Token}
  {kind : TokenKind}

theorem Finds.skipGap_append (hFinds : rules.Finds lexeme tail kind) :
    skipGap (lexeme ++ tail) = lexeme ++ tail :=
  Text.skipGap_of_gapLength hFinds.gap

/-- What is found in front of a text is settled. -/
theorem Finds.tail_eq {lexeme' tail' : List Char} {kind' : TokenKind}
    (hFinds : rules.Finds lexeme tail kind) (hFinds' : rules.Finds lexeme' tail' kind')
    (hText : lexeme ++ tail = lexeme' ++ tail') : tail = tail' := by
  have hFirst := hFinds.first
  rw [hText, hFinds'.first] at hFirst
  obtain ⟨rfl, -⟩ := Prod.mk.inj (Option.some.inj hFirst)
  exact List.append_cancel_left hText

namespace Runs

/-- A run skips a gap at most, or its first token is found behind the gap. -/
theorem skipGap_or_finds (hRuns : rules.Runs read cs tokens read' rest) :
    skipGap rest = skipGap cs ∨
      ∃ lexeme tail kind before tokens', skipGap cs = lexeme ++ tail ∧
        rules.Finds lexeme tail kind ∧ rules.Runs before tail tokens' read' rest := by
  induction hRuns with
  | done => exact Or.inl rfl
  | gap hGap _ ih =>
    rw [hGap.skipGap_append]
    exact ih
  | token hFinds _ hRuns _ =>
    exact Or.inr ⟨_, _, _, _, _, hFinds.skipGap_append, hFinds, hRuns⟩

/-- Of two runs from the same place, the longer one passes the place where the
shorter one ends. -/
theorem exists_of_shorter {cs' : List Char} (hFirst : rules.Runs read cs tokens read' cs')
    {read₂ cs₂ read₂' : List Char} {tokens₂ : List Token}
    (hSecond : rules.Runs read₂ cs₂ tokens₂ read₂' rest) (hSame : skipGap cs₂ = skipGap cs)
    (hShort : (skipGap rest).length < (skipGap cs').length) :
    ∃ lexeme tail kind before tokens', skipGap cs' = lexeme ++ tail ∧
      rules.Finds lexeme tail kind ∧ rules.Runs before tail tokens' read₂' rest := by
  induction hFirst generalizing read₂ cs₂ tokens₂ with
  | done =>
    rcases hSecond.skipGap_or_finds with hGap | ⟨lexeme, tail, kind, before, tokens', hText, hRest⟩
    · rw [hGap, hSame] at hShort
      omega
    · exact ⟨lexeme, tail, kind, before, tokens', hSame ▸ hText, hRest⟩
  | gap hGap _ ih =>
    rw [hGap.skipGap_append] at hSame
    exact ih hSecond hSame hShort
  | @token read lexeme tail read' cs' kind tokens hFinds _ hRuns ih =>
    rw [hFinds.skipGap_append] at hSame
    rcases hSecond.skipGap_or_finds with hGap | ⟨_, _, _, _, _, hText, hFinds', hRest⟩
    · have hPos := List.length_pos_iff.2 hFinds.ne_nil
      have hLength := hRuns.length_le
      have hEnd := Text.length_skipGap_le cs'
      rw [hGap, hSame, List.length_append] at hShort
      omega
    · rw [hSame] at hText
      obtain rfl := hFinds.tail_eq hFinds' hText
      exact ih hRest rfl hShort

end Runs

end RuleSet

end SqlQuery
