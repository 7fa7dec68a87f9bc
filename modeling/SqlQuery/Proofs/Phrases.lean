import SqlQuery.Proofs.Dispatch
import SqlQuery.Proofs.OperatorText

/-!
# Phrases in readings

A name that is the first word of a phrase is read as a name only as long as
the other words of the phrase do not follow it.  Since a phrase may have
blanks between its words but no comments, this is a property of the glyphs of
a plain reading: of the texts of the name and of the glyphs behind it.

## Main definitions

* `Glyph.Completes` — glyphs that complete a phrase.
* `Glyph.OpensPhrase` — a word that opens a phrase before given glyphs.

## Main results

* `RuleSet.Reads.completes_of_furtherWordsLength?` and its converse — whether a
  text completes a phrase shows in its glyphs.
* `RuleSet.Reads.not_opensPhrase` — a name of a reading opens no phrase.
-/

namespace SqlQuery

open RuleSet (phrases IsPhrase)

namespace Glyph

/-- The texts of glyphs complete a phrase of given words.  Behind the last word
the glyph may go on, but not with a word character. -/
def Completes : List String → List Glyph → Prop
  | [], _ => True
  | _ :: _, [] => False
  | [word], glyph :: _ => ∃ length, Pattern.wordsLength? [word] glyph.text.toList = some length
  | word :: words, glyph :: gs =>
    Text.sameWord word.toList glyph.text.toList = true ∧ Completes words gs

/-- A word opens a phrase that the glyphs behind it complete. -/
def OpensPhrase (text : List Char) (gs : List Glyph) : Prop :=
  ∃ rule ∈ phrases, ∃ first further keyword, IsPhrase rule first further keyword ∧
    Text.sameWord first.toList text = true ∧ Completes further gs

end Glyph

/-! ## Gaps -/

namespace Text

/-- Blanks before a text are part of the gap. -/
theorem gapLength_append {gap cs : List Char} (hBlank : ∀ c ∈ gap, isBlank c = true) :
    gapLength (gap ++ cs) = gap.length + gapLength cs := by
  induction gap with
  | nil => simp
  | cons c gap ih =>
    obtain ⟨hHead, hRest⟩ := List.forall_mem_cons.1 hBlank
    have hMinus : c ≠ '-' := by
      rintro rfl
      exact absurd hHead (by decide)
    have hSlash : c ≠ '/' := by
      rintro rfl
      exact absurd hHead (by decide)
    rw [List.cons_append, gapLength.eq_def]
    split
    · next h => cases h
    · next h => exact absurd (List.cons.inj h).1 hMinus
    · next h => exact absurd (List.cons.inj h).1 hSlash
    · next h =>
      obtain ⟨rfl, rfl⟩ := List.cons.inj h
      rw [if_pos hHead, ih hRest, List.length_cons]
      omega

/-- Where no gap starts there is no blank. -/
theorem isBlank_of_gapLength {cs : List Char} (hGap : gapLength cs = 0) :
    ∀ c ∈ cs.head?, isBlank c = false := by
  intro c hc
  rw [← Bool.not_eq_true]
  intro hBlank
  cases cs with
  | nil => cases hc
  | cons d cs =>
    cases hc
    have hOne : gapLength ([c] ++ cs) = [c].length + gapLength cs :=
      gapLength_append (by simpa using hBlank)
    rw [List.singleton_append, hGap] at hOne
    simp only [List.length_cons, List.length_nil] at hOne
    omega

end Text

namespace RuleSet.Reads

variable {dialect : Dialect} {cs rest : List Char} {gs : List Glyph} {glyph : Glyph}

/-- The first glyph of a plain reading: blanks, and a lexeme that starts with no
blank. -/
theorem cons_inv (hReads : dialect.grammar.tokens.Reads true cs (glyph :: gs)) :
    ∃ gap c lexeme rest, cs = gap ++ (c :: lexeme ++ rest) ∧
      (∀ d ∈ gap, Text.isBlank d = true) ∧ Text.isBlank c = false ∧
      glyph.text.toList = c :: lexeme ∧
      dialect.grammar.tokens.first? (c :: lexeme ++ rest) = some (c :: lexeme, some glyph.kind) ∧
      dialect.grammar.tokens.Reads true rest gs := by
  cases hReads with
  | @token gap lexeme rest kind _ hGap hPlain hLexeme hMatch hRest =>
    obtain ⟨c, lexeme, rfl⟩ := List.exists_cons_of_ne_nil hLexeme
    have hBlank := hPlain rfl
    rw [Text.gapLength_append hBlank] at hGap
    have hNoGap : Text.gapLength (c :: lexeme ++ rest) = 0 := by omega
    have hHead := Text.isBlank_of_gapLength hNoGap c rfl
    exact ⟨gap, c, lexeme, rest, rfl, hBlank, hHead, String.toList_ofList, hMatch, hRest⟩

theorem nil_inv (hReads : dialect.grammar.tokens.Reads true cs []) :
    ∀ c ∈ cs, Text.isBlank c = true := by
  cases hReads with
  | done _ hPlain => exact hPlain rfl

end RuleSet.Reads

/-- A name that starts with a word: the word, and a point if there is more. -/
theorem Token.NameText.exists_word {text : List Char} {parts : List Token.NamePart}
    (hText : Token.NameText text parts) {c : Char} {cs : List Char} (hCons : text = c :: cs)
    (hStart : Text.isWordStart c = true) :
    ∃ word more, text = word ++ more ∧ word ≠ [] ∧ (∀ d ∈ word, Text.isWordChar d = true) ∧
      ∀ d ∈ more.head?, d = '.' := by
  have hPart : ∀ {text : List Char} {part : Token.NamePart} (more : List Char),
      Token.PartText text part → text ++ more = c :: cs → ∀ d ∈ text, Text.isWordChar d = true := by
    rintro text part more (⟨hStart', hWord⟩ | _) hEq
    · exact List.forall_mem_cons.2 ⟨Text.isWordChar_of_isWordStart hStart', hWord⟩
    · have hQuote : c = Token.backtick := (List.cons.inj hEq).1.symm
      rw [hQuote] at hStart
      exact absurd hStart (by decide)
  cases hText with
  | single hText =>
    exact ⟨text, [], (List.append_nil _).symm, hText.ne_nil,
      hPart [] hText (by simpa using hCons), by simp⟩
  | @starred text part hText =>
    exact ⟨text, ['.', '*'], rfl, hText.ne_nil, hPart _ hText hCons, by simp⟩
  | @dotted text next part parts hText hNext =>
    exact ⟨text, '.' :: next, rfl, hText.ne_nil, hPart _ hText hCons, by simp⟩

/-! ## Completed phrases -/

theorem RuleSet.IsPhrase.opensWith {rule : TokenRule} {first : String} {further : List String}
    {keyword : Keyword} (hPhrase : IsPhrase rule first further keyword) {word text : List Char}
    (hFirst : Text.sameWord first.toList text = true) (hWord : Text.sameWord word text = true) :
    rule.pattern.opensWith word = true := by
  obtain ⟨second, further, rfl⟩ := List.exists_cons_of_ne_nil hPhrase.further_ne_nil
  rw [hPhrase.pattern]
  show Text.sameWord first.toList word = true
  rw [Text.sameWord_iff] at *
  rw [hFirst, hWord]

namespace Dialect

variable {dialect : Dialect} {rest : List Char} {kind? : Option TokenKind}

/-- Where a word ends that opens no phrase, what is found is found by the rule for
names. -/
theorem nameRule_of_word {word : String} {b after : List Char}
    {found : List Char × Option TokenKind} (hWord : Pattern.IsPhraseWord word)
    (hSame : Text.sameWord word.toList b = true)
    (hInside : ∀ other ∈ phrases, other.pattern.opensWith word.toList = false)
    (hStop : Pattern.continuesWord after = false)
    (hMatch : dialect.grammar.tokens.first? (b ++ after) = some found) :
    RuleSet.nameRule.match? (b ++ after) = some found := by
  obtain ⟨c, b', rfl, hStart, -⟩ := hWord.head_of_sameWord hSame
  rcases first?_wordStart_cases (Or.inl hStart) hMatch with ⟨rule, hMem, hRule⟩ | ⟨-, hName⟩
  · obtain ⟨first, further, keyword, hPhrase⟩ := RuleSet.exists_isPhrase hMem
    obtain ⟨a, rest', length, hText, hFirst, hFurther, -⟩ := hPhrase.match?_eq_some_iff.1 hRule
    -- The first word of the phrase is the word, as both end where the letters do.
    have hTake : (c :: b' ++ after).takeWhile Text.isWordChar = c :: b' :=
      Token.takeWhile_append_of_forall
        (fun d hd => Text.isWordChar_of_isWordStart ((hWord.of_sameWord hSame).2 d hd))
        (Pattern.continuesWord_eq_false_iff.1 hStop)
    have hTake' := Pattern.takeWhile_isWordChar_of_wordsLength? hPhrase.first_word hFirst
      hFurther
    have hText' : c :: b' ++ after = a ++ rest' := hText
    rw [← hText', hTake] at hTake'
    rw [← hTake'] at hFirst
    have hOpens := hPhrase.opensWith hFirst hSame
    rw [hInside rule hMem] at hOpens
    cases hOpens
  · exact hName

/-- A lexeme that starts with a word that opens no phrase, with a blank behind
the word, is the word. -/
theorem lexeme_eq_word {word : String} {b more : List Char} (hWord : Pattern.IsPhraseWord word)
    (hSame : Text.sameWord word.toList b = true)
    (hInside : ∀ other ∈ phrases, other.pattern.opensWith word.toList = false)
    (hMatch : dialect.grammar.tokens.first? (b ++ more ++ rest) = some (b ++ more, kind?))
    (hBlank : ∀ c ∈ more.head?, Text.isBlank c = true) : more = [] := by
  cases more with
  | nil => rfl
  | cons d more =>
    have hHead := hBlank d rfl
    have hStop := Text.isWordChar_of_isBlank hHead
    rw [List.append_assoc] at hMatch
    have hName := @nameRule_of_word _ _ _ (d :: more ++ rest) _ hWord hSame hInside hStop hMatch
    obtain ⟨c, b', rfl, hStart, -⟩ := hWord.head_of_sameWord hSame
    obtain ⟨length, hLength, hLexeme, -⟩ := TokenRule.match?_eq_some_iff.1 hName
    obtain ⟨hFound, -⟩ := Option.filter_eq_some_iff.1 hLength
    obtain ⟨text, after, parts, hText, rfl, hParts⟩ := Token.exists_nameText_of_nameLength? hFound
    rw [hText, List.take_left] at hLexeme
    obtain ⟨name, tail, hName, -, hNameChars, hPoint⟩ := hParts.exists_word hLexeme.symm hStart
    have hTake : (c :: b' ++ d :: more).takeWhile Text.isWordChar = c :: b' :=
      Token.takeWhile_append_of_forall
        (fun e he => Text.isWordChar_of_isWordStart ((hWord.of_sameWord hSame).2 e he))
        (by simpa using hStop)
    have hTake' : (name ++ tail).takeWhile Text.isWordChar = name :=
      Token.takeWhile_append_of_forall hNameChars fun e he => by rw [hPoint e he]; decide
    rw [← hName, ← hLexeme, hTake] at hTake'
    rw [hName, ← hTake', List.append_cancel_left_eq] at hLexeme
    have hEq := hPoint d (by rw [← hLexeme]; rfl)
    rw [hEq] at hHead
    exact absurd hHead (by decide)

end Dialect

namespace RuleSet.Reads

variable {dialect : Dialect} {cs : List Char} {gs : List Glyph} {words : List String}

/-- The lexeme that a reading starts with starts with the word that stands there,
behind blanks. -/
theorem exists_lexeme_of_word {word : String} {gap b rest : List Char}
    (hWord : Pattern.IsPhraseWord word) (hSame : Text.sameWord word.toList b = true)
    (hBlank : ∀ c ∈ gap, Text.isBlank c = true) (hStop : Pattern.continuesWord rest = false)
    (hReads : dialect.grammar.tokens.Reads true (gap ++ (b ++ rest)) gs) :
    ∃ glyph hs more after, gs = glyph :: hs ∧ rest = more ++ after ∧
      glyph.text.toList = b ++ more ∧
      dialect.grammar.tokens.first? (b ++ more ++ after) = some (b ++ more, some glyph.kind) ∧
      dialect.grammar.tokens.Reads true after hs := by
  obtain ⟨c, b', rfl, hStart, hHead⟩ := hWord.head_of_sameWord hSame
  cases gs with
  | nil =>
    have hAll := hReads.nil_inv c (by simp)
    rw [hHead] at hAll
    cases hAll
  | cons glyph gs =>
    obtain ⟨gap', d, lexeme, after, hText, hBlank', hHead', hGlyph, hMatch, hRest⟩ :=
      hReads.cons_inv
    -- Both divisions of the text have the same blanks in front.
    have hGap : gap = gap' := by
      have hTake : (gap ++ (c :: b' ++ rest)).takeWhile Text.isBlank = gap :=
        Token.takeWhile_append_of_forall hBlank (by simpa using hHead)
      have hTake' : (gap' ++ (d :: lexeme ++ after)).takeWhile Text.isBlank = gap' :=
        Token.takeWhile_append_of_forall hBlank' (by simpa using hHead')
      rw [← hTake, hText, hTake']
    subst hGap
    rw [List.append_cancel_left_eq] at hText
    have hChar : c = d := (List.cons.inj hText).1
    subst hChar
    have hTakeWord : (c :: b' ++ rest).takeWhile Text.isWordChar = c :: b' :=
      Token.takeWhile_append_of_forall
        (fun d hd => Text.isWordChar_of_isWordStart ((hWord.of_sameWord hSame).2 d hd))
        (Pattern.continuesWord_eq_false_iff.1 hStop)
    have hPrefix : (c :: lexeme ++ after).takeWhile Text.isWordChar <+: c :: lexeme :=
      Dialect.takeWhile_isWordChar_prefix hStart hMatch
    rw [← hText, hTakeWord] at hPrefix
    obtain ⟨more, hMore⟩ := hPrefix
    rw [← hMore, List.append_assoc, List.append_cancel_left_eq] at hText
    rw [← hMore] at hGlyph hMatch
    exact ⟨glyph, gs, more, after, rfl, hText, hGlyph, hMatch, hRest⟩

/-- A text that completes a phrase has glyphs that do. -/
theorem completes_of_furtherWordsLength? (hWords : ∀ word ∈ words, Pattern.IsPhraseWord word)
    (hInside : ∀ word ∈ words, ∀ other ∈ phrases, other.pattern.opensWith word.toList = false)
    {length : Nat} (hLength : Pattern.furtherWordsLength? words cs = some length)
    (hReads : dialect.grammar.tokens.Reads true cs gs) : Glyph.Completes words gs := by
  induction words generalizing cs gs length with
  | nil =>
    cases gs with
    | nil => exact trivial
    | cons => exact trivial
  | cons word words ih =>
    obtain ⟨hWord, hWords⟩ := List.forall_mem_cons.1 hWords
    obtain ⟨hNotFirst, hFurtherInside⟩ := List.forall_mem_cons.1 hInside
    obtain ⟨gap, b, rest, further, rfl, -, hBlank, hSame, hFurther, -⟩ :=
      (Pattern.furtherWordsLength?_cons_iff hWord).1 hLength
    have hStop := Pattern.continuesWord_of_furtherWordsLength? hFurther
    obtain ⟨glyph, hs, more, after, rfl, rfl, hGlyph, hMatch, hRest⟩ :=
      exists_lexeme_of_word hWord hSame hBlank hStop hReads
    cases words with
    | nil =>
      have hEnd : Pattern.continuesWord more = false := by
        cases more with
        | nil => rfl
        | cons e more => exact hStop
      refine ⟨b.length + 0, ?_⟩
      rw [hGlyph]
      refine Pattern.wordsLength?_cons_iff.2 ⟨b, more, 0, rfl, hSame, ?_, rfl⟩
      rw [Pattern.furtherWordsLength?, hEnd]
      rfl
    | cons next words =>
      obtain ⟨gap', _, _, _, hText, hGap, hBlank', -⟩ :=
        (Pattern.furtherWordsLength?_cons_iff (hWords next List.mem_cons_self)).1 hFurther
      obtain ⟨e, gap', rfl⟩ := List.exists_cons_of_ne_nil hGap
      have hMoreBlank : ∀ f ∈ more.head?, Text.isBlank f = true := by
        intro f hf
        cases more with
        | nil => cases hf
        | cons f more =>
          cases hf
          rw [(List.cons.inj hText).1]
          exact hBlank' e List.mem_cons_self
      have hNil := Dialect.lexeme_eq_word hWord hSame hNotFirst hMatch hMoreBlank
      subst hNil
      rw [List.append_nil] at hGlyph
      refine ⟨by rw [hGlyph]; exact hSame, ?_⟩
      exact ih hWords hFurtherInside hFurther hRest

/-- A text with glyphs that complete a phrase completes it. -/
theorem furtherWordsLength?_of_completes (hWords : ∀ word ∈ words, Pattern.IsPhraseWord word)
    (hCompletes : Glyph.Completes words gs) (hStop : Pattern.continuesWord cs = false)
    (hReads : dialect.grammar.tokens.Reads true cs gs) :
    ∃ length, Pattern.furtherWordsLength? words cs = some length := by
  induction words generalizing cs gs with
  | nil => exact ⟨0, by rw [Pattern.furtherWordsLength?, hStop]; rfl⟩
  | cons word words ih =>
    obtain ⟨hWord, hWords⟩ := List.forall_mem_cons.1 hWords
    cases gs with
    | nil => exact absurd hCompletes (by simp [Glyph.Completes])
    | cons glyph gs =>
      obtain ⟨gap, c, lexeme, rest, rfl, hBlank, hHead, hGlyph, hMatch, hRest⟩ := hReads.cons_inv
      -- The word at the start of the lexeme, and that nothing continues it.
      have hSplit : ∃ b more, c :: lexeme = b ++ more ∧ Text.sameWord word.toList b = true ∧
          ∃ further, Pattern.furtherWordsLength? words (more ++ rest) = some further := by
        have hAfter : Text.sameWord word.toList (c :: lexeme) = true →
            Pattern.continuesWord rest = false := by
          intro hSame
          obtain ⟨-, hStarts⟩ := hWord.of_sameWord hSame
          exact Dialect.continuesWord_of_first?
            (fun d hd => Text.isWordChar_of_isWordStart (hStarts d hd))
            (hStarts c List.mem_cons_self) hMatch
        cases words with
        | nil =>
          obtain ⟨length, hLength⟩ := hCompletes
          rw [hGlyph] at hLength
          obtain ⟨b, more, further, hText, hSame, hFurther, -⟩ :=
            Pattern.wordsLength?_cons_iff.1 hLength
          refine ⟨b, more, hText, hSame, 0, ?_⟩
          have hEnd := Pattern.continuesWord_of_furtherWordsLength? hFurther
          cases more with
          | nil =>
            rw [List.append_nil] at hText
            rw [List.nil_append, Pattern.furtherWordsLength?, hAfter (hText ▸ hSame)]
            rfl
          | cons d more =>
            have hEnd' : Pattern.continuesWord (d :: more ++ rest) = false := hEnd
            rw [Pattern.furtherWordsLength?, hEnd']
            rfl
        | cons next words =>
          obtain ⟨hSame, hNext⟩ := hCompletes
          rw [hGlyph] at hSame
          exact ⟨c :: lexeme, [], (List.append_nil _).symm, hSame,
            ih hWords hNext (hAfter hSame) hRest⟩
      obtain ⟨b, more, hText, hSame, further, hFurther⟩ := hSplit
      refine ⟨_, (Pattern.furtherWordsLength?_cons_iff hWord).2
        ⟨gap, b, more ++ rest, further, by rw [hText, List.append_assoc], ?_, hBlank, hSame,
          hFurther, rfl⟩⟩
      rintro rfl
      obtain ⟨d, b', rfl, hStart, -⟩ := hWord.head_of_sameWord hSame
      have hChar : c = d := (List.cons.inj hText).1
      have hContinues := Text.isWordChar_of_isWordStart hStart
      rw [← hChar] at hContinues
      have hStop' : Text.isWordChar c = false := hStop
      rw [hContinues] at hStop'
      cases hStop'

/-- A name of a plain reading opens no phrase. -/
theorem not_opensPhrase {value text : String}
    (hReads : dialect.grammar.tokens.Reads true cs (⟨.identifier value none, text⟩ :: gs)) :
    ¬Glyph.OpensPhrase text.toList gs := by
  rintro ⟨rule, hMem, first, further, keyword, hPhrase, hSame, hCompletes⟩
  obtain ⟨gap, c, lexeme, rest, rfl, -, -, hText, hMatch, hRest⟩ := hReads.cons_inv
  have hText' : text.toList = c :: lexeme := hText
  rw [hText'] at hSame
  obtain ⟨-, hStarts⟩ := hPhrase.first_word.of_sameWord hSame
  have hStop := Dialect.continuesWord_of_first?
    (fun d hd => Text.isWordChar_of_isWordStart (hStarts d hd))
    (hStarts c List.mem_cons_self) hMatch
  obtain ⟨length, hLength⟩ :=
    furtherWordsLength?_of_completes hPhrase.further_words hCompletes hStop hRest
  have hFound :=
    hPhrase.match?_eq_some_iff.2 ⟨c :: lexeme, rest, length, rfl, hSame, hLength, rfl, rfl⟩
  rcases Dialect.first?_wordStart_cases (Or.inl (hStarts c List.mem_cons_self)) hMatch with
    ⟨other, hOther, hRule⟩ | ⟨hNone, -⟩
  · obtain ⟨_, _, _, hPhrase'⟩ := RuleSet.exists_isPhrase hOther
    obtain ⟨_, _, _, _, _, _, _, hKind⟩ := hPhrase'.match?_eq_some_iff.1 hRule
    cases hKind
  · cases hFound.symm.trans (hNone rule hMem)

end RuleSet.Reads

end SqlQuery
