import SqlQuery.Node.Render
import SqlQuery.Proofs.FloatText

/-!
# Constructs that are written read back

The text of a tree is read as other glyphs than the text that the tree came
from: keywords change their case, `OUTER` and `ALL` disappear, an alias is
introduced by `AS`, parentheses around parentheses are dropped.  A construct is
*written* as a text and as glyphs if the text is read as the glyphs and the
glyphs are again the construct, in front of anything that may follow it.

What may follow is told by what followed the construct in the first place:
either nothing follows now, or a glyph of the same kind does.  An expression
may have an `AS` behind it besides.

## Main definitions

* `Glyph.Follows`, `Glyph.Continues` — what may follow a construct.
* `Glyph.Plain` — glyphs of a plain reading.
* `Written` — a construct, its text and its glyphs.
-/

namespace SqlQuery

open Glyph (front AllGenuine OpensPhrase)
open RuleSet (phrases IsPhrase)

/-! ## What follows a construct -/

namespace Glyph

/-- Glyphs that start with the same kind as `hs` and, if that is an operator, with
one of the same class. -/
structure Repeats (hs r : List Glyph) : Prop where
  front_eq : front r = front hs
  operator?_eq : operator? r = operator? hs
  not_name : (front r).isIdentifier = false

/-- What may follow a construct in place of `hs`: nothing, or the same again. -/
def Follows (hs r : List Glyph) : Prop := front r = .finish ∨ Repeats hs r

/-- What may follow an expression in place of `hs`: an alias may have been given
its `AS`. -/
def Continues (hs r : List Glyph) : Prop := Follows hs r ∨ front r = .keyword .AS

variable {hs r : List Glyph} {kind : TokenKind}

theorem Repeats.follows (hRepeats : Repeats hs r) : Follows hs r := Or.inr hRepeats

theorem Follows.continues (hFollows : Follows hs r) : Continues hs r := Or.inl hFollows

theorem Follows.not_name (hFollows : Follows hs r) : (front r).isIdentifier = false := by
  rcases hFollows with hEnd | hRepeats
  · rw [hEnd]
    rfl
  · exact hRepeats.not_name

/-- What did not follow a construct does not follow it now. -/
theorem Follows.front_ne (hFollows : Follows hs r) (hFront : front hs ≠ kind)
    (hKind : kind ≠ .finish) : front r ≠ kind := by
  rcases hFollows with hEnd | hRepeats
  · rw [hEnd]
    exact hKind.symm
  · rwa [hRepeats.front_eq]

theorem Continues.front_ne (hContinues : Continues hs r) (hFront : front hs ≠ kind)
    (hKind : kind ≠ .finish ∧ kind ≠ .keyword .AS) : front r ≠ kind := by
  rcases hContinues with hFollows | hAs
  · exact hFollows.front_ne hFront hKind.1
  · rw [hAs]
    exact hKind.2.symm

theorem operator?_of_front {kind : TokenKind} (hFront : front r = kind)
    (hKind : kind.infixClass? .finish = none ∧ kind ≠ .keyword .NOT) :
    operator? r = none := by
  rw [operator?, hFront]
  obtain ⟨hNone, hNot⟩ := hKind
  unfold TokenKind.infixClass? at hNone ⊢
  split at hNone <;> simp_all

/-- An expression ends where it did. -/
theorem Continues.operator? (hContinues : Continues hs r) :
    ∀ operator ∈ Glyph.operator? r, operator ∈ Glyph.operator? hs := by
  intro operator hMem
  rcases hContinues with (hEnd | hRepeats) | hAs
  · rw [operator?_of_front hEnd (by decide)] at hMem
    cases hMem
  · rwa [← hRepeats.operator?_eq]
  · rw [operator?_of_front hAs (by decide)] at hMem
    cases hMem

/-- A glyph of the same kind may follow, if the kind is not that of a name and
does not need a second glyph. -/
theorem repeats_cons {text text' : String} {gs gs' : List Glyph}
    (hKind : kind.isIdentifier = false ∧ kind ≠ .keyword .NOT) :
    Repeats (⟨kind, text⟩ :: gs) (⟨kind, text'⟩ :: gs') := by
  refine ⟨rfl, ?_, hKind.1⟩
  show kind.infixClass? _ = kind.infixClass? _
  have hNot := hKind.2
  unfold TokenKind.infixClass?
  split <;> first | rfl | exact absurd rfl hNot

theorem follows_cons {text text' : String} {gs gs' : List Glyph}
    (hKind : kind.isIdentifier = false ∧ kind ≠ .keyword .NOT) :
    Follows (⟨kind, text⟩ :: gs) (⟨kind, text'⟩ :: gs') :=
  (repeats_cons hKind).follows

theorem follows_nil : Follows hs [] := Or.inl rfl

end Glyph

/-! ## Glyphs of plain readings -/

/-- Glyphs that are genuine and of which no name opens a phrase. -/
structure Glyph.Plain (gs : List Glyph) : Prop where
  genuine : AllGenuine gs
  unfused : ∀ value text hs, (⟨.identifier value none, text⟩ :: hs) <:+ gs →
    ¬OpensPhrase text.toList hs

namespace Glyph.Plain

variable {gs hs : List Glyph} {glyph : Glyph}

theorem of_suffix (hPlain : Plain gs) (hSuffix : hs <:+ gs) : Plain hs :=
  ⟨hPlain.genuine.of_suffix hSuffix, fun value text is hName =>
    hPlain.unfused value text is (hName.trans hSuffix)⟩

theorem head (hPlain : Plain (glyph :: gs)) : glyph.Genuine := hPlain.genuine.head

theorem tail (hPlain : Plain (glyph :: gs)) : Plain gs :=
  hPlain.of_suffix (List.suffix_cons glyph gs)

theorem of_derives {dialect : Dialect} {construct : Construct} (hPlain : Plain gs)
    (hDerives : Derives dialect construct gs hs) : Plain hs :=
  hPlain.of_suffix hDerives.suffix

theorem not_opensPhrase {value text : String}
    (hPlain : Plain (⟨.identifier value none, text⟩ :: gs)) : ¬OpensPhrase text.toList gs :=
  hPlain.unfused value text gs List.suffix_rfl

end Glyph.Plain

/-- The glyphs of a plain reading. -/
theorem RuleSet.Reads.plain {dialect : Dialect} {cs : List Char} {gs : List Glyph}
    (hReads : dialect.grammar.tokens.Reads true cs gs) : Glyph.Plain gs := by
  refine ⟨hReads.genuine, fun value text hs hSuffix => ?_⟩
  have hPart : ∃ rest,
      dialect.grammar.tokens.Reads true rest (⟨.identifier value none, text⟩ :: hs) := by
    induction gs generalizing cs with
    | nil =>
      have := hSuffix.length_le
      simp at this
    | cons glyph gs ih =>
      rcases List.suffix_cons_iff.1 hSuffix with hEq | hTail
      · exact ⟨cs, hEq ▸ hReads⟩
      · obtain ⟨_, _, _, rest, -, -, -, -, -, hRest⟩ := hReads.cons_inv
        exact ih hRest hTail
  obtain ⟨rest, hPart⟩ := hPart
  exact hPart.not_opensPhrase

/-! ## Names and what follows them -/

/-- A name of one bare part is a word. -/
theorem Token.NameText.isWordChar_of_single {text : List Char} {part : Token.NamePart}
    (hText : Token.NameText text [part]) (hBare : part.quoted = false) :
    ∀ d ∈ text, Text.isWordChar d = true := by
  cases hText with
  | single hPart =>
    cases hPart with
    | bare hStart hWord =>
      exact List.forall_mem_cons.2 ⟨Text.isWordChar_of_isWordStart hStart, hWord⟩
    | quoted => cases hBare
  | dotted hPart hRest => exact absurd rfl hRest.parts_ne_nil

namespace Dialect

variable {dialect : Dialect} {rest : List Char} {kind : TokenKind}

/-- A lexeme that starts with a word that opens no phrase is a name, or it is the
word and a keyword. -/
theorem kind_of_word {word : String} {b more : List Char} (hWord : Pattern.IsPhraseWord word)
    (hSame : Text.sameWord word.toList b = true)
    (hInside : ∀ other ∈ phrases, other.pattern.opensWith word.toList = false)
    (hStop : Pattern.continuesWord more = false)
    (hMatch : dialect.grammar.tokens.first? (b ++ more ++ rest) = some (b ++ more, some kind)) :
    kind.isIdentifier = true ∨
      more = [] ∧ ∃ keyword, Keyword.ofWord? b = some keyword ∧ kind = .keyword keyword := by
  obtain ⟨c, b', rfl, hStart, -⟩ := hWord.head_of_sameWord hSame
  have hChars : ∀ d ∈ c :: b', Text.isWordChar d = true := fun d hd =>
    Text.isWordChar_of_isWordStart ((hWord.of_sameWord hSame).2 d hd)
  have hAfter : Pattern.continuesWord (more ++ rest) = false := by
    cases more with
    | nil =>
      rw [List.append_nil] at hMatch
      exact continuesWord_of_first? hChars hStart hMatch
    | cons d more => exact hStop
  rw [List.append_assoc] at hMatch
  obtain ⟨length, hLength, hLexeme, hRead⟩ := TokenRule.match?_eq_some_iff.1
    (nameRule_of_word hWord hSame hInside hAfter hMatch)
  obtain ⟨hFound, -⟩ := Option.filter_eq_some_iff.1 hLength
  obtain ⟨text, after, parts, hText, rfl, hParts⟩ := Token.exists_nameText_of_nameLength? hFound
  rw [hText, List.take_left] at hLexeme
  subst hLexeme
  have hRead' : some kind = Token.readName (c :: b' ++ more) := hRead
  rcases Token.readName_of_nameText hParts with ⟨keyword, hSingle, hKeyword, hKind⟩ |
    ⟨-, -, hKind⟩ | ⟨-, hKind⟩
  · rw [hKind] at hRead'
    cases hRead'
    refine Or.inr ?_
    rw [hSingle] at hParts
    have hAll := hParts.isWordChar_of_single rfl
    cases more with
    | nil =>
      rw [List.append_nil] at hKeyword
      exact ⟨rfl, keyword, hKeyword, rfl⟩
    | cons d more =>
      have hChar := hAll d (by simp)
      rw [show Text.isWordChar d = false from hStop] at hChar
      cases hChar
  · rw [hKind] at hRead'
    cases hRead'
    exact Or.inl rfl
  · rw [hKind] at hRead'
    cases hRead'
    exact Or.inl rfl

end Dialect

/-- Of the further words of a phrase only the last may be a keyword, and it is
not `AS`. -/
theorem RuleSet.IsPhrase.ofWord?_further {rule : TokenRule} (hMem : rule ∈ phrases) {first : String}
    {further : List String} {keyword : Keyword} (hPhrase : IsPhrase rule first further keyword) :
    (∀ word ∈ further.dropLast, Keyword.ofWord? word.toList = none) ∧
      ∀ word ∈ further, Keyword.ofWord? word.toList ≠ some .AS := by
  have hTable : ∀ rule ∈ phrases,
      (∀ word ∈ (phraseWords rule).tail.dropLast, Keyword.ofWord? word.toList = none) ∧
        ∀ word ∈ (phraseWords rule).tail, Keyword.ofWord? word.toList ≠ some .AS := by
    decide +kernel
  have hWords : (phraseWords rule).tail = further := by
    rw [phraseWords, hPhrase.pattern]
    rfl
  rw [← hWords]
  exact hTable rule hMem

namespace Glyph

variable {glyph : Glyph} {gs hs r : List Glyph}

/-- The text of a glyph that completes a phrase: a word of the phrase, and what
continues the glyph behind it. -/
theorem Completes.exists_word {word : String} {words : List String}
    (hCompletes : Completes (word :: words) (glyph :: gs)) :
    ∃ b more, glyph.text.toList = b ++ more ∧ Text.sameWord word.toList b = true ∧
      Pattern.continuesWord more = false := by
  cases words with
  | nil =>
    obtain ⟨length, hLength⟩ := hCompletes
    obtain ⟨b, more, _, hText, hSame, hFurther, -⟩ := Pattern.wordsLength?_cons_iff.1 hLength
    exact ⟨b, more, hText, hSame,
      Pattern.continuesWord_of_furtherWordsLength? hFurther⟩
  | cons next words => exact ⟨glyph.text.toList, [], (List.append_nil _).symm, hCompletes.1, rfl⟩

/-- A glyph that does not start like a word completes no phrase. -/
theorem not_opensPhrase_of_head {text : List Char}
    (hHead : ∀ c ∈ glyph.text.toList.head?, Text.isWordStart c = false) :
    ¬OpensPhrase text (glyph :: gs) := by
  rintro ⟨rule, -, first, further, keyword, hPhrase, -, hCompletes⟩
  obtain ⟨word, words, rfl⟩ := List.exists_cons_of_ne_nil hPhrase.further_ne_nil
  obtain ⟨b, more, hText, hSame, -⟩ := hCompletes.exists_word
  obtain ⟨c, b, rfl, hWord, -⟩ :=
    (hPhrase.further_words word List.mem_cons_self).head_of_sameWord hSame
  rw [hHead c (by rw [hText]; rfl)] at hWord
  cases hWord

/-- A name that opened no phrase opens none before what may follow instead. -/
theorem Plain.not_opensPhrase_of_continues {dialect : Dialect} {value text : String}
    {tail : List Char} (hPlain : Plain (⟨.identifier value none, text⟩ :: hs))
    (hContinues : Continues hs r) (hReads : dialect.grammar.tokens.Reads true tail r) :
    ¬OpensPhrase text.toList r := by
  rintro ⟨rule, hMem, first, further, keyword, hPhrase, hFirst, hCompletes⟩
  obtain ⟨hMiddle, hLast⟩ := hPhrase.ofWord?_further hMem
  obtain ⟨word, words, rfl⟩ := List.exists_cons_of_ne_nil hPhrase.further_ne_nil
  cases r with
  | nil => exact absurd hCompletes (by simp [Completes])
  | cons glyph r =>
    obtain ⟨b, more, hText, hSame, hStop⟩ := hCompletes.exists_word
    obtain ⟨_, c, lexeme, rest, -, -, -, hGlyph, hMatch, -⟩ := hReads.cons_inv
    rw [← hGlyph, hText] at hMatch
    have hName : glyph.kind.isIdentifier = false := by
      rcases hContinues with hFollows | hAs
      · exact hFollows.not_name
      · rw [show glyph.kind = .keyword .AS from hAs]
        rfl
    rcases Dialect.kind_of_word (hPhrase.further_words word List.mem_cons_self) hSame
      (hPhrase.further_inside word List.mem_cons_self) hStop hMatch with hKind |
        ⟨-, found, hFound, hKind⟩
    · rw [hName] at hKind
      cases hKind
    · rw [Keyword.ofWord?_eq_of_sameWord hSame] at hFound
      cases words with
      | cons next words =>
        have hNone := hMiddle word (by simp)
        rw [hNone] at hFound
        cases hFound
      | nil =>
        rcases hContinues with (hEnd | hRepeats) | hAs
        · rw [front_cons, hKind] at hEnd
          cases hEnd
        · -- The same keyword stood behind the name before.
          have hFront := hRepeats.front_eq
          rw [front_cons, hKind] at hFront
          obtain ⟨text', hHs⟩ := eq_cons_of_front hFront.symm (by simp)
          have hGenuine := hPlain.tail.genuine _ (hHs ▸ List.mem_cons_self)
          obtain ⟨single, hSingle, hWord⟩ := Token.sameWord_of_ofWord? hFound
          have hSame' : Text.sameWord word.toList text'.toList = true := by
            have hText' := hGenuine.sameWord hSingle
            rw [Text.sameWord_iff] at *
            rw [← hWord, hText']
          refine hPlain.not_opensPhrase ⟨rule, hMem, first, [word], keyword, hPhrase, hFirst, ?_⟩
          rw [hHs]
          exact ⟨_, Pattern.wordsLength?_cons_iff.2
            ⟨text'.toList, [], 0, (List.append_nil _).symm, hSame', rfl, rfl⟩⟩
        · rw [front_cons, hKind] at hAs
          cases hAs
          exact hLast word List.mem_cons_self hFound

end Glyph

/-! ## Written names -/

/-- The value of a name can stand in backticks. -/
theorem Glyph.Genuine.enclosable {value text : String} {quote : Option Char}
    (hGenuine : Glyph.Genuine ⟨.identifier value quote, text⟩) :
    value.toList ≠ [] ∧ Token.backtick ∉ value.toList := by
  cases quote with
  | some quote => exact hGenuine.2
  | none =>
    obtain ⟨parts, hText, hBare, -⟩ := hGenuine.2
    refine ⟨hText.text_ne_nil, fun hMem => ?_⟩
    rcases hText.mem_of_bare hBare _ hMem with hWord | hEq | hEq
    · exact absurd hWord (by decide)
    · exact absurd hEq (by decide)
    · exact absurd hEq (by decide)

/-- A word that is the first of no phrase opens none. -/
theorem not_opensPhrase_of_startsPhrase {word : List Char}
    (hStarts : RuleSet.base.startsPhrase word = false) (gs : List Glyph) :
    ¬OpensPhrase word gs := by
  rintro ⟨rule, hMem, first, further, keyword, hPhrase, hFirst, -⟩
  rw [RuleSet.startsPhrase, List.any_eq_false] at hStarts
  refine hStarts rule ?_ (hPhrase.opensWith hFirst (Text.sameWord_refl _))
  rw [RuleSet.rules_base]
  exact List.mem_append_left _ hMem

/-- A plain word is a name that is the first word of no phrase. -/
theorem bareName_of_isPlainWord {word : List Char} (hPlain : isPlainWord word = true) :
    Token.BareName word ∧ RuleSet.base.startsPhrase word = false := by
  cases word with
  | nil => cases hPlain
  | cons c cs =>
    simp only [isPlainWord, Bool.and_eq_true, Bool.not_eq_true',
      Option.isNone_iff_eq_none] at hPlain
    obtain ⟨⟨⟨hStart, hChars⟩, hKeyword⟩, hOpens⟩ := hPlain
    exact ⟨⟨[⟨c :: cs, false⟩], .single (.bare hStart (List.all_eq_true.1 hChars)), rfl,
      fun _ => hKeyword⟩, hOpens⟩

/-- The quotes that an alias is written in. -/
def aliasQuote (name : String) : Option Char :=
  if isPlainWord name.toList then none else some Token.backtick

namespace RuleSet.Reads

variable {dialect : Dialect} {text tail : List Char} {value : String} {r : List Glyph}

/-- A name that starts with a word and opens no phrase is found as it is read. -/
theorem finds_name {parts : List Token.NamePart} {kind : TokenKind}
    (hText : Token.NameText text parts) (hHead : ∀ c ∈ text.head?, Text.isWordStart c = true)
    (hOpens : base.startsPhrase text = false) (hRead : Token.readName text = some kind)
    (hNeutral : Text.Neutral tail) : dialect.grammar.tokens.Finds text tail kind := by
  obtain ⟨c, cs, rfl⟩ := List.exists_cons_of_ne_nil hText.text_ne_nil
  have hStart := hHead c rfl
  have hPhrases : phrases.findSome? (·.match? (c :: cs ++ tail)) = none := by
    rw [List.findSome?_eq_none_iff]
    intro rule hMem
    rw [Option.eq_none_iff_forall_ne_some]
    intro found hMatch
    obtain ⟨first, further, keyword, hPhrase⟩ := exists_isPhrase hMem
    obtain ⟨hSame, -⟩ := phrase_of_bareName hText rfl hStart hNeutral hPhrase hMatch
    rw [startsPhrase, List.any_eq_false] at hOpens
    refine hOpens rule ?_ (hPhrase.opensWith hSame (Text.sameWord_refl _))
    rw [rules_base]
    exact List.mem_append_left _ hMem
  refine ⟨List.cons_ne_nil c cs, Text.gapLength_of_isWordStart hStart, ?_⟩
  rw [List.cons_append, Dialect.first?_of_wordStart (Or.inl hStart), ← List.cons_append, hPhrases,
    nameRule_match? hText hRead hNeutral]
  rfl

/-- A name in backticks is found as the name. -/
theorem finds_enclosed (hValue : value.toList ≠ [] ∧ Token.backtick ∉ value.toList)
    (hNeutral : Text.Neutral tail) :
    dialect.grammar.tokens.Finds (enclose value (some Token.backtick)).toList tail
      (.identifier value (some Token.backtick)) := by
  have hText : (enclose value (some Token.backtick)).toList =
      Token.backtick :: (value.toList ++ [Token.backtick]) := by
    simp [enclose]
  have hFinds := @finds_quotedName dialect tail value.toList hValue.1 hValue.2 hNeutral
  rw [String.ofList_toList] at hFinds
  rwa [hText]

/-- An alias, bare or in backticks, is found as the name that it is. -/
theorem finds_alias (hValue : value.toList ≠ [] ∧ Token.backtick ∉ value.toList)
    (hNeutral : Text.Neutral tail) :
    dialect.grammar.tokens.Finds (renderAlias value).toList tail
      (.identifier value (aliasQuote value)) := by
  cases hPlain : isPlainWord value.toList with
  | true =>
    obtain ⟨hName, hOpens⟩ := bareName_of_isPlainWord hPlain
    have hRead := hName.readName
    rw [String.ofList_toList] at hRead
    obtain ⟨parts, hText, hBare, -⟩ := hName
    obtain ⟨c, cs, hCons, hStart⟩ := hText.head_of_bare hBare
    rw [renderAlias, aliasQuote, hPlain, if_pos rfl, if_pos rfl]
    refine finds_name hText (fun d hd => ?_) hOpens hRead hNeutral
    rw [hCons] at hd
    cases hd
    exact hStart
  | false =>
    have hText : renderAlias value = enclose value (some Token.backtick) := by
      rw [renderAlias, hPlain]
      rfl
    rw [hText, aliasQuote, hPlain]
    exact finds_enclosed hValue hNeutral

/-- A bare name that opens no phrase. -/
theorem bareName (hReads : dialect.grammar.tokens.Reads true tail r)
    (hNeutral : Text.Neutral tail) (hName : Token.BareName value.toList)
    (hOpens : ¬OpensPhrase value.toList r) :
    dialect.grammar.tokens.Reads true (value.toList ++ tail)
      (⟨.identifier value none, value⟩ :: r) := by
  have hText := hReads.name hName hNeutral hOpens
  rwa [String.ofList_toList] at hText

/-- A name in backticks. -/
theorem enclosedName (hReads : dialect.grammar.tokens.Reads true tail r)
    (hNeutral : Text.Neutral tail)
    (hValue : value.toList ≠ [] ∧ Token.backtick ∉ value.toList) :
    dialect.grammar.tokens.Reads true ((enclose value (some Token.backtick)).toList ++ tail)
      (⟨.identifier value (some Token.backtick), enclose value (some Token.backtick)⟩ :: r) :=
  hReads.foundText (finds_enclosed hValue hNeutral)

/-- An alias, bare or in backticks. -/
theorem aliasText (hReads : dialect.grammar.tokens.Reads true tail r)
    (hNeutral : Text.Neutral tail) (hValue : value.toList ≠ [] ∧ Token.backtick ∉ value.toList) :
    dialect.grammar.tokens.Reads true ((renderAlias value).toList ++ tail)
      (⟨.identifier value (aliasQuote value), renderAlias value⟩ :: r) :=
  hReads.foundText (finds_alias hValue hNeutral)

end RuleSet.Reads

/-! ## Written operators -/

namespace TokenKind

/-- The kinds of operators of one token. -/
theorem spelled_of_class {kind : TokenKind} {operator : OperatorClass}
    (hClass : operator.isSimple = true ∧ kind.infixClass? .finish = some operator ∨
      kind.prefixClass? = some operator) {text : String}
    (hGenuine : Glyph.Genuine ⟨kind, text⟩) :
    (∃ word single, kind = .keyword word ∧ word.words = [single] ∧
      Text.sameWord single.toList text.toList = true) ∨ text ∈ kind.spellings := by
  have hWord : ∀ {word : Keyword} {single : String}, kind = .keyword word → word.words = [single] →
      ∃ word single, kind = .keyword word ∧ word.words = [single] ∧
        Text.sameWord single.toList text.toList = true := by
    intro word single hKind hSingle
    subst hKind
    exact ⟨word, single, rfl, hSingle, hGenuine.sameWord hSingle⟩
  rcases hClass with ⟨-, hClass⟩ | hClass
  · unfold infixClass? at hClass
    split at hClass
    all_goals first
      | exact Or.inl (hWord rfl rfl)
      | exact Or.inr hGenuine
      | cases hClass
  · unfold prefixClass? at hClass
    split at hClass
    · exact Or.inr hGenuine
    · exact Or.inl (hWord rfl rfl)
    · cases hClass

end TokenKind

namespace RuleSet.Reads

variable {dialect : Dialect} {tail : List Char} {r : List Glyph}

/-- A keyword of one word as it was written. -/
theorem writtenWord {word : Keyword} {single text : String}
    (hReads : dialect.grammar.tokens.Reads true tail r) (hNeutral : Text.Neutral tail)
    (hSingle : word.words = [single]) (hSame : Text.sameWord single.toList text.toList = true) :
    dialect.grammar.tokens.Reads true (text.toList ++ tail) (⟨.keyword word, text⟩ :: r) := by
  have hText := hReads.keywordText hSingle hSame hNeutral
  rwa [String.ofList_toList] at hText

/-- An operator of one token as it was written. -/
theorem operator {kind : TokenKind} {text : String} {operator : OperatorClass}
    (hReads : dialect.grammar.tokens.Reads true tail r) (hNeutral : Text.Neutral tail)
    (hClass : operator.isSimple = true ∧ kind.infixClass? .finish = some operator ∨
      kind.prefixClass? = some operator)
    (hGenuine : Glyph.Genuine ⟨kind, text⟩) :
    dialect.grammar.tokens.Reads true (text.toList ++ tail) (⟨kind, text⟩ :: r) := by
  rcases TokenKind.spelled_of_class hClass hGenuine with ⟨word, single, rfl, hSingle, hSame⟩ | hText
  · exact hReads.writtenWord hNeutral hSingle hSame
  · exact hReads.mark hText hNeutral

end RuleSet.Reads

section Negatable

variable {word : Keyword} {single op : String} {negated : Bool} {gs hs : List Glyph}

/-- The text of an operator that may be negated. -/
def negatableText (negated : Bool) (notText text : String) : String :=
  if negated then notText ++ " " ++ text else text

/-- The glyphs of an operator that may be negated. -/
def negatableGlyphs (word : Keyword) (negated : Bool) (notText text : String) : List Glyph :=
  if negated then [⟨.keyword .NOT, notText⟩, ⟨.keyword word, text⟩] else [⟨.keyword word, text⟩]

theorem negatableWord_glyphs (word : Keyword) (negated : Bool) (notText text : String)
    (r : List Glyph) :
    NegatableWord word negated (negatableText negated notText text)
      (negatableGlyphs word negated notText text ++ r) r := by
  cases negated with
  | false => exact .plain
  | true => exact .negated

/-- The same operator stands at the front. -/
theorem NegatableWord.repeats (hWord : NegatableWord word negated op gs hs) (hNot : word ≠ .NOT)
    (notText text : String) (r : List Glyph) :
    Glyph.Repeats gs (negatableGlyphs word negated notText text ++ r) := by
  cases hWord with
  | plain => exact Glyph.repeats_cons ⟨rfl, by simpa using hNot⟩
  | negated => exact ⟨rfl, rfl, rfl⟩

/-- The words of an operator that may be negated, as they were written. -/
theorem NegatableWord.exists_text (hWord : NegatableWord word negated op gs hs)
    (hGenuine : AllGenuine gs) (hSingle : word.words = [single]) :
    ∃ notText text, op = negatableText negated notText text ∧
      Text.sameWord "NOT".toList notText.toList = true ∧
      Text.sameWord single.toList text.toList = true := by
  cases hWord with
  | plain => exact ⟨"NOT", op, rfl, Text.sameWord_refl _, hGenuine.head.sameWord hSingle⟩
  | negated =>
    exact ⟨_, _, rfl, hGenuine.head.sameWord rfl, hGenuine.tail.head.sameWord hSingle⟩

theorem RuleSet.Reads.negatable {dialect : Dialect} {tail : List Char} {r : List Glyph}
    {notText text : String} (hReads : dialect.grammar.tokens.Reads true tail r)
    (hNeutral : Text.Neutral tail) (hSingle : word.words = [single])
    (hNot : Text.sameWord "NOT".toList notText.toList = true)
    (hText : Text.sameWord single.toList text.toList = true) :
    dialect.grammar.tokens.Reads true ((negatableText negated notText text).toList ++ tail)
      (negatableGlyphs word negated notText text ++ r) := by
  have hWord := hReads.writtenWord hNeutral hSingle hText
  cases negated with
  | false => exact hWord
  | true =>
    have hBoth := hWord.space.writtenWord (Text.neutral_cons (Or.inl (by decide)))
      (show Keyword.NOT.words = ["NOT"] from rfl) hNot
    simpa [negatableText, negatableGlyphs] using hBoth

end Negatable

/-! ## Written types -/

section Types

variable (dialect : Dialect) {gs hs r : List Glyph}

/-- The first glyph does not start like a word. -/
def Glyph.Wordless (gs : List Glyph) : Prop :=
  ∀ glyph ∈ gs.head?, ∀ c ∈ glyph.text.toList.head?, Text.isWordStart c = false

/-- Only the words before a wordless glyph can complete a phrase. -/
theorem Glyph.Completes.of_wordless {words : List String} {cs : List Glyph}
    (hWords : ∀ word ∈ words, Pattern.IsPhraseWord word) (hWordless : Glyph.Wordless r)
    (hCompletes : Glyph.Completes words (cs ++ r)) (hs : List Glyph) :
    Glyph.Completes words (cs ++ hs) := by
  induction words generalizing cs with
  | nil => cases cs ++ hs <;> exact trivial
  | cons word words ih =>
    cases cs with
    | nil =>
      cases r with
      | nil => exact absurd hCompletes (by simp [Glyph.Completes])
      | cons glyph r =>
        obtain ⟨b, more, hText, hSame, -⟩ := hCompletes.exists_word
        obtain ⟨c, b, rfl, hStart, -⟩ := (hWords word List.mem_cons_self).head_of_sameWord hSame
        rw [hWordless glyph rfl c (by rw [hText]; rfl)] at hStart
        cases hStart
    | cons glyph cs =>
      cases words with
      | nil => exact hCompletes
      | cons next words =>
        exact ⟨hCompletes.1, ih (fun w hw => hWords w (List.mem_cons_of_mem _ hw)) hCompletes.2⟩

theorem Glyph.not_opensPhrase_of_wordless {text : List Char} {cs : List Glyph}
    (hOpens : ¬OpensPhrase text (cs ++ hs)) (hWordless : Glyph.Wordless r) :
    ¬OpensPhrase text (cs ++ r) := by
  rintro ⟨rule, hMem, first, further, keyword, hPhrase, hFirst, hCompletes⟩
  exact hOpens ⟨rule, hMem, first, further, keyword, hPhrase, hFirst,
    hCompletes.of_wordless hPhrase.further_words hWordless hs⟩

/-- The further words of a type, with a space before each.  They are the glyphs
that they were. -/
theorem TypeWords.rewritten {words : List String} (hWords : TypeWords words gs hs)
    (hPlain : Glyph.Plain gs) :
    ∃ cs, gs = cs ++ hs ∧ ∀ r, Glyph.Wordless r → (∀ value, front r ≠ .identifier value none) →
      TypeWords words (cs ++ r) r ∧
        ∀ tail, Text.Neutral tail → dialect.grammar.tokens.Reads true tail r →
          Text.Neutral (words.flatMap (fun word => ' ' :: word.toList) ++ tail) ∧
          dialect.grammar.tokens.Reads true
            (words.flatMap (fun word => ' ' :: word.toList) ++ tail) (cs ++ r) := by
  induction hWords with
  | done =>
    exact ⟨[], rfl,
      fun r _ hFront => ⟨.done hFront, fun tail hNeutral hReads => ⟨hNeutral, hReads⟩⟩⟩
  | @more value text words gs hs hWords ih =>
    obtain ⟨cs, rfl, hRest⟩ := ih hPlain.tail
    obtain ⟨hText, hName⟩ := hPlain.head
    obtain rfl : text = value := hText
    refine ⟨⟨.identifier text none, text⟩ :: cs, rfl, fun r hWordless hFront => ?_⟩
    obtain ⟨hTypes, hTexts⟩ := hRest r hWordless hFront
    refine ⟨.more hTypes, fun tail hNeutral hReads => ?_⟩
    obtain ⟨hNeutral', hReads'⟩ := hTexts tail hNeutral hReads
    have hOpens := Glyph.not_opensPhrase_of_wordless hPlain.not_opensPhrase hWordless
    have hWord := (hReads'.bareName hNeutral' hName hOpens).space
    refine ⟨Text.neutral_cons (Or.inl (by decide)), ?_⟩
    simpa using hWord

/-- The first word of a type. -/
theorem TypeWord.rewritten {word : String} (hWord : TypeWord word gs hs) (hPlain : Glyph.Plain gs) :
    ∃ glyph, (∀ r, TypeWord word (glyph :: r) r) ∧
      ∀ r tail, Text.Neutral tail → dialect.grammar.tokens.Reads true tail r →
        (∀ text, ¬OpensPhrase text hs → ¬OpensPhrase text r) →
        dialect.grammar.tokens.Reads true (word.toList ++ tail) (glyph :: r) := by
  cases hWord with
  | @quoted value text quote =>
    obtain ⟨rfl, hValue⟩ := hPlain.head
    exact ⟨⟨.identifier value (some Token.backtick), enclose value (some Token.backtick)⟩,
      fun r => .quoted, fun r tail hNeutral hReads _ => hReads.enclosedName hNeutral hValue⟩
  | @bare _ text =>
    obtain ⟨hText, hName⟩ := hPlain.head
    obtain rfl : text = word := hText
    exact ⟨⟨.identifier text none, text⟩, fun r => .bare, fun r tail hNeutral hReads hOpens =>
      hReads.bareName hNeutral hName (hOpens _ hPlain.not_opensPhrase)⟩

/-- The sizes of a type after the first, with a comma before each. -/
theorem TypeSizes.rewritten {sizes : List String} (hSizes : TypeSizes sizes gs hs)
    (hPlain : Glyph.Plain gs) :
    ∃ cs, ∀ r, front r ≠ .comma →
      TypeSizes sizes (cs ++ r) r ∧
        ∀ tail, Text.Neutral tail → dialect.grammar.tokens.Reads true tail r →
          Text.Neutral (sizes.flatMap (fun size => ", ".toList ++ size.toList) ++ tail) ∧
          dialect.grammar.tokens.Reads true
            (sizes.flatMap (fun size => ", ".toList ++ size.toList) ++ tail) (cs ++ r) := by
  induction hSizes with
  | done =>
    exact ⟨[], fun r hFront => ⟨.done hFront, fun tail hNeutral hReads => ⟨hNeutral, hReads⟩⟩⟩
  | @more value _ _ sizes _ _ _ ih =>
    obtain ⟨cs, hRest⟩ := ih hPlain.tail.tail
    refine ⟨⟨.comma, ","⟩ :: ⟨.integer value, toString value.toInt⟩ :: cs, fun r hFront => ?_⟩
    obtain ⟨hTypes, hTexts⟩ := hRest r hFront
    refine ⟨.more hTypes, fun tail hNeutral hReads => ?_⟩
    obtain ⟨hNeutral', hReads'⟩ := hTexts tail hNeutral hReads
    have hSize := (hReads'.integer hPlain.tail.head hNeutral').space.comma
    refine ⟨Text.neutral_cons (Or.inr (by decide)), ?_⟩
    simpa using hSize

theorem Glyph.wordless_paren (kind : TokenKind) {text : String} (hText : text = "(" ∨ text = ")")
    (r : List Glyph) : Glyph.Wordless (⟨kind, text⟩ :: r) := by
  intro glyph hGlyph c hc
  cases hGlyph
  have hLeft : ∀ c ∈ "(".toList, Text.isWordStart c = false :=
    List.forall_mem_singleton.2 (by decide)
  have hRight : ∀ c ∈ ")".toList, Text.isWordStart c = false :=
    List.forall_mem_singleton.2 (by decide)
  rcases hText with rfl | rfl
  · exact hLeft c (List.mem_of_mem_head? hc)
  · exact hRight c (List.mem_of_mem_head? hc)

/-- The words of a type in front of a parenthesis. -/
theorem TypeWords.rewritten_paren {word : String} {words : List String} {is : List Glyph}
    (hWord : TypeWord word gs hs) (hWords : TypeWords words hs is) (hPlain : Glyph.Plain gs) :
    ∃ glyph cs, ∀ kind text r, text = "(" ∨ text = ")" →
      (∀ value, kind ≠ .identifier value none) →
      TypeWord word (glyph :: (cs ++ ⟨kind, text⟩ :: r)) (cs ++ ⟨kind, text⟩ :: r) ∧
      TypeWords words (cs ++ ⟨kind, text⟩ :: r) (⟨kind, text⟩ :: r) ∧
      ∀ tail, Text.Neutral tail → dialect.grammar.tokens.Reads true tail (⟨kind, text⟩ :: r) →
        dialect.grammar.tokens.Reads true ((" ".intercalate (word :: words)).toList ++ tail)
          (glyph :: (cs ++ ⟨kind, text⟩ :: r)) := by
  obtain ⟨glyph, hFirst, hFirstReads⟩ := hWord.rewritten dialect hPlain
  obtain ⟨cs, hHs, hFurther⟩ := hWords.rewritten dialect (hPlain.of_suffix hWord.suffix)
  refine ⟨glyph, cs, fun kind text r hText hKind => ?_⟩
  have hWordless := Glyph.wordless_paren kind hText r
  obtain ⟨hTypes, hTexts⟩ := hFurther _ hWordless hKind
  refine ⟨hFirst _, hTypes, fun tail hNeutral hReads => ?_⟩
  obtain ⟨hNeutral', hReads'⟩ := hTexts _ hNeutral hReads
  have hAll := hFirstReads _ _ hNeutral' hReads' fun text hOpens => by
    rw [hHs] at hOpens
    exact Glyph.not_opensPhrase_of_wordless hOpens hWordless
  rw [Text.toList_intercalate_cons]
  simpa using hAll

/-- The name of a type in front of a closing parenthesis. -/
theorem TypeName.rewritten {name close : String} {is : List Glyph}
    (hName : TypeName name gs (⟨.rightParen, close⟩ :: is)) (hPlain : Glyph.Plain gs) :
    ∃ cs, ∀ r, TypeName name (cs ++ ⟨.rightParen, ")"⟩ :: r) (⟨.rightParen, ")"⟩ :: r) ∧
      ∀ tail, dialect.grammar.tokens.Reads true tail r →
        dialect.grammar.tokens.Reads true (name.toList ++ ')' :: tail)
          (cs ++ ⟨.rightParen, ")"⟩ :: r) := by
  have hClose : ∀ tail, Text.Neutral (')' :: tail) := fun tail => Text.neutral_cons (by decide)
  cases hName with
  | plain hWord hWords hFront =>
    obtain ⟨glyph, cs, hRest⟩ := TypeWords.rewritten_paren dialect hWord hWords hPlain
    refine ⟨glyph :: cs, fun r => ?_⟩
    obtain ⟨hFirst, hTypes, hTexts⟩ := hRest .rightParen ")" r (Or.inr rfl) (by simp)
    exact ⟨.plain hFirst hTypes (by simp),
      fun tail hReads => hTexts _ (hClose tail) hReads.rightParen⟩
  | @sized word _ _ _ words sizes value gs hs is js hWord hWords hSizes =>
    obtain ⟨glyph, cs, hRest⟩ := TypeWords.rewritten_paren dialect hWord hWords hPlain
    have hAfter := (hPlain.of_suffix hWord.suffix).of_suffix hWords.suffix
    obtain ⟨ds, hFurther⟩ := hSizes.rewritten dialect hAfter.tail.tail
    refine ⟨glyph :: (cs ++ ⟨.leftParen, "("⟩ :: ⟨.integer value, toString value.toInt⟩ ::
      (ds ++ [⟨.rightParen, ")"⟩])), fun r => ?_⟩
    obtain ⟨hTypes, hSizeTexts⟩ := hFurther (⟨.rightParen, ")"⟩ :: ⟨.rightParen, ")"⟩ :: r)
      (by simp)
    obtain ⟨hFirst, hWordTypes, hTexts⟩ := hRest .leftParen "("
      (⟨.integer value, toString value.toInt⟩ ::
        (ds ++ ⟨.rightParen, ")"⟩ :: ⟨.rightParen, ")"⟩ :: r)) (Or.inl rfl) (by simp)
    constructor
    · have hSized := TypeName.sized hFirst hWordTypes hTypes
      simpa using hSized
    · intro tail hReads
      obtain ⟨hNeutral, hInner⟩ := hSizeTexts _ (hClose _) hReads.rightParen.rightParen
      have hParen := (hInner.integer hAfter.tail.head hNeutral).leftParen
      have hAll := hTexts _ (Text.neutral_cons (by decide)) hParen
      rw [String.toList_append, String.toList_append, String.toList_append,
        Text.toList_intercalate_cons ", "]
      simpa using hAll

end Types

/-! ## Written operands -/

namespace Node

/-- The text of an undecorated node is that of its form. -/
theorem render_ofForm (form : Form Node) :
    (ofForm form).render = (form.map render).renderParts := by
  rw [render_eq_decorate]
  simp [decorate, ofForm, renderForm, renderClause]

theorem render_withParentheses {node : Node} (hAlias : node.aliasName = none)
    (hParens : node.parentheses = false) :
    (node.withParentheses true).render = "(" ++ node.render ++ ")" := by
  obtain ⟨form, aliasName, parentheses⟩ := node
  cases hAlias
  cases hParens
  simp [render_eq_decorate, withParentheses, decorate, renderForm, renderClause]

theorem withParentheses_eq {node : Node} (hParens : node.parentheses = true) :
    node.withParentheses true = node := by
  obtain ⟨form, aliasName, parentheses⟩ := node
  cases hParens
  rfl

theorem render_withAlias {node : Node} (hAlias : node.aliasName = none) (name : String) :
    (node.withAlias name).render = node.render ++ " AS " ++ renderAlias name := by
  obtain ⟨form, aliasName, parentheses⟩ := node
  cases hAlias
  simp [render_eq_decorate, withAlias, decorate, renderForm, renderClause, String.append_assoc]

end Node

/-- A text literal stands between quotes that it does not hold. -/
theorem RuleSet.Reads.finds_textLiteral {dialect : Dialect} {tail : List Char} {value : String}
    (hValue : '\x22' ∉ value.toList ∨ '\x27' ∉ value.toList) :
    dialect.grammar.tokens.Finds (Value.text value).render.toList tail (.text value) := by
  have hQuoted : ∀ quote : Char, quote = '\x22' ∨ quote = '\x27' → quote ∉ value.toList →
      (Value.text value).render.toList = quote :: (value.toList ++ [quote]) →
      dialect.grammar.tokens.Finds (Value.text value).render.toList tail (.text value) := by
    intro quote hQuote hMem hText
    have hAll : dialect.grammar.tokens.Finds (quote :: (value.toList ++ [quote])) tail
        (.text (String.ofList value.toList)) := finds_text hQuote hMem
    rw [hText]
    rwa [String.ofList_toList] at hAll
  by_cases hDouble : '\x22' ∈ value.toList
  · refine hQuoted '\x27' (Or.inr rfl) (hValue.resolve_left (fun h => h hDouble)) ?_
    simp [Value.render, hDouble]
  · refine hQuoted '\x22' (Or.inl rfl) hDouble ?_
    simp [Value.render, hDouble]

/-- A text literal reads back. -/
theorem RuleSet.Reads.textLiteral {dialect : Dialect} {tail : List Char} {r : List Glyph}
    {value : String} (hReads : dialect.grammar.tokens.Reads true tail r)
    (hValue : '\x22' ∉ value.toList ∨ '\x27' ∉ value.toList) :
    dialect.grammar.tokens.Reads true ((Value.text value).render.toList ++ tail)
      (⟨.text value, (Value.text value).render⟩ :: r) :=
  hReads.foundText (finds_textLiteral hValue)

/-- A variable's text is found as the variable. -/
theorem RuleSet.Reads.finds_variable {tail : List Char} {name : String} (system : Bool)
    (hName : name.toList ≠ [] ∧ ∀ c ∈ name.toList, Token.isVariableChar c = true)
    (hNeutral : Text.Neutral tail) :
    Dialect.mysql.grammar.tokens.Finds (Form.renderParts (.variableName name system)).toList tail
      (if system then .systemVariable name else .userVariable name) := by
  have hUser := finds_userVariable hName.1 hName.2 hNeutral
  have hSystem := finds_systemVariable hName.1 hName.2 hNeutral
  rw [String.ofList_toList] at hUser hSystem
  cases system with
  | false => simpa [Form.renderParts] using hUser
  | true => simpa [Form.renderParts] using hSystem

namespace Dialect

variable {dialect : Dialect} {kind : TokenKind} {text : String} {node : Node}

/-- The text of an operand of one token reads back as that token. -/
theorem reads_atom (hAtom : dialect.atom? kind = some node) (hGenuine : Glyph.Genuine ⟨kind, text⟩)
    {tail : List Char} {r : List Glyph} (hNeutral : Text.Neutral tail)
    (hReads : dialect.grammar.tokens.Reads true tail r) :
    dialect.grammar.tokens.Reads true (node.render.toList ++ tail) (⟨kind, node.render⟩ :: r) := by
  -- The text of each of these nodes is that of its form.
  have hForm : ∀ {form : Form Node} {text : String}, (form.map Node.render).renderParts = text →
      dialect.grammar.tokens.Reads true (text.toList ++ tail) (⟨kind, text⟩ :: r) →
      dialect.grammar.tokens.Reads true ((Node.ofForm form).render.toList ++ tail)
        (⟨kind, (Node.ofForm form).render⟩ :: r) := by
    intro form text hText hRest
    rw [Node.render_ofForm, hText]
    exact hRest
  cases atom_of_atom? hAtom with
  | integer => exact hForm rfl (hReads.integer hGenuine hNeutral)
  | float => exact hForm rfl (hReads.float hGenuine hNeutral)
  | text => exact hForm rfl (hReads.textLiteral hGenuine)
  | null => exact hForm rfl (hReads.keyword .NULL hNeutral)
  | truth => exact hForm rfl (hReads.keyword .TRUE hNeutral)
  | falsehood => exact hForm rfl (hReads.keyword .FALSE hNeutral)
  | parameter => exact hForm rfl (hReads.mark (List.mem_singleton_self "?") hNeutral)
  | everything => exact hForm rfl (hReads.mark (List.mem_singleton_self "*") hNeutral)
  | quoted =>
    obtain ⟨rfl, hValue⟩ := hGenuine
    exact hForm rfl (hReads.enclosedName hNeutral hValue)
  | userVariable name hDialect =>
    subst hDialect
    exact hForm rfl (hReads.foundText (RuleSet.Reads.finds_variable false hGenuine hNeutral))
  | systemVariable name hDialect =>
    subst hDialect
    exact hForm rfl (hReads.foundText (RuleSet.Reads.finds_variable true hGenuine hNeutral))

end Dialect

/-- A column before what may follow it. -/
theorem RuleSet.Reads.column {dialect : Dialect} {value text : String} {hs r : List Glyph}
    {tail : List Char} (hReads : dialect.grammar.tokens.Reads true tail r)
    (hNeutral : Text.Neutral tail)
    (hPlain : Glyph.Plain (⟨.identifier value none, text⟩ :: hs))
    (hContinues : Glyph.Continues hs r) :
    dialect.grammar.tokens.Reads true ((Node.identifier value none).render.toList ++ tail)
      (⟨.identifier value none, (Node.identifier value none).render⟩ :: r) := by
  obtain ⟨hText, hName⟩ := hPlain.head
  obtain rfl : text = value := hText
  rw [Node.identifier, Node.render_ofForm]
  exact hReads.bareName hNeutral hName (hPlain.not_opensPhrase_of_continues hContinues hReads)

/-- The text of a source of one token reads back as that token. -/
theorem Dialect.reads_table {dialect : Dialect} {kind : TokenKind} {text : String} {node : Node}
    (hTable : dialect.table? kind = some node) {hs r : List Glyph} {tail : List Char}
    (hPlain : Glyph.Plain (⟨kind, text⟩ :: hs)) (hContinues : Glyph.Continues hs r)
    (hNeutral : Text.Neutral tail) (hReads : dialect.grammar.tokens.Reads true tail r) :
    dialect.grammar.tokens.Reads true (node.render.toList ++ tail) (⟨kind, node.render⟩ :: r) := by
  unfold table? at hTable
  split at hTable
  · cases hTable
    rename_i value quote
    cases quote with
    | none => exact hReads.column hNeutral hPlain hContinues
    | some quote => exact reads_atom rfl hPlain.head hNeutral hReads
  · next name =>
    have hAtom : dialect.atom? (.userVariable name) = some node := hTable
    exact reads_atom hAtom hPlain.head hNeutral hReads
  · next name =>
    have hAtom : dialect.atom? (.systemVariable name) = some node := hTable
    exact reads_atom hAtom hPlain.head hNeutral hReads
  · cases hTable

end SqlQuery
