import SqlQuery.Proofs.NameText
import SqlQuery.Proofs.Reading

/-!
# What the lexer's tokens look like

A token that the lexer yields is *genuine*: its kind and its text belong
together.  A keyword of one word is spelled like that word, a mark has one of
its spellings, a name without quotes is its own text; numbers are not
negative, a text does not hold both quote characters, and a quoted name holds
no backtick.

## Main results

* `RuleSet.Reads.genuine` — every glyph of a reading is genuine.
-/

namespace SqlQuery

namespace Text

theorem exists_digit {c : Char} (hDigit : c.isDigit = true) :
    ∃ k : Fin 10, c = Char.ofNat (48 + k) := by
  simp only [Char.isDigit, Bool.and_eq_true, decide_eq_true_eq] at hDigit
  obtain ⟨hLow, hHigh⟩ := hDigit
  have hLow' : 48 ≤ c.toNat := hLow
  have hHigh' : c.toNat ≤ 57 := hHigh
  refine ⟨⟨c.toNat - 48, by omega⟩, ?_⟩
  have hSum : 48 + (c.toNat - 48) = c.toNat := by omega
  rw [hSum, Char.ofNat_toNat]

theorem isWordStart_of_isDigit {c : Char} (hDigit : c.isDigit = true) : isWordStart c = false := by
  obtain ⟨k, rfl⟩ := exists_digit hDigit
  revert k
  decide

/-- Texts with a separator between them, as one text before each but the first. -/
theorem toList_intercalate_cons (separator first : String) (further : List String) :
    (separator.intercalate (first :: further)).toList =
      first.toList ++ further.flatMap fun text => separator.toList ++ text.toList := by
  induction further generalizing first with
  | nil => simp
  | cons second further ih =>
    rw [String.intercalate_cons_cons, String.toList_append, String.toList_append, ih]
    simp

end Text

/-! ## Genuine glyphs -/

/-- The texts that a punctuation mark may have. -/
def TokenKind.spellings : TokenKind → List String
  | .plus => ["+"]
  | .minus => ["-"]
  | .star => ["*"]
  | .slash => ["/"]
  | .percent => ["%"]
  | .equal => ["="]
  | .notEqual => ["<>", "!="]
  | .less => ["<"]
  | .lessEqual => ["<="]
  | .greater => [">"]
  | .greaterEqual => [">="]
  | .concat => ["||"]
  | .leftParen => ["("]
  | .rightParen => [")"]
  | .comma => [","]
  | .semicolon => [";"]
  | .question => ["?"]
  | _ => []

/-- A text that is a name without quotes and not a keyword. -/
def Token.BareName (text : List Char) : Prop :=
  ∃ parts, NameText text parts ∧ parts.any (·.quoted) = false ∧
    (parts = [⟨text, false⟩] → Keyword.ofWord? text = none)

theorem Token.BareName.readName {text : List Char} (hName : BareName text) :
    readName text = some (.identifier (String.ofList text) none) := by
  obtain ⟨parts, hText, hBare, hKeyword⟩ := hName
  rcases readName_of_nameText hText with ⟨word, hSingle, hWord, -⟩ | ⟨-, -, hRead⟩ | ⟨hQuoted, -⟩
  · rw [hKeyword hSingle] at hWord
    cases hWord
  · exact hRead
  · rw [hBare] at hQuoted
    cases hQuoted

/-- The kind and the text of a glyph belong together. -/
def Glyph.Genuine (glyph : Glyph) : Prop :=
  match glyph.kind with
  | .integer value => 0 ≤ value.toInt
  | .float value => value.isFinite = true ∧ value.negative = false
  | .text value => '\x22' ∉ value.toList ∨ '\x27' ∉ value.toList
  | .identifier value none => glyph.text = value ∧ Token.BareName value.toList
  | .identifier value (some quote) =>
    quote = Token.backtick ∧ value.toList ≠ [] ∧ Token.backtick ∉ value.toList
  | .keyword word =>
    ∀ single, word.words = [single] → Text.sameWord single.toList glyph.text.toList = true
  | .userVariable name | .systemVariable name =>
    name.toList ≠ [] ∧ ∀ c ∈ name.toList, Token.isVariableChar c = true
  | kind => glyph.text ∈ kind.spellings

/-! ## Numbers -/

namespace Number.Binary64

/-! ### Signs and magnitudes -/

section Magnitude

variable {magnitude : Nat} {x : Binary64}

theorem toNat_ofMagnitude (hMagnitude : magnitude < twoPow 63) :
    (ofMagnitude false magnitude).bits.toNat = magnitude := by
  have hWord : twoPow 63 < 2 ^ 64 := by decide
  show (UInt64.ofNat (0 + magnitude)).toNat = magnitude
  rw [Nat.zero_add, UInt64.toNat_ofNat_of_lt' (Nat.lt_trans hMagnitude hWord)]

theorem negative_ofMagnitude (hMagnitude : magnitude < twoPow 63) :
    (ofMagnitude false magnitude).negative = false := by
  rw [negative, toNat_ofMagnitude hMagnitude, Nat.div_eq_of_lt hMagnitude]
  rfl

theorem magnitude_ofMagnitude (hMagnitude : magnitude < twoPow 63) :
    (ofMagnitude false magnitude).magnitude = magnitude := by
  rw [Binary64.magnitude, toNat_ofMagnitude hMagnitude, Nat.mod_eq_of_lt hMagnitude]

theorem infinityWord_lt : infinityWord < twoPow 63 := by decide

theorem isNaN_of_isFinite (hFinite : x.isFinite = true) : x.isNaN = false := by
  have hBound : x.magnitude < infinityWord := Nat.blt_eq.mp hFinite
  rw [isNaN, ← Bool.not_eq_true, Nat.blt_eq]
  omega

theorem isInfinite_of_isFinite (hFinite : x.isFinite = true) : x.isInfinite = false := by
  have hBound : x.magnitude < infinityWord := Nat.blt_eq.mp hFinite
  rw [isInfinite, beq_eq_false_iff_ne]
  omega

end Magnitude

theorem roundedMagnitude_le (num den : Nat) : roundedMagnitude num den ≤ infinityWord := by
  unfold roundedMagnitude
  split
  · exact Nat.zero_le _
  · exact Nat.min_le_left _ _

/-- The number nearest to a decimal number is infinite at most. -/
theorem exists_ofDecimal (d : Decimal) :
    ∃ magnitude ≤ infinityWord, ofDecimal false d = ofMagnitude false magnitude := by
  unfold ofDecimal
  split
  · exact ⟨0, Nat.zero_le _, rfl⟩
  · split
    · exact ⟨infinityWord, Nat.le_refl _, rfl⟩
    · split
      · exact ⟨0, Nat.zero_le _, rfl⟩
      · exact ⟨_, roundedMagnitude_le _ _, rfl⟩

/-- The number nearest to a decimal number has the sign asked for. -/
theorem negative_ofDecimal (d : Decimal) : (ofDecimal false d).negative = false := by
  obtain ⟨magnitude, hBound, hValue⟩ := exists_ofDecimal d
  rw [hValue]
  exact negative_ofMagnitude (Nat.lt_of_le_of_lt hBound infinityWord_lt)

/-- The number nearest to a decimal number is finite or infinite. -/
theorem isFinite_ofDecimal (d : Decimal) :
    (ofDecimal false d).isFinite = !(ofDecimal false d).isInfinite := by
  obtain ⟨magnitude, hBound, hValue⟩ := exists_ofDecimal d
  have hMagnitude := magnitude_ofMagnitude (Nat.lt_of_le_of_lt hBound infinityWord_lt)
  rw [hValue, isFinite, isInfinite, hMagnitude, Bool.eq_iff_iff, Nat.blt_eq, Bool.not_eq_true',
    beq_eq_false_iff_ne]
  omega

/-- A literal that starts with a digit denotes a number without a sign. -/
theorem ofChars?_of_digit {c : Char} {cs : List Char} (hDigit : c.isDigit = true) :
    ofChars? (c :: cs) = (Decimal.ofChars? (c :: cs)).map (ofDecimal false) := by
  have hMinus : c ≠ '-' := by rintro rfl; cases hDigit
  have hPlus : c ≠ '+' := by rintro rfl; cases hDigit
  have hWord : ∀ {d : Char}, d.isDigit = false → ∀ ds : List Char,
      (String.ofList ((c :: cs).map Char.toLower) == String.ofList (d :: ds)) = false := by
    intro d hLetter ds
    rw [beq_eq_false_iff_ne]
    intro hEq
    have hLower : c.toLower = d := by
      have := String.ofList_injective hEq
      simpa using (List.cons.inj this).1
    have hSame : c.toLower = c := by
      refine dif_neg ?_
      simp only [Char.isDigit, Bool.and_eq_true, decide_eq_true_eq] at hDigit
      rintro ⟨hLow, -⟩
      exact absurd (UInt32.le_trans hLow hDigit.2) (by decide)
    rw [← hLower, hSame, hDigit] at hLetter
    cases hLetter
  have hUnsigned : ofUnsigned? false (c :: cs) =
      (Decimal.ofChars? (c :: cs)).map (ofDecimal false) := by
    have hInf := hWord (d := 'i') (show 'i'.isDigit = false from rfl) ['n', 'f']
    have hInfinity := hWord (d := 'i') rfl ['n', 'f', 'i', 'n', 'i', 't', 'y']
    have hNan := hWord (d := 'n') rfl ['a', 'n']
    rw [ofUnsigned?]
    simp only [hInf, hInfinity, hNan]
    rfl
  rw [← hUnsigned]
  unfold ofChars?
  split
  · next h => exact absurd (List.cons.inj h).1 hMinus
  · next h => exact absurd (List.cons.inj h).1 hPlus
  · rfl

end Number.Binary64

namespace Token

variable {cs lexeme : List Char} {length : Nat} {kind : TokenKind}

theorem digitCount_pos_iff : 0 < digitCount cs ↔ ∃ c rest, cs = c :: rest ∧ c.isDigit = true := by
  cases cs with
  | nil => simp [digitCount]
  | cons c rest => cases hDigit : c.isDigit <;> simp [digitCount, hDigit]

theorem exists_digit_of_numberLength? (hLength : numberLength? cs = some length) :
    ∃ c rest, cs = c :: rest ∧ c.isDigit = true := by
  unfold numberLength? at hLength
  dsimp only at hLength
  split at hLength
  · cases hLength
  · next hDigits => exact digitCount_pos_iff.1 (Nat.pos_of_ne_zero hDigits)

theorem numberLength?_pos (hLength : numberLength? cs = some length) : 0 < length := by
  simp only [numberLength?] at hLength
  split at hLength
  · cases hLength
  · cases hLength
    omega

/-- A number is not negative. -/
theorem genuine_readNumber {c : Char} (hDigit : c.isDigit = true)
    (hRead : readNumber (c :: cs) = some kind) (text : String) : Glyph.Genuine ⟨kind, text⟩ := by
  unfold readNumber at hRead
  split at hRead
  · rw [Number.Binary64.ofChars?_of_digit hDigit] at hRead
    obtain ⟨value, hValue, hKind⟩ := Option.bind_eq_some_iff.1 hRead
    obtain ⟨decimal, -, rfl⟩ := Option.map_eq_some_iff.1 hValue
    split at hKind
    · next hFinite =>
      cases hKind
      exact ⟨hFinite, Number.Binary64.negative_ofDecimal decimal⟩
    · cases hKind
  · split at hRead
    · cases hRead
    · dsimp only at hRead
      split at hRead
      · next hLargest =>
        cases hRead
        show 0 ≤ (Int64.ofNat _).toInt
        rw [Int64.toInt_ofNat_of_lt (by unfold largestInteger at hLargest; omega)]
        exact Int.natCast_nonneg _
      · cases hRead

/-- A word that is a keyword is spelled like it. -/
theorem sameWord_of_ofWord? {word : Keyword} (hWord : Keyword.ofWord? cs = some word) :
    ∃ single, word.words = [single] ∧ Text.sameWord single.toList cs = true := by
  have hFound := List.find?_some hWord
  split at hFound
  · next single hWords => exact ⟨single, hWords, hFound⟩
  · cases hFound

theorem genuine_readName {parts : List NamePart} (hText : NameText cs parts)
    (hRead : readName cs = some kind) : Glyph.Genuine ⟨kind, String.ofList cs⟩ := by
  rcases readName_of_nameText hText with ⟨word, -, hWord, hKind⟩ | ⟨hBare, hSingle, hKind⟩ |
    ⟨-, hKind⟩
  · rw [hRead] at hKind
    cases hKind
    intro single hSingle
    obtain ⟨other, hOther, hSame⟩ := sameWord_of_ofWord? hWord
    rw [hSingle] at hOther
    cases hOther
    rwa [String.toList_ofList]
  · rw [hRead] at hKind
    cases hKind
    refine ⟨rfl, parts, ?_⟩
    rw [String.toList_ofList]
    exact ⟨hText, hBare, hSingle⟩
  · rw [hRead] at hKind
    cases hKind
    refine ⟨rfl, ?_⟩
    rw [String.toList_ofList]
    exact ⟨hText.partsValue_ne_nil, hText.backtick_notMem⟩

/-- The name of a variable at the start of a text. -/
theorem takeWhile_isVariableChar (hPos : variableNameLength cs ≠ 0) :
    cs.take (variableNameLength cs) ≠ [] ∧
      ∀ c ∈ cs.take (variableNameLength cs), isVariableChar c = true := by
  have hTake : cs.take (variableNameLength cs) = cs.takeWhile isVariableChar := by
    rw [variableNameLength]
    exact List.prefix_iff_eq_take.1 (List.takeWhile_prefix _) |>.symm
  rw [hTake]
  exact ⟨fun h => hPos (by rw [variableNameLength, h]; rfl), List.all_eq_true.1 List.all_takeWhile⟩

end Token

/-! ## Glyphs of readings -/

namespace TokenRule

variable {cs lexeme : List Char} {kind : TokenKind}

/-- A match of a scanner, in terms of what it takes. -/
theorem scanned_match? {name : String} {priority : Nat} {length? : List Char → Option Nat}
    {read : List Char → Option TokenKind}
    (hMatch : (scanned name priority length? read).match? cs = some (lexeme, some kind)) :
    ∃ length, length? cs = some length ∧ 0 < length ∧ lexeme = cs.take length ∧
      read lexeme = some kind := by
  obtain ⟨length, hLength, rfl, hKind⟩ := match?_eq_some_iff.1 hMatch
  obtain ⟨hFound, hPos⟩ := Option.filter_eq_some_iff.1 hLength
  exact ⟨length, hFound, Nat.blt_eq ▸ hPos, rfl, hKind.symm⟩

theorem symbol_match? {name : String} {priority : Nat} {text : String} {found : TokenKind}
    (hMatch : (symbol name priority text found).match? cs = some (lexeme, some kind)) :
    lexeme = text.toList ∧ kind = found := by
  obtain ⟨length, hLength, rfl, hKind⟩ := match?_eq_some_iff.1 hMatch
  rw [symbol, Pattern.length?] at hLength
  split at hLength
  · next hPrefix =>
    cases hLength
    refine ⟨?_, Option.some.inj hKind⟩
    rw [← String.length_toList]
    exact (List.prefix_iff_eq_take.1 (List.isPrefixOf_iff_prefix.1 hPrefix)).symm
  · cases hLength

theorem genuine_number (hMatch : RuleSet.number.match? cs = some (lexeme, some kind)) :
    Glyph.Genuine ⟨kind, String.ofList lexeme⟩ := by
  obtain ⟨length, hLength, hPos, rfl, hRead⟩ := scanned_match? hMatch
  obtain ⟨c, rest, rfl, hDigit⟩ := Token.exists_digit_of_numberLength? hLength
  obtain ⟨length, rfl⟩ : ∃ below, length = below + 1 := ⟨length - 1, by omega⟩
  rw [List.take_succ_cons] at hRead
  exact Token.genuine_readNumber hDigit hRead _

/-- A quoted text does not hold the quote character around it. -/
theorem genuine_text {quote : Char} {name : String} {priority : Nat}
    (hQuote : quote = '\x22' ∨ quote = '\x27')
    (hMatch : (scanned name priority (Token.quotedLength? quote) Token.readText).match? cs =
      some (lexeme, some kind)) : Glyph.Genuine ⟨kind, String.ofList lexeme⟩ := by
  obtain ⟨length, hLength, -, rfl, hRead⟩ := scanned_match? hMatch
  obtain ⟨word, hWord, hText⟩ := Token.readText_of_quotedLength? hQuote hLength
  rw [hText] at hRead
  cases hRead
  show _ ∉ (String.ofList word).toList ∨ _ ∉ (String.ofList word).toList
  rw [String.toList_ofList]
  rcases hQuote with rfl | rfl
  · exact Or.inl hWord
  · exact Or.inr hWord

theorem genuine_name (hMatch : RuleSet.nameRule.match? cs = some (lexeme, some kind)) :
    Glyph.Genuine ⟨kind, String.ofList lexeme⟩ := by
  obtain ⟨length, hLength, -, rfl, hRead⟩ := scanned_match? hMatch
  obtain ⟨text, rest, parts, rfl, rfl, hText⟩ := Token.exists_nameText_of_nameLength? hLength
  rw [List.take_left] at hRead ⊢
  exact Token.genuine_readName hText hRead

theorem genuine_systemVariable
    (hMatch : RuleSet.systemVariable.match? cs = some (lexeme, some kind)) :
    Glyph.Genuine ⟨kind, String.ofList lexeme⟩ := by
  obtain ⟨length, hLength, -, rfl, hRead⟩ := scanned_match? hMatch
  unfold Token.systemVariableLength? at hLength
  split at hLength
  · next rest =>
    split at hLength
    · cases hLength
    · next hPos =>
      cases hLength
      cases hRead
      obtain ⟨hNe, hAll⟩ := Token.takeWhile_isVariableChar hPos
      refine ⟨?_, ?_⟩ <;> rw [String.toList_ofList]
      · exact hNe
      · exact hAll
  · cases hLength

theorem genuine_userVariable
    (hMatch : RuleSet.userVariable.match? cs = some (lexeme, some kind)) :
    Glyph.Genuine ⟨kind, String.ofList lexeme⟩ := by
  obtain ⟨length, hLength, -, rfl, hRead⟩ := scanned_match? hMatch
  unfold Token.userVariableLength? at hLength
  split at hLength
  · next rest =>
    split at hLength
    · cases hLength
    · next hPos =>
      cases hLength
      cases hRead
      obtain ⟨hNe, hAll⟩ := Token.takeWhile_isVariableChar hPos
      refine ⟨?_, ?_⟩ <;> rw [String.toList_ofList]
      · exact hNe
      · exact hAll
  · cases hLength

/-- A phrase is a keyword of more than one word. -/
theorem genuine_phrase {rule : TokenRule} (hRule : rule ∈ RuleSet.phrases)
    (hMatch : rule.match? cs = some (lexeme, some kind)) :
    Glyph.Genuine ⟨kind, String.ofList lexeme⟩ := by
  obtain ⟨-, -, -, hKind⟩ := match?_eq_some_iff.1 hMatch
  simp only [RuleSet.phrases, List.mem_cons, List.not_mem_nil, or_false] at hRule
  rcases hRule with rfl | rfl | rfl | rfl | rfl | rfl | rfl | rfl | rfl | rfl | rfl | rfl <;>
    cases hKind <;> exact fun single hSingle => by cases hSingle

theorem genuine_mark {rule : TokenRule} (hRule : rule ∈ RuleSet.marks)
    (hMatch : rule.match? cs = some (lexeme, some kind)) :
    Glyph.Genuine ⟨kind, String.ofList lexeme⟩ := by
  simp only [RuleSet.marks, List.mem_cons, List.not_mem_nil, or_false] at hRule
  rcases hRule with rfl | rfl | rfl | rfl | rfl | rfl | rfl | rfl | rfl | rfl | rfl | rfl | rfl |
    rfl | rfl | rfl | rfl | rfl <;> obtain ⟨rfl, rfl⟩ := symbol_match? hMatch <;>
    simp [Glyph.Genuine, TokenKind.spellings]

end TokenRule

theorem Dialect.genuine_of_match {dialect : Dialect} {cs lexeme : List Char} {kind : TokenKind}
    (hMatch : dialect.grammar.tokens.first? cs = some (lexeme, some kind)) :
    Glyph.Genuine ⟨kind, String.ofList lexeme⟩ := by
  obtain ⟨rule, hMem, hRule⟩ := List.exists_of_findSome?_eq_some hMatch
  cases isRule_of_mem hMem with
  | phrase hPhrase => exact TokenRule.genuine_phrase hPhrase hRule
  | systemVariable => exact TokenRule.genuine_systemVariable hRule
  | userVariable => exact TokenRule.genuine_userVariable hRule
  | number => exact TokenRule.genuine_number hRule
  | singleText => exact TokenRule.genuine_text (Or.inr rfl) hRule
  | doubleText => exact TokenRule.genuine_text (Or.inl rfl) hRule
  | name => exact TokenRule.genuine_name hRule
  | mark hMark => exact TokenRule.genuine_mark hMark hRule

/-- Every glyph of a reading is genuine. -/
theorem RuleSet.Reads.genuine {dialect : Dialect} {plain : Bool} {cs : List Char}
    {gs : List Glyph} (hReads : dialect.grammar.tokens.Reads plain cs gs) :
    ∀ glyph ∈ gs, glyph.Genuine := by
  induction hReads with
  | done => exact fun _ hMem => absurd hMem List.not_mem_nil
  | token _ _ _ hMatch _ ih =>
    rintro glyph (_ | ⟨_, hMem⟩)
    · exact Dialect.genuine_of_match hMatch
    · exact ih glyph hMem

end SqlQuery
