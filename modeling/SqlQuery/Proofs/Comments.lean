import Mathlib.Data.List.Infix
import SqlQuery.Node.Equality
import SqlQuery.Proofs.Places
import SqlQuery.Proofs.Writing

/-!
# Comments and blanks

A comment between two tokens is skipped like a blank.  Putting a space in its
place leaves the tokens of a text as they are, with one exception: the words of
a phrase may have blanks between them but no comments, so that a space may
complete a phrase where the comment kept its words apart.  `GROUP/**/BY` is two
names, `GROUP BY` one keyword.

What a rule takes depends on the text behind its lexeme only through a few
characters.  A comment starts with two characters that continue no lexeme, and
neither does a space, so no rule but that of a phrase can tell them apart.

## Main definitions

* `Text.Comment` — the comments in front of a text.
* `RuleSet.Respaced` — a skipped comment of a text replaced by a space.
* `RuleSet.Fuses` — a phrase comes into being by the replacement.

## Main results

* `Dialect.first?_of_seam` — the lexeme before a comment or a space.
* `parse_respaced` — texts before and after the replacement parse alike.
-/

namespace SqlQuery

/-! ## Comments -/

namespace Text

/-- The comments in front of a text: `--` up to the end of the line or of the
text, `/*` up to the next `*/`, or up to the end of a text that has none. -/
inductive Comment : List Char → List Char → Prop
  | line {body rest : List Char} (hBody : '\n' ∉ body) (hEnd : ∀ c ∈ rest.head?, c = '\n') :
    Comment ('-' :: '-' :: body) rest
  | block {body rest : List Char} (hBody : ¬['*', '/'] <:+: body) :
    Comment ('/' :: '*' :: (body ++ ['*', '/'])) rest
  | unterminated {body : List Char} (hBody : ¬['*', '/'] <:+: body) :
    Comment ('/' :: '*' :: body) []

theorem lineCommentLength_append {body rest : List Char} (hBody : '\n' ∉ body)
    (hEnd : ∀ c ∈ rest.head?, c = '\n') :
    lineCommentLength (body ++ rest) = body.length + gapLength rest := by
  induction body with
  | nil =>
    cases rest with
    | nil => rfl
    | cons c rest =>
      obtain rfl := hEnd c rfl
      have hGap : gapLength (['\n'] ++ rest) = ['\n'].length + gapLength rest :=
        gapLength_append (List.forall_mem_singleton.2 (by decide))
      rw [List.singleton_append] at hGap
      rw [List.nil_append, lineCommentLength, hGap]
      simp [Nat.add_comm]
  | cons c body ih =>
    rw [List.mem_cons, not_or] at hBody
    rw [List.cons_append, lineCommentLength, if_neg (by simpa using fun h => hBody.1 h.symm),
      ih hBody.2, List.length_cons]
    omega

theorem blockCommentLength_cons {c : Char} {cs : List Char}
    (hEnd : ¬['*', '/'] <+: c :: cs) :
    blockCommentLength (c :: cs) = blockCommentLength cs + 1 := by
  rw [blockCommentLength.eq_def]
  split
  · next h => cases h
  · next h =>
    obtain ⟨rfl, rfl⟩ := List.cons.inj h
    exact absurd (List.prefix_append ['*', '/'] _) hEnd
  · next h =>
    obtain ⟨rfl, rfl⟩ := List.cons.inj h
    rfl

theorem blockCommentLength_append {body rest : List Char} (hBody : ¬['*', '/'] <:+: body) :
    blockCommentLength (body ++ '*' :: '/' :: rest) = body.length + 2 + gapLength rest := by
  induction body with
  | nil =>
    rw [List.nil_append, blockCommentLength.eq_def]
    simp [Nat.add_comm]
  | cons c body ih =>
    have hRest : ¬['*', '/'] <:+: body := fun h => hBody (List.infix_cons h)
    have hEnd : ¬['*', '/'] <+: c :: (body ++ '*' :: '/' :: rest) := by
      intro hPrefix
      cases body with
      | nil => simp at hPrefix
      | cons d body =>
        simp only [List.cons_append, List.cons_prefix_cons] at hPrefix
        obtain ⟨rfl, rfl, -⟩ := hPrefix
        exact hBody ⟨[], body, rfl⟩
    rw [List.cons_append, blockCommentLength_cons hEnd, ih hRest, List.length_cons]
    omega

theorem blockCommentLength_of_open {body : List Char} (hBody : ¬['*', '/'] <:+: body) :
    blockCommentLength body = body.length := by
  induction body with
  | nil => rfl
  | cons c body ih =>
    have hRest : ¬['*', '/'] <:+: body := fun h => hBody (List.infix_cons h)
    rw [blockCommentLength_cons fun h => hBody h.isInfix, ih hRest, List.length_cons]

/-- A comment is part of the gap. -/
theorem Comment.gapLength_append {comment rest : List Char} (hComment : Comment comment rest) :
    gapLength (comment ++ rest) = comment.length + gapLength rest := by
  cases hComment with
  | line hBody hEnd =>
    rw [List.cons_append, List.cons_append, gapLength, lineCommentLength_append hBody hEnd]
    simp only [List.length_cons]
    omega
  | block hBody =>
    rw [List.cons_append, List.cons_append, List.append_assoc, gapLength]
    show blockCommentLength (_ ++ '*' :: '/' :: rest) + 2 = _
    rw [blockCommentLength_append hBody]
    simp only [List.length_cons, List.length_append, List.length_nil]
    omega
  | unterminated hBody =>
    rw [List.append_nil, gapLength.eq_3, blockCommentLength_of_open hBody]
    rfl

/-- Blanks and comments in front of a text. -/
inductive Gap : List Char → List Char → Prop
  | none (rest : List Char) : Gap [] rest
  | blank {c : Char} {gap rest : List Char} (hBlank : isBlank c = true) (hGap : Gap gap rest) :
    Gap (c :: gap) rest
  | comment {comment gap rest : List Char} (hComment : Comment comment (gap ++ rest))
      (hGap : Gap gap rest) :
    Gap (comment ++ gap) rest

/-- A gap is skipped, and the one behind it. -/
theorem Gap.gapLength_append {gap rest : List Char} (hGap : Gap gap rest) :
    gapLength (gap ++ rest) = gap.length + gapLength rest := by
  induction hGap with
  | none => simp
  | @blank c gap rest hBlank _ ih =>
    have hFirst : gapLength ([c] ++ (gap ++ rest)) = 1 + gapLength (gap ++ rest) :=
      Text.gapLength_append (List.forall_mem_singleton.2 hBlank)
    rw [List.cons_append, ← List.singleton_append, hFirst, ih, List.length_cons]
    omega
  | comment hComment _ ih =>
    rw [List.append_assoc, hComment.gapLength_append, ih, List.length_append]
    omega

/-- A text that starts with a space or with a comment. -/
def Parted (cs : List Char) : Prop :=
  (∃ rest, cs = ' ' :: rest) ∨ (∃ rest, cs = '-' :: '-' :: rest) ∨ ∃ rest, cs = '/' :: '*' :: rest

theorem parted_space (rest : List Char) : Parted (' ' :: rest) := Or.inl ⟨rest, rfl⟩

theorem Comment.parted {comment rest : List Char} (hComment : Comment comment rest) :
    Parted (comment ++ rest) := by
  cases hComment with
  | line => exact Or.inr (Or.inl ⟨_, rfl⟩)
  | block => exact Or.inr (Or.inr ⟨_, rfl⟩)
  | unterminated => exact Or.inr (Or.inr ⟨_, rfl⟩)

end Text

/-! ## What scanners see of a parted text

A scanner that comes to a space or a comment stops there, so that it takes the
same with that text and without it. -/

namespace Text.Parted

variable {z q : List Char}

theorem head (hParted : Parted z) : ∀ c ∈ z.head?, c = ' ' ∨ c = '-' ∨ c = '/' := by
  rcases hParted with ⟨cs, rfl⟩ | ⟨cs, rfl⟩ | ⟨cs, rfl⟩ <;> simp

theorem continuesWord (hParted : Parted z) : Pattern.continuesWord z = false := by
  refine Pattern.continuesWord_eq_false_iff.2 fun c hc => ?_
  rcases hParted.head c hc with rfl | rfl | rfl <;> decide

theorem takeWhile_append (hParted : Parted z) {p : Char → Bool}
    (hStop : p ' ' = false ∧ p '-' = false ∧ p '/' = false) :
    (q ++ z).takeWhile p = q.takeWhile p := by
  obtain ⟨hSpace, hMinus, hSlash⟩ := hStop
  induction q with
  | nil => rcases hParted with ⟨cs, rfl⟩ | ⟨cs, rfl⟩ | ⟨cs, rfl⟩ <;> simp [hSpace, hMinus, hSlash]
  | cons c q ih => simp only [List.cons_append, List.takeWhile_cons, ih]

theorem digitCount_append (hParted : Parted z) :
    Token.digitCount (q ++ z) = Token.digitCount q := by
  rw [Token.digitCount, hParted.takeWhile_append (by decide)]
  rfl

theorem fractionLength_append (hParted : Parted z) :
    Token.fractionLength (q ++ z) = Token.fractionLength q := by
  cases q with
  | nil => rcases hParted with ⟨cs, rfl⟩ | ⟨cs, rfl⟩ | ⟨cs, rfl⟩ <;> rfl
  | cons c q =>
    by_cases hPoint : c = '.'
    · subst hPoint
      simp only [List.cons_append, Token.fractionLength, hParted.digitCount_append]
    · simp [Token.fractionLength, hPoint]

/-- The sign and the digits of an exponent end before a parted text, even where
this starts with a minus sign: another one comes next. -/
theorem exponentBodyLength_append (hParted : Parted z) :
    Token.exponentBodyLength (q ++ z) = Token.exponentBodyLength q := by
  cases q with
  | nil => rcases hParted with ⟨cs, rfl⟩ | ⟨cs, rfl⟩ | ⟨cs, rfl⟩ <;> rfl
  | cons c q =>
    have hSign : Token.signLength (c :: q ++ z) = Token.signLength (c :: q) := by
      by_cases hPlus : c = '+'
      · simp [Token.signLength, hPlus]
      · by_cases hMinus : c = '-' <;> simp [Token.signLength, hPlus, hMinus]
    have hShort : Token.signLength (c :: q) ≤ (c :: q).length := by
      rw [Token.signLength.eq_def]
      split <;> simp
    rw [Token.exponentBodyLength, Token.exponentBodyLength, hSign,
      List.drop_append_of_le_length hShort, hParted.digitCount_append]

theorem exponentLength_append (hParted : Parted z) :
    Token.exponentLength (q ++ z) = Token.exponentLength q := by
  cases q with
  | nil => rcases hParted with ⟨cs, rfl⟩ | ⟨cs, rfl⟩ | ⟨cs, rfl⟩ <;> rfl
  | cons c q =>
    by_cases hLower : c = 'e'
    · simp only [hLower, List.cons_append, Token.exponentLength, hParted.exponentBodyLength_append]
    · by_cases hUpper : c = 'E'
      · simp only [hUpper, List.cons_append, Token.exponentLength,
          hParted.exponentBodyLength_append]
      · simp [Token.exponentLength, hLower, hUpper]

theorem numberLength?_append (hParted : Parted z) :
    Token.numberLength? (q ++ z) = Token.numberLength? q := by
  have hWhole : Token.digitCount q ≤ q.length := (List.takeWhile_prefix _).length_le
  have hFraction : ∀ cs, Token.fractionLength cs ≤ cs.length := by
    intro cs
    rw [Token.fractionLength.eq_def]
    split
    · next cs =>
      have : Token.digitCount cs ≤ cs.length := (List.takeWhile_prefix _).length_le
      split
      · exact Nat.zero_le _
      · simpa using this
    · exact Nat.zero_le _
  have hBoth : Token.digitCount q + Token.fractionLength (q.drop (Token.digitCount q)) ≤
      q.length := by
    have := hFraction (q.drop (Token.digitCount q))
    rw [List.length_drop] at this
    omega
  simp only [Token.numberLength?, hParted.digitCount_append,
    List.drop_append_of_le_length hWhole, hParted.fractionLength_append,
    List.drop_append_of_le_length hBoth, hParted.exponentLength_append]

theorem variableNameLength_append (hParted : Parted z) :
    Token.variableNameLength (q ++ z) = Token.variableNameLength q := by
  rw [Token.variableNameLength, hParted.takeWhile_append (by decide)]
  rfl

theorem userVariableLength?_append (hParted : Parted z) :
    Token.userVariableLength? ('@' :: (q ++ z)) = Token.userVariableLength? ('@' :: q) := by
  simp only [Token.userVariableLength?, hParted.variableNameLength_append]

theorem systemVariableLength?_append (hParted : Parted z) :
    Token.systemVariableLength? ('@' :: (q ++ z)) = Token.systemVariableLength? ('@' :: q) := by
  cases q with
  | nil => rcases hParted with ⟨cs, rfl⟩ | ⟨cs, rfl⟩ | ⟨cs, rfl⟩ <;> rfl
  | cons c q =>
    by_cases hSign : c = '@'
    · simp only [hSign, List.cons_append, Token.systemVariableLength?,
        hParted.variableNameLength_append]
    · simp [Token.systemVariableLength?, hSign]

/-- The second character of a mark is not found in a parted text. -/
theorem isPrefixOf_append (hParted : Parted z) {c : Char} {text : List Char}
    (hTail : text.length ≤ 2 ∧ ∀ d ∈ text.tail, d ≠ ' ' ∧ d ≠ '-' ∧ d ≠ '/') :
    text.isPrefixOf (c :: q ++ z) = text.isPrefixOf (c :: q) := by
  match text, hTail with
  | [], _ => rfl
  | [a], _ => simp [List.isPrefixOf]
  | [a, b], ⟨_, hTail⟩ =>
    obtain ⟨hSpace, hMinus, hSlash⟩ := hTail b List.mem_cons_self
    cases q with
    | nil =>
      rcases hParted with ⟨cs, rfl⟩ | ⟨cs, rfl⟩ | ⟨cs, rfl⟩ <;>
        simp [List.isPrefixOf, hSpace, hMinus, hSlash]
    | cons d q => simp [List.isPrefixOf]

end Text.Parted

/-! ## Names and phrases before a parted text -/

namespace Token

variable {text rest rest' : List Char}

/-- The closing character ends a quoted text, whatever comes next. -/
theorem quotedLength?_congr {quote : Char}
    (hLength : quotedLength? quote (text ++ rest) = some text.length) :
    quotedLength? quote (text ++ rest') = some text.length := by
  obtain ⟨word, tail, hText, hWord, hSum⟩ := quotedLength?_eq_some_iff.1 hLength
  have hSplit : text ++ rest = quote :: (word ++ [quote]) ++ tail := by rw [hText]; simp
  obtain ⟨rfl, -⟩ := List.append_inj hSplit (by rw [hSum]; simp)
  exact quotedLength?_eq_some_iff.2 ⟨word, rest', by simp, hWord, hSum⟩

/-- The scanner takes at least the part that a text starts with. -/
theorem exists_partLength? {part : NamePart} (hPart : PartText text part) (rest : List Char) :
    ∃ length, partLength? (text ++ rest) = some length ∧ text.length ≤ length ∧
      (part.quoted = true → length = text.length) := by
  cases hPart with
  | @bare c cs hStart hWord =>
    refine ⟨((cs ++ rest).takeWhile Text.isWordChar).length + 1, ?_, ?_, fun h => by cases h⟩
    · rw [List.cons_append, partLength?, backtick_ne_wordStart hStart, if_neg Bool.false_ne_true,
        if_pos hStart]
    · rw [List.takeWhile_append_of_pos hWord]
      simp
  | @quoted word hWord hQuote =>
    have hFound : quotedLength? backtick (backtick :: (word ++ [backtick] ++ rest)) =
        some (word.length + 2) :=
      quotedLength?_eq_some_iff.2 ⟨word, rest, by simp, hQuote, rfl⟩
    have hPos := List.length_pos_iff.2 hWord
    refine ⟨word.length + 2, ?_, by simp, fun _ => by simp⟩
    rw [List.cons_append, partLength?, beq_self_eq_true, if_pos rfl, hFound, Option.filter_some,
      if_pos (by rw [Nat.blt_eq]; omega)]

/-- A part that the scanner takes with one text behind it, it takes with any
other that does not continue it. -/
theorem partLength?_congr {part : NamePart} (hPart : PartText text part)
    (hLength : partLength? (text ++ rest) = some text.length)
    (hHead : ∀ c ∈ rest'.head?, Text.isWordChar c = true → c ∈ rest.head?) :
    partLength? (text ++ rest') = some text.length := by
  cases hQuoted : part.quoted with
  | true =>
    obtain ⟨length, hFound, -, hExact⟩ := exists_partLength? hPart rest'
    rw [hFound, hExact hQuoted]
  | false =>
    refine partLength?_append hPart fun d hd => ?_
    rw [← Bool.not_eq_true]
    intro hChar
    obtain ⟨c, cs, rfl, hStart, hWord⟩ : ∃ c cs, text = c :: cs ∧ Text.isWordStart c = true ∧
        ∀ d ∈ cs, Text.isWordChar d = true := by
      cases hPart with
      | bare hStart hWord => exact ⟨_, _, rfl, hStart, hWord⟩
      | quoted => cases hQuoted
    rw [List.cons_append, partLength?, backtick_ne_wordStart hStart, if_neg Bool.false_ne_true,
      if_pos hStart, List.takeWhile_append_of_pos hWord] at hLength
    have hRest := hHead d hd hChar
    cases rest with
    | nil => cases hRest
    | cons e rest =>
      cases hRest
      rw [List.takeWhile_cons, if_pos hChar] at hLength
      simp at hLength

/-- A name that the scanner takes with one text behind it, it takes with any
other that does not continue it. -/
theorem nameLength?_congr {parts : List NamePart} (hText : NameText text parts)
    (hLength : nameLength? (text ++ rest) = some text.length)
    (hHead : ∀ c ∈ rest'.head?, Text.isWordChar c = true → c ∈ rest.head?)
    (hPoint : ∀ c ∈ rest'.head?, c ≠ '.') : nameLength? (text ++ rest') = some text.length := by
  induction hText with
  | @single text part hPart =>
    obtain ⟨length, hFound, hLe, -⟩ := exists_partLength? hPart rest
    rw [nameLength?, hFound, Option.map_some, Option.some.injEq] at hLength
    obtain rfl : length = text.length := by omega
    rw [nameLength?, partLength?_congr hPart hFound hHead, Option.map_some,
      furtherPartsLength_eq_drop, List.drop_left, furtherPartsLength_of_stop hPoint]
    rfl
  | @starred text part hPart =>
    -- Nothing continues a star.
    have hAny : ∀ rest, nameLength? (text ++ ['.', '*'] ++ rest) = some (text.length + 2) := by
      intro rest
      rw [List.append_assoc, nameLength?,
        partLength?_append hPart (by simp [isWordChar_point]), Option.map_some,
        furtherPartsLength_eq_drop, List.drop_left]
      rfl
    rw [hAny]
    simp
  | @dotted text next part parts hPart hNext ih =>
    have hFirst : ∀ rest, nameLength? (text ++ '.' :: next ++ rest) =
        some (text.length + furtherPartsLength 0 ('.' :: (next ++ rest))) := by
      intro rest
      rw [List.append_assoc, nameLength?,
        partLength?_append hPart (by simp [isWordChar_point]), Option.map_some,
        furtherPartsLength_eq_drop, List.drop_left]
      rfl
    have hSecond : ∀ rest, ∃ length, partLength? (next ++ rest) = some length := by
      intro rest
      cases hNext with
      | single hPart => exact (exists_partLength? hPart rest).imp fun _ h => h.1
      | starred hPart =>
        rw [List.append_assoc]
        exact (exists_partLength? hPart _).imp fun _ h => h.1
      | dotted hPart =>
        rw [List.append_assoc]
        exact (exists_partLength? hPart _).imp fun _ h => h.1
    have hSum : ∀ rest, furtherPartsLength 0 ('.' :: (next ++ rest)) = next.length + 1 ↔
        nameLength? (next ++ rest) = some next.length := by
      intro rest
      obtain ⟨length, hFound⟩ := hSecond rest
      rw [furtherPartsLength_part hFound, nameLength?, hFound, Option.map_some,
        furtherPartsLength_eq_drop length, Option.some.injEq]
      omega
    rw [hFirst, List.length_append, List.length_cons, Option.some.injEq, Nat.add_left_cancel_iff,
      hSum] at hLength
    rw [hFirst, List.length_append, List.length_cons, Option.some.injEq, Nat.add_left_cancel_iff,
      hSum]
    exact ih hLength

end Token

namespace Pattern

/-- The words that complete a phrase before a text complete it before any other
that does not continue the last of them. -/
theorem furtherWordsLength?_congr {words : List String} {q x y : List Char} {length : Nat}
    (hWords : ∀ word ∈ words, word.toList ≠ [])
    (hFound : furtherWordsLength? words (q ++ x) = some length) (hShort : length ≤ q.length)
    (hEnd : length = q.length → continuesWord y = false) :
    furtherWordsLength? words (q ++ y) = some length := by
  induction words generalizing q length with
  | nil =>
    have hStop := continuesWord_of_furtherWordsLength? hFound
    rw [furtherWordsLength?, if_neg (by simp [hStop])] at hFound
    cases hFound
    have hStop' : continuesWord (q ++ y) = false := by
      cases q with
      | nil => exact hEnd rfl
      | cons c q => exact hStop
    rw [furtherWordsLength?, hStop', if_neg Bool.false_ne_true]
  | cons word words ih =>
    obtain ⟨hWord, hWords⟩ := List.forall_mem_cons.1 hWords
    obtain ⟨gap, b, rest, further, hText, hGap, hBlank, hHead, hSame, hFurther, rfl⟩ :=
      furtherWordsLength?_cons.1 hFound
    obtain ⟨q, rfl⟩ : ∃ q', q = gap ++ b ++ q' := by
      have hWhole : gap ++ b <+: q ++ x := by
        rw [hText, ← List.append_assoc]
        exact List.prefix_append _ _
      have hPrefix : gap ++ b <+: q := by
        refine List.prefix_of_prefix_length_le hWhole (List.prefix_append q x) ?_
        rw [List.length_append]
        omega
      exact hPrefix.imp fun _ h => h.symm
    simp only [List.append_assoc, List.append_cancel_left_eq] at hText
    subst hText
    rw [List.length_append, List.length_append] at hShort
    simp only [List.length_append] at hEnd
    have hRest := ih hWords hFurther (by omega) fun h => hEnd (by omega)
    have hHead' : ∀ c ∈ (b ++ (q ++ y)).head?, Text.isBlank c = false := by
      cases b with
      | nil => exact absurd (List.map_eq_nil_iff.1 (Text.sameWord_iff.1 hSame)) hWord
      | cons c b => exact hHead
    refine furtherWordsLength?_cons.2
      ⟨gap, b, q ++ y, further, ?_, hGap, hBlank, hHead', hSame, hRest, rfl⟩
    simp only [List.append_assoc]

end Pattern

/-! ## Lexemes before a parted text -/

namespace TokenRule

variable {q x y lexeme : List Char} {kind? : Option TokenKind}

/-- A rule that takes the same length of two texts takes the same of them, where
these do not differ. -/
theorem match?_congr {rule : TokenRule}
    (hLength : rule.pattern.length? (q ++ y) = rule.pattern.length? (q ++ x)) (hText : x ≠ [])
    (hMatch : rule.match? (q ++ x) = some (lexeme, kind?)) (hShort : lexeme.length ≤ q.length) :
    rule.match? (q ++ y) = some (lexeme, kind?) := by
  obtain ⟨length, hFound, rfl, rfl⟩ := match?_eq_some_iff.1 hMatch
  have hLe : length ≤ q.length := by
    have hPos := List.length_pos_iff.2 hText
    rw [List.length_take, List.length_append] at hShort
    omega
  refine match?_eq_some_iff.2 ⟨length, hLength.trans hFound, ?_, rfl⟩
  rw [List.take_append_of_le_length hLe, List.take_append_of_le_length hLe]

/-- The same for the first of several rules. -/
theorem findSome?_congr {rules : List TokenRule}
    (hLength : ∀ rule ∈ rules, rule.pattern.length? (q ++ y) = rule.pattern.length? (q ++ x))
    (hText : x ≠ []) (hMatch : rules.findSome? (·.match? (q ++ x)) = some (lexeme, kind?))
    (hShort : lexeme.length ≤ q.length) :
    rules.findSome? (·.match? (q ++ y)) = some (lexeme, kind?) := by
  induction rules with
  | nil => cases hMatch
  | cons rule rules ih =>
    obtain ⟨hRule, hRules⟩ := List.forall_mem_cons.1 hLength
    rw [List.findSome?_cons] at hMatch ⊢
    cases hFound : rule.match? (q ++ x) with
    | none =>
      have hNone : rule.match? (q ++ y) = none := by
        rw [match?, Option.map_eq_none_iff] at hFound ⊢
        exact hRule.trans hFound
      rw [hFound] at hMatch
      rw [hNone]
      exact ih hRules hMatch
    | some found =>
      rw [hFound] at hMatch
      cases hMatch
      rw [match?_congr hRule hText hFound hShort]

end TokenRule

namespace Text.Parted

theorem ne_nil {z : List Char} (hParted : Parted z) : z ≠ [] := by
  rcases hParted with ⟨cs, rfl⟩ | ⟨cs, rfl⟩ | ⟨cs, rfl⟩ <;> exact List.cons_ne_nil _ _

/-- Scanners for literals and variables, and marks, take the same of a text with
any parted text behind it. -/
theorem number_length? {q z : List Char} (hParted : Parted z) :
    RuleSet.number.pattern.length? (q ++ z) = RuleSet.number.pattern.length? q := by
  show (Token.numberLength? (q ++ z)).filter _ = (Token.numberLength? q).filter _
  rw [hParted.numberLength?_append]

theorem variable_length? {dialect : Dialect} {rule : TokenRule}
    (hMem : rule ∈ dialect.variableRules) {q z : List Char} (hParted : Parted z) :
    rule.pattern.length? ('@' :: q ++ z) = rule.pattern.length? ('@' :: q) := by
  cases dialect with
  | generic => exact absurd hMem List.not_mem_nil
  | mysql =>
    simp only [Dialect.variableRules, List.mem_cons, List.not_mem_nil, or_false] at hMem
    rcases hMem with rfl | rfl
    · show (Token.systemVariableLength? ('@' :: (q ++ z))).filter _ = _
      rw [hParted.systemVariableLength?_append]
      rfl
    · show (Token.userVariableLength? ('@' :: (q ++ z))).filter _ = _
      rw [hParted.userVariableLength?_append]
      rfl

theorem mark_length? {rule : TokenRule} (hMem : rule ∈ RuleSet.marks) {c : Char} {q z : List Char}
    (hParted : Parted z) : rule.pattern.length? (c :: q ++ z) = rule.pattern.length? (c :: q) := by
  have hLiteral : ∀ {name priority kind} {text : String}, text.toList.length ≤ 2 →
      text.toList.tail.all (fun d => d != ' ' && (d != '-' && d != '/')) = true →
      (TokenRule.symbol name priority text kind).pattern.length? (c :: q ++ z) =
        (TokenRule.symbol name priority text kind).pattern.length? (c :: q) := by
    intro name priority kind text hLength hTail
    have hText : text.toList.length ≤ 2 ∧
        ∀ d ∈ text.toList.tail, d ≠ ' ' ∧ d ≠ '-' ∧ d ≠ '/' := by
      refine ⟨hLength, fun d hMem => ?_⟩
      simpa using List.all_eq_true.1 hTail d hMem
    rw [TokenRule.symbol, Pattern.length?, Pattern.length?, hParted.isPrefixOf_append hText]
  simp only [RuleSet.marks, List.mem_cons, List.not_mem_nil, or_false] at hMem
  rcases hMem with rfl | rfl | rfl | rfl | rfl | rfl | rfl | rfl | rfl | rfl | rfl | rfl | rfl |
    rfl | rfl | rfl | rfl | rfl <;> exact hLiteral (by decide) (by decide)

end Text.Parted

namespace Dialect

open RuleSet

variable {dialect : Dialect} {c : Char} {cs p x y : List Char} {kind : TokenKind}

/-- The kinds of characters that a lexeme may start with. -/
theorem head_of_first? {found : List Char × Option TokenKind}
    (hMatch : dialect.grammar.tokens.first? (c :: cs) = some found) :
    (Text.isWordStart c = true ∨ c = Token.backtick) ∨ c.isDigit = true ∨ c = '\x27' ∨ c = '\x22' ∨
      c = '@' ∨ c ∈ markHeads := by
  by_contra hOther
  simp only [not_or, Bool.not_eq_true] at hOther
  obtain ⟨⟨hStart, hQuote⟩, hDigit, hSingle, hDouble, hSign, hMark⟩ := hOther
  have hNone : dialect.grammar.tokens.first? (c :: cs) = none := by
    rw [first?_eq_lower hStart hSign, lower]
    simp only [List.findSome?_cons]
    rw [shuns_number hDigit cs, singleText, doubleText, shuns_quoted hSingle cs,
      shuns_quoted hDouble cs, shuns_name hStart hQuote cs,
      findSome?_of_shuns marks fun rule hMem => shuns_mark hMem hMark]
  rw [hNone] at hMatch
  cases hMatch

/-- A phrase before one parted text is the same before another. -/
theorem phrase_of_parted {rule : TokenRule} (hMem : rule ∈ phrases) (hx : x ≠ [])
    (hy : Text.Parted y) (hMatch : rule.match? (c :: cs ++ (p ++ x)) = some (c :: cs, some kind)) :
    phrases.findSome? (·.match? (c :: cs ++ (p ++ y))) = some (c :: cs, some kind) := by
  obtain ⟨first, further, keyword, hPhrase⟩ := exists_isPhrase hMem
  obtain ⟨a, rest, length, hText, hSame, hFurther, hLexeme, hKind⟩ :=
    hPhrase.match?_eq_some_iff.1 hMatch
  -- The whole phrase is in the lexeme.
  have hTotal : (c :: cs).length = a.length + length := by
    have hLength := congrArg List.length hLexeme
    have hPos := List.length_pos_iff.2 hx
    rw [List.length_take, List.length_append, List.length_append] at hLength
    omega
  obtain ⟨b, hSplit⟩ : ∃ b, c :: cs = a ++ b := by
    have hPrefix : a <+: c :: cs :=
      List.prefix_of_prefix_length_le (hText ▸ List.prefix_append a rest)
        (List.prefix_append _ _) (by omega)
    exact hPrefix.imp fun _ h => h.symm
  have hRest : rest = b ++ p ++ x := by
    rw [hSplit, List.append_assoc, List.append_cancel_left_eq] at hText
    rw [← hText, List.append_assoc]
  have hFurther' : Pattern.furtherWordsLength? further (b ++ p ++ y) = some length := by
    refine Pattern.furtherWordsLength?_congr (fun word hMem => (hPhrase.further_words word hMem).1)
      (hRest ▸ hFurther) ?_ fun _ => ?_
    · have := congrArg List.length hSplit
      rw [List.length_append] at this ⊢
      omega
    · exact hy.continuesWord
  have hRule : rule.match? (c :: cs ++ (p ++ y)) = some (c :: cs, some kind) := by
    refine hPhrase.match?_eq_some_iff.2 ⟨a, b ++ p ++ y, length, ?_, hSame, hFurther', ?_, hKind⟩
    · rw [hSplit]
      simp only [List.append_assoc]
    · rw [← hTotal, List.take_left]
  exact findSome?_phrases hMem hRule

/-- A quoted text is the same before any text. -/
theorem quoted_of_match? {name : String} {priority : Nat} {quote : Char}
    (hMatch : (TokenRule.scanned name priority (Token.quotedLength? quote) Token.readText).match?
      (c :: cs ++ x) = some (c :: cs, some kind)) :
    (TokenRule.scanned name priority (Token.quotedLength? quote) Token.readText).match?
      (c :: cs ++ y) = some (c :: cs, some kind) := by
  obtain ⟨length, hLength, -, hText, hRead⟩ := TokenRule.scanned_match? hMatch
  obtain rfl : length = (c :: cs).length := by
    have hLe : length ≤ (c :: cs ++ x).length := by
      obtain ⟨word, rest, hSplit, -, rfl⟩ := Token.quotedLength?_eq_some_iff.1 hLength
      rw [hSplit]
      simp
    have hTake := congrArg List.length hText
    rw [List.length_take, Nat.min_eq_left hLe] at hTake
    exact hTake.symm
  refine TokenRule.match?_eq_some_iff.2 ⟨(c :: cs).length, ?_, List.take_left.symm, hRead.symm⟩
  show (Token.quotedLength? _ _).filter _ = _
  rw [Token.quotedLength?_congr hLength]
  rfl

/-- A lexeme before a comment is the same lexeme before a space, unless a phrase
starts with it. -/
theorem first?_of_parted (hx : Text.Parted x) (hy : Text.Parted y)
    (hMatch : dialect.grammar.tokens.first? (c :: cs ++ (p ++ x)) = some (c :: cs, some kind))
    (hHead : ∀ d ∈ (p ++ y).head?, Text.isWordChar d = true → d ∈ (p ++ x).head?)
    (hPoint : ∀ d ∈ (p ++ y).head?, d ≠ '.')
    (hApart : (∀ rule ∈ phrases, rule.match? (c :: cs ++ (p ++ x)) = none) →
      ∀ rule ∈ phrases, rule.match? (c :: cs ++ (p ++ y)) = none) :
    dialect.grammar.tokens.first? (c :: cs ++ (p ++ y)) = some (c :: cs, some kind) := by
  have hShort : (c :: cs).length ≤ (c :: (cs ++ p)).length := by simp
  have hAppend : ∀ z, c :: cs ++ (p ++ z) = c :: (cs ++ p) ++ z := by simp
  have hNe := hx.ne_nil
  rcases head_of_first? hMatch with hStart | hDigit | rfl | rfl | rfl | hMark
  · rw [List.cons_append, first?_of_wordStart hStart, ← List.cons_append]
    rcases first?_wordStart_cases hStart hMatch with ⟨rule, hMem, hRule⟩ | ⟨hNone, hName⟩
    · rw [phrase_of_parted hMem hNe hy hRule]
      rfl
    · rw [List.findSome?_eq_none_iff.2 (hApart hNone), Option.none_or]
      obtain ⟨length, hLength, -, hText, hRead⟩ := TokenRule.scanned_match? hName
      obtain ⟨text, rest, parts, hSplit, rfl, hParts⟩ :=
        Token.exists_nameText_of_nameLength? hLength
      obtain rfl : text = c :: cs := by
        rw [hText, hSplit, List.take_left]
      refine TokenRule.match?_eq_some_iff.2 ⟨(c :: cs).length, ?_, List.take_left.symm, hRead.symm⟩
      show (Token.nameLength? _).filter _ = _
      rw [Token.nameLength?_congr hParts hLength hHead hPoint]
      rfl
  · rw [List.cons_append, first?_of_isDigit hDigit, ← List.cons_append, hAppend] at hMatch
    rw [List.cons_append, first?_of_isDigit hDigit, ← List.cons_append, hAppend]
    exact TokenRule.match?_congr (hy.number_length?.trans hx.number_length?.symm) hNe hMatch hShort
  · rw [List.cons_append, first?_of_quote.1, ← List.cons_append] at hMatch ⊢
    exact quoted_of_match? hMatch
  · rw [List.cons_append, first?_of_quote.2, ← List.cons_append] at hMatch ⊢
    exact quoted_of_match? hMatch
  · rw [List.cons_append, first?_of_at, ← List.cons_append, hAppend] at hMatch
    rw [List.cons_append, first?_of_at, ← List.cons_append, hAppend]
    exact TokenRule.findSome?_congr (fun rule hMem =>
      (hy.variable_length? hMem).trans (hx.variable_length? hMem).symm) hNe hMatch hShort
  · rw [List.cons_append, first?_of_markHead hMark, ← List.cons_append, hAppend] at hMatch
    rw [List.cons_append, first?_of_markHead hMark, ← List.cons_append, hAppend]
    exact TokenRule.findSome?_congr (fun rule hMem =>
      (hy.mark_length? hMem).trans (hx.mark_length? hMem).symm) hNe hMatch hShort

end Dialect

/-! ## Readings -/

namespace Text

/-- Where a lexeme starts, a lexeme still starts when the text behind it is
replaced by one that does not make it the start of a comment. -/
theorem gapLength_congr {c : Char} {q x y : List Char} (hGap : gapLength (c :: q ++ x) = 0)
    (hHead : ∀ d ∈ y.head?, d ≠ '-' ∧ d ≠ '*') : gapLength (c :: q ++ y) = 0 := by
  have hBlank := isBlank_of_gapLength hGap c rfl
  rw [List.cons_append, gapLength.eq_def]
  split
  · next h => cases h
  · next h =>
    obtain ⟨rfl, hRest⟩ := List.cons.inj h
    cases q with
    | nil => exact absurd rfl (hHead '-' (by rw [show y = _ from hRest]; rfl)).1
    | cons d q =>
      obtain ⟨rfl, -⟩ := List.cons.inj hRest
      simp [gapLength] at hGap
  · next h =>
    obtain ⟨rfl, hRest⟩ := List.cons.inj h
    cases q with
    | nil => exact absurd rfl (hHead '*' (by rw [show y = _ from hRest]; rfl)).2
    | cons d q =>
      obtain ⟨rfl, -⟩ := List.cons.inj hRest
      simp [gapLength] at hGap
  · next h =>
    obtain ⟨rfl, -⟩ := List.cons.inj h
    rw [hBlank, if_neg Bool.false_ne_true]

end Text

namespace RuleSet.Reads

variable {rules : RuleSet} {cs before lexeme : List Char} {gs : List Glyph} {kind : TokenKind}

/-- A reading does not depend on what is skipped before it. -/
theorem skip_iff (hGap : Text.gapLength (before ++ cs) = before.length + Text.gapLength cs) :
    rules.Reads false (before ++ cs) gs ↔ rules.Reads false cs gs := by
  constructor
  · intro hReads
    generalize hText : before ++ cs = text at hReads
    cases hReads with
    | done hDone _ =>
      refine .done ?_ (by simp)
      rw [← hText, hGap, List.length_append] at hDone
      omega
    | @token gap lexeme rest kind gs hToken _ hLexeme hMatch hRest =>
      rw [← hText, hGap] at hToken
      obtain ⟨gap, rfl⟩ : ∃ gap', gap = before ++ gap' := by
        have hPrefix : before <+: gap :=
          List.prefix_of_prefix_length_le (hText ▸ List.prefix_append before cs)
            (List.prefix_append gap _) (by omega)
        exact hPrefix.imp fun _ h => h.symm
      rw [List.append_assoc, List.append_cancel_left_eq] at hText
      subst hText
      rw [List.length_append] at hToken
      exact .token (by omega) (by simp) hLexeme hMatch hRest
  · intro hReads
    cases hReads with
    | done hDone _ =>
      refine .done ?_ (by simp)
      rw [hGap, hDone, List.length_append]
    | @token gap lexeme rest kind gs hToken _ hLexeme hMatch hRest =>
      rw [← List.append_assoc] at hGap ⊢
      refine .token ?_ (by simp) hLexeme hMatch hRest
      rw [hGap, hToken, List.length_append]

/-- The first lexeme of a reading that starts with no gap. -/
theorem token_inv (hReads : rules.Reads false cs gs) (hText : cs ≠ [])
    (hGap : Text.gapLength cs = 0) (hMatch : rules.first? cs = some (lexeme, some kind)) :
    ∃ rest gs', cs = lexeme ++ rest ∧ gs = ⟨kind, String.ofList lexeme⟩ :: gs' ∧
      rules.Reads false rest gs' := by
  cases hReads with
  | done hDone _ =>
    rw [hGap] at hDone
    exact absurd (List.length_eq_zero_iff.1 hDone.symm) hText
  | @token gap lexeme' rest kind' gs hToken _ _ hMatch' hRest =>
    rw [hGap] at hToken
    obtain rfl := List.length_eq_zero_iff.1 hToken.symm
    rw [List.nil_append] at hMatch ⊢
    obtain ⟨rfl, hKind⟩ := Prod.mk.inj (Option.some.inj (hMatch'.symm.trans hMatch))
    cases hKind
    exact ⟨rest, gs, rfl, rfl, hRest⟩

/-- No text that starts with a point has a reading. -/
theorem head_ne_point {dialect : Dialect} {plain : Bool}
    (hReads : dialect.grammar.tokens.Reads plain cs gs) : ∀ c ∈ cs.head?, c ≠ '.' := by
  rintro c hc rfl
  obtain ⟨cs, rfl⟩ : ∃ rest, cs = '.' :: rest := by
    cases cs with
    | nil => cases hc
    | cons d cs => cases hc; exact ⟨cs, rfl⟩
  have hGap : Text.gapLength ('.' :: cs) = 0 :=
    Text.gapLength_cons_eq_zero (by decide) (by decide) (by decide)
  generalize hText : '.' :: cs = text at hReads hGap
  cases hReads with
  | done hDone _ =>
    rw [hGap] at hDone
    rw [List.length_eq_zero_iff.1 hDone.symm] at hText
    cases hText
  | @token gap lexeme rest kind gs hToken _ hLexeme hMatch _ =>
    rw [hGap] at hToken
    obtain rfl := List.length_eq_zero_iff.1 hToken.symm
    rw [List.nil_append] at hText
    rw [← hText] at hMatch
    exact absurd (Dialect.head_of_first? hMatch) (by decide)

end RuleSet.Reads

/-! ## Comments replaced by spaces -/

namespace RuleSet

/-- One comment that is skipped between the tokens of a text is replaced by a
space. -/
inductive Respaced (rules : RuleSet) : List Char → List Char → Prop
  | here {comment rest : List Char} (hComment : Text.Comment comment rest) :
    Respaced rules (comment ++ rest) (' ' :: rest)
  | blank {c : Char} {cs cs' : List Char} (hBlank : Text.isBlank c = true)
      (hRest : Respaced rules cs cs') : Respaced rules (c :: cs) (c :: cs')
  | skipped {comment cs cs' : List Char} (hComment : Text.Comment comment cs)
      (hRest : Respaced rules cs cs') : Respaced rules (comment ++ cs) (comment ++ cs')
  | token {lexeme rest rest' : List Char} {kind : TokenKind} (hLexeme : lexeme ≠ [])
      (hGap : Text.gapLength (lexeme ++ rest) = 0)
      (hMatch : rules.first? (lexeme ++ rest) = some (lexeme, some kind))
      (hRest : Respaced rules rest rest') : Respaced rules (lexeme ++ rest) (lexeme ++ rest')

/-- At one of the tokens of a text, a phrase matches after the replacement that
did not match before. -/
inductive Fuses (rules : RuleSet) : List Char → List Char → Prop
  | here {lexeme rest rest' : List Char} {kind : TokenKind} {rule : TokenRule}
      {words : List String} {length : Nat} (hGap : Text.gapLength (lexeme ++ rest) = 0)
      (hMatch : rules.first? (lexeme ++ rest) = some (lexeme, some kind))
      (hRule : rule ∈ rules.rules) (hWords : rule.pattern = .words words)
      (hBefore : Pattern.wordsLength? words (lexeme ++ rest) = none)
      (hAfter : Pattern.wordsLength? words (lexeme ++ rest') = some length) :
    Fuses rules (lexeme ++ rest) (lexeme ++ rest')
  | blank {c : Char} {cs cs' : List Char} (hBlank : Text.isBlank c = true)
      (hRest : Fuses rules cs cs') : Fuses rules (c :: cs) (c :: cs')
  | skipped {comment cs cs' : List Char} (hComment : Text.Comment comment cs)
      (hRest : Fuses rules cs cs') : Fuses rules (comment ++ cs) (comment ++ cs')
  | token {lexeme rest rest' : List Char} {kind : TokenKind}
      (hGap : Text.gapLength (lexeme ++ rest) = 0)
      (hMatch : rules.first? (lexeme ++ rest) = some (lexeme, some kind))
      (hRest : Fuses rules rest rest') : Fuses rules (lexeme ++ rest) (lexeme ++ rest')

namespace Respaced

variable {rules : RuleSet} {cs cs' : List Char}

/-- The texts before and after the replacement: they agree up to the comment and
the space. -/
theorem exists_parted (hRespaced : rules.Respaced cs cs') :
    ∃ p x rest, cs = p ++ x ∧ cs' = p ++ ' ' :: rest ∧ Text.Parted x := by
  induction hRespaced with
  | @here comment rest hComment => exact ⟨[], comment ++ rest, rest, rfl, rfl, hComment.parted⟩
  | @blank c cs cs' _ _ ih =>
    obtain ⟨p, x, rest, rfl, rfl, hParted⟩ := ih
    exact ⟨c :: p, x, rest, rfl, rfl, hParted⟩
  | @skipped comment cs cs' _ _ ih =>
    obtain ⟨p, x, rest, rfl, rfl, hParted⟩ := ih
    exact ⟨comment ++ p, x, rest, by simp, by simp, hParted⟩
  | @token lexeme rest rest' kind _ _ _ _ ih =>
    obtain ⟨p, x, rest, rfl, rfl, hParted⟩ := ih
    exact ⟨lexeme ++ p, x, rest, by simp, by simp, hParted⟩

/-- A comment before the replaced one stays a comment. -/
theorem comment_of_skipped {comment : List Char} (hComment : Text.Comment comment cs)
    (hRespaced : rules.Respaced cs cs') : Text.Comment comment cs' := by
  cases hComment with
  | @line body _ hBody hEnd =>
    obtain ⟨p, x, rest, rfl, rfl, hParted⟩ := hRespaced.exists_parted
    refine .line hBody fun c hc => ?_
    cases p with
    | nil =>
      -- The end of a line is neither a space nor the start of a comment.
      rcases hParted with ⟨cs, rfl⟩ | ⟨cs, rfl⟩ | ⟨cs, rfl⟩ <;>
        exact absurd (hEnd _ rfl) (by decide)
    | cons d p => exact hEnd c hc
  | block hBody => exact .block hBody
  | unterminated hBody =>
    obtain ⟨p, x, rest, hNil, -, hParted⟩ := hRespaced.exists_parted
    exact absurd (List.append_eq_nil_iff.1 hNil.symm).2 hParted.ne_nil

/-- A reading before the replacement is one after it, unless a phrase has come
into being. -/
theorem reads {dialect : Dialect} {gs : List Glyph}
    (hRespaced : dialect.grammar.tokens.Respaced cs cs')
    (hApart : ¬dialect.grammar.tokens.Fuses cs cs')
    (hReads : dialect.grammar.tokens.Reads false cs gs) :
    dialect.grammar.tokens.Reads false cs' gs := by
  have hBlankGap : ∀ {c : Char} {cs : List Char}, Text.isBlank c = true →
      Text.gapLength ([c] ++ cs) = [c].length + Text.gapLength cs :=
    fun hBlank => Text.gapLength_append (by simpa using hBlank)
  induction hRespaced generalizing gs with
  | @here comment rest hComment =>
    rw [Reads.skip_iff hComment.gapLength_append] at hReads
    rw [← List.singleton_append, Reads.skip_iff (hBlankGap (by decide))]
    exact hReads
  | @blank c cs cs' hBlank hRest ih =>
    rw [← List.singleton_append, Reads.skip_iff (hBlankGap hBlank)] at hReads
    rw [← List.singleton_append, Reads.skip_iff (hBlankGap hBlank)]
    exact ih (fun h => hApart (.blank hBlank h)) hReads
  | @skipped comment cs cs' hComment hRest ih =>
    rw [Reads.skip_iff hComment.gapLength_append] at hReads
    rw [Reads.skip_iff (comment_of_skipped hComment hRest).gapLength_append]
    exact ih (fun h => hApart (.skipped hComment h)) hReads
  | @token lexeme rest rest' kind hLexeme hGap hMatch hRest ih =>
    obtain ⟨c, lexeme, rfl⟩ := List.exists_cons_of_ne_nil hLexeme
    obtain ⟨rest₂, gs, hSplit, rfl, hReads⟩ := hReads.token_inv (by simp) hGap hMatch
    rw [List.append_cancel_left_eq] at hSplit
    subst hSplit
    have hTail := ih (fun h => hApart (.token hGap hMatch h)) hReads
    obtain ⟨p, x, after, rfl, rfl, hParted⟩ := hRest.exists_parted
    have hPhrases : (∀ rule ∈ phrases, rule.match? (c :: lexeme ++ (p ++ x)) = none) →
        ∀ rule ∈ phrases, rule.match? (c :: lexeme ++ (p ++ ' ' :: after)) = none := by
      intro hNone rule hMem
      rw [Option.eq_none_iff_forall_ne_some]
      rintro ⟨lexeme', kind?⟩ hFound
      obtain ⟨first, further, keyword, hPhrase⟩ := exists_isPhrase hMem
      have hBefore := hNone rule hMem
      obtain ⟨length, hLength, -⟩ := TokenRule.match?_eq_some_iff.1 hFound
      rw [TokenRule.match?, Option.map_eq_none_iff, hPhrase.pattern] at hBefore
      rw [hPhrase.pattern] at hLength
      refine hApart (.here hGap hMatch ?_ hPhrase.pattern hBefore hLength)
      rw [dialect.rules_tokens]
      exact List.mem_append_left _ hMem
    have hPoint : ∀ d ∈ (p ++ ' ' :: after).head?, d ≠ '.' := hTail.head_ne_point
    have hHead : ∀ d ∈ (p ++ ' ' :: after).head?, Text.isWordChar d = true →
        d ∈ (p ++ x).head? := by
      intro d hd hChar
      cases p with
      | nil =>
        cases hd
        exact absurd hChar (by decide)
      | cons e p => exact hd
    have hFirst := Dialect.first?_of_parted hParted (Text.parted_space after) hMatch hHead hPoint
      hPhrases
    have hGap' : Text.gapLength (c :: lexeme ++ (p ++ ' ' :: after)) = 0 := by
      rw [List.cons_append, ← List.append_assoc] at hGap ⊢
      exact Text.gapLength_congr hGap (by simp)
    show dialect.grammar.tokens.Reads false ([] ++ (c :: lexeme ++ (p ++ ' ' :: after))) _
    exact .token hGap' (by simp) hLexeme hFirst hTail

end Respaced

end RuleSet

/-! ## Texts -/

/--
**Comments are skipped like blanks**, as far as phrases permit: let a comment
between the tokens of a text be replaced by a space, and let this complete no
phrase.  Then the new text has the same kinds of tokens, and the same tree or an
error with the same expectation and the same finding.
-/
theorem parse_respaced {dialect : Dialect} {source source' : String} {stream : TokenStream}
    (hTokens : dialect.grammar.tokens.tokenize source = .ok stream)
    (hRespaced : dialect.grammar.tokens.Respaced source.toList source'.toList)
    (hApart : ¬dialect.grammar.tokens.Fuses source.toList source'.toList) :
    (∃ stream', dialect.grammar.tokens.tokenize source' = .ok stream' ∧
        stream'.toList.map (·.kind) = stream.toList.map (·.kind)) ∧
      (parse source' dialect).mapError ParseError.unplaced =
        (parse source dialect).mapError ParseError.unplaced := by
  obtain ⟨hReads, hClosed, -⟩ :=
    Dialect.reads_of_tokenize hTokens fun h : false = true => absurd h Bool.false_ne_true
  obtain ⟨stream', hTokens', hGlyphs, hClosed'⟩ :=
    Dialect.tokenize_of_reads (hRespaced.reads hApart hReads)
  refine ⟨⟨stream', hTokens', ?_⟩, parse_congr hTokens' hTokens hGlyphs⟩
  have hKinds : ∀ stream : TokenStream, stream.Closed →
      stream.toList.map (·.kind) = stream.glyphs.map (·.kind) ++ [.finish] := by
    intro stream hClosed
    simp [TokenStream.toList, TokenStream.glyphs, Token.glyph, show stream.last.kind = .finish from
      hClosed]
  rw [hKinds stream hClosed, hKinds stream' hClosed', hGlyphs]

/-! ## Phrases that come into being -/

/-- Whether a phrase stands anywhere in a text. -/
def RuleSet.hasPhrase (rules : RuleSet) (cs : List Char) : Bool :=
  cs.tails.any fun text => rules.rules.any fun rule =>
    (rule.pattern matches .words _) && (rule.pattern.length? text).isSome

/-- A phrase that comes into being stands in the new text. -/
theorem RuleSet.Fuses.hasPhrase {rules : RuleSet} {cs cs' : List Char}
    (hFuses : rules.Fuses cs cs') : rules.hasPhrase cs' = true := by
  have hSuffix : ∀ {before cs : List Char}, rules.hasPhrase cs = true →
      rules.hasPhrase (before ++ cs) = true := by
    intro before cs hFound
    obtain ⟨text, hMem, hText⟩ := List.any_eq_true.1 hFound
    refine List.any_eq_true.2 ⟨text, ?_, hText⟩
    rw [List.mem_tails] at hMem ⊢
    exact hMem.trans (List.suffix_append before cs)
  induction hFuses with
  | @here lexeme rest rest' kind rule words length _ _ hRule hWords _ hAfter =>
    refine List.any_eq_true.2 ⟨lexeme ++ rest', (List.mem_tails _ _).2 (List.suffix_refl _),
      List.any_eq_true.2 ⟨rule, hRule, ?_⟩⟩
    rw [hWords, Pattern.length?, hAfter]
    rfl
  | @blank c cs cs' _ _ ih =>
    rw [← List.singleton_append]
    exact hSuffix ih
  | skipped _ _ ih => exact hSuffix ih
  | token _ _ _ ih => exact hSuffix ih

/-- The tokens of a keyword and a name with a comment between them. -/
def partedStream : TokenStream :=
  ⟨[⟨.keyword .SELECT, ⟨0, 6⟩, "SELECT"⟩, ⟨.identifier "a" none, ⟨11, 12⟩, "a"⟩],
    ⟨.finish, ⟨12, 12⟩, ""⟩⟩

theorem parse_respaced_keyword :
    (∃ stream, Grammar.generic.tokens.tokenize "SELECT a" = .ok stream ∧
        stream.toList.map (·.kind) = partedStream.toList.map (·.kind)) ∧
      (parse "SELECT a" .generic).mapError ParseError.unplaced =
        (parse "SELECT/*x*/a" .generic).mapError ParseError.unplaced := by
  have hTokens : Dialect.generic.grammar.tokens.tokenize "SELECT/*x*/a" = .ok partedStream := by
    decide +kernel
  have hText : "SELECT/*x*/a".toList =
      "SELECT".toList ++ ('/' :: '*' :: (['x'] ++ ['*', '/']) ++ ['a']) ∧
      "SELECT a".toList = "SELECT".toList ++ [' ', 'a'] := by
    decide +kernel
  have hMatch : Dialect.generic.grammar.tokens.first?
      ("SELECT".toList ++ ('/' :: '*' :: (['x'] ++ ['*', '/']) ++ ['a'])) =
        some ("SELECT".toList, some (.keyword .SELECT)) := by
    decide +kernel
  have hRespaced : Dialect.generic.grammar.tokens.Respaced "SELECT/*x*/a".toList
      "SELECT a".toList := by
    rw [hText.1, hText.2]
    exact .token (by decide) (by decide) hMatch (.here (.block (by decide)))
  have hPhrase : Dialect.generic.grammar.tokens.hasPhrase "SELECT a".toList = false := by
    decide +kernel
  exact parse_respaced hTokens hRespaced fun hFuses =>
    Bool.false_ne_true (hPhrase.symm.trans hFuses.hasPhrase)

/-- A space in the place of a comment may complete a phrase, and with it a query
that was none. -/
theorem parse_respaced_orderBy :
    Grammar.generic.tokens.Respaced "SELECT 1 ORDER/**/BY 1".toList "SELECT 1 ORDER BY 1".toList ∧
      parse "SELECT 1 ORDER/**/BY 1" .generic =
        .error (.grammatical (.unexpected "end of input" (.identifier "BY" none) ⟨18, 20⟩)) ∧
      parse "SELECT 1 ORDER BY 1" .generic =
        .ok (.ofForm (.select
          { targets := [.constant (.integer 1)]
            ordering :=
              [.ofForm (.orderBy (.constant (.integer 1)) .unspecified .unspecified)] })) := by
  have hText : "SELECT 1 ORDER/**/BY 1".toList =
        "SELECT".toList ++ ' ' :: ("1".toList ++ ' ' :: ("ORDER".toList ++
          ('/' :: '*' :: ([] ++ ['*', '/']) ++ "BY 1".toList))) ∧
      "SELECT 1 ORDER BY 1".toList =
        "SELECT".toList ++ ' ' :: ("1".toList ++ ' ' :: ("ORDER".toList ++
          (' ' :: "BY 1".toList))) := by
    decide +kernel
  refine ⟨?_, by decide +kernel, by decide +kernel⟩
  rw [hText.1, hText.2]
  have hOrder : Grammar.generic.tokens.first?
      ("ORDER".toList ++ ('/' :: '*' :: ([] ++ ['*', '/']) ++ "BY 1".toList)) =
        some ("ORDER".toList, some (.identifier "ORDER" none)) := by
    decide +kernel
  have hNumber : Grammar.generic.tokens.first? ("1".toList ++ ' ' :: ("ORDER".toList ++
      ('/' :: '*' :: ([] ++ ['*', '/']) ++ "BY 1".toList))) =
        some ("1".toList, some (.integer 1)) := by
    decide +kernel
  have hSelect : Grammar.generic.tokens.first? ("SELECT".toList ++ ' ' :: ("1".toList ++ ' ' ::
      ("ORDER".toList ++ ('/' :: '*' :: ([] ++ ['*', '/']) ++ "BY 1".toList)))) =
        some ("SELECT".toList, some (.keyword .SELECT)) := by
    decide +kernel
  exact .token (by decide) (by decide) hSelect (.blank (by decide) (.token (by decide) (by decide)
    hNumber (.blank (by decide) (.token (by decide) (by decide) hOrder
      (.here (.block (by decide)))))))

end SqlQuery
