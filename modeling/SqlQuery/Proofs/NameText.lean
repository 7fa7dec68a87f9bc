import SqlQuery.Token.Name

/-!
# The texts of dotted names

A name is scanned and read by two different loops, one over lengths and one
over parts.  Both follow the same shape of text: parts with points between
them, where a star may stand for the parts after a point.  This module
describes that shape once and shows that the scanner takes nothing else and
that the reader finds exactly its parts.

## Main results

* `Token.exists_nameText_of_nameLength?` — what the scanner takes is a name.
* `Token.nameLength?_append` — the scanner takes a name whole, where nothing
  continues it.
* `Token.readName_of_nameText` — what the reader makes of a name.
-/

namespace SqlQuery.Token

/-- The text of one part of a name. -/
inductive PartText : List Char → NamePart → Prop
  | bare {c : Char} {cs : List Char} (hStart : Text.isWordStart c = true)
      (hWord : ∀ d ∈ cs, Text.isWordChar d = true) : PartText (c :: cs) ⟨c :: cs, false⟩
  | quoted {word : List Char} (hWord : word ≠ []) (hQuote : backtick ∉ word) :
    PartText (backtick :: (word ++ [backtick])) ⟨word, true⟩

/-- The text of a name and its parts; a star is a part of its own. -/
inductive NameText : List Char → List NamePart → Prop
  | single {text : List Char} {part : NamePart} (hPart : PartText text part) :
    NameText text [part]
  | starred {text : List Char} {part : NamePart} (hPart : PartText text part) :
    NameText (text ++ ['.', '*']) [part, ⟨['*'], false⟩]
  | dotted {text rest : List Char} {part : NamePart} {parts : List NamePart}
      (hPart : PartText text part) (hRest : NameText rest parts) :
    NameText (text ++ '.' :: rest) (part :: parts)

/-! ## Quoted texts -/

theorem closingLength?_eq_some_iff {quote : Char} {cs : List Char} {length : Nat} :
    closingLength? quote cs = some length ↔
      ∃ word rest, cs = word ++ quote :: rest ∧ quote ∉ word ∧ length = word.length + 1 := by
  induction cs generalizing length with
  | nil => simp [closingLength?]
  | cons c cs ih =>
    rw [closingLength?]
    by_cases hQuote : c = quote
    · subst hQuote
      simp only [beq_self_eq_true, if_true, Option.some.injEq]
      constructor
      · rintro rfl
        exact ⟨[], cs, rfl, List.not_mem_nil, rfl⟩
      · rintro ⟨word, rest, hText, hWord, rfl⟩
        cases word with
        | nil => rfl
        | cons d word =>
          rw [List.cons_append, List.cons.injEq] at hText
          exact absurd (hText.1 ▸ List.mem_cons_self) hWord
    · rw [if_neg (by simpa using hQuote), Option.map_eq_some_iff]
      constructor
      · rintro ⟨length, hLength, rfl⟩
        obtain ⟨word, rest, rfl, hWord, rfl⟩ := ih.1 hLength
        refine ⟨c :: word, rest, rfl, ?_, rfl⟩
        rw [List.mem_cons, not_or]
        exact ⟨fun h => hQuote h.symm, hWord⟩
      · rintro ⟨word, rest, hText, hWord, rfl⟩
        cases word with
        | nil => exact absurd (List.cons.inj hText).1 hQuote
        | cons d word =>
          rw [List.cons_append, List.cons.injEq] at hText
          obtain ⟨rfl, rfl⟩ := hText
          rw [List.mem_cons, not_or] at hWord
          exact ⟨word.length + 1, ih.2 ⟨word, rest, rfl, hWord.2, rfl⟩, rfl⟩

/-- A quoted text is what stands between a quote character and the next one. -/
theorem quotedLength?_eq_some_iff {quote : Char} {cs : List Char} {length : Nat} :
    quotedLength? quote cs = some length ↔
      ∃ word rest, cs = quote :: (word ++ quote :: rest) ∧ quote ∉ word ∧
        length = word.length + 2 := by
  cases cs with
  | nil => simp [quotedLength?]
  | cons c cs =>
    rw [quotedLength?]
    by_cases hQuote : c = quote
    · subst hQuote
      simp only [beq_self_eq_true, if_true, Option.map_eq_some_iff, closingLength?_eq_some_iff]
      constructor
      · rintro ⟨_, ⟨word, rest, rfl, hWord, rfl⟩, rfl⟩
        exact ⟨word, rest, rfl, hWord, rfl⟩
      · rintro ⟨word, rest, hText, hWord, rfl⟩
        exact ⟨word.length + 1, ⟨word, rest, (List.cons.inj hText).2, hWord, rfl⟩, rfl⟩
    · rw [if_neg (by simpa using hQuote)]
      constructor
      · intro h
        cases h
      · rintro ⟨word, rest, hText, -⟩
        exact absurd (List.cons.inj hText).1 hQuote

/-- What is scanned between quote characters of one byte is read whole. -/
theorem readText_of_quotedLength? {quote : Char} (hQuote : quote = '\x22' ∨ quote = '\x27')
    {cs : List Char} {length : Nat} (hLength : quotedLength? quote cs = some length) :
    ∃ word, quote ∉ word ∧ readText (cs.take length) = some (.text (String.ofList word)) := by
  obtain ⟨word, rest, rfl, hWord, rfl⟩ := quotedLength?_eq_some_iff.1 hLength
  have hTake : (quote :: (word ++ quote :: rest)).take (word.length + 2) =
      quote :: (word ++ [quote]) := by
    rw [List.take_succ_cons, List.append_cons, List.take_left' (by simp)]
  refine ⟨word, hWord, ?_⟩
  rw [hTake, readText_quoted hQuote]

/-! ## Words -/

theorem takeWhile_append_of_forall {p : Char → Bool} {a b : List Char}
    (hAll : ∀ c ∈ a, p c = true) (hStop : ∀ c ∈ b.head?, p c = false) :
    (a ++ b).takeWhile p = a := by
  rw [List.takeWhile_append_of_pos hAll]
  cases b with
  | nil => simp
  | cons c b => rw [List.takeWhile_cons, hStop c rfl]; simp

theorem backtick_ne_wordStart {c : Char} (hStart : Text.isWordStart c = true) :
    (c == backtick) = false := by
  rw [beq_eq_false_iff_ne]
  rintro rfl
  revert hStart
  decide

/-- The scanner takes a part whole, where no word character continues it. -/
theorem partLength?_append {text rest : List Char} {part : NamePart} (hPart : PartText text part)
    (hStop : ∀ c ∈ rest.head?, Text.isWordChar c = false) :
    partLength? (text ++ rest) = some text.length := by
  cases hPart with
  | @bare c cs hStart hWord =>
    rw [List.cons_append, partLength?, backtick_ne_wordStart hStart, if_neg Bool.false_ne_true,
      if_pos hStart, takeWhile_append_of_forall hWord hStop]
    rfl
  | @quoted word hWord hQuote =>
    have hLength : quotedLength? backtick (backtick :: (word ++ [backtick]) ++ rest) =
        some (word.length + 2) :=
      quotedLength?_eq_some_iff.2 ⟨word, rest, by simp, hQuote, rfl⟩
    have hPos := List.length_pos_iff.2 hWord
    rw [List.cons_append, partLength?, beq_self_eq_true, if_pos rfl]
    rw [List.cons_append] at hLength
    rw [hLength, Option.filter_some, if_pos (by rw [Nat.blt_eq]; omega)]
    simp

/-- What the scanner takes as a part is one. -/
theorem exists_partText_of_partLength? {cs : List Char} {length : Nat}
    (hLength : partLength? cs = some length) :
    ∃ text rest part, cs = text ++ rest ∧ text.length = length ∧ PartText text part := by
  cases cs with
  | nil => cases hLength
  | cons c cs =>
    rw [partLength?] at hLength
    split at hLength
    · next hQuote =>
      obtain ⟨hFound, hPos⟩ := Option.filter_eq_some_iff.1 hLength
      obtain ⟨word, rest, hText, hWord, rfl⟩ := quotedLength?_eq_some_iff.1 hFound
      have hNe : word ≠ [] := by
        rintro rfl
        exact absurd hPos (by decide)
      refine ⟨backtick :: (word ++ [backtick]), rest, ⟨word, true⟩, ?_, by simp, .quoted hNe hWord⟩
      rw [hText]
      simp
    · split at hLength
      · next hStart =>
        cases hLength
        refine ⟨c :: cs.takeWhile Text.isWordChar, cs.dropWhile Text.isWordChar,
          ⟨c :: cs.takeWhile Text.isWordChar, false⟩, ?_, rfl, .bare hStart ?_⟩
        · rw [List.cons_append, List.takeWhile_append_dropWhile]
        · exact List.all_eq_true.1 List.all_takeWhile
      · cases hLength

/-! ## Names -/

theorem isWordChar_point : Text.isWordChar '.' = false := by decide

theorem furtherPartsLength_star (cs : List Char) :
    furtherPartsLength 0 ('.' :: '*' :: cs) = 2 := rfl

theorem partLength?_star (cs : List Char) : partLength? ('*' :: cs) = none := by
  rw [partLength?, if_neg (by decide), if_neg (by decide)]

theorem furtherPartsLength_part {cs : List Char} {length : Nat}
    (hLength : partLength? cs = some length) :
    furtherPartsLength 0 ('.' :: cs) = length + 1 + furtherPartsLength 0 (cs.drop length) := by
  have hStar : ¬(cs.head? == some '*') = true := by
    intro hHead
    cases cs with
    | nil => cases hHead
    | cons c cs =>
      have hChar : c = '*' := by simpa using hHead
      rw [hChar, partLength?_star] at hLength
      cases hLength
  rw [furtherPartsLength, if_neg hStar, hLength]
  dsimp only
  rw [furtherPartsLength_eq_drop length]

theorem furtherPartsLength_of_stop {cs : List Char} (hStop : ∀ c ∈ cs.head?, c ≠ '.') :
    furtherPartsLength 0 cs = 0 := by
  unfold furtherPartsLength
  split
  · next h => cases h
  · exact absurd rfl (hStop '.' rfl)
  · rfl

/-- What the scanner takes as a name is one. -/
theorem exists_nameText_of_nameLength? {cs : List Char} {length : Nat}
    (hLength : nameLength? cs = some length) :
    ∃ text rest parts, cs = text ++ rest ∧ text.length = length ∧ NameText text parts := by
  induction hSize : cs.length using Nat.strongRecOn generalizing cs length with
  | ind size ih =>
    obtain ⟨first, hFirst, rfl⟩ := Option.map_eq_some_iff.1 hLength
    obtain ⟨text, rest, part, rfl, rfl, hPart⟩ := exists_partText_of_partLength? hFirst
    rw [furtherPartsLength_eq_drop, List.drop_left]
    -- After the first part the scanner stops, takes a star or takes another name.
    unfold furtherPartsLength
    split
    · next h => cases h
    · next after _ =>
      split
      · next hStar =>
        obtain ⟨c, tail, rfl⟩ : ∃ c tail, after = c :: tail := by
          cases after with
          | nil => cases hStar
          | cons c tail => exact ⟨c, tail, rfl⟩
        have hChar : c = '*' := by simpa using hStar
        subst hChar
        exact ⟨text ++ ['.', '*'], tail, _, by simp, by simp, .starred hPart⟩
      · split
        · next length hNext =>
          have hName : nameLength? after = some (length + furtherPartsLength length after) := by
            rw [nameLength?, hNext]
            rfl
          obtain ⟨text', rest', parts, rfl, hText', hParts⟩ :=
            ih after.length (by rw [← hSize]; simp; omega) hName rfl
          refine ⟨text ++ '.' :: text', rest', part :: parts, by simp, ?_, .dotted hPart hParts⟩
          simp only [List.length_append, List.length_cons, hText']
          omega
        · exact ⟨text, _, [part], rfl, rfl, .single hPart⟩
    · exact ⟨text, _, [part], rfl, rfl, .single hPart⟩

/-- The scanner takes a name whole, where nothing continues it. -/
theorem nameLength?_append {text rest : List Char} {parts : List NamePart}
    (hText : NameText text parts)
    (hStop : ∀ c ∈ rest.head?, Text.isWordChar c = false ∧ c ≠ '.') :
    nameLength? (text ++ rest) = some text.length := by
  induction hText with
  | single hPart =>
    rw [nameLength?, partLength?_append hPart fun c hc => (hStop c hc).1, Option.map_some,
      furtherPartsLength_eq_drop, List.drop_left,
      furtherPartsLength_of_stop fun c hc => (hStop c hc).2]
    rfl
  | @starred text part hPart =>
    have hFirst : partLength? (text ++ (['.', '*'] ++ rest)) = some text.length :=
      partLength?_append hPart (by simp [isWordChar_point])
    rw [List.append_assoc, nameLength?, hFirst, Option.map_some, furtherPartsLength_eq_drop,
      List.drop_left]
    simp [furtherPartsLength_star]
  | @dotted text next part parts hPart hNext ih =>
    have hFirst : partLength? (text ++ ('.' :: next ++ rest)) = some text.length :=
      partLength?_append hPart (by simp [isWordChar_point])
    obtain ⟨length, hLength, hSum⟩ := Option.map_eq_some_iff.1 ih
    rw [List.append_assoc, nameLength?, hFirst, Option.map_some, furtherPartsLength_eq_drop,
      List.drop_left, List.cons_append, furtherPartsLength_part hLength]
    rw [furtherPartsLength_eq_drop] at hSum
    simp only [List.length_append, List.length_cons, Option.some.injEq]
    omega

/-! ## Reading -/

theorem dropWhile_append_of_forall {p : Char → Bool} {a b : List Char}
    (hAll : ∀ c ∈ a, p c = true) (hStop : ∀ c ∈ b.head?, p c = false) :
    (a ++ b).dropWhile p = b := by
  rw [List.dropWhile_append_of_pos hAll]
  cases b with
  | nil => rfl
  | cons c b => rw [List.dropWhile_cons, hStop c rfl]; simp

theorem PartText.ne_nil {text : List Char} {part : NamePart} (hPart : PartText text part) :
    text ≠ [] := by
  cases hPart <;> simp

/-- A bare part holds no point. -/
theorem PartText.ne_point {c : Char} {cs : List Char} (hStart : Text.isWordStart c = true)
    (hWord : ∀ d ∈ cs, Text.isWordChar d = true) : ∀ d ∈ c :: cs, (d != '.') = true := by
  intro d hMem
  rw [bne_iff_ne]
  rintro rfl
  have hChar : Text.isWordChar '.' = true := by
    rcases List.mem_cons.1 hMem with rfl | hMem
    · exact Text.isWordChar_of_isWordStart hStart
    · exact hWord _ hMem
  rw [isWordChar_point] at hChar
  cases hChar

/-- The reader finds a part where the name ends or a point follows. -/
theorem firstPart?_append {text rest : List Char} {part : NamePart} (hPart : PartText text part)
    (hStop : ∀ c ∈ rest.head?, c = '.') : firstPart? (text ++ rest) = some (part, rest) := by
  cases hPart with
  | @bare c cs hStart hWord =>
    have hPoint := PartText.ne_point hStart hWord
    have hEnd : ∀ d ∈ rest.head?, (d != '.') = false := fun d hd => by rw [hStop d hd]; decide
    rw [List.cons_append, firstPart?, backtick_ne_wordStart hStart, if_neg Bool.false_ne_true,
      ← List.cons_append, takeWhile_append_of_forall hPoint hEnd,
      dropWhile_append_of_forall hPoint hEnd]
  | @quoted word hWord hQuote =>
    have hInside : ∀ d ∈ word, (d != backtick) = true := by
      intro d hMem
      rw [bne_iff_ne]
      rintro rfl
      exact hQuote hMem
    have hEnd : ∀ d ∈ (backtick :: rest).head?, (d != backtick) = false := by simp
    rw [List.cons_append, firstPart?, beq_self_eq_true, if_pos rfl, List.append_assoc,
      List.singleton_append, dropWhile_append_of_forall hInside hEnd,
      takeWhile_append_of_forall hInside hEnd]

/-- The reader finds the parts of a name. -/
theorem nameParts?_of_nameText {text : List Char} {parts : List NamePart}
    (hText : NameText text parts) {limit : Nat} (hLimit : text.length ≤ limit) :
    nameParts? limit text = some parts := by
  induction hText generalizing limit with
  | @single text part hPart =>
    have hFirst : firstPart? (text ++ []) = some (part, []) := firstPart?_append hPart (by simp)
    rw [List.append_nil] at hFirst
    cases limit <;> rw [nameParts?, hFirst] <;> rfl
  | @starred text part hPart =>
    have hFirst : firstPart? (text ++ ['.', '*']) = some (part, ['.', '*']) :=
      firstPart?_append hPart (by simp)
    simp only [List.length_append, List.length_cons, List.length_nil] at hLimit
    obtain ⟨limit, rfl⟩ : ∃ below, limit = below + 1 := ⟨limit - 1, by omega⟩
    rw [nameParts?, hFirst]
    show Option.map (part :: ·) (nameParts? limit ['*']) = _
    cases limit <;> rfl
  | @dotted text rest part parts hPart hRest ih =>
    have hFirst : firstPart? (text ++ '.' :: rest) = some (part, '.' :: rest) :=
      firstPart?_append hPart (by simp)
    simp only [List.length_append, List.length_cons] at hLimit
    obtain ⟨limit, rfl⟩ : ∃ below, limit = below + 1 := ⟨limit - 1, by omega⟩
    rw [nameParts?, hFirst]
    show Option.map (part :: ·) (nameParts? limit rest) = some (part :: parts)
    rw [ih (by omega)]
    rfl

/-- The name that parts make up, without their backticks. -/
def partsValue (parts : List NamePart) : List Char :=
  List.intercalate ['.'] (parts.map (·.word))

theorem partsValue_cons {part : NamePart} {parts : List NamePart} (hParts : parts ≠ []) :
    partsValue (part :: parts) = part.word ++ '.' :: partsValue parts := by
  cases parts with
  | nil => exact absurd rfl hParts
  | cons next rest => simp [partsValue, List.intercalate]

theorem NameText.parts_ne_nil {text : List Char} {parts : List NamePart}
    (hText : NameText text parts) : parts ≠ [] := by
  cases hText <;> simp

theorem NameText.text_ne_nil {text : List Char} {parts : List NamePart}
    (hText : NameText text parts) : text ≠ [] := by
  cases hText with
  | single hPart => exact hPart.ne_nil
  | starred hPart | dotted hPart => simp

/-- The value of a name without quotes is its text. -/
theorem NameText.partsValue_eq {text : List Char} {parts : List NamePart}
    (hText : NameText text parts) (hBare : parts.any (·.quoted) = false) :
    partsValue parts = text := by
  have hWord : ∀ {text part}, PartText text part → part.quoted = false → part.word = text := by
    rintro text part (_ | _) hBare
    · rfl
    · cases hBare
  induction hText with
  | single hPart =>
    simp only [List.any_cons, List.any_nil, Bool.or_false] at hBare
    simp [partsValue, List.intercalate, hWord hPart hBare]
  | starred hPart =>
    simp only [List.any_cons, List.any_nil, Bool.or_false] at hBare
    simp [partsValue, List.intercalate, hWord hPart hBare]
  | dotted hPart hRest ih =>
    simp only [List.any_cons, Bool.or_eq_false_iff] at hBare
    rw [partsValue_cons hRest.parts_ne_nil, hWord hPart hBare.1, ih hBare.2]

theorem PartText.word_ne_nil {text : List Char} {part : NamePart} (hPart : PartText text part) :
    part.word ≠ [] := by
  cases hPart with
  | bare => exact List.cons_ne_nil _ _
  | quoted hWord => exact hWord

theorem PartText.backtick_notMem {text : List Char} {part : NamePart}
    (hPart : PartText text part) : backtick ∉ part.word := by
  cases hPart with
  | @bare c cs hStart hWord =>
    intro hMem
    have hChar : Text.isWordChar backtick = true := by
      rcases List.mem_cons.1 hMem with h | h
      · exact h ▸ Text.isWordChar_of_isWordStart hStart
      · exact hWord _ h
    revert hChar
    decide
  | quoted _ hQuote => exact hQuote

theorem NameText.partsValue_ne_nil {text : List Char} {parts : List NamePart}
    (hText : NameText text parts) : partsValue parts ≠ [] := by
  cases hText with
  | single hPart => simpa [partsValue, List.intercalate] using hPart.word_ne_nil
  | starred hPart => simp [partsValue, List.intercalate]
  | dotted hPart hRest => simp [partsValue_cons hRest.parts_ne_nil]

/-- The value of a name holds no backtick. -/
theorem NameText.backtick_notMem {text : List Char} {parts : List NamePart}
    (hText : NameText text parts) : backtick ∉ partsValue parts := by
  have hPoint : backtick ≠ '.' := by decide
  induction hText with
  | single hPart => simpa [partsValue, List.intercalate] using hPart.backtick_notMem
  | starred hPart =>
    have hStar : backtick ≠ '*' := by decide
    simp [partsValue, List.intercalate, hPart.backtick_notMem, hPoint, hStar]
  | dotted hPart hRest ih =>
    simp [partsValue_cons hRest.parts_ne_nil, hPart.backtick_notMem, hPoint, ih]

theorem filter_backtick_of_notMem {text : List Char} (hText : backtick ∉ text) :
    text.filter (· != backtick) = text := by
  rw [List.filter_eq_self]
  intro c hMem
  rw [bne_iff_ne]
  rintro rfl
  exact hText hMem

theorem PartText.filter_backtick {text : List Char} {part : NamePart}
    (hPart : PartText text part) : text.filter (· != backtick) = part.word := by
  have hWord := filter_backtick_of_notMem hPart.backtick_notMem
  cases hPart with
  | bare => exact hWord
  | quoted => simpa using hWord

/-- The value of a name is its text without the backticks. -/
theorem NameText.filter_backtick {text : List Char} {parts : List NamePart}
    (hText : NameText text parts) : text.filter (· != backtick) = partsValue parts := by
  have hPoint : ('.' != backtick) = true := rfl
  induction hText with
  | single hPart => simp [partsValue, List.intercalate, hPart.filter_backtick]
  | starred hPart =>
    have hStar : ('*' != backtick) = true := rfl
    simp [partsValue, List.intercalate, hPart.filter_backtick, hPoint, hStar]
  | dotted hPart hRest ih =>
    simp [partsValue_cons hRest.parts_ne_nil, hPart.filter_backtick, hPoint, ih]

theorem PartText.backtick_mem_iff {text : List Char} {part : NamePart}
    (hPart : PartText text part) : backtick ∈ text ↔ part.quoted = true := by
  have hWord := hPart.backtick_notMem
  cases hPart with
  | bare => simpa using hWord
  | quoted => simp

/-- A name holds a backtick where some part of it is quoted. -/
theorem NameText.backtick_mem_iff {text : List Char} {parts : List NamePart}
    (hText : NameText text parts) : backtick ∈ text ↔ parts.any (·.quoted) = true := by
  have hPoint : backtick ≠ '.' := by decide
  induction hText with
  | single hPart => simp [hPart.backtick_mem_iff]
  | starred hPart =>
    have hStar : backtick ≠ '*' := by decide
    simp [hPart.backtick_mem_iff, hPoint, hStar]
  | dotted hPart hRest ih => simp [hPart.backtick_mem_iff, hPoint, ih]

/-- What a name without quotes consists of. -/
theorem NameText.mem_of_bare {text : List Char} {parts : List NamePart}
    (hText : NameText text parts) (hBare : parts.any (·.quoted) = false) :
    ∀ c ∈ text, Text.isWordChar c = true ∨ c = '.' ∨ c = '*' := by
  have hWord : ∀ {text part}, PartText text part → part.quoted = false →
      ∀ c ∈ text, Text.isWordChar c = true := by
    rintro text part (⟨hStart, hWord⟩ | _) hBare c hMem
    · rcases List.mem_cons.1 hMem with rfl | hMem
      · exact Text.isWordChar_of_isWordStart hStart
      · exact hWord c hMem
    · cases hBare
  induction hText with
  | single hPart =>
    simp only [List.any_cons, List.any_nil, Bool.or_false] at hBare
    exact fun c hMem => Or.inl (hWord hPart hBare c hMem)
  | starred hPart =>
    simp only [List.any_cons, List.any_nil, Bool.or_false] at hBare
    intro c hMem
    simp only [List.mem_append, List.mem_cons, List.not_mem_nil, or_false] at hMem
    rcases hMem with hMem | hMem
    · exact Or.inl (hWord hPart hBare c hMem)
    · exact Or.inr hMem
  | dotted hPart hRest ih =>
    simp only [List.any_cons, Bool.or_eq_false_iff] at hBare
    intro c hMem
    simp only [List.mem_append, List.mem_cons] at hMem
    rcases hMem with hMem | rfl | hMem
    · exact Or.inl (hWord hPart hBare.1 c hMem)
    · exact Or.inr (Or.inl rfl)
    · exact ih hBare.2 c hMem

/-- A name without quotes starts like a word. -/
theorem NameText.head_of_bare {text : List Char} {parts : List NamePart}
    (hText : NameText text parts) (hBare : parts.any (·.quoted) = false) :
    ∃ c cs, text = c :: cs ∧ Text.isWordStart c = true := by
  have hWord : ∀ {text part}, PartText text part → part.quoted = false →
      ∃ c cs, text = c :: cs ∧ Text.isWordStart c = true := by
    rintro text part (⟨hStart, -⟩ | _) hBare
    · exact ⟨_, _, rfl, hStart⟩
    · cases hBare
  cases hText with
  | single hPart => exact hWord hPart (by simpa using hBare)
  | starred hPart =>
    obtain ⟨c, cs, rfl, hStart⟩ := hWord hPart (by simpa using hBare)
    exact ⟨c, _, rfl, hStart⟩
  | dotted hPart hRest =>
    simp only [List.any_cons, Bool.or_eq_false_iff] at hBare
    obtain ⟨c, cs, rfl, hStart⟩ := hWord hPart hBare.1
    exact ⟨c, _, rfl, hStart⟩

/-- The keyword that parts make up: a single bare word that is reserved. -/
def partsKeyword? : List NamePart → Option Keyword
  | [part] => if part.quoted then none else Keyword.ofWord? part.word
  | _ => none

theorem readName_eq {text : List Char} {parts : List NamePart} (hText : NameText text parts) :
    readName text = some (match partsKeyword? parts with
      | some word => .keyword word
      | none => .identifier (String.ofList (partsValue parts))
          (if parts.any (·.quoted) then some backtick else none)) := by
  rw [readName, nameParts?_of_nameText hText (Nat.le_refl _), Option.map_some]
  clear hText
  match parts with
  | [] => rfl
  | [part] =>
    cases hQuoted : part.quoted <;> cases hWord : Keyword.ofWord? part.word <;>
      simp [partsKeyword?, partsValue, hQuoted, hWord]
  | _ :: _ :: _ => rfl

/-- What the reader makes of a name: a keyword if the name is a bare word that
is reserved, and else an identifier. -/
theorem readName_of_nameText {text : List Char} {parts : List NamePart}
    (hText : NameText text parts) :
    (∃ word, parts = [⟨text, false⟩] ∧ Keyword.ofWord? text = some word ∧
      readName text = some (.keyword word)) ∨
    (parts.any (·.quoted) = false ∧
      (parts = [⟨text, false⟩] → Keyword.ofWord? text = none) ∧
      readName text = some (.identifier (String.ofList text) none)) ∨
    (parts.any (·.quoted) = true ∧
      readName text = some (.identifier (String.ofList (partsValue parts)) (some backtick))) := by
  rw [readName_eq hText]
  cases hQuoted : parts.any (·.quoted) with
  | true =>
    have hKeyword : partsKeyword? parts = none := by
      unfold partsKeyword?
      split
      · exact if_pos (by simpa using hQuoted)
      · rfl
    rw [hKeyword]
    exact Or.inr (Or.inr ⟨rfl, rfl⟩)
  | false =>
    have hValue := hText.partsValue_eq hQuoted
    cases hText with
    | @single text part hPart =>
      obtain ⟨word, quoted⟩ := part
      obtain rfl : word = text := by simpa [partsValue, List.intercalate] using hValue
      obtain rfl : quoted = false := by simpa using hQuoted
      cases hKeyword : Keyword.ofWord? word with
      | some keyword =>
        refine Or.inl ⟨keyword, rfl, rfl, ?_⟩
        simp [partsKeyword?, hKeyword]
      | none =>
        refine Or.inr (Or.inl ⟨rfl, fun _ => rfl, ?_⟩)
        simp [partsKeyword?, hKeyword, hValue]
    | starred hPart =>
      refine Or.inr (Or.inl ⟨rfl, fun h => by simp at h, ?_⟩)
      rw [hValue]
      rfl
    | @dotted text rest part parts hPart hRest =>
      have hNext := hRest.parts_ne_nil
      refine Or.inr (Or.inl ⟨rfl, fun h => absurd (List.cons.inj h).2 hNext, ?_⟩)
      obtain ⟨next, further, rfl⟩ := List.exists_cons_of_ne_nil hNext
      rw [hValue]
      rfl

end SqlQuery.Token
