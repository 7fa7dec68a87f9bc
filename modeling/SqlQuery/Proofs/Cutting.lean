import SqlQuery.Proofs.Partition

/-!
# Texts that are cut off

A rule looks at the text behind a lexeme to find where the lexeme ends.  So a
text that is cut off is not read like the whole one as a matter of course: a
phrase may be there only once the word character behind its last word is gone.
This is the one thing that can happen.  Every scanner finds in a text that is cut
off what it finds in the whole one, if that lies before the cut, and finds
nothing where it found nothing before.

## Main definitions

* `CutsAt` — a scanner at a cut.
* `Text.BreaksAt` — no word goes on at a place.
* `Text.Apart` — two texts between which no word goes on.

## Main results

* `Dialect.breaksAt_of_first?` — no lexeme ends within a word.
* `Dialect.first?_cut` — the first rule that matches is the same at a cut.
-/

namespace SqlQuery

/-! ## Scanners at a cut -/

/-- A scanner at the cut between two texts: it finds in the first one what it
finds in both if that lies before the cut, and nothing if it finds nothing. -/
structure CutsAt (length? : List Char → Option Nat) (a b : List Char) : Prop where
  found : ∀ {n : Nat}, length? (a ++ b) = some n → n ≤ a.length → length? a = some n
  absent : length? (a ++ b) = none → length? a = none

/-- What a scanner finds before a cut keeps it from finding nothing. -/
theorem CutsAt.of_some {length? : List Char → Option Nat} {a b : List Char}
    (hFound : ∀ {n : Nat}, length? (a ++ b) = some n → n ≤ a.length → length? a = some n)
    (hSome : ∀ {n : Nat}, length? a = some n → length? (a ++ b) ≠ none) : CutsAt length? a b := by
  refine ⟨hFound, fun hNone => ?_⟩
  cases hLength : length? a with
  | none => rfl
  | some n => exact absurd hNone (hSome hLength)

/-- A text that reaches no further than a cut lies before it. -/
theorem exists_append_of_append_eq {a b x y : List Char} (hText : a ++ b = x ++ y)
    (hLength : x.length ≤ a.length) : ∃ z, a = x ++ z ∧ y = z ++ b := by
  obtain ⟨z, rfl⟩ : x <+: a :=
    List.prefix_of_prefix_length_le ⟨y, hText.symm⟩ (List.prefix_append a b) hLength
  rw [List.append_assoc, List.append_cancel_left_eq] at hText
  exact ⟨z, rfl, hText.symm⟩

namespace Token

variable {a b cs : List Char} {n : Nat}

/-- A run of characters ends where it ended, or at the cut. -/
theorem length_takeWhile_append (p : Char → Bool) (a b : List Char) :
    (a.takeWhile p).length = min a.length ((a ++ b).takeWhile p).length := by
  induction a with
  | nil => simp
  | cons c a ih =>
    rw [List.cons_append, List.takeWhile_cons, List.takeWhile_cons]
    cases p c with
    | true =>
      simp only [if_true, List.length_cons, ih]
      omega
    | false => simp

theorem digitCount_cut (a b : List Char) : digitCount a = min a.length (digitCount (a ++ b)) :=
  length_takeWhile_append _ a b

theorem variableNameLength_cut (a b : List Char) :
    variableNameLength a = min a.length (variableNameLength (a ++ b)) :=
  length_takeWhile_append _ a b

/-! ### Numbers -/

theorem fractionLength_of_ne {c : Char} (hPoint : c ≠ '.') (cs : List Char) :
    fractionLength (c :: cs) = 0 := by
  unfold fractionLength
  split
  · next h => exact absurd (List.cons.inj h).1 hPoint
  · rfl

theorem fractionLength_cut (hLength : fractionLength (a ++ b) ≤ a.length) :
    fractionLength a = fractionLength (a ++ b) := by
  cases a with
  | nil => exact (Nat.le_zero.1 hLength).symm
  | cons c a =>
    by_cases hPoint : c = '.'
    · subst hPoint
      have hDigits := digitCount_cut a b
      rw [List.cons_append, List.length_cons, fractionLength] at hLength
      rw [List.cons_append, fractionLength, fractionLength]
      split at hLength
      · next hZero => rw [hDigits, hZero, Nat.min_zero]
      · rw [hDigits, Nat.min_eq_right (by omega)]
    · rw [List.cons_append, fractionLength_of_ne hPoint, fractionLength_of_ne hPoint]

theorem signLength_le_one (cs : List Char) : signLength cs ≤ 1 := by
  unfold signLength
  split <;> simp

theorem signLength_cons_append (c : Char) (a b : List Char) :
    signLength (c :: a ++ b) = signLength (c :: a) := by
  by_cases hPlus : c = '+'
  · subst hPlus
    rfl
  · by_cases hMinus : c = '-'
    · subst hMinus
      rfl
    · simp [signLength, hPlus, hMinus]

theorem exponentBodyLength_cut (hLength : exponentBodyLength (a ++ b) ≤ a.length + 1) :
    exponentBodyLength a = exponentBodyLength (a ++ b) := by
  cases a with
  | nil =>
    show 0 = exponentBodyLength b
    rw [List.nil_append, exponentBodyLength, List.length_nil] at hLength
    rw [exponentBodyLength]
    split at hLength
    · next hZero => rw [if_pos hZero]
    · omega
  | cons c a =>
    have hSign : signLength (c :: a) ≤ (c :: a).length :=
      Nat.le_trans (signLength_le_one _) (Nat.succ_le_succ (Nat.zero_le _))
    have hDigits := digitCount_cut ((c :: a).drop (signLength (c :: a))) b
    rw [← List.drop_append_of_le_length hSign, List.length_drop] at hDigits
    simp only [exponentBodyLength, signLength_cons_append] at hLength ⊢
    split at hLength
    · next hZero => rw [hDigits, hZero, Nat.min_zero, if_pos rfl]
    · next hPos =>
      have hSame : digitCount ((c :: a).drop (signLength (c :: a))) =
          digitCount ((c :: a ++ b).drop (signLength (c :: a))) := by omega
      rw [hSame]

theorem exponentLength_of_ne {c : Char} (hSmall : c ≠ 'e') (hBig : c ≠ 'E') (cs : List Char) :
    exponentLength (c :: cs) = 0 := by
  unfold exponentLength
  split
  · next h => exact absurd (List.cons.inj h).1 hSmall
  · next h => exact absurd (List.cons.inj h).1 hBig
  · rfl

theorem exponentLength_cut (hLength : exponentLength (a ++ b) ≤ a.length) :
    exponentLength a = exponentLength (a ++ b) := by
  cases a with
  | nil => exact (Nat.le_zero.1 hLength).symm
  | cons c a =>
    by_cases hSmall : c = 'e'
    · subst hSmall
      exact exponentBodyLength_cut hLength
    · by_cases hBig : c = 'E'
      · subst hBig
        exact exponentBodyLength_cut hLength
      · rw [List.cons_append, exponentLength_of_ne hSmall hBig, exponentLength_of_ne hSmall hBig]

theorem numberLength?_cutsAt (a b : List Char) : CutsAt numberLength? a b := by
  have hWhole := digitCount_cut a b
  constructor
  · intro n hFound hLength
    simp only [numberLength?] at hFound ⊢
    split at hFound
    · cases hFound
    · next hPos =>
      cases hFound
      have hSame : digitCount a = digitCount (a ++ b) := by omega
      have hDrop : (a ++ b).drop (digitCount (a ++ b)) = a.drop (digitCount (a ++ b)) ++ b :=
        List.drop_append_of_le_length (by omega)
      rw [hDrop] at hLength ⊢
      have hFraction : fractionLength (a.drop (digitCount (a ++ b))) =
          fractionLength (a.drop (digitCount (a ++ b)) ++ b) :=
        fractionLength_cut (by rw [List.length_drop]; omega)
      rw [← hFraction] at hLength ⊢
      generalize hSum : digitCount (a ++ b) + fractionLength (a.drop (digitCount (a ++ b))) = k
        at hLength ⊢
      rw [List.drop_append_of_le_length (by omega)] at hLength ⊢
      have hExponent : exponentLength (a.drop k) = exponentLength (a.drop k ++ b) :=
        exponentLength_cut (by rw [List.length_drop]; omega)
      rw [hSame, if_neg hPos, hSum, hExponent]
  · intro hNone
    simp only [numberLength?] at hNone ⊢
    split at hNone
    · next hZero => rw [if_pos (by omega)]
    · cases hNone

/-! ### Quoted texts and names -/

theorem quotedLength?_append {quote : Char} (hFound : quotedLength? quote a = some n)
    (b : List Char) : quotedLength? quote (a ++ b) = some n := by
  obtain ⟨word, rest, rfl, hWord, rfl⟩ := quotedLength?_eq_some_iff.1 hFound
  exact quotedLength?_eq_some_iff.2 ⟨word, rest ++ b, by simp, hWord, rfl⟩

theorem quotedLength?_cutsAt (quote : Char) (a b : List Char) :
    CutsAt (quotedLength? quote) a b := by
  refine .of_some (fun hFound hLength => ?_) fun hFound hNone => ?_
  · obtain ⟨word, rest, hText, hWord, rfl⟩ := quotedLength?_eq_some_iff.1 hFound
    have hSplit : a ++ b = quote :: (word ++ [quote]) ++ rest := by rw [hText]; simp
    obtain ⟨z, rfl, -⟩ := exists_append_of_append_eq hSplit (by simp; omega)
    exact quotedLength?_eq_some_iff.2 ⟨word, z, by simp, hWord, rfl⟩
  · rw [quotedLength?_append hFound b] at hNone
    cases hNone

theorem partLength?_pos (hFound : partLength? cs = some n) : 0 < n := by
  obtain ⟨text, rest, part, -, rfl, hPart⟩ := exists_partText_of_partLength? hFound
  exact List.length_pos_iff.2 hPart.ne_nil

theorem partLength?_cutsAt (a b : List Char) : CutsAt partLength? a b := by
  cases a with
  | nil => exact ⟨fun hFound hLength => absurd (partLength?_pos hFound) (Nat.not_lt.2 hLength),
      fun _ => rfl⟩
  | cons c a =>
    by_cases hQuote : (c == backtick) = true
    · have hPart : ∀ cs, partLength? (c :: cs) =
          (quotedLength? backtick (c :: cs)).filter fun length => Nat.blt 2 length :=
        fun cs => if_pos hQuote
      refine .of_some (fun hFound hLength => ?_) fun hFound hNone => ?_
      · rw [List.cons_append, hPart] at hFound
        obtain ⟨hSome, hLong⟩ := Option.filter_eq_some_iff.1 hFound
        rw [hPart]
        exact Option.filter_eq_some_iff.2
          ⟨(quotedLength?_cutsAt backtick (c :: a) b).found hSome hLength, hLong⟩
      · rw [hPart] at hFound
        obtain ⟨hSome, hLong⟩ := Option.filter_eq_some_iff.1 hFound
        rw [List.cons_append, hPart, ← List.cons_append, quotedLength?_append hSome b,
          Option.filter_some, if_pos hLong] at hNone
        cases hNone
    · by_cases hStart : Text.isWordStart c = true
      · have hPart : ∀ cs, partLength? (c :: cs) =
            some ((cs.takeWhile Text.isWordChar).length + 1) :=
          fun cs => (if_neg hQuote).trans (if_pos hStart)
        have hRun := length_takeWhile_append Text.isWordChar a b
        constructor
        · intro n hFound hLength
          rw [List.cons_append, hPart] at hFound
          cases hFound
          rw [List.length_cons] at hLength
          rw [hPart, hRun, Nat.min_eq_right (by omega)]
        · intro hNone
          rw [List.cons_append, hPart] at hNone
          cases hNone
      · have hPart : ∀ cs, partLength? (c :: cs) = none :=
          fun cs => (if_neg hQuote).trans (if_neg hStart)
        refine ⟨fun hFound => ?_, fun _ => hPart a⟩
        rw [List.cons_append, hPart] at hFound
        cases hFound

theorem furtherPartsLength_of_none (hNone : partLength? cs = none) (hStar : cs.head? ≠ some '*') :
    furtherPartsLength 0 ('.' :: cs) = 0 := by
  rw [furtherPartsLength, if_neg (by simpa using hStar), hNone]

theorem furtherPartsLength_of_star (hStar : cs.head? = some '*') :
    furtherPartsLength 0 ('.' :: cs) = 2 := by
  rw [furtherPartsLength, if_pos (by simpa using hStar)]

theorem furtherPartsLength_cut (hLength : furtherPartsLength 0 (a ++ b) ≤ a.length) :
    furtherPartsLength 0 a = furtherPartsLength 0 (a ++ b) := by
  induction hSize : a.length using Nat.strong_induction_on generalizing a with
  | _ size ih =>
    subst hSize
    cases a with
    | nil => exact (Nat.le_zero.1 hLength).symm
    | cons c a =>
      by_cases hPoint : c = '.'
      · subst hPoint
        rw [List.cons_append, List.length_cons] at hLength
        rw [List.cons_append]
        by_cases hStar : (a ++ b).head? = some '*'
        · rw [furtherPartsLength_of_star hStar] at hLength ⊢
          obtain ⟨d, a, rfl⟩ : ∃ d rest, a = d :: rest := by
            apply List.exists_cons_of_length_pos
            omega
          exact furtherPartsLength_of_star hStar
        · have hStar' : a.head? ≠ some '*' := by
            intro h
            cases a with
            | nil => cases h
            | cons d a => exact hStar h
          cases hPart : partLength? (a ++ b) with
          | none =>
            rw [furtherPartsLength_of_none hPart hStar,
              furtherPartsLength_of_none ((partLength?_cutsAt a b).absent hPart) hStar']
          | some length =>
            rw [furtherPartsLength_part hPart] at hLength ⊢
            have hCut := (partLength?_cutsAt a b).found hPart (by omega)
            rw [List.drop_append_of_le_length (by omega)] at hLength ⊢
            rw [furtherPartsLength_part hCut, ih (a.drop length).length ?_ ?_ rfl]
            · rw [List.length_drop, List.length_cons]
              omega
            · rw [List.length_drop]
              omega
      · have hNot : ∀ cs : List Char, ∀ d ∈ (c :: cs).head?, d ≠ '.' := by
          intro cs d hd
          cases hd
          exact hPoint
        rw [furtherPartsLength_of_stop (hNot a), List.cons_append,
          furtherPartsLength_of_stop (hNot (a ++ b))]

theorem nameLength?_cutsAt (a b : List Char) : CutsAt nameLength? a b := by
  constructor
  · intro n hFound hLength
    obtain ⟨first, hFirst, rfl⟩ := Option.map_eq_some_iff.1 hFound
    have hCut := (partLength?_cutsAt a b).found hFirst (by omega)
    rw [furtherPartsLength_eq_drop, List.drop_append_of_le_length (by omega)] at hLength ⊢
    rw [nameLength?, hCut, Option.map_some, furtherPartsLength_eq_drop, furtherPartsLength_cut]
    rw [List.length_drop]
    omega
  · intro hNone
    rw [nameLength?, Option.map_eq_none_iff] at hNone ⊢
    exact (partLength?_cutsAt a b).absent hNone

/-! ### Variables -/

/-- A scanner for a mark and the name of a variable behind it. -/
def ScansVariable (mark : List Char) (length? : List Char → Option Nat) : Prop :=
  ∀ {cs : List Char} {n : Nat}, length? cs = some n ↔ ∃ rest, cs = mark ++ rest ∧
    variableNameLength rest ≠ 0 ∧ n = mark.length + variableNameLength rest

theorem scansVariable_system : ScansVariable ['@', '@'] systemVariableLength? := by
  intro cs n
  unfold systemVariableLength?
  split
  · next rest => split <;> simp_all [eq_comm, Nat.add_comm]
  · next hOther => simpa using fun rest h => absurd h (hOther rest)

theorem scansVariable_user : ScansVariable ['@'] userVariableLength? := by
  intro cs n
  unfold userVariableLength?
  split
  · next rest => split <;> simp_all [eq_comm, Nat.add_comm]
  · next hOther => simpa using fun rest h => absurd h (hOther rest)

theorem ScansVariable.cutsAt {mark : List Char} {length? : List Char → Option Nat}
    (hScans : ScansVariable mark length?) (a b : List Char) : CutsAt length? a b := by
  refine .of_some (fun hFound hLength => ?_) fun hFound hNone => ?_
  · obtain ⟨rest, hText, hName, rfl⟩ := hScans.1 hFound
    obtain ⟨z, rfl, rfl⟩ := exists_append_of_append_eq hText (by omega)
    have hCut := variableNameLength_cut z b
    rw [List.length_append] at hLength
    have hSame : variableNameLength z = variableNameLength (z ++ b) := by omega
    exact hScans.2 ⟨z, rfl, hSame ▸ hName, by rw [hSame]⟩
  · obtain ⟨rest, rfl, hName, rfl⟩ := hScans.1 hFound
    have hCut := variableNameLength_cut rest b
    have hLonger := hScans.2 ⟨rest ++ b, List.append_assoc mark rest b,
      (by omega : variableNameLength (rest ++ b) ≠ 0), rfl⟩
    exact absurd (hLonger.symm.trans hNone) (by simp)

end Token

/-! ## The ends of words -/

namespace Text

variable {cs : List Char} {n k : Nat}

/-- The last of the first characters of a text has a property. -/
def EndsIn (p : Char → Bool) (cs : List Char) (n : Nat) : Prop :=
  ∀ c ∈ (cs.take n).getLast?, p c = true

/-- No word goes on at a place in a text. -/
def BreaksAt (cs : List Char) (n : Nat) : Prop :=
  ∀ c ∈ (cs.take n).getLast?, isWordStart c = true → ∀ d ∈ (cs.drop n).head?, isWordChar d = false

/-- The last of the first characters is the last of those behind a beginning. -/
theorem getLast?_take_add (hPos : 0 < n) (hLength : k < cs.length) :
    (cs.take (k + n)).getLast? = ((cs.drop k).take n).getLast? := by
  rw [List.take_add, List.getLast?_append_of_ne_nil]
  intro hNil
  have hZero := congrArg List.length hNil
  rw [List.length_take, List.length_drop, List.length_nil] at hZero
  omega

theorem EndsIn.of_drop {p : Char → Bool} (hPos : 0 < n) (hEnds : EndsIn p (cs.drop k) n)
    (hLength : k < cs.length) : EndsIn p cs (k + n) := by
  rw [EndsIn, getLast?_take_add hPos hLength]
  exact hEnds

theorem EndsIn.takeWhile (p : Char → Bool) (cs : List Char) :
    EndsIn p cs (cs.takeWhile p).length := by
  intro c hc
  rw [← List.prefix_iff_eq_take.1 (List.takeWhile_prefix p)] at hc
  exact List.all_eq_true.1 List.all_takeWhile c (List.mem_of_getLast? hc)

theorem BreaksAt.of_drop (hPos : 0 < n) (hBreaks : BreaksAt (cs.drop k) n) :
    BreaksAt cs (k + n) := by
  by_cases hLength : k < cs.length
  · rw [BreaksAt, getLast?_take_add hPos hLength, ← List.drop_drop]
    exact hBreaks
  · intro c _ _ d hd
    rw [List.drop_eq_nil_of_le (by omega)] at hd
    cases hd

/-- No word goes on behind a character that starts none. -/
theorem EndsIn.breaksAt {p : Char → Bool} (hEnds : EndsIn p cs n)
    (hOther : ∀ c, p c = true → isWordStart c = false) : BreaksAt cs n := by
  intro c hc hStart
  rw [hOther c (hEnds c hc)] at hStart
  cases hStart

/-- No word goes on behind a run of characters that all word characters belong
to. -/
theorem BreaksAt.takeWhile {p : Char → Bool} (hWord : ∀ d, isWordChar d = true → p d = true)
    (cs : List Char) : BreaksAt cs (cs.takeWhile p).length := by
  intro c _ _ d hd
  rw [← Bool.not_eq_true]
  intro hChar
  have hDrop : cs.dropWhile p = cs.drop (cs.takeWhile p).length :=
    List.drop_left.symm.trans (congrArg (List.drop _) List.takeWhile_append_dropWhile)
  have hHead := List.head?_dropWhile_not p cs
  rw [hDrop, Option.mem_def.1 hd] at hHead
  have hNot : p d = false := hHead
  rw [hWord d hChar] at hNot
  cases hNot

/-- Two texts between which no word goes on. -/
def Apart (a b : List Char) : Prop :=
  ∀ c ∈ a.getLast?, isWordStart c = true → ∀ d ∈ b.head?, isWordChar d = false

end Text

namespace Token

open Text (EndsIn BreaksAt)

variable {cs : List Char} {n : Nat}

theorem fractionLength_endsIn (hPos : fractionLength cs ≠ 0) :
    EndsIn Char.isDigit cs (fractionLength cs) := by
  cases cs with
  | nil => exact absurd rfl hPos
  | cons c cs =>
    by_cases hPoint : c = '.'
    · subst hPoint
      rw [fractionLength] at hPos ⊢
      split
      · next hZero => exact absurd (if_pos hZero) hPos
      · next hDigits =>
        rw [Nat.add_comm]
        refine EndsIn.of_drop (Nat.pos_of_ne_zero hDigits) (.takeWhile Char.isDigit cs) ?_
        have := digitCount_le cs
        rw [List.length_cons]
        omega
    · exact absurd (fractionLength_of_ne hPoint cs) hPos

theorem exponentBodyLength_endsIn {c : Char} (hPos : exponentBodyLength cs ≠ 0) :
    EndsIn Char.isDigit (c :: cs) (exponentBodyLength cs) := by
  rw [exponentBodyLength] at hPos ⊢
  split
  · next hZero => exact absurd (if_pos hZero) hPos
  · next hDigits =>
    have hRun : EndsIn Char.isDigit ((c :: cs).drop (signLength cs + 1))
        (digitCount (cs.drop (signLength cs))) :=
      .takeWhile Char.isDigit (cs.drop (signLength cs))
    have hLength := digitCount_le (cs.drop (signLength cs))
    rw [List.length_drop] at hLength
    rw [Nat.add_right_comm]
    refine hRun.of_drop (Nat.pos_of_ne_zero hDigits) ?_
    rw [List.length_cons]
    omega

theorem exponentLength_endsIn (hPos : exponentLength cs ≠ 0) :
    EndsIn Char.isDigit cs (exponentLength cs) := by
  cases cs with
  | nil => exact absurd rfl hPos
  | cons c cs =>
    by_cases hSmall : c = 'e'
    · subst hSmall
      exact exponentBodyLength_endsIn hPos
    · by_cases hBig : c = 'E'
      · subst hBig
        exact exponentBodyLength_endsIn hPos
      · exact absurd (exponentLength_of_ne hSmall hBig cs) hPos

/-- A number ends in a digit. -/
theorem numberLength?_endsIn (hFound : numberLength? cs = some n) : EndsIn Char.isDigit cs n := by
  simp only [numberLength?] at hFound
  split at hFound
  · cases hFound
  · next hWhole =>
    cases hFound
    have hFraction : EndsIn Char.isDigit cs
        (digitCount cs + fractionLength (cs.drop (digitCount cs))) := by
      by_cases hZero : fractionLength (cs.drop (digitCount cs)) = 0
      · rw [hZero]
        exact .takeWhile Char.isDigit cs
      · have hLength := fractionLength_le (cs.drop (digitCount cs))
        rw [List.length_drop] at hLength
        exact (fractionLength_endsIn hZero).of_drop (Nat.pos_of_ne_zero hZero) (by omega)
    generalize digitCount cs + fractionLength (cs.drop (digitCount cs)) = k at hFraction ⊢
    by_cases hZero : exponentLength (cs.drop k) = 0
    · rw [hZero]
      exact hFraction
    · have hLength := exponentLength_le (cs.drop k)
      rw [List.length_drop] at hLength
      exact (exponentLength_endsIn hZero).of_drop (Nat.pos_of_ne_zero hZero) (by omega)

/-- A quoted text ends in its quote character. -/
theorem quotedLength?_endsIn {quote : Char} (hFound : quotedLength? quote cs = some n) :
    EndsIn (· == quote) cs n := by
  obtain ⟨word, rest, rfl, -, rfl⟩ := quotedLength?_eq_some_iff.1 hFound
  have hTake : (quote :: (word ++ quote :: rest)).take (word.length + 2) =
      quote :: word ++ [quote] := by
    have hSplit : quote :: (word ++ quote :: rest) = quote :: word ++ [quote] ++ rest := by simp
    rw [hSplit]
    exact List.take_left' (by simp)
  intro c hc
  rw [hTake, List.getLast?_concat] at hc
  cases hc
  exact beq_self_eq_true _

theorem quotedLength?_breaksAt {quote : Char} (hQuote : Text.isWordStart quote = false)
    (hFound : quotedLength? quote cs = some n) : BreaksAt cs n := by
  refine (quotedLength?_endsIn hFound).breaksAt fun c hc => ?_
  rw [eq_of_beq hc]
  exact hQuote

theorem partLength?_breaksAt (hFound : partLength? cs = some n) : BreaksAt cs n := by
  cases cs with
  | nil => cases hFound
  | cons c cs =>
    rw [partLength?] at hFound
    split at hFound
    · exact quotedLength?_breaksAt (by decide) (Option.filter_eq_some_iff.1 hFound).1
    · split at hFound
      · next hStart =>
        cases hFound
        have hRun := @BreaksAt.takeWhile Text.isWordChar (fun _ h => h) (c :: cs)
        rw [List.takeWhile_cons, if_pos (Text.isWordChar_of_isWordStart hStart)] at hRun
        exact hRun
      · cases hFound

theorem furtherPartsLength_breaksAt (hPos : furtherPartsLength 0 cs ≠ 0) :
    BreaksAt cs (furtherPartsLength 0 cs) := by
  induction hSize : cs.length using Nat.strong_induction_on generalizing cs with
  | _ size ih =>
    subst hSize
    cases cs with
    | nil => exact absurd rfl hPos
    | cons c cs =>
      by_cases hPoint : c = '.'
      · subst hPoint
        by_cases hStar : cs.head? = some '*'
        · rw [furtherPartsLength_of_star hStar]
          obtain ⟨cs, rfl⟩ : ∃ rest, cs = '*' :: rest := by
            cases cs with
            | nil => cases hStar
            | cons d cs => cases hStar; exact ⟨cs, rfl⟩
          intro d hd hStart
          obtain rfl : '*' = d := Option.some.inj hd
          exact absurd hStart (by decide)
        · cases hPart : partLength? cs with
          | none => exact absurd (furtherPartsLength_of_none hPart hStar) hPos
          | some length =>
            rw [furtherPartsLength_part hPart]
            have hFirst : BreaksAt ('.' :: cs) (length + 1) := by
              rw [Nat.add_comm]
              exact BreaksAt.of_drop (partLength?_pos hPart) (partLength?_breaksAt hPart)
            by_cases hZero : furtherPartsLength 0 (cs.drop length) = 0
            · rw [hZero]
              exact hFirst
            · refine BreaksAt.of_drop (Nat.pos_of_ne_zero hZero) (ih _ ?_ hZero rfl)
              rw [List.length_drop, List.length_cons]
              omega
      · refine absurd (furtherPartsLength_of_stop fun d hd => ?_) hPos
        cases hd
        exact hPoint

theorem nameLength?_breaksAt (hFound : nameLength? cs = some n) : BreaksAt cs n := by
  obtain ⟨first, hFirst, rfl⟩ := Option.map_eq_some_iff.1 hFound
  rw [furtherPartsLength_eq_drop]
  by_cases hZero : furtherPartsLength 0 (cs.drop first) = 0
  · rw [hZero]
    exact partLength?_breaksAt hFirst
  · exact .of_drop (Nat.pos_of_ne_zero hZero) (furtherPartsLength_breaksAt hZero)

theorem variableNameLength_breaksAt (cs : List Char) : BreaksAt cs (variableNameLength cs) :=
  .takeWhile (fun d hChar => by rw [isVariableChar, hChar, Bool.true_or]) cs

theorem ScansVariable.breaksAt {mark : List Char} {length? : List Char → Option Nat}
    (hScans : ScansVariable mark length?) (hFound : length? cs = some n) : BreaksAt cs n := by
  obtain ⟨rest, rfl, hName, rfl⟩ := hScans.1 hFound
  refine BreaksAt.of_drop (Nat.pos_of_ne_zero hName) ?_
  rw [List.drop_left]
  exact variableNameLength_breaksAt rest

end Token

/-! ## Patterns -/

namespace Pattern

open Text (Apart EndsIn BreaksAt)

variable {a b cs : List Char} {n : Nat}

theorem literal_cutsAt (text : String) (a b : List Char) :
    CutsAt (Pattern.literal text).length? a b := by
  constructor
  · intro n hFound hLength
    rw [Pattern.length?] at hFound ⊢
    split at hFound
    · next hPrefix =>
      cases hFound
      have hCut : text.toList <+: a := by
        refine List.prefix_of_prefix_length_le (List.isPrefixOf_iff_prefix.1 hPrefix)
          (List.prefix_append a b) ?_
        rw [String.length_toList]
        exact hLength
      rw [if_pos (List.isPrefixOf_iff_prefix.2 hCut)]
    · cases hFound
  · intro hNone
    rw [Pattern.length?] at hNone ⊢
    split at hNone
    · cases hNone
    · next hPrefix =>
      refine if_neg fun hCut => hPrefix (List.isPrefixOf_iff_prefix.2 ?_)
      exact (List.isPrefixOf_iff_prefix.1 hCut).trans (List.prefix_append a b)

theorem scan_cutsAt {length? : List Char → Option Nat} (hCuts : CutsAt length? a b) :
    CutsAt (Pattern.scan length?).length? a b := by
  constructor
  · intro n hFound hLength
    obtain ⟨hSome, hPos⟩ := Option.filter_eq_some_iff.1 hFound
    exact Option.filter_eq_some_iff.2 ⟨hCuts.found hSome hLength, hPos⟩
  · intro hNone
    rw [Pattern.length?] at hNone ⊢
    cases hSome : length? (a ++ b) with
    | none => rw [hCuts.absent hSome]; rfl
    | some n =>
      rw [hSome, Option.filter_some] at hNone
      split at hNone
      · cases hNone
      · next hZero =>
        have hLe : n ≤ 0 := Nat.le_of_not_lt fun h => hZero (Nat.blt_eq.mpr h)
        rw [hCuts.found hSome (Nat.le_trans hLe (Nat.zero_le _)), Option.filter_some, if_neg hZero]

/-! ### Phrases -/

theorem continuesWord_drop {words : List String}
    (hFound : furtherWordsLength? words cs = some n) : continuesWord (cs.drop n) = false := by
  induction words generalizing cs n with
  | nil =>
    rw [furtherWordsLength?_nil hFound]
    exact continuesWord_of_furtherWordsLength? hFound
  | cons word words ih =>
    obtain ⟨gap, w, rest, further, rfl, -, -, -, hFurther, rfl⟩ :=
      exists_of_furtherWordsLength?_cons hFound
    rw [← List.drop_drop, ← List.drop_drop, List.drop_left, List.drop_left]
    exact ih hFurther

/-- A phrase ends in a letter. -/
theorem endsIn_of_sameWord {word : String} {words : List String} {w rest : List Char}
    (hWord : IsPhraseWord word) (hWords : ∀ word ∈ words, IsPhraseWord word)
    (hSame : Text.sameWord word.toList w = true)
    (hFurther : furtherWordsLength? words rest = some n) (before : List Char) :
    EndsIn Text.isWordStart (before ++ (w ++ rest)) (before.length + w.length + n) := by
  induction words generalizing word w rest n before with
  | nil =>
    rw [furtherWordsLength?_nil hFurther]
    intro c hc
    have hTake : (before ++ (w ++ rest)).take (before.length + w.length + 0) = before ++ w := by
      rw [← List.append_assoc]
      exact List.take_left' (by simp)
    obtain ⟨hNe, hStart⟩ := hWord.of_sameWord hSame
    rw [hTake, List.getLast?_append_of_ne_nil _ hNe] at hc
    exact hStart c (List.mem_of_getLast? hc)
  | cons next words ih =>
    obtain ⟨hNext, hWords⟩ := List.forall_mem_cons.1 hWords
    obtain ⟨gap, w', rest, further, rfl, -, -, hSame', hFurther', rfl⟩ :=
      exists_of_furtherWordsLength?_cons hFurther
    have hEnds := ih hNext hWords hSame' hFurther' (before ++ (w ++ gap))
    simpa only [List.append_assoc, List.length_append, Nat.add_assoc] using hEnds

theorem words_cutsAt {word : String} {words : List String} (hWord : IsPhraseWord word)
    (hWords : ∀ word ∈ words, IsPhraseWord word) (hApart : Apart a b) :
    CutsAt (Pattern.words (word :: words)).length? a b := by
  refine .of_some (fun hFound hLength => ?_) fun hFound hNone => ?_
  · obtain ⟨w, rest, further, hText, hSame, hFurther, rfl⟩ := wordsLength?_cons_iff.1 hFound
    obtain ⟨z, rfl, rfl⟩ := exists_append_of_append_eq hText (by omega)
    rw [List.length_append] at hLength
    have hCut := @furtherWordsLength?_congr words z b [] further
      (fun word hMem => (hWords word hMem).1) hFurther (by omega) fun _ => rfl
    rw [List.append_nil] at hCut
    exact wordsLength?_cons_iff.2 ⟨w, z, further, rfl, hSame, hCut, rfl⟩
  · obtain ⟨w, z, further, rfl, hSame, hFurther, rfl⟩ := wordsLength?_cons_iff.1 hFound
    have hStop : further = z.length → continuesWord b = false := by
      intro hEnd
      have hLast := endsIn_of_sameWord hWord hWords hSame hFurther []
      rw [hEnd, List.nil_append, List.length_nil, Nat.zero_add, ← List.length_append] at hLast
      rw [EndsIn, List.take_length] at hLast
      rw [continuesWord_eq_false_iff]
      obtain ⟨hNe, -⟩ := hWord.of_sameWord hSame
      have hText : w ++ z ≠ [] := List.append_ne_nil_of_left_ne_nil hNe z
      have hMem := List.getLast?_eq_some_getLast hText
      exact hApart _ hMem (hLast _ hMem)
    have hLength := furtherWordsLength?_le hFurther
    rw [← List.append_nil z] at hFurther
    have hLonger := furtherWordsLength?_congr (fun word hMem => (hWords word hMem).1) hFurther
      hLength hStop
    have hSome := wordsLength?_cons_iff.2
      ⟨w, z ++ b, further, List.append_assoc w z b, hSame, hLonger, rfl⟩
    exact absurd (hSome.symm.trans hNone) (by simp)

theorem words_breaksAt {word : String} {words : List String}
    (hFound : wordsLength? (word :: words) cs = some n) : BreaksAt cs n := by
  obtain ⟨w, rest, further, rfl, -, hFurther, rfl⟩ := wordsLength?_cons_iff.1 hFound
  intro c _ _ d hd
  rw [← List.drop_drop, List.drop_left] at hd
  exact continuesWord_eq_false_iff.1 (continuesWord_drop hFurther) d hd

theorem literal_breaksAt {text : String}
    (hLast : text.toList.getLast?.any Text.isWordStart = false)
    (hFound : (Pattern.literal text).length? cs = some n) : BreaksAt cs n := by
  rw [Pattern.length?] at hFound
  split at hFound
  · next hPrefix =>
    cases hFound
    intro c hc hStart
    have hTake := List.prefix_iff_eq_take.1 (List.isPrefixOf_iff_prefix.1 hPrefix)
    rw [String.length_toList] at hTake
    rw [← hTake] at hc
    rw [Option.mem_def.1 hc, Option.any_some, hStart] at hLast
    cases hLast
  · cases hFound

end Pattern

/-! ## Rules -/

namespace TokenRule

variable {rules : List TokenRule} {a b lexeme : List Char} {kind? : Option TokenKind}

/-- What a rule takes before a cut. -/
theorem match?_cut {rule : TokenRule} (hCuts : CutsAt rule.pattern.length? a b)
    (hWithin : rule.pattern.Within) (hMatch : rule.match? (a ++ b) = some (lexeme, kind?))
    (hShort : lexeme.length ≤ a.length) : rule.match? a = some (lexeme, kind?) := by
  obtain ⟨n, hFound, rfl, rfl⟩ := match?_eq_some_iff.1 hMatch
  have hLength := hWithin _ _ hFound
  rw [List.length_take_of_le hLength] at hShort
  refine match?_eq_some_iff.2 ⟨n, hCuts.found hFound hShort, ?_, rfl⟩
  exact List.take_append_of_le_length hShort

/-- What the first rule takes that matches before a cut. -/
theorem findSome?_cut (hRules : ∀ rule ∈ rules, CutsAt rule.pattern.length? a b ∧
      rule.pattern.Within)
    (hMatch : rules.findSome? (·.match? (a ++ b)) = some (lexeme, kind?))
    (hShort : lexeme.length ≤ a.length) :
    rules.findSome? (·.match? a) = some (lexeme, kind?) := by
  induction rules with
  | nil => cases hMatch
  | cons rule rules ih =>
    obtain ⟨⟨hCuts, hWithin⟩, hRules⟩ := List.forall_mem_cons.1 hRules
    rw [List.findSome?_cons] at hMatch ⊢
    cases hFound : rule.match? (a ++ b) with
    | none =>
      rw [match?, Option.map_eq_none_iff] at hFound
      have hNone : rule.match? a = none := by
        rw [match?, hCuts.absent hFound]
        rfl
      rw [match?, hFound] at hMatch
      rw [hNone]
      exact ih hRules hMatch
    | some found =>
      rw [hFound] at hMatch
      cases hMatch
      rw [match?_cut hCuts hWithin hFound hShort]

end TokenRule

namespace Dialect

open RuleSet
open Text (Apart BreaksAt)

variable {dialect : Dialect} {rule : TokenRule} {a b cs lexeme rest : List Char} {n : Nat}
  {kind? : Option TokenKind}

/-- The rules of the dialects at a cut between two texts between which no word
goes on. -/
theorem cutsAt_of_mem (hApart : Apart a b) (hMem : rule ∈ dialect.grammar.tokens.rules) :
    CutsAt rule.pattern.length? a b := by
  cases isRule_of_mem hMem with
  | phrase hPhrase =>
    obtain ⟨first, further, keyword, hRule⟩ := exists_isPhrase hPhrase
    rw [hRule.pattern]
    exact Pattern.words_cutsAt hRule.first_word hRule.further_words hApart
  | systemVariable => exact Pattern.scan_cutsAt (Token.scansVariable_system.cutsAt a b)
  | userVariable => exact Pattern.scan_cutsAt (Token.scansVariable_user.cutsAt a b)
  | number => exact Pattern.scan_cutsAt (Token.numberLength?_cutsAt a b)
  | singleText | doubleText => exact Pattern.scan_cutsAt (Token.quotedLength?_cutsAt _ a b)
  | name => exact Pattern.scan_cutsAt (Token.nameLength?_cutsAt a b)
  | mark hMark =>
    obtain ⟨_, _, text, _, rfl⟩ := exists_symbol hMark
    exact Pattern.literal_cutsAt text a b

/-- No rule of the dialects ends within a word. -/
theorem breaksAt_of_mem (hMem : rule ∈ dialect.grammar.tokens.rules)
    (hFound : rule.pattern.length? cs = some n) : BreaksAt cs n := by
  have hScan : ∀ {length? : List Char → Option Nat}, rule.pattern = .scan length? →
      length? cs = some n := by
    intro length? hPattern
    rw [hPattern] at hFound
    exact (Option.filter_eq_some_iff.1 hFound).1
  cases isRule_of_mem hMem with
  | phrase hPhrase =>
    obtain ⟨first, further, keyword, hRule⟩ := exists_isPhrase hPhrase
    rw [hRule.pattern] at hFound
    exact Pattern.words_breaksAt hFound
  | systemVariable => exact Token.scansVariable_system.breaksAt (hScan rfl)
  | userVariable => exact Token.scansVariable_user.breaksAt (hScan rfl)
  | number =>
    exact (Token.numberLength?_endsIn (hScan rfl)).breaksAt fun _ => Text.isWordStart_of_isDigit
  | singleText | doubleText => exact Token.quotedLength?_breaksAt (by decide) (hScan rfl)
  | name => exact Token.nameLength?_breaksAt (hScan rfl)
  | mark hMark =>
    simp only [marks, List.mem_cons, List.not_mem_nil, or_false] at hMark
    rcases hMark with rfl | rfl | rfl | rfl | rfl | rfl | rfl | rfl | rfl | rfl | rfl | rfl | rfl |
      rfl | rfl | rfl | rfl | rfl <;> exact Pattern.literal_breaksAt (by decide) hFound

/-- No word goes on behind a lexeme. -/
theorem apart_of_first? (hMatch : dialect.grammar.tokens.first? (lexeme ++ rest) =
    some (lexeme, kind?)) : Apart lexeme rest := by
  obtain ⟨rule, hMem, hRule⟩ := List.exists_of_findSome?_eq_some hMatch
  obtain ⟨n, hFound, hLexeme, -⟩ := TokenRule.match?_eq_some_iff.1 hRule
  have hBreaks := breaksAt_of_mem hMem hFound
  have hLength : n = lexeme.length := by
    rw [hLexeme, List.length_take_of_le (within_of_mem hMem _ _ hFound)]
  rw [BreaksAt, hLength, List.take_left, List.drop_left] at hBreaks
  exact hBreaks

/-- The lexeme at the beginning of a text is the same where the text is cut off
behind it, unless the cut is in a word. -/
theorem first?_cut (hApart : Apart a b)
    (hMatch : dialect.grammar.tokens.first? (a ++ b) = some (lexeme, kind?))
    (hShort : lexeme.length ≤ a.length) :
    dialect.grammar.tokens.first? a = some (lexeme, kind?) :=
  TokenRule.findSome?_cut (fun _ hMem => ⟨cutsAt_of_mem hApart hMem, within_of_mem hMem⟩) hMatch
    hShort

end Dialect

end SqlQuery
