import SqlQuery.Proofs.Partition

/-!
# The progress of the lexer

A reading of a token that is not the end takes some of the text, so that the
text comes to its end after so many readings.  Whether it does depends on the
rule that decides: a scanner that takes nothing is no match, but an empty fixed
text and a phrase of no words or of one empty word match everywhere they may,
and they take nothing.  A lexer at such a match stays where it is and finds the
same token over and over; nothing else keeps it from the end.

`Lexer.tokenize` gives up after one reading more than there are characters.  It
does so exactly where a lexer without a limit would not come to an end.

## Main definitions

* `Pattern.Hollow` — the patterns that match and take nothing.
* `Lexer.decider?` — the rule that decides at a place.
* `Lexer.Ends` — the readings of a lexer come to an end.
* `Lexer.Stalls` — a hollow pattern decides, and not for the end of the input.

## Main results

* `Pattern.hollow_iff` — a match takes nothing exactly if its pattern is hollow.
* `Lexer.ends_iff` — the readings end unless the lexer comes to a place where it
  stalls.
* `RuleSet.progress` — progress and termination for all rules and texts.
-/

namespace SqlQuery

/-! ## Hollow patterns -/

namespace Pattern

variable {pattern : Pattern} {cs : List Char} {length : Nat}

/-- The patterns that match and take nothing: a phrase of no words, one of an
empty word, and an empty fixed text. -/
def Hollow : Pattern → Prop
  | .words list => list = [] ∨ list = [""]
  | .literal text => text = ""
  | .scan _ => False

instance (pattern : Pattern) : Decidable pattern.Hollow :=
  match pattern with
  | .words list => inferInstanceAs (Decidable (list = [] ∨ list = [""]))
  | .literal text => inferInstanceAs (Decidable (text = ""))
  | .scan _ => inferInstanceAs (Decidable False)

/-- A phrase takes nothing if it has no words beyond an empty one: before each
further word it takes a blank. -/
theorem hollow_words_iff {list : List String} (hLength : wordsLength? list cs = some length) :
    (Pattern.words list).Hollow ↔ length = 0 := by
  cases list with
  | nil =>
    have hZero := furtherWordsLength?_nil hLength
    exact ⟨fun _ => hZero, fun _ => Or.inl rfl⟩
  | cons word words =>
    obtain ⟨a, rest, further, rfl, hSame, hFurther, rfl⟩ := wordsLength?_cons_iff.1 hLength
    have hWord : word.toList.length = a.length := by
      have hMap := congrArg List.length (eq_of_beq hSame)
      simpa using hMap
    constructor
    · rintro (hNone | hEmpty)
      · cases hNone
      · cases hEmpty
        rw [furtherWordsLength?_nil hFurther, ← hWord]
        rfl
    · intro hZero
      have hEmpty : word = "" := String.toList_injective (List.length_eq_zero_iff.1 (by omega))
      cases words with
      | nil => exact Or.inr (by rw [hEmpty])
      | cons second words =>
        obtain ⟨gap, b, rest, more, -, hGap, -, -, -, rfl⟩ :=
          exists_of_furtherWordsLength?_cons hFurther
        have := List.length_pos_iff.2 hGap
        omega

/-- **A match takes nothing** exactly if its pattern is hollow. -/
theorem hollow_iff (hLength : pattern.length? cs = some length) : pattern.Hollow ↔ length = 0 := by
  cases pattern with
  | words list => exact hollow_words_iff hLength
  | literal text =>
    rw [Pattern.length?] at hLength
    split at hLength <;> cases hLength
    exact ⟨fun hEmpty => by rw [hEmpty]; rfl, fun hZero => String.length_eq_zero_iff.1 hZero⟩
  | scan length? =>
    obtain ⟨-, hPos⟩ := Option.filter_eq_some_iff.1 hLength
    have hNot : length ≠ 0 := Nat.ne_of_gt (Nat.blt_eq ▸ hPos)
    exact ⟨False.elim, hNot⟩

end Pattern

/-! ## One reading -/

namespace Lexer

variable {lexer after : Lexer} {token : Token} {rule : TokenRule}

/-- The rule that decides what stands behind the gap: the first one that
matches. -/
def decider? (lexer : Lexer) : Option TokenRule :=
  lexer.rules.rules.find? fun rule => (rule.match? lexer.skip.rest).isSome

/-- Behind a gap there is nothing more to pass over. -/
theorem skip_skip (lexer : Lexer) : lexer.skip.skip = lexer.skip := by
  obtain ⟨gap, rest, hText, hLength, hEnd, -⟩ := Text.exists_gap lexer.rest
  have hRest : lexer.skip.rest = rest := by
    rw [skip, advance, hLength, hText, List.drop_left]
  rw [skip, hRest, hEnd]
  simp [advance]

/-- What a successful reading makes of a text: the deciding rule takes as much of
it as its pattern matches. -/
theorem exists_decider (hNext : lexer.next = (.ok token, after)) (hText : lexer.skip.rest ≠ []) :
    ∃ rule length, lexer.decider? = some rule ∧
      rule.pattern.length? lexer.skip.rest = some length ∧
      rule.reading.apply (lexer.skip.rest.take length) = some token.kind ∧
      after = lexer.skip.advance (lexer.skip.rest.take length).length := by
  rw [next, read, if_neg (by simpa using hText)] at hNext
  split at hNext
  · next lexeme kind hMatch =>
    cases hNext
    obtain ⟨front, rule, back, hRules, hRule, hFront⟩ := List.findSome?_eq_some_iff.1 hMatch
    obtain ⟨length, hLength, rfl, hKind⟩ := TokenRule.match?_eq_some_iff.1 hRule
    refine ⟨rule, length, List.find?_eq_some_iff_append.2 ⟨by rw [hRule]; rfl, front, back, hRules,
      fun other hMem => by rw [hFront other hMem]; rfl⟩, hLength, hKind.symm, rfl⟩
  · cases hNext
  · cases hNext

/-- A reading by a pattern that is not hollow takes some of the text. -/
theorem progress_of_not_hollow (hNext : lexer.next = (.ok token, after))
    (hText : lexer.skip.rest ≠ []) (hRule : lexer.decider? = some rule)
    (hHollow : ¬rule.pattern.Hollow) :
    lexer.position < after.position ∧ after.rest.length < lexer.rest.length := by
  obtain ⟨rule', length, hRule', hLength, -, rfl⟩ := exists_decider hNext hText
  cases hRule.symm.trans hRule'
  have hPos : length ≠ 0 := fun hZero => hHollow ((Pattern.hollow_iff hLength).2 hZero)
  have hTake : lexer.skip.rest.take length ≠ [] := by
    rw [Ne, List.take_eq_nil_iff, not_or]
    exact ⟨hPos, hText⟩
  have hBytes := Text.byteLength_pos_of_ne_nil hTake
  have hChars := List.length_pos_iff.2 hTake
  have hGap : lexer.position ≤ lexer.skip.position := Nat.le_add_right _ _
  have hSkip : lexer.skip.rest.length ≤ lexer.rest.length := by
    rw [skip, advance, List.length_drop]
    omega
  have hPrefix := (List.take_prefix length lexer.skip.rest).length_le
  constructor
  · show lexer.position < lexer.skip.position +
      Text.byteLength (lexer.skip.rest.take (lexer.skip.rest.take length).length)
    rw [← List.prefix_iff_eq_take.1 (List.take_prefix length lexer.skip.rest)]
    omega
  · show (lexer.skip.rest.drop (lexer.skip.rest.take length).length).length < lexer.rest.length
    rw [List.length_drop]
    omega

/-- A reading by a hollow pattern leaves the lexer behind the gap, and there it
finds the same token again. -/
theorem stays_of_hollow (hNext : lexer.next = (.ok token, after)) (hText : lexer.skip.rest ≠ [])
    (hRule : lexer.decider? = some rule) (hHollow : rule.pattern.Hollow) :
    after = lexer.skip ∧ after.next = (.ok token, after) := by
  obtain ⟨rule', length, hRule', hLength, -, hAfter⟩ := exists_decider hNext hText
  cases hRule.symm.trans hRule'
  obtain rfl := (Pattern.hollow_iff hLength).1 hHollow
  have hStay : after = lexer.skip := by
    rw [hAfter]
    simp [advance]
  subst hStay
  exact ⟨rfl, by rw [next, skip_skip]; exact hNext⟩

/-- At the end of a text the end of the input is found. -/
theorem kind_of_skip_nil (hNext : lexer.next = (.ok token, after)) (hText : lexer.skip.rest = []) :
    token.kind = .finish := by
  rw [next, read, if_pos (by simpa using hText)] at hNext
  cases hNext
  rfl

theorem rules_next (hNext : lexer.next = (.ok token, after)) : after.rules = lexer.rules := by
  rw [next, read] at hNext
  split at hNext
  · cases hNext
    rfl
  · split at hNext <;> cases hNext
    rfl

end Lexer

/-! ## All readings -/

namespace Lexer

variable {lexer after last : Lexer} {token : Token} {rule : TokenRule}

/-- The readings of a lexer come to an end: to a failure or to the end of the
input. -/
inductive Ends : Lexer → Prop
  | failed {lexer after : Lexer} {e : LexicalError} (hNext : lexer.next = (.error e, after)) :
    Ends lexer
  | finished {lexer after : Lexer} {token : Token} (hNext : lexer.next = (.ok token, after))
      (hKind : token.kind = .finish) :
    Ends lexer
  | step {lexer after : Lexer} {token : Token} (hNext : lexer.next = (.ok token, after))
      (hRest : Ends after) :
    Ends lexer

/-- A lexer comes to another by readings that do not find the end. -/
inductive Reaches : Lexer → Lexer → Prop
  | here (lexer : Lexer) : Reaches lexer lexer
  | step {lexer after last : Lexer} {token : Token} (hNext : lexer.next = (.ok token, after))
      (hKind : token.kind ≠ .finish) (hRest : Reaches after last) :
    Reaches lexer last

/-- A hollow pattern decides, and what it finds is not the end of the input. -/
def Stalls (lexer : Lexer) : Prop :=
  lexer.skip.rest ≠ [] ∧ ∃ rule kind, lexer.decider? = some rule ∧ rule.pattern.Hollow ∧
    rule.reading.apply [] = some kind ∧ kind ≠ .finish

/-- Where a reading is made by a hollow pattern, the lexer stalls. -/
theorem stalls_of_hollow (hNext : lexer.next = (.ok token, after)) (hText : lexer.skip.rest ≠ [])
    (hKind : token.kind ≠ .finish) (hRule : lexer.decider? = some rule)
    (hHollow : rule.pattern.Hollow) : lexer.Stalls := by
  obtain ⟨rule', length, hRule', hLength, hApply, -⟩ := exists_decider hNext hText
  cases hRule.symm.trans hRule'
  obtain rfl := (Pattern.hollow_iff hLength).1 hHollow
  exact ⟨hText, rule, token.kind, hRule, hHollow, hApply, hKind⟩

/-- A token before the end that is found without stalling leaves a shorter text. -/
theorem rest_lt_of_not_stalls (hNext : lexer.next = (.ok token, after))
    (hKind : token.kind ≠ .finish) (hStalls : ¬lexer.Stalls) :
    after.rest.length < lexer.rest.length := by
  have hText : lexer.skip.rest ≠ [] := fun hEnd => hKind (kind_of_skip_nil hNext hEnd)
  obtain ⟨rule, length, hRule, -⟩ := exists_decider hNext hText
  have hHollow : ¬rule.pattern.Hollow := fun hHollow =>
    hStalls (stalls_of_hollow hNext hText hKind hRule hHollow)
  exact (progress_of_not_hollow hNext hText hRule hHollow).2

/-- A lexer that stalls finds a token, and stays behind the gap. -/
theorem Stalls.next (hStalls : lexer.Stalls) :
    ∃ token, lexer.next = (.ok token, lexer.skip) ∧ lexer.skip.next = (.ok token, lexer.skip) ∧
      token.kind ≠ .finish := by
  obtain ⟨hText, rule, kind, hRule, hHollow, hKind, hFinish⟩ := hStalls
  obtain ⟨hSome, front, back, hRules, hFront⟩ := List.find?_eq_some_iff_append.1 hRule
  obtain ⟨⟨lexeme, kind?⟩, hMatch⟩ := Option.isSome_iff_exists.1 hSome
  obtain ⟨length, hLength, rfl, rfl⟩ := TokenRule.match?_eq_some_iff.1 hMatch
  obtain rfl := (Pattern.hollow_iff hLength).1 hHollow
  have hFirst : lexer.skip.firstMatch? = some ([], some kind) := by
    rw [List.take_zero, hKind] at hMatch
    refine List.findSome?_eq_some_iff.2 ⟨front, rule, back, hRules, hMatch, fun other hMem => ?_⟩
    simpa using hFront other hMem
  have hNext : lexer.next =
      (.ok ⟨kind, lexer.skip.spanOf [], ""⟩, lexer.skip.advance 0) := by
    rw [Lexer.next, read, if_neg (by simpa using hText), hFirst]
    rfl
  obtain ⟨hStay, hAgain⟩ := stays_of_hollow hNext hText hRule hHollow
  rw [hStay] at hNext hAgain
  exact ⟨_, hNext, hAgain, hFinish⟩

/-- A lexer that stays where it is and does not find the end never ends. -/
theorem not_ends_of_next_self (hNext : lexer.next = (.ok token, lexer))
    (hKind : token.kind ≠ .finish) : ¬lexer.Ends := by
  intro hEnds
  induction hEnds with
  | failed hFailed => cases hNext.symm.trans hFailed
  | finished hFinished hFinish =>
    cases hNext.symm.trans hFinished
    exact hKind hFinish
  | step hStep _ ih =>
    cases hNext.symm.trans hStep
    exact ih hNext

/-- What a lexer comes to has an end if the lexer has. -/
theorem Ends.of_reaches (hEnds : lexer.Ends) (hReaches : lexer.Reaches last) : last.Ends := by
  induction hReaches with
  | here => exact hEnds
  | step hNext hKind _ ih =>
    cases hEnds with
    | failed hFailed => cases hNext.symm.trans hFailed
    | finished hFinished hFinish =>
      cases hNext.symm.trans hFinished
      exact absurd hFinish hKind
    | step hStep hRest =>
      cases hNext.symm.trans hStep
      exact ih hRest

/-- **The readings of a lexer end** unless it comes to a place where it stalls. -/
theorem ends_iff : lexer.Ends ↔ ∀ last, lexer.Reaches last → ¬last.Stalls := by
  constructor
  · intro hEnds last hReaches hStalls
    obtain ⟨token, hNext, hAgain, hKind⟩ := hStalls.next
    exact not_ends_of_next_self hAgain hKind
      ((hEnds.of_reaches hReaches).of_reaches (.step hNext hKind (.here _)))
  · intro hNever
    induction hLength : lexer.rest.length using Nat.strong_induction_on generalizing lexer with
    | _ length ih =>
      subst hLength
      cases hNext : lexer.next with
      | mk reply after =>
        cases reply with
        | error e => exact .failed hNext
        | ok token =>
          by_cases hKind : token.kind = .finish
          · exact .finished hNext hKind
          have hShorter := rest_lt_of_not_stalls hNext hKind (hNever lexer (.here lexer))
          refine .step hNext (ih _ hShorter (fun last hReaches => ?_) rfl)
          exact hNever last (.step hNext hKind hReaches)

/-- No reading reports that the lexer stalls. -/
theorem next_ne_stalled (lexer : Lexer) (position : Nat) :
    lexer.next ≠ (.error (.stalled position), after) := by
  intro hNext
  rw [next, read] at hNext
  split at hNext
  · cases hNext
  · split at hNext <;> cases hNext

/-- Readings without an end exhaust every limit. -/
theorem exists_stalled_of_not_ends (hEnds : ¬lexer.Ends) (limit : Nat) :
    ∃ position, lexer.tokenizeWithin limit = .error (.stalled position) := by
  induction limit generalizing lexer with
  | zero => exact ⟨lexer.position, rfl⟩
  | succ limit ih =>
    cases hNext : lexer.next with
    | mk reply after =>
      cases reply with
      | error e => exact absurd (.failed hNext) hEnds
      | ok token =>
        have hKind : ¬token.kind.isFinish = true := fun hFinish =>
          hEnds (.finished hNext (TokenKind.isFinish_iff.1 hFinish))
        obtain ⟨position, hRest⟩ := ih fun hRest => hEnds (.step hNext hRest)
        refine ⟨position, ?_⟩
        rw [tokenizeWithin, hNext]
        dsimp only
        rw [if_neg hKind, hRest]
        rfl

/-- Readings with an end need no more than one for each character and one
more. -/
theorem tokenizeWithin_ne_stalled (hEnds : lexer.Ends) {limit : Nat}
    (hLimit : lexer.rest.length < limit) (position : Nat) :
    lexer.tokenizeWithin limit ≠ .error (.stalled position) := by
  induction limit generalizing lexer with
  | zero => omega
  | succ limit ih =>
    intro hStalled
    rw [tokenizeWithin] at hStalled
    split at hStalled
    · next hNext =>
      cases hStalled
      exact next_ne_stalled _ _ hNext
    · next token after hNext =>
      split at hStalled
      · cases hStalled
      · next hKind =>
        rw [TokenKind.isFinish_iff] at hKind
        have hShorter :=
          rest_lt_of_not_stalls hNext hKind (ends_iff.1 hEnds lexer (.here lexer))
        have hRest := hEnds.of_reaches (.step hNext hKind (.here after))
        cases hTokens : after.tokenizeWithin limit with
        | ok stream => rw [hTokens] at hStalled; cases hStalled
        | error e =>
          rw [hTokens] at hStalled
          cases hStalled
          exact ih hRest (by omega) hTokens

theorem mem_of_decider (hRule : lexer.decider? = some rule) : rule ∈ lexer.rules.rules :=
  List.mem_of_find?_eq_some hRule

theorem Reaches.rules_eq (hReaches : lexer.Reaches last) : last.rules = lexer.rules := by
  induction hReaches with
  | here => rfl
  | step hNext _ _ ih => exact ih.trans (rules_next hNext)

/-- Without hollow patterns all readings end. -/
theorem ends_of_forall_not_hollow (hRules : ∀ rule ∈ lexer.rules.rules, ¬rule.pattern.Hollow) :
    lexer.Ends := by
  refine ends_iff.2 fun last hReaches hStalls => ?_
  obtain ⟨-, rule, kind, hRule, hHollow, -⟩ := hStalls
  exact hRules rule (hReaches.rules_eq ▸ mem_of_decider hRule) hHollow

/-- The limit of `tokenize` is exhausted exactly if there is no end. -/
theorem ends_iff_tokenize :
    lexer.Ends ↔ ∀ position, lexer.tokenize ≠ .error (.stalled position) := by
  constructor
  · exact fun hEnds position => tokenizeWithin_ne_stalled hEnds (Nat.lt_succ_self _) position
  · intro hTokens
    by_contra hEnds
    obtain ⟨position, hStalled⟩ := exists_stalled_of_not_ends hEnds (lexer.rest.length + 1)
    exact hTokens position hStalled

end Lexer

/-- **Progress and termination.**  Whatever the rules, a reading that is not at the
end of the text moves the position on, unless the pattern of the rule that
decides is hollow: then the lexer stays behind the gap and finds the same token
again.  The readings of a text come to an end unless the lexer comes to a place
where it stalls in this way, and always if no pattern is hollow. -/
theorem RuleSet.progress (rules : RuleSet) :
    (∀ (lexer after : Lexer) (token : Token), lexer.rules = rules →
      lexer.next = (.ok token, after) → lexer.skip.rest ≠ [] →
      ∃ rule ∈ rules.rules, lexer.decider? = some rule ∧
        (¬rule.pattern.Hollow → lexer.position < after.position) ∧
        (rule.pattern.Hollow → after = lexer.skip ∧ after.next = (.ok token, after))) ∧
    ∀ source : String,
      ((Lexer.start rules source).Ends ↔
        ∀ position, rules.tokenize source ≠ .error (.stalled position)) ∧
      ((Lexer.start rules source).Ends ↔
        ∀ lexer, (Lexer.start rules source).Reaches lexer → ¬lexer.Stalls) ∧
      ((∀ rule ∈ rules.rules, ¬rule.pattern.Hollow) → (Lexer.start rules source).Ends) := by
  constructor
  · rintro lexer after token rfl hNext hText
    obtain ⟨rule, _, hRule, -⟩ := Lexer.exists_decider hNext hText
    exact ⟨rule, Lexer.mem_of_decider hRule, hRule,
      fun hHollow => (Lexer.progress_of_not_hollow hNext hText hRule hHollow).1,
      Lexer.stays_of_hollow hNext hText hRule⟩
  · exact fun source => ⟨Lexer.ends_iff_tokenize, Lexer.ends_iff,
      @Lexer.ends_of_forall_not_hollow (.start rules source)⟩

/-- The rules of a dialect have no hollow patterns, so that a comment without an
end does not keep the lexer from the end. -/
theorem RuleSet.progress_mysql :
    (∀ rule ∈ Grammar.mysql.tokens.rules, ¬rule.pattern.Hollow) ∧
      (Lexer.start Grammar.mysql.tokens "-- ü\n@a /* b").Ends ∧
      (Lexer.start Grammar.mysql.tokens "-- ü\n@a /* b").next.1 =
        .ok ⟨.userVariable "a", ⟨6, 8⟩, "@a"⟩ ∧
      0 < (Lexer.start Grammar.mysql.tokens "-- ü\n@a /* b").next.2.position := by
  have hHollow : ∀ rule ∈ Grammar.mysql.tokens.rules, ¬rule.pattern.Hollow := by
    decide +kernel
  have hFound : (Lexer.start Grammar.mysql.tokens "-- ü\n@a /* b").next.1 =
      .ok ⟨.userVariable "a", ⟨6, 8⟩, "@a"⟩ := by
    decide +kernel
  obtain ⟨hStep, hRun⟩ := RuleSet.progress Grammar.mysql.tokens
  obtain ⟨rule, hMem, -, hMoves, -⟩ :=
    hStep (Lexer.start Grammar.mysql.tokens "-- ü\n@a /* b") _ _ rfl (Prod.ext hFound rfl)
      (by decide +kernel)
  exact ⟨hHollow, (hRun _).2.2 hHollow, hFound, hMoves (hHollow rule hMem)⟩

/-- A rule for an empty mark. -/
def RuleSet.emptyMark : RuleSet := .ofRules [.symbol "NOTHING" 50 "" .plus]

/-- Under a rule for an empty mark the lexer finds the mark in front of a letter,
stays there, and never comes to the end. -/
theorem RuleSet.not_ends_emptyMark :
    (Lexer.start emptyMark "a").skip.rest ≠ [] ∧
      (Lexer.start emptyMark "a").next = (.ok ⟨.plus, ⟨0, 0⟩, ""⟩, Lexer.start emptyMark "a") ∧
      ¬(Lexer.start emptyMark "a").Ends ∧
      emptyMark.tokenize "a" = .error (.stalled 0) := by
  have hNext : (Lexer.start emptyMark "a").next =
      (.ok ⟨.plus, ⟨0, 0⟩, ""⟩, Lexer.start emptyMark "a") := rfl
  exact ⟨by decide, hNext, Lexer.not_ends_of_next_self hNext (by decide), by decide +kernel⟩

end SqlQuery
