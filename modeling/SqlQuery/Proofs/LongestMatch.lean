import SqlQuery.Proofs.Writing

/-!
# Priority order is longest match

The lexer asks its rules in the order of their priorities and takes the first
one that matches.  Nothing compares the lengths of the matches; that the first
match is also a longest one is a property of the priorities that the rules were
given.  It is proved here rule against rule: each rule *outruns* those after
it, which means that wherever both match, the earlier one takes at least as
much.

Most pairs never match the same text, since their texts start with different
characters.  Three sorts of pairs are left: two phrases, a phrase and a name,
and two marks.

## Main definitions

* `TokenRule.Outruns` — one rule takes at least as much as another.

## Main results

* `Dialect.pairwise_outruns` — the rules of a dialect outrun those after them.
* `Dialect.longest_match` — the first rule that matches takes a longest match.
-/

namespace SqlQuery

/-! ## First characters -/

namespace Text

/-- The sorts of characters that the lexemes start with. -/
inductive HeadSort where
  | digit | word | singleQuote | doubleQuote | sign | mark | other
deriving DecidableEq

/-- The sort of a character. -/
def headSort (c : Char) : HeadSort :=
  if c.isDigit then .digit
  else if isWordStart c || c == Token.backtick then .word
  else if c == '\x27' then .singleQuote
  else if c == '\x22' then .doubleQuote
  else if c == '@' then .sign
  else if c ∈ RuleSet.markHeads then .mark
  else .other

variable {c : Char}

theorem headSort_of_isDigit (hDigit : c.isDigit = true) : headSort c = .digit := if_pos hDigit

theorem headSort_of_isWordStart (hStart : isWordStart c = true) : headSort c = .word := by
  rw [headSort, (Dialect.other_of_isWordStart hStart).2.1, if_neg Bool.false_ne_true, hStart]
  rfl

theorem headSort_of_mem_markHeads (hMark : c ∈ RuleSet.markHeads) : headSort c = .mark := by
  have hAll : RuleSet.markHeads.all (fun d => headSort d = .mark) = true := by decide
  exact of_decide_eq_true (List.all_eq_true.1 hAll c hMark)

end Text

/-! ## One rule against another -/

namespace TokenRule

/-- Wherever both rules match, the first takes at least as much as the second. -/
def Outruns (first second : TokenRule) : Prop :=
  ∀ c cs taken other kind? kind?', first.match? (c :: cs) = some (taken, kind?) →
    second.match? (c :: cs) = some (other, kind?') → other <+: taken

variable {a b : TokenRule}

/-- A rule whose texts all start with one sort of characters. -/
def Opens (rule : TokenRule) (sort : Text.HeadSort) : Prop :=
  ∀ c, Text.headSort c ≠ sort → rule.Shuns c

/-- Rules whose texts start with different sorts of characters never meet. -/
theorem Opens.outruns {sort sort' : Text.HeadSort} (hFirst : a.Opens sort) (hSecond : b.Opens sort')
    (hApart : sort ≠ sort') : a.Outruns b := by
  intro c cs taken other kind? kind?' hTaken hOther
  by_cases hSort : Text.headSort c = sort
  · rw [hSecond c (hSort ▸ hApart) cs] at hOther
    cases hOther
  · rw [hFirst c hSort cs] at hTaken
    cases hTaken

/-- What a rule for a fixed text takes. -/
theorem eq_of_literal {rule : TokenRule} {text : String} {cs lexeme : List Char}
    {kind? : Option TokenKind} (hPattern : rule.pattern = .literal text)
    (hMatch : rule.match? cs = some (lexeme, kind?)) :
    lexeme = text.toList ∧ text.toList <+: cs := by
  obtain ⟨length, hLength, rfl, -⟩ := match?_eq_some_iff.1 hMatch
  rw [hPattern, Pattern.length?] at hLength
  split at hLength
  · next hPrefix =>
    cases hLength
    have hPrefix := List.isPrefixOf_iff_prefix.1 hPrefix
    rw [← String.length_toList]
    exact ⟨(List.prefix_iff_eq_take.1 hPrefix).symm, hPrefix⟩
  · cases hLength

/-- A fixed text outruns those that are not longer. -/
theorem outruns_of_literal {text text' : String} (hFirst : a.pattern = .literal text)
    (hSecond : b.pattern = .literal text') (hLength : text'.length ≤ text.length) :
    a.Outruns b := by
  intro c cs taken other kind? kind?' hTaken hOther
  obtain ⟨rfl, hStart⟩ := eq_of_literal hFirst hTaken
  obtain ⟨rfl, hStart'⟩ := eq_of_literal hSecond hOther
  rw [← String.length_toList, ← String.length_toList] at hLength
  exact List.prefix_of_prefix_length_le hStart' hStart hLength

end TokenRule

namespace RuleSet

open TokenRule

/-- Two phrases that match the same text take the same part of it. -/
theorem outruns_phrase {a b : TokenRule} (hFirst : a ∈ phrases) (hSecond : b ∈ phrases) :
    a.Outruns b := by
  intro c cs taken other kind? kind?' hTaken hOther
  obtain ⟨rfl, -⟩ := Prod.mk.inj (match?_unique hFirst hSecond hTaken hOther)
  exact List.prefix_rfl

/-- A name stops after the first word of a phrase: what follows the word there
is a blank. -/
theorem outruns_name {rule : TokenRule} (hMem : rule ∈ phrases) : rule.Outruns nameRule := by
  intro c cs taken other kind? kind?' hPhrase hName
  obtain ⟨first, further, keyword, hRule⟩ := exists_isPhrase hMem
  obtain ⟨word, rest, length, hText, hSame, hFurther, rfl, -⟩ := hRule.match?_eq_some_iff.1 hPhrase
  obtain ⟨d, word, rfl, hStart, -⟩ := hRule.first_word.head_of_sameWord hSame
  have hWord : ∀ e ∈ word, Text.isWordChar e = true := fun e hMem =>
    Text.isWordChar_of_isWordStart
      ((hRule.first_word.of_sameWord hSame).2 e (List.mem_cons_of_mem _ hMem))
  have hStop : ∀ e ∈ rest.head?, Text.isWordChar e = false ∧ e ≠ '.' := by
    obtain ⟨next, further, rfl⟩ := List.exists_cons_of_ne_nil hRule.further_ne_nil
    obtain ⟨gap, b, after, more, rfl, hGap, hBlank, -⟩ :=
      Pattern.exists_of_furtherWordsLength?_cons hFurther
    obtain ⟨e, gap, rfl⟩ := List.exists_cons_of_ne_nil hGap
    intro e' hHead
    cases hHead
    have hBlank := hBlank e List.mem_cons_self
    refine ⟨Text.isWordChar_of_isBlank hBlank, ?_⟩
    rintro rfl
    exact absurd hBlank (by decide)
  have hLength : Token.nameLength? (d :: word ++ rest) = some (d :: word).length :=
    Token.nameLength?_append (.single (.bare hStart hWord)) hStop
  obtain ⟨found, hFound, rfl, -⟩ := match?_eq_some_iff.1 hName
  obtain ⟨hFound, -⟩ := Option.filter_eq_some_iff.1 hFound
  rw [hText, hLength] at hFound
  cases hFound
  exact List.take_prefix_take_left (Nat.le_add_right _ _)

theorem pairwise_outruns_phrases : phrases.Pairwise Outruns :=
  List.pairwise_of_forall_mem_list fun _ hFirst _ hSecond => outruns_phrase hFirst hSecond

/-- The number of characters that a mark takes. -/
def markLength (rule : TokenRule) : Nat :=
  match rule.pattern with
  | .literal text => text.length
  | _ => 0

theorem exists_literal_of_mem_marks {rule : TokenRule} (hMem : rule ∈ marks) :
    ∃ text, rule.pattern = .literal text := by
  simp only [marks, List.mem_cons, List.not_mem_nil, or_false] at hMem
  rcases hMem with rfl | rfl | rfl | rfl | rfl | rfl | rfl | rfl | rfl | rfl | rfl | rfl | rfl |
    rfl | rfl | rfl | rfl | rfl <;> exact ⟨_, rfl⟩

/-- Marks of two characters come before those of one. -/
theorem pairwise_outruns_marks : marks.Pairwise Outruns := by
  have hFalling : marks.Pairwise fun a b => markLength b ≤ markLength a := by decide
  refine hFalling.imp_of_mem fun {a b} hFirst hSecond hLength => ?_
  obtain ⟨text, hText⟩ := exists_literal_of_mem_marks hFirst
  obtain ⟨text', hText'⟩ := exists_literal_of_mem_marks hSecond
  rw [markLength, markLength, hText, hText'] at hLength
  exact outruns_of_literal hText hText' hLength

/-- The rules for variables never meet: a name that follows one at sign does
not start with another. -/
theorem outruns_variable : systemVariable.Outruns userVariable := by
  intro c cs taken other kind? kind?' hTaken hOther
  obtain ⟨length, hSystem, -⟩ := match?_eq_some_iff.1 hTaken
  obtain ⟨length', hUser, -⟩ := match?_eq_some_iff.1 hOther
  replace hSystem := (Option.filter_eq_some_iff.1 hSystem).1
  replace hUser := (Option.filter_eq_some_iff.1 hUser).1
  unfold Token.systemVariableLength? at hSystem
  split at hSystem
  · next rest hText =>
    have hNone : Token.userVariableLength? ('@' :: '@' :: rest) = none := by
      have hSign : ¬Token.isVariableChar '@' = true := by decide
      rw [Token.userVariableLength?, Token.variableNameLength, List.takeWhile_cons, if_neg hSign]
      rfl
    rw [hText, hNone] at hUser
    cases hUser
  · cases hSystem

/-! ## The sort of each rule -/

open Text (HeadSort headSort headSort_of_isDigit headSort_of_isWordStart headSort_of_mem_markHeads)

theorem opens_phrase {rule : TokenRule} (hMem : rule ∈ phrases) : rule.Opens .word := by
  intro c hSort
  exact shuns_phrase hMem (eq_false_of_ne_true (mt headSort_of_isWordStart hSort))

theorem opens_variable {dialect : Dialect} {rule : TokenRule}
    (hMem : rule ∈ dialect.variableRules) : rule.Opens .sign := by
  intro c hSort
  exact shuns_variable hMem (by rintro rfl; exact hSort (by decide))

theorem opens_number : number.Opens .digit := by
  intro c hSort
  exact shuns_number (eq_false_of_ne_true (mt headSort_of_isDigit hSort))

theorem opens_singleText : singleText.Opens .singleQuote := by
  intro c hSort
  exact shuns_quoted (by rintro rfl; exact hSort (by decide))

theorem opens_doubleText : doubleText.Opens .doubleQuote := by
  intro c hSort
  exact shuns_quoted (by rintro rfl; exact hSort (by decide))

theorem opens_name : nameRule.Opens .word := by
  intro c hSort
  apply shuns_name (eq_false_of_ne_true (mt headSort_of_isWordStart hSort))
  rintro rfl
  exact hSort (by decide)

theorem opens_mark {rule : TokenRule} (hMem : rule ∈ marks) : rule.Opens .mark := by
  intro c hSort
  exact shuns_mark hMem (mt headSort_of_mem_markHeads hSort)

/-! ## The rules in their order -/

/-- No two groups of rules below the phrases share a first character. -/
theorem pairwise_outruns_lower : lower.Pairwise Outruns := by
  have hMarks : ∀ {rule : TokenRule} {sort : HeadSort}, rule.Opens sort → sort ≠ .mark →
      ∀ mark ∈ marks, rule.Outruns mark :=
    fun hRule hSort _ hMark => hRule.outruns (opens_mark hMark) hSort
  refine .cons ?_ (.cons ?_ (.cons ?_ (.cons ?_ pairwise_outruns_marks)))
  · simp only [List.forall_mem_cons]
    exact ⟨opens_number.outruns opens_singleText (by decide),
      opens_number.outruns opens_doubleText (by decide),
      opens_number.outruns opens_name (by decide), hMarks opens_number (by decide)⟩
  · simp only [List.forall_mem_cons]
    exact ⟨opens_singleText.outruns opens_doubleText (by decide),
      opens_singleText.outruns opens_name (by decide), hMarks opens_singleText (by decide)⟩
  · rw [List.forall_mem_cons]
    exact ⟨opens_doubleText.outruns opens_name (by decide), hMarks opens_doubleText (by decide)⟩
  · exact hMarks opens_name (by decide)

/-- What starts like a word or with an at sign meets, below the phrases, names
alone. -/
theorem outruns_lower {rule : TokenRule} {sort : HeadSort} (hRule : rule.Opens sort)
    (hSort : sort = .word ∨ sort = .sign) (hName : rule.Outruns nameRule) :
    ∀ other ∈ lower, rule.Outruns other := by
  have hApart : sort ≠ .digit ∧ sort ≠ .singleQuote ∧ sort ≠ .doubleQuote ∧ sort ≠ .mark := by
    rcases hSort with rfl | rfl <;> decide
  simp only [lower, List.forall_mem_cons]
  exact ⟨hRule.outruns opens_number hApart.1, hRule.outruns opens_singleText hApart.2.1,
    hRule.outruns opens_doubleText hApart.2.2.1, hName,
    fun _ hMark => hRule.outruns (opens_mark hMark) hApart.2.2.2⟩

end RuleSet

namespace Dialect

open RuleSet TokenRule

theorem pairwise_outruns_variableRules (dialect : Dialect) :
    dialect.variableRules.Pairwise Outruns := by
  cases dialect with
  | generic => exact List.Pairwise.nil
  | mysql => exact List.pairwise_pair.2 outruns_variable

/-- Each rule of a dialect takes at least as much as the rules after it, on
every text on which both match. -/
theorem pairwise_outruns (dialect : Dialect) : dialect.grammar.tokens.rules.Pairwise Outruns := by
  rw [dialect.rules_tokens]
  refine List.pairwise_append.2 ⟨pairwise_outruns_phrases, List.pairwise_append.2
    ⟨dialect.pairwise_outruns_variableRules, pairwise_outruns_lower, ?_⟩, ?_⟩
  · intro rule hRule
    have hSign := opens_variable hRule
    exact outruns_lower hSign (Or.inr rfl) (hSign.outruns opens_name (by decide))
  · intro rule hRule other hOther
    rcases List.mem_append.1 hOther with hOther | hOther
    · exact (opens_phrase hRule).outruns (opens_variable hOther) (by decide)
    · exact outruns_lower (opens_phrase hRule) (Or.inl rfl) (outruns_name hRule) other hOther

end Dialect

/-! ## The first match -/

namespace RuleSet

/-- The first of a row of rules that matches a text, where each rule outruns
those after it, takes at least as much as any other. -/
theorem exists_first_match {rules : List TokenRule} (hRules : rules.Pairwise TokenRule.Outruns)
    {rule : TokenRule} (hMem : rule ∈ rules) {c : Char} {cs other : List Char}
    {kind? : Option TokenKind} (hMatch : rule.match? (c :: cs) = some (other, kind?)) :
    ∃ first taken kind?', rules.find? (fun rule => (rule.match? (c :: cs)).isSome) = some first ∧
      first.match? (c :: cs) = some (taken, kind?') ∧ other <+: taken := by
  induction hRules with
  | nil => exact absurd hMem List.not_mem_nil
  | @cons head tail hHead _ ih =>
    cases hFirst : head.match? (c :: cs) with
    | some found =>
      refine ⟨head, found.1, found.2, List.find?_cons_of_pos (by rw [hFirst]; rfl), hFirst, ?_⟩
      rcases List.mem_cons.1 hMem with rfl | hMem
      · rw [hMatch] at hFirst
        cases hFirst
        exact List.prefix_rfl
      · exact hHead rule hMem c cs _ _ _ _ hFirst hMatch
    | none =>
      rcases List.mem_cons.1 hMem with rfl | hMem
      · rw [hMatch] at hFirst
        cases hFirst
      · rw [List.find?_cons_of_neg (by rw [hFirst]; decide)]
        exact ih hMem

/-- The lexer takes what the first rule that matches takes. -/
theorem first?_of_find? {rules : RuleSet} {cs : List Char} {first : TokenRule}
    (hFind : rules.rules.find? (fun rule => (rule.match? cs).isSome) = some first) :
    rules.first? cs = first.match? cs := by
  obtain ⟨hSome, before, after, hRules, hBefore⟩ := List.find?_eq_some_iff_append.1 hFind
  obtain ⟨found, hFound⟩ := Option.isSome_iff_exists.1 hSome
  have hNone : before.findSome? (·.match? cs) = none := by
    rw [List.findSome?_eq_none_iff]
    intro rule hMem
    simpa using hBefore rule hMem
  rw [first?, hRules, List.findSome?_append, hNone, List.findSome?_cons, hFound]
  rfl

end RuleSet

theorem Pattern.byteLength?_eq_map_match? (rule : TokenRule) (cs : List Char) :
    rule.pattern.byteLength? cs = (rule.match? cs).map fun found => Text.byteLength found.1 := by
  rw [byteLength?, TokenRule.match?, Option.map_map]
  rfl

/-- Wherever a rule of a dialect matches a text, the first rule of the dialect
that matches takes at least as many bytes, and it is the one that decides what
the lexer reads there. -/
theorem Dialect.longest_match (dialect : Dialect) {cs : List Char} (hText : cs ≠ [])
    {rule : TokenRule} (hMem : rule ∈ dialect.grammar.tokens.rules) {length : Nat}
    (hMatch : rule.pattern.byteLength? cs = some length) :
    ∃ first longest,
      dialect.grammar.tokens.rules.find? (fun rule => (rule.pattern.byteLength? cs).isSome) =
        some first ∧
      first.pattern.byteLength? cs = some longest ∧ length ≤ longest ∧
      ∀ position, (Lexer.mk dialect.grammar.tokens cs position).firstMatch? = first.match? cs := by
  obtain ⟨c, cs, rfl⟩ := List.exists_cons_of_ne_nil hText
  rw [Pattern.byteLength?_eq_map_match?] at hMatch
  obtain ⟨⟨other, kind?⟩, hFound, rfl⟩ := Option.map_eq_some_iff.1 hMatch
  obtain ⟨first, taken, kind?', hFind, hFirst, more, rfl⟩ :=
    RuleSet.exists_first_match dialect.pairwise_outruns hMem hFound
  simp only [Pattern.byteLength?_eq_map_match?, Option.isSome_map]
  refine ⟨first, _, hFind, by rw [hFirst]; rfl, ?_, fun _ => RuleSet.first?_of_find? hFind⟩
  show Text.byteLength other ≤ Text.byteLength (other ++ more)
  rw [Text.byteLength_append]
  exact Nat.le_add_right _ _

/-- Where `LEFT JOIN` starts, a name would take `LEFT` alone. -/
theorem Dialect.longest_match_leftJoin :
    ∃ first longest,
      Dialect.mysql.grammar.tokens.rules.find?
        (fun rule => (rule.pattern.byteLength? "left join t".toList).isSome) = some first ∧
      first.pattern.byteLength? "left join t".toList = some longest ∧ 4 ≤ longest ∧
      ∀ position,
        (Lexer.mk Dialect.mysql.grammar.tokens "left join t".toList position).firstMatch? =
          first.match? "left join t".toList :=
  @Dialect.longest_match .mysql _ (by decide) RuleSet.nameRule
    (by rw [Dialect.mysql.rules_tokens]; simp [RuleSet.lower]) 4 (by decide)

end SqlQuery
