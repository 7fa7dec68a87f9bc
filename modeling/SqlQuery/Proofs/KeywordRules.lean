import SqlQuery.Proofs.Comments
import SqlQuery.Proofs.Extensions

/-!
# Keywords added to the shared rules

A dialect may add keywords of its own, of one word or of several.  At a place
where none of them decides, the shared rules decide as before.  Which ones do
depends on the priorities: a keyword that outranks the rule for names takes
words that were meant as names, one that does not takes nothing from it.

A keyword that is found before one text is found before any other that does
not go on with the last word.

## Main definitions

* `TokenRule.IsVerbal` — a rule for a keyword of words.
* `RuleSet.AddsKeywords` — rules for keywords, with names of their own.
* `RuleSet.Takes` — a place at which an added rule decides.
* `RuleSet.Contends` — a place at which a keyword matches.

## Main results

* `RuleSet.first?_union_base` — what is found with the added rules.
* `TokenRule.IsVerbal.match?_append` — keywords do not look far ahead.
-/

namespace SqlQuery

/-! ## The order of rules, some left out -/

namespace RuleSet

variable {rules : List TokenRule} {rule other : TokenRule}

/-- What is found first among rules is found first among those of one sort, or
by a rule of the other sort. -/
theorem findSome?_filter {β : Type} (f : TokenRule → Option β) (test : TokenRule → Bool) {found : β}
    (hFound : rules.findSome? f = some found) :
    (∃ rule ∈ rules, test rule = false ∧ f rule = some found) ∨
      (rules.filter test).findSome? f = some found := by
  induction rules with
  | nil => cases hFound
  | cons first rest ih =>
    have hRest : rest.findSome? f = some found →
        (∃ rule ∈ first :: rest, test rule = false ∧ f rule = some found) ∨
          (rest.filter test).findSome? f = some found := fun h =>
      (ih h).imp_left fun ⟨rule, hMem, hRule⟩ => ⟨rule, List.mem_cons_of_mem _ hMem, hRule⟩
    rw [List.findSome?_cons] at hFound
    cases hTest : test first with
    | false =>
      rw [List.filter_cons_of_neg (by simp [hTest])]
      cases hFirst : f first with
      | none =>
        rw [hFirst] at hFound
        exact hRest hFound
      | some other =>
        rw [hFirst] at hFound
        exact Or.inl ⟨first, List.mem_cons_self, hTest, hFirst.trans hFound⟩
    | true =>
      rw [List.filter_cons_of_pos hTest, List.findSome?_cons]
      cases hFirst : f first with
      | none =>
        rw [hFirst] at hFound
        exact hRest hFound
      | some other =>
        rw [hFirst] at hFound
        exact Or.inr hFound

end RuleSet

/-! ## The union with further rules -/

namespace RuleSet

variable {added : RuleSet} {rule : TokenRule} {cs : List Char}

/-- Rules with names that are not those of the shared rules. -/
def IsNew (added : RuleSet) : Prop :=
  ∀ rule ∈ added.rules, rule.name ∉ base.rules.map (·.name)

theorem rules_union_base (hNew : added.IsNew) :
    (base.union added).rules = byPriority (base.rules ++ added.rules.foldl place []) := by
  rw [union, ← foldl_place_append hNew, List.append_nil]

theorem mem_union_base (hMem : rule ∈ (base.union added).rules) :
    rule ∈ base.rules ∨ rule ∈ added.rules :=
  mem_of_mem_foldl_place (mem_byPriority_iff.1 hMem)

theorem mem_union_of_mem_base (hNew : added.IsNew) (hMem : rule ∈ base.rules) :
    rule ∈ (base.union added).rules := by
  rw [rules_union_base hNew, mem_byPriority_iff]
  exact List.mem_append_left _ hMem

/-- Without the added rules the shared ones are left, in their order. -/
theorem filter_union_base (hNew : added.IsNew) :
    (base.union added).rules.filter (fun rule => (base.rules.map (·.name)).contains rule.name) =
      base.rules := by
  have hBase : base.rules.filter (fun rule => (base.rules.map (·.name)).contains rule.name) =
      base.rules := by
    refine List.filter_eq_self.2 fun rule hMem => ?_
    simpa using ⟨rule, hMem, rfl⟩
  have hAdded : (added.rules.foldl place []).filter
      (fun rule => (base.rules.map (·.name)).contains rule.name) = [] := by
    refine List.filter_eq_nil_iff.2 fun rule hMem hName => ?_
    rcases mem_of_mem_foldl_place hMem with hMem | hMem
    · cases hMem
    · exact hNew rule hMem (List.contains_iff_mem.1 hName)
  rw [rules_union_base hNew, filter_byPriority, List.filter_append, hBase, hAdded, List.append_nil,
    byPriority_of_falling falling_base]

/-- What is found with the added rules is what one of them takes, or else what
the shared rules find. -/
theorem first?_union_base (hNew : added.IsNew) {found : List Char × Option TokenKind}
    (hFound : (base.union added).first? cs = some found) :
    (∃ rule ∈ added.rules, rule.match? cs = some found) ∨ base.first? cs = some found := by
  rcases findSome?_filter _ (fun rule => (base.rules.map (·.name)).contains rule.name) hFound with
    ⟨rule, hMem, hName, hMatch⟩ | hBase
  · refine Or.inl ⟨rule, (mem_union_base hMem).resolve_left fun hBase => ?_, hMatch⟩
    have hContains : (base.rules.map (·.name)).contains rule.name = true :=
      List.contains_iff_mem.2 (List.mem_map_of_mem hBase)
    rw [hContains] at hName
    cases hName
  · rw [filter_union_base hNew] at hBase
    exact Or.inr hBase

/-- At a text an added rule decides. -/
def Takes (added : RuleSet) (cs : List Char) : Prop :=
  ∃ rule ∈ added.rules, ∃ found, rule.match? cs = some found ∧
    (base.union added).first? cs = some found

/-- Where no added rule decides, the shared rules do. -/
theorem first?_of_not_takes (hNew : added.IsNew) (hNot : ¬added.Takes cs) :
    (base.union added).first? cs = base.first? cs := by
  cases hFound : (base.union added).first? cs with
  | none =>
    refine (List.findSome?_eq_none_iff.2 fun rule hMem => ?_).symm
    exact List.findSome?_eq_none_iff.1 hFound rule (mem_union_of_mem_base hNew hMem)
  | some found =>
    rcases first?_union_base hNew hFound with ⟨rule, hMem, hMatch⟩ | hBase
    · exact absurd ⟨rule, hMem, found, hMatch, hFound⟩ hNot
    · exact hBase.symm

end RuleSet

/-! ## Rules for keywords -/

/-- A rule for a keyword that consists of words. -/
structure TokenRule.IsVerbal (rule : TokenRule) (words : List String) (keyword : Keyword) :
    Prop where
  pattern : rule.pattern = .words words
  reading : rule.reading = .fixed (.keyword keyword)
  ne_nil : words ≠ []
  word : ∀ word ∈ words, word.toList ≠ []

namespace TokenRule.IsVerbal

variable {rule : TokenRule} {words : List String} {keyword : Keyword} {cs lexeme : List Char}
  {kind? : Option TokenKind}

/-- What a keyword takes from the start of a text: its first word, and the
others. -/
theorem match?_eq_some_iff (hRule : rule.IsVerbal words keyword) :
    rule.match? cs = some (lexeme, kind?) ↔
      ∃ first further a rest length, words = first :: further ∧ cs = a ++ rest ∧
        Text.sameWord first.toList a = true ∧
        Pattern.furtherWordsLength? further rest = some length ∧
        lexeme = cs.take (a.length + length) ∧ kind? = some (.keyword keyword) := by
  obtain ⟨first, further, rfl⟩ := List.exists_cons_of_ne_nil hRule.ne_nil
  rw [RuleSet.match?_words_iff hRule.pattern hRule.reading]
  constructor
  · rintro ⟨a, rest, length, hTaken⟩
    exact ⟨first, further, a, rest, length, rfl, hTaken⟩
  · rintro ⟨first', further', a, rest, length, hWords, hTaken⟩
    obtain ⟨rfl, rfl⟩ := List.cons.inj hWords
    exact ⟨a, rest, length, hTaken⟩

/-- A keyword is some text. -/
theorem lexeme_ne_nil (hRule : rule.IsVerbal words keyword)
    (hMatch : rule.match? cs = some (lexeme, kind?)) : lexeme ≠ [] := by
  obtain ⟨first, further, a, rest, length, rfl, rfl, hSame, -, rfl, -⟩ :=
    hRule.match?_eq_some_iff.1 hMatch
  rw [List.take_length_add_append]
  refine List.append_ne_nil_of_left_ne_nil (fun hNil => ?_) _
  have hFirst := hRule.word first List.mem_cons_self
  rw [hNil] at hSame
  exact hFirst (List.map_eq_nil_iff.1 (Text.sameWord_iff.1 hSame))

/-- A keyword that is found before one text is found before any other that does
not go on with its last word. -/
theorem match?_append (hRule : rule.IsVerbal words keyword) {tail tail' : List Char}
    (hMatch : rule.match? (lexeme ++ tail) = some (lexeme, kind?))
    (hStop : Pattern.continuesWord tail' = false) :
    rule.match? (lexeme ++ tail') = some (lexeme, kind?) := by
  obtain ⟨first, further, a, rest, length, rfl, hText, hSame, hFurther, hLexeme, hKind⟩ :=
    hRule.match?_eq_some_iff.1 hMatch
  -- The lexeme is the first word and what is taken of the rest.
  obtain ⟨more, rfl, rfl⟩ : ∃ more, lexeme = a ++ more ∧ rest = more ++ tail := by
    refine ⟨rest.take length, ?_, ?_⟩
    · rw [hLexeme, hText]
      exact List.take_length_add_append length
    · rw [hText, List.take_length_add_append] at hLexeme
      rw [hLexeme, List.append_assoc, List.append_cancel_left_eq] at hText
      exact hText.symm
  have hLength : length = more.length := by
    have hTaken := congrArg List.length hLexeme
    have hShort := Pattern.furtherWordsLength?_le hFurther
    rw [hText, List.take_length_add_append] at hTaken
    simp only [List.length_append, List.length_take] at hTaken hShort
    omega
  have hFurther' : Pattern.furtherWordsLength? further (more ++ tail') = some length :=
    Pattern.furtherWordsLength?_congr
      (fun word hMem => hRule.word word (List.mem_cons_of_mem _ hMem))
      hFurther (Nat.le_of_eq hLength) fun _ => hStop
  refine hRule.match?_eq_some_iff.2
    ⟨first, further, a, more ++ tail', length, rfl, List.append_assoc a more tail', hSame,
      hFurther', ?_, hKind⟩
  rw [hLength, ← List.length_append, List.take_left]

end TokenRule.IsVerbal

theorem RuleSet.IsPhrase.isVerbal {rule : TokenRule} {first : String} {further : List String}
    {keyword : Keyword} (hRule : IsPhrase rule first further keyword) :
    rule.IsVerbal (first :: further) keyword where
  pattern := hRule.pattern
  reading := hRule.reading
  ne_nil := List.cons_ne_nil _ _
  word := List.forall_mem_cons.2
    ⟨hRule.first_word.1, fun word hMem => (hRule.further_words word hMem).1⟩

/-! ## What is found -/

/-- The rules of a set are keywords with names of their own. -/
structure RuleSet.AddsKeywords (added : RuleSet) : Prop where
  isNew : added.IsNew
  verbal : ∀ rule ∈ added.rules, ∃ words keyword, rule.IsVerbal words keyword

namespace RuleSet

variable {added : RuleSet} {rule : TokenRule} {cs : List Char}

/-- The rules for keywords of words: those that are added, and the shared
phrases. -/
def IsWording (added : RuleSet) (rule : TokenRule) : Prop :=
  rule ∈ added.rules ∨ rule ∈ phrases

theorem AddsKeywords.exists_isVerbal (hAdded : added.AddsKeywords) (hRule : added.IsWording rule) :
    ∃ words keyword, rule.IsVerbal words keyword := by
  rcases hRule with hMem | hMem
  · exact hAdded.verbal rule hMem
  · obtain ⟨first, further, keyword, hPhrase⟩ := exists_isPhrase hMem
    exact ⟨first :: further, keyword, hPhrase.isVerbal⟩

/-- At a text a keyword of words matches, whether it decides or not. -/
def Contends (added : RuleSet) (cs : List Char) : Prop :=
  ∃ rule, added.IsWording rule ∧ rule.match? cs ≠ none

/-- Where no keyword of words matches, the other rules decide. -/
theorem AddsKeywords.first?_of_not_contends (hAdded : added.AddsKeywords)
    (hNot : ¬added.Contends cs) :
    (base.union added).first? cs = lower.findSome? (·.match? cs) := by
  have hNone : ∀ rule, added.IsWording rule → rule.match? cs = none := fun rule hRule =>
    of_not_not fun hMatch => hNot ⟨rule, hRule, hMatch⟩
  have hTakes : ¬added.Takes cs := by
    rintro ⟨rule, hMem, found, hMatch, -⟩
    rw [hNone rule (Or.inl hMem)] at hMatch
    cases hMatch
  have hPhrases : phrases.findSome? (·.match? cs) = none :=
    List.findSome?_eq_none_iff.2 fun rule hMem => hNone rule (Or.inr hMem)
  rw [first?_of_not_takes hAdded.isNew hTakes, first?, rules_base, List.findSome?_append, hPhrases,
    Option.none_or]

end RuleSet

end SqlQuery
