import SqlQuery.Proofs.KeywordRules
import SqlQuery.Proofs.Runs

/-!
# How far keywords reach

Take a text that consists of gaps, keywords and other lexemes, and a place in it
where one of them starts.  A lexer that read it lexeme by lexeme would come to
that place.  But keywords contend for its lexemes: one of them may take several
lexemes at once, or other parts of the text than the lexeme that was meant.  So
the lexer comes to the place unless, somewhere before it, a keyword is at hand
and what the lexer reads instead does not end where the text leads on.

## Main definitions

* `Lexeme` — what the rules can take of a text.
* `Passage` — a text that leads to a place in it, lexeme by lexeme.
* `RuleSet.Diverts` — a lexer that a keyword leads off its way.

## Main results

* `Passage.finds_iff` — the lexer comes to a lexeme and finds it, unless it is
  led off its way.
-/

namespace SqlQuery

open RuleSet (lower phrases)

/-! ## Lexemes -/

/-- A lexeme in front of a text: what a keyword of words takes, or what the
shared rules find that are not phrases. -/
structure Lexeme (added : RuleSet) (text tail : List Char) (kind : TokenKind) : Prop where
  ne_nil : text ≠ []
  gap : Text.gapLength (text ++ tail) = 0
  found : (∃ rule, added.IsWording rule ∧ rule.match? (text ++ tail) = some (text, some kind)) ∨
    lower.findSome? (·.match? (text ++ tail)) = some (text, some kind)

namespace Lexeme

variable {added : RuleSet} {text tail : List Char} {kind : TokenKind}

/-- What the shared rules find is a lexeme. -/
theorem of_base (hFinds : RuleSet.base.Finds text tail kind) : Lexeme added text tail kind where
  ne_nil := hFinds.ne_nil
  gap := hFinds.gap
  found := by
    have hFirst := hFinds.first
    rw [RuleSet.first?, RuleSet.rules_base, List.findSome?_append, Option.or_eq_some_iff] at hFirst
    rcases hFirst with hPhrase | ⟨-, hLower⟩
    · obtain ⟨rule, hMem, hMatch⟩ := List.exists_of_findSome?_eq_some hPhrase
      exact Or.inl ⟨rule, Or.inr hMem, hMatch⟩
    · exact Or.inr hLower

/-- What is found with the added keywords is a lexeme. -/
theorem of_finds (hAdded : added.AddsKeywords)
    (hFinds : (RuleSet.base.union added).Finds text tail kind) : Lexeme added text tail kind := by
  rcases RuleSet.first?_union_base hAdded.isNew hFinds.first with ⟨rule, hMem, hMatch⟩ | hBase
  · exact ⟨hFinds.ne_nil, hFinds.gap, Or.inl ⟨rule, Or.inl hMem, hMatch⟩⟩
  · exact of_base ⟨hFinds.ne_nil, hFinds.gap, hBase⟩

/-- A lexeme for which no keyword contends is found. -/
theorem finds (hLexeme : Lexeme added text tail kind) (hAdded : added.AddsKeywords)
    (hNot : ¬added.Contends (text ++ tail)) : (RuleSet.base.union added).Finds text tail kind where
  ne_nil := hLexeme.ne_nil
  gap := hLexeme.gap
  first := by
    rw [hAdded.first?_of_not_contends hNot]
    refine hLexeme.found.resolve_left ?_
    rintro ⟨rule, hRule, hMatch⟩
    exact hNot ⟨rule, hRule, by simp [hMatch]⟩

theorem ne_finish (hLexeme : Lexeme added text tail kind) (hAdded : added.AddsKeywords) :
    kind ≠ .finish := by
  rcases hLexeme.found with ⟨rule, hRule, hMatch⟩ | hLower
  · obtain ⟨words, keyword, hVerbal⟩ := hAdded.exists_isVerbal hRule
    obtain ⟨_, _, _, _, _, -, -, -, -, -, hKind⟩ := hVerbal.match?_eq_some_iff.1 hMatch
    cases hKind
    exact TokenKind.noConfusion
  · obtain ⟨rule, hMem, hMatch⟩ := List.exists_of_findSome?_eq_some hLower
    have hBase : rule ∈ Dialect.generic.grammar.tokens.rules := by
      show rule ∈ RuleSet.base.rules
      rw [RuleSet.rules_base]
      exact List.mem_append_right _ hMem
    obtain ⟨length, -, -, hKind⟩ := TokenRule.match?_eq_some_iff.1 hMatch
    rintro rfl
    exact (Dialect.moving_of_mem hBase).ne_finish _ hKind.symm

end Lexeme

/-! ## Passages -/

/-- A text leads to a suffix of it by gaps and lexemes. -/
inductive Passage (added : RuleSet) : List Char → List Char → Prop
  | here (cs : List Char) : Passage added cs cs
  | gap {gap cs rest : List Char} (hGap : Text.Gap gap cs) (hPassage : Passage added cs rest) :
    Passage added (gap ++ cs) rest
  | lexeme {text tail rest : List Char} {kind : TokenKind} (hLexeme : Lexeme added text tail kind)
      (hPassage : Passage added tail rest) :
    Passage added (text ++ tail) rest

namespace Passage

variable {added : RuleSet} {cs rest : List Char}

theorem trans {middle : List Char} (hFirst : Passage added cs middle)
    (hSecond : Passage added middle rest) : Passage added cs rest := by
  induction hFirst with
  | here => exact hSecond
  | gap hGap _ ih => exact .gap hGap (ih hSecond)
  | lexeme hLexeme _ ih => exact .lexeme hLexeme (ih hSecond)

theorem suffix (hPassage : Passage added cs rest) : rest <:+ cs := by
  induction hPassage with
  | here => exact List.suffix_rfl
  | gap _ _ ih => exact ih.trans (List.suffix_append _ _)
  | lexeme _ _ ih => exact ih.trans (List.suffix_append _ _)

end Passage

/-- A lexer goes by gaps and lexemes. -/
theorem RuleSet.Runs.passage {added : RuleSet} (hAdded : added.AddsKeywords)
    {read cs read' rest : List Char} {tokens : List Token}
    (hRuns : (base.union added).Runs read cs tokens read' rest) : Passage added cs rest := by
  induction hRuns with
  | done => exact .here _
  | gap hGap _ ih => exact .gap hGap ih
  | token hFinds _ _ ih => exact .lexeme (.of_finds hAdded hFinds) ih

/-! ## Where a lexer comes to -/

/-- A lexer is led off its way to a lexeme of a text: it comes to a place from
which the text leads on to the lexeme, or to the lexeme itself, a keyword is at
hand there, and no token is found that leads on or is the lexeme. -/
def RuleSet.Diverts (added : RuleSet) (text lexeme tail : List Char) (kind : TokenKind) : Prop :=
  ∃ tokens read cs, (base.union added).Runs [] text tokens read cs ∧
    Passage added cs (lexeme ++ tail) ∧ Text.gapLength cs = 0 ∧ added.Contends cs ∧
    ∀ other rest kind', cs = other ++ rest → (base.union added).Finds other rest kind' →
      ¬Passage added rest (lexeme ++ tail) ∧ ¬(other = lexeme ∧ rest = tail ∧ kind' = kind)

section Finding

variable {added : RuleSet} {text lexeme tail : List Char} {kind : TokenKind}

/-- A lexer that comes to a lexeme and finds it was not led off its way. -/
theorem RuleSet.Runs.not_diverts (hAdded : added.AddsKeywords) {read : List Char}
    {tokens : List Token} (hRuns : (base.union added).Runs [] text tokens read (lexeme ++ tail))
    (hFinds : (base.union added).Finds lexeme tail kind) :
    ¬added.Diverts text lexeme tail kind := by
  rintro ⟨_, _, cs, hOther, hPassage, hGap, -, hOff⟩
  rcases Nat.eq_or_lt_of_le hPassage.suffix.length_le with hSame | hShorter
  · have hText : cs = lexeme ++ tail := (hPassage.suffix.eq_of_length hSame).symm
    exact (hOff lexeme tail kind hText hFinds).2 ⟨rfl, rfl, rfl⟩
  · have hLonger := hOther.exists_of_shorter hRuns rfl (by
      rwa [hFinds.skipGap_append, Text.skipGap_of_gapLength hGap])
    rw [Text.skipGap_of_gapLength hGap] at hLonger
    obtain ⟨other, rest, kind', before, tokens', hText, hToken, hRest⟩ := hLonger
    exact (hOff other rest kind' hText hToken).1 (hRest.passage hAdded)

/-- A lexer that is not led off its way finds the lexeme, or a token that leads
on to it. -/
theorem RuleSet.Runs.exists_next (hAdded : added.AddsKeywords)
    (hOn : ¬added.Diverts text lexeme tail kind) {text' tail' read : List Char} {kind' : TokenKind}
    {tokens : List Token} (hRuns : (base.union added).Runs [] text tokens read (text' ++ tail'))
    (hHere : Passage added (text' ++ tail') (lexeme ++ tail))
    (hLexeme : Lexeme added text' tail' kind')
    (hNext : Passage added tail' (lexeme ++ tail) ∨
      text' = lexeme ∧ tail' = tail ∧ kind' = kind) :
    (∃ tokens read, (base.union added).Runs [] text tokens read (lexeme ++ tail) ∧
      (base.union added).Finds lexeme tail kind) ∨
      ∃ tokens read rest, (base.union added).Runs [] text tokens read rest ∧
        Passage added rest (lexeme ++ tail) ∧ rest.length < (text' ++ tail').length := by
  have hToken : ∃ other rest kind'', text' ++ tail' = other ++ rest ∧
      (base.union added).Finds other rest kind'' ∧ (Passage added rest (lexeme ++ tail) ∨
        other = lexeme ∧ rest = tail ∧ kind'' = kind) := by
    by_cases hContends : added.Contends (text' ++ tail')
    · by_contra hNone
      refine hOn ⟨tokens, read, text' ++ tail', hRuns, hHere, hLexeme.gap, hContends, ?_⟩
      intro other rest kind'' hText hFinds
      rw [← not_or]
      exact fun hGood => hNone ⟨other, rest, kind'', hText, hFinds, hGood⟩
    · exact ⟨text', tail', kind', rfl, hLexeme.finds hAdded hContends, hNext⟩
  obtain ⟨other, rest, kind'', hText, hFinds, hGood⟩ := hToken
  rw [hText] at hRuns ⊢
  rcases hGood with hRest | ⟨rfl, rfl, rfl⟩
  · have hKind := (Lexeme.of_finds hAdded hFinds).ne_finish hAdded
    have hPos := List.length_pos_iff.2 hFinds.ne_nil
    refine Or.inr ⟨_, _, rest, hRuns.trans (.token hFinds hKind .done), hRest, ?_⟩
    rw [List.length_append]
    omega
  · exact Or.inl ⟨tokens, read, hRuns, hFinds⟩

/-- A lexer that is not led off its way to a lexeme comes there and finds it. -/
theorem RuleSet.Runs.exists_finds (hAdded : added.AddsKeywords)
    (hLexeme : Lexeme added lexeme tail kind) (hOn : ¬added.Diverts text lexeme tail kind)
    {cs read : List Char} {tokens : List Token}
    (hRuns : (base.union added).Runs [] text tokens read cs)
    (hPassage : Passage added cs (lexeme ++ tail)) :
    ∃ tokens read, (base.union added).Runs [] text tokens read (lexeme ++ tail) ∧
      (base.union added).Finds lexeme tail kind := by
  -- A keyword may take more than one lexeme, so the induction is on the text.
  induction hLength : cs.length using Nat.strong_induction_on generalizing cs tokens read with
  | _ length ih =>
    subst hLength
    generalize hPlace : lexeme ++ tail = place at hPassage
    induction hPassage generalizing tokens read with
    | here =>
      subst hPlace
      rcases hRuns.exists_next hAdded hOn (.here _) hLexeme (Or.inr ⟨rfl, rfl, rfl⟩) with
        hFound | ⟨_, _, rest, hRuns', hRest, hShorter⟩
      · exact hFound
      · exact ih rest.length hShorter hRuns' hRest rfl
    | gap hGap _ ihRest =>
      rw [List.length_append] at ih
      exact ihRest (hRuns.trans (.gap hGap .done)) (fun m hm => ih m (by omega)) hPlace
    | lexeme hLexeme' hRest _ =>
      subst hPlace
      rcases hRuns.exists_next hAdded hOn (.lexeme hLexeme' hRest) hLexeme' (Or.inl hRest) with
        hFound | ⟨_, _, rest, hRuns', hRest', hShorter⟩
      · exact hFound
      · exact ih rest.length hShorter hRuns' hRest' rfl

/-- **A lexer on a passage** comes to the lexeme where the passage leads and
finds it, unless a keyword leads it off its way. -/
theorem Passage.finds_iff (hAdded : added.AddsKeywords) (hLexeme : Lexeme added lexeme tail kind)
    (hPassage : Passage added text (lexeme ++ tail)) :
    (∃ tokens read, (RuleSet.base.union added).Runs [] text tokens read (lexeme ++ tail) ∧
      (RuleSet.base.union added).Finds lexeme tail kind) ↔
      ¬added.Diverts text lexeme tail kind :=
  ⟨fun ⟨_, _, hRuns, hFinds⟩ => hRuns.not_diverts hAdded hFinds,
    fun hOn => RuleSet.Runs.exists_finds hAdded hLexeme hOn .done hPassage⟩

end Finding

end SqlQuery
