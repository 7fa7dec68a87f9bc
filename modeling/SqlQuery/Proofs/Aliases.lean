import SqlQuery.Proofs.Fluency
import SqlQuery.Proofs.OperatorOrder

/-!
# Aliases under added keywords

An alias is written after the keyword `AS`: bare, or in backticks where the
shared rules would read a bare one as something else.  No heed is paid to the
keywords that a dialect adds.  So an alias may be written bare although a keyword
of the dialect takes it; and a keyword of several words may take the `AS`, or
what stands before it, in a way that the text that was parsed gave no occasion
for.

Where no added keyword decides at the alias itself, the alias is read back unless
the lexer is led off its way to the `AS`.

## Main definitions

* `RuleSet.ReadsAlias` — the keyword `AS` and a name are read at a place.

## Main results

* `Node.inside_iff_exists_stands` — the nodes of a tree are those with a place in
  its text.
* `Grammar.readsAlias_iff` — where the alias of a node is read back.
-/

namespace SqlQuery

open RuleSet (phrases)

/-! ## Every node has a place -/

section Places

variable {α : Type} {part : α}

namespace Piece

theorem part_mem_separated {separator : List (Piece α)} (hSeparator : .part part ∉ separator)
    {items : List α} : .part part ∈ separated separator items ↔ part ∈ items := by
  cases items with
  | nil => simp [separated]
  | cons first further => simp [separated, hSeparator]

@[simp] theorem part_mem_list {items : List α} : .part part ∈ list items ↔ part ∈ items :=
  part_mem_separated (by simp)

@[simp] theorem part_mem_clause {word : Keyword} {items : List α} :
    .part part ∈ clause word items ↔ part ∈ items := by
  cases items <;> simp [clause]

@[simp] theorem part_notMem_suffix {word : Option Keyword} : .part part ∉ suffix word := by
  cases word <;> simp [suffix]

@[simp] theorem part_notMem_distinctPieces {distinct : Bool} :
    .part part ∉ distinctPieces distinct := by
  cases distinct <;> simp [distinctPieces]

@[simp] theorem part_notMem_joinPieces {kind : JoinKind} : .part part ∉ kind.pieces := by
  cases kind <;> simp [JoinKind.pieces, JoinKind.keyword?]

end Piece

/-- The parts of a form are among its pieces. -/
theorem Form.part_mem_pieces {form : Form α} : .part part ∈ form.pieces ↔ part ∈ form.parts := by
  cases form with
  | operation op args => simp [pieces, parts, Piece.part_mem_separated]
  | between subject low high negated => cases negated <;> simp [pieces, parts]
  | select query => simp [pieces, parts, Query.pieces, Query.parts]
  | _ => simp [pieces, parts]

end Places

namespace Node

variable {part inner node : Node}

/-- The parts of a node are among its pieces. -/
theorem part_mem_pieces : .part part ∈ node.pieces ↔ part ∈ node.form.parts := by
  have hAlias : .part part ∉ aliasPieces node.aliasName := by
    cases hName : node.aliasName <;> simp [aliasPieces]
  rw [pieces, List.mem_append, or_iff_left hAlias, corePieces]
  split <;> simp [Form.part_mem_pieces]

theorem Inside.exists_stands (hInside : Inside inner node) :
    ∃ before after, inner.Stands before node after := by
  induction hInside with
  | self => exact ⟨[], [], .self⟩
  | part hPart _ ih =>
    obtain ⟨before, after, hStands⟩ := ih
    obtain ⟨left, right, hPieces⟩ := List.append_of_mem (part_mem_pieces.2 hPart)
    exact ⟨_, _, .part hPieces hStands⟩

theorem Stands.inside {before after : List Char} (hStands : inner.Stands before node after) :
    Inside inner node := by
  induction hStands with
  | self => exact .self _
  | part hPieces _ ih => exact .part (part_mem_pieces.1 (by simp [hPieces])) ih

/-- **The nodes inside a tree are those with a place** in the text of the tree. -/
theorem inside_iff_exists_stands :
    Inside inner node ↔ ∃ before after, inner.Stands before node after :=
  ⟨Inside.exists_stands, fun ⟨_, _, hStands⟩ => hStands.inside⟩

end Node

/-! ## Reading an alias -/

namespace RuleSet

variable {text tail : List Char} {name : String}

/-- One keyword is added. -/
theorem addsKeywords_phrase {priority : Nat} {words : List String} {keyword : Keyword}
    (hName : name ∉ base.rules.map (·.name)) (hWords : words ≠ [])
    (hWord : ∀ word ∈ words, word.toList ≠ []) :
    (ofRules [.phrase name priority words keyword]).AddsKeywords where
  isNew rule hMem := by
    obtain rfl := List.mem_singleton.1 hMem
    exact hName
  verbal rule hMem := by
    obtain rfl := List.mem_singleton.1 hMem
    exact ⟨words, keyword, rfl, rfl, hWords, hWord⟩

theorem finds_as (tail : List Char) :
    base.Finds Keyword.AS.spelling.toList (' ' :: tail) (.keyword .AS) := by
  have hWord : Text.IsWord ['A', 'S'] := by decide
  have hText : Token.NameText Keyword.AS.spelling.toList [⟨['A', 'S'], false⟩] :=
    .single (.bare hWord.1 hWord.2)
  exact @Reads.finds_name .generic _ _ _ _ hText (fun c hc => by cases hc; exact hWord.1)
    (by decide +kernel) (by decide +kernel) (Text.neutral_cons (Or.inl rfl))

/-- The lexer comes to the place behind a text, where it reads the keyword `AS`
and then, behind a space, a name in the form of an alias. -/
def ReadsAlias (rules : RuleSet) (text front : List Char) (name : String) (after : List Char) :
    Prop :=
  ∃ tokens quote,
    rules.Runs [] text tokens front
      (Keyword.AS.spelling.toList ++ ' ' :: ((renderAlias name).toList ++ after)) ∧
    rules.Finds Keyword.AS.spelling.toList (' ' :: ((renderAlias name).toList ++ after))
      (.keyword .AS) ∧
    rules.Finds (renderAlias name).toList after (.identifier name quote)

/-- The tokens of a text in which an alias is read: after the keyword comes the
name. -/
theorem ReadsAlias.exists_tokens {rules : RuleSet} {source : String} {front after : List Char}
    {stream : TokenStream} (hReads : rules.ReadsAlias source.toList front name after)
    (hTokens : rules.tokenize source = .ok stream) :
    ∃ tokens quote, tokens ++
      [.behind front (.keyword .AS) Keyword.AS.spelling.toList,
        .behind (front ++ Keyword.AS.spelling.toList ++ [' ']) (.identifier name quote)
          (renderAlias name).toList] <+: stream.ahead := by
  obtain ⟨tokens, quote, hRuns, hAs, hName⟩ := hReads
  exact ⟨tokens, quote, (hRuns.trans (.token hAs (by simp)
    (.gap (.blank rfl (.none _)) (.token hName (by simp) .done)))).prefix_of_tokenize hTokens⟩

/-- Among the kinds of the tokens the name stands behind the keyword. -/
theorem ReadsAlias.exists_kinds {rules : RuleSet} {source : String} {front after : List Char}
    {kinds : List TokenKind} (hReads : rules.ReadsAlias source.toList front name after)
    (hKinds : (rules.tokenize source).map (fun stream => stream.ahead.map (·.kind)) = .ok kinds) :
    ∃ before quote further,
      kinds = before ++ .keyword .AS :: .identifier name quote :: further := by
  cases hTokens : rules.tokenize source with
  | error e =>
    rw [hTokens] at hKinds
    cases hKinds
  | ok stream =>
    rw [hTokens] at hKinds
    cases hKinds
    obtain ⟨tokens, quote, further, hAhead⟩ := hReads.exists_tokens hTokens
    exact ⟨tokens.map (·.kind), quote, further.map (·.kind), by simp [← hAhead, Token.behind]⟩

end RuleSet

namespace Grammar

/--
**Aliases under added keywords.**  Let a grammar add keywords of words to the
shared rules, with names of their own, and let a text have a tree under it.  The
nodes inside the tree are those that have a place in the text of the tree.  Take
one that bears an alias, at a place of it.  If no added keyword decides at the
alias, then the grammar's lexer comes to the `AS` of the node and reads it, and
right after it a name that is the alias, unless on the way there a keyword is at
hand and the lexer reads a token that does not end where a row of lexemes leads on
to the `AS`, or another token than the `AS` itself.
-/
theorem readsAlias_iff {added : RuleSet} (hAdded : added.AddsKeywords)
    {grammarName source : String} {node : Node}
    (hParse : ((base grammarName).withTokens added).parse source = .ok node) :
    (∀ inner : Node, inner.Inside node ↔ ∃ before after, inner.Stands before node after) ∧
      ∀ (inner : Node) (label : String) (before after : List Char),
        inner.Stands before node after → inner.aliasName = some label →
        ¬added.Takes ((renderAlias label).toList ++ after) →
          (((base grammarName).withTokens added).tokens.ReadsAlias node.render.toList
              (before ++ (inner.coreText ++ [' '])) label after ↔
            ¬added.Diverts node.render.toList Keyword.AS.spelling.toList
              (' ' :: ((renderAlias label).toList ++ after)) (.keyword .AS)) := by
  refine ⟨fun _ => Node.inside_iff_exists_stands,
    fun inner label before after hStands hAlias hFree => ?_⟩
  have hFluent := fluent_of_parse hAdded hParse
  obtain ⟨hInner, hNeutral, hPassage⟩ := hFluent.passage_of_stands hStands Text.neutral_nil
  rw [List.append_nil] at hNeutral
  rw [List.append_nil, List.append_nil] at hPassage
  have hPlace := hPassage.trans (hInner.passage_of_aliasName hAlias hNeutral)
  have hAs := @Lexeme.of_base added _ _ _
    (RuleSet.finds_as ((renderAlias label).toList ++ after))
  have hBase := @RuleSet.Reads.finds_alias .generic _ _ (hInner.isName label hAlias).enclosable
    hNeutral
  have hName : (RuleSet.base.union added).Finds (renderAlias label).toList after
      (.identifier label (aliasQuote label)) :=
    ⟨hBase.ne_nil, hBase.gap, (RuleSet.first?_of_not_takes hAdded.isNew hFree).trans hBase.first⟩
  constructor
  · rintro ⟨tokens, quote, hRuns, hFinds, -⟩
    exact hRuns.not_diverts hAdded hFinds
  · intro hOn
    obtain ⟨tokens, read, hRuns, hFinds⟩ := (hPlace.finds_iff hAdded hAs).2 hOn
    have hRead : read = before ++ (inner.coreText ++ [' ']) := by
      have hText := hRuns.append_eq
      rw [List.nil_append, hStands.toList_render, Node.toList_render_of_aliasName hAlias] at hText
      refine List.append_cancel_right (hText.symm.trans ?_)
      simp only [List.append_assoc, List.cons_append, List.nil_append]
    exact ⟨tokens, _, hRead ▸ hRuns, hFinds, hName⟩

/-- A query for one name, with an alias. -/
def aliasedName (label : String) : Node := (Node.identifier "a" none).withAlias label

def aliasedQuery (label : String) : Node := .ofForm (.select { targets := [aliasedName label] })

theorem stands_aliasedName (label : String) :
    (aliasedName label).Stands "SELECT ".toList (aliasedQuery label) [] :=
  @Node.Stands.part _ _ _ [.keyword .SELECT, .space] [] _ _ rfl .self

/-- The keyword `FETCH`, which takes the name `fetch`. -/
def fetchRules : RuleSet := .ofRules [.phrase "FETCH" 50 ["FETCH"] .LIMIT]

/-- A keyword of two words, which takes the name `a` and the `AS` behind it. -/
def asRules : RuleSet := .ofRules [.phrase "A_AS" 50 ["a", "AS"] .AND]

theorem addsKeywords_fetchRules : fetchRules.AddsKeywords :=
  RuleSet.addsKeywords_phrase (by rw [RuleSet.rules_base]; decide) (by decide) (by decide)

theorem addsKeywords_asRules : asRules.AddsKeywords :=
  RuleSet.addsKeywords_phrase (by rw [RuleSet.rules_base]; decide) (by decide) (by decide)

/-- The name `a` would lead on to the `AS`, but the added keyword takes both. -/
theorem diverts_asRules :
    asRules.Diverts "SELECT a AS x".toList "AS".toList " x".toList (.keyword .AS) := by
  obtain ⟨hSelect, hTaken⟩ :
      (RuleSet.base.union asRules).Finds "SELECT".toList " a AS x".toList (.keyword .SELECT) ∧
      (RuleSet.base.union asRules).first? "a AS x".toList =
        some ("a AS".toList, some (.keyword .AND)) := by decide +kernel
  have hName : RuleSet.base.Finds "a".toList " AS x".toList (.identifier "a" none) := by
    decide +kernel
  have hBlank : ∀ rest, Text.Gap [' '] rest := fun rest => .blank rfl (.none rest)
  refine ⟨_, _, "a AS x".toList, .token hSelect (by decide) (.gap (hBlank _) .done),
    .lexeme (.of_base hName) (.gap (hBlank _) (.here _)), by decide +kernel,
    ⟨_, Or.inl List.mem_cons_self, by decide +kernel⟩, ?_⟩
  intro other rest kind hText hFinds
  have hFirst := hFinds.first
  rw [← hText, hTaken, Option.some.injEq, Prod.mk.injEq] at hFirst
  obtain ⟨rfl, -⟩ := hFirst
  obtain rfl : " x".toList = rest := @List.append_cancel_left _ "a AS".toList _ _ hText
  exact ⟨fun hPassage => absurd hPassage.suffix.length_le (by decide), fun h => by simp at h⟩

/-- The alias `b` is read, where the lexer is not led off its way to it; the alias
`x` is not, where a keyword takes the `AS` before it. -/
theorem readsAlias_iff_fetchRules :
    (((base "fetch").withTokens fetchRules).parse "SELECT a b" = .ok (aliasedQuery "b") ∧
      ¬fetchRules.Takes "b".toList ∧
      ((base "fetch").withTokens fetchRules).tokens.ReadsAlias "SELECT a AS b".toList
        "SELECT a ".toList "b" [] ∧
      ¬fetchRules.Diverts "SELECT a AS b".toList "AS".toList " b".toList (.keyword .AS)) ∧
    (((base "as").withTokens asRules).parse "SELECT a x" = .ok (aliasedQuery "x") ∧
      ¬asRules.Takes "x".toList ∧
      ¬((base "as").withTokens asRules).tokens.ReadsAlias "SELECT a AS x".toList
        "SELECT a ".toList "x" [] ∧
      asRules.Diverts "SELECT a AS x".toList "AS".toList " x".toList (.keyword .AS)) := by
  obtain ⟨hPlain, hText⟩ : (renderAlias "b" = "b" ∧ renderAlias "x" = "x") ∧
      (aliasedQuery "b").render = "SELECT a AS b" ∧
      (aliasedQuery "x").render = "SELECT a AS x" := by decide +kernel
  constructor
  · obtain ⟨hParse, hSelect, hName, hAs, hAlias⟩ :
        ((base "fetch").withTokens fetchRules).parse "SELECT a b" = .ok (aliasedQuery "b") ∧
        (RuleSet.base.union fetchRules).Finds "SELECT".toList " a AS b".toList
          (.keyword .SELECT) ∧
        (RuleSet.base.union fetchRules).Finds "a".toList " AS b".toList (.identifier "a" none) ∧
        (RuleSet.base.union fetchRules).Finds "AS".toList " b".toList (.keyword .AS) ∧
        (RuleSet.base.union fetchRules).Finds "b".toList [] (.identifier "b" none) := by
      decide +kernel
    have hFree : ¬fetchRules.Takes "b".toList := by
      rintro ⟨rule, hMem, found, hMatch, -⟩
      obtain rfl := List.mem_singleton.1 hMem
      cases hMatch
    have hMain := (readsAlias_iff addsKeywords_fetchRules hParse).2 _ "b" _ _
      (stands_aliasedName "b") rfl (by rwa [hPlain.1])
    have hBlank : ∀ rest, Text.Gap [' '] rest := fun rest => .blank rfl (.none rest)
    have hReads : ((base "fetch").withTokens fetchRules).tokens.ReadsAlias "SELECT a AS b".toList
        "SELECT a ".toList "b" [] := by
      rw [RuleSet.ReadsAlias, hPlain.1]
      exact ⟨_, _, .token hSelect (by decide) (.gap (hBlank _) (.token hName (by decide)
        (.gap (hBlank _) .done))), hAs, hAlias⟩
    rw [hPlain.1, hText.1] at hMain
    exact ⟨hParse, hFree, hReads, hMain.1 hReads⟩
  · have hParse : ((base "as").withTokens asRules).parse "SELECT a x" =
        .ok (aliasedQuery "x") := by decide +kernel
    have hFree : ¬asRules.Takes "x".toList := by
      rintro ⟨rule, hMem, found, hMatch, -⟩
      obtain rfl := List.mem_singleton.1 hMem
      cases hMatch
    have hMain := (readsAlias_iff addsKeywords_asRules hParse).2 _ "x" _ _
      (stands_aliasedName "x") rfl (by rwa [hPlain.2])
    rw [hPlain.2, hText.2] at hMain
    exact ⟨hParse, hFree, fun hReads => hMain.1 hReads diverts_asRules, diverts_asRules⟩

/-- An added keyword may take an alias that is written bare, or the `AS` before
it. -/
theorem exists_alias_misread :
    (fetchRules.AddsKeywords ∧
      ((base "fetch").withTokens fetchRules).tokens.commentFree "SELECT a AS `fetch`" = true ∧
      ((base "fetch").withTokens fetchRules).parse "SELECT a AS `fetch`" =
        .ok (aliasedQuery "fetch") ∧
      (aliasedName "fetch").Stands "SELECT ".toList (aliasedQuery "fetch") [] ∧
      ¬((base "fetch").withTokens fetchRules).tokens.ReadsAlias
        (aliasedQuery "fetch").render.toList "SELECT a ".toList "fetch" []) ∧
    (asRules.AddsKeywords ∧
      ((base "as").withTokens asRules).tokens.commentFree "SELECT a x" = true ∧
      ((base "as").withTokens asRules).parse "SELECT a x" = .ok (aliasedQuery "x") ∧
      (aliasedName "x").Stands "SELECT ".toList (aliasedQuery "x") [] ∧
      ¬((base "as").withTokens asRules).tokens.ReadsAlias
        (aliasedQuery "x").render.toList "SELECT a ".toList "x" []) := by
  constructor
  · obtain ⟨hFree, hParse, hKinds⟩ :
        ((base "fetch").withTokens fetchRules).tokens.commentFree "SELECT a AS `fetch`" = true ∧
        ((base "fetch").withTokens fetchRules).parse "SELECT a AS `fetch`" =
          .ok (aliasedQuery "fetch") ∧
        (((base "fetch").withTokens fetchRules).tokens.tokenize
          (aliasedQuery "fetch").render).map (fun stream => stream.ahead.map (·.kind)) =
          .ok [.keyword .SELECT, .identifier "a" none, .keyword .AS, .keyword .LIMIT] := by
      decide +kernel
    refine ⟨addsKeywords_fetchRules, hFree, hParse, stands_aliasedName _, fun hReads => ?_⟩
    obtain ⟨before, quote, further, hTokens⟩ := hReads.exists_kinds hKinds
    have hMem : TokenKind.identifier "fetch" quote ∈
        [.keyword .SELECT, .identifier "a" none, .keyword .AS, .keyword .LIMIT] := by
      simp [hTokens]
    simp at hMem
  · obtain ⟨hFree, hParse, hKinds⟩ :
        ((base "as").withTokens asRules).tokens.commentFree "SELECT a x" = true ∧
        ((base "as").withTokens asRules).parse "SELECT a x" = .ok (aliasedQuery "x") ∧
        (((base "as").withTokens asRules).tokens.tokenize
          (aliasedQuery "x").render).map (fun stream => stream.ahead.map (·.kind)) =
          .ok [.keyword .SELECT, .keyword .AND, .identifier "x" none] := by
      decide +kernel
    refine ⟨addsKeywords_asRules, hFree, hParse, stands_aliasedName _, fun hReads => ?_⟩
    obtain ⟨before, quote, further, hTokens⟩ := hReads.exists_kinds hKinds
    have hMem : TokenKind.keyword .AS ∈
        [.keyword .SELECT, .keyword .AND, .identifier "x" none] := by
      simp [hTokens]
    simp at hMem

end Grammar

end SqlQuery
