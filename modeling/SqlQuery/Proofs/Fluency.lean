import SqlQuery.Proofs.Partition
import SqlQuery.Proofs.Passing

/-!
# Parsed trees are fluent

What a node of a parsed tree holds was read from the text: a name, a literal, or
an operator as it was written.  Where keywords were added to the shared rules,
the operator may be one of them, with whatever blanks stood between its words.
All of these pass, and so every tree that is parsed with added keywords is
fluent.

## Main definitions

* `Glyph.Sound` — glyphs whose texts pass where a node may hold them.

## Main results

* `Derives.fluent` — derivations from sound glyphs give fluent trees.
* `Grammar.fluent_of_parse` — every tree parsed with added keywords is fluent.
-/

namespace SqlQuery

open Glyph (front)
open RuleSet (lower nameRule)

/-! ## Sound glyphs -/

namespace Glyph

/-- A glyph whose kind and text belong together, and a keyword whose text
passes, whatever its spelling. -/
def Sound (added : RuleSet) (glyph : Glyph) : Prop :=
  match glyph.kind with
  | .keyword _ => Passes added glyph.text.toList
  | _ => glyph.Genuine

/-- Every glyph of a list is sound. -/
def AllSound (added : RuleSet) (gs : List Glyph) : Prop := ∀ glyph ∈ gs, glyph.Sound added

variable {added : RuleSet} {glyph : Glyph} {gs hs : List Glyph}

namespace AllSound

theorem of_suffix (hSound : AllSound added gs) (hSuffix : hs <:+ gs) : AllSound added hs :=
  fun glyph hMem => hSound glyph (hSuffix.subset hMem)

theorem head (hSound : AllSound added (glyph :: gs)) : glyph.Sound added :=
  hSound glyph List.mem_cons_self

theorem tail (hSound : AllSound added (glyph :: gs)) : AllSound added gs :=
  hSound.of_suffix (List.suffix_cons glyph gs)

theorem of_derives {dialect : Dialect} {construct : Construct} (hSound : AllSound added gs)
    (hDerives : Derives dialect construct gs hs) : AllSound added hs :=
  hSound.of_suffix hDerives.suffix

end AllSound

/-- The text of an operator passes. -/
theorem Sound.passes {kind : TokenKind} {text : String} (hSound : Sound added ⟨kind, text⟩)
    {operator : OperatorClass}
    (hClass : kind.infixClass? .finish = some operator ∨ kind.prefixClass? = some operator) :
    Passes added text.toList := by
  cases kind with
  | keyword word => exact hSound
  | integer | float | text | identifier | userVariable | systemVariable | finish =>
    rcases hClass with h | h <;> cases h
  | _ => exact passes_mark hSound

end Glyph

open Glyph (AllSound)

variable {added : RuleSet}

section Words

variable {gs hs : List Glyph}

theorem NegatableWord.passes {word : Keyword} {negated : Bool} {op : String}
    (hWord : NegatableWord word negated op gs hs) (hSound : AllSound added gs) :
    Passes added op.toList := by
  cases hWord with
  | plain => exact hSound.head
  | negated =>
    have hNot : Passes added _ := hSound.head
    have hOther : Passes added _ := hSound.tail.head
    rw [String.toList_append, String.toList_append, List.append_assoc]
    exact hNot.joined joins_space hOther

theorem TypeWord.passes {word : String} (hWord : TypeWord word gs hs) (hSound : AllSound added gs) :
    Passes added word.toList := by
  cases hWord with
  | quoted =>
    obtain ⟨rfl, hValue⟩ := hSound.head
    exact passes_enclose hValue
  | bare => exact hSound.head.2.passes

theorem TypeWords.passes {words : List String} (hWords : TypeWords words gs hs)
    (hSound : AllSound added gs) : ∀ word ∈ words, Passes added word.toList := by
  induction hWords with
  | done => exact fun word hMem => absurd hMem List.not_mem_nil
  | more _ ih => exact List.forall_mem_cons.2 ⟨hSound.head.2.passes, ih hSound.tail⟩

theorem TypeSizes.passes {sizes : List String} (hSizes : TypeSizes sizes gs hs)
    (hSound : AllSound added gs) : ∀ size ∈ sizes, Passes added size.toList := by
  induction hSizes with
  | done => exact fun size hMem => absurd hMem List.not_mem_nil
  | more _ ih =>
    exact List.forall_mem_cons.2 ⟨passes_integer hSound.tail.head, ih hSound.tail.tail⟩

/-- The name of a type passes. -/
theorem TypeName.passes {name : String} (hName : TypeName name gs hs) (hSound : AllSound added gs) :
    Passes added name.toList := by
  cases hName with
  | plain hWord hWords =>
    exact passes_intercalate joins_space (hWord.passes hSound)
      (hWords.passes (hSound.of_suffix hWord.suffix))
  | sized hWord hWords hSizes =>
    have hAfter := hSound.of_suffix hWord.suffix
    have hSizesSound := hAfter.of_suffix hWords.suffix
    have hFirst : Passes added (" ".intercalate _).toList :=
      passes_intercalate joins_space (hWord.passes hSound) (hWords.passes hAfter)
    have hList : Passes added (", ".intercalate _).toList :=
      passes_intercalate (joins_comma.append joins_space)
        (passes_integer hSizesSound.tail.head) (hSizes.passes hSizesSound.tail.tail)
    have hAll := (hFirst.joined joins_opening hList).append joins_closing
    simpa using hAll

end Words

/-! ## Fluent derivations -/

/-- What a derivation says about the nodes of a construct. -/
def Construct.Fluent (added : RuleSet) : Construct → Prop
  | .operand node | .expression _ node | .item _ node | .source node | .select node
  | .query node => node.Fluent added
  | .extension _ left node | .operation left _ node | .joins left node =>
    left.Fluent added → node.Fluent added
  | .arguments nodes | .items _ nodes | .furtherItems _ nodes | .listClause _ _ nodes =>
    ∀ node ∈ nodes, node.Fluent added
  | .clause _ node | .sourceClause node => ∀ inner ∈ node, inner.Fluent added
  | .rules list => ∀ rule ∈ list, rule.1.Fluent added ∧ rule.2.Fluent added

namespace Node

variable {node other : Node}

theorem fluent_ofForm {form : Form Node} (hOwn : ∀ held ∈ form.own?, Passes added held.toList)
    (hParts : ∀ part ∈ form.parts, part.Fluent added) : (ofForm form).Fluent added :=
  .intro hOwn (by simp [ofForm]) hParts

/-- Decorations matter only as far as the alias is a name. -/
theorem Fluent.of_form_eq (hFluent : node.Fluent added) (hForm : other.form = node.form)
    (hAlias : ∀ name ∈ other.aliasName, IsName name) : other.Fluent added := by
  obtain ⟨hOwn, -, hParts⟩ := hFluent
  exact .intro (hForm ▸ hOwn) hAlias (hForm ▸ hParts)

theorem Fluent.withParentheses (hFluent : node.Fluent added) (parentheses : Bool) :
    (node.withParentheses parentheses).Fluent added :=
  hFluent.of_form_eq rfl hFluent.isName

theorem fluent_binary {op : String} {left right : Node} (hOp : Passes added op.toList)
    (hLeft : left.Fluent added) (hRight : right.Fluent added) :
    (binary op left right).Fluent added :=
  fluent_ofForm (by simpa [Form.own?] using hOp) (by simpa [Form.parts] using ⟨hLeft, hRight⟩)

end Node

theorem Aliased.fluent {node aliased : Node} {gs hs : List Glyph}
    (hAlias : Aliased node aliased gs hs) (hNode : node.Fluent added) (hSound : AllSound added gs) :
    aliased.Fluent added := by
  cases hAlias with
  | @introduced _ text name quote =>
    refine hNode.of_form_eq rfl fun other hOther => ?_
    cases hOther
    exact (Glyph.Genuine.isName hSound.tail.head).1
  | bare =>
    refine hNode.of_form_eq rfl fun other hOther => ?_
    cases hOther
    exact (Glyph.Genuine.isName hSound.head).1
  | absent => exact hNode

/-- A token that is an operand stands for a fluent node. -/
theorem Dialect.fluent_of_atom? {kind : TokenKind} {text : String} {node : Node}
    (hAtom : Dialect.generic.atom? kind = some node) (hSound : Glyph.Sound added ⟨kind, text⟩) :
    node.Fluent added := by
  have hLeaf : ∀ {form : Form Node} {held : String}, form.own? = some held → form.parts = [] →
      Passes added held.toList → (Node.ofForm form).Fluent added := by
    intro form held hOwn hParts hPasses
    exact Node.fluent_ofForm (by simpa [hOwn] using hPasses) (by simp [hParts])
  cases Dialect.atom_of_atom? hAtom with
  | integer value => exact hLeaf rfl rfl (Value.passes_render hSound)
  | float value => exact hLeaf rfl rfl (Value.passes_render hSound)
  | text value => exact hLeaf rfl rfl (Value.passes_render (not_and_or.2 hSound))
  | null => exact Node.fluent_ofForm (by simp [Form.own?]) (by simp [Form.parts])
  | truth => exact hLeaf rfl rfl (Keyword.passes_spelling .TRUE)
  | falsehood => exact hLeaf rfl rfl (Keyword.passes_spelling .FALSE)
  | parameter => exact hLeaf rfl rfl (@passes_mark _ .question _ (List.mem_singleton_self _))
  | everything => exact hLeaf rfl rfl (@passes_mark _ .star _ (List.mem_singleton_self _))
  | quoted value quote =>
    obtain ⟨rfl, hValue⟩ := hSound
    exact hLeaf rfl rfl (passes_enclose hValue)
  | userVariable _ hDialect | systemVariable _ hDialect => cases hDialect

theorem Dialect.fluent_of_table? {kind : TokenKind} {text : String} {node : Node}
    (hTable : Dialect.generic.table? kind = some node) (hSound : Glyph.Sound added ⟨kind, text⟩) :
    node.Fluent added := by
  cases kind with
  | identifier value quote =>
    cases hTable
    cases quote with
    | none =>
      exact Node.fluent_ofForm (by simpa [Form.own?, enclose] using hSound.2.passes)
        (by simp [Form.parts])
    | some quote => exact Dialect.fluent_of_atom? rfl hSound
  | _ => cases hTable

/-- Derivations from sound glyphs give fluent trees. -/
theorem Derives.fluent {construct : Construct} {gs hs : List Glyph}
    (hDerives : Derives .generic construct gs hs) (hSound : AllSound added gs) :
    construct.Fluent added := by
  induction hDerives with
  | atom hAtom => exact Dialect.fluent_of_atom? hAtom hSound.head
  | column => exact @Dialect.fluent_of_table? _ (.identifier _ none) _ _ rfl hSound.head
  | call hDistinct hArgs ih =>
    exact Node.fluent_ofForm (by simpa [Form.own?] using hSound.head.2.passes)
      (ih (hSound.tail.tail.of_suffix hDistinct.suffix))
  | unary hClass hArg ih =>
    exact Node.fluent_ofForm (by simpa [Form.own?] using hSound.head.passes (Or.inr hClass))
      (List.forall_mem_singleton.2 (ih hSound.tail))
  | subquery hFront hSelect ih => exact (ih hSound.tail).withParentheses true
  | grouped hFront hInner ih => exact (ih hSound.tail).withParentheses true
  | tuple hFront hFirst hComma hFurther ihFirst ihFurther =>
    exact Node.fluent_ofForm (by simp [Form.own?])
      (List.forall_mem_cons.2 ⟨ihFirst hSound.tail, ihFurther (hSound.tail.of_derives hFirst)⟩)
  | typeCast hArg hName ih =>
    have hAfter := (hSound.tail.tail.of_derives hArg).tail
    exact Node.fluent_ofForm (by simpa [Form.own?] using hName.passes hAfter)
      (List.forall_mem_singleton.2 (ih hSound.tail.tail))
  | caseWhen hFront hRules hDefault ihRules ihDefault =>
    have hRules' := ihRules hSound.tail
    have hDefault' := ihDefault (hSound.tail.of_derives hRules)
    exact Node.fluent_ofForm (by simp [Form.own?])
      (Form.forall_mem_parts_caseWhen.2 ⟨hRules', hDefault'⟩)
  | rulesDone => exact fun rule hRule => absurd hRule List.not_mem_nil
  | rulesMore hCondition hResult hRules ihCondition ihResult ihRules =>
    have hAfter := (hSound.tail.of_derives hCondition).tail
    exact List.forall_mem_cons.2
      ⟨⟨ihCondition hSound.tail, ihResult hAfter⟩, ihRules (hAfter.of_derives hResult)⟩
  | expression hFirst hExtension ihFirst ihExtension =>
    exact ihExtension (hSound.of_derives hFirst) (ihFirst hSound)
  | extensionDone => exact id
  | extensionMore hClass hLeast hOperation hExtension ihOperation ihExtension =>
    exact fun hLeft => ihExtension (hSound.of_derives hOperation) (ihOperation hSound hLeft)
  | binary hSimple hClass hRight ih =>
    exact fun hLeft =>
      Node.fluent_binary (hSound.head.passes (Or.inl hClass)) hLeft (ih hSound.tail)
  | @identity left right negated text gs hs is hNegated hRight ih =>
    have hOp : Passes added (if negated then "is not" else "is").toList := by
      have hIs : Passes added "is".toList := Text.IsWord.passes (by decide)
      have hNot : Passes added "not".toList := Text.IsWord.passes (by decide)
      cases negated
      · exact hIs
      · exact hIs.joined joins_space hNot
    exact fun hLeft =>
      Node.fluent_binary hOp hLeft (ih (hSound.tail.of_suffix hNegated.suffix))
  | likeness hWord hRight ih | membership hWord hFront hRight ih =>
    exact fun hLeft => Node.fluent_binary (hWord.passes hSound) hLeft
      (ih (hSound.of_suffix hWord.suffix))
  | membershipList hWord hFront hItems ih =>
    have hItems' := ih (hSound.of_suffix hWord.suffix).tail
    exact fun hLeft => Node.fluent_binary (hWord.passes hSound) hLeft
      (Node.fluent_ofForm (by simp [Form.own?]) hItems')
  | range hWord hLow hHigh ihLow ihHigh =>
    have hAfter := hSound.of_suffix hWord.suffix
    intro hLeft
    refine Node.fluent_ofForm (by simp [Form.own?]) ?_
    simp only [Form.parts, List.forall_mem_cons]
    exact ⟨hLeft, ihLow hAfter, ihHigh (hAfter.of_derives hLow).tail, by simp⟩
  | argumentsNone => exact fun node hNode => absurd hNode List.not_mem_nil
  | argumentsSome hFront hItems ih => exact ih hSound
  | items hFirst hFurther ihFirst ihFurther =>
    exact List.forall_mem_cons.2 ⟨ihFirst hSound, ihFurther (hSound.of_derives hFirst)⟩
  | furtherDone => exact fun node hNode => absurd hNode List.not_mem_nil
  | furtherMore hItem hFurther ihItem ihFurther =>
    exact List.forall_mem_cons.2 ⟨ihItem hSound.tail, ihFurther (hSound.tail.of_derives hItem)⟩
  | expressionItem hNode ih => exact ih hSound
  | target hNode hAlias ih => exact hAlias.fluent (ih hSound) (hSound.of_derives hNode)
  | entry hField hDirection hNulls ih =>
    exact Node.fluent_ofForm (by simp [Form.own?]) (List.forall_mem_singleton.2 (ih hSound))
  | table hTable hAlias =>
    exact hAlias.fluent (Dialect.fluent_of_table? hTable hSound.head) hSound.tail
  | derivedTable hSelect hAlias ih =>
    exact hAlias.fluent ((ih hSound.tail).withParentheses true)
      (hSound.tail.of_derives hSelect).tail
  | joinsDone => exact id
  | @joinsMore _ join left right _ condition _ _ _ is _ hKind hRight hComma hCondition hJoins
      ihRight ihCondition ihJoins =>
    intro hLeft
    have hAfter := hSound.tail.of_derives hRight
    have hInner := forall_joinCondition hComma fun hJoin => ihCondition hJoin hAfter
    refine ihJoins (hAfter.of_suffix (suffix_of_joinCondition hComma hCondition))
      (Node.fluent_ofForm (by simp [Form.own?]) ?_)
    simp only [Form.parts, List.forall_mem_cons, Option.mem_toList]
    exact ⟨hLeft, ihRight hSound.tail, hInner⟩
  | clauseNone => exact fun inner hInner => absurd hInner (Option.not_mem_none _)
  | clauseSome hNode ih => simpa [Construct.Fluent] using ih hSound.tail
  | listClauseNone => exact fun node hNode => absurd hNode List.not_mem_nil
  | listClauseSome hItems ih => exact ih hSound.tail
  | sourceClauseNone => exact fun inner hInner => absurd hInner (Option.not_mem_none _)
  | sourceClauseSome hFirst hJoins ihFirst ihJoins =>
    simpa [Construct.Fluent] using ihJoins (hSound.tail.of_derives hFirst) (ihFirst hSound.tail)
  | select hDistinct hTargets hSource hCondition hGroups hHaving hOrdering hLimit hOffset
      ihTargets ihSource ihCondition ihGroups ihHaving ihOrdering ihLimit ihOffset =>
    have h₂ := hSound.tail.of_suffix hDistinct.suffix
    have h₃ := h₂.of_derives hTargets
    have h₄ := h₃.of_derives hSource
    have h₅ := h₄.of_derives hCondition
    have h₆ := h₅.of_derives hGroups
    have h₇ := h₆.of_derives hHaving
    have h₈ := h₇.of_derives hOrdering
    have h₉ := h₈.of_derives hLimit
    refine Node.fluent_ofForm (by simp [Form.own?]) ?_
    simp only [Form.parts, Query.parts, List.forall_mem_append, Option.mem_toList]
    exact ⟨⟨⟨⟨⟨⟨⟨ihTargets h₂, ihSource h₃⟩, ihCondition h₄⟩, ihGroups h₅⟩, ihHaving h₆⟩,
      ihOrdering h₇⟩, ihLimit h₈⟩, ihOffset h₉⟩
  | bareQuery hFront hSelect ih => exact ih hSound
  | enclosedQuery hQuery ih => exact (ih hSound.tail).withParentheses true

/-! ## Glyphs of readings -/

namespace RuleSet

variable {cs text tail lexeme : List Char} {kind : TokenKind}

/-- Of the shared rules that are no phrases, only the one for names reads
keywords. -/
theorem eq_nameRule_of_keyword {rule : TokenRule} {word : Keyword} (hMem : rule ∈ lower)
    (hMatch : rule.match? cs = some (lexeme, some (.keyword word))) : rule = nameRule := by
  simp only [lower, List.mem_cons] at hMem
  rcases hMem with rfl | rfl | rfl | rfl | hMark
  · obtain ⟨length, -, -, -, hRead⟩ := TokenRule.scanned_match? hMatch
    rcases Token.readNumber_cases hRead with ⟨value, hKind⟩ | ⟨value, hKind⟩ <;> cases hKind
  · obtain ⟨length, -, -, -, hRead⟩ := TokenRule.scanned_match? hMatch
    obtain ⟨value, hKind⟩ := Token.exists_of_readText hRead
    cases hKind
  · obtain ⟨length, -, -, -, hRead⟩ := TokenRule.scanned_match? hMatch
    obtain ⟨value, hKind⟩ := Token.exists_of_readText hRead
    cases hKind
  · rfl
  · simp only [marks, List.mem_cons, List.not_mem_nil, or_false] at hMark
    rcases hMark with rfl | rfl | rfl | rfl | rfl | rfl | rfl | rfl | rfl | rfl | rfl | rfl | rfl |
      rfl | rfl | rfl | rfl | rfl <;> cases (TokenRule.symbol_match? hMatch).2

/-- A keyword that the rule for names reads is a word. -/
theorem isWord_of_nameRule {word : Keyword}
    (hMatch : nameRule.match? cs = some (lexeme, some (.keyword word))) : Text.IsWord lexeme := by
  obtain ⟨length, hLength, -, rfl, hRead⟩ := TokenRule.scanned_match? hMatch
  obtain ⟨text, rest, parts, rfl, rfl, hText⟩ := Token.exists_nameText_of_nameLength? hLength
  rw [List.take_left] at hRead ⊢
  rcases Token.readName_of_nameText hText with ⟨_, hParts, -, -⟩ | ⟨-, -, hKind⟩ | ⟨-, hKind⟩
  · cases hText with
    | single hPart =>
      cases hPart with
      | bare hStart hChars => exact ⟨hStart, hChars⟩
      | quoted => simp at hParts
    | starred => cases hParts
    | dotted _ hRest =>
      rw [(List.cons.inj hParts).2] at hRest
      cases hRest
  · rw [hRead] at hKind
    cases hKind
  · rw [hRead] at hKind
    cases hKind

/-- What the lexer finds with added keywords is sound. -/
theorem AddsKeywords.sound_of_first? (hAdded : added.AddsKeywords)
    (hGap : Text.gapLength (text ++ tail) = 0)
    (hFirst : (base.union added).first? (text ++ tail) = some (text, some kind)) :
    Glyph.Sound added ⟨kind, String.ofList text⟩ := by
  have hKeyword : ∀ {rule}, added.IsWording rule →
      rule.match? (text ++ tail) = some (text, some kind) →
      Glyph.Sound added ⟨kind, String.ofList text⟩ := by
    intro rule hRule hMatch
    obtain ⟨words, keyword, hVerbal⟩ := hAdded.exists_isVerbal hRule
    obtain ⟨_, _, _, _, _, -, -, -, -, -, hKind⟩ := hVerbal.match?_eq_some_iff.1 hMatch
    cases hKind
    show Passes added (String.ofList text).toList
    rw [String.toList_ofList]
    exact hVerbal.passes hRule hGap hMatch
  rcases first?_union_base hAdded.isNew hFirst with ⟨rule, hMem, hMatch⟩ | hBase
  · exact hKeyword (Or.inl hMem) hMatch
  · have hGenuine : Glyph.Genuine ⟨kind, String.ofList text⟩ :=
      @Dialect.genuine_of_match .generic _ _ _ hBase
    rw [first?, rules_base, List.findSome?_append, Option.or_eq_some_iff] at hBase
    rcases hBase with hPhrase | ⟨-, hLower⟩
    · obtain ⟨rule, hMem, hMatch⟩ := List.exists_of_findSome?_eq_some hPhrase
      exact hKeyword (Or.inr hMem) hMatch
    · obtain ⟨rule, hMem, hMatch⟩ := List.exists_of_findSome?_eq_some hLower
      cases kind with
      | keyword word =>
        obtain rfl := eq_nameRule_of_keyword hMem hMatch
        show Passes added (String.ofList text).toList
        rw [String.toList_ofList]
        exact (isWord_of_nameRule hMatch).passes
      | _ => exact hGenuine

/-- Every glyph of a reading with added keywords is sound. -/
theorem Reads.allSound (hAdded : added.AddsKeywords) {plain : Bool} {gs : List Glyph}
    (hReads : (base.union added).Reads plain cs gs) : AllSound added gs := by
  induction hReads with
  | done => exact fun _ hMem => absurd hMem List.not_mem_nil
  | @token gap lexeme rest kind gs hGap _ _ hFirst _ ih =>
    obtain ⟨gap', rest', hText, hLength, hEnd, -⟩ := Text.exists_gap (gap ++ (lexeme ++ rest))
    obtain ⟨-, rfl⟩ := List.append_inj hText (hGap.symm.trans hLength)
    exact List.forall_mem_cons.2 ⟨hAdded.sound_of_first? hEnd hFirst, ih⟩

end RuleSet

/-! ## Parsed trees -/

theorem TokenRule.IsVerbal.moving {rule : TokenRule} {words : List String} {keyword : Keyword}
    (hRule : rule.IsVerbal words keyword) : rule.Moving where
  length_pos cs length hLength := by
    have hMatch : rule.match? cs = some (cs.take length, rule.reading.apply (cs.take length)) :=
      TokenRule.match?_eq_some_iff.2 ⟨length, hLength, rfl, rfl⟩
    refine Nat.pos_of_ne_zero fun hZero => hRule.lexeme_ne_nil hMatch ?_
    rw [hZero, List.take_zero]
  ne_finish cs := by
    rw [hRule.reading]
    exact fun hKind => by cases hKind

theorem RuleSet.AddsKeywords.moving (hAdded : added.AddsKeywords) :
    ∀ rule ∈ (base.union added).rules, rule.Moving := by
  intro rule hMem
  rcases mem_union_base hMem with hBase | hNew
  · exact @Dialect.moving_of_mem .generic rule hBase
  · obtain ⟨words, keyword, hVerbal⟩ := hAdded.verbal rule hNew
    exact hVerbal.moving

/-- **Every tree parsed with added keywords is fluent.** -/
theorem Grammar.fluent_of_parse (hAdded : added.AddsKeywords) {name source : String} {node : Node}
    (hParse : ((base name).withTokens added).parse source = .ok node) : node.Fluent added := by
  rw [parse] at hParse
  split at hParse
  · cases hParse
  · next stream hTokens =>
    split at hParse
    · next node' rest hRun =>
      cases hParse
      have hStatement : ((base name).withTokens added).statement =
          Dialect.generic.grammar.statement := statement_congr rfl rfl
      rw [hStatement] at hRun
      obtain ⟨hReads, hClosed, hFinish⟩ := RuleSet.reads_of_tokenizeWithin
        hAdded.moving rfl hTokens fun h : false = true => absurd h Bool.false_ne_true
      have hSound := hReads.allSound hAdded
      rcases derives_of_statement hClosed hFinish hRun with hQuery | ⟨text, hQuery⟩
      · exact hQuery.fluent hSound
      · exact hQuery.fluent hSound
    · cases hParse

end SqlQuery
