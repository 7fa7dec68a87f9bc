import Mathlib.Data.List.Basic
import SqlQuery.Grammar.Extension
import SqlQuery.Node.Equality
import SqlQuery.Proofs.Comparison
import SqlQuery.Proofs.RuleOrder

/-!
# Extensions of the shared grammar

A grammar is built upon the shared one by adding token rules and productions,
in any number and order.  As long as the added rules have new names and rank no
higher than the shared ones, whatever they recognise and whatever the added
productions do, a text that has a tree under the shared grammar keeps it.

The order of the rules matters for this, and so does the absence of any way
back: a rule is asked only where all rules before it find nothing, a production
only where no production before it starts, and a parser that has failed is
nowhere asked again for something else.

## Main definitions

* `Addition` — one step in building a grammar.
* `Addition.Minor` — an addition that does not outrank what is shared.

## Main results

* `Grammar.ExtendsBase.extended` — the shared rules and productions stay in
  front of all that is added.
* `Grammar.parse_extended` — texts keep their trees under additions.
-/

namespace SqlQuery

/-! ## Additions -/

/-- A rule with a new name and a priority that is not above any of the shared
rules. -/
def TokenRule.Minor (rule : TokenRule) : Prop :=
  rule.name ∉ RuleSet.base.rules.map (·.name) ∧ rule.priority ≤ 10

instance (rule : TokenRule) : Decidable rule.Minor :=
  inferInstanceAs (Decidable (_ ∧ _))

/-- One step in building a grammar. -/
inductive Addition where
  | tokens (rules : RuleSet)
  | production (added : Production)

namespace Addition

def apply (addition : Addition) (grammar : Grammar) : Grammar :=
  match addition with
  | .tokens rules => grammar.withTokens rules
  | .production added => grammar.withProduction added

/-- An addition that does not outrank what is shared.  A production never
does. -/
def Minor : Addition → Prop
  | .tokens rules => ∀ rule ∈ rules.rules, rule.Minor
  | .production _ => True

end Addition

namespace Grammar

/-- The grammar after additions, the first one first. -/
def extended (grammar : Grammar) (additions : List Addition) : Grammar :=
  additions.foldl (fun grammar addition => addition.apply grammar) grammar

/-- A grammar in which the shared rules and productions come first. -/
structure ExtendsBase (grammar : Grammar) : Prop where
  tokens : ∃ further, grammar.tokens.rules = RuleSet.base.rules ++ further ∧
    ∀ rule ∈ further, rule.Minor
  productions : ∃ further, grammar.productions = Production.base ++ further
  precedence : grammar.precedence = .base

end Grammar

/-! ## The order of rules after a union -/

namespace RuleSet

variable {rules further : List TokenRule} {rule other : TokenRule}

theorem place_append (hNew : rule.name ∉ rules.map (·.name)) :
    place (rules ++ further) rule = rules ++ place further rule := by
  induction rules with
  | nil => rfl
  | cons first rest ih =>
    rw [List.map_cons, List.mem_cons, not_or] at hNew
    have hFirst : (first.name == rule.name) = false := beq_false_of_ne fun h => hNew.1 h.symm
    rw [List.cons_append, place, hFirst, if_neg Bool.false_ne_true, ih hNew.2]
    rfl

theorem mem_of_mem_place (hMem : other ∈ place rules rule) : other ∈ rules ∨ other = rule := by
  induction rules with
  | nil => exact Or.inr (List.mem_singleton.1 hMem)
  | cons first rest ih =>
    rw [place] at hMem
    split at hMem
    · rcases List.mem_cons.1 hMem with hMem | hMem
      · exact Or.inr hMem
      · exact Or.inl (List.mem_cons_of_mem _ hMem)
    · rcases List.mem_cons.1 hMem with hMem | hMem
      · exact Or.inl (hMem ▸ List.mem_cons_self)
      · exact (ih hMem).imp_left (List.mem_cons_of_mem _)

/-- Rules with new names are placed behind those that are there. -/
theorem foldl_place_append {added : List TokenRule}
    (hNew : ∀ rule ∈ added, rule.name ∉ rules.map (·.name)) :
    added.foldl place (rules ++ further) = rules ++ added.foldl place further := by
  induction added generalizing further with
  | nil => rfl
  | cons rule added ih =>
    obtain ⟨hRule, hAdded⟩ := List.forall_mem_cons.1 hNew
    rw [List.foldl_cons, place_append hRule, ih hAdded]
    rfl

theorem mem_of_mem_foldl_place {added : List TokenRule} (hMem : other ∈ added.foldl place rules) :
    other ∈ rules ∨ other ∈ added := by
  induction added generalizing rules with
  | nil => exact Or.inl hMem
  | cons rule added ih =>
    rcases ih hMem with hMem | hMem
    · rcases mem_of_mem_place hMem with hMem | rfl
      · exact Or.inl hMem
      · exact Or.inr List.mem_cons_self
    · exact Or.inr (List.mem_cons_of_mem _ hMem)

theorem falling_base : Falling base.rules := by
  rw [rules_base]
  decide

theorem le_priority_of_mem_base (hMem : rule ∈ base.rules) : 10 ≤ rule.priority := by
  have hAll : ∀ rule ∈ phrases ++ lower, 10 ≤ rule.priority := by decide
  exact hAll rule (rules_base ▸ hMem)

end RuleSet

/-! ## Additions leave the shared part in front -/

theorem Grammar.ExtendsBase.apply {grammar : Grammar} (hGrammar : grammar.ExtendsBase)
    {addition : Addition} (hMinor : addition.Minor) : (addition.apply grammar).ExtendsBase := by
  obtain ⟨⟨further, hTokens, hFurther⟩, ⟨added, hProductions⟩, hPrecedence⟩ := hGrammar
  cases addition with
  | tokens rules =>
    have hAll : ∀ rule ∈ RuleSet.byPriority (rules.rules.foldl RuleSet.place further),
        rule.Minor := by
      intro rule hMem
      rcases RuleSet.mem_of_mem_foldl_place (RuleSet.mem_byPriority_iff.1 hMem) with hMem | hMem
      · exact hFurther rule hMem
      · exact hMinor rule hMem
    refine ⟨⟨_, ?_, hAll⟩, ⟨added, hProductions⟩, hPrecedence⟩
    show RuleSet.byPriority (rules.rules.foldl RuleSet.place grammar.tokens.rules) = _
    rw [hTokens, RuleSet.foldl_place_append fun rule hMem => (hMinor rule hMem).1]
    exact RuleSet.byPriority_append RuleSet.falling_base fun rule hMem other hOther =>
      Nat.le_trans (hAll other hOther).2 (RuleSet.le_priority_of_mem_base hMem)
  | production production =>
    refine ⟨⟨further, hTokens, hFurther⟩, ⟨added ++ [production], ?_⟩, hPrecedence⟩
    show grammar.productions ++ [production] = _
    rw [hProductions, List.append_assoc]

theorem Grammar.ExtendsBase.extended {grammar : Grammar} (hGrammar : grammar.ExtendsBase)
    {additions : List Addition} (hMinor : ∀ addition ∈ additions, addition.Minor) :
    (grammar.extended additions).ExtendsBase := by
  induction additions generalizing grammar with
  | nil => exact hGrammar
  | cons addition additions ih =>
    obtain ⟨hAddition, hRest⟩ := List.forall_mem_cons.1 hMinor
    exact ih (hGrammar.apply hAddition) hRest

theorem Grammar.extendsBase_base (name : String) : (Grammar.base name).ExtendsBase :=
  ⟨⟨[], (List.append_nil _).symm, fun _ hMem => absurd hMem List.not_mem_nil⟩,
    ⟨[], (List.append_nil _).symm⟩, rfl⟩

/-! ## Tokens -/

namespace Lexer

/-- The lexer with other rules. -/
def withRules (lexer : Lexer) (rules : RuleSet) : Lexer := { lexer with rules := rules }

theorem rules_of_next {lexer after : Lexer} {reply : Except LexicalError Token}
    (hNext : lexer.next = (reply, after)) :
    after.rules = lexer.rules := by
  rw [next, read] at hNext
  split at hNext
  · cases hNext
    rfl
  · split at hNext <;> cases hNext <;> rfl

/-- A reading with other rules is the same if the first match is. -/
theorem next_withRules {lexer : Lexer} {rules : RuleSet}
    (hMatch : lexer.skip.rest ≠ [] →
      (lexer.withRules rules).skip.firstMatch? = lexer.skip.firstMatch?) :
    (lexer.withRules rules).next = (lexer.next.1, lexer.next.2.withRules rules) := by
  have hSkip : (lexer.withRules rules).skip = lexer.skip.withRules rules := rfl
  rw [next, next, hSkip]
  rw [hSkip] at hMatch
  generalize lexer.skip = lexer' at hMatch
  rw [read, read]
  show (if lexer'.rest.isEmpty then _ else _) = _
  split
  · rfl
  · next hRest =>
    rw [hMatch fun h => hRest (List.isEmpty_iff.2 h)]
    split <;> rfl

/-- Rules that are asked last do not disturb a reading that succeeds. -/
theorem tokenizeWithin_withRules {limit : Nat} {lexer : Lexer} {rules : RuleSet}
    {stream : TokenStream} {further : List TokenRule}
    (hRules : rules.rules = lexer.rules.rules ++ further)
    (hTokens : lexer.tokenizeWithin limit = .ok stream) :
    (lexer.withRules rules).tokenizeWithin limit = .ok stream := by
  induction limit generalizing lexer stream with
  | zero => cases hTokens
  | succ limit ih =>
    rw [tokenizeWithin] at hTokens ⊢
    split at hTokens
    · cases hTokens
    · next token after hNext =>
      -- A reading that succeeds has found a match among the rules asked first.
      have hMatch : lexer.skip.rest ≠ [] →
          (lexer.withRules rules).skip.firstMatch? = lexer.skip.firstMatch? := by
        intro hRest
        have hSome : lexer.skip.firstMatch? ≠ none := by
          intro hNone
          rw [next, read, if_neg fun h => hRest (List.isEmpty_iff.1 h), hNone] at hNext
          cases hNext
        obtain ⟨found, hFound⟩ := Option.ne_none_iff_exists'.1 hSome
        show rules.rules.findSome? (fun rule => rule.match? lexer.skip.rest) = _
        rw [hRules, List.findSome?_append]
        show lexer.skip.firstMatch?.or _ = _
        rw [hFound]
        rfl
      rw [next_withRules hMatch, hNext]
      dsimp only
      split at hTokens
      · next hFinish =>
        rw [if_pos hFinish]
        exact hTokens
      · next hFinish =>
        rw [if_neg hFinish]
        cases hRest : after.tokenizeWithin limit with
        | error e => rw [hRest] at hTokens; cases hTokens
        | ok rest =>
          rw [hRest] at hTokens
          rw [ih ((rules_of_next hNext).symm ▸ hRules) hRest]
          exact hTokens

end Lexer

/-! ## Statements -/

/-- Runs on the same stream, of which the second need only follow the first
until that fails. -/
def Comparison.successes : Comparison where
  Streams stream stream' := stream = stream'
  Errors e e' := e = e'
  Waived _ := True
  view := id
  view_append := @view_append_id
  length_eq h := by rw [h]
  peek_alike h n := by
    rw [h]
    exact .same _
  lexeme_eq h := by rw [h]
  streams_advance h := by rw [h]
  errors_unexpected h _ := by rw [h]
  errors_structural := structural_refl
  errors_tooDeep := rfl

namespace Grammar

variable {grammar : Grammar}

/-- A production that the shared grammar finds is found first. -/
theorem ExtendsBase.production? (hGrammar : grammar.ExtendsBase) {name : String} {symbol : Symbol}
    {kind : TokenKind} {production : Production}
    (hFound : (base name).production? symbol kind = some production) :
    grammar.production? symbol kind = some production := by
  obtain ⟨further, hProductions⟩ := hGrammar.productions
  have hFind : ((Production.base.filter (·.symbol == symbol)).find? (·.starts kind)) =
      some production := hFound
  rw [Grammar.production?, alternatives, hProductions, List.filter_append, List.find?_append, hFind]
  rfl

theorem ExtendsBase.grammars (hGrammar : grammar.ExtendsBase) (name : String) :
    Comparison.successes.Grammars (base name) grammar where
  precedence := hGrammar.precedence.symm
  derive symbol expected inner inner' hLevels := by
    refine .current_bind fun kind kind' text text' span span' hKind _ => ?_
    obtain rfl := hKind.eq_of_id
    dsimp only
    cases hFound : (base name).production? symbol kind with
    | none => exact fun _ _ _ => .waived trivial
    | some production =>
      rw [hGrammar.production? hFound]
      have hMem := List.mem_filter.1 (List.mem_of_find?_eq_some hFound)
      exact (Comparison.reduces_of_mem_base hMem.1).reduce hLevels

/-- Texts keep their trees in a grammar in which the shared part comes first. -/
theorem ExtendsBase.parse_eq (hGrammar : grammar.ExtendsBase) {name source : String} {node : Node}
    (hParse : (base name).parse source = .ok node) : grammar.parse source = .ok node := by
  cases hTokens : (base name).tokens.tokenize source with
  | error e =>
    rw [parse_of_tokenize_error hTokens] at hParse
    cases hParse
  | ok stream =>
    obtain ⟨further, hRules, -⟩ := hGrammar.tokens
    have hTokens' : grammar.tokens.tokenize source = .ok stream :=
      Lexer.tokenizeWithin_withRules hRules hTokens
    have hReplies := (hGrammar.grammars name).statement stream stream rfl
    rw [parse_of_tokenize hTokens] at hParse
    rw [parse_of_tokenize hTokens']
    generalize (base name).statement stream = reply at hReplies hParse
    generalize grammar.statement stream = reply' at hReplies
    cases hReplies with
    | ok hValue _ =>
      rw [← eq_of_mapTexts_id hValue]
      exact hParse
    | fail _ => cases hParse
    | waived _ => cases hParse

/--
**Additions never take a tree away**: let a grammar be built upon the shared one
by any sequence of additions, in which every token rule has a new name and a
priority of at most 10, the lowest of a shared rule.  A text with a tree under
the shared grammar has the same tree under the new one.
-/
theorem parse_extended {name : String} {additions : List Addition}
    (hMinor : ∀ addition ∈ additions, addition.Minor) {source : String} {node : Node}
    (hParse : (base "base").parse source = .ok node) :
    ((base name).extended additions).parse source = .ok node :=
  ((extendsBase_base name).extended hMinor).parse_eq hParse

end Grammar

/-- A rule for a mark that reads it as a plus sign, a rule that takes any text, a
production between semicolons, productions of operands and of sources that start
anywhere, and a rule that replaces the first. -/
def intrusiveAdditions : List Addition :=
  [ .tokens (.ofRules
      [ .symbol "HASH" 10 "#" .plus,
        .scanned "ANYTHING" 10 (fun cs => some cs.length) fun _ => some .finish ]),
    .production ⟨.operand, "delimited", (·.sameForm .semicolon), Production.reduceDelimited⟩,
    .production ⟨.operand, "anything", fun _ => true, Production.reduceNull⟩,
    .production ⟨.source, "anywhere", fun _ => true, Production.reduceVerbatim⟩,
    .tokens (.ofRules [.symbol "HASH" 3 "SELECT" .question]) ]

/-- The additions leave a text with a tree alone, and give a tree to one without. -/
theorem Grammar.parse_extended_intrusive :
    ((Grammar.base "custom").extended intrusiveAdditions).parse "SELECT a FROM t" =
        .ok (.ofForm (.select
          { targets := [.identifier "a" none], source := some (.identifier "t" none) })) ∧
      (Grammar.base "base").parse "SELECT ; a, = ; FROM 1" =
        .error (.grammatical (.unexpected "expression" .semicolon ⟨7, 8⟩)) ∧
      ((Grammar.base "custom").extended intrusiveAdditions).parse "SELECT ; a, = ; FROM 1" =
        .ok (.ofForm (.select
          { targets := [.tuple [.identifier "a" none, .null]],
            source := some (.identifier "1" none) })) := by
  have hRules : ∀ rule ∈ (RuleSet.ofRules
      [ .symbol "HASH" 10 "#" .plus,
        .scanned "ANYTHING" 10 (fun cs => some cs.length) fun _ => some .finish ]).rules ++
      (RuleSet.ofRules [.symbol "HASH" 3 "SELECT" .question]).rules, rule.Minor := by
    decide +kernel
  have hMinor : ∀ addition ∈ intrusiveAdditions, addition.Minor := by
    simp only [intrusiveAdditions, List.forall_mem_cons]
    exact ⟨fun rule hMem => hRules rule (List.mem_append_left _ hMem), trivial, trivial, trivial,
      fun rule hMem => hRules rule (List.mem_append_right _ hMem), by simp⟩
  exact ⟨Grammar.parse_extended hMinor (by decide +kernel), by decide +kernel, by decide +kernel⟩

end SqlQuery
