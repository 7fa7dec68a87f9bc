import SqlQuery.Dialect

/-!
# The order of the token rules

The rules of a dialect are united by name and put in order by priority.  The
outcome is the same as writing the groups of rules one after another: phrases,
then variables where the dialect has them, numbers and texts, names, marks.

## Main results

* `RuleSet.rules_ofRules` — rules with distinct names and falling priorities
  stay as they are given.
* `Dialect.rules_tokens` — the rules of a dialect, group by group.
* `Dialect.isRule_of_mem` — the rules of the dialects, sort by sort.
-/

namespace SqlQuery

namespace RuleSet

/-! ## Union -/

/-- A rule with a new name goes to the end. -/
theorem place_of_forall_ne {rules : List TokenRule} {rule : TokenRule}
    (hNew : ∀ other ∈ rules, other.name ≠ rule.name) : place rules rule = rules ++ [rule] := by
  induction rules with
  | nil => rfl
  | cons other rest ih =>
    have hOther : (other.name == rule.name) = false := by
      rw [beq_eq_false_iff_ne]
      exact hNew other (List.mem_cons_self)
    rw [place, hOther, if_neg Bool.false_ne_true,
      ih fun other' hMem => hNew other' (List.mem_cons_of_mem _ hMem)]
    rfl

/-- Rules with new names go to the end in their order. -/
theorem foldl_place {rules further : List TokenRule}
    (hNames : ((rules ++ further).map (·.name)).Nodup) :
    further.foldl place rules = rules ++ further := by
  induction further generalizing rules with
  | nil => rw [List.append_nil]; rfl
  | cons rule rest ih =>
    have hNew : ∀ other ∈ rules, other.name ≠ rule.name := by
      intro other hMem hName
      rw [List.map_append, List.nodup_append] at hNames
      exact hNames.2.2 _ (List.mem_map_of_mem hMem) _ (List.mem_map_of_mem List.mem_cons_self) hName
    rw [List.foldl_cons, place_of_forall_ne hNew, ih (by simpa using hNames)]
    simp

/-! ## Priority -/

/-- A rule passes those of a higher priority and stops at the others. -/
theorem insertByPriority_append {rule : TokenRule} {higher lower : List TokenRule}
    (hHigher : ∀ other ∈ higher, rule.priority < other.priority)
    (hLower : ∀ other ∈ lower, other.priority ≤ rule.priority) :
    insertByPriority rule (higher ++ lower) = higher ++ rule :: lower := by
  induction higher with
  | nil =>
    cases lower with
    | nil => rfl
    | cons other rest => exact if_pos (hLower other List.mem_cons_self)
  | cons other rest ih =>
    have hOther := hHigher other List.mem_cons_self
    rw [List.cons_append, insertByPriority, if_neg (Nat.not_le.2 hOther),
      ih fun other' hMem => hHigher other' (List.mem_cons_of_mem _ hMem)]
    rfl

/-- The priorities of rules, one after another, do not rise. -/
def Falling (rules : List TokenRule) : Prop :=
  rules.Pairwise fun a b => b.priority ≤ a.priority

theorem perm_insertByPriority (rule : TokenRule) (rules : List TokenRule) :
    (insertByPriority rule rules).Perm (rule :: rules) := by
  induction rules with
  | nil => exact List.Perm.refl _
  | cons other rest ih =>
    rw [insertByPriority]
    split
    · exact List.Perm.refl _
    · exact (ih.cons other).trans (List.Perm.swap rule other rest)

/-- No rule is lost or added. -/
theorem perm_byPriority (rules : List TokenRule) : (byPriority rules).Perm rules := by
  induction rules with
  | nil => exact List.Perm.nil
  | cons rule rest ih => exact (perm_insertByPriority rule _).trans (ih.cons rule)

theorem mem_byPriority_iff {rules : List TokenRule} {rule : TokenRule} :
    rule ∈ byPriority rules ↔ rule ∈ rules :=
  (perm_byPriority rules).mem_iff

theorem falling_insertByPriority {rules : List TokenRule} (rule : TokenRule)
    (hRules : Falling rules) : Falling (insertByPriority rule rules) := by
  induction rules with
  | nil => exact List.pairwise_singleton _ _
  | cons other rest ih =>
    obtain ⟨hOther, hRest⟩ := List.pairwise_cons.1 hRules
    rw [insertByPriority]
    split
    · next hLower =>
      refine List.pairwise_cons.2 ⟨fun third hMem => ?_, hRules⟩
      rcases List.mem_cons.1 hMem with rfl | hMem
      · exact hLower
      · exact Nat.le_trans (hOther third hMem) hLower
    · next hHigher =>
      refine List.pairwise_cons.2 ⟨fun third hMem => ?_, ih hRest⟩
      rcases List.mem_cons.1 ((perm_insertByPriority rule rest).subset hMem) with rfl | hMem
      · omega
      · exact hOther third hMem

theorem falling_byPriority (rules : List TokenRule) : Falling (byPriority rules) := by
  induction rules with
  | nil => exact List.Pairwise.nil
  | cons rule rest ih => exact falling_insertByPriority rule ih

/-- A rule finds its place without regard to the rules that are left out. -/
theorem filter_insertByPriority (test : TokenRule → Bool) {rules : List TokenRule}
    (hRules : Falling rules) {rule : TokenRule} (hRule : test rule = true) :
    (insertByPriority rule rules).filter test = insertByPriority rule (rules.filter test) := by
  induction rules with
  | nil => simp [insertByPriority, hRule]
  | cons first rest ih =>
    obtain ⟨hFirst, hRest⟩ := List.pairwise_cons.1 hRules
    rw [insertByPriority]
    split
    · next hLower =>
      -- All that follows ranks no higher than `first`, so neither does what stays of it.
      have hAll : ∀ other ∈ (first :: rest).filter test, other.priority ≤ rule.priority := by
        intro other hMem
        rcases List.mem_cons.1 (List.mem_filter.1 hMem).1 with rfl | hMem
        · exact hLower
        · exact Nat.le_trans (hFirst other hMem) hLower
      rw [List.filter_cons_of_pos hRule]
      exact (insertByPriority_append (fun _ hMem => absurd hMem List.not_mem_nil) hAll).symm
    · next hHigher =>
      cases hTest : test first with
      | true =>
        rw [List.filter_cons_of_pos hTest, List.filter_cons_of_pos hTest, ih hRest,
          insertByPriority, if_neg hHigher]
      | false =>
        rw [List.filter_cons_of_neg (by simp [hTest]), List.filter_cons_of_neg (by simp [hTest]),
          ih hRest]

theorem filter_insertByPriority_of_not (test : TokenRule → Bool) {rule : TokenRule}
    (hRule : test rule = false) (rules : List TokenRule) :
    (insertByPriority rule rules).filter test = rules.filter test := by
  induction rules with
  | nil => simp [insertByPriority, hRule]
  | cons first rest ih =>
    rw [insertByPriority]
    split
    · exact List.filter_cons_of_neg (by simp [hRule])
    · rw [List.filter_cons, List.filter_cons, ih]

/-- Rules are put in order without regard to those that are left out. -/
theorem filter_byPriority (test : TokenRule → Bool) (rules : List TokenRule) :
    (byPriority rules).filter test = byPriority (rules.filter test) := by
  induction rules with
  | nil => rfl
  | cons rule rest ih =>
    rw [byPriority]
    cases hTest : test rule with
    | true =>
      rw [filter_insertByPriority test (falling_byPriority rest) hTest, ih,
        List.filter_cons_of_pos hTest, byPriority]
    | false =>
      rw [filter_insertByPriority_of_not test hTest, ih, List.filter_cons_of_neg (by simp [hTest])]

/-- Rules that are in order and come before the rest stay where they are. -/
theorem byPriority_append {first rest : List TokenRule} (hFirst : Falling first)
    (hRest : ∀ rule ∈ first, ∀ other ∈ byPriority rest, other.priority ≤ rule.priority) :
    byPriority (first ++ rest) = first ++ byPriority rest := by
  induction first with
  | nil => rfl
  | cons rule first ih =>
    obtain ⟨hRule, hFirst⟩ := List.pairwise_cons.1 hFirst
    have hTail := ih hFirst fun other hMem => hRest other (List.mem_cons_of_mem _ hMem)
    have hLower : ∀ other ∈ first ++ byPriority rest, other.priority ≤ rule.priority := by
      intro other hMem
      rcases List.mem_append.1 hMem with hMem | hMem
      · exact hRule other hMem
      · exact hRest rule List.mem_cons_self other hMem
    rw [List.cons_append, byPriority, hTail]
    exact insertByPriority_append (fun _ h => absurd h List.not_mem_nil) hLower

theorem byPriority_of_falling {rules : List TokenRule} (hRules : Falling rules) :
    byPriority rules = rules := by
  have hAppend : byPriority (rules ++ []) = rules ++ byPriority [] :=
    byPriority_append hRules fun _ _ _ hMem => absurd hMem List.not_mem_nil
  simpa [byPriority] using hAppend

/-- Rules of higher priorities that come in last move to the front. -/
theorem byPriority_append_swap {rules further : List TokenRule} (hRules : Falling rules)
    (hFurther : Falling further)
    (hHigher : ∀ rule ∈ rules, ∀ other ∈ further, rule.priority < other.priority) :
    byPriority (rules ++ further) = further ++ rules := by
  induction rules with
  | nil => simpa using byPriority_of_falling hFurther
  | cons rule rest ih =>
    obtain ⟨hRule, hRest⟩ := List.pairwise_cons.1 hRules
    rw [List.cons_append, byPriority, ih hRest fun other hMem => hHigher other
      (List.mem_cons_of_mem _ hMem)]
    exact insertByPriority_append (hHigher rule List.mem_cons_self) hRule

/-- Rules with distinct names and falling priorities stay as they are. -/
theorem rules_ofRules {rules : List TokenRule} (hNames : (rules.map (·.name)).Nodup)
    (hFalling : Falling rules) : (ofRules rules).rules = rules := by
  rw [ofRules, union, empty, foldl_place (by simpa using hNames)]
  exact byPriority_of_falling hFalling

/-! ## Groups of rules -/

/-- The rules of keyword phrases. -/
def phrases : List TokenRule :=
  [ .phrase "LEFT_OUTER_JOIN" 41 ["LEFT", "OUTER", "JOIN"] .LEFT_JOIN,
    .phrase "RIGHT_OUTER_JOIN" 41 ["RIGHT", "OUTER", "JOIN"] .RIGHT_JOIN,
    .phrase "FULL_OUTER_JOIN" 41 ["FULL", "OUTER", "JOIN"] .FULL_JOIN,
    .phrase "GROUP_BY" 40 ["GROUP", "BY"] .GROUP_BY,
    .phrase "ORDER_BY" 40 ["ORDER", "BY"] .ORDER_BY,
    .phrase "NULLS_FIRST" 40 ["NULLS", "FIRST"] .NULLS_FIRST,
    .phrase "NULLS_LAST" 40 ["NULLS", "LAST"] .NULLS_LAST,
    .phrase "INNER_JOIN" 40 ["INNER", "JOIN"] .INNER_JOIN,
    .phrase "LEFT_JOIN" 40 ["LEFT", "JOIN"] .LEFT_JOIN,
    .phrase "RIGHT_JOIN" 40 ["RIGHT", "JOIN"] .RIGHT_JOIN,
    .phrase "FULL_JOIN" 40 ["FULL", "JOIN"] .FULL_JOIN,
    .phrase "CROSS_JOIN" 40 ["CROSS", "JOIN"] .CROSS_JOIN ]

def number : TokenRule := .scanned "NUMBER" 30 Token.numberLength? Token.readNumber

def singleText : TokenRule :=
  .scanned "STRING_SINGLE" 30 (Token.quotedLength? '\x27') Token.readText

def doubleText : TokenRule :=
  .scanned "STRING_DOUBLE" 30 (Token.quotedLength? '\x22') Token.readText

def nameRule : TokenRule := .scanned "IDENTIFIER" 20 Token.nameLength? Token.readName

/-- The rules of punctuation marks. -/
def marks : List TokenRule :=
  [ .symbol "LT_EQ" 15 "<=" .lessEqual,
    .symbol "GT_EQ" 15 ">=" .greaterEqual,
    .symbol "NOT_EQ_ANGLE" 15 "<>" .notEqual,
    .symbol "NOT_EQ_BANG" 15 "!=" .notEqual,
    .symbol "CONCAT" 15 "||" .concat,
    .symbol "PLUS" 10 "+" .plus,
    .symbol "MINUS" 10 "-" .minus,
    .symbol "STAR" 10 "*" .star,
    .symbol "SLASH" 10 "/" .slash,
    .symbol "PERCENT" 10 "%" .percent,
    .symbol "EQ" 10 "=" .equal,
    .symbol "LT" 10 "<" .less,
    .symbol "GT" 10 ">" .greater,
    .symbol "LPAREN" 10 "(" .leftParen,
    .symbol "RPAREN" 10 ")" .rightParen,
    .symbol "COMMA" 10 "," .comma,
    .symbol "SEMICOLON" 10 ";" .semicolon,
    .symbol "QUESTION" 10 "?" .question ]

/-- The rules after those of the phrases that every dialect shares. -/
def lower : List TokenRule := number :: singleText :: doubleText :: nameRule :: marks

def systemVariable : TokenRule :=
  .scanned "SYSTEM_VARIABLE" 35 Token.systemVariableLength? Token.readSystemVariable

def userVariable : TokenRule :=
  .scanned "USER_VARIABLE" 34 Token.userVariableLength? Token.readUserVariable

instance (rules : List TokenRule) : Decidable (Falling rules) :=
  inferInstanceAs (Decidable (List.Pairwise _ rules))

theorem rules_base : base.rules = phrases ++ lower := by
  show (ofRules (phrases ++ lower)).rules = _
  exact rules_ofRules (by decide +kernel) (by decide)

theorem rules_variables : variables.rules = [systemVariable, userVariable] := by
  show (ofRules [systemVariable, userVariable]).rules = _
  exact rules_ofRules (by decide) (by decide)

theorem rules_union_variables :
    (base.union RuleSet.variables).rules =
      phrases ++ (systemVariable :: userVariable :: lower) := by
  have hNames : ((phrases ++ lower ++ [systemVariable, userVariable]).map (·.name)).Nodup := by
    decide +kernel
  have hSwap : byPriority (lower ++ [systemVariable, userVariable]) =
      [systemVariable, userVariable] ++ lower :=
    byPriority_append_swap (by decide) (by decide) (by decide)
  rw [union, rules_base, rules_variables, foldl_place hNames, List.append_assoc,
    byPriority_append (by decide) (by rw [hSwap]; decide), hSwap]
  rfl

end RuleSet

/-- The rules of the variables of a dialect. -/
def Dialect.variableRules : Dialect → List TokenRule
  | .generic => []
  | .mysql => [RuleSet.systemVariable, RuleSet.userVariable]

/-- The rules of a dialect, group by group. -/
theorem Dialect.rules_tokens (dialect : Dialect) :
    dialect.grammar.tokens.rules =
      RuleSet.phrases ++ (dialect.variableRules ++ RuleSet.lower) := by
  cases dialect with
  | generic => exact RuleSet.rules_base
  | mysql => exact RuleSet.rules_union_variables

/-- The rules of the dialects, sort by sort. -/
inductive Dialect.IsRule : TokenRule → Prop
  | phrase {rule : TokenRule} (hPhrase : rule ∈ RuleSet.phrases) : IsRule rule
  | systemVariable : IsRule RuleSet.systemVariable
  | userVariable : IsRule RuleSet.userVariable
  | number : IsRule RuleSet.number
  | singleText : IsRule RuleSet.singleText
  | doubleText : IsRule RuleSet.doubleText
  | name : IsRule RuleSet.nameRule
  | mark {rule : TokenRule} (hMark : rule ∈ RuleSet.marks) : IsRule rule

theorem Dialect.isRule_of_mem {dialect : Dialect} {rule : TokenRule}
    (hMem : rule ∈ dialect.grammar.tokens.rules) : IsRule rule := by
  rw [dialect.rules_tokens, List.mem_append, List.mem_append] at hMem
  rcases hMem with hPhrase | hVariable | hLower
  · exact .phrase hPhrase
  · cases dialect with
    | generic => exact absurd hVariable List.not_mem_nil
    | mysql =>
      simp only [variableRules, List.mem_cons, List.not_mem_nil, or_false] at hVariable
      rcases hVariable with rfl | rfl
      · exact .systemVariable
      · exact .userVariable
  · simp only [RuleSet.lower, List.mem_cons] at hLower
    rcases hLower with rfl | rfl | rfl | rfl | hMark
    · exact .number
    · exact .singleText
    · exact .doubleText
    · exact .name
    · exact .mark hMark

namespace RuleSet

theorem exists_phrase {rule : TokenRule} (hPhrase : rule ∈ phrases) :
    ∃ name priority words keyword, rule = .phrase name priority words keyword := by
  simp only [phrases, List.mem_cons, List.not_mem_nil, or_false] at hPhrase
  rcases hPhrase with rfl | rfl | rfl | rfl | rfl | rfl | rfl | rfl | rfl | rfl | rfl | rfl <;>
    exact ⟨_, _, _, _, rfl⟩

theorem exists_symbol {rule : TokenRule} (hMark : rule ∈ marks) :
    ∃ name priority text kind, rule = .symbol name priority text kind := by
  simp only [marks, List.mem_cons, List.not_mem_nil, or_false] at hMark
  rcases hMark with rfl | rfl | rfl | rfl | rfl | rfl | rfl | rfl | rfl | rfl | rfl | rfl | rfl |
    rfl | rfl | rfl | rfl | rfl <;> exact ⟨_, _, _, _, rfl⟩

end RuleSet

end SqlQuery
