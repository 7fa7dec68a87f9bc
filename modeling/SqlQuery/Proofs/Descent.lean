import SqlQuery.Proofs.InStep

/-!
# The parsers of a dialect, in step

The parsers of the dialects, level by level, are in step with themselves on any
two sufficient numbers of levels.  The argument follows the text of the parsers
once and serves two ends: a parser calls those of the level below only after
it has consumed a token, and the branches with which a production would meet a
token that it does not start with are never taken.  For the latter the
productions are given other parsers in these branches.

## Main definitions

* `Fallbacks` — what productions do with a token that they do not start with.
* `Dialect.grammarWith` — the grammar of a dialect with other fallbacks.

## Main results

* `Dialect.subparsers_inStep` — two sufficient numbers of levels are in step.
* `Dialect.statement_inStep` — whole statements are.
-/

namespace SqlQuery

open Glyph (front)
open SqlQuery.Parser

/-! ## Branches for other tokens -/

/-- What productions do if the token at the front is not one that they start
with. -/
structure Fallbacks where
  literal : Parser Node := unexpected "literal"
  keywordLiteral : Parser Node := unexpected "NULL, TRUE or FALSE"
  columnOrCall : Parser Node := unexpected "identifier"
  tableName : Parser Node := unexpected "table name"
  variableName : Parser Node := unexpected "variable"

namespace Production

/-- `literal`, with another parser for other tokens. -/
def literalOr (other : Parser Node) : Production :=
  { literal with
    reduce := fun _ => do
      match (← current).kind with
      | .integer value =>
        let _ ← advance
        return .constant (.integer value)
      | .float value =>
        let _ ← advance
        return .constant (.float value)
      | .text value =>
        let _ ← advance
        return .constant (.text value)
      | _ => other }

/-- `keywordLiteral`, with another parser for other tokens. -/
def keywordLiteralOr (other : Parser Node) : Production :=
  { keywordLiteral with
    reduce := fun _ => do
      match (← current).keyword? with
      | some .NULL =>
        let _ ← advance
        return .null
      | some .TRUE =>
        let _ ← advance
        return .constant (.boolean true)
      | some .FALSE =>
        let _ ← advance
        return .constant (.boolean false)
      | _ => other }

/-- `columnOrCall`, with another parser for other tokens. -/
def columnOrCallOr (other : Parser Node) : Production :=
  { columnOrCall with
    reduce := fun inner => do
      match (← advance).kind with
      | .identifier value quote =>
        if quote.isSome then
          return .identifier value quote
        else if ← eat .leftParen then
          let distinct ← eatKeyword .DISTINCT
          let args ← arguments inner
          return .call value args distinct
        else
          return .identifier value none
      | _ => other }

/-- `tableName`, with another parser for other tokens. -/
def tableNameOr (other : Parser Node) : Production :=
  { tableName with
    reduce := fun _ => do
      match (← advance).kind with
      | .identifier value quote => return .identifier value quote
      | _ => other }

/-- `variableName`, with another parser for other tokens. -/
def variableNameOr (symbol : Symbol) (other : Parser Node) : Production :=
  { variableName symbol with
    reduce := fun _ => do
      match (← current).kind with
      | .userVariable name =>
        let _ ← advance
        return .ofForm (.variableName name false)
      | .systemVariable name =>
        let _ ← advance
        return .ofForm (.variableName name true)
      | _ => other }

/-- The shared productions, with other parsers for other tokens. -/
def baseWith (fallbacks : Fallbacks) : List Production :=
  [ literalOr fallbacks.literal, keywordLiteralOr fallbacks.keywordLiteral, placeholder,
    columnOrCallOr fallbacks.columnOrCall, everything, parenthesized, typeCast, caseWhen,
    tableNameOr fallbacks.tableName, subquery ]

end Production

namespace Dialect

/-- The productions that a dialect adds to the shared ones. -/
def addedWith (fallbacks : Fallbacks) : Dialect → List Production
  | .generic => []
  | .mysql =>
    [ .variableNameOr .operand fallbacks.variableName,
      .variableNameOr .source fallbacks.variableName ]

/-- The grammar of a dialect, with other parsers where a production meets a token
that it does not start with. -/
def grammarWith (dialect : Dialect) (fallbacks : Fallbacks) : Grammar :=
  { dialect.grammar with
    productions := Production.baseWith fallbacks ++ dialect.addedWith fallbacks }

/-- The fallbacks that the productions are written with. -/
theorem grammarWith_default (dialect : Dialect) : dialect.grammarWith {} = dialect.grammar := by
  cases dialect <;> rfl

end Dialect

/-! ## Parsers of the level below -/

/-- Parsers of two levels that are in step wherever a stream leads. -/
structure Subparsers.InStep (inner inner' : Subparsers) (stream : TokenStream) : Prop where
  expression : ∀ least, MoveInStep (inner.expression least) (inner'.expression least) stream
  select : MoveInStep inner.select inner'.select stream
  source : MoveInStep inner.source inner'.source stream

/-- Parsers of two levels that are in step wherever a stream leads once a token
is consumed. -/
def Subparsers.InStepBehind (inner inner' : Subparsers) (stream : TokenStream) : Prop :=
  ∀ rest, stream.LeadsTo rest → rest.ahead.length < stream.ahead.length → inner.InStep inner' rest

theorem Subparsers.InStep.later {inner inner' : Subparsers} {stream rest : TokenStream}
    (hInner : inner.InStep inner' stream) (hLeads : stream.LeadsTo rest) :
    inner.InStep inner' rest :=
  ⟨fun least => (hInner.expression least).later hLeads, hInner.select.later hLeads,
    hInner.source.later hLeads⟩

namespace Parser

variable {α : Type} {p p' q q' : Parser α} {stream : TokenStream} {P : α → Prop}

theorem InStep.ite {condition : Bool} (hThen : InStep p p' stream P)
    (hElse : InStep q q' stream P) :
    InStep (if condition then p else q) (if condition then p' else q') stream P := by
  cases condition with
  | true => exact hThen
  | false => exact hElse

end Parser

/-! ## Parts without a parser of the level below -/

section Parts

variable {stream : TokenStream}

theorem inStep_applyAlias (node : Node) :
    InStep (applyAlias node) (applyAlias node) stream fun _ => True := by
  have hOptional : InStep optionalAlias optionalAlias stream fun _ => True := by
    refine (inStep_eatKeyword .AS).bind fun _ _ => .ite
      (move_expectIdentifier.inStep.bind fun _ _ => inStep_pure trivial) ?_
    intro rest hLeads hClosed
    refine inStepAt_current_bind ?_
    exact InStep.ite (move_expectIdentifier.inStep.bind fun _ _ => inStep_pure trivial)
      (inStep_pure trivial) rest hLeads hClosed
  refine hOptional.bind fun aliasName _ => ?_
  cases aliasName <;> exact inStep_pure trivial

theorem inStep_direction :
    InStep Grammar.direction Grammar.direction stream fun _ => True :=
  (inStep_eatKeyword .ASC).bind fun _ _ => .ite (inStep_pure trivial)
    ((inStep_eatKeyword .DESC).bind fun _ _ => .ite (inStep_pure trivial) (inStep_pure trivial))

theorem inStep_nullPlacement :
    InStep Grammar.nullPlacement Grammar.nullPlacement stream fun _ => True :=
  (inStep_eatKeyword .NULLS_FIRST).bind fun _ _ => .ite (inStep_pure trivial)
    ((inStep_eatKeyword .NULLS_LAST).bind fun _ _ => .ite (inStep_pure trivial)
      (inStep_pure trivial))

theorem inStep_distinctness :
    InStep Grammar.distinctness Grammar.distinctness stream fun _ => True :=
  (inStep_eatKeyword .DISTINCT).bind fun _ _ => .ite (inStep_pure trivial)
    ((inStep_eatKeyword .ALL).bind fun _ _ => inStep_pure trivial)

theorem inStep_typeWord :
    InStep Production.typeWord Production.typeWord stream fun _ => True := by
  intro rest _ hClosed
  refine inStepAt_current_bind ?_
  split
  · next hKind => exact (inStepAt_take hClosed (by simp [hKind])).mono fun _ _ _ _ => trivial
  · next hKind => exact (inStepAt_take hClosed (by simp [hKind])).mono fun _ _ _ _ => trivial
  · exact inStepAt_unexpected _

theorem inStep_furtherTypeWords :
    InStep (collect Production.furtherTypeWord) (collect Production.furtherTypeWord) stream
      fun _ => True := by
  have hStep : ∀ rest, stream.LeadsTo rest → rest.Closed →
      InStepAt Production.furtherTypeWord Production.furtherTypeWord rest fun next after =>
        Goes rest next after ∧ (∀ value ∈ next, True) ∧ (next = none → True) := by
    intro rest _ hClosed
    refine inStepAt_current_bind ?_
    split
    · next hKind =>
      exact (inStepAt_take hClosed (by simp [hKind])).mono fun _ _ _ hLess =>
        ⟨fun _ => hLess, fun _ _ => trivial, fun _ => trivial⟩
    · exact inStepAt_pure ⟨fun h => absurd h (by simp), fun _ _ => trivial, fun _ => trivial⟩
  exact fun rest hLeads hClosed =>
    (inStep_collect hStep rest hLeads hClosed).mono fun _ _ _ _ => trivial

theorem inStep_typeSize :
    InStep Production.typeSize Production.typeSize stream fun _ => True := by
  intro rest _ hClosed
  refine inStepAt_current_bind ?_
  split
  · next hKind => exact (inStepAt_take hClosed (by simp [hKind])).mono fun _ _ _ _ => trivial
  · exact inStepAt_unexpected _

theorem inStep_typeName :
    InStep Production.typeName Production.typeName stream fun _ => True :=
  inStep_typeWord.bind fun _ _ => inStep_furtherTypeWords.bind fun _ _ =>
    (inStep_eat (by decide) (by simp)).bind fun _ _ => .ite
      ((inStep_commaSeparated inStep_typeSize).bind fun _ _ =>
        move_expectRightParen.inStep.bind fun _ _ => inStep_pure trivial)
      (inStep_pure trivial)

end Parts

/-! ## Productions -/

/-- Two productions of one symbol that start with the same tokens and are in step
where they do. -/
structure Production.InStepAt (inner inner' : Subparsers) (stream : TokenStream)
    (production production' : Production) : Prop where
  symbol : production.symbol = production'.symbol
  starts : production.starts = production'.starts
  reduce : production.starts stream.current.kind = true →
    Parser.InStepAt (production.reduce inner) (production'.reduce inner') stream (Moved stream)

namespace Production

variable {inner inner' : Subparsers} {stream : TokenStream}

theorem inStep_arguments (hInner : inner.InStep inner' stream) :
    InStep (arguments inner) (arguments inner') stream fun _ => True :=
  (inStep_check .rightParen).bind fun _ _ => .ite
    ((inStep_pure trivial).bind fun _ (_ : True) =>
      move_expectRightParen.inStep.bind fun _ _ => inStep_pure trivial)
    ((inStep_commaSeparated (hInner.expression 0).inStep).bind fun _ _ =>
      move_expectRightParen.inStep.bind fun _ _ => inStep_pure trivial)

/-- A token that is an identifier, at the front. -/
theorem exists_identifier (hStarts : stream.current.kind.isIdentifier = true) :
    ∃ value quote, stream.current.kind = .identifier value quote := by
  cases hKind : stream.current.kind with
  | identifier value quote => exact ⟨value, quote, rfl⟩
  | _ => simp [hKind, TokenKind.isIdentifier] at hStarts

section Leaves

variable (hClosed : stream.Closed)

include hClosed

theorem inStepAt_literalOr (other other' : Parser Node) :
    InStepAt inner inner' stream (literalOr other) (literalOr other') := by
  refine ⟨rfl, rfl, fun hStarts => inStepAt_current_bind ?_⟩
  replace hStarts : literal.starts stream.current.kind = true := hStarts
  cases hKind : stream.current.kind with
  | integer | float | text => exact inStepAt_take hClosed (by simp [hKind])
  | _ => simp [hKind, literal] at hStarts

theorem inStepAt_keywordLiteralOr (other other' : Parser Node) :
    InStepAt inner inner' stream (keywordLiteralOr other) (keywordLiteralOr other') := by
  refine ⟨rfl, rfl, fun hStarts => inStepAt_current_bind ?_⟩
  replace hStarts : keywordLiteral.starts stream.current.kind = true := hStarts
  have hTake : ∀ {word : Keyword} (value : Node), stream.current.keyword? = some word →
      Parser.InStepAt (do let _ ← advance; return value) (do let _ ← advance; return value)
        stream (Moved stream) := by
    intro word value hWord
    have hKind := Token.keyword?_eq_some_iff.1 hWord
    exact inStepAt_take hClosed (by simp [hKind])
  have hWords : stream.current.keyword? = some .NULL ∨ stream.current.keyword? = some .TRUE ∨
      stream.current.keyword? = some .FALSE := by
    simp only [Token.keyword?_eq_some_iff]
    unfold keywordLiteral at hStarts
    dsimp only at hStarts
    split at hStarts <;> simp_all
  rcases hWords with hWord | hWord | hWord <;> rw [hWord] <;> exact hTake _ hWord

theorem inStepAt_placeholder : InStepAt inner inner' stream placeholder placeholder :=
  ⟨rfl, rfl, fun _ =>
    (move_expect (by decide) (by simp) stream (.refl stream) hClosed).enter hClosed
    fun _ _ _ _ => inStep_pure trivial⟩

theorem inStepAt_everything : InStepAt inner inner' stream everything everything :=
  ⟨rfl, rfl, fun _ =>
    (move_expect (by decide) (by simp) stream (.refl stream) hClosed).enter hClosed
    fun _ _ _ _ => inStep_pure trivial⟩

theorem inStepAt_tableNameOr (other other' : Parser Node) :
    InStepAt inner inner' stream (tableNameOr other) (tableNameOr other') := by
  refine ⟨rfl, rfl, fun hStarts => ?_⟩
  obtain ⟨value, quote, hKind⟩ := exists_identifier hStarts
  refine inStepAt_advance_bind hClosed (by simp [hKind]) fun _ _ _ => ?_
  rw [hKind]
  exact inStep_pure trivial

theorem inStepAt_variableNameOr (symbol : Symbol) (other other' : Parser Node) :
    InStepAt inner inner' stream (variableNameOr symbol other) (variableNameOr symbol other') := by
  refine ⟨rfl, rfl, fun hStarts => inStepAt_current_bind ?_⟩
  replace hStarts : (variableName symbol).starts stream.current.kind = true := hStarts
  cases hKind : stream.current.kind with
  | userVariable | systemVariable => exact inStepAt_take hClosed (by simp [hKind])
  | _ => simp [hKind, variableName] at hStarts

end Leaves

section Branches

variable (hInner : inner.InStepBehind inner' stream) (hClosed : stream.Closed)

include hInner hClosed

theorem inStepAt_columnOrCallOr (other other' : Parser Node) :
    InStepAt inner inner' stream (columnOrCallOr other) (columnOrCallOr other') := by
  refine ⟨rfl, rfl, fun hStarts => ?_⟩
  obtain ⟨value, quote, hKind⟩ := exists_identifier hStarts
  refine inStepAt_advance_bind hClosed (by simp [hKind]) fun rest hLeads hLess => ?_
  rw [hKind]
  exact .ite (inStep_pure trivial) ((inStep_eat (by decide) (by simp)).bind fun _ _ => .ite
    ((inStep_eatKeyword .DISTINCT).bind fun _ _ =>
      (inStep_arguments (hInner rest hLeads hLess)).bind fun _ _ => inStep_pure trivial)
    (inStep_pure trivial))

theorem inStepAt_parenthesized : InStepAt inner inner' stream parenthesized parenthesized := by
  refine ⟨rfl, rfl, fun _ => ?_⟩
  refine (move_expectLeftParen stream (.refl stream) hClosed).enter hClosed
    fun _ rest hLeads hLess => ?_
  have hRest := hInner rest hLeads hLess
  have hExpression := (hRest.expression 0).inStep
  exact (inStep_checkKeyword .SELECT).bind fun _ _ => .ite
    (hRest.select.inStep.bind fun _ _ => move_expectRightParen.inStep.bind fun _ _ =>
      inStep_pure trivial)
    (hExpression.bind fun _ _ => (inStep_check .comma).bind fun _ _ => .ite
      ((inStep_furtherItems hExpression).bind fun _ _ =>
        move_expectRightParen.inStep.bind fun _ _ => inStep_pure trivial)
      (move_expectRightParen.inStep.bind fun _ _ => inStep_pure trivial))

theorem inStepAt_typeCast : InStepAt inner inner' stream typeCast typeCast := by
  refine ⟨rfl, rfl, fun _ => ?_⟩
  refine (move_expectKeyword .CAST stream (.refl stream) hClosed).enter hClosed
    fun _ rest hLeads hLess => ?_
  have hRest := hInner rest hLeads hLess
  exact move_expectLeftParen.inStep.bind fun _ _ => (hRest.expression 0).inStep.bind fun _ _ =>
    (move_expectKeyword .AS).inStep.bind fun _ _ => inStep_typeName.bind fun _ _ =>
    move_expectRightParen.inStep.bind fun _ _ => inStep_pure trivial

theorem inStepAt_subquery : InStepAt inner inner' stream subquery subquery := by
  refine ⟨rfl, rfl, fun _ => ?_⟩
  refine (move_expectLeftParen stream (.refl stream) hClosed).enter hClosed
    fun _ rest hLeads hLess => ?_
  exact (hInner rest hLeads hLess).select.inStep.bind fun _ _ =>
    move_expectRightParen.inStep.bind fun _ _ => inStep_pure trivial

end Branches

/-- Rules of a case distinction.  There is at least one if `WHEN` is at the
front. -/
theorem inStep_caseRules (hInner : inner.InStep inner' stream) :
    ∀ rest, stream.LeadsTo rest → rest.Closed →
      Parser.InStepAt (collect (caseRule inner)) (collect (caseRule inner')) rest fun rules _ =>
        front rest.glyphs = .keyword .WHEN → rules ≠ [] := by
  have hStep : ∀ rest, stream.LeadsTo rest → rest.Closed →
      Parser.InStepAt (caseRule inner) (caseRule inner') rest fun rule? after =>
        Goes rest rule? after ∧ (∀ rule ∈ rule?, True) ∧
          (rule? = none → front rest.glyphs ≠ .keyword .WHEN) := by
    intro rest hLeads hClosed
    refine (inStepAt_eatIf (tests_checkKeyword .WHEN hClosed) hClosed (by simp)).bind
      fun found after hAfter hFound => ?_
    have hExpression := (hInner.expression 0).inStep.later (hLeads.trans hAfter)
    cases found with
    | true =>
      have hRule : InStep (do
            let condition ← inner.expression 0
            let _ ← expectKeyword .THEN
            let result ← inner.expression 0
            return some (condition, result))
          (do
            let condition ← inner'.expression 0
            let _ ← expectKeyword .THEN
            let result ← inner'.expression 0
            return some (condition, result)) after fun rule? => rule? ≠ none :=
        hExpression.bind fun _ _ => (move_expectKeyword .THEN).inStep.bind fun _ _ =>
          hExpression.bind fun _ _ => inStep_pure (by simp)
      refine (hRule after (.refl after) (hAfter.closed hClosed)).mono fun rule? last hLast hSome =>
        ⟨fun _ => ?_, fun _ _ => trivial, fun hNone => absurd hNone hSome⟩
      exact Nat.lt_of_le_of_lt hLast.length_le (hFound.1 rfl)
    | false =>
      exact inStepAt_pure ⟨fun h => absurd h (by simp), fun _ _ => trivial,
        fun _ hFront => absurd (hFound.2 hFront) Bool.false_ne_true⟩
  intro rest hLeads hClosed
  refine (inStep_collect hStep rest hLeads hClosed).mono fun rules _ _ hRules hFront hNil => ?_
  exact hRules.2 hNil hFront

theorem inStep_caseDefault (hInner : inner.InStep inner' stream) :
    InStep (caseDefault inner) (caseDefault inner') stream fun _ => True :=
  (inStep_eatKeyword .ELSE).bind fun _ _ => .ite
    ((hInner.expression 0).inStep.bind fun _ _ => inStep_pure trivial) (inStep_pure trivial)

theorem inStepAt_caseWhen (hInner : inner.InStepBehind inner' stream) (hClosed : stream.Closed) :
    InStepAt inner inner' stream caseWhen caseWhen := by
  refine ⟨rfl, rfl, fun _ => ?_⟩
  refine (move_expectKeyword .CASE stream (.refl stream) hClosed).enter hClosed
    fun _ middle hLeads hLess => ?_
  have hMiddle := hInner middle hLeads hLess
  intro rest hRest hClosed'
  refine inStepAt_test_bind (tests_checkKeyword .WHEN hClosed') (fun hFront => ?_)
    fun _ => inStepAt_unexpected _
  refine (inStep_caseRules hMiddle rest hRest hClosed').bind fun rules after hAfter hRules => ?_
  have hNode : ∀ default, Node.caseWhen? rules default = .ok (.ofForm (.caseWhen rules default)) :=
    fun default => if_neg (by simpa using hRules hFront)
  have hDefault := inStep_caseDefault (hMiddle.later (hRest.trans hAfter))
  exact (hDefault.bind fun default _ => (move_expectKeyword .END).inStep.bind fun _ _ =>
    inStep_ofStructural (hNode default) trivial) after (.refl after) (hAfter.closed hClosed')

/-- The productions of a dialect are in step, whatever the fallbacks. -/
theorem forall₂_inStepAt (dialect : Dialect) (fallbacks fallbacks' : Fallbacks)
    (hInner : inner.InStepBehind inner' stream) (hClosed : stream.Closed) :
    List.Forall₂ (InStepAt inner inner' stream) (dialect.grammarWith fallbacks).productions
      (dialect.grammarWith fallbacks').productions := by
  have hBase : List.Forall₂ (InStepAt inner inner' stream) (baseWith fallbacks)
      (baseWith fallbacks') :=
    .cons (inStepAt_literalOr hClosed _ _) <| .cons (inStepAt_keywordLiteralOr hClosed _ _) <|
    .cons (inStepAt_placeholder hClosed) <| .cons (inStepAt_columnOrCallOr hInner hClosed _ _) <|
    .cons (inStepAt_everything hClosed) <| .cons (inStepAt_parenthesized hInner hClosed) <|
    .cons (inStepAt_typeCast hInner hClosed) <| .cons (inStepAt_caseWhen hInner hClosed) <|
    .cons (inStepAt_tableNameOr hClosed _ _) <| .cons (inStepAt_subquery hInner hClosed) .nil
  have hAdded : List.Forall₂ (InStepAt inner inner' stream) (dialect.addedWith fallbacks)
      (dialect.addedWith fallbacks') := by
    cases dialect with
    | generic => exact .nil
    | mysql =>
      exact .cons (inStepAt_variableNameOr hClosed _ _ _) <|
        .cons (inStepAt_variableNameOr hClosed _ _ _) .nil
  exact List.rel_append hBase hAdded

/-- The first of some productions that start with the token at the front is in
step with the first of the others. -/
theorem production?_inStep {grammar grammar' : Grammar} (symbol : Symbol)
    (hProductions : List.Forall₂ (InStepAt inner inner' stream) grammar.productions
      grammar'.productions) :
    (grammar.production? symbol stream.current.kind = none ∧
      grammar'.production? symbol stream.current.kind = none) ∨
    ∃ production production',
      grammar.production? symbol stream.current.kind = some production ∧
      grammar'.production? symbol stream.current.kind = some production' ∧
      Parser.InStepAt (production.reduce inner) (production'.reduce inner') stream
        (Moved stream) := by
  unfold Grammar.production? Grammar.alternatives
  generalize grammar.productions = productions,
    grammar'.productions = productions' at hProductions ⊢
  induction hProductions with
  | nil => exact Or.inl ⟨rfl, rfl⟩
  | @cons production production' productions productions' hHead _ ih =>
    simp only [List.filter_cons, ← hHead.symbol]
    by_cases hSymbol : (production.symbol == symbol) = true
    · simp only [hSymbol, if_true, List.find?_cons, ← hHead.starts]
      cases hStarts : production.starts stream.current.kind with
      | true => exact Or.inr ⟨production, production', rfl, rfl, hHead.reduce hStarts⟩
      | false => exact ih
    · simp only [hSymbol]
      exact ih

end Production

/-! ## Expressions, sources and queries -/

namespace Grammar

variable {dialect : Dialect} {fallbacks fallbacks' : Fallbacks} {inner inner' : Subparsers}
  {stream : TokenStream}

theorem inStepAt_derive (symbol : Symbol) (expected : String)
    (hInner : inner.InStepBehind inner' stream) (hClosed : stream.Closed) :
    InStepAt ((dialect.grammarWith fallbacks).derive symbol expected inner)
      ((dialect.grammarWith fallbacks').derive symbol expected inner') stream (Moved stream) := by
  refine inStepAt_current_bind ?_
  rcases Production.production?_inStep symbol
    (Production.forall₂_inStepAt dialect fallbacks fallbacks' hInner hClosed) with
    ⟨hNone, hNone'⟩ | ⟨production, production', hSome, hSome', hReduce⟩
  · rw [hNone, hNone']
    exact inStepAt_unexpected expected
  · rw [hSome, hSome']
    exact hReduce

theorem inStepAt_operand (hInner : inner.InStepBehind inner' stream) (hClosed : stream.Closed) :
    InStepAt ((dialect.grammarWith fallbacks).operand inner)
      ((dialect.grammarWith fallbacks').operand inner') stream (Moved stream) := by
  refine inStepAt_current_bind ?_
  cases hPower : stream.current.kind.prefixClass?.bind dialect.grammar.precedence.prefixPower? with
  | none =>
    simp only [Dialect.grammarWith, hPower]
    exact inStepAt_derive .operand "expression" hInner hClosed
  | some power =>
    have hKind : stream.current.kind ≠ .finish := by
      intro hFinish
      rw [hFinish] at hPower
      cases hPower
    simp only [Dialect.grammarWith, hPower]
    refine inStepAt_advance_bind hClosed hKind fun rest hLeads hLess => ?_
    exact ((hInner rest hLeads hLess).expression power).inStep.bind fun arg _ =>
      inStep_ofStructural rfl trivial

section Behind

variable (hInner : inner.InStep inner' stream)

include hInner

theorem inStep_membershipOperand (power : Nat) :
    InStep (membershipOperand inner power) (membershipOperand inner' power) stream
      fun _ => True := by
  refine (inStep_check .leftParen).bind fun found _ => ?_
  intro rest hLeads hClosed
  refine inStepAt_peek_bind ?_
  exact InStep.ite (inStep_advance.bind fun _ _ =>
      (Production.inStep_arguments hInner).bind fun _ _ => inStep_pure trivial)
    (hInner.expression power).inStep rest hLeads hClosed

theorem inStep_rangeTest (subject : Node) (negated : Bool) (power : Nat) :
    InStep (rangeTest inner subject negated power) (rangeTest inner' subject negated power) stream
      fun _ => True :=
  (hInner.expression power).inStep.bind fun _ _ =>
    (move_expectKeyword .AND).inStep.bind fun _ _ =>
    (hInner.expression power).inStep.bind fun _ _ => inStep_ofStructural rfl trivial

theorem inStep_joinCondition (kind : JoinKind) :
    InStep (joinCondition inner kind) (joinCondition inner' kind) stream fun _ => True :=
  .ite (inStep_pure trivial) ((inStep_eatKeyword .ON).bind fun _ _ => .ite
    ((hInner.expression 0).inStep.bind fun _ _ => inStep_pure trivial) (inStep_pure trivial))

theorem inStep_target : InStep (target inner) (target inner') stream fun _ => True :=
  (hInner.expression 0).inStep.bind fun node _ => inStep_applyAlias node

theorem inStep_orderingEntry :
    InStep (orderingEntry inner) (orderingEntry inner') stream fun node =>
      node.isOrdering = true :=
  (hInner.expression 0).inStep.bind fun _ _ => inStep_direction.bind fun _ _ =>
    inStep_nullPlacement.bind fun _ _ => inStep_pure rfl

end Behind

/-- A keyword and what follows it, or nothing. -/
theorem inStep_clause {α : Type} (word : Keyword) {body body' : Parser α} {P : α → Prop}
    (hBody : InStep body body' stream P) :
    InStep (clause word body) (clause word body') stream fun value? => ∀ value ∈ value?, P value :=
  (inStep_eatKeyword word).bind fun _ _ => .ite
    (hBody.bind fun value hValue => inStep_pure (by rintro _ ⟨⟩; exact hValue))
    (inStep_pure (by rintro _ ⟨⟩))

/-- An operator that may be negated, when it is not the end that is at the
front. -/
theorem inStepAt_negatableOperator (hClosed : stream.Closed)
    (hKind : stream.current.kind ≠ .finish) :
    InStepAt negatableOperator negatableOperator stream (Moved stream) :=
  inStepAt_advance_bind hClosed hKind fun _ _ _ => .ite
    (inStep_advance.bind fun _ _ => inStep_pure trivial) (inStep_pure trivial)

section Moving

variable (hInner : inner.InStepBehind inner' stream) (hClosed : stream.Closed)

include hInner hClosed

theorem inStepAt_infixOperation (left : Node) (operator : OperatorClass) (power : Nat)
    (hKind : stream.current.kind ≠ .finish) :
    InStepAt (infixOperation inner left operator power) (infixOperation inner' left operator power)
      stream (Moved stream) := by
  cases operator with
  | disjunction | conjunction | comparison | additive | multiplicative | negation | complement =>
    refine inStepAt_advance_bind hClosed hKind fun rest hLeads hLess => ?_
    exact ((hInner rest hLeads hLess).expression power).inStep.bind fun _ _ =>
      inStep_ofStructural rfl trivial
  | identity =>
    refine inStepAt_advance_bind hClosed hKind fun rest hLeads hLess => ?_
    exact (inStep_eatKeyword .NOT).bind fun _ _ =>
      ((hInner rest hLeads hLess).expression power).inStep.bind fun _ _ => inStep_pure trivial
  | membership =>
    refine (inStepAt_negatableOperator hClosed hKind).enter hClosed fun _ rest hLeads hLess => ?_
    exact (inStep_membershipOperand (hInner rest hLeads hLess) power).bind fun _ _ =>
      inStep_pure trivial
  | likeness =>
    refine (inStepAt_negatableOperator hClosed hKind).enter hClosed fun _ rest hLeads hLess => ?_
    exact ((hInner rest hLeads hLess).expression power).inStep.bind fun _ _ => inStep_pure trivial
  | range =>
    refine (inStepAt_negatableOperator hClosed hKind).enter hClosed fun _ rest hLeads hLess => ?_
    exact inStep_rangeTest (hInner rest hLeads hLess) left _ power

theorem inStepAt_extendExpression (least : Nat) (left : Node) :
    InStepAt ((dialect.grammarWith fallbacks).extendExpression inner least left)
      ((dialect.grammarWith fallbacks').extendExpression inner' least left) stream
      (Goes stream) := by
  have hNone : InStepAt (pure none : Parser (Option Node)) (pure none) stream (Goes stream) :=
    inStepAt_pure fun h => absurd h (by simp)
  refine inStepAt_current_bind (inStepAt_peek_bind ?_)
  cases hClass : stream.current.kind.infixClass? (stream.peek 1) with
  | none => exact hNone
  | some operator =>
    have hKind : stream.current.kind ≠ .finish := by
      intro hFinish
      rw [hFinish] at hClass
      cases hClass
    simp only [Dialect.grammarWith]
    cases hPower : dialect.grammar.precedence.infixPower? operator with
    | none => exact hNone
    | some power =>
      dsimp only
      by_cases hLeast : power.left < least
      · simp only [if_pos hLeast]
        exact hNone
      · simp only [if_neg hLeast]
        refine ((inStepAt_infixOperation hInner hClosed left operator power.right hKind).enter
          hClosed fun _ _ _ _ => inStep_pure trivial).mono fun _ _ _ hLess _ => hLess

theorem inStepAt_expressionWith (least : Nat) :
    InStepAt ((dialect.grammarWith fallbacks).expressionWith inner least)
      ((dialect.grammarWith fallbacks').expressionWith inner' least) stream (Moved stream) := by
  refine (inStepAt_operand hInner hClosed).enter hClosed fun first rest hLeads hLess => ?_
  refine inStep_iterate (fun left after hAfter hClosed' => ?_) first
  refine inStepAt_extendExpression (fun last hLast _ => ?_) hClosed' least left
  exact (hInner rest hLeads hLess).later (hAfter.trans hLast)

theorem inStepAt_sourceWith :
    InStepAt ((dialect.grammarWith fallbacks).sourceWith inner)
      ((dialect.grammarWith fallbacks').sourceWith inner') stream (Moved stream) :=
  (inStepAt_derive .source _ hInner hClosed).enter hClosed fun node _ _ _ => inStep_applyAlias node

theorem inStepAt_extendSources (left : Node) :
    InStepAt (extendSources inner left) (extendSources inner' left) stream (Goes stream) := by
  refine inStepAt_current_bind ?_
  cases hJoin : joinKind? stream.current.kind with
  | none => exact inStepAt_pure fun h => absurd h (by simp)
  | some kind =>
    have hKind : stream.current.kind ≠ .finish := by
      intro hFinish
      rw [hFinish] at hJoin
      cases hJoin
    refine (inStepAt_advance_bind hClosed hKind fun rest hLeads hLess => ?_).mono
      fun _ _ _ hLess _ => hLess
    have hRest := hInner rest hLeads hLess
    exact hRest.source.inStep.bind fun _ _ => (inStep_joinCondition hRest kind).bind fun _ _ =>
      inStep_pure trivial

end Moving

theorem inStep_sources (hInner : inner.InStep inner' stream) :
    InStep (sources inner) (sources inner') stream fun _ => True := by
  refine hInner.source.inStep.bind
    fun first _ => inStep_iterate (fun left rest hLeads hClosed => ?_) first
  exact inStepAt_extendSources (fun after hAfter _ => hInner.later (hLeads.trans hAfter)) hClosed
    left

/-- A query is for at least one target, and the entries of its ordering are of
that form. -/
theorem inStepAt_selectWith (hInner : inner.InStepBehind inner' stream)
    (hClosed : stream.Closed) :
    InStepAt (selectWith inner) (selectWith inner') stream (Moved stream) := by
  refine (move_expectKeyword .SELECT stream (.refl stream) hClosed).enter hClosed
    fun _ rest hLeads hLess => ?_
  have hRest := hInner rest hLeads hLess
  have hExpression := (hRest.expression 0).inStep
  refine inStep_distinctness.bind fun _ _ =>
    (inStep_commaSeparated (inStep_target hRest)).bind fun targets hTargets => ?_
  have hQuery : Query.ofTargets? targets = .ok { targets := targets } :=
    if_neg (by simpa using hTargets.1)
  refine (inStep_ofStructural hQuery (P := fun _ => True) trivial).bind fun query _ =>
    (inStep_clause .FROM (inStep_sources hRest)).bind fun _ _ =>
    (inStep_clause .WHERE hExpression).bind fun _ _ =>
    (inStep_clause .GROUP_BY (inStep_commaSeparated hExpression)).bind fun _ _ =>
    (inStep_clause .HAVING hExpression).bind fun _ _ =>
    (inStep_clause .ORDER_BY (inStep_commaSeparated (inStep_orderingEntry hRest))).bind
      fun ordering hOrdering => ?_
  have hEntries : ∀ entry ∈ ordering.getD [], entry.isOrdering = true := by
    cases ordering with
    | none => exact fun _ hMem => absurd hMem List.not_mem_nil
    | some entries => exact (hOrdering entries rfl).2
  have hQuery' : query.withOrdering? (ordering.getD []) =
      .ok { query with ordering := ordering.getD [] } := by
    have hNone : (ordering.getD []).find? (fun entry => !entry.isOrdering) = none := by
      rw [List.find?_eq_none]
      intro entry hMem
      simp [hEntries entry hMem]
    rw [Query.withOrdering?, hNone]
  exact (inStep_ofStructural hQuery' (P := fun _ => True) trivial).bind fun _ _ =>
    (inStep_clause .LIMIT hExpression).bind fun _ _ =>
    (inStep_clause .OFFSET hExpression).bind fun _ _ => inStep_pure trivial

/-! ## Levels and statements -/

/-- A query, or one in parentheses that is read by a given parser. -/
def queryWith (grammar : Grammar) (inner : Parser Node) : Parser Node := do
  if ← eat .leftParen then
    let query ← inner
    let _ ← expect .rightParen
    return query.withParentheses true
  else
    grammar.select

/-- The parsers of two numbers of levels are in step on a stream that has fewer
tokens ahead than either. -/
theorem subparsers_inStep (dialect : Dialect) (fallbacks fallbacks' : Fallbacks) (levels : Nat) :
    ∀ (levels' : Nat) (stream : TokenStream), stream.ahead.length < levels →
      stream.ahead.length < levels' →
      ((dialect.grammarWith fallbacks).subparsers levels).InStep
        ((dialect.grammarWith fallbacks').subparsers levels') stream := by
  induction levels with
  | zero => exact fun _ _ hLevels => absurd hLevels (Nat.not_lt_zero _)
  | succ levels ih =>
    intro levels' stream hLevels hLevels'
    cases levels' with
    | zero => exact absurd hLevels' (Nat.not_lt_zero _)
    | succ levels' =>
      have hBehind : ∀ rest, stream.LeadsTo rest →
          ((dialect.grammarWith fallbacks).subparsers levels).InStepBehind
            ((dialect.grammarWith fallbacks').subparsers levels') rest := by
        intro rest hLeads after _ hLess
        have hLength := hLeads.length_le
        exact ih levels' after (by omega) (by omega)
      exact ⟨fun least rest hLeads hClosed =>
          inStepAt_expressionWith (hBehind rest hLeads) hClosed least,
        fun rest hLeads hClosed => inStepAt_selectWith (hBehind rest hLeads) hClosed,
        fun rest hLeads hClosed => inStepAt_sourceWith (hBehind rest hLeads) hClosed⟩

section Statements

variable (dialect : Dialect) (fallbacks fallbacks' : Fallbacks)

/-- The parsers with as many levels as a stream may need. -/
theorem subparsersFor_inStep (stream : TokenStream) :
    ((dialect.grammarWith fallbacks).subparsersFor stream).InStep
      ((dialect.grammarWith fallbacks').subparsersFor stream) stream :=
  subparsers_inStep dialect fallbacks fallbacks' _ _ stream (Nat.lt_succ_self _)
    (Nat.lt_succ_self _)

theorem move_select : MoveInStep (dialect.grammarWith fallbacks).select
    (dialect.grammarWith fallbacks').select stream := by
  intro rest _ hClosed
  exact ((subparsersFor_inStep dialect fallbacks fallbacks' rest).select rest (.refl rest)
    hClosed).of_eq rfl rfl

/-- A query, and queries in parentheses that are in step behind the first one. -/
theorem inStepAt_queryWith {query query' : Parser Node} (hClosed : stream.Closed)
    (hQuery : ∀ rest, stream.LeadsTo rest → rest.ahead.length < stream.ahead.length →
      MoveInStep query query' rest) :
    InStepAt ((dialect.grammarWith fallbacks).queryWith query)
      ((dialect.grammarWith fallbacks').queryWith query') stream (Moved stream) := by
  refine (inStepAt_eatIf (tests_check (by decide) hClosed) hClosed (by simp)).bind
    fun found rest hLeads hFound => ?_
  have hClosed' := hLeads.closed hClosed
  cases found with
  | true =>
    have hLess := hFound.1 rfl
    refine ((hQuery rest hLeads hLess rest (.refl rest) hClosed').enter hClosed' fun _ _ _ _ =>
      move_expectRightParen.inStep.bind fun _ _ => inStep_pure trivial).mono ?_
    exact fun _ _ _ hMoved => Nat.lt_trans hMoved hLess
  | false =>
    refine (move_select dialect fallbacks fallbacks' rest (.refl rest) hClosed').mono ?_
    exact fun _ _ _ hMoved => Nat.lt_of_lt_of_le hMoved hLeads.length_le

/-- Two sufficient limits on the pairs of parentheses around a query are in
step. -/
theorem move_queryWithin (limit : Nat) :
    ∀ (limit' : Nat) (stream : TokenStream), stream.ahead.length < limit →
      stream.ahead.length < limit' →
      MoveInStep ((dialect.grammarWith fallbacks).queryWithin limit)
        ((dialect.grammarWith fallbacks').queryWithin limit') stream := by
  induction limit with
  | zero => exact fun _ _ hLimit => absurd hLimit (Nat.not_lt_zero _)
  | succ limit ih =>
    intro limit' stream hLimit hLimit' rest hLeads hClosed
    have hLength := hLeads.length_le
    cases limit' with
    | zero => exact absurd hLimit' (Nat.not_lt_zero _)
    | succ limit' =>
      exact inStepAt_queryWith dialect fallbacks fallbacks' hClosed fun after _ hLess =>
        ih limit' after (by omega) (by omega)

theorem move_query : MoveInStep (dialect.grammarWith fallbacks).query
    (dialect.grammarWith fallbacks').query stream := by
  intro rest _ hClosed
  exact (move_queryWithin dialect fallbacks fallbacks' _ _ rest (Nat.lt_succ_self _)
    (Nat.lt_succ_self _) rest (.refl rest) hClosed).of_eq rfl rfl

theorem move_statement : MoveInStep (dialect.grammarWith fallbacks).statement
    (dialect.grammarWith fallbacks').statement stream :=
  (move_query dialect fallbacks fallbacks').bind fun node =>
    (inStep_eat (by decide) (by simp)).bind fun _ _ rest hLeads hClosed =>
    inStepAt_current_bind (InStep.ite (inStep_pure trivial)
      (fun _ _ _ => inStepAt_unexpected _) rest hLeads hClosed)

end Statements

end Grammar

end SqlQuery
