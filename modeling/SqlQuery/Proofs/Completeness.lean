import SqlQuery.Proofs.Soundness

/-!
# What is derivable is parsed

The converse of `SqlQuery.Proofs.Soundness`: where a construct is derivable,
its parser succeeds with exactly what the construct stands for.

Two things could stand in the way, and neither does.  A repetition is bounded
by the number of tokens ahead, but each of its steps consumes a token.  A
parser has only as many levels of nesting as there are tokens ahead and one
more, but it calls upon the level below only after it has consumed a token.

## Main results

* `Grammar.subparsers_complete` — with `n` levels, everything derivable from
  fewer than `n` glyphs is parsed.
* `Grammar.statement_of_derives` — a derivable statement is parsed.
-/

namespace SqlQuery

open Glyph (front)
open SqlQuery.Parser

/-! ## Parsers that succeed -/

namespace Parser

variable {α β : Type}

/-- On every closed stream with the glyphs `gs` ahead the parser succeeds with
the value and leaves the glyphs `hs`. -/
def Yields (p : Parser α) (gs : List Glyph) (value : α) (hs : List Glyph) : Prop :=
  ∀ stream : TokenStream, stream.Closed → stream.glyphs = gs →
    ∃ rest, p stream = .ok value rest ∧ rest.last = stream.last ∧ rest.glyphs = hs

variable {p : Parser α} {gs hs is : List Glyph}

theorem yields_pure (value : α) : Yields (pure value) gs value gs :=
  fun stream _ hGlyphs => ⟨stream, rfl, rfl, hGlyphs⟩

theorem yields_bind {q : α → Parser β} {first : α} {value : β} (hFirst : Yields p gs first hs)
    (hNext : Yields (q first) hs value is) : Yields (p >>= q) gs value is := by
  intro stream hClosed hGlyphs
  obtain ⟨middle, hRun, hLast, hMiddle⟩ := hFirst stream hClosed hGlyphs
  have hClosed' : middle.Closed := by rw [TokenStream.Closed, hLast]; exact hClosed
  obtain ⟨rest, hRun', hLast', hRest⟩ := hNext middle hClosed' hMiddle
  refine ⟨rest, ?_, hLast'.trans hLast, hRest⟩
  rw [bind_apply, hRun]
  exact hRun'

theorem yields_ofStructural {result : Except StructuralError α} {value : α}
    (hResult : result = .ok value) : Yields (ofStructural result) gs value gs := by
  rw [hResult]
  exact yields_pure value

/-! ### Looking at and consuming tokens -/

/-- A parser that begins with a look at the token at the front. -/
theorem yields_current_bind {q : Token → Parser α} {value : α}
    (hNext : ∀ token : Token, token.kind = front gs → Yields (q token) gs value hs) :
    Yields (current >>= q) gs value hs := by
  intro stream hClosed hGlyphs
  exact hNext stream.current (by rw [hClosed.kind_current, hGlyphs]) stream hClosed hGlyphs

/-- A parser that begins with a look at the token after the one at the front. -/
theorem yields_peek_bind {q : TokenKind → Parser α} {value : α}
    (hNext : Yields (q (front gs.tail)) gs value hs) : Yields (peek 1 >>= q) gs value hs := by
  intro stream hClosed hGlyphs
  rw [bind_apply]
  simp only [peek, hClosed.peek_one, hGlyphs]
  exact hNext stream hClosed hGlyphs

/-- A parser that begins by consuming the token at the front. -/
theorem yields_advance_bind {glyph : Glyph} {q : Token → Parser α} {value : α}
    (hNext : ∀ token : Token, token.glyph = glyph → Yields (q token) gs value hs) :
    Yields (advance >>= q) (glyph :: gs) value hs := by
  intro stream hClosed hGlyphs
  have hToken : stream.current.glyph = glyph := by
    obtain ⟨ahead, last⟩ := stream
    cases ahead with
    | nil => cases hGlyphs
    | cons token ahead => exact (List.cons.inj hGlyphs).1
  obtain ⟨rest, hRun, hLast, hRest⟩ :=
    hNext _ hToken stream.advance hClosed.advance (by rw [TokenStream.glyphs_advance, hGlyphs]; rfl)
  exact ⟨rest, hRun, hLast, hRest⟩

theorem yields_check {kind : TokenKind} {found : Bool} (hPlain : kind ∈ TokenKind.plain)
    (hFound : found = true ↔ front gs = kind) : Yields (check kind) gs found gs := by
  refine yields_current_bind fun token hKind => ?_
  have hForm : token.kind.sameForm kind = found := by
    rw [Bool.eq_iff_iff, TokenKind.sameForm_iff_of_mem_plain hPlain, hKind, hFound]
  rw [hForm]
  exact yields_pure _

theorem yields_checkKeyword {word : Keyword} {found : Bool}
    (hFound : found = true ↔ front gs = .keyword word) :
    Yields (checkKeyword word) gs found gs := by
  refine yields_current_bind fun token hKind => ?_
  have hWord : (token.keyword? == some word) = found := by
    rw [Bool.eq_iff_iff, beq_iff_eq, Token.keyword?_eq_some_iff, hKind, hFound]
  rw [hWord]
  exact yields_pure _

theorem yields_eatIf_true {test : Parser Bool} {glyph : Glyph}
    (hTest : Yields test (glyph :: gs) true (glyph :: gs)) :
    Yields (eatIf test) (glyph :: gs) true gs :=
  yields_bind hTest (yields_advance_bind fun _ _ => yields_pure true)

theorem yields_eatIf_false {test : Parser Bool} (hTest : Yields test gs false gs) :
    Yields (eatIf test) gs false gs :=
  yields_bind hTest (yields_pure false)

theorem yields_eat {kind : TokenKind} {text : String} (hPlain : kind ∈ TokenKind.plain) :
    Yields (eat kind) (⟨kind, text⟩ :: gs) true gs :=
  yields_eatIf_true (yields_check hPlain (by simp))

theorem yields_eat_absent {kind : TokenKind} (hPlain : kind ∈ TokenKind.plain)
    (hFront : front gs ≠ kind) : Yields (eat kind) gs false gs :=
  yields_eatIf_false (yields_check hPlain (by simpa using hFront))

theorem yields_eatKeyword {word : Keyword} {found : Bool} (hWord : OptionalWord word found gs hs) :
    Yields (eatKeyword word) gs found hs := by
  cases hWord with
  | present => exact yields_eatIf_true (yields_checkKeyword (by simp))
  | absent hFront => exact yields_eatIf_false (yields_checkKeyword (by simpa using hFront))

theorem bind_assoc {γ : Type} (p : Parser α) (q : α → Parser β) (r : β → Parser γ) :
    p >>= q >>= r = p >>= fun first => q first >>= r := by
  funext stream
  simp only [bind_apply]
  cases p stream <;> rfl

/-- A parser that begins with a token of an expected form. -/
theorem yields_expect_bind {kind : TokenKind} {text : String} {q : Token → Parser α} {value : α}
    (hPlain : kind ∈ TokenKind.plain) (hNext : ∀ token, Yields (q token) gs value hs) :
    Yields (expect kind >>= q) (⟨kind, text⟩ :: gs) value hs := by
  have hCheck : Yields (check kind) (⟨kind, text⟩ :: gs) true _ := yields_check hPlain (by simp)
  rw [expect, bind_assoc]
  exact yields_bind hCheck (yields_advance_bind fun token _ => hNext token)

/-- A parser that begins with an expected keyword. -/
theorem yields_expectKeyword_bind {word : Keyword} {text : String} {q : Token → Parser α}
    {value : α} (hNext : ∀ token, Yields (q token) gs value hs) :
    Yields (expectKeyword word >>= q) (⟨.keyword word, text⟩ :: gs) value hs := by
  have hCheck : Yields (checkKeyword word) (⟨.keyword word, text⟩ :: gs) true _ :=
    yields_checkKeyword (by simp)
  rw [expectKeyword, bind_assoc]
  exact yields_bind hCheck (yields_advance_bind fun token _ => hNext token)

theorem yields_expectIdentifier {name text : String} {quote : Option Char} :
    Yields expectIdentifier (⟨.identifier name quote, text⟩ :: gs) name gs := by
  refine yields_current_bind fun token hKind => ?_
  rw [hKind, Glyph.front_cons]
  exact yields_advance_bind fun _ _ => yields_pure name

theorem yields_applyAlias_some {node : Node} {name : String}
    (hOptional : Yields optionalAlias gs (some name) hs) :
    Yields (applyAlias node) gs (node.withAlias name) hs :=
  yields_bind hOptional (yields_pure _)

theorem yields_applyAlias {node aliased : Node} (hAlias : Aliased node aliased gs hs) :
    Yields (applyAlias node) gs aliased hs := by
  cases hAlias with
  | introduced =>
    refine yields_applyAlias_some (yields_bind (yields_eatKeyword .present) ?_)
    exact yields_bind yields_expectIdentifier (yields_pure (some _))
  | bare =>
    refine yields_applyAlias_some (yields_bind (yields_eatKeyword (.absent (by simp))) ?_)
    refine yields_current_bind fun token hKind => ?_
    rw [hKind, Glyph.front_cons]
    exact yields_bind yields_expectIdentifier (yields_pure (some _))
  | absent hWord hName =>
    have hOptional : Yields optionalAlias gs none gs := by
      refine yields_bind (yields_eatKeyword (.absent hWord)) ?_
      refine yields_current_bind fun token hKind => ?_
      rw [hKind, hName]
      exact yields_pure none
    exact yields_bind hOptional (yields_pure _)

/-! ### Repetition -/

/-- A parser of the size of the stream yields what it yields at every size above
the number of glyphs. -/
theorem yields_sized {parser : Nat → Parser α} {value : α}
    (hSized : ∀ size, gs.length < size → Yields (parser size) gs value hs) :
    Yields (fun stream => parser (stream.ahead.length + 1) stream) gs value hs := by
  intro stream hClosed hGlyphs
  have hLength : gs.length = stream.ahead.length := by
    rw [← hGlyphs, TokenStream.glyphs, List.length_map]
  exact hSized _ (by omega) stream hClosed hGlyphs

/-- A repetition may go on at least as often as there are glyphs. -/
theorem yields_iterate {step : α → Parser (Option α)} {first value : α}
    (hWithin : ∀ limit, gs.length < limit → Yields (iterateWithin step limit first) gs value hs) :
    Yields (iterate step first) gs value hs :=
  yields_sized hWithin

theorem yields_collect {step : Parser (Option α)} {values : List α}
    (hWithin : ∀ limit, gs.length < limit → Yields (collectWithin step limit) gs values hs) :
    Yields (collect step) gs values hs :=
  yields_sized hWithin

theorem yields_iterateWithin_done {step : α → Parser (Option α)} {first : α} {limit : Nat}
    (hStep : Yields (step first) gs none hs) (hLimit : 0 < limit) :
    Yields (iterateWithin step limit first) gs first hs := by
  obtain ⟨limit, rfl⟩ := Nat.exists_eq_add_of_lt hLimit
  rw [Nat.zero_add]
  exact yields_bind hStep (yields_pure first)

theorem yields_iterateWithin_more {step : α → Parser (Option α)} {first next value : α}
    {limit : Nat} (hStep : Yields (step first) gs (some next) hs)
    (hRest : ∀ limit, hs.length < limit → Yields (iterateWithin step limit next) hs value is)
    (hLess : hs.length < gs.length) (hLimit : gs.length < limit) :
    Yields (iterateWithin step limit first) gs value is := by
  obtain ⟨limit, rfl⟩ := Nat.exists_eq_add_of_lt hLimit
  exact yields_bind hStep (hRest _ (by omega))

theorem yields_collectWithin_done {step : Parser (Option α)} {limit : Nat}
    (hStep : Yields step gs none hs) (hLimit : 0 < limit) :
    Yields (collectWithin step limit) gs [] hs := by
  obtain ⟨limit, rfl⟩ := Nat.exists_eq_add_of_lt hLimit
  rw [Nat.zero_add]
  exact yields_bind hStep (yields_pure [])

theorem yields_collectWithin_more {step : Parser (Option α)} {value : α} {values : List α}
    {limit : Nat} (hStep : Yields step gs (some value) hs)
    (hRest : ∀ limit, hs.length < limit → Yields (collectWithin step limit) hs values is)
    (hLess : hs.length < gs.length) (hLimit : gs.length < limit) :
    Yields (collectWithin step limit) gs (value :: values) is := by
  obtain ⟨limit, rfl⟩ := Nat.exists_eq_add_of_lt hLimit
  exact yields_bind hStep (yields_bind (hRest _ (by omega)) (yields_pure _))

end Parser

/-! ## Parts without a tree inside -/

section Words

variable {gs hs : List Glyph}

theorem yields_negatableOperator {word : Keyword} {negated : Bool} {op : String}
    (hNot : word ≠ .NOT) (hWord : NegatableWord word negated op gs hs) :
    Yields Grammar.negatableOperator gs (negated, op) hs := by
  cases hWord with
  | plain =>
    refine yields_advance_bind fun first hFirst => ?_
    obtain ⟨hKind, rfl⟩ : first.kind = .keyword word ∧ first.lexeme = _ := Glyph.mk.inj hFirst
    have hTest : (first.keyword? == some .NOT) = false := by
      rw [beq_eq_false_iff_ne, Ne, Token.keyword?_eq_some_iff, hKind, TokenKind.keyword.injEq]
      exact hNot
    rw [hTest]
    exact yields_pure _
  | negated =>
    refine yields_advance_bind fun first hFirst => ?_
    obtain ⟨hKind, rfl⟩ : first.kind = .keyword .NOT ∧ first.lexeme = _ := Glyph.mk.inj hFirst
    have hTest : (first.keyword? == some .NOT) = true := by
      rw [beq_iff_eq, Token.keyword?_eq_some_iff, hKind]
    rw [hTest]
    refine yields_advance_bind fun second hSecond => ?_
    obtain ⟨-, rfl⟩ : second.kind = .keyword word ∧ second.lexeme = _ := Glyph.mk.inj hSecond
    exact yields_pure _

theorem yields_direction {direction : Direction} (hDirection : Directed direction gs hs) :
    Yields Grammar.direction gs direction hs := by
  cases hDirection with
  | ascending => exact yields_bind (yields_eatKeyword .present) (yields_pure _)
  | descending =>
    refine yields_bind (yields_eatKeyword (.absent (by simp))) ?_
    exact yields_bind (yields_eatKeyword .present) (yields_pure _)
  | unspecified hAscending hDescending =>
    refine yields_bind (yields_eatKeyword (.absent hAscending)) ?_
    exact yields_bind (yields_eatKeyword (.absent hDescending)) (yields_pure _)

theorem yields_nullPlacement {nulls : NullPlacement} (hNulls : Placed nulls gs hs) :
    Yields Grammar.nullPlacement gs nulls hs := by
  cases hNulls with
  | first => exact yields_bind (yields_eatKeyword .present) (yields_pure _)
  | last =>
    refine yields_bind (yields_eatKeyword (.absent (by simp))) ?_
    exact yields_bind (yields_eatKeyword .present) (yields_pure _)
  | unspecified hFirst hLast =>
    refine yields_bind (yields_eatKeyword (.absent hFirst)) ?_
    exact yields_bind (yields_eatKeyword (.absent hLast)) (yields_pure _)

theorem yields_distinctness {distinct : Bool} (hDistinct : Distinctness distinct gs hs) :
    Yields Grammar.distinctness gs distinct hs := by
  cases hDistinct with
  | distinct => exact yields_bind (yields_eatKeyword .present) (yields_pure _)
  | all =>
    refine yields_bind (yields_eatKeyword (.absent (by simp))) ?_
    exact yields_bind (yields_eatKeyword .present) (yields_pure _)
  | neither hDistinct hAll =>
    refine yields_bind (yields_eatKeyword (.absent hDistinct)) ?_
    exact yields_bind (yields_eatKeyword (.absent hAll)) (yields_pure _)

/-! ### Names of types -/

theorem yields_typeWord {word : String} (hWord : TypeWord word gs hs) :
    Yields Production.typeWord gs word hs := by
  cases hWord with
  | quoted | bare =>
    refine yields_current_bind fun token hKind => ?_
    rw [hKind, Glyph.front_cons]
    exact yields_advance_bind fun _ _ => yields_pure _

theorem yields_furtherTypeWords {words : List String} (hWords : TypeWords words gs hs) :
    Yields (collect Production.furtherTypeWord) gs words hs := by
  refine yields_collect fun limit hLimit => ?_
  induction hWords generalizing limit with
  | done hFront =>
    refine yields_collectWithin_done (yields_current_bind fun token hKind => ?_) (by omega)
    split
    · next value hValue => exact absurd (hKind.symm.trans hValue) (hFront value)
    · exact yields_pure none
  | more hWords ih =>
    refine yields_collectWithin_more (yields_current_bind fun token hKind => ?_) ih (by simp) hLimit
    rw [hKind, Glyph.front_cons]
    exact yields_advance_bind fun _ _ => yields_pure _

theorem yields_typeSize {value : Int64} {text : String} :
    Yields Production.typeSize (⟨.integer value, text⟩ :: gs) (toString value.toInt) gs := by
  refine yields_current_bind fun token hKind => ?_
  rw [hKind, Glyph.front_cons]
  exact yields_advance_bind fun _ _ => yields_pure _

theorem yields_furtherTypeSizes {sizes : List String} (hSizes : TypeSizes sizes gs hs) :
    Yields (furtherItems Production.typeSize) gs sizes hs := by
  refine yields_collect fun limit hLimit => ?_
  induction hSizes generalizing limit with
  | done hFront =>
    exact yields_collectWithin_done
      (yields_bind (yields_eat_absent (by decide) hFront) (yields_pure none)) (by omega)
  | more hSizes ih =>
    refine yields_collectWithin_more (yields_bind (yields_eat (by decide)) ?_) ih
      (by simp only [List.length_cons]; omega) hLimit
    exact yields_bind yields_typeSize (yields_pure _)

theorem yields_typeName {name : String} (hName : TypeName name gs hs) :
    Yields Production.typeName gs name hs := by
  cases hName with
  | plain hWord hWords hFront =>
    refine yields_bind (yields_typeWord hWord) ?_
    refine yields_bind (yields_furtherTypeWords hWords) ?_
    exact yields_bind (yields_eat_absent (by decide) hFront) (yields_pure _)
  | sized hWord hWords hSizes =>
    refine yields_bind (yields_typeWord hWord) ?_
    refine yields_bind (yields_furtherTypeWords hWords) ?_
    refine yields_bind (yields_eat (by decide)) ?_
    refine yields_bind (yields_bind yields_typeSize
      (yields_bind (yields_furtherTypeSizes hSizes) (yields_pure _))) ?_
    exact yields_expect_bind (by decide) fun _ => yields_pure _

end Words

/-! ## Operands and sources -/

section Productions

variable {dialect : Dialect} {inner : Subparsers} {gs hs : List Glyph}

namespace Grammar

theorem yields_derive {grammar : Grammar} {symbol : Symbol} {expected : String}
    {production : Production} {node : Node}
    (hFound : grammar.production? symbol (front gs) = some production)
    (hReduce : Yields (production.reduce inner) gs node hs) :
    Yields (grammar.derive symbol expected inner) gs node hs := by
  refine yields_current_bind fun token hKind => ?_
  rw [hKind, hFound]
  exact hReduce

/-- An operand without an operator before it. -/
theorem yields_operand {production : Production} {node : Node}
    (hPrefix : (front gs).prefixClass? = none)
    (hFound : dialect.grammar.production? .operand (front gs) = some production)
    (hReduce : Yields (production.reduce inner) gs node hs) :
    Yields (dialect.grammar.operand inner) gs node hs := by
  refine yields_current_bind fun token hKind => ?_
  rw [hKind, dialect.precedence_grammar, PrecedenceTable.prefixPower?_base, hPrefix]
  exact yields_derive hFound hReduce

/-- An operator before its operand. -/
theorem yields_operand_unary {kind : TokenKind} {text : String} {operator : OperatorClass}
    {arg : Node} (hClass : kind.prefixClass? = some operator)
    (hArg : Yields (inner.expression 11) gs arg hs) :
    Yields (dialect.grammar.operand inner) (⟨kind, text⟩ :: gs) (.unary text arg) hs := by
  refine yields_current_bind fun token hKind => ?_
  rw [hKind, Glyph.front_cons, dialect.precedence_grammar, PrecedenceTable.prefixPower?_base,
    hClass]
  refine yields_advance_bind fun op hOp => ?_
  obtain ⟨-, rfl⟩ : op.kind = kind ∧ op.lexeme = text := Glyph.mk.inj hOp
  exact yields_bind hArg (yields_ofStructural rfl)

/-- A token whose kind alone decides what it stands for. -/
private theorem yields_single {kind : TokenKind} {text : String} {node : Node}
    {q : Token → Parser Node}
    (hChoice : ∀ token : Token, token.kind = kind →
      q token = (do let _ ← advance; return node)) :
    Yields (current >>= q) (⟨kind, text⟩ :: gs) node gs := by
  refine yields_current_bind fun token hKind => ?_
  rw [hChoice token hKind]
  exact yields_advance_bind fun _ _ => yields_pure node

/-- A token that is an operand on its own. -/
theorem yields_operand_atom {kind : TokenKind} {text : String} {node : Node}
    (hAtom : dialect.atom? kind = some node) :
    Yields (dialect.grammar.operand inner) (⟨kind, text⟩ :: gs) node gs := by
  have hWord : ∀ {token : Token} {word : Keyword}, token.kind = .keyword word →
      token.keyword? = some word := Token.keyword?_eq_some_iff.2
  cases Dialect.atom_of_atom? hAtom with
  | integer | float | text =>
    cases dialect <;>
      exact yields_operand rfl rfl (yields_single fun token hKind => by rw [hKind])
  | null | truth | falsehood =>
    cases dialect <;>
      exact yields_operand rfl rfl (yields_single fun token hKind => by rw [hWord hKind])
  | parameter | everything =>
    cases dialect <;>
      exact yields_operand rfl rfl (yields_expect_bind (by decide) fun _ => yields_pure _)
  | quoted value quote =>
    have hReduce : Yields (Production.columnOrCall.reduce inner)
        (⟨.identifier value (some quote), text⟩ :: gs) (.identifier value (some quote)) gs := by
      refine yields_advance_bind fun token hToken => ?_
      rw [(Glyph.mk.inj hToken).1]
      exact yields_pure _
    cases dialect <;> exact yields_operand rfl rfl hReduce
  | userVariable name hDialect | systemVariable name hDialect =>
    subst hDialect
    exact yields_operand rfl rfl (yields_single fun token hKind => by rw [hKind])

/-- A token that is a source on its own. -/
theorem yields_derive_table {kind : TokenKind} {text : String} {node : Node}
    (hTable : dialect.table? kind = some node) (expected : String) :
    Yields (dialect.grammar.derive .source expected inner) (⟨kind, text⟩ :: gs) node gs := by
  unfold Dialect.table? at hTable
  split at hTable
  · next value quote =>
    cases hTable
    have hReduce : Yields (Production.tableName.reduce inner)
        (⟨.identifier value quote, text⟩ :: gs) (.identifier value quote) gs := by
      refine yields_advance_bind fun token hToken => ?_
      rw [(Glyph.mk.inj hToken).1]
      exact yields_pure _
    cases dialect <;> exact yields_derive rfl hReduce
  · cases dialect with
    | generic => cases hTable
    | mysql =>
      cases hTable
      exact yields_derive rfl (yields_single fun token hKind => by rw [hKind])
  · cases dialect with
    | generic => cases hTable
    | mysql =>
      cases hTable
      exact yields_derive rfl (yields_single fun token hKind => by rw [hKind])
  · cases hTable

/-! ## Operators -/

/-- No operator follows that the expression may take. -/
theorem yields_extendExpression_none {least : Nat} {left : Node}
    (hStop : ∀ operator ∈ Glyph.operator? gs, 2 * operator.rank + 1 < least) :
    Yields (dialect.grammar.extendExpression inner least left) gs none gs := by
  rintro stream hClosed rfl
  exact ⟨stream, extendExpression_done hClosed hStop, rfl, rfl⟩

/-- An operator follows that the expression takes. -/
theorem yields_extendExpression_some {least : Nat} {left node : Node} {operator : OperatorClass}
    (hClass : Glyph.operator? gs = some operator) (hLeast : least ≤ 2 * operator.rank + 1)
    (hOperation : Yields (infixOperation inner left operator (2 * operator.rank + 2)) gs node hs) :
    Yields (dialect.grammar.extendExpression inner least left) gs (some node) hs := by
  rintro stream hClosed rfl
  rw [extendExpression_more hClosed hClass hLeast]
  exact yields_bind hOperation (yields_pure (some node)) stream hClosed rfl

/-- An operator of one token. -/
theorem yields_infixOperation_simple {left right : Node} {operator : OperatorClass}
    {kind : TokenKind} {text : String} {power : Nat} (hSimple : operator.isSimple = true)
    (hRight : Yields (inner.expression power) gs right hs) :
    Yields (infixOperation inner left operator power) (⟨kind, text⟩ :: gs)
      (.binary text left right) hs := by
  have hTake : Yields (do
      let op ← advance
      let right ← inner.expression power
      ofStructural (Node.binary? op.lexeme [left, right])) (⟨kind, text⟩ :: gs)
        (.binary text left right) hs := by
    refine yields_advance_bind fun op hOp => ?_
    obtain ⟨-, rfl⟩ : op.kind = kind ∧ op.lexeme = text := Glyph.mk.inj hOp
    exact yields_bind hRight (yields_ofStructural rfl)
  cases operator with
  | disjunction | conjunction | comparison | additive | multiplicative => exact hTake
  | identity | membership | likeness | range | negation | complement => cases hSimple

theorem yields_membershipOperand {right : Node}
    (hFront : front gs = .leftParen → front gs.tail = .keyword .SELECT) {power : Nat}
    (hRight : Yields (inner.expression power) gs right hs) :
    Yields (membershipOperand inner power) gs right hs := by
  refine yields_bind (yields_check (by decide)
    (decide_eq_true_iff : decide (front gs = .leftParen) = true ↔ _)) (yields_peek_bind ?_)
  have hListed : (decide (front gs = .leftParen) && front gs.tail != .keyword .SELECT) = false := by
    rw [Bool.and_eq_false_iff, decide_eq_false_iff_not, bne_eq_false_iff_eq]
    exact Classical.or_iff_not_imp_left.2 fun h => hFront (Classical.not_not.1 h)
  rw [hListed]
  exact hRight

theorem yields_membershipOperand_list {items : List Node} {text : String} {power : Nat}
    (hFront : front gs ≠ .keyword .SELECT)
    (hItems : Yields (Production.arguments inner) gs items hs) :
    Yields (membershipOperand inner power) (⟨.leftParen, text⟩ :: gs) (.tuple items) hs := by
  have hCheck : Yields (check .leftParen) (⟨.leftParen, text⟩ :: gs) true _ :=
    yields_check (by decide) (by simp)
  refine yields_bind hCheck (yields_peek_bind ?_)
  have hListed : (true && front (List.tail (⟨.leftParen, text⟩ :: gs)) != .keyword .SELECT) =
      true := by
    rw [Bool.true_and, bne_iff_ne]
    exact hFront
  rw [hListed]
  exact yields_advance_bind fun _ _ => yields_bind hItems (yields_pure _)

end Grammar

end Productions

/-! ## Constructs -/

/-- The parser of an item of a list. -/
def ItemSort.parser (inner : Subparsers) : ItemSort → Parser Node
  | .expression => inner.expression 0
  | .target => Grammar.target inner
  | .entry => Grammar.orderingEntry inner

/-- A comma and an item, or nothing. -/
def Parser.commaItem (item : Parser Node) : Parser (Option Node) := do
  if ← eat .comma then return some (← item) else return none

/-- What the parsers of a dialect do with a construct: with enough levels of
nesting and enough repetitions they yield what it stands for.  A parser that
calls upon the level below before it has consumed a token needs a level more
than there are glyphs. -/
def Construct.Parsed (dialect : Dialect) (gs hs : List Glyph) : Construct → Prop
  | .operand node => ∀ levels, gs.length ≤ levels →
    Yields (dialect.grammar.operand (dialect.grammar.subparsers levels)) gs node hs
  | .expression least node => ∀ levels, gs.length < levels →
    Yields ((dialect.grammar.subparsers levels).expression least) gs node hs
  | .extension least left node => ∀ levels, gs.length ≤ levels → ∀ limit, gs.length < limit →
    Yields (iterateWithin (dialect.grammar.extendExpression
      (dialect.grammar.subparsers levels) least) limit left) gs node hs
  | .operation left operator node => ∀ levels, gs.length ≤ levels →
    Yields (Grammar.infixOperation (dialect.grammar.subparsers levels) left operator
      (2 * operator.rank + 2)) gs node hs
  | .arguments nodes => ∀ levels, gs.length < levels →
    Yields (Production.arguments (dialect.grammar.subparsers levels)) gs nodes hs
  | .item sort node => ∀ levels, gs.length < levels →
    Yields (sort.parser (dialect.grammar.subparsers levels)) gs node hs
  | .items sort nodes => ∀ levels, gs.length < levels →
    Yields (commaSeparated (sort.parser (dialect.grammar.subparsers levels))) gs nodes hs
  | .furtherItems sort nodes => ∀ levels, gs.length ≤ levels → ∀ limit, gs.length < limit →
    Yields (collectWithin (commaItem (sort.parser (dialect.grammar.subparsers levels))) limit)
      gs nodes hs
  | .source node => ∀ levels, gs.length < levels →
    Yields (dialect.grammar.subparsers levels).source gs node hs
  | .joins left node => ∀ levels, gs.length ≤ levels → ∀ limit, gs.length < limit →
    Yields (iterateWithin (Grammar.extendSources (dialect.grammar.subparsers levels)) limit left)
      gs node hs
  | .clause word node => ∀ levels, gs.length ≤ levels →
    Yields (Grammar.clause word ((dialect.grammar.subparsers levels).expression 0)) gs node hs
  | .listClause word sort nodes => ∀ levels, gs.length ≤ levels → ∃ nodes?,
    nodes?.getD [] = nodes ∧
      Yields (Grammar.clause word (commaSeparated
        (sort.parser (dialect.grammar.subparsers levels)))) gs nodes? hs
  | .sourceClause node => ∀ levels, gs.length ≤ levels →
    Yields (Grammar.clause .FROM (Grammar.sources (dialect.grammar.subparsers levels))) gs node hs
  | .rules list => ∀ levels, gs.length ≤ levels → ∀ limit, gs.length < limit →
    Yields (collectWithin (Production.caseRule (dialect.grammar.subparsers levels)) limit)
      gs list hs
  | .select node => ∀ levels, gs.length < levels →
    Yields (dialect.grammar.subparsers levels).select gs node hs
  | .query node => ∀ limit, gs.length < limit →
    Yields (dialect.grammar.queryWithin limit) gs node hs

section Steps

variable {dialect : Dialect} {inner : Subparsers} {gs hs is : List Glyph}

theorem yields_furtherItems {item : Parser Node} {nodes : List Node}
    (hFurther : ∀ limit, gs.length < limit →
      Yields (collectWithin (commaItem item) limit) gs nodes hs) :
    Yields (furtherItems item) gs nodes hs :=
  yields_collect hFurther

theorem yields_arguments_some {nodes : List Node} {text : String} (hFront : front gs ≠ .rightParen)
    (hItems : Yields (commaSeparated (inner.expression 0)) gs nodes (⟨.rightParen, text⟩ :: hs)) :
    Yields (Production.arguments inner) gs nodes hs := by
  have hCheck : Yields (check .rightParen) gs false gs :=
    yields_check (by decide) (by simpa using hFront)
  refine yields_bind hCheck (yields_bind hItems ?_)
  exact yields_expect_bind (by decide) fun _ => yields_pure _

theorem yields_arguments_none {text : String} :
    Yields (Production.arguments inner) (⟨.rightParen, text⟩ :: gs) [] gs := by
  have hCheck : Yields (check .rightParen) (⟨.rightParen, text⟩ :: gs) true _ :=
    yields_check (by decide) (by simp)
  have hNone : Yields (pure [] : Parser (List Node)) (⟨.rightParen, text⟩ :: gs) [] _ :=
    yields_pure []
  refine yields_bind hCheck (yields_bind hNone ?_)
  exact yields_expect_bind (by decide) fun _ => yields_pure _

theorem yields_columnOrCall {value text : String} (hFront : front gs ≠ .leftParen) :
    Yields (Production.columnOrCall.reduce inner) (⟨.identifier value none, text⟩ :: gs)
      (.identifier value none) gs := by
  refine yields_advance_bind fun token hToken => ?_
  rw [(Glyph.mk.inj hToken).1]
  exact yields_bind (yields_eat_absent (by decide) hFront) (yields_pure _)

theorem yields_columnOrCall_call {value text text' : String} {distinct : Bool} {args : List Node}
    (hDistinct : OptionalWord .DISTINCT distinct gs hs)
    (hArgs : Yields (Production.arguments inner) hs args is) :
    Yields (Production.columnOrCall.reduce inner)
      (⟨.identifier value none, text⟩ :: ⟨.leftParen, text'⟩ :: gs)
      (.call value args distinct) is := by
  refine yields_advance_bind fun token hToken => ?_
  rw [(Glyph.mk.inj hToken).1]
  refine yields_bind (yields_eat (by decide)) ?_
  exact yields_bind (yields_eatKeyword hDistinct) (yields_bind hArgs (yields_pure _))

theorem yields_parenthesized_select {node : Node} {text text' : String}
    (hFront : front gs = .keyword .SELECT)
    (hSelect : Yields inner.select gs node (⟨.rightParen, text'⟩ :: hs)) :
    Yields (Production.parenthesized.reduce inner) (⟨.leftParen, text⟩ :: gs)
      (node.withParentheses true) hs := by
  refine yields_expect_bind (by decide) fun _ => ?_
  have hCheck : Yields (checkKeyword .SELECT) gs true gs :=
    yields_checkKeyword (by simpa using hFront)
  refine yields_bind hCheck (yields_bind hSelect ?_)
  exact yields_expect_bind (by decide) fun _ => yields_pure _

theorem yields_parenthesized_grouped {node : Node} {text text' : String}
    (hFront : front gs ≠ .keyword .SELECT)
    (hInner : Yields (inner.expression 0) gs node (⟨.rightParen, text'⟩ :: hs)) :
    Yields (Production.parenthesized.reduce inner) (⟨.leftParen, text⟩ :: gs)
      (node.withParentheses true) hs := by
  refine yields_expect_bind (by decide) fun _ => ?_
  have hCheck : Yields (checkKeyword .SELECT) gs false gs :=
    yields_checkKeyword (by simpa using hFront)
  have hComma : Yields (check .comma) (⟨.rightParen, text'⟩ :: hs) false _ :=
    yields_check (by decide) (by simp)
  refine yields_bind hCheck (yields_bind hInner (yields_bind hComma ?_))
  exact yields_expect_bind (by decide) fun _ => yields_pure _

theorem yields_parenthesized_tuple {first : Node} {further : List Node} {text text' : String}
    (hFront : front gs ≠ .keyword .SELECT)
    (hFirst : Yields (inner.expression 0) gs first hs) (hComma : front hs = .comma)
    (hFurther : Yields (furtherItems (inner.expression 0)) hs further
      (⟨.rightParen, text'⟩ :: is)) :
    Yields (Production.parenthesized.reduce inner) (⟨.leftParen, text⟩ :: gs)
      (.tuple (first :: further)) is := by
  refine yields_expect_bind (by decide) fun _ => ?_
  have hCheck : Yields (checkKeyword .SELECT) gs false gs :=
    yields_checkKeyword (by simpa using hFront)
  have hComma' : Yields (check .comma) hs true hs :=
    yields_check (by decide) (by simpa using hComma)
  refine yields_bind hCheck (yields_bind hFirst (yields_bind hComma' (yields_bind hFurther ?_)))
  exact yields_expect_bind (by decide) fun _ => yields_pure _

theorem yields_typeCast {arg : Node} {name text text' text'' close : String}
    (hArg : Yields (inner.expression 0) gs arg (⟨.keyword .AS, text''⟩ :: hs))
    (hName : TypeName name hs (⟨.rightParen, close⟩ :: is)) :
    Yields (Production.typeCast.reduce inner)
      (⟨.keyword .CAST, text⟩ :: ⟨.leftParen, text'⟩ :: gs) (.ofForm (.typeCast name arg)) is := by
  refine yields_expectKeyword_bind fun _ => yields_expect_bind (by decide) fun _ => ?_
  refine yields_bind hArg (yields_expectKeyword_bind fun _ => ?_)
  refine yields_bind (yields_typeName hName) ?_
  exact yields_expect_bind (by decide) fun _ => yields_pure _

theorem yields_caseRule {condition result : Node} {text text' : String}
    (hCondition : Yields (inner.expression 0) gs condition (⟨.keyword .THEN, text'⟩ :: hs))
    (hResult : Yields (inner.expression 0) hs result is) :
    Yields (Production.caseRule inner) (⟨.keyword .WHEN, text⟩ :: gs)
      (some (condition, result)) is := by
  refine yields_bind (yields_eatKeyword .present) (yields_bind hCondition ?_)
  exact yields_expectKeyword_bind fun _ => yields_bind hResult (yields_pure _)

theorem yields_caseWhen {rules : List (Node × Node)} {default : Option Node} {text text' : String}
    (hFront : front gs = .keyword .WHEN)
    (hRules : Yields (collect (Production.caseRule inner)) gs rules hs)
    (hSome : rules.isEmpty = false)
    (hDefault : Yields (Grammar.clause .ELSE (inner.expression 0)) hs default
      (⟨.keyword .END, text'⟩ :: is)) :
    Yields (Production.caseWhen.reduce inner) (⟨.keyword .CASE, text⟩ :: gs)
      (.ofForm (.caseWhen rules default)) is := by
  refine yields_expectKeyword_bind fun _ => ?_
  have hCheck : Yields (checkKeyword .WHEN) gs true gs :=
    yields_checkKeyword (by simpa using hFront)
  refine yields_bind hCheck (yields_bind hRules (yields_bind hDefault ?_))
  refine yields_expectKeyword_bind fun _ => yields_ofStructural ?_
  rw [Node.caseWhen?, hSome]
  rfl

theorem yields_clause_none {α : Type} {word : Keyword} {body : Parser α}
    (hFront : front gs ≠ .keyword word) : Yields (Grammar.clause word body) gs none gs :=
  yields_bind (yields_eatKeyword (.absent hFront)) (yields_pure none)

theorem yields_clause_some {α : Type} {word : Keyword} {body : Parser α} {value : α}
    {text : String} (hBody : Yields body gs value hs) :
    Yields (Grammar.clause word body) (⟨.keyword word, text⟩ :: gs) (some value) hs :=
  yields_bind (yields_eatKeyword .present) (yields_bind hBody (yields_pure _))

theorem yields_subquery {node : Node} {text text' : String}
    (hSelect : Yields inner.select gs node (⟨.rightParen, text'⟩ :: hs)) :
    Yields (Production.subquery.reduce inner) (⟨.leftParen, text⟩ :: gs)
      (node.withParentheses true) hs := by
  refine yields_expect_bind (by decide) fun _ => yields_bind hSelect ?_
  exact yields_expect_bind (by decide) fun _ => yields_pure _

theorem yields_extendSources {kind : TokenKind} {join : JoinKind} {left right : Node}
    {condition : Option Node} {text : String}
    (hKind : Grammar.joinKind? kind = some join) (hRight : Yields inner.source gs right hs)
    (hComma : join = .comma → condition = none ∧ hs = is)
    (hCondition : join ≠ .comma →
      Yields (Grammar.clause .ON (inner.expression 0)) hs condition is) :
    Yields (Grammar.extendSources inner left) (⟨kind, text⟩ :: gs)
      (some (.ofForm (.join left right join condition))) is := by
  have hJoinCondition : Yields (Grammar.joinCondition inner join) hs condition is := by
    by_cases hJoin : join = .comma
    · obtain ⟨rfl, rfl⟩ := hComma hJoin
      subst hJoin
      exact yields_pure none
    · rw [Grammar.joinCondition, if_neg (by simpa using hJoin)]
      exact hCondition hJoin
  refine yields_current_bind fun token hToken => ?_
  rw [hToken, Glyph.front_cons, hKind]
  refine yields_advance_bind fun _ _ => yields_bind hRight ?_
  exact yields_bind hJoinCondition (yields_pure _)

/-- The parser of queries has as many levels as it needs. -/
theorem Grammar.yields_select {node : Node} (hLevels : ∀ levels, gs.length < levels →
      Yields (dialect.grammar.subparsers levels).select gs node hs) :
    Yields dialect.grammar.select gs node hs :=
  yields_sized hLevels

end Steps

/-! ## Queries -/

/-- The entries of orderings in a construct. -/
def Construct.entries : Construct → List Node
  | .item .entry node => [node]
  | .items .entry nodes | .furtherItems .entry nodes | .listClause _ .entry nodes => nodes
  | _ => []

/-- The entries of an ordering are of that form. -/
theorem Derives.isOrdering_of_mem_entries {dialect : Dialect} {construct : Construct}
    {gs hs : List Glyph} (hDerives : Derives dialect construct gs hs) :
    ∀ node ∈ construct.entries, node.isOrdering = true := by
  induction hDerives with
  | entry => simp [Construct.entries, Node.isOrdering, Node.ofForm]
  | @items sort _ _ _ _ _ _ _ ihFirst ihFurther
  | @furtherMore sort _ _ _ _ _ _ _ _ ihFirst ihFurther =>
    cases sort <;> simp_all [Construct.entries]
  | @listClauseSome _ sort _ _ _ _ _ ih => cases sort <;> simp_all [Construct.entries]
  | @listClauseNone _ sort | @furtherDone sort => cases sort <;> simp [Construct.entries]
  | _ => simp [Construct.entries]

/-- A query parsed clause by clause. -/
theorem yields_selectWith {inner : Subparsers} {query : Query Node} {text : String}
    {g₁ g₂ g₃ g₄ g₅ g₆ g₇ g₈ g₉ g₁₀ : List Glyph} {groups ordering : Option (List Node)}
    (hDistinct : Distinctness query.distinct g₁ g₂)
    (hTargets : Yields (commaSeparated (Grammar.target inner)) g₂ query.targets g₃)
    (hNonempty : query.targets.isEmpty = false)
    (hSource : Yields (Grammar.clause .FROM (Grammar.sources inner)) g₃ query.source g₄)
    (hCondition : Yields (Grammar.clause .WHERE (inner.expression 0)) g₄ query.condition g₅)
    (hGroups : Yields (Grammar.clause .GROUP_BY (commaSeparated (inner.expression 0))) g₅ groups g₆)
    (hGroupList : groups.getD [] = query.groups)
    (hHaving : Yields (Grammar.clause .HAVING (inner.expression 0)) g₆ query.having g₇)
    (hOrdering : Yields (Grammar.clause .ORDER_BY (commaSeparated (Grammar.orderingEntry inner)))
      g₇ ordering g₈)
    (hOrderingList : ordering.getD [] = query.ordering)
    (hEntries : ∀ node ∈ query.ordering, node.isOrdering = true)
    (hLimit : Yields (Grammar.clause .LIMIT (inner.expression 0)) g₈ query.limit g₉)
    (hOffset : Yields (Grammar.clause .OFFSET (inner.expression 0)) g₉ query.offset g₁₀) :
    Yields (Grammar.selectWith inner) (⟨.keyword .SELECT, text⟩ :: g₁)
      (.ofForm (.select query)) g₁₀ := by
  obtain ⟨distinct, targets, source, condition, _, having, _, limit, offset⟩ := query
  cases hGroupList
  cases hOrderingList
  have hQuery : Query.ofTargets? targets = .ok { targets := targets } := by
    rw [Query.ofTargets?, hNonempty]
    rfl
  have hFind : (ordering.getD []).find? (fun entry => !entry.isOrdering) = none := by
    rw [List.find?_eq_none]
    intro node hNode
    simp [hEntries node hNode]
  refine yields_expectKeyword_bind fun _ => yields_bind (yields_distinctness hDistinct) ?_
  refine yields_bind hTargets (yields_bind (yields_ofStructural hQuery) ?_)
  refine yields_bind hSource (yields_bind hCondition (yields_bind hGroups (yields_bind hHaving ?_)))
  refine yields_bind hOrdering ?_
  refine yields_bind (yields_ofStructural (by rw [Query.withOrdering?, hFind])) ?_
  exact yields_bind hLimit (yields_bind hOffset (yields_pure _))

/-! ## Derivable constructs are parsed -/

theorem Derives.parsed {dialect : Dialect} {construct : Construct} {gs hs : List Glyph}
    (hDerives : Derives dialect construct gs hs) : construct.Parsed dialect gs hs := by
  induction hDerives with
  | atom hAtom => exact fun levels _ => Grammar.yields_operand_atom hAtom
  | column hFront =>
    intro levels _
    cases dialect <;> exact Grammar.yields_operand rfl rfl (yields_columnOrCall hFront)
  | call hDistinct hArgs ih =>
    intro levels hLevels
    have hLess := hDistinct.suffix.length_le
    simp only [List.length_cons] at hLevels
    exact Grammar.yields_operand rfl (by cases dialect <;> rfl)
      (yields_columnOrCall_call hDistinct (ih levels (by omega)))
  | unary hClass hArg ih =>
    exact fun levels hLevels => Grammar.yields_operand_unary hClass (ih levels hLevels)
  | subquery hFront hSelect ih =>
    intro levels hLevels
    exact Grammar.yields_operand rfl (by cases dialect <;> rfl)
      (yields_parenthesized_select hFront (ih levels hLevels))
  | grouped hFront hInner ih =>
    intro levels hLevels
    exact Grammar.yields_operand rfl (by cases dialect <;> rfl)
      (yields_parenthesized_grouped hFront (ih levels hLevels))
  | tuple hFront hFirst hComma hFurther ihFirst ihFurther =>
    intro levels hLevels
    have hLess := hFirst.suffix.length_le
    simp only [List.length_cons] at hLevels
    exact Grammar.yields_operand rfl (by cases dialect <;> rfl)
      (yields_parenthesized_tuple hFront (ihFirst levels (by omega)) hComma
        (yields_furtherItems (ihFurther levels (by omega))))
  | typeCast hArg hName ih =>
    intro levels hLevels
    simp only [List.length_cons] at hLevels
    exact Grammar.yields_operand rfl (by cases dialect <;> rfl)
      (yields_typeCast (ih levels (by omega)) hName)
  | @caseWhen rules _ _ _ _ _ _ hFront hRules hDefault ihRules ihDefault =>
    intro levels hLevels
    have hLess := hRules.suffix.length_le
    simp only [List.length_cons] at hLevels
    have hSome : List.isEmpty rules = false := by
      cases hRules with
      | rulesDone hOther => exact absurd hFront hOther
      | rulesMore => rfl
    exact Grammar.yields_operand rfl (by cases dialect <;> rfl)
      (yields_caseWhen hFront (yields_collect (ihRules levels (by omega))) hSome
        (ihDefault levels (by omega)))
  | rulesDone hFront =>
    intro levels _ limit hLimit
    exact yields_collectWithin_done (yields_bind (yields_eatKeyword (.absent hFront))
      (yields_pure none)) (by omega)
  | rulesMore hCondition hResult hRules ihCondition ihResult ihRules =>
    intro levels hLevels limit hLimit
    have hLess := hCondition.suffix.length_le
    have hLess' := hResult.suffix.length_le
    simp only [List.length_cons] at hLevels hLess
    refine yields_collectWithin_more (yields_caseRule (ihCondition levels (by omega))
      (ihResult levels (by omega))) (ihRules levels (by omega)) ?_ hLimit
    simp only [List.length_cons]
    omega
  | expression hFirst hExtension ihFirst ihExtension =>
    intro levels hLevels
    have hLess := hFirst.suffix.length_le
    obtain ⟨levels, rfl⟩ := Nat.exists_eq_add_of_lt hLevels
    refine yields_bind (ihFirst _ (by omega)) (yields_iterate (ihExtension _ ?_))
    omega
  | extensionDone hStop =>
    intro levels _ limit hLimit
    exact yields_iterateWithin_done (Grammar.yields_extendExpression_none hStop) (by omega)
  | extensionMore hClass hLeast hOperation hExtension ihOperation ihExtension =>
    intro levels hLevels limit hLimit
    have hLess := hOperation.length_lt rfl
    exact yields_iterateWithin_more
      (Grammar.yields_extendExpression_some hClass hLeast (ihOperation levels hLevels))
      (ihExtension levels (by omega)) hLess hLimit
  | binary hSimple hClass hRight ih =>
    exact fun levels hLevels => Grammar.yields_infixOperation_simple hSimple (ih levels hLevels)
  | identity hNegated hRight ih =>
    intro levels hLevels
    have hLess := hNegated.suffix.length_le
    simp only [List.length_cons] at hLevels
    refine yields_advance_bind fun _ _ => yields_bind (yields_eatKeyword hNegated) ?_
    exact yields_bind (ih levels (by omega)) (yields_pure _)
  | likeness hWord hRight ih =>
    intro levels hLevels
    have hLess := hWord.length_lt
    refine yields_bind (yields_negatableOperator (by decide) hWord) ?_
    exact yields_bind (ih levels (by omega)) (yields_pure _)
  | membershipList hWord hFront hItems ih =>
    intro levels hLevels
    have hLess := hWord.length_lt
    simp only [List.length_cons] at hLess
    refine yields_bind (yields_negatableOperator (by decide) hWord) ?_
    exact yields_bind (Grammar.yields_membershipOperand_list hFront (ih levels (by omega)))
      (yields_pure _)
  | membership hWord hFront hRight ih =>
    intro levels hLevels
    have hLess := hWord.length_lt
    refine yields_bind (yields_negatableOperator (by decide) hWord) ?_
    exact yields_bind (Grammar.yields_membershipOperand hFront (ih levels (by omega)))
      (yields_pure _)
  | range hWord hLow hHigh ihLow ihHigh =>
    intro levels hLevels
    have hLess := hWord.length_lt
    have hLess' := hLow.suffix.length_le
    simp only [List.length_cons] at hLess'
    refine yields_bind (yields_negatableOperator (by decide) hWord) ?_
    refine yields_bind (ihLow levels (by omega)) (yields_expectKeyword_bind fun _ => ?_)
    exact yields_bind (ihHigh levels (by omega)) (yields_ofStructural rfl)
  | argumentsNone => exact fun levels _ => yields_arguments_none
  | argumentsSome hFront hItems ih =>
    exact fun levels hLevels => yields_arguments_some hFront (ih levels hLevels)
  | items hFirst hFurther ihFirst ihFurther =>
    intro levels hLevels
    have hLess := hFirst.suffix.length_le
    refine yields_bind (ihFirst levels hLevels) ?_
    exact yields_bind (yields_furtherItems (ihFurther levels (by omega))) (yields_pure _)
  | furtherDone hFront =>
    intro levels _ limit hLimit
    exact yields_collectWithin_done (yields_bind (yields_eat_absent (by decide) hFront)
      (yields_pure none)) (by omega)
  | furtherMore hItem hFurther ihItem ihFurther =>
    intro levels hLevels limit hLimit
    have hLess := hItem.suffix.length_le
    simp only [List.length_cons] at hLevels
    refine yields_collectWithin_more (yields_bind (yields_eat (by decide))
      (yields_bind (ihItem levels (by omega)) (yields_pure _))) (ihFurther levels (by omega)) ?_
      hLimit
    simp only [List.length_cons]
    omega
  | expressionItem hNode ih => exact ih
  | target hNode hAlias ih =>
    exact fun levels hLevels => yields_bind (ih levels hLevels) (yields_applyAlias hAlias)
  | entry hField hDirection hNulls ih =>
    intro levels hLevels
    refine yields_bind (ih levels hLevels) (yields_bind (yields_direction hDirection) ?_)
    exact yields_bind (yields_nullPlacement hNulls) (yields_pure _)
  | table hTable hAlias =>
    intro levels hLevels
    obtain ⟨levels, rfl⟩ := Nat.exists_eq_add_of_lt hLevels
    exact yields_bind (Grammar.yields_derive_table hTable _) (yields_applyAlias hAlias)
  | derivedTable hSelect hAlias ih =>
    intro levels hLevels
    obtain ⟨levels, rfl⟩ := Nat.exists_eq_add_of_lt hLevels
    refine yields_bind (Grammar.yields_derive (by cases dialect <;> rfl)
      (yields_subquery (ih _ ?_))) (yields_applyAlias hAlias)
    simp only [List.length_cons]
    omega
  | joinsDone hKind =>
    intro levels _ limit hLimit
    refine yields_iterateWithin_done (yields_current_bind fun token hToken => ?_) (by omega)
    rw [hToken, hKind]
    exact yields_pure none
  | @joinsMore _ join _ _ _ condition _ gs hs is _ hKind hRight hComma hCondition hJoins ihRight
      ihCondition ihJoins =>
    intro levels hLevels limit hLimit
    have hLess := hRight.length_lt rfl
    have hLess' := (suffix_of_joinCondition hComma hCondition).length_le
    simp only [List.length_cons] at hLevels
    refine yields_iterateWithin_more (yields_extendSources hKind (ihRight levels (by omega)) hComma
      fun hJoin => ihCondition hJoin levels (by omega)) (ihJoins levels (by omega)) ?_ hLimit
    simp only [List.length_cons]
    omega
  | clauseNone hFront => exact fun levels _ => yields_clause_none hFront
  | clauseSome hNode ih => exact fun levels hLevels => yields_clause_some (ih levels hLevels)
  | listClauseNone hFront => exact fun levels _ => ⟨none, rfl, yields_clause_none hFront⟩
  | listClauseSome hItems ih =>
    exact fun levels hLevels => ⟨some _, rfl, yields_clause_some (ih levels hLevels)⟩
  | sourceClauseNone hFront => exact fun levels _ => yields_clause_none hFront
  | sourceClauseSome hFirst hJoins ihFirst ihJoins =>
    intro levels hLevels
    have hLess := hFirst.suffix.length_le
    simp only [List.length_cons] at hLevels
    exact yields_clause_some (yields_bind (ihFirst levels (by omega))
      (yields_iterate (ihJoins levels (by omega))))
  | @select query _ _ _ _ _ _ _ _ _ _ _ hDistinct hTargets hSource hCondition hGroups hHaving
      hOrdering hLimit hOffset
      ihTargets ihSource ihCondition ihGroups ihHaving ihOrdering ihLimit ihOffset =>
    intro levels hLevels
    obtain ⟨levels, rfl⟩ : ∃ below, levels = below + 1 := ⟨levels - 1, by omega⟩
    have h₂ := hDistinct.suffix.length_le
    have h₃ := hTargets.suffix.length_le
    have h₄ := hSource.suffix.length_le
    have h₅ := hCondition.suffix.length_le
    have h₆ := hGroups.suffix.length_le
    have h₇ := hHaving.suffix.length_le
    have h₈ := hOrdering.suffix.length_le
    have h₉ := hLimit.suffix.length_le
    simp only [List.length_cons] at *
    obtain ⟨groups, hGroupList, hGroups'⟩ := ihGroups levels (by omega)
    obtain ⟨ordering, hOrderingList, hOrdering'⟩ := ihOrdering levels (by omega)
    have hNonempty : query.targets.isEmpty = false := by
      generalize query.targets = targets at hTargets
      cases hTargets
      rfl
    exact yields_selectWith hDistinct (ihTargets _ (by omega)) hNonempty (ihSource _ (by omega))
      (ihCondition _ (by omega)) hGroups' hGroupList (ihHaving _ (by omega)) hOrdering'
      hOrderingList hOrdering.isOrdering_of_mem_entries (ihLimit _ (by omega))
      (ihOffset _ (by omega))
  | bareQuery hFront hSelect ih =>
    intro limit hLimit
    obtain ⟨limit, rfl⟩ := Nat.exists_eq_add_of_lt hLimit
    refine yields_bind (yields_eat_absent (by decide) hFront) ?_
    exact Grammar.yields_select ih
  | enclosedQuery hQuery ih =>
    intro limit hLimit
    obtain ⟨limit, rfl⟩ := Nat.exists_eq_add_of_lt hLimit
    refine yields_bind (yields_eat (by decide)) (yields_bind (ih _ ?_) ?_)
    · simp only [List.length_cons]
      omega
    · exact yields_expect_bind (by decide) fun _ => yields_pure _

namespace Grammar

/-- A derivable statement is parsed. -/
theorem statement_of_derives {dialect : Dialect} {stream : TokenStream} {node : Node}
    (hClosed : stream.Closed) (hDerives : DerivesStatement dialect node stream.glyphs) :
    ∃ rest, dialect.grammar.statement stream = .ok node rest := by
  have hQuery : ∀ {gs hs : List Glyph}, Derives dialect (.query node) gs hs →
      Yields dialect.grammar.query gs node hs :=
    fun hDerives => yields_sized fun limit hLimit => hDerives.parsed limit hLimit
  have hEnd : Yields (do
      if (← current).kind.isFinish then return node else unexpected "end of input") [] node [] := by
    refine yields_current_bind fun token hKind => ?_
    rw [hKind]
    exact yields_pure node
  have hStatement : Yields dialect.grammar.statement stream.glyphs node [] := by
    rcases hDerives with hDerives | ⟨text, hDerives⟩
    · exact yields_bind (hQuery hDerives)
        (yields_bind (yields_eat_absent (by decide) (by simp)) hEnd)
    · exact yields_bind (hQuery hDerives) (yields_bind (yields_eat (by decide)) hEnd)
  obtain ⟨rest, hRun, -⟩ := hStatement stream hClosed rfl
  exact ⟨rest, hRun⟩

end Grammar

end SqlQuery
