import Mathlib.Data.List.Find
import SqlQuery.Dialect
import SqlQuery.Proofs.Respelling

/-!
# Comparison of runs

Two runs of a parser are often alike: on one text and a text that differs from
it only between its tokens or in the spelling of its words, or of a grammar and
of one that extends it.  The parsers of this library see of a stream only the
kinds and the texts of its tokens and how many there are, and the texts they
only copy.  So whatever relates two streams in this respect carries over to what
is made of them.

A *comparison* says which streams are related, which errors are, which errors of
the first run are waived, so that nothing is asked of the second, and what it
sees of a text.  Two parsers *agree* under it if on related streams they give
values that look the same and related rests, or related errors, or the first
gives an error that is waived.  The parsers of two grammars agree if the
grammars derive their symbols alike, and that is all that is left to show of two
given grammars.

## Main definitions

* `Comparison` — related streams, related errors, waived errors and the view of
  a text.
* `Comparison.Agree` — parsers that give related replies on related streams.
* `Comparison.Grammars` — grammars that derive their symbols alike.
* `Reply.outcome` — what a reply says of a text.

## Main results

* `Comparison.reduces_of_mem_base` — a shared production agrees with itself over
  two levels that agree.
* `Comparison.Grammars.statement` — statements agree if the grammars do.
-/

namespace SqlQuery

open SqlQuery.Parser

/-! ## What parsers see of a kind -/

namespace TokenKind.Alike

variable {f : String → String} {kind kind' : TokenKind}

theorem sameForm_eq (hKind : kind.Alike f kind') (other : TokenKind) :
    kind.sameForm other = kind'.sameForm other := by
  cases hKind <;> rfl

theorem isFinish_eq (hKind : kind.Alike f kind') : kind.isFinish = kind'.isFinish := by
  cases hKind <;> rfl

theorem isIdentifier_eq (hKind : kind.Alike f kind') :
    kind.isIdentifier = kind'.isIdentifier := by
  cases hKind <;> rfl

theorem keyword?_eq (hKind : kind.Alike f kind') (span span' : Span) (text text' : String) :
    (Token.mk kind span text).keyword? = (Token.mk kind' span' text').keyword? := by
  cases hKind <;> rfl

theorem eq_keyword_iff (hKind : kind.Alike f kind') (word : Keyword) :
    kind = .keyword word ↔ kind' = .keyword word := by
  cases hKind <;> simp

theorem prefixClass?_eq (hKind : kind.Alike f kind') : kind.prefixClass? = kind'.prefixClass? := by
  cases hKind <;> rfl

theorem infixClass?_eq (hKind : kind.Alike f kind') {next next' : TokenKind}
    (hNext : next.Alike f next') : kind.infixClass? next = kind'.infixClass? next' := by
  cases hKind with
  | same =>
    -- A following token matters as a keyword only.
    cases hNext with
    | same => rfl
    | _ => unfold infixClass?; rfl
  | _ => rfl

theorem joinKind?_eq (hKind : kind.Alike f kind') :
    Grammar.joinKind? kind = Grammar.joinKind? kind' := by
  cases hKind <;> rfl

end TokenKind.Alike

theorem TokenStream.kind_current (stream : TokenStream) : stream.current.kind = stream.peek 0 := by
  obtain ⟨_ | ⟨token, ahead⟩, last⟩ := stream <;> rfl

/-! ## Comparisons -/

/-- What two runs of a parser are compared by. -/
structure Comparison where
  /-- The streams that the two runs may stand before. -/
  Streams : TokenStream → TokenStream → Prop
  /-- The errors that the two runs may end with. -/
  Errors : ParseError → ParseError → Prop
  /-- The errors of the first run after which nothing is asked of the second. -/
  Waived : ParseError → Prop
  /-- What is seen of a text. -/
  view : String → String
  view_append {a a' b b' : String} (hFirst : view a = view a') (hSecond : view b = view b') :
    view (a ++ b) = view (a' ++ b')
  length_eq {stream stream' : TokenStream} (h : Streams stream stream') :
    stream.ahead.length = stream'.ahead.length
  peek_alike {stream stream' : TokenStream} (h : Streams stream stream') (n : Nat) :
    (stream.peek n).Alike view (stream'.peek n)
  lexeme_eq {stream stream' : TokenStream} (h : Streams stream stream') :
    view stream.current.lexeme = view stream'.current.lexeme
  streams_advance {stream stream' : TokenStream} (h : Streams stream stream') :
    Streams stream.advance stream'.advance
  errors_unexpected {stream stream' : TokenStream} (h : Streams stream stream')
    (expected : String) :
    Errors (.grammatical (.unexpected expected stream.current.kind stream.current.span))
      (.grammatical (.unexpected expected stream'.current.kind stream'.current.span))
  errors_structural (e : StructuralError) : Errors (.structural e) (.structural e)
  errors_tooDeep : Errors .tooDeep .tooDeep

namespace Comparison

theorem kind_alike (c : Comparison) {stream stream' : TokenStream}
    (hStreams : c.Streams stream stream') :
    stream.current.kind.Alike c.view stream'.current.kind := by
  rw [stream.kind_current, stream'.kind_current]
  exact c.peek_alike hStreams 0

/-- Texts that are the same as they stand are joined to the same text. -/
theorem view_append_id {a a' b b' : String} (hFirst : id a = id a') (hSecond : id b = id b') :
    id (a ++ b) = id (a' ++ b') :=
  congrArg₂ (· ++ ·) hFirst hSecond

theorem structural_refl (e : StructuralError) : ParseError.structural e = .structural e := rfl

/-- Texts that look the same are joined to texts that look the same. -/
theorem view_intercalate (c : Comparison) (separator : String) {texts texts' : List String}
    (hTexts : mapTexts c.view texts = mapTexts c.view texts') :
    c.view (separator.intercalate texts) = c.view (separator.intercalate texts') := by
  induction texts generalizing texts' with
  | nil =>
    cases texts' with
    | nil => rfl
    | cons text texts' => cases hTexts
  | cons text texts ih =>
    cases texts' with
    | nil => cases hTexts
    | cons text' texts' =>
      obtain ⟨hText, hRest⟩ := List.cons.inj hTexts
      have hTail := ih hRest
      cases texts with
      | nil =>
        cases texts' with
        | nil => simpa using (show c.view text = c.view text' from hText)
        | cons => cases hRest
      | cons second texts =>
        cases texts' with
        | nil => cases hRest
        | cons second' texts' =>
          rw [String.intercalate_cons_cons, String.intercalate_cons_cons]
          exact c.view_append (c.view_append hText rfl) hTail

/-- Replies that the comparison cannot tell apart. -/
inductive Replies (c : Comparison) {α : Type} [HasTexts α] : Reply α → Reply α → Prop
  | ok {value value' : α} {rest rest' : TokenStream}
    (hValue : mapTexts c.view value = mapTexts c.view value') (hRest : c.Streams rest rest') :
    c.Replies (.ok value rest) (.ok value' rest')
  | fail {error error' : ParseError} {rest rest' : TokenStream} (hError : c.Errors error error') :
    c.Replies (.fail error rest) (.fail error' rest')
  | waived {error : ParseError} {rest : TokenStream} {reply : Reply α} (hError : c.Waived error) :
    c.Replies (.fail error rest) reply

/-- Parsers that give related replies on related streams. -/
def Agree (c : Comparison) {α : Type} [HasTexts α] (parser parser' : Parser α) : Prop :=
  ∀ stream stream', c.Streams stream stream' → c.Replies (parser stream) (parser' stream')

section Combinators

variable {c : Comparison} {α β : Type} [HasTexts α] [HasTexts β]

theorem agree_pure {value value' : α} (hValue : mapTexts c.view value = mapTexts c.view value') :
    c.Agree (pure value) (pure value') := fun _ _ h => .ok hValue h

theorem agree_tooDeep : c.Agree (fail .tooDeep : Parser α) (fail .tooDeep) :=
  fun _ _ _ => .fail c.errors_tooDeep

theorem agree_unexpected (expected : String) :
    c.Agree (unexpected expected : Parser α) (unexpected expected) :=
  fun _ _ h => .fail (c.errors_unexpected h expected)

theorem agree_ofStructural {value value' : Except StructuralError α}
    (hValue : value.map (mapTexts c.view) = value'.map (mapTexts c.view)) :
    c.Agree (ofStructural value) (ofStructural value') := by
  cases value with
  | ok value =>
    cases value' with
    | ok value' => exact agree_pure (Except.ok.inj hValue)
    | error e' => cases hValue
  | error e =>
    cases value' with
    | ok value' => cases hValue
    | error e' =>
      cases Except.error.inj hValue
      exact fun _ _ _ => .fail (c.errors_structural e)

theorem Agree.bind {first first' : Parser α} {next next' : α → Parser β}
    (hFirst : c.Agree first first')
    (hNext : ∀ value value', mapTexts c.view value = mapTexts c.view value' →
      c.Agree (next value) (next' value')) :
    c.Agree (first >>= next) (first' >>= next') := by
  intro stream stream' hStreams
  rw [bind_apply, bind_apply]
  have hReplies := hFirst stream stream' hStreams
  revert hReplies
  generalize first stream = reply
  generalize first' stream' = reply'
  intro hReplies
  cases hReplies with
  | ok hValue hRest => exact hNext _ _ hValue _ _ hRest
  | fail hError => exact .fail hError
  | waived hError => exact .waived hError

/-- A test has the same answer on both sides. -/
theorem Agree.test_bind {test test' : Parser Bool} {next next' : Bool → Parser β}
    (hTest : c.Agree test test') (hNext : ∀ answer, c.Agree (next answer) (next' answer)) :
    c.Agree (test >>= next) (test' >>= next') := by
  refine hTest.bind fun answer answer' hAnswer => ?_
  have hSame : answer = answer' := hAnswer
  rw [hSame]
  exact hNext answer'

theorem Agree.ite {yes no yes' no' : Parser α} {p : Prop} [Decidable p]
    (hYes : c.Agree yes yes') (hNo : c.Agree no no') :
    c.Agree (if p then yes else no) (if p then yes' else no') := by
  split
  · exact hYes
  · exact hNo

/-! ### Tokens

Related streams show tokens whose kinds and texts look the same, if at different
places. -/

theorem Agree.current_bind {next next' : Token → Parser β}
    (hNext : ∀ kind kind' text text' span span', TokenKind.Alike c.view kind kind' →
      c.view text = c.view text' →
        c.Agree (next ⟨kind, span, text⟩) (next' ⟨kind', span', text'⟩)) :
    c.Agree (current >>= next) (current >>= next') := fun stream stream' hStreams =>
  hNext _ _ _ _ stream.current.span stream'.current.span (c.kind_alike hStreams)
    (c.lexeme_eq hStreams) stream stream' hStreams

theorem Agree.advance_bind {next next' : Token → Parser β}
    (hNext : ∀ kind kind' text text' span span', TokenKind.Alike c.view kind kind' →
      c.view text = c.view text' →
        c.Agree (next ⟨kind, span, text⟩) (next' ⟨kind', span', text'⟩)) :
    c.Agree (advance >>= next) (advance >>= next') := fun stream stream' hStreams =>
  hNext _ _ _ _ stream.current.span stream'.current.span (c.kind_alike hStreams)
    (c.lexeme_eq hStreams) _ _ (c.streams_advance hStreams)

theorem Agree.peek_bind (n : Nat) {next next' : TokenKind → Parser β}
    (hNext : ∀ kind kind', TokenKind.Alike c.view kind kind' →
      c.Agree (next kind) (next' kind')) :
    c.Agree (peek n >>= next) (peek n >>= next') := fun stream stream' hStreams =>
  hNext _ _ (c.peek_alike hStreams n) stream stream' hStreams

/-- Consuming a token does not matter beyond the stream that is left. -/
theorem Agree.advance_then {next next' : Parser β} (hNext : c.Agree next next') :
    c.Agree (do let _ ← advance; next) (do let _ ← advance; next') :=
  .advance_bind fun _ _ _ _ _ _ _ _ => hNext

theorem agree_check (kind : TokenKind) : c.Agree (check kind) (check kind) :=
  .current_bind fun _ _ _ _ _ _ hKind _ => agree_pure (hKind.sameForm_eq kind)

theorem agree_checkKeyword (word : Keyword) : c.Agree (checkKeyword word) (checkKeyword word) := by
  refine .current_bind fun kind kind' text text' span span' hKind _ => ?_
  rw [hKind.keyword?_eq span span' text text']
  exact agree_pure rfl

theorem Agree.eatIf {test test' : Parser Bool} (hTest : c.Agree test test') :
    c.Agree (eatIf test) (eatIf test') :=
  hTest.test_bind fun _ => .ite (.advance_then (agree_pure rfl)) (agree_pure rfl)

theorem agree_eat (kind : TokenKind) : c.Agree (eat kind) (eat kind) := (agree_check kind).eatIf

theorem agree_eatKeyword (word : Keyword) : c.Agree (eatKeyword word) (eatKeyword word) :=
  (agree_checkKeyword word).eatIf

omit [HasTexts β] in
/-- A token that must pass a test, and what comes after it. -/
theorem demand_then (test : Parser Bool) (text : String) (next : Parser β) :
    (do let _ ← (do if ← test then advance else unexpected text); next) =
      (do if ← test then let _ ← advance; next else unexpected text) := by
  funext stream
  rw [bind_apply, bind_apply, bind_apply]
  cases test stream with
  | ok found rest => cases found <;> rfl
  | fail error rest => rfl

theorem Agree.expect_then (kind : TokenKind) {next next' : Parser β} (hNext : c.Agree next next') :
    c.Agree (do let _ ← expect kind; next) (do let _ ← expect kind; next') := by
  rw [expect, demand_then, demand_then]
  exact (agree_check kind).test_bind fun _ => .ite (.advance_then hNext) (agree_unexpected _)

theorem Agree.expectKeyword_then (word : Keyword) {next next' : Parser β}
    (hNext : c.Agree next next') :
    c.Agree (do let _ ← expectKeyword word; next) (do let _ ← expectKeyword word; next') := by
  rw [expectKeyword, demand_then, demand_then]
  exact (agree_checkKeyword word).test_bind fun _ => .ite (.advance_then hNext) (agree_unexpected _)

theorem agree_expectIdentifier : c.Agree expectIdentifier expectIdentifier := by
  refine .current_bind fun kind kind' text text' span span' hKind _ => ?_
  cases hKind with
  | same =>
    dsimp only
    split
    · exact .advance_then (agree_pure rfl)
    · exact agree_unexpected _
  | identifier hText => exact .advance_then (agree_pure hText)
  | _ => exact agree_unexpected _

/-! ### Repetition

A repetition is bounded by the number of tokens ahead, which is the same on
both sides. -/

/-- Parsers that agree at every size agree if they are of the size of the
stream. -/
theorem agree_sized {parser parser' : Nat → Parser α}
    (hAgree : ∀ n, c.Agree (parser n) (parser' n)) :
    c.Agree (fun stream => parser (stream.ahead.length + 1) stream)
      (fun stream => parser' (stream.ahead.length + 1) stream) := by
  intro stream stream' hStreams
  dsimp only
  rw [c.length_eq hStreams]
  exact hAgree _ stream stream' hStreams

theorem Agree.iterate {step step' : α → Parser (Option α)}
    (hStep : ∀ value value', mapTexts c.view value = mapTexts c.view value' →
      c.Agree (step value) (step' value'))
    {value value' : α} (hValue : mapTexts c.view value = mapTexts c.view value') :
    c.Agree (iterate step value) (iterate step' value') := by
  have hWithin : ∀ limit value value', mapTexts c.view value = mapTexts c.view value' →
      c.Agree (iterateWithin step limit value) (iterateWithin step' limit value') := by
    intro limit
    induction limit with
    | zero => exact fun _ _ _ => agree_tooDeep
    | succ limit ih =>
      intro value value' hValue
      refine (hStep value value' hValue).bind fun further further' hFurther => ?_
      cases further with
      | none =>
        cases further' with
        | none => exact agree_pure hValue
        | some _ => cases hFurther
      | some further =>
        cases further' with
        | none => cases hFurther
        | some further' => exact ih further further' (Option.some.inj hFurther)
  exact agree_sized fun limit => hWithin limit value value' hValue

theorem Agree.collect {step step' : Parser (Option α)} (hStep : c.Agree step step') :
    c.Agree (collect step) (collect step') := by
  have hWithin : ∀ limit, c.Agree (collectWithin step limit) (collectWithin step' limit) := by
    intro limit
    induction limit with
    | zero => exact agree_tooDeep
    | succ limit ih =>
      refine hStep.bind fun found found' hFound => ?_
      cases found with
      | none =>
        cases found' with
        | none => exact agree_pure rfl
        | some _ => cases hFound
      | some value =>
        cases found' with
        | none => cases hFound
        | some value' =>
          refine ih.bind fun rest rest' hRest => agree_pure ?_
          rw [mapTexts_cons, mapTexts_cons, hRest, Option.some.inj hFound]
  exact agree_sized hWithin

theorem Agree.map_some {body body' : Parser α} (hBody : c.Agree body body') :
    c.Agree (do return some (← body)) (do return some (← body')) :=
  hBody.bind fun _ _ hValue => agree_pure (congrArg some hValue)

theorem Agree.furtherItems {item item' : Parser α} (hItem : c.Agree item item') :
    c.Agree (furtherItems item) (furtherItems item') :=
  .collect ((agree_eat _).test_bind fun _ => .ite hItem.map_some (agree_pure rfl))

theorem Agree.commaSeparated {item item' : Parser α} (hItem : c.Agree item item') :
    c.Agree (commaSeparated item) (commaSeparated item') :=
  hItem.bind fun _ _ hFirst => hItem.furtherItems.bind fun _ _ hFurther =>
    agree_pure (by rw [mapTexts_cons, mapTexts_cons, hFirst, hFurther])

theorem agree_applyAlias {node node' : Node}
    (hNode : mapTexts c.view node = mapTexts c.view node') :
    c.Agree (applyAlias node) (applyAlias node') := by
  have hOptional : c.Agree optionalAlias optionalAlias := by
    refine (agree_eatKeyword _).test_bind fun _ => .ite agree_expectIdentifier.map_some ?_
    refine .current_bind fun _ _ _ _ _ _ hKind _ => ?_
    rw [hKind.isIdentifier_eq]
    exact .ite agree_expectIdentifier.map_some (agree_pure rfl)
  refine hOptional.bind fun found found' hFound => ?_
  cases found with
  | none =>
    cases found' with
    | none => exact agree_pure hNode
    | some _ => cases hFound
  | some aliasName =>
    cases found' with
    | none => cases hFound
    | some aliasName' =>
      refine agree_pure ?_
      rw [mapTexts_withAlias, mapTexts_withAlias, hNode, Option.some.inj hFound]

end Combinators

/-! ## Productions -/

/-- Levels of nesting whose parsers agree. -/
structure Levels (c : Comparison) (inner inner' : Subparsers) : Prop where
  expression : ∀ least, c.Agree (inner.expression least) (inner'.expression least)
  select : c.Agree inner.select inner'.select
  source : c.Agree inner.source inner'.source

section Productions

open SqlQuery.Production

variable {c : Comparison} {inner inner' : Subparsers}

/-- A production that applies to kinds that look the same alike, and agrees with
itself over levels that agree. -/
structure Reduces (c : Comparison) (production : Production) : Prop where
  starts {kind kind' : TokenKind} (hKind : kind.Alike c.view kind') :
    production.starts kind = production.starts kind'
  reduce {inner inner' : Subparsers} (hLevels : c.Levels inner inner') :
    c.Agree (production.reduce inner) (production.reduce inner')

theorem reduces_literal : c.Reduces literal where
  starts hKind := by cases hKind <;> rfl
  reduce _ := by
    refine .current_bind fun kind kind' text text' span span' hKind _ => ?_
    cases hKind with
    | same =>
      dsimp only
      split
      · exact .advance_then (agree_pure rfl)
      · exact .advance_then (agree_pure rfl)
      · exact .advance_then (agree_pure rfl)
      · exact agree_unexpected _
    | text hText => exact .advance_then (agree_pure (by simp [hText]))
    | _ => exact agree_unexpected _

theorem reduces_keywordLiteral : c.Reduces keywordLiteral where
  starts hKind := by cases hKind <;> rfl
  reduce _ := by
    refine .current_bind fun kind kind' text text' span span' hKind _ => ?_
    rw [hKind.keyword?_eq span span' text text']
    split
    · exact .advance_then (agree_pure rfl)
    · exact .advance_then (agree_pure rfl)
    · exact .advance_then (agree_pure rfl)
    · exact agree_unexpected _

theorem reduces_placeholder : c.Reduces placeholder where
  starts hKind := by cases hKind <;> rfl
  reduce _ := .expect_then _ (agree_pure rfl)

theorem Levels.arguments (hLevels : c.Levels inner inner') :
    c.Agree (arguments inner) (arguments inner') := by
  have hEnd : ∀ items items' : List Node, mapTexts c.view items = mapTexts c.view items' → c.Agree
      (do let _ ← expect .rightParen; return items)
      (do let _ ← expect .rightParen; return items') :=
    fun items items' hItems => .expect_then _ (agree_pure hItems)
  exact (agree_check _).test_bind fun _ => .ite ((agree_pure rfl).bind hEnd)
    ((hLevels.expression 0).commaSeparated.bind hEnd)

/-- A call, or the name alone. -/
theorem Levels.call (hLevels : c.Levels inner inner') {name name' : String}
    (hName : c.view name = c.view name') :
    c.Agree
      (do if ← eat .leftParen then
            let distinct ← eatKeyword .DISTINCT
            let args ← Production.arguments inner
            return Node.call name args distinct
          else return Node.identifier name none)
      (do if ← eat .leftParen then
            let distinct ← eatKeyword .DISTINCT
            let args ← Production.arguments inner'
            return Node.call name' args distinct
          else return Node.identifier name' none) := by
  refine (agree_eat _).test_bind fun _ => .ite ?_ (agree_pure (by simp [hName]))
  exact (agree_eatKeyword _).test_bind fun _ => hLevels.arguments.bind fun _ _ hArgs =>
    agree_pure (by simp [hName, hArgs])

theorem reduces_columnOrCall : c.Reduces columnOrCall where
  starts hKind := hKind.isIdentifier_eq
  reduce hLevels := by
    refine .advance_bind fun kind kind' text text' span span' hKind _ => ?_
    cases hKind with
    | same =>
      dsimp only
      split
      · exact .ite (agree_pure rfl) (hLevels.call rfl)
      · exact agree_unexpected _
    | identifier hName => exact .ite (agree_pure (by simp [hName])) (hLevels.call hName)
    | _ => exact agree_unexpected _

theorem reduces_everything : c.Reduces everything where
  starts hKind := by cases hKind <;> rfl
  reduce _ := .expect_then _ (agree_pure rfl)

theorem reduces_parenthesized : c.Reduces parenthesized where
  starts hKind := by cases hKind <;> rfl
  reduce hLevels := by
    refine .expect_then _ ((agree_checkKeyword _).test_bind fun _ => .ite ?_ ?_)
    · exact hLevels.select.bind fun _ _ hQuery => .expect_then _ (agree_pure (by simp [hQuery]))
    · refine (hLevels.expression 0).bind fun _ _ hFirst =>
        (agree_check _).test_bind fun _ => .ite ?_ ?_
      · exact (hLevels.expression 0).furtherItems.bind fun _ _ hFurther =>
          .expect_then _ (agree_pure (by simp [hFirst, hFurther]))
      · exact .expect_then _ (agree_pure (by simp [hFirst]))

theorem agree_typeWord : c.Agree typeWord typeWord := by
  refine .current_bind fun kind kind' text text' span span' hKind _ => ?_
  cases hKind with
  | same =>
    dsimp only
    split
    · exact .advance_then (agree_pure rfl)
    · exact .advance_then (agree_pure rfl)
    · exact agree_unexpected _
  | identifier hText quote =>
    cases quote with
    | none => exact .advance_then (agree_pure hText)
    | some quote =>
      exact .advance_then (agree_pure (c.view_append (c.view_append rfl hText) rfl))
  | _ => exact agree_unexpected _

theorem agree_furtherTypeWord : c.Agree furtherTypeWord furtherTypeWord := by
  refine .current_bind fun kind kind' text text' span span' hKind _ => ?_
  cases hKind with
  | same =>
    dsimp only
    split
    · exact .advance_then (agree_pure rfl)
    · exact agree_pure rfl
  | identifier hText quote =>
    cases quote with
    | none => exact .advance_then (agree_pure (congrArg some hText))
    | some quote => exact agree_pure rfl
  | _ => exact agree_pure rfl

theorem agree_typeSize : c.Agree typeSize typeSize := by
  refine .current_bind fun kind kind' text text' span span' hKind _ => ?_
  cases hKind with
  | same =>
    dsimp only
    split
    · exact .advance_then (agree_pure rfl)
    · exact agree_unexpected _
  | _ => exact agree_unexpected _

theorem agree_typeName : c.Agree typeName typeName := by
  refine agree_typeWord.bind fun first first' hFirst =>
    agree_furtherTypeWord.collect.bind fun further further' hFurther => ?_
  have hName : c.view (" ".intercalate (first :: further)) =
      c.view (" ".intercalate (first' :: further')) :=
    c.view_intercalate " " (by rw [mapTexts_cons, mapTexts_cons, hFirst, hFurther])
  refine (agree_eat _).test_bind fun _ => .ite ?_ (agree_pure hName)
  refine agree_typeSize.commaSeparated.bind fun sizes sizes' hSizes =>
    .expect_then _ (agree_pure ?_)
  exact c.view_append (c.view_append (c.view_append hName rfl) (c.view_intercalate ", " hSizes)) rfl

theorem reduces_typeCast : c.Reduces typeCast where
  starts hKind := by cases hKind <;> rfl
  reduce hLevels := by
    refine .expectKeyword_then _ (.expect_then _ ((hLevels.expression 0).bind fun arg arg' hArg =>
      .expectKeyword_then _ (agree_typeName.bind fun name name' hName =>
        .expect_then _ (agree_pure ?_))))
    have hForm : mapTexts c.view (Form.typeCast name arg) =
        mapTexts c.view (Form.typeCast name' arg') := by
      show Form.typeCast (mapTexts c.view name) _ = Form.typeCast (mapTexts c.view name') _
      rw [hName, hArg]
    rw [mapTexts_ofForm, mapTexts_ofForm, hForm]

theorem Levels.caseRule (hLevels : c.Levels inner inner') :
    c.Agree (caseRule inner) (caseRule inner') := by
  refine (agree_eatKeyword _).test_bind fun _ => .ite ?_ (agree_pure rfl)
  exact (hLevels.expression 0).bind fun _ _ hCondition => .expectKeyword_then _
    ((hLevels.expression 0).bind fun _ _ hResult => agree_pure (by simp [hCondition, hResult]))

theorem Levels.caseDefault (hLevels : c.Levels inner inner') :
    c.Agree (caseDefault inner) (caseDefault inner') :=
  (agree_eatKeyword _).test_bind fun _ => .ite (hLevels.expression 0).map_some (agree_pure rfl)

theorem view_caseWhen? {rules rules' : List (Node × Node)} {default default' : Option Node}
    (hRules : mapTexts c.view rules = mapTexts c.view rules')
    (hDefault : mapTexts c.view default = mapTexts c.view default') :
    (Node.caseWhen? rules default).map (mapTexts c.view) =
      (Node.caseWhen? rules' default').map (mapTexts c.view) := by
  have hEmpty : rules.isEmpty = rules'.isEmpty := by
    cases rules <;> cases rules' <;> first | rfl | cases hRules
  rw [Node.caseWhen?, Node.caseWhen?, hEmpty]
  split
  · rfl
  · have hForm : mapTexts c.view (Form.caseWhen rules default) =
        mapTexts c.view (Form.caseWhen rules' default') := by
      show Form.caseWhen (mapTexts c.view rules) (mapTexts _ _) =
        Form.caseWhen (mapTexts c.view rules') (mapTexts _ _)
      rw [hRules, hDefault]
    show Except.ok (mapTexts _ _) = Except.ok (mapTexts _ _)
    rw [mapTexts_ofForm, mapTexts_ofForm, hForm]

theorem reduces_caseWhen : c.Reduces caseWhen where
  starts hKind := by cases hKind <;> rfl
  reduce hLevels := by
    refine .expectKeyword_then _
      ((agree_checkKeyword _).test_bind fun _ => .ite ?_ (agree_unexpected _))
    exact hLevels.caseRule.collect.bind fun _ _ hRules =>
      hLevels.caseDefault.bind fun _ _ hDefault =>
        .expectKeyword_then _ (agree_ofStructural (view_caseWhen? hRules hDefault))

theorem reduces_tableName : c.Reduces tableName where
  starts hKind := hKind.isIdentifier_eq
  reduce _ := by
    refine .advance_bind fun kind kind' text text' span span' hKind _ => ?_
    cases hKind with
    | same =>
      dsimp only
      split
      · exact agree_pure rfl
      · exact agree_unexpected _
    | identifier hName => exact agree_pure (by simp [hName])
    | _ => exact agree_unexpected _

theorem reduces_subquery : c.Reduces subquery where
  starts hKind := by cases hKind <;> rfl
  reduce hLevels := .expect_then _ (hLevels.select.bind fun _ _ hQuery =>
    .expect_then _ (agree_pure (by simp [hQuery])))

theorem view_variableName {name name' : String} (hName : c.view name = c.view name')
    (system : Bool) :
    mapTexts c.view (Node.ofForm (.variableName name system)) =
      mapTexts c.view (Node.ofForm (.variableName name' system)) := by
  rw [mapTexts_ofForm, mapTexts_ofForm]
  exact congrArg (fun name => Node.ofForm (.variableName name system)) hName

theorem reduces_variableName (symbol : Symbol) : c.Reduces (variableName symbol) where
  starts hKind := by cases hKind <;> rfl
  reduce _ := by
    refine .current_bind fun kind kind' text text' span span' hKind _ => ?_
    cases hKind with
    | same =>
      dsimp only
      split
      · exact .advance_then (agree_pure rfl)
      · exact .advance_then (agree_pure rfl)
      · exact agree_unexpected _
    | userVariable hName => exact .advance_then (agree_pure (view_variableName hName false))
    | systemVariable hName => exact .advance_then (agree_pure (view_variableName hName true))
    | _ => exact agree_unexpected _

/-- The productions that every grammar shares agree with themselves under any
comparison. -/
theorem reduces_of_mem_base {production : Production} (hMem : production ∈ Production.base) :
    c.Reduces production := by
  simp only [Production.base, List.mem_cons, List.not_mem_nil, or_false] at hMem
  rcases hMem with rfl | rfl | rfl | rfl | rfl | rfl | rfl | rfl | rfl | rfl
  · exact reduces_literal
  · exact reduces_keywordLiteral
  · exact reduces_placeholder
  · exact reduces_columnOrCall
  · exact reduces_everything
  · exact reduces_parenthesized
  · exact reduces_typeCast
  · exact reduces_caseWhen
  · exact reduces_tableName
  · exact reduces_subquery

end Productions

/-! ## Grammars -/

/-- Grammars with the same ranks that derive their symbols alike. -/
structure Grammars (c : Comparison) (grammar grammar' : Grammar) : Prop where
  precedence : grammar.precedence = grammar'.precedence
  derive : ∀ (symbol : Symbol) (expected : String) {inner inner' : Subparsers},
    c.Levels inner inner' →
    c.Agree (grammar.derive symbol expected inner) (grammar'.derive symbol expected inner')

section Grammars

open SqlQuery.Grammar

variable {c : Comparison} {grammar grammar' : Grammar} {inner inner' : Subparsers}

theorem Grammars.operand (hGrammars : c.Grammars grammar grammar')
    (hLevels : c.Levels inner inner') :
    c.Agree (grammar.operand inner) (grammar'.operand inner') := by
  refine .current_bind fun kind kind' text text' span span' hKind _ => ?_
  rw [hGrammars.precedence]
  dsimp only
  rw [hKind.prefixClass?_eq]
  split
  · refine .advance_bind fun _ _ op op' _ _ _ hOp => (hLevels.expression _).bind fun _ _ hArg =>
      agree_ofStructural ?_
    simp [Node.unary?, Except.map, hOp, hArg]
  · exact hGrammars.derive _ _ hLevels

theorem Levels.membershipOperand (hLevels : c.Levels inner inner') (power : Nat) :
    c.Agree (membershipOperand inner power) (membershipOperand inner' power) := by
  refine (agree_check _).test_bind fun _ => .peek_bind _ fun kind kind' hKind => ?_
  have hSelect : (kind != .keyword .SELECT) = (kind' != .keyword .SELECT) := by
    rw [bne, bne, Bool.beq_eq_decide_eq, Bool.beq_eq_decide_eq,
      decide_eq_decide.2 (hKind.eq_keyword_iff .SELECT)]
  rw [hSelect]
  refine .ite ?_ (hLevels.expression power)
  exact .advance_then (hLevels.arguments.bind fun _ _ hItems => agree_pure (by simp [hItems]))

theorem Levels.rangeTest (hLevels : c.Levels inner inner') {subject subject' : Node}
    (hSubject : mapTexts c.view subject = mapTexts c.view subject') (negated : Bool) (power : Nat) :
    c.Agree (rangeTest inner subject negated power) (rangeTest inner' subject' negated power) :=
  (hLevels.expression power).bind fun _ _ hLow => .expectKeyword_then _
    ((hLevels.expression power).bind fun _ _ hHigh =>
      agree_ofStructural (by simp [Node.between?, Except.map, hSubject, hLow, hHigh]))

theorem agree_negatableOperator : c.Agree negatableOperator negatableOperator := by
  refine .advance_bind fun _ _ text text' span span' hKind hText => ?_
  rw [hKind.keyword?_eq span span' text text']
  refine .ite (.advance_bind fun _ _ _ _ _ _ _ hText' => agree_pure ?_) (agree_pure ?_)
  · exact congrArg (true, ·) (c.view_append (c.view_append hText rfl) hText')
  · exact congrArg (false, ·) hText

theorem Levels.infixOperation (hLevels : c.Levels inner inner') {left left' : Node}
    (hLeft : mapTexts c.view left = mapTexts c.view left') (operator : OperatorClass)
    (power : Nat) : c.Agree (infixOperation inner left operator power)
      (infixOperation inner' left' operator power) := by
  cases operator with
  | identity =>
    exact .advance_then ((agree_eatKeyword _).test_bind fun _ =>
      (hLevels.expression power).bind fun _ _ hRight => agree_pure (by simp [hLeft, hRight]))
  | membership =>
    refine agree_negatableOperator.bind fun op op' hOp =>
      (hLevels.membershipOperand power).bind fun _ _ hRight => agree_pure ?_
    simp [hLeft, hRight, show c.view op.2 = c.view op'.2 from (Prod.mk.inj hOp).2]
  | likeness =>
    refine agree_negatableOperator.bind fun op op' hOp =>
      (hLevels.expression power).bind fun _ _ hRight => agree_pure ?_
    simp [hLeft, hRight, show c.view op.2 = c.view op'.2 from (Prod.mk.inj hOp).2]
  | range =>
    refine agree_negatableOperator.bind fun op op' hOp => ?_
    have hNegated : op.1 = op'.1 := (Prod.mk.inj hOp).1
    show c.Agree (Grammar.rangeTest inner left op.1 power)
      (Grammar.rangeTest inner' left' op'.1 power)
    rw [hNegated]
    exact hLevels.rangeTest hLeft _ power
  | _ =>
    refine .advance_bind fun _ _ _ _ _ _ _ hOp =>
      (hLevels.expression power).bind fun _ _ hRight => agree_ofStructural ?_
    simp [Node.binary?, Except.map, hOp, hLeft, hRight]

theorem Grammars.extendExpression (hGrammars : c.Grammars grammar grammar')
    (hLevels : c.Levels inner inner') (least : Nat) {left left' : Node}
    (hLeft : mapTexts c.view left = mapTexts c.view left') :
    c.Agree (grammar.extendExpression inner least left)
      (grammar'.extendExpression inner' least left') := by
  refine .current_bind fun kind kind' text text' span span' hKind _ =>
    .peek_bind 1 fun second second' hSecond => ?_
  rw [hGrammars.precedence]
  dsimp only
  rw [hKind.infixClass?_eq hSecond]
  split
  · exact agree_pure rfl
  · split
    · exact agree_pure rfl
    · exact .ite (agree_pure rfl) (hLevels.infixOperation hLeft _ _).map_some

theorem Levels.joinCondition (hLevels : c.Levels inner inner') (kind : JoinKind) :
    c.Agree (joinCondition inner kind) (joinCondition inner' kind) :=
  .ite (agree_pure rfl) ((agree_eatKeyword _).test_bind fun _ =>
    .ite (hLevels.expression 0).map_some (agree_pure rfl))

theorem Levels.extendSources (hLevels : c.Levels inner inner') {left left' : Node}
    (hLeft : mapTexts c.view left = mapTexts c.view left') :
    c.Agree (extendSources inner left) (extendSources inner' left') := by
  refine .current_bind fun kind kind' text text' span span' hKind _ => ?_
  dsimp only
  rw [hKind.joinKind?_eq]
  split
  · exact agree_pure rfl
  · next kind _ =>
    refine .advance_then (hLevels.source.bind fun right right' hRight =>
      (hLevels.joinCondition _).bind fun condition condition' hCondition => agree_pure ?_)
    have hForm : mapTexts c.view (Form.join left right kind condition) =
        mapTexts c.view (Form.join left' right' kind condition') := by
      show Form.join _ _ _ (mapTexts _ _) = Form.join _ _ _ (mapTexts _ _)
      rw [hLeft, hRight, hCondition]
    rw [mapTexts_some, mapTexts_some, mapTexts_ofForm, mapTexts_ofForm, hForm]

theorem Levels.orderingEntry (hLevels : c.Levels inner inner') :
    c.Agree (orderingEntry inner) (orderingEntry inner') := by
  have hDirection : c.Agree direction direction :=
    (agree_eatKeyword _).test_bind fun _ => .ite (agree_pure rfl)
      ((agree_eatKeyword _).test_bind fun _ => .ite (agree_pure rfl) (agree_pure rfl))
  have hNulls : c.Agree nullPlacement nullPlacement :=
    (agree_eatKeyword _).test_bind fun _ => .ite (agree_pure rfl)
      ((agree_eatKeyword _).test_bind fun _ => .ite (agree_pure rfl) (agree_pure rfl))
  refine (hLevels.expression 0).bind fun field field' hField =>
    hDirection.bind fun direction direction' hSame => hNulls.bind fun nulls nulls' hSame' =>
      agree_pure ?_
  have hForm : mapTexts c.view (Form.orderBy field direction nulls) =
      mapTexts c.view (Form.orderBy field' direction' nulls') := by
    show Form.orderBy _ direction nulls = Form.orderBy _ direction' nulls'
    rw [hField, show direction = direction' from hSame, show nulls = nulls' from hSame']
  rw [mapTexts_ofForm, mapTexts_ofForm, hForm]

theorem Agree.clause {α : Type} [HasTexts α] {body body' : Parser α} (word : Keyword)
    (hBody : c.Agree body body') : c.Agree (clause word body) (clause word body') :=
  (agree_eatKeyword word).test_bind fun _ => .ite hBody.map_some (agree_pure rfl)

theorem agree_distinctness : c.Agree distinctness distinctness :=
  (agree_eatKeyword _).test_bind fun _ =>
    .ite (agree_pure rfl) ((agree_eatKeyword _).test_bind fun _ => agree_pure rfl)

theorem view_ofTargets? {targets targets' : List Node}
    (hTargets : mapTexts c.view targets = mapTexts c.view targets') :
    (Query.ofTargets? targets).map (mapTexts c.view) =
      (Query.ofTargets? targets').map (mapTexts c.view) := by
  have hEmpty : targets.isEmpty = targets'.isEmpty := by
    cases targets <;> cases targets' <;> first | rfl | cases hTargets
  rw [Query.ofTargets?, Query.ofTargets?, hEmpty]
  split
  · rfl
  · exact congrArg (fun targets => Except.ok ({ targets := targets } : Query Node)) hTargets

theorem Node.isOrdering_mapTexts (f : String → String) (node : Node) :
    (mapTexts f node).isOrdering = node.isOrdering := by
  obtain ⟨form, aliasName, parentheses⟩ := node
  rw [mapTexts_node]
  cases form <;> rfl

theorem Node.label_mapTexts (f : String → String) (node : Node) :
    (mapTexts f node).label = node.label := by
  obtain ⟨form, aliasName, parentheses⟩ := node
  rw [mapTexts_node]
  cases form <;> rfl

/-- Whether the entries of an ordering are of that form can be seen after their
texts are replaced. -/
theorem mapTexts_withOrdering? (f : String → String) (query : Query Node) (entries : List Node) :
    (query.withOrdering? entries).map (mapTexts f) =
      (mapTexts f query).withOrdering? (mapTexts f entries) := by
  have hFind : (mapTexts f entries).find? (fun entry => !entry.isOrdering) =
      (entries.find? fun entry => !entry.isOrdering).map (mapTexts f) := by
    show (entries.map (mapTexts f)).find? _ = _
    rw [List.find?_map]
    simp only [Function.comp_def, Node.isOrdering_mapTexts]
  rw [Query.withOrdering?, Query.withOrdering?, hFind]
  cases entries.find? (fun entry => !entry.isOrdering) with
  | none => rfl
  | some entry =>
    show Except.error _ = Except.error _
    rw [Node.label_mapTexts]

/-- A list that a clause may leave out. -/
theorem view_getD {items items' : Option (List Node)}
    (hItems : mapTexts c.view items = mapTexts c.view items') :
    mapTexts c.view (items.getD []) = mapTexts c.view (items'.getD []) := by
  cases items with
  | none =>
    cases items' with
    | none => rfl
    | some _ => cases hItems
  | some items =>
    cases items' with
    | none => cases hItems
    | some items' => exact Option.some.inj hItems

theorem Levels.selectWith (hLevels : c.Levels inner inner') :
    c.Agree (selectWith inner) (selectWith inner') := by
  have hExpression := hLevels.expression 0
  have hTarget : c.Agree (target inner) (target inner') :=
    hExpression.bind fun _ _ hNode => agree_applyAlias hNode
  have hSources : c.Agree (sources inner) (sources inner') :=
    hLevels.source.bind fun _ _ hNode => .iterate (fun _ _ => hLevels.extendSources) hNode
  refine .expectKeyword_then _ (agree_distinctness.test_bind fun distinct =>
    hTarget.commaSeparated.bind fun targets targets' hTargets =>
      (agree_ofStructural (view_ofTargets? hTargets)).bind fun query query' hQuery => ?_)
  refine (hSources.clause _).bind fun source source' hSource =>
    (hExpression.clause _).bind fun condition condition' hCondition =>
    (hExpression.commaSeparated.clause _).bind fun groups groups' hGroups =>
    (hExpression.clause _).bind fun having having' hHaving => ?_
  refine (hLevels.orderingEntry.commaSeparated.clause _).bind fun ordering ordering' hOrdering => ?_
  refine (agree_ofStructural ?_).bind fun ordered ordered' hOrdered =>
    (hExpression.clause _).bind fun limit limit' hLimit =>
    (hExpression.clause _).bind fun offset offset' hOffset => agree_pure ?_
  · rw [mapTexts_withOrdering?, mapTexts_withOrdering?, hQuery, view_getD hOrdering]
  · obtain ⟨-, hTargets', -, -, -, -, hEntries, -, -⟩ := Query.mk.inj hOrdered
    have hForm : mapTexts c.view (Form.select { ordered with
          distinct := distinct
          source := source
          condition := condition
          groups := groups.getD []
          having := having
          limit := limit
          offset := offset }) =
        mapTexts c.view (Form.select { ordered' with
          distinct := distinct
          source := source'
          condition := condition'
          groups := groups'.getD []
          having := having'
          limit := limit'
          offset := offset' }) :=
      congrArg Form.select (Query.mk.injEq .. ▸ ⟨rfl, hTargets', hSource, hCondition,
        view_getD hGroups, hHaving, hEntries, hLimit, hOffset⟩)
    rw [mapTexts_ofForm, mapTexts_ofForm, hForm]

/-- All levels of nesting agree. -/
theorem Grammars.subparsers (hGrammars : c.Grammars grammar grammar') (levels : Nat) :
    c.Levels (grammar.subparsers levels) (grammar'.subparsers levels) := by
  induction levels with
  | zero => exact ⟨fun _ => agree_tooDeep, agree_tooDeep, agree_tooDeep⟩
  | succ levels ih =>
    refine ⟨fun least => ?_, ih.selectWith, ?_⟩
    · exact (hGrammars.operand ih).bind fun _ _ hNode =>
        .iterate (fun _ _ => hGrammars.extendExpression ih least) hNode
    · exact (hGrammars.derive _ _ ih).bind fun _ _ hNode => agree_applyAlias hNode

theorem Grammars.query (hGrammars : c.Grammars grammar grammar') :
    c.Agree grammar.query grammar'.query := by
  have hSelect : c.Agree grammar.select grammar'.select :=
    agree_sized fun levels => (hGrammars.subparsers levels).select
  refine agree_sized fun limit => ?_
  induction limit with
  | zero => exact agree_tooDeep
  | succ limit ih =>
    refine (agree_eat _).test_bind fun _ => .ite ?_ hSelect
    exact ih.bind fun _ _ hQuery => .expect_then _ (agree_pure (by simp [hQuery]))

/-- The statements of grammars that derive their symbols alike agree. -/
theorem Grammars.statement (hGrammars : c.Grammars grammar grammar') :
    c.Agree grammar.statement grammar'.statement := by
  refine hGrammars.query.bind fun _ _ hNode => (agree_eat _).test_bind fun _ =>
    .current_bind fun _ _ _ _ _ _ hKind _ => ?_
  rw [hKind.isFinish_eq]
  exact .ite (agree_pure hNode) (agree_unexpected _)

/-- A grammar agrees with itself if its productions do. -/
theorem Grammars.refl (hReduces : ∀ production ∈ grammar.productions, c.Reduces production) :
    c.Grammars grammar grammar where
  precedence := rfl
  derive symbol expected inner inner' hLevels := by
    refine .current_bind fun kind kind' text text' span span' hKind _ => ?_
    have hFind : grammar.production? symbol kind = grammar.production? symbol kind' :=
      List.find?_congr fun production hMem =>
        (hReduces production (List.mem_filter.1 hMem).1).starts hKind
    dsimp only
    rw [hFind]
    split
    · next production hFound =>
      have hMem := List.mem_filter.1 (List.mem_of_find?_eq_some hFound)
      exact (hReduces production hMem.1).reduce hLevels
    · exact agree_unexpected _

end Grammars

end Comparison

/-! ## Texts -/

/-- What a reply says of a text that is read to the end. -/
def Reply.outcome {α : Type} : Reply α → Except ParseError α
  | .ok value _ => .ok value
  | .fail error _ => .error error

theorem Grammar.parse_of_tokenize {grammar : Grammar} {source : String} {stream : TokenStream}
    (hTokens : grammar.tokens.tokenize source = .ok stream) :
    grammar.parse source = (grammar.statement stream).outcome := by
  rw [parse, hTokens]
  dsimp only
  cases grammar.statement stream <;> rfl

theorem Grammar.parse_of_tokenize_error {grammar : Grammar} {source : String} {e : LexicalError}
    (hTokens : grammar.tokens.tokenize source = .error e) :
    grammar.parse source = .error (.lexical e) := by
  rw [parse, hTokens]

end SqlQuery
