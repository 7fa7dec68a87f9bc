import SqlQuery.Proofs.Viability

/-!
# Parsers in step

Two runs are *in step* on a stream if they reply the same, and the reply is in
order: the stream that is left is a later part of the one given, and a failure
is a syntax error about the token that stands next.  One judgement about two
runs says three things at once.  Run against itself, a parser is shown to move
forward only and to fail in one way only.  Run with other parsers below it, it
is shown to call them only behind the tokens it has consumed itself.  Run with
other branches in it, it is shown not to reach those branches.

What is known of the parsers below is assumed behind a stream only, so that an
induction on the number of tokens ahead goes through.

## Main definitions

* `TokenStream.LeadsTo` — one stream is a later part of another.
* `Parser.InStepAt`, `Parser.InStep` — runs on one stream, and on all that it
  leads to.
* `Subparsers.InStepBehind` — parsers that are in step behind a stream.

## Main results

* `InStepAt.enter` — a parser that consumes a token before it calls those below.
* `Parser.inStep_iterate`, `Parser.inStep_collect` — repetitions.
-/

namespace SqlQuery

open Glyph (front)

/-! ## Later parts of a stream -/

namespace TokenStream

variable {stream middle rest : TokenStream}

/-- What is left of a stream once tokens are taken from its front. -/
def LeadsTo (stream rest : TokenStream) : Prop :=
  rest.last = stream.last ∧ rest.ahead <:+ stream.ahead

theorem LeadsTo.refl (stream : TokenStream) : stream.LeadsTo stream := ⟨rfl, List.suffix_rfl⟩

theorem LeadsTo.trans (hFirst : stream.LeadsTo middle) (hSecond : middle.LeadsTo rest) :
    stream.LeadsTo rest :=
  ⟨hSecond.1.trans hFirst.1, hSecond.2.trans hFirst.2⟩

theorem LeadsTo.closed (hLeads : stream.LeadsTo rest) (hClosed : stream.Closed) : rest.Closed := by
  rw [Closed, hLeads.1]
  exact hClosed

theorem LeadsTo.length_le (hLeads : stream.LeadsTo rest) :
    rest.ahead.length ≤ stream.ahead.length :=
  hLeads.2.length_le

theorem leadsTo_advance (stream : TokenStream) : stream.LeadsTo stream.advance :=
  ⟨rfl, List.tail_suffix _⟩

/-- A token at the front that is not the end is taken from the stream. -/
theorem length_advance_lt (hClosed : stream.Closed) (hKind : stream.current.kind ≠ .finish) :
    stream.advance.ahead.length < stream.ahead.length := by
  obtain ⟨ahead, last⟩ := stream
  cases ahead with
  | nil => exact absurd hClosed hKind
  | cons token ahead => exact Nat.lt_succ_self _

end TokenStream

namespace Parser

variable {α β : Type}

/-! ## Runs in step -/

/-- Two parsers reply the same on a stream.  What a value and the stream left
over have to do with each other is said by `R`. -/
structure InStepAt (p p' : Parser α) (stream : TokenStream) (R : α → TokenStream → Prop) :
    Prop where
  same : p stream = p' stream
  ok : ∀ {value : α} {rest : TokenStream}, p stream = .ok value rest →
    stream.LeadsTo rest ∧ R value rest
  fail : ∀ {error : ParseError} {rest : TokenStream}, p stream = .fail error rest →
    stream.LeadsTo rest ∧
      ∃ expected, error = .grammatical (.unexpected expected rest.current.kind rest.current.span)

/-- The stream left over has fewer tokens ahead than a given one. -/
def Moved (stream : TokenStream) : α → TokenStream → Prop :=
  fun _ rest => rest.ahead.length < stream.ahead.length

/-- Two parsers reply the same wherever a stream leads, with values in `R`. -/
def InStep (p p' : Parser α) (stream : TokenStream) (R : α → Prop) : Prop :=
  ∀ rest, stream.LeadsTo rest → rest.Closed → InStepAt p p' rest fun value _ => R value

/-- Two parsers reply the same wherever a stream leads, and consume a token when
they succeed. -/
def MoveInStep (p p' : Parser α) (stream : TokenStream) : Prop :=
  ∀ rest, stream.LeadsTo rest → rest.Closed → InStepAt p p' rest (Moved rest)

variable {p p' : Parser α} {q q' : α → Parser β} {stream rest : TokenStream}
  {R S : α → TokenStream → Prop} {T : β → TokenStream → Prop} {P Q : α → Prop} {O : β → Prop}

theorem InStepAt.mono (hStep : InStepAt p p' stream R)
    (hImp : ∀ value rest, stream.LeadsTo rest → R value rest → S value rest) :
    InStepAt p p' stream S := by
  refine ⟨hStep.same, fun hRun => ?_, hStep.fail⟩
  obtain ⟨hLeads, hRest⟩ := hStep.ok hRun
  exact ⟨hLeads, hImp _ _ hLeads hRest⟩

/-- Other parsers in the place of ones that reply the same. -/
theorem InStepAt.of_eq {r r' : Parser α} (hStep : InStepAt p p' stream R)
    (hSame : r stream = p stream) (hSame' : r' stream = p' stream) : InStepAt r r' stream R :=
  ⟨hSame.trans (hStep.same.trans hSame'.symm), fun hRun => hStep.ok (hSame.symm.trans hRun),
    fun hRun => hStep.fail (hSame.symm.trans hRun)⟩

theorem InStep.later (hStep : InStep p p' stream P) (hLeads : stream.LeadsTo rest) :
    InStep p p' rest P :=
  fun after hAfter => hStep after (hLeads.trans hAfter)

theorem MoveInStep.inStep (hStep : MoveInStep p p' stream) : InStep p p' stream fun _ => True :=
  fun rest hLeads hClosed => (hStep rest hLeads hClosed).mono fun _ _ _ _ => trivial

theorem MoveInStep.later (hStep : MoveInStep p p' stream) (hLeads : stream.LeadsTo rest) :
    MoveInStep p p' rest :=
  fun after hAfter => hStep after (hLeads.trans hAfter)

theorem inStepAt_pure {value : α} (hValue : R value stream) :
    InStepAt (pure value) (pure value) stream R := by
  refine ⟨rfl, fun hRun => ?_, fun hRun => by cases hRun⟩
  cases hRun
  exact ⟨.refl stream, hValue⟩

theorem inStep_pure {value : α} (hValue : P value) : InStep (pure value) (pure value) stream P :=
  fun _ _ _ => inStepAt_pure hValue

theorem inStepAt_unexpected (expected : String) :
    InStepAt (unexpected expected) (unexpected expected) stream R := by
  refine ⟨rfl, fun hRun => (by cases hRun), fun hRun => ?_⟩
  cases hRun
  exact ⟨.refl stream, expected, rfl⟩

/-- A node that is not malformed. -/
theorem inStep_ofStructural {result : Except StructuralError α} {value : α}
    (hResult : result = .ok value) (hValue : P value) :
    InStep (ofStructural result) (ofStructural result) stream P := by
  rw [hResult]
  exact inStep_pure hValue

/-- One parser after another. -/
theorem InStepAt.bind (hFirst : InStepAt p p' stream R)
    (hNext : ∀ value rest, stream.LeadsTo rest → R value rest →
      InStepAt (q value) (q' value) rest T) :
    InStepAt (p >>= q) (p' >>= q') stream T := by
  cases hRun : p stream with
  | ok value middle =>
    obtain ⟨hLeads, hValue⟩ := hFirst.ok hRun
    have hRun' : p' stream = .ok value middle := hFirst.same.symm.trans hRun
    have hBind : (p >>= q) stream = q value middle := by rw [bind_apply, hRun]
    have hBind' : (p' >>= q') stream = q' value middle := by rw [bind_apply, hRun']
    have hSecond := hNext value middle hLeads hValue
    refine ⟨hBind.trans (hSecond.same.trans hBind'.symm), fun hReply => ?_, fun hReply => ?_⟩
    · obtain ⟨hLater, hRest⟩ := hSecond.ok (hBind.symm.trans hReply)
      exact ⟨hLeads.trans hLater, hRest⟩
    · obtain ⟨hLater, hError⟩ := hSecond.fail (hBind.symm.trans hReply)
      exact ⟨hLeads.trans hLater, hError⟩
  | fail error middle =>
    have hRun' : p' stream = .fail error middle := hFirst.same.symm.trans hRun
    have hBind : (p >>= q) stream = .fail error middle := by rw [bind_apply, hRun]
    have hBind' : (p' >>= q') stream = .fail error middle := by rw [bind_apply, hRun']
    refine ⟨hBind.trans hBind'.symm, fun hReply => ?_, fun hReply => ?_⟩
    · cases hBind.symm.trans hReply
    · cases hBind.symm.trans hReply
      exact hFirst.fail hRun

theorem InStep.bind (hFirst : InStep p p' stream P)
    (hNext : ∀ value, P value → InStep (q value) (q' value) stream O) :
    InStep (p >>= q) (p' >>= q') stream O := fun rest hLeads hClosed =>
  (hFirst rest hLeads hClosed).bind fun value after hAfter hValue =>
    hNext value hValue after (hLeads.trans hAfter) (hAfter.closed hClosed)

/-- A parser that consumes a token before it goes on. -/
theorem InStepAt.enter (hFirst : InStepAt p p' stream (Moved stream)) (hClosed : stream.Closed)
    (hNext : ∀ value rest, stream.LeadsTo rest → rest.ahead.length < stream.ahead.length →
      InStep (q value) (q' value) rest fun _ => True) :
    InStepAt (p >>= q) (p' >>= q') stream (Moved stream) := by
  refine hFirst.bind fun value rest hLeads hLess => ?_
  refine (hNext value rest hLeads hLess rest (.refl rest) (hLeads.closed hClosed)).mono ?_
  intro _ after hAfter _
  exact Nat.lt_of_le_of_lt hAfter.length_le hLess

theorem MoveInStep.bind (hFirst : MoveInStep p p' stream)
    (hNext : ∀ value, InStep (q value) (q' value) stream fun _ => True) :
    MoveInStep (p >>= q) (p' >>= q') stream := fun rest hLeads hClosed =>
  (hFirst rest hLeads hClosed).enter hClosed fun value _ hAfter _ =>
    (hNext value).later (hLeads.trans hAfter)

/-! ### Looking at and consuming tokens -/

theorem inStepAt_current_bind {q q' : Token → Parser α}
    (hNext : InStepAt (q stream.current) (q' stream.current) stream R) :
    InStepAt (current >>= q) (current >>= q') stream R :=
  ⟨hNext.same, hNext.ok, hNext.fail⟩

theorem inStepAt_peek_bind {n : Nat} {q q' : TokenKind → Parser α}
    (hNext : InStepAt (q (stream.peek n)) (q' (stream.peek n)) stream R) :
    InStepAt (peek n >>= q) (peek n >>= q') stream R :=
  ⟨hNext.same, hNext.ok, hNext.fail⟩

/-- The token at the front is consumed, unless it is the end. -/
theorem inStepAt_advance (hClosed : stream.Closed) :
    InStepAt advance advance stream fun token rest =>
      token = stream.current ∧
        (token.kind ≠ .finish → rest.ahead.length < stream.ahead.length) := by
  refine ⟨rfl, fun hRun => ?_, fun hRun => by cases hRun⟩
  cases hRun
  exact ⟨stream.leadsTo_advance, rfl, TokenStream.length_advance_lt hClosed⟩

theorem inStep_advance : InStep advance advance stream fun _ => True :=
  fun _ _ hClosed => (inStepAt_advance hClosed).mono fun _ _ _ _ => trivial

/-- A parser that consumes the token at the front, which is not the end. -/
theorem inStepAt_advance_bind {q q' : Token → Parser β} (hClosed : stream.Closed)
    (hKind : stream.current.kind ≠ .finish)
    (hNext : ∀ rest, stream.LeadsTo rest → rest.ahead.length < stream.ahead.length →
      InStep (q stream.current) (q' stream.current) rest fun _ => True) :
    InStepAt (advance >>= q) (advance >>= q') stream (Moved stream) := by
  refine (inStepAt_advance hClosed).bind fun token rest hLeads hToken => ?_
  obtain ⟨rfl, hLess⟩ := hToken
  refine (hNext rest hLeads (hLess hKind) rest (.refl rest) (hLeads.closed hClosed)).mono ?_
  intro _ after hAfter _
  exact Nat.lt_of_le_of_lt hAfter.length_le (hLess hKind)

/-- A value for the token at the front, which is not the end. -/
theorem inStepAt_take {value : α} (hClosed : stream.Closed)
    (hKind : stream.current.kind ≠ .finish) :
    InStepAt (do let _ ← advance; return value) (do let _ ← advance; return value) stream
      (Moved stream) :=
  inStepAt_advance_bind hClosed hKind fun _ _ _ => inStep_pure trivial

theorem inStepAt_test_bind {test : Parser Bool} {kind : TokenKind} {q q' : Bool → Parser α}
    (hTest : Tests test kind stream)
    (hTrue : front stream.glyphs = kind → InStepAt (q true) (q' true) stream R)
    (hFalse : front stream.glyphs ≠ kind → InStepAt (q false) (q' false) stream R) :
    InStepAt (test >>= q) (test >>= q') stream R := by
  obtain ⟨found, hRun, hFound⟩ := hTest
  have hBind : (test >>= q) stream = q found stream := by rw [bind_apply, hRun]
  have hBind' : (test >>= q') stream = q' found stream := by rw [bind_apply, hRun]
  have hNext : InStepAt (q found) (q' found) stream R := by
    cases found with
    | true => exact hTrue (hFound.1 rfl)
    | false => exact hFalse fun hFront => absurd (hFound.2 hFront) Bool.false_ne_true
  exact ⟨hBind.trans (hNext.same.trans hBind'.symm),
    fun hReply => hNext.ok (hBind.symm.trans hReply),
    fun hReply => hNext.fail (hBind.symm.trans hReply)⟩

theorem inStep_check (kind : TokenKind) :
    InStep (check kind) (check kind) stream fun _ => True := fun _ _ _ =>
  inStepAt_current_bind (inStepAt_pure trivial)

theorem inStep_checkKeyword (word : Keyword) :
    InStep (checkKeyword word) (checkKeyword word) stream fun _ => True := fun _ _ _ =>
  inStepAt_current_bind (inStepAt_pure trivial)

/-- A token that passes a test is consumed if it stands at the front. -/
theorem inStepAt_eatIf {test : Parser Bool} {kind : TokenKind} (hTest : Tests test kind stream)
    (hClosed : stream.Closed) (hKind : kind ≠ .finish) :
    InStepAt (eatIf test) (eatIf test) stream fun found rest =>
      (found = true → rest.ahead.length < stream.ahead.length) ∧
        (front stream.glyphs = kind → found = true) := by
  refine inStepAt_test_bind hTest (fun hFront => ?_) fun hFront => ?_
  · have hCurrent : stream.current.kind ≠ .finish := by
      rw [hClosed.kind_current, hFront]
      exact hKind
    refine (inStepAt_advance hClosed).bind fun token rest hLeads hToken => inStepAt_pure ?_
    obtain ⟨rfl, hLess⟩ := hToken
    exact ⟨fun _ => hLess hCurrent, fun _ => rfl⟩
  · exact inStepAt_pure ⟨fun hFalse => absurd hFalse Bool.false_ne_true,
      fun hFront' => absurd hFront' hFront⟩

theorem inStep_eat {kind : TokenKind} (hPlain : kind ∈ TokenKind.plain) (hKind : kind ≠ .finish) :
    InStep (eat kind) (eat kind) stream fun _ => True := fun _ _ hClosed =>
  (inStepAt_eatIf (tests_check hPlain hClosed) hClosed hKind).mono fun _ _ _ _ => trivial

theorem inStep_eatKeyword (word : Keyword) :
    InStep (eatKeyword word) (eatKeyword word) stream fun _ => True := fun _ _ hClosed =>
  (inStepAt_eatIf (tests_checkKeyword word hClosed) hClosed (by simp)).mono fun _ _ _ _ => trivial

/-- A token that a test demands is consumed. -/
theorem inStepAt_demand {test : Parser Bool} {kind : TokenKind} {expected : String}
    (hTest : Tests test kind stream) (hClosed : stream.Closed) (hKind : kind ≠ .finish) :
    InStepAt (test >>= fun found => if found then advance else unexpected expected)
      (test >>= fun found => if found then advance else unexpected expected) stream
      (Moved stream) := by
  refine inStepAt_test_bind hTest (fun hFront => ?_) fun _ => inStepAt_unexpected expected
  have hCurrent : stream.current.kind ≠ .finish := by
    rw [hClosed.kind_current, hFront]
    exact hKind
  refine (inStepAt_advance hClosed).mono fun token rest _ hToken => ?_
  obtain ⟨rfl, hLess⟩ := hToken
  exact hLess hCurrent

theorem move_expect {kind : TokenKind} (hPlain : kind ∈ TokenKind.plain) (hKind : kind ≠ .finish) :
    MoveInStep (expect kind) (expect kind) stream :=
  fun _ _ hClosed => inStepAt_demand (tests_check hPlain hClosed) hClosed hKind

theorem move_expectLeftParen : MoveInStep (expect .leftParen) (expect .leftParen) stream :=
  move_expect (by decide) (by simp)

theorem move_expectRightParen : MoveInStep (expect .rightParen) (expect .rightParen) stream :=
  move_expect (by decide) (by simp)

theorem move_expectKeyword (word : Keyword) :
    MoveInStep (expectKeyword word) (expectKeyword word) stream :=
  fun _ _ hClosed => inStepAt_demand (tests_checkKeyword word hClosed) hClosed (by simp)

theorem move_expectIdentifier : MoveInStep expectIdentifier expectIdentifier stream := by
  intro rest _ hClosed
  refine inStepAt_current_bind ?_
  split
  · next name quote hKind => exact inStepAt_take hClosed (by simp [hKind])
  · exact inStepAt_unexpected _

/-! ### Repetition -/

/-- A step of a repetition that goes on only if it consumed a token. -/
def Goes (stream : TokenStream) : Option α → TokenStream → Prop :=
  fun next rest => next.isSome = true → rest.ahead.length < stream.ahead.length

theorem inStep_iterate {step step' : α → Parser (Option α)}
    (hStep : ∀ value rest, stream.LeadsTo rest → rest.Closed →
      InStepAt (step value) (step' value) rest (Goes rest)) (value : α) :
    InStep (iterate step value) (iterate step' value) stream fun _ => True := by
  have hWithin : ∀ limit value rest, stream.LeadsTo rest → rest.Closed →
      rest.ahead.length < limit →
      InStepAt (iterateWithin step limit value) (iterateWithin step' limit value) rest
        fun _ _ => True := by
    intro limit
    induction limit with
    | zero => exact fun _ _ _ _ hLimit => absurd hLimit (Nat.not_lt_zero _)
    | succ limit ih =>
      intro value rest hLeads hClosed hLimit
      refine (hStep value rest hLeads hClosed).bind fun next after hAfter hNext => ?_
      cases next with
      | none => exact inStepAt_pure trivial
      | some further =>
        have hLess := hNext rfl
        exact ih further after (hLeads.trans hAfter) (hAfter.closed hClosed) (by omega)
  intro rest hLeads hClosed
  exact (hWithin (rest.ahead.length + 1) value rest hLeads hClosed (Nat.lt_succ_self _)).of_eq
    rfl rfl

/-- A collection of values in `P`, empty only if `stop` holds of the stream that
it starts from. -/
theorem inStep_collect {step step' : Parser (Option α)} {stop : TokenStream → Prop}
    (hStep : ∀ rest, stream.LeadsTo rest → rest.Closed →
      InStepAt step step' rest fun next after => Goes rest next after ∧
        (∀ value ∈ next, P value) ∧ (next = none → stop rest)) :
    ∀ rest, stream.LeadsTo rest → rest.Closed →
      InStepAt (collect step) (collect step') rest fun values _ =>
        (∀ value ∈ values, P value) ∧ (values = [] → stop rest) := by
  have hWithin : ∀ limit rest, stream.LeadsTo rest → rest.Closed → rest.ahead.length < limit →
      InStepAt (collectWithin step limit) (collectWithin step' limit) rest fun values _ =>
        (∀ value ∈ values, P value) ∧ (values = [] → stop rest) := by
    intro limit
    induction limit with
    | zero => exact fun _ _ _ hLimit => absurd hLimit (Nat.not_lt_zero _)
    | succ limit ih =>
      intro rest hLeads hClosed hLimit
      refine (hStep rest hLeads hClosed).bind fun next after hAfter hNext => ?_
      obtain ⟨hLess, hValue, hStop⟩ := hNext
      cases next with
      | none =>
        exact inStepAt_pure ⟨fun _ hMem => absurd hMem List.not_mem_nil, fun _ => hStop rfl⟩
      | some value =>
        have hLess := hLess rfl
        refine (ih after (hLeads.trans hAfter) (hAfter.closed hClosed) (by omega)).bind
          fun values _ _ hValues => inStepAt_pure ⟨?_, fun hNil => absurd hNil (by simp)⟩
        exact List.forall_mem_cons.2 ⟨hValue value rfl, hValues.1⟩
  intro rest hLeads hClosed
  exact (hWithin (rest.ahead.length + 1) rest hLeads hClosed (Nat.lt_succ_self _)).of_eq rfl rfl

theorem inStep_furtherItems {item item' : Parser α} (hItem : InStep item item' stream P) :
    InStep (furtherItems item) (furtherItems item') stream fun values =>
      ∀ value ∈ values, P value := by
  have hStep : ∀ rest, stream.LeadsTo rest → rest.Closed →
      InStepAt (do if ← eat .comma then return some (← item) else return none)
        (do if ← eat .comma then return some (← item') else return none) rest fun next after =>
          Goes rest next after ∧ (∀ value ∈ next, P value) ∧ (next = none → True) := by
    intro rest hLeads hClosed
    refine (inStepAt_eatIf (tests_check (by decide) hClosed) hClosed (by simp)).bind
      fun found after hAfter hFound => ?_
    cases found with
    | true =>
      refine (hItem after (hLeads.trans hAfter) (hAfter.closed hClosed)).bind
        fun value last hLast hValue => inStepAt_pure ⟨fun _ => ?_, ?_, fun _ => trivial⟩
      · exact Nat.lt_of_le_of_lt hLast.length_le (hFound.1 rfl)
      · rintro _ ⟨⟩
        exact hValue
    | false =>
      exact inStepAt_pure ⟨fun h => absurd h (by simp), fun _ h => absurd h (by simp),
        fun _ => trivial⟩
  exact fun rest hLeads hClosed =>
    (inStep_collect hStep rest hLeads hClosed).mono fun _ _ _ hValues => hValues.1

theorem inStep_commaSeparated {item item' : Parser α} (hItem : InStep item item' stream P) :
    InStep (commaSeparated item) (commaSeparated item') stream fun values =>
      values ≠ [] ∧ ∀ value ∈ values, P value :=
  hItem.bind fun _ hFirst => (inStep_furtherItems hItem).bind fun _ hFurther =>
    inStep_pure ⟨List.cons_ne_nil _ _, List.forall_mem_cons.2 ⟨hFirst, hFurther⟩⟩

end Parser

end SqlQuery
