import Mathlib.Computability.Language
import Mathlib.Order.CompletePartialOrder
import SqlQuery.Proofs.Completeness
import SqlQuery.Proofs.Framing

/-!
# Viable parsers

A parser is *viable* for a language if what it consumes when it succeeds is in
the language, and what it has consumed when it fails can be completed to a
member.  The completion is made of glyphs that could stand in a text.

Viability goes through a sequence of parsers, for what the first one has
consumed can be completed by anything that the second one accepts.  So each
parser is viable for a language that follows the shape of its definition: a
product for a sequence, a sum for a choice, and for a repetition any language
that takes up one more step.  What remains for a parser is to show that this
language lies in the one that is wanted for it.

That a language has a member to complete with is found by instance search.

## Main definitions

* `Completable` — languages with a member that could stand in a text.
* `Parser.ViableAt`, `Parser.Viable` — parsers that consume beginnings of a
  language, on one stream or on all.
* `spans` — the glyphs that are in a relation in front of all that may follow.

## Main results

* `Parser.ViableAt.bind` — one viable parser after another.
* `Parser.viable_iterate`, `Parser.viable_collect` — repetitions.
* `viable_applyAlias`, `viable_distinctness`, `viable_typeName` and others — the
  parsers of parts without a tree inside.
-/

namespace SqlQuery

open Glyph (front AllGenuine)
open SqlQuery.Parser

/-! ## Streams and what is taken from them -/

namespace TokenStream

variable {stream middle rest : TokenStream} {xs ys : List Glyph}

/-- The rest of a stream after glyphs are taken from its front. -/
def Passes (stream : TokenStream) (xs : List Glyph) (rest : TokenStream) : Prop :=
  rest.last = stream.last ∧ ∃ used, stream.ahead = used ++ rest.ahead ∧ used.map Token.glyph = xs

theorem passes_nil (stream : TokenStream) : stream.Passes [] stream := ⟨rfl, [], rfl, rfl⟩

theorem Passes.trans (hFirst : stream.Passes xs middle) (hSecond : middle.Passes ys rest) :
    stream.Passes (xs ++ ys) rest := by
  obtain ⟨hLast, used, hAhead, rfl⟩ := hFirst
  obtain ⟨hLast', used', hAhead', rfl⟩ := hSecond
  refine ⟨hLast'.trans hLast, used ++ used', ?_, List.map_append⟩
  rw [hAhead, hAhead', List.append_assoc]

theorem Passes.closed (hPasses : stream.Passes xs rest) (hClosed : stream.Closed) :
    rest.Closed := by
  rw [Closed, hPasses.1]
  exact hClosed

/-- The token at the front, if it is not the end. -/
theorem passes_advance {kind : TokenKind} (hFront : front stream.glyphs = kind)
    (hKind : kind ≠ .finish) :
    stream.Passes [⟨kind, stream.current.lexeme⟩] stream.advance := by
  obtain ⟨ahead, last⟩ := stream
  cases ahead with
  | nil => exact absurd hFront.symm hKind
  | cons token ahead =>
    subst hFront
    exact ⟨rfl, [token], rfl, rfl⟩

end TokenStream

/-! ## Languages of glyphs -/

/-- A language with a member that could stand in a text. -/
class Completable (L : Language Glyph) : Prop where
  exists_mem : ∃ xs ∈ L, AllGenuine xs

/-- A glyph of a given kind. -/
def oneOf (kind : TokenKind) : Language Glyph := {xs | ∃ text, xs = [⟨kind, text⟩]}

namespace Completable

variable {L M : Language Glyph}

theorem mono (hL : Completable L) (hLe : L ≤ M) : Completable M := by
  obtain ⟨xs, hMem, hGenuine⟩ := hL
  exact ⟨xs, hLe hMem, hGenuine⟩

instance one : Completable 1 := ⟨[], rfl, fun _ h => absurd h List.not_mem_nil⟩

instance mul [hL : Completable L] [hM : Completable M] : Completable (L * M) := by
  obtain ⟨xs, hMem, hGenuine⟩ := hL
  obtain ⟨ys, hMem', hGenuine'⟩ := hM
  exact ⟨xs ++ ys, Language.append_mem_mul hMem hMem',
    List.forall_mem_append.2 ⟨hGenuine, hGenuine'⟩⟩

instance add_left [hL : Completable L] : Completable (L + M) := hL.mono le_self_add

instance add_right [hM : Completable M] : Completable (L + M) := hM.mono le_add_self

/-- A glyph of a kind with a text that belongs to it. -/
theorem of_genuine {kind : TokenKind} {text : String} (hGenuine : Glyph.Genuine ⟨kind, text⟩) :
    Completable (oneOf kind) :=
  ⟨[⟨kind, text⟩], ⟨text, rfl⟩, List.forall_mem_singleton.2 hGenuine⟩

instance keyword (word : Keyword) : Completable (oneOf (.keyword word)) :=
  of_genuine word.genuine_glyph

instance : Completable (oneOf .leftParen) := of_genuine (List.mem_singleton.2 rfl)

instance : Completable (oneOf .rightParen) := of_genuine (List.mem_singleton.2 rfl)

/-- A number for whatever operand is missing. -/
instance : Completable (oneOf (.integer 1)) :=
  @of_genuine _ "1" (show (0 : Int) ≤ Int64.toInt 1 by decide)

/-- A name for whatever name is missing. -/
instance : Completable (oneOf (.identifier "a" (some Token.backtick))) :=
  @of_genuine _ "\x60a\x60" (show _ = _ ∧ _ ≠ _ ∧ _ ∉ _ by decide)

end Completable

/-! ## Viable parsers -/

/-- What was consumed for a reply is in the language, or can be completed to a
member if the reply is a syntax error, and the error is that of the token which
stands next. -/
structure Reply.Viable {α : Type} (reply : Reply α) (stream : TokenStream) (L : Language Glyph) :
    Prop where
  ok : ∀ {value : α} {rest : TokenStream}, reply = .ok value rest → ∃ xs ∈ L, stream.Passes xs rest
  fail : ∀ {e : SyntaxError} {rest : TokenStream}, reply = .fail (.grammatical e) rest →
    (∃ expected, e = .unexpected expected rest.current.kind rest.current.span) ∧
      ∃ xs ys, stream.Passes xs rest ∧ AllGenuine ys ∧ xs ++ ys ∈ L

namespace Parser

variable {α β : Type} {p : Parser α} {stream : TokenStream} {L M K : Language Glyph}

/-- What the parser replies on a stream is viable. -/
def ViableAt (p : Parser α) (stream : TokenStream) (L : Language Glyph) : Prop :=
  (p stream).Viable stream L

/-- A parser that is viable on every closed stream. -/
def Viable (p : Parser α) (L : Language Glyph) : Prop :=
  ∀ stream : TokenStream, stream.Closed → p.ViableAt stream L

theorem Viable.viableAt (hViable : p.Viable L) (hClosed : stream.Closed) : p.ViableAt stream L :=
  hViable stream hClosed

theorem ViableAt.mono (hViable : p.ViableAt stream L) (hLe : L ≤ M) : p.ViableAt stream M := by
  refine ⟨fun hRun => ?_, fun hRun => ?_⟩
  · obtain ⟨xs, hMem, hPasses⟩ := hViable.ok hRun
    exact ⟨xs, hLe hMem, hPasses⟩
  · obtain ⟨hError, xs, ys, hPasses, hGenuine, hMem⟩ := hViable.fail hRun
    exact ⟨hError, xs, ys, hPasses, hGenuine, hLe hMem⟩

theorem Viable.mono (hViable : p.Viable L) (hLe : L ≤ M) : p.Viable M :=
  fun stream hClosed => (hViable stream hClosed).mono hLe

/-- A parser that gives a value without consuming anything. -/
theorem viableAt_of_ok {value : α} (hRun : p stream = .ok value stream) (hNil : [] ∈ L) :
    p.ViableAt stream L := by
  refine ⟨fun hRun' => ?_, fun hRun' => ?_⟩
  · cases hRun.symm.trans hRun'
    exact ⟨[], hNil, stream.passes_nil⟩
  · cases hRun.symm.trans hRun'

theorem viable_pure (value : α) : Viable (pure value) 1 :=
  fun _ _ => viableAt_of_ok rfl rfl

theorem viable_unexpected [hL : Completable L] (expected : String) :
    Viable (unexpected expected : Parser α) L := by
  intro stream _
  refine ⟨(fun hRun => by cases hRun), fun hRun => ?_⟩
  obtain ⟨ys, hMem, hGenuine⟩ := hL
  cases hRun
  exact ⟨⟨expected, rfl⟩, [], ys, stream.passes_nil, hGenuine, hMem⟩

/-- A failure that is no syntax error does not count. -/
theorem viable_fail {error : ParseError} (hError : ∀ e, error ≠ .grammatical e) :
    Viable (fail error : Parser α) L := by
  intro stream _
  refine ⟨(fun hRun => by cases hRun), fun hRun => ?_⟩
  cases hRun
  exact absurd rfl (hError _)

theorem viable_ofStructural (result : Except StructuralError α) :
    Viable (ofStructural result) 1 := by
  cases result with
  | ok value => exact viable_pure value
  | error e => exact viable_fail (by simp)

/-- One parser after another.  Where the first one fails, anything that the
second one accepts completes it. -/
theorem ViableAt.bind [hM : Completable M] {q : α → Parser β} (hFirst : p.ViableAt stream L)
    (hNext : ∀ value rest, p stream = .ok value rest → (q value).ViableAt rest M) :
    (p >>= q).ViableAt stream (L * M) := by
  cases hRun : p stream with
  | ok value middle =>
    have hBind : (p >>= q) stream = q value middle := by rw [bind_apply, hRun]
    obtain ⟨xs, hMem, hPasses⟩ := hFirst.ok hRun
    have hViable := hNext value middle hRun
    refine ⟨fun hRun' => ?_, fun hRun' => ?_⟩
    · obtain ⟨ys, hMem', hPasses'⟩ := hViable.ok (hBind.symm.trans hRun')
      exact ⟨xs ++ ys, Language.append_mem_mul hMem hMem', hPasses.trans hPasses'⟩
    · obtain ⟨hError, ys, zs, hPasses', hGenuine, hMem'⟩ := hViable.fail (hBind.symm.trans hRun')
      refine ⟨hError, xs ++ ys, zs, hPasses.trans hPasses', hGenuine, ?_⟩
      rw [List.append_assoc]
      exact Language.append_mem_mul hMem hMem'
  | fail error middle =>
    have hBind : (p >>= q) stream = .fail error middle := by rw [bind_apply, hRun]
    refine ⟨(fun hRun' => by cases hBind.symm.trans hRun'), fun hRun' => ?_⟩
    cases hBind.symm.trans hRun'
    obtain ⟨hError, xs, ys, hPasses, hGenuine, hMem⟩ := hFirst.fail hRun
    obtain ⟨zs, hMem', hGenuine'⟩ := hM
    refine ⟨hError, xs, ys ++ zs, hPasses, List.forall_mem_append.2 ⟨hGenuine, hGenuine'⟩, ?_⟩
    rw [← List.append_assoc]
    exact Language.append_mem_mul hMem hMem'

theorem ViableAt.then [Completable M] {q : α → Parser β} (hFirst : p.ViableAt stream L)
    (hClosed : stream.Closed) (hNext : ∀ value, (q value).Viable M) :
    (p >>= q).ViableAt stream (L * M) := by
  refine hFirst.bind fun value rest hRun => ?_
  obtain ⟨xs, -, hPasses⟩ := hFirst.ok hRun
  exact hNext value rest (hPasses.closed hClosed)

theorem Viable.bind [Completable M] {q : α → Parser β} (hFirst : p.Viable L)
    (hNext : ∀ value, (q value).Viable M) : (p >>= q).Viable (L * M) :=
  fun stream hClosed => (hFirst stream hClosed).then hClosed hNext

/-- A parser whose value is changed without consuming anything. -/
theorem ViableAt.map {f : α → β} (hViable : p.ViableAt stream L) (hClosed : stream.Closed) :
    (p >>= fun value => pure (f value)).ViableAt stream L :=
  (hViable.then hClosed fun _ => viable_pure _).mono (mul_one L).le

theorem Viable.map {f : α → β} (hViable : p.Viable L) :
    (p >>= fun value => pure (f value)).Viable L :=
  fun stream hClosed => (hViable stream hClosed).map hClosed

/-! ### Looking at and consuming tokens -/

theorem viable_current_bind {q : Token → Parser α} (hNext : ∀ token, (q token).Viable L) :
    (current >>= q).Viable L := fun stream hClosed => hNext stream.current stream hClosed

theorem viableAt_current_bind {q : Token → Parser α}
    (hNext : ∀ token, token = stream.current → (q token).ViableAt stream L) :
    (current >>= q).ViableAt stream L := hNext _ rfl

theorem viableAt_peek_bind {q : TokenKind → Parser α} (hClosed : stream.Closed)
    (hNext : (q (front stream.glyphs.tail)).ViableAt stream L) :
    (peek 1 >>= q).ViableAt stream L := by
  rw [← hClosed.peek_one] at hNext
  exact hNext

/-- A parser that begins by consuming the token at the front, which is not the
end. -/
theorem viableAt_advance_bind {kind : TokenKind} {q : Token → Parser α}
    (hFront : front stream.glyphs = kind) (hKind : kind ≠ .finish)
    (hNext : (q stream.current).ViableAt stream.advance L) :
    (advance >>= q).ViableAt stream (oneOf kind * L) := by
  have hPasses := TokenStream.passes_advance hFront hKind
  refine ⟨fun hRun => ?_, fun hRun => ?_⟩
  · obtain ⟨xs, hMem, hRest⟩ := hNext.ok hRun
    exact ⟨_, Language.append_mem_mul ⟨_, rfl⟩ hMem, hPasses.trans hRest⟩
  · obtain ⟨hError, xs, ys, hRest, hGenuine, hMem⟩ := hNext.fail hRun
    exact ⟨hError, _, ys, hPasses.trans hRest, hGenuine, by
      rw [List.append_assoc]
      exact Language.append_mem_mul ⟨_, rfl⟩ hMem⟩

/-- A parser that consumes the token at the front and gives a value. -/
theorem viableAt_take {kind : TokenKind} {value : α} (hFront : front stream.glyphs = kind)
    (hKind : kind ≠ .finish) :
    ViableAt (do let _ ← advance; return value) stream (oneOf kind) := by
  have hViable : ViableAt (do let _ ← advance; return value) stream (oneOf kind * 1) :=
    viableAt_advance_bind hFront hKind (viableAt_of_ok rfl rfl)
  exact hViable.mono (mul_one _).le

/-- Whether the token at the front is of a kind, as a test says. -/
def Tests (test : Parser Bool) (kind : TokenKind) (stream : TokenStream) : Prop :=
  ∃ found, test stream = .ok found stream ∧ (found = true ↔ front stream.glyphs = kind)

theorem tests_check {kind : TokenKind} (hPlain : kind ∈ TokenKind.plain) (hClosed : stream.Closed) :
    Tests (check kind) kind stream :=
  ⟨_, rfl, by rw [TokenKind.sameForm_iff_of_mem_plain hPlain, hClosed.kind_current]⟩

theorem tests_checkKeyword (word : Keyword) (hClosed : stream.Closed) :
    Tests (checkKeyword word) (.keyword word) stream :=
  ⟨_, rfl, by rw [beq_iff_eq, Token.keyword?_eq_some_iff, hClosed.kind_current]⟩

/-- A parser that begins with a test of the token at the front. -/
theorem viableAt_test_bind {test : Parser Bool} {kind : TokenKind} {q : Bool → Parser α}
    (hTest : Tests test kind stream)
    (hTrue : front stream.glyphs = kind → (q true).ViableAt stream L)
    (hFalse : front stream.glyphs ≠ kind → (q false).ViableAt stream L) :
    (test >>= q).ViableAt stream L := by
  obtain ⟨found, hRun, hFound⟩ := hTest
  rw [ViableAt, bind_apply, hRun]
  cases found with
  | true => exact hTrue (hFound.1 rfl)
  | false => exact hFalse fun hFront => absurd (hFound.2 hFront) Bool.false_ne_true

theorem viable_check_bind {kind : TokenKind} {q : Bool → Parser α} (hPlain : kind ∈ TokenKind.plain)
    (hTrue : (q true).Viable L) (hFalse : (q false).Viable M) :
    (check kind >>= q).Viable (L + M) := fun stream hClosed =>
  viableAt_test_bind (tests_check hPlain hClosed) (fun _ => (hTrue stream hClosed).mono le_self_add)
    fun _ => (hFalse stream hClosed).mono le_add_self

/-- A parser that begins by consuming a token of a kind, if one is at the
front. -/
theorem viableAt_eatIf_bind {test : Parser Bool} {kind : TokenKind} {q : Bool → Parser α}
    (hTest : Tests test kind stream) (hKind : kind ≠ .finish)
    (hTrue : front stream.glyphs = kind → (q true).ViableAt stream.advance L)
    (hFalse : front stream.glyphs ≠ kind → (q false).ViableAt stream M) :
    (eatIf test >>= q).ViableAt stream (oneOf kind * L + M) := by
  rw [eatIf, bind_assoc]
  refine viableAt_test_bind hTest (fun hFront => ?_) fun hFront => (hFalse hFront).mono le_add_self
  exact (viableAt_advance_bind (q := fun _ => q true) hFront hKind (hTrue hFront)).mono le_self_add

theorem viable_eat_bind {kind : TokenKind} {q : Bool → Parser α} (hPlain : kind ∈ TokenKind.plain)
    (hKind : kind ≠ .finish) (hTrue : (q true).Viable L) (hFalse : (q false).Viable M) :
    (eat kind >>= q).Viable (oneOf kind * L + M) := fun stream hClosed =>
  viableAt_eatIf_bind (tests_check hPlain hClosed) hKind
    (fun _ => hTrue stream.advance hClosed.advance) fun _ => hFalse stream hClosed

theorem viable_eatKeyword_bind {word : Keyword} {q : Bool → Parser α} (hTrue : (q true).Viable L)
    (hFalse : (q false).Viable M) :
    (eatKeyword word >>= q).Viable (oneOf (.keyword word) * L + M) := fun stream hClosed =>
  viableAt_eatIf_bind (tests_checkKeyword word hClosed) (by simp)
    (fun _ => hTrue stream.advance hClosed.advance) fun _ => hFalse stream hClosed

/-- A token that a test demands. -/
theorem viableAt_demand {test : Parser Bool} {kind : TokenKind} [Completable (oneOf kind)]
    {expected : String} (hTest : Tests test kind stream) (hClosed : stream.Closed)
    (hKind : kind ≠ .finish) :
    ViableAt (test >>= fun found => if found then advance else unexpected expected) stream
      (oneOf kind) := by
  refine viableAt_test_bind hTest (fun hFront => ?_) fun _ =>
    viable_unexpected expected stream hClosed
  have hAdvance : (advance >>= pure).ViableAt stream (oneOf kind * 1) :=
    viableAt_advance_bind hFront hKind (viableAt_of_ok rfl rfl)
  exact hAdvance.mono (mul_one _).le

/-- A token that is demanded and stands at the front. -/
theorem viableAt_demand_bind {test : Parser Bool} {kind : TokenKind} {expected : String}
    {q : Token → Parser α} (hTest : Tests test kind stream) (hFront : front stream.glyphs = kind)
    (hKind : kind ≠ .finish) (hNext : (q stream.current).ViableAt stream.advance L) :
    ViableAt ((test >>= fun found => if found then advance else unexpected expected) >>= q) stream
      (oneOf kind * L) := by
  rw [bind_assoc]
  exact viableAt_test_bind hTest (fun _ => viableAt_advance_bind hFront hKind hNext)
    fun hFront' => absurd hFront hFront'

theorem viable_expect {kind : TokenKind} [Completable (oneOf kind)]
    (hPlain : kind ∈ TokenKind.plain) (hKind : kind ≠ .finish) :
    (expect kind).Viable (oneOf kind) :=
  fun _ hClosed => viableAt_demand (tests_check hPlain hClosed) hClosed hKind

theorem viable_expectRightParen : (expect .rightParen).Viable (oneOf .rightParen) :=
  viable_expect (by decide) (by simp)

theorem viable_expectKeyword (word : Keyword) :
    (expectKeyword word).Viable (oneOf (.keyword word)) := fun _ hClosed =>
  viableAt_demand (tests_checkKeyword word hClosed) hClosed (by simp)

/-! ### Repetition -/

theorem viable_iterate {step : α → Parser (Option α)} (hStep : ∀ value, (step value).Viable M)
    (hDone : 1 ≤ K) (hMore : M * K ≤ K) (value : α) : (iterate step value).Viable K := by
  have : Completable K := Completable.one.mono hDone
  have hWithin : ∀ limit value, (iterateWithin step limit value).Viable K := by
    intro limit
    induction limit with
    | zero => exact fun value => viable_fail (by simp)
    | succ limit ih =>
      intro value
      refine ((hStep value).bind fun next => ?_).mono hMore
      cases next with
      | none => exact (viable_pure value).mono hDone
      | some further => exact ih further
  exact fun stream hClosed => hWithin _ value stream hClosed

theorem viable_collectWithin {step : Parser (Option α)} (hStep : step.Viable M) (hDone : 1 ≤ K)
    (hMore : M * K ≤ K) (limit : Nat) : (collectWithin step limit).Viable K := by
  have : Completable K := Completable.one.mono hDone
  induction limit with
  | zero => exact viable_fail (by simp)
  | succ limit ih =>
    refine (hStep.bind fun next => ?_).mono hMore
    cases next with
    | none => exact (viable_pure []).mono hDone
    | some value => exact ih.map

theorem viable_collect {step : Parser (Option α)} (hStep : step.Viable M) (hDone : 1 ≤ K)
    (hMore : M * K ≤ K) : (collect step).Viable K :=
  fun stream hClosed => viable_collectWithin hStep hDone hMore _ stream hClosed

/-- A collection whose first step is known more closely. -/
theorem ViableAt.collect {step : Parser (Option α)} (hFirst : step.ViableAt stream L)
    (hClosed : stream.Closed) (hStep : step.Viable M) (hDone : 1 ≤ K) (hMore : M * K ≤ K) :
    (collect step).ViableAt stream (L * K) := by
  have : Completable K := Completable.one.mono hDone
  refine hFirst.then hClosed fun next => ?_
  cases next with
  | none => exact (viable_pure []).mono hDone
  | some value => exact (viable_collectWithin hStep hDone hMore _).map

end Parser

/-! ## Parts without a tree inside -/

/-- The glyphs that are in a relation in front of all that may follow. -/
def spans {β : Type} (R : β → List Glyph → List Glyph → Prop) (ends : TokenKind → Prop) :
    Language Glyph :=
  {xs | ∃ value, ∀ r, ends (front r) → R value (xs ++ r) r}

theorem one_le_spans {β : Type} {R : β → List Glyph → List Glyph → Prop} {ends : TokenKind → Prop}
    {value : β} (hNone : ∀ r, ends (front r) → R value r r) : 1 ≤ spans R ends := by
  rintro _ rfl
  exact ⟨value, hNone⟩

/-- An identifier. -/
def identifiers : Language Glyph := {xs | ∃ name quote text, xs = [⟨.identifier name quote, text⟩]}

instance : Completable identifiers := by
  refine Completable.mono (L := oneOf (.identifier "a" (some Token.backtick))) inferInstance ?_
  rintro _ ⟨text, rfl⟩
  exact ⟨_, _, text, rfl⟩

theorem viable_expectIdentifier : expectIdentifier.Viable identifiers := by
  intro stream hClosed
  refine viableAt_current_bind fun token hToken => ?_
  split
  · next name quote hKind =>
    have hFront : front stream.glyphs = .identifier name quote := by
      rw [← hClosed.kind_current, ← hToken, hKind]
    refine (viableAt_take hFront (by simp)).mono ?_
    rintro _ ⟨text, rfl⟩
    exact ⟨name, quote, text, rfl⟩
  · exact viable_unexpected _ stream hClosed

/-- The glyphs of an alias, whatever it is given to, or nothing. -/
def aliases : Language Glyph :=
  {xs | ∀ node, ∃ aliased, ∀ r, (front r).opensAlias = false → Aliased node aliased (xs ++ r) r}

theorem one_le_aliases : 1 ≤ aliases := by
  rintro _ rfl node
  refine ⟨node, fun r hr => ?_⟩
  simp only [TokenKind.opensAlias, Bool.or_eq_false_iff, beq_eq_false_iff_ne] at hr
  exact .absent hr.2 hr.1

instance : Completable aliases := Completable.one.mono one_le_aliases

theorem identifiers_le_aliases : identifiers ≤ aliases := by
  rintro _ ⟨name, quote, text, rfl⟩ node
  exact ⟨node.withAlias name, fun r _ => .bare⟩

theorem viable_applyAlias (node : Node) : (applyAlias node).Viable aliases := by
  have hOptional : optionalAlias.Viable aliases := by
    intro stream hClosed
    refine (viableAt_eatIf_bind (tests_checkKeyword .AS hClosed) (by simp)
      (fun _ => viable_expectIdentifier.map.viableAt hClosed.advance) (M := aliases) fun _ =>
        viableAt_current_bind fun token _ => ?_).mono (add_le ?_ le_rfl)
    · split
      · exact (viable_expectIdentifier.map.mono identifiers_le_aliases).viableAt hClosed
      · exact ((viable_pure none).mono one_le_aliases).viableAt hClosed
    · rintro _ ⟨_, ⟨text, rfl⟩, _, ⟨name, quote, text', rfl⟩, rfl⟩ node
      exact ⟨node.withAlias name, fun r _ => .introduced⟩
  refine (hOptional.bind fun aliasName => ?_).mono (mul_one aliases).le
  cases aliasName with
  | some aliasName => exact viable_pure _
  | none => exact viable_pure node

/-- Neither of two keywords. -/
def Neither (word other : Keyword) (kind : TokenKind) : Prop :=
  kind ≠ .keyword word ∧ kind ≠ .keyword other

/-- One keyword, another one or neither. -/
def choices (word other : Keyword) : Language Glyph :=
  oneOf (.keyword word) * 1 + (oneOf (.keyword other) * 1 + 1)

instance {word other : Keyword} : Completable (choices word other) :=
  inferInstanceAs (Completable (oneOf _ * 1 + (oneOf _ * 1 + 1)))

theorem choices_le {β : Type} {R : β → List Glyph → List Glyph → Prop} {word other : Keyword}
    {first second neither : β} (hFirst : ∀ text gs, R first (⟨.keyword word, text⟩ :: gs) gs)
    (hSecond : ∀ text gs, R second (⟨.keyword other, text⟩ :: gs) gs)
    (hNeither : ∀ gs, front gs ≠ .keyword word → front gs ≠ .keyword other → R neither gs gs) :
    choices word other ≤ spans R (Neither word other) := by
  refine add_le ?_ (add_le ?_ ?_)
  · rintro _ ⟨_, ⟨text, rfl⟩, _, rfl, rfl⟩
    exact ⟨first, fun _ _ => hFirst text _⟩
  · rintro _ ⟨_, ⟨text, rfl⟩, _, rfl, rfl⟩
    exact ⟨second, fun _ _ => hSecond text _⟩
  · exact one_le_spans fun r hr => hNeither r hr.1 hr.2

theorem directions_le : choices .ASC .DESC ≤ spans Directed (Neither .ASC .DESC) :=
  choices_le (fun _ _ => .ascending) (fun _ _ => .descending) fun _ => .unspecified

instance : Completable (spans Directed (Neither .ASC .DESC)) := .mono inferInstance directions_le

theorem viable_direction : Grammar.direction.Viable (spans Directed (Neither .ASC .DESC)) :=
  Viable.mono (viable_eatKeyword_bind (viable_pure _)
    (viable_eatKeyword_bind (viable_pure _) (viable_pure _))) directions_le

theorem placements_le :
    choices .NULLS_FIRST .NULLS_LAST ≤ spans Placed (Neither .NULLS_FIRST .NULLS_LAST) :=
  choices_le (fun _ _ => .first) (fun _ _ => .last) fun _ => .unspecified

instance : Completable (spans Placed (Neither .NULLS_FIRST .NULLS_LAST)) :=
  .mono inferInstance placements_le

theorem viable_nullPlacement :
    Grammar.nullPlacement.Viable (spans Placed (Neither .NULLS_FIRST .NULLS_LAST)) :=
  Viable.mono (viable_eatKeyword_bind (viable_pure _)
    (viable_eatKeyword_bind (viable_pure _) (viable_pure _))) placements_le

theorem distinctness_le : choices .DISTINCT .ALL ≤ spans Distinctness (Neither .DISTINCT .ALL) :=
  choices_le (fun _ _ => .distinct) (fun _ _ => .all) fun _ => .neither

instance : Completable (spans Distinctness (Neither .DISTINCT .ALL)) :=
  .mono inferInstance distinctness_le

theorem viable_distinctness :
    Grammar.distinctness.Viable (spans Distinctness (Neither .DISTINCT .ALL)) :=
  Viable.mono (viable_eatKeyword_bind (viable_pure _)
    (viable_eatKeyword_bind (viable_pure _) (viable_pure _))) distinctness_le

instance : Completable (spans TypeWord fun _ => True) := by
  refine Completable.mono (L := oneOf (.identifier "a" (some Token.backtick))) inferInstance ?_
  rintro _ ⟨text, rfl⟩
  exact ⟨_, fun _ _ => .quoted⟩

theorem viable_typeWord : Production.typeWord.Viable (spans TypeWord fun _ => True) := by
  intro stream hClosed
  refine viableAt_current_bind fun token hToken => ?_
  have hFront : front stream.glyphs = token.kind := by rw [hToken, hClosed.kind_current]
  split
  · next value quote hKind =>
    refine (viableAt_take (hFront.trans hKind) (by simp)).mono ?_
    rintro _ ⟨text, rfl⟩
    exact ⟨_, fun _ _ => .quoted⟩
  · next value hKind =>
    refine (viableAt_take (hFront.trans hKind) (by simp)).mono ?_
    rintro _ ⟨text, rfl⟩
    exact ⟨_, fun _ _ => .bare⟩
  · exact viable_unexpected _ stream hClosed

/-- A further word of a type's name. -/
def typeWords : Language Glyph := {xs | ∃ value text, xs = [⟨.identifier value none, text⟩]}

/-- What ends the words of a type's name. -/
def TokenKind.EndsTypeWords (kind : TokenKind) : Prop := ∀ value, kind ≠ .identifier value none

theorem one_le_typeWords : 1 ≤ spans TypeWords TokenKind.EndsTypeWords :=
  one_le_spans fun _ => .done

instance : Completable (spans TypeWords TokenKind.EndsTypeWords) :=
  Completable.one.mono one_le_typeWords

theorem viable_furtherTypeWords :
    (collect Production.furtherTypeWord).Viable (spans TypeWords TokenKind.EndsTypeWords) := by
  have hStep : Production.furtherTypeWord.Viable (typeWords + 1) := by
    intro stream hClosed
    refine viableAt_current_bind fun token hToken => ?_
    split
    · next value hKind =>
      have hFront : front stream.glyphs = .identifier value none := by
        rw [← hClosed.kind_current, ← hToken, hKind]
      refine (viableAt_take hFront (by simp)).mono ?_
      rintro _ ⟨text, rfl⟩
      exact Or.inl ⟨value, text, rfl⟩
    · exact ((viable_pure none).viableAt hClosed).mono le_add_self
  refine viable_collect hStep one_le_typeWords ?_
  rw [add_mul, one_mul]
  refine add_le ?_ le_rfl
  rintro _ ⟨_, ⟨value, text, rfl⟩, xs, ⟨words, hWords⟩, rfl⟩
  exact ⟨value :: words, fun r hr => .more (hWords r hr)⟩

/-- A size of a type. -/
def sizes : Language Glyph := {xs | ∃ value text, xs = [⟨.integer value, text⟩]}

instance : Completable sizes := by
  refine Completable.mono (L := oneOf (.integer 1)) inferInstance ?_
  rintro _ ⟨text, rfl⟩
  exact ⟨_, text, rfl⟩

theorem viable_typeSize : Production.typeSize.Viable sizes := by
  intro stream hClosed
  refine viableAt_current_bind fun token hToken => ?_
  split
  · next value hKind =>
    have hFront : front stream.glyphs = .integer value := by
      rw [← hClosed.kind_current, ← hToken, hKind]
    refine (viableAt_take hFront (by simp)).mono ?_
    rintro _ ⟨text, rfl⟩
    exact ⟨value, text, rfl⟩
  · exact viable_unexpected _ stream hClosed

theorem one_le_typeSizes : 1 ≤ spans TypeSizes (· ≠ .comma) :=
  one_le_spans fun _ => .done

instance : Completable (spans TypeSizes (· ≠ .comma)) := Completable.one.mono one_le_typeSizes

theorem viable_furtherTypeSizes :
    (furtherItems Production.typeSize).Viable (spans TypeSizes (· ≠ .comma)) := by
  refine viable_collect (viable_eat_bind (by decide) (by simp) viable_typeSize.map
    (viable_pure none)) one_le_typeSizes ?_
  rw [add_mul, one_mul, mul_assoc]
  refine add_le ?_ le_rfl
  rintro _ ⟨_, ⟨text, rfl⟩, _, ⟨_, ⟨value, text', rfl⟩, xs, ⟨further, hSizes⟩, rfl⟩, rfl⟩
  exact ⟨_, fun r hr => .more (hSizes r hr)⟩

theorem typeName_le :
    (spans TypeWord fun _ => True) * (spans TypeWords TokenKind.EndsTypeWords *
      (oneOf .leftParen * (sizes * spans TypeSizes (· ≠ .comma) * oneOf .rightParen) + 1)) ≤
      spans TypeName (· = .rightParen) := by
  rintro _ ⟨xs, ⟨word, hWord⟩, _, ⟨ys, ⟨words, hWords⟩, _, hRest, rfl⟩, rfl⟩
  rcases hRest with ⟨_, ⟨text, rfl⟩, _, ⟨_, ⟨_, ⟨value, text', rfl⟩, zs, ⟨further, hFurther⟩, rfl⟩,
    _, ⟨text'', rfl⟩, rfl⟩, rfl⟩ | rfl
  · refine ⟨" ".intercalate (word :: words) ++ "(" ++
      ", ".intercalate (toString value.toInt :: further) ++ ")", fun r _ => ?_⟩
    have hSizes := hFurther (⟨.rightParen, text''⟩ :: r) (by simp)
    have hWords := hWords (⟨.leftParen, text⟩ :: ⟨.integer value, text'⟩ ::
      (zs ++ ⟨.rightParen, text''⟩ :: r)) (by simp [TokenKind.EndsTypeWords])
    simpa using TypeName.sized (hWord _ trivial) hWords hSizes
  · refine ⟨" ".intercalate (word :: words), fun r hr => ?_⟩
    have hWords := hWords r (by simp [hr, TokenKind.EndsTypeWords])
    simpa using TypeName.plain (hWord _ trivial) hWords (by simp [hr])

instance : Completable (spans TypeName (· = .rightParen)) := .mono inferInstance typeName_le

theorem viable_typeName : Production.typeName.Viable (spans TypeName (· = .rightParen)) := by
  have hSizes : (commaSeparated Production.typeSize).Viable
      (sizes * spans TypeSizes (· ≠ .comma)) :=
    viable_typeSize.bind fun _ => viable_furtherTypeSizes.map
  refine Viable.mono (viable_typeWord.bind fun first => viable_furtherTypeWords.bind fun further =>
    viable_eat_bind (by decide) (by simp)
      (hSizes.bind fun sizes => viable_expectRightParen.map) (viable_pure _)) typeName_le

end SqlQuery
