import SqlQuery.Proofs.Derivation

/-!
# Parsers derive

Whatever a parser of a dialect succeeds with has a derivation from the glyphs
it consumed.

A stream is *closed* if its last token is the end of the input; all streams
that the lexer yields are.  Each parser gets one lemma: if it succeeds on a
closed stream, then what it gives is derivable between the glyphs ahead before
and after, and the last token is still the same.  The parsers of the level
below enter these lemmas through one hypothesis, `Subparsers.Sound`, and the
main result is an induction over the levels.

## Main results

* `Grammar.subparsers_sound` — the parsers of every level derive.
* `Grammar.derives_of_statement` — a parsed statement has a derivation.
-/

namespace SqlQuery

open Glyph (front)
open SqlQuery.Parser

/-! ## Closed streams -/

/-- A stream that ends with the end of the input. -/
def TokenStream.Closed (stream : TokenStream) : Prop := stream.last.kind = .finish

namespace TokenStream

variable {stream : TokenStream}

@[simp] theorem last_advance (stream : TokenStream) : stream.advance.last = stream.last := rfl

@[simp] theorem glyphs_advance (stream : TokenStream) :
    stream.advance.glyphs = stream.glyphs.tail := by
  simp [advance, glyphs]

theorem Closed.advance (hClosed : stream.Closed) : stream.advance.Closed := hClosed

theorem Closed.kind_current (hClosed : stream.Closed) :
    stream.current.kind = front stream.glyphs := by
  obtain ⟨ahead, last⟩ := stream
  cases ahead with
  | nil => exact hClosed
  | cons token rest => rfl

theorem Closed.peek_one (hClosed : stream.Closed) :
    stream.peek 1 = front stream.glyphs.tail := by
  obtain ⟨ahead, last⟩ := stream
  match ahead with
  | [] => exact hClosed
  | [_] => exact hClosed
  | _ :: _ :: _ => rfl

/-- A stream whose first kind is not the end has a first glyph. -/
theorem glyphs_eq_cons {kind : TokenKind} (hFront : front stream.glyphs = kind)
    (hKind : kind ≠ .finish) :
    stream.glyphs = ⟨kind, stream.current.lexeme⟩ :: stream.advance.glyphs := by
  obtain ⟨ahead, last⟩ := stream
  cases ahead with
  | nil => exact absurd hFront.symm hKind
  | cons token rest => subst hFront; rfl

end TokenStream

/-! ## Kinds without a value -/

namespace TokenKind

/-- Among the kinds that carry no value, having the same form is equality. -/
theorem sameForm_iff_of_mem_plain {kind other : TokenKind} (hMem : other ∈ plain) :
    kind.sameForm other = true ↔ kind = other := by
  simp only [plain, List.mem_cons, List.not_mem_nil, or_false] at hMem
  rcases hMem with rfl | rfl | rfl | rfl | rfl | rfl | rfl | rfl | rfl | rfl | rfl | rfl | rfl |
    rfl | rfl | rfl | rfl | rfl <;> cases kind <;> simp [sameForm, TokenKind.ctorIdx]

end TokenKind

theorem Token.keyword?_eq_some_iff {token : Token} {word : Keyword} :
    token.keyword? = some word ↔ token.kind = .keyword word := by
  obtain ⟨kind, span, lexeme⟩ := token
  cases kind <;> simp [Token.keyword?]

/-! ## Sound parsers -/

namespace Parser

variable {α β : Type}

/-- Whenever the parser succeeds on a closed stream, it keeps the last token,
and its value and the glyphs before and after are in the given relation. -/
def Sound (p : Parser α) (relation : α → List Glyph → List Glyph → Prop) : Prop :=
  ∀ ⦃stream rest : TokenStream⦄ ⦃value : α⦄, stream.Closed → p stream = .ok value rest →
    rest.last = stream.last ∧ relation value stream.glyphs rest.glyphs

variable {p : Parser α} {R S : α → List Glyph → List Glyph → Prop}

theorem Sound.imp (hSound : Sound p R) (hImp : ∀ value gs hs, R value gs hs → S value gs hs) :
    Sound p S := by
  intro stream rest value hClosed hRun
  obtain ⟨hLast, hRel⟩ := hSound hClosed hRun
  exact ⟨hLast, hImp _ _ _ hRel⟩

theorem sound_pure (value : α) :
    Sound (pure value) fun value' gs hs => value' = value ∧ hs = gs := by
  intro stream rest value' _ hRun
  cases hRun
  exact ⟨rfl, rfl, rfl⟩

theorem sound_bind {q : α → Parser β} {T : α → β → List Glyph → List Glyph → Prop}
    (hFirst : Sound p R) (hNext : ∀ value, Sound (q value) (T value)) :
    Sound (p >>= q) fun value gs is => ∃ first hs, R first gs hs ∧ T first value hs is := by
  intro stream rest value hClosed hRun
  rw [bind_apply] at hRun
  cases hp : p stream with
  | ok first middle =>
    rw [hp] at hRun
    obtain ⟨hLast, hRel⟩ := hFirst hClosed hp
    have hMiddle : middle.Closed := by rw [TokenStream.Closed, hLast]; exact hClosed
    obtain ⟨hLast', hRel'⟩ := hNext first hMiddle hRun
    exact ⟨hLast'.trans hLast, first, middle.glyphs, hRel, hRel'⟩
  | fail error middle =>
    rw [hp] at hRun
    cases hRun

/-- A parser that never succeeds is sound for every relation. -/
theorem sound_fail (error : ParseError) : Sound (fail error : Parser α) R := by
  intro stream rest value _ hRun
  cases hRun

theorem sound_unexpected (expected : String) : Sound (unexpected expected : Parser α) R := by
  intro stream rest value _ hRun
  cases hRun

theorem sound_ofStructural (result : Except StructuralError α) :
    Sound (ofStructural result) fun value gs hs => result = .ok value ∧ hs = gs := by
  cases result with
  | ok value =>
    exact (sound_pure value).imp fun value' gs hs h => ⟨congrArg Except.ok h.1.symm, h.2⟩
  | error e => exact sound_fail _

theorem sound_ite {condition : Bool} {q : Parser α} (hThen : Sound p R) (hElse : Sound q S) :
    Sound (if condition then p else q) fun value gs hs =>
      (condition = true ∧ R value gs hs) ∨ (condition = false ∧ S value gs hs) := by
  cases condition with
  | true => simpa using hThen
  | false => simpa using hElse

/-! ### Looking at and consuming tokens -/

theorem sound_current :
    Sound current fun token gs hs => token.kind = front gs ∧ hs = gs := by
  intro stream rest value hClosed hRun
  cases hRun
  exact ⟨rfl, hClosed.kind_current, rfl⟩

theorem sound_peek_one : Sound (peek 1) fun kind gs hs => kind = front gs.tail ∧ hs = gs := by
  intro stream rest value hClosed hRun
  cases hRun
  exact ⟨rfl, hClosed.peek_one, rfl⟩

theorem sound_advance :
    Sound advance fun token gs hs =>
      token.kind = front gs ∧ hs = gs.tail ∧ (gs ≠ [] → gs = token.glyph :: hs) := by
  intro stream rest value hClosed hRun
  cases hRun
  refine ⟨rfl, hClosed.kind_current, TokenStream.glyphs_advance stream, fun hNe => ?_⟩
  obtain ⟨ahead, last⟩ := stream
  cases ahead with
  | nil => exact absurd rfl hNe
  | cons token ahead => rfl

theorem sound_check {kind : TokenKind} (hPlain : kind ∈ TokenKind.plain) :
    Sound (check kind) fun found gs hs => (found = true ↔ front gs = kind) ∧ hs = gs := by
  refine (sound_bind sound_current fun _ => sound_pure _).imp ?_
  rintro found gs hs ⟨token, is, ⟨hKind, rfl⟩, rfl, rfl⟩
  rw [hKind, TokenKind.sameForm_iff_of_mem_plain hPlain]
  exact ⟨Iff.rfl, rfl⟩

theorem sound_checkKeyword (word : Keyword) :
    Sound (checkKeyword word) fun found gs hs =>
      (found = true ↔ front gs = .keyword word) ∧ hs = gs := by
  refine (sound_bind sound_current fun _ => sound_pure _).imp ?_
  rintro found gs hs ⟨token, is, ⟨hKind, rfl⟩, rfl, rfl⟩
  rw [beq_iff_eq, Token.keyword?_eq_some_iff, hKind]
  exact ⟨Iff.rfl, rfl⟩

/-- Consumption by a test: the token at the front is gone exactly if it passed. -/
theorem sound_eatIf {test : Parser Bool} {kind : TokenKind} (hKind : kind ≠ .finish)
    (hTest : Sound test fun found gs hs => (found = true ↔ front gs = kind) ∧ hs = gs) :
    Sound (eatIf test) fun found gs hs =>
      (found = true ∧ ∃ text, gs = ⟨kind, text⟩ :: hs) ∨
        (found = false ∧ front gs ≠ kind ∧ hs = gs) := by
  refine (sound_bind hTest fun _ => sound_ite
    (sound_bind sound_advance fun _ => sound_pure true) (sound_pure false)).imp ?_
  rintro found gs hs ⟨passed, is, ⟨hPassed, rfl⟩,
    ⟨rfl, token, js, ⟨-, rfl, -⟩, rfl, rfl⟩ | ⟨rfl, rfl, rfl⟩⟩
  · exact Or.inl ⟨rfl, Glyph.eq_cons_of_front (hPassed.1 rfl) hKind⟩
  · exact Or.inr ⟨rfl, fun h => by simpa using hPassed.2 h, rfl⟩

theorem sound_eat {kind : TokenKind} (hPlain : kind ∈ TokenKind.plain) (hKind : kind ≠ .finish) :
    Sound (eat kind) fun found gs hs =>
      (found = true ∧ ∃ text, gs = ⟨kind, text⟩ :: hs) ∨
        (found = false ∧ front gs ≠ kind ∧ hs = gs) :=
  sound_eatIf hKind (sound_check hPlain)

theorem sound_eatKeyword (word : Keyword) :
    Sound (eatKeyword word) fun found gs hs => OptionalWord word found gs hs := by
  refine (sound_eatIf (by simp) (sound_checkKeyword word)).imp ?_
  rintro found gs hs (⟨rfl, text, rfl⟩ | ⟨rfl, hFront, rfl⟩)
  · exact .present
  · exact .absent hFront

theorem sound_expect {kind : TokenKind} (hPlain : kind ∈ TokenKind.plain)
    (hKind : kind ≠ .finish) :
    Sound (expect kind) fun _ gs hs => ∃ text, gs = ⟨kind, text⟩ :: hs := by
  refine (sound_bind (sound_check hPlain) fun _ => sound_ite sound_advance
    (sound_unexpected _ (R := fun _ _ _ => False))).imp ?_
  rintro token gs hs ⟨passed, is, ⟨hPassed, rfl⟩, ⟨rfl, -, rfl, -⟩ | ⟨-, ⟨⟩⟩⟩
  exact Glyph.eq_cons_of_front (hPassed.1 rfl) hKind

theorem sound_expectLeftParen :
    Sound (expect .leftParen) fun _ gs hs => ∃ text, gs = ⟨.leftParen, text⟩ :: hs :=
  sound_expect (by decide) (by simp)

theorem sound_expectRightParen :
    Sound (expect .rightParen) fun _ gs hs => ∃ text, gs = ⟨.rightParen, text⟩ :: hs :=
  sound_expect (by decide) (by simp)

theorem sound_expectKeyword (word : Keyword) :
    Sound (expectKeyword word) fun _ gs hs => ∃ text, gs = ⟨.keyword word, text⟩ :: hs := by
  refine (sound_bind (sound_checkKeyword word) fun _ => sound_ite sound_advance
    (sound_unexpected _ (R := fun _ _ _ => False))).imp ?_
  rintro token gs hs ⟨passed, is, ⟨hPassed, rfl⟩, ⟨rfl, -, rfl, -⟩ | ⟨-, ⟨⟩⟩⟩
  exact Glyph.eq_cons_of_front (hPassed.1 rfl) (by simp)

/-- A parser that begins with a look at the token at the front. -/
theorem sound_current_bind {q : Token → Parser α}
    (hNext : ∀ token : Token, Sound (q token) fun value gs hs =>
      token.kind = front gs → R value gs hs) :
    Sound (current >>= q) R := by
  refine (sound_bind sound_current hNext).imp ?_
  rintro value gs hs ⟨token, is, ⟨hKind, rfl⟩, hRel⟩
  exact hRel hKind

/-- A token of a known kind, consumed for a value after a look at it. -/
theorem sound_taken {token : Token} {kind : TokenKind} {value : α} (hKind : token.kind = kind)
    (hNe : kind ≠ .finish) (hValue : ∀ text hs, R value (⟨kind, text⟩ :: hs) hs) :
    Sound (do let _ ← advance; return value) fun value' gs hs =>
      token.kind = front gs → R value' gs hs := by
  refine (sound_bind sound_advance fun _ => sound_pure value).imp ?_
  rintro value' gs hs ⟨_, is, ⟨-, rfl, -⟩, rfl, rfl⟩ hFront
  obtain ⟨text, hCons⟩ := Glyph.eq_cons_of_front (hFront.symm.trans hKind) hNe
  rw [hCons]
  exact hValue text _

theorem sound_expectIdentifier :
    Sound expectIdentifier fun name gs hs =>
      ∃ quote text, gs = ⟨.identifier name quote, text⟩ :: hs := by
  refine sound_current_bind fun token => ?_
  split
  · next value quote hKind =>
    exact sound_taken hKind (by simp) fun text _ => ⟨quote, text, rfl⟩
  · exact sound_unexpected _

/-- A parser that begins by consuming the token at the front, where it fails at
the end. -/
theorem sound_advance_bind {q : Token → Parser α}
    (hNext : ∀ token : Token, Sound (q token) fun value hs is =>
      token.kind ≠ .finish → R value (token.glyph :: hs) is)
    (hEnd : ∀ token : Token, token.kind = .finish → Sound (q token) fun _ _ _ => False) :
    Sound (advance >>= q) R := by
  intro stream rest value hClosed hRun
  rw [bind_apply] at hRun
  by_cases hKind : stream.current.kind = .finish
  · exact (hEnd _ hKind hClosed.advance hRun).2.elim
  · obtain ⟨hLast, hRel⟩ := hNext _ hClosed.advance hRun
    have hCons := TokenStream.glyphs_eq_cons hClosed.kind_current.symm hKind
    rw [hCons]
    exact ⟨hLast, hRel hKind⟩

/-! ### Repetition -/

/-- A relation that holds where the step gives nothing, and passes back over
every step, holds of the whole repetition. -/
theorem sound_iterate {step : α → Parser (Option α)}
    {T : α → Option α → List Glyph → List Glyph → Prop}
    {W : α → α → List Glyph → List Glyph → Prop}
    (hStep : ∀ value, Sound (step value) (T value))
    (hDone : ∀ value gs hs, T value none gs hs → W value value gs hs)
    (hMore : ∀ value next final gs hs is,
      T value (some next) gs hs → W next final hs is → W value final gs is)
    (value : α) : Sound (iterate step value) (W value) := by
  have hWithin : ∀ limit value, Sound (iterateWithin step limit value) (W value) := by
    intro limit
    induction limit with
    | zero => exact fun value => sound_fail _
    | succ limit ih =>
      intro value
      refine (sound_bind (hStep value) (T := fun next final hs is =>
        (∃ further, next = some further ∧ W further final hs is) ∨
          (next = none ∧ final = value ∧ is = hs)) fun next => ?_).imp ?_
      · cases next with
        | none => exact (sound_pure value).imp fun _ _ _ h => Or.inr ⟨rfl, h⟩
        | some further => exact (ih further).imp fun _ _ _ h => Or.inl ⟨further, rfl, h⟩
      · rintro final gs is ⟨next, hs, hRel, ⟨further, rfl, hRest⟩ | ⟨rfl, rfl, rfl⟩⟩
        · exact hMore _ _ _ _ _ _ hRel hRest
        · exact hDone _ _ _ hRel
  exact fun stream rest final hClosed hRun => hWithin _ value hClosed hRun

/-- As `sound_iterate`, for the values that a step gives one after another. -/
theorem sound_collect {step : Parser (Option α)}
    {T : Option α → List Glyph → List Glyph → Prop}
    {W : List α → List Glyph → List Glyph → Prop}
    (hStep : Sound step T)
    (hDone : ∀ gs hs, T none gs hs → W [] gs hs)
    (hMore : ∀ value values gs hs is,
      T (some value) gs hs → W values hs is → W (value :: values) gs is) :
    Sound (collect step) W := by
  have hWithin : ∀ limit, Sound (collectWithin step limit) W := by
    intro limit
    induction limit with
    | zero => exact sound_fail _
    | succ limit ih =>
      refine (sound_bind hStep (T := fun next values hs is =>
        (∃ value further, next = some value ∧ values = value :: further ∧ W further hs is) ∨
          (next = none ∧ values = [] ∧ is = hs)) fun next => ?_).imp ?_
      · cases next with
        | none => exact (sound_pure []).imp fun _ _ _ h => Or.inr ⟨rfl, h⟩
        | some value =>
          refine (sound_bind ih fun further => sound_pure (value :: further)).imp ?_
          rintro values gs hs ⟨further, is, hRest, rfl, rfl⟩
          exact Or.inl ⟨value, further, rfl, rfl, hRest⟩
      · rintro values gs is ⟨next, hs, hRel, ⟨value, further, rfl, rfl, hRest⟩ | ⟨rfl, rfl, rfl⟩⟩
        · exact hMore _ _ _ _ _ hRel hRest
        · exact hDone _ _ hRel
  exact fun stream rest values hClosed hRun => hWithin _ hClosed hRun

/-! ### Aliases -/

theorem sound_applyAlias (node : Node) : Sound (applyAlias node) (Aliased node) := by
  have hOptional : Sound optionalAlias fun aliasName gs hs =>
      Aliased node (aliasName.elim node node.withAlias) gs hs := by
    refine (sound_bind (sound_eatKeyword .AS) fun _ => sound_ite
      (sound_bind sound_expectIdentifier fun name => sound_pure (some name))
      (sound_bind sound_current fun token => sound_ite
        (sound_bind sound_expectIdentifier fun name => sound_pure (some name))
        (sound_pure none))).imp ?_
    rintro aliasName gs hs ⟨found, is, hFound, ⟨rfl, name, js, ⟨quote, text, rfl⟩, rfl, rfl⟩ |
      ⟨rfl, token, js, ⟨hKind, rfl⟩, ⟨-, name, ks, ⟨quote, text, rfl⟩, rfl, rfl⟩ |
        ⟨hName, rfl, rfl⟩⟩⟩
    · cases hFound
      exact .introduced
    · cases hFound
      exact .bare
    · cases hFound with
      | absent hFront => exact .absent hFront (hKind ▸ hName)
  refine (sound_bind hOptional fun aliasName => ?_ :
    Sound _ fun aliased gs is => ∃ (aliasName : Option String) (hs : List Glyph),
      Aliased node (aliasName.elim node node.withAlias) gs hs ∧
        aliased = aliasName.elim node node.withAlias ∧ is = hs).imp ?_
  · cases aliasName <;> exact sound_pure _
  · rintro aliased gs is ⟨aliasName, hs, hAlias, rfl, rfl⟩
    exact hAlias

end Parser

/-! ## Sound parsers of the level below -/

/-- The parsers of the level below derive. -/
structure Subparsers.Sound (dialect : Dialect) (inner : Subparsers) : Prop where
  expression : ∀ least, Parser.Sound (inner.expression least) fun node =>
    Derives dialect (.expression least node)
  select : Parser.Sound inner.select fun node => Derives dialect (.select node)
  source : Parser.Sound inner.source fun node => Derives dialect (.source node)

/-! ## Lists -/

section Lists

variable {dialect : Dialect} {sort : ItemSort} {item : Parser Node}

theorem sound_furtherItems (hItem : Sound item fun node => Derives dialect (.item sort node)) :
    Sound (furtherItems item) fun nodes => Derives dialect (.furtherItems sort nodes) := by
  refine sound_collect
    (sound_bind (sound_eat (show .comma ∈ TokenKind.plain by decide) (by simp)) fun _ =>
    sound_ite (sound_bind hItem fun node => sound_pure (some node)) (sound_pure none)) ?_ ?_
  · rintro gs hs ⟨found, is, hFound, ⟨-, node, js, -, hNone, -⟩ | ⟨rfl, -, rfl⟩⟩
    · cases hNone
    · rcases hFound with ⟨hTrue, -⟩ | ⟨-, hFront, rfl⟩
      · cases hTrue
      · exact .furtherDone hFront
  · rintro node nodes gs hs is ⟨found, js, hFound, ⟨rfl, node', ks, hNode, hSome, rfl⟩ |
      ⟨-, hNone, -⟩⟩ hRest
    · cases hSome
      rcases hFound with ⟨-, text, rfl⟩ | ⟨hFalse, -⟩
      · exact .furtherMore hNode hRest
      · cases hFalse
    · cases hNone

theorem sound_commaSeparated (hItem : Sound item fun node => Derives dialect (.item sort node)) :
    Sound (commaSeparated item) fun nodes => Derives dialect (.items sort nodes) := by
  refine (sound_bind hItem fun first => sound_bind (sound_furtherItems hItem) fun further =>
    sound_pure (first :: further)).imp ?_
  rintro nodes gs hs ⟨first, is, hFirst, further, js, hFurther, rfl, rfl⟩
  exact .items hFirst hFurther

end Lists

variable {dialect : Dialect} {inner : Subparsers}

theorem Subparsers.Sound.item (hInner : inner.Sound dialect) :
    Parser.Sound (inner.expression 0) fun node => Derives dialect (.item .expression node) :=
  (hInner.expression 0).imp fun _ _ _ => .expressionItem

theorem sound_arguments (hInner : inner.Sound dialect) :
    Sound (Production.arguments inner) fun items => Derives dialect (.arguments items) := by
  have hClose : ∀ items : List Node, Sound (do let _ ← expect .rightParen; return items)
      fun items' gs hs => items' = items ∧ ∃ text, gs = ⟨.rightParen, text⟩ :: hs := by
    intro items
    refine (sound_bind sound_expectRightParen fun _ => sound_pure items).imp ?_
    rintro items' gs hs ⟨token, is, hClose, rfl, rfl⟩
    exact ⟨rfl, hClose⟩
  refine (sound_bind (sound_check (show .rightParen ∈ TokenKind.plain by decide)) fun _ =>
    sound_ite (sound_bind (sound_pure []) hClose)
      (sound_bind (sound_commaSeparated hInner.item) hClose)).imp ?_
  rintro items gs hs ⟨found, is, ⟨hFound, rfl⟩, ⟨rfl, nodes, js, ⟨rfl, rfl⟩, rfl, text, rfl⟩ |
    ⟨rfl, nodes, js, hItems, rfl, text, rfl⟩⟩
  · exact .argumentsNone
  · exact .argumentsSome (fun h => by simpa using hFound.2 h) hItems

/-! ## Productions -/

/-- A token that is an operand on its own, consumed after a look at it. -/
private theorem sound_atom {token : Token} {node : Node}
    (hAtom : dialect.atom? token.kind = some node) :
    Sound (do let _ ← advance; return node) fun node' gs hs =>
      token.kind = front gs → Derives dialect (.operand node') gs hs := by
  have hKind : token.kind ≠ .finish := by
    intro hFinish
    rw [hFinish] at hAtom
    cases hAtom
  exact sound_taken rfl hKind fun _ _ => .atom hAtom

theorem sound_literal :
    Sound (Production.literal.reduce inner) fun node => Derives dialect (.operand node) := by
  refine sound_current_bind fun token => ?_
  split
  · next value hKind => exact sound_atom (by rw [hKind]; rfl)
  · next value hKind => exact sound_atom (by rw [hKind]; rfl)
  · next value hKind => exact sound_atom (by rw [hKind]; rfl)
  · exact sound_unexpected _

theorem sound_keywordLiteral :
    Sound (Production.keywordLiteral.reduce inner) fun node =>
      Derives dialect (.operand node) := by
  refine sound_current_bind fun token => ?_
  split
  · next hWord => exact sound_atom (by rw [Token.keyword?_eq_some_iff.1 hWord]; rfl)
  · next hWord => exact sound_atom (by rw [Token.keyword?_eq_some_iff.1 hWord]; rfl)
  · next hWord => exact sound_atom (by rw [Token.keyword?_eq_some_iff.1 hWord]; rfl)
  · exact sound_unexpected _

/-- A mark that is an operand on its own. -/
private theorem sound_mark {kind : TokenKind} {node : Node} (hPlain : kind ∈ TokenKind.plain)
    (hKind : kind ≠ .finish) (hAtom : dialect.atom? kind = some node) :
    Sound (do let _ ← expect kind; return node) fun node' => Derives dialect (.operand node') := by
  refine (sound_bind (sound_expect hPlain hKind) fun _ => sound_pure node).imp ?_
  rintro node' gs hs ⟨token, is, ⟨text, rfl⟩, rfl, rfl⟩
  exact .atom hAtom

theorem sound_placeholder :
    Sound (Production.placeholder.reduce inner) fun node => Derives dialect (.operand node) :=
  sound_mark (by decide) (by simp) rfl

theorem sound_everything :
    Sound (Production.everything.reduce inner) fun node => Derives dialect (.operand node) :=
  sound_mark (by decide) (by simp) rfl

theorem sound_columnOrCall (hInner : inner.Sound dialect) :
    Sound (Production.columnOrCall.reduce inner) fun node =>
      Derives dialect (.operand node) := by
  refine sound_advance_bind (fun token => ?_) (fun token hKind => ?_)
  · split
    · next value quote hKind =>
      have hGlyph : token.glyph = ⟨.identifier value quote, token.lexeme⟩ := by
        rw [Token.glyph, hKind]
      cases quote with
      | some quote =>
        refine (sound_pure (Node.identifier value (some quote))).imp ?_
        rintro node gs hs ⟨rfl, rfl⟩ -
        rw [hGlyph]
        exact .atom rfl
      | none =>
        refine (sound_bind (sound_eat (by decide) (by simp)) fun _ => sound_ite
          (sound_bind (sound_eatKeyword .DISTINCT) fun distinct =>
            sound_bind (sound_arguments hInner) fun args =>
              sound_pure (Node.call value args distinct))
          (sound_pure (Node.identifier value none))).imp ?_
        rintro node gs hs ⟨found, is, hFound, ⟨rfl, distinct, js, hDistinct, args, ks, hArgs,
          rfl, rfl⟩ | ⟨rfl, rfl, rfl⟩⟩ - <;> rw [hGlyph]
        · rcases hFound with ⟨-, text, rfl⟩ | ⟨hFalse, -⟩
          · exact .call hDistinct hArgs
          · cases hFalse
        · rcases hFound with ⟨hTrue, -⟩ | ⟨-, hFront, rfl⟩
          · cases hTrue
          · exact .column hFront
    · exact sound_unexpected _
  · rw [hKind]
    exact sound_unexpected _

theorem sound_parenthesized (hInner : inner.Sound dialect) :
    Sound (Production.parenthesized.reduce inner) fun node =>
      Derives dialect (.operand node) := by
  have hItems : Sound (do
      let first ← inner.expression 0
      if ← check .comma then
        let further ← furtherItems (inner.expression 0)
        let _ ← expect .rightParen
        return Node.tuple (first :: further)
      else
        let _ ← expect .rightParen
        return first.withParentheses true) _ :=
    sound_bind (hInner.expression 0) fun first =>
      sound_bind (sound_check (show .comma ∈ TokenKind.plain by decide)) fun _ => sound_ite
        (sound_bind (sound_furtherItems hInner.item) fun further =>
          sound_bind sound_expectRightParen fun _ => sound_pure (Node.tuple (first :: further)))
        (sound_bind sound_expectRightParen fun _ => sound_pure (first.withParentheses true))
  refine (sound_bind sound_expectLeftParen fun _ => sound_bind (sound_checkKeyword .SELECT) fun _ =>
    sound_ite
      (sound_bind hInner.select fun query => sound_bind sound_expectRightParen fun _ =>
        sound_pure (query.withParentheses true)) hItems).imp ?_
  rintro node gs hs ⟨token, is, ⟨text, rfl⟩, found, js, ⟨hFound, rfl⟩,
    ⟨rfl, query, ks, hQuery, token', ls, ⟨text', rfl⟩, rfl, rfl⟩ |
    ⟨rfl, first, ks, hFirst, comma, ls, ⟨hComma, rfl⟩,
      ⟨rfl, further, ms, hFurther, token', ns, ⟨text', rfl⟩, rfl, rfl⟩ |
      ⟨rfl, token', ms, ⟨text', rfl⟩, rfl, rfl⟩⟩⟩
  · exact .subquery (hFound.1 rfl) hQuery
  · exact .tuple (fun h => by simpa using hFound.2 h) hFirst (hComma.1 rfl) hFurther
  · exact .grouped (fun h => by simpa using hFound.2 h) hFirst

/-! ### Names of types -/

theorem sound_typeWord : Sound Production.typeWord TypeWord := by
  refine sound_current_bind fun token => ?_
  split
  · next value quote hKind => exact sound_taken hKind (by simp) fun _ _ => .quoted
  · next value hKind => exact sound_taken hKind (by simp) fun _ _ => .bare
  · exact sound_unexpected _

theorem sound_furtherTypeWords : Sound (collect Production.furtherTypeWord) TypeWords := by
  have hStep : Sound Production.furtherTypeWord fun word gs hs =>
      (∃ value text, word = some value ∧ gs = ⟨.identifier value none, text⟩ :: hs) ∨
        (word = none ∧ hs = gs ∧ ∀ value, front gs ≠ .identifier value none) := by
    refine sound_current_bind fun token => ?_
    split
    · next value hKind =>
      exact sound_taken hKind (by simp) fun text _ => Or.inl ⟨value, text, rfl, rfl⟩
    · next hOther =>
      refine (sound_pure none).imp ?_
      rintro word gs hs ⟨rfl, rfl⟩ hFront
      exact Or.inr ⟨rfl, rfl, fun value hValue => hOther value (hFront.trans hValue)⟩
  refine sound_collect hStep ?_ ?_
  · rintro gs hs (⟨value, text, hSome, -⟩ | ⟨-, rfl, hFront⟩)
    · cases hSome
    · exact .done hFront
  · rintro word words gs hs is (⟨value, text, hSome, rfl⟩ | ⟨hNone, -⟩) hWords
    · cases hSome
      exact .more hWords
    · cases hNone

theorem sound_typeSize : Sound Production.typeSize fun size gs hs =>
    ∃ value text, size = toString (Int64.toInt value) ∧ gs = ⟨.integer value, text⟩ :: hs := by
  refine sound_current_bind fun token => ?_
  split
  · next value hKind =>
    exact sound_taken hKind (by simp) fun text _ => ⟨value, text, rfl, rfl⟩
  · exact sound_unexpected _

theorem sound_furtherTypeSizes : Sound (furtherItems Production.typeSize) TypeSizes := by
  refine sound_collect (sound_bind (sound_eat (show .comma ∈ TokenKind.plain by decide) (by simp))
    fun _ => sound_ite (sound_bind sound_typeSize fun size => sound_pure (some size))
      (sound_pure none)) ?_ ?_
  · rintro gs hs ⟨found, is, hFound, ⟨-, size, js, -, hNone, -⟩ | ⟨rfl, -, rfl⟩⟩
    · cases hNone
    · rcases hFound with ⟨hTrue, -⟩ | ⟨-, hFront, rfl⟩
      · cases hTrue
      · exact .done hFront
  · rintro size sizes gs hs is ⟨found, js, hFound, ⟨rfl, size', ks, ⟨value, text', rfl, rfl⟩,
      hSome, rfl⟩ | ⟨-, hNone, -⟩⟩ hRest
    · cases hSome
      rcases hFound with ⟨-, text, rfl⟩ | ⟨hFalse, -⟩
      · exact .more hRest
      · cases hFalse
    · cases hNone

theorem sound_typeName : Sound Production.typeName TypeName := by
  refine (sound_bind sound_typeWord fun word => sound_bind sound_furtherTypeWords fun words =>
    sound_bind (sound_eat (show .leftParen ∈ TokenKind.plain by decide) (by simp))
      fun _ => sound_ite
      (sound_bind (sound_bind sound_typeSize fun first => sound_bind sound_furtherTypeSizes
          fun further => sound_pure (first :: further)) fun sizes =>
        sound_bind sound_expectRightParen fun _ =>
          sound_pure (" ".intercalate (word :: words) ++ "(" ++ ", ".intercalate sizes ++ ")"))
      (sound_pure (" ".intercalate (word :: words)))).imp ?_
  rintro name gs hs ⟨word, is, hWord, words, js, hWords, found, ks, hFound,
    ⟨rfl, sizes, ls, ⟨first, ms, ⟨value, text', rfl, rfl⟩, further, ns, hFurther, rfl, rfl⟩,
      token, os, ⟨text'', rfl⟩, rfl, rfl⟩ | ⟨rfl, rfl, rfl⟩⟩
  · rcases hFound with ⟨-, text, rfl⟩ | ⟨hFalse, -⟩
    · exact .sized hWord hWords hFurther
    · cases hFalse
  · rcases hFound with ⟨hTrue, -⟩ | ⟨-, hFront, rfl⟩
    · cases hTrue
    · exact .plain hWord hWords hFront

theorem sound_typeCast (hInner : inner.Sound dialect) :
    Sound (Production.typeCast.reduce inner) fun node => Derives dialect (.operand node) := by
  refine (sound_bind (sound_expectKeyword .CAST) fun _ => sound_bind sound_expectLeftParen fun _ =>
    sound_bind (hInner.expression 0) fun arg => sound_bind (sound_expectKeyword .AS) fun _ =>
      sound_bind sound_typeName fun name => sound_bind sound_expectRightParen fun _ =>
        sound_pure (Node.ofForm (.typeCast name arg))).imp ?_
  rintro node gs hs ⟨_, is, ⟨text, rfl⟩, _, js, ⟨text', rfl⟩, arg, ks, hArg, _, ls, ⟨text'', rfl⟩,
    name, ms, hName, _, ns, ⟨close, rfl⟩, rfl, rfl⟩
  exact .typeCast hArg hName

/-! ### Case distinctions -/

/-- A keyword and an expression, or nothing. -/
theorem sound_clause (hInner : inner.Sound dialect) (word : Keyword) :
    Sound (Grammar.clause word (inner.expression 0)) fun node =>
      Derives dialect (.clause word node) := by
  refine (sound_bind (sound_eatKeyword word) fun _ => sound_ite
    (sound_bind (hInner.expression 0) fun node => sound_pure (some node)) (sound_pure none)).imp ?_
  rintro node gs hs ⟨found, is, hFound, ⟨rfl, node', js, hNode, rfl, rfl⟩ | ⟨rfl, rfl, rfl⟩⟩
  · cases hFound
    exact .clauseSome hNode
  · cases hFound with
    | absent hFront => exact .clauseNone hFront

theorem sound_caseRules (hInner : inner.Sound dialect) :
    Sound (collect (Production.caseRule inner)) fun rules => Derives dialect (.rules rules) := by
  refine sound_collect (sound_bind (sound_eatKeyword .WHEN) fun _ => sound_ite
    (sound_bind (hInner.expression 0) fun condition => sound_bind (sound_expectKeyword .THEN)
      fun _ => sound_bind (hInner.expression 0) fun result => sound_pure (some (condition, result)))
    (sound_pure none)) ?_ ?_
  · rintro gs hs ⟨found, is, hFound, ⟨-, condition, js, -, _, ks, -, result, ls, -, hNone, -⟩ |
      ⟨rfl, -, rfl⟩⟩
    · cases hNone
    · cases hFound with
      | absent hFront => exact .rulesDone hFront
  · rintro rule rules gs hs is ⟨found, js, hFound, ⟨rfl, condition, ks, hCondition, _, ls,
      ⟨text', rfl⟩, result, ms, hResult, hSome, rfl⟩ | ⟨-, hNone, -⟩⟩ hRest
    · cases hSome
      cases hFound
      exact .rulesMore hCondition hResult hRest
    · cases hNone

theorem sound_caseWhen (hInner : inner.Sound dialect) :
    Sound (Production.caseWhen.reduce inner) fun node => Derives dialect (.operand node) := by
  refine (sound_bind (sound_expectKeyword .CASE) fun _ => sound_bind (sound_checkKeyword .WHEN)
    fun _ => sound_ite
      (sound_bind (sound_caseRules hInner) fun rules => sound_bind (sound_clause hInner .ELSE)
        fun default => sound_bind (sound_expectKeyword .END) fun _ =>
          sound_ofStructural (Node.caseWhen? rules default))
      (sound_unexpected _ (R := fun _ _ _ => False))).imp ?_
  rintro node gs hs ⟨_, is, ⟨text, rfl⟩, found, js, ⟨hFound, rfl⟩, ⟨rfl, rules, ks, hRules,
    default, ls, hDefault, _, ms, ⟨text', rfl⟩, hNode, rfl⟩ | ⟨-, ⟨⟩⟩⟩
  rw [Node.caseWhen?] at hNode
  split at hNode
  · cases hNode
  · cases hNode
    exact .caseWhen (hFound.1 rfl) hRules hDefault

/-! ### Choice of a production -/

/-- A node that a table or a query in its place stands for, before its alias. -/
def DerivesSource (dialect : Dialect) (node : Node) (gs hs : List Glyph) : Prop :=
  ∀ aliased is, Aliased node aliased hs is → Derives dialect (.source aliased) gs is

theorem sound_tableName :
    Sound (Production.tableName.reduce inner) (DerivesSource dialect) := by
  refine sound_advance_bind (fun token => ?_) (fun token hKind => ?_)
  · split
    · next value quote hKind =>
      refine (sound_pure _).imp ?_
      rintro node gs hs ⟨rfl, rfl⟩ - aliased is hAlias
      rw [Token.glyph, hKind]
      exact .table rfl hAlias
    · exact sound_unexpected _
  · rw [hKind]
    exact sound_unexpected _

theorem sound_subquery (hInner : inner.Sound dialect) :
    Sound (Production.subquery.reduce inner) (DerivesSource dialect) := by
  refine (sound_bind sound_expectLeftParen fun _ => sound_bind hInner.select fun query =>
    sound_bind sound_expectRightParen fun _ => sound_pure (query.withParentheses true)).imp ?_
  rintro node gs hs ⟨_, is, ⟨text, rfl⟩, query, js, hQuery, _, ks, ⟨text', rfl⟩, rfl, rfl⟩
    aliased ls hAlias
  exact .derivedTable hQuery hAlias

theorem sound_operandVariable :
    Sound ((Production.variableName .operand).reduce inner) fun node =>
      Derives .mysql (.operand node) := by
  refine sound_current_bind fun token => ?_
  split
  · next name hKind => exact sound_atom (by rw [hKind]; rfl)
  · next name hKind => exact sound_atom (by rw [hKind]; rfl)
  · exact sound_unexpected _

theorem sound_sourceVariable :
    Sound ((Production.variableName .source).reduce inner) (DerivesSource .mysql) := by
  refine sound_current_bind fun token => ?_
  split
  · next name hKind => exact sound_taken hKind (by simp) fun _ _ _ _ hAlias => .table rfl hAlias
  · next name hKind => exact sound_taken hKind (by simp) fun _ _ _ _ hAlias => .table rfl hAlias
  · exact sound_unexpected _

namespace Grammar

/-- The productions of an operand: those that dialects share, and variables. -/
theorem mem_alternatives_operand {production : Production}
    (hMem : production ∈ dialect.grammar.alternatives .operand) :
    production ∈ ([.literal, .keywordLiteral, .placeholder, .columnOrCall, .everything,
      .parenthesized, .typeCast, .caseWhen] : List Production) ∨
      dialect = .mysql ∧ production = .variableName .operand := by
  cases dialect with
  | generic => exact Or.inl hMem
  | mysql =>
    refine (List.mem_append.1 (show production ∈ [Production.literal, .keywordLiteral,
      .placeholder, .columnOrCall, .everything, .parenthesized, .typeCast, .caseWhen] ++
        [.variableName .operand] from hMem)).imp id fun hVariable => ⟨rfl, ?_⟩
    exact List.mem_singleton.1 hVariable

/-- The productions of a source: those that dialects share, and variables. -/
theorem mem_alternatives_source {production : Production}
    (hMem : production ∈ dialect.grammar.alternatives .source) :
    production ∈ ([.tableName, .subquery] : List Production) ∨
      dialect = .mysql ∧ production = .variableName .source := by
  cases dialect with
  | generic => exact Or.inl hMem
  | mysql =>
    refine (List.mem_append.1 (show production ∈ [Production.tableName, .subquery] ++
      [.variableName .source] from hMem)).imp id fun hVariable => ⟨rfl, ?_⟩
    exact List.mem_singleton.1 hVariable

/-- A symbol derives soundly if each of its productions does. -/
theorem sound_derive {grammar : Grammar} {symbol : Symbol} {expected : String}
    {R : Node → List Glyph → List Glyph → Prop}
    (hAll : ∀ production ∈ grammar.alternatives symbol, Sound (production.reduce inner) R) :
    Sound (grammar.derive symbol expected inner) R := by
  refine sound_current_bind fun token => ?_
  split
  · next production hFound =>
    exact (hAll production (List.mem_of_find?_eq_some hFound)).imp fun _ _ _ h _ => h
  · exact sound_unexpected _

theorem sound_derive_operand (hInner : inner.Sound dialect) (expected : String) :
    Sound (dialect.grammar.derive .operand expected inner) fun node =>
      Derives dialect (.operand node) := by
  refine sound_derive fun production hMem => ?_
  rcases mem_alternatives_operand hMem with hShared | ⟨rfl, rfl⟩
  · simp only [List.mem_cons, List.not_mem_nil, or_false] at hShared
    rcases hShared with rfl | rfl | rfl | rfl | rfl | rfl | rfl | rfl
    · exact sound_literal
    · exact sound_keywordLiteral
    · exact sound_placeholder
    · exact sound_columnOrCall hInner
    · exact sound_everything
    · exact sound_parenthesized hInner
    · exact sound_typeCast hInner
    · exact sound_caseWhen hInner
  · exact sound_operandVariable

theorem sound_derive_source (hInner : inner.Sound dialect) (expected : String) :
    Sound (dialect.grammar.derive .source expected inner) (DerivesSource dialect) := by
  refine sound_derive fun production hMem => ?_
  rcases mem_alternatives_source hMem with hShared | ⟨rfl, rfl⟩
  · simp only [List.mem_cons, List.not_mem_nil, or_false] at hShared
    rcases hShared with rfl | rfl
    · exact sound_tableName
    · exact sound_subquery hInner
  · exact sound_sourceVariable

theorem sound_sourceWith (hInner : inner.Sound dialect) :
    Sound (dialect.grammar.sourceWith inner) fun node => Derives dialect (.source node) := by
  refine (sound_bind (sound_derive_source hInner _) fun node => sound_applyAlias node).imp ?_
  rintro aliased gs is ⟨node, hs, hNode, hAlias⟩
  exact hNode _ _ hAlias

end Grammar

/-! ## Operators -/

namespace TokenKind

variable {kind following : TokenKind} {operator : OperatorClass}

/-- What the operators of each class begin with.  Those that are one token are
recognised whatever follows. -/
theorem infixClass?_cases (hClass : kind.infixClass? following = some operator) :
    (operator.isSimple = true ∧ kind.infixClass? .finish = some operator) ∨
      (operator = .identity ∧ kind = .keyword .IS) ∨
      ∃ word, (operator, word) ∈ [(.membership, .IN), (.likeness, .LIKE), (.range, .BETWEEN)] ∧
        (kind = .keyword word ∨ kind = .keyword .NOT ∧ following = .keyword word) := by
  unfold infixClass? at hClass
  split at hClass <;> (try split at hClass) <;> cases hClass <;>
    simp [infixClass?, OperatorClass.isSimple]

/-- An operator that is one token is recognised whatever follows. -/
theorem infixClass?_finish (hClass : kind.infixClass? following = some operator)
    (hSimple : operator.isSimple = true) : kind.infixClass? .finish = some operator := by
  rcases infixClass?_cases hClass with ⟨-, hAlone⟩ | ⟨rfl, -⟩ | ⟨word, hMem, -⟩
  · exact hAlone
  · cases hSimple
  · simp only [List.mem_cons, Prod.mk.injEq, List.not_mem_nil, or_false] at hMem
    rcases hMem with ⟨rfl, -⟩ | ⟨rfl, -⟩ | ⟨rfl, -⟩ <;> cases hSimple

/-- Identity is known by its word. -/
theorem eq_of_infixClass?_identity (hClass : kind.infixClass? following = some .identity) :
    kind = .keyword .IS := by
  rcases infixClass?_cases hClass with ⟨hSimple, -⟩ | ⟨-, hWord⟩ | ⟨word, hMem, -⟩
  · cases hSimple
  · exact hWord
  · simp at hMem

theorem ne_finish_of_infixClass? (hClass : kind.infixClass? following = some operator) :
    kind ≠ .finish := by
  rintro rfl
  cases hClass

/-- An operator between operands has one of the five looser ranks. -/
theorem rank_lt_five_of_infixClass? (hClass : kind.infixClass? following = some operator) :
    operator.rank < 5 := by
  unfold infixClass? at hClass
  split at hClass <;> (try split at hClass) <;> cases hClass <;> decide

end TokenKind

namespace PrecedenceTable

/-- The powers of an operator between operands follow from its rank. -/
theorem infixPower?_base {operator : OperatorClass} (hRank : operator.rank < 5) :
    base.infixPower? operator = some ⟨2 * operator.rank + 1, 2 * operator.rank + 2⟩ := by
  cases operator <;> first | rfl | exact absurd hRank (by decide)

/-- The power that an operator before its operand demands. -/
theorem prefixPower?_base {kind : TokenKind} :
    kind.prefixClass?.bind base.prefixPower? = kind.prefixClass?.map fun _ => 11 := by
  cases hClass : kind.prefixClass? with
  | none => rfl
  | some operator =>
    unfold TokenKind.prefixClass? at hClass
    split at hClass <;> cases hClass <;> rfl

end PrecedenceTable

theorem Dialect.precedence_grammar (dialect : Dialect) : dialect.grammar.precedence = .base := by
  cases dialect <;> rfl

namespace Grammar

theorem sound_operand (hInner : inner.Sound dialect) :
    Sound (dialect.grammar.operand inner) fun node => Derives dialect (.operand node) := by
  refine sound_current_bind fun token => ?_
  rw [dialect.precedence_grammar, PrecedenceTable.prefixPower?_base]
  cases hClass : token.kind.prefixClass? with
  | none => exact (sound_derive_operand hInner _).imp fun _ _ _ h _ => h
  | some operator =>
    refine (sound_bind sound_advance fun op => sound_bind (hInner.expression 11) fun arg =>
      sound_ofStructural (Node.unary? op.lexeme [arg])).imp ?_
    rintro node gs hs ⟨op, is, ⟨hKind, rfl, hCons⟩, arg, js, hArg, hNode, rfl⟩ hFront
    cases hNode
    have hNe : gs ≠ [] := by
      rintro rfl
      rw [hFront] at hClass
      cases hClass
    rw [hCons hNe]
    rw [hFront, ← hKind] at hClass
    exact .unary hClass hArg

/-- The text of an operator that may be negated, once it is known which one is
at the front. -/
theorem sound_negatableOperator (word : Keyword) (hWord : word ≠ .NOT) :
    Sound negatableOperator fun result gs hs =>
      front gs = .keyword word ∨ front gs = .keyword .NOT ∧ front gs.tail = .keyword word →
        NegatableWord word result.1 result.2 gs hs := by
  refine (sound_bind sound_advance fun first => sound_ite
    (sound_bind sound_advance fun second =>
      sound_pure (true, first.lexeme ++ " " ++ second.lexeme))
    (sound_pure (false, first.lexeme))).imp ?_
  rintro result gs hs ⟨first, is, ⟨hFirst, rfl, hCons⟩,
    ⟨hNot, second, js, ⟨hSecond, rfl, hCons'⟩, rfl, rfl⟩ | ⟨hNot, rfl, rfl⟩⟩ hFront
  · rw [beq_iff_eq, Token.keyword?_eq_some_iff, hFirst] at hNot
    have hWord' : front gs.tail = .keyword word := by
      rcases hFront with hFront | ⟨-, hFront⟩
      · rw [hNot, TokenKind.keyword.injEq] at hFront
        exact absurd hFront.symm hWord
      · exact hFront
    have hNe : gs.tail ≠ [] := by rintro hNil; rw [hNil] at hWord'; cases hWord'
    rw [hCons (by rintro rfl; exact hNe rfl), hCons' hNe, Token.glyph, Token.glyph, hFirst, hNot,
      hSecond, hWord']
    exact .negated
  · have hWord' : front gs = .keyword word := by
      rcases hFront with hFront | ⟨hFront, -⟩
      · exact hFront
      · rw [beq_eq_false_iff_ne, Ne, Token.keyword?_eq_some_iff, hFirst] at hNot
        exact absurd hFront hNot
    have hNe : gs ≠ [] := by rintro rfl; cases hWord'
    rw [hCons hNe, Token.glyph, hFirst, hWord']
    exact .plain

theorem sound_membershipOperand (hInner : inner.Sound dialect) (left : Node) (negated : Bool)
    (op : String) :
    Sound (membershipOperand inner 6) fun right hs is => ∀ gs,
      NegatableWord .IN negated op gs hs →
        Derives dialect (.operation left .membership (.binary op left right)) gs is := by
  refine (sound_bind (sound_check (show .leftParen ∈ TokenKind.plain by decide)) fun found =>
    sound_bind sound_peek_one fun second => sound_ite
      (sound_bind sound_advance fun _ => sound_bind (sound_arguments hInner) fun items =>
        sound_pure (.tuple items))
      (hInner.expression 6)).imp ?_
  rintro right hs is ⟨found, js, ⟨hFound, rfl⟩, second, ks, ⟨rfl, rfl⟩,
    ⟨hListed, _, ls, ⟨-, rfl, -⟩, items, ms, hItems, rfl, rfl⟩ | ⟨hListed, hRight⟩⟩ gs hWord
  · rw [Bool.and_eq_true, hFound, bne_iff_ne] at hListed
    obtain ⟨text, hCons⟩ := Glyph.eq_cons_of_front hListed.1 (by simp)
    rw [hCons] at hWord
    exact .membershipList hWord hListed.2 hItems
  · refine .membership hWord (fun hFront => ?_) hRight
    rw [hFound.2 hFront, Bool.true_and, bne_eq_false_iff_eq] at hListed
    exact hListed

theorem sound_rangeTest (hInner : inner.Sound dialect) (left : Node) (negated : Bool)
    (op : String) :
    Sound (rangeTest inner left negated 6) fun node hs is => ∀ gs,
      NegatableWord .BETWEEN negated op gs hs →
        Derives dialect (.operation left .range node) gs is := by
  refine (sound_bind (hInner.expression 6) fun low => sound_bind (sound_expectKeyword .AND) fun _ =>
    sound_bind (hInner.expression 6) fun high =>
      sound_ofStructural (Node.between? negated [left, low, high])).imp ?_
  rintro node hs is ⟨low, js, hLow, _, ks, ⟨text, rfl⟩, high, ls, hHigh, hNode, rfl⟩ gs hWord
  cases hNode
  exact .range hWord hLow hHigh

/-- An operator of one token and its right operand. -/
private theorem sound_simpleOperation (hInner : inner.Sound dialect) {left : Node}
    {operator : OperatorClass} (hSimple : operator.isSimple = true) :
    Sound (do
      let op ← advance
      let right ← inner.expression (2 * operator.rank + 2)
      ofStructural (Node.binary? op.lexeme [left, right])) fun node gs hs =>
        Glyph.operator? gs = some operator →
          Derives dialect (.operation left operator node) gs hs := by
  refine (sound_bind sound_advance fun op => sound_bind (hInner.expression _) fun right =>
    sound_ofStructural (Node.binary? op.lexeme [left, right])).imp ?_
  rintro node gs hs ⟨op, is, ⟨hKind, rfl, hCons⟩, right, js, hRight, hNode, rfl⟩ hClass
  cases hNode
  have hNe : gs ≠ [] := by rintro rfl; cases hClass
  have hAlone : op.kind.infixClass? .finish = some operator := by
    rw [Glyph.operator?, ← hKind] at hClass
    exact TokenKind.infixClass?_finish hClass hSimple
  rw [hCons hNe]
  exact .binary hSimple hAlone hRight

/-- The word that an operator which may be negated is known by. -/
theorem front_of_operator? {gs : List Glyph} {operator : OperatorClass} {word : Keyword}
    (hMem : (operator, word) ∈ [(.membership, .IN), (.likeness, .LIKE), (.range, .BETWEEN)])
    (hClass : Glyph.operator? gs = some operator) :
    front gs = .keyword word ∨ front gs = .keyword .NOT ∧ front gs.tail = .keyword word := by
  simp only [List.mem_cons, Prod.mk.injEq, List.not_mem_nil, or_false] at hMem
  rcases TokenKind.infixClass?_cases hClass with ⟨hSimple, -⟩ | ⟨rfl, -⟩ | ⟨word', hMem', hFront⟩
  · rcases hMem with ⟨rfl, -⟩ | ⟨rfl, -⟩ | ⟨rfl, -⟩ <;> cases hSimple
  · simp at hMem
  · simp only [List.mem_cons, Prod.mk.injEq, List.not_mem_nil, or_false] at hMem'
    rcases hMem with ⟨rfl, rfl⟩ | ⟨rfl, rfl⟩ | ⟨rfl, rfl⟩ <;> simp at hMem' <;>
      exact hMem' ▸ hFront

theorem sound_infixOperation (hInner : inner.Sound dialect) (left : Node)
    {operator : OperatorClass} (hRank : operator.rank < 5) :
    Sound (infixOperation inner left operator (2 * operator.rank + 2)) fun node gs hs =>
      Glyph.operator? gs = some operator →
        Derives dialect (.operation left operator node) gs hs := by
  cases operator with
  | disjunction | conjunction | comparison | additive | multiplicative =>
    exact sound_simpleOperation hInner rfl
  | negation | complement => exact absurd hRank (by decide)
  | identity =>
    refine (sound_bind sound_advance fun _ => sound_bind (sound_eatKeyword .NOT) fun negated =>
      sound_bind (hInner.expression 6) fun right => sound_pure _).imp ?_
    rintro node gs hs ⟨op, is, ⟨hKind, rfl, hCons⟩, negated, js, hNegated, right, ks, hRight, rfl,
      rfl⟩ hClass
    have hNe : gs ≠ [] := by rintro rfl; cases hClass
    have hWord : op.kind = .keyword .IS := by
      rw [Glyph.operator?, ← hKind] at hClass
      exact TokenKind.eq_of_infixClass?_identity hClass
    rw [hCons hNe, Token.glyph, hWord]
    exact .identity hNegated hRight
  | membership =>
    refine (sound_bind (sound_negatableOperator .IN (by decide)) fun result =>
      sound_bind (sound_membershipOperand hInner left result.1 result.2) fun right =>
        sound_pure (Node.binary result.2 left right)).imp ?_
    rintro node gs hs ⟨⟨negated, op⟩, is, hWord, right, js, hRight, rfl, rfl⟩ hClass
    exact hRight gs (hWord (front_of_operator? (by simp) hClass))
  | likeness =>
    refine (sound_bind (sound_negatableOperator .LIKE (by decide)) fun result =>
      sound_bind (hInner.expression 6) fun right =>
        sound_pure (Node.binary result.2 left right)).imp ?_
    rintro node gs hs ⟨⟨negated, op⟩, is, hWord, right, js, hRight, rfl, rfl⟩ hClass
    exact .likeness (hWord (front_of_operator? (by simp) hClass)) hRight
  | range =>
    refine (sound_bind (sound_negatableOperator .BETWEEN (by decide)) fun result =>
      sound_rangeTest hInner left result.1 result.2).imp ?_
    rintro node gs hs ⟨⟨negated, op⟩, is, hWord, hRange⟩ hClass
    exact hRange gs (hWord (front_of_operator? (by simp) hClass))

/-- Where no operator of sufficient power follows, an expression is over. -/
theorem extendExpression_done {stream : TokenStream} {least : Nat} {left : Node}
    (hClosed : stream.Closed)
    (hStops : ∀ operator ∈ Glyph.operator? stream.glyphs, 2 * operator.rank + 1 < least) :
    dialect.grammar.extendExpression inner least left stream = .ok none stream := by
  simp only [extendExpression, bind_apply, current, peek, hClosed.kind_current, hClosed.peek_one]
  cases hClass : Glyph.operator? stream.glyphs with
  | none =>
    rw [Glyph.operator?] at hClass
    rw [hClass]
    rfl
  | some operator =>
    have hLess := hStops operator hClass
    rw [Glyph.operator?] at hClass
    rw [hClass, dialect.precedence_grammar]
    dsimp only
    rw [PrecedenceTable.infixPower?_base (TokenKind.rank_lt_five_of_infixClass? hClass)]
    simp only [hLess, if_true]
    rfl

/-- Where an operator of sufficient power follows, an expression goes on. -/
theorem extendExpression_more {stream : TokenStream} {least : Nat} {left : Node}
    {operator : OperatorClass} (hClosed : stream.Closed)
    (hClass : Glyph.operator? stream.glyphs = some operator)
    (hLeast : least ≤ 2 * operator.rank + 1) :
    dialect.grammar.extendExpression inner least left stream =
      (infixOperation inner left operator (2 * operator.rank + 2) >>= fun node =>
        pure (some node)) stream := by
  rw [Glyph.operator?] at hClass
  simp only [extendExpression, bind_apply, current, peek, hClosed.kind_current, hClosed.peek_one,
    hClass, dialect.precedence_grammar,
    PrecedenceTable.infixPower?_base (TokenKind.rank_lt_five_of_infixClass? hClass),
    Nat.not_lt.2 hLeast, if_false]

theorem sound_extendExpression (hInner : inner.Sound dialect) (least : Nat) (left : Node) :
    Sound (dialect.grammar.extendExpression inner least left) fun node? gs hs =>
      (node? = none ∧ hs = gs ∧
        ∀ operator ∈ Glyph.operator? gs, 2 * operator.rank + 1 < least) ∨
      ∃ node operator, node? = some node ∧ Glyph.operator? gs = some operator ∧
        least ≤ 2 * operator.rank + 1 ∧ Derives dialect (.operation left operator node) gs hs := by
  intro stream rest node? hClosed hRun
  by_cases hMore : ∃ operator, Glyph.operator? stream.glyphs = some operator ∧
      least ≤ 2 * operator.rank + 1
  · obtain ⟨operator, hClass, hLeast⟩ := hMore
    rw [extendExpression_more hClosed hClass hLeast] at hRun
    have hRank := TokenKind.rank_lt_five_of_infixClass? hClass
    obtain ⟨hLast, node, gs, hNode, rfl, rfl⟩ := sound_bind
      (sound_infixOperation hInner left hRank) (fun node => sound_pure (some node)) hClosed hRun
    exact ⟨hLast, Or.inr ⟨node, operator, rfl, hClass, hLeast, hNode hClass⟩⟩
  · have hStops : ∀ operator ∈ Glyph.operator? stream.glyphs, 2 * operator.rank + 1 < least :=
      fun operator hClass => Nat.not_le.1 fun hLeast => hMore ⟨operator, hClass, hLeast⟩
    rw [extendExpression_done hClosed hStops] at hRun
    cases hRun
    exact ⟨rfl, Or.inl ⟨rfl, rfl, hStops⟩⟩

theorem sound_expressionWith (hInner : inner.Sound dialect) (least : Nat) :
    Sound (dialect.grammar.expressionWith inner least) fun node =>
      Derives dialect (.expression least node) := by
  refine (sound_bind (sound_operand hInner) fun first => sound_iterate
    (sound_extendExpression hInner least) (W := fun left node =>
      Derives dialect (.extension least left node)) ?_ ?_ first).imp ?_
  · rintro left gs hs (⟨-, rfl, hStop⟩ | ⟨node, operator, hSome, -⟩)
    · exact .extensionDone hStop
    · cases hSome
  · rintro left next node gs hs is
      (⟨hNone, -⟩ | ⟨node', operator, hSome, hClass, hLeast, hNode⟩) hRest
    · cases hNone
    · cases hSome
      exact .extensionMore hClass hLeast hNode hRest
  · rintro node gs is ⟨first, hs, hFirst, hRest⟩
    exact .expression hFirst hRest

/-! ## Sources -/

theorem sound_joinCondition (hInner : inner.Sound dialect) (join : JoinKind) :
    Sound (joinCondition inner join) fun condition gs hs =>
      (join = .comma → condition = none ∧ gs = hs) ∧
        (join ≠ .comma → Derives dialect (.clause .ON condition) gs hs) := by
  by_cases hComma : join = .comma
  · subst hComma
    refine (sound_pure none).imp ?_
    rintro condition gs hs ⟨rfl, rfl⟩
    exact ⟨fun _ => ⟨rfl, rfl⟩, fun h => absurd rfl h⟩
  · rw [joinCondition, if_neg (by simpa using hComma)]
    refine (sound_clause hInner .ON).imp ?_
    intro condition gs hs hClause
    exact ⟨fun h => absurd h hComma, fun _ => hClause⟩

theorem sound_sources (hInner : inner.Sound dialect) :
    Sound (sources inner) fun node gs is => ∃ first hs,
      Derives dialect (.source first) gs hs ∧ Derives dialect (.joins first node) hs is := by
  have hStep : ∀ left, Sound (extendSources inner left) fun node? gs hs =>
      (node? = none ∧ hs = gs ∧ joinKind? (front gs) = none) ∨
      ∃ kind join right condition text gs' is, gs = ⟨kind, text⟩ :: gs' ∧
        node? = some (.ofForm (.join left right join condition)) ∧
        joinKind? kind = some join ∧ Derives dialect (.source right) gs' is ∧
        (join = .comma → condition = none ∧ is = hs) ∧
        (join ≠ .comma → Derives dialect (.clause .ON condition) is hs) := by
    intro left
    refine sound_current_bind fun token => ?_
    cases hJoin : joinKind? token.kind with
    | none =>
      refine (sound_pure none).imp ?_
      rintro node? gs hs ⟨rfl, rfl⟩ hFront
      exact Or.inl ⟨rfl, rfl, hFront ▸ hJoin⟩
    | some join =>
      refine (sound_bind sound_advance fun _ => sound_bind hInner.source fun right =>
        sound_bind (sound_joinCondition hInner join) fun condition =>
          sound_pure (some (Node.ofForm (.join left right join condition)))).imp ?_
      rintro node? gs hs ⟨_, is, ⟨-, rfl, -⟩, right, js, hRight, condition, ks, ⟨hComma, hOther⟩,
        rfl, rfl⟩ hFront
      have hKind : token.kind ≠ .finish := by
        intro hFinish
        rw [hFinish] at hJoin
        cases hJoin
      obtain ⟨text, hCons⟩ := Glyph.eq_cons_of_front hFront.symm hKind
      exact Or.inr ⟨token.kind, join, right, condition, text, gs.tail, js, hCons, rfl, hJoin,
        hRight, hComma, hOther⟩
  refine sound_bind hInner.source fun first => sound_iterate hStep
    (W := fun left node => Derives dialect (.joins left node)) ?_ ?_ first
  · rintro left gs hs (⟨-, rfl, hKind⟩ | ⟨_, _, _, _, _, _, _, _, hSome, _⟩)
    · exact .joinsDone hKind
    · cases hSome
  · rintro left next node gs hs is (⟨hNone, -⟩ | ⟨kind, join, right, condition, text, gs', js, rfl,
      hSome, hKind, hRight, hComma, hOther⟩) hRest
    · cases hNone
    · cases hSome
      exact .joinsMore hKind hRight hComma hOther hRest

/-! ## Queries -/

theorem sound_target (hInner : inner.Sound dialect) :
    Sound (target inner) fun node => Derives dialect (.item .target node) := by
  refine (sound_bind (hInner.expression 0) fun node => sound_applyAlias node).imp ?_
  rintro aliased gs is ⟨node, hs, hNode, hAlias⟩
  exact .target hNode hAlias

theorem sound_direction : Sound direction Directed := by
  refine (sound_bind (sound_eatKeyword .ASC) fun _ => sound_ite (sound_pure Direction.ascending)
    (sound_bind (sound_eatKeyword .DESC) fun _ => sound_ite
      (sound_pure Direction.descending) (sound_pure Direction.unspecified))).imp ?_
  rintro direction gs hs ⟨found, is, hAscending, ⟨rfl, rfl, rfl⟩ |
    ⟨rfl, found', js, hDescending, ⟨rfl, rfl, rfl⟩ | ⟨rfl, rfl, rfl⟩⟩⟩
  · cases hAscending
    exact .ascending
  · cases hAscending
    cases hDescending
    exact .descending
  · cases hAscending with
    | absent hAscending =>
      cases hDescending with
      | absent hDescending => exact .unspecified hAscending hDescending

theorem sound_nullPlacement : Sound nullPlacement Placed := by
  refine (sound_bind (sound_eatKeyword .NULLS_FIRST) fun _ => sound_ite
    (sound_pure NullPlacement.first)
    (sound_bind (sound_eatKeyword .NULLS_LAST) fun _ => sound_ite
      (sound_pure NullPlacement.last) (sound_pure NullPlacement.unspecified))).imp ?_
  rintro nulls gs hs ⟨found, is, hFirst, ⟨rfl, rfl, rfl⟩ |
    ⟨rfl, found', js, hLast, ⟨rfl, rfl, rfl⟩ | ⟨rfl, rfl, rfl⟩⟩⟩
  · cases hFirst
    exact .first
  · cases hFirst
    cases hLast
    exact .last
  · cases hFirst with
    | absent hFirst =>
      cases hLast with
      | absent hLast => exact .unspecified hFirst hLast

theorem sound_orderingEntry (hInner : inner.Sound dialect) :
    Sound (orderingEntry inner) fun node => Derives dialect (.item .entry node) := by
  refine (sound_bind (hInner.expression 0) fun field => sound_bind sound_direction fun direction =>
    sound_bind sound_nullPlacement fun nulls =>
      sound_pure (Node.ofForm (.orderBy field direction nulls))).imp ?_
  rintro node gs hs ⟨field, is, hField, direction, js, hDirection, nulls, ks, hNulls, rfl, rfl⟩
  exact .entry hField hDirection hNulls

theorem sound_distinctness : Sound distinctness Distinctness := by
  refine (sound_bind (sound_eatKeyword .DISTINCT) fun _ => sound_ite (sound_pure true)
    (sound_bind (sound_eatKeyword .ALL) fun _ => sound_pure false)).imp ?_
  rintro distinct gs hs ⟨found, is, hDistinct, ⟨rfl, rfl, rfl⟩ |
    ⟨rfl, all, js, hAll, rfl, rfl⟩⟩
  · cases hDistinct
    exact .distinct
  · cases hDistinct with
    | absent hDistinct =>
      cases hAll with
      | present => exact .all
      | absent hAll => exact .neither hDistinct hAll

theorem sound_listClause {item : Parser Node} {sort : ItemSort} (word : Keyword)
    (hItem : Sound item fun node => Derives dialect (.item sort node)) :
    Sound (clause word (commaSeparated item)) fun nodes =>
      Derives dialect (.listClause word sort (nodes.getD [])) := by
  refine (sound_bind (sound_eatKeyword word) fun _ => sound_ite
    (sound_bind (sound_commaSeparated hItem) fun nodes => sound_pure (some nodes))
    (sound_pure none)).imp ?_
  rintro nodes gs hs ⟨found, is, hFound, ⟨rfl, nodes', js, hNodes, rfl, rfl⟩ | ⟨rfl, rfl, rfl⟩⟩
  · cases hFound
    exact .listClauseSome hNodes
  · cases hFound with
    | absent hFront => exact .listClauseNone hFront

theorem sound_sourceClause (hInner : inner.Sound dialect) :
    Sound (clause .FROM (sources inner)) fun node => Derives dialect (.sourceClause node) := by
  refine (sound_bind (sound_eatKeyword .FROM) fun _ => sound_ite
    (sound_bind (sound_sources hInner) fun node => sound_pure (some node))
    (sound_pure none)).imp ?_
  rintro node gs hs ⟨found, is, hFound, ⟨rfl, node', js, ⟨first, ks, hFirst, hJoins⟩, rfl, rfl⟩ |
    ⟨rfl, rfl, rfl⟩⟩
  · cases hFound
    exact .sourceClauseSome hFirst hJoins
  · cases hFound with
    | absent hFront => exact .sourceClauseNone hFront

theorem sound_selectWith (hInner : inner.Sound dialect) :
    Sound (selectWith inner) fun node => Derives dialect (.select node) := by
  refine (sound_bind (sound_expectKeyword .SELECT) fun _ => sound_bind sound_distinctness fun _ =>
    sound_bind (sound_commaSeparated (sound_target hInner)) fun targets =>
    sound_bind (sound_ofStructural (Query.ofTargets? targets)) fun query =>
    sound_bind (sound_sourceClause hInner) fun _ =>
    sound_bind (sound_clause hInner .WHERE) fun _ =>
    sound_bind (sound_listClause .GROUP_BY hInner.item) fun _ =>
    sound_bind (sound_clause hInner .HAVING) fun _ =>
    sound_bind (sound_listClause .ORDER_BY (sound_orderingEntry hInner)) fun ordering =>
    sound_bind (sound_ofStructural (query.withOrdering? (ordering.getD []))) fun _ =>
    sound_bind (sound_clause hInner .LIMIT) fun _ =>
    sound_bind (sound_clause hInner .OFFSET) fun _ => sound_pure _).imp ?_
  rintro node gs hs ⟨_, g₁, ⟨text, rfl⟩, distinct, g₂, hDistinct, targets, g₃, hTargets,
    query, _, ⟨hQuery, rfl⟩, source, g₄, hSource, condition, g₅, hCondition, groups, g₆, hGroups,
    having, g₇, hHaving, ordering, g₈, hOrdering, query', _, ⟨hQuery', rfl⟩, limit, g₉, hLimit,
    offset, g₁₀, hOffset, rfl, rfl⟩
  have hTargets' : query.targets = targets := by
    rw [Query.ofTargets?] at hQuery
    split at hQuery <;> cases hQuery
    rfl
  have hQuery'' : query' = { query with ordering := ordering.getD [] } := by
    rw [Query.withOrdering?] at hQuery'
    split at hQuery' <;> cases hQuery'
    rfl
  subst hQuery'' hTargets'
  exact .select hDistinct hTargets hSource hCondition hGroups hHaving hOrdering hLimit hOffset

/-! ## Levels and statements -/

/-- The parsers of every level derive. -/
theorem subparsers_sound (dialect : Dialect) (levels : Nat) :
    (dialect.grammar.subparsers levels).Sound dialect := by
  induction levels with
  | zero => exact ⟨fun _ => sound_fail _, sound_fail _, sound_fail _⟩
  | succ levels ih => exact ⟨sound_expressionWith ih, sound_selectWith ih, sound_sourceWith ih⟩

theorem sound_select (dialect : Dialect) :
    Sound dialect.grammar.select fun node => Derives dialect (.select node) :=
  fun _ _ _ hClosed hRun => (subparsers_sound dialect _).select hClosed hRun

theorem sound_query (dialect : Dialect) :
    Sound dialect.grammar.query fun node => Derives dialect (.query node) := by
  have hWithin : ∀ limit, Sound (dialect.grammar.queryWithin limit) fun node =>
      Derives dialect (.query node) := by
    intro limit
    induction limit with
    | zero => exact sound_fail _
    | succ limit ih =>
      refine (sound_bind (sound_eat (show .leftParen ∈ TokenKind.plain by decide) (by simp))
        fun _ => sound_ite
          (sound_bind ih fun query => sound_bind sound_expectRightParen fun _ =>
            sound_pure (query.withParentheses true))
          (sound_select dialect)).imp ?_
      rintro node gs hs ⟨found, is, hFound, ⟨rfl, query, js, hQuery, _, ks, ⟨text', rfl⟩, rfl,
        rfl⟩ | ⟨rfl, hSelect⟩⟩
      · rcases hFound with ⟨-, text, rfl⟩ | ⟨hFalse, -⟩
        · exact .enclosedQuery hQuery
        · cases hFalse
      · rcases hFound with ⟨hTrue, -⟩ | ⟨-, hFront, rfl⟩
        · cases hTrue
        · exact .bareQuery hFront hSelect
  exact fun stream rest node hClosed hRun => hWithin _ hClosed hRun

/-- A parsed statement has a derivation, if the end of the input stands only at
the end of the stream. -/
theorem derives_of_statement {stream rest : TokenStream} {node : Node} (hClosed : stream.Closed)
    (hFinish : ∀ glyph ∈ stream.glyphs, glyph.kind ≠ .finish)
    (hRun : dialect.grammar.statement stream = .ok node rest) :
    DerivesStatement dialect node stream.glyphs := by
  have hSound : Sound dialect.grammar.statement fun node gs hs => ∃ is,
      Derives dialect (.query node) gs is ∧ front hs = .finish ∧
        (hs = is ∨ ∃ text, is = ⟨.semicolon, text⟩ :: hs) := by
    refine (sound_bind (sound_query dialect) fun node =>
      sound_bind (sound_eat (show .semicolon ∈ TokenKind.plain by decide) (by simp)) fun _ =>
        sound_bind sound_current fun _ => sound_ite (sound_pure node)
          (sound_unexpected _ (R := fun _ _ _ => False))).imp ?_
    rintro node gs hs ⟨query, is, hQuery, found, js, hFound, token, ks, ⟨hKind, rfl⟩,
      ⟨hEnd, rfl, rfl⟩ | ⟨-, ⟨⟩⟩⟩
    refine ⟨is, hQuery, ?_, ?_⟩
    · rw [hKind] at hEnd
      cases hFront : front hs <;> rw [hFront] at hEnd <;> first | rfl | cases hEnd
    · rcases hFound with ⟨-, text, rfl⟩ | ⟨-, -, rfl⟩
      · exact Or.inr ⟨text, rfl⟩
      · exact Or.inl rfl
  obtain ⟨-, gs, hQuery, hFront, hRest⟩ := hSound hClosed hRun
  have hNil : rest.glyphs = [] := by
    cases hGlyphs : rest.glyphs with
    | nil => rfl
    | cons glyph hs =>
      rw [hGlyphs] at hFront hRest
      refine absurd hFront (hFinish glyph (hQuery.suffix.subset ?_))
      rcases hRest with rfl | ⟨text, rfl⟩ <;> simp
  rw [hNil] at hRest
  rcases hRest with rfl | ⟨text, rfl⟩
  · exact Or.inl hQuery
  · exact Or.inr ⟨text, hQuery⟩

end Grammar

end SqlQuery
