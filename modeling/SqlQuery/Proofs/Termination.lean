import SqlQuery.Proofs.Cursor
import SqlQuery.Proofs.Descent

/-!
# Recursion along the tokens

Expressions, sources and queries are read by parsers that call each other.  A
parser calls for another one only behind the token that it stands at, so the
number of tokens that are left bounds the depth of the calls, and what a parser
replies at one position is fixed by what the parsers reply at later ones.  The
bounds that the definitions carry are never reached.

Positions are counted from the first of all tokens.  A parser that stands at a
position is given the tokens from there on.

## Main definitions

* `Parser.AgreeBehind` — parsers that reply the same at all later positions.
* `Reply.Proceeds` — a reply in the range of the tokens.

## Main results

* `Dialect.descends` — the parsers of a dialect recur along the tokens and stay
  in their range.
-/

namespace SqlQuery

open SqlQuery.Parser

/-! ## Replies -/

variable {α : Type}

/-- A reply to the tokens from a position on.  A success leaves what there is at a
later position; a failure stands at this position or a later one, and no bound on
the recursion was reached. -/
structure Reply.Proceeds (reply : Reply α) (all : TokenStream) (position : Nat) : Prop where
  ok : ∀ {value : α} {rest : TokenStream}, reply = .ok value rest →
    ∃ later, position < later ∧ later ≤ all.ahead.length ∧ rest = all.seek later
  fail : ∀ {error : ParseError} {rest : TokenStream}, reply = .fail error rest →
    error ≠ .tooDeep ∧ ∃ later, position ≤ later ∧ later ≤ all.ahead.length ∧ rest = all.seek later

namespace Parser

variable {p p' p'' : Parser α} {all : TokenStream} {position : Nat}

/-- Two parsers reply the same at all positions behind a given one. -/
def AgreeBehind (all : TokenStream) (position : Nat) (p p' : Parser α) : Prop :=
  ∀ later, position < later → later ≤ all.ahead.length → p (all.seek later) = p' (all.seek later)

theorem InStepAt.proceeds (hStep : InStepAt p p' (all.seek position) (Moved (all.seek position)))
    (hPosition : position ≤ all.ahead.length) :
    (p (all.seek position)).Proceeds all position := by
  constructor
  · intro value rest hRun
    obtain ⟨hLeads, hLess⟩ := hStep.ok hRun
    obtain ⟨later, hLater, hRange, rfl⟩ := hLeads.exists_seek hPosition
    unfold Moved at hLess
    rw [TokenStream.length_ahead_seek, TokenStream.length_ahead_seek] at hLess
    exact ⟨later, by omega, hRange, rfl⟩
  · intro error rest hRun
    obtain ⟨hLeads, expected, rfl⟩ := hStep.fail hRun
    exact ⟨ParseError.noConfusion, hLeads.exists_seek hPosition⟩

/-- A parser that agrees behind a position with one that is in step with a third
is itself in step with the third there. -/
theorem AgreeBehind.moveInStep {rest : TokenStream} (hAgree : AgreeBehind all position p'' p)
    (hPosition : position ≤ all.ahead.length) (hLeads : (all.seek position).LeadsTo rest)
    (hLess : rest.ahead.length < (all.seek position).ahead.length)
    (hStep : MoveInStep p p' rest) : MoveInStep p'' p' rest := by
  intro after hAfter hClosed
  obtain ⟨later, hLater, hRange, rfl⟩ := (hLeads.trans hAfter).exists_seek hPosition
  have hLength := hAfter.length_le
  rw [TokenStream.length_ahead_seek] at hLess hLength
  exact (hStep _ hAfter hClosed).of_eq (hAgree later (by omega) hRange) rfl

end Parser

/-! ## The parsers of a dialect -/

namespace Grammar

variable (dialect : Dialect) {stream : TokenStream}

/-- With as many levels as a stream may need, or more, the parsers reply the
same. -/
theorem levels_inStep {levels : Nat} (hLevels : stream.ahead.length < levels) :
    (∀ least, MoveInStep (dialect.grammar.expression least)
      ((dialect.grammar.subparsers levels).expression least) stream) ∧
    MoveInStep dialect.grammar.select (dialect.grammar.subparsers levels).select stream ∧
    MoveInStep dialect.grammar.source (dialect.grammar.subparsers levels).source stream := by
  have hStep : ∀ rest, stream.LeadsTo rest →
      (dialect.grammar.subparsersFor rest).InStep (dialect.grammar.subparsers levels) rest := by
    intro rest hLeads
    have hLength := hLeads.length_le
    have hInner := subparsers_inStep dialect {} {} (rest.ahead.length + 1) levels rest
      (Nat.lt_succ_self _) (by omega)
    rwa [dialect.grammarWith_default] at hInner
  refine ⟨fun least rest hLeads hClosed => ?_, fun rest hLeads hClosed => ?_,
    fun rest hLeads hClosed => ?_⟩
  · exact ((hStep rest hLeads).expression least rest (.refl rest) hClosed).of_eq rfl rfl
  · exact ((hStep rest hLeads).select rest (.refl rest) hClosed).of_eq rfl rfl
  · exact ((hStep rest hLeads).source rest (.refl rest) hClosed).of_eq rfl rfl

theorem query_inStep {limit : Nat} (hLimit : stream.ahead.length < limit) :
    MoveInStep dialect.grammar.query (dialect.grammar.queryWithin limit) stream := by
  intro rest hLeads hClosed
  have hLength := hLeads.length_le
  have hQuery := move_queryWithin dialect {} {} (rest.ahead.length + 1) limit rest
    (Nat.lt_succ_self _) (by omega) rest (.refl rest) hClosed
  rw [dialect.grammarWith_default] at hQuery
  exact hQuery.of_eq rfl rfl

end Grammar

/-- **Recursion along the tokens.**  Let all tokens be given, the last of which is
the end, and a position among them.

* What the parsers for expressions, queries and sources reply there is fixed by
  what they reply at later positions up to that of the end: it comes out the
  same with any parsers in their place that reply the same there.
* They end in the range of the tokens.  A success consumes a token, and a failure
  has taken nothing back and reached no bound on the recursion.  So does the
  parser for statements.
* The token at the front is the one at this position and the one behind it is
  that of the next position, or the end, which is never passed.
* If no other token is the end, then a parser that keeps all tokens and the index
  of this position sees and takes the same tokens, and its index stays in their
  range. -/
theorem Dialect.descends (dialect : Dialect) {all : TokenStream} (hEnd : all.last.kind = .finish)
    {position : Nat} (hPosition : position ≤ all.ahead.length) :
    ((∀ inner : Subparsers,
        (∀ least, AgreeBehind all position (inner.expression least)
          (dialect.grammar.expression least)) →
        AgreeBehind all position inner.select dialect.grammar.select →
        AgreeBehind all position inner.source dialect.grammar.source →
        (∀ least, dialect.grammar.expressionWith inner least (all.seek position) =
          dialect.grammar.expression least (all.seek position)) ∧
        Grammar.selectWith inner (all.seek position) =
          dialect.grammar.select (all.seek position) ∧
        dialect.grammar.sourceWith inner (all.seek position) =
          dialect.grammar.source (all.seek position)) ∧
      ∀ inner : Parser Node, AgreeBehind all position inner dialect.grammar.query →
        dialect.grammar.queryWith inner (all.seek position) =
          dialect.grammar.query (all.seek position)) ∧
    ((∀ least, (dialect.grammar.expression least (all.seek position)).Proceeds all position) ∧
      (dialect.grammar.source (all.seek position)).Proceeds all position ∧
      (dialect.grammar.select (all.seek position)).Proceeds all position ∧
      (dialect.grammar.statement (all.seek position)).Proceeds all position) ∧
    all.toList[position]? = some (all.seek position).current ∧
    (all.toList[min (position + 1) all.ahead.length]?).map Token.kind =
      some ((all.seek position).peek 1) ∧
    (all.seek position).advance = all.seek (min (position + 1) all.ahead.length) ∧
    ((∀ token ∈ all.ahead, token.kind ≠ .finish) → all.AgreesWithCursor position) := by
  have hClosed : (all.seek position).Closed := TokenStream.closed_seek hEnd
  have hLeads := TokenStream.LeadsTo.refl (all.seek position)
  refine ⟨⟨?_, ?_⟩, ?_, ?_, ?_, TokenStream.advance_seek hPosition,
    fun hOnly => TokenStream.agreesWithCursor hEnd hOnly hPosition⟩
  · intro inner hExpression hSelect hSource
    have hInner : inner.InStepBehind
        (dialect.grammar.subparsers (all.seek position).ahead.length) (all.seek position) := by
      intro rest hLeads hLess
      obtain ⟨hExpression', hSelect', hSource'⟩ := Grammar.levels_inStep dialect hLess
      exact ⟨fun least =>
          (hExpression least).moveInStep hPosition hLeads hLess (hExpression' least),
        hSelect.moveInStep hPosition hLeads hLess hSelect',
        hSource.moveInStep hPosition hLeads hLess hSource'⟩
    refine ⟨fun least => ?_, (Grammar.inStepAt_selectWith hInner hClosed).same, ?_⟩
    · have hSame := (@Grammar.inStepAt_expressionWith dialect {} {} _ _ _ hInner hClosed least).same
      rw [dialect.grammarWith_default] at hSame
      exact hSame
    · have hSame := (@Grammar.inStepAt_sourceWith dialect {} {} _ _ _ hInner hClosed).same
      rw [dialect.grammarWith_default] at hSame
      exact hSame
  · intro inner hQuery
    have hInner : ∀ rest, (all.seek position).LeadsTo rest →
        rest.ahead.length < (all.seek position).ahead.length →
        MoveInStep inner (dialect.grammar.queryWithin (all.seek position).ahead.length) rest := by
      intro rest hLeads hLess
      exact hQuery.moveInStep hPosition hLeads hLess (Grammar.query_inStep dialect hLess)
    have hSame := (Grammar.inStepAt_queryWith dialect {} {} hClosed hInner).same
    rw [dialect.grammarWith_default] at hSame
    exact hSame
  · obtain ⟨hExpression, hSelect, hSource⟩ :=
      Grammar.levels_inStep dialect (Nat.lt_succ_self (all.seek position).ahead.length)
    have hStatement := Grammar.move_statement dialect {} {} (all.seek position) hLeads hClosed
    refine ⟨fun least => (hExpression least _ hLeads hClosed).proceeds hPosition,
      (hSource _ hLeads hClosed).proceeds hPosition, (hSelect _ hLeads hClosed).proceeds hPosition,
      ?_⟩
    rw [dialect.grammarWith_default] at hStatement
    exact hStatement.proceeds hPosition
  · exact (TokenStream.current?_cursor_eq_getElem? hPosition).symm.trans
      TokenStream.current?_cursor
  · rw [TokenStream.getElem?_toList_seek]
    rfl

/-- The tokens of a query for an operand in parentheses. -/
def nestedStream : TokenStream :=
  ⟨[⟨.keyword .SELECT, ⟨0, 6⟩, "SELECT"⟩, ⟨.leftParen, ⟨7, 8⟩, "("⟩,
      ⟨.identifier "a" none, ⟨8, 9⟩, "a"⟩, ⟨.rightParen, ⟨9, 10⟩, ")"⟩],
    ⟨.finish, ⟨10, 10⟩, ""⟩⟩

/-- The operand begins at the second of the tokens. -/
theorem Dialect.descends_nestedStream :
    Grammar.mysql.tokens.tokenize "SELECT (a)" = .ok nestedStream ∧
      nestedStream.last.kind = .finish ∧ 1 ≤ nestedStream.ahead.length ∧
      (Grammar.mysql.expression 0 (nestedStream.seek 1)).Proceeds nestedStream 1 ∧
      nestedStream.toList[1]? = some (nestedStream.seek 1).current ∧
      (nestedStream.seek 1).advance = nestedStream.seek 2 ∧
      (∀ token ∈ nestedStream.ahead, token.kind ≠ .finish) ∧
      nestedStream.AgreesWithCursor 1 := by
  have hEnd : nestedStream.last.kind = .finish := rfl
  have hPosition : 1 ≤ nestedStream.ahead.length := by decide
  have hOnly : ∀ token ∈ nestedStream.ahead, token.kind ≠ .finish := by decide
  obtain ⟨-, ⟨hExpression, -⟩, hCurrent, -, hAdvance, hCursor⟩ :=
    Dialect.descends .mysql hEnd hPosition
  exact ⟨by decide +kernel, hEnd, hPosition, hExpression 0, hCurrent, hAdvance, hOnly,
    hCursor hOnly⟩

end SqlQuery
