import SqlQuery.Proofs.Completeness
import SqlQuery.Proofs.Framing
import SqlQuery.Proofs.Viability

/-!
# Errors at the first token that cannot be right

What a parser has consumed before a syntax error is the beginning of a
statement: a token that rules out every statement is never passed over.

Each parser of the grammar is viable for a language that follows the shape of
its definition, and what remains is that this language lies in that of its
construct, which is a matter of frames.  A completion is made of what is
missing: the number one for an operand, the keyword or the parenthesis that
closes what is open, and nothing where a clause may be left out.

A choice that was made earlier must not be undone by the completion.  Most are
made by a single token, which is then consumed.  Two are not.  What follows
`IN` is a list unless its parenthesis holds a query, so the operands that may
stand somewhere depend on the two glyphs there (`Agrees`).  And an operation
ends where an operator follows that binds less tightly, so the operations that
go on with an expression depend on how tightly the first of them may bind
(`extensions`).

## Main definitions

* `sentences` — the glyphs that frame a construct.
* `operands`, `expressions`, `extensions` — those that may stand where given
  glyphs stand.

## Main results

* `Grammar.viable_statement` — the parser of statements consumes beginnings of
  statements.
* `parse_error_viable` — the tokens before a syntax error begin a statement.
-/

namespace SqlQuery

open Glyph (front AllGenuine)
open Construct (admits_of_front)
open SqlQuery.Parser

/-! ## Sentences -/

/-- The glyphs that frame a construct, whatever it stands for. -/
def sentences (dialect : Dialect) {β : Type} (construct : β → Construct) : Language Glyph :=
  {xs | ∃ value, Frames dialect (construct value) xs}

/-- Glyphs that begin like others, as far as the parser of an operand looks, or
with the number that completes what breaks off before an operand. -/
def Agrees (gs xs : List Glyph) : Prop :=
  front xs = .integer 1 ∨ front xs = front gs ∧
    (front gs = .leftParen → front gs.tail = .keyword .SELECT → front xs.tail = .keyword .SELECT)

/-- The operands that may be read where glyphs stand. -/
def operands (dialect : Dialect) (gs : List Glyph) : Language Glyph :=
  {xs | (∃ node, Frames dialect (.operand node) xs) ∧ Agrees gs xs}

/-- The expressions that may be read where glyphs stand. -/
def expressions (dialect : Dialect) (least : Nat) (gs : List Glyph) : Language Glyph :=
  {xs | (∃ node, Frames dialect (.expression least node) xs) ∧ Agrees gs xs}

section Sentences

variable {dialect : Dialect} {gs xs ys : List Glyph} {sort : ItemSort} {least : Nat}

/-- A construct that may be nothing. -/
theorem one_le_sentences {β : Type} {construct : β → Construct} (value : β)
    (hFrames : Frames dialect (construct value) []) : 1 ≤ sentences dialect construct := by
  rintro _ rfl
  exact ⟨value, hFrames⟩

theorem expressions_le : expressions dialect least gs ≤ sentences dialect (.expression least) :=
  fun _ hMem => hMem.1

/-- An operand without operators behind it is an expression. -/
theorem Frames.expression_of_operand {node : Node} (hOperand : Frames dialect (.operand node) xs) :
    Frames dialect (.expression least node) xs := by
  have hNone : Frames dialect (.extension least node node) [] :=
    fun r hr => .extensionDone (hr.stops least rfl)
  have hExpression := hOperand.expression hNone
  rwa [List.append_nil] at hExpression

/-- A number is an operand wherever an operand is missing. -/
instance : Completable (operands dialect gs) := by
  refine Completable.mono (L := oneOf (.integer 1)) inferInstance ?_
  rintro _ ⟨text, rfl⟩
  exact ⟨⟨_, .atom rfl text⟩, Or.inl rfl⟩

theorem operands_le : operands dialect gs ≤ expressions dialect least gs := by
  rintro xs ⟨⟨node, hNode⟩, hAgrees⟩
  exact ⟨⟨node, hNode.expression_of_operand⟩, hAgrees⟩

instance : Completable (expressions dialect least gs) := .mono inferInstance operands_le

instance : Completable (sentences dialect (.expression least)) :=
  .mono inferInstance (@expressions_le dialect [] least)

/-- Operands that begin with the glyph at the front, unless that is a
parenthesis. -/
theorem oneOf_mul_le_operands {kind : TokenKind} {L : Language Glyph} (hFront : front gs = kind)
    (hParen : kind ≠ .leftParen)
    (hFrames : ∀ text, ∀ xs ∈ L, ∃ node, Frames dialect (.operand node) (⟨kind, text⟩ :: xs)) :
    oneOf kind * L ≤ operands dialect gs := by
  rintro _ ⟨_, ⟨text, rfl⟩, xs, hMem, rfl⟩
  exact ⟨hFrames text xs hMem, Or.inr ⟨hFront.symm, fun h => absurd (hFront.symm.trans h) hParen⟩⟩

theorem Agrees.append (hAgrees : Agrees gs xs) (hNe : xs ≠ []) (ys : List Glyph) :
    Agrees gs (xs ++ ys) := by
  obtain ⟨glyph, xs, rfl⟩ := List.exists_cons_of_ne_nil hNe
  refine hAgrees.imp id fun hSame => ⟨hSame.1, fun hParen hSelect => ?_⟩
  have hSecond := hSame.2 hParen hSelect
  cases xs with
  | nil => cases hSecond
  | cons second xs => exact hSecond

theorem Frames.ne_nil {construct : Construct} (hFrames : Frames dialect construct xs)
    (hNil : construct.Admits []) (hSolid : construct.isSolid = true) : xs ≠ [] := by
  rintro rfl
  exact absurd ((hFrames [] hNil).length_lt hSolid) (Nat.lt_irrefl _)

end Sentences

/-! ## Parsers of the level below -/

/-- The parsers of the level below are viable. -/
structure Subparsers.Viable (dialect : Dialect) (inner : Subparsers) : Prop where
  sound : inner.Sound dialect
  expressionAt : ∀ (least : Nat) (stream : TokenStream), stream.Closed →
    (inner.expression least).ViableAt stream (expressions dialect least stream.glyphs)
  select : inner.select.Viable (sentences dialect .select)
  source : inner.source.Viable (sentences dialect .source)

theorem Subparsers.Viable.expression {dialect : Dialect} {inner : Subparsers}
    (hInner : inner.Viable dialect) (least : Nat) :
    (inner.expression least).Viable (sentences dialect (.expression least)) :=
  fun stream hClosed => (hInner.expressionAt least stream hClosed).mono expressions_le

/-! ## Lists -/

section Lists

variable {dialect : Dialect} {sort : ItemSort} {item : Parser Node}

theorem one_le_furtherItems : 1 ≤ sentences dialect (.furtherItems sort) :=
  one_le_sentences [] .furtherDone

instance : Completable (sentences dialect (.furtherItems sort)) :=
  Completable.one.mono one_le_furtherItems

theorem viable_furtherItems (hItem : item.Viable (sentences dialect (.item sort))) :
    (furtherItems item).Viable (sentences dialect (.furtherItems sort)) := by
  refine viable_collect (viable_eat_bind (by decide) (by simp) hItem.map (viable_pure none))
    one_le_furtherItems ?_
  rw [add_mul, one_mul, mul_assoc]
  refine add_le ?_ le_rfl
  rintro _ ⟨_, ⟨text, rfl⟩, _, ⟨xs, ⟨node, hNode⟩, ys, ⟨nodes, hNodes⟩, rfl⟩, rfl⟩
  exact ⟨node :: nodes, hNode.furtherMore hNodes text⟩

theorem items_le : sentences dialect (.item sort) * sentences dialect (.furtherItems sort) ≤
    sentences dialect (.items sort) := by
  rintro _ ⟨xs, ⟨node, hNode⟩, ys, ⟨nodes, hNodes⟩, rfl⟩
  exact ⟨node :: nodes, hNode.items hNodes⟩

instance [Completable (sentences dialect (.item sort))] :
    Completable (sentences dialect (.items sort)) := .mono inferInstance items_le

theorem viable_commaSeparated (hItem : item.Viable (sentences dialect (.item sort))) :
    (commaSeparated item).Viable (sentences dialect (.items sort)) :=
  Viable.mono (hItem.bind fun _ => (viable_furtherItems hItem).map) items_le

variable {inner : Subparsers}

theorem expressionItem_le :
    sentences dialect (.expression 0) ≤ sentences dialect (.item .expression) := by
  rintro xs ⟨node, hNode⟩
  exact ⟨node, hNode.expressionItem⟩

instance : Completable (sentences dialect (.item .expression)) :=
  .mono inferInstance expressionItem_le

theorem viable_expressionItem (hInner : inner.Viable dialect) :
    (inner.expression 0).Viable (sentences dialect (.item .expression)) :=
  (hInner.expression 0).mono expressionItem_le

theorem argumentsNone_le : oneOf .rightParen ≤ sentences dialect .arguments := by
  rintro _ ⟨text, rfl⟩
  exact ⟨[], .argumentsNone text⟩

instance : Completable (sentences dialect .arguments) := .mono inferInstance argumentsNone_le

theorem viable_arguments (hInner : inner.Viable dialect) :
    (Production.arguments inner).Viable (sentences dialect .arguments) := by
  have hClose : ∀ items : List Node,
      Viable (do let _ ← expect .rightParen; return items) (oneOf .rightParen) :=
    fun items => viable_expectRightParen.map
  refine Viable.mono (viable_check_bind (by decide) ((viable_pure []).bind hClose)
    ((viable_commaSeparated (viable_expressionItem hInner)).bind hClose)) (add_le ?_ ?_)
  · rw [one_mul]
    exact argumentsNone_le
  · rintro _ ⟨xs, ⟨nodes, hNodes⟩, _, ⟨text, rfl⟩, rfl⟩
    exact ⟨nodes, hNodes.argumentsSome text⟩

theorem target_le :
    sentences dialect (.expression 0) * aliases ≤ sentences dialect (.item .target) := by
  rintro _ ⟨xs, ⟨node, hNode⟩, ys, hAlias, rfl⟩
  obtain ⟨aliased, hAliased⟩ := hAlias node
  exact ⟨aliased, hNode.target hAliased⟩

instance : Completable (sentences dialect (.item .target)) := .mono inferInstance target_le

theorem viable_target (hInner : inner.Viable dialect) :
    (Grammar.target inner).Viable (sentences dialect (.item .target)) :=
  ((hInner.expression 0).bind viable_applyAlias).mono target_le

theorem entry_le : sentences dialect (.expression 0) * (spans Directed (Neither .ASC .DESC) *
    spans Placed (Neither .NULLS_FIRST .NULLS_LAST)) ≤ sentences dialect (.item .entry) := by
  rintro _ ⟨xs, ⟨field, hField⟩, _, ⟨ys, ⟨direction, hDirection⟩, zs, ⟨nulls, hNulls⟩, rfl⟩, rfl⟩
  exact ⟨_, hField.entry (fun r hAsc hDesc => hDirection r ⟨hAsc, hDesc⟩)
    fun r hFirst hLast => hNulls r ⟨hFirst, hLast⟩⟩

instance : Completable (sentences dialect (.item .entry)) := .mono inferInstance entry_le

theorem viable_orderingEntry (hInner : inner.Viable dialect) :
    (Grammar.orderingEntry inner).Viable (sentences dialect (.item .entry)) :=
  Viable.mono ((hInner.expression 0).bind fun _ => viable_direction.bind fun _ =>
    viable_nullPlacement.map) entry_le

end Lists

/-! ## Clauses and queries -/

section Clauses

variable {dialect : Dialect} {inner : Subparsers} {word : Keyword} {sort : ItemSort}

theorem one_le_clause : 1 ≤ sentences dialect (.clause word) := one_le_sentences none .clauseNone

instance : Completable (sentences dialect (.clause word)) := Completable.one.mono one_le_clause

theorem viable_clause (hInner : inner.Viable dialect) (word : Keyword) :
    (Grammar.clause word (inner.expression 0)).Viable (sentences dialect (.clause word)) := by
  refine Viable.mono (viable_eatKeyword_bind (hInner.expression 0).map (viable_pure none))
    (add_le ?_ one_le_clause)
  rintro _ ⟨_, ⟨text, rfl⟩, xs, ⟨node, hNode⟩, rfl⟩
  exact ⟨some node, hNode.clauseSome text⟩

theorem one_le_listClause : 1 ≤ sentences dialect (.listClause word sort) :=
  one_le_sentences [] .listClauseNone

instance : Completable (sentences dialect (.listClause word sort)) :=
  Completable.one.mono one_le_listClause

theorem viable_listClause {item : Parser Node} (word : Keyword)
    (hItem : item.Viable (sentences dialect (.item sort))) :
    (Grammar.clause word (commaSeparated item)).Viable
      (sentences dialect (.listClause word sort)) := by
  refine Viable.mono (viable_eatKeyword_bind (viable_commaSeparated hItem).map (viable_pure none))
    (add_le ?_ one_le_listClause)
  rintro _ ⟨_, ⟨text, rfl⟩, xs, ⟨nodes, hNodes⟩, rfl⟩
  exact ⟨nodes, hNodes.listClauseSome text⟩

/-- The glyphs of a row of joins, whatever they join to. -/
def joinRows (dialect : Dialect) : Language Glyph :=
  {xs | ∀ left, ∃ node, Frames dialect (.joins left node) xs}

/-- The glyphs of one join, or of none. -/
def joinSteps (dialect : Dialect) : Language Glyph :=
  {xs | ∀ left, ∃ further, ∀ node ys, Frames dialect (.joins further node) ys →
    Frames dialect (.joins left node) (xs ++ ys)}

theorem one_le_joinRows : 1 ≤ joinRows dialect := by
  rintro _ rfl left
  exact ⟨left, .joinsDone⟩

instance : Completable (joinRows dialect) := Completable.one.mono one_le_joinRows

theorem joinSteps_mul_le : joinSteps dialect * joinRows dialect ≤ joinRows dialect := by
  rintro _ ⟨xs, hStep, ys, hRow, rfl⟩ left
  obtain ⟨further, hFrames⟩ := hStep left
  obtain ⟨node, hNode⟩ := hRow further
  exact ⟨node, hFrames node ys hNode⟩

theorem Grammar.eq_comma_of_joinKind? {kind : TokenKind} (hJoin : joinKind? kind = some .comma) :
    kind = .comma := by
  unfold joinKind? at hJoin
  split at hJoin <;> first | rfl | cases hJoin

theorem viable_extendSources (hInner : inner.Viable dialect) (left : Node) :
    (Grammar.extendSources inner left).Viable (joinSteps dialect) := by
  intro stream hClosed
  refine viableAt_current_bind fun token hToken => ?_
  have hFront : front stream.glyphs = token.kind := by rw [hToken, hClosed.kind_current]
  cases hJoin : Grammar.joinKind? token.kind with
  | none =>
    refine ((viable_pure none).viableAt hClosed).mono ?_
    rintro _ rfl left
    exact ⟨left, fun _ _ => id⟩
  | some join =>
    have hKind : token.kind ≠ .finish := by
      intro hFinish
      rw [hFinish] at hJoin
      cases hJoin
    by_cases hComma : join = .comma
    · subst hComma
      refine (viableAt_advance_bind hFront hKind ((hInner.source.bind fun _ =>
        (show (Grammar.joinCondition inner .comma).Viable 1 from viable_pure none).map).viableAt
          hClosed.advance)).mono ?_
      rintro _ ⟨_, ⟨text, rfl⟩, _, ⟨xs, ⟨right, hRight⟩, _, rfl, rfl⟩, rfl⟩ left
      refine ⟨.ofForm (.join left right .comma none), fun node ys hNode => ?_⟩
      simpa [Grammar.eq_comma_of_joinKind? hJoin] using hRight.joinsComma hNode text
    · have hCondition :
          (Grammar.joinCondition inner join).Viable (sentences dialect (.clause .ON)) := by
        rw [Grammar.joinCondition, if_neg (by simpa using hComma)]
        exact viable_clause hInner .ON
      refine (viableAt_advance_bind hFront hKind ((hInner.source.bind fun _ =>
        hCondition.map).viableAt hClosed.advance)).mono ?_
      rintro _ ⟨_, ⟨text, rfl⟩, _, ⟨xs, ⟨right, hRight⟩, zs, ⟨condition, hOn⟩, rfl⟩, rfl⟩ left
      refine ⟨.ofForm (.join left right join condition), fun node ys hNode => ?_⟩
      simpa using Frames.joinsMore hJoin hComma hRight hOn hNode text

theorem one_le_sourceClause : 1 ≤ sentences dialect .sourceClause :=
  one_le_sentences none .sourceClauseNone

instance : Completable (sentences dialect .sourceClause) :=
  Completable.one.mono one_le_sourceClause

theorem viable_sourceClause (hInner : inner.Viable dialect) :
    (Grammar.clause .FROM (Grammar.sources inner)).Viable (sentences dialect .sourceClause) := by
  have hSources : (Grammar.sources inner).Viable (sentences dialect .source * joinRows dialect) :=
    hInner.source.bind
      (viable_iterate (viable_extendSources hInner) one_le_joinRows joinSteps_mul_le)
  refine Viable.mono (viable_eatKeyword_bind hSources.map (viable_pure none))
    (add_le ?_ one_le_sourceClause)
  rintro _ ⟨_, ⟨text, rfl⟩, _, ⟨xs, ⟨first, hFirst⟩, ys, hJoins, rfl⟩, rfl⟩
  obtain ⟨node, hNode⟩ := hJoins first
  exact ⟨some node, hFirst.sourceClauseSome hNode text⟩

theorem select_le :
    oneOf (.keyword .SELECT) * (spans Distinctness (Neither .DISTINCT .ALL) *
      (sentences dialect (.items .target) * (sentences dialect .sourceClause *
      (sentences dialect (.clause .WHERE) * (sentences dialect (.listClause .GROUP_BY .expression) *
      (sentences dialect (.clause .HAVING) * (sentences dialect (.listClause .ORDER_BY .entry) *
      (sentences dialect (.clause .LIMIT) * sentences dialect (.clause .OFFSET))))))))) ≤
        sentences dialect .select := by
  rintro _ ⟨_, ⟨text, rfl⟩, _, ⟨g₁, ⟨distinct, hDistinct⟩, _, ⟨g₂, ⟨targets, hTargets⟩, _,
    ⟨g₃, ⟨source, hSource⟩, _, ⟨g₄, ⟨condition, hCondition⟩, _, ⟨g₅, ⟨groups, hGroups⟩, _,
    ⟨g₆, ⟨having, hHaving⟩, _, ⟨g₇, ⟨ordering, hOrdering⟩, _, ⟨g₈, ⟨limit, hLimit⟩, g₉,
    ⟨offset, hOffset⟩, rfl⟩, rfl⟩, rfl⟩, rfl⟩, rfl⟩, rfl⟩, rfl⟩, rfl⟩, rfl⟩
  have hSelect : Frames dialect (.select (.ofForm (.select
      { distinct, targets, source, condition, groups, having, ordering, limit, offset }))) _ :=
    .select (fun r hFirst hSecond => hDistinct r ⟨hFirst, hSecond⟩) hTargets hSource hCondition
      hGroups hHaving hOrdering hLimit hOffset text
  exact ⟨_, hSelect⟩

instance : Completable (sentences dialect .select) := .mono inferInstance select_le

theorem viable_selectWith (hInner : inner.Viable dialect) :
    (Grammar.selectWith inner).Viable (sentences dialect .select) := by
  refine Viable.mono ((viable_expectKeyword .SELECT).bind fun _ => viable_distinctness.bind fun _ =>
    (viable_commaSeparated (viable_target hInner)).bind fun targets =>
    (viable_ofStructural (Query.ofTargets? targets)).bind fun query =>
    (viable_sourceClause hInner).bind fun _ =>
    (viable_clause hInner .WHERE).bind fun _ =>
    (viable_listClause .GROUP_BY (viable_expressionItem hInner)).bind fun _ =>
    (viable_clause hInner .HAVING).bind fun _ =>
    (viable_listClause .ORDER_BY (viable_orderingEntry hInner)).bind fun ordering =>
    (viable_ofStructural (query.withOrdering? (ordering.getD []))).bind fun _ =>
    (viable_clause hInner .LIMIT).bind fun _ => (viable_clause hInner .OFFSET).map) ?_
  rw [one_mul, one_mul]
  exact select_le

end Clauses

/-! ## Operands -/

section Operands

variable {dialect : Dialect} {inner : Subparsers} {stream : TokenStream}

theorem ne_of_atom? {kind other : TokenKind} {node : Node}
    (hAtom : dialect.atom? kind = some node) (hNone : dialect.atom? other = none) :
    kind ≠ other := by
  rintro rfl
  cases hNone.symm.trans hAtom

/-- A token that is an operand on its own. -/
theorem viableAt_atom {node : Node} (hClosed : stream.Closed)
    (hAtom : dialect.atom? stream.current.kind = some node) :
    ViableAt (do let _ ← advance; return node) stream (operands dialect stream.glyphs) := by
  have hFront := hClosed.kind_current.symm
  have hViable : ViableAt (do let _ ← advance; return node) stream (oneOf _ * 1) :=
    viableAt_advance_bind hFront (ne_of_atom? hAtom rfl)
      ((viable_pure node).viableAt hClosed.advance)
  refine hViable.mono (oneOf_mul_le_operands hFront (ne_of_atom? hAtom rfl) ?_)
  rintro text _ rfl
  exact ⟨node, .atom hAtom text⟩

theorem viableAt_literal (hClosed : stream.Closed) :
    (Production.literal.reduce inner).ViableAt stream (operands dialect stream.glyphs) := by
  refine viableAt_current_bind fun token hToken => ?_
  split
  · next value hKind => exact viableAt_atom hClosed (by rw [← hToken, hKind]; rfl)
  · next value hKind => exact viableAt_atom hClosed (by rw [← hToken, hKind]; rfl)
  · next value hKind => exact viableAt_atom hClosed (by rw [← hToken, hKind]; rfl)
  · exact viable_unexpected _ stream hClosed

theorem viableAt_keywordLiteral (hClosed : stream.Closed) :
    (Production.keywordLiteral.reduce inner).ViableAt stream (operands dialect stream.glyphs) := by
  have hAtom : ∀ {word : Keyword} {node : Node}, stream.current.keyword? = some word →
      dialect.atom? (.keyword word) = some node →
      ViableAt (do let _ ← advance; return node) stream (operands dialect stream.glyphs) := by
    intro word node hWord hNode
    exact viableAt_atom hClosed (by rw [Token.keyword?_eq_some_iff.1 hWord, hNode])
  refine viableAt_current_bind fun token hToken => ?_
  split
  · next hWord => exact hAtom (hToken ▸ hWord) rfl
  · next hWord => exact hAtom (hToken ▸ hWord) rfl
  · next hWord => exact hAtom (hToken ▸ hWord) rfl
  · exact viable_unexpected _ stream hClosed

/-- A mark that is an operand on its own. -/
theorem viableAt_mark {kind : TokenKind} {node : Node} (hClosed : stream.Closed)
    (hFront : front stream.glyphs = kind) (hPlain : kind ∈ TokenKind.plain)
    (hAtom : dialect.atom? kind = some node) :
    ViableAt (do let _ ← expect kind; return node) stream (operands dialect stream.glyphs) := by
  have hViable : ViableAt (do let _ ← expect kind; return node) stream (oneOf kind * 1) :=
    viableAt_demand_bind (tests_check hPlain hClosed) hFront (ne_of_atom? hAtom rfl)
      ((viable_pure node).viableAt hClosed.advance)
  refine hViable.mono (oneOf_mul_le_operands hFront (ne_of_atom? hAtom rfl) ?_)
  rintro text _ rfl
  exact ⟨node, .atom hAtom text⟩

theorem TokenKind.exists_of_isIdentifier {kind : TokenKind} (hName : kind.isIdentifier = true) :
    ∃ value quote, kind = .identifier value quote := by
  cases kind <;> first | exact ⟨_, _, rfl⟩ | cases hName

theorem viableAt_columnOrCall (hInner : inner.Viable dialect) (hClosed : stream.Closed)
    (hStarts : stream.current.kind.isIdentifier = true) :
    (Production.columnOrCall.reduce inner).ViableAt stream (operands dialect stream.glyphs) := by
  obtain ⟨value, quote, hKind⟩ := TokenKind.exists_of_isIdentifier hStarts
  have hFront : front stream.glyphs = .identifier value quote :=
    hClosed.kind_current.symm.trans hKind
  cases quote with
  | some quote =>
    refine (viableAt_advance_bind hFront (by simp) (L := 1) ?_).mono
      (oneOf_mul_le_operands hFront (by simp) ?_)
    · rw [hKind]
      exact viable_pure _ _ hClosed.advance
    · rintro text _ rfl
      exact ⟨_, .atom rfl text⟩
  | none =>
    refine (viableAt_advance_bind hFront (by simp) (L := oneOf .leftParen *
      (oneOf (.keyword .DISTINCT) * sentences dialect .arguments +
        sentences dialect .arguments) + 1) ?_).mono (oneOf_mul_le_operands hFront (by simp) ?_)
    · rw [hKind]
      have hArguments : ∀ distinct, Viable (do
          let args ← Production.arguments inner
          return Node.call value args distinct) (sentences dialect .arguments) :=
        fun distinct => (viable_arguments hInner).map
      refine Viable.viableAt ?_ hClosed.advance
      exact viable_eat_bind (by decide) (by simp)
        (viable_eatKeyword_bind (hArguments true) (hArguments false)) (viable_pure _)
    · rintro text _ (⟨_, ⟨text', rfl⟩, _, ⟨_, ⟨text'', rfl⟩, xs, ⟨args, hArgs⟩, rfl⟩ |
        ⟨args, hArgs⟩, rfl⟩ | rfl)
      · exact ⟨_, .call (fun _ _ => .present) hArgs text text'⟩
      · exact ⟨_, .call (fun _ hr => .absent hr) hArgs text text'⟩
      · exact ⟨_, .column value text⟩

theorem viableAt_parenthesized (hInner : inner.Viable dialect) (hClosed : stream.Closed)
    (hFront : front stream.glyphs = .leftParen) :
    (Production.parenthesized.reduce inner).ViableAt stream (operands dialect stream.glyphs) := by
  refine (viableAt_demand_bind (tests_check (by decide) hClosed) hFront (by simp)
    (L := {xs | ∀ text, ⟨.leftParen, text⟩ :: xs ∈ operands dialect stream.glyphs}) ?_).mono ?_
  · refine viableAt_test_bind (tests_checkKeyword .SELECT hClosed.advance) (fun hSelect => ?_)
      fun hSelect => ?_
    · refine ((hInner.select.bind fun query => viable_expectRightParen.map).viableAt
        hClosed.advance).mono ?_
      rintro _ ⟨xs, ⟨node, hNode⟩, _, ⟨text', rfl⟩, rfl⟩ text
      refine ⟨⟨_, hNode.subquery text text'⟩, Or.inr ⟨hFront.symm, fun _ _ => ?_⟩⟩
      exact beq_iff_eq.1 ((hNode.before ⟨.rightParen, text'⟩ [] ⟨rfl, rfl⟩).opens_of_solid rfl)
    · refine (((hInner.expression 0).bind fun first => viable_check_bind (by decide)
        ((viable_furtherItems (viable_expressionItem hInner)).bind
          fun further => viable_expectRightParen.map)
        viable_expectRightParen.map).viableAt hClosed.advance).mono ?_
      have hAgrees : ∀ text xs, Agrees stream.glyphs (⟨.leftParen, text⟩ :: xs) := fun text xs =>
        Or.inr ⟨hFront.symm, fun _ h => absurd (by rwa [TokenStream.glyphs_advance]) hSelect⟩
      rintro _ ⟨xs, ⟨first, hFirst⟩, _, ⟨ys, ⟨nodes, hNodes⟩, _, ⟨text', rfl⟩, rfl⟩ | ⟨text', rfl⟩,
        rfl⟩ text
      · cases nodes with
        | nil =>
          obtain rfl : ys = [] := by
            simpa using (hNodes.before ⟨.rightParen, text'⟩ [] ⟨rfl, rfl⟩).eq_of_furtherItems_nil
          exact ⟨⟨_, hFirst.grouped text text'⟩, hAgrees _ _⟩
        | cons second further =>
          refine ⟨⟨.tuple (first :: second :: further), ?_⟩, hAgrees _ _⟩
          simpa using hFirst.tuple hNodes text text'
      · exact ⟨⟨_, hFirst.grouped text text'⟩, hAgrees _ _⟩
  · rintro _ ⟨_, ⟨text, rfl⟩, xs, hMem, rfl⟩
    exact hMem text

theorem viableAt_typeCast (hInner : inner.Viable dialect) (hClosed : stream.Closed)
    (hFront : front stream.glyphs = .keyword .CAST) :
    (Production.typeCast.reduce inner).ViableAt stream (operands dialect stream.glyphs) := by
  refine (viableAt_demand_bind (tests_checkKeyword .CAST hClosed) hFront (by simp)
    (((viable_expect (by decide) (by simp)).bind fun _ => (hInner.expression 0).bind
      fun arg => (viable_expectKeyword .AS).bind fun _ => viable_typeName.bind
        fun name => viable_expectRightParen.map).viableAt hClosed.advance)).mono
          (oneOf_mul_le_operands hFront (by simp) ?_)
  rintro text _ ⟨_, ⟨text', rfl⟩, _, ⟨xs, ⟨arg, hArg⟩, _, ⟨_, ⟨text'', rfl⟩, _,
    ⟨ys, ⟨name, hName⟩, _, ⟨close, rfl⟩, rfl⟩, rfl⟩, rfl⟩, rfl⟩
  exact ⟨_, hArg.typeCast hName text text' text'' close⟩

/-! ### Case distinctions -/

/-- A rule of a case distinction. -/
def caseRules (dialect : Dialect) : Language Glyph :=
  oneOf (.keyword .WHEN) * (sentences dialect (.expression 0) *
    (oneOf (.keyword .THEN) * sentences dialect (.expression 0)))

instance : Completable (caseRules dialect) :=
  inferInstanceAs (Completable (oneOf _ * (sentences _ _ * (oneOf _ * sentences _ _))))

theorem viable_caseRule (hInner : inner.Viable dialect) :
    (Production.caseRule inner).Viable (caseRules dialect + 1) :=
  viable_eatKeyword_bind ((hInner.expression 0).bind fun _ =>
    (viable_expectKeyword .THEN).bind fun _ => (hInner.expression 0).map) (viable_pure none)

theorem viableAt_caseRule (hInner : inner.Viable dialect) (hClosed : stream.Closed)
    (hFront : front stream.glyphs = .keyword .WHEN) :
    (Production.caseRule inner).ViableAt stream (caseRules dialect) := by
  refine (viableAt_eatIf_bind (M := 0) (tests_checkKeyword .WHEN hClosed) (by simp) (fun _ => ?_)
    fun hOther => absurd hFront hOther).mono (add_zero _).le
  exact ((hInner.expression 0).bind fun _ => (viable_expectKeyword .THEN).bind fun _ =>
    (hInner.expression 0).map).viableAt hClosed.advance

/-- A rule before others. -/
theorem caseRules_mul_le : caseRules dialect * sentences dialect .rules ≤
    sentences dialect fun rules : (Node × Node) × List (Node × Node) =>
      .rules (rules.1 :: rules.2) := by
  rintro _ ⟨_, ⟨_, ⟨text, rfl⟩, _, ⟨xs, ⟨condition, hCondition⟩, _, ⟨_, ⟨text', rfl⟩, ys,
    ⟨result, hResult⟩, rfl⟩, rfl⟩, rfl⟩, zs, ⟨rules, hRules⟩, rfl⟩
  refine ⟨((condition, result), rules), ?_⟩
  simpa using hCondition.rulesMore hResult hRules text text'

theorem caseRules_mul_le_rules :
    caseRules dialect * sentences dialect .rules ≤ sentences dialect .rules := by
  intro xs hMem
  obtain ⟨rules, hRules⟩ := caseRules_mul_le hMem
  exact ⟨_, hRules⟩

theorem one_le_rules : 1 ≤ sentences dialect .rules := one_le_sentences [] .rulesDone

instance : Completable (sentences dialect .rules) := Completable.one.mono one_le_rules

theorem viableAt_caseWhen (hInner : inner.Viable dialect) (hClosed : stream.Closed)
    (hFront : front stream.glyphs = .keyword .CASE) :
    (Production.caseWhen.reduce inner).ViableAt stream (operands dialect stream.glyphs) := by
  refine (viableAt_demand_bind (tests_checkKeyword .CASE hClosed) hFront (by simp)
    (L := caseRules dialect * sentences dialect .rules *
      (sentences dialect (.clause .ELSE) * (oneOf (.keyword .END) * 1)))
    (viableAt_test_bind (tests_checkKeyword .WHEN hClosed.advance) (fun hWhen => ?_)
      fun _ => viable_unexpected _ _ hClosed.advance)).mono
        (oneOf_mul_le_operands hFront (by simp) ?_)
  · refine ((viableAt_caseRule hInner hClosed.advance hWhen).collect hClosed.advance
      (viable_caseRule hInner) one_le_rules ?_).then hClosed.advance fun rules =>
        (viable_clause hInner .ELSE).bind fun default => (viable_expectKeyword .END).bind
          fun _ => viable_ofStructural _
    rw [add_mul, one_mul]
    exact add_le caseRules_mul_le_rules le_rfl
  · rintro text _ ⟨_, hRules, _, ⟨ys, ⟨default, hDefault⟩, _, ⟨_, ⟨text', rfl⟩, _, rfl, rfl⟩,
      rfl⟩, rfl⟩
    obtain ⟨⟨rule, rules⟩, hRules⟩ := caseRules_mul_le hRules
    refine ⟨.ofForm (.caseWhen (rule :: rules) default), ?_⟩
    simpa using Frames.caseWhen hRules hDefault text text'

/-! ### Choice of a production -/

/-- The kind of token that starts a production, where it is one only. -/
theorem Production.eq_of_starts {production : Production} {kind other : TokenKind}
    (hMem : (production, other) ∈ [(placeholder, .question), (everything, .star),
      (parenthesized, .leftParen), (typeCast, .keyword .CAST), (caseWhen, .keyword .CASE),
      (subquery, .leftParen)])
    (hStarts : production.starts kind = true) : kind = other := by
  simp only [List.mem_cons, Prod.mk.injEq, List.not_mem_nil, or_false] at hMem
  rcases hMem with ⟨rfl, rfl⟩ | ⟨rfl, rfl⟩ | ⟨rfl, rfl⟩ | ⟨rfl, rfl⟩ | ⟨rfl, rfl⟩ | ⟨rfl, rfl⟩ <;>
    simp only [placeholder, everything, parenthesized, typeCast, caseWhen, subquery] at hStarts <;>
    split at hStarts <;> first | rfl | cases hStarts

theorem viableAt_operandVariable (hClosed : stream.Closed) :
    ((Production.variableName .operand).reduce inner).ViableAt stream
      (operands .mysql stream.glyphs) := by
  refine viableAt_current_bind fun token hToken => ?_
  split
  · next name hKind => exact viableAt_atom hClosed (by rw [← hToken, hKind]; rfl)
  · next name hKind => exact viableAt_atom hClosed (by rw [← hToken, hKind]; rfl)
  · exact viable_unexpected _ stream hClosed

namespace Grammar

/-- A symbol derives viably if each of its productions does where it starts. -/
theorem viableAt_derive {grammar : Grammar} {symbol : Symbol} {expected : String}
    {L : Language Glyph} [Completable L] (hClosed : stream.Closed)
    (hAll : ∀ production ∈ grammar.alternatives symbol,
      production.starts (front stream.glyphs) = true →
        (production.reduce inner).ViableAt stream L) :
    (grammar.derive symbol expected inner).ViableAt stream L := by
  refine viableAt_current_bind fun token hToken => ?_
  split
  · next production hFound =>
    rw [Grammar.production?] at hFound
    refine hAll production (List.mem_of_find?_eq_some hFound) ?_
    rw [← hClosed.kind_current, ← hToken]
    exact List.find?_some (p := fun (other : Production) => other.starts token.kind) hFound
  · exact viable_unexpected _ stream hClosed

theorem viableAt_derive_operand (hInner : inner.Viable dialect) (hClosed : stream.Closed)
    (expected : String) :
    (dialect.grammar.derive .operand expected inner).ViableAt stream
      (operands dialect stream.glyphs) := by
  refine viableAt_derive hClosed fun production hMem hStarts => ?_
  rcases mem_alternatives_operand hMem with hShared | ⟨rfl, rfl⟩
  · simp only [List.mem_cons, List.not_mem_nil, or_false] at hShared
    rcases hShared with rfl | rfl | rfl | rfl | rfl | rfl | rfl | rfl
    · exact viableAt_literal hClosed
    · exact viableAt_keywordLiteral hClosed
    · exact viableAt_mark hClosed (Production.eq_of_starts (by simp) hStarts) (by decide) rfl
    · exact viableAt_columnOrCall hInner hClosed (hClosed.kind_current ▸ hStarts)
    · exact viableAt_mark hClosed (Production.eq_of_starts (by simp) hStarts) (by decide) rfl
    · exact viableAt_parenthesized hInner hClosed (Production.eq_of_starts (by simp) hStarts)
    · exact viableAt_typeCast hInner hClosed (Production.eq_of_starts (by simp) hStarts)
    · exact viableAt_caseWhen hInner hClosed (Production.eq_of_starts (by simp) hStarts)
  · exact viableAt_operandVariable hClosed

theorem viableAt_operand (hInner : inner.Viable dialect) (hClosed : stream.Closed) :
    (dialect.grammar.operand inner).ViableAt stream (operands dialect stream.glyphs) := by
  refine viableAt_current_bind fun token hToken => ?_
  rw [dialect.precedence_grammar, PrecedenceTable.prefixPower?_base]
  cases hClass : token.kind.prefixClass? with
  | none => exact viableAt_derive_operand hInner hClosed _
  | some operator =>
    have hFront : front stream.glyphs = token.kind := by rw [hToken, hClosed.kind_current]
    have hNe : ∀ other : TokenKind, other.prefixClass? = none → token.kind ≠ other := by
      rintro other hNone rfl
      cases hNone.symm.trans hClass
    refine (viableAt_advance_bind hFront (hNe _ rfl) (((hInner.expression 11).bind fun arg =>
      viable_ofStructural _).viableAt hClosed.advance)).mono
        (oneOf_mul_le_operands hFront (hNe _ rfl) ?_)
    rintro text _ ⟨xs, ⟨arg, hArg⟩, _, rfl, rfl⟩
    refine ⟨.unary text arg, ?_⟩
    simpa using hArg.unary hClass text

end Grammar

end Operands

/-! ## Operations -/

/-- The glyphs of an operation before an operator that binds less tightly than
`k`, whatever its left operand. -/
def operations (dialect : Dialect) (operator : OperatorClass) (k : Nat) : Language Glyph :=
  {xs | ∀ left, ∃ node, ∀ r, front r ≠ .leftParen → Stops k r →
    Derives dialect (.operation left operator node) (xs ++ r) r}

/-- The glyphs of an operator that may be negated. -/
def negatableWords (word : Keyword) : Language Glyph :=
  spans (fun value : Bool × String => NegatableWord word value.1 value.2) fun _ => True

section Operations

variable {dialect : Dialect} {inner : Subparsers} {stream : TokenStream}
  {operator : OperatorClass} {xs : List Glyph}

theorem mem_operations
    (hFrames : ∀ left, ∃ node, Frames dialect (.operation left operator node) xs) :
    xs ∈ operations dialect operator (2 * operator.rank + 2) := by
  intro left
  obtain ⟨node, hNode⟩ := hFrames left
  exact ⟨node, fun r hFront hStops => hNode r ⟨bne_iff_ne.2 hFront, fun _ hMem =>
    Option.some.inj hMem ▸ hStops⟩⟩

theorem NegatableWord.unique {word : Keyword} {negated negated' : Bool} {op op' : String}
    {gs hs hs' : List Glyph} (hFirst : NegatableWord word negated op gs hs)
    (hSecond : NegatableWord word negated' op' gs hs') (hWord : word ≠ .NOT) : hs = hs' := by
  cases hFirst <;> cases hSecond <;> first | rfl | exact absurd rfl hWord

namespace Grammar

theorem viableAt_negatableOperator {word : Keyword} (hWord : word ≠ .NOT) (hClosed : stream.Closed)
    (hFront : front stream.glyphs = .keyword word ∨
      front stream.glyphs = .keyword .NOT ∧ front stream.glyphs.tail = .keyword word) :
    negatableOperator.ViableAt stream (negatableWords word) := by
  have hNot : ∀ {word : Keyword}, front stream.glyphs = .keyword word →
      stream.current.keyword? = some word := by
    intro word hFront
    rw [Token.keyword?_eq_some_iff, hClosed.kind_current, hFront]
  rcases hFront with hFront | ⟨hFront, hSecond⟩
  · refine (viableAt_advance_bind hFront (by simp) (L := 1) ?_).mono ?_
    · rw [hNot hFront, if_neg (by simpa using hWord)]
      exact (viable_pure _).viableAt hClosed.advance
    · rintro _ ⟨_, ⟨text, rfl⟩, _, rfl, rfl⟩
      exact ⟨(false, text), fun r _ => .plain⟩
  · refine (viableAt_advance_bind hFront (by simp) (L := oneOf (.keyword word)) ?_).mono ?_
    · rw [hNot hFront, if_pos (by simp)]
      exact viableAt_take (by rw [TokenStream.glyphs_advance, hSecond]) (by simp)
    · rintro _ ⟨_, ⟨text, rfl⟩, _, ⟨text', rfl⟩, rfl⟩
      exact ⟨(true, text ++ " " ++ text'), fun r _ => .negated⟩

/-- An operator that may be negated, and what follows it. -/
theorem viableAt_negatable_bind {α : Type} (word : Keyword) {q : Bool × String → Parser α}
    {L : Language Glyph} [Completable L] (hClosed : stream.Closed)
    (hMem : (operator, word) ∈ [(.membership, .IN), (.likeness, .LIKE), (.range, .BETWEEN)])
    (hClass : Glyph.operator? stream.glyphs = some operator)
    (hNext : ∀ value rest, rest.Closed →
      NegatableWord word value.1 value.2 stream.glyphs rest.glyphs → (q value).ViableAt rest L) :
    (negatableOperator >>= q).ViableAt stream (negatableWords word * L) := by
  have hWord : word ≠ .NOT := by
    rintro rfl
    simp at hMem
  have hFront := front_of_operator? hMem hClass
  refine (viableAt_negatableOperator hWord hClosed hFront).bind fun value rest hRun => ?_
  obtain ⟨hLast, hNegatable⟩ := sound_negatableOperator word hWord hClosed hRun
  exact hNext value rest (by rw [TokenStream.Closed, hLast]; exact hClosed) (hNegatable hFront)

/-- An operator of one token and its right operand. -/
theorem viableAt_simpleOperation (hInner : inner.Viable dialect) (hClosed : stream.Closed)
    {left : Node} (hSimple : operator.isSimple = true)
    (hClass : Glyph.operator? stream.glyphs = some operator) :
    ViableAt (do
      let op ← advance
      let right ← inner.expression (2 * operator.rank + 2)
      ofStructural (Node.binary? op.lexeme [left, right])) stream
        (operations dialect operator (2 * operator.rank + 2)) := by
  have hAlone := TokenKind.infixClass?_finish hClass hSimple
  refine (viableAt_advance_bind rfl (TokenKind.ne_finish_of_infixClass? hAlone)
    (((hInner.expression _).bind fun right => viable_ofStructural _).viableAt
      hClosed.advance)).mono ?_
  rintro _ ⟨_, ⟨text, rfl⟩, _, ⟨xs, ⟨right, hRight⟩, _, rfl, rfl⟩, rfl⟩
  refine mem_operations fun left => ⟨.binary text left right, ?_⟩
  simpa using hRight.binary hSimple hAlone text

/-- Expressions that do not begin with a negation. -/
def unnegated (dialect : Dialect) : Language Glyph :=
  {xs | (∃ node, Frames dialect (.expression 6 node) xs) ∧ front xs ≠ .keyword .NOT}

theorem viableAt_identity (hInner : inner.Viable dialect) (hClosed : stream.Closed) {left : Node}
    (hClass : Glyph.operator? stream.glyphs = some .identity) :
    (infixOperation inner left .identity 6).ViableAt stream (operations dialect .identity 6) := by
  have hFront := TokenKind.eq_of_infixClass?_identity hClass
  refine (viableAt_advance_bind hFront (by simp) (L := oneOf (.keyword .NOT) *
    sentences dialect (.expression 6) + unnegated dialect) (viableAt_eatIf_bind
      (tests_checkKeyword .NOT hClosed.advance) (by simp)
      (fun _ => (hInner.expression 6).map.viableAt hClosed.advance.advance) fun hNot => ?_)).mono ?_
  · refine ((hInner.expressionAt 6 _ hClosed.advance).map hClosed.advance).mono ?_
    rintro xs ⟨hNode, hAgrees⟩
    refine ⟨hNode, fun hFront => ?_⟩
    rcases hAgrees with hOne | ⟨hSame, -⟩
    · cases hOne.symm.trans hFront
    · exact hNot (hSame.symm.trans hFront)
  · rintro _ ⟨_, ⟨text, rfl⟩, _, ⟨_, ⟨text', rfl⟩, xs, ⟨right, hRight⟩, rfl⟩ |
      ⟨⟨right, hRight⟩, hNot⟩, rfl⟩
    · exact mem_operations fun left => ⟨_, hRight.identity [_] (fun _ => .present) text⟩
    · refine mem_operations fun left => ⟨_, hRight.identity [] (fun r => .absent ?_) text⟩
      obtain ⟨glyph, xs, rfl⟩ :=
        List.exists_cons_of_ne_nil (hRight.ne_nil (admits_expression rfl) rfl)
      exact hNot

theorem viableAt_likeness (hInner : inner.Viable dialect) (hClosed : stream.Closed) {left : Node}
    (hClass : Glyph.operator? stream.glyphs = some .likeness) :
    (infixOperation inner left .likeness 6).ViableAt stream (operations dialect .likeness 6) := by
  refine (viableAt_negatable_bind .LIKE hClosed (by simp) hClass fun value rest hRest _ =>
    (hInner.expression 6).map.viableAt hRest).mono ?_
  rintro _ ⟨xs, ⟨⟨negated, op⟩, hWord⟩, ys, ⟨right, hRight⟩, rfl⟩
  exact mem_operations fun left => ⟨_, .likeness (fun r => hWord r trivial) hRight⟩

theorem viableAt_range (hInner : inner.Viable dialect) (hClosed : stream.Closed) {left : Node}
    (hClass : Glyph.operator? stream.glyphs = some .range) :
    (infixOperation inner left .range 6).ViableAt stream (operations dialect .range 6) := by
  refine (viableAt_negatable_bind .BETWEEN hClosed (by simp) hClass fun value rest hRest _ =>
    ((hInner.expression 6).bind fun _ => (viable_expectKeyword .AND).bind fun _ =>
      (hInner.expression 6).bind fun _ => viable_ofStructural _).viableAt hRest).mono ?_
  rintro _ ⟨xs, ⟨⟨negated, op⟩, hWord⟩, _, ⟨ys, ⟨low, hLow⟩, _, ⟨_, ⟨text, rfl⟩, _,
    ⟨zs, ⟨high, hHigh⟩, _, rfl, rfl⟩, rfl⟩, rfl⟩, rfl⟩
  refine mem_operations fun left => ⟨.between left low high negated, ?_⟩
  simpa using Frames.range (fun r => hWord r trivial) hLow hHigh text

/-- A list to the right of a membership test. -/
theorem viableAt_membershipList (hInner : inner.Viable dialect) (hClosed : stream.Closed)
    (hFront : front stream.glyphs = .leftParen)
    (hSecond : front stream.glyphs.tail ≠ .keyword .SELECT) (power : Nat) :
    (membershipOperand inner power).ViableAt stream
      (oneOf .leftParen * sentences dialect .arguments) := by
  refine viableAt_test_bind (tests_check (by decide) hClosed) (fun _ => ?_)
    fun hOther => absurd hFront hOther
  refine viableAt_peek_bind hClosed ?_
  rw [if_pos (by simpa using hSecond)]
  exact viableAt_advance_bind hFront (by simp)
    ((viable_arguments hInner).map.viableAt hClosed.advance)

/-- Any other operand to the right of a membership test. -/
theorem viableAt_membershipOperand (hInner : inner.Viable dialect) (hClosed : stream.Closed)
    (hFront : front stream.glyphs = .leftParen → front stream.glyphs.tail = .keyword .SELECT)
    (power : Nat) :
    (membershipOperand inner power).ViableAt stream (expressions dialect power stream.glyphs) := by
  refine viableAt_test_bind (tests_check (by decide) hClosed) (fun hParen => ?_) fun _ => ?_
  · refine viableAt_peek_bind hClosed ?_
    rw [hFront hParen]
    exact hInner.expressionAt power stream hClosed
  · exact viableAt_peek_bind hClosed (hInner.expressionAt power stream hClosed)

/-- Expressions that do not look like a list. -/
def unlisted (dialect : Dialect) : Language Glyph :=
  {xs | (∃ node, Frames dialect (.expression 6 node) xs) ∧
    ∀ r, front (xs ++ r) = .leftParen → front (xs ++ r).tail = .keyword .SELECT}

theorem expressions_le_unlisted {gs : List Glyph}
    (hFront : front gs = .leftParen → front gs.tail = .keyword .SELECT) :
    expressions dialect 6 gs ≤ unlisted dialect := by
  rintro xs ⟨⟨node, hNode⟩, hAgrees⟩
  refine ⟨⟨node, hNode⟩, fun r hParen => ?_⟩
  rcases hAgrees.append (hNode.ne_nil (admits_expression rfl) rfl) r with hOne | ⟨hSame, hSecond⟩
  · cases hOne.symm.trans hParen
  · rw [hParen] at hSame
    exact hSecond hSame.symm (hFront hSame.symm)

instance : Completable (unlisted dialect) :=
  .mono inferInstance (@expressions_le_unlisted dialect [] fun hFront => by cases hFront)

theorem viableAt_membership (hInner : inner.Viable dialect) (hClosed : stream.Closed) {left : Node}
    (hClass : Glyph.operator? stream.glyphs = some .membership)
    (hOther : ¬ IsListTest stream.glyphs) :
    (infixOperation inner left .membership 6).ViableAt stream
      (operations dialect .membership 6) := by
  refine (viableAt_negatable_bind .IN hClosed (by simp) hClass (L := unlisted dialect)
    fun value rest hRest hWord => ?_).mono ?_
  · have hFront : front rest.glyphs = .leftParen → front rest.glyphs.tail = .keyword .SELECT := by
      intro hParen
      by_contra hSelect
      obtain ⟨text, hCons⟩ := Glyph.eq_cons_of_front hParen (by simp)
      exact hOther ⟨_, _, text, _, hCons ▸ hWord, hSelect⟩
    exact ((viableAt_membershipOperand hInner hRest hFront 6).map hRest).mono
      (expressions_le_unlisted hFront)
  · rintro _ ⟨xs, ⟨⟨negated, op⟩, hWord⟩, ys, ⟨⟨right, hRight⟩, hFront⟩, rfl⟩
    exact mem_operations fun left => ⟨_, .membership (fun r => hWord r trivial) hRight hFront⟩

/-- A list is over before any operator. -/
theorem viableAt_listTest (hInner : inner.Viable dialect) (hClosed : stream.Closed) {left : Node}
    (hClass : Glyph.operator? stream.glyphs = some .membership) (hList : IsListTest stream.glyphs) :
    (infixOperation inner left .membership 6).ViableAt stream
      (operations dialect .membership 11) := by
  obtain ⟨_, _, text, hs, hWord, hSelect⟩ := hList
  refine (viableAt_negatable_bind .IN hClosed (by simp) hClass
    fun value rest hRest hWord' =>
      (viableAt_membershipList hInner hRest ?_ ?_ 6).map hRest).mono ?_
  · rw [hWord'.unique hWord (by decide)]
    rfl
  · rw [hWord'.unique hWord (by decide)]
    exact hSelect
  · rintro _ ⟨xs, ⟨⟨negated, op⟩, hWord⟩, _, ⟨_, ⟨text, rfl⟩, ys, ⟨items, hItems⟩, rfl⟩, rfl⟩ left
    refine ⟨.binary op left (.tuple items), fun r _ _ => ?_⟩
    simpa using Frames.membershipList (fun r => hWord r trivial) hItems text r

/-- An operation is over before any operator that its right operand would not
take. -/
theorem viableAt_infixOperation (hInner : inner.Viable dialect) (hClosed : stream.Closed)
    (left : Node) (hClass : Glyph.operator? stream.glyphs = some operator) :
    ∃ k, 2 * operator.rank + 2 ≤ k ∧
      (infixOperation inner left operator (2 * operator.rank + 2)).ViableAt stream
        (operations dialect operator k) ∧
      ∀ node rest,
        infixOperation inner left operator (2 * operator.rank + 2) stream = .ok node rest →
          Stops k rest.glyphs := by
  have hRank := TokenKind.rank_lt_five_of_infixClass? hClass
  by_cases hList : IsListTest stream.glyphs
  · cases hClass.symm.trans hList.operator?
    exact ⟨11, by decide, viableAt_listTest hInner hClosed hClass hList,
      fun _ rest _ => stops_of_le le_rfl rest.glyphs⟩
  · refine ⟨_, le_rfl, ?_, fun node rest hRun => ?_⟩
    · cases operator with
      | disjunction | conjunction | comparison | additive | multiplicative =>
        exact viableAt_simpleOperation hInner hClosed rfl hClass
      | negation | complement => exact absurd hRank (by decide)
      | identity => exact viableAt_identity hInner hClosed hClass
      | membership =>
        exact viableAt_membership hInner hClosed hClass hList
      | likeness => exact viableAt_likeness hInner hClosed hClass
      | range => exact viableAt_range hInner hClosed hClass
    · have hDerives := (sound_infixOperation hInner.sound left hRank hClosed hRun).2 hClass
      exact hDerives.stops_of_operation.resolve_right hList

end Grammar

end Operations

/-! ## Expressions -/

/-- The glyphs of the operations that go on with an expression, whatever it is,
where an operator binds less tightly than `k`. -/
def extensions (dialect : Dialect) (least k : Nat) : Language Glyph :=
  {xs | ∀ left, ∃ node, Frames dialect (.extension least left node) xs ∧
    ∀ r, (Construct.extension least left node).Admits r → Stops k (xs ++ r)}

section Expressions

variable {dialect : Dialect} {inner : Subparsers} {stream : TokenStream} {least k : Nat}

theorem one_le_extensions (hLe : least ≤ k) : 1 ≤ extensions dialect least k := by
  rintro _ rfl left
  exact ⟨left, fun r hr => .extensionDone (hr.stops least rfl),
    fun r hr => (hr.stops least rfl).mono hLe⟩

/-- An operation before others that bind less tightly. -/
theorem operations_mul_le {operator : OperatorClass} {power : Nat}
    (hLeast : least ≤ 2 * operator.rank + 1) (hPower : 2 * operator.rank + 1 < power) :
    operations dialect operator k * extensions dialect least k ≤
      extensions dialect least power := by
  rintro _ ⟨xs, hFirst, ys, hRest, rfl⟩ left
  obtain ⟨middle, hOperation⟩ := hFirst left
  obtain ⟨node, hExtension, hStops⟩ := hRest middle
  have hBoth : ∀ r, (Construct.extension least left node).Admits r →
      Derives dialect (.operation left operator middle) (xs ++ (ys ++ r)) (ys ++ r) ∧
        Derives dialect (.extension least middle node) (ys ++ r) r := by
    intro r hr
    have hOthers := hExtension r ⟨hr.ends, hr.stops⟩
    refine ⟨hOperation _ ?_ (hStops r ⟨hr.ends, hr.stops⟩), hOthers⟩
    rcases hOthers.opens with hFront | hSame
    · exact bne_iff_ne.1 hFront
    · rw [hSame]
      exact bne_iff_ne.1 hr.ends
  refine ⟨node, fun r hr => ?_, fun r hr => ?_⟩
  · obtain ⟨hOperation, hOthers⟩ := hBoth r hr
    rw [List.append_assoc]
    exact .extensionMore hOperation.operator?_of_operation hLeast hOperation hOthers
  · intro other hOther
    rw [List.append_assoc, Option.mem_def, (hBoth r hr).1.operator?_of_operation] at hOther
    cases hOther
    exact hPower

namespace Grammar

/-- The operations that go on with an expression.  The induction is on the bound
of the repetition; the power that the next operator must stay below changes
from step to step. -/
theorem viableAt_extend (hInner : inner.Viable dialect) (limit : Nat) (left : Node)
    (hClosed : stream.Closed) (hLe : least ≤ k) (hStops : Stops k stream.glyphs) :
    (iterateWithin (dialect.grammar.extendExpression inner least) limit left).ViableAt stream
      (extensions dialect least k) := by
  induction limit generalizing left k stream with
  | zero => exact (viable_fail (by simp)).viableAt hClosed
  | succ limit ih =>
    by_cases hDone : Stops least stream.glyphs
    · have hRun : iterateWithin (dialect.grammar.extendExpression inner least) (limit + 1) left
          stream = .ok left stream := by
        rw [iterateWithin, bind_apply, extendExpression_done hClosed hDone]
        rfl
      exact viableAt_of_ok hRun (one_le_extensions hLe rfl)
    · obtain ⟨operator, hClass, hLeast⟩ : ∃ operator,
          Glyph.operator? stream.glyphs = some operator ∧ least ≤ 2 * operator.rank + 1 := by
        simpa [Stops] using hDone
      obtain ⟨k', hk', hOperation, hNext⟩ := viableAt_infixOperation hInner hClosed left hClass
      have hLe' : least ≤ k' := by omega
      have : Completable (extensions dialect least k') :=
        Completable.one.mono (one_le_extensions hLe')
      have hBind : iterateWithin (dialect.grammar.extendExpression inner least) (limit + 1) left
            stream =
          (infixOperation inner left operator (2 * operator.rank + 2) >>= fun node =>
            iterateWithin (dialect.grammar.extendExpression inner least) limit node) stream := by
        rw [iterateWithin, bind_apply, extendExpression_more hClosed hClass hLeast, bind_apply,
          bind_apply]
        cases infixOperation inner left operator (2 * operator.rank + 2) stream <;> rfl
      rw [ViableAt, hBind]
      refine (hOperation.bind fun node rest hRun => ?_).mono
        (operations_mul_le hLeast (hStops operator hClass))
      obtain ⟨xs, -, hPasses⟩ := hOperation.ok hRun
      exact ih node (hPasses.closed hClosed) hLe' (hNext node rest hRun)

theorem viableAt_expressionWith (hInner : inner.Viable dialect) (hClosed : stream.Closed)
    (least : Nat) :
    (dialect.grammar.expressionWith inner least).ViableAt stream
      (expressions dialect least stream.glyphs) := by
  have hLe : least ≤ max 11 least := le_max_right _ _
  have : Completable (extensions dialect least (max 11 least)) :=
    Completable.one.mono (one_le_extensions hLe)
  have hRest : ∀ first, Viable (iterate (dialect.grammar.extendExpression inner least) first)
      (extensions dialect least (max 11 least)) := fun first rest hRest =>
    viableAt_extend hInner _ first hRest hLe (stops_of_le (le_max_left _ _) _)
  refine ((viableAt_operand hInner hClosed).then hClosed hRest).mono ?_
  rintro _ ⟨xs, ⟨⟨first, hFirst⟩, hAgrees⟩, ys, hExtensions, rfl⟩
  obtain ⟨node, hNode, -⟩ := hExtensions first
  exact ⟨⟨node, hFirst.expression hNode⟩,
    hAgrees.append (hFirst.ne_nil (admits_of_front rfl rfl) rfl) ys⟩

end Grammar

end Expressions

/-! ## Sources -/

/-- The glyphs of a source without an alias. -/
def tables (dialect : Dialect) : Language Glyph :=
  {xs | ∀ ys ∈ aliases, xs ++ ys ∈ sentences dialect .source}

section Sources

variable {dialect : Dialect} {inner : Subparsers} {stream : TokenStream}

/-- A token that is a source on its own. -/
theorem table_le {kind : TokenKind} {node : Node} (hTable : dialect.table? kind = some node) :
    oneOf kind ≤ tables dialect := by
  rintro _ ⟨text, rfl⟩ ys hAlias
  obtain ⟨aliased, hAliased⟩ := hAlias node
  exact ⟨aliased, .table hTable hAliased text⟩

instance : Completable (tables dialect) :=
  .mono inferInstance (@table_le dialect (.identifier "a" (some Token.backtick)) _ rfl)

theorem viableAt_table {node : Node} (hClosed : stream.Closed)
    (hTable : dialect.table? stream.current.kind = some node) :
    ViableAt (do let _ ← advance; return node) stream (tables dialect) := by
  refine (viableAt_take hClosed.kind_current.symm ?_).mono (table_le hTable)
  intro hFinish
  rw [hFinish] at hTable
  cases hTable

theorem viableAt_tableName (hClosed : stream.Closed)
    (hStarts : stream.current.kind.isIdentifier = true) :
    (Production.tableName.reduce inner).ViableAt stream (tables dialect) := by
  obtain ⟨value, quote, hKind⟩ := TokenKind.exists_of_isIdentifier hStarts
  have hFront : front stream.glyphs = .identifier value quote :=
    hClosed.kind_current.symm.trans hKind
  refine (viableAt_advance_bind hFront (by simp) (L := 1) ?_).mono ?_
  · rw [hKind]
    exact (viable_pure _).viableAt hClosed.advance
  · rw [mul_one]
    exact table_le rfl

theorem viable_subquery (hInner : inner.Viable dialect) :
    (Production.subquery.reduce inner).Viable (tables dialect) := by
  refine Viable.mono ((viable_expect (by decide) (by simp)).bind fun _ =>
    hInner.select.bind fun _ => viable_expectRightParen.map) ?_
  rintro _ ⟨_, ⟨text, rfl⟩, _, ⟨xs, ⟨node, hNode⟩, _, ⟨text', rfl⟩, rfl⟩, rfl⟩ ys hAlias
  obtain ⟨aliased, hAliased⟩ := hAlias (node.withParentheses true)
  refine ⟨aliased, ?_⟩
  simpa using hNode.derivedTable hAliased text text'

theorem viableAt_sourceVariable (hClosed : stream.Closed) :
    ((Production.variableName .source).reduce inner).ViableAt stream (tables .mysql) := by
  refine viableAt_current_bind fun token hToken => ?_
  split
  · next name hKind => exact viableAt_table hClosed (by rw [← hToken, hKind]; rfl)
  · next name hKind => exact viableAt_table hClosed (by rw [← hToken, hKind]; rfl)
  · exact viable_unexpected _ stream hClosed

namespace Grammar

theorem viable_derive_source (hInner : inner.Viable dialect) (expected : String) :
    (dialect.grammar.derive .source expected inner).Viable (tables dialect) := by
  intro stream hClosed
  refine viableAt_derive hClosed fun production hMem hStarts => ?_
  rcases mem_alternatives_source hMem with hShared | ⟨rfl, rfl⟩
  · simp only [List.mem_cons, List.not_mem_nil, or_false] at hShared
    rcases hShared with rfl | rfl
    · exact viableAt_tableName hClosed (hClosed.kind_current ▸ hStarts)
    · exact (viable_subquery hInner).viableAt hClosed
  · exact viableAt_sourceVariable hClosed

theorem viable_sourceWith (hInner : inner.Viable dialect) :
    (dialect.grammar.sourceWith inner).Viable (sentences dialect .source) := by
  refine Viable.mono ((viable_derive_source hInner _).bind viable_applyAlias) ?_
  rintro _ ⟨xs, hTable, ys, hAlias, rfl⟩
  exact hTable ys hAlias

end Grammar

end Sources

/-! ## Levels and statements -/

/-- The glyphs of a whole statement. -/
def statements (dialect : Dialect) : Language Glyph :=
  {xs | ∃ node, DerivesStatement dialect node xs}

namespace Grammar

variable (dialect : Dialect)

/-- The parsers of every level are viable. -/
theorem subparsers_viable (levels : Nat) : (dialect.grammar.subparsers levels).Viable dialect := by
  induction levels with
  | zero =>
    exact ⟨subparsers_sound dialect 0, fun _ _ hClosed => (viable_fail (by simp)).viableAt hClosed,
      viable_fail (by simp), viable_fail (by simp)⟩
  | succ levels ih =>
    exact ⟨subparsers_sound dialect (levels + 1),
      fun least _ hClosed => viableAt_expressionWith ih hClosed least,
      viable_selectWith ih, viable_sourceWith ih⟩

theorem viable_select : dialect.grammar.select.Viable (sentences dialect .select) :=
  fun stream hClosed => (subparsers_viable dialect _).select stream hClosed

variable {dialect}

theorem bareQuery_le : sentences dialect .select ≤ sentences dialect .query := by
  rintro xs ⟨node, hNode⟩
  exact ⟨node, hNode.bareQuery⟩

instance : Completable (sentences dialect .query) := .mono inferInstance bareQuery_le

theorem viable_query : dialect.grammar.query.Viable (sentences dialect .query) := by
  have hWithin : ∀ limit,
      (dialect.grammar.queryWithin limit).Viable (sentences dialect .query) := by
    intro limit
    induction limit with
    | zero => exact viable_fail (by simp)
    | succ limit ih =>
      refine Viable.mono (viable_eat_bind (by decide) (by simp)
        (ih.bind fun _ => viable_expectRightParen.map) (viable_select dialect))
          (add_le ?_ bareQuery_le)
      rintro _ ⟨_, ⟨text, rfl⟩, _, ⟨xs, ⟨node, hNode⟩, _, ⟨text', rfl⟩, rfl⟩, rfl⟩
      exact ⟨_, hNode.enclosedQuery text text'⟩
  exact fun stream hClosed => hWithin _ stream hClosed

/-- What the parser of statements has consumed is the beginning of a
statement. -/
theorem viable_statement : dialect.grammar.statement.Viable (statements dialect) := by
  have hEnd : ∀ node : Node, Viable (do
      if (← current).kind.isFinish then return node else unexpected "end of input") 1 := by
    intro node
    refine viable_current_bind fun token => ?_
    cases token.kind.isFinish with
    | true => exact viable_pure node
    | false => exact viable_unexpected _
  refine Viable.mono (viable_query.bind fun node => viable_eat_bind (by decide) (by simp)
    (hEnd node) (hEnd node)) ?_
  rintro _ ⟨xs, ⟨node, hNode⟩, _, ⟨_, ⟨text, rfl⟩, _, rfl, rfl⟩ | rfl, rfl⟩
  · exact ⟨node, Or.inr ⟨text, hNode _ (admits_of_front rfl rfl)⟩⟩
  · exact ⟨node, Or.inl (hNode [] (admits_of_front rfl rfl))⟩

end Grammar

/-- A token for a glyph, at a given place. -/
def Glyph.token (glyph : Glyph) (span : Span) : Token := ⟨glyph.kind, span, glyph.text⟩

@[simp] theorem Glyph.glyph_token (glyph : Glyph) (span : Span) :
    (glyph.token span).glyph = glyph := rfl

/-- The tokens of a closed stream, split where the rest of it begins. -/
theorem TokenStream.Passes.toList_eq {stream rest : TokenStream} {xs : List Glyph}
    (hPasses : stream.Passes xs rest) : ∃ before after, before.map Token.glyph = xs ∧
      stream.toList = before ++ rest.current :: after := by
  obtain ⟨hLast, used, hAhead, hUsed⟩ := hPasses
  obtain ⟨ahead, last⟩ := rest
  cases ahead with
  | nil => exact ⟨used, [], hUsed, by simp_all [toList, current]⟩
  | cons token ahead => exact ⟨used, ahead ++ [last], hUsed, by simp_all [toList, current]⟩

/--
**A syntax error is never reported too late**: it is reported at one of the
tokens of the text, and the tokens before that one begin a statement.  The
continuation is made of tokens that could stand in a text, followed by the end
of the input.
-/
theorem parse_error_viable {source : String} {dialect : Dialect} {e : SyntaxError}
    (hParse : parse source dialect = .error (.grammatical e)) :
    ∃ stream before token after, dialect.grammar.tokens.tokenize source = .ok stream ∧
      stream.toList = before ++ token :: after ∧
      (∃ expected, e = .unexpected expected token.kind token.span) ∧
      ∃ added : List Token, (∀ other ∈ added, other.glyph.Genuine) ∧
        ∃ node rest, dialect.grammar.statement ⟨before ++ added, stream.last⟩ = .ok node rest := by
  rw [parse, Grammar.parse] at hParse
  split at hParse
  · cases hParse
  · next stream hTokens =>
    obtain ⟨-, hClosed, -⟩ :=
      Dialect.reads_of_tokenize hTokens fun h : false = true => absurd h Bool.false_ne_true
    split at hParse
    · cases hParse
    · next error rest hRun =>
      cases hParse
      obtain ⟨hError, xs, ys, hPasses, hGenuine, node, hStatement⟩ :=
        (Grammar.viable_statement stream hClosed).fail hRun
      obtain ⟨before, after, rfl, hList⟩ := hPasses.toList_eq
      refine ⟨stream, before, rest.current, after, hTokens, hList, hError,
        ys.map (·.token stream.last.span), ?_, node, ?_⟩
      · simpa [AllGenuine] using hGenuine
      · refine Grammar.statement_of_derives hClosed ?_
        simpa [TokenStream.glyphs, Function.comp_def] using hStatement

/-- A text that breaks off inside a query in a list in a case distinction. -/
def brokenText : String :=
  "SELECT CASE WHEN a NOT BETWEEN 1 AND 2 THEN (b, c IN (SELECT d FROM) END"

theorem parse_error_viable_brokenText :
    parse brokenText .generic = .error (.grammatical
      (.unexpected "table name or subquery" .rightParen ⟨67, 68⟩)) ∧
    ∃ stream before token after,
      Dialect.generic.grammar.tokens.tokenize brokenText = .ok stream ∧
      stream.toList = before ++ token :: after ∧
      (∃ expected, SyntaxError.unexpected "table name or subquery" .rightParen ⟨67, 68⟩ =
        .unexpected expected token.kind token.span) ∧
      ∃ added : List Token, (∀ other ∈ added, other.glyph.Genuine) ∧ ∃ node rest,
        Dialect.generic.grammar.statement ⟨before ++ added, stream.last⟩ = .ok node rest := by
  have hParse : parse brokenText .generic = .error (.grammatical
      (.unexpected "table name or subquery" .rightParen ⟨67, 68⟩)) := by
    decide +kernel
  exact ⟨hParse, parse_error_viable hParse⟩

end SqlQuery
