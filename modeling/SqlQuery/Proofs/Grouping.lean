import SqlQuery.Proofs.Framing

/-!
# Parentheses around an expression or a query

Where an expression or a query ends at the end of the input, it ends at the
same place, with the same tree, when a closing parenthesis stands there
instead.  The end and a closing parenthesis answer every question alike that
the parsers ask about what follows: neither starts an operator, a clause, a
join, an alias or a further item.  Only a list of arguments tells them apart,
and that question is asked where at least one more glyph stands.

So parentheses around a whole expression or statement group it: they set the
flag of the tree and change nothing else.

## Main definitions

* `Token.enclose` — tokens in pairs of parentheses.

## Main results

* `Derives.append` — a construct before what a closing parenthesis starts.
* `Grammar.grouping` — an expression or a statement in parentheses.
-/

namespace SqlQuery

open Glyph (front)

/-! ## What follows the last glyph -/

namespace Glyph

variable {gs r : List Glyph} {kind : TokenKind}

theorem front_append_of_ne_nil (hNe : gs ≠ []) (r : List Glyph) : front (gs ++ r) = front gs := by
  cases gs with
  | nil => exact absurd rfl hNe
  | cons glyph gs => rfl

/-- A kind at the front stays there. -/
theorem front_append_eq (hFront : front gs = kind) (hKind : kind ≠ .finish) :
    front (gs ++ r) = kind := by
  rw [front_append_of_ne_nil (by rintro rfl; exact hKind hFront.symm), hFront]

/-- A closing parenthesis that comes in at the end is the only kind that may
appear at the front. -/
theorem front_append_ne (hClose : front r = .rightParen) (hFront : front gs ≠ kind)
    (hKind : kind ≠ .rightParen) : front (gs ++ r) ≠ kind := by
  cases gs with
  | nil =>
    rw [List.nil_append, hClose]
    exact hKind.symm
  | cons glyph gs => exact hFront

/-- What is the same for the end and for a closing parenthesis is the same
before and after a closing parenthesis comes in at the end. -/
theorem apply_front_append {α : Type} (f : TokenKind → α) (hClose : front r = .rightParen)
    (hSame : f .rightParen = f .finish) : f (front (gs ++ r)) = f (front gs) := by
  cases gs with
  | nil =>
    rw [List.nil_append, hClose]
    exact hSame
  | cons glyph gs => rfl

/-- No operator is made or broken by a closing parenthesis at the end. -/
theorem operator?_append (hClose : front r = .rightParen) : operator? (gs ++ r) = operator? gs := by
  cases gs with
  | nil =>
    rw [List.nil_append, operator?, hClose]
    rfl
  | cons glyph gs =>
    refine apply_front_append (fun following => glyph.kind.infixClass? following) hClose ?_
    cases glyph.kind with
    | keyword word => cases word <;> rfl
    | _ => rfl

end Glyph

/-! ## Parts without a tree inside -/

section Append

open Glyph

variable {gs hs r : List Glyph} (hClose : front r = .rightParen)

include hClose

theorem OptionalWord.append {word : Keyword} {present : Bool}
    (hWord : OptionalWord word present gs hs) : OptionalWord word present (gs ++ r) (hs ++ r) := by
  cases hWord with
  | present => exact .present
  | absent hFront => exact .absent (front_append_ne hClose hFront (by simp))

omit hClose in
theorem NegatableWord.append {word : Keyword} {negated : Bool} {op : String}
    (hWord : NegatableWord word negated op gs hs) :
    NegatableWord word negated op (gs ++ r) (hs ++ r) := by
  cases hWord with
  | plain => exact .plain
  | negated => exact .negated

theorem Distinctness.append {distinct : Bool} (hDistinct : Distinctness distinct gs hs) :
    Distinctness distinct (gs ++ r) (hs ++ r) := by
  cases hDistinct with
  | distinct => exact .distinct
  | all => exact .all
  | neither hDistinct hAll =>
    exact .neither (front_append_ne hClose hDistinct (by simp))
      (front_append_ne hClose hAll (by simp))

theorem Aliased.append {node aliased : Node} (hAlias : Aliased node aliased gs hs) :
    Aliased node aliased (gs ++ r) (hs ++ r) := by
  cases hAlias with
  | introduced => exact .introduced
  | bare => exact .bare
  | absent hWord hName =>
    refine .absent (front_append_ne hClose hWord (by simp)) ?_
    rw [apply_front_append TokenKind.isIdentifier hClose rfl, hName]

theorem Directed.append {direction : Direction} (hDirection : Directed direction gs hs) :
    Directed direction (gs ++ r) (hs ++ r) := by
  cases hDirection with
  | ascending => exact .ascending
  | descending => exact .descending
  | unspecified hAscending hDescending =>
    exact .unspecified (front_append_ne hClose hAscending (by simp))
      (front_append_ne hClose hDescending (by simp))

theorem Placed.append {nulls : NullPlacement} (hNulls : Placed nulls gs hs) :
    Placed nulls (gs ++ r) (hs ++ r) := by
  cases hNulls with
  | first => exact .first
  | last => exact .last
  | unspecified hFirst hLast =>
    exact .unspecified (front_append_ne hClose hFirst (by simp))
      (front_append_ne hClose hLast (by simp))

omit hClose in
theorem TypeWord.append {word : String} (hWord : TypeWord word gs hs) :
    TypeWord word (gs ++ r) (hs ++ r) := by
  cases hWord with
  | quoted => exact .quoted
  | bare => exact .bare

theorem TypeWords.append {words : List String} (hWords : TypeWords words gs hs) :
    TypeWords words (gs ++ r) (hs ++ r) := by
  induction hWords with
  | done hFront => exact .done fun value => front_append_ne hClose (hFront value) (by simp)
  | more _ ih => exact .more ih

theorem TypeSizes.append {sizes : List String} (hSizes : TypeSizes sizes gs hs) :
    TypeSizes sizes (gs ++ r) (hs ++ r) := by
  induction hSizes with
  | done hFront => exact .done (front_append_ne hClose hFront (by simp))
  | more _ ih => exact .more ih

theorem TypeName.append {name : String} (hName : TypeName name gs hs) :
    TypeName name (gs ++ r) (hs ++ r) := by
  cases hName with
  | plain hWord hWords hFront =>
    exact .plain hWord.append (hWords.append hClose) (front_append_ne hClose hFront (by simp))
  | sized hWord hWords hSizes =>
    exact .sized hWord.append (hWords.append hClose) (hSizes.append hClose)

/-! ## Constructs -/

/-- A construct is the same before a closing parenthesis as before the end. -/
theorem Derives.append {dialect : Dialect} {construct : Construct}
    (hDerives : Derives dialect construct gs hs) :
    Derives dialect construct (gs ++ r) (hs ++ r) := by
  induction hDerives with
  | atom hAtom => exact .atom hAtom
  | column hFront => exact .column (front_append_ne hClose hFront (by simp))
  | call hDistinct _ ih => exact .call (hDistinct.append hClose) ih
  | unary hClass _ ih => exact .unary hClass ih
  | subquery hFront _ ih => exact .subquery (front_append_eq hFront (by simp)) ih
  | grouped hFront _ ih => exact .grouped (front_append_ne hClose hFront (by simp)) ih
  | tuple hFront _ hComma _ ihFirst ihFurther =>
    exact .tuple (front_append_ne hClose hFront (by simp)) ihFirst
      (front_append_eq hComma (by simp)) ihFurther
  | typeCast _ hName ih => exact .typeCast ih (hName.append hClose)
  | caseWhen hFront _ _ ihRules ihDefault =>
    exact .caseWhen (front_append_eq hFront (by simp)) ihRules ihDefault
  | rulesDone hFront => exact .rulesDone (front_append_ne hClose hFront (by simp))
  | rulesMore _ _ _ ihCondition ihResult ihRules => exact .rulesMore ihCondition ihResult ihRules
  | expression _ _ ihFirst ihExtension => exact .expression ihFirst ihExtension
  | extensionDone hStop =>
    refine .extensionDone ?_
    rw [operator?_append hClose]
    exact hStop
  | extensionMore hClass hLeast _ _ ihOperation ihExtension =>
    refine .extensionMore ?_ hLeast ihOperation ihExtension
    rw [operator?_append hClose, hClass]
  | binary hSimple hClass _ ih => exact .binary hSimple hClass ih
  | identity hNegated _ ih => exact .identity (hNegated.append hClose) ih
  | likeness hWord _ ih => exact .likeness hWord.append ih
  | membershipList hWord hFront _ ih =>
    exact .membershipList hWord.append (front_append_ne hClose hFront (by simp)) ih
  | @membership _ _ _ _ gs hs is hWord hFront hRight ih =>
    refine .membership hWord.append (fun hParen => ?_) ih
    -- The operand is there, so the parenthesis is its own and not the one at the end.
    obtain ⟨glyph, hs, rfl⟩ := List.exists_cons_of_length_pos (Nat.zero_lt_of_lt
      (hRight.length_lt rfl))
    exact front_append_eq (hFront hParen) (by simp)
  | range hWord _ _ ihLow ihHigh => exact .range hWord.append ihLow ihHigh
  | argumentsNone => exact .argumentsNone
  | argumentsSome hFront hItems ih =>
    refine .argumentsSome ?_ ih
    rwa [front_append_of_ne_nil (List.ne_nil_of_length_pos (Nat.zero_lt_of_lt
      (hItems.length_lt rfl)))]
  | items _ _ ihFirst ihFurther => exact .items ihFirst ihFurther
  | furtherDone hFront => exact .furtherDone (front_append_ne hClose hFront (by simp))
  | furtherMore _ _ ihItem ihFurther => exact .furtherMore ihItem ihFurther
  | expressionItem _ ih => exact .expressionItem ih
  | target _ hAlias ih => exact .target ih (hAlias.append hClose)
  | entry _ hDirection hNulls ih =>
    exact .entry ih (hDirection.append hClose) (hNulls.append hClose)
  | table hTable hAlias => exact .table hTable (hAlias.append hClose)
  | derivedTable _ hAlias ih => exact .derivedTable ih (hAlias.append hClose)
  | joinsDone hKind =>
    refine .joinsDone ?_
    rw [apply_front_append Grammar.joinKind? hClose rfl, hKind]
  | joinsMore hKind _ hComma _ _ ihRight ihCondition ihJoins =>
    refine .joinsMore hKind ihRight (fun hJoin => ?_) ihCondition ihJoins
    obtain ⟨hNone, rfl⟩ := hComma hJoin
    exact ⟨hNone, rfl⟩
  | clauseNone hFront => exact .clauseNone (front_append_ne hClose hFront (by simp))
  | clauseSome _ ih => exact .clauseSome ih
  | listClauseNone hFront => exact .listClauseNone (front_append_ne hClose hFront (by simp))
  | listClauseSome _ ih => exact .listClauseSome ih
  | sourceClauseNone hFront => exact .sourceClauseNone (front_append_ne hClose hFront (by simp))
  | sourceClauseSome _ _ ihFirst ihJoins => exact .sourceClauseSome ihFirst ihJoins
  | select hDistinct _ _ _ _ _ _ _ _ ihTargets ihSource ihCondition ihGroups ihHaving ihOrdering
      ihLimit ihOffset =>
    exact .select (hDistinct.append hClose) ihTargets ihSource ihCondition ihGroups ihHaving
      ihOrdering ihLimit ihOffset
  | @bareQuery _ gs hs hFront hSelect ih =>
    refine .bareQuery ?_ ih
    rwa [front_append_of_ne_nil (List.ne_nil_of_length_pos (Nat.zero_lt_of_lt
      (hSelect.length_lt rfl)))]
  | enclosedQuery _ ih => exact .enclosedQuery ih

end Append

/-! ## Parentheses -/

section Parentheses

variable {dialect : Dialect} {node : Node} {gs : List Glyph}

/-- An expression in parentheses is an operand, and so an expression. -/
theorem Derives.expression_enclosed (text text' : String)
    (hNode : Derives dialect (.expression 0 node) gs []) :
    Derives dialect (.expression 0 (node.withParentheses true))
      (⟨.leftParen, text⟩ :: (gs ++ [⟨.rightParen, text'⟩])) [] := by
  have hInner : Derives dialect (.expression 0 node) (gs ++ [⟨.rightParen, text'⟩])
      [⟨.rightParen, text'⟩] := hNode.append rfl
  exact .expression (.grouped (hInner.front_ne_of_opens rfl rfl) hInner)
    (.extensionDone (by rintro operator ⟨⟩))

theorem Derives.query_enclosed (text text' : String) (hNode : Derives dialect (.query node) gs []) :
    Derives dialect (.query (node.withParentheses true))
      (⟨.leftParen, text⟩ :: (gs ++ [⟨.rightParen, text'⟩])) [] := by
  have hInner : Derives dialect (.query node) (gs ++ [⟨.rightParen, text'⟩])
      [⟨.rightParen, text'⟩] := hNode.append rfl
  exact .enclosedQuery hInner

/-- Tokens in pairs of parentheses, the first pair outermost. -/
def Token.enclose (pairs : List (Token × Token)) (inside : List Token) : List Token :=
  pairs.foldr (fun pair tokens => pair.1 :: (tokens ++ [pair.2])) inside

/-- A property of trees and their glyphs that a pair of parentheses preserves,
but for the flag of the tree, is preserved by any number of pairs. -/
theorem Token.enclose_induction (holds : Node → List Glyph → Prop)
    (hPair : ∀ {node gs} (text text' : String), holds node gs →
      holds (node.withParentheses true) (⟨.leftParen, text⟩ :: (gs ++ [⟨.rightParen, text'⟩])))
    {pairs : List (Token × Token)} (hPairs : pairs ≠ [])
    (hParens : ∀ pair ∈ pairs, pair.1.kind = .leftParen ∧ pair.2.kind = .rightParen)
    {inside : List Token} (hInside : holds node (inside.map Token.glyph)) :
    holds (node.withParentheses true) ((Token.enclose pairs inside).map Token.glyph) := by
  induction pairs with
  | nil => exact absurd rfl hPairs
  | cons pair pairs ih =>
    obtain ⟨hOpening, hClosing⟩ := hParens pair List.mem_cons_self
    have hGlyphs : (Token.enclose (pair :: pairs) inside).map Token.glyph =
        ⟨.leftParen, pair.1.lexeme⟩ ::
          ((Token.enclose pairs inside).map Token.glyph ++ [⟨.rightParen, pair.2.lexeme⟩]) := by
      simp [Token.enclose, Token.glyph, hOpening, hClosing]
    rw [hGlyphs]
    by_cases hMore : pairs = []
    · subst hMore
      exact hPair _ _ hInside
    · -- A tree that bears the flag already is not changed by setting it.
      have hAgain := hPair pair.1.lexeme pair.2.lexeme (ih hMore fun other hMem =>
        hParens other (List.mem_cons_of_mem _ hMem))
      exact hAgain

end Parentheses

/-! ## Runs of the parsers -/

namespace Grammar

variable {dialect : Dialect} {node : Node}

/-- An expression up to the end of the input is parsed exactly if it is
derived. -/
theorem expression_eq_ok_iff {least : Nat} {ts : List Token} {last : Token}
    (hLast : last.kind = .finish) :
    dialect.grammar.expression least ⟨ts, last⟩ = .ok node ⟨[], last⟩ ↔
      Derives dialect (.expression least node) (ts.map Token.glyph) [] := by
  have hClosed : TokenStream.Closed ⟨ts, last⟩ := hLast
  constructor
  · intro hRun
    exact (((subparsers_sound dialect _).expression least) hClosed hRun).2
  · intro hDerives
    have hYields : Parser.Yields _ _ _ _ := hDerives.parsed (ts.length + 1) (by simp)
    obtain ⟨⟨ahead, last'⟩, hRun, hSame, hGlyphs⟩ := hYields ⟨ts, last⟩ hClosed rfl
    obtain rfl : last' = last := hSame
    obtain rfl : ahead = [] := List.map_eq_nil_iff.1 hGlyphs
    exact hRun

/-- A query that no semicolon ends makes up the whole of its statement. -/
theorem derives_query_of_statement {ts : List Token} {last : Token} {rest : TokenStream}
    (hTokens : ∀ token ∈ ts, token.kind ≠ .finish) (hLast : last.kind = .finish)
    (hEnd : ∀ token ∈ ts.getLast?, token.kind ≠ .semicolon)
    (hRun : dialect.grammar.statement ⟨ts, last⟩ = .ok node rest) :
    Derives dialect (.query node) (ts.map Token.glyph) [] := by
  have hFinish : ∀ glyph ∈ (TokenStream.mk ts last).glyphs, glyph.kind ≠ .finish := by
    intro glyph hMem
    obtain ⟨token, hToken, rfl⟩ := List.mem_map.1 hMem
    exact hTokens token hToken
  have hClosed : TokenStream.Closed ⟨ts, last⟩ := hLast
  rcases derives_of_statement hClosed hFinish hRun with hQuery | ⟨text, hQuery⟩
  · exact hQuery
  · obtain ⟨before, hBefore⟩ := hQuery.suffix
    obtain ⟨front, back, rfl, -, hBack⟩ := List.map_eq_append_iff.1 hBefore.symm
    obtain ⟨token, rfl, hGlyph⟩ := List.map_eq_singleton_iff.1 hBack
    refine absurd (congrArg Glyph.kind hGlyph) (hEnd token ?_)
    rw [List.getLast?_append]
    rfl

/-- Parentheses around tokens that make up an expression, or a statement without
a semicolon, set the flag of the tree and change nothing else, however many
pairs there are. -/
theorem grouping (dialect : Dialect) (node : Node) {ts : List Token} {last finish : Token}
    (hTokens : ∀ token ∈ ts, token.kind ≠ .finish) (hLast : last.kind = .finish)
    (hFinish : finish.kind = .finish) {pairs : List (Token × Token)} (hPairs : pairs ≠ [])
    (hParens : ∀ pair ∈ pairs, pair.1.kind = .leftParen ∧ pair.2.kind = .rightParen) :
    (dialect.grammar.expression 0 ⟨ts, last⟩ = .ok node ⟨[], last⟩ →
      dialect.grammar.expression 0 ⟨Token.enclose pairs ts, finish⟩ =
        .ok (node.withParentheses true) ⟨[], finish⟩) ∧
    ∀ rest, dialect.grammar.statement ⟨ts, last⟩ = .ok node rest →
      (∀ token ∈ ts.getLast?, token.kind ≠ .semicolon) →
      ∃ rest', dialect.grammar.statement ⟨Token.enclose pairs ts, finish⟩ =
        .ok (node.withParentheses true) rest' := by
  refine ⟨fun hRun => ?_, fun rest hRun hEnd => ?_⟩
  · rw [expression_eq_ok_iff hLast] at hRun
    rw [expression_eq_ok_iff hFinish]
    exact Token.enclose_induction (fun node gs => Derives dialect (.expression 0 node) gs [])
      Derives.expression_enclosed hPairs hParens hRun
  · have hQuery := derives_query_of_statement hTokens hLast hEnd hRun
    have hEnclosed := Token.enclose_induction (fun node gs => Derives dialect (.query node) gs [])
      Derives.query_enclosed hPairs hParens hQuery
    have hClosed : TokenStream.Closed ⟨Token.enclose pairs ts, finish⟩ := hFinish
    exact statement_of_derives hClosed (Or.inl hEnclosed)

/-- `((a + 1))` is the sum in parentheses, and `((SELECT @v))` the query in
parentheses. -/
theorem grouping_twice :
    let token kind lexeme : Token := ⟨kind, ⟨0, 0⟩, lexeme⟩
    let pairs := [(token .leftParen "(", token .rightParen ")"),
      (token .leftParen "(", token .rightParen ")")]
    let finish := token .finish ""
    generic.expression 0
        ⟨Token.enclose pairs [token (.identifier "a" none) "a", token .plus "+",
          token (.integer 1) "1"], finish⟩ =
      .ok ((Node.binary "+" (.identifier "a" none) (.constant (.integer 1))).withParentheses true)
        ⟨[], finish⟩ ∧
    ∃ rest, mysql.statement
        ⟨Token.enclose pairs [token (.keyword .SELECT) "SELECT", token (.userVariable "v") "@v"],
          finish⟩ =
      .ok (Node.withParentheses true (.ofForm (.select
        { targets := [.ofForm (.variableName "v" false)] }))) rest := by
  intro token pairs finish
  have hFinish : finish.kind = .finish := rfl
  exact ⟨(grouping .generic _ (by decide) hFinish hFinish (by decide) (by decide)).1 rfl,
    (grouping .mysql _ (by decide) hFinish hFinish (by decide) (by decide)).2 ⟨[], finish⟩ rfl
      (by decide)⟩

end Grammar

end SqlQuery
