import SqlQuery.Proofs.Completeness

/-!
# Operator precedence and stratified grammars

Expressions can be described by a grammar with one symbol for each level of the
table of precedence: a phrase of one level is a row of phrases of the next
tighter level with operators of its own level between them, and the row is
folded to the left.  The parser knows nothing of such symbols.  It has a single
loop that goes on as long as an operator of sufficient left power follows.

The two agree because a phrase of level `l` is met only where the operators
behind it are no tighter than `l`, and where the loop demands a power of at most
that of level `l`.  The first says that no operand of the phrase is taken from
it by what follows, the second that the loop does not stop inside it.

## Main definitions

* `Stratum` — the symbols of the grammar, and what a phrase of each stands for.
* `Stratified` — the phrases of a symbol.
* `Stratum.Behind` — what may stand behind a phrase of a level.

## Main results

* `Stratified.reduces` — a phrase is derived in front of all that may follow it.
* `Stratified.expression_eq` — the parser gives the tree of the grammar.
-/

namespace SqlQuery

open Glyph (front)

/-! ## The grammar -/

/-- The symbols of the stratified grammar, and what a phrase stands for. -/
inductive Stratum where
  /-- A phrase of a level, loosest first: 0 for `OR`, 1 for `AND`, 2 for
  comparisons and tests, 3 for sums, 4 for products, 5 for operands. -/
  | phrase (level : Nat) (node : Node)
  /-- The operations of a level that turn the phrase `left` into `node`. -/
  | row (level : Nat) (left node : Node)
  /-- One operation of a level with a given left operand, from its operator
  on. -/
  | link (level : Nat) (left node : Node)

namespace Stratum

/-- The operators of a level that are one token between two operands. -/
def operators : Nat → List TokenKind
  | 0 => [.keyword .OR]
  | 1 => [.keyword .AND]
  | 2 => [.equal, .notEqual, .less, .lessEqual, .greater, .greaterEqual]
  | 3 => [.plus, .minus, .concat]
  | 4 => [.star, .slash, .percent]
  | _ => []

/-- The operators that stand before an operand. -/
def prefixes : List TokenKind := [.minus, .keyword .NOT]

/-- The operands of a single token. -/
inductive Atom : TokenKind → Node → Prop
  | identifier (value : String) (quote : Option Char) :
    Atom (.identifier value quote) (.identifier value quote)
  | integer (value : Int64) : Atom (.integer value) (.constant (.integer value))
  | float (value : Number.Binary64) : Atom (.float value) (.constant (.float value))
  | text (value : String) : Atom (.text value) (.constant (.text value))
  | null : Atom (.keyword .NULL) .null
  | truth : Atom (.keyword .TRUE) (.constant (.boolean true))
  | falsehood : Atom (.keyword .FALSE) (.constant (.boolean false))
  | parameter : Atom .question .parameter

end Stratum

/-- The phrases of the stratified grammar.  A `NOT` behind `IS` belongs to
`IS`. -/
inductive Stratified : Stratum → List Glyph → Prop
  | phrase {level : Nat} {first node : Node} {ws vs : List Glyph} (hLevel : level < 5)
      (hFirst : Stratified (.phrase (level + 1) first) ws)
      (hRow : Stratified (.row level first node) vs) :
    Stratified (.phrase level node) (ws ++ vs)
  | rowDone {level : Nat} {left : Node} : Stratified (.row level left left) []
  | rowMore {level : Nat} {left middle node : Node} {ws vs : List Glyph}
      (hLink : Stratified (.link level left middle) ws)
      (hRow : Stratified (.row level middle node) vs) :
    Stratified (.row level left node) (ws ++ vs)
  -- Operations.
  | operation {level : Nat} {kind : TokenKind} {text : String} {left right : Node}
      {ws : List Glyph} (hKind : kind ∈ Stratum.operators level)
      (hRight : Stratified (.phrase (level + 1) right) ws) :
    Stratified (.link level left (.binary text left right)) (⟨kind, text⟩ :: ws)
  | like {text : String} {left right : Node} {ws : List Glyph}
      (hRight : Stratified (.phrase 3 right) ws) :
    Stratified (.link 2 left (.binary text left right)) (⟨.keyword .LIKE, text⟩ :: ws)
  | notLike {text text' : String} {left right : Node} {ws : List Glyph}
      (hRight : Stratified (.phrase 3 right) ws) :
    Stratified (.link 2 left (.binary (text ++ " " ++ text') left right))
      (⟨.keyword .NOT, text⟩ :: ⟨.keyword .LIKE, text'⟩ :: ws)
  | is {text : String} {left right : Node} {ws : List Glyph}
      (hFront : front ws ≠ .keyword .NOT) (hRight : Stratified (.phrase 3 right) ws) :
    Stratified (.link 2 left (.binary "is" left right)) (⟨.keyword .IS, text⟩ :: ws)
  | isNot {text text' : String} {left right : Node} {ws : List Glyph}
      (hRight : Stratified (.phrase 3 right) ws) :
    Stratified (.link 2 left (.binary "is not" left right))
      (⟨.keyword .IS, text⟩ :: ⟨.keyword .NOT, text'⟩ :: ws)
  | between {text text' : String} {left low high : Node} {ws vs : List Glyph}
      (hLow : Stratified (.phrase 3 low) ws) (hHigh : Stratified (.phrase 3 high) vs) :
    Stratified (.link 2 left (.between left low high false))
      (⟨.keyword .BETWEEN, text⟩ :: (ws ++ ⟨.keyword .AND, text'⟩ :: vs))
  | notBetween {text text' text'' : String} {left low high : Node} {ws vs : List Glyph}
      (hLow : Stratified (.phrase 3 low) ws) (hHigh : Stratified (.phrase 3 high) vs) :
    Stratified (.link 2 left (.between left low high true))
      (⟨.keyword .NOT, text⟩ :: ⟨.keyword .BETWEEN, text'⟩ ::
        (ws ++ ⟨.keyword .AND, text''⟩ :: vs))
  -- Operands.
  | unary {kind : TokenKind} {text : String} {arg : Node} {ws : List Glyph}
      (hKind : kind ∈ Stratum.prefixes) (hArg : Stratified (.phrase 5 arg) ws) :
    Stratified (.phrase 5 (.unary text arg)) (⟨kind, text⟩ :: ws)
  | atom {kind : TokenKind} {text : String} {node : Node} (hAtom : Stratum.Atom kind node) :
    Stratified (.phrase 5 node) [⟨kind, text⟩]
  | grouped {text text' : String} {node : Node} {ws : List Glyph}
      (hInner : Stratified (.phrase 0 node) ws) :
    Stratified (.phrase 5 (node.withParentheses true))
      (⟨.leftParen, text⟩ :: (ws ++ [⟨.rightParen, text'⟩]))

/-! ## What follows a phrase -/

/-- What may stand behind a phrase of a level: no parenthesis, which would make a
call of a name, and no operator tighter than the level. -/
structure Stratum.Behind (level : Nat) (gs : List Glyph) : Prop where
  front_ne : front gs ≠ .leftParen
  rank_le : ∀ operator ∈ Glyph.operator? gs, operator.rank ≤ level

namespace Stratum.Behind

variable {level : Nat} {gs : List Glyph}

theorem mono {level' : Nat} (hBehind : Behind level gs) (hLe : level ≤ level') :
    Behind level' gs :=
  ⟨hBehind.front_ne, fun operator hMem => Nat.le_trans (hBehind.rank_le operator hMem) hLe⟩

/-- All operators between operands are looser than those before an operand. -/
theorem loose (hBehind : Behind level gs) : Behind 4 gs :=
  ⟨hBehind.front_ne, fun _ hMem =>
    Nat.le_of_lt_succ (TokenKind.rank_lt_five_of_infixClass? (Option.mem_def.1 hMem))⟩

theorem nil (level : Nat) : Behind level [] := ⟨by simp, fun _ h => nomatch h⟩

theorem rightParen (level : Nat) (text : String) (gs : List Glyph) :
    Behind level (⟨.rightParen, text⟩ :: gs) := ⟨by simp, fun _ h => nomatch h⟩

/-- A conjunction may stand behind the lower bound of a range. -/
theorem conjunction (text : String) (gs : List Glyph) :
    Behind 2 (⟨.keyword .AND, text⟩ :: gs) :=
  ⟨by simp, fun operator hMem => by cases hMem; decide⟩

/-- Where a tighter power is demanded than any operator behind a phrase has, the
phrase ends. -/
theorem extensionDone {dialect : Dialect} {least : Nat} {left : Node}
    (hBehind : Behind level gs) (hLeast : 2 * level + 1 < least) :
    Derives dialect (.extension least left left) gs gs :=
  .extensionDone fun operator hMem => by
    have := hBehind.rank_le operator hMem
    omega

end Stratum.Behind

/-! ## Operators -/

namespace Stratum

variable {level : Nat} {kind : TokenKind} {text : String} {node : Node} {gs : List Glyph}

/-- The operators of a level are those of its rank. -/
theorem exists_infixClass? (hKind : kind ∈ operators level) :
    ∃ operator : OperatorClass, operator.isSimple = true ∧ operator.rank = level ∧
      ∀ following, kind.infixClass? following = some operator := by
  unfold operators at hKind
  split at hKind <;> simp only [List.mem_cons, List.not_mem_nil, or_false] at hKind
  · subst hKind
    exact ⟨.disjunction, rfl, rfl, fun _ => rfl⟩
  · subst hKind
    exact ⟨.conjunction, rfl, rfl, fun _ => rfl⟩
  · refine ⟨.comparison, rfl, rfl, fun _ => ?_⟩
    rcases hKind with rfl | rfl | rfl | rfl | rfl | rfl <;> rfl
  · refine ⟨.additive, rfl, rfl, fun _ => ?_⟩
    rcases hKind with rfl | rfl | rfl <;> rfl
  · refine ⟨.multiplicative, rfl, rfl, fun _ => ?_⟩
    rcases hKind with rfl | rfl | rfl <;> rfl

theorem exists_prefixClass? (hKind : kind ∈ prefixes) :
    ∃ operator, kind.prefixClass? = some operator := by
  simp only [prefixes, List.mem_cons, List.not_mem_nil, or_false] at hKind
  rcases hKind with rfl | rfl
  · exact ⟨.negation, rfl⟩
  · exact ⟨.complement, rfl⟩

/-- An operand of a single token is one of the parser's. -/
theorem Atom.derives {dialect : Dialect} (hAtom : Atom kind node)
    (hFront : front gs ≠ .leftParen) :
    Derives dialect (.operand node) (⟨kind, text⟩ :: gs) gs := by
  cases hAtom with
  | identifier value quote =>
    cases quote with
    | none => exact .column hFront
    | some quote => exact .atom rfl
  | _ => exact .atom rfl

theorem Atom.ne_select (hAtom : Atom kind node) : kind ≠ .keyword .SELECT := by
  cases hAtom <;> simp

end Stratum

namespace Stratified

/-- A phrase of a level has glyphs, and the first of them is not `SELECT`. -/
theorem exists_first {level : Nat} {node : Node} {ws : List Glyph}
    (hPhrase : Stratified (.phrase level node) ws) :
    ∃ glyph rest, ws = glyph :: rest ∧ glyph.kind ≠ .keyword .SELECT := by
  generalize hStratum : Stratum.phrase level node = stratum at hPhrase
  induction hPhrase generalizing level node with
  | phrase _ _ _ ihFirst =>
    obtain ⟨glyph, rest, rfl, hKind⟩ := ihFirst rfl
    exact ⟨glyph, _, rfl, hKind⟩
  | @unary kind text arg ws hKind =>
    refine ⟨_, _, rfl, ?_⟩
    rintro rfl
    exact absurd hKind (by decide)
  | atom hAtom => exact ⟨_, _, rfl, hAtom.ne_select⟩
  | grouped => exact ⟨_, _, rfl, by simp⟩
  | _ => cases hStratum

/-- A phrase of a level is one of every looser level. -/
theorem loosen {level level' : Nat} {node : Node} {ws : List Glyph}
    (hPhrase : Stratified (.phrase level' node) ws) (hLoose : level ≤ level')
    (hLevel : level' ≤ 5) :
    Stratified (.phrase level node) ws := by
  induction level' with
  | zero =>
    obtain rfl := Nat.le_zero.1 hLoose
    exact hPhrase
  | succ level' ih =>
    rcases Nat.le_or_eq_of_le_succ hLoose with hLoose | rfl
    · have hRow := Stratified.phrase (Nat.lt_of_succ_le hLevel) hPhrase .rowDone
      rw [List.append_nil] at hRow
      exact ih hRow hLoose (Nat.le_of_succ_le hLevel)
    · exact hPhrase

/-- An operation begins with an operator of its level. -/
theorem exists_operator {level : Nat} {left node : Node} {ws : List Glyph}
    (hLink : Stratified (.link level left node) ws) :
    ∃ operator : OperatorClass, operator.rank = level ∧ ∀ gs,
      Glyph.operator? (ws ++ gs) = some operator ∧ front (ws ++ gs) ≠ .leftParen := by
  cases hLink with
  | operation hKind =>
    obtain ⟨operator, -, hRank, hClass⟩ := Stratum.exists_infixClass? hKind
    refine ⟨operator, hRank, fun gs => ⟨hClass _, ?_⟩⟩
    rintro rfl
    cases hClass .finish
  | like | notLike => exact ⟨.likeness, rfl, fun gs => ⟨rfl, by simp⟩⟩
  | is | isNot => exact ⟨.identity, rfl, fun gs => ⟨rfl, by simp⟩⟩
  | between | notBetween => exact ⟨.range, rfl, fun gs => ⟨rfl, by simp⟩⟩

/-- A row of operations may stand behind a phrase. -/
theorem behind_row {level : Nat} {left node : Node} {ws gs : List Glyph}
    (hRow : Stratified (.row level left node) ws) (hBehind : Stratum.Behind level gs) :
    Stratum.Behind level (ws ++ gs) := by
  cases hRow with
  | rowDone => exact hBehind
  | @rowMore _ _ _ _ us vs hLink =>
    obtain ⟨operator, hRank, hOperator⟩ := hLink.exists_operator
    rw [List.append_assoc]
    obtain ⟨hClass, hFront⟩ := hOperator (vs ++ gs)
    refine ⟨hFront, fun other hMem => ?_⟩
    cases hClass.symm.trans hMem
    exact Nat.le_of_eq hRank

end Stratified

/-! ## Phrases are derived -/

/-- What a phrase is to the parser, whatever stands behind it: the first operand
of an expression; operations of an expression that come next; one of them. -/
def Stratum.Reduces (ws : List Glyph) : Stratum → Prop
  | .phrase level node => ∀ {gs is : List Glyph} {least : Nat} {whole : Node},
    Behind level gs → least ≤ 2 * level + 1 →
    Derives .generic (.extension least node whole) gs is →
    Derives .generic (.expression least whole) (ws ++ gs) is
  | .row level left node => ∀ {gs is : List Glyph} {least : Nat} {whole : Node},
    Behind level gs → least ≤ 2 * level + 1 →
    Derives .generic (.extension least node whole) gs is →
    Derives .generic (.extension least left whole) (ws ++ gs) is
  | .link level left node => ∀ {gs : List Glyph} {operator : OperatorClass},
    Behind level gs → Glyph.operator? (ws ++ gs) = some operator →
    Derives .generic (.operation left operator node) (ws ++ gs) gs

/-- A phrase ends where a power is demanded that no operator behind it has. -/
theorem Stratum.Reduces.done {level least : Nat} {node : Node} {ws gs : List Glyph}
    (hPhrase : (Stratum.phrase (level + 1) node).Reduces ws) (hBehind : Stratum.Behind level gs)
    (hLeast : least = 2 * level + 2) : Derives .generic (.expression least node) (ws ++ gs) gs :=
  hPhrase (hBehind.mono (Nat.le_succ level)) (by omega) (hBehind.extensionDone (by omega))

/-- **A phrase is derived** in front of all that may follow it. -/
theorem Stratified.reduces {stratum : Stratum} {ws : List Glyph}
    (hPhrase : Stratified stratum ws) : stratum.Reduces ws := by
  induction hPhrase with
  | phrase hLevel hFirst hRow ihFirst ihRow =>
    intro gs is least whole hBehind hLeast hExtension
    rw [List.append_assoc]
    exact ihFirst ((hRow.behind_row hBehind).mono (Nat.le_succ _)) (by omega)
      (ihRow hBehind hLeast hExtension)
  | rowDone => exact fun _ _ hExtension => hExtension
  | rowMore hLink hRow ihLink ihRow =>
    intro gs is least whole hBehind hLeast hExtension
    obtain ⟨operator, hRank, hOperator⟩ := hLink.exists_operator
    rw [List.append_assoc]
    exact .extensionMore (hOperator _).1 (hRank ▸ hLeast)
      (ihLink (hRow.behind_row hBehind) (hOperator _).1) (ihRow hBehind hLeast hExtension)
  | operation hKind _ ihRight =>
    intro gs operator hBehind hOperator
    obtain ⟨operator', hSimple, hRank, hClass⟩ := Stratum.exists_infixClass? hKind
    cases (hClass _).symm.trans hOperator
    exact .binary hSimple (hClass _) (ihRight.done hBehind (by rw [hRank]))
  | like _ ihRight =>
    intro gs operator hBehind hOperator
    cases hOperator
    exact .likeness .plain (ihRight.done hBehind rfl)
  | notLike _ ihRight =>
    intro gs operator hBehind hOperator
    cases hOperator
    exact .likeness .negated (ihRight.done hBehind rfl)
  | @is text left right ws hFront hRight ihRight =>
    intro gs operator hBehind hOperator
    cases hOperator
    have hAbsent : front (ws ++ gs) ≠ .keyword .NOT := by
      obtain ⟨glyph, rest, rfl, -⟩ := hRight.exists_first
      exact hFront
    exact .identity (.absent hAbsent) (ihRight.done hBehind rfl)
  | isNot _ ihRight =>
    intro gs operator hBehind hOperator
    cases hOperator
    exact .identity .present (ihRight.done hBehind rfl)
  | between _ _ ihLow ihHigh =>
    intro gs operator hBehind hOperator
    cases hOperator
    rw [List.cons_append, List.append_assoc]
    exact .range .plain (ihLow.done (.conjunction _ _) rfl) (ihHigh.done hBehind rfl)
  | notBetween _ _ ihLow ihHigh =>
    intro gs operator hBehind hOperator
    cases hOperator
    rw [List.cons_append, List.cons_append, List.append_assoc]
    exact .range .negated (ihLow.done (.conjunction _ _) rfl) (ihHigh.done hBehind rfl)
  | @unary kind text arg ws hKind _ ihArg =>
    intro gs is least whole hBehind _ hExtension
    obtain ⟨operator, hClass⟩ := Stratum.exists_prefixClass? hKind
    -- The operand ends at any operator, for those between operands are all looser.
    have hOperand : Derives .generic (.expression 11 arg) (ws ++ gs) gs :=
      ihArg hBehind (by decide) (hBehind.loose.extensionDone (by decide))
    exact .expression (.unary hClass hOperand) hExtension
  | atom hAtom =>
    intro gs is least whole hBehind _ hExtension
    exact .expression (hAtom.derives hBehind.front_ne) hExtension
  | @grouped text text' node ws hInner ihInner =>
    intro gs is least whole hBehind _ hExtension
    have hFront : front (ws ++ ⟨.rightParen, text'⟩ :: gs) ≠ .keyword .SELECT := by
      obtain ⟨glyph, rest, rfl, hKind⟩ := hInner.exists_first
      exact hKind
    have hDerives := ihInner (.rightParen 0 text' gs) (Nat.zero_le _)
      (.extensionDone fun _ h => nomatch h)
    rw [List.cons_append, List.append_assoc]
    exact .expression (.grouped hFront hDerives) hExtension

/-! ## The parser -/

/-- **The parser and the stratified grammar agree.**  Every phrase of the loosest
level, of whatever length and nesting, with nothing behind it, is parsed as an
expression up to the end, and the tree is the one that the grammar gives; so
the grammar gives no other. -/
theorem Stratified.expression_eq (name : String) {stream : TokenStream} {node : Node}
    (hClosed : stream.Closed) (hPhrase : Stratified (.phrase 0 node) stream.glyphs) :
    (Grammar.base name).expression 0 stream = .ok node ⟨[], stream.last⟩ ∧
      ∀ other, Stratified (.phrase 0 other) stream.glyphs → other = node := by
  have hParsed : ∀ {other}, Stratified (.phrase 0 other) stream.glyphs →
      (Grammar.base name).expression 0 stream = .ok other ⟨[], stream.last⟩ := by
    intro other hPhrase
    have hDerives : Derives .generic (.expression 0 other) (stream.glyphs ++ []) [] :=
      hPhrase.reduces (.nil 0) (Nat.zero_le _) (.extensionDone fun _ h => nomatch h)
    have hLevels : (stream.glyphs ++ []).length < stream.ahead.length + 1 := by
      simp [TokenStream.glyphs]
    obtain ⟨⟨ahead, last⟩, hRun, rfl, hAhead⟩ :=
      hDerives.parsed _ hLevels stream hClosed (List.append_nil _).symm
    obtain rfl : ahead = [] := List.map_eq_nil_iff.1 hAhead
    have hSame : (Grammar.base name).subparsers (stream.ahead.length + 1) =
        Dialect.generic.grammar.subparsers (stream.ahead.length + 1) :=
      @Grammar.subparsers_congr (.base name) .generic rfl rfl _
    rw [Grammar.expression, Grammar.subparsersFor, hSame]
    exact hRun
  refine ⟨hParsed hPhrase, fun other hOther => ?_⟩
  have hSame := (hParsed hOther).symm.trans (hParsed hPhrase)
  cases hSame
  rfl

/-- The tokens of `not a + 2 IS NOT NULL OR b NOT BETWEEN - 1 AND (c) AND d`. -/
def mixedStream : TokenStream :=
  ⟨[⟨.keyword .NOT, "not"⟩, ⟨.identifier "a" none, "a"⟩, ⟨.plus, "+"⟩, ⟨.integer 2, "2"⟩,
    ⟨.keyword .IS, "IS"⟩, ⟨.keyword .NOT, "NOT"⟩, ⟨.keyword .NULL, "NULL"⟩, ⟨.keyword .OR, "OR"⟩,
    ⟨.identifier "b" none, "b"⟩, ⟨.keyword .NOT, "NOT"⟩, ⟨.keyword .BETWEEN, "BETWEEN"⟩,
    ⟨.minus, "-"⟩, ⟨.integer 1, "1"⟩, ⟨.keyword .AND, "AND"⟩, ⟨.leftParen, "("⟩,
    ⟨.identifier "c" none, "c"⟩, ⟨.rightParen, ")"⟩, ⟨.keyword .AND, "AND"⟩,
    ⟨.identifier "d" none, "d"⟩].map fun glyph : Glyph => ⟨glyph.kind, .zero, glyph.text⟩,
    ⟨.finish, .zero, ""⟩⟩

/-- What the tokens stand for. -/
def mixedNode : Node :=
  .binary "OR"
    (.binary "is not"
      (.binary "+" (.unary "not" (.identifier "a" none)) (.constant (.integer 2))) .null)
    (.binary "AND"
      (.between (.identifier "b" none) (.unary "-" (.constant (.integer 1)))
        ((Node.identifier "c" none).withParentheses true) true)
      (.identifier "d" none))

theorem Stratified.expression_eq_mixed :
    mixedStream.Closed ∧ Stratified (.phrase 0 mixedNode) mixedStream.glyphs ∧
      (Grammar.base "any").expression 0 mixedStream = .ok mixedNode ⟨[], mixedStream.last⟩ := by
  -- Each operand counts as a phrase of the level that its place asks for.
  have hName : ∀ (value : String) (level : Nat), level ≤ 5 →
      Stratified (.phrase level (.identifier value none)) [⟨.identifier value none, value⟩] :=
    fun value level hLevel => loosen (.atom (.identifier value none)) hLevel (by decide)
  have hInteger : ∀ (value : Int64) (text : String) (level : Nat), level ≤ 5 →
      Stratified (.phrase level (.constant (.integer value))) [⟨.integer value, text⟩] :=
    fun value text level hLevel => loosen (.atom (.integer value)) hLevel (by decide)
  have hNull : Stratified (.phrase 3 .null) [⟨.keyword .NULL, "NULL"⟩] :=
    loosen (.atom .null) (by decide) (by decide)
  have hComplement := @unary (.keyword .NOT) "not" _ _ (by decide) (hName "a" 5 (by decide))
  have hNegation := @unary .minus "-" _ _ (by decide) (hInteger 1 "1" 5 (by decide))
  have hGroup := @grouped "(" ")" _ _ (hName "c" 0 (by decide))
  have hSum := phrase (by decide) (loosen hComplement (by decide : 4 ≤ 5) (by decide))
    (.rowMore (@operation 3 .plus "+" _ _ _ (by decide) (hInteger 2 "2" 4 (by decide))) .rowDone)
  have hTest := phrase (by decide) hSum (.rowMore (@isNot "IS" "NOT" _ _ _ hNull) .rowDone)
  have hRange := phrase (by decide) (hName "b" 3 (by decide))
    (.rowMore (@notBetween "NOT" "BETWEEN" "AND" _ _ _ _ _
      (loosen hNegation (by decide) (by decide)) (loosen hGroup (by decide) (by decide))) .rowDone)
  have hBoth := phrase (by decide) hRange
    (.rowMore (@operation 1 (.keyword .AND) "AND" _ _ _ (by decide) (hName "d" 2 (by decide)))
      .rowDone)
  have hEither := phrase (by decide) (loosen hTest (by decide : 1 ≤ 2) (by decide))
    (.rowMore (@operation 0 (.keyword .OR) "OR" _ _ _ (by decide) hBoth) .rowDone)
  have hClosed : mixedStream.Closed := rfl
  have hPhrase : Stratified (.phrase 0 mixedNode) mixedStream.glyphs := hEither
  exact ⟨hClosed, hPhrase, (Stratified.expression_eq "any" hClosed hPhrase).1⟩

end SqlQuery
