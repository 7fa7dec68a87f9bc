import SqlQuery.Proofs.OperatorOrder
import SqlQuery.Proofs.Rewriting

/-!
# Constructs before anything that may follow

A derivation is about one continuation.  Whether the same glyphs are the same
construct in front of another one depends on little of it: an expression must
not be followed by an operator that it would take, a list not by a comma, a
clause not by its own keyword.  A construct *frames* glyphs if they are that
construct in front of everything that it admits behind it.

Frames are put together like derivations, without regard to what follows the
whole.  So a statement can be assembled from parts that never stood in one
text: from the parts of a tree, or from what a parser has consumed and a
completion of it.

## Main definitions

* `Construct.Admits` — what may follow a construct.
* `Frames` — glyphs that are a construct in front of all that it admits.

## Main results

* `Derives.opens` — how a construct begins, if it takes anything at all.
* `Frames.call`, …, `Frames.enclosedQuery` — one rule for each way to put
  frames together.
-/

namespace SqlQuery

open Glyph (front)

/-- A keyword as it is spelled. -/
def Keyword.glyph (word : Keyword) : Glyph := ⟨.keyword word, word.spelling⟩

theorem Keyword.genuine_glyph (word : Keyword) : word.glyph.Genuine := by
  intro single hSingle
  rw [glyph, spelling, hSingle]
  exact Text.sameWord_refl _

/-! ## What may follow -/

namespace TokenKind

/-- Whether every expression is over before a token of this kind. -/
def endsExpression (kind : TokenKind) : Bool :=
  kind != .leftParen && kind != .keyword .NOT && (kind.infixClass? .finish).isNone

/-- Whether a token of this kind begins an alias. -/
def opensAlias (kind : TokenKind) : Bool := kind.isIdentifier || kind == .keyword .AS

/-- Whether a row of joins is over before a token of this kind. -/
def endsJoins (kind : TokenKind) : Bool :=
  kind.endsExpression && !kind.opensAlias && (Grammar.joinKind? kind).isNone &&
    kind != .keyword .ON

/-- Whether a query is over before a token of this kind. -/
def endsQuery (kind : TokenKind) : Bool :=
  kind == .rightParen || kind == .semicolon || kind == .finish

end TokenKind

/-- Whether an item is over before a token of a kind other than a comma. -/
def ItemSort.endsBefore : ItemSort → TokenKind → Bool
  | .expression, kind => kind.endsExpression
  | .target, kind => kind.endsExpression && !kind.opensAlias
  | .entry, kind =>
    kind.endsExpression && kind != .keyword .ASC && kind != .keyword .DESC &&
      kind != .keyword .NULLS_FIRST && kind != .keyword .NULLS_LAST

namespace Construct

/-- Whether a construct is over before a token of this kind, operators apart. -/
def endsBefore : Construct → TokenKind → Bool
  | .operand _, kind | .expression .., kind | .extension .., kind | .operation .., kind =>
    kind != .leftParen
  | .arguments _, _ => true
  | .item sort _, kind => sort.endsBefore kind
  | .items sort _, kind | .furtherItems sort _, kind => sort.endsBefore kind && kind != .comma
  | .source _, kind => !kind.opensAlias
  | .joins .., kind => kind.endsJoins
  | .clause word _, kind => kind.endsExpression && kind != .keyword word
  | .listClause word sort _, kind =>
    sort.endsBefore kind && kind != .comma && kind != .keyword word
  | .sourceClause _, kind => kind.endsJoins && kind != .keyword .FROM
  | .rules _, kind => kind.endsExpression && kind != .keyword .WHEN
  | .select _, kind | .query _, kind => kind.endsQuery

/-- The least left power of the operators that an expression takes. -/
def least? : Construct → Option Nat
  | .expression least _ | .extension least _ _ => some least
  | _ => none

/-- The least left power of the operators that would go on with a construct. -/
def power? : Construct → Option Nat
  | .operation _ operator _ => some (2 * operator.rank + 2)
  | construct => construct.least?

/-- What may follow a construct. -/
structure Admits (construct : Construct) (r : List Glyph) : Prop where
  ends : construct.endsBefore (front r) = true
  stops : ∀ least ∈ construct.power?, Stops least r

/-- A construct without operators of its own is over before a kind of token. -/
theorem admits_of_front {construct : Construct} {r : List Glyph}
    (hEnds : construct.endsBefore (front r) = true) (hPower : construct.power? = none) :
    construct.Admits r :=
  ⟨hEnds, by simp [hPower]⟩

end Construct

open Construct (admits_of_front)

theorem TokenKind.endsExpression_iff {kind : TokenKind} :
    kind.endsExpression = true ↔
      kind ≠ .leftParen ∧ kind ≠ .keyword .NOT ∧ kind.infixClass? .finish = none := by
  simp [endsExpression, and_assoc]

theorem TokenKind.endsExpression_of_opensAlias {kind : TokenKind}
    (hAlias : kind.opensAlias = true) :
    kind.endsExpression = true := by
  rcases Bool.or_eq_true _ _ ▸ hAlias with hName | hWord
  · cases kind <;> first | rfl | cases hName
  · rw [beq_iff_eq.1 hWord]
    rfl

theorem Stops.mono {least more : Nat} {r : List Glyph} (hStops : Stops least r)
    (hLe : least ≤ more) :
    Stops more r := fun operator hMem => Nat.lt_of_lt_of_le (hStops operator hMem) hLe

theorem stops_of_endsExpression {least : Nat} {r : List Glyph}
    (hEnds : (front r).endsExpression = true) : Stops least r := by
  obtain ⟨-, hNot, hClass⟩ := TokenKind.endsExpression_iff.1 hEnds
  intro operator hMem
  rw [Glyph.operator?_of_front rfl ⟨hClass, hNot⟩] at hMem
  cases hMem

/-- No operator stands between two operands as tightly as before one. -/
theorem stops_of_le {least : Nat} (hLeast : 11 ≤ least) (r : List Glyph) : Stops least r := by
  intro operator hMem
  have hRank : operator.rank ≤ 4 := by
    rw [Option.mem_def, Glyph.operator?, TokenKind.infixClass?.eq_def] at hMem
    split at hMem
    all_goals first
      | (cases hMem; decide)
      | cases hMem
      | (split at hMem <;> cases hMem <;> decide)
  omega

theorem admits_expression {least : Nat} {node : Node} {r : List Glyph}
    (hEnds : (front r).endsExpression = true) : (Construct.expression least node).Admits r :=
  ⟨bne_iff_ne.2 (TokenKind.endsExpression_iff.1 hEnds).1, fun _ _ => stops_of_endsExpression hEnds⟩

theorem admits_source {node : Node} {r : List Glyph} (hAlias : (front r).opensAlias = false) :
    (Construct.source node).Admits r :=
  admits_of_front (congrArg not hAlias) rfl

/-! ## How a construct begins -/

/-- Whether an operand, with the operators before it, begins with a token of
this kind. -/
def TokenKind.startsOperand : TokenKind → Bool
  | .integer _ | .float _ | .text _ | .identifier .. | .userVariable _ | .systemVariable _
  | .minus | .star | .leftParen | .question => true
  | .keyword word => word ∈ [.NULL, .TRUE, .FALSE, .NOT, .CAST, .CASE]
  | _ => false

/-- Whether a construct begins with a token of this kind, if it takes any. -/
def Construct.opensWith : Construct → TokenKind → Bool
  | .operand _, kind | .expression .., kind | .item .., kind | .items .., kind => kind.startsOperand
  | .arguments _, kind => kind.startsOperand || kind == .rightParen
  | .furtherItems .., kind => kind == .comma
  | .joins .., kind => (Grammar.joinKind? kind).isSome
  | .clause word _, kind | .listClause word _ _, kind => kind == .keyword word
  | .sourceClause _, kind => kind == .keyword .FROM
  | .rules _, kind => kind == .keyword .WHEN
  | .select _, kind => kind == .keyword .SELECT
  | .extension .., kind => kind != .leftParen
  | _, _ => true

section Opens

variable {dialect : Dialect} {construct : Construct} {gs hs : List Glyph}

/-- A construct begins as it should, or takes nothing. -/
theorem Derives.opens (hDerives : Derives dialect construct gs hs) :
    construct.opensWith (front gs) = true ∨ gs = hs := by
  induction hDerives with
  | @atom kind text node gs hAtom =>
    refine Or.inl ?_
    show kind.startsOperand = true
    cases Dialect.atom_of_atom? hAtom <;> rfl
  | @unary kind text operator arg gs hs hClass =>
    refine Or.inl ?_
    show kind.startsOperand = true
    unfold TokenKind.prefixClass? at hClass
    split at hClass <;> first | rfl | cases hClass
  | expression hFirst _ ih =>
    refine ih.imp id fun hSame => absurd (hFirst.length_lt rfl) (by simp [hSame])
  | items hFirst _ ih =>
    refine ih.imp id fun hSame => absurd (hFirst.length_lt rfl) (by simp [hSame])
  | expressionItem _ ih => exact ih
  | target hNode _ ih | entry hNode _ _ ih =>
    refine ih.imp id fun hSame => absurd (hNode.length_lt rfl) (by simp [hSame])
  | argumentsSome _ hItems ih =>
    rcases ih with hOpens | hSame
    · have hOperand : TokenKind.startsOperand _ = true := hOpens
      exact Or.inl (Bool.or_eq_true_iff.2 (Or.inl hOperand))
    · exact absurd (hItems.length_lt rfl) (by simp [hSame])
  | extensionMore hClass =>
    refine Or.inl (bne_iff_ne.2 fun hFront => ?_)
    rw [Glyph.operator?_of_front hFront (by decide)] at hClass
    cases hClass
  | joinsMore hKind => exact Or.inl (by simp [Construct.opensWith, hKind])
  | _ => first | exact Or.inr rfl | exact Or.inl rfl | exact Or.inl (by simp [Construct.opensWith])

/-- How a construct that takes a glyph begins. -/
theorem Derives.opens_of_solid (hDerives : Derives dialect construct gs hs)
    (hSolid : construct.isSolid = true) : construct.opensWith (front gs) = true :=
  hDerives.opens.resolve_right fun hSame => absurd (hDerives.length_lt hSolid) (by simp [hSame])

theorem Derives.front_ne_of_opens {kind : TokenKind} (hDerives : Derives dialect construct gs hs)
    (hSolid : construct.isSolid = true)
    (hKind : construct.opensWith kind = false) : front gs ≠ kind := by
  intro hFront
  have hOpens := hDerives.opens_of_solid hSolid
  rw [hFront, hKind] at hOpens
  cases hOpens

theorem Derives.front_furtherItems {sort : ItemSort} {node : Node} {nodes : List Node}
    (hDerives : Derives dialect (.furtherItems sort (node :: nodes)) gs hs) :
    front gs = .comma := by
  cases hDerives
  rfl

theorem Derives.eq_of_furtherItems_nil {sort : ItemSort}
    (hDerives : Derives dialect (.furtherItems sort []) gs hs) : gs = hs := by
  cases hDerives
  rfl

theorem Derives.front_rules {rule : Node × Node} {rules : List (Node × Node)}
    (hDerives : Derives dialect (.rules (rule :: rules)) gs hs) : front gs = .keyword .WHEN := by
  cases hDerives
  rfl

theorem Aliased.opens {node aliased : Node} (hAlias : Aliased node aliased gs hs) :
    (front gs).opensAlias = true ∨ gs = hs := by
  cases hAlias <;> first | exact Or.inl rfl | exact Or.inr rfl

theorem Directed.opens {direction : Direction} (hDirection : Directed direction gs hs) :
    front gs = .keyword .ASC ∨ front gs = .keyword .DESC ∨ gs = hs := by
  cases hDirection <;> simp

theorem Placed.opens {nulls : NullPlacement} (hNulls : Placed nulls gs hs) :
    front gs = .keyword .NULLS_FIRST ∨ front gs = .keyword .NULLS_LAST ∨ gs = hs := by
  cases hNulls <;> simp

/-- The operator of an operation stands at its front. -/
theorem Derives.operator?_of_operation {left node : Node} {operator : OperatorClass}
    (hDerives : Derives dialect (.operation left operator node) gs hs) :
    Glyph.operator? gs = some operator := by
  have hWord : ∀ {word : Keyword} {negated : Bool} {op : String} {hs : List Glyph},
      word ∈ [Keyword.LIKE, .IN, .BETWEEN] → NegatableWord word negated op gs hs →
      Glyph.operator? gs = (TokenKind.keyword word).infixClass? .finish := by
    intro word negated op hs hMem hNegatable
    simp only [List.mem_cons, List.not_mem_nil, or_false] at hMem
    rcases hMem with rfl | rfl | rfl <;> cases hNegatable <;> rfl
  cases hDerives with
  | binary hSimple hClass =>
    rename_i kind text right gs
    show kind.infixClass? _ = _
    unfold TokenKind.infixClass? at hClass ⊢
    split at hClass <;> first | exact hClass | cases hClass
  | identity => rfl
  | likeness hNegatable => exact hWord (by simp) hNegatable
  | membershipList hNegatable => exact hWord (by simp) hNegatable
  | membership hNegatable => exact hWord (by simp) hNegatable
  | range hNegatable => exact hWord (by simp) hNegatable

/-- What follows an expression is no operator that it would have taken. -/
theorem Derives.stops (hDerives : Derives dialect construct gs hs) :
    ∀ least ∈ construct.least?, Stops least hs := by
  induction hDerives with
  | expression _ _ _ ih => exact ih
  | extensionDone hStop => exact fun _ hMem => Option.some.inj hMem ▸ hStop
  | extensionMore _ _ _ _ _ ih => exact ih
  | _ => exact fun _ hMem => absurd hMem (Option.not_mem_none _)

/-- A membership test that lists what it tests for. -/
def IsListTest (gs : List Glyph) : Prop :=
  ∃ negated op text hs, NegatableWord .IN negated op gs (⟨.leftParen, text⟩ :: hs) ∧
    front hs ≠ .keyword .SELECT

theorem IsListTest.operator? (hList : IsListTest gs) : Glyph.operator? gs = some .membership := by
  obtain ⟨negated, op, text, hs, hWord, -⟩ := hList
  cases hWord <;> rfl

/-- What follows an operation is no operator that its right operand would have
taken, unless that is a list. -/
theorem Derives.stops_of_operation {left node : Node} {operator : OperatorClass}
    (hDerives : Derives dialect (.operation left operator node) gs hs) :
    Stops (2 * operator.rank + 2) hs ∨ IsListTest gs := by
  cases hDerives with
  | binary _ _ hRight => exact Or.inl (hRight.stops _ rfl)
  | identity _ hRight => exact Or.inl (hRight.stops _ rfl)
  | likeness _ hRight => exact Or.inl (hRight.stops _ rfl)
  | membershipList hWord hFront => exact Or.inr ⟨_, _, _, _, hWord, hFront⟩
  | membership _ _ hRight => exact Or.inl (hRight.stops _ rfl)
  | range _ _ hHigh => exact Or.inl (hHigh.stops _ rfl)

end Opens

/-! ## Frames -/

/-- Glyphs that are a construct in front of all that it admits. -/
def Frames (dialect : Dialect) (construct : Construct) (xs : List Glyph) : Prop :=
  ∀ r, construct.Admits r → Derives dialect construct (xs ++ r) r

namespace Frames

variable {dialect : Dialect} {xs ys zs : List Glyph} {node : Node} {text text' : String}

/-- A construct before a glyph that is no operator. -/
theorem before {construct : Construct} (hFrames : Frames dialect construct xs) (glyph : Glyph)
    (r : List Glyph)
    (hEnds : construct.endsBefore glyph.kind = true ∧ glyph.kind.endsExpression = true) :
    Derives dialect construct (xs ++ glyph :: r) (glyph :: r) :=
  hFrames _ ⟨hEnds.1, fun _ _ => stops_of_endsExpression hEnds.2⟩

/-- A construct before another, if it is over before both the second and what
follows that. -/
theorem next {first second : Construct} {r : List Glyph} (hFirst : Frames dialect first xs)
    (hSecond : Derives dialect second (ys ++ r) r)
    (hOpens : ∀ kind, second.opensWith kind = true →
      first.endsBefore kind = true ∧ kind.endsExpression = true)
    (hAdmits : first.Admits r) : Derives dialect first (xs ++ (ys ++ r)) (ys ++ r) := by
  refine hFirst _ ?_
  rcases hSecond.opens with hFront | hSame
  · obtain ⟨hEnds, hExpression⟩ := hOpens _ hFront
    exact ⟨hEnds, fun _ _ => stops_of_endsExpression hExpression⟩
  · rwa [hSame]

/-! ### Operands -/

theorem atom {kind : TokenKind} (hAtom : dialect.atom? kind = some node) (text : String) :
    Frames dialect (.operand node) [⟨kind, text⟩] :=
  fun _ _ => .atom hAtom

theorem column (value text : String) :
    Frames dialect (.operand (.identifier value none)) [⟨.identifier value none, text⟩] :=
  fun _ hr => .column (bne_iff_ne.1 hr.ends)

theorem call {value : String} {distinct : Bool} {args : List Node}
    (hDistinct : ∀ r, front r ≠ .keyword .DISTINCT → OptionalWord .DISTINCT distinct (xs ++ r) r)
    (hArgs : Frames dialect (.arguments args) ys) (text text' : String) :
    Frames dialect (.operand (.call value args distinct))
      (⟨.identifier value none, text⟩ :: ⟨.leftParen, text'⟩ :: (xs ++ ys)) := by
  intro r _
  have hRest := hArgs r (admits_of_front rfl rfl)
  rw [List.cons_append, List.cons_append, List.append_assoc]
  exact .call (hDistinct _ (hRest.front_ne_of_opens rfl rfl)) hRest

theorem unary {kind : TokenKind} {operator : OperatorClass} {arg : Node}
    (hClass : kind.prefixClass? = some operator) (hArg : Frames dialect (.expression 11 arg) xs)
    (text : String) : Frames dialect (.operand (.unary text arg)) (⟨kind, text⟩ :: xs) :=
  fun r hr => .unary hClass
    (hArg r ⟨hr.ends, fun _ hMem => stops_of_le (Option.some.inj hMem).le r⟩)

theorem subquery (hSelect : Frames dialect (.select node) xs) (text text' : String) :
    Frames dialect (.operand (node.withParentheses true))
      (⟨.leftParen, text⟩ :: (xs ++ [⟨.rightParen, text'⟩])) := by
  intro r _
  have hInner := hSelect.before ⟨.rightParen, text'⟩ r ⟨rfl, rfl⟩
  rw [List.cons_append, List.append_assoc]
  exact .subquery (beq_iff_eq.1 (hInner.opens_of_solid rfl)) hInner

theorem grouped (hNode : Frames dialect (.expression 0 node) xs) (text text' : String) :
    Frames dialect (.operand (node.withParentheses true))
      (⟨.leftParen, text⟩ :: (xs ++ [⟨.rightParen, text'⟩])) := by
  intro r _
  have hInner := hNode.before ⟨.rightParen, text'⟩ r ⟨rfl, rfl⟩
  rw [List.cons_append, List.append_assoc]
  exact .grouped (hInner.front_ne_of_opens rfl rfl) hInner

theorem tuple {first second : Node} {further : List Node}
    (hFirst : Frames dialect (.expression 0 first) xs)
    (hFurther : Frames dialect (.furtherItems .expression (second :: further)) ys)
    (text text' : String) :
    Frames dialect (.operand (.tuple (first :: second :: further)))
      (⟨.leftParen, text⟩ :: (xs ++ ys ++ [⟨.rightParen, text'⟩])) := by
  intro r _
  have hRest := hFurther.before ⟨.rightParen, text'⟩ r ⟨rfl, rfl⟩
  have hComma := hRest.front_furtherItems
  have hInner := hFirst _ (admits_expression (by rw [hComma]; rfl))
  rw [List.cons_append, List.append_assoc, List.append_assoc]
  exact .tuple (hInner.front_ne_of_opens rfl rfl) hInner hComma hRest

theorem typeCast {arg : Node} {name : String} (hArg : Frames dialect (.expression 0 arg) xs)
    (hName : ∀ r, front r = .rightParen → TypeName name (ys ++ r) r)
    (text text' text'' close : String) :
    Frames dialect (.operand (.ofForm (.typeCast name arg)))
      (⟨.keyword .CAST, text⟩ :: ⟨.leftParen, text'⟩ ::
        (xs ++ ⟨.keyword .AS, text''⟩ :: (ys ++ [⟨.rightParen, close⟩]))) := by
  intro r _
  have hType := hName (⟨.rightParen, close⟩ :: r) rfl
  have hInner := hArg.before ⟨.keyword .AS, text''⟩ (ys ++ ⟨.rightParen, close⟩ :: r) ⟨rfl, rfl⟩
  simpa using Derives.typeCast hInner hType

theorem caseWhen {rule : Node × Node} {rules : List (Node × Node)} {default : Option Node}
    (hRules : Frames dialect (.rules (rule :: rules)) xs)
    (hDefault : Frames dialect (.clause .ELSE default) ys) (text text' : String) :
    Frames dialect (.operand (.ofForm (.caseWhen (rule :: rules) default)))
      (⟨.keyword .CASE, text⟩ :: (xs ++ ys ++ [⟨.keyword .END, text'⟩])) := by
  intro r _
  have hRest := hDefault.before ⟨.keyword .END, text'⟩ r ⟨rfl, rfl⟩
  have hList := hRules.next hRest (fun kind hKind => by rw [beq_iff_eq.1 hKind]; exact ⟨rfl, rfl⟩)
    (admits_of_front rfl rfl)
  simpa using Derives.caseWhen hList.front_rules hList hRest

theorem rulesDone : Frames dialect (.rules []) [] :=
  fun _ hr => .rulesDone (bne_iff_ne.1 (Bool.and_eq_true_iff.1 hr.ends).2)

theorem rulesMore {condition result : Node} {rules : List (Node × Node)}
    (hCondition : Frames dialect (.expression 0 condition) xs)
    (hResult : Frames dialect (.expression 0 result) ys)
    (hRules : Frames dialect (.rules rules) zs) (text text' : String) :
    Frames dialect (.rules ((condition, result) :: rules))
      (⟨.keyword .WHEN, text⟩ :: (xs ++ ⟨.keyword .THEN, text'⟩ :: (ys ++ zs))) := by
  intro r hr
  have hRest := hRules r ⟨hr.ends, hr.stops⟩
  have hSecond := hResult.next hRest
    (fun kind hKind => by rw [beq_iff_eq.1 hKind]; exact ⟨rfl, rfl⟩)
    (admits_expression (Bool.and_eq_true_iff.1 hr.ends).1)
  have hFirst := hCondition.before ⟨.keyword .THEN, text'⟩ (ys ++ (zs ++ r)) ⟨rfl, rfl⟩
  simpa using Derives.rulesMore hFirst hSecond hRest

/-! ### Expressions -/

theorem expression {least : Nat} {first : Node} (hFirst : Frames dialect (.operand first) xs)
    (hExtension : Frames dialect (.extension least first node) ys) :
    Frames dialect (.expression least node) (xs ++ ys) := by
  intro r hr
  have hRest := hExtension r ⟨hr.ends, hr.stops⟩
  rw [List.append_assoc]
  refine .expression (hFirst _ (admits_of_front ?_ rfl)) hRest
  rcases hRest.opens with hFront | hSame
  · exact hFront
  · rw [hSame]
    exact hr.ends

theorem binary {left right : Node} {operator : OperatorClass} {kind : TokenKind}
    (hSimple : operator.isSimple = true) (hClass : kind.infixClass? .finish = some operator)
    (hRight : Frames dialect (.expression (2 * operator.rank + 2) right) xs) (text : String) :
    Frames dialect (.operation left operator (.binary text left right)) (⟨kind, text⟩ :: xs) :=
  fun r hr => .binary hSimple hClass (hRight r ⟨hr.ends, hr.stops⟩)

theorem identity {left right : Node} {negated : Bool}
    (hRight : Frames dialect (.expression 6 right) ys) (xs : List Glyph)
    (hNegated : ∀ r, OptionalWord .NOT negated (xs ++ (ys ++ r)) (ys ++ r)) (text : String) :
    Frames dialect
      (.operation left .identity (.binary (if negated then "is not" else "is") left right))
      (⟨.keyword .IS, text⟩ :: (xs ++ ys)) := by
  intro r hr
  rw [List.cons_append, List.append_assoc]
  exact .identity (hNegated r) (hRight r ⟨hr.ends, hr.stops⟩)

theorem likeness {left right : Node} {negated : Bool} {op : String}
    (hWord : ∀ r, NegatableWord .LIKE negated op (xs ++ r) r)
    (hRight : Frames dialect (.expression 6 right) ys) :
    Frames dialect (.operation left .likeness (.binary op left right)) (xs ++ ys) := by
  intro r hr
  rw [List.append_assoc]
  exact .likeness (hWord _) (hRight r ⟨hr.ends, hr.stops⟩)

/-- A list test is complete whatever follows. -/
theorem membershipList {left : Node} {items : List Node} {negated : Bool} {op : String}
    (hWord : ∀ r, NegatableWord .IN negated op (xs ++ r) r)
    (hItems : Frames dialect (.arguments items) ys) (text : String) (r : List Glyph) :
    Derives dialect (.operation left .membership (.binary op left (.tuple items)))
      (xs ++ ⟨.leftParen, text⟩ :: ys ++ r) r := by
  have hList := hItems r (admits_of_front rfl rfl)
  rw [List.append_assoc]
  exact .membershipList (hWord _) (hList.front_ne_of_opens rfl rfl) hList

theorem membership {left right : Node} {negated : Bool} {op : String}
    (hWord : ∀ r, NegatableWord .IN negated op (xs ++ r) r)
    (hRight : Frames dialect (.expression 6 right) ys)
    (hFront : ∀ r, front (ys ++ r) = .leftParen → front (ys ++ r).tail = .keyword .SELECT) :
    Frames dialect (.operation left .membership (.binary op left right)) (xs ++ ys) := by
  intro r hr
  rw [List.append_assoc]
  exact .membership (hWord _) (hFront r) (hRight r ⟨hr.ends, hr.stops⟩)

theorem range {left low high : Node} {negated : Bool} {op : String}
    (hWord : ∀ r, NegatableWord .BETWEEN negated op (xs ++ r) r)
    (hLow : Frames dialect (.expression 6 low) ys) (hHigh : Frames dialect (.expression 6 high) zs)
    (text : String) :
    Frames dialect (.operation left .range (.between left low high negated))
      (xs ++ (ys ++ ⟨.keyword .AND, text⟩ :: zs)) := by
  intro r hr
  have hBound := hLow (⟨.keyword .AND, text⟩ :: (zs ++ r))
    ⟨rfl, fun _ hMem operator hOperator => by cases hMem; cases hOperator; decide⟩
  simpa using Derives.range (hWord _) hBound (hHigh r ⟨hr.ends, hr.stops⟩)

/-! ### Lists -/

theorem argumentsNone (text : String) : Frames dialect (.arguments []) [⟨.rightParen, text⟩] :=
  fun _ _ => .argumentsNone

theorem argumentsSome {nodes : List Node} (hItems : Frames dialect (.items .expression nodes) xs)
    (text : String) : Frames dialect (.arguments nodes) (xs ++ [⟨.rightParen, text⟩]) := by
  intro r _
  have hInner := hItems.before ⟨.rightParen, text⟩ r ⟨rfl, rfl⟩
  rw [List.append_assoc]
  exact .argumentsSome (hInner.front_ne_of_opens rfl rfl) hInner

theorem furtherDone {sort : ItemSort} : Frames dialect (.furtherItems sort []) [] :=
  fun _ hr => .furtherDone (bne_iff_ne.1 (Bool.and_eq_true_iff.1 hr.ends).2)

section Items

variable {sort : ItemSort} {nodes : List Node}

/-- An item before further items. -/
theorem item_next {r : List Glyph} (hItem : Frames dialect (.item sort node) xs)
    (hRest : Derives dialect (.furtherItems sort nodes) (ys ++ r) r)
    (hr : (Construct.furtherItems sort nodes).Admits r) :
    Derives dialect (.item sort node) (xs ++ (ys ++ r)) (ys ++ r) := by
  refine hItem.next hRest (fun kind hKind => ?_)
    (admits_of_front (Bool.and_eq_true_iff.1 hr.ends).1 rfl)
  rw [beq_iff_eq.1 hKind]
  cases sort <;> exact ⟨rfl, rfl⟩

theorem items (hFirst : Frames dialect (.item sort node) xs)
    (hFurther : Frames dialect (.furtherItems sort nodes) ys) :
    Frames dialect (.items sort (node :: nodes)) (xs ++ ys) := by
  intro r hr
  have hRest := hFurther r ⟨hr.ends, hr.stops⟩
  rw [List.append_assoc]
  exact .items (hFirst.item_next hRest ⟨hr.ends, hr.stops⟩) hRest

theorem furtherMore (hItem : Frames dialect (.item sort node) xs)
    (hFurther : Frames dialect (.furtherItems sort nodes) ys) (text : String) :
    Frames dialect (.furtherItems sort (node :: nodes)) (⟨.comma, text⟩ :: (xs ++ ys)) := by
  intro r hr
  have hRest := hFurther r ⟨hr.ends, hr.stops⟩
  rw [List.cons_append, List.append_assoc]
  exact .furtherMore (hItem.item_next hRest ⟨hr.ends, hr.stops⟩) hRest

end Items

theorem expressionItem (hNode : Frames dialect (.expression 0 node) xs) :
    Frames dialect (.item .expression node) xs :=
  fun r hr => .expressionItem (hNode r (admits_expression hr.ends))

theorem target {aliased : Node} (hNode : Frames dialect (.expression 0 node) xs)
    (hAlias : ∀ r, (front r).opensAlias = false → Aliased node aliased (ys ++ r) r) :
    Frames dialect (.item .target aliased) (xs ++ ys) := by
  intro r hr
  obtain ⟨hExpression, hFree⟩ := Bool.and_eq_true_iff.1 hr.ends
  have hName := hAlias r (Bool.not_eq_true' _ ▸ hFree)
  rw [List.append_assoc]
  refine .target (hNode _ (admits_expression ?_)) hName
  rcases hName.opens with hFront | hSame
  · exact TokenKind.endsExpression_of_opensAlias hFront
  · rw [hSame]
    exact hExpression

theorem entry {field : Node} {direction : Direction} {nulls : NullPlacement}
    (hField : Frames dialect (.expression 0 field) xs)
    (hDirection : ∀ r, front r ≠ .keyword .ASC → front r ≠ .keyword .DESC →
      Directed direction (ys ++ r) r)
    (hNulls : ∀ r, front r ≠ .keyword .NULLS_FIRST → front r ≠ .keyword .NULLS_LAST →
      Placed nulls (zs ++ r) r) :
    Frames dialect (.item .entry (.ofForm (.orderBy field direction nulls)))
      (xs ++ (ys ++ zs)) := by
  intro r hr
  have hEnds : ItemSort.entry.endsBefore (front r) = true := hr.ends
  simp only [ItemSort.endsBefore, Bool.and_eq_true, bne_iff_ne] at hEnds
  obtain ⟨⟨⟨⟨hExpression, hAscending⟩, hDescending⟩, hFirst⟩, hLast⟩ := hEnds
  have hPlaced := hNulls r hFirst hLast
  have hFronts : (front (zs ++ r)).endsExpression = true ∧ front (zs ++ r) ≠ .keyword .ASC ∧
      front (zs ++ r) ≠ .keyword .DESC := by
    rcases hPlaced.opens with hFront | hFront | hSame
    · simp [hFront, TokenKind.endsExpression, TokenKind.infixClass?]
    · simp [hFront, TokenKind.endsExpression, TokenKind.infixClass?]
    · rw [hSame]
      exact ⟨hExpression, hAscending, hDescending⟩
  have hDirected := hDirection _ hFronts.2.1 hFronts.2.2
  rw [List.append_assoc, List.append_assoc]
  refine .entry (hField _ (admits_expression ?_)) hDirected hPlaced
  rcases hDirected.opens with hFront | hFront | hSame
  · rw [hFront]
    rfl
  · rw [hFront]
    rfl
  · rw [hSame]
    exact hFronts.1

/-! ### Sources -/

theorem table {kind : TokenKind} {aliased : Node} (hTable : dialect.table? kind = some node)
    (hAlias : ∀ r, (front r).opensAlias = false → Aliased node aliased (xs ++ r) r)
    (text : String) :
    Frames dialect (.source aliased) (⟨kind, text⟩ :: xs) :=
  fun r hr => .table hTable (hAlias r (Bool.not_eq_true' _ ▸ hr.ends))

theorem derivedTable {aliased : Node} (hSelect : Frames dialect (.select node) xs)
    (hAlias : ∀ r, (front r).opensAlias = false →
      Aliased (node.withParentheses true) aliased (ys ++ r) r) (text text' : String) :
    Frames dialect (.source aliased)
      (⟨.leftParen, text⟩ :: (xs ++ ⟨.rightParen, text'⟩ :: ys)) := by
  intro r hr
  have hInner := hSelect.before ⟨.rightParen, text'⟩ (ys ++ r) ⟨rfl, rfl⟩
  have hSource : Derives dialect (.source aliased) (⟨.leftParen, text⟩ :: _) r :=
    .derivedTable hInner (hAlias r (Bool.not_eq_true' _ ▸ hr.ends))
  simpa using hSource

section Joins

variable {left right : Node} {join : JoinKind} {kind : TokenKind}

theorem joinsDone : Frames dialect (.joins left left) [] := fun r hr => by
  have hEnds : (front r).endsJoins = true := hr.ends
  simp only [TokenKind.endsJoins, Bool.and_eq_true, Option.isNone_iff_eq_none] at hEnds
  exact .joinsDone hEnds.1.2

/-- What joins begin with, or end before, ends a condition and is no alias. -/
theorem front_joins {r : List Glyph} (hJoins : Derives dialect (.joins left node) (xs ++ r) r)
    (hr : (front r).endsJoins = true) :
    (front (xs ++ r)).endsExpression = true ∧ (front (xs ++ r)).opensAlias = false ∧
      front (xs ++ r) ≠ .keyword .ON := by
  rcases hJoins.opens with hFront | hSame
  · generalize front (xs ++ r) = kind at hFront
    change (Grammar.joinKind? kind).isSome = true at hFront
    unfold Grammar.joinKind? at hFront
    split at hFront <;> first | exact ⟨rfl, rfl, by simp⟩ | cases hFront
  · rw [hSame]
    simp only [TokenKind.endsJoins, Bool.and_eq_true, Bool.not_eq_true', bne_iff_ne] at hr
    exact ⟨hr.1.1.1, hr.1.1.2, hr.2⟩

/-- A comma joins without a condition. -/
theorem joinsComma (hRight : Frames dialect (.source right) xs)
    (hJoins : Frames dialect (.joins (.ofForm (.join left right .comma none)) node) ys)
    (text : String) : Frames dialect (.joins left node) (⟨.comma, text⟩ :: (xs ++ ys)) := by
  intro r hr
  have hRest := hJoins r ⟨hr.ends, hr.stops⟩
  obtain ⟨-, hAlias, -⟩ := front_joins hRest hr.ends
  rw [List.cons_append, List.append_assoc]
  exact .joinsMore (show Grammar.joinKind? .comma = some .comma from rfl)
    (hRight _ (admits_source hAlias))
    (fun _ => ⟨rfl, rfl⟩) (fun hJoin => absurd rfl hJoin) hRest

theorem joinsMore {condition : Option Node} (hKind : Grammar.joinKind? kind = some join)
    (hJoin : join ≠ .comma) (hRight : Frames dialect (.source right) xs)
    (hCondition : Frames dialect (.clause .ON condition) ys)
    (hJoins : Frames dialect (.joins (.ofForm (.join left right join condition)) node) zs)
    (text : String) : Frames dialect (.joins left node) (⟨kind, text⟩ :: (xs ++ (ys ++ zs))) := by
  intro r hr
  have hRest := hJoins r ⟨hr.ends, hr.stops⟩
  obtain ⟨hExpression, hAlias, hOn⟩ := front_joins hRest hr.ends
  have hClause := hCondition (zs ++ r)
    (admits_of_front (Bool.and_eq_true_iff.2 ⟨hExpression, bne_iff_ne.2 hOn⟩) rfl)
  have hSource := hRight.next hClause
    (fun kind hKind => by rw [beq_iff_eq.1 hKind]; exact ⟨rfl, rfl⟩)
    (admits_source hAlias)
  rw [List.cons_append, List.append_assoc, List.append_assoc]
  exact .joinsMore hKind hSource (fun hComma => absurd hComma hJoin) (fun _ => hClause) hRest

end Joins

/-! ### Clauses and queries -/

section Clauses

variable {word : Keyword} {sort : ItemSort} {nodes : List Node}

theorem clauseNone : Frames dialect (.clause word none) [] :=
  fun _ hr => .clauseNone (bne_iff_ne.1 (Bool.and_eq_true_iff.1 hr.ends).2)

theorem clauseSome (hNode : Frames dialect (.expression 0 node) xs) (text : String) :
    Frames dialect (.clause word (some node)) (⟨.keyword word, text⟩ :: xs) :=
  fun r hr => .clauseSome (hNode r (admits_expression (Bool.and_eq_true_iff.1 hr.ends).1))

theorem listClauseNone : Frames dialect (.listClause word sort []) [] :=
  fun _ hr => .listClauseNone (bne_iff_ne.1 (Bool.and_eq_true_iff.1 hr.ends).2)

theorem listClauseSome (hItems : Frames dialect (.items sort nodes) xs) (text : String) :
    Frames dialect (.listClause word sort nodes) (⟨.keyword word, text⟩ :: xs) :=
  fun r hr => .listClauseSome (hItems r (admits_of_front (Bool.and_eq_true_iff.1 hr.ends).1 rfl))

theorem sourceClauseNone : Frames dialect (.sourceClause none) [] :=
  fun _ hr => .sourceClauseNone (bne_iff_ne.1 (Bool.and_eq_true_iff.1 hr.ends).2)

theorem sourceClauseSome {first : Node} (hFirst : Frames dialect (.source first) xs)
    (hJoins : Frames dialect (.joins first node) ys) (text : String) :
    Frames dialect (.sourceClause (some node)) (⟨.keyword .FROM, text⟩ :: (xs ++ ys)) := by
  intro r hr
  have hEnds : (front r).endsJoins = true := (Bool.and_eq_true_iff.1 hr.ends).1
  have hRest := hJoins r (admits_of_front hEnds rfl)
  obtain ⟨-, hAlias, -⟩ := front_joins hRest hEnds
  rw [List.cons_append, List.append_assoc]
  exact .sourceClauseSome (hFirst _ (admits_source hAlias)) hRest

/-- The kinds that stand behind a clause after which those of `words` may come. -/
def clauseEnds (words : List Keyword) : List TokenKind :=
  [.rightParen, .semicolon, .finish] ++ words.map .keyword

/-- A clause before those that may come after it. -/
theorem clause_next {construct : Construct} {words : List Keyword} {r : List Glyph}
    (hFrames : Frames dialect construct xs) (word : Keyword) (hr : front r ∈ clauseEnds words)
    (hEnds : (clauseEnds words).all construct.endsBefore = true)
    (hPower : construct.power? = none)
    (hOpens : ∀ kind, construct.opensWith kind = true → kind = .keyword word) :
    Derives dialect construct (xs ++ r) r ∧ front (xs ++ r) ∈ clauseEnds (word :: words) := by
  have hDerives := hFrames r (admits_of_front (List.all_eq_true.1 hEnds _ hr) hPower)
  refine ⟨hDerives, ?_⟩
  rcases hDerives.opens with hFront | hSame
  · rw [hOpens _ hFront]
    simp [clauseEnds]
  · rw [hSame]
    simp only [clauseEnds, List.mem_append, List.map_cons, List.mem_cons] at hr ⊢
    exact hr.imp id Or.inr

theorem select {query : Query Node} {g₁ g₂ g₃ g₄ g₅ g₆ g₇ g₈ g₉ : List Glyph}
    (hDistinct : ∀ r, front r ≠ .keyword .DISTINCT → front r ≠ .keyword .ALL →
      Distinctness query.distinct (g₁ ++ r) r)
    (hTargets : Frames dialect (.items .target query.targets) g₂)
    (hSource : Frames dialect (.sourceClause query.source) g₃)
    (hCondition : Frames dialect (.clause .WHERE query.condition) g₄)
    (hGroups : Frames dialect (.listClause .GROUP_BY .expression query.groups) g₅)
    (hHaving : Frames dialect (.clause .HAVING query.having) g₆)
    (hOrdering : Frames dialect (.listClause .ORDER_BY .entry query.ordering) g₇)
    (hLimit : Frames dialect (.clause .LIMIT query.limit) g₈)
    (hOffset : Frames dialect (.clause .OFFSET query.offset) g₉) (text : String) :
    Frames dialect (.select (.ofForm (.select query))) (⟨.keyword .SELECT, text⟩ ::
      (g₁ ++ (g₂ ++ (g₃ ++ (g₄ ++ (g₅ ++ (g₆ ++ (g₇ ++ (g₈ ++ g₉))))))))) := by
  intro r hr
  have hEnd : front r ∈ clauseEnds [] := by
    have hEnds : (front r).endsQuery = true := hr.ends
    simpa [clauseEnds, TokenKind.endsQuery, or_assoc] using hEnds
  -- Each clause stands before what is left of the list of clauses.
  obtain ⟨hOffset, h₉⟩ := hOffset.clause_next .OFFSET hEnd rfl rfl fun _ => beq_iff_eq.1
  obtain ⟨hLimit, h₈⟩ := hLimit.clause_next .LIMIT h₉ rfl rfl fun _ => beq_iff_eq.1
  obtain ⟨hOrdering, h₇⟩ := hOrdering.clause_next .ORDER_BY h₈ rfl rfl fun _ => beq_iff_eq.1
  obtain ⟨hHaving, h₆⟩ := hHaving.clause_next .HAVING h₇ rfl rfl fun _ => beq_iff_eq.1
  obtain ⟨hGroups, h₅⟩ := hGroups.clause_next .GROUP_BY h₆ rfl rfl fun _ => beq_iff_eq.1
  obtain ⟨hCondition, h₄⟩ := hCondition.clause_next .WHERE h₅ rfl rfl fun _ => beq_iff_eq.1
  obtain ⟨hSource, h₃⟩ := hSource.clause_next .FROM h₄ rfl rfl fun _ => beq_iff_eq.1
  have hTargets := hTargets _ (admits_of_front (List.all_eq_true.1
    (show List.all _ (Construct.items .target query.targets).endsBefore = true from rfl) _ h₃) rfl)
  simpa using Derives.select
    (hDistinct _ (hTargets.front_ne_of_opens rfl rfl) (hTargets.front_ne_of_opens rfl rfl))
    hTargets hSource hCondition hGroups hHaving hOrdering hLimit hOffset

end Clauses

theorem bareQuery (hSelect : Frames dialect (.select node) xs) :
    Frames dialect (.query node) xs := by
  intro r hr
  have hDerives := hSelect r ⟨hr.ends, hr.stops⟩
  exact .bareQuery (hDerives.front_ne_of_opens rfl rfl) hDerives

theorem enclosedQuery (hQuery : Frames dialect (.query node) xs) (text text' : String) :
    Frames dialect (.query (node.withParentheses true))
      (⟨.leftParen, text⟩ :: (xs ++ [⟨.rightParen, text'⟩])) := by
  intro r _
  rw [List.cons_append, List.append_assoc]
  exact .enclosedQuery (hQuery.before ⟨.rightParen, text'⟩ r ⟨rfl, rfl⟩)

end Frames

end SqlQuery
