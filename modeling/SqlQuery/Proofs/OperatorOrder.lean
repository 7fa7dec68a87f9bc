import Mathlib.Data.ENat.Basic
import SqlQuery.Node.Equality
import SqlQuery.Proofs.OperatorText

/-!
# Precedence in parsed trees

A node has a *level*: that of its operator in the table of precedence, and
infinity if it is no operation or stands in parentheses.  In a parsed tree an
operation takes operands of higher levels on its right, and operands of at
least its own level on its left.

There is one exception.  A membership test against a list, such as
`a IN (1, 2)`, is complete at the closing parenthesis, without regard to what
follows.  An operator of a higher level that follows it takes the whole test as
its left operand: `a IN (1) + 2` is a sum.

## Main results

* `parse_graded` — where a parsed tree obeys the table of precedence.
-/

namespace SqlQuery

open Glyph (front AllGenuine)

namespace Node

/-! ## Levels -/

/-- The level of a node's operator; nothing for a node that is no operation or
stands in parentheses. -/
def level? (node : Node) : Option Nat :=
  if node.parentheses then none
  else match node.form with
    | .binary op _ _ => (operatorClass? op).map OperatorClass.rank
    | .between .. => some 2
    | .unary .. => some 5
    | _ => none

/-- The level of a node, infinite where there is no operator to be held apart
from its surroundings. -/
def level (node : Node) : ℕ∞ :=
  match node.level? with
  | some k => k
  | none => ⊤

theorem le_level_iff {k : Nat} {node : Node} :
    (k : ℕ∞) ≤ node.level ↔ ∀ l ∈ node.level?, k ≤ l := by
  rw [level]
  cases node.level? <;> simp

theorem lt_level_iff {k : Nat} {node : Node} :
    (k : ℕ∞) < node.level ↔ ∀ l ∈ node.level?, k < l := by
  rw [level]
  cases node.level? <;> simp

/-- A node inside a tree, the tree itself included. -/
inductive Inside : Node → Node → Prop
  | self (node : Node) : Inside node node
  | part {inner part node : Node} (hPart : part ∈ node.form.parts) (hInside : Inside inner part) :
    Inside inner node

/-! ## Order of levels at one node -/

/-- What stands to the left of the node's operator has at least its level. -/
def GradedLeft (node : Node) : Prop :=
  match node.form with
  | .binary op left _ => ∃ operator, operatorClass? op = some operator ∧ operator.rank ≤ left.level
  | .between subject _ _ _ => 2 ≤ subject.level
  | _ => True

/-- What stands to the right of the node's operator has a higher level; the
operand of a prefix has at least the level of the prefix. -/
def GradedRight (node : Node) : Prop :=
  match node.form with
  | .binary op _ right =>
    ∃ operator, operatorClass? op = some operator ∧ operator.rank < right.level
  | .between _ low high _ => 2 < low.level ∧ 2 < high.level
  | .unary _ arg => 5 ≤ arg.level
  | _ => True

/-- Whether a node is a membership test against a list, without parentheses
around it. -/
def isOpenListTest (node : Node) : Bool :=
  !node.parentheses && match node.form with
    | .binary op _ right => operatorClass? op == some .membership && (right.form matches .tuple _)
    | _ => false

/-- Whether a node is an operation of a higher level whose left operand is a
membership test against a list. -/
def extendsListTest (node : Node) : Bool :=
  match node.form with
  | .binary op left _ =>
    (operatorClass? op).any (fun operator => Nat.blt 2 operator.rank) && left.isOpenListTest
  | _ => false

theorem level?_of_isOpenListTest {node : Node} (hTest : node.isOpenListTest = true) :
    node.level? = some 2 := by
  obtain ⟨form, aliasName, parentheses⟩ := node
  cases form <;> simp_all [isOpenListTest, level?, OperatorClass.rank]

end Node

namespace Node

/-- Everywhere inside a tree the levels are in order, but for operations that
extend a list test. -/
def Graded (node : Node) : Prop :=
  ∀ inner, Inside inner node →
    inner.GradedRight ∧ (inner.GradedLeft ∨ inner.extendsListTest = true)

/-- The order of levels passes from the parts of a node to the node. -/
theorem graded_of_parts {node : Node}
    (hNode : node.GradedRight ∧ (node.GradedLeft ∨ node.extendsListTest = true))
    (hParts : ∀ part ∈ node.form.parts, part.Graded) : node.Graded := by
  intro inner hInside
  cases hInside with
  | self => exact hNode
  | part hPart hInside => exact hParts _ hPart inner hInside

/-- The decorations of a node have no part in the order of levels inside it. -/
theorem Graded.of_form_eq {node other : Node} (hGraded : node.Graded)
    (hForm : other.form = node.form) : other.Graded := by
  have hSelf := hGraded node (.self node)
  refine graded_of_parts ?_ fun part hPart inner hInside =>
    hGraded inner (.part (hForm ▸ hPart) hInside)
  unfold GradedRight GradedLeft extendsListTest at *
  rw [hForm]
  exact hSelf

/-- A node that is no operation is in order if its parts are. -/
theorem graded_ofForm {form : Form Node} (hParts : ∀ part ∈ form.parts, part.Graded)
    (hPlain : ∀ op left right, form ≠ .binary op left right)
    (hRange : ∀ subject low high negated, form ≠ .between subject low high negated)
    (hPrefix : ∀ op arg, form ≠ .unary op arg) : (ofForm form).Graded := by
  refine graded_of_parts ?_ hParts
  unfold GradedRight GradedLeft ofForm
  cases form with
  | binary op left right => exact absurd rfl (hPlain op left right)
  | between subject low high negated => exact absurd rfl (hRange subject low high negated)
  | unary op arg => exact absurd rfl (hPrefix op arg)
  | _ => exact ⟨trivial, Or.inl trivial⟩

/-- An operation between two operands. -/
theorem graded_binary {op : String} {left right : Node} {operator : OperatorClass}
    (hClass : operatorClass? op = some operator) (hLeft : left.Graded) (hRight : right.Graded)
    (hBelow : (∀ l ∈ left.level?, operator.rank ≤ l) ∨
      left.isOpenListTest = true ∧ 2 < operator.rank)
    (hAbove : ∀ l ∈ right.level?, operator.rank < l) : (binary op left right).Graded := by
  refine graded_of_parts ⟨⟨operator, hClass, lt_level_iff.2 hAbove⟩, ?_⟩ ?_
  · rcases hBelow with hBelow | ⟨hTest, hRank⟩
    · exact Or.inl ⟨operator, hClass, le_level_iff.2 hBelow⟩
    · refine Or.inr ?_
      show ((operatorClass? op).any _ && left.isOpenListTest) = true
      rw [hClass, hTest, Bool.and_true, Option.any_some, Nat.blt_eq]
      exact hRank
  · show ∀ part ∈ [left, right], part.Graded
    simp only [List.mem_cons, List.not_mem_nil, or_false]
    rintro part (rfl | rfl)
    · exact hLeft
    · exact hRight

end Node

/-! ## Order of levels in derivations -/

/-- The operator that follows is not one that an expression of a given power
takes. -/
def Stops (least : Nat) (gs : List Glyph) : Prop :=
  ∀ operator ∈ Glyph.operator? gs, 2 * operator.rank + 1 < least

/-- Whether an operator of a given rank may take a node on its left. -/
def Node.Precedes (rank : Nat) (node : Node) : Prop :=
  (∀ l ∈ node.level?, rank ≤ l) ∨ node.isOpenListTest = true ∧ 2 < rank

/-- What a derivation says about levels.  An expression leaves behind an operator
that it could not take, and so the operation that it is the right operand of
cannot be followed by a tighter one.  A list test leaves anything behind. -/
def Construct.Graded (gs hs : List Glyph) : Construct → Prop
  | .operand node => node.Graded ∧ ∀ l ∈ node.level?, 5 ≤ l
  | .expression least node =>
    node.Graded ∧ (least ≤ 11 → ∀ l ∈ node.level?, least ≤ 2 * l + 1) ∧ Stops least hs
  | .extension least left node =>
    left.Graded → (least ≤ 11 → ∀ l ∈ left.level?, least ≤ 2 * l + 1) →
      (∀ operator ∈ Glyph.operator? gs, left.Precedes operator.rank) →
      node.Graded ∧ (least ≤ 11 → ∀ l ∈ node.level?, least ≤ 2 * l + 1) ∧ Stops least hs
  | .operation left operator node =>
    left.Graded → left.Precedes operator.rank →
      node.Graded ∧ node.level? = some operator.rank ∧
        ∀ following ∈ Glyph.operator? hs, node.Precedes following.rank
  | .arguments nodes | .items _ nodes | .furtherItems _ nodes | .listClause _ _ nodes =>
    ∀ node ∈ nodes, node.Graded
  | .item _ node | .source node | .select node | .query node => node.Graded
  | .joins left node => left.Graded → node.Graded
  | .clause _ node | .sourceClause node => ∀ inner ∈ node, inner.Graded
  | .rules list => ∀ rule ∈ list, rule.1.Graded ∧ rule.2.Graded

theorem Aliased.graded {node aliased : Node} {gs hs : List Glyph}
    (hAlias : Aliased node aliased gs hs) (hGraded : node.Graded) : aliased.Graded := by
  cases hAlias with
  | introduced | bare => exact hGraded.of_form_eq rfl
  | absent => exact hGraded

/-- An operation whose right operand leaves its operator's power behind. -/
theorem Node.precedes_of_stops {node : Node} {rank : Nat} {hs : List Glyph}
    (hLevel : node.level? = some rank) (hStops : Stops (2 * rank + 2) hs) :
    ∀ following ∈ Glyph.operator? hs, node.Precedes following.rank := by
  intro following hFollowing
  have hLess := hStops following hFollowing
  refine Or.inl fun l hl => ?_
  rw [hLevel] at hl
  cases hl
  omega

theorem Node.level?_binary {op : String} {left right : Node} {operator : OperatorClass}
    (hClass : operatorClass? op = some operator) :
    (binary op left right).level? = some operator.rank := by
  show (operatorClass? op).map _ = _
  rw [hClass]
  rfl

/-- An operation with a right operand of a higher level. -/
theorem graded_operation {op : String} {left right : Node} {operator : OperatorClass}
    {gs hs : List Glyph} (hClass : operatorClass? op = some operator) (hRank : operator.rank < 5)
    (hLeft : left.Graded) (hPrecedes : left.Precedes operator.rank)
    (hRight : (Construct.expression (2 * operator.rank + 2) right).Graded gs hs) :
    (Node.binary op left right).Graded ∧ (Node.binary op left right).level? = some operator.rank ∧
      ∀ following ∈ Glyph.operator? hs, (Node.binary op left right).Precedes following.rank := by
  obtain ⟨hGraded, hLevels, hStops⟩ := hRight
  refine ⟨Node.graded_binary hClass hLeft hGraded hPrecedes fun l hl => ?_,
    Node.level?_binary hClass, Node.precedes_of_stops (Node.level?_binary hClass) hStops⟩
  have := hLevels (by omega) l hl
  omega

/-- A membership test against a list may be followed by any operator. -/
theorem graded_listTest {op : String} {left : Node} {items : List Node}
    (hClass : operatorClass? op = some .membership) (hLeft : left.Graded)
    (hPrecedes : left.Precedes 2) (hItems : ∀ node ∈ items, node.Graded) (hs : List Glyph) :
    (Node.binary op left (.tuple items)).Graded ∧
      (Node.binary op left (.tuple items)).level? = some 2 ∧
      ∀ following ∈ Glyph.operator? hs,
        (Node.binary op left (.tuple items)).Precedes following.rank := by
  have hTuple : (Node.tuple items).Graded := Node.graded_ofForm hItems (by simp) (by simp) (by simp)
  have hTest : (Node.binary op left (.tuple items)).isOpenListTest = true := by
    show (!false && (operatorClass? op == some .membership && true)) = true
    rw [hClass]
    rfl
  refine ⟨Node.graded_binary hClass hLeft hTuple hPrecedes (fun l hl => by cases hl),
    Node.level?_binary hClass, fun following _ => ?_⟩
  by_cases hRank : 2 < following.rank
  · exact Or.inr ⟨hTest, hRank⟩
  · refine Or.inl fun l hl => ?_
    rw [Node.level?_of_isOpenListTest hTest] at hl
    cases hl
    omega

/-- The class of an operator that may be negated, by its text. -/
theorem operatorClass?_of_negatableWord {word : Keyword} {negated : Bool} {op : String}
    {gs hs : List Glyph} (hWord : NegatableWord word negated op gs hs)
    (hGenuine : AllGenuine gs) {single : String} (hSingle : word.words = [single])
    {operator : OperatorClass}
    (hClass : ∀ negated : Bool, operatorClass? (if negated then "NOT " ++ single else single) =
      some operator) : operatorClass? op = some operator := by
  rw [operatorClass?, Glyph.operatorKinds_of_negatableWord hWord hGenuine hSingle rfl]
  exact hClass negated

/-- The levels of every derivable construct are in order. -/
theorem Derives.graded {dialect : Dialect} {construct : Construct} {gs hs : List Glyph}
    (hDerives : Derives dialect construct gs hs) (hGenuine : AllGenuine gs) :
    construct.Graded gs hs := by
  induction hDerives with
  | @atom kind text node gs hAtom =>
    have hNode : node.form.parts = [] ∧ node.level? = none := by
      cases Dialect.atom_of_atom? hAtom <;> exact ⟨rfl, rfl⟩
    refine ⟨?_, by simp [hNode.2]⟩
    cases Dialect.atom_of_atom? hAtom <;>
      exact Node.graded_ofForm (by simp [Form.parts]) (by simp) (by simp) (by simp)
  | column =>
    exact ⟨Node.graded_ofForm (by simp [Form.parts]) (by simp) (by simp) (by simp), by
      intro l hl; cases hl⟩
  | call hDistinct hArgs ih =>
    have hNodes := ih (hGenuine.tail.tail.of_suffix hDistinct.suffix)
    exact ⟨Node.graded_ofForm hNodes (by simp) (by simp) (by simp), by intro l hl; cases hl⟩
  | unary hClass hArg ih =>
    obtain ⟨hGraded, hLevels, -⟩ := ih hGenuine.tail
    refine ⟨Node.graded_of_parts
      ⟨(Node.le_level_iff (k := 5)).2 fun l hl => ?_, Or.inl trivial⟩ ?_, ?_⟩
    · have := hLevels (by omega) l hl
      omega
    · show ∀ part ∈ [_], Node.Graded part
      simpa using hGraded
    · intro l hl
      cases hl
      omega
  | subquery hFront hSelect ih =>
    exact ⟨(ih hGenuine.tail).of_form_eq rfl, by intro l hl; cases hl⟩
  | grouped hFront hInner ih =>
    exact ⟨(ih hGenuine.tail).1.of_form_eq rfl, by intro l hl; cases hl⟩
  | tuple hFront hFirst hComma hFurther ihFirst ihFurther =>
    have hItems := ihFurther (hGenuine.tail.of_derives hFirst)
    have hFirst' := (ihFirst hGenuine.tail).1
    refine ⟨Node.graded_ofForm ?_ (by simp) (by simp) (by simp), by intro l hl; cases hl⟩
    exact List.forall_mem_cons.2 ⟨hFirst', hItems⟩
  | typeCast hArg hName ih =>
    have hArg' := (ih hGenuine.tail.tail).1
    refine ⟨Node.graded_ofForm ?_ (by simp) (by simp) (by simp), by intro l hl; cases hl⟩
    simpa [Form.parts] using hArg'
  | caseWhen hFront hRules hDefault ihRules ihDefault =>
    have hRules' := ihRules hGenuine.tail
    have hDefault' := ihDefault (hGenuine.tail.of_derives hRules)
    refine ⟨Node.graded_ofForm ?_ (by simp) (by simp) (by simp), by intro l hl; cases hl⟩
    exact Form.forall_mem_parts_caseWhen.2 ⟨hRules', hDefault'⟩
  | rulesDone => exact fun rule hRule => absurd hRule List.not_mem_nil
  | rulesMore hCondition hResult hRules ihCondition ihResult ihRules =>
    have hAfter := hGenuine.tail.of_derives hCondition
    refine List.forall_mem_cons.2 ⟨⟨(ihCondition hGenuine.tail).1, (ihResult hAfter.tail).1⟩, ?_⟩
    exact ihRules (hAfter.tail.of_derives hResult)
  | expression hFirst hExtension ihFirst ihExtension =>
    obtain ⟨hGraded, hLevels⟩ := ihFirst hGenuine
    refine ihExtension (hGenuine.of_derives hFirst) hGraded ?_ ?_
    · intro hLeast l hl
      have := hLevels l hl
      omega
    · intro operator hClass
      refine Or.inl fun l hl => ?_
      have := hLevels l hl
      have := TokenKind.rank_lt_five_of_infixClass? hClass
      omega
  | extensionDone hStop => exact fun hGraded hLevels _ => ⟨hGraded, hLevels, hStop⟩
  | extensionMore hClass hLeast hOperation hExtension ihOperation ihExtension =>
    intro hGraded _ hPrecedes
    obtain ⟨hGraded', hLevel, hFollowing⟩ := ihOperation hGenuine hGraded (hPrecedes _ hClass)
    refine ihExtension (hGenuine.of_derives hOperation) hGraded' ?_ hFollowing
    intro _ l hl
    rw [hLevel] at hl
    cases hl
    exact hLeast
  | binary hSimple hClass hRight ih =>
    intro hGraded hPrecedes
    refine graded_operation ?_ (TokenKind.rank_lt_five_of_infixClass? hClass) hGraded hPrecedes
      (ih hGenuine.tail)
    rw [operatorClass?, hGenuine.head.operatorKinds_eq (Or.inl ⟨hSimple, hClass⟩)]
    exact hClass
  | @identity _ _ negated _ _ _ _ hNegated hRight ih =>
    intro hGraded hPrecedes
    refine graded_operation ?_ (by decide) hGraded hPrecedes
      (ih (hGenuine.tail.of_suffix hNegated.suffix))
    cases negated <;> decide
  | likeness hWord hRight ih =>
    intro hGraded hPrecedes
    refine graded_operation ?_ (by decide) hGraded hPrecedes
      (ih (hGenuine.of_suffix hWord.suffix))
    exact operatorClass?_of_negatableWord hWord hGenuine rfl (by decide)
  | membershipList hWord hFront hItems ih =>
    intro hGraded hPrecedes
    refine graded_listTest ?_ hGraded hPrecedes (ih (hGenuine.of_suffix hWord.suffix).tail) _
    exact operatorClass?_of_negatableWord hWord hGenuine rfl (by decide)
  | membership hWord hFront hRight ih =>
    intro hGraded hPrecedes
    refine graded_operation ?_ (by decide) hGraded hPrecedes
      (ih (hGenuine.of_suffix hWord.suffix))
    exact operatorClass?_of_negatableWord hWord hGenuine rfl (by decide)
  | range hWord hLow hHigh ihLow ihHigh =>
    intro hGraded hPrecedes
    have hAfter := hGenuine.of_suffix hWord.suffix
    obtain ⟨hLow', hLowLevels, -⟩ := ihLow hAfter
    obtain ⟨hHigh', hHighLevels, hStops⟩ := ihHigh (hAfter.of_derives hLow).tail
    refine ⟨Node.graded_of_parts ⟨⟨(Node.lt_level_iff (k := 2)).2 fun l hl => ?_,
      (Node.lt_level_iff (k := 2)).2 fun l hl => ?_⟩,
      Or.inl ((Node.le_level_iff (k := 2)).2 fun l hl => ?_)⟩ ?_, rfl,
      Node.precedes_of_stops rfl hStops⟩
    · have := hLowLevels (by omega) l hl
      omega
    · have := hHighLevels (by omega) l hl
      omega
    · rcases hPrecedes with hBelow | ⟨-, hRank⟩
      · exact hBelow l hl
      · exact absurd hRank (by decide)
    · show ∀ part ∈ [_, _, _], Node.Graded part
      simp only [List.mem_cons, List.not_mem_nil, or_false]
      rintro part (rfl | rfl | rfl)
      · exact hGraded
      · exact hLow'
      · exact hHigh'
  | argumentsNone => exact fun node hNode => absurd hNode List.not_mem_nil
  | argumentsSome hFront hItems ih => exact ih hGenuine
  | items hFirst hFurther ihFirst ihFurther =>
    exact List.forall_mem_cons.2 ⟨ihFirst hGenuine, ihFurther (hGenuine.of_derives hFirst)⟩
  | furtherDone => exact fun node hNode => absurd hNode List.not_mem_nil
  | furtherMore hItem hFurther ihItem ihFurther =>
    exact List.forall_mem_cons.2 ⟨ihItem hGenuine.tail, ihFurther (hGenuine.tail.of_derives hItem)⟩
  | expressionItem hNode ih => exact (ih hGenuine).1
  | target hNode hAlias ih => exact hAlias.graded (ih hGenuine).1
  | entry hField hDirection hNulls ih =>
    refine Node.graded_ofForm ?_ (by simp) (by simp) (by simp)
    simpa [Form.parts] using (ih hGenuine).1
  | @table kind text node aliased gs hs hTable hAlias =>
    refine hAlias.graded ?_
    unfold Dialect.table? at hTable
    split at hTable <;> (try split at hTable) <;> cases hTable <;>
      exact Node.graded_ofForm (by simp [Form.parts]) (by simp) (by simp) (by simp)
  | derivedTable hSelect hAlias ih =>
    exact hAlias.graded ((ih hGenuine.tail).of_form_eq rfl)
  | joinsDone => exact fun hLeft => hLeft
  | @joinsMore _ join left right _ condition _ _ _ is _ hKind hRight hComma hCondition hJoins
      ihRight ihCondition ihJoins =>
    intro hLeft
    have hAfter := hGenuine.tail.of_derives hRight
    have hInner := forall_joinCondition hComma fun hJoin => ihCondition hJoin hAfter
    refine ihJoins (hAfter.of_suffix (suffix_of_joinCondition hComma hCondition))
      (Node.graded_ofForm ?_ (by simp) (by simp) (by simp))
    simp only [Form.parts, List.mem_cons, Option.mem_toList]
    rintro part (rfl | rfl | hPart)
    · exact hLeft
    · exact ihRight hGenuine.tail
    · exact hInner part hPart
  | clauseNone => exact fun inner hInner => absurd hInner (Option.not_mem_none _)
  | clauseSome hNode ih => simpa [Construct.Graded] using (ih hGenuine.tail).1
  | listClauseNone => exact fun node hNode => absurd hNode List.not_mem_nil
  | listClauseSome hItems ih => exact ih hGenuine.tail
  | sourceClauseNone => exact fun inner hInner => absurd hInner (Option.not_mem_none _)
  | sourceClauseSome hFirst hJoins ihFirst ihJoins =>
    have hNode := ihJoins (hGenuine.tail.of_derives hFirst) (ihFirst hGenuine.tail)
    simpa [Construct.Graded] using hNode
  | select hDistinct hTargets hSource hCondition hGroups hHaving hOrdering hLimit hOffset
      ihTargets ihSource ihCondition ihGroups ihHaving ihOrdering ihLimit ihOffset =>
    have h₂ := hGenuine.tail.of_suffix hDistinct.suffix
    have h₃ := h₂.of_derives hTargets
    have h₄ := h₃.of_derives hSource
    have h₅ := h₄.of_derives hCondition
    have h₆ := h₅.of_derives hGroups
    have h₇ := h₆.of_derives hHaving
    have h₈ := h₇.of_derives hOrdering
    have h₉ := h₈.of_derives hLimit
    refine Node.graded_ofForm ?_ (by simp) (by simp) (by simp)
    simp only [Form.parts, Query.parts, List.mem_append, Option.mem_toList]
    rintro part (((((((hPart | hPart) | hPart) | hPart) | hPart) | hPart) | hPart) | hPart)
    · exact ihTargets h₂ part hPart
    · exact ihSource h₃ part hPart
    · exact ihCondition h₄ part hPart
    · exact ihGroups h₅ part hPart
    · exact ihHaving h₆ part hPart
    · exact ihOrdering h₇ part hPart
    · exact ihLimit h₈ part hPart
    · exact ihOffset h₉ part hPart
  | bareQuery hFront hSelect ih => exact ih hGenuine
  | enclosedQuery hQuery ih => exact (ih hGenuine.tail).of_form_eq rfl

/-! ## Parsed trees -/

theorem DerivesStatement.graded {dialect : Dialect} {node : Node} {gs : List Glyph}
    (hDerives : DerivesStatement dialect node gs) (hGenuine : AllGenuine gs) : node.Graded := by
  rcases hDerives with hQuery | ⟨text, hQuery⟩
  · exact hQuery.graded hGenuine
  · exact hQuery.graded hGenuine

/--
**Precedence of parsed trees**: at every node of a parsed tree the operands on
the right of an operator, and the operand of a prefix, obey the table of
precedence.  The operand on the left does so exactly if the node is not an
operation of a higher level that extends a membership test against a list.
-/
theorem parse_graded {source : String} {dialect : Dialect} {node : Node}
    (hParse : parse source dialect = .ok node) {inner : Node} (hInside : inner.Inside node) :
    inner.GradedRight ∧ (inner.GradedLeft ↔ inner.extendsListTest = false) := by
  obtain ⟨stream, -, hReads, hDerives⟩ :=
    derives_of_parse false hParse (by simp)
  obtain ⟨hRight, hLeft⟩ := hDerives.graded hReads.genuine inner hInside
  refine ⟨hRight, fun hGraded => ?_, fun hNot => ?_⟩
  · -- A list test has level 2, below any operator that extends it.
    obtain ⟨form, aliasName, parentheses⟩ := inner
    cases form with
    | binary op left right =>
      obtain ⟨operator, hClass, hLevel⟩ := hGraded
      rw [← Bool.not_eq_true]
      intro hExtends
      obtain ⟨hRank, hTest⟩ := Bool.and_eq_true_iff.1
        (show ((operatorClass? op).any (fun operator => Nat.blt 2 operator.rank) &&
          left.isOpenListTest) = true from hExtends)
      rw [hClass, Option.any_some, Nat.blt_eq] at hRank
      have := Node.le_level_iff.1 hLevel 2 (Node.level?_of_isOpenListTest hTest)
      omega
    | _ => rfl
  · rw [hNot] at hLeft
    exact hLeft.resolve_right (by decide)

/-- The sum that `a IN (1) + 2` is read as. -/
def sumAfterList : Node :=
  .binary "+" (.binary "IN" (.identifier "a" none) (.tuple [.constant (.integer 1)]))
    (.constant (.integer 2))

/-- The query for that sum. -/
def sumAfterListQuery : Node := .ofForm (.select { targets := [sumAfterList] })

theorem parse_sumAfterListQuery :
    parse "SELECT a IN (1) + 2" .generic = .ok sumAfterListQuery := by
  decide +kernel

theorem sumAfterList_inside : sumAfterList.Inside sumAfterListQuery :=
  .part List.mem_cons_self (.self sumAfterList)

theorem parse_graded_sumAfterList :
    sumAfterList.GradedRight ∧
      (sumAfterList.GradedLeft ↔ sumAfterList.extendsListTest = false) :=
  parse_graded parse_sumAfterListQuery sumAfterList_inside

/-- A parsed tree need not obey the table of precedence: a sum may have a
membership test on its left. -/
theorem exists_parse_not_gradedLeft :
    ∃ node inner : Node, parse "SELECT a IN (1) + 2" .generic = .ok node ∧ inner.Inside node ∧
      ¬inner.GradedLeft := by
  refine ⟨sumAfterListQuery, sumAfterList, parse_sumAfterListQuery, sumAfterList_inside, ?_⟩
  rintro ⟨operator, hClass, hLevel⟩
  have hOperator : operator = .additive := by
    have hPlus : operatorClass? "+" = some .additive := by decide
    exact Option.some.inj (hClass.symm.trans hPlus)
  subst hOperator
  exact absurd (Node.le_level_iff.1 hLevel 2 (by decide)) (by decide)

end SqlQuery
