import SqlQuery.Proofs.Conservativity
import SqlQuery.Proofs.Framing
import SqlQuery.Proofs.RoundTrip

/-!
# Trees that read back

A tree need not come from a text.  One that is built by hand is written
without regard to precedence, with the parentheses that its nodes bear and no
others, so not every such tree can be read back.  This module says which can:
a node is *legible* in a place of a query if its parts are legible in theirs,
where the place of an operand says how tightly the operators outside
parentheses must bind.  An operand in parentheses is legible everywhere.

Two operators look at the token behind them.  `IS` takes a `NOT` for its own,
and `IN` takes a parenthesis for that of a list, unless it is that of a query.
How a node opens is therefore part of the conditions on their right operands.

The proof writes down glyphs for a legible tree, not characters.  Glyphs that
are a tree and that no phrase fuses are enough: the text of the tree is then
read as glyphs of the same tree.

## Main definitions

* `Legible` — the nodes that read back, by the place they stand in.

## Main results

* `parse_render_legible` — the text of a legible query parses, to that query.
-/

namespace SqlQuery

open Glyph (front OpensPhrase Plain)

/-! ## Legible trees -/

/-- A text that is a name without quotes, neither a keyword nor the first word
of a phrase. -/
def Token.PlainName (text : List Char) : Prop :=
  BareName text ∧ RuleSet.base.startsPhrase text = false

/-- A text that can stand in backticks. -/
def Token.Enclosable (text : List Char) : Prop := text ≠ [] ∧ backtick ∉ text

/-- The text of a type: words, and sizes in parentheses if there are any. -/
def typeText (words : List String) (sizes : List Int64) : String :=
  if sizes.isEmpty then " ".intercalate words
  else " ".intercalate words ++ "(" ++
    ", ".intercalate (sizes.map fun size => toString size.toInt) ++ ")"

/-- How the text of a node begins, as far as the operator before it may care. -/
inductive Opening where
  | plain
  /-- With the word `NOT`. -/
  | complement
  /-- With a parenthesis that is not that of a query. -/
  | parenthesis
deriving DecidableEq, Repr

/-- How the text of a node begins: an operation begins with its left operand. -/
def Node.opening : Node → Opening :=
  Node.fold fun form _ parentheses =>
    match parentheses, form with
    | true, .select _ => .plain
    | true, _ => .parenthesis
    | false, .tuple _ => .parenthesis
    | false, .unary op _ =>
      if Text.sameWord "NOT".toList op.toList then .complement else .plain
    | false, .binary _ left _ => left
    | false, .between subject _ _ _ => subject
    | false, _ => .plain

/-- The places of a query that a node may stand in. -/
inductive Place where
  | operand
  /-- An expression whose operators outside parentheses have at least a rank. -/
  | expression (rank : Nat)
  | target
  /-- An entry of an ordering. -/
  | entry
  /-- A source with its alias. -/
  | source
  /-- Sources joined from left to right. -/
  | sources
  /-- A query from its first keyword on. -/
  | select
deriving DecidableEq, Repr

/-- The names that may stand for a column or a table. -/
inductive LegibleName : Node → Prop
  | bare {name : String} (hName : Token.PlainName name.toList) :
    LegibleName (.identifier name none)
  | quoted {name : String} (hName : Token.Enclosable name.toList) :
    LegibleName (.identifier name (some Token.backtick))
  | variableName {name : String} {system : Bool}
      (hName : name.toList ≠ [] ∧ ∀ c ∈ name.toList, Token.isVariableChar c = true) :
    LegibleName (.ofForm (.variableName name system))

/-- The nodes that read back in a place of a query. -/
inductive Legible : Place → Node → Prop
  -- Operands.
  | name {node : Node} (hName : LegibleName node) : Legible .operand node
  | everything : Legible .operand (.identifier "*" none)
  | null : Legible .operand .null
  | parameter : Legible .operand .parameter
  | boolean (value : Bool) : Legible .operand (.constant (.boolean value))
  | integer {value : Int64} (hValue : 0 ≤ value.toInt) :
    Legible .operand (.constant (.integer value))
  | float {value : Number.Binary64} (hFinite : value.isFinite = true)
      (hSign : value.negative = false) :
    Legible .operand (.constant (.float value))
  | text {value : String} (hValue : '\x22' ∉ value.toList ∨ '\x27' ∉ value.toList) :
    Legible .operand (.constant (.text value))
  | call {name : String} {args : List Node} {distinct : Bool} (hName : Token.BareName name.toList)
      (hArgs : ∀ arg ∈ args, Legible (.expression 0) arg) :
    Legible .operand (.call name args distinct)
  | unary {op : String} {arg : Node} {kind : TokenKind} {operator : OperatorClass}
      (hClass : kind.prefixClass? = some operator) (hOp : Glyph.Genuine ⟨kind, op⟩)
      (hArg : Legible .operand arg) :
    Legible .operand (.unary op arg)
  | grouped {form : Form Node} (hNode : Legible (.expression 0) (.ofForm form)) :
    Legible .operand ((Node.ofForm form).withParentheses true)
  | subquery {node : Node} (hNode : Legible .select node) :
    Legible .operand (node.withParentheses true)
  | tuple {first second : Node} {further : List Node}
      (hItems : ∀ item ∈ first :: second :: further, Legible (.expression 0) item) :
    Legible .operand (.tuple (first :: second :: further))
  | typeCast {word : String} {words : List String} {sizes : List Int64} {arg : Node}
      (hWord : Token.PlainName word.toList ∨
        ∃ name, Token.Enclosable name.toList ∧ word = enclose name (some Token.backtick))
      (hWords : ∀ word ∈ words, Token.PlainName word.toList)
      (hSizes : ∀ size ∈ sizes, 0 ≤ size.toInt) (hArg : Legible (.expression 0) arg) :
    Legible .operand (.ofForm (.typeCast (typeText (word :: words) sizes) arg))
  | caseWhen {rules : List (Node × Node)} {default : Option Node} (hRules : rules ≠ [])
      (hConditions : ∀ rule ∈ rules, Legible (.expression 0) rule.1)
      (hResults : ∀ rule ∈ rules, Legible (.expression 0) rule.2)
      (hDefault : ∀ node ∈ default, Legible (.expression 0) node) :
    Legible .operand (.ofForm (.caseWhen rules default))
  -- Expressions.
  | operand {rank : Nat} {node : Node} (hNode : Legible .operand node) :
    Legible (.expression rank) node
  | binary {rank : Nat} {op : String} {left right : Node} {kind : TokenKind}
      {operator : OperatorClass} (hSimple : operator.isSimple = true)
      (hClass : kind.infixClass? .finish = some operator) (hOp : Glyph.Genuine ⟨kind, op⟩)
      (hRank : rank ≤ operator.rank) (hLeft : Legible (.expression operator.rank) left)
      (hRight : Legible (.expression (operator.rank + 1)) right) :
    Legible (.expression rank) (.binary op left right)
  | identity {rank : Nat} {negated : Bool} {left right : Node} (hRank : rank ≤ 2)
      (hLeft : Legible (.expression 2) left) (hRight : Legible (.expression 3) right)
      (hOpening : negated = false → right.opening ≠ .complement) :
    Legible (.expression rank) (.binary (if negated then "is not" else "is") left right)
  | likeness {rank : Nat} {negated : Bool} {notText text : String} {left right : Node}
      (hNot : Text.sameWord "NOT".toList notText.toList = true)
      (hText : Text.sameWord "LIKE".toList text.toList = true) (hRank : rank ≤ 2)
      (hLeft : Legible (.expression 2) left) (hRight : Legible (.expression 3) right) :
    Legible (.expression rank) (.binary (negatableText negated notText text) left right)
  | membershipList {rank : Nat} {negated : Bool} {notText text : String} {left : Node}
      {items : List Node} (hNot : Text.sameWord "NOT".toList notText.toList = true)
      (hText : Text.sameWord "IN".toList text.toList = true) (hRank : rank ≤ 2)
      (hLeft : Legible (.expression 2) left)
      (hItems : ∀ item ∈ items, Legible (.expression 0) item) :
    Legible (.expression rank) (.binary (negatableText negated notText text) left (.tuple items))
  | membership {rank : Nat} {negated : Bool} {notText text : String} {left right : Node}
      (hNot : Text.sameWord "NOT".toList notText.toList = true)
      (hText : Text.sameWord "IN".toList text.toList = true) (hRank : rank ≤ 2)
      (hLeft : Legible (.expression 2) left) (hRight : Legible (.expression 3) right)
      (hOpening : right.opening ≠ .parenthesis) :
    Legible (.expression rank) (.binary (negatableText negated notText text) left right)
  | range {rank : Nat} {negated : Bool} {subject low high : Node} (hRank : rank ≤ 2)
      (hSubject : Legible (.expression 2) subject) (hLow : Legible (.expression 3) low)
      (hHigh : Legible (.expression 3) high) :
    Legible (.expression rank) (.between subject low high negated)
  -- Items.
  | target {node : Node} {aliasName : Option String} (hNode : Legible (.expression 0) node)
      (hAlias : ∀ name ∈ aliasName, Token.Enclosable name.toList) :
    Legible .target { node with aliasName := aliasName }
  | entry {field : Node} {direction : Direction} {nulls : NullPlacement}
      (hField : Legible (.expression 0) field) :
    Legible .entry (.ofForm (.orderBy field direction nulls))
  -- Sources.
  | table {node : Node} {aliasName : Option String} (hNode : LegibleName node)
      (hAlias : ∀ name ∈ aliasName, Token.Enclosable name.toList) :
    Legible .source { node with aliasName := aliasName }
  | derivedTable {node : Node} {aliasName : Option String} (hNode : Legible .select node)
      (hAlias : ∀ name ∈ aliasName, Token.Enclosable name.toList) :
    Legible .source { node with aliasName := aliasName, parentheses := true }
  | source {node : Node} (hNode : Legible .source node) : Legible .sources node
  | comma {left right : Node} (hLeft : Legible .sources left) (hRight : Legible .source right) :
    Legible .sources (.ofForm (.join left right .comma none))
  | join {left right : Node} {kind : JoinKind} {condition : Option Node} (hKind : kind ≠ .comma)
      (hLeft : Legible .sources left) (hRight : Legible .source right)
      (hCondition : ∀ node ∈ condition, Legible (.expression 0) node) :
    Legible .sources (.ofForm (.join left right kind condition))
  -- Queries.
  | select {query : Query Node} (hNonempty : query.targets ≠ [])
      (hTargets : ∀ node ∈ query.targets, Legible .target node)
      (hSource : ∀ node ∈ query.source, Legible .sources node)
      (hCondition : ∀ node ∈ query.condition, Legible (.expression 0) node)
      (hGroups : ∀ node ∈ query.groups, Legible (.expression 0) node)
      (hHaving : ∀ node ∈ query.having, Legible (.expression 0) node)
      (hOrdering : ∀ node ∈ query.ordering, Legible .entry node)
      (hLimit : ∀ node ∈ query.limit, Legible (.expression 0) node)
      (hOffset : ∀ node ∈ query.offset, Legible (.expression 0) node) :
    Legible .select (.ofForm (.select query))

/-- A query in the place of an operand stands in parentheses. -/
theorem Legible.parentheses_of_select {place : Place} {node : Node} (hNode : Legible place node)
    (hPlace : place = .operand ∨ ∃ rank, place = .expression rank) :
    ∀ query, node.form = .select query → node.parentheses = true := by
  induction hNode with
  | name hName => cases hName <;> exact fun _ h => by cases h
  | operand _ ih => exact ih (Or.inl rfl)
  | grouped | subquery => exact fun _ _ => rfl
  | select => rcases hPlace with h | ⟨_, h⟩ <;> cases h
  | target | table | derivedTable | source => rcases hPlace with h | ⟨_, h⟩ <;> cases h
  | _ => exact fun _ h => by cases h

/-- A plain word is a plain name. -/
theorem legible_word {name : String} (hName : isPlainWord name.toList = true) :
    LegibleName (.identifier name none) :=
  .bare (bareName_of_isPlainWord hName)

/-! ## Glyphs that no phrase fuses -/

namespace Glyph

/-- Glyphs that make up a plain reading with any plain reading behind them. -/
def Safe (xs : List Glyph) : Prop := ∀ r, Plain r → Plain (xs ++ r)

theorem safe_nil : Safe [] := fun _ hPlain => hPlain

theorem Safe.append {xs ys : List Glyph} (hFirst : Safe xs) (hSecond : Safe ys) :
    Safe (xs ++ ys) := by
  intro r hPlain
  rw [List.append_assoc]
  exact hFirst _ (hSecond r hPlain)

/-- A genuine glyph before a plain reading, if it opens no phrase there. -/
theorem Plain.cons {glyph : Glyph} {gs : List Glyph} (hGenuine : glyph.Genuine) (hPlain : Plain gs)
    (hName : ∀ value, glyph.kind = .identifier value none → ¬OpensPhrase glyph.text.toList gs) :
    Plain (glyph :: gs) := by
  refine ⟨List.forall_mem_cons.2 ⟨hGenuine, hPlain.genuine⟩, fun value text hs hSuffix => ?_⟩
  rcases List.suffix_cons_iff.1 hSuffix with hEq | hTail
  · obtain ⟨rfl, rfl⟩ := List.cons.inj hEq
    exact hName value rfl
  · exact hPlain.unfused value text hs hTail

/-- A glyph that is not a bare name. -/
theorem Safe.cons {kind : TokenKind} {text : String} {xs : List Glyph} (hRest : Safe xs)
    (hGenuine : Genuine ⟨kind, text⟩) (hKind : ∀ value, kind ≠ .identifier value none) :
    Safe (⟨kind, text⟩ :: xs) :=
  fun r hPlain => .cons hGenuine (hRest r hPlain) fun value hName => absurd hName (hKind value)

theorem Safe.plainName {name : String} {xs : List Glyph} (hRest : Safe xs)
    (hName : Token.PlainName name.toList) : Safe (⟨.identifier name none, name⟩ :: xs) :=
  fun r hPlain => .cons ⟨rfl, hName.1⟩ (hRest r hPlain) fun _ _ =>
    not_opensPhrase_of_startsPhrase hName.2 _

theorem Safe.callName {name : String} {xs : List Glyph} (hRest : Safe xs)
    (hName : Token.BareName name.toList) :
    Safe (⟨.identifier name none, name⟩ :: ⟨.leftParen, "("⟩ :: xs) :=
  fun r hPlain =>
    .cons ⟨rfl, hName⟩ (.cons (List.mem_singleton_self "(") (hRest r hPlain) (by simp)) fun _ _ =>
      not_opensPhrase_of_head fun _ hMem => by cases hMem; decide

theorem Safe.quotedName {name : String} {xs : List Glyph} (hRest : Safe xs)
    (hName : Token.Enclosable name.toList) :
    Safe (⟨.identifier name (some Token.backtick), name⟩ :: xs) :=
  hRest.cons (show _ ∧ _ from ⟨rfl, hName⟩) (by simp)

theorem Safe.integer {value : Int64} {xs : List Glyph} (hRest : Safe xs)
    (hValue : 0 ≤ value.toInt) : Safe (⟨.integer value, toString value.toInt⟩ :: xs) :=
  hRest.cons (show 0 ≤ value.toInt from hValue) (by simp)

end Glyph

open Glyph (Safe safe_nil)

theorem Glyph.Safe.keyword {xs : List Glyph} (hRest : Safe xs) (word : Keyword) :
    Safe (word.glyph :: xs) :=
  hRest.cons word.genuine_glyph (by simp)

/-- A mark as it is written. -/
theorem Glyph.Safe.mark {kind : TokenKind} {text : String} {xs : List Glyph} (hRest : Safe xs)
    (hText : kind.spellings = [text]) : Safe (⟨kind, text⟩ :: xs) := by
  have hMem : text ∈ kind.spellings := by simp [hText]
  refine hRest.cons ?_ (fun value hKind => by rw [hKind] at hText; cases hText)
  cases kind <;> first | exact hMem | cases hText

theorem Glyph.Safe.enclosed {xs : List Glyph} (hInner : Safe xs) : Safe (enclosedGlyphs xs) :=
  (hInner.append (safe_nil.mark rfl)).mark rfl

theorem safe_negatable {word : Keyword} {single notText text : String} (negated : Bool)
    (hSingle : word.words = [single]) (hNot : Text.sameWord "NOT".toList notText.toList = true)
    (hText : Text.sameWord single.toList text.toList = true) :
    Safe (negatableGlyphs word negated notText text) := by
  have hWord : Safe [⟨.keyword word, text⟩] :=
    safe_nil.cons (fun other hOther => by
      rw [hSingle] at hOther
      cases hOther
      exact hText) (by simp)
  cases negated with
  | false => exact hWord
  | true =>
    exact hWord.cons (fun other hOther => by cases hOther; exact hNot) (by simp)

/-! ## How glyphs open -/

/-- Glyphs that begin as an opening says, whatever follows them. -/
structure Opening.Heads (opening : Opening) (xs : List Glyph) : Prop where
  word : opening ≠ .complement → ∀ r, front (xs ++ r) ≠ .keyword .NOT
  paren : opening ≠ .parenthesis → ∀ r, front (xs ++ r) = .leftParen →
    front (xs ++ r).tail = .keyword .SELECT

namespace Opening.Heads

variable {opening : Opening} {xs : List Glyph}

theorem append (hHeads : opening.Heads xs) (ys : List Glyph) : opening.Heads (xs ++ ys) := by
  constructor
  · intro hOpening r
    rw [List.append_assoc]
    exact hHeads.word hOpening _
  · intro hOpening r
    rw [List.append_assoc]
    exact hHeads.paren hOpening _

/-- Glyphs that begin with neither `NOT` nor a parenthesis. -/
theorem of_kind {kind : TokenKind} {text : String}
    (hKind : kind ≠ .keyword .NOT ∧ kind ≠ .leftParen) :
    opening.Heads (⟨kind, text⟩ :: xs) :=
  ⟨fun _ _ => hKind.1, fun _ _ hParen => absurd hParen hKind.2⟩

/-- Glyphs in parentheses. -/
theorem enclosed (hOpening : opening ≠ .parenthesis → ∀ r, front (xs ++ r) = .keyword .SELECT) :
    opening.Heads (enclosedGlyphs xs) := by
  refine ⟨fun _ _ => by simp [enclosedGlyphs], fun hPlain r _ => ?_⟩
  rw [enclosedGlyphs_append]
  exact hOpening hPlain _

end Opening.Heads

namespace Node

theorem opening_mk (form : Form Node) (aliasName : Option String) (parentheses : Bool) :
    opening ⟨form, aliasName, parentheses⟩ =
      match parentheses, form.map opening with
      | true, .select _ => .plain
      | true, _ => .parenthesis
      | false, .tuple _ => .parenthesis
      | false, .unary op _ =>
        if Text.sameWord "NOT".toList op.toList then .complement else .plain
      | false, .binary _ left _ => left
      | false, .between subject _ _ _ => subject
      | false, _ => .plain := by
  rw [opening, Node.fold_mk]

/-- An operation begins with its left operand. -/
theorem opening_binary (op : String) (left right : Node) :
    (binary op left right).opening = left.opening := by
  rw [binary, ofForm, opening_mk]
  rfl

theorem opening_between (subject low high : Node) (negated : Bool) :
    (between subject low high negated).opening = subject.opening := by
  rw [between, ofForm, opening_mk]
  rfl

end Node

/-! ## Operations of decreasing rank -/

/-- Glyphs that are an expression of at least a rank, whatever operators of the
same or a lower rank go on with it. -/
def Chains (rank : Nat) (node : Node) (xs : List Glyph) : Prop :=
  ∀ ⦃least : Nat⦄ ⦃whole : Node⦄ ⦃gs hs : List Glyph⦄, least ≤ 2 * rank + 1 →
    front gs ≠ .leftParen → Stops (2 * rank + 2) gs →
    Derives .mysql (.extension least node whole) gs hs →
    Derives .mysql (.expression least whole) (xs ++ gs) hs

namespace Chains

variable {rank : Nat} {node left : Node} {xs ys : List Glyph}

theorem of_operand (rank : Nat) (hOperand : Frames .mysql (.operand node) xs) :
    Chains rank node xs :=
  fun _ _ _ _ _ hFront _ hExtension =>
    .expression (hOperand _ (Construct.admits_of_front (bne_iff_ne.2 hFront) rfl)) hExtension

theorem mono {lower : Nat} (hChains : Chains rank node xs) (hRank : lower ≤ rank) :
    Chains lower node xs :=
  fun _ _ _ _ hLeast hFront hStops hExtension =>
    hChains (by omega) hFront (hStops.mono (by omega)) hExtension

theorem frames {least : Nat} (hChains : Chains rank node xs) (hLeast : least ≤ 2 * rank + 1) :
    Frames .mysql (.expression least node) xs := by
  intro r hr
  have hStops := hr.stops least rfl
  exact hChains hLeast (bne_iff_ne.1 hr.ends) (hStops.mono (by omega)) (.extensionDone hStops)

/-- An operation goes on with an expression of at least its rank. -/
theorem operation {operator : OperatorClass} (hLeft : Chains operator.rank left xs)
    (hOperation : Frames .mysql (.operation left operator node) ys) :
    Chains operator.rank node (xs ++ ys) := by
  intro least whole gs hs hLeast hFront hStops hExtension
  have hWhole := hOperation gs
    ⟨bne_iff_ne.2 hFront, fun _ hPower => Option.some.inj hPower ▸ hStops⟩
  have hClass := hWhole.operator?_of_operation
  rw [List.append_assoc]
  refine hLeft hLeast (fun hParen => ?_) (fun other hOther => ?_)
    (.extensionMore hClass hLeast hWhole hExtension)
  · rw [Glyph.operator?_of_front hParen (by decide)] at hClass
    cases hClass
  · rw [hClass] at hOther
    cases hOther
    exact Nat.lt_succ_self _

end Chains

/-! ## Lists and clauses -/

/-- A construct that some safe glyphs frame. -/
def Spelled (construct : Construct) : Prop := ∃ xs, Safe xs ∧ Frames .mysql construct xs

namespace Spelled

variable {sort : ItemSort} {nodes : List Node}

theorem furtherItems (hNodes : ∀ node ∈ nodes, Spelled (.item sort node)) :
    Spelled (.furtherItems sort nodes) := by
  induction nodes with
  | nil => exact ⟨[], safe_nil, .furtherDone⟩
  | cons node nodes ih =>
    obtain ⟨xs, hSafe, hItem⟩ := hNodes node List.mem_cons_self
    obtain ⟨ys, hSafe', hFurther⟩ := ih fun node hMem => hNodes node (List.mem_cons_of_mem _ hMem)
    exact ⟨_, (hSafe.append hSafe').mark rfl, hItem.furtherMore hFurther ","⟩

theorem items (hNonempty : nodes ≠ []) (hNodes : ∀ node ∈ nodes, Spelled (.item sort node)) :
    Spelled (.items sort nodes) := by
  obtain ⟨node, nodes, rfl⟩ := List.exists_cons_of_ne_nil hNonempty
  obtain ⟨xs, hSafe, hItem⟩ := hNodes node List.mem_cons_self
  obtain ⟨ys, hSafe', hFurther⟩ :=
    furtherItems fun node hMem => hNodes node (List.mem_cons_of_mem _ hMem)
  exact ⟨_, hSafe.append hSafe', hItem.items hFurther⟩

theorem expressionItem {node : Node} (hNode : Spelled (.expression 0 node)) :
    Spelled (.item .expression node) :=
  hNode.imp fun _ hFrames => ⟨hFrames.1, hFrames.2.expressionItem⟩

theorem arguments (hNodes : ∀ node ∈ nodes, Spelled (.expression 0 node)) :
    Spelled (.arguments nodes) := by
  by_cases hNil : nodes = []
  · subst hNil
    exact ⟨_, safe_nil.mark rfl, .argumentsNone ")"⟩
  · obtain ⟨xs, hSafe, hItems⟩ := items hNil fun node hMem => (hNodes node hMem).expressionItem
    exact ⟨_, hSafe.append (safe_nil.mark rfl), hItems.argumentsSome ")"⟩

theorem clause (word : Keyword) {node : Option Node}
    (hNode : ∀ inner ∈ node, Spelled (.expression 0 inner)) :
    Spelled (.clause word node) := by
  cases node with
  | none => exact ⟨[], safe_nil, .clauseNone⟩
  | some node =>
    obtain ⟨xs, hSafe, hFrames⟩ := hNode node rfl
    exact ⟨_, hSafe.keyword word, hFrames.clauseSome _⟩

theorem listClause (word : Keyword) (hNodes : ∀ node ∈ nodes, Spelled (.item sort node)) :
    Spelled (.listClause word sort nodes) := by
  by_cases hNil : nodes = []
  · subst hNil
    exact ⟨[], safe_nil, .listClauseNone⟩
  · obtain ⟨xs, hSafe, hItems⟩ := items hNil hNodes
    exact ⟨_, hSafe.keyword word, hItems.listClauseSome _⟩

theorem rules {rules : List (Node × Node)}
    (hConditions : ∀ rule ∈ rules, Spelled (.expression 0 rule.1))
    (hResults : ∀ rule ∈ rules, Spelled (.expression 0 rule.2)) : Spelled (.rules rules) := by
  induction rules with
  | nil => exact ⟨[], safe_nil, .rulesDone⟩
  | cons rule rules ih =>
    obtain ⟨xs, hSafe, hCondition⟩ := hConditions rule List.mem_cons_self
    obtain ⟨ys, hSafe', hResult⟩ := hResults rule List.mem_cons_self
    obtain ⟨zs, hSafe'', hRules⟩ :=
      ih (fun rule hMem => hConditions rule (List.mem_cons_of_mem _ hMem))
        fun rule hMem => hResults rule (List.mem_cons_of_mem _ hMem)
    exact ⟨_, (hSafe.append ((hSafe'.append hSafe'').keyword .THEN)).keyword .WHEN,
      hCondition.rulesMore hResult hRules _ _⟩

end Spelled

/-! ## Parts without a tree inside -/

/-- An alias that may be missing. -/
theorem exists_alias {node : Node} (hNode : node.aliasName = none) {aliasName : Option String}
    (hAlias : ∀ name ∈ aliasName, Token.Enclosable name.toList) :
    ∃ xs, Safe xs ∧ ∀ r, (front r).opensAlias = false →
      Aliased node { node with aliasName := aliasName } (xs ++ r) r := by
  cases aliasName with
  | none =>
    refine ⟨[], safe_nil, fun r hr => ?_⟩
    obtain ⟨form, aliasName, parentheses⟩ := node
    obtain rfl : aliasName = none := hNode
    obtain ⟨hName, hWord⟩ := Bool.or_eq_false_iff.1 hr
    exact .absent (beq_eq_false_iff_ne.1 hWord) hName
  | some name =>
    refine ⟨[Keyword.AS.glyph, ⟨.identifier name (some Token.backtick), name⟩], ?_, fun r _ => ?_⟩
    · exact (safe_nil.quotedName (hAlias name rfl)).keyword .AS
    · exact .introduced

theorem exists_distinct (distinct : Bool) :
    Safe (distinctGlyphs distinct) ∧
      (∀ r, front r ≠ .keyword .DISTINCT →
        OptionalWord .DISTINCT distinct (distinctGlyphs distinct ++ r) r) ∧
      ∀ r, front r ≠ .keyword .DISTINCT → front r ≠ .keyword .ALL →
        Distinctness distinct (distinctGlyphs distinct ++ r) r := by
  cases distinct with
  | false => exact ⟨safe_nil, fun _ => .absent, fun _ => .neither⟩
  | true => exact ⟨safe_nil.keyword .DISTINCT, fun _ _ => .present, fun _ _ _ => .distinct⟩

theorem exists_direction (direction : Direction) :
    ∃ xs, Safe xs ∧ ∀ r, front r ≠ .keyword .ASC → front r ≠ .keyword .DESC →
      Directed direction (xs ++ r) r := by
  cases direction with
  | unspecified => exact ⟨[], safe_nil, fun _ => .unspecified⟩
  | ascending => exact ⟨_, safe_nil.keyword .ASC, fun _ _ _ => .ascending⟩
  | descending => exact ⟨_, safe_nil.keyword .DESC, fun _ _ _ => .descending⟩

theorem exists_nulls (nulls : NullPlacement) :
    ∃ xs, Safe xs ∧ ∀ r, front r ≠ .keyword .NULLS_FIRST → front r ≠ .keyword .NULLS_LAST →
      Placed nulls (xs ++ r) r := by
  cases nulls with
  | unspecified => exact ⟨[], safe_nil, fun _ => .unspecified⟩
  | first => exact ⟨_, safe_nil.keyword .NULLS_FIRST, fun _ _ _ => .first⟩
  | last => exact ⟨_, safe_nil.keyword .NULLS_LAST, fun _ _ _ => .last⟩

theorem exists_typeWords {words : List String}
    (hWords : ∀ word ∈ words, Token.PlainName word.toList) :
    ∃ xs, Safe xs ∧ ∀ r, (∀ value, front r ≠ .identifier value none) →
      TypeWords words (xs ++ r) r := by
  induction words with
  | nil => exact ⟨[], safe_nil, fun _ => .done⟩
  | cons word words ih =>
    obtain ⟨hWord, hRest⟩ := List.forall_mem_cons.1 hWords
    obtain ⟨xs, hSafe, hTypes⟩ := ih hRest
    exact ⟨_, hSafe.plainName hWord, fun r hr => .more (hTypes r hr)⟩

theorem exists_typeSizes {sizes : List Int64} (hSizes : ∀ size ∈ sizes, 0 ≤ size.toInt) :
    ∃ xs, Safe xs ∧ ∀ r, front r ≠ .comma →
      TypeSizes (sizes.map fun size => toString size.toInt) (xs ++ r) r := by
  induction sizes with
  | nil => exact ⟨[], safe_nil, fun _ => .done⟩
  | cons size sizes ih =>
    obtain ⟨hSize, hRest⟩ := List.forall_mem_cons.1 hSizes
    obtain ⟨xs, hSafe, hTypes⟩ := ih hRest
    refine ⟨⟨.comma, ","⟩ :: ⟨.integer size, toString size.toInt⟩ :: xs, ?_, fun r hr => ?_⟩
    · exact (hSafe.integer hSize).mark rfl
    · exact .more (hTypes r hr)

theorem exists_typeName {word : String} {words : List String} {sizes : List Int64}
    (hWord : Token.PlainName word.toList ∨
      ∃ name, Token.Enclosable name.toList ∧ word = enclose name (some Token.backtick))
    (hWords : ∀ word ∈ words, Token.PlainName word.toList)
    (hSizes : ∀ size ∈ sizes, 0 ≤ size.toInt) :
    ∃ xs, Safe xs ∧ ∀ r, front r = .rightParen →
      TypeName (typeText (word :: words) sizes) (xs ++ r) r := by
  obtain ⟨glyph, hFirst, hType⟩ : ∃ glyph, (∀ xs, Safe xs → Safe (glyph :: xs)) ∧
      ∀ r, TypeWord word (glyph :: r) r := by
    rcases hWord with hName | ⟨name, hName, rfl⟩
    · exact ⟨_, fun xs hSafe => hSafe.plainName hName, fun r => .bare⟩
    · exact ⟨⟨.identifier name (some Token.backtick), name⟩,
        fun xs hSafe => hSafe.quotedName hName, fun r => .quoted⟩
  obtain ⟨xs, hSafe, hTypes⟩ := exists_typeWords hWords
  cases sizes with
  | nil =>
    refine ⟨glyph :: xs, hFirst _ hSafe, fun r hr => ?_⟩
    exact .plain (hType _) (hTypes r (by simp [hr])) (by simp [hr])
  | cons size sizes =>
    obtain ⟨hSize, hRest⟩ := List.forall_mem_cons.1 hSizes
    obtain ⟨ys, hSafe', hTypes'⟩ := exists_typeSizes hRest
    refine ⟨glyph :: (xs ++ ⟨.leftParen, "("⟩ :: ⟨.integer size, toString size.toInt⟩ ::
      (ys ++ [⟨.rightParen, ")"⟩])), hFirst _ (hSafe.append ?_), fun r _ => ?_⟩
    · exact ((hSafe'.append (safe_nil.mark rfl)).integer hSize).mark rfl
    · have hName := TypeName.sized (hType _)
        (hTypes (⟨.leftParen, "("⟩ :: ⟨.integer size, toString size.toInt⟩ ::
          (ys ++ ⟨.rightParen, ")"⟩ :: r)) (by simp))
        (hTypes' (⟨.rightParen, ")"⟩ :: r) (by simp))
      simpa [typeText] using hName

/-! ## Spellings -/

/-- Glyphs that are sources, whatever joins go on with them. -/
def Joined (node : Node) (xs : List Glyph) : Prop :=
  ∀ ⦃whole : Node⦄ ⦃ys : List Glyph⦄, Frames .mysql (.joins node whole) ys →
    Frames .mysql (.sourceClause (some whole)) (Keyword.FROM.glyph :: (xs ++ ys))

/-- A node that some safe glyphs spell in a place. -/
def Place.Spelled (node : Node) : Place → Prop
  | .operand => ∃ xs, Safe xs ∧ Frames .mysql (.operand node) xs ∧ node.opening.Heads xs
  | .expression rank => ∃ xs, Safe xs ∧ Chains rank node xs ∧ node.opening.Heads xs
  | .target => SqlQuery.Spelled (.item .target node)
  | .entry => SqlQuery.Spelled (.item .entry node)
  | .source => SqlQuery.Spelled (.source node)
  | .sources => ∃ xs, Safe xs ∧ Joined node xs
  | .select => SqlQuery.Spelled (.select node)

section Operands

variable {node arg : Node} {nodes : List Node}

theorem spelled_of_expression {rank : Nat} (least : Nat)
    (hNode : (Place.expression rank).Spelled node)
    (hLeast : least ≤ 2 * rank + 1) : Spelled (.expression least node) := by
  obtain ⟨xs, hSafe, hChains, -⟩ := hNode
  exact ⟨xs, hSafe, hChains.frames hLeast⟩

theorem spelled_atom (kind : TokenKind) (text : String)
    (hAtom : Dialect.mysql.atom? kind = some node) (hGenuine : Glyph.Genuine ⟨kind, text⟩) :
    Place.operand.Spelled node := by
  refine ⟨[⟨kind, text⟩], safe_nil.cons hGenuine ?_, .atom hAtom text, .of_kind ⟨?_, ?_⟩⟩
  · rintro value rfl
    cases hAtom
  · rintro rfl
    cases hAtom
  · rintro rfl
    cases hAtom

theorem spelled_keyword (word : Keyword) (hAtom : Dialect.mysql.atom? (.keyword word) = some node) :
    Place.operand.Spelled node :=
  spelled_atom _ word.spelling hAtom (Keyword.genuine_glyph word)

theorem LegibleName.spelled (hName : LegibleName node) : Place.operand.Spelled node := by
  cases hName with
  | bare hName => exact ⟨_, safe_nil.plainName hName, .column _ _, .of_kind (by simp)⟩
  | @quoted name hName =>
    exact spelled_atom (.identifier name (some Token.backtick)) name rfl ⟨rfl, hName⟩
  | @variableName name system hName =>
    cases system with
    | false => exact spelled_atom (.userVariable name) "" rfl hName
    | true => exact spelled_atom (.systemVariable name) "" rfl hName

theorem spelled_call {name : String} {distinct : Bool} (hName : Token.BareName name.toList)
    (hArgs : ∀ arg ∈ nodes, (Place.expression 0).Spelled arg) :
    Place.operand.Spelled (.call name nodes distinct) := by
  obtain ⟨xs, hSafe, hArgs⟩ :=
    Spelled.arguments fun arg hMem => spelled_of_expression 0 (hArgs arg hMem) (by omega)
  obtain ⟨hSafe', hDistinct, -⟩ := exists_distinct distinct
  exact ⟨_, (hSafe'.append hSafe).callName hName, .call hDistinct hArgs _ _, .of_kind (by simp)⟩

theorem spelled_unary {op : String} {kind : TokenKind} {operator : OperatorClass}
    (hClass : kind.prefixClass? = some operator) (hOp : Glyph.Genuine ⟨kind, op⟩)
    (hArg : Place.operand.Spelled arg) : Place.operand.Spelled (.unary op arg) := by
  obtain ⟨xs, hSafe, hFrames, -⟩ := hArg
  have hExpression : Frames .mysql (.expression 11 arg) xs :=
    (Chains.of_operand 5 hFrames).frames (by omega)
  refine ⟨_, hSafe.cons hOp ?_, hExpression.unary hClass op, ?_, ?_⟩
  · rintro value rfl
    cases hClass
  · rintro hOpening r rfl
    -- A `NOT` is a complement.
    have hNot : Text.sameWord "NOT".toList op.toList = true := hOp "NOT" rfl
    refine hOpening ?_
    rw [Node.unary, Node.ofForm, Node.opening_mk]
    exact if_pos hNot
  · rintro - r rfl
    cases hClass

/-- How an undecorated node other than a query opens in parentheses. -/
theorem Node.opening_grouped {form : Form Node} (hForm : ∀ query, form ≠ .select query) :
    ((ofForm form).withParentheses true).opening = .parenthesis := by
  rw [ofForm, withParentheses, opening_mk]
  cases form with
  | select query => exact absurd rfl (hForm query)
  | _ => rfl

theorem spelled_grouped {form : Form Node} (hForm : ∀ query, form ≠ .select query)
    (hNode : (Place.expression 0).Spelled (.ofForm form)) :
    Place.operand.Spelled ((Node.ofForm form).withParentheses true) := by
  obtain ⟨xs, hSafe, hFrames⟩ := spelled_of_expression 0 hNode (by omega)
  exact ⟨_, hSafe.enclosed, hFrames.grouped "(" ")", .enclosed fun hOpening =>
    absurd (Node.opening_grouped hForm) hOpening⟩

theorem Frames.front_select {dialect : Dialect} {xs : List Glyph}
    (hSelect : Frames dialect (.select node) xs) (r : List Glyph) :
    front (xs ++ r) = .keyword .SELECT := by
  have hFront := beq_iff_eq.1 ((hSelect [] (Construct.admits_of_front rfl rfl)).opens_of_solid rfl)
  cases xs with
  | nil => cases hFront
  | cons glyph xs => exact hFront

theorem spelled_subquery (hNode : Place.select.Spelled node) :
    Place.operand.Spelled (node.withParentheses true) := by
  obtain ⟨xs, hSafe, hFrames⟩ := hNode
  exact ⟨_, hSafe.enclosed, hFrames.subquery "(" ")", .enclosed fun _ r => hFrames.front_select r⟩

theorem spelled_tuple {first second : Node} {further : List Node}
    (hItems : ∀ item ∈ first :: second :: further, (Place.expression 0).Spelled item) :
    Place.operand.Spelled (.tuple (first :: second :: further)) := by
  obtain ⟨hFirst, hFurther⟩ := List.forall_mem_cons.1 hItems
  obtain ⟨xs, hSafe, hFrames⟩ := spelled_of_expression 0 hFirst (by omega)
  obtain ⟨ys, hSafe', hFrames'⟩ := Spelled.furtherItems fun item hMem =>
    (spelled_of_expression 0 (hFurther item hMem) (by omega)).expressionItem
  refine ⟨_, (hSafe.append hSafe').enclosed, hFrames.tuple hFrames' "(" ")",
    .enclosed fun hOpening => absurd ?_ hOpening⟩
  rw [Node.tuple, Node.ofForm, Node.opening_mk]
  rfl

theorem spelled_typeCast {word : String} {words : List String} {sizes : List Int64}
    (hWord : Token.PlainName word.toList ∨
      ∃ name, Token.Enclosable name.toList ∧ word = enclose name (some Token.backtick))
    (hWords : ∀ word ∈ words, Token.PlainName word.toList)
    (hSizes : ∀ size ∈ sizes, 0 ≤ size.toInt) (hArg : (Place.expression 0).Spelled arg) :
    Place.operand.Spelled (.ofForm (.typeCast (typeText (word :: words) sizes) arg)) := by
  obtain ⟨xs, hSafe, hFrames⟩ := spelled_of_expression 0 hArg (by omega)
  obtain ⟨ys, hSafe', hName⟩ := exists_typeName hWord hWords hSizes
  have hClose : Safe [⟨.rightParen, ")"⟩] := safe_nil.mark rfl
  have hInner := hSafe.append ((hSafe'.append hClose).keyword .AS)
  exact ⟨_, (hInner.mark rfl).keyword .CAST, hFrames.typeCast hName _ "(" _ ")", .of_kind (by simp)⟩

theorem spelled_caseWhen {rules : List (Node × Node)} {default : Option Node} (hRules : rules ≠ [])
    (hConditions : ∀ rule ∈ rules, (Place.expression 0).Spelled rule.1)
    (hResults : ∀ rule ∈ rules, (Place.expression 0).Spelled rule.2)
    (hDefault : ∀ node ∈ default, (Place.expression 0).Spelled node) :
    Place.operand.Spelled (.ofForm (.caseWhen rules default)) := by
  obtain ⟨xs, hSafe, hFrames⟩ := Spelled.rules
    (fun rule hMem => spelled_of_expression 0 (hConditions rule hMem) (by omega))
    fun rule hMem => spelled_of_expression 0 (hResults rule hMem) (by omega)
  obtain ⟨ys, hSafe', hFrames'⟩ := Spelled.clause .ELSE fun node hMem =>
    spelled_of_expression 0 (hDefault node hMem) (by omega)
  obtain ⟨rule, rules, rfl⟩ := List.exists_cons_of_ne_nil hRules
  have hInner := (hSafe.append hSafe').append (safe_nil.keyword .END)
  exact ⟨_, hInner.keyword .CASE, hFrames.caseWhen hFrames' _ _, .of_kind (by simp)⟩

end Operands

section Operations

variable {rank : Nat} {left right : Node} {notText text : String}

/-- An operation on the right of a left operand of at least its rank. -/
theorem Spelled.operation {operator : OperatorClass} {node : Node}
    (hOperation : Spelled (.operation left operator node)) (hOpening : node.opening = left.opening)
    (hRank : rank ≤ operator.rank) (hLeft : (Place.expression operator.rank).Spelled left) :
    (Place.expression rank).Spelled node := by
  obtain ⟨xs, hSafe, hChains, hHeads⟩ := hLeft
  obtain ⟨ys, hSafe', hFrames⟩ := hOperation
  refine ⟨_, hSafe.append hSafe', (hChains.operation hFrames).mono hRank, ?_⟩
  rw [hOpening]
  exact hHeads.append ys

theorem spelled_binary {op : String} {kind : TokenKind} {operator : OperatorClass}
    (hSimple : operator.isSimple = true) (hClass : kind.infixClass? .finish = some operator)
    (hOp : Glyph.Genuine ⟨kind, op⟩)
    (hRight : (Place.expression (operator.rank + 1)).Spelled right) :
    Spelled (.operation left operator (.binary op left right)) := by
  obtain ⟨ys, hSafe, hFrames⟩ := spelled_of_expression (2 * operator.rank + 2) hRight (by omega)
  refine ⟨_, hSafe.cons hOp ?_, hFrames.binary hSimple hClass op⟩
  rintro value rfl
  cases hClass

theorem spelled_identity {negated : Bool} (hRight : (Place.expression 3).Spelled right)
    (hOpening : negated = false → right.opening ≠ .complement) :
    Spelled (.operation left .identity
      (.binary (if negated then "is not" else "is") left right)) := by
  obtain ⟨ys, hSafe, hChains, hHeads⟩ := hRight
  have hFrames := hChains.frames (show 6 ≤ 2 * 3 + 1 by omega)
  cases negated with
  | false =>
    refine ⟨_, hSafe.keyword .IS, hFrames.identity [] (fun r => ?_) _⟩
    exact .absent (hHeads.word (hOpening rfl) r)
  | true =>
    exact ⟨_, (hSafe.keyword .NOT).keyword .IS,
      hFrames.identity [Keyword.NOT.glyph] (fun r => .present) _⟩

theorem spelled_likeness {negated : Bool} (hNot : Text.sameWord "NOT".toList notText.toList = true)
    (hText : Text.sameWord "LIKE".toList text.toList = true)
    (hRight : (Place.expression 3).Spelled right) :
    Spelled (.operation left .likeness
      (.binary (negatableText negated notText text) left right)) := by
  obtain ⟨ys, hSafe, hFrames⟩ := spelled_of_expression 6 hRight (by omega)
  exact ⟨_, (safe_negatable negated rfl hNot hText).append hSafe,
    .likeness (negatableWord_glyphs .LIKE negated notText text) hFrames⟩

theorem spelled_membershipList {negated : Bool} {items : List Node}
    (hNot : Text.sameWord "NOT".toList notText.toList = true)
    (hText : Text.sameWord "IN".toList text.toList = true)
    (hItems : ∀ item ∈ items, (Place.expression 0).Spelled item) :
    Spelled (.operation left .membership
      (.binary (negatableText negated notText text) left (.tuple items))) := by
  obtain ⟨ys, hSafe, hFrames⟩ := Spelled.arguments fun item hMem =>
    spelled_of_expression 0 (hItems item hMem) (by omega)
  have hList : Safe (⟨.leftParen, "("⟩ :: ys) := hSafe.mark rfl
  exact ⟨_, (safe_negatable negated rfl hNot hText).append hList, fun r _ =>
    Frames.membershipList (negatableWord_glyphs .IN negated notText text) hFrames "(" r⟩

theorem spelled_membership {negated : Bool}
    (hNot : Text.sameWord "NOT".toList notText.toList = true)
    (hText : Text.sameWord "IN".toList text.toList = true)
    (hRight : (Place.expression 3).Spelled right) (hOpening : right.opening ≠ .parenthesis) :
    Spelled (.operation left .membership
      (.binary (negatableText negated notText text) left right)) := by
  obtain ⟨ys, hSafe, hChains, hHeads⟩ := hRight
  exact ⟨_, (safe_negatable negated rfl hNot hText).append hSafe,
    .membership (negatableWord_glyphs .IN negated notText text)
      (hChains.frames (by omega)) (hHeads.paren hOpening)⟩

theorem spelled_range {negated : Bool} {low high : Node}
    (hLow : (Place.expression 3).Spelled low) (hHigh : (Place.expression 3).Spelled high) :
    Spelled (.operation left .range (.between left low high negated)) := by
  obtain ⟨ys, hSafe, hLow⟩ := spelled_of_expression 6 hLow (by omega)
  obtain ⟨zs, hSafe', hHigh⟩ := spelled_of_expression 6 hHigh (by omega)
  have hWord : Safe (negatableGlyphs .BETWEEN negated "NOT" "BETWEEN") :=
    safe_negatable negated rfl (Text.sameWord_refl _) (Text.sameWord_refl _)
  exact ⟨_, hWord.append (hSafe.append (hSafe'.keyword .AND)),
    Frames.range (negatableWord_glyphs .BETWEEN negated "NOT" "BETWEEN") hLow hHigh _⟩

end Operations

section Queries

variable {node left right : Node}

theorem aliasName_of_spelled (hNode : Spelled (.expression 0 node)) : node.aliasName = none := by
  obtain ⟨xs, -, hFrames⟩ := hNode
  exact (hFrames [] (admits_expression rfl)).unaliased

theorem spelled_target {aliasName : Option String} (hNode : (Place.expression 0).Spelled node)
    (hAlias : ∀ name ∈ aliasName, Token.Enclosable name.toList) :
    Place.target.Spelled { node with aliasName := aliasName } := by
  have hSpelled := spelled_of_expression 0 hNode (by omega)
  obtain ⟨ys, hSafe', hAlias⟩ := exists_alias (aliasName_of_spelled hSpelled) hAlias
  obtain ⟨xs, hSafe, hFrames⟩ := hSpelled
  exact ⟨_, hSafe.append hSafe', hFrames.target hAlias⟩

theorem spelled_entry {direction : Direction} {nulls : NullPlacement}
    (hNode : (Place.expression 0).Spelled node) :
    Place.entry.Spelled (.ofForm (.orderBy node direction nulls)) := by
  obtain ⟨xs, hSafe, hFrames⟩ := spelled_of_expression 0 hNode (by omega)
  obtain ⟨ys, hSafe', hDirection⟩ := exists_direction direction
  obtain ⟨zs, hSafe'', hNulls⟩ := exists_nulls nulls
  exact ⟨_, hSafe.append (hSafe'.append hSafe''), hFrames.entry hDirection hNulls⟩

theorem spelled_table {aliasName : Option String} (hNode : LegibleName node)
    (hAlias : ∀ name ∈ aliasName, Token.Enclosable name.toList) :
    Place.source.Spelled { node with aliasName := aliasName } := by
  have hNone : node.aliasName = none := by cases hNode <;> rfl
  obtain ⟨xs, hSafe, hAlias⟩ := exists_alias hNone hAlias
  cases hNode with
  | bare hName => exact ⟨_, hSafe.plainName hName, .table rfl hAlias _⟩
  | quoted hName => exact ⟨_, hSafe.quotedName hName, .table rfl hAlias _⟩
  | @variableName name system hName =>
    cases system with
    | false =>
      exact ⟨⟨.userVariable name, ""⟩ :: xs, hSafe.cons hName (by simp), .table rfl hAlias _⟩
    | true =>
      exact ⟨⟨.systemVariable name, ""⟩ :: xs, hSafe.cons hName (by simp), .table rfl hAlias _⟩

theorem spelled_derivedTable {aliasName : Option String} (hNode : Place.select.Spelled node)
    (hAlias : ∀ name ∈ aliasName, Token.Enclosable name.toList) :
    Place.source.Spelled { node with aliasName := aliasName, parentheses := true } := by
  obtain ⟨xs, hSafe, hFrames⟩ := hNode
  have hNone : (node.withParentheses true).aliasName = none :=
    (hFrames [] (Construct.admits_of_front rfl rfl)).unaliased
  obtain ⟨ys, hSafe', hAlias⟩ := exists_alias hNone hAlias
  have hClose : Safe (⟨.rightParen, ")"⟩ :: ys) := hSafe'.mark rfl
  exact ⟨_, (hSafe.append hClose).mark rfl, hFrames.derivedTable hAlias "(" _⟩

theorem joined_source (hNode : Place.source.Spelled node) : Place.sources.Spelled node := by
  obtain ⟨xs, hSafe, hFrames⟩ := hNode
  exact ⟨xs, hSafe, fun _ _ hJoins => hFrames.sourceClauseSome hJoins _⟩

theorem joined_comma (hLeft : Place.sources.Spelled left) (hRight : Place.source.Spelled right) :
    Place.sources.Spelled (.ofForm (.join left right .comma none)) := by
  obtain ⟨xs, hSafe, hJoined⟩ := hLeft
  obtain ⟨ys, hSafe', hFrames⟩ := hRight
  refine ⟨xs ++ ⟨.comma, ","⟩ :: ys, hSafe.append (hSafe'.mark rfl), fun whole zs hJoins => ?_⟩
  simpa using hJoined (hFrames.joinsComma hJoins ",")

/-- The keyword of a join. -/
theorem exists_joinKind {kind : JoinKind} (hKind : kind ≠ .comma) :
    ∃ word : Keyword, Grammar.joinKind? (.keyword word) = some kind := by
  cases kind with
  | plain => exact ⟨.JOIN, rfl⟩
  | inner => exact ⟨.INNER_JOIN, rfl⟩
  | left => exact ⟨.LEFT_JOIN, rfl⟩
  | right => exact ⟨.RIGHT_JOIN, rfl⟩
  | full => exact ⟨.FULL_JOIN, rfl⟩
  | cross => exact ⟨.CROSS_JOIN, rfl⟩
  | comma => exact absurd rfl hKind

theorem joined_join {kind : JoinKind} {condition : Option Node} (hKind : kind ≠ .comma)
    (hLeft : Place.sources.Spelled left) (hRight : Place.source.Spelled right)
    (hCondition : ∀ node ∈ condition, (Place.expression 0).Spelled node) :
    Place.sources.Spelled (.ofForm (.join left right kind condition)) := by
  obtain ⟨word, hWord⟩ := exists_joinKind hKind
  obtain ⟨xs, hSafe, hJoined⟩ := hLeft
  obtain ⟨ys, hSafe', hFrames⟩ := hRight
  obtain ⟨cs, hSafe'', hClause⟩ := Spelled.clause .ON fun node hMem =>
    spelled_of_expression 0 (hCondition node hMem) (by omega)
  refine ⟨xs ++ word.glyph :: (ys ++ cs), ?_, fun whole zs hJoins => ?_⟩
  · exact hSafe.append ((hSafe'.append hSafe'').keyword word)
  · simpa [Keyword.glyph] using
      hJoined (Frames.joinsMore hWord hKind hFrames hClause hJoins word.spelling)

theorem spelled_sourceClause {source : Option Node}
    (hSource : ∀ node ∈ source, Place.sources.Spelled node) : Spelled (.sourceClause source) := by
  cases source with
  | none => exact ⟨[], safe_nil, .sourceClauseNone⟩
  | some node =>
    obtain ⟨xs, hSafe, hJoined⟩ := hSource node rfl
    have hFrames := hJoined .joinsDone
    rw [List.append_nil] at hFrames
    exact ⟨_, hSafe.keyword .FROM, hFrames⟩

theorem spelled_select {query : Query Node} (hNonempty : query.targets ≠ [])
    (hTargets : ∀ node ∈ query.targets, Place.target.Spelled node)
    (hSource : ∀ node ∈ query.source, Place.sources.Spelled node)
    (hCondition : ∀ node ∈ query.condition, (Place.expression 0).Spelled node)
    (hGroups : ∀ node ∈ query.groups, (Place.expression 0).Spelled node)
    (hHaving : ∀ node ∈ query.having, (Place.expression 0).Spelled node)
    (hOrdering : ∀ node ∈ query.ordering, Place.entry.Spelled node)
    (hLimit : ∀ node ∈ query.limit, (Place.expression 0).Spelled node)
    (hOffset : ∀ node ∈ query.offset, (Place.expression 0).Spelled node) :
    Place.select.Spelled (.ofForm (.select query)) := by
  have hClause : ∀ (word : Keyword) {node : Option Node},
      (∀ inner ∈ node, (Place.expression 0).Spelled inner) → Spelled (.clause word node) :=
    fun word node hNode => Spelled.clause word fun inner hMem =>
      spelled_of_expression 0 (hNode inner hMem) (by omega)
  obtain ⟨hSafe₁, -, hDistinct⟩ := exists_distinct query.distinct
  obtain ⟨g₂, hSafe₂, hTargets⟩ := Spelled.items hNonempty hTargets
  obtain ⟨g₃, hSafe₃, hSource⟩ := spelled_sourceClause hSource
  obtain ⟨g₄, hSafe₄, hCondition⟩ := hClause .WHERE hCondition
  obtain ⟨g₅, hSafe₅, hGroups⟩ := Spelled.listClause .GROUP_BY fun node hMem =>
    (spelled_of_expression 0 (hGroups node hMem) (by omega)).expressionItem
  obtain ⟨g₆, hSafe₆, hHaving⟩ := hClause .HAVING hHaving
  obtain ⟨g₇, hSafe₇, hOrdering⟩ := Spelled.listClause .ORDER_BY hOrdering
  obtain ⟨g₈, hSafe₈, hLimit⟩ := hClause .LIMIT hLimit
  obtain ⟨g₉, hSafe₉, hOffset⟩ := hClause .OFFSET hOffset
  have hSafe := hSafe₁.append (hSafe₂.append (hSafe₃.append (hSafe₄.append (hSafe₅.append
    (hSafe₆.append (hSafe₇.append (hSafe₈.append hSafe₉)))))))
  exact ⟨_, hSafe.keyword .SELECT, .select hDistinct hTargets hSource hCondition hGroups hHaving
    hOrdering hLimit hOffset _⟩

end Queries

/-- Every legible node is spelled by some glyphs. -/
theorem Legible.spelled {place : Place} {node : Node} (hNode : Legible place node) :
    place.Spelled node := by
  induction hNode with
  | name hName => exact hName.spelled
  | everything => exact spelled_atom .star "*" rfl (List.mem_singleton_self "*")
  | null => exact spelled_keyword .NULL rfl
  | parameter => exact spelled_atom .question "?" rfl (List.mem_singleton_self "?")
  | boolean value => cases value with
    | false => exact spelled_keyword .FALSE rfl
    | true => exact spelled_keyword .TRUE rfl
  | @integer value hValue => exact spelled_atom (.integer value) "" rfl hValue
  | @float value hFinite hSign => exact spelled_atom (.float value) "" rfl ⟨hFinite, hSign⟩
  | @text value hValue => exact spelled_atom (.text value) "" rfl hValue
  | call hName _ ih => exact spelled_call hName ih
  | unary hClass hOp _ ih => exact spelled_unary hClass hOp ih
  | grouped hNode ih =>
    refine spelled_grouped (fun query hForm => ?_) ih
    cases hNode.parentheses_of_select (Or.inr ⟨0, rfl⟩) query hForm
  | subquery _ ih => exact spelled_subquery ih
  | tuple _ ih => exact spelled_tuple ih
  | typeCast hWord hWords hSizes _ ih => exact spelled_typeCast hWord hWords hSizes ih
  | caseWhen hRules _ _ _ ihConditions ihResults ihDefault =>
    exact spelled_caseWhen hRules ihConditions ihResults ihDefault
  | operand _ ih =>
    obtain ⟨xs, hSafe, hFrames, hHeads⟩ := ih
    exact ⟨xs, hSafe, .of_operand _ hFrames, hHeads⟩
  | binary hSimple hClass hOp hRank _ _ ihLeft ihRight =>
    exact (spelled_binary hSimple hClass hOp ihRight).operation (Node.opening_binary ..) hRank
      ihLeft
  | identity hRank _ _ hOpening ihLeft ihRight =>
    exact (spelled_identity ihRight hOpening).operation (Node.opening_binary ..) hRank ihLeft
  | likeness hNot hText hRank _ _ ihLeft ihRight =>
    exact (spelled_likeness hNot hText ihRight).operation (Node.opening_binary ..) hRank ihLeft
  | membershipList hNot hText hRank _ _ ihLeft ihItems =>
    exact (spelled_membershipList hNot hText ihItems).operation (Node.opening_binary ..) hRank
      ihLeft
  | membership hNot hText hRank _ _ hOpening ihLeft ihRight =>
    exact (spelled_membership hNot hText ihRight hOpening).operation (Node.opening_binary ..) hRank
      ihLeft
  | range hRank _ _ _ ihSubject ihLow ihHigh =>
    exact (spelled_range ihLow ihHigh).operation (Node.opening_between ..) hRank ihSubject
  | target _ hAlias ih => exact spelled_target ih hAlias
  | entry _ ih => exact spelled_entry ih
  | table hNode hAlias => exact spelled_table hNode hAlias
  | derivedTable _ hAlias ih => exact spelled_derivedTable ih hAlias
  | source _ ih => exact joined_source ih
  | comma _ _ ihLeft ihRight => exact joined_comma ihLeft ihRight
  | join hKind _ _ _ ihLeft ihRight ihCondition =>
    exact joined_join hKind ihLeft ihRight ihCondition
  | select hNonempty _ _ _ _ _ _ _ _ ihTargets ihSource ihCondition ihGroups ihHaving ihOrdering
      ihLimit ihOffset =>
    exact spelled_select hNonempty ihTargets ihSource ihCondition ihGroups ihHaving ihOrdering
      ihLimit ihOffset

/-! ## Queries built by hand -/

/-- A legible query is a statement, with or without parentheses around it. -/
theorem Legible.derivesStatement {node : Node} (hNode : Legible .select node) (parentheses : Bool) :
    ∃ gs, Plain gs ∧ DerivesStatement .mysql (node.withParentheses parentheses) gs := by
  obtain ⟨xs, hSafe, hFrames⟩ := hNode.spelled
  have hSame : node.withParentheses false = node := by cases hNode; rfl
  have hNil : Plain [] := ⟨by simp [Glyph.AllGenuine], by simp⟩
  have hQuery : ∃ ys, Safe ys ∧ Frames .mysql (.query (node.withParentheses parentheses)) ys := by
    cases parentheses with
    | false => exact ⟨xs, hSafe, hSame.symm ▸ hFrames.bareQuery⟩
    | true => exact ⟨_, hSafe.enclosed, hFrames.bareQuery.enclosedQuery "(" ")"⟩
  obtain ⟨ys, hSafe, hFrames⟩ := hQuery
  have hDerives := hFrames [] (Construct.admits_of_front rfl rfl)
  have hPlain := hSafe [] hNil
  rw [List.append_nil] at hDerives hPlain
  exact ⟨ys, hPlain, Or.inl hDerives⟩

/--
**A query built by hand reads back if it is legible**: its text parses, to the
same tree, in the MySQL dialect, and in the generic dialect if it has no
variable.
-/
theorem parse_render_legible {node : Node} (hNode : Legible .select node) (parentheses : Bool) :
    parse (node.withParentheses parentheses).render .mysql =
        .ok (node.withParentheses parentheses) ∧
      (¬(node.withParentheses parentheses).HasVariable →
        parse (node.withParentheses parentheses).render .generic =
          .ok (node.withParentheses parentheses)) := by
  obtain ⟨gs, hPlain, hDerives⟩ := hNode.derivesStatement parentheses
  obtain ⟨cs, hReads, hDerives'⟩ := hDerives.rewritten hPlain
  have hParse := parse_of_derives hReads hDerives'
  exact ⟨hParse, parse_generic_of_mysql hParse⟩

/-- A query built by hand: a sum in parentheses under a product, a query and a
list as right operands of `IN`, and a reserved word as an alias. -/
def report : Node :=
  .ofForm (.select
    { distinct := true
      targets :=
        [.call "count" [.identifier "*" none] false,
          (Node.binary "*"
            ((Node.binary "+" (.identifier "t.a" none) (.constant (.integer 1))).withParentheses
              true) (.identifier "b" none)).withAlias "order"]
      source := some (.ofForm (.join (.identifier "t" none)
        (((Node.ofForm (.select { targets := [.null] })).withParentheses true).withAlias "u") .left
        (some (.binary "is" (.identifier "c" none) .null))))
      condition := some (.binary "AND"
        (.binary "not in" (.identifier "a" none) (.tuple [.constant (.text "x")]))
        (.between (.identifier "b" none) .parameter (.unary "-" (.constant (.integer 2))) false))
      ordering := [.ofForm (.orderBy (.identifier "b" none) .descending .last)] })

theorem legible_report : Legible .select report := by
  have hName : ∀ {name : String}, isPlainWord name.toList = true →
      Legible .operand (.identifier name none) := fun h => .name (legible_word h)
  have hPart : ∀ {c : Char}, Text.isWordStart c = true → Token.PartText [c] ⟨[c], false⟩ :=
    fun h => .bare h (by simp)
  have hDotted : Token.PlainName "t.a".toList := by
    refine ⟨⟨[⟨['t'], false⟩, ⟨['a'], false⟩], ?_, rfl, by simp⟩, by decide +kernel⟩
    exact .dotted (hPart (by decide +kernel)) (.single (hPart (by decide +kernel)))
  have hSum : Legible (.expression 0)
      (.binary "+" (.identifier "t.a" none) (.constant (.integer 1))) := by
    have hPlus : Glyph.Genuine ⟨.plus, "+"⟩ := List.mem_singleton_self "+"
    exact .binary rfl rfl hPlus (by decide) (.operand (.name (.bare hDotted)))
      (.operand (.integer (by decide)))
  have hProduct : Legible (.expression 0) (.binary "*" ((Node.binary "+" (.identifier "t.a" none)
      (.constant (.integer 1))).withParentheses true) (.identifier "b" none)) := by
    have hStar : Glyph.Genuine ⟨.star, "*"⟩ := List.mem_singleton_self "*"
    exact .binary rfl rfl hStar (by decide) (.operand (.grouped hSum))
      (.operand (hName (by decide +kernel)))
  have hInner : Legible .select (.ofForm (.select { targets := [.null] })) := by
    refine .select (by simp) (List.forall_mem_singleton.2 ?_) (by simp) (by simp) (by simp)
      (by simp) (by simp) (by simp) (by simp)
    exact .target (.operand .null) (by simp)
  have hCount : Legible (.expression 0) (.call "count" [.identifier "*" none] false) :=
    .operand (.call (bareName_of_isPlainWord (by decide +kernel)).1
      (List.forall_mem_singleton.2 (.operand .everything)))
  have hTest : Legible (.expression 1)
      (.binary "not in" (.identifier "a" none) (.tuple [.constant (.text "x")])) := by
    have hItem : Legible .operand (.constant (.text "x")) := .text (by decide)
    exact @Legible.membershipList 1 true "not" "in" _ _ (by decide +kernel) (by decide +kernel)
      (by omega) (.operand (hName (by decide +kernel)))
      (List.forall_mem_singleton.2 (.operand hItem))
  have hMinus : Legible .operand (.unary "-" (.constant (.integer 2))) := by
    have hSign : Glyph.Genuine ⟨.minus, "-"⟩ := List.mem_singleton_self "-"
    exact .unary rfl hSign (.integer (by decide))
  have hAlias : ∀ {given : String}, given ∈ ["order", "u"] →
      ∀ name ∈ some given, Token.Enclosable name.toList := by
    have hAll : ∀ given ∈ ["order", "u"], given.toList ≠ [] ∧ Token.backtick ∉ given.toList := by
      decide
    rintro given hMem _ ⟨⟩
    exact hAll given hMem
  have hDerived := Legible.derivedTable hInner (hAlias (show "u" ∈ _ by simp))
  refine .select (by simp) ?_ ?_ ?_ (by simp) (by simp) ?_ (by simp) (by simp)
  · refine List.forall_mem_cons.2 ⟨.target hCount (by simp), List.forall_mem_singleton.2 ?_⟩
    exact .target hProduct (hAlias (by simp))
  · rintro _ ⟨⟩
    refine .join (by simp) (.source (.table (legible_word ?_) (by simp))) hDerived ?_
    · decide +kernel
    · rintro _ ⟨⟩
      exact @Legible.identity 0 false _ _ (by omega) (.operand (hName (by decide +kernel)))
        (.operand .null) (by decide)
  · rintro _ ⟨⟩
    have hAnd : Glyph.Genuine ⟨.keyword .AND, "AND"⟩ := Keyword.AND.genuine_glyph
    exact .binary (show OperatorClass.conjunction.isSimple = true from rfl) rfl hAnd
      (by decide) hTest
      (.range (by decide) (.operand (hName (by decide +kernel))) (.operand .parameter)
        (.operand hMinus))
  · exact List.forall_mem_singleton.2 (.entry (.operand (hName (by decide +kernel))))

theorem parse_render_legible_report :
    parse (report.withParentheses true).render .mysql = .ok (report.withParentheses true) ∧
      parse (report.withParentheses true).render .generic = .ok (report.withParentheses true) := by
  have hNone : ¬(report.withParentheses true).HasVariable := by
    rw [← Node.any_traversal_iff]
    decide +kernel
  obtain ⟨hMysql, hGeneric⟩ := parse_render_legible legible_report true
  exact ⟨hMysql, hGeneric hNone⟩

end SqlQuery
