import SqlQuery.Dialect

/-!
# Derivations

A successful parse says two things: which tokens were consumed, and which tree
they stand for.  This module says the same without a parser.  A *construct* is
a part of the language together with what it stands for, and `Derives` relates
a construct to the glyphs before and after it: one rule for each way in which
the parsers of the shared grammar, and the variables of the MySQL dialect, may
succeed.

Neither levels of nesting nor bounds of repetitions nor errors occur here, so
that a property of parsed trees is an induction over derivations.  That the
parsers succeed exactly on what is derivable is shown in
`SqlQuery.Proofs.Soundness` and `SqlQuery.Proofs.Completeness`.

## Main definitions

* `Glyph` — a token without its place in the text.
* `Construct` — a part of the language and what it stands for.
* `Derives` — the derivations of a dialect.
* `DerivesStatement` — a query that makes up a whole statement.
-/

namespace SqlQuery

/-! ## Glyphs -/

/-- A token without its place in the text. -/
structure Glyph where
  kind : TokenKind
  text : String
deriving DecidableEq, Repr

/-- What a token is, whatever its place. -/
def Token.glyph (token : Token) : Glyph := ⟨token.kind, token.lexeme⟩

/-- The glyphs ahead in a stream. -/
def TokenStream.glyphs (stream : TokenStream) : List Glyph :=
  stream.ahead.map Token.glyph

namespace Glyph

/-- The kind of the first glyph; at the end, that of the end. -/
def front : List Glyph → TokenKind
  | [] => .finish
  | glyph :: _ => glyph.kind

@[simp] theorem front_nil : front [] = .finish := rfl

@[simp] theorem front_cons (glyph : Glyph) (gs : List Glyph) :
    front (glyph :: gs) = glyph.kind := rfl

/-- A kind at the front that is not the end belongs to a glyph. -/
theorem eq_cons_of_front {gs : List Glyph} {kind : TokenKind} (hFront : front gs = kind)
    (hKind : kind ≠ .finish) : ∃ text, gs = ⟨kind, text⟩ :: gs.tail := by
  cases gs with
  | nil => exact absurd hFront.symm hKind
  | cons glyph gs =>
    subst hFront
    exact ⟨glyph.text, rfl⟩

/-- The class of the operator that the glyphs start with, if they do. -/
def operator? (gs : List Glyph) : Option OperatorClass :=
  (front gs).infixClass? (front gs.tail)

end Glyph

open Glyph (front)

/-! ## Ranks of operators -/

/-- The level of an operator in the table of precedence, loosest first. -/
def OperatorClass.rank : OperatorClass → Nat
  | .disjunction => 0
  | .conjunction => 1
  | .comparison | .identity | .membership | .likeness | .range => 2
  | .additive => 3
  | .multiplicative => 4
  | .negation | .complement => 5

/-- Whether an operator is a single token with an operand on either side. -/
def OperatorClass.isSimple : OperatorClass → Bool
  | .disjunction | .conjunction | .comparison | .additive | .multiplicative => true
  | _ => false

/-! ## Parts without a tree inside -/

/-- A keyword that may be missing, and whether it is there. -/
inductive OptionalWord (word : Keyword) : Bool → List Glyph → List Glyph → Prop
  | present {text : String} {gs : List Glyph} :
    OptionalWord word true (⟨.keyword word, text⟩ :: gs) gs
  | absent {gs : List Glyph} (hFront : front gs ≠ .keyword word) :
    OptionalWord word false gs gs

/-- An operator that may be negated: whether it is, and its text. -/
inductive NegatableWord (word : Keyword) : Bool → String → List Glyph → List Glyph → Prop
  | plain {text : String} {gs : List Glyph} :
    NegatableWord word false text (⟨.keyword word, text⟩ :: gs) gs
  | negated {text text' : String} {gs : List Glyph} :
    NegatableWord word true (text ++ " " ++ text')
      (⟨.keyword .NOT, text⟩ :: ⟨.keyword word, text'⟩ :: gs) gs

/-- `DISTINCT`, `ALL` or neither, and whether distinct rows are asked for. -/
inductive Distinctness : Bool → List Glyph → List Glyph → Prop
  | distinct {text : String} {gs : List Glyph} :
    Distinctness true (⟨.keyword .DISTINCT, text⟩ :: gs) gs
  | all {text : String} {gs : List Glyph} :
    Distinctness false (⟨.keyword .ALL, text⟩ :: gs) gs
  | neither {gs : List Glyph} (hDistinct : front gs ≠ .keyword .DISTINCT)
      (hAll : front gs ≠ .keyword .ALL) :
    Distinctness false gs gs

/-- A node, and the node with the alias that follows it, if one does. -/
inductive Aliased (node : Node) : Node → List Glyph → List Glyph → Prop
  | introduced {text text' name : String} {quote : Option Char} {gs : List Glyph} :
    Aliased node (node.withAlias name)
      (⟨.keyword .AS, text⟩ :: ⟨.identifier name quote, text'⟩ :: gs) gs
  | bare {text name : String} {quote : Option Char} {gs : List Glyph} :
    Aliased node (node.withAlias name) (⟨.identifier name quote, text⟩ :: gs) gs
  | absent {gs : List Glyph} (hWord : front gs ≠ .keyword .AS)
      (hName : (front gs).isIdentifier = false) :
    Aliased node node gs gs

/-- The direction of an entry of an ordering. -/
inductive Directed : Direction → List Glyph → List Glyph → Prop
  | ascending {text : String} {gs : List Glyph} :
    Directed .ascending (⟨.keyword .ASC, text⟩ :: gs) gs
  | descending {text : String} {gs : List Glyph} :
    Directed .descending (⟨.keyword .DESC, text⟩ :: gs) gs
  | unspecified {gs : List Glyph} (hAscending : front gs ≠ .keyword .ASC)
      (hDescending : front gs ≠ .keyword .DESC) :
    Directed .unspecified gs gs

/-- The placement of nulls in an entry of an ordering. -/
inductive Placed : NullPlacement → List Glyph → List Glyph → Prop
  | first {text : String} {gs : List Glyph} :
    Placed .first (⟨.keyword .NULLS_FIRST, text⟩ :: gs) gs
  | last {text : String} {gs : List Glyph} :
    Placed .last (⟨.keyword .NULLS_LAST, text⟩ :: gs) gs
  | unspecified {gs : List Glyph} (hFirst : front gs ≠ .keyword .NULLS_FIRST)
      (hLast : front gs ≠ .keyword .NULLS_LAST) :
    Placed .unspecified gs gs

/-- The first word of a type's name. -/
inductive TypeWord : String → List Glyph → List Glyph → Prop
  | quoted {value text : String} {quote : Char} {gs : List Glyph} :
    TypeWord (quote.toString ++ value ++ quote.toString)
      (⟨.identifier value (some quote), text⟩ :: gs) gs
  | bare {value text : String} {gs : List Glyph} :
    TypeWord value (⟨.identifier value none, text⟩ :: gs) gs

/-- The further words of a type's name. -/
inductive TypeWords : List String → List Glyph → List Glyph → Prop
  | done {gs : List Glyph} (hFront : ∀ value, front gs ≠ .identifier value none) :
    TypeWords [] gs gs
  | more {value text : String} {words : List String} {gs hs : List Glyph}
      (hWords : TypeWords words gs hs) :
    TypeWords (value :: words) (⟨.identifier value none, text⟩ :: gs) hs

/-- The sizes of a type after the first. -/
inductive TypeSizes : List String → List Glyph → List Glyph → Prop
  | done {gs : List Glyph} (hFront : front gs ≠ .comma) : TypeSizes [] gs gs
  | more {value : Int64} {text text' : String} {sizes : List String} {gs hs : List Glyph}
      (hSizes : TypeSizes sizes gs hs) :
    TypeSizes (toString value.toInt :: sizes)
      (⟨.comma, text⟩ :: ⟨.integer value, text'⟩ :: gs) hs

/-- The name of a type. -/
inductive TypeName : String → List Glyph → List Glyph → Prop
  | plain {word : String} {words : List String} {gs hs is : List Glyph}
      (hWord : TypeWord word gs hs) (hWords : TypeWords words hs is)
      (hFront : front is ≠ .leftParen) :
    TypeName (" ".intercalate (word :: words)) gs is
  | sized {word text text' text'' : String} {words sizes : List String} {value : Int64}
      {gs hs is js : List Glyph}
      (hWord : TypeWord word gs hs)
      (hWords : TypeWords words hs (⟨.leftParen, text⟩ :: ⟨.integer value, text'⟩ :: is))
      (hSizes : TypeSizes sizes is (⟨.rightParen, text''⟩ :: js)) :
    TypeName (" ".intercalate (word :: words) ++ "(" ++
      ", ".intercalate (toString value.toInt :: sizes) ++ ")") gs js

/-- The node of a token that makes up an operand on its own, whatever follows
it. -/
def Dialect.atom? (dialect : Dialect) : TokenKind → Option Node
  | .integer value => some (.constant (.integer value))
  | .float value => some (.constant (.float value))
  | .text value => some (.constant (.text value))
  | .keyword .NULL => some .null
  | .keyword .TRUE => some (.constant (.boolean true))
  | .keyword .FALSE => some (.constant (.boolean false))
  | .question => some .parameter
  | .star => some (.identifier "*" none)
  | .identifier value (some quote) => some (.identifier value (some quote))
  | .userVariable name =>
    if dialect = .mysql then some (.ofForm (.variableName name false)) else none
  | .systemVariable name =>
    if dialect = .mysql then some (.ofForm (.variableName name true)) else none
  | _ => none

/-- The node of a token that makes up a source on its own. -/
def Dialect.table? (dialect : Dialect) : TokenKind → Option Node
  | .identifier value quote => some (.identifier value quote)
  | .userVariable name =>
    if dialect = .mysql then some (.ofForm (.variableName name false)) else none
  | .systemVariable name =>
    if dialect = .mysql then some (.ofForm (.variableName name true)) else none
  | _ => none

/-- The tokens that make up an operand on their own, one by one, and their
nodes. -/
inductive Dialect.Atom (dialect : Dialect) : TokenKind → Node → Prop
  | integer (value : Int64) : Atom dialect (.integer value) (.constant (.integer value))
  | float (value : Number.Binary64) : Atom dialect (.float value) (.constant (.float value))
  | text (value : String) : Atom dialect (.text value) (.constant (.text value))
  | null : Atom dialect (.keyword .NULL) .null
  | truth : Atom dialect (.keyword .TRUE) (.constant (.boolean true))
  | falsehood : Atom dialect (.keyword .FALSE) (.constant (.boolean false))
  | parameter : Atom dialect .question .parameter
  | everything : Atom dialect .star (.identifier "*" none)
  | quoted (value : String) (quote : Char) :
    Atom dialect (.identifier value (some quote)) (.identifier value (some quote))
  | userVariable (name : String) (hDialect : dialect = .mysql) :
    Atom dialect (.userVariable name) (.ofForm (.variableName name false))
  | systemVariable (name : String) (hDialect : dialect = .mysql) :
    Atom dialect (.systemVariable name) (.ofForm (.variableName name true))

theorem Dialect.atom_of_atom? {dialect : Dialect} {kind : TokenKind} {node : Node}
    (hAtom : dialect.atom? kind = some node) : dialect.Atom kind node := by
  cases kind with
  | integer | float | text | question | star =>
    cases hAtom
    constructor
  | keyword word => cases word <;> cases hAtom <;> constructor
  | identifier value quote =>
    cases quote <;> cases hAtom
    constructor
  | userVariable name =>
    cases dialect <;> cases hAtom
    exact .userVariable name rfl
  | systemVariable name =>
    cases dialect <;> cases hAtom
    exact .systemVariable name rfl
  | _ => cases hAtom

/-! ## Constructs -/

/-- What the members of a list with commas are. -/
inductive ItemSort where
  | expression
  /-- An expression with an alias. -/
  | target
  /-- An entry of an ordering. -/
  | entry
deriving DecidableEq, Repr

/-- A part of the language and what it stands for. -/
inductive Construct where
  /-- An operand, with the operators before it. -/
  | operand (node : Node)
  /-- An expression whose operators have a left power of at least `least`. -/
  | expression (least : Nat) (node : Node)
  /-- The operations that turn the expression `left` into `node`. -/
  | extension (least : Nat) (left node : Node)
  /-- One operation with a given left operand, from its operator on. -/
  | operation (left : Node) (operator : OperatorClass) (node : Node)
  /-- Expressions up to a closing parenthesis. -/
  | arguments (items : List Node)
  | item (sort : ItemSort) (node : Node)
  /-- One or more items with commas between them. -/
  | items (sort : ItemSort) (nodes : List Node)
  /-- Items with a comma before each. -/
  | furtherItems (sort : ItemSort) (nodes : List Node)
  /-- A source with its alias. -/
  | source (node : Node)
  /-- The joins that turn the sources `left` into `node`. -/
  | joins (left node : Node)
  /-- A keyword and an expression, or nothing. -/
  | clause (word : Keyword) (node : Option Node)
  /-- A keyword and items, or nothing. -/
  | listClause (word : Keyword) (sort : ItemSort) (nodes : List Node)
  /-- `FROM` and sources, or nothing. -/
  | sourceClause (node : Option Node)
  /-- The rules of a case distinction. -/
  | rules (rules : List (Node × Node))
  /-- A query from its first keyword on. -/
  | select (node : Node)
  /-- A query in any number of pairs of parentheses. -/
  | query (node : Node)

/-- The derivations of a dialect: the construct stands at the front of the
first list of glyphs, and the second list is what follows it. -/
inductive Derives (dialect : Dialect) : Construct → List Glyph → List Glyph → Prop
  -- Operands.
  | atom {kind : TokenKind} {text : String} {node : Node} {gs : List Glyph}
      (hAtom : dialect.atom? kind = some node) :
    Derives dialect (.operand node) (⟨kind, text⟩ :: gs) gs
  | column {value text : String} {gs : List Glyph} (hFront : front gs ≠ .leftParen) :
    Derives dialect (.operand (.identifier value none)) (⟨.identifier value none, text⟩ :: gs) gs
  | call {value text text' : String} {distinct : Bool} {args : List Node}
      {gs hs is : List Glyph}
      (hDistinct : OptionalWord .DISTINCT distinct gs hs)
      (hArgs : Derives dialect (.arguments args) hs is) :
    Derives dialect (.operand (.call value args distinct))
      (⟨.identifier value none, text⟩ :: ⟨.leftParen, text'⟩ :: gs) is
  | unary {kind : TokenKind} {text : String} {operator : OperatorClass} {arg : Node}
      {gs hs : List Glyph}
      (hClass : kind.prefixClass? = some operator)
      (hArg : Derives dialect (.expression 11 arg) gs hs) :
    Derives dialect (.operand (.unary text arg)) (⟨kind, text⟩ :: gs) hs
  | subquery {node : Node} {text text' : String} {gs hs : List Glyph}
      (hFront : front gs = .keyword .SELECT)
      (hSelect : Derives dialect (.select node) gs (⟨.rightParen, text'⟩ :: hs)) :
    Derives dialect (.operand (node.withParentheses true)) (⟨.leftParen, text⟩ :: gs) hs
  | grouped {node : Node} {text text' : String} {gs hs : List Glyph}
      (hFront : front gs ≠ .keyword .SELECT)
      (hInner : Derives dialect (.expression 0 node) gs (⟨.rightParen, text'⟩ :: hs)) :
    Derives dialect (.operand (node.withParentheses true)) (⟨.leftParen, text⟩ :: gs) hs
  | tuple {first : Node} {further : List Node} {text text' : String} {gs hs is : List Glyph}
      (hFront : front gs ≠ .keyword .SELECT)
      (hFirst : Derives dialect (.expression 0 first) gs hs)
      (hComma : front hs = .comma)
      (hFurther : Derives dialect (.furtherItems .expression further) hs
        (⟨.rightParen, text'⟩ :: is)) :
    Derives dialect (.operand (.tuple (first :: further))) (⟨.leftParen, text⟩ :: gs) is
  | typeCast {arg : Node} {name text text' text'' close : String} {gs hs is : List Glyph}
      (hArg : Derives dialect (.expression 0 arg) gs (⟨.keyword .AS, text''⟩ :: hs))
      (hName : TypeName name hs (⟨.rightParen, close⟩ :: is)) :
    Derives dialect (.operand (.ofForm (.typeCast name arg)))
      (⟨.keyword .CAST, text⟩ :: ⟨.leftParen, text'⟩ :: gs) is
  | caseWhen {rules : List (Node × Node)} {default : Option Node} {text text' : String}
      {gs hs is : List Glyph}
      (hFront : front gs = .keyword .WHEN)
      (hRules : Derives dialect (.rules rules) gs hs)
      (hDefault : Derives dialect (.clause .ELSE default) hs (⟨.keyword .END, text'⟩ :: is)) :
    Derives dialect (.operand (.ofForm (.caseWhen rules default)))
      (⟨.keyword .CASE, text⟩ :: gs) is
  -- Rules of a case distinction.
  | rulesDone {gs : List Glyph} (hFront : front gs ≠ .keyword .WHEN) :
    Derives dialect (.rules []) gs gs
  | rulesMore {condition result : Node} {rules : List (Node × Node)} {text text' : String}
      {gs hs is js : List Glyph}
      (hCondition : Derives dialect (.expression 0 condition) gs (⟨.keyword .THEN, text'⟩ :: hs))
      (hResult : Derives dialect (.expression 0 result) hs is)
      (hRules : Derives dialect (.rules rules) is js) :
    Derives dialect (.rules ((condition, result) :: rules)) (⟨.keyword .WHEN, text⟩ :: gs) js
  -- Expressions.
  | expression {least : Nat} {first node : Node} {gs hs is : List Glyph}
      (hFirst : Derives dialect (.operand first) gs hs)
      (hExtension : Derives dialect (.extension least first node) hs is) :
    Derives dialect (.expression least node) gs is
  | extensionDone {least : Nat} {left : Node} {gs : List Glyph}
      (hStop : ∀ operator ∈ Glyph.operator? gs, 2 * operator.rank + 1 < least) :
    Derives dialect (.extension least left left) gs gs
  | extensionMore {least : Nat} {left middle node : Node} {operator : OperatorClass}
      {gs hs is : List Glyph}
      (hClass : Glyph.operator? gs = some operator)
      (hLeast : least ≤ 2 * operator.rank + 1)
      (hOperation : Derives dialect (.operation left operator middle) gs hs)
      (hExtension : Derives dialect (.extension least middle node) hs is) :
    Derives dialect (.extension least left node) gs is
  -- Operations.
  | binary {left right : Node} {operator : OperatorClass} {kind : TokenKind} {text : String}
      {gs hs : List Glyph}
      (hSimple : operator.isSimple = true)
      (hClass : kind.infixClass? .finish = some operator)
      (hRight : Derives dialect (.expression (2 * operator.rank + 2) right) gs hs) :
    Derives dialect (.operation left operator (.binary text left right)) (⟨kind, text⟩ :: gs) hs
  | identity {left right : Node} {negated : Bool} {text : String} {gs hs is : List Glyph}
      (hNegated : OptionalWord .NOT negated gs hs)
      (hRight : Derives dialect (.expression 6 right) hs is) :
    Derives dialect
      (.operation left .identity (.binary (if negated then "is not" else "is") left right))
      (⟨.keyword .IS, text⟩ :: gs) is
  | likeness {left right : Node} {negated : Bool} {op : String} {gs hs is : List Glyph}
      (hWord : NegatableWord .LIKE negated op gs hs)
      (hRight : Derives dialect (.expression 6 right) hs is) :
    Derives dialect (.operation left .likeness (.binary op left right)) gs is
  | membershipList {left : Node} {items : List Node} {negated : Bool} {op text : String}
      {gs hs is : List Glyph}
      (hWord : NegatableWord .IN negated op gs (⟨.leftParen, text⟩ :: hs))
      (hFront : front hs ≠ .keyword .SELECT)
      (hItems : Derives dialect (.arguments items) hs is) :
    Derives dialect (.operation left .membership (.binary op left (.tuple items))) gs is
  | membership {left right : Node} {negated : Bool} {op : String} {gs hs is : List Glyph}
      (hWord : NegatableWord .IN negated op gs hs)
      (hFront : front hs = .leftParen → front hs.tail = .keyword .SELECT)
      (hRight : Derives dialect (.expression 6 right) hs is) :
    Derives dialect (.operation left .membership (.binary op left right)) gs is
  | range {left low high : Node} {negated : Bool} {op text : String} {gs hs is js : List Glyph}
      (hWord : NegatableWord .BETWEEN negated op gs hs)
      (hLow : Derives dialect (.expression 6 low) hs (⟨.keyword .AND, text⟩ :: is))
      (hHigh : Derives dialect (.expression 6 high) is js) :
    Derives dialect (.operation left .range (.between left low high negated)) gs js
  -- Lists.
  | argumentsNone {text : String} {gs : List Glyph} :
    Derives dialect (.arguments []) (⟨.rightParen, text⟩ :: gs) gs
  | argumentsSome {nodes : List Node} {text : String} {gs hs : List Glyph}
      (hFront : front gs ≠ .rightParen)
      (hItems : Derives dialect (.items .expression nodes) gs (⟨.rightParen, text⟩ :: hs)) :
    Derives dialect (.arguments nodes) gs hs
  | items {sort : ItemSort} {first : Node} {further : List Node} {gs hs is : List Glyph}
      (hFirst : Derives dialect (.item sort first) gs hs)
      (hFurther : Derives dialect (.furtherItems sort further) hs is) :
    Derives dialect (.items sort (first :: further)) gs is
  | furtherDone {sort : ItemSort} {gs : List Glyph} (hFront : front gs ≠ .comma) :
    Derives dialect (.furtherItems sort []) gs gs
  | furtherMore {sort : ItemSort} {node : Node} {nodes : List Node} {text : String}
      {gs hs is : List Glyph}
      (hItem : Derives dialect (.item sort node) gs hs)
      (hFurther : Derives dialect (.furtherItems sort nodes) hs is) :
    Derives dialect (.furtherItems sort (node :: nodes)) (⟨.comma, text⟩ :: gs) is
  | expressionItem {node : Node} {gs hs : List Glyph}
      (hNode : Derives dialect (.expression 0 node) gs hs) :
    Derives dialect (.item .expression node) gs hs
  | target {node aliased : Node} {gs hs is : List Glyph}
      (hNode : Derives dialect (.expression 0 node) gs hs)
      (hAlias : Aliased node aliased hs is) :
    Derives dialect (.item .target aliased) gs is
  | entry {field : Node} {direction : Direction} {nulls : NullPlacement}
      {gs hs is js : List Glyph}
      (hField : Derives dialect (.expression 0 field) gs hs)
      (hDirection : Directed direction hs is)
      (hNulls : Placed nulls is js) :
    Derives dialect (.item .entry (.ofForm (.orderBy field direction nulls))) gs js
  -- Sources.
  | table {kind : TokenKind} {text : String} {node aliased : Node} {gs hs : List Glyph}
      (hTable : dialect.table? kind = some node)
      (hAlias : Aliased node aliased gs hs) :
    Derives dialect (.source aliased) (⟨kind, text⟩ :: gs) hs
  | derivedTable {node aliased : Node} {text text' : String} {gs hs is : List Glyph}
      (hSelect : Derives dialect (.select node) gs (⟨.rightParen, text'⟩ :: hs))
      (hAlias : Aliased (node.withParentheses true) aliased hs is) :
    Derives dialect (.source aliased) (⟨.leftParen, text⟩ :: gs) is
  | joinsDone {left : Node} {gs : List Glyph} (hKind : Grammar.joinKind? (front gs) = none) :
    Derives dialect (.joins left left) gs gs
  | joinsMore {kind : TokenKind} {join : JoinKind} {left right node : Node}
      {condition : Option Node} {text : String} {gs hs is js : List Glyph}
      (hKind : Grammar.joinKind? kind = some join)
      (hRight : Derives dialect (.source right) gs hs)
      (hComma : join = .comma → condition = none ∧ hs = is)
      (hCondition : join ≠ .comma → Derives dialect (.clause .ON condition) hs is)
      (hJoins : Derives dialect (.joins (.ofForm (.join left right join condition)) node) is js) :
    Derives dialect (.joins left node) (⟨kind, text⟩ :: gs) js
  -- Clauses.
  | clauseNone {word : Keyword} {gs : List Glyph} (hFront : front gs ≠ .keyword word) :
    Derives dialect (.clause word none) gs gs
  | clauseSome {word : Keyword} {node : Node} {text : String} {gs hs : List Glyph}
      (hNode : Derives dialect (.expression 0 node) gs hs) :
    Derives dialect (.clause word (some node)) (⟨.keyword word, text⟩ :: gs) hs
  | listClauseNone {word : Keyword} {sort : ItemSort} {gs : List Glyph}
      (hFront : front gs ≠ .keyword word) :
    Derives dialect (.listClause word sort []) gs gs
  | listClauseSome {word : Keyword} {sort : ItemSort} {nodes : List Node} {text : String}
      {gs hs : List Glyph}
      (hItems : Derives dialect (.items sort nodes) gs hs) :
    Derives dialect (.listClause word sort nodes) (⟨.keyword word, text⟩ :: gs) hs
  | sourceClauseNone {gs : List Glyph} (hFront : front gs ≠ .keyword .FROM) :
    Derives dialect (.sourceClause none) gs gs
  | sourceClauseSome {first node : Node} {text : String} {gs hs is : List Glyph}
      (hFirst : Derives dialect (.source first) gs hs)
      (hJoins : Derives dialect (.joins first node) hs is) :
    Derives dialect (.sourceClause (some node)) (⟨.keyword .FROM, text⟩ :: gs) is
  -- Queries.
  | select {query : Query Node} {text : String} {g₁ g₂ g₃ g₄ g₅ g₆ g₇ g₈ g₉ g₁₀ : List Glyph}
      (hDistinct : Distinctness query.distinct g₁ g₂)
      (hTargets : Derives dialect (.items .target query.targets) g₂ g₃)
      (hSource : Derives dialect (.sourceClause query.source) g₃ g₄)
      (hCondition : Derives dialect (.clause .WHERE query.condition) g₄ g₅)
      (hGroups : Derives dialect (.listClause .GROUP_BY .expression query.groups) g₅ g₆)
      (hHaving : Derives dialect (.clause .HAVING query.having) g₆ g₇)
      (hOrdering : Derives dialect (.listClause .ORDER_BY .entry query.ordering) g₇ g₈)
      (hLimit : Derives dialect (.clause .LIMIT query.limit) g₈ g₉)
      (hOffset : Derives dialect (.clause .OFFSET query.offset) g₉ g₁₀) :
    Derives dialect (.select (.ofForm (.select query))) (⟨.keyword .SELECT, text⟩ :: g₁) g₁₀
  | bareQuery {node : Node} {gs hs : List Glyph}
      (hFront : front gs ≠ .leftParen)
      (hSelect : Derives dialect (.select node) gs hs) :
    Derives dialect (.query node) gs hs
  | enclosedQuery {node : Node} {text text' : String} {gs hs : List Glyph}
      (hQuery : Derives dialect (.query node) gs (⟨.rightParen, text'⟩ :: hs)) :
    Derives dialect (.query (node.withParentheses true)) (⟨.leftParen, text⟩ :: gs) hs

/-! ## What follows a construct

A construct takes glyphs from the front of a list, so what follows it is a
suffix.  Most constructs take at least one.
-/

namespace Glyph

@[grind →] theorem suffix_of_cons_suffix {glyph : Glyph} {gs hs : List Glyph}
    (hSuffix : glyph :: hs <:+ gs) : hs <:+ gs :=
  (List.suffix_cons glyph hs).trans hSuffix

@[grind ←] theorem suffix_cons_of_suffix {glyph : Glyph} {gs hs : List Glyph}
    (hSuffix : hs <:+ gs) : hs <:+ glyph :: gs :=
  hSuffix.trans (List.suffix_cons glyph gs)

end Glyph

section Suffix

variable {gs hs : List Glyph}

@[grind →] theorem OptionalWord.suffix {word : Keyword} {present : Bool}
    (hWord : OptionalWord word present gs hs) : hs <:+ gs := by
  cases hWord <;> grind

@[grind →] theorem NegatableWord.suffix {word : Keyword} {negated : Bool} {op : String}
    (hWord : NegatableWord word negated op gs hs) : hs <:+ gs := by
  cases hWord <;> grind

@[grind →] theorem NegatableWord.length_lt {word : Keyword} {negated : Bool} {op : String}
    (hWord : NegatableWord word negated op gs hs) : hs.length < gs.length := by
  cases hWord <;> grind

@[grind →] theorem Distinctness.suffix {distinct : Bool} (hDistinct : Distinctness distinct gs hs) :
    hs <:+ gs := by
  cases hDistinct <;> grind

@[grind →] theorem Aliased.suffix {node aliased : Node} (hAlias : Aliased node aliased gs hs) :
    hs <:+ gs := by
  cases hAlias <;> grind

@[grind →] theorem Directed.suffix {direction : Direction} (hDirection : Directed direction gs hs) :
    hs <:+ gs := by
  cases hDirection <;> grind

@[grind →] theorem Placed.suffix {nulls : NullPlacement} (hNulls : Placed nulls gs hs) :
    hs <:+ gs := by
  cases hNulls <;> grind

@[grind →] theorem TypeWord.suffix {word : String} (hWord : TypeWord word gs hs) : hs <:+ gs := by
  cases hWord <;> grind

@[grind →] theorem TypeWords.suffix {words : List String} (hWords : TypeWords words gs hs) :
    hs <:+ gs := by
  induction hWords <;> grind

@[grind →] theorem TypeSizes.suffix {sizes : List String} (hSizes : TypeSizes sizes gs hs) :
    hs <:+ gs := by
  induction hSizes <;> grind

@[grind →] theorem TypeName.suffix {name : String} (hName : TypeName name gs hs) : hs <:+ gs := by
  cases hName <;> grind

variable {dialect : Dialect} {construct : Construct}

/-- What follows a construct is a suffix of what it stands in. -/
@[grind →] theorem Derives.suffix (hDerives : Derives dialect construct gs hs) : hs <:+ gs := by
  induction hDerives <;> grind

/-- What follows the condition of a join, which a comma has not, is a suffix of
what follows its source. -/
theorem suffix_of_joinCondition {join : JoinKind} {condition : Option Node}
    (hComma : join = .comma → condition = none ∧ gs = hs)
    (hCondition : join ≠ .comma → Derives dialect (.clause .ON condition) gs hs) : hs <:+ gs := by
  by_cases hJoin : join = .comma
  · exact (hComma hJoin).2 ▸ List.suffix_refl gs
  · exact (hCondition hJoin).suffix

/-- What holds of the condition of a join that has one holds of any join's. -/
theorem forall_joinCondition {join : JoinKind} {condition : Option Node} {P : Node → Prop}
    (hComma : join = .comma → condition = none ∧ gs = hs)
    (hOther : join ≠ .comma → ∀ node ∈ condition, P node) : ∀ node ∈ condition, P node := by
  by_cases hJoin : join = .comma
  · rw [(hComma hJoin).1]
    exact fun node hNode => absurd hNode (Option.not_mem_none _)
  · exact hOther hJoin

/-- Whether a construct takes at least one glyph. -/
def Construct.isSolid : Construct → Bool
  | .extension .. | .furtherItems .. | .joins .. | .clause .. | .listClause .. | .sourceClause _
  | .rules _ => false
  | _ => true

@[grind →] theorem Glyph.length_le_of_suffix (hSuffix : hs <:+ gs) : hs.length ≤ gs.length :=
  hSuffix.length_le

/-- A construct that takes at least one glyph leaves fewer behind. -/
theorem Derives.length_lt (hDerives : Derives dialect construct gs hs)
    (hSolid : construct.isSolid = true) : hs.length < gs.length := by
  induction hDerives <;> grind [Construct.isSolid]

end Suffix

/-! ## What the nodes of constructs bear -/

/-- Operands, expressions and queries bear no alias; where a construct turns a
node into another, it gives it none. -/
def Construct.Unaliased : Construct → Prop
  | .operand node | .expression _ node | .select node | .query node => node.aliasName = none
  | .extension _ left node | .operation left _ node => left.aliasName = none → node.aliasName = none
  | _ => True

theorem Dialect.aliasName_of_atom? {dialect : Dialect} {kind : TokenKind} {node : Node}
    (hAtom : dialect.atom? kind = some node) :
    node.aliasName = none ∧ node.parentheses = false := by
  cases Dialect.atom_of_atom? hAtom <;> exact ⟨rfl, rfl⟩

theorem Dialect.aliasName_of_table? {dialect : Dialect} {kind : TokenKind} {node : Node}
    (hTable : dialect.table? kind = some node) : node.aliasName = none := by
  unfold Dialect.table? at hTable
  split at hTable <;> (try split at hTable) <;> cases hTable <;> rfl

/-- Only the items of a list and the sources of a query bear an alias. -/
theorem Derives.unaliased {dialect : Dialect} {construct : Construct} {gs hs : List Glyph}
    (hDerives : Derives dialect construct gs hs) : construct.Unaliased := by
  induction hDerives with
  | atom hAtom => exact (Dialect.aliasName_of_atom? hAtom).1
  | subquery _ _ ih | grouped _ _ ih | enclosedQuery _ ih | bareQuery _ _ ih => exact ih
  | expression _ _ ihFirst ihExtension => exact ihExtension ihFirst
  | extensionDone => exact id
  | extensionMore _ _ _ _ ihOperation ihExtension =>
    exact fun hAlias => ihExtension (ihOperation hAlias)
  | _ => first | exact rfl | exact fun _ => rfl | exact trivial

/-- Neither `DISTINCT` nor `ALL` starts a construct of these. -/
def Construct.isItem : Construct → Bool
  | .operand _ | .expression .. | .item .. | .items .. => true
  | _ => false

theorem Derives.front_ne {dialect : Dialect} {construct : Construct} {gs hs : List Glyph}
    (hDerives : Derives dialect construct gs hs) (hItem : construct.isItem = true) :
    front gs ≠ .keyword .DISTINCT ∧ front gs ≠ .keyword .ALL := by
  induction hDerives with
  | @atom kind text node gs hAtom =>
    constructor <;> rintro rfl <;> cases hAtom
  | @unary kind text operator arg gs hs hClass =>
    constructor <;> rintro rfl <;> cases hClass
  | expression _ _ ih | items _ _ ih => exact ih rfl
  | expressionItem _ ih | target _ _ ih | entry _ _ _ ih => exact ih rfl
  | _ => first | (cases hItem; done) | exact ⟨by simp, by simp⟩

/-- The glyphs of a whole statement: a query, and a semicolon if there is
one. -/
def DerivesStatement (dialect : Dialect) (node : Node) (gs : List Glyph) : Prop :=
  Derives dialect (.query node) gs [] ∨
    ∃ text, Derives dialect (.query node) gs [⟨.semicolon, text⟩]

end SqlQuery
