import Mathlib.Data.List.Basic
import Mathlib.Data.List.Chain
import SqlQuery.Node.Render
import SqlQuery.Proofs.Lexemes

/-!
# The text of a tree, piece by piece

The text of a node is a row of pieces: spaces and marks, keywords, what the
node holds itself, such as a name or an operator, and the texts of its parts.
This gives every node inside a tree its place in the text of the tree, whatever
else of that text happens to read the same.

Between two pieces that are made of words there is always a space or a mark, so
that no word of the text runs from one piece into the next.

## Main definitions

* `Piece`, `Form.pieces`, `Node.pieces` — the pieces of a text.
* `Node.Stands` — a node at its place in the text of a tree.

## Main results

* `Node.toList_render` — the text of a node is that of its pieces.
* `Node.spaced_pieces` — words are held apart.
-/

namespace SqlQuery

/-- A piece of the text of a node with parts of type `α`. -/
inductive Piece (α : Type) where
  | space
  | comma
  | opening
  | closing
  | keyword (word : Keyword)
  /-- A name, a literal or an operator that the node holds. -/
  | own (text : String)
  | part (inner : α)

namespace Piece

variable {α : Type}

/-- The characters of a piece, given the texts of the parts. -/
def chars (render : α → String) : Piece α → List Char
  | .space => [' ']
  | .comma => [',']
  | .opening => ['(']
  | .closing => [')']
  | .keyword word => word.spelling.toList
  | .own text => text.toList
  | .part inner => (render inner).toList

/-- The characters of a row of pieces. -/
def text (render : α → String) (pieces : List (Piece α)) : List Char :=
  pieces.flatMap (chars render)

@[simp] theorem text_nil (render : α → String) : text render [] = [] := rfl

@[simp] theorem text_cons (render : α → String) (piece : Piece α) (pieces : List (Piece α)) :
    text render (piece :: pieces) = piece.chars render ++ text render pieces :=
  List.flatMap_cons

@[simp] theorem text_append (render : α → String) (left right : List (Piece α)) :
    text render (left ++ right) = text render left ++ text render right :=
  List.flatMap_append

/-- Whether a piece is a space or a mark, which no word runs into. -/
def isLoose : Piece α → Bool
  | .space | .comma | .opening | .closing => true
  | _ => false

/-! ## Rows of pieces -/

/-- Parts with a separator between them. -/
def separated (separator : List (Piece α)) : List α → List (Piece α)
  | [] => []
  | first :: further => .part first :: further.flatMap fun item => separator ++ [.part item]

/-- Parts with a comma and a space between them. -/
def list (items : List α) : List (Piece α) := separated [.comma, .space] items

/-- A keyword and a list, unless the list is empty. -/
def clause (word : Keyword) (items : List α) : List (Piece α) :=
  if items.isEmpty then [] else .space :: .keyword word :: .space :: list items

/-- A keyword after a space, if one is given. -/
def suffix (word : Option Keyword) : List (Piece α) :=
  word.toList.flatMap fun word => [.space, .keyword word]

end Piece

/-! ## The pieces of a node -/

/-- The keyword of a join; a comma stands for none. -/
def JoinKind.keyword? : JoinKind → Option Keyword
  | .plain => some .JOIN
  | .inner => some .INNER_JOIN
  | .left => some .LEFT_JOIN
  | .right => some .RIGHT_JOIN
  | .full => some .FULL_JOIN
  | .cross => some .CROSS_JOIN
  | .comma => none

def Direction.keyword? : Direction → Option Keyword
  | .unspecified => none
  | .ascending => some .ASC
  | .descending => some .DESC

def NullPlacement.keyword? : NullPlacement → Option Keyword
  | .unspecified => none
  | .first => some .NULLS_FIRST
  | .last => some .NULLS_LAST

open Piece (list clause separated suffix)

variable {α : Type}

/-- The pieces between two sources. -/
def JoinKind.pieces (kind : JoinKind) : List (Piece α) :=
  match kind.keyword? with
  | some word => [.space, .keyword word, .space]
  | none => [.comma, .space]

/-- The keyword `DISTINCT` before a list, if it is there. -/
def distinctPieces (distinct : Bool) : List (Piece α) :=
  if distinct then [.keyword .DISTINCT, .space] else []

/-- The pieces of a query. -/
def Query.pieces (q : Query α) : List (Piece α) :=
  [.keyword .SELECT, .space] ++ (distinctPieces q.distinct ++ (list q.targets ++
    (clause .FROM q.source.toList ++ (clause .WHERE q.condition.toList ++
      (clause .GROUP_BY q.groups ++ (clause .HAVING q.having.toList ++
        (clause .ORDER_BY q.ordering ++ (clause .LIMIT q.limit.toList ++
          clause .OFFSET q.offset.toList))))))))

/-- The pieces of a form. -/
def Form.pieces : Form α → List (Piece α)
  | .identifier value wrap => [.own (enclose value wrap)]
  | .constant value => [.own value.render]
  | .nullConstant => [.keyword .NULL]
  | .variableName name system => [.own ((if system then "@@" else "@") ++ name)]
  | .parameter => [.own "?"]
  | .operation op args => [.own op, .opening] ++ (separated [.comma] args ++ [.closing])
  | .binary op left right => [.part left, .space, .own op, .space, .part right]
  | .unary op arg => [.own op, .space, .part arg]
  | .call name args distinct =>
    [.own name, .opening] ++ (distinctPieces distinct ++ (list args ++ [.closing]))
  | .between subject low high negated =>
    [.part subject, .space] ++ ((if negated then [.keyword .NOT, .space] else []) ++
      [.keyword .BETWEEN, .space, .part low, .space, .keyword .AND, .space, .part high])
  | .tuple items => [.opening] ++ (list items ++ [.closing])
  | .select query => query.pieces
  | .join left right kind condition =>
    (.part left :: (kind.pieces ++ [.part right])) ++ clause .ON condition.toList
  | .orderBy field direction nulls =>
    [.part field] ++ (suffix direction.keyword? ++ suffix nulls.keyword?)
  | .typeCast typeName arg =>
    [.keyword .CAST, .opening, .part arg, .space, .keyword .AS, .space, .own typeName, .closing]
  | .caseWhen rules default =>
    [.keyword .CASE] ++ (rules.flatMap (fun rule => [.space, .keyword .WHEN, .space, .part rule.1,
      .space, .keyword .THEN, .space, .part rule.2]) ++
        (clause .ELSE default.toList ++ [.space, .keyword .END]))

namespace Node

/-- The pieces of a node without its alias. -/
def corePieces (node : Node) : List (Piece Node) :=
  if node.parentheses then [.opening] ++ (node.form.pieces ++ [.closing]) else node.form.pieces

/-- The pieces of an alias. -/
def aliasPieces (aliasName : Option String) : List (Piece Node) :=
  aliasName.toList.flatMap fun name => [.space, .keyword .AS, .space, .own (renderAlias name)]

/-- The pieces of a node. -/
def pieces (node : Node) : List (Piece Node) :=
  node.corePieces ++ aliasPieces node.aliasName

/-- The node `inner` stands inside a tree, between the characters `before` and
`after` of the tree's text. -/
inductive Stands (inner : Node) : List Char → Node → List Char → Prop
  | self : Stands inner [] inner []
  | part {node part : Node} {left right : List (Piece Node)} {before after : List Char}
      (hPieces : node.pieces = left ++ .part part :: right)
      (hStands : Stands inner before part after) :
    Stands inner (Piece.text render left ++ before) node (after ++ Piece.text render right)

/-- The text of a node up to its alias. -/
def coreText (node : Node) : List Char := Piece.text render node.corePieces

end Node

/-! ## The text of the pieces -/

namespace Piece

variable (render : α → String)

theorem text_list (items : List α) :
    text render (list items) = (renderList (items.map render)).toList := by
  cases items with
  | nil => rfl
  | cons first further =>
    rw [renderList, List.map_cons, Text.toList_intercalate_cons, list, separated, text_cons, text,
      List.flatMap_assoc, List.flatMap_map]
    simp [chars]

theorem text_separated (items : List α) :
    text render (separated [.comma] items) = (",".intercalate (items.map render)).toList := by
  cases items with
  | nil => rfl
  | cons first further =>
    rw [List.map_cons, Text.toList_intercalate_cons, separated, text_cons, text,
      List.flatMap_assoc, List.flatMap_map]
    simp [chars]

theorem text_clause (word : Keyword) (items : List α) :
    text render (clause word items) =
      (renderClause word.spelling (renderList? (items.map render))).toList := by
  cases items with
  | nil => rfl
  | cons first further =>
    have hBody : renderList? ((first :: further).map render) =
        some (renderList ((first :: further).map render)) := rfl
    have hClause : clause word (first :: further) =
        .space :: .keyword word :: .space :: list (first :: further) := rfl
    rw [hBody, hClause, text_cons, text_cons, text_cons, text_list, renderClause]
    simp [chars]

theorem renderList?_toList (item : Option α) :
    renderList? (item.toList.map render) = item.map render := by
  cases item with
  | none => rfl
  | some item => simp [renderList?, renderList]

theorem text_suffix (word : Option Keyword) :
    text render (suffix word) = (renderSuffix ((word.map Keyword.spelling).getD "")).toList := by
  cases word with
  | none => rfl
  | some word => cases word <;> rfl

theorem text_distinctPieces (distinct : Bool) :
    text render (distinctPieces distinct) = (if distinct then "DISTINCT " else "").toList := by
  cases distinct <;> rfl

theorem text_joinPieces (kind : JoinKind) :
    text render kind.pieces =
      (if kind == .comma then ", " else " " ++ kind.spelling ++ " ").toList := by
  cases kind <;> rfl

end Piece

open Piece in
/-- The text of a query is that of its pieces. -/
theorem Query.toList_renderParts (render : α → String) (query : Query α) :
    (query.map render).renderParts.toList = Piece.text render query.pieces := by
  simp only [pieces, text_append, text_list, text_clause, renderList?_toList, text_distinctPieces]
  delta Query.renderParts
  simp [Query.map, chars, Keyword.spelling, Keyword.words, String.intercalate_cons_cons]
  rfl

open Piece in
/-- The text of a form is that of its pieces. -/
theorem Form.toList_renderParts (render : α → String) (form : Form α) :
    (form.map render).renderParts.toList = Piece.text render form.pieces := by
  cases form with
  | select query => exact query.toList_renderParts render
  | orderBy field direction nulls =>
    have hDirection : direction.spelling = (direction.keyword?.map Keyword.spelling).getD "" := by
      cases direction <;> rfl
    have hNulls : nulls.spelling = (nulls.keyword?.map Keyword.spelling).getD "" := by
      cases nulls <;> rfl
    simp [Form.map, renderParts, pieces, text_suffix, hDirection, hNulls, chars]
  | caseWhen rules default =>
    simp only [pieces, text_append, text_clause, renderList?_toList, Form.map, renderParts]
    simp [chars, Keyword.spelling, Keyword.words, text, List.flatMap_assoc, List.flatMap_map]
  | between subject low high negated =>
    cases negated <;> simp [Form.map, renderParts, pieces, chars, Keyword.spelling, Keyword.words]
  | _ =>
    simp [Form.map, renderParts, pieces, text_list, text_separated, text_clause, renderList?_toList,
      text_joinPieces, text_distinctPieces, chars, Keyword.spelling, Keyword.words]

namespace Node

variable {inner node : Node} {before after : List Char}

theorem toList_coreText_aux (node : Node) :
    node.coreText =
      (if node.parentheses then "(" ++ node.renderForm ++ ")" else node.renderForm).toList := by
  rw [coreText, corePieces]
  cases node.parentheses <;> simp [renderForm, Form.toList_renderParts, Piece.chars]

/-- The text of a node is that of its pieces. -/
theorem toList_render (node : Node) : node.render.toList = Piece.text render node.pieces := by
  rw [render_eq_decorate, decorate, String.toList_append, ← toList_coreText_aux, pieces,
    Piece.text_append, coreText]
  cases node.aliasName <;>
    simp [aliasPieces, renderClause, Piece.chars, Keyword.spelling, Keyword.words]

/-- The text of a node that bears an alias. -/
theorem toList_render_of_aliasName {name : String} (hAlias : node.aliasName = some name) :
    node.render.toList = node.coreText ++ ' ' :: (Keyword.AS.spelling.toList ++
      ' ' :: (renderAlias name).toList) := by
  rw [toList_render, pieces, Piece.text_append, coreText, hAlias]
  simp [aliasPieces, Piece.chars]

/-- The text of a tree is what stands before a node, the node's text and what
stands after it. -/
theorem Stands.toList_render (hStands : inner.Stands before node after) :
    node.render.toList = before ++ (inner.render.toList ++ after) := by
  induction hStands with
  | self => simp
  | part hPieces _ ih =>
    rw [Node.toList_render, hPieces, Piece.text_append, Piece.text_cons, Piece.chars, ih]
    simp

end Node

/-! ## Words are held apart -/

namespace Piece

/-- Of two neighbouring pieces at least one is a space or a mark. -/
def Spaced (pieces : List (Piece α)) : Prop :=
  pieces.IsChain fun a b => a.isLoose = true ∨ b.isLoose = true

/-- A row that may follow any other: it starts with a space or a mark, or it is
empty. -/
structure Trails (pieces : List (Piece α)) : Prop where
  spaced : Spaced pieces
  head : ∀ piece ∈ pieces.head?, piece.isLoose = true

variable {left right : List (Piece α)}

theorem Spaced.append (hLeft : Spaced left) (hRight : Trails right) : Spaced (left ++ right) :=
  List.isChain_append.2
    ⟨hLeft, hRight.spaced, fun _ _ piece hPiece => Or.inr (hRight.head piece hPiece)⟩

/-- Whatever is spaced may follow a row that ends with a space or a mark. -/
theorem Spaced.append_left (hLeft : Spaced left) (hRight : Spaced right)
    (hLast : ∀ piece ∈ left.getLast?, piece.isLoose = true) : Spaced (left ++ right) :=
  List.isChain_append.2 ⟨hLeft, hRight, fun piece hPiece _ _ => Or.inl (hLast piece hPiece)⟩

theorem Trails.append (hLeft : Trails left) (hRight : Trails right) : Trails (left ++ right) := by
  refine ⟨hLeft.spaced.append hRight, fun piece hPiece => ?_⟩
  cases left with
  | nil => exact hRight.head piece hPiece
  | cons first rest => exact hLeft.head piece hPiece

theorem trails_nil : Trails ([] : List (Piece α)) := ⟨List.isChain_nil, by simp⟩

theorem trails_flatMap {β : Type} {f : β → List (Piece α)} (hRow : ∀ x, Trails (f x))
    (xs : List β) : Trails (xs.flatMap f) := by
  induction xs with
  | nil => exact trails_nil
  | cons x xs ih =>
    rw [List.flatMap_cons]
    exact (hRow x).append ih

theorem spaced_separated {separator : List (Piece α)} (items : List α)
    (hRow : ∀ item, Trails (separator ++ [.part item])) : Spaced (separated separator items) := by
  cases items with
  | nil => exact trails_nil.spaced
  | cons first further =>
    have hFirst : Spaced [Piece.part first] := List.isChain_singleton _
    exact hFirst.append (trails_flatMap hRow further)

theorem spaced_list (items : List α) : Spaced (list items) :=
  spaced_separated items fun item => ⟨by simp [Spaced, isLoose], by simp [isLoose]⟩

theorem trails_clause (word : Keyword) (items : List α) : Trails (clause word items) := by
  rw [clause]
  split
  · exact trails_nil
  · have hWord : Spaced ([.space, .keyword word, .space] : List (Piece α)) := by
      simp [Spaced, isLoose]
    exact ⟨hWord.append_left (spaced_list items) (by simp [isLoose]), by simp [isLoose]⟩

theorem trails_suffix (word : Option Keyword) : Trails (suffix word : List (Piece α)) := by
  cases word with
  | none => exact trails_nil
  | some word => exact ⟨by simp [Spaced, suffix, isLoose], by simp [suffix, isLoose]⟩

theorem spaced_distinctPieces (distinct : Bool) :
    Spaced (distinctPieces distinct : List (Piece α)) := by
  cases distinct <;> simp [Spaced, distinctPieces, isLoose]

theorem getLast_distinctPieces (distinct : Bool) :
    ∀ piece ∈ (distinctPieces distinct : List (Piece α)).getLast?, piece.isLoose = true := by
  cases distinct <;> simp [distinctPieces, isLoose]

end Piece

open Piece

theorem Query.spaced_pieces (query : Query α) : Spaced query.pieces := by
  have hClauses := (trails_clause .FROM query.source.toList).append
    ((trails_clause .WHERE query.condition.toList).append
      ((trails_clause .GROUP_BY query.groups).append
        ((trails_clause .HAVING query.having.toList).append
          ((trails_clause .ORDER_BY query.ordering).append
            ((trails_clause .LIMIT query.limit.toList).append
              (trails_clause .OFFSET query.offset.toList))))))
  have hTargets := (spaced_distinctPieces query.distinct).append_left
    ((spaced_list query.targets).append hClauses) (getLast_distinctPieces query.distinct)
  have hSelect : Spaced ([.keyword .SELECT, .space] : List (Piece α)) := by simp [Spaced, isLoose]
  exact hSelect.append_left hTargets (by simp [isLoose])

/-- Of two neighbouring pieces of a form at least one is a space or a mark. -/
theorem Form.spaced_pieces (form : Form α) : Spaced form.pieces := by
  have hClosing : Trails ([.closing] : List (Piece α)) := ⟨by simp [Spaced], by simp [isLoose]⟩
  have hOpen : ∀ text : String, Spaced ([.own text, .opening] : List (Piece α)) := fun text => by
    simp [Spaced, isLoose]
  cases form with
  | operation op args =>
    refine (hOpen op).append_left (Spaced.append ?_ hClosing) (by simp [isLoose])
    exact spaced_separated args fun item => ⟨by simp [Spaced, isLoose], by simp [isLoose]⟩
  | call name args distinct =>
    exact (hOpen name).append_left ((spaced_distinctPieces distinct).append_left
      ((spaced_list args).append hClosing) (getLast_distinctPieces distinct)) (by simp [isLoose])
  | between subject low high negated => cases negated <;> simp [Spaced, pieces, isLoose]
  | tuple items =>
    have hOpening : Spaced ([.opening] : List (Piece α)) := List.isChain_singleton _
    exact hOpening.append_left ((spaced_list items).append hClosing) (by simp [isLoose])
  | select query => exact query.spaced_pieces
  | join left right kind condition =>
    refine Spaced.append ?_ (trails_clause .ON condition.toList)
    cases kind <;> simp [Spaced, JoinKind.pieces, JoinKind.keyword?, isLoose]
  | orderBy field direction nulls =>
    have hField : Spaced [Piece.part field] := List.isChain_singleton _
    exact hField.append ((trails_suffix _).append (trails_suffix _))
  | caseWhen rules default =>
    have hCase : Spaced ([.keyword .CASE] : List (Piece α)) := List.isChain_singleton _
    have hRules := trails_flatMap (f := fun rule : α × α => [.space, .keyword .WHEN, .space,
      .part rule.1, .space, .keyword .THEN, .space, .part rule.2])
      (fun rule => ⟨by simp [Spaced, isLoose], by simp [isLoose]⟩) rules
    exact hCase.append (hRules.append ((trails_clause .ELSE default.toList).append
      ⟨by simp [Spaced, isLoose], by simp [isLoose]⟩))
  | _ => simp [Spaced, pieces, isLoose]

/-- Of two neighbouring pieces of a node at least one is a space or a mark. -/
theorem Node.spaced_pieces (node : Node) : Spaced node.pieces := by
  have hCore : Spaced node.corePieces := by
    rw [corePieces]
    split
    · have hOpening : Spaced ([.opening] : List (Piece Node)) := List.isChain_singleton _
      exact hOpening.append_left
        (node.form.spaced_pieces.append ⟨List.isChain_singleton _, by simp [isLoose]⟩)
        (by simp [isLoose])
    · exact node.form.spaced_pieces
  have hAlias : Trails (aliasPieces node.aliasName) :=
    trails_flatMap (fun name => ⟨by simp [Spaced, isLoose], by simp [isLoose]⟩) _
  exact hCore.append hAlias

end SqlQuery
