import Mathlib.Data.List.Basic
import SqlQuery.Node.Equality
import SqlQuery.Proofs.OperatorText

/-!
# The shape of parsed trees

Not every tree can come from a text.  What a node may be depends on its *role*,
that is, on what it is to the node around it: a join occurs only among the
sources of a query, an entry of an ordering only in an ordering, an alias is
borne only by targets and sources, and a list of fewer than two items occurs
only to the right of `IN`.

This module states these conditions for one node in its role and shows that
they hold at every node of a parsed tree.  A derivation builds a node before
its role is known, so each construct is shown to be regular in one role, and
what its surroundings make of it is a change of role or of decorations.

## Main definitions

* `Role`, `Form.roles` — the parts of a form and what they are to it.
* `Node.Occurs` — a node inside a tree, in its role.
* `Node.Regular` — the conditions on a node in its role.

## Main results

* `Derives.shaped` — derivations give regular nodes.
* `parse_regular` — every node of a parsed tree is regular in its role.
-/

namespace SqlQuery

open Glyph (front AllGenuine)

/-! ## Roles -/

/-- What a node is to the node around it. -/
inductive Role where
  /-- The tree itself, which has no node around it. -/
  | whole
  /-- What a query asks for. -/
  | target
  /-- What a query asks for it from. -/
  | source
  | joinLeft
  | joinRight
  /-- An entry of an ordering. -/
  | entry
  /-- The right operand of an operation with the given operator. -/
  | rightOperand (op : String)
  /-- Any other part. -/
  | other
deriving DecidableEq, Repr

/-- Whether a role is that of a source, joined to others or not. -/
def Role.isSource : Role → Bool
  | .source | .joinLeft | .joinRight => true
  | _ => false

/-- Whether a role is one that expressions have. -/
def Role.isOperand : Role → Bool
  | .target | .rightOperand _ | .other => true
  | _ => false

/-- The parts of a query with their roles. -/
def Query.roles {α : Type} (q : Query α) : List (Role × α) :=
  q.targets.map (Role.target, ·) ++ q.source.toList.map (Role.source, ·) ++
    q.condition.toList.map (Role.other, ·) ++ q.groups.map (Role.other, ·) ++
    q.having.toList.map (Role.other, ·) ++ q.ordering.map (Role.entry, ·) ++
    q.limit.toList.map (Role.other, ·) ++ q.offset.toList.map (Role.other, ·)

/-- The parts of a form with their roles. -/
def Form.roles {α : Type} (form : Form α) : List (Role × α) :=
  match form with
  | .binary op left right => [(.other, left), (.rightOperand op, right)]
  | .select query => query.roles
  | .join left right _ condition =>
    (.joinLeft, left) :: (.joinRight, right) :: condition.toList.map (.other, ·)
  | form => form.parts.map (.other, ·)

namespace Node

/-- A node in its role inside another node, which has a role of its own. -/
inductive Occurs (role : Role) (inner : Node) : Role → Node → Prop
  | self : Occurs role inner role inner
  | part {outerRole partRole : Role} {node part : Node}
      (hPart : (partRole, part) ∈ node.form.roles) (hOccurs : Occurs role inner partRole part) :
    Occurs role inner outerRole node

end Node

/-! ## Regular nodes -/

/-- A text that can be a name: not empty and without backticks. -/
def IsName (name : String) : Prop :=
  name ≠ "" ∧ '\x60' ∉ name.toList

theorem IsName.enclosable {name : String} (hName : IsName name) :
    name.toList ≠ [] ∧ Token.backtick ∉ name.toList :=
  ⟨fun hNil => hName.1 (String.toList_eq_nil_iff.1 hNil), hName.2⟩

/-- Whether an operator's text, in any case, is that of a membership test. -/
def isMembership (op : String) : Bool :=
  Text.sameWord "IN".toList op.toList || Text.sameWord "NOT IN".toList op.toList

/-- The values that a literal can have. -/
def Value.Regular : Value → Prop
  | .null => False
  | .boolean _ => True
  | .integer value => 0 ≤ value.toInt
  | .float value => value.isFinite = true ∧ value.negative = false
  | .text value => ¬('\x22' ∈ value.toList ∧ '\x27' ∈ value.toList)

/-- What a form must be like in a role. -/
def Form.Regular (dialect : Dialect) (role : Role) : Form Node → Prop
  | .identifier value wrap => IsName value ∧ (wrap = none ∨ wrap = some '\x60')
  | .constant value => value.Regular
  | .variableName .. => dialect = .mysql
  | .operation .. => False
  | .tuple items => items.length < 2 → ∃ op, role = .rightOperand op ∧ isMembership op = true
  | .select query => query.targets ≠ []
  | .join _ _ kind condition =>
    (role = .source ∨ role = .joinLeft) ∧ (kind = .comma → condition = none)
  | .orderBy .. => role = .entry
  | .caseWhen rules _ => rules ≠ []
  | _ => True

namespace Node

def isQuery (node : Node) : Bool :=
  node.form matches .select _

def isJoin (node : Node) : Bool :=
  node.form matches .join ..

/-- Whether a node is a name or a variable. -/
def isReference (node : Node) : Bool :=
  node.form matches .identifier .. | .variableName ..

/-- Whether a node is a list of fewer than two items. -/
def isShortList (node : Node) : Bool :=
  node.form matches .tuple [] | .tuple [_]

/-- The conditions on a node in its role. -/
structure Regular (dialect : Dialect) (role : Role) (node : Node) : Prop where
  form : node.form.Regular dialect role
  /-- The tree is a query without an alias. -/
  whole : role = .whole → node.isQuery = true ∧ node.aliasName = none
  /-- Every other query stands in parentheses. -/
  enclosed : role ≠ .whole → node.isQuery = true → node.parentheses = true
  /-- Only targets, and sources other than joins, bear an alias. -/
  aliased : ∀ name ∈ node.aliasName,
    IsName name ∧ (role = .target ∨ role.isSource = true ∧ node.isJoin = false)
  /-- A source is a join, a reference without parentheses, or a query in them. -/
  source : role.isSource = true →
    node.isJoin = true ∨ node.isReference = true ∧ node.parentheses = false ∨
      node.isQuery = true ∧ node.parentheses = true
  /-- An ordering has no entries of another form. -/
  entry : role = .entry → node.isOrdering = true
  /-- Joins, entries of an ordering and short lists bear no decoration. -/
  plain : node.isJoin = true ∨ node.isOrdering = true ∨ node.isShortList = true →
    node.aliasName = none ∧ node.parentheses = false

/-- Every node inside a node is regular, if the node itself has the given role. -/
def Shaped (dialect : Dialect) (role : Role) (node : Node) : Prop :=
  ∀ innerRole inner, Occurs innerRole inner role node → inner.Regular dialect innerRole

variable {dialect : Dialect} {role role' : Role} {node other : Node}

theorem Shaped.regular (hShaped : node.Shaped dialect role) : node.Regular dialect role :=
  hShaped role node .self

/-- The shape of a tree passes from the parts of a node to the node. -/
theorem shaped_of_parts (hNode : node.Regular dialect role)
    (hParts : ∀ part ∈ node.form.roles, part.2.Shaped dialect part.1) :
    node.Shaped dialect role := by
  intro innerRole inner hOccurs
  cases hOccurs with
  | self => exact hNode
  | part hPart hOccurs => exact hParts _ hPart innerRole inner hOccurs

/-- Another role or other decorations matter only at the node itself. -/
theorem Shaped.of_form_eq (hShaped : node.Shaped dialect role) (hForm : other.form = node.form)
    (hOther : node.Regular dialect role → other.Regular dialect role') :
    other.Shaped dialect role' := by
  refine shaped_of_parts (hOther hShaped.regular) fun part hPart => ?_
  intro innerRole inner hOccurs
  exact hShaped innerRole inner (.part (hForm ▸ hPart) hOccurs)

end Node

/-! ## Changes of role -/

/-- A form keeps its conditions in another role, unless it is the role that they
depend on. -/
theorem Form.Regular.of_role {dialect : Dialect} {form : Form Node} {role role' : Role}
    (hForm : form.Regular dialect role) (hOperand : ∀ op, role ≠ .rightOperand op)
    (hEntry : role ≠ .entry)
    (hJoin : role = .source ∨ role = .joinLeft → role' = .source ∨ role' = .joinLeft) :
    form.Regular dialect role' := by
  cases form with
  | tuple items =>
    intro hShort
    obtain ⟨op, hRole, -⟩ := hForm hShort
    exact absurd hRole (hOperand op)
  | join left right kind condition => exact ⟨hJoin hForm.1, hForm.2⟩
  | orderBy field direction nulls => exact absurd hForm hEntry
  | _ => exact hForm

namespace Node

variable {dialect : Dialect} {role role' : Role} {node other : Node}

theorem isShortList_of_form {items : List Node} (hForm : node.form = .tuple items)
    (hLength : 2 ≤ items.length) : node.isShortList = false := by
  rw [isShortList, hForm]
  match items with
  | [] | [_] => simp at hLength
  | _ :: _ :: _ => rfl

/-- Joins, entries of an ordering and short lists are regular in roles of their
own only. -/
theorem Regular.ne_special (hRegular : node.Regular dialect role)
    (hOperand : ∀ op, role ≠ .rightOperand op) (hEntry : role ≠ .entry)
    (hJoin : ¬(role = .source ∨ role = .joinLeft)) :
    node.isJoin = false ∧ node.isOrdering = false ∧ node.isShortList = false := by
  have hForm := hRegular.form
  obtain ⟨form, aliasName, parentheses⟩ := node
  cases form with
  | tuple items =>
    refine ⟨rfl, rfl, isShortList_of_form rfl (Nat.not_lt.1 fun hShort => ?_)⟩
    obtain ⟨op, hRole, -⟩ := hForm hShort
    exact hOperand op hRole
  | join left right kind condition => exact absurd hForm.1 hJoin
  | orderBy field direction nulls => exact absurd hForm hEntry
  | _ => exact ⟨rfl, rfl, rfl⟩

/-- An operand may get parentheses, and an alias where it becomes a target. -/
theorem Shaped.operand (hShaped : node.Shaped dialect .other) (hForm : other.form = node.form)
    (hRole : role.isOperand = true)
    (hParentheses : node.parentheses = true → other.parentheses = true)
    (hAlias : ∀ name ∈ other.aliasName, IsName name ∧ role = .target) :
    other.Shaped dialect role := by
  refine hShaped.of_form_eq hForm fun hRegular => ?_
  obtain ⟨hJoin, hOrdering, hShort⟩ := hRegular.ne_special (by simp) (by simp) (by simp)
  simp only [isJoin, isOrdering, isShortList, ← hForm] at hJoin hOrdering hShort
  exact
    { form := hForm ▸ hRegular.form.of_role (by simp) (by simp) (by simp)
      whole := by rintro rfl; cases hRole
      enclosed := fun _ hQuery => by
        rw [isQuery, hForm] at hQuery
        exact hParentheses (hRegular.enclosed (by simp) hQuery)
      aliased := fun name hName => ⟨(hAlias name hName).1, Or.inl (hAlias name hName).2⟩
      source := by cases role <;> simp_all [Role.isSource, Role.isOperand]
      entry := by rintro rfl; cases hRole
      plain := by simp [isJoin, isOrdering, isShortList, hJoin, hOrdering, hShort] }

/-- A query in parentheses may be an operand or a source. -/
theorem Shaped.query (hShaped : node.Shaped dialect .whole) (hForm : other.form = node.form)
    (hRole : role = .other ∨ role = .joinRight) (hParentheses : other.parentheses = true)
    (hAlias : ∀ name ∈ other.aliasName, IsName name ∧ role = .joinRight) :
    other.Shaped dialect role := by
  refine hShaped.of_form_eq hForm fun hRegular => ?_
  obtain ⟨hQuery, -⟩ := hRegular.whole rfl
  obtain ⟨hJoin, hOrdering, hShort⟩ := hRegular.ne_special (by simp) (by simp) (by simp)
  simp only [isQuery, isJoin, isOrdering, isShortList, ← hForm] at hQuery hJoin hOrdering hShort
  exact
    { form := hForm ▸ hRegular.form.of_role (by simp) (by simp) (by simp)
      whole := by rintro rfl; simp at hRole
      enclosed := fun _ _ => hParentheses
      aliased := fun name hName => by
        obtain ⟨hName, rfl⟩ := hAlias name hName
        exact ⟨hName, Or.inr ⟨rfl, hJoin⟩⟩
      source := fun _ => Or.inr (Or.inr ⟨hQuery, hParentheses⟩)
      entry := by rintro rfl; simp at hRole
      plain := by simp [isJoin, isOrdering, isShortList, hJoin, hOrdering, hShort] }

/-- A source that may stand to the right of a join, or alone, may stand alone or
to the left of a join. -/
theorem Shaped.source (hShaped : node.Shaped dialect role)
    (hRole : role = .joinRight ∨ role = .source) (hRole' : role' = .source ∨ role' = .joinLeft) :
    node.Shaped dialect role' := by
  refine hShaped.of_form_eq rfl fun hRegular => ?_
  have hSource : role.isSource = true := by rcases hRole with rfl | rfl <;> rfl
  have hSource' : role'.isSource = true := by rcases hRole' with rfl | rfl <;> rfl
  exact
    { form := by
        refine hRegular.form.of_role ?_ ?_ fun _ => hRole'
        · rintro op rfl; cases hSource
        · rintro rfl; cases hSource
      whole := by rintro rfl; cases hSource'
      enclosed := fun _ => hRegular.enclosed (by rintro rfl; cases hSource)
      aliased := fun name hName => by
        obtain ⟨hName, rfl | ⟨-, hJoin⟩⟩ := hRegular.aliased name hName
        · cases hSource
        · exact ⟨hName, Or.inr ⟨hSource', hJoin⟩⟩
      source := fun _ => hRegular.source hSource
      entry := by rintro rfl; cases hSource'
      plain := hRegular.plain }

/-- A node without decorations whose form is regular as an operand. -/
theorem shaped_ofForm {form : Form Node} (hForm : form.Regular dialect .other)
    (hQuery : ∀ query, form ≠ .select query)
    (hParts : ∀ part ∈ form.roles, part.2.Shaped dialect part.1) :
    (ofForm form).Shaped dialect .other := by
  refine shaped_of_parts ?_ hParts
  exact
    { form := hForm
      whole := by simp
      enclosed := fun _ hSelect => by
        cases form with
        | select query => exact absurd rfl (hQuery query)
        | _ => cases hSelect
      aliased := by simp [ofForm]
      source := by simp [Role.isSource]
      entry := by simp
      plain := fun _ => ⟨rfl, rfl⟩ }

/-- A node whose parts have no role that matters. -/
theorem shaped_of_operands {form : Form Node} (hForm : form.Regular dialect .other)
    (hRoles : form.roles = form.parts.map (.other, ·))
    (hQuery : ∀ query, form ≠ .select query)
    (hParts : ∀ part ∈ form.parts, part.Shaped dialect .other) :
    (ofForm form).Shaped dialect .other := by
  refine shaped_ofForm hForm hQuery fun part hPart => ?_
  rw [hRoles, List.mem_map] at hPart
  obtain ⟨node, hNode, rfl⟩ := hPart
  exact hParts node hNode

end Node

/-! ## What genuine glyphs stand for -/

theorem Token.BareName.isName {value : String} (hName : Token.BareName value.toList) :
    IsName value := by
  obtain ⟨parts, hText, hBare, -⟩ := hName
  refine ⟨?_, ?_⟩
  · rintro rfl
    exact hText.text_ne_nil rfl
  · rw [← hText.partsValue_eq hBare]
    exact hText.backtick_notMem

/-- The value of a name is not empty and holds no backtick, and the only quote
around it is a backtick. -/
theorem Glyph.Genuine.isName {value text : String} {quote : Option Char}
    (hGenuine : Genuine ⟨.identifier value quote, text⟩) :
    IsName value ∧ (quote = none ∨ quote = some '\x60') := by
  cases quote with
  | none => exact ⟨hGenuine.2.isName, Or.inl rfl⟩
  | some quote =>
    obtain ⟨rfl, hNe, hBacktick⟩ := hGenuine
    refine ⟨⟨?_, hBacktick⟩, Or.inr rfl⟩
    rintro rfl
    exact hNe rfl

/-- The operator of a membership test is spelled like one. -/
theorem isMembership_of_negatableWord {negated : Bool} {op : String} {gs hs : List Glyph}
    (hWord : NegatableWord .IN negated op gs hs) (hGenuine : AllGenuine gs) :
    isMembership op = true := by
  rw [isMembership, Bool.or_eq_true]
  cases hWord with
  | plain => exact Or.inl (hGenuine.head.sameWord rfl)
  | negated =>
    refine Or.inr ?_
    have hNot := hGenuine.head.sameWord (show Keyword.NOT.words = ["NOT"] from rfl)
    have hIn := hGenuine.tail.head.sameWord (show Keyword.IN.words = ["IN"] from rfl)
    rw [show "NOT IN" = "NOT" ++ " " ++ "IN" from rfl]
    simp only [String.toList_append]
    exact Text.sameWord_append (Text.sameWord_append hNot (Text.sameWord_refl _)) hIn

section Tokens

variable {dialect : Dialect} {kind : TokenKind} {text : String} {node : Node}

/-- A token that is an operand stands for a regular node. -/
theorem Dialect.shaped_of_atom? (hAtom : dialect.atom? kind = some node)
    (hGenuine : Glyph.Genuine ⟨kind, text⟩) : node.Shaped dialect .other := by
  cases Dialect.atom_of_atom? hAtom with
  | integer value => exact Node.shaped_of_operands hGenuine rfl (by simp) (by simp [Form.parts])
  | float value => exact Node.shaped_of_operands hGenuine rfl (by simp) (by simp [Form.parts])
  | text value =>
    refine Node.shaped_of_operands ?_ rfl (by simp) (by simp [Form.parts])
    rintro ⟨hDouble, hSingle⟩
    rcases hGenuine with hNot | hNot
    · exact hNot hDouble
    · exact hNot hSingle
  | null | parameter =>
    exact Node.shaped_of_operands trivial rfl (by simp) (by simp [Form.parts])
  | truth | falsehood =>
    exact Node.shaped_of_operands (show True from trivial) rfl (by simp) (by simp [Form.parts])
  | everything =>
    exact Node.shaped_of_operands ⟨⟨by decide, by decide⟩, Or.inl rfl⟩ rfl (by simp)
      (by simp [Form.parts])
  | quoted value quote =>
    exact Node.shaped_of_operands hGenuine.isName rfl (by simp) (by simp [Form.parts])
  | userVariable name hDialect | systemVariable name hDialect =>
    exact Node.shaped_of_operands hDialect rfl (by simp) (by simp [Form.parts])

/-- A reference has no parts, and it is none of the forms that depend on a
role. -/
theorem Node.special_of_isReference (hReference : node.isReference = true) :
    node.form.roles = [] ∧ node.isQuery = false ∧ node.isJoin = false ∧ node.isOrdering = false ∧
      node.isShortList = false := by
  obtain ⟨form, aliasName, parentheses⟩ := node
  cases form with
  | identifier | variableName => exact ⟨rfl, rfl, rfl, rfl, rfl⟩
  | _ => cases hReference

/-- A reference without parentheses is regular as a source. -/
theorem Node.shaped_reference (hForm : node.form.Regular dialect .joinRight)
    (hReference : node.isReference = true) (hParentheses : node.parentheses = false)
    (hAlias : ∀ name ∈ node.aliasName, IsName name) : node.Shaped dialect .joinRight := by
  obtain ⟨hRoles, hQuery, hJoin, hOrdering, hShort⟩ := special_of_isReference hReference
  refine shaped_of_parts ?_ (by simp [hRoles])
  exact
    { form := hForm
      whole := by simp
      enclosed := by simp [hQuery]
      aliased := fun name hName => ⟨hAlias name hName, Or.inr ⟨rfl, hJoin⟩⟩
      source := fun _ => Or.inr (Or.inl ⟨hReference, hParentheses⟩)
      entry := by simp
      plain := by simp [hJoin, hOrdering, hShort] }

/-- A token that is a source stands for a reference. -/
theorem Dialect.reference_of_table? (hTable : dialect.table? kind = some node)
    (hGenuine : Glyph.Genuine ⟨kind, text⟩) :
    node.form.Regular dialect .joinRight ∧ node.isReference = true ∧
      node.parentheses = false := by
  cases kind with
  | identifier value quote =>
    cases hTable
    exact ⟨hGenuine.isName, rfl, rfl⟩
  | userVariable name | systemVariable name =>
    cases dialect <;> cases hTable
    exact ⟨rfl, rfl, rfl⟩
  | _ => cases hTable

end Tokens

section Aliases

variable {dialect : Dialect} {node aliased : Node} {gs hs : List Glyph}

/-- An alias is a name. -/
theorem Aliased.isName (hAlias : Aliased node aliased gs hs) (hGenuine : AllGenuine gs)
    (hNode : node.aliasName = none) : ∀ name ∈ aliased.aliasName, IsName name := by
  cases hAlias with
  | introduced =>
    intro name hName
    cases hName
    exact hGenuine.tail.head.isName.1
  | bare =>
    intro name hName
    cases hName
    exact hGenuine.head.isName.1
  | absent => simp [hNode]

theorem Aliased.form_eq (hAlias : Aliased node aliased gs hs) : aliased.form = node.form := by
  cases hAlias <;> rfl

theorem Aliased.parentheses_eq (hAlias : Aliased node aliased gs hs) :
    aliased.parentheses = node.parentheses := by
  cases hAlias <;> rfl

/-- Neither a whole nor an operand that is no target bears an alias. -/
theorem Node.Regular.aliasName_eq_none {role : Role} (hRegular : node.Regular dialect role)
    (hRole : role = .other ∨ role = .whole) : node.aliasName = none := by
  cases hAlias : node.aliasName with
  | none => rfl
  | some name =>
    obtain ⟨-, hPlace | ⟨hPlace, -⟩⟩ := hRegular.aliased name hAlias
    · rcases hRole with rfl | rfl <;> cases hPlace
    · rcases hRole with rfl | rfl <;> cases hPlace

/-- An expression with its alias is regular as a target. -/
theorem Aliased.shaped_target (hAlias : Aliased node aliased gs hs) (hGenuine : AllGenuine gs)
    (hNode : node.Shaped dialect .other) : aliased.Shaped dialect .target := by
  have hNone := hNode.regular.aliasName_eq_none (Or.inl rfl)
  exact hNode.operand hAlias.form_eq rfl (fun h => by rwa [hAlias.parentheses_eq])
    fun name hName => ⟨hAlias.isName hGenuine hNone name hName, rfl⟩

/-- A table with its alias is regular as a source. -/
theorem Aliased.shaped_table {kind : TokenKind} {text : String}
    (hAlias : Aliased node aliased gs hs) (hGenuine : AllGenuine (⟨kind, text⟩ :: gs))
    (hTable : dialect.table? kind = some node) : aliased.Shaped dialect .joinRight := by
  obtain ⟨hForm, hReference, hParentheses⟩ := Dialect.reference_of_table? hTable hGenuine.head
  refine Node.shaped_reference (hAlias.form_eq ▸ hForm) ?_ (hAlias.parentheses_eq ▸ hParentheses)
    (hAlias.isName hGenuine.tail (Dialect.aliasName_of_table? hTable))
  rwa [Node.isReference, hAlias.form_eq]

end Aliases

/-! ## The shape of derivations -/

/-- The role of the items of a list. -/
def ItemSort.role : ItemSort → Role
  | .expression => .other
  | .target => .target
  | .entry => .entry

/-- What a derivation says about the shape of its nodes. -/
def Construct.Shaped (dialect : Dialect) : Construct → Prop
  | .operand node | .expression _ node => node.Shaped dialect .other
  | .extension _ left node | .operation left _ node =>
    left.Shaped dialect .other → node.Shaped dialect .other
  | .arguments nodes => ∀ node ∈ nodes, node.Shaped dialect .other
  | .item sort node => node.Shaped dialect sort.role
  | .items sort nodes => nodes ≠ [] ∧ ∀ node ∈ nodes, node.Shaped dialect sort.role
  | .furtherItems sort nodes | .listClause _ sort nodes =>
    ∀ node ∈ nodes, node.Shaped dialect sort.role
  | .source node => node.Shaped dialect .joinRight
  | .joins left node => left.Shaped dialect .source → node.Shaped dialect .source
  | .clause _ node => ∀ inner ∈ node, inner.Shaped dialect .other
  | .sourceClause node => ∀ inner ∈ node, inner.Shaped dialect .source
  | .rules list => ∀ rule ∈ list, rule.1.Shaped dialect .other ∧ rule.2.Shaped dialect .other
  | .select node | .query node => node.Shaped dialect .whole

namespace Node

variable {dialect : Dialect}

/-- An operation between two operands. -/
theorem shaped_binary {op : String} {left right : Node} (hLeft : left.Shaped dialect .other)
    (hRight : right.Shaped dialect (.rightOperand op)) :
    (binary op left right).Shaped dialect .other := by
  refine shaped_ofForm trivial (by simp) ?_
  simp only [Form.roles, List.mem_cons, List.not_mem_nil, or_false]
  rintro part (rfl | rfl)
  · exact hLeft
  · exact hRight

/-- An operand is regular to the right of any operator. -/
theorem Shaped.rightOperand {node : Node} (hNode : node.Shaped dialect .other) (op : String) :
    node.Shaped dialect (.rightOperand op) :=
  hNode.operand rfl rfl id fun name hName => by
    rw [hNode.regular.aliasName_eq_none (Or.inl rfl)] at hName
    cases hName

/-- An operand in parentheses is an operand. -/
theorem Shaped.grouped {node : Node} (hNode : node.Shaped dialect .other) :
    (node.withParentheses true).Shaped dialect .other :=
  hNode.operand rfl rfl (fun _ => rfl) fun name hName => by
    rw [withParentheses, hNode.regular.aliasName_eq_none (Or.inl rfl)] at hName
    cases hName

/-- A list is regular to the right of `IN`, however short it is. -/
theorem shaped_membershipList {op : String} {items : List Node} (hOp : isMembership op = true)
    (hItems : ∀ node ∈ items, node.Shaped dialect .other) :
    (tuple items).Shaped dialect (.rightOperand op) := by
  refine shaped_of_parts ?_ ?_
  · exact
      { form := fun _ => ⟨op, rfl, hOp⟩
        whole := by simp
        enclosed := by simp [isQuery, tuple, ofForm]
        aliased := by simp [tuple, ofForm]
        source := by simp [Role.isSource]
        entry := by simp
        plain := fun _ => ⟨rfl, rfl⟩ }
  · simpa [Form.roles, Form.parts, tuple, ofForm] using hItems

/-- A join of sources is a source. -/
theorem shaped_join {left right : Node} {kind : JoinKind} {condition : Option Node}
    (hLeft : left.Shaped dialect .source) (hRight : right.Shaped dialect .joinRight)
    (hCondition : ∀ inner ∈ condition, inner.Shaped dialect .other)
    (hComma : kind = .comma → condition = none) :
    (ofForm (.join left right kind condition)).Shaped dialect .source := by
  refine shaped_of_parts ?_ ?_
  · exact
      { form := ⟨Or.inl rfl, hComma⟩
        whole := by simp
        enclosed := by simp [isQuery, ofForm]
        aliased := by simp [ofForm]
        source := fun _ => Or.inl rfl
        entry := by simp
        plain := fun _ => ⟨rfl, rfl⟩ }
  · simp only [ofForm, Form.roles, List.mem_cons, List.mem_map, Option.mem_toList]
    rintro part (rfl | rfl | ⟨inner, hInner, rfl⟩)
    · exact hLeft.source (Or.inr rfl) (Or.inr rfl)
    · exact hRight
    · exact hCondition inner hInner

/-- An entry of an ordering. -/
theorem shaped_entry {field : Node} {direction : Direction} {nulls : NullPlacement}
    (hField : field.Shaped dialect .other) :
    (ofForm (.orderBy field direction nulls)).Shaped dialect .entry := by
  refine shaped_of_parts ?_ (by simpa [ofForm, Form.roles, Form.parts] using hField)
  exact
    { form := rfl
      whole := by simp
      enclosed := by simp [isQuery, ofForm]
      aliased := by simp [ofForm]
      source := by simp [Role.isSource]
      entry := fun _ => rfl
      plain := fun _ => ⟨rfl, rfl⟩ }

/-- A query whose clauses are regular. -/
theorem shaped_select {query : Query Node} (hTargets : query.targets ≠ [])
    (hParts : ∀ part ∈ query.roles, part.2.Shaped dialect part.1) :
    (ofForm (.select query)).Shaped dialect .whole := by
  refine shaped_of_parts ?_ hParts
  exact
    { form := hTargets
      whole := fun _ => ⟨rfl, rfl⟩
      enclosed := by simp
      aliased := by simp [ofForm]
      source := by simp [Role.isSource]
      entry := by simp
      plain := fun _ => ⟨rfl, rfl⟩ }

end Node

/-- Derivations from genuine glyphs give regular nodes. -/
theorem Derives.shaped {dialect : Dialect} {construct : Construct} {gs hs : List Glyph}
    (hDerives : Derives dialect construct gs hs) (hGenuine : AllGenuine gs) :
    construct.Shaped dialect := by
  induction hDerives with
  | atom hAtom => exact Dialect.shaped_of_atom? hAtom hGenuine.head
  | column =>
    exact Node.shaped_of_operands hGenuine.head.isName rfl (by simp) (by simp [Form.parts])
  | call hDistinct hArgs ih =>
    exact Node.shaped_of_operands trivial rfl (by simp)
      (ih (hGenuine.tail.tail.of_suffix hDistinct.suffix))
  | unary hClass hArg ih =>
    exact Node.shaped_of_operands trivial rfl (by simp)
      (List.forall_mem_singleton.2 (ih hGenuine.tail))
  | subquery hFront hSelect ih =>
    have hQuery := ih hGenuine.tail
    refine hQuery.query rfl (Or.inl rfl) rfl fun name hName => ?_
    rw [Node.withParentheses, hQuery.regular.aliasName_eq_none (Or.inr rfl)] at hName
    cases hName
  | grouped hFront hInner ih => exact (ih hGenuine.tail).grouped
  | @tuple first further _ _ _ _ _ hFront hFirst hComma hFurther ihFirst ihFurther =>
    have hItems := ihFurther (hGenuine.tail.of_derives hFirst)
    -- A comma is at the front, so at least one item follows the first.
    have hMore : further ≠ [] := by
      rintro rfl
      cases hFurther with
      | furtherDone hFront => cases hComma
    refine Node.shaped_of_operands (fun hShort => ?_) rfl (by simp) ?_
    · have := List.length_pos_iff.2 hMore
      simp only [List.length_cons] at hShort
      omega
    · exact List.forall_mem_cons.2 ⟨ihFirst hGenuine.tail, hItems⟩
  | typeCast hArg hName ih =>
    exact Node.shaped_of_operands trivial rfl (by simp)
      (List.forall_mem_singleton.2 (ih hGenuine.tail.tail))
  | caseWhen hFront hRules hDefault ihRules ihDefault =>
    have hRules' := ihRules hGenuine.tail
    have hDefault' := ihDefault (hGenuine.tail.of_derives hRules)
    refine Node.shaped_of_operands ?_ rfl (by simp) ?_
    · rintro rfl
      cases hRules with
      | rulesDone hNone => exact hNone hFront
    · exact Form.forall_mem_parts_caseWhen.2 ⟨hRules', hDefault'⟩
  | rulesDone => exact fun rule hRule => absurd hRule List.not_mem_nil
  | rulesMore hCondition hResult hRules ihCondition ihResult ihRules =>
    have hAfter := hGenuine.tail.of_derives hCondition
    refine List.forall_mem_cons.2 ⟨⟨ihCondition hGenuine.tail, ihResult hAfter.tail⟩, ?_⟩
    exact ihRules (hAfter.tail.of_derives hResult)
  | expression hFirst hExtension ihFirst ihExtension =>
    exact ihExtension (hGenuine.of_derives hFirst) (ihFirst hGenuine)
  | extensionDone => exact id
  | extensionMore hClass hLeast hOperation hExtension ihOperation ihExtension =>
    exact fun hLeft =>
      ihExtension (hGenuine.of_derives hOperation) (ihOperation hGenuine hLeft)
  | binary hSimple hClass hRight ih =>
    exact fun hLeft => Node.shaped_binary hLeft ((ih hGenuine.tail).rightOperand _)
  | identity hNegated hRight ih =>
    have hAfter := hGenuine.tail.of_suffix hNegated.suffix
    exact fun hLeft => Node.shaped_binary hLeft ((ih hAfter).rightOperand _)
  | likeness hWord hRight ih | membership hWord hFront hRight ih =>
    have hAfter := hGenuine.of_suffix hWord.suffix
    exact fun hLeft => Node.shaped_binary hLeft ((ih hAfter).rightOperand _)
  | membershipList hWord hFront hItems ih =>
    have hItems' := ih (hGenuine.of_suffix hWord.suffix).tail
    have hOp := isMembership_of_negatableWord hWord hGenuine
    exact fun hLeft => Node.shaped_binary hLeft (Node.shaped_membershipList hOp hItems')
  | range hWord hLow hHigh ihLow ihHigh =>
    intro hLeft
    have hAfter := hGenuine.of_suffix hWord.suffix
    refine Node.shaped_of_operands trivial rfl (by simp) ?_
    simp only [Form.parts, List.mem_cons, List.not_mem_nil, or_false]
    rintro part (rfl | rfl | rfl)
    · exact hLeft
    · exact ihLow hAfter
    · exact ihHigh (hAfter.of_derives hLow).tail
  | argumentsNone => exact fun node hNode => absurd hNode List.not_mem_nil
  | argumentsSome hFront hItems ih => exact (ih hGenuine).2
  | items hFirst hFurther ihFirst ihFurther =>
    exact ⟨List.cons_ne_nil _ _,
      List.forall_mem_cons.2 ⟨ihFirst hGenuine, ihFurther (hGenuine.of_derives hFirst)⟩⟩
  | furtherDone => exact fun node hNode => absurd hNode List.not_mem_nil
  | furtherMore hItem hFurther ihItem ihFurther =>
    exact List.forall_mem_cons.2 ⟨ihItem hGenuine.tail, ihFurther (hGenuine.tail.of_derives hItem)⟩
  | expressionItem hNode ih => exact ih hGenuine
  | target hNode hAlias ih => exact hAlias.shaped_target (hGenuine.of_derives hNode) (ih hGenuine)
  | entry hField hDirection hNulls ih => exact Node.shaped_entry (ih hGenuine)
  | table hTable hAlias => exact hAlias.shaped_table hGenuine hTable
  | derivedTable hSelect hAlias ih =>
    have hQuery := ih hGenuine.tail
    have hNone := hQuery.regular.aliasName_eq_none (Or.inr rfl)
    have hAfter := (hGenuine.tail.of_derives hSelect).tail
    exact hQuery.query hAlias.form_eq (Or.inr rfl) hAlias.parentheses_eq
      fun name hName => ⟨hAlias.isName hAfter hNone name hName, rfl⟩
  | joinsDone => exact id
  | @joinsMore _ join left right _ condition _ _ _ is _ hKind hRight hComma hCondition hJoins
      ihRight ihCondition ihJoins =>
    intro hLeft
    have hAfter := hGenuine.tail.of_derives hRight
    have hInner := forall_joinCondition hComma fun hJoin => ihCondition hJoin hAfter
    exact ihJoins (hAfter.of_suffix (suffix_of_joinCondition hComma hCondition))
      (Node.shaped_join hLeft (ihRight hGenuine.tail) hInner fun hJoin => (hComma hJoin).1)
  | clauseNone => exact fun inner hInner => absurd hInner (Option.not_mem_none _)
  | clauseSome hNode ih => simpa [Construct.Shaped] using ih hGenuine.tail
  | listClauseNone => exact fun node hNode => absurd hNode List.not_mem_nil
  | listClauseSome hItems ih => exact (ih hGenuine.tail).2
  | sourceClauseNone => exact fun inner hInner => absurd hInner (Option.not_mem_none _)
  | sourceClauseSome hFirst hJoins ihFirst ihJoins =>
    have hSource := (ihFirst hGenuine.tail).source (Or.inl rfl) (Or.inl rfl)
    simpa [Construct.Shaped] using ihJoins (hGenuine.tail.of_derives hFirst) hSource
  | select hDistinct hTargets hSource hCondition hGroups hHaving hOrdering hLimit hOffset
      ihTargets ihSource ihCondition ihGroups ihHaving ihOrdering ihLimit ihOffset =>
    have h₂ := hGenuine.tail.of_suffix hDistinct.suffix
    have h₃ := h₂.of_derives hTargets
    have h₄ := h₃.of_derives hSource
    have h₅ := h₄.of_derives hCondition
    have h₆ := h₅.of_derives hGroups
    have h₇ := h₆.of_derives hHaving
    have h₈ := h₇.of_derives hOrdering
    have h₉ := h₈.of_derives hLimit
    refine Node.shaped_select (ihTargets h₂).1 ?_
    simp only [Query.roles, List.mem_append, List.mem_map, Option.mem_toList]
    rintro part (((((((⟨node, hNode, rfl⟩ | ⟨node, hNode, rfl⟩) | ⟨node, hNode, rfl⟩) |
      ⟨node, hNode, rfl⟩) | ⟨node, hNode, rfl⟩) | ⟨node, hNode, rfl⟩) | ⟨node, hNode, rfl⟩) |
      ⟨node, hNode, rfl⟩)
    · exact (ihTargets h₂).2 node hNode
    · exact ihSource h₃ node hNode
    · exact ihCondition h₄ node hNode
    · exact ihGroups h₅ node hNode
    · exact ihHaving h₆ node hNode
    · exact ihOrdering h₇ node hNode
    · exact ihLimit h₈ node hNode
    · exact ihOffset h₉ node hNode
  | bareQuery hFront hSelect ih => exact ih hGenuine
  | enclosedQuery hQuery ih =>
    refine (ih hGenuine.tail).of_form_eq rfl fun hNode => ?_
    exact
      { form := hNode.form
        whole := hNode.whole
        enclosed := by simp
        aliased := hNode.aliased
        source := by simp [Role.isSource]
        entry := by simp
        plain := by
          obtain ⟨hJoin, hOrdering, hShort⟩ := hNode.ne_special (by simp) (by simp) (by simp)
          simp_all [Node.isJoin, Node.isOrdering, Node.isShortList, Node.withParentheses] }

/-! ## Parsed trees -/

theorem DerivesStatement.shaped {dialect : Dialect} {node : Node} {gs : List Glyph}
    (hDerives : DerivesStatement dialect node gs) (hGenuine : AllGenuine gs) :
    node.Shaped dialect .whole := by
  rcases hDerives with hQuery | ⟨text, hQuery⟩
  · exact hQuery.shaped hGenuine
  · exact hQuery.shaped hGenuine

/--
**The shape of parsed trees**: every node of a parsed tree, the tree itself
included, meets the conditions of its role.
-/
theorem parse_regular {source : String} {dialect : Dialect} {node : Node}
    (hParse : parse source dialect = .ok node) {role : Role} {inner : Node}
    (hOccurs : inner.Occurs role .whole node) : inner.Regular dialect role := by
  obtain ⟨stream, -, hReads, hDerives⟩ := derives_of_parse false hParse (by simp)
  exact hDerives.shaped hReads.genuine role inner hOccurs

/-- A text with a short list, a join, a query among the sources and an
ordering. -/
def layeredText : String :=
  "select a not in (1) x from t, (select b from u) v order by a desc"

/-- The query in parentheses of that text. -/
def layeredSource : Node :=
  ((Node.ofForm (.select
    { targets := [.identifier "b" none], source := some (.identifier "u" none) })).withParentheses
      true).withAlias "v"

/-- The tree of that text. -/
def layeredQuery : Node :=
  .ofForm (.select
    { targets :=
        [(Node.binary "not in" (.identifier "a" none)
          (.tuple [.constant (.integer 1)])).withAlias "x"]
      source := some (.ofForm (.join (.identifier "t" none) layeredSource .comma none))
      ordering := [.ofForm (.orderBy (.identifier "a" none) .descending .unspecified)] })

theorem parse_layeredText : parse layeredText .generic = .ok layeredQuery := by
  decide +kernel

theorem layeredSource_occurs : layeredSource.Occurs .joinRight .whole layeredQuery :=
  .part (List.mem_append_left _ (List.mem_append_left _ (List.mem_append_left _
    (List.mem_append_left _ (List.mem_append_left _ (List.mem_append_left _
      (List.mem_append_right _ List.mem_cons_self)))))))
    (.part (List.mem_cons_of_mem _ List.mem_cons_self) .self)

theorem parse_regular_layeredText : layeredSource.Regular .generic .joinRight :=
  parse_regular parse_layeredText layeredSource_occurs

end SqlQuery
