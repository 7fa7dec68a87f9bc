import SqlQuery.Node.Construction
import SqlQuery.Node.Fold

/-!
# Respelling

The texts in a query reach its tree unread: a name, a quoted text or an operator
is copied from the token to the node.  To *respell* a value is to replace each
text in it by another one, leaving everything else as it is; two values that
become equal so differ at most in their texts, and there only in what the
replacement does away with.

## Main definitions

* `HasTexts` — types whose values hold texts; `mapTexts` replaces them.
* `TokenKind.Alike` — kinds of tokens that become equal.

## Main results

* `mapTexts_node` — a tree with its texts replaced, from its parts.
-/

namespace SqlQuery

/-! ## Kinds of tokens -/

namespace TokenKind

/-- The kind with the text that it carries replaced. -/
def mapTexts (f : String → String) : TokenKind → TokenKind
  | .text value => .text (f value)
  | .identifier value quote => .identifier (f value) quote
  | .userVariable name => .userVariable (f name)
  | .systemVariable name => .systemVariable (f name)
  | kind => kind

/-- Kinds that are equal, or of the same sort with texts that `f` makes
equal. -/
inductive Alike (f : String → String) : TokenKind → TokenKind → Prop
  | same (kind : TokenKind) : Alike f kind kind
  | text {a b : String} (hText : f a = f b) : Alike f (.text a) (.text b)
  | identifier {a b : String} (hText : f a = f b) (quote : Option Char) :
    Alike f (.identifier a quote) (.identifier b quote)
  | userVariable {a b : String} (hText : f a = f b) : Alike f (.userVariable a) (.userVariable b)
  | systemVariable {a b : String} (hText : f a = f b) :
    Alike f (.systemVariable a) (.systemVariable b)

variable {f : String → String} {kind kind' : TokenKind}

theorem alike_of_mapTexts_eq (hEq : kind.mapTexts f = kind'.mapTexts f) : kind.Alike f kind' := by
  cases kind <;> cases kind' <;> first
    | exact .same _
    | (injection hEq with hText
       first
         | exact .text hText
         | exact .userVariable hText
         | exact .systemVariable hText
         | (subst hText; exact .same _))
    | (injection hEq with hText hQuote
       subst hQuote
       exact .identifier hText _)
    | cases hEq

theorem Alike.eq_of_id (hAlike : kind.Alike id kind') : kind = kind' := by
  cases hAlike with
  | same => rfl
  | text hText => exact congrArg _ hText
  | identifier hText quote => exact congrArg (TokenKind.identifier · quote) hText
  | userVariable hText => exact congrArg _ hText
  | systemVariable hText => exact congrArg _ hText

end TokenKind

/-! ## Values that hold texts -/

/-- A type whose values hold texts. -/
class HasTexts (α : Type) where
  /-- The value with its texts replaced. -/
  mapTexts : (String → String) → α → α

export HasTexts (mapTexts)

instance : HasTexts String := ⟨fun f text => f text⟩
instance : HasTexts Bool := ⟨fun _ value => value⟩
instance : HasTexts Direction := ⟨fun _ value => value⟩
instance : HasTexts NullPlacement := ⟨fun _ value => value⟩

instance {α : Type} [HasTexts α] : HasTexts (List α) := ⟨fun f items => items.map (mapTexts f)⟩
instance {α : Type} [HasTexts α] : HasTexts (Option α) := ⟨fun f item => item.map (mapTexts f)⟩

instance {α β : Type} [HasTexts α] [HasTexts β] : HasTexts (α × β) :=
  ⟨fun f pair => (mapTexts f pair.1, mapTexts f pair.2)⟩

instance : HasTexts Value where
  mapTexts f
    | .text value => .text (f value)
    | value => value

/-- The form with its own texts replaced, but not those of its parts. -/
def Form.mapOwnTexts {α : Type} (f : String → String) : Form α → Form α
  | .identifier value wrap => .identifier (f value) wrap
  | .constant value => .constant (mapTexts f value)
  | .variableName name system => .variableName (f name) system
  | .operation op args => .operation (f op) args
  | .binary op left right => .binary (f op) left right
  | .unary op arg => .unary (f op) arg
  | .call name args distinct => .call (f name) args distinct
  | .typeCast typeName arg => .typeCast (f typeName) arg
  | form => form

instance : HasTexts Node where
  mapTexts f := Node.fold fun form aliasName parentheses =>
    ⟨form.mapOwnTexts f, mapTexts f aliasName, parentheses⟩

instance {α : Type} [HasTexts α] : HasTexts (Query α) := ⟨fun f query => query.map (mapTexts f)⟩

instance {α : Type} [HasTexts α] : HasTexts (Form α) :=
  ⟨fun f form => (form.map (mapTexts f)).mapOwnTexts f⟩

section Equations

variable {α β : Type} [HasTexts α] [HasTexts β] (f : String → String)

@[simp] theorem mapTexts_nil : mapTexts f ([] : List α) = [] := rfl

@[simp] theorem mapTexts_cons (item : α) (items : List α) :
    mapTexts f (item :: items) = mapTexts f item :: mapTexts f items := rfl

@[simp] theorem mapTexts_none : mapTexts f (none : Option α) = none := rfl

@[simp] theorem mapTexts_some (item : α) : mapTexts f (some item) = some (mapTexts f item) := rfl

@[simp] theorem mapTexts_pair (a : α) (b : β) :
    mapTexts f (a, b) = (mapTexts f a, mapTexts f b) := rfl

theorem mapTexts_node (form : Form Node) (aliasName : Option String) (parentheses : Bool) :
    mapTexts f (⟨form, aliasName, parentheses⟩ : Node) =
      ⟨mapTexts f form, mapTexts f aliasName, parentheses⟩ := by
  show Node.fold _ _ = _
  rw [Node.fold_mk]
  rfl

@[simp] theorem mapTexts_ofForm (form : Form Node) :
    mapTexts f (Node.ofForm form) = .ofForm (mapTexts f form) :=
  mapTexts_node f form none false

@[simp] theorem mapTexts_withAlias (aliasName : String) (node : Node) :
    mapTexts f (node.withAlias aliasName) = (mapTexts f node).withAlias (mapTexts f aliasName) := by
  obtain ⟨form, other, parentheses⟩ := node
  rw [Node.withAlias, mapTexts_node, mapTexts_node]
  rfl

@[simp] theorem mapTexts_withParentheses (parentheses : Bool) (node : Node) :
    mapTexts f (node.withParentheses parentheses) =
      (mapTexts f node).withParentheses parentheses := by
  obtain ⟨form, aliasName, other⟩ := node
  rw [Node.withParentheses, mapTexts_node, mapTexts_node]
  rfl

@[simp] theorem mapTexts_identifier (value : String) (wrap : Option Char) :
    mapTexts f (Node.identifier value wrap) = .identifier (f value) wrap :=
  mapTexts_ofForm f _

@[simp] theorem mapTexts_text (value : String) :
    mapTexts f (Node.constant (.text value)) = .constant (.text (f value)) :=
  mapTexts_ofForm f _

@[simp] theorem mapTexts_binary (op : String) (left right : Node) :
    mapTexts f (Node.binary op left right) = .binary (f op) (mapTexts f left) (mapTexts f right) :=
  mapTexts_ofForm f _

@[simp] theorem mapTexts_unary (op : String) (arg : Node) :
    mapTexts f (Node.unary op arg) = .unary (f op) (mapTexts f arg) :=
  mapTexts_ofForm f _

@[simp] theorem mapTexts_call (name : String) (args : List Node) (distinct : Bool) :
    mapTexts f (Node.call name args distinct) = .call (f name) (mapTexts f args) distinct :=
  mapTexts_ofForm f _

@[simp] theorem mapTexts_between (subject low high : Node) (negated : Bool) :
    mapTexts f (Node.between subject low high negated) =
      .between (mapTexts f subject) (mapTexts f low) (mapTexts f high) negated :=
  mapTexts_ofForm f _

@[simp] theorem mapTexts_tuple (items : List Node) :
    mapTexts f (Node.tuple items) = .tuple (mapTexts f items) :=
  mapTexts_ofForm f _

end Equations

/-! ## Nothing replaced -/

theorem Form.mapOwnTexts_id {α : Type} (form : Form α) : form.mapOwnTexts id = form := by
  cases form with
  | constant value => cases value <;> rfl
  | _ => rfl

/-- A tree whose texts are replaced by themselves stays as it is. -/
theorem mapTexts_id (node : Node) : mapTexts id node = node := by
  induction node using Node.induction with
  | step form aliasName parentheses ih =>
    have hForm : mapTexts id form = form := by
      calc (form.map (mapTexts id)).mapOwnTexts id
          = form.map (mapTexts id) := Form.mapOwnTexts_id _
        _ = form.map fun part => part := Form.map_congr ih
        _ = form := Form.map_id form
    have hAlias : mapTexts id aliasName = aliasName := by cases aliasName <;> rfl
    rw [mapTexts_node, hForm, hAlias]

theorem eq_of_mapTexts_id {node node' : Node} (hEq : mapTexts id node = mapTexts id node') :
    node = node' := by
  rwa [mapTexts_id, mapTexts_id] at hEq

end SqlQuery
