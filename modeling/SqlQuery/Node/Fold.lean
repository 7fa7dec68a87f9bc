import SqlQuery.Node

/-!
# Computations and proofs over trees

A computation over trees is given by a *step*: what it makes of one node once
the parts of that node have been replaced by their values.  `Node.fold` is the
only recursion over trees in the library; the SQL text, the outline, the
document form and equality are steps.

A proof over trees likewise treats one node at a time and may assume the
property of its parts.

## Main results

* `Node.fold_mk` — the equation of `Node.fold`.
* `Node.induction` — a property of all trees holds if it passes from the parts
  of a node to the node.
-/

namespace SqlQuery

/-- The query with `f` applied to each part. -/
def Query.map {α β : Type} (f : α → β) (q : Query α) : Query β :=
  { distinct := q.distinct
    targets := q.targets.map f
    source := q.source.map f
    condition := q.condition.map f
    groups := q.groups.map f
    having := q.having.map f
    ordering := q.ordering.map f
    limit := q.limit.map f
    offset := q.offset.map f }

namespace Form

/-- The form with `f` applied to each part. -/
def map {α β : Type} (f : α → β) : Form α → Form β
  | .identifier value wrap => .identifier value wrap
  | .constant value => .constant value
  | .nullConstant => .nullConstant
  | .variableName name system => .variableName name system
  | .parameter => .parameter
  | .operation op args => .operation op (args.map f)
  | .binary op left right => .binary op (f left) (f right)
  | .unary op arg => .unary op (f arg)
  | .call name args distinct => .call name (args.map f) distinct
  | .between subject low high negated => .between (f subject) (f low) (f high) negated
  | .tuple items => .tuple (items.map f)
  | .select query => .select (query.map f)
  | .join left right kind condition => .join (f left) (f right) kind (condition.map f)
  | .orderBy field direction nulls => .orderBy (f field) direction nulls
  | .typeCast typeName arg => .typeCast typeName (f arg)
  | .caseWhen rules default =>
    .caseWhen (rules.map fun rule => (f rule.1, f rule.2)) (default.map f)

end Form

section Fold

variable {β : Type} (step : Form β → Option String → Bool → β)

mutual

/-- The value of a tree, from the values of the parts of each node. -/
def Node.fold : Node → β
  | ⟨form, aliasName, parentheses⟩ => step (Form.foldParts form) aliasName parentheses

/-- The form with each part replaced by its value. -/
def Form.foldParts : Form Node → Form β
  | .identifier value wrap => .identifier value wrap
  | .constant value => .constant value
  | .nullConstant => .nullConstant
  | .variableName name system => .variableName name system
  | .parameter => .parameter
  | .operation op args => .operation op (Node.foldAll args)
  | .binary op left right => .binary op (Node.fold left) (Node.fold right)
  | .unary op arg => .unary op (Node.fold arg)
  | .call name args distinct => .call name (Node.foldAll args) distinct
  | .between subject low high negated =>
    .between (Node.fold subject) (Node.fold low) (Node.fold high) negated
  | .tuple items => .tuple (Node.foldAll items)
  | .select query => .select (Query.foldParts query)
  | .join left right kind condition =>
    .join (Node.fold left) (Node.fold right) kind (Node.foldOption condition)
  | .orderBy field direction nulls => .orderBy (Node.fold field) direction nulls
  | .typeCast typeName arg => .typeCast typeName (Node.fold arg)
  | .caseWhen rules default => .caseWhen (Node.foldRules rules) (Node.foldOption default)

/-- The query with each part replaced by its value. -/
def Query.foldParts : Query Node → Query β
  | ⟨distinct, targets, source, condition, groups, having, ordering, limit, offset⟩ =>
    ⟨distinct, Node.foldAll targets, Node.foldOption source, Node.foldOption condition,
      Node.foldAll groups, Node.foldOption having, Node.foldAll ordering, Node.foldOption limit,
      Node.foldOption offset⟩

/-- The values of the trees of a list. -/
def Node.foldAll : List Node → List β
  | [] => []
  | node :: rest => Node.fold node :: Node.foldAll rest

/-- The value of a tree that may be missing. -/
def Node.foldOption : Option Node → Option β
  | none => none
  | some node => some (Node.fold node)

/-- The values of the two trees of a rule. -/
def Node.foldRule : Node × Node → β × β
  | (condition, result) => (Node.fold condition, Node.fold result)

/-- The values of the trees of a list of rules. -/
def Node.foldRules : List (Node × Node) → List (β × β)
  | [] => []
  | rule :: rest => Node.foldRule rule :: Node.foldRules rest

end

@[simp] theorem Node.foldAll_eq (nodes : List Node) :
    Node.foldAll step nodes = nodes.map (Node.fold step) := by
  induction nodes with
  | nil => simp [Node.foldAll]
  | cons node rest ih => simp [Node.foldAll, ih]

@[simp] theorem Node.foldOption_eq (node : Option Node) :
    Node.foldOption step node = node.map (Node.fold step) := by
  cases node <;> simp [Node.foldOption]

@[simp] theorem Node.foldRules_eq (rules : List (Node × Node)) :
    Node.foldRules step rules =
      rules.map fun rule => (Node.fold step rule.1, Node.fold step rule.2) := by
  induction rules with
  | nil => simp [Node.foldRules]
  | cons rule rest ih =>
    obtain ⟨condition, result⟩ := rule
    simp [Node.foldRules, Node.foldRule, ih]

@[simp] theorem Query.foldParts_eq (query : Query Node) :
    Query.foldParts step query = query.map (Node.fold step) := by
  cases query
  simp [Query.foldParts, Query.map]

@[simp] theorem Form.foldParts_eq (form : Form Node) :
    Form.foldParts step form = form.map (Node.fold step) := by
  cases form <;> simp [Form.foldParts, Form.map]

/-- The value of a node comes from the values of its parts. -/
theorem Node.fold_mk (form : Form Node) (aliasName : Option String) (parentheses : Bool) :
    Node.fold step ⟨form, aliasName, parentheses⟩ =
      step (form.map (Node.fold step)) aliasName parentheses := by
  simp [Node.fold]

end Fold

/-! ## Parts -/

/-- The parts of a query, in the order of its clauses. -/
def Query.parts {α : Type} (q : Query α) : List α :=
  q.targets ++ q.source.toList ++ q.condition.toList ++ q.groups ++ q.having.toList ++
    q.ordering ++ q.limit.toList ++ q.offset.toList

/-- The parts of a form, in the order in which they are written. -/
def Form.parts {α : Type} : Form α → List α
  | .identifier .. | .constant _ | .nullConstant | .variableName .. | .parameter => []
  | .operation _ args => args
  | .binary _ left right => [left, right]
  | .unary _ arg => [arg]
  | .call _ args _ => args
  | .between subject low high _ => [subject, low, high]
  | .tuple items => items
  | .select query => query.parts
  | .join left right _ condition => left :: right :: condition.toList
  | .orderBy field _ _ => [field]
  | .typeCast _ arg => [arg]
  | .caseWhen rules default => rules.flatMap (fun rule => [rule.1, rule.2]) ++ default.toList

/-- The parts of a form are replaced where they stand. -/
theorem Form.parts_map {α β : Type} (f : α → β) (form : Form α) :
    (form.map f).parts = form.parts.map f := by
  cases form <;> simp [map, parts, Query.map, Query.parts, Option.toList_map, List.flatMap_map,
    List.map_flatMap]

/-- The parts of a case distinction are the two sides of its rules and its
default. -/
theorem Form.forall_mem_parts_caseWhen {α : Type} {P : α → Prop} {rules : List (α × α)}
    {default : Option α} :
    (∀ part ∈ (Form.caseWhen rules default).parts, P part) ↔
      (∀ rule ∈ rules, P rule.1 ∧ P rule.2) ∧ ∀ part ∈ default, P part := by
  simp only [parts, List.forall_mem_append, List.forall_mem_flatMap, List.forall_mem_cons]
  simp

theorem Form.map_map {α β γ : Type} (F : α → β) (G : β → γ) (form : Form α) :
    (form.map F).map G = form.map fun x => G (F x) := by
  cases form <;> simp [Form.map, Query.map, Function.comp_def]

/-- A form is mapped alike by functions that agree on its parts. -/
theorem Form.map_congr {α β : Type} {F G : α → β} {form : Form α}
    (hParts : ∀ part ∈ form.parts, F part = G part) : form.map F = form.map G := by
  have hList : ∀ {items : List α}, (∀ item ∈ items, F item = G item) →
      items.map F = items.map G := List.map_congr_left
  have hOption : ∀ {item : Option α}, (∀ part ∈ item.toList, F part = G part) →
      item.map F = item.map G := by
    rintro (_ | part) hItem
    · rfl
    · exact congrArg some (hItem part List.mem_cons_self)
  cases form with
  | identifier | constant | nullConstant | variableName | parameter => rfl
  | operation | call | tuple =>
    simp only [parts] at hParts
    simp only [map, hList hParts]
  | binary | unary | between | orderBy | typeCast =>
    simp only [parts, List.mem_cons, List.not_mem_nil, or_false, forall_eq_or_imp,
      forall_eq] at hParts
    simp only [map, hParts]
  | select query =>
    simp only [parts, Query.parts, List.mem_append, or_imp, forall_and] at hParts
    obtain ⟨⟨⟨⟨⟨⟨⟨h₁, h₂⟩, h₃⟩, h₄⟩, h₅⟩, h₆⟩, h₇⟩, h₈⟩ := hParts
    simp only [map, Query.map, hList h₁, hOption h₂, hOption h₃, hList h₄, hOption h₅, hList h₆,
      hOption h₇, hOption h₈]
  | join left right kind condition =>
    simp only [parts, List.mem_cons, forall_eq_or_imp] at hParts
    simp only [map, hParts.1, hParts.2.1, hOption hParts.2.2]
  | caseWhen rules default =>
    simp only [parts, List.mem_append, List.mem_flatMap, or_imp, forall_and] at hParts
    have hRules : rules.map (fun rule => (F rule.1, F rule.2)) =
        rules.map fun rule => (G rule.1, G rule.2) := by
      refine List.map_congr_left fun rule hRule => ?_
      rw [hParts.1 rule.1 ⟨rule, hRule, by simp⟩, hParts.1 rule.2 ⟨rule, hRule, by simp⟩]
    simp only [map, hRules, hOption hParts.2]

theorem Form.map_id {α : Type} (form : Form α) : form.map (fun part => part) = form := by
  cases form <;> simp [Form.map, Query.map]

/-- A part that may be missing is smaller than the option it is in. -/
theorem sizeOf_lt_of_mem_toList {node : Node} {option : Option Node}
    (hMem : node ∈ option.toList) : sizeOf node < sizeOf option := by
  cases option with
  | none => exact absurd hMem List.not_mem_nil
  | some other =>
    have hEq : node = other := List.mem_singleton.1 hMem
    simp only [hEq, Option.some.sizeOf_spec]
    omega

/-- The parts of a query are smaller than the query. -/
theorem Query.sizeOf_lt_of_mem_parts {node : Node} {query : Query Node}
    (hMem : node ∈ query.parts) : sizeOf node < sizeOf query := by
  obtain ⟨distinct, targets, source, condition, groups, having, ordering, limit, offset⟩ := query
  simp only [Query.parts, List.mem_append] at hMem
  simp only [Query.mk.sizeOf_spec]
  rcases hMem with ((((((h | h) | h) | h) | h) | h) | h) | h
  · have := List.sizeOf_lt_of_mem h; omega
  · have := sizeOf_lt_of_mem_toList h; omega
  · have := sizeOf_lt_of_mem_toList h; omega
  · have := List.sizeOf_lt_of_mem h; omega
  · have := sizeOf_lt_of_mem_toList h; omega
  · have := List.sizeOf_lt_of_mem h; omega
  · have := sizeOf_lt_of_mem_toList h; omega
  · have := sizeOf_lt_of_mem_toList h; omega

/-- The parts of a form are smaller than the form. -/
theorem Form.sizeOf_lt_of_mem_parts {node : Node} {form : Form Node}
    (hMem : node ∈ form.parts) : sizeOf node < sizeOf form := by
  cases form with
  | identifier | constant | nullConstant | variableName | parameter =>
    exact absurd hMem List.not_mem_nil
  | operation op args =>
    have := List.sizeOf_lt_of_mem (show node ∈ args from hMem)
    simp only [Form.operation.sizeOf_spec]
    omega
  | call name args distinct =>
    have := List.sizeOf_lt_of_mem (show node ∈ args from hMem)
    simp only [Form.call.sizeOf_spec]
    omega
  | tuple items =>
    have := List.sizeOf_lt_of_mem (show node ∈ items from hMem)
    simp only [Form.tuple.sizeOf_spec]
    omega
  | binary op left right =>
    simp only [Form.parts, List.mem_cons, List.not_mem_nil, or_false] at hMem
    simp only [Form.binary.sizeOf_spec]
    rcases hMem with rfl | rfl <;> omega
  | unary op arg =>
    have hEq : node = arg := List.mem_singleton.1 hMem
    simp only [hEq, Form.unary.sizeOf_spec]
    omega
  | typeCast typeName arg =>
    have hEq : node = arg := List.mem_singleton.1 hMem
    simp only [hEq, Form.typeCast.sizeOf_spec]
    omega
  | orderBy field direction nulls =>
    have hEq : node = field := List.mem_singleton.1 hMem
    simp only [hEq, Form.orderBy.sizeOf_spec]
    omega
  | between subject low high negated =>
    simp only [Form.parts, List.mem_cons, List.not_mem_nil, or_false] at hMem
    simp only [Form.between.sizeOf_spec]
    rcases hMem with rfl | rfl | rfl <;> omega
  | select query =>
    have := Query.sizeOf_lt_of_mem_parts (show node ∈ query.parts from hMem)
    simp only [Form.select.sizeOf_spec]
    omega
  | join left right kind condition =>
    simp only [Form.parts, List.mem_cons] at hMem
    simp only [Form.join.sizeOf_spec]
    rcases hMem with rfl | rfl | h
    · omega
    · omega
    · have := sizeOf_lt_of_mem_toList h; omega
  | caseWhen rules default =>
    simp only [Form.parts, List.mem_append, List.mem_flatMap, List.mem_cons, List.not_mem_nil,
      or_false] at hMem
    simp only [Form.caseWhen.sizeOf_spec]
    rcases hMem with ⟨⟨condition, result⟩, hRule, h⟩ | h
    · have hSize := List.sizeOf_lt_of_mem hRule
      simp only [Prod.mk.sizeOf_spec] at hSize
      rcases h with rfl | rfl <;> omega
    · have := sizeOf_lt_of_mem_toList h; omega

/-- A property of all trees holds if it passes from the parts of a node to the
node. -/
theorem Node.induction {motive : Node → Prop}
    (step : ∀ form aliasName parentheses, (∀ part ∈ form.parts, motive part) →
      motive ⟨form, aliasName, parentheses⟩) (node : Node) : motive node := by
  obtain ⟨form, aliasName, parentheses⟩ := node
  refine step form aliasName parentheses fun part hPart => ?_
  have := Form.sizeOf_lt_of_mem_parts hPart
  exact Node.induction step part
termination_by sizeOf node
decreasing_by
  simp only [Node.mk.sizeOf_spec]
  omega

end SqlQuery
