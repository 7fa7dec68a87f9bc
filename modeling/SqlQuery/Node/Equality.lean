import SqlQuery.Node.Fold

/-!
# Equality of trees

Two trees agree if they have the same forms in the same order with the same
decorations and their literals agree.  When literals agree is a parameter.
With numeric equality of floating-point numbers this is `Node.same`, under
which the two zeros agree and a value that is not a number agrees with none.
With equality of the words it is equality itself, which is thereby decidable.

A comparison of two trees is a computation over the first one whose value is a
test for the second.

## Main results

* `Node.agree_eq_true_iff_of_literals` — trees agree exactly when they are equal,
  provided that their literals do.
* `DecidableEq Node`.
-/

namespace SqlQuery

/-- Equality of values, numeric for floating-point numbers. -/
def Value.same : Value → Value → Bool
  | .null, .null => true
  | .boolean a, .boolean b => a == b
  | .integer a, .integer b => a == b
  | .float a, .float b => a.same b
  | .text a, .text b => a == b
  | _, _ => false

/-! ## Tests in the place of parts -/

namespace Form

variable {α : Type}

/-- Whether each test accepts its partner, and none is left over. -/
def acceptAll : List (α → Bool) → List α → Bool
  | [], [] => true
  | test :: tests, part :: parts => test part && acceptAll tests parts
  | _, _ => false

/-- Whether a test and a part are both missing, or the test accepts the
part. -/
def acceptOption : Option (α → Bool) → Option α → Bool
  | none, none => true
  | some test, some part => test part
  | _, _ => false

/-- As `acceptAll`, for the two parts of each rule. -/
def acceptRules : List ((α → Bool) × (α → Bool)) → List (α × α) → Bool
  | [], [] => true
  | test :: tests, rule :: rules => test.1 rule.1 && test.2 rule.2 && acceptRules tests rules
  | _, _ => false

/-- Whether two queries agree in themselves and each test accepts the part in
its place. -/
def acceptQuery (a : Query (α → Bool)) (b : Query α) : Bool :=
  a.distinct == b.distinct && acceptAll a.targets b.targets &&
    acceptOption a.source b.source && acceptOption a.condition b.condition &&
    acceptAll a.groups b.groups && acceptOption a.having b.having &&
    acceptAll a.ordering b.ordering && acceptOption a.limit b.limit &&
    acceptOption a.offset b.offset

/-- Whether two forms agree in themselves, their literals by `values`, and each
test accepts the part in its place. -/
def accept (values : Value → Value → Bool) : Form (α → Bool) → Form α → Bool
  | .identifier v w, .identifier v' w' => v == v' && w == w'
  | .constant v, .constant v' => values v v'
  | .nullConstant, .nullConstant => true
  | .variableName n s, .variableName n' s' => n == n' && s == s'
  | .parameter, .parameter => true
  | .operation op args, .operation op' args' => op == op' && acceptAll args args'
  | .binary op l r, .binary op' l' r' => op == op' && l l' && r r'
  | .unary op arg, .unary op' arg' => op == op' && arg arg'
  | .call n args d, .call n' args' d' => n == n' && acceptAll args args' && d == d'
  | .between s l h n, .between s' l' h' n' => s s' && l l' && h h' && n == n'
  | .tuple items, .tuple items' => acceptAll items items'
  | .select q, .select q' => acceptQuery q q'
  | .join l r k c, .join l' r' k' c' => l l' && r r' && k == k' && acceptOption c c'
  | .orderBy f d n, .orderBy f' d' n' => f f' && d == d' && n == n'
  | .typeCast t arg, .typeCast t' arg' => t == t' && arg arg'
  | .caseWhen rs d, .caseWhen rs' d' => acceptRules rs rs' && acceptOption d d'
  | _, _ => false

variable {test : α → α → Bool}

/-- Tests for the members of a list accept exactly that list. -/
theorem acceptAll_map_eq_true_iff {a b : List α}
    (hTest : ∀ x ∈ a, ∀ y ∈ b, test x y = true ↔ x = y) :
    acceptAll (a.map test) b = true ↔ a = b := by
  induction a generalizing b with
  | nil => cases b <;> simp [acceptAll]
  | cons x a ih =>
    cases b with
    | nil => simp [acceptAll]
    | cons y b =>
      rw [List.map_cons, acceptAll, Bool.and_eq_true, hTest x (by simp) y (by simp),
        ih fun z hz w hw => hTest z (by simp [hz]) w (by simp [hw]), List.cons.injEq]

/-- A test for an optional part accepts exactly that part. -/
theorem acceptOption_map_eq_true_iff {a b : Option α}
    (hTest : ∀ x ∈ a.toList, ∀ y ∈ b.toList, test x y = true ↔ x = y) :
    acceptOption (a.map test) b = true ↔ a = b := by
  cases a with
  | none => cases b <;> simp [acceptOption]
  | some x =>
    cases b with
    | none => simp [acceptOption]
    | some y => simpa [acceptOption] using hTest x (by simp) y (by simp)

/-- Tests for the parts of rules accept exactly these rules. -/
theorem acceptRules_map_eq_true_iff {a b : List (α × α)}
    (hTest : ∀ x ∈ a.flatMap (fun rule => [rule.1, rule.2]),
      ∀ y ∈ b.flatMap (fun rule => [rule.1, rule.2]), test x y = true ↔ x = y) :
    acceptRules (a.map fun rule => (test rule.1, test rule.2)) b = true ↔ a = b := by
  induction a generalizing b with
  | nil => cases b <;> simp [acceptRules]
  | cons x a ih =>
    cases b with
    | nil => simp [acceptRules]
    | cons y b =>
      rw [List.map_cons, acceptRules, Bool.and_eq_true, Bool.and_eq_true,
        hTest x.1 (by simp) y.1 (by simp), hTest x.2 (by simp) y.2 (by simp),
        ih fun z hz w hw => hTest z (List.mem_append_right _ hz) w (List.mem_append_right _ hw),
        List.cons.injEq, Prod.ext_iff]

/-- Tests for the parts of a query accept exactly that query. -/
theorem acceptQuery_map_eq_true_iff {a b : Query α}
    (hTest : ∀ x ∈ a.parts, ∀ y ∈ b.parts, test x y = true ↔ x = y) :
    acceptQuery (a.map test) b = true ↔ a = b := by
  obtain ⟨d, t, s, c, g, h, o, l, f⟩ := a
  obtain ⟨d', t', s', c', g', h', o', l', f'⟩ := b
  simp only [Query.parts, List.mem_append] at hTest
  simp only [acceptQuery, Query.map, Bool.and_eq_true, beq_iff_eq, Query.mk.injEq]
  rw [acceptAll_map_eq_true_iff fun x hx y hy => hTest x (by simp [hx]) y (by simp [hy]),
    acceptOption_map_eq_true_iff fun x hx y hy => hTest x (by simp [hx]) y (by simp [hy]),
    acceptOption_map_eq_true_iff fun x hx y hy => hTest x (by simp [hx]) y (by simp [hy]),
    acceptAll_map_eq_true_iff fun x hx y hy => hTest x (by simp [hx]) y (by simp [hy]),
    acceptOption_map_eq_true_iff fun x hx y hy => hTest x (by simp [hx]) y (by simp [hy]),
    acceptAll_map_eq_true_iff fun x hx y hy => hTest x (by simp [hx]) y (by simp [hy]),
    acceptOption_map_eq_true_iff fun x hx y hy => hTest x (by simp [hx]) y (by simp [hy]),
    acceptOption_map_eq_true_iff fun x hx y hy => hTest x (by simp [hx]) y (by simp [hy])]
  simp only [and_assoc]

/-- Tests for the parts of a form accept exactly that form. -/
theorem accept_map_eq_true_iff {values : Value → Value → Bool} {a b : Form α}
    (hValues : ∀ v w, a = .constant v → b = .constant w → (values v w = true ↔ v = w))
    (hTest : ∀ x ∈ a.parts, ∀ y ∈ b.parts, test x y = true ↔ x = y) :
    accept values (a.map test) b = true ↔ a = b := by
  cases a with
  | identifier | nullConstant | variableName | parameter =>
    cases b <;> simp [accept, Form.map]
  | constant value =>
    cases b with
    | constant value' => simp [accept, Form.map, hValues value value' rfl rfl]
    | _ => simp [accept, Form.map]
  | operation op args =>
    cases b with
    | operation op' args' =>
      have hArgs : acceptAll (args.map test) args' = true ↔ args = args' :=
        acceptAll_map_eq_true_iff hTest
      simp [accept, Form.map, hArgs]
    | _ => simp [accept, Form.map]
  | call name args distinct =>
    cases b with
    | call name' args' distinct' =>
      have hArgs : acceptAll (args.map test) args' = true ↔ args = args' :=
        acceptAll_map_eq_true_iff hTest
      simp [accept, Form.map, hArgs, and_assoc]
    | _ => simp [accept, Form.map]
  | tuple items =>
    cases b with
    | tuple items' =>
      have hItems : acceptAll (items.map test) items' = true ↔ items = items' :=
        acceptAll_map_eq_true_iff hTest
      simp [accept, Form.map, hItems]
    | _ => simp [accept, Form.map]
  | binary op left right =>
    cases b with
    | binary op' left' right' =>
      have hLeft := hTest left (by simp [Form.parts]) left' (by simp [Form.parts])
      have hRight := hTest right (by simp [Form.parts]) right' (by simp [Form.parts])
      simp [accept, Form.map, hLeft, hRight, and_assoc]
    | _ => simp [accept, Form.map]
  | unary op arg =>
    cases b with
    | unary op' arg' =>
      have hArg := hTest arg (by simp [Form.parts]) arg' (by simp [Form.parts])
      simp [accept, Form.map, hArg]
    | _ => simp [accept, Form.map]
  | typeCast typeName arg =>
    cases b with
    | typeCast typeName' arg' =>
      have hArg := hTest arg (by simp [Form.parts]) arg' (by simp [Form.parts])
      simp [accept, Form.map, hArg]
    | _ => simp [accept, Form.map]
  | orderBy field direction nulls =>
    cases b with
    | orderBy field' direction' nulls' =>
      have hField := hTest field (by simp [Form.parts]) field' (by simp [Form.parts])
      simp [accept, Form.map, hField, and_assoc]
    | _ => simp [accept, Form.map]
  | between subject low high negated =>
    cases b with
    | between subject' low' high' negated' =>
      have hSubject := hTest subject (by simp [Form.parts]) subject' (by simp [Form.parts])
      have hLow := hTest low (by simp [Form.parts]) low' (by simp [Form.parts])
      have hHigh := hTest high (by simp [Form.parts]) high' (by simp [Form.parts])
      simp [accept, Form.map, hSubject, hLow, hHigh, and_assoc]
    | _ => simp [accept, Form.map]
  | select query =>
    cases b with
    | select query' =>
      have hQuery : acceptQuery (query.map test) query' = true ↔ query = query' :=
        acceptQuery_map_eq_true_iff hTest
      simp [accept, Form.map, hQuery]
    | _ => simp [accept, Form.map]
  | join left right kind condition =>
    cases b with
    | join left' right' kind' condition' =>
      have hLeft := hTest left (by simp [Form.parts]) left' (by simp [Form.parts])
      have hRight := hTest right (by simp [Form.parts]) right' (by simp [Form.parts])
      have hCondition : acceptOption (condition.map test) condition' = true ↔
          condition = condition' :=
        acceptOption_map_eq_true_iff fun x hx y hy =>
          hTest x (List.mem_cons_of_mem _ (List.mem_cons_of_mem _ hx)) y
            (List.mem_cons_of_mem _ (List.mem_cons_of_mem _ hy))
      simp [accept, Form.map, hLeft, hRight, hCondition, and_assoc]
    | _ => simp [accept, Form.map]
  | caseWhen rules default =>
    cases b with
    | caseWhen rules' default' =>
      have hRules : acceptRules (rules.map fun rule => (test rule.1, test rule.2)) rules' = true ↔
          rules = rules' :=
        acceptRules_map_eq_true_iff fun x hx y hy =>
          hTest x (List.mem_append_left _ hx) y (List.mem_append_left _ hy)
      have hDefault : acceptOption (default.map test) default' = true ↔ default = default' :=
        acceptOption_map_eq_true_iff fun x hx y hy =>
          hTest x (List.mem_append_right _ hx) y (List.mem_append_right _ hy)
      simp [accept, Form.map, hRules, hDefault]
    | _ => simp [accept, Form.map]

end Form

/-! ## Agreement of trees -/

namespace Node

/-- Whether two trees agree, their literals by `values`. -/
def agree (values : Value → Value → Bool) : Node → Node → Bool :=
  Node.fold fun form aliasName parentheses other =>
    aliasName == other.aliasName && parentheses == other.parentheses &&
      form.accept values other.form

/-- Every literal of the tree has the property `p`. -/
inductive Literals (p : Value → Prop) : Node → Prop
  | mk {form : Form Node} {aliasName : Option String} {parentheses : Bool}
      (hForm : ∀ v, form = .constant v → p v) (hParts : ∀ part ∈ form.parts, Literals p part) :
    Literals p ⟨form, aliasName, parentheses⟩

/-- Trees agree exactly when they are equal, provided that their literals do. -/
theorem agree_eq_true_iff_of_literals {values : Value → Value → Bool} {p : Value → Prop}
    (hValues : ∀ v w, p v → p w → (values v w = true ↔ v = w)) {a b : Node} (ha : a.Literals p)
    (hb : b.Literals p) : a.agree values b = true ↔ a = b := by
  induction ha generalizing b with
  | @mk form aliasName parentheses hForm hParts ih =>
    obtain @⟨form', aliasName', parentheses', hForm', hParts'⟩ := hb
    have hAccept : (form.map (agree values)).accept values form' = true ↔ form = form' :=
      Form.accept_map_eq_true_iff (fun v w hv hw => hValues v w (hForm v hv) (hForm' w hw))
        fun x hx y hy => ih x hx (hParts' y hy)
    rw [agree, Node.fold_mk]
    simp only [Bool.and_eq_true, beq_iff_eq, Node.mk.injEq]
    rw [show (form.map (Node.fold _)) = form.map (agree values) from rfl, hAccept, and_comm]

theorem literals_true (node : Node) : node.Literals fun _ => True := by
  induction node using Node.induction with
  | step form aliasName parentheses ih => exact .mk (fun _ _ => trivial) ih

/-- Trees agree exactly when they are equal, provided that all literals do. -/
theorem agree_eq_true_iff {values : Value → Value → Bool}
    (hValues : ∀ v w, values v w = true ↔ v = w) (a b : Node) :
    a.agree values b = true ↔ a = b :=
  agree_eq_true_iff_of_literals (fun v w _ _ => hValues v w) a.literals_true b.literals_true

instance : DecidableEq Node := fun a b =>
  decidable_of_iff (a.agree (fun v w => decide (v = w)) b = true)
    (agree_eq_true_iff (fun _ _ => decide_eq_true_iff) a b)

/-- Equality of trees up to numeric equality of their literals. -/
def same : Node → Node → Bool := agree Value.same

end Node

end SqlQuery
