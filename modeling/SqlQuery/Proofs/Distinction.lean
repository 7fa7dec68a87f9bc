import SqlQuery.Node.Equality
import SqlQuery.Proofs.DocumentText
import SqlQuery.Proofs.OutlineText

/-!
# Equality, outlines and documents tell the same trees apart

Two trees whose numbers are finite and not the negative zero are equal exactly
when they agree, when their outlines are the same text, and when their documents
are the same text in either written form.  Numbers that are excluded do need to
be: the two zeros agree but are written differently, and numbers without digits
are written alike in documents.

Outlines and documents are computations over trees, so it is enough to treat one
node: a fold is injective if its step is, for parts that have the shape of values
of the fold.  For outlines that shape is a block of lines, and for documents it
is an object, so that no part is taken for a missing one.

## Main definitions

* `Value.Ordinary` — literals that are finite and not the negative zero.

## Main results

* `Node.fold_inj` — a fold is injective if its step is.
* `Node.outline_inj`, `Node.toJson_inj` — outlines and documents determine trees.
* `Node.same_iff_outline_iff_document` — equality, outlines and documents tell the
  same trees apart.
-/

namespace SqlQuery

/-! ## Injective folds -/

/-- A form is determined by the images of its parts if the parts are. -/
theorem Form.map_inj {α β : Type} {F : α → β} {a b : Form α}
    (hF : ∀ x ∈ a.parts, ∀ y ∈ b.parts, F x = F y → x = y) (hMap : a.map F = b.map F) : a = b := by
  classical
  have hParts : a.parts.map F = b.parts.map F := by rw [← Form.parts_map, hMap, Form.parts_map]
  have hOwn : ∀ x ∈ b.parts, ∀ y ∈ b.parts, decide (F x = F y) = true ↔ x = y := by
    intro x hx y hy
    obtain ⟨z, hz, hImage⟩ : ∃ z ∈ a.parts, F z = F x := by
      have hMem : F x ∈ a.parts.map F := hParts ▸ List.mem_map_of_mem hx
      exact List.mem_map.1 hMem
    rw [decide_eq_true_iff]
    constructor
    · intro hSame
      rw [← hF z hz x hx hImage]
      exact hF z hz y hy (hImage.trans hSame)
    · exact congrArg F
  have hCross : ∀ x ∈ a.parts, ∀ y ∈ b.parts, decide (F x = F y) = true ↔ x = y := by
    intro x hx y hy
    rw [decide_eq_true_iff]
    exact ⟨hF x hx y hy, congrArg F⟩
  have hValues : ∀ {a b : Form α} (v w : Value), a = .constant v → b = .constant w →
      (decide (v = w) = true ↔ v = w) := fun v w _ _ => decide_eq_true_iff
  -- The tests made from the two forms are the same, and one of them accepts `b`.
  have hTests : a.map (fun x y => decide (F x = F y)) = b.map fun x y => decide (F x = F y) := by
    rw [← Form.map_map F (fun image y => decide (image = F y)), hMap, Form.map_map]
  have hAccept := (Form.accept_map_eq_true_iff hValues hOwn).2 rfl
  rw [← hTests] at hAccept
  exact (Form.accept_map_eq_true_iff hValues hCross).1 hAccept

/-- A fold is injective if its step is, on forms whose parts are values of the
fold. -/
theorem Node.fold_inj {β : Type} {step : Form β → Option String → Bool → β} (good : β → Prop)
    {P : Value → Prop}
    (hGood : ∀ form aliasName parentheses, good (step form aliasName parentheses))
    (hStep : ∀ {f g : Form β} {a b : Option String} {p q : Bool}, (∀ x ∈ f.parts, good x) →
      (∀ x ∈ g.parts, good x) → (∀ v, f = .constant v → P v) → (∀ v, g = .constant v → P v) →
        step f a p = step g b q → f = g ∧ a = b ∧ p = q)
    {x y : Node} (hx : x.Literals P) (hy : y.Literals P) (hFold : x.fold step = y.fold step) :
    x = y := by
  have hImage : ∀ form : Form Node, ∀ z ∈ (form.map (Node.fold step)).parts, good z := by
    intro form z hz
    rw [Form.parts_map] at hz
    obtain ⟨⟨form', aliasName, parentheses⟩, -, rfl⟩ := List.mem_map.1 hz
    rw [Node.fold_mk]
    exact hGood _ _ _
  have hConstant : ∀ {form : Form Node}, (∀ v, form = .constant v → P v) →
      ∀ v, form.map (Node.fold step) = .constant v → P v := by
    intro form hForm v hMap
    cases form <;> cases hMap
    exact hForm v rfl
  induction hx generalizing y with
  | @mk form aliasName parentheses hForm hParts ih =>
    obtain @⟨form', aliasName', parentheses', hForm', hParts'⟩ := hy
    rw [Node.fold_mk, Node.fold_mk] at hFold
    obtain ⟨hMap, rfl, rfl⟩ := hStep (hImage form) (hImage form') (hConstant hForm)
      (hConstant hForm') hFold
    rw [Form.map_inj (fun x hx y hy => ih x hx (hParts' y hy)) hMap]

/-! ## Outlines -/

namespace Node

open Outline

theorem outlineLines_mk (form : Form Node) (aliasName : Option String) (parentheses : Bool) :
    outlineLines ⟨form, aliasName, parentheses⟩ =
      ⟨0, (form.map outlineLines).label ++ (form.map outlineLines).outlineHead ++
        decorations parentheses aliasName⟩ :: indent (form.map outlineLines).outlineParts := by
  rw [outlineLines, Node.fold_mk]
  cases aliasName <;> rfl

/-- The literals of a tree are those of the values of its parts. -/
theorem finite_map {β : Type} {F : Node → β} {form : Form Node}
    (hForm : ∀ v, form = .constant v → v.scalar.Finite) : (form.map F).Finite := by
  intro v hMap
  cases form <;> cases hMap
  exact hForm v rfl

theorem allLines_outlineLines {node : Node} (hNode : node.Literals fun v => v.scalar.Finite) :
    AllLines node.outlineLines := by
  induction hNode with
  | @mk form aliasName parentheses hForm hParts ih =>
    have hBelow : AllLines (form.map outlineLines).outlineParts := by
      apply Form.allLines_outlineParts
      intro part hPart
      rw [Form.parts_map] at hPart
      obtain ⟨inner, hInner, rfl⟩ := List.mem_map.1 hPart
      exact ih inner hInner
    rw [outlineLines_mk]
    intro line hLine
    rcases List.mem_cons.1 hLine with rfl | hIndent
    · exact Form.isLine_head (finite_map hForm) parentheses aliasName
    · exact hBelow.indent line hIndent

/-- The lines of an outline determine the tree. -/
theorem outlineLines_inj {a b : Node} (ha : a.Literals fun v => v.scalar.Finite)
    (hb : b.Literals fun v => v.scalar.Finite) (hLines : a.outlineLines = b.outlineLines) :
    a = b := by
  refine Node.fold_inj IsBlock (fun form aliasName parentheses => ⟨_, _, rfl⟩) ?_ ha hb hLines
  intro f g a b p q hf hg hFiniteF hFiniteG hStep
  have hBoth : (⟨0, f.label ++ f.outlineHead ++ decorations p a⟩ : Line) ::
      indent f.outlineParts =
        ⟨0, g.label ++ g.outlineHead ++ decorations q b⟩ :: indent g.outlineParts := by
    cases a <;> cases b <;> exact hStep
  obtain ⟨hLine, hBelow⟩ := List.cons.inj hBoth
  obtain ⟨hHead, hParentheses, hAlias⟩ :=
    Form.head_inj hFiniteF hFiniteG (congrArg Line.text hLine)
  exact ⟨Form.outlineParts_inj hf hg hHead (indent_inj hBelow), hAlias, hParentheses⟩

/-- The outline determines the tree. -/
theorem outline_inj {a b : Node} (ha : a.Literals fun v => v.scalar.Finite)
    (hb : b.Literals fun v => v.scalar.Finite) (hText : a.outline = b.outline) : a = b :=
  outlineLines_inj ha hb (lines_inj (allLines_outlineLines ha) (allLines_outlineLines hb) hText)

end Node

/-! ## Documents -/

namespace Json

/-- A document that is an object. -/
def IsObject (document : Json) : Prop := ∃ members, document = .object members

/-- A part that may be missing is not taken for a missing one. -/
theorem getD_null_inj {a b : Option Json} (ha : ∀ x ∈ a.toList, IsObject x)
    (hb : ∀ x ∈ b.toList, IsObject x) (hSame : a.getD .null = b.getD .null) : a = b := by
  cases a with
  | none =>
    cases b with
    | none => rfl
    | some y =>
      obtain ⟨members, rfl⟩ := hb y (by simp)
      cases hSame
  | some x =>
    cases b with
    | none =>
      obtain ⟨members, rfl⟩ := ha x (by simp)
      cases hSame
    | some y => exact congrArg some hSame

theorem ofChar_inj {c d : Char} (hSame : ofChar c = ofChar d) : c = d := by
  have hText := congrArg String.toList (Json.text.inj hSame)
  simpa using hText

/-- What may be missing is told from the missing document if it is no missing
document itself. -/
theorem ofOption_inj {α : Type} {encode : α → Json} {a b : Option α}
    (hNull : ∀ x, encode x ≠ .null) (hEncode : ∀ x y, encode x = encode y → x = y)
    (hSame : ofOption encode a = ofOption encode b) : a = b := by
  cases a with
  | none =>
    cases b with
    | none => rfl
    | some y => exact absurd hSame.symm (hNull y)
  | some x =>
    cases b with
    | none => exact absurd hSame (hNull x)
    | some y => exact congrArg some (hEncode x y hSame)

theorem finite_ofScalar (value : Scalar) (hValue : value.Finite) : Finite (.ofScalar value) :=
  .scalar hValue

theorem finite_text (s : String) : Finite (.text s) := finite_ofScalar (.text s) trivial

theorem finite_boolean (b : Bool) : Finite (.boolean b) := finite_ofScalar (.boolean b) trivial

theorem finite_null : Finite .null := finite_ofScalar .null trivial

/-- Members whose values are finite. -/
def FiniteMembers (members : List (String × Json)) : Prop := ∀ member ∈ members, member.2.Finite

theorem FiniteMembers.nil : FiniteMembers [] := fun _ hMember => by cases hMember

theorem FiniteMembers.cons {name : String} {value : Json} {members : List (String × Json)}
    (hMembers : FiniteMembers members) (hValue : value.Finite) :
    FiniteMembers ((name, value) :: members) :=
  List.forall_mem_cons.2 ⟨hValue, hMembers⟩

theorem finite_tagged {name : String} {content : Json} (hContent : content.Finite) :
    (tagged name content).Finite :=
  .object (FiniteMembers.nil.cons hContent)

theorem finite_getD {part : Option Json} (hPart : ∀ x ∈ part.toList, x.Finite) :
    (part.getD .null).Finite := by
  cases part with
  | none => exact finite_null
  | some x => exact hPart x (by simp)

theorem finite_ofOption {α : Type} {encode : α → Json} (hEncode : ∀ x, (encode x).Finite)
    (part : Option α) : (ofOption encode part).Finite := by
  cases part with
  | none => exact finite_null
  | some x => exact hEncode x

end Json

open Json (IsObject)

theorem Value.toJson_inj {v w : Value} (hSame : v.toJson = w.toJson) : v = w := by
  cases v <;> cases w <;> simp_all [Value.toJson, Json.tagged, Int64.toInt_inj]

theorem Value.finite_toJson {v : Value} (hv : v.scalar.Finite) : v.toJson.Finite := by
  cases v with
  | null => exact Json.finite_text _
  | boolean b => exact Json.finite_tagged (Json.finite_boolean b)
  | integer i => exact Json.finite_tagged (Json.finite_ofScalar (.integer i.toInt) trivial)
  | float x => exact Json.finite_tagged (Json.finite_ofScalar (.float x) hv)
  | text s => exact Json.finite_tagged (Json.finite_text s)

/-- The clauses of a query can be told from its document. -/
theorem Query.documentParts_inj {x y : Query Json} (hx : ∀ part ∈ x.parts, IsObject part)
    (hy : ∀ part ∈ y.parts, IsObject part) (hSame : x.documentParts = y.documentParts) : x = y := by
  obtain ⟨d, t, s, c, g, h, o, l, f⟩ := x
  obtain ⟨d', t', s', c', g', h', o', l', f'⟩ := y
  simp only [Query.parts, List.mem_append] at hx hy
  simp only [documentParts, Json.object.injEq, List.cons.injEq, Prod.mk.injEq, Json.array.injEq,
    Json.boolean.injEq, true_and, and_true] at hSame
  obtain ⟨ht, hs, hc, hg, hh, ho, hl, hf, hd⟩ := hSame
  simp only [Query.mk.injEq]
  exact ⟨hd, ht,
    Json.getD_null_inj (fun z hz => hx z (by simp [hz])) (fun z hz => hy z (by simp [hz])) hs,
    Json.getD_null_inj (fun z hz => hx z (by simp [hz])) (fun z hz => hy z (by simp [hz])) hc, hg,
    Json.getD_null_inj (fun z hz => hx z (by simp [hz])) (fun z hz => hy z (by simp [hz])) hh, ho,
    Json.getD_null_inj (fun z hz => hx z (by simp [hz])) (fun z hz => hy z (by simp [hz])) hl,
    Json.getD_null_inj (fun z hz => hx z (by simp [hz])) (fun z hz => hy z (by simp [hz])) hf⟩

/-- The document of a query is finite if those of its parts are. -/
theorem Query.finite_documentParts {q : Query Json} (hq : ∀ part ∈ q.parts, part.Finite) :
    q.documentParts.Finite := by
  simp only [Query.parts, List.mem_append] at hq
  have hTargets : (Json.array q.targets).Finite := .array fun x hx => hq x (by simp [hx])
  have hSource : (q.source.getD .null).Finite := Json.finite_getD fun x hx => hq x (by simp [hx])
  have hCondition : (q.condition.getD .null).Finite :=
    Json.finite_getD fun x hx => hq x (by simp [hx])
  have hGroups : (Json.array q.groups).Finite := .array fun x hx => hq x (by simp [hx])
  have hHaving : (q.having.getD .null).Finite := Json.finite_getD fun x hx => hq x (by simp [hx])
  have hOrdering : (Json.array q.ordering).Finite := .array fun x hx => hq x (by simp [hx])
  have hLimit : (q.limit.getD .null).Finite := Json.finite_getD fun x hx => hq x (by simp [hx])
  have hOffset : (q.offset.getD .null).Finite := Json.finite_getD fun x hx => hq x (by simp [hx])
  have hDistinct := Json.finite_boolean q.distinct
  exact .object (((((((((Json.FiniteMembers.nil.cons hDistinct).cons hOffset).cons hLimit).cons
    hOrdering).cons hHaving).cons hGroups).cons hCondition).cons hSource).cons hTargets)

namespace Form

variable {f g : Form Json}

/-- A form with the documents of its parts can be told from its document. -/
theorem document_inj (hf : ∀ part ∈ f.parts, IsObject part) (hg : ∀ part ∈ g.parts, IsObject part)
    (hSame : f.document = g.document) : f = g := by
  cases f with
  | identifier value wrap =>
    cases g with
    | identifier value' wrap' =>
      simp only [document, documentMembers, Json.tagged, label, Json.object.injEq, List.cons.injEq,
        Prod.mk.injEq, Json.text.injEq, true_and, and_true] at hSame
      rw [hSame.1, Json.ofOption_inj (fun _ => by simp [Json.ofChar]) (fun _ _ => Json.ofChar_inj)
        hSame.2]
    | _ => simp [document, Json.tagged, label] at hSame
  | constant value =>
    cases g with
    | constant value' =>
      simp only [document, Json.tagged, label, Json.object.injEq, List.cons.injEq, Prod.mk.injEq,
        true_and, and_true] at hSame
      rw [Value.toJson_inj hSame]
    | _ => simp [document, Json.tagged, label] at hSame
  | select query =>
    cases g with
    | select query' =>
      simp only [document, Json.tagged, label, Json.object.injEq, List.cons.injEq, Prod.mk.injEq,
        true_and, and_true] at hSame
      rw [Query.documentParts_inj hf hg hSame]
    | _ => simp [document, Json.tagged, label] at hSame
  | join left right kind condition =>
    cases g with
    | join left' right' kind' condition' =>
      simp only [document, documentMembers, Json.tagged, label, Json.object.injEq, List.cons.injEq,
        Prod.mk.injEq, Json.text.injEq, true_and, and_true] at hSame
      obtain ⟨rfl, rfl, hKind, hCondition⟩ := hSame
      simp only [Form.parts, List.mem_cons] at hf hg
      rw [JoinKind.label_inj hKind, Json.getD_null_inj (fun z hz => hf z (Or.inr (Or.inr hz)))
        (fun z hz => hg z (Or.inr (Or.inr hz))) hCondition]
    | _ => simp [document, Json.tagged, label] at hSame
  | orderBy field direction nulls =>
    cases g with
    | orderBy field' direction' nulls' =>
      simp only [document, documentMembers, Json.tagged, label, Json.object.injEq, List.cons.injEq,
        Prod.mk.injEq, Json.text.injEq, true_and, and_true] at hSame
      obtain ⟨rfl, hDirection, hNulls⟩ := hSame
      rw [Direction.label_inj hDirection, NullPlacement.label_inj hNulls]
    | _ => simp [document, Json.tagged, label] at hSame
  | caseWhen rules default =>
    cases g with
    | caseWhen rules' default' =>
      simp only [document, documentMembers, Json.tagged, label, Json.object.injEq, List.cons.injEq,
        Prod.mk.injEq, Json.array.injEq, true_and, and_true] at hSame
      obtain ⟨hRules, hDefault⟩ := hSame
      have hRule : Function.Injective fun rule : Json × Json => Json.array [rule.1, rule.2] := by
        intro rule rule' hPair
        simp only [Json.array.injEq, List.cons.injEq, and_true] at hPair
        exact Prod.ext hPair.1 hPair.2
      rw [List.map_injective_iff.2 hRule hRules,
        Json.getD_null_inj (fun z hz => hf z (List.mem_append_right _ hz))
          (fun z hz => hg z (List.mem_append_right _ hz)) hDefault]
    | _ => simp [document, Json.tagged, label] at hSame
  | _ =>
    cases g <;> simp_all [document, documentMembers, Json.tagged, label]

/-- The document of a form is finite if those of its parts are and its literal
is. -/
theorem finite_document (hf : ∀ part ∈ f.parts, part.Finite) (hFinite : f.Finite) :
    f.document.Finite := by
  have hObject : ∀ {name : String} {members : List (String × Json)}, Json.FiniteMembers members →
      (Json.tagged name (.object members)).Finite := fun hAll => Json.finite_tagged (.object hAll)
  have hNil := Json.FiniteMembers.nil
  cases f with
  | nullConstant | parameter => exact Json.finite_text _
  | constant value => exact Json.finite_tagged (Value.finite_toJson (hFinite value rfl))
  | identifier value wrap =>
    have hWrap := Json.finite_ofOption (fun c => Json.finite_text (Char.toString c)) wrap
    exact hObject ((hNil.cons hWrap).cons (Json.finite_text value))
  | variableName name system =>
    exact hObject ((hNil.cons (Json.finite_boolean system)).cons (Json.finite_text name))
  | operation op args => exact hObject ((hNil.cons (.array hf)).cons (Json.finite_text op))
  | binary op left right => exact hObject ((hNil.cons (.array hf)).cons (Json.finite_text op))
  | unary op arg =>
    exact hObject ((hNil.cons (hf arg (by simp [Form.parts]))).cons (Json.finite_text op))
  | call name args distinct =>
    exact hObject (((hNil.cons (Json.finite_boolean distinct)).cons (.array hf)).cons
      (Json.finite_text name))
  | between subject low high negated =>
    exact hObject ((hNil.cons (Json.finite_boolean negated)).cons (.array hf))
  | tuple items => exact hObject (hNil.cons (.array hf))
  | select query => exact Json.finite_tagged (Query.finite_documentParts hf)
  | join left right kind condition =>
    have hCondition := Json.finite_getD fun x hx =>
      hf x (List.mem_cons_of_mem left (List.mem_cons_of_mem right hx))
    exact hObject ((((hNil.cons hCondition).cons (Json.finite_text kind.label)).cons
      (hf right (by simp [Form.parts]))).cons (hf left (by simp [Form.parts])))
  | orderBy field direction nulls =>
    exact hObject (((hNil.cons (Json.finite_text nulls.label)).cons
      (Json.finite_text direction.label)).cons (hf field (by simp [Form.parts])))
  | typeCast typeName arg =>
    exact hObject ((hNil.cons (hf arg (by simp [Form.parts]))).cons (Json.finite_text typeName))
  | caseWhen rules default =>
    obtain ⟨hRules, hDefault⟩ := forall_mem_parts_caseWhen.1 hf
    have hElse := Json.finite_getD fun x hx => hDefault x (Option.mem_toList.1 hx)
    have hPairs : ∀ item ∈ rules.map fun rule => Json.array [rule.1, rule.2], item.Finite := by
      intro item hItem
      obtain ⟨rule, hRule, rfl⟩ := List.mem_map.1 hItem
      exact .array (List.forall_mem_cons.2
        ⟨(hRules rule hRule).1, List.forall_mem_singleton.2 (hRules rule hRule).2⟩)
    exact hObject ((hNil.cons hElse).cons (.array hPairs))

end Form

namespace Node

/-- The document of a tree with finite numbers has finite numbers. -/
theorem finite_toJson {node : Node} (hNode : node.Literals fun v => v.scalar.Finite) :
    node.toJson.Finite := by
  induction hNode with
  | @mk form aliasName parentheses hForm hParts ih =>
    have hDocument : (form.map toJson).document.Finite := by
      refine Form.finite_document (fun part hPart => ?_) (finite_map hForm)
      rw [Form.parts_map] at hPart
      obtain ⟨inner, hInner, rfl⟩ := List.mem_map.1 hPart
      exact ih inner hInner
    rw [toJson, Node.fold_mk]
    exact .object (((Json.FiniteMembers.nil.cons (Json.finite_boolean parentheses)).cons
      (Json.finite_ofOption Json.finite_text aliasName)).cons hDocument)

/-- The document determines the tree. -/
theorem toJson_inj {a b : Node} (ha : a.Literals fun v => v.scalar.Finite)
    (hb : b.Literals fun v => v.scalar.Finite) (hSame : a.toJson = b.toJson) : a = b := by
  refine Node.fold_inj IsObject (fun form aliasName parentheses => ⟨_, rfl⟩) ?_ ha hb hSame
  intro f g a b p q hf hg _ _ hStep
  simp only [Json.object.injEq, List.cons.injEq, Prod.mk.injEq, Json.boolean.injEq, true_and,
    and_true] at hStep
  obtain ⟨hForm, hAlias, hParentheses⟩ := hStep
  have hName : a = b := Json.ofOption_inj (fun _ => by simp) (fun _ _ => Json.text.inj) hAlias
  exact ⟨Form.document_inj hf hg hForm, hName, hParentheses⟩

end Node

/-! ## Equality -/

/-- A number that is finite and not the negative zero. -/
def Number.Binary64.Ordinary (x : Number.Binary64) : Prop :=
  x.isFinite = true ∧ ¬(x.isZero = true ∧ x.negative = true)

/-- A literal that, if it is a floating-point number, is finite and not the
negative zero. -/
def Value.Ordinary : Value → Prop
  | .float x => x.Ordinary
  | _ => True

theorem Value.Ordinary.finite {v : Value} (hv : v.Ordinary) : v.scalar.Finite := by
  cases v with
  | float x => exact hv.1
  | _ => trivial

/-- Numeric equality of ordinary numbers is equality. -/
theorem Number.Binary64.same_eq_true_iff {x y : Number.Binary64} (hx : x.Ordinary)
    (hy : y.Ordinary) : x.same y = true ↔ x = y := by
  have hNaNX := isNaN_of_isFinite hx.1
  have hNaNY := isNaN_of_isFinite hy.1
  rw [same, hNaNX, hNaNY]
  simp only [Bool.not_false, Bool.true_and, Bool.or_eq_true, beq_iff_eq, Bool.and_eq_true]
  constructor
  · rintro (hBits | ⟨hZeroX, hZeroY⟩)
    · obtain ⟨bits⟩ := x
      obtain ⟨bits'⟩ := y
      exact congrArg mk hBits
    · have hSignX : x.negative = false := by
        by_contra hSign
        exact hx.2 ⟨hZeroX, by simpa using hSign⟩
      have hSignY : y.negative = false := by
        by_contra hSign
        exact hy.2 ⟨hZeroY, by simpa using hSign⟩
      have hMagnitude : x.magnitude = y.magnitude := by
        rw [isZero, beq_iff_eq] at hZeroX hZeroY
        rw [hZeroX, hZeroY]
      rw [← ofMagnitude_magnitude hSignX, hMagnitude, ofMagnitude_magnitude hSignY]
  · intro hSame
    exact Or.inl (congrArg bits hSame)

theorem Value.same_eq_true_iff {v w : Value} (hv : v.Ordinary) (hw : w.Ordinary) :
    v.same w = true ↔ v = w := by
  cases v with
  | float x =>
    cases w with
    | float y => simpa [Value.same] using Number.Binary64.same_eq_true_iff hv hw
    | _ => simp [Value.same]
  | _ => cases w <;> simp [Value.same]

namespace Node

theorem Literals.mono {P Q : Value → Prop} (hImp : ∀ v, P v → Q v) {node : Node}
    (hNode : node.Literals P) : node.Literals Q := by
  induction hNode with
  | mk hForm hParts ih => exact .mk (fun v hv => hImp v (hForm v hv)) ih

/-- Agreement of trees with ordinary literals is equality. -/
theorem same_eq_true_iff {a b : Node} (ha : a.Literals Value.Ordinary)
    (hb : b.Literals Value.Ordinary) : a.same b = true ↔ a = b :=
  agree_eq_true_iff_of_literals (fun _ _ => Value.same_eq_true_iff) ha hb

/-- **Equality, outlines and documents tell the same trees apart**: for trees whose
floating-point numbers are finite and not the negative zero, agreement, the text of
the outline and both texts of the document each determine the tree. -/
theorem same_iff_outline_iff_document {a b : Node} (ha : a.Literals Value.Ordinary)
    (hb : b.Literals Value.Ordinary) :
    (a.same b = true ↔ a = b) ∧
      (a.same b = true ↔ a.outline = b.outline) ∧
      (a.outline = b.outline ↔ a.toJson.compact = b.toJson.compact) ∧
      (a.outline = b.outline ↔ a.toJson.pretty = b.toJson.pretty) := by
  have hFiniteA : a.Literals fun v => v.scalar.Finite := ha.mono fun _ hv => hv.finite
  have hFiniteB : b.Literals fun v => v.scalar.Finite := hb.mono fun _ hv => hv.finite
  have hOutline : a.outline = b.outline ↔ a = b :=
    ⟨outline_inj hFiniteA hFiniteB, congrArg outline⟩
  have hCompact : a.toJson.compact = b.toJson.compact ↔ a = b := by
    refine ⟨fun hText => toJson_inj hFiniteA hFiniteB ?_, fun hSame => by rw [hSame]⟩
    exact Json.compact_inj (finite_toJson hFiniteA) (finite_toJson hFiniteB) hText
  have hPretty : a.toJson.pretty = b.toJson.pretty ↔ a = b := by
    refine ⟨fun hText => toJson_inj hFiniteA hFiniteB ?_, fun hSame => by rw [hSame]⟩
    exact Json.pretty_inj (finite_toJson hFiniteA) (finite_toJson hFiniteB) hText
  have hSame := same_eq_true_iff ha hb
  exact ⟨hSame, hSame.trans hOutline.symm, hOutline.trans hCompact.symm,
    hOutline.trans hPretty.symm⟩

/-- A list of a number and the missing value, written as a literal. -/
def literalNull : Node :=
  { form := .tuple [⟨.constant (.float ⟨0x3FE0000000000000⟩), none, false⟩,
      ⟨.constant .null, some "x", true⟩] }

/-- The same list with the missing value as a form of its own. -/
def formNull : Node :=
  { form := .tuple [⟨.constant (.float ⟨0x3FE0000000000000⟩), none, false⟩,
      ⟨.nullConstant, some "x", true⟩] }

theorem ordinary_half : Value.Ordinary (.float ⟨0x3FE0000000000000⟩) := ⟨by decide, by decide⟩

theorem literals_leaf {P : Value → Prop} {form : Form Node} {aliasName : Option String}
    {parentheses : Bool} (hParts : form.parts = []) (hForm : ∀ v, form = .constant v → P v) :
    Literals P ⟨form, aliasName, parentheses⟩ :=
  .mk hForm fun part hPart => by rw [hParts] at hPart; cases hPart

theorem literals_literalNull : literalNull.Literals Value.Ordinary := by
  refine .mk (fun v hv => by cases hv) fun part hPart => ?_
  rcases List.mem_cons.1 hPart with rfl | hRest
  · exact literals_leaf rfl fun v hv => by cases hv; exact ordinary_half
  · rw [List.mem_singleton.1 hRest]
    exact literals_leaf rfl fun v hv => by cases hv; trivial

theorem literals_formNull : formNull.Literals Value.Ordinary := by
  refine .mk (fun v hv => by cases hv) fun part hPart => ?_
  rcases List.mem_cons.1 hPart with rfl | hRest
  · exact literals_leaf rfl fun v hv => by cases hv; exact ordinary_half
  · rw [List.mem_singleton.1 hRest]
    exact literals_leaf rfl fun v hv => by cases hv

/-- The two ways to write the missing value are told apart everywhere. -/
theorem outline_ne_document_ne_null :
    literalNull.Literals Value.Ordinary ∧ formNull.Literals Value.Ordinary ∧
      literalNull.same formNull = false ∧ literalNull.outline ≠ formNull.outline ∧
      literalNull.toJson.compact ≠ formNull.toJson.compact ∧
      literalNull.toJson.pretty ≠ formNull.toJson.pretty := by
  obtain ⟨-, hOutline, hCompact, hPretty⟩ :=
    same_iff_outline_iff_document literals_literalNull literals_formNull
  have hSame : literalNull.same formNull = false := by decide
  have hNe : literalNull.outline ≠ formNull.outline := by
    rw [Ne, ← hOutline, hSame]
    decide
  exact ⟨literals_literalNull, literals_formNull, hSame, hNe, fun h => hNe (hCompact.2 h),
    fun h => hNe (hPretty.2 h)⟩

end Node

end SqlQuery
