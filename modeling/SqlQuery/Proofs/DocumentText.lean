import SqlQuery.Node.Document
import SqlQuery.Proofs.ScalarText

/-!
# Documents can be told by their texts

The compact and the spread form of a document differ in the space between its
entries only.  Both are *layouts*: they write the scalars alike and put the
entries of arrays and objects between brackets, with fixed space before each
entry and before the closing bracket.  Whatever that space is, a document
followed by a comma, a closing bracket, a line break or nothing can be told
from the text, and so can what follows it.

The first character of a document shows whether it is a scalar, an array or an
object; scalars end as `Scalar.separate` says, and arrays and objects at their
closing bracket.  A number without digits is written like the missing document,
so numbers are taken to be finite.

## Main definitions

* `Json.Finite` — documents whose numbers are finite.
* `Json.Layout` — a way to spread out documents.

## Main results

* `Json.Layout.separate` — a document and what follows it can be told from the
  text.
* `Json.compact_inj`, `Json.pretty_inj` — the two written forms.
-/

namespace SqlQuery.Json

/-- A document without parts. -/
def ofScalar : Scalar → Json
  | .null => .null
  | .boolean value => .boolean value
  | .integer value => .integer value
  | .float value => .float value
  | .text value => .text value

/-- Every number of the document is finite. -/
inductive Finite : Json → Prop
  | scalar {value : Scalar} (hValue : value.Finite) : Finite (.ofScalar value)
  | array {items : List Json} (hItems : ∀ item ∈ items, Finite item) : Finite (.array items)
  | object {members : List (String × Json)} (hMembers : ∀ member ∈ members, Finite member.2) :
    Finite (.object members)

/-! ## Entries between brackets -/

/-- What stands behind the first entry: the other entries and the closing
bracket. -/
def further (inner outer : List Char) (closing : Char) : List (List Char) → List Char
  | [] => outer ++ [closing]
  | entry :: entries => ',' :: (inner ++ (entry ++ further inner outer closing entries))

/-- Entries between brackets, with the space `inner` before each of them and
`outer` before the closing bracket. -/
def bracketed (inner outer : List Char) (opening closing : Char) : List (List Char) → List Char
  | [] => [opening, closing]
  | entry :: entries => opening :: (inner ++ (entry ++ further inner outer closing entries))

/-- What may follow a document. -/
def Stops (tail : List Char) : Prop :=
  ∀ c ∈ tail.head?, c = ',' ∨ c = ']' ∨ c = '\x7d' ∨ c = '\n'

theorem Stops.isMark {tail : List Char} (hStops : Stops tail) :
    ∀ c ∈ tail.head?, Number.isMark c = false := by
  intro c hc
  rcases hStops c hc with rfl | rfl | rfl | rfl <;> rfl

/-- Space between entries is empty or begins with a line break. -/
def IsGap (gap : List Char) : Prop := ∀ c ∈ gap.head?, c = '\n'

section Brackets

variable {α : Type} {write : α → List Char} {inner outer : List Char} {closing : Char}
  {r s : List Char}

/-- Space is told from a character that is no line break. -/
theorem IsGap.append_ne (hGap : IsGap inner) {c d : Char} {cs ds : List Char} (hBreak : c ≠ '\n')
    (hNe : c ≠ d) : c :: cs ≠ inner ++ d :: ds := by
  intro hText
  cases inner with
  | nil => exact hNe (List.cons.inj hText).1
  | cons e inner =>
    have hHead : c = e := (List.cons.inj hText).1
    exact hBreak (hHead.trans (hGap e rfl))

theorem stops_further (hOuter : IsGap outer) (hClosing : closing = ']' ∨ closing = '\x7d')
    (entries : List (List Char)) (r : List Char) :
    Stops (further inner outer closing entries ++ r) := by
  intro c hc
  cases entries with
  | nil =>
    cases outer with
    | nil =>
      obtain rfl : closing = c := Option.some.inj hc
      exact hClosing.elim (fun h => Or.inr (Or.inl h)) fun h => Or.inr (Or.inr (Or.inl h))
    | cons d outer =>
      obtain rfl : d = c := Option.some.inj hc
      exact Or.inr (Or.inr (Or.inr (hOuter d rfl)))
  | cons entry entries =>
    obtain rfl : ',' = c := Option.some.inj hc
    exact Or.inl rfl

/-- The value `x` and what follows it can be told from the text, among values
that are `valid`. -/
def Told (write : α → List Char) (valid : α → Prop) (x : α) : Prop :=
  ∀ ⦃y : α⦄ ⦃r s : List Char⦄, valid y → Stops r → Stops s → write x ++ r = write y ++ s →
    x = y ∧ r = s

variable {valid : α → Prop} (hOuter : IsGap outer) (hClosing : closing = ']' ∨ closing = '\x7d')
include hOuter hClosing

theorem further_append_inj {xs ys : List α} (hTold : ∀ x ∈ xs, Told write valid x)
    (hValid : ∀ y ∈ ys, valid y)
    (hText : further inner outer closing (xs.map write) ++ r =
      further inner outer closing (ys.map write) ++ s) : xs = ys ∧ r = s := by
  have hComma : ',' ≠ closing := by rcases hClosing with rfl | rfl <;> decide
  induction xs generalizing ys with
  | nil =>
    cases ys with
    | nil =>
      simp only [List.map_nil, further, List.append_assoc] at hText
      exact ⟨rfl, (List.cons.inj (List.append_cancel_left hText)).2⟩
    | cons y ys =>
      simp only [List.map_nil, List.map_cons, further, List.append_assoc] at hText
      exact absurd hText.symm (hOuter.append_ne (by decide) hComma)
  | cons x xs ih =>
    cases ys with
    | nil =>
      simp only [List.map_nil, List.map_cons, further, List.append_assoc] at hText
      exact absurd hText (hOuter.append_ne (by decide) hComma)
    | cons y ys =>
      simp only [List.map_cons, further, List.cons_append, List.append_assoc, List.cons.injEq,
        true_and, List.append_cancel_left_eq] at hText
      obtain ⟨rfl, hRest⟩ := hTold x (by simp) (hValid y (by simp))
        (stops_further hOuter hClosing _ _) (stops_further hOuter hClosing _ _) hText
      obtain ⟨rfl, rfl⟩ := ih (fun z hz => hTold z (by simp [hz]))
        (fun z hz => hValid z (by simp [hz])) hRest
      exact ⟨rfl, rfl⟩

/-- Entries between brackets, and what follows them, can be told from the text if
each entry can and none begins with the closing bracket. -/
theorem bracketed_append_inj (hInner : IsGap inner) {opening : Char} {xs ys : List α}
    (hTold : ∀ x ∈ xs, Told write valid x) (hValid : ∀ y ∈ ys, valid y)
    (hHead : ∀ x, x ∈ xs ∨ x ∈ ys → ∃ c cs, write x = c :: cs ∧ closing ≠ c)
    (hText : bracketed inner outer opening closing (xs.map write) ++ r =
      bracketed inner outer opening closing (ys.map write) ++ s) : xs = ys ∧ r = s := by
  have hBreak : closing ≠ '\n' := by rcases hClosing with rfl | rfl <;> decide
  cases xs with
  | nil =>
    cases ys with
    | nil =>
      simp only [List.map_nil, bracketed, List.cons_append, List.nil_append, List.cons.injEq,
        true_and] at hText
      exact ⟨rfl, hText⟩
    | cons y ys =>
      obtain ⟨c, cs, hy, hNe⟩ := hHead y (by simp)
      simp only [List.map_nil, List.map_cons, bracketed, List.cons_append, List.append_assoc,
        List.nil_append, List.cons.injEq, true_and, hy] at hText
      exact absurd hText (hInner.append_ne hBreak hNe)
  | cons x xs =>
    cases ys with
    | nil =>
      obtain ⟨c, cs, hx, hNe⟩ := hHead x (by simp)
      simp only [List.map_nil, List.map_cons, bracketed, List.cons_append, List.append_assoc,
        List.nil_append, List.cons.injEq, true_and, hx] at hText
      exact absurd hText.symm (hInner.append_ne hBreak hNe)
    | cons y ys =>
      simp only [List.map_cons, bracketed, List.cons_append, List.append_assoc, List.cons.injEq,
        true_and, List.append_cancel_left_eq] at hText
      obtain ⟨rfl, hRest⟩ := hTold x (by simp) (hValid y (by simp))
        (stops_further hOuter hClosing _ _) (stops_further hOuter hClosing _ _) hText
      obtain ⟨rfl, rfl⟩ := further_append_inj hOuter hClosing (fun z hz => hTold z (by simp [hz]))
        (fun z hz => hValid z (by simp [hz])) hRest
      exact ⟨rfl, rfl⟩

end Brackets

/-! ## Layouts -/

/-- A way to write documents, depending on their depth: the scalars as they are,
arrays and objects between brackets with the space `gap` before entries, and
`colon` between the name and the value of a member. -/
structure Layout (write : Nat → Json → List Char) (gap : Nat → List Char) (colon : List Char) :
    Prop where
  isGap : ∀ depth, IsGap (gap depth)
  scalar : ∀ depth value, write depth (.ofScalar value) =
    value.write numberStyle fun s => (quoted s).toList
  array : ∀ depth items, write depth (.array items) =
    bracketed (gap (depth + 1)) (gap depth) '[' ']' (items.map (write (depth + 1)))
  object : ∀ depth members, write depth (.object members) =
    bracketed (gap (depth + 1)) (gap depth) '\x7b' '\x7d'
      (members.map fun member => (quoted member.1).toList ++ colon ++ write (depth + 1) member.2)

theorem exists_bracketed_cons (inner outer : List Char) (opening closing : Char)
    (entries : List (List Char)) :
    ∃ cs, bracketed inner outer opening closing entries = opening :: cs := by
  cases entries with
  | nil => exact ⟨_, rfl⟩
  | cons entry entries => exact ⟨_, rfl⟩

theorem exists_quoted_cons (s : String) : ∃ cs, (quoted s).toList = '"' :: cs := by
  rw [quoted, String.toList_ofList]
  exact ⟨_, rfl⟩

namespace Layout

variable {write : Nat → Json → List Char} {gap : Nat → List Char} {colon : List Char}
  (hLayout : Layout write gap colon)
include hLayout

theorem exists_scalar_cons (depth : Nat) {value : Scalar} (hValue : value.Finite) :
    ∃ c cs, write depth (.ofScalar value) = c :: cs ∧ Scalar.kindOf c = some value.kind := by
  rw [hLayout.scalar]
  exact Scalar.exists_cons (Or.inr rfl) exists_quoted_cons hValue

theorem exists_array_cons (depth : Nat) (items : List Json) :
    ∃ cs, write depth (.array items) = '[' :: cs := by
  rw [hLayout.array]
  exact exists_bracketed_cons ..

theorem exists_object_cons (depth : Nat) (members : List (String × Json)) :
    ∃ cs, write depth (.object members) = '\x7b' :: cs := by
  rw [hLayout.object]
  exact exists_bracketed_cons ..

/-- A document is not taken for the closing bracket. -/
theorem exists_cons_ne (depth : Nat) {document : Json} (hFinite : document.Finite) :
    ∃ c cs, write depth document = c :: cs ∧ ']' ≠ c := by
  cases hFinite with
  | scalar hValue =>
    obtain ⟨c, cs, hText, hKind⟩ := hLayout.exists_scalar_cons depth hValue
    refine ⟨c, cs, hText, ?_⟩
    rintro rfl
    cases hKind
  | array hItems =>
    obtain ⟨cs, hText⟩ := hLayout.exists_array_cons depth _
    exact ⟨'[', cs, hText, by decide⟩
  | object hMembers =>
    obtain ⟨cs, hText⟩ := hLayout.exists_object_cons depth _
    exact ⟨'\x7b', cs, hText, by decide⟩

/-- A scalar is told from every document. -/
theorem told_scalar {value : Scalar} (hValue : value.Finite) (depth : Nat) :
    Told (write depth) Finite (.ofScalar value) := by
  intro b r s hb hr hs hText
  obtain ⟨c, cs, hCons, hKind⟩ := hLayout.exists_scalar_cons depth hValue
  cases hb with
  | scalar hValue' =>
    rw [hLayout.scalar, hLayout.scalar] at hText
    obtain ⟨rfl, rfl⟩ := Scalar.separate (Or.inr rfl) exists_quoted_cons selfDelimiting_quoted
      hValue hValue' hr.isMark hs.isMark hText
    exact ⟨rfl, rfl⟩
  | array hItems =>
    obtain ⟨ds, hOther⟩ := hLayout.exists_array_cons depth _
    rw [hCons, hOther] at hText
    rw [(List.cons.inj hText).1] at hKind
    cases hKind
  | object hMembers =>
    obtain ⟨ds, hOther⟩ := hLayout.exists_object_cons depth _
    rw [hCons, hOther] at hText
    rw [(List.cons.inj hText).1] at hKind
    cases hKind

/-- An array is told from every document if its items are. -/
theorem told_array {items : List Json} (hItems : ∀ item ∈ items, Finite item) (depth : Nat)
    (hTold : ∀ item ∈ items, Told (write (depth + 1)) Finite item) :
    Told (write depth) Finite (.array items) := by
  intro b r s hb hr hs hText
  obtain ⟨cs, hCons⟩ := hLayout.exists_array_cons depth items
  cases hb with
  | scalar hValue =>
    obtain ⟨d, ds, hOther, hKind⟩ := hLayout.exists_scalar_cons depth hValue
    rw [hCons, hOther] at hText
    rw [← (List.cons.inj hText).1] at hKind
    cases hKind
  | array hItems' =>
    rw [hLayout.array, hLayout.array] at hText
    obtain ⟨rfl, rfl⟩ := bracketed_append_inj (hLayout.isGap depth) (Or.inl rfl)
      (hLayout.isGap (depth + 1)) hTold hItems'
      (fun item hItem => hLayout.exists_cons_ne (depth + 1)
        (hItem.elim (hItems item) (hItems' item))) hText
    exact ⟨rfl, rfl⟩
  | object hMembers =>
    obtain ⟨ds, hOther⟩ := hLayout.exists_object_cons depth _
    rw [hCons, hOther] at hText
    cases (List.cons.inj hText).1

/-- An object is told from every document if the values of its members are. -/
theorem told_object {members : List (String × Json)} (depth : Nat)
    (hTold : ∀ member ∈ members, Told (write (depth + 1)) Finite member.2) :
    Told (write depth) Finite (.object members) := by
  intro b r s hb hr hs hText
  obtain ⟨cs, hCons⟩ := hLayout.exists_object_cons depth members
  cases hb with
  | scalar hValue =>
    obtain ⟨d, ds, hOther, hKind⟩ := hLayout.exists_scalar_cons depth hValue
    rw [hCons, hOther] at hText
    rw [← (List.cons.inj hText).1] at hKind
    cases hKind
  | array hItems =>
    obtain ⟨ds, hOther⟩ := hLayout.exists_array_cons depth _
    rw [hCons, hOther] at hText
    cases (List.cons.inj hText).1
  | object hMembers =>
    rw [hLayout.object, hLayout.object] at hText
    -- The name of a member ends at its quote, and its value as any document does.
    have hMember : ∀ member ∈ members, Told (fun member : String × Json =>
        (quoted member.1).toList ++ colon ++ write (depth + 1) member.2) (fun m => m.2.Finite)
        member := by
      intro member hMember other r s hOther hr hs hText
      simp only [List.append_assoc] at hText
      obtain ⟨hName, hRest⟩ := selfDelimiting_quoted hText
      obtain ⟨hValue, hRest⟩ := hTold member hMember hOther hr hs (List.append_cancel_left hRest)
      exact ⟨Prod.ext hName hValue, hRest⟩
    have hHead : ∀ member : String × Json, ∃ c cs,
        (quoted member.1).toList ++ colon ++ write (depth + 1) member.2 = c :: cs ∧ '\x7d' ≠ c := by
      intro member
      obtain ⟨cs, hQuote⟩ := exists_quoted_cons member.1
      rw [hQuote]
      exact ⟨'"', _, rfl, by decide⟩
    obtain ⟨rfl, rfl⟩ := bracketed_append_inj (hLayout.isGap depth) (Or.inr rfl)
      (hLayout.isGap (depth + 1)) hMember hMembers (fun member _ => hHead member) hText
    exact ⟨rfl, rfl⟩

/-- A document and what follows it can be told from the text. -/
theorem separate {a : Json} (ha : a.Finite) : ∀ depth, Told (write depth) Finite a := by
  induction ha with
  | scalar hValue => exact hLayout.told_scalar hValue
  | array hItems ih =>
    exact fun depth => hLayout.told_array hItems depth fun item hItem => ih item hItem (depth + 1)
  | object hMembers ih =>
    exact fun depth => hLayout.told_object depth fun member hMember => ih member hMember (depth + 1)

/-- A document can be told from its text. -/
theorem inj (depth : Nat) {a b : Json} (ha : a.Finite) (hb : b.Finite)
    (hText : write depth a = write depth b) : a = b := by
  have hEnd : Stops [] := fun c hc => by cases hc
  exact (hLayout.separate ha depth hb hEnd hEnd (by rw [hText])).1

end Layout

/-! ## The written forms -/

/-- Entries with a comma and a gap between them. -/
theorem intercalate_cons (gap : List Char) (entry : List Char) (entries : List (List Char)) :
    (',' :: gap).intercalate (entry :: entries) =
      entry ++ entries.flatMap fun entry => ',' :: (gap ++ entry) := by
  induction entries generalizing entry with
  | nil => simp
  | cons next entries ih => simp [List.intercalate_cons_cons, ih]

theorem further_eq (inner outer : List Char) (closing : Char) (entries : List (List Char)) :
    further inner outer closing entries =
      entries.flatMap (fun entry => ',' :: (inner ++ entry)) ++ (outer ++ [closing]) := by
  induction entries with
  | nil => rfl
  | cons entry entries ih => simp [further, ih]

theorem compactItems_eq (items : List Json) : compactItems items = items.map compact := by
  induction items with
  | nil => simp [compactItems]
  | cons item items ih => simp [compactItems, ih]

theorem compactMembers_eq (members : List (String × Json)) :
    compactMembers members =
      members.map fun member => quoted member.1 ++ ":" ++ compact member.2 := by
  induction members with
  | nil => simp [compactMembers]
  | cons member members ih =>
    obtain ⟨name, value⟩ := member
    simp [compactMembers, compactMember, ih]

/-- The compact form is the layout without space. -/
theorem compact_layout :
    Layout (fun _ document => document.compact.toList) (fun _ => []) [':'] where
  isGap _ := fun c hc => by cases hc
  scalar _ value := by cases value <;> rw [ofScalar, compact] <;> rfl
  array _ items := by
    rw [compact, compactItems_eq]
    cases items with
    | nil => rfl
    | cons item items =>
      simp [bracketed, further_eq, String.toList_intercalate, intercalate_cons, List.flatMap_map]
  object _ members := by
    rw [compact, compactMembers_eq]
    cases members with
    | nil => rfl
    | cons member members =>
      simp [bracketed, further_eq, String.toList_intercalate, intercalate_cons, List.flatMap_map]

theorem prettyItems_eq (depth : Nat) (items : List Json) :
    prettyItems depth items = items.map (prettyAt (depth + 1)) := by
  induction items with
  | nil => simp [prettyItems]
  | cons item items ih => simp [prettyItems, ih]

theorem prettyMembers_eq (depth : Nat) (members : List (String × Json)) :
    prettyMembers depth members =
      members.map fun member => quoted member.1 ++ ": " ++ prettyAt (depth + 1) member.2 := by
  induction members with
  | nil => simp [prettyMembers]
  | cons member members ih =>
    obtain ⟨name, value⟩ := member
    simp [prettyMembers, prettyMember, ih]

/-- A block is its entries between brackets. -/
theorem toList_block (opening closing : Char) (depth : Nat) (entries : List String) :
    (block (String.singleton opening) (String.singleton closing) depth entries).toList =
      bracketed (lineBreak (depth + 1)).toList (lineBreak depth).toList opening closing
        (entries.map String.toList) := by
  cases entries with
  | nil => simp [block, bracketed]
  | cons entry entries =>
    simp [block, bracketed, further_eq, String.toList_intercalate, intercalate_cons]

/-- The form over several lines is the layout with a line break before every
entry. -/
theorem pretty_layout : Layout (fun depth document => (prettyAt depth document).toList)
    (fun depth => (lineBreak depth).toList) [':', ' '] where
  isGap depth := by
    intro c hc
    simp [lineBreak] at hc
    exact hc.symm
  scalar _ value := by cases value <;> rw [ofScalar, prettyAt] <;> rfl
  array depth items := by
    rw [prettyAt, prettyItems_eq]
    exact (toList_block '[' ']' depth _).trans (by simp [Function.comp_def])
  object depth members := by
    rw [prettyAt, prettyMembers_eq]
    exact (toList_block '\x7b' '\x7d' depth _).trans (by simp [Function.comp_def])

/-- Documents with the same compact form are equal. -/
theorem compact_inj {a b : Json} (ha : a.Finite) (hb : b.Finite) (hText : a.compact = b.compact) :
    a = b :=
  compact_layout.inj 0 ha hb (congrArg String.toList hText)

/-- Documents with the same form over several lines are equal. -/
theorem pretty_inj {a b : Json} (ha : a.Finite) (hb : b.Finite) (hText : a.pretty = b.pretty) :
    a = b :=
  pretty_layout.inj 0 ha hb (congrArg String.toList hText)

end SqlQuery.Json
