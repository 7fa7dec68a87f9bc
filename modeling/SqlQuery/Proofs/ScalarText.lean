import SqlQuery.Proofs.NumberForms
import SqlQuery.Proofs.QuotedText

/-!
# Scalars can be told by their texts

Outlines and documents write the values that have no parts in the same manner:
the missing value and the truth values as words, numbers with their marks, and
texts between quotes.  They differ in the style of floating-point numbers and
in the escapes of quoted texts, which are parameters here.

The first character of a scalar shows its kind.  Words and quoted texts show
where they end, and a number ends before the first character that is no mark.

## Main definitions

* `Scalar` — a value without parts.
* `Scalar.write` — its text.

## Main results

* `Scalar.separate` — a scalar and what follows it can be told from the text,
  if the numbers are finite.
-/

namespace SqlQuery

/-- A value without parts. -/
inductive Scalar where
  | null
  | boolean (value : Bool)
  | integer (value : Int)
  | float (value : Number.Binary64)
  | text (value : String)

namespace Scalar

/-- The text of a scalar, in a style of numbers and with a way to quote. -/
def write (style : Number.Style) (quote : String → List Char) : Scalar → List Char
  | .null => "null".toList
  | .boolean value => (toString value).toList
  | .integer value => (toString value).toList
  | .float value => (style.text value).toList
  | .text value => quote value

/-- A scalar that, if it is a floating-point number, is finite. -/
def Finite : Scalar → Prop
  | .float value => value.isFinite = true
  | _ => True

/-- The kinds of scalars that the first character tells apart. -/
inductive Kind where
  | null | boolean | number | text
deriving DecidableEq

/-- The kind of a scalar. -/
def kind : Scalar → Kind
  | .null => .null
  | .boolean _ => .boolean
  | .integer _ | .float _ => .number
  | .text _ => .text

/-- The kind of the scalars that begin with a character. -/
def kindOf (c : Char) : Option Kind :=
  if Number.isMark c then some .number
  else if c = 'n' then some .null
  else if c = 't' ∨ c = 'f' then some .boolean
  else if c = '"' then some .text
  else none

variable {style : Number.Style} {quote : String → List Char}
  (hPlus : style.plus = "" ∨ style.plus = "+") (hHead : ∀ s, ∃ cs, quote s = '"' :: cs)

/-- A text of marks is a number. -/
theorem exists_cons_of_isMark {text : List Char} (hNe : text ≠ [])
    (hMarks : ∀ c ∈ text, Number.isMark c = true) :
    ∃ c cs, text = c :: cs ∧ kindOf c = some .number := by
  obtain ⟨c, cs, rfl⟩ := List.exists_cons_of_ne_nil hNe
  exact ⟨c, cs, rfl, by rw [kindOf, hMarks c (by simp), if_pos rfl]⟩

include hPlus hHead in
/-- The first character of a scalar shows its kind. -/
theorem exists_cons {scalar : Scalar} (hFinite : scalar.Finite) :
    ∃ c cs, scalar.write style quote = c :: cs ∧ kindOf c = some scalar.kind := by
  cases scalar with
  | null => exact ⟨'n', _, rfl, rfl⟩
  | boolean value =>
    cases value
    · exact ⟨'f', _, rfl, rfl⟩
    · exact ⟨'t', _, rfl, rfl⟩
  | integer value =>
    exact exists_cons_of_isMark (Number.toString_ne_nil value) (Number.isMark_of_mem_toString value)
  | float value =>
    have hFloating := Number.Style.isFloating_text hPlus hFinite
    have hNe : (style.text value).toList ≠ [] := by
      intro hNil
      rw [hNil] at hFloating
      cases hFloating
    exact exists_cons_of_isMark hNe (Number.Style.isMark_of_mem_text hPlus hFinite)
  | text value =>
    obtain ⟨cs, hText⟩ := hHead value
    exact ⟨'"', cs, hText, rfl⟩

include hPlus hHead in
/-- Scalars with the same text have the same kind. -/
theorem kind_eq {a b : Scalar} {r s : List Char} (ha : a.Finite) (hb : b.Finite)
    (hText : a.write style quote ++ r = b.write style quote ++ s) : a.kind = b.kind := by
  obtain ⟨c, cs, hA, hKindA⟩ := exists_cons hPlus hHead ha
  obtain ⟨d, ds, hB, hKindB⟩ := exists_cons hPlus hHead hb
  rw [hA, hB, List.cons_append, List.cons_append] at hText
  rw [(List.cons.inj hText).1, hKindB] at hKindA
  exact (Option.some.inj hKindA).symm

include hPlus hHead in
/-- A scalar and what follows it can be told from the text, provided that no mark
follows. -/
theorem separate (hQuote : SelfDelimiting quote) {a b : Scalar} {r s : List Char} (ha : a.Finite)
    (hb : b.Finite) (hr : ∀ c ∈ r.head?, Number.isMark c = false)
    (hs : ∀ c ∈ s.head?, Number.isMark c = false)
    (hText : a.write style quote ++ r = b.write style quote ++ s) : a = b ∧ r = s := by
  have hKind := kind_eq hPlus hHead ha hb hText
  cases a with
  | null =>
    cases b <;> cases hKind
    exact ⟨rfl, List.append_cancel_left hText⟩
  | boolean value =>
    cases b <;> cases hKind
    next value' =>
    cases value <;> cases value'
    · exact ⟨rfl, List.append_cancel_left hText⟩
    · cases (List.cons.inj hText).1
    · cases (List.cons.inj hText).1
    · exact ⟨rfl, List.append_cancel_left hText⟩
  | integer value =>
    have hMarks := Number.isMark_of_mem_toString value
    cases b <;> cases hKind
    · next value' =>
      obtain ⟨hNumber, hRest⟩ :=
        append_inj_of_forall hMarks (Number.isMark_of_mem_toString value') hr hs hText
      exact ⟨congrArg _ (Number.toString_inj (String.toList_injective hNumber)), hRest⟩
    · next value' =>
      obtain ⟨hNumber, -⟩ :=
        append_inj_of_forall hMarks (Number.Style.isMark_of_mem_text hPlus hb) hr hs hText
      exact absurd (String.toList_injective hNumber).symm
        (Number.Style.text_ne_toString hPlus hb value)
  | float value =>
    have hMarks := Number.Style.isMark_of_mem_text hPlus ha
    cases b <;> cases hKind
    · next value' =>
      obtain ⟨hNumber, -⟩ :=
        append_inj_of_forall hMarks (Number.isMark_of_mem_toString value') hr hs hText
      exact absurd (String.toList_injective hNumber)
        (Number.Style.text_ne_toString hPlus ha value')
    · next value' =>
      obtain ⟨hNumber, hRest⟩ :=
        append_inj_of_forall hMarks (Number.Style.isMark_of_mem_text hPlus hb) hr hs hText
      exact ⟨congrArg _ (Number.Style.text_inj hPlus ha hb (String.toList_injective hNumber)),
        hRest⟩
  | text value =>
    cases b <;> cases hKind
    obtain ⟨rfl, rfl⟩ := hQuote hText
    exact ⟨rfl, rfl⟩

end Scalar

end SqlQuery
