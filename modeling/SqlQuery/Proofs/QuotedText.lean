import Mathlib.Data.List.Basic
import SqlQuery.Json
import SqlQuery.Text.Quoted

/-!
# Quoted texts tell where they end

A quoted text is read character by character: what stands for one character
shows by itself how long it is, and the closing quote stands for none.  So a
longer text that begins with a quoted one determines both the quoted text and
what comes behind it, which is what lets quoted texts be followed by anything
at all in an outline or a document.

The two quoted forms differ in their escapes only, and each has a reader of one
escape here.

## Main definitions

* `SelfDelimiting` — a way of writing that shows where each value ends.

## Main results

* `SelfDelimiting.between` — escaped characters between two quotes.
* `Text.selfDelimiting_quoted`, `Text.selfDelimiting_quotedChar`,
  `Json.selfDelimiting_quoted` — the quoted forms of the library.
-/

namespace SqlQuery

/-- A run of members with a property ends where the property ends, so it can be
told from what follows it. -/
theorem append_inj_of_forall {α : Type} {p : α → Bool} {a b r s : List α}
    (ha : ∀ x ∈ a, p x = true) (hb : ∀ x ∈ b, p x = true) (hr : ∀ x ∈ r.head?, p x = false)
    (hs : ∀ x ∈ s.head?, p x = false) (hText : a ++ r = b ++ s) : a = b ∧ r = s := by
  have hRun : ∀ {a r : List α}, (∀ x ∈ a, p x = true) → (∀ x ∈ r.head?, p x = false) →
      (a ++ r).takeWhile p = a := by
    intro a r hAll hStop
    rw [List.takeWhile_append_of_pos hAll]
    cases r with
    | nil => simp
    | cons x r => rw [List.takeWhile_cons, hStop x rfl]; simp
  have hFront : a = b := by rw [← hRun ha hr, hText, hRun hb hs]
  subst hFront
  exact ⟨rfl, List.append_cancel_left hText⟩

/-- A way of writing values that shows where each of them ends: from a text that
begins with a written value, the value and the rest can be told. -/
def SelfDelimiting {α : Type} (write : α → List Char) : Prop :=
  ∀ ⦃a b : α⦄ ⦃r s : List Char⦄, write a ++ r = write b ++ s → a = b ∧ r = s

namespace SelfDelimiting

variable {α : Type} {write : α → List Char}

/-- What can be read back in front of everything is self-delimiting. -/
theorem of_read {read : List Char → Option (α × List Char)}
    (hRead : ∀ a r, read (write a ++ r) = some (a, r)) : SelfDelimiting write := by
  intro a b r s hText
  have hSame : some (a, r) = some (b, s) := by rw [← hRead a r, hText, hRead b s]
  exact Prod.mk.inj (Option.some.inj hSame)

/-- Escaped characters between two quotes, if no escape begins with the quote. -/
theorem between {escape : Char → List Char} {quote : Char} (hEscape : SelfDelimiting escape)
    (hHead : ∀ c, ∃ e es, escape c = e :: es ∧ e ≠ quote) :
    SelfDelimiting fun cs : List Char => quote :: (cs.flatMap escape ++ [quote]) := by
  intro cs ds r s hText
  simp only [List.cons_append, List.append_assoc, List.cons.injEq, true_and] at hText
  induction cs generalizing ds with
  | nil =>
    cases ds with
    | nil => exact ⟨rfl, (List.cons.inj hText).2⟩
    | cons d ds =>
      obtain ⟨e, es, hEs, hNe⟩ := hHead d
      rw [List.flatMap_cons, hEs] at hText
      exact absurd (List.cons.inj hText).1.symm hNe
  | cons c cs ih =>
    cases ds with
    | nil =>
      obtain ⟨e, es, hEs, hNe⟩ := hHead c
      rw [List.flatMap_cons, hEs] at hText
      exact absurd (List.cons.inj hText).1 hNe
    | cons d ds =>
      rw [List.flatMap_cons, List.flatMap_cons, List.append_assoc, List.append_assoc] at hText
      obtain ⟨rfl, hRest⟩ := hEscape hText
      obtain ⟨rfl, rfl⟩ := ih hRest
      exact ⟨rfl, rfl⟩

end SelfDelimiting

/-! ## Hexadecimal digits -/

namespace Text

/-- The number that a hexadecimal digit in lower case stands for. -/
def hexValue (c : Char) : Nat :=
  if c.isDigit then c.toNat - '0'.toNat else c.toNat - 'a'.toNat + 10

/-- The number that a row of hexadecimal digits stands for. -/
def hexNumber (cs : List Char) : Nat :=
  cs.foldl (fun total c => total * 16 + hexValue c) 0

theorem hexValue_digitChar {n : Nat} (hn : n < 16) : hexValue n.digitChar = n := by
  have hAll : ∀ n : Fin 16, hexValue (Nat.digitChar n) = n := by decide
  exact hAll ⟨n, hn⟩

/-- The digits of a number, one by one. -/
theorem toDigits_sixteen (n : Nat) :
    Nat.toDigits 16 n =
      (if n < 16 then [] else Nat.toDigits 16 (n / 16)) ++ [(n % 16).digitChar] := by
  rw [Nat.toDigits_eq_if (by decide)]
  split
  · rw [Nat.mod_eq_of_lt ‹_›]
    rfl
  · rfl

theorem hexNumber_toDigits (n : Nat) : hexNumber (Nat.toDigits 16 n) = n := by
  induction n using Nat.strongRecOn with
  | ind n ih =>
    have hLast := hexValue_digitChar (Nat.mod_lt n (by decide : 0 < 16))
    rw [toDigits_sixteen]
    split
    · next hSmall =>
      rw [List.nil_append]
      show 0 * 16 + hexValue (n % 16).digitChar = n
      rw [hLast, Nat.mod_eq_of_lt hSmall, Nat.zero_mul, Nat.zero_add]
    · next hLarge =>
      have hFirst := ih (n / 16) (by omega)
      rw [hexNumber, List.foldl_append]
      show hexNumber (Nat.toDigits 16 (n / 16)) * 16 + hexValue (n % 16).digitChar = n
      rw [hFirst, hLast]
      omega

/-- The digits of a number are hexadecimal digits. -/
theorem exists_digitChar_of_mem_toDigits {n : Nat} {c : Char} (hMem : c ∈ Nat.toDigits 16 n) :
    ∃ k < 16, c = k.digitChar := by
  induction n using Nat.strongRecOn with
  | ind n ih =>
    rw [toDigits_sixteen] at hMem
    rcases List.mem_append.1 hMem with hFirst | hLast
    · split at hFirst
      · exact absurd hFirst List.not_mem_nil
      · exact ih (n / 16) (by omega) hFirst
    · exact ⟨n % 16, Nat.mod_lt n (by decide), List.mem_singleton.1 hLast⟩

/-- A character outside the hexadecimal digits is not among the digits of a
number. -/
theorem not_mem_toDigits {c : Char} (hc : ∀ k : Fin 16, c ≠ Nat.digitChar k) (n : Nat) :
    c ∉ Nat.toDigits 16 n := by
  intro hMem
  obtain ⟨k, hk, hEq⟩ := exists_digitChar_of_mem_toDigits hMem
  exact hc ⟨k, hk⟩ hEq

end Text

/-! ## Texts in messages and outlines -/

namespace Text

/-- Reads one character of a quoted text. -/
def unescape : List Char → Option (Char × List Char)
  | '\\' :: '0' :: r => some ('\x00', r)
  | '\\' :: 't' :: r => some ('\t', r)
  | '\\' :: 'r' :: r => some ('\r', r)
  | '\\' :: 'n' :: r => some ('\n', r)
  | '\\' :: 'u' :: '\x7b' :: r =>
    some (Char.ofNat (hexNumber (r.takeWhile (· != '\x7d'))), (r.dropWhile (· != '\x7d')).tail)
  | '\\' :: c :: r => some (c, r)
  | c :: r => some (c, r)
  | [] => none

theorem unescape_numbered (c : Char) (r : List Char) :
    unescape (numbered c ++ r) = some (c, r) := by
  have hDigits : ∀ d ∈ Nat.toDigits 16 c.toNat, (d != '\x7d') = true := by
    intro d hMem
    rw [bne_iff_ne]
    rintro rfl
    exact not_mem_toDigits (by decide) c.toNat hMem
  have hText : numbered c ++ r =
      '\\' :: 'u' :: '\x7b' :: (Nat.toDigits 16 c.toNat ++ '\x7d' :: r) := by
    simp [numbered]
  rw [hText, unescape, List.takeWhile_append_of_pos hDigits, List.dropWhile_append_of_pos hDigits]
  simp [hexNumber_toDigits]

/-- What a character is written as. -/
theorem escaped_cases (quote c : Char) :
    escaped quote c = numbered c ∨
      (escaped quote c = [c] ∧ c ≠ '\\' ∧ c ≠ quote ∧ c ≠ '\n') ∨
      (escaped quote c = ['\\', c] ∧ (c = '\\' ∨ c = quote)) ∨
      (escaped quote c, c) ∈ [(['\\', '0'], '\x00'), (['\\', 't'], '\t'), (['\\', 'r'], '\r'),
        (['\\', 'n'], '\n')] := by
  unfold escaped
  split
  · simp
  · simp
  · simp
  · simp
  · simp
  · split
    · next hQuote => exact Or.inr (Or.inr (Or.inl ⟨rfl, Or.inr (beq_iff_eq.1 hQuote)⟩))
    · split
      · exact Or.inl rfl
      · next hQuote _ =>
        exact Or.inr (Or.inl ⟨rfl, by assumption, by simpa using hQuote, by assumption⟩)

/-- The quotes in use are no letters, so that they cannot be taken for another
escape. -/
theorem unescape_escaped {quote : Char} (hQuote : quote = '"' ∨ quote = '\x27') (c : Char)
    (r : List Char) : unescape (escaped quote c ++ r) = some (c, r) := by
  rcases escaped_cases quote c with hText | ⟨hText, hSlash, -, -⟩ | ⟨hText, hc⟩ | hMem
  · rw [hText]
    exact unescape_numbered c r
  · rw [hText]
    simp [unescape, hSlash]
  · rw [hText]
    rcases hc with rfl | rfl
    · rfl
    · rcases hQuote with rfl | rfl <;> rfl
  · simp only [List.mem_cons, List.not_mem_nil, or_false, Prod.mk.injEq] at hMem
    rcases hMem with ⟨hText, rfl⟩ | ⟨hText, rfl⟩ | ⟨hText, rfl⟩ | ⟨hText, rfl⟩ <;>
      rw [hText] <;> rfl

/-- An escape does not begin with the quote. -/
theorem exists_escaped_cons {quote : Char} (hQuote : quote ≠ '\\') (c : Char) :
    ∃ e es, escaped quote c = e :: es ∧ e ≠ quote := by
  rcases escaped_cases quote c with hText | ⟨hText, -, hNe, -⟩ | ⟨hText, -⟩ | hMem
  · exact ⟨'\\', _, hText, hQuote.symm⟩
  · exact ⟨c, [], hText, hNe⟩
  · exact ⟨'\\', _, hText, hQuote.symm⟩
  · simp only [List.mem_cons, List.not_mem_nil, or_false, Prod.mk.injEq] at hMem
    rcases hMem with ⟨hText, -⟩ | ⟨hText, -⟩ | ⟨hText, -⟩ | ⟨hText, -⟩ <;>
      exact ⟨'\\', _, hText, hQuote.symm⟩

theorem selfDelimiting_enclosed {quote : Char} (hQuote : quote = '"' ∨ quote = '\x27') :
    SelfDelimiting (enclosed quote) := by
  refine SelfDelimiting.between (.of_read (unescape_escaped hQuote)) (exists_escaped_cons ?_)
  rcases hQuote with rfl | rfl <;> decide

/-- A text between double quotes shows where it ends. -/
theorem selfDelimiting_quoted : SelfDelimiting fun s : String => (quoted s).toList := by
  intro s t r u hText
  simp only [quoted, String.toList_ofList] at hText
  obtain ⟨hChars, hRest⟩ := selfDelimiting_enclosed (Or.inl rfl) hText
  exact ⟨String.toList_injective hChars, hRest⟩

/-- A character between single quotes shows where it ends. -/
theorem selfDelimiting_quotedChar : SelfDelimiting fun c : Char => (quotedChar c).toList := by
  intro c d r u hText
  simp only [quotedChar, String.toList_ofList] at hText
  obtain ⟨hChars, hRest⟩ := selfDelimiting_enclosed (Or.inr rfl) hText
  exact ⟨(List.cons.inj hChars).1, hRest⟩

/-- What is escaped stays on its line. -/
theorem not_mem_escaped {quote : Char} (hQuote : quote ≠ '\n') (c : Char) :
    '\n' ∉ escaped quote c := by
  rcases escaped_cases quote c with hText | ⟨hText, -, -, hNe⟩ | ⟨hText, hc⟩ | hMem
  · have hDigits := not_mem_toDigits (c := '\n') (by decide) c.toNat
    simp [hText, numbered, hDigits]
  · simp [hText, hNe.symm]
  · rcases hc with rfl | rfl
    · simp [hText]
    · simp [hText, hQuote.symm]
  · simp only [List.mem_cons, List.not_mem_nil, or_false, Prod.mk.injEq] at hMem
    rcases hMem with ⟨hText, -⟩ | ⟨hText, -⟩ | ⟨hText, -⟩ | ⟨hText, -⟩ <;> simp [hText]

theorem not_mem_enclosed {quote : Char} (hQuote : quote ≠ '\n') (cs : List Char) :
    '\n' ∉ enclosed quote cs := by
  have hEscaped : ∀ c, '\n' ∉ escaped quote c := not_mem_escaped hQuote
  simp [enclosed, hQuote.symm, hEscaped]

end Text

/-! ## Texts in documents -/

namespace Json

/-- Reads one character of a quoted text. -/
def unescape : List Char → Option (Char × List Char)
  | '\\' :: 'b' :: r => some ('\x08', r)
  | '\\' :: 'f' :: r => some ('\x0c', r)
  | '\\' :: 'n' :: r => some ('\n', r)
  | '\\' :: 'r' :: r => some ('\r', r)
  | '\\' :: 't' :: r => some ('\t', r)
  | '\\' :: 'u' :: _ :: _ :: high :: low :: r =>
    some (Char.ofNat (Text.hexValue high * 16 + Text.hexValue low), r)
  | '\\' :: c :: r => some (c, r)
  | c :: r => some (c, r)
  | [] => none

theorem unescape_escaped (c : Char) (r : List Char) : unescape (escaped c ++ r) = some (c, r) := by
  unfold escaped
  split
  · rfl
  · rfl
  · rfl
  · rfl
  · rfl
  · rfl
  · rfl
  · split
    · next hSmall =>
      have hHigh := Text.hexValue_digitChar (n := c.toNat / 16 % 16) (by omega)
      have hLow := Text.hexValue_digitChar (n := c.toNat % 16) (by omega)
      have hNumber : c.toNat / 16 % 16 * 16 + c.toNat % 16 = c.toNat := by omega
      show some (Char.ofNat (Text.hexValue (hexDigit (c.toNat / 16)) * 16 +
        Text.hexValue (hexDigit c.toNat)), r) = some (c, r)
      rw [hexDigit, hexDigit, hHigh, hLow, hNumber, Char.ofNat_toNat]
    · next hSlash _ _ _ _ _ _ =>
      have : c ≠ '\\' := hSlash
      simp [unescape, this]

/-- An escape does not begin with the quote. -/
theorem exists_escaped_cons (c : Char) : ∃ e es, escaped c = e :: es ∧ e ≠ '"' := by
  unfold escaped
  split
  · exact ⟨_, _, rfl, by decide⟩
  · exact ⟨_, _, rfl, by decide⟩
  · exact ⟨_, _, rfl, by decide⟩
  · exact ⟨_, _, rfl, by decide⟩
  · exact ⟨_, _, rfl, by decide⟩
  · exact ⟨_, _, rfl, by decide⟩
  · exact ⟨_, _, rfl, by decide⟩
  · next hQuote _ _ _ _ _ _ =>
    split
    · exact ⟨_, _, rfl, by decide⟩
    · exact ⟨c, [], rfl, hQuote⟩

/-- A text between double quotes shows where it ends. -/
theorem selfDelimiting_quoted : SelfDelimiting fun s : String => (quoted s).toList := by
  intro s t r u hText
  simp only [quoted, String.toList_ofList] at hText
  obtain ⟨hChars, hRest⟩ :=
    SelfDelimiting.between (.of_read unescape_escaped) exists_escaped_cons hText
  exact ⟨String.toList_injective hChars, hRest⟩

end Json

end SqlQuery
