/-!
# Byte ranges of a query text

Positions are counted in the bytes of the text's UTF-8 form.  The lexer walks
over characters and carries the byte position along, so a text's length in
bytes is a measure on its characters.
-/

namespace SqlQuery

namespace Text

/-- The number of bytes of a text. -/
def byteLength (cs : List Char) : Nat :=
  cs.foldr (fun c total => c.utf8Size + total) 0

@[simp] theorem byteLength_nil : byteLength [] = 0 := rfl

@[simp] theorem byteLength_cons (c : Char) (cs : List Char) :
    byteLength (c :: cs) = c.utf8Size + byteLength cs := rfl

@[simp] theorem byteLength_append (a b : List Char) :
    byteLength (a ++ b) = byteLength a + byteLength b := by
  induction a with
  | nil => simp
  | cons c cs ih =>
    simp only [List.cons_append, byteLength_cons, ih]
    omega

/-- A text that is not empty has at least one byte. -/
theorem byteLength_pos_of_ne_nil {cs : List Char} (hNe : cs ≠ []) : 0 < byteLength cs := by
  cases cs with
  | nil => exact absurd rfl hNe
  | cons c cs =>
    have := Char.utf8Size_pos c
    simp only [byteLength_cons]
    omega

/-- What follows the first `bytes` bytes of a text, unless a character
straddles that border or the text is shorter. -/
def dropBytes? : Nat → List Char → Option (List Char)
  | 0, cs => some cs
  | _ + 1, [] => none
  | bytes + 1, c :: cs =>
    if c.utf8Size ≤ bytes + 1 then dropBytes? (bytes + 1 - c.utf8Size) cs else none
termination_by structural _ cs => cs

/-- The first `bytes` bytes of a text, unless a character straddles that
border or the text is shorter. -/
def takeBytes? : Nat → List Char → Option (List Char)
  | 0, _ => some []
  | _ + 1, [] => none
  | bytes + 1, c :: cs =>
    if c.utf8Size ≤ bytes + 1 then (takeBytes? (bytes + 1 - c.utf8Size) cs).map (c :: ·)
    else none
termination_by structural _ cs => cs

/-- The bytes of a character in front of `n` others are at least one, and leave
`n` behind. -/
private theorem exists_succ_bytes (c : Char) (n : Nat) :
    ∃ bytes, c.utf8Size + n = bytes + 1 ∧ c.utf8Size ≤ bytes + 1 ∧ bytes + 1 - c.utf8Size = n := by
  have hPos := c.utf8Size_pos
  exact ⟨c.utf8Size + n - 1, by omega, by omega, by omega⟩

theorem dropBytes?_byteLength (a b : List Char) : dropBytes? (byteLength a) (a ++ b) = some b := by
  induction a with
  | nil => cases b <;> rfl
  | cons c a ih =>
    obtain ⟨bytes, hBytes, hFits, hRest⟩ := exists_succ_bytes c (byteLength a)
    rw [byteLength_cons, hBytes, List.cons_append, dropBytes?, if_pos hFits, hRest, ih]

theorem takeBytes?_byteLength (a b : List Char) : takeBytes? (byteLength a) (a ++ b) = some a := by
  induction a with
  | nil => cases b <;> rfl
  | cons c a ih =>
    obtain ⟨bytes, hBytes, hFits, hRest⟩ := exists_succ_bytes c (byteLength a)
    rw [byteLength_cons, hBytes, List.cons_append, takeBytes?, if_pos hFits, hRest, ih]
    rfl

end Text

/-- The bytes from `start` up to but not including `stop`. -/
structure Span where
  start : Nat
  stop : Nat
deriving DecidableEq, Repr

namespace Span

/-- The empty span at the beginning of a text. -/
def zero : Span := ⟨0, 0⟩

/-- The number of bytes, unless the span is reversed. -/
def length? (s : Span) : Option Nat :=
  if s.start ≤ s.stop then some (s.stop - s.start) else none

def isEmpty (s : Span) : Bool := s.start == s.stop

/-- The part of a text that the span covers, unless the span is reversed, leaves
the text or cuts a character in two. -/
def covered? (s : Span) (cs : List Char) : Option (List Char) := do
  let length ← s.length?
  let rest ← Text.dropBytes? s.start cs
  Text.takeBytes? length rest

/-- The span from the end of one part of a text to the end of the next. -/
theorem covered?_of_append (front part back : List Char) :
    covered? ⟨Text.byteLength front, Text.byteLength (front ++ part)⟩ (front ++ (part ++ back)) =
      some part := by
  have hLength : length? ⟨Text.byteLength front, Text.byteLength (front ++ part)⟩ =
      some (Text.byteLength part) := by
    simp [length?]
  rw [covered?, hLength]
  simp [Text.dropBytes?_byteLength, Text.takeBytes?_byteLength]

/-- The text that the span covers, empty where it covers none. -/
def text (s : Span) (source : String) : String :=
  String.ofList ((s.covered? source.toList).getD [])

/-- The two ends with two dots between them. -/
def describe (s : Span) : String :=
  toString s.start ++ ".." ++ toString s.stop

end Span

end SqlQuery
