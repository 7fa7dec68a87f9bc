import SqlQuery.Token.Literal

/-!
# Dotted names

A name is a row of parts with points between them, such as `db.tbl` or
``t.`my col` ``.  A part is a bare word or a text in backticks that is not
empty; a star may stand in place of the parts after a point and then ends the
name.  A bare word on its own that is a keyword is that keyword and no name.
-/

namespace SqlQuery.Token

/-- The character that encloses a quoted part of a name. -/
def backtick : Char := '\x60'

/-- The length of the part that a text starts with. -/
def partLength? : List Char → Option Nat
  | [] => none
  | c :: cs =>
    if c == backtick then
      (quotedLength? backtick (c :: cs)).filter fun length => Nat.blt 2 length
    else if Text.isWordStart c then some ((cs.takeWhile Text.isWordChar).length + 1)
    else none

/-- The length of what continues a name after the first `skip` characters of a
text: a point and a star, or a point and a part and what continues after
it. -/
def furtherPartsLength : Nat → List Char → Nat
  | skip + 1, _ :: cs => furtherPartsLength skip cs
  | 0, '.' :: cs =>
    if cs.head? == some '*' then 2
    else match partLength? cs with
      | some length => length + 1 + furtherPartsLength length cs
      | none => 0
  | _, _ => 0

/-- Skipping characters is reading on after them. -/
theorem furtherPartsLength_eq_drop (skip : Nat) (cs : List Char) :
    furtherPartsLength skip cs = furtherPartsLength 0 (cs.drop skip) := by
  induction cs generalizing skip with
  | nil => cases skip <;> simp [furtherPartsLength]
  | cons c cs ih =>
    cases skip with
    | zero => rfl
    | succ skip => rw [furtherPartsLength, List.drop_succ_cons, ih]

/-- The length of the name that a text starts with. -/
def nameLength? (cs : List Char) : Option Nat :=
  (partLength? cs).map fun length => length + furtherPartsLength length cs

/-- A part of a name, without its backticks. -/
structure NamePart where
  word : List Char
  quoted : Bool
deriving DecidableEq, Repr

/-- The first part of a name and what follows it; a backtick that nothing
closes makes no part. -/
def firstPart? : List Char → Option (NamePart × List Char)
  | [] => some (⟨[], false⟩, [])
  | c :: cs =>
    if c == backtick then
      match cs.dropWhile (· != backtick) with
      | [] => none
      | _ :: rest => some (⟨cs.takeWhile (· != backtick), true⟩, rest)
    else
      some (⟨(c :: cs).takeWhile (· != '.'), false⟩, (c :: cs).dropWhile (· != '.'))

/-- The parts of a name, for at most `limit` points. -/
def nameParts? : Nat → List Char → Option (List NamePart)
  | 0, cs => (firstPart? cs).map fun (part, _) => [part]
  | limit + 1, cs => do
    let (part, rest) ← firstPart? cs
    match rest with
    | '.' :: next => (nameParts? limit next).map (part :: ·)
    | _ => some [part]

/-- The kind of a name: a keyword if it is one bare word that is reserved, else
an identifier whose value holds the parts without their backticks. -/
def readName (cs : List Char) : Option TokenKind :=
  (nameParts? cs.length cs).map fun parts =>
    let quoted := parts.any (·.quoted)
    let value := List.intercalate ['.'] (parts.map (·.word))
    let keyword := match parts with
      | [part] => if quoted then none else Keyword.ofWord? part.word
      | _ => none
    match keyword with
    | some word => .keyword word
    | none => .identifier (String.ofList value) (if quoted then some backtick else none)

end SqlQuery.Token
