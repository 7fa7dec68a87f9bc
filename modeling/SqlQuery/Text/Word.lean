import SqlQuery.Text.Alphabetic
import SqlQuery.Text.Numeric

/-!
# Blanks, word characters and letter case

The three character classes that divide a query into words.

* A **blank** has the property `White_Space` of the Unicode standard.  Blanks
  separate tokens and the words of a keyword phrase.
* A word **starts** with a letter or an underscore and **continues** with
  letters, numbers and underscores.
* Letter case is compared for ASCII letters only; every other character is
  equal to itself alone.
-/

namespace SqlQuery.Text

/-- The code points with the property `White_Space`. -/
def blankRanges : RangeTable where
  ranges := [
    (0x9, 0xD), (0x20, 0x20), (0x85, 0x85), (0xA0, 0xA0), (0x1680, 0x1680), (0x2000, 0x200A),
    (0x2028, 0x2029), (0x202F, 0x202F), (0x205F, 0x205F), (0x3000, 0x3000)]
  increasing_ranges := by decide +kernel

/-- Whether a character separates words. -/
def isBlank (c : Char) : Bool :=
  blankRanges.covers c.toNat

/-- Whether a character may begin a bare word. -/
def isWordStart (c : Char) : Bool :=
  isAlphabetic c || c == '_'

/-- Whether a character may continue a bare word. -/
def isWordChar (c : Char) : Bool :=
  isAlphabetic c || isNumeric c || c == '_'

theorem isWordChar_of_isWordStart {c : Char} (hStart : isWordStart c = true) :
    isWordChar c = true := by
  simp only [isWordStart, isWordChar, Bool.or_eq_true] at *
  rcases hStart with h | h
  · exact Or.inl (Or.inl h)
  · exact Or.inr h

/-- Whether two texts differ at most in the case of ASCII letters. -/
def sameWord (a b : List Char) : Bool :=
  a.map Char.toUpper == b.map Char.toUpper

/-- The first blank-free stretch of a text. -/
def firstWord (cs : List Char) : List Char :=
  cs.takeWhile (fun c => !isBlank c)

end SqlQuery.Text
