import SqlQuery.Text.Combining
import SqlQuery.Text.Unprintable

/-!
# Quoted text in messages and outlines

Error messages and node outlines show a text between quotes in a form that
fits on one line and can be copied without loss.  The quote in use, the
backslash, line breaks, tabs and the null character are written with a
backslash; a character that has no visible form, or that would join the
character before it, is written by its number in lower-case hexadecimal.
-/

namespace SqlQuery.Text

/-- A character by its number: `\u`, then the hexadecimal digits in braces. -/
def numbered (c : Char) : List Char :=
  '\\' :: 'u' :: '\x7b' :: Nat.toDigits 16 c.toNat ++ ['\x7d']

/-- One character of a text between two `quote` characters. -/
def escaped (quote c : Char) : List Char :=
  match c with
  | '\x00' => ['\\', '0']
  | '\t' => ['\\', 't']
  | '\r' => ['\\', 'r']
  | '\n' => ['\\', 'n']
  | '\\' => ['\\', '\\']
  | c =>
    if c == quote then ['\\', c]
    else if isCombining c || isUnprintable c then numbered c
    else [c]

/-- Characters between two `quote` characters, each in its escaped form. -/
def enclosed (quote : Char) (cs : List Char) : List Char :=
  quote :: cs.flatMap (escaped quote) ++ [quote]

/-- A text between double quotes. -/
def quoted (s : String) : String :=
  String.ofList (enclosed '"' s.toList)

/-- A character between single quotes. -/
def quotedChar (c : Char) : String :=
  String.ofList (enclosed '\x27' [c])

end SqlQuery.Text
