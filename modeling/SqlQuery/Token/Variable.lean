import SqlQuery.Token

/-!
# Variables

A user variable is an at sign and a name, a system variable two at signs and
a name.  The name consists of word characters and points in any order.
-/

namespace SqlQuery.Token

/-- Whether a character may stand in the name of a variable. -/
def isVariableChar (c : Char) : Bool :=
  Text.isWordChar c || c == '.'

/-- The number of characters at the start of a text that a variable's name may
hold. -/
def variableNameLength (cs : List Char) : Nat :=
  (cs.takeWhile isVariableChar).length

/-- The length of a system variable at the start of a text. -/
def systemVariableLength? : List Char → Option Nat
  | '@' :: '@' :: cs =>
    if variableNameLength cs = 0 then none else some (variableNameLength cs + 2)
  | _ => none

/-- The length of a user variable at the start of a text. -/
def userVariableLength? : List Char → Option Nat
  | '@' :: cs => if variableNameLength cs = 0 then none else some (variableNameLength cs + 1)
  | _ => none

/-- The kind of a system variable. -/
def readSystemVariable : List Char → Option TokenKind
  | '@' :: '@' :: name => some (.systemVariable (String.ofList name))
  | _ => none

/-- The kind of a user variable. -/
def readUserVariable : List Char → Option TokenKind
  | '@' :: name => some (.userVariable (String.ofList name))
  | _ => none

end SqlQuery.Token
