import SqlQuery.Token

/-!
# Token rules

A rule recognises one sort of token: a pattern that says how much text
belongs to it, and a reading that says what the text stands for.  Rules are
plain values, so that a dialect can add its own to those it builds upon.

Lengths here count characters.
-/

namespace SqlQuery

/-- How a rule recognises its text. -/
inductive Pattern where
  /-- Words in any case with blanks between them, not followed by a word
  character. -/
  | words (list : List String)
  /-- A fixed text. -/
  | literal (text : String)
  /-- A scanner; a length of zero counts as no match. -/
  | scan (length? : List Char → Option Nat)

namespace Pattern

/-- The length of `word` if the text starts with it, in any case. -/
def wordLength? (word cs : List Char) : Option Nat :=
  let candidate := cs.take word.length
  if Text.sameWord word candidate then some word.length else none

/-- Whether a text starts with a character that would continue a word. -/
def continuesWord (cs : List Char) : Bool :=
  match cs with
  | [] => false
  | c :: _ => Text.isWordChar c

/-- The length of the blanks and words that complete a phrase: each word after
at least one blank, and no word character after the last. -/
def furtherWordsLength? : List String → List Char → Option Nat
  | [], cs => if continuesWord cs then none else some 0
  | word :: rest, cs =>
    let gap := (cs.takeWhile Text.isBlank).length
    if gap = 0 then none
    else do
      let length ← wordLength? word.toList (cs.drop gap)
      let further ← furtherWordsLength? rest (cs.drop (gap + length))
      some (gap + length + further)

/-- The length of a phrase at the start of a text. -/
def wordsLength? : List String → List Char → Option Nat
  | [], cs => furtherWordsLength? [] cs
  | word :: rest, cs => do
    let length ← wordLength? word.toList cs
    let further ← furtherWordsLength? rest (cs.drop length)
    some (length + further)

/-- The number of characters that the pattern matches at the start of a
text. -/
def length? (pattern : Pattern) (cs : List Char) : Option Nat :=
  match pattern with
  | .words list => wordsLength? list cs
  | .literal text => if text.toList.isPrefixOf cs then some text.length else none
  | .scan length? => (length? cs).filter fun length => Nat.blt 0 length

/-- The number of bytes that the pattern matches at the start of a text. -/
def byteLength? (pattern : Pattern) (cs : List Char) : Option Nat :=
  (pattern.length? cs).map fun length => Text.byteLength (cs.take length)

/-- Whether the pattern is a phrase of two or more words that starts with
`word`. -/
def opensWith (pattern : Pattern) (word : List Char) : Bool :=
  match pattern with
  | .words (first :: _ :: _) => Text.sameWord first.toList word
  | _ => false

end Pattern

/-- What a rule makes of the text it matched. -/
inductive Reading where
  /-- The same kind for every text. -/
  | fixed (kind : TokenKind)
  /-- A kind computed from the text, or a rejection of it. -/
  | computed (read : List Char → Option TokenKind)

/-- The kind for a matched text, if it is accepted. -/
def Reading.apply (reading : Reading) (cs : List Char) : Option TokenKind :=
  match reading with
  | .fixed kind => some kind
  | .computed read => read cs

/-- A rule of the lexer. -/
structure TokenRule where
  /-- The rule's name, by which a later rule replaces it. -/
  name : String
  /-- Rules of higher priority are tried first. -/
  priority : Nat
  pattern : Pattern
  reading : Reading

namespace TokenRule

/-- The rule for a keyword phrase. -/
def phrase (name : String) (priority : Nat) (words : List String) (keyword : Keyword) :
    TokenRule :=
  ⟨name, priority, .words words, .fixed (.keyword keyword)⟩

/-- The rule for a punctuation mark. -/
def symbol (name : String) (priority : Nat) (text : String) (kind : TokenKind) : TokenRule :=
  ⟨name, priority, .literal text, .fixed kind⟩

/-- The rule for a sort of token with a scanner and a reader. -/
def scanned (name : String) (priority : Nat) (length? : List Char → Option Nat)
    (read : List Char → Option TokenKind) : TokenRule :=
  ⟨name, priority, .scan length?, .computed read⟩

/-- The text that the rule matches at the start of `cs`, and its kind; a
matched text without a kind is rejected. -/
def match? (rule : TokenRule) (cs : List Char) : Option (List Char × Option TokenKind) :=
  (rule.pattern.length? cs).map fun length =>
    let lexeme := cs.take length
    (lexeme, rule.reading.apply lexeme)

end TokenRule

end SqlQuery
