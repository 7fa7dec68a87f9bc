import SqlQuery.Proofs.Lexemes

/-!
# Operators by their text

A node keeps its operator as a text, in the case in which it was written.
This module leads from the text back to the tokens it was made of and to the
class of the operator.

## Main definitions

* `operatorKinds` — the tokens of an operator's text.
* `operatorClass?` — the class of an operator between operands.
-/

namespace SqlQuery

/-- The texts of operators in upper case, and their tokens. -/
def operatorTable : List (String × List TokenKind) :=
  [ ("OR", [.keyword .OR]),
    ("AND", [.keyword .AND]),
    ("=", [.equal]),
    ("<>", [.notEqual]),
    ("!=", [.notEqual]),
    ("<", [.less]),
    ("<=", [.lessEqual]),
    (">", [.greater]),
    (">=", [.greaterEqual]),
    ("IS", [.keyword .IS]),
    ("IS NOT", [.keyword .IS, .keyword .NOT]),
    ("IN", [.keyword .IN]),
    ("NOT IN", [.keyword .NOT, .keyword .IN]),
    ("LIKE", [.keyword .LIKE]),
    ("NOT LIKE", [.keyword .NOT, .keyword .LIKE]),
    ("+", [.plus]),
    ("-", [.minus]),
    ("||", [.concat]),
    ("*", [.star]),
    ("/", [.slash]),
    ("%", [.percent]),
    ("NOT", [.keyword .NOT]) ]

/-- The tokens of an operator's text, in any case; none if it is no operator. -/
def operatorKinds (op : String) : List TokenKind :=
  ((operatorTable.find? fun entry => Text.sameWord entry.1.toList op.toList).map (·.2)).getD []

/-- The class of an operator between operands, by its text. -/
def operatorClass? (op : String) : Option OperatorClass :=
  match operatorKinds op with
  | [] => none
  | kind :: further => kind.infixClass? (further.headD .finish)

namespace Text

theorem sameWord_iff {a b : List Char} :
    sameWord a b = true ↔ a.map Char.toUpper = b.map Char.toUpper :=
  beq_iff_eq

theorem sameWord_append {a b c d : List Char} (hFirst : sameWord a c = true)
    (hSecond : sameWord b d = true) : sameWord (a ++ b) (c ++ d) = true := by
  rw [sameWord_iff] at *
  rw [List.map_append, List.map_append, hFirst, hSecond]

theorem sameWord_refl (a : List Char) : sameWord a a = true := sameWord_iff.2 rfl

end Text

/-- The case of an operator's text does not matter. -/
theorem operatorKinds_eq_of_sameWord {op other : String}
    (hSame : Text.sameWord op.toList other.toList = true) :
    operatorKinds other = operatorKinds op := by
  rw [Text.sameWord_iff] at hSame
  unfold operatorKinds Text.sameWord
  rw [hSame]

/-! ## Operators of genuine glyphs -/

namespace Glyph

variable {glyph second : Glyph}

/-- A keyword of one word is spelled like that word. -/
theorem Genuine.sameWord {word : Keyword} {single text : String}
    (hGenuine : Genuine ⟨.keyword word, text⟩) (hSingle : word.words = [single]) :
    Text.sameWord single.toList text.toList = true :=
  hGenuine single hSingle

/-- The text of an operator of one token leads back to the token. -/
theorem Genuine.operatorKinds_eq {kind : TokenKind} {text : String}
    (hGenuine : Genuine ⟨kind, text⟩) {operator : OperatorClass}
    (hClass : operator.isSimple = true ∧ kind.infixClass? .finish = some operator ∨
      kind.prefixClass? = some operator) :
    operatorKinds text = [kind] := by
  have hKind : kind ∈ [.keyword .OR, .keyword .AND, .keyword .NOT, .equal, .notEqual, .less,
      .lessEqual, .greater, .greaterEqual, .plus, .minus, .concat, .star, .slash, .percent] := by
    rcases hClass with ⟨hSimple, hClass⟩ | hClass
    · unfold TokenKind.infixClass? at hClass
      split at hClass <;> cases hClass <;> first | decide | cases hSimple
    · unfold TokenKind.prefixClass? at hClass
      split at hClass <;> cases hClass <;> decide
  simp only [List.mem_cons, List.not_mem_nil, or_false] at hKind
  rcases hKind with rfl | rfl | rfl | rfl | rfl | rfl | rfl | rfl | rfl | rfl | rfl | rfl | rfl |
    rfl | rfl
  · exact operatorKinds_eq_of_sameWord (hGenuine.sameWord rfl)
  · exact operatorKinds_eq_of_sameWord (hGenuine.sameWord rfl)
  · exact operatorKinds_eq_of_sameWord (hGenuine.sameWord rfl)
  all_goals
    simp only [Genuine, TokenKind.spellings, List.mem_cons, List.not_mem_nil, or_false] at hGenuine
  · subst hGenuine; decide
  · rcases hGenuine with rfl | rfl <;> decide
  all_goals subst hGenuine; decide

/-- The text of an operator that may be negated leads back to its tokens. -/
theorem operatorKinds_of_negatableWord {word : Keyword} {negated : Bool} {op : String}
    {gs hs : List Glyph} (hWord : NegatableWord word negated op gs hs)
    (hGenuine : ∀ glyph ∈ gs, glyph.Genuine) {single : String} (hSingle : word.words = [single])
    {kinds : List TokenKind}
    (hKinds : operatorKinds (if negated then "NOT " ++ single else single) = kinds) :
    operatorKinds op = kinds := by
  rw [← hKinds]
  cases hWord with
  | plain => exact operatorKinds_eq_of_sameWord ((hGenuine _ List.mem_cons_self).sameWord hSingle)
  | negated =>
    have hNot :=
      (hGenuine _ List.mem_cons_self).sameWord (show Keyword.NOT.words = ["NOT"] from rfl)
    have hOther :=
      (hGenuine _ (List.mem_cons_of_mem _ List.mem_cons_self)).sameWord hSingle
    refine operatorKinds_eq_of_sameWord ?_
    simp only [if_true, String.toList_append]
    exact Text.sameWord_append (Text.sameWord_append hNot (Text.sameWord_refl _)) hOther

end Glyph

/-! ## Genuine lists -/

/-- Every glyph of a list is genuine. -/
def Glyph.AllGenuine (gs : List Glyph) : Prop := ∀ glyph ∈ gs, glyph.Genuine

namespace Glyph.AllGenuine

variable {gs hs : List Glyph} {glyph : Glyph}

theorem of_suffix (hGenuine : AllGenuine gs) (hSuffix : hs <:+ gs) : AllGenuine hs :=
  fun glyph hMem => hGenuine glyph (hSuffix.subset hMem)

theorem head (hGenuine : AllGenuine (glyph :: gs)) : glyph.Genuine :=
  hGenuine glyph List.mem_cons_self

theorem tail (hGenuine : AllGenuine (glyph :: gs)) : AllGenuine gs :=
  hGenuine.of_suffix (List.suffix_cons glyph gs)

theorem of_derives {dialect : Dialect} {construct : Construct} (hGenuine : AllGenuine gs)
    (hDerives : Derives dialect construct gs hs) : AllGenuine hs :=
  hGenuine.of_suffix hDerives.suffix

end Glyph.AllGenuine

end SqlQuery
