import SqlQuery.Proofs.Rewriting
import SqlQuery.Proofs.Runs
import SqlQuery.Proofs.Shape

/-!
# Written leaves

The leaves of a tree are its names, its literals and its variables.  How a leaf
is written is chosen by tests of its own: an alias stands bare if it is a plain
word that begins no phrase, a text in the quotes that it does not hold.  The
lexer does not know these tests.  It tries its rules on whatever text is at
hand, and a phrase of keywords may reach beyond the leaf.

Whatever is chosen, the lexer takes the leaf for what it is, and takes no more
than the leaf, if the text behind it is at its end or goes on with a space, a
comma or a closing parenthesis.  For a bare alias this needs no look at the
words behind it, since the first word of a phrase is no plain word.

## Main definitions

* `Leaf` — the text of a leaf and the token that it stands for.

## Main results

* `Leaf.finds` — a leaf is found as its token.
* `Leaf.first_token` — a lexer at a leaf reads it whole.
-/

namespace SqlQuery

/-- The text that a leaf of a tree is written as under a dialect, and what the
token that it stands for is.  A number is a leaf where it bears no minus sign,
and a text where it does not hold both quotes. -/
inductive Leaf (dialect : Dialect) : String → TokenKind → Prop
  | aliasName {name : String} (hName : IsName name) :
    Leaf dialect (renderAlias name) (.identifier name (aliasQuote name))
  | quotedName {value : String} (hValue : IsName value) :
    Leaf dialect (Node.identifier value (some '\x60')).render (.identifier value (some '\x60'))
  | text {value : String} (hValue : '\x22' ∉ value.toList ∨ '\x27' ∉ value.toList) :
    Leaf dialect (Value.text value).render (.text value)
  | integer {value : Int64} (hValue : 0 ≤ value.toInt) :
    Leaf dialect (Value.integer value).render (.integer value)
  | float {value : Number.Binary64}
    (hValue : value.isFinite = true ∧ value.negative = false) :
    Leaf dialect (Value.float value).render (.float value)
  | userVariable {name : String} (hDialect : dialect = .mysql)
    (hName : name ≠ "" ∧ ∀ c ∈ name.toList, Text.isWordChar c = true ∨ c = '.') :
    Leaf dialect (Node.ofForm (.variableName name false)).render (.userVariable name)
  | systemVariable {name : String} (hDialect : dialect = .mysql)
    (hName : name ≠ "" ∧ ∀ c ∈ name.toList, Text.isWordChar c = true ∨ c = '.') :
    Leaf dialect (Node.ofForm (.variableName name true)).render (.systemVariable name)

namespace Leaf

variable {dialect : Dialect} {text : String} {kind : TokenKind} {tail : List Char}

/-- A variable is found as what it is. -/
theorem finds_variable {name : String} (system : Bool)
    (hName : name ≠ "" ∧ ∀ c ∈ name.toList, Text.isWordChar c = true ∨ c = '.')
    (hNeutral : Text.Neutral tail) :
    Dialect.mysql.grammar.tokens.Finds (Node.ofForm (.variableName name system)).render.toList
      tail (if system then .systemVariable name else .userVariable name) := by
  rw [Node.render_ofForm]
  refine RuleSet.Reads.finds_variable system ⟨?_, fun c hMem => ?_⟩ hNeutral
  · exact fun hNil => hName.1 (String.toList_eq_nil_iff.1 hNil)
  · rw [Token.isVariableChar, Bool.or_eq_true, beq_iff_eq]
    exact hName.2 c hMem

/-- A leaf is found as its token, in front of a text that continues no lexeme. -/
theorem finds (hLeaf : Leaf dialect text kind) (hNeutral : Text.Neutral tail) :
    dialect.grammar.tokens.Finds text.toList tail kind := by
  cases hLeaf with
  | aliasName hName => exact RuleSet.Reads.finds_alias hName.enclosable hNeutral
  | quotedName hValue =>
    rw [Node.identifier, Node.render_ofForm]
    exact RuleSet.Reads.finds_enclosed hValue.enclosable hNeutral
  | text hValue => exact RuleSet.Reads.finds_textLiteral hValue
  | integer hValue => exact RuleSet.Reads.finds_integer hValue hNeutral
  | float hValue => exact RuleSet.Reads.finds_float hValue hNeutral
  | userVariable hDialect hName =>
    subst hDialect
    exact finds_variable false hName hNeutral
  | systemVariable hDialect hName =>
    subst hDialect
    exact finds_variable true hName hNeutral

/--
**Leaves read back.**  Let a text begin with a written leaf and then be at its
end, or go on with a space, a comma or a closing parenthesis.  Then the first
token of the text is that of the leaf, it spans exactly the leaf, and the lexer
goes on with what stands behind it, whatever words these are.
-/
theorem first_token (hLeaf : Leaf dialect text kind) {rest : String}
    (hRest : ∀ c ∈ rest.toList.head?, c = ' ' ∨ c = ',' ∨ c = ')') :
    (Lexer.start dialect.grammar.tokens (text ++ rest)).next =
      (.ok ⟨kind, ⟨0, Text.byteLength text.toList⟩, text⟩,
        ⟨dialect.grammar.tokens, rest.toList, Text.byteLength text.toList⟩) := by
  have hNeutral : Text.Neutral rest.toList := by
    intro c hc
    rcases hRest c hc with rfl | rfl | rfl
    · exact Or.inl (by decide)
    · exact Or.inr (Or.inr (Or.inr rfl))
    · exact Or.inr (Or.inr (Or.inl rfl))
  have hStart : Lexer.start dialect.grammar.tokens (text ++ rest) =
      .between dialect.grammar.tokens [] (text.toList ++ rest.toList) := by
    rw [Lexer.start, String.toList_append]
    rfl
  rw [hStart, Lexer.next_between (hLeaf.finds hNeutral), Token.behind, String.ofList_toList]
  rfl

/-- The alias `left` is written in backticks, as a join may follow it. -/
theorem first_token_left :
    IsName "left" ∧ renderAlias "left" = "\x60left\x60" ∧
      (Lexer.start Dialect.mysql.grammar.tokens "\x60left\x60 JOIN b").next =
        (.ok ⟨.identifier "left" (some '\x60'), ⟨0, 6⟩, "\x60left\x60"⟩,
          ⟨Dialect.mysql.grammar.tokens, " JOIN b".toList, 6⟩) := by
  have hName : IsName "left" := ⟨by decide, by decide⟩
  have hPlain : isPlainWord "left".toList = false := by decide +kernel
  have hText : renderAlias "left" = "\x60left\x60" := by
    rw [renderAlias, hPlain]
    rfl
  have hQuote : aliasQuote "left" = some '\x60' := by
    rw [aliasQuote, hPlain]
    rfl
  have hLeaf : Leaf .mysql "\x60left\x60" (.identifier "left" (some '\x60')) := by
    rw [← hText, ← hQuote]
    exact .aliasName hName
  have hRest : ∀ c ∈ " JOIN b".toList.head?, c = ' ' ∨ c = ',' ∨ c = ')' :=
    fun c hc => Or.inl (Option.some.inj hc).symm
  exact ⟨hName, hText, @first_token .mysql _ _ hLeaf " JOIN b" hRest⟩

end Leaf

end SqlQuery
