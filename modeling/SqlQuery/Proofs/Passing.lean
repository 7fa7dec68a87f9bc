import SqlQuery.Proofs.Passage
import SqlQuery.Proofs.Pieces
import SqlQuery.Proofs.Rewriting
import SqlQuery.Proofs.Shape

/-!
# The texts of trees are passages

A text *passes* if it leads, lexeme by lexeme, to whatever neutral text stands
behind it.  Words pass, in particular those of keywords, and so do names,
literals and marks.  A tree passes if what its nodes hold themselves does, since
a space or a mark is between any two pieces of its text; and so does the text up
to any node inside it.

## Main definitions

* `Passes` — texts that lead to what stands behind them.
* `Node.Fluent` — trees of which every node holds such texts only.

## Main results

* `Node.Fluent.passes` — the text of a fluent tree passes.
* `Node.Fluent.passage_of_stands` — it leads to each node inside the tree.
-/

namespace SqlQuery

open RuleSet (nameRule)

section Passing

variable {added : RuleSet}

/-- A text that leads to any neutral text behind it. -/
def Passes (added : RuleSet) (text : List Char) : Prop :=
  ∀ tail, Text.Neutral tail → Passage added (text ++ tail) tail

/-- A text that no word runs into, and that leads to whatever is behind it. -/
structure Joins (added : RuleSet) (text : List Char) : Prop where
  neutral : ∀ tail, Text.Neutral (text ++ tail)
  passage : ∀ tail, Passage added (text ++ tail) tail

theorem joins_space : Joins added [' '] where
  neutral _ := Text.neutral_cons (Or.inl rfl)
  passage tail := .gap (.blank rfl (.none tail)) (.here tail)

/-- A mark that stands for itself. -/
theorem joins_mark {c : Char} {kind : TokenKind} (hMark : c = '(' ∨ c = ')' ∨ c = ',')
    (hFinds : ∀ tail, RuleSet.base.Finds [c] tail kind) : Joins added [c] where
  neutral _ := Text.neutral_cons (Or.inr hMark)
  passage tail := .lexeme (.of_base (hFinds tail)) (.here tail)

theorem joins_comma : Joins added [','] :=
  joins_mark (by decide) fun _ => @RuleSet.Reads.finds_simpleMark .generic _ _ _ (by decide) rfl

theorem joins_opening : Joins added ['('] :=
  joins_mark (by decide) fun _ => @RuleSet.Reads.finds_simpleMark .generic _ _ _ (by decide) rfl

theorem joins_closing : Joins added [')'] :=
  joins_mark (by decide) fun _ => @RuleSet.Reads.finds_simpleMark .generic _ _ _ (by decide) rfl

theorem Joins.append {text other : List Char} (hText : Joins added text)
    (hOther : Joins added other) : Joins added (text ++ other) where
  neutral tail := by
    rw [List.append_assoc]
    exact hText.neutral _
  passage tail := by
    rw [List.append_assoc]
    exact (hText.passage _).trans (hOther.passage tail)

namespace Passes

variable {text other middle : List Char}

theorem append (hText : Passes added text) (hMiddle : Joins added middle) :
    Passes added (text ++ middle) := by
  intro tail _
  rw [List.append_assoc]
  exact (hText _ (hMiddle.neutral tail)).trans (hMiddle.passage tail)

theorem joined (hText : Passes added text) (hMiddle : Joins added middle)
    (hOther : Passes added other) : Passes added (text ++ (middle ++ other)) := by
  intro tail hNeutral
  rw [List.append_assoc, List.append_assoc]
  exact (hText _ (hMiddle.neutral _)).trans ((hMiddle.passage _).trans (hOther tail hNeutral))

/-- A lexeme of the shared rules. -/
theorem of_finds
    (hFinds : ∀ tail, Text.Neutral tail → ∃ kind, RuleSet.base.Finds text tail kind) :
    Passes added text := by
  intro tail hNeutral
  obtain ⟨kind, hText⟩ := hFinds tail hNeutral
  exact .lexeme (.of_base hText) (.here tail)

end Passes

/-! ## Names and keywords -/

/-- A name that starts with a word is a lexeme, though a phrase may contend for
it. -/
theorem Lexeme.name {c : Char} {text tail : List Char} {kind : TokenKind}
    (hStart : Text.isWordStart c = true)
    (hMatch : nameRule.match? (c :: text ++ tail) = some (c :: text, some kind)) :
    Lexeme added (c :: text) tail kind where
  ne_nil := List.cons_ne_nil c text
  gap := Text.gapLength_of_isWordStart hStart
  found := by
    obtain ⟨-, hDigit, hSingle, hDouble, -⟩ := Dialect.other_of_isWordStart hStart
    refine Or.inr ?_
    simp only [RuleSet.lower, List.findSome?_cons, List.cons_append]
    rw [RuleSet.shuns_number hDigit, RuleSet.singleText, RuleSet.doubleText,
      RuleSet.shuns_quoted hSingle, RuleSet.shuns_quoted hDouble]
    dsimp only
    rw [← List.cons_append, hMatch]

/-- A name that starts with a word. -/
theorem Token.NameText.passes {text : List Char} {parts : List Token.NamePart}
    (hText : Token.NameText text parts) (hHead : ∀ c ∈ text.head?, Text.isWordStart c = true) :
    Passes added text := by
  intro tail hNeutral
  obtain ⟨c, cs, rfl⟩ := List.exists_cons_of_ne_nil hText.text_ne_nil
  exact .lexeme (.name (hHead c rfl)
    (RuleSet.Reads.nameRule_match? hText (Token.readName_eq hText) hNeutral)) (.here tail)

/-- A bare word. -/
def Text.IsWord : List Char → Prop
  | [] => False
  | c :: cs => isWordStart c = true ∧ ∀ d ∈ cs, isWordChar d = true

instance : DecidablePred Text.IsWord
  | [] => isFalse id
  | _ :: cs =>
    @instDecidableAnd _ _ inferInstance (List.decidableBAll (Text.isWordChar · = true) cs)

theorem Text.IsWord.of_isPhraseWord {word : String} (hWord : Pattern.IsPhraseWord word) :
    IsWord word.toList := by
  obtain ⟨hNe, hStart⟩ := hWord.of_sameWord (sameWord_refl _)
  obtain ⟨c, cs, hCons⟩ := List.exists_cons_of_ne_nil hNe
  rw [hCons] at hStart ⊢
  exact ⟨hStart c List.mem_cons_self,
    fun d hMem => isWordChar_of_isWordStart (hStart d (List.mem_cons_of_mem _ hMem))⟩

theorem Token.BareName.passes {text : List Char} (hName : Token.BareName text) :
    Passes added text := by
  obtain ⟨parts, hText, hBare, -⟩ := hName
  obtain ⟨c, cs, rfl, hStart⟩ := hText.head_of_bare hBare
  exact hText.passes fun d hd => by cases hd; exact hStart

theorem Text.IsWord.passes {word : List Char} (hWord : Text.IsWord word) : Passes added word := by
  cases word with
  | nil => exact hWord.elim
  | cons c cs =>
    exact (Token.NameText.single (.bare hWord.1 hWord.2)).passes fun d hd => by
      cases hd; exact hWord.1

theorem passes_enclose {value : String}
    (hValue : value.toList ≠ [] ∧ Token.backtick ∉ value.toList) :
    Passes added (enclose value (some Token.backtick)).toList :=
  .of_finds fun _ hNeutral => ⟨_, @RuleSet.Reads.finds_enclosed .generic _ _ hValue hNeutral⟩

/-- Texts with a separator between them. -/
theorem passes_intercalate {separator first : String} {further : List String}
    (hSeparator : Joins added separator.toList) (hFirst : Passes added first.toList)
    (hFurther : ∀ text ∈ further, Passes added text.toList) :
    Passes added (separator.intercalate (first :: further)).toList := by
  induction further generalizing first with
  | nil => simpa using hFirst
  | cons second further ih =>
    obtain ⟨hSecond, hFurther⟩ := List.forall_mem_cons.1 hFurther
    rw [String.intercalate_cons_cons, String.toList_append, String.toList_append, List.append_assoc]
    exact hFirst.joined hSeparator (ih hSecond hFurther)

theorem Keyword.passes_spelling (word : Keyword) : Passes added word.spelling.toList := by
  have hWord : ∀ single ∈ word.words, Passes added single.toList := fun single hMem =>
    (Text.IsWord.of_isPhraseWord (Keyword.isPhraseWord_of_mem hMem)).passes
  have hNe : word.words ≠ [] := by cases word <;> decide
  obtain ⟨first, further, hWords⟩ := List.exists_cons_of_ne_nil hNe
  rw [Keyword.spelling, hWords]
  rw [hWords] at hWord
  exact passes_intercalate joins_space (hWord first List.mem_cons_self)
    fun text hMem => hWord text (List.mem_cons_of_mem _ hMem)

/-- A keyword that is found before one text passes before every neutral one. -/
theorem TokenRule.IsVerbal.passes {rule : TokenRule} {words : List String} {keyword : Keyword}
    (hVerbal : rule.IsVerbal words keyword) (hRule : added.IsWording rule) {text tail : List Char}
    {kind : TokenKind} (hGap : Text.gapLength (text ++ tail) = 0)
    (hMatch : rule.match? (text ++ tail) = some (text, some kind)) : Passes added text := by
  intro tail' hNeutral
  obtain ⟨c, cs, rfl⟩ := List.exists_cons_of_ne_nil (hVerbal.lexeme_ne_nil hMatch)
  have hStop : Pattern.continuesWord tail' = false :=
    Pattern.continuesWord_eq_false_iff.2 fun d hd => hNeutral.isWordChar_head hd
  have hGap' : Text.gapLength (c :: cs ++ tail') = 0 :=
    Text.gapLength_congr hGap fun d hd =>
      ⟨hNeutral.ne_head hd (by decide), hNeutral.ne_head hd (by decide)⟩
  have hMatch' := hVerbal.match?_append hMatch hStop
  exact .lexeme ⟨List.cons_ne_nil c cs, hGap', Or.inl ⟨rule, hRule, hMatch'⟩⟩ (.here tail')

/-! ## Literals and marks -/

theorem passes_number {text : List Char} {kind : TokenKind}
    (hLength : ∀ tail, Text.Neutral tail → Token.numberLength? (text ++ tail) = some text.length)
    (hRead : Token.readNumber text = some kind) : Passes added text :=
  .of_finds fun tail hNeutral =>
    ⟨kind, @RuleSet.Reads.finds_number .generic _ _ _ (hLength tail hNeutral) hRead⟩

theorem passes_integer {value : Int64} (hValue : 0 ≤ value.toInt) :
    Passes added (toString value.toInt).toList :=
  .of_finds fun _ hNeutral => ⟨_, @RuleSet.Reads.finds_integer .generic _ _ hValue hNeutral⟩

theorem passes_mark {kind : TokenKind} {text : String} (hText : text ∈ kind.spellings) :
    Passes added text.toList :=
  .of_finds fun _ hNeutral =>
    ⟨kind, @RuleSet.Reads.finds_mark .generic _ _ _ hText hNeutral⟩

/-- The literals that a text can hold. -/
theorem Value.passes_render {value : Value} (hRegular : value.Regular) :
    Passes added value.render.toList := by
  cases value with
  | null => exact hRegular.elim
  | boolean truth =>
    cases truth
    · exact Keyword.passes_spelling .FALSE
    · exact Keyword.passes_spelling .TRUE
  | integer value => exact passes_integer hRegular
  | float value =>
    exact passes_number (fun _ => Token.numberLength?_literal hRegular.1 hRegular.2)
      (Token.readNumber_literal hRegular.1 hRegular.2)
  | text value =>
    exact .of_finds fun tail _ =>
      ⟨_, @RuleSet.Reads.finds_textLiteral .generic _ _ (not_and_or.1 hRegular)⟩

/-- An alias is written as a word or in backticks. -/
theorem passes_renderAlias {name : String} (hName : IsName name) :
    Passes added (renderAlias name).toList := by
  rw [renderAlias]
  split
  · next hPlain => exact (bareName_of_isPlainWord hPlain).1.passes
  · exact passes_enclose hName.enclosable

/-! ## Rows of pieces -/

namespace Piece

variable {α : Type} {render : α → String} {piece : Piece α} {left right : List (Piece α)}
  {tail : List Char}

theorem joins_of_isLoose (hLoose : piece.isLoose = true) : Joins added (piece.chars render) := by
  cases piece with
  | space => exact joins_space
  | comma => exact joins_comma
  | opening => exact joins_opening
  | closing => exact joins_closing
  | _ => cases hLoose

/-- No word runs into what follows it in a row. -/
theorem neutral_text (hSpaced : Spaced (piece :: right)) (hLoose : piece.isLoose = false)
    (hNeutral : Text.Neutral tail) : Text.Neutral (text render right ++ tail) := by
  cases right with
  | nil => exact hNeutral
  | cons next right =>
    have hNext : next.isLoose = true := by
      rcases (List.isChain_cons_cons.1 hSpaced).1 with h | h
      · rw [hLoose] at h
        cases h
      · exact h
    rw [text_cons, List.append_assoc]
    exact (@joins_of_isLoose .empty _ render _ hNext).neutral _

/-- A row leads to each place between two of its pieces. -/
theorem passage (hSpaced : Spaced (left ++ right))
    (hLeft : ∀ piece ∈ left, piece.isLoose = false → Passes added (piece.chars render))
    (hNeutral : Text.Neutral tail) :
    Passage added (text render (left ++ right) ++ tail) (text render right ++ tail) := by
  induction left with
  | nil => exact .here _
  | cons piece left ih =>
    obtain ⟨hPiece, hLeft⟩ := List.forall_mem_cons.1 hLeft
    rw [List.cons_append] at hSpaced
    rw [List.cons_append, text_cons, List.append_assoc]
    refine Passage.trans ?_ (ih hSpaced.tail hLeft)
    cases hLoose : piece.isLoose with
    | true => exact (joins_of_isLoose hLoose).passage _
    | false => exact hPiece hLoose _ (neutral_text hSpaced hLoose hNeutral)

end Piece

/-! ## Fluent trees -/

/-- What a form holds itself, apart from its parts and its keywords. -/
def Form.own? {α : Type} : Form α → Option String
  | .identifier value wrap => some (enclose value wrap)
  | .constant value => some value.render
  | .variableName name system => some ((if system then "@@" else "@") ++ name)
  | .parameter => some "?"
  | .operation op _ | .binary op _ _ | .unary op _ => some op
  | .call name _ _ => some name
  | .typeCast typeName _ => some typeName
  | _ => none

namespace Piece

variable {α : Type} {parts items : List α} {own? : Option String}

/-- A piece that is one of some parts or the text that a form holds, unless it
is a space, a mark or a keyword. -/
def Within (parts : List α) (own? : Option String) : Piece α → Prop
  | .part inner => inner ∈ parts
  | .own held => own? = some held
  | _ => True

@[simp] theorem within_part {inner : α} : (part inner).Within parts own? ↔ inner ∈ parts := Iff.rfl

@[simp] theorem within_own {held : String} :
    (own held : Piece α).Within parts own? ↔ own? = some held := Iff.rfl

@[simp] theorem within_space : (space : Piece α).Within parts own? := trivial

@[simp] theorem within_comma : (comma : Piece α).Within parts own? := trivial

@[simp] theorem within_opening : (opening : Piece α).Within parts own? := trivial

@[simp] theorem within_closing : (closing : Piece α).Within parts own? := trivial

@[simp] theorem within_keyword {word : Keyword} : (keyword word : Piece α).Within parts own? :=
  trivial

theorem forall_separated {separator : List (Piece α)}
    (hSeparator : ∀ piece ∈ separator, piece.Within parts own?) :
    (∀ piece ∈ separated separator items, piece.Within parts own?) ↔
      ∀ item ∈ items, item ∈ parts := by
  cases items with
  | nil => simp [separated]
  | cons first further =>
    simp only [separated, List.forall_mem_cons, List.forall_mem_flatMap, List.forall_mem_append,
      iff_true_intro hSeparator]
    simp

@[simp] theorem forall_list :
    (∀ piece ∈ list items, piece.Within parts own?) ↔ ∀ item ∈ items, item ∈ parts :=
  forall_separated (by simp)

@[simp] theorem forall_clause {word : Keyword} :
    (∀ piece ∈ clause word items, piece.Within parts own?) ↔ ∀ item ∈ items, item ∈ parts := by
  cases items <;> simp [clause]

theorem forall_suffix {word : Option Keyword} :
    ∀ piece ∈ suffix word, piece.Within parts own? := by
  cases word <;> simp [suffix]

theorem forall_distinctPieces {distinct : Bool} :
    ∀ piece ∈ distinctPieces distinct, piece.Within parts own? := by
  cases distinct <;> simp [distinctPieces]

theorem forall_joinPieces {kind : JoinKind} : ∀ piece ∈ kind.pieces, piece.Within parts own? := by
  cases kind <;> simp [JoinKind.pieces, JoinKind.keyword?]

end Piece

open Piece in
/-- The pieces of a form are its parts and the text that it holds. -/
theorem Form.within_pieces {α : Type} (form : Form α) :
    ∀ piece ∈ form.pieces, piece.Within form.parts form.own? := by
  cases form with
  | operation op args => simp [pieces, parts, own?, forall_separated, or_imp, forall_and]
  | between subject low high negated => cases negated <;> simp [pieces, parts]
  | call name args distinct =>
    simpa +contextual [pieces, parts, own?, or_imp, forall_and] using forall_distinctPieces
  | select query =>
    simpa +contextual [pieces, parts, Query.pieces, Query.parts, or_imp, forall_and]
      using forall_distinctPieces
  | join left right kind condition =>
    simpa +contextual [pieces, parts, or_imp, forall_and] using forall_joinPieces
  | orderBy field direction nulls =>
    simpa [pieces, parts, or_imp, forall_and] using ⟨forall_suffix, forall_suffix⟩
  | caseWhen rules default =>
    obtain ⟨hRules, hDefault⟩ := forall_mem_parts_caseWhen.1 fun part
      (hPart : part ∈ (caseWhen rules default).parts) => hPart
    simp only [pieces, List.forall_mem_append, List.forall_mem_flatMap, List.forall_mem_cons,
      forall_clause]
    simpa using ⟨fun first second => hRules (first, second), by simpa using hDefault⟩
  | _ => simp [pieces, parts, own?, or_imp, forall_and]

namespace Node

/-- A tree in which every node holds texts that pass. -/
inductive Fluent (added : RuleSet) : Node → Prop
  | intro {node : Node} (hOwn : ∀ held ∈ node.form.own?, Passes added held.toList)
      (hAlias : ∀ name ∈ node.aliasName, IsName name)
      (hParts : ∀ part ∈ node.form.parts, Fluent added part) : Fluent added node

variable {node inner : Node} {before after tail : List Char}

theorem Fluent.part (hFluent : node.Fluent added) (hPart : inner ∈ node.form.parts) :
    inner.Fluent added := by
  obtain ⟨-, -, hParts⟩ := hFluent
  exact hParts inner hPart

theorem Fluent.isName (hFluent : node.Fluent added) : ∀ name ∈ node.aliasName, IsName name := by
  obtain ⟨-, hAlias, -⟩ := hFluent
  exact hAlias

/-- The pieces of a node are spaces, marks, keywords, what it holds itself and
its parts. -/
theorem mem_pieces {piece : Piece Node} (hMem : piece ∈ node.pieces) :
    piece.Within node.form.parts node.form.own? ∨
      ∃ name ∈ node.aliasName, piece = .own (renderAlias name) := by
  rw [pieces, List.mem_append] at hMem
  rcases hMem with hMem | hMem
  · refine Or.inl ?_
    rw [corePieces] at hMem
    split at hMem
    · simp only [List.mem_append, List.mem_singleton] at hMem
      rcases hMem with rfl | hMem | rfl
      · exact trivial
      · exact node.form.within_pieces piece hMem
      · exact trivial
    · exact node.form.within_pieces piece hMem
  · simp only [aliasPieces, List.mem_flatMap, List.mem_cons, List.not_mem_nil, or_false,
      Option.mem_toList] at hMem
    obtain ⟨name, hName, rfl | rfl | rfl | rfl⟩ := hMem
    · exact Or.inl trivial
    · exact Or.inl trivial
    · exact Or.inl trivial
    · exact Or.inr ⟨name, hName, rfl⟩

/-- The pieces of a node pass if what it holds and its parts do. -/
theorem passes_piece (hOwn : ∀ held ∈ node.form.own?, Passes added held.toList)
    (hAlias : ∀ name ∈ node.aliasName, IsName name)
    (hParts : ∀ part ∈ node.form.parts, Passes added part.render.toList) {piece : Piece Node}
    (hMem : piece ∈ node.pieces) (hLoose : piece.isLoose = false) :
    Passes added (piece.chars render) := by
  rcases mem_pieces hMem with hWithin | ⟨name, hName, rfl⟩
  · cases piece with
    | keyword word => exact word.passes_spelling
    | own held => exact hOwn held hWithin
    | part inner => exact hParts inner hWithin
    | _ => cases hLoose
  · exact passes_renderAlias (hAlias name hName)

namespace Fluent

/-- **The text of a fluent tree passes.** -/
theorem passes (hFluent : node.Fluent added) : Passes added node.render.toList := by
  induction hFluent with
  | @intro node hOwn hAlias _ ih =>
    intro tail hNeutral
    have hSpaced : Piece.Spaced (node.pieces ++ []) := by simpa using node.spaced_pieces
    rw [toList_render]
    simpa using Piece.passage hSpaced (fun _ => passes_piece hOwn hAlias ih) hNeutral

/-- The text of a node leads to each place between two of its pieces. -/
theorem passage (hFluent : node.Fluent added) {left right : List (Piece Node)}
    (hPieces : node.pieces = left ++ right) (hNeutral : Text.Neutral tail) :
    Passage added (node.render.toList ++ tail) (Piece.text render right ++ tail) := by
  obtain ⟨hOwn, hAlias, hParts⟩ := hFluent
  have hPasses : ∀ piece ∈ node.pieces, piece.isLoose = false → Passes added (piece.chars render) :=
    fun _ => passes_piece hOwn hAlias fun part hPart => (hParts part hPart).passes
  rw [toList_render, hPieces]
  refine Piece.passage (hPieces ▸ node.spaced_pieces) (fun piece hMem => hPasses piece ?_) hNeutral
  rw [hPieces]
  exact List.mem_append_left _ hMem

/-- **The text of a fluent tree leads to each node inside it.** -/
theorem passage_of_stands (hFluent : node.Fluent added) (hStands : inner.Stands before node after)
    (hNeutral : Text.Neutral tail) :
    inner.Fluent added ∧ Text.Neutral (after ++ tail) ∧
      Passage added (node.render.toList ++ tail) (inner.render.toList ++ (after ++ tail)) := by
  induction hStands generalizing tail with
  | self => exact ⟨hFluent, hNeutral, .here _⟩
  | @part node part left right before after hPieces _ ih =>
    have hPart : part ∈ node.form.parts := by
      have hMem : .part part ∈ node.pieces :=
        hPieces ▸ List.mem_append_right _ List.mem_cons_self
      rcases mem_pieces hMem with hWithin | ⟨_, _, h⟩
      · exact hWithin
      · cases h
    have hSpaced : Piece.Spaced (.part part :: right) :=
      (List.isChain_append.1 (hPieces ▸ node.spaced_pieces)).2.1
    have hRight : Text.Neutral (Piece.text render right ++ tail) :=
      Piece.neutral_text hSpaced rfl hNeutral
    have hLeft := hFluent.passage hPieces hNeutral
    obtain ⟨hInner, hAfter, hPassage⟩ := ih (hFluent.part hPart) hRight
    rw [Piece.text_cons, List.append_assoc] at hLeft
    rw [List.append_assoc]
    exact ⟨hInner, hAfter, hLeft.trans hPassage⟩

/-- The text of a node leads to its alias. -/
theorem passage_of_aliasName (hFluent : node.Fluent added) {name : String}
    (hAlias : node.aliasName = some name) (hNeutral : Text.Neutral tail) :
    Passage added (node.render.toList ++ tail)
      (Keyword.AS.spelling.toList ++ ' ' :: ((renderAlias name).toList ++ tail)) := by
  have hPieces : node.pieces =
      (node.corePieces ++ [.space]) ++ [.keyword .AS, .space, .own (renderAlias name)] := by
    rw [pieces, hAlias]
    simp [aliasPieces]
  simpa [Piece.chars] using hFluent.passage hPieces hNeutral

end Fluent

end Node

end Passing

end SqlQuery
