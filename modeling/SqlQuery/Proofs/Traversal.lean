import Mathlib.Data.List.Basic
import SqlQuery.Node.Equality
import SqlQuery.Proofs.NumberText
import SqlQuery.Proofs.OperatorText

/-!
# No token is lost

The tokens of a statement that stand for operands and operators are all in its
tree, once each and in their order.  Walking through the tree from left to
right and writing down the payload of each node and the operators between its
operands gives these tokens back.

A type's name is kept as one text; its words and sizes are found again by
taking the text apart.

## Main results

* `parse_traversal` — the operand and operator tokens of a parsed text are the
  traversal of its tree.
-/

namespace SqlQuery

open Glyph (front AllGenuine)

/-! ## Significant tokens -/

namespace TokenKind

/-- Whether a token stands for an operand or an operator. -/
def isSignificant : TokenKind → Bool
  | .integer _ | .float _ | .text _ | .identifier .. | .userVariable _ | .systemVariable _
  | .question | .star => true
  | .keyword word =>
    [.NULL, .TRUE, .FALSE, .OR, .AND, .NOT, .IS, .IN, .LIKE, .BETWEEN].contains word
  | .equal | .notEqual | .less | .lessEqual | .greater | .greaterEqual => true
  | .plus | .minus | .concat | .slash | .percent => true
  | _ => false

/-- The kind without the quotes of an identifier. -/
def withoutQuote : TokenKind → TokenKind
  | .identifier value _ => .identifier value none
  | kind => kind

end TokenKind

/-- The kinds of operands and operators among given kinds, identifiers by their
value. -/
def significantKinds (kinds : List TokenKind) : List TokenKind :=
  (kinds.filter TokenKind.isSignificant).map TokenKind.withoutQuote

/-! ## Names of types -/

/-- Whether a character separates the words and sizes in a type's name. -/
def isTypeSeparator (c : Char) : Bool :=
  c == ' ' || c == '(' || c == ',' || c == ')'

/-- The token of a word or a size. -/
def pieceKind (piece : List Char) : TokenKind :=
  if piece.all Char.isDigit then .integer (Int64.ofNat (Number.digitsValue piece))
  else .identifier (String.ofList piece) none

/-- The tokens of the words and sizes in a text. -/
def pieceKinds (cs : List Char) : List TokenKind :=
  ((cs.splitOnP isTypeSeparator).filter fun piece => !piece.isEmpty).map pieceKind

/-- The tokens of the words and sizes of a type's name, the first of which may
stand in backticks. -/
def typeKinds (name : String) : List TokenKind :=
  match name.toList with
  | [] => []
  | c :: cs =>
    if c == Token.backtick then
      .identifier (String.ofList (cs.takeWhile (· != Token.backtick))) none ::
        pieceKinds (cs.dropWhile (· != Token.backtick)).tail
    else pieceKinds (c :: cs)

/-! ## Traversal -/

/-- The token of a literal. -/
def Value.kind : Value → TokenKind
  | .null => .keyword .NULL
  | .boolean true => .keyword .TRUE
  | .boolean false => .keyword .FALSE
  | .integer value => .integer value
  | .float value => .float value
  | .text value => .text value

/-- The traversal of a form, from the traversals of its parts. -/
def Form.traverse : Form (List TokenKind) → List TokenKind
  | .identifier value wrap =>
    [if wrap.isNone && value == "*" then .star else .identifier value none]
  | .constant value => [value.kind]
  | .nullConstant => [.keyword .NULL]
  | .variableName name system => [if system then .systemVariable name else .userVariable name]
  | .parameter => [.question]
  | .binary op left right => left ++ operatorKinds op ++ right
  | .unary op arg => operatorKinds op ++ arg
  | .call name args _ => .identifier name none :: args.flatten
  | .between subject low high negated =>
    subject ++ (if negated then [.keyword .NOT, .keyword .BETWEEN] else [.keyword .BETWEEN]) ++
      low ++ .keyword .AND :: high
  | .typeCast typeName arg => arg ++ typeKinds typeName
  | form => form.parts.flatten

/-- The operands and operators of a tree from left to right, an alias last. -/
def Node.traversal : Node → List TokenKind :=
  Node.fold fun form aliasName _ =>
    form.traverse ++ aliasName.toList.map fun name => .identifier name none

namespace Node

theorem traversal_mk (form : Form Node) (aliasName : Option String) (parentheses : Bool) :
    traversal ⟨form, aliasName, parentheses⟩ =
      (form.map traversal).traverse ++ aliasName.toList.map fun name => .identifier name none :=
  Node.fold_mk _ form aliasName parentheses

theorem traversal_ofForm (form : Form Node) :
    (ofForm form).traversal = (form.map traversal).traverse := by
  rw [ofForm, traversal_mk]
  exact List.append_nil _

@[simp] theorem traversal_withParentheses (node : Node) (parentheses : Bool) :
    (node.withParentheses parentheses).traversal = node.traversal := by
  cases node
  simp only [withParentheses, traversal_mk]

theorem traversal_withAlias {node : Node} (hAlias : node.aliasName = none) (name : String) :
    (node.withAlias name).traversal = node.traversal ++ [.identifier name none] := by
  obtain ⟨form, aliasName, parentheses⟩ := node
  cases hAlias
  simp [withAlias, traversal_mk]

end Node

/-! ## Significant glyphs -/

namespace Glyph

/-- The kinds of operands and operators among glyphs. -/
def significant (gs : List Glyph) : List TokenKind := significantKinds (gs.map (·.kind))

variable {glyph : Glyph} {kind : TokenKind} {text : String} {gs hs : List Glyph}

@[simp] theorem significant_nil : significant [] = [] := rfl

theorem significant_cons (hKind : kind.isSignificant = true) :
    significant (⟨kind, text⟩ :: gs) = kind.withoutQuote :: significant gs := by
  simp [significant, significantKinds, hKind]

theorem significant_skip (hKind : kind.isSignificant = false) :
    significant (⟨kind, text⟩ :: gs) = significant gs := by
  simp [significant, significantKinds, hKind]

/-- Parentheses around a node are not significant. -/
theorem significant_enclosed {node : Node} {text text' : String} {gs hs : List Glyph}
    (hKinds : significant gs = node.traversal ++ significant (⟨.rightParen, text'⟩ :: hs)) :
    significant (⟨.leftParen, text⟩ :: gs) =
      (node.withParentheses true).traversal ++ significant hs := by
  rw [significant_skip rfl, hKinds, significant_skip rfl, Node.traversal_withParentheses]

end Glyph

open Glyph (significant significant_cons significant_skip significant_enclosed)

section Words

variable {gs hs : List Glyph}

theorem OptionalWord.significant_eq {word : Keyword} {found : Bool}
    (hWord : OptionalWord word found gs hs)
    (hKind : (TokenKind.keyword word).isSignificant = false) :
    significant gs = significant hs := by
  cases hWord with
  | present => exact significant_skip hKind
  | absent => rfl

theorem Distinctness.significant_eq {distinct : Bool} (hDistinct : Distinctness distinct gs hs) :
    significant gs = significant hs := by
  cases hDistinct with
  | distinct | all => exact significant_skip rfl
  | neither => rfl

theorem Directed.significant_eq {direction : Direction} (hDirection : Directed direction gs hs) :
    significant gs = significant hs := by
  cases hDirection with
  | ascending | descending => exact significant_skip rfl
  | unspecified => rfl

theorem Placed.significant_eq {nulls : NullPlacement} (hNulls : Placed nulls gs hs) :
    significant gs = significant hs := by
  cases hNulls with
  | first | last => exact significant_skip rfl
  | unspecified => rfl

theorem Aliased.significant_eq {node aliased : Node} (hAlias : Aliased node aliased gs hs)
    (hNode : node.aliasName = none) :
    node.traversal ++ significant gs = aliased.traversal ++ significant hs := by
  cases hAlias with
  | introduced =>
    rw [significant_skip rfl, significant_cons rfl, Node.traversal_withAlias hNode]
    simp [TokenKind.withoutQuote]
  | bare =>
    rw [significant_cons rfl, Node.traversal_withAlias hNode]
    simp [TokenKind.withoutQuote]
  | absent => rfl

/-- The tokens of an operator that may be negated. -/
theorem NegatableWord.significant_eq {word : Keyword} {negated : Bool} {op : String}
    (hWord : NegatableWord word negated op gs hs)
    (hKind : (TokenKind.keyword word).isSignificant = true) :
    significant gs =
      (if negated then [.keyword .NOT, .keyword word] else [.keyword word]) ++ significant hs := by
  cases hWord with
  | plain => rw [significant_cons hKind]; rfl
  | negated => rw [significant_cons rfl, significant_cons hKind]; rfl

end Words

/-! ## Words and sizes of types -/

section Types

variable {gs hs : List Glyph}

theorem pieceKinds_nil : pieceKinds [] = [] := rfl

/-- A separator after another adds nothing. -/
theorem pieceKinds_separator {c : Char} {cs : List Char} (hSeparator : isTypeSeparator c = true) :
    pieceKinds (c :: cs) = pieceKinds cs := by
  rw [pieceKinds, List.splitOnP_cons_eq_if_modifyHead, if_pos hSeparator]
  rfl

/-- A word or a size up to the next separator. -/
theorem pieceKinds_append {piece cs : List Char} (hPiece : piece ≠ [])
    (hInside : ∀ c ∈ piece, isTypeSeparator c = false)
    (hStop : ∀ c ∈ cs.head?, isTypeSeparator c = true) :
    pieceKinds (piece ++ cs) = pieceKind piece :: pieceKinds cs := by
  have hEmpty : (!piece.isEmpty) = true := by simpa using hPiece
  cases cs with
  | nil =>
    rw [List.append_nil, pieceKinds, List.splitOnP_eq_singleton hInside]
    simp [hEmpty, pieceKinds_nil]
  | cons c cs =>
    have hSeparator := hStop c rfl
    rw [pieceKinds_separator hSeparator, pieceKinds,
      List.splitOnP_append_cons_of_forall_mem hInside c hSeparator]
    simp [hPiece, pieceKinds]

/-- A text that is one word or size. -/
def IsPiece (piece : List Char) : Prop :=
  piece ≠ [] ∧ ∀ c ∈ piece, isTypeSeparator c = false

theorem pieceKinds_separators {separator cs : List Char}
    (hSeparator : ∀ c ∈ separator, isTypeSeparator c = true) :
    pieceKinds (separator ++ cs) = pieceKinds cs := by
  induction separator with
  | nil => rfl
  | cons c separator ih =>
    rw [List.cons_append, pieceKinds_separator (hSeparator c List.mem_cons_self),
      ih fun d hMem => hSeparator d (List.mem_cons_of_mem _ hMem)]

/-- Words or sizes with separators before each. -/
theorem pieceKinds_flatMap {separator : List Char} {pieces : List String} {cs : List Char}
    (hNe : separator ≠ []) (hSeparator : ∀ c ∈ separator, isTypeSeparator c = true)
    (hPieces : ∀ piece ∈ pieces, IsPiece piece.toList)
    (hStop : ∀ c ∈ cs.head?, isTypeSeparator c = true) :
    pieceKinds (pieces.flatMap (fun piece => separator ++ piece.toList) ++ cs) =
      pieces.map (fun piece => pieceKind piece.toList) ++ pieceKinds cs := by
  induction pieces with
  | nil => rfl
  | cons piece pieces ih =>
    obtain ⟨hPiece, hRest⟩ := List.forall_mem_cons.1 hPieces
    have hNext : ∀ c ∈ (pieces.flatMap (fun piece => separator ++ piece.toList) ++ cs).head?,
        isTypeSeparator c = true := by
      cases pieces with
      | nil => simpa using hStop
      | cons next pieces =>
        obtain ⟨c, separator, rfl⟩ := List.exists_cons_of_ne_nil hNe
        intro d hd
        have hHead : c = d := by simpa using hd
        exact hHead ▸ hSeparator c List.mem_cons_self
    rw [List.flatMap_cons, List.append_assoc, List.append_assoc, pieceKinds_separators hSeparator,
      pieceKinds_append hPiece.1 hPiece.2 hNext, ih hRest]
    rfl

theorem isTypeSeparator_of_isWordChar {c : Char} (hWord : Text.isWordChar c = true) :
    isTypeSeparator c = false := by
  rw [← Bool.not_eq_true]
  intro hSeparator
  simp only [isTypeSeparator, Bool.or_eq_true, beq_iff_eq] at hSeparator
  rcases hSeparator with ((rfl | rfl) | rfl) | rfl <;> exact absurd hWord (by decide)

theorem isPiece_of_bareName {text : List Char} (hText : Token.BareName text) : IsPiece text := by
  obtain ⟨parts, hParts, hBare, -⟩ := hText
  refine ⟨hParts.text_ne_nil, fun c hMem => ?_⟩
  rcases hParts.mem_of_bare hBare c hMem with hWord | rfl | rfl
  · exact isTypeSeparator_of_isWordChar hWord
  · decide
  · decide

theorem pieceKind_of_bareName {value : String} (hText : Token.BareName value.toList) :
    pieceKind value.toList = .identifier value none := by
  obtain ⟨parts, hParts, hBare, -⟩ := hText
  obtain ⟨c, cs, hCons, hStart⟩ := hParts.head_of_bare hBare
  have hDigits : ¬value.toList.all Char.isDigit = true := by
    rw [hCons]
    intro hAll
    have hDigit := List.all_eq_true.1 hAll c List.mem_cons_self
    rw [Text.isWordStart_of_isDigit hDigit] at hStart
    cases hStart
  rw [pieceKind, if_neg hDigits, String.ofList_toList]

theorem isPiece_toString {value : Int64} (hValue : 0 ≤ value.toInt) :
    IsPiece (toString value.toInt).toList := by
  rw [Token.toList_toString_toInt hValue]
  refine ⟨Nat.toDigits_ne_nil, fun c hMem => ?_⟩
  have hDigit := Nat.isDigit_of_mem_toDigits (by decide) (by decide) hMem
  obtain ⟨k, rfl⟩ := Text.exists_digit hDigit
  clear hMem hDigit
  revert k
  decide

theorem pieceKind_toString {value : Int64} (hValue : 0 ≤ value.toInt) :
    pieceKind (toString value.toInt).toList = .integer value := by
  have hAll : (Nat.toDigits 10 value.toInt.toNat).all Char.isDigit = true :=
    List.all_eq_true.2 fun c hMem => Nat.isDigit_of_mem_toDigits (by decide) (by decide) hMem
  rw [Token.toList_toString_toInt hValue, pieceKind, if_pos hAll, Number.digitsValue_toDigits,
    Token.ofNat_toNat_toInt hValue]

theorem TypeWords.significant_eq {words : List String} (hWords : TypeWords words gs hs)
    (hGenuine : AllGenuine gs) :
    (∀ word ∈ words, IsPiece word.toList) ∧
      significant gs = words.map (fun word => pieceKind word.toList) ++ significant hs := by
  induction hWords with
  | done => exact ⟨fun _ hMem => absurd hMem List.not_mem_nil, rfl⟩
  | more hWords ih =>
    obtain ⟨hPieces, hKinds⟩ := ih hGenuine.tail
    have hName := hGenuine.head.2
    refine ⟨List.forall_mem_cons.2 ⟨isPiece_of_bareName hName, hPieces⟩, ?_⟩
    rw [significant_cons rfl, hKinds, List.map_cons, pieceKind_of_bareName hName]
    rfl

theorem TypeSizes.significant_eq {sizes : List String} (hSizes : TypeSizes sizes gs hs)
    (hGenuine : AllGenuine gs) :
    (∀ size ∈ sizes, IsPiece size.toList) ∧
      significant gs = sizes.map (fun size => pieceKind size.toList) ++ significant hs := by
  induction hSizes with
  | done => exact ⟨fun _ hMem => absurd hMem List.not_mem_nil, rfl⟩
  | more hSizes ih =>
    obtain ⟨hPieces, hKinds⟩ := ih hGenuine.tail.tail
    have hValue := hGenuine.tail.head
    refine ⟨List.forall_mem_cons.2 ⟨isPiece_toString hValue, hPieces⟩, ?_⟩
    rw [significant_skip rfl, significant_cons rfl, hKinds, List.map_cons,
      pieceKind_toString hValue]
    rfl

/-- The first word of a type's name and the words and sizes after it. -/
theorem TypeWord.significant_eq {word name : String} {rest : List Char}
    (hWord : TypeWord word gs hs) (hGenuine : AllGenuine gs)
    (hName : name.toList = word.toList ++ rest)
    (hStop : ∀ c ∈ rest.head?, isTypeSeparator c = true) :
    ∃ kind, significant gs = kind :: significant hs ∧ typeKinds name = kind :: pieceKinds rest := by
  cases hWord with
  | @quoted value text quote gs =>
    obtain ⟨rfl, -, hQuote⟩ := hGenuine.head
    have hInside : ∀ d ∈ value.toList, (d != Token.backtick) = true := by
      intro d hMem
      rw [bne_iff_ne]
      rintro rfl
      exact hQuote hMem
    have hEnd : ∀ d ∈ (Token.backtick :: rest).head?, (d != Token.backtick) = false := by simp
    have hText : name.toList = Token.backtick :: (value.toList ++ Token.backtick :: rest) := by
      rw [hName]
      simp
    refine ⟨.identifier value none, significant_cons rfl, ?_⟩
    rw [typeKinds, hText]
    simp only [beq_self_eq_true, if_true, Token.takeWhile_append_of_forall hInside hEnd,
      Token.dropWhile_append_of_forall hInside hEnd, String.ofList_toList, List.tail_cons]
  | bare =>
    obtain ⟨-, hBare⟩ := hGenuine.head
    have hPiece := isPiece_of_bareName hBare
    have hKinds := pieceKinds_append hPiece.1 hPiece.2 hStop
    rw [pieceKind_of_bareName hBare] at hKinds
    obtain ⟨parts, hParts, hQuoted, -⟩ := hBare
    obtain ⟨c, cs, hCons, hStart⟩ := hParts.head_of_bare hQuoted
    refine ⟨.identifier word none, significant_cons rfl, ?_⟩
    rw [typeKinds, hName]
    rw [hCons] at hKinds ⊢
    simp only [List.cons_append, Token.backtick_ne_wordStart hStart, Bool.false_eq_true, if_false]
    exact hKinds

/-- The words of a type's name, and what follows them. -/
theorem TypeWords.typeKinds_eq {word name : String} {words : List String} {is js : List Glyph}
    (rest : List Char) (hWord : TypeWord word gs hs) (hWords : TypeWords words hs is)
    (hGenuine : AllGenuine gs)
    (hName : name.toList =
      word.toList ++ (words.flatMap (fun word => " ".toList ++ word.toList) ++ rest))
    (hStop : ∀ c ∈ rest.head?, isTypeSeparator c = true)
    (hRest : significant is = pieceKinds rest ++ significant js) :
    significant gs = typeKinds name ++ significant js := by
  obtain ⟨hPieces, hKinds⟩ := hWords.significant_eq (hGenuine.of_suffix hWord.suffix)
  have hHead : ∀ c ∈ (words.flatMap (fun word => " ".toList ++ word.toList) ++ rest).head?,
      isTypeSeparator c = true := by
    cases words with
    | nil => exact hStop
    | cons word words =>
      intro c hc
      cases hc
      rfl
  have hBlank : ∀ c ∈ " ".toList, isTypeSeparator c = true := List.all_eq_true.1 (by decide)
  obtain ⟨kind, hFirst, hType⟩ := hWord.significant_eq hGenuine hName hHead
  rw [hFirst, hKinds, hRest, hType, pieceKinds_flatMap (by decide) hBlank hPieces hStop]
  simp

/-- The words and sizes of a type's name are the tokens it was read from. -/
theorem TypeName.significant_eq {name : String} (hName : TypeName name gs hs)
    (hGenuine : AllGenuine gs) : significant gs = typeKinds name ++ significant hs := by
  cases hName with
  | plain hWord hWords hFront =>
    refine TypeWords.typeKinds_eq [] hWord hWords hGenuine ?_ (by simp) rfl
    rw [Text.toList_intercalate_cons, List.append_nil]
  | @sized word _ _ _ words sizes value gs hs is js hWord hWords hSizes =>
    have hAfter := (hGenuine.of_suffix hWord.suffix).of_suffix hWords.suffix
    have hPiece := isPiece_toString hAfter.tail.head
    obtain ⟨hPieces, hKinds⟩ := hSizes.significant_eq hAfter.tail.tail
    have hComma : ∀ c ∈ ", ".toList, isTypeSeparator c = true := List.all_eq_true.1 (by decide)
    have hOpen : ∀ c ∈ "(".toList, isTypeSeparator c = true := List.all_eq_true.1 (by decide)
    have hClose : ∀ c ∈ ")".toList.head?, isTypeSeparator c = true := by
      intro c hc
      cases hc
      rfl
    refine TypeWords.typeKinds_eq
      ("(".toList ++ ((", ".intercalate (toString value.toInt :: sizes)).toList ++ ")".toList))
      hWord hWords hGenuine ?_ ?_ ?_
    · rw [String.toList_append, String.toList_append, String.toList_append,
        Text.toList_intercalate_cons]
      simp only [List.append_assoc]
    · intro c hc
      cases hc
      rfl
    · have hHead : ∀ c ∈ (sizes.flatMap (fun size => ", ".toList ++ size.toList) ++
          ")".toList).head?, isTypeSeparator c = true := by
        cases sizes with
        | nil => exact hClose
        | cons size sizes =>
          intro c hc
          cases hc
          rfl
      rw [significant_skip rfl, significant_cons rfl, hKinds, significant_skip rfl,
        Text.toList_intercalate_cons, List.append_assoc,
        pieceKinds_separators hOpen,
        pieceKinds_append hPiece.1 hPiece.2 hHead,
        pieceKinds_flatMap (by decide) hComma hPieces hClose,
        pieceKind_toString hAfter.tail.head,
        show pieceKinds ")".toList = [] from rfl]
      simp [TokenKind.withoutQuote]

end Types

/-! ## Traversal of derivations -/

/-- What a derivation says about significant tokens: those that a construct
takes are the traversal of its tree.  Where a construct turns a given tree
into another, the tokens of the given tree were taken before. -/
def Construct.Traversed (gs hs : List Glyph) : Construct → Prop
  | .operand node | .expression _ node | .select node | .query node =>
    node.aliasName = none ∧ significant gs = node.traversal ++ significant hs
  | .extension _ left node | .operation left _ node =>
    left.aliasName = none →
      node.aliasName = none ∧ left.traversal ++ significant gs = node.traversal ++ significant hs
  | .joins left node => left.traversal ++ significant gs = node.traversal ++ significant hs
  | .item _ node | .source node => significant gs = node.traversal ++ significant hs
  | .arguments nodes | .items _ nodes | .furtherItems _ nodes =>
    significant gs = nodes.flatMap Node.traversal ++ significant hs
  | .listClause word _ nodes =>
    (TokenKind.keyword word).isSignificant = false →
      significant gs = nodes.flatMap Node.traversal ++ significant hs
  | .clause word node =>
    (TokenKind.keyword word).isSignificant = false →
      significant gs = node.toList.flatMap Node.traversal ++ significant hs
  | .sourceClause node => significant gs = node.toList.flatMap Node.traversal ++ significant hs
  | .rules list =>
    significant gs =
      list.flatMap (fun rule => rule.1.traversal ++ rule.2.traversal) ++ significant hs

/-- A token that makes up an operand is the traversal of its node. -/
theorem Dialect.traversal_of_atom? {dialect : Dialect} {kind : TokenKind} {node : Node}
    (hAtom : dialect.atom? kind = some node) :
    node.aliasName = none ∧ kind.isSignificant = true ∧ node.traversal = [kind.withoutQuote] := by
  cases Dialect.atom_of_atom? hAtom <;>
    exact ⟨rfl, rfl, Node.traversal_ofForm _⟩

/-- A name without quotes is not the star. -/
theorem Node.traversal_column {value text : String}
    (hGenuine : Glyph.Genuine ⟨.identifier value none, text⟩) :
    (Node.identifier value none).traversal = [.identifier value none] := by
  have hStar : (value == "*") = false := by
    rw [beq_eq_false_iff_ne]
    rintro rfl
    obtain ⟨parts, hParts, hBare, -⟩ := hGenuine.2
    obtain ⟨c, cs, hCons, hStart⟩ := hParts.head_of_bare hBare
    have hHead : '*' = c := (List.cons.inj hCons).1
    rw [← hHead] at hStart
    exact absurd hStart (by decide)
  rw [Node.identifier, Node.traversal_ofForm]
  simp [Form.map, Form.traverse, hStar]

theorem Dialect.traversal_of_table? {dialect : Dialect} {kind : TokenKind} {text : String}
    {node : Node} (hTable : dialect.table? kind = some node)
    (hGenuine : Glyph.Genuine ⟨kind, text⟩) :
    node.aliasName = none ∧ kind.isSignificant = true ∧ node.traversal = [kind.withoutQuote] := by
  unfold Dialect.table? at hTable
  split at hTable
  · cases hTable
    rename_i value quote
    cases quote with
    | none => exact ⟨rfl, rfl, Node.traversal_column hGenuine⟩
    | some quote => exact ⟨rfl, rfl, Node.traversal_ofForm _⟩
  · split at hTable <;> cases hTable
    exact ⟨rfl, rfl, Node.traversal_ofForm _⟩
  · split at hTable <;> cases hTable
    exact ⟨rfl, rfl, Node.traversal_ofForm _⟩
  · cases hTable

theorem isSignificant_of_joinKind? {kind : TokenKind} {join : JoinKind}
    (hKind : Grammar.joinKind? kind = some join) : kind.isSignificant = false := by
  unfold Grammar.joinKind? at hKind
  split at hKind <;> cases hKind <;> rfl

/-- An operation: the operand on its left, its operator, the operand on its
right. -/
theorem traversal_binary {op : String} {left right : Node} {kinds : List TokenKind}
    {gs hs is : List Glyph} (hKinds : operatorKinds op = kinds)
    (hOperator : significant gs = kinds ++ significant hs)
    (hRight : significant hs = right.traversal ++ significant is) :
    left.traversal ++ significant gs = (Node.binary op left right).traversal ++ significant is := by
  rw [Node.binary, Node.traversal_ofForm, hOperator, hRight]
  show _ = left.traversal ++ operatorKinds op ++ right.traversal ++ _
  rw [hKinds]
  simp

/-- The operation of an operator that may be negated. -/
theorem NegatableWord.traversal_binary {word : Keyword} {negated : Bool} {op single : String}
    {left right : Node} {gs hs is : List Glyph} (hWord : NegatableWord word negated op gs hs)
    (hGenuine : AllGenuine gs) (hSingle : word.words = [single])
    (hKind : (TokenKind.keyword word).isSignificant = true)
    (hKinds : ∀ negated : Bool, operatorKinds (if negated then "NOT " ++ single else single) =
      if negated then [.keyword .NOT, .keyword word] else [.keyword word])
    (hRight : significant hs = right.traversal ++ significant is) :
    left.traversal ++ significant gs = (Node.binary op left right).traversal ++ significant is :=
  SqlQuery.traversal_binary
    (Glyph.operatorKinds_of_negatableWord hWord hGenuine hSingle (hKinds negated))
    (hWord.significant_eq hKind) hRight

/-- The significant tokens that a construct takes are the traversal of its
tree. -/
theorem Derives.traversed {dialect : Dialect} {construct : Construct} {gs hs : List Glyph}
    (hDerives : Derives dialect construct gs hs) (hGenuine : AllGenuine gs) :
    construct.Traversed gs hs := by
  induction hDerives with
  | atom hAtom =>
    obtain ⟨hAlias, hKind, hNode⟩ := Dialect.traversal_of_atom? hAtom
    refine ⟨hAlias, ?_⟩
    rw [significant_cons hKind, hNode]
    rfl
  | column hFront =>
    refine ⟨rfl, ?_⟩
    rw [significant_cons rfl, Node.traversal_column hGenuine.head]
    rfl
  | call hDistinct hArgs ih =>
    refine ⟨rfl, ?_⟩
    rw [significant_cons rfl, significant_skip rfl, hDistinct.significant_eq rfl,
      ih (hGenuine.tail.tail.of_suffix hDistinct.suffix), Node.call, Node.traversal_ofForm]
    simp [Form.map, Form.traverse, List.flatMap_def, TokenKind.withoutQuote]
  | @unary kind text operator arg gs hs hClass hArg ih =>
    refine ⟨rfl, ?_⟩
    have hKinds := hGenuine.head.operatorKinds_eq (Or.inr hClass)
    have hKind : kind.isSignificant = true ∧ kind.withoutQuote = kind := by
      unfold TokenKind.prefixClass? at hClass
      split at hClass <;> cases hClass <;> exact ⟨rfl, rfl⟩
    rw [significant_cons hKind.1, hKind.2, (ih hGenuine.tail).2, Node.unary, Node.traversal_ofForm]
    simp [Form.map, Form.traverse, hKinds]
  | subquery hFront hSelect ih =>
    obtain ⟨hAlias, hKinds⟩ := ih hGenuine.tail
    exact ⟨hAlias, significant_enclosed hKinds⟩
  | grouped hFront hInner ih =>
    obtain ⟨hAlias, hKinds⟩ := ih hGenuine.tail
    exact ⟨hAlias, significant_enclosed hKinds⟩
  | tuple hFront hFirst hComma hFurther ihFirst ihFurther =>
    refine ⟨rfl, ?_⟩
    rw [significant_skip rfl, (ihFirst hGenuine.tail).2,
      ihFurther (hGenuine.tail.of_derives hFirst), significant_skip rfl, Node.tuple,
      Node.traversal_ofForm]
    simp [Form.map, Form.traverse, Form.parts, List.flatMap_def]
  | typeCast hArg hName ih =>
    refine ⟨rfl, ?_⟩
    have hAfter := (hGenuine.tail.tail.of_derives hArg).tail
    rw [significant_skip rfl, significant_skip rfl, (ih hGenuine.tail.tail).2, significant_skip rfl,
      hName.significant_eq hAfter, significant_skip rfl, Node.traversal_ofForm]
    simp [Form.map, Form.traverse]
  | caseWhen hFront hRules hDefault ihRules ihDefault =>
    refine ⟨rfl, ?_⟩
    rw [significant_skip rfl, ihRules hGenuine.tail,
      ihDefault (hGenuine.tail.of_derives hRules) rfl, significant_skip rfl, Node.traversal_ofForm]
    show _ = (Form.map Node.traversal (.caseWhen _ _)).parts.flatten ++ _
    rw [Form.parts_map, ← List.flatMap_def]
    simp [Form.parts, List.flatMap_assoc]
  | rulesDone => rfl
  | rulesMore hCondition hResult hRules ihCondition ihResult ihRules =>
    have hAfter := (hGenuine.tail.of_derives hCondition).tail
    show significant _ = _
    rw [significant_skip rfl, (ihCondition hGenuine.tail).2, significant_skip rfl,
      (ihResult hAfter).2, ihRules (hAfter.of_derives hResult)]
    simp
  | expression hFirst hExtension ihFirst ihExtension =>
    obtain ⟨hAlias, hKinds⟩ := ihFirst hGenuine
    obtain ⟨hAlias', hKinds'⟩ := ihExtension (hGenuine.of_derives hFirst) hAlias
    exact ⟨hAlias', hKinds.trans hKinds'⟩
  | extensionDone => exact fun hAlias => ⟨hAlias, rfl⟩
  | extensionMore hClass hLeast hOperation hExtension ihOperation ihExtension =>
    intro hAlias
    obtain ⟨hAlias', hKinds⟩ := ihOperation hGenuine hAlias
    obtain ⟨hAlias'', hKinds'⟩ := ihExtension (hGenuine.of_derives hOperation) hAlias'
    exact ⟨hAlias'', hKinds.trans hKinds'⟩
  | @binary left right operator kind text gs hs hSimple hClass hRight ih =>
    intro _
    refine ⟨rfl, traversal_binary (hGenuine.head.operatorKinds_eq (Or.inl ⟨hSimple, hClass⟩)) ?_
      (ih hGenuine.tail).2⟩
    have hKind : kind.isSignificant = true ∧ kind.withoutQuote = kind := by
      unfold TokenKind.infixClass? at hClass
      split at hClass <;> cases hClass <;> exact ⟨rfl, rfl⟩
    rw [significant_cons hKind.1, hKind.2]
    rfl
  | @identity left right negated text gs hs is hNegated hRight ih =>
    intro _
    refine ⟨rfl, traversal_binary rfl ?_ (ih (hGenuine.tail.of_suffix hNegated.suffix)).2⟩
    cases hNegated with
    | present => rw [significant_cons rfl, significant_cons rfl]; rfl
    | absent => rw [significant_cons rfl]; rfl
  | likeness hWord hRight ih =>
    intro _
    exact ⟨rfl, hWord.traversal_binary hGenuine rfl rfl (by decide)
      (ih (hGenuine.of_suffix hWord.suffix)).2⟩
  | membershipList hWord hFront hItems ih =>
    intro _
    refine ⟨rfl, hWord.traversal_binary hGenuine rfl rfl (by decide) ?_⟩
    rw [significant_skip rfl, ih (hGenuine.of_suffix hWord.suffix).tail, Node.tuple,
      Node.traversal_ofForm]
    simp [Form.map, Form.traverse, Form.parts, List.flatMap_def]
  | membership hWord hFront hRight ih =>
    intro _
    exact ⟨rfl, hWord.traversal_binary hGenuine rfl rfl (by decide)
      (ih (hGenuine.of_suffix hWord.suffix)).2⟩
  | range hWord hLow hHigh ihLow ihHigh =>
    intro _
    have hAfter := hGenuine.of_suffix hWord.suffix
    refine ⟨rfl, ?_⟩
    rw [hWord.significant_eq rfl, (ihLow hAfter).2, significant_cons rfl,
      (ihHigh (hAfter.of_derives hLow).tail).2, Node.between, Node.traversal_ofForm]
    simp [Form.map, Form.traverse, TokenKind.withoutQuote]
  | argumentsNone => exact significant_skip rfl
  | argumentsSome hFront hItems ih =>
    show significant _ = _
    rw [ih hGenuine, significant_skip rfl]
  | items hFirst hFurther ihFirst ihFurther =>
    show significant _ = _
    rw [ihFirst hGenuine, ihFurther (hGenuine.of_derives hFirst)]
    simp
  | furtherDone => rfl
  | furtherMore hItem hFurther ihItem ihFurther =>
    show significant _ = _
    rw [significant_skip rfl, ihItem hGenuine.tail, ihFurther (hGenuine.tail.of_derives hItem)]
    simp
  | expressionItem hNode ih => exact (ih hGenuine).2
  | target hNode hAlias ih =>
    obtain ⟨hPlain, hKinds⟩ := ih hGenuine
    exact hKinds.trans (hAlias.significant_eq hPlain)
  | entry hField hDirection hNulls ih =>
    show significant _ = _
    rw [(ih hGenuine).2, hDirection.significant_eq, hNulls.significant_eq, Node.traversal_ofForm]
    simp [Form.map, Form.traverse, Form.parts]
  | table hTable hAlias =>
    obtain ⟨hPlain, hKind, hNode⟩ := Dialect.traversal_of_table? hTable hGenuine.head
    show significant _ = _
    rw [significant_cons hKind, ← hAlias.significant_eq hPlain, hNode]
    rfl
  | derivedTable hSelect hAlias ih =>
    obtain ⟨hPlain, hKinds⟩ := ih hGenuine.tail
    exact (significant_enclosed hKinds).trans (hAlias.significant_eq hPlain)
  | joinsDone => rfl
  | @joinsMore _ join left right _ condition _ _ hs is _ hKind hRight hComma hCondition hJoins
      ihRight ihCondition ihJoins =>
    have hAfter := hGenuine.tail.of_derives hRight
    have hBoth : significant hs = condition.toList.flatMap Node.traversal ++ significant is ∧
        AllGenuine is := by
      by_cases hJoin : join = .comma
      · obtain ⟨rfl, rfl⟩ := hComma hJoin
        exact ⟨rfl, hAfter⟩
      · exact ⟨ihCondition hJoin hAfter rfl, hAfter.of_derives (hCondition hJoin)⟩
    show _ ++ significant _ = _
    rw [significant_skip (isSignificant_of_joinKind? hKind), ihRight hGenuine.tail, hBoth.1,
      ← ihJoins hBoth.2, Node.traversal_ofForm]
    cases condition <;> simp [Form.map, Form.traverse, Form.parts]
  | clauseNone => exact fun _ => rfl
  | clauseSome hNode ih =>
    intro hWord
    rw [significant_skip hWord, (ih hGenuine.tail).2]
    simp
  | listClauseNone => exact fun _ => rfl
  | listClauseSome hItems ih =>
    intro hWord
    rw [significant_skip hWord, ih hGenuine.tail]
  | sourceClauseNone => rfl
  | sourceClauseSome hFirst hJoins ihFirst ihJoins =>
    show significant _ = _
    rw [significant_skip rfl, ihFirst hGenuine.tail, ihJoins (hGenuine.tail.of_derives hFirst)]
    simp
  | select hDistinct hTargets hSource hCondition hGroups hHaving hOrdering hLimit hOffset
      ihTargets ihSource ihCondition ihGroups ihHaving ihOrdering ihLimit ihOffset =>
    have h₂ := hGenuine.tail.of_suffix hDistinct.suffix
    have h₃ := h₂.of_derives hTargets
    have h₄ := h₃.of_derives hSource
    have h₅ := h₄.of_derives hCondition
    have h₆ := h₅.of_derives hGroups
    have h₇ := h₆.of_derives hHaving
    have h₈ := h₇.of_derives hOrdering
    have h₉ := h₈.of_derives hLimit
    refine ⟨rfl, ?_⟩
    rw [significant_skip rfl, hDistinct.significant_eq, ihTargets h₂, ihSource h₃,
      ihCondition h₄ rfl, ihGroups h₅ rfl, ihHaving h₆ rfl, ihOrdering h₇ rfl, ihLimit h₈ rfl,
      ihOffset h₉ rfl, Node.traversal_ofForm]
    show _ = (Form.map Node.traversal (.select _)).parts.flatten ++ _
    rw [Form.parts_map, ← List.flatMap_def]
    simp [Form.parts, Query.parts]
  | bareQuery hFront hSelect ih => exact ih hGenuine
  | enclosedQuery hQuery ih =>
    obtain ⟨hAlias, hKinds⟩ := ih hGenuine.tail
    exact ⟨hAlias, significant_enclosed hKinds⟩

/-! ## Parsed trees -/

theorem DerivesStatement.significant_eq {dialect : Dialect} {node : Node} {gs : List Glyph}
    (hDerives : DerivesStatement dialect node gs) (hGenuine : AllGenuine gs) :
    significant gs = node.traversal := by
  rcases hDerives with hQuery | ⟨text, hQuery⟩
  · rw [(hQuery.traversed hGenuine).2, Glyph.significant_nil, List.append_nil]
  · rw [(hQuery.traversed hGenuine).2, significant_skip rfl, Glyph.significant_nil, List.append_nil]

/-- The token of the end is not significant. -/
theorem TokenStream.Closed.significantKinds_toList {stream : TokenStream}
    (hClosed : stream.Closed) :
    significantKinds (stream.toList.map (·.kind)) = significant stream.glyphs := by
  have hLast : stream.last.kind.isSignificant = false := by
    rw [show stream.last.kind = .finish from hClosed]
    rfl
  simp [significant, significantKinds, TokenStream.toList, TokenStream.glyphs, Token.glyph, hLast,
    Function.comp_def]

/--
**No token is lost, doubled or moved by parsing**: the operand and operator
tokens of a parsed text, in their order, are the traversal of its tree.
-/
theorem parse_traversal {source : String} {dialect : Dialect} {node : Node}
    (hParse : parse source dialect = .ok node) :
    ∃ stream, dialect.grammar.tokens.tokenize source = .ok stream ∧
      significantKinds (stream.toList.map (·.kind)) = node.traversal := by
  obtain ⟨stream, hTokens, hReads, hDerives⟩ := derives_of_parse false hParse (by simp)
  obtain ⟨-, hClosed, -⟩ :=
    Dialect.reads_of_tokenize hTokens fun h : false = true => absurd h Bool.false_ne_true
  refine ⟨stream, hTokens, ?_⟩
  rw [hClosed.significantKinds_toList, hDerives.significant_eq hReads.genuine]

/-- A text with a cast, a negated test, a range and aliases. -/
def mixedText : String :=
  "select cast(a as decimal(10, 2)) x, @v NOT IN (1, NULL) " ++
    "from t as u where `b` not between 0 and ?"

/-- The tree of that text. -/
def mixedQuery : Node :=
  .ofForm (.select
    { targets :=
        [(Node.ofForm (.typeCast "decimal(10, 2)" (.identifier "a" none))).withAlias "x",
          .binary "NOT IN" (.ofForm (.variableName "v" false))
            (.tuple [.constant (.integer 1), .null])]
      source := some ((Node.identifier "t" none).withAlias "u")
      condition := some
        (.between (.identifier "b" (some Token.backtick)) (.constant (.integer 0)) .parameter
          true) })

theorem parse_mixedText : parse mixedText .mysql = .ok mixedQuery := by
  decide +kernel

theorem parse_traversal_mixedText :
    ∃ stream, Dialect.mysql.grammar.tokens.tokenize mixedText = .ok stream ∧
      significantKinds (stream.toList.map (·.kind)) = mixedQuery.traversal :=
  parse_traversal parse_mixedText

end SqlQuery
