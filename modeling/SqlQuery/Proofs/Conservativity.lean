import SqlQuery.Proofs.Dispatch
import SqlQuery.Proofs.Extensions
import SqlQuery.Proofs.OperatorOrder
import SqlQuery.Proofs.Traversal

/-!
# Variables and the generic dialect

The MySQL dialect adds variables to the generic one and nothing else.  Its rules
for variables outrank those of numbers, texts, names and marks, but they apply
only at an at sign, where the generic dialect has no token at all.  So the two
dialects read the same tokens up to the first variable, and there the generic
dialect stops.  On tokens without a variable their parsers are the same, errors
included.

Whether a text holds a variable can be seen from its tree: the variables of the
text are among its operands, and these are all in the tree.

## Main definitions

* `Node.HasVariable` — trees with a variable somewhere inside.
* `TokenStream.FirstVariable` — the first variable among the tokens of a text.

## Main results

* `Lexer.tokenizeWithin_generic` — the tokens of a text in both dialects.
* `Grammar.statement_generic` — statements without variables in both dialects.
* `parse_conservative` — the trees and errors of a text in both dialects.
-/

namespace SqlQuery

/-! ## Variables -/

def TokenKind.isVariable : TokenKind → Bool
  | .userVariable _ | .systemVariable _ => true
  | _ => false

def Form.isVariable {α : Type} : Form α → Bool
  | .variableName .. => true
  | _ => false

/-- A variable stands somewhere inside a tree. -/
def Node.HasVariable (node : Node) : Prop :=
  ∃ inner, Inside inner node ∧ inner.form.isVariable = true

/-- The token is the first variable of a stream. -/
def TokenStream.FirstVariable (stream : TokenStream) (token : Token) : Prop :=
  ∃ before after, stream.ahead = before ++ token :: after ∧ token.kind.isVariable = true ∧
    ∀ other ∈ before, other.kind.isVariable = false

/-! ## Variables in trees -/

theorem isVariable_of_mem_operatorKinds {op : String} {kind : TokenKind}
    (hMem : kind ∈ operatorKinds op) : kind.isVariable = false := by
  have hTable : ∀ entry ∈ operatorTable, ∀ kind ∈ entry.2, kind.isVariable = false := by decide
  rw [operatorKinds] at hMem
  cases hFound : operatorTable.find? (fun entry => Text.sameWord entry.1.toList op.toList) with
  | none =>
    rw [hFound] at hMem
    exact absurd hMem List.not_mem_nil
  | some entry =>
    rw [hFound] at hMem
    exact hTable entry (List.mem_of_find?_eq_some hFound) kind hMem

theorem isVariable_pieceKind (piece : List Char) : (pieceKind piece).isVariable = false := by
  rw [pieceKind]
  split <;> rfl

theorem any_isVariable_pieceKinds (cs : List Char) :
    (pieceKinds cs).any TokenKind.isVariable = false := by
  simp [pieceKinds, isVariable_pieceKind]

theorem any_isVariable_typeKinds (name : String) :
    (typeKinds name).any TokenKind.isVariable = false := by
  rw [typeKinds]
  split
  · rfl
  · split
    · simp [any_isVariable_pieceKinds, TokenKind.isVariable]
    · exact any_isVariable_pieceKinds _

/-- The variables in the traversal of a form are those of its parts, and the
form itself. -/
theorem Form.any_traverse (form : Form (List TokenKind)) :
    form.traverse.any TokenKind.isVariable =
      (form.isVariable || form.parts.any fun part => part.any TokenKind.isVariable) := by
  have hOperator : ∀ op, (operatorKinds op).any TokenKind.isVariable = false := fun op =>
    List.any_eq_false.2 fun kind hMem => by rw [isVariable_of_mem_operatorKinds hMem]; decide
  cases form with
  | identifier value wrap =>
    rw [traverse]
    split <;> rfl
  | constant value => cases value <;> first | rfl | (next b => cases b <;> rfl)
  | variableName name system => cases system <;> rfl
  | nullConstant => rfl
  | parameter => rfl
  | operation op args => exact List.any_flatten
  | binary op left right => simp [traverse, parts, isVariable, hOperator]
  | unary op arg => simp [traverse, parts, isVariable, hOperator]
  | call name args distinct => simp [traverse, parts, isVariable, TokenKind.isVariable]
  | between subject low high negated =>
    cases negated <;> simp [traverse, parts, isVariable, TokenKind.isVariable]
  | tuple items => exact List.any_flatten
  | select query => exact List.any_flatten
  | join left right kind condition => exact List.any_flatten
  | orderBy field direction nulls => exact List.any_flatten
  | typeCast typeName arg => simp [traverse, parts, isVariable, any_isVariable_typeKinds]
  | caseWhen rules default => exact List.any_flatten

theorem Node.hasVariable_mk {form : Form Node} {aliasName : Option String} {parentheses : Bool} :
    HasVariable ⟨form, aliasName, parentheses⟩ ↔
      form.isVariable = true ∨ ∃ part ∈ form.parts, part.HasVariable := by
  constructor
  · rintro ⟨inner, hInside, hInner⟩
    cases hInside with
    | self => exact Or.inl hInner
    | part hPart hInside => exact Or.inr ⟨_, hPart, inner, hInside, hInner⟩
  · rintro (hForm | ⟨part, hPart, inner, hInside, hInner⟩)
    · exact ⟨_, .self _, hForm⟩
    · exact ⟨inner, .part hPart hInside, hInner⟩

/-- A tree has a variable if and only if its traversal does. -/
theorem Node.any_traversal_iff (node : Node) :
    node.traversal.any TokenKind.isVariable = true ↔ node.HasVariable := by
  induction node using Node.induction with
  | step form aliasName parentheses ih =>
    have hAlias : (aliasName.toList.map fun name => TokenKind.identifier name none).any
        TokenKind.isVariable = false := by
      cases aliasName <;> rfl
    have hForm : (form.map traversal).isVariable = form.isVariable := by
      cases form <;> rfl
    rw [traversal_mk, List.any_append, hAlias, Bool.or_false, Form.any_traverse, Form.parts_map,
      hForm, hasVariable_mk, Bool.or_eq_true, List.any_map, List.any_eq_true]
    exact or_congr_right (exists_congr fun part => and_congr_right fun hPart => ih part hPart)

/-- A parsed text has a variable if and only if its tree does. -/
theorem DerivesStatement.hasVariable_iff {dialect : Dialect} {node : Node} {gs : List Glyph}
    (hDerives : DerivesStatement dialect node gs) (hGenuine : Glyph.AllGenuine gs) :
    node.HasVariable ↔ ∃ glyph ∈ gs, glyph.kind.isVariable = true := by
  have hSignificant : ∀ kind : TokenKind,
      (kind.isSignificant && kind.withoutQuote.isVariable) = kind.isVariable := by
    intro kind
    cases kind <;> first | rfl | (next word => cases word <;> rfl)
  rw [← Node.any_traversal_iff, ← hDerives.significant_eq hGenuine, Glyph.significant,
    significantKinds, List.any_map, List.any_filter, List.any_map, List.any_eq_true]
  simp only [Function.comp_apply, hSignificant]

/-! ## Tokens -/

section Tokens

open RuleSet

variable {cs lexeme : List Char} {kind : TokenKind}

/-- The rules of the generic dialect find no variables. -/
theorem Dialect.isVariable_of_first?
    (hMatch : Grammar.generic.tokens.first? cs = some (lexeme, some kind)) :
    kind.isVariable = false := by
  obtain ⟨rule, hMem, hRule⟩ := List.exists_of_findSome?_eq_some hMatch
  have hMem' : rule ∈ phrases ++ lower := rules_base ▸ hMem
  rcases List.mem_append.1 hMem' with hPhrase | hLower
  · obtain ⟨first, further, keyword, hIs⟩ := exists_isPhrase hPhrase
    obtain ⟨-, -, -, -, -, -, -, hKind⟩ := hIs.match?_eq_some_iff.1 hRule
    cases hKind
    rfl
  · simp only [lower, List.mem_cons] at hLower
    rcases hLower with rfl | rfl | rfl | rfl | hMark
    · obtain ⟨-, -, -, -, hRead⟩ := TokenRule.scanned_match? hRule
      rcases Token.readNumber_cases hRead with ⟨value, rfl⟩ | ⟨value, rfl⟩ <;> rfl
    · obtain ⟨-, -, -, -, hRead⟩ := TokenRule.scanned_match? hRule
      obtain ⟨value, rfl⟩ := Token.exists_of_readText hRead
      rfl
    · obtain ⟨-, -, -, -, hRead⟩ := TokenRule.scanned_match? hRule
      obtain ⟨value, rfl⟩ := Token.exists_of_readText hRead
      rfl
    · obtain ⟨-, -, -, -, hRead⟩ := TokenRule.scanned_match? hRule
      obtain ⟨parts, -, hParts⟩ := Option.map_eq_some_iff.1 hRead
      dsimp only at hParts
      split at hParts <;> cases hParts <;> rfl
    · simp only [marks, List.mem_cons, List.not_mem_nil, or_false] at hMark
      rcases hMark with rfl | rfl | rfl | rfl | rfl | rfl | rfl | rfl | rfl | rfl | rfl | rfl |
        rfl | rfl | rfl | rfl | rfl | rfl <;>
        obtain ⟨-, rfl⟩ := TokenRule.symbol_match? hRule <;> rfl

/-- Apart from at signs, the dialects find the same. -/
theorem Dialect.first?_mysql {c : Char} (hSign : c ≠ '@') :
    Grammar.mysql.tokens.first? (c :: cs) = Grammar.generic.tokens.first? (c :: cs) := by
  have hEach : ∀ dialect : Dialect, dialect.grammar.tokens.first? (c :: cs) =
      (phrases.findSome? (·.match? (c :: cs))).or (lower.findSome? (·.match? (c :: cs))) := by
    intro dialect
    rw [first?_eq, findSome?_of_shuns dialect.variableRules
      fun rule hMem => shuns_variable hMem hSign, Option.none_or]
  exact (hEach .mysql).trans (hEach .generic).symm

/-- At an at sign the generic dialect finds nothing. -/
theorem Dialect.first?_generic_at : Grammar.generic.tokens.first? ('@' :: cs) = none := by
  show Dialect.generic.grammar.tokens.first? ('@' :: cs) = none
  rw [first?_of_at]
  rfl

/-- What the MySQL dialect finds at an at sign is a variable. -/
theorem Dialect.isVariable_of_first?_at
    (hMatch : Grammar.mysql.tokens.first? ('@' :: cs) = some (lexeme, some kind)) :
    kind.isVariable = true := by
  have hFound : Dialect.mysql.grammar.tokens.first? ('@' :: cs) = some (lexeme, some kind) := hMatch
  rw [first?_of_at] at hFound
  obtain ⟨rule, hMem, hRule⟩ := List.exists_of_findSome?_eq_some hFound
  simp only [variableRules, List.mem_cons, List.not_mem_nil, or_false] at hMem
  rcases hMem with rfl | rfl
  · obtain ⟨-, -, -, -, hRead⟩ := TokenRule.scanned_match? hRule
    unfold Token.readSystemVariable at hRead
    split at hRead <;> cases hRead
    rfl
  · obtain ⟨-, -, -, -, hRead⟩ := TokenRule.scanned_match? hRule
    unfold Token.readUserVariable at hRead
    split at hRead <;> cases hRead
    rfl

end Tokens

namespace TokenStream

variable {stream : TokenStream} {token first : Token}

theorem firstVariable_cons_self (hToken : token.kind.isVariable = true) :
    (stream.cons token).FirstVariable token :=
  ⟨[], stream.ahead, rfl, hToken, fun _ hMem => absurd hMem List.not_mem_nil⟩

theorem FirstVariable.cons (hFirst : stream.FirstVariable first)
    (hToken : token.kind.isVariable = false) : (stream.cons token).FirstVariable first := by
  obtain ⟨before, after, hAhead, hVariable, hBefore⟩ := hFirst
  refine ⟨token :: before, after, ?_, hVariable, List.forall_mem_cons.2 ⟨hToken, hBefore⟩⟩
  rw [TokenStream.cons, hAhead]
  rfl

end TokenStream

namespace Lexer

variable {lexer after : Lexer} {token : Token}

theorem start_of_next_ok (hNext : lexer.next = (.ok token, after)) :
    token.span.start = lexer.skip.position := by
  rw [next, read] at hNext
  split at hNext
  · cases hNext
    rfl
  · split at hNext <;> cases hNext
    rfl

theorem start_of_next_error {e : LexicalError} (hNext : lexer.next = (.error e, after)) :
    e.span.start = lexer.skip.position := by
  rw [next, read] at hNext
  split at hNext
  · cases hNext
  · split at hNext <;> cases hNext <;> rfl

/-- A token is the end, or what the first match gives. -/
theorem first?_of_next_ok (hNext : lexer.next = (.ok token, after)) :
    token.kind = .finish ∧ lexer.skip.rest = [] ∨
      lexer.skip.rest ≠ [] ∧
        ∃ lexeme, lexer.rules.first? lexer.skip.rest = some (lexeme, some token.kind) := by
  rw [next, read] at hNext
  split at hNext
  · next hRest =>
    cases hNext
    exact Or.inl ⟨rfl, List.isEmpty_iff.1 hRest⟩
  · next hRest =>
    split at hNext
    · next lexeme kind hMatch =>
      cases hNext
      exact Or.inr ⟨fun hNil => hRest (List.isEmpty_iff.2 hNil), lexeme, hMatch⟩
    · cases hNext
    · cases hNext

/-- Where there is no at sign, both dialects read the same, which is no
variable. -/
theorem next_generic (hRules : lexer.rules = Grammar.mysql.tokens)
    (hSign : '@' ∉ lexer.skip.rest.head?) :
    (lexer.withRules Grammar.generic.tokens).next =
        (lexer.next.1, lexer.next.2.withRules Grammar.generic.tokens) ∧
      ∀ token after, lexer.next = (.ok token, after) → token.kind.isVariable = false := by
  have hMatch : lexer.skip.rest ≠ [] →
      Grammar.generic.tokens.first? lexer.skip.rest = lexer.rules.first? lexer.skip.rest := by
    intro hRest
    obtain ⟨c, cs, hCons⟩ := List.exists_cons_of_ne_nil hRest
    have hNe : c ≠ '@' := by
      rintro rfl
      exact hSign (by rw [hCons]; rfl)
    rw [hRules, hCons, Dialect.first?_mysql hNe]
  refine ⟨next_withRules hMatch, fun token after hNext => ?_⟩
  rcases first?_of_next_ok hNext with ⟨hKind, -⟩ | ⟨hRest, lexeme, hFound⟩
  · rw [hKind]
    rfl
  · rw [← hMatch hRest] at hFound
    exact Dialect.isVariable_of_first? hFound

/-- At an at sign the generic dialect fails, and what the other reads is a
variable. -/
theorem next_generic_at (hRules : lexer.rules = Grammar.mysql.tokens)
    (hSign : '@' ∈ lexer.skip.rest.head?) :
    (∃ e after, (lexer.withRules Grammar.generic.tokens).next = (.error e, after)) ∧
      ∀ token after, lexer.next = (.ok token, after) →
        token.kind.isFinish = false ∧ token.kind.isVariable = true := by
  obtain ⟨cs, hRest⟩ : ∃ cs, lexer.skip.rest = '@' :: cs := by
    cases hCons : lexer.skip.rest with
    | nil => rw [hCons] at hSign; cases hSign
    | cons c cs => rw [hCons] at hSign; cases hSign; exact ⟨cs, rfl⟩
  constructor
  · have hNone : (lexer.withRules Grammar.generic.tokens).skip.firstMatch? = none := by
      rw [firstMatch?_eq_first?]
      show Grammar.generic.tokens.first? lexer.skip.rest = none
      rw [hRest]
      exact Dialect.first?_generic_at
    have hEmpty : ¬(lexer.withRules Grammar.generic.tokens).skip.rest.isEmpty = true := by
      rw [show (lexer.withRules Grammar.generic.tokens).skip.rest = lexer.skip.rest from rfl, hRest]
      exact Bool.false_ne_true
    exact ⟨_, _, by rw [next, read, if_neg hEmpty, hNone]⟩
  · intro token after hNext
    rcases first?_of_next_ok hNext with ⟨-, hNil⟩ | ⟨-, lexeme, hFound⟩
    · rw [hRest] at hNil
      cases hNil
    · rw [hRest, hRules] at hFound
      have hVariable := Dialect.isVariable_of_first?_at hFound
      refine ⟨?_, hVariable⟩
      cases hKind : token.kind <;> rw [hKind] at hVariable <;> first | rfl | cases hVariable

/-- The tokens of a text in both dialects: they are the same and hold no
variable, or the generic dialect fails where the first variable stands. -/
theorem tokenizeWithin_generic (limit : Nat) {lexer : Lexer}
    (hRules : lexer.rules = Grammar.mysql.tokens) :
    ((lexer.withRules Grammar.generic.tokens).tokenizeWithin limit = lexer.tokenizeWithin limit ∧
        ∀ stream, lexer.tokenizeWithin limit = .ok stream →
          ∀ token ∈ stream.ahead, token.kind.isVariable = false) ∨
      ∃ e, (lexer.withRules Grammar.generic.tokens).tokenizeWithin limit = .error e ∧
        ∀ stream, lexer.tokenizeWithin limit = .ok stream →
          ∃ token, stream.FirstVariable token ∧ e.span.start = token.span.start := by
  induction limit generalizing lexer with
  | zero => exact Or.inl ⟨rfl, fun stream hTokens => by cases hTokens⟩
  | succ limit ih =>
    rw [tokenizeWithin, tokenizeWithin]
    by_cases hSign : '@' ∈ lexer.skip.rest.head?
    · obtain ⟨⟨e, after, hGeneric⟩, hVariable⟩ := next_generic_at hRules hSign
      rw [hGeneric]
      refine Or.inr ⟨e, rfl, fun stream hTokens => ?_⟩
      have hStart := start_of_next_error hGeneric
      split at hTokens
      · cases hTokens
      · next token after' hNext =>
        obtain ⟨hFinish, hToken⟩ := hVariable token after' hNext
        rw [if_neg (by rw [hFinish]; exact Bool.false_ne_true)] at hTokens
        cases hRest : after'.tokenizeWithin limit with
        | error e => rw [hRest] at hTokens; cases hTokens
        | ok rest =>
          rw [hRest] at hTokens
          cases hTokens
          exact ⟨token, TokenStream.firstVariable_cons_self hToken,
            hStart.trans (start_of_next_ok hNext).symm⟩
    · obtain ⟨hGeneric, hPlain⟩ := next_generic hRules hSign
      rw [hGeneric]
      cases hNext : lexer.next with
      | mk reply after =>
        cases reply with
        | error e => exact Or.inl ⟨rfl, fun stream hTokens => by cases hTokens⟩
        | ok token =>
          have hToken := hPlain token after hNext
          dsimp only
          split
          · refine Or.inl ⟨rfl, fun stream hTokens => ?_⟩
            cases hTokens
            exact fun _ hMem => absurd hMem List.not_mem_nil
          · rcases ih ((rules_of_next hNext).trans hRules) with ⟨hSame, hAhead⟩ |
              ⟨e, hError, hFirst⟩
            · refine Or.inl ⟨by rw [hSame], fun stream hTokens => ?_⟩
              cases hRest : after.tokenizeWithin limit with
              | error e => rw [hRest] at hTokens; cases hTokens
              | ok rest =>
                rw [hRest] at hTokens
                cases hTokens
                exact List.forall_mem_cons.2 ⟨hToken, hAhead rest hRest⟩
            · refine Or.inr ⟨e, by rw [hError]; rfl, fun stream hTokens => ?_⟩
              cases hRest : after.tokenizeWithin limit with
              | error e => rw [hRest] at hTokens; cases hTokens
              | ok rest =>
                rw [hRest] at hTokens
                cases hTokens
                obtain ⟨first, hFirst, hStart⟩ := hFirst rest hRest
                exact ⟨first, hFirst.cons hToken, hStart⟩

end Lexer

/-! ## Statements -/

/-- Runs on the same stream, which holds no variable. -/
def Comparison.withoutVariables : Comparison where
  Streams stream stream' := stream = stream' ∧
    (∀ token ∈ stream.ahead, token.kind.isVariable = false) ∧ stream.last.kind.isVariable = false
  Errors e e' := e = e'
  Waived _ := False
  view := id
  view_append := @view_append_id
  length_eq h := by rw [h.1]
  peek_alike h n := by
    rw [h.1]
    exact .same _
  lexeme_eq h := by rw [h.1]
  streams_advance h :=
    ⟨by rw [h.1], fun token hMem => h.2.1 token (List.mem_of_mem_tail hMem), h.2.2⟩
  errors_unexpected h _ := by rw [h.1]
  errors_structural := structural_refl
  errors_tooDeep := rfl

namespace Grammar

/-- The MySQL dialect has a production of its own for variables only. -/
theorem production?_mysql (symbol : Symbol) {kind : TokenKind} (hKind : kind.isVariable = false) :
    mysql.production? symbol kind = generic.production? symbol kind := by
  have hStarts : ∀ symbol, (Production.variableName symbol).starts kind = false := by
    intro symbol
    cases kind <;> first | rfl | cases hKind
  have hProductions : mysql.productions =
      Production.base ++ [.variableName .operand, .variableName .source] := rfl
  have hAdded : ([Production.variableName .operand, .variableName .source].filter
      (·.symbol == symbol)).find? (·.starts kind) = none := by
    rw [List.find?_eq_none]
    intro production hMem
    have hOne := (List.mem_filter.1 hMem).1
    simp only [List.mem_cons, List.not_mem_nil, or_false] at hOne
    rcases hOne with rfl | rfl <;> rw [hStarts] <;> exact Bool.false_ne_true
  rw [production?, alternatives, hProductions, List.filter_append, List.find?_append, hAdded,
    Option.or_none]
  rfl

/-- Grammars that find the same production for the token at the front derive the
same. -/
theorem derive_congr {a b : Grammar} {symbol : Symbol} (expected : String) (inner : Subparsers)
    {stream : TokenStream}
    (hSame : a.production? symbol stream.current.kind = b.production? symbol stream.current.kind) :
    a.derive symbol expected inner stream = b.derive symbol expected inner stream := by
  simp only [derive, Parser.bind_apply, Parser.current]
  rw [hSame]

theorem grammars_generic_mysql : Comparison.withoutVariables.Grammars generic mysql where
  precedence := rfl
  derive symbol expected inner inner' hLevels := by
    intro stream stream' hStreams
    obtain ⟨rfl, hAhead, hLast⟩ := hStreams
    have hKind : stream.current.kind.isVariable = false := by
      obtain ⟨_ | ⟨token, ahead⟩, last⟩ := stream
      · exact hLast
      · exact hAhead token List.mem_cons_self
    have hSame : mysql.derive symbol expected inner' stream =
        generic.derive symbol expected inner' stream := by
      exact derive_congr expected inner' (production?_mysql symbol hKind)
    rw [hSame]
    have hGeneric : Comparison.withoutVariables.Grammars generic generic :=
      .refl fun _ hMem => Comparison.reduces_of_mem_base hMem
    exact hGeneric.derive symbol expected hLevels stream stream ⟨rfl, hAhead, hLast⟩

/-- On tokens without a variable both dialects give the same. -/
theorem outcome_generic {stream : TokenStream}
    (hAhead : ∀ token ∈ stream.ahead, token.kind.isVariable = false)
    (hLast : stream.last.kind.isVariable = false) :
    (generic.statement stream).outcome = (mysql.statement stream).outcome := by
  have hReplies := grammars_generic_mysql.statement stream stream ⟨rfl, hAhead, hLast⟩
  generalize generic.statement stream = reply at hReplies
  generalize mysql.statement stream = reply' at hReplies
  cases hReplies with
  | ok hValue _ =>
    rw [eq_of_mapTexts_id hValue]
    rfl
  | fail hError => exact congrArg Except.error hError
  | waived hError => exact hError.elim

end Grammar

/-! ## Texts -/

/-- The trees and errors of a text in both dialects, by its tokens in the MySQL
dialect. -/
theorem parse_generic_cases (source : String) :
    (parse source .generic = parse source .mysql ∧
        ∀ stream, Grammar.mysql.tokens.tokenize source = .ok stream →
          ∀ token ∈ stream.ahead, token.kind.isVariable = false) ∨
      ∃ e, parse source .generic = .error (.lexical e) ∧
        ∀ stream, Grammar.mysql.tokens.tokenize source = .ok stream →
          ∃ token, stream.FirstVariable token ∧ e.span.start = token.span.start := by
  have hRules : (Lexer.start Grammar.mysql.tokens source).rules = Grammar.mysql.tokens := rfl
  rcases Lexer.tokenizeWithin_generic (source.toList.length + 1) hRules with
    ⟨hSame, hAhead⟩ | ⟨e, hError, hFirst⟩
  · refine Or.inl ⟨?_, hAhead⟩
    have hTokens : Grammar.generic.tokens.tokenize source = Grammar.mysql.tokens.tokenize source :=
      hSame
    cases hMysql : Grammar.mysql.tokens.tokenize source with
    | error e =>
      exact (Grammar.parse_of_tokenize_error (hTokens.trans hMysql)).trans
        (Grammar.parse_of_tokenize_error hMysql).symm
    | ok stream =>
      have hTokens' : Dialect.mysql.grammar.tokens.tokenize source = .ok stream := hMysql
      obtain ⟨-, hClosed, -⟩ :=
        Dialect.reads_of_tokenize hTokens' fun h : false = true => absurd h Bool.false_ne_true
      have hLast : stream.last.kind.isVariable = false := by
        rw [show stream.last.kind = .finish from hClosed]
        rfl
      calc Grammar.generic.parse source
          = (Grammar.generic.statement stream).outcome :=
            Grammar.parse_of_tokenize (hTokens.trans hMysql)
        _ = (Grammar.mysql.statement stream).outcome :=
            Grammar.outcome_generic (hAhead stream hMysql) hLast
        _ = Grammar.mysql.parse source := (Grammar.parse_of_tokenize hMysql).symm
  · exact Or.inr ⟨e, Grammar.parse_of_tokenize_error hError, hFirst⟩

/-- A tree has a variable exactly if the tokens of its text have one. -/
theorem tokenize_of_parse_mysql {source : String} {node : Node}
    (hParse : parse source .mysql = .ok node) :
    ∃ stream, Grammar.mysql.tokens.tokenize source = .ok stream ∧
      (node.HasVariable ↔ ∃ token ∈ stream.ahead, token.kind.isVariable = true) := by
  obtain ⟨stream, hTokens, hReads, hDerives⟩ := derives_of_parse false hParse (by simp)
  refine ⟨stream, hTokens, ?_⟩
  rw [hDerives.hasVariable_iff hReads.genuine, TokenStream.glyphs]
  simp [Token.glyph]

/-- A tree without a variable is the tree in the generic dialect too. -/
theorem parse_generic_of_mysql {source : String} {node : Node}
    (hParse : parse source .mysql = .ok node) (hNone : ¬node.HasVariable) :
    parse source .generic = .ok node := by
  rcases parse_generic_cases source with ⟨hSame, -⟩ | ⟨e, -, hFirst⟩
  · exact hSame.trans hParse
  · obtain ⟨stream, hTokens, hVariable⟩ := tokenize_of_parse_mysql hParse
    obtain ⟨token, ⟨before, after, hAhead, hToken, -⟩, -⟩ := hFirst stream hTokens
    exact absurd (hVariable.2 ⟨token, by simp [hAhead], hToken⟩) hNone

/--
**The MySQL dialect is a conservative extension of the generic one.**

* What has a tree or a syntax error in the generic dialect has the same in the
  MySQL dialect.
* A tree of the MySQL dialect without a variable is the tree in the generic
  dialect.
* A text whose tree in the MySQL dialect has a variable has a lexical error in
  the generic dialect, and this starts at the first variable of the text.
-/
theorem parse_conservative (source : String) :
    (∀ node, parse source .generic = .ok node → parse source .mysql = .ok node) ∧
      (∀ e, parse source .generic = .error (.grammatical e) →
        parse source .mysql = .error (.grammatical e)) ∧
      (∀ node, parse source .mysql = .ok node → ¬node.HasVariable →
        parse source .generic = .ok node) ∧
      ∀ node, parse source .mysql = .ok node → node.HasVariable →
        ∃ stream token e, Grammar.mysql.tokens.tokenize source = .ok stream ∧
          stream.FirstVariable token ∧ parse source .generic = .error (.lexical e) ∧
          e.span.start = token.span.start := by
  rcases parse_generic_cases source with ⟨hSame, hAhead⟩ | ⟨e, hError, hFirst⟩
  · refine ⟨fun node h => hSame ▸ h, fun e h => hSame ▸ h, fun _ => parse_generic_of_mysql,
      fun node hParse hHas => ?_⟩
    obtain ⟨stream, hTokens, hVariable⟩ := tokenize_of_parse_mysql hParse
    obtain ⟨token, hMem, hToken⟩ := hVariable.1 hHas
    rw [hAhead stream hTokens token hMem] at hToken
    cases hToken
  · refine ⟨fun node h => ?_, fun e' h => ?_, fun _ => parse_generic_of_mysql,
      fun node hParse _ => ?_⟩
    · rw [hError] at h
      cases h
    · rw [hError] at h
      cases h
    · obtain ⟨stream, hTokens, -⟩ := tokenize_of_parse_mysql hParse
      obtain ⟨token, hToken, hStart⟩ := hFirst stream hTokens
      exact ⟨stream, token, e, hTokens, hToken, hError, hStart⟩

/-- The tree of a query for a column and a variable. -/
def variableQuery : Node :=
  .ofForm (.select
    { targets := [.identifier "a" none, .ofForm (.variableName "v" false)] })

theorem parse_conservative_variableQuery :
    ∃ stream token e, Grammar.mysql.tokens.tokenize "SELECT a, @v" = .ok stream ∧
      stream.FirstVariable token ∧ parse "SELECT a, @v" .generic = .error (.lexical e) ∧
      e.span.start = token.span.start := by
  have hHas : variableQuery.HasVariable :=
    ⟨.ofForm (.variableName "v" false), .part (List.mem_cons_of_mem _ List.mem_cons_self) (.self _),
      rfl⟩
  exact (parse_conservative "SELECT a, @v").2.2.2 variableQuery (by decide +kernel) hHas

end SqlQuery
