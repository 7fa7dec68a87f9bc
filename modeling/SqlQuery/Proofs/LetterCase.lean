import Mathlib.Data.List.Forall2
import SqlQuery.Node.Render
import SqlQuery.Proofs.Places
import SqlQuery.Proofs.UpperCase

/-!
# Letter case and trees

Two texts that differ only in the case of letters of ASCII are the same to all
that looks at the structure of a query.  They are divided into tokens alike;
their parses both fail, at the same place and for want of the same, or both give
a tree, and the two trees differ only in the case of the texts in them.  Their
texts when written again differ in nothing else either: whether an alias needs
quotes, and which quotes a text gets, does not depend on letter case.

## Main definitions

* `Outcomes` — outcomes that both succeed or both fail, with related results.
* `ParseError.Alike` — errors of the same kind, at the same place, for want of
  the same.
* `Comparison.letterCase` — runs on streams that differ in letter case only.

## Main results

* `Node.toUpper_render` — the text of a tree whose texts are in upper case.
* `parse_letterCase` — texts that differ only in letter case parse alike.
-/

namespace SqlQuery

/-! ## Rendering -/

namespace Text

theorem toUpper_append (a b : String) : (a ++ b).toUpper = a.toUpper ++ b.toUpper := by
  simp only [← String.toList_inj, toList_toUpper, String.toList_append, List.map_append]

theorem toUpper_toUpper_string (text : String) : text.toUpper.toUpper = text.toUpper := by
  simp only [← String.toList_inj, toList_toUpper, map_toUpper_toUpper]

theorem toUpper_intercalate (separator : String) (texts : List String) :
    (separator.intercalate texts).toUpper =
      separator.toUpper.intercalate (texts.map String.toUpper) := by
  induction texts with
  | nil => exact toUpper_ofList []
  | cons text texts ih =>
    cases texts with
    | nil => simp
    | cons second texts =>
      rw [String.intercalate_cons_cons, toUpper_append, toUpper_append, ih]
      exact String.intercalate_cons_cons.symm

theorem toUpper_join (texts : List String) :
    (String.join texts).toUpper = String.join (texts.map String.toUpper) := by
  induction texts with
  | nil => exact toUpper_ofList []
  | cons text texts ih => rw [String.join_cons, toUpper_append, ih, List.map_cons, String.join_cons]

end Text

open Text

theorem Value.toUpper_render (value : Value) :
    (mapTexts String.toUpper value).render.toUpper = value.render.toUpper := by
  cases value with
  | text value =>
    have hQuote : value.toUpper.toList.contains '\x22' = value.toList.contains '\x22' := by
      have hMark : Caseless ('\x22' == ·) := caseless_beq_left rfl
      rw [toList_toUpper, List.contains_eq_any_beq, List.contains_eq_any_beq, hMark.any]
    show ((if value.toUpper.toList.contains '\x22' then "\x27" else "\x22") ++ value.toUpper ++
      if value.toUpper.toList.contains '\x22' then "\x27" else "\x22").toUpper = _
    rw [hQuote, toUpper_append, toUpper_append, toUpper_toUpper_string]
    simp only [Value.render, toUpper_append]
  | _ => rfl

theorem RuleSet.startsPhrase_map_toUpper (rules : RuleSet) (word : List Char) :
    rules.startsPhrase (word.map Char.toUpper) = rules.startsPhrase word := by
  simp only [startsPhrase, Pattern.opensWith, sameWord_map_toUpper]

theorem isPlainWord_map_toUpper (word : List Char) :
    isPlainWord (word.map Char.toUpper) = isPlainWord word := by
  cases word with
  | nil => rfl
  | cons c cs =>
    show (isWordStart c.toUpper && (cs.map Char.toUpper).all isWordChar &&
      (Keyword.ofWord? ((c :: cs).map Char.toUpper)).isNone &&
      !RuleSet.base.startsPhrase ((c :: cs).map Char.toUpper)) = _
    rw [caseless_isWordStart c, caseless_isWordChar.all, Keyword.ofWord?_map_toUpper,
      RuleSet.startsPhrase_map_toUpper]
    rfl

theorem toUpper_renderAlias (aliasName : String) :
    (renderAlias aliasName.toUpper).toUpper = (renderAlias aliasName).toUpper := by
  rw [renderAlias, renderAlias, toList_toUpper, isPlainWord_map_toUpper]
  split
  · exact toUpper_toUpper_string aliasName
  · simp only [toUpper_append, toUpper_toUpper_string]

theorem toUpper_renderClause (keyword : String) (body : Option String) :
    (renderClause keyword (body.map String.toUpper)).toUpper =
      (renderClause keyword body).toUpper := by
  cases body with
  | none => rfl
  | some body => simp only [renderClause, Option.map_some, toUpper_append, toUpper_toUpper_string]

theorem toUpper_decorate {body body' : String} (hBody : body.toUpper = body'.toUpper)
    (aliasName : Option String) (parentheses : Bool) :
    (decorate body (mapTexts String.toUpper aliasName) parentheses).toUpper =
      (decorate body' aliasName parentheses).toUpper := by
  have hAlias : (renderClause "AS" ((mapTexts String.toUpper aliasName).map renderAlias)).toUpper =
      (renderClause "AS" (aliasName.map renderAlias)).toUpper := by
    cases aliasName with
    | none => rfl
    | some aliasName =>
      have hName : (renderAlias (mapTexts String.toUpper aliasName)).toUpper =
          (renderAlias aliasName).toUpper := toUpper_renderAlias aliasName
      simp only [mapTexts_some, Option.map_some, renderClause, toUpper_append, hName]
  rw [decorate, decorate, toUpper_append, hAlias, toUpper_append]
  cases parentheses with
  | false => exact congrArg (· ++ _) hBody
  | true => simp only [if_true, toUpper_append, hBody]

theorem toUpper_renderList (items : List String) :
    (renderList (items.map String.toUpper)).toUpper = (renderList items).toUpper := by
  simp only [renderList, toUpper_intercalate, List.map_map, Function.comp_def,
    toUpper_toUpper_string]

theorem toUpper_renderListClause (keyword : String) (items : List String) :
    (renderClause keyword (renderList? (items.map String.toUpper))).toUpper =
      (renderClause keyword (renderList? items)).toUpper := by
  cases items with
  | nil => rfl
  | cons item items =>
    have hList := toUpper_renderList (item :: items)
    rw [List.map_cons] at hList
    simp only [renderList?, List.map_cons, List.isEmpty_cons, Bool.false_eq_true, if_false,
      renderClause, toUpper_append, hList]

theorem Query.toUpper_renderParts (query : Query String) :
    (query.map String.toUpper).renderParts.toUpper = query.renderParts.toUpper := by
  delta renderParts
  simp only [map, toUpper_append, toUpper_renderList, toUpper_renderClause,
    toUpper_renderListClause]
  rfl

/-- Upper case in the texts of a form and of its parts changes its text in letter
case only. -/
theorem Form.toUpper_renderParts (form : Form String) :
    (mapTexts String.toUpper form).renderParts.toUpper = form.renderParts.toUpper := by
  show ((form.map String.toUpper).mapOwnTexts String.toUpper).renderParts.toUpper = _
  cases form with
  | constant value => exact value.toUpper_render
  | select query => exact query.toUpper_renderParts
  | identifier value wrap =>
    cases wrap <;> simp only [map, mapOwnTexts, renderParts, enclose, toUpper_append,
      toUpper_toUpper_string]
  | operation op args =>
    simp only [map, mapOwnTexts, renderParts, toUpper_append, toUpper_toUpper_string,
      toUpper_intercalate, List.map_map, Function.comp_def]
  | caseWhen rules default =>
    simp only [map, mapOwnTexts, renderParts, toUpper_append, toUpper_toUpper_string, toUpper_join,
      toUpper_renderClause, List.map_map, Function.comp_def]
  | _ =>
    simp only [map, mapOwnTexts, renderParts, toUpper_append, toUpper_toUpper_string,
      toUpper_renderList, toUpper_renderClause]

theorem Form.mapOwnTexts_map {α β : Type} (f : String → String) (F : α → β) (form : Form α) :
    (form.map F).mapOwnTexts f = (form.mapOwnTexts f).map F := by
  cases form <;> rfl

theorem Form.mapOwnTexts_idem {α : Type} {f : String → String} (hIdem : ∀ text, f (f text) = f text)
    (form : Form α) : (form.mapOwnTexts f).mapOwnTexts f = form.mapOwnTexts f := by
  cases form with
  | constant value =>
    cases value with
    | text value => exact congrArg (fun text => constant (.text text)) (hIdem value)
    | _ => rfl
  | _ => simp only [mapOwnTexts, hIdem]

/-- Upper case in the texts of a tree changes its text in letter case only. -/
theorem Node.toUpper_render (node : Node) :
    (mapTexts String.toUpper node).render.toUpper = node.render.toUpper := by
  induction node using Node.induction with
  | step form aliasName parentheses ih =>
    -- The forms that the two texts are made from are the same in upper case.
    have hForms : mapTexts String.toUpper ((mapTexts String.toUpper form).map render) =
        mapTexts String.toUpper (form.map render) := by
      calc (((form.map (mapTexts String.toUpper)).mapOwnTexts String.toUpper).map render |>.map
            String.toUpper).mapOwnTexts String.toUpper
          = (form.map fun part => (mapTexts String.toUpper part).render.toUpper).mapOwnTexts
              String.toUpper := by
            rw [Form.map_map, ← Form.mapOwnTexts_map, Form.map_map,
              Form.mapOwnTexts_idem toUpper_toUpper_string]
        _ = (form.map fun part => part.render.toUpper).mapOwnTexts String.toUpper := by
            rw [Form.map_congr ih]
        _ = ((form.map render).map String.toUpper).mapOwnTexts String.toUpper := by
            rw [Form.map_map]
    have hBody : ((mapTexts String.toUpper form).map render).renderParts.toUpper =
        (form.map render).renderParts.toUpper := by
      rw [← Form.toUpper_renderParts, hForms, Form.toUpper_renderParts]
    rw [mapTexts_node, render_eq_decorate, render_eq_decorate]
    exact toUpper_decorate hBody aliasName parentheses

theorem Node.toUpper_render_eq {node node' : Node}
    (hNodes : mapTexts String.toUpper node = mapTexts String.toUpper node') :
    node.render.toUpper = node'.render.toUpper := by
  rw [← toUpper_render node, hNodes, toUpper_render]

/-! ## Runs that differ in letter case -/

/-- Outcomes that both succeed or both fail, with related results. -/
inductive Outcomes {ε α : Type} (Errors : ε → ε → Prop) (Values : α → α → Prop) :
    Except ε α → Except ε α → Prop
  | ok {value value' : α} (hValues : Values value value') :
    Outcomes Errors Values (.ok value) (.ok value')
  | error {e e' : ε} (hErrors : Errors e e') : Outcomes Errors Values (.error e) (.error e')

/-- Errors of the same kind and at the same place.  What was expected is the
same, and what was found looks the same to `f`. -/
inductive ParseError.Alike (f : String → String) : ParseError → ParseError → Prop
  | lexical {e e' : LexicalError} (hSpan : e.span = e'.span)
    (hError : mapTexts f e = mapTexts f e') : Alike f (.lexical e) (.lexical e')
  | unexpected {kind kind' : TokenKind} (expected : String) (hKind : kind.Alike f kind')
    (span : Span) :
    Alike f (.grammatical (.unexpected expected kind span))
      (.grammatical (.unexpected expected kind' span))
  | structural (e : StructuralError) : Alike f (.structural e) (.structural e)
  | tooDeep : Alike f .tooDeep .tooDeep

namespace TokenStream

variable {f : String → String} {stream stream' : TokenStream}

theorem length_of_mapTexts (hStreams : mapTexts f stream = mapTexts f stream') :
    stream.ahead.length = stream'.ahead.length := by
  have hAhead : stream.ahead.map (mapTexts f) = stream'.ahead.map (mapTexts f) :=
    (TokenStream.mk.inj hStreams).1
  simpa using congrArg List.length hAhead

/-- The token at any place of a stream, and past its end. -/
theorem getD_of_mapTexts (hStreams : mapTexts f stream = mapTexts f stream') (n : Nat) :
    mapTexts f (stream.ahead[n]?.getD stream.last) =
      mapTexts f (stream'.ahead[n]?.getD stream'.last) := by
  obtain ⟨hAhead, hLast⟩ := TokenStream.mk.inj hStreams
  have hEach : ∀ stream : TokenStream, mapTexts f (stream.ahead[n]?.getD stream.last) =
      ((stream.ahead.map (mapTexts f))[n]?.getD (mapTexts f stream.last)) := by
    intro stream
    rw [List.getElem?_map, Option.getD_map]
  rw [hEach, hEach, hLast]
  exact congrArg (fun ahead => (ahead[n]?).getD _) hAhead

theorem current_of_mapTexts (hStreams : mapTexts f stream = mapTexts f stream') :
    mapTexts f stream.current = mapTexts f stream'.current := by
  have hCurrent : ∀ stream : TokenStream, stream.current = stream.ahead[0]?.getD stream.last := by
    rintro ⟨_ | ⟨token, ahead⟩, last⟩ <;> rfl
  rw [hCurrent, hCurrent stream']
  exact getD_of_mapTexts hStreams 0

/-- Tokens of streams that look the same look the same, at the same places. -/
theorem forall₂_of_mapTexts (hStreams : mapTexts f stream = mapTexts f stream') :
    List.Forall₂ (fun token token' => token.span = token'.span ∧ token.kind.Alike f token'.kind)
      stream.toList stream'.toList := by
  have hTokens : stream.toList.map (mapTexts f) = stream'.toList.map (mapTexts f) := by
    rw [toList, toList, List.map_append, List.map_append]
    exact congrArg₂ (fun ahead last => ahead ++ [last]) (TokenStream.mk.inj hStreams).1
      (TokenStream.mk.inj hStreams).2
  have hEach : List.Forall₂ Eq (stream.toList.map (mapTexts f))
      (stream'.toList.map (mapTexts f)) := by
    rw [List.forall₂_eq_eq_eq]
    exact hTokens
  refine (List.forall₂_map_left_iff.1 (List.forall₂_map_right_iff.1 hEach)).imp
    fun token token' hToken => ?_
  obtain ⟨hKind, hSpan, -⟩ := Token.mk.inj hToken
  exact ⟨hSpan, TokenKind.alike_of_mapTexts_eq hKind⟩

end TokenStream

theorem LexicalError.span_eq {f : String → String} {e e' : LexicalError}
    (hError : mapTexts f e = mapTexts f e') : e.span = e'.span := by
  cases e with
  | unrecognized fragment span =>
    cases e' with
    | unrecognized fragment' span' => exact (LexicalError.unrecognized.inj hError).2
    | stalled => cases hError
  | stalled position =>
    cases e' with
    | unrecognized => cases hError
    | stalled position' => rw [LexicalError.stalled.inj hError]

/-- Runs on streams that differ in letter case only. -/
def Comparison.letterCase : Comparison where
  Streams stream stream' := mapTexts String.toUpper stream = mapTexts String.toUpper stream'
  Errors := ParseError.Alike String.toUpper
  Waived _ := False
  view := String.toUpper
  view_append hFirst hSecond := by rw [Text.toUpper_append, Text.toUpper_append, hFirst, hSecond]
  length_eq h := TokenStream.length_of_mapTexts h
  peek_alike h n :=
    TokenKind.alike_of_mapTexts_eq (congrArg Token.kind (TokenStream.getD_of_mapTexts h n))
  lexeme_eq h := congrArg Token.lexeme (TokenStream.current_of_mapTexts h)
  streams_advance h := by
    obtain ⟨hAhead, hLast⟩ := TokenStream.mk.inj h
    have hTail := congrArg List.tail hAhead
    exact congrArg₂ TokenStream.mk (List.map_tail.trans (hTail.trans List.map_tail.symm)) hLast
  errors_unexpected h expected := by
    obtain ⟨hKind, hSpan, -⟩ := Token.mk.inj (TokenStream.current_of_mapTexts h)
    rw [hSpan]
    exact .unexpected expected (TokenKind.alike_of_mapTexts_eq hKind) _
  errors_structural := .structural
  errors_tooDeep := .tooDeep

/--
**Letter case never changes the structure of a query**: let two texts differ at
most in the case of letters of ASCII.

* Dividing them into tokens fails on both at the same place, or gives as many
  tokens at the same places, of the same kinds up to the case of the texts that
  some kinds carry.
* Parsing them fails on both, with errors of the same kind, at the same place and
  for want of the same; or it gives trees that differ only in the case of their
  texts, and so do the texts of the trees.
-/
theorem parse_letterCase (dialect : Dialect) {a b : String}
    (hSame : Text.sameWord a.toList b.toList = true) :
    Outcomes (fun e e' => e.span = e'.span)
        (fun stream stream' => List.Forall₂ (fun token token' =>
          token.span = token'.span ∧ token.kind.Alike String.toUpper token'.kind)
          stream.toList stream'.toList)
        (dialect.grammar.tokens.tokenize a) (dialect.grammar.tokens.tokenize b) ∧
      Outcomes (ParseError.Alike String.toUpper)
        (fun node node' => mapTexts String.toUpper node = mapTexts String.toUpper node' ∧
          node.render.toUpper = node'.render.toUpper)
        (parse a dialect) (parse b dialect) := by
  have hUpper : a.toUpper = b.toUpper := by
    rw [← String.toList_inj, toList_toUpper, toList_toUpper]
    exact beq_iff_eq.1 hSame
  have hTokens : mapTexts String.toUpper (dialect.grammar.tokens.tokenize a) =
      mapTexts String.toUpper (dialect.grammar.tokens.tokenize b) := by
    rw [← RuleSet.tokenize_toUpper dialect.caseless, hUpper,
      RuleSet.tokenize_toUpper dialect.caseless]
  cases hFirst : dialect.grammar.tokens.tokenize a with
  | error e =>
    cases hSecond : dialect.grammar.tokens.tokenize b with
    | ok stream' =>
      rw [hFirst, hSecond] at hTokens
      cases hTokens
    | error e' =>
      rw [hFirst, hSecond] at hTokens
      have hError : mapTexts String.toUpper e = mapTexts String.toUpper e' :=
        Except.error.inj hTokens
      refine ⟨.error (LexicalError.span_eq hError), ?_⟩
      rw [parse, parse, Grammar.parse_of_tokenize_error hFirst,
        Grammar.parse_of_tokenize_error hSecond]
      exact .error (.lexical (LexicalError.span_eq hError) hError)
  | ok stream =>
    cases hSecond : dialect.grammar.tokens.tokenize b with
    | error e' =>
      rw [hFirst, hSecond] at hTokens
      cases hTokens
    | ok stream' =>
      rw [hFirst, hSecond] at hTokens
      have hStreams : mapTexts String.toUpper stream = mapTexts String.toUpper stream' :=
        Except.ok.inj hTokens
      refine ⟨.ok (TokenStream.forall₂_of_mapTexts hStreams), ?_⟩
      rw [parse, parse, Grammar.parse_of_tokenize hFirst, Grammar.parse_of_tokenize hSecond]
      have hReplies := (Comparison.Grammars.refl (dialect.reduces .letterCase)).statement
        stream stream' hStreams
      generalize dialect.grammar.statement stream = reply at hReplies
      generalize dialect.grammar.statement stream' = reply' at hReplies
      cases hReplies with
      | ok hValue _ =>
        exact .ok ⟨hValue, Node.toUpper_render_eq hValue⟩
      | fail hError => exact .error hError
      | waived hError => exact hError.elim

/-- A query in lower case, but for what is quoted. -/
def quietText : String :=
  "select \"Ab\" as \x60Group\x60, left.x, @v from t left  outer join u order by 1.5e3, not in_ in (1)"

/-- The same query with the case of every letter changed. -/
def loudText : String :=
  "SELECT \"aB\" AS \x60gROUP\x60, LEFT.X, @V FROM T LEFT  OUTER JOIN U ORDER BY 1.5E3, NOT IN_ IN (1)"

theorem parse_letterCase_loudText :
    (parse quietText .mysql).isOk = true ∧
      Outcomes (ParseError.Alike String.toUpper)
        (fun node node' => mapTexts String.toUpper node = mapTexts String.toUpper node' ∧
          node.render.toUpper = node'.render.toUpper)
        (parse quietText .mysql) (parse loudText .mysql) :=
  ⟨by decide +kernel, (parse_letterCase .mysql (by decide +kernel)).2⟩

end SqlQuery
