import SqlQuery.Proofs.Rewriting
import SqlQuery.Node.Equality
import SqlQuery.Node.Outline

/-!
# The text of a parsed tree reads back as that tree

A part of a query is *written* as a text and as glyphs if, in front of whatever
may follow it, the text is read as the glyphs and the glyphs are that part
again.  Every derivation from a plain reading gives glyphs for the text of its
tree; they need not be the glyphs it started from, but they start alike, and
what may follow them is told by what followed the part before.

## Main definitions

* `Written` — a part, its text and its glyphs.
* `Construct.Rewritten` — what a derivation says about the text of its tree.

## Main results

* `Derives.rewritten` — derivations from plain readings can be written.
* `parse_render` — a parsed text without comments reads back.
-/

namespace SqlQuery

open Glyph (front Plain Follows Continues Repeats)

/-! ## Written parts -/

/-- A part of a query, its text and its glyphs: in front of what is allowed to
follow, the text is read as the glyphs, and the glyphs are the part. -/
structure Written (dialect : Dialect) (part : List Glyph → List Glyph → Prop) (text : List Char)
    (cs : List Glyph) (allowed : List Glyph → Prop) : Prop where
  parsed : ∀ {r}, allowed r → part (cs ++ r) r
  reads : ∀ {r tail}, allowed r → Text.Neutral tail → dialect.grammar.tokens.Reads true tail r →
    dialect.grammar.tokens.Reads true (text ++ tail) (cs ++ r)

/-- Glyphs that start with the same kind as others and, after a parenthesis, with
a query if those do. -/
structure Glyph.Opens (gs cs : List Glyph) : Prop where
  ne_nil : cs ≠ []
  front_eq : front cs = front gs
  query : front gs = .leftParen → front gs.tail = .keyword .SELECT →
    front cs.tail = .keyword .SELECT

/-- A part with a tree that stands for itself. -/
structure Leading (dialect : Dialect) (gs : List Glyph) (part : List Glyph → List Glyph → Prop)
    (text : List Char) (cs : List Glyph) (allowed : List Glyph → Prop) : Prop where
  written : Written dialect part text cs allowed
  opens : Glyph.Opens gs cs

/-- An operand or an expression.  One in parentheses is an operand whatever
follows it. -/
structure Rewritten (dialect : Dialect) (gs hs : List Glyph) (construct : Construct) (node : Node)
    (cs : List Glyph) : Prop
    extends Leading dialect gs (Derives dialect construct) node.render.toList cs
      (Continues hs) where
  enclosed : node.parentheses = true → front gs = .leftParen ∧
    Written dialect (Derives dialect (.operand node)) node.render.toList cs fun _ => True

/-- A part that turns a tree into another one by what is written behind it. -/
structure Extended (dialect : Dialect) (gs hs : List Glyph) (construct : Construct)
    (left node : Node) (text : List Char) (cs : List Glyph) : Prop where
  render_eq : node.render.toList = left.render.toList ++ text
  neutral : Text.Neutral text
  written : Written dialect (Derives dialect construct) text cs (Continues hs)
  starts : cs = [] ∧ text = [] ∧ gs = hs ∧ node = left ∨
    node.parentheses = false ∧ ∀ r, Repeats gs (cs ++ r)

/-- A part that may be missing. -/
structure Trailing (dialect : Dialect) (gs hs : List Glyph) (part : List Glyph → List Glyph → Prop)
    (text : List Char) (cs : List Glyph) : Prop where
  neutral : Text.Neutral text
  written : Written dialect part text cs (Follows hs)
  starts : cs = [] ∧ gs = hs ∨ ∀ r, Repeats gs (cs ++ r)

/-- The text of items with a comma before each. -/
def furtherText (nodes : List Node) : List Char :=
  nodes.flatMap fun node => ", ".toList ++ node.render.toList

/-- The text of rules of a case distinction. -/
def rulesText (rules : List (Node × Node)) : List Char :=
  rules.flatMap fun rule =>
    " WHEN ".toList ++ rule.1.render.toList ++ " THEN ".toList ++ rule.2.render.toList

/-- What a derivation says about the text of its tree. -/
def Construct.Rewritten (dialect : Dialect) (gs hs : List Glyph) (construct : Construct) : Prop :=
  match construct with
  | .operand node | .expression _ node => ∃ cs, SqlQuery.Rewritten dialect gs hs construct node cs
  | .extension _ left node | .operation left _ node =>
    ∃ text cs, Extended dialect gs hs construct left node text cs
  | .arguments nodes =>
    ∃ cs, Leading dialect gs (Derives dialect construct)
      ((renderList (nodes.map Node.render)).toList ++ [')']) cs fun _ => True
  | .item _ node | .select node =>
    ∃ cs, Leading dialect gs (Derives dialect construct) node.render.toList cs (Follows hs)
  | .items _ nodes =>
    ∃ cs, Leading dialect gs (Derives dialect construct)
      (renderList (nodes.map Node.render)).toList cs (Follows hs)
  | .furtherItems _ nodes =>
    ∃ cs, Trailing dialect gs hs (Derives dialect construct) (furtherText nodes) cs
  | .source node =>
    ∃ cs, Written dialect (Derives dialect construct) node.render.toList cs (Follows hs)
  | .joins left node =>
    ∃ text cs, node.render.toList = left.render.toList ++ text ∧
      Trailing dialect gs hs (Derives dialect construct) text cs
  | .clause word node =>
    word ≠ .NOT → ∃ cs, Trailing dialect gs hs (Derives dialect construct)
      (renderClause word.spelling (node.map Node.render)).toList cs
  | .listClause word _ nodes =>
    word ≠ .NOT → ∃ cs, Trailing dialect gs hs (Derives dialect construct)
      (renderClause word.spelling (renderList? (nodes.map Node.render))).toList cs
  | .sourceClause node =>
    ∃ cs, Trailing dialect gs hs (Derives dialect construct)
      (renderClause Keyword.FROM.spelling (node.map Node.render)).toList cs
  | .rules list => ∃ cs, Trailing dialect gs hs (Derives dialect construct) (rulesText list) cs
  | .query node =>
    ∃ cs, Written dialect (Derives dialect construct) node.render.toList cs (Follows hs) ∧
      (node.parentheses = true →
        Written dialect (Derives dialect construct) node.render.toList cs fun _ => True)

section Parts

variable {dialect : Dialect} {gs hs is r cs ds : List Glyph} {text text' : List Char}
  {part : List Glyph → List Glyph → Prop} {node : Node}

theorem Text.Neutral.append {tail : List Char} (hText : Text.Neutral text)
    (hTail : Text.Neutral tail) : Text.Neutral (text ++ tail) := by
  cases text with
  | nil => exact hTail
  | cons c text => exact hText

theorem Text.neutral_space (cs : List Char) : Text.Neutral (' ' :: cs) :=
  Text.neutral_cons (Or.inl (by decide))

theorem Text.neutral_close (cs : List Char) : Text.Neutral (')' :: cs) :=
  Text.neutral_cons (by decide)

theorem Written.mono {allowed allowed' : List Glyph → Prop}
    (hWritten : Written dialect part text cs allowed) (hAllowed : ∀ {r}, allowed' r → allowed r) :
    Written dialect part text cs allowed' :=
  ⟨fun hr => hWritten.parsed (hAllowed hr), fun hr => hWritten.reads (hAllowed hr)⟩

namespace Glyph.Opens

theorem of_kind {kind : TokenKind} {text text' : String} (hKind : kind ≠ .leftParen) :
    Opens (⟨kind, text⟩ :: gs) (⟨kind, text'⟩ :: cs) :=
  ⟨List.cons_ne_nil _ _, rfl, fun hFront => absurd hFront hKind⟩

theorem append (hOpens : Opens gs cs) (r : List Glyph) : Opens gs (cs ++ r) := by
  obtain ⟨hNil, hFront, hQuery⟩ := hOpens
  cases cs with
  | nil => exact absurd rfl hNil
  | cons glyph cs =>
    refine ⟨List.cons_ne_nil _ _, hFront, fun hParen hSelect => ?_⟩
    obtain ⟨text, hCons⟩ := eq_cons_of_front (hQuery hParen hSelect) (by simp)
    rw [List.cons_append, List.tail_cons, show cs = _ from hCons]
    rfl

theorem front_append (hOpens : Opens gs cs) (r : List Glyph) : front (cs ++ r) = front gs :=
  (hOpens.append r).front_eq

end Glyph.Opens

/-- What follows a part that may be missing follows what is before it. -/
theorem Trailing.follows (hTrailing : Trailing dialect gs hs part text cs) (hr : Follows hs r) :
    Follows gs (cs ++ r) := by
  rcases hTrailing.starts with ⟨rfl, rfl⟩ | hStarts
  · exact hr
  · exact (hStarts r).follows

theorem Trailing.repeats (hTrailing : Trailing dialect gs hs part text cs) (hr : Repeats hs r) :
    Repeats gs (cs ++ r) := by
  rcases hTrailing.starts with ⟨rfl, rfl⟩ | hStarts
  · exact hr
  · exact hStarts r

/-- A part that is missing. -/
theorem Trailing.absent (hParsed : ∀ {r}, Follows hs r → part r r) :
    Trailing dialect hs hs part [] [] :=
  ⟨Text.neutral_nil, ⟨hParsed, fun _ _ hReads => hReads⟩, Or.inl ⟨rfl, rfl⟩⟩

theorem Extended.continues {construct : Construct} {left : Node}
    (hExtended : Extended dialect gs hs construct left node text cs) (hr : Continues hs r) :
    Continues gs (cs ++ r) := by
  rcases hExtended.starts with ⟨rfl, -, rfl, -⟩ | ⟨-, hStarts⟩
  · exact hr
  · exact (hStarts r).follows.continues

end Parts

/-! ## Written operands -/

section Operands

variable {dialect : Dialect} {gs hs is cs ds : List Glyph} {construct : Construct} {node : Node}
  {text text' : String}

/-- A part that bears no parentheses. -/
theorem Rewritten.of_leading
    (hLeading : Leading dialect gs (Derives dialect construct) node.render.toList cs (Continues hs))
    (hParens : node.parentheses = false) : Rewritten dialect gs hs construct node cs :=
  ⟨hLeading, fun h => absurd (hParens.symm.trans h) Bool.false_ne_true⟩

/-- An operand that may be followed by anything. -/
theorem Rewritten.of_written
    (hWritten : Written dialect (Derives dialect (.operand node)) node.render.toList cs
      fun _ => True)
    (hOpens : Glyph.Opens (⟨.leftParen, text⟩ :: gs) cs) :
    Rewritten dialect (⟨.leftParen, text⟩ :: gs) hs (.operand node) node cs :=
  ⟨⟨hWritten.mono fun _ => trivial, hOpens⟩, fun _ => ⟨rfl, hWritten⟩⟩

theorem rewritten_atom {kind : TokenKind} (hAtom : dialect.atom? kind = some node)
    (hPlain : Plain (⟨kind, text⟩ :: hs)) :
    Rewritten dialect (⟨kind, text⟩ :: hs) hs (.operand node) node [⟨kind, node.render⟩] := by
  refine .of_leading ⟨⟨fun _ => .atom hAtom, fun _ hNeutral hReads =>
    Dialect.reads_atom hAtom hPlain.head hNeutral hReads⟩, .of_kind ?_⟩
    (Dialect.aliasName_of_atom? hAtom).2
  rintro rfl
  cases hAtom

theorem rewritten_column {value : String} (hFront : front hs ≠ .leftParen)
    (hPlain : Plain (⟨.identifier value none, text⟩ :: hs)) :
    Rewritten dialect (⟨.identifier value none, text⟩ :: hs) hs
      (.operand (.identifier value none)) (.identifier value none)
      [⟨.identifier value none, (Node.identifier value none).render⟩] :=
  .of_leading ⟨⟨fun hr => .column (hr.front_ne hFront (by simp)), fun hr hNeutral hReads =>
    hReads.column hNeutral hPlain hr⟩, .of_kind (by simp)⟩ rfl

/-- A keyword with a space behind it. -/
theorem RuleSet.Reads.keywordSpace (word : Keyword) {tail : List Char} {r : List Glyph}
    (hReads : dialect.grammar.tokens.Reads true tail r) :
    dialect.grammar.tokens.Reads true (word.spelling.toList ++ ' ' :: tail)
      (⟨.keyword word, word.spelling⟩ :: r) :=
  hReads.space.keyword word (Text.neutral_space tail)

/-- The keyword `DISTINCT`, if it is there, with a space behind it. -/
def distinctGlyphs (distinct : Bool) : List Glyph :=
  if distinct then [⟨.keyword .DISTINCT, Keyword.DISTINCT.spelling⟩] else []

theorem RuleSet.Reads.distinct (distinct : Bool) {tail : List Char} {r : List Glyph}
    (hReads : dialect.grammar.tokens.Reads true tail r) :
    dialect.grammar.tokens.Reads true ((if distinct then "DISTINCT " else "").toList ++ tail)
      (distinctGlyphs distinct ++ r) := by
  cases distinct with
  | false => exact hReads
  | true => exact hReads.keywordSpace .DISTINCT

theorem rewritten_call {value : String} {distinct : Bool} {args : List Node}
    (hDistinct : OptionalWord .DISTINCT distinct gs hs)
    (hArgs : Leading dialect hs (Derives dialect (.arguments args))
      ((renderList (args.map Node.render)).toList ++ [')']) cs fun _ => True)
    (hPlain : Plain (⟨.identifier value none, text⟩ :: ⟨.leftParen, text'⟩ :: gs)) :
    Rewritten dialect (⟨.identifier value none, text⟩ :: ⟨.leftParen, text'⟩ :: gs) is
      (.operand (.call value args distinct)) (.call value args distinct)
      (⟨.identifier value none, value⟩ :: ⟨.leftParen, "("⟩ ::
        (distinctGlyphs distinct ++ cs)) := by
  obtain ⟨hText, hName⟩ := hPlain.head
  obtain rfl : text = value := hText
  refine .of_leading
    ⟨⟨fun {r} _ => ?_, fun {r tail} _ hNeutral hReads => ?_⟩, .of_kind (by simp)⟩ rfl
  · have hWord :
        OptionalWord .DISTINCT distinct (distinctGlyphs distinct ++ (cs ++ r)) (cs ++ r) := by
      cases hDistinct with
      | present => exact .present
      | absent hFront =>
        refine .absent ?_
        show front (cs ++ r) ≠ _
        rwa [hArgs.opens.front_append]
    rw [List.cons_append, List.cons_append, List.append_assoc]
    exact .call hWord (hArgs.written.parsed trivial)
  · have hParen := ((hArgs.written.reads trivial hNeutral hReads).distinct distinct).leftParen
    have hCall := hParen.bareName (Text.neutral_cons (by decide)) hName
      (Glyph.not_opensPhrase_of_head fun c hc => by cases hc; decide)
    rw [Node.call, Node.render_ofForm]
    simpa [Form.map, Form.renderParts] using hCall

theorem rewritten_unary {kind : TokenKind} {operator : OperatorClass} {arg : Node}
    (hClass : kind.prefixClass? = some operator)
    (hArg : Rewritten dialect gs hs (.expression 11 arg) arg cs)
    (hPlain : Plain (⟨kind, text⟩ :: gs)) :
    Rewritten dialect (⟨kind, text⟩ :: gs) hs (.operand (.unary text arg)) (.unary text arg)
      (⟨kind, text⟩ :: cs) := by
  refine .of_leading ⟨⟨fun hr => .unary hClass (hArg.written.parsed hr),
    fun hr hNeutral hReads => ?_⟩, .of_kind ?_⟩ rfl
  · have hAll := (hArg.written.reads hr hNeutral hReads).space.operator (Text.neutral_space _)
      (Or.inr hClass) hPlain.head
    rw [Node.unary, Node.render_ofForm]
    simpa [Form.map, Form.renderParts] using hAll
  · rintro rfl
    cases hClass

end Operands

/-! ## Parentheses -/

section Parentheses

variable {dialect : Dialect} {gs hs is cs ds : List Glyph} {construct whole : Construct}
  {node : Node} {text text' : String}

/-- The glyphs of a part in parentheses. -/
def enclosedGlyphs (cs : List Glyph) : List Glyph :=
  ⟨.leftParen, "("⟩ :: (cs ++ [⟨.rightParen, ")"⟩])

@[simp] theorem enclosedGlyphs_append (cs r : List Glyph) :
    enclosedGlyphs cs ++ r = ⟨.leftParen, "("⟩ :: (cs ++ ⟨.rightParen, ")"⟩ :: r) := by
  simp [enclosedGlyphs]

theorem Glyph.opens_enclosed (hOpens : front gs = .keyword .SELECT → front cs = .keyword .SELECT) :
    Glyph.Opens (⟨.leftParen, text⟩ :: gs) (enclosedGlyphs cs) := by
  refine ⟨List.cons_ne_nil _ _, rfl, fun _ hSelect => ?_⟩
  obtain ⟨text', hCons⟩ := Glyph.eq_cons_of_front (hOpens hSelect) (by simp)
  rw [enclosedGlyphs, List.tail_cons, hCons]
  rfl

/-- A part in parentheses, which may be followed by anything. -/
theorem Written.enclose {allowed : List Glyph → Prop}
    (hInner : Written dialect (Derives dialect construct) node.render.toList cs allowed)
    (hAllowed : ∀ r, allowed (⟨.rightParen, ")"⟩ :: r))
    (hNode : node.aliasName = none ∧ node.parentheses = false)
    (hWhole : ∀ r, Derives dialect construct (cs ++ ⟨.rightParen, ")"⟩ :: r)
      (⟨.rightParen, ")"⟩ :: r) →
      Derives dialect whole (⟨.leftParen, "("⟩ :: (cs ++ ⟨.rightParen, ")"⟩ :: r)) r) :
    Written dialect (Derives dialect whole) (node.withParentheses true).render.toList
      (enclosedGlyphs cs) fun _ => True := by
  refine ⟨fun {r} _ => ?_, fun {r tail} _ _ hReads => ?_⟩
  · rw [enclosedGlyphs_append]
    exact hWhole r (hInner.parsed (hAllowed r))
  · have hAll := (hInner.reads (hAllowed r) (Text.neutral_close tail) hReads.rightParen).leftParen
    rw [Node.render_withParentheses hNode.1 hNode.2, enclosedGlyphs_append]
    simpa using hAll

theorem Derives.parentheses_of_select (hSelect : Derives dialect (.select node) gs hs) :
    node.parentheses = false := by
  cases hSelect
  rfl

theorem rewritten_subquery (hFront : front gs = .keyword .SELECT)
    (hSelect : Derives dialect (.select node) gs (⟨.rightParen, text'⟩ :: hs))
    (hInner : Leading dialect gs (Derives dialect (.select node)) node.render.toList cs
      (Follows (⟨.rightParen, text'⟩ :: hs))) :
    Rewritten dialect (⟨.leftParen, text⟩ :: gs) hs (.operand (node.withParentheses true))
      (node.withParentheses true) (enclosedGlyphs cs) := by
  refine .of_written (hInner.written.enclose (fun r => Glyph.follows_cons (by decide))
    ⟨hSelect.unaliased, hSelect.parentheses_of_select⟩ fun r hDerives => .subquery ?_ hDerives)
    (Glyph.opens_enclosed fun h => hInner.opens.front_eq.trans h)
  rw [hInner.opens.front_append, hFront]

/-- Parentheses around parentheses are dropped. -/
theorem rewritten_grouped (hFront : front gs ≠ .keyword .SELECT)
    (hExpression : Derives dialect (.expression 0 node) gs (⟨.rightParen, text'⟩ :: hs))
    (hInner : Rewritten dialect gs (⟨.rightParen, text'⟩ :: hs) (.expression 0 node) node cs) :
    ∃ ds, Rewritten dialect (⟨.leftParen, text⟩ :: gs) hs (.operand (node.withParentheses true))
      (node.withParentheses true) ds := by
  cases hParens : node.parentheses with
  | true =>
    obtain ⟨hParen, hWhole⟩ := hInner.enclosed hParens
    rw [Node.withParentheses_eq hParens]
    exact ⟨cs, .of_written hWhole ⟨hInner.opens.ne_nil, hInner.opens.front_eq.trans hParen,
      fun _ hSelect => absurd hSelect hFront⟩⟩
  | false =>
    refine ⟨enclosedGlyphs cs, .of_written (hInner.written.enclose
      (fun r => Follows.continues (Glyph.follows_cons (by decide))) ⟨hExpression.unaliased, hParens⟩
      fun r hDerives => .grouped ?_ hDerives) (Glyph.opens_enclosed fun h => absurd h hFront)⟩
    rwa [hInner.opens.front_append]

end Parentheses

/-! ## Written forms of operands -/

section Forms

variable {dialect : Dialect} {gs hs is js cs ds es : List Glyph} {node : Node}
  {text text' text'' : String}

theorem toList_renderList_cons (first : Node) (further : List Node) :
    (renderList ((first :: further).map Node.render)).toList =
      first.render.toList ++ furtherText further := by
  rw [renderList, List.map_cons, Text.toList_intercalate_cons, furtherText, List.flatMap_map]

theorem rewritten_tuple {first : Node} {further : List Node} (hFront : front gs ≠ .keyword .SELECT)
    (hComma : front hs = .comma)
    (hFirst : Rewritten dialect gs hs (.expression 0 first) first cs)
    (hFurther : Trailing dialect hs (⟨.rightParen, text'⟩ :: is)
      (Derives dialect (.furtherItems .expression further)) (furtherText further) ds) :
    Rewritten dialect (⟨.leftParen, text⟩ :: gs) is (.operand (.tuple (first :: further)))
      (.tuple (first :: further)) (enclosedGlyphs (cs ++ ds)) := by
  have hClose : ∀ r, Repeats (⟨.rightParen, text'⟩ :: is) (⟨.rightParen, ")"⟩ :: r) :=
    fun r => Glyph.repeats_cons (by decide)
  refine .of_leading ⟨⟨fun {r} _ => ?_, fun {r tail} _ hNeutral hReads => ?_⟩,
    Glyph.opens_enclosed fun h => absurd h hFront⟩ rfl
  · have hRest := hFurther.repeats (hClose r)
    rw [enclosedGlyphs_append, List.append_assoc]
    refine .tuple ?_ (hFirst.written.parsed hRest.follows.continues)
      (hRest.front_eq.trans hComma) (hFurther.written.parsed (hClose r).follows)
    rwa [hFirst.opens.front_append]
  · have hNeutral' := hFurther.neutral.append (Text.neutral_close tail)
    have hRest := hFurther.written.reads (hClose r).follows
      (Text.neutral_close tail) hReads.rightParen
    have hAll := (hFirst.written.reads (hFurther.follows (hClose r).follows).continues hNeutral'
      hRest).leftParen
    rw [Node.tuple, Node.render_ofForm, enclosedGlyphs_append]
    simpa [Form.map, Form.renderParts, ← List.map_cons, toList_renderList_cons,
      -List.map_cons] using hAll

theorem rewritten_typeCast {arg : Node} {name close : String}
    (hName : TypeName name hs (⟨.rightParen, close⟩ :: is))
    (hArg : Rewritten dialect gs (⟨.keyword .AS, text''⟩ :: hs) (.expression 0 arg) arg cs)
    (hPlain : Plain hs) :
    ∃ ds, Rewritten dialect (⟨.keyword .CAST, text⟩ :: ⟨.leftParen, text'⟩ :: gs) is
      (.operand (.ofForm (.typeCast name arg))) (.ofForm (.typeCast name arg)) ds := by
  obtain ⟨ds, hType⟩ := hName.rewritten dialect hPlain
  refine ⟨⟨.keyword .CAST, Keyword.CAST.spelling⟩ :: ⟨.leftParen, "("⟩ ::
    (cs ++ ⟨.keyword .AS, Keyword.AS.spelling⟩ :: (ds ++ [⟨.rightParen, ")"⟩])),
    .of_leading ⟨⟨fun {r} _ => ?_, fun {r tail} _ hNeutral hReads => ?_⟩, .of_kind (by simp)⟩ rfl⟩
  · simp only [List.cons_append, List.append_assoc, List.nil_append]
    exact .typeCast (hArg.written.parsed (Or.inr rfl)) (hType r).1
  · have hRest := ((hType r).2 tail hReads).keywordSpace .AS
    have hInner := hArg.written.reads (Or.inr rfl) (Text.neutral_space _) hRest.space
    have hAll := hInner.leftParen.keyword .CAST (Text.neutral_cons (by decide))
    rw [Node.render_ofForm]
    simpa [Form.map, Form.renderParts, Keyword.spelling, Keyword.words] using hAll

theorem trailing_rulesDone (hFront : front gs ≠ .keyword .WHEN) :
    Trailing dialect gs gs (Derives dialect (.rules [])) (rulesText []) [] :=
  .absent fun hr => .rulesDone (hr.front_ne hFront (by simp))

theorem trailing_rulesMore {condition result : Node} {list : List (Node × Node)}
    (hCondition : Rewritten dialect gs (⟨.keyword .THEN, text'⟩ :: hs) (.expression 0 condition)
      condition cs)
    (hResult : Rewritten dialect hs is (.expression 0 result) result ds)
    (hRules : Trailing dialect is js (Derives dialect (.rules list)) (rulesText list) es) :
    Trailing dialect (⟨.keyword .WHEN, text⟩ :: gs) js
      (Derives dialect (.rules ((condition, result) :: list)))
      (rulesText ((condition, result) :: list))
      (⟨.keyword .WHEN, Keyword.WHEN.spelling⟩ ::
        (cs ++ ⟨.keyword .THEN, Keyword.THEN.spelling⟩ :: (ds ++ es))) := by
  have hThen : ∀ r, Continues (⟨.keyword .THEN, text'⟩ :: hs)
      (⟨.keyword .THEN, Keyword.THEN.spelling⟩ :: r) :=
    fun r => Follows.continues (Glyph.follows_cons (by decide))
  refine ⟨Text.neutral_space _, ⟨fun {r} hr => ?_, fun {r tail} hr hNeutral hReads => ?_⟩,
    Or.inr fun r => Glyph.repeats_cons (by decide)⟩
  · have hInner := hCondition.written.parsed (hThen (ds ++ (es ++ r)))
    rw [List.cons_append, List.append_assoc, List.cons_append, List.append_assoc]
    exact .rulesMore hInner (hResult.written.parsed (hRules.follows hr).continues)
      (hRules.written.parsed hr)
  · have hRest := hResult.written.reads (hRules.follows hr).continues
      (hRules.neutral.append hNeutral) (hRules.written.reads hr hNeutral hReads)
    have hAll := (hCondition.written.reads (hThen _) (Text.neutral_space _)
      (hRest.keywordSpace .THEN).space).keywordSpace .WHEN
    simpa [rulesText, Keyword.spelling, Keyword.words] using hAll.space

theorem rewritten_caseWhen {list : List (Node × Node)} {default : Option Node}
    (hFront : front gs = .keyword .WHEN)
    (hRules : Trailing dialect gs hs (Derives dialect (.rules list)) (rulesText list) cs)
    (hDefault : Trailing dialect hs (⟨.keyword .END, text'⟩ :: is)
      (Derives dialect (.clause .ELSE default))
      (renderClause Keyword.ELSE.spelling (default.map Node.render)).toList ds) :
    Rewritten dialect (⟨.keyword .CASE, text⟩ :: gs) is
      (.operand (.ofForm (.caseWhen list default))) (.ofForm (.caseWhen list default))
      (⟨.keyword .CASE, Keyword.CASE.spelling⟩ ::
        (cs ++ (ds ++ [⟨.keyword .END, Keyword.END.spelling⟩]))) := by
  have hEnd : ∀ r, Repeats (⟨.keyword .END, text'⟩ :: is)
      (⟨.keyword .END, Keyword.END.spelling⟩ :: r) := fun r => Glyph.repeats_cons (by decide)
  refine .of_leading ⟨⟨fun {r} _ => ?_, fun {r tail} _ hNeutral hReads => ?_⟩,
    .of_kind (by simp)⟩ rfl
  · have hRest := hDefault.repeats (hEnd r)
    rw [List.cons_append, List.append_assoc, List.append_assoc, List.singleton_append]
    exact .caseWhen ((hRules.repeats hRest).front_eq.trans hFront)
      (hRules.written.parsed hRest.follows) (hDefault.written.parsed (hEnd r).follows)
  · have hNeutral' :=
      hDefault.neutral.append (Text.neutral_space (Keyword.END.spelling.toList ++ tail))
    have hRest := hDefault.written.reads (hEnd r).follows (Text.neutral_space _)
      (hReads.keyword .END hNeutral).space
    have hAll := (hRules.written.reads (hDefault.follows (hEnd r).follows) hNeutral' hRest).keyword
      .CASE (hRules.neutral.append hNeutral')
    have hText : (Node.ofForm (.caseWhen list default)).render.toList =
        Keyword.CASE.spelling.toList ++ (rulesText list ++
          ((renderClause Keyword.ELSE.spelling (default.map Node.render)).toList ++
            ' ' :: Keyword.END.spelling.toList)) := by
      rw [Node.render_ofForm]
      simp [Form.map, Form.renderParts, rulesText, List.flatMap_map, Keyword.spelling,
        Keyword.words]
    rw [hText]
    simpa using hAll

end Forms

/-! ## Written expressions -/

section Expressions

variable {dialect : Dialect} {gs hs is js cs ds : List Glyph} {text text' : List Char}
  {left first middle node : Node} {least : Nat}

theorem rewritten_expression (hFirst : Rewritten dialect gs hs (.operand first) first cs)
    (hExtension : Extended dialect hs is (.extension least first node) first node text ds) :
    Rewritten dialect gs is (.expression least node) node (cs ++ ds) := by
  refine ⟨⟨⟨fun hr => ?_, fun hr hNeutral hReads => ?_⟩, hFirst.opens.append ds⟩, fun hParens => ?_⟩
  · rw [List.append_assoc]
    exact .expression (hFirst.written.parsed (hExtension.continues hr))
      (hExtension.written.parsed hr)
  · rw [hExtension.render_eq, List.append_assoc, List.append_assoc]
    exact hFirst.written.reads (hExtension.continues hr) (hExtension.neutral.append hNeutral)
      (hExtension.written.reads hr hNeutral hReads)
  · rcases hExtension.starts with ⟨rfl, -, -, rfl⟩ | ⟨hNone, -⟩
    · rw [List.append_nil]
      exact hFirst.enclosed hParens
    · exact absurd (hNone.symm.trans hParens) Bool.false_ne_true

theorem extended_done
    (hStop : ∀ operator ∈ Glyph.operator? gs, 2 * operator.rank + 1 < least) :
    Extended dialect gs gs (.extension least left left) left left [] [] :=
  ⟨(List.append_nil _).symm, Text.neutral_nil,
    ⟨fun hr => .extensionDone fun operator hMem => hStop operator (hr.operator? operator hMem),
      fun _ _ hReads => hReads⟩, Or.inl ⟨rfl, rfl, rfl, rfl⟩⟩

/-- An operation is not missing. -/
theorem Extended.repeats {operator : OperatorClass}
    (hDerives : Derives dialect (.operation left operator node) gs hs)
    (hOperation : Extended dialect gs hs (.operation left operator node) left node text cs) :
    node.parentheses = false ∧ ∀ r, Repeats gs (cs ++ r) := by
  rcases hOperation.starts with ⟨-, -, rfl, -⟩ | hStarts
  · exact absurd (hDerives.length_lt rfl) (Nat.lt_irrefl _)
  · exact hStarts

theorem extended_more {operator : OperatorClass} (hClass : Glyph.operator? gs = some operator)
    (hLeast : least ≤ 2 * operator.rank + 1)
    (hDerives : Derives dialect (.operation left operator middle) gs hs)
    (hOperation : Extended dialect gs hs (.operation left operator middle) left middle text cs)
    (hExtension : Extended dialect hs is (.extension least middle node) middle node text' ds) :
    Extended dialect gs is (.extension least left node) left node (text ++ text') (cs ++ ds) := by
  obtain ⟨hParens, hRepeats⟩ := hOperation.repeats hDerives
  refine ⟨?_, hOperation.neutral.append hExtension.neutral,
    ⟨fun {r} hr => ?_, fun {r tail} hr hNeutral hReads => ?_⟩, Or.inr ⟨?_, fun r => ?_⟩⟩
  · rw [hExtension.render_eq, hOperation.render_eq, List.append_assoc]
  · rw [List.append_assoc]
    exact .extensionMore ((hRepeats (ds ++ r)).operator?_eq.trans hClass) hLeast
      (hOperation.written.parsed (hExtension.continues hr)) (hExtension.written.parsed hr)
  · rw [List.append_assoc, List.append_assoc]
    exact hOperation.written.reads (hExtension.continues hr) (hExtension.neutral.append hNeutral)
      (hExtension.written.reads hr hNeutral hReads)
  · rcases hExtension.starts with ⟨-, -, -, rfl⟩ | ⟨hNone, -⟩
    · exact hParens
    · exact hNone
  · rw [List.append_assoc]
    exact hRepeats (ds ++ r)

/-- An operation: a space, the operator, a space, and what is on its right. -/
theorem extended_operation {operator : OperatorClass} {op : String}
    (hRender : node.render.toList = left.render.toList ++ ' ' :: (op.toList ++ ' ' :: text))
    (hParens : node.parentheses = false) (hRepeats : ∀ r, Repeats gs (cs ++ r))
    (hOperator : ∀ {r tail}, Text.Neutral tail → dialect.grammar.tokens.Reads true tail r →
      dialect.grammar.tokens.Reads true (op.toList ++ tail) (cs ++ r))
    (hRight : Written dialect
      (fun fs r => Derives dialect (.operation left operator node) (cs ++ fs) r)
      text ds (Continues hs)) :
    Extended dialect gs hs (.operation left operator node) left node
      (' ' :: (op.toList ++ ' ' :: text)) (cs ++ ds) := by
  refine ⟨hRender, Text.neutral_space _, ⟨fun {r} hr => ?_, fun {r tail} hr hNeutral hReads => ?_⟩,
    Or.inr ⟨hParens, fun r => ?_⟩⟩
  · rw [List.append_assoc]
    exact hRight.parsed hr
  · have hAll := (hOperator (Text.neutral_space _) (hRight.reads hr hNeutral hReads).space).space
    simpa using hAll
  · rw [List.append_assoc]
    exact hRepeats (ds ++ r)

theorem toList_render_binary (op : String) (left right : Node) :
    (Node.binary op left right).render.toList =
      left.render.toList ++ ' ' :: (op.toList ++ ' ' :: right.render.toList) := by
  rw [Node.binary, Node.render_ofForm]
  simp [Form.map, Form.renderParts]

theorem extended_binary {operator : OperatorClass} {kind : TokenKind} {op : String} {right : Node}
    (hSimple : operator.isSimple = true) (hClass : kind.infixClass? .finish = some operator)
    (hRight : Rewritten dialect gs hs (.expression (2 * operator.rank + 2) right) right cs)
    (hPlain : Plain (⟨kind, op⟩ :: gs)) :
    Extended dialect (⟨kind, op⟩ :: gs) hs (.operation left operator (.binary op left right)) left
      (.binary op left right) (' ' :: (op.toList ++ ' ' :: right.render.toList))
      ([⟨kind, op⟩] ++ cs) := by
  refine extended_operation (toList_render_binary op left right) rfl (fun r => ?_)
    (fun hNeutral hReads => hReads.operator hNeutral (Or.inl ⟨hSimple, hClass⟩) hPlain.head)
    ⟨fun hr => .binary hSimple hClass (hRight.written.parsed hr), hRight.written.reads⟩
  refine Glyph.repeats_cons ⟨?_, ?_⟩
  · unfold TokenKind.infixClass? at hClass
    split at hClass <;> first | rfl | cases hClass
  · rintro rfl
    cases hClass

/-- The glyphs of `IS` and of `NOT`, if it follows. -/
def identityGlyphs (negated : Bool) : List Glyph :=
  ⟨.keyword .IS, "is"⟩ :: if negated then [⟨.keyword .NOT, "not"⟩] else []

theorem extended_identity {negated : Bool} {op : String} {right : Node}
    (hNegated : OptionalWord .NOT negated gs hs)
    (hRight : Rewritten dialect hs is (.expression 6 right) right cs) :
    Extended dialect (⟨.keyword .IS, op⟩ :: gs) is
      (.operation left .identity (.binary (if negated then "is not" else "is") left right)) left
      (.binary (if negated then "is not" else "is") left right)
      (' ' :: ((if negated then "is not" else "is").toList ++ ' ' :: right.render.toList))
      (identityGlyphs negated ++ cs) := by
  refine extended_operation (toList_render_binary _ left right) rfl
    (fun r => Glyph.repeats_cons (by decide))
    (fun {r tail} hNeutral hReads => ?_)
    ⟨fun {r} hr => .identity ?_ (hRight.written.parsed hr), hRight.written.reads⟩
  · have hIs : Text.sameWord "IS".toList "is".toList = true := by decide
    have hNot : Text.sameWord "NOT".toList "not".toList = true := by decide
    cases negated with
    | false => exact hReads.writtenWord hNeutral rfl hIs
    | true =>
      exact (hReads.writtenWord hNeutral rfl hNot).space.writtenWord (Text.neutral_space _) rfl hIs
  · cases hNegated with
    | present => exact .present
    | absent hFront =>
      refine .absent ?_
      show front (cs ++ r) ≠ _
      rwa [hRight.opens.front_append]

/-- The operation of an operator that may be negated, as it was written. -/
theorem extended_negatable {word : Keyword} {single op : String} {negated : Bool}
    {operator : OperatorClass} {right : Node} (hWord : NegatableWord word negated op gs hs)
    (hSingle : word.words = [single]) (hNot : word ≠ .NOT) (hPlain : Plain gs)
    (hRight : Written dialect (fun fs r => ∀ {gs}, NegatableWord word negated op gs fs →
      Derives dialect (.operation left operator (.binary op left right)) gs r)
      right.render.toList cs (Continues is)) :
    ∃ text ds, Extended dialect gs is (.operation left operator (.binary op left right)) left
      (.binary op left right) text ds := by
  obtain ⟨notText, text, rfl, hNotText, hText⟩ := hWord.exists_text hPlain.genuine hSingle
  refine ⟨_, _, extended_operation (toList_render_binary _ left right) rfl
    (hWord.repeats hNot notText text)
    (fun hNeutral hReads => hReads.negatable hNeutral hSingle hNotText hText)
    ⟨fun hr => hRight.parsed hr (negatableWord_glyphs word negated notText text _), hRight.reads⟩⟩

theorem extended_likeness {op : String} {negated : Bool} {right : Node}
    (hWord : NegatableWord .LIKE negated op gs hs)
    (hRight : Rewritten dialect hs is (.expression 6 right) right cs) (hPlain : Plain gs) :
    ∃ text ds, Extended dialect gs is (.operation left .likeness (.binary op left right)) left
      (.binary op left right) text ds :=
  extended_negatable hWord rfl (by decide) hPlain
    ⟨fun hr _ hWord' => .likeness hWord' (hRight.written.parsed hr), hRight.written.reads⟩

theorem extended_membership {op : String} {negated : Bool} {right : Node}
    (hWord : NegatableWord .IN negated op gs hs)
    (hFront : front hs = .leftParen → front hs.tail = .keyword .SELECT)
    (hRight : Rewritten dialect hs is (.expression 6 right) right cs) (hPlain : Plain gs) :
    ∃ text ds, Extended dialect gs is (.operation left .membership (.binary op left right)) left
      (.binary op left right) text ds := by
  refine extended_negatable hWord rfl (by decide) hPlain
    ⟨fun {r} hr _ hWord' => .membership hWord' ?_ (hRight.written.parsed hr), hRight.written.reads⟩
  intro hParen
  have hOpens := hRight.opens.append r
  rw [hOpens.front_eq] at hParen
  exact hOpens.query hParen (hFront hParen)

theorem extended_membershipList {op text : String} {negated : Bool} {items : List Node}
    (hWord : NegatableWord .IN negated op gs (⟨.leftParen, text⟩ :: hs))
    (hFront : front hs ≠ .keyword .SELECT)
    (hItems : Leading dialect hs (Derives dialect (.arguments items))
      ((renderList (items.map Node.render)).toList ++ [')']) cs fun _ => True)
    (hPlain : Plain gs) :
    ∃ text ds, Extended dialect gs is
      (.operation left .membership (.binary op left (.tuple items))) left
      (.binary op left (.tuple items)) text ds := by
  have hRight : Written dialect (fun fs r => ∀ {gs}, NegatableWord .IN negated op gs fs →
      Derives dialect (.operation left .membership (.binary op left (.tuple items))) gs r)
      (Node.tuple items).render.toList (⟨.leftParen, "("⟩ :: cs) (Continues is) := by
    refine ⟨fun {r} hr _ hWord' => .membershipList hWord' ?_ (hItems.written.parsed trivial),
      fun {r tail} _ hNeutral hReads => ?_⟩
    · show front (cs ++ r) ≠ _
      rwa [hItems.opens.front_append]
    · have hAll := (hItems.written.reads trivial hNeutral hReads).leftParen
      rw [Node.tuple, Node.render_ofForm]
      simpa [Form.map, Form.renderParts] using hAll
  exact extended_negatable hWord rfl (by decide) hPlain hRight

/-- The operator of a range is written in upper case. -/
theorem extended_range {op text : String} {negated : Bool} {low high : Node}
    (hWord : NegatableWord .BETWEEN negated op gs hs)
    (hLow : Rewritten dialect hs (⟨.keyword .AND, text⟩ :: is) (.expression 6 low) low cs)
    (hHigh : Rewritten dialect is js (.expression 6 high) high ds) :
    ∃ text ds, Extended dialect gs js
      (.operation left .range (.between left low high negated)) left
      (.between left low high negated) text ds := by
  have hText : (Node.between left low high negated).render.toList = left.render.toList ++
      ' ' :: ((negatableText negated "NOT" "BETWEEN").toList ++
        ' ' :: (low.render.toList ++ " AND ".toList ++ high.render.toList)) := by
    rw [Node.between, Node.render_ofForm]
    cases negated <;> simp [Form.map, Form.renderParts, negatableText]
  have hBounds : Written dialect
      (fun fs r => Derives dialect (.operation left .range (.between left low high negated))
        (negatableGlyphs .BETWEEN negated "NOT" "BETWEEN" ++ fs) r)
      (low.render.toList ++ " AND ".toList ++ high.render.toList)
      (cs ++ ⟨.keyword .AND, Keyword.AND.spelling⟩ :: ds) (Continues js) := by
    refine ⟨fun {r} hr => ?_, fun {r tail} hr hNeutral hReads => ?_⟩
    · rw [List.append_assoc, List.cons_append]
      exact .range (negatableWord_glyphs _ negated _ _ _)
        (hLow.written.parsed (Follows.continues (Glyph.follows_cons (by decide))))
        (hHigh.written.parsed hr)
    · have hRest := ((hHigh.written.reads hr hNeutral hReads).keywordSpace .AND).space
      have hAll := hLow.written.reads (Follows.continues (Glyph.follows_cons (by decide)))
        (Text.neutral_space _) hRest
      simpa [Keyword.spelling, Keyword.words] using hAll
  exact ⟨_, _, extended_operation hText rfl (hWord.repeats (by decide) "NOT" "BETWEEN")
    (fun hNeutral hReads => hReads.negatable hNeutral
      (show Keyword.BETWEEN.words = ["BETWEEN"] from rfl) (by decide) (by decide)) hBounds⟩

end Expressions

/-! ## Written lists -/

section Lists

variable {dialect : Dialect} {gs hs is js cs ds : List Glyph} {text : String} {sort : ItemSort}
  {first node aliased : Node} {further nodes : List Node}

theorem leading_argumentsNone :
    Leading dialect (⟨.rightParen, text⟩ :: gs) (Derives dialect (.arguments []))
      ((renderList (([] : List Node).map Node.render)).toList ++ [')']) [⟨.rightParen, ")"⟩]
      fun _ => True :=
  ⟨⟨fun _ => .argumentsNone, fun _ _ hReads => hReads.rightParen⟩, .of_kind (by simp)⟩

theorem leading_argumentsSome (hFront : front gs ≠ .rightParen)
    (hItems : Leading dialect gs (Derives dialect (.items .expression nodes))
      (renderList (nodes.map Node.render)).toList cs (Follows (⟨.rightParen, text⟩ :: hs))) :
    Leading dialect gs (Derives dialect (.arguments nodes))
      ((renderList (nodes.map Node.render)).toList ++ [')']) (cs ++ [⟨.rightParen, ")"⟩])
      fun _ => True := by
  have hClose : ∀ r, Follows (⟨.rightParen, text⟩ :: hs) (⟨.rightParen, ")"⟩ :: r) :=
    fun r => Glyph.follows_cons (by decide)
  refine ⟨⟨fun {r} _ => ?_, fun {r tail} _ _ hReads => ?_⟩, hItems.opens.append _⟩
  · rw [List.append_assoc, List.singleton_append]
    refine .argumentsSome ?_ (hItems.written.parsed (hClose r))
    rwa [hItems.opens.front_append]
  · rw [List.append_assoc, List.append_assoc]
    exact hItems.written.reads (hClose r) (Text.neutral_close tail) hReads.rightParen

theorem leading_items
    (hFirst : Leading dialect gs (Derives dialect (.item sort first)) first.render.toList cs
      (Follows hs))
    (hFurther : Trailing dialect hs is (Derives dialect (.furtherItems sort further))
      (furtherText further) ds) :
    Leading dialect gs (Derives dialect (.items sort (first :: further)))
      (renderList ((first :: further).map Node.render)).toList (cs ++ ds) (Follows is) := by
  refine ⟨⟨fun hr => ?_, fun hr hNeutral hReads => ?_⟩, hFirst.opens.append ds⟩
  · rw [List.append_assoc]
    exact .items (hFirst.written.parsed (hFurther.follows hr)) (hFurther.written.parsed hr)
  · rw [toList_renderList_cons, List.append_assoc, List.append_assoc]
    exact hFirst.written.reads (hFurther.follows hr) (hFurther.neutral.append hNeutral)
      (hFurther.written.reads hr hNeutral hReads)

theorem trailing_furtherDone (hFront : front gs ≠ .comma) :
    Trailing dialect gs gs (Derives dialect (.furtherItems sort [])) (furtherText []) [] :=
  .absent fun hr => .furtherDone (hr.front_ne hFront (by simp))

theorem trailing_furtherMore
    (hItem : Leading dialect gs (Derives dialect (.item sort node)) node.render.toList cs
      (Follows hs))
    (hFurther : Trailing dialect hs is (Derives dialect (.furtherItems sort nodes))
      (furtherText nodes) ds) :
    Trailing dialect (⟨.comma, text⟩ :: gs) is
      (Derives dialect (.furtherItems sort (node :: nodes)))
      (furtherText (node :: nodes)) (⟨.comma, ","⟩ :: (cs ++ ds)) := by
  refine ⟨Text.neutral_cons (by decide), ⟨fun hr => ?_, fun hr hNeutral hReads => ?_⟩,
    Or.inr fun r => Glyph.repeats_cons (by decide)⟩
  · rw [List.cons_append, List.append_assoc]
    exact .furtherMore (hItem.written.parsed (hFurther.follows hr)) (hFurther.written.parsed hr)
  · have hAll := (hItem.written.reads (hFurther.follows hr) (hFurther.neutral.append hNeutral)
      (hFurther.written.reads hr hNeutral hReads)).space.comma
    simpa [furtherText] using hAll

theorem leading_expressionItem (hNode : Rewritten dialect gs hs (.expression 0 node) node cs) :
    Leading dialect gs (Derives dialect (.item .expression node)) node.render.toList cs
      (Follows hs) :=
  ⟨⟨fun hr => .expressionItem (hNode.written.parsed hr.continues),
    fun hr => hNode.written.reads hr.continues⟩, hNode.opens⟩

/-- An alias is written behind `AS`. -/
theorem Aliased.rewritten (dialect : Dialect) (hAlias : Aliased node aliased hs is)
    (hNone : node.aliasName = none) (hPlain : Plain hs) :
    ∃ text cs, aliased.render.toList = node.render.toList ++ text ∧ Text.Neutral text ∧
      (∀ {r}, Follows is r → Continues hs (cs ++ r)) ∧
      Written dialect (Aliased node aliased) text cs (Follows is) := by
  have hNamed : ∀ {name text : String} {quote : Option Char},
      Glyph.Genuine ⟨.identifier name quote, text⟩ →
      ∃ text cs, (node.withAlias name).render.toList = node.render.toList ++ text ∧
        Text.Neutral text ∧ (∀ {r}, Follows is r → Continues hs (cs ++ r)) ∧
        Written dialect (Aliased node (node.withAlias name)) text cs (Follows is) := by
    intro name _ _ hGenuine
    refine ⟨' ' :: (Keyword.AS.spelling.toList ++ ' ' :: (renderAlias name).toList),
      [⟨.keyword .AS, Keyword.AS.spelling⟩, ⟨.identifier name (aliasQuote name), renderAlias name⟩],
      ?_, Text.neutral_space _, fun _ => Or.inr rfl, fun _ => .introduced,
      fun _ hNeutral hReads => ?_⟩
    · rw [Node.render_withAlias hNone]
      simp [Keyword.spelling, Keyword.words]
    · have hAll := ((hReads.aliasText hNeutral hGenuine.enclosable).keywordSpace .AS).space
      simpa using hAll
  cases hAlias with
  | introduced => exact hNamed hPlain.tail.head
  | bare => exact hNamed hPlain.head
  | absent hWord hName =>
    refine ⟨[], [], (List.append_nil _).symm, Text.neutral_nil, fun hr => hr.continues,
      fun hr => .absent (hr.front_ne hWord (by simp)) hr.not_name, fun _ _ hReads => hReads⟩

theorem leading_target (hNode : Rewritten dialect gs hs (.expression 0 node) node cs)
    (hAlias : Aliased node aliased hs is) (hNone : node.aliasName = none) (hPlain : Plain hs) :
    ∃ ds, Leading dialect gs (Derives dialect (.item .target aliased)) aliased.render.toList ds
      (Follows is) := by
  obtain ⟨text, ds, hText, hNeutral, hContinues, hWritten⟩ := hAlias.rewritten dialect hNone hPlain
  refine ⟨cs ++ ds, ⟨fun hr => ?_, fun hr hTail hReads => ?_⟩, hNode.opens.append ds⟩
  · rw [List.append_assoc]
    exact .target (hNode.written.parsed (hContinues hr)) (hWritten.parsed hr)
  · rw [hText, List.append_assoc, List.append_assoc]
    exact hNode.written.reads (hContinues hr) (hNeutral.append hTail)
      (hWritten.reads hr hTail hReads)

/-- A keyword that may be missing, with a space before it. -/
theorem trailing_word {part : List Glyph → List Glyph → Prop} (word : Keyword) (hNot : word ≠ .NOT)
    (hParsed : ∀ {r}, part (⟨.keyword word, word.spelling⟩ :: r) r) :
    Trailing dialect (⟨.keyword word, text⟩ :: hs) hs part (' ' :: word.spelling.toList)
      [⟨.keyword word, word.spelling⟩] :=
  ⟨Text.neutral_space _, ⟨fun _ => hParsed, fun _ hNeutral hReads =>
    (hReads.keyword word hNeutral).space⟩,
    Or.inr fun _ => Glyph.repeats_cons ⟨rfl, by simpa using hNot⟩⟩

theorem Directed.rewritten (dialect : Dialect) {direction : Direction}
    (hDirection : Directed direction gs hs) :
    ∃ cs, Trailing dialect gs hs (Directed direction)
      (renderSuffix direction.spelling).toList cs := by
  cases hDirection with
  | ascending => exact ⟨_, trailing_word .ASC (by decide) .ascending⟩
  | descending => exact ⟨_, trailing_word .DESC (by decide) .descending⟩
  | unspecified hAscending hDescending =>
    exact ⟨_, .absent fun hr =>
      .unspecified (hr.front_ne hAscending (by simp)) (hr.front_ne hDescending (by simp))⟩

theorem Placed.rewritten (dialect : Dialect) {nulls : NullPlacement} (hNulls : Placed nulls gs hs) :
    ∃ cs, Trailing dialect gs hs (Placed nulls) (renderSuffix nulls.spelling).toList cs := by
  cases hNulls with
  | first => exact ⟨_, trailing_word .NULLS_FIRST (by decide) .first⟩
  | last => exact ⟨_, trailing_word .NULLS_LAST (by decide) .last⟩
  | unspecified hFirst hLast =>
    exact ⟨_, .absent fun hr =>
      .unspecified (hr.front_ne hFirst (by simp)) (hr.front_ne hLast (by simp))⟩

theorem leading_entry {field : Node} {direction : Direction} {nulls : NullPlacement}
    (hField : Rewritten dialect gs hs (.expression 0 field) field cs)
    (hDirection : Directed direction hs is) (hNulls : Placed nulls is js) :
    ∃ ds, Leading dialect gs
      (Derives dialect (.item .entry (.ofForm (.orderBy field direction nulls))))
      (Node.ofForm (.orderBy field direction nulls)).render.toList ds (Follows js) := by
  obtain ⟨ds, hFirst⟩ := hDirection.rewritten dialect
  obtain ⟨es, hSecond⟩ := hNulls.rewritten dialect
  refine ⟨cs ++ (ds ++ es), ⟨fun hr => ?_, fun hr hNeutral hReads => ?_⟩, hField.opens.append _⟩
  · rw [List.append_assoc, List.append_assoc]
    exact .entry (hField.written.parsed (hFirst.follows (hSecond.follows hr)).continues)
      (hFirst.written.parsed (hSecond.follows hr)) (hSecond.written.parsed hr)
  · have hRest := hFirst.written.reads (hSecond.follows hr) (hSecond.neutral.append hNeutral)
      (hSecond.written.reads hr hNeutral hReads)
    have hAll := hField.written.reads (hFirst.follows (hSecond.follows hr)).continues
      (hFirst.neutral.append (hSecond.neutral.append hNeutral)) hRest
    rw [Node.render_ofForm]
    simpa [Form.map, Form.renderParts] using hAll

end Lists

/-! ## Written clauses -/

section Clauses

variable {dialect : Dialect} {gs hs is js cs ds es : List Glyph} {text text' : String}
  {node aliased : Node} {word : Keyword}

theorem written_table {kind : TokenKind} (hTable : dialect.table? kind = some node)
    (hAlias : Aliased node aliased gs hs) (hPlain : Plain (⟨kind, text⟩ :: gs)) :
    ∃ cs, Written dialect (Derives dialect (.source aliased)) aliased.render.toList cs
      (Follows hs) := by
  obtain ⟨text', cs, hText, hNeutral, hContinues, hWritten⟩ :=
    hAlias.rewritten dialect (Dialect.aliasName_of_table? hTable) hPlain.tail
  refine ⟨⟨kind, node.render⟩ :: cs, fun hr => .table hTable (hWritten.parsed hr),
    fun hr hTail hReads => ?_⟩
  rw [hText, List.append_assoc]
  exact Dialect.reads_table hTable hPlain (hContinues hr) (hNeutral.append hTail)
    (hWritten.reads hr hTail hReads)

theorem written_derivedTable
    (hSelect : Derives dialect (.select node) gs (⟨.rightParen, text'⟩ :: hs))
    (hInner : Leading dialect gs (Derives dialect (.select node)) node.render.toList cs
      (Follows (⟨.rightParen, text'⟩ :: hs)))
    (hAlias : Aliased (node.withParentheses true) aliased hs is) (hPlain : Plain hs) :
    ∃ ds, Written dialect (Derives dialect (.source aliased)) aliased.render.toList ds
      (Follows is) := by
  obtain ⟨further, ds, hText, hNeutral, hContinues, hWritten⟩ :=
    hAlias.rewritten dialect hSelect.unaliased hPlain
  refine ⟨enclosedGlyphs cs ++ ds, fun {r} hr => ?_, fun {r tail} hr hTail hReads => ?_⟩
  · rw [List.append_assoc, enclosedGlyphs_append]
    exact .derivedTable (hInner.written.parsed (Glyph.follows_cons (by decide)))
      (hWritten.parsed hr)
  · have hAll := (hInner.written.reads (Glyph.follows_cons (by decide))
      (Text.neutral_close (further ++ tail)) (hWritten.reads hr hTail hReads).rightParen).leftParen
    rw [hText, Node.render_withParentheses hSelect.unaliased hSelect.parentheses_of_select,
      List.append_assoc, enclosedGlyphs_append]
    simpa using hAll

theorem trailing_clauseNone (hFront : front gs ≠ .keyword word) :
    Trailing dialect gs gs (Derives dialect (.clause word none))
      (renderClause word.spelling ((none : Option Node).map Node.render)).toList [] :=
  .absent fun hr => .clauseNone (hr.front_ne hFront (by simp))

/-- A keyword with something behind it. -/
theorem trailing_body {part part' : List Glyph → List Glyph → Prop} {body : String}
    (hNot : word ≠ .NOT) (hBody : Written dialect part' body.toList cs (Follows hs))
    (hParsed : ∀ {fs r}, part' fs r → part (⟨.keyword word, word.spelling⟩ :: fs) r) :
    Trailing dialect (⟨.keyword word, text⟩ :: gs) hs part
      (renderClause word.spelling (some body)).toList (⟨.keyword word, word.spelling⟩ :: cs) := by
  have hText : (renderClause word.spelling (some body)).toList =
      ' ' :: (word.spelling.toList ++ ' ' :: body.toList) := by
    simp [renderClause]
  rw [hText]
  refine ⟨Text.neutral_space _, ⟨fun hr => hParsed (hBody.parsed hr), fun hr hNeutral hReads => ?_⟩,
    Or.inr fun r => Glyph.repeats_cons ⟨rfl, by simpa using hNot⟩⟩
  have hAll := ((hBody.reads hr hNeutral hReads).keywordSpace word).space
  simpa using hAll

theorem trailing_listClauseNone {sort : ItemSort} (hFront : front gs ≠ .keyword word) :
    Trailing dialect gs gs (Derives dialect (.listClause word sort []))
      (renderClause word.spelling (renderList? (([] : List Node).map Node.render))).toList [] :=
  .absent fun hr => .listClauseNone (hr.front_ne hFront (by simp))

theorem Derives.items_ne_nil {sort : ItemSort} {nodes : List Node}
    (hItems : Derives dialect (.items sort nodes) gs hs) : nodes ≠ [] := by
  cases hItems
  exact List.cons_ne_nil _ _

theorem trailing_listClauseSome {sort : ItemSort} {nodes : List Node} (hNot : word ≠ .NOT)
    (hNodes : nodes ≠ [])
    (hItems : Leading dialect gs (Derives dialect (.items sort nodes))
      (renderList (nodes.map Node.render)).toList cs (Follows hs)) :
    Trailing dialect (⟨.keyword word, text⟩ :: gs) hs
      (Derives dialect (.listClause word sort nodes))
      (renderClause word.spelling (renderList? (nodes.map Node.render))).toList
      (⟨.keyword word, word.spelling⟩ :: cs) := by
  rw [renderList?, if_neg (by simpa using hNodes)]
  exact trailing_body hNot hItems.written .listClauseSome

theorem trailing_sourceClauseNone (hFront : front gs ≠ .keyword .FROM) :
    Trailing dialect gs gs (Derives dialect (.sourceClause none))
      (renderClause Keyword.FROM.spelling ((none : Option Node).map Node.render)).toList [] :=
  .absent fun hr => .sourceClauseNone (hr.front_ne hFront (by simp))

theorem trailing_sourceClauseSome {first : Node} {further : List Char}
    (hFirst : Written dialect (Derives dialect (.source first)) first.render.toList cs (Follows hs))
    (hText : node.render.toList = first.render.toList ++ further)
    (hJoins : Trailing dialect hs is (Derives dialect (.joins first node)) further ds) :
    Trailing dialect (⟨.keyword .FROM, text⟩ :: gs) is (Derives dialect (.sourceClause (some node)))
      (renderClause Keyword.FROM.spelling ((some node).map Node.render)).toList
      (⟨.keyword .FROM, Keyword.FROM.spelling⟩ :: (cs ++ ds)) := by
  have hBody : Written dialect (fun fs r => ∃ is, Derives dialect (.source first) fs is ∧
      Derives dialect (.joins first node) is r) node.render.toList (cs ++ ds) (Follows is) := by
    refine ⟨fun {r} hr => ⟨ds ++ r, ?_, hJoins.written.parsed hr⟩, fun hr hNeutral hReads => ?_⟩
    · rw [List.append_assoc]
      exact hFirst.parsed (hJoins.follows hr)
    · rw [hText, List.append_assoc, List.append_assoc]
      exact hFirst.reads (hJoins.follows hr) (hJoins.neutral.append hNeutral)
        (hJoins.written.reads hr hNeutral hReads)
  exact trailing_body (by decide) hBody fun ⟨_, hSource, hRest⟩ => .sourceClauseSome hSource hRest

theorem trailing_joinsDone (hKind : Grammar.joinKind? (front gs) = none) :
    Trailing dialect gs gs (Derives dialect (.joins node node)) [] [] := by
  refine .absent fun {r} hr => .joinsDone ?_
  rcases hr with hEnd | hRepeats
  · rw [hEnd]
    rfl
  · rw [hRepeats.front_eq, hKind]

/-- What stands between the sources of a join. -/
def joinText (join : JoinKind) : String :=
  if join == .comma then ", " else " " ++ join.spelling ++ " "

theorem RuleSet.reads_join (dialect : Dialect) {kind : TokenKind} {join : JoinKind}
    (hKind : Grammar.joinKind? kind = some join) :
    (kind.isIdentifier = false ∧ kind ≠ .keyword .NOT) ∧
      (∀ tail, Text.Neutral ((joinText join).toList ++ tail)) ∧
      ∃ text, ∀ {tail r}, dialect.grammar.tokens.Reads true tail r →
        dialect.grammar.tokens.Reads true ((joinText join).toList ++ tail) (⟨kind, text⟩ :: r) := by
  -- Each kind but the comma is a keyword of the same spelling.
  have hWord : ∀ {word : Keyword}, joinText join = " " ++ word.spelling ++ " " →
      (∀ tail, Text.Neutral ((joinText join).toList ++ tail)) ∧
      ∃ text, ∀ {tail r}, dialect.grammar.tokens.Reads true tail r →
        dialect.grammar.tokens.Reads true ((joinText join).toList ++ tail)
          (⟨.keyword word, text⟩ :: r) := by
    intro word hText
    have hChars : (joinText join).toList = ' ' :: (word.spelling.toList ++ [' ']) := by
      rw [hText]
      simp
    rw [hChars]
    refine ⟨fun tail => Text.neutral_space _, word.spelling, fun hReads => ?_⟩
    simpa using (hReads.keywordSpace word).space
  unfold Grammar.joinKind? at hKind
  split at hKind <;> cases hKind
  · exact ⟨by decide, fun tail => Text.neutral_cons (by decide), ",",
      fun hReads => hReads.space.comma⟩
  all_goals exact ⟨by decide, hWord rfl⟩

theorem toList_render_join (left right : Node) (join : JoinKind) (condition : Option Node) :
    (Node.ofForm (.join left right join condition)).render.toList = left.render.toList ++
      ((joinText join).toList ++ (right.render.toList ++
        (renderClause Keyword.ON.spelling (condition.map Node.render)).toList)) := by
  rw [Node.render_ofForm]
  simp [Form.map, Form.renderParts, joinText, Keyword.spelling, Keyword.words]

/-- The condition of a join, which one with a comma does not have. -/
theorem Trailing.condition {join : JoinKind} {condition : Option Node}
    (hComma : join = .comma → condition = none ∧ hs = is)
    (hCondition : join ≠ .comma → ∃ ds,
      Trailing dialect hs is (Derives dialect (.clause .ON condition))
      (renderClause Keyword.ON.spelling (condition.map Node.render)).toList ds) :
    ∃ ds, Trailing dialect hs is (fun fs r =>
      (join = .comma → condition = none ∧ fs = r) ∧
        (join ≠ .comma → Derives dialect (.clause .ON condition) fs r))
      (renderClause Keyword.ON.spelling (condition.map Node.render)).toList ds := by
  by_cases hJoin : join = .comma
  · obtain ⟨rfl, rfl⟩ := hComma hJoin
    exact ⟨[], .absent fun _ => ⟨fun _ => ⟨rfl, rfl⟩, fun h => absurd hJoin h⟩⟩
  · obtain ⟨ds, hTrailing⟩ := hCondition hJoin
    exact ⟨ds, hTrailing.neutral, ⟨fun hr => ⟨fun h => absurd h hJoin, fun _ =>
      hTrailing.written.parsed hr⟩, hTrailing.written.reads⟩, hTrailing.starts⟩

theorem trailing_joinsMore {kind : TokenKind} {join : JoinKind} {left right : Node}
    {condition : Option Node} {further : List Char} (hKind : Grammar.joinKind? kind = some join)
    (hRight : Written dialect (Derives dialect (.source right)) right.render.toList cs (Follows hs))
    (hCondition : Trailing dialect hs is (fun fs r =>
      (join = .comma → condition = none ∧ fs = r) ∧
        (join ≠ .comma → Derives dialect (.clause .ON condition) fs r))
      (renderClause Keyword.ON.spelling (condition.map Node.render)).toList ds)
    (hText : node.render.toList =
      (Node.ofForm (.join left right join condition)).render.toList ++ further)
    (hJoins : Trailing dialect is js
      (Derives dialect (.joins (.ofForm (.join left right join condition)) node)) further es) :
    ∃ text' fs, node.render.toList = left.render.toList ++ text' ∧
      Trailing dialect (⟨kind, text⟩ :: gs) js (Derives dialect (.joins left node)) text' fs := by
  obtain ⟨hFirst, hNeutral, glyphText, hGlyph⟩ := RuleSet.reads_join dialect hKind
  refine ⟨(joinText join).toList ++ (right.render.toList ++
    ((renderClause Keyword.ON.spelling (condition.map Node.render)).toList ++ further)),
    ⟨kind, glyphText⟩ :: (cs ++ (ds ++ es)), ?_, hNeutral _, ⟨fun hr => ?_,
      fun hr hTail hReads => ?_⟩, Or.inr fun r => Glyph.repeats_cons hFirst⟩
  · rw [hText, toList_render_join]
    simp only [List.append_assoc]
  · have hFollows := hJoins.follows hr
    have hOn := hCondition.written.parsed hFollows
    rw [List.cons_append, List.append_assoc, List.append_assoc]
    exact .joinsMore hKind (hRight.parsed (hCondition.follows hFollows)) hOn.1 hOn.2
      (hJoins.written.parsed hr)
  · have hFollows := hJoins.follows hr
    have hRest := hCondition.written.reads hFollows (hJoins.neutral.append hTail)
      (hJoins.written.reads hr hTail hReads)
    have hAll := hGlyph (hRight.reads (hCondition.follows hFollows)
      (hCondition.neutral.append (hJoins.neutral.append hTail)) hRest)
    simpa using hAll

end Clauses

/-! ## Written queries -/

section Queries

variable {dialect : Dialect} {gs hs cs : List Glyph} {text text' : String} {node : Node}

theorem toList_render_select (query : Query Node) :
    (Node.ofForm (.select query)).render.toList =
      Keyword.SELECT.spelling.toList ++
        ' ' :: ((if query.distinct then "DISTINCT " else "").toList ++
        ((renderList (query.targets.map Node.render)).toList ++
        ((renderClause Keyword.FROM.spelling (query.source.map Node.render)).toList ++
        ((renderClause Keyword.WHERE.spelling (query.condition.map Node.render)).toList ++
        ((renderClause Keyword.GROUP_BY.spelling
          (renderList? (query.groups.map Node.render))).toList ++
        ((renderClause Keyword.HAVING.spelling (query.having.map Node.render)).toList ++
        ((renderClause Keyword.ORDER_BY.spelling
          (renderList? (query.ordering.map Node.render))).toList ++
        ((renderClause Keyword.LIMIT.spelling (query.limit.map Node.render)).toList ++
        (renderClause Keyword.OFFSET.spelling (query.offset.map Node.render)).toList)))))))) := by
  rw [Node.render_ofForm, Form.map, Form.renderParts]
  delta Query.renderParts
  simp [Query.map, Keyword.spelling, Keyword.words, String.intercalate_cons_cons]
  rfl

theorem Distinctness.rewritten {distinct : Bool} {r : List Glyph}
    (hFront : front r ≠ .keyword .DISTINCT ∧ front r ≠ .keyword .ALL) :
    Distinctness distinct (distinctGlyphs distinct ++ r) r := by
  cases distinct with
  | false => exact .neither hFront.1 hFront.2
  | true => exact .distinct

theorem leading_select {query : Query Node} {g₁ g₂ g₃ g₄ g₅ g₆ g₇ g₈ g₉ g₁₀ : List Glyph}
    {c₂ c₃ c₄ c₅ c₆ c₇ c₈ c₉ : List Glyph}
    (hFront : front g₂ ≠ .keyword .DISTINCT ∧ front g₂ ≠ .keyword .ALL)
    (hTargets : Leading dialect g₂ (Derives dialect (.items .target query.targets))
      (renderList (query.targets.map Node.render)).toList c₂ (Follows g₃))
    (hSource : Trailing dialect g₃ g₄ (Derives dialect (.sourceClause query.source))
      (renderClause Keyword.FROM.spelling (query.source.map Node.render)).toList c₃)
    (hCondition : Trailing dialect g₄ g₅ (Derives dialect (.clause .WHERE query.condition))
      (renderClause Keyword.WHERE.spelling (query.condition.map Node.render)).toList c₄)
    (hGroups : Trailing dialect g₅ g₆
      (Derives dialect (.listClause .GROUP_BY .expression query.groups))
      (renderClause Keyword.GROUP_BY.spelling
        (renderList? (query.groups.map Node.render))).toList c₅)
    (hHaving : Trailing dialect g₆ g₇ (Derives dialect (.clause .HAVING query.having))
      (renderClause Keyword.HAVING.spelling (query.having.map Node.render)).toList c₆)
    (hOrdering : Trailing dialect g₇ g₈
      (Derives dialect (.listClause .ORDER_BY .entry query.ordering))
      (renderClause Keyword.ORDER_BY.spelling
        (renderList? (query.ordering.map Node.render))).toList c₇)
    (hLimit : Trailing dialect g₈ g₉ (Derives dialect (.clause .LIMIT query.limit))
      (renderClause Keyword.LIMIT.spelling (query.limit.map Node.render)).toList c₈)
    (hOffset : Trailing dialect g₉ g₁₀ (Derives dialect (.clause .OFFSET query.offset))
      (renderClause Keyword.OFFSET.spelling (query.offset.map Node.render)).toList c₉) :
    Leading dialect (⟨.keyword .SELECT, text⟩ :: g₁)
      (Derives dialect (.select (.ofForm (.select query))))
      (Node.ofForm (.select query)).render.toList
      (⟨.keyword .SELECT, Keyword.SELECT.spelling⟩ :: (distinctGlyphs query.distinct ++
        (c₂ ++ (c₃ ++ (c₄ ++ (c₅ ++ (c₆ ++ (c₇ ++ (c₈ ++ c₉)))))))))
      (Follows g₁₀) := by
  refine ⟨⟨fun h₁₀ => ?_, fun h₁₀ hNeutral hReads => ?_⟩, .of_kind (by simp)⟩
  all_goals
    have h₉ := hOffset.follows h₁₀
    have h₈ := hLimit.follows h₉
    have h₇ := hOrdering.follows h₈
    have h₆ := hHaving.follows h₇
    have h₅ := hGroups.follows h₆
    have h₄ := hCondition.follows h₅
    have h₃ := hSource.follows h₄
  · simp only [List.cons_append, List.append_assoc]
    refine .select (.rewritten ?_) (hTargets.written.parsed h₃) (hSource.written.parsed h₄)
      (hCondition.written.parsed h₅) (hGroups.written.parsed h₆) (hHaving.written.parsed h₇)
      (hOrdering.written.parsed h₈) (hLimit.written.parsed h₉) (hOffset.written.parsed h₁₀)
    rwa [hTargets.opens.front_append]
  · have n₉ := hOffset.neutral.append hNeutral
    have n₈ := hLimit.neutral.append n₉
    have n₇ := hOrdering.neutral.append n₈
    have n₆ := hHaving.neutral.append n₇
    have n₅ := hGroups.neutral.append n₆
    have n₄ := hCondition.neutral.append n₅
    have n₃ := hSource.neutral.append n₄
    have r₉ := hOffset.written.reads h₁₀ hNeutral hReads
    have r₈ := hLimit.written.reads h₉ n₉ r₉
    have r₇ := hOrdering.written.reads h₈ n₈ r₈
    have r₆ := hHaving.written.reads h₇ n₇ r₇
    have r₅ := hGroups.written.reads h₆ n₆ r₆
    have r₄ := hCondition.written.reads h₅ n₅ r₅
    have r₃ := hSource.written.reads h₄ n₄ r₄
    have hAll := ((hTargets.written.reads h₃ n₃ r₃).distinct query.distinct).keywordSpace .SELECT
    rw [toList_render_select]
    simpa only [List.cons_append, List.append_assoc] using hAll

theorem written_bareQuery (hFront : front gs ≠ .leftParen)
    (hSelect : Leading dialect gs (Derives dialect (.select node)) node.render.toList cs
      (Follows hs)) :
    Written dialect (Derives dialect (.query node)) node.render.toList cs (Follows hs) := by
  refine ⟨fun hr => .bareQuery ?_ (hSelect.written.parsed hr), hSelect.written.reads⟩
  rwa [hSelect.opens.front_append]

theorem written_enclosedQuery
    (hDerives : Derives dialect (.query node) gs (⟨.rightParen, text'⟩ :: hs))
    (hInner : Written dialect (Derives dialect (.query node)) node.render.toList cs
      (Follows (⟨.rightParen, text'⟩ :: hs)))
    (hEnclosed : node.parentheses = true →
      Written dialect (Derives dialect (.query node)) node.render.toList cs fun _ => True) :
    ∃ ds, Written dialect (Derives dialect (.query (node.withParentheses true)))
      (node.withParentheses true).render.toList ds fun _ => True := by
  cases hParens : node.parentheses with
  | true =>
    rw [Node.withParentheses_eq hParens]
    exact ⟨cs, hEnclosed hParens⟩
  | false =>
    exact ⟨_, hInner.enclose (fun r => Glyph.follows_cons (by decide)) ⟨hDerives.unaliased, hParens⟩
      fun r hQuery => .enclosedQuery hQuery⟩

end Queries

/-! ## Written derivations -/

/-- Every derivation from a plain reading is written as its tree is. -/
theorem Derives.rewritten {dialect : Dialect} {construct : Construct} {gs hs : List Glyph}
    (hDerives : Derives dialect construct gs hs) (hPlain : Plain gs) :
    construct.Rewritten dialect gs hs := by
  induction hDerives with
  | atom hAtom => exact ⟨_, rewritten_atom hAtom hPlain⟩
  | column hFront => exact ⟨_, rewritten_column hFront hPlain⟩
  | call hDistinct hArgs ih =>
    obtain ⟨cs, hArgs'⟩ := ih (hPlain.tail.tail.of_suffix hDistinct.suffix)
    exact ⟨_, rewritten_call hDistinct hArgs' hPlain⟩
  | unary hClass hArg ih =>
    obtain ⟨cs, hArg'⟩ := ih hPlain.tail
    exact ⟨_, rewritten_unary hClass hArg' hPlain⟩
  | subquery hFront hSelect ih =>
    obtain ⟨cs, hInner⟩ := ih hPlain.tail
    exact ⟨_, rewritten_subquery hFront hSelect hInner⟩
  | grouped hFront hExpression ih =>
    obtain ⟨cs, hInner⟩ := ih hPlain.tail
    exact rewritten_grouped hFront hExpression hInner
  | tuple hFront hFirst hComma hFurther ihFirst ihFurther =>
    obtain ⟨cs, hFirst'⟩ := ihFirst hPlain.tail
    obtain ⟨ds, hFurther'⟩ := ihFurther (hPlain.tail.of_derives hFirst)
    exact ⟨_, rewritten_tuple hFront hComma hFirst' hFurther'⟩
  | typeCast hArg hName ih =>
    obtain ⟨cs, hArg'⟩ := ih hPlain.tail.tail
    exact rewritten_typeCast hName hArg' (hPlain.tail.tail.of_derives hArg).tail
  | caseWhen hFront hRules hDefault ihRules ihDefault =>
    obtain ⟨cs, hRules'⟩ := ihRules hPlain.tail
    obtain ⟨ds, hDefault'⟩ := ihDefault (hPlain.tail.of_derives hRules) (by decide)
    exact ⟨_, rewritten_caseWhen hFront hRules' hDefault'⟩
  | rulesDone hFront => exact ⟨_, trailing_rulesDone hFront⟩
  | rulesMore hCondition hResult hRules ihCondition ihResult ihRules =>
    have hAfter := (hPlain.tail.of_derives hCondition).tail
    obtain ⟨cs, hCondition'⟩ := ihCondition hPlain.tail
    obtain ⟨ds, hResult'⟩ := ihResult hAfter
    obtain ⟨es, hRules'⟩ := ihRules (hAfter.of_derives hResult)
    exact ⟨_, trailing_rulesMore hCondition' hResult' hRules'⟩
  | expression hFirst hExtension ihFirst ihExtension =>
    obtain ⟨cs, hFirst'⟩ := ihFirst hPlain
    obtain ⟨text, ds, hExtension'⟩ := ihExtension (hPlain.of_derives hFirst)
    exact ⟨_, rewritten_expression hFirst' hExtension'⟩
  | extensionDone hStop => exact ⟨_, _, extended_done hStop⟩
  | extensionMore hClass hLeast hOperation hExtension ihOperation ihExtension =>
    obtain ⟨text, cs, hOperation'⟩ := ihOperation hPlain
    obtain ⟨text', ds, hExtension'⟩ := ihExtension (hPlain.of_derives hOperation)
    exact ⟨_, _, extended_more hClass hLeast hOperation hOperation' hExtension'⟩
  | binary hSimple hClass hRight ih =>
    obtain ⟨cs, hRight'⟩ := ih hPlain.tail
    exact ⟨_, _, extended_binary hSimple hClass hRight' hPlain⟩
  | identity hNegated hRight ih =>
    obtain ⟨cs, hRight'⟩ := ih (hPlain.tail.of_suffix hNegated.suffix)
    exact ⟨_, _, extended_identity hNegated hRight'⟩
  | likeness hWord hRight ih =>
    obtain ⟨cs, hRight'⟩ := ih (hPlain.of_suffix hWord.suffix)
    exact extended_likeness hWord hRight' hPlain
  | membershipList hWord hFront hItems ih =>
    obtain ⟨cs, hItems'⟩ := ih (hPlain.of_suffix hWord.suffix).tail
    exact extended_membershipList hWord hFront hItems' hPlain
  | membership hWord hFront hRight ih =>
    obtain ⟨cs, hRight'⟩ := ih (hPlain.of_suffix hWord.suffix)
    exact extended_membership hWord hFront hRight' hPlain
  | range hWord hLow hHigh ihLow ihHigh =>
    have hAfter := hPlain.of_suffix hWord.suffix
    obtain ⟨cs, hLow'⟩ := ihLow hAfter
    obtain ⟨ds, hHigh'⟩ := ihHigh (hAfter.of_derives hLow).tail
    exact extended_range hWord hLow' hHigh'
  | argumentsNone => exact ⟨_, leading_argumentsNone⟩
  | argumentsSome hFront hItems ih =>
    obtain ⟨cs, hItems'⟩ := ih hPlain
    exact ⟨_, leading_argumentsSome hFront hItems'⟩
  | items hFirst hFurther ihFirst ihFurther =>
    obtain ⟨cs, hFirst'⟩ := ihFirst hPlain
    obtain ⟨ds, hFurther'⟩ := ihFurther (hPlain.of_derives hFirst)
    exact ⟨_, leading_items hFirst' hFurther'⟩
  | furtherDone hFront => exact ⟨_, trailing_furtherDone hFront⟩
  | furtherMore hItem hFurther ihItem ihFurther =>
    obtain ⟨cs, hItem'⟩ := ihItem hPlain.tail
    obtain ⟨ds, hFurther'⟩ := ihFurther (hPlain.tail.of_derives hItem)
    exact ⟨_, trailing_furtherMore hItem' hFurther'⟩
  | expressionItem hNode ih =>
    obtain ⟨cs, hNode'⟩ := ih hPlain
    exact ⟨_, leading_expressionItem hNode'⟩
  | target hNode hAlias ih =>
    obtain ⟨cs, hNode'⟩ := ih hPlain
    exact leading_target hNode' hAlias hNode.unaliased (hPlain.of_derives hNode)
  | entry hField hDirection hNulls ih =>
    obtain ⟨cs, hField'⟩ := ih hPlain
    exact leading_entry hField' hDirection hNulls
  | table hTable hAlias => exact written_table hTable hAlias hPlain
  | derivedTable hSelect hAlias ih =>
    obtain ⟨cs, hInner⟩ := ih hPlain.tail
    exact written_derivedTable hSelect hInner hAlias (hPlain.tail.of_derives hSelect).tail
  | joinsDone hKind => exact ⟨_, _, (List.append_nil _).symm, trailing_joinsDone hKind⟩
  | @joinsMore kind join left right node condition text gs hs is js hKind hRight hComma hCondition
      hJoins ihRight ihCondition ihJoins =>
    have hAfter := hPlain.tail.of_derives hRight
    have hRest := hAfter.of_suffix (suffix_of_joinCondition hComma hCondition)
    obtain ⟨cs, hRight'⟩ := ihRight hPlain.tail
    obtain ⟨ds, hCondition'⟩ := Trailing.condition hComma fun hJoin =>
      ihCondition hJoin hAfter (by decide)
    obtain ⟨text, es, hText, hJoins'⟩ := ihJoins hRest
    exact trailing_joinsMore hKind hRight' hCondition' hText hJoins'
  | clauseNone hFront => exact fun _ => ⟨_, trailing_clauseNone hFront⟩
  | clauseSome hNode ih =>
    intro hNot
    obtain ⟨cs, hNode'⟩ := ih hPlain.tail
    exact ⟨_, trailing_body hNot (hNode'.written.mono fun hr => hr.continues) .clauseSome⟩
  | listClauseNone hFront => exact fun _ => ⟨_, trailing_listClauseNone hFront⟩
  | listClauseSome hItems ih =>
    intro hNot
    obtain ⟨cs, hItems'⟩ := ih hPlain.tail
    exact ⟨_, trailing_listClauseSome hNot hItems.items_ne_nil hItems'⟩
  | sourceClauseNone hFront => exact ⟨_, trailing_sourceClauseNone hFront⟩
  | sourceClauseSome hFirst hJoins ihFirst ihJoins =>
    obtain ⟨cs, hFirst'⟩ := ihFirst hPlain.tail
    obtain ⟨text, ds, hText, hJoins'⟩ := ihJoins (hPlain.tail.of_derives hFirst)
    exact ⟨_, trailing_sourceClauseSome hFirst' hText hJoins'⟩
  | select hDistinct hTargets hSource hCondition hGroups hHaving hOrdering hLimit hOffset
      ihTargets ihSource ihCondition ihGroups ihHaving ihOrdering ihLimit ihOffset =>
    have h₂ := hPlain.tail.of_suffix hDistinct.suffix
    have h₃ := h₂.of_derives hTargets
    have h₄ := h₃.of_derives hSource
    have h₅ := h₄.of_derives hCondition
    have h₆ := h₅.of_derives hGroups
    have h₇ := h₆.of_derives hHaving
    have h₈ := h₇.of_derives hOrdering
    have h₉ := h₈.of_derives hLimit
    obtain ⟨c₂, hTargets'⟩ := ihTargets h₂
    obtain ⟨c₃, hSource'⟩ := ihSource h₃
    obtain ⟨c₄, hCondition'⟩ := ihCondition h₄ (by decide)
    obtain ⟨c₅, hGroups'⟩ := ihGroups h₅ (by decide)
    obtain ⟨c₆, hHaving'⟩ := ihHaving h₆ (by decide)
    obtain ⟨c₇, hOrdering'⟩ := ihOrdering h₇ (by decide)
    obtain ⟨c₈, hLimit'⟩ := ihLimit h₈ (by decide)
    obtain ⟨c₉, hOffset'⟩ := ihOffset h₉ (by decide)
    exact ⟨_, leading_select (hTargets.front_ne rfl) hTargets' hSource' hCondition' hGroups'
      hHaving' hOrdering' hLimit' hOffset'⟩
  | bareQuery hFront hSelect ih =>
    obtain ⟨cs, hSelect'⟩ := ih hPlain
    exact ⟨_, written_bareQuery hFront hSelect', fun hParens =>
      absurd (hSelect.parentheses_of_select.symm.trans hParens) Bool.false_ne_true⟩
  | enclosedQuery hQuery ih =>
    obtain ⟨cs, hInner, hEnclosed⟩ := ih hPlain.tail
    obtain ⟨ds, hWritten⟩ := written_enclosedQuery hQuery hInner hEnclosed
    exact ⟨ds, hWritten.mono fun _ => trivial, fun _ => hWritten⟩

/-! ## Parsed trees -/

/-- The text of a statement's tree is read as glyphs of the same tree. -/
theorem DerivesStatement.rewritten {dialect : Dialect} {node : Node} {gs : List Glyph}
    (hDerives : DerivesStatement dialect node gs) (hPlain : Plain gs) :
    ∃ cs, dialect.grammar.tokens.Reads true node.render.toList cs ∧
      DerivesStatement dialect node cs := by
  have hEnd : dialect.grammar.tokens.Reads true [] [] := .done rfl fun _ => by simp
  have hQuery : ∃ hs, Derives dialect (.query node) gs hs := by
    rcases hDerives with hQuery | ⟨text, hQuery⟩
    · exact ⟨_, hQuery⟩
    · exact ⟨_, hQuery⟩
  obtain ⟨hs, hQuery⟩ := hQuery
  obtain ⟨cs, hWritten, -⟩ := hQuery.rewritten hPlain
  have hParsed := hWritten.parsed Glyph.follows_nil
  have hReads := hWritten.reads Glyph.follows_nil Text.neutral_nil hEnd
  rw [List.append_nil] at hParsed hReads
  rw [List.append_nil] at hReads
  exact ⟨cs, hReads, Or.inl hParsed⟩

/--
**A parsed text without comments reads back**: the text of its tree parses, to
the same tree, whose text and outline are therefore the same again.
-/
theorem parse_render {source : String} {dialect : Dialect} {node : Node}
    (hParse : parse source dialect = .ok node)
    (hFree : dialect.grammar.tokens.commentFree source = true) :
    ∃ node', parse node.render dialect = .ok node' ∧ node' = node ∧
      node'.outline = node.outline ∧ node'.render = node.render := by
  obtain ⟨stream, -, hReads, hDerives⟩ := derives_of_parse true hParse fun _ => hFree
  obtain ⟨cs, hReads', hDerives'⟩ := hDerives.rewritten hReads.plain
  exact ⟨node, parse_of_derives hReads' hDerives', rfl, rfl, rfl⟩

/-- A text with doubled parentheses, a bare alias, and words that are not
written. -/
def looseText : String :=
  "select all ((a)) x, 1.50 from t left outer join `u` as `v w` on a is not null " ++
    "where b in (1, (2)) order by 1;"

/-- The tree of that text. -/
def looseQuery : Node :=
  .ofForm (.select
    { targets :=
        [((Node.identifier "a" none).withParentheses true).withAlias "x",
          .constant (.float ⟨0x3FF8000000000000⟩)]
      source := some (.ofForm (.join (.identifier "t" none)
        ((Node.identifier "u" (some Token.backtick)).withAlias "v w") .left
        (some (.binary "is not" (.identifier "a" none) .null))))
      condition := some (.binary "in" (.identifier "b" none)
        (.tuple [.constant (.integer 1), (Node.constant (.integer 2)).withParentheses true]))
      ordering := [.ofForm (.orderBy (.constant (.integer 1)) .unspecified .unspecified)] })

theorem parse_looseText : parse looseText .generic = .ok looseQuery := by
  decide +kernel

theorem parse_render_looseText :
    ∃ again, parse looseQuery.render .generic = .ok again ∧ again = looseQuery ∧
      again.outline = looseQuery.outline ∧ again.render = looseQuery.render :=
  parse_render parse_looseText (by decide +kernel)

end SqlQuery
