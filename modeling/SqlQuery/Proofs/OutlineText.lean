import SqlQuery.Node.Outline
import SqlQuery.Proofs.ScalarText

/-!
# Outlines can be told by their texts

A line of an outline begins with a character other than a blank and holds no
line break, so the text of an outline determines its lines with their depths.

The lines of a node are a *block*: a line at depth zero and then lines that are
further in.  A block ends before the next line at depth zero, so a row of blocks
determines the blocks, however many there are.  Parts under a line that names
their role are a block too, and the roles of a form differ from each other and
come in a fixed order, so it can be told which of them are missing.

The first line of a node determines the form's name, which ends at the first
blank, and with it the attributes that can follow and their order.

## Main definitions

* `Outline.IsBlock` — the lines of one node, or of the parts in one role.
* `Outline.decorations` — what is shown of a node besides its form.

## Main results

* `Outline.lines_inj` — the text of an outline determines its lines.
* `Form.outline_inj` — the first line and the lines of the parts determine a
  form, up to the parts of the parts, and the decorations.
-/

namespace SqlQuery

namespace Outline

/-! ## Lines -/

/-- A text that can be a line: it begins with a character other than a blank and
holds no line break. -/
structure IsLine (text : List Char) : Prop where
  head : ∀ c ∈ text.head?, c ≠ ' '
  ne_nil : text ≠ []
  oneLine : '\n' ∉ text

/-- A printed line shows its depth by its blanks and ends at the line break. -/
theorem print_append_inj {a b : Line} {r s : List Char} (ha : IsLine a.text.toList)
    (hb : IsLine b.text.toList) (hText : a.print.toList ++ r = b.print.toList ++ s) :
    a = b ∧ r = s := by
  have hStop : ∀ {text : List Char} (r : List Char), IsLine text →
      ∀ c ∈ (text ++ ('\n' :: r)).head?, (c == ' ') = false := by
    intro text r hLine c hc
    rw [List.head?_append_of_ne_nil _ hLine.ne_nil] at hc
    exact beq_eq_false_iff_ne.2 (hLine.head c hc)
  have hNoBreak : ∀ {text : List Char}, IsLine text → ∀ c ∈ text, (c != '\n') = true := by
    intro text hLine c hc
    rw [bne_iff_ne]
    rintro rfl
    exact hLine.oneLine hc
  have hBlanks : ∀ depth, ∀ c ∈ List.replicate (2 * depth) ' ', (c == ' ') = true := by
    intro depth c hc
    rw [List.eq_of_mem_replicate hc]
    rfl
  simp only [Line.print, String.toList_append, String.toList_ofList, List.append_assoc] at hText
  obtain ⟨hDepth, hRest⟩ := append_inj_of_forall (hBlanks a.depth) (hBlanks b.depth)
    (hStop r ha) (hStop s hb) hText
  obtain ⟨hLine, hBreak⟩ := append_inj_of_forall (hNoBreak ha) (hNoBreak hb)
    (by simp) (by simp) hRest
  have hLength := congrArg List.length hDepth
  rw [List.length_replicate, List.length_replicate] at hLength
  obtain ⟨depth, text⟩ := a
  obtain ⟨depth', text'⟩ := b
  obtain rfl : depth = depth' := by
    dsimp only at hLength
    omega
  obtain rfl : text = text' := String.toList_injective hLine
  exact ⟨rfl, (List.cons.inj hBreak).2⟩

/-- The text of an outline determines its lines. -/
theorem lines_inj {a b : List Line} (ha : ∀ line ∈ a, IsLine line.text.toList)
    (hb : ∀ line ∈ b, IsLine line.text.toList)
    (hText : String.join (a.map Line.print) = String.join (b.map Line.print)) : a = b := by
  replace hText := congrArg String.toList hText
  rw [String.toList_join, String.toList_join, List.flatMap_map, List.flatMap_map] at hText
  have hPrint : ∀ line : Line, line.print.toList ≠ [] := by simp [Line.print]
  induction a generalizing b with
  | nil =>
    cases b with
    | nil => rfl
    | cons line b =>
      rw [List.flatMap_cons] at hText
      exact absurd (List.append_eq_nil_iff.1 hText.symm).1 (hPrint line)
  | cons line a ih =>
    cases b with
    | nil =>
      rw [List.flatMap_cons] at hText
      exact absurd (List.append_eq_nil_iff.1 hText).1 (hPrint line)
    | cons line' b =>
      rw [List.flatMap_cons, List.flatMap_cons] at hText
      obtain ⟨rfl, hRest⟩ := print_append_inj (ha line (by simp)) (hb line' (by simp)) hText
      rw [ih (fun l hl => ha l (by simp [hl])) (fun l hl => hb l (by simp [hl])) hRest]

/-! ## Blocks -/

/-- A line at depth zero and the lines below it. -/
def IsBlock (lines : List Line) : Prop :=
  ∃ text below, lines = ⟨0, text⟩ :: indent below

/-- Lines that begin at depth zero, if there are any. -/
def Flush (lines : List Line) : Prop := ∀ line ∈ lines.head?, line.depth = 0

theorem indent_inj {a b : List Line} (hLines : indent a = indent b) : a = b := by
  refine List.map_injective_iff.2 (fun x y hLine => ?_) hLines
  obtain ⟨depth, text⟩ := x
  obtain ⟨depth', text'⟩ := y
  simpa using hLine

theorem IsBlock.flush_append {a : List Line} (ha : IsBlock a) (r : List Line) : Flush (a ++ r) := by
  obtain ⟨text, below, rfl⟩ := ha
  rintro line hLine
  cases hLine
  rfl

/-- Lines that are further in end before the next line at depth zero. -/
theorem indent_append_inj {a b r s : List Line} (hr : Flush r) (hs : Flush s)
    (hLines : indent a ++ r = indent b ++ s) : a = b ∧ r = s := by
  have hIn : ∀ a : List Line, ∀ line ∈ indent a, (line.depth != 0) = true := by
    intro a line hLine
    obtain ⟨line, -, rfl⟩ := List.mem_map.1 hLine
    rfl
  have hOut : ∀ {r : List Line}, Flush r → ∀ line ∈ r.head?, (line.depth != 0) = false := by
    intro r hFlush line hLine
    rw [hFlush line hLine]
    rfl
  obtain ⟨hIndent, hRest⟩ := append_inj_of_forall (hIn a) (hIn b) (hOut hr) (hOut hs) hLines
  exact ⟨indent_inj hIndent, hRest⟩

/-- A block ends before the next line at depth zero. -/
theorem IsBlock.append_inj {a b r s : List Line} (ha : IsBlock a) (hb : IsBlock b) (hr : Flush r)
    (hs : Flush s) (hLines : a ++ r = b ++ s) : a = b ∧ r = s := by
  obtain ⟨text, below, rfl⟩ := ha
  obtain ⟨text', below', rfl⟩ := hb
  rw [List.cons_append, List.cons_append] at hLines
  obtain ⟨hHead, hRest⟩ := List.cons.inj hLines
  obtain ⟨rfl, rfl⟩ := indent_append_inj hr hs hRest
  rw [hHead]
  exact ⟨rfl, rfl⟩

theorem flush_nil : Flush [] := fun line hLine => by cases hLine

theorem flush_flatten {blocks : List (List Line)} (hBlocks : ∀ block ∈ blocks, IsBlock block) :
    Flush blocks.flatten := by
  cases blocks with
  | nil => exact flush_nil
  | cons block blocks => exact (hBlocks block (by simp)).flush_append _

/-- A row of blocks determines the blocks. -/
theorem flatten_inj {a b : List (List Line)} (ha : ∀ block ∈ a, IsBlock block)
    (hb : ∀ block ∈ b, IsBlock block) (hLines : a.flatten = b.flatten) : a = b := by
  induction a generalizing b with
  | nil =>
    cases b with
    | nil => rfl
    | cons block b =>
      obtain ⟨text, below, hBlock⟩ := hb block (by simp)
      rw [List.flatten_cons, hBlock] at hLines
      cases hLines
  | cons block a ih =>
    cases b with
    | nil =>
      obtain ⟨text, below, hBlock⟩ := ha block (by simp)
      rw [List.flatten_cons, hBlock] at hLines
      cases hLines
    | cons block' b =>
      have ha' : ∀ block ∈ a, IsBlock block := fun l hl => ha l (by simp [hl])
      have hb' : ∀ block ∈ b, IsBlock block := fun l hl => hb l (by simp [hl])
      rw [List.flatten_cons, List.flatten_cons] at hLines
      obtain ⟨rfl, hRest⟩ := (ha block (by simp)).append_inj (hb block' (by simp))
        (flush_flatten ha') (flush_flatten hb') hLines
      rw [ih ha' hb' hRest]

/-! ## Roles -/

/-- Lines that begin at depth zero with something other than the line of a role,
if there are any. -/
def Lacks (name : String) (lines : List Line) : Prop :=
  ∀ line ∈ lines.head?, line.depth = 0 ∧ line.text ≠ name ++ ":"

theorem Lacks.flush {name : String} {lines : List Line} (hLacks : Lacks name lines) : Flush lines :=
  fun line hLine => (hLacks line hLine).1

theorem lacks_nil (name : String) : Lacks name [] := fun line hLine => by cases hLine

theorem role_cons (name : String) (part : List Line) (parts : List (List Line)) :
    role name (part :: parts) = ⟨0, name ++ ":"⟩ :: indent (part :: parts).flatten := rfl

/-- The lines of one role are told from those of another. -/
theorem lacks_role {name other : String} (hNe : name ≠ other) (parts : List (List Line))
    {rest : List Line} (hRest : Lacks name rest) : Lacks name (role other parts ++ rest) := by
  cases parts with
  | nil => exact hRest
  | cons part parts =>
    intro line hLine
    rw [role_cons] at hLine
    obtain rfl : ⟨0, other ++ ":"⟩ = line := Option.some.inj hLine
    refine ⟨rfl, ?_⟩
    intro hText
    exact hNe ((String.append_left_inj ":").1 hText).symm

/-- Parts in a role are told from what follows them. -/
theorem role_append_inj {name : String} {a b : List (List Line)} {r s : List Line}
    (ha : ∀ block ∈ a, IsBlock block) (hb : ∀ block ∈ b, IsBlock block) (hr : Lacks name r)
    (hs : Lacks name s) (hLines : role name a ++ r = role name b ++ s) : a = b ∧ r = s := by
  cases a with
  | nil =>
    cases b with
    | nil => exact ⟨rfl, hLines⟩
    | cons part b =>
      have hHead :=
        hr ⟨0, name ++ ":"⟩ (by rw [show r = role name (part :: b) ++ s from hLines]; rfl)
      exact absurd rfl hHead.2
  | cons part a =>
    cases b with
    | nil =>
      have hHead := hs ⟨0, name ++ ":"⟩
        (by rw [show s = role name (part :: a) ++ r from hLines.symm]; rfl)
      exact absurd rfl hHead.2
    | cons part' b =>
      rw [role_cons, role_cons] at hLines
      obtain ⟨hFlat, hRest⟩ := indent_append_inj hr.flush hs.flush (List.cons.inj hLines).2
      exact ⟨flatten_inj ha hb hFlat, hRest⟩

theorem role_inj {name : String} {a b : List (List Line)} (ha : ∀ block ∈ a, IsBlock block)
    (hb : ∀ block ∈ b, IsBlock block) (hLines : role name a = role name b) : a = b := by
  rw [← List.append_nil (role name a), ← List.append_nil (role name b)] at hLines
  exact (role_append_inj ha hb (lacks_nil name) (lacks_nil name) hLines).1

/-- Parts in several roles, one role after the other. -/
def roles (parts : List (String × List (List Line))) : List Line :=
  parts.flatMap fun part => role part.1 part.2

theorem lacks_roles {name : String} {parts : List (String × List (List Line))}
    (hName : name ∉ parts.map Prod.fst) : Lacks name (roles parts) := by
  induction parts with
  | nil => exact lacks_nil name
  | cons part parts ih =>
    rw [List.map_cons, List.mem_cons, not_or] at hName
    exact lacks_role hName.1 part.2 (ih hName.2)

/-- Parts in different roles, in a fixed order, can be told from their lines. -/
theorem roles_inj {a b : List (String × List (List Line))}
    (hNames : a.map Prod.fst = b.map Prod.fst) (hNodup : (a.map Prod.fst).Nodup)
    (ha : ∀ part ∈ a, ∀ block ∈ part.2, IsBlock block)
    (hb : ∀ part ∈ b, ∀ block ∈ part.2, IsBlock block) (hLines : roles a = roles b) : a = b := by
  induction a generalizing b with
  | nil =>
    cases b with
    | nil => rfl
    | cons part b => cases hNames
  | cons part a ih =>
    cases b with
    | nil => cases hNames
    | cons part' b =>
      obtain ⟨name, parts⟩ := part
      obtain ⟨name', parts'⟩ := part'
      simp only [List.map_cons, List.cons.injEq] at hNames
      obtain ⟨rfl, hNames⟩ := hNames
      obtain ⟨hLack, hNodup⟩ := List.nodup_cons.1 hNodup
      obtain ⟨rfl, hRest⟩ := role_append_inj (ha _ List.mem_cons_self) (hb _ List.mem_cons_self)
        (lacks_roles hLack) (lacks_roles (hNames ▸ hLack)) hLines
      rw [ih hNames hNodup (fun p hp => ha p (by simp [hp]))
        (fun p hp => hb p (by simp [hp])) hRest]

/-! ## Attributes -/

/-- What may follow an attribute: nothing, or a blank. -/
def Blank (tail : List Char) : Prop := ∀ c ∈ tail.head?, c = ' '

/-- What does not begin with the attribute of a name. -/
def Avoids (name : List Char) (tail : List Char) : Prop := ∀ t, tail ≠ ' ' :: (name ++ '=' :: t)

theorem toList_entry (name value : String) :
    (entry name value).toList = ' ' :: (name.toList ++ '=' :: value.toList) := by
  simp [entry]

theorem blank_entry (name value : String) (r : List Char) :
    Blank ((entry name value).toList ++ r) := by
  intro c hc
  rw [toList_entry] at hc
  exact (Option.some.inj hc).symm

/-- The value of an attribute stands behind the same text. -/
theorem entry_append_inj {name value value' : String} {r s : List Char}
    (hText : (entry name value).toList ++ r = (entry name value').toList ++ s) :
    value.toList ++ r = value'.toList ++ s := by
  rw [toList_entry, toList_entry] at hText
  simpa using hText

/-- An attribute that is shown when it is true can be told from what follows. -/
theorem flag_append_inj {name : String} {a b : Bool} {r s : List Char}
    (hr : Avoids name.toList r) (hs : Avoids name.toList s)
    (hText : (flag name a).toList ++ r = (flag name b).toList ++ s) : a = b ∧ r = s := by
  cases a <;> cases b
  · exact ⟨rfl, hText⟩
  · refine absurd (show r = _ from hText) ?_
    rw [flag, if_pos rfl, toList_entry]
    simpa using hr ("true".toList ++ s)
  · refine absurd (show s = _ from hText.symm) ?_
    rw [flag, if_pos rfl, toList_entry]
    simpa using hs ("true".toList ++ r)
  · exact ⟨rfl, List.append_cancel_left hText⟩

/-- An attribute that may be missing. -/
def optional {α : Type} (name : String) (write : α → String) : Option α → String
  | some value => entry name (write value)
  | none => ""

/-- An attribute that may be missing can be told from what follows. -/
theorem optional_append_inj {α : Type} {name : String} {write : α → String}
    (hWrite : SelfDelimiting fun value => (write value).toList) {a b : Option α} {r s : List Char}
    (hr : Avoids name.toList r) (hs : Avoids name.toList s)
    (hText : (optional name write a).toList ++ r = (optional name write b).toList ++ s) :
    a = b ∧ r = s := by
  cases a with
  | none =>
    cases b with
    | none => exact ⟨rfl, hText⟩
    | some value =>
      refine absurd (show r = _ from hText) ?_
      rw [optional, toList_entry]
      simpa using hr ((write value).toList ++ s)
  | some value =>
    cases b with
    | none =>
      refine absurd (show s = _ from hText.symm) ?_
      rw [optional, toList_entry]
      simpa using hs ((write value).toList ++ r)
    | some value' =>
      obtain ⟨rfl, rfl⟩ := hWrite (entry_append_inj hText)
      exact ⟨rfl, rfl⟩

/-- What is shown of a node besides its form. -/
def decorations (parentheses : Bool) (aliasName : Option String) : String :=
  flag "parentheses" parentheses ++ optional "alias" Text.quoted aliasName

/-- Decorations are told from attributes with other first letters. -/
theorem avoids_decorations {name : String} {c : Char} {cs : List Char}
    (hName : name.toList = c :: cs)
    (hFirst : c ≠ 'p' ∧ c ≠ 'a') (parentheses : Bool) (aliasName : Option String) :
    Avoids name.toList (decorations parentheses aliasName).toList := by
  intro t hText
  rw [hName] at hText
  cases parentheses <;> cases aliasName <;>
    simp [decorations, flag, optional, entry, hFirst.1.symm, hFirst.2.symm] at hText

theorem blank_decorations (parentheses : Bool) (aliasName : Option String) :
    Blank (decorations parentheses aliasName).toList := by
  intro c hc
  cases parentheses <;> cases aliasName <;>
    simp [decorations, flag, optional, entry] at hc <;> exact hc.symm

/-- Decorations can be told from their text. -/
theorem decorations_inj {a b : Bool} {aliasA aliasB : Option String}
    (hText : (decorations a aliasA).toList = (decorations b aliasB).toList) :
    a = b ∧ aliasA = aliasB := by
  have hAvoids : ∀ aliasName : Option String,
      Avoids "parentheses".toList (optional "alias" Text.quoted aliasName).toList := by
    intro aliasName t hText
    cases aliasName <;> simp [optional, entry] at hText
  rw [decorations, decorations, String.toList_append, String.toList_append] at hText
  obtain ⟨hFlag, hRest⟩ := flag_append_inj (hAvoids aliasA) (hAvoids aliasB) hText
  have hEnd : Avoids "alias".toList [] := fun t => by simp
  rw [← List.append_nil (optional _ _ aliasA).toList,
    ← List.append_nil (optional _ _ aliasB).toList] at hRest
  obtain ⟨hAlias, -⟩ := optional_append_inj Text.selfDelimiting_quoted hEnd hEnd hRest
  exact ⟨hFlag, hAlias⟩

end Outline

/-! ## Literals -/

/-- The scalar that a literal stands for. -/
def Value.scalar : Value → Scalar
  | .null => .null
  | .boolean value => .boolean value
  | .integer value => .integer value.toInt
  | .float value => .float value
  | .text value => .text value

theorem Value.scalar_inj {v w : Value} (hScalar : v.scalar = w.scalar) : v = w := by
  cases v <;> cases w <;> simp_all [Value.scalar, Int64.toInt_inj]

namespace Outline

theorem toList_value (v : Value) :
    (value v).toList = v.scalar.write literalStyle fun s => (Text.quoted s).toList := by
  cases v <;> rfl

theorem exists_quoted_cons (s : String) : ∃ cs, (Text.quoted s).toList = '"' :: cs := by
  rw [Text.quoted, String.toList_ofList]
  exact ⟨_, rfl⟩

/-- A literal ends before a blank. -/
theorem value_append_inj {v w : Value} (hv : v.scalar.Finite) (hw : w.scalar.Finite)
    {r s : List Char} (hr : Blank r) (hs : Blank s)
    (hText : (value v).toList ++ r = (value w).toList ++ s) : v = w ∧ r = s := by
  have hMark : ∀ {tail}, Blank tail → ∀ c ∈ tail.head?, Number.isMark c = false := by
    intro tail hBlank c hc
    rw [hBlank c hc]
    rfl
  rw [toList_value, toList_value] at hText
  obtain ⟨hScalar, hRest⟩ := Scalar.separate (Or.inl rfl) exists_quoted_cons
    Text.selfDelimiting_quoted hv hw (hMark hr) (hMark hs) hText
  exact ⟨Value.scalar_inj hScalar, hRest⟩

end Outline

/-! ## First lines -/

namespace Form

open Outline

variable {α : Type} {f g : Form α}

/-- A form whose literal, if it has one, is finite. -/
def Finite (f : Form α) : Prop := ∀ v, f = .constant v → v.scalar.Finite

theorem not_mem_label (f : Form α) : ' ' ∉ f.label.toList := by
  cases f <;> simp [label]

/-- What follows the name of a form begins with a blank. -/
theorem blank_outlineHead (f : Form α) (parentheses : Bool) (aliasName : Option String) :
    Blank (f.outlineHead.toList ++ (decorations parentheses aliasName).toList) := by
  have hDecorations := blank_decorations parentheses aliasName
  have hFlag : ∀ name value, Blank ((flag name value).toList ++
      (decorations parentheses aliasName).toList) := by
    intro name value
    cases value
    · exact hDecorations
    · exact blank_entry name "true" _
  cases f with
  | between | select => exact hFlag _ _
  | nullConstant | parameter | tuple | caseWhen => exact hDecorations
  | constant | operation | binary | unary | join | typeCast => exact blank_entry _ _ _
  | identifier | variableName | call | orderBy =>
    simp only [outlineHead, String.toList_append, List.append_assoc]
    exact blank_entry _ _ _

/-- The name of a form ends at the first blank. -/
theorem label_inj {p q : Bool} {a b : Option String}
    (hHead : f.label ++ f.outlineHead ++ decorations p a =
      g.label ++ g.outlineHead ++ decorations q b) :
    f.label = g.label ∧
      f.outlineHead.toList ++ (decorations p a).toList =
        g.outlineHead.toList ++ (decorations q b).toList := by
  have hWord : ∀ f : Form α, ∀ c ∈ f.label.toList, (c != ' ') = true := by
    intro f c hc
    rw [bne_iff_ne]
    rintro rfl
    exact f.not_mem_label hc
  have hStop : ∀ {tail}, Blank tail → ∀ c ∈ tail.head?, (c != ' ') = false := by
    intro tail hBlank c hc
    rw [hBlank c hc]
    rfl
  replace hHead := congrArg String.toList hHead
  simp only [String.toList_append, List.append_assoc] at hHead
  obtain ⟨hLabel, hRest⟩ := append_inj_of_forall (hWord f) (hWord g)
    (hStop (f.blank_outlineHead p a)) (hStop (g.blank_outlineHead q b)) hHead
  exact ⟨String.toList_injective hLabel, hRest⟩

end Form

namespace Outline

variable {name : String} {p q : Bool} {a b : Option String}

/-- A quoted attribute before the decorations. -/
theorem quoted_decorations_inj {s t : String}
    (hText : (entry name (Text.quoted s)).toList ++ (decorations p a).toList =
      (entry name (Text.quoted t)).toList ++ (decorations q b).toList) :
    s = t ∧ p = q ∧ a = b := by
  obtain ⟨hValue, hRest⟩ := Text.selfDelimiting_quoted (entry_append_inj hText)
  exact ⟨hValue, decorations_inj hRest⟩

/-- A truth value that is shown when it is true before the decorations. -/
theorem flag_decorations_inj {c : Char} {cs : List Char} (hName : name.toList = c :: cs)
    (hFirst : c ≠ 'p' ∧ c ≠ 'a') {x y : Bool}
    (hText : (flag name x).toList ++ (decorations p a).toList =
      (flag name y).toList ++ (decorations q b).toList) : x = y ∧ p = q ∧ a = b := by
  obtain ⟨hValue, hRest⟩ := flag_append_inj (avoids_decorations hName hFirst p a)
    (avoids_decorations hName hFirst q b) hText
  exact ⟨hValue, decorations_inj hRest⟩

/-- A word as the value of an attribute ends before a blank. -/
theorem word_append_inj {v w : String} (hv : ' ' ∉ v.toList) (hw : ' ' ∉ w.toList)
    {r s : List Char} (hr : Blank r) (hs : Blank s)
    (hText : (entry name v).toList ++ r = (entry name w).toList ++ s) : v = w ∧ r = s := by
  have hWord : ∀ {v : String}, ' ' ∉ v.toList → ∀ c ∈ v.toList, (c != ' ') = true := by
    intro v hv c hc
    rw [bne_iff_ne]
    rintro rfl
    exact hv hc
  have hStop : ∀ {tail}, Blank tail → ∀ c ∈ tail.head?, (c != ' ') = false := by
    intro tail hBlank c hc
    rw [hBlank c hc]
    rfl
  obtain ⟨hValue, hRest⟩ := append_inj_of_forall (hWord hv) (hWord hw) (hStop hr) (hStop hs)
    (entry_append_inj hText)
  exact ⟨String.toList_injective hValue, hRest⟩

end Outline

/-! ## Forms -/

theorem eq_of_toList_eq {α : Type} {a b : Option α} (hList : a.toList = b.toList) : a = b := by
  cases a <;> cases b <;> simp_all

namespace Query

open Outline

/-- The parts of a query in their roles. -/
def outlineRoles (q : Query (List Line)) : List (String × List (List Line)) :=
  [ ("targets", q.targets), ("from_table", q.source.toList), ("where", q.condition.toList),
    ("group_by", q.groups), ("having", q.having.toList), ("order_by", q.ordering),
    ("limit", q.limit.toList), ("offset", q.offset.toList) ]

theorem outlineParts_select (q : Query (List Line)) :
    (Form.select q).outlineParts = Outline.roles q.outlineRoles := by
  simp [Form.outlineParts, Outline.roles, outlineRoles]

theorem nodup_outlineRoles (q : Query (List Line)) : (q.outlineRoles.map Prod.fst).Nodup := by
  simp [outlineRoles]

theorem isBlock_outlineRoles {q : Query (List Line)} (hq : ∀ part ∈ q.parts, IsBlock part) :
    ∀ part ∈ q.outlineRoles, ∀ block ∈ part.2, IsBlock block := by
  intro part hPart block hBlock
  apply hq block
  simp only [outlineRoles, List.mem_cons, List.not_mem_nil, or_false] at hPart
  simp only [Query.parts, List.mem_append]
  rcases hPart with rfl | rfl | rfl | rfl | rfl | rfl | rfl | rfl <;> simp [hBlock]

/-- The clauses of a query can be told from the lines of its parts. -/
theorem outline_inj {x y : Query (List Line)} (hx : ∀ part ∈ x.parts, IsBlock part)
    (hy : ∀ part ∈ y.parts, IsBlock part) (hDistinct : x.distinct = y.distinct)
    (hParts : (Form.select x).outlineParts = (Form.select y).outlineParts) : x = y := by
  rw [outlineParts_select, outlineParts_select] at hParts
  have hNames : x.outlineRoles.map Prod.fst = y.outlineRoles.map Prod.fst := rfl
  have hRoles := roles_inj hNames x.nodup_outlineRoles (isBlock_outlineRoles hx)
    (isBlock_outlineRoles hy) hParts
  simp only [outlineRoles, List.cons.injEq, Prod.mk.injEq, true_and, and_true] at hRoles
  obtain ⟨hTargets, hSource, hCondition, hGroups, hHaving, hOrdering, hLimit, hOffset⟩ := hRoles
  obtain ⟨d, t, s, c, g, h, o, l, f⟩ := x
  obtain ⟨d', t', s', c', g', h', o', l', f'⟩ := y
  simp only [Query.mk.injEq]
  exact ⟨hDistinct, hTargets, eq_of_toList_eq hSource, eq_of_toList_eq hCondition, hGroups,
    eq_of_toList_eq hHaving, hOrdering, eq_of_toList_eq hLimit, eq_of_toList_eq hOffset⟩

end Query

namespace Form

open Outline

/-- The lines of the rules of a case distinction and of what follows them. -/
theorem rules_append_inj {x y : List (List Line × List Line)} {r s : List Line}
    (hx : ∀ rule ∈ x, IsBlock rule.1 ∧ IsBlock rule.2)
    (hy : ∀ rule ∈ y, IsBlock rule.1 ∧ IsBlock rule.2)
    (hr : Lacks "when" r ∧ Lacks "then" r) (hs : Lacks "when" s ∧ Lacks "then" s)
    (hLines : x.flatMap (fun rule => role "when" [rule.1] ++ role "then" [rule.2]) ++ r =
      y.flatMap (fun rule => role "when" [rule.1] ++ role "then" [rule.2]) ++ s) :
    x = y ∧ r = s := by
  have hThen : ∀ (rules : List (List Line × List Line)) {tail : List Line},
      Lacks "then" tail → Lacks "then"
        (rules.flatMap (fun rule => role "when" [rule.1] ++ role "then" [rule.2]) ++ tail) := by
    intro rules tail hTail
    cases rules with
    | nil => exact hTail
    | cons rule rules =>
      intro line hLine
      obtain rfl : (⟨0, "when:"⟩ : Line) = line := Option.some.inj hLine
      exact ⟨rfl, by decide⟩
  have hNone : ∀ {rule : List Line × List Line} {rest tail : List Line}, Lacks "when" tail →
      tail ≠ role "when" [rule.1] ++ rest := by
    intro rule rest tail hTail hEq
    have hHead := hTail ⟨0, "when:"⟩ (by rw [hEq]; rfl)
    exact hHead.2 rfl
  induction x generalizing y with
  | nil =>
    cases y with
    | nil => exact ⟨rfl, hLines⟩
    | cons rule y =>
      rw [List.flatMap_cons, List.append_assoc, List.append_assoc] at hLines
      exact absurd hLines (hNone hr.1)
  | cons rule x ih =>
    cases y with
    | nil =>
      rw [List.flatMap_cons, List.append_assoc, List.append_assoc] at hLines
      exact absurd hLines.symm (hNone hs.1)
    | cons rule' y =>
      have hFirst := hx rule (by simp)
      have hFirst' := hy rule' (by simp)
      simp only [List.flatMap_cons, List.append_assoc] at hLines
      have hLater : ∀ (result : List Line) {tail : List Line}, Lacks "when"
          (role "then" [result] ++ tail) := by
        intro result tail line hLine
        obtain rfl : (⟨0, "then:"⟩ : Line) = line := Option.some.inj hLine
        exact ⟨rfl, by decide⟩
      obtain ⟨hCondition, hRest⟩ := role_append_inj (by simpa using hFirst.1)
        (by simpa using hFirst'.1) (hLater _) (hLater _) hLines
      obtain ⟨hResult, hRest⟩ := role_append_inj (by simpa using hFirst.2)
        (by simpa using hFirst'.2) (hThen x hr.2) (hThen y hs.2) hRest
      obtain ⟨rfl, rfl⟩ :=
        ih (fun z hz => hx z (by simp [hz])) (fun z hz => hy z (by simp [hz])) hRest
      obtain ⟨condition, result⟩ := rule
      obtain ⟨condition', result'⟩ := rule'
      simp only [List.cons.injEq, and_true] at hCondition hResult
      exact ⟨by rw [hCondition, hResult], rfl⟩

end Form

/-! ## Forms -/

theorem Direction.label_inj {x y : Direction} (hLabel : x.label = y.label) : x = y := by
  revert hLabel
  cases x <;> cases y <;> decide

theorem NullPlacement.label_inj {x y : NullPlacement} (hLabel : x.label = y.label) : x = y := by
  revert hLabel
  cases x <;> cases y <;> decide

theorem JoinKind.label_inj {x y : JoinKind} (hLabel : x.label = y.label) : x = y := by
  revert hLabel
  cases x <;> cases y <;> decide

/-- What the first line shows of a form: which form it is, and its attributes. -/
inductive Head where
  | identifier (value : String) (wrap : Option Char)
  | constant (value : Value)
  | nullConstant
  | variableName (name : String) (system : Bool)
  | parameter
  | operation (op : String)
  | binary (op : String)
  | unary (op : String)
  | call (name : String) (distinct : Bool)
  | between (negated : Bool)
  | tuple
  | select (distinct : Bool)
  | join (kind : JoinKind)
  | orderBy (direction : Direction) (nulls : NullPlacement)
  | typeCast (typeName : String)
  | caseWhen

namespace Form

open Outline

/-- The form without its parts. -/
def head {α : Type} : Form α → Head
  | .identifier value wrap => .identifier value wrap
  | .constant value => .constant value
  | .nullConstant => .nullConstant
  | .variableName name system => .variableName name system
  | .parameter => .parameter
  | .operation op _ => .operation op
  | .binary op _ _ => .binary op
  | .unary op _ => .unary op
  | .call name _ distinct => .call name distinct
  | .between _ _ _ negated => .between negated
  | .tuple _ => .tuple
  | .select query => .select query.distinct
  | .join _ _ kind _ => .join kind
  | .orderBy _ direction nulls => .orderBy direction nulls
  | .typeCast typeName _ => .typeCast typeName
  | .caseWhen _ _ => .caseWhen

section Heads

variable {α : Type} {f g : Form α} {p q : Bool} {a b : Option String}

/-- The first line determines the form without its parts, and the decorations. -/
theorem head_inj (hf : f.Finite) (hg : g.Finite)
    (hHead : f.label ++ f.outlineHead ++ decorations p a =
      g.label ++ g.outlineHead ++ decorations q b) : f.head = g.head ∧ p = q ∧ a = b := by
  obtain ⟨hLabel, hRest⟩ := label_inj hHead
  cases f with
  | identifier value wrap =>
    cases g with
    | identifier value' wrap' =>
      have hWrap : ∀ (value : String) (wrap : Option Char),
          (Form.identifier (α := α) value wrap).outlineHead =
            entry "value" (Text.quoted value) ++ optional "wrap" Text.quotedChar wrap := by
        intro value wrap
        cases wrap <;> rfl
      have hName : "wrap".toList = 'w' :: "rap".toList := rfl
      simp only [hWrap, String.toList_append, List.append_assoc] at hRest
      obtain ⟨rfl, hTail⟩ := Text.selfDelimiting_quoted (entry_append_inj hRest)
      obtain ⟨rfl, hEnd⟩ := optional_append_inj Text.selfDelimiting_quotedChar
        (avoids_decorations hName (by decide) p a) (avoids_decorations hName (by decide) q b) hTail
      exact ⟨rfl, decorations_inj hEnd⟩
    | _ => simp [label] at hLabel
  | constant value =>
    cases g with
    | constant value' =>
      obtain ⟨rfl, hEnd⟩ := value_append_inj (hf value rfl) (hg value' rfl)
        (blank_decorations p a) (blank_decorations q b) (entry_append_inj hRest)
      exact ⟨rfl, decorations_inj hEnd⟩
    | _ => simp [label] at hLabel
  | variableName name system =>
    cases g with
    | variableName name' system' =>
      simp only [outlineHead, String.toList_append, List.append_assoc] at hRest
      obtain ⟨rfl, hTail⟩ := Text.selfDelimiting_quoted (entry_append_inj hRest)
      obtain ⟨hSystem, hEnd⟩ := word_append_inj (by cases system <;> decide)
        (by cases system' <;> decide) (blank_decorations p a) (blank_decorations q b) hTail
      obtain rfl : system = system' := by revert hSystem; cases system <;> cases system' <;> decide
      exact ⟨rfl, decorations_inj hEnd⟩
    | _ => simp [label] at hLabel
  | operation op args =>
    cases g with
    | operation op' args' =>
      obtain ⟨rfl, hDecorations⟩ := quoted_decorations_inj hRest
      exact ⟨rfl, hDecorations⟩
    | _ => simp [label] at hLabel
  | binary op left right =>
    cases g with
    | binary op' left' right' =>
      obtain ⟨rfl, hDecorations⟩ := quoted_decorations_inj hRest
      exact ⟨rfl, hDecorations⟩
    | _ => simp [label] at hLabel
  | unary op arg =>
    cases g with
    | unary op' arg' =>
      obtain ⟨rfl, hDecorations⟩ := quoted_decorations_inj hRest
      exact ⟨rfl, hDecorations⟩
    | _ => simp [label] at hLabel
  | call name args distinct =>
    cases g with
    | call name' args' distinct' =>
      simp only [outlineHead, String.toList_append, List.append_assoc] at hRest
      obtain ⟨rfl, hTail⟩ := Text.selfDelimiting_quoted (entry_append_inj hRest)
      obtain ⟨rfl, hDecorations⟩ := flag_decorations_inj rfl (by decide) hTail
      exact ⟨rfl, hDecorations⟩
    | _ => simp [label] at hLabel
  | between subject low high negated =>
    cases g with
    | between subject' low' high' negated' =>
      obtain ⟨rfl, hDecorations⟩ := flag_decorations_inj rfl (by decide) hRest
      exact ⟨rfl, hDecorations⟩
    | _ => simp [label] at hLabel
  | select query =>
    cases g with
    | select query' =>
      obtain ⟨hDistinct, hDecorations⟩ := flag_decorations_inj rfl (by decide) hRest
      exact ⟨congrArg Head.select hDistinct, hDecorations⟩
    | _ => simp [label] at hLabel
  | join left right kind condition =>
    cases g with
    | join left' right' kind' condition' =>
      have hWord : ∀ kind : JoinKind, ' ' ∉ kind.label.toList := by
        intro kind
        cases kind <;> decide
      obtain ⟨hKind, hEnd⟩ := word_append_inj (hWord kind) (hWord kind') (blank_decorations p a)
        (blank_decorations q b) hRest
      exact ⟨congrArg Head.join (JoinKind.label_inj hKind), decorations_inj hEnd⟩
    | _ => simp [label] at hLabel
  | orderBy field direction nulls =>
    cases g with
    | orderBy field' direction' nulls' =>
      have hDirection : ∀ x : Direction, ' ' ∉ x.label.toList := by
        intro x
        cases x <;> decide
      have hNulls : ∀ x : NullPlacement, ' ' ∉ x.label.toList := by
        intro x
        cases x <;> decide
      simp only [outlineHead, String.toList_append, List.append_assoc] at hRest
      obtain ⟨hFirst, hTail⟩ := word_append_inj (hDirection direction) (hDirection direction')
        (blank_entry _ _ _) (blank_entry _ _ _) hRest
      obtain ⟨hSecond, hEnd⟩ := word_append_inj (hNulls nulls) (hNulls nulls')
        (blank_decorations p a) (blank_decorations q b) hTail
      obtain rfl := Direction.label_inj hFirst
      obtain rfl := NullPlacement.label_inj hSecond
      exact ⟨rfl, decorations_inj hEnd⟩
    | _ => simp [label] at hLabel
  | typeCast typeName arg =>
    cases g with
    | typeCast typeName' arg' =>
      obtain ⟨rfl, hDecorations⟩ := quoted_decorations_inj hRest
      exact ⟨rfl, hDecorations⟩
    | _ => simp [label] at hLabel
  | nullConstant =>
    cases g with
    | nullConstant => exact ⟨rfl, decorations_inj hRest⟩
    | _ => simp [label] at hLabel
  | parameter =>
    cases g with
    | parameter => exact ⟨rfl, decorations_inj hRest⟩
    | _ => simp [label] at hLabel
  | tuple items =>
    cases g with
    | tuple items' => exact ⟨rfl, decorations_inj hRest⟩
    | _ => simp [label] at hLabel
  | caseWhen rules default =>
    cases g with
    | caseWhen rules' default' => exact ⟨rfl, decorations_inj hRest⟩
    | _ => simp [label] at hLabel

end Heads

section Parts

variable {f g : Form (List Line)} (hf : ∀ part ∈ f.parts, IsBlock part)
  (hg : ∀ part ∈ g.parts, IsBlock part)

/-- The operands of a join are followed by its condition. -/
theorem join_parts_inj {left right left' right' : List Line}
    {condition condition' : Option (List Line)}
    (hf : ∀ part ∈ left :: right :: condition.toList, IsBlock part)
    (hg : ∀ part ∈ left' :: right' :: condition'.toList, IsBlock part)
    (hParts : left ++ (right ++ role "condition" condition.toList) =
      left' ++ (right' ++ role "condition" condition'.toList)) :
    left = left' ∧ right = right' ∧ condition = condition' := by
  have hFlush : ∀ part : Option (List Line), Flush (role "condition" part.toList) := by
    intro part
    cases part with
    | none => exact flush_nil
    | some part =>
      intro line hLine
      obtain rfl : (⟨0, "condition:"⟩ : Line) = line := Option.some.inj hLine
      rfl
  obtain ⟨rfl, hRight⟩ := (hf left (by simp)).append_inj (hg left' (by simp))
    ((hf right (by simp)).flush_append _) ((hg right' (by simp)).flush_append _) hParts
  obtain ⟨rfl, hRole⟩ := (hf right (by simp)).append_inj (hg right' (by simp))
    (hFlush condition) (hFlush condition') hRight
  have hBlock : ∀ {condition : Option (List Line)},
      (∀ part ∈ left :: right :: condition.toList, IsBlock part) →
        ∀ part ∈ condition.toList, IsBlock part := by
    intro condition hBlocks part hPart
    exact hBlocks part (List.mem_cons_of_mem left (List.mem_cons_of_mem right hPart))
  have hCondition := role_inj (hBlock hf) (hBlock hg) hRole
  exact ⟨rfl, rfl, eq_of_toList_eq hCondition⟩

/-- The rules of a case distinction are followed by its default. -/
theorem case_parts_inj {rules rules' : List (List Line × List Line)}
    {default default' : Option (List Line)}
    (hf : ∀ part ∈ (Form.caseWhen rules default).parts, IsBlock part)
    (hg : ∀ part ∈ (Form.caseWhen rules' default').parts, IsBlock part)
    (hParts : (Form.caseWhen rules default).outlineParts =
      (Form.caseWhen rules' default').outlineParts) : rules = rules' ∧ default = default' := by
  obtain ⟨hRules, hDefault⟩ := forall_mem_parts_caseWhen.1 hf
  obtain ⟨hRules', hDefault'⟩ := forall_mem_parts_caseWhen.1 hg
  have hLacks : ∀ part : Option (List Line), Lacks "when" (role "else" part.toList) ∧
      Lacks "then" (role "else" part.toList) := by
    intro part
    rw [← List.append_nil (role "else" part.toList)]
    exact ⟨lacks_role (by decide) _ (lacks_nil _), lacks_role (by decide) _ (lacks_nil _)⟩
  obtain ⟨rfl, hRole⟩ := rules_append_inj hRules hRules' (hLacks default) (hLacks default') hParts
  have hSame := role_inj (fun part hPart => hDefault part (Option.mem_toList.1 hPart))
    (fun part hPart => hDefault' part (Option.mem_toList.1 hPart)) hRole
  exact ⟨rfl, eq_of_toList_eq hSame⟩

include hf hg

/-- The lines of the parts determine the parts, for forms that agree otherwise. -/
theorem outlineParts_inj (hHead : f.head = g.head) (hParts : f.outlineParts = g.outlineParts) :
    f = g := by
  cases f with
  | identifier | constant | nullConstant | variableName | parameter =>
    cases g <;> cases hHead
    rfl
  | operation op args =>
    cases g <;> cases hHead
    exact congrArg _ (flatten_inj hf hg hParts)
  | tuple items =>
    cases g <;> cases hHead
    exact congrArg _ (flatten_inj hf hg hParts)
  | call name args distinct =>
    cases g <;> cases hHead
    next args' => rw [show args = args' from flatten_inj hf hg hParts]
  | unary op arg =>
    cases g <;> cases hHead
    exact congrArg _ hParts
  | typeCast typeName arg =>
    cases g <;> cases hHead
    exact congrArg _ hParts
  | orderBy field direction nulls =>
    cases g <;> cases hHead
    next field' => rw [show field = field' from hParts]
  | binary op left right =>
    cases g <;> cases hHead
    next left' right' =>
    have hBoth := flatten_inj (a := [left, right]) (b := [left', right']) hf hg
      (by simpa [outlineParts] using hParts)
    simp only [List.cons.injEq, and_true] at hBoth
    rw [hBoth.1, hBoth.2]
  | between subject low high negated =>
    cases g <;> cases hHead
    next subject' low' high' =>
    have hAll := flatten_inj (a := [subject, low, high]) (b := [subject', low', high']) hf hg
      (by simpa [outlineParts] using hParts)
    simp only [List.cons.injEq, and_true] at hAll
    rw [hAll.1, hAll.2.1, hAll.2.2]
  | select query =>
    cases g with
    | select query' => rw [Query.outline_inj hf hg (Head.select.inj hHead) hParts]
    | _ => cases hHead
  | join left right kind condition =>
    cases g <;> cases hHead
    next left' right' condition' =>
    obtain ⟨rfl, rfl, rfl⟩ := join_parts_inj hf hg (by simpa [outlineParts] using hParts)
    rfl
  | caseWhen rules default =>
    cases g <;> cases hHead
    next rules' default' =>
    obtain ⟨rfl, rfl⟩ := case_parts_inj hf hg hParts
    rfl

end Parts

end Form

/-! ## One line each -/

namespace Outline

theorem not_mem_quoted (s : String) : '\n' ∉ (Text.quoted s).toList := by
  rw [Text.quoted, String.toList_ofList]
  exact Text.not_mem_enclosed (by decide) _

theorem not_mem_quotedChar (c : Char) : '\n' ∉ (Text.quotedChar c).toList := by
  rw [Text.quotedChar, String.toList_ofList]
  exact Text.not_mem_enclosed (by decide) _

theorem not_mem_value {v : Value} (hv : v.scalar.Finite) : '\n' ∉ (value v).toList := by
  have hMark : ∀ {text : List Char}, (∀ c ∈ text, Number.isMark c = true) → '\n' ∉ text := by
    intro text hMarks hMem
    cases hMarks '\n' hMem
  cases v with
  | null => decide
  | boolean b => cases b <;> decide
  | integer i => exact hMark (Number.isMark_of_mem_toString _)
  | float x => exact hMark (Number.Style.isMark_of_mem_text (Or.inl rfl) hv)
  | text s => exact not_mem_quoted s

theorem not_mem_entry {name value : String} (hName : '\n' ∉ name.toList)
    (hValue : '\n' ∉ value.toList) : '\n' ∉ (entry name value).toList := by
  simp [toList_entry, hName, hValue]

theorem not_mem_flag {name : String} (hName : '\n' ∉ name.toList) (value : Bool) :
    '\n' ∉ (flag name value).toList := by
  cases value
  · simp [flag]
  · exact not_mem_entry hName (by decide)

theorem not_mem_decorations (parentheses : Bool) (aliasName : Option String) :
    '\n' ∉ (decorations parentheses aliasName).toList := by
  have hFlag := not_mem_flag (show '\n' ∉ "parentheses".toList by decide) parentheses
  cases aliasName with
  | none => simpa [decorations, optional] using hFlag
  | some name =>
    have hAlias := not_mem_entry (show '\n' ∉ "alias".toList by decide) (not_mem_quoted name)
    simp [decorations, optional, hFlag, hAlias]

end Outline

namespace Form

open Outline

theorem not_mem_outlineHead {α : Type} {f : Form α} (hf : f.Finite) :
    '\n' ∉ f.outlineHead.toList := by
  have hQuoted : ∀ {name : String}, '\n' ∉ name.toList → ∀ s,
      '\n' ∉ (entry name (Text.quoted s)).toList :=
    fun hName s => not_mem_entry hName (not_mem_quoted s)
  cases f with
  | identifier value wrap =>
    have hValue := hQuoted (show '\n' ∉ "value".toList by decide) value
    cases wrap with
    | none => simpa [outlineHead] using hValue
    | some c =>
      have hWrap := not_mem_entry (show '\n' ∉ "wrap".toList by decide) (not_mem_quotedChar c)
      simp [outlineHead, hValue, hWrap]
  | constant value => exact not_mem_entry (by decide) (not_mem_value (hf value rfl))
  | variableName name system =>
    have hValue := hQuoted (show '\n' ∉ "value".toList by decide) name
    have hSystem := not_mem_entry (show '\n' ∉ "is_system_var".toList by decide)
      (show '\n' ∉ (toString system).toList by cases system <;> decide)
    simp [outlineHead, hValue, hSystem]
  | operation | binary | unary => exact hQuoted (by decide) _
  | typeCast typeName arg => exact hQuoted (by decide) _
  | call name args distinct =>
    have hName := hQuoted (show '\n' ∉ "op".toList by decide) name
    have hDistinct := not_mem_flag (show '\n' ∉ "distinct".toList by decide) distinct
    simp [outlineHead, hName, hDistinct]
  | between subject low high negated => exact not_mem_flag (by decide) _
  | select query => exact not_mem_flag (by decide) _
  | join left right kind condition => exact not_mem_entry (by decide) (by cases kind <;> decide)
  | orderBy field direction nulls =>
    have hDirection := not_mem_entry (show '\n' ∉ "direction".toList by decide)
      (show '\n' ∉ direction.label.toList by cases direction <;> decide)
    have hNulls := not_mem_entry (show '\n' ∉ "nulls".toList by decide)
      (show '\n' ∉ nulls.label.toList by cases nulls <;> decide)
    simp [outlineHead, hDirection, hNulls]
  | nullConstant | parameter | tuple | caseWhen => simp [outlineHead]

/-- The first line of a node is one line. -/
theorem isLine_head {α : Type} {f : Form α} (hf : f.Finite) (parentheses : Bool)
    (aliasName : Option String) :
    IsLine (f.label ++ f.outlineHead ++ decorations parentheses aliasName).toList := by
  have hLabel : IsLine f.label.toList := by
    cases f <;> exact ⟨by simp [label], by simp [label], by simp [label]⟩
  simp only [String.toList_append, List.append_assoc]
  constructor
  · rw [List.head?_append_of_ne_nil _ hLabel.ne_nil]
    exact hLabel.head
  · simp [hLabel.ne_nil]
  · simp [hLabel.oneLine, not_mem_outlineHead hf, not_mem_decorations]

end Form

namespace Outline

/-- Lines that are one line each. -/
def AllLines (lines : List Line) : Prop := ∀ line ∈ lines, IsLine line.text.toList

theorem AllLines.append {a b : List Line} (ha : AllLines a) (hb : AllLines b) : AllLines (a ++ b) :=
  fun line hLine => (List.mem_append.1 hLine).elim (ha line) (hb line)

theorem AllLines.indent {lines : List Line} (hLines : AllLines lines) :
    AllLines (indent lines) := by
  intro line hLine
  obtain ⟨inner, hMem, rfl⟩ := List.mem_map.1 hLine
  exact hLines inner hMem

theorem allLines_flatten {parts : List (List Line)} (hParts : ∀ part ∈ parts, AllLines part) :
    AllLines parts.flatten := by
  intro line hLine
  obtain ⟨part, hPart, hMem⟩ := List.mem_flatten.1 hLine
  exact hParts part hPart line hMem

theorem allLines_role {name : String} {parts : List (List Line)}
    (hName : IsLine (name ++ ":").toList)
    (hParts : ∀ part ∈ parts, AllLines part) : AllLines (role name parts) := by
  cases parts with
  | nil => exact fun line hLine => by cases hLine
  | cons part parts =>
    rw [role_cons]
    intro line hLine
    rcases List.mem_cons.1 hLine with rfl | hBelow
    · exact hName
    · exact (allLines_flatten hParts).indent line hBelow

end Outline

namespace Form

open Outline

/-- The lines of the parts are lines of parts, further in, and lines that name
roles. -/
theorem allLines_outlineParts {f : Form (List Line)} (hf : ∀ part ∈ f.parts, AllLines part) :
    AllLines f.outlineParts := by
  cases f with
  | identifier | constant | nullConstant | variableName | parameter =>
    exact fun line hLine => by cases hLine
  | operation op args => exact allLines_flatten hf
  | call name args distinct => exact allLines_flatten hf
  | tuple items => exact allLines_flatten hf
  | unary op arg => exact hf arg (by simp [Form.parts])
  | typeCast typeName arg => exact hf arg (by simp [Form.parts])
  | orderBy field direction nulls => exact hf field (by simp [Form.parts])
  | binary op left right =>
    exact (hf left (by simp [Form.parts])).append (hf right (by simp [Form.parts]))
  | between subject low high negated =>
    exact ((hf subject (by simp [Form.parts])).append (hf low (by simp [Form.parts]))).append
      (hf high (by simp [Form.parts]))
  | select query =>
    simp only [Form.parts, Query.parts, List.mem_append] at hf
    rw [Query.outlineParts_select]
    intro line hLine
    obtain ⟨part, hPart, hMem⟩ := List.mem_flatMap.1 hLine
    have hBlocks : ∀ block ∈ part.2, AllLines block := by
      intro block hBlock
      apply hf block
      simp only [Query.outlineRoles, List.mem_cons, List.not_mem_nil, or_false] at hPart
      rcases hPart with rfl | rfl | rfl | rfl | rfl | rfl | rfl | rfl <;> simp [hBlock]
    have hName : IsLine (part.1 ++ ":").toList := by
      simp only [Query.outlineRoles, List.mem_cons, List.not_mem_nil, or_false] at hPart
      rcases hPart with rfl | rfl | rfl | rfl | rfl | rfl | rfl | rfl <;>
        exact ⟨by simp, by simp, by simp⟩
    exact allLines_role hName hBlocks line hMem
  | join left right kind condition =>
    have hCondition := allLines_role (show IsLine ("condition" ++ ":").toList from
      ⟨by simp, by simp, by simp⟩) fun part hPart => hf part
        (List.mem_cons_of_mem left (List.mem_cons_of_mem right hPart))
    exact ((hf left (by simp [Form.parts])).append (hf right (by simp [Form.parts]))).append
      hCondition
  | caseWhen rules default =>
    obtain ⟨hRules, hDefault⟩ := forall_mem_parts_caseWhen.1 hf
    have hElse := allLines_role (show IsLine ("else" ++ ":").toList from
      ⟨by simp, by simp, by simp⟩) fun part hPart => hDefault part (Option.mem_toList.1 hPart)
    refine AllLines.append ?_ hElse
    intro line hLine
    obtain ⟨rule, hRule, hMem⟩ := List.mem_flatMap.1 hLine
    have hWhen : AllLines (role "when" [rule.1]) := allLines_role ⟨by simp, by simp, by simp⟩
      (List.forall_mem_singleton.2 (hRules rule hRule).1)
    have hThen : AllLines (role "then" [rule.2]) := allLines_role ⟨by simp, by simp, by simp⟩
      (List.forall_mem_singleton.2 (hRules rule hRule).2)
    exact (hWhen.append hThen) line hMem

end Form

end SqlQuery
