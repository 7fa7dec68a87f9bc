import SqlQuery.Proofs.InStep

/-!
# Tokens with an index

What a parser has still to read can be kept as the tokens that are left, or as
the list of all tokens with the index of the one at the front.  With an index, a
token is looked up at the index or, past the last token, there; and a token is
taken by adding one to the index, unless it is the end of the input.

Both ways come to the same if the last token, and no other, is the end of the
input.  Then the index cannot leave the list, whatever is taken, so the lookup of
the token at the front never falls back on the last one.

## Main definitions

* `TokenStream.seek` — the tokens from a position on.
* `TokenCursor` — all tokens and an index, with the ways to look and to take.
* `TokenStream.AgreesWithCursor` — what is left and an index do the same.

## Main results

* `TokenStream.agreesWithCursor` — they do the same at every position.
-/

namespace SqlQuery

/-! ## The tokens from a position on -/

namespace TokenStream

variable {stream rest : TokenStream} {position : Nat}

/-- What is left of a stream at a position. -/
def seek (stream : TokenStream) (position : Nat) : TokenStream :=
  { stream with ahead := stream.ahead.drop position }

theorem length_ahead_seek (stream : TokenStream) (position : Nat) :
    (stream.seek position).ahead.length = stream.ahead.length - position :=
  List.length_drop

theorem closed_seek (hClosed : stream.Closed) : (stream.seek position).Closed := hClosed

/-- Later parts of a stream are those at later positions. -/
theorem LeadsTo.exists_seek (hLeads : (stream.seek position).LeadsTo rest)
    (hPosition : position ≤ stream.ahead.length) :
    ∃ later, position ≤ later ∧ later ≤ stream.ahead.length ∧ rest = stream.seek later := by
  obtain ⟨ahead, last⟩ := rest
  obtain ⟨hLast, used, hUsed⟩ := hLeads
  cases hLast
  have hLength := congrArg List.length hUsed
  rw [List.length_append, length_ahead_seek] at hLength
  refine ⟨position + used.length, Nat.le_add_right _ _, by omega, ?_⟩
  have hDrop : stream.ahead.drop (position + used.length) = ahead := by
    rw [← List.drop_drop]
    exact (congrArg (List.drop used.length) hUsed.symm).trans List.drop_left
  rw [seek, hDrop]

/-- Going on by a token is going to the next position, unless it is the end. -/
theorem advance_seek (hPosition : position ≤ stream.ahead.length) :
    (stream.seek position).advance = stream.seek (min (position + 1) stream.ahead.length) := by
  unfold advance seek
  rw [List.tail_drop]
  by_cases hEnd : position = stream.ahead.length
  · subst hEnd
    simp
  · rw [Nat.min_eq_left (by omega)]

/-- The token that is `n` places ahead of a position, where the end is never
passed. -/
theorem getElem?_toList_seek (n : Nat) :
    stream.toList[min (position + n) stream.ahead.length]? =
      some ((stream.seek position).ahead[n]?.getD stream.last) := by
  have hAhead : (stream.seek position).ahead[n]? = stream.ahead[position + n]? := List.getElem?_drop
  rw [toList, hAhead]
  by_cases hInside : position + n < stream.ahead.length
  · rw [Nat.min_eq_left (Nat.le_of_lt hInside), List.getElem?_append_left hInside,
      List.getElem?_eq_getElem hInside]
    rfl
  · rw [Nat.min_eq_right (Nat.le_of_not_lt hInside), List.getElem?_concat_length,
      List.getElem?_eq_none (Nat.le_of_not_lt hInside)]
    rfl

theorem current_seek (stream : TokenStream) (position : Nat) :
    (stream.seek position).current = (stream.seek position).ahead[0]?.getD stream.last := by
  rw [current, List.headD_eq_head?_getD, List.head?_eq_getElem?]
  rfl

end TokenStream

/-! ## An index into the tokens -/

/-- All tokens and the index of the one at the front. -/
structure TokenCursor where
  tokens : List Token
  position : Nat
deriving DecidableEq, Repr

namespace TokenCursor

/-- The token at an index, or the last one if the index is past it. -/
def token? (cursor : TokenCursor) (index : Nat) : Option Token :=
  cursor.tokens[min index (cursor.tokens.length - 1)]?

/-- The token at the front. -/
def current? (cursor : TokenCursor) : Option Token := cursor.token? cursor.position

/-- The kind of the token `n` places ahead. -/
def peek? (n : Nat) (cursor : TokenCursor) : Option TokenKind :=
  (cursor.token? (cursor.position + n)).map (·.kind)

/-- The token at the front, and the cursor once it is taken.  The end of the input
is not taken. -/
def advance? (cursor : TokenCursor) : Option (Token × TokenCursor) :=
  cursor.current?.map fun token =>
    (token, if token.kind.isFinish then cursor
      else { cursor with position := cursor.position + 1 })

/-- A cursor that others come to by taking tokens. -/
inductive Reaches : TokenCursor → TokenCursor → Prop
  | refl (cursor : TokenCursor) : Reaches cursor cursor
  | step {cursor next later : TokenCursor} {token : Token}
      (hTake : cursor.advance? = some (token, next)) (hReaches : Reaches next later) :
    Reaches cursor later

end TokenCursor

/-! ## Both ways are the same -/

namespace TokenStream

variable {stream : TokenStream} {position : Nat}

/-- The index of a position among all tokens. -/
def cursor (stream : TokenStream) (position : Nat) : TokenCursor := ⟨stream.toList, position⟩

theorem token?_cursor (n : Nat) : (stream.cursor position).token? (position + n) =
    some ((stream.seek position).ahead[n]?.getD stream.last) := by
  rw [← getElem?_toList_seek, TokenCursor.token?, cursor, toList, List.length_append]
  rfl

theorem current?_cursor :
    (stream.cursor position).current? = some (stream.seek position).current := by
  rw [current_seek]
  exact token?_cursor 0

/-- At a position among the tokens the lookup is not clamped. -/
theorem current?_cursor_eq_getElem? (hPosition : position ≤ stream.ahead.length) :
    (stream.cursor position).current? = stream.toList[position]? := by
  have hToken := @getElem?_toList_seek stream position 0
  rw [Nat.add_zero, Nat.min_eq_left hPosition] at hToken
  rw [current?_cursor, current_seek, hToken]

theorem peek?_cursor (n : Nat) :
    (stream.cursor position).peek? n = some ((stream.seek position).peek n) :=
  congrArg (Option.map Token.kind) (token?_cursor n)

/-- The token at the front is the end of the input at the last position alone. -/
theorem kind_current_seek_iff (hClosed : stream.Closed)
    (hOnly : ∀ token ∈ stream.ahead, token.kind ≠ .finish)
    (hPosition : position ≤ stream.ahead.length) :
    (stream.seek position).current.kind = .finish ↔ position = stream.ahead.length := by
  have hToken : stream.toList[position]? = some (stream.seek position).current :=
    (current?_cursor_eq_getElem? hPosition).symm.trans current?_cursor
  rcases Nat.eq_or_lt_of_le hPosition with rfl | hLess
  · rw [toList, List.getElem?_concat_length, Option.some.injEq] at hToken
    rw [← hToken]
    exact iff_of_true hClosed rfl
  · rw [toList, List.getElem?_append_left hLess] at hToken
    exact iff_of_false (hOnly _ (List.mem_of_getElem? hToken)) (Nat.ne_of_lt hLess)

theorem advance?_cursor (hClosed : stream.Closed)
    (hOnly : ∀ token ∈ stream.ahead, token.kind ≠ .finish)
    (hPosition : position ≤ stream.ahead.length) :
    (stream.cursor position).advance? = some ((stream.seek position).current,
      stream.cursor (min (position + 1) stream.ahead.length)) := by
  have hFinish := kind_current_seek_iff hClosed hOnly hPosition
  rw [← TokenKind.isFinish_iff] at hFinish
  rw [TokenCursor.advance?, current?_cursor, Option.map_some]
  rcases Nat.eq_or_lt_of_le hPosition with rfl | hLess
  · rw [if_pos (hFinish.2 rfl), Nat.min_eq_right (Nat.le_succ _)]
  · rw [if_neg (fun h => Nat.ne_of_lt hLess (hFinish.1 h)), Nat.min_eq_left hLess]
    rfl

/-- The index runs over the later positions up to that of the end of the input,
and over no others. -/
theorem reaches_cursor_iff (hClosed : stream.Closed)
    (hOnly : ∀ token ∈ stream.ahead, token.kind ≠ .finish)
    (hPosition : position ≤ stream.ahead.length) {later : TokenCursor} :
    (stream.cursor position).Reaches later ↔
      ∃ place, position ≤ place ∧ place ≤ stream.ahead.length ∧ later = stream.cursor place := by
  constructor
  · intro hReaches
    generalize hCursor : stream.cursor position = first at hReaches
    induction hReaches generalizing position with
    | refl => exact ⟨position, Nat.le_refl _, hPosition, hCursor.symm⟩
    | step hTake _ ih =>
      subst hCursor
      rw [advance?_cursor hClosed hOnly hPosition] at hTake
      cases hTake
      obtain ⟨place, hLow, hHigh, rfl⟩ := ih (Nat.min_le_right _ _) rfl
      exact ⟨place, by omega, hHigh, rfl⟩
  · rintro ⟨place, hLow, hHigh, rfl⟩
    obtain ⟨taken, rfl⟩ := Nat.exists_eq_add_of_le hLow
    induction taken generalizing position with
    | zero => exact .refl _
    | succ taken ih =>
      have hTake := advance?_cursor hClosed hOnly hPosition
      rw [Nat.min_eq_left (by omega)] at hTake
      have hNext := @ih (position + 1) (by omega) (by omega) (by omega)
      rw [Nat.add_right_comm] at hNext
      exact .step hTake hNext

/-- What is left from a position on and the index of that position do the same.
They show the same token at the front, which the index finds without falling back
on the last token, and the same kinds ahead; they take the same token and then
agree at the same position; and by taking tokens the index comes to the positions
from there on and does not leave the tokens. -/
structure AgreesWithCursor (stream : TokenStream) (position : Nat) : Prop where
  current : (stream.cursor position).current? = some (stream.seek position).current
  unclamped : (stream.cursor position).current? = stream.toList[position]?
  peek : ∀ n, (stream.cursor position).peek? n = some ((stream.seek position).peek n)
  advance : ∃ next, (stream.cursor position).advance? =
      some ((stream.seek position).current, stream.cursor next) ∧
    (stream.seek position).advance = stream.seek next
  reaches : ∀ later, (stream.cursor position).Reaches later ↔
    ∃ place, position ≤ place ∧ place ≤ stream.ahead.length ∧ later = stream.cursor place

/-- **An index into the tokens does what the tokens that are left do**, if the last
token is the only end of the input. -/
theorem agreesWithCursor (hClosed : stream.Closed)
    (hOnly : ∀ token ∈ stream.ahead, token.kind ≠ .finish)
    (hPosition : position ≤ stream.ahead.length) : stream.AgreesWithCursor position where
  current := current?_cursor
  unclamped := current?_cursor_eq_getElem? hPosition
  peek := peek?_cursor
  advance := ⟨_, advance?_cursor hClosed hOnly hPosition, advance_seek hPosition⟩
  reaches _ := reaches_cursor_iff hClosed hOnly hPosition

end TokenStream

end SqlQuery
