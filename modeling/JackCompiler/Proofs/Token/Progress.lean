import JackCompiler.Token.Lexer

/-!
# Progress of a lexer

Whatever a lexer does, its cursor moves over a piece of the source and counts the bytes and lines of
that piece. A token is never empty, so that a lexer takes no more tokens than there are bytes left.

## Main definitions

* `Cursor.Advances` — one cursor is behind another, with a given piece between them
* `Lexer.Consistent` — the position of a lexer counts what is in front of its cursor

## Main results

* `Cursor.advances_token`, `Lexer.advances_next` — a token is the piece that it is taken from
* `Token.Sound` — what holds of every token that a lexer takes
-/

namespace JackCompiler

/-- The second cursor stands behind the given piece of what the first has to read. -/
structure Cursor.Advances (cursor : Cursor) (piece : List Char) (behind : Cursor) : Prop where
  rest : cursor.rest = piece ++ behind.rest
  position : behind.position = cursor.position.afterAll piece

namespace Cursor.Advances

theorem refl (cursor : Cursor) : cursor.Advances [] cursor :=
  ⟨rfl, rfl⟩

theorem trans {a b c : Cursor} {piece more : List Char} (h : a.Advances piece b)
    (h' : b.Advances more c) : a.Advances (piece ++ more) c :=
  ⟨by rw [h.rest, h'.rest, List.append_assoc],
    by rw [h'.position, h.position, Position.afterAll_append]⟩

/-- One more character. -/
theorem step {c : Char} {rest : List Char} {p : Position} {piece : List Char} {behind : Cursor}
    (h : Advances { rest, position := p.after c } piece behind) :
    Advances { rest := c :: rest, position := p } (c :: piece) behind :=
  ⟨by rw [show rest = piece ++ behind.rest from h.rest, List.cons_append], h.position⟩

end Cursor.Advances

/-- A scan inside a gap moves over a piece of the text. -/
theorem Gap.advances_skip (gap : Gap) (text : List Char) (p : Position) :
    ∃ piece, Cursor.Advances { rest := text, position := p } piece (gap.skip text p).1 := by
  -- Each case of the scan drops one character, or the two of a comment sign, or stops.
  fun_induction Gap.skip gap text p with
  | case1 rest p ih =>
    obtain ⟨piece, h⟩ := ih
    exact ⟨_, h.step.step⟩
  | case2 rest p ih =>
    obtain ⟨piece, h⟩ := ih
    exact ⟨_, h.step.step⟩
  | case3 c rest p _ _ _ ih =>
    obtain ⟨piece, h⟩ := ih
    exact ⟨_, h.step⟩
  | case4 => exact ⟨[], .refl _⟩
  | case5 c rest p ih =>
    obtain ⟨piece, h⟩ := ih
    exact ⟨_, h.step⟩
  | case6 opened rest p ih =>
    obtain ⟨piece, h⟩ := ih
    exact ⟨_, h.step.step⟩
  | case7 opened c rest p _ ih =>
    obtain ⟨piece, h⟩ := ih
    exact ⟨_, h.step⟩
  | case8 => exact ⟨[], .refl _⟩
  | case9 => exact ⟨[], .refl _⟩

theorem Cursor.advances_run (cursor : Cursor) (p : Char → Bool) :
    cursor.Advances (cursor.run p).1 (cursor.run p).2 :=
  ⟨(cursor.run_append p).symm, rfl⟩

/-- What holds of every token that a lexer takes: it is not empty, the value of a number is within
range, and an identifier is not spelled like a keyword. -/
structure Token.Sound (token : Token) : Prop where
  nonempty : token.text.toList ≠ []
  inRange : token.kind = .integer → ∃ value, token.integerValue? = some value
  notReserved : token.kind = .identifier → Keyword.ofText? token.text = none

@[simp] theorem Cursor.toList_text_tokenOf (cursor : Cursor) (kind : TokenKind)
    (text : List Char) : (cursor.tokenOf kind text).text.toList = text := by
  simp [tokenOf]

/-- A run is not empty if the next character is of its class. -/
theorem Cursor.run_ne_nil {cursor : Cursor} {p : Char → Bool} {first : Char} {rest : List Char}
    (h : cursor.rest = first :: rest) (starts : p first = true) : (cursor.run p).1 ≠ [] := by
  simp [Cursor.run, h, starts]

/-- One character that has not been read yet. -/
theorem Cursor.advances_next {cursor : Cursor} {first : Char} {rest : List Char}
    (h : cursor.rest = first :: rest) :
    cursor.Advances [first] { rest, position := cursor.position.after first } :=
  ⟨h, rfl⟩

/-- A token is the piece of the source that it is taken from. -/
theorem Cursor.advances_token {cursor behind : Cursor} {token : Token}
    (h : cursor.token = (.ok token, behind)) :
    cursor.Advances token.text.toList behind ∧ token.Sound := by
  unfold Cursor.token at h
  split at h
  · cases h
  · rename_i first rest begins
    have next := cursor.advances_next begins
    -- A word, a number, a string or a symbol, in the order in which the first character is tried.
    split at h
    · rename_i starts
      simp only [Prod.mk.injEq, Except.ok.injEq] at h
      obtain ⟨rfl, rfl⟩ := h
      refine ⟨by simpa using cursor.advances_run isWordPart, ?_, ?_, ?_⟩
      · simpa using cursor.run_ne_nil begins (p := isWordPart) (by simp [isWordPart, starts])
      all_goals
        simp only [Cursor.tokenOf, TokenKind.ofWord]
        split <;> simp_all
    · split at h
      · rename_i digit
        dsimp only at h
        split at h
        · rename_i value inRange
          simp only [Prod.mk.injEq, Except.ok.injEq] at h
          obtain ⟨rfl, rfl⟩ := h
          refine ⟨by simpa using cursor.advances_run Char.isDigit, ?_, ?_, ?_⟩
          · simpa using cursor.run_ne_nil begins (p := Char.isDigit) digit
          · exact fun _ => ⟨value, by simpa [Token.integerValue?, Cursor.tokenOf] using inRange⟩
          · simp [Cursor.tokenOf]
        · cases h
      · dsimp only at h
        split at h
        · rename_i quote
          obtain rfl : first = '"' := by simpa using quote
          split at h
          · cases h
          · rename_i c more reached
            split at h
            · rename_i closing
              obtain rfl : c = '"' := by simpa using closing
              simp only [Prod.mk.injEq, Except.ok.injEq] at h
              obtain ⟨rfl, rfl⟩ := h
              have contents := Cursor.advances_run
                { rest, position := cursor.position.after '"' } isQuotable
              refine ⟨?_, ?_, ?_, ?_⟩
              · simpa using next.trans (contents.trans (Cursor.advances_next reached))
              all_goals simp [Cursor.tokenOf]
            · cases h
        · simp only [Prod.mk.injEq, Except.ok.injEq] at h
          obtain ⟨rfl, rfl⟩ := h
          refine ⟨by simpa using next, ?_, ?_, ?_⟩ <;> simp [Cursor.tokenOf]

/-- The second lexer reads the same source, behind the given piece of it. -/
structure Lexer.Advances (lexer : Lexer) (piece : List Char) (behind : Lexer) : Prop where
  cursor : lexer.cursor.Advances piece behind.cursor
  source : behind.source = lexer.source
  file : behind.file = lexer.file

/-- The position of a lexer counts what is in front of its cursor. -/
def Lexer.Consistent (lexer : Lexer) : Prop :=
  lexer.cursor.position.offset + byteLength lexer.cursor.rest = lexer.source.utf8ByteSize

theorem byteLength_append (piece more : List Char) :
    byteLength (piece ++ more) = byteLength piece + byteLength more := by
  induction piece with
  | nil => simp [byteLength]
  | cons c piece ih => simp [byteLength, ih, Nat.add_assoc]

theorem byteLength_toList (text : String) : byteLength text.toList = text.utf8ByteSize := by
  -- A string has no induction of its own, so the count is compared on lists of characters.
  have ofList (piece : List Char) : byteLength piece = (String.ofList piece).utf8ByteSize := by
    induction piece with
    | nil => simp [byteLength]
    | cons c piece ih =>
      rw [byteLength, ih, String.ofList_cons, String.utf8ByteSize_append,
        String.utf8ByteSize_singleton]
  rw [ofList, String.ofList_toList]

/-- A piece of text has at least as many bytes as characters. -/
theorem length_le_byteLength (piece : List Char) : piece.length ≤ byteLength piece := by
  induction piece with
  | nil => simp
  | cons c piece ih =>
    have := c.utf8Size_pos
    simp only [List.length_cons, byteLength]
    omega

namespace Lexer

theorem Advances.trans {a b c : Lexer} {piece more : List Char} (h : a.Advances piece b)
    (h' : b.Advances more c) : a.Advances (piece ++ more) c :=
  ⟨h.cursor.trans h'.cursor, h'.source.trans h.source, h'.file.trans h.file⟩

theorem consistent_ofSource (file source : String) : (ofSource file source).Consistent := by
  simp [Consistent, ofSource, Cursor.ofText, byteLength_toList]

theorem Consistent.advances {lexer behind : Lexer} {piece : List Char} (h : lexer.Consistent)
    (moves : lexer.Advances piece behind) :
    behind.Consistent ∧ lexer.bytesLeft = byteLength piece + behind.bytesLeft := by
  have rest := congrArg byteLength moves.cursor.rest
  have offset := congrArg Position.offset moves.cursor.position
  rw [byteLength_append] at rest
  rw [Position.offset_afterAll] at offset
  simp only [Consistent, bytesLeft, moves.source] at h ⊢
  omega

/-- Moving to the next token leaves a gap behind. -/
theorem advances_hasMore {lexer behind : Lexer} {more : Bool}
    (h : lexer.hasMore = (.ok more, behind)) :
    ∃ gap, lexer.Advances gap behind ∧ more = !behind.cursor.rest.isEmpty := by
  obtain ⟨gap, passed⟩ := Gap.advances_skip .blank lexer.cursor.rest lexer.cursor.position
  unfold Lexer.hasMore at h
  split at h
  · rename_i cursor skipped
    simp only [Prod.mk.injEq, Except.ok.injEq] at h
    obtain ⟨rfl, rfl⟩ := h
    -- The scan also tells how it ended, the cursor is its first part.
    have reached : (Gap.skip .blank lexer.cursor.rest lexer.cursor.position).1 = cursor :=
      congrArg Prod.fst skipped
    rw [reached] at passed
    exact ⟨gap, ⟨passed, rfl, rfl⟩, rfl⟩
  · simp at h

theorem advances_advance {lexer behind : Lexer} {token : Token}
    (h : lexer.advance = (.ok token, behind)) :
    lexer.Advances token.text.toList behind ∧ token.Sound := by
  unfold Lexer.advance at h
  split at h
  · rename_i taken cursor took
    simp only [Prod.mk.injEq, Except.ok.injEq] at h
    obtain ⟨rfl, rfl⟩ := h
    obtain ⟨moves, sound⟩ := Cursor.advances_token took
    exact ⟨⟨moves, rfl, rfl⟩, sound⟩
  · simp at h

/-- Taking the next token moves a lexer behind a gap and the token. -/
theorem advances_next {lexer behind : Lexer} {token : Token}
    (h : lexer.next = (.ok (some token), behind)) :
    (∃ gap, lexer.Advances (gap ++ token.text.toList) behind) ∧ token.Sound := by
  unfold Lexer.next at h
  split at h
  · simp at h
  · simp at h
  · rename_i reached atToken
    obtain ⟨gap, passed, -⟩ := advances_hasMore atToken
    split at h
    · rename_i taken final took
      simp only [Prod.mk.injEq, Except.ok.injEq, Option.some.injEq] at h
      obtain ⟨rfl, rfl⟩ := h
      obtain ⟨moves, sound⟩ := advances_advance took
      exact ⟨⟨gap, passed.trans moves⟩, sound⟩
    · simp at h

/-- At the end of the source a lexer moves behind a last gap. -/
theorem advances_end {lexer behind : Lexer} (h : lexer.next = (.ok none, behind)) :
    ∃ gap, lexer.Advances gap behind := by
  unfold Lexer.next at h
  split at h
  · simp at h
  · rename_i reached atEnd
    simp only [Prod.mk.injEq, true_and] at h
    obtain ⟨gap, passed, -⟩ := advances_hasMore atEnd
    subst h
    exact ⟨gap, passed.cursor, passed.source, passed.file⟩
  · split at h <;> simp at h

/-- The position stays right while tokens are taken, and each of them takes bytes away. -/
theorem Consistent.next {lexer behind : Lexer} {ahead : Option Token} (h : lexer.Consistent)
    (next : lexer.next = (.ok ahead, behind)) :
    behind.Consistent ∧ behind.bytesLeft + ahead.toList.length ≤ lexer.bytesLeft ∧
      ∀ token ∈ ahead, token.Sound := by
  cases ahead with
  | none =>
    obtain ⟨gap, moves⟩ := advances_end next
    obtain ⟨consistent, bytes⟩ := h.advances moves
    refine ⟨consistent, ?_, by simp⟩
    simp only [Option.toList_none, List.length_nil]
    omega
  | some token =>
    obtain ⟨⟨gap, moves⟩, sound⟩ := advances_next next
    obtain ⟨consistent, bytes⟩ := h.advances moves
    have positive := List.length_pos_iff.mpr sound.nonempty
    have long := length_le_byteLength token.text.toList
    rw [byteLength_append] at bytes
    refine ⟨consistent, ?_, by simpa using sound⟩
    simp only [Option.toList_some, List.length_singleton]
    omega

end Lexer

end JackCompiler
