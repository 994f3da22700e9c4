import JackCompiler.Proofs.Token.Spelling
import Mathlib.Data.List.Forall2

/-!
# Replacing names in a source

Tokens of a source can be replaced where they stand, so that everything between them is kept. If
names are replaced by names, then no two tokens fuse and no token falls apart: the new source is
read as the tokens of the old one with the new names among them.

## Main definitions

* `Span.replace?`, `replaceAll?` — a text with new pieces in place of what spans cover
* `edits` — what has to be replaced to turn tokens into given terminals
* `Renames` — a token is kept, or it is a name and replaced by a name

## Main results

* `Scans.replaceAll` — a text in which names are replaced is read with the new names
-/

namespace JackCompiler

open Grammar

/-- The text with a new piece in place of what a span covers, if both its ends are places of the
text. -/
def Span.replace? (span : Span) (piece text : List Char) : Option (List Char) := do
  let (before, inside) ← splitAtByte? span.index text
  let (_, behind) ← splitAtByte? span.size inside
  return before ++ piece ++ behind

/-- The text with new pieces in place of what several spans cover, which are given from left to
right. The last one is replaced first, so that the others still are where they were. -/
def replaceAll? : List (Span × List Char) → List Char → Option (List Char)
  | [], text => some text
  | (span, piece) :: later, text => (replaceAll? later text).bind (span.replace? piece)

/-- What has to be replaced to turn tokens into the given terminals. -/
def edits (tokens : List Token) (terminals : List Terminal) : List (Span × List Char) :=
  (tokens.zip terminals).filterMap fun (token, t) =>
    if token.terminal = t then none else some (token.span, t.letters)

/-- A token is kept, or it is a name and a name takes its place. -/
inductive Renames (token : Token) : Terminal → Prop where
  | same : Renames token token.terminal
  | name {old new : String} (isName : token.terminal = .identifier old)
    (spellable : (Terminal.identifier new).Spellable) : Renames token (.identifier new)

/-! ### Splitting a text -/

theorem splitAtByte?_byteLength (front behind : List Char) :
    splitAtByte? (byteLength front) (front ++ behind) = some (front, behind) := by
  induction front with
  | nil => cases behind <;> rfl
  | cons c front ih =>
    have positive := c.utf8Size_pos
    obtain ⟨n, more⟩ : ∃ n, byteLength (c :: front) = n + 1 :=
      ⟨byteLength (c :: front) - 1, by simp only [byteLength]; omega⟩
    have fits : c.utf8Size ≤ n + 1 := by
      rw [← more, byteLength]
      omega
    have rest : n + 1 - c.utf8Size = byteLength front := by
      rw [← more, byteLength]
      omega
    rw [more, List.cons_append, splitAtByte?, if_pos fits, rest, ih]
    rfl

/-- A token is replaced where it stands. -/
theorem Token.Covers.replace {token : Token} {kind : TokenKind} {front piece : List Char}
    (covers : token.Covers kind front piece) (new behind : List Char) :
    token.span.replace? new (front ++ piece ++ behind) = some (front ++ new ++ behind) := by
  rw [Span.replace?, covers.span, List.append_assoc, splitAtByte?_byteLength]
  simp [splitAtByte?_byteLength]

/-! ### Texts that begin alike -/

/-- The first characters are the same, or both begin a word. -/
def Resembles (text text' : List Char) : Prop :=
  ∀ c' ∈ text'.head?, c' ∈ text.head? ∨
    isWordStart c' = true ∧ ∃ c ∈ text.head?, isWordStart c = true

section Resembles

variable {behind behind' : List Char}

theorem Resembles.refl (text : List Char) : Resembles text text :=
  fun _ mem => .inl mem

theorem Resembles.append_left (resembles : Resembles behind behind') (front : List Char) :
    Resembles (front ++ behind) (front ++ behind') := by
  cases front with
  | nil => exact resembles
  | cons c front => exact fun _ mem => .inl mem

/-- Texts that begin with words begin alike. -/
theorem Resembles.of_words {piece piece' : List Char}
    (starts : piece.head?.any isWordStart = true) (starts' : piece'.head?.any isWordStart = true) :
    Resembles (piece ++ behind) (piece' ++ behind') := by
  cases piece with
  | nil => cases starts
  | cons c piece =>
    cases piece' with
    | nil => cases starts'
    | cons c' piece' =>
      intro d mem
      obtain rfl : c' = d := Option.some.inj mem
      exact .inr ⟨starts', c, rfl, starts⟩

theorem IsRun.resembles {p : Char → Bool} {piece : List Char} (run : IsRun p piece behind)
    (resembles : Resembles behind behind')
    (agree : ∀ c c', isWordStart c = true → isWordStart c' = true → p c = p c') :
    IsRun p piece behind' := by
  refine ⟨run.all, fun c' mem => ?_⟩
  rcases resembles c' mem with mem | ⟨starts', c, mem, starts⟩
  · exact run.longest c' mem
  · rw [← agree c c' starts starts']
    exact run.longest c mem

theorem isWordPart_agree (c c' : Char) (starts : isWordStart c = true)
    (starts' : isWordStart c' = true) : isWordPart c = isWordPart c' := by
  simp [isWordPart, starts, starts']

theorem isDigit_agree (c c' : Char) (starts : isWordStart c = true)
    (starts' : isWordStart c' = true) : c.isDigit = c'.isDigit := by
  have noDigit {c : Char} (starts : isWordStart c = true) : c.isDigit = false := by
    by_contra digit
    rw [Bool.not_eq_false] at digit
    rw [not_isWordStart_of_isDigit digit] at starts
    cases starts
  rw [noDigit starts, noDigit starts']

theorem pair_prefix_iff {a b c : Char} {text : List Char} :
    [a, b] <+: c :: text ↔ a = c ∧ text.head? = some b := by
  cases text <;> simp [List.cons_prefix_cons, eq_comm]

theorem EndsGap.resembles {c : Char} (ends : EndsGap (c :: behind))
    (resembles : Resembles behind behind') : EndsGap (c :: behind') := by
  refine ⟨ends.notBlank, fun comment => ends.noComment ?_⟩
  rw [OpensComment, pair_prefix_iff, pair_prefix_iff] at comment ⊢
  have same {d : Char} (next : behind'.head? = some d) (notWord : isWordStart d = false) :
      behind.head? = some d := by
    rcases resembles d next with mem | ⟨starts, -⟩
    · exact mem
    · rw [notWord] at starts
      cases starts
  exact comment.imp (.imp_right fun next => same next (by decide))
    (.imp_right fun next => same next (by decide))

/-- A token is one as well in front of a text that begins alike. -/
theorem Lexeme.resembles {kind : TokenKind} {piece : List Char} (lexeme : Lexeme kind piece behind)
    (resembles : Resembles behind behind') : Lexeme kind piece behind' := by
  cases lexeme with
  | keyword run => exact .keyword (run.resembles resembles isWordPart_agree)
  | identifier starts run notReserved =>
    exact .identifier starts (run.resembles resembles isWordPart_agree) notReserved
  | integer nonempty run inRange =>
    exact .integer nonempty (run.resembles resembles isDigit_agree) inRange
  | string quotable => exact .string quotable
  | symbol ends notWord notQuote => exact .symbol (ends.resembles resembles) notWord notQuote

/-- What is known of a name and the text behind it. -/
theorem Lexeme.word {piece : List Char} (lexeme : Lexeme .identifier piece behind)
    (resembles : Resembles behind behind') :
    piece.head?.any isWordStart = true ∧ ∀ c ∈ behind'.head?, isWordPart c = false := by
  cases lexeme with
  | identifier starts run => exact ⟨starts, (run.resembles resembles isWordPart_agree).longest⟩

/-- A gap in front of something is one in front of anything. -/
theorem IsGap.in_front_of {gap : List Char} (isGap : IsGap gap behind) (nonempty : behind ≠ [])
    (behind' : List Char) : IsGap gap behind' := by
  induction isGap with
  | nil => exact .nil
  | blank isBlank _ ih => exact .blank isBlank (ih nonempty)
  | blockComment unclosed _ ih => exact .blockComment unclosed (ih nonempty)
  | lineComment sameLine ends _ ih => exact .lineComment sameLine ends (ih nonempty)
  | lastLine => exact absurd rfl nonempty

end Resembles

/-! ### Reading the new text -/

theorem edits_cons (token : Token) (tokens : List Token) (t : Terminal)
    (terminals : List Terminal) :
    edits (token :: tokens) (t :: terminals) =
      (if token.terminal = t then [] else [(token.span, t.letters)]) ++ edits tokens terminals := by
  rw [edits, List.zip_cons_cons, List.filterMap_cons]
  by_cases same : token.terminal = t <;> simp [same, edits]

/-- **A text in which names are replaced is read with the new names**, wherever it stands. -/
theorem Scans.replaceAll {file : String} {front text : List Char} {tokens : List Token}
    {fault : Option (Located LexicalFault)} (scans : Scans file front text tokens fault)
    (noFault : fault = none) : ∀ {terminals : List Terminal},
      List.Forall₂ Renames tokens terminals → ∃ text',
        replaceAll? (edits tokens terminals) (front ++ text) = some (front ++ text') ∧
          Resembles text text' ∧ ∀ front', ∃ tokens', Scans file front' text' tokens' none ∧
            tokens'.map Token.terminal = terminals := by
  induction scans with
  | @done front gap isGap =>
    intro terminals renames
    cases renames
    exact ⟨gap, rfl, .refl gap, fun front' => ⟨[], .done isGap, rfl⟩⟩
  | fault => cases noFault
  | @token front gap piece behind kind token tokens fault isGap lexeme covers rest ih =>
    intro terminals renames
    cases renames with
    | @cons _ t _ terminals first others =>
      obtain ⟨behind', replaced, resembles, reads⟩ := ih noFault others
      have isGap' := isGap.in_front_of (by simp [lexeme.ne_nil])
      rw [edits_cons]
      by_cases same : token.terminal = t
      · -- The token is kept.
        refine ⟨gap ++ piece ++ behind', ?_, resembles.append_left _, fun front' => ?_⟩
        · simpa [same] using replaced
        · obtain ⟨token', covers'⟩ := exists_covers kind (front' ++ gap) piece
          obtain ⟨tokens', scans, terminals⟩ := reads (front' ++ gap ++ piece)
          have sameToken : token'.terminal = token.terminal := by
            rw [Token.terminal, Token.terminal, covers'.kind, covers'.text, covers.kind,
              covers.text]
          exact ⟨token' :: tokens', .token (isGap' _) (lexeme.resembles resembles) covers' scans,
            by rw [List.map_cons, sameToken, same, terminals]⟩
      · cases first with
        | same => exact absurd rfl same
        | @name old new isName spellable =>
          obtain rfl : kind = .identifier :=
            covers.kind.symm.trans (Token.terminal_eq_identifier.mp isName).1
          obtain ⟨starts, stops⟩ := lexeme.word resembles
          refine ⟨gap ++ new.toList ++ behind', ?_, ?_, fun front' => ?_⟩
          · have here := covers.replace new.toList behind'
            simp only [List.append_assoc] at replaced here
            simp [same, Terminal.letters, replaceAll?, replaced, here]
          · rw [List.append_assoc, List.append_assoc]
            exact (Resembles.of_words starts spellable.1).append_left gap
          · obtain ⟨token', covers'⟩ := exists_covers .identifier (front' ++ gap) new.toList
            obtain ⟨tokens', scans, terminals⟩ := reads (front' ++ gap ++ new.toList)
            exact ⟨token' :: tokens',
              .token (isGap' _) (spellable.lexeme_identifier stops) covers' scans,
              by rw [List.map_cons, covers'.terminal (t := .identifier new), terminals]⟩

end JackCompiler
