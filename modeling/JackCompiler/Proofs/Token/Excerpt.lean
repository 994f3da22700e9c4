import JackCompiler.Proofs.Token.Continuation
import JackCompiler.Proofs.Token.LexerRequests

/-!
# Excerpts of a source

In the middle of a source, a stream can be exchanged for one whose source ends early: it gives the
first of the tokens that are left, on the same lines, and then no more. What follows in the rest of
the source, a lexical fault included, does not show.

## Main definitions

* `TokenStream.InPlace` — a stream whose lexer stands somewhere in its source

## Main results

* `TokenStream.gives_of_scans` — a stream gives what the text behind its lexer scans to
* `TokenStream.Gives.unique` — a stream gives its tokens in one way only
* `TokenStream.InPlace.exists_excerpt` — the stream whose source ends early
-/

namespace JackCompiler.TokenStream

variable {stream behind : TokenStream} {token : Token} {tokens tokens' : List Token}
  {fault fault' : Option (Located LexicalFault)}

/-- The lexer of a stream stands at a place of its source, and it has taken the look-ahead. -/
structure InPlace (stream : TokenStream) : Prop where
  cursor : ∃ front, stream.lexer.cursor.StandsBehind stream.lexer.source front
  sound : ∀ token ∈ stream.lookahead, token.Sound

/-- A lexer is consistent behind a front of its source. -/
theorem consistent_of_standsBehind {lexer : Lexer} {front : List Char}
    (stands : lexer.cursor.StandsBehind lexer.source front) : lexer.Consistent := by
  rw [Lexer.Consistent, stands.offset, ← byteLength_append, ← stands.text, byteLength_toList]

theorem InPlace.consistent (h : stream.InPlace) : stream.Consistent := by
  obtain ⟨front, stands⟩ := h.cursor
  exact ⟨consistent_of_standsBehind stands, h.sound⟩

/-- A lexer that has moved on stands in its source again. -/
private theorem standsBehind_of_advances {lexer reached : Lexer} {piece : List Char}
    (h : ∃ front, lexer.cursor.StandsBehind lexer.source front)
    (moves : lexer.Advances piece reached) :
    ∃ front, reached.cursor.StandsBehind reached.source front := by
  obtain ⟨front, stands⟩ := h
  rw [moves.source]
  exact ⟨_, stands.advances moves.cursor⟩

private theorem standsBehind_of_next {lexer reached : Lexer} {ahead : Option Token}
    (h : ∃ front, lexer.cursor.StandsBehind lexer.source front)
    (next : lexer.next = (.ok ahead, reached)) :
    ∃ front, reached.cursor.StandsBehind reached.source front := by
  cases ahead with
  | none =>
    obtain ⟨gap, moves⟩ := Lexer.advances_end next
    exact standsBehind_of_advances h moves
  | some token =>
    obtain ⟨⟨gap, moves⟩, -⟩ := Lexer.advances_next next
    exact standsBehind_of_advances h moves

/-- At its start, a stream is in place, and it stays so while its tokens are taken. -/
theorem inPlace_ofLexer {file source : String}
    (start : TokenStream.ofLexer (.ofSource file source) = .ok stream) : stream.InPlace where
  cursor := standsBehind_of_next ⟨[], .ofText source⟩ (Lexer.next_of_ofLexer start)
  sound := (Lexer.consistent_ofLexer (Lexer.consistent_ofSource file source) start).sound

theorem InPlace.takes (h : stream.InPlace) (takes : stream.Takes token behind) :
    behind.InPlace where
  cursor := standsBehind_of_next h.cursor takes.next
  sound := (h.consistent.takes takes).1.sound

theorem InPlace.reads {terminals : List Grammar.Terminal} (h : stream.InPlace)
    (reads : stream.Reads terminals behind) : behind.InPlace := by
  induction reads with
  | nil => exact h
  | cons takes _ ih => exact ih (h.takes takes)

/-! ### What a stream gives -/

/-- A stream gives its tokens in one way only. -/
theorem Gives.unique (gives : stream.Gives tokens fault) :
    ∀ {tokens'}, stream.Gives tokens' fault' → tokens = tokens' ∧ fault = fault' := by
  induction gives with
  | ended none =>
    intro tokens' gives'
    have ahead := gives'.lookahead_eq
    rw [none, eq_comm, List.head?_eq_none_iff] at ahead
    subst ahead
    exact ⟨rfl, gives'.fault_eq_none.symm⟩
  | faulty ahead fails =>
    intro tokens' gives'
    cases gives' with
    | ended none => simp [none] at ahead
    | faulty ahead' fails' =>
      obtain rfl := Option.some.inj (ahead.symm.trans ahead')
      obtain ⟨same, -⟩ := Prod.mk.inj (fails.symm.trans fails')
      exact ⟨rfl, congrArg some (Except.error.inj same)⟩
    | taken takes _ => exact absurd (fails.symm.trans takes.next) (by simp)
  | taken takes _ ih =>
    intro tokens' gives'
    obtain ⟨more, rfl, rest⟩ := gives'.takes takes
    obtain ⟨rfl, rfl⟩ := ih rest
    exact ⟨rfl, rfl⟩

/-- What is given up to the end can be read up to the end. -/
theorem Gives.exists_reads (gives : stream.Gives tokens fault) (noFault : fault = none) :
    ∃ behind, stream.Reads (tokens.map Token.terminal) behind ∧ behind.next? = none := by
  induction gives with
  | @ended stream none => exact ⟨stream, .nil stream, by simp [next?, none]⟩
  | faulty => cases noFault
  | taken takes _ ih =>
    obtain ⟨behind, reads, atEnd⟩ := ih noFault
    exact ⟨behind, .cons takes reads, atEnd⟩

/-- A stream gives its look-ahead, and what the text behind its lexer scans to. -/
theorem gives_of_scans {file : String} {front text : List Char}
    (scans : Scans file front text tokens fault) : ∀ (lexer : Lexer) (ahead : Token)
    (lastLine : Nat), lexer.file = file →
      lexer.cursor = { rest := text, position := .behind front } →
      Gives { lexer, lookahead := some ahead, lastLine } (ahead :: tokens) fault := by
  induction scans with
  | done isGap =>
    intro lexer ahead lastLine _ atGap
    obtain ⟨reached, next⟩ := Lexer.next_of_done isGap atGap
    have takes : Takes { lexer, lookahead := some ahead, lastLine } ahead
        { lexer := reached, lookahead := none, lastLine := ahead.line } := ⟨rfl, next, rfl⟩
    exact .taken takes (.ended rfl)
  | fault isGap faulty =>
    rintro lexer ahead lastLine rfl atGap
    obtain ⟨reached, next⟩ := Lexer.next_of_faulty isGap faulty atGap
    exact .faulty rfl next
  | @token front gap piece behind kind token tokens fault isGap lexeme covers rest ih =>
    intro lexer ahead lastLine ofFile atGap
    have next := Lexer.next_of_lexeme isGap lexeme covers atGap
    refine .taken ⟨rfl, next, rfl⟩ (ih { lexer with
      cursor := { rest := behind, position := .behind (front ++ gap ++ piece) }
      current := some token } token ahead.line ofFile rfl)

/-! ### Excerpts -/

/-- A text can be cut behind any number of its tokens. -/
theorem exists_scans_cut {file : String} {front text : List Char} {seen more : List Token}
    (scans : Scans file front text (seen ++ more) fault) :
    ∃ text', Scans file front text' seen none := by
  rcases List.eq_nil_or_concat seen with rfl | ⟨taken, last, rfl⟩
  · exact ⟨[], .done .nil⟩
  · -- Behind the last token nothing follows that could become a part of it.
    have all : taken.concat last ++ more = taken ++ last :: more := by simp
    obtain ⟨before, -, -, goesOn⟩ := scans.cut all
    obtain ⟨tokens, scans', none⟩ := goesOn [] (by simp)
    obtain rfl : tokens = [] := by simpa using none
    exact ⟨_, by simpa using scans'⟩

/-- **Excerpts.** A stream that gives some tokens and then others can be exchanged for one that
gives the first of them only. It stands on the same line of a source with the same name. -/
theorem InPlace.exists_excerpt {seen more : List Token} (h : stream.InPlace)
    (gives : stream.Gives (seen ++ more) fault) (nonempty : seen ≠ []) :
    ∃ excerpt : TokenStream, excerpt.InPlace ∧ excerpt.Gives seen none ∧
      excerpt.lexer.file = stream.lexer.file ∧ excerpt.lastLine = stream.lastLine := by
  obtain ⟨first, seen, rfl⟩ := List.exists_cons_of_ne_nil nonempty
  obtain ⟨front, stands⟩ := h.cursor
  have ahead : stream.lookahead = some first := gives.lookahead_eq
  -- The tokens behind the look-ahead are those of the text that the lexer has not read yet.
  obtain ⟨tokens, fault', scans⟩ := exists_scans stream.lexer.file front stream.lexer.cursor.rest
  have atText : stream.lexer.cursor =
      { rest := stream.lexer.cursor.rest, position := .behind front } := by
    rw [← stands.position]
  have all := gives_of_scans scans stream.lexer first stream.lastLine rfl atText
  rw [← ahead] at all
  obtain ⟨same, rfl⟩ := gives.unique all
  obtain rfl : seen ++ more = tokens := (List.cons.inj same).2
  obtain ⟨text, scans'⟩ := exists_scans_cut scans
  -- The lexer stays where it is, and only the text behind it is exchanged.
  refine ⟨{ stream with
    lexer := { stream.lexer with
      source := String.ofList (front ++ text)
      cursor := { rest := text, position := .behind front } } }, ⟨?_, h.sound⟩, ?_, rfl, rfl⟩
  · exact ⟨front, .of_position (String.toList_ofList ..) rfl⟩
  · rw [ahead]
    exact gives_of_scans scans' _ first stream.lastLine rfl rfl

end JackCompiler.TokenStream
