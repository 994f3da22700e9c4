import JackCompiler.Proofs.Grammar.Tree
import JackCompiler.Proofs.Token.Progress

/-!
# Tokens that are taken from a stream

A run of a compiler takes tokens one by one. What it takes is compared with the grammar as a list of
terminals, and with the source as the list of all its tokens.

## Main definitions

* `TokenStream.Takes`, `TokenStream.Reads` — one or more tokens are taken
* `TokenStream.Consistent` — what every stream made from a source satisfies

## Main results

* `TokenStream.Reads.tokensLeft_le` — the bound on the tokens left goes down with each of them
* `Lexer.reads_toEnd`, `Lexer.toEnd_of_reads` — a stream that is read to its end has given all
  tokens of the source
-/

namespace JackCompiler

open Grammar (Terminal)

namespace TokenStream

/-- The terminal that comes next. -/
def next? (stream : TokenStream) : Option Terminal :=
  stream.lookahead.map Token.terminal

/-- The second stream is what is left of the first behind its look-ahead, the given token. -/
structure Takes (stream : TokenStream) (token : Token) (behind : TokenStream) : Prop where
  lookahead : stream.lookahead = some token
  next : stream.lexer.next = (.ok behind.lookahead, behind.lexer)
  lastLine : behind.lastLine = token.line

/-- The second stream is what is left of the first behind tokens with the given terminals. -/
inductive Reads : TokenStream → List Terminal → TokenStream → Prop where
  | nil (stream : TokenStream) : Reads stream [] stream
  | cons {stream middle behind : TokenStream} {token : Token} {terminals : List Terminal} :
    stream.Takes token middle → Reads middle terminals behind →
      Reads stream (token.terminal :: terminals) behind

variable {stream middle behind : TokenStream} {token : Token} {terminal : Terminal}
  {terminals more : List Terminal}

theorem reads_nil : stream.Reads [] behind ↔ behind = stream := by
  constructor
  · rintro ⟨⟩
    rfl
  · rintro rfl
    exact .nil behind

theorem reads_cons : stream.Reads (terminal :: terminals) behind ↔
    ∃ token middle, stream.Takes token middle ∧ token.terminal = terminal ∧
      middle.Reads terminals behind := by
  constructor
  · rintro (_ | ⟨takes, reads⟩)
    exact ⟨_, _, takes, rfl, reads⟩
  · rintro ⟨token, middle, takes, rfl, reads⟩
    exact .cons takes reads

theorem reads_singleton : stream.Reads [terminal] behind ↔
    ∃ token, stream.Takes token behind ∧ token.terminal = terminal := by
  simp [reads_cons, reads_nil]

theorem reads_append : stream.Reads (terminals ++ more) behind ↔
    ∃ middle, stream.Reads terminals middle ∧ middle.Reads more behind := by
  induction terminals generalizing stream with
  | nil => simp [reads_nil]
  | cons terminal terminals ih =>
    simp only [List.cons_append, reads_cons, ih]
    grind

theorem Reads.append (h : stream.Reads terminals middle) (h' : middle.Reads more behind) :
    stream.Reads (terminals ++ more) behind :=
  reads_append.mpr ⟨middle, h, h'⟩

theorem Takes.reads (h : stream.Takes token behind) : stream.Reads [token.terminal] behind :=
  reads_singleton.mpr ⟨token, h, rfl⟩

/-- What is read begins with what comes next. -/
theorem Reads.next?_eq (h : stream.Reads (terminal :: terminals) behind) :
    stream.next? = some terminal := by
  obtain ⟨token, middle, takes, rfl, -⟩ := reads_cons.mp h
  simp [next?, takes.lookahead]

/-- What comes next after some terminals is the next of those that are read on. -/
theorem Reads.next?_middle (h : stream.Reads terminals behind) :
    stream.next? = (terminals.head?).or behind.next? := by
  cases terminals with
  | nil =>
    obtain rfl := reads_nil.mp h
    simp
  | cons terminal terminals => simp [h.next?_eq]

/-- The position of the lexer is right, and the look-ahead is a token that a lexer has taken. -/
structure Consistent (stream : TokenStream) : Prop where
  lexer : stream.lexer.Consistent
  sound : ∀ token ∈ stream.lookahead, token.Sound

/-- Taking a token leaves a consistent stream with fewer tokens. -/
theorem Consistent.takes (h : stream.Consistent) (takes : stream.Takes token behind) :
    behind.Consistent ∧ behind.tokensLeft < stream.tokensLeft := by
  obtain ⟨consistent, fewer, sound⟩ := h.lexer.next takes.next
  refine ⟨⟨consistent, sound⟩, ?_⟩
  -- The bound counts the look-ahead as one token more than what the lexer has left.
  cases ahead : behind.lookahead with
  | none =>
    simp only [ahead, Option.toList_none, List.length_nil] at fewer
    simp only [tokensLeft, takes.lookahead, ahead]
    omega
  | some token' =>
    simp only [ahead, Option.toList_some, List.length_singleton] at fewer
    simp only [tokensLeft, takes.lookahead, ahead]
    omega

theorem Consistent.reads (h : stream.Consistent) (reads : stream.Reads terminals behind) :
    behind.Consistent := by
  induction reads with
  | nil => exact h
  | cons takes _ ih => exact ih (h.takes takes).1

/-- Each token that is read lowers the bound on the tokens left. -/
theorem Reads.tokensLeft_le (reads : stream.Reads terminals behind) (h : stream.Consistent) :
    behind.tokensLeft + terminals.length ≤ stream.tokensLeft := by
  induction reads with
  | nil => simp
  | cons takes _ ih =>
    have := ih (h.takes takes).1
    have := (h.takes takes).2
    simp only [List.length_cons]
    omega

/-- The stream behind some tokens depends on their number only. -/
theorem Takes.unique {token' : Token} {behind' : TokenStream} (h : stream.Takes token behind)
    (h' : stream.Takes token' behind') : token = token' ∧ behind = behind' := by
  have tokens := h.lookahead.symm.trans h'.lookahead
  have next := h.next.symm.trans h'.next
  have lines := h.lastLine
  have lines' := h'.lastLine
  cases behind
  cases behind'
  simp_all

end TokenStream

namespace Lexer

open TokenStream

/-- The first token of a stream is the one that its lexer takes first. -/
theorem next_of_ofLexer {lexer : Lexer} {stream : TokenStream}
    (start : TokenStream.ofLexer lexer = .ok stream) :
    lexer.next = (.ok stream.lookahead, stream.lexer) := by
  unfold TokenStream.ofLexer at start
  split at start
  · rename_i ahead lexer' next
    cases start
    exact next
  · cases start

/-- A reading from a given lexer on. -/
private theorem readFrom_of_reads {stream behind : TokenStream} {terminals : List Terminal}
    (reads : stream.Reads terminals behind) (atEnd : behind.next? = none) :
    ∀ (lexer : Lexer) (read : Array Token) (bound : Nat), lexer.Consistent →
      lexer.next = (.ok stream.lookahead, stream.lexer) → lexer.bytesLeft < bound →
      (readFrom read bound lexer).fault = none ∧
        (readFrom read bound lexer).tokens.toList.map Token.terminal =
          read.toList.map Token.terminal ++ terminals := by
  -- The lexer stands one token in front of the stream, and both take the next token at once.
  induction reads with
  | nil stream =>
    intro lexer read bound _ next left
    obtain ⟨bound, rfl⟩ : ∃ n, bound = n + 1 := ⟨bound - 1, by omega⟩
    have none : stream.lookahead = none := by simpa [next?] using atEnd
    simp [readFrom, next, none]
  | @cons stream middle behind token terminals takes reads ih =>
    intro lexer read bound consistent next left
    obtain ⟨bound, rfl⟩ : ∃ n, bound = n + 1 := ⟨bound - 1, by omega⟩
    rw [takes.lookahead] at next
    obtain ⟨consistent', fewer, -⟩ := consistent.next next
    rw [Option.toList_some, List.length_singleton] at fewer
    have rest := ih atEnd _ (read.push token) bound consistent' takes.next (by omega)
    simpa [readFrom, next] using rest

/-- A stream that is read to its end has given all tokens of its source. -/
theorem toEnd_of_reads {lexer : Lexer} {stream behind : TokenStream} {terminals : List Terminal}
    (consistent : lexer.Consistent) (start : TokenStream.ofLexer lexer = .ok stream)
    (reads : stream.Reads terminals behind) (atEnd : behind.next? = none) :
    lexer.toEnd.fault = none ∧ lexer.toEnd.tokens.toList.map Token.terminal = terminals := by
  simpa [toEnd] using readFrom_of_reads reads atEnd lexer #[] _ consistent
    (next_of_ofLexer start) (Nat.lt_succ_self _)

private theorem reads_of_readFrom {bound : Nat} :
    ∀ {lexer : Lexer} {read : Array Token}, lexer.Consistent → lexer.bytesLeft < bound →
      (readFrom read bound lexer).fault = none →
      ∃ ahead lexer', lexer.next = (.ok ahead, lexer') ∧ ∀ lastLine, ∃ terminals behind,
        TokenStream.Reads { lexer := lexer', lookahead := ahead, lastLine } terminals behind ∧
          behind.next? = none ∧
          (readFrom read bound lexer).tokens.toList.map Token.terminal =
            read.toList.map Token.terminal ++ terminals := by
  -- The line of the last token depends on the token before, so it stays open until a first token is
  -- put in front.
  induction bound with
  | zero =>
    intro lexer read _ left
    omega
  | succ bound ih =>
    intro lexer read consistent left noFault
    rw [readFrom] at noFault ⊢
    split at noFault
    · rename_i token lexer' next
      obtain ⟨consistent', fewer, -⟩ := consistent.next next
      rw [Option.toList_some, List.length_singleton] at fewer
      obtain ⟨ahead, lexer'', next', rest⟩ := ih consistent' (by omega) noFault
      refine ⟨some token, lexer', next, fun lastLine => ?_⟩
      obtain ⟨terminals, behind, reads, atEnd, tokens⟩ := rest token.line
      exact ⟨token.terminal :: terminals, behind, .cons ⟨rfl, next', rfl⟩ reads, atEnd, by
        simpa [next] using tokens⟩
    · rename_i lexer' next
      exact ⟨none, lexer', next, fun lastLine => ⟨[], _, .nil _, rfl, by simp⟩⟩
    · cases noFault

/-- A source without a lexical fault can be read to its end. -/
theorem reads_toEnd {lexer : Lexer} (consistent : lexer.Consistent)
    (noFault : lexer.toEnd.fault = none) : ∃ stream behind,
      TokenStream.ofLexer lexer = .ok stream ∧
      stream.Reads (lexer.toEnd.tokens.toList.map Token.terminal) behind ∧
      behind.next? = none := by
  obtain ⟨ahead, lexer', next, rest⟩ :=
    reads_of_readFrom consistent (Nat.lt_succ_self _) noFault
  obtain ⟨terminals, behind, reads, atEnd, tokens⟩ := rest 1
  refine ⟨{ lexer := lexer', lookahead := ahead }, behind, ?_, ?_, atEnd⟩
  · simp [TokenStream.ofLexer, next]
  · rw [toEnd, tokens]
    simpa using reads

/-- The stream at the start of a source is consistent. -/
theorem consistent_ofLexer {lexer : Lexer} {stream : TokenStream} (consistent : lexer.Consistent)
    (start : TokenStream.ofLexer lexer = .ok stream) : stream.Consistent := by
  obtain ⟨consistent', -, sound⟩ := consistent.next (next_of_ofLexer start)
  exact ⟨consistent', sound⟩

end Lexer

end JackCompiler
