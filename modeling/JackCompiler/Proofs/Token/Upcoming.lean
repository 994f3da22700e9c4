import JackCompiler.Proofs.Token.Reader
import JackCompiler.Proofs.Token.Scanning

/-!
# What a stream still gives

A stream gives its tokens one by one. Which tokens it will give, and whether a lexical fault stands
behind them, is settled by what is left of the source, before any of them is taken.

## Main definitions

* `Token.wording`, `TokenStream.upcoming` — a token and the look-ahead without their places
* `TokenStream.Gives` — the tokens that a stream gives, and the fault that ends them
* `sourceTokens`, `sourceFault` — those of a source

## Main results

* `Lexer.gives_toEnd` — a stream gives the tokens of its source
* `TokenStream.Gives.run_next` — taking the next of them, or meeting the fault behind it
* `TokenStream.Gives.reads` — what is left behind some of them
* `nodup_sourceTokens` — no token of a source is given twice
-/

namespace JackCompiler

/-- What a token says, wherever it stands. -/
def Token.wording (token : Token) : TokenKind × String :=
  (token.kind, token.text)

/-- Taking a token does not change the name of the source. -/
theorem Lexer.file_of_next {lexer behind : Lexer} {ahead : Option Token}
    (next : lexer.next = (.ok ahead, behind)) : behind.file = lexer.file := by
  cases ahead with
  | none =>
    obtain ⟨gap, moves⟩ := advances_end next
    exact moves.file
  | some token =>
    obtain ⟨⟨gap, moves⟩, -⟩ := advances_next next
    exact moves.file

namespace TokenStream

/-- What the look-ahead says. -/
def upcoming (stream : TokenStream) : Option (TokenKind × String) :=
  stream.lookahead.map Token.wording

section Views

variable {a b : TokenStream} (same : a.upcoming = b.upcoming)

include same

theorem kind?_congr : a.kind? = b.kind? := by
  have view (stream : TokenStream) : stream.kind? = stream.upcoming.map Prod.fst := by
    simp [kind?, upcoming, Token.wording, Function.comp_def]
  rw [view, view, same]

theorem keyword?_congr : a.keyword? = b.keyword? :=
  Option.ext fun word => by
    rw [keyword?_eq_some, keyword?_eq_some, ← kind?_eq_keyword, ← kind?_eq_keyword,
      kind?_congr same]

theorem symbol?_congr : a.symbol? = b.symbol? :=
  Option.ext fun c => by
    rw [symbol?_eq_some, symbol?_eq_some, ← kind?_eq_symbol, ← kind?_eq_symbol, kind?_congr same]

theorem atSymbol_congr (c : Char) : a.atSymbol c = b.atSymbol c := by
  rw [atSymbol, atSymbol, symbol?_congr same]

theorem isSome_lookahead_congr : a.lookahead.isSome = b.lookahead.isSome := by
  simpa [upcoming] using congrArg Option.isSome same

end Views

/-- The tokens that a stream gives if they are taken one after the other, and the lexical fault that
is met when the last of them is taken, unless there is none. -/
inductive Gives : TokenStream → List Token → Option (Located LexicalFault) → Prop where
  | ended {stream : TokenStream} : stream.lookahead = none → Gives stream [] none
  | faulty {stream : TokenStream} {token : Token} {fault : Located LexicalFault} {lexer : Lexer} :
    stream.lookahead = some token → stream.lexer.next = (.error fault, lexer) →
      Gives stream [token] (some fault)
  | taken {stream behind : TokenStream} {token : Token} {tokens : List Token}
    {fault : Option (Located LexicalFault)} :
    stream.Takes token behind → Gives behind tokens fault → Gives stream (token :: tokens) fault

variable {stream behind : TokenStream} {token : Token} {tokens : List Token}
  {fault : Option (Located LexicalFault)}

theorem Takes.file_eq (takes : stream.Takes token behind) :
    behind.lexer.file = stream.lexer.file :=
  Lexer.file_of_next takes.next

theorem Gives.lookahead_eq (gives : stream.Gives tokens fault) :
    stream.lookahead = tokens.head? := by
  cases gives with
  | ended none => exact none
  | faulty ahead _ => exact ahead
  | taken takes _ => exact takes.lookahead

/-- A fault stands behind a token. -/
theorem Gives.fault_eq_none (gives : stream.Gives [] fault) : fault = none := by
  cases gives
  rfl

/-- A token is taken, or the fault behind it is met, and then there are no more tokens. -/
theorem Gives.run_next (gives : stream.Gives (token :: tokens) fault) :
    (∃ behind, TokenReader.next.run.run stream = (.ok token, behind) ∧ behind.Gives tokens fault) ∨
      ∃ behind cause, TokenReader.next.run.run stream = (.error (.lexical cause), behind) ∧
        tokens = [] ∧ fault = some cause ∧ behind.Gives [] none := by
  cases gives with
  | @faulty _ _ cause lexer ahead fails =>
    refine .inr ⟨{ lexer, lookahead := none, lastLine := token.line }, cause, ?_, rfl, rfl,
      .ended rfl⟩
    rw [TokenReader.run_next_eq, ahead, fails]
  | taken takes rest => exact .inl ⟨_, TokenReader.run_next.mpr takes, rest⟩

/-- What is behind a token is what the stream gives after it. -/
theorem Gives.takes (gives : stream.Gives tokens fault) (takes : stream.Takes token behind) :
    ∃ more, tokens = token :: more ∧ behind.Gives more fault := by
  have ahead := gives.lookahead_eq.symm.trans takes.lookahead
  obtain ⟨more, rfl⟩ := List.head?_eq_some_iff.mp ahead
  refine ⟨more, rfl, ?_⟩
  obtain ⟨behind', run, rest⟩ | ⟨_, _, run, -⟩ := gives.run_next
  · obtain ⟨-, rfl⟩ := takes.unique (TokenReader.run_next.mp run)
    exact rest
  · rw [TokenReader.run_next.mpr takes] at run
    cases run

/-- What is read is the first part of what a stream gives. -/
theorem Gives.reads {terminals : List Grammar.Terminal} (reads : stream.Reads terminals behind) :
    ∀ {tokens : List Token}, stream.Gives tokens fault → ∃ taken more,
      tokens = taken ++ more ∧ taken.map Token.terminal = terminals ∧ behind.Gives more fault ∧
        behind.lexer.file = stream.lexer.file ∧
        behind.lastLine = (taken.getLast?.map Token.line).getD stream.lastLine := by
  induction reads with
  | nil stream =>
    intro tokens gives
    exact ⟨[], tokens, rfl, rfl, gives, rfl, rfl⟩
  | cons takes _ ih =>
    intro tokens gives
    obtain ⟨tokens, rfl, rest⟩ := gives.takes takes
    obtain ⟨taken, more, rfl, terminals, gives', file, line⟩ := ih rest
    refine ⟨_ :: taken, more, rfl, congrArg _ terminals, gives', file.trans takes.file_eq, ?_⟩
    -- The last token is the first one if there are no others.
    rw [line, takes.lastLine, List.getLast?_cons]
    cases taken.getLast? <;> rfl

end TokenStream

namespace Lexer

open TokenStream

private theorem gives_readFrom {bound : Nat} :
    ∀ {lexer behind : Lexer} {ahead : Option Token}, lexer.Consistent → lexer.bytesLeft < bound →
      lexer.next = (.ok ahead, behind) → ∀ (read : Array Token) (lastLine : Nat), ∃ tokens,
        TokenStream.Gives { lexer := behind, lookahead := ahead, lastLine } tokens
          (readFrom read bound lexer).fault ∧
        (readFrom read bound lexer).tokens.toList = read.toList ++ tokens := by
  induction bound with
  | zero =>
    intro lexer behind ahead _ left
    omega
  | succ bound ih =>
    intro lexer behind ahead consistent left next read lastLine
    cases ahead with
    | none => exact ⟨[], by simpa [readFrom, next] using .ended rfl, by simp [readFrom, next]⟩
    | some token =>
      obtain ⟨consistent', fewer, -⟩ := consistent.next next
      rw [Option.toList_some, List.length_singleton] at fewer
      simp only [readFrom, next]
      -- The token is in the stream already, and the lexer of the stream reads on behind it.
      cases next' : behind.next with
      | mk result final =>
        cases result with
        | error fault =>
          obtain ⟨bound, rfl⟩ : ∃ n, bound = n + 1 := ⟨bound - 1, by omega⟩
          exact ⟨[token], by simpa [readFrom, next'] using .faulty rfl next',
            by simp [readFrom, next']⟩
        | ok ahead =>
          obtain ⟨tokens, gives, all⟩ :=
            ih consistent' (by omega) next' (read.push token) token.line
          exact ⟨token :: tokens, .taken ⟨rfl, next', rfl⟩ gives, by simpa using all⟩

/-- A stream gives the tokens of its source up to the end or the first fault. -/
theorem gives_toEnd {lexer : Lexer} {stream : TokenStream} (consistent : lexer.Consistent)
    (start : TokenStream.ofLexer lexer = .ok stream) :
    stream.Gives lexer.toEnd.tokens.toList lexer.toEnd.fault := by
  obtain ⟨tokens, gives, all⟩ := gives_readFrom consistent (Nat.lt_succ_self _)
    (next_of_ofLexer start) #[] stream.lastLine
  rw [toEnd, all]
  exact gives

/-- A source that begins with a fault has no tokens. -/
theorem toEnd_of_ofLexer_error {lexer : Lexer} {fault : Located LexicalFault}
    (start : TokenStream.ofLexer lexer = .error fault) :
    lexer.toEnd.tokens = #[] ∧ lexer.toEnd.fault = some fault := by
  unfold TokenStream.ofLexer at start
  split at start
  · cases start
  · rename_i fault lexer' next
    cases start
    simp [toEnd, readFrom, next]

/-- In front of the first token, a stream stands on the first line of its source. -/
theorem start_of_ofLexer {lexer : Lexer} {stream : TokenStream}
    (start : TokenStream.ofLexer lexer = .ok stream) :
    stream.lastLine = 1 ∧ stream.lexer.file = lexer.file := by
  refine ⟨?_, file_of_next (next_of_ofLexer start)⟩
  unfold TokenStream.ofLexer at start
  split at start
  · cases start
    rfl
  · cases start

end Lexer

/-! ### Tokens of a source -/

/-- All tokens of a source up to its end or its first fault. -/
def sourceTokens (file source : String) : List Token :=
  (Lexer.ofSource file source).toEnd.tokens.toList

/-- The first lexical fault of a source, if there is one. -/
def sourceFault (file source : String) : Option (Located LexicalFault) :=
  (Lexer.ofSource file source).toEnd.fault

/-- A source can be read from its first token on, or it has no token in front of its first fault. -/
theorem gives_or_faulty (file source : String) :
    (∃ stream, TokenStream.ofLexer (.ofSource file source) = .ok stream ∧ stream.Consistent ∧
      stream.Gives (sourceTokens file source) (sourceFault file source)) ∨
    ∃ cause, TokenStream.ofLexer (.ofSource file source) = .error cause ∧
      sourceTokens file source = [] ∧ sourceFault file source = some cause := by
  have consistent := Lexer.consistent_ofSource file source
  cases start : TokenStream.ofLexer (.ofSource file source) with
  | ok stream =>
    exact .inl ⟨stream, rfl, Lexer.consistent_ofLexer consistent start,
      Lexer.gives_toEnd consistent start⟩
  | error cause =>
    obtain ⟨none, faulty⟩ := Lexer.toEnd_of_ofLexer_error start
    exact .inr ⟨cause, rfl, by rw [sourceTokens, none], faulty⟩

variable {file : String} {front text : List Char} {tokens : List Token}
  {fault : Option (Located LexicalFault)}

theorem Token.Covers.index_eq {token : Token} {kind : TokenKind} {piece : List Char}
    (covers : token.Covers kind front piece) : token.index = byteLength front :=
  congrArg Span.index covers.span

/-- The tokens behind a front of a source stand behind all its bytes. -/
theorem Scans.le_index (scans : Scans file front text tokens fault) :
    ∀ token ∈ tokens, byteLength front ≤ token.index := by
  induction scans with
  | done | fault => simp
  | token _ _ covers _ ih =>
    rw [List.forall_mem_cons]
    refine ⟨by simp [covers.index_eq, byteLength_append], fun token mem => ?_⟩
    have := ih token mem
    simp only [byteLength_append] at this
    omega

/-- The tokens of a source stand at different places, from left to right. -/
theorem Scans.pairwise_index (scans : Scans file front text tokens fault) :
    tokens.Pairwise (·.index < ·.index) := by
  induction scans with
  | done | fault => exact .nil
  | @token front gap piece behind kind token tokens fault _ lexeme covers rest ih =>
    refine .cons (fun later mem => ?_) ih
    have nonempty := List.length_pos_iff.mpr lexeme.ne_nil
    have bytes := length_le_byteLength piece
    have behind := rest.le_index later mem
    rw [byteLength_append] at behind
    rw [covers.index_eq]
    omega

/-- No token of a source is given twice. -/
theorem nodup_sourceTokens (file source : String) : (sourceTokens file source).Nodup := by
  refine (Lexer.scans_toEnd file source).pairwise_index.imp ?_
  rintro token later before rfl
  exact Nat.lt_irrefl _ before

end JackCompiler
