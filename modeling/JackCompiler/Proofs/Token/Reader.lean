import JackCompiler.Proofs.Token.Taking

/-!
# Steps that take tokens

A reader that succeeds has taken the token it was to take, or has found that another one comes next.
What a stream shows of its look-ahead is read off the terminal that comes next.

## Main results

* `TokenStream.symbol?_eq_some`, `TokenStream.keyword?_eq_some` — views of the look-ahead
* `TokenReader.run_next`, `TokenReader.run_expect`, `TokenReader.run_accept` — runs of readers
-/

namespace JackCompiler

open Grammar (Terminal)

namespace Token

variable {token : Token}

theorem terminal_eq_symbol {c : Char} : token.terminal = .symbol c ↔ token.kind = .symbol c := by
  unfold terminal
  split <;> simp_all

theorem terminal_eq_keyword {word : Keyword} :
    token.terminal = .keyword word ↔ token.kind = .keyword word := by
  unfold terminal
  split <;> simp_all

theorem terminal_eq_identifier {name : String} :
    token.terminal = .identifier name ↔ token.kind = .identifier ∧ token.text = name := by
  unfold terminal
  split <;> simp_all

theorem terminal_eq_integer {digits : String} :
    token.terminal = .integer digits ↔ token.kind = .integer ∧ token.text = digits := by
  unfold terminal
  split <;> simp_all

theorem terminal_eq_string {contents : List Char} :
    token.terminal = .string contents ↔
      token.kind = .string ∧ unquote token.text.toList = contents := by
  unfold terminal
  split <;> simp_all

end Token

namespace TokenStream

variable {stream behind : TokenStream} {token : Token}

theorem next?_eq_none : stream.next? = none ↔ stream.lookahead = none := by
  simp [next?]

theorem symbol?_eq_some {c : Char} :
    stream.symbol? = some c ↔ stream.next? = some (.symbol c) := by
  cases ahead : stream.lookahead with
  | none => simp [symbol?, next?, ahead]
  | some token =>
    simp only [symbol?, next?, ahead, Option.bind_some, Option.map_some, Option.some.injEq,
      Token.terminal_eq_symbol, Token.symbol?]
    split <;> simp_all

theorem keyword?_eq_some {word : Keyword} :
    stream.keyword? = some word ↔ stream.next? = some (.keyword word) := by
  cases ahead : stream.lookahead with
  | none => simp [keyword?, next?, ahead]
  | some token =>
    simp only [keyword?, next?, ahead, Option.bind_some, Option.map_some, Option.some.injEq,
      Token.terminal_eq_keyword, Token.keyword?]
    split <;> simp_all

theorem atSymbol_eq_true {c : Char} :
    stream.atSymbol c = true ↔ stream.next? = some (.symbol c) := by
  simp [atSymbol, symbol?_eq_some]

theorem kind?_eq_symbol {c : Char} :
    stream.kind? = some (.symbol c) ↔ stream.next? = some (.symbol c) := by
  cases ahead : stream.lookahead <;> simp [kind?, next?, ahead, Token.terminal_eq_symbol]

theorem kind?_eq_keyword {word : Keyword} :
    stream.kind? = some (.keyword word) ↔ stream.next? = some (.keyword word) := by
  cases ahead : stream.lookahead <;> simp [kind?, next?, ahead, Token.terminal_eq_keyword]

theorem kind?_eq_identifier :
    stream.kind? = some .identifier ↔ ∃ name, stream.next? = some (.identifier name) := by
  cases ahead : stream.lookahead <;> simp [kind?, next?, ahead, Token.terminal_eq_identifier]

end TokenStream

namespace TokenReader

variable {stream behind : TokenStream} {token : Token} {kind : TokenKind}

/-- The three ways in which taking the look-ahead goes. -/
theorem run_next_eq : next.run.run stream = match stream.lookahead with
    | none => (.error (stream.mismatch "more tokens"), stream)
    | some token => match stream.lexer.next with
      | (.ok lookahead, lexer) => (.ok token, { lexer, lookahead, lastLine := token.line })
      | (.error fault, lexer) =>
        (.error (.lexical fault), { lexer, lookahead := none, lastLine := token.line }) := by
  change (match stream.lookahead with
    | none => (throw (stream.mismatch "more tokens") : TokenReader Token)
    | some token => match stream.lexer.next with
      | (.ok lookahead, lexer) => (do
        set { lexer, lookahead, lastLine := token.line : TokenStream }
        return token)
      | (.error fault, lexer) => (do
        set { lexer, lookahead := none, lastLine := token.line : TokenStream }
        throw (.lexical fault)) : TokenReader Token).run.run stream = _
  split
  · rfl
  · split <;> rfl

/-- The look-ahead is taken if the token behind it can be read. -/
theorem run_next : next.run.run stream = (.ok token, behind) ↔ stream.Takes token behind := by
  rw [run_next_eq]
  constructor
  · intro h
    split at h
    · cases h
    · rename_i taken ahead
      split at h
      · rename_i lookahead lexer read
        cases h
        exact ⟨ahead, read, rfl⟩
      · cases h
  · intro takes
    have lastLine := takes.lastLine
    cases behind
    simp_all [takes.lookahead, takes.next]

theorem run_expect_eq : (expect kind).run.run stream =
    if stream.kind? == some kind then next.run.run stream
    else (.error (stream.mismatch kind.description), stream) := by
  change (if stream.kind? == some kind then next
    else throw (stream.mismatch kind.description) : TokenReader Token).run.run stream = _
  split <;> rfl

/-- A token of another kind is not taken. -/
theorem run_expect : (expect kind).run.run stream = (.ok token, behind) ↔
    token.kind = kind ∧ stream.Takes token behind := by
  rw [run_expect_eq]
  split
  · rename_i expected
    rw [run_next]
    refine ⟨fun takes => ⟨?_, takes⟩, fun h => h.2⟩
    simpa [TokenStream.kind?, takes.lookahead] using expected
  · rename_i unexpected
    constructor
    · intro h
      cases h
    · rintro ⟨same, takes⟩
      simp [TokenStream.kind?, takes.lookahead, same] at unexpected

/-- The reader for names is the one for a token of their kind, with the text taken out of the
answer. -/
theorem run_expectName_eq : expectName.run.run stream =
    match (expect .identifier).run.run stream with
    | (.ok token, behind) => (.ok token.text, behind)
    | (.error fault, behind) => (.error fault, behind) := by
  rw [expectName, ExceptT.run_bind, StateT.run_bind]
  rcases (expect .identifier).run.run stream with ⟨_ | token, middle⟩ <;> rfl

theorem run_expectName {name : String} : expectName.run.run stream = (.ok name, behind) ↔
    ∃ token, token.kind = .identifier ∧ token.text = name ∧ stream.Takes token behind := by
  rw [run_expectName_eq]
  constructor
  · intro h
    split at h
    · rename_i token middle taken
      cases h
      obtain ⟨kind, takes⟩ := run_expect.mp taken
      exact ⟨token, kind, rfl, takes⟩
    · cases h
  · rintro ⟨token, kind, rfl, takes⟩
    rw [run_expect.mpr ⟨kind, takes⟩]

/-- Taking the look-ahead may still fail, at the token behind it. -/
theorem run_accept_eq : (accept kind).run.run stream =
    if stream.kind? == some kind then
      match next.run.run stream with
      | (.ok _, behind) => (.ok true, behind)
      | (.error fault, behind) => (.error fault, behind)
    else (.ok false, stream) := by
  change (if stream.kind? == some kind then (do
      let _ ← next
      return true)
    else return false : TokenReader Bool).run.run stream = _
  split
  · rw [ExceptT.run_bind, StateT.run_bind]
    rcases next.run.run stream with ⟨_ | token, middle⟩ <;> rfl
  · rfl

/-- A token of another kind is left, and the reader tells so. -/
theorem run_accept {answer : Bool} : (accept kind).run.run stream = (.ok answer, behind) ↔
    answer = true ∧ (∃ token, token.kind = kind ∧ stream.Takes token behind) ∨
      answer = false ∧ stream.kind? ≠ some kind ∧ behind = stream := by
  rw [run_accept_eq]
  split
  · rename_i expected
    constructor
    · intro h
      split at h
      · rename_i token middle taken
        cases h
        have takes := run_next.mp taken
        exact .inl ⟨rfl, token, by simpa [TokenStream.kind?, takes.lookahead] using expected, takes⟩
      · cases h
    · rintro (⟨rfl, token, -, takes⟩ | ⟨-, unexpected, -⟩)
      · rw [run_next.mpr takes]
      · simp_all
  · rename_i unexpected
    constructor
    · intro h
      cases h
      exact .inr ⟨rfl, by simpa using unexpected, rfl⟩
    · rintro (⟨-, token, same, takes⟩ | ⟨rfl, -, rfl⟩)
      · simp [TokenStream.kind?, takes.lookahead, same] at unexpected
      · rfl

end TokenReader

end JackCompiler
