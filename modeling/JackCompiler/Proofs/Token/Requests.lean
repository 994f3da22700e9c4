import JackCompiler.Proofs.Token.Upcoming
import Mathlib.Data.List.Forall2

/-!
# Requests to a stream

A stream may be asked for its look-ahead in many ways, and to take it on many conditions, in any
order. However it is asked, it delivers the tokens of its source one after the other, and none of
them twice. The token in front of a lexical fault is the one exception: it is taken when the fault
is met, and the fault is the answer.

## Main definitions

* `StreamQuery`, `StreamDemand` — what can be asked about the look-ahead, and the ways to take it
* `TokenStream.serve`, `TokenStream.serveAll` — requests and what is answered to them
* `Exchange.Shows` — an answer that shows the token that was taken
* `TokenStream.Delivers` — what has been delivered in answer to requests, and what comes next

## Main results

* `StreamDemand.run_reader` — the look-ahead is taken if it is wanted, and else nothing changes
* `TokenStream.Stands.serve` — what one request keeps
* `TokenStream.delivers_serveAll` — a stream delivers the tokens of its source once and in order
-/

namespace JackCompiler

/-! ### Requests and answers -/

/-- What a stream answers to a request that does not fail. -/
inductive StreamAnswer where
  | token (token : Option Token)
  | keyword (word : Option Keyword)
  | symbol (c : Option Char)
  | flag (holds : Bool)
  | number (value : Option Nat)
  | text (text : Option String)
  | location (location : Location)
  | fault (fault : Fault)
deriving DecidableEq, Repr, Inhabited

/-- What can be asked about the look-ahead. -/
inductive StreamQuery where
  | lookahead
  | keyword
  | symbol
  | atSymbol (c : Char)
  | integerValue
  | stringValue
  | location
  /-- The fault that something else was expected. -/
  | mismatch (expected : String)
deriving DecidableEq, Repr, Inhabited

/-- The answer to a question about the look-ahead. -/
def StreamQuery.answer (stream : TokenStream) : StreamQuery → StreamAnswer
  | .lookahead => .token stream.lookahead
  | .keyword => .keyword stream.keyword?
  | .symbol => .symbol stream.symbol?
  | .atSymbol c => .flag (stream.atSymbol c)
  | .integerValue => .number stream.integerValue?
  | .stringValue => .text stream.stringValue?
  | .location => .location stream.location
  | .mismatch expected => .fault (stream.mismatch expected)

/-- The ways to take the look-ahead. -/
inductive StreamDemand where
  | next
  | accept (kind : TokenKind)
  | expect (kind : TokenKind)
  | expectSymbol (c : Char)
  | expectKeyword (word : Keyword)
  | expectOneOf (words : List Keyword)
  | expectName
deriving DecidableEq, Repr, Inhabited

namespace StreamDemand

/-- The reader that meets a demand. -/
def reader : StreamDemand → TokenReader StreamAnswer
  | .next => return .token (some (← TokenReader.next))
  | .accept kind => return .flag (← TokenReader.accept kind)
  | .expect kind => return .token (some (← TokenReader.expect kind))
  | .expectSymbol c => return .token (some (← TokenReader.expectSymbol c))
  | .expectKeyword word => return .token (some (← TokenReader.expectKeyword word))
  | .expectOneOf words => return .keyword (some (← TokenReader.expectOneOf words))
  | .expectName => return .text (some (← TokenReader.expectName))

/-- Whether a demand takes the given token. -/
def wants : StreamDemand → Token → Bool
  | .next, _ => true
  | .accept kind, token | .expect kind, token => token.kind = kind
  | .expectSymbol c, token => token.kind = .symbol c
  | .expectKeyword word, token => token.kind = .keyword word
  | .expectOneOf words, token => token.keyword?.any (words.contains ·)
  | .expectName, token => token.kind = .identifier

/-- The answer to a demand that has taken the given token. -/
def taken : StreamDemand → Token → StreamAnswer
  | .next, token | .expect _, token | .expectSymbol _, token | .expectKeyword _, token =>
    .token (some token)
  | .accept _, _ => .flag true
  | .expectOneOf _, token => .keyword token.keyword?
  | .expectName, token => .text (some token.text)

/-- What a demand names as expected if it fails. One of them only tells that it is not met. -/
def expected? : StreamDemand → Option String
  | .next => some "more tokens"
  | .accept _ => none
  | .expect kind => some kind.description
  | .expectSymbol c => some (TokenKind.symbol c).description
  | .expectKeyword word => some (TokenKind.keyword word).description
  | .expectOneOf words => some (TokenReader.choiceOf words)
  | .expectName => some TokenKind.identifier.description

/-- The answer to a demand that takes nothing, where the given look-ahead stands. -/
def unmet (demand : StreamDemand) (place : Location) (ahead : Option Token) :
    Except Fault StreamAnswer :=
  match demand.expected? with
  | none => .ok (.flag false)
  | some expected => .error (.syntactic {
      location := place
      cause := .mismatch expected <|
        match ahead with
        | some token => "'" ++ token.text ++ "'"
        | none => "end of file" })

/-- The answer to a demand that takes the given token, in front of the next one if there is one, or
else of the given fault if there is one. The token is lost then. -/
def reply (demand : StreamDemand) (token : Token) (behind : Option Token)
    (fault : Option (Located LexicalFault)) : Except Fault StreamAnswer :=
  match behind, fault with
  | none, some fault => .error (.lexical fault)
  | some _, _ | none, none => .ok (demand.taken token)

end StreamDemand

/-- What can be asked of a stream. -/
inductive StreamRequest where
  | look (query : StreamQuery)
  | take (demand : StreamDemand)
deriving DecidableEq, Repr, Inhabited

/-- A request and the answer to it. -/
structure Exchange where
  request : StreamRequest
  answer : Except Fault StreamAnswer
deriving Repr, Inhabited

namespace Exchange

/-- Whether a token was taken and is shown by the answer. -/
def took (exchange : Exchange) : Bool :=
  match exchange.request, exchange.answer with
  | .take _, .ok (.flag false) => false
  | .take _, .ok _ => true
  | _, _ => false

/-- The answer to a demand shows the token that was taken: itself, or what the demand asks of it. -/
def Shows (exchange : Exchange) (token : Token) : Prop :=
  ∃ demand : StreamDemand, demand.wants token = true ∧
    exchange = { request := .take demand, answer := .ok (demand.taken token) }

/-- The lexical fault that is the answer. -/
def lexicalFault? (exchange : Exchange) : Option (Located LexicalFault) :=
  match exchange.answer with
  | .error (.lexical fault) => some fault
  | _ => none

end Exchange

namespace TokenStream

/-- The answer to a request, and the stream behind it. -/
def serve (stream : TokenStream) : StreamRequest → Except Fault StreamAnswer × TokenStream
  | .look query => (.ok (query.answer stream), stream)
  | .take demand => demand.reader.run.run stream

/-- The exchanges that requests lead to, one after the other and behind earlier ones, and the stream
behind them. -/
def serveAll : List StreamRequest → List Exchange → TokenStream → List Exchange × TokenStream
  | [], exchanges, stream => (exchanges, stream)
  | request :: requests, exchanges, stream =>
    serveAll requests (exchanges ++ [{ request, answer := (stream.serve request).1 }])
      (stream.serve request).2

end TokenStream

/-! ### What a demand does -/

namespace StreamDemand

variable {stream : TokenStream}

theorem run_map {α : Type} (reader : TokenReader α) (f : α → StreamAnswer) (stream : TokenStream) :
    (do return f (← reader) : TokenReader StreamAnswer).run.run stream =
      match reader.run.run stream with
      | (.ok a, behind) => (.ok (f a), behind)
      | (.error fault, behind) => (.error fault, behind) := by
  rw [ExceptT.run_bind, StateT.run_bind]
  rcases reader.run.run stream with ⟨_ | a, behind⟩ <;> rfl

/-- Taking one of some keywords. -/
theorem run_expectOneOf_eq (words : List Keyword) :
    (TokenReader.expectOneOf words).run.run stream =
      match stream.keyword? with
      | some word =>
        if words.contains word then
          match TokenReader.next.run.run stream with
          | (.ok _, behind) => (.ok word, behind)
          | (.error fault, behind) => (.error fault, behind)
        else (.error (stream.mismatch (TokenReader.choiceOf words)), stream)
      | none => (.error (stream.mismatch (TokenReader.choiceOf words)), stream) := by
  change (match stream.keyword? with
    | some word =>
      if words.contains word then (do
        let _ ← TokenReader.next
        return word)
      else throw (stream.mismatch (TokenReader.choiceOf words))
    | none => throw (stream.mismatch (TokenReader.choiceOf words)) :
      TokenReader Keyword).run.run stream = _
  split
  · split
    · rw [ExceptT.run_bind, StateT.run_bind]
      rcases TokenReader.next.run.run stream with ⟨_ | token, behind⟩ <;> rfl
    · rfl
  · rfl

/-- The outcome of a demand: the look-ahead is taken if it is wanted, and else nothing changes. -/
def outcome (demand : StreamDemand) (stream : TokenStream) :
    Except Fault StreamAnswer × TokenStream :=
  match stream.lookahead.filter demand.wants with
  | some token =>
    match TokenReader.next.run.run stream with
    | (.ok _, behind) => (.ok (demand.taken token), behind)
    | (.error fault, behind) => (.error fault, behind)
  | none => (demand.unmet stream.location stream.lookahead, stream)

/-- A demand that wants tokens of one kind comes to what its reader does, if that asks for the kind
of the look-ahead. -/
theorem outcome_of_kind {demand : StreamDemand} {kind : TokenKind}
    (wants : ∀ token, demand.wants token = decide (token.kind = kind)) : demand.outcome stream =
      if stream.kind? == some kind then
        match TokenReader.next.run.run stream with
        | (.ok token, behind) => (.ok (demand.taken token), behind)
        | (.error fault, behind) => (.error fault, behind)
      else (demand.unmet stream.location stream.lookahead, stream) := by
  unfold outcome
  cases ahead : stream.lookahead with
  | none => simp [TokenStream.kind?, ahead]
  | some token =>
    by_cases same : token.kind = kind
    · simp only [Option.filter, wants, same, decide_true, TokenStream.kind?, ahead, Option.map_some,
        beq_self_eq_true, if_true]
      -- The token that the reader answers is the look-ahead.
      split
      · rename_i taken behind run
        have takes := TokenReader.run_next.mp run
        rw [Option.some.inj (ahead.symm.trans takes.lookahead)]
      · rfl
    · simp [Option.filter, wants, same, TokenStream.kind?, ahead]

/-- A demand for one of some keywords comes to what its reader does. -/
theorem run_reader_expectOneOf (words : List Keyword) :
    (expectOneOf words).reader.run.run stream = (expectOneOf words).outcome stream := by
  rw [reader, run_map, run_expectOneOf_eq, outcome]
  cases ahead : stream.lookahead with
  | none => simp [TokenStream.keyword?, ahead, unmet, expected?, TokenStream.mismatch]
  | some token =>
    have view : stream.keyword? = token.keyword? := by simp [TokenStream.keyword?, ahead]
    have missed : (expectOneOf words).unmet stream.location (some token) =
        .error (stream.mismatch (TokenReader.choiceOf words)) := by
      simp [unmet, expected?, TokenStream.mismatch, ahead]
    rw [view, missed]
    cases word : token.keyword? with
    | none => rw [Option.filter_some_neg (by simp [wants, word])]
    | some word' =>
      dsimp only
      by_cases chosen : words.contains word' = true
      · rw [if_pos chosen, Option.filter_some_pos (by simpa [wants, word] using chosen)]
        rcases TokenReader.next.run.run stream with ⟨_ | token', behind⟩
        · rfl
        · simp [taken, word]
      · rw [if_neg chosen, Option.filter_some_neg (by simpa [wants, word] using chosen)]

/-- **The reader of a demand comes to its outcome.** -/
theorem run_reader (demand : StreamDemand) :
    demand.reader.run.run stream = demand.outcome stream := by
  have expected (kind : TokenKind) :
      (expect kind).reader.run.run stream = (expect kind).outcome stream := by
    rw [outcome_of_kind fun _ => rfl, reader, run_map, TokenReader.run_expect_eq]
    by_cases same : (stream.kind? == some kind) = true
    · rw [if_pos same, if_pos same]
      rcases TokenReader.next.run.run stream with ⟨_ | token, behind⟩ <;> rfl
    · rw [if_neg same, if_neg same]
      rfl
  cases demand with
  | next =>
    rw [reader, run_map, outcome, TokenReader.run_next_eq]
    cases ahead : stream.lookahead with
    | none => simp [unmet, expected?, TokenStream.mismatch, ahead]
    | some token =>
      rw [Option.filter_some_pos rfl]
      rcases stream.lexer.next with ⟨_ | _, behind⟩ <;> rfl
  | accept kind =>
    rw [outcome_of_kind fun _ => rfl, reader, run_map, TokenReader.run_accept_eq]
    by_cases same : (stream.kind? == some kind) = true
    · rw [if_pos same, if_pos same]
      rcases TokenReader.next.run.run stream with ⟨_ | token, behind⟩ <;> rfl
    · rw [if_neg same, if_neg same]
      rfl
  | expect kind => exact expected kind
  | expectSymbol c => exact expected (.symbol c)
  | expectKeyword word => exact expected (.keyword word)
  | expectOneOf words => exact run_reader_expectOneOf words
  | expectName =>
    rw [outcome_of_kind fun _ => rfl, reader, run_map, TokenReader.run_expectName_eq,
      TokenReader.run_expect_eq]
    by_cases same : (stream.kind? == some .identifier) = true
    · rw [if_pos same, if_pos same]
      rcases TokenReader.next.run.run stream with ⟨_ | token, behind⟩ <;> rfl
    · rw [if_neg same, if_neg same]
      rfl

/-- A demand that takes nothing tells so, or fails because of what stands there. -/
theorem unmet_cases (demand : StreamDemand) (place : Location) (ahead : Option Token) :
    demand.unmet place ahead = .ok (.flag false) ∨
      ∃ fault, demand.unmet place ahead = .error (.syntactic fault) := by
  unfold unmet
  split
  · exact .inl rfl
  · exact .inr ⟨_, rfl⟩

theorem taken_ne (demand : StreamDemand) (token : Token) : demand.taken token ≠ .flag false := by
  cases demand <;> simp [taken]

end StreamDemand

/-! ### What is delivered -/

theorem Exchange.Shows.took {exchange : Exchange} {token : Token} (shows : exchange.Shows token) :
    exchange.took = true := by
  obtain ⟨demand, -, rfl⟩ := shows
  unfold Exchange.took
  cases demand <;> rfl

/-- The number of tokens that have been shown. -/
def shownBy (exchanges : List Exchange) : Nat :=
  exchanges.countP Exchange.took

/-- The lexical faults that have been met. -/
def faultsMet (exchanges : List Exchange) : List (Located LexicalFault) :=
  exchanges.filterMap Exchange.lexicalFault?

/-- Meeting a fault does not change the name of the source. -/
theorem Lexer.file_of_fault {lexer behind : Lexer} {fault : Located LexicalFault}
    (fails : lexer.next = (.error fault, behind)) : behind.file = lexer.file := by
  unfold Lexer.next Lexer.hasMore Lexer.advance at fails
  grind

namespace TokenStream

/-- What a stream has delivered in answer to requests, and what comes next. -/
structure Delivers (file source : String) (exchanges : List Exchange) (stream : TokenStream) :
    Prop where
  /-- The tokens that were returned or matched are the first ones of the source. -/
  inOrder : List.Forall₂ Exchange.Shows (exchanges.filter Exchange.took)
    ((sourceTokens file source).take (shownBy exchanges))
  lookahead : faultsMet exchanges = [] →
    stream.lookahead = (sourceTokens file source)[shownBy exchanges]?
  location : faultsMet exchanges = [] →
    stream.location = { file, line := ((sourceTokens file source)[shownBy exchanges]?.or
      ((sourceTokens file source).take (shownBy exchanges)).getLast?).elim 1 Token.line }
  /-- A token that is wanted is taken. If what is behind it is no token, the fault is the answer. -/
  takes : ∀ demand token, stream.lookahead = some token → demand.wants token = true →
    (stream.serve (.take demand)).1 = demand.reply token
      (sourceTokens file source)[shownBy exchanges + 1]? (sourceFault file source)
  /-- A token that is not wanted stays, and so does the end of the source. -/
  stays : ∀ demand, (∀ token ∈ stream.lookahead, demand.wants token = false) →
    stream.serve (.take demand) = (demand.unmet stream.location stream.lookahead, stream)
  /-- Only taking a token changes anything. -/
  unchanged : ∀ request answer behind, stream.serve request = (answer, behind) →
    ((∃ query, request = .look query) ∨ answer = .ok (.flag false) ∨
      ∃ fault, answer = .error (.syntactic fault)) → behind = stream
  /-- The only lexical fault that is met is that of the source. Then nothing comes any more, and the
  token in front of the fault has been taken, although it was not shown. -/
  spent : faultsMet exchanges ≠ [] → ∃ lost fault, faultsMet exchanges = [fault] ∧
    sourceFault file source = some fault ∧
    sourceTokens file source = (sourceTokens file source).take (shownBy exchanges) ++ [lost] ∧
    stream.lookahead = none ∧ stream.location = { file, line := lost.line }

/-- Where a stream stands after some exchanges: behind tokens that were shown, or behind all tokens
of its source, the last of which was taken for a lexical fault. -/
inductive Stands (file source : String) (exchanges : List Exchange) (stream : TokenStream) : Prop
  | reading (shown left : List Token) (tokens : sourceTokens file source = shown ++ left)
    (shows : List.Forall₂ Exchange.Shows (exchanges.filter Exchange.took) shown)
    (faults : faultsMet exchanges = []) (gives : stream.Gives left (sourceFault file source))
    (named : stream.lexer.file = file) (line : stream.lastLine = shown.getLast?.elim 1 Token.line)
  | spent (shown : List Token) (lost : Token) (fault : Located LexicalFault)
    (tokens : sourceTokens file source = shown ++ [lost])
    (shows : List.Forall₂ Exchange.Shows (exchanges.filter Exchange.took) shown)
    (faulty : sourceFault file source = some fault) (faults : faultsMet exchanges = [fault])
    (ended : stream.lookahead = none) (named : stream.lexer.file = file)
    (line : stream.lastLine = lost.line)

variable {file source : String} {exchanges : List Exchange} {stream : TokenStream}

theorem serve_take (demand : StreamDemand) : stream.serve (.take demand) = demand.outcome stream :=
  demand.run_reader

/-- An exchange that takes nothing and meets no fault leaves a stream where it stands. -/
theorem Stands.idle (stands : Stands file source exchanges stream) {exchange : Exchange}
    (idle : exchange.took = false) (noFault : exchange.lexicalFault? = none) :
    Stands file source (exchanges ++ [exchange]) stream := by
  have same : (exchanges ++ [exchange]).filter Exchange.took = exchanges.filter Exchange.took := by
    simp [idle]
  have faults' : faultsMet (exchanges ++ [exchange]) = faultsMet exchanges := by
    simp [faultsMet, noFault]
  cases stands with
  | reading shown left tokens shows faults gives named line =>
    exact .reading shown left tokens (same ▸ shows) (faults'.trans faults) gives named line
  | spent shown lost fault tokens shows faulty faults ended named line =>
    exact .spent shown lost fault tokens (same ▸ shows) faulty (faults'.trans faults) ended named
      line

/-- **A request leaves a stream where it stands, or one token further.** -/
theorem Stands.serve (stands : Stands file source exchanges stream) (request : StreamRequest) :
    Stands file source (exchanges ++ [{ request, answer := (stream.serve request).1 }])
      (stream.serve request).2 := by
  cases request with
  | look query => exact stands.idle rfl rfl
  | take demand =>
    rw [serve_take, StreamDemand.outcome]
    cases wanted : stream.lookahead.filter demand.wants with
    | none =>
      obtain flag | ⟨fault, failed⟩ := demand.unmet_cases stream.location stream.lookahead
      · exact stands.idle (by rw [flag]; rfl) (by rw [flag]; rfl)
      · exact stands.idle (by rw [failed]; rfl) (by rw [failed]; rfl)
    | some token =>
      obtain ⟨ahead, wants⟩ := Option.filter_eq_some_iff.mp wanted
      cases stands with
      | spent shown lost fault tokens shows faulty faults ended named line =>
        rw [ended] at ahead
        cases ahead
      | reading shown left tokens shows faults gives named line =>
        have shows' : Exchange.Shows
            { request := .take demand, answer := .ok (demand.taken token) } token :=
          ⟨demand, wants, rfl⟩
        generalize faulty : sourceFault file source = fault at gives
        -- What comes behind the look-ahead decides: another token, the end, or a fault.
        cases gives with
        | ended none =>
          rw [none] at ahead
          cases ahead
        | @taken _ behind taken more _ takes rest =>
          obtain rfl : taken = token := Option.some.inj (takes.lookahead.symm.trans ahead)
          rw [TokenReader.run_next.mpr takes]
          refine .reading (shown ++ [taken]) more (by simp [tokens]) ?_ ?_ (faulty ▸ rest)
            (takes.file_eq.trans named) (by simp [takes.lastLine])
          · rw [List.filter_append, List.filter_singleton, shows'.took]
            exact List.rel_append shows (.cons shows' .nil)
          · simpa [faultsMet, Exchange.lexicalFault?] using faults
        | @faulty _ lost fault lexer ahead' fails =>
          rw [TokenReader.run_next_eq, ahead', fails]
          refine .spent shown lost fault tokens ?_ faulty ?_ rfl
            ((Lexer.file_of_fault fails).trans named) rfl
          · simpa [List.filter_append, Exchange.took] using shows
          · rw [faultsMet, List.filterMap_append, ← faultsMet, faults]
            rfl

/-- What requests keep, whatever they are. -/
theorem Stands.serveAll (stands : Stands file source exchanges stream)
    (requests : List StreamRequest) :
    Stands file source (serveAll requests exchanges stream).1
      (TokenStream.serveAll requests exchanges stream).2 := by
  induction requests generalizing exchanges stream with
  | nil => exact stands
  | cons request requests ih => exact ih (stands.serve request)

/-- As many tokens have been shown as there are in front of the look-ahead. -/
theorem shownBy_eq {shown : List Token}
    (shows : List.Forall₂ Exchange.Shows (exchanges.filter Exchange.took) shown) :
    shownBy exchanges = shown.length := by
  rw [shownBy, List.countP_eq_length_filter, shows.length_eq]

/-- A token that is wanted is shown, unless it is the last one in front of a fault. -/
theorem Gives.answer_eq {token : Token} {more : List Token}
    {fault : Option (Located LexicalFault)} (gives : stream.Gives (token :: more) fault)
    {demand : StreamDemand} (wants : demand.wants token = true) :
    (stream.serve (.take demand)).1 = demand.reply token more.head? fault := by
  rw [serve_take, StreamDemand.outcome, gives.lookahead_eq, List.head?_cons,
    Option.filter_some_pos wants]
  cases gives with
  | faulty ahead fails =>
    rw [TokenReader.run_next_eq, ahead, fails]
    rfl
  | taken takes rest =>
    rw [TokenReader.run_next.mpr takes]
    cases more with
    | nil =>
      rw [rest.fault_eq_none]
      rfl
    | cons _ _ => rfl

/-- Without the token that is wanted a demand changes nothing. -/
theorem serve_take_of_unwanted {demand : StreamDemand}
    (unwanted : ∀ token ∈ stream.lookahead, demand.wants token = false) :
    stream.serve (.take demand) = (demand.unmet stream.location stream.lookahead, stream) := by
  have none : stream.lookahead.filter demand.wants = none := by
    simpa [Option.filter_eq_none_iff] using unwanted
  rw [serve_take, StreamDemand.outcome, none]

/-- The look-ahead is taken by an answer that shows it, or for a lexical fault. -/
theorem eq_of_serve {request : StreamRequest} {answer : Except Fault StreamAnswer}
    {behind : TokenStream} (served : stream.serve request = (answer, behind))
    (idle : (∃ query, request = .look query) ∨ answer = .ok (.flag false) ∨
      ∃ fault, answer = .error (.syntactic fault)) : behind = stream := by
  cases request with
  | look query => exact (congrArg Prod.snd served).symm
  | take demand =>
    by_cases unwanted : ∀ token ∈ stream.lookahead, demand.wants token = false
    · rw [serve_take_of_unwanted unwanted] at served
      exact (congrArg Prod.snd served).symm
    · obtain ⟨token, ahead, wants⟩ : ∃ token, stream.lookahead = some token ∧
          demand.wants token = true := by simpa using unwanted
      rw [serve_take, StreamDemand.outcome, ahead, Option.filter_some_pos wants,
        TokenReader.run_next_eq, ahead] at served
      -- Such a demand is answered by the token or by a lexical fault.
      cases next : stream.lexer.next with
      | mk result lexer =>
        cases result with
        | error fault =>
          simp only [next, Prod.mk.injEq] at served
          simp [← served.1] at idle
        | ok lookahead =>
          simp only [next, Prod.mk.injEq] at served
          simp [← served.1, demand.taken_ne token] at idle

theorem Stands.delivers (stands : Stands file source exchanges stream) :
    Delivers file source exchanges stream := by
  cases stands with
  | reading shown left tokens shows faults gives named line =>
    have count := shownBy_eq shows
    have front : (sourceTokens file source).take (shownBy exchanges) = shown := by
      simp [tokens, count]
    have next : (sourceTokens file source)[shownBy exchanges]? = left.head? := by
      simp [tokens, count, List.head?_eq_getElem?, List.getElem?_append_right]
    refine ⟨front.symm ▸ shows, fun _ => ?_, fun _ => ?_, fun demand token ahead wants => ?_,
      fun demand => serve_take_of_unwanted, fun request answer behind => eq_of_serve,
      fun met => absurd faults met⟩
    · rw [next, gives.lookahead_eq]
    · rw [next, front, TokenStream.location, gives.lookahead_eq, named, line]
      cases left <;> cases shown.getLast? <;> rfl
    · obtain ⟨more, rfl⟩ := List.head?_eq_some_iff.mp (gives.lookahead_eq.symm.trans ahead)
      have second : (sourceTokens file source)[shownBy exchanges + 1]? = more.head? := by
        simp [tokens, count, List.head?_eq_getElem?, List.getElem?_append_right]
      rw [second, gives.answer_eq wants]
  | spent shown lost fault tokens shows faulty faults ended named line =>
    have count := shownBy_eq shows
    have front : (sourceTokens file source).take (shownBy exchanges) = shown := by
      simp [tokens, count]
    refine ⟨front.symm ▸ shows, fun none => ?_, fun none => ?_, fun demand token ahead => ?_,
      fun demand => serve_take_of_unwanted, fun request answer behind => eq_of_serve,
      fun _ => ⟨lost, fault, faults, faulty, front.symm ▸ tokens, ended, ?_⟩⟩
    · simp [faults] at none
    · simp [faults] at none
    · simp [ended] at ahead
    · simp [TokenStream.location, ended, named, line]

/-- **A stream delivers the tokens of its source once and in order**, however it is asked. -/
theorem delivers_serveAll {file source : String} {stream : TokenStream}
    (start : TokenStream.ofLexer (.ofSource file source) = .ok stream)
    (requests : List StreamRequest) :
    Delivers file source (serveAll requests [] stream).1 (serveAll requests [] stream).2 := by
  have gives := Lexer.gives_toEnd (Lexer.consistent_ofSource file source) start
  obtain ⟨line, named⟩ := Lexer.start_of_ofLexer start
  have stands : Stands file source [] stream :=
    .reading [] _ rfl .nil rfl gives named line
  exact (stands.serveAll requests).delivers

/-- A name is lost when it is taken in front of a string without an end, and is not there to be
matched again. -/
theorem delivers_serveAll_lost : ∃ stream,
    TokenStream.ofLexer (.ofSource "A.jack" "let x \"") = .ok stream ∧
    let served := serveAll [.take (.accept .identifier), .take (.expectKeyword .«let»),
      .take .expectName, .take (.accept .identifier)] [] stream
    Delivers "A.jack" "let x \"" served.1 served.2 := by
  obtain ⟨stream, start, -⟩ | ⟨_, -, noToken, -⟩ := gives_or_faulty "A.jack" "let x \""
  · exact ⟨stream, start, delivers_serveAll start _⟩
  · have tokens : sourceTokens "A.jack" "let x \"" ≠ [] := by decide +kernel
    exact absurd noToken tokens

end TokenStream

end JackCompiler
