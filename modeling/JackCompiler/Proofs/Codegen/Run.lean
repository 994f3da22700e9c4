import JackCompiler.Proofs.Token.Reader

/-!
# Runs of the code generator

A run of a step that succeeds is a relation between its answer and the sessions before and behind
it. The runs of a composed step are made of runs of its parts, so that no proof about the code
generator opens the monad below this module.

## Main definitions

* `Codegen.Runs` — a step succeeds with an answer
* `Codegen.operatorRound`, `Codegen.argumentRound` — what is repeated inside expressions

## Main results

* `Codegen.runs_bind` and its companions — runs of composed steps
* `Codegen.runs_emit` and its companions — runs of the steps that use the session
* `Codegen.iterate_induction`, `Codegen.repeatWhile_induction` — runs of repeated steps
-/

namespace JackCompiler

open Grammar (Terminal)

namespace Sink

variable {α : Type}

/-- The sink after whole items. -/
def extend (render : α → String) (sink : Sink α) (items : List α) : Sink α :=
  { sink with
    items := sink.items ++ items.toArray
    room := sink.room.map fun room =>
      items.foldl (fun room item => room - (line (render item)).utf8ByteSize) room }

@[simp] theorem extend_nil (render : α → String) (sink : Sink α) :
    sink.extend render [] = sink := by
  cases sink
  simp [extend]

theorem extend_append (render : α → String) (sink : Sink α) (items more : List α) :
    sink.extend render (items ++ more) = (sink.extend render items).extend render more := by
  simp [extend, Function.comp_def]

/-- A sink without a limit takes every item. -/
theorem write_of_unlimited (render : α → String) {sink : Sink α} (item : α)
    (unlimited : sink.room = none) :
    sink.write render item = (.ok (), sink.extend render [item]) := by
  simp [write, extend, unlimited]

/-- An item is written whole or not at all. -/
theorem extend_of_write {render : α → String} {sink sink' : Sink α} {item : α}
    (h : sink.write render item = (.ok (), sink')) : sink' = sink.extend render [item] := by
  unfold write at h
  split at h
  · rename_i unlimited
    cases h
    simp [extend, unlimited]
  · rename_i room limited
    dsimp only at h
    split at h
    · cases h
      simp [extend, limited]
    · cases h

end Sink

namespace Codegen

variable {α β : Type} {s s' : Session} {a : α} {b : β}

/-- From the first session, a step succeeds with the given answer and leaves the second. -/
def Runs (step : Codegen α) (s : Session) (a : α) (s' : Session) : Prop :=
  step.run.run s = (.ok a, s')

/-- A step that does not fail has run. -/
theorem runs_of_isOk {step : Codegen Unit} (succeeds : (step.run.run s).1.isOk = true) :
    ∃ s', Runs step s () s' := by
  cases result : (step.run.run s).1 with
  | ok u => exact ⟨_, Prod.ext result rfl⟩
  | error fault => simp [result, Except.isOk, Except.toBool] at succeeds

/-! ### Composed steps -/

/-- A step whose run from a session is known has no other run from there. -/
theorem runs_iff_of_run {step : Codegen α} {x : α} {t : Session}
    (run : step.run.run s = (.ok x, t)) : Runs step s a s' ↔ a = x ∧ s' = t := by
  rw [Runs, run]
  constructor
  · intro h
    cases h
    exact ⟨rfl, rfl⟩
  · rintro ⟨rfl, rfl⟩
    rfl

@[simp] theorem runs_pure {a a' : α} : Runs (pure a) s a' s' ↔ a' = a ∧ s' = s :=
  runs_iff_of_run rfl

theorem run_bind (step : Codegen α) (next : α → Codegen β) (s : Session) :
    (step >>= next).run.run s = match step.run.run s with
      | (.ok a, middle) => (next a).run.run middle
      | (.error fault, middle) => (.error fault, middle) := by
  rw [ExceptT.run_bind, StateT.run_bind]
  rcases step.run.run s with ⟨_ | a, middle⟩ <;> rfl

theorem runs_bind {step : Codegen α} {next : α → Codegen β} :
    Runs (step >>= next) s b s' ↔ ∃ a middle, Runs step s a middle ∧ Runs (next a) middle b s' := by
  unfold Runs
  rw [run_bind]
  constructor
  · intro h
    split at h
    · rename_i a middle first
      exact ⟨a, middle, first, h⟩
    · cases h
  · rintro ⟨a, middle, first, second⟩
    rw [first]
    exact second

@[simp] theorem runs_throw {fault : Fault} : ¬ Runs (throw fault : Codegen α) s a s' := by
  intro h
  cases h

theorem runs_discard {step : Codegen α} {u : Unit} :
    Runs (discard step) s u s' ↔ ∃ a, Runs step s a s' := by
  rw [show discard step = step >>= fun _ => pure () from rfl, runs_bind]
  simp

theorem runs_read {reader : TokenReader α} : Runs (read reader) s a s' ↔
    ∃ tokens, reader.run.run s.tokens = (.ok a, tokens) ∧ s' = { s with tokens } := by
  change ((reader s.tokens).1, { s with tokens := (reader s.tokens).2 }) = (Except.ok a, s') ↔
    ∃ tokens, reader s.tokens = (.ok a, tokens) ∧ s' = { s with tokens }
  rcases reader s.tokens with ⟨result, tokens⟩
  constructor
  · intro h
    cases h
    exact ⟨tokens, rfl, rfl⟩
  · rintro ⟨tokens', h, rfl⟩
    cases h
    rfl

theorem runs_get {middle : Session} :
    Runs (get : Codegen Session) s middle s' ↔ middle = s ∧ s' = s :=
  runs_iff_of_run rfl

theorem runs_look {view : TokenStream → α} :
    Runs (look view) s a s' ↔ a = view s.tokens ∧ s' = s :=
  runs_iff_of_run rfl

theorem runs_emit {instruction : Instruction} {u : Unit} : Runs (emit instruction) s u s' ↔
    ∃ output, s.output.write Instruction.text instruction = (.ok (), output) ∧
      s' = { s with output } := by
  change ((s.output.write Instruction.text instruction).1.mapError Fault.storage,
      { s with output := (s.output.write Instruction.text instruction).2 }) = (Except.ok u, s') ↔ _
  rcases s.output.write Instruction.text instruction with ⟨_ | _, output⟩
  · constructor
    · intro h
      cases h
    · rintro ⟨output', h, -⟩
      cases h
  · constructor
    · intro h
      cases h
      exact ⟨output, rfl, rfl⟩
    · rintro ⟨output', h, rfl⟩
      cases h
      rfl

theorem runs_freshLabel {number : Nat} : Runs freshLabel s number s' ↔
    number = s.nextLabel ∧ s' = { s with nextLabel := s.nextLabel + 1 } :=
  runs_iff_of_run rfl

theorem runs_report {event : Event} {u : Unit} : Runs (report event) s u s' ↔
    s' = { s with events := s.events.push event } :=
  (runs_iff_of_run rfl).trans (and_iff_right rfl)

theorem runs_lookup? {name : String} {v : Option Variable} : Runs (lookup? name) s v s' ↔
    v = s.visible.lookup? name ∧ s' = s :=
  runs_iff_of_run rfl

theorem runs_declarations {kind : VariableKind} {n : Nat} : Runs (declarations kind) s n s' ↔
    n = s.visible.count kind ∧ s' = s :=
  runs_iff_of_run rfl

theorem runs_startSubroutine {u : Unit} : Runs startSubroutine s u s' ↔
    s' = { s with visible := s.visible.startSubroutine } :=
  (runs_iff_of_run rfl).trans (and_iff_right rfl)

theorem runs_location {place : Location} :
    Runs location s place s' ↔ place = s.tokens.location ∧ s' = s :=
  runs_look

@[simp] theorem runs_failAt {place : Location} {cause : SyntacticFault} :
    ¬ Runs (failAt place cause : Codegen α) s a s' :=
  runs_throw

@[simp] theorem runs_failExpecting {expected : String} :
    ¬ Runs (failExpecting expected : Codegen α) s a s' := by
  simp [failExpecting, runs_bind]

theorem runs_resolve {name : String} {place : Location} {v : Variable} :
    Runs (resolve name place) s v s' ↔ s.visible.lookup? name = some v ∧ s' = s := by
  rw [resolve, runs_bind]
  constructor
  · rintro ⟨found, middle, looked, h⟩
    obtain ⟨rfl, rfl⟩ := runs_lookup?.mp looked
    split at h
    · rename_i known
      obtain ⟨rfl, rfl⟩ := runs_pure.mp h
      exact ⟨known, rfl⟩
    · exact absurd h runs_failAt
  · rintro ⟨known, rfl⟩
    refine ⟨some v, s', runs_lookup?.mpr ⟨known.symm, rfl⟩, ?_⟩
    simp

theorem runs_declare {name type : String} {kind : VariableKind} {place : Location} {u : Unit} :
    Runs (declare name type kind place) s u s' ↔
      ∃ v visible, s.visible.declare? name type kind = some (v, visible) ∧
        s' = { s with visible, events := s.events.push (.declared name v) } := by
  rw [declare, runs_bind]
  constructor
  · rintro ⟨found, middle, got, h⟩
    obtain ⟨rfl, rfl⟩ := runs_get.mp got
    split at h
    · rename_i v visible declared
      cases h
      exact ⟨v, visible, declared, rfl⟩
    · exact absurd h runs_failAt
  · rintro ⟨v, visible, declared, rfl⟩
    refine ⟨s, s, runs_get.mpr ⟨rfl, rfl⟩, ?_⟩
    rw [declared]
    rfl

/-! ### Steps that take tokens -/

theorem runs_expect {kind : TokenKind} {token : Token} :
    Runs (read (TokenReader.expect kind)) s token s' ↔
      ∃ tokens, token.kind = kind ∧ s.tokens.Takes token tokens ∧ s' = { s with tokens } := by
  simp [runs_read, TokenReader.run_expect, and_assoc]

theorem runs_skipSymbol {c : Char} {u : Unit} : Runs (skipSymbol c) s u s' ↔
    ∃ tokens, s.tokens.Reads [.symbol c] tokens ∧ s' = { s with tokens } := by
  simp only [skipSymbol, TokenReader.expectSymbol, runs_discard, runs_expect,
    TokenStream.reads_singleton, Token.terminal_eq_symbol]
  -- A token of the kind of a symbol has that symbol as its text, so both sides name the same token.
  grind

theorem runs_skipKeyword {word : Keyword} {u : Unit} : Runs (skipKeyword word) s u s' ↔
    ∃ tokens, s.tokens.Reads [.keyword word] tokens ∧ s' = { s with tokens } := by
  simp only [skipKeyword, TokenReader.expectKeyword, runs_discard, runs_expect,
    TokenStream.reads_singleton, Token.terminal_eq_keyword]
  grind

theorem runs_skip {u : Unit} : Runs skip s u s' ↔
    ∃ terminal tokens, s.tokens.Reads [terminal] tokens ∧ s' = { s with tokens } := by
  simp only [skip, runs_discard, runs_read, TokenReader.run_next, TokenStream.reads_singleton]
  grind

theorem runs_takeName {name : String} : Runs takeName s name s' ↔
    ∃ tokens, s.tokens.Reads [.identifier name] tokens ∧ s' = { s with tokens } := by
  simp only [takeName, runs_read, TokenReader.run_expectName, TokenStream.reads_singleton,
    Token.terminal_eq_identifier]
  grind

theorem runs_accept {kind : TokenKind} {answer : Bool} :
    Runs (read (TokenReader.accept kind)) s answer s' ↔
      answer = true ∧ (∃ tokens token, s.tokens.Takes token tokens ∧ token.kind = kind ∧
          s' = { s with tokens }) ∨
        answer = false ∧ s.tokens.kind? ≠ some kind ∧ s' = s := by
  simp only [runs_read, TokenReader.run_accept]
  constructor
  · rintro ⟨tokens, ⟨rfl, token, same, takes⟩ | ⟨rfl, other, rfl⟩, rfl⟩
    · exact .inl ⟨rfl, tokens, token, takes, same, rfl⟩
    · exact .inr ⟨rfl, other, rfl⟩
  · rintro (⟨rfl, tokens, token, takes, same, rfl⟩ | ⟨rfl, other, rfl⟩)
    · exact ⟨tokens, .inl ⟨rfl, token, same, takes⟩, rfl⟩
    · exact ⟨s'.tokens, .inr ⟨rfl, other, rfl⟩, rfl⟩

theorem runs_acceptSymbol {c : Char} {answer : Bool} : Runs (acceptSymbol c) s answer s' ↔
    answer = true ∧ (∃ tokens, s.tokens.Reads [.symbol c] tokens ∧ s' = { s with tokens }) ∨
      answer = false ∧ s.tokens.next? ≠ some (.symbol c) ∧ s' = s := by
  simp only [acceptSymbol, runs_accept, TokenStream.reads_singleton, Token.terminal_eq_symbol,
    ne_eq, TokenStream.kind?_eq_symbol]
  grind

theorem runs_acceptKeyword {word : Keyword} {answer : Bool} :
    Runs (acceptKeyword word) s answer s' ↔
      answer = true ∧ (∃ tokens, s.tokens.Reads [.keyword word] tokens ∧ s' = { s with tokens }) ∨
        answer = false ∧ s.tokens.next? ≠ some (.keyword word) ∧ s' = s := by
  simp only [acceptKeyword, runs_accept, TokenStream.reads_singleton, Token.terminal_eq_keyword,
    ne_eq, TokenStream.kind?_eq_keyword]
  grind

/-! ### Repeated steps -/

/-- What holds of no rounds, and of one more round in front of others, holds of all runs of a
repeated step. It does not matter why the rounds end. -/
theorem iterate_induction {step : α → Codegen (Option α)}
    {motive : α → Session → α → Session → Prop} (stop : ∀ a s, motive a s a s)
    (idle : ∀ a s s', Runs (step a) s none s' → s' = s)
    (round : ∀ a s b middle c s', Runs (step a) s (some b) middle → motive b middle c s' →
      motive a s c s')
    {a c : α} {s s' : Session} (h : Runs (iterate step a) s c s') : motive a s c s' := by
  -- The number of rounds is bounded by the tokens left. The bound is given up here, so that it
  -- never matters why the rounds end.
  have bounded (bound : Nat) : ∀ a s, Runs (iterateAtMost step bound a) s c s' →
      motive a s c s' := by
    induction bound with
    | zero =>
      intro a s h
      obtain ⟨rfl, rfl⟩ := runs_pure.mp h
      exact stop c s'
    | succ bound ih =>
      intro a s h
      obtain ⟨next, middle, first, rest⟩ := runs_bind.mp h
      cases next with
      | none =>
        obtain ⟨rfl, rfl⟩ := runs_pure.mp rest
        obtain rfl := idle _ _ _ first
        exact stop c s'
      | some b => exact round a s b middle c s' first (ih b middle rest)
  obtain ⟨left, middle, looked, rounds⟩ := runs_bind.mp h
  obtain ⟨-, rfl⟩ := runs_look.mp looked
  exact bounded _ a middle rounds

theorem repeatWhile_induction {step : Codegen Bool} {motive : Session → Session → Prop}
    (stop : ∀ s, motive s s) (idle : ∀ s s', Runs step s false s' → s' = s)
    (round : ∀ s middle s', Runs step s true middle → motive middle s' → motive s s')
    {u : Unit} {s s' : Session} (h : Runs (repeatWhile step) s u s') : motive s s' := by
  -- A repeated step that only says whether to go on is one whose rounds pass on nothing.
  have answer {next : Option Unit} {s s' : Session}
      (h : Runs (do if ← step then return some () else return none) s next s') :
      Runs step s next.isSome s' := by
    obtain ⟨going, middle, first, rest⟩ := runs_bind.mp h
    cases going <;> obtain ⟨rfl, rfl⟩ := runs_pure.mp rest <;> exact first
  refine iterate_induction (motive := fun _ s _ s' => motive s s') (fun _ => stop) ?_ ?_ h
  · exact fun _ s s' h => idle s s' (answer h)
  · exact fun _ s _ middle _ s' h => round s middle s' (answer h)

/-! ### Rounds inside expressions -/

/-- One operator and the term behind it. -/
def operatorRound (step : Codegen Unit) (pending : List BinaryOperator) :
    Codegen (Option (List BinaryOperator)) := do
  match ← look (·.symbol?.bind BinaryOperator.ofSymbol?) with
  | some operator =>
    skip
    step
    return some (operator :: pending)
  | none => return none

/-- One comma and the argument behind it. -/
def argumentRound (step : Codegen Unit) (count : Nat) : Codegen (Option Nat) := do
  if ← acceptSymbol ',' then
    expression step
    if count < maxOperand then return some (count + 1)
    else failAt (← location) (.tooMany "arguments")
  else return none

end Codegen

end JackCompiler
