import JackCompiler.Proofs.Codegen.Run
import JackCompiler.Proofs.Token.Upcoming

/-!
# Steps of the code generator only move on

Whether a step succeeds or fails, it goes forward in the tokens, and on a sink without a limit it
only adds code to what is there.

## Main definitions

* `Session.Precedes` — a session can come after another
* `Codegen.Advances` — all sessions behind a step come after the one before it
* `Codegen.TakesIf` — a step takes a token if it answers in a certain way

## Main results

* `Codegen.Advances.bind` and its companions — composed steps move on if their parts do
* `Codegen.Advances.iterate` — so do repeated ones
* `Codegen.TakesIf.bind` — composed steps take a token if one of their parts does
-/

namespace JackCompiler

/-- The second session can come after the first: what it still gives is the last part of what the
first one gives, and its code begins with the code of the first one. -/
structure Session.Precedes (s t : Session) : Prop where
  tokens : ∀ {tokens fault}, s.tokens.Gives tokens fault →
    ∃ more fault', more <:+ tokens ∧ t.tokens.Gives more fault'
  output : s.output.room = none → ∃ code, t.output = s.output.extend Instruction.text code

namespace Session.Precedes

theorem trans {s t u : Session} (h : s.Precedes t) (h' : t.Precedes u) : s.Precedes u where
  tokens gives := by
    obtain ⟨more, _, suffix, gives⟩ := h.tokens gives
    obtain ⟨last, fault, suffix', gives⟩ := h'.tokens gives
    exact ⟨last, fault, suffix'.trans suffix, gives⟩
  output unlimited := by
    obtain ⟨code, output⟩ := h.output unlimited
    obtain ⟨more, output'⟩ := h'.output (by simp [output, Sink.extend, unlimited])
    exact ⟨code ++ more, by rw [output', output, Sink.extend_append]⟩

/-- A session with the tokens and the output of another stands where that one stands. -/
theorem of_eq {s t : Session} (tokens : t.tokens = s.tokens) (output : t.output = s.output) :
    s.Precedes t where
  tokens gives := ⟨_, _, List.suffix_rfl, tokens ▸ gives⟩
  output _ := ⟨[], by simp [output]⟩

end Session.Precedes

namespace Codegen

variable {α β : Type} {s s' : Session} {x : Codegen α} {f : α → Codegen β}

/-! ### Steps that may fail -/

/-- A reader works on the tokens of a session and leaves the rest of it as it was. -/
theorem run_read_bind (reader : TokenReader α) (f : α → Codegen β) (s : Session) :
    (read reader >>= f).run.run s = match reader.run.run s.tokens with
      | (.ok a, tokens) => (f a).run.run { s with tokens }
      | (.error fault, tokens) => (.error fault, { s with tokens }) := by
  have run : (read reader).run.run s =
      ((reader.run.run s.tokens).1, { s with tokens := (reader.run.run s.tokens).2 }) := rfl
  rw [run_bind, run]
  rcases reader.run.run s.tokens with ⟨_ | _, tokens⟩ <;> rfl

theorem run_skip (s : Session) : skip.run.run s = match TokenReader.next.run.run s.tokens with
    | (.ok _, tokens) => (.ok (), { s with tokens })
    | (.error fault, tokens) => (.error fault, { s with tokens }) := by
  change (read TokenReader.next >>= fun _ => pure ()).run.run s = _
  rw [run_read_bind]
  rcases TokenReader.next.run.run s.tokens with ⟨_ | _, tokens⟩ <;> rfl

theorem tokens_run_skip (s : Session) :
    (skip.run.run s).2.tokens = (TokenReader.next.run.run s.tokens).2 := by
  rw [run_skip]
  rcases TokenReader.next.run.run s.tokens with ⟨_ | _, tokens⟩ <;> rfl

theorem output_run_skip (s : Session) : (skip.run.run s).2.output = s.output := by
  rw [run_skip]
  split <;> rfl

/-- Behind a token that is skipped stand the tokens behind it, unless the first of them cannot be
read. -/
theorem gives_run_skip {token : Token} {tokens : List Token}
    {fault : Option (Located LexicalFault)} (gives : s.tokens.Gives (token :: tokens) fault) :
    ∃ more fault', more <:+ tokens ∧ (skip.run.run s).2.tokens.Gives more fault' := by
  rw [tokens_run_skip]
  obtain ⟨behind, run, rest⟩ | ⟨behind, cause, run, rfl, -, rest⟩ := gives.run_next
  · rw [run]
    exact ⟨_, _, List.suffix_rfl, rest⟩
  · rw [run]
    exact ⟨_, _, List.suffix_rfl, rest⟩

/-- The fault behind a token is met when the token is skipped. -/
theorem run_skip_of_faulty {token : Token} {cause : Located LexicalFault}
    (gives : s.tokens.Gives [token] (some cause)) :
    (skip.run.run s).1 = .error (.lexical cause) := by
  rw [run_skip]
  obtain ⟨behind, run, rest⟩ | ⟨behind, cause', run, -, same, -⟩ := gives.run_next
  · cases rest.fault_eq_none
  · cases same
    rw [run]

theorem run_emit (instruction : Instruction) (s : Session) : (emit instruction).run.run s =
    ((s.output.write Instruction.text instruction).1.mapError Fault.storage,
      { s with output := (s.output.write Instruction.text instruction).2 }) := rfl

theorem run_flush (s : Session) : flush.run.run s =
    if s.output.canFlush then (.ok (), s)
    else (.error (Fault.storage .flushFailed), s) := by
  rw [flush, run_bind, show (get : Codegen Session).run.run s = (.ok s, s) from rfl]
  cases canFlush : s.output.canFlush <;> simp [Sink.flush, canFlush] <;> rfl

theorem run_declare (name type : String) (kind : VariableKind) (place : Location) (s : Session) :
    (declare name type kind place).run.run s = match s.visible.declare? name type kind with
      | some (v, visible) =>
        (.ok (), { s with visible, events := s.events.push (.declared name v) })
      | none => (.error (.syntactic { location := place, cause := .tooMany kind.plural }), s) := by
  change (match s.visible.declare? name type kind with
    | some (v, visible) => (do
      modify fun session : Session => { session with visible }
      report (.declared name v))
    | none => (failAt place (.tooMany kind.plural) : Codegen Unit)).run.run s = _
  split <;> rfl

/-! ### Steps that take tokens, made of steps that look and skip -/

theorem discard_expect_eq (kind : TokenKind) : discard (read (TokenReader.expect kind)) = (do
    if ← look fun stream => stream.kind? == some kind then skip
    else failExpecting kind.description) := by
  funext s
  change (read (TokenReader.expect kind) >>= fun _ => pure ()).run.run s =
    (if s.tokens.kind? == some kind then skip else failExpecting kind.description).run.run s
  rw [run_read_bind, TokenReader.run_expect_eq]
  by_cases expected : (s.tokens.kind? == some kind) = true
  · rw [if_pos expected, if_pos expected, run_skip]
    rcases TokenReader.next.run.run s.tokens with ⟨_ | token, tokens⟩ <;> rfl
  · rw [if_neg expected, if_neg expected]
    rfl

theorem accept_eq (kind : TokenKind) : read (TokenReader.accept kind) = (do
    if ← look fun stream => stream.kind? == some kind then
      skip
      return true
    else return false) := by
  funext s
  change (read (TokenReader.accept kind)).run.run s =
    (if s.tokens.kind? == some kind then skip >>= fun _ => pure true else pure false).run.run s
  rw [← bind_pure (read _), run_read_bind, TokenReader.run_accept_eq]
  by_cases expected : (s.tokens.kind? == some kind) = true
  · rw [if_pos expected, if_pos expected, run_bind, run_skip]
    rcases TokenReader.next.run.run s.tokens with ⟨_ | token, tokens⟩ <;> rfl
  · rw [if_neg expected, if_neg expected]

theorem takeName_eq : takeName = (do
    let name ← look fun stream => (stream.upcoming.map Prod.snd).getD ""
    if ← look fun stream => stream.kind? == some .identifier then
      skip
      return name
    else failExpecting TokenKind.identifier.description) := by
  funext s
  change (read TokenReader.expectName).run.run s =
    (if s.tokens.kind? == some .identifier then
      skip >>= fun _ => pure ((s.tokens.upcoming.map Prod.snd).getD "")
    else failExpecting TokenKind.identifier.description).run.run s
  rw [← bind_pure (read _), run_read_bind, TokenReader.run_expectName_eq,
    TokenReader.run_expect_eq]
  by_cases expected : (s.tokens.kind? == some .identifier) = true
  · rw [if_pos expected, if_pos expected, run_bind, run_skip]
    -- The name that was looked at is the text of the token that is taken.
    generalize taken : TokenReader.next.run.run s.tokens = outcome
    rcases outcome with ⟨_ | token, tokens⟩
    · rfl
    · have takes := TokenReader.run_next.mp taken
      rw [TokenStream.upcoming, takes.lookahead]
      rfl
  · rw [if_neg expected, if_neg expected]
    rfl

/-! ### Moving on -/

/-- Every session behind a step comes after the one before it. If the step succeeds, then all that
it has done with the tokens is to take some of them. -/
structure Advances (x : Codegen α) : Prop where
  precedes : ∀ s : Session, s.Precedes (x.run.run s).2
  reads : ∀ {s a s'}, Runs x s a s' → ∃ terminals, s.tokens.Reads terminals s'.tokens

/-- A step takes a token whenever its answer is of a certain sort. -/
def TakesIf (going : α → Prop) (x : Codegen α) : Prop :=
  ∀ s a s', Runs x s a s' → going a →
    ∃ terminal terminals, s.tokens.Reads (terminal :: terminals) s'.tokens

namespace Advances

/-- A step that leaves the tokens and the code alone. -/
theorem of_idle (tokens : ∀ s, (x.run.run s).2.tokens = s.tokens)
    (output : ∀ s, (x.run.run s).2.output = s.output) : Advances x where
  precedes s := .of_eq (tokens s) (output s)
  reads {s a s'} run := by
    have same := tokens s
    rw [show x.run.run s = (.ok a, s') from run] at same
    exact ⟨[], TokenStream.reads_nil.mpr same⟩

theorem pure (a : α) : Advances (Pure.pure a) :=
  of_idle (fun _ => rfl) fun _ => rfl

theorem throw (fault : Fault) : Advances (MonadExcept.throw fault : Codegen α) :=
  of_idle (fun _ => rfl) fun _ => rfl

theorem look (view : TokenStream → α) : Advances (Codegen.look view) :=
  of_idle (fun _ => rfl) fun _ => rfl

theorem report (event : Event) : Advances (Codegen.report event) :=
  of_idle (fun _ => rfl) fun _ => rfl

theorem freshLabel : Advances Codegen.freshLabel :=
  of_idle (fun _ => rfl) fun _ => rfl

theorem startSubroutine : Advances Codegen.startSubroutine :=
  of_idle (fun _ => rfl) fun _ => rfl

theorem lookup? (name : String) : Advances (Codegen.lookup? name) :=
  of_idle (fun _ => rfl) fun _ => rfl

theorem declarations (kind : VariableKind) : Advances (Codegen.declarations kind) :=
  of_idle (fun _ => rfl) fun _ => rfl

/-- A step behind another goes on from where that one has come, unless that one fails. -/
theorem bind (first : Advances x) (rest : ∀ a, Advances (f a)) : Advances (x >>= f) where
  precedes s := by
    have before := first.precedes s
    rw [run_bind]
    generalize x.run.run s = outcome at before
    rcases outcome with ⟨fault | a, middle⟩
    · exact before
    · exact before.trans ((rest a).precedes middle)
  reads run := by
    obtain ⟨a, middle, run, run'⟩ := runs_bind.mp run
    obtain ⟨terminals, reads⟩ := first.reads run
    obtain ⟨more, reads'⟩ := (rest a).reads run'
    exact ⟨_, reads.append reads'⟩

theorem skip : Advances Codegen.skip where
  precedes s := by
    refine ⟨fun {tokens fault} gives => ?_, fun _ => ⟨[], by rw [Sink.extend_nil, output_run_skip]⟩⟩
    cases tokens with
    | nil =>
      -- Without a look-ahead nothing is taken.
      have none : s.tokens.lookahead = none := gives.lookahead_eq
      rw [tokens_run_skip, TokenReader.run_next_eq, none]
      exact ⟨_, _, List.suffix_rfl, gives⟩
    | cons token tokens =>
      obtain ⟨more, fault', suffix, rest⟩ := gives_run_skip gives
      exact ⟨more, fault', suffix.trans (List.suffix_cons _ _), rest⟩
  reads run := by
    obtain ⟨terminal, tokens, reads, rfl⟩ := runs_skip.mp run
    exact ⟨_, reads⟩

theorem emit (instruction : Instruction) : Advances (Codegen.emit instruction) where
  precedes s := by
    refine ⟨fun gives => ⟨_, _, List.suffix_rfl, gives⟩, fun unlimited => ?_⟩
    exact ⟨[instruction],
      congrArg Prod.snd (Sink.write_of_unlimited Instruction.text instruction unlimited)⟩
  reads run := by
    obtain ⟨output, -, rfl⟩ := runs_emit.mp run
    exact ⟨[], .nil _⟩

theorem flush : Advances Codegen.flush :=
  of_idle (fun s => by rw [run_flush]; split <;> rfl) fun s => by rw [run_flush]; split <;> rfl

theorem declare (name type : String) (kind : VariableKind) (place : Location) :
    Advances (Codegen.declare name type kind place) :=
  of_idle (fun s => by rw [run_declare]; split <;> rfl) fun s => by rw [run_declare]; split <;> rfl

theorem iterateAtMost {step : α → Codegen (Option α)} (round : ∀ a, Advances (step a)) (bound : Nat)
    (a : α) : Advances (Codegen.iterateAtMost step bound a) := by
  induction bound generalizing a with
  | zero => exact .pure a
  | succ bound ih =>
    refine .bind (round a) fun next => ?_
    cases next with
    | none => exact .pure a
    | some b => exact ih b

theorem iterate {step : α → Codegen (Option α)} (round : ∀ a, Advances (step a)) (a : α) :
    Advances (Codegen.iterate step a) :=
  .bind (.look _) fun _ => .iterateAtMost round _ a

end Advances

/-! ### Taking a token -/

namespace TakesIf

variable {going : α → Prop} {goingOn : β → Prop}

theorem pure {a : α} (idle : ¬ going a) : TakesIf going (Pure.pure a) := by
  intro s b s' run isGoing
  obtain ⟨rfl, -⟩ := runs_pure.mp run
  exact absurd isGoing idle

theorem skip : TakesIf (fun _ => True) Codegen.skip := by
  intro s a s' run _
  obtain ⟨terminal, tokens, reads, rfl⟩ := runs_skip.mp run
  exact ⟨terminal, [], reads⟩

theorem skipExpected (kind : TokenKind) :
    TakesIf (fun _ => True) (discard (read (TokenReader.expect kind))) := by
  intro s a s' run _
  obtain ⟨token, run⟩ := runs_discard.mp run
  obtain ⟨tokens, -, takes, rfl⟩ := runs_expect.mp run
  exact ⟨_, [], takes.reads⟩

theorem accept (kind : TokenKind) : TakesIf (· = true) (read (TokenReader.accept kind)) := by
  rintro s _ s' run rfl
  obtain ⟨-, tokens, token, takes, -, rfl⟩ | ⟨other, -⟩ := runs_accept.mp run
  · exact ⟨_, [], takes.reads⟩
  · cases other

/-- A composed step takes a token if its first part does or if what follows does. -/
theorem bind (takes : TakesIf going x) (first : Advances x) (rest : ∀ a, Advances (f a))
    (idle : ∀ a, ¬ going a → TakesIf goingOn (f a)) : TakesIf goingOn (x >>= f) := by
  intro s b s' run isGoing
  obtain ⟨a, middle, run, run'⟩ := runs_bind.mp run
  by_cases goes : going a
  · obtain ⟨terminal, terminals, reads⟩ := takes s a middle run goes
    obtain ⟨more, reads'⟩ := (rest a).reads run'
    exact ⟨terminal, terminals ++ more, reads.append reads'⟩
  · obtain ⟨terminals, reads⟩ := first.reads run
    obtain ⟨terminal, more, reads'⟩ := idle a goes middle b s' run' isGoing
    cases terminals with
    | nil => exact ⟨terminal, more, reads.append reads'⟩
    | cons terminal' terminals => exact ⟨terminal', _, reads.append reads'⟩

theorem second (first : Advances x) (rest : ∀ a, Advances (f a))
    (takes : ∀ a, TakesIf goingOn (f a)) : TakesIf goingOn (x >>= f) := by
  have never : TakesIf (fun _ => False) x := fun _ _ _ _ absurd => absurd.elim
  exact never.bind first rest fun a _ => takes a

end TakesIf

end Codegen

end JackCompiler
