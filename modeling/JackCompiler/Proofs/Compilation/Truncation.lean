import JackCompiler.Proofs.Compilation.Lookahead
import JackCompiler.Proofs.Token.Listing

/-!
# A failing sink truncates the output

A compilation that runs into the limit of its sink fails at once: the bytes that the sink has taken
are the first bytes of what it would have got without the limit. A fault that would have been found
later is never reported in place of the one of the sink. The same holds of token listings.

## Main definitions

* `TruncatesOnly` — what a limited sink and one that cannot be flushed change
* `Codegen.sameTokens` — runs over the same tokens and sinks of different kinds

## Main results

* `exists_deliver_compileClass` — the code and the end of a compilation do not depend on the sink
* `output_truncatesOnly` — compilations and token listings are truncated and nothing else
-/

namespace JackCompiler

/-! ### What follows from delivering fixed items -/

section Deliver

variable {α : Type} {render : α → String} {items : List α} {result : Except Fault Unit}
  {sink sink' : Sink α}

theorem Sink.deliver_of_written (written : sink.writeAll render items = (.ok (), sink')) :
    sink.deliver render items result = (match result with
      | .ok () => sink'.flush.mapError .storage
      | .error fault => .error fault, sink') := by
  rw [deliver, replay, written]
  rcases result with fault | _ <;> rfl

theorem Sink.deliver_of_failed {fault : StorageFault}
    (failed : sink.writeAll render items = (.error fault, sink')) :
    sink.deliver render items result = (.error (.storage fault), sink') := by
  rw [deliver, replay, failed]

/-- A run over a sink that fails does what the run over a sink without limits does, up to the
failure. As long as nothing fails, whole lines are stored. -/
structure TruncatesOnly (render : α → String) (run : Sink α → Except Fault Unit × Sink α) :
    Prop where
  fits : ∀ n, ((run {}).2.bytes render).size ≤ n →
    (run { room := some n }).1 = (run {}).1 ∧
      (run { room := some n }).2.bytes render = (run {}).2.bytes render
  cut : ∀ n, n < ((run {}).2.bytes render).size →
    (run { room := some n }).1 = .error (.storage .sinkFull) ∧
      (run { room := some n }).2.bytes render = ((run {}).2.bytes render).extract 0 n
  unflushed : (run { canFlush := false }).1 = (match (run {}).1 with
      | .ok () => .error (.storage .flushFailed)
      | .error fault => .error fault) ∧
    (run { canFlush := false }).2.bytes render = (run {}).2.bytes render
  wholeLines : ∃ text, (run {}).2.bytes render = text.toUTF8 ∧ WholeLines text

/-- Items that are delivered whatever the sink is are truncated and nothing else. -/
theorem truncatesOnly_of_deliver {run : Sink α → Except Fault Unit × Sink α}
    (delivers : ∀ sink, run sink = sink.deliver render items result) :
    TruncatesOnly render run := by
  have ended : (run {}).1 = result := by
    rw [delivers, Sink.deliver_of_written (Sink.writeAll_of_unlimited items rfl)]
    rcases result with fault | _ <;> rfl
  have stored : (run {}).2.bytes render = (Sink.lines render items).toUTF8 := by
    rw [delivers, Sink.deliver_of_written (Sink.writeAll_of_unlimited items rfl),
      Sink.bytes_extend items rfl]
    exact ByteArray.empty_append
  have size : (Sink.lines render items).toUTF8.size = (Sink.lines render items).utf8ByteSize := rfl
  have limited (n : Nat) := @Sink.bytes_writeAll_of_limited _ render { room := some n } n items
    rfl rfl
  refine ⟨fun n fits => ?_, fun n cut => ?_, ?_, _, stored, wholeLines_lines items⟩
  · rw [stored, size] at fits
    obtain ⟨done, bytes⟩ := limited n
    rw [if_pos fits] at done
    have kept : (Sink.writeAll render items { room := some n }).2.canFlush = true :=
      Sink.canFlush_writeAll items _
    rw [ended, stored, delivers, Sink.deliver_of_written (Prod.ext done rfl), bytes,
      Sink.extract_toUTF8_of_le fits]
    refine ⟨?_, ByteArray.empty_append⟩
    rcases result with fault | _
    · rfl
    · simp [Sink.flush, kept, Except.mapError]
  · rw [stored, size] at cut
    obtain ⟨failed, bytes⟩ := limited n
    rw [if_neg (Nat.not_le.mpr cut)] at failed
    rw [stored, delivers, Sink.deliver_of_failed (Prod.ext failed rfl), bytes]
    exact ⟨rfl, ByteArray.empty_append⟩
  · rw [ended, stored, delivers,
      Sink.deliver_of_written (Sink.writeAll_of_unlimited items rfl), Sink.bytes_extend items rfl]
    refine ⟨?_, ByteArray.empty_append⟩
    rcases result with fault | _ <;> rfl

end Deliver

/-! ### Compilations over sinks of different kinds -/

namespace Codegen

/-- Runs over the same tokens, the first of them over a sink without limits. They part where the
second sink fails. -/
def sameTokens (sink : Sink Instruction) : Pairing where
  streams := Eq
  sinks o o' := ∃ code, o = Sink.extend Instruction.text {} code ∧
    sink.writeAll Instruction.text code = (.ok (), o')
  places := Eq
  parted _ s g t := ∃ code fault, s.output = Sink.extend Instruction.text {} code ∧
    g = some (.storage fault) ∧ sink.writeAll Instruction.text code = (.error fault, t.output)

variable {sink : Sink Instruction} {s t : Session}

theorem skip_sameTokens (sessions : (sameTokens sink).Sessions s t) :
    (sameTokens sink).Outcome (skip.run.run s) (skip.run.run t) := by
  have tokens : s.tokens = t.tokens := sessions.streams
  cases next : TokenReader.next.run.run t.tokens with
  | mk result behind =>
    cases result with
    | ok token =>
      have takes := TokenReader.run_next.mp next
      exact sessions.skip_taken (tokens ▸ takes) takes rfl
    | error fault =>
      rw [run_skip, run_skip, tokens, next]
      exact .failure (.same fault) ⟨sessions.outputs, sessions.events⟩

theorem emit_sameTokens (instruction : Instruction) (sessions : (sameTokens sink).Sessions s t) :
    (sameTokens sink).Outcome ((emit instruction).run.run s) ((emit instruction).run.run t) := by
  obtain ⟨code, output, written⟩ := sessions.outputs
  have unlimited : s.output.room = none := by simp [output, Sink.extend]
  have extended : s.output.extend Instruction.text [instruction] =
      Sink.extend Instruction.text {} (code ++ [instruction]) := by
    rw [output, Sink.extend_append]
  have next : sink.writeAll Instruction.text (code ++ [instruction]) =
      t.output.write Instruction.text instruction := by
    rw [Sink.writeAll_append, written]
    exact Sink.writeAll_singleton instruction t.output
  rw [run_emit, run_emit, Sink.write_of_unlimited _ _ unlimited]
  generalize t.output.write Instruction.text instruction = outcome at next
  rcases outcome with ⟨fault | _, output'⟩
  · exact .of_parted ⟨_, fault, extended, rfl, next⟩
  · exact .answer { sessions with outputs := ⟨_, extended, next⟩ }

/-- Runs over sinks of different kinds stay in lockstep until one of the sinks fails. -/
def sinkLockstep (sink : Sink Instruction) : Lockstep where
  toPairing := sameTokens sink
  upcoming := congrArg _
  location := congrArg _
  refl _ := rfl
  skip := skip_sameTokens
  emit := emit_sameTokens
  onward := by
    rintro f f' g g' s s' t t' ⟨code, fault, output, rfl, failed⟩ on on'
    -- The second run has failed and stands still, the first may still write.
    cases on'
    cases on with
    | still => exact ⟨code, fault, output, rfl, failed⟩
    | moves _ precedes =>
      obtain ⟨more, extended⟩ := precedes.output (by simp [output, Sink.extend])
      refine ⟨code ++ more, fault, ?_, rfl, ?_⟩
      · rw [extended, output, Sink.extend_append]
      · rw [Sink.writeAll_append, failed]

/-- The code of a run over a sink without limits settles what is done to any sink. -/
theorem exists_replay_classBody {tokens : TokenStream} (consistent : tokens.Consistent) :
    ∃ code result, ∀ sink : Sink Instruction,
      ((classBody.run.run { tokens, output := sink }).1,
        (classBody.run.run { tokens, output := sink }).2.output) =
      sink.replay Instruction.text code result := by
  have keeps (sink : Sink Instruction) := Lockstep.Keeps.classBody (L := sinkLockstep sink)
  obtain ⟨code, output⟩ := ((keeps {}).left.precedes { tokens, output := {} }).output rfl
  refine ⟨code, (classBody.run.run { tokens, output := {} }).1, fun sink => ?_⟩
  have sessions : (sameTokens sink).Sessions { tokens, output := {} } { tokens, output := sink } :=
    { outputs := ⟨[], (Sink.extend_nil _ _).symm, rfl⟩, events := .nil, left := consistent,
      right := consistent, visible := rfl, nextLabel := rfl, streams := rfl }
  have outcome := (keeps sink).together sessions
  have only {code' : List Instruction} (same : Sink.extend Instruction.text {} code =
      Sink.extend Instruction.text {} code') : code' = code := by
    simpa [Sink.extend] using same.symm
  generalize classBody.run.run { tokens, output := {} } = run at outcome output
  generalize classBody.run.run { tokens, output := sink } = run' at outcome
  cases outcome with
  | answer sessions =>
    obtain ⟨code', output', written⟩ := sessions.outputs
    obtain rfl := only (output.symm.trans output')
    rw [Sink.replay, written]
  | failure alike reports =>
    obtain ⟨code', output', written⟩ := reports.outputs
    obtain rfl := only (output.symm.trans output')
    rw [Sink.replay, written]
    cases alike with
    | same => rfl
    | syntactic related =>
      cases related
      rfl
  | @parted _ y _ _ parted =>
    obtain ⟨code', fault, output', failed, written⟩ := parted
    obtain rfl := only (output.symm.trans output')
    rw [Sink.replay, written]
    cases y with
    | ok => cases failed
    | error => rw [Option.some.inj failed]

end Codegen

open Codegen in
/-- **The code and the end of a compilation do not depend on the sink.** -/
theorem exists_deliver_compileClass (file source : String) : ∃ code result, ∀ sink,
    ((compileClass file source sink).result, (compileClass file source sink).output) =
      sink.deliver Instruction.text code result := by
  cases start : TokenStream.ofLexer (.ofSource file source) with
  | error fault =>
    refine ⟨[], .error (.lexical fault), fun sink => ?_⟩
    rw [compileClass, start]
    rfl
  | ok tokens =>
    have consistent := Lexer.consistent_ofLexer (Lexer.consistent_ofSource file source) start
    obtain ⟨code, result, replays⟩ := exists_replay_classBody consistent
    refine ⟨code, result, fun sink => ?_⟩
    rw [compileClass_of_start start, classSource, run_bind, Sink.deliver, ← replays sink]
    rcases classBody.run.run { tokens, output := sink } with ⟨fault | _, s⟩
    · rfl
    · dsimp only
      rw [run_flush]
      cases canFlush : s.output.canFlush <;> simp [Sink.flush, canFlush, Except.mapError]

/-- **A failing sink truncates the output and nothing else.** This holds of the code of a class and
of the token listing of a source. -/
theorem output_truncatesOnly (file source : String) :
    TruncatesOnly Instruction.text (fun sink =>
      ((compileClass file source sink).result, (compileClass file source sink).output)) ∧
    TruncatesOnly ListingLine.text (writeListing file source) := by
  obtain ⟨code, result, delivers⟩ := exists_deliver_compileClass file source
  exact ⟨truncatesOnly_of_deliver delivers,
    truncatesOnly_of_deliver (writeListing_eq_deliver file source)⟩

end JackCompiler
