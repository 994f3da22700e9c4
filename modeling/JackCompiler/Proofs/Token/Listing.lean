import JackCompiler.Proofs.Output.Replay
import JackCompiler.Proofs.Token.Upcoming
import JackCompiler.Token.Listing

/-!
# What a token listing writes

A listing writes a line for each token up to the first fault, whatever the sink is. The closing line
is written only if there is no fault.

## Main definitions

* `listingLines`, `listingResult` — the lines of the listing of a source, and how it ends
* `ListingWriter.Replays` — what a step writes, and how it ends

## Main results

* `writeListing_eq_deliver` — a listing writes its lines, ends, and hands them on
-/

namespace JackCompiler

/-- The lines of the listing of a source. -/
def listingLines (file source : String) : List ListingLine :=
  .opening :: (sourceTokens file source).map .ofToken ++
    match sourceFault file source with
    | none => [.closing]
    | some _ => []

/-- How the listing of a source ends, before it is handed on. -/
def listingResult (file source : String) : Except Fault Unit :=
  match sourceFault file source with
  | none => .ok ()
  | some fault => .error (.lexical fault)

namespace ListingWriter

variable {α β : Type}

theorem run_bind (step : ListingWriter α) (next : α → ListingWriter β) (sink : Sink ListingLine) :
    (step >>= next).run.run sink = match step.run.run sink with
      | (.ok a, sink) => (next a).run.run sink
      | (.error fault, sink) => (.error fault, sink) := by
  rw [ExceptT.run_bind, StateT.run_bind]
  rcases step.run.run sink with ⟨_ | a, middle⟩ <;> rfl

/-- A step writes the given lines and ends in the given way, whatever the sink is. -/
def Replays (step : ListingWriter Unit) (lines : List ListingLine) (result : Except Fault Unit) :
    Prop :=
  ∀ sink : Sink ListingLine, step.run.run sink = sink.replay ListingLine.text lines result

theorem replays_pure : Replays (pure ()) [] (.ok ()) := fun _ => rfl

theorem replays_throw (fault : Fault) : Replays (throw fault) [] (.error fault) := fun _ => rfl

theorem replays_emit (line : ListingLine) : Replays (emit line) [line] (.ok ()) := by
  intro sink
  rw [Sink.replay, Sink.writeAll_singleton]
  rcases written : sink.write ListingLine.text line with ⟨fault | _, sink'⟩ <;>
    simp [emit, ExceptT.run, StateT.run, written]

/-- A step that goes on behind another writes its lines behind those of the other. -/
theorem Replays.bind {step : ListingWriter Unit} {next : Unit → ListingWriter Unit}
    {lines more : List ListingLine} {result : Except Fault Unit}
    (first : Replays step lines (.ok ())) (rest : Replays (next ()) more result) :
    Replays (step >>= next) (lines ++ more) result := by
  intro sink
  rw [run_bind, first sink, Sink.replay, Sink.replay, Sink.writeAll_append]
  rcases sink.writeAll ListingLine.text lines with ⟨fault | _, sink'⟩
  · rfl
  · exact rest sink'

/-- Nothing goes on behind a step that ends with a fault. -/
theorem Replays.bind_error {step : ListingWriter Unit} {next : Unit → ListingWriter Unit}
    {lines : List ListingLine} {fault : Fault} (first : Replays step lines (.error fault)) :
    Replays (step >>= next) lines (.error fault) := by
  intro sink
  rw [run_bind, first sink, Sink.replay]
  rcases sink.writeAll ListingLine.text lines with ⟨fault | _, sink'⟩ <;> rfl

/-- What a listing writes of its tokens is what is read of them, up to the first fault. -/
theorem replays_emitTokens (bound : Nat) (lexer : Lexer) (read : Array Token) : ∃ tokens,
    (Lexer.readFrom read bound lexer).tokens.toList = read.toList ++ tokens ∧
      Replays (emitTokens bound lexer) (tokens.map .ofToken)
        (match (Lexer.readFrom read bound lexer).fault with
        | none => .ok ()
        | some fault => .error (.lexical fault)) := by
  induction bound generalizing lexer read with
  | zero => exact ⟨[], by simp [Lexer.readFrom], replays_pure⟩
  | succ bound ih =>
    rw [emitTokens, Lexer.readFrom]
    rcases lexer.next with ⟨fault | _ | token, lexer'⟩
    · exact ⟨[], by simp, replays_throw _⟩
    · exact ⟨[], by simp, replays_pure⟩
    · obtain ⟨tokens, all, rest⟩ := ih lexer' (read.push token)
      exact ⟨token :: tokens, by simp [all], .bind (replays_emit _) rest⟩

end ListingWriter

open ListingWriter in
/-- All that is written before the listing is handed on. -/
theorem replays_listingLines (file source : String) :
    Replays (do
        emit .opening
        emitTokens ((Lexer.ofSource file source).bytesLeft + 1) (.ofSource file source)
        emit .closing) (listingLines file source) (listingResult file source) := by
  obtain ⟨tokens, all, written⟩ := replays_emitTokens
    ((Lexer.ofSource file source).bytesLeft + 1) (.ofSource file source) #[]
  obtain rfl : tokens = sourceTokens file source := all.symm
  change Replays _ _ (listingResult file source) at written
  unfold listingResult listingLines at *
  cases fault : sourceFault file source with
  | some fault =>
    rw [fault] at written
    rw [List.append_nil]
    exact .bind (replays_emit _) (.bind_error written)
  | none =>
    rw [fault] at written
    rw [List.cons_append]
    exact .bind (replays_emit _) (.bind written (replays_emit _))

open ListingWriter in
/-- **A listing writes its lines, ends, and hands them on.** -/
theorem writeListing_eq_deliver (file source : String) (sink : Sink ListingLine) :
    writeListing file source sink =
      sink.deliver ListingLine.text (listingLines file source) (listingResult file source) := by
  rw [writeListing, listing, ← bind_assoc, ← bind_assoc, run_bind, bind_assoc,
    replays_listingLines file source sink, Sink.deliver]
  rcases sink.replay ListingLine.text (listingLines file source) (listingResult file source)
    with ⟨fault | _, sink'⟩
  · rfl
  · obtain ⟨items, torn, room, canFlush⟩ := sink'
    cases canFlush <;> rfl

end JackCompiler
