import JackCompiler.Proofs.Codegen.ClassLockstep
import JackCompiler.Proofs.Compilation.Reference

/-!
# Layout does not matter

Sources that have the same tokens are compiled alike, whatever stands between their tokens, on which
lines the tokens stand and what the files are called. This is also true of sources that do not
compile: what has been written until then is the same, and so are the faults and the warnings, up to
the places that they name.

## Main definitions

* `Fault.unplaced`, `Event.unplaced` — faults and events without their places

## Main results

* `compileClass_layout` — sources with the same tokens are compiled alike
-/

namespace JackCompiler

open Codegen

/-- A fault without the place where it was found. -/
def Fault.unplaced : Fault → Fault
  | .lexical fault => .lexical { fault with location := default }
  | .syntactic fault => .syntactic { fault with location := default }
  | fault => fault

/-- An event without the place that it is about. -/
def Event.unplaced : Event → Event
  | .sourceBegun _ => .sourceBegun ""
  | .valueMissing _ subroutine type => .valueMissing default subroutine type
  | event => event

theorem Fault.Alike.unplaced_eq {places : Location → Location → Prop} {fault fault' : Fault}
    (alike : fault.Alike places fault') : fault.unplaced = fault'.unplaced := by
  cases alike <;> rfl

theorem Event.Alike.unplaced_eq {places : Location → Location → Prop} {event event' : Event}
    (alike : event.Alike places event') : event.unplaced = event'.unplaced := by
  cases alike <;> rfl

theorem map_unplaced_eq {places : Location → Location → Prop} {events events' : Array Event}
    (alike : List.Forall₂ (Event.Alike places) events.toList events'.toList) :
    events.map Event.unplaced = events'.map Event.unplaced := by
  refine Array.toList_inj.mp ?_
  rw [Array.toList_map, Array.toList_map, ← List.forall₂_eq_eq_eq, List.forall₂_map_left_iff,
    List.forall₂_map_right_iff]
  exact alike.imp fun _ _ => Event.Alike.unplaced_eq

/-- Streams that give the same tokens to their ends, wherever these stand, and equal sinks. The runs
never part. -/
def sameWording : Pairing where
  streams a b := ∃ tokens tokens', a.Gives tokens none ∧ b.Gives tokens' none ∧
    tokens.map Token.wording = tokens'.map Token.wording
  sinks := Eq
  places _ _ := True
  parted _ _ _ _ := False

variable {s t : Session}

theorem skip_sameWording (sessions : sameWording.Sessions s t) :
    sameWording.Outcome (skip.run.run s) (skip.run.run t) := by
  obtain ⟨tokens, tokens', gives, gives', same⟩ := sessions.streams
  match tokens, tokens', same with
  | [], [], _ => exact sessions.skip_ended gives.lookahead_eq gives'.lookahead_eq trivial
  | token :: tokens, token' :: tokens', same =>
    obtain ⟨behind, run, rest⟩ | ⟨_, _, -, -, faulty, -⟩ := gives.run_next
    · obtain ⟨behind', run', rest'⟩ | ⟨_, _, -, -, faulty, -⟩ := gives'.run_next
      · exact sessions.skip_taken (TokenReader.run_next.mp run) (TokenReader.run_next.mp run')
          ⟨tokens, tokens', rest, rest', (List.cons.inj same).2⟩
      · cases faulty
    · cases faulty

/-- Equal sinks take an instruction alike. -/
theorem emit_sameWording (instruction : Instruction) (sessions : sameWording.Sessions s t) :
    sameWording.Outcome ((emit instruction).run.run s) ((emit instruction).run.run t) := by
  have outputs : s.output = t.output := sessions.outputs
  rw [run_emit, run_emit, outputs]
  rcases t.output.write Instruction.text instruction with ⟨fault | _, output⟩
  · exact .failure (.same _) ⟨rfl, sessions.events⟩
  · exact .answer { sessions with outputs := rfl }

theorem flush_sameWording (sessions : sameWording.Sessions s t) :
    sameWording.Outcome (flush.run.run s) (flush.run.run t) := by
  have outputs : s.output = t.output := sessions.outputs
  rw [run_flush, run_flush, outputs]
  split
  · exact .answer sessions
  · exact .failure (.same _) sessions.toReports

/-- Runs over the same tokens stay in lockstep to their ends. -/
def layoutLockstep : Lockstep where
  toPairing := sameWording
  upcoming {a b} streams := by
    obtain ⟨tokens, tokens', gives, gives', same⟩ := streams
    rw [TokenStream.upcoming, TokenStream.upcoming, gives.lookahead_eq, gives'.lookahead_eq,
      ← List.head?_map, ← List.head?_map, same]
  location _ := trivial
  refl _ := trivial
  skip := skip_sameWording
  emit := emit_sameWording
  onward never := never.elim

variable {file source file' source' : String}

/-- A source without a lexical fault gives all its tokens. -/
theorem exists_gives_of_noFault (noFault : sourceFault file source = none) :
    ∃ stream, TokenStream.ofLexer (.ofSource file source) = .ok stream ∧ stream.Consistent ∧
      stream.Gives (sourceTokens file source) none := by
  obtain ⟨stream, start, consistent, gives⟩ | ⟨cause, -, -, faulty⟩ := gives_or_faulty file source
  · exact ⟨stream, start, consistent, noFault ▸ gives⟩
  · rw [noFault] at faulty
    cases faulty

/-- **Layout does not matter.** Two sources without a lexical fault whose tokens have the same kinds
and texts are compiled alike: the same code is written into a sink, and the results and the events
are the same up to places. -/
theorem compileClass_layout (sink : Sink Instruction)
    (noFault : sourceFault file source = none) (noFault' : sourceFault file' source' = none)
    (same : (sourceTokens file source).map Token.wording =
      (sourceTokens file' source').map Token.wording) :
    (compileClass file source sink).result.mapError Fault.unplaced =
        (compileClass file' source' sink).result.mapError Fault.unplaced ∧
      (compileClass file source sink).output = (compileClass file' source' sink).output ∧
      (compileClass file source sink).events.map Event.unplaced =
        (compileClass file' source' sink).events.map Event.unplaced := by
  obtain ⟨a, start, consistent, gives⟩ := exists_gives_of_noFault noFault
  obtain ⟨b, start', consistent', gives'⟩ := exists_gives_of_noFault noFault'
  have sessions : sameWording.Sessions { tokens := a, output := sink }
      { tokens := b, output := sink } :=
    { outputs := rfl, events := .nil, left := consistent, right := consistent', visible := rfl,
      nextLabel := rfl, streams := ⟨_, _, gives, gives', same⟩ }
  have outcome :=
    (Lockstep.Keeps.classSource (L := layoutLockstep) flush_sameWording).together sessions
  rw [compileClass_of_start start, compileClass_of_start start']
  generalize classSource.run.run { tokens := a, output := sink } = run at outcome
  generalize classSource.run.run { tokens := b, output := sink } = run' at outcome
  cases outcome with
  | answer sessions => exact ⟨rfl, sessions.outputs, map_unplaced_eq sessions.events⟩
  | failure alike reports =>
    exact ⟨congrArg Except.error alike.unplaced_eq, reports.outputs, map_unplaced_eq reports.events⟩
  | parted never => exact never.elim

/-- A class that returns without a promised value, and then uses a name that nothing declares. -/
def hasty : String :=
  "class A \x7b function int f() \x7b return; \x7d function void g() \x7b let x = 1; \x7d \x7d"

/-- The same tokens on several lines, with comments between them. -/
def hastySpread : String :=
  "// A\nclass A\x7bfunction int f() /* no\n value */ \x7breturn ;\x7d\n" ++
    "function void g ( )\n\x7blet x=\t1;\x7d\x7d // B"

theorem compileClass_layout_hasty :
    sourceFault "A.jack" hasty = none ∧ sourceFault "B.jack" hastySpread = none ∧
      (sourceTokens "A.jack" hasty).map Token.wording =
        (sourceTokens "B.jack" hastySpread).map Token.wording ∧
      (compileClass "A.jack" hasty {}).result.mapError Fault.unplaced =
        (compileClass "B.jack" hastySpread {}).result.mapError Fault.unplaced ∧
      (compileClass "A.jack" hasty {}).output = (compileClass "B.jack" hastySpread {}).output ∧
      (compileClass "A.jack" hasty {}).events.map Event.unplaced =
        (compileClass "B.jack" hastySpread {}).events.map Event.unplaced := by
  have noFault : sourceFault "A.jack" hasty = none := by decide +kernel
  have noFault' : sourceFault "B.jack" hastySpread = none := by decide +kernel
  have same : (sourceTokens "A.jack" hasty).map Token.wording =
      (sourceTokens "B.jack" hastySpread).map Token.wording := by decide +kernel
  exact ⟨noFault, noFault', same, compileClass_layout {} noFault noFault' same⟩

end JackCompiler
