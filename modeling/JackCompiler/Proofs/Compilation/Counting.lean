import JackCompiler.Proofs.Codegen.ClassAgreement
import JackCompiler.Proofs.Compilation.Lookahead

/-!
# Compilations that count

A compilation that counts the open levels comes to the same as one that is told how many levels are
left, if its sessions can be watched: it writes the same code, reports the same events and fails for
the same cause. It closes every level that it opens, unless it fails, and never are more levels open
than there may be, but for the one that it fails at.

## Main definitions

* `CountedCompilation.Agrees` — a compilation that counts comes to the same as another one

## Main results

* `compileCounted_agrees` — it does, if its sessions can be watched
-/

namespace JackCompiler

/-- A compilation that counts comes to the same as one that is told how many levels are left. -/
structure CountedCompilation.Agrees (counted : CountedCompilation) (plain : Compilation) :
    Prop where
  /-- It is neither out of range nor cut off. -/
  result : counted.result = plain.result.mapError .fault
  output : counted.output = plain.output
  events : counted.events = plain.events
  closed : plain.result = .ok () → counted.depth = 0
  depth_le : counted.depth ≤ maxNesting + 1
  tooDeep : maxNesting < counted.depth ↔ ∃ fault, plain.result = .error fault ∧ fault.IsNesting

variable {limits : Limits} {W : Watch limits} {levels n : Nat} {file source : String}
  {sink : Sink Instruction}

theorem Fault.IsNesting.ofSource {fault : Fault} (h : fault.IsNesting) : fault.OfSource := by
  obtain ⟨place, rfl⟩ := h
  intro expected encountered same
  cases same

/-- A source whose first token can be read is compiled by a run over a class. -/
theorem compileCounted_of_start {tokens : TokenStream}
    (start : TokenStream.ofLexer (.ofSource file source) = .ok tokens) :
    compileCounted limits levels file source sink =
      let run := (Counted.classSource levels : Counted limits Unit).run
        { session := { tokens, output := sink } }
      { result := run.1
        output := run.2.session.output
        events := run.2.session.events
        depth := run.2.depth } := by
  rw [compileCounted, start]

/-- A fault in front of the first token is met before anything is counted. -/
theorem compileCounted_of_error {fault : Located LexicalFault}
    (start : TokenStream.ofLexer (.ofSource file source) = .error fault) :
    compileCounted limits levels file source sink =
        { result := .error (.fault (.lexical fault)), output := sink, events := #[], depth := 0 } ∧
      compileClass file source sink =
        { result := .error (.lexical fault), output := sink, events := #[] } ∧
      fault.cause ≠ .unexpectedEnd := by
  refine ⟨by rw [compileCounted, start], by rw [compileClass, start], ?_⟩
  unfold TokenStream.ofLexer at start
  split at start
  · cases start
  · rename_i next
    cases start
    exact Lexer.cause_of_next next

/-- **Counting changes nothing.** -/
theorem compileCounted_agrees (enough : maxNesting < levels)
    (start : ∀ tokens, TokenStream.ofLexer (.ofSource file source) = .ok tokens →
      W.holds (n + 1) { tokens, output := sink }) :
    (compileCounted limits levels file source sink).Agrees (compileClass file source sink) ∧
      ∀ fault, (compileClass file source sink).result = .error fault → W.faults fault := by
  cases begins : TokenStream.ofLexer (.ofSource file source) with
  | error fault =>
    obtain ⟨counted, plain, cause⟩ := compileCounted_of_error begins
    rw [counted, plain]
    refine ⟨⟨rfl, rfl, rfl, by simp, Nat.zero_le _, by simp [Fault.IsNesting]⟩, ?_⟩
    rintro _ ⟨⟩
    exact W.ofSource cause
  | ok tokens =>
    -- Any two runs in lockstep will do, it is only asked for that steps take tokens.
    have unlimited : ({} : Sink Instruction).room = none := rfl
    have outcome := Watch.Mirrors.classSource (W := W) enough
      (lookaheadLockstep unlimited [] [] none none) (Nat.zero_le _) _ (start tokens begins) trivial
    rw [compileClass_of_start begins, compileCounted_of_start begins]
    generalize Counted.run _ _ = run' at outcome ⊢
    generalize Codegen.classSource.run.run { tokens, output := sink } = run at outcome ⊢
    cases outcome with
    | answer holds =>
      exact ⟨⟨rfl, rfl, rfl, fun _ => rfl, Nat.zero_le _, by simp⟩, by simp⟩
    | failure possible other within =>
      refine ⟨⟨rfl, rfl, rfl, by simp, Nat.le_succ_of_le within, ?_⟩, ?_⟩
      · simpa [other] using within
      · rintro _ ⟨⟩
        exact possible
    | nesting isNesting =>
      refine ⟨⟨rfl, rfl, rfl, by simp, Nat.le_refl _, ?_⟩, ?_⟩
      · simpa using isNesting
      · rintro _ ⟨⟩
        exact W.ofSource isNesting.ofSource

end JackCompiler
