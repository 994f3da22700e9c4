import JackCompiler.Proofs.Codegen.Warnings
import JackCompiler.Proofs.Compilation.FirstViolation
import JackCompiler.Proofs.Compilation.Truncation

/-!
# Missing values are warned of exactly

A source that compiles has one tree, and the warnings of its compilation are about the values that
are missing in this tree, one after the other. It does not matter what the code is written to.

## Main results

* `exists_runs_of_sink` — a run that answers reports the same over a sink without limits
* `compileClass_warnings` — the warnings of a compilation
-/

namespace JackCompiler

open Grammar Codegen

variable {file source : String} {sink : Sink Instruction}

/-- Events that correspond without any difference in their places. -/
theorem eq_of_alike {events others : List Event}
    (alike : List.Forall₂ (Event.Alike Eq) events others) : events = others := by
  induction alike with
  | nil => rfl
  | cons first _ ih =>
    cases first with
    | same => rw [ih]
    | sourceBegun related | valueMissing related => rw [related, ih]

/-- A run that answers reports the same over a sink without limits. -/
theorem exists_runs_of_sink {tokens : TokenStream} (consistent : tokens.Consistent) {s : Session}
    (run : Runs classBody { tokens, output := sink } () s) :
    ∃ t, Runs classBody { tokens, output := {} } () t ∧ t.events = s.events := by
  have sessions : (sameTokens sink).Sessions { tokens, output := {} } { tokens, output := sink } :=
    { outputs := ⟨[], (Sink.extend_nil _ _).symm, rfl⟩, events := .nil, left := consistent,
      right := consistent, visible := rfl, nextLabel := rfl, streams := rfl }
  have outcome := (Lockstep.Keeps.classBody (L := sinkLockstep sink)).together sessions
  rw [show classBody.run.run { tokens, output := sink } = (.ok (), s) from run] at outcome
  generalize unlimited : classBody.run.run { tokens, output := {} } = run' at outcome
  cases outcome with
  | @answer _ t _ sessions =>
    exact ⟨t, unlimited, Array.toList_inj.mp (eq_of_alike sessions.events)⟩
  | parted parted =>
    -- A run that answers has not failed, so that the runs have not parted.
    obtain ⟨code, fault, -, failed, -⟩ := parted
    cases failed

/-- **Missing values are warned of exactly.** If a source compiles, then its tokens are derived by
exactly one tree. The warnings are about the return statements of this tree that are without a value
in a subroutine with a declared type, one for each, from left to right. Each warning names the
subroutine, its type and the line of the semicolon. -/
theorem compileClass_warnings (compiles : (compileClass file source sink).result = .ok ()) :
    ∃ c : ClassDeclaration, (∀ c', c'.terminals = sourceTerminals file source ↔ c' = c) ∧
      List.Forall₂ (script file source).Tells
        (warnings (compileClass file source sink).events) c.missingValues ∧
      c.missingValues.Pairwise fun m n => n.left < m.left := by
  obtain ⟨noFault, c, -, only, -⟩ := exists_tree_of_compiles compiles
  obtain ⟨tokens, s, start, run⟩ := compileClass_result_eq_ok_iff.mp compiles
  obtain ⟨_, s₁, taken, flushed⟩ := runs_bind.mp run
  obtain ⟨-, rfl⟩ := runs_flush.mp flushed
  have consistent := Lexer.consistent_ofLexer (Lexer.consistent_ofSource file source) start
  obtain ⟨t, taken', events⟩ := exists_runs_of_sink consistent taken
  -- The tokens that the compilation has started with show the whole tree.
  have written : c.WrittenAs file source := ⟨noFault, ((only c).mpr rfl).symm⟩
  obtain ⟨tokens', start', faces⟩ := written.exists_faces {} rfl
  obtain rfl : tokens = tokens' := Except.ok.inj (start.symm.trans start')
  obtain ⟨visible, warns⟩ := classBody_warns (script file source) c
  obtain ⟨-, -, told, warned, tells⟩ := warns _ _ _ faces taken'
  refine ⟨c, only, ?_, c.pairwise_missingValues⟩
  rw [compileClass_of_runs start run, ← events, warned]
  exact tells

/-- A class with values that are missing in blocks, the first of them with its semicolon on a line
of its own, behind a subroutine that promises nothing. -/
def forgetful : String :=
  "class A \x7b function void f() \x7b return; \x7d\n" ++
    "method int g() \x7b if (true) \x7b return\n; \x7d\n" ++
    "else \x7b while (true) \x7b return; \x7d \x7d return 1; \x7d \x7d"

theorem compileClass_warnings_forgetful :
    let compilation := compileClass "A.jack" forgetful {}
    compilation.result = .ok () ∧
      warnings compilation.events =
        [.valueMissing { file := "A.jack", line := 3 } "g" "int",
          .valueMissing { file := "A.jack", line := 4 } "g" "int"] ∧
      ∃ c : ClassDeclaration,
        (∀ c', c'.terminals = sourceTerminals "A.jack" forgetful ↔ c' = c) ∧
        List.Forall₂ (script "A.jack" forgetful).Tells (warnings compilation.events)
          c.missingValues ∧
        c.missingValues.Pairwise fun m n => n.left < m.left := by
  have run : (compileClass "A.jack" forgetful {}).result = .ok () ∧
      warnings (compileClass "A.jack" forgetful {}).events =
        [.valueMissing { file := "A.jack", line := 3 } "g" "int",
          .valueMissing { file := "A.jack", line := 4 } "g" "int"] := by
    decide +kernel
  exact ⟨run.1, run.2, compileClass_warnings run.1⟩

end JackCompiler
