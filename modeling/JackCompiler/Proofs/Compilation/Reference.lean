import JackCompiler.Proofs.Codegen.ClassDerivation
import JackCompiler.Proofs.Grammar.Unambiguity
import JackCompiler.Proofs.Output.Replay

/-!
# One pass and two

The compiler never has a tree of the class. What it writes is still what a compiler would write that
first reads all tokens, then builds the tree that derives them, and then translates the tree: a
source that compiles has exactly one tree, and its code is the code of that tree.

## Main definitions

* `sourceTerminals` — all tokens of a source, as the grammar sees them

## Main results

* `compileClass_result_eq_ok_iff` — compiling a source is a run over a class
* `bytes_compileClass_eq_codeText` — the output is the code of the only tree
-/

namespace JackCompiler

open Grammar Codegen

/-- All tokens of a source up to its end or its first fault, as the grammar sees them. -/
def sourceTerminals (file source : String) : List Terminal :=
  (Lexer.ofSource file source).toEnd.tokens.toList.map Token.terminal

namespace Codegen

theorem runs_flush {s s' : Session} {u : Unit} :
    Runs flush s u s' ↔ s.output.canFlush = true ∧ s' = s := by
  rw [flush, runs_bind]
  constructor
  · rintro ⟨found, middle, got, h⟩
    obtain ⟨rfl, rfl⟩ := runs_get.mp got
    split at h
    · rename_i possible
      refine ⟨?_, (runs_pure.mp h).2⟩
      -- A sink that cannot be flushed makes the step fail.
      cases able : middle.output.canFlush with
      | true => rfl
      | false => simp [Sink.flush, able] at possible
    · exact absurd h runs_throw
  · rintro ⟨possible, rfl⟩
    refine ⟨s', s', runs_get.mpr ⟨rfl, rfl⟩, ?_⟩
    rw [Sink.flush, if_pos possible]
    rfl

end Codegen

variable {file source : String} {sink : Sink Instruction}

/-- A source whose first token can be read is compiled by a run over a class. -/
theorem compileClass_of_start {tokens : TokenStream}
    (start : TokenStream.ofLexer (.ofSource file source) = .ok tokens) :
    compileClass file source sink =
      { result := (classSource.run.run { tokens, output := sink }).1
        output := (classSource.run.run { tokens, output := sink }).2.output
        events := (classSource.run.run { tokens, output := sink }).2.events } := by
  rw [compileClass, start]
  rfl

theorem compileClass_of_runs {tokens : TokenStream} {s : Session}
    (start : TokenStream.ofLexer (.ofSource file source) = .ok tokens)
    (run : Runs classSource { tokens, output := sink } () s) :
    compileClass file source sink =
      { result := .ok (), output := s.output, events := s.events } := by
  rw [compileClass_of_start start, show classSource.run.run { tokens, output := sink } = _ from run]

/-- A source is compiled if the class in it is taken and the sink can be flushed. -/
theorem compileClass_result_eq_ok_iff : (compileClass file source sink).result = .ok () ↔
    ∃ tokens s, TokenStream.ofLexer (.ofSource file source) = .ok tokens ∧
      Runs classSource { tokens, output := sink } () s := by
  constructor
  · intro h
    unfold compileClass at h
    split at h
    · cases h
    · rename_i tokens start
      exact ⟨tokens, _, start, Prod.ext h rfl⟩
  · rintro ⟨tokens, s, start, run⟩
    rw [compileClass_of_runs start run]

/-- The text of a source is what a sink without limits has got. -/
theorem compileText_eq_ok_iff {text : String} : (compileText file source).1 = .ok text ↔
    (compileClass file source {}).result = .ok () ∧
      (compileClass file source {}).output.text Instruction.text = text := by
  rw [compileText]
  cases (compileClass file source {}).result <;> simp [Except.map]

theorem codeText_eq_lines (code : List Instruction) :
    codeText code = Sink.lines Instruction.text code := rfl

theorem text_extend (sink : Sink Instruction) (code : List Instruction) :
    (sink.extend Instruction.text code).text Instruction.text =
      sink.text Instruction.text ++ codeText code :=
  Sink.text_extend_eq_lines code

/-- A source that compiles is derived by one tree, which obeys the rules, and its code is what the
sink has got. -/
theorem exists_tree_of_compiles (compiles : (compileClass file source sink).result = .ok ()) :
    (Lexer.ofSource file source).toEnd.fault = none ∧ ∃ c : ClassDeclaration, c.Lawful ∧
      (∀ c' : ClassDeclaration, c'.terminals = sourceTerminals file source ↔ c' = c) ∧
      (compileClass file source sink).output = sink.extend Instruction.text c.code := by
  obtain ⟨tokens, s, start, run⟩ := compileClass_result_eq_ok_iff.mp compiles
  obtain ⟨_, s₁, body, flushed⟩ := runs_bind.mp run
  obtain ⟨-, rfl⟩ := runs_flush.mp flushed
  obtain ⟨c, lawful, reads, atEnd, output⟩ := classBody_derives rfl rfl body
  -- The run has read to the end, so what it has read is all there is in the source.
  obtain ⟨noFault, terminals⟩ :=
    Lexer.toEnd_of_reads (Lexer.consistent_ofSource file source) start reads atEnd
  refine ⟨noFault, c, lawful, fun c' => ⟨fun derives => ?_, ?_⟩, ?_⟩
  · exact ClassDeclaration.terminals_injective (derives.trans terminals)
  · rintro rfl
    exact terminals.symm
  · rw [compileClass_of_runs start run, output]

/-- **One pass writes what two would.** If a source compiles, then it has no lexical fault, its
tokens are derived by exactly one tree, and the bytes behind those that the sink had before are
those of the code of that tree. -/
theorem bytes_compileClass_eq_codeText (file source : String) (sink : Sink Instruction)
    (intact : sink.torn = []) (compiles : (compileClass file source sink).result = .ok ()) :
    (Lexer.ofSource file source).toEnd.fault = none ∧ ∃ c : ClassDeclaration,
      (∀ c' : ClassDeclaration, c'.terminals = sourceTerminals file source ↔ c' = c) ∧
        (compileClass file source sink).output.bytes Instruction.text =
          sink.bytes Instruction.text ++ (codeText c.code).toUTF8 := by
  obtain ⟨noFault, c, -, only, output⟩ := exists_tree_of_compiles compiles
  refine ⟨noFault, c, only, ?_⟩
  rw [output, Sink.bytes_extend _ intact, codeText_eq_lines]

/-- A class with a loop. -/
def summing : String :=
  "class Main \x7b function int sum(int n) \x7b var int s; while (~(n < 1)) \x7b " ++
    "let s = s + n; let n = n - 1; \x7d return s; \x7d \x7d"

theorem exists_text_of_isOk (compiles : (compileText file source).1.isOk = true) :
    ∃ text, (compileText file source).1 = .ok text := by
  cases result : (compileText file source).1 with
  | ok text => exact ⟨text, rfl⟩
  | error fault => simp [result, Except.isOk, Except.toBool] at compiles

theorem compileText_summing : ∃ text, (compileText "Main.jack" summing).1 = .ok text :=
  exists_text_of_isOk (by decide +kernel)

theorem bytes_compileClass_summing :
    (compileClass "Main.jack" summing {}).result = .ok () ∧ ∃ c : ClassDeclaration,
      (∀ c' : ClassDeclaration,
        c'.terminals = sourceTerminals "Main.jack" summing ↔ c' = c) ∧
      (compileClass "Main.jack" summing {}).output.bytes Instruction.text =
        Sink.bytes Instruction.text {} ++ (codeText c.code).toUTF8 := by
  obtain ⟨text, compiles⟩ := compileText_summing
  have done := (compileText_eq_ok_iff.mp compiles).1
  exact ⟨done, (bytes_compileClass_eq_codeText "Main.jack" summing {} rfl done).2⟩

end JackCompiler
