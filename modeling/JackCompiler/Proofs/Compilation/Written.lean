import JackCompiler.Proofs.Codegen.ClassChecks
import JackCompiler.Proofs.Compilation.GeneratedCode
import JackCompiler.Proofs.Token.Spelling

/-!
# Classes and their sources

A class can be written down in many ways, with any layout between its tokens. Whether a source of it
compiles, and to what, can be read off the class.

## Main definitions

* `ClassDeclaration.WrittenAs`, `ClassDeclaration.source` — the sources of a class, and one of them
* `Compiles` — a source has code

## Main results

* `ClassDeclaration.WrittenAs.compiles_iff` — the sources of lawful classes compile
* `ClassDeclaration.WrittenAs.generatedCode_eq` — to the code of the class
-/

namespace JackCompiler

open Grammar Codegen

/-- A source has the tokens of a class, and nothing in it is no token. -/
structure Grammar.ClassDeclaration.WrittenAs (c : ClassDeclaration) (file source : String) :
    Prop where
  noFault : (Lexer.ofSource file source).toEnd.fault = none
  terminals : sourceTerminals file source = c.terminals

/-- A source has code. -/
def Compiles (file source : String) : Prop :=
  ∃ text, (compileText file source).1 = .ok text

/-- The text of a source that compiles is the written form of its code. -/
theorem compileText_of_compiles {file source : String} (compiles : Compiles file source) :
    (compileText file source).1 = .ok (codeText (generatedCode file source)) := by
  obtain ⟨text, compiles⟩ := compiles
  rw [← (exists_tree_of_compileText compiles).1]
  exact compiles

/-- A source of a class, with a blank behind each token. -/
def Grammar.ClassDeclaration.source (c : ClassDeclaration) : String :=
  String.ofList (spelled c.terminals)

/-- A class can be written down if each of its terminals can. -/
theorem writtenAs_source (file : String) {c : ClassDeclaration}
    (spellable : ∀ t ∈ c.terminals, t.Spellable) : c.WrittenAs file c.source := by
  obtain ⟨noFault, terminals⟩ := toEnd_spelled file spellable
  rw [ClassDeclaration.source]
  exact ⟨noFault, terminals⟩

namespace Grammar.ClassDeclaration

variable {c : ClassDeclaration} {file source : String} {sink : Sink Instruction}

/-- A lawful class compiles into every sink without a limit. -/
theorem WrittenAs.compileClass_of_lawful (written : c.WrittenAs file source) (lawful : c.Lawful)
    (unlimited : sink.room = none) (flushes : sink.canFlush = true) :
    (compileClass file source sink).result = .ok () := by
  have consistent := Lexer.consistent_ofSource file source
  obtain ⟨tokens, behind, start, reads, atEnd⟩ := Lexer.reads_toEnd consistent written.noFault
  rw [← sourceTerminals, written.terminals] at reads
  obtain ⟨visible, accepts⟩ := classBody_accepts lawful
  obtain ⟨s, run, -⟩ := accepts { tokens, output := sink }
    ⟨Lexer.consistent_ofLexer consistent start, ⟨behind, reads, atEnd⟩, unlimited, rfl⟩
  obtain ⟨_, -, -, -, output⟩ := classBody_derives rfl rfl run
  have canFlush : s.output.canFlush = true := by
    rw [output]
    exact flushes
  exact compileClass_result_eq_ok_iff.mpr
    ⟨tokens, s, start, runs_bind.mpr ⟨(), s, run, runs_flush.mpr ⟨canFlush, rfl⟩⟩⟩

/-- The sources of a class compile if and only if it is lawful. -/
theorem WrittenAs.compiles_iff (written : c.WrittenAs file source) :
    Compiles file source ↔ c.Lawful := by
  constructor
  · rintro ⟨text, compiles⟩
    obtain ⟨-, c', lawful, only, -⟩ := exists_tree_of_compileText compiles
    obtain rfl := (only c).mp written.terminals.symm
    exact lawful
  · intro lawful
    exact ⟨_, compileText_eq_ok_iff.mpr ⟨written.compileClass_of_lawful lawful rfl rfl, rfl⟩⟩

/-- A source of a class that compiles has the code of the class. -/
theorem WrittenAs.generatedCode_eq (written : c.WrittenAs file source)
    (compiles : Compiles file source) : generatedCode file source = c.code := by
  obtain ⟨text, compiles⟩ := compiles
  obtain ⟨-, c', -, only, code⟩ := exists_tree_of_compileText compiles
  obtain rfl := (only c).mp written.terminals.symm
  exact code

/-- The strings of a class hold ASCII characters only, if the class has a source. -/
theorem stringsAscii (terminals : c.terminals = sourceTerminals file source) :
    ∀ contents, .string contents ∈ c.terminals → ∀ letter ∈ contents, isAscii letter = true := by
  intro contents mem
  rw [terminals, sourceTerminals] at mem
  obtain ⟨token, isToken, isString⟩ := List.mem_map.mp mem
  exact isAscii_of_string_mem isToken isString

end Grammar.ClassDeclaration

end JackCompiler
