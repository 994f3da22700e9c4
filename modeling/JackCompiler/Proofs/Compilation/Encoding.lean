import JackCompiler.Proofs.Compilation.GeneratedCode
import JackCompiler.Proofs.Grammar.CalledNames

/-!
# The text of generated code

The text that a source compiles to is the code of its tree and nothing else: lines of ASCII
characters that can be read back as the instructions that were generated, whatever names the source
is made of.

## Main definitions

* `Encodes` — a text that is the written form of code, and can be read as it

## Main results

* `compileText_encodes` — the text of a source that compiles encodes its code, and only that
-/

namespace JackCompiler

open Grammar

/-- A text that is the written form of code, and can be read as it. -/
structure Encodes (code : List Instruction) (text : String) : Prop where
  ascii : ∀ c ∈ text.toList, isAscii c = true
  /-- There is a line for each instruction, and it ends with the only line feed in it. -/
  written : text = codeText code
  unbroken : ∀ instruction ∈ code, '\n' ∉ instruction.text.toList
  reads : readCode? text = some code
  names : ∀ name count, .call name count ∈ code ∨ .function name count ∈ code →
    IsSubroutineName name

/-- Code with the names that it is to have is encoded by its written form. -/
theorem encodes_codeText {code : List Instruction} (named : ∀ line ∈ code, line.WellNamed) :
    Encodes code (codeText code) where
  ascii := isAscii_codeText fun line mem => (named line mem).legible
  written := rfl
  unbroken line mem := (named line mem).legible.newline_not_mem
  reads := readCode?_codeText fun line mem => (named line mem).legible
  names _ _ mem := mem.elim (named _) (named _)

/-- No two codes are encoded by the same text. -/
theorem Encodes.code_unique {code code' : List Instruction} {text : String}
    (encodes : Encodes code text) (encodes' : Encodes code' text) : code = code' :=
  Option.some.inj (encodes.reads.symm.trans encodes'.reads)

variable {file source text : String}

theorem allSpellable_sourceTerminals (file source : String) :
    AllSpellable (sourceTerminals file source) := by
  intro t mem
  obtain ⟨token, isToken, rfl⟩ := List.mem_map.mp mem
  exact spellable_of_mem_toEnd isToken

theorem encodes_of_compileText (compiles : (compileText file source).1 = .ok text) :
    Encodes (generatedCode file source) text := by
  obtain ⟨written, c, -, only, code⟩ := exists_tree_of_compileText compiles
  have spellable := allSpellable_sourceTerminals file source
  rw [← (only c).mpr rfl] at spellable
  rw [written, code]
  exact encodes_codeText (ClassDeclaration.wellNamed spellable)

/-- **Generated code can be read back from its text.** The code of a source that compiles is that of
the only tree of the source. Its text is in ASCII, a line for each instruction, and reading it gives
the code back. Functions are named and called by a type, a dot and an identifier. Sources whose code
differs have different texts. -/
theorem compileText_encodes (compiles : (compileText file source).1 = .ok text) :
    (∃ c : ClassDeclaration,
      (∀ c' : ClassDeclaration, c'.terminals = sourceTerminals file source ↔ c' = c) ∧
      generatedCode file source = c.code) ∧
    Encodes (generatedCode file source) text ∧
    ∀ file' source' text', (compileText file' source').1 = .ok text' →
      generatedCode file' source' ≠ generatedCode file source → text' ≠ text := by
  obtain ⟨-, c, -, only, code⟩ := exists_tree_of_compileText compiles
  have encodes := encodes_of_compileText compiles
  refine ⟨⟨c, only, code⟩, encodes, fun file' source' text' compiles' differ same => differ ?_⟩
  exact (same ▸ encodes_of_compileText compiles').code_unique encodes

theorem compileText_encodes_tallying :
    ∃ text, (compileText "T.jack" tallying).1 = .ok text ∧
      (∃ c : ClassDeclaration,
        (∀ c' : ClassDeclaration,
          c'.terminals = sourceTerminals "T.jack" tallying ↔ c' = c) ∧
        generatedCode "T.jack" tallying = c.code) ∧
      Encodes (generatedCode "T.jack" tallying) text ∧
      ∀ file' source' text', (compileText file' source').1 = .ok text' →
        generatedCode file' source' ≠ generatedCode "T.jack" tallying → text' ≠ text := by
  obtain ⟨text, compiles⟩ := compileText_tallying
  exact ⟨text, compiles, compileText_encodes compiles⟩

end JackCompiler
