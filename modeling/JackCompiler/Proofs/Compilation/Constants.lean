import JackCompiler.Proofs.Compilation.Written
import JackCompiler.Proofs.Grammar.Constants

/-!
# Constants in generated code

The machine can push constants up to `maxInteger`. Generated code keeps to that as long as no
constructor allocates an object that is larger. A class may declare more fields than that, because
an instruction can address more.

## Main definitions

* `roomy` — a class with any number of fields and a constructor

## Main results

* `compileText_constants_le_iff` — when all constants of a source that compiles are in range
* `compiles_roomy` — the sources of roomy classes compile and push the number of fields
-/

namespace JackCompiler

open Grammar

variable {file source text : String}

/-- **Constants are in range unless an object is too large.** All constants that the code of a
source pushes are in the range of integer constants if and only if its class has no constructor or
not too many fields. -/
theorem compileText_constants_le_iff (compiles : (compileText file source).1 = .ok text) :
    text = codeText (generatedCode file source) ∧ ∃ c : ClassDeclaration,
      (∀ c' : ClassDeclaration, c'.terminals = sourceTerminals file source ↔ c' = c) ∧
      ((∀ n, .push .constant n ∈ generatedCode file source → n ≤ maxInteger) ↔
        ∀ d ∈ c.subroutines, d.kind = .constructor →
          countOf .field c.declarations ≤ maxInteger) := by
  obtain ⟨written, c, lawful, only, code⟩ := exists_tree_of_compileText compiles
  have ascii : StringsAscii c.terminals :=
    ClassDeclaration.stringsAscii ((only c).mpr rfl)
  refine ⟨written, c, only, ?_⟩
  simpa only [code, mem_constantsOf, ClassDeclaration.fields] using
    ClassDeclaration.constants_le_iff lawful ascii

theorem compileText_constants_le_iff_tallying :
    ∃ text, (compileText "T.jack" tallying).1 = .ok text ∧
      text = codeText (generatedCode "T.jack" tallying) ∧ ∃ c : ClassDeclaration,
        (∀ c' : ClassDeclaration,
          c'.terminals = sourceTerminals "T.jack" tallying ↔ c' = c) ∧
        ((∀ n, .push .constant n ∈ generatedCode "T.jack" tallying → n ≤ maxInteger) ↔
          ∀ d ∈ c.subroutines, d.kind = .constructor →
            countOf .field c.declarations ≤ maxInteger) := by
  obtain ⟨text, compiles⟩ := compileText_tallying
  exact ⟨text, compiles, compileText_constants_le_iff compiles⟩

/-! ### Objects that are too large -/

/-- A class with one more field than the given number, all of one name, and a constructor that only
allocates an object. -/
def roomy (others : Nat) : ClassDeclaration where
  name := "A"
  classVariables :=
    [{ isStatic := false, list := { type := .int, first := "a", others := .replicate others "a" } }]
  subroutines := [{
    kind := .constructor, returnType := some (.named "A"), name := "b", parameters := [],
    locals := [], body := [] }]

theorem fields_roomy (others : Nat) : (roomy others).fields = others + 1 := by
  have same : ∀ d ∈ (roomy others).declarations, d.kind = .field := by
    simp [roomy, ClassDeclaration.declarations, VariableList.declarations, VariableList.names,
      ClassVariables.kind]
  rw [ClassDeclaration.fields, countOf, List.countP_eq_length.mpr (by simpa using same)]
  simp [roomy, ClassDeclaration.declarations, VariableList.declarations, VariableList.names]

theorem lawful_roomy {others : Nat} (few : others < maxOperand) : (roomy others).Lawful := by
  refine ⟨?_, ?_, ?_⟩
  · have none : countOf .static (roomy others).declarations = 0 := by
      simp [countOf, roomy, ClassDeclaration.declarations, VariableList.declarations,
        ClassVariables.kind]
    exact none ▸ Nat.zero_le _
  · have count : countOf .field (roomy others).declarations = others + 1 := fields_roomy others
    omega
  · intro d mem
    obtain rfl := List.mem_singleton.mp mem
    exact ⟨by simp [SubroutineDeclaration.arguments],
      by simp [SubroutineDeclaration.localVariables], by decide,
      by simp [Statement.BlockLegal]⟩

theorem terminals_roomy (others : Nat) : (roomy others).terminals =
    [.keyword .«class», .identifier "A", .symbol openingBrace, .keyword .field, .keyword .int,
      .identifier "a"] ++
    (List.replicate others [Terminal.symbol ',', .identifier "a"]).flatten ++
    [.symbol ';', .keyword .constructor, .identifier "A", .identifier "b", .symbol '(', .symbol ')',
      .symbol openingBrace, .symbol closingBrace, .symbol closingBrace] := by
  simp [ClassDeclaration.terminals, roomy, ClassVariables.terminals, VariableList.terminals,
    VariableList.names, commaSeparated, behindCommas, braced, parenthesized, TypeName.terminal,
    SubroutineDeclaration.terminals, ClassVariables.keyword, kindKeyword, returnTypeTerminal,
    List.flatMap_def]

theorem writtenAs_roomy (file : String) (others : Nat) :
    (roomy others).WrittenAs file (roomy others).source := by
  refine writtenAs_source file fun t mem => ?_
  rw [terminals_roomy, List.mem_append, List.mem_append] at mem
  obtain (first | between) | last := mem
  · revert t
    decide
  · obtain ⟨piece, isPiece, mem⟩ := List.mem_flatten.mp between
    rw [List.eq_of_mem_replicate isPiece] at mem
    clear between isPiece
    revert t
    decide
  · revert t
    decide

theorem utf8ByteSize_roomy (others : Nat) :
    (roomy others).source.utf8ByteSize = 4 * others + 50 := by
  have between : byteLength (spelled
      (List.replicate others [Terminal.symbol ',', .identifier "a"]).flatten) = 4 * others := by
    induction others with
    | zero => rfl
    | succ others ih =>
      rw [List.replicate_succ, List.flatten_cons, spelled_append, byteLength_append, ih]
      change 4 + 4 * others = _
      omega
  rw [ClassDeclaration.source, ← byteLength_toList, String.toList_ofList, terminals_roomy,
    spelled_append, spelled_append, byteLength_append, byteLength_append, between]
  change 22 + 4 * others + 28 = _
  omega

/-- A roomy class compiles as long as its fields can be addressed, and its constructor pushes the
number of them. -/
theorem compiles_roomy (file : String) {others : Nat} (few : others < maxOperand) :
    Compiles file (roomy others).source ∧
      .push .constant (others + 1) ∈ generatedCode file (roomy others).source := by
  have written := writtenAs_roomy file others
  have compiles := written.compiles_iff.mpr (lawful_roomy few)
  refine ⟨compiles, ?_⟩
  rw [written.generatedCode_eq compiles, ← mem_constantsOf,
    ClassDeclaration.constantsOf_code, ← fields_roomy]
  simp [roomy, ClassDeclaration.allocated]

/-- Not all constants of generated code can be pushed by the machine. -/
theorem not_constants_le_roomy :
    (roomy 32767).source.utf8ByteSize = 131118 ∧
      ∃ text, (compileText "A.jack" (roomy 32767).source).1 = .ok text ∧
        .push .constant 32768 ∈ generatedCode "A.jack" (roomy 32767).source ∧
        ¬ 32768 ≤ maxInteger := by
  have few : 32767 < maxOperand := by decide
  obtain ⟨⟨text, compiles⟩, pushes⟩ := compiles_roomy "A.jack" few
  exact ⟨utf8ByteSize_roomy 32767, text, compiles, pushes, by decide⟩

end JackCompiler
