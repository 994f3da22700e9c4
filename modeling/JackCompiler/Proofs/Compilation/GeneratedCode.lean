import JackCompiler.Proofs.Compilation.Reference
import JackCompiler.Proofs.Grammar.Addresses
import JackCompiler.Proofs.Grammar.Arguments
import JackCompiler.Proofs.Machine.Height
import JackCompiler.Proofs.Token.Scanning

/-!
# What generated code keeps to

Code of any source that compiles can be run without a stack underflow, a jump into nowhere or an
access outside of the segments. None of this depends on what the code computes: it can be read off
the lines.

## Main definitions

* `generatedCode` — the code of a source
* `FindsArguments` — in front of each call stand the values that it takes

## Main results

* `compileText_balanced` — the depth of the stack
* `compileText_wellLabelled` — labels and jumps
* `inBlock_of_compileText` — the stack along runs
* `compileText_withinSegments` — the words of memory that are used
-/

namespace JackCompiler

open Grammar

/-- The code that is generated for a source. -/
def generatedCode (file source : String) : List Instruction :=
  (compileClass file source {}).output.items.toList

/-- In front of each call instruction stand the values that it takes, and they are as many as it
says. Each of them leaves one value on any stack. -/
def FindsArguments (environment : Environment) (lines : List Instruction) : Prop :=
  ∀ before name count behind, lines = before ++ .call name count :: behind →
    ∃ front values, before = front ++ values.flatten ∧
      Passes environment values (.call name count) ∧ values.length = count ∧
        ∀ value ∈ values, Yields value 1

theorem findsArguments_of_pushesArguments {environment : Environment} {lines : List Instruction}
    (h : Everywhere (PushesArguments environment) lines) : FindsArguments environment lines := by
  intro before name count behind parts
  obtain ⟨front, values, inFront, passes⟩ := h [] [] before _ behind parts name count rfl
  exact ⟨front, values, inFront, passes, passes.length_eq rfl, passes.yields⟩

variable {file source text : String}

/-- The code of a source that compiles is that of the only class with its tokens, and the text is
the written form of it. -/
theorem exists_tree_of_compileText (compiles : (compileText file source).1 = .ok text) :
    text = codeText (generatedCode file source) ∧ ∃ c : ClassDeclaration, c.Lawful ∧
      (∀ c' : ClassDeclaration, c'.terminals = sourceTerminals file source ↔ c' = c) ∧
      generatedCode file source = c.code := by
  obtain ⟨done, rfl⟩ := compileText_eq_ok_iff.mp compiles
  obtain ⟨-, c, lawful, only, output⟩ := exists_tree_of_compiles done
  have code : generatedCode file source = c.code := by
    simp [generatedCode, output, Sink.extend]
  refine ⟨?_, c, lawful, only, code⟩
  rw [code, output, text_extend]
  exact String.empty_append

/-- A class with a constructor and a method, a field that is declared twice, and calls, jumps and
arrays in each other. -/
def tallying : String :=
  "class T \x7b static int s; field int n, n; " ++
    "constructor T new(int k) \x7b let n = k; return this; \x7d " ++
    "method int add(int k) \x7b var Array a; " ++
    "while (n < k) \x7b if (k = 2) \x7b let a[n] = add(-n); \x7d " ++
    "else \x7b do O.p(\"o\"); \x7d \x7d return s; \x7d \x7d"

theorem compileText_tallying : ∃ text, (compileText "T.jack" tallying).1 = .ok text :=
  exists_text_of_isOk (by decide +kernel)

/-! ### The stack -/

/-- The code of a source that compiles falls apart into balanced blocks. -/
theorem balanced_generatedCode (compiles : (compileText file source).1 = .ok text) :
    generatedCode file source =
      (functionBlocks (generatedCode file source)).flatMap Block.code ∧
    ∀ block ∈ functionBlocks (generatedCode file source), Balanced block.lines := by
  obtain ⟨-, c, lawful, -, code⟩ := exists_tree_of_compileText compiles
  rw [code]
  refine ⟨?_, c.forall_mem_functionBlocks fun d mem number => ?_⟩
  · rw [c.functionBlocks_code, c.flatMap_code_blocksFrom, ClassDeclaration.code]
  · exact (ClassDeclaration.settles_block (lawful.subroutines d mem).body number).balanced

/-- **Generated code keeps the stack balanced.** In each block no line takes more values than there
are, all jumps leave an empty stack and lead to one, and calls take just the values that were pushed
for them. -/
theorem compileText_balanced (compiles : (compileText file source).1 = .ok text) :
    text = codeText (generatedCode file source) ∧
    generatedCode file source =
      (functionBlocks (generatedCode file source)).flatMap Block.code ∧
    (∀ block ∈ functionBlocks (generatedCode file source), Balanced block.lines) ∧
    ∃ c : ClassDeclaration,
      (∀ c' : ClassDeclaration, c'.terminals = sourceTerminals file source ↔ c' = c) ∧
      List.Forall₂ (fun d block => FindsArguments (c.environment d) block.lines) c.subroutines
        (functionBlocks (generatedCode file source)) := by
  obtain ⟨written, c, lawful, only, code⟩ := exists_tree_of_compileText compiles
  obtain ⟨whole, balanced⟩ := balanced_generatedCode compiles
  refine ⟨written, whole, balanced, c, only, ?_⟩
  rw [code]
  exact c.forall₂_functionBlocks fun d mem number => findsArguments_of_pushesArguments
    (ClassDeclaration.pushesArguments_block (lawful.subroutines d mem).body number)

theorem compileText_balanced_tallying :
    ∃ text, (compileText "T.jack" tallying).1 = .ok text ∧
      text = codeText (generatedCode "T.jack" tallying) ∧
      generatedCode "T.jack" tallying =
        (functionBlocks (generatedCode "T.jack" tallying)).flatMap Block.code ∧
      (∀ block ∈ functionBlocks (generatedCode "T.jack" tallying), Balanced block.lines) ∧
      ∃ c : ClassDeclaration,
        (∀ c' : ClassDeclaration,
          c'.terminals = sourceTerminals "T.jack" tallying ↔ c' = c) ∧
        List.Forall₂ (fun d block => FindsArguments (c.environment d) block.lines) c.subroutines
          (functionBlocks (generatedCode "T.jack" tallying)) := by
  obtain ⟨text, compiles⟩ := compileText_tallying
  exact ⟨text, compiles, compileText_balanced compiles⟩

/-! ### Jumps -/

/-- No source has more tokens than bytes. -/
theorem length_sourceTerminals_le (file source : String) :
    (sourceTerminals file source).length ≤ source.utf8ByteSize := by
  have few := Lexer.length_le_of_scans (Lexer.scans_toEnd file source)
  have bytes := length_le_byteLength source.toList
  rw [byteLength_toList] at bytes
  rw [sourceTerminals, List.length_map]
  omega

/-- **Generated code is well labelled.** No label stands twice, jumps stay within their block, and
each `while` of the source jumps back once. Nothing else jumps back. The number in a label is less
than the number of bytes of the source. -/
theorem compileText_wellLabelled (compiles : (compileText file source).1 = .ok text) :
    text = codeText (generatedCode file source) ∧
    (∀ name ∈ labelNames (generatedCode file source),
      ∃ n < source.utf8ByteSize, name ∈ labelsOf n) ∧
    ∃ c : ClassDeclaration,
      (∀ c' : ClassDeclaration, c'.terminals = sourceTerminals file source ↔ c' = c) ∧
      WellLabelled (generatedCode file source) (loopsOf c.subroutines).length := by
  obtain ⟨written, c, -, only, code⟩ := exists_tree_of_compileText compiles
  refine ⟨written, fun name mem => ?_, c, only, ?_⟩
  · rw [code] at mem
    obtain ⟨n, below, isLabel⟩ := c.numbered_code name mem
    have few := length_sourceTerminals_le file source
    rw [← (only c).mpr rfl] at few
    exact ⟨n, by omega, isLabel⟩
  · rw [code]
    exact c.wellLabelled

theorem compileText_wellLabelled_tallying :
    ∃ text, (compileText "T.jack" tallying).1 = .ok text ∧
      text = codeText (generatedCode "T.jack" tallying) ∧
      (∀ name ∈ labelNames (generatedCode "T.jack" tallying),
        ∃ n < tallying.utf8ByteSize, name ∈ labelsOf n) ∧
      ∃ c : ClassDeclaration,
        (∀ c' : ClassDeclaration,
          c'.terminals = sourceTerminals "T.jack" tallying ↔ c' = c) ∧
        WellLabelled (generatedCode "T.jack" tallying) (loopsOf c.subroutines).length := by
  obtain ⟨text, compiles⟩ := compileText_tallying
  exact ⟨text, compiles, compileText_wellLabelled compiles⟩

/-- **Runs do not touch the stack of the caller.** A run that enters a block at its first line
stands in the block, on top of the values that were there before and with as many of its own as the
text says, until it leaves the block at its end, where it has none of its own. -/
theorem inBlock_of_compileText (compiles : (compileText file source).1 = .ok text)
    {earlier later : List Block} {block : Block}
    (blocks : functionBlocks (generatedCode file source) = earlier ++ block :: later)
    {routines : Machine.Routines} {s s' : Machine.State}
    (enters : s.line = (earlier.flatMap Block.code).length + 1)
    (reaches : Machine.Reaches (generatedCode file source) routines s s') :
    Machine.InBlock (earlier.flatMap Block.code ++ [.function block.name block.locals]) block.lines
        s.stack s' ∨
      ∃ middle, Machine.Reaches (generatedCode file source) routines s middle ∧
        middle.line = (earlier.flatMap Block.code).length + block.code.length ∧
        middle.stack = s.stack ∧
        Machine.Reaches (generatedCode file source) routines middle s' := by
  obtain ⟨-, c, -, -, code⟩ := exists_tree_of_compileText compiles
  obtain ⟨whole, balanced⟩ := balanced_generatedCode compiles
  have labelled := c.wellLabelled
  have mem : block ∈ functionBlocks (generatedCode file source) := by simp [blocks]
  have parts : generatedCode file source =
      earlier.flatMap Block.code ++ [.function block.name block.locals] ++ block.lines ++
        later.flatMap Block.code := by
    rw [whole, blocks]
    simp [Block.code]
  rw [← code] at labelled
  have unique := labelled.unique
  rw [parts] at unique
  have here : Machine.InBlock (earlier.flatMap Block.code ++ [.function block.name block.locals])
      block.lines s.stack s := ⟨[], block.lines, [], rfl, by simp [enters], rfl, rfl⟩
  rw [parts] at reaches ⊢
  obtain inside | ⟨middle, toMiddle, atEnd, stack, fromMiddle⟩ :=
    Machine.inBlock_of_reaches (balanced block mem) (labelled.resolved block mem) unique here
      reaches
  · exact .inl inside
  · refine .inr ⟨middle, toMiddle, ?_, stack, fromMiddle⟩
    rw [atEnd]
    simp [Block.code, Nat.add_assoc, Nat.add_comm]

/-! ### Memory -/

/-- **Generated code stays within the segments.** The blocks are the subroutines of the class in
turn, and each of them uses only words that its header, its parameters and the variables of the
class provide. A constructor allocates an object that has room for all fields. -/
theorem compileText_withinSegments (compiles : (compileText file source).1 = .ok text) :
    text = codeText (generatedCode file source) ∧ ∃ c : ClassDeclaration,
      (∀ c' : ClassDeclaration, c'.terminals = sourceTerminals file source ↔ c' = c) ∧
      List.Forall₂ c.WithinSegments c.subroutines
        (functionBlocks (generatedCode file source)) := by
  obtain ⟨written, c, -, only, code⟩ := exists_tree_of_compileText compiles
  refine ⟨written, c, only, ?_⟩
  rw [code]
  exact c.forall₂_functionBlocks fun d _ number => c.withinSegments_block d number

theorem compileText_withinSegments_tallying :
    ∃ text, (compileText "T.jack" tallying).1 = .ok text ∧
      text = codeText (generatedCode "T.jack" tallying) ∧ ∃ c : ClassDeclaration,
        (∀ c' : ClassDeclaration,
          c'.terminals = sourceTerminals "T.jack" tallying ↔ c' = c) ∧
        List.Forall₂ c.WithinSegments c.subroutines
          (functionBlocks (generatedCode "T.jack" tallying)) := by
  obtain ⟨text, compiles⟩ := compileText_tallying
  exact ⟨text, compiles, compileText_withinSegments compiles⟩

end JackCompiler
