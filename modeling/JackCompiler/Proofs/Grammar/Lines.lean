import JackCompiler.Proofs.Grammar.Code
import JackCompiler.Proofs.Vm.Block
import Mathlib.Data.List.Forall2

/-!
# The lines that code of trees is made of

Code of an expression calculates: it reads variables, applies operations and calls, and never jumps.
Code of a statement also stores, jumps, and returns. Headers stand between subroutines only, so that
each subroutine of a class is one block of its code.

## Main definitions

* `Environment.Calculates`, `Environment.Emits` — the lines of expressions, and those of statements
* `ClassDeclaration.block` — the block of a subroutine

## Main results

* `Expression.calculates`, `Statement.emits` — all lines are of these kinds
* `ClassDeclaration.functionBlocks_code` — the blocks of a class are its subroutines, in order
-/

namespace JackCompiler.Grammar

/-- The lines of expressions. -/
inductive Environment.Calculates (environment : Environment) : Instruction → Prop where
  | constant (n : Nat) : environment.Calculates (.push .constant n)
  | variable {name : String} {v : Variable} (found : environment.lookup? name = some v) :
    environment.Calculates (.push v.segment v.index)
  | object : environment.Calculates (.push .pointer 0)
  | locate : environment.Calculates (.pop .pointer 1)
  | element : environment.Calculates (.push .that 0)
  | operate (operation : Operation) : environment.Calculates (.operate operation)
  | call (name : String) (arguments : Nat) : environment.Calculates (.call name arguments)

/-- The lines of statements. -/
inductive Environment.Emits (environment : Environment) : Instruction → Prop where
  | calculates {line : Instruction} (h : environment.Calculates line) : environment.Emits line
  | assign {name : String} {v : Variable} (found : environment.lookup? name = some v) :
    environment.Emits (.pop v.segment v.index)
  | assignElement : environment.Emits (.pop .that 0)
  | keep : environment.Emits (.pop .temp 0)
  | restore : environment.Emits (.push .temp 0)
  | label (name : String) : environment.Emits (.label name)
  | goto (name : String) : environment.Emits (.goto name)
  | ifGoto (name : String) : environment.Emits (.ifGoto name)
  | «return» : environment.Emits .«return»

section Lines

variable {environment : Environment}

theorem Environment.calculates_push (name : String) :
    ∀ line ∈ environment.push name, environment.Calculates line := by
  cases found : environment.lookup? name with
  | none => simp [push, found]
  | some v => simpa [push, found] using .variable found

theorem Environment.emits_pop (name : String) :
    ∀ line ∈ environment.pop name, environment.Emits line := by
  cases found : environment.lookup? name with
  | none => simp [pop, found]
  | some v => simpa [pop, found] using .assign found

theorem calculates_stringCode (contents : List Char) :
    ∀ line ∈ stringCode contents, environment.Calculates line := by
  intro line mem
  simp only [stringCode, Instruction.newString, Instruction.appendCharacter, List.mem_cons,
    List.mem_flatMap, List.not_mem_nil, or_false] at mem
  obtain rfl | rfl | ⟨c, -, rfl | rfl⟩ := mem
  · exact .constant _
  · exact .call _ _
  · exact .constant _
  · exact .call _ _

theorem ConstantWord.calculates (word : ConstantWord) :
    ∀ line ∈ word.code, environment.Calculates line := by
  cases word with
  | «true» => simpa [code] using ⟨.constant 1, .operate .neg⟩
  | «false» | null => simpa [code] using .constant 0
  | this => simpa [code] using .object

theorem UnaryOperator.calculates (operator : UnaryOperator) :
    environment.Calculates operator.instruction := by
  cases operator <;> exact .operate _

theorem calculates_operator (operator : BinaryOperator) :
    environment.Calculates operator.instruction := by
  cases operator with
  | mul | div => exact .call _ _
  | add | sub | and | or | lt | gt | eq => exact .operate _

theorem calculates_qualifiedCall (owner name : String) (listed : Nat) :
    environment.Calculates (qualifiedCall environment owner name listed) := by
  unfold qualifiedCall
  split <;> exact .call _ _

mutual

/-- The code of a term calculates. -/
theorem Term.calculates : ∀ t : Term, ∀ line ∈ t.code environment, environment.Calculates line
  | .integer digits => by simpa [Term.code] using .constant _
  | .string contents => calculates_stringCode contents
  | .constant word => word.calculates
  | .named name => environment.calculates_push name
  | .element array index => List.forall_mem_append.mpr
      ⟨List.forall_mem_append.mpr ⟨environment.calculates_push array, index.calculates⟩, by
        simpa using ⟨.operate .add, .locate, .element⟩⟩
  | .call target => target.calculates
  | .parentheses inner => inner.calculates
  | .unary operator operand =>
    List.forall_mem_append.mpr ⟨operand.calculates, by simpa using operator.calculates⟩

/-- The code of an expression calculates. -/
theorem Expression.calculates : ∀ e : Expression, ∀ line ∈ e.code environment,
    environment.Calculates line
  | .single t => t.calculates
  | .binary left operator right => List.forall_mem_append.mpr
      ⟨List.forall_mem_append.mpr ⟨left.calculates, right.calculates⟩, by
        simpa using calculates_operator operator⟩

/-- The code of a call calculates. -/
theorem Call.calculates : ∀ target : Call, ∀ line ∈ target.code environment,
    environment.Calculates line
  | .bare name es => List.forall_mem_append.mpr
      ⟨List.forall_mem_cons.mpr ⟨.object, Expression.listCalculates es⟩, by
        simpa [bareCall] using .call _ _⟩
  | .qualified owner name es => List.forall_mem_append.mpr
      ⟨List.forall_mem_append.mpr
        ⟨environment.calculates_push owner, Expression.listCalculates es⟩, by
        simpa using calculates_qualifiedCall owner name es.length⟩

theorem Expression.listCalculates : ∀ es : List Expression,
    ∀ line ∈ Expression.listCode environment es, environment.Calculates line
  | [] => by simp [Expression.listCode]
  | e :: es => List.forall_mem_append.mpr ⟨e.calculates, Expression.listCalculates es⟩

end

theorem Expression.emits (e : Expression) : ∀ line ∈ e.code environment, environment.Emits line :=
  fun line mem => .calculates (e.calculates line mem)

theorem Call.emits (target : Call) : ∀ line ∈ target.code environment, environment.Emits line :=
  fun line mem => .calculates (target.calculates line mem)

theorem emits_returnedCode (value : Option Expression) :
    ∀ line ∈ returnedCode environment value, environment.Emits line := by
  cases value with
  | none => simpa [returnedCode] using .calculates (.constant 0)
  | some e => exact e.emits

mutual

/-- The code of a statement calculates, stores, jumps or returns. -/
theorem Statement.emits : ∀ (statement : Statement) (number : Nat),
    ∀ line ∈ statement.code environment number, environment.Emits line
  | .assign target value, number => by
    simp only [Statement.code, List.forall_mem_append]
    exact ⟨value.emits, environment.emits_pop target⟩
  | .assignElement array index value, number => by
    simp only [Statement.code, List.forall_mem_append, List.forall_mem_cons]
    exact ⟨⟨⟨⟨fun line mem => .calculates (environment.calculates_push array line mem),
      index.emits⟩,
      .calculates (.operate .add), by simp⟩, value.emits⟩, .keep, .calculates .locate, .restore,
      .assignElement, by simp⟩
  | .ifThen condition body, number => by
    simp only [Statement.code, List.forall_mem_append, List.forall_mem_cons]
    exact ⟨⟨⟨condition.emits, .calculates (.operate .not), .ifGoto _, by simp⟩,
      Statement.listEmits body _⟩, .label _, by simp⟩
  | .ifElse condition body otherwise, number => by
    simp only [Statement.code, List.forall_mem_append, List.forall_mem_cons]
    exact ⟨⟨⟨⟨⟨condition.emits, .calculates (.operate .not), .ifGoto _, by simp⟩,
      Statement.listEmits body _⟩, .goto _, .label _, by simp⟩, Statement.listEmits otherwise _⟩,
      .label _, by simp⟩
  | .loop condition body, number => by
    simp only [Statement.code, List.forall_mem_append, List.forall_mem_cons]
    exact ⟨⟨⟨⟨.label _, condition.emits⟩, .calculates (.operate .not), .ifGoto _, by simp⟩,
      Statement.listEmits body _⟩, .goto _, .label _, by simp⟩
  | .discard target, number => by
    simp only [Statement.code, List.forall_mem_append, List.forall_mem_cons]
    exact ⟨target.emits, .keep, by simp⟩
  | .giveBack value, number => by
    simp only [Statement.code, List.forall_mem_append, List.forall_mem_cons]
    exact ⟨emits_returnedCode value, .«return», by simp⟩

theorem Statement.listEmits : ∀ (body : List Statement) (number : Nat),
    ∀ line ∈ Statement.listCode environment number body, environment.Emits line
  | [], number => by simp [Statement.listCode]
  | statement :: body, number => List.forall_mem_append.mpr
      ⟨statement.emits number, Statement.listEmits body _⟩

end

theorem Environment.Emits.isHeader_eq_false {line : Instruction} (h : environment.Emits line) :
    line.isHeader = false := by
  cases h with
  | calculates h => cases h <;> rfl
  | _ => rfl

end Lines

/-! ### The blocks of a class -/

namespace ClassDeclaration

variable (c : ClassDeclaration)

/-- The block of a subroutine of a class whose first label has a given number. -/
def block (number : Nat) (d : SubroutineDeclaration) : Block where
  name := qualifiedName c.name d.name
  locals := d.localVariables.length
  lines := prologueCode d.kind c.fields ++ Statement.listCode (c.environment d) number d.body

theorem code_block (number : Nat) (d : SubroutineDeclaration) :
    (c.block number d).code = c.subroutineCode number d := rfl

theorem isHeader_eq_false_of_mem_block {number : Nat} {d : SubroutineDeclaration} :
    ∀ line ∈ (c.block number d).lines, line.isHeader = false := by
  refine List.forall_mem_append.mpr ⟨?_, fun line mem =>
    (Statement.listEmits d.body number line mem).isHeader_eq_false⟩
  cases d.kind <;> simp [prologueCode, Instruction.isHeader, Instruction.allocate]

/-- The blocks of some subroutines of a class. -/
def blocksFrom (number : Nat) : List SubroutineDeclaration → List Block
  | [] => []
  | d :: rest => c.block number d :: blocksFrom (number + Statement.listLabels d.body) rest

theorem functionBlocks_codeFrom (number : Nat) (subroutines : List SubroutineDeclaration) :
    functionBlocks (c.codeFrom number subroutines) = c.blocksFrom number subroutines := by
  induction subroutines generalizing number with
  | nil => rfl
  | cons d rest ih =>
    rw [codeFrom, ← code_block, functionBlocks_cons c.isHeader_eq_false_of_mem_block, ih,
      blocksFrom]
    -- Behind a subroutine stands the header of the next one.
    cases rest with
    | nil => simp [codeFrom]
    | cons next rest => simp [codeFrom, subroutineCode, header, Instruction.isHeader]

/-- The blocks of a class are its subroutines, in order. -/
theorem functionBlocks_code : functionBlocks c.code = c.blocksFrom 0 c.subroutines :=
  c.functionBlocks_codeFrom 0 c.subroutines

theorem flatMap_code_blocksFrom (number : Nat) (subroutines : List SubroutineDeclaration) :
    (c.blocksFrom number subroutines).flatMap Block.code = c.codeFrom number subroutines := by
  induction subroutines generalizing number with
  | nil => rfl
  | cons d rest ih => rw [blocksFrom, List.flatMap_cons, ih, code_block, codeFrom]

/-- What holds of the block of each subroutine holds of subroutines and blocks in turn. -/
theorem forall₂_functionBlocks {relation : SubroutineDeclaration → Block → Prop}
    (each : ∀ d ∈ c.subroutines, ∀ number, relation d (c.block number d)) :
    List.Forall₂ relation c.subroutines (functionBlocks c.code) := by
  rw [functionBlocks_code]
  generalize c.subroutines = subroutines at each
  generalize 0 = number
  induction subroutines generalizing number with
  | nil => exact .nil
  | cons d rest ih =>
    rw [List.forall_mem_cons] at each
    exact .cons (each.1 number) (ih each.2 _)

/-- What holds of the block of each subroutine holds of all blocks of a class. -/
theorem forall_mem_functionBlocks {property : Block → Prop}
    (each : ∀ d ∈ c.subroutines, ∀ number, property (c.block number d)) :
    ∀ block ∈ functionBlocks c.code, property block := by
  have all : List.Forall₂ (fun _ block => property block) c.subroutines (functionBlocks c.code) :=
    c.forall₂_functionBlocks each
  intro block mem
  obtain ⟨i, inRange, rfl⟩ := List.mem_iff_getElem.mp mem
  exact all.get (all.length_eq ▸ inRange) inRange

end ClassDeclaration

end JackCompiler.Grammar
