import JackCompiler.Proofs.Grammar.Scope

/-!
# Code of syntax trees

The code of a tree is made from the code of its parts. A name that nothing declares has no code; the
rules exclude it.

## Main definitions

* `Term.code`, `Expression.code`, `Call.code` — code that leaves a value on the stack
* `Statement.code` — code of a statement whose first label has a given number
* `ClassDeclaration.code` — code of a class
-/

namespace JackCompiler.Grammar

/-- Pushes what a name means. -/
def Environment.push (environment : Environment) (name : String) : List Instruction :=
  ((environment.lookup? name).map fun v => .push v.segment v.index).toList

/-- Pops into what a name means. -/
def Environment.pop (environment : Environment) (name : String) : List Instruction :=
  ((environment.lookup? name).map fun v => .pop v.segment v.index).toList

theorem Environment.push_of_lookup? {environment : Environment} {name : String} {v : Variable}
    (found : environment.lookup? name = some v) :
    environment.push name = [.push v.segment v.index] := by
  simp [Environment.push, found]

theorem Environment.pop_of_lookup? {environment : Environment} {name : String} {v : Variable}
    (found : environment.lookup? name = some v) :
    environment.pop name = [.pop v.segment v.index] := by
  simp [Environment.pop, found]

/-- Truth is the number with all bits set. -/
def ConstantWord.code : ConstantWord → List Instruction
  | .«true» => [.push .constant 1, .operate .neg]
  | .«false» | .null => [.push .constant 0]
  | .this => [.push .pointer 0]

/-- The instruction that applies a sign to the value on top of the stack. -/
def UnaryOperator.instruction : UnaryOperator → Instruction
  | .neg => .operate .neg
  | .not => .operate .not

/-- Creates a string and appends its characters one by one. -/
def stringCode (contents : List Char) : List Instruction :=
  .push .constant contents.length :: .newString ::
    contents.flatMap fun c => [.push .constant c.toNat, .appendCharacter]

/-- The call instruction of a method of the current object. -/
def bareCall (environment : Environment) (name : String) (listed : Nat) : Instruction :=
  .call (qualifiedName environment.className name) (listed + 1)

/-- The call instruction of a qualified call. In front of a dot, a variable is an object, and any
other name is a class. -/
def qualifiedCall (environment : Environment) (owner name : String) (listed : Nat) : Instruction :=
  match environment.lookup? owner with
  | some v => .call (qualifiedName v.type name) (listed + 1)
  | none => .call (qualifiedName owner name) listed

mutual

/-- The code of a term. -/
def Term.code (environment : Environment) : Term → List Instruction
  | .integer digits => [.push .constant ((decimalValue? digits.toList).getD 0)]
  | .string contents => stringCode contents
  | .constant word => word.code
  | .named name => environment.push name
  | .element array index =>
    environment.push array ++ index.code environment ++
      [.operate .add, .pop .pointer 1, .push .that 0]
  | .call target => target.code environment
  | .parentheses inner => inner.code environment
  | .unary operator operand => operand.code environment ++ [operator.instruction]

/-- The code of an expression. An operator is applied behind the code of all operands to its right,
so that the operators stand behind all operands, from the last to the first. -/
def Expression.code (environment : Environment) : Expression → List Instruction
  | .single term => term.code environment
  | .binary left operator right =>
    left.code environment ++ right.code environment ++ [operator.instruction]

/-- The code of a call: the object of a method, the listed arguments, and the call instruction. -/
def Call.code (environment : Environment) : Call → List Instruction
  | .bare name arguments =>
    .push .pointer 0 :: Expression.listCode environment arguments ++
      [bareCall environment name arguments.length]
  | .qualified owner name arguments =>
    environment.push owner ++ Expression.listCode environment arguments ++
      [qualifiedCall environment owner name arguments.length]

/-- The code of several expressions, one behind the other. -/
def Expression.listCode (environment : Environment) : List Expression → List Instruction
  | [] => []
  | e :: rest => e.code environment ++ Expression.listCode environment rest

end

mutual

/-- The number of labels that a statement uses up: one for each `if` and `while`. -/
def Statement.labels : Statement → Nat
  | .ifThen _ body => Statement.listLabels body + 1
  | .ifElse _ body otherwise => Statement.listLabels body + Statement.listLabels otherwise + 1
  | .loop _ body => Statement.listLabels body + 1
  | _ => 0

/-- The number of labels that several statements use up. -/
def Statement.listLabels : List Statement → Nat
  | [] => 0
  | statement :: rest => statement.labels + Statement.listLabels rest

end

/-- The code of what a `return` gives back, which is zero if it gives nothing. -/
def returnedCode (environment : Environment) : Option Expression → List Instruction
  | none => [.push .constant 0]
  | some value => value.code environment

mutual

/-- The code of a statement. Labels are numbered in the order in which their statements begin, from
`number` on. -/
def Statement.code (environment : Environment) (number : Nat) : Statement → List Instruction
  | .assign target value => value.code environment ++ environment.pop target
  | .assignElement array index value =>
    environment.push array ++ index.code environment ++ [.operate .add] ++
      value.code environment ++ [.pop .temp 0, .pop .pointer 1, .push .temp 0, .pop .that 0]
  | .ifThen condition body =>
    condition.code environment ++ [.operate .not, .ifGoto (ifFalseLabel number)] ++
      Statement.listCode environment (number + 1) body ++ [.label (ifFalseLabel number)]
  | .ifElse condition body otherwise =>
    condition.code environment ++ [.operate .not, .ifGoto (ifFalseLabel number)] ++
      Statement.listCode environment (number + 1) body ++
      [.goto (ifEndLabel number), .label (ifFalseLabel number)] ++
      Statement.listCode environment (number + 1 + Statement.listLabels body) otherwise ++
      [.label (ifEndLabel number)]
  | .loop condition body =>
    .label (whileStartLabel number) :: condition.code environment ++
      [.operate .not, .ifGoto (whileEndLabel number)] ++
      Statement.listCode environment (number + 1) body ++
      [.goto (whileStartLabel number), .label (whileEndLabel number)]
  | .discard target => target.code environment ++ [.pop .temp 0]
  | .giveBack value => returnedCode environment value ++ [.«return»]

/-- The code of several statements, one behind the other. -/
def Statement.listCode (environment : Environment) (number : Nat) :
    List Statement → List Instruction
  | [] => []
  | statement :: rest =>
    statement.code environment number ++
      Statement.listCode environment (number + statement.labels) rest

end

/-- What a subroutine does before its first statement. A constructor allocates an object with room
for the fields, and a method makes the object that it was called on the current one. -/
def prologueCode (kind : SubroutineKind) (fields : Nat) : List Instruction :=
  match kind with
  | .constructor => [.push .constant fields, .allocate, .pop .pointer 0]
  | .method => [.push .argument 0, .pop .pointer 0]
  | .function => []

/-- The number of fields that a class declares. -/
def ClassDeclaration.fields (c : ClassDeclaration) : Nat :=
  countOf .field c.declarations

/-- The header of a subroutine, which states the number of its local variables. -/
def ClassDeclaration.header (c : ClassDeclaration) (s : SubroutineDeclaration) : Instruction :=
  .function (qualifiedName c.name s.name) s.localVariables.length

/-- The code of a subroutine of a class whose first label has a given number. -/
def ClassDeclaration.subroutineCode (c : ClassDeclaration) (number : Nat)
    (s : SubroutineDeclaration) : List Instruction :=
  c.header s :: prologueCode s.kind c.fields ++
    Statement.listCode (c.environment s) number s.body

/-- The code of some subroutines of a class, one behind the other. -/
def ClassDeclaration.codeFrom (c : ClassDeclaration) (number : Nat) :
    List SubroutineDeclaration → List Instruction
  | [] => []
  | s :: rest =>
    c.subroutineCode number s ++ c.codeFrom (number + Statement.listLabels s.body) rest

/-- Which subroutines a class declares does not matter to the code of any of them. -/
theorem ClassDeclaration.codeFrom_outline (c : ClassDeclaration)
    (others subroutines : List SubroutineDeclaration) (number : Nat) :
    { c with subroutines := others }.codeFrom number subroutines =
      c.codeFrom number subroutines := by
  induction subroutines generalizing number with
  | nil => rfl
  | cons s rest ih => rw [codeFrom, codeFrom, ih]; rfl

/-- The code of a class. The labels of all its subroutines are numbered on. -/
def ClassDeclaration.code (c : ClassDeclaration) : List Instruction :=
  c.codeFrom 0 c.subroutines

/-- The written form of code: a line for each instruction. -/
def codeText (code : List Instruction) : String :=
  String.join (code.map fun instruction => instruction.text ++ "\n")

end JackCompiler.Grammar
