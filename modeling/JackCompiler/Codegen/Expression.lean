import JackCompiler.Codegen.Session
import JackCompiler.Vm.Call
import JackCompiler.Vm.Routine

/-!
# Code of expressions

The code of an expression leaves its value on top of the stack. Binary operators have no precedence
and associate to the right: all operands are pushed from left to right, and then the operators are
applied from the last to the first.

Terms are nested at most `maxNesting` levels deep. A step for something that contains terms is given
the step for terms one level further down, and the step at the bottom fails.

## Main definitions

* `BinaryOperator` — the operators between terms, and their instructions
* `Codegen.term`, `Codegen.expression` — terms with a number of levels left, and expressions
* `Codegen.call` — a call whose first name has been taken
-/

namespace JackCompiler

/-- How deep terms and blocks of statements may be nested, counted together. -/
def maxNesting : Nat := 128

/-- The operators between the terms of an expression. -/
inductive BinaryOperator where
  | add | sub | mul | div | and | or | lt | gt | eq
deriving DecidableEq, Repr, Inhabited

namespace BinaryOperator

/-- The operator that a symbol stands for. -/
def ofSymbol? : Char → Option BinaryOperator
  | '+' => some .add
  | '-' => some .sub
  | '*' => some .mul
  | '/' => some .div
  | '&' => some .and
  | '|' => some .or
  | '<' => some .lt
  | '>' => some .gt
  | '=' => some .eq
  | _ => none

/-- The instruction that applies an operator to the two values on top of the stack. -/
def instruction : BinaryOperator → Instruction
  | .add => .operate .add
  | .sub => .operate .sub
  | .mul => .multiply
  | .div => .divide
  | .and => .operate .and
  | .or => .operate .or
  | .lt => .operate .lt
  | .gt => .operate .gt
  | .eq => .operate .eq

end BinaryOperator

namespace Codegen

/-- A term, followed by any number of operators with a term each. -/
def expression (term : Codegen Unit) : Codegen Unit := do
  term
  let operators ← iterate (fun (pending : List BinaryOperator) => do
    match ← look (·.symbol?.bind BinaryOperator.ofSymbol?) with
    | some operator =>
      skip
      term
      return some (operator :: pending)
    | none => return none) []
  operators.forM fun operator => emit operator.instruction

/-- The rest of an array element behind its opening bracket. Leaves the address of the element on
the stack. -/
def elementAddress (term : Codegen Unit) (array : Variable) : Codegen Unit := do
  pushVariable array
  expression term
  skipSymbol ']'
  emit (.operate .add)

/-- The expressions up to the closing parenthesis of a call, with commas between them. Answers how
many there are. -/
def argumentList (term : Codegen Unit) : Codegen Nat := do
  if ← look (·.atSymbol ')') then
    return 0
  expression term
  iterate (fun count => do
    if ← acceptSymbol ',' then
      expression term
      if count < maxOperand then return some (count + 1)
      else failAt (← location) (.tooMany "arguments")
    else return none) 1

/-- What a call refers to whose first name has been taken. A name alone is a method of the current
object. A name in front of a dot is an object if it is a variable, and a class otherwise. -/
def callTarget (className first : String) : Codegen CallTarget := do
  if ← acceptSymbol '.' then
    let name ← takeName
    match ← lookup? first with
    | some v => return .method (.inVariable v) v.type name
    | none => return .function first name
  else return .method .this className first

/-- Pushes the object that a method is called on. -/
def pushReceiver : Receiver → Codegen Unit
  | .this => emit (.push .pointer 0)
  | .inVariable v => pushVariable v

/-- A call whose first name has been taken. -/
def call (className : String) (term : Codegen Unit) (first : String) : Codegen Unit := do
  let target ← callTarget className first
  skipSymbol '('
  target.receiver?.forM pushReceiver
  let explicit ← argumentList term
  match target.argumentCount? explicit with
  | some count =>
    skipSymbol ')'
    emit (.call target.fullName count)
  | none => failAt (← location) (.tooMany "arguments")

/-- A constant that is a keyword. Truth is the number with all bits set. -/
def keywordConstant (word : Keyword) : Codegen Unit := do
  match word with
  | .«true» =>
    skip
    emit (.push .constant 1)
    emit (.operate .neg)
  | .«false» | .null =>
    skip
    emit (.push .constant 0)
  | .this =>
    skip
    emit (.push .pointer 0)
  | _ => failExpecting (TokenReader.choiceOf [.«true», .«false», .null, .this])

/-- Creates a string and appends its characters one by one. -/
def stringConstant (contents : List Char) : Codegen Unit := do
  emit (.push .constant contents.length)
  emit .newString
  contents.forM fun c => do
    emit (.push .constant c.toNat)
    emit .appendCharacter

/-- An identifier in a term: an array element, a call or a variable. -/
def named (className : String) (term : Codegen Unit) : Codegen Unit := do
  let place ← location
  let name ← takeName
  match ← look (·.symbol?) with
  | some '[' =>
    skip
    elementAddress term (← resolve name place)
    emit (.pop .pointer 1)
    emit (.push .that 0)
  | some '(' | some '.' => call className term name
  | _ => pushVariable (← resolve name place)

/-- A term, given the step for terms one level further down. -/
def operand (className : String) (term : Codegen Unit) : Codegen Unit := do
  match ← look (·.lookahead) with
  | none => failExpecting "term"
  | some token =>
    match token.kind with
    | .integer =>
      match token.integerValue? with
      | some value =>
        skip
        emit (.push .constant value)
      | none => failExpecting TokenKind.integer.description
    | .string =>
      let contents := unquote token.text.toList
      if contents.length ≤ maxInteger then
        skip
        stringConstant contents
      else failExpecting "shorter string constant"
    | .keyword word => keywordConstant word
    | .symbol '(' =>
      skip
      expression term
      skipSymbol ')'
    | .symbol '-' =>
      skip
      term
      emit (.operate .neg)
    | .symbol '~' =>
      skip
      term
      emit (.operate .not)
    | .identifier => named className term
    | .symbol _ => failExpecting "term"

/-- A constant, a variable, an array element, a call, an expression in parentheses, or a sign in
front of a term, at most the given number of levels deep. -/
def term (className : String) : Nat → Codegen Unit
  | 0 => do failAt (← location) .nestingTooDeep
  | levels + 1 => operand className (term className levels)

end Codegen

end JackCompiler
