import JackCompiler.Codegen.Expression

/-!
# Code of statements

The code of a statement leaves the stack as it was. An `if` and a `while` take one label number
each, and jump over their blocks when the negated condition is not zero.

## Main definitions

* `Codegen.statements` — the statements of a block, with a number of levels left
-/

namespace JackCompiler

/-- The label of what an `if` executes when its condition does not hold. -/
def ifFalseLabel (number : Nat) : String :=
  "IF_FALSE" ++ toString number

/-- The label of what follows an `if` with two blocks. -/
def ifEndLabel (number : Nat) : String :=
  "IF_END" ++ toString number

/-- The label of the condition of a `while`. -/
def whileStartLabel (number : Nat) : String :=
  "WHILE_EXP" ++ toString number

/-- The label of what follows a `while`. -/
def whileEndLabel (number : Nat) : String :=
  "WHILE_END" ++ toString number

/-- The brace that opens a block. -/
def openingBrace : Char := '\x7b'

/-- The brace that closes a block. -/
def closingBrace : Char := '\x7d'

namespace Codegen

/-- Compiles `let` name (`[` expression `]`)? `=` expression `;`.

The value for an array element waits in `temp 0` while `that` is set, because the code of the value
may move `that` itself. -/
def letStatement (term : Codegen Unit) : Codegen Unit := do
  skipKeyword .«let»
  let place ← location
  let name ← takeName
  let target ← resolve name place
  if ← acceptSymbol '[' then
    elementAddress term target
    skipSymbol '='
    expression term
    skipSymbol ';'
    emit (.pop .temp 0)
    emit (.pop .pointer 1)
    emit (.push .temp 0)
    emit (.pop .that 0)
  else
    skipSymbol '='
    expression term
    skipSymbol ';'
    popVariable target

/-- Compiles `(` expression `)`. -/
def condition (term : Codegen Unit) : Codegen Unit := do
  skipSymbol '('
  expression term
  skipSymbol ')'

/-- Jumps to a label unless the value on top of the stack has all bits set. -/
def jumpUnless (label : String) : Codegen Unit := do
  emit (.operate .not)
  emit (.ifGoto label)

/-- Compiles `{` statements `}`. -/
def block (statements : Codegen Unit) : Codegen Unit := do
  skipSymbol openingBrace
  statements
  skipSymbol closingBrace

/-- Compiles `if` `(` expression `)` `{` statements `}` (`else` `{` statements `}`)?. -/
def ifStatement (term statements : Codegen Unit) : Codegen Unit := do
  skipKeyword .«if»
  condition term
  let number ← freshLabel
  jumpUnless (ifFalseLabel number)
  block statements
  if ← acceptKeyword .«else» then
    emit (.goto (ifEndLabel number))
    emit (.label (ifFalseLabel number))
    block statements
    emit (.label (ifEndLabel number))
  else emit (.label (ifFalseLabel number))

/-- Compiles `while` `(` expression `)` `{` statements `}`. -/
def whileStatement (term statements : Codegen Unit) : Codegen Unit := do
  let number ← freshLabel
  skipKeyword .«while»
  emit (.label (whileStartLabel number))
  condition term
  jumpUnless (whileEndLabel number)
  block statements
  emit (.goto (whileStartLabel number))
  emit (.label (whileEndLabel number))

/-- Compiles `do` subroutineCall `;`. The value that the call returns is dropped. -/
def doStatement (className : String) (term : Codegen Unit) : Codegen Unit := do
  skipKeyword .«do»
  call className term (← takeName)
  skipSymbol ';'
  emit (.pop .temp 0)

/-- Reports that a subroutine returns without a value at the look-ahead, if it promises one. -/
def reportMissingValue (subroutine : Subroutine) : Codegen Unit := do
  match subroutine.returnType with
  | .value type => report (.valueMissing (← location) subroutine.name type)
  | .void => return

/-- Pushes what a subroutine returns. Every call leaves one value, so that zero is returned where no
value is given. -/
def returnedValue (subroutine : Subroutine) (term : Codegen Unit) : Codegen Unit := do
  if ← look (·.atSymbol ';') then
    reportMissingValue subroutine
    emit (.push .constant 0)
  else expression term

/-- Compiles `return` expression? `;`. -/
def returnStatement (subroutine : Subroutine) (term : Codegen Unit) : Codegen Unit := do
  skipKeyword .«return»
  returnedValue subroutine term
  skipSymbol ';'
  emit .«return»

/-- Compiles the statement that comes next, and tells whether there is one. -/
def statement (subroutine : Subroutine) (term statements : Codegen Unit) : Codegen Bool := do
  match ← look (·.keyword?) with
  | some .«let» => letStatement term; return true
  | some .«if» => ifStatement term statements; return true
  | some .«while» => whileStatement term statements; return true
  | some .«do» => doStatement subroutine.className term; return true
  | some .«return» => returnStatement subroutine term; return true
  | _ => return false

/-- Compiles any number of statements, at most the given number of levels deep. -/
def statements (subroutine : Subroutine) : Nat → Codegen Unit
  | 0 => do failAt (← location) .nestingTooDeep
  | levels + 1 =>
    repeatWhile <|
      statement subroutine (term subroutine.className levels) (statements subroutine levels)

end Codegen

end JackCompiler
