import JackCompiler.Vm.Instruction

/-!
# Routines of the operating system

The machine has no instruction for products and quotients and none that creates objects or strings.
Generated code calls routines of the operating system instead.

## Main definitions

* `Instruction.multiply`, `Instruction.divide` — arithmetic
* `Instruction.allocate` — memory for an object
* `Instruction.newString`, `Instruction.appendCharacter` — strings
-/

namespace JackCompiler.Instruction

/-- Replaces the two values on top of the stack by their product. -/
def multiply : Instruction :=
  .call "Math.multiply" 2

/-- Replaces the two values on top of the stack by their quotient. -/
def divide : Instruction :=
  .call "Math.divide" 2

/-- Replaces a number of words by the address of a block of that size. -/
def allocate : Instruction :=
  .call "Memory.alloc" 1

/-- Replaces a length by an empty string that can grow to it. -/
def newString : Instruction :=
  .call "String.new" 1

/-- Replaces a string and a character by the string with the character at its end. -/
def appendCharacter : Instruction :=
  .call "String.appendChar" 2

end JackCompiler.Instruction
