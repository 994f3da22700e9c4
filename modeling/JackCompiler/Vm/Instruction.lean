/-!
# Instructions of the virtual machine

The target of the compiler is a stack machine whose memory is divided into segments. Its code is
text, one instruction a line.

## Main definitions

* `Segment`, `Operation`, `Instruction` — the machine's code
* `Instruction.text` — the written form of an instruction
* `maxOperand` — the largest number that an instruction holds
-/

namespace JackCompiler

/-- The largest index or count that an instruction holds. -/
def maxOperand : Nat := 65535

/-- The memory segments of the machine. -/
inductive Segment where
  | constant
  | argument
  | «local»
  | static
  /-- The fields of the current object. -/
  | this
  /-- The array element that `pointer 1` points to. -/
  | that
  /-- The bases of two other segments: `pointer 0` of `this`, and `pointer 1` of `that`. -/
  | pointer
  | temp
deriving DecidableEq, Repr, Inhabited

/-- The operations on the top of the stack. -/
inductive Operation where
  | add | sub | neg | eq | gt | lt | and | or | not
deriving DecidableEq, Repr, Inhabited

/-- An instruction of the machine. -/
inductive Instruction where
  | push (segment : Segment) (index : Nat)
  | pop (segment : Segment) (index : Nat)
  | operate (operation : Operation)
  | label (name : String)
  | goto (target : String)
  /-- Jumps if the value on top of the stack, which is taken, is not zero. -/
  | ifGoto (target : String)
  /-- Calls a function with the given number of values from the stack. -/
  | call (name : String) (arguments : Nat)
  /-- Begins a function with the given number of local variables. -/
  | function (name : String) (locals : Nat)
  | «return»
deriving DecidableEq, Repr, Inhabited

/-- The name of a segment. -/
def Segment.text : Segment → String
  | .constant => "constant"
  | .argument => "argument"
  | .«local» => "local"
  | .static => "static"
  | .this => "this"
  | .that => "that"
  | .pointer => "pointer"
  | .temp => "temp"

/-- The name of an operation. -/
def Operation.text : Operation → String
  | .add => "add"
  | .sub => "sub"
  | .neg => "neg"
  | .eq => "eq"
  | .gt => "gt"
  | .lt => "lt"
  | .and => "and"
  | .or => "or"
  | .not => "not"

/-- The written form of an instruction: its parts with single blanks between them. -/
def Instruction.text : Instruction → String
  | .push segment index => "push " ++ segment.text ++ " " ++ toString index
  | .pop segment index => "pop " ++ segment.text ++ " " ++ toString index
  | .operate operation => operation.text
  | .label name => "label " ++ name
  | .goto target => "goto " ++ target
  | .ifGoto target => "if-goto " ++ target
  | .call name arguments => "call " ++ name ++ " " ++ toString arguments
  | .function name locals => "function " ++ name ++ " " ++ toString locals
  | .«return» => "return"

end JackCompiler
