import JackCompiler.Proofs.Grammar.Rules
import JackCompiler.Proofs.Machine.Basic

/-!
# Values of expressions

The value of an expression is found on its tree, from left to right. Binary operators associate to
the right and have no precedence, because that is how trees are built. Calls, products and quotients
among them, may change the memory that is read later.

## Main definitions

* `Term.eval`, `Expression.eval`, `Call.eval` — the value, and the memory behind the evaluation
-/

namespace JackCompiler

open Machine

/-- The word that a variable holds. A field is a word of the current object. -/
def Variable.value (v : Variable) (frame : Frame) (memory : Memory) : Word :=
  match v.kind with
  | .static => memory.statics v.index
  | .field => memory.heap (frame.this + BitVec.ofNat 16 v.index)
  | .argument => frame.arguments v.index
  | .«local» => frame.locals v.index

namespace Grammar

/-- The word that a name stands for. -/
def Environment.value (environment : Environment) (frame : Frame) (memory : Memory)
    (name : String) : Word :=
  ((environment.lookup? name).map fun v => v.value frame memory).getD 0

/-- The word that a keyword stands for. -/
def ConstantWord.value (frame : Frame) : ConstantWord → Word
  | .«true» => allOnes
  | .«false» | .null => 0
  | .this => frame.this

/-- A sign in front of a word. -/
def UnaryOperator.apply : UnaryOperator → Word → Word
  | .neg, x => -x
  | .not, x => ~~~x

/-- An operator between two words. -/
def applyOperator (routines : Routines) (operator : BinaryOperator) (x y : Word)
    (memory : Memory) : Word × Memory :=
  match operator with
  | .add => (x + y, memory)
  | .sub => (x - y, memory)
  | .mul => routines "Math.multiply" [x, y] memory
  | .div => routines "Math.divide" [x, y] memory
  | .and => (x &&& y, memory)
  | .or => (x ||| y, memory)
  | .lt => (truth (x.slt y), memory)
  | .gt => (truth (y.slt x), memory)
  | .eq => (truth (x == y), memory)

/-- Appends characters to a string one by one. -/
def appendAll (routines : Routines) : List Char → Word → Memory → Word × Memory
  | [], text, memory => (text, memory)
  | c :: rest, text, memory =>
    let (longer, memory) := routines "String.appendChar" [text, BitVec.ofNat 16 c.toNat] memory
    appendAll routines rest longer memory

/-- A string with the given characters. -/
def newString (routines : Routines) (contents : List Char) (memory : Memory) : Word × Memory :=
  let (text, memory) := routines "String.new" [BitVec.ofNat 16 contents.length] memory
  appendAll routines contents text memory

mutual

/-- The value of a term, and the memory behind its evaluation. -/
def Term.eval (routines : Routines) (environment : Environment) (frame : Frame) :
    Term → Memory → Word × Memory
  | .integer digits, memory =>
    (BitVec.ofNat 16 ((decimalValue? digits.toList).getD 0), memory)
  | .string contents, memory => newString routines contents memory
  | .constant word, memory => (word.value frame, memory)
  | .named name, memory => (environment.value frame memory name, memory)
  | .element array index, memory =>
    let base := environment.value frame memory array
    let (offset, memory) := index.eval routines environment frame memory
    (memory.heap (base + offset), memory)
  | .call target, memory => target.eval routines environment frame memory
  | .parentheses inner, memory => inner.eval routines environment frame memory
  | .unary operator operand, memory =>
    let (x, memory) := operand.eval routines environment frame memory
    (operator.apply x, memory)

/-- The value of an expression, and the memory behind its evaluation. -/
def Expression.eval (routines : Routines) (environment : Environment) (frame : Frame) :
    Expression → Memory → Word × Memory
  | .single term, memory => term.eval routines environment frame memory
  | .binary left operator right, memory =>
    let (x, memory) := left.eval routines environment frame memory
    let (y, memory) := right.eval routines environment frame memory
    applyOperator routines operator x y memory

/-- What a call answers. The object that a method is called on is passed first. In front of a dot,
a variable is an object of the class that is its type, and any other name is a class. -/
def Call.eval (routines : Routines) (environment : Environment) (frame : Frame) :
    Call → Memory → Word × Memory
  | .bare name arguments, memory =>
    let (values, memory) := Expression.evalList routines environment frame arguments memory
    routines (qualifiedName environment.className name) (frame.this :: values) memory
  | .qualified owner name arguments, memory =>
    match environment.lookup? owner with
    | some v =>
      let receiver := v.value frame memory
      let (values, memory) := Expression.evalList routines environment frame arguments memory
      routines (qualifiedName v.type name) (receiver :: values) memory
    | none =>
      let (values, memory) := Expression.evalList routines environment frame arguments memory
      routines (qualifiedName owner name) values memory

/-- The values of several expressions, one after the other. -/
def Expression.evalList (routines : Routines) (environment : Environment) (frame : Frame) :
    List Expression → Memory → List Word × Memory
  | [], memory => ([], memory)
  | e :: rest, memory =>
    let (value, memory) := e.eval routines environment frame memory
    let (values, memory) := Expression.evalList routines environment frame rest memory
    (value :: values, memory)

end

end Grammar

end JackCompiler
