import JackCompiler.Variable.Basic

/-!
# Calls

A call names a function of a class, or a method together with the object it is called on. The
object is passed as one argument more than the call lists.

## Main definitions

* `CallTarget` — what a call refers to
* `CallTarget.fullName`, `CallTarget.argumentCount?` — the operands of the call instruction
-/

namespace JackCompiler

/-- The object that a method is called on. -/
inductive Receiver where
  /-- The current object. -/
  | this
  /-- The object that a variable holds. -/
  | inVariable (v : Variable)
deriving DecidableEq, Repr, Inhabited

/-- What a call refers to. -/
inductive CallTarget where
  | function (className name : String)
  | method (receiver : Receiver) (className name : String)
deriving DecidableEq, Repr, Inhabited

/-- The name of a subroutine to the machine. -/
def qualifiedName (className name : String) : String :=
  className ++ "." ++ name

namespace CallTarget

/-- The machine's name of the subroutine that is called. -/
def fullName : CallTarget → String
  | .function className name => qualifiedName className name
  | .method _ className name => qualifiedName className name

/-- The object that is passed in addition to the listed arguments. -/
def receiver? : CallTarget → Option Receiver
  | .function .. => none
  | .method receiver .. => some receiver

/-- The number of arguments in addition to the listed ones. -/
def implicitArguments (target : CallTarget) : Nat :=
  if target.receiver?.isSome then 1 else 0

/-- The number of arguments of a call that lists `explicit` of them, if a call instruction can hold
it. -/
def argumentCount? (target : CallTarget) (explicit : Nat) : Option Nat :=
  let count := explicit + target.implicitArguments
  if count ≤ maxOperand then some count else none

end CallTarget

end JackCompiler
