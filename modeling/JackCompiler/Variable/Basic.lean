import JackCompiler.Vm.Instruction

/-!
# Variables

A variable has a declared type, a kind, and an index that counts the declarations of its kind.
Together they say where the machine keeps it.

## Main definitions

* `VariableKind` — the four kinds of declarations, with the segment and scope of each
* `Variable` — what a declaration says of a name
-/

namespace JackCompiler

/-- How a variable is declared. -/
inductive VariableKind where
  /-- Shared by all objects of the class. -/
  | static
  /-- Part of each object. -/
  | field
  /-- Passed to a subroutine. -/
  | argument
  /-- Local to a subroutine. -/
  | «local»
deriving DecidableEq, Repr, Inhabited

namespace VariableKind

/-- The name of a kind. -/
def text : VariableKind → String
  | .static => "static"
  | .field => "field"
  | .argument => "argument"
  | .«local» => "local"

/-- What diagnostics call the variables of a kind. -/
def plural : VariableKind → String
  | .static => "static variables"
  | .field => "fields"
  | .argument => "arguments"
  | .«local» => "local variables"

/-- The segment that holds the variables of a kind. -/
def segment : VariableKind → Segment
  | .static => .static
  | .field => .this
  | .argument => .argument
  | .«local» => .«local»

/-- Static variables and fields live as long as their class, the others as long as a
subroutine. -/
def inClassScope : VariableKind → Bool
  | .static | .field => true
  | .argument | .«local» => false

end VariableKind

/-- What a declaration says of a name. -/
structure Variable where
  /-- A primitive type or the name of a class. -/
  type : String
  kind : VariableKind
  /-- The number of declarations of the same kind before this one. -/
  index : Nat
deriving DecidableEq, Repr, Inhabited

/-- The segment that holds a variable. -/
def Variable.segment (v : Variable) : Segment :=
  v.kind.segment

end JackCompiler
