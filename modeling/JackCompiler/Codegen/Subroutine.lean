/-!
# Subroutines

What the code of a subroutine depends on besides the variables that are visible in it.

## Main definitions

* `SubroutineKind`, `ReturnType` — how a subroutine is declared
* `Subroutine` — the subroutine whose statements are compiled
-/

namespace JackCompiler

/-- How a subroutine works on objects. -/
inductive SubroutineKind where
  /-- Allocates an object and returns it. -/
  | constructor
  /-- Works on no object. -/
  | function
  /-- Works on the object that is passed as its first argument. -/
  | method
deriving DecidableEq, Repr, Inhabited

/-- The name of a kind of subroutines. -/
def SubroutineKind.text : SubroutineKind → String
  | .constructor => "constructor"
  | .function => "function"
  | .method => "method"

/-- What a subroutine promises to return. -/
inductive ReturnType where
  | void
  | value (type : String)
deriving DecidableEq, Repr, Inhabited

/-- The subroutine whose statements are compiled. -/
structure Subroutine where
  /-- The class that declares it. -/
  className : String
  name : String
  returnType : ReturnType
deriving DecidableEq, Repr, Inhabited

end JackCompiler
