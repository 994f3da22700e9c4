import JackCompiler.Codegen.Subroutine
import JackCompiler.Source.Position
import JackCompiler.Variable.Basic

/-!
# Events of a compilation

A compilation reports what it meets: the class and the subroutines that it compiles, the variables
that they declare, and returns without a value where one was promised.

## Main definitions

* `Severity`, `Event` — what is reported
* `Event.severity`, `Event.text` — how it is reported
-/

namespace JackCompiler

/-- How important an event is. -/
inductive Severity where
  | debug | info | warn
deriving DecidableEq, Repr, Inhabited

/-- The name of a severity. -/
def Severity.text : Severity → String
  | .debug => "DEBUG"
  | .info => "INFO"
  | .warn => "WARN"

/-- Something that is reported while classes are compiled. -/
inductive Event where
  /-- The compilation of a source begins. -/
  | sourceBegun (file : String)
  /-- The name of a subroutine has been read. -/
  | subroutineBegun (kind : SubroutineKind) (fullName : String)
  /-- A variable has been declared. -/
  | declared (name : String) (v : Variable)
  /-- A subroutine that promises a value returns without one, at the given place. -/
  | valueMissing (location : Location) (subroutine type : String)
  /-- The code of a source file has been written. -/
  | compiled (source output : String)
  /-- The token listing of a source file has been written. -/
  | tokenized (source output : String)
deriving DecidableEq, Repr, Inhabited

namespace Event

/-- Only a missing value is worth a warning. -/
def severity : Event → Severity
  | .sourceBegun _ => .debug
  | .subroutineBegun .. => .debug
  | .declared .. => .debug
  | .valueMissing .. => .warn
  | .compiled .. => .info
  | .tokenized .. => .info

/-- The message of an event. -/
def text : Event → String
  | .sourceBegun file => "compiling " ++ file
  | .subroutineBegun kind fullName => "compiling " ++ kind.text ++ " " ++ fullName
  | .declared name v =>
    "define " ++ v.kind.text ++ " " ++ v.type ++ " " ++ name ++ " -> " ++ v.segment.text ++ " "
      ++ toString v.index
  | .valueMissing location subroutine type =>
    location.text ++ ": subroutine " ++ subroutine ++ " returns " ++ type
      ++ ", but returns without a value"
  | .compiled source output => "compiled " ++ source ++ " -> " ++ output
  | .tokenized source output => "tokenized " ++ source ++ " -> " ++ output

/-- The line that reports an event: its severity and its message. -/
def line (event : Event) : String :=
  event.severity.text ++ " " ++ event.text

end Event

end JackCompiler
