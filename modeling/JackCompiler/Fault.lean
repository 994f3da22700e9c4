import JackCompiler.Source.Position
import JackCompiler.Text.CharLiteral
import JackCompiler.Text.Utf8

/-!
# Faults

Everything that can go wrong on the way from a source to its output, by cause. The wording of a
diagnostic is made from the cause in one place, `Fault.message`.

## Main definitions

* `LexicalFault`, `SyntacticFault`, `StorageFault` — the causes, by the stage that finds them
* `Located` — a cause and the place in a source where it was found
* `Fault`, `Fault.message` — any of them, and its diagnostic
-/

namespace JackCompiler

/-- A cause together with the place of the source that shows it. -/
structure Located (α : Type) where
  location : Location
  cause : α
deriving DecidableEq, Repr, Inhabited

/-- Why a piece of text is no token. -/
inductive LexicalFault where
  /-- A block comment reaches the end of the source. -/
  | unterminatedComment
  /-- A quoted string reaches the end of the source. -/
  | unterminatedString
  /-- A quoted string holds a character outside ASCII. -/
  | nonAsciiString (c : Char)
  /-- An integer constant is larger than `maxInteger`. -/
  | integerOverflow (digits : String)
  /-- A token was asked for at the end of the source. -/
  | unexpectedEnd
deriving DecidableEq, Repr, Inhabited

/-- Why tokens are no class, or break one of the rules that classes obey. -/
inductive SyntacticFault where
  /-- The token that was met is not one that the grammar allows there. -/
  | mismatch (expected encountered : String)
  /-- A name is used as a variable, but no visible declaration has it. -/
  | undefinedVariable (name : String)
  /-- Terms and statement blocks are nested beyond the limit. -/
  | nestingTooDeep
  /-- There are more of something than an instruction can number. -/
  | tooMany (what : String)
deriving DecidableEq, Repr, Inhabited

/-- Why bytes cannot be read or written. -/
inductive StorageFault where
  | isDirectory
  | notFound
  | notDirectory
  /-- A path, or a name in it, has too many bytes. -/
  | nameTooLong
  /-- A path holds the character NUL. -/
  | nulInPath
  /-- A sink has taken all the bytes that it accepts. -/
  | sinkFull
  /-- A sink cannot be flushed. -/
  | flushFailed
deriving DecidableEq, Repr, Inhabited

/-- Anything that can go wrong. -/
inductive Fault where
  | lexical (fault : Located LexicalFault)
  | syntactic (fault : Located SyntacticFault)
  | storage (fault : StorageFault)
  /-- A source is not UTF-8. -/
  | encoding (fault : Utf8.Fault)
  /-- No file name can have the extension that outputs are to have. -/
  | unusableExtension (text : String)
  /-- The given path or command line names nothing that can be processed. -/
  | usage (message : String)
deriving DecidableEq, Repr, Inhabited

/-- The wording of a lexical fault, without its place. -/
def LexicalFault.text : LexicalFault → String
  | .unterminatedComment => "comment did not end"
  | .unterminatedString => "string constant did not end"
  | .nonAsciiString c => "unsupported character " ++ charLiteral c ++ " in string constant"
  | .integerOverflow digits => "integer constant " ++ digits ++ " is out of range 0..=32767"
  | .unexpectedEnd => "more tokens expected"

/-- The wording of a syntactic fault, without its place. -/
def SyntacticFault.text : SyntacticFault → String
  | .mismatch expected encountered =>
    "encountered unexpected token " ++ encountered ++ ", expected " ++ expected
  | .undefinedVariable name => "variable '" ++ name ++ "' is not defined"
  | .nestingTooDeep => "nesting is too deep"
  | .tooMany what => "too many " ++ what

/-- The wording of a storage fault. -/
def StorageFault.text : StorageFault → String
  | .isDirectory => "Is a directory (os error 21)"
  | .notFound => "No such file or directory (os error 2)"
  | .notDirectory => "Not a directory (os error 20)"
  | .nameTooLong => "File name too long (os error 36)"
  | .nulInPath => "file name contained an unexpected NUL byte"
  | .sinkFull => "failed to write whole buffer"
  | .flushFailed => "flush failed"

namespace Fault

/-- The diagnostic of a fault. One that was found in a source names its place first. -/
def message : Fault → String
  | .lexical fault => fault.location.text ++ ": lexical error: " ++ fault.cause.text
  | .syntactic fault => fault.location.text ++ ": " ++ fault.cause.text
  | .storage fault => fault.text
  | .encoding fault => "source is not valid UTF-8: " ++ fault.text
  | .unusableExtension text => "extension " ++ text ++ " contains a path separator"
  | .usage message => message

/-- The place of a fault that was found in a source. -/
def location? : Fault → Option Location
  | .lexical fault => some fault.location
  | .syntactic fault => some fault.location
  | _ => none

/-- The wording of the fault underneath, for a fault that only reports one. -/
def cause? : Fault → Option String
  | .storage fault => some fault.text
  | .encoding fault => some fault.text
  | _ => none

end Fault

end JackCompiler
