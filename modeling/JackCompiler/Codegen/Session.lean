import JackCompiler.Codegen.Event
import JackCompiler.Output.Sink
import JackCompiler.Token.Stream
import JackCompiler.Variable.Table

/-!
# Sessions of the code generator

A class is compiled in one pass: code is written while tokens are taken. A session holds what such
a pass has reached, and a step of it either answers or fails; a failed step keeps everything that
it has taken, declared, written and reported.

## Main definitions

* `Session`, `Codegen` — the state of a pass, and its steps
* `Codegen.read`, `Codegen.look` — taking tokens, and looking at the one that comes next
* `Codegen.emit`, `Codegen.flush`, `Codegen.report` — writing code, handing it on, and reporting
* `Codegen.startSubroutine`, `Codegen.declare`, `Codegen.lookup?`, `Codegen.declarations` — the
  visible variables
* `Codegen.freshLabel` — labels
* `Codegen.iterate`, `Codegen.repeatWhile` — repetition, as long as tokens are taken

All other steps are made of these and never use the session itself.
-/

namespace JackCompiler

/-- The state of a pass over a class. -/
structure Session where
  tokens : TokenStream
  output : Sink Instruction
  visible : VariableTable := {}
  /-- The number of the next label. -/
  nextLabel : Nat := 0
  events : Array Event := #[]
deriving Repr, Inhabited

/-- A step of a pass over a class. -/
abbrev Codegen (α : Type) := ExceptT Fault (StateM Session) α

namespace Codegen

/-- Takes tokens. -/
def read {α : Type} (reader : TokenReader α) : Codegen α := fun session =>
  let (result, tokens) := reader session.tokens
  (result, { session with tokens })

/-- What the tokens that have not been taken show of themselves. -/
def look {α : Type} (view : TokenStream → α) : Codegen α :=
  return view (← get).tokens

/-- Writes an instruction. -/
def emit (instruction : Instruction) : Codegen Unit := fun session =>
  let (result, output) := session.output.write Instruction.text instruction
  (result.mapError .storage, { session with output })

/-- Hands on the code that has been written. -/
def flush : Codegen Unit := do
  match (← get).output.flush with
  | .ok () => return
  | .error fault => throw (.storage fault)

/-- Reports an event. -/
def report (event : Event) : Codegen Unit :=
  modify fun session => { session with events := session.events.push event }

/-- The number of a label that no other label has. -/
def freshLabel : Codegen Nat :=
  modifyGet fun session => (session.nextLabel, { session with nextLabel := session.nextLabel + 1 })

/-- Forgets the variables of the subroutine before. -/
def startSubroutine : Codegen Unit :=
  modify fun session => { session with visible := session.visible.startSubroutine }

/-- The variable that a name means, if it means one. -/
def lookup? (name : String) : Codegen (Option Variable) :=
  return (← get).visible.lookup? name

/-- The number of declarations of a kind. -/
def declarations (kind : VariableKind) : Codegen Nat :=
  return (← get).visible.count kind

/-- The place of the look-ahead. -/
def location : Codegen Location :=
  look (·.location)

/-- Fails because of what stands at the given place. -/
def failAt {α : Type} (place : Location) (cause : SyntacticFault) : Codegen α :=
  throw (.syntactic { location := place, cause })

/-- Fails because of the look-ahead, in whose place something else was expected. -/
def failExpecting {α : Type} (expected : String) : Codegen α := do
  throw (← look (·.mismatch expected))

/-- Declares a variable whose name stands at the given place. -/
def declare (name type : String) (kind : VariableKind) (place : Location) : Codegen Unit := do
  match (← get).visible.declare? name type kind with
  | some (v, visible) =>
    modify ({ · with visible })
    report (.declared name v)
  | none => failAt place (.tooMany kind.plural)

/-- The variable that a name at the given place has to mean. -/
def resolve (name : String) (place : Location) : Codegen Variable := do
  match ← lookup? name with
  | some v => return v
  | none => failAt place (.undefinedVariable name)

/-- Takes the given symbol. -/
def skipSymbol (c : Char) : Codegen Unit :=
  discard (read (TokenReader.expectSymbol c))

/-- Takes the given keyword. -/
def skipKeyword (word : Keyword) : Codegen Unit :=
  discard (read (TokenReader.expectKeyword word))

/-- Takes the look-ahead, whatever it is. -/
def skip : Codegen Unit :=
  discard (read TokenReader.next)

/-- Takes the given symbol if it comes next, and tells whether it does. -/
def acceptSymbol (c : Char) : Codegen Bool :=
  read (TokenReader.accept (.symbol c))

/-- Takes the given keyword if it comes next, and tells whether it does. -/
def acceptKeyword (word : Keyword) : Codegen Bool :=
  read (TokenReader.accept (.keyword word))

/-- Takes an identifier. -/
def takeName : Codegen String :=
  read TokenReader.expectName

/-- Pushes the value of a variable. -/
def pushVariable (v : Variable) : Codegen Unit :=
  emit (.push v.segment v.index)

/-- Pops a value into a variable. -/
def popVariable (v : Variable) : Codegen Unit :=
  emit (.pop v.segment v.index)

/-- Applies a step again and again, at most `bound` times, until it answers `none`. -/
def iterateAtMost {α : Type} (step : α → Codegen (Option α)) : Nat → α → Codegen α
  | 0, a => return a
  | bound + 1, a => do
    match ← step a with
    | some b => iterateAtMost step bound b
    | none => return a

/-- Applies a step again and again until it answers `none`. A step that answers anything else has
to take a token, so that there are no more rounds than tokens, and one. -/
def iterate {α : Type} (step : α → Codegen (Option α)) (a : α) : Codegen α := do
  iterateAtMost step ((← look (·.tokensLeft)) + 1) a

/-- Runs a step again and again until it tells that it had nothing to do. -/
def repeatWhile (step : Codegen Bool) : Codegen Unit :=
  iterate (fun () => do if ← step then return some () else return none) ()

end Codegen

end JackCompiler
