import JackCompiler.Codegen.Statement

/-!
# Code of classes

A class declares static variables and fields, and then subroutines. The code of a class is the code
of its subroutines, one after the other.

## Main definitions

* `Codegen.classBody` — a whole class, up to the end of its source
* `compileClass` — compiles a source into a sink
* `compileText` — the code of a source as a text
-/

namespace JackCompiler

namespace Codegen

/-- Takes a type: `int`, `char`, `boolean` or the name of a class. -/
def typeName : Codegen String := do
  match ← look (·.kind?) with
  | some (.keyword word) =>
    if word ∈ [Keyword.int, .char, .boolean] then
      skip
      return word.text
    else failExpecting "type"
  | some .identifier => takeName
  | _ => failExpecting "type"

/-- Declares the name that comes next. -/
def declareNext (type : String) (kind : VariableKind) : Codegen Unit := do
  let place ← location
  let name ← takeName
  declare name type kind place

/-- Runs a step once, and once more behind every comma. -/
def separatedByCommas (item : Codegen Unit) : Codegen Unit := do
  item
  repeatWhile do
    if ← acceptSymbol ',' then
      item
      return true
    else return false

/-- Compiles type name (`,` name)* `;`. -/
def variableNames (kind : VariableKind) : Codegen Unit := do
  let type ← typeName
  separatedByCommas (declareNext type kind)
  skipSymbol ';'

/-- Compiles (`static` | `field`) type name (`,` name)* `;` if it comes next, and tells whether it
does. -/
def classVariables : Codegen Bool := do
  match ← look (·.keyword?) with
  | some .static => skip; variableNames .static; return true
  | some .field => skip; variableNames .field; return true
  | _ => return false

/-- Compiles `var` type name (`,` name)* `;` if it comes next, and tells whether it does. -/
def localVariables : Codegen Bool := do
  match ← look (·.keyword?) with
  | some .var => skip; variableNames .«local»; return true
  | _ => return false

/-- Compiles ((type name) (`,` type name)*)? up to a closing parenthesis. -/
def parameters : Codegen Unit := do
  if ← look (·.atSymbol ')') then return
  else separatedByCommas do declareNext (← typeName) .argument

/-- Declares the object that a method is called on as its first argument. The name of the method
stands at the given place. -/
def declareReceiver (kind : SubroutineKind) (className : String) (place : Location) :
    Codegen Unit := do
  match kind with
  | .method => declare "this" className .argument place
  | .constructor | .function => return

/-- Writes what a subroutine does before its first statement: a constructor allocates an object with
room for the fields, and a method makes the object that it was called on the current one. -/
def prologue (kind : SubroutineKind) : Codegen Unit := do
  match kind with
  | .constructor =>
    emit (.push .constant (← declarations .field))
    emit .allocate
    emit (.pop .pointer 0)
  | .method =>
    emit (.push .argument 0)
    emit (.pop .pointer 0)
  | .function => return

/-- Compiles varDec* statements. The header states the number of local variables, so it is written
behind their declarations. -/
def subroutineBody (kind : SubroutineKind) (subroutine : Subroutine) : Codegen Unit := do
  repeatWhile localVariables
  let locals ← declarations .«local»
  emit (.function (qualifiedName subroutine.className subroutine.name) locals)
  prologue kind
  statements subroutine maxNesting

/-- Takes `void` or a type. -/
def returnType : Codegen ReturnType := do
  if ← acceptKeyword .void then return .void
  else return .value (← typeName)

/-- Compiles (`void` | type) name `(` parameterList `)` `{` varDec* statements `}`, which follows
the keyword that tells the kind of a subroutine. -/
def subroutineOf (className : String) (kind : SubroutineKind) : Codegen Unit := do
  startSubroutine
  let returnType ← returnType
  let place ← location
  let name ← takeName
  report (.subroutineBegun kind (qualifiedName className name))
  declareReceiver kind className place
  skipSymbol '('
  parameters
  skipSymbol ')'
  block (subroutineBody kind { className, name, returnType })

/-- Compiles (`constructor` | `function` | `method`) (`void` | type) name `(` parameterList `)` `{`
varDec* statements `}` if it comes next, and tells whether it does. -/
def subroutine (className : String) : Codegen Bool := do
  match ← look (·.keyword?) with
  | some .constructor => skip; subroutineOf className .constructor; return true
  | some .function => skip; subroutineOf className .function; return true
  | some .method => skip; subroutineOf className .method; return true
  | _ => return false

/-- Checks that no token is left. -/
def expectEnd : Codegen Unit := do
  if ← look (·.lookahead.isSome) then failExpecting "end of file"
  else return

/-- Compiles `class` name `{` classVarDec* subroutineDec* `}`, behind which the source ends. -/
def classBody : Codegen Unit := do
  report (.sourceBegun (← location).file)
  skipKeyword .«class»
  let className ← takeName
  skipSymbol openingBrace
  repeatWhile classVariables
  repeatWhile (subroutine className)
  skipSymbol closingBrace
  expectEnd

/-- Compiles a class and hands on its code. -/
def classSource : Codegen Unit := do
  classBody
  flush

end Codegen

/-- What a compilation leaves behind. -/
structure Compilation where
  result : Except Fault Unit
  /-- The code that was written, also if the compilation failed. -/
  output : Sink Instruction
  events : Array Event
deriving Inhabited

/-- Compiles the class in a source into a sink. -/
def compileClass (file source : String) (sink : Sink Instruction) : Compilation :=
  match TokenStream.ofLexer (.ofSource file source) with
  | .error fault => { result := .error (.lexical fault), output := sink, events := #[] }
  | .ok tokens =>
    let (result, session) := Codegen.classSource.run.run { tokens, output := sink }
    { result, output := session.output, events := session.events }

/-- The code of the class in a source, and what was reported while it was compiled. -/
def compileText (file source : String) : Except Fault String × Array Event :=
  let compilation := compileClass file source {}
  (compilation.result.map fun () => compilation.output.text Instruction.text, compilation.events)

end JackCompiler
