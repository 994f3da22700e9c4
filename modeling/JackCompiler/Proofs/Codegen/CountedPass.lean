import JackCompiler.Codegen.Class
import Mathlib.Algebra.Group.Nat.Defs

/-!
# Passes that count

The steps for terms and statements are told how many levels of nesting are left, and repeated steps
how many tokens are. A pass that counts is told neither. It opens a level by adding one to a counter
and closes it by taking one away, it repeats a step until that has nothing more to do, and it stops
where a position, a counter or a length would leave its range. Recursion and repetition that would
go on for ever are cut off, and that shows in how the pass halts.

A step that contains neither terms nor blocks and repeats nothing but writing is the one of the code
generator. What has been counted is looked at behind each of them.

## Main definitions

* `Limits`, `Halt` — the ranges and bounds of a pass, and why it ends before its time
* `Tally`, `Counted` — the state of a pass that counts, and its steps
* `Counted.enter`, `Counted.leave` — one level of nesting
* `Counted.term`, `Counted.statements` — terms and statements, at most so many inside one another
* `compileCounted` — compiles a source into a sink
-/

namespace JackCompiler

/-- Why a pass ends before its time. -/
inductive Halt where
  | fault (fault : Fault)
  /-- A position, a counter or a length has left its range. -/
  | outOfRange
  /-- There are more rounds, or more steps inside one another, than there may be. -/
  | endless
deriving DecidableEq, Repr

/-- The state of a pass that counts. -/
structure Tally where
  session : Session
  /-- The number of terms and blocks that are open. -/
  depth : Nat := 0

/-- The ranges and bounds of a pass. -/
structure Limits where
  /-- Whether all positions and counters are within their ranges. -/
  inRange : Tally → Bool
  /-- How often a step may be repeated. -/
  rounds : Nat

/-- A step of a pass that counts. -/
def Counted (_ : Limits) (α : Type) : Type :=
  ExceptT Halt (StateM Tally) α

namespace Counted

variable {limits : Limits} {α : Type}

instance : Monad (Counted limits) :=
  inferInstanceAs (Monad (ExceptT Halt (StateM Tally)))

/-- What becomes of a step. -/
def run (step : Counted limits α) (tally : Tally) : Except Halt α × Tally :=
  step tally

/-- Ends the pass. -/
def halt (reason : Halt) : Counted limits α := fun tally =>
  (.error reason, tally)

/-- Runs a step of the code generator, and looks at what it has counted. -/
def lift (step : Codegen α) : Counted limits α := fun tally =>
  let (result, session) := step.run.run tally.session
  let tally := { tally with session }
  if limits.inRange tally then (result.mapError .fault, tally) else (.error .outOfRange, tally)

/-- Opens a level of nesting, unless too many are open. -/
def enter : Counted limits Unit := fun tally =>
  let tally := { tally with depth := tally.depth + 1 }
  if tally.depth ≤ maxNesting then (.ok (), tally)
  else (.error (.fault (.syntactic {
    location := tally.session.tokens.location, cause := .nestingTooDeep })), tally)

/-- Closes a level of nesting. -/
def leave : Counted limits Unit := fun tally =>
  match tally.depth with
  | 0 => (.error .outOfRange, tally)
  | depth + 1 => (.ok (), { tally with depth })

/-- Makes sure that a length fits into sixteen bits. -/
def narrow (length : Nat) : Counted limits Unit :=
  if length < 2 ^ 16 then return else halt .outOfRange

/-- Applies a step again and again until it answers `none`, which it has to do in fewer rounds than
given. -/
def iterateBelow (step : α → Counted limits (Option α)) : Nat → α → Counted limits α
  | 0, _ => halt .endless
  | rounds + 1, a => do
    match ← step a with
    | some b => iterateBelow step rounds b
    | none => return a

/-- Applies a step again and again until it answers `none`. -/
def iterate (step : α → Counted limits (Option α)) (a : α) : Counted limits α :=
  iterateBelow step limits.rounds a

/-- Runs a step again and again until it tells that it had nothing to do. -/
def repeatWhile (step : Counted limits Bool) : Counted limits Unit :=
  iterate (fun () => do if ← step then return some () else return none) ()

/-! ### Expressions -/

open Codegen (look location skip emit failAt failExpecting takeName resolve acceptSymbol
  acceptKeyword skipSymbol skipKeyword report freshLabel declarations pushVariable popVariable
  callTarget pushReceiver keywordConstant stringConstant)

/-- A term, followed by any number of operators with a term each. -/
def expression (term : Counted limits Unit) : Counted limits Unit := do
  term
  let operators ← iterate (fun (pending : List BinaryOperator) => do
    match ← lift (look (·.symbol?.bind BinaryOperator.ofSymbol?)) with
    | some operator =>
      lift skip
      term
      return some (operator :: pending)
    | none => return none) []
  lift (operators.forM fun operator => emit operator.instruction)

/-- The rest of an array element behind its opening bracket. -/
def elementAddress (term : Counted limits Unit) (array : Variable) : Counted limits Unit := do
  lift (pushVariable array)
  expression term
  lift (skipSymbol ']')
  lift (emit (.operate .add))

/-- The expressions up to the closing parenthesis of a call, with commas between them. -/
def argumentList (term : Counted limits Unit) : Counted limits Nat := do
  if ← lift (look (·.atSymbol ')')) then
    return 0
  expression term
  iterate (fun count => do
    if ← lift (acceptSymbol ',') then
      expression term
      if count < maxOperand then return some (count + 1)
      else lift (do failAt (← location) (.tooMany "arguments"))
    else return none) 1

/-- A call whose first name has been taken. -/
def call (className : String) (term : Counted limits Unit) (first : String) :
    Counted limits Unit := do
  let target ← lift (callTarget className first)
  lift (skipSymbol '(')
  lift (target.receiver?.forM pushReceiver)
  let explicit ← argumentList term
  match target.argumentCount? explicit with
  | some count =>
    lift (skipSymbol ')')
    lift (emit (.call target.fullName count))
  | none => lift (do failAt (← location) (.tooMany "arguments"))

/-- An identifier in a term: an array element, a call or a variable. -/
def named (className : String) (term : Counted limits Unit) : Counted limits Unit := do
  let place ← lift location
  let name ← lift takeName
  match ← lift (look (·.symbol?)) with
  | some '[' =>
    lift skip
    elementAddress term (← lift (resolve name place))
    lift (emit (.pop .pointer 1))
    lift (emit (.push .that 0))
  | some '(' | some '.' => call className term name
  | _ => lift (do pushVariable (← resolve name place))

/-- A term, given the step for terms one level further down. -/
def operand (className : String) (term : Counted limits Unit) : Counted limits Unit := do
  match ← lift (look (·.lookahead)) with
  | none => lift (failExpecting "term")
  | some token =>
    match token.kind with
    | .integer =>
      match token.integerValue? with
      | some value =>
        lift skip
        lift (emit (.push .constant value))
      | none => lift (failExpecting TokenKind.integer.description)
    | .string =>
      let contents := unquote token.text.toList
      if contents.length ≤ maxInteger then
        lift skip
        narrow contents.length
        lift (stringConstant contents)
      else lift (failExpecting "shorter string constant")
    | .keyword word => lift (keywordConstant word)
    | .symbol '(' =>
      lift skip
      expression term
      lift (skipSymbol ')')
    | .symbol '-' =>
      lift skip
      term
      lift (emit (.operate .neg))
    | .symbol '~' =>
      lift skip
      term
      lift (emit (.operate .not))
    | .identifier => named className term
    | .symbol _ => lift (failExpecting "term")

/-- A constant, a variable, an array element, a call, an expression in parentheses, or a sign in
front of a term. -/
def term (className : String) : Nat → Counted limits Unit
  | 0 => halt .endless
  | levels + 1 => do
    enter
    operand className (term className levels)
    leave

/-! ### Statements -/

/-- Compiles `let` name (`[` expression `]`)? `=` expression `;`. -/
def letStatement (term : Counted limits Unit) : Counted limits Unit := do
  lift (skipKeyword .«let»)
  let place ← lift location
  let name ← lift takeName
  let target ← lift (resolve name place)
  if ← lift (acceptSymbol '[') then
    elementAddress term target
    lift (skipSymbol '=')
    expression term
    lift (skipSymbol ';')
    lift (emit (.pop .temp 0))
    lift (emit (.pop .pointer 1))
    lift (emit (.push .temp 0))
    lift (emit (.pop .that 0))
  else
    lift (skipSymbol '=')
    expression term
    lift (skipSymbol ';')
    lift (popVariable target)

/-- Compiles `(` expression `)`. -/
def condition (term : Counted limits Unit) : Counted limits Unit := do
  lift (skipSymbol '(')
  expression term
  lift (skipSymbol ')')

/-- Compiles `{` statements `}`. -/
def block (statements : Counted limits Unit) : Counted limits Unit := do
  lift (skipSymbol openingBrace)
  statements
  lift (skipSymbol closingBrace)

/-- Compiles `if` `(` expression `)` `{` statements `}` (`else` `{` statements `}`)?. -/
def ifStatement (term statements : Counted limits Unit) : Counted limits Unit := do
  lift (skipKeyword .«if»)
  condition term
  let number ← lift freshLabel
  lift (Codegen.jumpUnless (ifFalseLabel number))
  block statements
  if ← lift (acceptKeyword .«else») then
    lift (emit (.goto (ifEndLabel number)))
    lift (emit (.label (ifFalseLabel number)))
    block statements
    lift (emit (.label (ifEndLabel number)))
  else lift (emit (.label (ifFalseLabel number)))

/-- Compiles `while` `(` expression `)` `{` statements `}`. -/
def whileStatement (term statements : Counted limits Unit) : Counted limits Unit := do
  let number ← lift freshLabel
  lift (skipKeyword .«while»)
  lift (emit (.label (whileStartLabel number)))
  condition term
  lift (Codegen.jumpUnless (whileEndLabel number))
  block statements
  lift (emit (.goto (whileStartLabel number)))
  lift (emit (.label (whileEndLabel number)))

/-- Compiles `do` subroutineCall `;`. -/
def doStatement (className : String) (term : Counted limits Unit) : Counted limits Unit := do
  lift (skipKeyword .«do»)
  call className term (← lift takeName)
  lift (skipSymbol ';')
  lift (emit (.pop .temp 0))

/-- Pushes what a subroutine returns. -/
def returnedValue (subroutine : Subroutine) (term : Counted limits Unit) :
    Counted limits Unit := do
  if ← lift (look (·.atSymbol ';')) then
    lift (Codegen.reportMissingValue subroutine)
    lift (emit (.push .constant 0))
  else expression term

/-- Compiles `return` expression? `;`. -/
def returnStatement (subroutine : Subroutine) (term : Counted limits Unit) :
    Counted limits Unit := do
  lift (skipKeyword .«return»)
  returnedValue subroutine term
  lift (skipSymbol ';')
  lift (emit .«return»)

/-- Compiles the statement that comes next, and tells whether there is one. -/
def statement (subroutine : Subroutine) (term statements : Counted limits Unit) :
    Counted limits Bool := do
  match ← lift (look (·.keyword?)) with
  | some .«let» => letStatement term; return true
  | some .«if» => ifStatement term statements; return true
  | some .«while» => whileStatement term statements; return true
  | some .«do» => doStatement subroutine.className term; return true
  | some .«return» => returnStatement subroutine term; return true
  | _ => return false

/-- Compiles any number of statements. -/
def statements (subroutine : Subroutine) : Nat → Counted limits Unit
  | 0 => halt .endless
  | levels + 1 => do
    enter
    repeatWhile <|
      statement subroutine (term subroutine.className levels) (statements subroutine levels)
    leave

/-! ### Classes -/

/-- Runs a step once, and once more behind every comma. -/
def separatedByCommas (item : Codegen Unit) : Counted limits Unit := do
  lift item
  repeatWhile do
    if ← lift (acceptSymbol ',') then
      lift item
      return true
    else return false

/-- Compiles type name (`,` name)* `;`. -/
def variableNames (kind : VariableKind) : Counted limits Unit := do
  let type ← lift Codegen.typeName
  separatedByCommas (Codegen.declareNext type kind)
  lift (skipSymbol ';')

/-- Compiles (`static` | `field`) type name (`,` name)* `;` if it comes next, and tells whether it
does. -/
def classVariables : Counted limits Bool := do
  match ← lift (look (·.keyword?)) with
  | some .static => lift skip; variableNames .static; return true
  | some .field => lift skip; variableNames .field; return true
  | _ => return false

/-- Compiles `var` type name (`,` name)* `;` if it comes next, and tells whether it does. -/
def localVariables : Counted limits Bool := do
  match ← lift (look (·.keyword?)) with
  | some .var => lift skip; variableNames .«local»; return true
  | _ => return false

/-- Compiles ((type name) (`,` type name)*)? up to a closing parenthesis. -/
def parameters : Counted limits Unit := do
  if ← lift (look (·.atSymbol ')')) then return
  else separatedByCommas do Codegen.declareNext (← Codegen.typeName) .argument

/-- Compiles varDec* statements. -/
def subroutineBody (levels : Nat) (kind : SubroutineKind) (subroutine : Subroutine) :
    Counted limits Unit := do
  repeatWhile localVariables
  let locals ← lift (declarations .«local»)
  lift (emit (.function (qualifiedName subroutine.className subroutine.name) locals))
  lift (Codegen.prologue kind)
  statements subroutine levels

/-- Compiles (`void` | type) name `(` parameterList `)` `{` varDec* statements `}`, which follows
the keyword that tells the kind of a subroutine. -/
def subroutineOf (levels : Nat) (className : String) (kind : SubroutineKind) :
    Counted limits Unit := do
  lift Codegen.startSubroutine
  let returnType ← lift Codegen.returnType
  let place ← lift location
  let name ← lift takeName
  lift (report (.subroutineBegun kind (qualifiedName className name)))
  lift (Codegen.declareReceiver kind className place)
  lift (skipSymbol '(')
  parameters
  lift (skipSymbol ')')
  block (subroutineBody levels kind { className, name, returnType })

/-- Compiles a subroutine if it comes next, and tells whether it does. -/
def subroutine (levels : Nat) (className : String) : Counted limits Bool := do
  match ← lift (look (·.keyword?)) with
  | some .constructor => lift skip; subroutineOf levels className .constructor; return true
  | some .function => lift skip; subroutineOf levels className .function; return true
  | some .method => lift skip; subroutineOf levels className .method; return true
  | _ => return false

/-- Compiles `class` name `{` classVarDec* subroutineDec* `}`, behind which the source ends. -/
def classBody (levels : Nat) : Counted limits Unit := do
  let place ← lift location
  lift (report (.sourceBegun place.file))
  lift (skipKeyword .«class»)
  let className ← lift takeName
  lift (skipSymbol openingBrace)
  repeatWhile classVariables
  repeatWhile (subroutine levels className)
  lift (skipSymbol closingBrace)
  lift Codegen.expectEnd

/-- Compiles a class and hands on its code. -/
def classSource (levels : Nat) : Counted limits Unit := do
  classBody levels
  lift Codegen.flush

end Counted

/-- What a pass that counts leaves behind. -/
structure CountedCompilation where
  result : Except Halt Unit
  output : Sink Instruction
  events : Array Event
  /-- The number of terms and blocks that are still open. -/
  depth : Nat

/-- Compiles the class in a source into a sink, with at most the given number of steps for terms and
statements inside one another. -/
def compileCounted (limits : Limits) (levels : Nat) (file source : String)
    (sink : Sink Instruction) : CountedCompilation :=
  match TokenStream.ofLexer (.ofSource file source) with
  | .error fault =>
    { result := .error (.fault (.lexical fault)), output := sink, events := #[], depth := 0 }
  | .ok tokens =>
    let step : Counted limits Unit := Counted.classSource levels
    let (result, tally) := step.run { session := { tokens, output := sink } }
    { result, output := tally.session.output, events := tally.session.events, depth := tally.depth }

end JackCompiler
