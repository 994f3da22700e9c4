import JackCompiler.Proofs.Compilation.Reference
import JackCompiler.Proofs.Machine.SubroutineCode

/-!
# Code means what the source means

What the compiler writes for an expression leaves its value on the stack of the machine, and what it
writes for the statements of a subroutine does what an execution of them does. Calls are arbitrary
functions of the callee, the arguments and the memory.

## Main definitions

* `Machine.Leaves` — code that computes a value, wherever it stands
* `ClassDeclaration.Faithful` — the lines of a subroutine do what its statements say

## Main results

* `Codegen.expression_leaves_value` — expressions, with any variables in sight
* `compileText_faithful` — subroutines of a source that compiles
-/

namespace JackCompiler

open Grammar Codegen Machine

/-! ### Expressions -/

/-- Wherever the code stands and whatever state the machine is in, running it from its first to its
last line leaves one value on the stack. The stack below, the frame and the scratch word are
kept. The value and the memory behind it are functions of the frame and the memory. -/
def Machine.Leaves (code : List Instruction)
    (value : Routines → Frame → Memory → Word × Memory) : Prop :=
  ∀ (program : List Instruction) (routines : Routines) (m : State), CodeAt program m.line code →
    ∃ that, Reaches program routines m { m with
      line := m.line + code.length
      stack := (value routines m.frame m.memory).1 :: m.stack
      memory := (value routines m.frame m.memory).2
      that }

theorem Grammar.Expression.leaves {e : Expression} {environment : Environment}
    (legal : e.Legal environment) : Leaves (e.code environment)
      fun routines frame memory => e.eval routines environment frame memory := by
  intro program routines m stands
  obtain ⟨⟨line, stack, frame, memory, that, temp⟩, pushes, final⟩ := e.pushes legal stands
  -- Everything but the address of the current array element is settled.
  obtain ⟨reaches, rfl, rfl, rfl, rfl⟩ := pushes
  obtain rfl : memory = _ := final
  exact ⟨that, reaches⟩

/-- The tokens of an expression can be read in only one way. -/
theorem Grammar.Expression.terminals_injective {e e' : Expression}
    (same : e'.terminals = e.terminals) : e' = e :=
  (e'.recognizable e [] [] ends_none ends_none (by rw [same])).1

/-- **Expression code preserves meaning.** If the step for an expression succeeds, then it has taken
the tokens of exactly one tree, and the code that it has written leaves the value of that tree. -/
theorem Codegen.expression_leaves_value {className : String} {levels : Nat} {s s' : Session}
    (accepted : Runs (expression (term className levels)) s () s') :
    ∃ e : Expression, s.tokens.Reads e.terminals s'.tokens ∧
      (∀ e' : Expression, e'.terminals = e.terminals → e' = e) ∧
      ∃ code, s'.output = s.output.extend Instruction.text code ∧
        Leaves code fun routines frame memory =>
          e.eval routines (s.environment className) frame memory := by
  obtain ⟨e, -, legal, advances⟩ := expression_derives
    (term_derives (s.environment className) levels) rfl accepted
  exact ⟨e, advances.tokens, fun e' same => e.terminals_injective same,
    e.code (s.environment className), advances.output, e.leaves legal⟩

/-- A session in front of an expression, with one variable in sight. -/
def beforeDifference : Session where
  tokens := (TokenStream.ofLexer (.ofSource "Main.jack" "n - n[1] - 1;")).toOption.getD default
  output := {}
  visible := {
    subroutineScope := Scope.empty.insert "n" { type := "Array", kind := .argument, index := 0 } }

theorem expression_leaves_difference : ∃ s' : Session,
    Runs (expression (term "Main" 2)) beforeDifference () s' ∧
    ∃ e : Expression, beforeDifference.tokens.Reads e.terminals s'.tokens ∧
      (∀ e' : Expression, e'.terminals = e.terminals → e' = e) ∧
      ∃ code, s'.output = beforeDifference.output.extend Instruction.text code ∧
        Leaves code fun routines frame memory =>
          e.eval routines (beforeDifference.environment "Main") frame memory := by
  have accepts : ((expression (term "Main" 2)).run.run beforeDifference).1.isOk = true := by
    decide +kernel
  obtain ⟨s', accepted⟩ := runs_of_isOk accepts
  exact ⟨s', accepted, expression_leaves_value accepted⟩

/-! ### Subroutines -/

/-- The lines of a subroutine behind some others do what the subroutine says. From the header, the
machine gets to the first statement, and from there it does what an execution of the statements
does, if there is one. -/
structure Grammar.ClassDeclaration.Faithful (c : ClassDeclaration)
    (earlier : List SubroutineDeclaration) (d : SubroutineDeclaration) : Prop where
  enters : ∀ (routines : Routines) (m : State), m.line = c.headerLine earlier →
    Arrives c.code routines m (c.bodyLine earlier d) m.stack (c.entered d routines m.store)
  completes : ∀ (routines : Routines) (m : State), m.line = c.bodyLine earlier d →
    ∀ (outcome : Outcome) (after : Store),
      Statement.ExecutesAll routines (c.environment d) d.body m.store outcome after →
      Completes c.code routines m (c.headerLine (earlier ++ [d])) m.stack outcome after

/-- **Statement code preserves meaning.** A source that compiles is the source of exactly one class,
and its text is code of that class which does what each of its subroutines says. -/
theorem compileText_faithful {file source text : String}
    (compiles : (compileText file source).1 = .ok text) :
    ∃ c : ClassDeclaration,
      (∀ c' : ClassDeclaration, c'.terminals = sourceTerminals file source ↔ c' = c) ∧
      text = codeText c.code ∧
      ∀ (earlier : List SubroutineDeclaration) (d : SubroutineDeclaration)
        (later : List SubroutineDeclaration), c.subroutines = earlier ++ d :: later →
        c.Faithful earlier d := by
  obtain ⟨done, rfl⟩ := compileText_eq_ok_iff.mp compiles
  obtain ⟨-, c, lawful, only, output⟩ := exists_tree_of_compiles done
  refine ⟨c, only, ?_, fun earlier d later found => ⟨fun routines m atHeader => ?_,
    fun routines m atBody outcome after executes => ?_⟩⟩
  · rw [output, text_extend]
    exact String.empty_append
  · exact c.arrives_entered found ⟨atHeader, rfl, rfl, rfl⟩
  · exact c.completes_body found (lawful.subroutines d (by simp [found])).body executes
      ⟨atBody, rfl, rfl, rfl⟩

theorem compileText_faithful_summing : ∃ text, (compileText "Main.jack" summing).1 = .ok text ∧
    ∃ c : ClassDeclaration,
      (∀ c' : ClassDeclaration,
        c'.terminals = sourceTerminals "Main.jack" summing ↔ c' = c) ∧
      text = codeText c.code ∧
      ∀ (earlier : List SubroutineDeclaration) (d : SubroutineDeclaration)
        (later : List SubroutineDeclaration), c.subroutines = earlier ++ d :: later →
        c.Faithful earlier d := by
  obtain ⟨text, compiles⟩ := compileText_summing
  exact ⟨text, compiles, compileText_faithful compiles⟩

end JackCompiler
