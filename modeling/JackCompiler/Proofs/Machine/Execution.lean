import JackCompiler.Proofs.Machine.Evaluation

/-!
# Executions of statements

Statements are executed on their trees. An execution either reaches the end of its statements or
returns a value in front of it. Executions that do not end are not described.

## Main definitions

* `Machine.Store` — what statements change
* `Statement.Executes`, `Statement.ExecutesAll` — executions of a statement and of a block

## Main results

* `Statement.Executes.unique`, `Statement.ExecutesAll.unique` — there is at most one execution
-/

namespace JackCompiler

namespace Machine

/-- What statements change: the frame of their subroutine, and the memory. -/
structure Store where
  frame : Frame
  memory : Memory

/-- The frame and the memory of a machine. -/
def State.store (s : State) : Store where
  frame := s.frame
  memory := s.memory

/-- How an execution of statements ends. -/
inductive Outcome where
  /-- All of them have been executed. -/
  | finished
  /-- One of them has returned a value. -/
  | returned (value : Word)

end Machine

open Machine

/-- The store with another word for a variable. A field is a word of the current object. -/
def Variable.assign (v : Variable) (value : Word) (store : Store) : Store :=
  match v.kind with
  | .static =>
    { store with memory.statics := Function.update store.memory.statics v.index value }
  | .field =>
    { store with
      memory := store.memory.store (store.frame.this + BitVec.ofNat 16 v.index) value }
  | .argument =>
    { store with frame.arguments := Function.update store.frame.arguments v.index value }
  | .«local» => { store with frame.locals := Function.update store.frame.locals v.index value }

namespace Grammar

variable (routines : Routines) (environment : Environment)

/-- The value of an expression in a store, and the memory behind its evaluation. -/
def Expression.evalIn (e : Expression) (store : Store) : Word × Memory :=
  e.eval routines environment store.frame store.memory

mutual

/-- An execution of a statement. A condition holds if its value has all bits set. -/
inductive Statement.Executes : Statement → Store → Outcome → Store → Prop where
  | assign {target : String} {v : Variable} {value : Expression} {store : Store} {x : Word}
    {memory : Memory} :
    environment.lookup? target = some v →
    value.evalIn routines environment store = (x, memory) →
    Executes (.assign target value) store .finished (v.assign x { store with memory })
  | assignElement {array : String} {v : Variable} {index value : Expression} {store : Store}
    {offset x : Word} {memory after : Memory} :
    environment.lookup? array = some v →
    index.evalIn routines environment store = (offset, memory) →
    value.evalIn routines environment { store with memory } = (x, after) →
    Executes (.assignElement array index value) store .finished
      { store with memory := after.store (v.value store.frame store.memory + offset) x }
  | ifThen {condition : Expression} {body : List Statement} {store after : Store}
    {memory : Memory} {outcome : Outcome} :
    condition.evalIn routines environment store = (allOnes, memory) →
    ExecutesAll body { store with memory } outcome after →
    Executes (.ifThen condition body) store outcome after
  | ifThenSkipped {condition : Expression} {body : List Statement} {store : Store} {x : Word}
    {memory : Memory} :
    condition.evalIn routines environment store = (x, memory) → x ≠ allOnes →
    Executes (.ifThen condition body) store .finished { store with memory }
  | ifElse {condition : Expression} {body otherwise : List Statement} {store after : Store}
    {memory : Memory} {outcome : Outcome} :
    condition.evalIn routines environment store = (allOnes, memory) →
    ExecutesAll body { store with memory } outcome after →
    Executes (.ifElse condition body otherwise) store outcome after
  | ifElseOtherwise {condition : Expression} {body otherwise : List Statement}
    {store after : Store} {x : Word} {memory : Memory} {outcome : Outcome} :
    condition.evalIn routines environment store = (x, memory) → x ≠ allOnes →
    ExecutesAll otherwise { store with memory } outcome after →
    Executes (.ifElse condition body otherwise) store outcome after
  | loopEnds {condition : Expression} {body : List Statement} {store : Store} {x : Word}
    {memory : Memory} :
    condition.evalIn routines environment store = (x, memory) → x ≠ allOnes →
    Executes (.loop condition body) store .finished { store with memory }
  | loopReturns {condition : Expression} {body : List Statement} {store after : Store}
    {memory : Memory} {value : Word} :
    condition.evalIn routines environment store = (allOnes, memory) →
    ExecutesAll body { store with memory } (.returned value) after →
    Executes (.loop condition body) store (.returned value) after
  | loopAgain {condition : Expression} {body : List Statement} {store middle after : Store}
    {memory : Memory} {outcome : Outcome} :
    condition.evalIn routines environment store = (allOnes, memory) →
    ExecutesAll body { store with memory } .finished middle →
    Executes (.loop condition body) middle outcome after →
    Executes (.loop condition body) store outcome after
  | discard {target : Call} {store : Store} {x : Word} {memory : Memory} :
    target.eval routines environment store.frame store.memory = (x, memory) →
    Executes (.discard target) store .finished { store with memory }
  | giveBackNothing {store : Store} :
    Executes (.giveBack none) store (.returned 0) store
  | giveBack {value : Expression} {store : Store} {x : Word} {memory : Memory} :
    value.evalIn routines environment store = (x, memory) →
    Executes (.giveBack (some value)) store (.returned x) { store with memory }

/-- An execution of a block, statement by statement. -/
inductive Statement.ExecutesAll : List Statement → Store → Outcome → Store → Prop where
  | nil (store : Store) : ExecutesAll [] store .finished store
  | cons {statement : Statement} {rest : List Statement} {store middle after : Store}
    {outcome : Outcome} :
    Executes statement store .finished middle →
    ExecutesAll rest middle outcome after →
    ExecutesAll (statement :: rest) store outcome after
  | returns {statement : Statement} {rest : List Statement} {store after : Store}
    {value : Word} :
    Executes statement store (.returned value) after →
    ExecutesAll (statement :: rest) store (.returned value) after

end

variable {routines environment}

mutual

/-- A statement is executed in at most one way. -/
theorem Statement.Executes.unique {statement : Statement} {store after after' : Store}
    {outcome outcome' : Outcome} :
    statement.Executes routines environment store outcome after →
    statement.Executes routines environment store outcome' after' →
    outcome = outcome' ∧ after = after'
  | .assign found value, h => by
    cases h with
    | assign found' value' =>
      cases found.symm.trans found'
      cases value.symm.trans value'
      exact ⟨rfl, rfl⟩
  | .assignElement found offset value, h => by
    cases h with
    | assignElement found' offset' value' =>
      cases found.symm.trans found'
      cases offset.symm.trans offset'
      cases value.symm.trans value'
      exact ⟨rfl, rfl⟩
  | .ifThen value inner, h => by
    cases h with
    | ifThen value' inner' =>
      cases value.symm.trans value'
      exact inner.unique inner'
    | ifThenSkipped value' not =>
      cases value.symm.trans value'
      exact absurd rfl not
  | .ifThenSkipped value not, h => by
    cases h with
    | ifThen value' inner' =>
      cases value.symm.trans value'
      exact absurd rfl not
    | ifThenSkipped value' not =>
      cases value.symm.trans value'
      exact ⟨rfl, rfl⟩
  | .ifElse value inner, h => by
    cases h with
    | ifElse value' inner' =>
      cases value.symm.trans value'
      exact inner.unique inner'
    | ifElseOtherwise value' not =>
      cases value.symm.trans value'
      exact absurd rfl not
  | .ifElseOtherwise value not inner, h => by
    cases h with
    | ifElse value' inner' =>
      cases value.symm.trans value'
      exact absurd rfl not
    | ifElseOtherwise value' not inner' =>
      cases value.symm.trans value'
      exact inner.unique inner'
  | .loopEnds value not, h => by
    cases h with
    | loopEnds value' not' =>
      cases value.symm.trans value'
      exact ⟨rfl, rfl⟩
    | loopReturns value' _ =>
      cases value.symm.trans value'
      exact absurd rfl not
    | loopAgain value' _ _ =>
      cases value.symm.trans value'
      exact absurd rfl not
  -- The body either returns or finishes, and not both, since it is executed in one way only.
  | .loopReturns value inner, h => by
    cases h with
    | loopEnds value' not =>
      cases value.symm.trans value'
      exact absurd rfl not
    | loopReturns value' inner' =>
      cases value.symm.trans value'
      exact inner.unique inner'
    | loopAgain value' inner' _ =>
      cases value.symm.trans value'
      cases (inner.unique inner').1
  | .loopAgain value inner again, h => by
    cases h with
    | loopEnds value' not =>
      cases value.symm.trans value'
      exact absurd rfl not
    | loopReturns value' inner' =>
      cases value.symm.trans value'
      cases (inner.unique inner').1
    | loopAgain value' inner' again' =>
      cases value.symm.trans value'
      cases (inner.unique inner').2
      exact again.unique again'
  | .discard value, h => by
    cases h with
    | discard value' =>
      cases value.symm.trans value'
      exact ⟨rfl, rfl⟩
  | .giveBackNothing, h => by
    cases h with
    | giveBackNothing => exact ⟨rfl, rfl⟩
  | .giveBack value, h => by
    cases h with
    | giveBack value' =>
      cases value.symm.trans value'
      exact ⟨rfl, rfl⟩

/-- A block is executed in at most one way. -/
theorem Statement.ExecutesAll.unique {body : List Statement} {store after after' : Store}
    {outcome outcome' : Outcome} :
    Statement.ExecutesAll routines environment body store outcome after →
    Statement.ExecutesAll routines environment body store outcome' after' →
    outcome = outcome' ∧ after = after'
  | .nil _, h => by
    cases h with
    | nil => exact ⟨rfl, rfl⟩
  | .cons first rest, h => by
    cases h with
    | cons first' rest' =>
      cases (first.unique first').2
      exact rest.unique rest'
    | returns first' => cases (first.unique first').1
  | .returns first, h => by
    cases h with
    | cons first' rest' => cases (first.unique first').1
    | returns first' => exact first.unique first'

end

end Grammar

end JackCompiler
