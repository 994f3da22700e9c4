import JackCompiler.Proofs.Machine.Execution
import JackCompiler.Proofs.Machine.ExpressionCode
import JackCompiler.Proofs.Machine.Labels

/-!
# Code of statements, when it runs

Wherever the code of a statement stands in a program without duplicate labels, it does what an
execution of the statement does. The two addresses that the code moves besides, that of the current
array element and the scratch word, are not part of the store.

The proof follows the execution. A `while` that goes round again is at its first line again, so that
the rest of its execution takes over there.

## Main definitions

* `Machine.Completes` — a run ends as an execution does

## Main results

* `Statement.Executes.completes`, `Statement.ExecutesAll.completes` — statements and blocks
-/

namespace JackCompiler

open Grammar Machine

namespace Machine

/-- The machine is in front of a line with a given stack and store. -/
structure State.At (s : State) (line : Nat) (stack : List Word) (store : Store) : Prop where
  line : s.line = line
  stack : s.stack = stack
  frame : s.frame = store.frame
  memory : s.memory = store.memory

/-- The machine gets in front of a line with a given stack and store. -/
def Arrives (program : List Instruction) (routines : Routines) (s : State) (line : Nat)
    (stack : List Word) (store : Store) : Prop :=
  ∃ s', Reaches program routines s s' ∧ s'.At line stack store

/-- A run ends as an execution does: behind the code with the given last line, or in front of a
`return` with the value on the stack. -/
def Completes (program : List Instruction) (routines : Routines) (s : State) (line : Nat)
    (stack : List Word) : Outcome → Store → Prop
  | .finished, store => Arrives program routines s line stack store
  | .returned value, store => ∃ last, program[last]? = some .«return» ∧
      Arrives program routines s last (value :: stack) store

variable {program code : List Instruction} {routines : Routines} {environment : Environment}
  {s middle : State} {line last : Nat} {stack : List Word} {store after : Store}
  {outcome : Outcome} {memory : Memory} {x : Word}

theorem Completes.of_reaches (h : Reaches program routines s middle)
    (h' : Completes program routines middle line stack outcome after) :
    Completes program routines s line stack outcome after := by
  cases outcome with
  | finished =>
    obtain ⟨s', reaches, arrived⟩ := h'
    exact ⟨s', h.trans reaches, arrived⟩
  | returned value =>
    obtain ⟨last, stands, s', reaches, arrived⟩ := h'
    exact ⟨last, stands, s', h.trans reaches, arrived⟩

theorem Arrives.trans {below : List Word} (h : Arrives program routines s line stack store)
    (rest : ∀ s' : State, s'.At line stack store →
      Arrives program routines s' last below after) :
    Arrives program routines s last below after := by
  obtain ⟨s', reaches, arrived⟩ := h
  obtain ⟨s'', reaches', arrived'⟩ := rest s' arrived
  exact ⟨s'', reaches.trans reaches', arrived'⟩

/-- A run goes on from where it has arrived. -/
theorem Arrives.andThen {below : List Word} (h : Arrives program routines s line stack store)
    (rest : ∀ s' : State, s'.At line stack store →
      Completes program routines s' last below outcome after) :
    Completes program routines s last below outcome after := by
  obtain ⟨s', reaches, arrived⟩ := h
  exact (rest s' arrived).of_reaches reaches

/-- A run that has not returned goes on behind the code. -/
theorem Completes.passOn {target : Nat} (h : Completes program routines s line stack outcome after)
    (rest : ∀ s' : State, s'.At line stack after →
      Arrives program routines s' target stack after) :
    Completes program routines s target stack outcome after := by
  cases outcome with
  | finished => exact Arrives.trans h rest
  | returned value => exact h

/-! ### Jumps -/

/-- A label that stands only once is where the jumps to it go. -/
theorem target?_of_codeAt (unique : (labelNames program).Nodup) {name : String}
    (stands : CodeAt program line (.label name :: code)) : target? program name = some line := by
  obtain ⟨before, behind, rfl, rfl⟩ := stands
  have absent : .label name ∉ before := by
    intro mem
    have twice : name ∈ labelNames before := List.mem_filterMap.mpr ⟨_, mem, rfl⟩
    rw [List.append_assoc, labelNames_append] at unique
    exact (List.nodup_append.mp unique).2.2 name twice name
      (by simp [labelNames_cons, Instruction.label?]) rfl
  rw [target?, List.append_assoc, List.idxOf?_eq_some_iff]
  refine ⟨by simp, by simp, fun j below same => absent ?_⟩
  rw [← same, List.getElem_append_left below]
  exact List.getElem_mem below

/-! ### Single lines -/

theorem State.At.label {name : String} (here : s.At line stack store)
    (stands : CodeAt program line (.label name :: code)) :
    Arrives program routines s (line + 1) stack store := by
  rw [← here.line] at stands ⊢
  exact ⟨s.next s.stack, reaches_of_execute stands.head rfl, rfl, here.stack, here.frame,
    here.memory⟩

theorem State.At.goto {name : String} {target : Nat} (here : s.At line stack store)
    (stands : CodeAt program line (.goto name :: code))
    (goes : target? program name = some target) :
    Arrives program routines s target stack store := by
  rw [← here.line] at stands
  exact ⟨{ s with line := target }, reaches_of_execute stands.head (by simp [execute, goes]), rfl,
    here.stack, here.frame, here.memory⟩

/-! ### Values -/

/-- Code that leaves a value on the stack leads behind itself. -/
theorem State.At.pushes {s' : State} (here : s.At line stack store)
    (h : Pushes program routines s code [x] s') (final : s'.memory = memory) :
    Arrives program routines s (line + code.length) (x :: stack) { store with memory } :=
  ⟨s', h.reaches, by rw [h.line, here.line], by rw [h.stack, here.stack]; rfl,
    h.frame.trans here.frame, final⟩

/-- The value of an expression in the store. -/
theorem State.At.expression {e : Expression} (here : s.At line stack store)
    (legal : e.Legal environment) (stands : CodeAt program line (e.code environment))
    (value : e.evalIn routines environment store = (x, memory)) :
    Arrives program routines s (line + (e.code environment).length) (x :: stack)
      { store with memory } := by
  rw [← here.line] at stands
  rw [Expression.evalIn, ← here.frame, ← here.memory] at value
  obtain ⟨s', pushes, final⟩ := e.pushes legal stands
  rw [value] at pushes final
  exact here.pushes pushes final

/-- What a call answers in the store. -/
theorem State.At.call {target : Call} (here : s.At line stack store)
    (legal : target.Legal environment) (stands : CodeAt program line (target.code environment))
    (value : target.eval routines environment store.frame store.memory = (x, memory)) :
    Arrives program routines s (line + (target.code environment).length) (x :: stack)
      { store with memory } := by
  rw [← here.line] at stands
  rw [← here.frame, ← here.memory] at value
  obtain ⟨s', pushes, final⟩ := target.pushes legal stands
  rw [value] at pushes final
  exact here.pushes pushes final

/-- The address of an array element. The array is read in front of the index. -/
theorem State.At.elementAddress {array : String} {v : Variable} {index : Expression} {offset : Word}
    (here : s.At line stack store) (found : environment.lookup? array = some v)
    (legal : index.Legal environment)
    (stands : CodeAt program line
      (environment.push array ++ index.code environment ++ [.operate .add]))
    (value : index.evalIn routines environment store = (offset, memory)) :
    Arrives program routines s
      (line + (environment.push array ++ index.code environment ++
        [Instruction.operate .add]).length)
      ((v.value store.frame store.memory + offset) :: stack) { store with memory } := by
  -- The base is pushed before the index is evaluated, so a call in the index cannot move it.
  rw [← here.line] at stands
  rw [Expression.evalIn, ← here.frame, ← here.memory] at value
  obtain ⟨s₁, base, same⟩ := Environment.pushes routines (by rw [found]; rfl) stands.left.left
  obtain ⟨s₂, pushed, moved⟩ := index.pushes legal
    (base.codeAt stands.left)
  rw [base.frame, same, value] at pushed moved
  obtain ⟨s₃, added, kept⟩ := (base.trans pushed).binary rfl stands
  have read : environment.value s.frame s.memory array = v.value store.frame store.memory := by
    rw [Environment.value, found, here.frame, here.memory]
    rfl
  rw [read] at added
  exact here.pushes added (kept.trans moved)

/-! ### Conditions -/

/-- In front of the jump, the negation of a condition is on top of the stack. -/
private theorem State.At.negated {condition : Expression} {name : String}
    (here : s.At line stack store) (legal : condition.Legal environment)
    (stands : CodeAt program line
      (condition.code environment ++ [.operate .not, .ifGoto name]))
    (value : condition.evalIn routines environment store = (x, memory)) :
    ∃ s', Reaches program routines s s' ∧
      s'.At (line + (condition.code environment).length + 1) (~~~x :: stack)
        { store with memory } ∧
      program[s'.line]? = some (.ifGoto name) := by
  -- The jump is kept as a fact about the line, because whether it is taken is not known yet.
  obtain ⟨s', reaches, there⟩ := here.expression legal stands.left value
  have operates := stands.right
  rw [← there.line] at operates
  refine ⟨s'.next (~~~x :: stack), reaches.trans (reaches_of_execute operates.head ?_),
    ⟨congrArg (· + 1) there.line, rfl, there.frame, there.memory⟩, operates.tail.head⟩
  simp [execute, operate?, binary?, unary?, there.stack]

/-- The jump is not taken if the condition holds. -/
theorem State.At.holds {condition : Expression} {name : String} (here : s.At line stack store)
    (legal : condition.Legal environment)
    (stands : CodeAt program line
      (condition.code environment ++ [.operate .not, .ifGoto name]))
    (value : condition.evalIn routines environment store = (allOnes, memory)) :
    Arrives program routines s
      (line + (condition.code environment ++ [Instruction.operate .not, .ifGoto name]).length) stack
      { store with memory } := by
  obtain ⟨s', reaches, there, jump⟩ := here.negated legal stands value
  refine ⟨s'.next stack, reaches.trans (reaches_of_execute jump ?_), ?_, rfl, there.frame,
    there.memory⟩
  · simp [execute, there.stack, allOnes]
  · simp [State.next, there.line, Nat.add_assoc]

/-- The jump is taken if the condition does not hold. -/
theorem State.At.fails {condition : Expression} {name : String} {target : Nat}
    (here : s.At line stack store) (legal : condition.Legal environment)
    (stands : CodeAt program line
      (condition.code environment ++ [.operate .not, .ifGoto name]))
    (value : condition.evalIn routines environment store = (x, memory)) (not : x ≠ allOnes)
    (goes : target? program name = some target) :
    Arrives program routines s target stack { store with memory } := by
  obtain ⟨s', reaches, there, jump⟩ := here.negated legal stands value
  -- Only a word with all bits set has zero as its negation.
  have nonzero : ~~~x ≠ 0#16 := by
    intro zero
    apply not
    rw [← BitVec.not_not (b := x), zero]
    rfl
  refine ⟨{ s' with line := target, stack }, reaches.trans (reaches_of_execute jump ?_), rfl, rfl,
    there.frame, there.memory⟩
  simp [execute, there.stack, nonzero, goes]

/-- The jump leads behind a label if the condition does not hold. -/
theorem State.At.skips (unique : (labelNames program).Nodup) {condition : Expression}
    {name : String} (here : s.At line stack store) (legal : condition.Legal environment)
    (stands : CodeAt program line
      (condition.code environment ++ [.operate .not, .ifGoto name]))
    (value : condition.evalIn routines environment store = (x, memory)) (not : x ≠ allOnes)
    (lands : CodeAt program last (.label name :: code)) :
    Arrives program routines s (last + 1) stack { store with memory } :=
  (here.fails legal stands value not (target?_of_codeAt unique lands)).trans
    fun _ there => there.label lands

/-! ### Assignments -/

/-- A value on top of the stack is stored in a variable. -/
theorem State.At.assign {v : Variable} (here : s.At line (x :: stack) store)
    (stands : CodeAt program line [.pop v.segment v.index]) :
    Arrives program routines s (line + 1) stack (v.assign x store) := by
  obtain ⟨s', written, there⟩ : ∃ s', (s.next stack).write? x v.segment v.index = some s' ∧
      s'.At (line + 1) stack (v.assign x store) := by
    -- Each kind has its own segment, and the write is the same on both sides.
    obtain ⟨type, kind, index⟩ := v
    obtain ⟨frame, memory⟩ := store
    obtain ⟨atLine, -, atFrame, atMemory⟩ := here
    subst atFrame atMemory
    cases kind <;> exact ⟨_, rfl, by simp [State.next, atLine], rfl, rfl, rfl⟩
  rw [← here.line] at stands
  exact ⟨s', reaches_of_execute stands.head (by simp [execute, here.stack, written]), there⟩

/-- A value on top of the stack is stored at the address below it. It waits in the scratch word
while the address of the current array element is set. -/
theorem State.At.storeElement {address : Word} (here : s.At line (x :: address :: stack) store)
    (stands : CodeAt program line
      [.pop .temp 0, .pop .pointer 1, .push .temp 0, .pop .that 0]) :
    Arrives program routines s (line + 4) stack
      { store with memory := store.memory.store address x } := by
  -- The four states behind the lines, which differ from the first one in what the lines move.
  let kept : State := { s.next (address :: stack) with temp := x }
  let moved : State := { kept.next stack with that := address }
  let fetched : State := moved.next (x :: stack)
  let stored : State := { fetched.next stack with memory := s.memory.store address x }
  rw [← here.line] at stands ⊢
  have keeps : Reaches program routines s kept :=
    reaches_of_execute stands.head (by simp [execute, here.stack, State.write?, kept, State.next])
  have moves : Reaches program routines kept moved :=
    reaches_of_execute (s := kept) stands.tail.head
      (by simp [execute, State.write?, kept, moved, State.next])
  have fetches : Reaches program routines moved fetched :=
    reaches_of_execute (s := moved) stands.tail.tail.head
      (by simp [execute, State.read?, kept, moved, fetched, State.next])
  have stores : Reaches program routines fetched stored :=
    reaches_of_execute (s := fetched) stands.tail.tail.tail.head
      (by simp [execute, State.write?, kept, moved, fetched, stored, State.next])
  refine ⟨stored, ((keeps.trans moves).trans fetches).trans stores, rfl, rfl, here.frame, ?_⟩
  rw [← here.memory]

/-- A value on top of the stack is dropped. -/
theorem State.At.drop (here : s.At line (x :: stack) store)
    (stands : CodeAt program line [.pop .temp 0]) :
    Arrives program routines s (line + 1) stack store := by
  rw [← here.line] at stands ⊢
  exact ⟨{ s.next stack with temp := x },
    reaches_of_execute stands.head (by simp [execute, here.stack, State.write?, State.next]), rfl,
    rfl, here.frame, here.memory⟩

end Machine

/-! ### Statements -/

namespace Grammar

open Machine

variable {program : List Instruction} {routines : Routines} {environment : Environment}
  {store middle after : Store} {outcome : Outcome} {condition : Expression}
  {body : List Statement} {memory : Memory} {x : Word} {s : State} {line number : Nat}
  {stack : List Word}

/-- The body of a `while` is entered if the condition holds. -/
private theorem entersLoop (legal : condition.Legal environment) (here : s.At line stack store)
    (stands : CodeAt program line (.label (whileStartLabel number) :: condition.code environment ++
      [.operate .not, .ifGoto (whileEndLabel number)]))
    (value : condition.evalIn routines environment store = (allOnes, memory)) :
    Arrives program routines s (line + (Instruction.label (whileStartLabel number) ::
      condition.code environment ++
      [Instruction.operate .not, .ifGoto (whileEndLabel number)]).length) stack
      { store with memory } := by
  obtain ⟨s₁, starts, there⟩ := here.label stands
  obtain ⟨s₂, holds, behind⟩ := there.holds legal stands.tail value
  rw [Nat.add_assoc, Nat.add_comm 1] at behind
  exact ⟨s₂, starts.trans holds, behind⟩

mutual

/-- The code of a statement does what an execution of the statement does. -/
theorem Statement.Executes.completes (unique : (labelNames program).Nodup) {statement : Statement}
    {store after : Store} {outcome : Outcome} {s : State} {line number : Nat} {stack : List Word} :
    statement.Executes routines environment store outcome after →
    statement.Legal environment →
    CodeAt program line (statement.code environment number) → s.At line stack store →
    Completes program routines s (line + (statement.code environment number).length) stack
      outcome after
  | .assign found value, legal, stands, here => by
    rw [Statement.legal_assign] at legal
    rw [Statement.code, Environment.pop_of_lookup? found] at stands ⊢
    refine (here.expression legal.2 stands.left value).andThen fun s' there => ?_
    rw [List.length_append, ← Nat.add_assoc]
    exact there.assign stands.right
  | .assignElement found offset value, legal, stands, here => by
    rw [Statement.legal_assignElement] at legal
    rw [Statement.code] at stands ⊢
    refine (here.elementAddress found legal.2.1 stands.left.left offset).andThen fun s₁ first => ?_
    refine (first.expression legal.2.2 stands.left.right value).andThen fun s₂ second => ?_
    rw [Nat.add_assoc, ← List.length_append] at second
    rw [List.length_append, ← Nat.add_assoc]
    exact second.storeElement stands.right
  | .ifThen value inner, legal, stands, here => by
    rw [Statement.legal_ifThen] at legal
    rw [Statement.code] at stands ⊢
    refine (here.holds legal.1 stands.left.left value).andThen fun s₁ entered => ?_
    refine (inner.completes unique legal.2 stands.left.right entered).passOn fun s₂ ended => ?_
    rw [Nat.add_assoc, ← List.length_append] at ended
    rw [List.length_append, ← Nat.add_assoc]
    exact ended.label stands.right
  | .ifThenSkipped value not, legal, stands, here => by
    rw [Statement.legal_ifThen] at legal
    rw [Statement.code] at stands ⊢
    rw [List.length_append, ← Nat.add_assoc]
    exact here.skips unique legal.1 stands.left.left value not stands.right
  -- The first block ends in front of a jump over the second one.
  | .ifElse value inner, legal, stands, here => by
    rw [Statement.legal_ifElse] at legal
    rw [Statement.code] at stands ⊢
    have front := stands.left.left
    refine (here.holds legal.1 front.left.left value).andThen fun s₁ entered => ?_
    refine (inner.completes unique legal.2.1 front.left.right entered).passOn fun s₂ ended => ?_
    rw [Nat.add_assoc, ← List.length_append] at ended
    refine (ended.goto front.right (target?_of_codeAt unique stands.right)).trans
      fun s₃ there => ?_
    rw [List.length_append, ← Nat.add_assoc]
    exact there.label stands.right
  | .ifElseOtherwise value not inner, legal, stands, here => by
    rw [Statement.legal_ifElse] at legal
    rw [Statement.code] at stands ⊢
    have front := stands.left.left
    refine (here.skips unique legal.1 front.left.left value not front.right.tail).andThen
      fun s₁ entered => ?_
    have first := stands.left.right
    rw [List.length_append, ← Nat.add_assoc] at first
    refine (inner.completes unique legal.2.2 first entered).passOn fun s₂ ended => ?_
    rw [Nat.add_assoc line, ← List.length_append, Nat.add_assoc, ← List.length_append] at ended
    rw [List.length_append, ← Nat.add_assoc]
    exact ended.label stands.right
  | .loopEnds value not, legal, stands, here => by
    rw [Statement.legal_loop] at legal
    refine Arrives.trans (here.label stands.left.left) fun s₁ started => ?_
    rw [Statement.code, List.length_append, ← Nat.add_assoc]
    exact started.skips unique legal.1 stands.left.left.tail value not stands.right.tail
  | .loopReturns value inner, legal, stands, here => by
    rw [Statement.legal_loop] at legal
    refine (entersLoop legal.1 here stands.left.left value).andThen fun s' there => ?_
    exact inner.completes unique legal.2 stands.left.right there
  -- After a round the machine is at the first line again, where the rest of the execution starts.
  | .loopAgain value inner again, legal, stands, here => by
    have lawful := Statement.legal_loop.mp legal
    refine (entersLoop lawful.1 here stands.left.left value).andThen fun s₁ entered => ?_
    refine Arrives.andThen (inner.completes unique lawful.2 stands.left.right entered)
      fun s₂ ended => ?_
    have start : CodeAt program line (.label (whileStartLabel number) :: _) := stands.left.left.left
    rw [Nat.add_assoc, ← List.length_append] at ended
    refine (ended.goto stands.right (target?_of_codeAt unique start)).andThen fun s₃ there => ?_
    exact again.completes unique legal stands there
  | .discard value, legal, stands, here => by
    rw [Statement.legal_discard] at legal
    rw [Statement.code] at stands ⊢
    refine (here.call legal stands.left value).andThen fun s' there => ?_
    rw [List.length_append, ← Nat.add_assoc]
    exact there.drop stands.right
  -- The `return` itself is not executed: the run ends in front of it, with the value on top.
  | .giveBackNothing, legal, stands, here => by
    have ends := stands.right.head
    rw [← here.line] at stands
    obtain ⟨s', pushed, same⟩ := Pushes.push routines stands.left rfl
    exact ⟨_, ends, here.pushes pushed (same.trans here.memory)⟩
  | .giveBack value, legal, stands, here => by
    rw [Statement.legal_giveBack] at legal
    exact ⟨_, stands.right.head, here.expression (legal _ rfl) stands.left value⟩

/-- The code of a block does what an execution of the block does. -/
theorem Statement.ExecutesAll.completes (unique : (labelNames program).Nodup)
    {body : List Statement} {store after : Store} {outcome : Outcome} {s : State}
    {line number : Nat} {stack : List Word} :
    Statement.ExecutesAll routines environment body store outcome after →
    Statement.BlockLegal environment body →
    CodeAt program line (Statement.listCode environment number body) → s.At line stack store →
    Completes program routines s (line + (Statement.listCode environment number body).length) stack
      outcome after
  | .nil _, _, _, here => ⟨s, .refl, here⟩
  | .cons first rest, legal, stands, here => by
    rw [Statement.blockLegal_iff, List.forall_mem_cons, ← Statement.blockLegal_iff] at legal
    refine Arrives.andThen (first.completes unique legal.1 stands.left here) fun s' there => ?_
    rw [Statement.listCode, List.length_append, ← Nat.add_assoc]
    exact rest.completes unique legal.2 stands.right there
  | .returns first, legal, stands, here => by
    rw [Statement.blockLegal_iff, List.forall_mem_cons] at legal
    exact first.completes unique legal.1 stands.left here

end

end Grammar

end JackCompiler
