import JackCompiler.Vm.Instruction
import Mathlib.Logic.Function.Basic
import Mathlib.Logic.Relation

/-!
# The stack machine

The machine runs the lines of one class. It keeps an operand stack, the frame of the running
subroutine, and a memory that all subroutines share. A call is not followed into the code of the
callee: it is an arbitrary function of the name of the callee, the arguments and the memory, and
answers one value and a new memory. The frame of the caller is not its business.

## Main definitions

* `Word`, `Memory`, `Frame`, `State` — what the machine works on
* `Machine.step` — one line
* `Machine.Reaches` — any number of lines
* `CodeAt` — where code stands in a program
* `Machine.Pushes` — code leaves values on the stack and changes nothing below

## Main results

* `Machine.Pushes.trans`, `Machine.Pushes.call` and their companions — code that leaves values on
  the stack
-/

namespace JackCompiler

/-- A number of sixteen bits, which stands for a two's complement number or an address. -/
abbrev Word := BitVec 16

namespace Machine

/-- The memory that all subroutines share. -/
structure Memory where
  heap : Word → Word
  statics : Nat → Word

/-- The memory with one word of the heap replaced. -/
def Memory.store (memory : Memory) (address value : Word) : Memory :=
  { memory with heap := Function.update memory.heap address value }

/-- What belongs to one run of a subroutine: its variables, and the current object. -/
structure Frame where
  arguments : Nat → Word
  locals : Nat → Word
  /-- The address of the current object, `pointer 0`. -/
  this : Word

/-- What calls do, by the name of the callee. -/
abbrev Routines := String → List Word → Memory → Word × Memory

/-- The state of the machine. -/
structure State where
  /-- The number of lines in front of the one that comes next. -/
  line : Nat
  /-- The operand stack, from its top. -/
  stack : List Word
  frame : Frame
  memory : Memory
  /-- The address of the current array element, `pointer 1`. -/
  that : Word
  /-- The scratch word `temp 0`. -/
  temp : Word

/-- The word that is `true`. -/
def allOnes : Word := BitVec.allOnes 16

/-- The word that stands for a truth value. -/
def truth (holds : Bool) : Word :=
  if holds then allOnes else 0

/-- The value of an operation on two words, of which the second was on top of the stack. -/
def binary? : Operation → Option (Word → Word → Word)
  | .add => some fun x y => x + y
  | .sub => some fun x y => x - y
  | .eq => some fun x y => truth (x == y)
  | .gt => some fun x y => truth (y.slt x)
  | .lt => some fun x y => truth (x.slt y)
  | .and => some fun x y => x &&& y
  | .or => some fun x y => x ||| y
  | .neg | .not => none

/-- The value of an operation on one word. -/
def unary? : Operation → Option (Word → Word)
  | .neg => some fun x => -x
  | .not => some fun x => ~~~x
  | _ => none

/-- The stack after an operation on its top. -/
def operate? (operation : Operation) (stack : List Word) : Option (List Word) :=
  match binary? operation, unary? operation, stack with
  | some f, _, y :: x :: below => some (f x y :: below)
  | _, some f, x :: below => some (f x :: below)
  | _, _, _ => none

namespace State

/-- The word at an index of a segment. -/
def read? (s : State) : Segment → Nat → Option Word
  | .constant, n => some (BitVec.ofNat 16 n)
  | .argument, i => some (s.frame.arguments i)
  | .«local», i => some (s.frame.locals i)
  | .static, i => some (s.memory.statics i)
  | .this, i => some (s.memory.heap (s.frame.this + BitVec.ofNat 16 i))
  | .that, i => some (s.memory.heap (s.that + BitVec.ofNat 16 i))
  | .pointer, 0 => some s.frame.this
  | .pointer, 1 => some s.that
  | .temp, 0 => some s.temp
  | _, _ => none

/-- The state with the word at an index of a segment replaced. -/
def write? (s : State) (value : Word) : Segment → Nat → Option State
  | .argument, i =>
    some { s with frame.arguments := Function.update s.frame.arguments i value }
  | .«local», i => some { s with frame.locals := Function.update s.frame.locals i value }
  | .static, i => some { s with memory.statics := Function.update s.memory.statics i value }
  | .this, i =>
    some { s with memory := s.memory.store (s.frame.this + BitVec.ofNat 16 i) value }
  | .that, i => some { s with memory := s.memory.store (s.that + BitVec.ofNat 16 i) value }
  | .pointer, 0 => some { s with frame.this := value }
  | .pointer, 1 => some { s with that := value }
  | .temp, 0 => some { s with temp := value }
  | _, _ => none

/-- The state in front of the line behind, with another stack. -/
def next (s : State) (stack : List Word) : State :=
  { s with line := s.line + 1, stack }

end State

/-- The line of a label. -/
def target? (program : List Instruction) (name : String) : Option Nat :=
  program.idxOf? (.label name)

/-- One instruction of a program. A `return` is where the run of a subroutine ends. -/
def execute (program : List Instruction) (routines : Routines) (s : State) :
    Instruction → Option State
  | .push segment index => (s.read? segment index).map fun value => s.next (value :: s.stack)
  | .pop segment index =>
    match s.stack with
    | value :: below => (s.next below).write? value segment index
    | [] => none
  | .operate operation => (operate? operation s.stack).map s.next
  | .label _ => some (s.next s.stack)
  | .goto name => (target? program name).map fun line => { s with line }
  | .ifGoto name =>
    match s.stack with
    | value :: below =>
      if value = 0 then some (s.next below)
      else (target? program name).map fun line => { s with line, stack := below }
    | [] => none
  | .call name count =>
    if count ≤ s.stack.length then
      let (value, memory) := routines name (s.stack.take count).reverse s.memory
      some { s.next (value :: s.stack.drop count) with memory }
    else none
  | .function _ locals =>
    some { s.next s.stack with
      frame.locals := fun i => if i < locals then 0 else s.frame.locals i }
  | .«return» => none

/-- One line of a program. -/
def step (program : List Instruction) (routines : Routines) (s : State) : Option State :=
  program[s.line]?.bind (execute program routines s)

/-- Any number of lines of a program. -/
def Reaches (program : List Instruction) (routines : Routines) : State → State → Prop :=
  Relation.ReflTransGen fun s s' => step program routines s = some s'

end Machine

/-- Code stands in a program behind the given number of lines. -/
def CodeAt (program : List Instruction) (line : Nat) (code : List Instruction) : Prop :=
  ∃ before behind, program = before ++ code ++ behind ∧ before.length = line

variable {program code more : List Instruction} {instruction : Instruction} {line : Nat}

theorem CodeAt.left (h : CodeAt program line (code ++ more)) : CodeAt program line code := by
  obtain ⟨before, behind, rfl, rfl⟩ := h
  exact ⟨before, more ++ behind, by simp, rfl⟩

theorem CodeAt.right (h : CodeAt program line (code ++ more)) :
    CodeAt program (line + code.length) more := by
  obtain ⟨before, behind, rfl, rfl⟩ := h
  exact ⟨before ++ code, behind, by simp, by simp⟩

theorem CodeAt.head (h : CodeAt program line (instruction :: code)) :
    program[line]? = some instruction := by
  obtain ⟨before, behind, rfl, rfl⟩ := h
  simp

theorem CodeAt.tail (h : CodeAt program line (instruction :: code)) :
    CodeAt program (line + 1) code :=
  (show CodeAt program line ([instruction] ++ code) from h).right

namespace Machine

variable {routines : Routines} {s s' middle : State} {values others : List Word}

theorem reaches_of_execute (stands : program[s.line]? = some instruction)
    (h : execute program routines s instruction = some s') : Reaches program routines s s' :=
  .single (by rw [step, stands, Option.bind_some, h])

/-- From one state to another, code runs that stands at the line of the first. It leaves values on
the stack, the last on top, and keeps the frame and the scratch word. -/
structure Pushes (program : List Instruction) (routines : Routines) (s : State)
    (code : List Instruction) (values : List Word) (s' : State) : Prop where
  reaches : Reaches program routines s s'
  line : s'.line = s.line + code.length
  stack : s'.stack = values.reverse ++ s.stack
  frame : s'.frame = s.frame
  temp : s'.temp = s.temp

namespace Pushes

theorem refl (program : List Instruction) (routines : Routines) (s : State) :
    Pushes program routines s [] [] s :=
  ⟨.refl, rfl, rfl, rfl, rfl⟩

theorem trans (h : Pushes program routines s code values middle)
    (h' : Pushes program routines middle more others s') :
    Pushes program routines s (code ++ more) (values ++ others) s' where
  reaches := h.reaches.trans h'.reaches
  line := by rw [h'.line, h.line, List.length_append, Nat.add_assoc]
  stack := by rw [h'.stack, h.stack, List.reverse_append, List.append_assoc]
  frame := h'.frame.trans h.frame
  temp := h'.temp.trans h.temp

/-- The code behind stands where the code in front has led. -/
theorem codeAt (h : Pushes program routines s code values s')
    (stands : CodeAt program s.line (code ++ more)) : CodeAt program s'.line more := by
  rw [h.line]
  exact stands.right

theorem push (routines : Routines) {segment : Segment} {index : Nat} {value : Word}
    (stands : CodeAt program s.line [.push segment index])
    (read : s.read? segment index = some value) :
    ∃ s', Pushes program routines s [.push segment index] [value] s' ∧ s'.memory = s.memory :=
  ⟨s.next (value :: s.stack), ⟨reaches_of_execute stands.head (by simp [execute, read]), rfl, rfl,
    rfl, rfl⟩, rfl⟩

/-- An operation on the two values on top. -/
theorem binary {operation : Operation} {f : Word → Word → Word} {x y : Word}
    (h : Pushes program routines s code [x, y] middle) (means : binary? operation = some f)
    (stands : CodeAt program s.line (code ++ [.operate operation])) :
    ∃ s', Pushes program routines s (code ++ [.operate operation]) [f x y] s' ∧
      s'.memory = middle.memory := by
  refine ⟨middle.next (f x y :: s.stack), ⟨h.reaches.trans ?_, ?_, rfl, h.frame, h.temp⟩, rfl⟩
  · have stack := h.stack
    refine reaches_of_execute (h.codeAt stands).head ?_
    cases operation <;> simp_all [execute, operate?, binary?, unary?]
  · simp [State.next, h.line, Nat.add_assoc]

/-- An operation on the value on top. -/
theorem unary {operation : Operation} {f : Word → Word} {x : Word}
    (h : Pushes program routines s code [x] middle) (means : unary? operation = some f)
    (stands : CodeAt program s.line (code ++ [.operate operation])) :
    ∃ s', Pushes program routines s (code ++ [.operate operation]) [f x] s' ∧
      s'.memory = middle.memory := by
  refine ⟨middle.next (f x :: s.stack), ⟨h.reaches.trans ?_, ?_, rfl, h.frame, h.temp⟩, rfl⟩
  · have stack := h.stack
    refine reaches_of_execute (h.codeAt stands).head ?_
    cases operation <;> simp_all [execute, operate?, binary?, unary?]
  · simp [State.next, h.line, Nat.add_assoc]

/-- A call takes its arguments and leaves what the callee answers. -/
theorem call {name : String} {arguments : List Word} {count : Nat}
    (h : Pushes program routines s code arguments middle) (all : count = arguments.length)
    (stands : CodeAt program s.line (code ++ [.call name count])) :
    ∃ s', Pushes program routines s (code ++ [.call name count])
        [(routines name arguments middle.memory).1] s' ∧
      s'.memory = (routines name arguments middle.memory).2 := by
  have taken : middle.stack.take count = arguments.reverse := by
    rw [h.stack, all, List.take_left' (by simp)]
  have kept : middle.stack.drop count = s.stack := by
    rw [h.stack, all, List.drop_left' (by simp)]
  have enough : count ≤ middle.stack.length := by simp [h.stack, all]
  refine ⟨{ middle.next ((routines name arguments middle.memory).1 :: s.stack) with
    memory := (routines name arguments middle.memory).2 },
    ⟨h.reaches.trans ?_, ?_, rfl, h.frame, h.temp⟩, rfl⟩
  · refine reaches_of_execute (h.codeAt stands).head ?_
    simp [execute, enough, taken, kept]
  · simp [State.next, h.line, Nat.add_assoc]

/-- The word at an address is loaded through `that`. -/
theorem load {address : Word} (h : Pushes program routines s code [address] middle)
    (stands : CodeAt program s.line (code ++ [.pop .pointer 1, .push .that 0])) :
    ∃ s', Pushes program routines s (code ++ [.pop .pointer 1, .push .that 0])
        [middle.memory.heap address] s' ∧ s'.memory = middle.memory := by
  let moved : State := { middle.next s.stack with that := address }
  have pops := h.codeAt stands
  refine ⟨moved.next (middle.memory.heap address :: s.stack),
    ⟨(h.reaches.trans (?_ : Reaches _ _ _ moved)).trans ?_, ?_, rfl, h.frame, h.temp⟩, rfl⟩
  · refine reaches_of_execute pops.head ?_
    simp [execute, h.stack, State.write?, moved, State.next]
  · refine reaches_of_execute (s := moved) pops.tail.head ?_
    simp [execute, State.read?, moved, State.next]
  · simp [moved, State.next, h.line, Nat.add_assoc]

end Pushes

end Machine

end JackCompiler
