import JackCompiler.Proofs.Grammar.Lines

/-!
# The words of memory that code uses

The code of a subroutine stays within the segments of the machine: a frame has as many local words
as the header says and as many arguments as callers pass, a class has as many static words and an
object as many words as the class declares. Each declaration counts, also if its name is declared
before.

## Main definitions

* `ClassDeclaration.room?` — the number of words in a segment
* `ClassDeclaration.Fits` — a line that stays within the segments
* `ClassDeclaration.WithinSegments` — code of a subroutine that does

## Main results

* `ClassDeclaration.lt_room?` — a variable has its place in the segment of its kind
* `ClassDeclaration.withinSegments_block` — the code of a subroutine
-/

namespace JackCompiler

/-- The segment and the index of what an instruction reads or writes. -/
def Instruction.address? : Instruction → Option (Segment × Nat)
  | .push segment index | .pop segment index => some (segment, index)
  | _ => none

namespace Grammar

theorem SubroutineDeclaration.length_arguments (d : SubroutineDeclaration) (className : String) :
    (d.arguments className).length = d.parameters.length + if d.kind = .method then 1 else 0 := by
  rw [arguments]
  split <;> simp

namespace ClassDeclaration

/-- The number of words in a segment while a subroutine runs whose header states a number of local
variables. Constants are not kept in memory. -/
def room? (c : ClassDeclaration) (d : SubroutineDeclaration) (locals : Nat) :
    Segment → Option Nat
  | .constant => none
  | .argument => some (d.parameters.length + if d.kind = .method then 1 else 0)
  | .«local» => some locals
  | .static => some (countOf .static c.declarations)
  | .this => some (countOf .field c.declarations)
  | .that => some 1
  | .pointer => some 2
  | .temp => some 1

/-- What a line reads or writes lies within its segment. -/
def Fits (c : ClassDeclaration) (d : SubroutineDeclaration) (locals : Nat) (line : Instruction) :
    Prop :=
  ∀ segment index, line.address? = some (segment, index) →
    ∀ room, c.room? d locals segment = some room → index < room

/-- The code of a subroutine stays within the segments, and a constructor begins with an object that
has room for the fields. -/
structure WithinSegments (c : ClassDeclaration) (d : SubroutineDeclaration) (block : Block) :
    Prop where
  fits : ∀ line ∈ block.lines, c.Fits d block.locals line
  allocates : d.kind = .constructor →
    [.push .constant (countOf .field c.declarations), .allocate] <+: block.lines

variable {c : ClassDeclaration} {d : SubroutineDeclaration} {locals : Nat} {segment : Segment}
  {index : Nat} {line : Instruction}

@[simp] theorem fits_push : c.Fits d locals (.push segment index) ↔
    ∀ room, c.room? d locals segment = some room → index < room := by
  simp [Fits, Instruction.address?]

@[simp] theorem fits_pop : c.Fits d locals (.pop segment index) ↔
    ∀ room, c.room? d locals segment = some room → index < room := by
  simp [Fits, Instruction.address?]

theorem fits_of_address? (none : line.address? = none) : c.Fits d locals line := by
  simp [Fits, none]

theorem index_lt_of_lookup? {name : String} {v : Variable}
    (found : (c.environment d).lookup? name = some v) :
    v.index < countOf v.kind (d.declarations c.name) + countOf v.kind c.declarations := by
  obtain inSubroutine | ⟨-, inClass⟩ := Option.or_eq_some_iff.mp found
  · have := index_lt_of_latest? inSubroutine
    rw [countOf_reverse] at this
    omega
  · have := index_lt_of_latest? inClass
    rw [countOf_reverse] at this
    omega

/-- A variable has its place in the segment of its kind. -/
theorem lt_room? {name : String} {v : Variable}
    (found : (c.environment d).lookup? name = some v) :
    ∀ room, c.room? d d.localVariables.length v.segment = some room → v.index < room := by
  have below := index_lt_of_lookup? found
  -- Only the class or only the subroutine declares variables of a kind.
  rw [SubroutineDeclaration.countOf_declarations] at below
  cases kind : v.kind with
  | static | field => simpa [room?, Variable.segment, VariableKind.segment, kind] using below
  | argument | «local» =>
    rw [kind, countOf_declarations rfl] at below
    simpa [room?, Variable.segment, VariableKind.segment, kind,
      SubroutineDeclaration.length_arguments] using below

/-- The lines of statements stay within the segments. -/
theorem fits_of_emits (emitted : (c.environment d).Emits line) :
    c.Fits d d.localVariables.length line := by
  cases emitted with
  | calculates calculated =>
    cases calculated with
    | «variable» found => exact fits_push.mpr (lt_room? found)
    | constant | object | locate | element => simp [room?]
    | operate | call => exact fits_of_address? rfl
  | assign found => exact fits_pop.mpr (lt_room? found)
  | assignElement | keep | restore => simp [room?]
  | label | goto | ifGoto | «return» => exact fits_of_address? rfl

/-- What a subroutine does before its first statement stays within the segments. The receiver of a
method is there as its first argument. -/
theorem fits_of_mem_prologueCode (mem : line ∈ prologueCode d.kind c.fields) :
    c.Fits d locals line := by
  cases kind : d.kind with
  | constructor =>
    simp only [kind, prologueCode, List.mem_cons, List.not_mem_nil, or_false] at mem
    obtain rfl | rfl | rfl := mem
    · simp [room?]
    · exact fits_of_address? rfl
    · simp [room?]
  | method =>
    simp only [kind, prologueCode, List.mem_cons, List.not_mem_nil, or_false] at mem
    obtain rfl | rfl := mem <;> simp [room?, kind]
  | function => simp [kind, prologueCode] at mem

/-- The code of a subroutine stays within the segments. -/
theorem withinSegments_block (c : ClassDeclaration) (d : SubroutineDeclaration) (number : Nat) :
    c.WithinSegments d (c.block number d) where
  fits line mem := by
    obtain mem | mem := List.mem_append.mp mem
    · exact fits_of_mem_prologueCode mem
    · exact fits_of_emits (Statement.listEmits d.body number line mem)
  allocates kind := ⟨_, by rw [block, kind]; rfl⟩

end ClassDeclaration

end Grammar

end JackCompiler
