import JackCompiler.Proofs.Grammar.Jumps
import JackCompiler.Proofs.Machine.StatementCode
import JackCompiler.Proofs.Vm.Depth

/-!
# The height of the stack along runs

The depth of the stack is counted along the text of the code. If the code is balanced and jumps to
its own labels only, then the count is right for every run: whichever way the machine has come to a
line, it has put as many values on the stack as the lines in front of that line say. The values that
were there before are never touched.

## Main definitions

* `InBlock` — the machine stands in a block, with as many values of its own as the text says

## Main results

* `stack_of_execute` — what one line does to the stack
* `InBlock.step`, `inBlock_of_reaches` — one step inside a block, and any number of steps
-/

namespace JackCompiler.Machine

variable {program above code below : List Instruction} {routines : Routines} {s s' : State}
  {line : Instruction} {own base : List Word}

/-- Storing a word neither moves the machine nor touches the stack. -/
theorem of_write? {value : Word} {segment : Segment} {index : Nat}
    (h : s.write? value segment index = some s') : s'.line = s.line ∧ s'.stack = s.stack := by
  unfold State.write? at h
  split at h <;> cases h <;> exact ⟨rfl, rfl⟩

/-- An operation that finds its operands replaces them by one value. -/
theorem exists_of_operate? {operation : Operation} {stack : List Word}
    (h : operate? operation (own ++ base) = some stack)
    (enough : operation.operands ≤ own.length) :
    ∃ own', stack = own' ++ base ∧ own'.length + operation.operands = own.length + 1 := by
  cases operation with
  | neg | not =>
    obtain _ | ⟨x, own⟩ := own
    · simp [Operation.operands] at enough
    · obtain rfl := Option.some.inj h
      exact ⟨_ :: own, rfl, rfl⟩
  | add | sub | eq | gt | lt | and | or =>
    obtain _ | ⟨y, _ | ⟨x, own⟩⟩ := own
    · simp [Operation.operands] at enough
    · simp [Operation.operands] at enough
    · obtain rfl := Option.some.inj h
      exact ⟨_ :: own, rfl, rfl⟩

/-- A line that finds the values that it takes leaves those below them alone. -/
theorem stack_of_execute (h : execute program routines s line = some s')
    (stack : s.stack = own ++ base) (enough : line.takes ≤ own.length) :
    ∃ own', s'.stack = own' ++ base ∧ (own'.length : Int) = own.length + line.change := by
  cases line with
  | push segment index =>
    obtain ⟨value, -, rfl⟩ := Option.map_eq_some_iff.mp h
    refine ⟨value :: own, by simp [State.next, stack], ?_⟩
    simp [Instruction.change]
  | pop segment index =>
    obtain _ | ⟨value, own⟩ := own
    · simp [Instruction.takes] at enough
    · rw [execute, stack] at h
      refine ⟨own, (of_write? h).2, ?_⟩
      rw [Instruction.change, List.length_cons]
      omega
  | operate operation =>
    obtain ⟨after, operated, rfl⟩ := Option.map_eq_some_iff.mp h
    rw [stack] at operated
    obtain ⟨own', rfl, count⟩ := exists_of_operate? operated enough
    refine ⟨own', rfl, ?_⟩
    rw [Instruction.change]
    omega
  | label name | function name locals =>
    obtain rfl := Option.some.inj h
    exact ⟨own, stack, (Int.add_zero _).symm⟩
  | goto name =>
    obtain ⟨target, -, rfl⟩ := Option.map_eq_some_iff.mp h
    exact ⟨own, stack, (Int.add_zero _).symm⟩
  | ifGoto name =>
    obtain _ | ⟨value, own⟩ := own
    · simp [Instruction.takes] at enough
    · have popped : s'.stack = own ++ base := by
        rw [execute, stack, List.cons_append] at h
        dsimp only at h
        split at h
        · obtain rfl := Option.some.inj h
          rfl
        · obtain ⟨target, -, rfl⟩ := Option.map_eq_some_iff.mp h
          rfl
      refine ⟨own, popped, ?_⟩
      rw [Instruction.change, List.length_cons]
      omega
  | call name count =>
    rw [Instruction.takes] at enough
    rw [execute, stack, if_pos (by simp; omega)] at h
    obtain rfl := Option.some.inj h
    refine ⟨(routines name ((own ++ base).take count).reverse s.memory).1 :: own.drop count,
      ?_, ?_⟩
    · simp only [State.next, List.drop_append_of_le_length enough]
      rfl
    · simp only [List.length_cons, List.length_drop, Instruction.change]
      omega
  | «return» => cases h

/-- A line is followed by the next one or jumps to a label. -/
theorem line_of_execute (h : execute program routines s line = some s') :
    s'.line = s.line + 1 ∨ ∃ name ∈ line.target?, target? program name = some s'.line := by
  cases line with
  | push | operate =>
    obtain ⟨_, -, rfl⟩ := Option.map_eq_some_iff.mp h
    exact .inl rfl
  | pop =>
    rw [execute] at h
    split at h
    · exact .inl (of_write? h).1
    · cases h
  | label | function =>
    obtain rfl := Option.some.inj h
    exact .inl rfl
  | goto name =>
    obtain ⟨target, found, rfl⟩ := Option.map_eq_some_iff.mp h
    exact .inr ⟨name, rfl, found⟩
  | ifGoto name =>
    rw [execute] at h
    split at h
    · split at h
      · obtain rfl := Option.some.inj h
        exact .inl rfl
      · obtain ⟨target, found, rfl⟩ := Option.map_eq_some_iff.mp h
        exact .inr ⟨name, rfl, found⟩
    · cases h
  | call =>
    rw [execute] at h
    split at h
    · obtain rfl := Option.some.inj h
      exact .inl rfl
    · cases h
  | «return» => cases h

theorem exists_label {name : String} (h : name ∈ labelNames code) :
    ∃ before behind, code = before ++ .label name :: behind := by
  obtain ⟨line, mem, isLabel⟩ := List.mem_filterMap.mp h
  cases line with
  | label =>
    obtain rfl := Option.some.inj isLabel
    exact List.append_of_mem mem
  | _ => cases isLabel

/-- A jump leaves an empty stack. -/
theorem depth_of_target? {before behind : List Instruction} {name : String}
    (balanced : Balanced (before ++ line :: behind)) (isTarget : line.target? = some name) :
    depth (before ++ [line]) = 0 := by
  cases line with
  | goto name' =>
    rw [depth_append, balanced.goto before name' behind rfl]
    rfl
  | ifGoto name' => exact balanced.ifGoto before name' behind rfl
  | _ => cases isTarget

/-- The machine stands in a block of a program. On top of the values that were there before, the
stack holds as many as the lines in front say. -/
def InBlock (above code : List Instruction) (base : List Word) (s : State) : Prop :=
  ∃ before behind own, code = before ++ behind ∧ s.line = above.length + before.length ∧
    s.stack = own ++ base ∧ (own.length : Int) = depth before

/-- A step from a line of a block leads to a line of the block, or to its end. -/
theorem InBlock.step (balanced : Balanced code)
    (resolved : ∀ line ∈ code, ∀ name ∈ line.target?, name ∈ labelNames code)
    (unique : (labelNames (above ++ code ++ below)).Nodup) (here : InBlock above code base s)
    (inside : s.line ≠ above.length + code.length)
    (steps : step (above ++ code ++ below) routines s = some s') : InBlock above code base s' := by
  obtain ⟨before, behind, own, rfl, atLine, stack, count⟩ := here
  cases behind with
  | nil => simp [atLine] at inside
  | cons line behind =>
    have stands : (above ++ (before ++ line :: behind) ++ below)[s.line]? = some line := by
      rw [atLine]
      simp
    rw [step, stands, Option.bind_some] at steps
    have enough := balanced.enough before line behind rfl
    obtain ⟨own', stack', count'⟩ := stack_of_execute steps stack (by omega)
    have left : (own'.length : Int) = depth (before ++ [line]) := by
      rw [depth_append, depth_cons, depth_nil, count', count]
      omega
    obtain next | ⟨name, isTarget, target⟩ := line_of_execute steps
    · refine ⟨before ++ [line], behind, own', by simp, ?_, stack', left⟩
      simp only [List.length_append, List.length_singleton]
      omega
    · -- A jump leaves an empty stack, and the text says the same of the label.
      obtain ⟨front, rest, parts⟩ := exists_label (resolved line (by simp) name isTarget)
      have stands : CodeAt (above ++ (before ++ line :: behind) ++ below)
          (above.length + front.length) (.label name :: rest) :=
        ⟨above ++ front, below, by simp [parts], by simp⟩
      rw [target?_of_codeAt unique stands] at target
      refine ⟨front, .label name :: rest, own', parts, (Option.some.inj target).symm, stack', ?_⟩
      rw [left, depth_of_target? balanced isTarget, balanced.label front name rest parts]

/-- Until it leaves a block at the end, the machine stands in the block. -/
theorem inBlock_of_reaches (balanced : Balanced code)
    (resolved : ∀ line ∈ code, ∀ name ∈ line.target?, name ∈ labelNames code)
    (unique : (labelNames (above ++ code ++ below)).Nodup) (here : InBlock above code base s)
    (reaches : Reaches (above ++ code ++ below) routines s s') :
    InBlock above code base s' ∨ ∃ middle, Reaches (above ++ code ++ below) routines s middle ∧
      middle.line = above.length + code.length ∧ middle.stack = base ∧
        Reaches (above ++ code ++ below) routines middle s' := by
  induction reaches with
  | refl => exact .inl here
  | @tail b c reaches steps ih =>
    obtain inBlock | ⟨middle, toMiddle, atEnd, stack, fromMiddle⟩ := ih
    · by_cases atEnd : b.line = above.length + code.length
      · obtain ⟨before, behind, own, rfl, atLine, stack, count⟩ := inBlock
        obtain rfl : behind = [] := by
          rw [atLine, List.length_append] at atEnd
          exact List.length_eq_zero_iff.mp (by omega)
        have ends := balanced.ends
        rw [List.append_nil, ← count] at ends
        obtain rfl : own = [] := List.length_eq_zero_iff.mp (by omega)
        exact .inr ⟨b, reaches, atEnd, by simpa using stack, .single steps⟩
      · exact .inl (inBlock.step balanced resolved unique atEnd steps)
    · exact .inr ⟨middle, toMiddle, atEnd, stack, fromMiddle.tail steps⟩

end JackCompiler.Machine
