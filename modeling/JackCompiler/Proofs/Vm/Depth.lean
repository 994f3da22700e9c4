import JackCompiler.Proofs.Vm.Block

/-!
# The depth of the stack

What an instruction does to the number of values on the stack can be read off the instruction, and
so the depth of the stack at a line off the lines in front of it. The count follows the text and not
a run: it is right for every run if each jump meets the depth that its target expects.

## Main definitions

* `Instruction.takes`, `Instruction.change` — what an instruction needs, and what it does
* `depth` — the number of values that code leaves
* `Balanced` — no line takes too much, and all jumps meet an empty stack
* `Yields`, `Settles` — code that leaves values on any stack, and code that leaves an empty one

## Main results

* `Settles.balanced` — code that leaves an empty stack is balanced
-/

namespace JackCompiler

/-- The number of values that an operation takes from the stack. -/
def Operation.operands : Operation → Nat
  | .neg | .not => 1
  | .add | .sub | .eq | .gt | .lt | .and | .or => 2

namespace Instruction

/-- The number of values that an instruction takes from the stack. -/
def takes : Instruction → Nat
  | .pop .. | .ifGoto _ | .«return» => 1
  | .operate operation => operation.operands
  | .call _ arguments => arguments
  | .push .. | .label _ | .goto _ | .function .. => 0

/-- By how much an instruction changes the number of values on the stack. An operation or a call
leaves one value in place of those that it takes. -/
def change : Instruction → Int
  | .push .. => 1
  | .pop .. | .ifGoto _ | .«return» => -1
  | .operate operation => 1 - operation.operands
  | .call _ arguments => 1 - arguments
  | .label _ | .goto _ | .function .. => 0

end Instruction

/-- The number of values that code leaves on the stack, less those that it takes from it. -/
def depth : List Instruction → Int
  | [] => 0
  | line :: code => line.change + depth code

@[simp] theorem depth_nil : depth [] = 0 := rfl

@[simp] theorem depth_cons (line : Instruction) (code : List Instruction) :
    depth (line :: code) = line.change + depth code := rfl

@[simp] theorem depth_append (code more : List Instruction) :
    depth (code ++ more) = depth code + depth more := by
  induction code with
  | nil => simp
  | cons line code ih => rw [List.cons_append, depth_cons, depth_cons, ih, Int.add_assoc]

/-- Counted from an empty stack in the order of the text, no line takes more values than there are.
All jumps leave an empty stack and lead to one, a `return` has one value, and none is left at the
end. -/
structure Balanced (code : List Instruction) : Prop where
  enough : ∀ before line behind, code = before ++ line :: behind → line.takes ≤ depth before
  label : ∀ before name behind, code = before ++ .label name :: behind → depth before = 0
  goto : ∀ before name behind, code = before ++ .goto name :: behind → depth before = 0
  ifGoto : ∀ before name behind, code = before ++ .ifGoto name :: behind →
    depth (before ++ [.ifGoto name]) = 0
  «return» : ∀ before behind, code = before ++ .«return» :: behind → depth before = 1
  ends : depth code = 0

/-- A line finds the values that it takes, and a line of control finds no others. -/
def FindsValues : LineCondition := fun before line _ =>
  line.takes ≤ depth before ∧
    match line with
    | .label _ | .goto _ => depth before = 0
    | .ifGoto _ | .«return» => depth before = 1
    | _ => True

/-- Wherever the code stands, it leaves the given number of values on top of the stack and takes
none from below. -/
structure Yields (code : List Instruction) (count : Nat) : Prop where
  depth : depth code = count
  finds : ∀ above below, 0 ≤ JackCompiler.depth above → EachLine FindsValues above code below

/-- If the stack is empty in front of the code, then it is empty behind it, too. -/
structure Settles (code : List Instruction) : Prop where
  depth : depth code = 0
  finds : ∀ above below, JackCompiler.depth above = 0 → EachLine FindsValues above code below

variable {code more : List Instruction} {m n : Nat} {segment : Segment} {index : Nat}
  {name : String}

namespace Yields

theorem nil : Yields [] 0 :=
  ⟨rfl, fun _ _ _ => eachLine_nil⟩

theorem append (h : Yields code m) (h' : Yields more n) : Yields (code ++ more) (m + n) where
  depth := by simp [h.depth, h'.depth]
  finds above below enough := eachLine_append.mpr ⟨h.finds _ _ enough, h'.finds _ _ (by
    rw [depth_append, h.depth]
    omega)⟩

/-- A line of computation replaces the values that it takes by one. -/
theorem snoc {line : Instruction} (h : Yields code line.takes)
    (change : line.change = 1 - (line.takes : Int))
    (computes : ∀ before, line.takes ≤ JackCompiler.depth before → ∀ behind,
      FindsValues before line behind) : Yields (code ++ [line]) 1 where
  depth := by
    rw [depth_append, depth_cons, depth_nil, h.depth, change]
    omega
  finds above below enough := by
    refine eachLine_append.mpr ⟨h.finds _ _ enough, ?_⟩
    simp only [eachLine_cons, eachLine_nil, and_true]
    refine computes _ ?_ _
    rw [depth_append, h.depth]
    omega

theorem push : Yields [.push segment index] 1 :=
  show Yields ([] ++ [.push segment index]) 1 from
    nil.snoc rfl fun _ enough _ => ⟨enough, trivial⟩

theorem operate (operation : Operation) (h : Yields code operation.operands) :
    Yields (code ++ [.operate operation]) 1 :=
  h.snoc rfl fun _ enough _ => ⟨enough, trivial⟩

theorem call (h : Yields code n) : Yields (code ++ [.call name n]) 1 :=
  h.snoc rfl fun _ enough _ => ⟨enough, trivial⟩

/-- An address on top of the stack is replaced by what is found there. -/
theorem load (h : Yields code 1) : Yields (code ++ [.pop .pointer 1, .push .that 0]) 1 where
  depth := by simp [h.depth, Instruction.change]
  finds above below enough := by
    refine eachLine_append.mpr ⟨h.finds _ _ enough, ?_⟩
    simp only [eachLine_cons, eachLine_nil, and_true, FindsValues, Instruction.takes, depth_append,
      depth_cons, depth_nil, h.depth, Instruction.change]
    omega

/-- Pieces that leave one value each. -/
theorem flatten {pieces : List (List Instruction)} (each : ∀ piece ∈ pieces, Yields piece 1) :
    Yields pieces.flatten pieces.length := by
  induction pieces with
  | nil => exact nil
  | cons piece pieces ih =>
    rw [List.forall_mem_cons] at each
    rw [List.length_cons, Nat.add_comm]
    exact each.1.append (ih each.2)

end Yields

namespace Settles

theorem nil : Settles [] :=
  ⟨rfl, fun _ _ _ => eachLine_nil⟩

theorem append (h : Settles code) (h' : Settles more) : Settles (code ++ more) where
  depth := by simp [h.depth, h'.depth]
  finds above below empty := eachLine_append.mpr ⟨h.finds _ _ empty, h'.finds _ _ (by
    rw [depth_append, h.depth, empty]
    rfl)⟩

/-- Lines that take all values that some code has left. -/
theorem of_yields (h : Yields code n) (change : JackCompiler.depth more = -n)
    (finds : ∀ above below, JackCompiler.depth above = n → EachLine FindsValues above more below) :
    Settles (code ++ more) where
  depth := by
    rw [depth_append, h.depth, change]
    omega
  finds above below empty := eachLine_append.mpr ⟨h.finds _ _ (by omega), finds _ _ (by
    rw [depth_append, h.depth, empty, Int.zero_add])⟩

theorem pop (h : Yields code 1) : Settles (code ++ [.pop segment index]) :=
  of_yields h rfl fun above below one => by simp [FindsValues, Instruction.takes, one]

theorem «return» (h : Yields code 1) : Settles (code ++ [.«return»]) :=
  of_yields h rfl fun above below one => by simp [FindsValues, Instruction.takes, one]

theorem jumpUnless (name : String) (h : Yields code 1) :
    Settles (code ++ [.operate .not, .ifGoto name]) :=
  of_yields h rfl fun above below one => by
    simp [FindsValues, Instruction.takes, Instruction.change, Operation.operands, one]

/-- The value of an array element waits in the scratch word while its address is set. -/
theorem storeElement (h : Yields code 2) :
    Settles (code ++ [.pop .temp 0, .pop .pointer 1, .push .temp 0, .pop .that 0]) :=
  of_yields h rfl fun above below two => by
    simp [FindsValues, Instruction.takes, Instruction.change, two]

theorem label (name : String) : Settles [.label name] :=
  ⟨rfl, fun above below empty => by simp [FindsValues, Instruction.takes, empty]⟩

theorem goto (name : String) : Settles [.goto name] :=
  ⟨rfl, fun above below empty => by simp [FindsValues, Instruction.takes, empty]⟩

/-- Code that leaves an empty stack is balanced. -/
theorem balanced (h : Settles code) : Balanced code := by
  have finds := h.finds [] [] rfl
  exact {
    enough := fun before line behind parts => (finds before line behind parts).1
    label := fun before name behind parts => (finds before _ behind parts).2
    goto := fun before name behind parts => (finds before _ behind parts).2
    ifGoto := fun before name behind parts => by
      have one : JackCompiler.depth before = 1 := (finds before _ behind parts).2
      simp [Instruction.change, one]
    «return» := fun before behind parts => (finds before _ behind parts).2
    ends := h.depth }

end Settles

end JackCompiler
