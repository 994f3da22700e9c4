import JackCompiler.Vm.Instruction

/-!
# Blocks of code and their lines

Code falls apart into blocks, one for each function: a header, and the lines up to the next header.
What is asked of a line may depend on the lines in front of it and behind it. Such conditions are
stated once for code in any surroundings, so that they can be proved piece by piece.

## Main definitions

* `EachLine`, `Everywhere` — a condition on every line of a piece of code, in its surroundings or
  in any
* `Block`, `functionBlocks` — the blocks that code falls apart into

## Main results

* `eachLine_append`, `eachLine_cons` — conditions on the lines of a piece, by its parts
* `functionBlocks_cons` — the first block of code
-/

namespace JackCompiler

/-- What may be asked of a line, given the lines in front of it and those behind it. -/
abbrev LineCondition := List Instruction → Instruction → List Instruction → Prop

/-- A condition holds of every line of a piece of code that stands between others. -/
def EachLine (condition : LineCondition) (above code below : List Instruction) : Prop :=
  ∀ before line behind, code = before ++ line :: behind →
    condition (above ++ before) line (behind ++ below)

section EachLine

variable {condition : LineCondition} {above code more below : List Instruction}
  {line : Instruction}

@[simp] theorem eachLine_nil : EachLine condition above [] below := by
  intro before line behind parts
  simp at parts

@[simp] theorem eachLine_cons : EachLine condition above (line :: code) below ↔
    condition above line (code ++ below) ∧ EachLine condition (above ++ [line]) code below := by
  constructor
  · intro h
    refine ⟨by simpa using h [] line code rfl, fun before next behind parts => ?_⟩
    simpa using h (line :: before) next behind (by simp [parts])
  · rintro ⟨first, others⟩ before next behind parts
    cases before with
    | nil =>
      obtain ⟨rfl, rfl⟩ : line = next ∧ code = behind := by simpa using parts
      simpa using first
    | cons line' before =>
      obtain ⟨rfl, rfl⟩ : line = line' ∧ code = before ++ next :: behind := by simpa using parts
      simpa using others before next behind rfl

@[simp] theorem eachLine_append : EachLine condition above (code ++ more) below ↔
    EachLine condition above code (more ++ below) ∧
      EachLine condition (above ++ code) more below := by
  induction code generalizing above with
  | nil => simp
  | cons line code ih => simp [ih, and_assoc]

/-- A condition holds of every line of a piece of code, wherever the piece stands. -/
def Everywhere (condition : LineCondition) (code : List Instruction) : Prop :=
  ∀ above below, EachLine condition above code below

theorem Everywhere.nil : Everywhere condition [] :=
  fun _ _ => eachLine_nil

theorem Everywhere.append (h : Everywhere condition code) (h' : Everywhere condition more) :
    Everywhere condition (code ++ more) :=
  fun _ _ => eachLine_append.mpr ⟨h _ _, h' _ _⟩

theorem Everywhere.flatten {pieces : List (List Instruction)}
    (each : ∀ piece ∈ pieces, Everywhere condition piece) :
    Everywhere condition pieces.flatten := by
  induction pieces with
  | nil => exact .nil
  | cons piece pieces ih =>
    rw [List.forall_mem_cons] at each
    exact each.1.append (ih each.2)

/-- A condition that does not depend on the surroundings may be checked line by line. -/
theorem everywhere_of_forall_mem
    (h : ∀ line ∈ code, ∀ before behind, condition before line behind) :
    Everywhere condition code :=
  fun _ _ before line behind parts => h line (by simp [parts]) _ _

end EachLine

/-! ### Blocks -/

/-- The code of a function: what its header says, and the lines behind it. -/
structure Block where
  name : String
  locals : Nat
  lines : List Instruction
deriving DecidableEq, Repr, Inhabited

/-- The code of a block. -/
def Block.code (block : Block) : List Instruction :=
  .function block.name block.locals :: block.lines

/-- Whether an instruction is the header of a function. -/
def Instruction.isHeader : Instruction → Bool
  | .function .. => true
  | _ => false

/-- The blocks of code, each from a header up to the next one. -/
def functionBlocks : List Instruction → List Block
  | [] => []
  | .function name locals :: rest =>
    { name, locals, lines := rest.takeWhile (!·.isHeader) } :: functionBlocks rest
  | _ :: rest => functionBlocks rest

variable {code more : List Instruction}

/-- Lines without a header begin no block. -/
theorem functionBlocks_append (noHeader : ∀ line ∈ code, line.isHeader = false) :
    functionBlocks (code ++ more) = functionBlocks more := by
  induction code with
  | nil => rfl
  | cons line code ih =>
    rw [List.forall_mem_cons] at noHeader
    rw [List.cons_append, functionBlocks.eq_3, ih noHeader.2]
    rintro name locals rfl
    exact absurd noHeader.1 (by simp [Instruction.isHeader])

/-- The first block of code ends where the next header stands, or the code ends. -/
theorem functionBlocks_cons {block : Block}
    (noHeader : ∀ line ∈ block.lines, line.isHeader = false)
    (next : ∀ line ∈ more.head?, line.isHeader = true) :
    functionBlocks (block.code ++ more) = block :: functionBlocks more := by
  have lines : (block.lines ++ more).takeWhile (!·.isHeader) = block.lines := by
    rw [List.takeWhile_append_of_pos (by simpa using noHeader)]
    cases more with
    | nil => simp
    | cons line more => simp [next line rfl]
  rw [Block.code, List.cons_append, functionBlocks, lines, functionBlocks_append noHeader]

end JackCompiler
