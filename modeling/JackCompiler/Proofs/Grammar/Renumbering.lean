import JackCompiler.Proofs.Grammar.Lines
import JackCompiler.Proofs.Grammar.Occurrence

/-!
# Code with other numbers in its labels

The labels of a subroutine are numbered on from those of the subroutines before it. Nothing else in
its code depends on where the numbers begin, so that code with one first number is code with another
one whose labels are renumbered.

## Main definitions

* `renumberLabel`, `Instruction.renumber` — larger numbers in labels and jumps
* `Statement.branches`, `branchings` — the statements that have labels, and how many there are

## Main results

* `Statement.map_renumber_code` — renumbered code of a statement
* `Statement.listLabels_eq_countP` — how many numbers statements use up
* `ClassDeclaration.codeFrom_eq_flatMap` — code of subroutines, made of the code of each on its own
-/

namespace JackCompiler

/-- The label whose number, which stands at its end, is larger. -/
def renumberLabel (offset : Nat) (name : String) : String :=
  String.ofList (name.toList.takeWhile (!·.isDigit)) ++
    toString (Nat.ofDigitChars 10 (name.toList.dropWhile (!·.isDigit)) 0 + offset)

/-- The instruction with a larger number in its label. -/
def Instruction.renumber (offset : Nat) : Instruction → Instruction
  | .label name => .label (renumberLabel offset name)
  | .goto target => .goto (renumberLabel offset target)
  | .ifGoto target => .ifGoto (renumberLabel offset target)
  | line => line

theorem renumberLabel_append {letters : String} (noDigit : letters.toList.any Char.isDigit = false)
    (offset number : Nat) : renumberLabel offset (letters ++ toString number) =
      letters ++ toString (number + offset) := by
  have digits : (toString number).toList = Nat.toDigits 10 number := by simp
  have isDigit : ∀ c ∈ Nat.toDigits 10 number, c.isDigit = true := fun c mem =>
    Nat.isDigit_of_mem_toDigits (by decide) (by decide) mem
  -- The digits begin where the letters end.
  have begins : (Nat.toDigits 10 number).takeWhile (!·.isDigit) = [] ∧
      (Nat.toDigits 10 number).dropWhile (!·.isDigit) = Nat.toDigits 10 number := by
    cases h : Nat.toDigits 10 number with
    | nil => exact ⟨rfl, rfl⟩
    | cons c digits => simp [isDigit c (h ▸ List.mem_cons_self)]
  rw [renumberLabel, String.toList_append, digits,
    List.takeWhile_append_of_pos (by simpa using noDigit),
    List.dropWhile_append_of_pos (by simpa using noDigit), begins.1, begins.2, List.append_nil,
    String.ofList_toList, Nat.ofDigitChars_ten_toDigits]

section Labels

variable (offset number : Nat)

@[simp] theorem renumberLabel_ifFalseLabel :
    renumberLabel offset (ifFalseLabel number) = ifFalseLabel (number + offset) :=
  renumberLabel_append (by decide) offset number

@[simp] theorem renumberLabel_ifEndLabel :
    renumberLabel offset (ifEndLabel number) = ifEndLabel (number + offset) :=
  renumberLabel_append (by decide) offset number

@[simp] theorem renumberLabel_whileStartLabel :
    renumberLabel offset (whileStartLabel number) = whileStartLabel (number + offset) :=
  renumberLabel_append (by decide) offset number

@[simp] theorem renumberLabel_whileEndLabel :
    renumberLabel offset (whileEndLabel number) = whileEndLabel (number + offset) :=
  renumberLabel_append (by decide) offset number

end Labels

namespace Grammar

variable {environment : Environment} {offset : Nat}

/-! ### Code without labels -/

theorem Environment.Calculates.renumber_eq {line : Instruction} (h : environment.Calculates line) :
    line.renumber offset = line := by
  cases h <;> rfl

/-- Nothing changes in code without labels. -/
theorem map_renumber_of_calculates {code : List Instruction}
    (calculates : ∀ line ∈ code, environment.Calculates line) :
    code.map (Instruction.renumber offset) = code := by
  rw [List.map_congr_left fun line mem => (calculates line mem).renumber_eq, List.map_id']

@[simp] theorem Expression.map_renumber_code (e : Expression) :
    (e.code environment).map (Instruction.renumber offset) = e.code environment :=
  map_renumber_of_calculates e.calculates

@[simp] theorem Call.map_renumber_code (target : Call) :
    (target.code environment).map (Instruction.renumber offset) = target.code environment :=
  map_renumber_of_calculates target.calculates

@[simp] theorem Environment.map_renumber_push (name : String) :
    (environment.push name).map (Instruction.renumber offset) = environment.push name :=
  map_renumber_of_calculates (environment.calculates_push name)

@[simp] theorem Environment.map_renumber_pop (name : String) :
    (environment.pop name).map (Instruction.renumber offset) = environment.pop name := by
  cases found : environment.lookup? name <;> simp [pop, found, Instruction.renumber]

@[simp] theorem map_renumber_returnedCode (value : Option Expression) :
    (returnedCode environment value).map (Instruction.renumber offset) =
      returnedCode environment value := by
  cases value with
  | none => rfl
  | some e => exact e.map_renumber_code

theorem map_renumber_prologueCode (kind : SubroutineKind) (fields : Nat) :
    (prologueCode kind fields).map (Instruction.renumber offset) = prologueCode kind fields := by
  cases kind <;> rfl

/-! ### Code of statements -/

mutual

/-- The code of a statement with a larger first number. -/
theorem Statement.map_renumber_code : ∀ (statement : Statement) (number : Nat),
    (statement.code environment number).map (Instruction.renumber offset) =
      statement.code environment (number + offset)
  | .assign target value, number => by simp [Statement.code]
  | .assignElement array index value, number => by simp [Statement.code, Instruction.renumber]
  | .ifThen condition body, number => by
    simp [Statement.code, Instruction.renumber, Statement.map_renumber_listCode body,
      Nat.add_right_comm]
  | .ifElse condition body otherwise, number => by
    simp [Statement.code, Instruction.renumber, Statement.map_renumber_listCode body,
      Statement.map_renumber_listCode otherwise, Nat.add_right_comm]
  | .loop condition body, number => by
    simp [Statement.code, Instruction.renumber, Statement.map_renumber_listCode body,
      Nat.add_right_comm]
  | .discard target, number => by simp [Statement.code, Instruction.renumber]
  | .giveBack value, number => by simp [Statement.code, Instruction.renumber]

theorem Statement.map_renumber_listCode : ∀ (body : List Statement) (number : Nat),
    (Statement.listCode environment number body).map (Instruction.renumber offset) =
      Statement.listCode environment (number + offset) body
  | [], _ => rfl
  | statement :: body, number => by
    rw [Statement.listCode, Statement.listCode, List.map_append, statement.map_renumber_code,
      Statement.map_renumber_listCode body, Nat.add_right_comm]

end

/-- A statement has labels of its own if it is an `if` or a `while`. -/
def Statement.branches : Statement → Bool
  | .ifThen .. | .ifElse .. | .loop .. => true
  | _ => false

mutual

/-- A statement uses up one number for each `if` and each `while` in it. -/
theorem Statement.labels_eq_countP : ∀ statement : Statement,
    statement.labels = statement.substatements.countP Statement.branches
  | .assign .. | .assignElement .. | .discard _ | .giveBack _ => rfl
  | .ifThen condition body => by
    simp [Statement.labels, Statement.branches, List.countP_cons,
      Statement.listLabels_eq_countP body]
  | .ifElse condition body otherwise => by
    simp [Statement.labels, Statement.branches, List.countP_cons,
      Statement.listLabels_eq_countP body, Statement.listLabels_eq_countP otherwise]
  | .loop condition body => by
    simp [Statement.labels, Statement.branches, List.countP_cons,
      Statement.listLabels_eq_countP body]

theorem Statement.listLabels_eq_countP : ∀ body : List Statement,
    Statement.listLabels body = (Statement.listSubstatements body).countP Statement.branches
  | [] => rfl
  | statement :: body => by
    rw [Statement.listLabels, Statement.listSubstatements, List.countP_append,
      statement.labels_eq_countP, Statement.listLabels_eq_countP body]

end

/-! ### Code of subroutines -/

/-- The number of `if` and `while` statements in some subroutines. -/
def branchings (subroutines : List SubroutineDeclaration) : Nat :=
  (subroutines.flatMap SubroutineDeclaration.statements).countP Statement.branches

@[simp] theorem branchings_nil : branchings [] = 0 := rfl

theorem branchings_cons (d : SubroutineDeclaration) (rest : List SubroutineDeclaration) :
    branchings (d :: rest) = Statement.listLabels d.body + branchings rest := by
  rw [branchings, List.flatMap_cons, List.countP_append, Statement.listLabels_eq_countP]
  rfl

namespace ClassDeclaration

variable (c : ClassDeclaration)

theorem map_renumber_subroutineCode (number : Nat) (d : SubroutineDeclaration) :
    (c.subroutineCode number d).map (Instruction.renumber offset) =
      c.subroutineCode (number + offset) d := by
  rw [subroutineCode, subroutineCode, List.map_append, List.map_cons, map_renumber_prologueCode,
    Statement.map_renumber_listCode]
  rfl

/-- The code of some subroutines is the code of each on its own, where the labels of each are
numbered on from those of the ones before it. -/
theorem codeFrom_eq_flatMap {subroutines : List SubroutineDeclaration}
    {piece : Nat → List Instruction}
    (pieces : ∀ i (inRange : i < subroutines.length), piece i = c.subroutineCode 0 subroutines[i])
    (number : Nat) : c.codeFrom number subroutines =
      (List.range subroutines.length).flatMap fun i =>
        (piece i).map (Instruction.renumber (number + branchings (subroutines.take i))) := by
  induction subroutines generalizing number piece with
  | nil => rfl
  | cons d rest ih =>
    have behind (i : Nat) (inRange : i < rest.length) :
        piece (i + 1) = c.subroutineCode 0 rest[i] :=
      pieces (i + 1) (Nat.succ_lt_succ inRange)
    have first : (piece 0).map (Instruction.renumber number) = c.subroutineCode number d := by
      rw [pieces 0 (Nat.succ_pos _), List.getElem_cons_zero, map_renumber_subroutineCode,
        Nat.zero_add]
    rw [codeFrom, ih behind, List.length_cons, List.range_succ_eq_map, List.flatMap_cons,
      List.flatMap_map, ← first]
    simp [branchings_cons, Nat.add_assoc]

end ClassDeclaration

end Grammar

end JackCompiler
