import JackCompiler.Proofs.Grammar.Lines
import JackCompiler.Proofs.Grammar.Rules
import JackCompiler.Proofs.Machine.Labels
import Mathlib.Data.List.Nodup

/-!
# Where code jumps to

The code of a statement jumps only to its own labels. It jumps forward, out of or past a block, with
one exception: each `while` ends with the jump back to its condition. The number of a `while` tells
its two lines from those of all others.

## Main definitions

* `JumpsInOrder` — a jump leads to a label behind it, or back to the start of a loop
* `MarksLoops` — which loops code goes back to the start of
* `WellLabelled` — what is asked of the labels and jumps of a class
* `Statement.loopNumbers`, `loopsOf` — the `while` statements, by number and by tree

## Main results

* `Statement.jumpsInOrder` — the jumps of a statement
* `Statement.marksLoops` — each loop has one label to go back to, and one jump that does
* `ClassDeclaration.wellLabelled` — the labels and jumps of a class
-/

namespace JackCompiler

/-- The label that an instruction jumps to. -/
def Instruction.target? : Instruction → Option String
  | .goto name | .ifGoto name => some name
  | _ => none

/-- A jump leads to a label behind it, or back to the start of a loop. -/
def JumpsInOrder : LineCondition := fun before line behind =>
  match line with
  | .ifGoto name => name ∈ labelNames behind
  | .goto name => (∃ n, name = ifEndLabel n) ∧ name ∈ labelNames behind ∨
    (∃ n, name = whileStartLabel n) ∧ name ∈ labelNames before
  | _ => True

/-- Labels are unique, jumps stay in their blocks, and only loops jump back: each of a number of
loops exactly once. -/
structure WellLabelled (code : List Instruction) (loops : Nat) : Prop where
  unique : (labelNames code).Nodup
  resolved : ∀ block ∈ functionBlocks code, ∀ line ∈ block.lines, ∀ name ∈ line.target?,
    name ∈ labelNames block.lines
  ifGoto_forward : ∀ before name behind, code = before ++ .ifGoto name :: behind →
    name ∈ labelNames behind
  ifEnd_forward : ∀ before n behind, code = before ++ .goto (ifEndLabel n) :: behind →
    ifEndLabel n ∈ labelNames behind
  backward : ∀ before line behind, code = before ++ line :: behind → ∀ name ∈ line.target?,
    name ∈ labelNames before → ∃ n, line = .goto (whileStartLabel n)
  loop_backward : ∀ before n behind, code = before ++ .goto (whileStartLabel n) :: behind →
    whileStartLabel n ∈ labelNames before
  eachLoop : ∃ numbers : List Nat, numbers.Nodup ∧ numbers.length = loops ∧
    ∀ n, code.count (.goto (whileStartLabel n)) = if n ∈ numbers then 1 else 0

/-- A label and a jump to it, in code whose labels are unique. -/
theorem not_mem_labelNames_of_nodup {before behind : List Instruction} {line : Instruction}
    {name : String} (unique : (labelNames (before ++ line :: behind)).Nodup)
    (inFront : name ∈ labelNames before) : name ∉ labelNames behind := by
  intro after
  rw [labelNames_append, labelNames_cons] at unique
  exact (List.nodup_append.mp unique).2.2 name inFront name
    (List.mem_append_right _ after) rfl

/-- Only loops jump back. -/
theorem JumpsInOrder.mem_labelNames {before behind : List Instruction} {line : Instruction}
    {name : String} (h : JumpsInOrder before line behind) (isTarget : line.target? = some name) :
    name ∈ labelNames behind ∨
      (∃ n, line = .goto (whileStartLabel n)) ∧ name ∈ labelNames before := by
  cases line with
  | goto name' =>
    obtain rfl : name' = name := by simpa [Instruction.target?] using isTarget
    obtain ⟨-, after⟩ | ⟨⟨n, rfl⟩, inFront⟩ := h
    · exact .inl after
    · exact .inr ⟨⟨n, rfl⟩, inFront⟩
  | ifGoto name' =>
    obtain rfl : name' = name := by simpa [Instruction.target?] using isTarget
    exact .inl h
  | _ => simp [Instruction.target?] at isTarget

theorem count_labelNames (code : List Instruction) (name : String) :
    (labelNames code).count name = code.count (.label name) := by
  rw [labelNames, List.count_filterMap, List.count]
  refine List.countP_congr fun line _ => ?_
  cases line <;> simp [Instruction.label?]

@[simp] theorem whileStartLabel_inj {a b : Nat} :
    whileStartLabel a = whileStartLabel b ↔ a = b :=
  ⟨fun same => eq_of_mem_labelsOf (by simp [labelsOf]) (same ▸ by simp [labelsOf] :
    whileStartLabel a ∈ labelsOf b), congrArg _⟩

/-- The four purposes have different first letters. -/
@[simp] theorem ne_whileStartLabel (a b : Nat) : ifFalseLabel a ≠ whileStartLabel b ∧
    ifEndLabel a ≠ whileStartLabel b ∧ whileEndLabel a ≠ whileStartLabel b := by
  simp [ifFalseLabel, ifEndLabel, whileEndLabel, whileStartLabel, String.ext_iff]

/-- The label to go back to and the jump that does so stand in code once for each of some
numbers. -/
def MarksLoops (code : List Instruction) (numbers : List Nat) : Prop :=
  ∀ n, code.count (.label (whileStartLabel n)) = numbers.count n ∧
    code.count (.goto (whileStartLabel n)) = numbers.count n

theorem MarksLoops.append {code more : List Instruction} {numbers others : List Nat}
    (h : MarksLoops code numbers) (h' : MarksLoops more others) :
    MarksLoops (code ++ more) (numbers ++ others) := by
  intro n
  simp [(h n).1, (h n).2, (h' n).1, (h' n).2]

/-- Lines that are neither a label nor a jump for the start of a loop. -/
theorem marksLoops_nil {code : List Instruction}
    (other : ∀ line ∈ code, ∀ n, line ≠ .label (whileStartLabel n) ∧
      line ≠ .goto (whileStartLabel n)) : MarksLoops code [] := by
  intro n
  rw [List.count_nil]
  exact ⟨List.count_eq_zero.mpr fun mem => (other _ mem n).1 rfl,
    List.count_eq_zero.mpr fun mem => (other _ mem n).2 rfl⟩

theorem MarksLoops.appendOther {code more : List Instruction} {numbers : List Nat}
    (h : MarksLoops code numbers) (other : MarksLoops more []) :
    MarksLoops (code ++ more) numbers := by
  simpa using h.append other

namespace Grammar

variable {environment : Environment}

theorem Environment.Calculates.target?_eq_none {line : Instruction}
    (h : environment.Calculates line) : line.target? = none := by
  cases h <;> rfl

/-- Nothing is asked of code that does not jump. -/
theorem jumpsInOrder_of_target? {code : List Instruction}
    (none : ∀ line ∈ code, line.target? = none) : Everywhere JumpsInOrder code := by
  refine everywhere_of_forall_mem fun line mem before behind => ?_
  have noJump := none line mem
  unfold JumpsInOrder
  split <;> simp_all [Instruction.target?]

theorem Expression.jumpsInOrder (e : Expression) : Everywhere JumpsInOrder (e.code environment) :=
  jumpsInOrder_of_target? fun line mem => (e.calculates line mem).target?_eq_none

theorem Call.jumpsInOrder (target : Call) : Everywhere JumpsInOrder (target.code environment) :=
  jumpsInOrder_of_target? fun line mem => (target.calculates line mem).target?_eq_none

theorem Environment.jumpsInOrder_push (name : String) :
    Everywhere JumpsInOrder (environment.push name) :=
  jumpsInOrder_of_target? fun line mem =>
    (environment.calculates_push name line mem).target?_eq_none

theorem Environment.jumpsInOrder_pop (name : String) :
    Everywhere JumpsInOrder (environment.pop name) := by
  refine jumpsInOrder_of_target? ?_
  cases found : environment.lookup? name <;> simp [Environment.pop, found, Instruction.target?]

theorem jumpsInOrder_returnedCode (value : Option Expression) :
    Everywhere JumpsInOrder (returnedCode environment value) := by
  cases value with
  | none => exact jumpsInOrder_of_target? (by simp [returnedCode, Instruction.target?])
  | some e => exact e.jumpsInOrder

mutual

/-- The code of a statement jumps to its own labels, wherever it stands. -/
theorem Statement.jumpsInOrder : ∀ (statement : Statement) (number : Nat),
    Everywhere JumpsInOrder (statement.code environment number)
  | .assign target value, _ => value.jumpsInOrder.append (environment.jumpsInOrder_pop target)
  | .assignElement array index value, _ =>
    ((((environment.jumpsInOrder_push array).append index.jumpsInOrder).append
      (jumpsInOrder_of_target? (by simp [Instruction.target?]))).append value.jumpsInOrder).append
        (jumpsInOrder_of_target? (by simp [Instruction.target?]))
  | .ifThen condition body, number => by
    intro above below
    simp only [Statement.code, eachLine_append, eachLine_cons, eachLine_nil, and_true]
    refine ⟨⟨⟨condition.jumpsInOrder _ _, trivial, ?_⟩, Statement.listJumpsInOrder body _ _ _⟩,
      trivial⟩
    simp [JumpsInOrder, labelNames_cons, Instruction.label?]
  | .ifElse condition body otherwise, number => by
    intro above below
    simp only [Statement.code, eachLine_append, eachLine_cons, eachLine_nil, and_true]
    refine ⟨⟨⟨⟨⟨condition.jumpsInOrder _ _, trivial, ?_⟩, Statement.listJumpsInOrder body _ _ _⟩,
      .inl ⟨⟨number, rfl⟩, ?_⟩, trivial⟩, Statement.listJumpsInOrder otherwise _ _ _⟩, trivial⟩
    · simp [JumpsInOrder, labelNames_cons, Instruction.label?]
    · simp [labelNames_cons, Instruction.label?]
  | .loop condition body, number => by
    intro above below
    simp only [Statement.code, eachLine_append, eachLine_cons, eachLine_nil, and_true]
    refine ⟨⟨⟨⟨trivial, condition.jumpsInOrder _ _⟩, trivial, ?_⟩,
      Statement.listJumpsInOrder body _ _ _⟩, .inr ⟨⟨number, rfl⟩, ?_⟩, trivial⟩
    · simp [JumpsInOrder, labelNames_cons, Instruction.label?]
    · simp [labelNames_cons, Instruction.label?]
  | .discard target, _ =>
    target.jumpsInOrder.append (jumpsInOrder_of_target? (by simp [Instruction.target?]))
  | .giveBack value, _ => (jumpsInOrder_returnedCode value).append
      (jumpsInOrder_of_target? (by simp [Instruction.target?]))

theorem Statement.listJumpsInOrder : ∀ (body : List Statement) (number : Nat),
    Everywhere JumpsInOrder (Statement.listCode environment number body)
  | [], _ => .nil
  | statement :: body, number =>
    (statement.jumpsInOrder number).append (Statement.listJumpsInOrder body _)

end

/-! ### Loops -/

mutual

/-- The numbers of the `while` statements in a statement whose first label has a given number. -/
def Statement.loopNumbers (number : Nat) : Statement → List Nat
  | .ifThen _ body => Statement.listLoopNumbers (number + 1) body
  | .ifElse _ body otherwise => Statement.listLoopNumbers (number + 1) body ++
      Statement.listLoopNumbers (number + 1 + Statement.listLabels body) otherwise
  | .loop _ body => number :: Statement.listLoopNumbers (number + 1) body
  | _ => []

/-- The numbers of the `while` statements in several statements. -/
def Statement.listLoopNumbers (number : Nat) : List Statement → List Nat
  | [] => []
  | statement :: rest => statement.loopNumbers number ++
      Statement.listLoopNumbers (number + statement.labels) rest

end

/-- Whether a statement is a `while`. -/
def Statement.isLoop : Statement → Bool
  | .loop .. => true
  | _ => false

mutual

/-- There is a number for each `while`. -/
theorem Statement.length_loopNumbers : ∀ (statement : Statement) (number : Nat),
    (statement.loopNumbers number).length = statement.substatements.countP Statement.isLoop
  | .ifThen condition body, number => by
    simp [Statement.loopNumbers, Statement.isLoop, Statement.length_listLoopNumbers body]
  | .ifElse condition body otherwise, number => by
    simp [Statement.loopNumbers, Statement.isLoop, Statement.length_listLoopNumbers body,
      Statement.length_listLoopNumbers otherwise]
  | .loop condition body, number => by
    rw [Statement.loopNumbers, List.length_cons, Statement.length_listLoopNumbers body,
      Statement.substatements, List.countP_cons_of_pos rfl]
  | .assign .., _ | .assignElement .., _ | .discard _, _ | .giveBack _, _ => by
    simp [Statement.loopNumbers, Statement.isLoop]

theorem Statement.length_listLoopNumbers : ∀ (body : List Statement) (number : Nat),
    (Statement.listLoopNumbers number body).length =
      (Statement.listSubstatements body).countP Statement.isLoop
  | [], _ => rfl
  | statement :: body, number => by
    simp [Statement.listLoopNumbers, statement.length_loopNumbers,
      Statement.length_listLoopNumbers body]

end

theorem marksLoops_of_calculates {code : List Instruction}
    (calculates : ∀ line ∈ code, environment.Calculates line) : MarksLoops code [] := by
  refine marksLoops_nil fun line mem n => ⟨?_, ?_⟩ <;> rintro rfl <;> cases calculates _ mem

theorem Expression.marksLoops (e : Expression) : MarksLoops (e.code environment) [] :=
  marksLoops_of_calculates e.calculates

theorem Environment.marksLoops_pop (name : String) : MarksLoops (environment.pop name) [] := by
  refine marksLoops_nil ?_
  cases found : environment.lookup? name <;> simp [Environment.pop, found]

theorem marksLoops_returnedCode (value : Option Expression) :
    MarksLoops (returnedCode environment value) [] := by
  cases value with
  | none => exact marksLoops_nil (by simp [returnedCode])
  | some e => exact e.marksLoops

mutual

/-- Each `while` has one label to go back to and one jump that does. -/
theorem Statement.marksLoops : ∀ (statement : Statement) (number : Nat),
    MarksLoops (statement.code environment number) (statement.loopNumbers number)
  | .assign target value, _ => value.marksLoops.append (environment.marksLoops_pop target)
  | .assignElement array index value, _ =>
    ((((marksLoops_of_calculates (environment.calculates_push array)).append
      index.marksLoops).append (marksLoops_nil (by simp))).append value.marksLoops).append
        (marksLoops_nil (by simp))
  | .ifThen condition body, number =>
    ((condition.marksLoops.append (marksLoops_nil (by simp))).append
      (Statement.listMarksLoops body (number + 1))).appendOther (marksLoops_nil (by simp))
  | .ifElse condition body otherwise, number =>
    (((condition.marksLoops.append (marksLoops_nil (by simp))).append
      (Statement.listMarksLoops body (number + 1))).appendOther (marksLoops_nil (by simp))).append
        (Statement.listMarksLoops otherwise _) |>.appendOther (marksLoops_nil (by simp))
  | .loop condition body, number => by
    intro n
    have first : MarksLoops (condition.code environment) [] := condition.marksLoops
    obtain ⟨label, goto⟩ := first n
    obtain ⟨label', goto'⟩ := Statement.listMarksLoops body (number + 1) n
    rw [List.count_nil] at label goto
    -- The label of the loop stands in front of all others, and its jump behind them.
    constructor
    · simp [Statement.code, Statement.loopNumbers, List.count_cons, label, label']
    · simp [Statement.code, Statement.loopNumbers, List.count_cons, goto, goto']
  | .discard target, _ =>
    (marksLoops_of_calculates target.calculates).append (marksLoops_nil (by simp))
  | .giveBack value, _ => (marksLoops_returnedCode value).append (marksLoops_nil (by simp))

theorem Statement.listMarksLoops : ∀ (body : List Statement) (number : Nat),
    MarksLoops (Statement.listCode environment number body) (Statement.listLoopNumbers number body)
  | [], _ => marksLoops_nil (by simp [Statement.listCode])
  | statement :: body, number =>
    (statement.marksLoops number).append (Statement.listMarksLoops body _)

end

/-! ### Numbers -/

mutual

/-- The keyword of each `if` and `while` is a token, so there are no more labels than tokens. -/
theorem Statement.labels_le : ∀ statement : Statement,
    statement.labels ≤ statement.terminals.length
  | .assign .. | .assignElement .. | .discard _ | .giveBack _ => Nat.zero_le _
  | .ifThen condition body => by
    have inside := Statement.listLabels_le body
    simp only [Statement.labels, Statement.terminals, parenthesized, braced, List.length_append,
      List.length_cons]
    omega
  | .ifElse condition body otherwise => by
    have inside := Statement.listLabels_le body
    have inside' := Statement.listLabels_le otherwise
    simp only [Statement.labels, Statement.terminals, parenthesized, braced, List.length_append,
      List.length_cons]
    omega
  | .loop condition body => by
    have inside := Statement.listLabels_le body
    simp only [Statement.labels, Statement.terminals, parenthesized, braced, List.length_append,
      List.length_cons]
    omega

theorem Statement.listLabels_le : ∀ body : List Statement,
    Statement.listLabels body ≤ (Statement.blockTerminals body).length
  | [] => Nat.zero_le _
  | statement :: body => by
    rw [Statement.listLabels, Statement.blockTerminals, List.length_append]
    exact Nat.add_le_add statement.labels_le (Statement.listLabels_le body)

end

theorem SubroutineDeclaration.listLabels_body_le (d : SubroutineDeclaration) :
    Statement.listLabels d.body ≤ d.terminals.length := by
  have inside := Statement.listLabels_le d.body
  simp only [SubroutineDeclaration.terminals, parenthesized, braced, List.length_append,
    List.length_cons]
  omega

/-! ### Subroutines and classes -/

theorem target?_prologueCode (kind : SubroutineKind) (fields : Nat) :
    ∀ line ∈ prologueCode kind fields, line.target? = none := by
  cases kind <;> simp [prologueCode, Instruction.target?, Instruction.allocate]

theorem marksLoops_prologueCode (kind : SubroutineKind) (fields : Nat) :
    MarksLoops (prologueCode kind fields) [] := by
  refine marksLoops_nil ?_
  cases kind <;> simp [prologueCode, Instruction.allocate]

/-- The numbers of the `while` statements in some subroutines. -/
def loopNumbersFrom (number : Nat) : List SubroutineDeclaration → List Nat
  | [] => []
  | d :: rest => Statement.listLoopNumbers number d.body ++
      loopNumbersFrom (number + Statement.listLabels d.body) rest

/-- The `while` statements in some subroutines. -/
def loopsOf (subroutines : List SubroutineDeclaration) : List Statement :=
  subroutines.flatMap fun d => (Statement.listSubstatements d.body).filter Statement.isLoop

theorem length_loopNumbersFrom (subroutines : List SubroutineDeclaration) (number : Nat) :
    (loopNumbersFrom number subroutines).length = (loopsOf subroutines).length := by
  induction subroutines generalizing number with
  | nil => rfl
  | cons d rest ih =>
    rw [loopNumbersFrom, List.length_append, ih, Statement.length_listLoopNumbers,
      List.countP_eq_length_filter]
    simp [loopsOf]

namespace ClassDeclaration

variable (c : ClassDeclaration)

/-- The jumps of a subroutine stay in its block. -/
theorem jumpsInOrder_block (number : Nat) (d : SubroutineDeclaration) :
    Everywhere JumpsInOrder (c.block number d).lines :=
  (jumpsInOrder_of_target? (target?_prologueCode d.kind c.fields)).append
    (Statement.listJumpsInOrder d.body number)

theorem jumpsInOrder_codeFrom (number : Nat) (subroutines : List SubroutineDeclaration) :
    Everywhere JumpsInOrder (c.codeFrom number subroutines) := by
  induction subroutines generalizing number with
  | nil => exact .nil
  | cons d rest ih =>
    have header : Everywhere JumpsInOrder [c.header d] :=
      jumpsInOrder_of_target? (by simp [ClassDeclaration.header, Instruction.target?])
    exact (header.append (c.jumpsInOrder_block number d)).append (ih _)

theorem marksLoops_codeFrom (number : Nat) (subroutines : List SubroutineDeclaration) :
    MarksLoops (c.codeFrom number subroutines) (loopNumbersFrom number subroutines) := by
  induction subroutines generalizing number with
  | nil => exact marksLoops_nil (by simp [codeFrom])
  | cons d rest ih =>
    have header : MarksLoops [c.header d] [] :=
      marksLoops_nil (by simp [ClassDeclaration.header])
    exact ((header.append (marksLoops_prologueCode d.kind c.fields)).append
      (Statement.listMarksLoops d.body number)).append (ih _)

/-- The numbers of the labels of some subroutines go on from the first one, and there are no more of
them than tokens. -/
theorem numbered_codeFrom (number : Nat) (subroutines : List SubroutineDeclaration) :
    ∀ name ∈ labelNames (c.codeFrom number subroutines),
      ∃ n < number + (subroutines.flatMap SubroutineDeclaration.terminals).length,
        name ∈ labelsOf n := by
  induction subroutines generalizing number with
  | nil => simp [codeFrom]
  | cons d rest ih =>
    have few := d.listLabels_body_le
    have ownLabels : labelNames (c.subroutineCode number d) =
        labelNames (Statement.listCode (c.environment d) number d.body) := by
      simp [subroutineCode, labelNames_cons, labelNames_prologueCode, ClassDeclaration.header,
        Instruction.label?]
    intro name mem
    rw [codeFrom, labelNames_append, ownLabels] at mem
    rw [List.flatMap_cons, List.length_append]
    obtain own | later := List.mem_append.mp mem
    · obtain ⟨n, -, below, isLabel⟩ :=
        (Statement.fresh_listCode (c.environment d) d.body number).numbered name own
      exact ⟨n, by omega, isLabel⟩
    · obtain ⟨n, below, isLabel⟩ := ih _ name later
      exact ⟨n, by omega, isLabel⟩

/-- A class has fewer labels than tokens. -/
theorem numbered_code : ∀ name ∈ labelNames c.code,
    ∃ n < c.terminals.length, name ∈ labelsOf n := by
  intro name mem
  obtain ⟨n, below, isLabel⟩ := c.numbered_codeFrom 0 c.subroutines name mem
  refine ⟨n, ?_, isLabel⟩
  simp only [terminals, braced, List.length_cons, List.length_append]
  omega

/-- No two `while` statements of a class have the same number. -/
theorem nodup_loopNumbersFrom : (loopNumbersFrom 0 c.subroutines).Nodup := by
  refine List.nodup_iff_count_le_one.mpr fun n => ?_
  rw [← (c.marksLoops_codeFrom 0 c.subroutines n).1, ← count_labelNames]
  exact List.nodup_iff_count_le_one.mp c.nodup_labelNames_code _

/-- The labels and jumps of a class. -/
theorem wellLabelled : WellLabelled c.code (loopsOf c.subroutines).length := by
  have unique := c.nodup_labelNames_code
  have inOrder {before line behind} (parts : c.code = before ++ line :: behind) :
      JumpsInOrder before line behind := by
    simpa using c.jumpsInOrder_codeFrom 0 c.subroutines [] [] before line behind parts
  refine ⟨unique, ?_, fun _ _ _ parts => inOrder parts, ?_, ?_, ?_,
    loopNumbersFrom 0 c.subroutines, c.nodup_loopNumbersFrom, length_loopNumbersFrom _ _, ?_⟩
  · refine c.forall_mem_functionBlocks fun d _ number line mem name isTarget => ?_
    obtain ⟨before, behind, parts⟩ := List.append_of_mem mem
    have jump : JumpsInOrder before line behind := by
      simpa using c.jumpsInOrder_block number d [] [] before line behind parts
    rw [parts, labelNames_append, labelNames_cons]
    obtain after | ⟨-, inFront⟩ := jump.mem_labelNames isTarget
    · simp [after]
    · simp [inFront]
  · intro before n behind parts
    obtain ⟨-, after⟩ | ⟨⟨m, same⟩, -⟩ := inOrder parts
    · exact after
    · exact absurd same (ne_whileStartLabel n m).2.1
  · intro before line behind parts name isTarget inFront
    obtain after | ⟨isLoop, -⟩ := (inOrder parts).mem_labelNames isTarget
    · exact absurd after (not_mem_labelNames_of_nodup (parts ▸ unique) inFront)
    · exact isLoop
  · intro before n behind parts
    obtain ⟨⟨m, same⟩, -⟩ | ⟨-, inFront⟩ := inOrder parts
    · exact absurd same.symm (ne_whileStartLabel m n).2.1
    · exact inFront
  · intro n
    rw [code, (c.marksLoops_codeFrom 0 c.subroutines n).2, c.nodup_loopNumbersFrom.count]

end ClassDeclaration

end Grammar

end JackCompiler
