import JackCompiler.Proofs.Grammar.Code

/-!
# Labels are unique

Every `if` and `while` of a class has a number of its own, and a number and a purpose make up a
label. No label stands twice in the code of a class, so that a jump has one line to go to.

## Main definitions

* `labelNames` — the labels that stand in code
* `Fresh` — labels are unique and belong to numbers in a given range

## Main results

* `Statement.fresh_code` — the labels of a statement
* `ClassDeclaration.nodup_labelNames_code` — the labels of a class
-/

namespace JackCompiler

/-- The name of a label, if the instruction is one. -/
def Instruction.label? : Instruction → Option String
  | .label name => some name
  | _ => none

/-- The labels that stand in code. -/
def labelNames (code : List Instruction) : List String :=
  code.filterMap Instruction.label?

@[simp] theorem labelNames_nil : labelNames [] = [] := rfl

@[simp] theorem labelNames_append (code more : List Instruction) :
    labelNames (code ++ more) = labelNames code ++ labelNames more :=
  List.filterMap_append

theorem labelNames_cons (instruction : Instruction) (code : List Instruction) :
    labelNames (instruction :: code) = instruction.label?.toList ++ labelNames code := by
  cases h : instruction.label? <;> simp [labelNames, h]

/-! ### Names of labels -/

/-- The four labels that a number may be part of. -/
def labelsOf (number : Nat) : List String :=
  [ifFalseLabel number, ifEndLabel number, whileStartLabel number, whileEndLabel number]

theorem toString_injective {a b : Nat} (h : toString a = toString b) : a = b := by
  have digits : Nat.toDigits 10 a = Nat.toDigits 10 b := by
    simpa using congrArg String.toList h
  -- The digits of a number can be read back.
  rw [← Nat.ofDigitChars_ten_toDigits (n := a), digits, Nat.ofDigitChars_ten_toDigits]

/-- The letters of a label tell its purpose and its number. -/
theorem eq_of_mem_labelsOf {name : String} {a b : Nat} (ha : name ∈ labelsOf a)
    (hb : name ∈ labelsOf b) : a = b := by
  apply toString_injective
  simp only [labelsOf, ifFalseLabel, ifEndLabel, whileStartLabel, whileEndLabel, List.mem_cons,
    List.not_mem_nil, or_false] at ha hb
  -- The four purposes have different first letters, and behind equal ones the digits are equal.
  obtain rfl | rfl | rfl | rfl := ha <;> obtain h | h | h | h := hb <;>
    simp_all [String.ext_iff]

theorem nodup_labelsOf (number : Nat) : (labelsOf number).Nodup := by
  simp [labelsOf, ifFalseLabel, ifEndLabel, whileStartLabel, whileEndLabel, String.ext_iff]

/-- Labels are unique, and belong to numbers from `first` up to but not including `last`. -/
structure Fresh (first last : Nat) (names : List String) : Prop where
  nodup : names.Nodup
  numbered : ∀ name ∈ names, ∃ number, first ≤ number ∧ number < last ∧ name ∈ labelsOf number

namespace Fresh

variable {first middle last : Nat} {names others : List String}

theorem nil (number : Nat) : Fresh number number [] :=
  ⟨.nil, by simp⟩

/-- Some labels of one number. -/
theorem single {number : Nat} (sub : names.Sublist (labelsOf number)) :
    Fresh number (number + 1) names :=
  ⟨(nodup_labelsOf number).sublist sub, fun _ mem => ⟨number, by omega, by omega, sub.subset mem⟩⟩

theorem append (h : Fresh first middle names) (h' : Fresh middle last others)
    (le : first ≤ middle) (le' : middle ≤ last) : Fresh first last (names ++ others) where
  nodup := by
    refine List.nodup_append.mpr ⟨h.nodup, h'.nodup, fun a mem b mem' => ?_⟩
    -- A label on both sides would have a number below the middle and one above it.
    rintro rfl
    obtain ⟨m, -, below, isLabel⟩ := h.numbered a mem
    obtain ⟨n, above, -, isLabel'⟩ := h'.numbered a mem'
    have := eq_of_mem_labelsOf isLabel isLabel'
    omega
  numbered := by
    intro name mem
    obtain mem | mem := List.mem_append.mp mem
    · obtain ⟨n, above, below, isLabel⟩ := h.numbered name mem
      exact ⟨n, above, by omega, isLabel⟩
    · obtain ⟨n, above, below, isLabel⟩ := h'.numbered name mem
      exact ⟨n, by omega, below, isLabel⟩

theorem perm (h : Fresh first last names) (same : names.Perm others) : Fresh first last others :=
  ⟨same.nodup_iff.mp h.nodup, fun name mem => h.numbered name (same.mem_iff.mpr mem)⟩

end Fresh

/-! ### Labels of code -/

namespace Grammar

variable (environment : Environment)

theorem labelNames_push (name : String) : labelNames (environment.push name) = [] := by
  cases h : environment.lookup? name <;> simp [Environment.push, h, labelNames, Instruction.label?]

theorem labelNames_pop (name : String) : labelNames (environment.pop name) = [] := by
  cases h : environment.lookup? name <;> simp [Environment.pop, h, labelNames, Instruction.label?]

theorem labelNames_stringCode (contents : List Char) : labelNames (stringCode contents) = [] := by
  induction contents with
  | nil => rfl
  | cons c contents ih => exact ih

theorem labelNames_operator (operator : BinaryOperator) :
    labelNames [operator.instruction] = [] := by
  cases operator <;> rfl

theorem labelNames_qualifiedCall (owner name : String) (listed : Nat) :
    labelNames [qualifiedCall environment owner name listed] = [] := by
  unfold qualifiedCall
  split <;> rfl

mutual

theorem Term.labelNames_code : ∀ t : Term, labelNames (t.code environment) = []
  | .integer _ => rfl
  | .string contents => labelNames_stringCode contents
  | .constant word => by cases word <;> rfl
  | .named name => labelNames_push environment name
  | .element array index => by
    simp only [Term.code, labelNames_append, labelNames_push, index.labelNames_code]
    rfl
  | .call target => target.labelNames_code
  | .parentheses inner => inner.labelNames_code
  | .unary operator operand => by
    simp only [Term.code, labelNames_append, operand.labelNames_code]
    cases operator <;> rfl

theorem Expression.labelNames_code : ∀ e : Expression, labelNames (e.code environment) = []
  | .single t => t.labelNames_code
  | .binary left operator right => by
    simp only [Expression.code, labelNames_append, left.labelNames_code, right.labelNames_code,
      labelNames_operator, List.append_nil]

theorem Call.labelNames_code : ∀ c : Call, labelNames (c.code environment) = []
  | .bare name es => by
    simp only [Call.code, List.cons_append, labelNames_cons, labelNames_append,
      Expression.labelNames_listCode es]
    rfl
  | .qualified owner name es => by
    simp only [Call.code, labelNames_append, labelNames_push, Expression.labelNames_listCode es,
      labelNames_qualifiedCall, List.append_nil]

theorem Expression.labelNames_listCode : ∀ es : List Expression,
    labelNames (Expression.listCode environment es) = []
  | [] => rfl
  | e :: es => by
    simp only [Expression.listCode, labelNames_append, e.labelNames_code,
      Expression.labelNames_listCode es, List.append_nil]

end

mutual

/-- The labels of a statement belong to the numbers that it uses up. -/
theorem Statement.fresh_code : ∀ (statement : Statement) (number : Nat),
    Fresh number (number + statement.labels) (labelNames (statement.code environment number))
  | .assign target value, number => by
    simpa [Statement.code, Expression.labelNames_code, labelNames_pop] using .nil number
  | .assignElement array index value, number => by
    simpa [Statement.code, labelNames_cons, Expression.labelNames_code, labelNames_push,
      Instruction.label?] using .nil number
  -- The number of the statement itself comes first, but its labels stand behind those of the block.
  -- Uniqueness does not depend on the order, so the ranges are put together first and the labels
  -- are rearranged.
  | .ifThen condition body, number => by
    have own : Fresh number (number + 1) [ifFalseLabel number] := .single (by simp [labelsOf])
    have inner := Statement.fresh_listCode body (number + 1)
    have names : labelNames ((Statement.ifThen condition body).code environment number) =
        labelNames (Statement.listCode environment (number + 1) body) ++ [ifFalseLabel number] := by
      simp [Statement.code, labelNames_cons, Expression.labelNames_code, Instruction.label?]
    rw [names, Statement.labels, Nat.add_comm _ 1, ← Nat.add_assoc]
    exact (own.append inner (by omega) (by omega)).perm List.perm_append_comm
  | .ifElse condition body otherwise, number => by
    have own : Fresh number (number + 1) [ifFalseLabel number, ifEndLabel number] :=
      .single (by simp [labelsOf])
    have inner := Statement.fresh_listCode body (number + 1)
    have inner' := Statement.fresh_listCode otherwise (number + 1 + Statement.listLabels body)
    have names : labelNames ((Statement.ifElse condition body otherwise).code environment number) =
        labelNames (Statement.listCode environment (number + 1) body) ++ ifFalseLabel number ::
          (labelNames (Statement.listCode environment
            (number + 1 + Statement.listLabels body) otherwise) ++ [ifEndLabel number]) := by
      simp [Statement.code, labelNames_cons, Expression.labelNames_code, Instruction.label?]
    have last : number + (Statement.ifElse condition body otherwise).labels =
        number + 1 + Statement.listLabels body + Statement.listLabels otherwise := by
      rw [Statement.labels]
      omega
    rw [names, last]
    refine ((own.append inner (by omega) (by omega)).append inner' (by omega) (by omega)).perm ?_
    -- The labels of the two blocks stand between the own ones, so they are counted instead.
    rw [List.perm_iff_count]
    intro name
    simp only [List.count_append, List.count_cons, List.count_nil]
    omega
  | .loop condition body, number => by
    have own : Fresh number (number + 1) ([whileStartLabel number] ++ [whileEndLabel number]) :=
      .single (by simp [labelsOf])
    have inner := Statement.fresh_listCode body (number + 1)
    have names : labelNames ((Statement.loop condition body).code environment number) =
        [whileStartLabel number] ++
          (labelNames (Statement.listCode environment (number + 1) body) ++
            [whileEndLabel number]) := by
      simp [Statement.code, labelNames_cons, Expression.labelNames_code, Instruction.label?]
    rw [names, Statement.labels, Nat.add_comm _ 1, ← Nat.add_assoc]
    refine (own.append inner (by omega) (by omega)).perm ?_
    rw [List.append_assoc]
    exact List.perm_append_comm.append_left _
  | .discard target, number => by
    simpa [Statement.code, labelNames_cons, Call.labelNames_code, Instruction.label?]
      using .nil number
  | .giveBack value, number => by
    cases value <;>
      simpa [Statement.code, returnedCode, labelNames_cons, Expression.labelNames_code,
        Instruction.label?] using .nil number

theorem Statement.fresh_listCode : ∀ (body : List Statement) (number : Nat),
    Fresh number (number + Statement.listLabels body)
      (labelNames (Statement.listCode environment number body))
  | [], number => .nil number
  | statement :: body, number => by
    have first := statement.fresh_code number
    have others := Statement.fresh_listCode body (number + statement.labels)
    rw [Nat.add_assoc] at others
    rw [Statement.listCode, labelNames_append, Statement.listLabels]
    exact first.append others (by omega) (by omega)

end

theorem labelNames_prologueCode (kind : SubroutineKind) (fields : Nat) :
    labelNames (prologueCode kind fields) = [] := by
  cases kind <;> rfl

theorem ClassDeclaration.fresh_codeFrom (c : ClassDeclaration)
    (subroutines : List SubroutineDeclaration) : ∀ number, ∃ last, number ≤ last ∧
      Fresh number last (labelNames (c.codeFrom number subroutines)) := by
  induction subroutines with
  | nil => exact fun number => ⟨number, Nat.le_refl _, .nil number⟩
  | cons s rest ih =>
    intro number
    obtain ⟨last, le, others⟩ := ih (number + Statement.listLabels s.body)
    have body := Statement.fresh_listCode (c.environment s) s.body number
    have names : labelNames (c.subroutineCode number s) =
        labelNames (Statement.listCode (c.environment s) number s.body) := by
      simp [ClassDeclaration.subroutineCode, labelNames_cons, labelNames_prologueCode,
        ClassDeclaration.header, Instruction.label?]
    rw [ClassDeclaration.codeFrom, labelNames_append, names]
    exact ⟨last, by omega, body.append others (by omega) le⟩

/-- No label stands twice in the code of a class. -/
theorem ClassDeclaration.nodup_labelNames_code (c : ClassDeclaration) :
    (labelNames c.code).Nodup := by
  obtain ⟨last, -, fresh⟩ := c.fresh_codeFrom c.subroutines 0
  exact fresh.nodup

end Grammar

end JackCompiler
