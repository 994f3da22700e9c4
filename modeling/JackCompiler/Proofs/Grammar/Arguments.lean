import JackCompiler.Proofs.Grammar.Balance

/-!
# The values in front of a call

A call instruction says how many values it takes. Which values these are is a matter of the tree
that it is the code of: the object and the listed arguments of a call, the two operands of a
product, a string and its next character. In front of every call instruction stands the code of just
these values, one behind the other, and each of them leaves one value.

## Main definitions

* `Passes` — the values that are pushed for an instruction, each as its code
* `PushesArguments` — the lines in front of a call push what it passes

## Main results

* `Passes.length_eq`, `Passes.yields` — a call takes as many values as are pushed for it
* `ClassDeclaration.pushesArguments_block` — the calls of a subroutine
-/

namespace JackCompiler.Grammar

/-- The values that are pushed for an instruction, each as its code. -/
inductive Passes (environment : Environment) : List (List Instruction) → Instruction → Prop where
  /-- A call passes its object, if there is one, and the listed arguments. -/
  | call (target : Call) (legal : target.Legal environment) :
    Passes environment (target.values environment) (target.instruction environment)
  /-- Products and quotients are calls that pass both operands. -/
  | operands (left : Term) (operator : BinaryOperator) (right : Expression)
    (legal : left.Legal environment) (legal' : right.Legal environment) :
    Passes environment [left.code environment, right.code environment] operator.instruction
  /-- A new string is given its length. -/
  | string (length : Nat) : Passes environment [[.push .constant length]] .newString
  /-- A character is appended to what there is of its string. -/
  | character (length : Nat) (start : List Char) (c : Char) :
    Passes environment [stringStart length start, [.push .constant c.toNat]] .appendCharacter
  /-- A new object is given its size. -/
  | object (fields : Nat) : Passes environment [[.push .constant fields]] .allocate

variable {environment : Environment} {values : List (List Instruction)} {line : Instruction}

/-- A call takes as many values as are pushed for it. -/
theorem Passes.length_eq {name : String} {count : Nat} (h : Passes environment values line)
    (isCall : line = .call name count) : values.length = count := by
  cases h with
  | call target legal =>
    obtain ⟨callee, instruction⟩ := target.instruction_eq environment
    rw [instruction] at isCall
    exact (Instruction.call.inj isCall).2
  | operands left operator right =>
    cases operator with
    | mul | div => exact (Instruction.call.inj isCall).2
    | add | sub | and | or | lt | gt | eq => cases isCall
  | string | character | object => exact (Instruction.call.inj isCall).2

/-- Each value that is pushed for a call is one value. -/
theorem Passes.yields (h : Passes environment values line) : ∀ value ∈ values, Yields value 1 := by
  cases h with
  | call target legal => exact Call.yields_values legal
  | operands left operator right legal legal' => simp [left.yields legal, right.yields legal']
  | string length | object length => simp [Yields.push]
  | character length start c => simp [yields_stringStart, Yields.push]

/-- The lines in front of a call push what it passes. -/
def PushesArguments (environment : Environment) : LineCondition := fun before line _ =>
  ∀ name count, line = .call name count →
    ∃ front values, before = front ++ values.flatten ∧ Passes environment values line

/-- The values that an instruction takes, and then the instruction. -/
theorem Passes.pushesArguments (h : Passes environment values line)
    (each : ∀ value ∈ values, Everywhere (PushesArguments environment) value) :
    Everywhere (PushesArguments environment) (values.flatten ++ [line]) := by
  intro above below
  refine eachLine_append.mpr ⟨Everywhere.flatten each _ _, ?_⟩
  simp only [eachLine_cons, eachLine_nil, and_true]
  exact fun _ _ _ => ⟨above, values, rfl, h⟩

/-- Nothing is asked of lines that do not call. -/
theorem pushesArguments_of_ne {code : List Instruction}
    (noCall : ∀ line ∈ code, ∀ name count, line ≠ .call name count) :
    Everywhere (PushesArguments environment) code :=
  everywhere_of_forall_mem fun line mem _ _ name count isCall =>
    absurd isCall (noCall line mem name count)

theorem Environment.pushesArguments_push (name : String) :
    Everywhere (PushesArguments environment) (environment.push name) := by
  refine pushesArguments_of_ne ?_
  cases found : environment.lookup? name <;> simp [Environment.push, found]

theorem Environment.pushesArguments_pop (name : String) :
    Everywhere (PushesArguments environment) (environment.pop name) := by
  refine pushesArguments_of_ne ?_
  cases found : environment.lookup? name <;> simp [Environment.pop, found]

theorem pushesArguments_stringStart (length : Nat) (start : List Char) :
    Everywhere (PushesArguments environment) (stringStart length start) := by
  induction start using List.reverseRecOn with
  | nil =>
    have size : Everywhere (PushesArguments environment) [.push .constant length] :=
      pushesArguments_of_ne (by simp)
    exact (Passes.string length).pushesArguments (by simpa using size)
  | append_singleton start c ih =>
    have code : Everywhere (PushesArguments environment) [.push .constant c.toNat] :=
      pushesArguments_of_ne (by simp)
    rw [stringStart_concat]
    simpa using (Passes.character length start c).pushesArguments (by simp [ih, code])

theorem ConstantWord.pushesArguments (word : ConstantWord) :
    Everywhere (PushesArguments environment) word.code := by
  refine pushesArguments_of_ne ?_
  cases word <;> simp [code]

theorem Call.pushesArguments_receiverCode (target : Call) :
    ∀ value ∈ (target.receiverCode environment).map ([·]),
      Everywhere (PushesArguments environment) value := by
  intro value mem
  obtain ⟨line, mem, rfl⟩ := List.mem_map.mp mem
  refine pushesArguments_of_ne ?_
  cases target with
  | bare name es => simp_all [receiverCode]
  | qualified owner name es =>
    cases found : environment.lookup? owner <;> simp_all [receiverCode, Environment.push]

/-- The code of a call, if that of the listed arguments pushes what it has to. -/
theorem Call.pushesArguments_of_listed {target : Call} (legal : target.Legal environment)
    (listed : ∀ value ∈ target.arguments.map (Expression.code environment),
      Everywhere (PushesArguments environment) value) :
    Everywhere (PushesArguments environment) (target.code environment) := by
  rw [Call.code_eq_values]
  exact (Passes.call target legal).pushesArguments
    (List.forall_mem_append.mpr ⟨target.pushesArguments_receiverCode, listed⟩)

mutual

theorem Term.pushesArguments : ∀ t : Term, t.Legal environment →
    Everywhere (PushesArguments environment) (t.code environment)
  | .integer _, _ => pushesArguments_of_ne (by simp [Term.code])
  | .string contents, _ => pushesArguments_stringStart contents.length contents
  | .constant word, _ => word.pushesArguments
  | .named name, _ => environment.pushesArguments_push name
  | .element array index, legal =>
    ((environment.pushesArguments_push array).append
      (index.pushesArguments (Term.legal_element.mp legal).2)).append
        (pushesArguments_of_ne (by simp))
  | .call target, legal => target.pushesArguments (Term.legal_call.mp legal)
  | .parentheses inner, legal => inner.pushesArguments (Term.legal_parentheses.mp legal)
  | .unary operator operand, legal =>
    (operand.pushesArguments (Term.legal_unary.mp legal)).append
      (pushesArguments_of_ne (by cases operator <;> simp [UnaryOperator.instruction]))

/-- In front of each call of an expression stand the values that it takes. -/
theorem Expression.pushesArguments : ∀ e : Expression, e.Legal environment →
    Everywhere (PushesArguments environment) (e.code environment)
  | .single t, legal => t.pushesArguments (Expression.legal_single.mp legal)
  | .binary left operator right, legal => by
    rw [Expression.legal_binary] at legal
    have both := (Passes.operands left operator right legal.1 legal.2).pushesArguments (by
      simp [left.pushesArguments legal.1, right.pushesArguments legal.2])
    simpa [Expression.code] using both

theorem Call.pushesArguments : ∀ target : Call, target.Legal environment →
    Everywhere (PushesArguments environment) (target.code environment)
  | .bare _ es, legal => Call.pushesArguments_of_listed legal
      (Expression.listPushesArguments es (Call.legal_iff.mp legal).2)
  | .qualified _ _ es, legal => Call.pushesArguments_of_listed legal
      (Expression.listPushesArguments es (Call.legal_iff.mp legal).2)

theorem Expression.listPushesArguments : ∀ es : List Expression,
    (∀ e ∈ es, e.Legal environment) → ∀ value ∈ es.map (Expression.code environment),
      Everywhere (PushesArguments environment) value
  | [], _ => by simp
  | e :: es, legal => by
    rw [List.forall_mem_cons] at legal
    exact List.forall_mem_cons.mpr
      ⟨e.pushesArguments legal.1, Expression.listPushesArguments es legal.2⟩

end

theorem pushesArguments_returnedCode {value : Option Expression}
    (legal : ∀ e ∈ value, e.Legal environment) :
    Everywhere (PushesArguments environment) (returnedCode environment value) := by
  cases value with
  | none => exact pushesArguments_of_ne (by simp [returnedCode])
  | some e => exact e.pushesArguments (legal e rfl)

mutual

/-- In front of each call of a statement stand the values that it takes. -/
theorem Statement.pushesArguments : ∀ (statement : Statement) (number : Nat),
    statement.Legal environment →
    Everywhere (PushesArguments environment) (statement.code environment number)
  | .assign target value, number, legal =>
    (value.pushesArguments (Statement.legal_assign.mp legal).2).append
      (environment.pushesArguments_pop target)
  | .assignElement array index value, number, legal => by
    rw [Statement.legal_assignElement] at legal
    have operands := (environment.pushesArguments_push array).append
      (index.pushesArguments legal.2.1)
    exact ((operands.append (pushesArguments_of_ne (by simp))).append
      (value.pushesArguments legal.2.2)).append (pushesArguments_of_ne (by simp))
  | .ifThen condition body, number, legal => by
    rw [Statement.legal_ifThen] at legal
    exact (((condition.pushesArguments legal.1).append (pushesArguments_of_ne (by simp))).append
      (Statement.listPushesArguments body _ legal.2)).append (pushesArguments_of_ne (by simp))
  | .ifElse condition body otherwise, number, legal => by
    rw [Statement.legal_ifElse] at legal
    have first := Statement.listPushesArguments body (number + 1) legal.2.1
    exact (((((condition.pushesArguments legal.1).append
      (pushesArguments_of_ne (by simp))).append first).append
        (pushesArguments_of_ne (by simp))).append
      (Statement.listPushesArguments otherwise _ legal.2.2)).append
        (pushesArguments_of_ne (by simp))
  | .loop condition body, number, legal => by
    rw [Statement.legal_loop] at legal
    have first : Everywhere (PushesArguments environment)
        ([.label (whileStartLabel number)] ++ condition.code environment) :=
      (pushesArguments_of_ne (by simp)).append (condition.pushesArguments legal.1)
    exact ((first.append (pushesArguments_of_ne (by simp))).append
      (Statement.listPushesArguments body _ legal.2)).append (pushesArguments_of_ne (by simp))
  | .discard target, number, legal =>
    (target.pushesArguments (Statement.legal_discard.mp legal)).append
      (pushesArguments_of_ne (by simp))
  | .giveBack value, number, legal =>
    (pushesArguments_returnedCode (Statement.legal_giveBack.mp legal)).append
      (pushesArguments_of_ne (by simp))

theorem Statement.listPushesArguments : ∀ (body : List Statement) (number : Nat),
    Statement.BlockLegal environment body →
    Everywhere (PushesArguments environment) (Statement.listCode environment number body)
  | [], _, _ => .nil
  | statement :: body, number, legal => by
    rw [Statement.blockLegal_iff, List.forall_mem_cons, ← Statement.blockLegal_iff] at legal
    exact (statement.pushesArguments number legal.1).append
      (Statement.listPushesArguments body _ legal.2)

end

theorem pushesArguments_prologueCode (kind : SubroutineKind) (fields : Nat) :
    Everywhere (PushesArguments environment) (prologueCode kind fields) := by
  cases kind with
  | constructor =>
    have size : Everywhere (PushesArguments environment) [.push .constant fields] :=
      pushesArguments_of_ne (by simp)
    exact ((Passes.object fields).pushesArguments (by simpa using size)).append
      (pushesArguments_of_ne (by simp))
  | method => exact pushesArguments_of_ne (by simp [prologueCode])
  | function => exact .nil

/-- In front of each call of a subroutine stand the values that it takes. -/
theorem ClassDeclaration.pushesArguments_block {c : ClassDeclaration} {d : SubroutineDeclaration}
    (legal : Statement.BlockLegal (c.environment d) d.body) (number : Nat) :
    Everywhere (PushesArguments (c.environment d)) (c.block number d).lines :=
  (pushesArguments_prologueCode d.kind c.fields).append
    (Statement.listPushesArguments d.body number legal)

end JackCompiler.Grammar
