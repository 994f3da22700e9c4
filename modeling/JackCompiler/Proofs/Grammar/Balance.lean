import JackCompiler.Proofs.Grammar.Lines
import JackCompiler.Proofs.Grammar.Rules
import JackCompiler.Proofs.Vm.Depth
import Mathlib.Data.List.Induction

/-!
# Code of trees keeps the stack balanced

An expression leaves one value, whatever is on the stack, and a statement leaves the stack as empty
as it was. Operators wait until all their operands are there, the object of a method call waits
below the listed arguments, and the address of an array element below the value that it is to get.

## Main definitions

* `Call.values` — the code of each value that a call passes
* `stringStart` — the code of a string up to one of its characters

## Main results

* `Expression.yields`, `Statement.settles` — the balance of expressions and statements
* `ClassDeclaration.settles_block` — the balance of subroutines
-/

namespace JackCompiler.Grammar

/-! ### The values of a call -/

/-- Pushes the object that a call is made on, if there is one. -/
def Call.receiverCode (environment : Environment) : Call → List Instruction
  | .bare .. => [.push .pointer 0]
  | .qualified owner .. => environment.push owner

/-- The code of each value that a call passes: the object that it is made on, and the listed
arguments. -/
def Call.values (environment : Environment) (target : Call) : List (List Instruction) :=
  (target.receiverCode environment).map ([·]) ++
    target.arguments.map (Expression.code environment)

/-- The call instruction of a call. -/
def Call.instruction (environment : Environment) : Call → Instruction
  | .bare name es => bareCall environment name es.length
  | .qualified owner name es => qualifiedCall environment owner name es.length

section Calls

variable {environment : Environment}

theorem Expression.listCode_eq_flatten (es : List Expression) :
    Expression.listCode environment es = (es.map (Expression.code environment)).flatten := by
  induction es with
  | nil => rfl
  | cons e es ih => simp [Expression.listCode, ih]

theorem flatten_map_singleton (code : List Instruction) : (code.map ([·])).flatten = code := by
  induction code with
  | nil => rfl
  | cons line code ih => simpa using ih

/-- The code of a call is that of its values, and the call instruction. -/
theorem Call.code_eq_values (target : Call) :
    target.code environment = (target.values environment).flatten ++
      [target.instruction environment] := by
  rw [values, List.flatten_append, flatten_map_singleton, ← Expression.listCode_eq_flatten]
  cases target <;> rfl

/-- A call instruction takes as many values as its call passes. -/
theorem Call.instruction_eq (environment : Environment) (target : Call) : ∃ name,
    target.instruction environment = .call name (target.values environment).length := by
  cases target with
  | bare name es =>
    refine ⟨qualifiedName environment.className name, ?_⟩
    simp [instruction, bareCall, values, receiverCode, arguments]
  | qualified owner name es =>
    -- Only a variable in front of the dot is pushed, and is counted as an argument.
    cases known : environment.lookup? owner with
    | none =>
      refine ⟨qualifiedName owner name, ?_⟩
      simp [instruction, qualifiedCall, values, receiverCode, arguments, Environment.push, known]
    | some v =>
      refine ⟨qualifiedName v.type name, ?_⟩
      simp [instruction, qualifiedCall, values, receiverCode, arguments, Environment.push, known]

end Calls

/-! ### Expressions -/

section Expressions

variable {environment : Environment}

theorem Environment.yields_push {name : String} (known : (environment.lookup? name).isSome) :
    Yields (environment.push name) 1 := by
  obtain ⟨v, found⟩ := Option.isSome_iff_exists.mp known
  rw [environment.push_of_lookup? found]
  exact .push

/-- The code of a string of a given length, up to one of its characters. -/
def stringStart (length : Nat) (start : List Char) : List Instruction :=
  .push .constant length :: .newString ::
    start.flatMap fun c => [.push .constant c.toNat, .appendCharacter]

theorem stringStart_concat (length : Nat) (start : List Char) (c : Char) :
    stringStart length (start ++ [c]) =
      (stringStart length start ++ [.push .constant c.toNat]) ++ [.appendCharacter] := by
  simp [stringStart]

theorem yields_stringStart (length : Nat) (start : List Char) :
    Yields (stringStart length start) 1 := by
  -- A character is appended to what is there before it, so the last one is taken off first.
  induction start using List.reverseRecOn with
  | nil => exact Yields.call (Yields.push : Yields [.push .constant length] 1)
  | append_singleton start c ih =>
    rw [stringStart_concat]
    exact (ih.append .push).call

theorem ConstantWord.yields (word : ConstantWord) : Yields word.code 1 := by
  cases word with
  | «true» => exact Yields.operate .neg .push
  | «false» | null | this => exact .push

theorem UnaryOperator.yields {code : List Instruction} (operator : UnaryOperator)
    (h : Yields code 1) : Yields (code ++ [operator.instruction]) 1 := by
  cases operator <;> exact h.operate _

theorem yields_operator {code : List Instruction} (operator : BinaryOperator)
    (h : Yields code 2) : Yields (code ++ [operator.instruction]) 1 := by
  cases operator with
  | mul | div => exact h.call
  | add | sub | and | or | lt | gt | eq => exact h.operate _

theorem Call.yields_receiverCode (target : Call) :
    ∀ value ∈ (target.receiverCode environment).map ([·]), Yields value 1 := by
  intro value mem
  cases target with
  | bare name es =>
    obtain rfl : value = [.push .pointer 0] := by simpa [receiverCode] using mem
    exact .push
  | qualified owner name es =>
    cases known : environment.lookup? owner with
    | none => simp [receiverCode, Environment.push, known] at mem
    | some v =>
      obtain rfl : value = [.push v.segment v.index] := by
        simpa [receiverCode, Environment.push, known] using mem
      exact .push

/-- A call takes the values that it passes and leaves one. -/
theorem Call.yields_of_listed {target : Call}
    (listed : ∀ value ∈ target.arguments.map (Expression.code environment), Yields value 1) :
    Yields (target.code environment) 1 := by
  obtain ⟨name, instruction⟩ := target.instruction_eq environment
  rw [Call.code_eq_values, instruction]
  exact (Yields.flatten (List.forall_mem_append.mpr ⟨target.yields_receiverCode, listed⟩)).call

mutual

/-- The code of a term leaves one value. -/
theorem Term.yields : ∀ t : Term, t.Legal environment → Yields (t.code environment) 1
  | .integer _, _ => .push
  | .string contents, _ => yields_stringStart contents.length contents
  | .constant word, _ => word.yields
  | .named _, legal => environment.yields_push (Term.legal_named.mp legal)
  | .element array index, legal => by
    rw [Term.legal_element] at legal
    have address := ((environment.yields_push legal.1).append (index.yields legal.2)).operate .add
    simpa [Term.code] using address.load
  | .call target, legal => target.yields (Term.legal_call.mp legal)
  | .parentheses inner, legal => inner.yields (Term.legal_parentheses.mp legal)
  | .unary operator operand, legal => operator.yields (operand.yields (Term.legal_unary.mp legal))

/-- The code of an expression leaves one value. -/
theorem Expression.yields : ∀ e : Expression, e.Legal environment → Yields (e.code environment) 1
  | .single t, legal => t.yields (Expression.legal_single.mp legal)
  | .binary left operator right, legal => by
    rw [Expression.legal_binary] at legal
    exact yields_operator operator ((left.yields legal.1).append (right.yields legal.2))

/-- The code of a call leaves one value. -/
theorem Call.yields : ∀ target : Call, target.Legal environment →
    Yields (target.code environment) 1
  | .bare _ es, legal =>
    Call.yields_of_listed (Expression.listYields es (Call.legal_iff.mp legal).2)
  | .qualified _ _ es, legal =>
    Call.yields_of_listed (Expression.listYields es (Call.legal_iff.mp legal).2)

theorem Expression.listYields : ∀ es : List Expression, (∀ e ∈ es, e.Legal environment) →
    ∀ value ∈ es.map (Expression.code environment), Yields value 1
  | [], _ => by simp
  | e :: es, legal => by
    rw [List.forall_mem_cons] at legal
    exact List.forall_mem_cons.mpr ⟨e.yields legal.1, Expression.listYields es legal.2⟩

end

/-- Each value that a call passes is one value. -/
theorem Call.yields_values {target : Call} (legal : target.Legal environment) :
    ∀ value ∈ target.values environment, Yields value 1 :=
  List.forall_mem_append.mpr
    ⟨target.yields_receiverCode, Expression.listYields target.arguments (Call.legal_iff.mp legal).2⟩

end Expressions

/-! ### Statements -/

section Statements

variable {environment : Environment}

theorem yields_returnedCode {value : Option Expression}
    (legal : ∀ e ∈ value, e.Legal environment) : Yields (returnedCode environment value) 1 := by
  cases value with
  | none => exact .push
  | some e => exact e.yields (legal e rfl)

mutual

/-- The code of a statement leaves the stack empty. -/
theorem Statement.settles : ∀ (statement : Statement) (number : Nat),
    statement.Legal environment → Settles (statement.code environment number)
  | .assign target value, number, legal => by
    rw [Statement.legal_assign] at legal
    obtain ⟨v, found⟩ := Option.isSome_iff_exists.mp legal.1
    rw [Statement.code, environment.pop_of_lookup? found]
    exact .pop (value.yields legal.2)
  | .assignElement array index value, number, legal => by
    rw [Statement.legal_assignElement] at legal
    -- The address waits on the stack while the value is computed.
    have address := ((environment.yields_push legal.1).append (index.yields legal.2.1)).operate .add
    exact .storeElement (address.append (value.yields legal.2.2))
  | .ifThen condition body, number, legal => by
    rw [Statement.legal_ifThen] at legal
    exact ((Settles.jumpUnless _ (condition.yields legal.1)).append
      (Statement.listSettles body _ legal.2)).append (.label _)
  | .ifElse condition body otherwise, number, legal => by
    rw [Statement.legal_ifElse] at legal
    have first := (Settles.jumpUnless (ifFalseLabel number) (condition.yields legal.1)).append
      (Statement.listSettles body (number + 1) legal.2.1)
    have between := (Settles.goto (ifEndLabel number)).append (.label (ifFalseLabel number))
    exact ((first.append between).append (Statement.listSettles otherwise _ legal.2.2)).append
      (.label _)
  | .loop condition body, number, legal => by
    rw [Statement.legal_loop] at legal
    have first := (Settles.label (whileStartLabel number)).append
      (.jumpUnless (whileEndLabel number) (condition.yields legal.1))
    have last := (Settles.goto (whileStartLabel number)).append (.label (whileEndLabel number))
    simpa [Statement.code] using
      (first.append (Statement.listSettles body (number + 1) legal.2)).append last
  | .discard target, number, legal => .pop (target.yields (Statement.legal_discard.mp legal))
  | .giveBack value, number, legal =>
    .«return» (yields_returnedCode (Statement.legal_giveBack.mp legal))

theorem Statement.listSettles : ∀ (body : List Statement) (number : Nat),
    Statement.BlockLegal environment body → Settles (Statement.listCode environment number body)
  | [], _, _ => .nil
  | statement :: body, number, legal => by
    rw [Statement.blockLegal_iff, List.forall_mem_cons, ← Statement.blockLegal_iff] at legal
    exact (statement.settles number legal.1).append (Statement.listSettles body _ legal.2)

end

theorem settles_prologueCode (kind : SubroutineKind) (fields : Nat) :
    Settles (prologueCode kind fields) := by
  cases kind with
  | constructor => exact .pop (Yields.call (Yields.push : Yields [.push .constant fields] 1))
  | method => exact .pop .push
  | function => exact .nil

/-- The code of a subroutine leaves the stack empty. -/
theorem ClassDeclaration.settles_block {c : ClassDeclaration} {d : SubroutineDeclaration}
    (legal : Statement.BlockLegal (c.environment d) d.body) (number : Nat) :
    Settles (c.block number d).lines :=
  (settles_prologueCode d.kind c.fields).append (Statement.listSettles d.body number legal)

end Statements

end JackCompiler.Grammar
