import JackCompiler.Proofs.Grammar.Code
import JackCompiler.Proofs.Machine.Evaluation

/-!
# Code of expressions, when it runs

Wherever the code of an expression stands in a program, it leaves the value of the expression on
the stack and the memory as the evaluation leaves it. The stack below, the frame and the scratch
word are kept. Only the address of the current array element moves.

## Main definitions

* `Machine.Computes` — code leaves one value on the stack, and a memory

## Main results

* `Expression.pushes` — the code of an expression leaves its value
* `Call.pushes` — the code of a call leaves what the callee answers
-/

namespace JackCompiler

open Machine

variable {program : List Instruction} {routines : Routines} {environment : Environment}
  {s s' middle : State} {code : List Instruction} {values : List Word}

/-- A variable is kept where its segment and index say. -/
theorem Variable.read?_eq (v : Variable) (s : State) :
    s.read? v.segment v.index = some (v.value s.frame s.memory) := by
  obtain ⟨type, kind, index⟩ := v
  cases kind <;> rfl

/-- From a state, the code leaves a value on the stack, with the given memory behind it. -/
def Machine.Computes (program : List Instruction) (routines : Routines) (s : State)
    (code : List Instruction) (result : Word × Memory) : Prop :=
  ∃ s', Pushes program routines s code [result.1] s' ∧ s'.memory = result.2

namespace Grammar

theorem Environment.pushes (routines : Routines) {name : String}
    (known : (environment.lookup? name).isSome)
    (stands : CodeAt program s.line (environment.push name)) :
    Computes program routines s (environment.push name)
      (environment.value s.frame s.memory name, s.memory) := by
  obtain ⟨v, found⟩ := Option.isSome_iff_exists.mp known
  simp only [Environment.push, Environment.value, found, Option.map_some, Option.toList_some,
    Option.getD_some] at stands ⊢
  exact Pushes.push routines stands (v.read?_eq s)

theorem ConstantWord.pushes {word : ConstantWord} (stands : CodeAt program s.line word.code) :
    Computes program routines s word.code (word.value s.frame, s.memory) := by
  cases word with
  | «true» =>
    have both : CodeAt program s.line ([.push .constant 1] ++ [.operate .neg]) := stands
    obtain ⟨s₁, one, same⟩ := Pushes.push routines both.left rfl
    obtain ⟨s₂, negated, same'⟩ := one.unary rfl both
    exact ⟨s₂, negated, same'.trans same⟩
  | «false» | null => exact Pushes.push routines stands rfl
  | this => exact Pushes.push routines stands rfl

/-- Characters are appended to the string on top of the stack. -/
theorem appendAll_pushes {contents : List Char} : ∀ {text : Word} {middle : State}
    {code : List Instruction}, Pushes program routines s code [text] middle →
      CodeAt program s.line (code ++
        contents.flatMap fun c => [.push .constant c.toNat, .appendCharacter]) →
      Computes program routines s (code ++
          contents.flatMap fun c => [.push .constant c.toNat, .appendCharacter])
        (appendAll routines contents text middle.memory) := by
  -- The string of the round before is on top of the stack, so what has run so far is a variable of
  -- the induction.
  induction contents with
  | nil =>
    intro text middle code h _
    exact ⟨middle, by simpa [appendAll] using h, rfl⟩
  | cons c contents ih =>
    intro text middle code h stands
    have here : CodeAt program s.line (code ++ [.push .constant c.toNat] ++ [.appendCharacter] ++
        contents.flatMap fun c => [.push .constant c.toNat, .appendCharacter]) := by
      simpa using stands
    obtain ⟨s₁, pushed, same⟩ := Pushes.push routines (h.codeAt here.left.left) rfl
    obtain ⟨s₂, longer, answered⟩ := (h.trans pushed).call rfl here.left
    obtain ⟨s₃, whole, final⟩ := ih longer here
    rw [answered, same] at final
    refine ⟨s₃, ?_, final⟩
    simpa [appendAll, same, answered, Instruction.appendCharacter] using whole

theorem newString_pushes {contents : List Char}
    (stands : CodeAt program s.line (stringCode contents)) :
    Computes program routines s (stringCode contents)
      (newString routines contents s.memory) := by
  have here : CodeAt program s.line ([.push .constant contents.length] ++ [.newString] ++
      contents.flatMap fun c => [.push .constant c.toNat, .appendCharacter]) := stands
  obtain ⟨s₁, length, same⟩ := Pushes.push routines here.left.left rfl
  obtain ⟨s₂, created, answered⟩ := length.call rfl here.left
  obtain ⟨s₃, whole, final⟩ := appendAll_pushes created here
  rw [answered, same] at whole final
  exact ⟨s₃, whole, final⟩

theorem UnaryOperator.pushes {operator : UnaryOperator} {x : Word}
    (h : Pushes program routines s code [x] middle)
    (stands : CodeAt program s.line (code ++ [operator.instruction])) :
    Computes program routines s (code ++ [operator.instruction])
      (operator.apply x, middle.memory) := by
  cases operator <;> exact h.unary rfl stands

theorem applyOperator_pushes {operator : BinaryOperator} {x y : Word}
    (h : Pushes program routines s code [x, y] middle)
    (stands : CodeAt program s.line (code ++ [operator.instruction])) :
    Computes program routines s (code ++ [operator.instruction])
      (applyOperator routines operator x y middle.memory) := by
  cases operator with
  | mul | div => exact h.call rfl stands
  | add | sub | and | or | lt | gt | eq => exact h.binary rfl stands

@[simp] theorem length_evalList (routines : Routines) (environment : Environment) (frame : Frame)
    (es : List Expression) (memory : Memory) :
    (Expression.evalList routines environment frame es memory).1.length = es.length := by
  induction es generalizing memory with
  | nil => rfl
  | cons e es ih => simp [Expression.evalList, ih]

mutual

theorem Term.pushes : ∀ (t : Term) {s : State}, t.Legal environment →
    CodeAt program s.line (t.code environment) →
    Computes program routines s (t.code environment)
      (t.eval routines environment s.frame s.memory)
  | .integer digits, s, _, stands => Pushes.push routines stands rfl
  | .string contents, s, _, stands => newString_pushes stands
  | .constant word, s, _, stands => ConstantWord.pushes stands
  | .named name, s, legal, stands => Environment.pushes routines (Term.legal_named.mp legal) stands
  | .element array index, s, legal, stands => by
    rw [Term.legal_element] at legal
    -- The address is complete behind the addition. The two lines behind it move to the element and
    -- load it.
    rw [Term.code, show [Instruction.operate .add, .pop .pointer 1, .push .that 0] =
      [.operate .add] ++ [.pop .pointer 1, .push .that 0] from rfl, ← List.append_assoc] at stands ⊢
    obtain ⟨s₁, base, same⟩ := Environment.pushes routines legal.1 stands.left.left.left
    obtain ⟨s₂, offset, moved⟩ := index.pushes legal.2
      (base.codeAt stands.left.left)
    obtain ⟨s₃, address, kept⟩ := (base.trans offset).binary rfl stands.left
    obtain ⟨s₄, loaded, final⟩ := address.load stands
    rw [kept, moved, same, base.frame] at loaded
    exact ⟨s₄, by simpa [Term.eval] using loaded, by
      rw [final, kept, moved, same, base.frame, Term.eval]⟩
  | .call target, s, legal, stands =>
    target.pushes (Term.legal_call.mp legal) stands
  | .parentheses inner, s, legal, stands =>
    inner.pushes (Term.legal_parentheses.mp legal) stands
  | .unary operator operand, s, legal, stands => by
    obtain ⟨s₁, value, moved⟩ := operand.pushes (Term.legal_unary.mp legal) stands.left
    obtain ⟨s₂, applied, kept⟩ := UnaryOperator.pushes value stands
    exact ⟨s₂, applied, kept.trans moved⟩

theorem Expression.pushes : ∀ (e : Expression) {s : State}, e.Legal environment →
    CodeAt program s.line (e.code environment) →
    Computes program routines s (e.code environment)
      (e.eval routines environment s.frame s.memory)
  | .single t, s, legal, stands => t.pushes (Expression.legal_single.mp legal) stands
  | .binary left operator right, s, legal, stands => by
    rw [Expression.legal_binary] at legal
    obtain ⟨s₁, first, moved⟩ := left.pushes legal.1 stands.left.left
    obtain ⟨s₂, second, moved'⟩ := right.pushes legal.2
      (first.codeAt stands.left)
    obtain ⟨s₃, applied, final⟩ := applyOperator_pushes (first.trans second) stands
    rw [moved', moved, first.frame] at applied final
    exact ⟨s₃, applied, final⟩

theorem Call.pushes : ∀ (c : Call) {s : State}, c.Legal environment →
    CodeAt program s.line (c.code environment) →
    Computes program routines s (c.code environment)
      (c.eval routines environment s.frame s.memory)
  | .bare name es, s, legal, stands => by
    have lawful := (Call.legal_iff.mp legal).2
    have here : CodeAt program s.line ([.push .pointer 0] ++
        Expression.listCode environment es ++ [bareCall environment name es.length]) := stands
    obtain ⟨s₁, object, same⟩ := Pushes.push routines here.left.left rfl
    obtain ⟨s₂, listed, moved⟩ := Expression.listPushes es lawful (object.codeAt here.left)
    obtain ⟨s₃, called, final⟩ := (object.trans listed).call (by simp [length_evalList]) here
    rw [moved, same, object.frame] at called final
    exact ⟨s₃, called, final⟩
  | .qualified owner name es, s, legal, stands => by
    have lawful := (Call.legal_iff.mp legal).2
    -- Only a variable in front of the dot is pushed, and is counted as an argument.
    cases known : environment.lookup? owner with
    | some v =>
      have push := Environment.push_of_lookup? known
      have call : qualifiedCall environment owner name es.length =
          .call (qualifiedName v.type name) (es.length + 1) := by
        simp [qualifiedCall, known]
      rw [Call.code, push, call] at stands ⊢
      obtain ⟨s₁, object, same⟩ := Pushes.push routines stands.left.left (v.read?_eq s)
      obtain ⟨s₂, listed, moved⟩ := Expression.listPushes es lawful (object.codeAt stands.left)
      obtain ⟨s₃, called, final⟩ := (object.trans listed).call (by simp [length_evalList]) stands
      rw [moved, same, object.frame] at called final
      simp only [Call.eval, known]
      exact ⟨s₃, called, final⟩
    | none =>
      have push : environment.push owner = [] := by simp [Environment.push, known]
      have call : qualifiedCall environment owner name es.length =
          .call (qualifiedName owner name) es.length := by
        simp [qualifiedCall, known]
      rw [Call.code, push, call, List.nil_append] at stands ⊢
      obtain ⟨s₁, listed, moved⟩ := Expression.listPushes es lawful stands.left
      obtain ⟨s₂, called, final⟩ := listed.call (by simp [length_evalList]) stands
      rw [moved] at called final
      simp only [Call.eval, known]
      exact ⟨s₂, called, final⟩

theorem Expression.listPushes : ∀ (es : List Expression) {s : State},
    (∀ e ∈ es, e.Legal environment) →
    CodeAt program s.line (Expression.listCode environment es) →
    ∃ s', Pushes program routines s (Expression.listCode environment es)
        (Expression.evalList routines environment s.frame es s.memory).1 s' ∧
      s'.memory = (Expression.evalList routines environment s.frame es s.memory).2
  | [], s, _, _ => ⟨s, .refl program routines s, rfl⟩
  | e :: es, s, legal, stands => by
    rw [List.forall_mem_cons] at legal
    obtain ⟨s₁, first, moved⟩ := e.pushes legal.1 stands.left
    obtain ⟨s₂, others, final⟩ := Expression.listPushes es legal.2
      (first.codeAt stands)
    rw [moved, first.frame] at others final
    exact ⟨s₂, first.trans others, final⟩

end

end Grammar

end JackCompiler
