import JackCompiler.Proofs.Grammar.Lines
import JackCompiler.Proofs.Grammar.Occurrence
import JackCompiler.Proofs.Token.Scanning

/-!
# The constants that code pushes

Code pushes constants for the constants of the source, for the lengths and the characters of its
strings, for returns without a value, and for the sizes of objects. The first three are within the
range of integer constants in every class that obeys the rules. Nothing but the number of variables
that an instruction can address limits the size of an object.

## Main definitions

* `constantsOf` — the constants that code pushes
* `Term.constants`, `Statement.constants` — those of a term and a statement, without what is inside

## Main results

* `ClassDeclaration.constantsOf_code` — where the constants of a class come from
* `ClassDeclaration.constants_le_iff` — when all of them are in range
-/

namespace JackCompiler

/-- The number that an instruction pushes as a constant. -/
def Instruction.constant? : Instruction → Option Nat
  | .push .constant n => some n
  | _ => none

/-- The constants that code pushes, in order. -/
def constantsOf (code : List Instruction) : List Nat :=
  code.filterMap Instruction.constant?

@[simp] theorem constantsOf_nil : constantsOf [] = [] := rfl

@[simp] theorem constantsOf_append (code more : List Instruction) :
    constantsOf (code ++ more) = constantsOf code ++ constantsOf more :=
  List.filterMap_append

theorem constantsOf_cons (line : Instruction) (code : List Instruction) :
    constantsOf (line :: code) = line.constant?.toList ++ constantsOf code := by
  cases h : line.constant? <;> simp [constantsOf, h]

theorem mem_constantsOf {n : Nat} {code : List Instruction} :
    n ∈ constantsOf code ↔ .push .constant n ∈ code := by
  rw [constantsOf, List.mem_filterMap]
  constructor
  · rintro ⟨line, mem, pushes⟩
    unfold Instruction.constant? at pushes
    split at pushes
    · cases pushes
      exact mem
    · cases pushes
  · exact fun mem => ⟨_, mem, rfl⟩

namespace Grammar

/-- The constant of a keyword. The object that a method is called on is not one. -/
def ConstantWord.constants : ConstantWord → List Nat
  | .«true» => [1]
  | .«false» | .null => [0]
  | .this => []

/-- The constants of a term, not counting those of the terms inside it. -/
def Term.constants : Term → List Nat
  | .integer digits => [(decimalValue? digits.toList).getD 0]
  | .string contents => contents.length :: contents.map Char.toNat
  | .constant word => word.constants
  | _ => []

/-- The constants of a statement, not counting those of its blocks. A `return` without a value
returns zero. -/
def Statement.constants (statement : Statement) : List Nat :=
  statement.terms.flatMap Term.constants ++
    match statement with
    | .giveBack none => [0]
    | _ => []

/-- The size of the objects that a constructor of a class allocates. -/
def ClassDeclaration.allocated (c : ClassDeclaration) (d : SubroutineDeclaration) : List Nat :=
  if d.kind = .constructor then [c.fields] else []

/-! ### Where constants come from -/

section Code

variable {environment : Environment}

theorem Environment.constantsOf_push (name : String) :
    constantsOf (environment.push name) = [] := by
  cases found : environment.lookup? name with
  | none => simp [Environment.push, found]
  | some v =>
    -- No segment of variables is the segment of constants.
    cases kind : v.kind <;> simp [Environment.push, found, constantsOf, Instruction.constant?,
      Variable.segment, VariableKind.segment, kind]

theorem Environment.constantsOf_pop (name : String) : constantsOf (environment.pop name) = [] := by
  cases found : environment.lookup? name <;>
    simp [Environment.pop, found, constantsOf, Instruction.constant?]

theorem constantsOf_stringCode (contents : List Char) :
    constantsOf (stringCode contents) = contents.length :: contents.map Char.toNat := by
  have characters : constantsOf (contents.flatMap fun c =>
      [.push .constant c.toNat, .appendCharacter]) = contents.map Char.toNat := by
    induction contents with
    | nil => rfl
    | cons c contents ih => rw [List.flatMap_cons, constantsOf_append, ih]; rfl
  rw [stringCode, constantsOf_cons, constantsOf_cons, characters]
  rfl

theorem ConstantWord.constantsOf_code (word : ConstantWord) :
    constantsOf word.code = word.constants := by
  cases word <;> rfl

theorem UnaryOperator.constantsOf_instruction (operator : UnaryOperator) :
    constantsOf [operator.instruction] = [] := by
  cases operator <;> rfl

theorem constantsOf_operator (operator : BinaryOperator) :
    constantsOf [operator.instruction] = [] := by
  cases operator <;> rfl

theorem constantsOf_qualifiedCall (owner name : String) (listed : Nat) :
    constantsOf [qualifiedCall environment owner name listed] = [] := by
  unfold qualifiedCall
  split <;> rfl

mutual

/-- The code of a term pushes the constants of all terms inside it. -/
theorem Term.constantsOf_code : ∀ t : Term,
    constantsOf (t.code environment) = t.subterms.flatMap Term.constants
  | .integer _ => rfl
  | .string contents => by
    simpa [Term.code, Term.constants] using constantsOf_stringCode contents
  | .constant word => by simpa [Term.code, Term.constants] using word.constantsOf_code
  | .named name => by
    simpa [Term.code, Term.constants] using environment.constantsOf_push name
  | .element array index => by
    rw [Term.code, constantsOf_append, constantsOf_append, environment.constantsOf_push,
      index.constantsOf_code]
    simp [Term.constants, constantsOf, Instruction.constant?]
  | .call target => target.constantsOf_code
  | .parentheses inner => inner.constantsOf_code
  | .unary operator operand => by
    rw [Term.code, constantsOf_append, operator.constantsOf_instruction, operand.constantsOf_code]
    simp [Term.constants]

/-- The code of an expression pushes the constants of all its terms. -/
theorem Expression.constantsOf_code : ∀ e : Expression,
    constantsOf (e.code environment) = e.subterms.flatMap Term.constants
  | .single t => t.constantsOf_code
  | .binary left operator right => by
    rw [Expression.code, constantsOf_append, constantsOf_append, constantsOf_operator,
      left.constantsOf_code, right.constantsOf_code]
    simp

/-- The code of a call pushes the constants of its arguments. -/
theorem Call.constantsOf_code : ∀ target : Call,
    constantsOf (target.code environment) = target.subterms.flatMap Term.constants
  | .bare name es => by
    rw [Call.code, constantsOf_append, constantsOf_cons, Expression.constantsOf_listCode es]
    simp [constantsOf, Instruction.constant?, bareCall]
  | .qualified owner name es => by
    rw [Call.code, constantsOf_append, constantsOf_append, constantsOf_qualifiedCall,
      environment.constantsOf_push, Expression.constantsOf_listCode es]
    simp

theorem Expression.constantsOf_listCode : ∀ es : List Expression,
    constantsOf (Expression.listCode environment es) =
      (Expression.listSubterms es).flatMap Term.constants
  | [] => rfl
  | e :: es => by
    rw [Expression.listCode, constantsOf_append, e.constantsOf_code,
      Expression.constantsOf_listCode es, Expression.listSubterms, List.flatMap_append]

end

mutual

/-- The code of a statement pushes the constants of all statements inside it. -/
theorem Statement.constantsOf_code : ∀ (statement : Statement) (number : Nat),
    constantsOf (statement.code environment number) =
      statement.substatements.flatMap Statement.constants
  | .assign target value, number => by
    rw [Statement.code, constantsOf_append, environment.constantsOf_pop, value.constantsOf_code]
    simp [Statement.constants, Statement.terms, Statement.expressions]
  | .assignElement array index value, number => by
    simp only [Statement.code, constantsOf_append, environment.constantsOf_push,
      index.constantsOf_code, value.constantsOf_code]
    simp [Statement.constants, Statement.terms, Statement.expressions, constantsOf_cons,
      Instruction.constant?]
  | .ifThen condition body, number => by
    simp only [Statement.code, constantsOf_append, condition.constantsOf_code,
      Statement.constantsOf_listCode body]
    simp [Statement.constants, Statement.terms, Statement.expressions, constantsOf_cons,
      Instruction.constant?]
  | .ifElse condition body otherwise, number => by
    simp only [Statement.code, constantsOf_append, condition.constantsOf_code,
      Statement.constantsOf_listCode body, Statement.constantsOf_listCode otherwise]
    simp [Statement.constants, Statement.terms, Statement.expressions, constantsOf_cons,
      Instruction.constant?]
  | .loop condition body, number => by
    simp only [Statement.code, constantsOf_append, constantsOf_cons, condition.constantsOf_code,
      Statement.constantsOf_listCode body]
    simp [Statement.constants, Statement.terms, Statement.expressions, Instruction.constant?]
  | .discard target, number => by
    rw [Statement.code, constantsOf_append, target.constantsOf_code]
    simp [Statement.constants, Statement.terms, Statement.expressions, constantsOf_cons,
      Instruction.constant?]
  | .giveBack none, number => rfl
  | .giveBack (some value), number => by
    rw [Statement.code, constantsOf_append, returnedCode, value.constantsOf_code]
    simp [Statement.constants, Statement.terms, Statement.expressions, constantsOf_cons,
      Instruction.constant?]

theorem Statement.constantsOf_listCode : ∀ (body : List Statement) (number : Nat),
    constantsOf (Statement.listCode environment number body) =
      (Statement.listSubstatements body).flatMap Statement.constants
  | [], _ => rfl
  | statement :: body, number => by
    rw [Statement.listCode, constantsOf_append, statement.constantsOf_code,
      Statement.constantsOf_listCode body, Statement.listSubstatements, List.flatMap_append]

end

end Code

theorem ClassDeclaration.constantsOf_subroutineCode (c : ClassDeclaration) (number : Nat)
    (d : SubroutineDeclaration) : constantsOf (c.subroutineCode number d) =
      c.allocated d ++ d.statements.flatMap Statement.constants := by
  have prologue : constantsOf (prologueCode d.kind c.fields) = c.allocated d := by
    cases kind : d.kind <;> simp [prologueCode, allocated, kind, constantsOf,
      Instruction.constant?, Instruction.allocate]
  rw [subroutineCode, constantsOf_append, constantsOf_cons, prologue,
    Statement.constantsOf_listCode, SubroutineDeclaration.statements]
  rfl

/-- The constants of a class are the sizes of the objects that its constructors allocate, and the
constants of its statements. -/
theorem ClassDeclaration.constantsOf_code (c : ClassDeclaration) :
    constantsOf c.code = c.subroutines.flatMap fun d =>
      c.allocated d ++ d.statements.flatMap Statement.constants := by
  have fromAny (number : Nat) (ds : List SubroutineDeclaration) :
      constantsOf (c.codeFrom number ds) =
        ds.flatMap fun d => c.allocated d ++ d.statements.flatMap Statement.constants := by
    induction ds generalizing number with
    | nil => rfl
    | cons d ds ih =>
      rw [codeFrom, constantsOf_append, c.constantsOf_subroutineCode, ih, List.flatMap_cons]
  exact fromAny 0 c.subroutines

/-! ### Which constants are in range -/

/-- Strings hold no character outside ASCII. -/
def StringsAscii (terminals : List Terminal) : Prop :=
  ∀ contents, .string contents ∈ terminals → ∀ c ∈ contents, isAscii c = true

theorem toNat_le_of_isAscii {c : Char} (ascii : isAscii c = true) : c.toNat ≤ maxInteger := by
  have small : c.toNat < 128 := UInt32.lt_iff_toNat_lt.mp (of_decide_eq_true ascii)
  exact Nat.le_trans (Nat.le_of_lt small) (by decide)

/-- The value of a number is never out of range. -/
theorem le_of_decimalValue? {digits : List Char} {value : Nat}
    (h : decimalValue? digits = some value) : value ≤ maxInteger := by
  rw [decimalValue?_eq] at h
  split at h
  · cases h
    assumption
  · cases h

theorem Term.constants_le {environment : Environment} {t : Term} (obeys : t.Obeys environment)
    (ascii : StringsAscii t.terminals) : ∀ n ∈ t.constants, n ≤ maxInteger := by
  intro n mem
  cases t with
  | integer digits =>
    obtain rfl := List.mem_singleton.mp mem
    cases value : decimalValue? digits.toList with
    | none => exact Nat.zero_le _
    | some value' => exact le_of_decimalValue? value
  | string contents =>
    obtain rfl | mem := List.mem_cons.mp mem
    · exact obeys.short contents rfl
    · obtain ⟨c, isPart, rfl⟩ := List.mem_map.mp mem
      exact toNat_le_of_isAscii (ascii contents (by simp [Term.terminals]) c isPart)
  | constant word =>
    cases word <;> simp_all [Term.constants, ConstantWord.constants, maxInteger]
  | named | element | call | parentheses | unary => simp [Term.constants] at mem

/-- The constants of statements that obey the rules are in range. -/
theorem Statement.constants_le {environment : Environment} {statement : Statement}
    (obeys : statement.Obeys environment) (ascii : StringsAscii statement.terminals) :
    ∀ n ∈ statement.constants, n ≤ maxInteger := by
  intro n mem
  obtain mem | mem := List.mem_append.mp mem
  · obtain ⟨t, isTerm, mem⟩ := List.mem_flatMap.mp mem
    exact Term.constants_le (obeys.terms t isTerm)
      (fun contents inside => ascii contents (Statement.terms_subset isTerm inside)) n mem
  · split at mem
    · obtain rfl := List.mem_singleton.mp mem
      exact Nat.zero_le _
    · cases mem

theorem SubroutineDeclaration.constants_le {c : ClassDeclaration} {d : SubroutineDeclaration}
    (admitted : c.Admits d) (ascii : StringsAscii d.terminals) :
    ∀ n ∈ d.statements.flatMap Statement.constants, n ≤ maxInteger := by
  intro n mem
  obtain ⟨statement, isPart, mem⟩ := List.mem_flatMap.mp mem
  refine Statement.constants_le (admitted.body statement isPart) (fun contents inside => ?_) n mem
  have inBody := Statement.blockTerminals_subset d.body isPart inside
  refine ascii contents ?_
  simp only [SubroutineDeclaration.terminals, braced, List.mem_append, List.mem_cons, inBody,
    true_or, or_true]

/-- **Constants are in range unless an object is too large.** All constants that the code of a class
pushes are integer constants if and only if the class has no constructor or not too many fields. -/
theorem ClassDeclaration.constants_le_iff {c : ClassDeclaration} (lawful : c.Lawful)
    (ascii : StringsAscii c.terminals) : (∀ n ∈ constantsOf c.code, n ≤ maxInteger) ↔
      ∀ d ∈ c.subroutines, d.kind = .constructor → c.fields ≤ maxInteger := by
  rw [c.constantsOf_code]
  constructor
  · intro small d mem kind
    refine small c.fields (List.mem_flatMap.mpr ⟨d, mem, List.mem_append_left _ ?_⟩)
    simp [allocated, kind]
  · intro few n mem
    obtain ⟨d, isSub, isConstant⟩ := List.mem_flatMap.mp mem
    obtain isSize | inStatement := List.mem_append.mp isConstant
    · rw [allocated] at isSize
      split at isSize
      · obtain rfl := List.mem_singleton.mp isSize
        exact few d isSub ‹_›
      · cases isSize
    · refine SubroutineDeclaration.constants_le (lawful.subroutines d isSub)
        (fun contents inside => ascii contents ?_) n inStatement
      have inClass : .string contents ∈ c.subroutines.flatMap SubroutineDeclaration.terminals :=
        List.mem_flatMap.mpr ⟨d, isSub, inside⟩
      simp only [terminals, braced, List.mem_append, List.mem_cons, inClass, true_or, or_true]

end Grammar

end JackCompiler
