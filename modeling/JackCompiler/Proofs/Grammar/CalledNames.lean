import JackCompiler.Proofs.Grammar.Occurrence
import JackCompiler.Proofs.Token.Spelling
import JackCompiler.Proofs.Vm.InstructionReader

/-!
# The names in code

The names that code calls and begins functions with are made of what the source declares: the name
of a class or the type of a variable, and the name of a subroutine. Labels are made of letters and
numbers. So there is no blank in any name, whatever a source calls its variables and types.

## Main definitions

* `IsIdentifier`, `IsTypeName`, `IsSubroutineName` — names in a source and in code
* `Instruction.WellNamed` — an instruction with the kind of name that it is to have

## Main results

* `Term.wellNamed`, `Statement.wellNamed`, `ClassDeclaration.wellNamed` — code has such names, if
  the tree is made of tokens
-/

namespace JackCompiler

open Grammar

/-- A word that is not reserved. -/
def IsIdentifier (name : String) : Prop :=
  (Terminal.identifier name).Spellable

/-- The name of a class, or one of the keywords that are types of variables. -/
def IsTypeName (name : String) : Prop :=
  IsIdentifier name ∨ name ∈ ["int", "char", "boolean"]

/-- The name of a subroutine to the machine: a type, a dot and an identifier. -/
def IsSubroutineName (name : String) : Prop :=
  ∃ type routine, name = qualifiedName type routine ∧ IsTypeName type ∧ IsIdentifier routine

/-- Functions have names of subroutines, and labels are words. -/
def Instruction.WellNamed : Instruction → Prop
  | .label name | .goto name | .ifGoto name => ∀ c ∈ name.toList, isWordPart c = true
  | .call name _ | .function name _ => IsSubroutineName name
  | .push .. | .pop .. | .operate _ | .«return» => True

theorem IsIdentifier.isWordPart {name : String} (h : IsIdentifier name) :
    ∀ c ∈ name.toList, isWordPart c = true :=
  List.all_eq_true.mp h.2.1

theorem IsTypeName.isWordPart {name : String} (h : IsTypeName name) :
    ∀ c ∈ name.toList, isWordPart c = true := by
  obtain identifier | primitive := h
  · exact identifier.isWordPart
  · simp only [List.mem_cons, List.not_mem_nil, or_false] at primitive
    obtain rfl | rfl | rfl := primitive <;> exact List.all_eq_true.mp (by decide +kernel)

/-- Such names can be read back. -/
theorem Instruction.WellNamed.legible {instruction : Instruction} (h : instruction.WellNamed) :
    instruction.Legible := by
  intro name isName c mem
  cases instruction with
  | push | pop | operate | «return» => cases isName
  | label | goto | ifGoto =>
    cases isName
    exact isPlain_of_isWordPart (h c mem)
  | call | function =>
    cases isName
    obtain ⟨type, routine, rfl, isType, isRoutine⟩ := h
    simp only [qualifiedName, String.toList_append, List.mem_append] at mem
    obtain (inType | dot) | inRoutine := mem
    · exact isPlain_of_isWordPart (isType.isWordPart c inType)
    · obtain rfl := List.mem_singleton.mp dot
      decide
    · exact isPlain_of_isWordPart (isRoutine.isWordPart c inRoutine)

/-! ### Routines and labels -/

theorem IsSubroutineName.of_identifiers {type routine : String} (isType : IsIdentifier type)
    (isRoutine : IsIdentifier routine) : IsSubroutineName (qualifiedName type routine) :=
  ⟨type, routine, rfl, .inl isType, isRoutine⟩

instance (name : String) : Decidable (IsIdentifier name) :=
  inferInstanceAs (Decidable (Terminal.Spellable _))

/-- Routines of the operating system have names as subroutines do. -/
theorem isSubroutineName_routine : ∀ line ∈ [Instruction.multiply, .divide, .allocate, .newString,
    .appendCharacter], line.WellNamed := by
  have named (type routine : String) (isType : IsIdentifier type)
      (isRoutine : IsIdentifier routine) (count : Nat) :
      (Instruction.call (qualifiedName type routine) count).WellNamed :=
    .of_identifiers isType isRoutine
  simp only [List.forall_mem_cons]
  exact ⟨named "Math" "multiply" (by decide) (by decide) 2,
    named "Math" "divide" (by decide) (by decide) 2,
    named "Memory" "alloc" (by decide) (by decide) 1,
    named "String" "new" (by decide) (by decide) 1,
    named "String" "appendChar" (by decide) (by decide) 2, by simp⟩

theorem isWordPart_numbered {letters : String} (word : letters.toList.all isWordPart = true)
    (number : Nat) : ∀ c ∈ (letters ++ toString number).toList, isWordPart c = true := by
  intro c mem
  obtain inLetters | inNumber := List.mem_append.mp (String.toList_append ▸ mem)
  · exact List.all_eq_true.mp word c inLetters
  · have digits : (toString number).toList = Nat.toDigits 10 number := Nat.toList_repr
    rw [digits] at inNumber
    simp [isWordPart, Nat.isDigit_of_mem_toDigits (by decide) (by decide) inNumber]

namespace Grammar

/-- The names that code takes from an environment: that of the class, and the types of variables. -/
structure Environment.WellNamed (environment : Environment) : Prop where
  className : IsIdentifier environment.className
  types : ∀ name v, environment.lookup? name = some v → IsTypeName v.type

/-- All terminals are tokens. -/
def AllSpellable (terminals : List Terminal) : Prop :=
  ∀ t ∈ terminals, t.Spellable

@[simp] theorem allSpellable_nil : AllSpellable [] ↔ True := by
  simp [AllSpellable]

@[simp] theorem allSpellable_append {terminals more : List Terminal} :
    AllSpellable (terminals ++ more) ↔ AllSpellable terminals ∧ AllSpellable more :=
  List.forall_mem_append

@[simp] theorem allSpellable_cons {t : Terminal} {terminals : List Terminal} :
    AllSpellable (t :: terminals) ↔ t.Spellable ∧ AllSpellable terminals :=
  List.forall_mem_cons

theorem AllSpellable.subset {terminals more : List Terminal} (h : AllSpellable terminals)
    (within : more ⊆ terminals) : AllSpellable more :=
  fun t mem => h t (within mem)

section Lines

variable {environment : Environment}

theorem Environment.wellNamed_push (name : String) :
    ∀ line ∈ environment.push name, line.WellNamed := by
  cases found : environment.lookup? name <;> simp [push, found, Instruction.WellNamed]

theorem Environment.wellNamed_pop (name : String) :
    ∀ line ∈ environment.pop name, line.WellNamed := by
  cases found : environment.lookup? name <;> simp [pop, found, Instruction.WellNamed]

theorem wellNamed_stringCode (contents : List Char) :
    ∀ line ∈ stringCode contents, line.WellNamed := by
  intro line mem
  simp only [stringCode, List.mem_cons, List.mem_flatMap, List.not_mem_nil, or_false] at mem
  obtain rfl | rfl | ⟨c, -, rfl | rfl⟩ := mem
  · trivial
  · exact isSubroutineName_routine _ (by simp)
  · trivial
  · exact isSubroutineName_routine _ (by simp)

theorem ConstantWord.wellNamed (word : ConstantWord) : ∀ line ∈ word.code, line.WellNamed := by
  cases word <;> simp [code, Instruction.WellNamed]

theorem wellNamed_operator (operator : BinaryOperator) : operator.instruction.WellNamed := by
  cases operator with
  | mul | div => exact isSubroutineName_routine _ (by simp [BinaryOperator.instruction])
  | add | sub | and | or | lt | gt | eq => trivial

theorem UnaryOperator.wellNamed (operator : UnaryOperator) : operator.instruction.WellNamed := by
  cases operator <;> trivial

/-- A call goes to the class that is named, or to the type of the variable that is. -/
theorem wellNamed_qualifiedCall (names : environment.WellNamed) {owner name : String}
    (isOwner : IsIdentifier owner) (isName : IsIdentifier name) (listed : Nat) :
    (qualifiedCall environment owner name listed).WellNamed := by
  unfold qualifiedCall
  split
  · rename_i v found
    exact ⟨v.type, name, rfl, names.types owner v found, isName⟩
  · exact .of_identifiers isOwner isName

mutual

/-- The code of a term has the names that it is to have. -/
theorem Term.wellNamed (names : environment.WellNamed) : ∀ t : Term, AllSpellable t.terminals →
    ∀ line ∈ t.code environment, line.WellNamed
  | .integer digits, _ => by simp [Term.code, Instruction.WellNamed]
  | .string contents, _ => wellNamed_stringCode contents
  | .constant word, _ => word.wellNamed
  | .named name, _ => environment.wellNamed_push name
  | .element array index, spellable => by
    simp only [Term.terminals, allSpellable_cons, allSpellable_append] at spellable
    simp only [Term.code, List.forall_mem_append]
    exact ⟨⟨environment.wellNamed_push array, index.wellNamed names spellable.1.2.2⟩, by
      simp [Instruction.WellNamed]⟩
  | .call target, spellable => target.wellNamed names spellable
  | .parentheses inner, spellable =>
    inner.wellNamed names (spellable.subset (by simp [Term.terminals, parenthesized]))
  | .unary operator operand, spellable => List.forall_mem_append.mpr
      ⟨operand.wellNamed names (allSpellable_cons.mp spellable).2,
        by simpa using operator.wellNamed⟩

/-- The code of an expression has the names that it is to have. -/
theorem Expression.wellNamed (names : environment.WellNamed) : ∀ e : Expression,
    AllSpellable e.terminals → ∀ line ∈ e.code environment, line.WellNamed
  | .single t, spellable => t.wellNamed names spellable
  | .binary left operator right, spellable => by
    simp only [Expression.terminals, allSpellable_append, allSpellable_cons] at spellable
    simp only [Expression.code, List.forall_mem_append]
    exact ⟨⟨left.wellNamed names spellable.1, right.wellNamed names spellable.2.2⟩, by
      simpa using wellNamed_operator operator⟩

/-- The code of a call has the names that it is to have. -/
theorem Call.wellNamed (names : environment.WellNamed) : ∀ target : Call,
    AllSpellable target.terminals → ∀ line ∈ target.code environment, line.WellNamed
  | .bare name es, spellable => by
    have pieces := spellable.subset (Call.subset_terminals (.bare name es))
    simp only [Call.code, List.forall_mem_append, List.forall_mem_cons]
    exact ⟨⟨trivial, Expression.listWellNamed names es pieces⟩, by
      simpa using .of_identifiers names.className (allSpellable_cons.mp spellable).1⟩
  | .qualified owner name es, spellable => by
    have pieces := spellable.subset (Call.subset_terminals (.qualified owner name es))
    simp only [Call.terminals, allSpellable_cons] at spellable
    simp only [Call.code, List.forall_mem_append]
    exact ⟨⟨environment.wellNamed_push owner, Expression.listWellNamed names es pieces⟩, by
      simpa using wellNamed_qualifiedCall names spellable.1 spellable.2.2.1 _⟩

theorem Expression.listWellNamed (names : environment.WellNamed) : ∀ es : List Expression,
    AllSpellable (Expression.pieces es).flatten →
    ∀ line ∈ Expression.listCode environment es, line.WellNamed
  | [], _ => by simp [Expression.listCode]
  | e :: es, spellable => by
    simp only [Expression.pieces, List.flatten_cons, allSpellable_append] at spellable
    exact List.forall_mem_append.mpr
      ⟨e.wellNamed names spellable.1, Expression.listWellNamed names es spellable.2⟩

end

theorem wellNamed_returnedCode (names : environment.WellNamed) (value : Option Expression)
    (spellable : AllSpellable (returnedTerminals value)) :
    ∀ line ∈ returnedCode environment value, line.WellNamed := by
  cases value with
  | none => simp [returnedCode, Instruction.WellNamed]
  | some e => exact e.wellNamed names spellable

theorem wellNamed_labels (number : Nat) : ∀ name ∈ [ifFalseLabel number, ifEndLabel number,
    whileStartLabel number, whileEndLabel number], ∀ c ∈ name.toList, isWordPart c = true := by
  simp only [List.forall_mem_cons]
  exact ⟨isWordPart_numbered (by decide) number, isWordPart_numbered (by decide) number,
    isWordPart_numbered (by decide) number, isWordPart_numbered (by decide) number, by simp⟩

mutual

/-- The code of a statement has the names that it is to have. -/
theorem Statement.wellNamed (names : environment.WellNamed) :
    ∀ (statement : Statement) (number : Nat), AllSpellable statement.terminals →
    ∀ line ∈ statement.code environment number, line.WellNamed
  | .assign target value, number, spellable => by
    simp only [Statement.terminals, allSpellable_cons, allSpellable_append] at spellable
    simp only [Statement.code, List.forall_mem_append]
    exact ⟨value.wellNamed names spellable.1.2.2.2, environment.wellNamed_pop target⟩
  | .assignElement array index value, number, spellable => by
    simp only [Statement.terminals, allSpellable_cons, allSpellable_append] at spellable
    simp only [Statement.code, List.forall_mem_append, List.forall_mem_cons]
    exact ⟨⟨⟨⟨environment.wellNamed_push array, index.wellNamed names spellable.1.1.2.2.2⟩,
      trivial, by simp⟩, value.wellNamed names spellable.1.2.2.2⟩, trivial, trivial, trivial,
      trivial, by simp⟩
  | .ifThen condition body, number, spellable => by
    have skips := (List.forall_mem_cons.mp (wellNamed_labels number)).1
    simp only [Statement.terminals, parenthesized, braced, allSpellable_cons, allSpellable_append]
      at spellable
    simp only [Statement.code, List.forall_mem_append, List.forall_mem_cons]
    exact ⟨⟨⟨condition.wellNamed names spellable.1.2.1.2, trivial, skips, by simp⟩,
      Statement.listWellNamed names body _ spellable.2.1.2⟩, skips, by simp⟩
  | .ifElse condition body otherwise, number, spellable => by
    have labels := wellNamed_labels number
    simp only [List.forall_mem_cons] at labels
    obtain ⟨skips, ends, -⟩ := labels
    simp only [Statement.terminals, parenthesized, braced, allSpellable_cons, allSpellable_append]
      at spellable
    simp only [Statement.code, List.forall_mem_append, List.forall_mem_cons]
    exact ⟨⟨⟨⟨⟨condition.wellNamed names spellable.1.1.2.1.2, trivial, skips, by simp⟩,
      Statement.listWellNamed names body _ spellable.1.2.1.2⟩, ends, skips, by simp⟩,
      Statement.listWellNamed names otherwise _ spellable.2.2.1.2⟩, ends, by simp⟩
  | .loop condition body, number, spellable => by
    have labels := wellNamed_labels number
    simp only [List.forall_mem_cons] at labels
    obtain ⟨-, -, starts, ends, -⟩ := labels
    simp only [Statement.terminals, parenthesized, braced, allSpellable_cons, allSpellable_append]
      at spellable
    simp only [Statement.code, List.forall_mem_append, List.forall_mem_cons]
    exact ⟨⟨⟨⟨starts, condition.wellNamed names spellable.1.2.1.2⟩, trivial, ends, by simp⟩,
      Statement.listWellNamed names body _ spellable.2.1.2⟩, starts, ends, by simp⟩
  | .discard target, number, spellable => by
    simp only [Statement.terminals, allSpellable_cons, allSpellable_append] at spellable
    simp only [Statement.code, List.forall_mem_append, List.forall_mem_cons]
    exact ⟨target.wellNamed names spellable.1.2, trivial, by simp⟩
  | .giveBack value, number, spellable => by
    simp only [Statement.terminals, allSpellable_cons, allSpellable_append] at spellable
    simp only [Statement.code, List.forall_mem_append, List.forall_mem_cons]
    exact ⟨wellNamed_returnedCode names value spellable.1.2, trivial, by simp⟩

theorem Statement.listWellNamed (names : environment.WellNamed) :
    ∀ (body : List Statement) (number : Nat), AllSpellable (Statement.blockTerminals body) →
    ∀ line ∈ Statement.listCode environment number body, line.WellNamed
  | [], number, _ => by simp [Statement.listCode]
  | statement :: body, number, spellable => by
    simp only [Statement.blockTerminals, allSpellable_append] at spellable
    exact List.forall_mem_append.mpr ⟨statement.wellNamed names number spellable.1,
      Statement.listWellNamed names body _ spellable.2⟩

end

end Lines

/-! ### Declarations -/

theorem TypeName.isTypeName {type : TypeName} (spellable : type.terminal.Spellable) :
    IsTypeName type.text := by
  cases type with
  | named => exact .inl spellable
  | int | char | boolean => exact .inr (by decide)

/-- A variable has the type of a declaration. -/
theorem exists_type_of_latest? {name : String} {v : Variable} {declarations : List Declaration}
    (found : latest? name declarations = some v) : ∃ d ∈ declarations, d.type = v.type := by
  induction declarations with
  | nil => cases found
  | cons declaration earlier ih =>
    rw [latest?] at found
    split at found
    · obtain rfl := Option.some.inj found
      exact ⟨declaration, by simp, rfl⟩
    · obtain ⟨d, mem, same⟩ := ih found
      exact ⟨d, List.mem_cons_of_mem _ mem, same⟩

theorem VariableList.isTypeName_declarations {list : VariableList} {kind : VariableKind}
    (spellable : AllSpellable list.terminals) :
    ∀ d ∈ list.declarations kind, IsTypeName d.type := by
  simp only [terminals, allSpellable_cons, List.cons_append] at spellable
  intro d mem
  obtain ⟨name, -, rfl⟩ := List.mem_map.mp mem
  exact TypeName.isTypeName spellable.1

theorem SubroutineDeclaration.isTypeName_declarations {d : SubroutineDeclaration}
    {className : String} (ofClass : IsIdentifier className) (spellable : AllSpellable d.terminals) :
    ∀ declared ∈ d.declarations className, IsTypeName declared.type := by
  simp only [terminals, parenthesized, braced, List.cons_append, List.append_assoc,
    allSpellable_cons, allSpellable_append] at spellable
  obtain ⟨-, -, -, -, parameters, -, -, -, locals, -⟩ := spellable
  have pieces := parameters.subset (subset_commaSeparated _)
  simp only [declarations, arguments, localVariables, List.forall_mem_append]
  refine ⟨⟨?_, fun declared mem => ?_⟩, fun declared mem => ?_⟩
  · split
    · simpa [receiver] using .inl ofClass
    · simp
  · obtain ⟨parameter, isParameter, rfl⟩ := List.mem_map.mp mem
    refine TypeName.isTypeName (pieces _ (List.mem_flatten.mpr
      ⟨parameter.terminals, List.mem_map_of_mem isParameter, ?_⟩))
    simp [Parameter.terminals]
  · obtain ⟨list, isList, inList⟩ := List.mem_flatMap.mp mem
    refine VariableList.isTypeName_declarations (locals.subset fun t isTerminal => ?_) declared
      inList
    exact List.mem_flatMap.mpr ⟨list, isList, List.mem_cons_of_mem _ isTerminal⟩

namespace ClassDeclaration

variable {c : ClassDeclaration} {d : SubroutineDeclaration}

theorem isTypeName_declarations (spellable : AllSpellable c.terminals) :
    ∀ declared ∈ c.declarations, IsTypeName declared.type := by
  intro declared mem
  obtain ⟨group, isPart, inList⟩ := List.mem_flatMap.mp mem
  refine VariableList.isTypeName_declarations (spellable.subset fun t isTerminal => ?_) declared
    inList
  have inVariables : t ∈ c.classVariables.flatMap ClassVariables.terminals :=
    List.mem_flatMap.mpr ⟨group, isPart, List.mem_cons_of_mem _ isTerminal⟩
  simp only [terminals, braced, List.mem_append, List.mem_cons, inVariables, true_or, or_true]

theorem allSpellable_subroutine (spellable : AllSpellable c.terminals) (mem : d ∈ c.subroutines) :
    AllSpellable d.terminals := by
  refine spellable.subset fun t isTerminal => ?_
  have inSubroutines : t ∈ c.subroutines.flatMap SubroutineDeclaration.terminals :=
    List.mem_flatMap.mpr ⟨d, mem, isTerminal⟩
  simp only [terminals, braced, List.mem_append, List.mem_cons, inSubroutines, true_or, or_true]

/-- The name of a class and the types of its variables are names of types. -/
theorem wellNamed_environment (spellable : AllSpellable c.terminals) (mem : d ∈ c.subroutines) :
    (c.environment d).WellNamed where
  className := (allSpellable_cons.mp (allSpellable_cons.mp spellable).2).1
  types name v found := by
    have ofClass : IsIdentifier c.name :=
      (allSpellable_cons.mp (allSpellable_cons.mp spellable).2).1
    obtain inSubroutine | ⟨-, inClass⟩ := Option.or_eq_some_iff.mp found
    · obtain ⟨declared, isPart, same⟩ := exists_type_of_latest? inSubroutine
      exact same ▸ SubroutineDeclaration.isTypeName_declarations ofClass
        (allSpellable_subroutine spellable mem) declared (List.mem_reverse.mp isPart)
    · obtain ⟨declared, isPart, same⟩ := exists_type_of_latest? inClass
      exact same ▸ isTypeName_declarations spellable declared (List.mem_reverse.mp isPart)

theorem wellNamed_subroutineCode (spellable : AllSpellable c.terminals) (mem : d ∈ c.subroutines)
    (number : Nat) : ∀ line ∈ c.subroutineCode number d, line.WellNamed := by
  have names := wellNamed_environment spellable mem
  have parts := allSpellable_subroutine spellable mem
  simp only [SubroutineDeclaration.terminals, parenthesized, braced, List.cons_append,
    List.append_assoc, allSpellable_cons, allSpellable_append] at parts
  obtain ⟨-, -, isName, -, -, -, -, -, -, body, -⟩ := parts
  simp only [subroutineCode, List.forall_mem_append, List.forall_mem_cons]
  refine ⟨⟨.of_identifiers names.className isName, ?_⟩,
    Statement.listWellNamed names d.body number body⟩
  cases d.kind with
  | function => simp [prologueCode]
  | method => simp [prologueCode, Instruction.WellNamed]
  | constructor =>
    simp only [prologueCode, List.forall_mem_cons]
    exact ⟨trivial, isSubroutineName_routine _ (by simp), trivial, by simp⟩

/-- **The code of a class that is made of tokens has the names that it is to have.** -/
theorem wellNamed (spellable : AllSpellable c.terminals) : ∀ line ∈ c.code, line.WellNamed := by
  suffices ∀ number, ∀ subroutines ⊆ c.subroutines,
      ∀ line ∈ c.codeFrom number subroutines, line.WellNamed from
    this 0 c.subroutines (List.Subset.refl _)
  intro number subroutines within
  induction subroutines generalizing number with
  | nil => simp [codeFrom]
  | cons d rest ih =>
    rw [List.cons_subset] at within
    exact List.forall_mem_append.mpr
      ⟨wellNamed_subroutineCode spellable within.1 number, ih _ within.2⟩

end ClassDeclaration

end Grammar

end JackCompiler
