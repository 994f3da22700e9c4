import JackCompiler.Proofs.Grammar.Unambiguity
import JackCompiler.Proofs.Grammar.Violation

/-!
# Where values are missing

A subroutine with a declared type promises a value. Each of its return statements without a value
breaks the promise, at any depth in blocks. The place of such a statement is its semicolon, which
is given by the number of tokens from it up to the end of the class. It can also be found without
the tree: it is where a semicolon stands right behind the keyword `return`.

## Main definitions

* `Statement.bareReturns` — the places of the return statements without a value
* `MissingValue`, `ClassDeclaration.missingValues` — those that break a promise, and what it is
* `bareReturnPlaces` — the same places in a list of tokens

## Main results

* `Statement.bareReturnPlaces_terminals` — the places in a tree are those in its tokens
* `ClassDeclaration.pairwise_missingValues` — they are listed from left to right
-/

namespace JackCompiler.Grammar

mutual

/-- The places of the return statements without a value, in front of the given tokens. -/
def Statement.bareReturns (rest : List Terminal) : Statement → List Nat
  | .assign .. | .assignElement .. | .discard _ | .giveBack (some _) => []
  | .giveBack none => [rest.length + 1]
  | .ifThen _ body | .loop _ body =>
    Statement.listBareReturns (.symbol closingBrace :: rest) body
  | .ifElse _ body otherwise =>
    Statement.listBareReturns (.symbol closingBrace ::
        .keyword .«else» :: (braced (Statement.blockTerminals otherwise) ++ rest)) body ++
      Statement.listBareReturns (.symbol closingBrace :: rest) otherwise

/-- The places of the return statements without a value in several statements. -/
def Statement.listBareReturns (rest : List Terminal) : List Statement → List Nat
  | [] => []
  | statement :: others =>
    statement.bareReturns (Statement.blockTerminals others ++ rest) ++
      Statement.listBareReturns rest others

end

/-- A subroutine returns without the value that it promises. -/
structure MissingValue where
  subroutine : String
  /-- The type that the subroutine declares. -/
  type : String
  /-- The number of tokens from the semicolon of the statement up to the end of the class. -/
  left : Nat
deriving DecidableEq, Repr, Inhabited

/-- What is missing in a subroutine with the given type where nothing is returned. -/
def missingIn (name : String) : Option TypeName → List Nat → List MissingValue
  | none, _ => []
  | some type, places => places.map fun left => { subroutine := name, type := type.text, left }

@[simp] theorem missingIn_nil (name : String) (type : Option TypeName) :
    missingIn name type [] = [] := by
  cases type <;> rfl

theorem missingIn_append (name : String) (type : Option TypeName) (places others : List Nat) :
    missingIn name type (places ++ others) =
      missingIn name type places ++ missingIn name type others := by
  cases type with
  | none => rfl
  | some type => exact List.map_append

/-- The values that are missing in a subroutine, in front of the given tokens. -/
def SubroutineDeclaration.missingValues (d : SubroutineDeclaration) (rest : List Terminal) :
    List MissingValue :=
  missingIn d.name d.returnType (Statement.listBareReturns (.symbol closingBrace :: rest) d.body)

/-- The values that are missing in a class, from left to right. -/
def ClassDeclaration.missingValues (c : ClassDeclaration) : List MissingValue :=
  inTurn SubroutineDeclaration.terminals SubroutineDeclaration.missingValues c.subroutines
    [.symbol closingBrace]

/-! ### The places in a list of tokens -/

/-- The places where a semicolon stands right behind the keyword `return`. -/
def bareReturnPlaces : List Terminal → List Nat
  | [] => []
  | terminal :: rest =>
    if terminal = .keyword .«return» ∧ rest.head? = some (.symbol ';') then
      rest.length :: bareReturnPlaces rest
    else bareReturnPlaces rest

theorem bareReturnPlaces_cons {terminal : Terminal} (other : terminal ≠ .keyword .«return»)
    (rest : List Terminal) : bareReturnPlaces (terminal :: rest) = bareReturnPlaces rest := by
  rw [bareReturnPlaces, if_neg fun bare => other bare.1]

/-- Without the keyword there are no places. -/
theorem bareReturnPlaces_append {tokens : List Terminal} (free : .keyword .«return» ∉ tokens)
    (rest : List Terminal) : bareReturnPlaces (tokens ++ rest) = bareReturnPlaces rest := by
  induction tokens with
  | nil => rfl
  | cons terminal tokens ih =>
    rw [List.mem_cons, not_or] at free
    obtain ⟨other, free⟩ := free
    rw [List.cons_append, bareReturnPlaces_cons (Ne.symm other), ih free]

theorem lt_length_of_mem_bareReturnPlaces {tokens : List Terminal} :
    ∀ place ∈ bareReturnPlaces tokens, place < tokens.length := by
  induction tokens with
  | nil => simp [bareReturnPlaces]
  | cons terminal rest ih =>
    intro place mem
    rw [bareReturnPlaces] at mem
    split at mem
    · rcases List.mem_cons.mp mem with rfl | mem
      · simp
      · exact Nat.lt_succ_of_lt (ih place mem)
    · exact Nat.lt_succ_of_lt (ih place mem)

/-- Places are found from left to right. -/
theorem pairwise_bareReturnPlaces (tokens : List Terminal) :
    (bareReturnPlaces tokens).Pairwise (· > ·) := by
  induction tokens with
  | nil => exact .nil
  | cons terminal rest ih =>
    rw [bareReturnPlaces]
    split
    · exact .cons lt_length_of_mem_bareReturnPlaces ih
    · exact ih

/-! ### No phrase inside a statement holds the keyword -/

theorem not_mem_commaSeparated {α : Type} {terminals : α → List Terminal} {items : List α}
    (free : ∀ a ∈ items, .keyword .«return» ∉ terminals a) :
    .keyword .«return» ∉ commaSeparated (items.map terminals) := by
  cases items with
  | nil => simp [commaSeparated]
  | cons a items =>
    obtain ⟨first, others⟩ := List.forall_mem_cons.mp free
    simpa [commaSeparated, behindCommas, first] using others

theorem ConstantWord.keyword_ne_return (word : ConstantWord) : word.keyword ≠ .«return» := by
  cases word <;> decide

mutual

theorem Term.return_not_mem : ∀ t : Term, .keyword .«return» ∉ t.terminals
  | .integer _ | .string _ | .named _ => by simp [Term.terminals]
  | .constant word => by simpa [Term.terminals] using word.keyword_ne_return.symm
  | .element _ index => by simpa [Term.terminals] using index.return_not_mem
  | .call target => by simpa [Term.terminals] using target.return_not_mem
  | .parentheses inner => by simpa [Term.terminals, parenthesized] using inner.return_not_mem
  | .unary _ operand => by simpa [Term.terminals] using operand.return_not_mem

theorem Expression.return_not_mem : ∀ e : Expression, .keyword .«return» ∉ e.terminals
  | .single t => by simpa [Expression.terminals] using t.return_not_mem
  | .binary left _ right => by
    simpa [Expression.terminals] using ⟨left.return_not_mem, right.return_not_mem⟩

theorem Call.return_not_mem : ∀ c : Call, .keyword .«return» ∉ c.terminals
  | .bare _ arguments => by
    simpa [Call.terminals, parenthesized] using
      not_mem_commaSeparated (Expression.return_not_mem_list arguments)
  | .qualified _ _ arguments => by
    simpa [Call.terminals, parenthesized] using
      not_mem_commaSeparated (Expression.return_not_mem_list arguments)

theorem Expression.return_not_mem_list : ∀ es : List Expression, ∀ e ∈ es,
    .keyword .«return» ∉ e.terminals
  | [] => by simp
  | e :: es => List.forall_mem_cons.mpr ⟨e.return_not_mem, Expression.return_not_mem_list es⟩

end

/-! ### The places in a tree -/

theorem bareReturnPlaces_braced (inside rest : List Terminal) :
    bareReturnPlaces (braced inside ++ rest) =
      bareReturnPlaces (inside ++ .symbol closingBrace :: rest) := by
  have split : braced inside ++ rest =
      .symbol openingBrace :: (inside ++ .symbol closingBrace :: rest) := by
    simp [braced]
  rw [split, bareReturnPlaces_cons (by simp)]

/-- A condition and the keyword in front of it. -/
theorem bareReturnPlaces_condition {word : Keyword} (other : word ≠ .«return»)
    (condition : Expression) (rest : List Terminal) :
    bareReturnPlaces (.keyword word :: parenthesized condition.terminals ++ rest) =
      bareReturnPlaces rest := by
  refine bareReturnPlaces_append ?_ rest
  simpa [parenthesized, other.symm] using condition.return_not_mem

mutual

/-- **The places in a statement are those in its tokens.** -/
theorem Statement.bareReturnPlaces_terminals : ∀ (statement : Statement) (rest : List Terminal),
    bareReturnPlaces (statement.terminals ++ rest) =
      statement.bareReturns rest ++ bareReturnPlaces rest
  | .assign target value, rest => by
    rw [Statement.bareReturns, List.nil_append, bareReturnPlaces_append]
    simpa [Statement.terminals] using value.return_not_mem
  | .assignElement array index value, rest => by
    rw [Statement.bareReturns, List.nil_append, bareReturnPlaces_append]
    simpa [Statement.terminals] using ⟨index.return_not_mem, value.return_not_mem⟩
  | .ifThen condition body, rest => by
    rw [Statement.bareReturns, Statement.terminals, List.append_assoc,
      bareReturnPlaces_condition (by decide), bareReturnPlaces_braced,
      Statement.bareReturnPlaces_blockTerminals body, bareReturnPlaces_cons (by simp)]
  | .ifElse condition body otherwise, rest => by
    rw [Statement.bareReturns, Statement.terminals, List.append_assoc, List.append_assoc,
      bareReturnPlaces_condition (by decide), bareReturnPlaces_braced,
      Statement.bareReturnPlaces_blockTerminals body, bareReturnPlaces_cons (by simp),
      List.cons_append, bareReturnPlaces_cons (by simp), bareReturnPlaces_braced,
      Statement.bareReturnPlaces_blockTerminals otherwise, bareReturnPlaces_cons (by simp),
      List.append_assoc]
  | .loop condition body, rest => by
    rw [Statement.bareReturns, Statement.terminals, List.append_assoc,
      bareReturnPlaces_condition (by decide), bareReturnPlaces_braced,
      Statement.bareReturnPlaces_blockTerminals body, bareReturnPlaces_cons (by simp)]
  | .discard target, rest => by
    rw [Statement.bareReturns, List.nil_append, bareReturnPlaces_append]
    simpa [Statement.terminals] using target.return_not_mem
  | .giveBack none, rest => by
    simp [Statement.bareReturns, Statement.terminals, returnedTerminals, bareReturnPlaces]
  | .giveBack (some value), rest => by
    -- The value stands between the keyword and the semicolon.
    obtain ⟨first, others, begins, different⟩ := value.starts_ne (c := ';') (by decide)
    have kept : ¬ (value.terminals ++ .symbol ';' :: rest).head? = some (.symbol ';') := by
      simpa [begins] using different
    rw [Statement.bareReturns, Statement.terminals, returnedTerminals, List.append_assoc,
      List.cons_append, List.singleton_append, bareReturnPlaces, if_neg fun bare => kept bare.2,
      bareReturnPlaces_append value.return_not_mem, bareReturnPlaces_cons (by simp),
      List.nil_append]

theorem Statement.bareReturnPlaces_blockTerminals : ∀ (body : List Statement)
    (rest : List Terminal), bareReturnPlaces (Statement.blockTerminals body ++ rest) =
      Statement.listBareReturns rest body ++ bareReturnPlaces rest
  | [], rest => by simp [Statement.listBareReturns]
  | statement :: others, rest => by
    rw [Statement.listBareReturns, Statement.blockTerminals, List.append_assoc,
      statement.bareReturnPlaces_terminals, Statement.bareReturnPlaces_blockTerminals others,
      List.append_assoc]

end

/-! ### The places in a class -/

theorem TypeName.terminal_ne_return (type : TypeName) : .keyword .«return» ≠ type.terminal := by
  cases type <;> simp [TypeName.terminal]

theorem VariableList.return_not_mem (list : VariableList) :
    .keyword .«return» ∉ list.terminals := by
  have names : .keyword .«return» ∉
      commaSeparated (list.names.map fun name => [Terminal.identifier name]) :=
    not_mem_commaSeparated (by simp)
  simp [VariableList.terminals, names, list.type.terminal_ne_return]

/-- The places in a subroutine are those in its body. -/
theorem SubroutineDeclaration.bareReturnPlaces_terminals (d : SubroutineDeclaration)
    (rest : List Terminal) : bareReturnPlaces (d.terminals ++ rest) =
      Statement.listBareReturns (.symbol closingBrace :: rest) d.body ++
        bareReturnPlaces rest := by
  have parameters : .keyword .«return» ∉ commaSeparated (d.parameters.map Parameter.terminals) :=
    not_mem_commaSeparated fun p _ => by simp [Parameter.terminals, p.type.terminal_ne_return]
  have free : .keyword .«return» ∉ .keyword (kindKeyword d.kind) ::
      returnTypeTerminal d.returnType :: .identifier d.name ::
        parenthesized (commaSeparated (d.parameters.map Parameter.terminals)) := by
    have word : kindKeyword d.kind ≠ .«return» := by cases d.kind <;> decide
    have type : .keyword .«return» ≠ returnTypeTerminal d.returnType := by
      cases d.returnType with
      | none => simp [returnTypeTerminal]
      | some type => exact type.terminal_ne_return
    simp [parenthesized, parameters, word.symm, type]
  have declared : .keyword .«return» ∉ d.locals.flatMap localTerminals := by
    simp [localTerminals, VariableList.return_not_mem]
  rw [SubroutineDeclaration.terminals, List.append_assoc, bareReturnPlaces_append free,
    bareReturnPlaces_braced, List.append_assoc, bareReturnPlaces_append declared,
    Statement.bareReturnPlaces_blockTerminals, bareReturnPlaces_cons (by simp)]

/-- Nothing is missing where no return statement is without a value. -/
theorem map_left_missingIn_sublist (name : String) (type : Option TypeName) (places : List Nat) :
    ((missingIn name type places).map MissingValue.left).Sublist places := by
  cases type with
  | none => simp [missingIn]
  | some type => simp [missingIn, Function.comp_def]

theorem map_left_missingValues_sublist (subroutines : List SubroutineDeclaration)
    (rest : List Terminal) :
    ((inTurn SubroutineDeclaration.terminals SubroutineDeclaration.missingValues subroutines
      rest).map MissingValue.left).Sublist
      (bareReturnPlaces (subroutines.flatMap SubroutineDeclaration.terminals ++ rest)) := by
  induction subroutines with
  | nil => simp [inTurn]
  | cons d subroutines ih =>
    rw [inTurn, List.map_append, List.flatMap_cons, List.append_assoc,
      d.bareReturnPlaces_terminals]
    exact (map_left_missingIn_sublist d.name d.returnType _).append ih

/-- **Missing values are listed from left to right.** -/
theorem ClassDeclaration.pairwise_missingValues (c : ClassDeclaration) :
    c.missingValues.Pairwise fun m n => n.left < m.left := by
  have sorted := (pairwise_bareReturnPlaces _).sublist
    (map_left_missingValues_sublist c.subroutines [.symbol closingBrace])
  exact List.pairwise_map.mp sorted

end JackCompiler.Grammar
