import JackCompiler.Proofs.Grammar.Rules

/-!
# Where names occur

Everything inside a tree is written somewhere in the token list of the tree. In particular every
name that a class uses as a variable is an identifier among its tokens.

## Main definitions

* `SubroutineDeclaration.usedNames`, `SubroutineDeclaration.calls`,
  `SubroutineDeclaration.strings` — what the rules are about, wherever it stands in a subroutine

## Main results

* `ClassDeclaration.identifier_mem_terminals` — used names are among the tokens of a class
* `SubroutineDeclaration.blockLegal_body_iff` — the rules for statements and terms, one by one
-/

namespace JackCompiler.Grammar

/-! ### Terminals of parts -/

theorem subset_commaSeparated (pieces : List (List Terminal)) :
    pieces.flatten ⊆ commaSeparated pieces := by
  cases pieces with
  | nil => simp
  | cons piece pieces =>
    intro x mem
    simp only [List.flatten_cons, List.mem_append, List.mem_flatten] at mem
    simp only [commaSeparated, behindCommas, List.mem_append, List.mem_flatMap, List.mem_cons]
    grind

theorem Call.subset_terminals (c : Call) :
    (Expression.pieces c.arguments).flatten ⊆ c.terminals := by
  cases c with
  | bare name es | qualified owner name es =>
    intro x mem
    have inside : x ∈ commaSeparated (Expression.pieces es) := subset_commaSeparated _ mem
    simp only [Call.terminals, parenthesized, List.mem_cons, List.mem_append, inside, true_or,
      or_true]

mutual

/-- A term is written with all terms inside it. -/
theorem Term.terminals_subset : ∀ (t : Term) {sub : Term}, sub ∈ t.subterms →
    sub.terminals ⊆ t.terminals
  | .integer _, sub, mem | .string _, sub, mem | .constant _, sub, mem | .named _, sub, mem => by
    obtain rfl := List.mem_singleton.mp mem
    exact List.Subset.refl _
  | .element array index, sub, mem => by
    obtain rfl | mem := List.mem_cons.mp mem
    · exact List.Subset.refl _
    · refine List.Subset.trans (index.terminals_subset mem) fun x inside => ?_
      simp [Term.terminals, inside]
  | .call target, sub, mem => by
    obtain rfl | mem := List.mem_cons.mp mem
    · exact List.Subset.refl _
    · exact target.terminals_subset mem
  | .parentheses inner, sub, mem => by
    obtain rfl | mem := List.mem_cons.mp mem
    · exact List.Subset.refl _
    · refine List.Subset.trans (inner.terminals_subset mem) fun x inside => ?_
      simp [Term.terminals, parenthesized, inside]
  | .unary operator operand, sub, mem => by
    obtain rfl | mem := List.mem_cons.mp mem
    · exact List.Subset.refl _
    · exact List.Subset.trans (operand.terminals_subset mem) (List.subset_cons_self _ _)

theorem Expression.terminals_subset : ∀ (e : Expression) {sub : Term}, sub ∈ e.subterms →
    sub.terminals ⊆ e.terminals
  | .single t, sub, mem => t.terminals_subset mem
  | .binary left operator right, sub, mem => by
    obtain mem | mem := List.mem_append.mp mem
    · exact List.Subset.trans (left.terminals_subset mem) fun x inside => by
        simp [Expression.terminals, inside]
    · exact List.Subset.trans (right.terminals_subset mem) fun x inside => by
        simp [Expression.terminals, inside]

theorem Call.terminals_subset : ∀ (c : Call) {sub : Term}, sub ∈ c.subterms →
    sub.terminals ⊆ c.terminals
  | .bare name es, sub, mem =>
    List.Subset.trans (Expression.listTerminals_subset es mem)
      (Call.subset_terminals (.bare name es))
  | .qualified owner name es, sub, mem =>
    List.Subset.trans (Expression.listTerminals_subset es mem)
      (Call.subset_terminals (.qualified owner name es))

theorem Expression.listTerminals_subset : ∀ (es : List Expression) {sub : Term},
    sub ∈ Expression.listSubterms es → sub.terminals ⊆ (Expression.pieces es).flatten
  | e :: es, sub, mem => by
    obtain mem | mem := List.mem_append.mp mem
    · exact List.Subset.trans (e.terminals_subset mem) fun x inside => by
        simp [Expression.pieces, inside]
    · exact List.Subset.trans (Expression.listTerminals_subset es mem)
        (List.subset_append_right _ _)

end

/-- A statement is written with the terms of its expressions. -/
theorem Statement.terms_subset {statement : Statement} {t : Term} (mem : t ∈ statement.terms) :
    t.terminals ⊆ statement.terminals := by
  obtain mem | mem := List.mem_append.mp mem
  · -- The terms of the expressions come first, then those of a call behind `do`.
    obtain ⟨e, isPart, mem⟩ := List.mem_flatMap.mp mem
    refine List.Subset.trans (e.terminals_subset mem) fun x inside => ?_
    cases statement with
    | assign | ifThen | ifElse | loop =>
      obtain rfl := List.mem_singleton.mp isPart
      simp [Statement.terminals, parenthesized, inside]
    | assignElement =>
      simp only [Statement.expressions, List.mem_cons, List.not_mem_nil, or_false] at isPart
      obtain rfl | rfl := isPart <;> simp [Statement.terminals, inside]
    | discard => cases isPart
    | giveBack value =>
      obtain rfl : value = some e := by simpa [Statement.expressions] using isPart
      simp [Statement.terminals, returnedTerminals, inside]
  · cases statement with
    | discard c =>
      exact List.Subset.trans (c.terminals_subset mem) fun x inside => by
        simp [Statement.terminals, inside]
    | _ => cases mem

mutual

/-- A statement is written with all statements inside it. -/
theorem Statement.terminals_subset : ∀ (statement : Statement) {sub : Statement},
    sub ∈ statement.substatements → sub.terminals ⊆ statement.terminals
  | .assign .., sub, mem | .assignElement .., sub, mem | .discard _, sub, mem
  | .giveBack _, sub, mem => by
    obtain rfl := List.mem_singleton.mp mem
    exact List.Subset.refl _
  | .ifThen condition body, sub, mem => by
    obtain rfl | mem := List.mem_cons.mp mem
    · exact List.Subset.refl _
    · refine List.Subset.trans (Statement.blockTerminals_subset body mem) fun x inside => ?_
      simp only [Statement.terminals, braced, List.mem_append, List.mem_cons, inside, true_or,
        or_true]
  | .ifElse condition body otherwise, sub, mem => by
    obtain rfl | mem := List.mem_cons.mp mem
    · exact List.Subset.refl _
    · obtain mem | mem := List.mem_append.mp mem
      · refine List.Subset.trans (Statement.blockTerminals_subset body mem) fun x inside => ?_
        simp only [Statement.terminals, braced, List.mem_append, List.mem_cons, inside, true_or,
          or_true]
      · refine List.Subset.trans (Statement.blockTerminals_subset otherwise mem) fun x inside => ?_
        simp only [Statement.terminals, braced, List.mem_append, List.mem_cons, inside, true_or,
          or_true]
  | .loop condition body, sub, mem => by
    obtain rfl | mem := List.mem_cons.mp mem
    · exact List.Subset.refl _
    · refine List.Subset.trans (Statement.blockTerminals_subset body mem) fun x inside => ?_
      simp only [Statement.terminals, braced, List.mem_append, List.mem_cons, inside, true_or,
        or_true]

theorem Statement.blockTerminals_subset : ∀ (body : List Statement) {sub : Statement},
    sub ∈ Statement.listSubstatements body → sub.terminals ⊆ Statement.blockTerminals body
  | statement :: body, sub, mem => by
    obtain mem | mem := List.mem_append.mp mem
    · exact List.Subset.trans (statement.terminals_subset mem) fun x inside => by
        simp only [Statement.blockTerminals, List.mem_append, inside, true_or]
    · exact List.Subset.trans (Statement.blockTerminals_subset body mem) fun x inside => by
        simp only [Statement.blockTerminals, List.mem_append, inside, or_true]

end

/-! ### The rules, one by one -/

theorem VariableList.map_name_declarations (list : VariableList) (kind : VariableKind) :
    (list.declarations kind).map Declaration.name = list.names := by
  simp [declarations, Function.comp_def]

namespace SubroutineDeclaration

/-- All statements of a subroutine. -/
def statements (s : SubroutineDeclaration) : List Statement :=
  Statement.listSubstatements s.body

/-- All terms of a subroutine. -/
def terms (s : SubroutineDeclaration) : List Term :=
  s.statements.flatMap Statement.terms

/-- The targets of `let`, the variables that are read, and the bases of array elements. -/
def usedNames (s : SubroutineDeclaration) : List String :=
  s.statements.filterMap Statement.target? ++ s.terms.filterMap Term.variableName?

/-- The calls of a subroutine, behind `do` and in expressions. -/
def calls (s : SubroutineDeclaration) : List Call :=
  s.statements.filterMap Statement.call? ++ s.terms.filterMap Term.call?

/-- The contents of the string constants of a subroutine. -/
def strings (s : SubroutineDeclaration) : List (List Char) :=
  s.terms.filterMap Term.string?

/-- The names of the parameters and local variables of a subroutine. -/
def declaredNames (s : SubroutineDeclaration) : List String :=
  s.parameters.map Parameter.name ++ s.locals.flatMap VariableList.names

variable {s : SubroutineDeclaration} {environment : Environment}

theorem blockLegal_body_iff : Statement.BlockLegal environment s.body ↔
    (∀ name ∈ s.usedNames, (environment.lookup? name).isSome) ∧
      (∀ c ∈ s.calls, c.passed environment ≤ maxOperand) ∧
      ∀ contents ∈ s.strings, contents.length ≤ maxInteger := by
  -- The structures of rules are opened first, so that the three kinds of rules can be collected
  -- over all statements and terms.
  have each (statement : Statement) : statement.Obeys environment ↔
      (∀ name ∈ statement.target?, (environment.lookup? name).isSome) ∧
        (∀ c ∈ statement.call?, c.passed environment ≤ maxOperand) ∧
        ∀ t ∈ statement.terms, t.Obeys environment :=
    ⟨fun h => ⟨h.declared, h.numbered, h.terms⟩, fun h => ⟨h.1, h.2.1, h.2.2⟩⟩
  have eachTerm (t : Term) : t.Obeys environment ↔
      (∀ name ∈ t.variableName?, (environment.lookup? name).isSome) ∧
        (∀ contents ∈ t.string?, contents.length ≤ maxInteger) ∧
        ∀ c ∈ t.call?, c.passed environment ≤ maxOperand :=
    ⟨fun h => ⟨h.declared, h.short, h.numbered⟩, fun h => ⟨h.1, h.2.1, h.2.2⟩⟩
  simp only [Statement.BlockLegal, each, eachTerm, usedNames, calls, strings, terms, statements,
    List.mem_append, List.mem_filterMap, List.mem_flatMap, Option.mem_def]
  grind

/-- Every name that a subroutine uses is an identifier among its tokens. -/
theorem identifier_mem_terminals {name : String} (used : name ∈ s.usedNames) :
    .identifier name ∈ s.terminals := by
  have inBody : Statement.blockTerminals s.body ⊆ s.terminals := fun x mem => by
    simp only [terminals, braced, List.mem_append, List.mem_cons, mem, true_or, or_true]
  -- A name is used either as the target of `let` or in a term of some statement.
  apply inBody
  obtain mem | mem := List.mem_append.mp used
  · obtain ⟨statement, isPart, target⟩ := List.mem_filterMap.mp mem
    refine Statement.blockTerminals_subset s.body isPart ?_
    cases statement <;> simp_all [Statement.target?, Statement.terminals]
  · obtain ⟨t, isTerm, variable'⟩ := List.mem_filterMap.mp mem
    obtain ⟨statement, isPart, inside⟩ := List.mem_flatMap.mp isTerm
    refine Statement.blockTerminals_subset s.body isPart (Statement.terms_subset inside ?_)
    cases t <;> simp_all [Term.variableName?, Term.terminals]

theorem map_name_declarations (s : SubroutineDeclaration) (className : String) :
    (s.declarations className).map Declaration.name =
      (if s.kind = .method then ["this"] else []) ++ s.declaredNames := by
  have receivers : (if s.kind = .method then [receiver className] else []).map Declaration.name =
      if s.kind = .method then ["this"] else [] := by
    split <;> rfl
  simp only [declarations, arguments, localVariables, declaredNames, List.map_append, receivers,
    List.map_flatMap, VariableList.map_name_declarations, List.map_map, List.append_assoc]
  rfl

end SubroutineDeclaration

namespace ClassDeclaration

/-- The names of the class variables of a class. -/
def declaredNames (c : ClassDeclaration) : List String :=
  c.classVariables.flatMap (·.list.names)

variable {c : ClassDeclaration} {s : SubroutineDeclaration}

theorem identifier_mem_terminals {name : String} (mem : s ∈ c.subroutines)
    (used : name ∈ s.usedNames) : .identifier name ∈ c.terminals := by
  have inside : .identifier name ∈ c.subroutines.flatMap SubroutineDeclaration.terminals :=
    List.mem_flatMap.mpr ⟨s, mem, s.identifier_mem_terminals used⟩
  simp only [terminals, braced, List.mem_append, List.mem_cons, inside, true_or, or_true]

theorem map_name_declarations (c : ClassDeclaration) :
    c.declarations.map Declaration.name = c.declaredNames := by
  simp only [declarations, declaredNames, List.map_flatMap, VariableList.map_name_declarations]

/-- Apart from the object that a method is called on, what a name means is declared in the
source. -/
theorem isSome_lookup?_iff {name : String} (different : name ≠ "this") :
    ((c.environment s).lookup? name).isSome ↔
      name ∈ c.declaredNames ∨ name ∈ s.declaredNames := by
  -- The receiver of a method is the only declaration that the source does not write.
  rw [environment, Option.isSome_or, Bool.or_eq_true, isSome_latest?_iff, isSome_latest?_iff,
    List.map_reverse, List.map_reverse, List.mem_reverse, List.mem_reverse,
    map_name_declarations, SubroutineDeclaration.map_name_declarations, List.mem_append, or_comm]
  split <;> simp [different]

end ClassDeclaration

end JackCompiler.Grammar
