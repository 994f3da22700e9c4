import JackCompiler.Proofs.Grammar.Scope

/-!
# Rules that classes obey beyond the grammar

A class that the grammar derives may still nest too deep, use a name that nothing declares, or have
more of something than an instruction can number. The rules are stated on trees: how deep a tree
is nested, and what must hold of each term and each statement wherever it stands.

## Main definitions

* `Term.depth`, `Statement.blockDepth` — levels of nesting
* `Term.subterms`, `Statement.substatements` — everything inside a tree
* `Term.Obeys`, `Statement.Obeys` — the rules for one term and one statement
-/

namespace JackCompiler

theorem CallTarget.argumentCount?_eq_some {target : CallTarget} {listed count : Nat} :
    target.argumentCount? listed = some count ↔
      count = listed + target.implicitArguments ∧
        listed + target.implicitArguments ≤ maxOperand := by
  simp only [argumentCount?]
  split <;> simp_all [eq_comm]

namespace Grammar

/-! ### Nesting -/

mutual

/-- The number of terms that are nested in a term, counting itself. -/
@[simp] def Term.depth : Term → Nat
  | .element _ index => index.depth + 1
  | .call target => target.depth + 1
  | .parentheses inner => inner.depth + 1
  | .unary _ operand => operand.depth + 1
  | _ => 1

/-- The depth of the deepest term of an expression. -/
@[simp] def Expression.depth : Expression → Nat
  | .single term => term.depth
  | .binary left _ right => max left.depth right.depth

/-- The depth of the deepest argument of a call. -/
@[simp] def Call.depth : Call → Nat
  | .bare _ arguments => Expression.listDepth arguments
  | .qualified _ _ arguments => Expression.listDepth arguments

/-- The depth of the deepest of several expressions. -/
@[simp] def Expression.listDepth : List Expression → Nat
  | [] => 0
  | e :: rest => max e.depth (Expression.listDepth rest)

end

mutual

/-- The number of terms and blocks that are nested in a statement. -/
@[simp] def Statement.depth : Statement → Nat
  | .assign _ value => value.depth
  | .assignElement _ index value => max index.depth value.depth
  | .ifThen condition body => max condition.depth (Statement.listDepth body + 1)
  | .ifElse condition body otherwise =>
    max condition.depth (max (Statement.listDepth body + 1) (Statement.listDepth otherwise + 1))
  | .loop condition body => max condition.depth (Statement.listDepth body + 1)
  | .discard target => target.depth
  | .giveBack none => 0
  | .giveBack (some value) => value.depth

/-- The depth of the deepest of several statements. -/
@[simp] def Statement.listDepth : List Statement → Nat
  | [] => 0
  | statement :: rest => max statement.depth (Statement.listDepth rest)

end

/-- The number of terms and blocks that are nested in a block, counting itself. -/
def Statement.blockDepth (body : List Statement) : Nat :=
  Statement.listDepth body + 1

/-! ### Everything inside a tree -/

mutual

/-- A term and all terms inside it. -/
@[simp] def Term.subterms : Term → List Term
  | .element array index => .element array index :: index.subterms
  | .call target => .call target :: target.subterms
  | .parentheses inner => .parentheses inner :: inner.subterms
  | .unary operator operand => .unary operator operand :: operand.subterms
  | term => [term]

/-- All terms of an expression. -/
@[simp] def Expression.subterms : Expression → List Term
  | .single term => term.subterms
  | .binary left _ right => left.subterms ++ right.subterms

/-- All terms in the arguments of a call. -/
@[simp] def Call.subterms : Call → List Term
  | .bare _ arguments => Expression.listSubterms arguments
  | .qualified _ _ arguments => Expression.listSubterms arguments

/-- All terms of several expressions. -/
@[simp] def Expression.listSubterms : List Expression → List Term
  | [] => []
  | e :: rest => e.subterms ++ Expression.listSubterms rest

end

mutual

/-- A statement and all statements inside it. -/
@[simp] def Statement.substatements : Statement → List Statement
  | .ifThen condition body => .ifThen condition body :: Statement.listSubstatements body
  | .ifElse condition body otherwise =>
    .ifElse condition body otherwise ::
      (Statement.listSubstatements body ++ Statement.listSubstatements otherwise)
  | .loop condition body => .loop condition body :: Statement.listSubstatements body
  | statement => [statement]

/-- All statements of a block. -/
@[simp] def Statement.listSubstatements : List Statement → List Statement
  | [] => []
  | statement :: rest => statement.substatements ++ Statement.listSubstatements rest

end

/-- The expressions of a statement, not counting those of its blocks. -/
def Statement.expressions : Statement → List Expression
  | .assign _ value => [value]
  | .assignElement _ index value => [index, value]
  | .ifThen condition _ => [condition]
  | .ifElse condition _ _ => [condition]
  | .loop condition _ => [condition]
  | .discard _ => []
  | .giveBack value => value.toList

/-- The terms of a statement, not counting those of its blocks. -/
def Statement.terms (statement : Statement) : List Term :=
  statement.expressions.flatMap Expression.subterms ++
    match statement with
    | .discard target => target.subterms
    | _ => []

/-- The name that a term uses as a variable. -/
def Term.variableName? : Term → Option String
  | .named name => some name
  | .element array _ => some array
  | _ => none

/-- The contents of a term that is a string. -/
def Term.string? : Term → Option (List Char)
  | .string contents => some contents
  | _ => none

/-- The call that a term is. -/
def Term.call? : Term → Option Call
  | .call target => some target
  | _ => none

/-- The name that a statement assigns to. -/
def Statement.target? : Statement → Option String
  | .assign target _ => some target
  | .assignElement array _ _ => some array
  | _ => none

/-- The call that a statement is. -/
def Statement.call? : Statement → Option Call
  | .discard target => some target
  | _ => none

/-! ### The rules -/

/-- The expressions that a call lists. -/
def Call.arguments : Call → List Expression
  | .bare _ arguments => arguments
  | .qualified _ _ arguments => arguments

/-- What a call refers to. In front of a dot, a variable is an object, and any other name is a
class. -/
def Call.target (environment : Environment) : Call → CallTarget
  | .bare name _ => .method .this environment.className name
  | .qualified owner name _ =>
    match environment.lookup? owner with
    | some v => .method (.inVariable v) v.type name
    | none => .function owner name

/-- The number of values that a call passes: the listed ones, and the object that a method is called
on. -/
def Call.passed (environment : Environment) : Call → Nat
  | .bare _ arguments => arguments.length + 1
  | .qualified owner _ arguments =>
    if (environment.lookup? owner).isSome then arguments.length + 1 else arguments.length

/-- The rules for one term: its name is declared, its string is short enough, its call passes few
enough values. -/
structure Term.Obeys (environment : Environment) (term : Term) : Prop where
  declared : ∀ name ∈ term.variableName?, (environment.lookup? name).isSome
  short : ∀ contents ∈ term.string?, contents.length ≤ maxInteger
  numbered : ∀ target ∈ term.call?, target.passed environment ≤ maxOperand

/-- The rules for one statement and its terms. -/
structure Statement.Obeys (environment : Environment) (statement : Statement) : Prop where
  declared : ∀ name ∈ statement.target?, (environment.lookup? name).isSome
  numbered : ∀ target ∈ statement.call?, target.passed environment ≤ maxOperand
  terms : ∀ term ∈ statement.terms, term.Obeys environment

/-- All terms inside a term obey the rules. -/
def Term.Legal (environment : Environment) (term : Term) : Prop :=
  ∀ sub ∈ term.subterms, sub.Obeys environment

/-- All terms of an expression obey the rules. -/
def Expression.Legal (environment : Environment) (e : Expression) : Prop :=
  ∀ sub ∈ e.subterms, sub.Obeys environment

/-- A call and all terms inside it obey the rules. -/
def Call.Legal (environment : Environment) (target : Call) : Prop :=
  target.passed environment ≤ maxOperand ∧ ∀ sub ∈ target.subterms, sub.Obeys environment

/-- All statements inside a statement obey the rules. -/
def Statement.Legal (environment : Environment) (statement : Statement) : Prop :=
  ∀ sub ∈ statement.substatements, sub.Obeys environment

/-- All statements of a block obey the rules. -/
def Statement.BlockLegal (environment : Environment) (body : List Statement) : Prop :=
  ∀ sub ∈ Statement.listSubstatements body, sub.Obeys environment

/-- The rules for one subroutine of a class. The body counts as the first level of nesting. -/
structure ClassDeclaration.Admits (c : ClassDeclaration) (s : SubroutineDeclaration) : Prop where
  arguments : (s.arguments c.name).length ≤ maxOperand
  locals : s.localVariables.length ≤ maxOperand
  nesting : Statement.blockDepth s.body ≤ maxNesting
  body : Statement.BlockLegal (c.environment s) s.body

/-- The rules for a class. -/
structure ClassDeclaration.Lawful (c : ClassDeclaration) : Prop where
  statics : countOf .static c.declarations ≤ maxOperand
  fields : countOf .field c.declarations ≤ maxOperand
  subroutines : ∀ s ∈ c.subroutines, c.Admits s

/-! ### The rules by cases -/

section Cases

variable {environment : Environment}

/-- A term that holds none of what the rules are about obeys them. -/
theorem Term.Obeys.of_none {term : Term} (name : term.variableName? = none)
    (contents : term.string? = none) (target : term.call? = none) : term.Obeys environment :=
  ⟨by simp [name], by simp [contents], by simp [target]⟩

@[simp] theorem Term.legal_integer (digits : String) :
    (Term.integer digits).Legal environment := by
  simpa [Term.Legal, Term.subterms] using Term.Obeys.of_none rfl rfl rfl

@[simp] theorem Term.legal_constant (word : ConstantWord) :
    (Term.constant word).Legal environment := by
  simpa [Term.Legal, Term.subterms] using Term.Obeys.of_none rfl rfl rfl

@[simp] theorem Term.legal_string {contents : List Char} :
    (Term.string contents).Legal environment ↔ contents.length ≤ maxInteger := by
  simp only [Term.Legal, Term.subterms, List.mem_singleton, forall_eq]
  exact ⟨fun h => h.short _ rfl, fun h => ⟨by simp [Term.variableName?], by simpa [Term.string?],
    by simp [Term.call?]⟩⟩

@[simp] theorem Term.legal_named {name : String} :
    (Term.named name).Legal environment ↔ (environment.lookup? name).isSome := by
  simp only [Term.Legal, Term.subterms, List.mem_singleton, forall_eq]
  exact ⟨fun h => h.declared _ rfl, fun h => ⟨by simpa [Term.variableName?], by simp [Term.string?],
    by simp [Term.call?]⟩⟩

@[simp] theorem Term.legal_element {array : String} {index : Expression} :
    (Term.element array index).Legal environment ↔
      (environment.lookup? array).isSome ∧ index.Legal environment := by
  simp only [Term.Legal, Term.subterms, List.mem_cons, forall_eq_or_imp, Expression.Legal]
  -- What is inside the index is on both sides, the rule for the element itself is left.
  refine and_congr_left fun _ => ?_
  exact ⟨fun h => h.declared _ rfl, fun h => ⟨by simpa [Term.variableName?], by simp [Term.string?],
    by simp [Term.call?]⟩⟩

@[simp] theorem Term.legal_call {target : Call} :
    (Term.call target).Legal environment ↔ target.Legal environment := by
  simp only [Term.Legal, Term.subterms, List.mem_cons, forall_eq_or_imp, Call.Legal]
  refine and_congr_left fun _ => ?_
  exact ⟨fun h => h.numbered _ rfl, fun h => ⟨by simp [Term.variableName?], by simp [Term.string?],
    by simpa [Term.call?]⟩⟩

@[simp] theorem Term.legal_parentheses {inner : Expression} :
    (Term.parentheses inner).Legal environment ↔ inner.Legal environment := by
  simp only [Term.Legal, Term.subterms, List.mem_cons, forall_eq_or_imp, Expression.Legal]
  exact and_iff_right (.of_none rfl rfl rfl)

@[simp] theorem Term.legal_unary {operator : UnaryOperator} {operand : Term} :
    (Term.unary operator operand).Legal environment ↔ operand.Legal environment := by
  simp only [Term.Legal, Term.subterms, List.mem_cons, forall_eq_or_imp]
  exact and_iff_right (.of_none rfl rfl rfl)

@[simp] theorem Expression.legal_single {term : Term} :
    (Expression.single term).Legal environment ↔ term.Legal environment := by
  simp [Expression.Legal, Term.Legal, Expression.subterms]

@[simp] theorem Expression.legal_binary {left : Term} {operator : BinaryOperator}
    {right : Expression} : (Expression.binary left operator right).Legal environment ↔
      left.Legal environment ∧ right.Legal environment := by
  simp [Expression.Legal, Term.Legal, Expression.subterms, or_imp, forall_and]

theorem Expression.listSubterms_eq_flatMap (es : List Expression) :
    Expression.listSubterms es = es.flatMap Expression.subterms := by
  induction es with
  | nil => rfl
  | cons e es ih => simp [Expression.listSubterms, ih]

theorem Call.subterms_eq_flatMap (target : Call) :
    target.subterms = target.arguments.flatMap Expression.subterms := by
  cases target <;> simp [Call.subterms, Call.arguments, Expression.listSubterms_eq_flatMap]

theorem Call.legal_iff {target : Call} : target.Legal environment ↔
    target.passed environment ≤ maxOperand ∧ ∀ e ∈ target.arguments, e.Legal environment := by
  simp only [Call.Legal, Call.subterms_eq_flatMap, List.mem_flatMap, Expression.Legal]
  grind

/-- A call passes the object of what it refers to in addition to the listed values. -/
theorem Call.passed_eq_target (target : Call) : target.passed environment =
    target.arguments.length + (target.target environment).implicitArguments := by
  cases target with
  | bare name es => rfl
  | qualified owner name es =>
    cases known : environment.lookup? owner <;>
      simp [Call.passed, Call.target, known, Call.arguments, CallTarget.implicitArguments,
        CallTarget.receiver?]

theorem Expression.listDepth_le_iff {es : List Expression} {n : Nat} :
    Expression.listDepth es ≤ n ↔ ∀ e ∈ es, e.depth ≤ n := by
  induction es with
  | nil => simp [Expression.listDepth]
  | cons e es ih => rw [Expression.listDepth, Nat.max_le, ih, List.forall_mem_cons]

theorem Call.depth_le_iff {target : Call} {n : Nat} :
    target.depth ≤ n ↔ ∀ e ∈ target.arguments, e.depth ≤ n := by
  cases target <;> simp [Call.depth, Call.arguments, Expression.listDepth_le_iff]

theorem Statement.listDepth_le_iff {body : List Statement} {n : Nat} :
    Statement.listDepth body ≤ n ↔ ∀ statement ∈ body, statement.depth ≤ n := by
  induction body with
  | nil => simp [Statement.listDepth]
  | cons statement body ih => rw [Statement.listDepth, Nat.max_le, ih, List.forall_mem_cons]

theorem Statement.blockLegal_iff {body : List Statement} :
    Statement.BlockLegal environment body ↔ ∀ statement ∈ body, statement.Legal environment := by
  -- All statements inside a block are those inside the first one and those inside the rest.
  induction body with
  | nil => simp [Statement.BlockLegal, Statement.listSubstatements]
  | cons statement body ih =>
    rw [List.forall_mem_cons, ← ih]
    simp only [Statement.BlockLegal, Statement.listSubstatements, List.mem_append, or_imp,
      forall_and, Statement.Legal]

@[simp] theorem Statement.legal_assign {target : String} {value : Expression} :
    (Statement.assign target value).Legal environment ↔
      (environment.lookup? target).isSome ∧ value.Legal environment := by
  simp only [Statement.Legal, Statement.substatements, List.mem_singleton, forall_eq]
  constructor
  · exact fun h => ⟨h.declared _ rfl, by
      simpa [Statement.terms, Statement.expressions, Expression.Legal] using h.terms⟩
  · exact fun h => ⟨by simpa [Statement.target?] using h.1, by simp [Statement.call?], by
      simpa [Statement.terms, Statement.expressions, Expression.Legal] using h.2⟩

@[simp] theorem Statement.legal_assignElement {array : String} {index value : Expression} :
    (Statement.assignElement array index value).Legal environment ↔
      (environment.lookup? array).isSome ∧ index.Legal environment ∧ value.Legal environment := by
  have terms : (∀ term ∈ (Statement.assignElement array index value).terms,
      term.Obeys environment) ↔ index.Legal environment ∧ value.Legal environment := by
    simp [Statement.terms, Statement.expressions, Expression.Legal, or_imp, forall_and]
  simp only [Statement.Legal, Statement.substatements, List.mem_singleton, forall_eq]
  constructor
  · exact fun h => ⟨h.declared _ rfl, terms.mp h.terms⟩
  · exact fun h => ⟨by simpa [Statement.target?] using h.1, by simp [Statement.call?],
      terms.mpr h.2⟩

/-- A statement that neither assigns nor calls obeys the rules if its terms do. -/
theorem Statement.obeys_iff_terms {statement : Statement} (target : statement.target? = none)
    (call : statement.call? = none) : statement.Obeys environment ↔
      ∀ term ∈ statement.terms, term.Obeys environment :=
  ⟨fun h => h.terms, fun h => ⟨by simp [target], by simp [call], h⟩⟩

@[simp] theorem Statement.legal_ifThen {condition : Expression} {body : List Statement} :
    (Statement.ifThen condition body).Legal environment ↔
      condition.Legal environment ∧ Statement.BlockLegal environment body := by
  simp only [Statement.Legal, Statement.substatements, List.mem_cons, forall_eq_or_imp,
    Statement.BlockLegal]
  rw [Statement.obeys_iff_terms rfl rfl]
  simp [Statement.terms, Statement.expressions, Expression.Legal]

@[simp] theorem Statement.legal_ifElse {condition : Expression}
    {body otherwise : List Statement} :
    (Statement.ifElse condition body otherwise).Legal environment ↔
      condition.Legal environment ∧ Statement.BlockLegal environment body ∧
        Statement.BlockLegal environment otherwise := by
  simp only [Statement.Legal, Statement.substatements, List.mem_cons, List.mem_append, or_imp,
    forall_and, forall_eq, Statement.BlockLegal]
  rw [Statement.obeys_iff_terms rfl rfl]
  simp [Statement.terms, Statement.expressions, Expression.Legal]

@[simp] theorem Statement.legal_loop {condition : Expression} {body : List Statement} :
    (Statement.loop condition body).Legal environment ↔
      condition.Legal environment ∧ Statement.BlockLegal environment body := by
  simp only [Statement.Legal, Statement.substatements, List.mem_cons, forall_eq_or_imp,
    Statement.BlockLegal]
  rw [Statement.obeys_iff_terms rfl rfl]
  simp [Statement.terms, Statement.expressions, Expression.Legal]

@[simp] theorem Statement.legal_discard {target : Call} :
    (Statement.discard target).Legal environment ↔ target.Legal environment := by
  simp only [Statement.Legal, Statement.substatements, List.mem_singleton, forall_eq]
  constructor
  · exact fun h => ⟨h.numbered _ rfl, by
      simpa [Statement.terms, Statement.expressions] using h.terms⟩
  · exact fun h => ⟨by simp [Statement.target?], by simpa [Statement.call?] using h.1, by
      simpa [Statement.terms, Statement.expressions] using h.2⟩

@[simp] theorem Statement.legal_giveBack {value : Option Expression} :
    (Statement.giveBack value).Legal environment ↔ ∀ e ∈ value, e.Legal environment := by
  simp only [Statement.Legal, Statement.substatements, List.mem_singleton, forall_eq]
  rw [Statement.obeys_iff_terms rfl rfl]
  simp [Statement.terms, Statement.expressions, Expression.Legal]
  grind

end Cases

end Grammar

end JackCompiler
