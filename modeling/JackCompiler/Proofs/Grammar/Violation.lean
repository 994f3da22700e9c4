import JackCompiler.Proofs.Grammar.Rules

/-!
# Where rules are broken

A class that the grammar derives may break a rule at several places. Each place is a token, and is
given by the number of tokens from it up to the end of the class, which does not depend on what
stands in front. The violations of a phrase are listed in the order of their places.

## Main definitions

* `Breach`, `Violation` — how a rule is broken, and where
* `Violation.Before` — the order of violations
* `Term.violations`, `Statement.violations`, `ClassDeclaration.violations` — those of a tree

## Main results

* `ClassDeclaration.violations_eq_nil_iff` — a class without violations obeys the rules
-/

namespace JackCompiler.Grammar

/-- How a rule is broken. -/
inductive Breach where
  /-- A name is used as a variable, but no visible declaration has it. -/
  | undeclared (name : String)
  /-- There is one more of something than an instruction can number. -/
  | tooMany (what : String)
  /-- A term or a block is nested deeper than `maxNesting`. -/
  | nestingTooDeep
  /-- A string has more than `maxInteger` characters. -/
  | longString
deriving DecidableEq, Repr, Inhabited

/-- A place where a rule is broken. -/
structure Violation where
  breach : Breach
  /-- The number of tokens from the place up to the end of the class. -/
  left : Nat
deriving DecidableEq, Repr, Inhabited

/-- A violation is met before another: it is further to the left, or it is about the nesting and the
other one is at the same token. -/
def Violation.Before (v w : Violation) : Prop :=
  w.left < v.left ∨ w.left = v.left ∧ v.breach = .nestingTooDeep

/-- A rule that is checked in front of the given tokens, at the first of them. -/
def checked (obeyed : Prop) [Decidable obeyed] (breach : Breach) (tokens : List Terminal) :
    List Violation :=
  if obeyed then [] else [{ breach, left := tokens.length }]

/-- What each of several phrases has, in front of the phrases behind it and of the given tokens. -/
def inTurn {α β : Type} (terminals : α → List Terminal) (each : α → List Terminal → List β) :
    List α → List Terminal → List β
  | [], _ => []
  | a :: others, rest =>
    each a (others.flatMap terminals ++ rest) ++ inTurn terminals each others rest

/-! ### Terms and statements -/

mutual

/-- The violations of a term at a level of nesting, in front of the given tokens. -/
def Term.violations (environment : Environment) (level : Nat) (rest : List Terminal)
    (term : Term) : List Violation :=
  checked (level ≤ maxNesting) .nestingTooDeep (term.terminals ++ rest) ++
    match term with
    | .integer _ => []
    | .string contents =>
      checked (contents.length ≤ maxInteger) .longString (.string contents :: rest)
    | .constant _ => []
    | .named name =>
      checked (environment.lookup? name).isSome (.undeclared name) (.identifier name :: rest)
    | .element array index =>
      checked (environment.lookup? array).isSome (.undeclared array)
          (.identifier array :: .symbol '[' :: (index.terminals ++ .symbol ']' :: rest)) ++
        index.violations environment (level + 1) (.symbol ']' :: rest)
    | .call target => target.violations environment (level + 1) rest
    | .parentheses inner => inner.violations environment (level + 1) (.symbol ')' :: rest)
    | .unary _ operand => operand.violations environment (level + 1) rest

/-- The violations of an expression whose terms are at a level of nesting. -/
def Expression.violations (environment : Environment) (level : Nat) (rest : List Terminal) :
    Expression → List Violation
  | .single term => term.violations environment level rest
  | .binary left operator right =>
    left.violations environment level
        (.symbol operator.symbol :: (right.terminals ++ rest)) ++
      right.violations environment level rest

/-- The violations of a call whose arguments are at a level of nesting. The object that a method is
called on is counted at the closing parenthesis. -/
def Call.violations (environment : Environment) (level : Nat) (rest : List Terminal) :
    Call → List Violation
  | .bare name arguments =>
    Expression.listViolations environment level (.symbol ')' :: rest) 0 arguments ++
      checked ((Call.bare name arguments).passed environment ≤ maxOperand)
        (.tooMany "arguments") (.symbol ')' :: rest)
  | .qualified owner name arguments =>
    Expression.listViolations environment level (.symbol ')' :: rest) 0 arguments ++
      checked ((Call.qualified owner name arguments).passed environment ≤ maxOperand)
        (.tooMany "arguments") (.symbol ')' :: rest)

/-- The violations of arguments behind a number of others. An argument is counted at the token
behind it. -/
def Expression.listViolations (environment : Environment) (level : Nat) (rest : List Terminal) :
    Nat → List Expression → List Violation
  | _, [] => []
  | index, e :: es =>
    e.violations environment level (behindCommas (Expression.pieces es) ++ rest) ++
      checked (index < maxOperand) (.tooMany "arguments")
        (behindCommas (Expression.pieces es) ++ rest) ++
      Expression.listViolations environment level rest (index + 1) es

end

mutual

/-- The violations of a statement whose terms and blocks are at a level of nesting. The level of a
block is checked behind its opening brace. -/
def Statement.violations (environment : Environment) (level : Nat) (rest : List Terminal) :
    Statement → List Violation
  | .assign target value =>
    checked (environment.lookup? target).isSome (.undeclared target)
        (.identifier target :: .symbol '=' :: (value.terminals ++ .symbol ';' :: rest)) ++
      value.violations environment level (.symbol ';' :: rest)
  | .assignElement array index value =>
    checked (environment.lookup? array).isSome (.undeclared array)
        (.identifier array :: .symbol '[' :: (index.terminals ++
          .symbol ']' :: .symbol '=' :: (value.terminals ++ .symbol ';' :: rest))) ++
      index.violations environment level
        (.symbol ']' :: .symbol '=' :: (value.terminals ++ .symbol ';' :: rest)) ++
      value.violations environment level (.symbol ';' :: rest)
  | .ifThen condition body =>
    condition.violations environment level
        (.symbol ')' :: (braced (Statement.blockTerminals body) ++ rest)) ++
      checked (level ≤ maxNesting) .nestingTooDeep
        (Statement.blockTerminals body ++ .symbol closingBrace :: rest) ++
      Statement.listViolations environment (level + 1) (.symbol closingBrace :: rest) body
  | .ifElse condition body otherwise =>
    condition.violations environment level
        (.symbol ')' :: (braced (Statement.blockTerminals body) ++
          .keyword .«else» :: (braced (Statement.blockTerminals otherwise) ++ rest))) ++
      checked (level ≤ maxNesting) .nestingTooDeep
        (Statement.blockTerminals body ++ .symbol closingBrace ::
          .keyword .«else» :: (braced (Statement.blockTerminals otherwise) ++ rest)) ++
      Statement.listViolations environment (level + 1)
        (.symbol closingBrace ::
          .keyword .«else» :: (braced (Statement.blockTerminals otherwise) ++ rest)) body ++
      checked (level ≤ maxNesting) .nestingTooDeep
        (Statement.blockTerminals otherwise ++ .symbol closingBrace :: rest) ++
      Statement.listViolations environment (level + 1) (.symbol closingBrace :: rest) otherwise
  | .loop condition body =>
    condition.violations environment level
        (.symbol ')' :: (braced (Statement.blockTerminals body) ++ rest)) ++
      checked (level ≤ maxNesting) .nestingTooDeep
        (Statement.blockTerminals body ++ .symbol closingBrace :: rest) ++
      Statement.listViolations environment (level + 1) (.symbol closingBrace :: rest) body
  | .discard target => target.violations environment level (.symbol ';' :: rest)
  | .giveBack none => []
  | .giveBack (some value) => value.violations environment level (.symbol ';' :: rest)

/-- The violations of several statements. -/
def Statement.listViolations (environment : Environment) (level : Nat) (rest : List Terminal) :
    List Statement → List Violation
  | [] => []
  | statement :: others =>
    statement.violations environment level (Statement.blockTerminals others ++ rest) ++
      Statement.listViolations environment level rest others

end

/-- The violations of the statements of a block, in front of its closing brace. -/
def Statement.blockViolations (environment : Environment) (level : Nat) (rest : List Terminal)
    (body : List Statement) : List Violation :=
  checked (level ≤ maxNesting) .nestingTooDeep (Statement.blockTerminals body ++ rest) ++
    Statement.listViolations environment (level + 1) rest body

section Blocks

variable (environment : Environment) (level : Nat) (rest : List Terminal) (condition : Expression)
  (body otherwise : List Statement)

theorem Statement.violations_ifThen :
    (Statement.ifThen condition body).violations environment level rest =
      condition.violations environment level
          (.symbol ')' :: (braced (Statement.blockTerminals body) ++ rest)) ++
        Statement.blockViolations environment level (.symbol closingBrace :: rest) body := by
  rw [Statement.violations, List.append_assoc]
  rfl

theorem Statement.violations_ifElse :
    (Statement.ifElse condition body otherwise).violations environment level rest =
      condition.violations environment level
          (.symbol ')' :: (braced (Statement.blockTerminals body) ++
            .keyword .«else» :: (braced (Statement.blockTerminals otherwise) ++ rest))) ++
        (Statement.blockViolations environment level
            (.symbol closingBrace ::
              .keyword .«else» :: (braced (Statement.blockTerminals otherwise) ++ rest)) body ++
          Statement.blockViolations environment level (.symbol closingBrace :: rest)
            otherwise) := by
  simp only [Statement.violations, Statement.blockViolations, List.append_assoc]

theorem Statement.violations_loop :
    (Statement.loop condition body).violations environment level rest =
      condition.violations environment level
          (.symbol ')' :: (braced (Statement.blockTerminals body) ++ rest)) ++
        Statement.blockViolations environment level (.symbol closingBrace :: rest) body := by
  rw [Statement.violations, List.append_assoc]
  rfl

end Blocks

/-! ### Declarations -/

/-- A declaration and the tokens from its name on. -/
abbrev Placed := Declaration × List Terminal

/-- All declarations behind further ones, of which the latest comes first. -/
def recorded (earlier : List Declaration) (placed : List Placed) : List Declaration :=
  (placed.map Prod.fst).reverse ++ earlier

/-- The violations of declarations behind earlier ones, of which the latest comes first. -/
def overflows : List Declaration → List Placed → List Violation
  | _, [] => []
  | earlier, (declaration, tokens) :: later =>
    checked (countOf declaration.kind earlier < maxOperand) (.tooMany declaration.kind.plural)
        tokens ++
      overflows (declaration :: earlier) later

/-- The declarations of a list of variables. -/
def VariableList.placed (kind : VariableKind) (list : VariableList) (rest : List Terminal) :
    List Placed :=
  inTurn (fun name => [.symbol ',', .identifier name])
    (fun name rest => [({ name, type := list.type.text, kind }, .identifier name :: rest)])
    list.names (.symbol ';' :: rest)

/-- The declarations of parameters, in front of what stands behind them. -/
def placedParameters : List Parameter → List Terminal → List Placed :=
  inTurn (fun parameter => .symbol ',' :: parameter.terminals)
    fun parameter rest => [(parameter.declaration, .identifier parameter.name :: rest)]

/-- The tokens of a subroutine behind its parameters. -/
def SubroutineDeclaration.behindParameters (s : SubroutineDeclaration) (rest : List Terminal) :
    List Terminal :=
  .symbol ')' :: (braced (s.locals.flatMap localTerminals ++ Statement.blockTerminals s.body) ++
    rest)

/-- The declarations that stand in a subroutine. -/
def SubroutineDeclaration.placed (s : SubroutineDeclaration) (rest : List Terminal) :
    List Placed :=
  placedParameters s.parameters (s.behindParameters rest) ++
    inTurn localTerminals (VariableList.placed .«local») s.locals
      (Statement.blockTerminals s.body ++ .symbol closingBrace :: rest)

/-- The object that a method of a class is called on is declared before its parameters, but stands
nowhere. -/
def SubroutineDeclaration.receivers (s : SubroutineDeclaration) (className : String) :
    List Declaration :=
  if s.kind = .method then [receiver className] else []

/-- The violations of a subroutine of a class. Its body is the first level of nesting. -/
def ClassDeclaration.violationsOf (c : ClassDeclaration) (s : SubroutineDeclaration)
    (rest : List Terminal) : List Violation :=
  overflows (s.receivers c.name) (s.placed rest) ++
    Statement.blockViolations (c.environment s) 1 (.symbol closingBrace :: rest) s.body

/-- The declarations of a class, in front of its subroutines. -/
def ClassDeclaration.placed (c : ClassDeclaration) : List Placed :=
  inTurn ClassVariables.terminals (fun d => d.list.placed d.kind) c.classVariables
    (c.subroutines.flatMap SubroutineDeclaration.terminals ++ [.symbol closingBrace])

/-- The violations of a class, from left to right. -/
def ClassDeclaration.violations (c : ClassDeclaration) : List Violation :=
  overflows [] c.placed ++
    inTurn SubroutineDeclaration.terminals c.violationsOf c.subroutines [.symbol closingBrace]

/-! ### Classes without violations -/

section Obeyed

variable {environment : Environment} {rest tokens : List Terminal}

@[simp] theorem checked_eq_nil {obeyed : Prop} [Decidable obeyed] {breach : Breach} :
    checked obeyed breach tokens = [] ↔ obeyed := by
  simp [checked]

theorem inTurn_eq_nil {α β : Type} {terminals : α → List Terminal}
    {each : α → List Terminal → List β} {P : α → Prop} (known : ∀ a rest, each a rest = [] ↔ P a)
    {items : List α} : inTurn terminals each items rest = [] ↔ ∀ a ∈ items, P a := by
  induction items with
  | nil => simp [inTurn]
  | cons a items ih => simp [inTurn, known, ih]

/-- What is one level further down fits if one level less is enough for it. -/
theorem nested_iff {level levels depth : Nat} {inner legal : Prop}
    (sum : level + levels = maxNesting + 1)
    (deeper : ∀ {levels'}, level + 1 + levels' = maxNesting + 1 →
      (inner ↔ depth ≤ levels' ∧ legal)) :
    level ≤ maxNesting ∧ inner ↔ depth + 1 ≤ levels ∧ legal := by
  cases levels with
  | zero => omega
  | succ levels =>
    rw [deeper (show level + 1 + levels = maxNesting + 1 by omega), Nat.add_le_add_iff_right]
    exact and_iff_right (by omega)

theorem Call.length_arguments_le_passed (target : Call) (environment : Environment) :
    target.arguments.length ≤ target.passed environment := by
  rw [Call.passed_eq_target]
  exact Nat.le_add_right _ _

mutual

/-- A term has no violations if it fits into the levels that are left and obeys the rules. -/
theorem Term.violations_eq_nil : ∀ (t : Term) {level levels : Nat} (rest : List Terminal),
    level + levels = maxNesting + 1 →
      (t.violations environment level rest = [] ↔ t.depth ≤ levels ∧ t.Legal environment)
  | .integer digits, level, levels, rest, sum => by
    simp [Term.violations]
    omega
  | .string contents, level, levels, rest, sum => by
    simp [Term.violations]
    omega
  | .constant word, level, levels, rest, sum => by
    simp [Term.violations]
    omega
  | .named name, level, levels, rest, sum => by
    simp [Term.violations]
    omega
  | .element array index, level, levels, rest, sum => by
    have inner := nested_iff sum fun sum =>
      Expression.violations_eq_nil index (.symbol ']' :: rest) sum
    simp only [Term.violations, List.append_eq_nil_iff, checked_eq_nil, Term.depth,
      Term.legal_element]
    rw [and_left_comm, inner, and_left_comm]
  | .call target, level, levels, rest, sum => by
    simpa [Term.violations] using
      nested_iff sum fun sum => Call.violations_eq_nil target rest sum
  | .parentheses inner, level, levels, rest, sum => by
    simpa [Term.violations] using
      nested_iff sum fun sum => Expression.violations_eq_nil inner (.symbol ')' :: rest) sum
  | .unary operator operand, level, levels, rest, sum => by
    simpa [Term.violations] using
      nested_iff sum fun sum => Term.violations_eq_nil operand rest sum

theorem Expression.violations_eq_nil : ∀ (e : Expression) {level levels : Nat}
    (rest : List Terminal), level + levels = maxNesting + 1 →
      (e.violations environment level rest = [] ↔ e.depth ≤ levels ∧ e.Legal environment)
  | .single term, level, levels, rest, sum => by
    simp [Expression.violations, Term.violations_eq_nil term _ sum]
  | .binary left operator right, level, levels, rest, sum => by
    simp only [Expression.violations, List.append_eq_nil_iff, Term.violations_eq_nil left _ sum,
      Expression.violations_eq_nil right _ sum, Expression.depth, Nat.max_le,
      Expression.legal_binary]
    exact and_and_and_comm

theorem Call.violations_eq_nil : ∀ (target : Call) {level levels : Nat} (rest : List Terminal),
    level + levels = maxNesting + 1 →
      (target.violations environment level rest = [] ↔
        target.depth ≤ levels ∧ target.Legal environment)
  | .bare name arguments, level, levels, rest, sum => by
    have listed := Expression.listViolations_eq_nil arguments (.symbol ')' :: rest) sum
      (Nat.zero_le _)
    have few := (Call.bare name arguments).length_arguments_le_passed environment
    rw [Call.depth_le_iff, Call.legal_iff]
    simp only [Call.violations, List.append_eq_nil_iff, listed, checked_eq_nil, Call.arguments]
      at few ⊢
    grind
  | .qualified owner name arguments, level, levels, rest, sum => by
    have listed := Expression.listViolations_eq_nil arguments (.symbol ')' :: rest) sum
      (Nat.zero_le _)
    have few := (Call.qualified owner name arguments).length_arguments_le_passed environment
    rw [Call.depth_le_iff, Call.legal_iff]
    simp only [Call.violations, List.append_eq_nil_iff, listed, checked_eq_nil, Call.arguments]
      at few ⊢
    grind

theorem Expression.listViolations_eq_nil : ∀ (es : List Expression) {level levels index : Nat}
    (rest : List Terminal), level + levels = maxNesting + 1 → index ≤ maxOperand →
      (Expression.listViolations environment level rest index es = [] ↔
        index + es.length ≤ maxOperand ∧
          ∀ e ∈ es, e.depth ≤ levels ∧ e.Legal environment)
  | [], level, levels, index, rest, sum, few => by simp [Expression.listViolations, few]
  | e :: es, level, levels, index, rest, sum, few => by
    simp only [Expression.listViolations, List.append_eq_nil_iff, checked_eq_nil,
      Expression.violations_eq_nil e _ sum, List.length_cons, List.forall_mem_cons]
    by_cases room : index < maxOperand
    · have others := Expression.listViolations_eq_nil es rest sum room
      rw [others]
      grind
    · simp only [room, and_false, false_and, false_iff, not_and]
      omega

end

mutual

/-- A statement has no violations if it fits into the levels that are left and obeys the rules. -/
theorem Statement.violations_eq_nil : ∀ (statement : Statement) {level levels : Nat}
    (rest : List Terminal), level + levels = maxNesting + 1 →
      (statement.violations environment level rest = [] ↔
        statement.depth ≤ levels ∧ statement.Legal environment)
  | .assign target value, level, levels, rest, sum => by
    simp [Statement.violations, Expression.violations_eq_nil value _ sum]
    grind
  | .assignElement array index value, level, levels, rest, sum => by
    simp [Statement.violations, Expression.violations_eq_nil value _ sum,
      Expression.violations_eq_nil index _ sum]
    grind
  | .ifThen condition body, level, levels, rest, sum => by
    have block := nested_iff sum fun sum =>
      Statement.listViolations_eq_nil body (.symbol closingBrace :: rest) sum
    simp only [Statement.violations, List.append_eq_nil_iff, checked_eq_nil, and_assoc, block,
      Expression.violations_eq_nil condition _ sum, Statement.depth, Nat.max_le,
      Statement.legal_ifThen]
    exact and_congr_right fun _ => and_left_comm
  | .ifElse condition body otherwise, level, levels, rest, sum => by
    have first := nested_iff sum fun sum => Statement.listViolations_eq_nil body
      (.symbol closingBrace ::
        .keyword .«else» :: (braced (Statement.blockTerminals otherwise) ++ rest)) sum
    have second := nested_iff sum fun sum =>
      Statement.listViolations_eq_nil otherwise (.symbol closingBrace :: rest) sum
    simp only [Statement.violations, List.append_eq_nil_iff, checked_eq_nil, and_assoc, second,
      Expression.violations_eq_nil condition _ sum, Statement.depth, Nat.max_le,
      Statement.legal_ifElse]
    grind
  | .loop condition body, level, levels, rest, sum => by
    have block := nested_iff sum fun sum =>
      Statement.listViolations_eq_nil body (.symbol closingBrace :: rest) sum
    simp only [Statement.violations, List.append_eq_nil_iff, checked_eq_nil, and_assoc, block,
      Expression.violations_eq_nil condition _ sum, Statement.depth, Nat.max_le,
      Statement.legal_loop]
    exact and_congr_right fun _ => and_left_comm
  | .discard target, level, levels, rest, sum => by
    simp [Statement.violations, Call.violations_eq_nil target _ sum]
  | .giveBack none, level, levels, rest, sum => by simp [Statement.violations]
  | .giveBack (some value), level, levels, rest, sum => by
    simp [Statement.violations, Expression.violations_eq_nil value _ sum]

theorem Statement.listViolations_eq_nil : ∀ (body : List Statement) {level levels : Nat}
    (rest : List Terminal), level + levels = maxNesting + 1 →
      (Statement.listViolations environment level rest body = [] ↔
        Statement.listDepth body ≤ levels ∧ Statement.BlockLegal environment body)
  | [], level, levels, rest, sum => by
    simp [Statement.listViolations, Statement.blockLegal_iff]
  | statement :: body, level, levels, rest, sum => by
    simp [Statement.listViolations, Statement.violations_eq_nil statement _ sum,
      Statement.listViolations_eq_nil body _ sum, Statement.blockLegal_iff]
    grind

end

theorem Statement.blockViolations_eq_nil {level levels : Nat} {body : List Statement}
    (sum : level + levels = maxNesting + 1) :
    Statement.blockViolations environment level rest body = [] ↔
      Statement.blockDepth body ≤ levels ∧ Statement.BlockLegal environment body := by
  rw [Statement.blockViolations, List.append_eq_nil_iff, checked_eq_nil]
  exact nested_iff sum fun sum => Statement.listViolations_eq_nil body rest sum

theorem overflows_append (placed more : List Placed) (earlier : List Declaration) :
    overflows earlier (placed ++ more) =
      overflows earlier placed ++ overflows (recorded earlier placed) more := by
  induction placed generalizing earlier with
  | nil => rfl
  | cons p placed ih => simp [overflows, ih, recorded]

theorem recorded_append (placed more : List Placed) (earlier : List Declaration) :
    recorded earlier (placed ++ more) = recorded (recorded earlier placed) more := by
  simp [recorded]

/-- Declarations have no violations if each kind stays within its limit. -/
theorem overflows_eq_nil {placed : List Placed} {earlier : List Declaration}
    (few : ∀ kind, countOf kind earlier ≤ maxOperand) : overflows earlier placed = [] ↔
      ∀ kind, countOf kind (placed.map Prod.fst) + countOf kind earlier ≤ maxOperand := by
  induction placed generalizing earlier with
  | nil => simp [overflows, few]
  | cons p placed ih =>
    obtain ⟨d, tokens⟩ := p
    rw [overflows, List.append_eq_nil_iff, checked_eq_nil, List.map_cons]
    by_cases room : countOf d.kind earlier < maxOperand
    · have fewer (kind : VariableKind) : countOf kind (d :: earlier) ≤ maxOperand := by
        have := few kind
        rw [countOf_cons]
        split
        · rename_i same
          subst same
          omega
        · omega
      rw [ih fewer, and_iff_right room]
      simp only [countOf_cons, Nat.add_assoc, Nat.add_comm, Nat.add_left_comm]
    · -- The kind that is full already has one declaration too many.
      simp only [room, false_and, false_iff]
      intro within
      have := within d.kind
      simp only [countOf_cons, if_true] at this
      omega

theorem map_fst_inTurn {α : Type} {terminals : α → List Terminal}
    {placed : α → List Terminal → List Placed} {declarations : α → List Declaration}
    (known : ∀ a rest, (placed a rest).map Prod.fst = declarations a) (items : List α) :
    (inTurn terminals placed items rest).map Prod.fst = items.flatMap declarations := by
  induction items with
  | nil => rfl
  | cons a items ih => simp [inTurn, known, ih]

theorem VariableList.map_fst_placed (kind : VariableKind) (list : VariableList) :
    (list.placed kind rest).map Prod.fst = list.declarations kind := by
  have each (name : String) (rest : List Terminal) :
      List.map Prod.fst [(Declaration.mk name list.type.text kind, .identifier name :: rest)] =
        [{ name, type := list.type.text, kind }] := rfl
  rw [placed, map_fst_inTurn each, declarations, List.map_eq_flatMap]

theorem ClassDeclaration.map_fst_placed (c : ClassDeclaration) :
    c.placed.map Prod.fst = c.declarations :=
  map_fst_inTurn (fun d _ => d.list.map_fst_placed d.kind) c.classVariables

theorem map_fst_placedParameters (parameters : List Parameter) :
    (placedParameters parameters rest).map Prod.fst = parameters.map Parameter.declaration := by
  have each (parameter : Parameter) (rest : List Terminal) :
      List.map Prod.fst [(parameter.declaration, .identifier parameter.name :: rest)] =
        [parameter.declaration] := rfl
  rw [placedParameters, map_fst_inTurn each, List.map_eq_flatMap]

theorem SubroutineDeclaration.map_fst_placed (s : SubroutineDeclaration) (className : String) :
    s.receivers className ++ (s.placed rest).map Prod.fst = s.declarations className := by
  rw [placed, List.map_append, map_fst_placedParameters,
    map_fst_inTurn fun list _ => list.map_fst_placed .«local», ← List.append_assoc]
  rfl

theorem ClassDeclaration.recorded_placed (c : ClassDeclaration) :
    recorded [] c.placed = c.declarations.reverse := by
  rw [recorded, c.map_fst_placed, List.append_nil]

theorem SubroutineDeclaration.recorded_placed (s : SubroutineDeclaration) (className : String)
    (rest : List Terminal) :
    recorded (s.receivers className) (s.placed rest) = (s.declarations className).reverse := by
  have receivers : (s.receivers className).reverse = s.receivers className := by
    unfold SubroutineDeclaration.receivers
    split <;> rfl
  rw [recorded, ← s.map_fst_placed, List.reverse_append, receivers]

/-- A subroutine has no violations if its class admits it. -/
theorem ClassDeclaration.violationsOf_eq_nil {c : ClassDeclaration} {s : SubroutineDeclaration} :
    c.violationsOf s rest = [] ↔ c.Admits s := by
  have few (kind : VariableKind) : countOf kind (s.receivers c.name) ≤ maxOperand := by
    unfold SubroutineDeclaration.receivers maxOperand
    split <;> simp [countOf_cons]
    split <;> omega
  have counts (kind : VariableKind) : countOf kind ((s.placed rest).map Prod.fst) +
      countOf kind (s.receivers c.name) = countOf kind (s.declarations c.name) := by
    rw [← s.map_fst_placed, countOf_append, Nat.add_comm]
  rw [violationsOf, List.append_eq_nil_iff, overflows_eq_nil few,
    Statement.blockViolations_eq_nil (Nat.add_comm 1 maxNesting)]
  simp only [counts, SubroutineDeclaration.countOf_declarations]
  constructor
  · rintro ⟨within, nesting, body⟩
    exact ⟨within .argument, within .«local», nesting, body⟩
  · rintro ⟨arguments, locals, nesting, body⟩
    refine ⟨fun kind => ?_, nesting, body⟩
    cases kind with
    | argument => exact arguments
    | «local» => exact locals
    | static | field => exact Nat.zero_le _

/-- A class has no violations if and only if it obeys the rules. -/
theorem ClassDeclaration.violations_eq_nil_iff {c : ClassDeclaration} :
    c.violations = [] ↔ c.Lawful := by
  rw [violations, List.append_eq_nil_iff, overflows_eq_nil (by simp), c.map_fst_placed,
    inTurn_eq_nil fun s rest => (violationsOf_eq_nil : c.violationsOf s rest = [] ↔ c.Admits s)]
  simp only [countOf_nil, Nat.add_zero]
  constructor
  · rintro ⟨within, subroutines⟩
    exact ⟨within .static, within .field, subroutines⟩
  · rintro ⟨statics, fields, subroutines⟩
    refine ⟨fun kind => ?_, subroutines⟩
    cases kind with
    | static => exact statics
    | field => exact fields
    | argument | «local» => rw [countOf_declarations rfl]; exact Nat.zero_le _

end Obeyed

end JackCompiler.Grammar
