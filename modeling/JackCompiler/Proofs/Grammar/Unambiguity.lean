import JackCompiler.Proofs.Grammar.Tree

/-!
# The grammar is unambiguous

A token list is derived by at most one tree. For a phrase inside a class this needs a word on what
stands behind it: the list `x` is a term in front of `;`, but only the beginning of one in front of
`[`. Each phrase is therefore told apart in front of any list that does not continue it.

## Main definitions

* `Ends` — a list does not begin with a terminal that would continue a phrase
* `Recognizable` — a phrase is the only one that a list begins with

## Main results

* `Expression.recognizable`, `Statement.recognizable` — the recursive productions
* `ClassDeclaration.terminals_injective` — the grammar of classes
-/

namespace JackCompiler.Grammar

/-- What may continue a term that is a name. -/
def continuesTerm : Terminal → Bool
  | .symbol c => c ∈ ['[', '(', '.']
  | _ => false

/-- What may continue an expression. -/
def continuesExpression : Terminal → Bool
  | .symbol c => c ∈ ['[', '(', '.'] || (BinaryOperator.ofSymbol? c).isSome
  | _ => false

/-- What may continue an `if` with one block. -/
def continuesStatement (terminal : Terminal) : Bool :=
  terminal == .keyword .«else»

/-- What a term begins with. -/
def startsTerm : Terminal → Bool
  | .keyword word => word ∈ [.«true», .«false», .null, .this]
  | .symbol c => c ∈ ['(', '-', '~']
  | _ => true

/-- What a statement begins with. -/
def startsStatement : Terminal → Bool
  | .keyword word => word ∈ [.«let», .«if», .«while», .«do», .«return»]
  | _ => false

/-- A terminal, if there is one, does not continue a phrase. -/
def Ends (continues : Terminal → Bool) (next : Option Terminal) : Prop :=
  ∀ terminal ∈ next, continues terminal = false

/-- Nothing continues a phrase that its last terminal closes. -/
abbrev continuesNothing : Terminal → Bool := fun _ => false

theorem ends_continuesNothing (next : Option Terminal) : Ends continuesNothing next :=
  fun _ _ => rfl

section Lists

variable {α : Type} {f : α → List Terminal} {continues starts : Terminal → Bool}
  {rest rest' : List Terminal}

@[simp] theorem ends_none : Ends continues none := by simp [Ends]

@[simp] theorem ends_some {terminal : Terminal} :
    Ends continues (some terminal) ↔ continues terminal = false := by simp [Ends]

theorem Ends.cons {terminal : Terminal} (stops : continues terminal = false) :
    Ends continues (terminal :: rest).head? := by
  simpa using stops

theorem Ends.term {next : Option Terminal} (h : Ends continuesExpression next) :
    Ends continuesTerm next := by
  intro terminal mem
  have ends := h terminal mem
  cases terminal <;> simp_all [continuesExpression, continuesTerm]

/-- The list of `a` is told apart from the list of everything else, whatever does not continue it
behind it. -/
def Recognizable (f : α → List Terminal) (continues : Terminal → Bool) (a : α) : Prop :=
  ∀ b rest rest', Ends continues rest.head? → Ends continues rest'.head? →
    f a ++ rest = f b ++ rest' → a = b ∧ rest = rest'

/-- Repeated phrases are told apart if what begins one is never what follows the last. -/
theorem flatMap_recognizable (start : ∀ b, ∃ x l, f b = x :: l ∧ starts x = true)
    (apart : ∀ x, starts x = true → continues x = false) {xs : List α} :
    ∀ {ys : List α}, (∀ x ∈ xs, Recognizable f continues x) →
      Ends continues rest.head? → Ends continues rest'.head? →
      Ends starts rest.head? → Ends starts rest'.head? →
      xs.flatMap f ++ rest = ys.flatMap f ++ rest' → xs = ys ∧ rest = rest' := by
  -- Behind a phrase stands the next one or what follows all, and neither continues it.
  have ends {ys : List α} {rest : List Terminal} (h : Ends continues rest.head?) :
      Ends continues (ys.flatMap f ++ rest).head? := by
    cases ys with
    | nil => exact h
    | cons y ys =>
      obtain ⟨x, l, begins, starting⟩ := start y
      simp [begins, apart x starting]
  -- The induction is on the one list, and the other is split beside it. Where only one of the two
  -- has ended, what begins a phrase would follow the last.
  induction xs with
  | nil =>
    rintro (_ | ⟨y, ys⟩) - - - stop - eq
    · exact ⟨rfl, eq⟩
    · obtain ⟨x, l, begins, starting⟩ := start y
      simp [begins] at eq
      simp [eq, starting] at stop
  | cons x xs ih =>
    rintro (_ | ⟨y, ys⟩) known last last' stop stop' eq
    · obtain ⟨z, l, begins, starting⟩ := start x
      simp [begins] at eq
      simp [← eq, starting] at stop'
    · simp only [List.flatMap_cons, List.append_assoc] at eq
      obtain ⟨rfl, tail⟩ := known x (by simp) _ _ _ (ends last) (ends last') eq
      obtain ⟨rfl, rfl⟩ := ih (fun x mem => known x (by simp [mem])) last last' stop stop' tail
      exact ⟨rfl, rfl⟩

/-- Phrases behind commas are told apart in front of anything but a comma. -/
theorem behindCommas_recognizable (comma : continues (.symbol ',') = false) {xs : List α} :
    ∀ {ys : List α}, (∀ x ∈ xs, Recognizable f continues x) →
      Ends continues rest.head? → Ends continues rest'.head? →
      rest.head? ≠ some (.symbol ',') → rest'.head? ≠ some (.symbol ',') →
      behindCommas (xs.map f) ++ rest = behindCommas (ys.map f) ++ rest' →
      xs = ys ∧ rest = rest' := by
  have ends {ys : List α} {rest : List Terminal} (h : Ends continues rest.head?) :
      Ends continues (behindCommas (ys.map f) ++ rest).head? := by
    cases ys with
    | nil => exact h
    | cons y ys => simp [behindCommas, comma]
  -- As above, with the comma in place of what begins a phrase.
  induction xs with
  | nil =>
    rintro (_ | ⟨y, ys⟩) - - - stop - eq
    · exact ⟨rfl, eq⟩
    · simp [behindCommas] at eq
      simp [eq] at stop
  | cons x xs ih =>
    rintro (_ | ⟨y, ys⟩) known last last' stop stop' eq
    · simp [behindCommas] at eq
      simp [← eq] at stop'
    · simp only [List.map_cons, behindCommas, List.flatMap_cons, List.cons_append,
        List.append_assoc, List.cons.injEq, true_and] at eq
      obtain ⟨rfl, tail⟩ := known x (by simp) _ _ _ (ends last) (ends last') eq
      obtain ⟨rfl, rfl⟩ := ih (fun x mem => known x (by simp [mem])) last last' stop stop' tail
      exact ⟨rfl, rfl⟩

/-- A list with commas between its phrases is told apart in front of a terminal that neither
continues nor begins a phrase. -/
theorem commaSeparated_recognizable (comma : continues (.symbol ',') = false) {close : Terminal}
    (start : ∀ b, ∃ x l, f b = x :: l ∧ x ≠ close) (notComma : close ≠ .symbol ',')
    (last : continues close = false) {xs ys : List α} (known : ∀ x ∈ xs, Recognizable f continues x)
    (eq : commaSeparated (xs.map f) ++ close :: rest =
      commaSeparated (ys.map f) ++ close :: rest') :
    xs = ys ∧ rest = rest' := by
  have ends {ys : List α} {rest : List Terminal} :
      Ends continues (behindCommas (ys.map f) ++ close :: rest).head? := by
    cases ys <;> simp [behindCommas, last, comma]
  cases xs with
  | nil =>
    cases ys with
    | nil => simpa [commaSeparated] using eq
    | cons y ys =>
      obtain ⟨x, l, begins, different⟩ := start y
      simp [commaSeparated, begins, different.symm] at eq
  | cons x xs =>
    cases ys with
    | nil =>
      obtain ⟨z, l, begins, different⟩ := start x
      simp [commaSeparated, begins, different] at eq
    | cons y ys =>
      simp only [List.map_cons, commaSeparated, List.append_assoc] at eq
      obtain ⟨rfl, tail⟩ := known x (by simp) _ _ _ ends ends eq
      obtain ⟨rfl, tail⟩ := behindCommas_recognizable comma
        (fun x mem => known x (by simp [mem])) (by simp [last]) (by simp [last])
        (by simpa using notComma) (by simpa using notComma) tail
      exact ⟨rfl, by simpa using tail⟩

end Lists

/-! ### What phrases begin with -/

/-- A call is a name in front of a parenthesis or a dot. -/
theorem Call.starts (target : Call) :
    ∃ name c l, target.terminals = .identifier name :: .symbol c :: l ∧ c ∈ ['(', '.'] := by
  cases target with
  | bare name arguments =>
    exact ⟨name, '(', _, by rw [Call.terminals, parenthesized, List.cons_append], by decide⟩
  | qualified owner name arguments =>
    exact ⟨owner, '.', _, by rw [Call.terminals], by decide⟩

theorem Term.starts (term : Term) : ∃ x l, term.terminals = x :: l ∧ startsTerm x = true := by
  cases term with
  | integer digits => exact ⟨_, _, by rw [Term.terminals], rfl⟩
  | string contents => exact ⟨_, _, by rw [Term.terminals], rfl⟩
  | constant word => exact ⟨_, _, by rw [Term.terminals], by cases word <;> decide⟩
  | named name => exact ⟨_, _, by rw [Term.terminals], rfl⟩
  | element array index => exact ⟨_, _, by rw [Term.terminals, List.cons_append], rfl⟩
  | call target =>
    obtain ⟨name, c, l, begins, -⟩ := target.starts
    exact ⟨_, _, by rw [Term.terminals, begins], rfl⟩
  | parentheses inner =>
    exact ⟨_, _, by rw [Term.terminals, parenthesized, List.cons_append], by decide⟩
  | unary operator operand =>
    exact ⟨_, _, by rw [Term.terminals], by cases operator <;> decide⟩

theorem Expression.starts (e : Expression) :
    ∃ x l, e.terminals = x :: l ∧ startsTerm x = true := by
  cases e with
  | single term => simpa [Expression.terminals] using term.starts
  | binary left operator right =>
    obtain ⟨x, l, begins, starting⟩ := left.starts
    exact ⟨x, _, by rw [Expression.terminals, begins, List.cons_append], starting⟩

theorem Statement.starts (statement : Statement) :
    ∃ x l, statement.terminals = x :: l ∧ startsStatement x = true := by
  cases statement <;> simp [Statement.terminals, startsStatement]

/-- An expression begins with none of the symbols that stand behind an expression. -/
theorem Expression.starts_ne {c : Char} (stops : startsTerm (.symbol c) = false) (e : Expression) :
    ∃ x l, e.terminals = x :: l ∧ x ≠ .symbol c := by
  obtain ⟨x, l, begins, starting⟩ := e.starts
  refine ⟨x, l, begins, ?_⟩
  rintro rfl
  simp [stops] at starting

theorem continuesTerm_operator (operator : BinaryOperator) :
    continuesTerm (.symbol operator.symbol) = false := by
  cases operator <;> decide

theorem continuesExpression_operator (operator : BinaryOperator) :
    continuesExpression (.symbol operator.symbol) = true := by
  cases operator <;> decide

theorem UnaryOperator.symbol_ne (operator : UnaryOperator) : operator.symbol ≠ '(' := by
  cases operator <;> decide

/-- The arguments of a call are told apart in front of its closing parenthesis. -/
theorem arguments_recognizable {es es' : List Expression} {rest rest' : List Terminal}
    (known : ∀ e ∈ es, Recognizable Expression.terminals continuesExpression e)
    (eq : parenthesized (commaSeparated (Expression.pieces es)) ++ rest =
      parenthesized (commaSeparated (Expression.pieces es')) ++ rest') :
    es = es' ∧ rest = rest' := by
  simp only [parenthesized, Expression.pieces_eq_map, List.cons_append, List.append_assoc,
    List.nil_append, List.cons.injEq, true_and] at eq
  exact commaSeparated_recognizable (by decide) (Expression.starts_ne (by decide)) (by decide)
    (by decide) known eq

/-! ### Expressions

The proofs follow the trees. Names, elements and calls begin alike; the terminal behind the name
tells them apart, and for a name alone it is one that does not continue a term. -/

mutual

theorem Term.recognizable : ∀ term, Recognizable Term.terminals continuesTerm term
  | .integer digits => by
    rintro other rest rest' - - eq
    rcases other with _ | _ | _ | _ | _ | (_ | _) | _ | _ <;>
      simp_all [Term.terminals, Call.terminals, parenthesized]
  | .string contents => by
    rintro other rest rest' - - eq
    rcases other with _ | _ | _ | _ | _ | (_ | _) | _ | _ <;>
      simp_all [Term.terminals, Call.terminals, parenthesized]
  | .constant word => by
    rintro other rest rest' - - eq
    cases other with
    | constant word' =>
      simp only [Term.terminals, List.cons_append, List.nil_append, List.cons.injEq,
        Terminal.keyword.injEq] at eq
      exact ⟨by rw [ConstantWord.keyword_injective eq.1], eq.2⟩
    | call target =>
      obtain ⟨name, c, l, begins, -⟩ := target.starts
      simp [Term.terminals, begins] at eq
    | _ => simp [Term.terminals, parenthesized] at eq
  -- A name alone loses against an element or a call, since the bracket, the parenthesis or the dot
  -- would continue it.
  | .named name => by
    rintro other rest rest' ends - eq
    cases other with
    | named name' => simpa [Term.terminals] using eq
    | element array index =>
      simp [Term.terminals] at eq
      simp [eq, continuesTerm] at ends
    | call target =>
      obtain ⟨name', c, l, begins, mem⟩ := target.starts
      simp [Term.terminals, begins] at eq
      simp [eq, continuesTerm] at ends
      simp [ends] at mem
    | _ => simp [Term.terminals, parenthesized] at eq
  | .element array index => by
    rintro other rest rest' - ends' eq
    cases other with
    | element array' index' =>
      simp only [Term.terminals, List.cons_append, List.append_assoc, List.cons.injEq,
        Terminal.identifier.injEq, true_and] at eq
      obtain ⟨rfl, tail⟩ := eq
      obtain ⟨rfl, last⟩ := index.recognizable index' _ _ (.cons rfl) (.cons rfl) tail
      exact ⟨rfl, by simpa using last⟩
    | named name' =>
      simp [Term.terminals] at eq
      simp [← eq, continuesTerm] at ends'
    | call target =>
      obtain ⟨name', c, l, begins, mem⟩ := target.starts
      simp [Term.terminals, begins] at eq
      simp [← eq] at mem
    | _ => simp [Term.terminals, parenthesized] at eq
  | .call target => by
    rintro other rest rest' - ends' eq
    obtain ⟨name, c, l, begins, mem⟩ := target.starts
    cases other with
    | call target' =>
      obtain ⟨rfl, tail⟩ := target.recognizable target' rest rest'
        (ends_continuesNothing _) (ends_continuesNothing _) (by simpa [Term.terminals] using eq)
      exact ⟨rfl, tail⟩
    | named name' =>
      simp [Term.terminals, begins] at eq
      simp [← eq, continuesTerm] at ends'
      simp [ends'] at mem
    | element array index =>
      simp [Term.terminals, begins] at eq
      simp [eq] at mem
    | _ => simp [Term.terminals, begins, parenthesized] at eq
  | .parentheses inner => by
    rintro other rest rest' - - eq
    cases other with
    | parentheses inner' =>
      simp only [Term.terminals, parenthesized, List.cons_append, List.append_assoc,
        List.cons.injEq, true_and] at eq
      obtain ⟨rfl, tail⟩ := inner.recognizable inner' _ _ (.cons rfl) (.cons rfl) eq
      exact ⟨rfl, by simpa using tail⟩
    -- No unary operator is an opening parenthesis.
    | unary operator operand =>
      simp [Term.terminals, parenthesized, operator.symbol_ne.symm] at eq
    | call target =>
      obtain ⟨name, c, l, begins, -⟩ := target.starts
      simp [Term.terminals, begins, parenthesized] at eq
    | _ => simp [Term.terminals, parenthesized] at eq
  | .unary operator operand => by
    rintro other rest rest' ends ends' eq
    cases other with
    | unary operator' operand' =>
      simp only [Term.terminals, List.cons_append, List.cons.injEq, Terminal.symbol.injEq] at eq
      obtain ⟨same, tail⟩ := eq
      obtain rfl := UnaryOperator.symbol_injective same
      obtain ⟨rfl, last⟩ := operand.recognizable operand' _ _ ends ends' tail
      exact ⟨rfl, last⟩
    | parentheses inner => simp [Term.terminals, parenthesized, operator.symbol_ne] at eq
    | call target =>
      obtain ⟨name, c, l, begins, -⟩ := target.starts
      simp [Term.terminals, begins] at eq
    | _ => simp [Term.terminals] at eq

theorem Expression.recognizable :
    ∀ e, Recognizable Expression.terminals continuesExpression e
  -- Behind its first term an expression either ends or goes on with an operator. An operator does
  -- not continue the term, so the term is told apart first.
  | .single term => by
    rintro other rest rest' ends ends' eq
    cases other with
    | single term' =>
      simp only [Expression.terminals] at eq
      obtain ⟨rfl, tail⟩ := term.recognizable term' _ _ ends.term ends'.term eq
      exact ⟨rfl, tail⟩
    | binary left operator right =>
      simp only [Expression.terminals, List.append_assoc, List.cons_append] at eq
      obtain ⟨-, rfl⟩ := term.recognizable left _ _ ends.term
        (by simp [continuesTerm_operator]) eq
      simp [continuesExpression_operator] at ends
  | .binary left operator right => by
    rintro other rest rest' ends ends' eq
    cases other with
    | single term' =>
      simp only [Expression.terminals, List.append_assoc, List.cons_append] at eq
      obtain ⟨-, rfl⟩ := left.recognizable term' _ _ (by simp [continuesTerm_operator])
        ends'.term eq
      simp [continuesExpression_operator] at ends'
    | binary left' operator' right' =>
      simp only [Expression.terminals, List.append_assoc, List.cons_append] at eq
      obtain ⟨rfl, tail⟩ := left.recognizable left' _ _ (by simp [continuesTerm_operator])
        (by simp [continuesTerm_operator]) eq
      simp only [List.cons.injEq, Terminal.symbol.injEq] at tail
      obtain rfl := BinaryOperator.symbol_injective tail.1
      obtain ⟨rfl, last⟩ := right.recognizable right' _ _ ends ends' tail.2
      exact ⟨rfl, last⟩

theorem Call.recognizable : ∀ target, Recognizable Call.terminals continuesNothing target
  | .bare name arguments => by
    rintro other rest rest' - - eq
    cases other with
    | bare name' arguments' =>
      simp only [Call.terminals, List.cons_append, List.cons.injEq,
        Terminal.identifier.injEq] at eq
      obtain ⟨rfl, tail⟩ := arguments_recognizable (recognizable_of_mem arguments) eq.2
      exact ⟨by rw [eq.1], tail⟩
    | qualified owner name' arguments' => simp [Call.terminals, parenthesized] at eq
  | .qualified owner name arguments => by
    rintro other rest rest' - - eq
    cases other with
    | bare name' arguments' => simp [Call.terminals, parenthesized] at eq
    | qualified owner' name' arguments' =>
      simp only [Call.terminals, List.cons_append, List.cons.injEq, Terminal.identifier.injEq,
        true_and] at eq
      obtain ⟨rfl, rfl, tail⟩ := eq
      obtain ⟨rfl, last⟩ := arguments_recognizable (recognizable_of_mem arguments) tail
      exact ⟨rfl, last⟩

theorem recognizable_of_mem : ∀ es : List Expression, ∀ e ∈ es,
    Recognizable Expression.terminals continuesExpression e
  | [] => by simp
  | e :: es => by
    simp only [List.mem_cons, forall_eq_or_imp]
    exact ⟨e.recognizable, recognizable_of_mem es⟩

end

/-! ### Statements -/

theorem not_startsTerm_semicolon : startsTerm (.symbol ';') = false := by decide

theorem continuesStatement_of_startsStatement {x : Terminal} (h : startsStatement x = true) :
    continuesStatement x = false := by
  cases x with
  | keyword word => cases word <;> simp_all [startsStatement, continuesStatement]
  | _ => simp [continuesStatement]

/-- A condition is told apart in front of anything. -/
theorem condition_recognizable {e e' : Expression} {rest rest' : List Terminal}
    (eq : parenthesized e.terminals ++ rest = parenthesized e'.terminals ++ rest') :
    e = e' ∧ rest = rest' := by
  simp only [parenthesized, List.cons_append, List.append_assoc, List.cons.injEq, true_and] at eq
  obtain ⟨rfl, tail⟩ := e.recognizable e' _ _ (.cons rfl) (.cons rfl) eq
  exact ⟨rfl, by simpa using tail⟩

/-- A block is told apart in front of anything if its statements are. -/
theorem block_recognizable {body body' : List Statement} {rest rest' : List Terminal}
    (known : ∀ statement ∈ body, Recognizable Statement.terminals continuesStatement statement)
    (eq : braced (Statement.blockTerminals body) ++ rest =
      braced (Statement.blockTerminals body') ++ rest') :
    body = body' ∧ rest = rest' := by
  simp only [braced, Statement.blockTerminals_eq_flatMap, List.cons_append, List.append_assoc,
    List.nil_append, List.cons.injEq, true_and] at eq
  obtain ⟨rfl, tail⟩ := flatMap_recognizable Statement.starts
    (fun _ => continuesStatement_of_startsStatement) known (.cons rfl) (.cons rfl) (.cons rfl)
    (.cons rfl) eq
  exact ⟨rfl, by simpa using tail⟩

theorem returned_recognizable {value value' : Option Expression} {rest rest' : List Terminal}
    (eq : returnedTerminals value ++ .symbol ';' :: rest =
      returnedTerminals value' ++ .symbol ';' :: rest') :
    value = value' ∧ rest = rest' := by
  -- The semicolon comes at once or behind an expression, and no expression begins with one.
  cases value with
  | none =>
    cases value' with
    | none => simpa [returnedTerminals] using eq
    | some e =>
      obtain ⟨x, l, begins, different⟩ := e.starts_ne not_startsTerm_semicolon
      simp [returnedTerminals, begins, different.symm] at eq
  | some e =>
    cases value' with
    | none =>
      obtain ⟨x, l, begins, different⟩ := e.starts_ne not_startsTerm_semicolon
      simp [returnedTerminals, begins, different] at eq
    | some e' =>
      obtain ⟨rfl, tail⟩ := e.recognizable e' _ _ (.cons rfl) (.cons rfl) eq
      exact ⟨rfl, by simpa using tail⟩

mutual

theorem Statement.recognizable :
    ∀ statement, Recognizable Statement.terminals continuesStatement statement
  | .assign target value => by
    rintro other rest rest' - - eq
    cases other with
    | assign target' value' =>
      simp only [Statement.terminals, List.cons_append, List.append_assoc, List.cons.injEq,
        Terminal.identifier.injEq, true_and] at eq
      obtain ⟨rfl, tail⟩ := eq
      obtain ⟨rfl, last⟩ := value.recognizable value' _ _ (.cons rfl) (.cons rfl) tail
      exact ⟨rfl, by simpa using last⟩
    | _ => simp [Statement.terminals] at eq
  | .assignElement array index value => by
    rintro other rest rest' - - eq
    cases other with
    | assignElement array' index' value' =>
      simp only [Statement.terminals, List.cons_append, List.append_assoc, List.cons.injEq,
        Terminal.identifier.injEq, true_and] at eq
      obtain ⟨rfl, tail⟩ := eq
      obtain ⟨rfl, last⟩ := index.recognizable index' _ _ (.cons rfl) (.cons rfl) tail
      simp only [List.cons.injEq, true_and] at last
      obtain ⟨rfl, behind⟩ := value.recognizable value' _ _ (.cons rfl) (.cons rfl) last
      exact ⟨rfl, by simpa using behind⟩
    | _ => simp [Statement.terminals] at eq
  -- The two forms of `if` share their first block. In front of `else`, only the longer one is told
  -- apart.
  | .ifThen condition body => by
    rintro other rest rest' ends - eq
    cases other with
    | ifThen condition' body' =>
      simp only [Statement.terminals, List.cons_append, List.append_assoc, List.cons.injEq,
        true_and] at eq
      obtain ⟨rfl, tail⟩ := condition_recognizable eq
      obtain ⟨rfl, last⟩ := block_recognizable (recognizable_of_mem_block body) tail
      exact ⟨rfl, last⟩
    | ifElse condition' body' otherwise' =>
      simp only [Statement.terminals, List.cons_append, List.append_assoc, List.cons.injEq,
        true_and] at eq
      obtain ⟨rfl, tail⟩ := condition_recognizable eq
      obtain ⟨rfl, rfl⟩ := block_recognizable (recognizable_of_mem_block body) tail
      simp [continuesStatement] at ends
    | _ => simp [Statement.terminals] at eq
  | .ifElse condition body otherwise => by
    rintro other rest rest' - ends' eq
    cases other with
    | ifThen condition' body' =>
      simp only [Statement.terminals, List.cons_append, List.append_assoc, List.cons.injEq,
        true_and] at eq
      obtain ⟨rfl, tail⟩ := condition_recognizable eq
      obtain ⟨rfl, rfl⟩ := block_recognizable (recognizable_of_mem_block body) tail
      simp [continuesStatement] at ends'
    | ifElse condition' body' otherwise' =>
      simp only [Statement.terminals, List.cons_append, List.append_assoc, List.cons.injEq,
        true_and] at eq
      obtain ⟨rfl, tail⟩ := condition_recognizable eq
      obtain ⟨rfl, last⟩ := block_recognizable (recognizable_of_mem_block body) tail
      simp only [List.cons.injEq, true_and] at last
      obtain ⟨rfl, behind⟩ := block_recognizable (recognizable_of_mem_block otherwise) last
      exact ⟨rfl, behind⟩
    | _ => simp [Statement.terminals] at eq
  | .loop condition body => by
    rintro other rest rest' - - eq
    cases other with
    | loop condition' body' =>
      simp only [Statement.terminals, List.cons_append, List.append_assoc, List.cons.injEq,
        true_and] at eq
      obtain ⟨rfl, tail⟩ := condition_recognizable eq
      obtain ⟨rfl, last⟩ := block_recognizable (recognizable_of_mem_block body) tail
      exact ⟨rfl, last⟩
    | _ => simp [Statement.terminals] at eq
  | .discard target => by
    rintro other rest rest' - - eq
    cases other with
    | discard target' =>
      simp only [Statement.terminals, List.cons_append, List.append_assoc, List.cons.injEq,
        true_and] at eq
      obtain ⟨rfl, tail⟩ := target.recognizable target' _ _
        (ends_continuesNothing _) (ends_continuesNothing _) eq
      exact ⟨rfl, by simpa using tail⟩
    | _ => simp [Statement.terminals] at eq
  | .giveBack value => by
    rintro other rest rest' - - eq
    cases other with
    | giveBack value' =>
      simp only [Statement.terminals, List.cons_append, List.append_assoc, List.nil_append,
        List.cons.injEq, true_and] at eq
      obtain ⟨rfl, tail⟩ := returned_recognizable eq
      exact ⟨rfl, tail⟩
    | _ => simp [Statement.terminals] at eq

theorem recognizable_of_mem_block : ∀ body : List Statement, ∀ statement ∈ body,
    Recognizable Statement.terminals continuesStatement statement
  | [] => by simp
  | statement :: rest => by
    simp only [List.mem_cons, forall_eq_or_imp]
    exact ⟨statement.recognizable, recognizable_of_mem_block rest⟩

end

/-! ### Declarations -/

theorem TypeName.terminal_injective {a b : TypeName} (h : a.terminal = b.terminal) : a = b := by
  cases a <;> cases b <;> simp_all [TypeName.terminal]

theorem returnTypeTerminal_injective {a b : Option TypeName}
    (h : returnTypeTerminal a = returnTypeTerminal b) : a = b := by
  cases a with
  | none =>
    cases b with
    | none => rfl
    | some b => cases b <;> simp [returnTypeTerminal, TypeName.terminal] at h
  | some a =>
    cases b with
    | none => cases a <;> simp [returnTypeTerminal, TypeName.terminal] at h
    | some b => rw [TypeName.terminal_injective h]

theorem kindKeyword_injective {a b : SubroutineKind} (h : kindKeyword a = kindKeyword b) :
    a = b := by
  cases a <;> cases b <;> simp_all [kindKeyword]

theorem VariableList.recognizable (list : VariableList) :
    Recognizable VariableList.terminals continuesNothing list := by
  rintro other rest rest' - - eq
  simp only [VariableList.terminals, List.cons_append, List.append_assoc, List.nil_append,
    List.cons.injEq] at eq
  have known (name : String) :
      Recognizable (fun name => [Terminal.identifier name]) continuesNothing name := by
    rintro other rest rest' - - eq
    simpa using eq
  obtain ⟨names, tail⟩ := commaSeparated_recognizable rfl
    (fun name => ⟨.identifier name, [], rfl, by simp⟩) (by decide) rfl
    (fun name _ => known name) eq.2
  -- The first name is a field of its own, so the equality of all names is taken apart at the end.
  have types := TypeName.terminal_injective eq.1
  cases list
  cases other
  simp_all [VariableList.names]

theorem ClassVariables.recognizable (declaration : ClassVariables) :
    Recognizable ClassVariables.terminals continuesNothing declaration := by
  rintro other rest rest' ends ends' eq
  simp only [ClassVariables.terminals, List.cons_append, List.cons.injEq] at eq
  obtain ⟨same, tail⟩ := declaration.list.recognizable _ _ _ ends ends' eq.2
  have kinds := eq.1
  cases declaration with | mk isStatic list =>
  cases other with | mk isStatic' list' =>
  cases isStatic <;> cases isStatic' <;> simp_all [ClassVariables.keyword]

theorem localTerminals_recognizable (list : VariableList) :
    Recognizable localTerminals continuesNothing list := by
  rintro other rest rest' ends ends' eq
  simp only [localTerminals, List.cons_append, List.cons.injEq, true_and] at eq
  exact list.recognizable other rest rest' ends ends' eq

theorem Parameter.recognizable (parameter : Parameter) :
    Recognizable Parameter.terminals continuesNothing parameter := by
  rintro other rest rest' - - eq
  simp only [Parameter.terminals, List.cons_append, List.nil_append, List.cons.injEq,
    Terminal.identifier.injEq] at eq
  have types := TypeName.terminal_injective eq.1
  cases parameter
  cases other
  simp_all

theorem Parameter.starts_ne (parameter : Parameter) :
    ∃ x l, parameter.terminals = x :: l ∧ x ≠ .symbol ')' := by
  refine ⟨_, _, rfl, ?_⟩
  cases parameter.type <;> simp [TypeName.terminal]

/-- What begins a declaration of local variables. -/
def startsLocals (terminal : Terminal) : Bool :=
  terminal == .keyword .var

theorem body_recognizable {locals locals' : List VariableList} {body body' : List Statement}
    {rest rest' : List Terminal}
    (eq : braced (locals.flatMap localTerminals ++ Statement.blockTerminals body) ++ rest =
      braced (locals'.flatMap localTerminals ++ Statement.blockTerminals body') ++ rest') :
    locals = locals' ∧ body = body' ∧ rest = rest' := by
  -- The local variables end where the first statement or the brace stands.
  have ends (body : List Statement) (rest : List Terminal) :
      Ends startsLocals
        (body.flatMap Statement.terminals ++ .symbol closingBrace :: rest).head? := by
    cases body with
    | nil => exact .cons rfl
    | cons statement body =>
      obtain ⟨x, l, begins, starting⟩ := statement.starts
      cases x with
      | keyword word => cases word <;> simp_all [startsLocals, startsStatement]
      | _ => simp [begins, startsLocals]
  simp only [braced, Statement.blockTerminals_eq_flatMap, List.cons_append, List.append_assoc,
    List.nil_append, List.cons.injEq, true_and] at eq
  have starts (list : VariableList) :
      ∃ x l, localTerminals list = x :: l ∧ startsLocals x = true := ⟨_, _, rfl, by decide⟩
  obtain ⟨rfl, tail⟩ := flatMap_recognizable starts (fun _ _ => rfl)
    (fun list _ => localTerminals_recognizable list) (ends_continuesNothing _)
    (ends_continuesNothing _) (ends _ _) (ends _ _) eq
  obtain ⟨rfl, last⟩ := flatMap_recognizable Statement.starts
    (fun _ => continuesStatement_of_startsStatement)
    (fun statement _ => statement.recognizable) (.cons rfl) (.cons rfl) (.cons rfl)
    (.cons rfl) tail
  exact ⟨rfl, rfl, by simpa using last⟩

theorem SubroutineDeclaration.recognizable (s : SubroutineDeclaration) :
    Recognizable SubroutineDeclaration.terminals continuesNothing s := by
  rintro other rest rest' - - eq
  simp only [SubroutineDeclaration.terminals, parenthesized, List.cons_append, List.append_assoc,
    List.nil_append, List.cons.injEq, Terminal.keyword.injEq, Terminal.identifier.injEq,
    true_and] at eq
  obtain ⟨kinds, types, names, tail⟩ := eq
  obtain ⟨parameters, behind⟩ := commaSeparated_recognizable rfl Parameter.starts_ne (by decide)
    rfl (fun parameter _ => parameter.recognizable) tail
  obtain ⟨locals, body, last⟩ := body_recognizable behind
  have kinds := kindKeyword_injective kinds
  have types := returnTypeTerminal_injective types
  cases s
  cases other
  simp_all

/-- What begins a declaration of class variables. -/
def startsClassVariables (terminal : Terminal) : Bool :=
  terminal == .keyword .static || terminal == .keyword .field

/-- What begins a subroutine. -/
def startsSubroutine (terminal : Terminal) : Bool :=
  terminal == .keyword .constructor || terminal == .keyword .function ||
    terminal == .keyword .method

theorem SubroutineDeclaration.starts (s : SubroutineDeclaration) :
    ∃ x l, s.terminals = x :: l ∧ startsSubroutine x = true := by
  refine ⟨_, _, rfl, ?_⟩
  cases s.kind <;> decide

theorem ClassVariables.starts (declaration : ClassVariables) :
    ∃ x l, declaration.terminals = x :: l ∧ startsClassVariables x = true := by
  refine ⟨_, _, rfl, ?_⟩
  unfold ClassVariables.keyword
  split <;> decide

/-- A token list is derived by at most one class. -/
theorem ClassDeclaration.terminals_injective {c c' : ClassDeclaration}
    (eq : c.terminals = c'.terminals) : c = c' := by
  -- The class variables end where the first subroutine or the brace stands.
  have ends (subroutines : List SubroutineDeclaration) :
      Ends startsClassVariables
        (subroutines.flatMap SubroutineDeclaration.terminals ++
          [Terminal.symbol closingBrace]).head? := by
    cases subroutines with
    | nil => exact .cons rfl
    | cons s subroutines =>
      simp only [List.flatMap_cons, SubroutineDeclaration.terminals, List.cons_append,
        List.head?_cons, ends_some]
      cases s.kind <;> decide
  simp only [ClassDeclaration.terminals, braced, List.cons_append, List.append_assoc,
    List.cons.injEq, Terminal.identifier.injEq, true_and] at eq
  obtain ⟨sameVariables, tail⟩ := flatMap_recognizable ClassVariables.starts (fun _ _ => rfl)
    (fun declaration _ => declaration.recognizable) (ends_continuesNothing _)
    (ends_continuesNothing _) (ends _) (ends _) eq.2
  obtain ⟨subroutines, -⟩ := flatMap_recognizable SubroutineDeclaration.starts (fun _ _ => rfl)
    (fun s _ => s.recognizable) (ends_continuesNothing _) (ends_continuesNothing _) (.cons rfl)
    (.cons rfl) tail
  cases c
  cases c'
  simp_all

end JackCompiler.Grammar
