import JackCompiler.Proofs.Codegen.Following

/-!
# Productions follow the grammar

Every production of the compiler takes the terminals of a tree, or the beginning of them. The tree
is put together behind the last token that is taken; wherever a production fails, the tree could
still have been completed. Terms that are nested too deep follow the grammar as well, because the
grammar does not limit the nesting.

## Main results

* `Follows.term`, `Follows.statements` — terms and statements of any depth
* `Follows.classBody` — whole classes
-/

namespace JackCompiler.Codegen

open Grammar

/-- A term and what the rounds of an expression have taken behind it. -/
theorem exists_expression (t : Term) (rounds : List (BinaryOperator × Term)) :
    ∃ e : Expression, e.terminals =
      t.terminals ++ rounds.flatMap fun p => .symbol p.1.symbol :: p.2.terminals := by
  induction rounds generalizing t with
  | nil => exact ⟨.single t, by simp [Expression.terminals]⟩
  | cons first rounds ih =>
    obtain ⟨e, terminals⟩ := ih first.2
    exact ⟨.binary t first.1 e, by simp [Expression.terminals, terminals]⟩

namespace Follows

variable {s : Session} {x body : Codegen Unit}

/-! ### Expressions -/

/-- A name that has been taken is all of a call, or a dot and another name stand behind it. -/
theorem callTarget (className first : String) : Follows s (Codegen.callTarget className first)
    (anyOf fun name : Option String => (name.map fun name =>
      [Terminal.symbol '.', .identifier name]).getD []) := by
  refine .acceptSymbol (.next .takeName fun name => ?_) (.pure ⟨none, rfl⟩)
  refine .idle (.lookup? first) fun found => ?_
  cases found with
  | some v => exact .pure ⟨some name, rfl⟩
  | none => exact .pure ⟨some name, rfl⟩

theorem idle_pushReceiver (receiver : Receiver) : Idle (pushReceiver receiver) := by
  cases receiver <;> exact .emit _

theorem keywordConstant {word : Keyword} (ahead : s.tokens.next? = some (.keyword word)) :
    Follows s (Codegen.keywordConstant word) (anyOf Term.terminals) := by
  unfold Codegen.keywordConstant
  split
  · exact .next (.skip ahead) fun _ => .idle (.emit _) fun _ =>
      .of_idle (.emit _) fun _ => ⟨.constant .«true», rfl⟩
  · exact .next (.skip ahead) fun _ => .of_idle (.emit _) fun _ => ⟨.constant .«false», rfl⟩
  · exact .next (.skip ahead) fun _ => .of_idle (.emit _) fun _ => ⟨.constant .null, rfl⟩
  · exact .next (.skip ahead) fun _ => .of_idle (.emit _) fun _ => ⟨.constant .this, rfl⟩
  · exact .failExpecting ⟨(), _, .constant .this, rfl⟩

theorem idle_stringConstant (contents : List Char) : Idle (stringConstant contents) :=
  .bind (.emit _) fun _ => .bind (.emit _) fun _ => .forM fun _ => .bind (.emit _) fun _ => .emit _

section Term

variable (term : ∀ {s}, Follows s x (anyOf Term.terminals))

include term

theorem operatorRound (pending : List BinaryOperator) :
    Follows s (Codegen.operatorRound x pending)
      (rounds fun p : BinaryOperator × Term => .symbol p.1.symbol :: p.2.terminals) := by
  refine .look ?_
  cases found : s.tokens.symbol?.bind BinaryOperator.ofSymbol? with
  | none => exact .pure rfl
  | some operator =>
    obtain ⟨c, isNext, isOperator⟩ := Option.bind_eq_some_iff.mp found
    obtain rfl := BinaryOperator.ofSymbol?_eq_some_iff.mp isOperator
    have next := TokenStream.symbol?_eq_some.mp isNext
    exact .next (.skip next) fun _ => .nextPhrase term fun _ t =>
      .pure ⟨(operator, t), by simp⟩

theorem expression : Follows s (Codegen.expression x) (anyOf Expression.terminals) := by
  refine .nextPhrase term fun _ t =>
    .nextPhrase (.iterate (fun pending => .operatorRound term pending) [])
      fun operators rounds => ?_
  refine .of_idle (.forM fun operator => .emit _) fun _ => ?_
  simpa [Phrases.behind] using exists_expression t rounds

theorem elementAddress (array : Variable) :
    Follows s (Codegen.elementAddress x array)
      (anyOf fun index : Expression => index.terminals ++ [.symbol ']']) :=
  .idle (.emit _) fun _ => .nextPhrase (.expression term) fun _ index =>
    .next (.skipSymbol ']') fun _ => .of_idle (.emit _) fun _ => ⟨index, by simp⟩

theorem argumentRound (count : Nat) : Follows s (Codegen.argumentRound x count)
    (rounds fun e : Expression => .symbol ',' :: e.terminals) := by
  refine .acceptSymbol (.nextPhrase (.expression term) fun _ e => ?_) (.pure rfl)
  split
  · exact .pure ⟨e, by simp⟩
  · exact .idle .location fun _ => .failAt (by simp) ⟨some count, [], e, by simp⟩

theorem argumentList : Follows s (Codegen.argumentList x)
    (anyOf fun es => commaSeparated (Expression.pieces es)) := by
  refine .look ?_
  split
  · exact .pure ⟨[], rfl⟩
  · refine .nextPhrase (.expression term) fun _ e => ?_
    refine .lastPhrase (.iterate (fun count => .argumentRound term count) 1)
      fun _ es => ⟨e :: es, ?_⟩
    simp [commaSeparated, behindCommas, List.flatMap_map]

theorem call (className first : String) : Follows s (Codegen.call className x first)
    fun _ rest => ∃ target : Call, target.terminals = .identifier first :: rest := by
  refine .nextPhrase (.callTarget className first) fun target name =>
    .next (.skipSymbol '(') fun _ {_} => ?_
  have idle : Idle (target.receiver?.forM pushReceiver) := by
    cases target.receiver? with
    | some receiver => exact idle_pushReceiver receiver
    | none => exact .pure ()
  refine .idle idle fun _ => .nextPhrase (.argumentList term) fun explicit es {_} => ?_
  -- Whether the arguments are too many or not, a parenthesis completes the call.
  have known : ∃ call : Call, call.terminals = .identifier first ::
      ((name.map fun name => [Terminal.symbol '.', .identifier name]).getD [] ++
        parenthesized (commaSeparated (Expression.pieces es))) := by
    cases name with
    | none => exact ⟨.bare first es, rfl⟩
    | some name => exact ⟨.qualified first name es, rfl⟩
  cases target.argumentCount? explicit with
  | some count =>
    refine .next (.skipSymbol ')') fun _ => .of_idle (.emit _) fun _ => ?_
    simpa [Phrases.behind, parenthesized] using known
  | none =>
    refine .idle .location fun _ => .failAt (by simp) ⟨(), [.symbol ')'], ?_⟩
    simpa [Phrases.behind, parenthesized] using known

theorem named (className : String) :
    Follows s (Codegen.named className x) (anyOf Term.terminals) := by
  refine .idle .location fun place => .next .takeName fun name {s} => .look ?_
  have isCall : Follows s (Codegen.call className x name)
      (((anyOf Term.terminals).behind []).behind [.identifier name]) :=
    (Follows.call term className name).mono fun _ rest ⟨target, terminals⟩ =>
      ⟨.call target, by simpa [Term.terminals] using terminals⟩
  split
  · rename_i bracket
    exact .next (.skip (TokenStream.symbol?_eq_some.mp bracket)) fun _ =>
      .idle (.resolve name place) fun array =>
        .nextPhrase (.elementAddress term array) fun _ index =>
          .idle (.emit _) fun _ => .of_idle (.emit _) fun _ =>
            ⟨.element name index, by simp [Term.terminals]⟩
  · exact isCall
  · exact isCall
  · exact .idle (.resolve name place) fun v => .of_idle (.emit _) fun _ => ⟨.named name, rfl⟩

theorem operand (className : String) :
    Follows s (Codegen.operand className x) (anyOf Term.terminals) := by
  have someTerm : ∃ (u : Unit) (phrase : List Terminal),
      (anyOf Term.terminals : Phrases Unit) u phrase := ⟨(), _, .constant .this, rfl⟩
  refine .look ?_
  cases ahead : s.tokens.lookahead with
  | none => exact .failExpecting someTerm
  | some token =>
    have next {t : Terminal} (isNext : token.terminal = t) : s.tokens.next? = some t := by
      simp [TokenStream.next?, ahead, isNext]
    dsimp only
    split
    · rename_i kind
      split
      · exact .next (.skip (next (Token.terminal_eq_integer.mpr ⟨kind, rfl⟩))) fun _ =>
          .of_idle (.emit _) fun _ => ⟨.integer token.text, rfl⟩
      · exact .failExpecting someTerm
    · rename_i kind
      split
      · exact .next (.skip (next (Token.terminal_eq_string.mpr ⟨kind, rfl⟩))) fun _ =>
          .of_idle (idle_stringConstant _) fun _ => ⟨.string _, rfl⟩
      · exact .failExpecting someTerm
    · rename_i word kind
      exact .keywordConstant (next (Token.terminal_eq_keyword.mpr kind))
    · rename_i kind
      exact .next (.skip (next (Token.terminal_eq_symbol.mpr kind))) fun _ =>
        .nextPhrase (.expression term) fun _ inner => .last (.skipSymbol ')') fun _ =>
          ⟨.parentheses inner, rfl⟩
    · rename_i kind
      exact .next (.skip (next (Token.terminal_eq_symbol.mpr kind))) fun _ =>
        .nextPhrase term fun _ operand => .of_idle (.emit _) fun _ =>
          ⟨.unary .neg operand, by simp [Term.terminals, UnaryOperator.symbol]⟩
    · rename_i kind
      exact .next (.skip (next (Token.terminal_eq_symbol.mpr kind))) fun _ =>
        .nextPhrase term fun _ operand => .of_idle (.emit _) fun _ =>
          ⟨.unary .not operand, by simp [Term.terminals, UnaryOperator.symbol]⟩
    · exact .named term className
    · exact .failExpecting someTerm

end Term

/-- Terms of any depth: each level is given the step for the one below. -/
theorem term (className : String) (levels : Nat) :
    ∀ {s}, Follows s (Codegen.term className levels) (anyOf Term.terminals) := by
  induction levels with
  | zero => exact .idle .location fun _ => .failAt (by simp) ⟨(), _, .constant .this, rfl⟩
  | succ levels ih => exact .operand ih className

/-! ### Statements -/

theorem idle_jumpUnless (label : String) : Idle (jumpUnless label) :=
  .bind (.emit _) fun _ => .emit _

theorem idle_reportMissingValue (subroutine : Subroutine) :
    Idle (reportMissingValue subroutine) := by
  unfold reportMissingValue
  split
  · exact .bind .location fun _ => .report _
  · exact .pure ()

theorem block {τ : Type} {phrase : τ → List Terminal}
    (inside : ∀ {s}, Follows s body (anyOf phrase)) :
    Follows s (Codegen.block body) (anyOf fun p => braced (phrase p)) :=
  .next (.skipSymbol _) fun _ => .nextPhrase inside fun _ p => .last (.skipSymbol _) fun _ =>
    ⟨p, rfl⟩

section Statement

variable (term : ∀ {s}, Follows s x (anyOf Term.terminals))

include term

theorem condition : Follows s (Codegen.condition x)
    (anyOf fun e : Expression => parenthesized e.terminals) :=
  .next (.skipSymbol '(') fun _ => .nextPhrase (.expression term) fun _ e =>
    .last (.skipSymbol ')') fun _ => ⟨e, rfl⟩

theorem letStatement : Follows s (Codegen.letStatement x) (anyOf Statement.terminals) := by
  refine .next (.skipKeyword .«let») fun _ => .idle .location fun place =>
    .next .takeName fun name => .idle (.resolve name place) fun v =>
      .acceptSymbol ?_ ?_
  · exact .nextPhrase (.elementAddress term v) fun _ index => .next (.skipSymbol '=') fun _ =>
      .nextPhrase (.expression term) fun _ value => .next (.skipSymbol ';') fun _ =>
        .idle (.emit _) fun _ => .idle (.emit _) fun _ =>
          .idle (.emit _) fun _ => .of_idle (.emit _) fun _ =>
            ⟨.assignElement name index value, by simp [Statement.terminals]⟩
  · exact .next (.skipSymbol '=') fun _ => .nextPhrase (.expression term) fun _ value =>
      .next (.skipSymbol ';') fun _ => .of_idle (.emit _) fun _ =>
        ⟨.assign name value, by simp [Statement.terminals]⟩

theorem ifStatement (statements : ∀ {s}, Follows s body (anyOf Statement.blockTerminals)) :
    Follows s (Codegen.ifStatement x body) (anyOf Statement.terminals) := by
  refine .next (.skipKeyword .«if») fun _ => .nextPhrase (.condition term) fun _ condition =>
    .idle .freshLabel fun number => .idle (idle_jumpUnless _) fun _ =>
      .nextPhrase (.block statements) fun _ first => .acceptKeyword ?_ ?_
  · exact .idle (.emit _) fun _ => .idle (.emit _) fun _ =>
      .nextPhrase (.block statements) fun _ second => .of_idle (.emit _) fun _ =>
        ⟨.ifElse condition first second, by simp [Statement.terminals]⟩
  · exact .of_idle (.emit _) fun _ =>
      ⟨.ifThen condition first, by simp [Statement.terminals]⟩

theorem whileStatement (statements : ∀ {s}, Follows s body (anyOf Statement.blockTerminals)) :
    Follows s (Codegen.whileStatement x body) (anyOf Statement.terminals) :=
  .idle .freshLabel fun number => .next (.skipKeyword .«while») fun _ =>
    .idle (.emit _) fun _ => .nextPhrase (.condition term) fun _ condition =>
      .idle (idle_jumpUnless _) fun _ => .nextPhrase (.block statements) fun _ body =>
        .idle (.emit _) fun _ => .of_idle (.emit _) fun _ =>
          ⟨.loop condition body, by simp [Statement.terminals]⟩

theorem doStatement (className : String) :
    Follows s (Codegen.doStatement className x) (anyOf Statement.terminals) := by
  refine .next (.skipKeyword .«do») fun _ => .next .takeName fun name =>
    .bind (.call term className name) fun _ rest known => ?_
  obtain ⟨target, terminals⟩ := known
  exact .next (.skipSymbol ';') fun _ => .of_idle (.emit _) fun _ =>
    ⟨.discard target, by simp [Statement.terminals, terminals]⟩

theorem returnedValue (subroutine : Subroutine) :
    Follows s (Codegen.returnedValue subroutine x) (anyOf returnedTerminals) := by
  refine .look ?_
  split
  · exact .idle (idle_reportMissingValue subroutine) fun _ =>
      .of_idle (.emit _) fun _ => ⟨none, rfl⟩
  · exact .lastPhrase (.expression term) fun _ e => ⟨some e, rfl⟩

theorem returnStatement (subroutine : Subroutine) :
    Follows s (Codegen.returnStatement subroutine x) (anyOf Statement.terminals) :=
  .next (.skipKeyword .«return») fun _ => .nextPhrase (.returnedValue term subroutine)
    fun _ value => .next (.skipSymbol ';') fun _ => .of_idle (.emit _) fun _ =>
      ⟨.giveBack value, by simp [Statement.terminals]⟩

theorem statement (subroutine : Subroutine)
    (statements : ∀ {s}, Follows s body (anyOf Statement.blockTerminals)) :
    Follows s (Codegen.statement subroutine x body) (ifAny Statement.terminals) := by
  have found {y : Codegen Unit} (follows : Follows s y (anyOf Statement.terminals)) :
      Follows s (do y; return true) (ifAny Statement.terminals) :=
    .nextPhrase follows fun _ statement => .pure ⟨statement, by simp⟩
  refine .look ?_
  split
  · exact found (.letStatement term)
  · exact found (.ifStatement term statements)
  · exact found (.whileStatement term statements)
  · exact found (.doStatement term _)
  · exact found (.returnStatement term subroutine)
  · exact .pure rfl

end Statement

/-- Statements of any depth: each level is given the steps for the one below. -/
theorem statements (subroutine : Subroutine) (levels : Nat) :
    ∀ {s}, Follows s (Codegen.statements subroutine levels) (anyOf Statement.blockTerminals) := by
  induction levels with
  | zero => exact .idle .location fun _ => .failAt (by simp) ⟨(), _, [], rfl⟩
  | succ levels ih =>
    exact .lastPhrase (.repeatWhile (.statement (.term _ levels) subroutine ih)) fun _ body =>
      ⟨body, Statement.blockTerminals_eq_flatMap body⟩

/-! ### Declarations -/

theorem typeName :
    Follows s Codegen.typeName (anyOf fun type : TypeName => [type.terminal]) := by
  have someType : ∃ (u : String) (phrase : List Terminal),
      (anyOf fun type : TypeName => [type.terminal] : Phrases String) u phrase :=
    ⟨"", _, .int, rfl⟩
  refine .look ?_
  split
  · rename_i word kind
    split
    · rename_i isType
      refine .next (.skip (TokenStream.kind?_eq_keyword.mp kind)) fun _ => .pure ?_
      simp only [List.mem_cons, List.not_mem_nil, or_false] at isType
      rcases isType with rfl | rfl | rfl
      · exact ⟨.int, rfl⟩
      · exact ⟨.char, rfl⟩
      · exact ⟨.boolean, rfl⟩
    · exact .failExpecting someType
  · exact .last .takeName fun name => ⟨.named name, rfl⟩
  · exact .failExpecting someType

theorem declareNext (type : String) (kind : VariableKind) :
    Follows s (Codegen.declareNext type kind) (anyOf fun name : String => [.identifier name]) :=
  .idle .location fun place => .next .takeName fun name =>
    .of_idle (.declare name type kind place) fun _ => ⟨name, rfl⟩

theorem separatedByCommas {τ : Type} {phrase : τ → List Terminal}
    (item : ∀ {s}, Follows s x (anyOf phrase)) :
    Follows s (Codegen.separatedByCommas x)
      (anyOf fun list : τ × List τ => commaSeparated ((list.1 :: list.2).map phrase)) := by
  have round {s : Session} : Follows s (do
      if ← Codegen.acceptSymbol ',' then
        x
        return true
      else return false) (ifAny fun p => .symbol ',' :: phrase p) :=
    .acceptSymbol (.nextPhrase item fun _ p => .pure ⟨p, by simp⟩) (.pure rfl)
  refine .nextPhrase item fun _ first => .lastPhrase (.repeatWhile round) fun _ others =>
    ⟨(first, others), ?_⟩
  simp [commaSeparated, behindCommas, List.flatMap_map]

theorem variableNames (kind : VariableKind) :
    Follows s (Codegen.variableNames kind) (anyOf VariableList.terminals) :=
  .nextPhrase .typeName fun _ type => .nextPhrase (.separatedByCommas (.declareNext _ kind))
    fun _ names => .last (.skipSymbol ';') fun _ =>
      ⟨{ type, first := names.1, others := names.2 },
        by simp [VariableList.terminals, VariableList.names]⟩

theorem classVariables : Follows s Codegen.classVariables (ifAny ClassVariables.terminals) := by
  refine .look ?_
  split
  · rename_i isStatic
    exact .next (.skip (TokenStream.keyword?_eq_some.mp isStatic)) fun _ =>
      .nextPhrase (.variableNames .static) fun _ list => .pure
        ⟨{ isStatic := true, list }, by simp [ClassVariables.terminals, ClassVariables.keyword]⟩
  · rename_i isField
    exact .next (.skip (TokenStream.keyword?_eq_some.mp isField)) fun _ =>
      .nextPhrase (.variableNames .field) fun _ list => .pure
        ⟨{ isStatic := false, list }, by simp [ClassVariables.terminals, ClassVariables.keyword]⟩
  · exact .pure rfl

theorem localVariables : Follows s Codegen.localVariables (ifAny localTerminals) := by
  refine .look ?_
  split
  · rename_i isLocal
    exact .next (.skip (TokenStream.keyword?_eq_some.mp isLocal)) fun _ =>
      .nextPhrase (.variableNames .«local») fun _ list => .pure ⟨list, by simp [localTerminals]⟩
  · exact .pure rfl

theorem parameters : Follows s Codegen.parameters
    (anyOf fun list : List Parameter => commaSeparated (list.map Parameter.terminals)) := by
  refine .look ?_
  split
  · exact .pure ⟨[], rfl⟩
  · have item {s : Session} : Follows s (do Codegen.declareNext (← Codegen.typeName) .argument)
        (anyOf Parameter.terminals) :=
      .nextPhrase .typeName fun _ type => .lastPhrase (.declareNext _ .argument) fun _ name =>
        ⟨{ type, name }, rfl⟩
    exact .lastPhrase (.separatedByCommas item) fun _ list => ⟨list.1 :: list.2, rfl⟩

theorem idle_declareReceiver (kind : SubroutineKind) (className : String) (place : Location) :
    Idle (declareReceiver kind className place) := by
  cases kind with
  | method => exact .declare ..
  | constructor | function => exact .pure ()

theorem idle_prologue (kind : SubroutineKind) : Idle (prologue kind) := by
  cases kind with
  | constructor =>
    exact .bind (.declarations .field) fun _ => .bind (.emit _) fun _ => .bind (.emit _)
      fun _ => .emit _
  | method => exact .bind (.emit _) fun _ => .emit _
  | function => exact .pure ()

theorem subroutineBody (kind : SubroutineKind) (subroutine : Subroutine) :
    Follows s (Codegen.subroutineBody kind subroutine)
      (anyOf fun body : List VariableList × List Statement =>
        body.1.flatMap localTerminals ++ Statement.blockTerminals body.2) :=
  .nextPhrase (.repeatWhile .localVariables) fun _ locals =>
    .idle (.declarations .«local») fun _ => .idle (.emit _) fun _ =>
      .idle (idle_prologue kind) fun _ =>
        .lastPhrase (.statements subroutine maxNesting) fun _ body => ⟨(locals, body), rfl⟩

theorem returnType : Follows s Codegen.returnType
    (anyOf fun type : Option TypeName => [returnTypeTerminal type]) := by
  refine .acceptKeyword (.pure ⟨none, rfl⟩) ?_
  exact .nextPhrase .typeName fun _ type => .pure ⟨some type, rfl⟩

theorem subroutineOf (className : String) (kind : SubroutineKind) :
    Follows s (Codegen.subroutineOf className kind) fun _ rest =>
      ∃ d : SubroutineDeclaration, d.terminals = .keyword (kindKeyword kind) :: rest :=
  .idle .startSubroutine fun _ => .nextPhrase .returnType fun _ returnType =>
    .idle .location fun place => .next .takeName fun name =>
      .idle (.report _) fun _ =>
        .idle (idle_declareReceiver kind className place) fun _ =>
          .next (.skipSymbol '(') fun _ => .nextPhrase .parameters fun _ parameters =>
            .next (.skipSymbol ')') fun _ => .lastPhrase (.block (.subroutineBody kind _))
              fun _ body => ⟨
                { kind, returnType, name, parameters, locals := body.1, body := body.2 },
                by simp [SubroutineDeclaration.terminals, parenthesized]⟩

theorem subroutine (className : String) :
    Follows s (Codegen.subroutine className) (ifAny SubroutineDeclaration.terminals) := by
  have found (kind : SubroutineKind) (isNext : s.tokens.keyword? = some (kindKeyword kind)) :
      Follows s (do Codegen.skip; Codegen.subroutineOf className kind; return true)
        (ifAny SubroutineDeclaration.terminals) := by
    refine .next (.skip (TokenStream.keyword?_eq_some.mp isNext)) fun _ =>
      .bind (.subroutineOf className kind) fun _ rest known => .pure ?_
    obtain ⟨d, terminals⟩ := known
    exact ⟨d, by simp [terminals]⟩
  refine .look ?_
  split
  · rename_i isConstructor
    exact found .constructor isConstructor
  · rename_i isFunction
    exact found .function isFunction
  · rename_i isMethod
    exact found .method isMethod
  · exact .pure rfl

theorem expectEnd : Follows s Codegen.expectEnd (only fun _ => []) := by
  refine .look ?_
  split
  · exact .failExpecting ⟨(), _, rfl⟩
  · exact .pure rfl

/-- **A compilation follows the grammar of classes.** -/
theorem classBody : Follows s Codegen.classBody (anyOf ClassDeclaration.terminals) :=
  .idle .location fun _ => .idle (.report _) fun _ =>
    .next (.skipKeyword .«class») fun _ => .next .takeName fun name =>
      .next (.skipSymbol _) fun _ => .nextPhrase (.repeatWhile .classVariables)
        fun _ classVariables => .nextPhrase (.repeatWhile (.subroutine name))
          fun _ subroutines => .next (.skipSymbol _) fun _ => .last .expectEnd fun _ =>
            ⟨{ name, classVariables, subroutines },
              by simp [ClassDeclaration.terminals, braced]⟩

end Follows

end JackCompiler.Codegen
