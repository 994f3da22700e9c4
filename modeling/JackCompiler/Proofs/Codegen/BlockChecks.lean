import JackCompiler.Proofs.Codegen.Checks

/-!
# What is checked in blocks

On the token list of a statement, the step for statements meets the violations of the statement and
nothing else. Only an `if` with one block looks at what stands behind it, which must not be `else`.

## Main definitions

* `Codegen.MeetsBlocks` — a step meets the violations of blocks

## Main results

* `Codegen.statement_meets`, `Codegen.statements_meet` — statements and blocks
* `Codegen.statements_meet_of_ends` — statements in front of whatever does not continue them
-/

namespace JackCompiler.Codegen

open Grammar

/-- A step meets the violations of every block at a level of nesting. -/
def MeetsBlocks (script : Script) (environment : Environment) (visible : VariableTable)
    (level : Nat) (step : Codegen Unit) : Prop :=
  ∀ (body : List Statement) (rest : List Terminal),
    Meets script step ⟨visible, Statement.blockTerminals body ++ .symbol closingBrace :: rest⟩
      (Statement.blockViolations environment level (.symbol closingBrace :: rest) body) ()
      ⟨visible, .symbol closingBrace :: rest⟩

variable {script : Script} {environment : Environment} {visible : VariableTable} {level : Nat}
  {step inner : Codegen Unit} {rest : List Terminal} {o : Outlook} {subroutine : Subroutine}

theorem assign_meets (terms : MeetsTerms script environment visible level step)
    (means : visible.lookup? = environment.lookup?) (target : String) (value : Expression) :
    Meets script (letStatement step)
      ⟨visible, (Statement.assign target value).terminals ++ rest⟩
      ((Statement.assign target value).violations environment level rest) ()
      ⟨visible, rest⟩ := by
  have valued : Meets script (expression step) ⟨visible, value.terminals ++ .symbol ';' :: rest⟩
      (value.violations environment level (.symbol ';' :: rest)) ()
      ⟨visible, .symbol ';' :: rest⟩ := expression_meets terms value (.cons rfl)
  rw [Statement.violations]
  simp only [Statement.terminals, List.cons_append, List.append_assoc, List.nil_append]
  exact (meets_skipKeyword .«let»).next (meets_location_bind (by simp) fun place placed =>
    (meets_takeName target).next (meets_resolve_bind means placed fun v =>
      ((meets_acceptSymbol_other (by simp)).next ((meets_skipSymbol '=').next
        (valued.last ((meets_skipSymbol ';').next (meets_emit _)))))))

theorem assignElement_meets (terms : MeetsTerms script environment visible level step)
    (means : visible.lookup? = environment.lookup?) (array : String)
    (index value : Expression) :
    Meets script (letStatement step)
      ⟨visible, (Statement.assignElement array index value).terminals ++ rest⟩
      ((Statement.assignElement array index value).violations environment level rest) ()
      ⟨visible, rest⟩ := by
  have valued : Meets script (expression step) ⟨visible, value.terminals ++ .symbol ';' :: rest⟩
      (value.violations environment level (.symbol ';' :: rest)) ()
      ⟨visible, .symbol ';' :: rest⟩ := expression_meets terms value (.cons rfl)
  rw [Statement.violations, List.append_assoc]
  simp only [Statement.terminals, List.cons_append, List.append_assoc, List.nil_append]
  exact (meets_skipKeyword .«let»).next (meets_location_bind (by simp) fun place placed =>
    (meets_takeName array).next (meets_resolve_bind means placed fun v =>
      ((meets_acceptSymbol '[').next ((elementAddress_meets terms _ index v).bind
        ((meets_skipSymbol '=').next (valued.last ((meets_skipSymbol ';').next
          ((meets_emit _).next ((meets_emit _).next ((meets_emit _).next (meets_emit _)))))))))))

theorem condition_meets (terms : MeetsTerms script environment visible level step)
    (e : Expression) (rest : List Terminal) :
    Meets script (condition step) ⟨visible, parenthesized e.terminals ++ rest⟩
      (e.violations environment level (.symbol ')' :: rest)) () ⟨visible, rest⟩ := by
  have inside : Meets script (expression step) ⟨visible, e.terminals ++ .symbol ')' :: rest⟩
      (e.violations environment level (.symbol ')' :: rest)) ()
      ⟨visible, .symbol ')' :: rest⟩ := expression_meets terms e (.cons rfl)
  simp only [parenthesized, List.cons_append, List.append_assoc, List.nil_append]
  exact (meets_skipSymbol '(').next (inside.last (meets_skipSymbol ')'))

theorem jumpUnless_meets (label : String) : Meets script (jumpUnless label) o [] () o :=
  (meets_emit _).next (meets_emit _)

theorem block_meets (blocks : MeetsBlocks script environment visible level inner)
    (body : List Statement) (rest : List Terminal) :
    Meets script (block inner) ⟨visible, braced (Statement.blockTerminals body) ++ rest⟩
      (Statement.blockViolations environment level (.symbol closingBrace :: rest) body) ()
      ⟨visible, rest⟩ := by
  have inside := blocks body rest
  simp only [braced, List.cons_append, List.append_assoc, List.nil_append]
  exact (meets_skipSymbol openingBrace).next (inside.last (meets_skipSymbol closingBrace))

theorem ifThen_meets (terms : MeetsTerms script environment visible level step)
    (blocks : MeetsBlocks script environment visible level inner) (e : Expression)
    (body : List Statement) (ends : Ends continuesStatement rest.head?) :
    Meets script (ifStatement step inner) ⟨visible, (Statement.ifThen e body).terminals ++ rest⟩
      ((Statement.ifThen e body).violations environment level rest) () ⟨visible, rest⟩ := by
  -- Without a second block the step looks for `else`, which no statement behind this one starts
  -- with.
  have last : rest.head? ≠ some (.keyword .«else») := by
    intro continues
    simpa [continuesStatement] using ends _ continues
  have tested := condition_meets terms e (braced (Statement.blockTerminals body) ++ rest)
  have inside := block_meets blocks body rest
  rw [Statement.violations_ifThen]
  simp only [Statement.terminals, List.cons_append, List.append_assoc]
  exact (meets_skipKeyword .«if»).next (tested.bind (meets_freshLabel_bind fun number =>
    (jumpUnless_meets _).next (inside.last ((meets_acceptKeyword_other last).next
      (meets_emit _)))))

theorem ifElse_meets (terms : MeetsTerms script environment visible level step)
    (blocks : MeetsBlocks script environment visible level inner) (e : Expression)
    (body otherwise : List Statement) :
    Meets script (ifStatement step inner)
      ⟨visible, (Statement.ifElse e body otherwise).terminals ++ rest⟩
      ((Statement.ifElse e body otherwise).violations environment level rest) ()
      ⟨visible, rest⟩ := by
  have second := block_meets blocks otherwise rest
  have first := block_meets blocks body
    (.keyword .«else» :: (braced (Statement.blockTerminals otherwise) ++ rest))
  have tested := condition_meets terms e (braced (Statement.blockTerminals body) ++
    .keyword .«else» :: (braced (Statement.blockTerminals otherwise) ++ rest))
  rw [Statement.violations_ifElse]
  simp only [Statement.terminals, List.cons_append, List.append_assoc]
  exact (meets_skipKeyword .«if»).next (tested.bind (meets_freshLabel_bind fun number =>
    (jumpUnless_meets _).next (first.bind ((meets_acceptKeyword .«else»).next
      ((meets_emit _).next ((meets_emit _).next (second.last (meets_emit _))))))))

theorem loop_meets (terms : MeetsTerms script environment visible level step)
    (blocks : MeetsBlocks script environment visible level inner) (e : Expression)
    (body : List Statement) :
    Meets script (whileStatement step inner) ⟨visible, (Statement.loop e body).terminals ++ rest⟩
      ((Statement.loop e body).violations environment level rest) () ⟨visible, rest⟩ := by
  have tested := condition_meets terms e (braced (Statement.blockTerminals body) ++ rest)
  have inside := block_meets blocks body rest
  rw [Statement.violations_loop]
  simp only [Statement.terminals, List.cons_append, List.append_assoc]
  exact meets_freshLabel_bind fun number => (meets_skipKeyword .«while»).next
    ((meets_emit _).next (tested.bind ((jumpUnless_meets _).next (inside.last
      ((meets_emit _).next (meets_emit _))))))

theorem discard_meets (terms : MeetsTerms script environment visible level step)
    (means : visible.lookup? = environment.lookup?)
    (className : subroutine.className = environment.className) (c : Call) :
    Meets script (doStatement subroutine.className step)
      ⟨visible, (Statement.discard c).terminals ++ rest⟩
      ((Statement.discard c).violations environment level rest) () ⟨visible, rest⟩ := by
  rw [className, Statement.violations]
  -- The name in front of a call is taken before the step for calls begins.
  obtain ⟨name, symbol, l, starts, -⟩ := c.starts
  have called := call_meets terms (.symbol ';' :: rest) means starts
  simp only [Statement.terminals, starts, List.cons_append, List.append_assoc, List.nil_append]
  exact (meets_skipKeyword .«do»).next ((meets_takeName name).next (called.last
    ((meets_skipSymbol ';').next (meets_emit _))))

theorem returnedValue_meets (terms : MeetsTerms script environment visible level step)
    (value : Option Expression) (rest : List Terminal) :
    Meets script (returnedValue subroutine step)
      ⟨visible, returnedTerminals value ++ .symbol ';' :: rest⟩
      ((Statement.giveBack value).violations environment level rest) ()
      ⟨visible, .symbol ';' :: rest⟩ := by
  cases value with
  | none =>
    have reported : Meets script (reportMissingValue subroutine) ⟨visible, .symbol ';' :: rest⟩ []
        () ⟨visible, .symbol ';' :: rest⟩ := by
      unfold reportMissingValue
      split
      · exact meets_location_bind (by simp) fun place _ => meets_report _
      · exact meets_pure _ _
    -- The semicolon is there already, so no value is read and `0` is pushed.
    rw [Statement.violations]
    refine meets_look_bind (a := true) (fun s awaits => ?_) (reported.next (meets_emit _))
    exact TokenStream.atSymbol_eq_true.mpr awaits.next?_eq
  | some e =>
    -- No expression starts with a semicolon, so the look finds that a value follows.
    obtain ⟨x, l, begins, different⟩ := e.starts_ne (c := ';') (by decide)
    rw [Statement.violations]
    refine meets_look_bind (a := false) (fun s awaits => ?_)
      (expression_meets terms e (.cons rfl))
    rw [Bool.eq_false_iff, Ne, TokenStream.atSymbol_eq_true, awaits.next?_eq]
    simpa [returnedTerminals, begins] using different

theorem giveBack_meets (terms : MeetsTerms script environment visible level step)
    (value : Option Expression) :
    Meets script (returnStatement subroutine step)
      ⟨visible, (Statement.giveBack value).terminals ++ rest⟩
      ((Statement.giveBack value).violations environment level rest) () ⟨visible, rest⟩ := by
  simp only [Statement.terminals, List.cons_append, List.append_assoc, List.nil_append]
  exact (meets_skipKeyword .«return»).next ((returnedValue_meets terms value rest).last
    ((meets_skipSymbol ';').next (meets_emit _)))

theorem statement_meets (terms : MeetsTerms script environment visible level step)
    (blocks : MeetsBlocks script environment visible level inner)
    (means : visible.lookup? = environment.lookup?)
    (className : subroutine.className = environment.className) (statement : Statement)
    (ends : Ends continuesStatement rest.head?) :
    Meets script (Codegen.statement subroutine step inner)
      ⟨visible, statement.terminals ++ rest⟩ (statement.violations environment level rest) true
      ⟨visible, rest⟩ := by
  -- Each kind of statement starts with a keyword of its own, which the step looks at to choose.
  have shows {word : Keyword} {tail : List Terminal}
      (begins : statement.terminals = .keyword word :: tail) (s : Session)
      (awaits : s.Awaits ⟨visible, statement.terminals ++ rest⟩) :
      s.tokens.keyword? = some word :=
    awaits.keyword?_eq_some.mpr (by simp [begins])
  have answered : Meets script (pure true) ⟨visible, rest⟩ [] true ⟨visible, rest⟩ :=
    meets_pure _ _
  cases statement with
  | assign target value =>
    exact meets_look_bind (shows rfl) ((assign_meets terms means target value).last answered)
  | assignElement array index value =>
    exact meets_look_bind (shows rfl)
      ((assignElement_meets terms means array index value).last answered)
  | ifThen e body =>
    exact meets_look_bind (shows rfl) ((ifThen_meets terms blocks e body ends).last answered)
  | ifElse e body otherwise =>
    exact meets_look_bind (shows rfl) ((ifElse_meets terms blocks e body otherwise).last answered)
  | loop e body =>
    exact meets_look_bind (shows rfl) ((loop_meets terms blocks e body).last answered)
  | discard c =>
    exact meets_look_bind (shows rfl) ((discard_meets terms means className c).last answered)
  | giveBack value =>
    exact meets_look_bind (shows rfl) ((giveBack_meets terms value).last answered)

/-- What stands behind a statement is the next one or what follows all, and neither is `else`. -/
theorem ends_statements (body : List Statement) (ends : Ends continuesStatement rest.head?) :
    Ends continuesStatement (Statement.blockTerminals body ++ rest).head? := by
  cases body with
  | nil => exact ends
  | cons next body =>
    obtain ⟨x, l, begins, starting⟩ := next.starts
    simp only [Statement.blockTerminals, begins, List.cons_append]
    exact .cons (continuesStatement_of_startsStatement starting)

/-- Statements that are followed by no other one, and not by `else`. -/
theorem statementRounds_meet (terms : MeetsTerms script environment visible level step)
    (blocks : MeetsBlocks script environment visible level inner)
    (means : visible.lookup? = environment.lookup?)
    (className : subroutine.className = environment.className) (body : List Statement)
    (ends : Ends continuesStatement rest.head?) (stops : Ends startsStatement rest.head?) :
    MeetsWhile script (Codegen.statement subroutine step inner)
      ⟨visible, Statement.blockTerminals body ++ rest⟩
      (Statement.listViolations environment level rest body) ⟨visible, rest⟩ := by
  induction body with
  | nil =>
    -- What comes next starts no statement, so the loop ends there.
    refine meetsWhile_last (meets_look_bind_of
      (P := fun word? => ∀ word ∈ word?, startsStatement (.keyword word) = false)
      (fun s awaits word isNext => ?_) fun word? none => ?_)
    · exact stops _ (awaits.keyword?_eq_some.mp isNext)
    · split <;> first | exact meets_pure false _ | exact absurd (none _ rfl) (by decide)
  | cons statement body others =>
    have first := statement_meets terms blocks means className statement (ends_statements body ends)
    rw [Statement.listViolations, Statement.blockTerminals, List.append_assoc]
    refine .cons first ?_ others
    -- The rounds go on only while tokens are consumed, and a statement has at least one.
    obtain ⟨x, l, begins, -⟩ := statement.starts
    simp only [begins, List.length_append, List.length_cons]
    omega

/-- Statements at any depth in front of whatever does not continue them. -/
theorem statements_meet_of_ends (means : visible.lookup? = environment.lookup?)
    (className : subroutine.className = environment.className) {level levels : Nat}
    (sum : level + levels = maxNesting + 1) (body : List Statement) {rest : List Terminal}
    (ends : Ends continuesStatement rest.head?) (stops : Ends startsStatement rest.head?)
    (nonempty : levels = 0 → Statement.blockTerminals body ++ rest ≠ []) :
    Meets script (statements subroutine levels) ⟨visible, Statement.blockTerminals body ++ rest⟩
      (Statement.blockViolations environment level rest body) () ⟨visible, rest⟩ := by
  -- The induction is on the levels that are left, for the blocks inside the statements.
  induction levels generalizing level body rest with
  | zero =>
    have deep : ¬ level ≤ maxNesting := by omega
    refine meets_checked_append (fun shallow => absurd shallow deep) fun _ => ?_
    exact meets_location_bind (nonempty rfl) fun place placed =>
      meets_failAt placed (fun _ => rfl) fun _ => nonempty rfl
  | succ levels ih =>
    have deeper : level + 1 + levels = maxNesting + 1 := by omega
    have terms : MeetsTerms script environment visible (level + 1)
        (term subroutine.className levels) := by
      rw [className]
      exact term_meets means deeper
    have blocks : MeetsBlocks script environment visible (level + 1)
        (statements subroutine levels) :=
      fun body rest => ih deeper body (.cons rfl) (.cons rfl) fun _ => by simp
    rw [Statement.blockViolations, checked_eq_nil.mpr (show level ≤ maxNesting by omega),
      List.nil_append]
    exact (statementRounds_meet terms blocks means className body ends stops).repeatWhile

theorem statements_meet (means : visible.lookup? = environment.lookup?)
    (className : subroutine.className = environment.className) {level levels : Nat}
    (sum : level + levels = maxNesting + 1) :
    MeetsBlocks script environment visible level (statements subroutine levels) :=
  fun body _ => statements_meet_of_ends means className sum body (.cons rfl) (.cons rfl)
    fun _ => by simp

end JackCompiler.Codegen
