import JackCompiler.Proofs.Codegen.Derivation

/-!
# What a run over a block has taken

A step for a statement that succeeds has taken the token list of a statement and has written its
code. Labels are numbered on from the session in which the statement begins, so that the code of a
statement depends on what is in front of it.

## Main definitions

* `Codegen.DerivesStatement`, `Codegen.DerivesBlock` — a step takes a statement or a block

## Main results

* `Codegen.statement_derives`, `Codegen.statements_derives` — runs of steps for statements
-/

namespace JackCompiler.Codegen

open Grammar

/-- From one session to another, a statement is taken that is nested at most `levels` deep and obeys
the rules, and its code is written. -/
def DerivesStatement (environment : Environment) (levels : Nat) (s s' : Session) : Prop :=
  ∃ statement : Statement, statement.depth ≤ levels ∧ statement.Legal environment ∧
    s.Advances statement.terminals (statement.code environment s.nextLabel) statement.labels s'

/-- A step that succeeds takes a block that is nested at most `levels` deep and obeys the rules, and
writes its code. -/
def DerivesBlock (environment : Environment) (levels : Nat) (step : Codegen Unit) : Prop :=
  ∀ s s', s.Sees environment → Runs step s () s' → ∃ body : List Statement,
    Statement.blockDepth body ≤ levels ∧ Statement.BlockLegal environment body ∧
      s.Advances (Statement.blockTerminals body)
        (Statement.listCode environment s.nextLabel body) (Statement.listLabels body) s'

variable {s s' : Session} {u : Unit} {environment : Environment} {levels : Nat}
  {step inner : Codegen Unit} {subroutine : Subroutine}

theorem popVariable_advances {name : String} {v : Variable} (h : Runs (popVariable v) s u s')
    (known : environment.lookup? name = some v) : s.Advances [] (environment.pop name) 0 s' := by
  rw [Environment.pop_of_lookup? known]
  exact emit_advances h

theorem letStatement_derives (terms : Derives environment levels step)
    (sees : s.Sees environment) (h : Runs (letStatement step) s u s') :
    DerivesStatement environment levels s s' := by
  obtain ⟨_, _, opened, stands⟩ := runs_bind.mp h
  obtain ⟨place, _, located, taken⟩ := runs_bind.mp stands
  obtain ⟨-, rfl⟩ := runs_location.mp located
  obtain ⟨name, _, named, found⟩ := runs_bind.mp taken
  obtain ⟨v, _, resolved, chosen⟩ := runs_bind.mp found
  have front := (skipKeyword_advances opened).trans (takeName_advances named)
  obtain ⟨known, rfl⟩ := runs_resolve.mp resolved
  rw [front.sees sees] at known
  obtain ⟨element, _, bracket, rest⟩ := runs_bind.mp chosen
  cases element with
  -- An array element: its address waits on the stack while the value is computed.
  | true =>
    obtain ⟨_, _, addressed, rest⟩ := runs_bind.mp rest
    obtain ⟨_, _, equals, rest⟩ := runs_bind.mp rest
    obtain ⟨_, _, valued, rest⟩ := runs_bind.mp rest
    obtain ⟨_, _, ended, rest⟩ := runs_bind.mp rest
    obtain ⟨_, _, kept, rest⟩ := runs_bind.mp rest
    obtain ⟨_, _, moved, rest⟩ := runs_bind.mp rest
    obtain ⟨_, _, fetched, stored⟩ := runs_bind.mp rest
    have opening := front.trans (acceptSymbol_advances bracket)
    obtain ⟨index, deep, legal, address⟩ :=
      elementAddress_derives terms (opening.sees sees) known addressed
    have target := (opening.trans address).trans (skipSymbol_advances equals)
    obtain ⟨value, deep', legal', taken⟩ := expression_derives terms (target.sees sees) valued
    have whole := ((((target.trans taken).trans (skipSymbol_advances ended)).trans
      (emit_advances kept)).trans (emit_advances moved)).trans
        ((emit_advances fetched).trans (emit_advances stored))
    exact ⟨.assignElement name index value,
      by simpa only [Statement.depth, Nat.max_le] using And.intro deep deep',
      by simp [known, legal, legal'],
      by simpa [Statement.terminals, Statement.code, Statement.labels] using whole⟩
  | false =>
    obtain rfl := acceptSymbol_idle bracket
    obtain ⟨_, _, equals, valued⟩ := runs_bind.mp rest
    obtain ⟨_, _, taken, ended⟩ := runs_bind.mp valued
    obtain ⟨_, _, closed, stored⟩ := runs_bind.mp ended
    have target := front.trans (skipSymbol_advances equals)
    obtain ⟨value, deep, legal, taken⟩ := expression_derives terms (target.sees sees) taken
    have whole := ((target.trans taken).trans (skipSymbol_advances closed)).trans
      (popVariable_advances stored known)
    exact ⟨.assign name value, by simpa [Statement.depth] using deep, by simp [known, legal],
      by simpa [Statement.terminals, Statement.code, Statement.labels] using whole⟩

theorem condition_derives (terms : Derives environment levels step) (sees : s.Sees environment)
    (h : Runs (condition step) s u s') : ∃ e : Expression, e.depth ≤ levels ∧
      e.Legal environment ∧
      s.Advances (parenthesized e.terminals) (e.code environment) 0 s' := by
  obtain ⟨_, _, opened, h⟩ := runs_bind.mp h
  obtain ⟨_, _, inside, closed⟩ := runs_bind.mp h
  have opening := skipSymbol_advances opened
  obtain ⟨e, deep, legal, taken⟩ := expression_derives terms (opening.sees sees) inside
  have whole := (opening.trans taken).trans (skipSymbol_advances closed)
  exact ⟨e, deep, legal, by simpa [parenthesized] using whole⟩

theorem jumpUnless_advances {label : String} (h : Runs (jumpUnless label) s u s') :
    s.Advances [] [.operate .not, .ifGoto label] 0 s' := by
  obtain ⟨_, _, negated, jumped⟩ := runs_bind.mp h
  exact (emit_advances negated).trans (emit_advances jumped)

/-- The statements of a block are nested one level less deep than the block. -/
theorem block_derives (blocks : DerivesBlock environment levels inner)
    (sees : s.Sees environment) (h : Runs (block inner) s u s') : ∃ body : List Statement,
      Statement.blockDepth body ≤ levels ∧ Statement.BlockLegal environment body ∧
        s.Advances (braced (Statement.blockTerminals body))
          (Statement.listCode environment s.nextLabel body) (Statement.listLabels body) s' := by
  obtain ⟨_, _, opened, h⟩ := runs_bind.mp h
  obtain ⟨_, _, inside, closed⟩ := runs_bind.mp h
  have opening := skipSymbol_advances opened
  obtain ⟨body, deep, legal, taken⟩ := blocks _ _ (opening.sees sees) inside
  have whole := (opening.trans taken).trans (skipSymbol_advances closed)
  refine ⟨body, deep, legal, ?_⟩
  -- A brace uses up no label.
  have number := opening.nextLabel
  simpa [braced, number] using whole

theorem ifStatement_derives (terms : Derives environment levels step)
    (blocks : DerivesBlock environment levels inner) (sees : s.Sees environment)
    (h : Runs (ifStatement step inner) s u s') : DerivesStatement environment levels s s' := by
  obtain ⟨_, _, opened, rest⟩ := runs_bind.mp h
  obtain ⟨_, _, tested, rest⟩ := runs_bind.mp rest
  obtain ⟨number, _, numbered, rest⟩ := runs_bind.mp rest
  obtain ⟨_, atBody, jumped, rest⟩ := runs_bind.mp rest
  obtain ⟨_, _, blocked, rest⟩ := runs_bind.mp rest
  obtain ⟨otherwise, _, accepted, chosen⟩ := runs_bind.mp rest
  have opening := skipKeyword_advances opened
  obtain ⟨condition, deep, legal, taken⟩ := condition_derives terms (opening.sees sees) tested
  obtain ⟨same, fresh⟩ := freshLabel_advances numbered
  have front := ((opening.trans taken).trans fresh).trans (jumpUnless_advances jumped)
  obtain ⟨body, deep', legal', first⟩ := block_derives blocks (front.sees sees) blocked
  have single := front.trans first
  -- The number of the statement is taken in front of those of its blocks.
  have start : atBody.nextLabel = s.nextLabel + 1 := by simpa using front.nextLabel
  have first_eq : number = s.nextLabel := by
    rw [same, (opening.trans taken).nextLabel, Nat.add_zero]
  cases otherwise with
  | true =>
    obtain ⟨_, _, skipped, rest⟩ := runs_bind.mp chosen
    obtain ⟨_, atOther, marked, rest⟩ := runs_bind.mp rest
    obtain ⟨_, _, blocked', ended⟩ := runs_bind.mp rest
    have middle := ((single.trans (acceptKeyword_advances accepted)).trans
      (emit_advances skipped)).trans (emit_advances marked)
    obtain ⟨other, deep'', legal'', second⟩ := block_derives blocks (middle.sees sees) blocked'
    have whole := (middle.trans second).trans (emit_advances ended)
    -- The labels of the second block are numbered on from those of the first.
    have start' : atOther.nextLabel = s.nextLabel + 1 + Statement.listLabels body := by
      simpa [Nat.add_assoc] using middle.nextLabel
    refine ⟨.ifElse condition body other, ?_, by simp [legal, legal', legal''], ?_⟩
    · simpa only [Statement.depth, Statement.blockDepth, Nat.max_le] using
        And.intro deep (And.intro deep' deep'')
    · have labels : (Statement.ifElse condition body other).labels =
          1 + Statement.listLabels body + Statement.listLabels other := by
        rw [Statement.labels]
        omega
      rw [start, start'] at whole
      simpa [Statement.terminals, Statement.code, labels, first_eq] using whole
  | false =>
    obtain rfl := acceptKeyword_idle accepted
    have whole := single.trans (emit_advances chosen)
    refine ⟨.ifThen condition body, ?_, by simp [legal, legal'], ?_⟩
    · simpa only [Statement.depth, Statement.blockDepth, Nat.max_le] using And.intro deep deep'
    · rw [start] at whole
      simpa [Statement.terminals, Statement.code, Statement.labels, first_eq,
        Nat.add_comm] using whole

theorem whileStatement_derives (terms : Derives environment levels step)
    (blocks : DerivesBlock environment levels inner) (sees : s.Sees environment)
    (h : Runs (whileStatement step inner) s u s') : DerivesStatement environment levels s s' := by
  obtain ⟨number, _, numbered, rest⟩ := runs_bind.mp h
  obtain ⟨_, _, opened, rest⟩ := runs_bind.mp rest
  obtain ⟨_, _, marked, rest⟩ := runs_bind.mp rest
  obtain ⟨_, _, tested, rest⟩ := runs_bind.mp rest
  obtain ⟨_, atBody, jumped, rest⟩ := runs_bind.mp rest
  obtain ⟨_, _, blocked, rest⟩ := runs_bind.mp rest
  obtain ⟨_, _, repeated, ended⟩ := runs_bind.mp rest
  obtain ⟨rfl, fresh⟩ := freshLabel_advances numbered
  have opening := (fresh.trans (skipKeyword_advances opened)).trans (emit_advances marked)
  obtain ⟨condition, deep, legal, taken⟩ := condition_derives terms (opening.sees sees) tested
  have front := (opening.trans taken).trans (jumpUnless_advances jumped)
  obtain ⟨body, deep', legal', block⟩ := block_derives blocks (front.sees sees) blocked
  -- The number is taken in front of the keyword, and the first label is written in front of the
  -- condition.
  have start : atBody.nextLabel = s.nextLabel + 1 := by simpa using front.nextLabel
  have whole := ((front.trans block).trans (emit_advances repeated)).trans (emit_advances ended)
  refine ⟨.loop condition body, ?_, by simp [legal, legal'], ?_⟩
  · simpa only [Statement.depth, Statement.blockDepth, Nat.max_le] using And.intro deep deep'
  · rw [start] at whole
    simpa [Statement.terminals, Statement.code, Statement.labels, Nat.add_comm] using whole

theorem doStatement_derives (terms : Derives environment levels step)
    (sees : s.Sees environment) (h : Runs (doStatement environment.className step) s u s') :
    DerivesStatement environment levels s s' := by
  obtain ⟨_, _, opened, rest⟩ := runs_bind.mp h
  obtain ⟨name, _, named, rest⟩ := runs_bind.mp rest
  obtain ⟨_, _, called, rest⟩ := runs_bind.mp rest
  obtain ⟨_, _, closed, dropped⟩ := runs_bind.mp rest
  have front := (skipKeyword_advances opened).trans (takeName_advances named)
  obtain ⟨c, tail, deep, legal, terminals, taken⟩ := call_derives terms (front.sees sees) called
  -- The answer of the call is popped, which is no part of the call.
  have whole := ((front.trans taken).trans (skipSymbol_advances closed)).trans
    (emit_advances dropped)
  exact ⟨.discard c, by simpa [Statement.depth] using deep, by simpa using legal, by
    simpa [Statement.terminals, terminals, Statement.code, Statement.labels] using whole⟩

theorem reportMissingValue_advances (h : Runs (reportMissingValue subroutine) s u s') :
    s.Advances [] [] 0 s' := by
  unfold reportMissingValue at h
  split at h
  · obtain ⟨_, _, located, reported⟩ := runs_bind.mp h
    obtain ⟨-, rfl⟩ := runs_location.mp located
    exact report_advances reported
  · rw [(runs_pure.mp h).2]
    exact .refl s

theorem returnedValue_derives (terms : Derives environment levels step)
    (sees : s.Sees environment) (h : Runs (returnedValue subroutine step) s u s') :
    ∃ value : Option Expression, (∀ e ∈ value, e.depth ≤ levels) ∧
      (∀ e ∈ value, e.Legal environment) ∧
      s.Advances (returnedTerminals value) (returnedCode environment value) 0 s' := by
  obtain ⟨bare, _, looked, chosen⟩ := runs_bind.mp h
  rw [(runs_look.mp looked).2] at chosen
  split at chosen
  · obtain ⟨_, _, reported, pushed⟩ := runs_bind.mp chosen
    exact ⟨none, by simp, by simp,
      (reportMissingValue_advances reported).trans (emit_advances pushed)⟩
  · obtain ⟨e, deep, legal, taken⟩ := expression_derives terms sees chosen
    exact ⟨some e, by simpa using deep, by simpa using legal, taken⟩

theorem returnStatement_derives (terms : Derives environment levels step)
    (sees : s.Sees environment) (h : Runs (returnStatement subroutine step) s u s') :
    DerivesStatement environment levels s s' := by
  obtain ⟨_, _, opened, rest⟩ := runs_bind.mp h
  obtain ⟨_, _, valued, rest⟩ := runs_bind.mp rest
  obtain ⟨_, _, closed, returned⟩ := runs_bind.mp rest
  have opening := skipKeyword_advances opened
  obtain ⟨value, deep, legal, taken⟩ := returnedValue_derives terms (opening.sees sees) valued
  have whole := ((opening.trans taken).trans (skipSymbol_advances closed)).trans
    (emit_advances returned)
  refine ⟨.giveBack value, ?_, by simpa using legal, by
    simpa [Statement.terminals, Statement.code, Statement.labels] using whole⟩
  cases value with
  | none => simp [Statement.depth]
  | some e => simpa [Statement.depth] using deep

theorem statement_derives (terms : Derives environment levels step)
    (blocks : DerivesBlock environment levels inner) (sees : s.Sees environment)
    (className : subroutine.className = environment.className)
    (h : Runs (statement subroutine step inner) s true s') :
    DerivesStatement environment levels s s' := by
  obtain ⟨word?, _, looked, chosen⟩ := runs_bind.mp h
  rw [(runs_look.mp looked).2] at chosen
  split at chosen
  -- No other keyword begins a statement, and then the step answers that there is none.
  case h_6 => cases (runs_pure.mp chosen).1
  all_goals
    obtain ⟨_, _, taken, answered⟩ := runs_bind.mp chosen
    obtain ⟨-, rfl⟩ := runs_pure.mp answered
  · exact letStatement_derives terms sees taken
  · exact ifStatement_derives terms blocks sees taken
  · exact whileStatement_derives terms blocks sees taken
  · exact doStatement_derives terms sees (className ▸ taken)
  · exact returnStatement_derives terms sees taken

theorem statement_idle (h : Runs (statement subroutine step inner) s false s') : s' = s := by
  obtain ⟨word?, _, looked, chosen⟩ := runs_bind.mp h
  rw [(runs_look.mp looked).2] at chosen
  split at chosen
  case h_6 => exact (runs_pure.mp chosen).2
  all_goals
    obtain ⟨_, _, _, answered⟩ := runs_bind.mp chosen
    cases (runs_pure.mp answered).1

/-- A step with no levels left fails, and a step with one more takes statement by statement. -/
theorem statements_derives (className : subroutine.className = environment.className)
    (levels : Nat) : DerivesBlock environment levels (statements subroutine levels) := by
  induction levels with
  | zero =>
    intro s s' _ h
    obtain ⟨_, _, _, failed⟩ := runs_bind.mp h
    exact absurd failed runs_failAt
  | succ levels ih =>
    intro s s' sees h
    -- The induction on the rounds is for all sessions, because every round begins with other
    -- labels.
    refine repeatWhile_induction (motive := fun s s' => s.Sees environment →
      ∃ body : List Statement, Statement.blockDepth body ≤ levels + 1 ∧
        Statement.BlockLegal environment body ∧ s.Advances (Statement.blockTerminals body)
          (Statement.listCode environment s.nextLabel body) (Statement.listLabels body) s')
      ?_ ?_ ?_ h sees
    · exact fun s _ => ⟨[], by simp [Statement.blockDepth, Statement.listDepth],
        by simp [Statement.blockLegal_iff], .refl s⟩
    · exact fun s s' => statement_idle
    · intro s middle s' round rest sees
      -- Terms and inner blocks are one level further down.
      have terms := term_derives environment levels
      rw [← className] at terms
      obtain ⟨statement, deep, legal, taken⟩ := statement_derives terms ih sees className round
      obtain ⟨body, deeper, lawful, others⟩ := rest (taken.sees sees)
      rw [taken.nextLabel] at others
      refine ⟨statement :: body, ?_, ?_, taken.trans others⟩
      · simp only [Statement.blockDepth, Statement.listDepth] at deeper ⊢
        omega
      · rw [Statement.blockLegal_iff] at lawful ⊢
        exact List.forall_mem_cons.mpr ⟨legal, lawful⟩

end JackCompiler.Codegen
