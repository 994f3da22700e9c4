import JackCompiler.Proofs.Codegen.ClassChecks
import JackCompiler.Proofs.Codegen.Quiet
import JackCompiler.Proofs.Grammar.MissingValue
import Mathlib.Data.List.Forall2

/-!
# Steps that warn of missing values

A step that finds an outlook and answers has warned of the values that are missing in its tokens,
one after the other, and of nothing else. What it leaves behind is known from the violations that it
could have met, so that most steps only have to be quiet.

## Main definitions

* `Script.Tells` — a warning is about a missing value
* `Codegen.Warns`, `Codegen.WarnsWhile` — what a step warns of, and a repeated one

## Main results

* `Codegen.Warns.of_quiet`, `Codegen.Warns.bind` — quiet steps, and steps one after the other
* `Codegen.statements_warn`, `Codegen.subroutine_warns` — blocks and subroutines
* `Codegen.classBody_warns` — whole classes
-/

namespace JackCompiler

open Grammar

/-- A warning is about a missing value: it names the subroutine, its type, and the line of the
semicolon in whose place a value was promised. -/
def Script.Tells (script : Script) (event : Event) (m : MissingValue) : Prop :=
  ∃ token, script.Marks m.left token ∧ token.terminal = .symbol ';' ∧
    event = .valueMissing { file := script.file, line := token.line } m.subroutine m.type

namespace Codegen

variable {α β : Type} {script : Script} {a : α} {b : β} {o middle o' : Outlook}
  {visible : VariableTable} {rest : List Terminal} {vs : List Violation}
  {ms ns : List MissingValue} {environment : Environment} {level : Nat}

/-- Wherever a step finds the first outlook and answers, it answers as given, leaves the second
outlook, and has warned of the given missing values. -/
def Warns (script : Script) (step : Codegen α) (o : Outlook) (ms : List MissingValue) (a : α)
    (o' : Outlook) : Prop :=
  ∀ s b s', s.Faces script o → Runs step s b s' → b = a ∧ s'.Faces script o' ∧
    ∃ told, warnings s'.events = warnings s.events ++ told ∧ List.Forall₂ script.Tells told ms

/-! ### Composed steps -/

/-- What a step would meet tells what it leaves behind if it answers. -/
theorem Warns.of_quiet {step : Codegen α} (quiet : Quiet step)
    (meets : Meets script step o vs a o') : Warns script step o [] a o' := by
  intro s b s' faces run
  have outcome := meets s faces
  cases vs with
  | nil =>
    obtain ⟨s'', run', faces'⟩ := outcome
    obtain ⟨rfl, rfl⟩ := (runs_iff_of_run run').mp run
    exact ⟨rfl, faces', [], by rw [quiet s b s' run, List.append_nil], .nil⟩
  | cons v vs =>
    obtain ⟨fault, s'', failed, -⟩ := outcome
    rw [Runs, failed] at run
    cases run

theorem Warns.bind {step : Codegen α} {next : α → Codegen β} (h : Warns script step o ms a middle)
    (h' : Warns script (next a) middle ns b o') :
    Warns script (step >>= next) o (ms ++ ns) b o' := by
  intro s c s' faces run
  obtain ⟨a', s₁, first, second⟩ := runs_bind.mp run
  obtain ⟨rfl, faces₁, told, warned, tells⟩ := h s a' s₁ faces first
  obtain ⟨rfl, faces', told', warned', tells'⟩ := h' s₁ c s' faces₁ second
  exact ⟨rfl, faces', told ++ told', by rw [warned', warned, List.append_assoc],
    List.rel_append tells tells'⟩

/-- A step behind a quiet one. -/
theorem Warns.behind {step : Codegen α} {next : α → Codegen β} (quiet : Quiet step)
    (meets : Meets script step o vs a middle) (h : Warns script (next a) middle ms b o') :
    Warns script (step >>= next) o ms b o' :=
  (of_quiet quiet meets).bind h

/-- A step behind which nothing is missing. -/
theorem Warns.last {step : Codegen α} {next : α → Codegen β} (h : Warns script step o ms a middle)
    (h' : Warns script (next a) middle [] b o') : Warns script (step >>= next) o ms b o' := by
  simpa using h.bind h'

/-- A step that never answers. -/
theorem Warns.never {step : Codegen α} (fails : ∀ s b s', ¬ Runs step s b s') :
    Warns script step o ms a o' :=
  fun s b s' _ run => absurd run (fails s b s')

/-- It is enough to know something of what shows. -/
theorem Warns.look_of {P : α → Prop} {view : TokenStream → α} {next : α → Codegen β}
    (shows : ∀ s : Session, s.Awaits o → P (view s.tokens))
    (h : ∀ a, P a → Warns script (next a) o ms b o') :
    Warns script (look view >>= next) o ms b o' := by
  intro s c s' faces run
  obtain ⟨_, s₁, looked, rest⟩ := runs_bind.mp run
  obtain ⟨rfl, rfl⟩ := runs_look.mp looked
  exact h _ (shows s₁ faces.toAwaits) s₁ c s' faces rest

theorem Warns.look {view : TokenStream → α} {next : α → Codegen β}
    (shows : ∀ s : Session, s.Awaits o → view s.tokens = a)
    (h : Warns script (next a) o ms b o') : Warns script (look view >>= next) o ms b o' := by
  refine .look_of (P := (· = a)) shows ?_
  rintro _ rfl
  exact h

theorem Warns.location {next : Location → Codegen β}
    (h : ∀ place, Warns script (next place) o ms b o') :
    Warns script (location >>= next) o ms b o' :=
  .look_of (P := fun _ => True) (fun _ _ => trivial) fun place _ => h place

theorem Warns.freshLabel {next : Nat → Codegen β}
    (h : ∀ number, Warns script (next number) o ms b o') :
    Warns script (freshLabel >>= next) o ms b o' := by
  intro s c s' faces run
  obtain ⟨number, _, drawn, rest⟩ := runs_bind.mp run
  obtain ⟨rfl, rfl⟩ := runs_freshLabel.mp drawn
  exact h s.nextLabel { s with nextLabel := s.nextLabel + 1 } c s'
    (faces.transfer rfl faces.unlimited faces.visible) rest

/-! ### Repeated steps -/

/-- What a step warns of that is repeated while it has something to do, if there may be more rounds
than terminals are left. -/
def WarnsWhile (script : Script) (step : Codegen Bool) (o : Outlook) (ms : List MissingValue)
    (o' : Outlook) : Prop :=
  ∀ bound, o.rest.length < bound → Warns script
    (iterateAtMost (fun () => do if ← step then return some () else return none) bound ()) o ms ()
    o'

section While

variable {step : Codegen Bool}

/-- A round that finds nothing to do is the last one. -/
theorem WarnsWhile.done (h : Warns script step o [] false o) : WarnsWhile script step o [] o := by
  rintro (_ | bound) enough
  · cases enough
  · have round : Warns script (do if ← step then return some () else return none) o [] none o :=
      h.last (.of_quiet (.pure none) (meets_pure none o))
    exact round.last (.of_quiet (.pure ()) (meets_pure () o))

/-- One more round, which takes a token. -/
theorem WarnsWhile.cons (h : Warns script step o ms true middle)
    (shorter : middle.rest.length < o.rest.length) (h' : WarnsWhile script step middle ns o') :
    WarnsWhile script step o (ms ++ ns) o' := by
  rintro (_ | bound) enough
  · cases enough
  · have round : Warns script (do if ← step then return some () else return none) o ms (some ())
        middle := h.last (.of_quiet (.pure (some ())) (meets_pure (some ()) middle))
    exact round.bind (h' bound (by omega))

theorem WarnsWhile.repeatWhile (h : WarnsWhile script step o ms o') :
    Warns script (repeatWhile step) o ms () o' := by
  refine .look_of (P := fun left => o.rest.length ≤ left) (fun s awaits => awaits.length_le) ?_
  intro left enough
  exact h (left + 1) (by omega)

end While

/-! ### Statements

Each statement is followed step by step, as it is compiled: all steps are quiet, except for a return
statement without a value and for the blocks. -/

section Statements

variable {step inner : Codegen Unit} {subroutine : Subroutine} {type : Option TypeName}

/-- A step warns of the values that are missing in blocks of a subroutine with the given name and
return type. -/
def WarnsBlocks (script : Script) (visible : VariableTable) (name : String)
    (type : Option TypeName) (step : Codegen Unit) : Prop :=
  ∀ (body : List Statement) (rest : List Terminal),
    Warns script step ⟨visible, Statement.blockTerminals body ++ .symbol closingBrace :: rest⟩
      (missingIn name type (Statement.listBareReturns (.symbol closingBrace :: rest) body)) ()
      ⟨visible, .symbol closingBrace :: rest⟩

/-- The place of the warning is that of the look-ahead, which is the semicolon. -/
theorem reportMissingValue_warns (promises : subroutine.returnType = promisedBy type)
    (rest : List Terminal) :
    Warns script (reportMissingValue subroutine) ⟨visible, .symbol ';' :: rest⟩
      (missingIn subroutine.name type [rest.length + 1]) () ⟨visible, .symbol ';' :: rest⟩ := by
  rw [reportMissingValue, promises]
  cases type with
  | none => exact .of_quiet (.pure ()) (meets_pure () _)
  | some type =>
    intro s u s' faces run
    obtain ⟨_, s₁, looked, reported⟩ := runs_bind.mp run
    obtain ⟨rfl, rfl⟩ := runs_location.mp looked
    obtain rfl := runs_report.mp reported
    obtain ⟨token, -, -, semicolon, marks, place⟩ := faces.ahead
    refine ⟨rfl, faces.transfer rfl faces.unlimited faces.visible,
      [.valueMissing s₁.tokens.location subroutine.name type.text], ?_, ?_⟩
    · simp [Event.severity]
    · exact .cons ⟨token, marks, semicolon, by rw [place]⟩ .nil

variable (terms : MeetsTerms script environment visible level step) (quiet : Quiet step)
include terms quiet

theorem giveBack_warns (promises : subroutine.returnType = promisedBy type)
    (value : Option Expression) (rest : List Terminal) :
    Warns script (returnStatement subroutine step)
      ⟨visible, (Statement.giveBack value).terminals ++ rest⟩
      (missingIn subroutine.name type ((Statement.giveBack value).bareReturns rest)) ()
      ⟨visible, rest⟩ := by
  have returned : Warns script (returnedValue subroutine step)
      ⟨visible, returnedTerminals value ++ .symbol ';' :: rest⟩
      (missingIn subroutine.name type ((Statement.giveBack value).bareReturns rest)) ()
      ⟨visible, .symbol ';' :: rest⟩ := by
    cases value with
    | none =>
      rw [Statement.bareReturns]
      refine .look (a := true) (fun s awaits => ?_)
        ((reportMissingValue_warns promises rest).last (.of_quiet (.emit _) (meets_emit _)))
      exact TokenStream.atSymbol_eq_true.mpr awaits.next?_eq
    | some e =>
      -- No expression starts with a semicolon, so the look finds that a value follows.
      obtain ⟨x, l, begins, different⟩ := e.starts_ne (c := ';') (by decide)
      rw [Statement.bareReturns, missingIn_nil]
      refine .look (a := false) (fun s awaits => ?_)
        (.of_quiet (.expression quiet) (expression_meets terms e (.cons rfl)))
      rw [Bool.eq_false_iff, Ne, TokenStream.atSymbol_eq_true, awaits.next?_eq]
      simpa [returnedTerminals, begins] using different
  simp only [Statement.terminals, List.cons_append, List.append_assoc, List.nil_append]
  -- Behind the value stand the semicolon and the instruction to return.
  exact .behind (.skipKeyword _) (meets_skipKeyword .«return») <| returned.last <|
    .behind (.skipSymbol _) (meets_skipSymbol ';') (.of_quiet (.emit _) (meets_emit _))

variable (blocks : WarnsBlocks script visible subroutine.name type inner)
include blocks

omit terms quiet in
theorem block_warns (body : List Statement) (rest : List Terminal) :
    Warns script (block inner) ⟨visible, braced (Statement.blockTerminals body) ++ rest⟩
      (missingIn subroutine.name type
        (Statement.listBareReturns (.symbol closingBrace :: rest) body)) () ⟨visible, rest⟩ := by
  have inside := blocks body rest
  simp only [braced, List.cons_append, List.append_assoc, List.nil_append]
  exact .behind (.skipSymbol _) (meets_skipSymbol openingBrace)
    (inside.last (.of_quiet (.skipSymbol _) (meets_skipSymbol closingBrace)))

theorem ifThen_warns (e : Expression) (body : List Statement)
    (ends : Ends continuesStatement rest.head?) :
    Warns script (ifStatement step inner) ⟨visible, (Statement.ifThen e body).terminals ++ rest⟩
      (missingIn subroutine.name type ((Statement.ifThen e body).bareReturns rest)) ()
      ⟨visible, rest⟩ := by
  have last : rest.head? ≠ some (.keyword .«else») := by
    intro continues
    simpa [continuesStatement] using ends _ continues
  have tested := condition_meets terms e (braced (Statement.blockTerminals body) ++ rest)
  have inside := block_warns blocks body rest
  rw [Statement.bareReturns]
  simp only [Statement.terminals, List.cons_append, List.append_assoc]
  exact .behind (.skipKeyword _) (meets_skipKeyword .«if») <| .behind (.condition quiet) tested <|
    .freshLabel fun number => .behind (.jumpUnless _) (jumpUnless_meets _) <| inside.last <|
      .behind (.acceptKeyword _) (meets_acceptKeyword_other last) <|
        .of_quiet (.emit _) (meets_emit _)

theorem ifElse_warns (e : Expression) (body otherwise : List Statement) (rest : List Terminal) :
    Warns script (ifStatement step inner)
      ⟨visible, (Statement.ifElse e body otherwise).terminals ++ rest⟩
      (missingIn subroutine.name type ((Statement.ifElse e body otherwise).bareReturns rest)) ()
      ⟨visible, rest⟩ := by
  have second := block_warns blocks otherwise rest
  have first := block_warns blocks body
    (.keyword .«else» :: (braced (Statement.blockTerminals otherwise) ++ rest))
  have tested := condition_meets terms e (braced (Statement.blockTerminals body) ++
    .keyword .«else» :: (braced (Statement.blockTerminals otherwise) ++ rest))
  rw [Statement.bareReturns, missingIn_append]
  simp only [Statement.terminals, List.cons_append, List.append_assoc]
  exact .behind (.skipKeyword _) (meets_skipKeyword .«if») <| .behind (.condition quiet) tested <|
    .freshLabel fun number => .behind (.jumpUnless _) (jumpUnless_meets _) <| first.bind <|
      .behind (.acceptKeyword _) (meets_acceptKeyword .«else») <|
        .behind (.emit _) (meets_emit _) <| .behind (.emit _) (meets_emit _) <| second.last <|
          .of_quiet (.emit _) (meets_emit _)

theorem loop_warns (e : Expression) (body : List Statement) (rest : List Terminal) :
    Warns script (whileStatement step inner) ⟨visible, (Statement.loop e body).terminals ++ rest⟩
      (missingIn subroutine.name type ((Statement.loop e body).bareReturns rest)) ()
      ⟨visible, rest⟩ := by
  have tested := condition_meets terms e (braced (Statement.blockTerminals body) ++ rest)
  have inside := block_warns blocks body rest
  rw [Statement.bareReturns]
  simp only [Statement.terminals, List.cons_append, List.append_assoc]
  exact .freshLabel fun number => .behind (.skipKeyword _) (meets_skipKeyword .«while») <|
    .behind (.emit _) (meets_emit _) <| .behind (.condition quiet) tested <|
      .behind (.jumpUnless _) (jumpUnless_meets _) <| inside.last <|
        .behind (.emit _) (meets_emit _) (.of_quiet (.emit _) (meets_emit _))

variable (means : visible.lookup? = environment.lookup?)
  (className : subroutine.className = environment.className)
  (promises : subroutine.returnType = promisedBy type)
include means className promises

/-- A statement warns of what is missing in it. -/
theorem statement_warns (statement : Statement) (ends : Ends continuesStatement rest.head?) :
    Warns script (Codegen.statement subroutine step inner)
      ⟨visible, statement.terminals ++ rest⟩
      (missingIn subroutine.name type (statement.bareReturns rest)) true ⟨visible, rest⟩ := by
  have shows {word : Keyword} {tail : List Terminal}
      (begins : statement.terminals = .keyword word :: tail) (s : Session)
      (awaits : s.Awaits ⟨visible, statement.terminals ++ rest⟩) :
      s.tokens.keyword? = some word :=
    awaits.keyword?_eq_some.mpr (by simp [begins])
  have answered : Warns script (pure true) ⟨visible, rest⟩ [] true ⟨visible, rest⟩ :=
    .of_quiet (.pure true) (meets_pure _ _)
  cases statement with
  | assign target value =>
    rw [Statement.bareReturns, missingIn_nil]
    exact .look (shows rfl)
      (.behind (.letStatement quiet) (assign_meets terms means target value) answered)
  | assignElement array index value =>
    rw [Statement.bareReturns, missingIn_nil]
    exact .look (shows rfl)
      (.behind (.letStatement quiet) (assignElement_meets terms means array index value) answered)
  | ifThen e body =>
    exact .look (shows rfl) ((ifThen_warns terms quiet blocks e body ends).last answered)
  | ifElse e body otherwise =>
    exact .look (shows rfl) ((ifElse_warns terms quiet blocks e body otherwise rest).last answered)
  | loop e body =>
    exact .look (shows rfl) ((loop_warns terms quiet blocks e body rest).last answered)
  | discard c =>
    rw [Statement.bareReturns, missingIn_nil]
    exact .look (shows rfl)
      (.behind (.doStatement quiet _) (discard_meets terms means className c) answered)
  | giveBack value =>
    exact .look (shows rfl) ((giveBack_warns terms quiet promises value rest).last answered)

/-- Statements that are followed by no other one, and not by `else`. -/
theorem statementRounds_warn (body : List Statement) (ends : Ends continuesStatement rest.head?)
    (stops : Ends startsStatement rest.head?) :
    WarnsWhile script (Codegen.statement subroutine step inner)
      ⟨visible, Statement.blockTerminals body ++ rest⟩
      (missingIn subroutine.name type (Statement.listBareReturns rest body)) ⟨visible, rest⟩ := by
  induction body with
  | nil =>
    rw [Statement.listBareReturns, missingIn_nil]
    -- What comes next starts no statement, so the loop ends there.
    refine .done (.look_of
      (P := fun word? => ∀ word ∈ word?, startsStatement (.keyword word) = false)
      (fun s awaits word isNext => ?_) fun word? none => ?_)
    · exact stops _ (awaits.keyword?_eq_some.mp isNext)
    · split <;>
        first
        | exact .of_quiet (.pure false) (meets_pure false _)
        | exact absurd (none _ rfl) (by decide)
  | cons statement body others =>
    have first := statement_warns terms quiet blocks means className promises statement
      (ends_statements body ends)
    rw [Statement.listBareReturns, missingIn_append, Statement.blockTerminals, List.append_assoc]
    refine .cons first ?_ others
    obtain ⟨x, l, begins, -⟩ := statement.starts
    simp only [begins, List.length_append, List.length_cons]
    omega

end Statements

/-- Blocks of a subroutine, at any depth. -/
theorem statements_warn {subroutine : Subroutine} {type : Option TypeName}
    (means : visible.lookup? = environment.lookup?)
    (className : subroutine.className = environment.className)
    (promises : subroutine.returnType = promisedBy type) {level levels : Nat}
    (sum : level + levels = maxNesting + 1) :
    WarnsBlocks script visible subroutine.name type (statements subroutine levels) := by
  induction levels generalizing level with
  | zero => exact fun body rest => .location fun place => .never fun _ _ _ => runs_failAt
  | succ levels ih =>
    intro body rest
    have deeper : level + 1 + levels = maxNesting + 1 := by omega
    have terms : MeetsTerms script environment visible (level + 1)
        (term subroutine.className levels) := by
      rw [className]
      exact term_meets means deeper
    exact (statementRounds_warn terms (.term _ _) (ih deeper) means className promises body
      (.cons rfl) (.cons rfl)).repeatWhile

/-! ### Subroutines and classes -/

theorem subroutineBody_warns (script : Script) (c : ClassDeclaration) (d : SubroutineDeclaration)
    (rest : List Terminal) {earlier : List Declaration}
    (all : recorded earlier (inTurn localTerminals (VariableList.placed .«local») d.locals
      (Statement.blockTerminals d.body ++ .symbol closingBrace :: rest)) =
        (d.declarations c.name).reverse) :
    Warns script (subroutineBody d.kind ⟨c.name, d.name, promisedBy d.returnType⟩)
      ⟨tableOf c.declarations.reverse earlier, d.locals.flatMap localTerminals ++
        (Statement.blockTerminals d.body ++ .symbol closingBrace :: rest)⟩
      (d.missingValues rest) ()
      ⟨tableOf c.declarations.reverse (d.declarations c.name).reverse,
        .symbol closingBrace :: rest⟩ := by
  have blocks : WarnsBlocks script
      (tableOf c.declarations.reverse (d.declarations c.name).reverse) d.name d.returnType
      (statements ⟨c.name, d.name, promisedBy d.returnType⟩ maxNesting) :=
    statements_warn (lookup?_environment c d) rfl rfl (Nat.add_comm 1 maxNesting)
  exact .behind (.repeatWhile .localVariables) (locals_meet script c d rest all) <|
    .behind (.declarations _) (meets_declarations .«local») <| .behind (.emit _) (meets_emit _) <|
      .behind (.prologue _) (prologue_meets d.kind) <| blocks d.body rest

/-- A subroutine warns of what is missing in it, whatever subroutine was compiled before. -/
theorem subroutineOf_warns (script : Script) (c : ClassDeclaration) (d : SubroutineDeclaration)
    (ofSubroutine : List Declaration) (rest : List Terminal) {tail : List Terminal}
    (begins : d.terminals = .keyword (kindKeyword d.kind) :: tail) :
    Warns script (subroutineOf c.name d.kind)
      ⟨tableOf c.declarations.reverse ofSubroutine, tail ++ rest⟩ (d.missingValues rest) ()
      ⟨tableOf c.declarations.reverse (d.declarations c.name).reverse, rest⟩ := by
  have all := d.recorded_placed c.name rest
  rw [SubroutineDeclaration.placed, recorded_append] at all
  have body := subroutineBody_warns script c d rest all
  obtain rfl : tail = _ := by
    simpa only [SubroutineDeclaration.terminals, List.cons_append, List.cons.injEq, true_and]
      using begins.symm
  have declared := parameters_meets script (records_subroutine c.declarations.reverse)
    d.parameters (d.receivers c.name)
    (braced (d.locals.flatMap localTerminals ++ Statement.blockTerminals d.body) ++ rest)
  simp only [parenthesized, braced, List.cons_append, List.append_assoc, List.nil_append,
    SubroutineDeclaration.behindParameters] at declared body ⊢
  exact .behind .startSubroutine meets_startSubroutine <|
    .behind .returnType (returnType_meets d.returnType) <| .location fun place =>
      .behind .takeName (meets_takeName d.name) <|
        .behind (.report (by simp [Event.severity])) (meets_report _) <|
          .behind (.declareReceiver _ _ _) (declareReceiver_meets d c.name place _) <|
            .behind (.skipSymbol _) (meets_skipSymbol '(') <| .behind .parameters declared <|
              .behind (.skipSymbol _) (meets_skipSymbol ')') <|
                .behind (.skipSymbol _) (meets_skipSymbol openingBrace) <|
                  body.last (.of_quiet (.skipSymbol _) (meets_skipSymbol closingBrace))

theorem subroutine_warns (script : Script) (c : ClassDeclaration) (d : SubroutineDeclaration)
    (ofSubroutine : List Declaration) (rest : List Terminal) :
    Warns script (subroutine c.name)
      ⟨tableOf c.declarations.reverse ofSubroutine, d.terminals ++ rest⟩ (d.missingValues rest)
      true ⟨tableOf c.declarations.reverse (d.declarations c.name).reverse, rest⟩ := by
  obtain ⟨tail, begins⟩ : ∃ tail, d.terminals = .keyword (kindKeyword d.kind) :: tail :=
    ⟨_, rfl⟩
  have taken := subroutineOf_warns script c d ofSubroutine rest begins
  rw [begins, List.cons_append]
  refine .look (a := some (kindKeyword d.kind))
    (fun _ awaits => awaits.keyword?_eq_some.mpr rfl) ?_
  cases kind : d.kind <;> rw [kind] at taken <;>
    exact .behind .skip (meets_skip _) (taken.last (.of_quiet (.pure true) (meets_pure true _)))

/-- Subroutines warn one after the other. -/
theorem subroutines_warn (script : Script) (c : ClassDeclaration) (ds : List SubroutineDeclaration)
    (rest : List Terminal) : ∀ ofSubroutine, ∃ ofSubroutine',
      WarnsWhile script (subroutine c.name)
        ⟨tableOf c.declarations.reverse ofSubroutine,
          ds.flatMap SubroutineDeclaration.terminals ++ .symbol closingBrace :: rest⟩
        (inTurn SubroutineDeclaration.terminals SubroutineDeclaration.missingValues ds
          (.symbol closingBrace :: rest))
        ⟨tableOf c.declarations.reverse ofSubroutine', .symbol closingBrace :: rest⟩ := by
  induction ds with
  | nil =>
    intro ofSubroutine
    refine ⟨ofSubroutine, .done (.look (a := none) (fun s awaits => ?_)
      (.of_quiet (.pure false) (meets_pure false _)))⟩
    rw [Option.eq_none_iff_forall_ne_some]
    intro word isNext
    simpa using awaits.keyword?_eq_some.mp isNext
  | cons d ds ih =>
    intro ofSubroutine
    obtain ⟨ofSubroutine', others⟩ := ih (d.declarations c.name).reverse
    rw [List.flatMap_cons, List.append_assoc, inTurn]
    refine ⟨ofSubroutine', .cons (subroutine_warns script c d ofSubroutine _) ?_ others⟩
    simp only [SubroutineDeclaration.terminals, List.length_append, List.length_cons]
    omega

/-- **A class warns of the values that are missing in it.** -/
theorem classBody_warns (script : Script) (c : ClassDeclaration) : ∃ visible,
    Warns script classBody ⟨{}, c.terminals⟩ c.missingValues () ⟨visible, []⟩ := by
  obtain ⟨ofSubroutine, compiled⟩ := subroutines_warn script c c.subroutines [] []
  refine ⟨tableOf c.declarations.reverse ofSubroutine, .location fun place =>
    .behind (.report (by simp [Event.severity])) (meets_report _) ?_⟩
  simp only [ClassDeclaration.terminals, braced, List.cons_append, List.append_assoc]
  exact .behind (.skipKeyword _) (meets_skipKeyword .«class») <|
    .behind .takeName (meets_takeName c.name) <|
      .behind (.skipSymbol _) (meets_skipSymbol openingBrace) <|
        .behind (.repeatWhile .classVariables) (declarations_meet script c) <|
          compiled.repeatWhile.last <|
            .behind (.skipSymbol _) (meets_skipSymbol closingBrace) <|
              .of_quiet .expectEnd expectEnd_meets

end Codegen

end JackCompiler
