import JackCompiler.Proofs.Codegen.Run

/-!
# Steps that warn of nothing

Most steps report nothing that is worth a warning: terms and expressions report nothing at all, and
declarations report only what they declare. Whatever such a step does before it answers, the
warnings are those that there were.

## Main definitions

* `warnings` — the events that are worth a warning
* `Codegen.Quiet` — a step that answers has not warned

## Main results

* `Codegen.Quiet.term`, `Codegen.Quiet.expression` — terms and expressions
* `Codegen.Quiet.classVariables`, `Codegen.Quiet.localVariables` — declarations
-/

namespace JackCompiler

/-- The events that are worth a warning, in the order in which they were reported. -/
def warnings (events : Array Event) : List Event :=
  events.toList.filter (·.severity = .warn)

@[simp] theorem warnings_push (events : Array Event) (event : Event) :
    warnings (events.push event) =
      warnings events ++ if event.severity = .warn then [event] else [] := by
  simp [warnings, List.filter_cons]

namespace Codegen

variable {α β γ : Type} {x : Codegen α} {f : α → Codegen β} {step : Codegen Unit}

/-- A step that answers has not warned. -/
def Quiet (step : Codegen α) : Prop :=
  ∀ s a s', Runs step s a s' → warnings s'.events = warnings s.events

namespace Quiet

/-! ### Composed steps -/

theorem pure (a : α) : Quiet (Pure.pure a) := by
  rintro s _ s' run
  obtain ⟨-, rfl⟩ := runs_pure.mp run
  rfl

theorem bind (first : Quiet x) (rest : ∀ a, Quiet (f a)) : Quiet (x >>= f) := by
  intro s b s' run
  obtain ⟨a, middle, run, run'⟩ := runs_bind.mp run
  rw [rest a middle b s' run', first s a middle run]

/-- A step that never answers. -/
theorem never (fails : ∀ s a s', ¬ Runs x s a s') : Quiet x :=
  fun s a s' run => absurd run (fails s a s')

theorem failAt {place : Location} {cause : SyntacticFault} :
    Quiet (Codegen.failAt place cause : Codegen α) :=
  never fun _ _ _ => runs_failAt

theorem failExpecting {expected : String} : Quiet (Codegen.failExpecting expected : Codegen α) :=
  never fun _ _ _ => runs_failExpecting

theorem forM {items : List γ} {f : γ → Codegen Unit} (each : ∀ c, Quiet (f c)) :
    Quiet (items.forM f) := by
  induction items with
  | nil => exact .pure _
  | cons c items ih => exact .bind (each c) fun _ => ih

theorem iterateAtMost {step : α → Codegen (Option α)} (round : ∀ a, Quiet (step a)) (bound : Nat) :
    ∀ a, Quiet (Codegen.iterateAtMost step bound a) := by
  induction bound with
  | zero => exact .pure
  | succ bound ih =>
    refine fun a => .bind (round a) fun next => ?_
    cases next with
    | some b => exact ih b
    | none => exact .pure a

/-! ### Steps that use the session -/

theorem read (reader : TokenReader α) : Quiet (Codegen.read reader) := by
  intro s a s' run
  obtain ⟨_, -, rfl⟩ := runs_read.mp run
  rfl

theorem discard (quiet : Quiet x) : Quiet (discard x) :=
  .bind quiet fun _ => .pure ()

theorem skip : Quiet Codegen.skip :=
  .discard (.read _)

theorem skipSymbol (c : Char) : Quiet (Codegen.skipSymbol c) :=
  .discard (.read _)

theorem skipKeyword (word : Keyword) : Quiet (Codegen.skipKeyword word) :=
  .discard (.read _)

theorem acceptSymbol (c : Char) : Quiet (Codegen.acceptSymbol c) :=
  .read _

theorem acceptKeyword (word : Keyword) : Quiet (Codegen.acceptKeyword word) :=
  .read _

theorem takeName : Quiet Codegen.takeName :=
  .read _

theorem look (view : TokenStream → α) : Quiet (Codegen.look view) := by
  intro s a s' run
  obtain ⟨-, rfl⟩ := runs_look.mp run
  rfl

theorem location : Quiet Codegen.location :=
  .look _

theorem emit (instruction : Instruction) : Quiet (Codegen.emit instruction) := by
  intro s a s' run
  obtain ⟨_, -, rfl⟩ := runs_emit.mp run
  rfl

theorem report {event : Event} (mild : event.severity ≠ .warn) : Quiet (Codegen.report event) := by
  intro s a s' run
  obtain rfl := runs_report.mp run
  simp [mild]

theorem lookup? (name : String) : Quiet (Codegen.lookup? name) := by
  intro s a s' run
  obtain ⟨-, rfl⟩ := runs_lookup?.mp run
  rfl

theorem declarations (kind : VariableKind) : Quiet (Codegen.declarations kind) := by
  intro s a s' run
  obtain ⟨-, rfl⟩ := runs_declarations.mp run
  rfl

theorem startSubroutine : Quiet Codegen.startSubroutine := by
  intro s a s' run
  obtain rfl := runs_startSubroutine.mp run
  rfl

/-- A declaration is reported, but not as a warning. -/
theorem declare (name type : String) (kind : VariableKind) (place : Location) :
    Quiet (Codegen.declare name type kind place) := by
  intro s a s' run
  obtain ⟨v, visible, -, rfl⟩ := runs_declare.mp run
  simp [Event.severity]

theorem resolve (name : String) (place : Location) : Quiet (Codegen.resolve name place) := by
  refine .bind (.lookup? name) fun found => ?_
  cases found with
  | some v => exact .pure v
  | none => exact .failAt

theorem iterate {step : α → Codegen (Option α)} (round : ∀ a, Quiet (step a)) (a : α) :
    Quiet (Codegen.iterate step a) :=
  .bind (.look _) fun left => iterateAtMost round (left + 1) a

theorem repeatWhile {step : Codegen Bool} (round : Quiet step) :
    Quiet (Codegen.repeatWhile step) := by
  refine .iterate (fun _ => .bind round fun going => ?_) ()
  cases going <;> exact .pure _

/-! ### Expressions -/

theorem operatorRound (inner : Quiet step) (pending : List BinaryOperator) :
    Quiet (Codegen.operatorRound step pending) := by
  refine .bind (.look _) fun operator? => ?_
  cases operator? with
  | some operator => exact .bind .skip fun _ => .bind inner fun _ => .pure _
  | none => exact .pure none

theorem expression (inner : Quiet step) : Quiet (Codegen.expression step) :=
  .bind inner fun _ => .bind (.iterate (operatorRound inner) []) fun _ => .forM fun _ => .emit _

theorem elementAddress (inner : Quiet step) (v : Variable) :
    Quiet (Codegen.elementAddress step v) :=
  .bind (.emit _) fun _ => .bind (.expression inner) fun _ => .bind (.skipSymbol ']') fun _ =>
    .emit _

theorem argumentRound (inner : Quiet step) (count : Nat) :
    Quiet (Codegen.argumentRound step count) := by
  refine .bind (.acceptSymbol ',') fun more => ?_
  split
  · refine .bind (.expression inner) fun _ => ?_
    split
    · exact .pure _
    · exact .bind .location fun _ => .failAt
  · exact .pure none

theorem argumentList (inner : Quiet step) : Quiet (Codegen.argumentList step) := by
  refine .bind (.look _) fun none => ?_
  split
  · exact .pure 0
  · exact .bind (.expression inner) fun _ => .iterate (argumentRound inner) 1

theorem callTarget (className first : String) : Quiet (Codegen.callTarget className first) := by
  refine .bind (.acceptSymbol '.') fun qualified => ?_
  split
  · refine .bind .takeName fun name => .bind (.lookup? first) fun found => ?_
    cases found <;> exact .pure _
  · exact .pure _

theorem call (inner : Quiet step) (className first : String) :
    Quiet (Codegen.call className step first) := by
  refine .bind (.callTarget className first) fun target => .bind (.skipSymbol '(') fun _ =>
    .bind ?_ fun _ => .bind (.argumentList inner) fun count => ?_
  · cases target.receiver? with
    | none => exact .pure ()
    | some receiver => cases receiver <;> exact .emit _
  · split
    · exact .bind (.skipSymbol ')') fun _ => .emit _
    · exact .bind .location fun _ => .failAt

theorem keywordConstant (word : Keyword) : Quiet (Codegen.keywordConstant word) := by
  unfold Codegen.keywordConstant
  split
  · exact .bind .skip fun _ => .bind (.emit _) fun _ => .emit _
  · exact .bind .skip fun _ => .emit _
  · exact .bind .skip fun _ => .emit _
  · exact .bind .skip fun _ => .emit _
  · exact .failExpecting

theorem stringConstant (contents : List Char) : Quiet (Codegen.stringConstant contents) :=
  .bind (.emit _) fun _ => .bind (.emit _) fun _ => .forM fun _ => .bind (.emit _) fun _ => .emit _

theorem named (inner : Quiet step) (className : String) : Quiet (Codegen.named className step) := by
  refine .bind .location fun place => .bind .takeName fun name => .bind (.look _) fun symbol? => ?_
  split
  · exact .bind .skip fun _ => .bind (.resolve name place) fun v =>
      .bind (.elementAddress inner v) fun _ => .bind (.emit _) fun _ => .emit _
  · exact .call inner className name
  · exact .call inner className name
  · exact .bind (.resolve name place) fun _ => .emit _

theorem operand (inner : Quiet step) (className : String) :
    Quiet (Codegen.operand className step) := by
  refine .bind (.look _) fun token? => ?_
  cases token? with
  | none => exact .failExpecting
  | some token =>
    dsimp only
    split
    · split
      · exact .bind .skip fun _ => .emit _
      · exact .failExpecting
    · split
      · exact .bind .skip fun _ => .stringConstant _
      · exact .failExpecting
    · exact .keywordConstant _
    · exact .bind .skip fun _ => .bind (.expression inner) fun _ => .skipSymbol ')'
    · exact .bind .skip fun _ => .bind inner fun _ => .emit _
    · exact .bind .skip fun _ => .bind inner fun _ => .emit _
    · exact .named inner className
    · exact .failExpecting

theorem term (className : String) : ∀ levels, Quiet (Codegen.term className levels)
  | 0 => .bind .location fun _ => .failAt
  | levels + 1 => .operand (term className levels) className

/-! ### Statements without blocks -/

theorem letStatement (inner : Quiet step) : Quiet (Codegen.letStatement step) := by
  refine .bind (.skipKeyword _) fun _ => .bind .location fun place => .bind .takeName fun name =>
    .bind (.resolve name place) fun target => .bind (.acceptSymbol '[') fun element => ?_
  split
  · exact .bind (.elementAddress inner target) fun _ => .bind (.skipSymbol '=') fun _ =>
      .bind (.expression inner) fun _ => .bind (.skipSymbol ';') fun _ => .bind (.emit _) fun _ =>
        .bind (.emit _) fun _ => .bind (.emit _) fun _ => .emit _
  · exact .bind (.skipSymbol '=') fun _ => .bind (.expression inner) fun _ =>
      .bind (.skipSymbol ';') fun _ => .emit _

theorem doStatement (inner : Quiet step) (className : String) :
    Quiet (Codegen.doStatement className step) :=
  .bind (.skipKeyword _) fun _ => .bind .takeName fun name => .bind (.call inner className name)
    fun _ => .bind (.skipSymbol ';') fun _ => .emit _

theorem condition (inner : Quiet step) : Quiet (Codegen.condition step) :=
  .bind (.skipSymbol '(') fun _ => .bind (.expression inner) fun _ => .skipSymbol ')'

theorem jumpUnless (label : String) : Quiet (Codegen.jumpUnless label) :=
  .bind (.emit _) fun _ => .emit _

/-! ### Declarations -/

theorem typeName : Quiet Codegen.typeName := by
  refine .bind (.look _) fun kind? => ?_
  split
  · split
    · exact .bind .skip fun _ => .pure _
    · exact .failExpecting
  · exact .takeName
  · exact .failExpecting

theorem declareNext (type : String) (kind : VariableKind) : Quiet (Codegen.declareNext type kind) :=
  .bind .location fun place => .bind .takeName fun name => .declare name type kind place

theorem separatedByCommas {item : Codegen Unit} (each : Quiet item) :
    Quiet (Codegen.separatedByCommas item) := by
  refine .bind each fun _ => .repeatWhile (.bind (.acceptSymbol ',') fun more => ?_)
  split
  · exact .bind each fun _ => .pure true
  · exact .pure false

theorem variableNames (kind : VariableKind) : Quiet (Codegen.variableNames kind) :=
  .bind .typeName fun type => .bind (.separatedByCommas (.declareNext type kind)) fun _ =>
    .skipSymbol ';'

theorem classVariables : Quiet Codegen.classVariables := by
  refine .bind (.look _) fun word? => ?_
  split
  · exact .bind .skip fun _ => .bind (.variableNames _) fun _ => .pure true
  · exact .bind .skip fun _ => .bind (.variableNames _) fun _ => .pure true
  · exact .pure false

theorem localVariables : Quiet Codegen.localVariables := by
  refine .bind (.look _) fun word? => ?_
  split
  · exact .bind .skip fun _ => .bind (.variableNames _) fun _ => .pure true
  · exact .pure false

theorem parameters : Quiet Codegen.parameters := by
  refine .bind (.look _) fun none => ?_
  split
  · exact .pure ()
  · exact .separatedByCommas (.bind .typeName fun type => .declareNext type _)

theorem declareReceiver (kind : SubroutineKind) (className : String) (place : Location) :
    Quiet (Codegen.declareReceiver kind className place) := by
  cases kind with
  | method => exact .declare "this" className .argument place
  | constructor | function => exact .pure ()

theorem expectEnd : Quiet Codegen.expectEnd := by
  refine .bind (.look _) fun more => ?_
  split
  · exact .failExpecting
  · exact .pure ()

theorem prologue (kind : SubroutineKind) : Quiet (Codegen.prologue kind) := by
  cases kind with
  | constructor =>
    exact .bind (.declarations .field) fun _ => .bind (.emit _) fun _ => .bind (.emit _) fun _ =>
      .emit _
  | method => exact .bind (.emit _) fun _ => .emit _
  | function => exact .pure ()

theorem returnType : Quiet Codegen.returnType := by
  refine .bind (.acceptKeyword _) fun nothing => ?_
  split
  · exact .pure _
  · exact .bind .typeName fun _ => .pure _

end Quiet

end Codegen

end JackCompiler
