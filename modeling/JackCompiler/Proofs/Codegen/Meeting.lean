import JackCompiler.Proofs.Codegen.Advance
import JackCompiler.Proofs.Codegen.Success
import JackCompiler.Proofs.Grammar.Violation

/-!
# Steps that meet violations

On tokens that the grammar derives, a step either answers or fails with the first violation that it
meets. Which of the two happens depends on its outlook only, and the place of a violation is that of
a token of the source. A step is described by the outlook that it finds, the violations that it
meets, and the outlook that it leaves behind if it meets none. The descriptions of two steps compose
like the steps.

## Main definitions

* `Script`, `Session.Faces` — the tokens of a source, and a session that has taken some of them
* `Script.Reports`, `Script.Stops` — a fault reports a violation, and where a step stops with it
* `Codegen.Meets`, `Codegen.MeetsRounds` — what a step meets, and what a repeated step meets

## Main results

* `Codegen.Meets.bind` — steps one after the other
* `Codegen.meets_skipSymbol` and its companions — the steps that use the session
-/

namespace JackCompiler

open Grammar

/-- What a diagnostic says about a broken rule at a token. -/
def Grammar.Breach.cause (token : Token) : Breach → SyntacticFault
  | .undeclared name => .undefinedVariable name
  | .tooMany what => .tooMany what
  | .nestingTooDeep => .nestingTooDeep
  | .longString => .mismatch "shorter string constant" ("'" ++ token.text ++ "'")

/-- A stream that is read to its end gives what is read. -/
theorem TokenStream.Reads.gives {stream behind : TokenStream} {terminals : List Terminal}
    (reads : stream.Reads terminals behind) (atEnd : behind.next? = none) :
    ∃ tokens, stream.Gives tokens none ∧ tokens.map Token.terminal = terminals := by
  induction reads with
  | nil stream => exact ⟨[], .ended (by simpa [next?] using atEnd), rfl⟩
  | @cons stream middle behind token terminals takes _ ih =>
    obtain ⟨tokens, gives, rfl⟩ := ih atEnd
    exact ⟨token :: tokens, .taken takes gives, rfl⟩

/-- The tokens of a source without a lexical fault. -/
structure Script where
  file : String
  tokens : List Token

namespace Script

/-- A token of a source and the number of tokens from it up to the end. -/
def Marks (script : Script) (left : Nat) (token : Token) : Prop :=
  ∃ taken behind, script.tokens = taken ++ token :: behind ∧ behind.length + 1 = left

/-- The place of the first of the given terminals, which the source ends with. -/
def Places (script : Script) (terminals : List Terminal) (place : Location) : Prop :=
  ∃ token, script.Marks terminals.length token ∧
    place = { file := script.file, line := token.line }

/-- A fault reports a violation at the token where it is. -/
def Reports (script : Script) (fault : Fault) (v : Violation) : Prop :=
  ∃ token, script.Marks v.left token ∧
    fault = .syntactic {
      location := { file := script.file, line := token.line }
      cause := v.breach.cause token }

/-- A step has stopped with a fault that reports a violation. A level too many is found fault with
in front of a token, before this is taken. -/
structure Stops (script : Script) (v : Violation) (fault : Fault) (s : Session) : Prop where
  reports : script.Reports fault v
  ahead : v.breach = .nestingTooDeep → s.tokens.lookahead ≠ none

end Script

/-- A session has an outlook, and gives the last tokens of a source. -/
structure Session.Faces (s : Session) (script : Script) (o : Outlook) : Prop extends
    s.Awaits o where
  file : s.tokens.lexer.file = script.file
  gives : ∃ tokens, s.tokens.Gives tokens none ∧ tokens <:+ script.tokens ∧
    tokens.map Token.terminal = o.rest

namespace Session.Faces

variable {script : Script} {s : Session} {visible : VariableTable} {terminal : Terminal}
  {rest : List Terminal}

/-- The token of the first of the terminals that are left. -/
theorem ahead (h : s.Faces script ⟨visible, terminal :: rest⟩) : ∃ token : Token,
    s.tokens.lookahead = some token ∧ token.Sound ∧ token.terminal = terminal ∧
      script.Marks (rest.length + 1) token ∧
      s.tokens.location = { file := script.file, line := token.line } := by
  obtain ⟨tokens, gives, ⟨taken, all⟩, terminals⟩ := h.gives
  obtain ⟨token, behind, rfl, rfl, rfl⟩ := List.map_eq_cons_iff.mp terminals
  have ahead : s.tokens.lookahead = some token := gives.lookahead_eq
  refine ⟨token, ahead, h.consistent.sound token ahead, rfl, ⟨taken, behind, all.symm, by simp⟩, ?_⟩
  simp [TokenStream.location, ahead, h.file]

/-- The first of the terminals that are left can be taken. -/
theorem take (h : s.Faces script ⟨visible, terminal :: rest⟩) : ∃ tokens,
    s.tokens.Reads [terminal] tokens ∧ Faces { s with tokens } script ⟨visible, rest⟩ := by
  obtain ⟨tokens, reads, awaits⟩ := h.toAwaits.take
  obtain ⟨token, takes, rfl⟩ := TokenStream.reads_singleton.mp reads
  obtain ⟨all, gives, suffix, terminals⟩ := h.gives
  obtain ⟨behind, rfl, gives'⟩ := gives.takes takes
  refine ⟨tokens, reads, awaits, takes.file_eq.trans h.file, behind, gives', ?_, ?_⟩
  · exact (List.suffix_cons token behind).trans suffix
  · simpa using terminals

/-- Nothing matters but the tokens, what is visible, and that there is room for the code. -/
theorem transfer {s' : Session} {visible' : VariableTable} (h : s.Faces script ⟨visible, rest⟩)
    (tokens : s'.tokens = s.tokens) (unlimited : s'.output.room = none)
    (table : s'.visible = visible') : s'.Faces script ⟨visible', rest⟩ where
  consistent := tokens ▸ h.consistent
  reads := tokens ▸ h.reads
  unlimited := unlimited
  visible := table
  file := tokens ▸ h.file
  gives := tokens ▸ h.gives

end Session.Faces

/-- What a session still gives is the end of a source. -/
theorem Session.Awaits.faces {s : Session} {o : Outlook} (h : s.Awaits o) :
    ∃ script, s.Faces script o := by
  obtain ⟨behind, reads, atEnd⟩ := h.reads
  obtain ⟨tokens, gives, terminals⟩ := reads.gives atEnd
  exact ⟨⟨s.tokens.lexer.file, tokens⟩, h, rfl, tokens, gives, List.suffix_rfl, terminals⟩

namespace Codegen

variable {α β : Type} {script : Script} {a : α} {b : β} {o middle o' : Outlook}
  {visible : VariableTable} {rest tokens : List Terminal} {vs ws : List Violation}
  {environment : Environment}

/-- Wherever a step finds the first outlook, it meets the given violations: it fails with the first
of them, and if there is none, it gives an answer and leaves the second outlook. -/
def Meets (script : Script) (step : Codegen α) (o : Outlook) (vs : List Violation) (a : α)
    (o' : Outlook) : Prop :=
  ∀ s : Session, s.Faces script o →
    match vs with
    | [] => ∃ s', Runs step s a s' ∧ s'.Faces script o'
    | v :: _ => ∃ fault s', step.run.run s = (.error fault, s') ∧ script.Stops v fault s'

theorem meets_pure (a : α) (o : Outlook) : Meets script (pure a) o [] a o :=
  fun s faces => ⟨s, runs_pure.mpr ⟨rfl, rfl⟩, faces⟩

/-- Behind a violation, nothing matters any more. -/
theorem Meets.fails {step : Codegen α} {next : α → Codegen β} {v : Violation}
    (h : Meets script step o (v :: vs) a middle) :
    Meets script (step >>= next) o (v :: ws) b o' := by
  intro s faces
  obtain ⟨fault, s', run, stops⟩ := h s faces
  exact ⟨fault, s', by rw [run_bind, run], stops⟩

theorem Meets.bind {step : Codegen α} {next : α → Codegen β}
    (h : Meets script step o vs a middle) (h' : Meets script (next a) middle ws b o') :
    Meets script (step >>= next) o (vs ++ ws) b o' := by
  cases vs with
  | cons v vs => exact h.fails
  | nil =>
    -- The answer of the first step does not depend on the session, so one next step is enough.
    intro s faces
    obtain ⟨s₁, first, faces₁⟩ := h s faces
    have run : (step >>= next).run.run s = (next a).run.run s₁ := by
      rw [run_bind, show step.run.run s = (.ok a, s₁) from first]
    have second := h' s₁ faces₁
    cases ws with
    | nil =>
      obtain ⟨s₂, second, faces₂⟩ := second
      exact ⟨s₂, run.trans second, faces₂⟩
    | cons w ws =>
      obtain ⟨fault, s₂, second, stops⟩ := second
      exact ⟨fault, s₂, run.trans second, stops⟩

/-- A step in front of which nothing is wrong. -/
theorem Meets.next {step : Codegen α} {next : α → Codegen β} (h : Meets script step o [] a middle)
    (h' : Meets script (next a) middle vs b o') : Meets script (step >>= next) o vs b o' :=
  h.bind h'

/-- A step behind which nothing is wrong. -/
theorem Meets.last {step : Codegen α} {next : α → Codegen β} (h : Meets script step o vs a middle)
    (h' : Meets script (next a) middle [] b o') : Meets script (step >>= next) o vs b o' := by
  simpa using h.bind h'

theorem meets_checked_append {step : Codegen α} {obeyed : Prop} [Decidable obeyed] {breach : Breach}
    (h : obeyed → Meets script step o vs a o')
    (h' : ¬ obeyed → Meets script step o ({ breach, left := tokens.length } :: vs) a o') :
    Meets script step o (checked obeyed breach tokens ++ vs) a o' := by
  unfold checked
  split
  · exact h ‹_›
  · exact h' ‹_›

/-- A step that goes on as another one does. -/
theorem Meets.of_run {step : Codegen α}
    (h : ∀ s : Session, s.Faces script o → ∃ (step' : Codegen α) (s' : Session),
      Meets script step' o vs a o' ∧ s'.Faces script o ∧
        step.run.run s = step'.run.run s') : Meets script step o vs a o' := by
  intro s faces
  obtain ⟨step', s', meets, faces', run⟩ := h s faces
  have outcome := meets s' faces'
  cases vs with
  | nil =>
    obtain ⟨s'', run', faces''⟩ := outcome
    exact ⟨s'', run.trans run', faces''⟩
  | cons v vs =>
    obtain ⟨fault, s'', run', stops⟩ := outcome
    exact ⟨fault, s'', run.trans run', stops⟩

theorem meets_checked {step : Codegen α} {obeyed : Prop} [Decidable obeyed] {breach : Breach}
    (h : obeyed → Meets script step o [] a o')
    (h' : ¬ obeyed → Meets script step o [{ breach, left := tokens.length }] a o') :
    Meets script step o (checked obeyed breach tokens) a o' := by
  simpa using meets_checked_append h h'

/-! ### Steps that look ahead -/

/-- It is enough to know something of what shows. -/
theorem meets_look_bind_of {P : α → Prop} {view : TokenStream → α} {next : α → Codegen β}
    (shows : ∀ s : Session, s.Awaits o → P (view s.tokens))
    (h : ∀ a, P a → Meets script (next a) o vs b o') :
    Meets script (look view >>= next) o vs b o' :=
  .of_run fun s faces => ⟨_, s, h _ (shows s faces.toAwaits), faces, rfl⟩

theorem meets_look_bind {view : TokenStream → α} {next : α → Codegen β}
    (shows : ∀ s : Session, s.Awaits o → view s.tokens = a)
    (h : Meets script (next a) o vs b o') : Meets script (look view >>= next) o vs b o' := by
  refine meets_look_bind_of (P := (· = a)) shows ?_
  rintro _ rfl
  exact h

/-- The place of the look-ahead is that of the first of the terminals that are left. -/
theorem meets_location_bind {next : Location → Codegen β} (nonempty : o.rest ≠ [])
    (h : ∀ place, script.Places o.rest place → Meets script (next place) o vs b o') :
    Meets script (location >>= next) o vs b o' := by
  obtain ⟨visible, rest⟩ := o
  obtain ⟨terminal, rest, rfl⟩ := List.exists_cons_of_ne_nil nonempty
  refine .of_run fun s faces => ⟨_, s, h s.tokens.location ?_, faces, rfl⟩
  obtain ⟨token, -, -, -, marks, place⟩ := faces.ahead
  exact ⟨token, marks, place⟩

/-- The look-ahead is a token with the first of the terminals that are left. -/
theorem meets_lookahead_bind {terminal : Terminal} {next : Option Token → Codegen β}
    (h : ∀ token : Token, token.Sound → token.terminal = terminal →
      Meets script (next (some token)) ⟨visible, terminal :: rest⟩ vs b o') :
    Meets script (look (·.lookahead) >>= next) ⟨visible, terminal :: rest⟩ vs b o' := by
  refine .of_run fun s faces => ?_
  obtain ⟨token, ahead, sound, same, -⟩ := faces.ahead
  refine ⟨next (some token), s, h token sound same, faces, ?_⟩
  rw [← ahead]
  rfl

/-! ### Steps that take tokens -/

theorem meets_skipSymbol (c : Char) :
    Meets script (skipSymbol c) ⟨visible, .symbol c :: rest⟩ [] () ⟨visible, rest⟩ := by
  intro s faces
  obtain ⟨tokens, reads, faces'⟩ := faces.take
  exact ⟨_, runs_skipSymbol.mpr ⟨tokens, reads, rfl⟩, faces'⟩

theorem meets_skipKeyword (word : Keyword) :
    Meets script (skipKeyword word) ⟨visible, .keyword word :: rest⟩ [] () ⟨visible, rest⟩ := by
  intro s faces
  obtain ⟨tokens, reads, faces'⟩ := faces.take
  exact ⟨_, runs_skipKeyword.mpr ⟨tokens, reads, rfl⟩, faces'⟩

theorem meets_skip (terminal : Terminal) :
    Meets script skip ⟨visible, terminal :: rest⟩ [] () ⟨visible, rest⟩ := by
  intro s faces
  obtain ⟨tokens, reads, faces'⟩ := faces.take
  exact ⟨_, runs_skip.mpr ⟨terminal, tokens, reads, rfl⟩, faces'⟩

theorem meets_takeName (name : String) :
    Meets script takeName ⟨visible, .identifier name :: rest⟩ [] name ⟨visible, rest⟩ := by
  intro s faces
  obtain ⟨tokens, reads, faces'⟩ := faces.take
  exact ⟨_, runs_takeName.mpr ⟨tokens, reads, rfl⟩, faces'⟩

theorem meets_acceptSymbol (c : Char) :
    Meets script (acceptSymbol c) ⟨visible, .symbol c :: rest⟩ [] true ⟨visible, rest⟩ := by
  intro s faces
  obtain ⟨tokens, reads, faces'⟩ := faces.take
  exact ⟨_, runs_acceptSymbol.mpr (.inl ⟨rfl, tokens, reads, rfl⟩), faces'⟩

theorem meets_acceptSymbol_other {c : Char} (other : o.rest.head? ≠ some (.symbol c)) :
    Meets script (acceptSymbol c) o [] false o :=
  fun s faces => ⟨s, runs_acceptSymbol.mpr (.inr ⟨rfl, faces.next?_eq ▸ other, rfl⟩), faces⟩

theorem meets_acceptKeyword (word : Keyword) :
    Meets script (acceptKeyword word) ⟨visible, .keyword word :: rest⟩ [] true
      ⟨visible, rest⟩ := by
  intro s faces
  obtain ⟨tokens, reads, faces'⟩ := faces.take
  exact ⟨_, runs_acceptKeyword.mpr (.inl ⟨rfl, tokens, reads, rfl⟩), faces'⟩

theorem meets_acceptKeyword_other {word : Keyword}
    (other : o.rest.head? ≠ some (.keyword word)) :
    Meets script (acceptKeyword word) o [] false o :=
  fun s faces => ⟨s, runs_acceptKeyword.mpr (.inr ⟨rfl, faces.next?_eq ▸ other, rfl⟩), faces⟩

/-! ### Steps that write and declare -/

theorem meets_emit (instruction : Instruction) : Meets script (emit instruction) o [] () o := by
  intro s faces
  have written := Sink.write_of_unlimited Instruction.text instruction faces.unlimited
  refine ⟨_, runs_emit.mpr ⟨_, written, rfl⟩, faces.transfer rfl ?_ faces.visible⟩
  simp [Sink.extend, faces.unlimited]

theorem meets_report (event : Event) : Meets script (report event) o [] () o := by
  intro s faces
  exact ⟨_, runs_report.mpr rfl, faces.transfer rfl faces.unlimited faces.visible⟩

theorem meets_freshLabel_bind {next : Nat → Codegen β}
    (h : ∀ number, Meets script (next number) o vs b o') :
    Meets script (freshLabel >>= next) o vs b o' :=
  .of_run fun s faces => ⟨_, { s with nextLabel := s.nextLabel + 1 }, h s.nextLabel,
    faces.transfer rfl faces.unlimited faces.visible, rfl⟩

theorem meets_lookup? (name : String) :
    Meets script (lookup? name) o [] (o.visible.lookup? name) o :=
  fun s faces => ⟨s, runs_lookup?.mpr ⟨by rw [faces.visible], rfl⟩, faces⟩

theorem meets_declarations (kind : VariableKind) :
    Meets script (declarations kind) o [] (o.visible.count kind) o :=
  fun s faces => ⟨s, runs_declarations.mpr ⟨by rw [faces.visible], rfl⟩, faces⟩

theorem meets_startSubroutine :
    Meets script startSubroutine ⟨visible, rest⟩ [] () ⟨visible.startSubroutine, rest⟩ := by
  intro s faces
  exact ⟨_, runs_startSubroutine.mpr rfl, faces.transfer rfl faces.unlimited
    (congrArg VariableTable.startSubroutine faces.visible)⟩

theorem meets_declare {name type : String} {kind : VariableKind} {place : Location} {v : Variable}
    {visible' : VariableTable} (room : visible.declare? name type kind = some (v, visible')) :
    Meets script (declare name type kind place) ⟨visible, rest⟩ [] () ⟨visible', rest⟩ := by
  intro s faces
  exact ⟨_, runs_declare.mpr ⟨v, visible', by rw [faces.visible, room], rfl⟩,
    faces.transfer rfl faces.unlimited rfl⟩

/-! ### Steps that fail -/

/-- A violation whose wording depends on nothing but its sort. -/
theorem meets_failAt {place : Location} {breach : Breach} {cause : SyntacticFault}
    (placed : script.Places tokens place) (worded : ∀ token, breach.cause token = cause)
    (ahead : breach = .nestingTooDeep → o.rest ≠ []) :
    Meets script (failAt place cause) o ({ breach, left := tokens.length } :: vs) a o' := by
  intro s faces
  obtain ⟨token, marks, rfl⟩ := placed
  have reports : script.Reports
      (.syntactic { location := { file := script.file, line := token.line }, cause })
      { breach, left := tokens.length } := ⟨token, marks, by rw [worded]⟩
  -- The step has taken nothing, so that the look-ahead is still there.
  exact ⟨_, s, rfl, reports, fun deep => faces.lookahead_ne_none (ahead deep)⟩

theorem meets_declare_full {name type : String} {kind : VariableKind} {place : Location}
    (placed : script.Places tokens place) (full : o.visible.declare? name type kind = none) :
    Meets script (declare name type kind place) o
      [{ breach := .tooMany kind.plural, left := tokens.length }] () o' := by
  intro s faces
  obtain ⟨token, marks, rfl⟩ := placed
  refine ⟨_, s, ?_, ⟨token, marks, rfl⟩, nofun⟩
  rw [run_declare, faces.visible, full]
  rfl

/-- A string that is too long is reported in place of the one that was expected. -/
theorem meets_failExpecting_shorter {terminal : Terminal} :
    Meets script (failExpecting "shorter string constant") ⟨visible, terminal :: rest⟩
      [{ breach := .longString, left := rest.length + 1 }] a o' := by
  intro s faces
  obtain ⟨token, ahead, -, -, marks, place⟩ := faces.ahead
  refine ⟨s.tokens.mismatch "shorter string constant", s, rfl, ⟨token, marks, ?_⟩, nofun⟩
  simp [TokenStream.mismatch, place, ahead, Breach.cause]

/-- A name that has to be declared. -/
theorem meets_resolve_bind {name : String} {place : Location} {next : Variable → Codegen β}
    (means : o.visible.lookup? = environment.lookup?) (placed : script.Places tokens place)
    (h : ∀ v, Meets script (next v) o vs b o') :
    Meets script (resolve name place >>= next) o
      (checked (environment.lookup? name).isSome (.undeclared name) tokens ++ vs) b o' := by
  rw [← means]
  refine meets_checked_append (fun known => ?_) fun unknown => ?_
  · obtain ⟨v, known⟩ := Option.isSome_iff_exists.mp known
    refine .next (fun s faces => ?_) (h v)
    exact ⟨s, runs_resolve.mpr ⟨by rw [faces.visible, known], rfl⟩, faces⟩
  · have failed : Meets script (resolve name place) o
        ({ breach := .undeclared name, left := tokens.length } :: vs) default o := by
      refine .next (meets_lookup? name) ?_
      rw [Option.not_isSome_iff_eq_none.mp unknown]
      exact meets_failAt placed (fun _ => rfl) nofun
    exact failed.fails

/-! ### Repeated steps -/

/-- What a repeated step meets if there may be more rounds than terminals are left. -/
def MeetsRounds (script : Script) (step : α → Codegen (Option α)) (o : Outlook)
    (vs : List Violation) (a b : α) (o' : Outlook) : Prop :=
  ∀ bound, o.rest.length < bound → Meets script (iterateAtMost step bound a) o vs b o'

section Rounds

variable {step : α → Codegen (Option α)} {c d : α}

theorem meetsRounds_last (h : Meets script (step c) o [] none o) :
    MeetsRounds script step o [] c c o := by
  rintro (_ | bound) enough
  · cases enough
  · exact h.next (meets_pure c o)

/-- One more round, which takes a token. -/
theorem MeetsRounds.cons {next : α} (h : Meets script (step c) o vs (some next) middle)
    (shorter : middle.rest.length < o.rest.length)
    (h' : MeetsRounds script step middle ws next d o') :
    MeetsRounds script step o (vs ++ ws) c d o' := by
  rintro (_ | bound) enough
  · cases enough
  · -- The bound goes down by one, and the terminals that are left by at least one.
    exact h.bind (h' bound (by omega))

theorem MeetsRounds.iterate (h : MeetsRounds script step o vs c d o') :
    Meets script (iterate step c) o vs d o' := by
  -- The bound that the step chooses exceeds the tokens left, so the rounds fit.
  refine meets_look_bind_of (P := fun left => o.rest.length ≤ left) (fun s awaits => ?_) ?_
  · exact awaits.length_le
  · intro left enough
    exact h (left + 1) (by omega)

end Rounds

/-- What a step meets that is repeated while it has something to do. -/
def MeetsWhile (script : Script) (step : Codegen Bool) (o : Outlook) (vs : List Violation)
    (o' : Outlook) : Prop :=
  MeetsRounds script (fun () => do if ← step then return some () else return none) o vs () () o'

section While

variable {step : Codegen Bool}

theorem meetsWhile_last (h : Meets script step o [] false o) : MeetsWhile script step o [] o :=
  meetsRounds_last (h.next (meets_pure none o))

theorem MeetsWhile.cons (h : Meets script step o vs true middle)
    (shorter : middle.rest.length < o.rest.length) (h' : MeetsWhile script step middle ws o') :
    MeetsWhile script step o (vs ++ ws) o' :=
  MeetsRounds.cons (h.last (meets_pure (some ()) middle)) shorter h'

theorem MeetsWhile.repeatWhile (h : MeetsWhile script step o vs o') :
    Meets script (repeatWhile step) o vs () o' :=
  MeetsRounds.iterate h

end While

end Codegen

end JackCompiler
