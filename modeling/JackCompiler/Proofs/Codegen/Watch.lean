import JackCompiler.Proofs.Codegen.Advance
import JackCompiler.Proofs.Codegen.CountedPass
import JackCompiler.Proofs.Token.Usable

/-!
# Sessions that are watched

What is watched of a session is a parameter: whatever it is, it has to survive taking a token,
writing, declaring and reporting, and it has to keep the session within its range. Drawing a label
uses up a reserve, and every token that is taken restores it. A step of the code generator that
finds a session as it should be leaves one, or it fails for a cause that is found in the source.

## Main definitions

* `Fault.OfSource`, `Fault.IsNesting` — faults that a source can have, and the one about nesting
* `Watch` — what is watched, and the laws that it obeys
* `Watch.Keeps` — a step keeps what is watched, if the tokens show the right thing in front of it

## Main results

* `Watch.Keeps.bind` and its companions — composed steps
* `Watch.Keeps.skipExpected` and its companions — the steps that use the session
-/

namespace JackCompiler

/-- A fault that a source can have: nothing is wrong with the storage, no token is asked for where
there is none, and no constant is without a value. -/
def Fault.OfSource : Fault → Prop
  | .lexical fault => fault.cause ≠ .unexpectedEnd
  | .syntactic fault => ∀ expected encountered, fault.cause = .mismatch expected encountered →
    expected ≠ "more tokens" ∧ expected ≠ "integer constant"
  | _ => False

/-- The fault that terms and blocks are nested too deep. -/
def Fault.IsNesting (fault : Fault) : Prop :=
  ∃ place, fault = .syntactic { location := place, cause := .nestingTooDeep }

/-- The text of something that stands between quotes is none of the two that no source can have. -/
theorem quoted_ne {text : String} :
    "'" ++ text ++ "'" ≠ "more tokens" ∧ "'" ++ text ++ "'" ≠ "integer constant" := by
  constructor <;> intro same <;> simpa using congrArg String.toList same

theorem TokenStream.isSome_lookahead_of_kind? {stream : TokenStream} {kind : TokenKind}
    (found : (stream.kind? == some kind) = true) : stream.lookahead.isSome = true := by
  simp only [kind?, beq_iff_eq, Option.map_eq_some_iff] at found
  obtain ⟨token, ahead, -⟩ := found
  rw [ahead, Option.isSome_some]

theorem TokenStream.isSome_lookahead_of_bind {stream : TokenStream} {α : Type}
    {view : Token → Option α} {a : α} (found : stream.lookahead.bind view = some a) :
    stream.lookahead.isSome = true := by
  obtain ⟨token, ahead, -⟩ := Option.bind_eq_some_iff.mp found
  rw [ahead, Option.isSome_some]

/-- What is watched of the sessions of a pass, with a reserve of labels. Ranges may depend on how
many levels are open, which are never more than there may be. -/
structure Watch (limits : Limits) where
  holds : Nat → Session → Prop
  /-- The faults that are possible. -/
  faults : Fault → Prop
  ofSource : ∀ {fault}, fault.OfSource → faults fault
  consistent : ∀ {n s}, holds n s → s.tokens.Consistent
  rounds : ∀ {n s}, holds n s → s.tokens.tokensLeft < limits.rounds
  inRange : ∀ {n session depth}, holds n session → depth ≤ maxNesting →
    limits.inRange { session, depth } = true
  weaken : ∀ {n s}, holds (n + 1) s → holds n s
  label : ∀ {n s}, holds (n + 1) s → holds n { s with nextLabel := s.nextLabel + 1 }
  take : ∀ {n s token behind}, holds n s → s.tokens.Takes token behind →
    holds (n + 1) { s with tokens := behind }
  /-- The token that is taken is the last in front of a lexical fault. -/
  stop : ∀ {n s token fault lexer depth}, holds n s → s.tokens.lookahead = some token →
    s.tokens.lexer.next = (.error fault, lexer) → depth ≤ maxNesting →
      let tokens := { lexer, lookahead := none, lastLine := token.line : TokenStream }
      limits.inRange { session := { s with tokens }, depth } = true
  startSubroutine : ∀ {n s}, holds n s → holds n { s with visible := s.visible.startSubroutine }
  declare : ∀ {n s name type kind v visible events}, holds n s →
    s.visible.declare? name type kind = some (v, visible) → holds n { s with visible, events }
  report : ∀ {n s events}, holds n s → holds n { s with events }
  write : ∀ {n s instruction output}, holds n s →
    s.output.write Instruction.text instruction = (.ok (), output) → holds n { s with output }
  /-- The sink is full. -/
  tear : ∀ {n s instruction output fault depth}, holds n s →
    s.output.write Instruction.text instruction = (.error fault, output) →
      faults (.storage fault) ∧
        (depth ≤ maxNesting → limits.inRange { session := { s with output }, depth } = true)
  flush : ∀ {n s}, holds n s → s.output.canFlush = true ∨ faults (.storage .flushFailed)

namespace Watch

variable {limits : Limits} {W : Watch limits} {α β γ : Type} {n k m : Nat} {s : Session}
  {shows : TokenStream → Prop} {x : Codegen α} {f : α → Codegen β}

/-- What a step comes to that is watched. -/
inductive Leaves (W : Watch limits) (n : Nat) : Except Fault α × Session → Prop where
  | answer {a : α} {s : Session} (holds : W.holds n s) : Leaves W n (.ok a, s)
  | failure {fault : Fault} {session : Session} (possible : W.faults fault)
    (other : ¬ fault.IsNesting)
    (inRange : ∀ depth ≤ maxNesting, limits.inRange { session, depth } = true) :
    Leaves W n (.error fault, session)

/-- A step keeps what is watched, with the given reserves in front of it and behind it, wherever the
tokens show something. -/
def Keeps (W : Watch limits) (shows : TokenStream → Prop) (n m : Nat) (x : Codegen α) : Prop :=
  ∀ s, W.holds n s → shows s.tokens → W.Leaves m (x.run.run s)

/-- The tokens show something or nothing. -/
@[reducible] def anything : TokenStream → Prop := fun _ => True

namespace Keeps

/-! ### Composed steps -/

theorem weaken (h : W.Keeps shows n (m + 1) x) : W.Keeps shows n m x := by
  intro s holds shown
  have outcome := h s holds shown
  generalize x.run.run s = run at outcome
  cases outcome with
  | answer holds => exact .answer (W.weaken holds)
  | failure possible other inRange => exact .failure possible other inRange

/-- A step that is never run. -/
theorem never (h : ∀ s, W.holds n s → ¬ shows s.tokens) : W.Keeps shows n m x :=
  fun s holds shown => absurd shown (h s holds)

theorem bind (first : W.Keeps shows n k x) (rest : ∀ a, W.Keeps anything k m (f a)) :
    W.Keeps shows n m (x >>= f) := by
  intro s holds shown
  have outcome := first s holds shown
  rw [Codegen.run_bind]
  generalize x.run.run s = run at outcome
  cases outcome with
  | answer holds => exact rest _ _ holds trivial
  | failure possible other inRange => exact .failure possible other inRange

theorem pure (a : α) : W.Keeps shows n n (Pure.pure a) :=
  fun _ holds _ => .answer holds

/-- Behind a look it is known what the tokens show. -/
theorem look {view : TokenStream → γ} {f : γ → Codegen β}
    (rest : ∀ c, W.Keeps (fun stream => view stream = c) n m (f c)) :
    W.Keeps shows n m (Codegen.look view >>= f) :=
  fun s holds _ => rest (view s.tokens) s holds rfl

/-- Where the look-ahead is does not matter. -/
theorem location {f : Location → Codegen β} (rest : ∀ place, W.Keeps anything n m (f place)) :
    W.Keeps shows n m (Codegen.location >>= f) :=
  .look fun place s holds _ => rest place s holds trivial

theorem forM {items : List γ} {f : γ → Codegen Unit} (rest : ∀ c, W.Keeps anything n n (f c)) :
    W.Keeps shows n n (items.forM f) := by
  induction items generalizing shows with
  | nil => exact .pure _
  | cons c items ih => exact .bind (fun s holds _ => rest c s holds trivial) fun _ => ih

/-- A step that leaves the tokens and the labels alone. -/
theorem of_answers {answer : Session → α} {behind : Session → Session}
    (run : ∀ s, x.run.run s = (.ok (answer s), behind s))
    (holds : ∀ s, W.holds n s → W.holds n (behind s)) : W.Keeps shows n n x := by
  intro s held _
  rw [run]
  exact .answer (holds s held)

/-! ### Failing -/

theorem failAt {place : Location} {cause : SyntacticFault}
    (noMismatch : ∀ expected encountered, cause ≠ .mismatch expected encountered)
    (noNesting : cause ≠ .nestingTooDeep) :
    W.Keeps shows n m (Codegen.failAt place cause : Codegen α) := by
  refine fun s holds _ => .failure (W.ofSource fun expected encountered same => ?_) ?_
    fun _ => W.inRange holds
  · exact absurd same (noMismatch expected encountered)
  · rintro ⟨_, same⟩
    cases same
    exact noNesting rfl

theorem failExpecting {expected : String}
    (possible : expected ≠ "more tokens" ∧ expected ≠ "integer constant") :
    W.Keeps shows n m (Codegen.failExpecting expected : Codegen α) := by
  intro s holds _
  have ofSource : (s.tokens.mismatch expected).OfSource := by
    intro expected' encountered same
    cases same
    exact possible
  refine .failure (W.ofSource ofSource) ?_ fun _ => W.inRange holds
  rintro ⟨_, same⟩
  cases same

/-! ### Steps that use the session -/

theorem emit (instruction : Instruction) : W.Keeps shows n n (Codegen.emit instruction) := by
  intro s holds _
  rw [Codegen.run_emit]
  cases written : s.output.write Instruction.text instruction with
  | mk result output =>
    cases result with
    | ok => exact .answer (W.write holds written)
    | error fault =>
      have torn (depth : Nat) : W.faults (.storage fault) ∧ (depth ≤ maxNesting →
          limits.inRange { session := { s with output }, depth } = true) := W.tear holds written
      refine .failure (torn 0).1 ?_ fun depth => (torn depth).2
      rintro ⟨_, same⟩
      cases same

theorem flush : W.Keeps shows n n Codegen.flush := by
  intro s holds _
  rw [Codegen.run_flush]
  split
  · exact .answer holds
  · rename_i unable
    refine .failure ((W.flush holds).resolve_left unable) ?_ fun _ => W.inRange holds
    rintro ⟨_, same⟩
    cases same

theorem report (event : Event) : W.Keeps shows n n (Codegen.report event) :=
  .of_answers (fun _ => rfl) fun _ holds => W.report holds

theorem startSubroutine : W.Keeps shows n n Codegen.startSubroutine :=
  .of_answers (fun _ => rfl) fun _ holds => W.startSubroutine holds

theorem lookup? (name : String) : W.Keeps shows n n (Codegen.lookup? name) :=
  .of_answers (fun _ => rfl) fun _ holds => holds

theorem declarations (kind : VariableKind) : W.Keeps shows n n (Codegen.declarations kind) :=
  .of_answers (fun _ => rfl) fun _ holds => holds

/-- A label is drawn from the reserve. -/
theorem freshLabel : W.Keeps shows (n + 1) n Codegen.freshLabel :=
  fun _ holds _ => .answer (W.label holds)

theorem declare (name type : String) (kind : VariableKind) (place : Location) :
    W.Keeps shows n n (Codegen.declare name type kind place) := by
  intro s holds shown
  rw [Codegen.run_declare]
  split
  · rename_i declared
    exact .answer (W.declare holds declared)
  · have refused : W.Keeps shows n n (Codegen.failAt place (.tooMany kind.plural) : Codegen Unit) :=
      .failAt (by simp) (by simp)
    exact refused s holds shown

theorem resolve (name : String) (place : Location) :
    W.Keeps shows n n (Codegen.resolve name place) := by
  refine .bind (.lookup? name) fun found => ?_
  cases found with
  | some v => exact .pure v
  | none => exact .failAt (by simp) (by simp)

/-! ### Steps that take tokens -/

/-- Whatever comes next, it is taken, unless there is a lexical fault behind it. -/
theorem skip (more : ∀ stream, shows stream → stream.lookahead.isSome = true) :
    W.Keeps shows n (n + 1) Codegen.skip := by
  intro s holds shown
  obtain ⟨token, ahead⟩ := Option.isSome_iff_exists.mp (more s.tokens shown)
  rw [Codegen.run_skip, TokenReader.run_next_eq, ahead]
  cases next : s.tokens.lexer.next with
  | mk result lexer =>
    cases result with
    | ok lookahead => exact .answer (W.take holds ⟨ahead, next, rfl⟩)
    | error fault =>
      refine .failure (W.ofSource (Lexer.cause_of_next next)) ?_ fun _ => W.stop holds ahead next
      rintro ⟨_, same⟩
      cases same

theorem skipExpected {kind : TokenKind} (notInteger : kind ≠ .integer) :
    W.Keeps shows n (n + 1) (discard (Codegen.read (TokenReader.expect kind))) := by
  have possible : kind.description ≠ "more tokens" ∧ kind.description ≠ "integer constant" := by
    cases kind with
    | keyword | symbol => exact quoted_ne
    | integer => exact absurd rfl notInteger
    | string | identifier => decide
  rw [Codegen.discard_expect_eq]
  refine .look fun expected => ?_
  split
  · rename_i found
    subst found
    exact .skip fun _ => TokenStream.isSome_lookahead_of_kind?
  · exact .failExpecting possible

theorem skipSymbol (c : Char) : W.Keeps shows n n (Codegen.skipSymbol c) :=
  .weaken (.skipExpected (by simp))

/-- A keyword that is taken restores the reserve. -/
theorem skipKeyword (word : Keyword) : W.Keeps shows n (n + 1) (Codegen.skipKeyword word) :=
  .skipExpected (by simp)

theorem accept (kind : TokenKind) : W.Keeps shows n n (Codegen.read (TokenReader.accept kind)) := by
  rw [Codegen.accept_eq]
  refine .look fun expected => ?_
  split
  · rename_i found
    subst found
    exact .bind (.weaken (.skip fun _ => TokenStream.isSome_lookahead_of_kind?)) fun _ =>
      .pure true
  · exact .pure false

theorem acceptSymbol (c : Char) : W.Keeps shows n n (Codegen.acceptSymbol c) :=
  .accept (.symbol c)

theorem acceptKeyword (word : Keyword) : W.Keeps shows n n (Codegen.acceptKeyword word) :=
  .accept (.keyword word)

theorem takeName : W.Keeps shows n n Codegen.takeName := by
  rw [Codegen.takeName_eq]
  refine .look fun name => .look fun expected => ?_
  split
  · rename_i found
    subst found
    exact .bind (.weaken (.skip fun _ => TokenStream.isSome_lookahead_of_kind?)) fun _ =>
      .pure name
  · exact .failExpecting (by decide)

end Keeps

end Watch

end JackCompiler
