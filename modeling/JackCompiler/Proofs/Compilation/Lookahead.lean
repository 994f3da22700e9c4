import JackCompiler.Proofs.Codegen.ClassLockstep
import JackCompiler.Proofs.Compilation.Reference

/-!
# One token of look-ahead

A compilation knows of its source no more than the tokens that it has taken and the look-ahead. Two
sources that begin with the same tokens are compiled alike until the last of these tokens is taken.
What follows in either source shows only then.

## Main definitions

* `Token.sight` — a token and its line, but not its place in the text
* `lookaheadAtEnd` — the look-ahead where a compilation ends

## Main results

* `compileClass_lookahead` — what can be said of a compilation by the first tokens of its source
-/

namespace JackCompiler

open Codegen

/-- What a token says and the line that it stands on. -/
def Token.sight (token : Token) : TokenKind × String × Nat :=
  (token.kind, token.text, token.line)

/-- The look-ahead where the compilation of a source ends. -/
def lookaheadAtEnd (file source : String) (sink : Sink Instruction) : Option Token :=
  match TokenStream.ofLexer (.ofSource file source) with
  | .ok tokens => (classSource.run.run { tokens, output := sink }).2.tokens.lookahead
  | .error _ => none

/-! ### Runs over the same first tokens -/

/-- Streams that give the same tokens for a while, at least one of them, and then go on in the given
ways. They have parted when the last of the common tokens is taken. If the second source has a
lexical fault there, then that run ends with it. -/
def sameStart (sink : Sink Instruction) (rest rest' : List Token)
    (fault fault' : Option (Located LexicalFault)) : Pairing where
  streams a b := ∃ shared shared', shared ≠ [] ∧ a.Gives (shared ++ rest) fault ∧
    b.Gives (shared' ++ rest') fault' ∧ shared.map Token.sight = shared'.map Token.sight ∧
    a.lastLine = b.lastLine ∧ a.lexer.file = b.lexer.file
  sinks o o' := o = o' ∧ ∃ code, o = sink.extend Instruction.text code
  places := Eq
  parted _ s g t := (∃ more fault, more <:+ rest ∧ s.tokens.Gives more fault) ∧
    ∀ cause, rest' = [] → fault' = some cause → g = some (.lexical cause) ∧ ∃ written more,
      t.output = sink.extend Instruction.text written ∧
      s.output = sink.extend Instruction.text (written ++ more)

section Laws

variable {sink : Sink Instruction} {rest rest' : List Token}
  {fault fault' : Option (Located LexicalFault)} {s t : Session}

theorem upcoming_of_sameStart {a b : TokenStream}
    (streams : (sameStart sink rest rest' fault fault').streams a b) :
    a.upcoming = b.upcoming ∧ a.location = b.location := by
  obtain ⟨shared, shared', nonempty, gives, gives', same, lines, files⟩ := streams
  match shared, shared', same with
  | [], [], _ => exact absurd rfl nonempty
  | token :: shared, token' :: shared', same =>
    have ahead : a.lookahead = some token := gives.lookahead_eq
    have ahead' : b.lookahead = some token' := gives'.lookahead_eq
    obtain ⟨kind, text, line⟩ : token.kind = token'.kind ∧ token.text = token'.text ∧
        token.line = token'.line := by
      simpa [Token.sight] using (List.cons.inj same).1
    constructor
    · rw [TokenStream.upcoming, TokenStream.upcoming, ahead, ahead', Option.map_some,
        Option.map_some, Token.wording, Token.wording, kind, text]
    · simp [TokenStream.location, ahead, ahead', line, files]

/-- The runs part when the last common token is taken. -/
theorem skip_sameStart (sessions : (sameStart sink rest rest' fault fault').Sessions s t) :
    (sameStart sink rest rest' fault fault').Outcome (skip.run.run s) (skip.run.run t) := by
  obtain ⟨shared, shared', nonempty, gives, gives', same, lines, files⟩ := sessions.streams
  match shared, shared', same with
  | [], [], _ => exact absurd rfl nonempty
  | token :: shared, token' :: shared', same =>
    obtain ⟨sight, same⟩ := List.cons.inj same
    by_cases last : shared = []
    · subst last
      obtain rfl : shared' = [] := by simpa using same.symm
      refine .of_parted ⟨gives_run_skip gives, fun cause none faulty => ?_⟩
      subst none faulty
      obtain ⟨outputs, code, written⟩ := sessions.outputs
      refine ⟨by rw [run_skip_of_faulty gives']; rfl, code, [], ?_, ?_⟩
      · rw [output_run_skip, ← outputs, written]
      · rw [output_run_skip, written, List.append_nil]
    · have last' : shared' ≠ [] := by
        rintro rfl
        exact last (by simpa using same)
      obtain ⟨behind, run, more⟩ | ⟨_, _, -, none, -⟩ := gives.run_next
      · obtain ⟨behind', run', more'⟩ | ⟨_, _, -, none, -⟩ := gives'.run_next
        · have takes := TokenReader.run_next.mp run
          have takes' := TokenReader.run_next.mp run'
          refine sessions.skip_taken takes takes' ⟨_, _, last, more, more', same, ?_, ?_⟩
          · rw [takes.lastLine, takes'.lastLine]
            exact congrArg (fun sight => sight.2.2) sight
          · rw [takes.file_eq, takes'.file_eq, files]
        · exact absurd (List.append_eq_nil_iff.mp none).1 last'
      · exact absurd (List.append_eq_nil_iff.mp none).1 last

theorem emit_sameStart (unlimited : sink.room = none) (instruction : Instruction)
    (sessions : (sameStart sink rest rest' fault fault').Sessions s t) :
    (sameStart sink rest rest' fault fault').Outcome ((emit instruction).run.run s)
      ((emit instruction).run.run t) := by
  obtain ⟨outputs, code, written⟩ := sessions.outputs
  have room : s.output.room = none := by simp [written, Sink.extend, unlimited]
  rw [run_emit, run_emit, ← outputs, Sink.write_of_unlimited _ _ room]
  refine .answer { sessions with outputs := ⟨rfl, code ++ [instruction], ?_⟩ }
  rw [Sink.extend_append, written]

theorem flush_sameStart (sessions : (sameStart sink rest rest' fault fault').Sessions s t) :
    (sameStart sink rest rest' fault fault').Outcome (flush.run.run s) (flush.run.run t) := by
  rw [run_flush, run_flush, sessions.outputs.1]
  split
  · exact .answer sessions
  · exact .failure (.same _) sessions.toReports

/-- Runs over the same first tokens stay in lockstep until the last of these is taken. -/
def lookaheadLockstep (unlimited : sink.room = none) (rest rest' : List Token)
    (fault fault' : Option (Located LexicalFault)) : Lockstep where
  toPairing := sameStart sink rest rest' fault fault'
  upcoming streams := (upcoming_of_sameStart streams).1
  location streams := (upcoming_of_sameStart streams).2
  refl _ := rfl
  skip := skip_sameStart
  emit := emit_sameStart unlimited
  onward := by
    rintro f f' g g' s s' t t' ⟨⟨more, last, suffix, gives⟩, stopped⟩ on on'
    refine ⟨?_, fun cause none faulty => ?_⟩
    · cases on with
      | still => exact ⟨more, last, suffix, gives⟩
      | moves _ precedes =>
        obtain ⟨more', last', suffix', gives'⟩ := precedes.tokens gives
        exact ⟨more', last', suffix'.trans suffix, gives'⟩
    · obtain ⟨rfl, written, more, output, output'⟩ := stopped cause none faulty
      -- The second run has failed and stands still, the first may still write.
      cases on'
      cases on with
      | still => exact ⟨rfl, written, more, output, output'⟩
      | moves _ precedes =>
        obtain ⟨code, extended⟩ := precedes.output (by simp [output', Sink.extend, unlimited])
        refine ⟨rfl, written, more ++ code, output, ?_⟩
        rw [extended, output', ← Sink.extend_append, List.append_assoc]

end Laws

/-! ### Compilations of sources with the same first tokens -/

/-- A text of whole lines. -/
def WholeLines (text : String) : Prop :=
  text = "" ∨ ∃ lines, text = lines ++ "\n"

theorem wholeLines_lines {α : Type} {render : α → String} (items : List α) :
    WholeLines (Sink.lines render items) := by
  rcases List.eq_nil_or_concat items with rfl | ⟨front, last, rfl⟩
  · exact .inl rfl
  · refine .inr ⟨Sink.lines render front ++ render last, ?_⟩
    rw [List.concat_eq_append, Sink.lines_append, String.append_assoc]
    simp [Sink.line]

variable {file source source' : String} {sink : Sink Instruction} {k : Nat}

/-- A source with a first token is read by a stream that gives its tokens. -/
theorem exists_gives_of_ne_nil (nonempty : (sourceTokens file source).take k ≠ []) : ∃ stream,
    TokenStream.ofLexer (.ofSource file source) = .ok stream ∧ stream.Consistent ∧
      stream.Gives (sourceTokens file source) (sourceFault file source) := by
  obtain starts | ⟨cause, -, none, -⟩ := gives_or_faulty file source
  · exact starts
  · exact absurd (by simp [none]) nonempty

/-- Runs over sources that have at least one first token in common. -/
theorem exists_outcome (unlimited : sink.room = none)
    (nonempty : (sourceTokens file source).take k ≠ [])
    (same : ((sourceTokens file source).take k).map Token.sight =
      ((sourceTokens file source').take k).map Token.sight) :
    ∃ a b, TokenStream.ofLexer (.ofSource file source) = .ok a ∧
      TokenStream.ofLexer (.ofSource file source') = .ok b ∧
      (sameStart sink ((sourceTokens file source).drop k) ((sourceTokens file source').drop k)
        (sourceFault file source) (sourceFault file source')).Outcome
          (classSource.run.run { tokens := a, output := sink })
          (classSource.run.run { tokens := b, output := sink }) := by
  have nonempty' : (sourceTokens file source').take k ≠ [] := by
    intro none
    rw [none] at same
    exact nonempty (by simpa using same)
  obtain ⟨a, start, consistent, gives⟩ := exists_gives_of_ne_nil nonempty
  obtain ⟨b, start', consistent', gives'⟩ := exists_gives_of_ne_nil nonempty'
  refine ⟨a, b, start, start', ?_⟩
  rw [← List.take_append_drop k (sourceTokens file source)] at gives
  rw [← List.take_append_drop k (sourceTokens file source')] at gives'
  obtain ⟨line, name⟩ := Lexer.start_of_ofLexer start
  obtain ⟨line', name'⟩ := Lexer.start_of_ofLexer start'
  exact (Lockstep.Keeps.classSource (L := lookaheadLockstep unlimited _ _ _ _)
    flush_sameStart).together {
    outputs := ⟨rfl, [], by simp⟩
    events := .nil
    left := consistent
    right := consistent'
    visible := rfl
    nextLabel := rfl
    streams := ⟨_, _, nonempty, gives, gives', same, by rw [line, line'],
      by rw [name, name']; rfl⟩ }

/-- A rule that is found to be broken while the look-ahead is a common token is broken by both
sources. -/
theorem same_of_syntactic (unlimited : sink.room = none)
    (same : ((sourceTokens file source).take k).map Token.sight =
      ((sourceTokens file source').take k).map Token.sight)
    {fault : Located SyntacticFault} {token : Token}
    (failed : (compileClass file source sink).result = .error (.syntactic fault))
    (ahead : lookaheadAtEnd file source sink = some token)
    (isShared : token ∈ (sourceTokens file source).take k) :
    (compileClass file source' sink).result = .error (.syntactic fault) ∧
      (compileClass file source' sink).output = (compileClass file source sink).output := by
  obtain ⟨a, b, start, start', outcome⟩ :=
    exists_outcome unlimited (List.ne_nil_of_mem isShared) same
  simp only [lookaheadAtEnd, start] at ahead
  rw [compileClass_of_start start] at failed ⊢
  rw [compileClass_of_start start']
  generalize classSource.run.run { tokens := a, output := sink } = run at outcome failed ahead ⊢
  generalize classSource.run.run { tokens := b, output := sink } = run' at outcome ⊢
  cases outcome with
  | answer sessions => cases failed
  | failure alike reports =>
    refine ⟨?_, reports.outputs.1.symm⟩
    cases alike with
    | same => exact failed
    | syntactic related cause =>
      obtain rfl := related
      exact failed
  | parted parted =>
    -- The first run has taken all common tokens, so the look-ahead is none of them.
    obtain ⟨⟨more, last, suffix, gives⟩, -⟩ := parted
    have isMore : token ∈ more := List.mem_of_mem_head? (gives.lookahead_eq ▸ ahead)
    exact absurd (suffix.mem isMore)
      (List.disjoint_take_drop (nodup_sourceTokens file source) (Nat.le_refl k) isShared)

/-- A class that has been compiled is followed by no token. -/
theorem lookahead_of_runs {a : TokenStream} {s : Session}
    (run : Runs classSource { tokens := a, output := sink } () s) : s.tokens.lookahead = none := by
  obtain ⟨_, s₁, body, flushed⟩ := runs_bind.mp run
  obtain ⟨-, rfl⟩ := runs_flush.mp flushed
  obtain ⟨c, -, -, atEnd, -⟩ := classBody_derives rfl rfl body
  exact TokenStream.next?_eq_none.mp atEnd

/-- A lexical fault behind the common tokens is met, unless the class breaks a rule before. -/
theorem lexical_of_faulty (unlimited : sink.room = none)
    (same : ((sourceTokens file source).take k).map Token.sight =
      ((sourceTokens file source').take k).map Token.sight)
    {fault : Located LexicalFault} (done : (compileClass file source sink).result = .ok ())
    (count : (sourceTokens file source').length = k)
    (faulty : sourceFault file source' = some fault) :
    (compileClass file source' sink).result = .error (.lexical fault) ∧ ∃ written more,
      (compileClass file source' sink).output = sink.extend Instruction.text written ∧
      (compileClass file source sink).output = sink.extend Instruction.text (written ++ more) := by
  have nothing : (sourceTokens file source').drop k = [] :=
    List.drop_eq_nil_of_le (Nat.le_of_eq count)
  by_cases none : (sourceTokens file source).take k = []
  · -- The fault stands in front of the first token, so that nothing has been written.
    rw [none, List.map_nil, eq_comm, List.map_eq_nil_iff, ← count, List.take_length] at same
    obtain ⟨stream, start, -, gives⟩ | ⟨cause, start, -, faulty'⟩ := gives_or_faulty file source'
    · rw [same, faulty] at gives
      cases gives.fault_eq_none
    · rw [faulty] at faulty'
      cases faulty'
      obtain ⟨-, c, -, -, output⟩ := exists_tree_of_compiles done
      refine ⟨?_, [], c.code, ?_, output⟩
      · rw [compileClass, start]
      · rw [compileClass, start, Sink.extend_nil]
  · obtain ⟨a, b, start, start', outcome⟩ := exists_outcome unlimited none same
    rw [compileClass_of_start start] at done ⊢
    rw [compileClass_of_start start']
    generalize first : classSource.run.run { tokens := a, output := sink } = run at outcome done ⊢
    generalize classSource.run.run { tokens := b, output := sink } = run' at outcome ⊢
    cases outcome with
    | answer sessions =>
      -- The first run would have to be in front of a common token.
      obtain ⟨shared, shared', nonempty, gives, -⟩ := sessions.streams
      have ahead := gives.lookahead_eq
      rw [lookahead_of_runs first] at ahead
      cases shared with
      | nil => exact absurd rfl nonempty
      | cons => cases ahead
    | failure => cases done
    | @parted x y s t parted =>
      obtain ⟨-, stopped⟩ := parted
      obtain ⟨failed, written, more, output', output⟩ := stopped fault nothing faulty
      refine ⟨?_, written, more, output', output⟩
      cases y with
      | ok => cases failed
      | error => exact congrArg Except.error (Option.some.inj failed)

/-- **What stands behind the look-ahead does not matter.** Let two sources begin with the same
tokens. If one of them breaks a rule, and the look-ahead is one of these tokens when that is found,
then the other one breaks the same rule, and until then the same code is written. If one of them
compiles, and a lexical fault follows in the other one, then that one fails with this fault and has
written some whole lines of the code of the first. -/
theorem compileClass_lookahead (unlimited : sink.room = none)
    (same : ((sourceTokens file source).take k).map Token.sight =
      ((sourceTokens file source').take k).map Token.sight) :
    (∀ fault, (compileClass file source sink).result = .error (.syntactic fault) →
      ∀ token ∈ lookaheadAtEnd file source sink, token ∈ (sourceTokens file source).take k →
        (compileClass file source' sink).result = .error (.syntactic fault) ∧
          (compileClass file source' sink).output = (compileClass file source sink).output) ∧
    ∀ fault, (compileClass file source sink).result = .ok () →
      (sourceTokens file source').length = k → sourceFault file source' = some fault →
        (compileClass file source' sink).result = .error (.lexical fault) ∧
        ∃ written more : List Instruction,
          (compileClass file source' sink).output = sink.extend Instruction.text written ∧
          (compileClass file source sink).output =
            sink.extend Instruction.text (written ++ more) ∧
          (compileClass file source' sink).output.text Instruction.text =
            sink.text Instruction.text ++ Grammar.codeText written ∧
          (compileClass file source sink).output.text Instruction.text =
            sink.text Instruction.text ++ (Grammar.codeText written ++ Grammar.codeText more) ∧
          WholeLines (Grammar.codeText written) := by
  refine ⟨fun fault failed token ahead isShared => ?_, fun fault done count faulty => ?_⟩
  · exact same_of_syntactic unlimited same failed ahead isShared
  · obtain ⟨failed, written, more, output', output⟩ :=
      lexical_of_faulty unlimited same done count faulty
    refine ⟨failed, written, more, output', output, ?_, ?_, wholeLines_lines written⟩
    · rw [output', text_extend]
    · rw [output, text_extend, codeText_eq_lines, Sink.lines_append]
      rfl

/-- A class that uses a name that nothing declares. -/
def undeclared : String :=
  "class A \x7b function void f() \x7b let x = 1; \x7d \x7d"

/-- The same up to the equals sign, and then a string that is not closed. -/
def undeclaredCut : String :=
  "class A \x7b function void f() \x7b let x = \"1; \x7d \x7d"

/-- A class that compiles. -/
def plain : String :=
  "class A \x7b function void f() \x7b return; \x7d \x7d"

/-- The same up to the last brace but one, and then a comment that is not closed. -/
def plainCut : String :=
  "class A \x7b function void f() \x7b return; \x7d /* \x7d"

theorem compileClass_lookahead_cut :
    (compileClass "A.jack" undeclaredCut {}).result = .error (.syntactic {
      location := { file := "A.jack", line := 1 }, cause := .undefinedVariable "x" }) ∧
    (compileClass "A.jack" undeclaredCut {}).output =
      (compileClass "A.jack" undeclared {}).output ∧
    (compileClass "A.jack" plainCut {}).result = .error (.lexical {
      location := { file := "A.jack", line := 1 }, cause := .unterminatedComment }) ∧
    ∃ written more : List Instruction,
      (compileClass "A.jack" plainCut {}).output = Sink.extend Instruction.text {} written ∧
      (compileClass "A.jack" plain {}).output =
        Sink.extend Instruction.text {} (written ++ more) := by
  have failed : (compileClass "A.jack" undeclared {}).result = .error (.syntactic {
      location := { file := "A.jack", line := 1 }, cause := .undefinedVariable "x" }) := by
    decide +kernel
  have ahead : lookaheadAtEnd "A.jack" undeclared {} =
      some { kind := .symbol '=', text := "=", line := 1, index := 36 } := by decide +kernel
  have same : ((sourceTokens "A.jack" undeclared).take 12).map Token.sight =
      ((sourceTokens "A.jack" undeclaredCut).take 12).map Token.sight := by decide +kernel
  have broken := (compileClass_lookahead rfl same).1 _ failed _ ahead (by decide +kernel)
  have done : (compileClass "A.jack" plain {}).result = .ok () := by decide +kernel
  have faulty : sourceFault "A.jack" plainCut = some {
      location := { file := "A.jack", line := 1 }, cause := .unterminatedComment } := by
    decide +kernel
  have same' : ((sourceTokens "A.jack" plain).take 12).map Token.sight =
      ((sourceTokens "A.jack" plainCut).take 12).map Token.sight := by decide +kernel
  obtain ⟨stopped, written, more, output, output', -⟩ :=
    (compileClass_lookahead rfl same').2 _ done (by decide +kernel) faulty
  exact ⟨broken.1, broken.2, stopped, written, more, output, output'⟩

end JackCompiler
