import JackCompiler.Proofs.Codegen.ClassFollowing
import JackCompiler.Proofs.Compilation.FirstViolation
import JackCompiler.Proofs.Compilation.Lookahead
import JackCompiler.Proofs.Grammar.Viability
import JackCompiler.Proofs.Token.Continuation

/-!
# The first wrong token is reported

A compiler that takes one token after the other cannot find a wrong token before it is the
look-ahead. It does not find it later either: when a token is reported that was not expected, then
the tokens in front of it are the beginning of a class, and together with that token they are the
beginning of none.

The first half is read off the run, in which every production follows the grammar. For the second
half, assume that a class begins with all these tokens. Then the source could be cut behind the
token and go on to the end of that class. The compiler would not notice the difference and report
the token all the same; but in a class the only token that is reported as not expected is a string
constant that is too long.

## Main definitions

* `takenAtEnd` — how many tokens a compilation takes
* `FirstMismatch` — what is known of a source whose first wrong token is reported

## Main results

* `compileClass_firstMismatch` — the token that was not expected is the first wrong one
-/

namespace JackCompiler

open Grammar Codegen

/-- The number of tokens that the compilation of a source takes. They are those in front of the
look-ahead where it ends. -/
def takenAtEnd (file source : String) (sink : Sink Instruction) : Nat :=
  match lookaheadAtEnd file source sink with
  | some token => (sourceTokens file source).idxOf token
  | none => (sourceTokens file source).length

/-- Behind the first `k` tokens of a source stands the first token with which no class begins. It is
described in the given way. -/
structure FirstMismatch (file source : String) (k : Nat) (place : Location)
    (encountered : String) : Prop where
  /-- The tokens in front of it are the beginning of a class. -/
  viable : Viable (((sourceTokens file source).take k).map Token.terminal)
  atToken : ∀ token, (sourceTokens file source)[k]? = some token →
    ¬ Viable (((sourceTokens file source).take (k + 1)).map Token.terminal) ∧
      encountered = "'" ++ token.text ++ "'" ∧ place = { file, line := token.line }
  /-- If no token is left, then the tokens are not those of a class. -/
  atEnd : (sourceTokens file source)[k]? = none →
    (∀ c : ClassDeclaration,
        c.terminals ≠ ((sourceTokens file source).take k).map Token.terminal) ∧
      encountered = "end of file" ∧
      place = { file, line := ((sourceTokens file source).getLast?.map Token.line).getD 1 }

variable {file source : String} {sink : Sink Instruction}

/-- A fault that is about the class is found before its code is handed on. -/
theorem run_classBody_of_syntactic {s : Session} {fault : Located SyntacticFault}
    (failed : (classSource.run.run s).1 = .error (.syntactic fault)) :
    classBody.run.run s = (.error (.syntactic fault), (classSource.run.run s).2) := by
  rw [classSource, run_bind] at failed ⊢
  generalize classBody.run.run s = outcome at failed ⊢
  rcases outcome with ⟨fault' | _, middle⟩
  · cases failed
    rfl
  · simp only [run_flush] at failed
    by_cases flushes : middle.output.canFlush
    · rw [if_pos flushes] at failed
      cases failed
    · rw [if_neg flushes] at failed
      cases failed

/-- A compilation that finds fault with a class has read its source up to there. -/
theorem exists_stream_of_syntactic {fault : Located SyntacticFault}
    (failed : (compileClass file source sink).result = .error (.syntactic fault)) :
    ∃ stream s, TokenStream.ofLexer (.ofSource file source) = .ok stream ∧
      classBody.run.run { tokens := stream, output := sink } = (.error (.syntactic fault), s) ∧
      lookaheadAtEnd file source sink = s.tokens.lookahead := by
  cases start : TokenStream.ofLexer (.ofSource file source) with
  | error cause => simp [compileClass, start] at failed
  | ok stream =>
    rw [compileClass_of_start start] at failed
    refine ⟨stream, _, rfl, run_classBody_of_syntactic failed, ?_⟩
    simp only [lookaheadAtEnd, start]

/-- In a source of a class, nothing but a string constant is reported as not expected. -/
theorem Grammar.ClassDeclaration.WrittenAs.expected_eq {c : ClassDeclaration}
    (written : c.WrittenAs file source) (unlimited : sink.room = none) {place : Location}
    {expected encountered : String}
    (failed : (compileClass file source sink).result =
      .error (.syntactic { location := place, cause := .mismatch expected encountered })) :
    expected = "shorter string constant" := by
  obtain ⟨stream, s, start, run, -⟩ := exists_stream_of_syntactic failed
  obtain ⟨stream', start', faces⟩ := written.exists_faces sink unlimited
  obtain rfl : stream = stream' := Except.ok.inj (start.symm.trans start')
  obtain ⟨visible, meets⟩ := classBody_meets c
  have outcome := meets (script file source) _ faces
  cases violations : c.violations with
  | nil =>
    rw [violations] at outcome
    obtain ⟨s', answered, -⟩ := outcome
    cases answered.symm.trans run
  | cons v others =>
    rw [violations] at outcome
    obtain ⟨fault, s', failed', ⟨token, -, rfl⟩, -⟩ := outcome
    have causes := congrArg Prod.fst (failed'.symm.trans run)
    cases breach : v.breach <;> simp_all [Breach.cause]

/-- The tokens in front of the look-ahead are those that have been taken. -/
theorem takenAtEnd_eq {taken rest : List Token} (all : sourceTokens file source = taken ++ rest)
    (ahead : lookaheadAtEnd file source sink = rest.head?) :
    takenAtEnd file source sink = taken.length := by
  rw [takenAtEnd, ahead]
  cases rest with
  | nil => simp [all]
  | cons token rest =>
    have isNew : token ∉ taken := by
      intro mem
      have nodup := nodup_sourceTokens file source
      rw [all] at nodup
      exact List.disjoint_of_nodup_append nodup mem List.mem_cons_self
    simp [all, List.idxOf_append_of_notMem isNew]

section Mismatch

variable {place : Location} {expected encountered : String} {taken rest : List Token}

/-- What has been taken is the beginning of a class, and what is reported is the look-ahead. -/
theorem exists_taken_of_mismatch (failed : (compileClass file source sink).result =
      .error (.syntactic { location := place, cause := .mismatch expected encountered })) :
    ∃ taken rest, sourceTokens file source = taken ++ rest ∧
      lookaheadAtEnd file source sink = rest.head? ∧
      Viable (taken.map Token.terminal) ∧ (rest = [] → sourceFault file source = none) ∧
      place = { file, line := ((rest.head?.or taken.getLast?).map Token.line).getD 1 } ∧
      encountered = (rest.head?.map fun token => "'" ++ token.text ++ "'").getD "end of file" := by
  obtain ⟨stream, s, start, run, ahead⟩ := exists_stream_of_syntactic failed
  obtain ⟨⟨-, terminals, more, ⟨c, complete⟩, reads⟩, shows⟩ := Follows.classBody.begun run
  have gives := Lexer.gives_toEnd (Lexer.consistent_ofSource file source) start
  obtain ⟨taken, rest, all, rfl, gives', sameFile, line⟩ := gives.reads reads
  obtain ⟨firstLine, startFile⟩ := Lexer.start_of_ofLexer start
  rw [startFile, show (Lexer.ofSource file source).file = file from rfl] at sameFile
  rw [firstLine] at line
  have isAhead := gives'.lookahead_eq
  refine ⟨taken, rest, all, ahead.trans isAhead, ⟨c, more, complete.symm⟩, ?_, ?_⟩
  · rintro rfl
    exact gives'.fault_eq_none
  · have reported := shows expected encountered rfl
    rw [TokenStream.mismatch, TokenStream.location, sameFile, line, isAhead] at reported
    cases rest <;> simpa using reported

/-- No class begins with the tokens up to one that was not expected. -/
theorem not_viable_of_mismatch (unlimited : sink.room = none) {token : Token}
    (failed : (compileClass file source sink).result =
      .error (.syntactic { location := place, cause := .mismatch expected encountered }))
    (other : expected ≠ "shorter string constant")
    (ahead : lookaheadAtEnd file source sink = some token)
    (all : sourceTokens file source = taken ++ token :: rest) :
    ¬ Viable (((sourceTokens file source).take (taken.length + 1)).map Token.terminal) := by
  have first (behind : List Token) :
      (taken ++ token :: behind).take (taken.length + 1) = taken ++ [token] := by
    rw [List.append_cons, List.take_left' (by simp)]
  rw [all, first]
  intro viable
  have spellable : ∀ t ∈ (taken ++ [token]).map Token.terminal, t.Spellable := by
    intro t mem
    obtain ⟨shared, isShared, rfl⟩ := List.mem_map.mp mem
    have isToken : shared ∈ sourceTokens file source := by
      rw [all, List.append_cons]
      exact List.mem_append_left rest isShared
    exact spellable_of_mem_toEnd isToken
  obtain ⟨c, isSpellable, more, terminals⟩ := viable.exists_spellable spellable
  rw [← terminals] at isSpellable
  -- Behind the token, the source goes on to the end of this class.
  obtain ⟨source', tokens', all', goesOn, noFault⟩ :=
    exists_continuation all fun t mem => isSpellable t (List.mem_append_right _ mem)
  have written : c.WrittenAs file source' := by
    refine ⟨noFault, ?_⟩
    rw [← terminals, ← goesOn, sourceTerminals, ← sourceTokens, all']
    simp
  -- Both compilations have seen the same when they report the token.
  have same : ((sourceTokens file source).take (taken.length + 1)).map Token.sight =
      ((sourceTokens file source').take (taken.length + 1)).map Token.sight := by
    rw [all, all', first, first]
  have failed' := (same_of_syntactic unlimited same failed ahead (by simp [all, first])).1
  exact other (written.expected_eq unlimited failed')

/-- **A mismatch is reported at the first wrong token.** When a compilation fails because of a token
that was not expected, then the tokens that it has taken are the beginning of a class, and together
with the next one they are not. This next token is the one that is reported, at its line. If no
token is left, then the tokens are not those of a class, and the line is that of the last one. -/
theorem compileClass_firstMismatch (unlimited : sink.room = none)
    (failed : (compileClass file source sink).result =
      .error (.syntactic { location := place, cause := .mismatch expected encountered }))
    (other : expected ≠ "shorter string constant") :
    FirstMismatch file source (takenAtEnd file source sink) place encountered := by
  obtain ⟨taken, rest, all, ahead, viable, noFault, rfl, rfl⟩ := exists_taken_of_mismatch failed
  have front : (sourceTokens file source).take taken.length = taken := by
    rw [all, List.take_left]
  rw [takenAtEnd_eq all ahead]
  cases rest with
  | cons token rest =>
    refine ⟨front.symm ▸ viable, fun next isNext => ?_, fun none => ?_⟩
    · obtain rfl : token = next := by simpa [all] using isNext
      exact ⟨not_viable_of_mismatch unlimited failed other ahead all, rfl, rfl⟩
    · simp [all] at none
  | nil =>
    rw [List.append_nil] at all
    refine ⟨front.symm ▸ viable, fun next isNext => ?_, fun _ => ⟨fun c terminals => ?_, rfl, ?_⟩⟩
    · simp [all] at isNext
    · rw [front, ← all] at terminals
      have written : c.WrittenAs file source := ⟨noFault rfl, terminals.symm⟩
      exact other (written.expected_eq unlimited failed)
    · simp [all]

end Mismatch

/-- A class with a field that has no name. -/
def nameless : String :=
  "class A \x7b\n  field int ;\n\x7d"

theorem compileClass_firstMismatch_nameless :
    (compileClass "A.jack" nameless {}).result = .error (.syntactic {
        location := { file := "A.jack", line := 2 }
        cause := .mismatch "identifier" "';'" }) ∧
      "identifier" ≠ "shorter string constant" ∧ takenAtEnd "A.jack" nameless {} = 5 ∧
      FirstMismatch "A.jack" nameless (takenAtEnd "A.jack" nameless {})
        { file := "A.jack", line := 2 } "';'" := by
  have failed : (compileClass "A.jack" nameless {}).result = .error (.syntactic {
      location := { file := "A.jack", line := 2 }, cause := .mismatch "identifier" "';'" }) := by
    decide +kernel
  have other : "identifier" ≠ "shorter string constant" := by decide
  exact ⟨failed, other, by decide +kernel, compileClass_firstMismatch rfl failed other⟩

end JackCompiler
