import JackCompiler.Proofs.Compilation.Counting
import JackCompiler.Proofs.Compilation.FirstViolation
import JackCompiler.Proofs.Compilation.PhraseRuns
import JackCompiler.Proofs.Compilation.Truncation

/-!
# Nesting is limited

Terms and blocks may be nested so many levels deep and no deeper. A pass that counts the levels that
are open has room for a phrase if these and the levels of the phrase are not too many together, and
then it has closed all of them again behind the phrase. Levels do not add up from one phrase to the
next, and no recursion goes on without opening one.

## Main definitions

* `nestingLimits` — a pass is in its range as long as not too many levels are open
* `Session.Derives.Limited` — what comes of a phrase at a number of open levels

## Main results

* `Session.Derives.limited` — one phrase, in any session
* `Grammar.ClassDeclaration.WrittenAs.not_isNesting` — classes whose subroutines are not too deep
* `nesting_exact` — phrases, whole sources and sequences
-/

namespace JackCompiler

open Grammar Codegen

/-- The range of a pass that only counts levels. -/
def nestingLimits (rounds : Nat) : Limits where
  inRange tally := tally.depth ≤ maxNesting
  rounds

/-- Nothing is watched of a session but that the rounds suffice for its tokens. -/
def nestingWatch (rounds : Nat) : Watch (nestingLimits rounds) where
  holds _ s := s.tokens.Consistent ∧ s.tokens.tokensLeft < rounds
  faults _ := True
  ofSource _ := trivial
  consistent h := h.1
  rounds h := h.2
  inRange _ shallow := decide_eq_true shallow
  weaken h := h
  label h := h
  take {_ _ _ _} h takes := by
    obtain ⟨consistent, fewer⟩ := h.1.takes takes
    exact ⟨consistent, Nat.lt_trans fewer h.2⟩
  stop _ _ _ shallow := decide_eq_true shallow
  startSubroutine h := h
  declare h _ := h
  report h := h
  write h _ := h
  tear _ _ := ⟨trivial, fun shallow => decide_eq_true shallow⟩
  flush _ := .inr trivial

/-- The fault that a level too many is opened in front of one of some tokens. -/
def Session.nestingFault (s : Session) (tokens : List Token) (place : Nat) : Fault :=
  .syntactic {
    location := { file := s.tokens.lexer.file, line := s.lineAt tokens place }
    cause := .nestingTooDeep }

variable {s : Session} {subroutine : Subroutine} {p : Phrase} {ahead behind : List Token}
  {fault : Option (Located LexicalFault)} {d levels rounds : Nat}

/-! ### Phrases -/

/-- What comes of the tokens of a phrase where some levels are open, in the compiler and in a pass
that counts. -/
structure Grammar.Phrase.Limited (p : Phrase) (s : Session) (subroutine : Subroutine)
    (ahead behind : List Token) (fault : Option (Located LexicalFault)) (d levels rounds : Nat) :
    Prop where
  /-- As many levels are open behind the phrase as in front of it. -/
  fits : d + p.height ≤ maxNesting → (behind = [] → fault = none) →
    ∃ s', s'.tokens.InPlace ∧ s'.tokens.Gives behind fault ∧
      (p.step subroutine (maxNesting - d)).run.run s = (.ok (), s') ∧
      (p.counted subroutine levels : Counted (nestingLimits rounds) Unit).run
        { session := s, depth := d } = (.ok (), { session := s', depth := d })
  /-- A lexical fault right behind the phrase is reported when the last of its tokens is taken. -/
  unseen : d + p.height ≤ maxNesting → behind = [] → ∀ cause, fault = some cause →
    ∃ s' depth, depth ≤ maxNesting ∧
      (p.step subroutine (maxNesting - d)).run.run s = (.error (.lexical cause), s') ∧
      (p.counted subroutine levels : Counted (nestingLimits rounds) Unit).run
        { session := s, depth := d } =
          (.error (.fault (.lexical cause)), { session := s', depth })
  /-- The place is that of the first term or block that would be a level too many. What comes behind
  the phrase does not matter. -/
  tooDeep : maxNesting < d + p.height → ∃ place others s',
    p.placesAt (maxNesting - d) = place :: others ∧
    (p.step subroutine (maxNesting - d)).run.run s =
      (.error (s.nestingFault (ahead ++ behind) place), s') ∧
    (p.counted subroutine levels : Counted (nestingLimits rounds) Unit).run
      { session := s, depth := d } =
        (.error (.fault (s.nestingFault (ahead ++ behind) place)),
          { session := s', depth := maxNesting + 1 })

/-- A phrase at any number of open levels. -/
theorem Session.Derives.limited (h : s.Derives subroutine p ahead behind fault)
    (shallow : d ≤ maxNesting) (enough : maxNesting < levels + d)
    (few : s.tokens.tokensLeft < rounds) :
    p.Limited s subroutine ahead behind fault d levels rounds := by
  have sum : d + 1 + (maxNesting - d) = maxNesting + 1 := by omega
  have mirrored : (nestingWatch rounds).Mirrors d Watch.anything 1 1 (p.counted subroutine levels)
      (p.step subroutine (maxNesting - d)) :=
    p.mirrors (lookaheadLockstep h.unlimited [] [] none none) enough
  have outcome := mirrored shallow s ⟨h.inPlace.consistent, few⟩ trivial
  generalize counted : (p.counted subroutine levels).run { session := s, depth := d } = run'
    at outcome
  -- In each case it is known what the code generator does, and the pass that counts does the same.
  constructor
  case fits =>
    intro fits readable
    obtain ⟨s', run, gives⟩ := h.succeeds sum (by omega) readable
    rw [show (p.step subroutine (maxNesting - d)).run.run s = (.ok (), s') from run] at outcome
    cases outcome with
    | answer holds =>
      obtain ⟨_, -, reads⟩ := p.follows.whole run
      exact ⟨s', h.inPlace.reads reads, gives, run, counted⟩
  case unseen =>
    rintro fits rfl cause rfl
    obtain ⟨s', run⟩ := h.fails_unseen sum (by omega)
    rw [run] at outcome
    cases outcome with
    | failure possible other within => exact ⟨s', _, within, run, counted⟩
    | nesting isNesting =>
      obtain ⟨place, lexical⟩ := isNesting
      cases lexical
  case tooDeep =>
    intro deep
    obtain ⟨place, others, s', places, run⟩ := h.fails sum (by omega)
    rw [run] at outcome
    refine ⟨place, others, s', places, run, ?_⟩
    cases outcome with
    | failure possible other within => exact absurd ⟨_, rfl⟩ other
    | nesting isNesting => exact counted

/-! ### Whole sources -/

/-- A source of few bytes is compiled in few rounds. -/
theorem tokensLeft_of_start {file source : String} {tokens : TokenStream}
    (start : TokenStream.ofLexer (.ofSource file source) = .ok tokens) :
    tokens.tokensLeft ≤ source.utf8ByteSize := by
  obtain ⟨-, fewer, -⟩ :=
    (Lexer.consistent_ofSource file source).next (Lexer.next_of_ofLexer start)
  have all : (Lexer.ofSource file source).bytesLeft = source.utf8ByteSize := rfl
  rw [TokenStream.tokensLeft]
  cases ahead : tokens.lookahead with
  | none =>
    rw [ahead] at fewer
    exact Nat.le_trans fewer (Nat.le_of_eq all)
  | some token =>
    rw [ahead] at fewer
    exact Nat.le_trans fewer (Nat.le_of_eq all)

/-- Never are more levels open than there may be, whatever the source and the sink are, and the
compilation comes to an end. -/
theorem compileCounted_agrees_of_limits (file : String) {source : String}
    (sink : Sink Instruction) (enough : maxNesting < levels) (few : source.utf8ByteSize < rounds) :
    (compileCounted (nestingLimits rounds) levels file source sink).Agrees
      (compileClass file source sink) := by
  have start (tokens : TokenStream)
      (begins : TokenStream.ofLexer (.ofSource file source) = .ok tokens) :
      (nestingWatch rounds).holds 1 { tokens, output := sink } :=
    ⟨Lexer.consistent_ofLexer (Lexer.consistent_ofSource file source) begins,
      Nat.lt_of_le_of_lt (tokensLeft_of_start begins) few⟩
  exact (compileCounted_agrees enough start).1

/-- A violation of another sort is reported in other words. -/
theorem Grammar.Breach.cause_ne {breach : Breach} (other : breach ≠ .nestingTooDeep)
    (token : Token) : breach.cause token ≠ .nestingTooDeep := by
  cases breach with
  | nestingTooDeep => exact absurd rfl other
  | undeclared | tooMany | longString => simp [Breach.cause]

/-- What is wrong with a class is not the fault of the sink. -/
theorem Sink.eq_of_deliver {α : Type} {render : α → String} {items : List α}
    {result : Except Fault Unit} {sink : Sink α} {located : Located SyntacticFault}
    (ended : (sink.deliver render items result).1 = .error (.syntactic located)) :
    result = .error (.syntactic located) := by
  cases written : sink.writeAll render items with
  | mk outcome sink' =>
    cases outcome with
    | error fault =>
      rw [deliver_of_failed written] at ended
      cases ended
    | ok =>
      rw [deliver_of_written written] at ended
      cases result with
      | error fault => exact ended
      | ok =>
        dsimp only at ended
        generalize sink'.flush = flushed at ended
        cases flushed <;> cases ended

/-- What is wrong with a class is wrong whatever its code is written to. -/
theorem compileText_of_syntactic {file source : String} {sink : Sink Instruction}
    {located : Located SyntacticFault}
    (failed : (compileClass file source sink).result = .error (.syntactic located)) :
    (compileText file source).1 = .error (.syntactic located) := by
  obtain ⟨code, result, delivers⟩ := exists_deliver_compileClass file source
  have known : result = .error (.syntactic located) :=
    Sink.eq_of_deliver ((congrArg Prod.fst (delivers sink)).symm.trans failed)
  have unlimited : ({} : Sink Instruction).room = none := rfl
  have ended : (compileClass file source {}).result = .error (.syntactic located) := by
    have delivered := congrArg Prod.fst (delivers {})
    rw [Sink.deliver_of_written (Sink.writeAll_of_unlimited code unlimited), known] at delivered
    exact delivered
  rw [compileText, ended]
  rfl

/-- The number of subroutines does not matter: in a class whose subroutines are not nested too deep,
nothing is, whatever else is wrong with it. -/
theorem Grammar.ClassDeclaration.WrittenAs.not_isNesting {c : ClassDeclaration}
    {file source : String} {sink : Sink Instruction} {fault : Fault}
    (written : c.WrittenAs file source)
    (fits : ∀ r ∈ c.subroutines, Statement.blockDepth r.body ≤ maxNesting)
    (failed : (compileClass file source sink).result = .error fault) : ¬ fault.IsNesting := by
  rintro ⟨place, rfl⟩
  have found := compileText_of_syntactic failed
  cases violations : c.violations with
  | nil =>
    have lawful := ClassDeclaration.violations_eq_nil_iff.mp violations
    have done : (compileClass file source {}).result = .ok () :=
      written.compileClass_of_lawful lawful rfl rfl
    rw [compileText, done] at found
    cases found
  | cons v others =>
    obtain ⟨_, failed', token, -, rfl⟩ := written.exists_fault_of_violations violations
    -- The first violation is reported, and it is not about nesting.
    have other : v.breach ≠ .nestingTooDeep :=
      c.shallow fits v (by rw [violations]; exact List.mem_cons_self)
    have same : v.breach.cause token = .nestingTooDeep := by
      rw [failed'] at found
      simpa using (congrArg Located.cause (Fault.syntactic.inj (Except.error.inj found)))
    exact Breach.cause_ne other token same

/-- **Nesting is limited exactly and released completely.** A phrase ahead of a session is compiled
if the levels that are open and those of the phrase are not too many together, and then as many
levels are open as before. In that case a lexical fault right behind the phrase is reported. With
too many levels, the first term or block that is one too many is reported, at the line of the
look-ahead in front of it, whatever comes behind the phrase. Whatever a source is and whatever it is
written to, at no time are more levels open than there may be, and no more steps for terms and
blocks are inside one another than there may be levels, so that the compilation comes to an end. The
levels of a sequence of statements, of arguments or of operands are those of the deepest of them,
and the levels of a class are those of its deepest subroutine. -/
theorem nesting_exact :
    (∀ {s : Session} {subroutine : Subroutine} {p : Phrase} {ahead behind : List Token}
        {fault : Option (Located LexicalFault)} {d levels rounds : Nat},
      s.Derives subroutine p ahead behind fault → d ≤ maxNesting → maxNesting < levels + d →
        s.tokens.tokensLeft < rounds →
        p.Limited s subroutine ahead behind fault d levels rounds) ∧
    (∀ {file source : String} {sink : Sink Instruction} {levels rounds : Nat},
      maxNesting < levels → source.utf8ByteSize < rounds →
        (compileCounted (nestingLimits rounds) levels file source sink).Agrees
          (compileClass file source sink)) ∧
    (∀ body n, (Phrase.statements body).height ≤ n + 1 ↔
      ∀ statement ∈ body, statement.depth ≤ n) ∧
    (∀ target n, (Phrase.call target).height ≤ n ↔
      ∀ e ∈ target.arguments, (Phrase.expression e).height ≤ n) ∧
    (∀ e n, (Phrase.expression e).height ≤ n ↔
      ∀ t ∈ e.operands, (Phrase.term t).height ≤ n) ∧
    (∀ {c : ClassDeclaration} {file source : String} {sink : Sink Instruction} {fault : Fault},
      c.WrittenAs file source →
        (∀ r ∈ c.subroutines, (Phrase.statements r.body).height ≤ maxNesting) →
        (compileClass file source sink).result = .error fault → ¬ fault.IsNesting) := by
  refine ⟨Session.Derives.limited, fun enough few => ?_, fun _ _ => Statement.blockDepth_le_iff,
    fun _ _ => Call.depth_le_iff, fun _ _ => Expression.depth_le_iff, ?_⟩
  · exact compileCounted_agrees_of_limits _ _ enough few
  · exact ClassDeclaration.WrittenAs.not_isNesting

/-- A session at the start of a source that begins with the tokens of a phrase. -/
theorem exists_derives_of_start (subroutine : Subroutine) (p : Phrase) (file source : String)
    (n : Nat) (nonempty : (sourceTokens file source).take n ≠ [])
    (legal : ∀ s : Session, p.Legal (s.environment subroutine.className))
    (terminals : ((sourceTokens file source).take n).map Token.terminal = p.terminals)
    (ends : Ends p.continues (((sourceTokens file source).drop n).head?.map Token.terminal)) :
    ∃ s : Session, s.Derives subroutine p ((sourceTokens file source).take n)
        ((sourceTokens file source).drop n) (sourceFault file source) ∧
      s.tokens.tokensLeft ≤ source.utf8ByteSize ∧ s.tokens.lexer.file = file := by
  obtain ⟨stream, start, -, gives⟩ := exists_gives_of_ne_nil nonempty
  rw [← List.take_append_drop n (sourceTokens file source)] at gives
  exact ⟨{ tokens := stream, output := {} },
    ⟨TokenStream.inPlace_ofLexer start, rfl, legal _, gives, terminals, ends⟩,
    tokensLeft_of_start start, (Lexer.start_of_ofLexer start).2⟩

/-- A number in parentheses, on a line of its own, and something behind it. -/
def enclosed (behind : String) : String :=
  "(\n1\n)" ++ behind

/-- The tree of the number and the parentheses. -/
def enclosedTree : Phrase :=
  .expression (.single (.parentheses (.single (.integer "1"))))

/-- The function that the number is in. -/
def enclosing : Subroutine where
  className := "A"
  name := "f"
  returnType := .void

theorem legal_enclosedTree (environment : Environment) : enclosedTree.Legal environment := by
  simp [enclosedTree, Phrase.Legal]

/-- With two levels left there is room for the number. With one level it is reported, although a
string without an end follows at once. -/
theorem nesting_exact_enclosed :
    (∃ s s' : Session,
      (enclosedTree.counted enclosing 3 : Counted (nestingLimits 7) Unit).run
        { session := s, depth := 126 } = (.ok (), { session := s', depth := 126 })) ∧
    (∃ (s s' : Session) (ahead : List Token) (fault : Located LexicalFault),
      s.Derives enclosing enclosedTree ahead [] (some fault) ∧
      (enclosedTree.counted enclosing 3 : Counted (nestingLimits 7) Unit).run
        { session := s, depth := 127 } = (.error (.fault (.syntactic {
          location := { file := "A.jack", line := 2 }, cause := .nestingTooDeep })),
          { session := s', depth := 129 })) ∧
    (compileCounted (nestingLimits 100) 129 "A.jack" twiceUndeclared {}).depth ≤ 129 ∧
    ¬ Fault.IsNesting (.syntactic {
      location := { file := "A.jack", line := 1 }, cause := .undefinedVariable "a" }) := by
  obtain ⟨phrases, sources, -, -, -, classes⟩ := nesting_exact
  have written : twiceUndeclaredTree.WrittenAs "A.jack" twiceUndeclared :=
    ⟨by decide +kernel, by decide +kernel⟩
  have failed : (compileClass "A.jack" twiceUndeclared {}).result = .error (.syntactic {
      location := { file := "A.jack", line := 1 }, cause := .undefinedVariable "a" }) := by
    decide +kernel
  refine ⟨?_, ?_, (sources (by decide) (by decide +kernel)).depth_le,
    classes written (by decide) failed⟩
  · have next : ((sourceTokens "A.jack" (enclosed ";")).drop 3).head?.map Token.terminal =
        some (.symbol ';') := by decide +kernel
    have bytes : (enclosed ";").utf8ByteSize = 6 := by decide +kernel
    obtain ⟨s, derives, few, -⟩ := exists_derives_of_start enclosing enclosedTree "A.jack"
      (enclosed ";") 3 (by decide +kernel) (fun _ => legal_enclosedTree _) (by decide +kernel)
      (next ▸ ends_some.mpr (by decide))
    have noFault : sourceFault "A.jack" (enclosed ";") = none := by decide +kernel
    have limited : enclosedTree.Limited s enclosing _ _ _ 126 3 7 :=
      phrases derives (by decide) (by decide) (by omega)
    obtain ⟨s', -, -, -, run⟩ := limited.fits (by decide) fun _ => noFault
    exact ⟨s, s', run⟩
  · have nothing : (sourceTokens "A.jack" (enclosed "\"")).drop 3 = [] := by decide +kernel
    have bytes : (enclosed "\"").utf8ByteSize = 6 := by decide +kernel
    obtain ⟨s, derives, few, file⟩ := exists_derives_of_start enclosing enclosedTree "A.jack"
      (enclosed "\"") 3 (by decide +kernel) (fun _ => legal_enclosedTree _) (by decide +kernel)
      (by rw [nothing]; exact ends_none)
    obtain ⟨fault, broken⟩ : ∃ fault, sourceFault "A.jack" (enclosed "\"") = some fault :=
      Option.isSome_iff_exists.mp (by decide +kernel)
    rw [nothing, broken] at derives
    have limited : enclosedTree.Limited s enclosing _ _ _ 127 3 7 :=
      phrases derives (by decide) (by decide) (by omega)
    obtain ⟨place, others, s', places, -, run⟩ := limited.tooDeep (by decide)
    obtain ⟨rfl, -⟩ := List.cons.inj (show [1] = place :: others from places)
    have second : ((sourceTokens "A.jack" (enclosed "\"")).take 3 ++ [])[1]?.map Token.line =
        some 2 := by
      decide +kernel
    rw [Session.nestingFault, Session.lineAt, file, second] at run
    exact ⟨s, s', _, fault, derives, run⟩

end JackCompiler
