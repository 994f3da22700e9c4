import JackCompiler.Proofs.Codegen.Phrase
import JackCompiler.Proofs.Compilation.Lookahead
import JackCompiler.Proofs.Token.Excerpt

/-!
# Phrases in the middle of a source

A step that compiles a phrase knows no more of the source than the tokens of the phrase and the
look-ahead behind it. So it does what it would do if the source ended there, and that is settled by
the violations of the phrase. A step that finds fault with the nesting does not even get to the
look-ahead behind the phrase.

## Main definitions

* `Session.Derives` — the tokens ahead of a session are those of a phrase

## Main results

* `Session.Derives.succeeds` — a phrase that fits into the levels that are left is compiled
* `Session.Derives.fails_unseen` — unless a lexical fault hides the look-ahead behind it
* `Session.Derives.fails` — and otherwise its nesting is found fault with, at a known token
-/

namespace JackCompiler

open Grammar Codegen

/-- The tokens ahead of a session with an unlimited sink are those of a phrase that breaks no rule
about scopes and sizes. They are followed by no token that continues the phrase. -/
structure Session.Derives (s : Session) (subroutine : Subroutine) (p : Phrase)
    (ahead behind : List Token) (fault : Option (Located LexicalFault)) : Prop where
  inPlace : s.tokens.InPlace
  unlimited : s.output.room = none
  legal : p.Legal (s.environment subroutine.className)
  gives : s.tokens.Gives (ahead ++ behind) fault
  terminals : ahead.map Token.terminal = p.terminals
  ends : Ends p.continues (behind.head?.map Token.terminal)

/-- The line of a token that a session gives, by the number of tokens in front of it, or the line of
the token that was taken last if there are no more. -/
def Session.lineAt (s : Session) (tokens : List Token) (place : Nat) : Nat :=
  (tokens[place]?.map Token.line).getD s.tokens.lastLine

variable {s t : Session} {subroutine : Subroutine} {p : Phrase}
  {ahead behind tokens : List Token} {fault : Option (Located LexicalFault)} {level levels : Nat}

/-- A session with an unlimited sink is in front of the tokens that it gives. -/
theorem Session.faces_of_gives (consistent : s.tokens.Consistent)
    (unlimited : s.output.room = none) (gives : s.tokens.Gives tokens none) :
    s.Faces ⟨s.tokens.lexer.file, tokens⟩ ⟨s.visible, tokens.map Token.terminal⟩ where
  consistent
  reads := gives.exists_reads rfl
  unlimited
  visible := rfl
  file := rfl
  gives := ⟨tokens, gives, List.suffix_rfl, rfl⟩

/-- The token that is so far from the end of a source. -/
theorem Script.Marks.getElem? {script : Script} {left place : Nat} {token : Token}
    (marks : script.Marks left token) (sum : left + place = script.tokens.length) :
    script.tokens[place]? = some token := by
  obtain ⟨taken, behind, all, count⟩ := marks
  rw [all, List.length_append, List.length_cons] at sum
  obtain rfl : place = taken.length := by omega
  rw [all, List.getElem?_append_right (Nat.le_refl _), Nat.sub_self, List.getElem?_cons_zero]

namespace Session.Derives

/-! ### At the end of a source -/

section End

variable (h : s.Derives subroutine p ahead behind none) (sum : level + levels = maxNesting + 1)

include h sum

/-- What the step for a phrase meets if no lexical fault follows. -/
theorem meets_atEnd (nonempty : levels < p.height → ahead ++ behind ≠ []) :
    let script : Script := ⟨s.tokens.lexer.file, ahead ++ behind⟩
    let o : Outlook := ⟨s.visible, p.terminals ++ behind.map Token.terminal⟩
    s.Faces script o ∧ Meets script (p.step subroutine levels) o
      (p.violations (s.environment subroutine.className) level (behind.map Token.terminal)) ()
      ⟨s.visible, behind.map Token.terminal⟩ := by
  have faces := Session.faces_of_gives h.inPlace.consistent h.unlimited h.gives
  have ends := h.ends
  rw [List.map_append, h.terminals] at faces
  refine ⟨faces, p.meets sum rfl rfl (by rwa [List.head?_map]) fun deep => ?_⟩
  rw [← h.terminals, ← List.map_append]
  simpa using nonempty deep

theorem succeeds_atEnd (fits : p.height ≤ levels) : ∃ s',
    Runs (p.step subroutine levels) s () s' ∧ s'.tokens.Gives behind none := by
  obtain ⟨faces, meets⟩ := h.meets_atEnd sum fun deep => absurd fits (Nat.not_le_of_lt deep)
  rw [(p.violations_eq_nil sum).mpr ⟨fits, h.legal⟩] at meets
  obtain ⟨s', run, faces'⟩ := meets s faces
  obtain ⟨tokens, gives, ⟨taken, all⟩, terminals⟩ := faces'.gives
  -- As many tokens are left as there are behind the phrase.
  obtain ⟨-, rfl⟩ := List.append_inj' all (by simpa using congrArg List.length terminals)
  exact ⟨s', run, gives⟩

/-- Where the step stops, the token that the fault is about has not been taken. -/
theorem fails_atEnd (deep : levels < p.height) (nonempty : ahead ++ behind ≠ []) :
    ∃ place others token s', p.placesAt levels = place :: others ∧
      (ahead ++ behind)[place]? = some token ∧ s'.tokens.lookahead ≠ none ∧
      (p.step subroutine levels).run.run s = (.error (.syntactic {
        location := { file := s.tokens.lexer.file, line := token.line }
        cause := .nestingTooDeep }), s') := by
  obtain ⟨faces, meets⟩ := h.meets_atEnd sum fun _ => nonempty
  have firstAt := p.firstAt (behind.map Token.terminal) sum h.legal
  cases places : p.placesAt levels with
  | nil =>
    rw [places] at firstAt
    exact absurd ((p.violations_eq_nil sum).mp firstAt).1 (Nat.not_le_of_lt deep)
  | cons place others =>
    rw [places] at firstAt
    obtain ⟨left, later, violations, count⟩ := firstAt
    rw [violations] at meets
    obtain ⟨_, s', run, ⟨token, marks, rfl⟩, untaken⟩ := meets s faces
    rw [← h.terminals, ← List.map_append, List.length_map] at count
    exact ⟨place, others, token, s', rfl, marks.getElem? count, untaken rfl, run⟩

end End

/-! ### In the middle of a source -/

variable {seen more : List Token}

/-- A source that ends behind the look-ahead is as good as the whole one, until all of its tokens
are taken. What is seen of the tokens behind the phrase is the look-ahead, or nothing. -/
theorem exists_excerpt (h : s.Derives subroutine p ahead (seen ++ more) fault)
    (ends : Ends p.continues (seen.head?.map Token.terminal)) (nonempty : ahead ++ seen ≠ []) :
    ∃ t : Session, t.Derives subroutine p ahead seen none ∧
      t.tokens.lexer.file = s.tokens.lexer.file ∧
      (sameStart s.output [] more none fault).Sessions t s := by
  have gives : s.tokens.Gives ((ahead ++ seen) ++ more) fault := by
    rw [List.append_assoc]
    exact h.gives
  obtain ⟨excerpt, inPlace, gives', file, lastLine⟩ := h.inPlace.exists_excerpt gives nonempty
  refine ⟨{ s with tokens := excerpt },
    ⟨inPlace, h.unlimited, h.legal, gives', h.terminals, ends⟩, file, ?_⟩
  exact {
    outputs := ⟨rfl, [], by simp⟩
    events := List.forall₂_same.mpr fun event _ => .same event
    left := inPlace.consistent
    right := h.inPlace.consistent
    visible := rfl
    nextLabel := rfl
    streams := ⟨_, _, nonempty, by simpa using gives', gives, rfl, lastLine, file⟩ }

/-- A phrase that fits into the levels that are left is compiled if there is no lexical fault in
place of the look-ahead behind it. -/
theorem succeeds (h : s.Derives subroutine p ahead behind fault)
    (sum : level + levels = maxNesting + 1) (fits : p.height ≤ levels)
    (readable : behind = [] → fault = none) :
    ∃ s', Runs (p.step subroutine levels) s () s' ∧ s'.tokens.Gives behind fault := by
  cases behind with
  | nil =>
    obtain rfl := readable rfl
    exact h.succeeds_atEnd sum fits
  | cons next more =>
    have h' : s.Derives subroutine p ahead ([next] ++ more) fault := h
    obtain ⟨t, excerpt, file, sessions⟩ := h'.exists_excerpt h.ends (by simp)
    obtain ⟨t', run, gives⟩ := excerpt.succeeds_atEnd sum fits
    have kept := p.keeps (lookaheadLockstep h.unlimited [] more none fault) subroutine levels
    have outcome := kept.together sessions
    -- Whatever the step does, it leaves an end of the tokens that there are.
    have left := (kept.left.precedes s).tokens h.gives
    rw [show (p.step subroutine levels).run.run t = (.ok (), t') from run] at outcome
    generalize real : (p.step subroutine levels).run.run s = run' at outcome left
    cases outcome with
    | @answer _ _ s' sessions =>
      obtain ⟨shared, shared', -, gives', gives'', sights, -⟩ := sessions.streams
      obtain ⟨last, _, suffix, gives₃⟩ := left
      obtain ⟨same, -⟩ := gives'.unique gives
      obtain ⟨rfl, -⟩ := gives₃.unique gives''
      -- One common token is left, so that the rest of the source is behind it.
      have one : shared'.length = 1 := by
        have count : shared.length = shared'.length := by simpa using congrArg List.length sights
        have length : (shared ++ []).length = [next].length := congrArg List.length same
        simpa [count] using length
      have all : shared' ++ more = next :: more :=
        have within := List.suffix_of_suffix_length_le suffix (List.suffix_append ..)
          (by simp; omega)
        within.eq_of_length (by simp; omega)
      rw [all] at gives''
      exact ⟨s', real, gives''⟩
    | parted parted =>
      -- The look-ahead behind the phrase has not been taken.
      obtain ⟨⟨last, _, suffix, gives'⟩, -⟩ := parted
      obtain rfl : last = [] := List.suffix_nil.mp suffix
      exact absurd (gives.unique gives').1 (by simp)

/-- If there is a lexical fault in its place, then this is reported. -/
theorem fails_unseen {cause : Located LexicalFault}
    (h : s.Derives subroutine p ahead [] (some cause)) (sum : level + levels = maxNesting + 1)
    (fits : p.height ≤ levels) :
    ∃ s', (p.step subroutine levels).run.run s = (.error (.lexical cause), s') := by
  -- A session that gives no tokens at all has no lexical fault ahead.
  have nonempty : ahead ++ [] ≠ [] := by
    intro none
    have gives := h.gives
    rw [none] at gives
    cases gives
  have h' : s.Derives subroutine p ahead ([] ++ []) (some cause) := h
  obtain ⟨t, excerpt, file, sessions⟩ := h'.exists_excerpt ends_none nonempty
  obtain ⟨t', run, gives⟩ := excerpt.succeeds_atEnd sum fits
  have kept := p.keeps (lookaheadLockstep h.unlimited [] [] none (some cause)) subroutine levels
  have outcome := kept.together sessions
  rw [show (p.step subroutine levels).run.run t = (.ok (), t') from run] at outcome
  generalize (p.step subroutine levels).run.run s = run' at outcome
  cases outcome with
  | answer sessions =>
    -- The end of the excerpt has been seen, so no common token can be left.
    obtain ⟨shared, shared', some, gives', -⟩ := sessions.streams
    exact absurd (by simpa using (gives'.unique gives).1) some
  | @parted _ result _ s' parted =>
    obtain ⟨-, stopped⟩ := parted
    obtain ⟨failed, -⟩ := stopped cause rfl rfl
    cases result with
    | ok answer => cases failed
    | error fault =>
      obtain rfl : fault = .lexical cause := Option.some.inj failed
      exact ⟨s', rfl⟩

/-- Where there are no tokens at all, a block is one level too many. -/
private theorem fails_empty (h : s.Derives subroutine p [] [] fault) (deep : levels < p.height) :
    ∃ place others s', p.placesAt levels = place :: others ∧
      (p.step subroutine levels).run.run s = (.error (.syntactic {
        location := { file := s.tokens.lexer.file, line := s.lineAt [] place }
        cause := .nestingTooDeep }), s') := by
  obtain rfl := Phrase.eq_statements_nil h.terminals.symm
  obtain rfl : levels = 0 := Nat.lt_one_iff.mp deep
  have none : s.tokens.lookahead = none := h.gives.lookahead_eq
  have place : s.tokens.location =
      { file := s.tokens.lexer.file, line := s.lineAt [] 0 } := by
    simp [TokenStream.location, none, Session.lineAt]
  refine ⟨0, [], s, rfl, ?_⟩
  rw [← place]
  rfl

/-- Otherwise the nesting is found fault with where it is first too deep, whatever comes behind the
phrase. -/
theorem fails (h : s.Derives subroutine p ahead behind fault)
    (sum : level + levels = maxNesting + 1) (deep : levels < p.height) :
    ∃ place others s', p.placesAt levels = place :: others ∧
      (p.step subroutine levels).run.run s = (.error (.syntactic {
        location := {
          file := s.tokens.lexer.file, line := s.lineAt (ahead ++ behind) place }
        cause := .nestingTooDeep }), s') := by
  by_cases none : ahead ++ behind = []
  · obtain ⟨rfl, rfl⟩ := List.append_eq_nil_iff.mp none
    exact h.fails_empty deep
  · obtain ⟨seen, more, rfl, nonempty, ends⟩ : ∃ seen more, behind = seen ++ more ∧
        ahead ++ seen ≠ [] ∧ Ends p.continues (seen.head?.map Token.terminal) :=
      ⟨behind.take 1, behind.drop 1, (List.take_append_drop 1 behind).symm, by simpa using none,
        by simpa [List.head?_take] using h.ends⟩
    obtain ⟨t, excerpt, file, sessions⟩ := h.exists_excerpt ends nonempty
    obtain ⟨place, others, token, t', places, isAt, untaken, run⟩ :=
      excerpt.fails_atEnd sum deep nonempty
    have kept := p.keeps (lookaheadLockstep h.unlimited [] more .none fault) subroutine levels
    have outcome := kept.together sessions
    have line : s.lineAt (ahead ++ (seen ++ more)) place = token.line := by
      rw [← List.append_assoc, Session.lineAt, List.getElem?_append_left, isAt]
      · rfl
      · exact (List.getElem?_eq_some_iff.mp isAt).1
    refine ⟨place, others, ((p.step subroutine levels).run.run s).2, places, ?_⟩
    rw [run] at outcome
    rw [line, ← file]
    generalize (p.step subroutine levels).run.run s = run' at outcome ⊢
    cases outcome with
    | failure alike reports =>
      cases alike with
      | same => rfl
      | syntactic related cause =>
        cases related
        rfl
    | parted parted =>
      -- The step would have taken all tokens that are seen, but it has stopped in front of one.
      obtain ⟨⟨last, _, suffix, gives⟩, -⟩ := parted
      obtain rfl : last = [] := List.suffix_nil.mp suffix
      exact absurd gives.lookahead_eq untaken

end Session.Derives

end JackCompiler
