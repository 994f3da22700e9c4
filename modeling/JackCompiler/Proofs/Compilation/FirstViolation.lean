import JackCompiler.Proofs.Compilation.Written
import JackCompiler.Proofs.Compilation.Language
import JackCompiler.Proofs.Grammar.ViolationOrder

/-!
# The first violation is reported

A class that the grammar derives but that is not within the limits has violations. The compiler
checks the rules here and there, some at the token in question and some one or two tokens behind it;
still it never reports a violation while there is another one further to the left.

## Main results

* `exists_fault_of_violations` — a class with violations is rejected with the first of the list
* `compileText_firstViolation` — the first of the list is the first from left to right
-/

namespace JackCompiler

open Grammar Codegen

variable {file source : String} {c : ClassDeclaration}

/-- The tokens of a source, all of them. -/
def script (file source : String) : Script where
  file
  tokens := sourceTokens file source

namespace Grammar.ClassDeclaration

/-- Before the first token of a source is taken, all the terminals of its class are left. -/
theorem WrittenAs.exists_faces (written : c.WrittenAs file source) (sink : Sink Instruction)
    (unlimited : sink.room = none) : ∃ tokens,
      TokenStream.ofLexer (.ofSource file source) = .ok tokens ∧
      Session.Faces { tokens, output := sink } (script file source) ⟨{}, c.terminals⟩ := by
  have consistent := Lexer.consistent_ofSource file source
  obtain ⟨tokens, behind, start, reads, atEnd⟩ := Lexer.reads_toEnd consistent written.noFault
  have gives := Lexer.gives_toEnd consistent start
  rw [written.noFault] at gives
  rw [← sourceTerminals, written.terminals] at reads
  exact ⟨tokens, start,
    ⟨Lexer.consistent_ofLexer consistent start, ⟨behind, reads, atEnd⟩, unlimited, rfl⟩,
    (Lexer.start_of_ofLexer start).2, _, gives, List.suffix_rfl, written.terminals⟩

/-- A class with violations is rejected, and the first of them is reported. -/
theorem WrittenAs.exists_fault_of_violations (written : c.WrittenAs file source) {v : Violation}
    {others : List Violation} (violations : c.violations = v :: others) :
    ∃ fault, (compileText file source).1 = .error fault ∧
      (script file source).Reports fault v := by
  obtain ⟨tokens, start, faces⟩ := written.exists_faces {} rfl
  obtain ⟨visible, meets⟩ := classBody_meets c
  have outcome := meets (script file source) _ faces
  rw [violations] at outcome
  obtain ⟨fault, s', run, stops⟩ := outcome
  have failed : (classSource.run.run { tokens, output := {} }).1 = .error fault := by
    rw [classSource, run_bind, run]
  refine ⟨fault, ?_, stops.reports⟩
  rw [compileText, compileClass_of_start start, failed]
  rfl

end Grammar.ClassDeclaration

/-- **The first violation is the one reported.** A source whose tokens the grammar derives but that
is not within the limits is rejected, and the fault is that of the violation which is met first from
left to right: it is at the line of the token that shows this violation. -/
theorem compileText_firstViolation (written : c.WrittenAs file source)
    (broken : ¬ c.WithinLimits) : ∃ v ∈ c.violations,
      (∀ w ∈ c.violations, w = v ∨ v.Before w) ∧
      ∃ fault, (compileText file source).1 = .error fault ∧
        (script file source).Reports fault v := by
  have unlawful : ¬ c.Lawful := fun lawful =>
    broken ((withinLimits_iff_lawful written.noFault written.terminals.symm).mpr lawful)
  obtain ⟨v, others, violations⟩ : ∃ v others, c.violations = v :: others :=
    List.exists_cons_of_ne_nil fun none => unlawful (ClassDeclaration.violations_eq_nil_iff.mp none)
  have ordered := c.ordered_violations.pairwise
  rw [violations, List.pairwise_cons] at ordered
  refine ⟨v, by simp [violations], fun w mem => ?_, written.exists_fault_of_violations violations⟩
  rw [violations] at mem
  rcases List.mem_cons.mp mem with rfl | mem
  · exact .inl rfl
  · exact (ordered.1 w mem).imp Eq.symm id

/-- A class that assigns to a name without a declaration the value of another one. -/
def twiceUndeclared : String :=
  "class A \x7b function void f() \x7b let a = b; return; \x7d \x7d"

/-- The tree of this class. -/
def twiceUndeclaredTree : ClassDeclaration where
  name := "A"
  classVariables := []
  subroutines := [{
    kind := .function, returnType := none, name := "f", parameters := [], locals := []
    body := [.assign "a" (.single (.named "b")), .giveBack none] }]

theorem compileText_firstViolation_twiceUndeclared :
    twiceUndeclaredTree.WrittenAs "A.jack" twiceUndeclared ∧ ¬ twiceUndeclaredTree.WithinLimits ∧
      twiceUndeclaredTree.violations = [⟨.undeclared "a", 8⟩, ⟨.undeclared "b", 6⟩] ∧
      ∃ v ∈ twiceUndeclaredTree.violations,
        (∀ w ∈ twiceUndeclaredTree.violations, w = v ∨ v.Before w) ∧
        ∃ fault, (compileText "A.jack" twiceUndeclared).1 = .error fault ∧
          (script "A.jack" twiceUndeclared).Reports fault v := by
  have written : twiceUndeclaredTree.WrittenAs "A.jack" twiceUndeclared :=
    ⟨by decide +kernel, by decide +kernel⟩
  have broken : ¬ twiceUndeclaredTree.WithinLimits := by
    intro limits
    have declared := limits.declared _ List.mem_cons_self "a" (by decide)
    revert declared
    decide
  exact ⟨written, broken, by decide, compileText_firstViolation written broken⟩

end JackCompiler
