import JackCompiler.Proofs.Codegen.ClassChecks
import JackCompiler.Proofs.Compilation.Reference
import JackCompiler.Proofs.Grammar.Occurrence

/-!
# The language of the compiler

A source compiles if and only if it is a sequence of tokens that the grammar derives from a class
and the class keeps within the limits of the compiler and of the machine. The limits are stated on
the tree of the class, of which there is only one.

## Main definitions

* `Grammar.ClassDeclaration.WithinLimits` — the limits, by what they are about

## Main results

* `compileText_succeeds_iff` — the sources that compile
-/

namespace JackCompiler

open Grammar Codegen

/-- The limits of the compiler and the machine. The statements of a subroutine are the first level
of nesting, and the object that a method is called on is the first of its arguments. -/
structure Grammar.ClassDeclaration.WithinLimits (c : ClassDeclaration) : Prop where
  nesting : ∀ s ∈ c.subroutines, Statement.blockDepth s.body ≤ 128
  declared : ∀ s ∈ c.subroutines, ∀ name ∈ s.usedNames,
    name ∈ c.declaredNames ∨ name ∈ s.declaredNames
  statics : countOf .static c.declarations ≤ 65535
  fields : countOf .field c.declarations ≤ 65535
  locals : ∀ s ∈ c.subroutines, s.localVariables.length ≤ 65535
  arguments : ∀ s ∈ c.subroutines, (s.arguments c.name).length ≤ 65535
  calls : ∀ s ∈ c.subroutines, ∀ target ∈ s.calls, target.passed (c.environment s) ≤ 65535
  strings : ∀ s ∈ c.subroutines, ∀ contents ∈ s.strings, contents.length ≤ 32767

/-- No name in a source is the name of the object that a method is called on. -/
theorem ne_this_of_sound {token : Token} {name : String} (sound : token.Sound)
    (isName : token.terminal = .identifier name) : name ≠ "this" := by
  obtain ⟨kind, rfl⟩ := Token.terminal_eq_identifier.mp isName
  intro same
  have free := sound.notReserved kind
  rw [same] at free
  exact absurd free (by decide)

theorem TokenStream.Reads.sound {stream behind : TokenStream} {terminals : List Terminal}
    (reads : stream.Reads terminals behind) (consistent : stream.Consistent) :
    ∀ terminal ∈ terminals, ∃ token : Token, token.Sound ∧ token.terminal = terminal := by
  induction reads with
  | nil => simp
  | @cons stream middle behind token terminals takes _ ih =>
    rw [List.forall_mem_cons]
    exact ⟨⟨token, consistent.sound token takes.lookahead, rfl⟩, ih (consistent.takes takes).1⟩

/-- The word `this` is no name in a source without a lexical fault. -/
theorem ne_this_of_mem_sourceTerminals {file source name : String}
    (noFault : (Lexer.ofSource file source).toEnd.fault = none)
    (mem : .identifier name ∈ sourceTerminals file source) : name ≠ "this" := by
  have consistent := Lexer.consistent_ofSource file source
  obtain ⟨stream, behind, start, reads, -⟩ := Lexer.reads_toEnd consistent noFault
  obtain ⟨token, sound, isName⟩ := reads.sound (Lexer.consistent_ofLexer consistent start) _ mem
  exact ne_this_of_sound sound isName

/-- The limits are the rules that the compiler checks. -/
theorem withinLimits_iff_lawful {file source : String} {c : ClassDeclaration}
    (noFault : (Lexer.ofSource file source).toEnd.fault = none)
    (terminals : c.terminals = sourceTerminals file source) : c.WithinLimits ↔ c.Lawful := by
  -- Used names are names of the source, so none of them means the receiver of a method.
  have names {name : String} (mem : .identifier name ∈ c.terminals) : name ≠ "this" :=
    ne_this_of_mem_sourceTerminals noFault (terminals ▸ mem)
  have means {s : SubroutineDeclaration} (mem : s ∈ c.subroutines) :
      (∀ name ∈ s.usedNames, ((c.environment s).lookup? name).isSome) ↔
        ∀ name ∈ s.usedNames, name ∈ c.declaredNames ∨ name ∈ s.declaredNames :=
    forall₂_congr fun name used =>
      c.isSome_lookup?_iff (names (c.identifier_mem_terminals mem used))
  constructor
  · intro h
    refine ⟨h.statics, h.fields, fun s mem => ⟨h.arguments s mem, h.locals s mem, h.nesting s mem,
      SubroutineDeclaration.blockLegal_body_iff.mpr ⟨(means mem).mpr (h.declared s mem),
        h.calls s mem, h.strings s mem⟩⟩⟩
  · intro h
    have body {s : SubroutineDeclaration} (mem : s ∈ c.subroutines) :=
      SubroutineDeclaration.blockLegal_body_iff.mp (h.subroutines s mem).body
    exact {
      nesting := fun s mem => (h.subroutines s mem).nesting
      declared := fun s mem => (means mem).mp (body mem).1
      statics := h.statics
      fields := h.fields
      locals := fun s mem => (h.subroutines s mem).locals
      arguments := fun s mem => (h.subroutines s mem).arguments
      calls := fun s mem => (body mem).2.1
      strings := fun s mem => (body mem).2.2 }

/-- **The compiler accepts exactly its language.** -/
theorem compileText_succeeds_iff (file source : String) :
    (∃ code, (compileText file source).1 = .ok code) ↔
      (Lexer.ofSource file source).toEnd.fault = none ∧ ∃ c : ClassDeclaration,
        c.terminals = sourceTerminals file source ∧ c.WithinLimits := by
  constructor
  · rintro ⟨code, compiled⟩
    obtain ⟨noFault, c, lawful, only, -⟩ :=
      exists_tree_of_compiles (compileText_eq_ok_iff.mp compiled).1
    have terminals := (only c).mpr rfl
    exact ⟨noFault, c, terminals, (withinLimits_iff_lawful noFault terminals).mpr lawful⟩
  · rintro ⟨noFault, c, terminals, limits⟩
    have lawful := (withinLimits_iff_lawful noFault terminals).mp limits
    -- The source can be read to its end, and on such a reading the step for classes cannot fail.
    have consistent := Lexer.consistent_ofSource file source
    obtain ⟨tokens, behind, start, reads, atEnd⟩ := Lexer.reads_toEnd consistent noFault
    rw [← sourceTerminals, ← terminals] at reads
    obtain ⟨visible, accepts⟩ := classBody_accepts lawful
    obtain ⟨s, run, awaits⟩ := accepts { tokens, output := {} }
      ⟨Lexer.consistent_ofLexer consistent start, ⟨behind, reads, atEnd⟩, rfl, rfl⟩
    obtain ⟨_, -, -, -, output⟩ := classBody_derives rfl rfl run
    -- A sink without a limit takes all the code and can be flushed.
    have flushes : s.output.canFlush = true := by
      rw [output]
      rfl
    have taken : Runs classSource { tokens, output := {} } () s :=
      runs_bind.mpr ⟨(), s, run, runs_flush.mpr ⟨flushes, rfl⟩⟩
    have done := compileClass_result_eq_ok_iff.mpr ⟨tokens, s, start, taken⟩
    exact ⟨_, compileText_eq_ok_iff.mpr ⟨done, rfl⟩⟩

end JackCompiler
