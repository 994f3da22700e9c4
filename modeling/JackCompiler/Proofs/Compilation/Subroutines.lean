import JackCompiler.Proofs.Compilation.Written
import JackCompiler.Proofs.Grammar.Renumbering

/-!
# Subroutines are independent

A class compiles if each of its subroutines does on its own, together with the name and the
variables of the class. Its code is then the code of its subroutines, one after the other, and only
the numbers in their labels depend on the subroutines in front.

## Main definitions

* `ClassDeclaration.only` — a class with some of its subroutines

## Main results

* `ClassDeclaration.lawful_iff_only` — the rules for a class, by its subroutines
* `compileText_subroutines` — the code of a class, by its subroutines
-/

namespace JackCompiler

open Grammar

namespace Grammar.ClassDeclaration

variable (c : ClassDeclaration)

/-- The class with the same name and variables and the given subroutines. -/
def only (subroutines : List SubroutineDeclaration) : ClassDeclaration :=
  { c with subroutines }

/-- Which subroutines a class declares does not matter to the rules for any of them. -/
theorem admits_only {subroutines : List SubroutineDeclaration} {d : SubroutineDeclaration} :
    (c.only subroutines).Admits d ↔ c.Admits d :=
  ⟨fun h => ⟨h.arguments, h.locals, h.nesting, h.body⟩,
    fun h => ⟨h.arguments, h.locals, h.nesting, h.body⟩⟩

/-- The rules for a class are those for each of its subroutines on its own. -/
theorem lawful_iff_only : c.Lawful ↔ (c.subroutines = [] → (c.only []).Lawful) ∧
    ∀ d ∈ c.subroutines, (c.only [d]).Lawful := by
  constructor
  · intro lawful
    refine ⟨fun _ => ⟨lawful.statics, lawful.fields, by simp [only]⟩, fun d mem => ?_⟩
    refine ⟨lawful.statics, lawful.fields, fun d' isOnly => ?_⟩
    obtain rfl := List.mem_singleton.mp isOnly
    exact c.admits_only.mpr (lawful.subroutines d' mem)
  · rintro ⟨bare, alone⟩
    have admits : ∀ d ∈ c.subroutines, c.Admits d := fun d mem =>
      c.admits_only.mp ((alone d mem).subroutines d (List.mem_singleton_self d))
    -- The rules for the variables of the class are the same for any subroutines, also for none.
    cases subroutines : c.subroutines with
    | nil => exact ⟨(bare subroutines).statics, (bare subroutines).fields, admits⟩
    | cons d rest =>
      have lawful := alone d (by simp [subroutines])
      exact ⟨lawful.statics, lawful.fields, admits⟩

/-- The code of a class that declares one subroutine. -/
theorem code_only (d : SubroutineDeclaration) : (c.only [d]).code = c.subroutineCode 0 d := by
  rw [code, only, codeFrom_outline, codeFrom, codeFrom, List.append_nil]

end Grammar.ClassDeclaration

variable {c : ClassDeclaration} {file source bareFile bare : String} {files alone : Nat → String}

/-- **Subroutines are compiled independently.** A class compiles if and only if it does with each of
its subroutines alone, and also without any if it has none. Its code is then the code of these
classes in order, where the numbers in the labels are increased by the number of `if` and `while`
statements in the subroutines before. -/
theorem compileText_subroutines (written : c.WrittenAs file source)
    (writtenBare : (c.only []).WrittenAs bareFile bare)
    (writtenAlone : ∀ i (inRange : i < c.subroutines.length),
      (c.only [c.subroutines[i]]).WrittenAs (files i) (alone i)) :
    (Compiles file source ↔ (c.subroutines = [] → Compiles bareFile bare) ∧
      ∀ i < c.subroutines.length, Compiles (files i) (alone i)) ∧
    (Compiles file source →
      (∀ i < c.subroutines.length, (compileText (files i) (alone i)).1 =
        .ok (codeText (generatedCode (files i) (alone i)))) ∧
      (compileText file source).1 = .ok (codeText <|
        (List.range c.subroutines.length).flatMap fun i =>
          (generatedCode (files i) (alone i)).map
            (Instruction.renumber (branchings (c.subroutines.take i))))) := by
  have each : (∀ i < c.subroutines.length, Compiles (files i) (alone i)) ↔
      ∀ d ∈ c.subroutines, (c.only [d]).Lawful := by
    rw [List.forall_mem_iff_forall_getElem]
    exact forall₂_congr fun i inRange => (writtenAlone i inRange).compiles_iff
  have whole : Compiles file source ↔ (c.subroutines = [] → Compiles bareFile bare) ∧
      ∀ i < c.subroutines.length, Compiles (files i) (alone i) := by
    rw [each, writtenBare.compiles_iff, written.compiles_iff, c.lawful_iff_only]
  refine ⟨whole, fun compiles => ?_⟩
  have compileEach := (whole.mp compiles).2
  refine ⟨fun i inRange => compileText_of_compiles (compileEach i inRange), ?_⟩
  have pieces (i : Nat) (inRange : i < c.subroutines.length) :
      generatedCode (files i) (alone i) = c.subroutineCode 0 c.subroutines[i] := by
    rw [(writtenAlone i inRange).generatedCode_eq (compileEach i inRange), c.code_only]
  rw [compileText_of_compiles compiles, written.generatedCode_eq compiles,
    ClassDeclaration.code, c.codeFrom_eq_flatMap pieces]
  simp only [Nat.zero_add]

/-- A class with two subroutines that have labels. -/
def paired : ClassDeclaration where
  name := "A"
  classVariables := [{ isStatic := true, list := { type := .int, first := "s", others := [] } }]
  subroutines := [
    { kind := .function, returnType := none, name := "f", parameters := [], locals := []
      body := [.ifThen (.single (.named "s")) [.giveBack none], .giveBack none] },
    { kind := .method, returnType := some .int, name := "g", parameters := [], locals := []
      body := [.loop (.single (.named "s")) [.discard (.bare "f" [])],
        .giveBack (some (.single (.named "s")))] }]

theorem compileText_subroutines_paired :
    Compiles "A.jack" paired.source ∧
      (compileText "A.jack" paired.source).1 = .ok (codeText <|
        (List.range 2).flatMap fun i =>
          (generatedCode "A.jack" (paired.only paired.subroutines[i]?.toList).source).map
            (Instruction.renumber (branchings (paired.subroutines.take i)))) := by
  have compiles : Compiles "A.jack" paired.source := exists_text_of_isOk (by decide +kernel)
  have spellable : ∀ d ∈ paired.subroutines, ∀ t ∈ (paired.only [d]).terminals, t.Spellable := by
    decide
  have written : paired.WrittenAs "A.jack" paired.source := writtenAs_source _ (by decide)
  have writtenBare : (paired.only []).WrittenAs "A.jack" (paired.only []).source :=
    writtenAs_source _ (by decide)
  have writtenAlone (i : Nat) (inRange : i < paired.subroutines.length) :
      (paired.only [paired.subroutines[i]]).WrittenAs "A.jack"
        (paired.only paired.subroutines[i]?.toList).source := by
    rw [List.getElem?_eq_getElem inRange]
    exact writtenAs_source _ (spellable _ (List.getElem_mem inRange))
  exact ⟨compiles, ((compileText_subroutines written writtenBare writtenAlone).2 compiles).2⟩

end JackCompiler
