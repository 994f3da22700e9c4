import JackCompiler.Proofs.Compilation.Language
import JackCompiler.Proofs.Compilation.Written
import JackCompiler.Proofs.Grammar.Renaming
import JackCompiler.Proofs.Token.Replacement
import JackCompiler.Proofs.Token.Upcoming

/-!
# Renaming a variable in a source

The name of a variable leaves no trace in the code. If it is replaced in the text of a class by a
name that the text does not use, at all places where it stands for a variable, then the code stays
the same, even if the old name also stands for types or subroutines.

## Main definitions

* `renamedSource?` — the text in which a variable is renamed

## Main results

* `compileText_rename` — renaming a variable never changes the code
-/

namespace JackCompiler

open Grammar

/-- A source in which the variables `x` of its class are renamed to `y`. The tokens that stand for
them are replaced, and everything else is kept. -/
def renamedSource? (file source : String) (c : ClassDeclaration) (x y : String) : Option String :=
  (replaceAll? (edits (sourceTokens file source) (c.rename x y).terminals) source.toList).map
    String.ofList

variable {file source : String} {c : ClassDeclaration} {x y : String}

/-- A renaming keeps a terminal or turns a name into the new name. -/
theorem Grammar.Spelling.Respells.replacing {t u : Terminal} {visible : Bool}
    (respells : (Spelling.replacing x y visible).Respells t u) :
    u = t ∨ ∃ name, t = .identifier name ∧ u = .identifier y := by
  cases respells with
  | ofVariable name =>
    by_cases same : name = x
    · exact .inr ⟨name, rfl, by simp [Spelling.replacing, same]⟩
    · exact .inl (by simp [Spelling.replacing, same])
  | ofOwner name =>
    by_cases same : visible = true ∧ name = x
    · exact .inr ⟨name, rfl, by simp [Spelling.replacing, same]⟩
    · exact .inl (by simp only [Spelling.replacing, if_neg same])
  | keyword | mark | ofRoutine | ofType | ofDigits | ofContents => exact .inl rfl

/-- The tokens of a source become the terminals of the renamed class. -/
theorem renames_sourceTokens (written : c.WrittenAs file source)
    (isName : (Terminal.identifier y).Spellable) :
    List.Forall₂ Renames (sourceTokens file source) (c.rename x y).terminals := by
  have changes : List.Forall₂ (fun t u => u = t ∨ ∃ name, t = .identifier name ∧
      u = .identifier y) c.terminals (c.rename x y).terminals :=
    ClassDeclaration.terminals_respell (σ := .replacing x y false) (c.replacingIn x y) c
      (fun respells => respells.replacing) fun _ _ _ _ respells => respells.replacing
  rw [← written.terminals, sourceTerminals, List.forall₂_map_left_iff] at changes
  refine changes.imp fun token u => ?_
  rintro (rfl | ⟨name, isOld, rfl⟩)
  · exact .same
  · exact .name isOld isName

/-- The text of the renamed class is a source of it. -/
theorem exists_renamedSource (written : c.WrittenAs file source)
    (isName : (Terminal.identifier y).Spellable) :
    ∃ source', renamedSource? file source c x y = some source' ∧
      (c.rename x y).WrittenAs file source' := by
  have scans := Lexer.scans_toEnd file source
  obtain ⟨text, replaced, -, reads⟩ :=
    scans.replaceAll written.noFault (renames_sourceTokens (x := x) written isName)
  obtain ⟨tokens, scans', terminals⟩ := reads []
  rw [← String.toList_ofList (l := text)] at scans'
  obtain ⟨read, noFault⟩ := Lexer.toEnd_of_scans scans'
  refine ⟨String.ofList text, ?_, noFault, ?_⟩
  · rw [renamedSource?]
    exact congrArg (Option.map String.ofList) replaced
  · rw [sourceTerminals, read, terminals]

/-- **Renaming a variable never changes the code.** Let a source compile, and let `y` be a name that
is none of its tokens. Then the source in which the variables `x` are renamed to `y` compiles as
well, and to the same code. -/
theorem compileText_rename (written : c.WrittenAs file source) (compiles : Compiles file source)
    (isName : (Terminal.identifier y).Spellable)
    (fresh : ∀ token ∈ sourceTokens file source, token.text ≠ y) :
    ∃ source', renamedSource? file source c x y = some source' ∧
      (c.rename x y).WrittenAs file source' ∧ Compiles file source' ∧
      (compileText file source').1 = (compileText file source).1 := by
  obtain ⟨source', renamed, written'⟩ := exists_renamedSource (x := x) written isName
  have noToken : .identifier y ∉ c.terminals := by
    intro mem
    rw [← written.terminals, sourceTerminals] at mem
    obtain ⟨token, isToken, isOld⟩ := List.mem_map.mp mem
    exact fresh token isToken (Token.terminal_eq_identifier.mp isOld).2
  have notThis : y ≠ "this" := by
    rintro rfl
    exact isName.2.2 .this (by decide) rfl
  have noThis : .identifier "this" ∉ c.terminals := fun mem =>
    ne_this_of_mem_sourceTerminals written.noFault (written.terminals ▸ mem) rfl
  have lawful := ClassDeclaration.lawful_rename (x := x) noToken notThis noThis
    (written.compiles_iff.mp compiles)
  have compiles' := written'.compiles_iff.mpr lawful
  refine ⟨source', renamed, written', compiles', ?_⟩
  rw [compileText_of_compiles compiles', compileText_of_compiles compiles,
    written'.generatedCode_eq compiles', written.generatedCode_eq compiles,
    ClassDeclaration.code_rename noToken notThis noThis]

/-- A class with one name for a type, a field and a method. -/
def homonymous : String :=
  "class A \x7b field x x; method void f() \x7b do x.x(x); return; \x7d \x7d"

/-- The tree of this class. -/
def homonymousTree : ClassDeclaration where
  name := "A"
  classVariables := [{
    isStatic := false, list := { type := .named "x", first := "x", others := [] } }]
  subroutines := [{
    kind := .method, returnType := none, name := "f", parameters := [], locals := []
    body := [.discard (.qualified "x" "x" [.single (.named "x")]), .giveBack none] }]

/-- The same class with another name for the field. -/
def renamedHomonymous : String :=
  "class A \x7b field x y; method void f() \x7b do y.x(y); return; \x7d \x7d"

theorem compileText_rename_homonymous :
    homonymousTree.WrittenAs "A.jack" homonymous ∧ Compiles "A.jack" homonymous ∧
      renamedSource? "A.jack" homonymous homonymousTree "x" "y" = some renamedHomonymous ∧
      (compileText "A.jack" renamedHomonymous).1 = (compileText "A.jack" homonymous).1 := by
  have written : homonymousTree.WrittenAs "A.jack" homonymous :=
    ⟨by decide +kernel, by decide +kernel⟩
  have compiles : Compiles "A.jack" homonymous := exists_text_of_isOk (by decide +kernel)
  obtain ⟨source', renamed, -, -, same⟩ := compileText_rename (x := "x") (y := "y") written
    compiles (by decide) (by decide +kernel)
  have expected : renamedSource? "A.jack" homonymous homonymousTree "x" "y" =
      some renamedHomonymous := by decide +kernel
  obtain rfl : source' = renamedHomonymous := Option.some.inj (renamed.symm.trans expected)
  exact ⟨written, compiles, expected, same⟩

end JackCompiler
