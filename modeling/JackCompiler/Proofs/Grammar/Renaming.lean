import JackCompiler.Proofs.Grammar.Code
import JackCompiler.Proofs.Grammar.Occurrence
import JackCompiler.Proofs.Grammar.Respelling

/-!
# Renaming a variable

A variable can be renamed to a name that occurs nowhere in its class. The name is changed wherever
it stands for a variable: where it is declared, read or assigned to, and in front of a dot if a
variable of this name is visible there. It is kept where it stands for a class or a subroutine.

## Main definitions

* `Spelling.Keeps` — names mean the same after they have been spelled in another way
* `Spelling.replacing`, `ClassDeclaration.rename` — the new spellings, and the class with them

## Main results

* `ClassDeclaration.code_rename` — renaming a variable does not change the code
* `ClassDeclaration.lawful_rename` — and the class still obeys the rules
-/

namespace JackCompiler.Grammar

/-! ### Nesting and labels -/

section Depth

variable {σ : Spelling}

mutual

@[simp] theorem Term.depth_respell : ∀ t : Term, (t.respell σ).depth = t.depth
  | .integer _ | .string _ | .constant _ | .named _ => rfl
  | .element _ index => by simp [Term.respell, index.depth_respell]
  | .call target => by simp [Term.respell, target.depth_respell]
  | .parentheses inner => by simp [Term.respell, inner.depth_respell]
  | .unary _ operand => by simp [Term.respell, operand.depth_respell]

@[simp] theorem Expression.depth_respell : ∀ e : Expression, (e.respell σ).depth = e.depth
  | .single term => by simp [Expression.respell, term.depth_respell]
  | .binary left _ right => by
    simp [Expression.respell, left.depth_respell, right.depth_respell]

@[simp] theorem Call.depth_respell : ∀ target : Call, (target.respell σ).depth = target.depth
  | .bare _ arguments => by simp [Call.respell, Expression.listDepth_respell arguments]
  | .qualified _ _ arguments => by simp [Call.respell, Expression.listDepth_respell arguments]

@[simp] theorem Expression.listDepth_respell : ∀ es : List Expression,
    Expression.listDepth (Expression.listRespell σ es) = Expression.listDepth es
  | [] => rfl
  | e :: rest => by
    simp [Expression.listRespell, e.depth_respell, Expression.listDepth_respell rest]

end

mutual

/-- New spellings change neither the nesting of a statement nor the number of its labels. -/
theorem Statement.shape_respell : ∀ statement : Statement,
    (statement.respell σ).depth = statement.depth ∧
      (statement.respell σ).labels = statement.labels
  | .assign .. | .assignElement .. | .discard _ | .giveBack none | .giveBack (some _) => by
    simp [Statement.respell, Statement.labels]
  | .ifThen _ body => by
    simp [Statement.respell, Statement.labels, Statement.listShape_respell body]
  | .ifElse _ body otherwise => by
    simp [Statement.respell, Statement.labels, Statement.listShape_respell body,
      Statement.listShape_respell otherwise]
  | .loop _ body => by
    simp [Statement.respell, Statement.labels, Statement.listShape_respell body]

theorem Statement.listShape_respell : ∀ body : List Statement,
    Statement.listDepth (Statement.listRespell σ body) = Statement.listDepth body ∧
      Statement.listLabels (Statement.listRespell σ body) = Statement.listLabels body
  | [] => by simp [Statement.listRespell]
  | statement :: rest => by
    simp [Statement.listRespell, Statement.listLabels, statement.shape_respell,
      Statement.listShape_respell rest]

end

end Depth

/-! ### Names that mean the same -/

/-- Names mean the same after they have been spelled in another way. The names that this is about
are those that have a property. -/
structure Spelling.Keeps (σ : Spelling) (known : String → Prop) (old new : Environment) : Prop where
  className : new.className = old.className
  ofVariable : ∀ name, known name → new.lookup? (σ.ofVariable name) = old.lookup? name
  ofOwner : ∀ name, known name → new.lookup? (σ.ofOwner name) = old.lookup? name ∧
    (old.lookup? name = none → σ.ofOwner name = name)
  ofRoutine : ∀ name, σ.ofRoutine name = name
  ofDigits : ∀ digits, σ.ofDigits digits = digits
  ofContents : ∀ contents, σ.ofContents contents = contents

section Meaning

variable {σ : Spelling} {known : String → Prop} {old new : Environment}

theorem Expression.length_listRespell (es : List Expression) :
    (Expression.listRespell σ es).length = es.length := by
  rw [Expression.listRespell_eq_map, List.length_map]

theorem Spelling.Keeps.passed_respell (keeps : σ.Keeps known old new) (target : Call)
    (names : ∀ name, .identifier name ∈ target.terminals → known name) :
    (target.respell σ).passed new = target.passed old := by
  cases target with
  | bare name es => simp [Call.respell, Call.passed, Expression.length_listRespell]
  | qualified owner name es =>
    have same := (keeps.ofOwner owner (names owner (by simp [Call.terminals]))).1
    simp [Call.respell, Call.passed, Expression.length_listRespell, same]

mutual

/-- A term whose names mean the same keeps to the rules as before, and has the same code. -/
theorem Term.meaning_respell (keeps : σ.Keeps known old new) : ∀ t : Term,
    (∀ name, .identifier name ∈ t.terminals → known name) →
      ((t.respell σ).Legal new ↔ t.Legal old) ∧ (t.respell σ).code new = t.code old
  | .integer digits, _ => by simp [Term.respell, Term.code, keeps.ofDigits]
  | .string contents, _ => by simp [Term.respell, Term.code, keeps.ofContents]
  | .constant _, _ => by simp [Term.respell, Term.code]
  | .named name, names => by
    have same := keeps.ofVariable name (names name (by simp [Term.terminals]))
    simp [Term.respell, Term.code, Environment.push, same]
  | .element array index, names => by
    have same := keeps.ofVariable array (names array (by simp [Term.terminals]))
    have inside := index.meaning_respell keeps fun name mem =>
      names name (by simp [Term.terminals, mem])
    simp [Term.respell, Term.code, Environment.push, same, inside]
  | .call target, names => by
    simpa [Term.respell, Term.code] using target.meaning_respell keeps names
  | .parentheses inner, names => by
    have inside := inner.meaning_respell keeps fun name mem =>
      names name (by simp [Term.terminals, parenthesized, mem])
    simpa [Term.respell, Term.code] using inside
  | .unary operator operand, names => by
    have inside := operand.meaning_respell keeps fun name mem =>
      names name (by simp [Term.terminals, mem])
    simp [Term.respell, Term.code, inside]

theorem Expression.meaning_respell (keeps : σ.Keeps known old new) : ∀ e : Expression,
    (∀ name, .identifier name ∈ e.terminals → known name) →
      ((e.respell σ).Legal new ↔ e.Legal old) ∧ (e.respell σ).code new = e.code old
  | .single term, names => by
    simpa [Expression.respell, Expression.code] using term.meaning_respell keeps names
  | .binary left operator right, names => by
    have first := left.meaning_respell keeps fun name mem =>
      names name (by simp [Expression.terminals, mem])
    have rest := right.meaning_respell keeps fun name mem =>
      names name (by simp [Expression.terminals, mem])
    simp [Expression.respell, Expression.code, first, rest]

theorem Call.meaning_respell (keeps : σ.Keeps known old new) : ∀ target : Call,
    (∀ name, .identifier name ∈ target.terminals → known name) →
      ((target.respell σ).Legal new ↔ target.Legal old) ∧
        (target.respell σ).code new = target.code old
  | .bare name es, names => by
    have passed := keeps.passed_respell (.bare name es) names
    obtain ⟨legal, code⟩ := Expression.listMeaning_respell keeps es fun piece isPiece name mem =>
      names name (Call.subset_terminals (.bare _ es) (List.mem_flatten.mpr ⟨piece, isPiece, mem⟩))
    rw [Call.legal_iff, Call.legal_iff, passed, Call.respell]
    refine ⟨and_congr_right fun _ => legal, ?_⟩
    rw [Call.code, Call.code, code, bareCall, bareCall, keeps.className, keeps.ofRoutine,
      Expression.length_listRespell]
  | .qualified owner name es, names => by
    have passed := keeps.passed_respell (.qualified owner name es) names
    obtain ⟨same, foreign⟩ := keeps.ofOwner owner (names owner (by simp [Call.terminals]))
    obtain ⟨legal, code⟩ := Expression.listMeaning_respell keeps es fun piece isPiece name mem =>
      names name (Call.subset_terminals (.qualified _ _ es)
        (List.mem_flatten.mpr ⟨piece, isPiece, mem⟩))
    rw [Call.legal_iff, Call.legal_iff, passed, Call.respell]
    refine ⟨and_congr_right fun _ => legal, ?_⟩
    rw [Call.code, Call.code, code, Environment.push, Environment.push, qualifiedCall,
      qualifiedCall, same, keeps.ofRoutine, Expression.length_listRespell]
    -- A name that means no variable is the name of a class, and is kept.
    cases means : old.lookup? owner with
    | some v => rfl
    | none => rw [foreign means]

theorem Expression.listMeaning_respell (keeps : σ.Keeps known old new) : ∀ es : List Expression,
    (∀ piece ∈ Expression.pieces es, ∀ name, .identifier name ∈ piece → known name) →
      ((∀ e ∈ Expression.listRespell σ es, e.Legal new) ↔ ∀ e ∈ es, e.Legal old) ∧
        Expression.listCode new (Expression.listRespell σ es) = Expression.listCode old es
  | [], _ => by simp [Expression.listRespell, Expression.listCode]
  | e :: rest, names => by
    rw [Expression.pieces, List.forall_mem_cons] at names
    have first := e.meaning_respell keeps names.1
    have others := Expression.listMeaning_respell keeps rest names.2
    simp [Expression.listRespell, Expression.listCode, first, others]

end

mutual

/-- A statement whose names mean the same keeps to the rules as before, and has the same code. -/
theorem Statement.meaning_respell (keeps : σ.Keeps known old new) : ∀ statement : Statement,
    (∀ name, .identifier name ∈ statement.terminals → known name) →
      ((statement.respell σ).Legal new ↔ statement.Legal old) ∧
        ∀ number, (statement.respell σ).code new number = statement.code old number
  | .assign target value, names => by
    have same := keeps.ofVariable target (names target (by simp [Statement.terminals]))
    have inside := value.meaning_respell keeps fun name mem =>
      names name (by simp [Statement.terminals, mem])
    simp [Statement.respell, Statement.code, Environment.pop, same, inside]
  | .assignElement array index value, names => by
    have same := keeps.ofVariable array (names array (by simp [Statement.terminals]))
    have inside := index.meaning_respell keeps fun name mem =>
      names name (by simp [Statement.terminals, mem])
    have assigned := value.meaning_respell keeps fun name mem =>
      names name (by simp [Statement.terminals, mem])
    simp [Statement.respell, Statement.code, Environment.push, same, inside, assigned]
  | .ifThen condition body, names => by
    have tested := condition.meaning_respell keeps fun name mem =>
      names name (by simp [Statement.terminals, parenthesized, mem])
    have inside := Statement.listMeaning_respell keeps body fun name mem =>
      names name (by simp only [Statement.terminals, braced, List.mem_append, List.mem_cons, mem,
        true_or, or_true])
    simp [Statement.respell, Statement.code, tested, inside]
  | .ifElse condition body otherwise, names => by
    have tested := condition.meaning_respell keeps fun name mem =>
      names name (by simp [Statement.terminals, parenthesized, mem])
    have inside := Statement.listMeaning_respell keeps body fun name mem =>
      names name (by simp only [Statement.terminals, braced, List.mem_append, List.mem_cons, mem,
        true_or, or_true])
    have others := Statement.listMeaning_respell keeps otherwise fun name mem =>
      names name (by simp only [Statement.terminals, braced, List.mem_append, List.mem_cons, mem,
        true_or, or_true])
    simp [Statement.respell, Statement.code, tested, inside, others, Statement.listShape_respell]
  | .loop condition body, names => by
    have tested := condition.meaning_respell keeps fun name mem =>
      names name (by simp [Statement.terminals, parenthesized, mem])
    have inside := Statement.listMeaning_respell keeps body fun name mem =>
      names name (by simp only [Statement.terminals, braced, List.mem_append, List.mem_cons, mem,
        true_or, or_true])
    simp [Statement.respell, Statement.code, tested, inside]
  | .discard target, names => by
    have called := target.meaning_respell keeps fun name mem =>
      names name (by simp [Statement.terminals, mem])
    simp [Statement.respell, Statement.code, called]
  | .giveBack none, _ => by simp [Statement.respell, Statement.code, returnedCode]
  | .giveBack (some value), names => by
    have given := value.meaning_respell keeps fun name mem =>
      names name (by simp [Statement.terminals, returnedTerminals, mem])
    simp [Statement.respell, Statement.code, returnedCode, given]

theorem Statement.listMeaning_respell (keeps : σ.Keeps known old new) :
    ∀ body : List Statement,
    (∀ name, .identifier name ∈ Statement.blockTerminals body → known name) →
      (Statement.BlockLegal new (Statement.listRespell σ body) ↔
        Statement.BlockLegal old body) ∧
      ∀ number, Statement.listCode new number (Statement.listRespell σ body) =
        Statement.listCode old number body
  | [], _ => by simp [Statement.listRespell, Statement.listCode, Statement.blockLegal_iff]
  | statement :: rest, names => by
    have first := statement.meaning_respell keeps fun name mem =>
      names name (List.mem_append_left _ mem)
    have others := Statement.listMeaning_respell keeps rest fun name mem =>
      names name (List.mem_append_right _ mem)
    rw [Statement.blockLegal_iff, Statement.blockLegal_iff] at others ⊢
    simp [Statement.listRespell, Statement.listCode, first, others, statement.shape_respell]

end

end Meaning

/-! ### Declarations with new spellings -/

/-- A declaration with a new spelling of its name. -/
def Declaration.respell (σ : Spelling) (d : Declaration) : Declaration :=
  { d with name := σ.ofVariable d.name }

theorem countOf_map_respell (σ : Spelling) (kind : VariableKind) (ds : List Declaration) :
    countOf kind (ds.map (·.respell σ)) = countOf kind ds := by
  rw [countOf, List.countP_map]
  rfl

/-- Two declarations that differ at most in their names, where the second one declares the second
name if the first one declares the first name. -/
structure Declaration.Corresponds (name name' : String) (d d' : Declaration) : Prop where
  type : d'.type = d.type
  kind : d'.kind = d.kind
  names : d'.name = name' ↔ d.name = name

theorem countOf_congr {name name' : String} {ds ds' : List Declaration}
    (same : List.Forall₂ (Declaration.Corresponds name name') ds ds') (kind : VariableKind) :
    countOf kind ds' = countOf kind ds := by
  induction same with
  | nil => rfl
  | cons first _ ih => rw [countOf_cons, countOf_cons, ih, first.kind]

/-- What a name means depends on which declarations have this name, and on nothing else that names
say. -/
theorem latest?_congr {name name' : String} {ds ds' : List Declaration}
    (same : List.Forall₂ (Declaration.Corresponds name name') ds ds') :
    latest? name' ds' = latest? name ds := by
  induction same with
  | nil => rfl
  | @cons d d' ds ds' first rest ih =>
    have means : d'.variable ds' = d.variable ds := by
      rw [Declaration.variable, Declaration.variable, first.type, first.kind, countOf_congr rest]
    rw [latest?, latest?, ih, means]
    exact if_congr first.names rfl rfl

section Declarations

variable {σ : Spelling} (types : ∀ name, σ.ofType name = name)

include types

theorem TypeName.text_respell (type : TypeName) : (type.respell σ).text = type.text := by
  cases type with
  | named className => exact types className
  | int | char | boolean => rfl

theorem VariableList.declarations_respell (list : VariableList) (kind : VariableKind) :
    (list.respell σ).declarations kind = (list.declarations kind).map (·.respell σ) := by
  rw [declarations, declarations, names_respell, List.map_map, List.map_map]
  refine List.map_congr_left fun name _ => ?_
  simp [Declaration.respell, respell, TypeName.text_respell types]

theorem ClassDeclaration.declarations_respell (c : ClassDeclaration)
    (inside : SubroutineDeclaration → Spelling) :
    (c.respell σ inside).declarations = c.declarations.map (·.respell σ) := by
  rw [declarations, declarations, respell, List.flatMap_map, List.map_flatMap]
  exact List.flatMap_congr fun declaration _ =>
    declaration.list.declarations_respell types declaration.kind

theorem SubroutineDeclaration.localVariables_respell (s : SubroutineDeclaration) :
    (s.respell σ).localVariables = s.localVariables.map (·.respell σ) := by
  rw [localVariables, localVariables, respell, List.flatMap_map, List.map_flatMap]
  exact List.flatMap_congr fun list _ => list.declarations_respell types .«local»

/-- The receiver of a method keeps its name, whatever the spelling is. -/
theorem SubroutineDeclaration.arguments_respell (s : SubroutineDeclaration) (className : String) :
    (s.respell σ).arguments className =
      (if s.kind = .method then [receiver className] else []) ++
        (s.parameters.map Parameter.declaration).map (·.respell σ) := by
  rw [arguments, respell, List.map_map, List.map_map]
  refine congrArg _ (List.map_congr_left fun parameter _ => ?_)
  simp [Parameter.declaration, Parameter.respell, Declaration.respell, TypeName.text_respell types]

end Declarations

/-- A name means the same as before if it is the new spelling of the same declared names. -/
theorem ClassDeclaration.lookup?_respell {c : ClassDeclaration} {s : SubroutineDeclaration}
    {σ τ : Spelling} {inside : SubroutineDeclaration → Spelling} {name name' : String}
    (types : ∀ name, σ.ofType name = name) (types' : ∀ name, τ.ofType name = name)
    (ofClass : ∀ n ∈ c.declaredNames, (σ.ofVariable n = name' ↔ n = name))
    (ofSubroutine : ∀ n ∈ s.declaredNames, (τ.ofVariable n = name' ↔ n = name))
    (ofReceiver : "this" = name' ↔ "this" = name) :
    ((c.respell σ inside).environment (s.respell τ)).lookup? name' =
      (c.environment s).lookup? name := by
  have each {σ : Spelling} {ds : List Declaration}
      (names : ∀ n ∈ ds.map Declaration.name, (σ.ofVariable n = name' ↔ n = name)) :
      List.Forall₂ (Declaration.Corresponds name name') ds (ds.map (·.respell σ)) := by
    refine List.forall₂_map_right_iff.mpr (List.forall₂_same.mpr fun d mem => ?_)
    exact ⟨rfl, rfl, names d.name (List.mem_map_of_mem mem)⟩
  have received : List.Forall₂ (Declaration.Corresponds name name')
      (if s.kind = .method then [receiver c.name] else [])
      (if s.kind = .method then [receiver c.name] else []) := by
    split
    · exact .cons ⟨rfl, rfl, ofReceiver⟩ .nil
    · exact .nil
  have inClass : List.Forall₂ (Declaration.Corresponds name name') c.declarations
      (c.declarations.map (·.respell σ)) := each (by rwa [c.map_name_declarations])
  have inSubroutine : List.Forall₂ (Declaration.Corresponds name name') (s.declarations c.name)
      ((s.respell τ).declarations c.name) := by
    rw [SubroutineDeclaration.declarations, SubroutineDeclaration.declarations,
      s.arguments_respell types', s.localVariables_respell types']
    refine List.rel_append (List.rel_append received (each fun n mem => ofSubroutine n ?_))
      (each fun n mem => ofSubroutine n ?_)
    · simp only [List.map_map] at mem
      exact List.mem_append_left _ mem
    · rw [SubroutineDeclaration.localVariables, List.map_flatMap] at mem
      simp only [VariableList.map_name_declarations] at mem
      exact List.mem_append_right _ mem
  have sameName : (c.respell σ inside).name = c.name := types c.name
  rw [environment, environment, c.declarations_respell types, sameName]
  dsimp only
  rw [latest?_congr (List.forall₂_reverse_iff.mpr inClass),
    latest?_congr (List.forall₂_reverse_iff.mpr inSubroutine)]

/-! ### Renaming -/

/-- The spelling that renames `x` to `y` where it stands for a variable. In front of a dot it does
if a variable of this name is visible. -/
def Spelling.replacing (x y : String) (visible : Bool) : Spelling where
  ofVariable name := if name = x then y else name
  ofOwner name := if visible = true ∧ name = x then y else name

/-- The new spellings inside a subroutine. -/
def ClassDeclaration.replacingIn (x y : String) (c : ClassDeclaration)
    (s : SubroutineDeclaration) : Spelling :=
  .replacing x y ((c.environment s).lookup? x).isSome

/-- The class in which the variables `x` are renamed to `y`. -/
def ClassDeclaration.rename (x y : String) (c : ClassDeclaration) : ClassDeclaration :=
  c.respell (.replacing x y false) (c.replacingIn x y)

theorem VariableList.identifier_mem_terminals {list : VariableList} {name : String}
    (declared : name ∈ list.names) : .identifier name ∈ list.terminals := by
  have listed : Terminal.identifier name ∈
      commaSeparated (list.names.map fun name => [Terminal.identifier name]) :=
    subset_commaSeparated _ (by simpa using declared)
  simp only [terminals, List.mem_append, List.mem_cons, listed, true_or, or_true]

namespace SubroutineDeclaration

variable {s : SubroutineDeclaration}

theorem identifier_mem_of_declared {name : String} (declared : name ∈ s.declaredNames) :
    .identifier name ∈ s.terminals := by
  rcases List.mem_append.mp declared with mem | mem
  · obtain ⟨parameter, isPart, rfl⟩ := List.mem_map.mp mem
    have listed : Terminal.identifier parameter.name ∈
        commaSeparated (s.parameters.map Parameter.terminals) := by
      refine subset_commaSeparated _ (List.mem_flatten.mpr ⟨parameter.terminals, ?_, ?_⟩)
      · exact List.mem_map_of_mem isPart
      · simp [Parameter.terminals]
    simp only [terminals, parenthesized, List.mem_append, List.mem_cons, listed, true_or, or_true]
  · obtain ⟨list, isPart, mem⟩ := List.mem_flatMap.mp mem
    have listed : Terminal.identifier name ∈ s.locals.flatMap localTerminals :=
      List.mem_flatMap.mpr ⟨list, isPart,
        List.mem_cons_of_mem _ (VariableList.identifier_mem_terminals mem)⟩
    simp only [terminals, braced, List.mem_append, List.mem_cons, listed, true_or, or_true]

theorem blockTerminals_subset : Statement.blockTerminals s.body ⊆ s.terminals := fun x mem => by
  simp only [terminals, braced, List.mem_append, List.mem_cons, mem, true_or, or_true]

end SubroutineDeclaration

namespace ClassDeclaration

variable {c : ClassDeclaration} {s : SubroutineDeclaration} {x y : String}

theorem subroutine_terminals_subset (mem : s ∈ c.subroutines) : s.terminals ⊆ c.terminals := by
  intro t inside
  have listed : t ∈ c.subroutines.flatMap SubroutineDeclaration.terminals :=
    List.mem_flatMap.mpr ⟨s, mem, inside⟩
  simp only [terminals, braced, List.mem_append, List.mem_cons, listed, true_or, or_true]

/-- Declared names are among the tokens of a class. -/
theorem identifier_mem_of_declared {name : String} (declared : name ∈ c.declaredNames) :
    .identifier name ∈ c.terminals := by
  obtain ⟨declaration, isPart, mem⟩ := List.mem_flatMap.mp declared
  have listed : Terminal.identifier name ∈ c.classVariables.flatMap ClassVariables.terminals :=
    List.mem_flatMap.mpr ⟨declaration, isPart,
      List.mem_cons_of_mem _ (VariableList.identifier_mem_terminals mem)⟩
  simp only [terminals, braced, List.mem_append, List.mem_cons, listed, true_or, or_true]

/-- A renamed variable means what it meant before. -/
theorem keeps_replacingIn (mem : s ∈ c.subroutines) (fresh : .identifier y ∉ c.terminals)
    (notThis : y ≠ "this") :
    (c.replacingIn x y s).Keeps (fun name => name ≠ y ∧ name ≠ "this") (c.environment s)
      ((c.rename x y).environment (s.respell (c.replacingIn x y s))) := by
  have ofClass : ∀ n ∈ c.declaredNames, n ≠ y := by
    rintro n declared rfl
    exact fresh (identifier_mem_of_declared declared)
  have ofSubroutine : ∀ n ∈ s.declaredNames, n ≠ y := by
    rintro n declared rfl
    exact fresh (subroutine_terminals_subset mem (s.identifier_mem_of_declared declared))
  have ofVariable (name : String) (known : name ≠ y ∧ name ≠ "this") :
      ((c.rename x y).environment (s.respell (c.replacingIn x y s))).lookup?
        (if name = x then y else name) = (c.environment s).lookup? name := by
    have same {n : String} (different : n ≠ y) :
        ((if n = x then y else n) = if name = x then y else name) ↔ n = name := by
      grind
    refine lookup?_respell (fun _ => rfl) (fun _ => rfl) (fun n declared => ?_)
      (fun n declared => ?_) ?_
    · exact same (ofClass n declared)
    · exact same (ofSubroutine n declared)
    · grind
  refine ⟨rfl, ofVariable, fun name known => ?_, fun _ => rfl, fun _ => rfl, fun _ => rfl⟩
  have spelling : (c.replacingIn x y s).ofOwner name =
      if ((c.environment s).lookup? x).isSome = true ∧ name = x then y else name := rfl
  by_cases visible : ((c.environment s).lookup? x).isSome = true
  · -- A visible variable is renamed in front of a dot as anywhere else.
    rw [spelling]
    simp only [visible, true_and]
    refine ⟨ofVariable name known, fun none => if_neg ?_⟩
    rintro rfl
    rw [none] at visible
    cases visible
  · -- If no `x` is visible, then none of the visible declarations is renamed.
    rw [spelling, if_neg fun both => visible both.1]
    refine ⟨?_, fun _ => rfl⟩
    by_cases same : name = x
    · subst same
      rw [isSome_lookup?_iff known.2, not_or] at visible
      refine lookup?_respell (fun _ => rfl) (fun _ => rfl) (fun n declared => ?_)
        (fun n declared => ?_) Iff.rfl
      · have different : n ≠ name := fun same => visible.1 (same ▸ declared)
        simp [Spelling.replacing, different]
      · have different : n ≠ name := fun same => visible.2 (same ▸ declared)
        simp [replacingIn, Spelling.replacing, different]
    · simpa [same] using ofVariable name known

/-- The names inside a subroutine are such that their meaning is kept. -/
theorem known_of_mem (mem : s ∈ c.subroutines) (fresh : .identifier y ∉ c.terminals)
    (noThis : .identifier "this" ∉ c.terminals) :
    ∀ name, .identifier name ∈ Statement.blockTerminals s.body → name ≠ y ∧ name ≠ "this" := by
  intro name inside
  have isToken : .identifier name ∈ c.terminals :=
    subroutine_terminals_subset mem (SubroutineDeclaration.blockTerminals_subset inside)
  exact ⟨fun same => fresh (same ▸ isToken), fun same => noThis (same ▸ isToken)⟩

theorem declarations_rename : (c.rename x y).declarations =
    c.declarations.map (·.respell (.replacing x y false)) :=
  c.declarations_respell (fun _ => rfl) _

/-- **Renaming a variable does not change the code.** -/
theorem code_rename (fresh : .identifier y ∉ c.terminals) (notThis : y ≠ "this")
    (noThis : .identifier "this" ∉ c.terminals) : (c.rename x y).code = c.code := by
  have codeFrom (subroutines : List SubroutineDeclaration) (inside : subroutines ⊆ c.subroutines) :
      ∀ number, (c.rename x y).codeFrom number
        (subroutines.map fun s => s.respell (c.replacingIn x y s)) =
          c.codeFrom number subroutines := by
    induction subroutines with
    | nil => exact fun _ => rfl
    | cons s rest ih =>
      intro number
      obtain ⟨mem, inside⟩ := List.cons_subset.mp inside
      have body := (Statement.listMeaning_respell (keeps_replacingIn (x := x) mem fresh notThis)
        s.body (known_of_mem mem fresh noThis)).2 number
      have fields : (c.rename x y).fields = c.fields := by
        rw [ClassDeclaration.fields, declarations_rename, countOf_map_respell]
        rfl
      have header : (c.rename x y).header (s.respell (c.replacingIn x y s)) = c.header s := by
        rw [ClassDeclaration.header, s.localVariables_respell fun _ => rfl, List.length_map]
        rfl
      have labels := (Statement.listShape_respell (σ := c.replacingIn x y s) s.body).2
      rw [List.map_cons, ClassDeclaration.codeFrom, ClassDeclaration.codeFrom, ih inside,
        ClassDeclaration.subroutineCode, ClassDeclaration.subroutineCode, fields, header]
      simp only [SubroutineDeclaration.respell] at *
      rw [body, labels]
  exact codeFrom c.subroutines (List.Subset.refl _) 0

/-- A class whose variable is renamed still obeys the rules. -/
theorem lawful_rename (fresh : .identifier y ∉ c.terminals) (notThis : y ≠ "this")
    (noThis : .identifier "this" ∉ c.terminals) (lawful : c.Lawful) :
    (c.rename x y).Lawful := by
  have counts (kind : VariableKind) :
      countOf kind (c.rename x y).declarations = countOf kind c.declarations := by
    rw [declarations_rename, countOf_map_respell]
  refine ⟨by rw [counts]; exact lawful.statics, by rw [counts]; exact lawful.fields, ?_⟩
  intro s' mem'
  obtain ⟨s, mem, rfl⟩ := List.mem_map.mp mem'
  have admits := lawful.subroutines s mem
  have body := (Statement.listMeaning_respell (keeps_replacingIn (x := x) mem fresh notThis)
    s.body (known_of_mem mem fresh noThis)).1
  have depth := (Statement.listShape_respell (σ := c.replacingIn x y s) s.body).1
  refine ⟨?_, ?_, ?_, body.mpr admits.body⟩
  · have arguments := congrArg List.length
      (s.arguments_respell (σ := c.replacingIn x y s) (fun _ => rfl) c.name)
    rw [List.length_append, List.length_map, ← List.length_append] at arguments
    exact Nat.le_trans (Nat.le_of_eq arguments) admits.arguments
  · rw [s.localVariables_respell fun _ => rfl, List.length_map]
    exact admits.locals
  · have nesting := admits.nesting
    rw [Statement.blockDepth] at nesting ⊢
    rw [SubroutineDeclaration.respell, depth]
    exact nesting

end ClassDeclaration

end JackCompiler.Grammar
