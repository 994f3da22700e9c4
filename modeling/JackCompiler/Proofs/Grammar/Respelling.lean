import JackCompiler.Proofs.Grammar.Tree
import Mathlib.Data.List.Forall2

/-!
# Trees with other names in them

The names in a tree can be spelled in another way, depending on what they stand for, and so can its
constants. The tree keeps its shape, and the token list that it derives changes at the places of
these names and constants only.

## Main definitions

* `Spelling` — new spellings, by what is spelled
* `Term.respell`, `Statement.respell`, `ClassDeclaration.respell` — trees with new spellings
* `Spelling.Respells` — what may become of a terminal

## Main results

* `ClassDeclaration.terminals_respell` — a token list changes terminal by terminal
-/

namespace JackCompiler.Grammar

/-- New spellings for the names and constants of a tree. -/
structure Spelling where
  /-- Names that are declared, read or assigned to. -/
  ofVariable : String → String := id
  /-- Names in front of a dot. -/
  ofOwner : String → String := id
  /-- Names of subroutines. -/
  ofRoutine : String → String := id
  /-- Names of classes, other than those in front of a dot. -/
  ofType : String → String := id
  ofDigits : String → String := id
  ofContents : List Char → List Char := id

/-! ### Trees with new spellings -/

mutual

/-- A term with new spellings. -/
def Term.respell (σ : Spelling) : Term → Term
  | .integer digits => .integer (σ.ofDigits digits)
  | .string contents => .string (σ.ofContents contents)
  | .constant word => .constant word
  | .named name => .named (σ.ofVariable name)
  | .element array index => .element (σ.ofVariable array) (index.respell σ)
  | .call target => .call (target.respell σ)
  | .parentheses inner => .parentheses (inner.respell σ)
  | .unary operator operand => .unary operator (operand.respell σ)

/-- An expression with new spellings. -/
def Expression.respell (σ : Spelling) : Expression → Expression
  | .single term => .single (term.respell σ)
  | .binary left operator right => .binary (left.respell σ) operator (right.respell σ)

/-- A call with new spellings. -/
def Call.respell (σ : Spelling) : Call → Call
  | .bare name arguments => .bare (σ.ofRoutine name) (Expression.listRespell σ arguments)
  | .qualified owner name arguments =>
    .qualified (σ.ofOwner owner) (σ.ofRoutine name) (Expression.listRespell σ arguments)

/-- Several expressions with new spellings. -/
def Expression.listRespell (σ : Spelling) : List Expression → List Expression
  | [] => []
  | e :: rest => e.respell σ :: Expression.listRespell σ rest

end

mutual

/-- A statement with new spellings. -/
def Statement.respell (σ : Spelling) : Statement → Statement
  | .assign target value => .assign (σ.ofVariable target) (value.respell σ)
  | .assignElement array index value =>
    .assignElement (σ.ofVariable array) (index.respell σ) (value.respell σ)
  | .ifThen condition body => .ifThen (condition.respell σ) (Statement.listRespell σ body)
  | .ifElse condition body otherwise =>
    .ifElse (condition.respell σ) (Statement.listRespell σ body)
      (Statement.listRespell σ otherwise)
  | .loop condition body => .loop (condition.respell σ) (Statement.listRespell σ body)
  | .discard target => .discard (target.respell σ)
  | .giveBack value => .giveBack (value.map (·.respell σ))

/-- Several statements with new spellings. -/
def Statement.listRespell (σ : Spelling) : List Statement → List Statement
  | [] => []
  | statement :: rest => statement.respell σ :: Statement.listRespell σ rest

end

/-- A type with new spellings. -/
def TypeName.respell (σ : Spelling) : TypeName → TypeName
  | .named className => .named (σ.ofType className)
  | type => type

/-- A list of variables with new spellings. -/
def VariableList.respell (σ : Spelling) (list : VariableList) : VariableList where
  type := list.type.respell σ
  first := σ.ofVariable list.first
  others := list.others.map σ.ofVariable

/-- A declaration of class variables with new spellings. -/
def ClassVariables.respell (σ : Spelling) (declaration : ClassVariables) : ClassVariables where
  isStatic := declaration.isStatic
  list := declaration.list.respell σ

/-- A parameter with new spellings. -/
def Parameter.respell (σ : Spelling) (parameter : Parameter) : Parameter where
  type := parameter.type.respell σ
  name := σ.ofVariable parameter.name

/-- A subroutine with new spellings. -/
def SubroutineDeclaration.respell (σ : Spelling) (s : SubroutineDeclaration) :
    SubroutineDeclaration where
  kind := s.kind
  returnType := s.returnType.map (·.respell σ)
  name := σ.ofRoutine s.name
  parameters := s.parameters.map (·.respell σ)
  locals := s.locals.map (·.respell σ)
  body := Statement.listRespell σ s.body

/-- A class with new spellings, which may be others in each of its subroutines. -/
def ClassDeclaration.respell (σ : Spelling) (inside : SubroutineDeclaration → Spelling)
    (c : ClassDeclaration) : ClassDeclaration where
  name := σ.ofType c.name
  classVariables := c.classVariables.map (·.respell σ)
  subroutines := c.subroutines.map fun s => s.respell (inside s)

theorem Expression.listRespell_eq_map (σ : Spelling) (es : List Expression) :
    Expression.listRespell σ es = es.map (·.respell σ) := by
  induction es with
  | nil => rfl
  | cons e es ih => rw [Expression.listRespell, ih, List.map_cons]

/-! ### The token lists -/

/-- The characters that stand for themselves in the productions. -/
def marks : List Char :=
  [openingBrace, closingBrace, '(', ')', '[', ']', '.', ',', ';', '=', '+', '-', '*', '/', '&', '|',
    '<', '>', '~']

theorem operator_mem_marks (operator : BinaryOperator) : operator.symbol ∈ marks := by
  cases operator <;> decide

theorem sign_mem_marks (operator : UnaryOperator) : operator.symbol ∈ marks := by
  cases operator <;> decide

/-- What may become of a terminal. -/
inductive Spelling.Respells (σ : Spelling) : Terminal → Terminal → Prop where
  | keyword (word : Keyword) : Respells σ (.keyword word) (.keyword word)
  | mark {c : Char} (isMark : c ∈ marks) : Respells σ (.symbol c) (.symbol c)
  | ofVariable (name : String) :
    Respells σ (.identifier name) (.identifier (σ.ofVariable name))
  | ofOwner (name : String) : Respells σ (.identifier name) (.identifier (σ.ofOwner name))
  | ofRoutine (name : String) : Respells σ (.identifier name) (.identifier (σ.ofRoutine name))
  | ofType (name : String) : Respells σ (.identifier name) (.identifier (σ.ofType name))
  | ofDigits (digits : String) : Respells σ (.integer digits) (.integer (σ.ofDigits digits))
  | ofContents (contents : List Char) :
    Respells σ (.string contents) (.string (σ.ofContents contents))

section Terminals

variable {R : Terminal → Terminal → Prop} {ts us : List Terminal}

section Marks

variable (mark : ∀ {c}, c ∈ marks → R (.symbol c) (.symbol c))

include mark

theorem forall₂_behindCommas {pieces pieces' : List (List Terminal)}
    (each : List.Forall₂ (List.Forall₂ R) pieces pieces') :
    List.Forall₂ R (behindCommas pieces) (behindCommas pieces') := by
  induction each with
  | nil => exact .nil
  | cons first _ ih => exact List.rel_append (.cons (mark (by decide)) first) ih

theorem forall₂_commaSeparated {pieces pieces' : List (List Terminal)}
    (each : List.Forall₂ (List.Forall₂ R) pieces pieces') :
    List.Forall₂ R (commaSeparated pieces) (commaSeparated pieces') := by
  cases each with
  | nil => exact .nil
  | cons first rest => exact List.rel_append first (forall₂_behindCommas mark rest)

theorem forall₂_parenthesized (inside : List.Forall₂ R ts us) :
    List.Forall₂ R (parenthesized ts) (parenthesized us) :=
  List.rel_append (.cons (mark (by decide)) inside) (.cons (mark (by decide)) .nil)

theorem forall₂_braced (inside : List.Forall₂ R ts us) : List.Forall₂ R (braced ts) (braced us) :=
  List.rel_append (.cons (mark (by decide)) inside) (.cons (mark (by decide)) .nil)

end Marks

/-- Lists of parts are related if each part is. -/
theorem forall₂_flatMap {α : Type} {items : List α} {f g : α → List Terminal}
    (each : ∀ a ∈ items, List.Forall₂ R (f a) (g a)) :
    List.Forall₂ R (items.flatMap f) (items.flatMap g) := by
  induction items with
  | nil => exact .nil
  | cons a items ih =>
    rw [List.forall_mem_cons] at each
    exact List.rel_append each.1 (ih each.2)

theorem forall₂_map {α : Type} (items : List α) {f g : α → List Terminal}
    (each : ∀ a, List.Forall₂ R (f a) (g a)) :
    List.Forall₂ (List.Forall₂ R) (items.map f) (items.map g) := by
  induction items with
  | nil => exact .nil
  | cons a items ih => exact .cons (each a) ih

end Terminals

variable {σ : Spelling}

/-- A mark behind a phrase. -/
theorem forall₂_mark {ts us : List Terminal} {c : Char} (front : List.Forall₂ σ.Respells ts us)
    (isMark : c ∈ marks) : List.Forall₂ σ.Respells (ts ++ [.symbol c]) (us ++ [.symbol c]) :=
  List.rel_append front (.cons (.mark isMark) .nil)

mutual

theorem Term.terminals_respell :
    ∀ t : Term, List.Forall₂ σ.Respells t.terminals (t.respell σ).terminals
  | .integer digits => .cons (.ofDigits digits) .nil
  | .string contents => .cons (.ofContents contents) .nil
  | .constant _ => .cons (.keyword _) .nil
  | .named name => .cons (.ofVariable name) .nil
  | .element array index =>
    forall₂_mark (.cons (.ofVariable array) (.cons (.mark (by decide)) index.terminals_respell))
      (by decide)
  | .call target => target.terminals_respell
  | .parentheses inner => forall₂_parenthesized .mark inner.terminals_respell
  | .unary operator operand => .cons (.mark (sign_mem_marks operator)) operand.terminals_respell

theorem Expression.terminals_respell :
    ∀ e : Expression, List.Forall₂ σ.Respells e.terminals (e.respell σ).terminals
  | .single term => term.terminals_respell
  | .binary left operator right => List.rel_append left.terminals_respell
      (.cons (.mark (operator_mem_marks operator)) right.terminals_respell)

theorem Call.terminals_respell :
    ∀ target : Call, List.Forall₂ σ.Respells target.terminals (target.respell σ).terminals
  | .bare name arguments =>
    .cons (.ofRoutine name) <| forall₂_parenthesized .mark <| forall₂_commaSeparated .mark <|
      Expression.pieces_respell arguments
  | .qualified owner name arguments =>
    .cons (.ofOwner owner) <| .cons (.mark (by decide)) <| .cons (.ofRoutine name) <|
      forall₂_parenthesized .mark <| forall₂_commaSeparated .mark <|
        Expression.pieces_respell arguments

theorem Expression.pieces_respell : ∀ es : List Expression,
    List.Forall₂ (List.Forall₂ σ.Respells) (Expression.pieces es)
      (Expression.pieces (Expression.listRespell σ es))
  | [] => .nil
  | e :: rest => .cons e.terminals_respell (Expression.pieces_respell rest)

end

theorem terminals_respell_returned (value : Option Expression) :
    List.Forall₂ σ.Respells (returnedTerminals value)
      (returnedTerminals (value.map (·.respell σ))) := by
  cases value with
  | none => exact .nil
  | some e => exact e.terminals_respell

mutual

theorem Statement.terminals_respell : ∀ statement : Statement,
    List.Forall₂ σ.Respells statement.terminals (statement.respell σ).terminals
  | .assign target value =>
    forall₂_mark (.cons (.keyword _) <| .cons (.ofVariable target) <|
      .cons (.mark (by decide)) value.terminals_respell) (by decide)
  | .assignElement array index value =>
    forall₂_mark (List.rel_append (.cons (.keyword _) <| .cons (.ofVariable array) <|
      .cons (.mark (by decide)) index.terminals_respell) <| .cons (.mark (by decide)) <|
        .cons (.mark (by decide)) value.terminals_respell) (by decide)
  | .ifThen condition body =>
    List.rel_append (.cons (.keyword _) (forall₂_parenthesized .mark condition.terminals_respell))
      (forall₂_braced .mark (Statement.blockTerminals_respell body))
  | .ifElse condition body otherwise =>
    List.rel_append (List.rel_append (.cons (.keyword _)
      (forall₂_parenthesized .mark condition.terminals_respell))
        (forall₂_braced .mark (Statement.blockTerminals_respell body)))
      (.cons (.keyword _) (forall₂_braced .mark (Statement.blockTerminals_respell otherwise)))
  | .loop condition body =>
    List.rel_append (.cons (.keyword _) (forall₂_parenthesized .mark condition.terminals_respell))
      (forall₂_braced .mark (Statement.blockTerminals_respell body))
  | .discard target => forall₂_mark (.cons (.keyword _) target.terminals_respell) (by decide)
  | .giveBack value =>
    forall₂_mark (.cons (.keyword _) (terminals_respell_returned value)) (by decide)

theorem Statement.blockTerminals_respell : ∀ body : List Statement,
    List.Forall₂ σ.Respells (Statement.blockTerminals body)
      (Statement.blockTerminals (Statement.listRespell σ body))
  | [] => .nil
  | statement :: rest =>
    List.rel_append statement.terminals_respell (Statement.blockTerminals_respell rest)

end

theorem TypeName.terminal_respell (type : TypeName) :
    σ.Respells type.terminal (type.respell σ).terminal := by
  cases type with
  | named className => exact .ofType className
  | int | char | boolean => exact .keyword _

theorem VariableList.names_respell (list : VariableList) :
    (list.respell σ).names = list.names.map σ.ofVariable := rfl

theorem VariableList.terminals_respell (list : VariableList) :
    List.Forall₂ σ.Respells list.terminals (list.respell σ).terminals := by
  rw [terminals, terminals, names_respell, List.map_map]
  refine forall₂_mark (.cons list.type.terminal_respell (forall₂_commaSeparated .mark ?_))
    (by decide)
  exact forall₂_map list.names fun name => .cons (.ofVariable name) .nil

theorem ClassVariables.terminals_respell (declaration : ClassVariables) :
    List.Forall₂ σ.Respells declaration.terminals (declaration.respell σ).terminals :=
  .cons (.keyword _) declaration.list.terminals_respell

theorem SubroutineDeclaration.terminals_respell (s : SubroutineDeclaration) :
    List.Forall₂ σ.Respells s.terminals (s.respell σ).terminals := by
  have returned : σ.Respells (returnTypeTerminal s.returnType)
      (returnTypeTerminal (s.respell σ).returnType) := by
    rw [respell]
    cases s.returnType with
    | none => exact .keyword _
    | some type => exact type.terminal_respell
  have parameters : List.Forall₂ (List.Forall₂ σ.Respells)
      (s.parameters.map Parameter.terminals)
      ((s.respell σ).parameters.map Parameter.terminals) := by
    rw [respell, List.map_map]
    exact forall₂_map s.parameters fun parameter =>
      .cons parameter.type.terminal_respell (.cons (.ofVariable parameter.name) .nil)
  have locals : List.Forall₂ σ.Respells (s.locals.flatMap localTerminals)
      ((s.respell σ).locals.flatMap localTerminals) := by
    rw [respell, List.flatMap_map]
    exact forall₂_flatMap fun list _ => .cons (.keyword _) list.terminals_respell
  exact .cons (.keyword _) <| .cons returned <| .cons (.ofRoutine s.name) <| List.rel_append
    (forall₂_parenthesized .mark (forall₂_commaSeparated .mark parameters))
    (forall₂_braced .mark (List.rel_append locals (Statement.blockTerminals_respell s.body)))

/-- **A token list changes terminal by terminal.** Each terminal of a class is spelled as the class
demands or as the subroutine demands that it stands in. -/
theorem ClassDeclaration.terminals_respell (inside : SubroutineDeclaration → Spelling)
    (c : ClassDeclaration) {R : Terminal → Terminal → Prop}
    (ofClass : ∀ {t u}, σ.Respells t u → R t u)
    (ofSubroutine : ∀ s ∈ c.subroutines, ∀ {t u}, (inside s).Respells t u → R t u) :
    List.Forall₂ R c.terminals (c.respell σ inside).terminals := by
  refine .cons (ofClass (.keyword _)) (.cons (ofClass (.ofType c.name))
    (forall₂_braced (fun isMark => ofClass (.mark isMark)) ?_))
  rw [respell, List.flatMap_map, List.flatMap_map]
  exact List.rel_append
    (forall₂_flatMap fun declaration _ => declaration.terminals_respell.imp fun _ _ => ofClass)
    (forall₂_flatMap fun s mem => s.terminals_respell.imp fun _ _ => ofSubroutine s mem)

end JackCompiler.Grammar
