import JackCompiler.Proofs.Grammar.Tree

/-!
# What names mean

A name means the latest declaration of it in the subroutine, or else the latest one in the class.
The index of a variable counts the declarations of its kind before it, whatever names they declare.
Lists of declarations are kept with the latest first, so that what is behind a declaration in a list
came before it in the source.

## Main definitions

* `Declaration`, `latest?` — declarations, and what a name means after some of them
* `Environment` — what the code of a subroutine depends on
* `tableOf`, `declareAll?` — the variable table that holds given declarations, and further ones

## Main results

* `declareAll?_class`, `declareAll?_subroutine`, `lookup?_tableOf` — a table stands for the
  declarations it holds
-/

namespace JackCompiler.Grammar

/-- A name that is declared, with its type and kind. -/
structure Declaration where
  name : String
  type : String
  kind : VariableKind
deriving DecidableEq, Repr, Inhabited

/-- The number of declarations of a kind. -/
def countOf (kind : VariableKind) (declarations : List Declaration) : Nat :=
  declarations.countP (·.kind = kind)

/-- The variable that a declaration makes behind earlier ones. -/
def Declaration.variable (declaration : Declaration) (earlier : List Declaration) : Variable where
  type := declaration.type
  kind := declaration.kind
  index := countOf declaration.kind earlier

/-- The variable that a name means after some declarations, of which the latest comes first. -/
def latest? (name : String) : List Declaration → Option Variable
  | [] => none
  | declaration :: earlier =>
    if declaration.name = name then some (declaration.variable earlier) else latest? name earlier

/-- A name means something as soon as it is declared. -/
theorem isSome_latest?_iff {name : String} {declarations : List Declaration} :
    (latest? name declarations).isSome ↔ name ∈ declarations.map Declaration.name := by
  induction declarations with
  | nil => simp [latest?]
  | cons declaration earlier ih =>
    by_cases same : declaration.name = name
    · simp [latest?, same]
    · simp [latest?, same, ih, Ne.symm same]

/-- What the code of a subroutine depends on besides its own text. -/
structure Environment where
  className : String
  lookup? : String → Option Variable

/-- The name of a type. -/
def TypeName.text : TypeName → String
  | .int => "int"
  | .char => "char"
  | .boolean => "boolean"
  | .named className => className

/-- The declarations of a list of variables, in order. -/
def VariableList.declarations (list : VariableList) (kind : VariableKind) : List Declaration :=
  list.names.map fun name => { name, type := list.type.text, kind }

/-- The kind of class variables. -/
def ClassVariables.kind (declaration : ClassVariables) : VariableKind :=
  if declaration.isStatic then .static else .field

/-- The declarations of a class, in order. -/
def ClassDeclaration.declarations (c : ClassDeclaration) : List Declaration :=
  c.classVariables.flatMap fun declaration => declaration.list.declarations declaration.kind

/-- The object that a method is called on, as an argument. No identifier is spelled like its name,
so that no name in a source means it. -/
def receiver (className : String) : Declaration where
  name := "this"
  type := className
  kind := .argument

/-- The declaration of a parameter. -/
def Parameter.declaration (parameter : Parameter) : Declaration where
  name := parameter.name
  type := parameter.type.text
  kind := .argument

/-- The arguments of a subroutine, in order. The receiver of a method is the first. -/
def SubroutineDeclaration.arguments (s : SubroutineDeclaration) (className : String) :
    List Declaration :=
  (if s.kind = .method then [receiver className] else []) ++
    s.parameters.map Parameter.declaration

/-- The local variables of a subroutine, in order. -/
def SubroutineDeclaration.localVariables (s : SubroutineDeclaration) : List Declaration :=
  s.locals.flatMap (·.declarations .«local»)

/-- The declarations of a subroutine, in order. -/
def SubroutineDeclaration.declarations (s : SubroutineDeclaration) (className : String) :
    List Declaration :=
  s.arguments className ++ s.localVariables

/-- The environment of a subroutine of a class. -/
def ClassDeclaration.environment (c : ClassDeclaration) (s : SubroutineDeclaration) :
    Environment where
  className := c.name
  lookup? name := (latest? name (s.declarations c.name).reverse).or
    (latest? name c.declarations.reverse)

/-! ### Tables of declarations -/

@[simp] theorem countOf_nil (kind : VariableKind) : countOf kind [] = 0 := rfl

@[simp] theorem countOf_cons (kind : VariableKind) (declaration : Declaration)
    (earlier : List Declaration) : countOf kind (declaration :: earlier) =
      countOf kind earlier + if declaration.kind = kind then 1 else 0 := by
  simp [countOf, List.countP_cons]

@[simp] theorem countOf_append (kind : VariableKind) (some others : List Declaration) :
    countOf kind (some ++ others) = countOf kind some + countOf kind others := by
  simp [countOf]

@[simp] theorem countOf_reverse (kind : VariableKind) (declarations : List Declaration) :
    countOf kind declarations.reverse = countOf kind declarations := by
  simp [countOf]

/-- The index of a variable is below the number of declarations of its kind. -/
theorem index_lt_of_latest? {name : String} {v : Variable} {declarations : List Declaration}
    (found : latest? name declarations = some v) : v.index < countOf v.kind declarations := by
  induction declarations with
  | nil => simp [latest?] at found
  | cons declaration earlier ih =>
    rw [latest?] at found
    split at found
    · obtain rfl := Option.some.inj found
      simp [Declaration.variable]
    · exact Nat.lt_of_lt_of_le (ih found) (by simp)

/-- A scope after some declarations, of which the latest comes first. -/
def scopeOf : List Declaration → Scope
  | [] => .empty
  | declaration :: earlier =>
    (scopeOf earlier).insert declaration.name (declaration.variable earlier)

theorem find?_scopeOf (name : String) (declarations : List Declaration) :
    (scopeOf declarations).find? name = latest? name declarations := by
  induction declarations with
  | nil => rfl
  | cons declaration earlier ih => rw [scopeOf, Scope.find?_insert, ih, latest?]

/-- The table after declarations of a class and then of a subroutine. -/
def tableOf (ofClass ofSubroutine : List Declaration) : VariableTable where
  classScope := scopeOf ofClass
  subroutineScope := scopeOf ofSubroutine
  counts := {
    statics := countOf .static ofClass
    fields := countOf .field ofClass
    arguments := countOf .argument ofSubroutine
    locals := countOf .«local» ofSubroutine }

theorem tableOf_nil : tableOf [] [] = {} := rfl

theorem startSubroutine_tableOf (ofClass ofSubroutine : List Declaration) :
    (tableOf ofClass ofSubroutine).startSubroutine = tableOf ofClass [] := rfl

theorem lookup?_tableOf (ofClass ofSubroutine : List Declaration) (name : String) :
    (tableOf ofClass ofSubroutine).lookup? name =
      (latest? name ofSubroutine).or (latest? name ofClass) := by
  simp [VariableTable.lookup?, tableOf, find?_scopeOf]

theorem count_tableOf_class {kind : VariableKind} (inClass : kind.inClassScope = true)
    (ofClass ofSubroutine : List Declaration) :
    (tableOf ofClass ofSubroutine).count kind = countOf kind ofClass := by
  cases kind <;> first | rfl | cases inClass

theorem count_tableOf_subroutine {kind : VariableKind} (inClass : kind.inClassScope = false)
    (ofClass ofSubroutine : List Declaration) :
    (tableOf ofClass ofSubroutine).count kind = countOf kind ofSubroutine := by
  cases kind <;> first | rfl | cases inClass

/-- A declaration of a class is taken while its kind has an index left. -/
theorem declare?_tableOf_class {name type : String} {kind : VariableKind}
    (inClass : kind.inClassScope = true) (ofClass ofSubroutine : List Declaration) :
    (tableOf ofClass ofSubroutine).declare? name type kind =
      if countOf kind ofClass < maxOperand then
        some (Declaration.variable { name, type, kind } ofClass,
          tableOf ({ name, type, kind } :: ofClass) ofSubroutine)
      else none := by
  rw [VariableTable.declare?, count_tableOf_class inClass]
  -- The two kinds differ only in the counter that goes up.
  cases kind with
  | static | field =>
    simp [tableOf, scopeOf, Declaration.variable, VariableCounts.increment,
      VariableKind.inClassScope]
  | argument | «local» => cases inClass

/-- A declaration of a subroutine is taken while its kind has an index left. -/
theorem declare?_tableOf_subroutine {name type : String} {kind : VariableKind}
    (inClass : kind.inClassScope = false) (ofClass ofSubroutine : List Declaration) :
    (tableOf ofClass ofSubroutine).declare? name type kind =
      if countOf kind ofSubroutine < maxOperand then
        some (Declaration.variable { name, type, kind } ofSubroutine,
          tableOf ofClass ({ name, type, kind } :: ofSubroutine))
      else none := by
  rw [VariableTable.declare?, count_tableOf_subroutine inClass]
  cases kind with
  | argument | «local» =>
    simp [tableOf, scopeOf, Declaration.variable, VariableCounts.increment,
      VariableKind.inClassScope]
  | static | field => cases inClass

/-- The table after further declarations, if each of them has an index left. -/
def declareAll? (table : VariableTable) : List Declaration → Option VariableTable
  | [] => some table
  | d :: later => (table.declare? d.name d.type d.kind).bind fun (_, after) =>
      declareAll? after later

theorem declareAll?_append (first later : List Declaration) (table : VariableTable) :
    declareAll? table (first ++ later) =
      (declareAll? table first).bind fun after => declareAll? after later := by
  induction first generalizing table with
  | nil => rfl
  | cons d first ih =>
    cases declared : table.declare? d.name d.type d.kind with
    | none => simp [declareAll?, declared]
    | some result => simp [declareAll?, declared, ih]

/-- Declarations in one scope are taken while the kind of each has an index left. -/
private theorem declareAll?_of_declare? {place : List Declaration → VariableTable}
    {inClass : Bool} (each : ∀ (d : Declaration) earlier, d.kind.inClassScope = inClass →
      (place earlier).declare? d.name d.type d.kind =
        if countOf d.kind earlier < maxOperand then
          some (d.variable earlier, place (d :: earlier))
        else none)
    {table : VariableTable} {later : List Declaration} :
    ∀ {earlier : List Declaration}, (∀ d ∈ later, d.kind.inClassScope = inClass) →
      (∀ kind, countOf kind earlier ≤ maxOperand) →
      (declareAll? (place earlier) later = some table ↔
        (∀ kind, countOf kind later + countOf kind earlier ≤ maxOperand) ∧
          table = place (later.reverse ++ earlier)) := by
  -- The declarations that are already held grow from round to round, so they are a variable of the
  -- induction.
  induction later with
  | nil =>
    intro earlier _ few
    simp [declareAll?, few, eq_comm]
  | cons d later ih =>
    intro earlier scopes few
    rw [declareAll?, each d earlier (scopes d (by simp))]
    by_cases room : countOf d.kind earlier < maxOperand
    · -- Only the count of the kind that was declared has grown, and it had room.
      have fewer (kind : VariableKind) : countOf kind (d :: earlier) ≤ maxOperand := by
        have := few kind
        rw [countOf_cons]
        split
        · rename_i same
          subst same
          omega
        · omega
      have rest := ih (fun d' mem => scopes d' (by simp [mem])) fewer
      simp only [room, if_true, Option.bind_some, rest, List.reverse_cons, List.append_assoc,
        List.singleton_append, countOf_cons, Nat.add_assoc, Nat.add_comm, Nat.add_left_comm]
    · simp only [room, if_false, Option.bind_none, reduceCtorEq, false_iff, not_and]
      -- A kind that is full already cannot stay within the limit with one more.
      intro total
      have := total d.kind
      simp only [countOf_cons, if_true] at this
      omega

theorem declareAll?_class {table : VariableTable} {later earlier ofSubroutine : List Declaration}
    (inClass : ∀ d ∈ later, d.kind.inClassScope = true)
    (few : ∀ kind, countOf kind earlier ≤ maxOperand) :
    declareAll? (tableOf earlier ofSubroutine) later = some table ↔
      (∀ kind, countOf kind later + countOf kind earlier ≤ maxOperand) ∧
        table = tableOf (later.reverse ++ earlier) ofSubroutine :=
  declareAll?_of_declare? (fun _ earlier inClass =>
    declare?_tableOf_class inClass earlier ofSubroutine) inClass few

theorem declareAll?_subroutine {table : VariableTable} {later earlier ofClass : List Declaration}
    (inSubroutine : ∀ d ∈ later, d.kind.inClassScope = false)
    (few : ∀ kind, countOf kind earlier ≤ maxOperand) :
    declareAll? (tableOf ofClass earlier) later = some table ↔
      (∀ kind, countOf kind later + countOf kind earlier ≤ maxOperand) ∧
        table = tableOf ofClass (later.reverse ++ earlier) :=
  declareAll?_of_declare? (fun _ earlier inSubroutine =>
    declare?_tableOf_subroutine inSubroutine ofClass earlier) inSubroutine few

/-! ### The declarations of classes and subroutines -/

namespace ClassDeclaration

variable {c : ClassDeclaration}

theorem inClassScope_of_mem {d : Declaration} (mem : d ∈ c.declarations) :
    d.kind.inClassScope = true := by
  obtain ⟨declaration, -, mem⟩ := List.mem_flatMap.mp mem
  obtain ⟨name, -, rfl⟩ := List.mem_map.mp mem
  cases h : declaration.isStatic <;> simp [ClassVariables.kind, h, VariableKind.inClassScope]

/-- A class declares no arguments and no local variables. -/
theorem countOf_declarations {kind : VariableKind} (inSubroutine : kind.inClassScope = false) :
    countOf kind c.declarations = 0 := by
  refine List.countP_eq_zero.mpr fun d mem same => ?_
  rw [decide_eq_true_iff] at same
  simp [← same, inClassScope_of_mem mem] at inSubroutine

end ClassDeclaration

namespace SubroutineDeclaration

variable {s : SubroutineDeclaration} {className : String} {d : Declaration}

theorem kind_of_mem_arguments (mem : d ∈ s.arguments className) : d.kind = .argument := by
  obtain mem | mem := List.mem_append.mp mem
  · split at mem
    · obtain rfl := List.mem_singleton.mp mem
      rfl
    · cases mem
  · obtain ⟨parameter, -, rfl⟩ := List.mem_map.mp mem
    rfl

theorem kind_of_mem_localVariables (mem : d ∈ s.localVariables) : d.kind = .«local» := by
  obtain ⟨list, -, mem⟩ := List.mem_flatMap.mp mem
  obtain ⟨name, -, rfl⟩ := List.mem_map.mp mem
  rfl

theorem inClassScope_of_mem (mem : d ∈ s.declarations className) :
    d.kind.inClassScope = false := by
  obtain mem | mem := List.mem_append.mp mem
  · rw [kind_of_mem_arguments mem]
    rfl
  · rw [kind_of_mem_localVariables mem]
    rfl

/-- The declarations of a subroutine are its arguments and its local variables. -/
theorem countOf_declarations (s : SubroutineDeclaration) (className : String)
    (kind : VariableKind) : countOf kind (s.declarations className) =
      match kind with
      | .argument => (s.arguments className).length
      | .«local» => s.localVariables.length
      | _ => 0 := by
  -- In a list of one kind, either all declarations count or none do.
  have ofKind {kind kind' : VariableKind} {ds : List Declaration}
      (all : ∀ d ∈ ds, d.kind = kind') :
      countOf kind ds = if kind' = kind then ds.length else 0 := by
    split
    · exact List.countP_eq_length.mpr fun d mem => by simpa [all d mem]
    · exact List.countP_eq_zero.mpr fun d mem => by simpa [all d mem]
  rw [declarations, countOf_append, ofKind fun _ => kind_of_mem_arguments,
    ofKind fun _ => kind_of_mem_localVariables]
  cases kind <;> simp

end SubroutineDeclaration

/-- The table after the declarations of a subroutine tells what names mean in it. -/
theorem lookup?_environment (c : ClassDeclaration) (s : SubroutineDeclaration) :
    (tableOf c.declarations.reverse (s.declarations c.name).reverse).lookup? =
      (c.environment s).lookup? :=
  funext (lookup?_tableOf _ _)

end JackCompiler.Grammar
