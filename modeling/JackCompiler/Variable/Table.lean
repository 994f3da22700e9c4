import JackCompiler.Variable.Scope

/-!
# Tables of the visible variables

A table has two scopes. The declarations of a class stay while its subroutines come and go; those
of a subroutine hide them. A name that is declared again in one scope means its latest declaration,
and each declaration uses up an index, whether its name is new or not.

## Main definitions

* `VariableTable` — the declarations of both scopes
* `VariableTable.startClass`, `VariableTable.startSubroutine`, `VariableTable.declare?` — how it
  changes
* `VariableTable.lookup?`, `VariableTable.count` — what it tells
* `VariableTable.kindOf?`, `VariableTable.typeOf?`, `VariableTable.indexOf?` — what it tells of a
  name, one by one
-/

namespace JackCompiler

/-- The number of declarations of each kind. -/
structure VariableCounts where
  statics : Nat := 0
  fields : Nat := 0
  arguments : Nat := 0
  locals : Nat := 0
deriving DecidableEq, Repr, Inhabited

namespace VariableCounts

/-- The number of declarations of a kind. -/
def get (counts : VariableCounts) : VariableKind → Nat
  | .static => counts.statics
  | .field => counts.fields
  | .argument => counts.arguments
  | .«local» => counts.locals

/-- One more declaration of a kind. -/
def increment (counts : VariableCounts) : VariableKind → VariableCounts
  | .static => { counts with statics := counts.statics + 1 }
  | .field => { counts with fields := counts.fields + 1 }
  | .argument => { counts with arguments := counts.arguments + 1 }
  | .«local» => { counts with locals := counts.locals + 1 }

@[simp] theorem get_increment (counts : VariableCounts) (kind other : VariableKind) :
    (counts.increment kind).get other = counts.get other + if other = kind then 1 else 0 := by
  cases kind <;> cases other <;> rfl

end VariableCounts

/-- The declarations that are visible. -/
structure VariableTable where
  classScope : Scope := .empty
  subroutineScope : Scope := .empty
  counts : VariableCounts := {}
deriving DecidableEq, Repr, Inhabited

namespace VariableTable

/-- The number of declarations of a kind. -/
def count (table : VariableTable) (kind : VariableKind) : Nat :=
  table.counts.get kind

/-- The table at the start of a class: nothing is declared. -/
def startClass (_table : VariableTable) : VariableTable := {}

/-- The table at the start of a subroutine: the arguments and local variables of the one before are
gone. -/
def startSubroutine (table : VariableTable) : VariableTable where
  classScope := table.classScope
  subroutineScope := .empty
  counts := { table.counts with arguments := 0, locals := 0 }

/-- Declares a name under the next index of its kind. An instruction cannot address more variables
of a kind than `maxOperand`; beyond that there is no declaration. -/
def declare? (table : VariableTable) (name type : String) (kind : VariableKind) :
    Option (Variable × VariableTable) :=
  let v : Variable := { type, kind, index := table.count kind }
  if table.count kind < maxOperand then
    let counts := table.counts.increment kind
    if kind.inClassScope then
      some (v, { table with classScope := table.classScope.insert name v, counts })
    else
      some (v, { table with subroutineScope := table.subroutineScope.insert name v, counts })
  else none

/-- The variable that a name means: one of the subroutine before one of the class. -/
def lookup? (table : VariableTable) (name : String) : Option Variable :=
  (table.subroutineScope.find? name).or (table.classScope.find? name)

/-- The kind of the variable that a name means. -/
def kindOf? (table : VariableTable) (name : String) : Option VariableKind :=
  (table.lookup? name).map (·.kind)

/-- The type of the variable that a name means. -/
def typeOf? (table : VariableTable) (name : String) : Option String :=
  (table.lookup? name).map (·.type)

/-- The index of the variable that a name means. -/
def indexOf? (table : VariableTable) (name : String) : Option Nat :=
  (table.lookup? name).map (·.index)

/-- There is room for a declaration as long as an index is left for it. -/
theorem declare?_isSome_iff {table : VariableTable} {name type : String} {kind : VariableKind} :
    (table.declare? name type kind).isSome ↔ table.count kind < maxOperand := by
  grind [declare?]

/-- A declaration takes the next index of its kind. -/
theorem index_of_declare? {table table' : VariableTable} {name type : String} {kind : VariableKind}
    {v : Variable} (h : table.declare? name type kind = some (v, table')) :
    v = { type, kind, index := table.count kind } := by
  grind [declare?]

/-- A declaration counts for its own kind only. -/
theorem count_of_declare? {table table' : VariableTable} {name type : String} {kind : VariableKind}
    {v : Variable} (h : table.declare? name type kind = some (v, table')) (other : VariableKind) :
    table'.count other = table.count other + if other = kind then 1 else 0 := by
  grind [declare?, count, VariableCounts.get_increment]

end VariableTable

end JackCompiler
