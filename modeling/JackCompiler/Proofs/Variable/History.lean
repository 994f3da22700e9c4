import JackCompiler.Variable.Table

/-!
# Histories of variable tables

A table keeps two scopes and four counters, and it does not keep how they came about. Its history
does: it lists what the table was asked for and what each request has come to. Everything that a
table tells can be read off its history, by looking back to the last event that has cleared the
scope in question.

## Main definitions

* `TableRequest`, `TableEvent` — what a table is asked for, and what a request has come to
* `VariableTable.serve`, `VariableTable.serveAll` — requests, and the history that they leave behind
* `TableHistory.declarations`, `TableHistory.latest?` — how many declarations of a kind there have
  been, and the latest one of a name
* `VariableTable.Tells` — what a table tells, said by its history

## Main results

* `VariableTable.Records.serve` — every request keeps a table in line with its history
* `VariableTable.tells_history` — after any requests a table tells its history
-/

namespace JackCompiler

/-- What a table can be asked for. -/
inductive TableRequest where
  | startClass
  | startSubroutine
  | declare (name type : String) (kind : VariableKind)
deriving DecidableEq, Repr, Inhabited

/-- What a request to a table has come to. -/
inductive TableEvent where
  | classStarted
  | subroutineStarted
  | declared (name : String) (v : Variable)
  /-- There was no index left for a declaration. -/
  | refused (name type : String) (kind : VariableKind)
deriving DecidableEq, Repr, Inhabited

namespace TableEvent

/-- Whether an event clears the class scope or the subroutine scope. -/
def clears (inClass : Bool) : TableEvent → Bool
  | .classStarted => true
  | .subroutineStarted => !inClass
  | .declared _ _ | .refused _ _ _ => false

/-- Whether an event is a declaration of the given kind that was not refused. -/
def declares (kind : VariableKind) : TableEvent → Bool
  | .declared _ v => v.kind = kind
  | .classStarted | .subroutineStarted | .refused _ _ _ => false

/-- The variable that an event declares under the given name in the class scope or in the subroutine
scope. -/
def declared? (inClass : Bool) (name : String) : TableEvent → Option Variable
  | .declared other v => if other = name ∧ v.kind.inClassScope = inClass then some v else none
  | .classStarted | .subroutineStarted | .refused _ _ _ => none

end TableEvent

/-- The events of a table, the latest first. -/
abbrev TableHistory := List TableEvent

namespace TableHistory

/-- The events since the last one that has cleared a scope. -/
def since (inClass : Bool) (history : TableHistory) : TableHistory :=
  history.takeWhile (!·.clears inClass)

/-- The number of declarations of a kind since its scope was cleared. -/
def declarations (kind : VariableKind) (history : TableHistory) : Nat :=
  (history.since kind.inClassScope).countP (·.declares kind)

/-- The latest declaration of a name in a scope since the scope was cleared. -/
def latest? (inClass : Bool) (name : String) (history : TableHistory) : Option Variable :=
  (history.since inClass).findSome? (·.declared? inClass name)

section Events

variable {inClass : Bool} {name other type : String} {kind : VariableKind} {v : Variable}
  {history : TableHistory}

@[simp] theorem declarations_nil : declarations kind [] = 0 := rfl

@[simp] theorem declarations_classStarted : declarations kind (.classStarted :: history) = 0 := rfl

@[simp] theorem declarations_subroutineStarted :
    declarations kind (.subroutineStarted :: history) =
      if kind.inClassScope then declarations kind history else 0 := by
  cases scope : kind.inClassScope <;>
    simp [declarations, since, TableEvent.clears, TableEvent.declares, scope]

@[simp] theorem declarations_declared : declarations kind (.declared name v :: history) =
    declarations kind history + if v.kind = kind then 1 else 0 := by
  simp [declarations, since, TableEvent.clears, TableEvent.declares, List.countP_cons]

@[simp] theorem declarations_refused {kind' : VariableKind} :
    declarations kind (.refused name type kind' :: history) = declarations kind history := by
  simp [declarations, since, TableEvent.clears, TableEvent.declares]

@[simp] theorem latest?_nil : latest? inClass name [] = none := rfl

@[simp] theorem latest?_classStarted : latest? inClass name (.classStarted :: history) = none := rfl

@[simp] theorem latest?_subroutineStarted :
    latest? inClass name (.subroutineStarted :: history) =
      if inClass then latest? inClass name history else none := by
  cases inClass <;> simp [latest?, since, TableEvent.clears, TableEvent.declared?]

@[simp] theorem latest?_declared : latest? inClass name (.declared other v :: history) =
    if other = name ∧ v.kind.inClassScope = inClass then some v
    else latest? inClass name history := by
  by_cases here : other = name ∧ v.kind.inClassScope = inClass <;>
    simp [latest?, since, TableEvent.clears, TableEvent.declared?, here]

@[simp] theorem latest?_refused :
    latest? inClass name (.refused other type kind :: history) = latest? inClass name history := by
  simp [latest?, since, TableEvent.clears, TableEvent.declared?]

end Events

end TableHistory

namespace VariableTable

/-- What a request comes to, and the table behind it. -/
def serve (table : VariableTable) : TableRequest → TableEvent × VariableTable
  | .startClass => (.classStarted, table.startClass)
  | .startSubroutine => (.subroutineStarted, table.startSubroutine)
  | .declare name type kind =>
    match table.declare? name type kind with
    | some (v, table) => (.declared name v, table)
    | none => (.refused name type kind, table)

/-- The history and the table that requests lead to, one after the other, from given ones on. -/
def serveAll : List TableRequest → TableHistory → VariableTable → TableHistory × VariableTable
  | [], history, table => (history, table)
  | request :: requests, history, table =>
    serveAll requests ((table.serve request).1 :: history) (table.serve request).2

/-- One of the two scopes. -/
def scope (table : VariableTable) (inClass : Bool) : Scope :=
  if inClass then table.classScope else table.subroutineScope

/-- A declaration changes what its own name means in its own scope, and nothing else. -/
theorem find?_of_declare? {table table' : VariableTable} {name type : String} {kind : VariableKind}
    {v : Variable} (h : table.declare? name type kind = some (v, table')) (inClass : Bool)
    (other : String) : (table'.scope inClass).find? other =
      if name = other ∧ v.kind.inClassScope = inClass then some v
      else (table.scope inClass).find? other := by
  obtain rfl := index_of_declare? h
  rw [declare?] at h
  split at h
  · cases inClass <;> split at h <;> cases h <;> simp_all [scope, Scope.find?_insert]
  · cases h

/-- There is no room for a declaration if and only if all indices are used up. -/
theorem declare?_eq_none {table : VariableTable} {name type : String} {kind : VariableKind} :
    table.declare? name type kind = none ↔ maxOperand ≤ table.count kind := by
  rw [← Option.not_isSome_iff_eq_none, declare?_isSome_iff, Nat.not_lt]

/-- A table that is in line with a history. -/
structure Records (table : VariableTable) (history : TableHistory) : Prop where
  count : ∀ kind, table.count kind = history.declarations kind
  bounded : ∀ kind, table.count kind ≤ maxOperand
  find : ∀ inClass name, (table.scope inClass).find? name = history.latest? inClass name
  /-- A variable belongs to the scope that it is found in, and its index has been counted. -/
  below : ∀ inClass name v, history.latest? inClass name = some v →
    v.kind.inClassScope = inClass ∧ v.index < table.count v.kind
  /-- No two names have the same index of a kind. -/
  apart : ∀ inClass name other v w, name ≠ other → history.latest? inClass name = some v →
    history.latest? inClass other = some w → v.kind = w.kind → v.index ≠ w.index

namespace Records

variable {table table' : VariableTable} {history : TableHistory} {name type : String}
  {kind : VariableKind} {v : Variable}

theorem empty : Records {} [] where
  count kind := by cases kind <;> rfl
  bounded kind := by cases kind <;> exact Nat.zero_le _
  find inClass name := by cases inClass <;> rfl
  below := by simp
  apart := by simp

theorem startClass : Records table.startClass (.classStarted :: history) where
  count kind := by cases kind <;> rfl
  bounded kind := by cases kind <;> exact Nat.zero_le _
  find inClass name := by cases inClass <;> rfl
  below := by simp
  apart := by simp

/-- Starting a subroutine clears the counters of its scope, and no others. -/
theorem count_startSubroutine (table : VariableTable) (kind : VariableKind) :
    table.startSubroutine.count kind = if kind.inClassScope then table.count kind else 0 := by
  cases kind <;> rfl

theorem startSubroutine (records : Records table history) :
    Records table.startSubroutine (.subroutineStarted :: history) where
  count kind := by
    simp [count_startSubroutine, records.count]
  bounded kind := by
    rw [count_startSubroutine]
    split
    · exact records.bounded kind
    · exact Nat.zero_le _
  find inClass name := by
    cases inClass with
    | false => rfl
    | true =>
      rw [TableHistory.latest?_subroutineStarted]
      exact records.find true name
  below inClass name v found := by
    cases inClass with
    | false => simp at found
    | true =>
      obtain ⟨inClass, counted⟩ := records.below true name v (by simpa using found)
      exact ⟨inClass, by simpa [count_startSubroutine, inClass] using counted⟩
  apart inClass name other v w different found found' := by
    rw [TableHistory.latest?_subroutineStarted] at found found'
    cases inClass with
    | false => cases found
    | true => exact records.apart true name other v w different found found'

theorem declare (records : Records table history)
    (h : table.declare? name type kind = some (v, table')) :
    Records table' (.declared name v :: history) := by
  have counted := count_of_declare? h
  have room : table.count kind < maxOperand := declare?_isSome_iff.mp (by rw [h]; rfl)
  have kind_eq : v.kind = kind := by rw [index_of_declare? h]
  have index_eq : v.index = table.count v.kind := by rw [kind_eq, index_of_declare? h]
  subst kind_eq
  refine ⟨fun kind => ?_, fun kind => ?_, fun inClass other => ?_, fun inClass other w found => ?_,
    fun inClass first second w w' different found found' same => ?_⟩
  · rw [counted, records.count, TableHistory.declarations_declared]
    simp only [eq_comm]
  · rw [counted]
    split
    · rename_i same
      exact same ▸ room
    · exact records.bounded kind
  · rw [find?_of_declare? h, records.find, TableHistory.latest?_declared]
  · rw [TableHistory.latest?_declared] at found
    rw [counted]
    split at found
    · rename_i here
      cases found
      exact ⟨here.2, by simp [index_eq]⟩
    · obtain ⟨scope, below⟩ := records.below inClass other w found
      exact ⟨scope, Nat.lt_add_right _ below⟩
  · rw [TableHistory.latest?_declared] at found found'
    -- The index of the new declaration is the count, and all others are below it.
    split at found <;> split at found'
    · rename_i here here'
      exact absurd (here.1.symm.trans here'.1) different
    · cases found
      have below := (records.below inClass second w' found').2
      rw [← same, ← index_eq] at below
      exact Nat.ne_of_gt below
    · cases found'
      have below := (records.below inClass first w found).2
      rw [same, ← index_eq] at below
      exact Nat.ne_of_lt below
    · exact records.apart inClass first second w w' different found found' same

theorem refuse (records : Records table history) :
    Records table (.refused name type kind :: history) where
  count kind := by rw [records.count, TableHistory.declarations_refused]
  bounded := records.bounded
  find inClass name := by rw [records.find, TableHistory.latest?_refused]
  below inClass name v found := records.below inClass name v (by simpa using found)
  apart inClass name other v w different found found' :=
    records.apart inClass name other v w different (by simpa using found) (by simpa using found')

/-- **Every request keeps a table in line with its history.** -/
theorem serve (records : Records table history) (request : TableRequest) :
    Records (table.serve request).2 ((table.serve request).1 :: history) := by
  cases request with
  | startClass => exact @startClass table history
  | startSubroutine => exact records.startSubroutine
  | declare name type kind =>
    rw [VariableTable.serve]
    split
    · rename_i v table' declared
      exact records.declare declared
    · exact records.refuse

theorem serveAll (records : Records table history) (requests : List TableRequest) :
    Records (table.serveAll requests history).2 (table.serveAll requests history).1 := by
  induction requests generalizing table history with
  | nil => exact records
  | cons request requests ih => exact ih (records.serve request)

end Records

/-- What a table tells, said by its history. -/
structure Tells (table : VariableTable) (history : TableHistory) : Prop where
  /-- A declaration gets the number of those of its kind before it for an index, as long as there
  are fewer than 65535 of them. -/
  declare : ∀ name type kind, (table.declare? name type kind).map Prod.fst =
    if history.declarations kind = 65535 then none
    else some { type, kind, index := history.declarations kind }
  /-- A refused declaration leaves the table as it was. -/
  refuse : ∀ name type kind, history.declarations kind = 65535 →
    table.serve (.declare name type kind) = (.refused name type kind, table)
  count : ∀ kind, table.count kind = history.declarations kind
  lookup : ∀ name, table.lookup? name =
    (history.latest? false name).or (history.latest? true name)
  views : ∀ name, table.kindOf? name = (table.lookup? name).map Variable.kind ∧
    table.typeOf? name = (table.lookup? name).map Variable.type ∧
    table.indexOf? name = (table.lookup? name).map Variable.index
  /-- An index that is found has been counted. -/
  below : ∀ name v, table.lookup? name = some v → v.index < table.count v.kind
  /-- Different names that mean variables of one kind mean different ones. -/
  apart : ∀ name other v w, name ≠ other → table.lookup? name = some v →
    table.lookup? other = some w → v.kind = w.kind → v.index ≠ w.index

variable {table : VariableTable} {history : TableHistory}

/-- A variable that is found stands in the scope of its kind. -/
theorem Records.latest?_of_lookup? (records : Records table history) {name : String} {v : Variable}
    (found : table.lookup? name = some v) :
    history.latest? v.kind.inClassScope name = some v := by
  rw [lookup?, Option.or_eq_some_iff] at found
  have inSubroutine := records.find false name
  have inClass := records.find true name
  obtain here | ⟨-, here⟩ := found
  · have latest := inSubroutine.symm.trans here
    rw [(records.below false name v latest).1, latest]
  · have latest := inClass.symm.trans here
    rw [(records.below true name v latest).1, latest]

theorem Records.tells (records : Records table history) : Tells table history where
  declare name type kind := by
    have limit := records.bounded kind
    rw [← records.count kind]
    by_cases full : table.count kind = 65535
    · rw [if_pos full, declare?_eq_none.mpr (Nat.le_of_eq full.symm), Option.map_none]
    · have room : table.count kind < maxOperand := Nat.lt_of_le_of_ne limit full
      obtain ⟨⟨v, table'⟩, declared⟩ := Option.isSome_iff_exists.mp
        ((@declare?_isSome_iff table name type kind).mpr room)
      rw [if_neg full, declared, Option.map_some, index_of_declare? declared]
  refuse name type kind full := by
    have none : table.declare? name type kind = none :=
      declare?_eq_none.mpr (Nat.le_of_eq (full.symm.trans (records.count kind).symm))
    rw [VariableTable.serve, none]
  count := records.count
  lookup name := by
    rw [← records.find, ← records.find]
    rfl
  views name := ⟨rfl, rfl, rfl⟩
  below name v found := (records.below _ name v (records.latest?_of_lookup? found)).2
  apart name other v w different found found' same := by
    have latest := records.latest?_of_lookup? found
    have latest' := records.latest?_of_lookup? found'
    rw [← same] at latest'
    exact records.apart _ name other v w different latest latest' same

/-- **After any requests a table tells its history.** -/
theorem tells_history (requests : List TableRequest) :
    Tells (serveAll requests [] {}).2 (serveAll requests [] {}).1 :=
  (Records.empty.serveAll requests).tells

/-- A field that a local variable has hidden shows again in the next subroutine, and its index is
still in use. -/
example : let requests := [.declare "x" "int" .field, .declare "x" "Point" .«local»,
      .startSubroutine, .declare "y" "int" .field]
    (serveAll requests [] {}).1 = [.declared "y" { type := "int", kind := .field, index := 1 },
      .subroutineStarted, .declared "x" { type := "Point", kind := .«local», index := 0 },
      .declared "x" { type := "int", kind := .field, index := 0 }] ∧
    (serveAll requests [] {}).2.typeOf? "x" = some "int" := by
  decide +kernel

end VariableTable

end JackCompiler
