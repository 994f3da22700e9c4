import JackCompiler.Variable.Basic

/-!
# Scopes

A scope tells the latest declaration of each of its names. Names are told apart by the bits of a
hash first, so that finding one takes few steps however many declarations there are.

## Main definitions

* `Scope` — declarations, spread over a tree
* `Scope.insert`, `Scope.find?` — one more declaration, and the latest one of a name

## Main results

* `Scope.find?_insert` — a declaration changes what its own name means, and nothing else
-/

namespace JackCompiler

/-- Names with the variables that they mean, spread by the bits of their hashes. -/
inductive Scope where
  | empty
  /-- The declarations at the end of a path, the latest first. -/
  | bucket (entries : List (String × Variable))
  /-- The names whose hash goes on with a zero bit, and those whose hash goes on with a one. -/
  | fork (zero one : Scope)
deriving DecidableEq, Repr, Inhabited

namespace Scope

/-- The number of bits of a hash. -/
def hashBits : Nat := 16

/-- A number of `hashBits` bits that depends on all characters of a name. -/
def hashOf (name : String) : Nat :=
  name.toList.foldl (fun hash c => (31 * hash + c.toNat) % 65536) 0

/-- A single declaration behind a path of the given number of bits. -/
def singleAt (name : String) (v : Variable) : Nat → Nat → Scope
  | 0, _ => bucket [(name, v)]
  | bits + 1, hash =>
    if hash % 2 = 0 then fork (singleAt name v bits (hash / 2)) empty
    else fork empty (singleAt name v bits (hash / 2))

/-- The scope with one more declaration, where the bits of a hash lead. -/
def insertAt (name : String) (v : Variable) : Scope → Nat → Nat → Scope
  | empty, bits, hash => singleAt name v bits hash
  | bucket entries, _, _ => bucket ((name, v) :: entries)
  | fork zero one, bits, hash =>
    if hash % 2 = 0 then fork (zero.insertAt name v (bits - 1) (hash / 2)) one
    else fork zero (one.insertAt name v (bits - 1) (hash / 2))

/-- What a name means where the bits of a hash lead. -/
def findAt? (name : String) : Scope → Nat → Option Variable
  | empty, _ => none
  | bucket entries, _ => entries.lookup name
  | fork zero one, hash =>
    if hash % 2 = 0 then zero.findAt? name (hash / 2) else one.findAt? name (hash / 2)

/-- The scope after one more declaration. -/
def insert (scope : Scope) (name : String) (v : Variable) : Scope :=
  scope.insertAt name v hashBits (hashOf name)

/-- The variable that a name means. -/
def find? (scope : Scope) (name : String) : Option Variable :=
  scope.findAt? name (hashOf name)

@[simp] theorem find?_empty (name : String) : empty.find? name = none := rfl

variable {name other : String} {v : Variable}

theorem lookup_cons (entries : List (String × Variable)) :
    ((name, v) :: entries).lookup other =
      if name = other then some v else entries.lookup other := by
  by_cases same : name = other
  · simp [same]
  · have different : (other == name) = false := by simpa using Ne.symm same
    simp [List.lookup_cons, same, different]

/-- Equal names have equal hashes. This is all that a search relies on. -/
theorem findAt?_singleAt (bits : Nat) {hash hash' : Nat} (hashes : name = other → hash = hash') :
    (singleAt name v bits hash).findAt? other hash' = if name = other then some v else none := by
  induction bits generalizing hash hash' with
  | zero => simp [singleAt, findAt?, lookup_cons]
  | succ bits ih =>
    have halves : name = other → hash / 2 = hash' / 2 := fun same => by rw [hashes same]
    have rest := ih halves
    by_cases even : hash % 2 = 0 <;> by_cases even' : hash' % 2 = 0 <;>
      grind [singleAt, findAt?]

theorem findAt?_insertAt (scope : Scope) (bits : Nat) {hash hash' : Nat}
    (hashes : name = other → hash = hash') : (scope.insertAt name v bits hash).findAt? other hash' =
      if name = other then some v else scope.findAt? other hash' := by
  induction scope generalizing bits hash hash' with
  | empty => exact findAt?_singleAt bits hashes
  | bucket entries => exact lookup_cons entries
  | fork zero one zeros ones =>
    have halves : name = other → hash / 2 = hash' / 2 := fun same => by rw [hashes same]
    have inZero := zeros (bits - 1) halves
    have inOne := ones (bits - 1) halves
    -- The two hashes may part here, but not if the names are equal.
    by_cases even : hash % 2 = 0 <;> by_cases even' : hash' % 2 = 0 <;>
      grind [insertAt, findAt?]

/-- A declaration changes what its own name means, and nothing else. -/
theorem find?_insert (scope : Scope) (name other : String) (v : Variable) :
    (scope.insert name v).find? other = if name = other then some v else scope.find? other :=
  findAt?_insertAt scope hashBits (congrArg hashOf)

end Scope

end JackCompiler
