import JackCompiler.Files.Path
import JackCompiler.Files.PathRules

/-!
# Trees of files

A tree of files holds files and directories at places, which are sequences of names from its root.
A path is followed name by name from the working directory, or from the root if it is absolute, and
everything on the way has to be a directory. The path has to meet the rules of the tree first.

## Main definitions

* `FileNode`, `FileTree` — what stands at a place, and a whole tree
* `FileTree.find`, `FileTree.read`, `FileTree.write`, `FileTree.entries` — looking at and changing a
  tree
-/

namespace JackCompiler

/-- What stands at a place of a tree. -/
inductive FileNode where
  | file (contents : List UInt8)
  | directory
deriving DecidableEq, Repr, Inhabited

/-- The names that lead from the root of a tree to a place. -/
abbrev Place := List String

/-- A tree of files. -/
structure FileTree where
  /-- What stands at the places other than the root. -/
  nodes : List (Place × FileNode) := []
  /-- Where paths start that are not absolute. -/
  workingDirectory : Place := []
  /-- What paths have to meet. -/
  rules : PathRules := {}
deriving Inhabited

namespace FileTree

/-- What stands at a place. The root is a directory. -/
def nodeAt? (tree : FileTree) : Place → Option FileNode
  | [] => some .directory
  | place => tree.nodes.lookup place

/-- Changes what stands at a place. -/
def insert (tree : FileTree) (place : Place) (node : FileNode) : FileTree :=
  { tree with nodes := (place, node) :: tree.nodes.filter (·.1 != place) }

/-- A change shows at its own place and nowhere else. The root always stays a directory. -/
theorem nodeAt?_insert (tree : FileTree) {place : Place} (h : place ≠ []) (node : FileNode)
    (other : Place) :
    (tree.insert place node).nodeAt? other =
      if other = place then some node else tree.nodeAt? other := by
  have lookup_filter (nodes : List (Place × FileNode)) (different : other ≠ place) :
      (nodes.filter (·.1 != place)).lookup other = nodes.lookup other := by
    induction nodes with
    | nil => rfl
    | cons entry nodes ih => grind
  cases other with
  | nil => simp [nodeAt?, Ne.symm h]
  | cons name names =>
    by_cases same : name :: names = place
    · simp [nodeAt?, insert, same]
    · simp [nodeAt?, insert, List.lookup_cons, beq_false_of_ne same, same, lookup_filter]

/-- Whether a place is a directory, or why it is not. -/
def expectDirectory (tree : FileTree) (place : Place) : Except StorageFault Unit :=
  match tree.nodeAt? place with
  | some .directory => .ok ()
  | some (.file _) => .error .notDirectory
  | none => .error .notFound

/-- The place that names lead to from a directory. The last of them need not exist. -/
def follow (tree : FileTree) : Place → List String → Except StorageFault Place
  | here, [] => .ok here
  | here, name :: names => do
    tree.expectDirectory here
    if name = "" ∨ name = "." then follow tree here names
    else if name = ".." then follow tree here.dropLast names
    else
      tree.rules.checkName name
      follow tree (here ++ [name]) names

/-- The place where following a path starts. -/
def startOf (tree : FileTree) (path : String) : Place :=
  if path.toList.head? = some '/' then [] else tree.workingDirectory

/-- The components of a path. -/
def namesOf (path : String) : List String :=
  (splitSlashes path.toList).map String.ofList

/-- The place that a path leads to. The empty path leads nowhere. -/
def resolve (tree : FileTree) (path : String) : Except StorageFault Place := do
  tree.rules.checkPath path
  if path.isEmpty then .error .notFound
  else tree.follow (tree.startOf path) (namesOf path)

/-- What stands where a path leads to. -/
def find (tree : FileTree) (path : String) : Except StorageFault FileNode := do
  match tree.nodeAt? (← tree.resolve path) with
  | some node => .ok node
  | none => .error .notFound

/-- The contents of the file that a path leads to. -/
def read (tree : FileTree) (path : String) : Except StorageFault (List UInt8) := do
  match ← tree.find path with
  | .file contents => .ok contents
  | .directory => .error .isDirectory

/-- The place where a file with the given path can stand. It has a name of its own and stands in a
directory. -/
def placeForFile (tree : FileTree) (path : String) : Except StorageFault Place := do
  tree.rules.checkPath path
  let names := namesOf path
  let named := (names.reverse.dropWhile (· = "")).reverse
  match named.getLast? with
  | none => .error (if path.isEmpty then .notFound else .isDirectory)
  | some name =>
    let directory ← tree.follow (tree.startOf path) named.dropLast
    tree.expectDirectory directory
    if named.length < names.length ∨ name = "." ∨ name = ".." then .error .isDirectory
    else
      tree.rules.checkName name
      return directory ++ [name]

/-- Writes a file, in place of the one that stands there if there is one. -/
def write (tree : FileTree) (path : String) (contents : List UInt8) :
    Except StorageFault FileTree := do
  let place ← tree.placeForFile path
  match tree.nodeAt? place with
  | some .directory => .error .isDirectory
  | _ => .ok (tree.insert place (.file contents))

/-- The names in a directory, in ascending order, with what they name. -/
def entries (tree : FileTree) (directory : Place) : List (String × FileNode) :=
  let inside := tree.nodes.filterMap fun (place, node) =>
    match place.getLast? with
    | some name => if place.dropLast = directory then some (name, node) else none
    | none => none
  inside.mergeSort fun (one, _) (other, _) => decide (one ≤ other)

end FileTree

end JackCompiler
