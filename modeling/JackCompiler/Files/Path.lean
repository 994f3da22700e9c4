/-!
# Paths

A path is a text whose components are separated by slashes. Its file name is its last component,
where empty components and single dots at the end do not count. The extension of a file name is
what follows its last dot, unless that dot is its first character.

## Main definitions

* `splitSlashes`, `joinSlashes` — the components of a text, and back
* `PathParts` — a path without what does not count at its end
* `fileName?`, `fileStem?`, `fileExtension?` — the parts of the last component
* `withFileName`, `withExtension` — a path with another last component, or another extension
* `isExtension` — the texts that can be extensions
-/

namespace JackCompiler

/-- The pieces between the slashes of a text. There is one more of them than slashes. -/
def splitSlashes : List Char → List (List Char)
  | [] => [[]]
  | c :: text =>
    if c = '/' then [] :: splitSlashes text
    else
      match splitSlashes text with
      | [] => [[c]]
      | piece :: pieces => (c :: piece) :: pieces

/-- Pieces with slashes between them. -/
def joinSlashes : List (List Char) → List Char
  | [] => []
  | [piece] => piece
  | piece :: pieces => piece ++ '/' :: joinSlashes pieces

/-- Joining the pieces of a text gives the text back. -/
theorem joinSlashes_splitSlashes (text : List Char) : joinSlashes (splitSlashes text) = text := by
  induction text with
  | nil => rfl
  | cons c text ih =>
    by_cases h : c = '/'
    · cases hs : splitSlashes text with
      | nil => simp_all [splitSlashes, joinSlashes]
      | cons piece pieces => simp_all [splitSlashes, joinSlashes]
    · cases hs : splitSlashes text with
      | nil => simp_all [splitSlashes, joinSlashes]
      | cons piece pieces =>
        cases pieces with
        | nil => simp_all [splitSlashes, joinSlashes]
        | cons next pieces => simp_all [splitSlashes, joinSlashes]

/-- A path without the empty components and single dots at its end. -/
structure PathParts where
  /-- A slash for an absolute path, a dot for one that begins with a component that is a dot, else
  nothing. -/
  root : List Char
  /-- The components behind the root. -/
  components : List (List Char)
deriving DecidableEq, Repr, Inhabited

namespace PathParts

/-- Components without the empty ones and single dots at their end. -/
def trimEnd (components : List (List Char)) : List (List Char) :=
  (components.reverse.dropWhile fun component => component == [] || component == ['.']).reverse

/-- The parts of a path. -/
def ofText (path : List Char) : PathParts :=
  match path with
  | '/' :: body => { root := ['/'], components := trimEnd (splitSlashes body) }
  | ['.'] => { root := ['.'], components := [] }
  | '.' :: '/' :: body => { root := ['.'], components := trimEnd (splitSlashes ('/' :: body)) }
  | body => { root := [], components := trimEnd (splitSlashes body) }

/-- The text of a path. -/
def text (parts : PathParts) : List Char :=
  parts.root ++ joinSlashes parts.components

/-- The last component, unless it leads to the parent of the one before it. -/
def name? (parts : PathParts) : Option (List Char) :=
  parts.components.getLast?.filter (· != ['.', '.'])

/-- The path without its last component. -/
def parent (parts : PathParts) : PathParts where
  root := parts.root
  components := trimEnd parts.components.dropLast

/-- The path with another last component. -/
def replaceName (parts : PathParts) (name : List Char) : PathParts where
  root := parts.root
  components := parts.components.dropLast ++ [name]

end PathParts

/-- A file name in front of its last dot, and behind it. A name that has no dot, or none but its
first character, has no extension. -/
def splitExtension (name : List Char) : List Char × Option (List Char) :=
  let extension := (name.reverse.takeWhile (· != '.')).reverse
  match (name.reverse.dropWhile (· != '.')).reverse.dropLast with
  | [] => (name, none)
  | stem => (stem, some extension)

/-- The file name of a path. -/
def fileName? (path : String) : Option String :=
  (PathParts.ofText path.toList).name?.map String.ofList

/-- The file name of a path without its extension. -/
def fileStem? (path : String) : Option String :=
  (PathParts.ofText path.toList).name?.map fun name => String.ofList (splitExtension name).1

/-- The extension of a path. -/
def fileExtension? (path : String) : Option String :=
  ((PathParts.ofText path.toList).name?.bind fun name => (splitExtension name).2).map String.ofList

/-- The path of an entry of a directory. An absolute name stands for itself. -/
def joinPath (directory name : List Char) : List Char :=
  if name.head? = some '/' then name
  else if directory = [] ∨ directory.getLast? = some '/' then directory ++ name
  else directory ++ '/' :: name

/-- A path with another file name. A path that has none is taken as a directory. -/
def withFileName (path name : String) : String :=
  let parts := PathParts.ofText path.toList
  let directory := if parts.name?.isSome then parts.parent.text else path.toList
  String.ofList (joinPath directory name.toList)

/-- A text without its first `bytes` bytes. A character that would be cut stays. -/
def dropBytes : Nat → List Char → List Char
  | _, [] => []
  | bytes, c :: text =>
    if c.utf8Size ≤ bytes then dropBytes (bytes - c.utf8Size) text else c :: text

/-- A text without its last `bytes` bytes. A character that would be cut stays. -/
def dropEndBytes (bytes : Nat) (text : List Char) : List Char :=
  (dropBytes bytes text.reverse).reverse

/-- Whether a text can be the extension of a file name. A slash would end that name. -/
def isExtension (text : String) : Bool :=
  !text.toList.contains '/'

/-- A path with another extension, or with none if that is empty. The path is shortened first by as
many bytes as its extension has, and then what follows the last dot of its file name is replaced; a
path that has no file name then stays as it is. -/
def withExtension (path extension : String) : String :=
  let shortened :=
    match fileExtension? path with
    | some old => dropEndBytes old.utf8ByteSize path.toList
    | none => path.toList
  let parts := PathParts.ofText shortened
  String.ofList <|
    match parts.name? with
    | none => shortened
    | some name =>
      let stem := (splitExtension name).1
      let newName := if extension.isEmpty then stem else stem ++ '.' :: extension.toList
      (parts.replaceName newName).text

end JackCompiler
