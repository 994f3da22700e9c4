import JackCompiler.CommandLine

/-!
# The program

The program takes a snapshot of the files that its command line is about, runs the command line on
the snapshot, stores what that has changed, and prints the report.

## Main definitions

* `snapshot`, `store` — from the machine's files to a tree of files, and back
* `main` — the program
-/

namespace JackCompiler

/-- The path of a place on the machine. -/
def machinePath (place : Place) : String :=
  "/" ++ "/".intercalate place

/-- The names that lead from the root of the machine to its working directory. -/
def workingPlace : IO Place :=
  return (← IO.currentDir).components.filter (! · ∈ ["", "/"])

/-- A tree with what stands at one place of the machine, if that is a file or a directory. -/
def addNode (tree : FileTree) (place : Place) : IO FileTree := do
  let path := machinePath place
  try
    match (← IO.FS.realPath path >>= (·.metadata)).type with
    | .dir => return tree.insert place .directory
    | .file => return tree.insert place (.file (← IO.FS.readBinFile path).data.toList)
    | _ => return tree
  catch _ => return tree

/-- A tree with the directories on the way of a path, what stands at its end, and everything beside
or below that. -/
def snapshot (path : String) : IO FileTree := do
  let mut tree : FileTree := { workingDirectory := ← workingPlace, rules := .machine }
  let mut here := tree.startOf path
  for length in List.range here.length do
    tree ← addNode tree (here.take (length + 1))
  let mut directories : List Place := [here]
  for name in FileTree.namesOf path do
    here := if name = ".." then here.dropLast else if name ∈ ["", "."] then here else here ++ [name]
    tree ← addNode tree here
    directories := [here.dropLast, here]
  for directory in directories do
    if tree.nodeAt? directory == some .directory then
      for entry in ← (← IO.FS.realPath (machinePath directory)).readDir do
        tree ← addNode tree (directory ++ [entry.fileName])
  return tree

/-- Writes the files in which a tree differs from the snapshot that it was made from. -/
def store (before after : FileTree) : IO Unit := do
  for (place, node) in after.nodes.reverse do
    match node with
    | .directory => pure ()
    | .file contents =>
      if before.nodeAt? place != some node then
        IO.FS.writeBinFile (machinePath place) ⟨contents.toArray⟩

end JackCompiler

open JackCompiler in
/-- Runs the command line. -/
def main (arguments : List String) : IO UInt32 := do
  let tree ← match Command.ofArguments? arguments with
    | some command => snapshot command.path
    | none => pure {}
  let (report, after) := runCommandLine arguments tree
  store tree after
  IO.print report.output
  return report.exitCode.toUInt32
