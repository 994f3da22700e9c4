import JackCompiler.Codegen.Class
import JackCompiler.Files.Tree
import JackCompiler.Token.Listing

/-!
# Building files

A build reads source files of a tree and writes a file for each of them next to it: its code or its
token listing. Sources are processed one after the other, and the first failure ends the build.
Outputs are written whole, and only after their source has been processed without a fault.

## Main definitions

* `BuildSettings` — the names of sources and outputs
* `BuildSettings.sources` — the source files that a path stands for
* `Build.compileFile`, `Build.compilePath`, `Build.tokenizeFile`, `Build.tokenizePath` — the builds
-/

namespace JackCompiler

/-- How source files are recognised and outputs are named. -/
structure BuildSettings where
  /-- The extension of source files. -/
  sourceExtension : String := "jack"
  /-- The extension of files with code. -/
  outputExtension : String := "vm"
  /-- What the name of a token listing has in place of the extension of its source. -/
  listingSuffix : String := "T.xml"
deriving DecidableEq, Repr, Inhabited

namespace BuildSettings

/-- Whether a path has the extension of source files. -/
def isSource (settings : BuildSettings) (path : String) : Bool :=
  fileExtension? path == some settings.sourceExtension

/-- The path of the code of a source. There is none if the settings name no extension. -/
def outputPath? (settings : BuildSettings) (source : String) : Option String :=
  if isExtension settings.outputExtension then some (withExtension source settings.outputExtension)
  else none

/-- The path of the token listing of a source. -/
def listingPath (settings : BuildSettings) (source : String) : String :=
  withFileName source ((fileStem? source).getD "" ++ settings.listingSuffix)

/-- The source files that a path stands for: itself, or those of the files in it that have the right
extension, in order of their names. A file in it whose path breaks the rules of the tree does not
count. -/
def sources (settings : BuildSettings) (tree : FileTree) (path : String) :
    Except Fault (List String) :=
  match tree.find path, tree.resolve path with
  | .ok .directory, .ok place =>
    let files := (tree.entries place).filterMap fun (name, node) =>
      let source := String.ofList (joinPath path.toList name.toList)
      match node with
      | .file _ =>
        if settings.isSource source && (tree.rules.checkPath source).isOk then some source else none
      | .directory => none
    if files.isEmpty then
      .error (.usage ("no ." ++ settings.sourceExtension ++ " files in directory " ++ path))
    else .ok files
  | .ok (.file _), _ =>
    if settings.isSource path then .ok [path]
    else .error (.usage (path ++ " is not a ." ++ settings.sourceExtension ++ " file"))
  | _, _ => .error (.usage (path ++ " does not exist"))

end BuildSettings

/-- The state of a build. -/
structure Workspace where
  tree : FileTree
  events : Array Event := #[]
deriving Inhabited

/-- A step of a build. It keeps the files that it has written when it fails. -/
abbrev Build (α : Type) := ExceptT Fault (StateM Workspace) α

namespace Build

/-- Reports an event. -/
def report (event : Event) : Build Unit :=
  modify fun workspace => { workspace with events := workspace.events.push event }

/-- Reports the events of a compilation, so far as they matter to a build. -/
def reportWarnings (events : Array Event) : Build Unit :=
  (events.filter (·.severity = .warn)).forM report

/-- The text of a source file. -/
def readSource (path : String) : Build String := do
  match (← get).tree.read path with
  | .error fault => throw (.storage fault)
  | .ok bytes =>
    match Utf8.decode bytes with
    | .error fault => throw (.encoding fault)
    | .ok source => return source

/-- Writes an output file. -/
def writeOutput (path contents : String) : Build Unit := do
  match (← get).tree.write path (Utf8.encode contents) with
  | .error fault => throw (.storage fault)
  | .ok tree => modify ({ · with tree })

/-- The name of a source in diagnostics: its file name. -/
def displayName (path : String) : String :=
  (fileName? path).getD path

/-- Compiles a source file, and answers the path of its code. -/
def compileFile (settings : BuildSettings) (path : String) : Build String := do
  let source ← readSource path
  let (code, events) := compileText (displayName path) source
  reportWarnings events
  match code, settings.outputPath? path with
  | .error fault, _ => throw fault
  | .ok _, none => throw (.unusableExtension settings.outputExtension)
  | .ok code, some output =>
    writeOutput output code
    report (.compiled path output)
    return output

/-- Lists the tokens of a source file, and answers the path of the listing. -/
def tokenizeFile (settings : BuildSettings) (path : String) : Build String := do
  let source ← readSource path
  match writeListing (displayName path) source {} with
  | (.error fault, _) => throw fault
  | (.ok (), listing) =>
    let output := settings.listingPath path
    writeOutput output (listing.text ListingLine.text)
    report (.tokenized path output)
    return output

/-- Processes the sources that a path stands for. -/
def forSources (settings : BuildSettings) (path : String) (process : String → Build String) :
    Build (List String) := do
  match settings.sources (← get).tree path with
  | .error fault => throw fault
  | .ok sources => sources.mapM process

/-- Compiles the sources that a path stands for. -/
def compilePath (settings : BuildSettings) (path : String) : Build (List String) :=
  forSources settings path (compileFile settings)

/-- Lists the tokens of the sources that a path stands for. -/
def tokenizePath (settings : BuildSettings) (path : String) : Build (List String) :=
  forSources settings path (tokenizeFile settings)

end Build

end JackCompiler
