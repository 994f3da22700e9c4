import JackCompiler.Files.Build

/-!
# Processing one source

Compiling a source file and listing its tokens differ in what becomes of the text and in where the
output goes, and in nothing else that a tree of files shows. What is reported on the way leaves the
tree as it is.

## Main definitions

* `Processing` — what becomes of a text, and where the output goes
* `Processing.outcome` — what processing a source comes to, and the tree behind it
* `Build.onTree` — what a step of a build does to the tree
* `Processing.Performs` — a step of a build processes sources in the given way

## Main results

* `BuildSettings.performs_compileFile`, `BuildSettings.performs_tokenizeFile` — both builds process
  sources
* `Processing.onTree_mapM` — sources are processed one after the other
-/

namespace JackCompiler

/-- A way to process sources. -/
structure Processing where
  /-- What becomes of a text that comes from a file with the given name. -/
  translate : (file source : String) → Except Fault String
  /-- The path of the output for a source. -/
  output : (source : String) → String

namespace Processing

/-- What processing a source comes to, and the tree behind it. -/
def outcome (p : Processing) (tree : FileTree) (source : String) :
    Except Fault String × FileTree :=
  match tree.read source with
  | .error fault => (.error (.storage fault), tree)
  | .ok bytes =>
    match Utf8.decode bytes with
    | .error fault => (.error (.encoding fault), tree)
    | .ok text =>
      match p.translate (Build.displayName source) text with
      | .error fault => (.error fault, tree)
      | .ok contents =>
        match tree.write (p.output source) (Utf8.encode contents) with
        | .error fault => (.error (.storage fault), tree)
        | .ok tree => (.ok (p.output source), tree)

/-- What processing sources one after the other comes to, up to the first failure. -/
def outcomes (p : Processing) : FileTree → List String → Except Fault (List String) × FileTree
  | tree, [] => (.ok [], tree)
  | tree, source :: sources =>
    match p.outcome tree source with
    | (.error fault, tree) => (.error fault, tree)
    | (.ok output, tree) =>
      match p.outcomes tree sources with
      | (.error fault, tree) => (.error fault, tree)
      | (.ok outputs, tree) => (.ok (output :: outputs), tree)

end Processing

namespace BuildSettings

/-- Compiling: the code of a source, in a file with another extension. -/
def compiling (settings : BuildSettings) : Processing where
  translate file source := (compileText file source).1
  output source := withExtension source settings.outputExtension

/-- Listing tokens: the listing of a source, in a file whose name ends in another way. -/
def tokenizing (settings : BuildSettings) : Processing where
  translate file source :=
    match writeListing file source {} with
    | (.error fault, _) => .error fault
    | (.ok (), listing) => .ok (listing.text ListingLine.text)
  output source := settings.listingPath source

end BuildSettings

namespace Build

variable {α β : Type} {workspace : Workspace}

theorem run_bind (step : Build α) (next : α → Build β) (workspace : Workspace) :
    (step >>= next).run.run workspace = match step.run.run workspace with
      | (.ok a, workspace) => (next a).run.run workspace
      | (.error fault, workspace) => (.error fault, workspace) := by
  rw [ExceptT.run_bind, StateT.run_bind]
  rcases step.run.run workspace with ⟨_ | a, middle⟩ <;> rfl

/-- What a step does to the tree, whatever it reports. -/
def onTree (step : Build α) (workspace : Workspace) : Except Fault α × FileTree :=
  ((step.run.run workspace).1, (step.run.run workspace).2.tree)

/-- A step only reports. -/
def OnlyReports (step : Build Unit) : Prop :=
  ∀ workspace : Workspace, ∃ events, step.run.run workspace = (.ok (), { workspace with events })

theorem onlyReports_report (event : Event) : OnlyReports (report event) :=
  fun workspace => ⟨workspace.events.push event, rfl⟩

theorem onlyReports_reportWarnings (events : Array Event) :
    OnlyReports (reportWarnings events) := by
  rw [reportWarnings, Array.forM, ← Array.foldlM_toList]
  generalize (events.filter fun event => event.severity = .warn).toList = events
  induction events with
  | nil => exact fun workspace => ⟨workspace.events, rfl⟩
  | cons event events ih =>
    intro workspace
    obtain ⟨reported, first⟩ := onlyReports_report event workspace
    obtain ⟨reported', rest⟩ := ih { workspace with events := reported }
    exact ⟨reported', by rw [List.foldlM_cons, run_bind, first]; exact rest⟩

/-- What is only reported does not show. -/
theorem OnlyReports.onTree_bind {step : Build Unit} (only : OnlyReports step)
    (next : Build α) (workspace : Workspace) : ∃ events,
    onTree (do step; next) workspace = onTree next { workspace with events } := by
  obtain ⟨events, run⟩ := only workspace
  exact ⟨events, by rw [onTree, run_bind, run, onTree]⟩

theorem run_get (workspace : Workspace) :
    (get : Build Workspace).run.run workspace = (.ok workspace, workspace) := rfl

theorem run_readSource (path : String) (workspace : Workspace) :
    (readSource path).run.run workspace = (match workspace.tree.read path with
      | .error fault => .error (.storage fault)
      | .ok bytes =>
        match Utf8.decode bytes with
        | .error fault => .error (.encoding fault)
        | .ok text => .ok text, workspace) := by
  rw [readSource, run_bind, run_get]
  dsimp only
  rcases workspace.tree.read path with fault | bytes
  · rfl
  · dsimp only
    rcases Utf8.decode bytes with fault | text <;> rfl

/-- Writing an output, and then only reporting about it. -/
theorem onTree_writeOutput_bind {step : Build Unit} (only : OnlyReports step)
    (path contents : String) (workspace : Workspace) :
    onTree (do writeOutput path contents; step; return path) workspace =
      match workspace.tree.write path (Utf8.encode contents) with
      | .error fault => (.error (.storage fault), workspace.tree)
      | .ok tree => (.ok path, tree) := by
  have written : (writeOutput path contents).run.run workspace =
      match workspace.tree.write path (Utf8.encode contents) with
      | .error fault => (.error (.storage fault), workspace)
      | .ok tree => (.ok (), { workspace with tree }) := by
    rw [writeOutput, run_bind, run_get]
    dsimp only
    rcases workspace.tree.write path (Utf8.encode contents) with fault | tree <;> rfl
  rw [onTree, run_bind, written]
  rcases workspace.tree.write path (Utf8.encode contents) with fault | tree
  · rfl
  · obtain ⟨events, run⟩ := only.onTree_bind (return path) { workspace with tree }
    exact run

end Build

namespace Processing

/-- A step of a build processes sources in the given way. -/
def Performs (p : Processing) (process : String → Build String) : Prop :=
  ∀ source workspace, Build.onTree (process source) workspace = p.outcome workspace.tree source

/-- Sources are processed one after the other. -/
theorem onTree_mapM {p : Processing} {process : String → Build String}
    (performs : p.Performs process) (sources : List String) (workspace : Workspace) :
    Build.onTree (sources.mapM process) workspace = p.outcomes workspace.tree sources := by
  induction sources generalizing workspace with
  | nil => rfl
  | cons source sources ih =>
    rw [List.mapM_cons, Build.onTree, Build.run_bind, outcomes, ← performs source workspace,
      Build.onTree]
    rcases (process source).run.run workspace with ⟨fault | output, workspace'⟩
    · rfl
    · dsimp only
      rw [Build.run_bind, ← ih workspace', Build.onTree]
      rcases (sources.mapM process).run.run workspace' with ⟨fault | outputs, workspace''⟩ <;> rfl

end Processing

namespace BuildSettings

theorem performs_tokenizeFile (settings : BuildSettings) :
    settings.tokenizing.Performs (Build.tokenizeFile settings) := by
  intro source workspace
  rw [Build.onTree, Build.tokenizeFile, Build.run_bind, Build.run_readSource, Processing.outcome]
  rcases workspace.tree.read source with fault | bytes
  · rfl
  · dsimp only
    rcases Utf8.decode bytes with fault | text
    · rfl
    · dsimp only [tokenizing]
      rcases writeListing (Build.displayName source) text {} with ⟨fault | _, listing⟩
      · rfl
      · exact Build.onTree_writeOutput_bind (Build.onlyReports_report _) _ _ workspace

theorem performs_compileFile {settings : BuildSettings}
    (usable : isExtension settings.outputExtension = true) :
    settings.compiling.Performs (Build.compileFile settings) := by
  intro source workspace
  rw [Build.onTree, Build.compileFile, Build.run_bind, Build.run_readSource, Processing.outcome]
  rcases workspace.tree.read source with fault | bytes
  · rfl
  · dsimp only
    rcases Utf8.decode bytes with fault | text
    · rfl
    · dsimp only [compiling]
      rw [outputPath?, if_pos usable]
      rcases compileText (Build.displayName source) text with ⟨code, events⟩
      dsimp only
      -- The warnings come first, whether or not there is code.
      obtain ⟨reported, run⟩ := Build.onlyReports_reportWarnings events workspace
      rw [Build.run_bind, run]
      rcases code with fault | code
      · rfl
      · exact Build.onTree_writeOutput_bind (Build.onlyReports_report _) _ _ _

end BuildSettings

end JackCompiler
