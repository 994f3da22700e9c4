import JackCompiler.Proofs.Files.Processing
import JackCompiler.Proofs.Files.Tree

/-!
# Builds of directories

A build of a directory reads sources and writes outputs in the same directory, one after the other.
No output is a source, and no two sources have the same output. Each source is therefore processed
as if it were the only one, and what the build leaves behind are the outputs of the sources in front
of the first that fails.

## Main definitions

* `KeepsApart`, `BuildSettings.KeepsCodeApart` — no output is a source
* `Processing.resultOf` — what an output is to hold, or why there is none
* `Processing.Wrote` — a tree has the outputs of some sources and no other changes
* `Processing.StopsAtFirstFailure` — what a build of a directory comes to

## Main results

* `Processing.Stored.outcome` — a source behind others comes to what it comes to alone
* `Processing.Site.outcomes_of_succeed`, `Processing.Site.outcomes_of_fails` — the outputs in front
  of the first failure are written
* `builds_stopAtFirstFailure` — both builds write the outputs up to the first failure
-/

namespace JackCompiler

/-! ### Names of sources and outputs -/

/-- A name that a source can have. -/
structure IsSourceName (extension name : String) : Prop where
  isName : IsFileName name
  has : fileExtension? name = some extension

/-- A source has a stem in front of its extension. -/
theorem IsSourceName.exists_stem {extension name : String} (source : IsSourceName extension name) :
    ∃ stem, stem ≠ "" ∧ '/' ∉ stem.toList ∧ '.' ∉ extension.toList ∧
      name = stem ++ "." ++ extension ∧ fileStem? name = some stem := by
  obtain ⟨stem, nonempty, noDot, rfl, stemOf⟩ := source.isName.exists_stem source.has
  refine ⟨stem, nonempty, fun slash => source.isName.noSlash ?_, noDot, rfl, stemOf⟩
  simp [slash]

/-- The name of the output for a source: its stem, and something behind that. -/
def outputName (suffix name : String) : String :=
  (fileStem? name).getD "" ++ suffix

section Names

variable {extension suffix name other : String}

theorem outputName_eq {stem : String} (stemOf : fileStem? name = some stem) :
    outputName suffix name = stem ++ suffix := by
  rw [outputName, stemOf, Option.getD_some]

/-- Sources with the same output are the same. -/
theorem IsSourceName.eq_of_outputName (source : IsSourceName extension name)
    (source' : IsSourceName extension other)
    (same : outputName suffix name = outputName suffix other) : name = other := by
  obtain ⟨stem, -, -, -, rfl, stemOf⟩ := source.exists_stem
  obtain ⟨stem', -, -, -, rfl, stemOf'⟩ := source'.exists_stem
  rw [outputName_eq stemOf, outputName_eq stemOf'] at same
  rw [(String.append_left_inj suffix).mp same]

/-- What makes the name of an output of a stem and never one with the given extension. -/
structure KeepsApart (extension suffix : String) : Prop where
  noSlash : '/' ∉ suffix.toList
  exists_extension : ∃ front last, suffix = front ++ "." ++ last ∧ '.' ∉ last.toList ∧ last ≠ "" ∧
    last ≠ extension

/-- An output has a name, and that does not have the extension. -/
theorem KeepsApart.isFileName_and_ne {kept : String} (apart : KeepsApart kept suffix)
    (source : IsSourceName extension name) : IsFileName (outputName suffix name) ∧
      fileExtension? (outputName suffix name) ≠ some kept := by
  obtain ⟨stem, nonempty, noSlash, -, -, stemOf⟩ := source.exists_stem
  obtain ⟨front, last, rfl, noDot, some, different⟩ := apart.exists_extension
  have free : '/' ∉ front.toList ∧ '/' ∉ last.toList := by simpa using apart.noSlash
  have whole : outputName (front ++ "." ++ last) name = stem ++ front ++ "." ++ last := by
    rw [outputName_eq stemOf, String.append_assoc, String.append_assoc, String.append_assoc]
  have isName : IsFileName (stem ++ front ++ "." ++ last) :=
    .of_extension (by simp [nonempty]) (by simpa using ⟨noSlash, free.1⟩) some free.2
  rw [whole, isName.fileExtension?_append (by simp [nonempty]) noDot]
  exact ⟨isName, fun same => different (Option.some.inj same)⟩

end Names

/-- The outputs of sources stand next to them, unless their paths lead to the directory around. -/
structure Processing.Aims (p : Processing) (extension suffix : String) : Prop where
  apart : KeepsApart extension suffix
  output : ∀ front, (∀ piece ∈ front, '/' ∉ piece.toList) →
    ∀ name, IsSourceName extension name → p.output (entryPath front name) = entryPath front ".." ∨
      ∃ trimmed, TrimsTo front trimmed ∧
        p.output (entryPath front name) = entryPath trimmed (outputName suffix name)

namespace BuildSettings

variable {settings : BuildSettings}

/-- What the name of the code of a source has behind the stem. -/
def codeSuffix (settings : BuildSettings) : String :=
  "." ++ settings.outputExtension

/-- Code has an extension that sources do not have. -/
structure KeepsCodeApart (settings : BuildSettings) : Prop where
  nonempty : settings.outputExtension ≠ ""
  noDot : '.' ∉ settings.outputExtension.toList
  noSlash : '/' ∉ settings.outputExtension.toList
  different : settings.outputExtension ≠ settings.sourceExtension

theorem KeepsCodeApart.aims_compiling (apart : settings.KeepsCodeApart) :
    settings.compiling.Aims settings.sourceExtension settings.codeSuffix where
  apart := ⟨by simpa [codeSuffix] using apart.noSlash, "", settings.outputExtension, rfl,
    apart.noDot, apart.nonempty, apart.different⟩
  output front noSlash name source := by
    obtain ⟨stem, nonempty, -, noDot, rfl, stemOf⟩ := source.exists_stem
    have code := source.isName.withExtension_entryPath noSlash nonempty noDot apart.nonempty
    rw [compiling]
    dsimp only
    rw [code]
    by_cases parent : stem = "."
    · exact .inl (by rw [if_pos parent])
    · refine .inr ⟨front, .refl front, ?_⟩
      rw [if_neg parent, outputName_eq stemOf, codeSuffix, String.append_assoc]

theorem aims_tokenizing (apart : KeepsApart settings.sourceExtension settings.listingSuffix) :
    settings.tokenizing.Aims settings.sourceExtension settings.listingSuffix where
  apart := apart
  output front noSlash name source := by
    obtain ⟨trimmed, trims, withName⟩ := withFileName_entryPath noSlash
    have stemOf : fileStem? (entryPath front name) = fileStem? name := by
      rw [source.isName.fileStem?_entryPath noSlash, source.isName.fileStem?_eq]
    refine .inr ⟨trimmed, trims, ?_⟩
    rw [← withName name _ source.isName (apart.isFileName_and_ne source).1.noSlash, outputName,
      ← stemOf]
    rfl

end BuildSettings

/-! ### What is left behind -/

namespace Processing

/-- What the output of a source is to hold, or why there is none. The reasons are those of reading
the source, of what becomes of its text, and that a directory is in the way. -/
def resultOf (p : Processing) (tree : FileTree) (source : String) : Except Fault (List UInt8) :=
  match tree.read source with
  | .error fault => .error (.storage fault)
  | .ok bytes =>
    match Utf8.decode bytes with
    | .error fault => .error (.encoding fault)
    | .ok text =>
      match p.translate (Build.displayName source) text with
      | .error fault => .error fault
      | .ok contents =>
        if tree.isDirectory (p.output source) then .error (.storage .isDirectory)
        else .ok (Utf8.encode contents)

/-- A source has a result only if no directory is in the way of its output. -/
theorem not_isDirectory_of_resultOf {p : Processing} {tree : FileTree} {source : String}
    {contents : List UInt8} (result : p.resultOf tree source = .ok contents) :
    tree.isDirectory (p.output source) = false := by
  unfold resultOf at result
  split at result
  · cases result
  · split at result
    · cases result
    · split at result
      · cases result
      · split at result
        · cases result
        · rename_i free
          simpa using free

/-- Processing a source comes to its result in another tree, if that has the same source and takes
the output in the same cases. -/
theorem outcome_eq_of_resultOf {p : Processing} {tree final : FileTree} {source : String}
    {next : List UInt8 → FileTree} (same : final.read source = tree.read source)
    (writes : ∀ contents, final.write (p.output source) contents =
      if tree.isDirectory (p.output source) then .error .isDirectory else .ok (next contents)) :
    p.outcome final source = match p.resultOf tree source with
      | .error fault => (.error fault, final)
      | .ok contents => (.ok (p.output source), next contents) := by
  rw [outcome, resultOf, same]
  rcases tree.read source with fault | bytes
  · rfl
  · dsimp only
    rcases Utf8.decode bytes with fault | text
    · rfl
    · dsimp only
      rcases p.translate (Build.displayName source) text with fault | contents
      · rfl
      · dsimp only
        rw [writes]
        cases tree.isDirectory (p.output source) <;> rfl

/-- A directory of a tree in which sources are processed. -/
structure Site (p : Processing) (extension suffix : String) (tree : FileTree) (front : List String)
    (place : Place) : Prop where
  aims : p.Aims extension suffix
  wellFormed : tree.WellFormed
  leads : tree.Leads front place

/-- Names of different sources in a directory of a tree. -/
structure AreSources (extension : String) (tree : FileTree) (place : Place) (names : List String) :
    Prop where
  distinct : names.Nodup
  named : ∀ name ∈ names, IsSourceName extension name
  files : ∀ name ∈ names, ∃ bytes, tree.nodeAt? (place ++ [name]) = some (.file bytes)

theorem AreSources.left {extension : String} {tree : FileTree} {place : Place}
    {done rest : List String} (sources : AreSources extension tree place (done ++ rest)) :
    AreSources extension tree place done where
  distinct := (List.nodup_append.mp sources.distinct).1
  named name mem := sources.named name (List.mem_append_left rest mem)
  files name mem := sources.files name (List.mem_append_left rest mem)

theorem AreSources.new {extension name : String} {tree : FileTree} {place : Place}
    {done rest : List String} (sources : AreSources extension tree place (done ++ name :: rest)) :
    name ∉ done := fun mem =>
  (List.nodup_append.mp sources.distinct).2.2 name mem name List.mem_cons_self rfl

/-- A tree that has the outputs of some sources of a directory, and is else as it was. -/
structure Stored (p : Processing) (extension suffix : String) (tree : FileTree)
    (front : List String) (place : Place) (done : List String) (final : FileTree) : Prop where
  rules : final.rules = tree.rules
  start : final.workingDirectory = tree.workingDirectory
  sources : ∀ name ∈ done, IsSourceName extension name
  results : ∀ name ∈ done, ∃ contents, p.resultOf tree (entryPath front name) = .ok contents ∧
    final.nodeAt? (place ++ [outputName suffix name]) = some (.file contents)
  kept : ∀ other, (∀ name ∈ done, other ≠ place ++ [outputName suffix name]) →
    final.nodeAt? other = tree.nodeAt? other

variable {p : Processing} {extension suffix : String} {tree final : FileTree} {front : List String}
  {place : Place} {done : List String} {name : String}

namespace Site

variable (site : Site p extension suffix tree front place) (source : IsSourceName extension name)
include site source

/-- Writing an output comes to the same in all trees that have the same at its place. -/
theorem write_output (unlimited : final.rules = {}) (leads : final.Leads front place)
    (same : final.nodeAt? (place ++ [outputName suffix name]) =
      tree.nodeAt? (place ++ [outputName suffix name])) (contents : List UInt8) :
    final.write (p.output (entryPath front name)) contents =
      if tree.isDirectory (p.output (entryPath front name)) then .error .isDirectory
      else .ok (final.insert (place ++ [outputName suffix name]) (.file contents)) := by
  have isName := (site.aims.apart.isFileName_and_ne source).1
  -- What leads to the directory around cannot be written, in no tree.
  obtain parent | ⟨trimmed, trims, output⟩ := site.aims.output front leads.noSlash name source
  · rw [parent, if_pos (site.wellFormed.isDirectory_parent site.leads),
      leads.write_parent unlimited]
  · have directory := (site.leads.trimmed trims).isDirectory_entryPath site.wellFormed.unlimited
      isName
    rw [output, (leads.trimmed trims).write_entryPath unlimited isName, same]
    exact if_congr directory.symm rfl rfl

/-- The place of an output that can be written is no directory. -/
theorem not_directory {contents : List UInt8}
    (result : p.resultOf tree (entryPath front name) = .ok contents) :
    tree.nodeAt? (place ++ [outputName suffix name]) ≠ some .directory := by
  have free := not_isDirectory_of_resultOf result
  obtain parent | ⟨trimmed, trims, output⟩ := site.aims.output front site.leads.noSlash name source
  · rw [parent, site.wellFormed.isDirectory_parent site.leads] at free
    cases free
  · have isName := (site.aims.apart.isFileName_and_ne source).1
    rw [output] at free
    rw [Ne, ← (site.leads.trimmed trims).isDirectory_entryPath site.wellFormed.unlimited isName,
      free]
    simp

end Site

/-! ### Source after source -/

namespace Stored

theorem nil : Stored p extension suffix tree front place [] tree where
  rules := rfl
  start := rfl
  sources := by simp
  results := by simp
  kept _ _ := rfl

variable (stored : Stored p extension suffix tree front place done final)
include stored

/-- A source stays as it was: no output is a source. -/
theorem nodeAt?_source (apart : KeepsApart extension suffix)
    (source : IsSourceName extension name) :
    final.nodeAt? (place ++ [name]) = tree.nodeAt? (place ++ [name]) := by
  refine stored.kept _ fun other mem same => ?_
  obtain rfl : name = outputName suffix other := by simpa using same
  exact (apart.isFileName_and_ne (stored.sources other mem)).2 source.has

/-- The place of another output stays as it was: no two outputs are the same. -/
theorem nodeAt?_output (source : IsSourceName extension name) (new : name ∉ done) :
    final.nodeAt? (place ++ [outputName suffix name]) =
      tree.nodeAt? (place ++ [outputName suffix name]) := by
  refine stored.kept _ fun other mem same => new ?_
  rwa [source.eq_of_outputName (stored.sources other mem) (by simpa using same)]

/-- One more output. -/
theorem concat (source : IsSourceName extension name) (new : name ∉ done) {contents : List UInt8}
    (result : p.resultOf tree (entryPath front name) = .ok contents) :
    Stored p extension suffix tree front place (done ++ [name])
      (final.insert (place ++ [outputName suffix name]) (.file contents)) where
  rules := stored.rules
  start := stored.start
  sources := by simpa [or_imp, forall_and] using ⟨stored.sources, source⟩
  results other mem := by
    rw [FileTree.nodeAt?_insert _ (by simp)]
    obtain mem | rfl : other ∈ done ∨ other = name := by simpa using mem
    · obtain ⟨contents', result', stands⟩ := stored.results other mem
      have different : outputName suffix other ≠ outputName suffix name := fun same =>
        new ((stored.sources other mem).eq_of_outputName source same ▸ mem)
      exact ⟨contents', result', by rw [if_neg (by simpa using different), stands]⟩
    · exact ⟨contents, result, if_pos rfl⟩
  kept other different := by
    have different' : other ≠ place ++ [outputName suffix name] := different name (by simp)
    rw [FileTree.nodeAt?_insert _ (by simp), if_neg different']
    exact stored.kept other fun name mem => different name (by simp [mem])

variable (site : Site p extension suffix tree front place)
include site

/-- Directories stay directories: no output has taken the place of one. -/
theorem directory (other : Place) (directory : tree.nodeAt? other = some .directory) :
    final.nodeAt? other = some .directory := by
  rw [stored.kept other fun name mem same => ?_, directory]
  obtain ⟨contents, result, -⟩ := stored.results name mem
  exact site.not_directory (stored.sources name mem) result (same ▸ directory)

theorem leads : final.Leads front place :=
  site.leads.of_directories stored.rules stored.start (stored.directory site)

/-- **A source behind others comes to what it comes to alone.** -/
theorem outcome (source : IsSourceName extension name) (new : name ∉ done) {bytes : List UInt8}
    (file : tree.nodeAt? (place ++ [name]) = some (.file bytes)) :
    p.outcome final (entryPath front name) = match p.resultOf tree (entryPath front name) with
      | .error fault => (.error fault, final)
      | .ok contents => (.ok (p.output (entryPath front name)),
          final.insert (place ++ [outputName suffix name]) (.file contents)) := by
  have unlimited : final.rules = {} := stored.rules.trans site.wellFormed.unlimited
  have leads := stored.leads site
  have free := stored.nodeAt?_output source new
  refine outcome_eq_of_resultOf ?_ (site.write_output source unlimited leads free)
  rw [site.leads.read_entryPath site.wellFormed.unlimited source.isName file]
  refine leads.read_entryPath unlimited source.isName ?_
  rw [stored.nodeAt?_source site.aims.apart source, file]

/-- Sources that come to results alone come to them one after the other. -/
theorem outcomes {succeeding : List String}
    (sources : AreSources extension tree place (done ++ succeeding))
    (succeed : ∀ name ∈ succeeding, ∃ contents,
      p.resultOf tree (entryPath front name) = .ok contents) (rest : List String) :
    ∃ behind, Stored p extension suffix tree front place (done ++ succeeding) behind ∧
      p.outcomes final ((succeeding ++ rest).map (entryPath front)) =
        match p.outcomes behind (rest.map (entryPath front)) with
        | (.error fault, tree) => (.error fault, tree)
        | (.ok outputs, tree) =>
          (.ok (succeeding.map (fun name => p.output (entryPath front name)) ++ outputs),
            tree) := by
  -- A source moves from those to come to those that are done, and the tree changes with it.
  induction succeeding generalizing done final with
  | nil =>
    refine ⟨final, by simpa using stored, ?_⟩
    rw [List.nil_append, List.map_nil]
    rcases p.outcomes final (rest.map (entryPath front)) with ⟨_ | outputs, behind⟩ <;> rfl
  | cons name succeeding ih =>
    obtain ⟨⟨contents, result⟩, succeed⟩ := List.forall_mem_cons.mp succeed
    have source := sources.named name (by simp)
    obtain ⟨bytes, file⟩ := sources.files name (by simp)
    obtain ⟨behind, stored', run⟩ := ih (stored.concat source sources.new result)
      (by simpa using sources) succeed
    refine ⟨behind, by simpa using stored', ?_⟩
    rw [List.cons_append, List.map_cons, Processing.outcomes,
      stored.outcome site source sources.new file, result]
    dsimp only
    rw [run]
    rcases p.outcomes behind (rest.map (entryPath front)) with ⟨_ | outputs, tree'⟩ <;> rfl

end Stored

namespace Site

variable (site : Site p extension suffix tree front place)
include site

/-- **Sources that all come to results have all outputs written.** -/
theorem outcomes_of_succeed {names : List String} (sources : AreSources extension tree place names)
    (succeed : ∀ name ∈ names, ∃ contents, p.resultOf tree (entryPath front name) = .ok contents) :
    ∃ behind, Stored p extension suffix tree front place names behind ∧
      p.outcomes tree (names.map (entryPath front)) =
        (.ok (names.map fun name => p.output (entryPath front name)), behind) := by
  obtain ⟨behind, stored, run⟩ := Stored.nil.outcomes site sources succeed []
  rw [List.append_nil, List.map_nil, outcomes] at run
  dsimp only at run
  rw [List.append_nil] at run
  exact ⟨behind, stored, run⟩

/-- **The outputs in front of a failure are written, and no others.** -/
theorem outcomes_of_fails {failing : String} {rest : List String} {fault : Fault}
    (sources : AreSources extension tree place (done ++ failing :: rest))
    (succeed : ∀ name ∈ done, ∃ contents, p.resultOf tree (entryPath front name) = .ok contents)
    (fails : p.resultOf tree (entryPath front failing) = .error fault) :
    ∃ behind, Stored p extension suffix tree front place done behind ∧
      p.outcomes tree ((done ++ failing :: rest).map (entryPath front)) =
        (.error fault, behind) := by
  obtain ⟨behind, stored, run⟩ := Stored.nil.outcomes site sources.left succeed (failing :: rest)
  obtain ⟨bytes, file⟩ := sources.files failing (by simp)
  have failed := stored.outcome site (sources.named failing (by simp)) sources.new file
  rw [fails] at failed
  exact ⟨behind, stored, run.trans (by rw [List.map_cons, outcomes, failed])⟩

end Site

end Processing

/-! ### Builds of directories -/

/-- The path of an entry of a directory with the given path. -/
def sourcePath (path name : String) : String :=
  String.ofList (joinPath path.toList name.toList)

/-- The name of an entry that is a source. -/
def sourceName? (extension : String) (entry : String × FileNode) : Option String :=
  match entry.2 with
  | .file _ => if fileExtension? entry.1 = some extension then some entry.1 else none
  | .directory => none

theorem sourceName?_eq_some {extension name : String} {entry : String × FileNode} :
    sourceName? extension entry = some name ↔
      ∃ bytes, (name, .file bytes) = entry ∧ fileExtension? name = some extension := by
  obtain ⟨name', bytes | -⟩ := entry
  · constructor
    · intro found
      obtain ⟨has, same⟩ := Option.ite_none_right_eq_some.mp found
      cases same
      exact ⟨bytes, rfl, has⟩
    · rintro ⟨_, same, has⟩
      cases same
      exact if_pos has
  · simp [sourceName?]

/-- The names of the sources in a directory, in order. -/
def BuildSettings.sourceNames (settings : BuildSettings) (tree : FileTree) (place : Place) :
    List String :=
  (tree.entries place).filterMap (sourceName? settings.sourceExtension)

namespace Processing

/-- A tree that a build has left behind: it has the outputs of some sources of a directory, and is
else as it was. -/
structure Wrote (p : Processing) (suffix : String) (tree : FileTree) (path : String)
    (place : Place) (done : List String) (final : FileTree) : Prop where
  outputs : ∀ name ∈ done, ∃ contents, p.resultOf tree (sourcePath path name) = .ok contents ∧
    final.nodeAt? (place ++ [outputName suffix name]) = some (.file contents) ∧
    final.read (p.output (sourcePath path name)) = .ok contents
  others : ∀ other, (∀ name ∈ done, other ≠ place ++ [outputName suffix name]) →
    final.nodeAt? other = tree.nodeAt? other
  rules : final.rules = tree.rules
  start : final.workingDirectory = tree.workingDirectory

/-- What a build of a directory comes to. The given names are those of the sources in it. -/
structure StopsAtFirstFailure (p : Processing) (extension suffix : String) (tree : FileTree)
    (path : String) (place : Place) (names : List String)
    (run : Except Fault (List String) × FileTree) : Prop where
  /-- Without sources there is nothing to do. -/
  nothing : names = [] →
    run = (.error (.usage ("no ." ++ extension ++ " files in directory " ++ path)), tree)
  success : names ≠ [] →
    (∀ name ∈ names, ∃ contents, p.resultOf tree (sourcePath path name) = .ok contents) →
    run.1 = .ok (names.map fun name => p.output (sourcePath path name)) ∧
      p.Wrote suffix tree path place names run.2
  /-- The first failure is the answer. The outputs in front of it are written. -/
  failure : ∀ done failing rest fault, names = done ++ failing :: rest →
    (∀ name ∈ done, ∃ contents, p.resultOf tree (sourcePath path name) = .ok contents) →
    p.resultOf tree (sourcePath path failing) = .error fault →
    run.1 = .error fault ∧ p.Wrote suffix tree path place done run.2

end Processing

/-- The outputs that are stored can be read under their paths. -/
theorem Processing.Stored.wrote {p : Processing} {extension suffix : String}
    {tree final : FileTree} {front : List String} {place : Place} {done : List String}
    {path : String} (stored : Stored p extension suffix tree front place done final)
    (site : Site p extension suffix tree front place)
    (join : ∀ name ∈ done, sourcePath path name = entryPath front name) :
    p.Wrote suffix tree path place done final where
  outputs name mem := by
    have source := stored.sources name mem
    obtain ⟨contents, result, stands⟩ := stored.results name mem
    rw [join name mem]
    refine ⟨contents, result, stands, ?_⟩
    obtain parent | ⟨trimmed, trims, output⟩ :=
      site.aims.output front site.leads.noSlash name source
    · have free := not_isDirectory_of_resultOf result
      rw [parent, site.wellFormed.isDirectory_parent site.leads] at free
      cases free
    · rw [output]
      exact ((stored.leads site).trimmed trims).read_entryPath
        (stored.rules.trans site.wellFormed.unlimited)
        (site.aims.apart.isFileName_and_ne source).1 stands
  others := stored.kept
  rules := stored.rules
  start := stored.start

namespace BuildSettings

/-- The path of an entry that a build takes for a source. -/
def entrySource? (settings : BuildSettings) (tree : FileTree) (path : String)
    (entry : String × FileNode) : Option String :=
  match entry.2 with
  | .file _ =>
    if settings.isSource (sourcePath path entry.1) &&
      (tree.rules.checkPath (sourcePath path entry.1)).isOk
    then some (sourcePath path entry.1) else none
  | .directory => none

variable {settings : BuildSettings} {tree : FileTree} {path : String} {place : Place}
  {name : String}

variable (wellFormed : tree.WellFormed)
include wellFormed

theorem mem_sourceNames : name ∈ settings.sourceNames tree place ↔
    (∃ bytes, tree.nodeAt? (place ++ [name]) = some (.file bytes)) ∧
      fileExtension? name = some settings.sourceExtension := by
  rw [sourceNames, List.mem_filterMap]
  simp only [sourceName?_eq_some, ← wellFormed.mem_entries_iff]
  constructor
  · rintro ⟨entry, mem, bytes, rfl, has⟩
    exact ⟨⟨bytes, mem⟩, has⟩
  · rintro ⟨⟨bytes, mem⟩, has⟩
    exact ⟨_, mem, bytes, rfl, has⟩

theorem sorted_sourceNames (settings : BuildSettings) (place : Place) :
    (settings.sourceNames tree place).Pairwise (· < ·) := by
  rw [sourceNames, List.pairwise_filterMap]
  refine (wellFormed.sorted_entries place).imp fun {one other} before name is name' is' => ?_
  obtain ⟨bytes, rfl, -⟩ := sourceName?_eq_some.mp is
  obtain ⟨bytes', rfl, -⟩ := sourceName?_eq_some.mp is'
  exact before

theorem areSources_sourceNames (settings : BuildSettings) (place : Place) :
    Processing.AreSources settings.sourceExtension tree place
      (settings.sourceNames tree place) where
  distinct := (sorted_sourceNames wellFormed settings place).imp ne_of_lt
  named name mem := by
    obtain ⟨⟨bytes, file⟩, has⟩ := (mem_sourceNames wellFormed).mp mem
    exact ⟨wellFormed.isFileName_of_nodeAt? file, has⟩
  files name mem := ((mem_sourceNames wellFormed).mp mem).1

/-- The sources that a path to a directory stands for. -/
theorem sources_of_directory (resolves : tree.resolve path = .ok place)
    (directory : tree.nodeAt? place = some .directory) :
    settings.sources tree path =
      if settings.sourceNames tree place = [] then
        .error (.usage ("no ." ++ settings.sourceExtension ++ " files in directory " ++ path))
      else .ok ((settings.sourceNames tree place).map (sourcePath path)) := by
  have found := FileTree.find_of_resolve resolves directory
  have unfolded : settings.sources tree path =
      if ((tree.entries place).filterMap (settings.entrySource? tree path)).isEmpty then
        .error (.usage ("no ." ++ settings.sourceExtension ++ " files in directory " ++ path))
      else .ok ((tree.entries place).filterMap (settings.entrySource? tree path)) := by
    rw [sources, found, resolves]
    rfl
  obtain ⟨front, leads, join⟩ := FileTree.exists_leads wellFormed.unlimited resolves directory
  have files : (tree.entries place).filterMap (settings.entrySource? tree path) =
      (settings.sourceNames tree place).map (sourcePath path) := by
    rw [sourceNames, List.map_filterMap]
    refine List.filterMap_congr fun entry mem => ?_
    have isName := wellFormed.isFileName_of_nodeAt? (wellFormed.mem_entries_iff.mp mem)
    obtain ⟨name, bytes | -⟩ := entry
    · have source : (settings.isSource (sourcePath path name) &&
          (tree.rules.checkPath (sourcePath path name)).isOk) = true ↔
            fileExtension? name = some settings.sourceExtension := by
        rw [wellFormed.unlimited, PathRules.checkPath_default, Bool.and_eq_true, isSource,
          beq_iff_eq, sourcePath, join name isName.noSlash,
          isName.fileExtension?_entryPath leads.noSlash, isName.fileExtension?_eq]
        exact and_iff_left rfl
      rw [entrySource?, sourceName?]
      dsimp only
      by_cases has : fileExtension? name = some settings.sourceExtension
      · rw [if_pos (source.mpr has), if_pos has, Option.map_some]
      · rw [if_neg (mt source.mp has), if_neg has, Option.map_none]
    · rfl
  rw [unfolded, files, List.isEmpty_map]
  exact if_congr List.isEmpty_iff rfl rfl

end BuildSettings

/-! ### Both builds -/

section Both

variable {settings : BuildSettings} {workspace : Workspace} {path : String} {place : Place}

/-- A build that processes sources does so with those that its path stands for. -/
theorem Processing.Performs.onTree_forSources {p : Processing} {process : String → Build String}
    (performs : p.Performs process) (settings : BuildSettings) (path : String)
    (workspace : Workspace) :
    Build.onTree (Build.forSources settings path process) workspace =
      match settings.sources workspace.tree path with
      | .error fault => (.error fault, workspace.tree)
      | .ok sources => p.outcomes workspace.tree sources := by
  rw [Build.onTree, Build.forSources, Build.run_bind, Build.run_get]
  dsimp only
  rcases settings.sources workspace.tree path with fault | sources
  · rfl
  · exact Processing.onTree_mapM performs sources workspace

/-- **A build of a directory writes the outputs up to the first failure.** -/
theorem Processing.Performs.stopsAtFirstFailure {p : Processing} {process : String → Build String}
    {suffix : String} (performs : p.Performs process)
    (aims : p.Aims settings.sourceExtension suffix) (wellFormed : workspace.tree.WellFormed)
    (resolves : workspace.tree.resolve path = .ok place)
    (directory : workspace.tree.nodeAt? place = some .directory) :
    p.StopsAtFirstFailure settings.sourceExtension suffix workspace.tree path place
      (settings.sourceNames workspace.tree place)
      (Build.onTree (Build.forSources settings path process) workspace) := by
  obtain ⟨front, leads, join⟩ := FileTree.exists_leads wellFormed.unlimited resolves directory
  have site : Site p settings.sourceExtension suffix workspace.tree front place :=
    ⟨aims, wellFormed, leads⟩
  have sources := BuildSettings.areSources_sourceNames wellFormed settings place
  have paths (name : String) (mem : name ∈ settings.sourceNames workspace.tree place) :
      sourcePath path name = entryPath front name :=
    join name (sources.named name mem).isName.noSlash
  rw [performs.onTree_forSources, BuildSettings.sources_of_directory wellFormed resolves directory]
  -- From here on it only counts that the names are those of sources.
  generalize settings.sourceNames workspace.tree place = names at sources paths
  refine ⟨fun none => ?_, fun some succeed => ?_,
    fun done failing rest fault all succeed fails => ?_⟩
  · rw [if_pos none]
  · rw [if_neg some, List.map_congr_left paths]
    obtain ⟨behind, stored, run⟩ := site.outcomes_of_succeed sources fun name mem =>
      paths name mem ▸ succeed name mem
    dsimp only
    rw [run]
    refine ⟨congrArg Except.ok ?_, stored.wrote site paths⟩
    exact List.map_congr_left fun name mem => by rw [paths name mem]
  · subst all
    have inside (name : String) (mem : name ∈ done) :=
      paths name (List.mem_append_left (failing :: rest) mem)
    rw [if_neg (by simp), List.map_congr_left paths]
    obtain ⟨behind, stored, run⟩ := site.outcomes_of_fails sources
      (fun name mem => inside name mem ▸ succeed name mem)
      (paths failing (by simp) ▸ fails)
    dsimp only
    rw [run]
    exact ⟨rfl, stored.wrote site inside⟩

/-- What builds of a directory come to. Its sources are the files in it that have the extension of
sources, in order of their names. -/
def BuildSettings.StopAtFirstFailure (settings : BuildSettings) (workspace : Workspace)
    (path : String) (place : Place) : Prop :=
  ∃ names : List String, names.Pairwise (· < ·) ∧
    (∀ name, name ∈ names ↔
      (∃ bytes, workspace.tree.nodeAt? (place ++ [name]) = some (.file bytes)) ∧
        fileExtension? name = some settings.sourceExtension) ∧
    (settings.KeepsCodeApart →
      settings.compiling.StopsAtFirstFailure settings.sourceExtension settings.codeSuffix
        workspace.tree path place names
        (Build.onTree (Build.compilePath settings path) workspace)) ∧
    (KeepsApart settings.sourceExtension settings.listingSuffix →
      settings.tokenizing.StopsAtFirstFailure settings.sourceExtension settings.listingSuffix
        workspace.tree path place names
        (Build.onTree (Build.tokenizePath settings path) workspace))

/-- **Both builds of a directory write the outputs up to the first failure.** -/
theorem builds_stopAtFirstFailure (settings : BuildSettings) (workspace : Workspace) (path : String)
    (place : Place) (wellFormed : workspace.tree.WellFormed)
    (resolves : workspace.tree.resolve path = .ok place)
    (directory : workspace.tree.nodeAt? place = some .directory) :
    settings.StopAtFirstFailure workspace path place := by
  refine ⟨settings.sourceNames workspace.tree place,
    BuildSettings.sorted_sourceNames wellFormed settings place,
    fun name => BuildSettings.mem_sourceNames wellFormed, fun apart => ?_, fun apart => ?_⟩
  · have usable : isExtension settings.outputExtension = true := by
      simpa [isExtension] using apart.noSlash
    exact (BuildSettings.performs_compileFile usable).stopsAtFirstFailure
      apart.aims_compiling wellFormed resolves directory
  · exact (BuildSettings.performs_tokenizeFile settings).stopsAtFirstFailure
      (BuildSettings.aims_tokenizing apart) wellFormed resolves directory

end Both

/-- A directory with a source that is no class, between two that are classes. A directory is in the
way of the code of one of these, and there is an old listing of the other. -/
def halfBroken : FileTree where
  nodes := [(["d"], .directory), (["d", "C.jack"], .file (Utf8.encode "class C \x7b \x7d")),
    (["d", "B.jack"], .file (Utf8.encode "class B \x7b")), (["d", "C.vm"], .directory),
    (["d", "A.jack"], .file (Utf8.encode "class A \x7b \x7d")), (["d", "AT.xml"], .file [0xFF])]

theorem builds_stopAtFirstFailure_halfBroken :
    halfBroken.WellFormed ∧ halfBroken.resolve "d/." = .ok ["d"] ∧
      halfBroken.nodeAt? ["d"] = some .directory ∧ ({} : BuildSettings).KeepsCodeApart ∧
      KeepsApart "jack" "T.xml" ∧
      ({} : BuildSettings).StopAtFirstFailure { tree := halfBroken } "d/." ["d"] := by
  have wellFormed : halfBroken.WellFormed := by decide +kernel
  refine ⟨wellFormed, rfl, rfl, ⟨by decide, by decide, by decide, by decide⟩,
    ⟨by decide, "T", "xml", rfl, by decide, by decide, by decide⟩, ?_⟩
  exact builds_stopAtFirstFailure {} { tree := halfBroken } "d/." ["d"] wellFormed rfl rfl

end JackCompiler
