import JackCompiler.Proofs.Files.FirstFailure

/-!
# Builds that follow each other

Builds read sources, and they write files that are no sources and take the place of no directory. A
build that follows another one therefore comes to what it comes to alone, whether or not one of them
fails. The same build once more changes nothing, and compiling and listing tokens can trade places.

## Main definitions

* `FileTree.Same` — two trees hold the same
* `FileTree.SameSources` — two trees have the same sources and directories
* `BuildSettings.StandsFor` — the sources that a path stands for
* `Processing.answer`, `Processing.succeeding` — what processing sources comes to, and which of them
  have outputs then
* `Build.Repeats`, `Build.Commutes` — builds that can be repeated, and builds that can trade places

## Main results

* `FileTree.SameSources.resultOf`, `BuildSettings.StandsFor.build_of_sameSources` — a source and a
  build come to the same in trees with the same sources
* `Processing.Stored.sameSources` — what a build leaves behind has the same sources
* `Processing.Stored.same`, `Processing.Stored.commute` — outputs are written twice, or in another
  order
* `Processing.wellFormed_build` — builds keep trees well-formed
* `BuildSettings.KeepsOutputsApart.buildsIndependently`, `builds_independent` — both builds can be
  repeated, and they can trade places
-/

namespace JackCompiler

/-! ### Trees that agree -/

/-- Two trees hold the same. -/
structure FileTree.Same (tree other : FileTree) : Prop where
  nodes : ∀ place, other.nodeAt? place = tree.nodeAt? place
  start : other.workingDirectory = tree.workingDirectory
  rules : other.rules = tree.rules

theorem FileTree.Same.refl (tree : FileTree) : tree.Same tree :=
  ⟨fun _ => rfl, rfl, rfl⟩

/-- Two trees have the same directories, and the same stands in them under the names that sources
have. -/
structure FileTree.SameSources (extension : String) (tree other : FileTree) : Prop where
  directories : ∀ place,
    other.nodeAt? place = some .directory ↔ tree.nodeAt? place = some .directory
  sources : ∀ place name, fileExtension? name = some extension →
    other.nodeAt? (place ++ [name]) = tree.nodeAt? (place ++ [name])
  start : other.workingDirectory = tree.workingDirectory
  rules : other.rules = tree.rules

namespace FileTree.SameSources

variable {settings : BuildSettings} {p : Processing} {extension suffix path : String}
  {tree tree' : FileTree} {front names : List String} {place : Place}

theorem leads (same : SameSources extension tree tree') (leads : tree.Leads front place) :
    tree'.Leads front place :=
  leads.of_directories same.rules same.start fun other => (same.directories other).mpr

theorem areSources (same : SameSources extension tree tree')
    (sources : Processing.AreSources extension tree place names) :
    Processing.AreSources extension tree' place names where
  distinct := sources.distinct
  named := sources.named
  files name mem := by
    rw [same.sources place name (sources.named name mem).has]
    exact sources.files name mem

/-- A path that leads somewhere leads there in both trees. -/
theorem resolve (same : SameSources extension tree tree') (unlimited : tree.rules = {})
    (resolves : tree.resolve path = .ok place) : tree'.resolve path = .ok place := by
  rw [resolve_eq unlimited] at resolves
  rw [resolve_eq (same.rules.trans unlimited)]
  by_cases empty : path = ""
  · rw [if_pos empty] at resolves
    cases resolves
  · rw [if_neg empty] at resolves ⊢
    rw [startOf, same.start]
    exact follow_of_directories same.rules (fun other => (same.directories other).mpr) resolves

/-- **A source comes to the same in both trees.** -/
theorem resultOf (same : SameSources extension tree tree')
    (site : Processing.Site p extension suffix tree front place)
    (wellFormed : tree'.WellFormed) {name : String} (source : IsSourceName extension name)
    {bytes : List UInt8} (file : tree.nodeAt? (place ++ [name]) = some (.file bytes)) :
    p.resultOf tree' (entryPath front name) = p.resultOf tree (entryPath front name) := by
  have leads := same.leads site.leads
  have read : tree'.read (entryPath front name) = tree.read (entryPath front name) := by
    rw [site.leads.read_entryPath site.wellFormed.unlimited source.isName file]
    refine leads.read_entryPath wellFormed.unlimited source.isName ?_
    rw [same.sources place name source.has, file]
  -- The output is either the directory around, in both trees, or the same place in both.
  have blocked : tree'.isDirectory (p.output (entryPath front name)) =
      tree.isDirectory (p.output (entryPath front name)) := by
    obtain parent | ⟨trimmed, trims, output⟩ :=
      site.aims.output front site.leads.noSlash name source
    · rw [parent, wellFormed.isDirectory_parent leads,
        site.wellFormed.isDirectory_parent site.leads]
    · have isName := (site.aims.apart.isFileName_and_ne source).1
      rw [output, Bool.eq_iff_iff,
        (leads.trimmed trims).isDirectory_entryPath wellFormed.unlimited isName,
        (site.leads.trimmed trims).isDirectory_entryPath site.wellFormed.unlimited isName]
      exact same.directories _
  rw [Processing.resultOf, Processing.resultOf, read, blocked]

theorem sourceNames (same : SameSources settings.sourceExtension tree tree')
    (wellFormed : tree.WellFormed) (wellFormed' : tree'.WellFormed) (place : Place) :
    settings.sourceNames tree' place = settings.sourceNames tree place := by
  have sorted := BuildSettings.sorted_sourceNames wellFormed settings place
  have sorted' := BuildSettings.sorted_sourceNames wellFormed' settings place
  have mem (name : String) :
      name ∈ settings.sourceNames tree' place ↔ name ∈ settings.sourceNames tree place := by
    rw [BuildSettings.mem_sourceNames wellFormed, BuildSettings.mem_sourceNames wellFormed']
    exact and_congr_left fun has => by rw [same.sources place name has]
  -- Sorted lists with the same members are the same.
  refine ((List.perm_ext_iff_of_nodup (sorted'.imp ne_of_lt) (sorted.imp ne_of_lt)).mpr mem
    ).eq_of_pairwise (fun a b _ _ before after => ?_) sorted' sorted
  exact absurd after (lt_asymm before)

end FileTree.SameSources

/-! ### The sources that a path stands for -/

namespace BuildSettings

variable {settings : BuildSettings} {tree tree' : FileTree} {path : String} {place : Place}
  {front names : List String}

/-- A path stands for the sources with the given names behind a front. -/
structure StandsFor (settings : BuildSettings) (tree : FileTree) (path : String)
    (front : List String) (place : Place) (names : List String) : Prop where
  leads : tree.Leads front place
  areSources : Processing.AreSources settings.sourceExtension tree place names
  found : settings.sources tree path = .ok (names.map (entryPath front))

theorem sources_of_file {contents : List UInt8} (resolves : tree.resolve path = .ok place)
    (file : tree.nodeAt? place = some (.file contents)) : settings.sources tree path =
      if settings.isSource path then .ok [path]
      else .error (.usage (path ++ " is not a ." ++ settings.sourceExtension ++ " file")) := by
  rw [sources, FileTree.find_of_resolve resolves file]

/-- A path that stands for sources leads to a directory or to a source. -/
theorem exists_of_sources {sources : List String}
    (found : settings.sources tree path = .ok sources) :
    ∃ place node, tree.resolve path = .ok place ∧ tree.nodeAt? place = some node := by
  rw [BuildSettings.sources, FileTree.find] at found
  rcases resolves : tree.resolve path with fault | place
  · rw [resolves] at found
    cases found
  · cases stands : tree.nodeAt? place with
    | none =>
      simp only [resolves, Bind.bind, Except.bind, stands] at found
      cases found
    | some node => exact ⟨place, node, rfl, stands⟩

theorem isSource_entryPath {name : String} (isName : IsFileName name)
    (noSlash : ∀ piece ∈ front, '/' ∉ piece.toList) :
    settings.isSource (entryPath front name) = true ↔
      fileExtension? name = some settings.sourceExtension := by
  rw [isSource, beq_iff_eq, isName.fileExtension?_entryPath noSlash, isName.fileExtension?_eq]

section WellFormed

variable (wellFormed : tree.WellFormed)
include wellFormed

/-- A source that a path leads to. -/
theorem standsFor_of_file {contents : List UInt8} (resolves : tree.resolve path = .ok place)
    (file : tree.nodeAt? place = some (.file contents)) (isSource : settings.isSource path = true) :
    ∃ front directory name, settings.StandsFor tree path front directory [name] := by
  obtain ⟨front, directory, name, leads, isName, rfl, rfl⟩ :=
    wellFormed.exists_entryPath resolves file
  have has := (isSource_entryPath isName leads.noSlash).mp isSource
  refine ⟨front, directory, name, leads, ⟨by simp, ?_, ?_⟩, ?_⟩
  · simpa using ⟨isName, has⟩
  · simpa using ⟨contents, file⟩
  · rw [sources_of_file resolves file, if_pos isSource]
    rfl

/-- The sources in a directory that a path leads to. -/
theorem standsFor_of_directory (resolves : tree.resolve path = .ok place)
    (directory : tree.nodeAt? place = some .directory) {sources : List String}
    (found : settings.sources tree path = .ok sources) :
    ∃ front, settings.StandsFor tree path front place (settings.sourceNames tree place) := by
  obtain ⟨front, leads, join⟩ := FileTree.exists_leads wellFormed.unlimited resolves directory
  have areSources := areSources_sourceNames wellFormed settings place
  refine ⟨front, leads, areSources, ?_⟩
  rw [sources_of_directory wellFormed resolves directory] at found ⊢
  split at found
  · cases found
  · rename_i some
    rw [if_neg some]
    exact congrArg Except.ok (List.map_congr_left fun name mem =>
      join name (areSources.named name mem).isName.noSlash)

/-- What a path stands for are sources behind a front that leads to a directory. -/
theorem exists_standsFor {sources : List String}
    (found : settings.sources tree path = .ok sources) :
    ∃ front place names, settings.StandsFor tree path front place names := by
  obtain ⟨place, contents | -, resolves, stands⟩ := exists_of_sources found
  · rw [sources_of_file resolves stands] at found
    split at found
    · rename_i isSource
      obtain ⟨front, directory, name, standsFor⟩ :=
        standsFor_of_file wellFormed resolves stands isSource
      exact ⟨front, directory, [name], standsFor⟩
    · cases found
  · obtain ⟨front, standsFor⟩ := standsFor_of_directory wellFormed resolves stands found
    exact ⟨front, place, _, standsFor⟩

/-- **A path stands for the same sources in trees with the same sources.** -/
theorem StandsFor.of_sameSources (standsFor : settings.StandsFor tree path front place names)
    (same : FileTree.SameSources settings.sourceExtension tree tree')
    (wellFormed' : tree'.WellFormed) : settings.StandsFor tree' path front place names := by
  refine ⟨same.leads standsFor.leads, same.areSources standsFor.areSources, ?_⟩
  obtain ⟨here, contents | -, resolves, stands⟩ := exists_of_sources standsFor.found
  -- That a file is a source shows in its path, so it has kept its place.
  · have found := standsFor.found
    have resolves' := same.resolve wellFormed.unlimited resolves
    obtain ⟨front', directory, name, leads, isName, rfl, rfl⟩ :=
      wellFormed.exists_entryPath resolves stands
    rw [sources_of_file resolves stands] at found
    by_cases isSource : settings.isSource (entryPath front' name) = true
    · have has := (isSource_entryPath isName leads.noSlash).mp isSource
      rwa [sources_of_file resolves' ((same.sources directory name has).trans stands)]
    · rw [if_neg isSource] at found
      cases found
  · rw [← standsFor.found, sources_of_directory wellFormed resolves stands,
      sources_of_directory wellFormed' (same.resolve wellFormed.unlimited resolves)
        ((same.directories here).mpr stands), same.sourceNames wellFormed wellFormed']

end WellFormed

end BuildSettings

/-! ### Trees behind builds -/

namespace Processing

variable {p q : Processing} {extension suffix suffix' : String} {tree tree' final : FileTree}
  {front names done done' : List String} {place : Place}

theorem wellFormed_outcome (p : Processing) (wellFormed : tree.WellFormed) (source : String) :
    (p.outcome tree source).2.WellFormed := by
  rw [outcome]
  rcases tree.read source with fault | bytes
  · exact wellFormed
  dsimp only
  rcases Utf8.decode bytes with fault | text
  · exact wellFormed
  dsimp only
  rcases p.translate (Build.displayName source) text with fault | contents
  · exact wellFormed
  dsimp only
  rcases written : tree.write (p.output source) (Utf8.encode contents) with fault | behind
  · exact wellFormed
  · exact wellFormed.write written

/-- **Processing sources keeps a tree well-formed.** -/
theorem wellFormed_outcomes (p : Processing) (wellFormed : tree.WellFormed)
    (sources : List String) : (p.outcomes tree sources).2.WellFormed := by
  induction sources generalizing tree with
  | nil => exact wellFormed
  | cons source sources ih =>
    have first := p.wellFormed_outcome wellFormed source
    rw [outcomes]
    rcases run : p.outcome tree source with ⟨fault | output, middle⟩
    · rwa [run] at first
    · rw [run] at first
      have rest := ih first
      dsimp only
      rcases run' : p.outcomes middle sources with ⟨_ | outputs, behind⟩ <;> rwa [run'] at rest

/-- What is written are no sources and no directories. -/
theorem Stored.sameSources (stored : Stored p extension suffix tree front place done final)
    (site : Site p extension suffix tree front place) :
    FileTree.SameSources extension tree final where
  directories other := by
    refine ⟨fun directory => ?_, stored.directory site other⟩
    rw [← stored.kept other fun name mem same => ?_, directory]
    -- The place of an output holds a file.
    obtain ⟨contents, -, stands⟩ := stored.results name mem
    rw [same, stands] at directory
    cases directory
  sources here name has := by
    refine stored.kept _ fun other mem same => ?_
    obtain ⟨-, rfl⟩ : here = place ∧ name = outputName suffix other := by simpa using same
    exact (site.aims.apart.isFileName_and_ne (stored.sources other mem)).2 has
  start := stored.start
  rules := stored.rules

section Twice

variable (stored : Stored p extension suffix tree front place done final)
include stored

/-- Trees with the outputs of sources agree on them if these come to the same results. -/
theorem Stored.nodeAt?_output_eq {final' : FileTree}
    (stored' : Stored p extension suffix tree' front place done final')
    (results : ∀ name ∈ done,
      p.resultOf tree' (entryPath front name) = p.resultOf tree (entryPath front name))
    {name : String} (mem : name ∈ done) : final'.nodeAt? (place ++ [outputName suffix name]) =
      final.nodeAt? (place ++ [outputName suffix name]) := by
  obtain ⟨contents, result, stands⟩ := stored.results name mem
  obtain ⟨contents', result', stands'⟩ := stored'.results name mem
  rw [results name mem, result] at result'
  rw [stands, stands', Except.ok.inj result']

/-- **Writing the same outputs once more changes nothing.** -/
theorem Stored.same {again : FileTree}
    (stored' : Stored p extension suffix final front place done again)
    (results : ∀ name ∈ done,
      p.resultOf final (entryPath front name) = p.resultOf tree (entryPath front name)) :
    final.Same again := by
  refine ⟨fun other => ?_, stored'.start, stored'.rules⟩
  by_cases output : ∃ name ∈ done, other = place ++ [outputName suffix name]
  · obtain ⟨name, mem, rfl⟩ := output
    exact stored.nodeAt?_output_eq stored' results mem
  · exact stored'.kept other fun name mem same => output ⟨name, mem, same⟩

/-- **Different outputs can be written in either order.** -/
theorem Stored.commute {final' behind behind' : FileTree}
    (before : Stored q extension suffix' tree front place done' final')
    (after : Stored q extension suffix' final front place done' behind)
    (stored' : Stored p extension suffix final' front place done behind')
    (results : ∀ name ∈ done,
      p.resultOf final' (entryPath front name) = p.resultOf tree (entryPath front name))
    (results' : ∀ name ∈ done',
      q.resultOf final (entryPath front name) = q.resultOf tree (entryPath front name))
    (apart : ∀ name ∈ done, ∀ name' ∈ done', outputName suffix name ≠ outputName suffix' name') :
    behind.Same behind' := by
  -- A place holds an output of the one, an output of the other, or what it held before both.
  refine ⟨fun other => ?_, ?_, ?_⟩
  · by_cases output : ∃ name ∈ done, other = place ++ [outputName suffix name]
    · obtain ⟨name, mem, rfl⟩ := output
      rw [after.kept _ fun name' mem' same => apart name mem name' mem' (by simpa using same)]
      exact stored.nodeAt?_output_eq stored' results mem
    · have other_ne (name : String) (mem : name ∈ done) :
          other ≠ place ++ [outputName suffix name] := fun same => output ⟨name, mem, same⟩
      rw [stored'.kept other other_ne]
      by_cases output' : ∃ name ∈ done', other = place ++ [outputName suffix' name]
      · obtain ⟨name, mem, rfl⟩ := output'
        exact (before.nodeAt?_output_eq after results' mem).symm
      · have other_ne' (name : String) (mem : name ∈ done') :
            other ≠ place ++ [outputName suffix' name] := fun same => output' ⟨name, mem, same⟩
        rw [after.kept other other_ne', before.kept other other_ne', stored.kept other other_ne]
  · rw [stored'.start, before.start, after.start, stored.start]
  · rw [stored'.rules, before.rules, after.rules, stored.rules]

end Twice

/-! ### What builds come to -/

/-- What processing sources comes to if each of them comes to what it comes to alone: the outputs,
or the first failure. -/
def answer (p : Processing) (tree : FileTree) (front names : List String) :
    Except Fault (List String) :=
  names.mapM fun name =>
    (p.resultOf tree (entryPath front name)).map fun _ => p.output (entryPath front name)

/-- The names of the sources in front of the first failure. -/
def succeeding (p : Processing) (tree : FileTree) (front names : List String) : List String :=
  names.takeWhile fun name => (p.resultOf tree (entryPath front name)).isOk

theorem succeeding_subset (p : Processing) (tree : FileTree) (front names : List String) :
    p.succeeding tree front names ⊆ names :=
  (List.takeWhile_sublist _).subset

theorem answer_of_succeed
    (succeed : ∀ name ∈ names, ∃ contents, p.resultOf tree (entryPath front name) = .ok contents) :
    p.answer tree front names = .ok (names.map fun name => p.output (entryPath front name)) := by
  induction names with
  | nil => rfl
  | cons name names ih =>
    obtain ⟨⟨contents, result⟩, succeed⟩ := List.forall_mem_cons.mp succeed
    have rest := ih succeed
    rw [answer] at rest
    rw [answer, List.mapM_cons, result, rest]
    rfl

theorem answer_of_fails {failing : String} {rest : List String} {fault : Fault}
    (succeed : ∀ name ∈ done, ∃ contents, p.resultOf tree (entryPath front name) = .ok contents)
    (fails : p.resultOf tree (entryPath front failing) = .error fault) :
    p.answer tree front (done ++ failing :: rest) = .error fault := by
  have first := answer_of_succeed succeed
  rw [answer] at first
  rw [answer, List.mapM_append, first, List.mapM_cons, fails]
  rfl

/-- **What processing sources comes to is what each of them comes to alone, up to the first
failure.** -/
theorem Site.outcomes_eq (site : Site p extension suffix tree front place)
    (sources : AreSources extension tree place names) :
    ∃ behind, Stored p extension suffix tree front place (p.succeeding tree front names) behind ∧
      p.outcomes tree (names.map (entryPath front)) = (p.answer tree front names, behind) := by
  have succeed (name : String) (mem : name ∈ p.succeeding tree front names) :
      ∃ contents, p.resultOf tree (entryPath front name) = .ok contents := by
    have ok := List.mem_takeWhile_imp mem
    rcases result : p.resultOf tree (entryPath front name) with fault | contents
    · simp [result, Except.isOk, Except.toBool] at ok
    · exact ⟨contents, rfl⟩
  have whole : p.succeeding tree front names ++
      names.dropWhile (fun name => (p.resultOf tree (entryPath front name)).isOk) = names :=
    List.takeWhile_append_dropWhile
  cases rest : names.dropWhile fun name => (p.resultOf tree (entryPath front name)).isOk with
  | nil =>
    rw [rest, List.append_nil] at whole
    rw [whole] at succeed ⊢
    rw [answer_of_succeed succeed]
    exact site.outcomes_of_succeed sources succeed
  | cons failing rest' =>
    rw [rest] at whole
    have fails := List.head?_dropWhile_not
      (fun name => (p.resultOf tree (entryPath front name)).isOk) names
    rw [rest] at fails
    rcases result : p.resultOf tree (entryPath front failing) with fault | contents
    · have run := site.outcomes_of_fails (whole ▸ sources) succeed result
      rwa [whole, ← answer_of_fails succeed result, whole] at run
    · simp [result, Except.isOk, Except.toBool] at fails

theorem answer_congr (same : ∀ name ∈ names,
    p.resultOf tree' (entryPath front name) = p.resultOf tree (entryPath front name)) :
    p.answer tree' front names = p.answer tree front names ∧
      p.succeeding tree' front names = p.succeeding tree front names := by
  induction names with
  | nil => exact ⟨rfl, rfl⟩
  | cons name names ih =>
    obtain ⟨first, rest⟩ := List.forall_mem_cons.mp same
    obtain ⟨answer_eq, succeeding_eq⟩ := ih rest
    simp only [answer, succeeding] at answer_eq succeeding_eq ⊢
    rw [List.mapM_cons, List.mapM_cons, List.takeWhile_cons, List.takeWhile_cons, first, answer_eq,
      succeeding_eq]
    exact ⟨rfl, rfl⟩

/-- A build of what a path stands for. -/
def build (p : Processing) (settings : BuildSettings) (path : String) (tree : FileTree) :
    Except Fault (List String) × FileTree :=
  match settings.sources tree path with
  | .error fault => (.error fault, tree)
  | .ok sources => p.outcomes tree sources

theorem Performs.onTree_eq_build {process : String → Build String} (performs : p.Performs process)
    (settings : BuildSettings) (path : String) (workspace : Workspace) :
    Build.onTree (Build.forSources settings path process) workspace =
      p.build settings path workspace.tree :=
  performs.onTree_forSources settings path workspace

end Processing

namespace BuildSettings.StandsFor

variable {settings : BuildSettings} {p : Processing} {suffix path : String}
  {tree tree' : FileTree} {front names : List String} {place : Place}

variable (standsFor : settings.StandsFor tree path front place names)
  (aims : p.Aims settings.sourceExtension suffix)
include standsFor aims

/-- A build comes to what each of the sources comes to alone. -/
theorem build_eq (wellFormed : tree.WellFormed) :
    (p.build settings path tree).1 = p.answer tree front names ∧
      p.Stored settings.sourceExtension suffix tree front place (p.succeeding tree front names)
        (p.build settings path tree).2 := by
  obtain ⟨behind, stored, run⟩ := Processing.Site.outcomes_eq
    ⟨aims, wellFormed, standsFor.leads⟩ standsFor.areSources
  rw [Processing.build, standsFor.found]
  dsimp only
  rw [run]
  exact ⟨rfl, stored⟩

/-- **A build comes to the same in trees with the same sources.** -/
theorem build_of_sameSources (same : FileTree.SameSources settings.sourceExtension tree tree')
    (wellFormed : tree.WellFormed) (wellFormed' : tree'.WellFormed) :
    (∀ name ∈ names,
      p.resultOf tree' (entryPath front name) = p.resultOf tree (entryPath front name)) ∧
    (p.build settings path tree').1 = (p.build settings path tree).1 ∧
      p.Stored settings.sourceExtension suffix tree' front place (p.succeeding tree front names)
        (p.build settings path tree').2 := by
  have results (name : String) (mem : name ∈ names) :
      p.resultOf tree' (entryPath front name) = p.resultOf tree (entryPath front name) := by
    obtain ⟨bytes, file⟩ := standsFor.areSources.files name mem
    exact same.resultOf ⟨aims, wellFormed, standsFor.leads⟩ wellFormed'
      (standsFor.areSources.named name mem) file
  obtain ⟨answer_eq, succeeding_eq⟩ := Processing.answer_congr results
  obtain ⟨result', stored'⟩ :=
    (standsFor.of_sameSources wellFormed same wellFormed').build_eq aims wellFormed'
  rw [succeeding_eq] at stored'
  exact ⟨results, by rw [result', answer_eq, (standsFor.build_eq aims wellFormed).1], stored'⟩

end BuildSettings.StandsFor

/-! ### Builds one after the other -/

namespace Processing

variable {settings : BuildSettings} {p q : Processing} {suffix suffix' : String} {tree : FileTree}

theorem wellFormed_build (p : Processing) (settings : BuildSettings) (path : String)
    (wellFormed : tree.WellFormed) : (p.build settings path tree).2.WellFormed := by
  rw [build]
  rcases settings.sources tree path with fault | sources
  · exact wellFormed
  · exact p.wellFormed_outcomes wellFormed sources

theorem build_of_no_sources {path : String} {fault : Fault}
    (none : settings.sources tree path = .error fault) :
    p.build settings path tree = (.error fault, tree) := by
  rw [build, none]

/-- **A build comes to the same when it is run again, and changes nothing then.** -/
theorem build_again (aims : p.Aims settings.sourceExtension suffix)
    (wellFormed : tree.WellFormed) (path : String) :
    (p.build settings path (p.build settings path tree).2).1 = (p.build settings path tree).1 ∧
      (p.build settings path tree).2.Same
        (p.build settings path (p.build settings path tree).2).2 := by
  rcases found : settings.sources tree path with fault | sources
  -- Without sources nothing is written, so the path stands for none the second time either.
  · rw [build_of_no_sources found, build_of_no_sources found]
    exact ⟨rfl, .refl tree⟩
  · obtain ⟨front, place, names, standsFor⟩ :=
      BuildSettings.exists_standsFor wellFormed found
    obtain ⟨-, stored⟩ := standsFor.build_eq aims wellFormed
    obtain ⟨results, result, stored'⟩ := standsFor.build_of_sameSources aims
      (stored.sameSources ⟨aims, wellFormed, standsFor.leads⟩) wellFormed
      (p.wellFormed_build settings path wellFormed)
    exact ⟨result, stored.same stored' fun name mem => results name (p.succeeding_subset _ _ _ mem)⟩

/-- **Builds whose outputs are different can trade places.** -/
theorem build_comm (aims : p.Aims settings.sourceExtension suffix)
    (aims' : q.Aims settings.sourceExtension suffix')
    (apart : ∀ name name', IsSourceName settings.sourceExtension name →
      IsSourceName settings.sourceExtension name' →
        outputName suffix name ≠ outputName suffix' name')
    (wellFormed : tree.WellFormed) (path : String) :
    (p.build settings path (q.build settings path tree).2).1 = (p.build settings path tree).1 ∧
      (q.build settings path (p.build settings path tree).2).1 = (q.build settings path tree).1 ∧
      (q.build settings path (p.build settings path tree).2).2.Same
        (p.build settings path (q.build settings path tree).2).2 := by
  rcases found : settings.sources tree path with fault | sources
  · have first := build_of_no_sources (p := p) found
    have second := build_of_no_sources (p := q) found
    rw [first, second, first]
    exact ⟨rfl, rfl, .refl tree⟩
  · obtain ⟨front, place, names, standsFor⟩ :=
      BuildSettings.exists_standsFor wellFormed found
    obtain ⟨-, stored⟩ := standsFor.build_eq aims wellFormed
    obtain ⟨-, before⟩ := standsFor.build_eq aims' wellFormed
    obtain ⟨results, result, stored'⟩ := standsFor.build_of_sameSources aims
      (before.sameSources ⟨aims', wellFormed, standsFor.leads⟩) wellFormed
      (q.wellFormed_build settings path wellFormed)
    obtain ⟨results', result', after⟩ := standsFor.build_of_sameSources aims'
      (stored.sameSources ⟨aims, wellFormed, standsFor.leads⟩) wellFormed
      (p.wellFormed_build settings path wellFormed)
    refine ⟨result, result', stored.commute before after stored' (fun name mem => ?_)
      (fun name mem => ?_) fun name mem name' mem' => ?_⟩
    · exact results name (p.succeeding_subset _ _ _ mem)
    · exact results' name (q.succeeding_subset _ _ _ mem)
    · exact apart name name' (stored.sources name mem) (before.sources name' mem')

end Processing

namespace Build

variable {α : Type}

/-- What a build leaves behind. -/
def after (build : Build α) (workspace : Workspace) : Workspace :=
  (build.run.run workspace).2

/-- A build comes to the same when it is run again, and changes nothing then. -/
structure Repeats (build : Build α) (workspace : Workspace) : Prop where
  result : (onTree build (after build workspace)).1 = (onTree build workspace).1
  tree : (onTree build workspace).2.Same (onTree build (after build workspace)).2

/-- Two builds come to the same in either order. -/
structure Commutes (one other : Build α) (workspace : Workspace) : Prop where
  first : (onTree one (after other workspace)).1 = (onTree one workspace).1
  second : (onTree other (after one workspace)).1 = (onTree other workspace).1
  tree : (onTree other (after one workspace)).2.Same (onTree one (after other workspace)).2

end Build

section Performs

variable {p q : Processing} {process process' : String → Build String} {suffix suffix' : String}
  {settings : BuildSettings} {workspace : Workspace}

/-- What comes behind a build only depends on the tree that it leaves behind. -/
theorem Processing.Performs.onTree_after (performs : p.Performs process)
    (performs' : q.Performs process') (settings : BuildSettings) (path : String)
    (workspace : Workspace) :
    Build.onTree (Build.forSources settings path process)
        (Build.after (Build.forSources settings path process') workspace) =
      p.build settings path (q.build settings path workspace.tree).2 := by
  have left : (Build.after (Build.forSources settings path process') workspace).tree =
      (q.build settings path workspace.tree).2 :=
    congrArg Prod.snd (performs'.onTree_eq_build settings path workspace)
  rw [performs.onTree_eq_build, left]

variable (performs : p.Performs process) (aims : p.Aims settings.sourceExtension suffix)
  (wellFormed : workspace.tree.WellFormed)
include performs aims wellFormed

theorem Processing.Performs.repeats (path : String) :
    Build.Repeats (Build.forSources settings path process) workspace := by
  obtain ⟨result, same⟩ := build_again aims wellFormed path
  constructor
  · rw [performs.onTree_after performs, performs.onTree_eq_build, result]
  · rw [performs.onTree_after performs, performs.onTree_eq_build]
    exact same

theorem Processing.Performs.commutes (performs' : q.Performs process')
    (aims' : q.Aims settings.sourceExtension suffix')
    (apart : ∀ name name', IsSourceName settings.sourceExtension name →
      IsSourceName settings.sourceExtension name' →
        outputName suffix name ≠ outputName suffix' name') (path : String) :
    Build.Commutes (Build.forSources settings path process)
      (Build.forSources settings path process') workspace := by
  obtain ⟨result, result', same⟩ := build_comm aims aims' apart wellFormed path
  constructor
  · rw [performs.onTree_after performs', performs.onTree_eq_build, result]
  · rw [performs'.onTree_after performs, performs'.onTree_eq_build, result']
  · rw [performs'.onTree_after performs, performs.onTree_after performs']
    exact same

end Performs

/-- Settings with which no output is a source, and no code is a listing. -/
structure BuildSettings.KeepsOutputsApart (settings : BuildSettings) : Prop where
  code : settings.KeepsCodeApart
  listings : KeepsApart settings.sourceExtension settings.listingSuffix
  different : KeepsApart settings.outputExtension settings.listingSuffix

theorem BuildSettings.keepsOutputsApart_default : ({} : BuildSettings).KeepsOutputsApart where
  code := ⟨by decide, by decide, by decide, by decide⟩
  listings := ⟨by decide, "T", "xml", rfl, by decide, by decide, by decide⟩
  different := ⟨by decide, "T", "xml", rfl, by decide, by decide, by decide⟩

/-- What can be said about the builds of a path one after the other. -/
structure BuildSettings.BuildsIndependently (settings : BuildSettings) (workspace : Workspace)
    (path : String) : Prop where
  compiling : Build.Repeats (Build.compilePath settings path) workspace
  tokenizing : Build.Repeats (Build.tokenizePath settings path) workspace
  both : Build.Commutes (Build.compilePath settings path) (Build.tokenizePath settings path)
    workspace

namespace BuildSettings.KeepsOutputsApart

variable {settings : BuildSettings} (apart : settings.KeepsOutputsApart)
include apart

theorem outputName_ne {name name' : String} (source : IsSourceName settings.sourceExtension name)
    (source' : IsSourceName settings.sourceExtension name') :
    outputName settings.codeSuffix name ≠ outputName settings.listingSuffix name' := by
  intro same
  refine (apart.different.isFileName_and_ne source').2 ?_
  obtain ⟨stem, nonempty, -, -, -, stemOf⟩ := source.exists_stem
  have isName := (apart.code.aims_compiling.apart.isFileName_and_ne source).1
  rw [outputName_eq stemOf, codeSuffix, ← String.append_assoc] at isName
  rw [← same, outputName_eq stemOf, codeSuffix, ← String.append_assoc,
    isName.fileExtension?_append nonempty apart.code.noDot]

/-- **Builds of a path do not depend on those in front of them.** -/
theorem buildsIndependently (workspace : Workspace) (wellFormed : workspace.tree.WellFormed)
    (path : String) : settings.BuildsIndependently workspace path := by
  have usable : isExtension settings.outputExtension = true := by
    simpa [isExtension] using apart.code.noSlash
  have compiles := performs_compileFile usable
  have tokenizes := performs_tokenizeFile settings
  have aims := apart.code.aims_compiling
  have aims' := aims_tokenizing apart.listings
  exact ⟨compiles.repeats aims wellFormed path, tokenizes.repeats aims' wellFormed path,
    compiles.commutes aims wellFormed tokenizes aims'
      (fun _ _ source source' => apart.outputName_ne source source') path⟩

end BuildSettings.KeepsOutputsApart

/-- **Compiling and listing tokens can be repeated, and they can trade places.** -/
theorem builds_independent (workspace : Workspace) (wellFormed : workspace.tree.WellFormed)
    (path : String) : BuildSettings.BuildsIndependently {} workspace path :=
  BuildSettings.keepsOutputsApart_default.buildsIndependently workspace wellFormed path

/-- Also if a source is no class and a directory is in the way of an output. -/
theorem builds_independent_halfBroken : halfBroken.WellFormed ∧
    BuildSettings.BuildsIndependently {} { tree := halfBroken } "d/." := by
  have wellFormed : halfBroken.WellFormed := by decide +kernel
  exact ⟨wellFormed, builds_independent { tree := halfBroken } wellFormed "d/."⟩

end JackCompiler
