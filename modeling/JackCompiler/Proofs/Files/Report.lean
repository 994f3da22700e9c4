import JackCompiler.CommandLine
import JackCompiler.Proofs.Compilation.Safety
import JackCompiler.Proofs.Compilation.Truncation
import JackCompiler.Proofs.Files.Independence

/-!
# What the command line reports

The exit code and the printed text say what a command has done to the files. It succeeds if all
sources were processed and their outputs written, and then it prints the outputs. It cannot be used
if its path stands for no sources. Otherwise it prints nothing but the first failure, although the
outputs of the sources in front of it have been written.

## Main definitions

* `Processing.Writes`, `Processing.Fails` — how processing a source ends
* `Processing.WritesAll` — sources are processed, one after the other, and their outputs written
* `AsksToCompile` — arguments that ask for a compilation
* `Command.Answered`, `ArgumentsAnswered` — what is answered to a command, and to arguments

## Main results

* `Processing.outcomes_eq_ok_iff`, `Processing.outcomes_eq_error_iff` — all sources are processed,
  or those in front of the first failure
* `Command.Answered.success_iff_alone` — it is enough that each source can be processed alone
* `runCommandLine_answered` — the command line answers what it has done
-/

namespace JackCompiler

/-! ### Sources one after the other -/

namespace Processing

variable {p : Processing} {tree middle final : FileTree} {source : String} {fault : Fault}
  {sources outputs : List String}

/-- A source is read and processed, and its output is written. -/
inductive Writes (p : Processing) (tree : FileTree) (source : String) : FileTree → Prop where
  | intro {bytes : List UInt8} {text contents : String} {final : FileTree}
    (reads : tree.read source = .ok bytes) (decodes : Utf8.decode bytes = .ok text)
    (translates : p.translate (Build.displayName source) text = .ok contents)
    (writes : tree.write (p.output source) (Utf8.encode contents) = .ok final) :
    Writes p tree source final

/-- A source is not read or not processed, or its output is not written. -/
inductive Fails (p : Processing) (tree : FileTree) (source : String) : Fault → Prop where
  | unread {fault : StorageFault} (reads : tree.read source = .error fault) :
    Fails p tree source (.storage fault)
  | undecoded {bytes : List UInt8} {fault : Utf8.Fault} (reads : tree.read source = .ok bytes)
    (decodes : Utf8.decode bytes = .error fault) : Fails p tree source (.encoding fault)
  | untranslated {bytes : List UInt8} {text : String} {fault : Fault}
    (reads : tree.read source = .ok bytes) (decodes : Utf8.decode bytes = .ok text)
    (translates : p.translate (Build.displayName source) text = .error fault) :
    Fails p tree source fault
  | unwritten {bytes : List UInt8} {text contents : String} {fault : StorageFault}
    (reads : tree.read source = .ok bytes) (decodes : Utf8.decode bytes = .ok text)
    (translates : p.translate (Build.displayName source) text = .ok contents)
    (writes : tree.write (p.output source) (Utf8.encode contents) = .error fault) :
    Fails p tree source (.storage fault)

/-- Sources are processed one after the other, each in the tree that those in front of it have left
behind, and their outputs are written. -/
inductive WritesAll (p : Processing) : FileTree → List String → FileTree → Prop where
  | nil (tree : FileTree) : WritesAll p tree [] tree
  | cons {tree middle final : FileTree} {source : String} {sources : List String}
    (first : p.Writes tree source middle) (rest : WritesAll p middle sources final) :
    WritesAll p tree (source :: sources) final

/-- Processing a source ends in one of two ways. -/
theorem writes_or_fails (p : Processing) (tree : FileTree) (source : String) :
    (∃ final, p.Writes tree source final) ∨ ∃ fault, p.Fails tree source fault := by
  cases reads : tree.read source with
  | error fault => exact .inr ⟨_, .unread reads⟩
  | ok bytes =>
    cases decodes : Utf8.decode bytes with
    | error fault => exact .inr ⟨_, .undecoded reads decodes⟩
    | ok text =>
      cases translates : p.translate (Build.displayName source) text with
      | error fault => exact .inr ⟨_, .untranslated reads decodes translates⟩
      | ok contents =>
        cases writes : tree.write (p.output source) (Utf8.encode contents) with
        | error fault => exact .inr ⟨_, .unwritten reads decodes translates writes⟩
        | ok final => exact .inl ⟨final, ⟨reads, decodes, translates, writes⟩⟩

theorem Writes.outcome_eq (writes : p.Writes tree source final) :
    p.outcome tree source = (.ok (p.output source), final) := by
  obtain ⟨reads, decodes, translates, writes⟩ := writes
  simp only [outcome, reads, decodes, translates, writes]

theorem Fails.outcome_eq (fails : p.Fails tree source fault) :
    p.outcome tree source = (.error fault, tree) := by
  cases fails with
  | unread reads => simp only [outcome, reads]
  | undecoded reads decodes => simp only [outcome, reads, decodes]
  | untranslated reads decodes translates => simp only [outcome, reads, decodes, translates]
  | unwritten reads decodes translates writes =>
    simp only [outcome, reads, decodes, translates, writes]

theorem WritesAll.outcomes_eq (writes : p.WritesAll tree sources final) :
    p.outcomes tree sources = (.ok (sources.map p.output), final) := by
  induction writes with
  | nil tree => rfl
  | cons first _ ih => simp only [outcomes, first.outcome_eq, ih, List.map_cons]

theorem WritesAll.outcomes_of_fails {failing : String} {rest : List String}
    (writes : p.WritesAll tree sources middle) (fails : p.Fails middle failing fault) :
    p.outcomes tree (sources ++ failing :: rest) = (.error fault, middle) := by
  induction writes with
  | nil tree => simp only [List.nil_append, outcomes, fails.outcome_eq]
  | cons first _ ih => simp only [List.cons_append, outcomes, first.outcome_eq, ih fails]

/-- Processing sources ends in one of two ways. -/
theorem writesAll_or_fails (p : Processing) (tree : FileTree) (sources : List String) :
    (∃ final, p.WritesAll tree sources final) ∨
    (∃ done failing rest middle fault, sources = done ++ failing :: rest ∧
      p.WritesAll tree done middle ∧ p.Fails middle failing fault) := by
  induction sources generalizing tree with
  | nil => exact .inl ⟨tree, .nil tree⟩
  | cons source sources ih =>
    obtain ⟨middle, first⟩ | ⟨fault, fails⟩ := p.writes_or_fails tree source
    · obtain ⟨final, rest⟩ | ⟨done, failing, rest, behind, fault, rfl, all, fails⟩ := ih middle
      · exact .inl ⟨final, .cons first rest⟩
      · exact .inr ⟨source :: done, failing, rest, behind, fault, rfl, .cons first all, fails⟩
    · exact .inr ⟨[], source, sources, tree, fault, rfl, .nil tree, fails⟩

theorem WritesAll.unique {final' : FileTree} (writes : p.WritesAll tree sources final)
    (writes' : p.WritesAll tree sources final') : final = final' :=
  congrArg Prod.snd (writes.outcomes_eq.symm.trans writes'.outcomes_eq)

/-- Not all sources are processed if one of them fails. -/
theorem Fails.not_writesAll {failing : String} {rest : List String}
    (fails : p.Fails middle failing fault) (writes : p.WritesAll tree sources middle) :
    ¬ p.WritesAll tree (sources ++ failing :: rest) final := by
  intro all
  have run : p.outcomes tree (sources ++ failing :: rest) = (.error fault, middle) :=
    writes.outcomes_of_fails fails
  rw [all.outcomes_eq] at run
  cases run

/-- **Outputs are answered exactly if all sources were processed and their outputs written.** -/
theorem outcomes_eq_ok_iff : p.outcomes tree sources = (.ok outputs, final) ↔
    outputs = sources.map p.output ∧ p.WritesAll tree sources final := by
  constructor
  · intro run
    obtain ⟨behind, writes⟩ | ⟨done, failing, rest, middle, fault, rfl, writes, fails⟩ :=
      p.writesAll_or_fails tree sources
    · rw [writes.outcomes_eq] at run
      cases run
      exact ⟨rfl, writes⟩
    · rw [writes.outcomes_of_fails fails] at run
      cases run
  · rintro ⟨rfl, writes⟩
    exact writes.outcomes_eq

/-- **A failure is that of the first source that fails, in the tree that those in front of it have
left behind.** -/
theorem outcomes_eq_error_iff : p.outcomes tree sources = (.error fault, final) ↔
    ∃ done failing rest, sources = done ++ failing :: rest ∧ p.WritesAll tree done final ∧
      p.Fails final failing fault := by
  constructor
  · intro run
    obtain ⟨behind, writes⟩ | ⟨done, failing, rest, middle, fault', rfl, writes, fails⟩ :=
      p.writesAll_or_fails tree sources
    · rw [writes.outcomes_eq] at run
      cases run
    · rw [writes.outcomes_of_fails fails] at run
      cases run
      exact ⟨done, failing, rest, rfl, writes, fails⟩
  · rintro ⟨done, failing, rest, rfl, writes, fails⟩
    exact writes.outcomes_of_fails fails

theorem succeed_of_answer {front names : List String}
    (answered : p.answer tree front names = .ok outputs) :
    ∀ name ∈ names, ∃ contents, p.resultOf tree (entryPath front name) = .ok contents := by
  induction names generalizing outputs with
  | nil => simp
  | cons name names ih =>
    rw [answer, List.mapM_cons] at answered
    rcases first : p.resultOf tree (entryPath front name) with fault | contents
    · rw [first] at answered
      cases answered
    · rcases rest : p.answer tree front names with fault | others
      · rw [answer] at rest
        rw [first, rest] at answered
        cases answered
      · exact List.forall_mem_cons.mpr ⟨⟨contents, first⟩, ih rest⟩

end Processing

/-- In a tree of files, all sources that a path stands for are processed exactly if each of them can
be processed alone. -/
theorem BuildSettings.StandsFor.exists_writesAll_iff {settings : BuildSettings} {p : Processing}
    {suffix path : String} {tree : FileTree} {front names : List String} {place : Place}
    (standsFor : settings.StandsFor tree path front place names)
    (aims : p.Aims settings.sourceExtension suffix) (wellFormed : tree.WellFormed) :
    (∃ final, p.WritesAll tree (names.map (entryPath front)) final) ↔
      ∀ name ∈ names, ∃ contents, p.resultOf tree (entryPath front name) = .ok contents := by
  obtain ⟨final, -, run⟩ := Processing.Site.outcomes_eq
    ⟨aims, wellFormed, standsFor.leads⟩ standsFor.areSources
  constructor
  · rintro ⟨behind, writes⟩
    rw [writes.outcomes_eq] at run
    exact Processing.succeed_of_answer (congrArg Prod.fst run).symm
  · intro succeed
    rw [Processing.answer_of_succeed succeed] at run
    exact ⟨final, (Processing.outcomes_eq_ok_iff.mp run).2⟩

/-! ### Faults and reports -/

/-- A path that stands for no sources cannot be used. -/
theorem BuildSettings.exists_usage_of_sources {settings : BuildSettings} {tree : FileTree}
    {path : String} {fault : Fault} (none : settings.sources tree path = .error fault) :
    ∃ message, fault = .usage message := by
  rw [sources] at none
  split at none
  · dsimp only at none
    split at none
    · cases none
      exact ⟨_, rfl⟩
    · cases none
  · split at none
    · cases none
    · cases none
      exact ⟨_, rfl⟩
  · cases none
    exact ⟨_, rfl⟩

/-- Only a lexical fault keeps a text from being listed. -/
theorem BuildSettings.exists_lexical_of_tokenizing {settings : BuildSettings} {file text : String}
    {fault : Fault} (failed : settings.tokenizing.translate file text = .error fault) :
    ∃ located, fault = .lexical located := by
  -- The listing goes to a sink without limits, so it ends as the tokens of the text do.
  have unlimited : ({} : Sink ListingLine).room = none := rfl
  have ended : (writeListing file text {}).1 = listingResult file text := by
    rw [writeListing_eq_deliver, Sink.deliver_of_written (Sink.writeAll_of_unlimited _ unlimited)]
    rcases listingResult file text with fault | _ <;> rfl
  simp only [tokenizing] at failed
  rcases run : writeListing file text {} with ⟨fault' | _, listing⟩
  · rw [run] at failed ended
    obtain rfl : fault' = fault := Except.error.inj failed
    rw [listingResult] at ended
    split at ended
    · cases ended
    · cases ended
      exact ⟨_, rfl⟩
  · rw [run] at failed
    cases failed

/-- Some lines: a line end follows each text. -/
def Report.linesOf (texts : List String) : String :=
  String.join (texts.map (· ++ "\n"))

theorem reportOf_of_ne_usage {fault : Fault} (other : ∀ message, fault ≠ .usage message) :
    reportOf (.error fault) = { exitCode := 1, printed := [faultReport fault] } := by
  cases fault with
  | usage message => exact absurd rfl (other message)
  | lexical | syntactic | storage | encoding | unusableExtension => rfl

namespace Command

/-- How the sources of a command are processed. -/
def processing : Command → Processing
  | .compile _ => BuildSettings.compiling {}
  | .tokens _ => BuildSettings.tokenizing {}

theorem onTree_build (command : Command) (tree : FileTree) :
    Build.onTree command.build { tree } = command.processing.build {} command.path tree := by
  cases command with
  | compile path =>
    have performs : (BuildSettings.compiling {}).Performs (Build.compileFile {}) :=
      BuildSettings.performs_compileFile (by decide)
    exact performs.onTree_eq_build {} path { tree }
  | tokens path => exact (BuildSettings.performs_tokenizeFile {}).onTree_eq_build {} path { tree }

/-- A command does not write over its sources. -/
theorem exists_aims (command : Command) : ∃ suffix, command.processing.Aims "jack" suffix := by
  cases command with
  | compile path => exact ⟨_, BuildSettings.keepsOutputsApart_default.code.aims_compiling⟩
  | tokens path =>
    exact ⟨_, BuildSettings.aims_tokenizing BuildSettings.keepsOutputsApart_default.listings⟩

/-- What is wrong with the text of a source is not the fault of the command line. -/
theorem translate_ne_usage (command : Command) (file text message : String) :
    command.processing.translate file text ≠ .error (.usage message) := by
  intro failed
  cases command with
  | compile path => exact ofSource_of_compileText failed
  | tokens path =>
    obtain ⟨located, same⟩ := BuildSettings.exists_lexical_of_tokenizing failed
    cases same

theorem fault_ne_usage {command : Command} {tree : FileTree} {source : String} {fault : Fault}
    (fails : command.processing.Fails tree source fault) (message : String) :
    fault ≠ .usage message := by
  cases fails with
  | unread | undecoded | unwritten => simp
  | untranslated _ _ translates =>
    rintro rfl
    exact command.translate_ne_usage _ _ message translates

/-! ### Commands -/

variable {command : Command} {tree : FileTree}

/-- What is answered to a command, and the tree behind it. -/
structure Answered (command : Command) (tree : FileTree) (report : Report) (final : FileTree) :
    Prop where
  exitCode : report.exitCode = 0 ∨ report.exitCode = 64 ∨ report.exitCode = 1
  /-- All sources were processed, and their outputs written. -/
  success_iff : report.exitCode = 0 ↔ ∃ sources behind,
    BuildSettings.sources {} tree command.path = .ok sources ∧
      command.processing.WritesAll tree sources behind
  /-- The path stands for no sources. -/
  unusable_iff : report.exitCode = 64 ↔
    ∃ message, BuildSettings.sources {} tree command.path = .error (.usage message)
  success : ∀ sources behind, BuildSettings.sources {} tree command.path = .ok sources →
    command.processing.WritesAll tree sources behind →
      report.output = Report.linesOf (sources.map command.processing.output) ∧ final = behind
  unusable : ∀ message, BuildSettings.sources {} tree command.path = .error (.usage message) →
    report.output = Report.linesOf (faultReport (.usage message) :: usageLines) ∧ final = tree
  /-- The outputs of the sources in front of the first failure have been written. -/
  failure : report.exitCode = 1 → ∃ done failing rest fault,
    BuildSettings.sources {} tree command.path = .ok (done ++ failing :: rest) ∧
      command.processing.WritesAll tree done final ∧
      command.processing.Fails final failing fault ∧
      report.output = Report.linesOf [faultReport fault]

theorem answered_of_unusable {message : String}
    (none : BuildSettings.sources {} tree command.path = .error (.usage message)) :
    command.Answered tree (reportOf (.error (.usage message))) tree where
  exitCode := .inr (.inl rfl)
  success_iff := by simp [reportOf, usageExitCode, none]
  unusable_iff := by simp [reportOf, usageExitCode, none]
  success sources behind found := by simp [none] at found
  unusable message' none' := by
    obtain rfl : message = message' := by simpa [none] using none'
    exact ⟨rfl, rfl⟩
  failure failed := by simp [reportOf, usageExitCode] at failed

theorem answered_of_writes {sources : List String} {final : FileTree}
    (found : BuildSettings.sources {} tree command.path = .ok sources)
    (writes : command.processing.WritesAll tree sources final) :
    command.Answered tree (reportOf (.ok (sources.map command.processing.output))) final where
  exitCode := .inl rfl
  success_iff := iff_of_true rfl ⟨sources, final, found, writes⟩
  unusable_iff := by simp [reportOf, found]
  success sources' behind found' writes' := by
    obtain rfl : sources = sources' := by simpa [found] using found'
    exact ⟨rfl, writes.unique writes'⟩
  unusable message none := by simp [found] at none
  failure failed := by simp [reportOf] at failed

theorem answered_of_fails {done rest : List String} {failing : String} {final : FileTree}
    {fault : Fault}
    (found : BuildSettings.sources {} tree command.path = .ok (done ++ failing :: rest))
    (writes : command.processing.WritesAll tree done final)
    (fails : command.processing.Fails final failing fault) :
    command.Answered tree (reportOf (.error fault)) final := by
  have never (sources : List String) (behind : FileTree)
      (found' : BuildSettings.sources {} tree command.path = .ok sources) :
      ¬ command.processing.WritesAll tree sources behind := by
    obtain rfl : done ++ failing :: rest = sources := by simpa [found] using found'
    exact fun all => fails.not_writesAll writes all
  -- The usage text stands for sources that are not found, and these have been found.
  rw [reportOf_of_ne_usage (fault_ne_usage fails)]
  exact {
    exitCode := .inr (.inr rfl)
    success_iff := iff_of_false (by simp) fun ⟨sources, behind, found', all⟩ =>
      never sources behind found' all
    unusable_iff := by simp [found]
    success := fun sources behind found' all => absurd all (never sources behind found')
    unusable := fun message none => by simp [found] at none
    failure := fun _ => ⟨done, failing, rest, fault, found, writes, fails, rfl⟩ }

/-- **A command answers what it has done.** -/
theorem answered (command : Command) (tree : FileTree) :
    command.Answered tree (reportOf (command.processing.build {} command.path tree).1)
      (command.processing.build {} command.path tree).2 := by
  rw [Processing.build]
  cases found : BuildSettings.sources {} tree command.path with
  | error fault =>
    obtain ⟨message, rfl⟩ := BuildSettings.exists_usage_of_sources found
    exact answered_of_unusable found
  | ok sources =>
    dsimp only
    obtain ⟨final, writes⟩ | ⟨done, failing, rest, final, fault, rfl, writes, fails⟩ :=
      command.processing.writesAll_or_fails tree sources
    · rw [writes.outcomes_eq]
      exact answered_of_writes found writes
    · rw [writes.outcomes_of_fails fails]
      exact answered_of_fails found writes fails

/-- In a tree of files, a command succeeds exactly if each of its sources can be processed alone. -/
theorem Answered.success_iff_alone {report : Report} {final : FileTree}
    (h : command.Answered tree report final) (wellFormed : tree.WellFormed) :
    report.exitCode = 0 ↔ ∃ sources, BuildSettings.sources {} tree command.path = .ok sources ∧
      ∀ source ∈ sources, ∃ contents, command.processing.resultOf tree source = .ok contents := by
  -- No output is a source, so that a source reads the same whatever was processed before.
  obtain ⟨suffix, aims⟩ := command.exists_aims
  have alone (sources : List String)
      (found : BuildSettings.sources {} tree command.path = .ok sources) :
      (∃ behind, command.processing.WritesAll tree sources behind) ↔ ∀ source ∈ sources,
        ∃ contents, command.processing.resultOf tree source = .ok contents := by
    obtain ⟨front, place, names, standsFor⟩ := BuildSettings.exists_standsFor wellFormed found
    obtain rfl : sources = names.map (entryPath front) := by simpa [found] using standsFor.found
    rw [standsFor.exists_writesAll_iff aims wellFormed, List.forall_mem_map]
  rw [h.success_iff]
  constructor
  · rintro ⟨sources, behind, found, writes⟩
    exact ⟨sources, found, (alone sources found).mp ⟨behind, writes⟩⟩
  · rintro ⟨sources, found, succeed⟩
    obtain ⟨behind, writes⟩ := (alone sources found).mpr succeed
    exact ⟨sources, behind, found, writes⟩

end Command

/-! ### Command lines -/

variable {arguments : List String} {path : String}

/-- Arguments that ask for the compilation of a path. -/
def AsksToCompile (arguments : List String) (path : String) : Prop :=
  arguments = ["compile", path] ∨
    arguments = [path] ∧ path ∉ ["compile", "tokens", "-h", "--help"]

theorem Command.ofArguments?_eq_compile_iff :
    Command.ofArguments? arguments = some (.compile path) ↔ AsksToCompile arguments path := by
  unfold AsksToCompile ofArguments?
  split
  · simp
  · simp
  · rename_i lone
    split
    · rename_i word
      refine iff_of_false nofun ?_
      rintro (same | ⟨same, noWord⟩)
      · simp at same
      · obtain rfl : lone = path := by simpa using same
        exact noWord word
    · rename_i noWord
      refine ⟨fun same => .inr ?_, ?_⟩
      · obtain rfl : lone = path := by simpa using same
        exact ⟨rfl, noWord⟩
      · rintro (same | ⟨same, -⟩)
        · simp at same
        · simpa using same
  · rename_i noCompile _ noLone
    refine iff_of_false nofun ?_
    rintro (same | ⟨same, -⟩)
    · exact noCompile path same
    · exact noLone path same

theorem Command.ofArguments?_eq_tokens_iff :
    Command.ofArguments? arguments = some (.tokens path) ↔ arguments = ["tokens", path] := by
  unfold ofArguments?
  split
  · simp
  · simp
  · split <;> simp
  · rename_i noTokens _
    exact iff_of_false nofun (noTokens path)

/-- What is answered to the arguments of a command line, and the tree behind it. -/
structure ArgumentsAnswered (arguments : List String) (tree : FileTree) (report : Report)
    (final : FileTree) : Prop where
  compile : ∀ path, AsksToCompile arguments path →
    (Command.compile path).Answered tree report final
  tokens : ∀ path, arguments = ["tokens", path] →
    (Command.tokens path).Answered tree report final
  other : (∀ path, ¬ AsksToCompile arguments path ∧ arguments ≠ ["tokens", path]) →
    report.exitCode = 64 ∧ report.output = Report.linesOf usageLines ∧ final = tree

theorem runCommandLine_of_command {command : Command}
    (asks : Command.ofArguments? arguments = some command) (tree : FileTree) :
    runCommandLine arguments tree = (reportOf (command.processing.build {} command.path tree).1,
      (command.processing.build {} command.path tree).2) := by
  rw [runCommandLine, asks, ← Command.onTree_build]
  rfl

theorem Command.answered_of_arguments {command : Command} {tree : FileTree}
    (asks : Command.ofArguments? arguments = some command) :
    command.Answered tree (runCommandLine arguments tree).1 (runCommandLine arguments tree).2 := by
  rw [runCommandLine_of_command asks]
  exact command.answered tree

/-- **The command line reports what it has done.** -/
theorem runCommandLine_answered (arguments : List String) (tree : FileTree) :
    ArgumentsAnswered arguments tree (runCommandLine arguments tree).1
      (runCommandLine arguments tree).2 where
  compile path asks := Command.answered_of_arguments (Command.ofArguments?_eq_compile_iff.mpr asks)
  tokens path asks := Command.answered_of_arguments (Command.ofArguments?_eq_tokens_iff.mpr asks)
  other neither := by
    have none : Command.ofArguments? arguments = none := by
      cases asked : Command.ofArguments? arguments with
      | none => rfl
      | some command =>
        cases command with
        | compile path =>
          exact absurd (Command.ofArguments?_eq_compile_iff.mp asked) (neither path).1
        | tokens path =>
          exact absurd (Command.ofArguments?_eq_tokens_iff.mp asked) (neither path).2
    rw [runCommandLine, none]
    exact ⟨rfl, rfl, rfl⟩

/-- A class and a source that is no class. -/
def oneBroken : FileTree where
  nodes := [(["A.jack"], .file (Utf8.encode "class A \x7b \x7d")),
    (["B.jack"], .file (Utf8.encode "class B \x7b"))]

theorem sources_oneBroken :
    BuildSettings.sources {} oneBroken "." = .ok ["./A.jack", "./B.jack"] := by
  have directory : oneBroken.find "." = .ok .directory := by decide +kernel
  have resolves : oneBroken.resolve "." = .ok [] := by decide +kernel
  -- Sorting does not reduce, but the entries are in order already.
  have entries : oneBroken.entries [] =
      oneBroken.nodes.map fun entry => (entry.1.getLastD "", entry.2) :=
    List.mergeSort_of_pairwise (by decide)
  rw [BuildSettings.sources, directory, resolves]
  dsimp only
  rw [entries]
  decide +kernel

/-- The code of the first source has been written when the second one fails. -/
theorem runCommandLine_answered_oneBroken :
    let answer := runCommandLine ["."] oneBroken
    AsksToCompile ["."] "." ∧ answer.1.exitCode = 1 ∧
      answer.1.output =
        "ERROR [jackc] B.jack:1: encountered unexpected token end of file, expected '\x7d'\n" ∧
      answer.2.nodeAt? ["A.vm"] = some (.file []) ∧
      ∃ done failing rest fault,
        BuildSettings.sources {} oneBroken "." = .ok (done ++ failing :: rest) ∧
        (BuildSettings.compiling {}).WritesAll oneBroken done answer.2 ∧
        (BuildSettings.compiling {}).Fails answer.2 failing fault ∧
        answer.1.output = Report.linesOf [faultReport fault] := by
  have asks : AsksToCompile ["."] "." := .inr ⟨rfl, by decide⟩
  have run := runCommandLine_of_command (Command.ofArguments?_eq_compile_iff.mpr asks) oneBroken
  have failed : (runCommandLine ["."] oneBroken).1.exitCode = 1 := by
    rw [run, Processing.build, Command.path, sources_oneBroken]
    decide +kernel
  refine ⟨asks, failed, ?_, ?_, ?_⟩
  · rw [run, Processing.build, Command.path, sources_oneBroken]
    decide +kernel
  · rw [run, Processing.build, Command.path, sources_oneBroken]
    decide +kernel
  · exact ((runCommandLine_answered ["."] oneBroken).compile "." asks).failure failed

end JackCompiler
