import JackCompiler.Proofs.Files.Path
import Mathlib.Data.String.Basic

/-!
# Looking at and changing trees

A front of names that leads to a directory leads there as long as no directory goes away. Reading
and writing the entry behind such a front is looking at the one place that the entry has, and
changing that place and no other.

## Main definitions

* `FileTree.WellFormed` — trees that are finite maps from places to files and directories
* `FileTree.Leads` — a front of names leads to a directory
* `FileTree.isDirectory` — whether a path leads to a directory

## Main results

* `FileTree.exists_leads` — the front of the entries of a directory leads to it
* `FileTree.Leads.read_entryPath`, `FileTree.Leads.write_entryPath` — reading and writing an entry
* `FileTree.WellFormed.mem_entries_iff`, `FileTree.WellFormed.sorted_entries` — the entries of a
  directory
* `FileTree.WellFormed.exists_entryPath` — a path to a file is that of an entry of a directory
* `FileTree.WellFormed.write` — writing keeps a tree well-formed
-/

namespace JackCompiler

namespace FileTree

/-- A tree is a finite map from places to files and directories. Its paths can be of any length, its
names are file names, and all that it holds is in directories. -/
structure WellFormed (tree : FileTree) : Prop where
  unlimited : tree.rules = {}
  distinct : (tree.nodes.map Prod.fst).Nodup
  names : ∀ stands ∈ tree.nodes, ∀ name ∈ stands.1, IsFileName name
  parents : ∀ stands ∈ tree.nodes, tree.nodeAt? stands.1.dropLast = some .directory

instance (tree : FileTree) : Decidable tree.WellFormed :=
  decidable_of_iff (tree.rules = {} ∧ (tree.nodes.map Prod.fst).Nodup ∧
      (∀ stands ∈ tree.nodes, ∀ name ∈ stands.1, IsFileName name) ∧
      ∀ stands ∈ tree.nodes, tree.nodeAt? stands.1.dropLast = some .directory)
    ⟨fun ⟨unlimited, distinct, names, parents⟩ => ⟨unlimited, distinct, names, parents⟩,
      fun ⟨unlimited, distinct, names, parents⟩ => ⟨unlimited, distinct, names, parents⟩⟩

/-- Where a front of names starts. -/
def startOfFront (tree : FileTree) (front : List String) : Place :=
  if front.head? = some "" then [] else tree.workingDirectory

/-- A front of names leads to a directory. -/
structure Leads (tree : FileTree) (front : List String) (place : Place) : Prop where
  noSlash : ∀ piece ∈ front, '/' ∉ piece.toList
  follows : tree.follow (tree.startOfFront front) front = .ok place
  directory : tree.nodeAt? place = some .directory

variable {tree tree' : FileTree} {front names : List String} {name : String} {here place : Place}

theorem bind_eq_ok {α β : Type} {step : Except StorageFault α} {next : α → Except StorageFault β}
    {b : β} : step >>= next = .ok b ↔ ∃ a, step = .ok a ∧ next a = .ok b := by
  cases step <;> simp [Bind.bind, Except.bind]

/-! ### Following names -/

theorem expectDirectory_eq_ok :
    tree.expectDirectory here = .ok () ↔ tree.nodeAt? here = some .directory := by
  unfold expectDirectory
  split <;> simp_all

/-- A name is followed from a directory only. -/
theorem follow_cons_eq_ok : tree.follow here (name :: names) = .ok place ↔
    tree.nodeAt? here = some .directory ∧
      if name = "" ∨ name = "." then tree.follow here names = .ok place
      else if name = ".." then tree.follow here.dropLast names = .ok place
      else tree.rules.checkName name = .ok () ∧ tree.follow (here ++ [name]) names = .ok place := by
  rw [← expectDirectory_eq_ok, follow]
  rcases tree.expectDirectory here with fault | ⟨⟨⟩⟩
  · simp [Bind.bind, Except.bind]
  · simp only [Bind.bind, Except.bind, true_and]
    split
    · rfl
    · split
      · rfl
      · rcases tree.rules.checkName name with fault | ⟨⟨⟩⟩ <;> simp

/-- Names are followed one after the other. -/
theorem follow_append_eq_ok : tree.follow here (front ++ names) = .ok place ↔
    ∃ middle, tree.follow here front = .ok middle ∧ tree.follow middle names = .ok place := by
  induction front generalizing here with
  | nil => simp [follow]
  | cons name front ih =>
    rw [List.cons_append]
    simp only [follow_cons_eq_ok, ih]
    split_ifs <;> simp only [and_assoc, exists_and_left]

/-- Empty names and single dots lead nowhere. -/
theorem eq_of_follow_idle {idle : List String}
    (leadNowhere : ∀ piece ∈ idle, piece = "" ∨ piece = ".")
    (follows : tree.follow here idle = .ok place) : place = here := by
  induction idle with
  | nil => exact (Except.ok.inj follows).symm
  | cons piece idle ih =>
    obtain ⟨first, rest⟩ := List.forall_mem_cons.mp leadNowhere
    rw [follow_cons_eq_ok, if_pos first] at follows
    exact ih rest follows.2

/-- What is followed through directories is followed as long as they are there. -/
theorem follow_of_directories (rules : tree'.rules = tree.rules)
    (kept : ∀ other, tree.nodeAt? other = some .directory → tree'.nodeAt? other = some .directory)
    (follows : tree.follow here names = .ok place) : tree'.follow here names = .ok place := by
  induction names generalizing here with
  | nil => exact follows
  | cons name names ih =>
    rw [follow_cons_eq_ok] at follows ⊢
    obtain ⟨directory, onward⟩ := follows
    rw [rules]
    refine ⟨kept here directory, ?_⟩
    by_cases idle : name = "" ∨ name = "."
    · rw [if_pos idle] at onward ⊢
      exact ih onward
    · rw [if_neg idle] at onward ⊢
      by_cases parent : name = ".."
      · rw [if_pos parent] at onward ⊢
        exact ih onward
      · rw [if_neg parent] at onward ⊢
        exact ⟨onward.1, ih onward.2⟩

/-! ### Where paths start -/

/-- A path that begins with an empty component starts at the root. -/
theorem startOf_eq {path : String} (nonempty : path ≠ "") :
    tree.startOf path = tree.startOfFront (namesOf path) := by
  have root : path.toList.head? = some '/' ↔ (namesOf path).head? = some "" := by
    rw [namesOf]
    cases letters : path.toList with
    | nil => exact absurd (String.toList_eq_nil_iff.mp letters) nonempty
    | cons c text =>
      rw [splitSlashes]
      by_cases slash : c = '/'
      · simp [slash]
      · cases splitSlashes text <;> simp [slash, String.ext_iff]
  rw [startOf, startOfFront]
  exact if_congr root rfl rfl

theorem startOfFront_concat (nonempty : name ≠ "") :
    tree.startOfFront (front ++ [name]) = tree.startOfFront front := by
  cases front with
  | nil => simp [startOfFront, nonempty]
  | cons => rfl

theorem entryPath_ne_empty (frontNoSlash : ∀ piece ∈ front, '/' ∉ piece.toList)
    (nonempty : name ≠ "") (noSlash : '/' ∉ name.toList) : entryPath front name ≠ "" := by
  intro empty
  have names := namesOf_entryPath frontNoSlash noSlash
  rw [empty] at names
  have last := congrArg List.getLast? names
  rw [List.getLast?_concat] at last
  exact nonempty (Option.some.inj last).symm

theorem startOf_entryPath (frontNoSlash : ∀ piece ∈ front, '/' ∉ piece.toList)
    (nonempty : name ≠ "") (noSlash : '/' ∉ name.toList) :
    tree.startOf (entryPath front name) = tree.startOfFront front := by
  rw [startOf_eq (entryPath_ne_empty frontNoSlash nonempty noSlash),
    namesOf_entryPath frontNoSlash noSlash, startOfFront_concat nonempty]

theorem find_of_resolve {path : String} {node : FileNode} (resolves : tree.resolve path = .ok place)
    (stands : tree.nodeAt? place = some node) : tree.find path = .ok node := by
  rw [find, resolves]
  simp only [Bind.bind, Except.bind, stands]

/-- A file can stand only in a directory, under a file name. -/
theorem exists_of_placeForFile {path : String} (found : tree.placeForFile path = .ok place) :
    ∃ directory name, tree.nodeAt? directory = some .directory ∧ IsFileName name ∧
      place = directory ++ [name] := by
  obtain ⟨⟨⟩, -, found⟩ := bind_eq_ok.mp found
  dsimp only at found
  generalize named : ((namesOf path).reverse.dropWhile (· = "")).reverse = counting at found
  cases last : counting.getLast? with
  | none =>
    rw [last] at found
    cases found
  | some name =>
    rw [last] at found
    obtain ⟨directory, -, found⟩ := bind_eq_ok.mp found
    obtain ⟨⟨⟩, isDirectory, found⟩ := bind_eq_ok.mp found
    split at found
    · cases found
    · rename_i proper
      obtain ⟨-, notHere, notParent⟩ : _ ∧ name ≠ "." ∧ name ≠ ".." := by
        simpa only [not_or] using proper
      obtain ⟨⟨⟩, -, found⟩ := bind_eq_ok.mp found
      rw [← named, List.getLast?_reverse] at last
      have mem : name ∈ namesOf path :=
        List.mem_reverse.mp ((List.dropWhile_suffix _).mem (List.mem_of_head? last))
      have nonempty : name ≠ "" := by
        have counts := List.head?_dropWhile_not (fun piece => decide (piece = ""))
          (namesOf path).reverse
        rw [last] at counts
        simpa using counts
      exact ⟨directory, name, expectDirectory_eq_ok.mp isDirectory,
        ⟨nonempty, noSlash_of_mem_namesOf mem, notHere, notParent⟩, (Except.ok.inj found).symm⟩

section Unlimited

variable (unlimited : tree.rules = {})
include unlimited

/-- A path leads where its names lead. -/
theorem resolve_eq (path : String) : tree.resolve path =
    if path = "" then .error .notFound else tree.follow (tree.startOf path) (namesOf path) := by
  rw [resolve, unlimited, PathRules.checkPath_default]
  simp only [String.isEmpty_iff]
  rfl

/-- The front of the entries of a directory leads to it. -/
theorem exists_leads {path : String} (resolves : tree.resolve path = .ok place)
    (directory : tree.nodeAt? place = some .directory) :
    ∃ front, tree.Leads front place ∧ ∀ name : String, '/' ∉ name.toList →
      String.ofList (joinPath path.toList name.toList) = entryPath front name := by
  rw [resolve_eq unlimited] at resolves
  by_cases nonempty : path = ""
  · rw [if_pos nonempty] at resolves
    cases resolves
  · rw [if_neg nonempty, startOf_eq nonempty] at resolves
    obtain ⟨front, some, noSlash, names, join⟩ := exists_front nonempty
    refine ⟨front, ⟨noSlash, ?_, directory⟩, join⟩
    -- A slash at the end of the path gives one more empty name, and that leads nowhere.
    obtain same | same := names
    · rwa [same] at resolves
    · have start : tree.startOfFront (front ++ [""]) = tree.startOfFront front := by
        rw [startOfFront, startOfFront, List.head?_append, List.head?_eq_some_head some,
          Option.some_or]
      rw [same, start, follow_append_eq_ok] at resolves
      obtain ⟨middle, before, idle⟩ := resolves
      rw [eq_of_follow_idle (by simp) idle, before]

end Unlimited

namespace Leads

/-- Without the components at its end that lead nowhere, a front leads to the same directory. -/
theorem trimmed (leads : tree.Leads front place) {trimmed : List String}
    (trims : TrimsTo front trimmed) : tree.Leads trimmed place := by
  obtain ⟨idle, whole, start, leadNowhere⟩ := trims
  have follows := leads.follows
  rw [startOfFront, ← start, whole, follow_append_eq_ok] at follows
  obtain ⟨middle, before, behind⟩ := follows
  refine ⟨fun piece mem => leads.noSlash piece (by simp [whole, mem]), ?_, leads.directory⟩
  rw [eq_of_follow_idle leadNowhere behind]
  exact before

theorem of_directories (leads : tree.Leads front place) (rules : tree'.rules = tree.rules)
    (start : tree'.workingDirectory = tree.workingDirectory)
    (kept : ∀ other, tree.nodeAt? other = some .directory → tree'.nodeAt? other = some .directory) :
    tree'.Leads front place := by
  refine ⟨leads.noSlash, ?_, kept place leads.directory⟩
  rw [startOfFront, start]
  exact follow_of_directories rules kept leads.follows

variable (leads : tree.Leads front place) (unlimited : tree.rules = {})
include leads unlimited

/-- The path of an entry leads to the place of the entry. -/
theorem resolve_entryPath (isName : IsFileName name) :
    tree.resolve (entryPath front name) = .ok (place ++ [name]) := by
  rw [resolve_eq unlimited,
    if_neg (entryPath_ne_empty leads.noSlash isName.nonempty isName.noSlash),
    startOf_entryPath leads.noSlash isName.nonempty isName.noSlash,
    namesOf_entryPath leads.noSlash isName.noSlash, follow_append_eq_ok]
  refine ⟨place, leads.follows, follow_cons_eq_ok.mpr ⟨leads.directory, ?_⟩⟩
  rw [if_neg (by simp [isName.nonempty, isName.notHere]), if_neg isName.notParent, unlimited]
  exact ⟨rfl, rfl⟩

/-- Two dots behind a front lead to the directory around. -/
theorem resolve_parent : tree.resolve (entryPath front "..") = .ok place.dropLast := by
  have noSlash : '/' ∉ "..".toList := by decide
  rw [resolve_eq unlimited, if_neg (entryPath_ne_empty leads.noSlash (by decide) noSlash),
    startOf_entryPath leads.noSlash (by decide) noSlash,
    namesOf_entryPath leads.noSlash noSlash, follow_append_eq_ok]
  exact ⟨place, leads.follows, follow_cons_eq_ok.mpr ⟨leads.directory, rfl⟩⟩

/-- A file can stand behind a front under any name but that of the directory itself and of the one
around it. -/
theorem placeForFile_entryPath (nonempty : name ≠ "") (noSlash : '/' ∉ name.toList) :
    tree.placeForFile (entryPath front name) =
      if name = "." ∨ name = ".." then .error .isDirectory else .ok (place ++ [name]) := by
  have named : ((front ++ [name]).reverse.dropWhile (· = "")).reverse = front ++ [name] := by
    simp [nonempty]
  have follows : tree.follow (tree.startOf (entryPath front name)) front = .ok place := by
    rw [startOf_entryPath leads.noSlash nonempty noSlash, leads.follows]
  have directory := expectDirectory_eq_ok.mpr leads.directory
  rw [placeForFile, unlimited, PathRules.checkPath_default,
    namesOf_entryPath leads.noSlash noSlash]
  dsimp only
  rw [named, List.getLast?_concat, List.dropLast_concat]
  dsimp only
  rw [follows]
  change (tree.expectDirectory place >>= fun _ => _) = _
  rw [directory]
  change (if (front ++ [name]).length < (front ++ [name]).length ∨ _ then _ else _) = _
  simp only [Nat.lt_irrefl, false_or]
  rfl

/-- What stands where the path of an entry leads to. -/
theorem find_entryPath (isName : IsFileName name) : tree.find (entryPath front name) =
    match tree.nodeAt? (place ++ [name]) with
    | some node => .ok node
    | none => .error .notFound := by
  rw [find, leads.resolve_entryPath unlimited isName]
  rfl

/-- The contents of an entry that is a file. -/
theorem read_entryPath (isName : IsFileName name) {contents : List UInt8}
    (file : tree.nodeAt? (place ++ [name]) = some (.file contents)) :
    tree.read (entryPath front name) = .ok contents := by
  rw [read, leads.find_entryPath unlimited isName, file]
  rfl

/-- Writing an entry changes the entry, unless it is a directory. -/
theorem write_entryPath (isName : IsFileName name) (contents : List UInt8) :
    tree.write (entryPath front name) contents =
      if tree.nodeAt? (place ++ [name]) = some .directory then .error .isDirectory
      else .ok (tree.insert (place ++ [name]) (.file contents)) := by
  have proper : ¬ (name = "." ∨ name = "..") := not_or.mpr ⟨isName.notHere, isName.notParent⟩
  rw [write, leads.placeForFile_entryPath unlimited isName.nonempty isName.noSlash, if_neg proper]
  simp only [Bind.bind, Except.bind]
  rcases tree.nodeAt? (place ++ [name]) with _ | _ | _ <;> rfl

/-- The directory around cannot be written. -/
theorem write_parent (contents : List UInt8) :
    tree.write (entryPath front "..") contents = .error .isDirectory := by
  rw [write, leads.placeForFile_entryPath unlimited (by decide) (by decide), if_pos (.inr rfl)]
  rfl

end Leads

/-- Whether a path leads to a directory. -/
def isDirectory (tree : FileTree) (path : String) : Bool :=
  match tree.find path with
  | .ok .directory => true
  | _ => false

theorem Leads.isDirectory_entryPath (leads : tree.Leads front place) (unlimited : tree.rules = {})
    (isName : IsFileName name) : tree.isDirectory (entryPath front name) = true ↔
      tree.nodeAt? (place ++ [name]) = some .directory := by
  rw [isDirectory, leads.find_entryPath unlimited isName]
  rcases tree.nodeAt? (place ++ [name]) with _ | _ | _ <;> simp

/-! ### Entries of directories -/

section Entries

variable {node : FileNode}

/-- The entry that a node is of a directory. -/
def entryOf? (directory : Place) (stands : Place × FileNode) : Option (String × FileNode) :=
  match stands.1.getLast? with
  | some name => if stands.1.dropLast = directory then some (name, stands.2) else none
  | none => none

theorem entryOf?_eq_some {stands : Place × FileNode} :
    entryOf? place stands = some (name, node) ↔ stands = (place ++ [name], node) := by
  obtain ⟨there, what⟩ := stands
  rw [entryOf?]
  cases last : there.getLast? with
  | none =>
    obtain rfl := List.getLast?_eq_none_iff.mp last
    simp
  | some name' =>
    obtain ⟨before, rfl⟩ := List.getLast?_eq_some_iff.mp last
    by_cases same : before = place
    · simp [same]
    · simp [same]

theorem entries_eq (tree : FileTree) (place : Place) : tree.entries place =
    (tree.nodes.filterMap (entryOf? place)).mergeSort fun one other => decide (one.1 ≤ other.1) :=
  rfl

theorem nodeAt?_concat (tree : FileTree) (place : Place) (name : String) :
    tree.nodeAt? (place ++ [name]) = tree.nodes.lookup (place ++ [name]) := by
  cases place <;> rfl

theorem mem_nodes_insert {stands : Place × FileNode} : stands ∈ (tree.insert place node).nodes ↔
    stands = (place, node) ∨ stands ∈ tree.nodes ∧ stands.1 ≠ place := by
  simp [FileTree.insert]

namespace WellFormed

variable (wellFormed : tree.WellFormed)
include wellFormed

/-- The nodes of a tree are what stands at its places. -/
theorem lookup_eq_some_iff : tree.nodes.lookup place = some node ↔ (place, node) ∈ tree.nodes := by
  rw [List.lookup_eq_some_iff]
  constructor
  · rintro ⟨before, behind, nodes, -⟩
    simp [nodes]
  · intro mem
    obtain ⟨before, behind, nodes⟩ := List.append_of_mem mem
    have distinct := wellFormed.distinct
    rw [nodes, List.map_append, List.nodup_append] at distinct
    refine ⟨before, behind, nodes, fun other mem' => ?_⟩
    have different := distinct.2.2 other.1 (List.mem_map_of_mem mem') place (by simp)
    simpa using different.symm

/-- All that stands anywhere stands in a directory. -/
theorem directory_of_nodeAt? (stands : tree.nodeAt? place = some node) :
    tree.nodeAt? place.dropLast = some .directory := by
  cases place with
  | nil => rfl
  | cons name place =>
    exact wellFormed.parents (name :: place, node) (wellFormed.lookup_eq_some_iff.mp stands)

theorem isDirectory_parent (leads : tree.Leads front place) :
    tree.isDirectory (entryPath front "..") = true := by
  rw [isDirectory, find_of_resolve (leads.resolve_parent wellFormed.unlimited)
    (wellFormed.directory_of_nodeAt? leads.directory)]

/-- A name that leads to anything but a directory is that of an entry. -/
theorem eq_concat_of_follow (follows : tree.follow here [name] = .ok place)
    (notDirectory : tree.nodeAt? place ≠ some .directory) :
    tree.nodeAt? here = some .directory ∧ (name ≠ "" ∧ name ≠ "." ∧ name ≠ "..") ∧
      place = here ++ [name] := by
  obtain ⟨directory, onward⟩ := follow_cons_eq_ok.mp follows
  by_cases idle : name = "" ∨ name = "."
  · rw [if_pos idle] at onward
    exact absurd (Except.ok.inj onward ▸ directory) notDirectory
  rw [if_neg idle] at onward
  by_cases parent : name = ".."
  · rw [if_pos parent] at onward
    exact absurd (Except.ok.inj onward ▸ wellFormed.directory_of_nodeAt? directory) notDirectory
  rw [if_neg parent] at onward
  obtain ⟨nonempty, notHere⟩ := not_or.mp idle
  exact ⟨directory, ⟨nonempty, notHere, parent⟩, (Except.ok.inj onward.2).symm⟩

/-- A path to a file is that of an entry of a directory. -/
theorem exists_entryPath {path : String} {contents : List UInt8}
    (resolves : tree.resolve path = .ok place)
    (file : tree.nodeAt? place = some (.file contents)) :
    ∃ front directory name, tree.Leads front directory ∧ IsFileName name ∧
      path = entryPath front name ∧ place = directory ++ [name] := by
  rw [resolve_eq wellFormed.unlimited] at resolves
  by_cases empty : path = ""
  · rw [if_pos empty] at resolves
    cases resolves
  rw [if_neg empty, startOf_eq empty] at resolves
  obtain ⟨front, name, names⟩ : ∃ front name, namesOf path = front ++ [name] :=
    ⟨_, _, (List.dropLast_append_getLast (by simp [namesOf, splitSlashes_ne_nil])).symm⟩
  have noSlash (piece : String) (mem : piece ∈ front ++ [name]) : '/' ∉ piece.toList :=
    noSlash_of_mem_namesOf (names ▸ mem)
  rw [names, follow_append_eq_ok] at resolves
  obtain ⟨directory, before, behind⟩ := resolves
  obtain ⟨isDirectory, ⟨nonempty, notHere, notParent⟩, same⟩ :=
    wellFormed.eq_concat_of_follow behind (by simp [file])
  rw [startOfFront_concat nonempty] at before
  exact ⟨front, directory, name,
    ⟨fun piece mem => noSlash piece (List.mem_append_left _ mem), before, isDirectory⟩,
    ⟨nonempty, noSlash name List.mem_concat_self, notHere, notParent⟩, eq_entryPath names, same⟩

/-- What stands in a directory has a file name. -/
theorem isFileName_of_nodeAt? (stands : tree.nodeAt? (place ++ [name]) = some node) :
    IsFileName name := by
  rw [nodeAt?_concat, wellFormed.lookup_eq_some_iff] at stands
  exact wellFormed.names _ stands name (by simp)

/-- The entries of a directory are what stands in it. -/
theorem mem_entries_iff :
    (name, node) ∈ tree.entries place ↔ tree.nodeAt? (place ++ [name]) = some node := by
  rw [nodeAt?_concat, wellFormed.lookup_eq_some_iff, entries_eq, List.mem_mergeSort,
    List.mem_filterMap]
  simp only [entryOf?_eq_some, exists_eq_right]

/-- The entries of a directory have ascending names. -/
theorem sorted_entries (place : Place) : (tree.entries place).Pairwise (·.1 < ·.1) := by
  -- Sorting alone would allow a name to come twice. The places of a tree are different.
  have distinct : (tree.nodes.filterMap (entryOf? place)).Pairwise (·.1 ≠ ·.1) := by
    rw [List.pairwise_filterMap]
    refine (List.pairwise_map.mp wellFormed.distinct).imp ?_
    rintro stands stands' different ⟨name, node⟩ is ⟨name', node'⟩ is' same
    obtain rfl : name = name' := same
    rw [entryOf?_eq_some.mp is, entryOf?_eq_some.mp is'] at different
    exact different rfl
  have apart : (tree.entries place).Pairwise (·.1 ≠ ·.1) :=
    ((List.mergeSort_perm _ _).pairwise_iff fun different => different.symm).mpr distinct
  have ascending : (tree.entries place).Pairwise fun one other => decide (one.1 ≤ other.1) = true :=
    List.pairwise_mergeSort (fun a b c => by simpa using fun first second => le_trans first second)
      (fun a b => by simpa using le_total a.1 b.1) _
  exact (ascending.and apart).imp fun ⟨le, different⟩ =>
    lt_of_le_of_ne (of_decide_eq_true le) different

/-- A tree stays well-formed when a file takes a place in a directory. -/
theorem insert (directory : tree.nodeAt? place = some .directory) (isName : IsFileName name)
    (free : tree.nodeAt? (place ++ [name]) ≠ some .directory) (contents : List UInt8) :
    (tree.insert (place ++ [name]) (.file contents)).WellFormed where
  unlimited := wellFormed.unlimited
  distinct := by
    rw [FileTree.insert, List.map_cons, List.nodup_cons]
    exact ⟨by simp, wellFormed.distinct.sublist (List.filter_sublist.map Prod.fst)⟩
  names stands mem := by
    obtain rfl | ⟨mem, -⟩ := mem_nodes_insert.mp mem
    · intro other inside
      obtain inside | inside := List.mem_append.mp inside
      · cases place with
        | nil => cases inside
        | cons first place =>
          exact wellFormed.names _ (wellFormed.lookup_eq_some_iff.mp directory) other inside
      · exact List.mem_singleton.mp inside ▸ isName
    · exact wellFormed.names stands mem
  parents stands mem := by
    rw [nodeAt?_insert _ (by simp)]
    obtain rfl | ⟨mem, -⟩ := mem_nodes_insert.mp mem
    · rw [List.dropLast_concat, if_neg (by simp), directory]
    · have parent := wellFormed.parents stands mem
      have other : stands.1.dropLast ≠ place ++ [name] := fun same => free (same ▸ parent)
      rw [if_neg other, parent]

/-- Writing keeps a tree well-formed. -/
theorem write {path : String} {contents : List UInt8}
    (written : tree.write path contents = .ok tree') : tree'.WellFormed := by
  rw [FileTree.write] at written
  obtain ⟨place, found, written⟩ := bind_eq_ok.mp written
  obtain ⟨directory, name, isDirectory, isName, rfl⟩ := exists_of_placeForFile found
  split at written
  · cases written
  · rename_i free
    exact Except.ok.inj written ▸ wellFormed.insert isDirectory isName free contents

end WellFormed

end Entries

end FileTree

end JackCompiler
