import JackCompiler.Files.Tree
import JackCompiler.Proofs.Token.Progress
import Mathlib.Data.List.TakeWhile

/-!
# Paths of entries

The path of an entry of a directory is a front of names that leads to the directory, and the name of
the entry behind it. What is told and changed of a path by its last component is told and changed of
that name, whatever the front is. Only empty components and single dots at the end of a front are
lost when the last component is replaced, and these lead nowhere.

## Main definitions

* `IsFileName` — the names that entries of directories can have
* `entryPath` — the path of an entry behind a front of names
* `TrimsTo` — a front is another one with components behind it that lead nowhere

## Main results

* `exists_front` — the paths of the entries of a directory share a front
* `IsFileName.withExtension_entryPath`, `withFileName_entryPath` — a path with another last
  component
-/

namespace JackCompiler

/-! ### Pieces -/

theorem splitSlashes_ne_nil (text : List Char) : splitSlashes text ≠ [] := by
  cases text with
  | nil => simp [splitSlashes]
  | cons c text =>
    rw [splitSlashes]
    split
    · simp
    · split <;> simp

theorem splitSlashes_of_noSlash {piece : List Char} (noSlash : '/' ∉ piece) :
    splitSlashes piece = [piece] := by
  induction piece with
  | nil => rfl
  | cons c piece ih =>
    obtain ⟨different, noSlash⟩ := List.ne_and_not_mem_of_not_mem_cons noSlash
    rw [splitSlashes, if_neg different.symm, ih noSlash]

/-- The pieces of two texts with a slash between them. -/
theorem splitSlashes_append (text more : List Char) :
    splitSlashes (text ++ '/' :: more) = splitSlashes text ++ splitSlashes more := by
  induction text with
  | nil => simp [splitSlashes]
  | cons c text ih =>
    rw [List.cons_append, splitSlashes, splitSlashes, ih]
    split
    · rfl
    · cases pieces : splitSlashes text with
      | nil => exact absurd pieces (splitSlashes_ne_nil text)
      | cons piece pieces => rfl

theorem noSlash_of_mem_splitSlashes {text piece : List Char} (mem : piece ∈ splitSlashes text) :
    '/' ∉ piece := by
  induction text generalizing piece with
  | nil => simp_all [splitSlashes]
  | cons c text ih =>
    rw [splitSlashes] at mem
    split at mem
    · obtain rfl | mem := List.mem_cons.mp mem
      · exact List.not_mem_nil
      · exact ih mem
    · rename_i different
      split at mem
      · rename_i none
        exact absurd none (splitSlashes_ne_nil text)
      · rename_i first rest pieces
        obtain rfl | mem := List.mem_cons.mp mem
        · exact List.not_mem_cons_of_ne_of_not_mem (Ne.symm different) (ih (by simp [pieces]))
        · exact ih (by simp [pieces, mem])

theorem joinSlashes_cons {piece : List Char} {pieces : List (List Char)} (more : pieces ≠ []) :
    joinSlashes (piece :: pieces) = piece ++ '/' :: joinSlashes pieces := by
  cases pieces with
  | nil => exact absurd rfl more
  | cons => rfl

theorem joinSlashes_concat {front : List (List Char)} (nonempty : front ≠ []) (name : List Char) :
    joinSlashes (front ++ [name]) = joinSlashes front ++ '/' :: name := by
  induction front with
  | nil => exact absurd rfl nonempty
  | cons piece front ih =>
    rw [List.cons_append, joinSlashes_cons (by simp)]
    by_cases last : front = []
    · simp [last, joinSlashes]
    · rw [ih last, joinSlashes_cons last, List.append_assoc]
      rfl

/-- What is behind the last piece is behind the whole. -/
theorem joinSlashes_concat_append (front : List (List Char)) (name more : List Char) :
    joinSlashes (front ++ [name ++ more]) = joinSlashes (front ++ [name]) ++ more := by
  by_cases nonempty : front = []
  · rw [nonempty]
    rfl
  · rw [joinSlashes_concat nonempty, joinSlashes_concat nonempty, List.append_assoc]
    rfl

/-- Splitting what is joined from pieces without slashes gives the pieces back. -/
theorem splitSlashes_joinSlashes {pieces : List (List Char)} (nonempty : pieces ≠ [])
    (noSlash : ∀ piece ∈ pieces, '/' ∉ piece) : splitSlashes (joinSlashes pieces) = pieces := by
  induction pieces with
  | nil => exact absurd rfl nonempty
  | cons piece pieces ih =>
    obtain ⟨first, rest⟩ := List.forall_mem_cons.mp noSlash
    by_cases last : pieces = []
    · rw [last]
      exact splitSlashes_of_noSlash first
    · rw [joinSlashes_cons last, splitSlashes_append, splitSlashes_of_noSlash first, ih last rest]
      rfl

/-- The paths of the entries of a directory share a front. It consists of the components of the
directory, apart from an empty one behind a slash at the end. -/
theorem exists_pieces {directory : List Char} (nonempty : directory ≠ []) : ∃ front ≠ [],
    (∀ piece ∈ front, '/' ∉ piece) ∧
    (splitSlashes directory = front ∨ splitSlashes directory = front ++ [[]]) ∧
    ∀ name, '/' ∉ name → joinPath directory name = joinSlashes (front ++ [name]) := by
  have relative {name : List Char} (noSlash : '/' ∉ name) : name.head? ≠ some '/' :=
    fun absolute => noSlash (List.mem_of_head? absolute)
  by_cases slash : directory.getLast? = some '/'
  · obtain ⟨front, rfl⟩ := List.getLast?_eq_some_iff.mp slash
    -- The name takes the place of the empty piece behind the last slash.
    have pieces : splitSlashes (front ++ ['/']) = splitSlashes front ++ [[]] :=
      splitSlashes_append front []
    refine ⟨splitSlashes front, splitSlashes_ne_nil front,
      fun piece => noSlash_of_mem_splitSlashes, .inr pieces, fun name noSlash => ?_⟩
    rw [joinPath, if_neg (relative noSlash), if_pos (.inr slash),
      joinSlashes_concat (splitSlashes_ne_nil front), joinSlashes_splitSlashes, List.append_assoc]
    rfl
  · refine ⟨splitSlashes directory, splitSlashes_ne_nil directory,
      fun piece => noSlash_of_mem_splitSlashes, .inl rfl, fun name noSlash => ?_⟩
    rw [joinPath, if_neg (relative noSlash), if_neg (by simp [nonempty, slash]),
      joinSlashes_concat (splitSlashes_ne_nil directory), joinSlashes_splitSlashes]

/-! ### Parts -/

namespace PathParts

/-- Whether a component at the end of a path does not count. -/
def idle (component : List Char) : Bool :=
  component == [] || component == ['.']

theorem trimEnd_cons (piece : List Char) (pieces : List (List Char)) : trimEnd (piece :: pieces) =
    if trimEnd pieces = [] ∧ idle piece = true then [] else piece :: trimEnd pieces := by
  have idle_eq : (fun component : List Char => component == [] || component == ['.']) = idle := rfl
  rw [trimEnd, trimEnd, idle_eq, List.reverse_cons, List.dropWhile_append]
  by_cases rest : pieces.reverse.dropWhile idle = []
  · cases first : idle piece <;> simp [rest, first]
  · simp [rest]

theorem trimEnd_concat {name : List Char} (counts : idle name = false)
    (front : List (List Char)) : trimEnd (front ++ [name]) = front ++ [name] := by
  induction front with
  | nil =>
    have counts' : name ≠ [] ∧ name ≠ ['.'] := by simpa [idle] using counts
    simp [trimEnd, counts']
  | cons piece front ih => rw [List.cons_append, trimEnd_cons, ih, if_neg (by simp)]

theorem idle_of_getLast?_trimEnd {pieces : List (List Char)} {last : List Char}
    (ends : (trimEnd pieces).getLast? = some last) : idle last = false := by
  induction pieces with
  | nil => cases ends
  | cons piece pieces ih =>
    rw [trimEnd_cons] at ends
    split at ends
    · cases ends
    · rename_i counts
      by_cases rest : trimEnd pieces = []
      · rw [rest, List.getLast?_singleton] at ends
        simpa [rest, Option.some.inj ends] using counts
      · rw [List.getLast?_cons_of_ne_nil rest] at ends
        exact ih ends

/-- The parts of a front of pieces. -/
def ofFront : List (List Char) → PathParts
  | [] :: front => { root := ['/'], components := front }
  | ['.'] :: front => { root := ['.'], components := [] :: front }
  | front => { root := [], components := front }

/-- One more component. -/
def push (parts : PathParts) (name : List Char) : PathParts :=
  { parts with components := parts.components ++ [name] }

variable {front : List (List Char)} {name other : List Char}

theorem ofText_of_pieces {path first : List Char} {rest : List (List Char)}
    (pieces : splitSlashes path = first :: rest) (counts : idle first = false) :
    ofText path = { root := [], components := trimEnd (splitSlashes path) } := by
  -- The forms that have a root begin with a component that does not count.
  unfold ofText
  split
  · rw [splitSlashes, if_pos rfl] at pieces
    cases pieces
    cases counts
  · cases pieces
    cases counts
  · have dot : splitSlashes ('.' :: '/' :: ‹List Char›) = ['.'] :: splitSlashes ‹List Char› :=
      splitSlashes_append ['.'] _
    cases dot.symm.trans pieces
    cases counts
  · rfl

theorem idle_eq_true {piece : List Char} : idle piece = true ↔ piece = [] ∨ piece = ['.'] := by
  simp [idle]

theorem ofFront_of_counts {first : List Char} (counts : idle first = false) :
    ofFront (first :: front) = { root := [], components := first :: front } := by
  unfold ofFront
  split
  · rename_i same
    cases same
    cases counts
  · rename_i same
    cases same
    cases counts
  · rfl

/-- The parts of the path of an entry. -/
theorem ofText_joinSlashes (frontNoSlash : ∀ piece ∈ front, '/' ∉ piece) (noSlash : '/' ∉ name)
    (counts : idle name = false) :
    ofText (joinSlashes (front ++ [name])) = (ofFront front).push name := by
  have all : ∀ piece ∈ front ++ [name], '/' ∉ piece := by
    simpa [or_imp, forall_and] using ⟨frontNoSlash, noSlash⟩
  have pieces := splitSlashes_joinSlashes (by simp) all
  cases front with
  | nil =>
    rw [ofText_of_pieces pieces counts, pieces, trimEnd_concat counts]
    rfl
  | cons first front =>
    have behind : splitSlashes (joinSlashes (front ++ [name])) = front ++ [name] :=
      splitSlashes_joinSlashes (by simp) fun piece mem => all piece (List.mem_cons_of_mem _ mem)
    by_cases idleFirst : idle first = true
    · rw [List.cons_append, joinSlashes_cons (by simp)]
      -- An absolute path keeps its slash as a root, one that begins with a dot keeps the dot.
      obtain rfl | rfl := idle_eq_true.mp idleFirst
      · change PathParts.mk ['/'] (trimEnd (splitSlashes (joinSlashes (front ++ [name])))) = _
        rw [behind, trimEnd_concat counts]
        rfl
      · change PathParts.mk ['.'] (trimEnd (splitSlashes ('/' :: joinSlashes (front ++ [name])))) =
          _
        rw [splitSlashes, if_pos rfl, behind, ← List.cons_append, trimEnd_concat counts]
        rfl
    · have counts' : idle first = false := by simpa using idleFirst
      rw [ofText_of_pieces pieces counts', pieces, trimEnd_concat counts,
        ofFront_of_counts counts']
      rfl

/-- The text of the path of an entry. -/
theorem text_push (front : List (List Char)) (name : List Char) :
    ((ofFront front).push name).text = joinSlashes (front ++ [name]) := by
  unfold ofFront
  split
  · rw [List.cons_append, joinSlashes_cons (by simp)]
    rfl
  · rename_i front
    change ['.'] ++ joinSlashes ([] :: (front ++ [name])) = joinSlashes (['.'] :: (front ++ [name]))
    rw [joinSlashes_cons (by simp), joinSlashes_cons (by simp)]
    rfl
  · rfl

theorem replaceName_push (front : List (List Char)) (name other : List Char) :
    ((ofFront front).push name).replaceName other = (ofFront front).push other := by
  simp [replaceName, push]

theorem name?_push (front : List (List Char)) (name : List Char) :
    ((ofFront front).push name).name? = if name = ['.', '.'] then none else some name := by
  by_cases parent : name = ['.', '.'] <;> simp [name?, push, parent]

/-- A name behind a path that does not end with a slash. -/
theorem joinPath_joinSlashes {last : List Char} (ends : front.getLast? = some last)
    (nonempty : last ≠ []) (lastNoSlash : '/' ∉ last) (noSlash : '/' ∉ other) :
    joinPath (joinSlashes front) other = joinSlashes (front ++ [other]) := by
  obtain ⟨before, rfl⟩ := List.getLast?_eq_some_iff.mp ends
  have relative : other.head? ≠ some '/' := fun absolute => noSlash (List.mem_of_head? absolute)
  have final : (joinSlashes (before ++ [last])).getLast? = last.getLast? := by
    by_cases alone : before = []
    · rw [alone]
      rfl
    · rw [joinSlashes_concat alone, List.getLast?_append, List.getLast?_cons_of_ne_nil nonempty,
        List.getLast?_eq_some_getLast nonempty]
      rfl
  have noSlash' : (joinSlashes (before ++ [last])).getLast? ≠ some '/' :=
    fun slash => lastNoSlash (List.mem_of_getLast? (final ▸ slash))
  have nonempty' : joinSlashes (before ++ [last]) ≠ [] := by
    intro empty
    rw [empty] at final
    exact nonempty (List.getLast?_eq_none_iff.mp final.symm)
  rw [joinPath, if_neg relative, if_neg (by simp [nonempty', noSlash']),
    @joinSlashes_concat (before ++ [last]) (by simp)]

end PathParts

/-- A front without the components at its end that lead nowhere. The first one stays, because it
says where the front starts. -/
def trimFront : List (List Char) → List (List Char)
  | [] => []
  | first :: front => first :: PathParts.trimEnd front

namespace PathParts

variable {front : List (List Char)} {name other : List Char}

theorem parent_push (front : List (List Char)) (name : List Char) :
    ((ofFront front).push name).parent =
      { root := (ofFront front).root, components := trimEnd (ofFront front).components } := by
  simp [parent, push]

theorem mem_of_mem_trimEnd {piece : List Char} (mem : piece ∈ trimEnd front) : piece ∈ front := by
  rw [trimEnd, List.mem_reverse] at mem
  exact List.mem_reverse.mp (List.dropWhile_subset _ mem)

/-- A name behind what is left of a front, if the last component that is left counts. -/
theorem joinPath_trimEnd {first : List Char} (counts : trimEnd front = [] → idle first = false)
    (frontNoSlash : ∀ piece ∈ first :: front, '/' ∉ piece) (noSlash : '/' ∉ other) :
    joinPath (joinSlashes (first :: trimEnd front)) other =
      joinSlashes (first :: trimEnd front ++ [other]) := by
  have last : ∃ last ∈ first :: front, idle last = false ∧
      (first :: trimEnd front).getLast? = some last := by
    by_cases rest : trimEnd front = []
    · exact ⟨first, List.mem_cons_self, counts rest, by rw [rest]; rfl⟩
    · have ends := List.getLast?_eq_some_getLast rest
      refine ⟨_, ?_, idle_of_getLast?_trimEnd ends, (List.getLast?_cons_of_ne_nil rest).trans ends⟩
      exact List.mem_cons_of_mem _ (mem_of_mem_trimEnd (List.getLast_mem rest))
  obtain ⟨last, mem, counts, ends⟩ := last
  refine joinPath_joinSlashes ends ?_ (frontNoSlash last mem) noSlash
  rintro rfl
  cases counts

/-- A name behind the front of an entry. -/
theorem joinPath_parent_push (frontNoSlash : ∀ piece ∈ front, '/' ∉ piece) (noSlash : '/' ∉ other) :
    joinPath ((ofFront front).push name).parent.text other =
      joinSlashes (trimFront front ++ [other]) := by
  have relative : other.head? ≠ some '/' := fun absolute => noSlash (List.mem_of_head? absolute)
  rw [parent_push]
  cases front with
  | nil =>
    change joinPath [] other = other
    rw [joinPath, if_neg relative, if_pos (.inl rfl), List.nil_append]
  | cons first front =>
    by_cases idleFirst : idle first = true
    · obtain rfl | rfl := idle_eq_true.mp idleFirst
      · change joinPath ('/' :: joinSlashes (trimEnd front)) other =
          joinSlashes ([] :: trimEnd front ++ [other])
        by_cases rest : trimEnd front = []
        · rw [rest, joinPath, if_neg relative, if_pos (.inr rfl)]
          rfl
        · have root : '/' :: joinSlashes (trimEnd front) = joinSlashes ([] :: trimEnd front) := by
            rw [joinSlashes_cons rest]
            rfl
          rw [root, joinPath_trimEnd (absurd · rest) frontNoSlash noSlash]
      · change joinPath ('.' :: joinSlashes (trimEnd ([] :: front))) other =
          joinSlashes (['.'] :: trimEnd front ++ [other])
        rw [trimEnd_cons]
        by_cases rest : trimEnd front = []
        · rw [if_pos ⟨rest, rfl⟩, rest, joinPath, if_neg relative, if_neg (by decide)]
          rfl
        · have root : '.' :: joinSlashes ([] :: trimEnd front) =
              joinSlashes (['.'] :: trimEnd front) := by
            rw [joinSlashes_cons rest, joinSlashes_cons rest]
            rfl
          rw [if_neg (fun empty => rest empty.1), root,
            joinPath_trimEnd (absurd · rest) frontNoSlash noSlash]
    · have counts : idle first = false := by simpa using idleFirst
      rw [ofFront_of_counts counts, trimEnd_cons, if_neg (by simp [counts])]
      exact joinPath_trimEnd (fun _ => counts) frontNoSlash noSlash

end PathParts

/-! ### Extensions -/

section Extensions

variable {name stem extension : List Char}

/-- A name falls apart at its last dot, unless that is its first character. -/
theorem splitExtension_append (noDot : '.' ∉ extension) :
    splitExtension (stem ++ '.' :: extension) =
      if stem = [] then ('.' :: extension, none) else (stem, some extension) := by
  have all : ∀ c ∈ extension.reverse, (c != '.') = true := by
    intro c mem
    have different : c ≠ '.' := fun dot => noDot (dot ▸ List.mem_reverse.mp mem)
    simpa using different
  have whole : (stem ++ '.' :: extension).reverse = extension.reverse ++ '.' :: stem.reverse := by
    simp
  have front : (('.' :: stem.reverse).dropWhile (· != '.')).reverse.dropLast = stem := by simp
  have behind : ('.' :: stem.reverse).takeWhile (· != '.') = [] := by simp
  rw [splitExtension, whole, List.takeWhile_append_of_pos all, List.dropWhile_append_of_pos all,
    front, behind, List.append_nil, List.reverse_reverse]
  cases stem <;> rfl

theorem splitExtension_of_noDot (noDot : '.' ∉ name) : splitExtension name = (name, none) := by
  have all : ∀ c ∈ name.reverse, (c != '.') = true := by
    intro c mem
    have different : c ≠ '.' := fun dot => noDot (dot ▸ List.mem_reverse.mp mem)
    simpa using different
  rw [splitExtension, List.dropWhile_eq_nil_iff.mpr all]
  rfl

/-- An extension is what follows the last dot, if there is something in front of that. -/
theorem splitExtension_eq_some : splitExtension name = (stem, some extension) ↔
    stem ≠ [] ∧ '.' ∉ extension ∧ name = stem ++ '.' :: extension := by
  constructor
  · intro h
    by_cases dot : '.' ∈ name
    · obtain ⟨behind, before, whole, noDot⟩ :=
        List.eq_append_cons_of_mem (List.mem_reverse.mpr dot)
      obtain rfl : name = before.reverse ++ '.' :: behind.reverse := by
        rw [← List.reverse_reverse name, whole]
        simp
      rw [splitExtension_append (by simpa using noDot)] at h
      split at h
      · cases h
      · rename_i nonempty
        cases h
        exact ⟨nonempty, by simpa using noDot, rfl⟩
    · rw [splitExtension_of_noDot dot] at h
      cases h
  · rintro ⟨nonempty, noDot, rfl⟩
    rw [splitExtension_append noDot, if_neg nonempty]

theorem byteLength_reverse (text : List Char) : byteLength text.reverse = byteLength text := by
  induction text with
  | nil => rfl
  | cons c text ih =>
    rw [List.reverse_cons, byteLength_append, ih, byteLength, byteLength, byteLength, Nat.add_zero,
      Nat.add_comm]

theorem dropBytes_append (text more : List Char) :
    dropBytes (byteLength text) (text ++ more) = more := by
  induction text with
  | nil =>
    cases more with
    | nil => rfl
    | cons c more =>
      rw [List.nil_append, byteLength, dropBytes, if_neg (Nat.not_le.mpr c.utf8Size_pos)]
  | cons c text ih =>
    rw [List.cons_append, dropBytes, byteLength, if_pos (Nat.le_add_right _ _),
      Nat.add_sub_cancel_left, ih]

/-- A text without its end, which is as many bytes long. -/
theorem dropEndBytes_append (text more : List Char) :
    dropEndBytes (byteLength more) (text ++ more) = text := by
  rw [dropEndBytes, List.reverse_append, ← byteLength_reverse, dropBytes_append,
    List.reverse_reverse]

end Extensions

/-! ### Paths of entries -/

/-- The names that entries of directories can have. -/
structure IsFileName (name : String) : Prop where
  nonempty : name ≠ ""
  noSlash : '/' ∉ name.toList
  notHere : name ≠ "."
  notParent : name ≠ ".."

instance : DecidablePred IsFileName := fun name =>
  decidable_of_iff (name ≠ "" ∧ '/' ∉ name.toList ∧ name ≠ "." ∧ name ≠ "..")
    ⟨fun ⟨nonempty, noSlash, notHere, notParent⟩ => ⟨nonempty, noSlash, notHere, notParent⟩,
      fun ⟨nonempty, noSlash, notHere, notParent⟩ => ⟨nonempty, noSlash, notHere, notParent⟩⟩

/-- The path of an entry behind a front of names. -/
def entryPath (front : List String) (name : String) : String :=
  String.ofList (joinSlashes ((front ++ [name]).map String.toList))

/-- A front without components at its end that lead nowhere. Where it starts is the same. -/
def TrimsTo (front trimmed : List String) : Prop :=
  ∃ idle, front = trimmed ++ idle ∧ trimmed.head? = front.head? ∧
    ∀ piece ∈ idle, piece = "" ∨ piece = "."

theorem TrimsTo.refl (front : List String) : TrimsTo front front :=
  ⟨[], (List.append_nil front).symm, rfl, by simp⟩

section Entries

variable {front : List String} {name other stem extension : String}

theorem entryPath_nil (name : String) : entryPath [] name = name :=
  String.ofList_toList

theorem toList_entryPath (front : List String) (name : String) :
    (entryPath front name).toList = joinSlashes (front.map String.toList ++ [name.toList]) := by
  rw [entryPath, String.toList_ofList, List.map_append]
  rfl

theorem namesOf_entryPath (frontNoSlash : ∀ piece ∈ front, '/' ∉ piece.toList)
    (noSlash : '/' ∉ name.toList) : FileTree.namesOf (entryPath front name) = front ++ [name] := by
  have all : ∀ piece ∈ (front ++ [name]).map String.toList, '/' ∉ piece := by
    simpa [or_imp, forall_and] using ⟨frontNoSlash, noSlash⟩
  rw [FileTree.namesOf, entryPath, String.toList_ofList, splitSlashes_joinSlashes (by simp) all]
  simp

theorem noSlash_of_mem_namesOf {path piece : String} (mem : piece ∈ FileTree.namesOf path) :
    '/' ∉ piece.toList := by
  obtain ⟨letters, inside, rfl⟩ := List.mem_map.mp mem
  rw [String.toList_ofList]
  exact noSlash_of_mem_splitSlashes inside

/-- A path is that of an entry with its last name. -/
theorem eq_entryPath {path : String} (names : FileTree.namesOf path = front ++ [name]) :
    path = entryPath front name := by
  rw [entryPath, ← names, FileTree.namesOf, List.map_map]
  simp [joinSlashes_splitSlashes]

/-- The paths of the entries of a directory share a front. -/
theorem exists_front {directory : String} (nonempty : directory ≠ "") : ∃ front ≠ [],
    (∀ piece ∈ front, '/' ∉ piece.toList) ∧
    (FileTree.namesOf directory = front ∨ FileTree.namesOf directory = front ++ [""]) ∧
    ∀ name : String, '/' ∉ name.toList →
      String.ofList (joinPath directory.toList name.toList) = entryPath front name := by
  obtain ⟨pieces, some, noSlash, names, join⟩ :=
    exists_pieces (mt String.toList_eq_nil_iff.mp nonempty)
  refine ⟨pieces.map String.ofList, by simpa using some, by simpa using noSlash, ?_,
    fun name free => ?_⟩
  · rw [FileTree.namesOf]
    obtain same | same := names
    · exact .inl (by rw [same])
    · exact .inr (by rw [same]; simp)
  · rw [join name.toList free, entryPath]
    simp

/-- What is left of a front, and what is lost of it. -/
theorem exists_trimEnd_map (front : List String) : ∃ trimmed idle, front = trimmed ++ idle ∧
    (∀ piece ∈ idle, piece = "" ∨ piece = ".") ∧
    PathParts.trimEnd (front.map String.toList) = trimmed.map String.toList := by
  induction front with
  | nil => exact ⟨[], [], rfl, by simp, rfl⟩
  | cons piece front ih =>
    obtain ⟨trimmed, idle, whole, leadNowhere, same⟩ := ih
    rw [List.map_cons, PathParts.trimEnd_cons, same]
    by_cases lost : trimmed.map String.toList = [] ∧ PathParts.idle piece.toList = true
    · obtain rfl := List.map_eq_nil_iff.mp lost.1
      refine ⟨[], piece :: idle, by rw [whole]; rfl, ?_, if_pos lost⟩
      refine List.forall_mem_cons.mpr ⟨?_, leadNowhere⟩
      obtain empty | dot := PathParts.idle_eq_true.mp lost.2
      · exact .inl (String.toList_eq_nil_iff.mp empty)
      · exact .inr (String.toList_injective dot)
    · exact ⟨piece :: trimmed, idle, by rw [whole]; rfl, leadNowhere, if_neg lost⟩

namespace IsFileName

theorem counts (isName : IsFileName name) : PathParts.idle name.toList = false := by
  rw [Bool.eq_false_iff, Ne, PathParts.idle_eq_true]
  rintro (empty | dot)
  · exact isName.nonempty (String.toList_eq_nil_iff.mp empty)
  · exact isName.notHere (String.toList_injective dot)

theorem parts_entryPath (isName : IsFileName name)
    (frontNoSlash : ∀ piece ∈ front, '/' ∉ piece.toList) :
    PathParts.ofText (entryPath front name).toList =
      (PathParts.ofFront (front.map String.toList)).push name.toList := by
  rw [toList_entryPath]
  exact PathParts.ofText_joinSlashes (by simpa using frontNoSlash) isName.noSlash isName.counts

theorem name?_entryPath (isName : IsFileName name)
    (frontNoSlash : ∀ piece ∈ front, '/' ∉ piece.toList) :
    (PathParts.ofText (entryPath front name).toList).name? = some name.toList := by
  have notParent : name.toList ≠ ['.', '.'] :=
    fun parent => isName.notParent (String.toList_injective parent)
  rw [isName.parts_entryPath frontNoSlash, PathParts.name?_push, if_neg notParent]

/-- The extension of a path is that of its name. -/
theorem fileExtension?_entryPath (isName : IsFileName name)
    (frontNoSlash : ∀ piece ∈ front, '/' ∉ piece.toList) :
    fileExtension? (entryPath front name) = (splitExtension name.toList).2.map String.ofList := by
  rw [fileExtension?, isName.name?_entryPath frontNoSlash, Option.bind_some]

theorem fileExtension?_eq (isName : IsFileName name) :
    fileExtension? name = (splitExtension name.toList).2.map String.ofList := by
  have alone := @fileExtension?_entryPath [] name isName (by simp)
  rwa [entryPath_nil] at alone

theorem fileStem?_entryPath (isName : IsFileName name)
    (frontNoSlash : ∀ piece ∈ front, '/' ∉ piece.toList) :
    fileStem? (entryPath front name) = some (String.ofList (splitExtension name.toList).1) := by
  rw [fileStem?, isName.name?_entryPath frontNoSlash, Option.map_some]

theorem fileStem?_eq (isName : IsFileName name) :
    fileStem? name = some (String.ofList (splitExtension name.toList).1) := by
  have alone := @fileStem?_entryPath [] name isName (by simp)
  rwa [entryPath_nil] at alone

/-- A path with another extension is the path of another entry. It is that of the parent if the name
begins with two dots and has no others. -/
theorem withExtension_entryPath (isName : IsFileName (stem ++ "." ++ extension))
    (frontNoSlash : ∀ piece ∈ front, '/' ∉ piece.toList) (nonempty : stem ≠ "")
    (noDot : '.' ∉ extension.toList) {other : String} (some : other ≠ "") :
    withExtension (entryPath front (stem ++ "." ++ extension)) other =
      entryPath front (if stem = "." then ".." else stem ++ "." ++ other) := by
  have stemNonempty : stem.toList ≠ [] := mt String.toList_eq_nil_iff.mp nonempty
  have letters : (stem ++ "." ++ extension).toList = stem.toList ++ ['.'] ++ extension.toList := by
    simp
  have split : splitExtension (stem ++ "." ++ extension).toList =
      (stem.toList, .some extension.toList) :=
    splitExtension_eq_some.mpr ⟨stemNonempty, noDot, by simp⟩
  -- The path is shortened by the extension first, so that its name ends with the dot.
  have shortened : dropEndBytes extension.utf8ByteSize
      (entryPath front (stem ++ "." ++ extension)).toList =
        joinSlashes (front.map String.toList ++ [stem.toList ++ ['.']]) := by
    rw [toList_entryPath, letters, joinSlashes_concat_append, ← byteLength_toList,
      dropEndBytes_append]
  have noSlash : '/' ∉ stem.toList ++ ['.'] := fun slash =>
    isName.noSlash (by rw [letters]; exact List.mem_append_left _ slash)
  have counts : PathParts.idle (stem.toList ++ ['.']) = false := by
    rw [Bool.eq_false_iff, Ne, PathParts.idle_eq_true]
    simpa using nonempty
  have pieces : ∀ piece ∈ front.map String.toList, '/' ∉ piece := by simpa using frontNoSlash
  have parts := PathParts.ofText_joinSlashes pieces noSlash counts
  rw [withExtension, isName.fileExtension?_entryPath frontNoSlash, split, Option.map_some]
  dsimp only
  rw [String.ofList_toList, shortened, parts, PathParts.name?_push]
  by_cases parent : stem = "."
  · rw [if_pos parent, if_pos (by simp [parent]), entryPath, List.map_append]
    simp [parent]
  · have notParent : stem.toList ++ ['.'] ≠ ['.', '.'] := fun same =>
      parent (String.toList_injective ((List.append_left_inj ['.']).mp same))
    rw [if_neg parent, if_neg notParent]
    dsimp only
    rw [splitExtension_append List.not_mem_nil, if_neg stemNonempty, if_neg (by simpa using some),
      PathParts.replaceName_push, PathParts.text_push, entryPath, List.map_append]
    simp

/-- A name with an extension has a stem in front of it. -/
theorem exists_stem (isName : IsFileName name) (has : fileExtension? name = some extension) :
    ∃ stem, stem ≠ "" ∧ '.' ∉ extension.toList ∧ name = stem ++ "." ++ extension ∧
      fileStem? name = some stem := by
  rw [isName.fileExtension?_eq, Option.map_eq_some_iff] at has
  obtain ⟨letters, has, rfl⟩ := has
  obtain ⟨nonempty, noDot, whole⟩ := splitExtension_eq_some.mp (Prod.ext rfl has)
  refine ⟨_, by simpa using nonempty, by simpa using noDot, ?_, isName.fileStem?_eq⟩
  refine String.toList_injective (whole.trans ?_)
  simp

/-- A stem and an extension make a name. -/
theorem of_extension (nonempty : stem ≠ "") (noSlash : '/' ∉ stem.toList) (some : extension ≠ "")
    (noSlash' : '/' ∉ extension.toList) : IsFileName (stem ++ "." ++ extension) := by
  have long : 2 < (stem ++ "." ++ extension).toList.length := by
    have first := List.length_pos_iff.mpr (mt String.toList_eq_nil_iff.mp nonempty)
    have last := List.length_pos_iff.mpr (mt String.toList_eq_nil_iff.mp some)
    simp only [String.toList_append, List.length_append]
    change 2 < stem.toList.length + 1 + extension.toList.length
    omega
  refine ⟨?_, by simpa using ⟨noSlash, noSlash'⟩, ?_, ?_⟩ <;>
  · intro same
    rw [same] at long
    revert long
    decide

theorem fileExtension?_append (isName : IsFileName (stem ++ "." ++ extension))
    (nonempty : stem ≠ "") (noDot : '.' ∉ extension.toList) :
    fileExtension? (stem ++ "." ++ extension) = some extension := by
  have split : splitExtension (stem ++ "." ++ extension).toList =
      (stem.toList, some extension.toList) :=
    splitExtension_eq_some.mpr ⟨mt String.toList_eq_nil_iff.mp nonempty, noDot, by simp⟩
  rw [isName.fileExtension?_eq, split, Option.map_some, String.ofList_toList]

end IsFileName

/-- A path with another name is the path of another entry. The components in front of the name that
lead nowhere are lost. -/
theorem withFileName_entryPath (frontNoSlash : ∀ piece ∈ front, '/' ∉ piece.toList) :
    ∃ trimmed, TrimsTo front trimmed ∧ ∀ name other, IsFileName name → '/' ∉ other.toList →
      withFileName (entryPath front name) other = entryPath trimmed other := by
  have pieces : ∀ piece ∈ front.map String.toList, '/' ∉ piece := by simpa using frontNoSlash
  have join (name other : String) (isName : IsFileName name) (noSlash : '/' ∉ other.toList) :
      withFileName (entryPath front name) other = String.ofList
        (joinSlashes (trimFront (front.map String.toList) ++ [other.toList])) := by
    rw [withFileName, isName.name?_entryPath frontNoSlash, Option.isSome_some, if_pos rfl,
      isName.parts_entryPath frontNoSlash, PathParts.joinPath_parent_push pieces noSlash]
  cases front with
  | nil => exact ⟨[], .refl [], join⟩
  | cons first front =>
    obtain ⟨trimmed, idle, whole, leadNowhere, same⟩ := exists_trimEnd_map front
    refine ⟨first :: trimmed, ⟨idle, by rw [whole]; rfl, rfl, leadNowhere⟩,
      fun name other isName noSlash => ?_⟩
    rw [join name other isName noSlash, entryPath, List.map_cons, trimFront, same, List.map_append]
    rfl

end Entries

end JackCompiler
