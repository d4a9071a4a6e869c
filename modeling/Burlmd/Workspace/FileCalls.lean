import Mathlib.Data.List.Dedup
import Burlmd.Workspace.Bundle

/-!
# File system calls

What the calls of the standard library do to a bundle, and which of them the file system refuses.
Nothing is read or written through a symbolic link, and nothing is put in the place of one.
-/

namespace Burlmd

/-- Only a directory has entries beneath it. -/
def Entry.IsDirectory (entry : Entry) : Prop := entry = .directory

namespace Bundle

def isDirectory (bundle : Bundle) (path : Path) : Bool := bundle.entry path = some .directory

/-- `mkdir` -/
def createDir (bundle : Bundle) (path : Path) : Option Bundle :=
  if bundle.entry path = none ∧ bundle.isDirectory path.dropLast then
    some { bundle with directories := bundle.directories ++ [path] }
  else none

/-- A new file takes the place of the one that is there. -/
def writeFile (bundle : Bundle) (path : Path) (contents : FileBytes) (now : Int) : Option Bundle :=
  match bundle.entry path with
  | some .directory | some .link => none
  | some (.file _) | none =>
      if bundle.isDirectory path.dropLast then some (bundle.atomicWrite path contents now) else none

/-- Removes the file at a path, whatever else goes by it. -/
def unlink (bundle : Bundle) (path : Path) : Bundle where
  files := bundle.files.delete fun file => file.path = path
  directories := bundle.directories.filter (· ≠ path)
  symlinks := bundle.symlinks.filter (· ≠ path)

/-- `unlink` -/
def removeFile? (bundle : Bundle) (path : Path) : Option Bundle :=
  match bundle.entry path with
  | some (.file _) | some .link => some (bundle.unlink path)
  | some .directory | none => none

/-- Nothing is beneath a path. -/
def emptyBelow (bundle : Bundle) (path : Path) : Bool :=
  (bundle.files.rows.all fun file => !(path.isPrefixOf file.path && file.path ≠ path)) &&
    (bundle.directories ++ bundle.symlinks).all fun other => !(path.isPrefixOf other && other ≠ path)

/-- `rmdir` -/
def removeDir (bundle : Bundle) (path : Path) : Option Bundle :=
  if path ≠ [] ∧ bundle.isDirectory path ∧ bundle.emptyBelow path then some (bundle.unlink path) else none

/-- Removes what a path holds, be it a file, a link or an empty directory. -/
def removeEntry (bundle : Bundle) (path : Path) : Option Bundle :=
  if bundle.isDirectory path then bundle.removeDir path else bundle.removeFile? path

/-- The paths that a bundle has something at, but for the root. -/
def listed (bundle : Bundle) : List Path :=
  bundle.files.rows.map BundleFile.path ++ bundle.directories ++ bundle.symlinks

/-- What is at a path and beneath it, in an order in which it can be removed. -/
def beneath (bundle : Bundle) (path : Path) : List Path :=
  (bundle.listed.filter fun other => path.isPrefixOf other).dedup.insertionSort
    fun first second => second.length ≤ first.length

/-- Whether `rename` puts an entry in the place of another: a file in that of a file, and a
directory in that of an empty one. -/
def replaces (bundle : Bundle) (source target : Path) : Bool :=
  match bundle.entry target with
  | none => true
  | some .directory => bundle.isDirectory source && bundle.emptyBelow target
  | some (.file _) => !bundle.isDirectory source
  | some .link => false

/-- `rename` -/
def renameEntry (bundle : Bundle) (source target : Path) : Option Bundle :=
  if bundle.entry source = none then none
  else if source = target then some bundle
  else if source <+: target ∨ target <+: source then none
  else if bundle.isDirectory target.dropLast && bundle.replaces source target then
    some ((bundle.removeTree target).rename source target)
  else none

variable {bundle bundle' : Bundle} {path source target : Path} {contents : FileBytes} {now : Int}

/-! ## The tree after a call -/

theorem read_eq_some_iff : bundle.read path = some contents ↔
    ∃ file ∈ bundle.files, file.path = path ∧ file.contents = contents := by
  unfold read file?
  rw [Option.map_eq_some_iff]
  constructor
  · rintro ⟨file, found, isContents⟩
    rcases Table.find?_eq_some_iff.mp found with ⟨mem, isPath⟩
    exact ⟨file, mem, isPath, isContents⟩
  · rintro ⟨file, mem, isPath, isContents⟩
    exact ⟨file, Table.find?_eq_some_iff.mpr ⟨mem, isPath⟩, isContents⟩

theorem read_eq_none_iff : bundle.read path = none ↔ ∀ file ∈ bundle.files, file.path ≠ path := by
  unfold read file?
  rw [Option.map_eq_none_iff]
  exact Table.find?_eq_none_iff

/-- Two bundles with the same at a path show the same there. -/
theorem entry_congr {path' : Path} (root : path = [] ↔ path' = [])
    (files : bundle'.read path' = bundle.read path)
    (directories : path' ∈ bundle'.directories ↔ path ∈ bundle.directories)
    (links : path' ∈ bundle'.symlinks ↔ path ∈ bundle.symlinks) :
    bundle'.entry path' = bundle.entry path := by
  unfold entry
  simp only [files, directories, links, root]

theorem entry_root : bundle.entry [] = some .directory := if_pos rfl

theorem entry_eq_none (nonempty : path ≠ []) (file : bundle.read path = none)
    (directory : path ∉ bundle.directories) (link : path ∉ bundle.symlinks) :
    bundle.entry path = none := by
  unfold entry
  rw [if_neg nonempty, file]
  dsimp only
  rw [if_neg directory, if_neg link]

theorem vacant_of_entry (vacant : bundle.entry path = none) :
    path ≠ [] ∧ bundle.read path = none ∧ path ∉ bundle.directories ∧ path ∉ bundle.symlinks := by
  unfold entry at vacant
  by_cases root : path = []
  · rw [if_pos root] at vacant
    cases vacant
  · rw [if_neg root] at vacant
    cases file : bundle.read path with
    | some contents =>
      rw [file] at vacant
      cases vacant
    | none =>
      rw [file] at vacant
      dsimp only at vacant
      by_cases directory : path ∈ bundle.directories
      · rw [if_pos directory] at vacant
        cases vacant
      · rw [if_neg directory] at vacant
        by_cases link : path ∈ bundle.symlinks
        · rw [if_pos link] at vacant
          cases vacant
        · exact ⟨root, rfl, directory, link⟩

theorem isDirectory_iff : bundle.isDirectory path = true ↔ bundle.entry path = some .directory :=
  decide_eq_true_iff

theorem createDir_eq_some (created : bundle.createDir path = some bundle') :
    bundle.entry path = none ∧ bundle.entry path.dropLast = some .directory ∧
      bundle' = { bundle with directories := bundle.directories ++ [path] } ∧
      bundle'.entry = bundle.entry.put path .directory := by
  unfold createDir at created
  by_cases allowed : bundle.entry path = none ∧ bundle.isDirectory path.dropLast = true
  · rw [if_pos allowed] at created
    obtain rfl := Option.some.inj created
    refine ⟨allowed.1, isDirectory_iff.mp allowed.2, rfl, ?_⟩
    funext other
    rw [PathTree.put_apply]
    by_cases same : other = path
    · rcases vacant_of_entry allowed.1 with ⟨root, file, -⟩
      subst same
      rw [if_pos rfl]
      have file' : { bundle with directories := bundle.directories ++ [other] }.read other = none :=
        file
      unfold entry
      rw [if_neg root, file']
      dsimp only
      rw [if_pos (List.mem_append_right _ List.mem_cons_self)]
    · rw [if_neg same]
      have listed : other ∈ bundle.directories ++ [path] ↔ other ∈ bundle.directories := by
        rw [List.mem_append, List.mem_singleton]
        exact or_iff_left same
      exact entry_congr (Iff.refl _) rfl listed (Iff.refl _)
  · rw [if_neg allowed] at created
    cases created

theorem read_atomicWrite (other : Path) : (bundle.atomicWrite path contents now).read other =
    if other = path then some contents else bundle.read other := by
  unfold read file? atomicWrite
  rw [Table.find?_put]
  by_cases same : other = path
  · rw [if_pos same, if_pos same.symm]
    rfl
  · rw [if_neg same, if_neg (Ne.symm same)]

theorem writeFile_eq_some (written : bundle.writeFile path contents now = some bundle') :
    bundle.entry path ≠ some .directory ∧ bundle.entry path ≠ some .link ∧
      bundle.entry path.dropLast = some .directory ∧
      bundle' = bundle.atomicWrite path contents now ∧
      bundle'.entry = bundle.entry.put path (.file contents) := by
  have tree (file : bundle.entry path ≠ some .directory) :
      (bundle.atomicWrite path contents now).entry = bundle.entry.put path (.file contents) := by
    funext other
    rw [PathTree.put_apply]
    by_cases same : other = path
    · rw [if_pos same, same]
      unfold entry at file ⊢
      by_cases root : path = []
      · exact absurd (if_pos root) file
      · rw [if_neg root, read_atomicWrite, if_pos rfl]
    · rw [if_neg same]
      have read := @read_atomicWrite bundle path contents now other
      rw [if_neg same] at read
      exact entry_congr (Iff.refl _) read (Iff.refl _) (Iff.refl _)
  have written' (file : bundle.entry path ≠ some .directory) (link : bundle.entry path ≠ some .link)
      (guarded : (if bundle.isDirectory path.dropLast then some (bundle.atomicWrite path contents now)
        else none) = some bundle') :
      bundle.entry path ≠ some .directory ∧ bundle.entry path ≠ some .link ∧
        bundle.entry path.dropLast = some .directory ∧
        bundle' = bundle.atomicWrite path contents now ∧
        bundle'.entry = bundle.entry.put path (.file contents) := by
    by_cases parent : bundle.isDirectory path.dropLast = true
    · rw [if_pos parent] at guarded
      obtain rfl := Option.some.inj guarded
      exact ⟨file, link, isDirectory_iff.mp parent, rfl, tree file⟩
    · rw [if_neg parent] at guarded
      cases guarded
  unfold writeFile at written
  cases found : bundle.entry path with
  | none =>
    rw [found] at written written'
    exact written' (fun same => by cases same) (fun same => by cases same) written
  | some listed =>
    rw [found] at written written'
    cases listed with
    | file old => exact written' (fun same => by cases same) (fun same => by cases same) written
    | directory => cases written
    | link => cases written

theorem read_unlink {other : Path} (apart : other ≠ path) : (bundle.unlink path).read other = bundle.read other := by
  unfold read file? unlink
  apply congrArg
  apply Table.find?_congr
  intro file isOther
  rw [Table.mem_delete, decide_eq_false_iff_not]
  constructor
  · exact And.left
  · intro mem
    exact ⟨mem, fun isPath => apart (isOther.symm.trans isPath)⟩

theorem entry_unlink (root : path ≠ []) : (bundle.unlink path).entry = bundle.entry.erase path := by
  funext other
  rw [PathTree.erase_apply]
  by_cases same : other = path
  · rw [if_pos same, same]
    apply entry_eq_none root
    · apply read_eq_none_iff.mpr
      intro file mem isPath
      have kept := (Table.mem_delete.mp mem).2
      rw [decide_eq_false_iff_not] at kept
      exact kept isPath
    · intro mem
      have kept := (List.mem_filter.mp mem).2
      exact of_decide_eq_true kept rfl
    · intro mem
      have kept := (List.mem_filter.mp mem).2
      exact of_decide_eq_true kept rfl
  · rw [if_neg same]
    apply entry_congr (Iff.refl _)
    · exact read_unlink same
    · unfold unlink
      rw [List.mem_filter, decide_eq_true_eq]
      exact and_iff_left same
    · unfold unlink
      rw [List.mem_filter, decide_eq_true_eq]
      exact and_iff_left same

theorem removeFile?_eq_some (removed : bundle.removeFile? path = some bundle') :
    bundle.entry path ≠ some .directory ∧ bundle' = bundle.unlink path ∧
      bundle'.entry = bundle.entry.erase path := by
  have below : path ≠ [] := by
    rintro rfl
    unfold removeFile? at removed
    rw [entry_root] at removed
    cases removed
  unfold removeFile? at removed
  cases found : bundle.entry path with
  | none =>
    rw [found] at removed
    cases removed
  | some listed =>
    rw [found] at removed
    cases listed with
    | directory => cases removed
    | file old =>
      obtain rfl := Option.some.inj removed
      exact ⟨fun same => (by cases same), rfl, entry_unlink below⟩
    | link =>
      obtain rfl := Option.some.inj removed
      exact ⟨fun same => (by cases same), rfl, entry_unlink below⟩

theorem mem_listed_iff : path ∈ bundle.listed ↔
    (bundle.read path).isSome ∨ path ∈ bundle.directories ∨ path ∈ bundle.symlinks := by
  unfold listed
  rw [List.mem_append, List.mem_append, List.mem_map, or_assoc]
  apply or_congr _ (Iff.refl _)
  rw [Option.isSome_iff_exists]
  constructor
  · rintro ⟨file, mem, isPath⟩
    exact ⟨file.contents, read_eq_some_iff.mpr ⟨file, mem, isPath, rfl⟩⟩
  · rintro ⟨contents, found⟩
    rcases read_eq_some_iff.mp found with ⟨file, mem, isPath, -⟩
    exact ⟨file, mem, isPath⟩

/-- Below the root there is something at the listed paths, and nowhere else. -/
theorem entry_isSome_iff (below : path ≠ []) : (bundle.entry path).isSome ↔ path ∈ bundle.listed := by
  rw [mem_listed_iff]
  constructor
  · intro held
    by_contra absent
    rcases not_or.mp absent with ⟨file, others⟩
    rcases not_or.mp others with ⟨directory, link⟩
    rw [entry_eq_none below (Option.not_isSome_iff_eq_none.mp file) directory link] at held
    cases held
  · intro held
    by_contra vacant
    rcases vacant_of_entry (Option.not_isSome_iff_eq_none.mp vacant) with ⟨-, file, directory, link⟩
    rcases held with isFile | isDirectory | isLink
    · rw [file] at isFile
      cases isFile
    · exact directory isDirectory
    · exact link isLink

theorem emptyBelow_iff : bundle.emptyBelow path = true ↔
    ∀ other ∈ bundle.listed, path <+: other → other = path := by
  have row (other : Path) : (!(path.isPrefixOf other && decide (other ≠ path))) = true ↔
      (path <+: other → other = path) := by
    rw [Bool.not_eq_true', Bool.and_eq_false_iff, decide_eq_false_iff_not, not_not, Bool.eq_false_iff, ne_eq,
      List.isPrefixOf_iff_prefix]
    exact imp_iff_not_or.symm
  unfold emptyBelow listed
  rw [Bool.and_eq_true, List.all_eq_true, List.all_eq_true]
  simp only [row, List.mem_append, List.mem_map, or_assoc]
  constructor
  · rintro ⟨files, others⟩ other held
    rcases held with ⟨file, mem, rfl⟩ | held
    · exact files file mem
    · exact others other held
  · intro all
    exact ⟨fun file mem => all _ (Or.inl ⟨file, mem, rfl⟩), fun other held => all other (Or.inr held)⟩

/-- What is removed has nothing beneath it, if the bundle is a tree. -/
theorem removeEntry_eq_some (removed : bundle.removeEntry path = some bundle') :
    path ≠ [] ∧ bundle' = bundle.unlink path ∧ bundle'.entry = bundle.entry.erase path ∧
      (bundle.entry.Rooted Entry.IsDirectory → bundle'.entry.Rooted Entry.IsDirectory) := by
  unfold removeEntry at removed
  by_cases isDirectory : bundle.isDirectory path = true
  · rw [if_pos isDirectory] at removed
    unfold removeDir at removed
    by_cases allowed : path ≠ [] ∧ bundle.isDirectory path = true ∧ bundle.emptyBelow path = true
    · rw [if_pos allowed] at removed
      obtain rfl := Option.some.inj removed
      refine ⟨allowed.1, rfl, entry_unlink allowed.1, ?_⟩
      intro rooted
      rw [entry_unlink allowed.1]
      apply rooted.erase
      intro other inside longer
      by_contra held
      have below : other ≠ [] := by
        rintro rfl
        exact allowed.1 (List.prefix_nil.mp inside)
      have mem := (entry_isSome_iff below).mp (Option.isSome_iff_ne_none.mpr held)
      exact longer (emptyBelow_iff.mp allowed.2.2 other mem inside)
    · rw [if_neg allowed] at removed
      cases removed
  · rw [if_neg isDirectory] at removed
    rcases removeFile?_eq_some removed with ⟨isFile, same, tree⟩
    have below : path ≠ [] := by
      rintro rfl
      exact isFile entry_root
    refine ⟨below, same, tree, ?_⟩
    intro rooted
    rw [tree]
    apply rooted.erase
    intro other inside longer
    rcases inside with ⟨rest, rfl⟩
    cases rest with
    | nil => exact absurd (List.append_nil path) longer
    | cons first rest =>
      by_contra held
      have held := Option.isSome_iff_ne_none.mpr held
      rw [← List.singleton_append, ← List.append_assoc] at held
      rcases rooted path first (rooted.above held) with ⟨entry, found, branch⟩
      rw [branch] at found
      exact isFile found

theorem mem_beneath {other : Path} : other ∈ bundle.beneath path ↔ other ∈ bundle.listed ∧ path <+: other := by
  unfold beneath
  rw [List.mem_insertionSort, List.mem_dedup, List.mem_filter, List.isPrefixOf_iff_prefix]

/-! ## Moving -/

/-- No row is at a path or beneath it. -/
structure Vacant (bundle : Bundle) (path : Path) : Prop where
  files : ∀ file ∈ bundle.files, ¬ path <+: file.path
  directories : ∀ directory ∈ bundle.directories, ¬ path <+: directory
  links : ∀ link ∈ bundle.symlinks, ¬ path <+: link

theorem vacant_of_free (free : bundle.entry.Free path) : bundle.Vacant path := by
  constructor
  · intro file mem inside
    have vacant := (vacant_of_entry (free _ inside)).2.1
    exact read_eq_none_iff.mp vacant file mem rfl
  · intro directory mem inside
    exact (vacant_of_entry (free _ inside)).2.2.1 mem
  · intro link mem inside
    exact (vacant_of_entry (free _ inside)).2.2.2 mem

/-- A vacant path has nothing to remove. -/
theorem removeTree_vacant (vacant : bundle.Vacant path) : bundle.removeTree path = bundle := by
  have files : (bundle.files.delete fun file => path <+: file.path) = bundle.files := by
    apply Table.delete_eq_self
    intro file mem
    exact decide_eq_false (vacant.files file mem)
  have kept (paths : List Path) (outside : ∀ other ∈ paths, ¬ path <+: other) :
      (paths.filter fun other => !path.isPrefixOf other) = paths := by
    apply List.filter_eq_self.mpr
    intro other mem
    rw [Bool.not_eq_true', Bool.eq_false_iff]
    intro inside
    exact outside other mem (List.isPrefixOf_iff_prefix.mp inside)
  unfold removeTree
  rw [files, kept _ vacant.directories, kept _ vacant.links]

theorem removeTree_spec : (bundle.removeTree path).Vacant path ∧
    (path ≠ [] → (bundle.removeTree path).entry = bundle.entry.prune path) := by
  have listed (paths : List Path) (other : Path) :
      other ∈ (paths.filter fun other => !path.isPrefixOf other) ↔ other ∈ paths ∧ ¬ path <+: other := by
    rw [List.mem_filter, Bool.not_eq_true', Bool.eq_false_iff, ne_eq, List.isPrefixOf_iff_prefix]
  have vacant : (bundle.removeTree path).Vacant path := by
    constructor
    · intro file mem inside
      have kept := (Table.mem_delete.mp mem).2
      rw [decide_eq_false_iff_not] at kept
      exact kept inside
    · intro directory mem inside
      exact ((listed _ _).mp mem).2 inside
    · intro link mem inside
      exact ((listed _ _).mp mem).2 inside
  refine ⟨vacant, ?_⟩
  intro root
  funext other
  unfold PathTree.prune
  by_cases inside : path <+: other
  · rw [if_pos inside]
    apply entry_eq_none
    · rintro rfl
      exact root (List.prefix_nil.mp inside)
    · apply read_eq_none_iff.mpr
      intro file mem isPath
      exact vacant.files file mem (isPath ▸ inside)
    · intro mem
      exact vacant.directories other mem inside
    · intro mem
      exact vacant.links other mem inside
  · rw [if_neg inside]
    apply entry_congr (Iff.refl _)
    · unfold read file? removeTree
      apply congrArg
      apply Table.find?_congr
      intro file isOther
      rw [Table.mem_delete, decide_eq_false_iff_not]
      constructor
      · exact And.left
      · intro mem
        exact ⟨mem, fun under => inside (isOther ▸ under)⟩
    · unfold removeTree
      rw [listed]
      exact and_iff_left inside
    · unfold removeTree
      rw [listed]
      exact and_iff_left inside

theorem relocate_below (rest : Path) : relocate source target (source ++ rest) = target ++ rest := by
  unfold relocate
  rw [if_pos (List.prefix_append source rest), List.drop_left]

theorem relocate_other (outside : ¬ source <+: path) : relocate source target path = path :=
  if_neg outside

/-- Where a path comes from that a move leads to, when the target was vacant. -/
theorem mem_map_relocate {paths : List Path} (vacant : ∀ other ∈ paths, ¬ target <+: other) {other : Path} :
    other ∈ paths.map (relocate source target) ↔
      if target <+: other then source ++ other.drop target.length ∈ paths
      else ¬ source <+: other ∧ other ∈ paths := by
  rw [List.mem_map]
  by_cases under : target <+: other
  · rw [if_pos under]
    rcases under with ⟨rest, rfl⟩
    rw [List.drop_left]
    constructor
    · rintro ⟨from_, mem, isOther⟩
      by_cases inside : source <+: from_
      · rcases inside with ⟨rest', rfl⟩
        rw [relocate_below] at isOther
        rw [← List.append_cancel_left isOther]
        exact mem
      · rw [relocate_other inside] at isOther
        exact absurd ⟨rest, isOther.symm⟩ (vacant from_ mem)
    · intro mem
      exact ⟨source ++ rest, mem, relocate_below rest⟩
  · rw [if_neg under]
    constructor
    · rintro ⟨from_, mem, isOther⟩
      by_cases inside : source <+: from_
      · rcases inside with ⟨rest, rfl⟩
        rw [relocate_below] at isOther
        exact absurd ⟨rest, isOther⟩ under
      · rw [relocate_other inside] at isOther
        rw [← isOther]
        exact ⟨inside, mem⟩
    · rintro ⟨outside, mem⟩
      exact ⟨other, mem, relocate_other outside⟩

theorem relocate_injective {first second : Path} (isFirst : source <+: first) (isSecond : source <+: second)
    (same : relocate source target first = relocate source target second) : first = second := by
  rcases isFirst with ⟨rest, rfl⟩
  rcases isSecond with ⟨rest', rfl⟩
  rw [relocate_below, relocate_below] at same
  rw [List.append_cancel_left same]

theorem read_rename (vacant : ∀ file ∈ bundle.files, ¬ target <+: file.path) (other : Path) :
    (bundle.rename source target).read other =
      if target <+: other then bundle.read (source ++ other.drop target.length)
      else if source <+: other then none
      else bundle.read other := by
  have mem_iff (file : BundleFile) : file ∈ (bundle.rename source target).files ↔
      (file ∈ bundle.files ∧ ¬ source <+: file.path) ∨
        ∃ old ∈ bundle.files, source <+: old.path ∧
          { old with path := relocate source target old.path } = file := by
    unfold rename
    rw [Table.mem_updateOrReplace]
    · simp only [decide_eq_true_eq, decide_eq_false_iff_not]
      apply or_congr _ (Iff.refl _)
      constructor
      · rintro ⟨mem, outside, -⟩
        exact ⟨mem, outside⟩
      · rintro ⟨mem, outside⟩
        refine ⟨mem, outside, ?_⟩
        rintro old _ ⟨rest, isOld⟩ same
        rw [← isOld, relocate_below] at same
        exact vacant file mem ⟨rest, same.symm⟩
    · intro old _ old' _ inside inside' same
      exact relocate_injective (of_decide_eq_true inside) (of_decide_eq_true inside') same
  by_cases under : target <+: other
  · rw [if_pos under]
    rcases under with ⟨rest, rfl⟩
    rw [List.drop_left]
    apply Option.ext
    intro contents
    rw [read_eq_some_iff, read_eq_some_iff]
    constructor
    · rintro ⟨file, mem, isPath, isContents⟩
      rcases (mem_iff file).mp mem with ⟨stays, -⟩ | ⟨old, moved, ⟨rest', isOld⟩, rfl⟩
      · exact absurd ⟨rest, isPath.symm⟩ (vacant file stays)
      · dsimp only at isPath
        rw [← isOld, relocate_below] at isPath
        refine ⟨old, moved, ?_, isContents⟩
        rw [← isOld, List.append_cancel_left isPath]
    · rintro ⟨old, mem, isPath, isContents⟩
      refine ⟨{ old with path := relocate source target old.path }, ?_, ?_, isContents⟩
      · exact (mem_iff _).mpr (Or.inr ⟨old, mem, ⟨rest, isPath.symm⟩, rfl⟩)
      · dsimp only
        rw [isPath]
        exact relocate_below rest
  · rw [if_neg under]
    by_cases inside : source <+: other
    · rw [if_pos inside]
      apply read_eq_none_iff.mpr
      intro file mem isPath
      rcases (mem_iff file).mp mem with ⟨-, outside⟩ | ⟨old, -, ⟨rest, isOld⟩, rfl⟩
      · exact outside (isPath ▸ inside)
      · dsimp only at isPath
        rw [← isOld, relocate_below] at isPath
        exact under ⟨rest, isPath⟩
    · rw [if_neg inside]
      apply Option.ext
      intro contents
      rw [read_eq_some_iff, read_eq_some_iff]
      constructor
      · rintro ⟨file, mem, isPath, isContents⟩
        rcases (mem_iff file).mp mem with ⟨stays, -⟩ | ⟨old, -, ⟨rest, isOld⟩, rfl⟩
        · exact ⟨file, stays, isPath, isContents⟩
        · dsimp only at isPath
          rw [← isOld, relocate_below] at isPath
          exact absurd ⟨rest, isPath⟩ under
      · rintro ⟨file, mem, isPath, isContents⟩
        refine ⟨file, (mem_iff file).mpr (Or.inl ⟨mem, ?_⟩), isPath, isContents⟩
        intro within
        exact inside (isPath ▸ within)

theorem entry_rename (vacant : bundle.Vacant target) (root : source ≠ []) (root' : target ≠ []) :
    (bundle.rename source target).entry = bundle.entry.move source target := by
  funext other
  unfold PathTree.move
  by_cases under : target <+: other
  · rw [if_pos under]
    apply entry_congr
    · constructor
      · intro isRoot
        exact absurd (List.append_eq_nil_iff.mp isRoot).1 root
      · intro isRoot
        rw [isRoot] at under
        exact absurd (List.prefix_nil.mp under) root'
    · rw [read_rename vacant.files, if_pos under]
    · unfold rename
      rw [mem_map_relocate vacant.directories, if_pos under]
    · unfold rename
      rw [mem_map_relocate vacant.links, if_pos under]
  · rw [if_neg under]
    by_cases inside : source <+: other
    · rw [if_pos inside]
      apply entry_eq_none
      · rintro rfl
        exact root (List.prefix_nil.mp inside)
      · rw [read_rename vacant.files, if_neg under, if_pos inside]
      · unfold rename
        rw [mem_map_relocate vacant.directories, if_neg under]
        exact fun both => both.1 inside
      · unfold rename
        rw [mem_map_relocate vacant.links, if_neg under]
        exact fun both => both.1 inside
    · rw [if_neg inside]
      apply entry_congr (Iff.refl _)
      · rw [read_rename vacant.files, if_neg under, if_neg inside]
      · unfold rename
        rw [mem_map_relocate vacant.directories, if_neg under]
        exact and_iff_right inside
      · unfold rename
        rw [mem_map_relocate vacant.links, if_neg under]
        exact and_iff_right inside

/-- What a `rename` moved, and where from. -/
theorem renameEntry_eq_some (renamed : bundle.renameEntry source target = some bundle') :
    (bundle.entry source).isSome ∧ bundle'.entry = bundle.entry.move source target ∧
      (source ≠ target → ¬ source <+: target ∧ ¬ target <+: source ∧
        bundle.entry target.dropLast = some .directory ∧
        bundle' = (bundle.removeTree target).rename source target) := by
  unfold renameEntry at renamed
  by_cases missing : bundle.entry source = none
  · rw [if_pos missing] at renamed
    cases renamed
  · rw [if_neg missing] at renamed
    refine ⟨Option.isSome_iff_ne_none.mpr missing, ?_⟩
    by_cases same : source = target
    · rw [if_pos same] at renamed
      obtain rfl := Option.some.inj renamed
      refine ⟨?_, fun moved => absurd same moved⟩
      rw [← same]
      exact PathTree.move_self.symm
    · rw [if_neg same] at renamed
      by_cases nested : source <+: target ∨ target <+: source
      · rw [if_pos nested] at renamed
        cases renamed
      · rw [if_neg nested] at renamed
        by_cases allowed : (bundle.isDirectory target.dropLast && bundle.replaces source target) = true
        · rw [if_pos allowed] at renamed
          obtain rfl := Option.some.inj renamed
          rcases not_or.mp nested with ⟨inside, under⟩
          have root : source ≠ [] := by
            rintro rfl
            exact inside (List.nil_prefix)
          have root' : target ≠ [] := by
            rintro rfl
            exact under (List.nil_prefix)
          have parent := isDirectory_iff.mp (Bool.and_eq_true_iff.mp allowed).1
          refine ⟨?_, fun _ => ⟨inside, under, parent, rfl⟩⟩
          rw [entry_rename removeTree_spec.1 root root', removeTree_spec.2 root']
          funext other
          unfold PathTree.move PathTree.prune
          by_cases below : target <+: other
          · rw [if_pos below, if_pos below]
            apply if_neg
            intro within
            rcases List.prefix_or_prefix_of_prefix within (List.prefix_append source _) with above | above
            · exact under above
            · exact inside above
          · rw [if_neg below, if_neg below, if_neg below]
        · rw [if_neg allowed] at renamed
          cases renamed

/-- A bundle with no directories is a tree. -/
theorem rooted_flat (files : ∀ file ∈ bundle.files, ∃ name, file.path = [name])
    (directories : bundle.directories = []) (links : bundle.symlinks = []) :
    bundle.entry.Rooted Entry.IsDirectory := by
  intro path name held
  cases path with
  | nil => exact ⟨.directory, entry_root, rfl⟩
  | cons first rest =>
    have vacant : bundle.entry (first :: rest ++ [name]) = none := by
      apply entry_eq_none
      · exact List.append_ne_nil_of_right_ne_nil _ (List.cons_ne_nil _ _)
      · apply read_eq_none_iff.mpr
        intro file mem isPath
        rcases files file mem with ⟨only, isOnly⟩
        rw [isOnly] at isPath
        have isEmpty := (List.cons.inj isPath).2.symm
        exact absurd isEmpty (List.append_ne_nil_of_right_ne_nil _ (List.cons_ne_nil _ _))
      · rw [directories]
        exact List.not_mem_nil
      · rw [links]
        exact List.not_mem_nil
    rw [vacant] at held
    cases held

end Bundle

/-- The names of components are the components. -/
theorem text_of_mapM {segments : List Utf8.Text} {path : Path} (named : segments.mapM Name.of? = some path) :
    path.map Name.text = segments := by
  induction segments generalizing path with
  | nil =>
    obtain rfl := Option.some.inj named
    rfl
  | cons segment rest ih =>
    rw [List.mapM_cons, Option.bind_eq_bind, Option.bind_eq_some_iff] at named
    rcases named with ⟨name, isName, named⟩
    rw [Option.bind_eq_bind, Option.bind_eq_some_iff] at named
    rcases named with ⟨names, isNames, isPath⟩
    obtain rfl := Option.some.inj isPath
    unfold Name.of? at isName
    split_ifs at isName with nameable
    obtain rfl := Option.some.inj isName
    rw [List.map_cons, ih isNames]

namespace Workspace

/-- Nothing but the symbolic links says where the file of a Note is. -/
theorem notePath_congr {host : Host} {bundle bundle' : Bundle} (links : bundle'.symlinks = bundle.symlinks)
    (note_id : Okf.ConceptId) : notePath host bundle' note_id = notePath host bundle note_id := by
  unfold notePath Bundle.contained
  rw [links]

end Workspace

end Burlmd
