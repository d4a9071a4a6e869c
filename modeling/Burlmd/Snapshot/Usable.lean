import Burlmd.Lifecycle.Identity
import Burlmd.Snapshot.Schema

/-!
# What the tree shows

The walk lists files by their names; the validators of persisted identities have rules of
their own. They agree on every name that is not blank, not terminated and not the name of a
reserved file with a second extension.
-/

namespace Burlmd.Snapshot

open Workspace
open Segments
open Lifecycle
open Utf8 (Text)
open Okf
open Index (WorkspaceId listedId walkBundle hidden)
open Markdown (trim)
open Checked

variable {host : Host} {bundle : Bundle}

/-- The names that a program can write on a system where no name has a backslash. -/
def NamesCarried (bundle : Bundle) : Prop :=
  (∀ file ∈ bundle.files, ∀ level ∈ file.path, '\\' ∉ level.text) ∧
    ∀ path ∈ bundle.directories, ∀ level ∈ path, '\\' ∉ level.text

structure NoteUsable (host : Host) (bundle : Bundle) (path : Path) (id : ConceptId) : Prop where
  spelled : conceptIdToPath id = joinPath path
  located : notePath host bundle id = .ok path
  persisted : validatePersistedNoteId host bundle id = .ok ()

structure DirectoryUsable (host : Host) (bundle : Bundle) (path : Path) : Prop where
  persisted : validatePersistedDirectoryId host (joinPath path) = .ok ()
  located : directoryAbsolute host bundle (joinPath path) = .ok path

/-- The identities of a snapshot are taken from the tree. -/
structure FromTree (bundle : Bundle) (snapshot : ActiveWorkspaceSessionSnapshot) : Prop where
  notes : snapshot.open_note_ids.Nodup ∧
    ∀ id ∈ snapshot.open_note_ids, id ∈ (walkBundle bundle).notes
  directories : snapshot.expanded_directory_ids.Nodup ∧
    ∀ id ∈ snapshot.expanded_directory_ids, id ∈ (walkBundle bundle).directories
  active : ∀ active, snapshot.active_note_id = some active → active ∈ snapshot.open_note_ids

structure TreeUsable (host : Host) (bundle : Bundle) : Prop where
  notes : ∀ file ∈ bundle.files, ∀ id, listedId file.path = some id →
    NoteUsable host bundle file.path id
  directories : ∀ path ∈ bundle.directories, path ≠ [] →
    (∀ level ∈ path, hidden level.text = false) → DirectoryUsable host bundle path
  saved : ∀ workspace_id snapshot, workspace_id ≠ [] → FromTree bundle snapshot →
    validateSemantics host bundle workspace_id (.fromSnapshot workspace_id snapshot) = .ok ()

/-- No name on a path ends a line. -/
def Unterminated (path : Path) : Prop := ∀ level ∈ path, '\n' ∉ level.text ∧ '\r' ∉ level.text

/-- No listed name is one that a validator refuses. -/
structure NamesAdmitted (bundle : Bundle) : Prop where
  notes : ∀ file ∈ bundle.files, ∀ id, listedId file.path = some id →
    Unterminated file.path ∧ trim (lastSegment slash id) ≠ [] ∧
      lastSegment slash id ≠ "index.md".toList ∧ lastSegment slash id ≠ "log.md".toList
  directories : ∀ path ∈ bundle.directories, path ≠ [] →
    (∀ level ∈ path, hidden level.text = false) → Unterminated path

/-! ## Names -/

theorem mem_joinPath {path : Path} {c : Char} (other : c ≠ slash) :
    c ∈ joinPath path ↔ ∃ level ∈ path, c ∈ level.text := by
  induction path with
  | nil => simp [joinPath]
  | cons first rest ih =>
    by_cases more : rest = []
    · subst more
      simp [joinPath_singleton]
    · rw [joinPath_cons more, List.mem_append, List.mem_cons, ih]
      simp [other]

theorem carried_joinPath_iff {path : Path} (named : ∀ level ∈ path, '\\' ∉ level.text) :
    Carried (joinPath path) ↔ Unterminated path := by
  unfold Carried Unterminated
  rw [mem_joinPath (by decide), mem_joinPath (by decide), mem_joinPath (by decide),
    mem_joinPath (by decide)]
  constructor
  · rintro ⟨-, -, newline, carriage⟩ level mem
    exact ⟨fun inside => newline ⟨level, mem, inside⟩, fun inside => carriage ⟨level, mem, inside⟩⟩
  · intro unterminated
    refine ⟨?_, ?_, ?_, ?_⟩
    · rintro ⟨level, mem, inside⟩
      exact named level mem inside
    · rintro ⟨level, mem, inside⟩
      exact level.nameable.2.2.2.2 inside
    · rintro ⟨level, mem, inside⟩
      exact (unterminated level mem).1 inside
    · rintro ⟨level, mem, inside⟩
      exact (unterminated level mem).2 inside

theorem joinPath_ne_nil {path : Path} (nonempty : path ≠ []) : joinPath path ≠ [] := by
  obtain ⟨first, rest, rfl⟩ := List.exists_cons_of_ne_nil nonempty
  by_cases more : rest = []
  · subst more
    rw [joinPath_singleton]
    exact first.nameable.1
  · rw [joinPath_cons more]
    simp [first.nameable.1]

theorem joinPath_concat {levels : Path} {name : Name} :
    joinPath (levels ++ [name]) = joinId (joinPath levels) name.text := by
  unfold joinId
  induction levels with
  | nil => exact joinPath_singleton name
  | cons first rest ih =>
    rw [if_neg (joinPath_ne_nil (List.cons_ne_nil _ _)), List.cons_append,
      joinPath_cons (by simp), ih]
    by_cases more : rest = []
    · subst more
      rw [joinPath_singleton]
      rfl
    · rw [joinPath_cons more, if_neg (joinPath_ne_nil more), List.append_assoc, List.cons_append]

theorem joinId_append {directory title text : Text} :
    joinId directory title ++ text = joinId directory (title ++ text) := by
  unfold joinId
  split
  · rfl
  · rw [List.append_assoc, List.cons_append]

theorem isReservedTitle_iff {title : Text} (whole : slash ∉ title) : isReservedTitle title = true ↔
    (title = "index".toList ∨ title = "log".toList) ∨
      title = "index.md".toList ∨ title = "log.md".toList := by
  constructor
  · intro reserved
    have unstripped : title.dropPrefix? [slash] = none := by
      cases stripped : title.dropPrefix? [slash] with
      | none => rfl
      | some rest =>
        obtain ⟨prefix_, shape, same⟩ := List.dropPrefix?_eq_some_iff.mp stripped
        obtain rfl := eq_of_beq same
        exact absurd (shape ▸ List.mem_cons_self) whole
    have member := of_decide_eq_true reserved
    unfold pathToConceptId at member
    rw [unstripped, Option.getD_none] at member
    dsimp only at member
    cases stripped : title.dropSuffix? mdSuffix with
    | none =>
      rw [stripped, Option.getD_none] at member
      left
      simpa [reservedTitles] using member
    | some stem =>
      obtain ⟨suffix, shape, same⟩ := List.dropSuffix?_eq_some_iff.mp stripped
      obtain rfl := eq_of_beq same
      rw [stripped, Option.getD_some] at member
      right
      subst shape
      simp only [reservedTitles, List.mem_cons, List.not_mem_nil, or_false] at member
      rcases member with rfl | rfl
      · exact .inl rfl
      · exact .inr rfl
  · rintro ((rfl | rfl) | rfl | rfl) <;> decide

/-! ## Directories -/

theorem visible_of_levels {path : Path} (nonempty : path ≠ [])
    (visible : ∀ level ∈ path, hidden level.text = false) :
    ∀ segment ∈ (joinPath path).splitOn slash, segment ≠ [] ∧ segment.head? ≠ some '.' := by
  rw [splitOn_joinPath nonempty]
  intro segment mem
  obtain ⟨level, inside, rfl⟩ := List.mem_map.mp mem
  exact ⟨level.nameable.1, hidden_eq_false_iff.mp (visible level inside)⟩

theorem validDirectory_iff {path : Path} (named : ∀ level ∈ path, '\\' ∉ level.text)
    (visible : ∀ level ∈ path, hidden level.text = false) :
    ValidDirectory (joinPath path) ↔ Unterminated path := by
  by_cases nonempty : path = []
  · subst nonempty
    exact ⟨fun _ level mem => absurd mem List.not_mem_nil, fun _ => .inl rfl⟩
  · unfold ValidDirectory
    rw [carried_joinPath_iff named]
    constructor
    · rintro (isEmpty | ⟨unterminated, -⟩)
      · exact absurd isEmpty (joinPath_ne_nil nonempty)
      · exact unterminated
    · exact fun unterminated => .inr ⟨unterminated, visible_of_levels nonempty visible⟩

theorem validatePersistedDirectoryId_iff {directory : Text} :
    validatePersistedDirectoryId host directory = .ok () ↔
      directory ≠ [] ∧ ValidDirectory directory := by
  unfold validatePersistedDirectoryId
  constructor
  · intro valid
    split at valid
    · cases valid
    · rename_i nonempty
      obtain ⟨normalized, isNormal, valid⟩ := bind_eq_ok.mp valid
      split at valid
      · cases valid
      · rename_i own
        obtain rfl := not_not.mp own
        exact ⟨nonempty, normalizeDirectory_eq_self_iff.mp isNormal⟩
  · rintro ⟨nonempty, valid⟩
    rw [if_neg nonempty, normalizeDirectory_eq_self_iff.mpr valid]
    exact if_neg (not_not.mpr rfl)

/-- No link is on the way to a directory of the tree. -/
theorem contained_of_rooted {path : Path} (rooted : Rooted bundle)
    (inside : ∀ level : Path, level <+: path → level ≠ [] → level ∈ bundle.directories) :
    bundle.contained path = true := by
  unfold Bundle.contained
  rw [List.all_eq_true]
  intro level mem
  obtain ⟨isPrefix, nonempty⟩ := mem_tail_inits.mp mem
  apply decide_eq_true
  intro isLink
  exact (rooted.links level isLink).1 (inside level isPrefix nonempty)

theorem directoryAbsolute_of_rooted {path : Path} (rooted : Rooted bundle)
    (mem : path ∈ bundle.directories) (nonempty : path ≠ []) :
    directoryAbsolute host bundle (joinPath path) = .ok path := by
  unfold directoryAbsolute
  dsimp only
  rw [normalComponents_joinPath nonempty, Option.getD_some,
    contained_of_rooted rooted (rooted.directories path mem)]
  rfl

theorem directoryUsable_iff {path : Path} (rooted : Rooted bundle) (carried : NamesCarried bundle)
    (mem : path ∈ bundle.directories) (nonempty : path ≠ [])
    (visible : ∀ level ∈ path, hidden level.text = false) :
    DirectoryUsable host bundle path ↔ Unterminated path := by
  have valid := validDirectory_iff (carried.2 path mem) visible
  constructor
  · intro usable
    exact valid.mp (validatePersistedDirectoryId_iff.mp usable.persisted).2
  · intro unterminated
    exact ⟨validatePersistedDirectoryId_iff.mpr ⟨joinPath_ne_nil nonempty, valid.mpr unterminated⟩,
      directoryAbsolute_of_rooted rooted mem nonempty⟩

/-! ## Notes -/

/-- A listed file has a name with the extension in a directory of the tree. -/
theorem joinId_of_listed {path : Path} {id : ConceptId} (listed : listedId path = some id) :
    ∃ (levels : Path) (name : Name) (stem : Text), path = levels ++ [name] ∧
      name.text = stem ++ mdSuffix ∧ id = joinId (joinPath levels) stem ∧ slash ∉ stem ∧
      (∀ level ∈ path, hidden level.text = false) ∧ stem.head? ≠ some '.' ∧ stem ≠ [] ∧
      stem ≠ "index".toList ∧ stem ≠ "log".toList := by
  obtain ⟨levels, name, rfl, visible, ⟨stem, isName⟩, unreserved, spelled⟩ :=
    listedId_eq_some_iff.mp listed
  rw [joinPath_concat, ← isName, ← joinId_append] at spelled
  have isVisible := hidden_eq_false_iff.mp (visible name (by simp))
  have nonempty : stem ≠ [] := by
    rintro rfl
    rw [← isName] at isVisible
    exact isVisible rfl
  refine ⟨levels, name, stem, rfl, isName.symm, List.append_cancel_right spelled, ?_, visible, ?_,
    nonempty, ?_, ?_⟩
  · intro inside
    apply name.nameable.2.2.2.1
    rw [← isName]
    exact List.mem_append_left _ inside
  · rw [← isName, List.head?_append_of_ne_nil _ nonempty] at isVisible
    exact isVisible
  · rintro rfl
    exact unreserved (isName ▸ by decide)
  · rintro rfl
    exact unreserved (isName ▸ by decide)

theorem validatePersistedNoteId_iff {path : Path} {levels : Path} {stem : Text}
    (whole : slash ∉ stem)
    (located : notePath host bundle (joinId (joinPath levels) stem) = .ok path) :
    validatePersistedNoteId host bundle (joinId (joinPath levels) stem) = .ok () ↔
      ValidDirectory (joinPath levels) ∧ ValidTitle stem := by
  unfold validatePersistedNoteId
  rw [located]
  constructor
  · intro valid
    obtain ⟨identity, identified, -⟩ := bind_eq_ok.mp valid
    obtain ⟨directory, title, validDirectory, validTitle, same, -⟩ :=
      linkTargetIdentity_iff.mp identified
    have sameDirectory := congrArg containingDir same
    have sameTitle := congrArg (lastSegment slash) same
    rw [containingDir_joinId whole, containingDir_joinId validTitle.whole] at sameDirectory
    rw [lastSegment_joinId whole, lastSegment_joinId validTitle.whole] at sameTitle
    exact ⟨sameDirectory ▸ validDirectory, sameTitle ▸ validTitle⟩
  · rintro ⟨validDirectory, validTitle⟩
    rw [linkTargetIdentity_iff.mpr ⟨_, _, validDirectory, validTitle, rfl, rfl⟩]
    rfl

theorem notePath_of_listed {file : BundleFile} {id : ConceptId} (rooted : Rooted bundle)
    (carried : NamesCarried bundle) (mem : file ∈ bundle.files)
    (listed : listedId file.path = some id) : notePath host bundle id = .ok file.path := by
  obtain ⟨levels, name, -, -, -, -, spelled⟩ := listedId_eq_some_iff.mp listed
  have within : ∀ c ∈ id, c ≠ slash → ∃ level ∈ file.path, c ∈ level.text := by
    intro c inside other
    rw [← mem_joinPath other, ← spelled]
    exact List.mem_append_left _ inside
  unfold notePath
  rw [if_neg, if_neg, Index.normalComponents_of_listedId listed]
  · dsimp only
    have contained : bundle.contained file.path.dropLast = true := by
      apply contained_of_rooted rooted
      intro level isPrefix nonempty
      apply (rooted.files file mem).2 level (isPrefix.trans (List.dropLast_prefix _)) nonempty
      rintro rfl
      have shorter := isPrefix.length_le
      have positive := List.length_pos_of_ne_nil nonempty
      rw [List.length_dropLast] at shorter
      omega
    have isFile : bundle.isFile file.path = true := by
      unfold Bundle.isFile Bundle.file?
      rw [Table.find?_key mem]
      rfl
    rw [contained, if_neg (by simp), if_neg]
    intro isLink
    rw [(rooted.links _ isLink).2] at isFile
    cases isFile
  · intro inside
    obtain ⟨level, isLevel, inside⟩ := within _ inside (by decide)
    exact level.nameable.2.2.2.2 inside
  · intro inside
    obtain ⟨level, isLevel, inside⟩ := within _ inside (by decide)
    exact carried.1 file mem level isLevel inside

theorem noteUsable_iff {file : BundleFile} {id : ConceptId} (rooted : Rooted bundle)
    (carried : NamesCarried bundle) (mem : file ∈ bundle.files)
    (listed : listedId file.path = some id) :
    NoteUsable host bundle file.path id ↔
      Unterminated file.path ∧ trim (lastSegment slash id) ≠ [] ∧
        lastSegment slash id ≠ "index.md".toList ∧ lastSegment slash id ≠ "log.md".toList := by
  have located := @notePath_of_listed host bundle file id rooted carried mem listed
  obtain ⟨levels, name, stem, isPath, isName, rfl, whole, visible, isVisible, nonempty, notIndex,
    notLog⟩ := joinId_of_listed listed
  have inDirectory : ∀ level ∈ levels, level ∈ file.path := by
    intro level inside
    rw [isPath]
    exact List.mem_append_left _ inside
  have isLast : name ∈ file.path := by
    rw [isPath]
    simp
  have validDirectory := @validDirectory_iff levels
    (fun level inside => carried.1 file mem level (inDirectory level inside))
    (fun level inside => visible level (inDirectory level inside))
  have validated := @validatePersistedNoteId_iff host bundle file.path levels stem whole located
  rw [lastSegment_joinId whole]
  have unterminated : Unterminated file.path ↔
      Unterminated levels ∧ '\n' ∉ stem ∧ '\r' ∉ stem := by
    unfold Unterminated
    rw [isPath]
    constructor
    · intro each
      refine ⟨fun level inside => each level (List.mem_append_left _ inside), ?_, ?_⟩
      · intro inside
        exact (each name (by simp)).1 (isName ▸ List.mem_append_left _ inside)
      · intro inside
        exact (each name (by simp)).2 (isName ▸ List.mem_append_left _ inside)
    · rintro ⟨each, newline, carriage⟩ level inside
      rcases List.mem_append.mp inside with inside | inside
      · exact each level inside
      · obtain rfl := List.mem_singleton.mp inside
        rw [isName]
        simp only [List.mem_append, not_or]
        exact ⟨⟨newline, by decide⟩, carriage, by decide⟩
  constructor
  · intro usable
    obtain ⟨isDirectory, isTitle⟩ := validated.mp usable.persisted
    refine ⟨unterminated.mpr ⟨validDirectory.mp isDirectory, isTitle.carried.2.2⟩, isTitle.nonblank,
      ?_, ?_⟩
    · rintro rfl
      have free := isTitle.unreserved
      rw [(isReservedTitle_iff whole).mpr (.inr (.inl rfl))] at free
      cases free
    · rintro rfl
      have free := isTitle.unreserved
      rw [(isReservedTitle_iff whole).mpr (.inr (.inr rfl))] at free
      cases free
  · rintro ⟨isUnterminated, nonblank, notIndexNote, notLogNote⟩
    obtain ⟨directory, ends⟩ := unterminated.mp isUnterminated
    have isStem : stem ⊆ name.text := by
      rw [isName]
      exact List.subset_append_left _ _
    obtain ⟨_, _, -, -, -, -, spelled⟩ := listedId_eq_some_iff.mp listed
    refine ⟨spelled, located, validated.mpr ⟨validDirectory.mpr directory,
      ⟨⟨nonblank, isVisible, whole, ?_, ?_, ends⟩, ?_⟩⟩⟩
    · exact fun inside => carried.1 file mem name isLast (isStem inside)
    · exact fun inside => name.nameable.2.2.2.2 (isStem inside)
    · rw [← Bool.not_eq_true, isReservedTitle_iff whole]
      rintro ((same | same) | same | same)
      · exact notIndex same
      · exact notLog same
      · exact notIndexNote same
      · exact notLogNote same

/-! ## The tree -/

theorem saved_of_usable {workspace_id : WorkspaceId} {snapshot : ActiveWorkspaceSessionSnapshot}
    (notes : ∀ file ∈ bundle.files, ∀ id, listedId file.path = some id →
      NoteUsable host bundle file.path id)
    (directories : ∀ path ∈ bundle.directories, path ≠ [] →
      (∀ level ∈ path, hidden level.text = false) → DirectoryUsable host bundle path)
    (named : workspace_id ≠ []) (fromTree : FromTree bundle snapshot) :
    validateSemantics host bundle workspace_id (.fromSnapshot workspace_id snapshot) = .ok () := by
  refine validateSemantics_iff.mpr ⟨named, rfl, ⟨fromTree.notes.1, fun id mem => ?_⟩,
    ⟨fromTree.directories.1, fun id mem => ?_⟩, fromTree.active⟩
  · obtain ⟨file, inside, listed⟩ := Index.mem_walkBundle.mp (fromTree.notes.2 id mem)
    refine ⟨?_, (notes file inside id listed).persisted⟩
    obtain ⟨levels, name, stem, -, -, rfl, -, -, -, nonempty, -⟩ := joinId_of_listed listed
    unfold joinId
    split
    · exact nonempty
    · simp
  · obtain ⟨path, inside, nonempty, visible, rfl⟩ :=
      mem_directories_walkBundle.mp (fromTree.directories.2 id mem)
    exact ⟨joinPath_ne_nil nonempty, (directories path inside nonempty visible).persisted⟩

/-- Whatever the tree shows is usable and can be saved, exactly where no listed name is one
that a validator refuses. -/
theorem treeUsable_iff (host : Host) (bundle : Bundle) (rooted : Rooted bundle)
    (carried : NamesCarried bundle) : TreeUsable host bundle ↔ NamesAdmitted bundle := by
  constructor
  · intro usable
    constructor
    · intro file mem id listed
      exact (noteUsable_iff rooted carried mem listed).mp (usable.notes file mem id listed)
    · intro path mem nonempty visible
      exact (directoryUsable_iff rooted carried mem nonempty visible).mp
        (usable.directories path mem nonempty visible)
  · intro admitted
    have notes : ∀ file ∈ bundle.files, ∀ id, listedId file.path = some id →
        NoteUsable host bundle file.path id := by
      intro file mem id listed
      exact (noteUsable_iff rooted carried mem listed).mpr (admitted.notes file mem id listed)
    have directories : ∀ path ∈ bundle.directories, path ≠ [] →
        (∀ level ∈ path, hidden level.text = false) → DirectoryUsable host bundle path := by
      intro path mem nonempty visible
      exact (directoryUsable_iff rooted carried mem nonempty visible).mpr
        (admitted.directories path mem nonempty visible)
    exact ⟨notes, directories, fun _ _ => saved_of_usable notes directories⟩

/-- A bundle of one empty file. -/
def singleFile (name : Name) : Bundle :=
  ⟨(∅ : Table BundleFile.path).put ⟨[name], .text [], 0⟩, [], []⟩

theorem mem_singleFile {name : Name} {file : BundleFile} (mem : file ∈ (singleFile name).files) :
    file.path = [name] := by
  rcases Table.mem_put.mp mem with ⟨inside, -⟩ | rfl
  · cases inside
  · rfl

theorem rooted_singleFile (name : Name) : Rooted (singleFile name) := by
  refine ⟨fun file mem => ?_, fun path mem => ?_, fun link mem => ?_⟩
  · rw [mem_singleFile mem]
    refine ⟨List.cons_ne_nil _ _, fun level isPrefix nonempty shorter => ?_⟩
    obtain ⟨rest, same⟩ := isPrefix
    rcases List.append_eq_singleton_iff.mp same with ⟨isEmpty, -⟩ | ⟨isWhole, -⟩
    · exact absurd isEmpty nonempty
    · exact absurd isWhole shorter
  · cases mem
  · cases mem

/-- The file `a.md`. -/
theorem plain_tree_usable : TreeUsable Host.plain (singleFile ⟨"a.md".toList, by decide⟩) := by
  refine (treeUsable_iff _ _ (rooted_singleFile _) ⟨fun file mem => ?_, fun path mem => ?_⟩).mpr
    ⟨fun file mem id listed => ?_, fun path mem => ?_⟩
  · rw [mem_singleFile mem]
    decide
  · cases mem
  · rw [mem_singleFile mem] at listed ⊢
    obtain rfl : "a".toList = id := Option.some.inj ((by decide : _ = _).symm.trans listed)
    exact ⟨by unfold Unterminated; decide, by decide, by decide, by decide⟩
  · cases mem

/-- The walk lists the file with a blank for a stem, and no snapshot with it can be saved. -/
theorem blank_note_unusable : (walkBundle (singleFile ⟨" .md".toList, by decide⟩)).notes = [[' ']] ∧
    ¬TreeUsable Host.plain (singleFile ⟨" .md".toList, by decide⟩) := by
  refine ⟨by decide, fun usable => ?_⟩
  have persisted := (usable.notes ⟨[⟨" .md".toList, by decide⟩], .text [], 0⟩ (by decide) [' ']
    (by decide)).persisted
  cases persisted

end Burlmd.Snapshot
