import Burlmd.Index.Tree
import Burlmd.Library.Machine
import Burlmd.Lifecycle.DraftsKept
import Burlmd.Lifecycle.Identity

/-!
# The tree stays whole

Every operation that writes the index leaves a row for each directory above what it lists.
Two operations do so on a condition only: the deletion of a Directory removes the rows that
`LIKE` finds, and the rename of one takes along what the index or the drafts know of.
-/

namespace Burlmd.Lifecycle

open Workspace
open Segments
open Utf8 (Text)
open Okf (ConceptId containingDir slash)
open Index (WorkspaceId Database DraftRow IndexedNote ScannedBundle NoteEntry fileStem derive
  scanBundle walkBundle locatedAll)
open Machine (Reaches Any)
open Checked

variable {host : Host} {workspace_id : WorkspaceId} {now : Int} {faults : LifecycleFaults}

/-! ## Rebuilds -/

theorem whole_joinPath {path : Path} (nonempty : path ≠ []) : Whole slash (joinPath path) := by
  unfold Whole
  rw [splitOn_joinPath nonempty]
  intro mem
  obtain ⟨name, -, isEmpty⟩ := List.mem_map.mp mem
  exact name.nameable.1 isEmpty

/-- What is above the spelling of a path is the spelling of its start. -/
theorem above_joinPath {path : Path} {level : Text} (nonempty : path ≠ [])
    (above : Above slash level (joinPath path)) :
    ∃ start : Path, start <+: path ∧ start ≠ [] ∧ start ≠ path ∧ joinPath start = level := by
  obtain ⟨-, tail, same⟩ := above
  rw [List.append_assoc, List.singleton_append] at same
  have split := splitOn_joinPath nonempty
  rw [← same, List.splitOn_append_cons_self] at split
  obtain ⟨start, rest, rfl, isStart, isRest⟩ := List.map_eq_append_iff.mp split.symm
  have startNonempty : start ≠ [] := by
    rintro rfl
    exact List.splitOn_ne_nil slash level isStart.symm
  refine ⟨start, List.prefix_append _ _, startNonempty, ?_, ?_⟩
  · intro whole
    have isEmpty : rest = [] := List.append_right_eq_self.mp whole.symm
    subst isEmpty
    exact List.splitOn_ne_nil slash tail isRest.symm
  · unfold joinPath
    rw [isStart, List.intercalate_splitOn]

theorem listed_of_start {bundle : Bundle} {path start : Path} (isPrefix : start <+: path)
    (nonempty : start ≠ []) (visible : ∀ level ∈ path, Index.hidden level.text = false)
    (mem : start ∈ bundle.directories) : joinPath start ∈ (walkBundle bundle).directories :=
  mem_directories_walkBundle.mpr
    ⟨start, mem, nonempty, fun level inside => visible level (isPrefix.subset inside), rfl⟩

/-- A walk lists every directory on the way to what it lists. -/
theorem closedScan_scanBundle {bundle : Bundle} (rooted : Rooted bundle) :
    Database.ClosedScan (scanBundle host bundle) := by
  constructor
  · intro note mem
    obtain ⟨id, listed, isNote⟩ := List.mem_filterMap.mp mem
    obtain ⟨_, file, -, -, rfl⟩ := Index.readNote_eq_some_iff.mp isNote
    rw [Index.derive_concept_id]
    obtain ⟨file, inside, isListed⟩ := Index.mem_walkBundle.mp listed
    obtain ⟨levels, name, isPath, visible, isNote, -, spelled⟩ := listedId_eq_some_iff.mp isListed
    have nonempty := (rooted.files file inside).1
    have isPrefix : id <+: joinPath file.path := by
      rw [← spelled]
      exact List.prefix_append id _
    constructor
    · have split := splitOn_joinPath nonempty
      rw [← spelled] at split
      unfold Okf.conceptIdToPath at split
      rw [splitOn_append (by decide), isPath, List.map_append, List.map_singleton] at split
      obtain ⟨isLevels, isLast⟩ := List.append_inj' split rfl
      intro isEmpty
      rw [splitOn_eq_dropLast_append, isLevels, List.mem_append, List.mem_singleton] at isEmpty
      rcases isEmpty with mem | isEmpty
      · obtain ⟨level, -, isEmpty⟩ := List.mem_map.mp mem
        exact level.nameable.1 isEmpty
      · -- A file that is called by the suffix alone is hidden.
        rw [← isEmpty, List.nil_append, List.cons.injEq] at isLast
        have shown := visible name (isPath ▸ List.mem_append_right _ (List.mem_singleton_self _))
        rw [← isLast.1] at shown
        cases shown
    · intro level above
      obtain ⟨start, isStart, startNonempty, proper, rfl⟩ :=
        above_joinPath nonempty ⟨above.1, above.2.trans isPrefix⟩
      exact listed_of_start isStart startNonempty visible
        ((rooted.files file inside).2 start isStart startNonempty proper)
  · intro directory mem
    obtain ⟨path, inside, nonempty, visible, rfl⟩ := mem_directories_walkBundle.mp mem
    refine ⟨whole_joinPath nonempty, fun level above => ?_⟩
    obtain ⟨start, isStart, startNonempty, -, rfl⟩ := above_joinPath nonempty above
    exact listed_of_start isStart startNonempty visible
      (rooted.directories path inside start isStart startNonempty)

/-! ## What every operation keeps -/

structure Arranged (workspace_id : WorkspaceId) (db : Database) : Prop where
  nested : db.Nested workspace_id
  consistent : db.Consistent

section Statements

variable {db db' : Database} {title_lookup_key : Text → Text}

theorem arranged_empty (workspaces : List WorkspaceId) :
    Arranged workspace_id (Database.empty workspaces) :=
  ⟨Database.nested_empty workspaces, Database.consistent_empty workspaces⟩

theorem Arranged.with_drafts (arranged : Arranged workspace_id db) (drafts : Table DraftRow.key) :
    Arranged workspace_id { db with drafts } :=
  ⟨⟨arranged.nested.closed, arranged.nested.wholeNotes, arranged.nested.wholeDirectories,
    arranged.nested.paths⟩, arranged.consistent.with_drafts drafts⟩

theorem Arranged.recordDirectories (arranged : Arranged workspace_id db) {directory : Text}
    (whole : directory = [] ∨ Whole slash directory)
    (recorded : db.recordDirectories workspace_id directory = some db') :
    Arranged workspace_id db' := by
  refine ⟨arranged.nested.recordDirectories whole recorded, ?_⟩
  obtain ⟨directories, rfl⟩ := Database.recordDirectories_spec recorded
  exact arranged.consistent.with_directories directories

theorem Arranged.writeNoteRows (arranged : Arranged workspace_id db) {note : IndexedNote}
    (whole : Whole slash note.concept_id)
    (written : db.writeNoteRows title_lookup_key workspace_id note = some db') :
    Arranged workspace_id db' :=
  ⟨arranged.nested.writeNoteRows whole written, arranged.consistent.writeNoteRows written⟩

theorem Arranged.removeNoteRows (arranged : Arranged workspace_id db) (note_id : ConceptId) :
    Arranged workspace_id (db.removeNoteRows workspace_id note_id) :=
  ⟨arranged.nested.removeRows _, arranged.consistent.removeRows _⟩

/-- The rows of a Note and its draft go. -/
theorem Arranged.cleared (arranged : Arranged workspace_id db) (note_id : ConceptId) :
    Arranged workspace_id
      ((db.removeNoteRows workspace_id note_id).clearDraft workspace_id note_id) :=
  (arranged.removeNoteRows note_id).with_drafts _

theorem Arranged.writeScannedBundle (arranged : Arranged workspace_id db) {scanned : ScannedBundle}
    (closed : Database.ClosedScan scanned)
    (written : db.writeScannedBundle title_lookup_key workspace_id scanned = some db') :
    Arranged workspace_id db' :=
  ⟨arranged.nested.writeScannedBundle closed written, arranged.consistent.writeScannedBundle written⟩

end Statements

/-! ## Creating -/

variable {core core' : Core}

theorem whole_of_normalized {path directory : Text}
    (normalized : normalizeDirectory host path = .ok directory) :
    directory = [] ∨ Whole slash directory := by
  by_cases root : directory = []
  · exact .inl root
  · exact .inr ((normalizeDirectory_eq_ok normalized).2 root).1

theorem whole_joinId {directory title : Text} (whole : directory = [] ∨ Whole slash directory)
    (plain : slash ∉ title) (nonempty : title ≠ []) : Whole slash (joinId directory title) := by
  have wholeTitle := whole_of_not_mem plain nonempty
  unfold joinId
  split
  · exact wholeTitle
  · rename_i inside
    exact whole_append_cons_iff.mpr ⟨whole.resolve_left inside, wholeTitle⟩

theorem whole_joinId_title {directory title : Text} (whole : directory = [] ∨ Whole slash directory)
    (valid : validateTitle host title = .ok ()) : Whole slash (joinId directory title) := by
  obtain ⟨nonempty, -, plain, -⟩ := validateSegment_eq_ok (validateTitle_eq_ok valid).1
  exact whole_joinId whole plain nonempty

theorem arranged_publishNote {note_id : ConceptId} {path : Path} {title : Text}
    {record : Database → Option Database} (arranged : Arranged workspace_id core.db)
    (whole : Whole slash note_id)
    (records : ∀ {db db'}, Arranged workspace_id db → record db = some db' → Arranged workspace_id db')
    (published : publishNote host workspace_id core note_id path title record now faults =
      .ok core') : Arranged workspace_id core'.db := by
  obtain ⟨-, written, db, isWritten, isRecorded, rfl⟩ := publishNote_spec published
  exact records (arranged.writeNoteRows whole isWritten) isRecorded

theorem arranged_createNote {directory_path title : Text} (arranged : Arranged workspace_id core.db) :
    Arranged workspace_id
      (createNoteSerialized host workspace_id core directory_path title now faults).1.db := by
  unfold createNoteSerialized
  split
  · exact arranged
  · rename_i directory bundle located
    unfold locateNewNote at located
    obtain ⟨⟨⟩, valid, located⟩ := bind_eq_ok.mp located
    obtain ⟨directory', normalized, located⟩ := bind_eq_ok.mp located
    obtain ⟨bundle', -, located⟩ := bind_eq_ok.mp located
    cases located
    have whole := whole_of_normalized normalized
    have wholeId := whole_joinId_title whole valid
    dsimp only
    split
    · exact arranged
    · rename_i new_path published_core isPublished
      unfold publishNewNote at isPublished
      obtain ⟨path, -, isPublished⟩ := bind_eq_ok.mp isPublished
      obtain ⟨⟨⟩, -, isPublished⟩ := bind_eq_ok.mp isPublished
      obtain ⟨core', published, isPublished⟩ := bind_eq_ok.mp isPublished
      cases isPublished
      have isArranged : Arranged workspace_id published_core.db :=
        @arranged_publishNote host workspace_id now faults { core with bundle } _ _ _ _ _ arranged wholeId
          (fun arranged recorded => arranged.recordDirectories whole recorded) published
      split
      · exact isArranged.cleared _
      · rename_i opened
        rw [(openCreated_frame opened).1]
        exact isArranged

theorem arranged_createDirectory {path : Text} (arranged : Arranged workspace_id core.db) :
    Arranged workspace_id (createDirectorySerialized host workspace_id core path faults).1.db := by
  unfold createDirectorySerialized
  split
  · exact arranged
  · rename_i directory located
    unfold locateNewDirectory at located
    obtain ⟨directory', normalized, located⟩ := bind_eq_ok.mp located
    split at located
    · cases located
    · obtain ⟨absolute, -, located⟩ := bind_eq_ok.mp located
      split at located
      · cases located
      · cases located
        dsimp only
        split
        · exact arranged
        · split
          · exact arranged
          · exact arranged
          · rename_i recorded
            exact arranged.recordDirectories (whole_of_normalized normalized) recorded

theorem mem_missingDirectoryRows {db : Database} {directory id : Text} :
    id ∈ missingDirectoryRows workspace_id db directory ↔
      id ∈ Database.directoryAncestors directory ∧ id ∉ (db.listing workspace_id).branches := by
  unfold missingDirectoryRows
  rw [List.mem_filter, Bool.not_eq_true', ← Bool.not_eq_true, Database.directoryExists_iff]

/-- Rows that were missing before are taken back, and nothing else of the listing changes. -/
theorem arranged_rollback {db written : Database} {title_lookup_key : Text → Text} {note : IndexedNote}
    (arranged : Arranged workspace_id db) (whole : Whole slash note.concept_id)
    (isWritten : db.writeNoteRows title_lookup_key workspace_id note = some written) :
    Arranged workspace_id
      { (written.removeNoteRows workspace_id note.concept_id).clearDraft workspace_id
          note.concept_id with
        directories := written.directories.delete fun row => row.workspace_id = workspace_id &&
          row.id ∈ missingDirectoryRows workspace_id db (containingDir note.concept_id) } := by
  have isArranged := (arranged.writeNoteRows whole isWritten).cleared note.concept_id
  have branches : ∀ id, (∃ row ∈ (written.directories.delete fun row =>
        row.workspace_id = workspace_id &&
          row.id ∈ missingDirectoryRows workspace_id db (containingDir note.concept_id)),
        row.key = (workspace_id, id)) ↔ id ∈ (db.listing workspace_id).branches := by
    intro id
    have before : id ∈ (written.listing workspace_id).branches ↔ id ∈ (db.listing workspace_id).branches ∨
        id ∈ Database.directoryAncestors (containingDir note.concept_id) := by
      rw [Database.branches_writeNoteRows isWritten]
      rfl
    constructor
    · rintro ⟨row, mem, isKey⟩
      obtain ⟨mem, kept⟩ := Table.mem_delete.mp mem
      obtain ⟨isWorkspace, rfl⟩ := Prod.mk.inj isKey
      rw [decide_eq_true isWorkspace, Bool.true_and, decide_eq_false_iff_not,
        mem_missingDirectoryRows, not_and_or, not_not] at kept
      exact kept.elim (before.mp ⟨row, mem, isKey⟩).resolve_right id
    · intro inside
      obtain ⟨row, mem, isKey⟩ := before.mpr (.inl inside)
      refine ⟨row, Table.mem_delete.mpr ⟨mem, ?_⟩, isKey⟩
      obtain ⟨-, rfl⟩ := Prod.mk.inj isKey
      rw [Bool.and_eq_false_iff, decide_eq_false_iff_not, decide_eq_false_iff_not,
        mem_missingDirectoryRows]
      exact .inr fun missing => missing.2 inside
  have leaves : ∀ id ∈ ((written.removeNoteRows workspace_id note.concept_id).listing
      workspace_id).leaves, id ∈ (db.listing workspace_id).leaves := by
    intro id mem
    obtain ⟨mem, other⟩ := Database.leaves_removeRows.mp mem
    refine ((Database.mem_leaves_writeNoteRows isWritten).mp mem).resolve_left fun same => ?_
    rw [same, decide_eq_false_iff_not] at other
    exact other rfl
  refine ⟨⟨⟨?_, ?_⟩, ?_, ?_, ?_⟩, isArranged.consistent.with_directories _⟩
  · intro id mem level above
    exact (branches level).mpr (arranged.nested.closed.leaves id (leaves id mem) level above)
  · intro id mem level above
    exact (branches level).mpr
      (arranged.nested.closed.branches id ((branches id).mp mem) level above)
  · exact fun id mem => arranged.nested.wholeNotes id (leaves id mem)
  · exact fun id mem => arranged.nested.wholeDirectories id ((branches id).mp mem)
  · exact fun row mem => isArranged.nested.paths row (Table.mem_delete.mp mem).1

theorem arranged_createLinkTarget {target_id : ConceptId} (arranged : Arranged workspace_id core.db) :
    Arranged workspace_id (createLinkTarget host workspace_id core target_id now faults).1.db := by
  unfold createLinkTarget
  split
  · exact arranged
  · rename_i identity identified
    obtain ⟨directory, title, validDirectory, valid, rfl, rfl⟩ := linkTargetIdentity_iff.mp identified
    have whole : Whole slash (joinId directory title) := by
      refine whole_joinId ?_ valid.whole valid.ne_nil
      exact validDirectory.imp_right fun carried isEmpty => (carried.2 [] isEmpty).1 rfl
    unfold createLinkTargetSerialized
    dsimp only
    split
    · split
      · exact arranged
      · rename_i opened
        rw [(openNoteSerialized_frame opened).1]
        exact arranged
    · split
      · exact arranged
      · split
        · exact arranged
        · split
          · exact arranged
          · rename_i published_core isPublished
            unfold publishLinkTarget at isPublished
            obtain ⟨⟨⟩, -, published⟩ := bind_eq_ok.mp isPublished
            obtain ⟨-, written, db, isWritten, isRecorded, isCore⟩ := publishNote_spec published
            obtain rfl := Option.some.inj isRecorded
            split
            · have rolled := arranged_rollback arranged whole isWritten
              rw [isCore]
              rw [Index.derive_concept_id, containingDir_joinId valid.whole] at rolled
              exact rolled
            · rename_i opened
              rw [(openCreated_frame opened).1, isCore]
              exact arranged.writeNoteRows whole isWritten

/-! ## Deleting -/

theorem arranged_deleteNote {note_id : ConceptId} (arranged : Arranged workspace_id core.db) :
    Arranged workspace_id (deleteNoteLocked host workspace_id core note_id faults).1.db := by
  unfold deleteNoteLocked
  split
  · exact arranged
  · rename_i deleted
    unfold deleteNoteAt at deleted
    obtain ⟨path, -, deleted⟩ := bind_eq_ok.mp deleted
    split at deleted
    · unfold deleteOrphanedDraft at deleted
      obtain ⟨⟨⟩, -, deleted⟩ := bind_eq_ok.mp deleted
      split at deleted
      · cases deleted
        exact arranged.with_drafts _
      · cases deleted
    · split at deleted
      · cases deleted
      · obtain ⟨⟨⟩, -, deleted⟩ := bind_eq_ok.mp deleted
        obtain ⟨⟨⟩, -, deleted⟩ := bind_eq_ok.mp deleted
        cases deleted
        exact arranged.cleared note_id

/-- No Note elsewhere lies in a directory that `LIKE` takes for one beneath this one. -/
def SparesOthers (workspace_id : WorkspaceId) (db : Database) (directory : Text) : Prop :=
  ∀ id ∈ (db.listing workspace_id).leaves,
    Database.likePrefix (directory ++ [slash]) (containingDir id) = true →
      directory ++ [slash] <+: id

section DeleteDirectory

variable {db : Database} {directory : Text}

theorem likePrefix_iff {start id : Text} :
    Database.likePrefix start id = true ↔ start.map Char.toLower <+: id.map Char.toLower := by
  unfold Database.likePrefix
  exact List.isPrefixOf_iff_prefix

theorem likePrefix_of_start {start id : Text} (isPrefix : start <+: id) :
    Database.likePrefix start id = true :=
  likePrefix_iff.mpr (isPrefix.map _)

theorem likePrefix_mono {start id other : Text} (found : Database.likePrefix start id = true)
    (isPrefix : id <+: other) : Database.likePrefix start other = true :=
  likePrefix_iff.mpr ((likePrefix_iff.mp found).trans (isPrefix.map _))

theorem clearAll_spec (arranged : Arranged workspace_id db) (removed : List ConceptId) :
    let cleared := removed.foldl
      (fun (db : Database) note_id =>
        (db.removeNoteRows workspace_id note_id).clearDraft workspace_id note_id)
      db
    Arranged workspace_id cleared ∧ cleared.directories = db.directories ∧
      ∀ id, id ∈ (cleared.listing workspace_id).leaves ↔
        id ∈ (db.listing workspace_id).leaves ∧ id ∉ removed := by
  induction removed generalizing db with
  | nil => exact ⟨arranged, rfl, fun id => by simp⟩
  | cons first rest ih =>
    obtain ⟨isArranged, sameDirectories, leaves⟩ := ih (arranged.cleared first)
    refine ⟨isArranged, sameDirectories, fun id => (leaves id).trans ?_⟩
    show id ∈ ((db.removeNoteRows workspace_id first).listing workspace_id).leaves ∧ _ ↔ _
    unfold Database.removeNoteRows
    rw [Database.leaves_removeRows, decide_eq_false_iff_not, Prod.mk.injEq, List.mem_cons, not_or,
      and_assoc]
    refine and_congr_right fun _ => and_congr_left fun _ => ?_
    exact ⟨fun apart same => apart ⟨rfl, same⟩, fun apart same => apart same.2⟩

theorem clearDrafts_spec (arranged : Arranged workspace_id db) (orphaned_drafts : List ConceptId) :
    ∃ drafts, orphaned_drafts.foldl (fun db note_id => db.clearDraft workspace_id note_id) db =
      { db with drafts } := by
  induction orphaned_drafts generalizing db with
  | nil => exact ⟨_, rfl⟩
  | cons first rest ih => exact ih (arranged.with_drafts _)

/-- What is left of the listing when a directory is deleted. -/
theorem deleteContents_spec (arranged : Arranged workspace_id db) (orphaned_drafts : List ConceptId) :
    let deleted := deleteContents workspace_id db directory
      (db.noteIdsWithPrefix workspace_id (directory ++ [slash])) orphaned_drafts
    deleted.Consistent ∧ (∀ row ∈ deleted.directories, row.path = row.id) ∧
      (∀ id, id ∈ (deleted.listing workspace_id).leaves ↔
        id ∈ (db.listing workspace_id).leaves ∧ ¬directory ++ [slash] <+: id) ∧
      ∀ id, id ∈ (deleted.listing workspace_id).branches ↔
        id ∈ (db.listing workspace_id).branches ∧ id ≠ directory ∧
          Database.likePrefix (directory ++ [slash]) id = false := by
  obtain ⟨isArranged, sameDirectories, leaves⟩ :=
    clearAll_spec arranged (db.noteIdsWithPrefix workspace_id (directory ++ [slash]))
  dsimp only
  unfold deleteContents
  dsimp only
  obtain ⟨drafts, isDrafts⟩ := clearDrafts_spec isArranged orphaned_drafts
  rw [isDrafts]
  refine ⟨(isArranged.with_drafts drafts).consistent.with_directories _, ?_, ?_, ?_⟩
  · intro row mem
    exact isArranged.nested.paths row (Table.mem_delete.mp mem).1
  · intro id
    refine (leaves id).trans (and_congr_right fun inside => not_congr ?_)
    unfold Database.noteIdsWithPrefix
    rw [mem_withPrefix]
    exact ⟨And.right, fun isPrefix => ⟨Database.mem_leaves_iff.mp inside, isPrefix⟩⟩
  · intro id
    constructor
    · rintro ⟨row, mem, isKey⟩
      obtain ⟨mem, kept⟩ := Table.mem_delete.mp mem
      obtain ⟨isWorkspace, rfl⟩ := Prod.mk.inj isKey
      rw [decide_eq_true isWorkspace, Bool.true_and, Bool.or_eq_false_iff,
        decide_eq_false_iff_not] at kept
      exact ⟨⟨row, sameDirectories ▸ mem, isKey⟩, kept⟩
    · rintro ⟨⟨row, mem, isKey⟩, kept⟩
      refine ⟨row, Table.mem_delete.mpr ⟨sameDirectories.symm ▸ mem, ?_⟩, isKey⟩
      obtain ⟨isWorkspace, rfl⟩ := Prod.mk.inj isKey
      rw [decide_eq_true isWorkspace, Bool.true_and, Bool.or_eq_false_iff, decide_eq_false_iff_not]
      exact kept

/-- A deletion keeps the tree whole exactly where it spares the other directories. -/
theorem ancestorsListed_deleteContents_iff (arranged : Arranged workspace_id db)
    (orphaned_drafts : List ConceptId) :
    (deleteContents workspace_id db directory
        (db.noteIdsWithPrefix workspace_id (directory ++ [slash])) orphaned_drafts).AncestorsListed
          workspace_id ↔ SparesOthers workspace_id db directory := by
  obtain ⟨-, -, leaves, branches⟩ := @deleteContents_spec workspace_id db directory arranged orphaned_drafts
  constructor
  · intro closed id mem found
    by_contra elsewhere
    have nested : containingDir id ≠ [] := by
      intro root
      rw [root, likePrefix_iff] at found
      simp at found
    have above : Above slash (containingDir id) id := above_iff_parent.mpr (.inl ⟨nested, rfl⟩)
    have kept := closed.leaves id ((leaves id).mpr ⟨mem, elsewhere⟩) _ above
    rw [((branches _).mp kept).2.2] at found
    cases found
  · intro spares
    constructor
    · intro id mem level above
      obtain ⟨mem, elsewhere⟩ := (leaves id).mp mem
      refine (branches level).mpr ⟨arranged.nested.closed.leaves id mem level above, ?_, ?_⟩
      · rintro rfl
        exact elsewhere above.2
      · rw [← Bool.not_eq_true]
        intro found
        refine elsewhere (spares id mem ?_)
        rcases above_iff_parent.mp above with ⟨-, rfl⟩ | above
        · exact found
        · exact likePrefix_mono found ((List.prefix_append _ _).trans above.2)
    · intro id mem level above
      obtain ⟨mem, -, unfound⟩ := (branches id).mp mem
      refine (branches level).mpr ⟨arranged.nested.closed.branches id mem level above, ?_, ?_⟩
      · rintro rfl
        rw [likePrefix_of_start above.2] at unfound
        cases unfound
      · rw [← Bool.not_eq_true]
        intro found
        rw [likePrefix_mono found ((List.prefix_append _ _).trans above.2)] at unfound
        cases unfound

end DeleteDirectory

theorem arranged_deleteDirectory {path : Text} (arranged : Arranged workspace_id core.db)
    (spares : SparesOthers workspace_id core.db (trimSlashes path)) :
    Arranged workspace_id (deleteDirectoryLocked host workspace_id core path faults).1.db := by
  unfold deleteDirectoryLocked
  split
  · exact arranged
  · rename_i deleted
    unfold deleteDirectoryAt at deleted
    obtain ⟨directory, normalized, deleted⟩ := bind_eq_ok.mp deleted
    obtain ⟨rfl, -⟩ := normalizeDirectory_eq_ok normalized
    split at deleted
    · cases deleted
    · obtain ⟨absolute, -, deleted⟩ := bind_eq_ok.mp deleted
      dsimp only at deleted
      split at deleted
      · cases deleted
      · split at deleted
        · cases deleted
        · obtain ⟨⟨⟩, -, deleted⟩ := bind_eq_ok.mp deleted
          obtain ⟨⟨⟩, -, deleted⟩ := bind_eq_ok.mp deleted
          cases deleted
          rw [discardSessions_db]
          obtain ⟨consistent, paths, leaves, branches⟩ := @deleteContents_spec workspace_id core.db
            (trimSlashes path) arranged (contents workspace_id core.db (trimSlashes path)).2
          refine ⟨⟨(ancestorsListed_deleteContents_iff arranged _).mpr spares, ?_, ?_, paths⟩,
            consistent⟩
          · exact fun id mem => arranged.nested.wholeNotes id ((leaves id).mp mem).1
          · exact fun id mem => arranged.nested.wholeDirectories id ((branches id).mp mem).1

/-! ## Re-identifying -/

section Reidentifying

variable {db db' : Database} {affected : List Affected} {indexed : List IndexedNote}
  {plan : Reidentify}

theorem arranged_updateLinkTargets (arranged : Arranged workspace_id db) (remap : Remap) :
    let updated := remap.foldl
      (fun (db : Database) renamed => db.updateLinkTargets workspace_id renamed.1 renamed.2) db
    Arranged workspace_id updated ∧ updated.notes = db.notes := by
  induction remap generalizing db with
  | nil => exact ⟨arranged, rfl⟩
  | cons renamed rest ih =>
    have updated : Arranged workspace_id (db.updateLinkTargets workspace_id renamed.1 renamed.2) :=
      ⟨⟨arranged.nested.closed, arranged.nested.wholeNotes, arranged.nested.wholeDirectories,
        arranged.nested.paths⟩, arranged.consistent.updateLinkTargets _ _ _⟩
    exact ih updated

theorem arranged_carryDrafts (arranged : Arranged workspace_id db) (affected : List Affected) :
    Arranged workspace_id (affected.foldl (carryDraft workspace_id now) db) ∧
      (affected.foldl (carryDraft workspace_id now) db).notes = db.notes := by
  induction affected generalizing db with
  | nil => exact ⟨arranged, rfl⟩
  | cons a rest ih =>
    have carried : ∃ drafts, carryDraft workspace_id now db a = { db with drafts } := by
      unfold carryDraft
      split <;> cases a.new_draft <;> exact ⟨_, rfl⟩
    obtain ⟨drafts, isCarried⟩ := carried
    rw [List.foldl_cons, isCarried]
    exact ih (arranged.with_drafts drafts)

theorem removeAll_spec (arranged : Arranged workspace_id db) (affected : List Affected) :
    let removed := affected.foldl
      (fun (db : Database) a => db.removeNoteRows workspace_id a.old_id) db
    Arranged workspace_id removed ∧ ∀ id ∈ (removed.listing workspace_id).leaves,
      id ∈ (db.listing workspace_id).leaves ∧ ∀ a ∈ affected, a.old_id ≠ id := by
  induction affected generalizing db with
  | nil => exact ⟨arranged, fun id mem => ⟨mem, by simp⟩⟩
  | cons a rest ih =>
    obtain ⟨isArranged, leaves⟩ := ih (arranged.removeNoteRows a.old_id)
    refine ⟨isArranged, fun id mem => ?_⟩
    obtain ⟨mem, apart⟩ := leaves id mem
    obtain ⟨mem, other⟩ := Database.leaves_removeRows.mp mem
    rw [decide_eq_false_iff_not] at other
    refine ⟨mem, fun b inside => ?_⟩
    rcases List.mem_cons.mp inside with rfl | inside
    · exact fun same => other (congrArg (Prod.mk workspace_id) same.symm)
    · exact apart b inside

theorem mem_indexedNotes {bundle : Bundle} (isIndexed : indexedNotes host bundle affected = .ok indexed)
    {note : IndexedNote} (mem : note ∈ indexed) : ∃ a ∈ affected, a.new_id = note.concept_id := by
  obtain ⟨a, inside, isDerived⟩ := (mem_of_mapM_eq_ok isIndexed).2 note mem
  obtain ⟨source, -, isDerived⟩ := bind_eq_ok.mp isDerived
  cases isDerived
  exact ⟨a, (List.mem_filter.mp inside).1, rfl⟩

/-- The database before the directory rows are re-keyed. -/
theorem rewriteIndex_stages (arranged : Arranged workspace_id db) {bundle : Bundle}
    (isIndexed : indexedNotes host bundle affected = .ok indexed)
    (whole : ∀ a ∈ affected, Whole slash a.new_id)
    (rewritten : rewriteIndex host workspace_id db plan affected indexed now = some db') :
    ∃ middle, Arranged workspace_id middle ∧
      (∀ id ∈ (middle.listing workspace_id).leaves,
        (id ∈ (db.listing workspace_id).leaves ∧
          ∀ a ∈ affected, a.old_id ≠ a.new_id → a.old_id ≠ id) ∨
        ∃ a ∈ affected, a.new_id = id) ∧
      (match plan.directory_rename with
        | some rename => rekeyDirectories workspace_id middle rename
        | none => some middle) = some db' := by
  unfold rewriteIndex at rewritten
  simp only [Option.bind_eq_bind, Option.bind_eq_some_iff] at rewritten
  obtain ⟨middle, written, rewritten⟩ := rewritten
  obtain ⟨updated, sameNotes⟩ := arranged_updateLinkTargets arranged plan.remap
  obtain ⟨carried, sameNotes'⟩ := @arranged_carryDrafts workspace_id now _ updated affected
  obtain ⟨removed, leaves⟩ :=
    removeAll_spec carried (affected.filter fun a => a.old_id ≠ a.new_id)
  obtain ⟨nested, members⟩ := removed.nested.writeAllNoteRows (fun note mem => by
    obtain ⟨a, inside, same⟩ := mem_indexedNotes isIndexed mem
    exact same ▸ whole a inside) written
  refine ⟨middle, ⟨nested, removed.consistent.writeAllNoteRows written⟩, fun id mem => ?_,
    rewritten⟩
  rcases members id mem with mem | ⟨note, inside, rfl⟩
  · obtain ⟨⟨row, mem, isKey⟩, apart⟩ := leaves id mem
    refine .inl ⟨⟨row, sameNotes ▸ sameNotes' ▸ mem, isKey⟩, fun a inside moves => ?_⟩
    exact apart a (List.mem_filter.mpr ⟨inside, decide_eq_true moves⟩)
  · obtain ⟨a, inside, same⟩ := mem_indexedNotes isIndexed inside
    exact .inr ⟨a, inside, same⟩

theorem moved_eq_some_iff {rename : DirectoryRename} {id target : Text} :
    rename.moved id = some target ↔ Renamed slash rename.old rename.new id target := by
  rw [renamed_iff]
  unfold DirectoryRename.moved
  split
  · rename_i isOld
    rw [Option.some.injEq]
    constructor
    · exact fun same => .inl ⟨isOld, same.symm⟩
    · rintro (⟨-, same⟩ | ⟨rest, beneath, -⟩)
      · exact same.symm
      · have length := congrArg List.length (isOld.symm.trans beneath)
        simp at length
  · rename_i notOld
    constructor
    · intro found
      obtain ⟨rest, isRest, rfl⟩ := Option.map_eq_some_iff.mp found
      obtain ⟨start, rfl, same⟩ := List.dropPrefix?_eq_some_iff.mp isRest
      refine .inr ⟨rest, ?_, rfl⟩
      rw [eq_of_beq same, List.append_assoc, List.singleton_append]
    · rintro (⟨isOld, -⟩ | ⟨rest, rfl, rfl⟩)
      · exact absurd isOld notOld
      · rw [dropPrefix?_beneath, Option.map_some]

theorem mem_branches_delete {first id : Text} :
    id ∈ (Database.listing { db with
        directories := db.directories.delete fun row => row.key = (workspace_id, first) }
          workspace_id).branches ↔ id ∈ (db.listing workspace_id).branches ∧ id ≠ first := by
  constructor
  · rintro ⟨row, mem, isKey⟩
    obtain ⟨mem, other⟩ := Table.mem_delete.mp mem
    refine ⟨⟨row, mem, isKey⟩, fun same => ?_⟩
    rw [decide_eq_false_iff_not] at other
    exact other (same ▸ isKey)
  · rintro ⟨⟨row, mem, isKey⟩, other⟩
    refine ⟨row, Table.mem_delete.mpr ⟨mem, ?_⟩, isKey⟩
    rw [decide_eq_false_iff_not, isKey]
    exact fun same => other (congrArg Prod.snd same)

/-- One row after the other goes to its new name. -/
theorem rekeyRows_spec {rename : DirectoryRename} {existing : List Text}
    (apart : ∀ {id target}, rename.moved id = some target → rename.moved target = none)
    (rekeyed : existing.foldlM
      (fun (db : Database) id =>
        match rename.moved id with
        | none => some db
        | some moved =>
            Database.insertDirectory
              { db with
                directories := db.directories.delete fun row => row.key = (workspace_id, id) }
              workspace_id moved)
      db = some db') :
    (∃ directories, db' = { db with directories }) ∧
      ((∀ row ∈ db.directories, row.path = row.id) → ∀ row ∈ db'.directories, row.path = row.id) ∧
      ∀ id, id ∈ (db'.listing workspace_id).branches ↔
        (id ∈ (db.listing workspace_id).branches ∧ (id ∈ existing → rename.moved id = none)) ∨
          ∃ source ∈ existing, rename.moved source = some id := by
  induction existing generalizing db with
  | nil =>
    obtain rfl := Option.some.inj rekeyed
    exact ⟨⟨_, rfl⟩, id, fun id => by simp⟩
  | cons first rest ih =>
    rw [List.foldlM_cons, Option.bind_eq_bind, Option.bind_eq_some_iff] at rekeyed
    obtain ⟨middle, step, rekeyed⟩ := rekeyed
    obtain ⟨⟨directories, rfl⟩, paths, branches⟩ := ih rekeyed
    cases isMoved : rename.moved first with
    | none =>
      rw [isMoved] at step
      obtain rfl := Option.some.inj step
      refine ⟨⟨_, rfl⟩, paths, fun id => (branches id).trans ?_⟩
      have here : id = first → rename.moved id = none := fun same => same ▸ isMoved
      simp only [List.mem_cons, exists_eq_or_imp, isMoved, reduceCtorEq, false_or]
      tauto
    | some target =>
      rw [isMoved] at step
      obtain rfl := Database.insertDirectory_spec step
      refine ⟨⟨_, rfl⟩, fun each => paths fun row mem => ?_, fun id => (branches id).trans ?_⟩
      · rcases Table.mem_insertOrIgnore.mp mem with mem | ⟨rfl, -⟩
        · exact each row (Table.mem_delete.mp mem).1
        · rfl
      · have stepped : id ∈ (Database.listing { db with
            directories := (db.directories.delete fun row => row.key = (workspace_id, first)
              ).insertOrIgnore ⟨target, workspace_id, target⟩ } workspace_id).branches ↔
            (id ∈ (db.listing workspace_id).branches ∧ id ≠ first) ∨ id = target := by
          refine (@Database.mem_branches_insertOrIgnore { db with
            directories := db.directories.delete fun row => row.key = (workspace_id, first) }
              workspace_id target id).trans (or_congr_left ?_)
          exact mem_branches_delete
        have settled : id = target → rename.moved id = none := fun same => same ▸ apart isMoved
        have leaves : id = first → rename.moved id ≠ none := fun same => by simp [same, isMoved]
        rw [stepped]
        simp only [List.mem_cons, exists_eq_or_imp, isMoved, Option.some.injEq]
        have turned : target = id ↔ id = target := eq_comm
        rw [turned]
        constructor
        · rintro (⟨⟨mem, other⟩ | isTarget, kept⟩ | later)
          · exact .inl ⟨mem, fun inside => kept (inside.resolve_left other)⟩
          · exact .inr (.inl isTarget)
          · exact .inr (.inr later)
        · rintro (⟨mem, kept⟩ | isTarget | later)
          · exact .inl ⟨.inl ⟨mem, fun same => leaves same (kept (.inl same))⟩,
              fun inside => kept (.inr inside)⟩
          · exact .inl ⟨.inr isTarget, fun _ => settled isTarget⟩
          · exact .inr later

theorem arranged_rekeyDirectories {rename : DirectoryRename} (arranged : Arranged workspace_id db)
    (whole : Whole slash rename.old) (wholeNew : Whole slash rename.new)
    (apart : ∀ {id target}, rename.moved id = some target → rename.moved target = none)
    (leaves : ∀ id ∈ (db.listing workspace_id).leaves, ¬Above slash rename.old id)
    (rekeyed : rekeyDirectories workspace_id db rename = some db') : Arranged workspace_id db' := by
  unfold rekeyDirectories at rekeyed
  simp only [Option.bind_eq_bind, Option.bind_eq_some_iff] at rekeyed
  obtain ⟨middle, folded, recorded⟩ := rekeyed
  obtain ⟨⟨directories, rfl⟩, paths, branches⟩ := rekeyRows_spec apart folded
  have records := Database.records_recordDirectories recorded
  have isListing : db'.listing workspace_id =
      (db.listing workspace_id).rename slash rename.old rename.new := by
    rw [records.listing]
    ext id
    · rfl
    · have above : id ∈ Database.directoryAncestors rename.new ↔
          id = rename.new ∨ Above slash id rename.new := by
        rw [Database.directoryAncestors_eq]
        exact mem_ancestors wholeNew
      show id ∈ (Database.listing { db with directories } workspace_id).branches ∨
        id ∈ Database.directoryAncestors rename.new ↔ _
      rw [above, branches id]
      refine or_congr_left (or_congr ?_ ?_)
      · rw [← Database.mem_branches_iff]
        refine and_congr_right fun mem => ?_
        rw [Option.eq_none_iff_forall_ne_some]
        simp only [mem, true_implies, ne_eq, moved_eq_some_iff]
      · refine exists_congr fun source => and_congr Database.mem_branches_iff.symm moved_eq_some_iff
  refine ⟨⟨?_, ?_, ?_, records.paths (paths arranged.nested.paths)⟩, ?_⟩
  · rw [Database.AncestorsListed, isListing]
    exact arranged.nested.closed.rename whole leaves arranged.nested.wholeDirectories wholeNew
  · rw [isListing]
    exact arranged.nested.wholeNotes
  · rw [isListing]
    exact Listing.whole_rename arranged.nested.wholeDirectories wholeNew
  · obtain ⟨directories', rfl⟩ := records.frame
    exact (arranged.consistent.with_directories _).with_directories _

/-- Nothing is moved to where it would be moved again. -/
theorem moved_apart {directory name : Text} {old_absolute new_absolute : Path}
    (whole : Whole slash directory) (plain : slash ∉ name)
    (moves : joinId (containingDir directory) name ≠ directory) {id target : Text}
    (isMoved : DirectoryRename.moved
      ⟨directory, joinId (containingDir directory) name, old_absolute, new_absolute⟩ id = some target) :
    DirectoryRename.moved
      ⟨directory, joinId (containingDir directory) name, old_absolute, new_absolute⟩ target = none := by
  have segments : (joinId (containingDir directory) name).splitOn slash =
      (directory.splitOn slash).dropLast ++ [name] := splitOn_sibling whole plain
  have positive := List.length_pos_of_ne_nil (List.splitOn_ne_nil slash directory)
  rw [Option.eq_none_iff_forall_ne_some]
  intro again isAgain
  rw [moved_eq_some_iff, renamed_iff] at isMoved isAgain
  dsimp only at isMoved isAgain
  rcases isMoved with ⟨-, rfl⟩ | ⟨rest, -, rfl⟩
  · rcases isAgain with ⟨same, -⟩ | ⟨rest, beneath, -⟩
    · exact moves same
    · refine @sibling_apart directory name [] whole plain moves ?_
      rw [beneath]
      exact ⟨rest ++ [slash], by simp⟩
  · rcases isAgain with ⟨same, -⟩ | ⟨rest', beneath, -⟩
    · have split := congrArg (fun text : Text => (text.splitOn slash).length) same
      have longer := List.length_pos_of_ne_nil (List.splitOn_ne_nil slash rest)
      simp only [List.splitOn_append_cons_self, segments, List.length_append, List.length_dropLast,
        List.length_singleton] at split
      omega
    · exact sibling_apart whole plain moves ⟨rest', by rw [beneath]; simp⟩

/-! ### Whole plans -/

/-- No open Note and no drafts row goes by an id with an empty segment. -/
structure Spelled (workspace_id : WorkspaceId) (core : Core) : Prop where
  sessions : ∀ session ∈ core.sessions, Whole slash session.note_id
  drafts : ∀ draft ∈ core.db.drafts, draft.workspace_id = workspace_id → Whole slash draft.note_id

theorem mem_leaves_of_linkSource (arranged : Arranged workspace_id db) {id target : ConceptId}
    (mem : id ∈ db.linkSources workspace_id target) : id ∈ (db.listing workspace_id).leaves := by
  unfold Database.linkSources at mem
  obtain ⟨link, inside, rfl⟩ := List.mem_map.mp (List.mem_dedup.mp mem)
  obtain ⟨inside, own⟩ := List.mem_filter.mp inside
  rw [Bool.and_eq_true, decide_eq_true_eq] at own
  obtain ⟨note, found, isKey⟩ := arranged.consistent.source_of_link link inside
  refine ⟨note, found, isKey.trans ?_⟩
  rw [Index.LinkRow.source, own.1]

theorem whole_candidate (arranged : Arranged workspace_id core.db) (spelled : Spelled workspace_id core)
    (targets : ∀ id ∈ plan.targets, Whole slash id) {id : ConceptId}
    (mem : id ∈ plan.candidates workspace_id core) : Whole slash id := by
  rcases mem_candidates.mp mem with mem | ⟨renamed, -, mem⟩ | drafted | opened
  · exact targets id mem
  · exact arranged.nested.wholeNotes id (mem_leaves_of_linkSource arranged mem)
  · obtain ⟨row, found⟩ := Option.isSome_iff_exists.mp drafted
    obtain ⟨inside, isKey⟩ := Table.find?_eq_some_iff.mp found
    obtain ⟨isWorkspace, rfl⟩ := Prod.mk.inj isKey
    exact spelled.drafts row inside isWorkspace
  · obtain ⟨session, found⟩ := Option.isSome_iff_exists.mp opened
    obtain ⟨inside, rfl⟩ := Table.find?_eq_some_iff.mp found
    exact spelled.sessions session inside

/-- What a plan for Notes, or the first part of one for a Directory, leaves. -/
theorem applyReidentify_stages {effects : LifecycleEffects} (arranged : Arranged workspace_id core.db)
    (spelled : Spelled workspace_id core) (targets : ∀ id ∈ plan.targets, Whole slash id)
    (remap : ∀ renamed ∈ plan.remap, Whole slash renamed.2)
    (applied : applyReidentify host workspace_id core plan now faults = .ok (effects, core')) :
    ∃ affected middle, Plans host workspace_id plan core affected ∧
      plan.planAffected host workspace_id core = .ok affected ∧ Arranged workspace_id middle ∧
      (∀ id ∈ (middle.listing workspace_id).leaves,
        (id ∈ (core.db.listing workspace_id).leaves ∧
          ∀ a ∈ affected, a.old_id ≠ a.new_id → a.old_id ≠ id) ∨
        ∃ a ∈ affected, a.new_id = id) ∧
      (match plan.directory_rename with
        | some rename => rekeyDirectories workspace_id middle rename
        | none => some middle) = some core'.db := by
  unfold applyReidentify at applied
  obtain ⟨affected, planned, applied⟩ := bind_eq_ok.mp applied
  obtain ⟨-, -, applied⟩ := bind_eq_ok.mp applied
  obtain ⟨indexed, isIndexed, applied⟩ := bind_eq_ok.mp applied
  obtain ⟨-, -, applied⟩ := bind_eq_ok.mp applied
  split at applied
  · cases applied
  · rename_i db published
    cases applied
    have plans := planAffected_spec planned
    have whole : ∀ a ∈ affected, Whole slash a.new_id := by
      intro a mem
      obtain ⟨candidate, disk, affects⟩ := plans.affects a mem
      rw [affects.new_id, Reidentify.newId]
      cases found : plan.remap.lookup a.old_id with
      | none => exact whole_candidate arranged spelled targets candidate
      | some new_id => exact remap _ (mem_of_lookup found)
    obtain ⟨middle, isArranged, leaves, rekeyed⟩ :=
      rewriteIndex_stages arranged isIndexed whole published
    refine ⟨affected, middle, plans, planned, isArranged, leaves, ?_⟩
    rw [carrySessions_frame.2]
    exact rekeyed

/-- A Note that is to be renamed and has no file fails the whole plan. -/
theorem exists_affected (planned : plan.planAffected host workspace_id core = .ok affected)
    {id : ConceptId} (target : (plan.remap.lookup id).isSome) (filed : id ∉ plan.file_less)
    (moves : plan.newId id ≠ id) : ∃ a ∈ affected, a.old_id = id := by
  have plans := planAffected_spec planned
  obtain ⟨new_id, found⟩ := Option.isSome_iff_exists.mp target
  have isTarget : id ∈ plan.targets :=
    List.mem_append_left _ (List.mem_map.mpr ⟨(id, new_id), mem_of_lookup found, rfl⟩)
  have candidate : id ∈ plan.candidates workspace_id core := mem_candidates.mpr (.inl isTarget)
  rcases plans.spared id candidate with affected | spared
  · exact affected
  · cases spared with
    | unresolved error refused bystander => exact absurd isTarget bystander
    | absent paths resolves disk draft session =>
      obtain ⟨results, mapped, -⟩ := map_eq_ok.mp planned
      obtain ⟨result, -, isAffect⟩ := (mem_of_mapM_eq_ok mapped).1 id candidate
      unfold Reidentify.affect at isAffect
      rw [resolves] at isAffect
      dsimp only at isAffect
      rw [disk] at isAffect
      replace isAffect := bind_eq_ok.mp isAffect
      obtain ⟨disk', isDisk, isAffect⟩ := isAffect
      cases isDisk
      rw [if_pos (by simp [target, filed])] at isAffect
      cases isAffect
    | unchanged paths disk resolves read file buffer draft kept => exact absurd kept moves

end Reidentifying

theorem arranged_reidentifyNote {note_id : ConceptId}
    {planned : Except AppError (ConceptId × Reidentify)} (arranged : Arranged workspace_id core.db)
    (spelled : Spelled workspace_id core) (whole : Whole slash note_id)
    (single : ∀ new_id plan, planned = .ok (new_id, plan) → Whole slash new_id ∧
      plan.remap = singleRemap note_id new_id ∧ plan.directory_rename = none ∧
        ∀ retitled, plan.retitled = some retitled → retitled.1 = note_id) :
    Arranged workspace_id (reidentifyNote host workspace_id core now faults planned).1.db := by
  unfold reidentifyNote
  split
  · exact arranged
  · rename_i new_id plan
    obtain ⟨wholeNew, isRemap, noRename, titled⟩ := single new_id plan rfl
    split
    · exact arranged
    · rename_i effects core' applied
      have renames : ∀ renamed ∈ plan.remap, renamed = (note_id, new_id) := by
        intro renamed mem
        rw [isRemap, singleRemap] at mem
        split at mem
        · cases mem
        · exact List.mem_singleton.mp mem
      have targets : ∀ id ∈ plan.targets, Whole slash id := by
        intro id mem
        rcases List.mem_append.mp mem with mem | mem
        · obtain ⟨renamed, inside, rfl⟩ := List.mem_map.mp mem
          rw [renames renamed inside]
          exact whole
        · obtain ⟨retitled, inside, rfl⟩ := List.mem_map.mp mem
          rw [titled retitled (Option.mem_toList.mp inside)]
          exact whole
      obtain ⟨affected, middle, -, -, isArranged, -, isMiddle⟩ :=
        applyReidentify_stages arranged spelled targets
          (fun renamed mem => by rw [renames renamed mem]; exact wholeNew) applied
      rw [noRename] at isMiddle
      show Arranged workspace_id core'.db
      rw [← Option.some.inj isMiddle]
      exact isArranged

theorem arranged_renameNote {note_id : ConceptId} {new_title : Text}
    (arranged : Arranged workspace_id core.db) (spelled : Spelled workspace_id core)
    (whole : Whole slash note_id) :
    Arranged workspace_id
      (renameNoteSerialized host workspace_id core note_id new_title now faults).1.db := by
  refine arranged_reidentifyNote arranged spelled whole fun new_id plan isPlanned => ?_
  obtain ⟨old_path, new_path, valid, -, -, rfl, -, -, rfl⟩ := planRename_spec isPlanned
  refine ⟨whole_joinId_title (Database.whole_containingDir whole) valid, rfl, rfl, ?_⟩
  rintro retitled ⟨⟩
  rfl

theorem fileStem_spec {note_id : ConceptId} (whole : Whole slash note_id) :
    slash ∉ fileStem note_id ∧ fileStem note_id ≠ [] := by
  refine ⟨not_mem_lastSegment, fun isEmpty => whole ?_⟩
  rw [splitOn_eq_dropLast_append]
  have isLast : lastSegment slash note_id = [] := isEmpty
  rw [isLast]
  exact List.mem_append_right _ (List.mem_singleton_self _)

theorem arranged_moveNote {note_id : ConceptId} {new_directory_path : Text}
    (arranged : Arranged workspace_id core.db) (spelled : Spelled workspace_id core)
    (whole : Whole slash note_id) :
    Arranged workspace_id
      (moveNoteSerialized host workspace_id core note_id new_directory_path now faults).1.db := by
  unfold moveNoteSerialized
  split
  · exact arranged
  · rename_i old_path directory bundle located
    obtain ⟨-, -, normalized, -⟩ := locateMove_spec located
    refine @arranged_reidentifyNote host workspace_id now faults { core with bundle } _ _ arranged
      ⟨spelled.sessions, spelled.drafts⟩ whole fun new_id plan isPlanned => ?_
    obtain ⟨new_path, rfl, -, -, rfl⟩ := planMove_spec isPlanned
    obtain ⟨plain, nonempty⟩ := fileStem_spec whole
    refine ⟨whole_joinId (whole_of_normalized normalized) plain nonempty, rfl, rfl, ?_⟩
    rintro retitled ⟨⟩

/-- Every open Note in the directory is known to the index or to the drafts. -/
def KnowsOpenNotes (workspace_id : WorkspaceId) (core : Core) (directory : Text) : Prop :=
  ∀ session ∈ core.sessions, directory ++ [slash] <+: session.note_id →
    session.note_id ∈ (core.db.listing workspace_id).leaves ∨
      core.db.draftExists workspace_id session.note_id = true

theorem mem_contents_of_leaf {db : Database} {directory : Text} {id : ConceptId}
    (mem : id ∈ (db.listing workspace_id).leaves) (beneath : directory ++ [slash] <+: id) :
    id ∈ (contents workspace_id db directory).1 := mem_withPrefix.mpr ⟨Database.mem_leaves_iff.mp mem, beneath⟩

theorem mem_contents_of_draft {db : Database} {directory : Text} {id : ConceptId}
    (drafted : (db.readDraft workspace_id id).isSome) (beneath : directory ++ [slash] <+: id) :
    id ∈ (contents workspace_id db directory).1 ++ (contents workspace_id db directory).2 := by
  obtain ⟨row, found⟩ := Option.isSome_iff_exists.mp drafted
  obtain ⟨inside, isKey⟩ := Table.find?_eq_some_iff.mp found
  obtain ⟨isWorkspace, rfl⟩ := Prod.mk.inj isKey
  refine mem_contents.mpr ⟨.inr ?_, beneath⟩
  exact List.mem_map_of_mem (List.mem_filter.mpr ⟨inside, decide_eq_true isWorkspace⟩)

section RenameDirectory

variable {path new_name directory : Text} {plan : Reidentify}

/-- What is in the directory goes by a new id. -/
theorem DirectoryPlan.moves_beneath
    (planned : DirectoryPlan host workspace_id core path new_name directory plan) {id : ConceptId}
    (mem : id ∈ (contents workspace_id core.db directory).1 ++
      (contents workspace_id core.db directory).2) :
    (plan.remap.lookup id).isSome ∧ ¬directory ++ [slash] <+: plan.newId id := by
  obtain ⟨rest, shape⟩ := (mem_contents.mp mem).2
  rw [List.append_assoc, List.singleton_append] at shape
  have found := planned.lookup_iff.mpr ⟨mem, rest, shape.symm, rfl⟩
  refine ⟨by rw [found]; rfl, ?_⟩
  rw [Reidentify.newId, found, Option.getD_some]
  exact sibling_apart planned.whole.2 (validateSegment_eq_ok planned.valid).2.2.1 planned.moves

/-- No Note stays behind in a renamed directory. -/
theorem DirectoryPlan.leaves_nothing
    (planned : DirectoryPlan host workspace_id core path new_name directory plan)
    (arranged : Arranged workspace_id core.db) (known : KnowsOpenNotes workspace_id core directory)
    {affected : List Affected} (plans : Plans host workspace_id plan core affected)
    (isAffected : plan.planAffected host workspace_id core = .ok affected) {id : ConceptId}
    (mem : (id ∈ (core.db.listing workspace_id).leaves ∧
        ∀ a ∈ affected, a.old_id ≠ a.new_id → a.old_id ≠ id) ∨ ∃ a ∈ affected, a.new_id = id) :
    ¬directory ++ [slash] <+: id := by
  intro beneath
  rcases mem with ⟨mem, apart⟩ | ⟨a, inside, rfl⟩
  · have listed := mem_contents_of_leaf mem beneath
    obtain ⟨target, elsewhere⟩ := planned.moves_beneath (List.mem_append_left _ listed)
    have moves : plan.newId id ≠ id := fun same => elsewhere (same.symm ▸ beneath)
    have filed : id ∉ plan.file_less := by
      rw [planned.file_less]
      intro orphaned
      exact of_decide_eq_true (List.mem_filter.mp orphaned).2 listed
    obtain ⟨a, inside, rfl⟩ := exists_affected isAffected target filed moves
    obtain ⟨-, disk, affects⟩ := plans.affects a inside
    exact apart a inside (affects.new_id ▸ moves.symm) rfl
  · obtain ⟨candidate, disk, affects⟩ := plans.affects a inside
    rw [affects.new_id] at beneath
    -- An id that keeps its name was in the directory before, and so would have moved.
    have stays : plan.newId a.old_id = a.old_id := by
      rw [Reidentify.newId]
      cases found : plan.remap.lookup a.old_id with
      | none => rfl
      | some new_id =>
        have moved := (planned.moves_beneath (planned.lookup_iff.mp found).1).2
        exact absurd beneath moved
    rw [stays] at beneath
    have listed : a.old_id ∈ (contents workspace_id core.db directory).1 ++
        (contents workspace_id core.db directory).2 := by
      rcases mem_candidates.mp candidate with target | ⟨renamed, -, source⟩ | drafted | opened
      · rcases List.mem_append.mp target with target | target
        · rw [planned.remap, directoryRemap] at target
          obtain ⟨renamed, isRenamed, same⟩ := List.mem_map.mp target
          obtain ⟨id, listed, rfl⟩ := List.mem_map.mp isRenamed
          rw [← same]
          exact (List.mem_insertionSort _).mp listed
        · rw [planned.plain.2.1] at target
          cases target
      · exact List.mem_append_left _
          (mem_contents_of_leaf (mem_leaves_of_linkSource arranged source) beneath)
      · exact mem_contents_of_draft drafted beneath
      · obtain ⟨session, found⟩ := Option.isSome_iff_exists.mp opened
        obtain ⟨inside, isId⟩ := Table.find?_eq_some_iff.mp found
        rw [← isId] at beneath ⊢
        rcases known session inside beneath with leaf | drafted
        · exact List.mem_append_left _ (mem_contents_of_leaf leaf beneath)
        · exact mem_contents_of_draft drafted beneath
    exact (planned.moves_beneath listed).2 (stays.symm ▸ beneath)

end RenameDirectory

theorem arranged_renameDirectory {path new_name : Text} (arranged : Arranged workspace_id core.db)
    (spelled : Spelled workspace_id core)
    (known : KnowsOpenNotes workspace_id core (trimSlashes path)) :
    Arranged workspace_id
      (renameDirectorySerialized host workspace_id core path new_name now faults).1.db := by
  unfold renameDirectorySerialized
  split
  · exact arranged
  · exact arranged
  · rename_i plan isPlanned
    obtain ⟨directory, -, isPlan⟩ := planDirectoryRename_spec isPlanned
    obtain ⟨isNone, -⟩ | ⟨plan', isSome, planned⟩ := isPlan
    · cases isNone
    · cases isSome
      obtain ⟨rfl, whole⟩ := planned.whole
      obtain ⟨nonempty, -, plain, -⟩ := validateSegment_eq_ok planned.valid
      have wholeNew : Whole slash (joinId (containingDir (trimSlashes path)) new_name) :=
        whole_joinId (Database.whole_containingDir whole) plain nonempty
      split
      · exact arranged
      · rename_i effects core' applied
        have inside : ∀ id ∈ (contents workspace_id core.db (trimSlashes path)).1 ++
            (contents workspace_id core.db (trimSlashes path)).2, Whole slash id := by
          intro id mem
          rcases (mem_contents.mp mem).1 with mem | mem
          · exact arranged.nested.wholeNotes id (Database.mem_leaves_iff.mpr mem)
          · obtain ⟨draft, listed, rfl⟩ := List.mem_map.mp mem
            obtain ⟨listed, own⟩ := List.mem_filter.mp listed
            exact spelled.drafts draft listed (of_decide_eq_true own)
        have targets : ∀ id ∈ plan.targets, Whole slash id := by
          intro id mem
          unfold Reidentify.targets at mem
          rw [planned.plain.2.1, planned.remap, directoryRemap] at mem
          simp only [Option.toList_none, List.map_nil, List.append_nil, List.mem_map,
            List.mem_insertionSort] at mem
          obtain ⟨renamed, ⟨id, mem, rfl⟩, rfl⟩ := mem
          exact inside id mem
        have remap : ∀ renamed ∈ plan.remap, Whole slash renamed.2 := by
          intro renamed mem
          rw [planned.remap, directoryRemap] at mem
          obtain ⟨id, isRenamed, rfl⟩ := List.mem_map.mp mem
          have listed := (List.mem_insertionSort _).mp isRenamed
          obtain ⟨rest, shape⟩ := (mem_contents.mp listed).2
          have wholeId := inside id listed
          rw [List.append_assoc, List.singleton_append] at shape
          dsimp only
          rw [← shape] at wholeId ⊢
          rw [dropPrefix?_beneath]
          exact whole_append_cons_iff.mpr ⟨wholeNew, (whole_append_cons_iff.mp wholeId).2⟩
        obtain ⟨affected, middle, plans, isAffected, isArranged, leaves, isMiddle⟩ :=
          applyReidentify_stages arranged spelled targets remap applied
        obtain ⟨old_absolute, new_absolute, -, -, -, -, isRename⟩ := planned.renames
        rw [isRename] at isMiddle
        refine @arranged_rekeyDirectories workspace_id _ _
          ⟨trimSlashes path, _, old_absolute, new_absolute⟩ isArranged whole wholeNew (moved_apart whole plain planned.moves)
          (fun id mem above => ?_) isMiddle
        exact planned.leaves_nothing arranged known plans isAffected (leaves id mem) above.2

/-! ## Runs -/

inductive Indexing where
  /-- The index is rebuilt from what a walk finds. -/
  | rebuild (walked : {bundle : Bundle // Rooted bundle})
  | write (note_id : ConceptId) (contents : FileBytes) (modified : Int)
  | operate (op : Operation) (now : Int) (faults : LifecycleFaults)
  /-- Other programs change the files, and Notes are opened, edited and closed. -/
  | others (bundle : Bundle) (sessions : Table NoteSession.note_id) (drafts : Table DraftRow.key)

/-- A transaction that fails leaves the database as it was. -/
def Core.stepIndex (host : Host) (workspace_id : WorkspaceId) (core : Core) : Indexing → Option Core
  | .rebuild walked =>
      some { core with
        db := (core.db.writeScannedBundle host.title_lookup_key workspace_id
          (scanBundle host walked)).getD core.db }
  | .write note_id contents modified =>
      some { core with
        db := (core.db.writeNoteRows host.title_lookup_key workspace_id
          (derive host note_id contents modified)).getD core.db }
  | .operate op now faults => some (op.perform host workspace_id core now faults).1
  | .others bundle sessions drafts => some ⟨bundle, { core.db with drafts }, sessions⟩

/-- The steps that no row is lost by. -/
def KeepsRows (workspace_id : WorkspaceId) (core : Core) : Indexing → Prop
  | .write note_id _ _ => Whole slash note_id
  | .operate (.renameNote note_id _) _ _ => Spelled workspace_id core ∧ Whole slash note_id
  | .operate (.moveNote note_id _) _ _ => Spelled workspace_id core ∧ Whole slash note_id
  | .operate (.renameDirectory path _) _ _ =>
      Spelled workspace_id core ∧ KnowsOpenNotes workspace_id core (trimSlashes path)
  | .operate (.deleteDirectory path) _ _ => SparesOthers workspace_id core.db (trimSlashes path)
  | _ => True

instance (db : Database) (directory : Text) : Decidable (SparesOthers workspace_id db directory) :=
  decidable_of_iff (∀ id ∈ (db.notes.rows.filter fun note => note.workspace_id = workspace_id).map
      Index.NoteRow.id, Database.likePrefix (directory ++ [slash]) (containingDir id) = true →
        directory ++ [slash] <+: id)
    (forall_congr' fun _ => imp_congr_left Database.mem_leaves_iff.symm)

instance (core : Core) (directory : Text) : Decidable (KnowsOpenNotes workspace_id core directory) :=
  decidable_of_iff (∀ session ∈ core.sessions.rows, directory ++ [slash] <+: session.note_id →
      session.note_id ∈ (core.db.notes.rows.filter fun note => note.workspace_id = workspace_id).map
          Index.NoteRow.id ∨
        core.db.draftExists workspace_id session.note_id = true)
    (forall_congr' fun _ => imp_congr_right fun _ => imp_congr_right fun _ =>
      or_congr_left Database.mem_leaves_iff.symm)

instance (core : Core) : Decidable (Spelled workspace_id core) :=
  decidable_of_iff ((∀ session ∈ core.sessions.rows, Whole slash session.note_id) ∧
      ∀ draft ∈ core.db.drafts.rows, draft.workspace_id = workspace_id → Whole slash draft.note_id)
    ⟨fun both => ⟨both.1, both.2⟩, fun spelled => ⟨spelled.sessions, spelled.drafts⟩⟩

instance : ∀ (core : Core) (event : Indexing), Decidable (KeepsRows workspace_id core event)
  | _, .write note_id _ _ => inferInstanceAs (Decidable (Whole slash note_id))
  | core, .operate (.renameNote note_id _) _ _ | core, .operate (.moveNote note_id _) _ _ =>
      inferInstanceAs (Decidable (Spelled workspace_id core ∧ Whole slash note_id))
  | core, .operate (.renameDirectory path _) _ _ =>
      inferInstanceAs (Decidable (Spelled workspace_id core ∧
        KnowsOpenNotes workspace_id core (trimSlashes path)))
  | core, .operate (.deleteDirectory path) _ _ =>
      inferInstanceAs (Decidable (SparesOthers workspace_id core.db (trimSlashes path)))
  | _, .operate (.createNote _ _) _ _ | _, .operate (.createLinkTarget _) _ _
  | _, .operate (.createDirectory _) _ _ | _, .operate (.deleteNote _) _ _
  | _, .rebuild _ | _, .others _ _ _ => inferInstanceAs (Decidable True)

/-- The tree that the index holds: closed, and shown with every Note in its place. -/
structure TreeWhole (workspace_id : WorkspaceId) (db : Database) : Prop where
  ancestors : db.AncestorsListed workspace_id
  shown : ∀ to_lowercase, ∃ fuel tree,
    (∀ more, fuel < more → db.workspaceTree to_lowercase workspace_id more = some tree) ∧
      (locatedAll [] tree).Perm ((db.noteEntries workspace_id).map NoteEntry.place)

theorem arranged_operate {op : Operation} (arranged : Arranged workspace_id core.db)
    (keeps : KeepsRows workspace_id core (.operate op now faults)) :
    Arranged workspace_id (op.perform host workspace_id core now faults).1.db := by
  cases op with
  | createNote directory_path title => exact arranged_createNote arranged
  | createLinkTarget target_id => exact arranged_createLinkTarget arranged
  | createDirectory path => exact arranged_createDirectory arranged
  | renameNote note_id new_title => exact arranged_renameNote arranged keeps.1 keeps.2
  | moveNote note_id new_directory_path => exact arranged_moveNote arranged keeps.1 keeps.2
  | renameDirectory path new_name => exact arranged_renameDirectory arranged keeps.1 keeps.2
  | deleteNote note_id => exact arranged_deleteNote arranged
  | deleteDirectory path => exact arranged_deleteDirectory arranged keeps

theorem Arranged.step {event : Indexing} (arranged : Arranged workspace_id core.db)
    (keeps : KeepsRows workspace_id core event)
    (stepped : core.stepIndex host workspace_id event = some core') :
    Arranged workspace_id core'.db := by
  cases event with
  | rebuild walked =>
    cases stepped
    dsimp only
    cases written : core.db.writeScannedBundle host.title_lookup_key workspace_id
        (scanBundle host walked) with
    | none => exact arranged
    | some db => exact arranged.writeScannedBundle (closedScan_scanBundle walked.2) written
  | write note_id contents modified =>
    cases stepped
    dsimp only
    cases written : core.db.writeNoteRows host.title_lookup_key workspace_id
        (derive host note_id contents modified) with
    | none => exact arranged
    | some db =>
      have whole : Whole slash (derive host note_id contents modified).concept_id := keeps
      exact arranged.writeNoteRows whole written
  | operate op now faults =>
    cases stepped
    exact arranged_operate arranged keeps
  | others bundle sessions drafts =>
    cases stepped
    exact arranged.with_drafts drafts

/-- The index that everything starts from. -/
def unindexed (bundle : Bundle) (workspaces : List WorkspaceId) : Core :=
  ⟨bundle, Database.empty workspaces, ∅⟩

/-- Every directory above what the index lists has its row after every run whose steps keep the rows, and the
sidebar shows every Note once. -/
theorem tree_stays_whole (host : Host) (workspace_id : WorkspaceId) {bundle : Bundle}
    {workspaces : List WorkspaceId}
    (reached : Reaches (Core.stepIndex host workspace_id)
      (KeepsRows workspace_id) (unindexed bundle workspaces) core) :
    TreeWhole workspace_id core.db := by
  have arranged : Arranged workspace_id core.db :=
    reached.invariant (P := fun core => Arranged workspace_id core.db) (arranged_empty workspaces)
      fun _ _ _ arranged keeps stepped => arranged.step keeps stepped
  exact ⟨arranged.nested.closed, arranged.nested.workspaceTree⟩

/-- A Note in `Foo/bar`, and an empty directory `foo` beside it. -/
def twoCases : List Indexing :=
  [.operate (.createDirectory "foo".toList) 0 .none,
    .operate (.createDirectory "Foo/bar".toList) 0 .none,
    .operate (.createNote "Foo/bar".toList "n".toList) 0 .none]

/-- The Note gets another title, `foo` another name, and a Directory goes that has a Note in it. -/
def twoCasesRenamed : List Indexing :=
  twoCases ++
    [.operate (.renameNote "Foo/bar/n".toList "m".toList) 0 .none,
      .operate (.renameDirectory "foo".toList "baz".toList) 0 .none,
      .operate (.createNote "baz/x".toList "k".toList) 0 .none,
      .operate (.deleteDirectory "baz".toList) 0 .none]

theorem two_cases_stay_whole : ∃ core : Core,
    core.db.noteExists "w".toList "Foo/bar/m".toList = true ∧
      core.db.directoryExists "w".toList "Foo/bar".toList = true ∧
      core.db.directoryExists "w".toList "baz".toList = false ∧ TreeWhole "w".toList core.db := by
  have seen : ((Machine.run (Machine.guarded (Core.stepIndex Host.plain "w".toList)
      (KeepsRows "w".toList)) (unindexed ⟨∅, [], []⟩ ["w".toList]) twoCasesRenamed).map fun core =>
        (core.db.noteExists "w".toList "Foo/bar/m".toList,
          core.db.directoryExists "w".toList "Foo/bar".toList,
          core.db.directoryExists "w".toList "baz".toList)) = some (true, true, false) := by
    decide +kernel
  obtain ⟨core, ran, parts⟩ := Option.map_eq_some_iff.mp seen
  obtain ⟨note, parts⟩ := Prod.mk.inj parts
  obtain ⟨directory, gone⟩ := Prod.mk.inj parts
  exact ⟨core, note, directory, gone,
    tree_stays_whole Host.plain "w".toList (Reaches.of_guarded ran)⟩

/-- The deletion of `foo` takes the row of `Foo/bar`, and the Note there is out of reach. -/
theorem deletion_hides_note : ∃ core,
    Reaches (Core.stepIndex Host.plain "w".toList) Any
      (unindexed ⟨∅, [], []⟩ ["w".toList]) core ∧ ¬TreeWhole "w".toList core.db := by
  have seen : ((Machine.run (Core.stepIndex Host.plain "w".toList)
      (unindexed ⟨∅, [], []⟩ ["w".toList])
      (twoCases ++ [.operate (.deleteDirectory "foo".toList) 0 .none])).map fun core =>
        (core.db.noteExists "w".toList "Foo/bar/n".toList,
          core.db.directoryExists "w".toList "Foo/bar".toList)) = some (true, false) := by
    decide +kernel
  obtain ⟨core, ran, parts⟩ := Option.map_eq_some_iff.mp seen
  obtain ⟨isThere, isGone⟩ := Prod.mk.inj parts
  refine ⟨core, Reaches.of_run ran, fun whole => ?_⟩
  obtain ⟨note, found⟩ := Option.isSome_iff_exists.mp isThere
  obtain ⟨mem, isKey⟩ := Table.find?_eq_some_iff.mp found
  have listed := whole.ancestors.leaves "Foo/bar/n".toList ⟨note, mem, isKey⟩ "Foo/bar".toList
    (by unfold Above; decide)
  rw [Database.directoryExists_iff.mpr listed] at isGone
  cases isGone

end Burlmd.Lifecycle
