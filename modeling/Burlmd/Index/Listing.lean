import Burlmd.Index.StoreInvariant
import Burlmd.Library.Ancestors

/-!
# What the index lists

Of the tables only the ids count here: the Notes of a Workspace are the leaves of a tree
and its directories the branches. The index is nested where this listing is closed and no
id has an empty segment.
-/

namespace Burlmd.Index

open Utf8 (Text)
open Okf (ConceptId containingDir slash)
open Segments

namespace Database

def listing (db : Database) (workspace_id : WorkspaceId) : Listing Char where
  leaves := {id | ∃ note ∈ db.notes, note.key = (workspace_id, id)}
  branches := {id | ∃ row ∈ db.directories, row.key = (workspace_id, id)}

/-- Every proper ancestor of a Note and of a directory has a row. -/
abbrev AncestorsListed (db : Database) (workspace_id : WorkspaceId) : Prop :=
  (db.listing workspace_id).Closed slash

structure Nested (db : Database) (workspace_id : WorkspaceId) : Prop where
  closed : db.AncestorsListed workspace_id
  wholeNotes : ∀ id ∈ (db.listing workspace_id).leaves, Whole slash id
  wholeDirectories : ∀ id ∈ (db.listing workspace_id).branches, Whole slash id
  paths : ∀ row ∈ db.directories, row.path = row.id

variable {db db' : Database} {workspace_id : WorkspaceId} {title_lookup_key : Text → Text}

theorem mem_leaves_iff {id : ConceptId} : id ∈ (db.listing workspace_id).leaves ↔
    id ∈ (db.notes.rows.filter fun note => note.workspace_id = workspace_id).map NoteRow.id := by
  rw [List.mem_map]
  constructor
  · rintro ⟨note, mem, isKey⟩
    obtain ⟨own, rfl⟩ := Prod.mk.inj isKey
    exact ⟨note, List.mem_filter.mpr ⟨mem, decide_eq_true own⟩, rfl⟩
  · rintro ⟨note, mem, rfl⟩
    obtain ⟨inside, own⟩ := List.mem_filter.mp mem
    exact ⟨note, inside, congrArg (fun owner => (owner, note.id)) (of_decide_eq_true own)⟩

theorem mem_branches_iff {id : Text} : id ∈ (db.listing workspace_id).branches ↔
    id ∈ (db.directories.rows.filter fun row => row.workspace_id = workspace_id).map
      DirectoryRow.id := by
  rw [List.mem_map]
  constructor
  · rintro ⟨row, mem, isKey⟩
    obtain ⟨own, rfl⟩ := Prod.mk.inj isKey
    exact ⟨row, List.mem_filter.mpr ⟨mem, decide_eq_true own⟩, rfl⟩
  · rintro ⟨row, mem, rfl⟩
    obtain ⟨inside, own⟩ := List.mem_filter.mp mem
    exact ⟨row, inside, congrArg (fun owner => (owner, row.id)) (of_decide_eq_true own)⟩

theorem nested_empty (workspaces : List WorkspaceId) : (empty workspaces).Nested workspace_id := by
  refine ⟨⟨?_, ?_⟩, ?_, ?_, ?_⟩
  · rintro id ⟨note, mem, -⟩
    cases mem
  · rintro id ⟨row, mem, -⟩
    cases mem
  · rintro id ⟨note, mem, -⟩
    cases mem
  · rintro id ⟨row, mem, -⟩
    cases mem
  · intro row mem
    cases mem

/-! ## Directories -/

theorem directoryExists_iff {directory : Text} : db.directoryExists workspace_id directory = true ↔
    directory ∈ (db.listing workspace_id).branches := by
  unfold directoryExists
  rw [Option.isSome_iff_exists]
  constructor
  · rintro ⟨row, found⟩
    obtain ⟨mem, isKey⟩ := Table.find?_eq_some_iff.mp found
    exact ⟨row, mem, isKey⟩
  · rintro ⟨row, mem, isKey⟩
    exact ⟨row, Table.find?_eq_some_iff.mpr ⟨mem, isKey⟩⟩

theorem directoryAncestors_eq (directory : Text) :
    directoryAncestors directory = ancestors slash directory := by
  unfold directoryAncestors ancestors
  have same : (fun segment : Text => decide (segment ≠ [])) = fun segment => !segment.isEmpty := by
    funext segment
    cases segment <;> rfl
  dsimp only
  rw [same]

theorem containingDir_eq_parent (id : ConceptId) : containingDir id = parent slash id := rfl

/-- The directories above a Note are its directory and what is above that. -/
theorem mem_directoryAncestors_containingDir {id : ConceptId} (whole : Whole slash id) {level : Text} :
    level ∈ directoryAncestors (containingDir id) ↔ Above slash level id := by
  rw [directoryAncestors_eq, containingDir_eq_parent, above_iff_parent]
  by_cases root : parent slash id = []
  · rw [root, ancestors_nil]
    constructor
    · intro mem
      cases mem
    · rintro (⟨nonempty, rfl⟩ | above)
      · exact absurd rfl nonempty
      · exact absurd above (not_above_of_not_mem List.not_mem_nil)
  · rw [mem_ancestors (whole.parent root)]
    constructor
    · rintro (rfl | above)
      · exact .inl ⟨root, rfl⟩
      · exact .inr above
    · rintro (⟨-, rfl⟩ | above)
      · exact .inl rfl
      · exact .inr above

theorem insertDirectory_spec {directory : Text}
    (inserted : db.insertDirectory workspace_id directory = some db') :
    db' = { db with
      directories := db.directories.insertOrIgnore ⟨directory, workspace_id, directory⟩ } := by
  unfold insertDirectory at inserted
  split at inserted
  · exact (Option.some.inj inserted).symm
  · cases inserted

theorem mem_branches_insertOrIgnore {directory id : Text} :
    (∃ row ∈ db.directories.insertOrIgnore ⟨directory, workspace_id, directory⟩,
        row.key = (workspace_id, id)) ↔
      id ∈ (db.listing workspace_id).branches ∨ id = directory := by
  constructor
  · rintro ⟨row, mem, isKey⟩
    rcases Table.mem_insertOrIgnore.mp mem with mem | ⟨rfl, -⟩
    · exact .inl ⟨row, mem, isKey⟩
    · exact .inr (congrArg Prod.snd isKey).symm
  · rintro (⟨row, mem, isKey⟩ | rfl)
    · exact ⟨row, Table.mem_insertOrIgnore.mpr (.inl mem), isKey⟩
    · cases found : db.directories.find? (workspace_id, id) with
      | some row =>
        obtain ⟨mem, isKey⟩ := Table.find?_eq_some_iff.mp found
        exact ⟨row, Table.mem_insertOrIgnore.mpr (.inl mem), isKey⟩
      | none =>
        refine ⟨_, Table.mem_insertOrIgnore.mpr (.inr ⟨rfl, ?_⟩), rfl⟩
        exact Table.find?_eq_none_iff.mp found

/-- What the directory statements of one transaction add. -/
structure Records (db db' : Database) (workspace_id : WorkspaceId) (added : Set Text) : Prop where
  frame : ∃ directories, db' = { db with directories }
  listing : db'.listing workspace_id =
    ⟨(db.listing workspace_id).leaves, (db.listing workspace_id).branches ∪ added⟩
  paths : (∀ row ∈ db.directories, row.path = row.id) → ∀ row ∈ db'.directories, row.path = row.id

theorem records_insertDirectories {directories : List Text}
    (inserted : directories.foldlM (fun db directory => insertDirectory db workspace_id directory)
      db = some db') : Records db db' workspace_id {id | id ∈ directories} := by
  induction directories generalizing db with
  | nil =>
    obtain rfl := Option.some.inj inserted
    refine ⟨⟨_, rfl⟩, ?_, id⟩
    ext id
    · rfl
    · simp
  | cons directory rest ih =>
    rw [List.foldlM_cons, Option.bind_eq_bind, Option.bind_eq_some_iff] at inserted
    obtain ⟨middle, first, inserted⟩ := inserted
    obtain ⟨⟨directories, rfl⟩, isListing, paths⟩ := ih inserted
    obtain rfl := insertDirectory_spec first
    refine ⟨⟨_, rfl⟩, ?_, fun each => paths fun row mem => ?_⟩
    · rw [isListing]
      ext id
      · rfl
      · show (_ ∨ id ∈ rest) ↔ _ ∨ id ∈ directory :: rest
        rw [List.mem_cons]
        show ((∃ row ∈ db.directories.insertOrIgnore _, _) ∨ _) ↔ _
        rw [mem_branches_insertOrIgnore, or_assoc]
    · rcases Table.mem_insertOrIgnore.mp mem with mem | ⟨rfl, -⟩
      · exact each row mem
      · rfl

theorem records_recordDirectories {directory : Text}
    (recorded : db.recordDirectories workspace_id directory = some db') :
    Records db db' workspace_id {id | id ∈ directoryAncestors directory} :=
  records_insertDirectories recorded

theorem Nested.recordDirectories (nested : db.Nested workspace_id) {directory : Text}
    (whole : directory = [] ∨ Whole slash directory)
    (recorded : db.recordDirectories workspace_id directory = some db') :
    db'.Nested workspace_id := by
  have records := records_recordDirectories recorded
  have isListing := records.listing
  rcases whole with rfl | whole
  · have none : {id | id ∈ directoryAncestors []} = (∅ : Set Text) := by
      rw [directoryAncestors_eq, ancestors_nil]
      ext id
      simp
    rw [none, Set.union_empty] at isListing
    refine ⟨?_, ?_, ?_, records.paths nested.paths⟩
    · rw [AncestorsListed, isListing]
      exact nested.closed
    · rw [isListing]
      exact nested.wholeNotes
    · rw [isListing]
      exact nested.wholeDirectories
  · have added : {id | id ∈ directoryAncestors directory} =
        {id | id = directory ∨ Above slash id directory} := by
      ext id
      rw [directoryAncestors_eq]
      exact mem_ancestors whole
    rw [added] at isListing
    refine ⟨?_, ?_, ?_, records.paths nested.paths⟩
    · rw [AncestorsListed, isListing]
      exact nested.closed.record
    · rw [isListing]
      exact nested.wholeNotes
    · rw [isListing]
      rintro id (mem | rfl | above)
      · exact nested.wholeDirectories id mem
      · exact whole
      · exact whole.above above

/-! ## Notes -/

theorem leaves_removeRows {p : NoteKey → Bool} {id : ConceptId} :
    id ∈ ((db.removeRows p).listing workspace_id).leaves ↔
      id ∈ (db.listing workspace_id).leaves ∧ p (workspace_id, id) = false := by
  constructor
  · rintro ⟨note, mem, isKey⟩
    obtain ⟨mem, kept⟩ := mem_notes_removeRows.mp mem
    exact ⟨⟨note, mem, isKey⟩, isKey ▸ kept⟩
  · rintro ⟨⟨note, mem, isKey⟩, kept⟩
    exact ⟨note, mem_notes_removeRows.mpr ⟨mem, isKey ▸ kept⟩, isKey⟩

theorem Nested.removeRows (nested : db.Nested workspace_id) (p : NoteKey → Bool) :
    (db.removeRows p).Nested workspace_id where
  closed :=
    ⟨fun id mem => nested.closed.leaves id (leaves_removeRows.mp mem).1, nested.closed.branches⟩
  wholeNotes id mem := nested.wholeNotes id (leaves_removeRows.mp mem).1
  wholeDirectories := nested.wholeDirectories
  paths := nested.paths

theorem listing_insertNoteRows {note : IndexedNote}
    (inserted : db.insertNoteRows title_lookup_key workspace_id note = some db') :
    db'.listing workspace_id = (db.listing workspace_id).insertLeaf note.concept_id ∧
      db'.directories = db.directories := by
  obtain ⟨notes, texts, mappings, isInserted, -, -, rfl⟩ := insertNoteRows_spec inserted
  refine ⟨?_, rfl⟩
  ext id
  · constructor
    · rintro ⟨row, mem, isKey⟩
      rcases (Table.mem_insert? isInserted).mp mem with mem | rfl
      · exact .inr ⟨row, mem, isKey⟩
      · exact .inl (congrArg Prod.snd isKey).symm
    · rintro (rfl | ⟨row, mem, isKey⟩)
      · exact ⟨_, (Table.mem_insert? isInserted).mpr (.inr rfl), rfl⟩
      · exact ⟨row, (Table.mem_insert? isInserted).mpr (.inl mem), isKey⟩
  · rfl

theorem Nested.insertNoteRows (nested : db.Nested workspace_id) {note : IndexedNote}
    (whole : Whole slash note.concept_id)
    (reached : ∀ level, Above slash level note.concept_id →
      level ∈ (db.listing workspace_id).branches)
    (inserted : db.insertNoteRows title_lookup_key workspace_id note = some db') :
    db'.Nested workspace_id := by
  obtain ⟨isListing, sameDirectories⟩ := listing_insertNoteRows inserted
  refine ⟨?_, ?_, ?_, sameDirectories ▸ nested.paths⟩
  · rw [AncestorsListed, isListing]
    exact nested.closed.insertLeaf reached
  · rw [isListing]
    rintro id (rfl | mem)
    · exact whole
    · exact nested.wholeNotes id mem
  · rw [isListing]
    exact nested.wholeDirectories

theorem writeNoteRows_stages {note : IndexedNote}
    (written : db.writeNoteRows title_lookup_key workspace_id note = some db') :
    ∃ middle, (db.removeNoteRows workspace_id note.concept_id).recordDirectories workspace_id
        (containingDir note.concept_id) = some middle ∧
      middle.insertNoteRows title_lookup_key workspace_id note = some db' := by
  unfold writeNoteRows at written
  simpa only [Option.bind_eq_bind, Option.bind_eq_some_iff] using written

theorem whole_containingDir {id : ConceptId} (whole : Whole slash id) :
    containingDir id = [] ∨ Whole slash (containingDir id) := by
  by_cases root : containingDir id = []
  · exact .inl root
  · exact .inr (whole.parent root)

/-- A Note is written with the directories above it. -/
theorem Nested.writeNoteRows (nested : db.Nested workspace_id) {note : IndexedNote}
    (whole : Whole slash note.concept_id)
    (written : db.writeNoteRows title_lookup_key workspace_id note = some db') :
    db'.Nested workspace_id := by
  obtain ⟨middle, recorded, inserted⟩ := writeNoteRows_stages written
  have isNested := (nested.removeRows _).recordDirectories (whole_containingDir whole) recorded
  refine isNested.insertNoteRows whole ?_ inserted
  intro level above
  rw [(records_recordDirectories recorded).listing]
  exact .inr ((mem_directoryAncestors_containingDir whole).mpr above)

theorem mem_leaves_writeNoteRows {note : IndexedNote}
    (written : db.writeNoteRows title_lookup_key workspace_id note = some db') {id : ConceptId} :
    id ∈ (db'.listing workspace_id).leaves ↔
      id = note.concept_id ∨ id ∈ (db.listing workspace_id).leaves := by
  obtain ⟨middle, recorded, inserted⟩ := writeNoteRows_stages written
  rw [(listing_insertNoteRows inserted).1]
  show (_ ∨ id ∈ (middle.listing workspace_id).leaves) ↔ _
  rw [(records_recordDirectories recorded).listing]
  show (_ ∨ id ∈ ((db.removeNoteRows workspace_id note.concept_id).listing workspace_id).leaves) ↔ _
  unfold removeNoteRows
  rw [leaves_removeRows, decide_eq_false_iff_not, Prod.mk.injEq, not_and]
  constructor
  · rintro (isNote | ⟨mem, -⟩)
    · exact .inl isNote
    · exact .inr mem
  · rintro (isNote | mem)
    · exact .inl isNote
    · by_cases isNote : id = note.concept_id
      · exact .inl isNote
      · exact .inr ⟨mem, fun _ => isNote⟩

theorem branches_writeNoteRows {note : IndexedNote}
    (written : db.writeNoteRows title_lookup_key workspace_id note = some db') :
    (db'.listing workspace_id).branches = (db.listing workspace_id).branches ∪
      {id | id ∈ directoryAncestors (containingDir note.concept_id)} := by
  obtain ⟨middle, recorded, inserted⟩ := writeNoteRows_stages written
  rw [(listing_insertNoteRows inserted).1]
  show (middle.listing workspace_id).branches = _
  rw [(records_recordDirectories recorded).listing]
  rfl

/-- A list of Notes is written, each with the directories above it. -/
theorem Nested.writeAllNoteRows {notes : List IndexedNote} (nested : db.Nested workspace_id)
    (whole : ∀ note ∈ notes, Whole slash note.concept_id)
    (written : notes.foldlM
      (fun db note => Database.writeNoteRows title_lookup_key db workspace_id note) db = some db') :
    db'.Nested workspace_id ∧ ∀ id ∈ (db'.listing workspace_id).leaves,
      id ∈ (db.listing workspace_id).leaves ∨ ∃ note ∈ notes, note.concept_id = id := by
  induction notes generalizing db with
  | nil =>
    obtain rfl := Option.some.inj written
    exact ⟨nested, fun id mem => .inl mem⟩
  | cons note rest ih =>
    rw [List.foldlM_cons, Option.bind_eq_bind, Option.bind_eq_some_iff] at written
    obtain ⟨middle, first, written⟩ := written
    have isNested := nested.writeNoteRows (whole note List.mem_cons_self) first
    obtain ⟨isNested', members⟩ :=
      ih isNested (fun other mem => whole other (List.mem_cons_of_mem _ mem)) written
    refine ⟨isNested', fun id mem => ?_⟩
    rcases members id mem with mem | ⟨other, mem, same⟩
    · rcases (mem_leaves_writeNoteRows first).mp mem with rfl | mem
      · exact .inr ⟨note, List.mem_cons_self, rfl⟩
      · exact .inl mem
    · exact .inr ⟨other, List.mem_cons_of_mem _ mem, same⟩

/-! ## Rebuilds -/

/-- What a walk hands over is closed by itself. -/
structure ClosedScan (scanned : ScannedBundle) : Prop where
  notes : ∀ note ∈ scanned.notes, Whole slash note.concept_id ∧
    ∀ level, Above slash level note.concept_id → level ∈ scanned.directories
  directories : ∀ directory ∈ scanned.directories, Whole slash directory ∧
    ∀ level, Above slash level directory → level ∈ scanned.directories

theorem Nested.insertAllNoteRows {notes : List IndexedNote} (nested : db.Nested workspace_id)
    (reached : ∀ note ∈ notes, Whole slash note.concept_id ∧
      ∀ level, Above slash level note.concept_id → level ∈ (db.listing workspace_id).branches)
    (inserted : notes.foldlM
      (fun db note => Database.insertNoteRows title_lookup_key db workspace_id note) db = some db') :
    db'.Nested workspace_id := by
  induction notes generalizing db with
  | nil =>
    obtain rfl := Option.some.inj inserted
    exact nested
  | cons note rest ih =>
    rw [List.foldlM_cons, Option.bind_eq_bind, Option.bind_eq_some_iff] at inserted
    obtain ⟨middle, first, inserted⟩ := inserted
    obtain ⟨whole, above⟩ := reached note List.mem_cons_self
    refine ih (nested.insertNoteRows whole above first) (fun other mem => ?_) inserted
    obtain ⟨whole, above⟩ := reached other (List.mem_cons_of_mem _ mem)
    refine ⟨whole, fun level isAbove => ?_⟩
    rw [(listing_insertNoteRows first).1]
    exact above level isAbove

theorem Nested.writeScannedBundle (nested : db.Nested workspace_id) {scanned : ScannedBundle}
    (closed : ClosedScan scanned)
    (written : db.writeScannedBundle title_lookup_key workspace_id scanned = some db') :
    db'.Nested workspace_id := by
  unfold Database.writeScannedBundle at written
  simp only [Option.bind_eq_bind, Option.bind_eq_some_iff] at written
  obtain ⟨middle, recorded, inserted⟩ := written
  have records := records_insertDirectories recorded
  have isListing : middle.listing workspace_id = ⟨∅, {id | id ∈ scanned.directories}⟩ := by
    rw [records.listing]
    ext id
    · show (id ∈ ((db.removeRows _).listing workspace_id).leaves) ↔ _
      rw [leaves_removeRows]
      simp
    · show ((∃ row ∈ db.directories.delete _, _) ∨ _) ↔ _
      constructor
      · rintro (⟨row, mem, isKey⟩ | mem)
        · obtain ⟨-, other⟩ := Table.mem_delete.mp mem
          rw [decide_eq_false_iff_not] at other
          exact absurd (congrArg Prod.fst isKey) other
        · exact mem
      · exact .inr
  have isNested : middle.Nested workspace_id := by
    refine ⟨⟨?_, ?_⟩, ?_, ?_, records.paths fun row mem => ?_⟩
    · rw [isListing]
      intro id mem
      cases mem
    · rw [isListing]
      exact fun directory mem => (closed.directories directory mem).2
    · rw [isListing]
      intro id mem
      cases mem
    · rw [isListing]
      exact fun directory mem => (closed.directories directory mem).1
    · exact nested.paths row (Table.mem_delete.mp mem).1
  refine isNested.insertAllNoteRows (fun note mem => ?_) inserted
  rw [isListing]
  exact closed.notes note mem

end Database

end Burlmd.Index
