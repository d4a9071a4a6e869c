import Burlmd.Index.Store

/-!
# What the statements keep

In a consistent index every Note has one full-text row, no full-text row belongs to two
Notes or to none, and every Link has a source.
-/

namespace Burlmd.Index

open Utf8 (Text)
open Okf (ConceptId conceptIdToPath containingDir)

namespace Database

structure Consistent (db : Database) : Prop where
  mapping_of_note : ∀ note ∈ db.notes, ∃ mapping ∈ db.fts_mapping, mapping.key = note.key
  note_of_mapping : ∀ mapping ∈ db.fts_mapping, ∃ note ∈ db.notes, note.key = mapping.key
  text_of_mapping : ∀ mapping ∈ db.fts_mapping, ∃ text ∈ db.notes_fts,
    text.rowid = mapping.fts_rowid
  mapping_of_text : ∀ text ∈ db.notes_fts, ∃ mapping ∈ db.fts_mapping,
    mapping.fts_rowid = text.rowid
  mapping_unique : ∀ mapping ∈ db.fts_mapping, ∀ other ∈ db.fts_mapping,
    mapping.fts_rowid = other.fts_rowid → mapping = other
  source_of_link : ∀ link ∈ db.links, ∃ note ∈ db.notes, note.key = link.source

def empty (workspaces : List WorkspaceId) : Database := ⟨workspaces, ∅, ∅, ∅, ∅, ∅, ∅⟩

theorem consistent_empty (workspaces : List WorkspaceId) : (empty workspaces).Consistent := by
  constructor <;> intro row mem <;> exact absurd mem (Table.not_mem_empty _)

theorem any_key_iff {db : Database} {key : NoteKey} :
    (db.notes.rows.any fun note => note.key = key) = true ↔ ∃ note ∈ db.notes, note.key = key := by
  simp [Table.mem_def]

theorem exists_note_iff {db : Database} {key : NoteKey} :
    (∃ note ∈ db.notes, note.key = key) ↔ (db.notes.find? key).isSome := by
  rw [Option.isSome_iff_exists]
  constructor
  · rintro ⟨note, mem, isKey⟩
    exact ⟨note, Table.find?_eq_some_iff.mpr ⟨mem, isKey⟩⟩
  · rintro ⟨note, found⟩
    obtain ⟨mem, isKey⟩ := Table.find?_eq_some_iff.mp found
    exact ⟨note, mem, isKey⟩

/-! ## Removal -/

section Removal

variable {db : Database} {p : NoteKey → Bool}

theorem mem_notes_removeRows {note : NoteRow} :
    note ∈ (db.removeRows p).notes ↔ note ∈ db.notes ∧ p note.key = false := by
  simp [removeRows, deleteText, deleteNotes]

theorem mem_mapping_removeRows (ok : db.Consistent) {mapping : MappingRow} :
    mapping ∈ (db.removeRows p).fts_mapping ↔
      mapping ∈ db.fts_mapping ∧ p mapping.key = false := by
  simp only [removeRows, deleteText, deleteNotes, Table.mem_delete, Bool.and_eq_false_iff]
  constructor
  · rintro ⟨mem, kept | noNote⟩
    · exact ⟨mem, kept⟩
    · have found := any_key_iff.mpr (ok.note_of_mapping mapping mem)
      rw [found] at noNote
      cases noNote
  · rintro ⟨mem, kept⟩
    exact ⟨mem, .inl kept⟩

theorem mem_links_removeRows (ok : db.Consistent) {link : LinkRow} :
    link ∈ (db.removeRows p).links ↔ link ∈ db.links ∧ p link.source = false := by
  simp only [removeRows, deleteText, deleteNotes, Table.mem_delete, Bool.and_eq_false_iff]
  constructor
  · rintro ⟨mem, kept | noNote⟩
    · exact ⟨mem, kept⟩
    · have found := any_key_iff.mpr (ok.source_of_link link mem)
      rw [found] at noNote
      cases noNote
  · rintro ⟨mem, kept⟩
    exact ⟨mem, .inl kept⟩

theorem mem_texts_removeRows {text : FtsRow} :
    text ∈ (db.removeRows p).notes_fts ↔
      text ∈ db.notes_fts ∧
        ∀ mapping ∈ db.fts_mapping, mapping.fts_rowid = text.rowid → p mapping.key = false := by
  simp only [removeRows, deleteText, deleteNotes, Table.mem_delete, List.any_eq_false,
    Bool.and_eq_true, decide_eq_true_eq, not_and]
  apply and_congr_right
  intro _
  constructor
  · intro kept mapping mem same
    exact Bool.eq_false_iff.mpr fun selected => kept mapping mem selected same
  · intro kept mapping mem selected same
    rw [kept mapping mem same] at selected
    cases selected

theorem Consistent.removeRows (ok : db.Consistent) (p : NoteKey → Bool) :
    (db.removeRows p).Consistent where
  mapping_of_note note mem := by
    obtain ⟨mem, kept⟩ := mem_notes_removeRows.mp mem
    obtain ⟨mapping, found, same⟩ := ok.mapping_of_note note mem
    exact ⟨mapping, (mem_mapping_removeRows ok).mpr ⟨found, same ▸ kept⟩, same⟩
  note_of_mapping mapping mem := by
    obtain ⟨mem, kept⟩ := (mem_mapping_removeRows ok).mp mem
    obtain ⟨note, found, same⟩ := ok.note_of_mapping mapping mem
    exact ⟨note, mem_notes_removeRows.mpr ⟨found, same ▸ kept⟩, same⟩
  text_of_mapping mapping mem := by
    obtain ⟨mem, kept⟩ := (mem_mapping_removeRows ok).mp mem
    obtain ⟨text, found, same⟩ := ok.text_of_mapping mapping mem
    refine ⟨text, mem_texts_removeRows.mpr ⟨found, fun other other_mem shared => ?_⟩, same⟩
    rw [ok.mapping_unique other other_mem mapping mem (shared.trans same)]
    exact kept
  mapping_of_text text mem := by
    obtain ⟨mem, kept⟩ := mem_texts_removeRows.mp mem
    obtain ⟨mapping, found, same⟩ := ok.mapping_of_text text mem
    exact ⟨mapping, (mem_mapping_removeRows ok).mpr ⟨found, kept mapping found same⟩, same⟩
  mapping_unique mapping mem other other_mem shared :=
    ok.mapping_unique mapping ((mem_mapping_removeRows ok).mp mem).1 other
      ((mem_mapping_removeRows ok).mp other_mem).1 shared
  source_of_link link mem := by
    obtain ⟨mem, kept⟩ := (mem_links_removeRows ok).mp mem
    obtain ⟨note, found, same⟩ := ok.source_of_link link mem
    exact ⟨note, mem_notes_removeRows.mpr ⟨found, same ▸ kept⟩, same⟩

end Removal

/-! ## Insertion -/

section Insertion

variable {title_lookup_key : Text → Text} {db db' : Database} {workspace_id : WorkspaceId}
  {note : IndexedNote}

theorem le_foldr_max {numbers : List Nat} {n : Nat} (mem : n ∈ numbers) : n ≤ numbers.foldr max 0 := by
  induction numbers with
  | nil => cases mem
  | cons first rest ih =>
    rcases List.mem_cons.mp mem with rfl | mem
    · exact Nat.le_max_left _ _
    · exact Nat.le_trans (ih mem) (Nat.le_max_right _ _)

theorem lt_nextRowid {text : FtsRow} (mem : text ∈ db.notes_fts) : text.rowid < db.nextRowid :=
  Nat.lt_succ_of_le (le_foldr_max (List.mem_map.mpr ⟨text, mem, rfl⟩))

theorem insertNote_spec {row : NoteRow} (inserted : db.insertNote row = some db') :
    ∃ notes, db.notes.insert? row = some notes ∧ db' = { db with notes } := by
  unfold insertNote at inserted
  split at inserted
  · obtain ⟨notes, found, rfl⟩ := Option.map_eq_some_iff.mp inserted
    exact ⟨notes, found, rfl⟩
  · cases inserted

theorem insertMapping_spec {row : MappingRow} (inserted : db.insertMapping row = some db') :
    ∃ fts_mapping, db.fts_mapping.insert? row = some fts_mapping ∧
      db' = { db with fts_mapping } := by
  unfold insertMapping at inserted
  split at inserted
  · obtain ⟨fts_mapping, found, rfl⟩ := Option.map_eq_some_iff.mp inserted
    exact ⟨fts_mapping, found, rfl⟩
  · cases inserted

theorem insertLink_eq {row : LinkRow} (source : ∃ note ∈ db.notes, note.key = row.source) :
    db.insertLink row = some { db with links := db.links.insertOrIgnore row } :=
  if_pos (any_key_iff.mpr source)

/-- A source that has its Note takes every edge. -/
theorem insertLinks_eq {source_id : ConceptId} (edges : List LinkEdge)
    (source : ∃ note ∈ db.notes, note.key = (workspace_id, source_id)) :
    edges.foldlM
        (fun db link =>
          insertLink db ⟨workspace_id, source_id, link.target_id, link.target_title⟩) db =
      some { db with
        links := db.links.insertAllOrIgnore (edges.map fun link =>
          ⟨workspace_id, source_id, link.target_id, link.target_title⟩) } := by
  induction edges generalizing db with
  | nil => rfl
  | cons edge edges ih =>
    rw [List.foldlM_cons, insertLink_eq source]
    exact @ih { db with links := _ } source

/-- The four rows of a Note, each under a key that was free. -/
theorem insertNoteRows_spec
    (inserted : db.insertNoteRows title_lookup_key workspace_id note = some db') :
    ∃ notes texts mappings,
      db.notes.insert? (noteRow title_lookup_key workspace_id note) = some notes ∧
      db.notes_fts.insert? ⟨db.nextRowid, note.title, note.text⟩ = some texts ∧
      db.fts_mapping.insert? ⟨workspace_id, note.concept_id, db.nextRowid⟩ = some mappings ∧
      db' = { db with
        notes
        notes_fts := texts
        fts_mapping := mappings
        links := db.links.insertAllOrIgnore (note.links.map fun link =>
          ⟨workspace_id, note.concept_id, link.target_id, link.target_title⟩) } := by
  unfold insertNoteRows at inserted
  simp only [Option.bind_eq_bind, Option.bind_eq_some_iff] at inserted
  obtain ⟨db₁, note_inserted, db₂, text_inserted, db₃, mapping_inserted, links_inserted⟩ := inserted
  obtain ⟨notes, new_note, rfl⟩ := insertNote_spec note_inserted
  obtain ⟨texts, new_text, rfl⟩ := Option.map_eq_some_iff.mp text_inserted
  obtain ⟨mappings, new_mapping, rfl⟩ := insertMapping_spec mapping_inserted
  rw [insertLinks_eq] at links_inserted
  · obtain rfl := Option.some.inj links_inserted
    exact ⟨notes, texts, mappings, new_note, new_text, new_mapping, rfl⟩
  · exact ⟨_, (Table.mem_insert? new_note).mpr (.inr rfl), rfl⟩

theorem Consistent.insertNoteRows (ok : db.Consistent)
    (inserted : db.insertNoteRows title_lookup_key workspace_id note = some db') :
    db'.Consistent := by
  obtain ⟨notes, texts, mappings, new_note, new_text, new_mapping, rfl⟩ :=
    insertNoteRows_spec inserted
  have rowid_lt : ∀ mapping ∈ db.fts_mapping, mapping.fts_rowid < db.nextRowid := by
    intro mapping mem
    obtain ⟨text, found, same⟩ := ok.text_of_mapping mapping mem
    exact same ▸ lt_nextRowid found
  constructor
  · intro row mem
    rcases (Table.mem_insert? new_note).mp mem with mem | rfl
    · obtain ⟨mapping, found, same⟩ := ok.mapping_of_note row mem
      exact ⟨mapping, (Table.mem_insert? new_mapping).mpr (.inl found), same⟩
    · exact ⟨_, (Table.mem_insert? new_mapping).mpr (.inr rfl), rfl⟩
  · intro mapping mem
    rcases (Table.mem_insert? new_mapping).mp mem with mem | rfl
    · obtain ⟨row, found, same⟩ := ok.note_of_mapping mapping mem
      exact ⟨row, (Table.mem_insert? new_note).mpr (.inl found), same⟩
    · exact ⟨_, (Table.mem_insert? new_note).mpr (.inr rfl), rfl⟩
  · intro mapping mem
    rcases (Table.mem_insert? new_mapping).mp mem with mem | rfl
    · obtain ⟨text, found, same⟩ := ok.text_of_mapping mapping mem
      exact ⟨text, (Table.mem_insert? new_text).mpr (.inl found), same⟩
    · exact ⟨_, (Table.mem_insert? new_text).mpr (.inr rfl), rfl⟩
  · intro text mem
    rcases (Table.mem_insert? new_text).mp mem with mem | rfl
    · obtain ⟨mapping, found, same⟩ := ok.mapping_of_text text mem
      exact ⟨mapping, (Table.mem_insert? new_mapping).mpr (.inl found), same⟩
    · exact ⟨_, (Table.mem_insert? new_mapping).mpr (.inr rfl), rfl⟩
  · intro mapping mem other other_mem shared
    rcases (Table.mem_insert? new_mapping).mp mem with mem | rfl <;>
      rcases (Table.mem_insert? new_mapping).mp other_mem with other_mem | rfl
    · exact ok.mapping_unique mapping mem other other_mem shared
    · exact absurd shared (rowid_lt mapping mem).ne
    · exact absurd shared.symm (rowid_lt other other_mem).ne
    · rfl
  · intro link mem
    rcases Table.mem_of_mem_insertAllOrIgnore mem with mem | mem
    · obtain ⟨row, found, same⟩ := ok.source_of_link link mem
      exact ⟨row, (Table.mem_insert? new_note).mpr (.inl found), same⟩
    · obtain ⟨edge, -, rfl⟩ := List.mem_map.mp mem
      exact ⟨_, (Table.mem_insert? new_note).mpr (.inr rfl), rfl⟩

end Insertion

/-! ## Whole transactions -/

section Transactions

variable {title_lookup_key : Text → Text} {db db' : Database} {workspace_id : WorkspaceId}
  {note : IndexedNote}

theorem insertDirectories_spec {directories : List Text}
    (inserted : directories.foldlM (fun db directory => insertDirectory db workspace_id directory)
      db = some db') : ∃ directories, db' = { db with directories } := by
  induction directories generalizing db with
  | nil =>
    obtain rfl := Option.some.inj inserted
    exact ⟨_, rfl⟩
  | cons directory rest ih =>
    rw [List.foldlM_cons, Option.bind_eq_bind, Option.bind_eq_some_iff] at inserted
    obtain ⟨db₁, first, inserted⟩ := inserted
    obtain ⟨directories, rfl⟩ := ih inserted
    unfold insertDirectory at first
    split at first
    · obtain rfl := Option.some.inj first
      exact ⟨directories, rfl⟩
    · cases first

theorem recordDirectories_spec {directory : Text}
    (recorded : db.recordDirectories workspace_id directory = some db') :
    ∃ directories, db' = { db with directories } :=
  insertDirectories_spec recorded

theorem Consistent.with_directories (ok : db.Consistent)
    (directories : Table DirectoryRow.key) : { db with directories }.Consistent :=
  ⟨ok.1, ok.2, ok.3, ok.4, ok.5, ok.6⟩

theorem Consistent.with_drafts (ok : db.Consistent) (drafts : Table DraftRow.key) :
    { db with drafts }.Consistent :=
  ⟨ok.1, ok.2, ok.3, ok.4, ok.5, ok.6⟩

theorem writeNoteRows_spec
    (written : db.writeNoteRows title_lookup_key workspace_id note = some db') :
    ∃ directories,
      insertNoteRows title_lookup_key
        { db.removeNoteRows workspace_id note.concept_id with directories } workspace_id note =
        some db' := by
  unfold writeNoteRows at written
  simp only [Option.bind_eq_bind, Option.bind_eq_some_iff] at written
  obtain ⟨db₁, recorded, inserted⟩ := written
  obtain ⟨directories, rfl⟩ := recordDirectories_spec recorded
  exact ⟨directories, inserted⟩

theorem Consistent.writeNoteRows (ok : db.Consistent)
    (written : db.writeNoteRows title_lookup_key workspace_id note = some db') :
    db'.Consistent := by
  obtain ⟨directories, inserted⟩ := writeNoteRows_spec written
  exact ((ok.removeRows _).with_directories directories).insertNoteRows inserted

theorem Consistent.insertAllNoteRows {notes : List IndexedNote} (ok : db.Consistent)
    (inserted : notes.foldlM
      (fun db note => Database.insertNoteRows title_lookup_key db workspace_id note) db =
        some db') :
    db'.Consistent := by
  induction notes generalizing db with
  | nil =>
    obtain rfl := Option.some.inj inserted
    exact ok
  | cons note rest ih =>
    rw [List.foldlM_cons, Option.bind_eq_bind, Option.bind_eq_some_iff] at inserted
    obtain ⟨db₁, first, inserted⟩ := inserted
    exact ih (ok.insertNoteRows first) inserted

theorem Consistent.writeAllNoteRows {notes : List IndexedNote} (ok : db.Consistent)
    (written : notes.foldlM
      (fun db note => Database.writeNoteRows title_lookup_key db workspace_id note) db = some db') :
    db'.Consistent := by
  induction notes generalizing db with
  | nil =>
    obtain rfl := Option.some.inj written
    exact ok
  | cons note rest ih =>
    rw [List.foldlM_cons, Option.bind_eq_bind, Option.bind_eq_some_iff] at written
    obtain ⟨db₁, first, written⟩ := written
    exact ih (ok.writeNoteRows first) written

theorem writeScannedBundle_spec {scanned : ScannedBundle}
    (written : db.writeScannedBundle title_lookup_key workspace_id scanned = some db') :
    ∃ directories,
      scanned.notes.foldlM (fun db note => insertNoteRows title_lookup_key db workspace_id note)
        { db.removeRows (fun key => key.1 = workspace_id) with directories } = some db' := by
  unfold writeScannedBundle at written
  simp only [Option.bind_eq_bind, Option.bind_eq_some_iff] at written
  obtain ⟨db₁, recorded, inserted⟩ := written
  obtain ⟨directories, rfl⟩ := insertDirectories_spec recorded
  exact ⟨directories, inserted⟩

theorem Consistent.writeScannedBundle {scanned : ScannedBundle} (ok : db.Consistent)
    (written : db.writeScannedBundle title_lookup_key workspace_id scanned = some db') :
    db'.Consistent := by
  obtain ⟨directories, inserted⟩ := writeScannedBundle_spec written
  exact ((ok.removeRows _).with_directories directories).insertAllNoteRows inserted

theorem mem_updateLinkTargets {old_id new_id : ConceptId} {link : LinkRow} :
    link ∈ (db.updateLinkTargets workspace_id old_id new_id).links ↔
      (link ∈ db.links ∧ ¬(link.workspace_id = workspace_id ∧ link.target_id = old_id) ∧
        ∀ edge ∈ db.links, edge.workspace_id = workspace_id → edge.target_id = old_id →
          link.key ≠ (workspace_id, edge.source_id, new_id)) ∨
      ∃ edge ∈ db.links, edge.workspace_id = workspace_id ∧ edge.target_id = old_id ∧
        { edge with target_id := new_id } = link := by
  rw [updateLinkTargets, Table.mem_updateOrReplace]
  · simp only [Bool.and_eq_true, decide_eq_true_eq, Bool.and_eq_false_iff, decide_eq_false_iff_not,
      not_and_or, LinkRow.key, and_imp]
    constructor
    · rintro (⟨mem, other, apart⟩ | ⟨edge, mem, ⟨isWorkspace, isTarget⟩, rfl⟩)
      · refine .inl ⟨mem, other, ?_⟩
        rintro edge edge_mem rfl isTarget
        exact apart edge edge_mem rfl isTarget
      · exact .inr ⟨edge, mem, isWorkspace, isTarget, rfl⟩
    · rintro (⟨mem, other, apart⟩ | ⟨edge, mem, isWorkspace, isTarget, rfl⟩)
      · refine .inl ⟨mem, other, ?_⟩
        rintro edge edge_mem rfl isTarget
        exact apart edge edge_mem rfl isTarget
      · exact .inr ⟨edge, mem, ⟨isWorkspace, isTarget⟩, rfl⟩
  · intro edge _ other _ selected selected' same
    simp only [Bool.and_eq_true, decide_eq_true_eq] at selected selected'
    simp only [LinkRow.key, Prod.mk.injEq] at same ⊢
    exact ⟨same.1, same.2.1, selected.2.trans selected'.2.symm⟩

theorem Consistent.updateLinkTargets (ok : db.Consistent) (workspace_id : WorkspaceId)
    (old_id new_id : ConceptId) :
    (db.updateLinkTargets workspace_id old_id new_id).Consistent where
  mapping_of_note := ok.mapping_of_note
  note_of_mapping := ok.note_of_mapping
  text_of_mapping := ok.text_of_mapping
  mapping_of_text := ok.mapping_of_text
  mapping_unique := ok.mapping_unique
  source_of_link link mem := by
    rcases mem_updateLinkTargets.mp mem with ⟨found, -⟩ | ⟨edge, found, -, -, rfl⟩
    · exact ok.source_of_link link found
    · exact ok.source_of_link edge found

/-! ## Transactions that succeed -/

/-- The second unique column of `notes` says nothing the first does not. -/
def PathsMatch (db : Database) : Prop := ∀ note ∈ db.notes, note.path = conceptIdToPath note.id

theorem PathsMatch.removeRows (paths : db.PathsMatch) (p : NoteKey → Bool) :
    (db.removeRows p).PathsMatch :=
  fun note mem => paths note (mem_notes_removeRows.mp mem).1

theorem PathsMatch.insertNoteRows (paths : db.PathsMatch)
    (isPath : note.path = conceptIdToPath note.concept_id)
    (inserted : db.insertNoteRows title_lookup_key workspace_id note = some db') :
    db'.PathsMatch := by
  obtain ⟨notes, texts, mappings, new_note, -, -, rfl⟩ := insertNoteRows_spec inserted
  intro row mem
  rcases (Table.mem_insert? new_note).mp mem with mem | rfl
  · exact paths row mem
  · exact isPath

theorem conceptIdToPath_injective {id other : ConceptId}
    (same : conceptIdToPath id = conceptIdToPath other) : id = other :=
  List.append_cancel_right same

theorem insertNoteRows_isSome (ok : db.Consistent) (paths : db.PathsMatch)
    (known : workspace_id ∈ db.workspaces)
    (free : db.notes.find? (workspace_id, note.concept_id) = none)
    (isPath : note.path = conceptIdToPath note.concept_id) :
    (db.insertNoteRows title_lookup_key workspace_id note).isSome := by
  have noNote := Table.find?_eq_none_iff.mp free
  have noPath : ¬(db.notes.rows.any fun row =>
      row.workspace_id = workspace_id && row.path = note.path) = true := by
    rw [List.any_eq_true]
    rintro ⟨row, mem, both⟩
    rw [Bool.and_eq_true, decide_eq_true_eq, decide_eq_true_eq] at both
    obtain ⟨isWorkspace, samePath⟩ := both
    refine noNote row mem (Prod.ext isWorkspace ?_)
    rw [paths row mem, isPath] at samePath
    exact conceptIdToPath_injective samePath
  have noMapping : ∀ mapping ∈ db.fts_mapping, mapping.key ≠ (workspace_id, note.concept_id) := by
    intro mapping mem isKey
    obtain ⟨row, found, same⟩ := ok.note_of_mapping mapping mem
    exact noNote row found (same.trans isKey)
  have new_rowid : ∀ text ∈ db.notes_fts, text.rowid ≠ db.nextRowid :=
    fun text mem => (lt_nextRowid mem).ne
  obtain ⟨notes, new_note⟩ := Option.isSome_iff_exists.mp
    (Table.insert?_isSome_iff (t := db.notes)
      (r := noteRow title_lookup_key workspace_id note) |>.mpr noNote)
  obtain ⟨texts, new_text⟩ := Option.isSome_iff_exists.mp
    (Table.insert?_isSome_iff (t := db.notes_fts) (r := ⟨db.nextRowid, note.title, note.text⟩)
      |>.mpr new_rowid)
  obtain ⟨mappings, new_mapping⟩ := Option.isSome_iff_exists.mp
    (Table.insert?_isSome_iff (t := db.fts_mapping)
      (r := ⟨workspace_id, note.concept_id, db.nextRowid⟩) |>.mpr noMapping)
  have noted : db.insertNote (noteRow title_lookup_key workspace_id note) =
      some { db with notes } := by
    unfold insertNote
    rw [if_pos ⟨known, noPath⟩, new_note]
    rfl
  have texted : insertText { db with notes } note.title note.text =
      some { db with notes, notes_fts := texts } := by
    unfold insertText
    rw [show nextRowid { db with notes } = db.nextRowid from rfl, new_text]
    rfl
  have owner : ∃ row ∈ notes, row.key = (workspace_id, note.concept_id) :=
    ⟨_, (Table.mem_insert? new_note).mpr (.inr rfl), rfl⟩
  have mapped : insertMapping { db with notes, notes_fts := texts }
      ⟨workspace_id, note.concept_id, db.nextRowid⟩ =
      some { db with notes, notes_fts := texts, fts_mapping := mappings } := by
    unfold insertMapping
    rw [if_pos (any_key_iff.mpr owner), new_mapping]
    rfl
  unfold Database.insertNoteRows
  simp only [Option.bind_eq_bind, noted, Option.bind_some, texted]
  rw [show nextRowid { db with notes } = db.nextRowid from rfl, mapped, Option.bind_some,
    insertLinks_eq _ owner]
  rfl

theorem PathsMatch.writeNoteRows (paths : db.PathsMatch)
    (isPath : note.path = conceptIdToPath note.concept_id)
    (written : db.writeNoteRows title_lookup_key workspace_id note = some db') :
    db'.PathsMatch := by
  obtain ⟨directories, inserted⟩ := writeNoteRows_spec written
  have removed : { db.removeNoteRows workspace_id note.concept_id with directories }.PathsMatch :=
    paths.removeRows _
  exact removed.insertNoteRows isPath inserted

theorem PathsMatch.insertAllNoteRows {notes : List IndexedNote} (paths : db.PathsMatch)
    (arePaths : ∀ note ∈ notes, note.path = conceptIdToPath note.concept_id)
    (inserted : notes.foldlM
      (fun db note => Database.insertNoteRows title_lookup_key db workspace_id note) db =
        some db') : db'.PathsMatch := by
  induction notes generalizing db with
  | nil =>
    obtain rfl := Option.some.inj inserted
    exact paths
  | cons note rest ih =>
    rw [List.foldlM_cons, Option.bind_eq_bind, Option.bind_eq_some_iff] at inserted
    obtain ⟨db₁, first, inserted⟩ := inserted
    exact ih (paths.insertNoteRows (arePaths note List.mem_cons_self) first)
      (fun note mem => arePaths note (List.mem_cons_of_mem _ mem)) inserted

theorem PathsMatch.writeScannedBundle {scanned : ScannedBundle} (paths : db.PathsMatch)
    (arePaths : ∀ note ∈ scanned.notes, note.path = conceptIdToPath note.concept_id)
    (written : db.writeScannedBundle title_lookup_key workspace_id scanned = some db') :
    db'.PathsMatch := by
  obtain ⟨directories, inserted⟩ := writeScannedBundle_spec written
  have removed : { db.removeRows (fun key => key.1 = workspace_id) with directories }.PathsMatch :=
    paths.removeRows _
  exact removed.insertAllNoteRows arePaths inserted

theorem insertNoteRows_frame
    (inserted : db.insertNoteRows title_lookup_key workspace_id note = some db') :
    db'.workspaces = db.workspaces ∧ db'.drafts = db.drafts := by
  obtain ⟨notes, texts, mappings, -, -, -, rfl⟩ := insertNoteRows_spec inserted
  exact ⟨rfl, rfl⟩

theorem writeNoteRows_frame
    (written : db.writeNoteRows title_lookup_key workspace_id note = some db') :
    db'.workspaces = db.workspaces ∧ db'.drafts = db.drafts := by
  obtain ⟨directories, inserted⟩ := writeNoteRows_spec written
  obtain ⟨workspaces, drafts⟩ := insertNoteRows_frame inserted
  exact ⟨workspaces, drafts⟩

theorem insertAll_frame {notes : List IndexedNote}
    (inserted : notes.foldlM (fun db note => insertNoteRows title_lookup_key db workspace_id note)
      db = some db') :
    db'.workspaces = db.workspaces ∧ db'.drafts = db.drafts := by
  induction notes generalizing db with
  | nil =>
    obtain rfl := Option.some.inj inserted
    exact ⟨rfl, rfl⟩
  | cons note rest ih =>
    rw [List.foldlM_cons, Option.bind_eq_bind, Option.bind_eq_some_iff] at inserted
    obtain ⟨db₁, first, inserted⟩ := inserted
    obtain ⟨workspaces, drafts⟩ := insertNoteRows_frame first
    obtain ⟨workspaces', drafts'⟩ := ih inserted
    exact ⟨workspaces'.trans workspaces, drafts'.trans drafts⟩

theorem writeScannedBundle_frame {scanned : ScannedBundle}
    (written : db.writeScannedBundle title_lookup_key workspace_id scanned = some db') :
    db'.workspaces = db.workspaces ∧ db'.drafts = db.drafts := by
  obtain ⟨directories, inserted⟩ := writeScannedBundle_spec written
  obtain ⟨workspaces, drafts⟩ := insertAll_frame inserted
  exact ⟨workspaces, drafts⟩

theorem insertDirectories_isSome (known : workspace_id ∈ db.workspaces) (directories : List Text) :
    ∃ table, directories.foldlM
      (fun db directory => insertDirectory db workspace_id directory) db =
        some { db with directories := table } := by
  induction directories generalizing db with
  | nil => exact ⟨_, rfl⟩
  | cons directory rest ih =>
    rw [List.foldlM_cons, insertDirectory, if_pos known]
    exact @ih { db with directories := _ } known

theorem writeNoteRows_isSome (ok : db.Consistent) (paths : db.PathsMatch)
    (known : workspace_id ∈ db.workspaces)
    (isPath : note.path = conceptIdToPath note.concept_id) :
    (db.writeNoteRows title_lookup_key workspace_id note).isSome := by
  obtain ⟨table, recorded⟩ :
      ∃ table, (db.removeNoteRows workspace_id note.concept_id).recordDirectories workspace_id
        (containingDir note.concept_id) =
          some { db.removeNoteRows workspace_id note.concept_id with directories := table } :=
    @insertDirectories_isSome (db.removeNoteRows workspace_id note.concept_id) _ known _
  have removed := ok.removeRows fun key => key = (workspace_id, note.concept_id)
  have free : (db.removeNoteRows workspace_id note.concept_id).notes.find?
      (workspace_id, note.concept_id) = none := by
    rw [Table.find?_eq_none_iff]
    intro row mem isKey
    simpa [isKey] using (mem_notes_removeRows.mp mem).2
  unfold Database.writeNoteRows
  simp only [Option.bind_eq_bind, recorded, Option.bind_some]
  exact insertNoteRows_isSome (removed.with_directories table) (paths.removeRows _) known free isPath

/-- Notes with ids of their own all go in. -/
theorem insertAll_isSome {notes : List IndexedNote} (ok : db.Consistent) (paths : db.PathsMatch)
    (known : workspace_id ∈ db.workspaces) (apart : (notes.map IndexedNote.concept_id).Nodup)
    (free : ∀ note ∈ notes, db.notes.find? (workspace_id, note.concept_id) = none)
    (arePaths : ∀ note ∈ notes, note.path = conceptIdToPath note.concept_id) :
    (notes.foldlM (fun db note => Database.insertNoteRows title_lookup_key db workspace_id note)
      db).isSome := by
  induction notes generalizing db with
  | nil => rfl
  | cons first rest ih =>
    rw [List.map_cons, List.nodup_cons] at apart
    obtain ⟨db₁, inserted⟩ := Option.isSome_iff_exists.mp
      (@insertNoteRows_isSome title_lookup_key db workspace_id first ok paths known
        (free first List.mem_cons_self) (arePaths first List.mem_cons_self))
    obtain ⟨table, texts, mappings, new_note, -, -, rfl⟩ := insertNoteRows_spec inserted
    rw [List.foldlM_cons, inserted]
    refine ih (ok.insertNoteRows inserted)
      (paths.insertNoteRows (arePaths first List.mem_cons_self) inserted) known apart.2 ?_
      fun note mem => arePaths note (List.mem_cons_of_mem _ mem)
    intro note mem
    rw [Table.find?_insert? new_note, if_neg, free note (List.mem_cons_of_mem _ mem)]
    intro same
    simp only [noteRow_key, Prod.mk.injEq, true_and] at same
    exact apart.1 (List.mem_map.mpr ⟨note, mem, same.symm⟩)

end Transactions

end Database

end Burlmd.Index
