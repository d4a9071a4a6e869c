import Mathlib.Data.List.Dedup
import Burlmd.Index.StoreInvariant

/-!
# What the index holds of a Note

`rowsOf` reads the rows of one Note back. Each transaction changes it at the Notes it
names and nowhere else.
-/

namespace Burlmd.Index

open Utf8 (Text)
open Okf (ConceptId)

/-- A `notes` row without its key and the time of the last change. -/
structure NoteColumns where
  path : Text
  title : Text
  title_lookup_key : Text
  content_hash : Text
  okf_conformant : Bool
  deriving DecidableEq, Repr

def NoteRow.columns (row : NoteRow) : NoteColumns :=
  ⟨row.path, row.title, row.title_lookup_key, row.content_hash, row.okf_conformant⟩

@[ext] structure NoteRows where
  note : Option NoteColumns
  full_text : Option (Text × Text)
  /-- The title of the edge to each target. -/
  links : ConceptId → Option Text

namespace NoteRows

def none : NoteRows := ⟨.none, .none, fun _ => .none⟩

def derived (title_lookup_key : Text → Text) (note : IndexedNote) : NoteRows where
  note := some ⟨note.path, note.title, title_lookup_key note.title, note.content_hash,
    note.okf_conformant⟩
  full_text := some (note.title, note.text)
  links target_id :=
    (note.links.find? fun link => link.target_id = target_id).map LinkEdge.target_title

end NoteRows

theorem LinkRow.source_eq_of_key {link : LinkRow} {key : NoteKey} {target_id : ConceptId}
    (isKey : link.key = (key.1, key.2, target_id)) : link.source = key := by
  simp only [LinkRow.key, Prod.mk.injEq] at isKey
  exact Prod.ext isKey.1 isKey.2.1

namespace Database

def noteColumns (db : Database) (key : NoteKey) : Option NoteColumns :=
  (db.notes.find? key).map NoteRow.columns

def fullText (db : Database) (key : NoteKey) : Option (Text × Text) :=
  (db.fts_mapping.find? key).bind fun mapping =>
    (db.notes_fts.find? mapping.fts_rowid).map fun text => (text.title, text.content)

def linkTitle (db : Database) (key : NoteKey) (target_id : ConceptId) : Option Text :=
  (db.links.find? (key.1, key.2, target_id)).map LinkRow.target_title

def rowsOf (db : Database) (key : NoteKey) : NoteRows :=
  ⟨db.noteColumns key, db.fullText key, db.linkTitle key⟩

variable {title_lookup_key : Text → Text} {db db' : Database} {workspace_id : WorkspaceId}
  {note : IndexedNote} {p : NoteKey → Bool} {key : NoteKey}

theorem rowsOf_eq_none_of_free (ok : db.Consistent) (free : db.notes.find? key = none) :
    db.rowsOf key = .none := by
  have noNote : ¬∃ note ∈ db.notes, note.key = key := by
    rw [exists_note_iff, free]
    simp
  apply NoteRows.ext
  · simp [rowsOf, noteColumns, free, NoteRows.none]
  · have noMapping : db.fts_mapping.find? key = none := by
      rw [Table.find?_eq_none_iff]
      rintro mapping mem rfl
      exact noNote (ok.note_of_mapping mapping mem)
    simp [rowsOf, fullText, noMapping, NoteRows.none]
  · funext target_id
    have noLink : db.links.find? (key.1, key.2, target_id) = none := by
      rw [Table.find?_eq_none_iff]
      intro link mem isKey
      exact noNote (LinkRow.source_eq_of_key isKey ▸ ok.source_of_link link mem)
    simp [rowsOf, linkTitle, noLink, NoteRows.none]

theorem find?_notes_removeRows :
    (db.removeRows p).notes.find? key = if p key then none else db.notes.find? key :=
  Table.find?_of_mem_iff (fun _ => mem_notes_removeRows) key

theorem fullText_removeRows (ok : db.Consistent) (kept : p key = false) :
    (db.removeRows p).fullText key = db.fullText key := by
  have mapping_kept : (db.removeRows p).fts_mapping.find? key = db.fts_mapping.find? key := by
    rw [Table.find?_of_mem_iff (fun _ => mem_mapping_removeRows ok) key, kept]
    rfl
  unfold fullText
  rw [mapping_kept]
  cases found : db.fts_mapping.find? key with
  | none => rfl
  | some mapping =>
    obtain ⟨mem, rfl⟩ := Table.find?_eq_some_iff.mp found
    have text_kept : (db.removeRows p).notes_fts.find? mapping.fts_rowid =
        db.notes_fts.find? mapping.fts_rowid := by
      apply Table.find?_congr
      intro text isRow
      rw [mem_texts_removeRows]
      constructor
      · exact And.left
      · refine fun text_mem => ⟨text_mem, fun other other_mem shared => ?_⟩
        rw [ok.mapping_unique other other_mem mapping mem (shared.trans isRow)]
        exact kept
    simp only [Option.bind_some, text_kept]

theorem linkTitle_removeRows (ok : db.Consistent) (kept : p key = false) :
    (db.removeRows p).linkTitle key = db.linkTitle key := by
  funext target_id
  unfold linkTitle
  congr 1
  apply Table.find?_congr
  intro link isKey
  rw [mem_links_removeRows ok, LinkRow.source_eq_of_key isKey]
  constructor
  · exact And.left
  · exact fun mem => ⟨mem, kept⟩

theorem rowsOf_removeRows (ok : db.Consistent) (p : NoteKey → Bool) (key : NoteKey) :
    (db.removeRows p).rowsOf key = if p key then .none else db.rowsOf key := by
  split
  · rename_i deleted
    apply rowsOf_eq_none_of_free (ok.removeRows p)
    rw [find?_notes_removeRows, if_pos deleted]
  · rename_i kept
    rw [Bool.not_eq_true] at kept
    apply NoteRows.ext
    · simp [rowsOf, noteColumns, find?_notes_removeRows, kept]
    · exact fullText_removeRows ok kept
    · exact linkTitle_removeRows ok kept

theorem rowsOf_insertNoteRows (ok : db.Consistent)
    (inserted : db.insertNoteRows title_lookup_key workspace_id note = some db')
    (key : NoteKey) :
    db'.rowsOf key =
      if (workspace_id, note.concept_id) = key then .derived title_lookup_key note
      else db.rowsOf key := by
  obtain ⟨notes, texts, mappings, new_note, new_text, new_mapping, rfl⟩ :=
    insertNoteRows_spec inserted
  have free : db.notes.find? (workspace_id, note.concept_id) = none :=
    Table.find?_eq_none_iff.mpr (Table.insert?_eq_some_iff.mp new_note).1
  by_cases isKey : (workspace_id, note.concept_id) = key
  · subst isKey
    rw [if_pos rfl]
    apply NoteRows.ext
    · simp only [rowsOf, noteColumns, Table.find?_insert? new_note, noteRow_key, if_pos]
      rfl
    · simp only [rowsOf, fullText, Table.find?_insert? new_mapping, Table.find?_insert? new_text,
        MappingRow.key, if_pos, Option.bind_some, Option.map_some]
      rfl
    · funext target_id
      have noLink : db.links.find? (workspace_id, note.concept_id, target_id) = none := by
        have empty := congrFun (congrArg NoteRows.links (rowsOf_eq_none_of_free ok free)) target_id
        exact Option.map_eq_none_iff.mp empty
      have byTarget : ((fun row : LinkRow =>
            decide (row.key = (workspace_id, note.concept_id, target_id))) ∘ fun link : LinkEdge =>
              ⟨workspace_id, note.concept_id, link.target_id, link.target_title⟩) =
          fun link => decide (link.target_id = target_id) := by
        funext link
        simp [LinkRow.key]
      simp only [rowsOf, linkTitle, Table.find?_insertAllOrIgnore, noLink, Option.none_or,
        List.find?_map, Option.map_map, NoteRows.derived, byTarget]
      rfl
  · rw [if_neg isKey]
    apply NoteRows.ext
    · simp [rowsOf, noteColumns, Table.find?_insert? new_note, isKey]
    · simp only [rowsOf, fullText, Table.find?_insert? new_mapping, MappingRow.key, isKey,
        ↓reduceIte]
      cases found : db.fts_mapping.find? key with
      | none => rfl
      | some mapping =>
        obtain ⟨text, text_mem, same⟩ :=
          ok.text_of_mapping mapping (Table.find?_eq_some_iff.mp found).1
        have older : db.nextRowid ≠ mapping.fts_rowid := (same ▸ lt_nextRowid text_mem).ne'
        simp only [Option.bind_some, Table.find?_insert? new_text, older, ↓reduceIte]
    · funext target_id
      simp only [rowsOf, linkTitle, Table.find?_insertAllOrIgnore]
      have none_new : (note.links.map fun link =>
          (⟨workspace_id, note.concept_id, link.target_id, link.target_title⟩ : LinkRow)).find?
            (fun link => link.key = (key.1, key.2, target_id)) = none := by
        simp only [List.find?_eq_none, List.mem_map, decide_eq_true_eq]
        rintro _ ⟨link, -, rfl⟩ same
        exact isKey (LinkRow.source_eq_of_key same)
      rw [none_new, Option.or_none]

@[simp] theorem rowsOf_with_directories (directories : Table DirectoryRow.key) :
    { db with directories }.rowsOf = db.rowsOf := rfl

@[simp] theorem rowsOf_with_drafts (drafts : Table DraftRow.key) :
    { db with drafts }.rowsOf = db.rowsOf := rfl

theorem storedContentHash_eq (db : Database) (workspace_id : WorkspaceId) (id : ConceptId) :
    db.storedContentHash workspace_id id =
      (db.rowsOf (workspace_id, id)).note.map NoteColumns.content_hash := by
  simp only [storedContentHash, rowsOf, noteColumns, Option.map_map]
  rfl

theorem rowsOf_writeNoteRows (ok : db.Consistent)
    (written : db.writeNoteRows title_lookup_key workspace_id note = some db')
    (key : NoteKey) :
    db'.rowsOf key =
      if (workspace_id, note.concept_id) = key then .derived title_lookup_key note
      else db.rowsOf key := by
  obtain ⟨directories, inserted⟩ := writeNoteRows_spec written
  have removed := (ok.removeRows fun key => key = (workspace_id, note.concept_id))
  rw [rowsOf_insertNoteRows (removed.with_directories directories) inserted]
  split
  · rfl
  · rename_i other
    rw [rowsOf_with_directories, rowsOf_removeRows ok,
      if_neg (by simpa using fun same => other (Eq.symm same))]

/-- Notes that go in one after the other have ids of their own. -/
theorem free_of_insertAll {notes : List IndexedNote}
    (inserted : notes.foldlM (fun db note => insertNoteRows title_lookup_key db workspace_id note)
      db = some db') :
    ∀ note ∈ notes, db.notes.find? (workspace_id, note.concept_id) = none := by
  induction notes generalizing db with
  | nil => simp
  | cons first rest ih =>
    rw [List.foldlM_cons, Option.bind_eq_bind, Option.bind_eq_some_iff] at inserted
    obtain ⟨db₁, head, inserted⟩ := inserted
    obtain ⟨notes, texts, mappings, new_note, new_text, new_mapping, rfl⟩ :=
      insertNoteRows_spec head
    intro note mem
    rcases List.mem_cons.mp mem with rfl | mem
    · exact Table.find?_eq_none_iff.mpr (Table.insert?_eq_some_iff.mp new_note).1
    · have free := ih inserted note mem
      rw [Table.find?_insert? new_note] at free
      split at free
      · cases free
      · exact free

theorem rowsOf_insertAll {notes : List IndexedNote} (ok : db.Consistent)
    (inserted : notes.foldlM (fun db note => insertNoteRows title_lookup_key db workspace_id note)
      db = some db') (key : NoteKey) :
    db'.rowsOf key =
      ((notes.find? fun note => (workspace_id, note.concept_id) = key).map
        (NoteRows.derived title_lookup_key)).getD (db.rowsOf key) := by
  induction notes generalizing db with
  | nil =>
    obtain rfl := Option.some.inj inserted
    rfl
  | cons first rest ih =>
    rw [List.foldlM_cons, Option.bind_eq_bind, Option.bind_eq_some_iff] at inserted
    obtain ⟨db₁, head, inserted⟩ := inserted
    rw [ih (ok.insertNoteRows head) inserted, rowsOf_insertNoteRows ok head, List.find?_cons]
    by_cases isFirst : (workspace_id, first.concept_id) = key
    · subst isFirst
      have noOther : rest.find? (fun note =>
          (workspace_id, note.concept_id) = (workspace_id, first.concept_id)) = none := by
        rw [List.find?_eq_none]
        intro note mem same
        have free := free_of_insertAll inserted note mem
        obtain ⟨notes, texts, mappings, new_note, -, -, rfl⟩ := insertNoteRows_spec head
        rw [of_decide_eq_true same] at free
        exact Table.find?_eq_none_iff.mp free _ ((Table.mem_insert? new_note).mpr (.inr rfl)) rfl
      rw [noOther]
      simp
    · simp [isFirst]

/-- A rebuild leaves exactly what the scan derived. -/
theorem rowsOf_writeScannedBundle {scanned : ScannedBundle} (ok : db.Consistent)
    (written : db.writeScannedBundle title_lookup_key workspace_id scanned = some db')
    (id : ConceptId) :
    db'.rowsOf (workspace_id, id) =
      ((scanned.notes.find? fun note => note.concept_id = id).map
        (NoteRows.derived title_lookup_key)).getD .none := by
  obtain ⟨directories, inserted⟩ := writeScannedBundle_spec written
  have removed := ok.removeRows fun key => key.1 = workspace_id
  rw [rowsOf_insertAll (removed.with_directories directories) inserted, rowsOf_with_directories,
    rowsOf_removeRows ok, if_pos (by simp)]
  simp

/-- An edge that moves to a new target takes the rows of no other source with it. -/
theorem rowsOf_updateLinkTargets {old_id new_id : ConceptId}
    (noLink : ∀ link ∈ db.links, link.source = key → link.workspace_id = workspace_id →
      link.target_id ≠ old_id) :
    (db.updateLinkTargets workspace_id old_id new_id).rowsOf key = db.rowsOf key := by
  apply NoteRows.ext
  · rfl
  · rfl
  · funext target_id
    simp only [rowsOf, linkTitle]
    congr 1
    apply Table.find?_congr
    intro link isKey
    have source := LinkRow.source_eq_of_key isKey
    rw [mem_updateLinkTargets]
    constructor
    · rintro (⟨mem, -⟩ | ⟨edge, mem, isWorkspace, isTarget, rfl⟩)
      · exact mem
      · exact absurd isTarget (noLink edge mem source isWorkspace)
    · intro mem
      refine .inl ⟨mem, fun both => noLink link mem source both.1 both.2, ?_⟩
      intro edge edge_mem isWorkspace isTarget same
      refine noLink edge edge_mem ?_ isWorkspace isTarget
      rw [← source]
      simp only [LinkRow.key, Prod.mk.injEq] at same
      exact Prod.ext (isWorkspace.trans same.1.symm) same.2.1.symm

theorem mem_linkSources {source_id target_id : ConceptId} :
    source_id ∈ db.linkSources workspace_id target_id ↔
      ((db.rowsOf (workspace_id, source_id)).links target_id).isSome := by
  simp only [linkSources, List.mem_dedup, List.mem_map, List.mem_filter, Bool.and_eq_true,
    decide_eq_true_eq, rowsOf, linkTitle, Option.isSome_map, Option.isSome_iff_exists,
    Table.find?_eq_some_iff]
  constructor
  · rintro ⟨link, ⟨mem, rfl, rfl⟩, rfl⟩
    exact ⟨link, mem, rfl⟩
  · rintro ⟨link, mem, isKey⟩
    simp only [LinkRow.key, Prod.mk.injEq] at isKey
    exact ⟨link, ⟨mem, isKey.1, isKey.2.2⟩, isKey.2.1⟩

end Database

theorem NoteRows.derived_links_isSome {title_lookup_key : Text → Text} {note : IndexedNote}
    {target_id : ConceptId} :
    ((NoteRows.derived title_lookup_key note).links target_id).isSome ↔
      ∃ edge ∈ note.links, edge.target_id = target_id := by
  simp [NoteRows.derived, List.find?_isSome]

end Burlmd.Index
