import Burlmd.Index.Derive
import Burlmd.Library.Table

/-!
# The Local Index

The tables of the schema and the statements that the index, the sessions and the
lifecycle operations execute. A statement that violates a constraint is `none`; the
transaction around it then leaves the database as it was.
-/

namespace Burlmd.Index

open Utf8 (Text)
open Okf (ConceptId containingDir slash)

abbrev WorkspaceId := Text

/-- What identifies a Note in the database: a concept id is unique in one Workspace only. -/
abbrev NoteKey := WorkspaceId × ConceptId

structure NoteRow where
  workspace_id : WorkspaceId
  id : ConceptId
  path : Text
  title : Text
  title_lookup_key : Text
  last_modified : Int
  content_hash : Text
  okf_conformant : Bool
  deriving DecidableEq, Repr

def NoteRow.key (row : NoteRow) : NoteKey := (row.workspace_id, row.id)

structure FtsRow where
  rowid : Nat
  title : Text
  content : Text
  deriving DecidableEq, Repr

structure MappingRow where
  workspace_id : WorkspaceId
  note_id : ConceptId
  fts_rowid : Nat
  deriving DecidableEq, Repr

def MappingRow.key (row : MappingRow) : NoteKey := (row.workspace_id, row.note_id)

structure LinkRow where
  workspace_id : WorkspaceId
  source_id : ConceptId
  target_id : ConceptId
  target_title : Text
  deriving DecidableEq, Repr

def LinkRow.key (row : LinkRow) : WorkspaceId × ConceptId × ConceptId :=
  (row.workspace_id, row.source_id, row.target_id)

def LinkRow.source (row : LinkRow) : NoteKey := (row.workspace_id, row.source_id)

structure DirectoryRow where
  id : Text
  workspace_id : WorkspaceId
  path : Text
  deriving DecidableEq, Repr

def DirectoryRow.key (row : DirectoryRow) : WorkspaceId × Text := (row.workspace_id, row.id)

structure DraftRow where
  workspace_id : WorkspaceId
  note_id : ConceptId
  raw_markdown : Text
  updated_at : Int
  edit_seq : Int
  deriving DecidableEq, Repr

def DraftRow.key (row : DraftRow) : NoteKey := (row.workspace_id, row.note_id)

structure Database where
  workspaces : List WorkspaceId
  notes : Table NoteRow.key
  notes_fts : Table FtsRow.rowid
  fts_mapping : Table MappingRow.key
  links : Table LinkRow.key
  directories : Table DirectoryRow.key
  drafts : Table DraftRow.key

namespace Database

/-! ## Statements -/

/-- `DELETE FROM notes`, with the cascades of the mapping and of the outbound links. -/
def deleteNotes (db : Database) (p : NoteKey → Bool) : Database :=
  let deleted (key : NoteKey) : Bool := p key && db.notes.rows.any fun note => note.key = key
  { db with
    notes := db.notes.delete fun note => p note.key
    fts_mapping := db.fts_mapping.delete fun mapping => deleted mapping.key
    links := db.links.delete fun link => deleted link.source }

def deleteText (db : Database) (p : NoteKey → Bool) : Database :=
  { db with
    notes_fts := db.notes_fts.delete fun text =>
      db.fts_mapping.rows.any fun mapping => p mapping.key && mapping.fts_rowid = text.rowid }

def insertNote (db : Database) (row : NoteRow) : Option Database :=
  if row.workspace_id ∈ db.workspaces ∧
      ¬db.notes.rows.any fun note =>
        note.workspace_id = row.workspace_id && note.path = row.path then
    (db.notes.insert? row).map fun notes => { db with notes }
  else none

/-- The rowid that SQLite gives the next full-text row. -/
def nextRowid (db : Database) : Nat := (db.notes_fts.rows.map FtsRow.rowid).foldr max 0 + 1

def insertText (db : Database) (title content : Text) : Option Database :=
  (db.notes_fts.insert? ⟨db.nextRowid, title, content⟩).map fun notes_fts => { db with notes_fts }

def insertMapping (db : Database) (row : MappingRow) : Option Database :=
  if db.notes.rows.any fun note => note.key = row.key then
    (db.fts_mapping.insert? row).map fun fts_mapping => { db with fts_mapping }
  else none

/-- `INSERT OR IGNORE` does not ignore a missing source. -/
def insertLink (db : Database) (row : LinkRow) : Option Database :=
  if db.notes.rows.any fun note => note.key = row.source then
    some { db with links := db.links.insertOrIgnore row }
  else none

def insertDirectory (db : Database) (workspace_id : WorkspaceId) (directory : Text) :
    Option Database :=
  if workspace_id ∈ db.workspaces then
    some { db with
      directories := db.directories.insertOrIgnore ⟨directory, workspace_id, directory⟩ }
  else none

def updateLinkTargets (db : Database) (workspace_id : WorkspaceId) (old_id new_id : ConceptId) :
    Database :=
  { db with
    links := db.links.updateOrReplace
      (fun link => link.workspace_id = workspace_id && link.target_id = old_id)
      fun link => { link with target_id := new_id } }

def clearDraft (db : Database) (workspace_id : WorkspaceId) (note_id : ConceptId) : Database :=
  { db with drafts := db.drafts.delete fun draft => draft.key = (workspace_id, note_id) }

def rekeyDraft (db : Database) (workspace_id : WorkspaceId) (old_id new_id : ConceptId) :
    Database :=
  { db with
    drafts := db.drafts.updateOrReplace (fun draft => draft.key = (workspace_id, old_id))
      fun draft => { draft with note_id := new_id } }

def rewriteDraft (db : Database) (workspace_id : WorkspaceId) (note_id : ConceptId)
    (raw_markdown : Text) (updated_at : Int) : Database :=
  { db with
    drafts := db.drafts.update (fun draft => draft.key = (workspace_id, note_id))
      (fun draft => { draft with raw_markdown, updated_at }) fun _ => rfl }

/-- The upsert of tier 1: a row that is newer stays. -/
def writeDraft (db : Database) (row : DraftRow) : Database :=
  match db.drafts.find? row.key with
  | some stored =>
      if stored.edit_seq < row.edit_seq then { db with drafts := db.drafts.put row } else db
  | none => { db with drafts := db.drafts.put row }

def clearDraftThrough (db : Database) (workspace_id : WorkspaceId) (note_id : ConceptId)
    (seq : Int) : Database :=
  { db with
    drafts := db.drafts.delete fun draft =>
      draft.key = (workspace_id, note_id) && draft.edit_seq ≤ seq }

/-! ## Queries -/

def storedContentHash (db : Database) (workspace_id : WorkspaceId) (concept_id : ConceptId) :
    Option Text :=
  (db.notes.find? (workspace_id, concept_id)).map NoteRow.content_hash

def indexedTitle (db : Database) (workspace_id : WorkspaceId) (note_id : ConceptId) :
    Option Text :=
  (db.notes.find? (workspace_id, note_id)).map NoteRow.title

def noteExists (db : Database) (workspace_id : WorkspaceId) (note_id : ConceptId) : Bool :=
  (db.notes.find? (workspace_id, note_id)).isSome

def draftExists (db : Database) (workspace_id : WorkspaceId) (note_id : ConceptId) : Bool :=
  (db.drafts.find? (workspace_id, note_id)).isSome

def directoryExists (db : Database) (workspace_id : WorkspaceId) (directory : Text) : Bool :=
  (db.directories.find? (workspace_id, directory)).isSome

def readDraft (db : Database) (workspace_id : WorkspaceId) (note_id : ConceptId) :
    Option DraftRow :=
  db.drafts.find? (workspace_id, note_id)

def draftNoteIds (db : Database) (workspace_id : WorkspaceId) : List ConceptId :=
  (db.drafts.rows.filter fun draft => draft.workspace_id = workspace_id).map DraftRow.note_id

def linkSources (db : Database) (workspace_id : WorkspaceId) (target_id : ConceptId) :
    List ConceptId :=
  ((db.links.rows.filter fun link =>
    link.workspace_id = workspace_id && link.target_id = target_id).map LinkRow.source_id).dedup

/-- `LIKE` with an escaped prefix folds the ASCII letters. -/
def likePrefix (prefix_ id : Text) : Bool :=
  (prefix_.map Char.toLower).isPrefixOf (id.map Char.toLower)

def withPrefix (prefix_ : Text) (ids : List ConceptId) : List ConceptId :=
  (ids.filter (likePrefix prefix_)).filter prefix_.isPrefixOf

def noteIdsWithPrefix (db : Database) (workspace_id : WorkspaceId) (prefix_ : Text) :
    List ConceptId :=
  withPrefix prefix_
    ((db.notes.rows.filter fun note => note.workspace_id = workspace_id).map NoteRow.id)

def draftIdsWithPrefix (db : Database) (workspace_id : WorkspaceId) (prefix_ : Text) :
    List ConceptId :=
  withPrefix prefix_ (db.draftNoteIds workspace_id)

/-! ## The rows of a Note -/

/-- The canonical key of a title comes from the Unicode tables. -/
def noteRow (title_lookup_key : Text → Text) (workspace_id : WorkspaceId) (note : IndexedNote) :
    NoteRow where
  workspace_id
  id := note.concept_id
  path := note.path
  title := note.title
  title_lookup_key := title_lookup_key note.title
  last_modified := note.last_modified
  content_hash := note.content_hash
  okf_conformant := note.okf_conformant

@[simp] theorem noteRow_key (title_lookup_key : Text → Text) (workspace_id : WorkspaceId)
    (note : IndexedNote) :
    (noteRow title_lookup_key workspace_id note).key = (workspace_id, note.concept_id) := rfl

def insertNoteRows (title_lookup_key : Text → Text) (db : Database) (workspace_id : WorkspaceId)
    (note : IndexedNote) : Option Database := do
  let db ← db.insertNote (noteRow title_lookup_key workspace_id note)
  let fts_rowid := db.nextRowid
  let db ← db.insertText note.title note.text
  let db ← db.insertMapping ⟨workspace_id, note.concept_id, fts_rowid⟩
  note.links.foldlM
    (fun db link =>
      db.insertLink ⟨workspace_id, note.concept_id, link.target_id, link.target_title⟩)
    db

/-- The directory and its ancestors, outermost first. -/
def directoryAncestors (directory : Text) : List Text :=
  let segments := (directory.splitOn slash).filter (· ≠ [])
  segments.inits.tail.map fun ancestor => [slash].intercalate ancestor

def recordDirectories (db : Database) (workspace_id : WorkspaceId) (directory : Text) :
    Option Database :=
  (directoryAncestors directory).foldlM (fun db ancestor => db.insertDirectory workspace_id ancestor)
    db

/-- The text goes first: the cascade destroys the mapping that leads to it. -/
def removeRows (db : Database) (p : NoteKey → Bool) : Database :=
  (db.deleteText p).deleteNotes p

def removeNoteRows (db : Database) (workspace_id : WorkspaceId) (note_id : ConceptId) : Database :=
  db.removeRows fun key => key = (workspace_id, note_id)

def writeNoteRows (title_lookup_key : Text → Text) (db : Database) (workspace_id : WorkspaceId)
    (note : IndexedNote) : Option Database := do
  let db := db.removeNoteRows workspace_id note.concept_id
  let db ← db.recordDirectories workspace_id (containingDir note.concept_id)
  db.insertNoteRows title_lookup_key workspace_id note

end Database

/-- What one walk of the bundle derived. -/
structure ScannedBundle where
  directories : List Text
  notes : List IndexedNote

/-- Replaces every row of the Workspace, in one transaction. -/
def Database.writeScannedBundle (title_lookup_key : Text → Text) (db : Database)
    (workspace_id : WorkspaceId) (scanned : ScannedBundle) : Option Database := do
  let db := db.removeRows fun key => key.1 = workspace_id
  let db : Database :=
    { db with directories := db.directories.delete fun row => row.workspace_id = workspace_id }
  let db ← scanned.directories.foldlM
    (fun db directory => db.insertDirectory workspace_id directory) db
  scanned.notes.foldlM (fun db note => db.insertNoteRows title_lookup_key workspace_id note) db

end Burlmd.Index
