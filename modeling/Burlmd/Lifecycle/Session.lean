import Burlmd.Index.Scan

/-!
# Sessions of open Notes

A session holds the text of an open Note, the revision of the file that this text is
based on, and a drafts row for what the file does not hold yet. The registry has one
session a concept id. Every operation here is one critical section of the Core.
-/

namespace Burlmd.Lifecycle

open Workspace
open Utf8 (Text byteLen)
open Okf (ConceptId)
open Index (WorkspaceId Database DraftRow derive)

structure NoteSession where
  note_id : ConceptId
  absolute_path : Path
  /-- The buffer: the text of the Note as last edited. -/
  source : Text
  edit_seq : Int
  /-- The hash of the file that the buffer was built on. -/
  revision : Text
  restored_from_draft : Bool
  /-- The session was opened without a file, so its first write creates one. -/
  awaiting_recreate : Bool
  session_edited : Bool
  unwritten : Bool
  conflicted : Bool
  last_error : Option AppError
  deriving DecidableEq

/-- What the process holds of one Workspace, beside the database it shares. -/
structure Core where
  bundle : Bundle
  db : Database
  sessions : Table NoteSession.note_id

variable (host : Host) (workspace_id : WorkspaceId)

/-! ## Files -/

def ioError (call : String) (path : Path) : AppError :=
  .ioError <| call.toList ++ " ".toList ++ host.display (path.map Name.text) ++ ": ".toList ++
    host.os_error (path.map Name.text)

/-- The bytes of a file, or nothing where there is none. -/
def readBytes (bundle : Bundle) (path : Path) : Except AppError (Option FileBytes) :=
  if bundle.isDir path then .error (ioError host "read" path) else .ok (bundle.read path)

def decodeSource (path : Path) (contents : FileBytes) : Except AppError Text :=
  match contents.fromUtf8 with
  | some source => .ok source
  | none =>
      .error <| .parseError <| host.display (path.map Name.text) ++
        " is not valid UTF-8, so it cannot be edited without corrupting it".toList

def fileMtime (bundle : Bundle) (path : Path) : Int := (bundle.file? path).elim 0 BundleFile.modified

/-- The bytes that an absent file counts as. -/
def absentFile : FileBytes := .text []

/-! ## Opening -/

/-- What a session starts from: the drafts row, or else the file. -/
def startOf (note_id : ConceptId) (path : Path) (draft : Option DraftRow)
    (on_disk : Option FileBytes) : Except AppError (Text × Int) :=
  match draft, on_disk with
  | some row, _ => .ok (row.raw_markdown, row.edit_seq)
  | none, some contents => (decodeSource host path contents).map fun source => (source, 0)
  | none, none => .error (.notFound ("no file on disk for concept id ".toList ++ note_id))

/-- A session that is open already is returned as it is. -/
def openNoteSerialized (core : Core) (note_id : ConceptId) : Except AppError (NoteSession × Core) :=
  match core.sessions.find? note_id with
  | some session => .ok (session, core)
  | none => do
      let absolute_path ← notePath host core.bundle note_id
      let on_disk ← readBytes host core.bundle absolute_path
      let draft := core.db.readDraft workspace_id note_id
      let (source, edit_seq) ← startOf host note_id absolute_path draft on_disk
      let session : NoteSession :=
        { note_id, absolute_path, source, edit_seq
          revision := (on_disk.getD absentFile).hash host
          restored_from_draft := draft.isSome
          awaiting_recreate := on_disk.isNone
          session_edited := draft.isSome
          unwritten := draft.isSome
          conflicted := false
          last_error := none }
      return (session, { core with sessions := core.sessions.put session })

/-! ## Editing -/

def refuseWhileConflicted (session : NoteSession) (what : Text) : Except AppError Unit :=
  if session.conflicted then
    .error <| .parseError <| session.note_id ++ " holds an unresolved merge conflict, so ".toList ++
      what ++ (" is refused: the Suggestion nodes the reload installed renumbered this Note's " ++
        "Blocks and the span map still indexes the raw markers, so no block_path addresses the " ++
        "same Block in both. Resolve the conflict in the file, then reload the Note.").toList
  else .ok ()

/-- Every edit call ends here: a new text in the buffer, and its drafts row. -/
def edit (core : Core) (session : NoteSession) (what new_source : Text) (now : Int) :
    Except AppError Core := do
  refuseWhileConflicted session what
  let edit_seq := session.edit_seq + 1
  return { core with
    sessions := core.sessions.put
      { session with source := new_source, edit_seq, session_edited := true, unwritten := true }
    db := core.db.writeDraft ⟨workspace_id, session.note_id, new_source, now, edit_seq⟩ }

/-! ## Tier 2 -/

/-- What the system refuses to the calls that write a file, and the database to the statements
after them. -/
structure WriteFaults where
  directory : Option AppError
  file : Option AppError
  clear_draft : Option AppError
  index : Option AppError

def WriteFaults.none : WriteFaults := ⟨Option.none, Option.none, Option.none, Option.none⟩

/-- What a tier 2 write finds in the place of its file. -/
def diskOf (bundle : Bundle) (session : NoteSession) : Except AppError FileBytes := do
  match ← readBytes host bundle session.absolute_path with
  | some contents => return contents
  | none =>
      if session.awaiting_recreate then return absentFile
      else
        .error <| .notFound <| "the file for ".toList ++ session.note_id ++
          " is no longer on disk".toList

def indexWrittenSource (core : Core) (session : NoteSession) (revision : Text) :
    Except AppError Core :=
  if core.db.storedContentHash workspace_id session.note_id = some revision then .ok core
  else
    let modified := fileMtime core.bundle session.absolute_path
    match core.db.writeNoteRows host.title_lookup_key workspace_id
        (derive host session.note_id (.text session.source) modified) with
    | some db => .ok { core with db }
    | none => .error (.databaseError [])

/-- The file after a tier 2 write, which leaves it alone when it holds these bytes already. -/
def publishSource (bundle : Bundle) (session : NoteSession) (on_disk : FileBytes) (now : Int) :
    Bundle :=
  let written := FileBytes.text session.source
  if written.hash host ≠ on_disk.hash host ∨ session.awaiting_recreate then
    (bundle.createDirAll session.absolute_path.dropLast).atomicWrite session.absolute_path written
      now
  else bundle

/-- Why the file is not written, and the bundle without it. The directory of a file that comes
back is there by then. -/
def refusedWrite (bundle : Bundle) (session : NoteSession) (on_disk : FileBytes)
    (faults : WriteFaults) : Option (Bundle × AppError) :=
  let written := FileBytes.text session.source
  if session.awaiting_recreate then
    match faults.directory with
    | some error => some (bundle, error)
    | none => faults.file.map fun error => (bundle.createDirAll session.absolute_path.dropLast, error)
  else if written.hash host ≠ on_disk.hash host then faults.file.map fun error => (bundle, error)
  else none

/-- What follows the file write: the draft goes, then the index catches up. -/
def settleWrite (core : Core) (session : NoteSession) (faults : WriteFaults) :
    Core × Except AppError Text :=
  match faults.clear_draft with
  | some error => (core, .error error)
  | none =>
      let core := { core with
        db := core.db.clearDraftThrough workspace_id session.note_id session.edit_seq }
      match faults.index with
      | some error => (core, .error error)
      | none =>
          match indexWrittenSource host workspace_id core session session.revision with
          | .error error => (core, .error error)
          | .ok core =>
              ({ core with
                  sessions := core.sessions.put { session with last_error := none, unwritten := false } },
                .ok session.revision)

def writeLocked (core : Core) (session : NoteSession) (now : Int) (faults : WriteFaults) :
    Core × Except AppError Text :=
  match diskOf host core.bundle session with
  | .error error => (core, .error error)
  | .ok on_disk =>
      if on_disk.hash host ≠ session.revision then
        (core, .error (.revisionMismatch (on_disk.hash host)))
      else
        let written : NoteSession :=
          { session with
            revision := (FileBytes.text session.source).hash host
            awaiting_recreate := false }
        match refusedWrite host core.bundle session on_disk faults with
        | some (bundle, error) => ({ core with bundle }, .error error)
        | none =>
            let core := { core with
              bundle := publishSource host core.bundle session on_disk now
              sessions := core.sessions.put written }
            settleWrite host workspace_id core written faults

/-- Keeps the error of a refused write where the status line reads it. -/
def recordError (core : Core) (note_id : ConceptId) (error : AppError) : Core :=
  match core.sessions.find? note_id with
  | some session =>
      { core with sessions := core.sessions.put { session with last_error := some error } }
  | none => core

/-- An idle write is the same call. -/
def flush (core : Core) (session : NoteSession) (now : Int) (faults : WriteFaults) :
    Core × Except AppError Text :=
  match writeLocked host workspace_id core session now faults with
  | (core, .ok revision) => (core, .ok revision)
  | (core, .error error) => (recordError core session.note_id error, .error error)

/-! ## Reloading and closing -/

/-- Whether the file holds conflict markers is the merge's business. -/
def reload (core : Core) (session : NoteSession) (conflicted : Bool) : Except AppError Core := do
  let contents ← match ← readBytes host core.bundle session.absolute_path with
    | some contents => .ok contents
    | none =>
        .error <| .notFound <| "the file for ".toList ++ session.note_id ++
          " is no longer on disk".toList
  let source ← decodeSource host session.absolute_path contents
  return { core with
    db := core.db.clearDraft workspace_id session.note_id
    sessions := core.sessions.put
      { session with
        source
        revision := contents.hash host
        awaiting_recreate := false
        restored_from_draft := false
        unwritten := false
        conflicted
        last_error := none } }

/-- The session leaves the registry; handles to it are closed from then on. -/
def discardSession (core : Core) (note_id : ConceptId) : Core :=
  { core with sessions := core.sessions.delete fun session => session.note_id = note_id }

/-- A close flushes what is unwritten. A vanished file does not hold it up. -/
def close (core : Core) (session : NoteSession) (now : Int) (faults : WriteFaults) :
    Core × Except AppError Unit :=
  if session.session_edited ∨ session.unwritten then
    match flush host workspace_id core session now faults with
    | (core, .ok _) =>
        let db := core.db.clearDraftThrough workspace_id session.note_id session.edit_seq
        (discardSession { core with db } session.note_id, .ok ())
    | (core, .error (.notFound _)) => (discardSession core session.note_id, .ok ())
    | (core, .error error) => (core, .error error)
  else (discardSession core session.note_id, .ok ())

/-! ## Settling a lifecycle operation -/

def installRewrite (session : NoteSession) (new_source : Option Text) (new_revision : Text) :
    NoteSession :=
  match new_source with
  | none => { session with revision := new_revision }
  | some rewritten =>
      { session with source := rewritten, revision := new_revision, conflicted := false }

/-- Gives the session of a Note its new identity, or its rewritten text. -/
def carrySessionForward (core : Core) (old_id new_id : ConceptId) (new_source : Option Text)
    (new_revision : Text) : Core :=
  match core.sessions.find? old_id with
  | none => core
  | some session =>
      if old_id = new_id then
        { core with sessions := core.sessions.put (installRewrite session new_source new_revision) }
      else
        match notePath host core.bundle new_id with
        | .error _ => core
        | .ok absolute_path =>
            let core := discardSession core old_id
            { core with
              sessions := core.sessions.put
                { session with
                  note_id := new_id
                  absolute_path
                  source := new_source.getD session.source
                  revision := new_revision
                  conflicted := false } }

/-! ## A bundle of one Note -/

theorem nameable_note : Nameable ['n', '.', 'm', 'd'] := by decide

def noteOnDisk (source : Text) : Bundle :=
  ⟨(∅ : Table BundleFile.path).put ⟨[⟨['n', '.', 'm', 'd'], nameable_note⟩], .text source, 0⟩, [],
    []⟩

theorem read_noteOnDisk {source : Text} {path : Path} : (noteOnDisk source).read path =
    if path = [⟨['n', '.', 'm', 'd'], nameable_note⟩] then some (.text source) else none := by
  unfold noteOnDisk Bundle.read Bundle.file?
  rw [Table.find?_put]
  by_cases own : path = [⟨['n', '.', 'm', 'd'], nameable_note⟩]
  · rw [if_pos own, if_pos own.symm]
    rfl
  · rw [if_neg own, if_neg (Ne.symm own)]
    rfl

end Burlmd.Lifecycle
