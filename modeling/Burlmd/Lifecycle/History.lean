import Burlmd.Library.Machine
import Burlmd.Lifecycle.Operations

/-!
# The history of a Workspace

The calls of the application, the death of its process and what other programs do to the
files, in any order. Beside the Core a history keeps, for each id, the bytes that the
buffer of the Note was made from; these outlive the session, as its drafts row does.
-/

namespace Burlmd.Lifecycle

open Workspace
open Utf8 (Text)
open Okf (ConceptId)
open Index (WorkspaceId Database)

structure History where
  core : Core
  /-- The bytes that a session last read into its buffer, last wrote from it, or those
  bytes as a lifecycle operation rewrote them. -/
  reflects : ConceptId → FileBytes

inductive Happening where
  | open_ (note_id : ConceptId)
  | edit (note_id : ConceptId) (what new_source : Text) (now : Int)
  | flush (note_id : ConceptId) (now : Int) (faults : WriteFaults)
  | reload (note_id : ConceptId) (conflicted : Bool)
  | close (note_id : ConceptId) (now : Int) (faults : WriteFaults)
  | lifecycle (op : Operation) (now : Int) (faults : LifecycleFaults)
  /-- The process ends. The files and the database stay. -/
  | kill
  /-- Another program changes the files. -/
  | foreign (bundle : Bundle)
  /-- The index is rebuilt, which leaves the drafts alone. -/
  | index (db : Database)

variable (host : Host) (workspace_id : WorkspaceId)

/-! ## Plans carried out -/

/-- The plan of an operation, and the Core that it is planned on. -/
def Operation.plan (core : Core) : Operation → Option (Core × Reidentify)
  | .renameNote note_id new_title =>
      (planRename host workspace_id core note_id new_title).toOption.map fun planned =>
        (core, planned.2)
  | .moveNote note_id new_directory_path =>
      match locateMove host workspace_id core note_id new_directory_path with
      | .error _ => none
      | .ok (old_path, directory, bundle) =>
          (planMove host workspace_id { core with bundle } note_id directory old_path).toOption.map
            fun planned => ({ core with bundle }, planned.2)
  | .renameDirectory path new_name =>
      match planDirectoryRename host workspace_id core path new_name with
      | .error _ => none
      | .ok plan => plan.map fun plan => (core, plan)
  | _ => none

/-- The plan that goes through, with the Notes it affects. -/
def Operation.carriedOut (core : Core) (now : Int) (faults : LifecycleFaults) (op : Operation) :
    Option (Reidentify × List Affected) := do
  let (core, plan) ← op.plan host workspace_id core
  let _ ← (applyReidentify host workspace_id core plan now faults).toOption
  let affected ← (plan.planAffected host workspace_id core).toOption
  return (plan, affected)

/-! ## What the buffers reflect -/

/-- What an operation makes of the bytes of a file. -/
def Reidentify.rewriteBytes (plan : Reidentify) (old_id : ConceptId) : FileBytes → FileBytes
  | .text source =>
      match plan.rewrite host old_id source with
      | .ok (some rewritten) => .text rewritten
      | _ => .text source
  | .binary bytes invalid => .binary bytes invalid

/-- A session or a drafts row goes by this id. -/
def Core.holds (core : Core) (note_id : ConceptId) : Bool :=
  (core.sessions.find? note_id).isSome || (core.db.readDraft workspace_id note_id).isSome

/-- Where two spellings of an id meet, the last rewrite of their file is the one that stays. -/
def reflectCarried (core : Core) (plan : Reidentify) (affected : List Affected)
    (reflects : ConceptId → FileBytes) (note_id : ConceptId) : FileBytes :=
  match affected.find? fun a => a.new_id = note_id && core.holds workspace_id a.old_id,
      (affected.filter fun a => a.new_id = note_id).getLast? with
  | some a, some last => plan.rewriteBytes host last.old_id (reflects a.old_id)
  | _, _ => reflects note_id

/-- A session that starts from its file reflects that file; one that starts from a drafts
row reflects what the row was typed over. -/
def reflectOpened (core core' : Core) (reflects : ConceptId → FileBytes) (note_id : ConceptId) :
    FileBytes :=
  match core.sessions.find? note_id, core'.sessions.find? note_id with
  | none, some session =>
      if (core.db.readDraft workspace_id note_id).isSome then reflects note_id
      else (core'.bundle.read session.absolute_path).getD absentFile
  | _, _ => reflects note_id

/-- Whether a tier 2 write finds the revision that its session goes by. -/
def passesCheck (core : Core) (session : NoteSession) : Bool :=
  match diskOf host core.bundle session with
  | .error _ => false
  | .ok on_disk => on_disk.hash host = session.revision

/-- Whether the file holds the buffer behind a tier 2 write. -/
def goesThrough (core : Core) (session : NoteSession) (faults : WriteFaults) : Bool :=
  match diskOf host core.bundle session with
  | .error _ => false
  | .ok on_disk =>
      on_disk.hash host = session.revision &&
        (refusedWrite host core.bundle session on_disk faults).isNone

def reflectWritten (core : Core) (session : NoteSession) (faults : WriteFaults)
    (reflects : ConceptId → FileBytes) : ConceptId → FileBytes :=
  if goesThrough host core session faults then
    Function.update reflects session.note_id (.text session.source)
  else reflects

/-! ## Steps -/

/-- A close writes only what is not written. -/
def writesOnClose (session : NoteSession) : Bool := session.session_edited || session.unwritten

/-- The Core after a call that may refuse. -/
def settled (core : Core) : Except AppError Core → Core
  | .ok core => core
  | .error _ => core

namespace History

def initial (bundle : Bundle) (db : Database) (reflects : ConceptId → FileBytes) : History :=
  ⟨⟨bundle, db, ∅⟩, reflects⟩

variable (h : History)

def opened (note_id : ConceptId) : History :=
  let core := settled h.core
    ((openNoteSerialized host workspace_id h.core note_id).map Prod.snd)
  ⟨core, reflectOpened workspace_id h.core core h.reflects⟩

def edited (session : NoteSession) (what new_source : Text) (now : Int) : History :=
  { h with core := settled h.core (edit workspace_id h.core session what new_source now) }

def flushed (session : NoteSession) (now : Int) (faults : WriteFaults) : History :=
  ⟨(flush host workspace_id h.core session now faults).1,
    reflectWritten host h.core session faults h.reflects⟩

def reloaded (session : NoteSession) (conflicted : Bool) : History :=
  match reload host workspace_id h.core session conflicted with
  | .error _ => h
  | .ok core =>
      ⟨core, Function.update h.reflects session.note_id
        ((h.core.bundle.read session.absolute_path).getD absentFile)⟩

def closed (session : NoteSession) (now : Int) (faults : WriteFaults) : History :=
  ⟨(close host workspace_id h.core session now faults).1,
    if writesOnClose session then reflectWritten host h.core session faults h.reflects
    else h.reflects⟩

def performed (op : Operation) (now : Int) (faults : LifecycleFaults) : History :=
  let core := (op.perform host workspace_id h.core now faults).1
  match op.carriedOut host workspace_id h.core now faults with
  | some (plan, affected) =>
      ⟨core, reflectCarried host workspace_id h.core plan affected h.reflects⟩
  | none => ⟨core, reflectOpened workspace_id h.core core h.reflects⟩

/-- A call on a Note that is not open, or that is closed by now, does nothing. -/
def step (h : History) : Happening → Option History
  | .open_ note_id => some (h.opened host workspace_id note_id)
  | .edit note_id what new_source now => do
      let session ← h.core.sessions.find? note_id
      return h.edited workspace_id session what new_source now
  | .flush note_id now faults => do
      let session ← h.core.sessions.find? note_id
      return h.flushed host workspace_id session now faults
  | .reload note_id conflicted => do
      let session ← h.core.sessions.find? note_id
      return h.reloaded host workspace_id session conflicted
  | .close note_id now faults => do
      let session ← h.core.sessions.find? note_id
      return h.closed host workspace_id session now faults
  | .lifecycle op now faults => some (h.performed host workspace_id op now faults)
  | .kill => some { h with core := { h.core with sessions := ∅ } }
  | .foreign bundle => some { h with core := { h.core with bundle } }
  | .index db =>
      some { h with core := { h.core with db := { db with drafts := h.core.db.drafts } } }

end History

end Burlmd.Lifecycle
