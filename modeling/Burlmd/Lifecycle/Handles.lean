import Burlmd.Library.Machine
import Burlmd.Lifecycle.Session

/-!
# Handles of sessions

Threads look sessions up in the registry and hold on to them. A close, a flush and a reload
run in stages that no common lock covers, so a session can be retired, and its Note opened
again, in the middle of a call. Only the lifecycle lock is modelled: it keeps the openings
and the lifecycle operations apart. The locks of a single session forbid some of these
orders, so what holds of all of them holds of the code.
-/

namespace Burlmd.Lifecycle

open Workspace
open Utf8 (Text)
open Okf (ConceptId)
open Index (WorkspaceId Database)

abbrev Thread := Nat

abbrev Handle := Nat

/-- What all handles to one session share. -/
structure SessionInner where
  state : NoteSession
  closed : Bool

/-- An entry of the registry. -/
structure Registered where
  note_id : ConceptId
  handle : Handle
  deriving DecidableEq

/-! ## Calls in progress -/

/-- What a flush has read of the state. -/
structure Snapshot where
  source : Text
  seq : Int
  revision : Text

inductive FlushStage where
  | checking
  | comparing (snapshot : Snapshot)
  | publishing (snapshot : Snapshot) (on_disk : FileBytes)
  | recording (snapshot : Snapshot)
  | clearing (snapshot : Snapshot)
  | indexing (snapshot : Snapshot)
  | settling (snapshot : Snapshot)

inductive CloseStage where
  | flushing (stage : FlushStage)
  | clearing (seq : Int)
  | retiring (file_vanished : Bool)
  | removing

inductive ReloadStage where
  | reading
  | clearing (source revision : Text)
  | installing (source revision : Text)

inductive LifecycleStage where
  | between
  /-- The session is built, and not in the registry yet. -/
  | opening (session : NoteSession)
  /-- Out of the registry, and not closed yet. -/
  | discarding (handle : Handle)
  | carrying (handle : Handle) (new_id : ConceptId) (absolute_path : Path)
      (new_source : Option Text) (new_revision : Text)
  | inserting (session : NoteSession)

inductive Call where
  | idle
  /-- A firing of the idle timer is a flush. -/
  | flush (handle : Handle) (stage : FlushStage)
  | close (handle : Handle) (stage : CloseStage)
  | reload (handle : Handle) (conflicted : Bool) (stage : ReloadStage)
  /-- The edit is in the buffer, and not in the drafts table yet. -/
  | edit (handle : Handle) (previous written : NoteSession)
  /-- An opening or a lifecycle operation, with the ids it has found free. -/
  | lifecycle (reserved : List ConceptId) (stage : LifecycleStage)

/-- The session whose handle a call holds. -/
def Call.handle? : Call → Option Handle
  | .flush handle _ | .close handle _ | .reload handle _ _ | .edit handle _ _ => some handle
  | .idle | .lifecycle _ _ => none

structure Runtime where
  bundle : Bundle
  db : Database
  /-- The sessions made so far, each at its handle. -/
  objects : List SessionInner
  registry : Table Registered.note_id
  calls : Thread → Call
  lifecycle_lock : Option Thread

inductive Action where
  | flush (t : Thread) (handle : Handle)
  | close (t : Thread) (handle : Handle)
  | reload (t : Thread) (handle : Handle) (conflicted : Bool)
  | edit (t : Thread) (handle : Handle) (what new_source : Text)
  /-- Takes the lifecycle lock, to open a Note or for a lifecycle operation. -/
  | lifecycle (t : Thread)
  /-- The next stage of the call, which may fail where it leaves the process. -/
  | advance (t : Thread) (now : Int) (fault : Option AppError)
  /-- The id is found free: no session is registered for it. -/
  | reserve (t : Thread) (note_id : ConceptId)
  /-- The files and the rows of a lifecycle operation. -/
  | publish (t : Thread) (bundle : Bundle) (db : Database)
  | openNote (t : Thread) (note_id : ConceptId)
  | carryForward (t : Thread) (old_id new_id : ConceptId) (new_source : Option Text)
      (new_revision : Text)
  | discard (t : Thread) (note_id : ConceptId)
  | unlock (t : Thread)
  /-- Another program changes the files. -/
  | foreign (bundle : Bundle)

variable (host : Host) (workspace_id : WorkspaceId)

namespace Runtime

/-! ## Pieces of a step -/

def session? (rt : Runtime) (handle : Handle) : Option SessionInner := rt.objects[handle]?

def registered? (rt : Runtime) (note_id : ConceptId) : Option Handle :=
  (rt.registry.find? note_id).map Registered.handle

def setCall (rt : Runtime) (t : Thread) (call : Call) : Runtime :=
  { rt with calls := Function.update rt.calls t call }

def setState (rt : Runtime) (handle : Handle) (inner : SessionInner) : Runtime :=
  { rt with objects := rt.objects.set handle inner }

/-- Puts a new session into the registry, in the place of the one that is there. -/
def insert (rt : Runtime) (session : NoteSession) : Runtime :=
  { rt with
    objects := rt.objects ++ [⟨session, false⟩]
    registry := rt.registry.put ⟨session.note_id, rt.objects.length⟩ }

def remove (rt : Runtime) (note_id : ConceptId) : Runtime :=
  { rt with registry := rt.registry.delete fun entry => entry.note_id = note_id }

/-! ## A tier 2 write -/

/-- A stage of a flush, and what comes next: another stage, or the result. -/
def flushStage (rt : Runtime) (handle : Handle) (inner : SessionInner) (now : Int)
    (fault : Option AppError) : FlushStage → Runtime × (FlushStage ⊕ Except AppError Int)
  | .checking =>
      if inner.closed then (rt, .inr (.ok inner.state.edit_seq))
      else
        (rt, .inl (.comparing ⟨inner.state.source, inner.state.edit_seq, inner.state.revision⟩))
  | .comparing snapshot =>
      match diskOf host rt.bundle inner.state with
      | .error error => (rt, .inr (.error error))
      | .ok on_disk =>
          if on_disk.hash host ≠ snapshot.revision then
            (rt, .inr (.error (.revisionMismatch (on_disk.hash host))))
          else (rt, .inl (.publishing snapshot on_disk))
  | .publishing snapshot on_disk =>
      match fault with
      | some error => (rt, .inr (.error error))
      | none =>
          ({ rt with
              bundle := publishSource host rt.bundle { inner.state with source := snapshot.source }
                on_disk now },
            .inl (.recording snapshot))
  | .recording snapshot =>
      (rt.setState handle { inner with
          state := { inner.state with
            revision := (FileBytes.text snapshot.source).hash host
            awaiting_recreate := false } },
        .inl (.clearing snapshot))
  | .clearing snapshot =>
      match fault with
      | some error => (rt, .inr (.error error))
      | none =>
          ({ rt with
              db := rt.db.clearDraftThrough workspace_id inner.state.note_id snapshot.seq },
            .inl (.indexing snapshot))
  | .indexing snapshot =>
      match fault with
      | some error => (rt, .inr (.error error))
      | none =>
          match indexWrittenSource host workspace_id ⟨rt.bundle, rt.db, ∅⟩
              { inner.state with source := snapshot.source }
              ((FileBytes.text snapshot.source).hash host) with
          | .error error => (rt, .inr (.error error))
          | .ok core => ({ rt with db := core.db }, .inl (.settling snapshot))
  | .settling snapshot =>
      (rt.setState handle { inner with
          state := { inner.state with
            last_error := none
            unwritten := inner.state.edit_seq > snapshot.seq } },
        .inr (.ok snapshot.seq))

/-- A refused write leaves its error where the status line reads it. -/
def recordError (rt : Runtime) (handle : Handle) (error : AppError) : Runtime :=
  match rt.session? handle with
  | some inner =>
      rt.setState handle { inner with state := { inner.state with last_error := some error } }
  | none => rt

/-! ## The stages of a call -/

def advanceFlush (rt : Runtime) (t : Thread) (handle : Handle) (inner : SessionInner) (now : Int)
    (fault : Option AppError) (stage : FlushStage) : Runtime :=
  match rt.flushStage host workspace_id handle inner now fault stage with
  | (rt, .inl stage) => rt.setCall t (.flush handle stage)
  | (rt, .inr (.ok _)) => rt.setCall t .idle
  | (rt, .inr (.error error)) => (rt.recordError handle error).setCall t .idle

def advanceClose (rt : Runtime) (t : Thread) (handle : Handle) (inner : SessionInner) (now : Int)
    (fault : Option AppError) : CloseStage → Runtime
  | .flushing stage =>
      match rt.flushStage host workspace_id handle inner now fault stage with
      | (rt, .inl stage) => rt.setCall t (.close handle (.flushing stage))
      | (rt, .inr (.ok seq)) => rt.setCall t (.close handle (.clearing seq))
      | (rt, .inr (.error error)) =>
          let rt := rt.recordError handle error
          match error with
          | .notFound _ => rt.setCall t (.close handle (.retiring true))
          | _ => rt.setCall t .idle
  | .clearing seq =>
      -- a clear that fails is reported in the end, and holds nothing up
      let db := if fault.isSome then rt.db
        else rt.db.clearDraftThrough workspace_id inner.state.note_id seq
      { rt with db }.setCall t (.close handle (.retiring false))
  | .retiring file_vanished =>
      (rt.setState handle
        ⟨{ inner.state with session_edited := false, unwritten := file_vanished }, true⟩).setCall t
          (.close handle .removing)
  | .removing => (rt.remove inner.state.note_id).setCall t .idle

def advanceReload (rt : Runtime) (t : Thread) (handle : Handle) (inner : SessionInner)
    (fault : Option AppError) (conflicted : Bool) : ReloadStage → Runtime
  | .reading =>
      match readBytes host rt.bundle inner.state.absolute_path with
      | .ok (some contents) =>
          match decodeSource host inner.state.absolute_path contents with
          | .ok source =>
              rt.setCall t (.reload handle conflicted (.clearing source (contents.hash host)))
          | .error _ => rt.setCall t .idle
      | _ => rt.setCall t .idle
  | .clearing source revision =>
      if fault.isSome then rt.setCall t .idle
      else
        { rt with db := rt.db.clearDraft workspace_id inner.state.note_id }.setCall t
          (.reload handle conflicted (.installing source revision))
  | .installing source revision =>
      (rt.setState handle { inner with
          state := { inner.state with
            source
            revision
            awaiting_recreate := false
            restored_from_draft := false
            unwritten := false
            conflicted
            last_error := none } }).setCall t .idle

/-- A drafts row that cannot be written takes its edit back, unless something came after. -/
def advanceEdit (rt : Runtime) (t : Thread) (handle : Handle) (inner : SessionInner) (now : Int)
    (fault : Option AppError) (previous written : NoteSession) : Runtime :=
  if fault.isSome then
    if inner.state.edit_seq ≠ written.edit_seq ∨ inner.state.revision ≠ previous.revision then
      rt.setCall t .idle
    else
      (rt.setState handle { inner with
          state := { inner.state with
            source := previous.source
            edit_seq := previous.edit_seq
            session_edited := previous.session_edited
            unwritten := previous.unwritten } }).setCall t .idle
  else
    { rt with
      db := rt.db.writeDraft
        ⟨workspace_id, written.note_id, written.source, now, written.edit_seq⟩ }.setCall t .idle

def advanceLifecycle (rt : Runtime) (t : Thread) (reserved : List ConceptId) :
    LifecycleStage → Option Runtime
  | .between => none
  | .opening session =>
      let rt := if (rt.registered? session.note_id).isSome then rt else rt.insert session
      some (rt.setCall t (.lifecycle (reserved.filter (· ≠ session.note_id)) .between))
  | .discarding handle => do
      let inner ← rt.session? handle
      return (rt.setState handle ⟨{ inner.state with unwritten := false }, true⟩).setCall t
        (.lifecycle reserved .between)
  | .carrying handle new_id absolute_path new_source new_revision => do
      let inner ← rt.session? handle
      return (rt.setState handle { inner with closed := true }).setCall t
        (.lifecycle reserved <| .inserting
          { inner.state with
            note_id := new_id
            absolute_path
            source := new_source.getD inner.state.source
            revision := new_revision
            conflicted := false })
  | .inserting session =>
      some ((rt.insert session).setCall t
        (.lifecycle (reserved.filter (· ≠ session.note_id)) .between))

def advance (rt : Runtime) (t : Thread) (now : Int) (fault : Option AppError) : Option Runtime :=
  match rt.calls t with
  | .idle => none
  | .flush handle stage => do
      let inner ← rt.session? handle
      return rt.advanceFlush host workspace_id t handle inner now fault stage
  | .close handle stage => do
      let inner ← rt.session? handle
      return rt.advanceClose host workspace_id t handle inner now fault stage
  | .reload handle conflicted stage => do
      let inner ← rt.session? handle
      return rt.advanceReload host workspace_id t handle inner fault conflicted stage
  | .edit handle previous written => do
      let inner ← rt.session? handle
      return rt.advanceEdit workspace_id t handle inner now fault previous written
  | .lifecycle reserved stage => rt.advanceLifecycle t reserved stage

/-! ## Steps -/

/-- A call on a handle starts on a thread that is in no other call. -/
def begin (rt : Runtime) (t : Thread) (handle : Handle) (start : SessionInner → Runtime) :
    Option Runtime :=
  match rt.calls t with
  | .idle => (rt.session? handle).map start
  | _ => none

/-- A step of the thread that holds the lifecycle lock, between two sessions. -/
def locked (rt : Runtime) (t : Thread) (next : List ConceptId → Option Runtime) : Option Runtime :=
  match rt.calls t with
  | .lifecycle reserved .between => next reserved
  | _ => none

/-- An edit on a closed session is refused. -/
def startEdit (rt : Runtime) (t : Thread) (handle : Handle) (what new_source : Text)
    (inner : SessionInner) : Runtime :=
  match inner.closed, refuseWhileConflicted inner.state what with
  | false, .ok () =>
      let written := { inner.state with
        source := new_source
        edit_seq := inner.state.edit_seq + 1
        session_edited := true
        unwritten := true }
      (rt.setState handle { inner with state := written }).setCall t
        (.edit handle inner.state written)
  | _, _ => rt

/-- A close that has nothing to write goes on to retire the session. -/
def startClose (rt : Runtime) (t : Thread) (handle : Handle) (inner : SessionInner) : Runtime :=
  rt.setCall t <| .close handle <|
    if inner.state.session_edited || inner.state.unwritten then .flushing .checking
    else .retiring false

def startCarry (rt : Runtime) (t : Thread) (reserved : List ConceptId) (old_id new_id : ConceptId)
    (new_source : Option Text) (new_revision : Text) : Option Runtime :=
  match rt.registered? old_id with
  | none => some rt
  | some handle =>
      if old_id = new_id then
        (rt.session? handle).map fun inner =>
          rt.setState handle
            { inner with state := installRewrite inner.state new_source new_revision }
      else
        match notePath host rt.bundle new_id with
        | .error _ => some rt
        | .ok absolute_path =>
            if new_id ∈ reserved then
              some ((rt.remove old_id).setCall t <| .lifecycle reserved <|
                .carrying handle new_id absolute_path new_source new_revision)
            else none

def step (rt : Runtime) : Action → Option Runtime
  | .flush t handle => rt.begin t handle fun _ => rt.setCall t (.flush handle .checking)
  | .close t handle => rt.begin t handle fun inner => rt.startClose t handle inner
  | .reload t handle conflicted =>
      rt.begin t handle fun _ => rt.setCall t (.reload handle conflicted .reading)
  | .edit t handle what new_source =>
      rt.begin t handle fun inner => rt.startEdit t handle what new_source inner
  | .lifecycle t =>
      match rt.calls t, rt.lifecycle_lock with
      | .idle, none =>
          some ({ rt with lifecycle_lock := some t }.setCall t (.lifecycle [] .between))
      | _, _ => none
  | .advance t now fault => rt.advance host workspace_id t now fault
  | .reserve t note_id =>
      rt.locked t fun reserved =>
        if (rt.registered? note_id).isSome then none
        else some (rt.setCall t (.lifecycle (note_id :: reserved) .between))
  | .publish t bundle db => rt.locked t fun _ => some { rt with bundle, db }
  | .openNote t note_id =>
      rt.locked t fun reserved =>
        if note_id ∈ reserved then
          match openNoteSerialized host workspace_id ⟨rt.bundle, rt.db, ∅⟩ note_id with
          | .error _ => none
          | .ok (session, _) => some (rt.setCall t (.lifecycle reserved (.opening session)))
        else none
  | .carryForward t old_id new_id new_source new_revision =>
      rt.locked t fun reserved =>
        rt.startCarry host t reserved old_id new_id new_source new_revision
  | .discard t note_id =>
      rt.locked t fun reserved =>
        match rt.registered? note_id with
        | none => some rt
        | some handle =>
            some ((rt.remove note_id).setCall t (.lifecycle reserved (.discarding handle)))
  | .unlock t =>
      rt.locked t fun _ => some ({ rt with lifecycle_lock := none }.setCall t .idle)
  | .foreign bundle => some { rt with bundle }

/-- No session is open and no call runs. -/
def initial (bundle : Bundle) (db : Database) : Runtime :=
  ⟨bundle, db, [], ∅, fun _ => .idle, none⟩

end Runtime

end Burlmd.Lifecycle
