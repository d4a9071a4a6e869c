import Burlmd.Library.Machine
import Burlmd.Snapshot.Schema

/-!
# The snapshot store

Three calls read the bytes at the snapshot path and judge them: a load, a save and the
clearing of a corrupt snapshot. Bytes that are not a current snapshot are moved aside by a
link and an unlink; bytes of an unknown or a later version also leave a guard, which later
saves look at first. A call is a sequence of file system steps, each of which may fail, and
the process may die after any of them.
-/

namespace Burlmd.Snapshot

open Utf8 (Text)
open Index (WorkspaceId)

abbrev Bytes := List UInt8

/-- The JSON reader and writer. -/
structure Codec where
  from_slice : Bytes → Option Value
  to_vec : PersistedWorkspaceSessionSnapshot → Bytes

/-- The files of the store. A key is a hash of a Workspace id, so no two of these names have
one spelling. -/
inductive FileName where
  | snapshot (key : Text)
  | laterVersionGuard (key : Text)
  | quarantine (key reason : Text) (pid sequence : Nat)
  deriving DecidableEq

abbrev Files := FileName → Option Bytes

inductive Request where
  | load
  | save (snapshot : ActiveWorkspaceSessionSnapshot)
  | clear_corrupt
  deriving DecidableEq

inductive Result where
  | loaded (snapshot : ActiveWorkspaceSessionSnapshot)
  | saved
  | cleared
  | failed (error : AppError)
  deriving DecidableEq

/-- Unverified bytes are those whose version is not known to be current. -/
inductive Stage where
  | inspecting
  | reading
  | guarding (reason : Text)
  | linking (reason : Text) (unverified : Bool)
  | unlinking (reason : Text) (unverified : Bool)
  | creating
  | writing (bytes : Bytes)
  deriving DecidableEq

structure Call where
  workspace_id : WorkspaceId
  request : Request
  stage : Stage
  deriving DecidableEq

structure Store where
  files : Files
  bundle : Bundle
  pid : Nat
  next_quarantine_file : Nat
  call : Option Call
  /-- What the last call has returned. -/
  result : Option Result

/-! ## Judging the bytes -/

inductive Verdict where
  | corrupt
  | later
  | unknown
  | invalid
  | valid (snapshot : ActiveWorkspaceSessionSnapshot)

def Verdict.unverified : Verdict → Bool
  | corrupt | later | unknown => true
  | invalid | valid _ => false

variable (host : Host) (codec : Codec)

def judge (bundle : Bundle) (workspace_id : WorkspaceId) (bytes : Bytes) : Verdict :=
  match codec.from_slice bytes with
  | none => .corrupt
  | some raw =>
      match snapshotVersion raw with
      | .later => .later
      | .unknown => .unknown
      | .current =>
          match parseCurrentSchema raw with
          | none => .invalid
          | some persisted =>
              match validateSemantics host bundle workspace_id persisted with
              | .error _ => .invalid
              | .ok () => .valid persisted.intoSnapshot

/-- A current snapshot of the Workspace. -/
def ValidSnapshot (bundle : Bundle) (workspace_id : WorkspaceId) (bytes : Bytes) : Prop :=
  ∃ raw persisted, codec.from_slice bytes = some raw ∧ snapshotVersion raw = .current ∧
    parseCurrentSchema raw = some persisted ∧
    validateSemantics host bundle workspace_id persisted = .ok ()

def key (workspace_id : WorkspaceId) : Text := host.content_hash (Utf8.bytes workspace_id)

def normalPathRefusal : AppError :=
  .parseError <| ("the active Workspace has preserved unverified or later session bytes; " ++
    "BURL-O005 owns any safe current-format recovery path").toList

namespace Store

def path (workspace_id : WorkspaceId) : FileName := .snapshot (key host workspace_id)

def guardPath (workspace_id : WorkspaceId) : FileName := .laterVersionGuard (key host workspace_id)

def quarantinePath (store : Store) (workspace_id : WorkspaceId) (reason : Text) : FileName :=
  .quarantine (key host workspace_id) reason store.pid store.next_quarantine_file

/-- Each try at a link takes a sequence number. -/
def attempted (store : Store) : Stage → Store
  | .linking _ _ => { store with next_quarantine_file := store.next_quarantine_file + 1 }
  | _ => store

def write (store : Store) (name : FileName) (contents : Option Bytes) : Store :=
  { store with files := Function.update store.files name contents }

def goTo (store : Store) (call : Call) (stage : Stage) : Store :=
  { store with call := some { call with stage } }

def finish (store : Store) (result : Result) : Store :=
  { store with call := none, result := some result }

/-- What follows where there is nothing left to move aside. -/
def proceed (store : Store) (call : Call) (unverified : Bool)
    (found : ActiveWorkspaceSessionSnapshot) : Store :=
  match call.request with
  | .load => store.finish (.loaded found)
  | .clear_corrupt => store.finish .cleared
  | .save _ =>
      if unverified then store.finish (.failed normalPathRefusal) else store.goTo call .creating

/-- A malformed snapshot that is cleared on request has a reason of its own. -/
def invalidReason : Request → Text
  | .clear_corrupt => "cleared".toList
  | _ => "invalid".toList

def read (store : Store) (call : Call) : Store :=
  match store.files (path host call.workspace_id) with
  | none => store.proceed call false .default
  | some bytes =>
      match judge host codec store.bundle call.workspace_id bytes with
      | .valid snapshot => store.proceed call false snapshot
      | .invalid => store.goTo call (.linking (invalidReason call.request) false)
      | .corrupt => store.goTo call (.guarding "corrupt".toList)
      | .later => store.goTo call (.guarding "later".toList)
      | .unknown => store.goTo call (.guarding "unknown".toList)

/-- A link is refused where its name is taken: the next sequence number is tried. -/
def link (store : Store) (call : Call) (reason : Text) (unverified : Bool) : Store :=
  let isolated := store.quarantinePath host call.workspace_id reason
  let store := store.attempted (.linking reason unverified)
  match store.files (path host call.workspace_id) with
  | none => store.proceed call unverified .default
  | some bytes =>
      match store.files isolated with
      | some _ => store
      | none => (store.write isolated (some bytes)).goTo call (.unlinking reason unverified)

def validated (store : Store) (call : Call) : Store :=
  match call.request with
  | .save snapshot =>
      let persisted := .fromSnapshot call.workspace_id snapshot
      match validateSemantics host store.bundle call.workspace_id persisted with
      | .error error => store.finish (.failed error)
      | .ok () => store.goTo call (.writing (codec.to_vec persisted))
  | _ => store

/-- A step of a call that its file system call does not fail. -/
def perform (store : Store) (call : Call) : Stage → Store
  | .inspecting =>
      match store.files (guardPath host call.workspace_id) with
      | some _ => store.finish (.failed normalPathRefusal)
      | none => store.goTo call .reading
  | .reading => store.read host codec call
  | .guarding reason =>
      (store.write (guardPath host call.workspace_id) (some (Utf8.bytes "refused".toList))).goTo call
        (.linking reason true)
  | .linking reason unverified => store.link host call reason unverified
  | .unlinking _ unverified =>
      (store.write (path host call.workspace_id) none).proceed call unverified .default
  | .creating => store.validated host codec call
  | .writing bytes => (store.write (path host call.workspace_id) (some bytes)).finish .saved

def firstStage : Request → Stage
  | .save _ => .inspecting
  | _ => .reading

end Store

inductive Action where
  | begin (workspace_id : WorkspaceId) (request : Request)
  /-- The next step of the call, or its failure. -/
  | advance (fault : Option AppError)
  /-- The process dies, and another one takes over. -/
  | die (pid : Nat)
  /-- Another program writes the snapshot path, or removes what is there. -/
  | external (workspace_id : WorkspaceId) (contents : Option Bytes)
  | change (bundle : Bundle)

/-- Bytes that were at a snapshot path during a call, and the bundles the Workspace had from
the begin of that call on. -/
structure Held where
  workspace_id : WorkspaceId
  bytes : Bytes
  bundles : List Bundle

/-- A store, and what was seen of it. -/
structure Record where
  store : Store
  /-- What was at the paths during calls, as long as no other program has written there. -/
  held : List Held
  /-- The bundles since the last call began. -/
  bundles : List Bundle
  /-- The call has read bytes whose version it does not know to be current. -/
  seen : Bool
  /-- Where a call that has read such bytes returned, and no step of it failed. -/
  refused : List WorkspaceId
  /-- The saves that went through, as long as neither path nor bundle has changed. -/
  saved : List (WorkspaceId × ActiveWorkspaceSessionSnapshot)

namespace Record

/-- The saves whose snapshot path is as it was. -/
def stillSaved (record : Record) (files : Files) :
    List (WorkspaceId × ActiveWorkspaceSessionSnapshot) :=
  record.saved.filter fun entry =>
    files (Store.path host entry.1) = record.store.files (Store.path host entry.1)

def atPath (files : Files) (workspace_id : WorkspaceId) (bundles : List Bundle) : List Held :=
  (files (Store.path host workspace_id)).toList.map fun bytes => ⟨workspace_id, bytes, bundles⟩

def seesUnverified (store : Store) (call : Call) : Bool :=
  call.stage = .reading &&
    (store.files (Store.path host call.workspace_id)).any fun bytes =>
      (judge host codec store.bundle call.workspace_id bytes).unverified

/-- The saves after a step of a call. One that returns counts if the bundle stood still during it. -/
def nowSaved (record : Record) (call : Call) (store : Store) :
    List (WorkspaceId × ActiveWorkspaceSessionSnapshot) :=
  match call.request, store.result with
  | .save snapshot, some .saved =>
      if store.call = none ∧ record.bundles.length = 1 then
        [(call.workspace_id, snapshot)]
      else []
  | _, _ => []

def step (record : Record) : Action → Option Record
  | .begin workspace_id request =>
      match record.store.call with
      | some _ => none
      | none =>
          some { record with
            store := { record.store with
              call := some ⟨workspace_id, request, Store.firstStage request⟩ }
            -- Another Workspace whose id has the same hash has this path too.
            held := atPath host record.store.files workspace_id [record.store.bundle] ++
              record.held.filter fun entry =>
                key host entry.workspace_id = key host workspace_id →
                  entry.workspace_id = workspace_id
            bundles := [record.store.bundle]
            seen := false }
  | .advance fault =>
      match record.store.call with
      | none => none
      | some call =>
          match fault with
          | some error =>
              some { record with
                store := (record.store.attempted call.stage).finish (.failed error) }
          | none =>
              let store := record.store.perform host codec call call.stage
              let seen := record.seen || seesUnverified host codec record.store call
              some { record with
                store
                held := atPath host store.files call.workspace_id record.bundles ++ record.held
                seen
                refused :=
                  if seen ∧ store.call = none then call.workspace_id :: record.refused
                  else record.refused
                saved := record.nowSaved call store ++ record.stillSaved host store.files }
  | .die pid =>
      some { record with
        store := { record.store with pid, next_quarantine_file := 0, call := none, result := none } }
  | .external workspace_id contents =>
      match record.store.call with
      | some _ => none
      | none =>
          let store := record.store.write (Store.path host workspace_id) contents
          some { record with
            store
            held := record.held.filter fun entry =>
              key host entry.workspace_id ≠ key host workspace_id
            saved := record.stillSaved host store.files }
  | .change bundle =>
      some { record with
        store := { record.store with bundle }
        held := record.held.map fun entry => { entry with bundles := bundle :: entry.bundles }
        bundles := bundle :: record.bundles
        saved := [] }

/-- Whatever was on disk before, no call has been made. -/
def initial (files : Files) (bundle : Bundle) (pid : Nat) : Record :=
  ⟨⟨files, bundle, pid, 0, none, none⟩, [], [bundle], false, [], []⟩

end Record

end Burlmd.Snapshot
