import Burlmd.Index.StoreInvariant
import Burlmd.Library.WriteBack
import Burlmd.Lifecycle.Handles
import Burlmd.Workspace.FileCalls

/-!
# The locks of a session

A session has two locks. Tier 2 writes and reloads take the one, edits and the end of a reload take the
other, so that an edit never waits for a file: it overlaps the writes. What the calls have read and have yet
to clear makes the drafts row and the file the two stores of a write-back.
-/

namespace Burlmd.Lifecycle

open Workspace
open Utf8 (Text)
open Okf (ConceptId)
open Index (WorkspaceId Database DraftRow)
open WriteBack (Stores)

/-! ## What a call holds -/

/-- What a tier 2 write has read, from its comparison on. -/
def FlushStage.snapshot? : FlushStage → Option Snapshot
  | .checking => none
  | .comparing snapshot | .publishing snapshot _ | .recording snapshot | .clearing snapshot
  | .indexing snapshot | .settling snapshot => some snapshot

namespace Call

/-- The stage of the tier 2 write that a call is in. -/
def stage? : Call → Option FlushStage
  | .flush _ stage | .close _ (.flushing stage) => some stage
  | _ => none

def snapshot? (call : Call) : Option Snapshot := call.stage?.bind FlushStage.snapshot?

/-- Up to which edit a close still clears the drafts row. -/
def clears? : Call → Option Int
  | .close _ (.clearing seq) => some seq
  | _ => none

/-- The call holds the lock of tier 2 writes. -/
def writes : Call → Bool
  | .reload _ _ .reading => false
  | .reload _ _ (.clearing _ _) | .reload _ _ (.installing _ _) => true
  | call => call.snapshot?.isSome

/-- The call holds the tier 1 lock. -/
def mutates : Call → Bool
  | .edit _ _ _ | .reload _ _ (.installing _ _) => true
  | _ => false

/-- The next stage takes the lock of tier 2 writes. -/
def takesWriteLock : Call → Bool
  | .flush _ .checking | .close _ (.flushing .checking) | .reload _ _ .reading => true
  | _ => false

/-- The next stage takes the tier 1 lock. -/
def takesTierOne : Call → Bool
  | .reload _ _ (.clearing _ _) => true
  | _ => false

end Call

/-- An action that takes a lock of the session waits until no call holds it. -/
def Runtime.Locks (rt : Runtime) : Action → Prop
  | .edit _ _ _ _ => ∀ u, (rt.calls u).mutates = false
  | .advance t _ _ =>
      ((rt.calls t).takesWriteLock = true → ∀ u, (rt.calls u).writes = false) ∧
        ((rt.calls t).takesTierOne = true → ∀ u, (rt.calls u).mutates = false)
  | _ => True

/-! ## The stores of a session -/

/-- What a tier 2 write has read, as the file gets it. -/
def Snapshot.version (snapshot : Snapshot) : FileBytes × Int := (.text snapshot.source, snapshot.seq)

/-- What a drafts row holds, as the file gets it. -/
def draftVersion (row : DraftRow) : FileBytes × Int := (.text row.raw_markdown, row.edit_seq)

variable {host : Host} {workspace_id : WorkspaceId} {note_id : ConceptId} {path : Path} {rt : Runtime}
  {t u : Thread} {call : Call} {db db' : Database} {bundle : Bundle} {session : NoteSession}

def Runtime.stores (workspace_id : WorkspaceId) (note_id : ConceptId) (path : Path) (rt : Runtime) :
    Stores FileBytes Thread where
  row := (rt.db.readDraft workspace_id note_id).map draftVersion
  file := rt.bundle.read path
  reads t := (rt.calls t).snapshot?.map Snapshot.version
  clears t := (rt.calls t).clears?

namespace Runtime

theorem calls_setCall : (rt.setCall t call).calls t = call := by
  unfold setCall
  exact Function.update_self t call rt.calls

theorem stores_setCall : (rt.setCall t call).stores workspace_id note_id path =
    (rt.stores workspace_id note_id path).hold t (call.snapshot?.map Snapshot.version) call.clears? := by
  apply Stores.ext
  · rfl
  · rfl
  · funext u
    rw [Stores.hold_reads]
    unfold stores setCall
    dsimp only
    rw [Function.update_apply]
    by_cases same : u = t
    · rw [if_pos same, if_pos same]
    · rw [if_neg same, if_neg same]
  · funext u
    rw [Stores.hold_clears]
    unfold stores setCall
    dsimp only
    rw [Function.update_apply]
    by_cases same : u = t
    · rw [if_pos same, if_pos same]
    · rw [if_neg same, if_neg same]

end Runtime

/-! ## The drafts row -/

theorem readDraft_writeDraft {row : DraftRow} (own : row.key = (workspace_id, note_id))
    (newer : ∀ stored, db.readDraft workspace_id note_id = some stored → stored.edit_seq < row.edit_seq) :
    (db.writeDraft row).readDraft workspace_id note_id = some row := by
  have put : ({ db with drafts := db.drafts.put row } : Database).readDraft workspace_id note_id = some row := by
    unfold Database.readDraft
    dsimp only
    rw [Table.find?_put, if_pos own]
  unfold Database.writeDraft
  cases found : db.drafts.find? row.key with
  | none => exact put
  | some stored =>
    rw [own] at found
    dsimp only
    rw [if_pos (newer stored found)]
    exact put

theorem readDraft_clearDraft : (db.clearDraft workspace_id note_id).readDraft workspace_id note_id = none := by
  unfold Database.readDraft Database.clearDraft
  rw [Table.find?_eq_none_iff]
  intro row mem own
  rcases Table.mem_delete.mp mem with ⟨-, kept⟩
  exact absurd own (of_decide_eq_false kept)

theorem readDraft_clearDraftThrough (seq : Int) :
    (db.clearDraftThrough workspace_id note_id seq).readDraft workspace_id note_id =
      (db.readDraft workspace_id note_id).filter fun row => seq < row.edit_seq := by
  unfold Database.readDraft Database.clearDraftThrough
  dsimp only
  cases found : db.drafts.find? (workspace_id, note_id) with
  | none =>
    rw [Table.find?_eq_none_iff] at found
    rw [Option.filter_none, Table.find?_eq_none_iff]
    exact fun row mem => found row (Table.mem_delete.mp mem).1
  | some row =>
    rcases Table.find?_eq_some_iff.mp found with ⟨mem, own⟩
    by_cases newer : seq < row.edit_seq
    · rw [Option.filter_some, if_pos (decide_eq_true newer), Table.find?_eq_some_iff]
      refine ⟨Table.mem_delete.mpr ⟨mem, ?_⟩, own⟩
      rw [decide_eq_false (not_le.mpr newer), Bool.and_false]
    · rw [Option.filter_some, if_neg (fun isNewer => newer (of_decide_eq_true isNewer)),
        Table.find?_eq_none_iff]
      intro other mem' own'
      rcases Table.mem_delete.mp mem' with ⟨stored, kept⟩
      obtain rfl := Option.some.inj ((Table.find?_key stored).symm.trans (own' ▸ found))
      rw [decide_eq_true own', decide_eq_true (not_lt.mp newer)] at kept
      cases kept

theorem Runtime.stores_clearDraftThrough (seq : Int) :
    ({ rt with db := rt.db.clearDraftThrough workspace_id note_id seq } : Runtime).stores workspace_id note_id
      path = (rt.stores workspace_id note_id path).clearThrough seq := by
  unfold Runtime.stores Stores.clearThrough
  dsimp only
  rw [readDraft_clearDraftThrough]
  cases rt.db.readDraft workspace_id note_id with
  | none => rfl
  | some row =>
    rw [Option.map_some, Option.filter_some, Option.filter_some]
    by_cases newer : seq < row.edit_seq
    · rw [if_pos (decide_eq_true newer), if_pos (decide_eq_true (p := seq < (draftVersion row).2) newer)]
      rfl
    · rw [if_neg (fun isNewer => newer (of_decide_eq_true isNewer)),
        if_neg (fun isNewer => newer (of_decide_eq_true (p := seq < (draftVersion row).2) isNewer))]
      rfl

theorem Runtime.stores_writeDraft {row : DraftRow} (own : row.key = (workspace_id, note_id))
    (newer : ∀ w k, (rt.stores workspace_id note_id path).row = some (w, k) → k < row.edit_seq) :
    ({ rt with db := rt.db.writeDraft row } : Runtime).stores workspace_id note_id path =
      (rt.stores workspace_id note_id path).store (.text row.raw_markdown) row.edit_seq := by
  have written := @readDraft_writeDraft workspace_id note_id rt.db row own fun stored found =>
    newer _ _ (congrArg (Option.map draftVersion) found)
  unfold Runtime.stores Stores.store
  dsimp only
  rw [written]
  rfl

theorem drafts_indexWrittenSource {core core' : Core} {revision : Text}
    (indexed : indexWrittenSource host workspace_id core session revision = .ok core') :
    core'.db.drafts = core.db.drafts := by
  unfold indexWrittenSource at indexed
  by_cases current : core.db.storedContentHash workspace_id session.note_id = some revision
  · rw [if_pos current] at indexed
    obtain rfl := Except.ok.inj indexed
    rfl
  · rw [if_neg current] at indexed
    dsimp only at indexed
    split at indexed
    · rename_i db written
      obtain rfl := Except.ok.inj indexed
      exact (Database.writeNoteRows_frame written).2
    · cases indexed

end Burlmd.Lifecycle
