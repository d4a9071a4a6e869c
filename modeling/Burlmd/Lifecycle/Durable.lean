import Burlmd.Library.Checked
import Burlmd.Lifecycle.ForeignKept
import Burlmd.Lifecycle.WriteThrough

/-!
# What a restart finds of a session

The calls of one session come in any order that its locks allow, and any of their statements may fail. A
restart finds the buffer in the drafts row or in the file, and while a change of the buffer is under way
what was there before it or what comes after. Two orders are left out: the drafts statement of an edit fails
that a tier 2 write is about to write through, and a close comes to a session that another close has retired.
-/

namespace Burlmd.Lifecycle

open Workspace
open Utf8 (Text)
open Okf (ConceptId)
open Index (WorkspaceId DraftRow)
open WriteBack (Stores Seen)
open Machine (Reaches)
open Checked (bind_eq_ok)

/-! ## What a restart finds -/

/-- A restart opens the Note with this text. -/
def Runtime.Recovers (host : Host) (workspace_id : WorkspaceId) (note_id : ConceptId) (rt : Runtime)
    (source : Text) : Prop :=
  ∃ session core, openNoteSerialized host workspace_id ⟨rt.bundle, rt.db, ∅⟩ note_id = .ok (session, core) ∧
    session.source = source

structure Durable (host : Host) (workspace_id : WorkspaceId) (note_id : ConceptId) (rt : Runtime)
    (inner : SessionInner) : Prop where
  settled : (∀ t, (rt.calls t).mutates = false) →
    rt.Recovers host workspace_id note_id inner.state.source
  editing : ∀ t handle previous written, rt.calls t = .edit handle previous written →
    rt.Recovers host workspace_id note_id previous.source ∨
      rt.Recovers host workspace_id note_id written.source
  reloading : ∀ t handle conflicted source revision,
    rt.calls t = .reload handle conflicted (.installing source revision) →
    rt.Recovers host workspace_id note_id source

variable {host : Host} {workspace_id : WorkspaceId} {note_id : ConceptId} {path : Path}
  {rt rt' : Runtime} {inner inner' : SessionInner} {seen seen' : Seen} {t : Thread} {call : Call}
  {now : Int} {fault : Option AppError}

/-! ## The end of a tier 2 write, and a close -/

namespace Held

variable (held : Held host workspace_id note_id path ⟨rt, seen⟩ inner) {snapshot : Snapshot} {seq : Int}
include held

theorem objects_setState (inner' : SessionInner) : (rt.setState 0 inner').objects = [inner'] := by
  unfold Runtime.setState
  dsimp only
  rw [held.objects]
  rfl

/-- A close goes on to clear the row once more. -/
theorem pends (isStage : (rt.calls t).stage? = some (.settling snapshot)) {last_error : Option AppError}
    {unwritten : Bool} (settled : inner' = { inner with state := { inner.state with last_error, unwritten } }) :
    Held host workspace_id note_id path
      ⟨(rt.setState 0 inner').setCall t (.close 0 (.clearing snapshot.seq)), seen⟩ inner' := by
  rcases Call.of_stage? isStage with ⟨still, -, reads, writes, staged⟩
  have onDisk := (staged _ _).mp (held.staged t)
  have known : (rt.stores workspace_id note_id path).reads t = some snapshot.version := by
    unfold Runtime.stores
    dsimp only
    rw [reads]
    rfl
  rcases held.phase with ⟨phase, phases, fits⟩
  subst settled
  refine held.next phase (held.objects_setState _) rfl rfl rfl (Or.inr rfl)
    held.stands held.file ?_ (Or.inl (held.others writes)) trivial ?_ ?_
  · exact fun locked => by cases locked
  · rw [← phase.advance_id]
    exact phases.keep (.close 0 (.clearing snapshot.seq)) { inner.state with last_error, unwritten } still
      rfl rfl rfl rfl id
  · rw [Runtime.stores_setCall]
    exact fits.pend known (held.alone known) onDisk

theorem clearsAgain (isClose : rt.calls t = .close 0 (.clearing seq)) :
    Held host workspace_id note_id path
      ⟨{ rt with db := rt.db.clearDraftThrough workspace_id inner.state.note_id seq }.setCall t
        (.close 0 (.retiring false)), seen⟩ inner := by
  have still : (rt.calls t).mutates = false := by
    rw [isClose]
    rfl
  have pending : (rt.stores workspace_id note_id path).clears t = some seq := by
    unfold Runtime.stores
    dsimp only
    rw [isClose]
    rfl
  rcases held.phase with ⟨phase, phases, fits⟩
  refine held.next phase held.objects rfl rfl rfl (Or.inr rfl) held.stands
    held.file ?_ (Or.inr ⟨rfl, rfl⟩) trivial ?_ ?_
  · exact fun locked => by cases locked
  · rw [← phase.advance_id]
    exact phases.keep (.close 0 (.retiring false)) inner.state still rfl rfl rfl
      rfl id
  · have cleared := fits.clearAgain pending
    rw [← Runtime.stores_clearDraftThrough] at cleared
    rw [held.own, Runtime.stores_setCall]
    exact cleared.forget t

/-! ## A reload -/

/-- What a reload has decoded is what the file holds. -/
theorem readsFile {conflicted : Bool} {source revision : Text} {contents : FileBytes}
    (isReload : rt.calls t = .reload 0 conflicted .reading) (unlocked : ∀ u, (rt.calls u).writes = false)
    (isRead : readBytes host rt.bundle inner.state.absolute_path = .ok (some contents))
    (decoded : decodeSource host inner.state.absolute_path contents = .ok source) :
    Held host workspace_id note_id path
      ⟨rt.setCall t (.reload 0 conflicted (.clearing source revision)), seen⟩ inner := by
  have still : (rt.calls t).mutates = false := by
    rw [isReload]
    rfl
  rcases held.phase with ⟨phase, phases, fits⟩
  have file : rt.bundle.read path = some (.text source) := by
    have isFile : rt.bundle.read path = some contents := by
      unfold readBytes at isRead
      rw [held.located, held.file] at isRead
      exact Except.ok.inj isRead
    cases contents with
    | text text =>
      rw [isFile]
      exact congrArg (some ∘ FileBytes.text) (Except.ok.inj decoded)
    | binary bytes invalid => cases decoded
  refine held.next phase held.objects rfl rfl rfl (Or.inr rfl) held.stands
    held.file (fun _ => Or.inr unlocked) (Or.inr ⟨rfl, rfl⟩) file ?_ ?_
  · rw [← phase.advance_id]
    exact phases.keep (.reload 0 conflicted (.clearing source revision)) inner.state still rfl
      rfl rfl rfl id
  · rw [Runtime.stores_setCall]
    exact fits.forget t

/-- The row goes, and the buffer is about to. -/
theorem discards {conflicted : Bool} {source revision : Text}
    (isReload : rt.calls t = .reload 0 conflicted (.clearing source revision))
    (unlocked : ∀ u, (rt.calls u).mutates = false) :
    Held host workspace_id note_id path
      ⟨{ rt with db := rt.db.clearDraft workspace_id inner.state.note_id }.setCall t
        (.reload 0 conflicted (.installing source revision)), seen⟩ inner := by
  have writes : (rt.calls t).writes = true := by
    rw [isReload]
    rfl
  have file : rt.bundle.read path = some (.text source) := by
    have staged := held.staged t
    dsimp only at staged
    rw [isReload] at staged
    exact staged
  have unread (u : Thread) : (rt.stores workspace_id note_id path).reads u = none := by
    unfold Runtime.stores
    dsimp only
    by_cases same : u = t
    · rw [same, isReload]
      rfl
    · cases isRead : (rt.calls u).snapshot? with
      | none => rfl
      | some other =>
        have writes' := held.others writes u same
        rw [Call.writes_of_snapshot? (isRead ▸ rfl)] at writes'
        cases writes'
  have stores : ({ rt with db := rt.db.clearDraft workspace_id note_id } : Runtime).stores workspace_id note_id
      path = { rt.stores workspace_id note_id path with row := none } := by
    unfold Runtime.stores
    dsimp only
    rw [readDraft_clearDraft]
    rfl
  have fits := held.settled unlocked
  refine held.next (.quiet (.text source) inner.state.edit_seq) held.objects rfl rfl rfl
    (Or.inr rfl) held.stands held.file (fun _ => Or.inl writes) (Or.inr ⟨rfl, rfl⟩) file
    ?_ ?_
  · apply Phases.installing (Function.update_self t _ rt.calls)
    intro u apart
    rw [Function.update_of_ne apart]
    exact unlocked u
  · rw [held.own, Runtime.stores_setCall, stores]
    exact (fits.discard file unread).forget t

/-- The file is the buffer. -/
theorem installs {conflicted conflicted' restored_from_draft unwritten : Bool} {source revision : Text}
    {last_error : Option AppError}
    (isReload : rt.calls t = .reload 0 conflicted (.installing source revision))
    (installed : inner' = { inner with
      state := { inner.state with
        source, revision, awaiting_recreate := false, restored_from_draft, unwritten
        conflicted := conflicted', last_error } }) :
    Held host workspace_id note_id path ⟨(rt.setState 0 inner').setCall t .idle, seen⟩ inner' := by
  have writes : (rt.calls t).writes = true := by
    rw [isReload]
    rfl
  rcases held.installing isReload with ⟨fits, alone⟩
  subst installed
  refine held.next (.quiet (.text source) inner.state.edit_seq) (held.objects_setState _) rfl rfl
    rfl (Or.inl rfl) held.stands held.file (fun locked => by cases locked) (Or.inl (held.others writes)) trivial ?_ ?_
  · apply Phases.settled
    intro u
    dsimp only [Runtime.setCall, Runtime.setState]
    rw [Function.update_apply]
    by_cases same : u = t
    · rw [if_pos same]
      rfl
    · rw [if_neg same]
      exact alone u same
  · rw [Runtime.stores_setCall]
    exact fits.forget t

end Held

/-! ## Edits -/

namespace Held

variable (held : Held host workspace_id note_id path ⟨rt, seen⟩ inner) {handle : Handle}
  {previous written : NoteSession}
include held

/-- The edit that was under way is over, and the buffer is settled. -/
theorem endsEdit (rt' : Runtime) (inner' : SessionInner)
    (isEdit : rt.calls t = .edit handle previous written) (objects : rt'.objects = [inner'])
    (calls : rt'.calls = rt.calls) (bundle : rt'.bundle = rt.bundle)
    (own : inner'.state.note_id = inner.state.note_id)
    (located : inner'.state.absolute_path = inner.state.absolute_path)
    (awaits : inner'.state.awaiting_recreate = inner.state.awaiting_recreate)
    (fits : (rt'.stores workspace_id note_id path).Fits
      (.quiet (.text inner'.state.source) inner'.state.edit_seq)) :
    Held host workspace_id note_id path ⟨rt'.setCall t .idle, seen'⟩ inner' := by
  rcases held.editing isEdit with ⟨-, alone, -⟩
  have changed : (rt'.setCall t .idle).calls = Function.update rt.calls t .idle := by
    rw [← calls]
    rfl
  refine held.next (.quiet (.text inner'.state.source) inner'.state.edit_seq) objects changed own located
    (Or.inl rfl) (bundle ▸ held.stands) (bundle ▸ held.file) (fun locked => by cases locked)
    (Or.inr ⟨congrArg (Bundle.read · path) bundle, awaits⟩) trivial ?_ ?_
  · apply Phases.settled
    intro u
    rw [changed, Function.update_apply]
    by_cases same : u = t
    · rw [if_pos same]
      rfl
    · rw [if_neg same]
      exact alone u same
  · rw [Runtime.stores_setCall]
    exact fits.forget t

/-- An edit changes the buffer, and no other change is under way. -/
theorem startsEdit (unlocked : ∀ u, (rt.calls u).mutates = false) {new_source : Text}
    (isWritten : written = { inner.state with
      source := new_source
      edit_seq := inner.state.edit_seq + 1
      session_edited := true
      unwritten := true }) :
    Held host workspace_id note_id path
      ⟨(rt.setState 0 { inner with state := written }).setCall t (.edit 0 inner.state written), .unread⟩
      { inner with state := written } := by
  have fits := held.settled unlocked
  subst isWritten
  refine held.next (.pending .unread (.text inner.state.source) inner.state.edit_seq (.text new_source))
    (held.objects_setState _) rfl rfl rfl (Or.inr rfl) held.stands held.file
    (fun locked => by cases locked) (Or.inr ⟨rfl, rfl⟩) trivial ?_ ?_
  · apply Phases.editing (Function.update_self t _ rt.calls) _ rfl rfl rfl rfl
    intro u apart
    dsimp only [Runtime.setCall, Runtime.setState]
    rw [Function.update_of_ne apart]
    exact unlocked u
  · rw [Runtime.stores_setCall]
    exact fits.forget t

theorem advanceEdit (isEdit : rt.calls t = .edit 0 previous written)
    (spares : fault.isSome = true → (⟨rt, seen⟩ : Watched).SparesEdit inner previous written) :
    ∃ inner', Held host workspace_id note_id path
      ⟨rt.advanceEdit workspace_id t 0 inner now fault previous written, seen'⟩ inner' := by
  rcases held.editing isEdit with ⟨fits, -, source, edit_seq, own, next⟩
  unfold Runtime.advanceEdit
  by_cases failed : fault.isSome = true
  · rw [if_pos failed]
    have spared := spares failed
    unfold Watched.SparesEdit at spared
    by_cases keeps : inner.state.edit_seq ≠ written.edit_seq ∨ inner.state.revision ≠ previous.revision
    · -- a tier 2 write has been there, so the edit stays
      rw [if_pos keeps] at spared
      rw [if_pos keeps]
      obtain rfl : seen = .cleared := spared
      have kept := fits.keep
      rw [← next] at kept
      exact ⟨inner, held.endsEdit rt inner isEdit held.objects rfl rfl rfl rfl
        rfl kept⟩
    · rw [if_neg keeps] at spared
      rw [if_neg keeps]
      obtain rfl : seen = .unread := spared
      exact ⟨_, held.endsEdit (rt.setState 0 _) _ isEdit (held.objects_setState _) rfl rfl
        rfl rfl rfl fits⟩
  · rw [if_neg failed]
    have key : DraftRow.key ⟨workspace_id, written.note_id, written.source, now, written.edit_seq⟩ =
        (workspace_id, note_id) := congrArg (Prod.mk workspace_id) (own.trans held.own)
    refine ⟨inner, held.endsEdit { rt with db := rt.db.writeDraft _ } inner isEdit held.objects rfl
      rfl rfl rfl rfl ?_⟩
    rw [Runtime.stores_writeDraft key]
    · dsimp only
      rw [source, edit_seq, next]
      exact fits.store
    · intro w k stored
      dsimp only
      rw [edit_seq, next]
      exact fits.older stored

end Held

/-! ## Steps -/

namespace Held

variable (held : Held host workspace_id note_id path ⟨rt, seen⟩ inner)
include held

/-- A refused write leaves its error, and nothing else. -/
theorem refuses (call : Call) (isFree : call.free = true) (handle : call = .idle ∨ call.handle? = some 0)
    (was : (rt.calls t).mutates = false) (error : AppError) :
    ∃ inner', Held host workspace_id note_id path ⟨(rt.recordError 0 error).setCall t call, seen⟩ inner' := by
  have recorded : rt.recordError 0 error =
      rt.setState 0 { inner with state := { inner.state with last_error := some error } } := by
    unfold Runtime.recordError
    rw [held.session?_eq]
  rw [recorded]
  exact ⟨_, held.release isFree handle was (held.objects_setState _) rfl rfl rfl
    rfl rfl rfl rfl rfl⟩

/-- A tier 2 write that ends well lets go of what it has read. -/
theorem ends {stage : FlushStage} {seq : Int} (was : (rt.calls t).mutates = false)
    (stepped : rt.flushStage host workspace_id 0 inner now fault stage = (rt', .inr (.ok seq))) :
    ∃ inner', Held host workspace_id note_id path ⟨rt'.setCall t .idle, seen⟩ inner' := by
  rcases flushStage_ok stepped with ⟨-, -, rfl⟩ | ⟨snapshot, -, -, rfl⟩
  · exact ⟨inner, held.release rfl (Or.inl rfl) was held.objects rfl rfl
      rfl rfl rfl rfl rfl rfl⟩
  · exact ⟨_, held.release rfl (Or.inl rfl) was (held.objects_setState _) rfl
      rfl rfl rfl rfl rfl rfl rfl⟩

end Held

/-- An advance of the call of a thread keeps the session held. -/
def Advanced (host : Host) (workspace_id : WorkspaceId) (note_id : ConceptId) (path : Path) (rt : Runtime)
    (seen : Seen) (t : Thread) (rt' : Runtime) : Prop :=
  ∃ inner', Held host workspace_id note_id path ⟨rt', (rt.calls t).sees (rt'.calls t) seen⟩ inner'

theorem Advanced.passed {before : Runtime} {stage stage' : FlushStage}
    (isStage : (before.calls t).stage? = some stage) (isStage' : call.stage? = some stage')
    (held : Held host workspace_id note_id path ⟨rt.setCall t call, stage.sees stage' seen⟩ inner) :
    Advanced host workspace_id note_id path before seen t (rt.setCall t call) := by
  refine ⟨inner, ?_⟩
  rwa [Runtime.calls_setCall, Call.sees_of_stages isStage isStage']

theorem Advanced.ended {before : Runtime} (ended : call.stage? = none)
    (held : Held host workspace_id note_id path ⟨rt.setCall t call, seen⟩ inner) :
    Advanced host workspace_id note_id path before seen t (rt.setCall t call) := by
  refine ⟨inner, ?_⟩
  rwa [Runtime.calls_setCall, Call.sees_of_none ended]

namespace Held

variable (held : Held host workspace_id note_id path ⟨rt, seen⟩ inner)
include held

theorem advanceFlush (injective : Function.Injective host.content_hash) {stage : FlushStage}
    (isFlush : rt.calls t = .flush 0 stage) (locks : rt.Locks (.advance t now fault)) :
    Advanced host workspace_id note_id path rt seen t
      (rt.advanceFlush host workspace_id t 0 inner now fault stage) := by
  have isStage : (rt.calls t).stage? = some stage := by
    rw [isFlush]
    rfl
  have was := (Call.of_stage? isStage).1
  have taken : stage = .checking → ∀ u, (rt.calls u).writes = false := by
    intro isChecking
    apply locks.1
    rw [isFlush, isChecking]
    rfl
  unfold Runtime.advanceFlush
  cases stepped : rt.flushStage host workspace_id 0 inner now fault stage with
  | mk rt' result =>
    cases result with
    | inl stage' =>
      rcases held.flushStage (.flush 0 stage') injective isStage taken stepped rfl rfl
        with ⟨inner', held'⟩
      exact .passed isStage rfl held'
    | inr result =>
      cases result with
      | ok seq =>
        rcases held.ends was stepped with ⟨inner', held'⟩
        exact .ended rfl held'
      | error error =>
        obtain rfl := flushStage_error stepped
        rcases held.refuses .idle rfl (Or.inl rfl) was error with ⟨inner', held'⟩
        exact .ended rfl held'

theorem advanceClose (injective : Function.Injective host.content_hash) {stage : CloseStage}
    (isClose : rt.calls t = .close 0 stage) (locks : rt.Locks (.advance t now fault))
    (unclosed : stage = .flushing .checking → inner.closed = false) :
    Advanced host workspace_id note_id path rt seen t
      (rt.advanceClose host workspace_id t 0 inner now fault stage) := by
  have was : (rt.calls t).mutates = false := by
    rw [isClose]
    rfl
  unfold Runtime.advanceClose
  cases stage with
  | flushing stage =>
    have isStage : (rt.calls t).stage? = some stage := by
      rw [isClose]
      rfl
    have taken : stage = .checking → ∀ u, (rt.calls u).writes = false := by
      intro isChecking
      apply locks.1
      rw [isClose, isChecking]
      rfl
    dsimp only
    cases stepped : rt.flushStage host workspace_id 0 inner now fault stage with
    | mk rt' result =>
      cases result with
      | inl stage' =>
        rcases held.flushStage (.close 0 (.flushing stage')) injective isStage taken stepped rfl
          rfl with ⟨inner', held'⟩
        exact .passed isStage rfl held'
      | inr result =>
        cases result with
        | ok seq =>
          rcases flushStage_ok stepped with ⟨rfl, closed, -⟩ | ⟨snapshot, rfl, rfl, rfl⟩
          · rw [unclosed rfl] at closed
            cases closed
          · exact .ended rfl (held.pends isStage rfl)
        | error error =>
          obtain rfl := flushStage_error stepped
          dsimp only
          split
          · rcases held.refuses (.close 0 (.retiring true)) rfl (Or.inr rfl) was _
              with ⟨inner', held'⟩
            exact .ended rfl held'
          · rcases held.refuses .idle rfl (Or.inl rfl) was error with ⟨inner', held'⟩
            exact .ended rfl held'
  | clearing seq =>
    cases fault with
    | none => exact .ended rfl (held.clearsAgain isClose)
    | some error =>
      exact .ended rfl <| held.release rfl (Or.inr rfl) was held.objects rfl
        rfl rfl rfl rfl rfl rfl rfl
  | retiring file_vanished =>
    exact .ended rfl <| held.release rfl (Or.inr rfl) was (held.objects_setState _)
      rfl rfl rfl rfl rfl rfl rfl rfl
  | removing =>
    exact .ended rfl <| held.release rfl (Or.inl rfl) was held.objects rfl
      rfl rfl rfl rfl rfl rfl rfl

theorem advanceReload {stage : ReloadStage} {conflicted : Bool}
    (isReload : rt.calls t = .reload 0 conflicted stage) (locks : rt.Locks (.advance t now fault)) :
    Advanced host workspace_id note_id path rt seen t
      (rt.advanceReload host workspace_id t 0 inner fault conflicted stage) := by
  have idles (was : (rt.calls t).mutates = false) :
      Advanced host workspace_id note_id path rt seen t (rt.setCall t .idle) :=
    .ended rfl <| held.release rfl (Or.inl rfl) was held.objects rfl
      rfl rfl rfl rfl rfl rfl rfl
  unfold Runtime.advanceReload
  cases stage with
  | reading =>
    have was : (rt.calls t).mutates = false := by
      rw [isReload]
      rfl
    have unlocked : ∀ u, (rt.calls u).writes = false := by
      apply locks.1
      rw [isReload]
      rfl
    dsimp only
    split
    · rename_i contents isRead
      split
      · rename_i source decoded
        exact .ended rfl (held.readsFile isReload unlocked isRead decoded)
      · exact idles was
    · exact idles was
  | clearing source revision =>
    have was : (rt.calls t).mutates = false := by
      rw [isReload]
      rfl
    have unlocked : ∀ u, (rt.calls u).mutates = false := by
      apply locks.2
      rw [isReload]
      rfl
    dsimp only
    by_cases failed : fault.isSome = true
    · rw [if_pos failed]
      exact idles was
    · rw [if_neg failed]
      exact .ended rfl (held.discards isReload unlocked)
  | installing source revision => exact .ended rfl (held.installs isReload rfl)

theorem of_session? {handle : Handle} (found : rt.session? handle = some inner') : handle = 0 ∧ inner' = inner := by
  unfold Runtime.session? at found
  rw [held.objects] at found
  cases handle with
  | zero => exact ⟨rfl, (Option.some.inj found).symm⟩
  | succ handle => cases found

theorem advance (injective : Function.Injective host.content_hash) (locks : rt.Locks (.advance t now fault))
    (spares : (⟨rt, seen⟩ : Watched).Spares host workspace_id note_id path (.advance t now fault))
    (advanced : rt.advance host workspace_id t now fault = some rt') :
    Advanced host workspace_id note_id path rt seen t rt' := by
  have onSession := held.handles t
  dsimp only at onSession
  have zero {call : Call} {handle : Handle} (isCall : rt.calls t = call) (own : call.handle? = some handle) :
      handle = 0 := by
    rw [isCall] at onSession
    rcases onSession with isIdle | isZero
    · rw [isIdle] at own
      cases own
    · exact Option.some.inj (own.symm.trans isZero)
  unfold Runtime.advance at advanced
  unfold Watched.Spares at spares
  cases isCall : rt.calls t with
  | idle =>
    rw [isCall] at advanced
    cases advanced
  | flush handle stage =>
    obtain rfl := zero isCall rfl
    rw [isCall] at advanced
    dsimp only at advanced
    rw [held.session?_eq] at advanced
    obtain rfl := Option.some.inj advanced
    exact held.advanceFlush injective isCall locks
  | close handle stage =>
    obtain rfl := zero isCall rfl
    rw [isCall] at advanced
    dsimp only at advanced
    rw [held.session?_eq] at advanced
    obtain rfl := Option.some.inj advanced
    apply held.advanceClose injective isCall locks
    rintro rfl
    dsimp only at spares
    rw [isCall] at spares
    exact spares inner held.session?_eq
  | reload handle conflicted stage =>
    obtain rfl := zero isCall rfl
    rw [isCall] at advanced
    dsimp only at advanced
    rw [held.session?_eq] at advanced
    obtain rfl := Option.some.inj advanced
    exact held.advanceReload isCall locks
  | edit handle previous written =>
    obtain rfl := zero isCall rfl
    rw [isCall] at advanced
    dsimp only at advanced spares
    rw [held.session?_eq] at advanced
    obtain rfl := Option.some.inj advanced
    rw [isCall] at spares
    exact held.advanceEdit isCall (spares inner held.session?_eq)
  | lifecycle reserved stage =>
    rw [isCall] at onSession
    rcases onSession with isIdle | isZero
    · cases isIdle
    · cases isZero

theorem of_begin {handle : Handle} {start : SessionInner → Runtime}
    (begun : rt.begin t handle start = some rt') : handle = 0 ∧ rt' = start inner ∧ rt.calls t = .idle := by
  unfold Runtime.begin at begun
  cases isCall : rt.calls t with
  | idle =>
    rw [isCall] at begun
    rcases Option.map_eq_some_iff.mp begun with ⟨inner', found, rfl⟩
    rcases held.of_session? found with ⟨isZero, rfl⟩
    exact ⟨isZero, rfl, rfl⟩
  | _ =>
    rw [isCall] at begun
    cases begun

theorem locked_eq (next : List ConceptId → Option Runtime) : rt.locked t next = none := by
  have onSession := held.handles t
  dsimp only at onSession
  unfold Runtime.locked
  cases isCall : rt.calls t with
  | lifecycle reserved stage =>
    rw [isCall] at onSession
    rcases onSession with isIdle | isZero
    · cases isIdle
    · cases isZero
  | _ => rfl

theorem starts (isFree : call.free = true) (handle : call.handle? = some 0) (isIdle : rt.calls t = .idle) :
    ∃ inner', Held host workspace_id note_id path ⟨rt.setCall t call, seen⟩ inner' :=
  ⟨inner, held.release isFree (Or.inr handle) (isIdle ▸ rfl) held.objects rfl rfl
    rfl rfl rfl rfl rfl rfl⟩

/-- Where nothing changes the buffer, nobody asks who has read it. -/
theorem forget (unlocked : ∀ u, (rt.calls u).mutates = false) :
    Held host workspace_id note_id path ⟨rt, seen'⟩ inner :=
  { held with phase := ⟨_, .settled unlocked, held.settled unlocked⟩ }

/-- Another program finds the buffer in the row, and no write under way. -/
theorem foreign {bundle : Bundle} (stored : (rt.db.readDraft workspace_id note_id).isSome = true)
    (unlocked : ∀ u, (rt.calls u).writes = false ∧ (rt.calls u).clears? = none)
    (stands : notePath host bundle note_id = .ok path) (file : bundle.isDir path = false) :
    Held host workspace_id note_id path ⟨{ rt with bundle }, seen⟩ inner := by
  rcases held.phase with ⟨phase, phases, fits⟩
  refine { held with
    stands, file
    staged := fun u => Call.staged_of_not_writes (unlocked u).1 _ _
    phase := ⟨phase, phases, ?_⟩ }
  apply fits.replace
  · unfold Runtime.stores
    dsimp only
    rwa [Option.isSome_map]
  · intro u
    unfold Runtime.stores
    dsimp only
    cases isRead : (rt.calls u).snapshot? with
    | none => rfl
    | some snapshot =>
      have writes := (unlocked u).1
      rw [Call.writes_of_snapshot? (isRead ▸ rfl)] at writes
      cases writes
  · exact fun u => (unlocked u).2

end Held

theorem held_step {w w' : Watched} {action : Action} (injective : Function.Injective host.content_hash)
    (held : Held host workspace_id note_id path w inner) (locks : w.runtime.Locks action)
    (spares : w.Spares host workspace_id note_id path action)
    (stepped : w.step host workspace_id action = some w') :
    ∃ inner', Held host workspace_id note_id path w' inner' := by
  rcases w with ⟨rt, seen⟩
  rcases Option.map_eq_some_iff.mp stepped with ⟨rt', isStep, rfl⟩
  dsimp only at isStep locks
  have noLifecycle {t : Thread} {next : List ConceptId → Option Runtime}
      (isStep : rt.locked t next = some rt') :
      ∃ inner', Held host workspace_id note_id path ⟨rt', seen⟩ inner' := by
    rw [held.locked_eq] at isStep
    cases isStep
  cases action with
  | flush t handle =>
    obtain ⟨rfl, rfl, isIdle⟩ := held.of_begin isStep
    exact held.starts rfl rfl isIdle
  | close t handle =>
    obtain ⟨rfl, rfl, isIdle⟩ := held.of_begin isStep
    unfold Runtime.startClose
    by_cases unflushed : (inner.state.session_edited || inner.state.unwritten) = true
    · rw [if_pos unflushed]
      exact held.starts rfl rfl isIdle
    · rw [if_neg unflushed]
      exact held.starts rfl rfl isIdle
  | reload t handle conflicted =>
    obtain ⟨rfl, rfl, isIdle⟩ := held.of_begin isStep
    exact held.starts rfl rfl isIdle
  | edit t handle what new_source =>
    obtain ⟨rfl, rfl, -⟩ := held.of_begin isStep
    unfold Runtime.startEdit
    split
    · exact ⟨_, held.startsEdit locks rfl⟩
    · exact ⟨inner, held.forget locks⟩
  | lifecycle t => cases spares
  | advance t now fault => exact held.advance injective locks spares isStep
  | reserve t note_id => exact noLifecycle isStep
  | publish t bundle db => exact noLifecycle isStep
  | openNote t note_id => exact noLifecycle isStep
  | carryForward t old_id new_id new_source new_revision => exact noLifecycle isStep
  | discard t note_id => exact noLifecycle isStep
  | unlock t => exact noLifecycle isStep
  | foreign bundle =>
    obtain rfl := Option.some.inj isStep
    rcases spares with ⟨stored, unlocked, stands, file⟩
    exact ⟨inner, held.foreign stored unlocked stands file⟩

/-! ## The result -/

theorem recovers {source : Text} (stands : notePath host rt.bundle note_id = .ok path)
    (file : rt.bundle.isDir path = false)
    (found : (rt.stores workspace_id note_id path).recovered = some (.text source)) :
    rt.Recovers host workspace_id note_id source := by
  have unregistered : (∅ : Table NoteSession.note_id).find? note_id = none :=
    Table.find?_eq_none_iff.mpr fun row mem => absurd mem (Table.not_mem_empty row)
  have isRead : readBytes host rt.bundle path = .ok (rt.bundle.read path) := by
    unfold readBytes
    rw [file]
    rfl
  have start : ∃ edit_seq, startOf host note_id path (rt.db.readDraft workspace_id note_id)
      (rt.bundle.read path) = .ok (source, edit_seq) := by
    unfold Stores.recovered Runtime.stores at found
    dsimp only at found
    cases draft : rt.db.readDraft workspace_id note_id with
    | some row =>
      rw [draft] at found
      obtain rfl := FileBytes.text.inj (Option.some.inj found)
      exact ⟨row.edit_seq, rfl⟩
    | none =>
      rw [draft] at found
      have onDisk : rt.bundle.read path = some (.text source) := found
      rw [onDisk]
      exact ⟨0, rfl⟩
  rcases start with ⟨edit_seq, start⟩
  unfold Runtime.Recovers openNoteSerialized
  dsimp only
  rw [unregistered]
  dsimp only
  rw [stands]
  simp only [bind, Except.bind, isRead, start]
  exact ⟨_, _, rfl, rfl⟩

theorem Held.durable (held : Held host workspace_id note_id path ⟨rt, seen⟩ inner) :
    Durable host workspace_id note_id rt inner := by
  constructor
  · intro unlocked
    have quiet : (rt.stores workspace_id note_id path).Quiet (.text inner.state.source) inner.state.edit_seq :=
      held.settled unlocked
    exact recovers held.stands held.file quiet.recovered
  · intro t handle previous written isEdit
    rcases held.editing isEdit with ⟨fits, -, source, -⟩
    rw [source]
    cases seen with
    | unread =>
      have quiet : (rt.stores workspace_id note_id path).Quiet (.text previous.source) previous.edit_seq := fits
      exact Or.inl (recovers held.stands held.file quiet.recovered)
    | read =>
      have overlapped : (rt.stores workspace_id note_id path).Overlapped (.text previous.source)
        previous.edit_seq (.text inner.state.source) := fits
      exact overlapped.recovered.imp (recovers held.stands held.file) (recovers held.stands held.file)
    | cleared =>
      have covered : (rt.stores workspace_id note_id path).Covered previous.edit_seq
        (.text inner.state.source) := fits
      exact Or.inr (recovers held.stands held.file covered.recovered)
  · intro t handle conflicted source revision isReload
    have quiet : (rt.stores workspace_id note_id path).Quiet (.text source) inner.state.edit_seq :=
      (held.installing isReload).1
    exact recovers held.stands held.file quiet.recovered

theorem held_initial {core core' : Core} {session : NoteSession}
    (isOpen : openNoteSerialized host workspace_id core note_id = .ok (session, core'))
    (closed : core.sessions.find? note_id = none) :
    Held host workspace_id note_id session.absolute_path
      ⟨(Runtime.initial core.bundle core.db).insert session, .unread⟩ ⟨session, false⟩ := by
  unfold openNoteSerialized at isOpen
  rw [closed] at isOpen
  obtain ⟨path, located, isOpen⟩ := bind_eq_ok.mp isOpen
  obtain ⟨on_disk, isRead, isOpen⟩ := bind_eq_ok.mp isOpen
  obtain ⟨⟨source, edit_seq⟩, start, isOpen⟩ := bind_eq_ok.mp isOpen
  obtain ⟨rfl, -⟩ := Prod.mk.inj (Except.ok.inj isOpen)
  unfold readBytes at isRead
  cases file : core.bundle.isDir path with
  | true =>
    rw [file] at isRead
    cases isRead
  | false =>
    rw [file] at isRead
    obtain rfl := Except.ok.inj isRead
    refine ⟨rfl, rfl, rfl, fun t => Or.inl rfl, located, file,
      (fun t u writes => by cases writes), fun t => trivial, ⟨_, .settled fun t => rfl, ?_⟩⟩
    refine ⟨?_, (fun t w k read => by cases read), (fun t k clear => by cases clear)⟩
    unfold Runtime.stores
    dsimp only [Runtime.insert, Runtime.initial]
    cases draft : core.db.readDraft workspace_id note_id with
    | some row =>
      rw [draft] at start
      obtain ⟨rfl, rfl⟩ := Prod.mk.inj (Except.ok.inj start)
      exact Or.inl rfl
    | none =>
      rw [draft] at start
      cases isRead : core.bundle.read path with
      | none =>
        rw [isRead] at start
        cases start
      | some contents =>
        rw [isRead] at start
        cases contents with
        | text text =>
          obtain ⟨rfl, rfl⟩ := Prod.mk.inj (Except.ok.inj start)
          exact Or.inr ⟨rfl, rfl, (fun t w k read => by cases read)⟩
        | binary bytes invalid => cases start

/-- In every order of the calls on a session that its locks allow, a restart finds the buffer. -/
theorem session_durable (injective : Function.Injective host.content_hash) {core core' : Core}
    {session : NoteSession} {w : Watched}
    (isOpen : openNoteSerialized host workspace_id core note_id = .ok (session, core'))
    (closed : core.sessions.find? note_id = none)
    (reaches : Reaches (Watched.step host workspace_id)
      (fun w action => w.runtime.Locks action ∧
        w.Spares host workspace_id note_id session.absolute_path action)
      ⟨(Runtime.initial core.bundle core.db).insert session, .unread⟩ w) :
    ∃ inner, w.runtime.objects = [inner] ∧ Durable host workspace_id note_id w.runtime inner := by
  have held : ∃ inner, Held host workspace_id note_id session.absolute_path w inner := by
    apply reaches.invariant ⟨_, held_initial isOpen closed⟩
    rintro w action w' ⟨inner, held⟩ ⟨locks, spares⟩ stepped
    exact held_step injective held locks spares stepped
  rcases held with ⟨inner, held⟩
  exact ⟨inner, held.objects, held.durable⟩

def openedNote : NoteSession :=
  ⟨['n'], [⟨['n', '.', 'm', 'd'], nameable_note⟩], ['a'], 0, (FileBytes.text ['a']).hash Host.plain, false, false,
    false, false, false, none⟩

/-- A tier 2 write reads an edit that is under way. -/
theorem session_durable_overlapped : ∃ w : Watched, w.seen = .read ∧
    ∃ inner, w.runtime.objects = [inner] ∧ Durable Host.plain ['w'] ['n'] w.runtime inner := by
  have isOpen : openNoteSerialized Host.plain ['w'] ⟨noteOnDisk ['a'], .empty [['w']], ∅⟩ ['n'] =
      .ok (openedNote, _) := rfl
  have unlocked : ∀ u, (Function.update (Function.update (fun _ => Call.idle) 0
      (.edit 0 openedNote { openedNote with
        source := ['b'], edit_seq := 1, session_edited := true, unwritten := true })) 1
      (.flush 0 .checking) u).writes = false := by
    intro u
    rw [Function.update_apply, Function.update_apply]
    split
    · rfl
    · split <;> rfl
  refine ⟨_, ?_, session_durable Host.plain_injective isOpen rfl
    (.tail (a := .advance 1 1 none) (.tail (a := .flush 1 0) (.tail (a := .edit 0 0 [] ['b']) .refl ?_ rfl) ?_ rfl)
      ?_ rfl)⟩
  · rfl
  · exact ⟨fun _ => rfl, trivial⟩
  · exact ⟨trivial, trivial⟩
  · exact ⟨⟨fun _ => unlocked, fun taken => by cases taken⟩, trivial⟩

end Burlmd.Lifecycle
