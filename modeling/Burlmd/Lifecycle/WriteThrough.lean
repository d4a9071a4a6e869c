import Burlmd.Lifecycle.SessionLocks

/-!
# Writing through

A session is held while its calls keep to its locks. What its drafts row and its file have then fits the
phase that the buffer is in, and every stage of a tier 2 write keeps it so.
-/

namespace Burlmd.Lifecycle

open Workspace
open Utf8 (Text)
open Okf (ConceptId)
open Index (WorkspaceId Database)
open WriteBack (Stores Seen Phase)

/-! ## Runs -/

/-- What a stage that is passed does with the edit that is under way. -/
def FlushStage.sees : FlushStage → FlushStage → Seen → Seen
  | .checking, .comparing _, seen => seen.onRead
  | .clearing _, .indexing _, seen => seen.onClear
  | _, _, seen => seen

def Call.sees (before after : Call) (seen : Seen) : Seen :=
  match before.stage?, after.stage? with
  | some stage, some stage' => stage.sees stage' seen
  | _, _ => seen

/-- A runtime, and how far the tier 2 writes have come with the newest edit. -/
structure Watched where
  runtime : Runtime
  seen : Seen

/-- An edit that starts has been read by nobody. -/
def Action.sees (rt rt' : Runtime) (seen : Seen) : Action → Seen
  | .edit _ _ _ _ => .unread
  | .advance t _ _ => (rt.calls t).sees (rt'.calls t) seen
  | _ => seen

def Watched.step (host : Host) (workspace_id : WorkspaceId) (w : Watched) (action : Action) :
    Option Watched :=
  (w.runtime.step host workspace_id action).map fun rt => ⟨rt, action.sees w.runtime rt w.seen⟩

/-- A drafts statement that fails leaves an edit that no tier 2 write has read, or one that is written
through. -/
def Watched.SparesEdit (w : Watched) (inner : SessionInner) (previous written : NoteSession) : Prop :=
  if inner.state.edit_seq ≠ written.edit_seq ∨ inner.state.revision ≠ previous.revision then
    w.seen = .cleared
  else w.seen = .unread

/-- The steps in the scope of the result. Another program changes the files only between two writes, and
while the drafts row holds the buffer: a file that is the buffer is theirs to change. -/
def Watched.Spares (host : Host) (workspace_id : WorkspaceId) (note_id : ConceptId) (path : Path)
    (w : Watched) : Action → Prop
  | .advance t _ fault =>
      match w.runtime.calls t with
      | .edit handle previous written =>
          ∀ inner, w.runtime.session? handle = some inner → fault.isSome = true →
            w.SparesEdit inner previous written
      | .close handle (.flushing .checking) =>
          ∀ inner, w.runtime.session? handle = some inner → inner.closed = false
      | _ => True
  | .foreign bundle =>
      (w.runtime.db.readDraft workspace_id note_id).isSome = true ∧
        (∀ t, (w.runtime.calls t).writes = false ∧ (w.runtime.calls t).clears? = none) ∧
        notePath host bundle note_id = .ok path ∧ bundle.isDir path = false
  | .lifecycle _ => False
  | _ => True

/-! ## What holds in between -/

/-- What a stage of a tier 2 write relies on of the file. -/
def FlushStage.Staged (file : Option FileBytes) (awaiting_recreate : Bool) : FlushStage → Prop
  | .checking | .comparing _ => True
  | .publishing _ on_disk => awaiting_recreate = false → file = some on_disk
  | .recording snapshot | .clearing snapshot | .indexing snapshot | .settling snapshot =>
      file = some (.text snapshot.source)

def Call.Staged (file : Option FileBytes) (awaiting_recreate : Bool) : Call → Prop
  | .flush _ stage | .close _ (.flushing stage) => stage.Staged file awaiting_recreate
  | .reload _ _ (.clearing source _) | .reload _ _ (.installing source _) => file = some (.text source)
  | _ => True

/-- The phase that the calls and the buffer are in. -/
inductive Phases (calls : Thread → Call) (state : NoteSession) (seen : Seen) : Phase FileBytes → Prop
  | settled (alone : ∀ t, (calls t).mutates = false) :
      Phases calls state seen (.quiet (.text state.source) state.edit_seq)
  | editing {t : Thread} {handle : Handle} {previous written : NoteSession}
      (isEdit : calls t = .edit handle previous written)
      (alone : ∀ u, u ≠ t → (calls u).mutates = false)
      (source : written.source = state.source) (edit_seq : written.edit_seq = state.edit_seq)
      (note_id : written.note_id = state.note_id) (next : state.edit_seq = previous.edit_seq + 1) :
      Phases calls state seen (.pending seen (.text previous.source) previous.edit_seq (.text state.source))
  | installing {t : Thread} {handle : Handle} {conflicted : Bool} {source revision : Text}
      (isReload : calls t = .reload handle conflicted (.installing source revision))
      (alone : ∀ u, u ≠ t → (calls u).mutates = false) :
      Phases calls state seen (.quiet (.text source) state.edit_seq)

/-- The session alone is registered, and its stores fit the phase it is in. -/
structure Held (host : Host) (workspace_id : WorkspaceId) (note_id : ConceptId) (path : Path)
    (w : Watched) (inner : SessionInner) : Prop where
  objects : w.runtime.objects = [inner]
  own : inner.state.note_id = note_id
  located : inner.state.absolute_path = path
  handles : ∀ t, w.runtime.calls t = .idle ∨ (w.runtime.calls t).handle? = some 0
  stands : notePath host w.runtime.bundle note_id = .ok path
  file : w.runtime.bundle.isDir path = false
  writer : ∀ t u, (w.runtime.calls t).writes = true → (w.runtime.calls u).writes = true → t = u
  staged : ∀ t, (w.runtime.calls t).Staged (w.runtime.bundle.read path) inner.state.awaiting_recreate
  phase : ∃ phase, Phases w.runtime.calls inner.state w.seen phase ∧
    (w.runtime.stores workspace_id note_id path).Fits phase

variable {host : Host} {workspace_id : WorkspaceId} {note_id : ConceptId} {path : Path}
  {rt rt' : Runtime} {inner inner' : SessionInner} {seen seen' : Seen} {t u : Thread} {call : Call}
  {phase : Phase FileBytes} {bundle : Bundle} {now : Int} {fault : Option AppError}

/-! ## Calls that hold nothing -/

namespace Call

/-- The call knows nothing of the buffer and holds no lock. -/
def free : Call → Bool
  | .idle | .flush _ .checking | .close _ (.flushing .checking) | .close _ (.retiring _)
  | .close _ .removing | .reload _ _ .reading => true
  | _ => false

theorem free_spec (isFree : call.free = true) :
    call.snapshot? = none ∧ call.clears? = none ∧ call.writes = false ∧ call.mutates = false ∧
      ∀ file awaiting_recreate, call.Staged file awaiting_recreate := by
  cases call with
  | idle => exact ⟨rfl, rfl, rfl, rfl, fun _ _ => trivial⟩
  | flush handle stage =>
    cases stage with
    | checking => exact ⟨rfl, rfl, rfl, rfl, fun _ _ => trivial⟩
    | _ => cases isFree
  | close handle stage =>
    cases stage with
    | flushing stage =>
      cases stage with
      | checking => exact ⟨rfl, rfl, rfl, rfl, fun _ _ => trivial⟩
      | _ => cases isFree
    | clearing seq => cases isFree
    | retiring file_vanished => exact ⟨rfl, rfl, rfl, rfl, fun _ _ => trivial⟩
    | removing => exact ⟨rfl, rfl, rfl, rfl, fun _ _ => trivial⟩
  | reload handle conflicted stage =>
    cases stage with
    | reading => exact ⟨rfl, rfl, rfl, rfl, fun _ _ => trivial⟩
    | _ => cases isFree
  | edit handle previous written => cases isFree
  | lifecycle reserved stage => cases isFree

theorem writes_of_snapshot? (isRead : call.snapshot?.isSome = true) : call.writes = true := by
  cases call with
  | reload handle conflicted stage => cases isRead
  | _ => exact isRead

theorem staged_of_not_writes (unlocked : call.writes = false) (file : Option FileBytes)
    (awaiting_recreate : Bool) : call.Staged file awaiting_recreate := by
  have stage {stage : FlushStage} (unread : stage.snapshot?.isSome = false) :
      stage.Staged file awaiting_recreate := by
    cases stage with
    | checking => trivial
    | _ => cases unread
  cases call with
  | flush handle stage' => exact stage unlocked
  | close handle stage' =>
    cases stage' with
    | flushing stage' => exact stage unlocked
    | _ => trivial
  | reload handle conflicted stage' =>
    cases stage' with
    | reading => trivial
    | _ => cases unlocked
  | _ => trivial

/-- What the stage of a call says of the call. -/
theorem of_stage? {stage : FlushStage} (isStage : call.stage? = some stage) :
    call.mutates = false ∧ call.clears? = none ∧ call.snapshot? = stage.snapshot? ∧
      call.writes = stage.snapshot?.isSome ∧
      ∀ file awaiting_recreate, call.Staged file awaiting_recreate ↔ stage.Staged file awaiting_recreate := by
  cases call with
  | flush handle stage' =>
    obtain rfl := Option.some.inj isStage
    exact ⟨rfl, rfl, rfl, rfl, fun _ _ => Iff.rfl⟩
  | close handle stage' =>
    cases stage' with
    | flushing stage' =>
      obtain rfl := Option.some.inj isStage
      exact ⟨rfl, rfl, rfl, rfl, fun _ _ => Iff.rfl⟩
    | _ => cases isStage
  | _ => cases isStage

theorem sees_of_stages {after : Call} {stage stage' : FlushStage} (isStage : call.stage? = some stage)
    (isStage' : after.stage? = some stage') : call.sees after seen = stage.sees stage' seen := by
  unfold sees
  rw [isStage, isStage']

theorem sees_of_none {after : Call} (ended : after.stage? = none) : call.sees after seen = seen := by
  unfold sees
  rw [ended]
  cases call.stage? with
  | none => rfl
  | some stage => rfl

end Call

/-! ## A call that changes -/

/-- A call that is no change of the buffer becomes another. -/
theorem Phases.keep {calls : Thread → Call} {state : NoteSession} (phases : Phases calls state seen phase)
    (call : Call) (state' : NoteSession) (was : (calls t).mutates = false)
    (becomes : call.mutates = false) (source : state'.source = state.source)
    (edit_seq : state'.edit_seq = state.edit_seq) (note_id : state'.note_id = state.note_id)
    (come : Seen → Seen) :
    Phases (Function.update calls t call) state' (come seen) (phase.advance come) := by
  have other {u v : Thread} (alone : ∀ v, v ≠ u → (calls v).mutates = false) (apart : v ≠ u) :
      (Function.update calls t call v).mutates = false := by
    rw [Function.update_apply]
    by_cases same : v = t
    · rw [if_pos same]
      exact becomes
    · rw [if_neg same]
      exact alone v apart
  have kept {u : Thread} (mutates : (calls u).mutates = true) : Function.update calls t call u = calls u := by
    apply Function.update_of_ne
    intro same
    rw [same, was] at mutates
    cases mutates
  cases phases with
  | settled alone =>
    rw [← source, ← edit_seq]
    apply Phases.settled
    intro u
    rw [Function.update_apply]
    by_cases same : u = t
    · rw [if_pos same]
      exact becomes
    · rw [if_neg same]
      exact alone u
  | @editing u handle previous written isEdit alone source' edit_seq' note_id' next =>
    have mutates : (calls u).mutates = true := by
      rw [isEdit]
      rfl
    rw [← source]
    exact .editing ((kept mutates).trans isEdit) (fun v => other alone) (source'.trans source.symm)
      (edit_seq'.trans edit_seq.symm) (note_id'.trans note_id.symm) (edit_seq.trans next)
  | @installing u handle conflicted source' revision isReload alone =>
    have mutates : (calls u).mutates = true := by
      rw [isReload]
      rfl
    rw [← edit_seq]
    exact .installing ((kept mutates).trans isReload) fun v => other alone

/-- The buffer is what the phase says, unless a reload is about to replace it. -/
theorem Phases.buffer {calls : Thread → Call} {state : NoteSession} (phases : Phases calls state seen phase)
    (unlocked : ∀ u, (calls u).writes = false) : phase.buffer = (.text state.source, state.edit_seq) := by
  cases phases with
  | settled alone => rfl
  | editing isEdit alone source edit_seq note_id next =>
    rw [next]
    rfl
  | @installing u handle conflicted source revision isReload alone =>
    have held := unlocked u
    rw [isReload] at held
    cases held

namespace Held

variable (held : Held host workspace_id note_id path ⟨rt, seen⟩ inner)
include held

theorem session?_eq : rt.session? 0 = some inner := by
  unfold Runtime.session?
  rw [held.objects]
  rfl

/-- A call becomes another, and the parts that it changes are accounted for. -/
theorem next (phase : Phase FileBytes) (objects : rt'.objects = [inner']) (calls : rt'.calls = Function.update rt.calls t call)
    (own : inner'.state.note_id = inner.state.note_id)
    (located : inner'.state.absolute_path = inner.state.absolute_path)
    (handle : call = .idle ∨ call.handle? = some 0)
    (stands : notePath host rt'.bundle note_id = .ok path) (file : rt'.bundle.isDir path = false)
    (locked : call.writes = true → (rt.calls t).writes = true ∨ ∀ u, (rt.calls u).writes = false)
    (others : (∀ u, u ≠ t → (rt.calls u).writes = false) ∨
      rt'.bundle.read path = rt.bundle.read path ∧
        inner'.state.awaiting_recreate = inner.state.awaiting_recreate)
    (staged : call.Staged (rt'.bundle.read path) inner'.state.awaiting_recreate)
    (phases : Phases rt'.calls inner'.state seen' phase)
    (fits : (rt'.stores workspace_id note_id path).Fits phase) :
    Held host workspace_id note_id path ⟨rt', seen'⟩ inner' := by
  have calls_of (u : Thread) : rt'.calls u = if u = t then call else rt.calls u := by
    rw [calls, Function.update_apply]
  refine ⟨objects, own.trans held.own, located.trans held.located, ?_, stands, file, ?_, ?_, ⟨_, phases, fits⟩⟩
  · intro u
    dsimp only
    rw [calls_of u]
    by_cases same : u = t
    · rw [if_pos same]
      exact handle
    · rw [if_neg same]
      exact held.handles u
  · have only (u : Thread) (apart : u ≠ t) (writes : (rt.calls u).writes = true) (writes' : call.writes = true) :
        False := by
      rcases locked writes' with mine | none
      · exact apart (held.writer u t writes mine)
      · rw [none u] at writes
        cases writes
    intro u v
    dsimp only
    rw [calls_of u, calls_of v]
    by_cases same : u = t
    · by_cases same' : v = t
      · exact fun _ _ => same.trans same'.symm
      · rw [if_pos same, if_neg same']
        exact fun writes writes' => (only v same' writes' writes).elim
    · by_cases same' : v = t
      · rw [if_neg same, if_pos same']
        exact fun writes writes' => (only u same writes writes').elim
      · rw [if_neg same, if_neg same']
        exact held.writer u v
  · intro u
    dsimp only
    rw [calls_of u]
    by_cases same : u = t
    · rw [if_pos same]
      exact staged
    · rw [if_neg same]
      rcases others with unlocked | ⟨sameFile, sameState⟩
      · exact Call.staged_of_not_writes (unlocked u same) _ _
      · rw [sameFile, sameState]
        exact held.staged u

/-- The one that holds the lock is alone. -/
theorem others (writes : (rt.calls t).writes = true) (u : Thread) (apart : u ≠ t) :
    (rt.calls u).writes = false := by
  cases other : (rt.calls u).writes with
  | false => rfl
  | true => exact absurd (held.writer u t other writes) apart

/-- A call lets go of all that it holds. -/
theorem release (isFree : call.free = true) (handle : call = .idle ∨ call.handle? = some 0)
    (was : (rt.calls t).mutates = false) (objects : rt'.objects = [inner'])
    (calls : rt'.calls = Function.update rt.calls t call) (bundle : rt'.bundle = rt.bundle)
    (db : rt'.db.readDraft workspace_id note_id = rt.db.readDraft workspace_id note_id)
    (source : inner'.state.source = inner.state.source)
    (edit_seq : inner'.state.edit_seq = inner.state.edit_seq)
    (own : inner'.state.note_id = inner.state.note_id)
    (located : inner'.state.absolute_path = inner.state.absolute_path)
    (awaits : inner'.state.awaiting_recreate = inner.state.awaiting_recreate) :
    Held host workspace_id note_id path ⟨rt', seen⟩ inner' := by
  rcases Call.free_spec isFree with ⟨unread, done, unlocked, still, staged⟩
  rcases held.phase with ⟨phase, phases, fits⟩
  have stores : rt'.stores workspace_id note_id path = (rt.stores workspace_id note_id path).hold t none none := by
    have setCall := @Runtime.stores_setCall workspace_id note_id path rt t call
    rw [unread, done] at setCall
    refine Eq.trans ?_ setCall
    unfold Runtime.stores Runtime.setCall
    dsimp only
    rw [calls, bundle, db]
  refine held.next phase objects calls own located handle (bundle ▸ held.stands) (bundle ▸ held.file) ?_
    (Or.inr ⟨congrArg (Bundle.read · path) bundle, awaits⟩) (staged _ _) ?_ (stores ▸ fits.forget t)
  · intro writes
    rw [unlocked] at writes
    cases writes
  · rw [calls, ← phase.advance_id]
    exact phases.keep call inner'.state was still source edit_seq own id

end Held

/-! ## The phase -/

namespace Held

variable (held : Held host workspace_id note_id path ⟨rt, seen⟩ inner) {handle : Handle}
  {previous written : NoteSession}
include held

/-- Between two changes the phase is the buffer. -/
theorem settled (unlocked : ∀ u, (rt.calls u).mutates = false) :
    (rt.stores workspace_id note_id path).Fits (.quiet (.text inner.state.source) inner.state.edit_seq) := by
  rcases held.phase with ⟨phase, phases, fits⟩
  cases phases with
  | settled alone => exact fits
  | @editing u handle previous written isEdit alone source edit_seq note_id next =>
    have other := unlocked u
    dsimp only at isEdit
    rw [isEdit] at other
    cases other
  | @installing u handle conflicted source revision isReload alone =>
    have other := unlocked u
    dsimp only at isReload
    rw [isReload] at other
    cases other

/-- While an edit is under way the phase is about it. -/
theorem editing (isEdit : rt.calls t = .edit handle previous written) :
    (rt.stores workspace_id note_id path).Fits
        (.pending seen (.text previous.source) previous.edit_seq (.text inner.state.source)) ∧
      (∀ u, u ≠ t → (rt.calls u).mutates = false) ∧ written.source = inner.state.source ∧
      written.edit_seq = inner.state.edit_seq ∧ written.note_id = inner.state.note_id ∧
      inner.state.edit_seq = previous.edit_seq + 1 := by
  have mutates : (rt.calls t).mutates = true := by
    rw [isEdit]
    rfl
  rcases held.phase with ⟨phase, phases, fits⟩
  cases phases with
  | settled alone =>
    have other := alone t
    dsimp only at other
    rw [mutates] at other
    cases other
  | @editing u handle' previous' written' isEdit' alone source edit_seq note_id next =>
    by_cases same : t = u
    · subst same
      dsimp only at isEdit'
      rw [isEdit] at isEdit'
      obtain ⟨-, rfl, rfl⟩ := Call.edit.inj isEdit'
      exact ⟨fits, alone, source, edit_seq, note_id, next⟩
    · have other := alone t same
      dsimp only at other
      rw [mutates] at other
      cases other
  | @installing u handle' conflicted source revision isReload alone =>
    by_cases same : t = u
    · dsimp only at isReload
      rw [← same, isEdit] at isReload
      cases isReload
    · have other := alone t same
      dsimp only at other
      rw [mutates] at other
      cases other

/-- While a reload installs the file, the phase is about what it has decoded. -/
theorem installing {conflicted : Bool} {source revision : Text}
    (isReload : rt.calls t = .reload handle conflicted (.installing source revision)) :
    (rt.stores workspace_id note_id path).Fits (.quiet (.text source) inner.state.edit_seq) ∧
      ∀ u, u ≠ t → (rt.calls u).mutates = false := by
  have mutates : (rt.calls t).mutates = true := by
    rw [isReload]
    rfl
  rcases held.phase with ⟨phase, phases, fits⟩
  cases phases with
  | settled alone =>
    have other := alone t
    dsimp only at other
    rw [mutates] at other
    cases other
  | @editing u handle' previous written isEdit alone source' edit_seq note_id' next =>
    by_cases same : t = u
    · dsimp only at isEdit
      rw [← same, isReload] at isEdit
      cases isEdit
    · have other := alone t same
      dsimp only at other
      rw [mutates] at other
      cases other
  | @installing u handle' conflicted' source' revision' isInstall alone =>
    by_cases same : t = u
    · subst same
      rw [isReload] at isInstall
      injection isInstall with _ _ stage
      injection stage with sameSource
      rw [sameSource]
      exact ⟨fits, alone⟩
    · have other := alone t same
      dsimp only at other
      rw [mutates] at other
      cases other

end Held

/-! ## The file -/

theorem read_publishSource (injective : Function.Injective host.content_hash) {session : NoteSession}
    {on_disk : FileBytes}
    (staged : session.awaiting_recreate = false → bundle.read session.absolute_path = some on_disk) :
    (publishSource host bundle session on_disk now).read session.absolute_path =
      some (.text session.source) := by
  unfold publishSource
  dsimp only
  by_cases differs : (FileBytes.text session.source).hash host ≠ on_disk.hash host ∨
      session.awaiting_recreate = true
  · rw [if_pos differs, Bundle.read_atomicWrite, if_pos rfl]
  · rw [if_neg differs]
    rcases not_or.mp differs with ⟨same, filed⟩
    rw [staged (Bool.eq_false_of_not_eq_true filed)]
    exact congrArg some (FileBytes.hash_injective injective (not_ne_iff.mp same)).symm

theorem notePath_publishSource {session : NoteSession} {on_disk : FileBytes} :
    notePath host (publishSource host bundle session on_disk now) note_id = notePath host bundle note_id := by
  unfold publishSource
  dsimp only
  split
  · exact notePath_congr rfl note_id
  · rfl

theorem isDir_publishSource {session : NoteSession} {on_disk : FileBytes}
    (file : bundle.isDir session.absolute_path = false) :
    (publishSource host bundle session on_disk now).isDir session.absolute_path = false := by
  unfold publishSource
  dsimp only
  split
  · unfold Bundle.isDir Bundle.atomicWrite Bundle.createDirAll at *
    dsimp only
    rw [Bool.or_eq_false_iff, decide_eq_false_iff_not, decide_eq_false_iff_not] at file ⊢
    rcases file with ⟨inside, free⟩
    refine ⟨inside, fun listed => ?_⟩
    rcases List.mem_append.mp listed with old | new
    · exact free old
    · have above := List.mem_inits _ _ |>.mp (List.mem_of_mem_tail (List.mem_of_mem_filter new))
      have short := above.length_le
      rw [List.length_dropLast] at short
      have long := List.length_pos_iff.mpr inside
      omega
  · exact file

/-! ## The stages of a tier 2 write -/

theorem diskOf_filed {session : NoteSession} {on_disk : FileBytes}
    (isDisk : diskOf host bundle session = .ok on_disk) (filed : session.awaiting_recreate = false) :
    bundle.read session.absolute_path = some on_disk := by
  unfold diskOf readBytes at isDisk
  by_cases directory : bundle.isDir session.absolute_path = true
  · rw [if_pos directory] at isDisk
    cases isDisk
  · rw [if_neg directory] at isDisk
    cases isRead : bundle.read session.absolute_path with
    | none =>
      rw [isRead, filed] at isDisk
      cases isDisk
    | some contents =>
      rw [isRead] at isDisk
      exact congrArg some (Except.ok.inj isDisk)

namespace Held

variable (held : Held host workspace_id note_id path ⟨rt, seen⟩ inner) {snapshot : Snapshot}
  {on_disk : FileBytes} {stage stage' : FlushStage}
include held

/-- The reader is the only one. -/
theorem alone {read : FileBytes × Int} (reads : (rt.stores workspace_id note_id path).reads t = some read) :
    (rt.stores workspace_id note_id path).Alone t := by
  have writes : (rt.calls t).writes = true := by
    apply Call.writes_of_snapshot?
    unfold Runtime.stores at reads
    rw [Option.map_eq_some_iff] at reads
    rcases reads with ⟨snapshot, isRead, -⟩
    rw [isRead]
    rfl
  intro u apart
  unfold Runtime.stores
  dsimp only
  cases isRead : (rt.calls u).snapshot? with
  | none => rfl
  | some other =>
    have writes' := held.others writes u apart
    rw [Call.writes_of_snapshot? (isRead ▸ rfl)] at writes'
    cases writes'

/-- A tier 2 write goes on with what it has read. -/
theorem proceed (rt' : Runtime) (isStage : (rt.calls t).stage? = some stage) (isStage' : call.stage? = some stage')
    (handle : call.handle? = some 0) (isRead : stage.snapshot? = some snapshot)
    (isRead' : stage'.snapshot? = some snapshot) (objects : rt'.objects = [inner'])
    (calls : rt'.calls = rt.calls) (source : inner'.state.source = inner.state.source)
    (edit_seq : inner'.state.edit_seq = inner.state.edit_seq)
    (own : inner'.state.note_id = inner.state.note_id)
    (located : inner'.state.absolute_path = inner.state.absolute_path)
    (stands : notePath host rt'.bundle note_id = .ok path) (file : rt'.bundle.isDir path = false)
    (staged : stage'.Staged (rt'.bundle.read path) inner'.state.awaiting_recreate) (come : Seen → Seen)
    (fits : ∀ phase, (rt.stores workspace_id note_id path).Fits phase →
      (rt.stores workspace_id note_id path).reads t = some snapshot.version →
      (rt'.stores workspace_id note_id path).Fits (phase.advance come)) :
    Held host workspace_id note_id path ⟨rt'.setCall t call, come seen⟩ inner' := by
  rcases Call.of_stage? isStage with ⟨still, -, reads, writes, -⟩
  rcases Call.of_stage? isStage' with ⟨still', done', reads', writes', staged'⟩
  rcases held.phase with ⟨phase, phases, fit⟩
  rw [isRead] at reads writes
  rw [isRead'] at reads' writes'
  have known : (rt.stores workspace_id note_id path).reads t = some snapshot.version := by
    unfold Runtime.stores
    dsimp only
    rw [reads]
    rfl
  have known' : (rt'.stores workspace_id note_id path).reads t = some snapshot.version := by
    unfold Runtime.stores
    dsimp only
    rw [calls, reads]
    rfl
  have changed : (rt'.setCall t call).calls = Function.update rt.calls t call := by
    rw [← calls]
    rfl
  refine held.next (phase.advance come) objects changed own located (Or.inr handle) stands file
    (fun _ => Or.inl writes) (Or.inl (held.others writes)) ((staged' _ _).mpr staged) ?_ ?_
  · rw [changed]
    exact phases.keep call inner'.state still still' source edit_seq own come
  · rw [Runtime.stores_setCall, reads', done', Option.map_some, ← known']
    exact (fits phase fit known).rehold t

/-- The buffer is read, and no other write is under way. -/
theorem reads (isStage : (rt.calls t).stage? = some .checking)
    (isStage' : call.stage? = some
      (.comparing ⟨inner.state.source, inner.state.edit_seq, inner.state.revision⟩))
    (handle : call.handle? = some 0) (unlocked : ∀ u, (rt.calls u).writes = false) :
    Held host workspace_id note_id path ⟨rt.setCall t call, seen.onRead⟩ inner := by
  rcases Call.of_stage? isStage with ⟨still, -⟩
  rcases Call.of_stage? isStage' with ⟨still', done', reads', -, staged'⟩
  rcases held.phase with ⟨phase, phases, fits⟩
  have unread (u : Thread) : (rt.stores workspace_id note_id path).reads u = none := by
    unfold Runtime.stores
    dsimp only
    cases isRead : (rt.calls u).snapshot? with
    | none => rfl
    | some other =>
      have writes := unlocked u
      rw [Call.writes_of_snapshot? (isRead ▸ rfl)] at writes
      cases writes
  refine held.next (phase.advance Seen.onRead) held.objects rfl rfl rfl
    (Or.inr handle) held.stands held.file (fun _ => Or.inr unlocked) (Or.inr ⟨rfl, rfl⟩)
    ((staged' _ _).mpr trivial) ?_ ?_
  · exact phases.keep call inner.state still still' rfl rfl rfl Seen.onRead
  · rw [Runtime.stores_setCall, reads', done']
    have read := fits.read t unread
    rw [phases.buffer unlocked] at read
    exact read

theorem compares (isStage : (rt.calls t).stage? = some (.comparing snapshot))
    (isStage' : call.stage? = some (.publishing snapshot on_disk)) (handle : call.handle? = some 0)
    (isDisk : diskOf host rt.bundle inner.state = .ok on_disk) :
    Held host workspace_id note_id path ⟨rt.setCall t call, seen⟩ inner := by
  apply held.proceed _ isStage isStage' handle rfl rfl held.objects rfl rfl
    rfl rfl rfl held.stands held.file _ id
  · intro phase fits _
    rwa [phase.advance_id]
  · intro filed
    have read := diskOf_filed isDisk filed
    rwa [held.located] at read

theorem publishes (injective : Function.Injective host.content_hash)
    (isStage : (rt.calls t).stage? = some (.publishing snapshot on_disk))
    (isStage' : call.stage? = some (.recording snapshot)) (handle : call.handle? = some 0)
    (published : bundle = publishSource host rt.bundle { inner.state with source := snapshot.source } on_disk now) :
    Held host workspace_id note_id path ⟨{ rt with bundle }.setCall t call, seen⟩ inner := by
  rcases Call.of_stage? isStage with ⟨-, -, -, -, staged⟩
  have onDisk := (staged _ _).mp (held.staged t)
  have read : bundle.read path = some (.text snapshot.source) := by
    rw [published, ← held.located]
    rw [← held.located] at onDisk
    exact read_publishSource injective onDisk
  apply held.proceed { rt with bundle } isStage isStage' handle rfl rfl held.objects
    rfl rfl rfl rfl rfl _ _ read id
  · intro phase fits known
    rw [phase.advance_id]
    have stores : ({ rt with bundle } : Runtime).stores workspace_id note_id path =
        (rt.stores workspace_id note_id path).publish (.text snapshot.source) := by
      unfold Stores.publish Runtime.stores
      dsimp only
      rw [read]
    rw [stores]
    exact fits.publish known
  · rw [published]
    exact notePath_publishSource.trans held.stands
  · have file := held.file
    rw [← held.located] at file
    rw [published, ← held.located]
    exact isDir_publishSource file

/-- The file exists from here on. -/
theorem records (isStage : (rt.calls t).stage? = some (.recording snapshot))
    (isStage' : call.stage? = some (.clearing snapshot)) (handle : call.handle? = some 0) {revision : Text}
    (recorded : inner' = { inner with state := { inner.state with revision, awaiting_recreate := false } }) :
    Held host workspace_id note_id path ⟨(rt.setState 0 inner').setCall t call, seen⟩ inner' := by
  rcases Call.of_stage? isStage with ⟨-, -, -, -, staged⟩
  have onDisk := (staged _ _).mp (held.staged t)
  have objects : (rt.setState 0 inner').objects = [inner'] := by
    unfold Runtime.setState
    dsimp only
    rw [held.objects]
    rfl
  subst recorded
  apply held.proceed (rt.setState 0 _) isStage isStage' handle rfl rfl objects rfl
    rfl rfl rfl rfl held.stands held.file onDisk id
  intro phase fits _
  rwa [phase.advance_id]

theorem clears (isStage : (rt.calls t).stage? = some (.clearing snapshot))
    (isStage' : call.stage? = some (.indexing snapshot)) (handle : call.handle? = some 0) :
    Held host workspace_id note_id path
      ⟨{ rt with db := rt.db.clearDraftThrough workspace_id inner.state.note_id snapshot.seq }.setCall t call,
        seen.onClear⟩ inner := by
  rcases Call.of_stage? isStage with ⟨-, -, -, -, staged⟩
  have onDisk := (staged _ _).mp (held.staged t)
  apply held.proceed
    { rt with db := rt.db.clearDraftThrough workspace_id inner.state.note_id snapshot.seq } isStage isStage'
    handle rfl rfl held.objects rfl rfl rfl rfl rfl
    held.stands held.file onDisk Seen.onClear
  intro phase fits known
  rw [held.own]
  have cleared := fits.clear known (held.alone known) onDisk
  rwa [← Runtime.stores_clearDraftThrough] at cleared

theorem indexes (isStage : (rt.calls t).stage? = some (.indexing snapshot))
    (isStage' : call.stage? = some (.settling snapshot)) (handle : call.handle? = some 0) {db : Database}
    (drafts : db.drafts = rt.db.drafts) :
    Held host workspace_id note_id path ⟨{ rt with db }.setCall t call, seen⟩ inner := by
  rcases Call.of_stage? isStage with ⟨-, -, -, -, staged⟩
  have onDisk := (staged _ _).mp (held.staged t)
  apply held.proceed { rt with db } isStage isStage' handle rfl rfl held.objects rfl
    rfl rfl rfl rfl held.stands held.file onDisk id
  intro phase fits _
  rw [phase.advance_id]
  unfold Runtime.stores Database.readDraft at fits ⊢
  dsimp only
  rwa [drafts]

/-- A tier 2 write comes to its next stage. -/
theorem flushStage (call : Call) (injective : Function.Injective host.content_hash)
    (isStage : (rt.calls t).stage? = some stage)
    (locks : stage = .checking → ∀ u, (rt.calls u).writes = false)
    (stepped : rt.flushStage host workspace_id 0 inner now fault stage = (rt', .inl stage'))
    (isStage' : call.stage? = some stage') (handle : call.handle? = some 0) :
    ∃ inner', Held host workspace_id note_id path ⟨rt'.setCall t call, stage.sees stage' seen⟩ inner' := by
  cases stage with
  | checking =>
    unfold Runtime.flushStage at stepped
    by_cases closed : inner.closed = true
    · rw [if_pos closed] at stepped
      cases (Prod.mk.inj stepped).2
    · rw [if_neg closed] at stepped
      obtain ⟨rfl, next⟩ := Prod.mk.inj stepped
      obtain rfl := Sum.inl.inj next
      exact ⟨inner, held.reads isStage isStage' handle (locks rfl)⟩
  | comparing snapshot =>
    unfold Runtime.flushStage at stepped
    dsimp only at stepped
    cases isDisk : diskOf host rt.bundle inner.state with
    | error error =>
      rw [isDisk] at stepped
      cases (Prod.mk.inj stepped).2
    | ok on_disk =>
      rw [isDisk] at stepped
      dsimp only at stepped
      by_cases differs : on_disk.hash host ≠ snapshot.revision
      · rw [if_pos differs] at stepped
        cases (Prod.mk.inj stepped).2
      · rw [if_neg differs] at stepped
        obtain ⟨rfl, next⟩ := Prod.mk.inj stepped
        obtain rfl := Sum.inl.inj next
        exact ⟨inner, held.compares isStage isStage' handle isDisk⟩
  | publishing snapshot on_disk =>
    cases fault with
    | some error => cases (Prod.mk.inj stepped).2
    | none =>
      obtain ⟨rfl, next⟩ := Prod.mk.inj stepped
      obtain rfl := Sum.inl.inj next
      exact ⟨inner, held.publishes injective isStage isStage' handle rfl⟩
  | recording snapshot =>
    obtain ⟨rfl, next⟩ := Prod.mk.inj stepped
    obtain rfl := Sum.inl.inj next
    exact ⟨_, held.records isStage isStage' handle rfl⟩
  | clearing snapshot =>
    cases fault with
    | some error => cases (Prod.mk.inj stepped).2
    | none =>
      obtain ⟨rfl, next⟩ := Prod.mk.inj stepped
      obtain rfl := Sum.inl.inj next
      exact ⟨inner, held.clears isStage isStage' handle⟩
  | indexing snapshot =>
    cases fault with
    | some error => cases (Prod.mk.inj stepped).2
    | none =>
      unfold Runtime.flushStage at stepped
      dsimp only at stepped
      split at stepped
      · cases (Prod.mk.inj stepped).2
      · rename_i core indexed
        obtain ⟨rfl, next⟩ := Prod.mk.inj stepped
        obtain rfl := Sum.inl.inj next
        exact ⟨inner, held.indexes isStage isStage' handle (drafts_indexWrittenSource indexed)⟩
  | settling snapshot => cases (Prod.mk.inj stepped).2

end Held

/-- A tier 2 write that is refused has changed nothing in this stage. -/
theorem flushStage_error {stage : FlushStage} {handle : Handle} {error : AppError}
    (stepped : rt.flushStage host workspace_id handle inner now fault stage = (rt', .inr (.error error))) :
    rt' = rt := by
  unfold Runtime.flushStage at stepped
  cases stage with
  | checking =>
    dsimp only at stepped
    split at stepped
    · cases (Prod.mk.inj stepped).2
    · cases (Prod.mk.inj stepped).2
  | comparing snapshot =>
    dsimp only at stepped
    split at stepped
    · exact (Prod.mk.inj stepped).1.symm
    · split at stepped
      · exact (Prod.mk.inj stepped).1.symm
      · cases (Prod.mk.inj stepped).2
  | publishing snapshot on_disk =>
    cases fault with
    | some error => exact (Prod.mk.inj stepped).1.symm
    | none => cases (Prod.mk.inj stepped).2
  | recording snapshot => cases (Prod.mk.inj stepped).2
  | clearing snapshot =>
    cases fault with
    | some error => exact (Prod.mk.inj stepped).1.symm
    | none => cases (Prod.mk.inj stepped).2
  | indexing snapshot =>
    cases fault with
    | some error => exact (Prod.mk.inj stepped).1.symm
    | none =>
      dsimp only at stepped
      split at stepped
      · exact (Prod.mk.inj stepped).1.symm
      · cases (Prod.mk.inj stepped).2
  | settling snapshot => cases (Prod.mk.inj stepped).2

/-- A tier 2 write that ends well has found the session closed, or has come to its end. -/
theorem flushStage_ok {stage : FlushStage} {seq : Int}
    (stepped : rt.flushStage host workspace_id 0 inner now fault stage = (rt', .inr (.ok seq))) :
    stage = .checking ∧ inner.closed = true ∧ rt' = rt ∨
      ∃ snapshot, stage = .settling snapshot ∧ seq = snapshot.seq ∧
        rt' = rt.setState 0 { inner with
          state := { inner.state with
            last_error := none
            unwritten := inner.state.edit_seq > snapshot.seq } } := by
  unfold Runtime.flushStage at stepped
  cases stage with
  | checking =>
    by_cases closed : inner.closed = true
    · rw [if_pos closed] at stepped
      exact Or.inl ⟨rfl, closed, (Prod.mk.inj stepped).1.symm⟩
    · rw [if_neg closed] at stepped
      cases (Prod.mk.inj stepped).2
  | settling snapshot =>
    rcases Prod.mk.inj stepped with ⟨runtime, result⟩
    exact Or.inr ⟨snapshot, rfl, (Except.ok.inj (Sum.inr.inj result)).symm, runtime.symm⟩
  | recording snapshot => cases (Prod.mk.inj stepped).2
  | comparing snapshot =>
    dsimp only at stepped
    split at stepped
    · cases (Prod.mk.inj stepped).2
    · split at stepped
      · cases (Prod.mk.inj stepped).2
      · cases (Prod.mk.inj stepped).2
  | publishing snapshot on_disk =>
    cases fault with
    | some error => cases (Prod.mk.inj stepped).2
    | none => cases (Prod.mk.inj stepped).2
  | clearing snapshot =>
    cases fault with
    | some error => cases (Prod.mk.inj stepped).2
    | none => cases (Prod.mk.inj stepped).2
  | indexing snapshot =>
    cases fault with
    | some error => cases (Prod.mk.inj stepped).2
    | none =>
      dsimp only at stepped
      split at stepped
      · cases (Prod.mk.inj stepped).2
      · cases (Prod.mk.inj stepped).2

end Burlmd.Lifecycle
