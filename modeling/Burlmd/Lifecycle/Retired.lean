import Burlmd.Lifecycle.ForeignKept
import Burlmd.Lifecycle.Inert

/-!
# Steps of the registry

Under the lifecycle lock sessions leave the registry and enter it. With the steps on a
handle, every orderly step keeps the invariant, and so do all runs.
-/

namespace Burlmd.Lifecycle

open Workspace
open Utf8 (Text)
open Okf (ConceptId)
open Index (WorkspaceId Database)
open Machine (Reaches)

variable {host : Host} {workspace_id : WorkspaceId}

/-! ## Lifecycle steps -/

section Locked

variable {rt : Runtime} {t : Thread} {reserved : List ConceptId}

/-- A step of the thread that holds the lifecycle lock, or takes it. -/
structure LockedStep (rt : Runtime) (t : Thread) (rt' : Runtime) : Prop where
  calls : ∀ u, u ≠ t → rt'.calls u = rt.calls u
  lock : (rt'.calls t).isLifecycle = true → rt'.lifecycle_lock = some t
  others : ∀ u, u ≠ t → (rt.calls u).isLifecycle = false
  acting : (rt'.calls t).acting = none
  settling : (rt'.calls t).settling = none
  removing : ∀ h, rt'.calls t ≠ .close h .removing
  pending : ∀ id path, (rt'.calls t).pending = some (id, path) →
    id ∈ (rt'.calls t).reserved ∧ LiesAt id path

theorem Sound.alone_of_lock (sound : Sound rt) (holds : (rt.calls t).isLifecycle = true) :
    ∀ u, u ≠ t → (rt.calls u).isLifecycle = false := by
  intro u other
  by_contra also
  have isLock := sound.alone u (by simpa using also)
  rw [sound.alone t holds] at isLock
  exact other (Option.some.inj isLock).symm

/-- The calls of the other threads hold no id and no session of the registry back. -/
theorem LockedStep.plain {rt' : Runtime} (stepped : LockedStep rt t rt') {u : Thread} (other : u ≠ t) :
    (rt'.calls u).reserved = [] ∧ (rt'.calls u).limbo = none ∧ (rt'.calls u).pending = none := by
  rw [stepped.calls u other]
  exact Call.plain_of_not_lifecycle (stepped.others u other)

theorem LockedStep.alone {rt' : Runtime} (stepped : LockedStep rt t rt') (u : Thread)
    (isLifecycle : (rt'.calls u).isLifecycle = true) : rt'.lifecycle_lock = some u := by
  by_cases self : u = t
  · rw [self] at isLifecycle ⊢
    exact stepped.lock isLifecycle
  · rw [stepped.calls u self, stepped.others u self] at isLifecycle
    cases isLifecycle

theorem LockedStep.allPending {rt' : Runtime} (stepped : LockedStep rt t rt') (u : Thread)
    (id : ConceptId) (path : Path) (isPending : (rt'.calls u).pending = some (id, path)) :
    id ∈ (rt'.calls u).reserved ∧ LiesAt id path := by
  by_cases self : u = t
  · rw [self] at isPending ⊢
    exact stepped.pending id path isPending
  · rw [(stepped.plain self).2.2] at isPending
    cases isPending

theorem LockedStep.oneSettling {rt' : Runtime} (stepped : LockedStep rt t rt') (sound : Sound rt)
    (u v : Thread) (handle : Handle) (isSettling : (rt'.calls u).settling = some handle)
    (isSettling' : (rt'.calls v).settling = some handle) : u = v := by
  have before : ∀ w, (rt'.calls w).settling = some handle → (rt.calls w).settling = some handle := by
    intro w isSettling
    by_cases self : w = t
    · rw [self, stepped.settling] at isSettling
      cases isSettling
    · rwa [stepped.calls w self] at isSettling
  exact sound.settling u v handle (before u isSettling) (before v isSettling')

theorem LockedStep.acts {rt' : Runtime} (stepped : LockedStep rt t rt') {u : Thread} {handle : Handle}
    (isActing : (rt'.calls u).acting = some handle) : (rt.calls u).acting = some handle := by
  by_cases self : u = t
  · rw [self, stepped.acting] at isActing
    cases isActing
  · rwa [stepped.calls u self] at isActing

theorem LockedStep.stillRemoving {rt' : Runtime} (stepped : LockedStep rt t rt') (sound : Sound rt)
    (kept : ∀ handle before, rt.session? handle = some before → before.closed = true →
      ∃ after, rt'.session? handle = some after ∧ after.closed = true) (u : Thread)
    (handle : Handle) (isRemoving : rt'.calls u = .close handle .removing) :
    (∃ inner, rt'.session? handle = some inner ∧ inner.closed = true) ∧
      ∀ v, v ≠ u → (rt'.calls v).acting ≠ some handle := by
  by_cases self : u = t
  · rw [self] at isRemoving
    exact absurd isRemoving (stepped.removing handle)
  · rw [stepped.calls u self] at isRemoving
    obtain ⟨⟨inner, found, closed⟩, others⟩ := sound.removing u handle isRemoving
    exact ⟨kept handle inner found closed, fun v other isActing =>
      others v other (stepped.acts isActing)⟩

/-- A step under the lifecycle lock that registers nothing, and takes nothing that is acted on
out of the registry. -/
theorem Sound.locked {rt' : Runtime} (sound : Sound rt) (stepped : LockedStep rt t rt')
    (shrinks : Shrinks rt rt')
    (unclosed : ∀ h before after, rt.session? h = some before → rt'.session? h = some after →
      after.closed = false → rt'.registered? before.state.note_id = some h ∨
        (rt'.registered? before.state.note_id = none ∧ ∃ u, (rt'.calls u).limbo = some h))
    (kept : ∀ u h, (rt.calls u).acting = some h → ∀ id, rt.registered? id = some h →
      rt'.registered? id = some h)
    (reserves : ∀ id ∈ (rt'.calls t).reserved, rt.registered? id = none) : Sound rt' := by
  refine ⟨shrinks.listed sound, ?_, ?_, stepped.oneSettling sound, ?_, stepped.alone, ?_,
    stepped.allPending, shrinks.spelled sound⟩
  · intro h after isSome isUnclosed
    obtain ⟨before, found, same⟩ := shrinks.sessions h after isSome
    rw [same.note_id]
    exact unclosed h before after found isSome isUnclosed
  · intro u h isActing
    have before := stepped.acts isActing
    exact shrinks.stands (sound.acting u h before) (kept u h before)
  · refine stepped.stillRemoving sound fun handle before found closed => ?_
    exact shrinks.retired ⟨before, found, closed⟩
  · intro u id mem
    by_cases self : u = t
    · rw [self] at mem
      exact shrinks.free (reserves id mem)
    · rw [(stepped.plain self).1] at mem
      cases mem

theorem Shrinks.of_same {rt' : Runtime} (objects : rt'.objects = rt.objects)
    (registry : rt'.registry = rt.registry) : Shrinks rt rt' := by
  have sessions : ∀ h, rt'.session? h = rt.session? h := fun h => congrArg (fun list => list[h]?) objects
  refine ⟨fun h after isSome => ?_, fun h before isSome => ?_, fun id h isSome => ?_⟩
  · rw [sessions] at isSome
    exact ⟨after, isSome, .refl after⟩
  · exact ⟨before, (sessions h).trans isSome⟩
  · unfold Runtime.registered? at isSome ⊢
    rwa [registry] at isSome

theorem Shrinks.of_remove {rt' : Runtime} {note_id : ConceptId} (objects : rt'.objects = rt.objects)
    (registry : rt'.registry = (rt.remove note_id).registry) : Shrinks rt rt' := by
  have same := @Shrinks.of_same (rt.remove note_id) _ objects registry
  refine ⟨same.sessions, same.kept, fun id h isSome => ?_⟩
  have removed := same.registered id h isSome
  rw [Runtime.registered?_remove] at removed
  split at removed
  · cases removed
  · exact removed

theorem StateStep.shrinks {rt' : Runtime} {handle : Handle} {inner : SessionInner}
    (stepped : StateStep rt handle inner rt') (found : rt.session? handle = some inner) :
    Shrinks rt rt' := by
  obtain ⟨inner', same, objects⟩ := stepped.objects
  refine .of_update found same objects fun id h isSome => ?_
  unfold Runtime.registered? at isSome ⊢
  rwa [stepped.registry] at isSome

theorem LockedStep.of_call {rt₀ : Runtime} {stage : LifecycleStage}
    (others : ∀ u, u ≠ t → (rt.calls u).isLifecycle = false) (calls : rt₀.calls = rt.calls)
    (lock : rt₀.lifecycle_lock = some t)
    (pending : ∀ id path, (Call.lifecycle reserved stage).pending = some (id, path) →
      id ∈ reserved ∧ LiesAt id path) :
    LockedStep rt t (rt₀.setCall t (.lifecycle reserved stage)) := by
  have isCall : (rt₀.setCall t (.lifecycle reserved stage)).calls t = .lifecycle reserved stage :=
    Function.update_self _ _ _
  refine ⟨fun u other => ?_, fun _ => lock, others, ?_, ?_, fun h => ?_, fun id path isPending => ?_⟩
  · refine (Function.update_of_ne other _ _).trans ?_
    rw [calls]
  · rw [isCall]
    rfl
  · rw [isCall]
    rfl
  · rw [isCall]
    exact Call.noConfusion
  · rw [isCall] at isPending ⊢
    exact pending id path isPending

theorem calls_setCall_self {rt₀ : Runtime} {call : Call} : (rt₀.setCall t call).calls t = call :=
  Function.update_self _ _ _

/-- Where no operation holds a session back, the open sessions are those of the registry. -/
theorem Sound.registered_of_unclosed (sound : Sound rt) (noLimbo : ∀ u, (rt.calls u).limbo = none)
    {handle : Handle} {inner : SessionInner} (found : rt.session? handle = some inner)
    (unclosed : inner.closed = false) : rt.registered? inner.state.note_id = some handle := by
  rcases sound.unclosed handle inner found unclosed with own | ⟨-, u, isLimbo⟩
  · exact own
  · rw [noLimbo u] at isLimbo
    cases isLimbo

theorem Sound.noLimbo (sound : Sound rt) {stage : LifecycleStage}
    (isCall : rt.calls t = .lifecycle reserved stage)
    (holdsNone : (Call.lifecycle reserved stage).limbo = none) (u : Thread) :
    (rt.calls u).limbo = none := by
  by_cases self : u = t
  · rw [self, isCall, holdsNone]
  · have plain := sound.alone_of_lock (t := t) (by rw [isCall]; rfl) u self
    exact (Call.plain_of_not_lifecycle plain).2.1

/-- Where nothing is taken out of the registry, what was open stays registered. -/
theorem Sound.lockedSame {rt' : Runtime} (sound : Sound rt)
    (noLimbo : ∀ u, (rt.calls u).limbo = none) (stepped : LockedStep rt t rt')
    (shrinks : Shrinks rt rt') (registry : rt'.registry = rt.registry)
    (reserves : ∀ id ∈ (rt'.calls t).reserved, rt.registered? id = none) : Sound rt' := by
  have registered : ∀ id, rt'.registered? id = rt.registered? id := by
    intro id
    unfold Runtime.registered?
    rw [registry]
  refine sound.locked stepped shrinks (fun h before after found found' unclosed => ?_)
    (fun u h _ id isRegistered => (registered id).trans isRegistered) reserves
  obtain ⟨before', found'', same⟩ := shrinks.sessions h after found'
  cases found.symm.trans found''
  left
  rw [registered]
  exact sound.registered_of_unclosed noLimbo found (same.unclosed unclosed)

theorem Sound.of_data (sound : Sound rt) (bundle : Bundle) (db : Database) :
    Sound { rt with bundle, db } :=
  ⟨sound.listed, sound.unclosed, sound.acting, sound.settling, sound.removing, sound.alone,
    sound.reserved, sound.pending, sound.spelled⟩

/-- The session of an id is taken out of the registry, and held until it is closed. -/
theorem Sound.removed (sound : Sound rt) {note_id : ConceptId} {handle : Handle}
    {stage : LifecycleStage} (isCall : rt.calls t = .lifecycle reserved .between)
    (isOwn : rt.registered? note_id = some handle)
    (quiet : rt.Quiet note_id) (holds : (Call.lifecycle reserved stage).limbo = some handle)
    (pending : ∀ id path, (Call.lifecycle reserved stage).pending = some (id, path) →
      id ∈ reserved ∧ LiesAt id path) :
    Sound ((rt.remove note_id).setCall t (.lifecycle reserved stage)) := by
  have isLifecycle : (rt.calls t).isLifecycle = true := by
    rw [isCall]
    rfl
  have noLimbo := sound.noLimbo isCall rfl
  refine sound.locked (t := t) ?_ (.of_remove rfl rfl) ?_ ?_ ?_
  · exact .of_call (sound.alone_of_lock isLifecycle) rfl (sound.alone t isLifecycle) pending
  · intro h before after found found' unclosed
    cases found.symm.trans found'
    have registered := sound.registered_of_unclosed noLimbo found unclosed
    have removed : ((rt.remove note_id).setCall t (.lifecycle reserved stage)).registered?
        before.state.note_id = _ := Runtime.registered?_remove
    by_cases sameId : before.state.note_id = note_id
    · right
      rw [sameId, isOwn] at registered
      cases registered
      rw [if_pos sameId] at removed
      refine ⟨removed, t, ?_⟩
      rw [calls_setCall_self]
      exact holds
    · left
      rw [if_neg sameId] at removed
      exact removed.trans registered
  · intro u h isActing id isRegistered
    have other : id ≠ note_id := by
      rintro rfl
      exact quiet h isRegistered u isActing
    have removed : ((rt.remove note_id).setCall t (.lifecycle reserved stage)).registered? id = _ :=
      Runtime.registered?_remove
    rw [if_neg other] at removed
    exact removed.trans isRegistered
  · rw [calls_setCall_self]
    intro id mem
    apply sound.reserved t
    rw [isCall]
    exact mem

/-- The session that was taken out is closed. -/
theorem Sound.retired (sound : Sound rt) {handle : Handle} {inner inner' : SessionInner}
    {stage next : LifecycleStage} (isCall : rt.calls t = .lifecycle reserved stage)
    (holds : (Call.lifecycle reserved stage).limbo = some handle)
    (found : rt.session? handle = some inner) (same : SameSession inner inner')
    (closed : inner'.closed = true)
    (pending : ∀ id path, (Call.lifecycle reserved next).pending = some (id, path) →
      id ∈ reserved ∧ LiesAt id path) :
    Sound ((rt.setState handle inner').setCall t (.lifecycle reserved next)) := by
  have isLifecycle : (rt.calls t).isLifecycle = true := by
    rw [isCall]
    rfl
  have others := sound.alone_of_lock isLifecycle
  have stepped : StateStep rt handle inner (rt.setState handle inner') := .of_setState found same
  have objects := @Runtime.session?_setState _ _ _ inner' found
  refine sound.locked (t := t) ?_ ⟨(stepped.shrinks found).sessions, (stepped.shrinks found).kept,
    (stepped.shrinks found).registered⟩ ?_ (fun u h _ id isRegistered => isRegistered) ?_
  · exact .of_call others rfl (sound.alone t isLifecycle) pending
  · intro h before after found₁ found₂ unclosed
    have found₂' := (objects h).symm.trans found₂
    split at found₂'
    · cases found₂'
      rw [closed] at unclosed
      cases unclosed
    · rename_i other
      cases found₁.symm.trans found₂'
      left
      rcases sound.unclosed h before found₁ unclosed with own | ⟨-, u, isLimbo⟩
      · exact own
      · exfalso
        by_cases self : u = t
        · rw [self, isCall, holds] at isLimbo
          exact other (Option.some.inj isLimbo).symm
        · rw [(Call.plain_of_not_lifecycle (others u self)).2.1] at isLimbo
          cases isLimbo
  · rw [calls_setCall_self]
    intro id mem
    apply sound.reserved t
    rw [isCall]
    exact mem

end Locked

/-! ## Registering a session -/

section Registering

variable {rt : Runtime} {t : Thread} {reserved : List ConceptId} {session : NoteSession}

theorem registered?_registers {call : Call} {id : ConceptId} :
    ((rt.insert session).setCall t call).registered? id =
      if id = session.note_id then some rt.objects.length else rt.registered? id :=
  Runtime.registered?_insert

theorem session?_registers {call : Call} {handle : Handle} :
    ((rt.insert session).setCall t call).session? handle =
      if handle = rt.objects.length then some ⟨session, false⟩ else rt.session? handle :=
  Runtime.session?_insert

theorem Sound.registers {stage : LifecycleStage} (sound : Sound rt)
    (isCall : rt.calls t = .lifecycle reserved stage)
    (isPending : (Call.lifecycle reserved stage).pending =
      some (session.note_id, session.absolute_path))
    (holdsNone : (Call.lifecycle reserved stage).limbo = none) :
    Sound ((rt.insert session).setCall t
      (.lifecycle (reserved.filter (· ≠ session.note_id)) .between)) := by
  have isLifecycle : (rt.calls t).isLifecycle = true := by
    rw [isCall]
    rfl
  obtain ⟨isReserved, lies⟩ := sound.pending t _ _ (by rw [isCall]; exact isPending)
  have free : rt.registered? session.note_id = none := sound.reserved t _ isReserved
  have noLimbo := sound.noLimbo isCall holdsNone
  have stepped : LockedStep rt t ((rt.insert session).setCall t
      (.lifecycle (reserved.filter (· ≠ session.note_id)) .between)) :=
    .of_call (sound.alone_of_lock isLifecycle) rfl (sound.alone t isLifecycle) (by rintro id path ⟨⟩)
  refine ⟨?_, ?_, ?_, stepped.oneSettling sound, ?_, stepped.alone, ?_, stepped.allPending, ?_⟩
  · intro id handle isSome
    rw [registered?_registers] at isSome
    rw [session?_registers]
    split at isSome
    · rename_i own
      cases isSome
      exact ⟨⟨session, false⟩, if_pos rfl, own.symm⟩
    · obtain ⟨inner, found, isId⟩ := sound.listed id handle isSome
      rw [if_neg (Nat.ne_of_lt (Runtime.session?_lt found))]
      exact ⟨inner, found, isId⟩
  · intro handle inner found unclosed
    left
    rw [session?_registers] at found
    rw [registered?_registers]
    split at found
    · rename_i last
      cases found
      rw [if_pos rfl, last]
    · have own := sound.registered_of_unclosed noLimbo found unclosed
      rw [if_neg, own]
      intro sameId
      rw [sameId, free] at own
      cases own
  · intro u handle isActing
    -- what is acted on is registered, under another id than the one that was free
    obtain ⟨inner, found, isRegistered⟩ := sound.acting u handle (stepped.acts isActing)
    refine ⟨inner, ?_, ?_⟩
    · rw [session?_registers, if_neg (Nat.ne_of_lt (Runtime.session?_lt found))]
      exact found
    · rw [registered?_registers, if_neg, isRegistered]
      intro sameId
      rw [sameId, free] at isRegistered
      cases isRegistered
  · refine stepped.stillRemoving sound fun handle before found closed => ⟨before, ?_, closed⟩
    rw [session?_registers, if_neg (Nat.ne_of_lt (Runtime.session?_lt found))]
    exact found
  · intro u id mem
    by_cases self : u = t
    · rw [self, calls_setCall_self] at mem
      obtain ⟨mem, other⟩ := List.mem_filter.mp mem
      rw [registered?_registers, if_neg (by simpa using other)]
      apply sound.reserved t
      rw [isCall]
      exact mem
    · rw [(stepped.plain self).1] at mem
      cases mem
  · intro handle inner found
    rw [session?_registers] at found
    split at found
    · cases found
      exact lies
    · exact sound.spelled handle inner found

end Registering

/-! ## One step -/

section Step

variable {rt rt' : Runtime} {t : Thread}

theorem begin_spec {handle : Handle} {start : SessionInner → Runtime}
    (stepped : rt.begin t handle start = some rt') :
    rt.calls t = .idle ∧ ∃ inner, rt.session? handle = some inner ∧ start inner = rt' := by
  unfold Runtime.begin at stepped
  split at stepped
  · rename_i isIdle
    exact ⟨isIdle, Option.map_eq_some_iff.mp stepped⟩
  · cases stepped

theorem locked_spec {next : List ConceptId → Option Runtime}
    (stepped : rt.locked t next = some rt') :
    ∃ reserved, rt.calls t = .lifecycle reserved .between ∧ next reserved = some rt' := by
  unfold Runtime.locked at stepped
  split at stepped
  · rename_i reserved isCall
    exact ⟨reserved, isCall, stepped⟩
  · cases stepped

/-- A call on a handle starts. -/
theorem Sound.begins (sound : Sound rt) {handle : Handle} {inner : SessionInner} {call : Call}
    (isIdle : rt.calls t = .idle) (found : rt.session? handle = some inner)
    (follows : Follows rt t handle inner call) (removing : ∀ h, call ≠ .close h .removing) :
    Sound (rt.setCall t call) := by
  have still : StateStep rt handle inner rt := .of_data found rt.bundle rt.db
  refine sound.handleStep found (still.handleStep ?_ follows removing)
  rw [isIdle]
  rfl

/-- A close or a reload starts, the only one of a live session. -/
theorem Follows.of_live {handle : Handle} {inner : SessionInner} {call : Call}
    (live : rt.Live handle) (found : rt.session? handle = some inner)
    (none_ : ∀ u, (rt.calls u).settling ≠ some handle) (holds : call.handle? = some handle)
    (plain : call.isLifecycle = false) : Follows rt t handle inner call := by
  obtain ⟨inner', found', unclosed, own⟩ := live
  cases found.symm.trans found'
  exact ⟨fun _ isHandle => Option.some.inj (isHandle.symm.trans holds), plain,
    fun _ => .inr ⟨unclosed, inner, found, own⟩, fun _ => .inr none_⟩

theorem Sound.startEdit (sound : Sound rt) {handle : Handle} {inner : SessionInner}
    {what new_source : Text} (isIdle : rt.calls t = .idle) (found : rt.session? handle = some inner)
    (free : ∀ u, (rt.calls u).limbo ≠ some handle) :
    Sound (rt.startEdit t handle what new_source inner) := by
  unfold Runtime.startEdit
  split
  · rename_i isOpen _
    refine sound.handleStep found (StateStep.handleStep (.of_setState found ⟨rfl, rfl, id⟩) ?_ ?_ ?_)
    · rw [isIdle]
      rfl
    · refine ⟨?_, rfl, fun _ => .inr ⟨isOpen, sound.stands_of_unclosed found isOpen free⟩, ?_⟩
      · rintro h ⟨⟩
        rfl
      · rintro ⟨⟩
    · exact fun h => Call.noConfusion
  · exact sound

theorem Sound.advanceLifecycle (sound : Sound rt) {reserved : List ConceptId}
    {stage : LifecycleStage} (isCall : rt.calls t = .lifecycle reserved stage)
    (stepped : rt.advanceLifecycle t reserved stage = some rt') : Sound rt' := by
  cases stage with
  | between => cases stepped
  | opening session =>
    have isReserved := (sound.pending t _ _ (by rw [isCall]; rfl)).1
    have free := sound.reserved t _ isReserved
    unfold Runtime.advanceLifecycle at stepped
    dsimp only at stepped
    rw [free] at stepped
    cases stepped
    exact sound.registers isCall rfl rfl
  | discarding handle =>
    obtain ⟨inner, found, isResult⟩ := Option.bind_eq_some_iff.mp stepped
    cases isResult
    refine sound.retired isCall rfl found ?_ rfl ?_
    · exact ⟨rfl, rfl, fun _ => rfl⟩
    · rintro id path ⟨⟩
  | carrying handle new_id absolute_path new_source new_revision =>
    obtain ⟨inner, found, isResult⟩ := Option.bind_eq_some_iff.mp stepped
    cases isResult
    have isPending := sound.pending t new_id absolute_path (by rw [isCall]; rfl)
    rw [isCall] at isPending
    refine sound.retired isCall rfl found ?_ rfl ?_
    · exact ⟨rfl, rfl, fun _ => rfl⟩
    · rintro id path ⟨⟩
      exact isPending
  | inserting session =>
    cases stepped
    exact sound.registers isCall rfl rfl

theorem Sound.advance (sound : Sound rt) {now : Int} {fault : Option AppError}
    (orderly : Orderly rt (.advance t now fault))
    (stepped : rt.advance host workspace_id t now fault = some rt') : Sound rt' := by
  unfold Runtime.advance at stepped
  unfold Orderly at orderly
  dsimp only at orderly
  cases isCall : rt.calls t with
  | idle =>
    rw [isCall] at stepped
    cases stepped
  | flush handle stage =>
    rw [isCall] at stepped orderly
    obtain ⟨inner, found, isResult⟩ := Option.bind_eq_some_iff.mp stepped
    cases isResult
    refine sound.handleStep found (advanceFlush_handleStep sound isCall found ?_)
    rintro rfl
    exact orderly
  | close handle stage =>
    rw [isCall] at stepped orderly
    obtain ⟨inner, found, isResult⟩ := Option.bind_eq_some_iff.mp stepped
    cases isResult
    refine sound.handleStep found (advanceClose_handleStep isCall found ?_)
    rintro file_vanished rfl u other
    refine orderly u fun isSettling => other ?_
    exact sound.settling u t handle isSettling (by rw [isCall]; rfl)
  | reload handle conflicted stage =>
    rw [isCall] at stepped
    obtain ⟨inner, found, isResult⟩ := Option.bind_eq_some_iff.mp stepped
    cases isResult
    exact sound.handleStep found (advanceReload_handleStep isCall found)
  | edit handle previous written =>
    rw [isCall] at stepped
    obtain ⟨inner, found, isResult⟩ := Option.bind_eq_some_iff.mp stepped
    cases isResult
    exact sound.handleStep found (advanceEdit_handleStep isCall found)
  | lifecycle reserved stage =>
    rw [isCall] at stepped
    exact sound.advanceLifecycle isCall stepped

theorem Sound.startCarry (sound : Sound rt) {reserved : List ConceptId} {old_id new_id : ConceptId}
    {new_source : Option Text} {new_revision : Text}
    (isCall : rt.calls t = .lifecycle reserved .between)
    (orderly : old_id = new_id ∨ Canonical new_id ∧ rt.Quiet old_id)
    (stepped : rt.startCarry host t reserved old_id new_id new_source new_revision = some rt') :
    Sound rt' := by
  have isLifecycle : (rt.calls t).isLifecycle = true := by
    rw [isCall]
    rfl
  unfold Runtime.startCarry at stepped
  split at stepped
  · cases stepped
    exact sound
  · rename_i handle isOwn
    split at stepped
    · obtain ⟨inner, found, isResult⟩ := Option.map_eq_some_iff.mp stepped
      subst isResult
      have same : SameSession inner
          { inner with state := installRewrite inner.state new_source new_revision } := by
        unfold installRewrite
        split <;> exact ⟨rfl, rfl, id⟩
      refine sound.lockedSame (t := t) (sound.noLimbo isCall rfl) ?_
        (StateStep.shrinks (.of_setState found same) found) rfl ?_
      · refine ⟨fun _ _ => rfl, fun _ => sound.alone t isLifecycle,
          sound.alone_of_lock isLifecycle, ?_, ?_, ?_, sound.pending t⟩
        · exact (congrArg Call.acting isCall).trans rfl
        · exact (congrArg Call.settling isCall).trans rfl
        · intro h isRemoving
          cases isCall.symm.trans isRemoving
      · exact sound.reserved t
    · rename_i renamed
      obtain ⟨canonical, quiet⟩ := orderly.resolve_left renamed
      split at stepped
      · cases stepped
        exact sound
      · rename_i absolute_path isPath
        split at stepped
        · rename_i isReserved
          cases stepped
          refine sound.removed isCall isOwn quiet rfl ?_
          rintro id path ⟨⟩
          exact ⟨isReserved, .of_notePath canonical isPath⟩
        · cases stepped

/-- Every orderly step keeps the invariant. -/
theorem Sound.step (sound : Sound rt) {action : Action} (orderly : Orderly rt action)
    (stepped : rt.step host workspace_id action = some rt') : Sound rt' := by
  cases action with
  | flush t handle =>
    obtain ⟨isIdle, inner, found, rfl⟩ := begin_spec stepped
    refine sound.begins isIdle found ⟨?_, rfl, by rintro ⟨⟩, by rintro ⟨⟩⟩ (by simp)
    rintro h ⟨⟩
    rfl
  | close t handle =>
    obtain ⟨isIdle, inner, found, rfl⟩ := begin_spec stepped
    refine sound.begins isIdle found (.of_live orderly.1 found orderly.2 rfl rfl) ?_
    intro h isRemoving
    split at isRemoving <;> cases isRemoving
  | reload t handle conflicted =>
    obtain ⟨isIdle, inner, found, rfl⟩ := begin_spec stepped
    exact sound.begins isIdle found (.of_live orderly.1 found orderly.2 rfl rfl) (by simp)
  | edit t handle what new_source =>
    obtain ⟨isIdle, inner, found, rfl⟩ := begin_spec stepped
    exact sound.startEdit isIdle found orderly
  | lifecycle t =>
    unfold Runtime.step at stepped
    dsimp only at stepped
    split at stepped
    · rename_i isIdle isFree
      cases stepped
      -- whoever is in an operation holds the lock
      have none_ : ∀ u, (rt.calls u).isLifecycle = false := by
        intro u
        by_contra isLifecycle
        have holds := sound.alone u (by simpa using isLifecycle)
        rw [isFree] at holds
        cases holds
      refine sound.lockedSame (fun u => (Call.plain_of_not_lifecycle (none_ u)).2.1)
        (.of_call (fun u _ => none_ u) rfl rfl (by rintro id path ⟨⟩)) (.of_same rfl rfl) rfl ?_
      rw [calls_setCall_self]
      rintro id ⟨⟩
    · cases stepped
  | advance t now fault => exact sound.advance orderly stepped
  | reserve t note_id =>
    obtain ⟨reserved, isCall, isResult⟩ := locked_spec stepped
    have isLifecycle : (rt.calls t).isLifecycle = true := by
      rw [isCall]
      rfl
    split at isResult
    · cases isResult
    · rename_i free
      cases isResult
      refine sound.lockedSame (sound.noLimbo isCall rfl)
        (.of_call (sound.alone_of_lock isLifecycle) rfl (sound.alone t isLifecycle)
          (by rintro id path ⟨⟩))
        (.of_same rfl rfl) rfl ?_
      rw [calls_setCall_self]
      intro id mem
      rcases List.mem_cons.mp mem with rfl | mem
      · simpa using free
      · apply sound.reserved t
        rw [isCall]
        exact mem
  | publish t bundle db =>
    obtain ⟨reserved, isCall, isResult⟩ := locked_spec stepped
    cases isResult
    exact sound.of_data bundle db
  | openNote t note_id =>
    obtain ⟨reserved, isCall, isResult⟩ := locked_spec stepped
    have isLifecycle : (rt.calls t).isLifecycle = true := by
      rw [isCall]
      rfl
    split at isResult
    · rename_i isReserved
      split at isResult
      · cases isResult
      · rename_i session core opened
        cases isResult
        refine sound.lockedSame (sound.noLimbo isCall rfl) (.of_call (sound.alone_of_lock isLifecycle)
          rfl (sound.alone t isLifecycle) ?_) (.of_same rfl rfl) rfl ?_
        · rintro id path ⟨⟩
          rcases openNoteSerialized_spec opened with ⟨found, -⟩ | ⟨-, isId, -, isPath, -⟩
          · cases found
          · rw [isId]
            exact ⟨isReserved, .of_notePath orderly isPath⟩
        · rw [calls_setCall_self]
          intro id mem
          apply sound.reserved t
          rw [isCall]
          exact mem
    · cases isResult
  | carryForward t old_id new_id new_source new_revision =>
    obtain ⟨reserved, isCall, isResult⟩ := locked_spec stepped
    exact sound.startCarry isCall orderly isResult
  | discard t note_id =>
    obtain ⟨reserved, isCall, isResult⟩ := locked_spec stepped
    split at isResult
    · cases isResult
      exact sound
    · rename_i handle isOwn
      cases isResult
      exact sound.removed isCall isOwn orderly rfl (by rintro id path ⟨⟩)
  | unlock t =>
    obtain ⟨reserved, isCall, isResult⟩ := locked_spec stepped
    cases isResult
    have isLifecycle : (rt.calls t).isLifecycle = true := by
      rw [isCall]
      rfl
    refine sound.lockedSame (t := t) (sound.noLimbo isCall rfl) ?_ (.of_same rfl rfl) rfl ?_
    · refine ⟨fun u other => Function.update_of_ne other _ _, ?_, sound.alone_of_lock isLifecycle,
        ?_, ?_, ?_, ?_⟩ <;> rw [calls_setCall_self]
      · rintro ⟨⟩
      · rfl
      · rfl
      · exact fun h => Call.noConfusion
      · rintro id path ⟨⟩
    · rw [calls_setCall_self]
      rintro id ⟨⟩
  | foreign bundle =>
    cases stepped
    exact sound.of_data bundle rt.db

theorem sound_initial (bundle : Bundle) (db : Database) : Sound (Runtime.initial bundle db) := by
  refine ⟨?_, ?_, ?_, ?_, ?_, ?_, ?_, ?_, ?_⟩
  · rintro id handle ⟨⟩
  · rintro handle inner ⟨⟩
  · rintro t handle ⟨⟩
  · rintro t u handle ⟨⟩
  · rintro t handle ⟨⟩
  · rintro t ⟨⟩
  · rintro t id ⟨⟩
  · rintro t id path ⟨⟩
  · rintro handle inner ⟨⟩

end Step

/-! ## Inertness -/

section Inertness

variable {rt rt' : Runtime} {action : Action}

/-- What a step leaves as it is, it leaves to a successor. -/
theorem inert_of_same (registry : ∀ id, rt'.registered? id = rt.registered? id)
    (db : rt'.db = rt.db) (bundle : rt'.bundle = rt.bundle) : Inert workspace_id rt action rt' := by
  intro handle inner later successor _ _ isRegistered _ _
  refine ⟨?_, ?_, ?_⟩
  · rw [registry]
    exact isRegistered
  · rw [db]
  · rw [bundle]

/-- A call that acts on a session finds no successor of it. -/
theorem Sound.inert_of_acting (sound : Sound rt) {t : Thread} {now : Int} {fault : Option AppError}
    {handle : Handle} (isActing : (rt.calls t).acting = some handle) :
    Inert workspace_id rt (.advance t now fault) rt' := by
  intro handle' inner later successor isHandle found isRegistered other _
  have holds : (rt.calls t).handle? = some handle := Call.handle?_of_acting isActing
  have isSame : handle = handle' := by
    unfold Action.handle? at isHandle
    dsimp only at isHandle
    rw [holds] at isHandle
    exact Option.some.inj isHandle
  subst isSame
  obtain ⟨inner', found', own⟩ := sound.acting t handle isActing
  cases found.symm.trans found'
  exact absurd (Option.some.inj (isRegistered.symm.trans own)) other

theorem Sound.advance_inert (sound : Sound rt) {t : Thread} {now : Int} {fault : Option AppError}
    (stepped : rt.advance host workspace_id t now fault = some rt') :
    Inert workspace_id rt (.advance t now fault) rt' := by
  cases isCall : rt.calls t with
  | idle =>
    unfold Runtime.advance at stepped
    rw [isCall] at stepped
    cases stepped
  | flush handle stage =>
    cases stage with
    | checking =>
      unfold Runtime.advance at stepped
      rw [isCall] at stepped
      obtain ⟨inner, found, isResult⟩ := Option.bind_eq_some_iff.mp stepped
      cases isResult
      unfold Runtime.advanceFlush Runtime.flushStage
      dsimp only
      by_cases closed : inner.closed = true
      · rw [if_pos closed]
        exact inert_of_same (fun _ => rfl) rfl rfl
      · rw [if_neg closed]
        exact inert_of_same (fun _ => rfl) rfl rfl
    | _ => exact @Sound.inert_of_acting _ _ _ sound _ _ _ handle (by rw [isCall]; rfl)
  | close handle stage => exact @Sound.inert_of_acting _ _ _ sound _ _ _ handle (by rw [isCall]; rfl)
  | reload handle conflicted stage =>
    exact @Sound.inert_of_acting _ _ _ sound _ _ _ handle (by rw [isCall]; rfl)
  | edit handle previous written =>
    exact @Sound.inert_of_acting _ _ _ sound _ _ _ handle (by rw [isCall]; rfl)
  | lifecycle reserved stage =>
    unfold Runtime.advance at stepped
    rw [isCall] at stepped
    cases stage with
    | discarding handle =>
      obtain ⟨inner, found, isResult⟩ := Option.bind_eq_some_iff.mp stepped
      cases isResult
      exact inert_of_same (fun _ => rfl) rfl rfl
    | carrying handle new_id absolute_path new_source new_revision =>
      obtain ⟨inner, found, isResult⟩ := Option.bind_eq_some_iff.mp stepped
      cases isResult
      exact inert_of_same (fun _ => rfl) rfl rfl
    | _ =>
      -- no session is held
      intro handle inner later successor isHandle
      unfold Action.handle? at isHandle
      dsimp only at isHandle
      rw [isCall] at isHandle
      cases isHandle

theorem Sound.inert (sound : Sound rt)
    (stepped : rt.step host workspace_id action = some rt') : Inert workspace_id rt action rt' := by
  cases action with
  | flush t handle =>
    obtain ⟨-, inner, -, rfl⟩ := begin_spec stepped
    exact inert_of_same (fun _ => rfl) rfl rfl
  | close t handle =>
    obtain ⟨-, inner, -, rfl⟩ := begin_spec stepped
    exact inert_of_same (fun _ => rfl) rfl rfl
  | reload t handle conflicted =>
    obtain ⟨-, inner, -, rfl⟩ := begin_spec stepped
    exact inert_of_same (fun _ => rfl) rfl rfl
  | edit t handle what new_source =>
    obtain ⟨-, inner, -, rfl⟩ := begin_spec stepped
    unfold Runtime.startEdit
    split
    · exact inert_of_same (fun _ => rfl) rfl rfl
    · exact inert_of_same (fun _ => rfl) rfl rfl
  | advance t now fault => exact sound.advance_inert stepped
  | _ => rintro handle inner later successor ⟨⟩

/-- In every orderly run the registry has one live session a file, and a step on the handle
of a session leaves whatever a later session of the id has. -/
theorem retired_sessions_are_inert (host : Host) (workspace_id : WorkspaceId) (bundle : Bundle)
    (db : Database) (rt : Runtime)
    (reached : Reaches (Runtime.step host workspace_id) Orderly (Runtime.initial bundle db) rt) :
    OneLiveSession rt ∧ ∀ action rt', rt.step host workspace_id action = some rt' →
      Inert workspace_id rt action rt' := by
  have sound : Sound rt := by
    apply reached.invariant (sound_initial bundle db)
    intro before action after sound orderly stepped
    exact sound.step orderly stepped
  exact ⟨sound.one_live, fun action rt' stepped => sound.inert stepped⟩

end Inertness

/-! ## Openings and closes -/

/-- The file of `n` holds `a`, and nothing is open. -/
def unopened : Runtime := .initial (noteOnDisk ['a']) (.empty [['w']])

/-- A thread opens `n`. -/
def opening (t : Thread) : List Action :=
  [.lifecycle t, .reserve t ['n'], .openNote t ['n'], .advance t 1 none, .unlock t]

/-- The state that some actions lead to. -/
def after (actions : List Action) : Runtime :=
  (Machine.run (Runtime.step Host.plain ['w']) unopened actions).getD unopened

/-- A Note is opened, closed and opened again, and its idle timer fires for the first session. -/
def reopened : List Action :=
  opening 0 ++ [.close 0 0, .advance 0 2 none, .advance 0 2 none] ++ opening 0 ++ [.flush 0 0]

theorem canonical_n : Canonical ['n'] := by
  unfold Canonical
  decide

/-- The close of the run is the only call on a live session, and nothing acts on it besides. -/
theorem orderly_closing :
    Orderly (after (reopened.take 5)) (.close 0 0) ∧
      Orderly (after (reopened.take 6)) (.advance 0 2 none) := by
  constructor
  · refine ⟨⟨_, rfl, rfl, by decide +kernel⟩, ?_⟩
    rintro (_ | t) ⟨⟩
  · rintro (_ | u) away isActing
    · exact away isActing
    · cases isActing

/-- The flush on the handle of the retired session leaves its successor alone. -/
theorem retired_session_flushes : ∃ rt rt', rt.step Host.plain ['w'] (.advance 0 3 none) = some rt' ∧
    (rt.session? 0).any SessionInner.closed = true ∧ rt.registered? ['n'] = some 1 ∧
    OneLiveSession rt ∧ Inert ['w'] rt (.advance 0 3 none) rt' := by
  have ran : Reaches (Runtime.step Host.plain ['w']) Orderly unopened (after reopened) := by
    refine .tail (s := after (reopened.take 13)) (a := .flush 0 0) ?_ trivial rfl
    refine .tail (s := after (reopened.take 12)) (a := .unlock 0) ?_ trivial rfl
    refine .tail (s := after (reopened.take 11)) (a := .advance 0 1 none) ?_ trivial rfl
    refine .tail (s := after (reopened.take 10)) (a := .openNote 0 ['n']) ?_ canonical_n rfl
    refine .tail (s := after (reopened.take 9)) (a := .reserve 0 ['n']) ?_ trivial rfl
    refine .tail (s := after (reopened.take 8)) (a := .lifecycle 0) ?_ trivial rfl
    refine .tail (s := after (reopened.take 7)) (a := .advance 0 2 none) ?_ trivial rfl
    refine .tail (s := after (reopened.take 6)) (a := .advance 0 2 none) ?_ orderly_closing.2 rfl
    refine .tail (s := after (reopened.take 5)) (a := .close 0 0) ?_ orderly_closing.1 rfl
    refine .tail (s := after (reopened.take 4)) (a := .unlock 0) ?_ trivial rfl
    refine .tail (s := after (reopened.take 3)) (a := .advance 0 1 none) ?_ trivial rfl
    refine .tail (s := after (reopened.take 2)) (a := .openNote 0 ['n']) ?_ canonical_n rfl
    refine .tail (s := after (reopened.take 1)) (a := .reserve 0 ['n']) ?_ trivial rfl
    exact .tail (a := .lifecycle 0) .refl trivial rfl
  obtain ⟨rt', stepped⟩ : ∃ rt',
      (after reopened).step Host.plain ['w'] (.advance 0 3 none) = some rt' := ⟨_, rfl⟩
  have both := retired_sessions_are_inert Host.plain ['w'] _ _ _ ran
  exact ⟨_, rt', stepped, by decide +kernel, by decide +kernel, both.1, both.2 _ _ stepped⟩

/-- Two threads close one session. The Note is opened again between them, and the close that
comes second takes the new session out of the registry. -/
def closedTwice : List Action :=
  opening 2 ++ [.close 0 0, .close 1 0, .advance 1 2 none, .advance 1 2 none] ++ opening 2 ++
    [.advance 0 3 none]

theorem close_removes_successor : ∃ rt rt',
    Reaches (Runtime.step Host.plain ['w']) Machine.Any unopened rt ∧
      rt.step Host.plain ['w'] (.advance 0 3 none) = some rt' ∧
      ¬Inert ['w'] rt (.advance 0 3 none) rt' := by
  have ran : Machine.run (Runtime.step Host.plain ['w']) unopened closedTwice =
      some (after closedTwice) := rfl
  obtain ⟨rt', stepped⟩ : ∃ rt',
      (after closedTwice).step Host.plain ['w'] (.advance 0 3 none) = some rt' := ⟨_, rfl⟩
  have isBefore : (after closedTwice).registered? ['n'] = some 1 := by decide +kernel
  have isAfter : ((after closedTwice).step Host.plain ['w'] (.advance 0 3 none)).bind
      (fun rt => rt.registered? ['n']) = none := by decide +kernel
  obtain ⟨retired, isRetired⟩ : ∃ retired, (after closedTwice).session? 0 = some retired :=
    ⟨_, rfl⟩
  obtain ⟨successor, isSuccessor⟩ : ∃ successor, (after closedTwice).session? 1 = some successor :=
    ⟨_, rfl⟩
  have isNote : ((after closedTwice).session? 0).map (fun inner => inner.state.note_id) =
      some ['n'] := by decide +kernel
  rw [isRetired] at isNote
  have sameId : retired.state.note_id = ['n'] := Option.some.inj isNote
  rw [stepped] at isAfter
  refine ⟨_, rt', .of_run ran, stepped, fun inert => ?_⟩
  have kept := (inert 0 retired 1 successor rfl isRetired (by rw [sameId]; exact isBefore)
    (by decide) isSuccessor).1
  rw [sameId] at kept
  cases isAfter.symm.trans kept

end Burlmd.Lifecycle
