import Burlmd.Library.Segments
import Burlmd.Lifecycle.Handles
import Burlmd.Lifecycle.SessionSpecs
import Burlmd.Workspace.FileCalls

/-!
# Retired sessions are inert

A call that does not look at the closed flag any more acts on whatever is registered for
its concept id. As long as closes and reloads of a session come one at a time, and no session
leaves the registry under a call that acts on it, what such a call finds is its own session.
-/

namespace Burlmd.Lifecycle

open Workspace
open Utf8 (Text)
open Okf (ConceptId)
open Index (WorkspaceId Database)

variable {host : Host} {workspace_id : WorkspaceId}

/-! ## What is promised -/

/-- The session that a lifecycle operation has taken out of the registry and not closed. -/
def Call.limbo : Call → Option Handle
  | .lifecycle _ (.discarding handle) => some handle
  | .lifecycle _ (.carrying handle ..) => some handle
  | _ => none

/-- The session whose handle the thread of an action holds. -/
def Action.handle? (rt : Runtime) : Action → Option Handle
  | .flush _ handle | .close _ handle | .reload _ handle _ | .edit _ handle _ _ => some handle
  | .advance t _ _ => (rt.calls t).handle?.or (rt.calls t).limbo
  | _ => none

/-- A step on the handle of a session leaves what belongs to a later session of the same
id: its entry, its drafts row and its file. -/
def Inert (workspace_id : WorkspaceId) (rt : Runtime) (action : Action) (rt' : Runtime) : Prop :=
  ∀ handle inner later successor, action.handle? rt = some handle →
    rt.session? handle = some inner → rt.registered? inner.state.note_id = some later →
    later ≠ handle → rt.session? later = some successor →
      rt'.registered? inner.state.note_id = some later ∧
        rt'.db.readDraft workspace_id inner.state.note_id =
          rt.db.readDraft workspace_id inner.state.note_id ∧
        rt'.bundle.read successor.state.absolute_path =
          rt.bundle.read successor.state.absolute_path

/-- No two live sessions of the registry are of one file. -/
def OneLiveSession (rt : Runtime) : Prop :=
  ∀ id id' handle handle' inner inner', rt.registered? id = some handle →
    rt.registered? id' = some handle' → rt.session? handle = some inner →
    rt.session? handle' = some inner' → inner.closed = false → inner'.closed = false →
    inner.state.absolute_path = inner'.state.absolute_path → handle = handle'

/-! ## On which condition -/

/-- The session that a call acts on without another look at its closed flag. -/
def Call.acting : Call → Option Handle
  | .flush _ .checking => none
  | call => call.handle?

/-- The session of a close or a reload. -/
def Call.settling : Call → Option Handle
  | .close handle _ | .reload handle _ _ => some handle
  | _ => none

namespace Runtime

/-- The session is open and registered. -/
def Live (rt : Runtime) (handle : Handle) : Prop :=
  ∃ inner, rt.session? handle = some inner ∧ inner.closed = false ∧
    rt.registered? inner.state.note_id = some handle

/-- No call acts on the session that is registered for an id. -/
def Quiet (rt : Runtime) (note_id : ConceptId) : Prop :=
  ∀ handle, rt.registered? note_id = some handle → ∀ t, (rt.calls t).acting ≠ some handle

end Runtime

/-- An id without empty segments and without `.`, of which no other is a spelling. -/
def Canonical (note_id : ConceptId) : Prop :=
  ∀ segment ∈ note_id.splitOn Okf.slash, segment ≠ [] ∧ segment ≠ ['.']

/-- A session is closed or reloaded by one call at a time, and not once it is retired. Ids are
spelled in one way. A session is not retired, be it by its close or by a lifecycle operation,
while another call acts on it, nor does a call begin to act on it while such an operation has
it in hand. -/
def Orderly (rt : Runtime) : Action → Prop
  | .close _ handle | .reload _ handle _ =>
      rt.Live handle ∧ ∀ t, (rt.calls t).settling ≠ some handle
  | .edit _ handle _ _ => ∀ t, (rt.calls t).limbo ≠ some handle
  | .advance t _ _ =>
      match rt.calls t with
      | .flush handle .checking => ∀ u, (rt.calls u).limbo ≠ some handle
      | .close handle (.retiring _) =>
          ∀ u, (rt.calls u).settling ≠ some handle → (rt.calls u).acting ≠ some handle
      | _ => True
  | .openNote _ note_id => Canonical note_id
  | .carryForward _ old_id new_id _ _ => old_id = new_id ∨ Canonical new_id ∧ rt.Quiet old_id
  | .discard _ note_id => rt.Quiet note_id
  | _ => True

/-! ## One spelling of an id -/

/-- A canonical id, and the path of its file. -/
structure LiesAt (note_id : ConceptId) (path : Path) : Prop where
  canonical : Canonical note_id
  components : normalComponents (Okf.conceptIdToPath note_id) = some path

theorem LiesAt.of_notePath {bundle : Bundle} {note_id : ConceptId} {path : Path}
    (canonical : Canonical note_id) (found : notePath host bundle note_id = .ok path) :
    LiesAt note_id path :=
  ⟨canonical, normalComponents_of_notePath found⟩

/-- A file has one canonical id. -/
theorem LiesAt.injective {id id' : ConceptId} {path : Path} (lies : LiesAt id path)
    (lies' : LiesAt id' path) : id = id' := by
  have texts {id : ConceptId} (lies : LiesAt id path) :
      path.map Name.text = (Okf.conceptIdToPath id).splitOn Okf.slash := by
    have kept : ∀ segment ∈ (Okf.conceptIdToPath id).splitOn Okf.slash,
        decide (segment ≠ [] ∧ segment ≠ ['.']) = true := by
      intro segment mem
      apply decide_eq_true
      unfold Okf.conceptIdToPath at mem
      rw [Segments.splitOn_append (by decide)] at mem
      rcases List.mem_append.mp mem with mem | mem
      · exact lies.canonical segment (List.dropLast_subset _ mem)
      · obtain rfl := List.mem_singleton.mp mem
        -- the last segment ends in the suffix of Notes
        refine ⟨List.append_ne_nil_of_right_ne_nil _ (by decide), fun same => ?_⟩
        have length := congrArg List.length same
        rw [List.length_append] at length
        have suffix : Okf.mdSuffix.length = 3 := rfl
        rw [suffix, List.length_singleton] at length
        omega
    have components := lies.components
    unfold normalComponents at components
    dsimp only at components
    split_ifs at components
    rw [List.filter_eq_self.mpr kept] at components
    exact text_of_mapM components
  have same := congrArg [Okf.slash].intercalate ((texts lies).symm.trans (texts lies'))
  rw [List.intercalate_splitOn, List.intercalate_splitOn] at same
  exact List.append_cancel_right same

/-! ## The invariant -/

namespace Call

def isLifecycle : Call → Bool
  | .lifecycle .. => true
  | _ => false

def reserved : Call → List ConceptId
  | .lifecycle reserved _ => reserved
  | _ => []

/-- The id that a lifecycle operation is about to register, with the path of its file. -/
def pending : Call → Option (ConceptId × Path)
  | .lifecycle _ (.opening session) => some (session.note_id, session.absolute_path)
  | .lifecycle _ (.inserting session) => some (session.note_id, session.absolute_path)
  | .lifecycle _ (.carrying _ new_id absolute_path ..) => some (new_id, absolute_path)
  | _ => none

theorem handle?_of_acting {call : Call} {handle : Handle} (isActing : call.acting = some handle) :
    call.handle? = some handle := by
  cases call with
  | flush h stage =>
    cases stage with
    | checking => cases isActing
    | _ => exact isActing
  | _ => exact isActing

end Call

/-- The session is registered under its id. -/
def Runtime.Stands (rt : Runtime) (handle : Handle) : Prop :=
  ∃ inner, rt.session? handle = some inner ∧ rt.registered? inner.state.note_id = some handle

structure Sound (rt : Runtime) : Prop where
  listed : ∀ id handle, rt.registered? id = some handle →
    ∃ inner, rt.session? handle = some inner ∧ inner.state.note_id = id
  unclosed : ∀ handle inner, rt.session? handle = some inner → inner.closed = false →
    rt.registered? inner.state.note_id = some handle ∨
      (rt.registered? inner.state.note_id = none ∧ ∃ t, (rt.calls t).limbo = some handle)
  acting : ∀ t handle, (rt.calls t).acting = some handle → rt.Stands handle
  settling : ∀ t u handle, (rt.calls t).settling = some handle →
    (rt.calls u).settling = some handle → t = u
  removing : ∀ t handle, rt.calls t = .close handle .removing →
    (∃ inner, rt.session? handle = some inner ∧ inner.closed = true) ∧
      ∀ u, u ≠ t → (rt.calls u).acting ≠ some handle
  alone : ∀ t, (rt.calls t).isLifecycle = true → rt.lifecycle_lock = some t
  reserved : ∀ t, ∀ id ∈ (rt.calls t).reserved, rt.registered? id = none
  pending : ∀ t id path, (rt.calls t).pending = some (id, path) →
    id ∈ (rt.calls t).reserved ∧ LiesAt id path
  spelled : ∀ handle inner, rt.session? handle = some inner →
    LiesAt inner.state.note_id inner.state.absolute_path

/-- Sessions of one file have one id, and so they are one. -/
theorem Sound.one_live {rt : Runtime} (sound : Sound rt) : OneLiveSession rt := by
  intro id id' handle handle' inner inner' isSome isSome' found found' _ _ samePath
  obtain ⟨listed, isListed, isId⟩ := sound.listed id handle isSome
  obtain ⟨listed', isListed', isId'⟩ := sound.listed id' handle' isSome'
  cases found.symm.trans isListed
  cases found'.symm.trans isListed'
  have lies := sound.spelled handle inner found
  rw [samePath] at lies
  have sameId := lies.injective (sound.spelled handle' inner' found')
  rw [isId, isId'] at sameId
  rw [sameId] at isSome
  exact Option.some.inj (isSome.symm.trans isSome')

/-- An open session is registered, unless a lifecycle operation has it in hand. -/
theorem Sound.stands_of_unclosed {rt : Runtime} (sound : Sound rt) {handle : Handle}
    {inner : SessionInner} (found : rt.session? handle = some inner)
    (unclosed : inner.closed = false) (free : ∀ t, (rt.calls t).limbo ≠ some handle) :
    rt.Stands handle := by
  rcases sound.unclosed handle inner found unclosed with own | ⟨-, t, isLimbo⟩
  · exact ⟨inner, found, own⟩
  · exact absurd isLimbo (free t)

namespace Runtime

variable {rt : Runtime}

/-! ## Pieces of a step -/

theorem registered?_remove {note_id id : ConceptId} :
    (rt.remove note_id).registered? id = if id = note_id then none else rt.registered? id := by
  unfold registered?
  split
  · rename_i own
    rw [Option.map_eq_none_iff]
    apply Table.find?_eq_none_iff.mpr
    intro entry mem isKey
    have other := of_decide_eq_false (Table.mem_delete.mp mem).2
    exact other (isKey.trans own)
  · rename_i other
    apply congrArg
    apply Table.find?_congr
    rintro entry rfl
    exact Table.mem_delete.trans (and_iff_left (decide_eq_false other))

theorem registered?_insert {session : NoteSession} {id : ConceptId} :
    (rt.insert session).registered? id =
      if id = session.note_id then some rt.objects.length else rt.registered? id := by
  unfold registered? insert
  dsimp only
  rw [Table.find?_put]
  by_cases own : session.note_id = id
  · rw [if_pos own, if_pos own.symm]
    rfl
  · rw [if_neg own, if_neg fun same => own same.symm]

theorem session?_insert {session : NoteSession} {handle : Handle} :
    (rt.insert session).session? handle =
      if handle = rt.objects.length then some ⟨session, false⟩ else rt.session? handle := by
  unfold session? insert
  rw [List.getElem?_append]
  split
  · rename_i inside
    rw [if_neg (Nat.ne_of_lt inside)]
  · rename_i outside
    split
    · rename_i last
      rw [last, Nat.sub_self]
      rfl
    · rename_i other
      have beyond : rt.objects.length < handle :=
        Nat.lt_of_le_of_ne (Nat.le_of_not_lt outside) fun same => other same.symm
      rw [List.getElem?_eq_none (Nat.le_of_lt beyond)]
      exact List.getElem?_eq_none (Nat.sub_pos_of_lt beyond)

theorem session?_lt {handle : Handle} {inner : SessionInner} (found : rt.session? handle = some inner) :
    handle < rt.objects.length := (List.getElem?_eq_some_iff.mp found).1

end Runtime

/-- A session after a step on it: the same Note and file, and closed for good. -/
structure SameSession (inner inner' : SessionInner) : Prop where
  note_id : inner'.state.note_id = inner.state.note_id
  absolute_path : inner'.state.absolute_path = inner.state.absolute_path
  closed : inner.closed = true → inner'.closed = true

theorem SameSession.refl (inner : SessionInner) : SameSession inner inner := ⟨rfl, rfl, id⟩

/-- A step that makes no session and registers none. -/
structure Shrinks (rt rt' : Runtime) : Prop where
  sessions : ∀ handle after, rt'.session? handle = some after →
    ∃ before, rt.session? handle = some before ∧ SameSession before after
  kept : ∀ handle before, rt.session? handle = some before →
    ∃ after, rt'.session? handle = some after
  registered : ∀ id handle, rt'.registered? id = some handle → rt.registered? id = some handle

theorem SameSession.unclosed {before after : SessionInner} (same : SameSession before after)
    (unclosed : after.closed = false) : before.closed = false := by
  by_contra closed
  rw [same.closed (by simpa using closed)] at unclosed
  cases unclosed

namespace Shrinks

variable {rt rt' : Runtime}

theorem stands (shrinks : Shrinks rt rt') {handle : Handle} (stands : rt.Stands handle)
    (kept : ∀ id, rt.registered? id = some handle → rt'.registered? id = some handle) :
    rt'.Stands handle := by
  obtain ⟨before, found, isRegistered⟩ := stands
  obtain ⟨after, found'⟩ := shrinks.kept handle before found
  obtain ⟨before', found'', same⟩ := shrinks.sessions handle after found'
  cases found.symm.trans found''
  refine ⟨after, found', ?_⟩
  rw [same.note_id]
  exact kept _ isRegistered

theorem free (shrinks : Shrinks rt rt') {id : ConceptId} (free : rt.registered? id = none) :
    rt'.registered? id = none := by
  cases isRegistered : rt'.registered? id with
  | none => rfl
  | some handle =>
    rw [shrinks.registered id handle isRegistered] at free
    cases free

theorem retired (shrinks : Shrinks rt rt') {handle : Handle}
    (retired : ∃ inner, rt.session? handle = some inner ∧ inner.closed = true) :
    ∃ inner, rt'.session? handle = some inner ∧ inner.closed = true := by
  obtain ⟨before, found, closed⟩ := retired
  obtain ⟨after, found'⟩ := shrinks.kept handle before found
  obtain ⟨before', found'', same⟩ := shrinks.sessions handle after found'
  cases found.symm.trans found''
  exact ⟨after, found', same.closed closed⟩

theorem listed (shrinks : Shrinks rt rt') (sound : Sound rt) (id : ConceptId) (handle : Handle)
    (isSome : rt'.registered? id = some handle) :
    ∃ inner, rt'.session? handle = some inner ∧ inner.state.note_id = id := by
  obtain ⟨before, found, isId⟩ := sound.listed id handle (shrinks.registered id handle isSome)
  obtain ⟨after, found'⟩ := shrinks.kept handle before found
  obtain ⟨before', found'', same⟩ := shrinks.sessions handle after found'
  cases found.symm.trans found''
  exact ⟨after, found', same.note_id.trans isId⟩

theorem spelled (shrinks : Shrinks rt rt') (sound : Sound rt) (handle : Handle)
    (after : SessionInner) (found : rt'.session? handle = some after) :
    LiesAt after.state.note_id after.state.absolute_path := by
  obtain ⟨before, found', same⟩ := shrinks.sessions handle after found
  rw [same.note_id, same.absolute_path]
  exact sound.spelled handle before found'

end Shrinks

/-- What a step on a handle does: it changes its session, its call, and at the end of a close
the registry. -/
structure HandleStep (rt : Runtime) (t : Thread) (handle : Handle) (inner : SessionInner)
    (rt' : Runtime) : Prop where
  objects : ∃ inner', SameSession inner inner' ∧
    (∀ h, rt'.session? h = if h = handle then some inner' else rt.session? h) ∧
    (rt'.calls t = .close handle .removing → inner'.closed = true)
  registry : (∀ id, rt'.registered? id = rt.registered? id) ∨
    (rt.calls t = .close handle .removing ∧ rt'.calls t = .idle ∧
      ∀ id, rt'.registered? id = (rt.remove inner.state.note_id).registered? id)
  calls : ∀ u, u ≠ t → rt'.calls u = rt.calls u
  call : (rt'.calls t).isLifecycle = false
  before : (rt.calls t).isLifecycle = false
  acting : ∀ h, (rt'.calls t).acting = some h → h = handle ∧
    ((rt.calls t).acting = some handle ∨ inner.closed = false ∧ rt.Stands handle)
  settling : ∀ h, (rt'.calls t).settling = some h → h = handle ∧
    ((rt.calls t).settling = some handle ∨ ∀ u, (rt.calls u).settling ≠ some handle)
  removing : ∀ h, rt'.calls t = .close h .removing →
    h = handle ∧ ∀ u, u ≠ t → (rt.calls u).acting ≠ some handle
  lock : rt'.lifecycle_lock = rt.lifecycle_lock

theorem Call.plain_of_not_lifecycle {call : Call} (plain : call.isLifecycle = false) :
    call.reserved = [] ∧ call.limbo = none ∧ call.pending = none := by
  cases call with
  | lifecycle reserved stage => cases plain
  | _ => exact ⟨rfl, rfl, rfl⟩

theorem Shrinks.of_update {rt rt' : Runtime} {handle : Handle} {inner inner' : SessionInner}
    (found : rt.session? handle = some inner) (same : SameSession inner inner')
    (objects : ∀ h, rt'.session? h = if h = handle then some inner' else rt.session? h)
    (registered : ∀ id h, rt'.registered? id = some h → rt.registered? id = some h) :
    Shrinks rt rt' := by
  refine ⟨fun h after isSome => ?_, fun h before isSome => ?_, registered⟩
  · rw [objects] at isSome
    split at isSome
    · rename_i own
      cases isSome
      exact ⟨inner, own ▸ found, same⟩
    · exact ⟨after, isSome, .refl after⟩
  · rw [objects]
    split
    · exact ⟨inner', rfl⟩
    · exact ⟨before, isSome⟩

theorem HandleStep.shrinks {rt rt' : Runtime} {t : Thread} {handle : Handle} {inner : SessionInner}
    (stepped : HandleStep rt t handle inner rt') (found : rt.session? handle = some inner) :
    Shrinks rt rt' := by
  obtain ⟨inner', same, objects, -⟩ := stepped.objects
  refine .of_update found same objects fun id h isSome => ?_
  rcases stepped.registry with kept | ⟨-, -, removed⟩
  · rw [← kept]
    exact isSome
  · rw [removed, Runtime.registered?_remove] at isSome
    split at isSome
    · cases isSome
    · exact isSome

/-- What the other calls act on is not what a close removes. -/
theorem HandleStep.keeps {rt rt' : Runtime} {t : Thread} {handle : Handle} {inner : SessionInner}
    (stepped : HandleStep rt t handle inner rt') (sound : Sound rt)
    (found : rt.session? handle = some inner) {h : Handle}
    (away : rt.calls t = .close handle .removing → h ≠ handle) (id : ConceptId)
    (isRegistered : rt.registered? id = some h) : rt'.registered? id = some h := by
  rcases stepped.registry with kept | ⟨isRemoving, -, removed⟩
  · rw [kept]
    exact isRegistered
  · rw [removed, Runtime.registered?_remove, if_neg, isRegistered]
    rintro rfl
    obtain ⟨inner', found', isOwn⟩ := sound.acting t handle (by rw [isRemoving]; rfl)
    cases found.symm.trans found'
    exact away isRemoving (Option.some.inj (isRegistered.symm.trans isOwn))

theorem Sound.handleStep {rt rt' : Runtime} {t : Thread} {handle : Handle} {inner : SessionInner}
    (sound : Sound rt) (found : rt.session? handle = some inner)
    (stepped : HandleStep rt t handle inner rt') : Sound rt' := by
  have shrinks := stepped.shrinks found
  obtain ⟨inner', -, objects, retired⟩ := stepped.objects
  have limbo : ∀ u h, (rt.calls u).limbo = some h → (rt'.calls u).limbo = some h := by
    intro u h isLimbo
    by_cases self : u = t
    · rw [self, (Call.plain_of_not_lifecycle stepped.before).2.1] at isLimbo
      cases isLimbo
    · rw [stepped.calls u self]
      exact isLimbo
  refine ⟨shrinks.listed sound, ?_, ?_, ?_, ?_, ?_, ?_, ?_, shrinks.spelled sound⟩
  · intro h after isSome unclosed
    obtain ⟨before, found', same⟩ := shrinks.sessions h after isSome
    have unclosed' := same.unclosed unclosed
    rw [same.note_id]
    rcases sound.unclosed h before found' unclosed' with isOwn | ⟨isNone, u, isLimbo⟩
    · left
      refine stepped.keeps sound found ?_ _ isOwn
      -- the session that is removed is closed
      rintro isRemoving rfl
      obtain ⟨closed, isSession, isClosed⟩ := (sound.removing t h isRemoving).1
      cases isSession.symm.trans found'
      rw [isClosed] at unclosed'
      cases unclosed'
    · exact .inr ⟨shrinks.free isNone, u, limbo u h isLimbo⟩
  · intro u h isActing
    by_cases self : u = t
    · rw [self] at isActing
      obtain ⟨rfl, before⟩ := stepped.acting h isActing
      have stands : rt.Stands h := before.elim (sound.acting t h) And.right
      refine shrinks.stands stands ?_
      rcases stepped.registry with kept | ⟨-, isIdle, -⟩
      · intro id isRegistered
        rw [kept]
        exact isRegistered
      · rw [isIdle] at isActing
        cases isActing
    · rw [stepped.calls u self] at isActing
      refine shrinks.stands (sound.acting u h isActing) (stepped.keeps sound found ?_)
      rintro isRemoving rfl
      exact (sound.removing t h isRemoving).2 u self isActing
  · intro u v h isSettling isSettling'
    have before : ∀ w, w ≠ t → (rt'.calls w).settling = some h → (rt.calls w).settling = some h := by
      intro w other isSettling
      rwa [stepped.calls w other] at isSettling
    by_cases self : u = t
    · by_cases self' : v = t
      · rw [self, self']
      · rw [self] at isSettling ⊢
        obtain ⟨rfl, earlier | none_⟩ := stepped.settling h isSettling
        · exact sound.settling t v h earlier (before v self' isSettling')
        · exact absurd (before v self' isSettling') (none_ v)
    · by_cases self' : v = t
      · rw [self'] at isSettling' ⊢
        obtain ⟨rfl, earlier | none_⟩ := stepped.settling h isSettling'
        · exact sound.settling u t h (before u self isSettling) earlier
        · exact absurd (before u self isSettling) (none_ u)
      · exact sound.settling u v h (before u self isSettling) (before v self' isSettling')
  · intro u h isRemoving
    by_cases self : u = t
    · rw [self] at isRemoving ⊢
      obtain ⟨rfl, others⟩ := stepped.removing h isRemoving
      refine ⟨⟨inner', by rw [objects, if_pos rfl], retired isRemoving⟩, fun v other => ?_⟩
      rw [stepped.calls v other]
      exact others v other
    · rw [stepped.calls u self] at isRemoving
      obtain ⟨closed, others⟩ := sound.removing u h isRemoving
      refine ⟨shrinks.retired closed, fun v other isActing => ?_⟩
      by_cases self' : v = t
      · rw [self'] at isActing other
        obtain ⟨rfl, earlier | ⟨unclosed, -⟩⟩ := stepped.acting h isActing
        · exact others t other earlier
        · obtain ⟨closed, isSession, isClosed⟩ := closed
          cases isSession.symm.trans found
          rw [isClosed] at unclosed
          cases unclosed
      · rw [stepped.calls v self'] at isActing
        exact others v other isActing
  · intro u isLifecycle
    by_cases self : u = t
    · rw [self, stepped.call] at isLifecycle
      cases isLifecycle
    · rw [stepped.calls u self] at isLifecycle
      rw [stepped.lock]
      exact sound.alone u isLifecycle
  · intro u id mem
    by_cases self : u = t
    · rw [self, (Call.plain_of_not_lifecycle stepped.call).1] at mem
      cases mem
    · rw [stepped.calls u self] at mem
      exact shrinks.free (sound.reserved u id mem)
  · intro u id path isPending
    by_cases self : u = t
    · rw [self, (Call.plain_of_not_lifecycle stepped.call).2.2] at isPending
      cases isPending
    · rw [stepped.calls u self] at isPending ⊢
      exact sound.pending u id path isPending

/-! ## Steps on a handle -/

section OnHandle

variable {rt : Runtime} {t : Thread} {handle : Handle} {inner : SessionInner} {now : Int}
  {fault : Option AppError}

namespace Runtime

theorem session?_setState {inner' : SessionInner} (found : rt.session? handle = some inner)
    (h : Handle) :
    (rt.setState handle inner').session? h = if h = handle then some inner' else rt.session? h := by
  unfold session? setState
  rw [List.getElem?_set]
  by_cases own : handle = h
  · rw [if_pos own, if_pos own.symm, if_pos (session?_lt found)]
  · rw [if_neg own, if_neg fun same => own same.symm]

end Runtime

/-- A step that leaves the registry and only changes the state of its session. -/
structure StateStep (rt : Runtime) (handle : Handle) (inner : SessionInner) (rt' : Runtime) :
    Prop where
  objects : ∃ inner', SameSession inner inner' ∧
    ∀ h, rt'.session? h = if h = handle then some inner' else rt.session? h
  registry : rt'.registry = rt.registry
  calls : rt'.calls = rt.calls
  lock : rt'.lifecycle_lock = rt.lifecycle_lock

theorem StateStep.of_data (found : rt.session? handle = some inner) (bundle : Bundle) (db : Database) :
    StateStep rt handle inner { rt with bundle, db } := by
  refine ⟨⟨inner, .refl inner, fun h => ?_⟩, rfl, rfl, rfl⟩
  split
  · rename_i own
    rw [own]
    exact found
  · rfl

theorem StateStep.of_setState {inner' : SessionInner} (found : rt.session? handle = some inner)
    (same : SameSession inner inner') : StateStep rt handle inner (rt.setState handle inner') :=
  ⟨⟨inner', same, Runtime.session?_setState found⟩, rfl, rfl, rfl⟩

theorem StateStep.recordError {rt' : Runtime} {error : AppError}
    (stepped : StateStep rt handle inner rt') :
    StateStep rt handle inner (rt'.recordError handle error) := by
  obtain ⟨inner', same, objects⟩ := stepped.objects
  have found : rt'.session? handle = some inner' := by rw [objects, if_pos rfl]
  unfold Runtime.recordError
  rw [found]
  refine ⟨⟨{ inner' with state := { inner'.state with last_error := some error } }, ?_, fun h => ?_⟩,
    stepped.registry, stepped.calls, stepped.lock⟩
  · exact ⟨same.note_id, same.absolute_path, same.closed⟩
  · dsimp only
    rw [Runtime.session?_setState found, objects]
    split <;> rfl

/-- How a call on a session follows another, or none: it acts on a session that is open where
the last did not act, and the close or the reload is the only one. -/
structure Follows (rt : Runtime) (t : Thread) (handle : Handle) (inner : SessionInner) (call : Call) :
    Prop where
  holds : ∀ h, call.handle? = some h → h = handle
  plain : call.isLifecycle = false
  acting : call.acting = some handle →
    (rt.calls t).acting = some handle ∨ inner.closed = false ∧ rt.Stands handle
  settling : call.settling = some handle →
    (rt.calls t).settling = some handle ∨ ∀ u, (rt.calls u).settling ≠ some handle

theorem Call.handle?_of_settling {call : Call} (isSettling : call.settling = some handle) :
    call.handle? = some handle := by
  cases call with
  | close h stage => exact isSettling
  | reload h conflicted stage => exact isSettling
  | _ => cases isSettling

theorem Follows.idle : Follows rt t handle inner .idle :=
  ⟨by rintro h ⟨⟩, rfl, by rintro ⟨⟩, by rintro ⟨⟩⟩

/-- The stages of a close or of a reload follow each other. -/
theorem Follows.of_settling {call : Call} (before : (rt.calls t).settling = some handle)
    (acting : (rt.calls t).acting = some handle) (holds : call.handle? = some handle)
    (plain : call.isLifecycle = false) : Follows rt t handle inner call :=
  ⟨fun _ isHandle => Option.some.inj (isHandle.symm.trans holds), plain, fun _ => .inl acting,
    fun _ => .inl before⟩

/-- The step goes on to a call that follows the last one. -/
theorem StateStep.handleStep {rt' : Runtime} {call : Call}
    (stepped : StateStep rt handle inner rt') (before : (rt.calls t).isLifecycle = false)
    (follows : Follows rt t handle inner call) (removing : ∀ h, call ≠ .close h .removing) :
    HandleStep rt t handle inner (rt'.setCall t call) := by
  obtain ⟨inner', same, objects⟩ := stepped.objects
  have isCall : (rt'.setCall t call).calls t = call := Function.update_self _ _ _
  refine ⟨⟨inner', same, objects, fun isRemoving => ?_⟩, .inl fun id => ?_, fun u other => ?_, ?_,
    before, ?_, ?_, ?_, stepped.lock⟩
  · exact absurd (isCall.symm.trans isRemoving) (removing handle)
  · unfold Runtime.registered?
    exact congrArg (fun registry => (Table.find? registry id).map Registered.handle) stepped.registry
  · refine (Function.update_of_ne other _ _).trans ?_
    rw [stepped.calls]
  · rw [isCall, follows.plain]
  · intro h isActing
    rw [isCall] at isActing
    obtain rfl := follows.holds h (Call.handle?_of_acting isActing)
    exact ⟨rfl, follows.acting isActing⟩
  · intro h isSettling
    rw [isCall] at isSettling
    obtain rfl := follows.holds h (Call.handle?_of_settling isSettling)
    exact ⟨rfl, follows.settling isSettling⟩
  · intro h isRemoving
    exact absurd (isCall.symm.trans isRemoving) (removing h)

theorem flushStage_stateStep {stage : FlushStage} (found : rt.session? handle = some inner) :
    StateStep rt handle inner
      (rt.flushStage host workspace_id handle inner now fault stage).1 := by
  have still : StateStep rt handle inner rt := .of_data found rt.bundle rt.db
  cases stage with
  | checking =>
    unfold Runtime.flushStage
    dsimp only
    split <;> exact still
  | comparing snapshot =>
    unfold Runtime.flushStage
    dsimp only
    split
    · exact still
    · split <;> exact still
  | publishing snapshot on_disk =>
    cases fault with
    | some error => exact still
    | none => exact .of_data found _ _
  | recording snapshot => exact .of_setState found ⟨rfl, rfl, id⟩
  | clearing snapshot =>
    cases fault with
    | some error => exact still
    | none => exact .of_data found _ _
  | indexing snapshot =>
    cases fault with
    | some error => exact still
    | none =>
      unfold Runtime.flushStage
      dsimp only
      split
      · exact still
      · exact .of_data found _ _
  | settling snapshot => exact .of_setState found ⟨rfl, rfl, id⟩

/-- A flush that goes on past its check has found the session open. -/
theorem flushStage_acts {stage next : FlushStage}
    (goesOn : (rt.flushStage host workspace_id handle inner now fault stage).2 = .inl next) :
    stage ≠ .checking ∨ inner.closed = false := by
  cases stage with
  | checking =>
    right
    unfold Runtime.flushStage at goesOn
    dsimp only at goesOn
    split at goesOn
    · cases goesOn
    · rename_i unclosed
      simpa using unclosed
  | _ => exact .inl (by simp)

theorem advanceFlush_handleStep {stage : FlushStage} (sound : Sound rt)
    (isCall : rt.calls t = .flush handle stage) (found : rt.session? handle = some inner)
    (free : stage = .checking → ∀ u, (rt.calls u).limbo ≠ some handle) :
    HandleStep rt t handle inner (rt.advanceFlush host workspace_id t handle inner now fault stage) := by
  have before : (rt.calls t).isLifecycle = false := by
    rw [isCall]
    rfl
  have stepped := @flushStage_stateStep host workspace_id rt handle inner now fault stage found
  have acts := @flushStage_acts host workspace_id rt handle inner now fault stage
  unfold Runtime.advanceFlush
  generalize rt.flushStage host workspace_id handle inner now fault stage = outcome at stepped acts
  obtain ⟨rt', next | result⟩ := outcome
  · refine stepped.handleStep before ⟨?_, rfl, fun _ => ?_, by rintro ⟨⟩⟩ (by simp)
    · rintro h ⟨⟩
      rfl
    · by_cases checks : stage = .checking
      · have unclosed := (acts rfl).resolve_left fun later => later checks
        exact .inr ⟨unclosed, sound.stands_of_unclosed found unclosed (free checks)⟩
      · left
        rw [isCall]
        cases stage <;> first | exact absurd rfl checks | rfl
  · cases result with
    | ok seq => exact stepped.handleStep before .idle (by simp)
    | error error => exact stepped.recordError.handleStep before .idle (by simp)

theorem advanceClose_handleStep {stage : CloseStage}
    (isCall : rt.calls t = .close handle stage) (found : rt.session? handle = some inner)
    (alone : ∀ file_vanished, stage = .retiring file_vanished →
      ∀ u, u ≠ t → (rt.calls u).acting ≠ some handle) :
    HandleStep rt t handle inner (rt.advanceClose host workspace_id t handle inner now fault stage) := by
  have before : (rt.calls t).isLifecycle = false := by
    rw [isCall]
    rfl
  have follows {next : CloseStage} : Follows rt t handle inner (.close handle next) :=
    .of_settling (by rw [isCall]; rfl) (by rw [isCall]; rfl) rfl rfl
  cases stage with
  | flushing stage =>
    have stepped := @flushStage_stateStep host workspace_id rt handle inner now fault stage found
    unfold Runtime.advanceClose
    dsimp only
    generalize rt.flushStage host workspace_id handle inner now fault stage = outcome at stepped
    obtain ⟨rt', next | result⟩ := outcome
    · exact stepped.handleStep before follows (by simp)
    · cases result with
      | ok seq => exact stepped.handleStep before follows (by simp)
      | error error =>
        cases error with
        | notFound message => exact stepped.recordError.handleStep before follows (by simp)
        | _ => exact stepped.recordError.handleStep before .idle (by simp)
  | clearing seq => exact (StateStep.of_data found _ _).handleStep before follows (by simp)
  | retiring file_vanished =>
    have isCall' : ((rt.setState handle ⟨{ inner.state with
        session_edited := false, unwritten := file_vanished }, true⟩).setCall t
          (.close handle .removing)).calls t = .close handle .removing := Function.update_self _ _ _
    refine ⟨⟨⟨{ inner.state with session_edited := false, unwritten := file_vanished }, true⟩,
      ⟨rfl, rfl, fun _ => rfl⟩, Runtime.session?_setState found, fun _ => rfl⟩, .inl fun _ => rfl,
      fun u other => Function.update_of_ne other _ _, ?_, before, ?_, ?_, ?_, rfl⟩
    · exact (congrArg Call.isLifecycle isCall').trans rfl
    · intro h isActing
      cases (congrArg Call.acting isCall').symm.trans isActing
      refine ⟨rfl, .inl ?_⟩
      rw [isCall]
      rfl
    · intro h isSettling
      cases (congrArg Call.settling isCall').symm.trans isSettling
      refine ⟨rfl, .inl ?_⟩
      rw [isCall]
      rfl
    · intro h isRemoving
      cases isCall'.symm.trans isRemoving
      exact ⟨rfl, alone file_vanished rfl⟩
  | removing =>
    have isIdle : ((rt.remove inner.state.note_id).setCall t .idle).calls t = .idle :=
      Function.update_self _ _ _
    refine ⟨⟨inner, .refl inner, fun h => ?_, fun isRemoving => ?_⟩, .inr ⟨isCall, isIdle, fun _ => rfl⟩,
      fun u other => Function.update_of_ne other _ _, ?_, before, ?_, ?_, ?_, rfl⟩
    · split
      · rename_i isHandle
        rw [isHandle]
        exact found
      · rfl
    · cases isIdle.symm.trans isRemoving
    · exact (congrArg Call.isLifecycle isIdle).trans rfl
    · intro h isActing
      cases (congrArg Call.acting isIdle).symm.trans isActing
    · intro h isSettling
      cases (congrArg Call.settling isIdle).symm.trans isSettling
    · intro h isRemoving
      cases isIdle.symm.trans isRemoving

theorem advanceReload_handleStep {conflicted : Bool} {stage : ReloadStage}
    (isCall : rt.calls t = .reload handle conflicted stage)
    (found : rt.session? handle = some inner) :
    HandleStep rt t handle inner
      (rt.advanceReload host workspace_id t handle inner fault conflicted stage) := by
  have before : (rt.calls t).isLifecycle = false := by
    rw [isCall]
    rfl
  have still : StateStep rt handle inner rt := .of_data found rt.bundle rt.db
  have ends : HandleStep rt t handle inner (rt.setCall t .idle) :=
    still.handleStep before .idle (by simp)
  have follows {next : ReloadStage} : Follows rt t handle inner (.reload handle conflicted next) :=
    .of_settling (by rw [isCall]; rfl) (by rw [isCall]; rfl) rfl rfl
  cases stage with
  | reading =>
    unfold Runtime.advanceReload
    dsimp only
    split
    · split
      · exact still.handleStep before follows (by simp)
      · exact ends
    · exact ends
  | clearing source revision =>
    unfold Runtime.advanceReload
    dsimp only
    split
    · exact ends
    · exact (StateStep.of_data found rt.bundle _).handleStep before follows (by simp)
  | installing source revision =>
    refine (StateStep.of_setState found ?_).handleStep before .idle (by simp)
    exact ⟨rfl, rfl, id⟩

theorem advanceEdit_handleStep {previous written : NoteSession}
    (isCall : rt.calls t = .edit handle previous written)
    (found : rt.session? handle = some inner) :
    HandleStep rt t handle inner
      (rt.advanceEdit workspace_id t handle inner now fault previous written) := by
  have before : (rt.calls t).isLifecycle = false := by
    rw [isCall]
    rfl
  unfold Runtime.advanceEdit
  split
  · split
    · exact (StateStep.of_data found rt.bundle rt.db).handleStep before .idle (by simp)
    · refine (StateStep.of_setState found ?_).handleStep before .idle (by simp)
      exact ⟨rfl, rfl, id⟩
  · exact (StateStep.of_data found rt.bundle _).handleStep before .idle (by simp)

end OnHandle

end Burlmd.Lifecycle
