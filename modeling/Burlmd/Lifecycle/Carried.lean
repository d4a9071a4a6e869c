import Burlmd.Lifecycle.DraftsKept
import Burlmd.Lifecycle.SessionSpecs

/-!
# How an operation carries the sessions

The Notes that a plan affects keep apart, so each session that is there afterwards is the
one of a single Note from before, on the revision that the plan gave it.
-/

namespace Burlmd.Lifecycle

open Workspace
open Utf8 (Text)
open Okf (ConceptId conceptIdToPath)
open Index (WorkspaceId Database)
open Checked

variable {host : Host} {workspace_id : WorkspaceId} {core : Core} {affected : List Affected}
  {now : Int}

/-! ## One Note after the other -/

/-- No Note is carried onto another one that is open. -/
structure SessionsApart (core : Core) (affected : List Affected) : Prop where
  distinct : (affected.map Affected.old_id).Nodup
  vacant : ∀ a ∈ affected, a.old_id ≠ a.new_id → core.sessions.find? a.new_id = none
  injective : ∀ a ∈ affected, ∀ b ∈ affected, a.old_id ≠ a.new_id → b.old_id ≠ b.new_id →
    a.new_id = b.new_id → a.old_id = b.old_id
  settled : ∀ a ∈ affected, a.old_id ≠ a.new_id → ∀ b ∈ affected, b.old_id = a.new_id →
    b.new_id = b.old_id

/-- A session of the Note after it was carried. -/
structure CarriedTo (session after : NoteSession) (id : ConceptId) (revision : Text) : Prop where
  located : normalComponents (conceptIdToPath session.note_id) = some session.absolute_path →
    normalComponents (conceptIdToPath id) = some after.absolute_path
  note_id : after.note_id = id
  restored : after.restored_from_draft = session.restored_from_draft
  awaiting : after.awaiting_recreate = session.awaiting_recreate
  revision : after.revision = revision

theorem CarriedTo.rewritten {session after : NoteSession} {id : ConceptId} {revision : Text}
    (carried : CarriedTo session after id revision) (new_source : Option Text) (new_revision : Text) :
    CarriedTo session (installRewrite after new_source new_revision) id new_revision := by
  cases new_source with
  | none => exact ⟨carried.located, carried.note_id, carried.restored, carried.awaiting, rfl⟩
  | some source => exact ⟨carried.located, carried.note_id, carried.restored, carried.awaiting, rfl⟩

/-- One Note is carried: nothing happens, or its session is the only one that changes. -/
theorem carrySessionForward_spec (core : Core) (a : Affected) :
    (core.sessions.find? a.old_id = none ∧
        carrySessionForward host core a.old_id a.new_id a.new_buffer a.revision = core) ∨
      (a.old_id ≠ a.new_id ∧
        carrySessionForward host core a.old_id a.new_id a.new_buffer a.revision = core) ∨
      ∃ session after, core.sessions.find? a.old_id = some session ∧
        CarriedTo session after a.new_id a.revision ∧
        ∀ id, (carrySessionForward host core a.old_id a.new_id a.new_buffer
            a.revision).sessions.find? id =
          if id = a.new_id then some after else if id = a.old_id then none
            else core.sessions.find? id := by
  unfold carrySessionForward
  cases found : core.sessions.find? a.old_id with
  | none => exact .inl ⟨rfl, rfl⟩
  | some session =>
    right
    have own := note_id_of_find? found
    dsimp only
    by_cases stays : a.old_id = a.new_id
    · right
      rw [if_pos stays]
      have self : CarriedTo session session a.new_id session.revision :=
        ⟨fun located => by rw [← stays, ← own]; exact located, own.trans stays, rfl, rfl, rfl⟩
      have carried := self.rewritten a.new_buffer a.revision
      refine ⟨session, _, rfl, carried, fun id => ?_⟩
      refine Table.find?_put.trans ?_
      rw [carried.note_id]
      by_cases same : a.new_id = id
      · rw [if_pos same, if_pos same.symm]
      · rw [if_neg same, if_neg fun h => same h.symm, if_neg fun h => same (stays.symm.trans h.symm)]
    · rw [if_neg stays]
      cases located : notePath host core.bundle a.new_id with
      | error error => exact .inl ⟨stays, rfl⟩
      | ok path =>
        let after : NoteSession := { session with
          note_id := a.new_id, absolute_path := path, source := a.new_buffer.getD session.source
          revision := a.revision, conflicted := false }
        refine .inr ⟨session, after, rfl, ⟨fun _ => ?_, rfl, rfl, rfl, rfl⟩, fun id => ?_⟩
        · exact normalComponents_of_notePath located
        · refine Table.find?_put.trans ?_
          by_cases same : a.new_id = id
          · rw [if_pos same, if_pos same.symm]
          · rw [if_neg same, if_neg fun h => same h.symm, find?_discardSession]

/-- Where the session at an id comes from. The last Note that ends there decides on the
revision. -/
inductive Origin (core : Core) (affected : List Affected) (id : ConceptId) (after : NoteSession) : Prop
  | carried (a : Affected) (mem : a ∈ affected) (session : NoteSession)
      (isOpen : core.sessions.find? a.old_id = some session) (ends : a.new_id = id) (last : Affected)
      (isLast : (affected.filter fun a => a.new_id = id).getLast? = some last)
      (carried : CarriedTo session after id last.revision)
  | kept (here : core.sessions.find? id = some after)
      (left : ∀ a ∈ affected, a.new_id = id → a.old_id ≠ id)

theorem carrySessions_find? (apart : SessionsApart core affected) {id : ConceptId}
    {after : NoteSession}
    (found : (carrySessions host core affected).sessions.find? id = some after) :
    Origin core affected id after := by
  induction affected using List.reverseRecOn generalizing id after with
  | nil => exact .kept found (by simp)
  | append_singleton rest b ih =>
    have inside : ∀ a ∈ rest, a ∈ rest ++ [b] := fun a mem => List.mem_append_left _ mem
    have b_mem : b ∈ rest ++ [b] := List.mem_append_right _ List.mem_cons_self
    have fresh : ∀ a ∈ rest, a.old_id ≠ b.old_id := by
      have distinct := apart.distinct
      rw [List.map_append, List.map_singleton, List.nodup_append] at distinct
      exact fun a mem => distinct.2.2 _ (List.mem_map_of_mem mem) _ List.mem_cons_self
    have before : SessionsApart core rest :=
      { distinct := by
          have distinct := apart.distinct
          rw [List.map_append, List.nodup_append] at distinct
          exact distinct.1
        vacant := fun a mem => apart.vacant a (inside a mem)
        injective := fun a mem c mem' => apart.injective a (inside a mem) c (inside c mem')
        settled := fun a mem moves c mem' => apart.settled a (inside a mem) moves c (inside c mem') }
    have step : carrySessions host core (rest ++ [b]) =
        carrySessionForward host (carrySessions host core rest) b.old_id b.new_id b.new_buffer
          b.revision := by
      unfold carrySessions
      rw [List.foldl_append]
      rfl
    have filtered : (rest ++ [b]).filter (fun a => a.new_id = id) =
        rest.filter (fun a => a.new_id = id) ++ if b.new_id = id then [b] else [] := by
      rw [List.filter_append]
      by_cases same : b.new_id = id <;> simp [same]
    -- an open Note that was carried here leaves no room for another one that moves here
    have alone : ∀ a ∈ rest, ∀ session, core.sessions.find? a.old_id = some session →
        a.new_id = id → b.old_id ≠ b.new_id → b.new_id ≠ id := by
      intro a mem session isOpen here moves same
      by_cases stays : a.old_id = a.new_id
      · have taken := apart.vacant b b_mem moves
        rw [same, ← here, ← stays, isOpen] at taken
        cases taken
      · exact fresh a mem (apart.injective a (inside a mem) b b_mem stays moves (here.trans same.symm))
    have unmoved : (carrySessions host core rest).sessions.find? id = some after →
        (b.new_id = id → b.old_id ≠ id) → Origin core (rest ++ [b]) id after := by
      intro found leaves
      rcases ih before found with ⟨a, mem, session, isOpen, here, last, isLast, carried⟩ | ⟨kept, left⟩
      · have other : b.new_id ≠ id := by
          intro same
          exact alone a mem session isOpen here (fun stays => leaves same (stays.trans same)) same
        refine .carried a (inside a mem) session isOpen here last ?_ carried
        rw [filtered, if_neg other, List.append_nil, isLast]
      · refine .kept kept fun a mem here => ?_
        rcases List.mem_append.mp mem with mem | mem
        · exact left a mem here
        · cases List.mem_singleton.mp mem
          exact leaves here
    rw [step] at found
    rcases @carrySessionForward_spec host (carrySessions host core rest) b with
      ⟨isNone, same⟩ | ⟨moves, same⟩ | ⟨session', after', isOpen', carried', finds⟩
    · rw [same] at found
      refine unmoved found fun here stays => ?_
      rw [stays, found] at isNone
      cases isNone
    · rw [same] at found
      exact unmoved found fun here stays => moves (stays.trans here.symm)
    · rw [finds] at found
      split at found
      · rename_i here
        cases found
        have isLast : ((rest ++ [b]).filter fun a => a.new_id = id).getLast? = some b := by
          rw [filtered, if_pos here.symm, List.getLast?_concat]
        rcases ih before isOpen' with ⟨a, mem, session, isOpen, ends, last, -, carried⟩ | ⟨kept, -⟩
        · -- another Note was carried to where this one starts, so this one stays
          have stays : b.new_id = b.old_id := by
            by_contra moves
            by_cases still : a.old_id = a.new_id
            · exact fresh a mem (still.trans ends)
            · exact moves (apart.settled a (inside a mem) still b b_mem ends.symm)
          refine .carried a (inside a mem) session isOpen ((ends.trans stays.symm).trans here.symm) b
            isLast ?_
          rw [here]
          refine ⟨fun located => ?_, carried'.note_id, carried'.restored.trans carried.restored,
            carried'.awaiting.trans carried.awaiting, carried'.revision⟩
          apply carried'.located
          rw [carried.note_id]
          exact carried.located located
        · refine .carried b b_mem session' kept here.symm b isLast ?_
          rw [here]
          exact carried'
      · rename_i other
        split at found
        · cases found
        · exact unmoved found fun here => absurd here.symm other

/-! ## The operations -/

variable {core' : Core} {faults : LifecycleFaults}

/-- The destinations of a plan hold no session. -/
def Reidentify.Vacates (plan : Reidentify) (core : Core) : Prop :=
  ∀ id new_id, plan.remap.lookup id = some new_id → new_id ≠ id → core.sessions.find? new_id = none

theorem Reidentify.Free.sessionsApart {plan : Reidentify} (free : plan.Free workspace_id core)
    (vacates : plan.Vacates core) (plans : Plans host workspace_id plan core affected) :
    SessionsApart core affected := by
  have apart := free.apart plans
  refine ⟨apart.distinct, fun a mem moves => ?_, apart.injective, fun a mem moves b mem' here => ?_⟩
  · obtain ⟨disk, affects⟩ := (plans.affects a mem).2
    exact vacates _ _ (lookup_of_moves affects.new_id moves) (Ne.symm moves)
  · exact (apart.settled a mem moves b mem' here).1

theorem vacates_of_single {note_id new_id : ConceptId} {new_path : Path} {held : HeldBy}
    {plan : Reidentify} (isRemap : plan.remap = singleRemap note_id new_id)
    (isHeld : held.id = note_id)
    (available : ensurePathAvailable workspace_id core new_id new_path (some held) = .ok ()) :
    plan.Vacates core := by
  intro id target found moves
  rw [isRemap, lookup_singleRemap] at found
  split at found
  · rename_i own
    cases found
    rcases (ensurePathAvailable_eq_ok available).2.2.2 with closed | named
    · exact closed
    · have same : held.id = new_id := by simpa using named
      exact absurd (same.symm.trans isHeld) own.2
  · cases found

theorem DirectoryPlan.vacates {path new_name directory : Text} {plan : Reidentify}
    (planned : DirectoryPlan host workspace_id core path new_name directory plan) :
    plan.Vacates core := fun _ _ found moves =>
  (ensureDestinations_eq_ok planned.free _ (mem_of_lookup found) moves).2
    (planned.free'.settled _ _ found moves)

theorem applyReidentify_planned {plan : Reidentify} {effects : LifecycleEffects}
    (planned : plan.planAffected host workspace_id core = .ok affected)
    (applied : applyReidentify host workspace_id core plan now faults = .ok (effects, core')) :
    ∃ db, core' = carrySessions host
      { core with bundle := writeFiles core.bundle plan affected now, db } affected := by
  unfold applyReidentify at applied
  obtain ⟨affected', planned', applied⟩ := bind_eq_ok.mp applied
  obtain ⟨-, -, applied⟩ := bind_eq_ok.mp applied
  obtain ⟨indexed, -, applied⟩ := bind_eq_ok.mp applied
  obtain ⟨-, -, applied⟩ := bind_eq_ok.mp applied
  rw [planned] at planned'
  cases planned'
  split at applied
  · cases applied
  · cases applied
    exact ⟨_, rfl⟩

/-- An operation that carries out a plan: the Core that the plan was made on, and what
becomes of its sessions. -/
structure CarriesOut (host : Host) (workspace_id : WorkspaceId) (core : Core) (plan : Reidentify)
    (affected : List Affected) (core' : Core) : Prop where
  planned_on : ∃ planned : Core, planned.db = core.db ∧ planned.sessions = core.sessions ∧
    planned.bundle.files = core.bundle.files ∧ plan.Free workspace_id planned ∧
    plan.Vacates planned ∧ Plans host workspace_id plan planned affected
  carries : ∃ bundle db, core' = carrySessions host ⟨bundle, db, core.sessions⟩ affected

theorem carriesOut_of_applied {planned : Core} {plan : Reidentify} {effects : LifecycleEffects}
    (sameDb : planned.db = core.db) (sameSessions : planned.sessions = core.sessions)
    (sameFiles : planned.bundle.files = core.bundle.files) (free : plan.Free workspace_id planned)
    (vacates : plan.Vacates planned)
    (isAffected : plan.planAffected host workspace_id planned = .ok affected)
    (applied : applyReidentify host workspace_id planned plan now faults = .ok (effects, core')) :
    CarriesOut host workspace_id core plan affected core' where
  planned_on := ⟨planned, sameDb, sameSessions, sameFiles, free, vacates, planAffected_spec isAffected⟩
  carries := by
    obtain ⟨db, isCore⟩ := applyReidentify_planned isAffected applied
    rw [sameSessions] at isCore
    exact ⟨_, db, isCore⟩

/-- The Core after a plan for one Note is the one that the plan leads to. -/
theorem reidentifyNote_core {new_id : ConceptId} {plan : Reidentify} {effects : LifecycleEffects}
    {planned : Except AppError (ConceptId × Reidentify)} (isPlanned : planned = .ok (new_id, plan))
    (applied : applyReidentify host workspace_id core plan now faults = .ok (effects, core')) :
    (reidentifyNote host workspace_id core now faults planned).1 = core' := by
  unfold reidentifyNote
  rw [isPlanned]
  simp only [applied]
  rfl

/-- Where the plan of an operation comes from. -/
inductive Planned (host : Host) (workspace_id : WorkspaceId) (core : Core) (plan : Reidentify) :
    Operation → Core → Prop
  | rename (note_id new_title new_id : Text)
      (isPlan : planRename host workspace_id core note_id new_title = .ok (new_id, plan)) :
      Planned host workspace_id core plan (.renameNote note_id new_title) core
  | move (note_id new_directory_path new_id : Text) (old_path : Path) (directory : Text) (bundle : Bundle)
      (located : locateMove host workspace_id core note_id new_directory_path = .ok (old_path, directory, bundle))
      (isPlan : planMove host workspace_id { core with bundle } note_id directory old_path = .ok (new_id, plan)) :
      Planned host workspace_id core plan (.moveNote note_id new_directory_path) { core with bundle }
  | directory (path new_name directory : Text)
      (isPlan : planDirectoryRename host workspace_id core path new_name = .ok (some plan))
      (made : DirectoryPlan host workspace_id core path new_name directory plan) :
      Planned host workspace_id core plan (.renameDirectory path new_name) core

theorem planned_of_plan {op : Operation} {plan : Reidentify} {core' : Core}
    (planned : op.plan host workspace_id core = some (core', plan)) :
    Planned host workspace_id core plan op core' := by
  cases op with
  | createNote directory_path title => cases planned
  | createLinkTarget target_id => cases planned
  | createDirectory path => cases planned
  | deleteNote note_id => cases planned
  | deleteDirectory path => cases planned
  | renameNote note_id new_title =>
    obtain ⟨⟨new_id, plan'⟩, isPlan, same⟩ := Option.map_eq_some_iff.mp planned
    obtain ⟨rfl, rfl⟩ := Prod.mk.inj same
    exact .rename note_id new_title new_id (toOption_eq_some_iff.mp isPlan)
  | moveNote note_id new_directory_path =>
    unfold Operation.plan at planned
    dsimp only at planned
    cases located : locateMove host workspace_id core note_id new_directory_path with
    | error error =>
      rw [located] at planned
      cases planned
    | ok found =>
      obtain ⟨old_path, directory, bundle⟩ := found
      rw [located] at planned
      obtain ⟨⟨new_id, plan'⟩, isPlan, same⟩ := Option.map_eq_some_iff.mp planned
      obtain ⟨rfl, rfl⟩ := Prod.mk.inj same
      exact .move note_id new_directory_path new_id old_path directory bundle located
        (toOption_eq_some_iff.mp isPlan)
  | renameDirectory path new_name =>
    unfold Operation.plan at planned
    dsimp only at planned
    cases isPlan : planDirectoryRename host workspace_id core path new_name with
    | error error =>
      rw [isPlan] at planned
      cases planned
    | ok answer =>
      rw [isPlan] at planned
      obtain ⟨plan', isSome, same⟩ := Option.map_eq_some_iff.mp planned
      obtain ⟨rfl, rfl⟩ := Prod.mk.inj same
      obtain ⟨directory, -, ⟨isNone, -⟩ | ⟨other, isOther, made⟩⟩ := planDirectoryRename_spec isPlan
      · rw [isNone] at isSome
        cases isSome
      · rw [isOther] at isSome
        obtain rfl := Option.some.inj isSome
        exact .directory path new_name directory (isOther ▸ isPlan) made

theorem carriedOut_spec {op : Operation} {plan : Reidentify}
    (carried : op.carriedOut host workspace_id core now faults = some (plan, affected)) :
    CarriesOut host workspace_id core plan affected
      (op.perform host workspace_id core now faults).1 := by
  unfold Operation.carriedOut at carried
  obtain ⟨⟨planned, plan'⟩, isPlan, carried⟩ := Option.bind_eq_some_iff.mp carried
  obtain ⟨⟨effects, core'⟩, isApplied, carried⟩ := Option.bind_eq_some_iff.mp carried
  obtain ⟨affected', isAffected, carried⟩ := Option.bind_eq_some_iff.mp carried
  cases carried
  have applied := toOption_eq_some_iff.mp isApplied
  have isAffected := toOption_eq_some_iff.mp isAffected
  cases planned_of_plan isPlan with
  | rename note_id new_title new_id isPlanned =>
    obtain ⟨old_path, new_path, -, -, -, -, -, available, rfl⟩ := planRename_spec isPlanned
    have outcome := reidentifyNote_core isPlanned applied
    unfold Operation.perform renameNoteSerialized
    rw [outcome]
    exact carriesOut_of_applied rfl rfl rfl (free_of_single rfl rfl available)
      (vacates_of_single rfl rfl available) isAffected applied
  | move note_id new_directory_path new_id old_path directory bundle located isPlanned =>
    obtain ⟨new_path, -, -, available, rfl⟩ := planMove_spec isPlanned
    have outcome := reidentifyNote_core isPlanned applied
    unfold Operation.perform moveNoteSerialized
    simp only [located]
    rw [outcome]
    have sameFiles := (ensureDirectoryExists_spec (locateMove_spec located).2.2.2).1
    refine carriesOut_of_applied (show ({ core with bundle } : Core).db = core.db from rfl) rfl
      sameFiles ?_ ?_ isAffected applied
    · exact free_of_single rfl rfl available
    · exact vacates_of_single rfl rfl available
  | directory path new_name directory isPlanned made =>
    unfold Operation.perform renameDirectorySerialized
    simp only [isPlanned, applied]
    exact carriesOut_of_applied rfl rfl rfl made.free' made.vacates isAffected applied

theorem linkTargetIdentity_target {target_id : ConceptId} {identity : LinkTargetIdentity}
    (identified : linkTargetIdentity host target_id = .ok identity) :
    identity.target_id = target_id := by
  unfold linkTargetIdentity at identified
  dsimp only at identified
  split at identified
  · obtain ⟨directory_path, -, identified⟩ := bind_eq_ok.mp identified
    obtain ⟨-, -, identified⟩ := bind_eq_ok.mp identified
    split at identified
    · cases identified
      rfl
    · cases identified
  · obtain ⟨-, -, identified⟩ := bind_eq_ok.mp identified
    cases identified
    rfl

/-- What the other operations leave in the registry, and the ones that fail: sessions go, or
a session is opened, of a Note that was just created or of one that a Link names. -/
inductive LeavesRegistry (host : Host) (workspace_id : WorkspaceId) (op : Operation)
    (core core' : Core) : Prop
  | retires (retires : Retires core core')
  | opens (id : ConceptId) (session : NoteSession) (middle : Core)
      (sessions : middle.sessions = core.sessions) (drafts : middle.db.drafts = core.db.drafts)
      (isOpen : openNoteSerialized host workspace_id middle id = .ok (session, core'))
      (place : core.db.readDraft workspace_id id = none ∨
        (middle = core ∧ op = .createLinkTarget id))

theorem retires_of_sessions (same : core'.sessions = core.sessions) : Retires core core' := by
  intro id session found
  rw [← same]
  exact found

theorem openCreated_opens {op : Operation} {note_id : ConceptId} {session : NoteSession}
    {created : Core} (sessions : created.sessions = core.sessions)
    (drafts : created.db.drafts = core.db.drafts)
    (vacant : core.db.readDraft workspace_id note_id = none)
    (isOpen : openCreated host workspace_id created note_id faults = .ok (session, core')) :
    LeavesRegistry host workspace_id op core core' := by
  obtain ⟨-, -, isOpen⟩ := bind_eq_ok.mp isOpen
  exact .opens note_id session created sessions drafts isOpen (.inl vacant)

theorem vacant_of_available {new_id : ConceptId} {new_path : Path} {located : Core}
    (available : ensurePathAvailable workspace_id located new_id new_path none = .ok ())
    (sameDb : located.db = core.db) : core.db.readDraft workspace_id new_id = none := by
  rw [← sameDb]
  rcases (ensurePathAvailable_eq_ok available).2.2.1 with vacant | held
  · exact vacant
  · cases held

theorem publishNote_sessions {note_id : ConceptId} {path : Path} {title : Text}
    {record : Database → Option Database}
    (published : publishNote host workspace_id core note_id path title record now faults =
      .ok core') : core'.sessions = core.sessions := by
  obtain ⟨-, written, db, -, -, rfl⟩ := publishNote_spec published
  rfl

theorem createNote_registry {directory_path title : Text} :
    LeavesRegistry host workspace_id (.createNote directory_path title) core
      (createNoteSerialized host workspace_id core directory_path title now faults).1 := by
  unfold createNoteSerialized
  split
  · exact .retires (retires_of_sessions rfl)
  · rename_i directory bundle located
    dsimp only
    split
    · exact .retires (retires_of_sessions rfl)
    · rename_i new_path core' published
      unfold publishNewNote at published
      obtain ⟨path, -, published⟩ := bind_eq_ok.mp published
      obtain ⟨⟨⟩, available, published⟩ := bind_eq_ok.mp published
      obtain ⟨created, isCreated, published⟩ := bind_eq_ok.mp published
      obtain ⟨rfl, rfl⟩ : path = new_path ∧ created = core' := by
        cases published
        exact ⟨rfl, rfl⟩
      have sessions : created.sessions = core.sessions := (publishNote_sessions isCreated).trans rfl
      split
      · exact .retires (retires_of_sessions sessions)
      · rename_i session opened_ isOpen
        have drafts : created.db.drafts = core.db.drafts := by
          refine (publishNote_drafts (fun db db' recorded => ?_) isCreated).trans rfl
          obtain ⟨directories, rfl⟩ := Database.recordDirectories_spec recorded
          rfl
        exact openCreated_opens sessions drafts (vacant_of_available available rfl) isOpen

theorem createLinkTarget_registry {target_id : ConceptId} :
    LeavesRegistry host workspace_id (.createLinkTarget target_id) core
      (createLinkTarget host workspace_id core target_id now faults).1 := by
  unfold createLinkTarget
  split
  · exact .retires (retires_of_sessions rfl)
  · rename_i identity identified
    have own : identity.target_id = target_id := linkTargetIdentity_target identified
    unfold createLinkTargetSerialized
    dsimp only
    split
    · split
      · exact .retires (retires_of_sessions rfl)
      · rename_i session opened_ isOpen
        rw [own] at isOpen
        exact .opens target_id session core rfl rfl isOpen (.inr ⟨rfl, rfl⟩)
    · split
      · exact .retires (retires_of_sessions rfl)
      · split
        · exact .retires (retires_of_sessions rfl)
        · split
          · exact .retires (retires_of_sessions rfl)
          · rename_i created isPublished
            unfold publishLinkTarget at isPublished
            obtain ⟨⟨⟩, available, isPublished⟩ := bind_eq_ok.mp isPublished
            have sessions : created.sessions = core.sessions :=
              (publishNote_sessions isPublished).trans rfl
            split
            · apply LeavesRegistry.retires
              exact (retires_of_sessions sessions).trans retires_discardSession
            · rename_i session opened_ isOpen
              have drafts : created.db.drafts = core.db.drafts :=
                (publishNote_drafts
                  (fun _ _ recorded => congrArg Database.drafts (Option.some.inj recorded).symm)
                  isPublished).trans rfl
              exact openCreated_opens sessions drafts (vacant_of_available available rfl) isOpen

theorem createDirectory_registry {path : Text} :
    (createDirectorySerialized host workspace_id core path faults).1.sessions = core.sessions := by
  unfold createDirectorySerialized
  split
  · rfl
  · dsimp only
    split
    · rfl
    · split <;> rfl

theorem deleteNote_registry {note_id : ConceptId}
    (deleted : deleteNoteAt host workspace_id core note_id faults = .ok core') :
    Retires core core' := by
  unfold deleteNoteAt at deleted
  obtain ⟨path, -, deleted⟩ := bind_eq_ok.mp deleted
  dsimp only at deleted
  split at deleted
  · unfold deleteOrphanedDraft at deleted
    obtain ⟨-, -, deleted⟩ := bind_eq_ok.mp deleted
    split at deleted
    · cases deleted
      exact retires_discardSession
    · cases deleted
  · split at deleted
    · cases deleted
    · obtain ⟨-, -, deleted⟩ := bind_eq_ok.mp deleted
      obtain ⟨-, -, deleted⟩ := bind_eq_ok.mp deleted
      cases deleted
      exact retires_discardSession

theorem retires_discardSessions (ids : List ConceptId) (core : Core) :
    Retires core (ids.foldl discardSession core) := by
  induction ids generalizing core with
  | nil => exact retires_of_sessions rfl
  | cons id rest ih => exact retires_discardSession.trans (ih _)

theorem deleteDirectory_registry {path : Text} {removed : List ConceptId}
    (deleted : deleteDirectoryAt host workspace_id core path faults = .ok (removed, core')) :
    Retires core core' := by
  unfold deleteDirectoryAt at deleted
  obtain ⟨directory, -, deleted⟩ := bind_eq_ok.mp deleted
  split at deleted
  · cases deleted
  · obtain ⟨absolute, -, deleted⟩ := bind_eq_ok.mp deleted
    dsimp only at deleted
    split at deleted
    · cases deleted
    · split at deleted
      · cases deleted
      · obtain ⟨-, -, deleted⟩ := bind_eq_ok.mp deleted
        obtain ⟨-, -, deleted⟩ := bind_eq_ok.mp deleted
        cases deleted
        exact retires_discardSessions _ ⟨_, _, core.sessions⟩

/-- A plan for one Note that is not carried out leaves the registry. -/
theorem reidentifyNote_registry {planned : Except AppError (ConceptId × Reidentify)}
    (fails : ∀ new_id plan, planned = .ok (new_id, plan) →
      (applyReidentify host workspace_id core plan now faults).toOption = none) :
    (reidentifyNote host workspace_id core now faults planned).1.sessions = core.sessions := by
  unfold reidentifyNote
  split
  · rfl
  · rename_i new_id plan
    split
    · rfl
    · rename_i effects core' applied
      have failed := fails new_id plan rfl
      rw [applied] at failed
      cases failed

theorem applied_none_of_carriedOut {op : Operation} {planned : Core} {plan : Reidentify}
    (isPlan : op.plan host workspace_id core = some (planned, plan))
    (left : op.carriedOut host workspace_id core now faults = none) :
    (applyReidentify host workspace_id planned plan now faults).toOption = none := by
  cases applied : applyReidentify host workspace_id planned plan now faults with
  | error error => rfl
  | ok result =>
    unfold Operation.carriedOut at left
    have isAffected : ∃ affected, plan.planAffected host workspace_id planned = .ok affected := by
      unfold applyReidentify at applied
      obtain ⟨affected, isAffected, -⟩ := bind_eq_ok.mp applied
      exact ⟨affected, isAffected⟩
    obtain ⟨affected, isAffected⟩ := isAffected
    simp [isPlan, applied, isAffected, Except.toOption] at left

theorem leavesRegistry {op : Operation}
    (left : op.carriedOut host workspace_id core now faults = none) :
    LeavesRegistry host workspace_id op core (op.perform host workspace_id core now faults).1 := by
  cases op with
  | createNote directory_path title => exact createNote_registry
  | createLinkTarget target_id => exact createLinkTarget_registry
  | createDirectory path => exact .retires (retires_of_sessions createDirectory_registry)
  | renameNote note_id new_title =>
    refine .retires (retires_of_sessions (reidentifyNote_registry fun new_id plan isPlanned => ?_))
    apply applied_none_of_carriedOut ?_ left
    unfold Operation.plan
    simp only [isPlanned]
    rfl
  | moveNote note_id new_directory_path =>
    refine .retires (retires_of_sessions ?_)
    unfold Operation.perform moveNoteSerialized
    dsimp only
    split
    · rfl
    · rename_i old_path directory bundle located
      refine (reidentifyNote_registry fun new_id plan isPlanned => ?_).trans rfl
      apply applied_none_of_carriedOut ?_ left
      unfold Operation.plan
      simp only [located, isPlanned]
      rfl
  | renameDirectory path new_name =>
    refine .retires (retires_of_sessions ?_)
    unfold Operation.perform renameDirectorySerialized
    dsimp only
    split
    · rfl
    · rfl
    · rename_i plan isPlanned
      split
      · rfl
      · rename_i effects core' applied
        have failed : (applyReidentify host workspace_id core plan now faults).toOption = none := by
          apply applied_none_of_carriedOut ?_ left
          unfold Operation.plan
          simp only [isPlanned]
          rfl
        rw [applied] at failed
        cases failed
  | deleteNote note_id =>
    unfold Operation.perform deleteNoteLocked
    dsimp only
    split
    · exact .retires (retires_of_sessions rfl)
    · rename_i deleted
      exact .retires (deleteNote_registry deleted)
  | deleteDirectory path =>
    unfold Operation.perform deleteDirectoryLocked
    dsimp only
    split
    · exact .retires (retires_of_sessions rfl)
    · rename_i deleted
      exact .retires (deleteDirectory_registry deleted)

end Burlmd.Lifecycle
