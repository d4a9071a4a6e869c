import Burlmd.Lifecycle.Baseline

/-!
# What other programs write is kept

A session overwrites only what its buffer reflects. That holds in every history whose
lifecycle operations find the open Notes they touch as their buffers reflect them; for a
restored draft, the opening has to find the file that the draft was typed over.
-/

namespace Burlmd.Lifecycle

open Workspace
open Okf (ConceptId)
open Index (WorkspaceId Database)
open Machine (Reaches Any)

variable {host : Host} {workspace_id : WorkspaceId} {restored : Bool} {core core' : Core}
  {session : NoteSession} {h h' : History} {event : Happening}

/-! ## Runs -/

theorem tracks_step (tracks : Tracks host restored h.core h.reflects)
    (carries : CarriesCurrent host workspace_id restored h event)
    (opens : restored = true → OpensCurrent host workspace_id h event)
    (stepped : h.step host workspace_id event = some h') :
    Tracks host restored h'.core h'.reflects := by
  cases event with
  | open_ note_id =>
    cases stepped
    unfold History.opened
    cases isOpen : openNoteSerialized host workspace_id h.core note_id with
    | error error =>
      refine tracks.retires (retires_of_sessions rfl) fun id session found => ?_
      exact reflectOpened_of_open (.inl found)
    | ok result => exact tracks.opened rfl rfl isOpen fun own => opens own note_id rfl
  | edit note_id what new_source now =>
    obtain ⟨session, found, same⟩ := Option.bind_eq_some_iff.mp stepped
    cases same
    unfold History.edited
    cases isEdited : edit workspace_id h.core session what new_source now with
    | error error => exact tracks
    | ok core' => exact tracks.edited (find?_self found) isEdited
  | flush note_id now faults =>
    obtain ⟨session, found, same⟩ := Option.bind_eq_some_iff.mp stepped
    cases same
    exact tracks.flushed (find?_self found)
  | reload note_id conflicted =>
    obtain ⟨session, found, same⟩ := Option.bind_eq_some_iff.mp stepped
    cases same
    unfold History.reloaded
    cases isReloaded : reload host workspace_id h.core session conflicted with
    | error error => exact tracks
    | ok core' => exact tracks.reloaded (find?_self found) isReloaded
  | close note_id now faults =>
    obtain ⟨session, found, same⟩ := Option.bind_eq_some_iff.mp stepped
    cases same
    exact tracks.closed (find?_self found)
  | lifecycle op now faults =>
    cases stepped
    unfold History.performed
    cases carried : op.carriedOut host workspace_id h.core now faults with
    | some result =>
      obtain ⟨plan, affected⟩ := result
      exact tracks.carried (carriedOut_spec carried) fun id session found own touches =>
        carries op now faults plan affected rfl carried id session found own touches
    | none =>
      dsimp only
      have leaves := leavesRegistry carried
      generalize (op.perform host workspace_id h.core now faults).1 = core' at leaves
      cases leaves with
      | retires retires =>
        refine tracks.retires retires fun id session found => ?_
        exact reflectOpened_of_open (.inl (retires id session found))
      | opens id session middle sessions drafts isOpen place =>
        refine tracks.opened sessions drafts isOpen fun own unregistered drafted => ?_
        rcases place with vacant | ⟨rfl, rfl⟩
        · rw [vacant] at drafted
          cases drafted
        · exact opens own id rfl unregistered drafted
  | kill =>
    cases stepped
    exact fun id session found => absurd (Table.find?_eq_some_iff.mp found).1 (Table.not_mem_empty _)
  | foreign bundle =>
    cases stepped
    exact tracks
  | index db =>
    cases stepped
    exact tracks

theorem tracks_initial (bundle : Bundle) (db : Database) (reflects : ConceptId → FileBytes) :
    Tracks host restored (History.initial bundle db reflects).core reflects :=
  fun _ _ found => absurd (Table.find?_eq_some_iff.mp found).1 (Table.not_mem_empty _)

/-! ## A write -/

/-- A write that passes the revision check stands on the bytes reflected. -/
theorem replaceable_of_passes (injective : Function.Injective host.content_hash)
    {reflected : FileBytes} (tracked : Tracked host restored session reflected)
    (own : session.restored_from_draft = restored)
    (empty : session.awaiting_recreate = true →
      core.bundle.read session.absolute_path = some absentFile → reflected = absentFile)
    (passes : passesCheck host core session = true) :
    Replaceable restored reflected (core.bundle.read session.absolute_path) := by
  unfold passesCheck diskOf readBytes at passes
  by_cases directory : core.bundle.isDir session.absolute_path = true
  · rw [if_pos directory] at passes
    cases passes
  rw [if_neg directory] at passes
  unfold Replaceable
  cases read : core.bundle.read session.absolute_path with
  | some on_disk =>
    left
    rw [read] at passes
    have current : on_disk.hash host = session.revision := of_decide_eq_true passes
    rcases tracked.based own with based | ⟨awaits, based⟩
    · rw [FileBytes.hash_injective injective (current.trans based)]
    · have isEmpty := FileBytes.hash_injective injective (current.trans based)
      rw [isEmpty, empty awaits (read.trans (congrArg some isEmpty))]
  | none =>
    right
    refine ⟨?_, rfl⟩
    cases isRestored : session.restored_from_draft with
    | true => exact own.symm.trans isRestored
    | false =>
      rw [read] at passes
      simp only [Except.bind, bind, tracked.filed isRestored] at passes
      cases passes

/-- A flush of a Note whose file holds other bytes is refused. -/
theorem flush_refuses {now : Int} {faults : WriteFaults} {on_disk reflected : FileBytes}
    (injective : Function.Injective host.content_hash)
    (tracked : Tracked host restored session reflected)
    (own : session.restored_from_draft = restored)
    (empty : session.awaiting_recreate = true →
      core.bundle.read session.absolute_path = some absentFile → reflected = absentFile)
    (found : core.sessions.find? session.note_id = some session)
    (read : readBytes host core.bundle session.absolute_path = .ok (some on_disk))
    (other : on_disk ≠ reflected) :
    flush host workspace_id core session now faults =
      ({ core with
          sessions := core.sessions.put { session with
            last_error := some (.revisionMismatch (on_disk.hash host)) } },
        .error (.revisionMismatch (on_disk.hash host))) := by
  have isRead : core.bundle.read session.absolute_path = some on_disk := by
    unfold readBytes at read
    split at read
    · cases read
    · exact Except.ok.inj read
  have mismatched : ¬ passesCheck host core session = true := by
    intro passes
    rcases replaceable_of_passes injective tracked own empty passes with same | ⟨-, isNone⟩
    · rw [isRead] at same
      exact absurd (Option.some.inj same) other
    · rw [isRead] at isNone
      cases isNone
  cases @flush_spec host workspace_id core session now faults found with
  | mismatched error through passes mismatch ends =>
    rw [mismatch on_disk read] at ends
    exact ends
  | refused error bundle through passes files ends => exact absurd passes mismatched
  | written on_disk' after through passes written bundle registers => exact absurd passes mismatched

/-- The session that writes is the one that the event names. -/
theorem found_of_writes (writes : event.writes h.core = some session) :
    h.core.sessions.find? session.note_id = some session := by
  cases event with
  | flush note_id now faults => exact find?_self writes
  | close note_id now faults => exact find?_self (Option.filter_eq_some_iff.mp writes).1
  | _ => cases writes

/-- A step that writes is a flush, or the close of a session that has something to write. -/
inductive WriteStep (host : Host) (workspace_id : WorkspaceId) (h : History)
    (session : NoteSession) : Happening → History → Prop
  | flush (note_id : ConceptId) (now : Int) (faults : WriteFaults)
      (found : h.core.sessions.find? note_id = some session) :
      WriteStep host workspace_id h session (.flush note_id now faults)
        (h.flushed host workspace_id session now faults)
  | close (note_id : ConceptId) (now : Int) (faults : WriteFaults)
      (found : h.core.sessions.find? note_id = some session)
      (dirty : writesOnClose session = true) :
      WriteStep host workspace_id h session (.close note_id now faults)
        (h.closed host workspace_id session now faults)

theorem writeStep_of_writes (writes : event.writes h.core = some session)
    (stepped : h.step host workspace_id event = some h') :
    WriteStep host workspace_id h session event h' := by
  cases event with
  | flush note_id now faults =>
    have isOpen : h.core.sessions.find? note_id = some session := writes
    obtain ⟨_, found, same⟩ := Option.bind_eq_some_iff.mp stepped
    cases isOpen.symm.trans found
    cases same
    exact .flush note_id now faults isOpen
  | close note_id now faults =>
    obtain ⟨isOpen, dirty⟩ := Option.filter_eq_some_iff.mp writes
    obtain ⟨_, found, same⟩ := Option.bind_eq_some_iff.mp stepped
    cases isOpen.symm.trans found
    cases same
    exact .close note_id now faults isOpen dirty
  | _ => cases writes

theorem writesOverReflected (injective : Function.Injective host.content_hash)
    (tracks : Tracks host restored h.core h.reflects)
    (empty : restored = true → FindsNoEmptyFile h event)
    (stepped : h.step host workspace_id event = some h') :
    WritesOverReflected host workspace_id restored h event h' := by
  have noEmpty : ∀ session, event.writes h.core = some session →
      session.restored_from_draft = restored → session.awaiting_recreate = true →
      h.core.bundle.read session.absolute_path = some absentFile →
      h.reflects session.note_id = absentFile := by
    intro session writes own awaits read
    cases isRestored : session.restored_from_draft with
    | true => exact empty (own.symm.trans isRestored) session writes awaits read
    | false =>
      have filed := (tracks _ _ (found_of_writes writes)).filed isRestored
      rw [awaits] at filed
      cases filed
  constructor
  · intro session writes own changes
    have found := found_of_writes writes
    have passes : passesCheck host h.core session = true := by
      by_contra refused
      apply changes
      have kept : ∀ now faults,
          (flush host workspace_id h.core session now faults).1.bundle = h.core.bundle := by
        intro now faults
        cases @flush_spec host workspace_id h.core session now faults found with
        | mismatched error through passes mismatch ends => rw [ends]
        | refused error bundle through passes files ends => exact absurd passes refused
        | written on_disk after through passes written bundle registers => exact absurd passes refused
      cases writeStep_of_writes writes stepped with
      | flush note_id now faults isOpen => exact kept now faults
      | close note_id now faults isOpen dirty =>
        rcases @close_spec host workspace_id h.core session now faults with
          ⟨-, closes⟩ | ⟨-, ends, -⟩
        · exact congrArg (fun outcome => outcome.1.bundle) closes
        · exact ends.2.trans (kept now faults)
    exact replaceable_of_passes injective (tracks _ _ found) own (noEmpty session writes own) passes
  · intro session writes own on_disk read other
    have found := found_of_writes writes
    have refused := fun now faults =>
      @flush_refuses host workspace_id restored h.core session now faults on_disk
        (h.reflects session.note_id) injective (tracks _ _ found) own (noEmpty session writes own)
        found read other
    have buffer : ((h.core.sessions.put { session with
        last_error := some (.revisionMismatch (on_disk.hash host)) }).find? session.note_id).map
          NoteSession.source = some session.source := by
      rw [Table.find?_put, if_pos rfl]
      rfl
    cases writeStep_of_writes writes stepped with
    | flush note_id now faults isOpen =>
      unfold History.flushed
      rw [refused]
      refine ⟨?_, rfl, rfl, buffer⟩
      unfold Happening.result
      simp only [isOpen, Option.elim_some, refused]
      rfl
    | close note_id now faults isOpen dirty =>
      have closes : close host workspace_id h.core session now faults =
          ((flush host workspace_id h.core session now faults).1,
            .error (.revisionMismatch (on_disk.hash host))) := by
        rcases @close_spec host workspace_id h.core session now faults with ⟨clean, -⟩ | ⟨-, -, stays⟩
        · rw [clean] at dirty
          cases dirty
        · apply stays
          · rw [refused]
          · intro message same
            cases same
      unfold History.closed
      rw [closes, refused]
      refine ⟨?_, rfl, rfl, buffer⟩
      unfold Happening.result
      simp only [isOpen, Option.elim_some, closes]

/-! ## Histories -/

/-- What is no write, no lifecycle operation and nothing foreign leaves the files alone. -/
theorem bundle_of_step (stepped : h.step host workspace_id event = some h')
    (others : event.touchesFiles h.core = false) : h'.core.bundle = h.core.bundle := by
  cases event with
  | open_ note_id =>
    cases stepped
    unfold History.opened
    cases isOpen : openNoteSerialized host workspace_id h.core note_id with
    | error error => rfl
    | ok result => exact (openNoteSerialized_frame isOpen).2
  | edit note_id what new_source now =>
    obtain ⟨session, -, same⟩ := Option.bind_eq_some_iff.mp stepped
    cases same
    unfold History.edited
    cases isEdited : edit workspace_id h.core session what new_source now with
    | error error => rfl
    | ok core' => exact (edit_spec isEdited).1
  | flush note_id now faults =>
    obtain ⟨session, found, -⟩ := Option.bind_eq_some_iff.mp stepped
    have closed : h.core.sessions.find? note_id = none := Option.not_isSome_iff_eq_none.mp
      (Bool.eq_false_iff.mp others)
    rw [closed] at found
    cases found
  | reload note_id conflicted =>
    obtain ⟨session, -, same⟩ := Option.bind_eq_some_iff.mp stepped
    cases same
    unfold History.reloaded
    cases isReloaded : reload host workspace_id h.core session conflicted with
    | error error => rfl
    | ok core' => exact (reload_spec isReloaded).1
  | close note_id now faults =>
    obtain ⟨session, found, same⟩ := Option.bind_eq_some_iff.mp stepped
    cases same
    have clean : (h.core.sessions.find? note_id).filter writesOnClose = none :=
      Option.not_isSome_iff_eq_none.mp (Bool.eq_false_iff.mp others)
    rcases @close_spec host workspace_id h.core session now faults with ⟨-, closes⟩ | ⟨dirty, -⟩
    · exact congrArg (fun outcome => outcome.1.bundle) closes
    · rw [found, Option.filter_some, if_pos dirty] at clean
      cases clean
  | lifecycle op now faults => cases others
  | foreign bundle => cases others
  | kill =>
    cases stepped
    rfl
  | index db =>
    cases stepped
    rfl

/-! ## The files of open Notes -/

/-- A flush writes the file of its session, and no other. -/
theorem read_flush {now : Int} {faults : WriteFaults} {path : Path}
    (found : core.sessions.find? session.note_id = some session) (other : path ≠ session.absolute_path) :
    (flush host workspace_id core session now faults).1.bundle.read path = core.bundle.read path := by
  cases @flush_spec host workspace_id core session now faults found with
  | mismatched error through passes mismatch ends => rw [ends]
  | refused error bundle through passes files ends =>
    rw [ends]
    unfold Bundle.read Bundle.file?
    rw [files]
  | written on_disk after through passes written bundle registers =>
    rw [bundle]
    unfold publishSource
    dsimp only
    split_ifs
    · exact (Bundle.read_atomicWrite path).trans (if_neg other)
    · rfl

theorem read_written {path : Path} (stepped : h.step host workspace_id event = some h')
    (writes : event.writes h.core = some session) (other : path ≠ session.absolute_path) :
    h'.core.bundle.read path = h.core.bundle.read path := by
  have found := found_of_writes writes
  cases event with
  | flush note_id now faults =>
    have isOpen : h.core.sessions.find? note_id = some session := writes
    obtain ⟨_, found', same⟩ := Option.bind_eq_some_iff.mp stepped
    cases isOpen.symm.trans found'
    cases same
    exact read_flush found other
  | close note_id now faults =>
    obtain ⟨isOpen, -⟩ := Option.filter_eq_some_iff.mp writes
    obtain ⟨_, found', same⟩ := Option.bind_eq_some_iff.mp stepped
    cases isOpen.symm.trans found'
    cases same
    have flushed := @read_flush host workspace_id h.core session now faults path found other
    unfold History.closed
    rcases @close_spec host workspace_id h.core session now faults with ⟨-, closes⟩ | ⟨-, ends, -⟩
    · rw [closes]
      rfl
    · rw [ends.2]
      exact flushed
  | _ => cases writes

/-- A plan rewrites the file of an open Note only where its buffer reflects it. -/
theorem rewritten_reflected {op : Operation} {now : Int} {faults : LifecycleFaults} {plan : Reidentify}
    {affected : List Affected} {a : Affected} {contents : FileBytes} {id : ConceptId}
    (met : RewritesReflected host workspace_id h event) (isEvent : event = .lifecycle op now faults)
    (carried : op.carriedOut host workspace_id h.core now faults = some (plan, affected))
    (mem : a ∈ affected) (rewrites : a.new_file.isSome) (own : a.old_path = session.absolute_path)
    (found : h.core.sessions.find? id = some session) (fresh : session.restored_from_draft = false)
    (read : h.core.bundle.read session.absolute_path = some contents) : contents = h.reflects id := by
  obtain ⟨planned, sameDb, sameSessions, sameFiles, -, -, plans⟩ := (carriedOut_spec carried).planned_on
  obtain ⟨disk, affects⟩ := (plans.affects a mem).2
  have onDisk : h.core.bundle.read session.absolute_path = disk.map .text := by
    have onDisk := readSource_spec affects.read
    unfold Bundle.read Bundle.file? at onDisk ⊢
    rw [← own, ← sameFiles]
    exact onDisk
  cases disk with
  | none =>
    rw [read] at onDisk
    cases onDisk
  | some source =>
    have spelled := normalComponents_of_notePath affects.old_path
    rw [own] at spelled
    have isRewrite : plan.rewrite host a.old_id source = .ok a.new_file := affects.new_file
    have rewritten : plan.rewrite host a.old_id source ≠ .ok none := by
      intro same
      rw [isRewrite] at same
      rw [Except.ok.inj same] at rewrites
      cases rewrites
    have reflected := met.spellings op now faults plan affected isEvent carried id session found fresh
      a.old_id source spelled rewritten onDisk
    rw [read] at onDisk
    rw [reflected]
    exact Option.some.inj onDisk

/-- What a step does to the file of an open Note. -/
theorem files_reflected (injective : Function.Injective host.content_hash) {id : ConceptId}
    {contents : FileBytes} (tracks : Tracks host false h.core h.reflects)
    (met : RewritesReflected host workspace_id h event)
    (stepped : h.step host workspace_id event = some h') (foreign : ∀ bundle, event ≠ .foreign bundle)
    (found : h.core.sessions.find? id = some session) (fresh : session.restored_from_draft = false)
    (read : h.core.bundle.read session.absolute_path = some contents) :
    Unwritten host workspace_id h event h' session.absolute_path contents ∨
      Reflected h event session contents := by
  cases writes : event.writes h.core with
  | some writer =>
    by_cases place : session.absolute_path = writer.absolute_path
    · by_cases same : h'.core.bundle = h.core.bundle
      · exact .inl (.stays (same ▸ read))
      · right
        refine .writer writes place.symm fun writer_fresh => ?_
        have written := writesOverReflected injective tracks (fun own => by cases own) stepped
        rcases written.replaces writer writes writer_fresh same with reflected | ⟨own, -⟩
        · rw [← place, read] at reflected
          exact Option.some.inj reflected
        · cases own
    · exact .inl (.stays ((read_written stepped writes place).trans read))
  | none =>
    cases event with
    | lifecycle op now faults =>
      have ends : h'.core = (op.perform host workspace_id h.core now faults).1 := by
        cases stepped
        unfold History.performed
        dsimp only
        split <;> rfl
      have grounded := grounded_of_rooted (met.tree op now faults rfl)
      have isFate : Fate host workspace_id h.core now faults op session.absolute_path contents :=
        fate grounded read
      cases isFate with
      | stays read => exact .inl (.stays (ends ▸ read))
      | moves carried moved beneath goes => exact .inl (.moves rfl carried moved beneath (ends ▸ goes))
      | deleted done asked => exact .inl (.deleted rfl done asked)
      | rewritten carried mem rewrites own =>
        have reflected := rewritten_reflected met rfl carried mem rewrites own found fresh read
        rw [← note_id_of_find? found] at reflected
        exact .inr (.own reflected)
    | foreign bundle => exact absurd rfl (foreign bundle)
    | _ =>
      have quiet := Option.isSome_eq_false_iff.mpr (Option.isNone_iff_eq_none.mpr writes)
      have same := bundle_of_step stepped quiet
      exact .inl (.stays (same ▸ read))

/-- No external change is overwritten silently, in a history whose lifecycle operations find the open
Notes as their buffers reflect them, those that they touch. -/
theorem open_notes_overwrite_nothing (injective : Function.Injective host.content_hash)
    (bundle : Bundle) (db : Database) (reflects : ConceptId → FileBytes)
    (reached : Reaches (History.step host workspace_id) (RewritesReflected host workspace_id)
      (History.initial bundle db reflects) h)
    (met : RewritesReflected host workspace_id h event)
    (stepped : h.step host workspace_id event = some h') :
    OverwritesNothing host workspace_id h event h' := by
  have tracks : Tracks host false h.core h.reflects := by
    apply reached.invariant (P := fun h => Tracks host false h.core h.reflects)
      (tracks_initial bundle db reflects)
    intro h event h' tracks met stepped
    exact tracks_step tracks met.carries (fun own => by cases own) stepped
  refine ⟨writesOverReflected injective tracks (fun own => by cases own) stepped, ?_,
    bundle_of_step stepped⟩
  intro foreign id session contents found fresh read
  exact files_reflected injective tracks met stepped foreign found fresh read

/-- The condition is one on lifecycle operations only. -/
theorem rewritesReflected_of_other (other : ∀ op now faults, event ≠ .lifecycle op now faults) :
    RewritesReflected host workspace_id h event where
  carries op now faults _ _ isEvent := absurd isEvent (other op now faults)
  spellings op now faults _ _ isEvent := absurd isEvent (other op now faults)
  tree op now faults isEvent := absurd isEvent (other op now faults)

def oneNote : History := .initial (noteOnDisk ['a']) (.empty [['w']]) fun _ => absentFile

/-- Another program replaces the file of an open Note, which is reloaded and edited. -/
def reloadedAndEdited : List Happening :=
  [.open_ ['n'], .foreign (noteOnDisk ['b']), .reload ['n'] false, .edit ['n'] [] ['c'] 1]

def editedNote : History :=
  (Machine.run (History.step Host.plain ['w']) oneNote reloadedAndEdited).getD oneNote

def renamedNote : History := editedNote.performed Host.plain ['w'] (.renameNote ['n'] ['m']) 2 .none

/-- The rename finds the file as the buffer reflects it. -/
theorem rename_finds_reflected : RewritesReflected Host.plain ['w'] editedNote
    (.lifecycle (.renameNote ['n'] ['m']) 2 .none) := by
  have bundle : editedNote.core.bundle = noteOnDisk ['b'] := rfl
  have opened : ∀ session ∈ editedNote.core.sessions.rows,
      session.absolute_path = [⟨['n', '.', 'm', 'd'], nameable_note⟩] ∧
        editedNote.reflects session.note_id = .text ['b'] := by decide +kernel
  have file : ∀ id session, editedNote.core.sessions.find? id = some session →
      editedNote.core.bundle.read session.absolute_path = some (editedNote.reflects session.note_id) := by
    intro id session found
    obtain ⟨path, reflected⟩ := opened session (Table.find?_eq_some_iff.mp found).1
    rw [bundle, read_noteOnDisk, if_pos path, reflected]
  refine ⟨?_, ?_, ?_⟩
  · rintro _ _ _ plan affected - - id session found - -
    refine ⟨.inl (file id session found), fun path _ => ?_⟩
    obtain ⟨place, -⟩ := opened session (Table.find?_eq_some_iff.mp found).1
    rw [bundle, read_noteOnDisk, place]
    exact (em _).imp_right (if_neg ·)
  · rintro _ _ _ plan affected - - id session found - _ source - - read
    rw [file id session found, note_id_of_find? found] at read
    exact Option.some.inj read
  · rintro _ _ _ -
    rw [bundle]
    exact rooted_noteOnDisk

/-- It is then renamed, and written under its new name. -/
theorem renamed_note_overwrites_nothing : ∃ h',
    renamedNote.step Host.plain ['w'] (.flush ['m'] 3 .none) = some h' ∧
      OverwritesNothing Host.plain ['w'] renamedNote (.flush ['m'] 3 .none) h' := by
  have ran : Machine.run (History.step Host.plain ['w']) oneNote reloadedAndEdited =
      some editedNote := rfl
  have met : ∀ h, ∀ event ∈ reloadedAndEdited, RewritesReflected Host.plain ['w'] h event := by
    intro h event mem
    apply rewritesReflected_of_other
    rintro op now faults rfl
    simp [reloadedAndEdited] at mem
  have flushes : (renamedNote.step Host.plain ['w'] (.flush ['m'] 3 .none)).isSome = true := by
    decide +kernel
  obtain ⟨h', stepped⟩ := Option.isSome_iff_exists.mp flushes
  have reached : Reaches (History.step Host.plain ['w']) (RewritesReflected Host.plain ['w']) oneNote
      renamedNote := .tail (Reaches.of_run_of met ran) rename_finds_reflected rfl
  refine ⟨h', stepped, open_notes_overwrite_nothing Host.plain_injective _ _ _ reached ?_ stepped⟩
  exact rewritesReflected_of_other fun _ _ _ isEvent => by cases isEvent

/-- What a write after a run finds, and whether it goes through. -/
structure Overwrite where
  restored : Bool
  on_disk : Option FileBytes
  reflected : FileBytes
  result : Option Unit
  deriving DecidableEq

def overwriteOf (events : List Happening) (event : Happening) : Option Overwrite := do
  let h ← Machine.run (History.step Host.plain ['w']) oneNote events
  let _ ← h.step Host.plain ['w'] event
  let session ← event.writes h.core
  return ⟨session.restored_from_draft,
    (readBytes Host.plain h.core.bundle session.absolute_path).toOption.join,
    h.reflects session.note_id, (event.result Host.plain ['w'] h.core).toOption⟩

/-- A write over bytes that the session does not reflect. -/
theorem overwrite_of_run {events : List Happening} {on_disk reflected : FileBytes}
    (overwrites : overwriteOf events event = some ⟨restored, some on_disk, reflected, some ()⟩)
    (other : on_disk ≠ reflected) :
    ∃ h h', Reaches (History.step Host.plain ['w']) Any oneNote h ∧
      h.step Host.plain ['w'] event = some h' ∧
      ¬WritesOverReflected Host.plain ['w'] restored h event h' := by
  obtain ⟨h, ran, overwrites⟩ := Option.bind_eq_some_iff.mp overwrites
  obtain ⟨h', stepped, overwrites⟩ := Option.bind_eq_some_iff.mp overwrites
  obtain ⟨session, writes, same⟩ := Option.bind_eq_some_iff.mp overwrites
  simp only [pure, Option.some.injEq, Overwrite.mk.injEq] at same
  obtain ⟨own, isRead, rfl, goesThrough⟩ := same
  refine ⟨h, h', Reaches.of_run ran, stepped, fun kept => ?_⟩
  have read : readBytes Host.plain h.core.bundle session.absolute_path = .ok (some on_disk) :=
    toOption_eq_some_iff.mp (Option.join_eq_some_iff.mp isRead)
  have refused := (kept.refuses session writes own on_disk read other).result
  rw [refused] at goesThrough
  cases goesThrough

/-- Another program writes `b` over `a`, and then the open Note is renamed: the revision of
its session becomes that of `b`, so its next write puts `a` back. -/
def renamedOverForeign : List Happening :=
  [.open_ ['n'], .foreign (noteOnDisk ['b']), .lifecycle (.renameNote ['n'] ['m']) 1 .none]

theorem rename_overwrites_foreign : ∃ h h',
    Reaches (History.step Host.plain ['w']) Any oneNote h ∧
      h.step Host.plain ['w'] (.flush ['m'] 2 .none) = some h' ∧
      ¬OverwritesNothing Host.plain ['w'] h (.flush ['m'] 2 .none) h' := by
  have overwrites : overwriteOf renamedOverForeign (.flush ['m'] 2 .none) =
    some ⟨false, some (.text ['b']), .text ['a'], some ()⟩ := by decide +kernel
  obtain ⟨h, h', reached, stepped, fails⟩ := overwrite_of_run overwrites (by decide)
  exact ⟨h, h', reached, stepped, fun kept => fails kept.tier_two⟩

/-! ## Recovered drafts -/

/-- Crash recovery overwrites no external change, in a history that opens a Note over a
drafts row only where its file is the one the row was typed over, or is missing. -/
theorem recovery_overwrites_nothing (injective : Function.Injective host.content_hash)
    (bundle : Bundle) (db : Database) (reflects : ConceptId → FileBytes)
    (reached : Reaches (History.step host workspace_id) (RecoversCurrent host workspace_id)
      (History.initial bundle db reflects) h)
    (met : RecoversCurrent host workspace_id h event)
    (stepped : h.step host workspace_id event = some h') :
    RecoveryOverwritesNothing host workspace_id h event h' := by
  have tracks : Tracks host true h.core h.reflects := by
    apply reached.invariant (P := fun h => Tracks host true h.core h.reflects)
      (tracks_initial bundle db reflects)
    intro h event h' tracks met stepped
    exact tracks_step tracks met.carries (fun _ => met.opens) stepped
  exact ⟨writesOverReflected injective tracks (fun _ => met.writes) stepped, bundle_of_step stepped⟩

/-- A Note whose last session died over the edit `c`. -/
def draftedNote : History :=
  .initial (noteOnDisk ['a']) ((Database.empty [['w']]).writeDraft ⟨['w'], ['n'], ['c'], 1, 1⟩)
    fun _ => .text ['a']

theorem recovered_note_overwrites_nothing : ∃ h h',
    h.step Host.plain ['w'] (.flush ['n'] 2 .none) = some h' ∧
      RecoveryOverwritesNothing Host.plain ['w'] h (.flush ['n'] 2 .none) h' := by
  obtain ⟨h', stepped⟩ : ∃ h', (draftedNote.opened Host.plain ['w'] ['n']).step Host.plain ['w']
      (.flush ['n'] 2 .none) = some h' := ⟨_, rfl⟩
  have opens : RecoversCurrent Host.plain ['w'] draftedNote (.open_ ['n']) := by
    refine ⟨?_, ?_, ?_⟩
    · rintro op now faults _ _ ⟨⟩
    · rintro _ ⟨⟩ - - path located
      cases located
      exact .inr rfl
    · rintro _ ⟨⟩
  have flushes : RecoversCurrent Host.plain ['w'] (draftedNote.opened Host.plain ['w'] ['n'])
      (.flush ['n'] 2 .none) := by
    refine ⟨?_, ?_, ?_⟩
    · rintro op now faults _ _ ⟨⟩
    · rintro _ ⟨⟩
    · rintro _ ⟨⟩ (awaits : false = true)
      cases awaits
  exact ⟨_, h', stepped, recovery_overwrites_nothing Host.plain_injective _ _ _
    (.tail .refl opens rfl) flushes stepped⟩

/-- The process dies over the edit `c`; another program writes `b`; the Note is opened again,
on the revision of `b`, and its first write replaces `b`. -/
def recoveredOverForeign : List Happening :=
  [.open_ ['n'], .edit ['n'] [] ['c'] 1, .kill, .foreign (noteOnDisk ['b']), .open_ ['n']]

theorem recovery_overwrites_foreign : ∃ h h',
    Reaches (History.step Host.plain ['w']) Any oneNote h ∧
      h.step Host.plain ['w'] (.flush ['n'] 2 .none) = some h' ∧
      ¬RecoveryOverwritesNothing Host.plain ['w'] h (.flush ['n'] 2 .none) h' := by
  have overwrites : overwriteOf recoveredOverForeign (.flush ['n'] 2 .none) =
    some ⟨true, some (.text ['b']), .text ['a'], some ()⟩ := by decide +kernel
  obtain ⟨h, h', reached, stepped, fails⟩ := overwrite_of_run overwrites (by decide)
  exact ⟨h, h', reached, stepped, fun kept => fails kept.tier_two⟩

end Burlmd.Lifecycle
