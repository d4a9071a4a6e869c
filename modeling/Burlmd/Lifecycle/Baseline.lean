import Burlmd.Lifecycle.FilesKept

/-!
# The baseline of a session

A tier 2 write goes by the revision that its session holds. That revision is the hash of
the bytes that the buffer reflects, as long as no opening over a drafts row and no
lifecycle operation takes it from a file that holds something else.
-/

namespace Burlmd.Lifecycle

open Workspace
open Utf8 (Text)
open Okf (ConceptId conceptIdToPath)
open Index (WorkspaceId DraftRow)
open Checked

variable (host : Host) (workspace_id : WorkspaceId)

/-! ## What is promised -/

/-- The session that an event wants to write to its file. -/
def Happening.writes (core : Core) : Happening → Option NoteSession
  | .flush note_id _ _ => core.sessions.find? note_id
  | .close note_id _ _ => (core.sessions.find? note_id).filter writesOnClose
  | _ => none

/-- What the caller of a write is told. -/
def Happening.result (core : Core) : Happening → Except AppError Unit
  | .flush note_id now faults =>
      (core.sessions.find? note_id).elim (.ok ()) fun session =>
        (Lifecycle.flush host workspace_id core session now faults).2.map fun _ => ()
  | .close note_id now faults =>
      (core.sessions.find? note_id).elim (.ok ()) fun session =>
        (Lifecycle.close host workspace_id core session now faults).2
  | _ => .ok ()

/-- The application writes the file of a Note in this event. -/
def Happening.touchesFiles (core : Core) : Happening → Bool
  | .lifecycle .. => true
  | .foreign _ => true
  | event => (event.writes core).isSome

/-- What a write may find in the place of its file. A restored draft may bring its file
back. -/
def Replaceable (restored : Bool) (reflected : FileBytes) (on_disk : Option FileBytes) : Prop :=
  on_disk = some reflected ∨ (restored = true ∧ on_disk = none)

/-- A write that finds anything else in its file is refused, and changes nothing. -/
structure Refuses (h h' : History) (event : Happening) (session : NoteSession) (on_disk : FileBytes) :
    Prop where
  result : event.result host workspace_id h.core = .error (.revisionMismatch (on_disk.hash host))
  bundle : h'.core.bundle = h.core.bundle
  db : h'.core.db = h.core.db
  buffer : (h'.core.sessions.find? session.note_id).map NoteSession.source = some session.source

/-- The writes of the sessions that were, or were not, restored from a draft. -/
structure WritesOverReflected (restored : Bool) (h : History) (event : Happening) (h' : History) :
    Prop where
  replaces : ∀ session, event.writes h.core = some session →
    session.restored_from_draft = restored → h'.core.bundle ≠ h.core.bundle →
    Replaceable restored (h.reflects session.note_id) (h.core.bundle.read session.absolute_path)
  refuses : ∀ session, event.writes h.core = some session →
    session.restored_from_draft = restored → ∀ on_disk,
    readBytes host h.core.bundle session.absolute_path = .ok (some on_disk) →
    on_disk ≠ h.reflects session.note_id → Refuses host workspace_id h h' event session on_disk

/-- Nobody writes a file that holds `contents`: it stays, it goes whole where a plan moves it, or it
is deleted because an operation is asked to. -/
inductive Unwritten (h : History) (event : Happening) (h' : History) (path : Path)
    (contents : FileBytes) : Prop
  | stays (read : h'.core.bundle.read path = some contents) : Unwritten h event h' path contents
  | moves {op : Operation} {now : Int} {faults : LifecycleFaults} {plan : Reidentify}
      {affected : List Affected} {source target rest : Path} (isEvent : event = .lifecycle op now faults)
      (carried : op.carriedOut host workspace_id h.core now faults = some (plan, affected))
      (moved : (source, target) ∈ plan.moves affected) (beneath : path = source ++ rest)
      (read : h'.core.bundle.read (target ++ rest) = some contents) : Unwritten h event h' path contents
  | deleted {op : Operation} {now : Int} {faults : LifecycleFaults} {result : LifecycleResult}
      (isEvent : event = .lifecycle op now faults)
      (done : (op.perform host workspace_id h.core now faults).2 = .ok result)
      (asked : op.Deletes host h.core.bundle path) : Unwritten h event h' path contents

/-- The file of an open Note holds what its buffer reflects. Where another session of the same
file writes it, that is what the buffer of that one reflects. -/
inductive Reflected (h : History) (event : Happening) (session : NoteSession) (contents : FileBytes) :
    Prop
  | own (same : contents = h.reflects session.note_id) : Reflected h event session contents
  | writer {writer : NoteSession} (writes : event.writes h.core = some writer)
      (place : writer.absolute_path = session.absolute_path)
      (same : writer.restored_from_draft = false → contents = h.reflects writer.note_id) :
      Reflected h event session contents

/-- No step of the application replaces bytes that the open Note does not reflect. -/
structure OverwritesNothing (h : History) (event : Happening) (h' : History) : Prop where
  tier_two : WritesOverReflected host workspace_id false h event h'
  /-- Whatever the application does, and whether it succeeds or fails. -/
  files : (∀ bundle, event ≠ .foreign bundle) → ∀ id session contents,
    h.core.sessions.find? id = some session → session.restored_from_draft = false →
    h.core.bundle.read session.absolute_path = some contents →
    Unwritten host workspace_id h event h' session.absolute_path contents ∨
      Reflected h event session contents
  others : event.touchesFiles h.core = false → h'.core.bundle = h.core.bundle

/-- No write of a restored session replaces bytes that the draft was not typed over, and nothing
else that the session does touches a file. -/
structure RecoveryOverwritesNothing (h : History) (event : Happening) (h' : History) : Prop where
  tier_two : WritesOverReflected host workspace_id true h event h'
  others : event.touchesFiles h.core = false → h'.core.bundle = h.core.bundle

/-! ## On which condition -/

/-- A plan renames an open Note, or rewrites its file, its buffer or its drafts row. -/
def Reidentify.Touches (plan : Reidentify) (core : Core) (session : NoteSession) : Prop :=
  plan.newId session.note_id ≠ session.note_id ∨
    ∃ source, plan.rewrite host session.note_id source ≠ .ok none ∧
      (core.bundle.read session.absolute_path = some (.text source) ∨ session.source = source ∨
        (core.db.readDraft workspace_id session.note_id).map DraftRow.raw_markdown = some source)

/-- The file of an open Note holds what the buffer reflects, or is missing still; and no
other file is in the place that the Note goes to. -/
structure Current (h : History) (plan : Reidentify) (session : NoteSession) : Prop where
  file : h.core.bundle.read session.absolute_path = some (h.reflects session.note_id) ∨
    (h.core.bundle.read session.absolute_path = none ∧ session.awaiting_recreate = true)
  target : ∀ path, normalComponents (conceptIdToPath (plan.newId session.note_id)) = some path →
    path = session.absolute_path ∨ h.core.bundle.read path = none

/-- Every open Note that a lifecycle operation touches is current when it goes through. -/
def CarriesCurrent (restored : Bool) (h : History) (event : Happening) : Prop :=
  ∀ op now faults plan affected, event = .lifecycle op now faults →
    op.carriedOut host workspace_id h.core now faults = some (plan, affected) →
    ∀ id session, h.core.sessions.find? id = some session →
      session.restored_from_draft = restored →
      plan.Touches host workspace_id h.core session → Current h plan session

/-- A lifecycle operation that goes through finds the open Notes as their buffers reflect them: those
that it touches, and those whose file its plan rewrites under any spelling of their id. -/
structure RewritesReflected (h : History) (event : Happening) : Prop where
  carries : CarriesCurrent host workspace_id false h event
  spellings : ∀ op now faults plan affected, event = .lifecycle op now faults →
    op.carriedOut host workspace_id h.core now faults = some (plan, affected) →
    ∀ id session, h.core.sessions.find? id = some session → session.restored_from_draft = false →
    ∀ spelled source, normalComponents (conceptIdToPath spelled) = some session.absolute_path →
      plan.rewrite host spelled source ≠ .ok none →
      h.core.bundle.read session.absolute_path = some (.text source) → h.reflects id = .text source
  /-- Other programs leave a tree: nothing is beneath a file, or beneath nothing. -/
  tree : ∀ op now faults, event = .lifecycle op now faults →
    h.core.bundle.entry.Rooted Entry.IsDirectory

/-- The Note that an event opens. -/
def Happening.opens : Happening → Option ConceptId
  | .open_ note_id => some note_id
  | .lifecycle (.createLinkTarget target_id) _ _ => some target_id
  | _ => none

/-- A Note that is opened over a drafts row has the file that the row was typed over, or
none. -/
def OpensCurrent (h : History) (event : Happening) : Prop :=
  ∀ id, event.opens = some id → h.core.sessions.find? id = none →
    (h.core.db.readDraft workspace_id id).isSome →
    ∀ path, notePath host h.core.bundle id = .ok path →
      h.core.bundle.read path = none ∨ h.core.bundle.read path = some (h.reflects id)

/-- A session that waits to bring its file back does not find an empty one in its place. -/
def FindsNoEmptyFile (h : History) (event : Happening) : Prop :=
  ∀ session, event.writes h.core = some session → session.awaiting_recreate = true →
    h.core.bundle.read session.absolute_path = some absentFile →
    h.reflects session.note_id = absentFile

/-- The steps of a history after which a restored draft still stands on its own file. -/
structure RecoversCurrent (h : History) (event : Happening) : Prop where
  carries : CarriesCurrent host workspace_id true h event
  opens : OpensCurrent host workspace_id h event
  writes : FindsNoEmptyFile h event

/-! ## The invariant -/

/-- The revision is that of the bytes reflected. Only a session that waits to bring its file
back may go by that of an empty one. -/
def Based (session : NoteSession) (reflected : FileBytes) : Prop :=
  session.revision = reflected.hash host ∨
    (session.awaiting_recreate = true ∧ session.revision = absentFile.hash host)

structure Tracked (restored : Bool) (session : NoteSession) (reflected : FileBytes) : Prop where
  located : normalComponents (conceptIdToPath session.note_id) = some session.absolute_path
  filed : session.restored_from_draft = false → session.awaiting_recreate = false
  based : session.restored_from_draft = restored → Based host session reflected

def Tracks (restored : Bool) (core : Core) (reflects : ConceptId → FileBytes) : Prop :=
  ∀ id session, core.sessions.find? id = some session → Tracked host restored session (reflects id)

variable {host workspace_id} {restored : Bool} {core core' : Core} {session after : NoteSession}
  {reflects reflects' : ConceptId → FileBytes} {h h' : History} {event : Happening}

theorem Tracks.retires (tracks : Tracks host restored core reflects) (retires : Retires core core')
    (same : ∀ id session, core'.sessions.find? id = some session → reflects' id = reflects id) :
    Tracks host restored core' reflects' := by
  intro id session found
  rw [same id session found]
  exact tracks id session (retires id session found)

theorem Tracks.registers (tracks : Tracks host restored core reflects)
    (registers : Registers core core' after)
    (tracked : Tracked host restored after (reflects' after.note_id))
    (same : ∀ id, id ≠ after.note_id → reflects' id = reflects id) :
    Tracks host restored core' reflects' := by
  intro id session found
  rw [registers id] at found
  split at found
  · rename_i own
    cases found
    rw [← own]
    exact tracked
  · rename_i other
    rw [same id fun own => other own.symm]
    exact tracks id session found

theorem Tracked.written (tracked : Tracked host restored session (reflects session.note_id))
    (written : Written host session after) : Tracked host restored after (.text session.source) where
  located := by
    rw [written.note_id, written.absolute_path]
    exact tracked.located
  filed _ := written.filed
  based _ := .inl written.revision

theorem Tracked.congr {reflected : FileBytes} (tracked : Tracked host restored session reflected)
    (note_id : after.note_id = session.note_id) (path : after.absolute_path = session.absolute_path)
    (revision : after.revision = session.revision)
    (flags : after.restored_from_draft = session.restored_from_draft ∧
      after.awaiting_recreate = session.awaiting_recreate) :
    Tracked host restored after reflected where
  located := by
    rw [note_id, path]
    exact tracked.located
  filed fresh := by
    rw [flags.2]
    exact tracked.filed (flags.1.symm.trans fresh)
  based own := by
    unfold Based
    rw [revision, flags.2]
    exact tracked.based (flags.1.symm.trans own)

/-! ## Calls on an open Note -/

theorem reflectOpened_of_open {id : ConceptId}
    (isOpen : core.sessions.find? id = some session ∨ core'.sessions.find? id = none) :
    reflectOpened workspace_id core core' reflects id = reflects id := by
  unfold reflectOpened
  rcases isOpen with found | found <;> rw [found]
  cases core.sessions.find? id <;> rfl

/-- A Note is opened on a Core with the same sessions and drafts. -/
theorem Tracks.opened {id : ConceptId} {middle : Core} (tracks : Tracks host restored core reflects)
    (sessions : middle.sessions = core.sessions) (drafts : middle.db.drafts = core.db.drafts)
    (isOpen : openNoteSerialized host workspace_id middle id = .ok (session, core'))
    (current : restored = true → core.sessions.find? id = none →
      (core.db.readDraft workspace_id id).isSome →
      ∀ path, notePath host middle.bundle id = .ok path →
        middle.bundle.read path = none ∨ middle.bundle.read path = some (reflects id)) :
    Tracks host restored core' (reflectOpened workspace_id core core' reflects) := by
  have sameDraft : middle.db.readDraft workspace_id id = core.db.readDraft workspace_id id :=
    congrArg (Table.find? · _) drafts
  rcases openNoteSerialized_spec isOpen with ⟨-, rfl⟩ |
    ⟨unregistered, own, rfl, located, isRestored, isAwaiting, revision, filed⟩
  · refine tracks.retires (retires_of_sessions sessions) fun id session found => ?_
    rw [sessions] at found
    exact reflectOpened_of_open (.inl found)
  · have registers : Registers core { middle with sessions := middle.sessions.put session } session := by
      rw [sessions]
      exact registers_put
    rw [sessions] at unregistered
    rw [sameDraft] at isRestored
    refine tracks.registers registers ?_ ?_
    · have opens : reflectOpened workspace_id core
          { middle with sessions := middle.sessions.put session } reflects session.note_id =
            if session.restored_from_draft then reflects id
            else (middle.bundle.read session.absolute_path).getD absentFile := by
        unfold reflectOpened
        rw [registers, if_pos rfl, own, unregistered, isRestored]
      rw [opens]
      refine ⟨by rw [own]; exact normalComponents_of_notePath located, filed, ?_⟩
      rintro rfl
      cases fresh : session.restored_from_draft with
      | false => exact .inl revision
      | true =>
        rw [if_pos rfl]
        rcases current fresh unregistered (isRestored ▸ fresh) _ located with isNone | isSome
        · rw [isNone] at isAwaiting revision
          exact .inr ⟨isAwaiting, revision⟩
        · rw [isSome] at revision
          exact .inl revision
    · intro other isOther
      by_cases open_ : ∃ session, core.sessions.find? other = some session
      · obtain ⟨session, found⟩ := open_
        exact reflectOpened_of_open (.inl found)
      · have closed : core.sessions.find? other = none := by
          rw [Option.eq_none_iff_forall_ne_some]
          exact fun session found => open_ ⟨session, found⟩
        refine @reflectOpened_of_open workspace_id core _ session reflects other (.inr ?_)
        rw [registers, if_neg fun own => isOther own.symm, closed]

theorem Tracks.flushed {now : Int} {faults : WriteFaults}
    (tracks : Tracks host restored core reflects)
    (found : core.sessions.find? session.note_id = some session) :
    Tracks host restored (flush host workspace_id core session now faults).1
      (reflectWritten host core session faults reflects) := by
  have tracked := tracks _ _ found
  unfold reflectWritten
  cases @flush_spec host workspace_id core session now faults found with
  | mismatched error through passes mismatch ends =>
    rw [through, ends]
    exact tracks.registers registers_put (tracked.congr rfl rfl rfl ⟨rfl, rfl⟩) fun _ _ => rfl
  | refused error bundle through passes files ends =>
    rw [through, ends]
    exact tracks.registers registers_put (tracked.congr rfl rfl rfl ⟨rfl, rfl⟩) fun _ _ => rfl
  | written on_disk after through passes written bundle registers =>
    rw [if_pos through]
    refine tracks.registers registers ?_ ?_
    · rw [written.note_id, Function.update_self]
      exact tracked.written written
    · intro id other
      exact Function.update_of_ne (written.note_id ▸ other) _ _

theorem Tracks.closed {now : Int} {faults : WriteFaults}
    (tracks : Tracks host restored core reflects)
    (found : core.sessions.find? session.note_id = some session) :
    Tracks host restored (close host workspace_id core session now faults).1
      (if writesOnClose session then reflectWritten host core session faults reflects
        else reflects) := by
  rcases @close_spec host workspace_id core session now faults with ⟨clean, closes⟩ | ⟨dirty, ends, -⟩
  · rw [clean, closes]
    exact tracks.retires retires_discardSession fun _ _ _ => rfl
  · rw [dirty]
    exact (tracks.flushed found).retires ends.1 fun _ _ _ => rfl

theorem Tracks.edited {what new_source : Text} {now : Int}
    (tracks : Tracks host restored core reflects)
    (found : core.sessions.find? session.note_id = some session)
    (isEdited : edit workspace_id core session what new_source now = .ok core') :
    Tracks host restored core' reflects := by
  obtain ⟨-, edited, registers, rfl⟩ := edit_spec isEdited
  exact tracks.registers registers ((tracks _ _ found).congr rfl rfl rfl ⟨rfl, rfl⟩) fun _ _ => rfl

theorem Tracks.reloaded {conflicted : Bool} (tracks : Tracks host restored core reflects)
    (found : core.sessions.find? session.note_id = some session)
    (isReloaded : reload host workspace_id core session conflicted = .ok core') :
    Tracks host restored core' (Function.update reflects session.note_id
      ((core.bundle.read session.absolute_path).getD absentFile)) := by
  obtain ⟨-, contents, after, read, registers, note_id, path, revision, filed⟩ :=
    reload_spec isReloaded
  refine tracks.registers registers ?_ ?_
  · rw [note_id, Function.update_self, read]
    refine ⟨?_, fun _ => filed, fun _ => .inl revision⟩
    rw [note_id, path]
    exact (tracks _ _ found).located
  · intro id other
    exact Function.update_of_ne (note_id ▸ other) _ _

/-! ## Lifecycle operations -/

theorem readSource_spec {bundle : Bundle} {path : Path} {disk : Option Text}
    (read : readSource host bundle path = .ok disk) : bundle.read path = disk.map .text := by
  unfold readSource at read
  obtain ⟨contents, isRead, read⟩ := bind_eq_ok.mp read
  unfold readBytes at isRead
  split at isRead
  · cases isRead
  · rw [Except.ok.inj isRead]
    cases contents with
    | none =>
      cases read
      rfl
    | some contents =>
      cases contents with
      | text source =>
        cases read
        rfl
      | binary bytes invalid => cases read

/-- What a plan makes of a text is what it writes. -/
theorem rewriteBytes_text {plan : Reidentify} {old_id : ConceptId} {source : Text}
    {new_file : Option Text}
    (rewritten : rewriteOption (plan.rewrite host old_id) (some source) = .ok new_file) :
    plan.rewriteBytes host old_id (.text source) = .text ((new_file.or (some source)).getD []) := by
  have isRewrite : plan.rewrite host old_id source = .ok new_file := rewritten
  unfold Reidentify.rewriteBytes
  simp only [isRewrite]
  cases new_file <;> rfl

theorem touches_of_affects {plan : Reidentify} {a : Affected} {disk : Option Text} {planned : Core}
    (affects : Affects host workspace_id plan planned disk a) (sameDb : planned.db = core.db)
    (sameSessions : planned.sessions = core.sessions)
    (read : core.bundle.read session.absolute_path = disk.map .text)
    (isOpen : core.sessions.find? a.old_id = some session) :
    plan.Touches host workspace_id core session := by
  have own := note_id_of_find? isOpen
  -- a text that the plan rewrites is there
  have texts : ∀ (held : Option Text) (new : Option Text),
      rewriteOption (plan.rewrite host a.old_id) held = .ok new → new.isSome →
      ∃ source, held = some source ∧ plan.rewrite host session.note_id source ≠ .ok none := by
    intro held new rewritten isSome
    cases held with
    | none =>
      cases rewritten
      cases isSome
    | some source =>
      have isRewrite : plan.rewrite host a.old_id source = .ok new := rewritten
      refine ⟨source, rfl, fun same => ?_⟩
      rw [own, isRewrite] at same
      cases same
      cases isSome
  rcases affects.changed with file | buffer | draft | moves
  · obtain ⟨source, rfl, rewrites⟩ := texts _ _ affects.new_file file
    exact .inr ⟨source, rewrites, .inl read⟩
  · obtain ⟨source, held, rewrites⟩ := texts _ _ affects.new_buffer buffer
    rw [sameSessions, isOpen] at held
    exact .inr ⟨source, rewrites, .inr (.inl (Option.some.inj held))⟩
  · obtain ⟨source, held, rewrites⟩ := texts _ _ affects.new_draft draft
    rw [sameDb, ← own] at held
    exact .inr ⟨source, rewrites, .inr (.inr held)⟩
  · left
    rw [own, ← affects.new_id]
    exact fun same => moves same.symm

/-- Of the Notes that end at an id, one is held. -/
theorem find?_held {affected : List Affected} {id : ConceptId} {a : Affected}
    (apart : SessionsApart core affected)
    (vacant : ∀ a ∈ affected, a.old_id ≠ a.new_id → core.db.readDraft workspace_id a.new_id = none)
    (mem : a ∈ affected) (ends : a.new_id = id)
    (isOpen : core.sessions.find? a.old_id = some session) :
    affected.find? (fun a => a.new_id = id && core.holds workspace_id a.old_id) = some a := by
  have held : core.holds workspace_id a.old_id = true := by
    unfold Core.holds
    rw [isOpen]
    rfl
  cases found : affected.find? fun a => a.new_id = id && core.holds workspace_id a.old_id with
  | none =>
    have refused := List.find?_eq_none.mp found a mem
    simp [ends, held] at refused
  | some b =>
    have b_mem := List.mem_of_find?_eq_some found
    have selected := List.find?_some found
    simp only [Bool.and_eq_true, decide_eq_true_eq] at selected
    obtain ⟨b_ends, b_held⟩ := selected
    have same : b.old_id = a.old_id := by
      by_cases moves : b.old_id = b.new_id
      · by_cases stays : a.old_id = a.new_id
        · rw [moves, stays, ends, b_ends]
        · -- nothing is held where `a` goes
          exfalso
          rw [moves, b_ends, ← ends] at b_held
          simp [Core.holds, apart.vacant a mem stays, vacant a mem stays] at b_held
      · by_cases stays : a.old_id = a.new_id
        · have taken := apart.vacant b b_mem moves
          rw [b_ends, ← ends, ← stays, isOpen] at taken
          cases taken
        · exact apart.injective b b_mem a mem moves stays (b_ends.trans ends.symm)
    rw [List.inj_on_of_nodup_map apart.distinct b_mem mem same]

/-- The two texts of an open Note that ends where another one's entry does are one: the entries are
of two spellings of one path, or of the Note itself. -/
theorem disk_eq_of_ends {h : History} {planned : Core} {plan : Reidentify}
    {affected : List Affected} {a last : Affected} {disk last_disk : Option Text} (apart : SessionsApart h.core affected)
    (vacant : ∀ a ∈ affected, a.old_id ≠ a.new_id →
      h.core.db.readDraft workspace_id a.new_id = none)
    (affects : Affects host workspace_id plan planned disk a)
    (last_affects : Affects host workspace_id plan planned last_disk last)
    (sameDb : planned.db = h.core.db) (sameSessions : planned.sessions = h.core.sessions)
    (mem : a ∈ affected) (last_mem : last ∈ affected) (ends : last.new_id = a.new_id)
    (isOpen : h.core.sessions.find? a.old_id = some session)
    (read : h.core.bundle.read session.absolute_path = disk.map .text)
    (last_read : h.core.bundle.read last.old_path = last_disk.map .text)
    (current : Current h plan session) : last_disk = disk := by
  by_cases one : last.old_id = a.old_id
  · have isPath := last_affects.old_path
    rw [one, affects.old_path] at isPath
    have isSame := last_affects.read
    rw [← Except.ok.inj isPath, affects.read] at isSame
    exact (Except.ok.inj isSame).symm
  · have stays : last.old_id = last.new_id := by
      by_contra moves
      by_cases still : a.old_id = a.new_id
      · have taken := apart.vacant last last_mem moves
        rw [ends, ← still, isOpen] at taken
        cases taken
      · exact one (apart.injective last last_mem a mem moves still ends)
    have here : last.old_id = a.new_id := stays.trans ends
    have moves : a.old_id ≠ a.new_id := fun still => one (here.trans still.symm)
    have onDisk : last_disk.isSome := by
      rcases last_affects.held with onDisk | draft | open_
      · exact onDisk
      · rw [sameDb, here, vacant a mem moves] at draft
        cases draft
      · rw [sameSessions, here, apart.vacant a mem moves] at open_
        cases open_
    have place : normalComponents (conceptIdToPath (plan.newId session.note_id)) =
        some last.old_path := by
      rw [note_id_of_find? isOpen, ← affects.new_id, ← here]
      exact normalComponents_of_notePath last_affects.old_path
    rcases current.target _ place with samePath | nothing
    · rw [samePath, read] at last_read
      exact (Option.map_injective (fun _ _ same => FileBytes.text.inj same) last_read).symm
    · rw [nothing] at last_read
      obtain ⟨source, rfl⟩ := Option.isSome_iff_exists.mp onDisk
      cases last_read

/-- The revision that a current Note is given is that of the bytes it then reflects. -/
theorem based_of_current {h : History} {planned : Core} {plan : Reidentify} {last : Affected}
    {disk : Option Text} (affects : Affects host workspace_id plan planned disk last)
    (current : Current h plan session)
    (read : h.core.bundle.read session.absolute_path = disk.map .text)
    (awaiting : after.awaiting_recreate = session.awaiting_recreate)
    (revision : after.revision = last.revision) :
    Based host after (plan.rewriteBytes host last.old_id (h.reflects session.note_id)) := by
  have revision := revision.trans affects.revision
  unfold Based
  rw [awaiting, revision]
  cases disk with
  | some source =>
    left
    have isReflected : h.reflects session.note_id = .text source := by
      rcases current.file with isFile | ⟨isNone, -⟩
      · rw [read] at isFile
        exact (Option.some.inj isFile).symm
      · rw [read] at isNone
        cases isNone
    rw [isReflected, rewriteBytes_text affects.new_file]
  | none =>
    right
    have noFile : last.new_file = none := (Except.ok.inj affects.new_file).symm
    rcases current.file with isFile | ⟨-, awaits⟩
    · rw [read] at isFile
      cases isFile
    · rw [noFile]
      exact ⟨awaits, rfl⟩

theorem Tracks.carried {plan : Reidentify} {affected : List Affected}
    (tracks : Tracks host restored h.core h.reflects)
    (carriesOut : CarriesOut host workspace_id h.core plan affected core')
    (current : ∀ id session, h.core.sessions.find? id = some session →
      session.restored_from_draft = restored → plan.Touches host workspace_id h.core session →
      Current h plan session) :
    Tracks host restored core' (reflectCarried host workspace_id h.core plan affected h.reflects) := by
  obtain ⟨planned, sameDb, sameSessions, sameFiles, free, vacates, plans⟩ := carriesOut.planned_on
  obtain ⟨bundle, db, rfl⟩ := carriesOut.carries
  have apartPlanned := free.sessionsApart vacates plans
  have apart : SessionsApart h.core affected :=
    ⟨apartPlanned.distinct, sameSessions ▸ apartPlanned.vacant, apartPlanned.injective,
      apartPlanned.settled⟩
  have vacant : ∀ a ∈ affected, a.old_id ≠ a.new_id →
      h.core.db.readDraft workspace_id a.new_id = none := by
    intro a mem moves
    obtain ⟨disk, affects⟩ := (plans.affects a mem).2
    rw [← sameDb]
    exact free.vacant _ _ (lookup_of_moves affects.new_id moves) (Ne.symm moves)
  have reads : ∀ path, planned.bundle.read path = h.core.bundle.read path := by
    intro path
    unfold Bundle.read Bundle.file?
    rw [sameFiles]
  have carries : SessionsApart ⟨bundle, db, h.core.sessions⟩ affected :=
    ⟨apart.distinct, apart.vacant, apart.injective, apart.settled⟩
  intro id after found
  rcases carrySessions_find? carries found with
    ⟨a, mem, session, isOpen, ends, last, isLast, carried⟩ | ⟨here, left⟩
  · have own := note_id_of_find? isOpen
    have tracked := tracks _ _ isOpen
    have reflected : reflectCarried host workspace_id h.core plan affected h.reflects id =
        plan.rewriteBytes host last.old_id (h.reflects a.old_id) := by
      unfold reflectCarried
      rw [find?_held apart vacant mem ends isOpen, isLast]
    have last_mem := List.mem_of_getLast? isLast
    obtain ⟨last_mem, last_ends⟩ := List.mem_filter.mp last_mem
    have last_ends : last.new_id = id := of_decide_eq_true last_ends
    obtain ⟨disk, affects⟩ := (plans.affects a mem).2
    obtain ⟨last_disk, last_affects⟩ := (plans.affects last last_mem).2
    have isPath : a.old_path = session.absolute_path := by
      have located := normalComponents_of_notePath affects.old_path
      rw [← own, tracked.located] at located
      exact (Option.some.inj located).symm
    have read : h.core.bundle.read session.absolute_path = disk.map .text := by
      rw [← isPath, ← reads]
      exact readSource_spec affects.read
    have last_read : h.core.bundle.read last.old_path = last_disk.map .text := by
      rw [← reads]
      exact readSource_spec last_affects.read
    rw [reflected]
    refine ⟨?_, fun fresh => ?_, fun isRestored => ?_⟩
    · rw [carried.note_id]
      exact carried.located tracked.located
    · rw [carried.awaiting]
      exact tracked.filed (carried.restored.symm.trans fresh)
    · have touched := touches_of_affects affects sameDb sameSessions read isOpen
      have isCurrent := current _ _ isOpen (carried.restored.symm.trans isRestored) touched
      have same := disk_eq_of_ends apart vacant affects last_affects sameDb sameSessions mem last_mem
        (last_ends.trans ends.symm) isOpen read last_read isCurrent
      subst same
      rw [← own]
      exact based_of_current last_affects isCurrent read carried.awaiting carried.revision
  · have none_ : affected.find? (fun a => a.new_id = id && h.core.holds workspace_id a.old_id) =
        none := by
      apply List.find?_eq_none.mpr
      intro a mem selected
      simp only [Bool.and_eq_true, decide_eq_true_eq] at selected
      have moves : a.old_id ≠ a.new_id := fun stays => left a mem selected.1 (stays.trans selected.1)
      have taken := apart.vacant a mem moves
      rw [selected.1] at taken
      rw [show h.core.sessions.find? id = some after from here] at taken
      cases taken
    have unchanged : reflectCarried host workspace_id h.core plan affected h.reflects id =
        h.reflects id := by
      unfold reflectCarried
      rw [none_]
    rw [unchanged]
    exact tracks id after here

end Burlmd.Lifecycle
