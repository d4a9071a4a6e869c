import Burlmd.Lifecycle.Affected
import Burlmd.Lifecycle.History

/-!
# What a call leaves in the registry

Each call on an open Note replaces the one session it is about. A lifecycle operation
carries the sessions of the Notes it affects to their new ids.
-/

namespace Burlmd.Lifecycle

open Workspace
open Utf8 (Text)
open Okf (ConceptId)
open Index (WorkspaceId Database)
open Checked

variable {host : Host} {workspace_id : WorkspaceId} {core core' : Core} {session : NoteSession}
  {now : Int}

/-- The registry with one session put into it. -/
def Registers (core core' : Core) (session : NoteSession) : Prop :=
  ∀ id, core'.sessions.find? id =
    if session.note_id = id then some session else core.sessions.find? id

/-- The registry with some sessions taken out. -/
def Retires (core core' : Core) : Prop :=
  ∀ id session, core'.sessions.find? id = some session → core.sessions.find? id = some session

theorem registers_put {bundle : Bundle} {db : Database} :
    Registers core ⟨bundle, db, core.sessions.put session⟩ session :=
  fun _ => Table.find?_put

theorem Registers.put {bundle : Bundle} {db : Database} {session' : NoteSession}
    (registers : Registers core core' session) (same : session'.note_id = session.note_id) :
    Registers core ⟨bundle, db, core'.sessions.put session'⟩ session' := by
  intro id
  refine Table.find?_put.trans ?_
  by_cases own : session'.note_id = id
  · rw [if_pos own, if_pos own]
  · rw [if_neg own, if_neg own, registers id, if_neg (same ▸ own)]

theorem note_id_of_find? {id : ConceptId} (found : core.sessions.find? id = some session) :
    session.note_id = id := (Table.find?_eq_some_iff.mp found).2

theorem find?_discardSession {note_id id : ConceptId} :
    (discardSession core note_id).sessions.find? id =
      if id = note_id then none else core.sessions.find? id := by
  split
  · rename_i own
    apply Table.find?_eq_none_iff.mpr
    intro session mem isKey
    have other := of_decide_eq_false (Table.mem_delete.mp mem).2
    exact other (isKey.trans own)
  · rename_i other
    apply Table.find?_congr
    rintro session rfl
    exact Table.mem_delete.trans (and_iff_left (decide_eq_false other))

theorem retires_discardSession {note_id : ConceptId} : Retires core (discardSession core note_id) := by
  intro id session found
  rw [find?_discardSession] at found
  split at found
  · cases found
  · exact found

theorem Retires.trans {core'' : Core} (first : Retires core core') (second : Retires core' core'') :
    Retires core core'' := fun id session found => first id session (second id session found)

/-! ## Calls on an open Note -/

/-- An opening finds the session, or makes one from the file and the drafts row. -/
theorem openNoteSerialized_spec {note_id : ConceptId}
    (isOpen : openNoteSerialized host workspace_id core note_id = .ok (session, core')) :
    (core.sessions.find? note_id = some session ∧ core' = core) ∨
      (core.sessions.find? note_id = none ∧ session.note_id = note_id ∧
        core' = { core with sessions := core.sessions.put session } ∧
        notePath host core.bundle note_id = .ok session.absolute_path ∧
        session.restored_from_draft = (core.db.readDraft workspace_id note_id).isSome ∧
        session.awaiting_recreate = (core.bundle.read session.absolute_path).isNone ∧
        session.revision =
          ((core.bundle.read session.absolute_path).getD absentFile).hash host ∧
        (session.restored_from_draft = false → session.awaiting_recreate = false)) := by
  unfold openNoteSerialized at isOpen
  split at isOpen
  · rename_i found
    cases isOpen
    exact .inl ⟨found, rfl⟩
  · rename_i unregistered
    right
    obtain ⟨path, located, isOpen⟩ := bind_eq_ok.mp isOpen
    obtain ⟨on_disk, read, isOpen⟩ := bind_eq_ok.mp isOpen
    obtain ⟨⟨source, edit_seq⟩, start, isOpen⟩ := bind_eq_ok.mp isOpen
    cases isOpen
    have isRead : core.bundle.read path = on_disk := by
      unfold readBytes at read
      split at read
      · cases read
      · exact Except.ok.inj read
    refine ⟨unregistered, rfl, rfl, located, rfl, ?_, ?_, ?_⟩
    · rw [isRead]
    · rw [isRead]
    · intro fresh
      have noDraft : core.db.readDraft workspace_id note_id = none :=
        Option.not_isSome_iff_eq_none.mp (Bool.not_eq_true _ ▸ fresh)
      rw [noDraft] at start
      cases on_disk with
      | none => cases start
      | some contents => rfl

theorem edit_spec {what new_source : Text}
    (edited : edit workspace_id core session what new_source now = .ok core') :
    core'.bundle = core.bundle ∧ ∃ edited, Registers core core' edited ∧
      edited = { session with
        source := new_source, edit_seq := session.edit_seq + 1, session_edited := true,
        unwritten := true } := by
  obtain ⟨-, -, edited⟩ := bind_eq_ok.mp edited
  cases edited
  exact ⟨rfl, _, registers_put, rfl⟩

theorem reload_spec {conflicted : Bool}
    (reloaded : reload host workspace_id core session conflicted = .ok core') :
    core'.bundle = core.bundle ∧ ∃ contents after, core.bundle.read session.absolute_path = some contents ∧
      Registers core core' after ∧ after.note_id = session.note_id ∧
      after.absolute_path = session.absolute_path ∧ after.revision = contents.hash host ∧
      after.awaiting_recreate = false := by
  unfold reload at reloaded
  obtain ⟨on_disk, isRead, reloaded⟩ := bind_eq_ok.mp reloaded
  unfold readBytes at isRead
  split at isRead
  · cases isRead
  · cases on_disk with
    | none => cases reloaded
    | some contents =>
      obtain ⟨_, ⟨⟩, reloaded⟩ := bind_eq_ok.mp reloaded
      obtain ⟨source, -, reloaded⟩ := bind_eq_ok.mp reloaded
      cases reloaded
      exact ⟨rfl, contents, _, Except.ok.inj isRead, registers_put, rfl, rfl, rfl, rfl⟩

/-- A session after a tier 2 write that found its revision. -/
structure Written (host : Host) (session after : NoteSession) : Prop where
  note_id : after.note_id = session.note_id
  absolute_path : after.absolute_path = session.absolute_path
  restored : after.restored_from_draft = session.restored_from_draft
  revision : after.revision = (FileBytes.text session.source).hash host
  filed : after.awaiting_recreate = false

theorem settleWrite_spec {faults : WriteFaults} {written : NoteSession}
    (isWritten : Written host session written) (registers : Registers core core' written) :
    (settleWrite host workspace_id core' written faults).1.bundle = core'.bundle ∧
      ∃ after, Written host session after ∧
        Registers core (settleWrite host workspace_id core' written faults).1 after := by
  unfold settleWrite
  split
  · exact ⟨rfl, written, isWritten, registers⟩
  · dsimp only
    split
    · exact ⟨rfl, written, isWritten, registers⟩
    · split
      · exact ⟨rfl, written, isWritten, registers⟩
      · rename_i indexed isIndexed
        have same : indexed.bundle = core'.bundle ∧ indexed.sessions = core'.sessions := by
          unfold indexWrittenSource at isIndexed
          split at isIndexed
          · cases isIndexed
            exact ⟨rfl, rfl⟩
          · dsimp only at isIndexed
            split at isIndexed
            · cases isIndexed
              exact ⟨rfl, rfl⟩
            · cases isIndexed
        refine ⟨same.1, { written with last_error := none, unwritten := false }, ?_, ?_⟩
        · exact ⟨isWritten.note_id, isWritten.absolute_path, isWritten.restored, isWritten.revision,
            isWritten.filed⟩
        · rw [same.2]
          exact registers.put rfl

/-- How a flush ends: at the revision check, at a call that writes the file, or behind it. -/
inductive Flushes (host : Host) (workspace_id : WorkspaceId) (core : Core) (session : NoteSession)
    (now : Int) (faults : WriteFaults) : Prop
  | mismatched (error : AppError) (through : goesThrough host core session faults = false)
      (passes : passesCheck host core session = false)
      (mismatch : ∀ on_disk, readBytes host core.bundle session.absolute_path = .ok (some on_disk) →
        error = .revisionMismatch (on_disk.hash host))
      (ends : flush host workspace_id core session now faults =
        ({ core with sessions := core.sessions.put { session with last_error := some error } },
          .error error)) : Flushes host workspace_id core session now faults
  | refused (error : AppError) (bundle : Bundle)
      (through : goesThrough host core session faults = false)
      (passes : passesCheck host core session = true) (files : bundle.files = core.bundle.files)
      (ends : flush host workspace_id core session now faults =
        (⟨bundle, core.db, core.sessions.put { session with last_error := some error }⟩,
          .error error)) : Flushes host workspace_id core session now faults
  | written (on_disk : FileBytes) (after : NoteSession)
      (through : goesThrough host core session faults = true)
      (passes : passesCheck host core session = true) (isWritten : Written host session after)
      (bundle : (flush host workspace_id core session now faults).1.bundle =
        publishSource host core.bundle session on_disk now)
      (registers : Registers core (flush host workspace_id core session now faults).1 after) :
      Flushes host workspace_id core session now faults

/-- A write that is refused leaves the files. -/
theorem refusedWrite_files {faults : WriteFaults} {on_disk : FileBytes} {bundle : Bundle}
    {error : AppError}
    (refused : refusedWrite host core.bundle session on_disk faults = some (bundle, error)) :
    bundle.files = core.bundle.files := by
  unfold refusedWrite at refused
  dsimp only at refused
  split_ifs at refused
  · cases isDirectory : faults.directory with
    | some refusal =>
      rw [isDirectory] at refused
      cases refused
      rfl
    | none =>
      rw [isDirectory] at refused
      obtain ⟨_, -, same⟩ := Option.map_eq_some_iff.mp refused
      cases same
      rfl
  · obtain ⟨_, -, same⟩ := Option.map_eq_some_iff.mp refused
    cases same
    rfl

theorem flush_spec {faults : WriteFaults}
    (found : core.sessions.find? session.note_id = some session) :
    Flushes host workspace_id core session now faults := by
  have records : ∀ bundle error, writeLocked host workspace_id core session now faults =
      ({ core with bundle }, .error error) →
      flush host workspace_id core session now faults =
        (⟨bundle, core.db, core.sessions.put { session with last_error := some error }⟩,
          .error error) := by
    intro bundle error refused
    unfold flush recordError
    rw [refused]
    simp only [found]
  cases disk : diskOf host core.bundle session with
  | error error =>
    refine .mismatched error ?_ ?_ ?_ (records core.bundle error ?_)
    · unfold goesThrough
      rw [disk]
    · unfold passesCheck
      rw [disk]
    · intro on_disk read
      have isOk : diskOf host core.bundle session = .ok on_disk := by
        unfold diskOf
        rw [read]
        rfl
      rw [isOk] at disk
      cases disk
    · unfold writeLocked
      rw [disk]
  | ok on_disk =>
    by_cases current : on_disk.hash host = session.revision
    · have passes : passesCheck host core session = true := by
        unfold passesCheck
        rw [disk]
        exact decide_eq_true current
      cases refusal : refusedWrite host core.bundle session on_disk faults with
      | some stopped =>
        obtain ⟨bundle, error⟩ := stopped
        refine .refused error bundle ?_ passes (refusedWrite_files refusal) (records bundle error ?_)
        · unfold goesThrough
          simp only [disk, refusal, Option.isNone_some, Bool.and_false]
        · unfold writeLocked
          simp only [disk, ne_eq, current, not_true_eq_false, ↓reduceIte, refusal]
      | none =>
        have through : goesThrough host core session faults = true := by
          unfold goesThrough
          simp only [disk, refusal, current, decide_true, Option.isNone_none, Bool.and_true]
        have isWritten : Written host session { session with
            revision := (FileBytes.text session.source).hash host, awaiting_recreate := false } :=
          ⟨rfl, rfl, rfl, rfl, rfl⟩
        have settled := @settleWrite_spec host workspace_id core _ session faults _ isWritten
          (@registers_put core _ (publishSource host core.bundle session on_disk now) core.db)
        obtain ⟨bundle, after, isWritten, registers⟩ := settled
        have isWrite : writeLocked host workspace_id core session now faults = settleWrite host
            workspace_id ⟨publishSource host core.bundle session on_disk now, core.db,
              core.sessions.put { session with
                revision := (FileBytes.text session.source).hash host
                awaiting_recreate := false }⟩
            { session with
              revision := (FileBytes.text session.source).hash host, awaiting_recreate := false }
            faults := by
          unfold writeLocked
          simp only [disk, ne_eq, current, not_true_eq_false, ↓reduceIte, refusal]
        rw [← isWrite] at bundle registers
        have isFlush : ∃ after, Written host session after ∧
            (flush host workspace_id core session now faults).1.bundle =
              publishSource host core.bundle session on_disk now ∧
            Registers core (flush host workspace_id core session now faults).1 after := by
          unfold flush
          generalize writeLocked host workspace_id core session now faults = outcome at bundle registers ⊢
          obtain ⟨outcome, result⟩ := outcome
          cases result with
          | ok revision => exact ⟨after, isWritten, bundle, registers⟩
          | error error =>
            have here : outcome.sessions.find? session.note_id = some after := by
              rw [registers, if_pos isWritten.note_id]
            dsimp only
            unfold recordError
            simp only [here]
            refine ⟨{ after with last_error := some error }, ?_, bundle, registers.put rfl⟩
            exact ⟨isWritten.note_id, isWritten.absolute_path, isWritten.restored,
              isWritten.revision, isWritten.filed⟩
        obtain ⟨after, isWritten, bundle, registers⟩ := isFlush
        exact .written on_disk after through passes isWritten bundle registers
    · have refused : writeLocked host workspace_id core session now faults =
          (core, .error (.revisionMismatch (on_disk.hash host))) := by
        unfold writeLocked
        simp only [disk, ne_eq, current, not_false_eq_true, ↓reduceIte]
      refine .mismatched (.revisionMismatch (on_disk.hash host)) ?_ ?_ ?_ (records core.bundle _ refused)
      · unfold goesThrough
        simp only [disk, current, decide_false, Bool.false_and]
      · unfold passesCheck
        rw [disk]
        exact decide_eq_false current
      · intro on_disk' read
        have isOk : diskOf host core.bundle session = .ok on_disk' := by
          unfold diskOf
          rw [read]
          rfl
        rw [isOk] at disk
        cases disk
        rfl

theorem find?_self {id : ConceptId} (found : core.sessions.find? id = some session) :
    core.sessions.find? session.note_id = some session := by
  rw [note_id_of_find? found]
  exact found

/-- A close without anything to write ends the session; another one flushes first. -/
theorem close_spec {faults : WriteFaults} :
    (writesOnClose session = false ∧
      close host workspace_id core session now faults = (discardSession core session.note_id, .ok ())) ∨
      (writesOnClose session = true ∧
        (Retires (flush host workspace_id core session now faults).1
            (close host workspace_id core session now faults).1 ∧
          (close host workspace_id core session now faults).1.bundle =
            (flush host workspace_id core session now faults).1.bundle) ∧
        ∀ error, (flush host workspace_id core session now faults).2 = .error error →
          (∀ message, error ≠ .notFound message) →
          close host workspace_id core session now faults =
            ((flush host workspace_id core session now faults).1, .error error)) := by
  unfold close writesOnClose
  by_cases dirty : session.session_edited = true ∨ session.unwritten = true
  · right
    rw [if_pos dirty]
    generalize flush host workspace_id core session now faults = outcome
    obtain ⟨flushed, result⟩ := outcome
    refine ⟨by simpa using dirty, ?_⟩
    cases result with
    | ok revision =>
      refine ⟨⟨?_, rfl⟩, fun error failed => by cases failed⟩
      exact @retires_discardSession { flushed with db := _ } session.note_id
    | error error =>
      cases error with
      | notFound message =>
        refine ⟨⟨retires_discardSession, rfl⟩, fun error failed kept => ?_⟩
        cases failed
        exact absurd rfl (kept message)
      | _ =>
        refine ⟨⟨fun _ _ found => found, rfl⟩, fun error failed _ => ?_⟩
        cases failed
        rfl
  · left
    rw [if_neg dirty]
    exact ⟨by simpa using dirty, rfl⟩

end Burlmd.Lifecycle
