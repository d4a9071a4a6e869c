import Burlmd.Lifecycle.Carried
import Burlmd.Lifecycle.Journal

/-!
# All or nothing

A re-identification as the code runs it, call by call and with a journal. It ends in what the plan
says, or it leaves the bundle as it found it; the one thing that stays of a failure is a directory on
the way to the target.
-/

namespace Burlmd.Lifecycle

open Workspace
open Utf8 (Text)
open Okf (ConceptId)
open Index (WorkspaceId)
open Checked

/-- Why a step after the files were written did not happen, and what the system refuses. -/
structure JournalFaults where
  /-- To the calls that write. -/
  refusals : List (Option OsError)
  /-- To the calls that settle the journal. -/
  settle_refusals : List (Option OsError)
  /-- A statement of the publication that fails. -/
  publication : Option AppError

variable (host : Host) (workspace_id : WorkspaceId)

/-- Texts go to the paths that the Notes still have. -/
def overwriteAll (now : Int) : List Affected → FileJournal → FileJournal × Except AppError Unit
  | [], journal => (journal, .ok ())
  | a :: rest, journal =>
      match a.new_file with
      | none => overwriteAll now rest journal
      | some source =>
          match journal.overwrite host a.old_path (.text source) now with
          | (journal, .error error) => (journal, .error error)
          | (journal, .ok ()) => overwriteAll now rest journal

def renameAll : List Affected → FileJournal → FileJournal × Except AppError Unit
  | [], journal => (journal, .ok ())
  | a :: rest, journal =>
      if a.old_path ≠ a.new_path then
        match journal.rename host a.old_path a.new_path with
        | (journal, .error error) => (journal, .error error)
        | (journal, .ok ()) => renameAll rest journal
      else renameAll rest journal

def writeFilesLogged (affected : List Affected) (plan : Reidentify) (now : Int) (journal : FileJournal) :
    FileJournal × Except AppError Unit :=
  match overwriteAll host now affected journal with
  | (journal, .error error) => (journal, .error error)
  | (journal, .ok ()) =>
      match plan.directory_rename with
      | some rename => journal.rename host rename.old_absolute rename.new_absolute
      | none => renameAll host affected journal

/-- An error is returned behind a rollback. -/
def undone (core : Core) (journal : FileJournal) (now : Int) (faults : JournalFaults) (error : AppError) :
    Core × Except AppError LifecycleEffects :=
  let answer := rolledBack host ⟨⟨journal.disk.bundle, faults.settle_refusals⟩, journal.steps⟩ now error
  ({ core with bundle := answer.1.disk.bundle }, .error answer.2)

/-- The rows of what was written, and then the sessions. -/
def publishLogged (core : Core) (plan : Reidentify) (affected : List Affected) (now : Int)
    (faults : JournalFaults) (journal : FileJournal) : Core × Except AppError LifecycleEffects :=
  match indexedNotes host journal.disk.bundle affected with
  | .error error => undone host core journal now faults error
  | .ok indexed =>
      match faults.publication, rewriteIndex host workspace_id core.db plan affected indexed now with
      | some error, _ => undone host core journal now faults error
      | none, none => undone host core journal now faults (.databaseError [])
      | none, some db =>
          (carrySessions host { core with bundle := journal.disk.bundle, db } affected,
            .ok (plan.effects affected))

def applyReidentifyLocked (core : Core) (plan : Reidentify) (now : Int) (faults : JournalFaults) :
    Core × Except AppError LifecycleEffects :=
  match plan.planAffected host workspace_id core with
  | .error error => (core, .error error)
  | .ok affected =>
      match writeFilesLogged host affected plan now ⟨⟨core.bundle, faults.refusals⟩, []⟩ with
      | (journal, .error error) => undone host core journal now faults error
      | (journal, .ok ()) => publishLogged host workspace_id core plan affected now faults journal

variable {host workspace_id} {core core' : Core} {plan : Reidentify} {affected : List Affected}
  {now : Int} {journal journal' : FileJournal} {result : Except AppError Unit}
  {tree : PathTree Name Entry}

/-! ## Writing -/

/-- A Note whose file is rewritten has one. -/
def Filed (tree : PathTree Name Entry) (affected : List Affected) : Prop :=
  ∀ a ∈ affected, a.new_file.isSome → ∃ contents, tree a.old_path = some (.file contents)

/-- What a journal keeps while texts are written. -/
structure Writing (start : PathTree Name Entry) (affected : List Affected) (moves : List (Path × Path))
    (journal : FileJournal) : Prop where
  logs : journal.Logs start
  prepared : journal.Prepared
  filed : Filed journal.disk.bundle.entry affected
  clear : ∀ move ∈ moves, Clear journal.disk.bundle.entry move.1 move.2

theorem Clear.put_file {path source target : Path} {contents contents' : FileBytes}
    (clear : Clear tree source target) (file : tree path = some (.file contents)) :
    Clear (tree.put path (.file contents')) source target := by
  rcases clear with same | ⟨root, free⟩
  · exact Or.inl same
  · refine Or.inr ⟨root, ?_⟩
    intro other under
    rw [PathTree.put_apply, if_neg]
    · exact free other under
    · rintro rfl
      rw [free _ under] at file
      cases file

theorem Writing.overwrite {start : PathTree Name Entry} {moves : List (Path × Path)} {a : Affected}
    {rest : List Affected} {contents : FileBytes} (writing : Writing start (a :: rest) moves journal)
    (rewritten : a.new_file.isSome)
    (done : journal.overwrite host a.old_path contents now = (journal', result)) :
    Writing start rest moves journal' := by
  rcases writing.filed a List.mem_cons_self rewritten with ⟨old, file⟩
  have kept : Filed journal.disk.bundle.entry rest := fun b mem =>
    writing.filed b (List.mem_cons_of_mem _ mem)
  refine ⟨writing.logs.overwrite done, writing.prepared.overwrite done, ?_, ?_⟩
  · rcases overwrite_cases done with ⟨-, same, -⟩ | ⟨-, written, -⟩
    · rw [same]
      exact kept
    · rw [(Bundle.writeFile_eq_some written).2.2.2.2]
      intro b mem isSome
      rw [PathTree.put_apply]
      by_cases same : b.old_path = a.old_path
      · rw [if_pos same]
        exact ⟨contents, rfl⟩
      · rw [if_neg same]
        exact kept b mem isSome
  · intro move mem
    rcases overwrite_cases done with ⟨-, same, -⟩ | ⟨-, written, -⟩
    · rw [same]
      exact writing.clear move mem
    · rw [(Bundle.writeFile_eq_some written).2.2.2.2]
      exact (writing.clear move mem).put_file file

/-- The texts that the plan has, put where the Notes are. -/
def putTexts (now : Int) (bundle : Bundle) (affected : List Affected) : Bundle :=
  affected.foldl
    (fun bundle a =>
      a.new_file.elim bundle fun source => bundle.atomicWrite a.old_path (.text source) now)
    bundle

theorem overwriteAll_spec {start : PathTree Name Entry} {moves : List (Path × Path)}
    (writing : Writing start affected moves journal)
    (done : overwriteAll host now affected journal = (journal', result)) :
    Writing start [] moves journal' ∧
      (result = .ok () → journal'.disk.bundle = putTexts now journal.disk.bundle affected) := by
  induction affected generalizing journal with
  | nil =>
    obtain ⟨rfl, rfl⟩ := Prod.mk.inj done
    exact ⟨writing, fun _ => rfl⟩
  | cons a rest ih =>
    unfold overwriteAll at done
    cases isNew : a.new_file with
    | none =>
      rw [isNew] at done
      have next : Writing start rest moves journal :=
        ⟨writing.logs, writing.prepared, fun b mem => writing.filed b (List.mem_cons_of_mem _ mem),
          writing.clear⟩
      rcases ih next done with ⟨after, same⟩
      refine ⟨after, ?_⟩
      intro isOk
      rw [same isOk]
      unfold putTexts
      rw [List.foldl_cons, isNew]
      rfl
    | some source =>
      rw [isNew] at done
      dsimp only at done
      have rewritten : a.new_file.isSome := Option.isSome_of_eq_some isNew
      cases first : journal.overwrite host a.old_path (.text source) now with
      | mk next answer =>
        rw [first] at done
        have after := writing.overwrite rewritten first
        cases answer with
        | error error =>
          obtain ⟨rfl, rfl⟩ := Prod.mk.inj done
          refine ⟨⟨after.logs, after.prepared, fun _ mem => absurd mem List.not_mem_nil, after.clear⟩, ?_⟩
          intro isOk
          cases isOk
        | ok _ =>
          rcases ih after done with ⟨after, same⟩
          refine ⟨after, ?_⟩
          intro isOk
          rw [same isOk]
          rcases overwrite_cases first with ⟨-, -, error, isError⟩ | ⟨-, written, -⟩
          · cases isError
          · rw [(Bundle.writeFile_eq_some written).2.2.2.1]
            unfold putTexts
            rw [List.foldl_cons, isNew]
            rfl

/-! ## Moving -/

theorem nodup_inits {α : Type} (list : List α) : list.inits.Nodup := by
  induction list with
  | nil => exact List.nodup_singleton _
  | cons first rest ih =>
    rw [List.inits_cons, List.nodup_cons]
    refine ⟨?_, ih.map (List.cons_injective)⟩
    intro mem
    rcases List.mem_map.mp mem with ⟨tail, -, same⟩
    cases same

/-- What `create_dir_all` creates is what was missing. -/
theorem createLevels_done {levels : List Path} {disk disk' : Disk} (distinct : levels.Nodup)
    (below : ∀ level ∈ levels, level ≠ [])
    (created : createLevels host levels disk = (disk', none)) :
    disk'.bundle = { disk.bundle with
      directories := disk.bundle.directories ++
        levels.filter fun level => level ∉ disk.bundle.directories } := by
  induction levels generalizing disk with
  | nil =>
    obtain rfl := (Prod.mk.inj created).1
    rw [List.filter_nil, List.append_nil]
  | cons level rest ih =>
    rcases List.nodup_cons.mp distinct with ⟨fresh, distinct⟩
    have below' : ∀ level ∈ rest, level ≠ [] := fun level mem => below level (List.mem_cons_of_mem _ mem)
    unfold createLevels at created
    by_cases present : disk.bundle.isDirectory level = true
    · rw [if_pos present] at created
      have listed : level ∈ disk.bundle.directories := by
        have isDirectory := Bundle.isDirectory_iff.mp present
        unfold Bundle.entry at isDirectory
        rw [if_neg (below level List.mem_cons_self)] at isDirectory
        cases read : disk.bundle.read level with
        | some contents =>
          rw [read] at isDirectory
          cases isDirectory
        | none =>
          rw [read] at isDirectory
          dsimp only at isDirectory
          by_contra absent
          rw [if_neg absent] at isDirectory
          by_cases link : level ∈ disk.bundle.symlinks
          · rw [if_pos link] at isDirectory
            cases isDirectory
          · rw [if_neg link] at isDirectory
            cases isDirectory
      have passed : (level :: rest).filter (fun level => level ∉ disk.bundle.directories) =
          rest.filter fun level => level ∉ disk.bundle.directories :=
        List.filter_cons_of_neg fun absent => of_decide_eq_true absent listed
      rw [ih distinct below' created, passed]
    · rw [if_neg present] at created
      cases called : disk.call host level (·.createDir level) with
      | mk next answer =>
        rw [called] at created
        cases answer with
        | some e => cases (Prod.mk.inj created).2
        | none =>
          rcases Bundle.createDir_eq_some (Disk.call_done called) with ⟨vacant, -, same, -⟩
          have absent : level ∉ disk.bundle.directories := (Bundle.vacant_of_entry vacant).2.2.1
          have passed : (level :: rest).filter (fun level => level ∉ disk.bundle.directories) =
              level :: rest.filter fun level => level ∉ disk.bundle.directories :=
            List.filter_cons_of_pos (decide_eq_true absent)
          have others : (rest.filter fun other => other ∉ disk.bundle.directories ++ [level]) =
              rest.filter fun other => other ∉ disk.bundle.directories := by
            apply List.filter_congr
            intro other mem
            have away : other ≠ level := fun same => fresh (same ▸ mem)
            simp only [List.mem_append, List.mem_singleton, away, or_false]
          rw [ih distinct below' created, same]
          dsimp only
          rw [passed, others, List.append_assoc, List.singleton_append]

/-- A rename that went through is the rename of the plan. -/
theorem rename_ok {source target : Path} (moved : source ≠ target)
    (clear : Clear journal.disk.bundle.entry source target)
    (done : journal.rename host source target = (journal', .ok ())) :
    journal'.disk.bundle = (journal.disk.bundle.createDirAll target.dropLast).rename source target := by
  rcases rename_cases done with ⟨disk, refused, created, ⟨-, -, error, isError⟩ | ⟨isNone, renamed, -, -⟩⟩
  · cases isError
  · subst isNone
    have distinct : target.dropLast.inits.tail.Nodup := (nodup_inits _).sublist (List.tail_sublist _)
    have below : ∀ level ∈ target.dropLast.inits.tail, level ≠ [] := by
      intro level mem
      cases shape : target.dropLast with
      | nil =>
        rw [shape] at mem
        cases mem
      | cons first rest =>
        rw [shape, List.inits_cons, List.tail_cons] at mem
        rcases List.mem_map.mp mem with ⟨_, -, rfl⟩
        exact List.cons_ne_nil _ _
    rcases clear.created created with same | ⟨root, free⟩
    · exact absurd same moved
    · rw [((Bundle.renameEntry_eq_some renamed).2.2 moved).2.2.2,
        Bundle.removeTree_vacant (Bundle.vacant_of_free free), createLevels_done distinct below created]
      rfl

def Affected.moves (a : Affected) : Bool := a.old_path ≠ a.new_path

/-- The moves of a plan, of which there is one at most. -/
def movesOf (affected : List Affected) : List (Path × Path) :=
  (affected.filter Affected.moves).map fun a => (a.old_path, a.new_path)

/-- The entries move that the plan moves. -/
def moveFiles (bundle : Bundle) (affected : List Affected) : Bundle :=
  affected.foldl
    (fun bundle a =>
      if a.old_path ≠ a.new_path then
        (bundle.createDirAll a.new_path.dropLast).rename a.old_path a.new_path
      else bundle)
    bundle

theorem movesOf_cons (a : Affected) (rest : List Affected) : movesOf (a :: rest) =
    if a.old_path ≠ a.new_path then (a.old_path, a.new_path) :: movesOf rest else movesOf rest := by
  unfold movesOf
  by_cases moved : a.old_path ≠ a.new_path
  · have moves : a.moves = true := decide_eq_true moved
    rw [if_pos moved, List.filter_cons_of_pos moves, List.map_cons]
  · have stays : ¬ a.moves = true := fun moves => moved (of_decide_eq_true moves)
    rw [if_neg moved, List.filter_cons_of_neg stays]

theorem renameAll_still (still : movesOf affected = []) (journal : FileJournal) :
    renameAll host affected journal = (journal, .ok ()) := by
  induction affected with
  | nil => rfl
  | cons a rest ih =>
    rw [movesOf_cons] at still
    split_ifs at still with moved
    unfold renameAll
    rw [if_neg moved]
    exact ih still

theorem moveFiles_still (still : movesOf affected = []) (bundle : Bundle) :
    moveFiles bundle affected = bundle := by
  induction affected with
  | nil => rfl
  | cons a rest ih =>
    rw [movesOf_cons] at still
    split_ifs at still with moved
    unfold moveFiles
    rw [List.foldl_cons, if_neg moved]
    exact ih still

/-- One rename is all that the moves of a plan come to. -/
theorem renameAll_one {source target : Path} (one : movesOf affected = [(source, target)]) :
    renameAll host affected journal = journal.rename host source target := by
  induction affected with
  | nil => cases one
  | cons a rest ih =>
    rw [movesOf_cons] at one
    unfold renameAll
    by_cases moved : a.old_path ≠ a.new_path
    · rw [if_pos moved] at one ⊢
      obtain ⟨same, still⟩ := List.cons.inj one
      obtain ⟨rfl, rfl⟩ := Prod.mk.inj same
      cases done : journal.rename host a.old_path a.new_path with
      | mk next answer =>
        cases answer with
        | error error => rfl
        | ok _ => exact renameAll_still still next
    · rw [if_neg moved] at one ⊢
      exact ih one

theorem moveFiles_one {source target : Path} (one : movesOf affected = [(source, target)])
    (bundle : Bundle) : source ≠ target ∧
      moveFiles bundle affected = (bundle.createDirAll target.dropLast).rename source target := by
  induction affected with
  | nil => cases one
  | cons a rest ih =>
    rw [movesOf_cons] at one
    unfold moveFiles
    rw [List.foldl_cons]
    by_cases moved : a.old_path ≠ a.new_path
    · rw [if_pos moved] at one ⊢
      obtain ⟨same, still⟩ := List.cons.inj one
      obtain ⟨rfl, rfl⟩ := Prod.mk.inj same
      exact ⟨moved, moveFiles_still still _⟩
    · rw [if_neg moved] at one ⊢
      exact ih one

/-! ## Everything written -/

theorem writeFiles_eq (bundle : Bundle) (plan : Reidentify) (affected : List Affected) (now : Int) :
    writeFiles bundle plan affected now =
      match plan.directory_rename with
      | some rename =>
          ((putTexts now bundle affected).createDirAll rename.new_absolute.dropLast).rename
            rename.old_absolute rename.new_absolute
      | none => moveFiles (putTexts now bundle affected) affected :=
  rfl

/-- Where a plan moves an entry, and that it moves one at most. -/
inductive Moves (plan : Reidentify) (affected : List Affected) : List (Path × Path) → Prop
  | directory (rename : DirectoryRename) : plan.directory_rename = some rename →
      rename.old_absolute ≠ rename.new_absolute →
      Moves plan affected [(rename.old_absolute, rename.new_absolute)]
  | still : plan.directory_rename = none → movesOf affected = [] → Moves plan affected []
  | note (source target : Path) : plan.directory_rename = none → movesOf affected = [(source, target)] →
      Moves plan affected [(source, target)]

theorem FileJournal.rename_spec {start : PathTree Name Entry} {source target : Path}
    (writing : Writing start [] [(source, target)] journal)
    (done : journal.rename host source target = (journal', result)) :
    journal'.Logs start ∧ Undoable journal'.steps journal'.disk.tree :=
  have clear := writing.clear _ List.mem_cons_self
  ⟨writing.logs.rename clear done, writing.prepared.rename clear done⟩

/-- Whether it goes through or stops, the writing of a plan can be undone; and it writes what the plan
has. -/
theorem writeFilesLogged_spec {start : PathTree Name Entry} {moves : List (Path × Path)}
    (isMoves : Moves plan affected moves) (writing : Writing start affected moves journal)
    (done : writeFilesLogged host affected plan now journal = (journal', result)) :
    journal'.Logs start ∧ Undoable journal'.steps journal'.disk.tree ∧
      (result = .ok () → journal'.disk.bundle = writeFiles journal.disk.bundle plan affected now) := by
  unfold writeFilesLogged at done
  cases first : overwriteAll host now affected journal with
  | mk next answer =>
    rw [first] at done
    rcases overwriteAll_spec writing first with ⟨after, texts⟩
    cases answer with
    | error error =>
      obtain ⟨rfl, rfl⟩ := Prod.mk.inj done
      refine ⟨after.logs, after.prepared.undoable, ?_⟩
      intro isOk
      cases isOk
    | ok _ =>
      dsimp only at done
      rw [writeFiles_eq, ← texts rfl]
      cases isMoves with
      | directory rename isRename moved =>
        rw [isRename] at done ⊢
        rcases FileJournal.rename_spec after done with ⟨logs, undoable⟩
        refine ⟨logs, undoable, ?_⟩
        rintro rfl
        exact rename_ok moved (after.clear _ List.mem_cons_self) done
      | still isNone still =>
        rw [isNone] at done ⊢
        dsimp only at done ⊢
        rw [renameAll_still still] at done
        obtain ⟨rfl, rfl⟩ := Prod.mk.inj done
        refine ⟨after.logs, after.prepared.undoable, ?_⟩
        intro _
        exact (moveFiles_still still _).symm
      | note source target isNone one =>
        rw [isNone] at done ⊢
        rcases moveFiles_one one next.disk.bundle with ⟨moved, same⟩
        dsimp only at done ⊢
        rw [renameAll_one one] at done
        rcases FileJournal.rename_spec after done with ⟨logs, undoable⟩
        refine ⟨logs, undoable, ?_⟩
        rintro rfl
        rw [same]
        exact rename_ok moved (after.clear _ List.mem_cons_self) done

/-! ## Why it stops -/

/-- The one entry that a plan moves, if it moves one. -/
def Reidentify.moves (plan : Reidentify) (affected : List Affected) : List (Path × Path) :=
  match plan.directory_rename with
  | some rename => [(rename.old_absolute, rename.new_absolute)]
  | none => movesOf affected

/-- The error of the call that stops the writing of a plan, with what the system answers to it. The
call is the first that it refuses of its own accord, or a move that cannot be made. -/
inductive Refused (host : Host) (refusals : List (Option OsError)) (plan : Reidentify)
    (affected : List Affected) : AppError → Prop
  | read {a : Affected} {e : OsError} (mem : a ∈ affected) (rewritten : a.new_file.isSome)
      (refused : firstRefusal refusals = some e) :
      Refused host refusals plan affected
        (.ioError ("read ".toList ++ shownPath host a.old_path ++ ": ".toList ++ e.reason))
  | write {a : Affected} {e : OsError} (mem : a ∈ affected) (rewritten : a.new_file.isSome)
      (refused : firstRefusal refusals = some e) :
      Refused host refusals plan affected (io_error host a.old_path e)
  | create {source target : Path} {e : OsError} (moved : (source, target) ∈ plan.moves affected)
      (refused : firstRefusal refusals = some e ∨
        ∃ level ∈ target.dropLast.inits.tail, e = ⟨false, host.os_error (level.map Name.text)⟩) :
      Refused host refusals plan affected
        (.ioError ("create ".toList ++ shownPath host target.dropLast ++ ": ".toList ++ e.reason))
  | rename {source target : Path} {e : OsError} (moved : (source, target) ∈ plan.moves affected)
      (refused : firstRefusal refusals = some e ∨
        e = ⟨false, host.os_error (source.map Name.text)⟩) :
      Refused host refusals plan affected
        (.ioError ("rename ".toList ++ shownPath host source ++ " to ".toList ++
          shownPath host target ++ ": ".toList ++ e.reason))

/-- Why a re-identification fails: there is no plan for its Notes, a call is refused, the rows of
what was written cannot be derived, or they are not published. -/
inductive Stopped (host : Host) (workspace_id : WorkspaceId) (core : Core) (plan : Reidentify)
    (now : Int) (faults : JournalFaults) : AppError → Prop
  | planning {error : AppError} (refused : plan.planAffected host workspace_id core = .error error) :
      Stopped host workspace_id core plan now faults error
  | writing {affected : List Affected} {error : AppError}
      (planned : plan.planAffected host workspace_id core = .ok affected)
      (refused : Refused host faults.refusals plan affected error) :
      Stopped host workspace_id core plan now faults error
  | derivation {affected : List Affected} {error : AppError}
      (planned : plan.planAffected host workspace_id core = .ok affected)
      (refused : indexedNotes host (writeFiles core.bundle plan affected now) affected = .error error) :
      Stopped host workspace_id core plan now faults error
  | publication {affected : List Affected} {indexed : List Index.IndexedNote} {error : AppError}
      (planned : plan.planAffected host workspace_id core = .ok affected)
      (derived : indexedNotes host (writeFiles core.bundle plan affected now) affected = .ok indexed)
      (refused : faults.publication = some error) :
      Stopped host workspace_id core plan now faults error
  | rows {affected : List Affected} {indexed : List Index.IndexedNote}
      (planned : plan.planAffected host workspace_id core = .ok affected)
      (derived : indexedNotes host (writeFiles core.bundle plan affected now) affected = .ok indexed)
      (unfaulted : faults.publication = none)
      (refused : rewriteIndex host workspace_id core.db plan affected indexed now = none) :
      Stopped host workspace_id core plan now faults (.databaseError [])

theorem FileJournal.overwrite_passes {path : Path} {contents : FileBytes}
    (done : journal.overwrite host path contents now = (journal', .ok ())) :
    firstRefusal journal'.disk.refusals = firstRefusal journal.disk.refusals := by
  unfold FileJournal.overwrite at done
  cases isRead : journal.disk.call host path (readable path) with
  | mk disk refused =>
    rw [isRead] at done
    cases refused with
    | some e => cases (Prod.mk.inj done).2
    | none =>
      dsimp only at done
      cases written : disk.call host path (·.writeFile path contents now) with
      | mk next refused =>
        rw [written] at done
        cases refused with
        | some e => cases (Prod.mk.inj done).2
        | none =>
          obtain rfl := (Prod.mk.inj done).1
          rw [← Disk.call_passes isRead]
          exact Disk.call_passes written

/-- A file that is there is overwritten, unless the system refuses one of the two calls. -/
theorem FileJournal.overwrite_error {path : Path} {contents old : FileBytes} {error : AppError}
    (rooted : journal.disk.bundle.entry.Rooted Entry.IsDirectory)
    (file : journal.disk.bundle.entry path = some (.file old))
    (done : journal.overwrite host path contents now = (journal', .error error)) :
    ∃ e, firstRefusal journal.disk.refusals = some e ∧
      (error = .ioError ("read ".toList ++ shownPath host path ++ ": ".toList ++ e.reason) ∨
        error = io_error host path e) := by
  have reads : readable path journal.disk.bundle ≠ none := by
    unfold readable
    rw [file]
    exact Option.some_ne_none _
  have writes : journal.disk.bundle.writeFile path contents now ≠ none := by
    rcases List.eq_nil_or_concat path with rfl | ⟨above, name, rfl⟩
    · rw [Bundle.entry_root] at file
      cases file
    · rw [List.concat_eq_append] at file ⊢
      rcases rooted above name (Option.isSome_of_eq_some file) with ⟨_, parent, rfl⟩
      unfold Bundle.writeFile
      rw [file]
      dsimp only
      rw [List.dropLast_concat, if_pos (Bundle.isDirectory_iff.mpr parent)]
      exact Option.some_ne_none _
  unfold FileJournal.overwrite at done
  cases isRead : journal.disk.call host path (readable path) with
  | mk disk refused =>
    rw [isRead] at done
    cases refused with
    | some e =>
      cases done
      rcases Disk.call_answer isRead with refused | ⟨isNone, -⟩
      · exact ⟨e, refused, .inl rfl⟩
      · exact absurd isNone reads
    | none =>
      rcases readable_eq_some (Disk.call_done isRead) with ⟨same, -⟩
      dsimp only at done
      cases written : disk.call host path (·.writeFile path contents now) with
      | mk next refused =>
        rw [written] at done
        cases refused with
        | none => cases (Prod.mk.inj done).2
        | some e =>
          cases done
          rw [← Disk.call_passes isRead]
          rcases Disk.call_answer written with refused | ⟨isNone, -⟩
          · exact ⟨e, refused, .inr rfl⟩
          · rw [same] at isNone
            exact absurd isNone writes

theorem overwriteAll_passes (done : overwriteAll host now affected journal = (journal', .ok ())) :
    firstRefusal journal'.disk.refusals = firstRefusal journal.disk.refusals := by
  induction affected generalizing journal with
  | nil =>
    obtain rfl := (Prod.mk.inj done).1
    rfl
  | cons a rest ih =>
    unfold overwriteAll at done
    cases isNew : a.new_file with
    | none =>
      rw [isNew] at done
      exact ih done
    | some source =>
      rw [isNew] at done
      dsimp only at done
      cases first : journal.overwrite host a.old_path (.text source) now with
      | mk next answer =>
        rw [first] at done
        cases answer with
        | error error => cases (Prod.mk.inj done).2
        | ok _ =>
          rw [ih done]
          exact FileJournal.overwrite_passes first

theorem overwriteAll_error {start : PathTree Name Entry} {moves : List (Path × Path)}
    {error : AppError} (writing : Writing start affected moves journal)
    (done : overwriteAll host now affected journal = (journal', .error error)) :
    ∃ a ∈ affected, a.new_file.isSome ∧ ∃ e, firstRefusal journal.disk.refusals = some e ∧
      (error = .ioError ("read ".toList ++ shownPath host a.old_path ++ ": ".toList ++ e.reason) ∨
        error = io_error host a.old_path e) := by
  induction affected generalizing journal with
  | nil => cases (Prod.mk.inj done).2
  | cons a rest ih =>
    unfold overwriteAll at done
    cases isNew : a.new_file with
    | none =>
      rw [isNew] at done
      have next : Writing start rest moves journal :=
        ⟨writing.logs, writing.prepared, fun b mem => writing.filed b (List.mem_cons_of_mem _ mem),
          writing.clear⟩
      rcases ih next done with ⟨b, mem, told⟩
      exact ⟨b, List.mem_cons_of_mem _ mem, told⟩
    | some source =>
      rw [isNew] at done
      dsimp only at done
      have rewritten : a.new_file.isSome := Option.isSome_of_eq_some isNew
      cases first : journal.overwrite host a.old_path (.text source) now with
      | mk next answer =>
        rw [first] at done
        cases answer with
        | error refused =>
          cases done
          rcases writing.filed a List.mem_cons_self rewritten with ⟨old, file⟩
          exact ⟨a, List.mem_cons_self, rewritten,
            FileJournal.overwrite_error writing.prepared.rooted file first⟩
        | ok _ =>
          rcases ih (writing.overwrite rewritten first) done with ⟨b, mem, told⟩
          rw [FileJournal.overwrite_passes first] at told
          exact ⟨b, List.mem_cons_of_mem _ mem, told⟩

/-- A move that stops does so on the way to its target, or at the rename. -/
theorem FileJournal.rename_error {source target : Path} {error : AppError}
    {refusals : List (Option OsError)} (moved : (source, target) ∈ plan.moves affected)
    (passes : firstRefusal journal.disk.refusals = firstRefusal refusals)
    (done : journal.rename host source target = (journal', .error error)) :
    Refused host refusals plan affected error := by
  unfold FileJournal.rename at done
  cases created : createLevels host target.dropLast.inits.tail journal.disk with
  | mk disk refused =>
    rw [created] at done
    cases refused with
    | some e =>
      cases done
      have answer := createLevels_answer created
      rw [passes] at answer
      exact .create moved answer
    | none =>
      dsimp only at done
      cases renamed : disk.call host source (·.renameEntry source target) with
      | mk next refused =>
        rw [renamed] at done
        cases refused with
        | none => cases (Prod.mk.inj done).2
        | some e =>
          cases done
          have answer := Disk.call_answer renamed
          rw [createLevels_passes created, passes] at answer
          exact .rename moved (answer.imp_right And.right)

theorem writeFilesLogged_error {start : PathTree Name Entry} {moves : List (Path × Path)}
    {error : AppError} (isMoves : Moves plan affected moves)
    (writing : Writing start affected moves journal)
    (done : writeFilesLogged host affected plan now journal = (journal', .error error)) :
    Refused host journal.disk.refusals plan affected error := by
  unfold writeFilesLogged at done
  cases first : overwriteAll host now affected journal with
  | mk next answer =>
    rw [first] at done
    cases answer with
    | error refused =>
      cases done
      rcases overwriteAll_error writing first with ⟨a, mem, rewritten, e, answer, rfl | rfl⟩
      · exact .read mem rewritten answer
      · exact .write mem rewritten answer
    | ok _ =>
      have passes := overwriteAll_passes first
      dsimp only at done
      cases isMoves with
      | directory rename isRename moved =>
        rw [isRename] at done
        refine FileJournal.rename_error ?_ passes done
        unfold Reidentify.moves
        rw [isRename]
        exact List.mem_cons_self
      | still isNone still =>
        rw [isNone] at done
        dsimp only at done
        rw [renameAll_still still] at done
        cases (Prod.mk.inj done).2
      | note source target isNone one =>
        rw [isNone] at done
        dsimp only at done
        rw [renameAll_one one] at done
        refine FileJournal.rename_error ?_ passes done
        unfold Reidentify.moves
        rw [isNone, one]
        exact List.mem_cons_self

/-! ## What the plans of the operations move -/

/-- The move of a plan goes to a free place. -/
structure Ready (host : Host) (core : Core) (plan : Reidentify) : Prop where
  directory : ∀ rename, plan.directory_rename = some rename →
    rename.old_absolute ≠ rename.new_absolute ∧
      Clear core.bundle.entry rename.old_absolute rename.new_absolute
  note : plan.directory_rename = none → ∃ note_id, (∀ id, id ≠ note_id → plan.newId id = id) ∧
    ∀ old_path new_path, notePath host core.bundle note_id = .ok old_path →
      notePath host core.bundle (plan.newId note_id) = .ok new_path →
      Clear core.bundle.entry old_path new_path

theorem entry_of_absent {bundle : Bundle} {path : Path} (absent : bundle.exists_ path = false) :
    bundle.entry path = none := by
  unfold Bundle.exists_ at absent
  rcases Bool.or_eq_false_iff.mp absent with ⟨known, link⟩
  rcases Bool.or_eq_false_iff.mp known with ⟨file, directory⟩
  unfold Bundle.isDir at directory
  rcases Bool.or_eq_false_iff.mp directory with ⟨root, directory⟩
  apply Bundle.entry_eq_none (of_decide_eq_false root)
  · unfold Bundle.isFile at file
    unfold Bundle.read
    rw [Option.map_eq_none_iff]
    exact Option.isSome_eq_false_iff.mp file |> Option.isNone_iff_eq_none.mp
  · exact of_decide_eq_false directory
  · exact of_decide_eq_false link

/-- Where there is nothing, nothing is beneath. -/
def Grounded (bundle : Bundle) : Prop :=
  ∀ path, bundle.exists_ path = false → bundle.entry.Free path

theorem grounded_of_rooted {bundle : Bundle} (rooted : bundle.entry.Rooted Entry.IsDirectory) :
    Grounded bundle := fun _ absent => rooted.free (entry_of_absent absent)

/-- The directories on the way to a place are there as well. -/
theorem Grounded.createDirAll {bundle : Bundle} (grounded : Grounded bundle) (path : Path) :
    Grounded (bundle.createDirAll path) := by
  intro absent gone other under
  have vacant := Bundle.vacant_of_entry (entry_of_absent gone)
  have before : bundle.exists_ absent = false := by
    unfold Bundle.exists_ Bundle.isDir Bundle.isFile at gone ⊢
    simp only [Bool.or_eq_false_iff, decide_eq_false_iff_not] at gone ⊢
    refine ⟨⟨gone.1.1, gone.1.2.1, fun listed => ?_⟩, gone.2⟩
    exact gone.1.2.2 (List.mem_append_left _ listed)
  obtain ⟨root, file, directory, link⟩ := Bundle.vacant_of_entry (grounded absent before other under)
  have outside : other ∉ (bundle.createDirAll path).directories := by
    intro listed
    rcases List.mem_append.mp listed with listed | created
    · exact directory listed
    · -- a directory that was made lies on the way, and so does what is above it
      have onTheWay := (mem_tail_inits.mp (List.mem_filter.mp created).1).1
      apply vacant.2.2.1
      by_cases known : absent ∈ bundle.directories
      · exact List.mem_append_left _ known
      · apply List.mem_append_right
        refine List.mem_filter.mpr ⟨?_, decide_eq_true known⟩
        exact mem_tail_inits.mpr ⟨under.trans onTheWay, vacant.1⟩
  exact Bundle.entry_eq_none root file outside link

/-- A place that has nothing is free. -/
theorem clear_of_absent {source target : Path} (grounded : Grounded core.bundle)
    (absent : core.bundle.exists_ target = false) : Clear core.bundle.entry source target :=
  Or.inr ⟨(Bundle.vacant_of_entry (entry_of_absent absent)).1, grounded target absent⟩

theorem newId_singleRemap {note_id new_id id : ConceptId} {plan : Reidentify}
    (remap : plan.remap = singleRemap note_id new_id) :
    (id ≠ note_id → plan.newId id = id) ∧ plan.newId note_id = new_id := by
  unfold Reidentify.newId
  rw [remap, lookup_singleRemap, lookup_singleRemap]
  constructor
  · intro other
    rw [if_neg fun both => other both.1]
    rfl
  · by_cases same : new_id = note_id
    · rw [if_neg fun both => both.2 same]
      exact same.symm
    · rw [if_pos ⟨rfl, same⟩]
      rfl

/-- A plan for one Note that went through the checks of its path. -/
theorem ready_single {note_id new_id named : ConceptId} {old_path new_path : Path}
    (grounded : Grounded core.bundle)
    (remap : plan.remap = singleRemap note_id new_id) (plain : plan.directory_rename = none)
    (isOld : notePath host core.bundle note_id = .ok old_path)
    (isNew : notePath host core.bundle new_id = .ok new_path)
    (available : ensurePathAvailable workspace_id core new_id new_path (some ⟨named, old_path⟩) = .ok ()) :
    Ready host core plan := by
  constructor
  · intro rename isRename
    rw [plain] at isRename
    cases isRename
  · intro _
    rcases @newId_singleRemap note_id new_id note_id plan remap with ⟨-, isNewId⟩
    refine ⟨note_id, fun id => (newId_singleRemap remap).1, ?_⟩
    intro old_path' new_path' isOld' isNew'
    rw [isOld] at isOld'
    rw [isNewId, isNew] at isNew'
    obtain rfl := Except.ok.inj isOld'
    obtain rfl := Except.ok.inj isNew'
    rcases (ensurePathAvailable_eq_ok available).1 with absent | own
    · exact clear_of_absent grounded absent
    · exact Or.inl (of_decide_eq_true own)

/-- The components of a path whose segments are all seen. -/
theorem text_of_normalComponents {directory : Text} {path : Path}
    (visible : ∀ segment ∈ directory.splitOn Okf.slash, segment ≠ [] ∧ segment.head? ≠ some '.')
    (found : normalComponents directory = some path) :
    path.map Name.text = directory.splitOn Okf.slash := by
  have kept : ∀ segment ∈ directory.splitOn Okf.slash,
      decide (segment ≠ [] ∧ segment ≠ ['.']) = true := by
    intro segment mem
    apply decide_eq_true
    refine ⟨(visible segment mem).1, ?_⟩
    rintro rfl
    exact (visible _ mem).2 rfl
  unfold normalComponents at found
  dsimp only at found
  split_ifs at found
  rw [List.filter_eq_self.mpr kept] at found
  exact text_of_mapM found

/-- A Directory that gets another name gets another path. -/
theorem directoryAbsolute_ne {directory new_name : Text} {old_absolute new_absolute : Path}
    (valid : ValidDirectory directory) (inside : directory ≠ []) (validName : ValidSegment new_name)
    (moves : joinId (Okf.containingDir directory) new_name ≠ directory)
    (isOld : directoryAbsolute host core.bundle directory = .ok old_absolute)
    (isNew : directoryAbsolute host core.bundle (joinId (Okf.containingDir directory) new_name) =
      .ok new_absolute) : old_absolute ≠ new_absolute := by
  rcases valid with root | ⟨carried, visible⟩
  · exact absurd root inside
  · rcases exists_path_of_visible carried visible with ⟨levels, isLevels, found⟩
    have whole : [] ∉ directory.splitOn Okf.slash := fun mem => (visible _ mem).1 rfl
    have nonempty : levels ≠ [] := by
      rintro rfl
      exact List.splitOn_ne_nil Okf.slash directory isLevels.symm
    have old_same : old_absolute = levels := by
      unfold directoryAbsolute at isOld
      rw [found] at isOld
      dsimp only [Option.getD_some] at isOld
      split_ifs at isOld
      exact (Except.ok.inj isOld).symm
    have new_same : new_absolute =
        (normalComponents (joinId (Okf.containingDir directory) new_name)).getD [] := by
      unfold directoryAbsolute at isNew
      dsimp only at isNew
      split_ifs at isNew
      exact (Except.ok.inj isNew).symm
    have split_ := splitOn_sibling whole validName.whole
    have visible' : ∀ segment ∈ (joinId (Okf.containingDir directory) new_name).splitOn Okf.slash,
        segment ≠ [] ∧ segment.head? ≠ some '.' := by
      intro segment mem
      rw [split_] at mem
      rcases List.mem_append.mp mem with mem | mem
      · exact visible segment (List.dropLast_subset _ mem)
      · obtain rfl := List.mem_singleton.mp mem
        refine ⟨?_, validName.visible⟩
        rintro rfl
        exact validName.nonblank rfl
    intro same
    rw [old_same, new_same] at same
    cases isPath : normalComponents (joinId (Okf.containingDir directory) new_name) with
    | none =>
      rw [isPath, Option.getD_none] at same
      exact nonempty same
    | some path =>
      rw [isPath, Option.getD_some] at same
      have segments := text_of_normalComponents visible' isPath
      rw [← same, isLevels] at segments
      have texts := congrArg [Okf.slash].intercalate segments
      rw [List.intercalate_splitOn, List.intercalate_splitOn] at texts
      exact moves texts.symm

/-- What the operations plan is ready to be written. -/
theorem ready_of_plan {op : Operation} (grounded : Grounded core'.bundle)
    (planned : op.plan host workspace_id core = some (core', plan)) : Ready host core' plan := by
  cases planned_of_plan planned with
  | rename note_id new_title new_id isPlan =>
    rcases planRename_spec isPlan with ⟨old_path, new_path, -, isOld, -, -, isNew, available, shape⟩
    apply ready_single grounded _ _ isOld isNew available
    · exact congrArg Reidentify.remap shape
    · exact congrArg Reidentify.directory_rename shape
  | move note_id new_directory_path new_id old_path directory bundle located isPlan =>
    rcases locateMove_spec located with ⟨isOld, -, -, ensured⟩
    rcases planMove_spec isPlan with ⟨new_path, -, isNew, available, shape⟩
    rw [← notePath_congr (ensureDirectoryExists_spec ensured).2 note_id] at isOld
    apply ready_single grounded _ _ isOld isNew available
    · exact congrArg Reidentify.remap shape
    · exact congrArg Reidentify.directory_rename shape
  | directory path new_name directory isPlan made =>
    rcases made.renames with ⟨old_absolute, new_absolute, isOld, isNew, -, absent, isRename⟩
    have valid := (normalizeDirectory_iff.mp made.normalized).2.2
    have moved := directoryAbsolute_ne valid made.inside (validateSegment_iff.mp made.valid)
      made.moves isOld isNew
    constructor
    · intro rename isRename'
      rw [isRename] at isRename'
      obtain rfl := Option.some.inj isRename'
      rcases absent with absent | same
      · exact ⟨moved, clear_of_absent grounded absent⟩
      · exact absurd same.symm moved
    · intro isNone
      rw [isRename] at isNone
      cases isNone

/-- A plan that is ready moves one entry at most, to a free place. -/
theorem Ready.moves (ready : Ready host core plan) (plans : Plans host workspace_id plan core affected) :
    ∃ moves, Moves plan affected moves ∧ ∀ move ∈ moves, Clear core.bundle.entry move.1 move.2 := by
  cases isRename : plan.directory_rename with
  | some rename =>
    rcases ready.directory rename isRename with ⟨moved, clear⟩
    refine ⟨_, .directory rename isRename moved, ?_⟩
    intro move mem
    obtain rfl := List.mem_singleton.mp mem
    exact clear
  | none =>
    rcases ready.note isRename with ⟨note_id, others, clear⟩
    have mover : ∀ a ∈ affected, a.moves = true → a.old_id = note_id ∧
        Clear core.bundle.entry a.old_path a.new_path := by
      intro a mem moves
      rcases (plans.affects a mem).2 with ⟨disk, affects⟩
      have isNew := affects.new_path
      rw [affects.new_id] at isNew
      by_cases same : a.old_id = note_id
      · refine ⟨same, clear _ _ (same ▸ affects.old_path) (same ▸ isNew)⟩
      · rw [others a.old_id same, affects.old_path] at isNew
        exact absurd (Except.ok.inj isNew) (of_decide_eq_true moves)
    have distinct : ((affected.filter Affected.moves).map Affected.old_id).Nodup :=
      (List.filter_sublist.map _).nodup plans.distinct
    cases isMovers : affected.filter Affected.moves with
    | nil =>
      refine ⟨[], .still isRename ?_, fun _ mem => absurd mem List.not_mem_nil⟩
      unfold movesOf
      rw [isMovers, List.map_nil]
    | cons a rest =>
      have listed : ∀ b ∈ a :: rest, b.old_id = note_id ∧ Clear core.bundle.entry b.old_path b.new_path := by
        intro b mem
        rw [← isMovers] at mem
        rcases List.mem_filter.mp mem with ⟨mem, moves⟩
        exact mover b mem moves
      cases rest with
      | nil =>
        refine ⟨_, .note a.old_path a.new_path isRename ?_, ?_⟩
        · unfold movesOf
          rw [isMovers, List.map_singleton]
        · intro move mem
          obtain rfl := List.mem_singleton.mp mem
          exact (listed a List.mem_cons_self).2
      | cons b rest =>
        rw [isMovers, List.map_cons, List.map_cons, (listed a List.mem_cons_self).1,
          (listed b (List.mem_cons_of_mem _ List.mem_cons_self)).1] at distinct
        exact absurd List.mem_cons_self (List.nodup_cons.mp distinct).1

/-- A Note whose file a plan rewrites has one. -/
theorem filed_of_plans (plans : Plans host workspace_id plan core affected) :
    Filed core.bundle.entry affected := by
  intro a mem rewritten
  rcases (plans.affects a mem).2 with ⟨disk, affects⟩
  cases disk with
  | none =>
    have isNone := affects.new_file
    obtain isNone := Except.ok.inj isNone
    rw [← isNone] at rewritten
    cases rewritten
  | some source =>
    have isRead := affects.read
    unfold readSource at isRead
    rcases bind_eq_ok.mp isRead with ⟨found, isFound, isRead⟩
    unfold readBytes at isFound
    split_ifs at isFound with directory
    obtain rfl := Except.ok.inj isFound
    unfold Bundle.isDir at directory
    have below : a.old_path ≠ [] := by
      intro root
      apply directory
      rw [root]
      rfl
    cases read : core.bundle.read a.old_path with
    | none =>
      rw [read] at isRead
      cases isRead
    | some contents =>
      refine ⟨contents, ?_⟩
      unfold Bundle.entry
      rw [if_neg below, read]

/-! ## The whole operation -/

/-- How an operation fails that `cause` stops: with that error, leaving all that there was and at most
directories besides, or with one that says that undoing it did not succeed. -/
inductive Fails (core : Core) (cause : AppError) (after : Core) : AppError → Prop
  | whole (keeps : Keeps core.bundle.entry after.bundle.entry) : Fails core cause after cause
  | partWay (incomplete : Text) : Fails core cause after (partWay cause incomplete)

theorem undone_spec {faults : JournalFaults} {cause : AppError}
    (logs : journal.Logs core.bundle.entry) (undoable : Undoable journal.steps journal.disk.tree) :
    ∃ error, (undone host core journal now faults cause).2 = .error error ∧
      (undone host core journal now faults cause).1.db = core.db ∧
      (undone host core journal now faults cause).1.sessions = core.sessions ∧
      Fails core cause (undone host core journal now faults cause).1 error ∧
      (faults.settle_refusals = [] → error = cause ∧
        Keeps core.bundle.entry (undone host core journal now faults cause).1.bundle.entry) := by
  unfold undone rolledBack
  generalize isAfresh : (⟨⟨journal.disk.bundle, faults.settle_refusals⟩, journal.steps⟩ : FileJournal) = afresh
  have logs' : afresh.Logs core.bundle.entry := by
    rw [← isAfresh]
    exact logs
  have complete : faults.settle_refusals = [] → (afresh.rollback host now).2 = none := by
    intro free
    rw [← isAfresh]
    exact @Undoable.rollback host now ⟨⟨journal.disk.bundle, faults.settle_refusals⟩, journal.steps⟩ undoable free
  cases rolled : afresh.rollback host now with
  | mk journal' answer =>
    cases answer with
    | none =>
      have keeps : Keeps core.bundle.entry journal'.disk.bundle.entry := by
        have kept := @FileJournal.Logs.rollback host now _ _ logs' (congrArg Prod.snd rolled)
        rw [rolled] at kept
        exact kept
      exact ⟨cause, rfl, rfl, rfl, .whole keeps, fun _ => ⟨rfl, keeps⟩⟩
    | some incomplete =>
      refine ⟨_, rfl, rfl, rfl, .partWay incomplete, ?_⟩
      intro free
      have isNone := complete free
      rw [rolled] at isNone
      cases isNone

/-- How a re-identification ends that runs call by call: as the plan carried out in one piece ends, or
behind a rollback, with the error of what stopped it. -/
def Settles (host : Host) (workspace_id : WorkspaceId) (core : Core) (plan : Reidentify) (now : Int)
    (faults : JournalFaults) : Prop :=
  match applyReidentifyLocked host workspace_id core plan now faults with
  | (after, .ok effects) =>
      applyReidentify host workspace_id core plan now .none = .ok (effects, after)
  | (after, .error error) =>
      after.db = core.db ∧ after.sessions = core.sessions ∧
        ∃ cause, Stopped host workspace_id core plan now faults cause ∧ Fails core cause after error ∧
          (faults.settle_refusals = [] → error = cause ∧ Keeps core.bundle.entry after.bundle.entry)

theorem settles_of_undone {faults : JournalFaults} {cause : AppError}
    (logs : journal.Logs core.bundle.entry) (undoable : Undoable journal.steps journal.disk.tree)
    (stopped : Stopped host workspace_id core plan now faults cause)
    (ends : applyReidentifyLocked host workspace_id core plan now faults =
      undone host core journal now faults cause) : Settles host workspace_id core plan now faults := by
  rcases @undone_spec host core now journal faults cause logs undoable with
    ⟨error, isError, db, sessions, fails, complete⟩
  unfold Settles
  rw [ends]
  cases answer : undone host core journal now faults cause with
  | mk after outcome =>
    rw [answer] at isError db sessions fails complete
    dsimp only at isError
    subst isError
    exact ⟨db, sessions, cause, stopped, fails, complete⟩

/-- What is left of a plan once its files are written. -/
theorem applyReidentify_written (isPlanned : plan.planAffected host workspace_id core = .ok affected)
    (index : Option AppError) : applyReidentify host workspace_id core plan now ⟨none, index, none⟩ =
      (do
        let bundle := writeFiles core.bundle plan affected now
        let indexed ← indexedNotes host bundle affected
        index.elim (.ok ()) .error
        match rewriteIndex host workspace_id core.db plan affected indexed now with
        | none => .error (.databaseError [])
        | some db =>
            return (plan.effects affected, carrySessions host { core with bundle, db } affected)) := by
  unfold applyReidentify
  rw [isPlanned]
  rfl

theorem publishLogged_settles {faults : JournalFaults}
    (isPlanned : plan.planAffected host workspace_id core = .ok affected)
    (logs : journal.Logs core.bundle.entry) (undoable : Undoable journal.steps journal.disk.tree)
    (bundle : journal.disk.bundle = writeFiles core.bundle plan affected now)
    (ends : applyReidentifyLocked host workspace_id core plan now faults =
      publishLogged host workspace_id core plan affected now faults journal) :
    Settles host workspace_id core plan now faults := by
  unfold publishLogged at ends
  cases isIndexed : indexedNotes host journal.disk.bundle affected with
  | error error =>
    rw [isIndexed] at ends
    rw [bundle] at isIndexed
    exact settles_of_undone logs undoable (.derivation isPlanned isIndexed) ends
  | ok indexed =>
    rw [isIndexed] at ends
    dsimp only at ends
    cases isPublication : faults.publication with
    | some error =>
      rw [isPublication] at ends
      rw [bundle] at isIndexed
      exact settles_of_undone logs undoable (.publication isPlanned isIndexed isPublication) ends
    | none =>
      have plain := @applyReidentify_written host workspace_id core plan affected now isPlanned none
      dsimp only at plain
      rw [← bundle, isIndexed] at plain
      dsimp only [bind, Except.bind, Option.elim] at plain
      cases isDb : rewriteIndex host workspace_id core.db plan affected indexed now with
      | none =>
        rw [isPublication, isDb] at ends
        rw [bundle] at isIndexed
        exact settles_of_undone logs undoable (.rows isPlanned isIndexed isPublication isDb) ends
      | some db =>
        rw [isPublication, isDb] at ends
        rw [isDb] at plain
        unfold Settles
        rw [ends]
        exact plain

theorem applyReidentifyLocked_planned {faults : JournalFaults}
    (isPlanned : plan.planAffected host workspace_id core = .ok affected) :
    applyReidentifyLocked host workspace_id core plan now faults =
      match writeFilesLogged host affected plan now ⟨⟨core.bundle, faults.refusals⟩, []⟩ with
      | (journal, .error error) => undone host core journal now faults error
      | (journal, .ok ()) => publishLogged host workspace_id core plan affected now faults journal := by
  unfold applyReidentifyLocked
  rw [isPlanned]

/-- A plan that is ready is carried out, or leaves all that there was. -/
theorem Ready.settles (ready : Ready host core plan) (rooted : core.bundle.entry.Rooted Entry.IsDirectory)
    (faults : JournalFaults) : Settles host workspace_id core plan now faults := by
  cases isPlanned : plan.planAffected host workspace_id core with
  | error error =>
    unfold Settles applyReidentifyLocked
    rw [isPlanned]
    exact ⟨rfl, rfl, error, .planning isPlanned, .whole (.refl _), fun _ => ⟨rfl, .refl _⟩⟩
  | ok affected =>
    have plans := planAffected_spec isPlanned
    rcases ready.moves plans with ⟨moves, isMoves, clear⟩
    have writing : Writing core.bundle.entry affected moves ⟨⟨core.bundle, faults.refusals⟩, []⟩ := by
      refine ⟨.nil, ⟨rooted, ?_, .nil _⟩, filed_of_plans plans, clear⟩
      intro step mem
      cases mem
    cases isWritten : writeFilesLogged host affected plan now ⟨⟨core.bundle, faults.refusals⟩, []⟩ with
    | mk journal answer =>
      rcases writeFilesLogged_spec isMoves writing isWritten with ⟨logs, undoable, same⟩
      have ends := @applyReidentifyLocked_planned host workspace_id core plan affected now faults isPlanned
      rw [isWritten] at ends
      cases answer with
      | error error =>
        have refused := writeFilesLogged_error isMoves writing isWritten
        exact settles_of_undone logs undoable (.writing isPlanned refused) ends
      | ok _ => exact publishLogged_settles isPlanned logs undoable (same rfl) ends

/-- Every rename and move of a Note and every rename of a Directory is carried out as planned, or leaves
every file and every link as it was and no directory less; it fails with the error of what stopped it,
and an error behind a rollback that did not succeed says so. -/
theorem reidentification_settles {op : Operation} (rooted : core'.bundle.entry.Rooted Entry.IsDirectory)
    (planned : op.plan host workspace_id core = some (core', plan)) (now : Int) (faults : JournalFaults) :
    Settles host workspace_id core' plan now faults :=
  (ready_of_plan (grounded_of_rooted rooted) planned).settles rooted faults

theorem rooted_noteOnDisk {source : Text} : (noteOnDisk source).entry.Rooted Entry.IsDirectory := by
  apply Bundle.rooted_flat
  · intro file mem
    rcases Table.mem_put.mp mem with ⟨mem, -⟩ | rfl
    · cases mem
    · exact ⟨_, rfl⟩
  · rfl
  · rfl

/-- A rename whose last call is refused. -/
theorem reidentification_settles_refused : ∃ core plan,
    (Operation.renameNote ['n'] ['m']).plan Host.plain ['w'] ⟨noteOnDisk ['a'], .empty [['w']], ∅⟩ =
      some (core, plan) ∧
    Settles Host.plain ['w'] core plan 1 ⟨[some ⟨false, "busy".toList⟩], [], none⟩ := by
  have isPlanned : ((Operation.renameNote ['n'] ['m']).plan Host.plain ['w']
      ⟨noteOnDisk ['a'], .empty [['w']], ∅⟩).isSome = true := by decide +kernel
  rcases Option.isSome_iff_exists.mp isPlanned with ⟨⟨core, plan⟩, planned⟩
  refine ⟨core, plan, planned, ?_⟩
  have same : core.bundle = noteOnDisk ['a'] := by
    unfold Operation.plan at planned
    dsimp only at planned
    rcases Option.map_eq_some_iff.mp planned with ⟨_, -, same⟩
    rw [← (Prod.mk.inj same).1]
  apply reidentification_settles _ planned
  rw [same]
  exact rooted_noteOnDisk

end Burlmd.Lifecycle
