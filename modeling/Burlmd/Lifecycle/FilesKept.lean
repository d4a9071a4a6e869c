import Burlmd.Lifecycle.AllOrNothing

/-!
# What becomes of a file

An operation leaves a file as it is, takes it whole to where its plan moves it, or deletes it because
it is asked to. The one other thing that happens to a file is that the plan rewrites it.
-/

namespace Burlmd.Lifecycle

open Workspace
open Utf8 (Text)
open Okf (ConceptId)
open Index (WorkspaceId Database)
open Checked

variable {host : Host} {workspace_id : WorkspaceId} {core core' : Core} {plan : Reidentify}
  {affected : List Affected} {now : Int} {faults : LifecycleFaults} {bundle bundle' bundle'' : Bundle}
  {path source target : Path} {contents : FileBytes} {op : Operation}

/-! ## Files that stay -/

/-- Every file of a bundle is in another one, as it was. -/
def Retains (bundle bundle' : Bundle) : Prop :=
  ∀ path contents, bundle.read path = some contents → bundle'.read path = some contents

theorem retains_of_files (files : bundle'.files = bundle.files) : Retains bundle bundle' := by
  intro path contents read
  unfold Bundle.read Bundle.file? at read ⊢
  rw [files]
  exact read

theorem Retains.trans (first : Retains bundle bundle') (second : Retains bundle' bundle'') :
    Retains bundle bundle'' := fun path contents read => second path contents (first path contents read)

/-- A new file is in nobody's place. -/
theorem retains_atomicWrite (absent : bundle.read path = none) :
    Retains bundle (bundle.atomicWrite path contents now) := by
  intro other held read
  rw [Bundle.read_atomicWrite, if_neg]
  · exact read
  · rintro rfl
    rw [absent] at read
    cases read

/-- Nor is one that is taken back. -/
theorem Retains.removeFile (retains : Retains bundle bundle') (absent : bundle.read path = none) :
    Retains bundle (bundle'.removeFile path) := by
  intro other held read
  have apart : other ≠ path := by
    rintro rfl
    rw [absent] at read
    cases read
  exact (Bundle.read_unlink apart).trans (retains other held read)

theorem read_of_absent (absent : bundle.exists_ path = false) : bundle.read path = none :=
  (Bundle.vacant_of_entry (entry_of_absent absent)).2.1

/-! ## Creating -/

theorem materializeDirectories_files (levels : List Text) (created : List Path) :
    (materializeDirectories host bundle levels created).1.files = bundle.files := by
  induction levels generalizing bundle created with
  | nil => rfl
  | cons ancestor rest ih =>
    unfold materializeDirectories
    split
    · rfl
    · split
      · exact ih created
      · split
        · rfl
        · exact ih _

theorem cleanupCreatedDirectories_files (created : List Path) :
    (cleanupCreatedDirectories bundle created).files = bundle.files := by
  unfold cleanupCreatedDirectories
  induction created generalizing bundle with
  | nil => rfl
  | cons first rest ih =>
    rw [List.foldl_cons, ih]
    split_ifs <;> rfl

/-- A new Note is in no file's place, whether it stays or is taken back. -/
theorem publishNote_retains {note_id new_id : ConceptId} {title : Text}
    {record : Database → Option Database}
    (available : ensurePathAvailable workspace_id core new_id path none = .ok ())
    (published : publishNote host workspace_id core note_id path title record now faults = .ok core') :
    core.bundle.read path = none ∧ Retains core.bundle core'.bundle := by
  rcases (ensurePathAvailable_eq_ok available).1 with absent | own
  · have vacant := read_of_absent absent
    obtain ⟨-, written, db, -, -, rfl⟩ := publishNote_spec published
    exact ⟨vacant, retains_atomicWrite vacant⟩
  · cases own

theorem createNote_retains {directory_path title : Text} : Retains core.bundle
    (createNoteSerialized host workspace_id core directory_path title now faults).1.bundle := by
  unfold createNoteSerialized
  split
  · exact retains_of_files rfl
  · rename_i directory bundle located
    obtain ⟨-, -, located⟩ := bind_eq_ok.mp located
    obtain ⟨_, -, located⟩ := bind_eq_ok.mp located
    obtain ⟨_, ensured, located⟩ := bind_eq_ok.mp located
    have files : bundle.files = core.bundle.files := by
      cases located
      exact (ensureDirectoryExists_spec ensured).1
    have here : Retains core.bundle bundle := retains_of_files files
    dsimp only
    split
    · exact here
    · rename_i new_path created published
      unfold publishNewNote at published
      obtain ⟨path, -, published⟩ := bind_eq_ok.mp published
      obtain ⟨⟨⟩, available, published⟩ := bind_eq_ok.mp published
      obtain ⟨_, isPublished, published⟩ := bind_eq_ok.mp published
      cases published
      have held := publishNote_retains available isPublished
      split
      · exact here.trans (held.2.removeFile held.1)
      · rename_i isOpen
        rw [(openCreated_frame isOpen).2]
        exact here.trans held.2

theorem createLinkTarget_retains {target_id : ConceptId} : Retains core.bundle
    (createLinkTarget host workspace_id core target_id now faults).1.bundle := by
  unfold createLinkTarget
  split
  · exact retains_of_files rfl
  · rename_i identity identified
    unfold createLinkTargetSerialized
    dsimp only
    split
    · split
      · exact retains_of_files rfl
      · rename_i isOpen
        rw [(openNoteSerialized_frame isOpen).2]
        exact retains_of_files rfl
    · unfold materializeLinkTargetDirectories
      generalize Index.Database.directoryAncestors identity.directory_path = levels
      have made := @materializeDirectories_files host core.bundle levels []
      generalize materializeDirectories host core.bundle levels [] = outcome at made ⊢
      obtain ⟨bundle, created, materialized⟩ := outcome
      have here : Retains core.bundle bundle := retains_of_files made
      have cleaned {later : Bundle} (retains : Retains core.bundle later) :
          Retains core.bundle (cleanupCreatedDirectories later created) :=
        retains.trans (retains_of_files (cleanupCreatedDirectories_files created))
      dsimp only
      split
      · exact cleaned here
      · split
        · exact here
        · split
          · exact cleaned here
          · rename_i isPublished
            unfold publishLinkTarget at isPublished
            obtain ⟨⟨⟩, available, isPublished⟩ := bind_eq_ok.mp isPublished
            have held := publishNote_retains available isPublished
            split
            · exact cleaned (here.trans (held.2.removeFile held.1))
            · rename_i isOpen
              rw [(openCreated_frame isOpen).2]
              exact here.trans held.2

theorem createDirectory_retains {path : Text} : Retains core.bundle
    (createDirectorySerialized host workspace_id core path faults).1.bundle := by
  unfold createDirectorySerialized
  split
  · exact retains_of_files rfl
  · rename_i directory located
    unfold materializeLinkTargetDirectories
    generalize Index.Database.directoryAncestors directory = levels
    have made := @materializeDirectories_files host core.bundle levels []
    generalize materializeDirectories host core.bundle levels [] = outcome at made ⊢
    obtain ⟨bundle, created, materialized⟩ := outcome
    have cleaned := (@cleanupCreatedDirectories_files bundle created).trans made
    dsimp only
    split
    · exact retains_of_files made
    · split
      · exact retains_of_files cleaned
      · exact retains_of_files cleaned
      · exact retains_of_files made

/-! ## Deleting -/

/-- What is at a path is what an operation is asked to delete. -/
inductive Operation.Deletes (host : Host) (bundle : Bundle) (path : Path) : Operation → Prop
  | note {note_id : ConceptId} (located : notePath host bundle note_id = .ok path) :
      Deletes host bundle path (.deleteNote note_id)
  | directory {asked directory : Text} {absolute : Path}
      (normalized : normalizeDirectory host asked = .ok directory)
      (located : directoryAbsolute host bundle directory = .ok absolute) (inside : absolute <+: path) :
      Deletes host bundle path (.deleteDirectory asked)

theorem discardSessions_bundle (ids : List ConceptId) (core : Core) :
    (ids.foldl discardSession core).bundle = core.bundle := by
  induction ids generalizing core with
  | nil => rfl
  | cons id rest ih => exact ih (discardSession core id)

theorem read_removeTree (outside : ¬ source <+: path) :
    (bundle.removeTree source).read path = bundle.read path := by
  unfold Bundle.read Bundle.file? Bundle.removeTree
  apply congrArg
  apply Table.find?_congr
  intro file isPath
  rw [Table.mem_delete, decide_eq_false_iff_not]
  exact and_iff_left fun under => outside (isPath ▸ under)

theorem deleteNote_keeps {note_id : ConceptId} (read : core.bundle.read path = some contents) :
    (deleteNoteLocked host workspace_id core note_id faults).1.bundle.read path = some contents ∨
      (∃ result, (deleteNoteLocked host workspace_id core note_id faults).2 = .ok result) ∧
        Operation.Deletes host core.bundle path (.deleteNote note_id) := by
  unfold deleteNoteLocked
  split
  · exact .inl read
  · rename_i deleted
    unfold deleteNoteAt at deleted
    obtain ⟨own, located, deleted⟩ := bind_eq_ok.mp deleted
    split_ifs at deleted with orphaned
    · left
      obtain ⟨⟨⟩, -, deleted⟩ := bind_eq_ok.mp deleted
      split_ifs at deleted
      cases deleted
      exact read
    · obtain ⟨⟨⟩, -, deleted⟩ := bind_eq_ok.mp deleted
      obtain ⟨⟨⟩, -, deleted⟩ := bind_eq_ok.mp deleted
      cases deleted
      by_cases same : path = own
      · right
        rw [same]
        exact ⟨⟨_, rfl⟩, .note located⟩
      · left
        exact (Bundle.read_unlink same).trans read

theorem deleteDirectory_keeps {asked : Text} (read : core.bundle.read path = some contents) :
    (deleteDirectoryLocked host workspace_id core asked faults).1.bundle.read path = some contents ∨
      (∃ result, (deleteDirectoryLocked host workspace_id core asked faults).2 = .ok result) ∧
        Operation.Deletes host core.bundle path (.deleteDirectory asked) := by
  unfold deleteDirectoryLocked
  split
  · exact .inl read
  · rename_i removed core' deleted
    unfold deleteDirectoryAt at deleted
    obtain ⟨directory, normalized, deleted⟩ := bind_eq_ok.mp deleted
    split_ifs at deleted with root
    obtain ⟨absolute, located, deleted⟩ := bind_eq_ok.mp deleted
    dsimp only at deleted
    split_ifs at deleted
    obtain ⟨⟨⟩, -, deleted⟩ := bind_eq_ok.mp deleted
    obtain ⟨⟨⟩, -, deleted⟩ := bind_eq_ok.mp deleted
    obtain ⟨rfl, rfl⟩ := Prod.mk.inj (Except.ok.inj deleted)
    by_cases inside : absolute <+: path
    · right
      exact ⟨⟨_, rfl⟩, .directory normalized located inside⟩
    · left
      rw [discardSessions_bundle]
      exact (read_removeTree inside).trans read

/-! ## Re-identifying -/

theorem read_putTexts_other (other : ∀ a ∈ affected, a.new_file.isSome → a.old_path ≠ path) :
    (putTexts now bundle affected).read path = bundle.read path := by
  unfold putTexts
  induction affected generalizing bundle with
  | nil => rfl
  | cons a rest ih =>
    rw [List.foldl_cons, ih fun b mem => other b (List.mem_cons_of_mem _ mem)]
    cases isNew : a.new_file with
    | none => rfl
    | some text =>
      have apart : path ≠ a.old_path := by
        intro same
        exact other a List.mem_cons_self (Option.isSome_of_eq_some isNew) same.symm
      rw [Option.elim_some, Bundle.read_atomicWrite, if_neg apart]

/-- No file is where a plan moves to, once its texts are put. -/
theorem staged_vacant (filed : Filed bundle.entry affected) (free : bundle.entry.Free target) :
    ∀ file ∈ ((putTexts now bundle affected).createDirAll target.dropLast).files,
      ¬ target <+: file.path := by
  intro file mem under
  have vacant := Bundle.vacant_of_entry (free file.path under)
  have same : (putTexts now bundle affected).read file.path = bundle.read file.path := by
    apply read_putTexts_other
    intro a mem rewritten own
    rcases filed a mem rewritten with ⟨old, isFile⟩
    rw [own, free _ under] at isFile
    cases isFile
  rw [vacant.2.1] at same
  exact Bundle.read_eq_none_iff.mp same file mem rfl

/-- A file that is not rewritten stays, or goes where the plan moves it. -/
theorem read_writeFiles {moves : List (Path × Path)} (isMoves : Moves plan affected moves)
    (clear : ∀ move ∈ moves, Clear bundle.entry move.1 move.2) (filed : Filed bundle.entry affected)
    (other : ∀ a ∈ affected, a.new_file.isSome → a.old_path ≠ path)
    (read : bundle.read path = some contents) :
    (writeFiles bundle plan affected now).read path = some contents ∨
      ∃ source target rest, (source, target) ∈ plan.moves affected ∧ path = source ++ rest ∧
        (writeFiles bundle plan affected now).read (target ++ rest) = some contents := by
  have kept : (putTexts now bundle affected).read path = some contents :=
    (read_putTexts_other other).trans read
  have moved {source target : Path} (listed : (source, target) ∈ plan.moves affected)
      (apart : source ≠ target) (clear : Clear bundle.entry source target)
      (written : writeFiles bundle plan affected now =
        ((putTexts now bundle affected).createDirAll target.dropLast).rename source target) :
      (writeFiles bundle plan affected now).read path = some contents ∨
        ∃ source target rest, (source, target) ∈ plan.moves affected ∧ path = source ++ rest ∧
          (writeFiles bundle plan affected now).read (target ++ rest) = some contents := by
    rw [written]
    rcases clear with same | ⟨-, free⟩
    · exact absurd same apart
    · have vacant := @staged_vacant affected now bundle target filed free
      have staged : ((putTexts now bundle affected).createDirAll target.dropLast).read path =
          some contents := kept
      by_cases inside : source <+: path
      · right
        rcases inside with ⟨rest, rfl⟩
        refine ⟨source, target, rest, listed, rfl, ?_⟩
        rw [Bundle.read_rename vacant, if_pos (List.prefix_append target rest), List.drop_left]
        exact staged
      · left
        have outside : ¬ target <+: path := by
          intro under
          rw [(Bundle.vacant_of_entry (free path under)).2.1] at read
          cases read
        rw [Bundle.read_rename vacant, if_neg outside, if_neg inside]
        exact staged
  cases isMoves with
  | directory rename isRename apart =>
    apply moved _ apart (clear _ List.mem_cons_self)
    · rw [writeFiles_eq, isRename]
    · unfold Reidentify.moves
      rw [isRename]
      exact List.mem_cons_self
  | still isNone still =>
    left
    rw [writeFiles_eq, isNone]
    dsimp only
    rw [moveFiles_still still]
    exact kept
  | note source target isNone one =>
    have single := moveFiles_one one (putTexts now bundle affected)
    apply moved _ single.1 (clear _ List.mem_cons_self)
    · rw [writeFiles_eq, isNone]
      exact single.2
    · unfold Reidentify.moves
      rw [isNone, one]
      exact List.mem_cons_self

theorem grounded_of_ensured {directory : Text}
    (ensured : ensureDirectoryExists host workspace_id core directory = .ok bundle)
    (grounded : Grounded core.bundle) : Grounded bundle := by
  unfold ensureDirectoryExists at ensured
  split at ensured
  · cases ensured
    exact grounded
  · obtain ⟨absolute, -, ensured⟩ := bind_eq_ok.mp ensured
    split at ensured
    · cases ensured
      exact grounded
    · split at ensured
      · cases ensured
        exact grounded.createDirAll absolute
      · cases ensured

/-- The files of an operation that carries out a plan are those that the plan writes. -/
theorem carriedOut_files
    (carried : op.carriedOut host workspace_id core now faults = some (plan, affected)) :
    ∃ planned, op.plan host workspace_id core = some (planned, plan) ∧
      planned.bundle.files = core.bundle.files ∧
      (Grounded core.bundle → Grounded planned.bundle) ∧
      Plans host workspace_id plan planned affected ∧
      (op.perform host workspace_id core now faults).1.bundle =
        writeFiles planned.bundle plan affected now := by
  unfold Operation.carriedOut at carried
  obtain ⟨⟨planned, plan'⟩, isPlan, carried⟩ := Option.bind_eq_some_iff.mp carried
  obtain ⟨⟨effects, core'⟩, isApplied, carried⟩ := Option.bind_eq_some_iff.mp carried
  obtain ⟨affected', isAffected, carried⟩ := Option.bind_eq_some_iff.mp carried
  cases carried
  have applied := toOption_eq_some_iff.mp isApplied
  have isAffected := toOption_eq_some_iff.mp isAffected
  have plans := planAffected_spec isAffected
  obtain ⟨db, rfl⟩ := applyReidentify_planned isAffected applied
  have written := (@carrySessions_frame host
    ⟨writeFiles planned.bundle plan affected now, db, planned.sessions⟩ affected).1
  refine ⟨planned, isPlan, ?_⟩
  cases planned_of_plan isPlan with
  | rename note_id new_title new_id isPlanned =>
    refine ⟨rfl, id, plans, ?_⟩
    unfold Operation.perform renameNoteSerialized
    rw [reidentifyNote_core isPlanned applied]
    exact written
  | move note_id new_directory_path new_id old_path directory bundle located isPlanned =>
    have ensured := (locateMove_spec located).2.2.2
    refine ⟨(ensureDirectoryExists_spec ensured).1, grounded_of_ensured ensured, plans, ?_⟩
    unfold Operation.perform moveNoteSerialized
    simp only [located]
    rw [reidentifyNote_core isPlanned applied]
    exact written
  | directory path new_name directory isPlanned made =>
    refine ⟨rfl, id, plans, ?_⟩
    unfold Operation.perform renameDirectorySerialized
    simp only [isPlanned, applied]
    exact written

/-- A plan for one Note that is not carried out leaves the bundle. -/
theorem reidentifyNote_bundle {planned : Except AppError (ConceptId × Reidentify)}
    (fails : ∀ new_id plan, planned = .ok (new_id, plan) →
      (applyReidentify host workspace_id core plan now faults).toOption = none) :
    (reidentifyNote host workspace_id core now faults planned).1.bundle = core.bundle := by
  unfold reidentifyNote
  split
  · rfl
  · rename_i new_id plan
    split
    · rfl
    · rename_i effects core' applied
      have failed := fails new_id plan rfl
      rw [applied] at failed
      cases failed

/-! ## What an operation does to a file -/

/-- What becomes of a file that holds `contents`. -/
inductive Fate (host : Host) (workspace_id : WorkspaceId) (core : Core) (now : Int)
    (faults : LifecycleFaults) (op : Operation) (path : Path) (contents : FileBytes) : Prop
  | stays (read : (op.perform host workspace_id core now faults).1.bundle.read path = some contents) :
      Fate host workspace_id core now faults op path contents
  | moves {plan : Reidentify} {affected : List Affected} {source target rest : Path}
      (carried : op.carriedOut host workspace_id core now faults = some (plan, affected))
      (moved : (source, target) ∈ plan.moves affected) (beneath : path = source ++ rest)
      (read : (op.perform host workspace_id core now faults).1.bundle.read (target ++ rest) =
        some contents) : Fate host workspace_id core now faults op path contents
  | deleted {result : LifecycleResult}
      (done : (op.perform host workspace_id core now faults).2 = .ok result)
      (asked : op.Deletes host core.bundle path) :
      Fate host workspace_id core now faults op path contents
  | rewritten {plan : Reidentify} {affected : List Affected} {a : Affected}
      (carried : op.carriedOut host workspace_id core now faults = some (plan, affected))
      (mem : a ∈ affected) (rewrites : a.new_file.isSome) (own : a.old_path = path) :
      Fate host workspace_id core now faults op path contents

theorem fate_of_left (left : op.carriedOut host workspace_id core now faults = none)
    (read : core.bundle.read path = some contents) :
    Fate host workspace_id core now faults op path contents := by
  cases op with
  | createNote directory_path title => exact .stays (createNote_retains path contents read)
  | createLinkTarget target_id => exact .stays (createLinkTarget_retains path contents read)
  | createDirectory asked => exact .stays (createDirectory_retains path contents read)
  | renameNote note_id new_title =>
    apply Fate.stays
    unfold Operation.perform renameNoteSerialized
    rw [reidentifyNote_bundle]
    · exact read
    · intro new_id plan isPlanned
      apply applied_none_of_carriedOut _ left
      unfold Operation.plan
      simp only [isPlanned]
      rfl
  | moveNote note_id new_directory_path =>
    apply Fate.stays
    unfold Operation.perform moveNoteSerialized
    dsimp only
    split
    · exact read
    · rename_i old_path directory bundle located
      have files := (ensureDirectoryExists_spec (locateMove_spec located).2.2.2).1
      rw [reidentifyNote_bundle]
      · exact retains_of_files files path contents read
      · intro new_id plan isPlanned
        apply applied_none_of_carriedOut _ left
        unfold Operation.plan
        simp only [located, isPlanned]
        rfl
  | renameDirectory asked new_name =>
    apply Fate.stays
    unfold Operation.perform renameDirectorySerialized
    dsimp only
    split
    · exact read
    · exact read
    · rename_i plan isPlanned
      split
      · exact read
      · rename_i effects core' applied
        have failed : (applyReidentify host workspace_id core plan now faults).toOption = none := by
          apply applied_none_of_carriedOut _ left
          unfold Operation.plan
          simp only [isPlanned]
          rfl
        rw [applied] at failed
        cases failed
  | deleteNote note_id =>
    rcases deleteNote_keeps read with stays | ⟨⟨result, done⟩, asked⟩
    · exact .stays stays
    · exact .deleted done asked
  | deleteDirectory asked =>
    rcases deleteDirectory_keeps read with stays | ⟨⟨result, done⟩, asked⟩
    · exact .stays stays
    · exact .deleted done asked

/-- Every operation leaves a file, moves it whole, deletes it on demand, or rewrites it by its plan. -/
theorem fate (grounded : Grounded core.bundle) (read : core.bundle.read path = some contents) :
    Fate host workspace_id core now faults op path contents := by
  cases carried : op.carriedOut host workspace_id core now faults with
  | none => exact fate_of_left carried read
  | some result =>
    obtain ⟨plan, affected⟩ := result
    obtain ⟨planned, isPlan, files, grounds, plans, written⟩ := carriedOut_files carried
    by_cases own : ∃ a ∈ affected, a.new_file.isSome ∧ a.old_path = path
    · obtain ⟨a, mem, rewrites, isPath⟩ := own
      exact .rewritten carried mem rewrites isPath
    · obtain ⟨moves, isMoves, clear⟩ := (ready_of_plan (grounds grounded) isPlan).moves plans
      have other : ∀ a ∈ affected, a.new_file.isSome → a.old_path ≠ path :=
        fun a mem rewrites isPath => own ⟨a, mem, rewrites, isPath⟩
      have here := retains_of_files files path contents read
      rcases @read_writeFiles _ _ now _ _ _ moves isMoves clear (filed_of_plans plans) other here with
        stays | ⟨source, target, rest, moved, beneath, goes⟩
      · exact .stays (written ▸ stays)
      · exact .moves carried moved beneath (written ▸ goes)

end Burlmd.Lifecycle
