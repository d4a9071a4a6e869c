import Burlmd.Library.Undo
import Burlmd.Workspace.FileCalls
import Burlmd.Workspace.Scratch
import Burlmd.Lifecycle.Affected

/-!
# The journal of a lifecycle operation

Every file system step of an operation is logged with what undoes it. The system can refuse any
call. A journal that is rolled back undoes its steps, newest first, and counts those that it cannot
undo.
-/

namespace Burlmd

open Utf8 (Text)

/-- Rewrites the detail of an error. A revision is no sentence, and an error without a detail
becomes one that has it. -/
def AppError.restate (error : AppError) (rewrite : Text → Text) : AppError :=
  match error with
  | .revisionMismatch revision => .revisionMismatch revision
  | .pathUnavailable detail => .pathUnavailable (rewrite detail)
  | .notFound detail => .notFound (rewrite detail)
  | .databaseError detail => .databaseError (rewrite detail)
  | .cryptoError detail => .cryptoError (rewrite detail)
  | .networkError detail => .networkError (rewrite detail)
  | .oAuthError detail => .oAuthError (rewrite detail)
  | .ioError detail => .ioError (rewrite detail)
  | .parseError detail => .parseError (rewrite detail)
  | .diskFull => .ioError (rewrite "DiskFull".toList)
  | .authExpired => .ioError (rewrite "AuthExpired".toList)
  | .gitConflict => .ioError (rewrite "GitConflict".toList)
  | .oAuthStateMismatch => .ioError (rewrite "OAuthStateMismatch".toList)

namespace Lifecycle

open Workspace

/-! ## Calls that the system can refuse -/

structure OsError where
  storage_full : Bool
  reason : Text

structure Disk where
  bundle : Bundle
  /-- What the system answers to the calls to come, where it refuses them of its own accord. -/
  refusals : List (Option OsError)

variable (host : Host)

/-- One call, with what it does unless it is refused. -/
def Disk.call (disk : Disk) (path : Path) (effect : Bundle → Option Bundle) : Disk × Option OsError :=
  match disk.refusals.head?.join with
  | some refused => (⟨disk.bundle, disk.refusals.tail⟩, some refused)
  | none =>
      match effect disk.bundle with
      | some bundle => (⟨bundle, disk.refusals.tail⟩, none)
      | none => (⟨disk.bundle, disk.refusals.tail⟩, some ⟨false, host.os_error (path.map Name.text)⟩)

def shownPath (path : Path) : Text := host.display (path.map Name.text)

/-- A full disk has an error of its own. -/
def io_error (path : Path) (e : OsError) : AppError :=
  if e.storage_full then .diskFull
  else .ioError ("write ".toList ++ shownPath host path ++ ": ".toList ++ e.reason)

/-- The debug form of the error of a write. -/
def io_error_debug (path : Path) (e : OsError) : Text :=
  if e.storage_full then "DiskFull".toList
  else
    "IoError(".toList ++
      host.debug ("write ".toList ++ shownPath host path ++ ": ".toList ++ e.reason) ++ ")".toList

/-- What a read finds, and nothing else happens. -/
def readable (path : Path) (bundle : Bundle) : Option Bundle :=
  match bundle.entry path with
  | some .directory | some .link => none
  | some (.file _) | none => some bundle

/-- `create_dir_all`, a level at a time. -/
def createLevels : List Path → Disk → Disk × Option OsError
  | [], disk => (disk, none)
  | level :: rest, disk =>
      if disk.bundle.isDirectory level then createLevels rest disk
      else
        match disk.call host level (·.createDir level) with
        | (disk, some e) => (disk, some e)
        | (disk, none) => createLevels rest disk

/-! ## The journal -/

inductive FileStep where
  /-- The file held `previous` before; nothing, where there was none. -/
  | overwrote (path : Path) (previous : Option FileBytes)
  | renamed (source target : Path)
  /-- Put out of the way, so that undoing the removal is a rename back. -/
  | trashed (original trash : Path)

structure FileJournal where
  disk : Disk
  steps : List FileStep

namespace FileJournal

def overwrite (journal : FileJournal) (path : Path) (contents : FileBytes) (now : Int) :
    FileJournal × Except AppError Unit :=
  match journal.disk.call host path (readable path) with
  | (disk, some e) =>
      (⟨disk, journal.steps⟩,
        .error (.ioError ("read ".toList ++ shownPath host path ++ ": ".toList ++ e.reason)))
  | (disk, none) =>
      match disk.call host path (·.writeFile path contents now) with
      | (written, some e) => (⟨written, journal.steps⟩, .error (io_error host path e))
      | (written, none) =>
          (⟨written, journal.steps ++ [.overwrote path (disk.bundle.read path)]⟩, .ok ())

def rename (journal : FileJournal) (source target : Path) : FileJournal × Except AppError Unit :=
  match createLevels host target.dropLast.inits.tail journal.disk with
  | (disk, some e) =>
      (⟨disk, journal.steps⟩,
        .error (.ioError ("create ".toList ++ shownPath host target.dropLast ++ ": ".toList ++ e.reason)))
  | (disk, none) =>
      match disk.call host source (·.renameEntry source target) with
      | (disk, some e) =>
          (⟨disk, journal.steps⟩,
            .error (.ioError ("rename ".toList ++ shownPath host source ++ " to ".toList ++
              shownPath host target ++ ": ".toList ++ e.reason)))
      | (disk, none) => (⟨disk, journal.steps ++ [.renamed source target]⟩, .ok ())

/-- Moves an entry aside, where there is one. -/
def trash (journal : FileJournal) (path aside : Path) : FileJournal × Except AppError Unit :=
  if journal.disk.bundle.entry path = none then (journal, .ok ())
  else
    match journal.disk.call host path (·.renameEntry path aside) with
    | (disk, some e) =>
        (⟨disk, journal.steps⟩,
          .error (.ioError ("remove ".toList ++ shownPath host path ++ ": ".toList ++ e.reason)))
    | (disk, none) => (⟨disk, journal.steps ++ [.trashed path aside]⟩, .ok ())

end FileJournal

/-- A call whose refusal is only told. -/
def Disk.attempt (disk : Disk) (path : Path) (effect : Bundle → Option Bundle)
    (describe : OsError → Text) : Disk × Option Text :=
  let answer := disk.call host path effect
  (answer.1, answer.2.map describe)

/-- Undoes a step, or tells why it could not. -/
def FileStep.undo (now : Int) (step : FileStep) (disk : Disk) : Disk × Option Text :=
  match step with
  | .overwrote path (some previous) =>
      disk.attempt host path (·.writeFile path previous now) fun e =>
        "restore ".toList ++ shownPath host path ++ ": ".toList ++ io_error_debug host path e
  | .overwrote path none =>
      disk.attempt host path (·.removeFile? path) fun e =>
        "remove ".toList ++ shownPath host path ++ ": ".toList ++ e.reason
  | .renamed source target =>
      disk.attempt host target (·.renameEntry target source) fun e =>
        "move ".toList ++ shownPath host target ++ " back to ".toList ++ shownPath host source ++
          ": ".toList ++ e.reason
  | .trashed original trash =>
      disk.attempt host trash (·.renameEntry trash original) fun e =>
        "restore ".toList ++ shownPath host original ++ ": ".toList ++ e.reason

namespace FileJournal

/-- Undoes every step that can be undone, and reports those that cannot. -/
def rollback (journal : FileJournal) (now : Int) : FileJournal × Option Text :=
  let (disk, failures) := Undo.unwind (FileStep.undo host now) journal.steps journal.disk
  (⟨disk, []⟩,
    failures.head?.map fun first =>
      shown failures.length ++ " of ".toList ++ shown journal.steps.length ++
        " filesystem steps could not be undone, the first being: ".toList ++ first)

end FileJournal

/-- An error behind which a rollback did not succeed. -/
def partWay (error : AppError) (incomplete : Text) : AppError :=
  error.restate fun detail =>
    detail ++ (" — and undoing it did not fully succeed, so the bundle is part-way through this " ++
      "operation on disk: ").toList ++ incomplete

def rolledBack (journal : FileJournal) (now : Int) (error : AppError) : FileJournal × AppError :=
  match journal.rollback host now with
  | (journal, none) => (journal, error)
  | (journal, some incomplete) => (journal, partWay error incomplete)

/-! ## The trees behind the calls -/

def Disk.tree (disk : Disk) : PathTree Name Entry := disk.bundle.entry

/-- What one tree has and another has too, but for directories besides. -/
abbrev Keeps (tree tree' : PathTree Name Entry) : Prop :=
  PathTree.Extends Entry.IsDirectory tree tree'

/-- What a step does when it is undone. -/
def FileStep.undoTree (step : FileStep) (tree : PathTree Name Entry) : PathTree Name Entry :=
  match step with
  | .overwrote path (some previous) => tree.put path (.file previous)
  | .overwrote path none => tree.erase path
  | .renamed source target => tree.move target source
  | .trashed original trash => tree.move trash original

variable {host} {disk : Disk} {path source target : Path} {effect : Bundle → Option Bundle} {now : Int}

theorem Disk.call_done {disk' : Disk} (called : disk.call host path effect = (disk', none)) :
    effect disk.bundle = some disk'.bundle := by
  unfold Disk.call at called
  cases refused : disk.refusals.head?.join with
  | some e =>
    rw [refused] at called
    cases called
  | none =>
    rw [refused] at called
    dsimp only at called
    cases done : effect disk.bundle with
    | none =>
      rw [done] at called
      cases called
    | some bundle =>
      rw [done] at called
      obtain rfl := (Prod.mk.inj called).1
      rfl

theorem Disk.call_refused {disk' : Disk} {e : OsError}
    (called : disk.call host path effect = (disk', some e)) : disk'.bundle = disk.bundle := by
  unfold Disk.call at called
  cases refused : disk.refusals.head?.join with
  | some e =>
    rw [refused] at called
    obtain rfl := (Prod.mk.inj called).1
    rfl
  | none =>
    rw [refused] at called
    dsimp only at called
    cases done : effect disk.bundle with
    | none =>
      rw [done] at called
      obtain rfl := (Prod.mk.inj called).1
      rfl
    | some bundle =>
      rw [done] at called
      cases called

/-- A call that nothing stands in the way of is made. -/
theorem Disk.call_free {bundle : Bundle} (free : disk.refusals = []) (made : effect disk.bundle = some bundle) :
    disk.call host path effect = (⟨bundle, []⟩, none) := by
  unfold Disk.call
  rw [free]
  dsimp only [List.head?_nil, Option.join, Option.bind, List.tail_nil]
  rw [made]

/-- The first answer with which the system refuses a call of its own accord. -/
def firstRefusal (refusals : List (Option OsError)) : Option OsError := refusals.reduceOption.head?

theorem Disk.call_passes {disk' : Disk} (called : disk.call host path effect = (disk', none)) :
    firstRefusal disk'.refusals = firstRefusal disk.refusals := by
  unfold Disk.call at called
  rcases disk with ⟨bundle, _ | ⟨_ | e, refusals⟩⟩
  · dsimp only [List.head?_nil, Option.join, Option.bind, List.tail_nil] at called
    cases done : effect bundle with
    | none =>
      rw [done] at called
      cases called
    | some bundle' =>
      rw [done] at called
      cases called
      rfl
  · dsimp only [List.head?_cons, Option.join, Option.bind, List.tail_cons, id] at called
    cases done : effect bundle with
    | none =>
      rw [done] at called
      cases called
    | some bundle' =>
      rw [done] at called
      cases called
      rfl
  · cases called

/-- A call is refused by the system, or it cannot be made. -/
theorem Disk.call_answer {disk' : Disk} {e : OsError}
    (called : disk.call host path effect = (disk', some e)) :
    firstRefusal disk.refusals = some e ∨
      effect disk.bundle = none ∧ e = ⟨false, host.os_error (path.map Name.text)⟩ := by
  unfold Disk.call at called
  cases refused : disk.refusals.head?.join with
  | some answer =>
    rw [refused] at called
    cases called
    left
    cases shape : disk.refusals with
    | nil =>
      rw [shape] at refused
      cases refused
    | cons first rest =>
      rw [shape] at refused
      obtain rfl : first = some e := refused
      rfl
  | none =>
    rw [refused] at called
    dsimp only at called
    cases done : effect disk.bundle with
    | none =>
      rw [done] at called
      cases called
      exact Or.inr ⟨rfl, rfl⟩
    | some bundle =>
      rw [done] at called
      cases called

theorem readable_eq_some {bundle bundle' : Bundle} (found : readable path bundle = some bundle') :
    bundle' = bundle ∧ bundle.entry path = (bundle.read path).map Entry.file := by
  unfold readable at found
  have known : bundle.entry path ≠ some .directory ∧ bundle.entry path ≠ some .link ∧ bundle' = bundle := by
    cases listed : bundle.entry path with
    | none =>
      rw [listed] at found
      exact ⟨fun same => (by cases same), fun same => (by cases same), (Option.some.inj found).symm⟩
    | some entry =>
      rw [listed] at found
      cases entry with
      | file contents =>
        exact ⟨fun same => (by cases same), fun same => (by cases same), (Option.some.inj found).symm⟩
      | directory => cases found
      | link => cases found
  refine ⟨known.2.2, ?_⟩
  cases read : bundle.read path with
  | some contents =>
    have root : path ≠ [] := by
      intro isRoot
      exact known.1 (isRoot ▸ Bundle.entry_root)
    unfold Bundle.entry
    rw [if_neg root, read]
    rfl
  | none =>
    cases listed : bundle.entry path with
    | none => rfl
    | some entry =>
      cases entry with
      | directory => exact absurd listed known.1
      | link => exact absurd listed known.2.1
      | file contents =>
        unfold Bundle.entry at listed
        rw [read] at listed
        dsimp only at listed
        split_ifs at listed <;> cases listed

/-- Directories are all that `create_dir_all` adds, and it adds the levels it was asked for. -/
theorem createLevels_spec {levels : List Path} {disk' : Disk} {refused : Option OsError}
    (created : createLevels host levels disk = (disk', refused)) :
    Keeps disk.bundle.entry disk'.bundle.entry ∧
      (∀ path, path ∉ levels → disk'.bundle.entry path = disk.bundle.entry path) ∧
      (disk.bundle.entry.Rooted Entry.IsDirectory → disk'.bundle.entry.Rooted Entry.IsDirectory) := by
  induction levels generalizing disk with
  | nil =>
    obtain rfl := (Prod.mk.inj created).1
    exact ⟨.refl _, fun _ _ => rfl, fun rooted => rooted⟩
  | cons level rest ih =>
    unfold createLevels at created
    by_cases present : disk.bundle.isDirectory level = true
    · rw [if_pos present] at created
      rcases ih created with ⟨keeps, others, rooted⟩
      exact ⟨keeps, fun path away => others path fun mem => away (List.mem_cons_of_mem _ mem), rooted⟩
    · rw [if_neg present] at created
      cases called : disk.call host level (·.createDir level) with
      | mk next answer =>
        rw [called] at created
        cases answer with
        | some e =>
          obtain rfl := (Prod.mk.inj created).1
          rw [Disk.call_refused called]
          exact ⟨.refl _, fun _ _ => rfl, fun rooted => rooted⟩
        | none =>
          rcases Bundle.createDir_eq_some (Disk.call_done called) with ⟨vacant, parent, -, tree⟩
          rcases ih created with ⟨keeps, others, rooted⟩
          rw [tree] at keeps others rooted
          refine ⟨.trans (.put_debris vacant rfl) keeps, ?_, ?_⟩
          · intro path away
            rw [others path fun mem => away (List.mem_cons_of_mem _ mem), PathTree.put_apply, if_neg]
            rintro rfl
            exact away List.mem_cons_self
          · intro before
            exact rooted (before.put parent rfl (Or.inr rfl))

theorem createLevels_passes {levels : List Path} {disk' : Disk}
    (created : createLevels host levels disk = (disk', none)) :
    firstRefusal disk'.refusals = firstRefusal disk.refusals := by
  induction levels generalizing disk with
  | nil =>
    obtain rfl := (Prod.mk.inj created).1
    rfl
  | cons level rest ih =>
    unfold createLevels at created
    by_cases present : disk.bundle.isDirectory level = true
    · rw [if_pos present] at created
      exact ih created
    · rw [if_neg present] at created
      cases called : disk.call host level (·.createDir level) with
      | mk next answer =>
        rw [called] at created
        cases answer with
        | some e => cases (Prod.mk.inj created).2
        | none =>
          rw [ih created]
          exact Disk.call_passes called

theorem createLevels_answer {levels : List Path} {disk' : Disk} {e : OsError}
    (created : createLevels host levels disk = (disk', some e)) :
    firstRefusal disk.refusals = some e ∨
      ∃ level ∈ levels, e = ⟨false, host.os_error (level.map Name.text)⟩ := by
  induction levels generalizing disk with
  | nil => cases (Prod.mk.inj created).2
  | cons level rest ih =>
    have later {next : Disk} (passes : firstRefusal next.refusals = firstRefusal disk.refusals)
        (created : createLevels host rest next = (disk', some e)) :
        firstRefusal disk.refusals = some e ∨
          ∃ other ∈ level :: rest, e = ⟨false, host.os_error (other.map Name.text)⟩ := by
      rw [← passes]
      refine (ih created).imp_right ?_
      rintro ⟨other, mem, isOwn⟩
      exact ⟨other, List.mem_cons_of_mem _ mem, isOwn⟩
    unfold createLevels at created
    by_cases present : disk.bundle.isDirectory level = true
    · rw [if_pos present] at created
      exact later rfl created
    · rw [if_neg present] at created
      cases called : disk.call host level (·.createDir level) with
      | mk next answer =>
        rw [called] at created
        cases answer with
        | some refused =>
          cases created
          exact (Disk.call_answer called).imp_right fun own => ⟨level, List.mem_cons_self, own.2⟩
        | none => exact later (Disk.call_passes called) created

/-- The levels of the directory of a path are above it. -/
theorem not_mem_levels {path : Path} (under : target <+: path) (root : target ≠ []) :
    path ∉ target.dropLast.inits.tail := by
  intro mem
  have level := (List.mem_inits _ _).mp (List.mem_of_mem_tail mem)
  have shorter := (under.trans level).length_le
  rw [List.length_dropLast] at shorter
  have positive := List.length_pos_iff.mpr root
  omega

/-! ## Logged steps -/

/-- The log of a journal leads from a start to the tree that there is now. -/
def FileJournal.Logs (start : PathTree Name Entry) (journal : FileJournal) : Prop :=
  Undo.Logged Keeps FileStep.undoTree start journal.steps journal.disk.bundle.entry

theorem keeps_undoTree (step : FileStep) (tree tree' : PathTree Name Entry) (keeps : Keeps tree tree') :
    Keeps (step.undoTree tree) (step.undoTree tree') := by
  cases step with
  | overwrote path previous =>
    cases previous with
    | some previous => exact keeps.put
    | none => exact keeps.erase
  | renamed source target => exact keeps.move
  | trashed original trash => exact keeps.move

variable {start : PathTree Name Entry} {journal journal' : FileJournal} {contents : FileBytes}
  {result : Except AppError Unit}

/-- The step of an overwrite undoes it. -/
theorem undoTree_overwrote {bundle : Bundle}
    (listed : bundle.entry path = (bundle.read path).map Entry.file) (contents : FileBytes) :
    (FileStep.overwrote path (bundle.read path)).undoTree (bundle.entry.put path (.file contents)) =
      bundle.entry := by
  cases read : bundle.read path with
  | some previous =>
    rw [read] at listed
    exact PathTree.put_restores listed
  | none =>
    rw [read] at listed
    exact PathTree.erase_restores listed

/-- What an overwrite does to a journal. -/
theorem overwrite_cases (done : journal.overwrite host path contents now = (journal', result)) :
    (journal'.steps = journal.steps ∧ journal'.disk.bundle = journal.disk.bundle ∧
      ∃ error, result = .error error) ∨
    (journal.disk.bundle.entry path = (journal.disk.bundle.read path).map Entry.file ∧
      journal.disk.bundle.writeFile path contents now = some journal'.disk.bundle ∧
      journal'.steps = journal.steps ++ [.overwrote path (journal.disk.bundle.read path)] ∧
      result = .ok ()) := by
  unfold FileJournal.overwrite at done
  cases isRead : journal.disk.call host path (readable path) with
  | mk disk refused =>
    rw [isRead] at done
    cases refused with
    | some e =>
      obtain ⟨rfl, rfl⟩ := Prod.mk.inj done
      exact Or.inl ⟨rfl, Disk.call_refused isRead, _, rfl⟩
    | none =>
      rcases readable_eq_some (Disk.call_done isRead) with ⟨same, listed⟩
      dsimp only at done
      cases written : disk.call host path (·.writeFile path contents now) with
      | mk next refused =>
        rw [written] at done
        cases refused with
        | some e =>
          obtain ⟨rfl, rfl⟩ := Prod.mk.inj done
          exact Or.inl ⟨rfl, (Disk.call_refused written).trans same, _, rfl⟩
        | none =>
          have made := Disk.call_done written
          rw [same] at made done
          obtain ⟨rfl, rfl⟩ := Prod.mk.inj done
          exact Or.inr ⟨listed, made, rfl, rfl⟩

theorem FileJournal.Logs.overwrite (logs : journal.Logs start)
    (done : journal.overwrite host path contents now = (journal', result)) : journal'.Logs start := by
  unfold FileJournal.Logs at logs ⊢
  rcases overwrite_cases done with ⟨steps, same, -⟩ | ⟨listed, written, steps, -⟩
  · rw [steps, same]
    exact logs
  · rcases Bundle.writeFile_eq_some written with ⟨-, -, -, -, tree⟩
    rw [steps, tree]
    apply Undo.Logged.step logs
    rw [undoTree_overwrote listed]
    exact .refl _

/-- What a rename does to a journal: the directories on the way, and then the rename itself. -/
theorem rename_cases (done : journal.rename host source target = (journal', result)) :
    ∃ disk refused, createLevels host target.dropLast.inits.tail journal.disk = (disk, refused) ∧
      ((journal'.steps = journal.steps ∧ journal'.disk.bundle = disk.bundle ∧
        ∃ error, result = .error error) ∨
      (refused = none ∧ disk.bundle.renameEntry source target = some journal'.disk.bundle ∧
        journal'.steps = journal.steps ++ [.renamed source target] ∧ result = .ok ())) := by
  unfold FileJournal.rename at done
  cases created : createLevels host target.dropLast.inits.tail journal.disk with
  | mk disk refused =>
    rw [created] at done
    refine ⟨disk, refused, rfl, ?_⟩
    cases refused with
    | some e =>
      obtain ⟨rfl, rfl⟩ := Prod.mk.inj done
      exact Or.inl ⟨rfl, rfl, _, rfl⟩
    | none =>
      dsimp only at done
      cases renamed : disk.call host source (·.renameEntry source target) with
      | mk next refused =>
        rw [renamed] at done
        cases refused with
        | some e =>
          obtain ⟨rfl, rfl⟩ := Prod.mk.inj done
          exact Or.inl ⟨rfl, Disk.call_refused renamed, _, rfl⟩
        | none =>
          obtain ⟨rfl, rfl⟩ := Prod.mk.inj done
          exact Or.inr ⟨rfl, Disk.call_done renamed, rfl, rfl⟩

/-- A rename can be undone that goes to a free place, or nowhere. -/
def Clear (tree : PathTree Name Entry) (source target : Path) : Prop :=
  source = target ∨ target ≠ [] ∧ tree.Free target

theorem Clear.restores {tree : PathTree Name Entry} (clear : Clear tree source target) :
    (tree.move source target).move target source = tree := by
  rcases clear with same | ⟨-, free⟩
  · rw [same, PathTree.move_self, PathTree.move_self]
  · exact PathTree.move_restores free

/-- The directories on the way leave the target as it is. -/
theorem Clear.created {disk' : Disk} {refused : Option OsError}
    (clear : Clear disk.bundle.entry source target)
    (created : createLevels host target.dropLast.inits.tail disk = (disk', refused)) :
    Clear disk'.bundle.entry source target := by
  rcases clear with same | ⟨root, free⟩
  · exact Or.inl same
  · refine Or.inr ⟨root, ?_⟩
    intro other under
    rw [(createLevels_spec created).2.1 other (not_mem_levels under root)]
    exact free other under

theorem FileJournal.Logs.rename (logs : journal.Logs start)
    (clear : Clear journal.disk.bundle.entry source target)
    (done : journal.rename host source target = (journal', result)) : journal'.Logs start := by
  unfold FileJournal.Logs at logs ⊢
  rcases rename_cases done with ⟨disk, refused, created, outcome⟩
  have between : Undo.Logged Keeps FileStep.undoTree start journal.steps disk.bundle.entry :=
    Undo.Logged.drift logs (createLevels_spec created).1
  rcases outcome with ⟨steps, same, -⟩ | ⟨-, renamed, steps, -⟩
  · rw [steps, same]
    exact between
  · rcases Bundle.renameEntry_eq_some renamed with ⟨-, tree, -⟩
    rw [steps, tree]
    apply Undo.Logged.step between
    change Keeps _ (PathTree.move (PathTree.move _ source target) target source)
    rw [(clear.created created).restores]
    exact .refl _

/-- A path is put aside, unless there is nothing at it or the system refuses. -/
theorem trash_cases {aside : Path} (done : journal.trash host path aside = (journal', result)) :
    (journal'.steps = journal.steps ∧ journal'.disk.bundle = journal.disk.bundle ∧
      (result = .ok () → journal.disk.bundle.entry path = none)) ∨
      (journal.disk.bundle.renameEntry path aside = some journal'.disk.bundle ∧
        journal'.steps = journal.steps ++ [.trashed path aside] ∧ result = .ok ()) := by
  unfold FileJournal.trash at done
  by_cases absent : journal.disk.bundle.entry path = none
  · rw [if_pos absent] at done
    obtain rfl := (Prod.mk.inj done).1
    exact Or.inl ⟨rfl, rfl, fun _ => absent⟩
  · rw [if_neg absent] at done
    cases called : journal.disk.call host path (·.renameEntry path aside) with
    | mk disk refused =>
      rw [called] at done
      cases refused with
      | some e =>
        obtain ⟨rfl, rfl⟩ := Prod.mk.inj done
        exact Or.inl ⟨rfl, Disk.call_refused called, fun isOk => by cases isOk⟩
      | none =>
        obtain ⟨rfl, rfl⟩ := Prod.mk.inj done
        exact Or.inr ⟨Disk.call_done called, rfl, rfl⟩

/-! ## Rolling back -/

theorem Disk.attempt_done {describe : OsError → Text}
    (done : (disk.attempt host path effect describe).2 = none) :
    effect disk.bundle = some (disk.attempt host path effect describe).1.bundle :=
  Disk.call_done (Prod.ext rfl (Option.map_eq_none_iff.mp done))

/-- A step that is undone with no failure is undone. -/
theorem FileStep.undo_honest (step : FileStep) (disk : Disk) (done : (step.undo host now disk).2 = none) :
    (step.undo host now disk).1.tree = step.undoTree disk.tree := by
  cases step with
  | overwrote path previous =>
    cases previous with
    | some previous => exact (Bundle.writeFile_eq_some (Disk.attempt_done done)).2.2.2.2
    | none => exact (Bundle.removeFile?_eq_some (Disk.attempt_done done)).2.2
  | renamed source target => exact (Bundle.renameEntry_eq_some (Disk.attempt_done done)).2.1
  | trashed original trash => exact (Bundle.renameEntry_eq_some (Disk.attempt_done done)).2.1

/-- A rollback that reports nothing leaves all that there was, and at most directories besides. -/
theorem FileJournal.Logs.rollback (logs : journal.Logs start)
    (complete : (journal.rollback host now).2 = none) :
    Keeps start (journal.rollback host now).1.disk.bundle.entry := by
  have none_ : (Undo.unwind (FileStep.undo host now) journal.steps journal.disk).2 = [] := by
    unfold FileJournal.rollback at complete
    dsimp only at complete
    rw [Option.map_eq_none_iff, List.head?_eq_none_iff] at complete
    exact complete
  have tree := Undo.unwind_view FileStep.undo_honest none_
  change Keeps start (Undo.unwind (FileStep.undo host now) journal.steps journal.disk).1.tree
  rw [tree]
  exact Undo.Logged.restores (fun _ => .refl _) (fun _ _ _ => .trans) keeps_undoTree logs

/-! ## What can be undone -/

/-- An entry can be moved to a place that has nothing. -/
structure Movable (tree : PathTree Name Entry) (source target : Path) : Prop where
  held : (tree source).isSome
  apart : source = target ∨ ¬ source <+: target ∧ ¬ target <+: source ∧ tree target = none ∧
    tree target.dropLast = some .directory

theorem Movable.renames {bundle : Bundle} (movable : Movable bundle.entry source target) :
    ∃ bundle', bundle.renameEntry source target = some bundle' := by
  unfold Bundle.renameEntry
  rw [if_neg (Option.isSome_iff_ne_none.mp movable.held)]
  by_cases same : source = target
  · exact ⟨bundle, if_pos same⟩
  · rcases movable.apart with same' | ⟨inside, under, vacant, parent⟩
    · exact absurd same' same
    · refine ⟨(bundle.removeTree target).rename source target, ?_⟩
      have allowed : (bundle.isDirectory target.dropLast && bundle.replaces source target) = true := by
        unfold Bundle.replaces
        rw [vacant]
        exact Bool.and_eq_true_iff.mpr ⟨Bundle.isDirectory_iff.mpr parent, rfl⟩
      rw [if_neg same, if_neg (not_or.mpr ⟨inside, under⟩), if_pos allowed]

/-- Nothing stands in the way of undoing a step. -/
def FileStep.CanUndo (step : FileStep) (tree : PathTree Name Entry) : Prop :=
  match step with
  | .overwrote path _ =>
      (∃ contents, tree path = some (.file contents)) ∧ tree path.dropLast = some .directory
  | .renamed source target => Movable tree target source
  | .trashed original trash => Movable tree trash original

theorem FileStep.CanUndo.undone {step : FileStep} (can : step.CanUndo disk.tree) (free : disk.refusals = []) :
    (step.undo host now disk).2 = none ∧ (step.undo host now disk).1.refusals = [] := by
  have made {path : Path} {effect : Bundle → Option Bundle} {describe : OsError → Text}
      (made : ∃ bundle, effect disk.bundle = some bundle) :
      (disk.attempt host path effect describe).2 = none ∧
        (disk.attempt host path effect describe).1.refusals = [] := by
    rcases made with ⟨bundle, made⟩
    unfold Disk.attempt
    rw [Disk.call_free free made]
    exact ⟨rfl, rfl⟩
  cases step with
  | overwrote path previous =>
    rcases can with ⟨⟨contents, file⟩, parent⟩
    unfold Disk.tree at file parent
    cases previous with
    | some previous =>
      apply made
      refine ⟨disk.bundle.atomicWrite path previous now, ?_⟩
      unfold Bundle.writeFile
      rw [file]
      exact if_pos (Bundle.isDirectory_iff.mpr parent)
    | none =>
      apply made
      refine ⟨disk.bundle.unlink path, ?_⟩
      unfold Bundle.removeFile?
      rw [file]
  | renamed source target => exact made can.renames
  | trashed original trash => exact made can.renames

/-- Every step of a log can be undone in its turn. -/
inductive Undoable : List FileStep → PathTree Name Entry → Prop
  | nil (tree : PathTree Name Entry) : Undoable [] tree
  | step {steps : List FileStep} {step : FileStep} {tree : PathTree Name Entry} :
      step.CanUndo tree → Undoable steps (step.undoTree tree) → Undoable (steps ++ [step]) tree

theorem Undoable.last {steps : List FileStep} {step : FileStep} {tree : PathTree Name Entry}
    (undoable : Undoable (steps ++ [step]) tree) :
    step.CanUndo tree ∧ Undoable steps (step.undoTree tree) := by
  generalize same : steps ++ [step] = whole at undoable
  cases undoable with
  | nil => exact absurd same (List.append_ne_nil_of_right_ne_nil _ (List.cons_ne_nil _ _))
  | step can rest =>
    obtain ⟨rfl, isStep⟩ := List.append_inj' same rfl
    obtain rfl := List.head_eq_of_cons_eq isStep
    exact ⟨can, rest⟩

/-- A journal that can be undone is, where the system refuses nothing. -/
theorem Undoable.rollback (undoable : Undoable journal.steps journal.disk.tree)
    (free : journal.disk.refusals = []) : (journal.rollback host now).2 = none := by
  have complete := @Undo.unwind_complete _ _ _ journal.steps (FileStep.undo host now) journal.disk
    (fun steps disk => disk.refusals = [] ∧ Undoable steps disk.tree)
    (by
      rintro steps step disk ⟨free, undoable⟩
      rcases undoable.last with ⟨can, rest⟩
      rcases @FileStep.CanUndo.undone host disk now step can free with ⟨done, free⟩
      refine ⟨done, free, ?_⟩
      rw [FileStep.undo_honest step disk done]
      exact rest)
    ⟨free, undoable⟩
  unfold FileJournal.rollback
  dsimp only
  rw [complete]
  rfl

/-- Only files were written so far. -/
def Overwrites (steps : List FileStep) : Prop :=
  ∀ step ∈ steps, ∃ path previous, step = .overwrote path previous

/-- More directories do not stand in the way of putting files back. -/
theorem Undoable.mono {steps : List FileStep} {tree tree' : PathTree Name Entry}
    (undoable : Undoable steps tree) (overwrites : Overwrites steps) (keeps : Keeps tree tree') :
    Undoable steps tree' := by
  induction undoable generalizing tree' with
  | nil tree => exact .nil tree'
  | @step steps step tree can rest ih =>
    rcases overwrites step (List.mem_append_right _ List.mem_cons_self) with ⟨path, previous, rfl⟩
    rcases can with ⟨⟨contents, file⟩, parent⟩
    refine .step ⟨⟨contents, keeps.kept file⟩, keeps.kept parent⟩ (ih ?_ (keeps_undoTree _ _ _ keeps))
    intro other mem
    exact overwrites other (List.mem_append_left _ mem)

/-- A journal in which only files were written, over a bundle that is a tree. -/
structure FileJournal.Prepared (journal : FileJournal) : Prop where
  rooted : journal.disk.bundle.entry.Rooted Entry.IsDirectory
  overwrites : Overwrites journal.steps
  undoable : Undoable journal.steps journal.disk.bundle.entry

theorem FileJournal.Prepared.overwrite (prepared : journal.Prepared)
    (done : journal.overwrite host path contents now = (journal', result)) : journal'.Prepared := by
  rcases overwrite_cases done with ⟨steps, same, -⟩ | ⟨listed, written, steps, -⟩
  · constructor
    · rw [same]
      exact prepared.rooted
    · rw [steps]
      exact prepared.overwrites
    · rw [steps, same]
      exact prepared.undoable
  · rcases Bundle.writeFile_eq_some written with ⟨notDirectory, notLink, parent, -, tree⟩
    have below : path ≠ [] := by
      intro root
      exact notDirectory (root ▸ Bundle.entry_root)
    have shorter : path.dropLast ≠ path := by
      intro same
      have lengths := congrArg List.length same
      rw [List.length_dropLast] at lengths
      have positive := List.length_pos_iff.mpr below
      omega
    constructor
    · rw [tree]
      apply prepared.rooted.put parent rfl
      apply Or.inl
      rintro entry held isDirectory
      rw [isDirectory] at held
      exact notDirectory held
    · intro step mem
      rw [steps] at mem
      rcases List.mem_append.mp mem with mem | mem
      · exact prepared.overwrites step mem
      · exact ⟨path, _, List.mem_singleton.mp mem⟩
    · rw [steps, tree]
      apply Undoable.step
      · refine ⟨⟨contents, PathTree.put_self⟩, ?_⟩
        rw [PathTree.put_apply, if_neg shorter]
        exact parent
      · rw [undoTree_overwrote listed]
        exact prepared.undoable

/-- What was moved can be moved back. -/
theorem movable_back {bundle bundle' : Bundle} (rooted : bundle.entry.Rooted Entry.IsDirectory)
    (renamed : bundle.renameEntry source target = some bundle') :
    Movable bundle'.entry target source := by
  rcases Bundle.renameEntry_eq_some renamed with ⟨held, tree, moved⟩
  rw [tree]
  constructor
  · rw [PathTree.move_target]
    exact held
  · by_cases same : source = target
    · exact Or.inl same.symm
    · rcases moved same with ⟨inside, under, parent, -⟩
      refine Or.inr ⟨under, inside, PathTree.move_source under (List.prefix_refl _), ?_⟩
      have root : source ≠ [] := by
        rintro rfl
        exact inside (List.nil_prefix)
      have shorter : ¬ source <+: source.dropLast := by
        intro within
        have lengths := within.length_le
        rw [List.length_dropLast] at lengths
        have positive := List.length_pos_iff.mpr root
        omega
      have outside : ¬ target <+: source.dropLast := by
        intro within
        exact under (within.trans (List.dropLast_prefix source))
      rw [PathTree.move_other outside shorter]
      rw [← List.dropLast_concat_getLast root] at held
      rcases rooted _ _ held with ⟨entry, found, isDirectory⟩
      rw [found, isDirectory]

theorem FileJournal.Prepared.rename (prepared : journal.Prepared)
    (clear : Clear journal.disk.bundle.entry source target)
    (done : journal.rename host source target = (journal', result)) :
    Undoable journal'.steps journal'.disk.tree := by
  rcases rename_cases done with ⟨disk, refused, created, outcome⟩
  rcases createLevels_spec created with ⟨keeps, -, rooted⟩
  have between := prepared.undoable.mono prepared.overwrites keeps
  unfold Disk.tree
  rcases outcome with ⟨steps, same, -⟩ | ⟨-, renamed, steps, -⟩
  · rw [steps, same]
    exact between
  · rw [steps]
    apply Undoable.step
    · exact movable_back (rooted prepared.rooted) renamed
    · rw [(Bundle.renameEntry_eq_some renamed).2.1]
      change Undoable _ (PathTree.move (PathTree.move _ source target) target source)
      rw [(clear.created created).restores]
      exact between

end Lifecycle

end Burlmd
