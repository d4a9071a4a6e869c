import Burlmd.Lifecycle.Journal
import Burlmd.Lifecycle.ForeignKept

/-!
# Deletions

A deletion as the code runs it, call by call and with a journal. What is deleted is put aside first,
and removed for good once the rows are gone. What fails behind the publication is told as a warning.
-/

namespace Burlmd

open Utf8 (Text)

/-- The debug form of an error. -/
def AppError.debug (host : Host) (error : AppError) : Text :=
  let with_ (name detail : Text) : Text := name ++ "(".toList ++ host.debug detail ++ ")".toList
  match error with
  | .diskFull => "DiskFull".toList
  | .authExpired => "AuthExpired".toList
  | .revisionMismatch revision => with_ "RevisionMismatch".toList revision
  | .gitConflict => "GitConflict".toList
  | .pathUnavailable detail => with_ "PathUnavailable".toList detail
  | .notFound detail => with_ "NotFound".toList detail
  | .databaseError detail => with_ "DatabaseError".toList detail
  | .cryptoError detail => with_ "CryptoError".toList detail
  | .networkError detail => with_ "NetworkError".toList detail
  | .oAuthStateMismatch => "OAuthStateMismatch".toList
  | .oAuthError detail => with_ "OAuthError".toList detail
  | .ioError detail => with_ "IoError".toList detail
  | .parseError detail => with_ "ParseError".toList detail

namespace Lifecycle

open Workspace
open Index (WorkspaceId Database fileStem)
open Okf (ConceptId conceptIdToPath slash)
open Checked

variable (host : Host) (workspace_id : WorkspaceId)

/-! ## The trash -/

theorem nameable_trashName (path : Path) (pid next : Nat) : Nameable (trashName path.getLast? pid next) := by
  have digits (n : Nat) (c : Char) (mem : c ∈ shown n) : c.isDigit = true :=
    List.all_eq_true.mp (Bool.and_eq_true_iff.mp (is_decimal_shown n)).2 c mem
  have free (c : Char) (starts : c ∉ TRASH_PREFIX) (stem : c ∉ stemOf path.getLast?) (dot : c ≠ '.')
      (digit : c.isDigit = false) : c ∉ trashName path.getLast? pid next := by
    intro mem
    unfold trashName at mem
    rcases List.mem_append.mp mem with mem | mem
    · rcases List.mem_append.mp mem with mem | mem
      · rcases List.mem_append.mp mem with mem | mem
        · exact starts mem
        · exact stem mem
      · rcases List.mem_cons.mp mem with same | mem
        · exact dot same
        · rw [digits pid c mem] at digit
          cases digit
    · rcases List.mem_cons.mp mem with same | mem
      · exact dot same
      · rw [digits next c mem] at digit
        cases digit
  have long : 14 ≤ (trashName path.getLast? pid next).length := by
    unfold trashName
    rw [List.length_append, List.length_append, List.length_append]
    have prefixed : TRASH_PREFIX.length = 14 := by decide
    omega
  have stem (c : Char) (isBad : c = slash ∨ c = '\x00') : c ∉ stemOf path.getLast? := by
    cases path.getLast? with
    | none => rcases isBad with rfl | rfl <;> decide
    | some name =>
      rcases isBad with rfl | rfl
      · exact name.nameable.2.2.2.1
      · exact name.nameable.2.2.2.2
  refine ⟨?_, ?_, ?_, ?_, ?_⟩
  · intro same
    rw [same] at long
    exact absurd long (by decide)
  · intro same
    rw [same] at long
    exact absurd long (by decide)
  · intro same
    rw [same] at long
    exact absurd long (by decide)
  · exact free slash (by decide) (stem slash (Or.inl rfl)) (by decide) (by decide)
  · exact free '\x00' (by decide) (stem _ (Or.inr rfl)) (by decide) (by decide)

/-- The name under which a path is put aside. -/
def asideOf (path : Path) (pid next : Nat) : Path :=
  path.dropLast ++ [⟨trashName path.getLast? pid next, nameable_trashName path pid next⟩]

/-- `remove_dir_all` stops at the first call that is refused. -/
def removeEach : List Path → Disk → Disk × Option OsError
  | [], disk => (disk, none)
  | path :: rest, disk =>
      match disk.call host path (·.removeEntry path) with
      | (disk, some e) => (disk, some e)
      | (disk, none) => removeEach rest disk

def removeAside (trash : Path) (disk : Disk) : Disk × Option OsError :=
  match disk.bundle.entry trash with
  | some .directory => removeEach host (disk.bundle.beneath trash) disk
  | some (.file _) | some .link => disk.call host trash (·.removeFile? trash)
  | none => (disk, none)

def FileStep.discardTrash (step : FileStep) (disk : Disk) : Disk × Option AppError :=
  match step with
  | .overwrote _ _ | .renamed _ _ => (disk, none)
  | .trashed _ trash =>
      match removeAside host trash disk with
      | (disk, none) => (disk, none)
      | (disk, some e) =>
          (disk, some <| .ioError <|
            "remove recovery trash ".toList ++ shownPath host trash ++ ": ".toList ++ e.reason)

def discardEach : List FileStep → Disk → Disk × List AppError
  | [], disk => (disk, [])
  | step :: steps, disk =>
      let (disk, failure) := step.discardTrash host disk
      let (disk, failures) := discardEach steps disk
      (disk, failure.toList ++ failures)

namespace FileJournal

/-- Keeps every step, and discards what was put aside. -/
def commit (journal : FileJournal) : FileJournal × Except AppError Unit :=
  match discardEach host journal.steps journal.disk with
  | (disk, []) => (⟨disk, []⟩, .ok ())
  | (disk, failures) =>
      -- the steps stay for the retry of `drop`
      (⟨disk, journal.steps⟩,
        .error <| .ioError <| "could not remove ".toList ++ shown failures.length ++
          " recovery trash artifact(s): ".toList ++
            "; ".toList.intercalate (failures.map (AppError.debug host)))

def drop (journal : FileJournal) : Disk := (discardEach host journal.steps journal.disk).1

end FileJournal

/-! ## Warnings -/

inductive LifecycleWarningStage where
  | commit
  | settlement
  deriving DecidableEq, Repr

inductive LifecycleTerminal where
  | applied (removed : List ConceptId)
  | appliedWithWarning (removed : List ConceptId) (stage : LifecycleWarningStage) (detail : Text)
  deriving DecidableEq, Repr

def LifecycleTerminal.removed : LifecycleTerminal → List ConceptId
  | applied removed => removed
  | appliedWithWarning removed _ _ => removed

def LifecycleTerminal.stage? : LifecycleTerminal → Option LifecycleWarningStage
  | applied _ => none
  | appliedWithWarning _ stage _ => some stage

/-- The operation has happened, and version history does not record it. -/
def commitStageFailure (subject : Text) (error : AppError) (best_effort : List Text) : AppError :=
  let trailer : Text :=
    if best_effort = [] then []
    else
      " (also, best-effort steps did not run: ".toList ++ "; ".toList.intercalate best_effort ++
        ")".toList
  error.restate fun detail =>
    subject ++ (": the operation completed — the bundle and the index have both moved — but the commit " ++
      "recording it in version history failed, so the Workspace is uncommitted: ").toList ++ detail ++ trailer

/-! ## Deleting -/

def failure? (result : Except AppError Unit) : Option AppError :=
  match result with
  | .ok () => none
  | .error error => some error

/-- What stands in the way of a deletion. -/
structure DeletionFaults where
  /-- To the calls that put aside. -/
  refusals : List (Option OsError)
  /-- To the calls that settle the journal. -/
  settle_refusals : List (Option OsError)
  /-- A statement of the publication that fails. -/
  publication : Option AppError
  /-- Why version history does not record the deletion. -/
  commit : Option AppError

/-- What a deletion is about to remove, and how it names it. -/
structure Removal where
  path : Path
  aside : Path
  /-- The rows that stay. -/
  db : Database
  /-- The sessions to retire. -/
  gone : List ConceptId
  removed : List ConceptId
  subject : Text
  kind : Text

/-- Behind the publication a failure is a warning, and that of the commit comes first. -/
def Removal.terminal (removal : Removal) (committed cleanup : Option AppError) : LifecycleTerminal :=
  match committed, cleanup with
  | some error, cleanup =>
      let also := cleanup.toList.map fun error =>
        "removing the recovery trash artifact: ".toList ++ error.debug host
      .appliedWithWarning removal.removed .commit
        ((commitStageFailure removal.subject error also).debug host)
  | none, some error =>
      .appliedWithWarning removal.removed .settlement
        ("the deleted ".toList ++ removal.kind ++
          " remains removed, but a recovery trash artifact could not be removed: ".toList ++
            error.debug host)
  | none, none => .applied removal.removed

/-- The rows are gone, and what is left of the deletion is settled. -/
def Removal.settle (removal : Removal) (core : Core) (journal : FileJournal) (faults : DeletionFaults) :
    Core × LifecycleTerminal :=
  let (journal, cleanup) :=
    (⟨⟨journal.disk.bundle, faults.settle_refusals⟩, journal.steps⟩ : FileJournal).commit host
  let core := removal.gone.foldl discardSession { core with db := removal.db }
  ({ core with bundle := (journal.drop host).bundle },
    removal.terminal host faults.commit (failure? cleanup))

/-- Puts what is deleted aside, removes its rows, and settles. -/
def Removal.carryOut (removal : Removal) (core : Core) (now : Int) (faults : DeletionFaults) :
    Core × Except AppError LifecycleTerminal :=
  match (⟨⟨core.bundle, faults.refusals⟩, []⟩ : FileJournal).trash host removal.path removal.aside with
  | (journal, .error error) => ({ core with bundle := journal.disk.bundle }, .error error)
  | (journal, .ok ()) =>
      match faults.publication with
      | some error =>
          let (journal, error) :=
            rolledBack host ⟨⟨journal.disk.bundle, faults.settle_refusals⟩, journal.steps⟩ now error
          ({ core with bundle := journal.disk.bundle }, .error error)
      | none =>
          let (core, terminal) := removal.settle host core journal faults
          (core, .ok terminal)

/-- Which Note is deleted, once it is known to have a file or a row. -/
def removalOfNote (core : Core) (note_id : ConceptId) (path : Path) (pid next : Nat) : Removal where
  path
  aside := asideOf path pid next
  db := (core.db.removeNoteRows workspace_id note_id).clearDraft workspace_id note_id
  gone := [note_id]
  removed := [note_id]
  subject := "Delete ".toList ++ (core.db.indexedTitle workspace_id note_id).getD (fileStem note_id)
  kind := "Note".toList

def deleteNoteLogged (core : Core) (note_id : ConceptId) (pid next : Nat) (now : Int) (faults : DeletionFaults) :
    Core × Except AppError LifecycleTerminal :=
  match notePath host core.bundle note_id with
  | .error error => (core, .error error)
  | .ok path =>
      if !core.bundle.exists_ path && (core.db.indexedTitle workspace_id note_id).isNone then
        -- there is nothing on disk, and so nothing to log and nothing to commit
        match deleteOrphanedDraft workspace_id core note_id ⟨none, faults.publication, none⟩ with
        | .error error => (core, .error error)
        | .ok core => (core, .ok (.applied [note_id]))
      else if core.bundle.exists_ path && !core.bundle.isFile path then
        (core, .error <| .notFound <| "no Note with concept id ".toList ++ note_id ++ ": ".toList ++
          conceptIdToPath note_id ++ " is not a file".toList)
      else (removalOfNote workspace_id core note_id path pid next).carryOut host core now faults

def removalOfDirectory (core : Core) (directory : Text) (absolute : Path) (pid next : Nat) : Removal where
  path := absolute
  aside := asideOf absolute pid next
  db :=
    let (removed, orphaned_drafts) := contents workspace_id core.db directory
    deleteContents workspace_id core.db directory removed orphaned_drafts
  gone :=
    let (removed, orphaned_drafts) := contents workspace_id core.db directory
    removed ++ orphaned_drafts
  removed :=
    let (removed, orphaned_drafts) := contents workspace_id core.db directory
    (removed ++ orphaned_drafts).dedup.insertionSort (· ≤ ·)
  subject := "Delete directory ".toList ++ directory
  kind := "Directory".toList

def deleteDirectoryLogged (core : Core) (path : Text) (pid next : Nat) (now : Int) (faults : DeletionFaults) :
    Core × Except AppError LifecycleTerminal :=
  match normalizeDirectory host path with
  | .error error => (core, .error error)
  | .ok directory =>
      if directory = [] then
        (core, .error (.pathUnavailable "the bundle root cannot be deleted".toList))
      else
        match directoryAbsolute host core.bundle directory with
        | .error error => (core, .error error)
        | .ok absolute =>
            let (removed, orphaned_drafts) := contents workspace_id core.db directory
            if !core.bundle.exists_ absolute && removed.isEmpty && orphaned_drafts.isEmpty then
              (core, .error <| .notFound <|
                "no Directory at ".toList ++ directory ++ " in this Workspace".toList)
            else if core.bundle.exists_ absolute && !core.bundle.isDir absolute then
              (core, .error <| .notFound <|
                "no Directory at ".toList ++ directory ++ " in this Workspace: it is a file".toList)
            else
              (removalOfDirectory workspace_id core directory absolute pid next).carryOut host core now faults

/-! ## What the trash loses -/

variable {host workspace_id} {disk disk' : Disk} {journal journal' : FileJournal} {core : Core}
  {tree tree' tree'' : PathTree Name Entry} {path trash : Path} {asides : List Path} {now : Int}

/-- Some of what was put aside is gone, and nothing else is. -/
structure Discards (asides : List Path) (tree tree' : PathTree Name Entry) : Prop where
  outside : ∀ other, (∀ trash ∈ asides, ¬ trash <+: other) → tree' other = tree other
  fewer : ∀ other, tree' other = tree other ∨ tree' other = none
  rooted : tree.Rooted Entry.IsDirectory → tree'.Rooted Entry.IsDirectory

theorem Discards.refl : Discards asides tree tree :=
  ⟨fun _ _ => rfl, fun _ => Or.inl rfl, fun rooted => rooted⟩

theorem Discards.trans (first : Discards asides tree tree') (second : Discards asides tree' tree'') :
    Discards asides tree tree'' := by
  constructor
  · intro other apart
    rw [second.outside other apart, first.outside other apart]
  · intro other
    rcases second.fewer other with same | gone
    · rw [same]
      exact first.fewer other
    · exact Or.inr gone
  · intro rooted
    exact second.rooted (first.rooted rooted)

theorem Discards.mono {asides' : List Path} (discards : Discards asides tree tree') (more : asides ⊆ asides') :
    Discards asides' tree tree' :=
  ⟨fun other apart => discards.outside other fun trash mem => apart trash (more mem), discards.fewer,
    discards.rooted⟩

theorem Discards.gone (discards : Discards asides tree tree') (vacant : tree path = none) :
    tree' path = none := by
  rcases discards.fewer path with same | gone
  · exact same.trans vacant
  · exact gone

theorem Discards.prune (discards : Discards [trash] tree tree') : tree'.prune trash = tree.prune trash := by
  apply PathTree.prune_eq_iff.mpr
  intro other outside
  apply discards.outside
  intro aside mem
  rw [List.mem_singleton.mp mem]
  exact outside

theorem discards_erase (inside : trash <+: path)
    (rooted : tree.Rooted Entry.IsDirectory → (tree.erase path).Rooted Entry.IsDirectory) :
    Discards [trash] tree (tree.erase path) := by
  constructor
  · intro other apart
    rw [PathTree.erase_apply, if_neg]
    rintro rfl
    exact apart trash List.mem_cons_self inside
  · intro other
    rw [PathTree.erase_apply]
    by_cases same : other = path
    · exact Or.inr (if_pos same)
    · exact Or.inl (if_neg same)
  · exact rooted

theorem removeEach_spec {paths : List Path} {refused : Option OsError} (inside : ∀ path ∈ paths, trash <+: path)
    (removed : removeEach host paths disk = (disk', refused)) :
    Discards [trash] disk.bundle.entry disk'.bundle.entry ∧
      (refused = none → ∀ path ∈ paths, disk'.bundle.entry path = none) := by
  induction paths generalizing disk with
  | nil =>
    obtain rfl := (Prod.mk.inj removed).1
    exact ⟨.refl, fun _ _ mem => absurd mem List.not_mem_nil⟩
  | cons path rest ih =>
    unfold removeEach at removed
    cases called : disk.call host path (·.removeEntry path) with
    | mk next answer =>
      rw [called] at removed
      cases answer with
      | some e =>
        obtain ⟨rfl, rfl⟩ := Prod.mk.inj removed
        rw [Disk.call_refused called]
        exact ⟨.refl, fun isNone => by cases isNone⟩
      | none =>
        rcases Bundle.removeEntry_eq_some (Disk.call_done called) with ⟨-, -, erased, rooted⟩
        rcases ih (fun other mem => inside other (List.mem_cons_of_mem _ mem)) removed with ⟨discards, gone⟩
        rw [erased] at rooted
        have first : Discards [trash] disk.bundle.entry next.bundle.entry := by
          rw [erased]
          exact discards_erase (inside path List.mem_cons_self) rooted
        refine ⟨first.trans discards, ?_⟩
        intro isNone other mem
        rcases List.mem_cons.mp mem with rfl | mem
        · apply discards.gone
          rw [erased, PathTree.erase_apply]
          exact if_pos rfl
        · exact gone isNone other mem

theorem removeAside_spec {refused : Option OsError} (below : trash ≠ [])
    (removed : removeAside host trash disk = (disk', refused)) :
    Discards [trash] disk.bundle.entry disk'.bundle.entry ∧
      (disk.bundle.entry.Rooted Entry.IsDirectory → refused = none → disk'.bundle.entry.Free trash) := by
  unfold removeAside at removed
  cases found : disk.bundle.entry trash with
  | none =>
    rw [found] at removed
    obtain rfl := (Prod.mk.inj removed).1
    exact ⟨.refl, fun rooted _ => rooted.free found⟩
  | some entry =>
    have file (removed : disk.call host trash (·.removeFile? trash) = (disk', refused)) :
        Discards [trash] disk.bundle.entry disk'.bundle.entry ∧
          (disk.bundle.entry.Rooted Entry.IsDirectory → refused = none → disk'.bundle.entry.Free trash) := by
      cases refused with
      | some e =>
        rw [Disk.call_refused removed]
        exact ⟨.refl, fun _ isNone => by cases isNone⟩
      | none =>
        have unlinked := Disk.call_done removed
        rcases Bundle.removeFile?_eq_some unlinked with ⟨isFile, -, erased⟩
        have entryRemoved : disk.bundle.removeEntry trash = some disk'.bundle := by
          unfold Bundle.removeEntry
          rw [if_neg fun isDirectory => isFile (Bundle.isDirectory_iff.mp isDirectory)]
          exact unlinked
        rcases Bundle.removeEntry_eq_some entryRemoved with ⟨-, -, -, rooted⟩
        refine ⟨?_, ?_⟩
        · rw [erased] at rooted ⊢
          exact discards_erase (List.prefix_refl _) rooted
        · intro before _
          apply (rooted before).free
          rw [erased, PathTree.erase_apply]
          exact if_pos rfl
    rw [found] at removed
    cases entry with
    | file contents => exact file removed
    | link => exact file removed
    | directory =>
      have inside : ∀ path ∈ disk.bundle.beneath trash, trash <+: path := fun path mem =>
        (Bundle.mem_beneath.mp mem).2
      rcases removeEach_spec inside removed with ⟨discards, gone⟩
      refine ⟨discards, ?_⟩
      intro _ isNone other under
      by_cases held : other ∈ disk.bundle.listed
      · exact gone isNone other (Bundle.mem_beneath.mpr ⟨held, under⟩)
      · apply discards.gone
        have nonempty : other ≠ [] := by
          rintro rfl
          exact below (List.prefix_nil.mp under)
        apply Option.not_isSome_iff_eq_none.mp
        intro isSome
        exact held ((Bundle.entry_isSome_iff nonempty).mp isSome)

/-- Where nothing is refused, what lists the deepest first can be removed. -/
theorem removeEach_free {paths : List Path} (free : disk.refusals = []) (below : trash ≠ [])
    (sorted : paths.Pairwise fun first second => second.length ≤ first.length) (distinct : paths.Nodup)
    (held : ∀ path ∈ paths, path ∈ disk.bundle.listed ∧ trash <+: path)
    (covers : ∀ path ∈ disk.bundle.listed, trash <+: path → path ∈ paths) :
    (removeEach host paths disk).2 = none ∧ (removeEach host paths disk).1.refusals = [] := by
  induction paths generalizing disk with
  | nil => exact ⟨rfl, free⟩
  | cons path rest ih =>
    rcases List.pairwise_cons.mp sorted with ⟨shorter, sorted⟩
    rcases List.nodup_cons.mp distinct with ⟨fresh, distinct⟩
    rcases held path List.mem_cons_self with ⟨listed, inside⟩
    have nonempty : path ≠ [] := by
      rintro rfl
      exact below (List.prefix_nil.mp inside)
    -- whatever is beneath the first one is deeper, and so it came before
    have empty : disk.bundle.emptyBelow path = true := by
      apply Bundle.emptyBelow_iff.mpr
      intro other mem under
      rcases List.mem_cons.mp (covers other mem (inside.trans under)) with same | mem
      · exact same
      · exact (under.eq_of_length_le (shorter other mem)).symm
    have removed : disk.bundle.removeEntry path = some (disk.bundle.unlink path) := by
      unfold Bundle.removeEntry
      by_cases isDirectory : disk.bundle.isDirectory path = true
      · rw [if_pos isDirectory]
        unfold Bundle.removeDir
        rw [if_pos ⟨nonempty, isDirectory, empty⟩]
      · rw [if_neg isDirectory]
        unfold Bundle.removeFile?
        have isSome := (Bundle.entry_isSome_iff nonempty).mpr listed
        cases found : disk.bundle.entry path with
        | none =>
          rw [found] at isSome
          cases isSome
        | some entry =>
          cases entry with
          | file contents => rfl
          | link => rfl
          | directory => exact absurd (Bundle.isDirectory_iff.mpr found) isDirectory
    have listed_unlink (other : Path) :
        other ∈ (disk.bundle.unlink path).listed ↔ other ∈ disk.bundle.listed ∧ other ≠ path := by
      by_cases isRoot : other = []
      · subst isRoot
        rw [Bundle.mem_listed_iff, Bundle.mem_listed_iff]
        have file : (disk.bundle.unlink path).read [] = disk.bundle.read [] :=
          Bundle.read_unlink (Ne.symm nonempty)
        unfold Bundle.unlink at file ⊢
        rw [file, List.mem_filter, List.mem_filter, decide_eq_true_eq]
        have apart : ([] : Path) ≠ path := Ne.symm nonempty
        simp only [apart, ne_eq, not_false_iff, and_true]
      · rw [← Bundle.entry_isSome_iff isRoot, ← Bundle.entry_isSome_iff isRoot, Bundle.entry_unlink nonempty,
          PathTree.erase_apply]
        by_cases same : other = path
        · rw [if_pos same]
          exact ⟨fun isSome => (by cases isSome), fun both => absurd same both.2⟩
        · rw [if_neg same]
          exact (and_iff_left same).symm
    unfold removeEach
    rw [Disk.call_free free removed]
    apply ih rfl sorted distinct
    · intro other mem
      rcases held other (List.mem_cons_of_mem _ mem) with ⟨listed, inside⟩
      refine ⟨(listed_unlink other).mpr ⟨listed, ?_⟩, inside⟩
      rintro rfl
      exact fresh mem
    · intro other mem under
      rcases (listed_unlink other).mp mem with ⟨listed, apart⟩
      rcases List.mem_cons.mp (covers other listed under) with same | mem
      · exact absurd same apart
      · exact mem

theorem removeAside_free (free : disk.refusals = []) (below : trash ≠ []) :
    (removeAside host trash disk).2 = none ∧ (removeAside host trash disk).1.refusals = [] := by
  have file (held : disk.bundle.removeFile? trash = some (disk.bundle.unlink trash)) :
      (disk.call host trash (·.removeFile? trash)).2 = none ∧
        (disk.call host trash (·.removeFile? trash)).1.refusals = [] := by
    rw [Disk.call_free free held]
    exact ⟨rfl, rfl⟩
  unfold removeAside
  cases found : disk.bundle.entry trash with
  | none => exact ⟨rfl, free⟩
  | some entry =>
    cases entry with
    | file contents =>
      apply file
      unfold Bundle.removeFile?
      rw [found]
    | link =>
      apply file
      unfold Bundle.removeFile?
      rw [found]
    | directory =>
      apply removeEach_free free below
      · exact List.pairwise_insertionSort _ _
      · exact (List.perm_insertionSort _ _).nodup_iff.mpr (List.nodup_dedup _)
      · intro other mem
        exact Bundle.mem_beneath.mp mem
      · intro other mem under
        exact Bundle.mem_beneath.mpr ⟨mem, under⟩

/-! ## The journal that is committed -/

/-- Where a step has put something aside. -/
def FileStep.aside? : FileStep → Option Path
  | .overwrote _ _ | .renamed _ _ => none
  | .trashed _ trash => some trash

/-- What a journal has put aside. -/
def asidesOf (steps : List FileStep) : List Path := steps.filterMap FileStep.aside?

theorem discardTrash_spec {step : FileStep} {failure : Option AppError} (below : ∀ trash ∈ step.aside?, trash ≠ [])
    (discarded : step.discardTrash host disk = (disk', failure)) :
    Discards (asidesOf [step]) disk.bundle.entry disk'.bundle.entry ∧
      (disk.bundle.entry.Rooted Entry.IsDirectory → failure = none →
        ∀ trash ∈ step.aside?, disk'.bundle.entry.Free trash) := by
  have nothing (none_ : step.aside? = none) (same : disk' = disk) :
      Discards (asidesOf [step]) disk.bundle.entry disk'.bundle.entry ∧
        (disk.bundle.entry.Rooted Entry.IsDirectory → failure = none →
          ∀ trash ∈ step.aside?, disk'.bundle.entry.Free trash) := by
    rw [same, none_]
    exact ⟨.refl, fun _ _ _ mem => by cases mem⟩
  cases step with
  | overwrote path previous => exact nothing rfl (Prod.mk.inj discarded).1.symm
  | renamed source target => exact nothing rfl (Prod.mk.inj discarded).1.symm
  | trashed original trash =>
    unfold FileStep.discardTrash at discarded
    cases removed : removeAside host trash disk with
    | mk next refused =>
      rcases removeAside_spec (below trash rfl) removed with ⟨discards, gone⟩
      dsimp only at discarded
      rw [removed] at discarded
      have same : next = disk' := by
        cases refused with
        | none => exact (Prod.mk.inj discarded).1
        | some e => exact (Prod.mk.inj discarded).1
      subst same
      refine ⟨discards, ?_⟩
      intro rooted isNone other mem
      obtain rfl := Option.mem_some_iff.mp mem
      apply gone rooted
      cases refused with
      | none => rfl
      | some e =>
        rw [isNone] at discarded
        cases (Prod.mk.inj discarded).2

theorem discardEach_spec {steps : List FileStep} {failures : List AppError} (below : ∀ trash ∈ asidesOf steps, trash ≠ [])
    (discarded : discardEach host steps disk = (disk', failures)) :
    Discards (asidesOf steps) disk.bundle.entry disk'.bundle.entry ∧
      (disk.bundle.entry.Rooted Entry.IsDirectory → failures = [] →
        ∀ trash ∈ asidesOf steps, disk'.bundle.entry.Free trash) := by
  induction steps generalizing disk failures with
  | nil =>
    obtain rfl := (Prod.mk.inj discarded).1
    exact ⟨.refl, fun _ _ _ mem => absurd mem List.not_mem_nil⟩
  | cons step steps ih =>
    have one {trash : Path} (mem : trash ∈ step.aside?) : trash ∈ asidesOf (step :: steps) :=
      List.mem_filterMap.mpr ⟨step, List.mem_cons_self, mem⟩
    have more : asidesOf steps ⊆ asidesOf (step :: steps) :=
      List.filterMap_subset FileStep.aside? (List.subset_cons_self step steps)
    have single : asidesOf [step] ⊆ asidesOf (step :: steps) :=
      List.filterMap_subset FileStep.aside? (List.cons_subset_cons step (List.nil_subset steps))
    unfold discardEach at discarded
    cases first : step.discardTrash host disk with
    | mk next failure =>
      rw [first] at discarded
      cases others : discardEach host steps next with
      | mk last failures' =>
        dsimp only at discarded
        rw [others] at discarded
        obtain ⟨rfl, rfl⟩ := Prod.mk.inj discarded
        rcases discardTrash_spec (fun trash mem => below trash (one mem)) first with ⟨discards, gone⟩
        rcases ih (fun trash mem => below trash (more mem)) others with ⟨discards', gone'⟩
        refine ⟨(discards.mono single).trans (discards'.mono more), ?_⟩
        intro rooted isNil trash mem
        rcases List.append_eq_nil_iff.mp isNil with ⟨isNone, isNil⟩
        rcases List.mem_filterMap.mp mem with ⟨other, mem, isAside⟩
        rcases List.mem_cons.mp mem with rfl | mem
        · intro path under
          apply discards'.gone
          exact gone rooted (Option.toList_eq_nil_iff.mp isNone) trash isAside path under
        · exact gone' (discards.rooted rooted) isNil trash (List.mem_filterMap.mpr ⟨other, mem, isAside⟩)

theorem discardEach_free {steps : List FileStep} (free : disk.refusals = [])
    (below : ∀ trash ∈ asidesOf steps, trash ≠ []) :
    (discardEach host steps disk).2 = [] ∧ (discardEach host steps disk).1.refusals = [] := by
  induction steps generalizing disk with
  | nil => exact ⟨rfl, free⟩
  | cons step steps ih =>
    have first : (step.discardTrash host disk).2 = none ∧ (step.discardTrash host disk).1.refusals = [] := by
      cases step with
      | overwrote path previous => exact ⟨rfl, free⟩
      | renamed source target => exact ⟨rfl, free⟩
      | trashed original trash =>
        rcases removeAside_free free (below trash List.mem_cons_self) with ⟨done, free⟩
        unfold FileStep.discardTrash
        dsimp only
        cases removed : removeAside host trash disk with
        | mk next refused =>
          rw [removed] at done free
          dsimp only at done
          subst done
          exact ⟨rfl, free⟩
    have rest : ∀ trash ∈ asidesOf steps, trash ≠ [] := fun trash mem =>
      below trash (List.filterMap_subset FileStep.aside? (List.subset_cons_self step steps) mem)
    rcases ih first.2 rest with ⟨done, free⟩
    unfold discardEach
    dsimp only
    rw [first.1, done]
    exact ⟨rfl, free⟩

/-! ## The paths of deletions -/

/-- No entry is put aside under its own name. -/
theorem asideOf_ne (path : Path) (pid next : Nat) : asideOf path pid next ≠ path := by
  intro same
  have longer : (stemOf path.getLast?).length < (trashName path.getLast? pid next).length := by
    unfold trashName
    rw [List.length_append, List.length_append, List.length_append]
    have prefixed : TRASH_PREFIX.length = 14 := by decide
    omega
  have last : (path.getLast?.map Name.text) = some (trashName path.getLast? pid next) := by
    have ends := congrArg List.getLast? same
    unfold asideOf at ends
    rw [List.getLast?_concat] at ends
    exact (congrArg (Option.map Name.text) ends).symm
  cases isLast : path.getLast? with
  | none =>
    rw [isLast] at last
    cases last
  | some name =>
    rw [isLast] at last longer
    change name.text.length < _ at longer
    rw [Option.some.inj last] at longer
    exact absurd longer (lt_irrefl _)

theorem asideOf_ne_nil (path : Path) (pid next : Nat) : asideOf path pid next ≠ [] :=
  List.append_ne_nil_of_right_ne_nil _ (List.cons_ne_nil _ _)

theorem dropLast_asideOf (path : Path) (pid next : Nat) : (asideOf path pid next).dropLast = path.dropLast :=
  List.dropLast_concat

theorem prefix_asideOf {pid next : Nat} (below : path ≠ []) :
    ¬ path <+: asideOf path pid next ∧ ¬ asideOf path pid next <+: path := by
  have same : (asideOf path pid next).length = path.length := by
    have lengths := congrArg List.length (dropLast_asideOf path pid next)
    rw [List.length_dropLast, List.length_dropLast] at lengths
    have positive := List.length_pos_iff.mpr below
    have positive' := List.length_pos_iff.mpr (asideOf_ne_nil path pid next)
    omega
  constructor
  · intro inside
    exact asideOf_ne path pid next (inside.eq_of_length same.symm).symm
  · intro inside
    exact asideOf_ne path pid next (inside.eq_of_length same)

theorem notePath_ne_nil {note_id : ConceptId} (isPath : notePath host core.bundle note_id = .ok path) :
    path ≠ [] := by
  rintro rfl
  have found := normalComponents_of_notePath isPath
  have letter : 'm' ∈ conceptIdToPath note_id := List.mem_append_right _ (by decide)
  rcases Segments.mem_or_exists_of_mem letter with isSlash | ⟨segment, mem, inside⟩
  · exact absurd isSlash (show ¬ 'm' = slash by decide)
  · unfold normalComponents at found
    dsimp only at found
    split_ifs at found
    have kept : segment ∈ ((conceptIdToPath note_id).splitOn slash).filter fun segment =>
        segment ≠ [] ∧ segment ≠ ['.'] := by
      apply List.mem_filter.mpr
      refine ⟨mem, decide_eq_true ⟨?_, ?_⟩⟩
      · rintro rfl
        cases inside
      · rintro rfl
        exact absurd inside (by decide)
    rw [← text_of_mapM found] at kept
    cases kept

theorem directoryAbsolute_ne_nil {directory : Text} (valid : ValidDirectory directory) (below : directory ≠ [])
    (isPath : directoryAbsolute host core.bundle directory = .ok path) : path ≠ [] := by
  rintro rfl
  rcases valid with isRoot | ⟨carried, visible⟩
  · exact below isRoot
  · rcases exists_path_of_visible carried visible with ⟨levels, isLevels, found⟩
    unfold directoryAbsolute at isPath
    rw [found] at isPath
    dsimp only [Option.getD_some] at isPath
    split_ifs at isPath
    rw [Except.ok.inj isPath] at isLevels
    exact List.splitOn_ne_nil slash directory isLevels.symm

/-! ## What a deletion leaves -/

/-- A journal that is committed and dropped has removed what it put aside, and nothing else. -/
theorem commit_spec (below : ∀ trash ∈ asidesOf journal.steps, trash ≠ [])
    (rooted : journal.disk.bundle.entry.Rooted Entry.IsDirectory) :
    Discards (asidesOf journal.steps) journal.disk.bundle.entry ((journal.commit host).1.drop host).bundle.entry ∧
      ((journal.commit host).2 = .ok () →
        ∀ trash ∈ asidesOf journal.steps, ((journal.commit host).1.drop host).bundle.entry.Free trash) ∧
      (journal.disk.refusals = [] → (journal.commit host).2 = .ok ()) := by
  have free := fun isFree => @discardEach_free host journal.disk journal.steps isFree below
  unfold FileJournal.commit
  cases discarded : discardEach host journal.steps journal.disk with
  | mk disk failures =>
    rcases discardEach_spec below discarded with ⟨discards, gone⟩
    rw [discarded] at free
    cases failures with
    | nil => exact ⟨discards, fun _ => gone rooted rfl, fun _ => rfl⟩
    | cons failure failures =>
      refine ⟨?_, fun isOk => (by cases isOk), fun isFree => by cases (free isFree).1⟩
      unfold FileJournal.drop
      cases again : discardEach host journal.steps disk with
      | mk last failures' => exact discards.trans (discardEach_spec below again).1

/-- A tree that is as expected, but for what the name of the trash had or has. -/
def Away (aside : Path) (clean : Prop) (expected tree : PathTree Name Entry) : Prop :=
  tree.prune aside = expected.prune aside ∧ (clean → tree = expected)

theorem Away.refl {aside : Path} {clean : Prop} : Away aside clean tree tree :=
  ⟨rfl, fun _ => rfl⟩

/-- What was put aside comes back when the step is undone, or the error says that it did not. -/
theorem rolledBack_trashed {aside : Path} {bundle bundle' : Bundle} {refusals : List (Option OsError)}
    {error : AppError} (rooted : bundle.entry.Rooted Entry.IsDirectory)
    (renamed : bundle.renameEntry path aside = some bundle') :
    let answer := rolledBack host ⟨⟨bundle', refusals⟩, [.trashed path aside]⟩ now error
    (Away aside (bundle.entry.Free aside) bundle.entry answer.1.disk.bundle.entry ∨
      ∃ incomplete, answer.2 = partWay error incomplete) ∧
    (refusals = [] → Away aside (bundle.entry.Free aside) bundle.entry answer.1.disk.bundle.entry) := by
  have honest := @FileStep.undo_honest host now (.trashed path aside) ⟨bundle', refusals⟩
  have sure : refusals = [] → ((FileStep.trashed path aside).undo host now ⟨bundle', refusals⟩).2 = none :=
    fun free => (@FileStep.CanUndo.undone host ⟨bundle', refusals⟩ now (.trashed path aside)
      (movable_back rooted renamed) free).1
  have moved := (Bundle.renameEntry_eq_some renamed).2.1
  unfold rolledBack FileJournal.rollback Undo.unwind Undo.unwind
  dsimp only
  cases undone : (FileStep.trashed path aside).undo host now ⟨bundle', refusals⟩ with
  | mk disk failure =>
    rw [undone] at honest sure
    dsimp only at honest sure
    cases failure with
    | some failure =>
      refine ⟨Or.inr ⟨_, rfl⟩, ?_⟩
      intro free
      cases sure free
    | none =>
      have back : disk.bundle.entry = (bundle.entry.move path aside).move aside path := by
        rw [← moved]
        exact honest rfl
      have kept : Away aside (bundle.entry.Free aside) bundle.entry disk.bundle.entry := by
        rw [back]
        exact ⟨PathTree.prune_move_back, PathTree.move_restores⟩
      exact ⟨Or.inl kept, fun _ => kept⟩

theorem sessions_discard {core' : Core} (ids : List ConceptId) (same : core'.sessions = core.sessions) :
    (ids.foldl discardSession core').sessions = (ids.foldl discardSession core).sessions := by
  induction ids generalizing core core' with
  | nil => exact same
  | cons note_id rest ih =>
    apply ih
    unfold discardSession
    rw [same]

theorem bundle_discard (ids : List ConceptId) : (ids.foldl discardSession core).bundle = core.bundle := by
  induction ids generalizing core with
  | nil => rfl
  | cons note_id rest ih => exact ih

/-- The warning that a deletion ends with. -/
structure Warns (removal : Removal) (faults : DeletionFaults) (terminal : LifecycleTerminal) : Prop where
  removed : terminal.removed = removal.removed
  commit : terminal.stage? = some .commit ↔ faults.commit.isSome
  settled : faults.commit = none → faults.settle_refusals = [] → terminal.stage? = none

theorem terminal_spec {removal : Removal} {committed cleanup : Option AppError} :
    (removal.terminal host committed cleanup).removed = removal.removed ∧
      ((removal.terminal host committed cleanup).stage? = some .commit ↔ committed.isSome) ∧
      ((removal.terminal host committed cleanup).stage? = none ↔ committed = none ∧ cleanup = none) := by
  cases committed with
  | some error => exact ⟨rfl, ⟨fun _ => rfl, fun _ => rfl⟩, by
      constructor
      · intro isNone
        cases isNone
      · intro both
        cases both.1⟩
  | none =>
    cases cleanup with
    | some error => exact ⟨rfl, ⟨fun same => (by cases same), fun same => by cases same⟩, by
        constructor
        · intro isNone
          cases isNone
        · intro both
          cases both.2⟩
    | none =>
      exact ⟨rfl, ⟨fun same => (by cases same), fun same => by cases same⟩,
        ⟨fun _ => ⟨rfl, rfl⟩, fun _ => rfl⟩⟩

/-- A deletion that is published is settled, whatever the cleanup and the commit come to. -/
theorem Removal.settle_spec {removal : Removal} {faults : DeletionFaults}
    (rooted : core.bundle.entry.Rooted Entry.IsDirectory) (below : removal.aside ≠ [])
    (trashed : (⟨⟨core.bundle, faults.refusals⟩, []⟩ : FileJournal).trash host removal.path removal.aside =
      (journal, .ok ())) :
    let answer := removal.settle host core journal faults
    answer.1.db = removal.db ∧
    answer.1.sessions = (removal.gone.foldl discardSession core).sessions ∧
    Warns removal faults answer.2 ∧
    Away removal.aside
      (core.bundle.entry.Free removal.aside ∧ (answer.2.stage? = none ∨ faults.settle_refusals = []))
      (core.bundle.entry.prune removal.path) answer.1.bundle.entry := by
  generalize isAfresh : (⟨⟨journal.disk.bundle, faults.settle_refusals⟩, journal.steps⟩ : FileJournal) = afresh
  have steps : afresh.steps = journal.steps := by
    rw [← isAfresh]
  have bundle : afresh.disk.bundle = journal.disk.bundle := by
    rw [← isAfresh]
  have refusals : afresh.disk.refusals = faults.settle_refusals := by
    rw [← isAfresh]
  have nonempty : ∀ trash ∈ asidesOf afresh.steps, trash ≠ [] := by
    intro trash mem
    rw [steps] at mem
    rcases trash_cases trashed with ⟨same, -⟩ | ⟨-, same, -⟩
    · rw [same] at mem
      cases mem
    · rw [same] at mem
      rw [List.mem_singleton.mp mem]
      exact below
  have rooted' : afresh.disk.bundle.entry.Rooted Entry.IsDirectory := by
    rw [bundle]
    rcases trash_cases trashed with ⟨-, same, -⟩ | ⟨renamed, -, -⟩
    · rw [same]
      exact rooted
    · rcases Bundle.renameEntry_eq_some renamed with ⟨-, tree, moved⟩
      rw [tree]
      by_cases same : removal.path = removal.aside
      · rw [same, PathTree.move_self]
        exact rooted
      · rcases moved same with ⟨inside, -, parent, -⟩
        exact rooted.move parent rfl inside
  rcases @commit_spec host afresh nonempty rooted' with ⟨discards, gone, sure⟩
  rw [refusals] at sure
  have isSettled : removal.settle host core journal faults =
      ({ (removal.gone.foldl discardSession { core with db := removal.db }) with
          bundle := ((afresh.commit host).1.drop host).bundle },
        removal.terminal host faults.commit (failure? (afresh.commit host).2)) := by
    rw [← isAfresh]
    rfl
  rw [isSettled]
  rcases @terminal_spec host removal faults.commit (failure? (afresh.commit host).2) with ⟨removed, commit, quiet⟩
  have cleaned : (afresh.commit host).2 = .ok () ↔ failure? (afresh.commit host).2 = none := by
    cases (afresh.commit host).2 with
    | ok _ => exact ⟨fun _ => rfl, fun _ => rfl⟩
    | error error => exact ⟨fun same => (by cases same), fun same => by cases same⟩
  refine ⟨?_, sessions_discard _ rfl, ⟨removed, commit, ?_⟩, ?_⟩
  · exact discardSessions_db removal.gone { core with db := removal.db }
  · intro isNone free
    exact quiet.mpr ⟨isNone, cleaned.mp (sure free)⟩
  · rw [steps, bundle] at discards
    rw [steps] at gone
    rcases trash_cases trashed with ⟨same, untouched, absent⟩ | ⟨renamed, same, -⟩
    · rw [same, untouched] at discards
      have tree : ((afresh.commit host).1.drop host).bundle.entry = core.bundle.entry := by
        funext other
        exact discards.outside other fun _ mem => absurd mem List.not_mem_nil
      have whole : core.bundle.entry.prune removal.path = core.bundle.entry :=
        PathTree.prune_free (rooted.free (absent rfl))
      dsimp only
      rw [tree, whole]
      exact .refl
    · rw [same] at discards gone
      rw [(Bundle.renameEntry_eq_some renamed).2.1] at discards
      have apart : ((afresh.commit host).1.drop host).bundle.entry.prune removal.aside =
          (core.bundle.entry.prune removal.path).prune removal.aside := by
        rw [← PathTree.prune_move_aside]
        exact Discards.prune discards
      refine ⟨apart, ?_⟩
      rintro ⟨free, clean⟩
      have isOk : (afresh.commit host).2 = .ok () := by
        rcases clean with isNone | isFree
        · exact cleaned.mpr (quiet.mp isNone).2
        · exact sure isFree
      have empty := gone isOk removal.aside List.mem_cons_self
      have free' : (core.bundle.entry.prune removal.path).Free removal.aside := by
        intro other under
        unfold PathTree.prune
        rw [free other under]
        exact ite_self none
      dsimp only
      rw [← PathTree.prune_free empty, apart, PathTree.prune_free free']

/-- Whether a deletion that failed left everything as it was, or says that it did not. -/
def LeavesAll (aside : Path) (core after : Core) (error : AppError) : Prop :=
  Away aside (core.bundle.entry.Free aside) core.bundle.entry after.bundle.entry ∨
    ∃ cause incomplete, error = partWay cause incomplete

/-- How a deletion ends that has something to remove. -/
def Removal.Ends (removal : Removal) (core : Core) (faults : DeletionFaults)
    (outcome : Core × Except AppError LifecycleTerminal) : Prop :=
  match outcome with
  | (after, .ok terminal) =>
      after.db = removal.db ∧
      after.sessions = (removal.gone.foldl discardSession core).sessions ∧
      Warns removal faults terminal ∧
      Away removal.aside
        (core.bundle.entry.Free removal.aside ∧ (terminal.stage? = none ∨ faults.settle_refusals = []))
        (core.bundle.entry.prune removal.path) after.bundle.entry
  | (after, .error error) =>
      after.db = core.db ∧ after.sessions = core.sessions ∧
      LeavesAll removal.aside core after error ∧
      (faults.settle_refusals = [] →
        Away removal.aside (core.bundle.entry.Free removal.aside) core.bundle.entry after.bundle.entry) ∧
      -- only what stands in its way makes it fail
      (faults.refusals = [] → core.bundle.entry.Free removal.aside → faults.publication.isSome)

theorem Removal.ends {removal : Removal} {faults : DeletionFaults} {pid next : Nat}
    (rooted : core.bundle.entry.Rooted Entry.IsDirectory) (below : removal.path ≠ [])
    (isAside : removal.aside = asideOf removal.path pid next) :
    removal.Ends core faults (removal.carryOut host core now faults) := by
  have nonempty : removal.aside ≠ [] := isAside ▸ asideOf_ne_nil _ _ _
  unfold Removal.carryOut
  cases trashed : (⟨⟨core.bundle, faults.refusals⟩, []⟩ : FileJournal).trash host removal.path removal.aside with
  | mk journal result =>
    cases result with
    | error error =>
      rcases trash_cases trashed with ⟨-, same, -⟩ | ⟨-, -, isOk⟩
      · dsimp only at same
        have kept : Away removal.aside (core.bundle.entry.Free removal.aside) core.bundle.entry
            journal.disk.bundle.entry := by
          rw [same]
          exact .refl
        refine ⟨rfl, rfl, Or.inl kept, fun _ => kept, ?_⟩
        intro isFree free
        -- with nothing in its way the entry would have been put aside
        exfalso
        unfold FileJournal.trash at trashed
        dsimp only at trashed
        by_cases absent : core.bundle.entry removal.path = none
        · rw [if_pos absent] at trashed
          cases (Prod.mk.inj trashed).2
        · rw [if_neg absent] at trashed
          have held := Option.isSome_iff_ne_none.mpr absent
          rcases @prefix_asideOf removal.path pid next below with ⟨inside, under⟩
          rw [← isAside] at inside under
          have movable : Movable core.bundle.entry removal.path removal.aside := by
            refine ⟨held, Or.inr ⟨inside, under, free _ (List.prefix_refl _), ?_⟩⟩
            rw [isAside, dropLast_asideOf]
            rw [← List.dropLast_concat_getLast below] at held
            rcases rooted _ _ held with ⟨entry, found, isDirectory⟩
            rw [found, isDirectory]
          rcases movable.renames with ⟨bundle, renamed⟩
          rw [@Disk.call_free host ⟨core.bundle, faults.refusals⟩ removal.path _ bundle isFree renamed] at trashed
          cases (Prod.mk.inj trashed).2
      · cases isOk
    | ok _ =>
      cases published : faults.publication with
      | none => exact Removal.settle_spec rooted nonempty trashed
      | some error =>
        dsimp only
        rcases trash_cases trashed with ⟨steps, same, -⟩ | ⟨renamed, steps, -⟩
        · dsimp only at steps same
          rw [steps, same]
          exact ⟨rfl, rfl, Or.inl .refl, fun _ => .refl, fun _ _ => Option.isSome_of_eq_some published⟩
        · rw [List.nil_append] at steps
          rw [steps]
          have back := @rolledBack_trashed host removal.path now removal.aside core.bundle journal.disk.bundle
            faults.settle_refusals error rooted renamed
          rcases back with ⟨kept, sure⟩
          refine ⟨rfl, rfl, ?_, sure, fun _ _ => Option.isSome_of_eq_some published⟩
          rcases kept with kept | ⟨incomplete, isPartWay⟩
          · exact Or.inl kept
          · exact Or.inr ⟨error, incomplete, isPartWay⟩

/-! ## The two deletions -/

inductive Deletion where
  | note (note_id : ConceptId)
  | directory (path : Text)

def Deletion.operation : Deletion → Operation
  | note note_id => .deleteNote note_id
  | directory path => .deleteDirectory path

/-- What a deletion is about. -/
def Deletion.target (host : Host) (bundle : Bundle) : Deletion → Except AppError Path
  | note note_id => notePath host bundle note_id
  | directory path => do
      let directory ← normalizeDirectory host path
      if directory = [] then .error (.pathUnavailable "the bundle root cannot be deleted".toList)
      else directoryAbsolute host bundle directory

def Deletion.run (host : Host) (workspace_id : WorkspaceId) (core : Core) (deletion : Deletion) (pid next : Nat)
    (now : Int) (faults : DeletionFaults) : Core × Except AppError LifecycleTerminal :=
  match deletion with
  | note note_id => deleteNoteLogged host workspace_id core note_id pid next now faults
  | directory path => deleteDirectoryLogged host workspace_id core path pid next now faults

/-- A Note of which only its draft is left, and nothing that version history knows. -/
def Deletion.draftOnly (workspace_id : WorkspaceId) (core : Core) (path : Path) : Deletion → Bool
  | note note_id => !core.bundle.exists_ path && (core.db.indexedTitle workspace_id note_id).isNone
  | directory _ => false

/-- A bundle as a file system can have it. -/
structure OnDisk (bundle : Bundle) : Prop where
  rooted : bundle.entry.Rooted Entry.IsDirectory
  single : ∀ directory ∈ bundle.directories, bundle.read directory = none

/-- How a deletion ends that runs call by call: as the deletion in one piece ends, with a warning for what
fails once the rows are gone, or with everything as it was, or else with an error that says so. -/
def Deletion.Settles (host : Host) (workspace_id : WorkspaceId) (core : Core) (deletion : Deletion) (pid next : Nat)
    (now : Int) (faults : DeletionFaults) : Prop :=
  match deletion.target host core.bundle with
  | .error error =>
      deletion.run host workspace_id core pid next now faults = (core, .error error) ∧
      deletion.operation.perform host workspace_id core now .none = (core, .error error)
  | .ok path =>
      let aside := asideOf path pid next
      match deletion.run host workspace_id core pid next now faults with
      | (after, .ok terminal) =>
          ∃ whole, deletion.operation.perform host workspace_id core now .none =
              (whole, .ok ⟨none, .none, terminal.removed⟩) ∧
            after.db = whole.db ∧ after.sessions = whole.sessions ∧
            Away aside (core.bundle.entry.Free aside ∧ (terminal.stage? = none ∨ faults.settle_refusals = []))
              whole.bundle.entry after.bundle.entry ∧
            (terminal.stage? = some .commit ↔
              faults.commit.isSome ∧ deletion.draftOnly workspace_id core path = false) ∧
            (faults.commit = none → faults.settle_refusals = [] → terminal.stage? = none)
      | (after, .error error) =>
          after.db = core.db ∧ after.sessions = core.sessions ∧
          LeavesAll aside core after error ∧
          (faults.settle_refusals = [] →
            Away aside (core.bundle.entry.Free aside) core.bundle.entry after.bundle.entry) ∧
          (faults.refusals = [] → faults.publication = none → core.bundle.entry.Free aside →
            deletion.operation.perform host workspace_id core now .none = (core, .error error))

/-- The tree without the file of a Note. -/
theorem entry_removeFile {note_id : ConceptId} (onDisk : OnDisk core.bundle)
    (isPath : notePath host core.bundle note_id = .ok path) (file : core.bundle.exists_ path → core.bundle.isFile path) :
    (core.bundle.removeFile path).entry = core.bundle.entry.prune path := by
  have below := notePath_ne_nil isPath
  have noLink : path ∉ core.bundle.symlinks := by
    unfold notePath at isPath
    repeat' split at isPath
    all_goals first | cases isPath; assumption | cases isPath
  have noDirectory : path ∉ core.bundle.directories := by
    intro mem
    have isFile : core.bundle.isFile path = true := by
      apply file
      unfold Bundle.exists_ Bundle.isDir
      simp only [mem, decide_true, Bool.or_true, Bool.true_or]
    have isNone := onDisk.single path mem
    unfold Bundle.read at isNone
    rw [Option.map_eq_none_iff] at isNone
    unfold Bundle.isFile at isFile
    rw [isNone] at isFile
    cases isFile
  have gone : (core.bundle.removeFile path).read path = none := by
    apply Bundle.read_eq_none_iff.mpr
    intro other mem isOther
    have kept := (Table.mem_delete.mp mem).2
    rw [decide_eq_false_iff_not] at kept
    exact kept isOther
  funext other
  unfold PathTree.prune
  by_cases inside : path <+: other
  · rw [if_pos inside]
    by_cases same : other = path
    · rw [same]
      exact Bundle.entry_eq_none below gone noDirectory noLink
    · have kept : (core.bundle.removeFile path).entry other = core.bundle.entry other :=
        Bundle.entry_congr (Iff.refl _) (Bundle.read_unlink same) (Iff.refl _) (Iff.refl _)
      rw [kept]
      rcases inside with ⟨rest, rfl⟩
      cases rest with
      | nil => exact absurd (List.append_nil path) same
      | cons name rest =>
        by_contra held
        have held := Option.isSome_iff_ne_none.mpr held
        rw [← List.singleton_append, ← List.append_assoc] at held
        rcases onDisk.rooted path name (onDisk.rooted.above held) with ⟨entry, found, isDirectory⟩
        rw [isDirectory] at found
        unfold Bundle.entry at found
        rw [if_neg below] at found
        cases read : core.bundle.read path with
        | some contents =>
          rw [read] at found
          cases found
        | none =>
          rw [read] at found
          dsimp only at found
          rw [if_neg noDirectory, if_neg noLink] at found
          cases found
  · rw [if_neg inside]
    have apart : other ≠ path := by
      rintro rfl
      exact inside (List.prefix_refl _)
    exact Bundle.entry_congr (Iff.refl _) (Bundle.read_unlink apart) (Iff.refl _) (Iff.refl _)

theorem Removal.Ends.settles {removal : Removal} {deletion : Deletion} {faults : DeletionFaults} {pid next : Nat}
    {whole : Core} (isPath : deletion.target host core.bundle = .ok path)
    (runs : deletion.run host workspace_id core pid next now faults = removal.carryOut host core now faults)
    (ends : removal.Ends core faults (removal.carryOut host core now faults))
    (isRemoval : removal.path = path) (isAside : removal.aside = asideOf path pid next)
    (performs : deletion.operation.perform host workspace_id core now .none =
      (whole, .ok ⟨none, .none, removal.removed⟩))
    (db : whole.db = removal.db) (sessions : whole.sessions = (removal.gone.foldl discardSession core).sessions)
    (tree : whole.bundle.entry = core.bundle.entry.prune path)
    (more : deletion.draftOnly workspace_id core path = false) :
    deletion.Settles host workspace_id core pid next now faults := by
  unfold Deletion.Settles
  rw [isPath]
  dsimp only
  rw [runs]
  unfold Removal.Ends at ends
  cases answer : removal.carryOut host core now faults with
  | mk after result =>
    rw [answer, isAside, isRemoval] at ends
    cases result with
    | error error =>
      rcases ends with ⟨sameDb, sameSessions, leaves, free, stuck⟩
      refine ⟨sameDb, sameSessions, leaves, free, ?_⟩
      intro isFree isNone vacant
      have isSome := stuck isFree vacant
      rw [isNone] at isSome
      cases isSome
    | ok terminal =>
      rcases ends with ⟨isDb, isSessions, warns, away⟩
      refine ⟨whole, ?_, isDb.trans db.symm, isSessions.trans sessions.symm, ?_, ?_, warns.settled⟩
      · rw [performs, warns.removed]
      · rw [tree]
        exact away
      · rw [warns.commit, more]
        exact (and_iff_left rfl).symm

/-- A deletion that cannot start fails in one piece as well. -/
theorem settles_of_refused {deletion : Deletion} {faults : DeletionFaults} {pid next : Nat} {error : AppError}
    (isPath : deletion.target host core.bundle = .ok path)
    (runs : deletion.run host workspace_id core pid next now faults = (core, .error error))
    (performs : faults.publication = none →
      deletion.operation.perform host workspace_id core now .none = (core, .error error)) :
    deletion.Settles host workspace_id core pid next now faults := by
  unfold Deletion.Settles
  rw [isPath]
  dsimp only
  rw [runs]
  exact ⟨rfl, rfl, Or.inl .refl, fun _ => .refl, fun _ isNone _ => performs isNone⟩

theorem note_settles (onDisk : OnDisk core.bundle) (note_id : ConceptId) (pid next : Nat) (faults : DeletionFaults) :
    (Deletion.note note_id).Settles host workspace_id core pid next now faults := by
  have isTarget {path : Path} (isPath : notePath host core.bundle note_id = .ok path) :
      (Deletion.note note_id).target host core.bundle = .ok path := isPath
  have fails {error : AppError} (failed : deleteNoteAt host workspace_id core note_id .none = .error error) :
      (Deletion.note note_id).operation.perform host workspace_id core now .none = (core, .error error) := by
    change deleteNoteLocked host workspace_id core note_id .none = _
    unfold deleteNoteLocked
    rw [failed]
  have succeeds {whole : Core} (done : deleteNoteAt host workspace_id core note_id .none = .ok whole) :
      (Deletion.note note_id).operation.perform host workspace_id core now .none =
        (whole, .ok ⟨none, .none, [note_id]⟩) := by
    change deleteNoteLocked host workspace_id core note_id .none = _
    unfold deleteNoteLocked
    rw [done]
  cases isPath : notePath host core.bundle note_id with
  | error error =>
    unfold Deletion.Settles Deletion.target
    dsimp only
    rw [isPath]
    refine ⟨?_, fails ?_⟩
    · unfold Deletion.run deleteNoteLogged
      dsimp only
      rw [isPath]
    · unfold deleteNoteAt
      rw [isPath]
      rfl
  | ok path =>
    by_cases draftOnly : (!core.bundle.exists_ path && (core.db.indexedTitle workspace_id note_id).isNone) = true
    · have runs : (Deletion.note note_id).run host workspace_id core pid next now faults =
          match deleteOrphanedDraft workspace_id core note_id ⟨none, faults.publication, none⟩ with
          | .error error => (core, .error error)
          | .ok core => (core, .ok (.applied [note_id])) := by
        unfold Deletion.run deleteNoteLogged
        dsimp only
        rw [isPath]
        dsimp only
        rw [if_pos draftOnly]
      have deletes : deleteNoteAt host workspace_id core note_id .none =
          deleteOrphanedDraft workspace_id core note_id .none := by
        unfold deleteNoteAt
        rw [isPath]
        dsimp only [bind, Except.bind]
        rw [if_pos draftOnly]
      cases orphaned : deleteOrphanedDraft workspace_id core note_id ⟨none, faults.publication, none⟩ with
      | error error =>
        rw [orphaned] at runs
        apply settles_of_refused (isTarget isPath) runs
        intro isNone
        rw [isNone] at orphaned
        exact fails (deletes.trans orphaned)
      | ok after =>
        rw [orphaned] at runs
        have isNone : faults.publication = none := by
          cases published : faults.publication with
          | none => rfl
          | some error =>
            unfold deleteOrphanedDraft at orphaned
            rw [published] at orphaned
            cases orphaned
        rw [isNone] at orphaned
        have same : after.bundle = core.bundle := by
          unfold deleteOrphanedDraft at orphaned
          dsimp only [bind, Except.bind, Option.elim] at orphaned
          split_ifs at orphaned
          obtain rfl := Except.ok.inj orphaned
          rfl
        unfold Deletion.Settles
        rw [isTarget isPath]
        dsimp only
        rw [runs]
        refine ⟨after, succeeds (deletes.trans orphaned), rfl, rfl, .refl, ?_, fun _ _ => rfl⟩
        constructor
        · intro isCommit
          cases isCommit
        · rintro ⟨-, more⟩
          unfold Deletion.draftOnly at more
          dsimp only at more
          rw [draftOnly] at more
          cases more
    · by_cases other : (core.bundle.exists_ path && !core.bundle.isFile path) = true
      · apply settles_of_refused (isTarget isPath)
        · unfold Deletion.run deleteNoteLogged
          dsimp only
          rw [isPath]
          dsimp only
          rw [if_neg draftOnly, if_pos other]
        · intro _
          apply fails
          unfold deleteNoteAt
          rw [isPath]
          dsimp only [bind, Except.bind]
          rw [if_neg draftOnly, if_pos other]
      · have file : core.bundle.exists_ path = true → core.bundle.isFile path = true := by
          intro present
          rw [present, Bool.true_and, Bool.not_eq_true', Bool.not_eq_false] at other
          exact other
        have ends := @Removal.ends host core now (removalOfNote workspace_id core note_id path pid next) faults pid next
          onDisk.rooted (notePath_ne_nil isPath) rfl
        apply ends.settles (isTarget isPath) _ rfl rfl
        · apply succeeds
          unfold deleteNoteAt
          rw [isPath]
          dsimp only [bind, Except.bind]
          rw [if_neg draftOnly, if_neg other]
          rfl
        · rfl
        · rfl
        · exact entry_removeFile onDisk isPath file
        · exact eq_false_of_ne_true draftOnly
        · unfold Deletion.run deleteNoteLogged
          dsimp only
          rw [isPath]
          dsimp only
          rw [if_neg draftOnly, if_neg other]

theorem directory_settles (onDisk : OnDisk core.bundle) (named : Text) (pid next : Nat) (faults : DeletionFaults) :
    (Deletion.directory named).Settles host workspace_id core pid next now faults := by
  have fails {error : AppError} (failed : deleteDirectoryAt host workspace_id core named .none = .error error) :
      (Deletion.directory named).operation.perform host workspace_id core now .none = (core, .error error) := by
    change deleteDirectoryLocked host workspace_id core named .none = _
    unfold deleteDirectoryLocked
    rw [failed]
  have succeeds {removed : List ConceptId} {whole : Core}
      (done : deleteDirectoryAt host workspace_id core named .none = .ok (removed, whole)) :
      (Deletion.directory named).operation.perform host workspace_id core now .none =
        (whole, .ok ⟨none, .none, removed⟩) := by
    change deleteDirectoryLocked host workspace_id core named .none = _
    unfold deleteDirectoryLocked
    rw [done]
  -- what stands before the first look at the disk fails either way
  have stuck {error : AppError} (isPath : (Deletion.directory named).target host core.bundle = .error error)
      (runs : (Deletion.directory named).run host workspace_id core pid next now faults = (core, .error error))
      (failed : deleteDirectoryAt host workspace_id core named .none = .error error) :
      (Deletion.directory named).Settles host workspace_id core pid next now faults := by
    unfold Deletion.Settles
    rw [isPath]
    exact ⟨runs, fails failed⟩
  cases normalized : normalizeDirectory host named with
  | error error =>
    apply stuck
    · unfold Deletion.target
      dsimp only
      rw [normalized]
      rfl
    · unfold Deletion.run deleteDirectoryLogged
      dsimp only
      rw [normalized]
    · unfold deleteDirectoryAt
      rw [normalized]
      rfl
  | ok directory =>
    by_cases isRoot : directory = []
    · apply stuck
      · unfold Deletion.target
        dsimp only
        rw [normalized]
        exact if_pos isRoot
      · unfold Deletion.run deleteDirectoryLogged
        dsimp only
        rw [normalized]
        dsimp only
        rw [if_pos isRoot]
      · unfold deleteDirectoryAt
        rw [normalized]
        exact if_pos isRoot
    · have isTarget : (Deletion.directory named).target host core.bundle =
          directoryAbsolute host core.bundle directory := by
        unfold Deletion.target
        dsimp only
        rw [normalized]
        exact if_neg isRoot
      cases isPath : directoryAbsolute host core.bundle directory with
      | error error =>
        apply stuck (isTarget.trans isPath)
        · unfold Deletion.run deleteDirectoryLogged
          dsimp only
          rw [normalized]
          dsimp only
          rw [if_neg isRoot, isPath]
        · unfold deleteDirectoryAt
          rw [normalized]
          dsimp only [bind, Except.bind]
          rw [if_neg isRoot, isPath]
      | ok absolute =>
        have runs : (Deletion.directory named).run host workspace_id core pid next now faults =
            if !core.bundle.exists_ absolute && (contents workspace_id core.db directory).1.isEmpty &&
                (contents workspace_id core.db directory).2.isEmpty then
              (core, .error <| .notFound <|
                "no Directory at ".toList ++ directory ++ " in this Workspace".toList)
            else if core.bundle.exists_ absolute && !core.bundle.isDir absolute then
              (core, .error <| .notFound <|
                "no Directory at ".toList ++ directory ++ " in this Workspace: it is a file".toList)
            else
              (removalOfDirectory workspace_id core directory absolute pid next).carryOut host core now faults := by
          unfold Deletion.run deleteDirectoryLogged
          dsimp only
          rw [normalized]
          dsimp only
          rw [if_neg isRoot, isPath]
        have deletes : deleteDirectoryAt host workspace_id core named .none =
            if !core.bundle.exists_ absolute && (contents workspace_id core.db directory).1.isEmpty &&
                (contents workspace_id core.db directory).2.isEmpty then
              .error <| .notFound <|
                "no Directory at ".toList ++ directory ++ " in this Workspace".toList
            else if core.bundle.exists_ absolute && !core.bundle.isDir absolute then
              .error <| .notFound <|
                "no Directory at ".toList ++ directory ++ " in this Workspace: it is a file".toList
            else
              .ok ((removalOfDirectory workspace_id core directory absolute pid next).removed,
                (removalOfDirectory workspace_id core directory absolute pid next).gone.foldl discardSession
                  { core with
                    bundle := core.bundle.removeTree absolute
                    db := (removalOfDirectory workspace_id core directory absolute pid next).db }) := by
          unfold deleteDirectoryAt
          rw [normalized]
          dsimp only [bind, Except.bind]
          rw [if_neg isRoot, isPath]
          rfl
        by_cases absent : (!core.bundle.exists_ absolute && (contents workspace_id core.db directory).1.isEmpty &&
            (contents workspace_id core.db directory).2.isEmpty) = true
        · rw [if_pos absent] at runs deletes
          exact settles_of_refused (isTarget.trans isPath) runs fun _ => fails deletes
        · rw [if_neg absent] at runs deletes
          by_cases isFile : (core.bundle.exists_ absolute && !core.bundle.isDir absolute) = true
          · rw [if_pos isFile] at runs deletes
            exact settles_of_refused (isTarget.trans isPath) runs fun _ => fails deletes
          · rw [if_neg isFile] at runs deletes
            have below := directoryAbsolute_ne_nil (normalizeDirectory_iff.mp normalized).2.2 isRoot isPath
            have ends := @Removal.ends host core now
              (removalOfDirectory workspace_id core directory absolute pid next) faults pid next onDisk.rooted below
              rfl
            apply ends.settles (isTarget.trans isPath) runs rfl rfl (succeeds deletes)
            · exact discardSessions_db _ _
            · exact sessions_discard _ rfl
            · rw [bundle_discard]
              exact Bundle.removeTree_spec.2 below
            · rfl

/-- Every deletion of a Note and of a Directory takes away what it takes away in one piece, though the commit
or the cleanup fail behind it, or it leaves every entry as it was; an error behind a rollback that did not
succeed says so. -/
theorem deletion_settles (onDisk : OnDisk core.bundle) (deletion : Deletion) (pid next : Nat) (now : Int)
    (faults : DeletionFaults) : deletion.Settles host workspace_id core pid next now faults := by
  cases deletion with
  | note note_id => exact note_settles onDisk note_id pid next faults
  | directory named => exact directory_settles onDisk named pid next faults

/-- A deletion whose trash stays. -/
theorem deletion_settles_parked : (Deletion.note ['n']).Settles Host.plain ['w']
    ⟨noteOnDisk ['a'], .empty [['w']], ∅⟩ 1 0 1 ⟨[], [some ⟨false, "busy".toList⟩], none, none⟩ := by
  apply deletion_settles
  constructor
  · apply Bundle.rooted_flat
    · intro file mem
      rcases Table.mem_put.mp mem with ⟨mem, -⟩ | rfl
      · cases mem
      · exact ⟨_, rfl⟩
    · rfl
    · rfl
  · intro directory mem
    cases mem

end Lifecycle

end Burlmd
