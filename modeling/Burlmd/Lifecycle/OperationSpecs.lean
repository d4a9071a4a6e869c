import Burlmd.Index.StoreInvariant
import Burlmd.Library.Segments
import Burlmd.Lifecycle.Affected

/-!
# What each operation does

The preconditions that a successful operation has checked, the plan it carries out and
the database it leaves.
-/

namespace Burlmd.Lifecycle

open Workspace
open Utf8 (Text)
open Okf (ConceptId containingDir slash)
open Index (WorkspaceId Database IndexedNote DirectoryRow fileStem derive)
open Checked

variable {host : Host} {workspace_id : WorkspaceId} {core core' : Core} {now : Int}
  {faults : LifecycleFaults}

/-! ## Names -/

theorem normalizeDirectory_eq_ok {path directory : Text}
    (normalized : normalizeDirectory host path = .ok directory) :
    directory = trimSlashes path ∧
      (directory ≠ [] → [] ∉ directory.splitOn slash ∧ (normalComponents directory).isSome ∧
        '\\' ∉ path ∧ ∀ segment ∈ directory.splitOn slash, segment.head? ≠ some '.') := by
  unfold normalizeDirectory at normalized
  dsimp only at normalized
  repeat' split at normalized
  all_goals try cases normalized
  · rename_i trimmed
    exact ⟨trimmed.symm, fun nonempty => absurd rfl nonempty⟩
  · rename_i backslash _ _ _ empty resolves dotted
    refine ⟨rfl, fun _ => ⟨empty, ?_, backslash, ?_⟩⟩
    · rw [Option.isSome_iff_ne_none]
      exact fun isNone => resolves (by rw [isNone]; rfl)
    · intro segment mem isDot
      exact dotted (List.any_eq_true.mpr ⟨segment, mem, decide_eq_true isDot⟩)

theorem validateSegment_eq_ok {segment : Text} (valid : validateSegment host segment = .ok ()) :
    segment ≠ [] ∧ segment.head? ≠ some '.' ∧ slash ∉ segment ∧ '\\' ∉ segment ∧
      '\x00' ∉ segment := by
  unfold validateSegment at valid
  repeat' split at valid
  all_goals try cases valid
  rename_i blank dotted unnameable _
  simp only [not_or] at unnameable
  refine ⟨?_, dotted, unnameable⟩
  rintro rfl
  exact blank rfl

theorem validateTitle_eq_ok {title : Text} (valid : validateTitle host title = .ok ()) :
    validateSegment host title = .ok () ∧ isReservedTitle title = false := by
  unfold validateTitle at valid
  obtain ⟨⟨⟩, segment, valid⟩ := bind_eq_ok.mp valid
  split at valid
  · cases valid
  · rename_i free
    exact ⟨segment, by simpa using free⟩

/-- The name of a sibling directory has the segments of its parent, and its own. -/
theorem splitOn_sibling {directory name : Text} (whole : [] ∉ directory.splitOn slash)
    (plain : slash ∉ name) :
    (joinId (containingDir directory) name).splitOn slash =
      (directory.splitOn slash).dropLast ++ [name] := by
  have isName : name.splitOn slash = [name] := List.splitOn_eq_singleton plain
  have segment : ∀ part ∈ (directory.splitOn slash).dropLast, slash ∉ part := by
    intro part mem
    exact Segments.not_mem_of_mem_splitOn (List.dropLast_subset _ mem)
  unfold joinId containingDir
  generalize directory.splitOn slash = segments at whole segment
  by_cases single : segments.dropLast = []
  · rw [single]
    exact isName
  · have nonempty : [slash].intercalate segments.dropLast ≠ [] := by
      intro isEmpty
      have split := List.splitOn_intercalate slash segment single
      rw [isEmpty, List.splitOn_nil] at split
      exact whole (List.dropLast_subset segments (split ▸ List.mem_cons_self))
    rw [if_neg nonempty, List.splitOn_append_cons_self, List.splitOn_intercalate _ segment single,
      isName]

/-- No path beneath a sibling directory is beneath the directory itself. -/
theorem sibling_apart {directory name rest : Text} (whole : [] ∉ directory.splitOn slash)
    (plain : slash ∉ name) (moves : joinId (containingDir directory) name ≠ directory) :
    ¬directory ++ [slash] <+: joinId (containingDir directory) name ++ slash :: rest := by
  rintro ⟨tail, same⟩
  rw [List.append_assoc, List.singleton_append] at same
  have split := congrArg (List.splitOn slash) same
  rw [List.splitOn_append_cons_self, List.splitOn_append_cons_self,
    splitOn_sibling whole plain] at split
  have sameLength : (directory.splitOn slash).length =
      ((directory.splitOn slash).dropLast ++ [name]).length := by
    have positive := List.length_pos_of_ne_nil (List.splitOn_ne_nil slash directory)
    rw [List.length_append, List.length_dropLast, List.length_singleton]
    omega
  have isSplit := (List.append_inj split sameLength).1
  rw [← splitOn_sibling whole plain] at isSplit
  have joined := congrArg [slash].intercalate isSplit
  rw [List.intercalate_splitOn, List.intercalate_splitOn] at joined
  exact moves joined.symm

/-! ## Preconditions -/

theorem ensurePathAvailable_eq_ok {new_id : ConceptId} {new_path : Path} {held : Option HeldBy}
    (available : ensurePathAvailable workspace_id core new_id new_path held = .ok ()) :
    (core.bundle.exists_ new_path = false ∨ held.any (fun source => source.path = new_path)) ∧
      (core.db.noteExists workspace_id new_id = false ∨
        held.any (fun source => source.path = new_path)) ∧
      (core.db.readDraft workspace_id new_id = none ∨
        held.any (fun source => source.id = new_id)) ∧
      (core.sessions.find? new_id = none ∨ held.any (fun source => source.id = new_id)) := by
  unfold ensurePathAvailable at available
  dsimp only at available
  repeat' split at available
  all_goals try cases available
  rename_i free unindexed undrafted unopened
  simp only [Bool.and_eq_true, Bool.not_eq_true', not_and, Bool.not_eq_false]
    at free unindexed undrafted unopened
  refine ⟨?_, ?_, ?_, ?_⟩
  · exact (Bool.eq_false_or_eq_true _).symm.imp_right free
  · exact (Bool.eq_false_or_eq_true _).symm.imp_right unindexed
  · cases isDraft : core.db.readDraft workspace_id new_id with
    | none => exact .inl rfl
    | some row => exact .inr (undrafted (Option.isSome_iff_exists.mpr ⟨row, isDraft⟩))
  · cases isOpen : core.sessions.find? new_id with
    | none => exact .inl rfl
    | some session => exact .inr (unopened (Option.isSome_iff_exists.mpr ⟨session, isOpen⟩))

theorem ensureDestinations_eq_ok {remap : Remap}
    (free : ensureDestinationsHoldNoForeignDraftOrSession workspace_id core remap = .ok ()) :
    ∀ renamed ∈ remap, renamed.2 ≠ renamed.1 → core.db.readDraft workspace_id renamed.2 = none ∧
      (remap.lookup renamed.2 = none → core.sessions.find? renamed.2 = none) := by
  unfold ensureDestinationsHoldNoForeignDraftOrSession at free
  split at free
  · cases free
  · rename_i undrafted
    split at free
    · cases free
    · rename_i unopened
      intro renamed mem moves
      have noDraft := List.find?_eq_none.mp undrafted renamed mem
      have noSession := List.find?_eq_none.mp unopened renamed mem
      simp only [ne_eq, moves, not_false_eq_true, decide_true, Bool.true_and,
        Bool.not_eq_true] at noDraft noSession
      constructor
      · rw [← Option.not_isSome_iff_eq_none, Bool.not_eq_true]
        exact noDraft
      · intro apart
        rw [apart, Option.isNone_none, Bool.true_and] at noSession
        rw [← Option.not_isSome_iff_eq_none, Bool.not_eq_true]
        exact noSession

theorem ensureDirectoryExists_spec {directory : Text} {bundle : Bundle}
    (ensured : ensureDirectoryExists host workspace_id core directory = .ok bundle) :
    bundle.files = core.bundle.files ∧ bundle.symlinks = core.bundle.symlinks := by
  unfold ensureDirectoryExists at ensured
  split at ensured
  · cases ensured
    exact ⟨rfl, rfl⟩
  · obtain ⟨absolute, -, ensured⟩ := bind_eq_ok.mp ensured
    split at ensured
    · cases ensured
      exact ⟨rfl, rfl⟩
    · split at ensured
      · cases ensured
        exact ⟨rfl, rfl⟩
      · cases ensured

/-! ## Opening and creating -/

theorem openNoteSerialized_frame {note_id : ConceptId} {session : NoteSession}
    (found : openNoteSerialized host workspace_id core note_id = .ok (session, core')) :
    core'.db = core.db ∧ core'.bundle = core.bundle := by
  unfold openNoteSerialized at found
  split at found
  · cases found
    exact ⟨rfl, rfl⟩
  · obtain ⟨path, -, found⟩ := bind_eq_ok.mp found
    obtain ⟨on_disk, -, found⟩ := bind_eq_ok.mp found
    obtain ⟨start, -, found⟩ := bind_eq_ok.mp found
    cases found
    exact ⟨rfl, rfl⟩

theorem openCreated_frame {note_id : ConceptId} {session : NoteSession}
    (found : openCreated host workspace_id core note_id faults = .ok (session, core')) :
    core'.db = core.db ∧ core'.bundle = core.bundle := by
  obtain ⟨-, -, found⟩ := bind_eq_ok.mp found
  exact openNoteSerialized_frame found

theorem publishNote_spec {note_id : ConceptId} {path : Path} {title : Text}
    {record : Database → Option Database}
    (published : publishNote host workspace_id core note_id path title record now faults =
      .ok core') :
    core.bundle.isFile path = false ∧ ∃ written db,
      core.db.writeNoteRows host.title_lookup_key workspace_id
        (derive host note_id (.text (conformantFrontmatter host title)) now) = some written ∧
      record written = some db ∧
      core' = { core with
        bundle := core.bundle.atomicWrite path (.text (conformantFrontmatter host title)) now
        db } := by
  unfold publishNote at published
  obtain ⟨-, -, published⟩ := bind_eq_ok.mp published
  split at published
  · cases published
  · rename_i free
    obtain ⟨-, -, published⟩ := bind_eq_ok.mp published
    have isNow : fileMtime (core.bundle.atomicWrite path
        (.text (conformantFrontmatter host title)) now) path = now := by
      unfold fileMtime Bundle.file? Bundle.atomicWrite
      rw [Table.find?_put, if_pos rfl]
      rfl
    split at published
    · cases published
    · rename_i db isRecorded
      cases published
      obtain ⟨written, isWritten, isRecorded⟩ := Option.bind_eq_some_iff.mp isRecorded
      rw [isNow] at isWritten
      exact ⟨by simpa using free, written, db, isWritten, isRecorded, rfl⟩

/-! ## Prefixes -/

theorem mem_withPrefix {start : Text} {ids : List ConceptId} {id : ConceptId} :
    id ∈ Database.withPrefix start ids ↔ id ∈ ids ∧ start <+: id := by
  unfold Database.withPrefix
  simp only [List.mem_filter, List.isPrefixOf_iff_prefix, and_assoc]
  refine and_congr_right fun _ => ⟨And.right, fun isPrefix => ⟨?_, isPrefix⟩⟩
  unfold Database.likePrefix
  rw [List.isPrefixOf_iff_prefix]
  exact isPrefix.map _

theorem mem_contents {db : Database} {directory : Text} {id : ConceptId} :
    id ∈ (contents workspace_id db directory).1 ++ (contents workspace_id db directory).2 ↔
      (id ∈ (db.notes.rows.filter fun note => note.workspace_id = workspace_id).map
          Index.NoteRow.id ∨
        id ∈ db.draftNoteIds workspace_id) ∧ directory ++ [slash] <+: id := by
  unfold contents
  simp only [List.mem_append, List.mem_filter, decide_eq_true_eq, Database.noteIdsWithPrefix,
    Database.draftIdsWithPrefix, mem_withPrefix]
  tauto

/-! ## Plans -/

theorem lookup_singleRemap {note_id new_id id : ConceptId} :
    (singleRemap note_id new_id).lookup id =
      if id = note_id ∧ new_id ≠ note_id then some new_id else none := by
  unfold singleRemap
  split
  · rename_i same
    rw [if_neg (by simp [same])]
    rfl
  · rename_i moves
    by_cases own : id = note_id
    · subst own
      rw [if_pos ⟨rfl, moves⟩, List.lookup_cons_self]
    · rw [if_neg (by simp [own]), List.lookup_cons, beq_false_of_ne own]
      rfl

theorem lookup_map_self {ids : List ConceptId} {target : ConceptId → ConceptId} {id : ConceptId} :
    List.lookup id (ids.map fun id => (id, target id)) = if id ∈ ids then some (target id) else none := by
  induction ids with
  | nil => rfl
  | cons first rest ih =>
    rw [List.map_cons, List.lookup_cons]
    by_cases own : id = first
    · subst own
      simp
    · rw [beq_false_of_ne own, ih]
      simp [own]
theorem planRename_spec {note_id new_title : Text} {new_id : ConceptId} {plan : Reidentify}
    (planned : planRename host workspace_id core note_id new_title = .ok (new_id, plan)) :
    ∃ old_path new_path, validateTitle host new_title = .ok () ∧
      notePath host core.bundle note_id = .ok old_path ∧ core.bundle.isFile old_path = true ∧
      new_id = joinId (containingDir note_id) new_title ∧
      notePath host core.bundle new_id = .ok new_path ∧
      ensurePathAvailable workspace_id core new_id new_path (some ⟨note_id, old_path⟩) = .ok () ∧
      plan =
        { remap := singleRemap note_id new_id
          file_less := []
          invoked := some note_id
          retitled := some (note_id, new_title)
          absolutize := none
          directory_rename := none } := by
  unfold planRename at planned
  obtain ⟨⟨⟩, valid, planned⟩ := bind_eq_ok.mp planned
  obtain ⟨old_path, isOld, planned⟩ := bind_eq_ok.mp planned
  split at planned
  · cases planned
  · rename_i isFile
    obtain ⟨new_path, isNew, planned⟩ := bind_eq_ok.mp planned
    obtain ⟨⟨⟩, available, planned⟩ := bind_eq_ok.mp planned
    cases planned
    exact ⟨old_path, new_path, valid, isOld, by simpa using isFile, rfl, isNew, available, rfl⟩

theorem planMove_spec {note_id new_id : ConceptId} {directory : Text} {old_path : Path}
    {plan : Reidentify}
    (planned : planMove host workspace_id core note_id directory old_path = .ok (new_id, plan)) :
    ∃ new_path, new_id = joinId directory (fileStem note_id) ∧
      notePath host core.bundle new_id = .ok new_path ∧
      ensurePathAvailable workspace_id core new_id new_path (some ⟨note_id, old_path⟩) = .ok () ∧
      plan =
        { remap := singleRemap note_id new_id
          file_less := []
          invoked := some note_id
          retitled := none
          absolutize := if containingDir note_id ≠ directory then some note_id else none
          directory_rename := none } := by
  unfold planMove at planned
  obtain ⟨new_path, isNew, planned⟩ := bind_eq_ok.mp planned
  obtain ⟨⟨⟩, available, planned⟩ := bind_eq_ok.mp planned
  cases planned
  exact ⟨new_path, rfl, isNew, available, rfl⟩

theorem locateMove_spec {note_id : ConceptId} {new_directory_path directory : Text}
    {old_path : Path} {bundle : Bundle}
    (located : locateMove host workspace_id core note_id new_directory_path =
      .ok (old_path, directory, bundle)) :
    notePath host core.bundle note_id = .ok old_path ∧ core.bundle.isFile old_path = true ∧
      normalizeDirectory host new_directory_path = .ok directory ∧
      ensureDirectoryExists host workspace_id core directory = .ok bundle := by
  unfold locateMove at located
  obtain ⟨old_path', isOld, located⟩ := bind_eq_ok.mp located
  split at located
  · cases located
  · rename_i isFile
    obtain ⟨directory', normalized, located⟩ := bind_eq_ok.mp located
    obtain ⟨bundle', ensured, located⟩ := bind_eq_ok.mp located
    cases located
    exact ⟨isOld, by simpa using isFile, normalized, ensured⟩

/-- The rename of a Directory, with the names it checked. -/
structure DirectoryPlan (host : Host) (workspace_id : WorkspaceId) (core : Core)
    (path new_name directory : Text) (plan : Reidentify) : Prop where
  normalized : normalizeDirectory host path = .ok directory
  inside : directory ≠ []
  valid : validateSegment host new_name = .ok ()
  moves : joinId (containingDir directory) new_name ≠ directory
  remap : plan.remap = directoryRemap directory (joinId (containingDir directory) new_name)
    ((contents workspace_id core.db directory).1 ++ (contents workspace_id core.db directory).2)
  free : ensureDestinationsHoldNoForeignDraftOrSession workspace_id core plan.remap = .ok ()
  file_less : plan.file_less = (contents workspace_id core.db directory).2
  plain : plan.invoked = none ∧ plan.retitled = none ∧ plan.absolutize = none
  renames : ∃ old_absolute new_absolute,
    directoryAbsolute host core.bundle directory = .ok old_absolute ∧
    directoryAbsolute host core.bundle (joinId (containingDir directory) new_name) =
      .ok new_absolute ∧
    core.bundle.isDir old_absolute = true ∧
    (core.bundle.exists_ new_absolute = false ∨ new_absolute = old_absolute) ∧
    plan.directory_rename = some
      ⟨directory, joinId (containingDir directory) new_name, old_absolute, new_absolute⟩

theorem planDirectoryRename_spec {path new_name : Text} {result : Option Reidentify}
    (planned : planDirectoryRename host workspace_id core path new_name = .ok result) :
    ∃ directory, normalizeDirectory host path = .ok directory ∧
      ((result = none ∧ joinId (containingDir directory) new_name = directory) ∨
        ∃ plan, result = some plan ∧
          DirectoryPlan host workspace_id core path new_name directory plan) := by
  unfold planDirectoryRename at planned
  obtain ⟨directory, normalized, planned⟩ := bind_eq_ok.mp planned
  refine ⟨directory, normalized, ?_⟩
  split at planned
  · cases planned
  · rename_i inside
    obtain ⟨⟨⟩, valid, planned⟩ := bind_eq_ok.mp planned
    obtain ⟨old_absolute, isOld, planned⟩ := bind_eq_ok.mp planned
    obtain ⟨new_absolute, isNew, planned⟩ := bind_eq_ok.mp planned
    split at planned
    · cases planned
    · rename_i isDir
      split at planned
      · cases planned
      · rename_i vacant
        split at planned
        · rename_i same
          cases planned
          exact .inl ⟨rfl, same⟩
        · rename_i moves
          obtain ⟨⟨⟩, free, planned⟩ := bind_eq_ok.mp planned
          cases planned
          refine .inr ⟨_, rfl, normalized, inside, valid, moves, rfl, free, rfl, ⟨rfl, rfl, rfl⟩, ?_⟩
          refine ⟨old_absolute, new_absolute, isOld, isNew, by simpa using isDir, ?_, rfl⟩
          simp only [ne_eq, moves, not_false_eq_true, decide_true, Bool.true_and,
            Bool.and_eq_true, decide_eq_true_eq, not_and, not_not] at vacant
          cases taken : core.bundle.exists_ new_absolute with
          | false => exact .inl rfl
          | true => exact .inr (vacant taken)

/-! ## The database after a plan -/

theorem rekeyDirectories_spec {db db' : Database} {rename : DirectoryRename}
    (rekeyed : rekeyDirectories workspace_id db rename = some db') :
    ∃ directories, db' = { db with directories } := by
  unfold rekeyDirectories at rekeyed
  simp only [Option.bind_eq_bind, Option.bind_eq_some_iff] at rekeyed
  obtain ⟨middle, folded, recorded⟩ := rekeyed
  have fold : ∃ directories, middle = { db with directories } := by
    generalize List.map DirectoryRow.id _ = existing at folded
    clear recorded
    induction existing generalizing db with
    | nil =>
      obtain rfl := Option.some.inj folded
      exact ⟨_, rfl⟩
    | cons id rest ih =>
      rw [List.foldlM_cons, Option.bind_eq_bind, Option.bind_eq_some_iff] at folded
      obtain ⟨next, first, folded⟩ := folded
      obtain ⟨directories, rfl⟩ := ih folded
      split at first
      · obtain rfl := Option.some.inj first
        exact ⟨directories, rfl⟩
      · unfold Database.insertDirectory at first
        split at first
        · obtain rfl := Option.some.inj first
          exact ⟨directories, rfl⟩
        · cases first
  obtain ⟨directories, rfl⟩ := fold
  obtain ⟨directories', rfl⟩ := Database.recordDirectories_spec recorded
  exact ⟨directories', rfl⟩

/-- The stages of the one transaction of a plan. -/
theorem rewriteIndex_spec {db db' : Database} {plan : Reidentify} {affected : List Affected}
    {indexed : List IndexedNote}
    (rewritten : rewriteIndex host workspace_id db plan affected indexed now = some db') :
    ∃ indexedDb directories,
      indexed.foldlM
        (fun db note => Database.writeNoteRows host.title_lookup_key db workspace_id note)
        ((affected.filter fun a => a.old_id ≠ a.new_id).foldl
          (fun db a => db.removeNoteRows workspace_id a.old_id)
          (affected.foldl (carryDraft workspace_id now)
            (plan.remap.foldl
              (fun db renamed => db.updateLinkTargets workspace_id renamed.1 renamed.2) db))) =
        some indexedDb ∧
      db' = { indexedDb with directories } := by
  unfold rewriteIndex at rewritten
  simp only [Option.bind_eq_bind, Option.bind_eq_some_iff] at rewritten
  obtain ⟨indexedDb, written, rewritten⟩ := rewritten
  refine ⟨indexedDb, db'.directories, written, ?_⟩
  split at rewritten
  · obtain ⟨directories, rfl⟩ := rekeyDirectories_spec rewritten
    rfl
  · obtain rfl := Option.some.inj rewritten
    rfl

end Burlmd.Lifecycle
