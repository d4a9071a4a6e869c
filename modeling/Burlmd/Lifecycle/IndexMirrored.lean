import Burlmd.Lifecycle.DraftsKept
import Burlmd.Lifecycle.PlanMirrored

/-!
# Operations keep the mirror

A rename or a move of a Note and a rename of a Directory take the entries along that their plans
affect, so the index mirrors the disk after them as it did before.
-/

namespace Burlmd.Lifecycle

open Workspace
open Markdown
open Segments
open Burlmd.Snapshot (notePath_of_listed joinId_of_listed)
open Utf8 (Text byteLen byteLen_eq_zero slice? slice?_isSome_iff isBoundary_iff)
open Okf (ConceptId containingDir conceptIdToPath mdSuffix slash)
open Index (WorkspaceId Database Named Mirrors contentsOf listedId fileStem reservedFilenames
  contentsOf_of_listed)
open Checked

variable {host : Host} {workspace_id : WorkspaceId} {plan : Reidentify} {core core' : Core} {now : Int}
  {affected : List Affected} {bundle : Bundle} {source target path : Path} {id : ConceptId}

/-! ## The Notes of a plan -/

/-- Core holds drafts and sessions under the ids of the walk. -/
structure Known (workspace_id : WorkspaceId) (core : Core) : Prop where
  drafts : ∀ id, (core.db.readDraft workspace_id id).isSome → Named id
  sessions : ∀ id, (core.sessions.find? id).isSome → Named id

/-- A plan moves one Note, which has its file, to where the walk lists it. -/
structure MovesOne (host : Host) (core : Core) (plan : Reidentify) (note_id : ConceptId) : Prop where
  plain : plan.directory_rename = none
  others : ∀ id, id ≠ note_id → plan.newId id = id
  isFile : ∀ path, notePath host core.bundle note_id = .ok path → core.bundle.isFile path = true
  listed : plan.newId note_id ≠ note_id → ∀ path,
    notePath host core.bundle (plan.newId note_id) = .ok path → listedId path = some (plan.newId note_id)

/-- A Note that a plan reads goes by an id of the walk. -/
theorem named_of_candidate (mirrors : Mirrors host workspace_id core.bundle core.db) (known : Known workspace_id core)
    (targets : ∀ id ∈ plan.targets, Named id) (candidate : id ∈ plan.candidates workspace_id core) :
    Named id := by
  rcases mem_candidates.mp candidate with target | ⟨renamed, -, linked⟩ | drafted | opened
  · exact targets id target
  · by_contra unnamed
    have isSome := Database.mem_linkSources.mp linked
    rw [mirrors.rows_iff.mpr (Index.contentsOf_of_unnamed unnamed)] at isSome
    cases isSome
  · exact known.drafts id drafted
  · exact known.sessions id opened

/-- The ids of a plan are spelled as the walk spells them if the new ones are. -/
theorem spells_of_plans (plans : Plans host workspace_id plan core affected)
    (named : ∀ id ∈ plan.candidates workspace_id core, Named id)
    (relists : ∀ id path, Named id → plan.newId id ≠ id →
      notePath host core.bundle (plan.newId id) = .ok path → listedId path = some (plan.newId id)) :
    Spells affected := by
  refine ⟨fun a mem => ?_, fun a mem => ?_, plans.distinct⟩
  · rcases plans.affects a mem with ⟨candidate, disk, affects⟩
    exact listed_of_notePath (named _ candidate) affects.old_path
  · rcases plans.affects a mem with ⟨candidate, disk, affects⟩
    have isNew := affects.new_path
    rw [affects.new_id] at isNew ⊢
    by_cases same : plan.newId a.old_id = a.old_id
    · rw [same] at isNew ⊢
      exact listed_of_notePath (named _ candidate) isNew
    · exact relists _ _ (named _ candidate) same isNew

theorem MovesOne.relists {note_id : ConceptId} (moves : MovesOne host core plan note_id) (id : ConceptId)
    (path : Path) (moved : plan.newId id ≠ id) (isNew : notePath host core.bundle (plan.newId id) = .ok path) :
    listedId path = some (plan.newId id) := by
  obtain rfl : id = note_id := by
    by_contra other
    exact moved (moves.others _ other)
  exact moves.listed moved path isNew

/-- Nothing is under a file. -/
theorem below_file (tree : Tree bundle) (isFile : bundle.isFile source = true) (under : source <+: path)
    (read : bundle.read path ≠ none) : path = source := by
  by_contra apart
  rcases Option.isSome_iff_exists.mp isFile with ⟨file, found⟩
  have held : bundle.read source = some file.contents := congrArg (Option.map BundleFile.contents) found
  have below : source ≠ [] := by
    rcases Index.mem_files_of_read held with ⟨file, mem, rfl, -⟩
    exact (tree.rooted.files file mem).1
  rcases Option.ne_none_iff_exists'.mp read with ⟨contents, isRead⟩
  rcases Index.mem_files_of_read isRead with ⟨other, mem, rfl, -⟩
  have isDirectory := (tree.rooted.files other mem).2 source under below fun same => apart same.symm
  rw [tree.onDisk.single source isDirectory] at held
  cases held

/-- A Note that moves takes nothing along. -/
theorem carries_of_note {note_id : ConceptId} {a : Affected} (tree : Tree core.bundle)
    (plans : Plans host workspace_id plan core affected) (spells : Spells affected)
    (moves : MovesOne host core plan note_id) (mem : a ∈ affected) (moved : a.old_path ≠ a.new_path)
    (vacant : core.bundle.Vacant a.new_path) : Carries core.bundle affected a.old_path a.new_path := by
  have stays : ∀ b ∈ affected, b.old_id ≠ note_id → b.new_path = b.old_path := by
    intro b inside other
    rcases (plans.affects b inside).2 with ⟨disk, affects⟩
    have isNew := affects.new_path
    rw [affects.new_id, moves.others _ other, affects.old_path] at isNew
    exact (Except.ok.inj isNew).symm
  have mover : a.old_id = note_id := by
    by_contra other
    exact moved (stays a mem other).symm
  have isFile : core.bundle.isFile a.old_path = true := by
    rcases (plans.affects a mem).2 with ⟨disk, affects⟩
    exact moves.isFile _ (mover ▸ affects.old_path)
  refine ⟨vacant, ?_, ?_⟩
  · intro b inside onDisk
    by_cases same : b.old_id = a.old_id
    · obtain rfl := List.inj_on_of_nodup_map plans.distinct inside mem same
      have whole := @Bundle.relocate_below b.old_path b.new_path []
      rw [List.append_nil, List.append_nil] at whole
      exact whole.symm
    · rw [stays b inside (mover ▸ same), Bundle.relocate_other]
      intro under
      rcases (files_of_plans plans b inside).1 onDisk with ⟨text, read⟩
      have isPath := below_file tree isFile under (by rw [read]; exact Option.some_ne_none _)
      have isOld := spells.old b inside
      rw [isPath, spells.old a mem] at isOld
      exact same (Option.some.inj isOld).symm
  · intro path contents under read _
    refine ⟨a, mem, ?_⟩
    exact (below_file tree isFile under (by rw [read]; exact Option.some_ne_none _)).symm

/-- The texts and the directories on the way leave the place free that a Note goes to. -/
theorem vacant_staged (spells : Spells affected) (files : Files bundle affected) (vacant : bundle.Vacant target)
    (below : target ≠ []) :
    ((putTexts now bundle affected).createDirAll target.dropLast).Vacant target := by
  have frame : (putTexts now bundle affected).directories = bundle.directories ∧
      (putTexts now bundle affected).symlinks = bundle.symlinks := by
    clear spells files vacant below
    unfold putTexts
    induction affected generalizing bundle with
    | nil => exact ⟨rfl, rfl⟩
    | cons a rest ih =>
      rw [List.foldl_cons]
      cases a.new_file with
      | none => exact ih
      | some text => exact @ih (bundle.atomicWrite a.old_path (.text text) now)
  constructor
  · intro file mem under
    have present : (putTexts now bundle affected).read file.path ≠ none := by
      intro missing
      exact Bundle.read_eq_none_iff.mp missing file mem rfl
    rw [ne_eq, read_putTexts_eq_none spells files, ← ne_eq] at present
    rcases Option.ne_none_iff_exists'.mp present with ⟨contents, read⟩
    rcases Index.mem_files_of_read read with ⟨other, inside, isPath, -⟩
    exact vacant.files other inside (isPath ▸ under)
  · intro directory mem under
    rcases List.mem_append.mp mem with mem | mem
    · rw [frame.1] at mem
      exact vacant.directories directory mem under
    · have level := (List.mem_inits _ _).mp (List.mem_of_mem_tail (List.mem_filter.mp mem).1)
      have shorter := (under.trans level).length_le
      have positive := List.length_pos_iff.mpr below
      rw [List.length_dropLast] at shorter
      omega
  · intro link mem
    have same : ((putTexts now bundle affected).createDirAll target.dropLast).symlinks = bundle.symlinks := frame.2
    rw [same] at mem
    exact vacant.links link mem

/-- A path whose segments are all seen is spelled as it is read. -/
theorem joinPath_of_normalComponents {text : Text}
    (visible : ∀ segment ∈ text.splitOn slash, segment ≠ [] ∧ segment.head? ≠ some '.')
    (found : normalComponents text = some path) : joinPath path = text := by
  unfold joinPath
  rw [text_of_normalComponents visible found, List.intercalate_splitOn]

/-- The walk lists a file that is called as a Note is, in a directory that is seen. -/
theorem listed_of_named {directory stem : Text}
    (directories : directory ≠ [] → ∀ segment ∈ directory.splitOn slash,
      segment ≠ [] ∧ segment.head? ≠ some '.')
    (whole : slash ∉ stem) (nonempty : stem ≠ []) (shown : stem.head? ≠ some '.')
    (unreserved : stem ++ mdSuffix ∉ reservedFilenames)
    (found : normalComponents (conceptIdToPath (joinId directory stem)) = some path) :
    listedId path = some (joinId directory stem) := by
  have noSlash : slash ∉ mdSuffix := by decide
  have segments : (conceptIdToPath (joinId directory stem)).splitOn slash =
      (if directory = [] then [] else directory.splitOn slash) ++ [stem ++ mdSuffix] := by
    unfold conceptIdToPath
    rw [splitOn_append noSlash, lastSegment_joinId whole, splitOn_joinId whole, List.dropLast_concat]
  have visible : ∀ segment ∈ (conceptIdToPath (joinId directory stem)).splitOn slash,
      segment ≠ [] ∧ segment.head? ≠ some '.' := by
    intro segment mem
    rw [segments] at mem
    rcases List.mem_append.mp mem with mem | mem
    · by_cases root : directory = []
      · rw [if_pos root] at mem
        cases mem
      · rw [if_neg root] at mem
        exact directories root segment mem
    · obtain rfl := List.mem_singleton.mp mem
      rw [List.head?_append_of_ne_nil _ nonempty]
      exact ⟨fun isEmpty => nonempty (List.append_eq_nil_iff.mp isEmpty).1, shown⟩
  have texts := text_of_normalComponents visible found
  rw [segments] at texts
  rcases List.map_eq_append_iff.mp texts with ⟨levels, last, rfl, -, isLast⟩
  rcases List.map_eq_singleton_iff.mp isLast with ⟨name, rfl, isName⟩
  refine listedId_eq_some_iff.mpr ⟨levels, name, rfl, ?_, ?_, ?_, ?_⟩
  · intro level mem
    rw [hidden_eq_false_iff]
    refine (visible level.text ?_).2
    rw [← text_of_normalComponents visible found]
    exact List.mem_map_of_mem mem
  · rw [isName]
    exact List.suffix_append _ _
  · rw [isName]
    exact unreserved
  · exact (joinPath_of_normalComponents visible found).symm

/-- What the walk's id of a Note is made of. -/
theorem parts_of_named (named : Named id) :
    (containingDir id ≠ [] → ∀ segment ∈ (containingDir id).splitOn slash,
      segment ≠ [] ∧ segment.head? ≠ some '.') ∧
    slash ∉ fileStem id ∧ fileStem id ≠ [] ∧ (fileStem id).head? ≠ some '.' ∧
    fileStem id ++ mdSuffix ∉ reservedFilenames := by
  rcases named with ⟨path, listed⟩
  rcases listedId_eq_some_iff.mp listed with ⟨levels', name', isPath', -, -, unreserved, -⟩
  rcases joinId_of_listed listed with
    ⟨levels, name, stem, isPath, isName, rfl, whole, visible, shown, nonempty, -⟩
  rw [containingDir_joinId whole]
  have isStem : fileStem (joinId (joinPath levels) stem) = stem := lastSegment_joinId whole
  rw [isStem]
  refine ⟨?_, whole, nonempty, shown, ?_⟩
  · intro inside segment mem
    have above : levels ≠ [] := by
      rintro rfl
      exact inside rfl
    rw [splitOn_joinPath above] at mem
    rcases List.mem_map.mp mem with ⟨level, isLevel, rfl⟩
    refine ⟨level.nameable.1, hidden_eq_false_iff.mp (visible level ?_)⟩
    rw [isPath]
    exact List.mem_append_left _ isLevel
  · obtain ⟨-, same⟩ := List.append_inj' (isPath.symm.trans isPath') rfl
    rw [← isName, List.singleton_inj.mp same]
    exact unreserved

theorem unreserved_of_validTitle {title : Text} (valid : ValidTitle title) :
    title ++ mdSuffix ∉ reservedFilenames := by
  have unreserved := valid.unreserved
  intro isReserved
  simp only [reservedFilenames, List.mem_cons, List.not_mem_nil, or_false] at isReserved
  rcases isReserved with same | same
  · obtain rfl : title = "index".toList := @List.append_cancel_right _ _ mdSuffix _ same
    cases unreserved
  · obtain rfl : title = "log".toList := @List.append_cancel_right _ _ mdSuffix _ same
    cases unreserved

/-- A rename or a move of a Note moves that Note. -/
theorem movesOne_of_plan {op : Operation} (planned : op.plan host workspace_id core = some (core', plan))
    (plain : plan.directory_rename = none) (targets : ∀ id ∈ plan.targets, Named id) :
    ∃ note_id, MovesOne host core' plan note_id := by
  cases planned_of_plan planned with
  | rename note_id new_title new_id isPlan =>
    rcases planRename_spec isPlan with
      ⟨old_path, new_path, validated, isOld, isFile, isId, isNew, -, shape⟩
    have remap : plan.remap = singleRemap note_id new_id := congrArg Reidentify.remap shape
    have isNewId := (@newId_singleRemap note_id new_id note_id plan remap).2
    have named : Named note_id := by
      apply targets
      unfold Reidentify.targets
      rw [shape]
      exact List.mem_append_right _ List.mem_cons_self
    have valid := validateTitle_iff.mp validated
    refine ⟨note_id, plain, fun id => (newId_singleRemap remap).1, ?_, ?_⟩
    · intro path isPath
      obtain rfl := Except.ok.inj (isOld.symm.trans isPath)
      exact isFile
    · intro _ path isPath
      rw [isNewId, isId] at isPath ⊢
      exact listed_of_named (parts_of_named named).1 valid.whole valid.ne_nil valid.visible
        (unreserved_of_validTitle valid) (normalComponents_of_notePath isPath)
  | move note_id new_directory_path new_id old_path directory bundle located isPlan =>
    rcases locateMove_spec located with ⟨isOld, isFile, normalized, ensured⟩
    rcases ensureDirectoryExists_spec ensured with ⟨sameFiles, sameLinks⟩
    rcases planMove_spec isPlan with ⟨new_path, isId, isNew, -, shape⟩
    have remap : plan.remap = singleRemap note_id new_id := congrArg Reidentify.remap shape
    have isNewId := (@newId_singleRemap note_id new_id note_id plan remap).2
    refine ⟨note_id, plain, fun id => (newId_singleRemap remap).1, ?_, ?_⟩
    · intro path isPath
      dsimp only at isPath ⊢
      rw [notePath_congr sameLinks] at isPath
      obtain rfl := Except.ok.inj (isOld.symm.trans isPath)
      unfold Bundle.isFile Bundle.file? at isFile ⊢
      rw [sameFiles]
      exact isFile
    · intro moves path isPath
      have named : Named note_id := by
        apply targets
        unfold Reidentify.targets
        rw [remap]
        unfold singleRemap
        rw [isNewId] at moves
        rw [if_neg moves]
        exact List.mem_cons_self
      rcases parts_of_named named with ⟨-, whole, nonempty, shown, unreserved⟩
      have valid := (normalizeDirectory_iff.mp normalized).2.2
      rw [isNewId, isId] at isPath ⊢
      apply listed_of_named _ whole nonempty shown unreserved (normalComponents_of_notePath isPath)
      intro inside
      exact (valid.resolve_left inside).2
  | directory path new_name directory isPlan made =>
    rcases made.renames with ⟨old_absolute, new_absolute, -, -, -, -, isRename⟩
    rw [isRename] at plain
    cases plain

/-! ## Directories -/

theorem joinPath_append {front rest : Path} (below : front ≠ []) (more : rest ≠ []) :
    joinPath (front ++ rest) = joinPath front ++ slash :: joinPath rest := by
  induction front with
  | nil => exact absurd rfl below
  | cons name others ih =>
    have both : others ++ rest ≠ [] := List.append_ne_nil_of_right_ne_nil _ more
    by_cases last : others = []
    · subst last
      rw [List.singleton_append, joinPath_cons more, joinPath_singleton]
    · rw [List.cons_append, joinPath_cons both, ih last, joinPath_cons last, List.append_assoc, List.cons_append]

/-- A Note that is listed under one directory is listed with the rest of its id under another. -/
theorem listed_relocated {rest : Path} (listed : listedId (source ++ rest) = some id) (below : source ≠ [])
    (below' : target ≠ []) (more : rest ≠ []) (visible' : ∀ level ∈ target, Index.hidden level.text = false) :
    ∃ tail, id = joinPath source ++ slash :: tail ∧
      listedId (target ++ rest) = some (joinPath target ++ slash :: tail) := by
  rcases listedId_eq_some_iff.mp listed with ⟨levels, name, same, visible, isNote, unreserved, spelled⟩
  rcases List.eq_nil_or_concat' rest with rfl | ⟨front, last, rfl⟩
  · exact absurd rfl more
  · rw [← List.append_assoc] at same
    obtain rfl := List.singleton_inj.mp (List.append_inj' same rfl).2
    rcases isNote.trans (suffix_joinPath (@List.getLast?_concat _ front last)) with ⟨tail, isTail⟩
    refine ⟨tail, ?_, listedId_eq_some_iff.mpr ⟨target ++ front, last, ?_, ?_, isNote, unreserved, ?_⟩⟩
    · rw [joinPath_append below more, ← isTail] at spelled
      apply @List.append_cancel_right _ _ mdSuffix
      rw [List.append_assoc, List.cons_append]
      exact spelled
    · rw [List.append_assoc]
    · intro level mem
      rcases List.mem_append.mp mem with mem | mem
      · exact visible' level mem
      · exact visible level (List.mem_append_right _ mem)
    · rw [joinPath_append below' more, ← isTail]
      unfold conceptIdToPath
      rw [List.append_assoc, List.cons_append]

/-- An id under the spelling of a path is of a file under the path. -/
theorem below_of_listed {tail : Text} (listed : listedId path = some (joinPath source ++ slash :: tail))
    (below : source ≠ []) : ∃ rest, rest ≠ [] ∧ path = source ++ rest := by
  rcases listedId_eq_some_iff.mp listed with ⟨levels, name, isPath, -, -, -, spelled⟩
  have nonempty : path ≠ [] := by
    rw [isPath]
    exact List.append_ne_nil_of_right_ne_nil _ (List.cons_ne_nil _ _)
  have segments := splitOn_joinPath nonempty
  unfold conceptIdToPath at spelled
  rw [← spelled, List.append_assoc, List.cons_append, List.splitOn_append_cons_self,
    splitOn_joinPath below] at segments
  rcases List.map_eq_append_iff.mp segments.symm with ⟨front, rest, rfl, isFront, isRest⟩
  refine ⟨rest, ?_, ?_⟩
  · rintro rfl
    exact List.splitOn_ne_nil _ _ isRest.symm
  · have same := mapM_of?_text front
    rw [isFront, mapM_of?_text source] at same
    rw [Option.some.inj same]

/-- The path of a Directory is spelled as the Directory is. -/
theorem joinPath_of_directoryAbsolute {directory : Text} (valid : ValidDirectory directory) (inside : directory ≠ [])
    (isPath : directoryAbsolute host bundle directory = .ok path) :
    joinPath path = directory ∧ path ≠ [] ∧ ∀ level ∈ path, Index.hidden level.text = false := by
  rcases valid with root | ⟨carried, visible⟩
  · exact absurd root inside
  · rcases exists_path_of_visible carried visible with ⟨levels, isLevels, found⟩
    obtain rfl : levels = path := by
      unfold directoryAbsolute at isPath
      rw [found] at isPath
      dsimp only [Option.getD_some] at isPath
      split_ifs at isPath
      exact Except.ok.inj isPath
    refine ⟨?_, ?_, ?_⟩
    · unfold joinPath
      rw [isLevels, List.intercalate_splitOn]
    · rintro rfl
      exact List.splitOn_ne_nil slash directory isLevels.symm
    · intro level mem
      refine hidden_eq_false_iff.mpr (visible level.text ?_).2
      rw [← isLevels]
      exact List.mem_map_of_mem mem

/-- The two places of a Directory that gets another name. -/
structure Places (core : Core) (plan : Reidentify) (directory new_directory : Text) (source target : Path) :
    Prop where
  renames : plan.directory_rename = some ⟨directory, new_directory, source, target⟩
  spelled : joinPath source = directory
  respelled : joinPath target = new_directory
  below : source ≠ []
  below' : target ≠ []
  visible : ∀ level ∈ source, Index.hidden level.text = false
  visible' : ∀ level ∈ target, Index.hidden level.text = false
  present : source ∈ core.bundle.directories

section Directories

variable {named new_name directory : Text}

theorem places_of_plan (made : DirectoryPlan host workspace_id core named new_name directory plan) :
    ∃ source target, Places core plan directory (joinId (containingDir directory) new_name) source target := by
  rcases made.renames with ⟨levels, new_absolute, isOld, isNew, isDir, -, isRename⟩
  rcases joinPath_of_directoryAbsolute (normalizeDirectory_iff.mp made.normalized).2.2 made.inside isOld with
    ⟨spelled, nonempty, shown⟩
  have valid := validateSegment_iff.mp made.valid
  have named' : new_name ≠ [] := by
    rintro rfl
    exact valid.nonblank rfl
  have nameable := nameable_of_visible named' valid.visible valid.whole valid.carried.2.1
  obtain ⟨name, isName⟩ : ∃ name : Name, name.text = new_name := ⟨⟨new_name, nameable⟩, rfl⟩
  have below' : levels.dropLast ++ [name] ≠ [] :=
    List.append_ne_nil_of_right_ne_nil _ (List.cons_ne_nil _ _)
  have respelled : joinPath (levels.dropLast ++ [name]) = joinId (containingDir directory) new_name := by
    have segments : (levels.dropLast ++ [name]).map Name.text =
        (joinId (containingDir directory) new_name).splitOn slash := by
      rw [splitOn_sibling made.whole.2 valid.whole, List.map_append, List.map_dropLast, List.map_singleton, isName,
        ← splitOn_joinPath nonempty, spelled]
    unfold joinPath
    rw [segments, List.intercalate_splitOn]
  obtain rfl : levels.dropLast ++ [name] = new_absolute := by
    unfold directoryAbsolute at isNew
    rw [← respelled, normalComponents_joinPath below'] at isNew
    dsimp only [Option.getD_some] at isNew
    split_ifs at isNew
    exact Except.ok.inj isNew
  refine ⟨_, _, isRename, spelled, respelled, nonempty, below', shown, ?_, ?_⟩
  · intro level mem
    rcases List.mem_append.mp mem with mem | mem
    · exact shown level (List.dropLast_subset _ mem)
    · obtain rfl := List.mem_singleton.mp mem
      rw [isName]
      exact hidden_eq_false_iff.mpr valid.visible
  · unfold Bundle.isDir at isDir
    rcases Bool.or_eq_true_iff.mp isDir with root | mem
    · exact absurd (of_decide_eq_true root) nonempty
    · exact of_decide_eq_true mem

theorem mem_noteIds_iff {db : Database} : id ∈ (db.notes.rows.filter fun note => note.workspace_id = workspace_id).map
    Index.NoteRow.id ↔ db.noteExists workspace_id id = true := by
  unfold Database.noteExists
  simp only [List.mem_map, List.mem_filter, decide_eq_true_eq, Option.isSome_iff_exists, Table.find?_eq_some_iff]
  constructor
  · rintro ⟨row, ⟨mem, rfl⟩, rfl⟩
    exact ⟨row, mem, rfl⟩
  · rintro ⟨row, mem, same⟩
    exact ⟨row, ⟨mem, congrArg Prod.fst same⟩, congrArg Prod.snd same⟩

/-- What a Directory rename is about goes by ids of the walk. -/
theorem named_of_directory (mirrors : Mirrors host workspace_id core.bundle core.db) (known : Known workspace_id core)
    (made : DirectoryPlan host workspace_id core named new_name directory plan) :
    ∀ id ∈ plan.targets, Named id := by
  intro id mem
  unfold Reidentify.targets at mem
  rw [made.plain.2.1, made.remap, directoryRemap, Option.toList_none, List.map_nil, List.append_nil,
    List.map_map] at mem
  rcases List.mem_map.mp mem with ⟨other, inside, isId⟩
  obtain rfl : other = id := isId
  rcases (mem_contents.mp ((List.mem_insertionSort _).mp inside)).1 with noted | drafted
  · by_contra unnamed
    have isSome := mirrors.noteExists_iff.mp (mem_noteIds_iff.mp noted)
    rw [Index.contentsOf_of_unnamed unnamed] at isSome
    cases isSome
  · exact known.drafts _ (mem_draftNoteIds.mp drafted)

theorem newId_other (made : DirectoryPlan host workspace_id core named new_name directory plan)
    (outside : ∀ tail, id ≠ directory ++ slash :: tail) : plan.newId id = id := by
  unfold Reidentify.newId
  cases found : plan.remap.lookup id with
  | none => rfl
  | some target =>
    rcases made.lookup_iff.mp found with ⟨-, tail, isId, -⟩
    exact absurd isId (outside tail)

/-- The index knows of every Note that a Directory holds. -/
theorem lookup_of_file {tail : Text} (mirrors : Mirrors host workspace_id core.bundle core.db)
    (made : DirectoryPlan host workspace_id core named new_name directory plan)
    (found : contentsOf core.bundle (directory ++ slash :: tail) ≠ none) :
    plan.remap.lookup (directory ++ slash :: tail) =
      some (joinId (containingDir directory) new_name ++ slash :: tail) := by
  apply made.lookup_iff.mpr
  refine ⟨mem_contents.mpr ⟨Or.inl ?_, ?_⟩, tail, rfl, rfl⟩
  · exact mem_noteIds_iff.mpr (mirrors.noteExists_iff.mpr (Option.isSome_iff_ne_none.mpr found))
  · exact ⟨tail, by rw [List.append_assoc, List.singleton_append]⟩

theorem newId_of_lookup {target_id : ConceptId} (found : plan.remap.lookup id = some target_id) :
    plan.newId id = target_id := by
  unfold Reidentify.newId
  rw [found, Option.getD_some]

theorem Places.relists (made : DirectoryPlan host workspace_id core named new_name directory plan)
    (places : Places core plan directory (joinId (containingDir directory) new_name) source target)
    (id : ConceptId) (path : Path) (isNamed : Named id) (moved : plan.newId id ≠ id)
    (isNew : notePath host core.bundle (plan.newId id) = .ok path) : listedId path = some (plan.newId id) := by
  rcases isNamed with ⟨old_path, listed⟩
  cases found : plan.remap.lookup id with
  | none =>
    have same : plan.newId id = id := by
      unfold Reidentify.newId
      rw [found, Option.getD_none]
    exact absurd same moved
  | some target_id =>
    rw [newId_of_lookup found] at isNew ⊢
    rcases made.lookup_iff.mp found with ⟨-, tail, rfl, rfl⟩
    rw [← places.spelled] at listed
    rcases below_of_listed listed places.below with ⟨rest, more, rfl⟩
    rcases listed_relocated listed places.below places.below' more places.visible' with ⟨tail', same, listed'⟩
    obtain rfl := (List.cons.inj (List.append_cancel_left same)).2
    rw [places.respelled] at listed'
    exact listed_of_notePath ⟨_, listed'⟩ isNew

/-- All Notes of a Directory go with it, and no others. -/
theorem carries_of_directory (tree : Tree core.bundle) (mirrors : Mirrors host workspace_id core.bundle core.db)
    (plans : Plans host workspace_id plan core affected) (spells : Spells affected)
    (made : DirectoryPlan host workspace_id core named new_name directory plan)
    (places : Places core plan directory (joinId (containingDir directory) new_name) source target)
    (vacant : core.bundle.Vacant target) : Carries core.bundle affected source target := by
  have proper {rest : Path} (read : core.bundle.read (source ++ rest) ≠ none) : rest ≠ [] := by
    rintro rfl
    rw [List.append_nil] at read
    exact read (tree.onDisk.single source places.present)
  refine ⟨vacant, ?_, ?_⟩
  · intro a mem onDisk
    rcases (files_of_plans plans a mem).1 onDisk with ⟨text, read⟩
    have present : core.bundle.read a.old_path ≠ none := by
      rw [read]
      exact Option.some_ne_none _
    have listed := spells.old a mem
    have isNew := spells.new a mem
    rcases (plans.affects a mem).2 with ⟨disk, affects⟩
    rw [affects.new_id] at isNew
    by_cases under : source <+: a.old_path
    · rcases under with ⟨rest, isPath⟩
      rw [← isPath] at present listed ⊢
      rcases listed_relocated listed places.below places.below' (proper present) places.visible' with
        ⟨tail, isId, listed'⟩
      have found : contentsOf core.bundle a.old_id ≠ none := by
        rw [contentsOf_of_listed listed]
        exact present
      rw [isId, places.spelled] at found
      rw [isId, places.spelled, newId_of_lookup (lookup_of_file mirrors made found), ← places.respelled] at isNew
      rw [Bundle.relocate_below]
      exact Index.listedId_injective isNew listed'
    · have outside : ∀ tail, a.old_id ≠ directory ++ slash :: tail := by
        intro tail isId
        rw [isId, ← places.spelled] at listed
        rcases below_of_listed listed places.below with ⟨rest, -, isPath⟩
        exact under ⟨rest, isPath.symm⟩
      rw [newId_other made outside] at isNew
      rw [Bundle.relocate_other under]
      exact Index.listedId_injective isNew listed
  · rintro path contents ⟨rest, rfl⟩ read seen
    have present : core.bundle.read (source ++ rest) ≠ none := by
      rw [read]
      exact Option.some_ne_none _
    have more := proper present
    have listed : ∃ id, listedId (source ++ rest) = some id := by
      rcases seen with seen | seen
      · exact Option.isSome_iff_exists.mp seen
      · rw [Bundle.relocate_below] at seen
        rcases Option.isSome_iff_exists.mp seen with ⟨id, listed⟩
        rcases listed_relocated listed places.below' places.below more places.visible with ⟨tail, -, listed'⟩
        exact ⟨_, listed'⟩
    rcases listed with ⟨id, listed⟩
    rcases listed_relocated listed places.below places.below' more places.visible' with ⟨tail, rfl, -⟩
    rw [places.spelled] at listed
    have found : contentsOf core.bundle (directory ++ slash :: tail) ≠ none := by
      rw [contentsOf_of_listed listed]
      exact present
    have renamed := lookup_of_file mirrors made found
    have isTarget : directory ++ slash :: tail ∈ plan.targets := by
      unfold Reidentify.targets
      exact List.mem_append_left _ (List.mem_map.mpr ⟨_, mem_of_lookup renamed, rfl⟩)
    rcases Index.mem_files_of_read read with ⟨file, inside, isPath, -⟩
    have isNote : notePath host core.bundle (directory ++ slash :: tail) = .ok (source ++ rest) := by
      rw [← isPath]
      exact @notePath_of_listed host _ _ _ tree.rooted tree.carried inside (isPath ▸ listed)
    rcases plans.unchanged (mem_candidates.mpr (Or.inl isTarget)) isNote read with ⟨a, mem, same⟩ | ⟨kept, -⟩
    · exact ⟨a, mem, Index.listedId_injective (same ▸ spells.old a mem) listed⟩
    · rw [newId_of_lookup renamed] at kept
      have plain := (validateSegment_iff.mp made.valid).whole
      refine absurd ⟨tail, ?_⟩ (@sibling_apart directory new_name tail made.whole.2 plain made.moves)
      rw [kept, List.append_assoc, List.singleton_append]

end Directories

/-! ## The operations -/

/-- What a plan puts on disk lands where its rows go. -/
theorem mirrors_of_applied {effects : LifecycleEffects} {after : Core} (wellNested : WellNested host)
    (tree : Tree core.bundle) (consistent : core.db.Consistent)
    (mirrors : Mirrors host workspace_id core.bundle core.db)
    (applied : applyReidentify host workspace_id core plan now .none = .ok (effects, after))
    (lands : ∀ affected, Plans host workspace_id plan core affected →
      Spells affected ∧ Lands core.bundle (writeFiles core.bundle plan affected now) affected) :
    after.db.Consistent ∧ Mirrors host workspace_id after.bundle after.db := by
  rcases bind_eq_ok.mp applied with ⟨affected, isPlanned, applied⟩
  rcases bind_eq_ok.mp applied with ⟨⟨⟩, -, applied⟩
  rcases bind_eq_ok.mp applied with ⟨indexed, isIndexed, applied⟩
  rcases bind_eq_ok.mp applied with ⟨⟨⟩, -, applied⟩
  have plans := planAffected_spec isPlanned
  rcases lands affected plans with ⟨spells, lands⟩
  cases isDb : rewriteIndex host workspace_id core.db plan affected indexed now with
  | none =>
    rw [isDb] at applied
    cases applied
  | some db =>
    rw [isDb] at applied
    obtain ⟨-, rfl⟩ := Prod.mk.inj (Except.ok.inj applied)
    rcases @carrySessions_frame host _ affected with ⟨sameBundle, sameDb⟩
    rw [sameBundle, sameDb]
    exact mirrors_of_lands wellNested plans tree consistent mirrors spells lands isIndexed isDb

theorem MovesOne.lands {note_id : ConceptId} (moves : MovesOne host core plan note_id) (tree : Tree core.bundle)
    (ready : Ready host core plan) (plans : Plans host workspace_id plan core affected) (spells : Spells affected) :
    Lands core.bundle (writeFiles core.bundle plan affected now) affected := by
  have files := files_of_plans plans
  rw [writeFiles_eq, moves.plain]
  dsimp only
  rcases ready.moves plans with ⟨all, isMoves, clear⟩
  cases isMoves with
  | directory rename isRename =>
    have plain := moves.plain
    rw [isRename] at plain
    cases plain
  | still _ still =>
    rw [moveFiles_still still]
    apply lands_of_still spells files
    intro a mem
    by_contra moved
    have inside : (a.old_path, a.new_path) ∈ movesOf affected :=
      List.mem_map.mpr ⟨a, List.mem_filter.mpr ⟨mem, decide_eq_true moved⟩, rfl⟩
    rw [still] at inside
    cases inside
  | note source target _ one =>
    rcases moveFiles_one one (putTexts now core.bundle affected) with ⟨moved, isOne⟩
    rw [isOne]
    have mover : (source, target) ∈ movesOf affected := one ▸ List.mem_cons_self
    rcases List.mem_map.mp mover with ⟨a, mem, same⟩
    obtain ⟨rfl, rfl⟩ := Prod.mk.inj same
    rcases clear _ List.mem_cons_self with same | ⟨below, free⟩
    · exact absurd same moved
    · have vacant := Bundle.vacant_of_free free
      have carries := carries_of_note tree plans spells moves (List.mem_filter.mp mem).1 moved vacant
      exact lands_of_carries spells files carries (vacant_staged spells files vacant below) fun _ => rfl

theorem Places.lands {named new_name directory : Text} (tree : Tree core.bundle)
    (mirrors : Mirrors host workspace_id core.bundle core.db) (ready : Ready host core plan)
    (plans : Plans host workspace_id plan core affected) (spells : Spells affected)
    (made : DirectoryPlan host workspace_id core named new_name directory plan)
    (places : Places core plan directory (joinId (containingDir directory) new_name) source target) :
    Lands core.bundle (writeFiles core.bundle plan affected now) affected := by
  have files := files_of_plans plans
  rw [writeFiles_eq, places.renames]
  dsimp only
  rcases ready.directory _ places.renames with ⟨moved, same | ⟨below, free⟩⟩
  · exact absurd same moved
  · have vacant := Bundle.vacant_of_free free
    have carries := carries_of_directory tree mirrors plans spells made places vacant
    exact lands_of_carries spells files carries (vacant_staged spells files vacant below) fun _ => rfl

/-- A plan that renames a Directory is one for that Directory. -/
theorem directoryPlan_of_plan {op : Operation} {rename : DirectoryRename}
    (planned : op.plan host workspace_id core = some (core', plan))
    (renames : plan.directory_rename = some rename) :
    ∃ named new_name directory, DirectoryPlan host workspace_id core' named new_name directory plan := by
  cases planned_of_plan planned with
  | rename note_id new_title new_id isPlan =>
    rcases planRename_spec isPlan with ⟨-, -, -, -, -, -, -, -, shape⟩
    rw [shape] at renames
    cases renames
  | move note_id new_directory_path new_id old_path directory bundle located isPlan =>
    rcases planMove_spec isPlan with ⟨-, -, -, -, shape⟩
    rw [shape] at renames
    cases renames
  | directory path new_name directory isPlan made => exact ⟨path, new_name, directory, made⟩

theorem entry_eq_file_iff {contents : FileBytes} (below : path ≠ []) :
    bundle.entry path = some (.file contents) ↔ bundle.read path = some contents := by
  unfold Bundle.entry
  rw [if_neg below]
  cases bundle.read path with
  | some found => exact ⟨fun same => by cases same; exact rfl, fun same => by cases same; exact rfl⟩
  | none =>
    dsimp only
    split_ifs <;> exact ⟨fun same => (by cases same), fun same => (by cases same)⟩

theorem read_of_entry {bundle' : Bundle} (below : path ≠ []) (same : bundle'.entry path = bundle.entry path) :
    bundle'.read path = bundle.read path := by
  apply Option.ext
  intro contents
  rw [← entry_eq_file_iff below, same, entry_eq_file_iff below]

/-- A bundle with nothing but directories besides has the same files. -/
theorem read_of_keeps {bundle' : Bundle} (keeps : Keeps bundle.entry bundle'.entry) (below : path ≠ []) :
    bundle'.read path = bundle.read path := by
  rcases keeps path with same | ⟨isNone, x, isSome, isDirectory⟩
  · exact read_of_entry below same
  · apply Option.ext
    intro contents
    rw [← entry_eq_file_iff below, ← entry_eq_file_iff below, isNone, isSome, isDirectory]
    exact ⟨fun same => (by cases same), fun same => (by cases same)⟩

/-- However its calls end, a rename or a move of a Note and a rename of a Directory whose rollback goes
through leave an index that mirrors the disk. -/
theorem reidentification_mirrors {op : Operation} (wellNested : WellNested host) (tree : Tree core'.bundle)
    (consistent : core'.db.Consistent) (mirrors : Mirrors host workspace_id core'.bundle core'.db)
    (known : Known workspace_id core') (planned : op.plan host workspace_id core = some (core', plan))
    (targets : plan.directory_rename = none → ∀ id ∈ plan.targets, Named id) (now : Int)
    (faults : JournalFaults) (free : faults.settle_refusals = []) :
    (applyReidentifyLocked host workspace_id core' plan now faults).1.db.Consistent ∧
      Mirrors host workspace_id (applyReidentifyLocked host workspace_id core' plan now faults).1.bundle
        (applyReidentifyLocked host workspace_id core' plan now faults).1.db := by
  have ready := ready_of_plan (grounded_of_rooted tree.onDisk.rooted) planned
  have settles : Settles host workspace_id core' plan now faults := ready.settles tree.onDisk.rooted faults
  unfold Settles at settles
  cases applied : applyReidentifyLocked host workspace_id core' plan now faults with
  | mk after answer =>
    rw [applied] at settles
    cases answer with
    | ok effects =>
      apply mirrors_of_applied wellNested tree consistent mirrors settles
      intro affected plans
      cases isRename : plan.directory_rename with
      | none =>
        rcases movesOne_of_plan planned isRename (targets isRename) with ⟨note_id, moves⟩
        have candidates : ∀ id ∈ plan.candidates workspace_id core', Named id :=
          fun id => named_of_candidate mirrors known (targets isRename)
        have spells := spells_of_plans plans candidates fun id path _ => moves.relists id path
        exact ⟨spells, moves.lands tree ready plans spells⟩
      | some rename =>
        rcases directoryPlan_of_plan planned isRename with ⟨named, new_name, directory, made⟩
        rcases places_of_plan made with ⟨source, target, places⟩
        have candidates : ∀ id ∈ plan.candidates workspace_id core', Named id :=
          fun id => named_of_candidate mirrors known (named_of_directory mirrors known made)
        have spells := spells_of_plans plans candidates (Places.relists made places)
        exact ⟨spells, places.lands tree mirrors ready plans spells made⟩
    | error error =>
      rcases settles with ⟨sameDb, -, cause, -, -, complete⟩
      dsimp only
      rw [sameDb]
      refine ⟨consistent, mirrors.congr ?_ fun _ => rfl⟩
      intro id
      apply Index.contentsOf_congr
      intro path listed
      apply read_of_keeps (complete free).2
      rintro rfl
      cases listed

theorem wellNested_emptyLabelHost : WellNested emptyLabelHost := by
  intro source
  by_cases linked : source = emptyLabel
  · subst linked
    exact ⟨emptyLabelStream, emptyLabel_parsed⟩
  · have isPlain : emptyLabelHost.events source = Host.plain.events source := by
      dsimp only [emptyLabelHost]
      exact if_neg linked
    rw [isPlain]
    by_cases empty : source = []
    · subst empty
      exact ⟨⟨.nil, rfl, by decide⟩, rfl⟩
    · have positive : 0 < byteLen source := Nat.pos_of_ne_zero fun zero => empty (byteLen_eq_zero.mp zero)
      have whole : (slice? source ⟨0, byteLen source⟩).isSome := by
        refine slice?_isSome_iff.mpr ⟨Nat.zero_le _, isBoundary_iff.mpr ⟨[], source, rfl, rfl⟩, ?_⟩
        exact isBoundary_iff.mpr ⟨source, [], (List.append_nil source).symm, rfl⟩
      refine ⟨⟨.node .paragraph ⟨0, byteLen source⟩ (.leaf (.text source) ⟨0, byteLen source⟩ .nil) .nil,
        ?_, ?_⟩, ?_⟩
      · simp [Forest.conforms, Tag.inner, Leaf.allowed, positive]
      · simp [Forest.placed, positive, whole]
      · dsimp only [Host.plain]
        rw [if_neg empty]
        rfl

theorem tree_emptyLabelBundle : Tree emptyLabelBundle := by
  refine ⟨rooted_emptyLabelBundle, ⟨?_, fun directory mem => absurd mem List.not_mem_nil⟩, carried_emptyLabelBundle⟩
  apply Bundle.rooted_flat _ rfl rfl
  intro file mem
  rcases flat_emptyLabelBundle mem with ⟨name, isPath, -⟩
  exact ⟨name, isPath⟩

theorem consistent_emptyLabelIndex : emptyLabelIndex.Consistent :=
  (Database.consistent_empty _).writeScannedBundle emptyLabelIndex_written

theorem named_linked : Named ['m'] := ⟨[⟨['m', '.', 'm', 'd'], nameable_linked⟩], by decide⟩

/-- The rename that leaves a link behind keeps the index of the Note it is in. -/
theorem reidentification_mirrors_overlooked : ∃ core plan,
    (Operation.renameNote ['m'] ['k']).plan emptyLabelHost ['w'] emptyLabelCore = some (core, plan) ∧
    Mirrors emptyLabelHost ['w'] (applyReidentifyLocked emptyLabelHost ['w'] core plan 1 ⟨[], [], none⟩).1.bundle
      (applyReidentifyLocked emptyLabelHost ['w'] core plan 1 ⟨[], [], none⟩).1.db := by
  rcases emptyLabel_planned with ⟨plan, -, planned, -, -, targets, plain⟩
  have known : Known ['w'] emptyLabelCore := by
    refine ⟨fun id isSome => ?_, fun id isSome => by cases isSome⟩
    have noDrafts : emptyLabelIndex.drafts = ∅ := (Database.writeScannedBundle_frame emptyLabelIndex_written).2
    unfold emptyLabelCore Database.readDraft at isSome
    dsimp only at isSome
    rw [noDrafts] at isSome
    cases isSome
  have named : ∀ id ∈ plan.targets, Named id := by
    rw [targets]
    intro id mem
    obtain rfl : id = ['m'] := by simpa using mem
    exact named_linked
  refine ⟨_, plan, planned, ?_⟩
  exact (reidentification_mirrors wellNested_emptyLabelHost tree_emptyLabelBundle
    consistent_emptyLabelIndex mirrors_emptyLabelIndex known planned (fun _ => named) 1 ⟨[], [], none⟩
    rfl).2

end Burlmd.Lifecycle
