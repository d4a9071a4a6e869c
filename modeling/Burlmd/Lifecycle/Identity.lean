import Burlmd.Lifecycle.Names

/-!
# Identities and the walk

The walk lists a file under the id of its Note, and this id leads back to the file. A
directory and a title that a Note can be created with make an id that every reader of
identities spells alike.
-/

namespace Burlmd.Lifecycle

open Workspace
open Segments
open Utf8 (Text)
open Okf
open Index (listedId walkBundle hidden reservedFilenames Database)

variable {host : Host} {title directory : Text}

/-- A bundle is a tree: every entry is in a directory, and nothing is two kinds of entry. -/
structure Rooted (bundle : Bundle) : Prop where
  files : ∀ file ∈ bundle.files, file.path ≠ [] ∧
    ∀ level : Path, level <+: file.path → level ≠ [] → level ≠ file.path → level ∈ bundle.directories
  directories : ∀ path ∈ bundle.directories, ∀ level : Path, level <+: path → level ≠ [] →
    level ∈ bundle.directories
  links : ∀ link ∈ bundle.symlinks, link ∉ bundle.directories ∧ bundle.isFile link = false

/-! ## The walk -/

theorem pathToConceptId_conceptIdToPath {id : ConceptId} (leading : id.head? ≠ some slash) :
    pathToConceptId (conceptIdToPath id) = id := by
  have unstripped : (id ++ mdSuffix).dropPrefix? [slash] = none := by
    cases stripped : (id ++ mdSuffix).dropPrefix? [slash] with
    | none => rfl
    | some _ =>
      obtain ⟨prefix_, shape, same⟩ := List.dropPrefix?_eq_some_iff.mp stripped
      obtain rfl := eq_of_beq same
      cases id with
      | nil => simp [mdSuffix, slash] at shape
      | cons c rest => exact absurd (congrArg some (List.cons.inj shape).1) leading
  unfold pathToConceptId conceptIdToPath
  rw [unstripped, Option.getD_none]
  dsimp only
  rw [dropSuffix?_append_mdSuffix, Option.getD_some]

theorem mem_directories_walkBundle {bundle : Bundle} {directory : Text} :
    directory ∈ (walkBundle bundle).directories ↔
      ∃ path ∈ bundle.directories, path ≠ [] ∧ (∀ level ∈ path, hidden level.text = false) ∧
        joinPath path = directory := by
  unfold walkBundle
  rw [List.mem_insertionSort, List.mem_map]
  simp only [List.mem_filter, decide_eq_true_eq, List.all_eq_true, Bool.not_eq_true']
  constructor
  · rintro ⟨path, ⟨mem, nonempty, visible⟩, rfl⟩
    exact ⟨path, mem, nonempty, visible, rfl⟩
  · rintro ⟨path, mem, nonempty, visible, rfl⟩
    exact ⟨path, ⟨mem, nonempty, visible⟩, rfl⟩

theorem listedId_eq_some_iff {path : Path} {id : ConceptId} : listedId path = some id ↔
    ∃ (levels : Path) (name : Name), path = levels ++ [name] ∧
      (∀ level ∈ path, hidden level.text = false) ∧ mdSuffix <:+ name.text ∧
      name.text ∉ reservedFilenames ∧ conceptIdToPath id = joinPath path := by
  unfold listedId
  constructor
  · intro listed
    obtain ⟨name, last, found⟩ := Option.bind_eq_some_iff.mp listed
    obtain ⟨levels, rfl⟩ := List.getLast?_eq_some_iff.mp last
    split at found
    · rename_i isNote
      obtain rfl := Option.some.inj found
      simp only [Bool.and_eq_true, List.all_eq_true, Bool.not_eq_true', List.isSuffixOf_iff_suffix,
        decide_eq_true_eq] at isNote
      exact ⟨levels, name, rfl, isNote.1.1, isNote.1.2, isNote.2,
        conceptIdToPath_pathToConceptId last isNote.1.2⟩
    · cases found
  · rintro ⟨levels, name, rfl, visible, isNote, unreserved, spelled⟩
    have last : (levels ++ [name]).getLast? = some name := List.getLast?_concat
    have sameId : pathToConceptId (joinPath (levels ++ [name])) = id := by
      have both := (conceptIdToPath_pathToConceptId last isNote).trans spelled.symm
      exact List.append_cancel_right both
    rw [last, Option.bind_some, if_pos, sameId]
    simp only [Bool.and_eq_true, List.all_eq_true, Bool.not_eq_true', List.isSuffixOf_iff_suffix,
      decide_eq_true_eq]
    exact ⟨⟨visible, isNote⟩, unreserved⟩

theorem hidden_eq_false_iff {text : Text} : hidden text = false ↔ text.head? ≠ some '.' := by
  unfold Index.hidden
  exact decide_eq_false_iff_not

/-- The levels of the file of a Note, and its name. -/
theorem path_of_joinId {path : Path} (valid : ValidTitle title)
    (spelled : joinPath path = conceptIdToPath (joinId directory title)) :
    ∃ (levels : Path) (name : Name), path = levels ++ [name] ∧ name.text = title ++ mdSuffix ∧
      levels.map Name.text = if directory = [] then [] else directory.splitOn slash := by
  have nonempty : path ≠ [] := by
    rintro rfl
    have isEmpty : joinId directory title ++ mdSuffix = [] := spelled.symm
    simp [mdSuffix] at isEmpty
  have split : path.map Name.text =
      (if directory = [] then [] else directory.splitOn slash) ++ [title ++ mdSuffix] := by
    have noSlash : slash ∉ mdSuffix := by decide
    rw [← splitOn_joinPath nonempty, spelled]
    unfold conceptIdToPath
    rw [splitOn_append noSlash, lastSegment_joinId valid.whole, splitOn_joinId valid.whole,
      List.dropLast_concat]
  obtain ⟨levels, last, rfl, isLevels, isLast⟩ := List.map_eq_append_iff.mp split
  obtain ⟨name, rfl, isName⟩ := List.map_eq_singleton_iff.mp isLast
  exact ⟨levels, name, rfl, isName, isLevels⟩

theorem listedId_of_joinId {path : Path} (validDirectory : ValidDirectory directory)
    (valid : ValidTitle title) (spelled : joinPath path = conceptIdToPath (joinId directory title)) :
    listedId path = some (joinId directory title) := by
  obtain ⟨levels, name, rfl, isName, isLevels⟩ := path_of_joinId valid spelled
  refine listedId_eq_some_iff.mpr ⟨levels, name, rfl, ?_, ?_, ?_, spelled.symm⟩
  · intro level mem
    rw [hidden_eq_false_iff]
    rcases List.mem_append.mp mem with mem | mem
    · have inside : level.text ∈ levels.map Name.text := List.mem_map_of_mem mem
      rw [isLevels] at inside
      split at inside
      · cases inside
      · rename_i nonempty
        exact ((validDirectory.resolve_left nonempty).2 _ inside).2
    · obtain rfl := List.mem_singleton.mp mem
      rw [isName, List.head?_append_of_ne_nil _ valid.ne_nil]
      exact valid.visible
  · rw [isName]
    exact List.suffix_append _ _
  · have unreserved := valid.unreserved
    rw [isName]
    intro isReserved
    simp only [reservedFilenames, List.mem_cons, List.not_mem_nil, or_false] at isReserved
    rcases isReserved with same | same
    · obtain rfl : title = "index".toList := @List.append_cancel_right _ _ mdSuffix _ same
      cases unreserved
    · obtain rfl : title = "log".toList := @List.append_cancel_right _ _ mdSuffix _ same
      cases unreserved

/-- The walk lists every directory above a file that it lists. -/
theorem mem_directories_of_joinId {bundle : Bundle} {file : BundleFile} (rooted : Rooted bundle)
    (mem : file ∈ bundle.files) (validDirectory : ValidDirectory directory) (valid : ValidTitle title)
    (spelled : joinPath file.path = conceptIdToPath (joinId directory title)) :
    ∀ ancestor ∈ Database.directoryAncestors directory,
      ancestor ∈ (walkBundle bundle).directories := by
  intro ancestor isAncestor
  obtain ⟨levels, name, isPath, isName, isLevels⟩ := path_of_joinId valid spelled
  have visible : ∀ level ∈ levels, hidden level.text = false := by
    obtain ⟨levels', name', same, visible, -⟩ :=
      listedId_eq_some_iff.mp (listedId_of_joinId validDirectory valid spelled)
    intro level inside
    apply visible
    rw [isPath]
    exact List.mem_append_left _ inside
  have isSegments : (directory.splitOn slash).filter (· ≠ []) = levels.map Name.text := by
    rw [isLevels]
    rcases validDirectory with rfl | ⟨-, segments⟩
    · rfl
    · have inside : directory ≠ [] := by
        rintro rfl
        exact (segments [] (by simp)).1 rfl
      rw [if_neg inside]
      apply List.filter_eq_self.mpr
      intro segment isSegment
      exact decide_eq_true (segments segment isSegment).1
  unfold Database.directoryAncestors at isAncestor
  dsimp only at isAncestor
  rw [isSegments] at isAncestor
  obtain ⟨front, isFront, rfl⟩ := List.mem_map.mp isAncestor
  obtain ⟨⟨back, isWhole⟩, nonempty⟩ := mem_tail_inits.mp isFront
  obtain ⟨above, below, rfl, rfl, -⟩ := List.map_eq_append_iff.mp isWhole.symm
  have above_ne : above ≠ [] := by
    rintro rfl
    exact nonempty rfl
  rw [mem_directories_walkBundle]
  refine ⟨above, ?_, above_ne, fun level inside => visible level (List.mem_append_left _ inside), rfl⟩
  refine (rooted.files file mem).2 above ⟨below ++ [name], ?_⟩ above_ne ?_
  · rw [isPath, List.append_assoc]
  · rw [isPath]
    intro same
    have sameLength := congrArg List.length same
    simp at sameLength

/-! ## The spellings of an identity -/

/-- Every reader spells the identity of a Note as its creation does. -/
structure Lossless (host : Host) (directory title : Text) : Prop where
  classified : ∀ containing_dir,
    classify (slash :: joinId directory title ++ mdSuffix) containing_dir =
      .internal (joinId directory title)
  path : pathToConceptId (conceptIdToPath (joinId directory title)) = joinId directory title
  identified : ∃ identity, linkTargetIdentity host (joinId directory title) = .ok identity ∧
    identity.directory_path = directory ∧ identity.title = title
  /-- The walk lists this id for the file, once, and the directories above it. -/
  walked : ∀ bundle, Rooted bundle → ∀ file ∈ bundle.files,
    joinPath file.path = conceptIdToPath (joinId directory title) →
      listedId file.path = some (joinId directory title) ∧
        (walkBundle bundle).notes.count (joinId directory title) = 1 ∧
        ∀ ancestor ∈ Database.directoryAncestors directory,
          ancestor ∈ (walkBundle bundle).directories

theorem lossless (validDirectory : ValidDirectory directory) (valid : ValidTitle title) :
    Lossless host directory title := by
  have plain := plain_joinId validDirectory valid.toValidSegment
  refine ⟨fun _ => classify_of_plain plain, ?_, ?_, ?_⟩
  · exact pathToConceptId_conceptIdToPath (head?_ne_slash_of_plain plain)
  · exact ⟨_, linkTargetIdentity_iff.mpr ⟨directory, title, validDirectory, valid, rfl, rfl⟩, rfl, rfl⟩
  · intro bundle rooted file mem spelled
    have listed := listedId_of_joinId validDirectory valid spelled
    refine ⟨listed, ?_, mem_directories_of_joinId rooted mem validDirectory valid spelled⟩
    apply List.count_eq_one_of_mem (Index.nodup_walkBundle bundle)
    exact Index.mem_walkBundle.mpr ⟨file, mem, listed⟩

/-- A Note can be created under every directory and title that its Links are made of, and
under no other id can a Link be followed. -/
theorem identity_is_lossless (host : Host) :
    (∀ path title directory, normalizeDirectory host path = .ok directory →
      validateTitle host title = .ok () → Lossless host directory title) ∧
    ∀ target_id identity, linkTargetIdentity host target_id = .ok identity →
      identity.target_id = target_id ∧
        normalizeDirectory host identity.directory_path = .ok identity.directory_path ∧
        validateTitle host identity.title = .ok () ∧
        target_id = joinId identity.directory_path identity.title := by
  constructor
  · intro path title directory normalized valid
    exact lossless (normalizeDirectory_iff.mp normalized).2.2 (validateTitle_iff.mp valid)
  · intro target_id identity identified
    obtain ⟨directory, title, validDirectory, valid, joined, rfl⟩ :=
      linkTargetIdentity_iff.mp identified
    exact ⟨rfl, normalizeDirectory_eq_self_iff.mpr validDirectory, validateTitle_iff.mpr valid, joined⟩

theorem identity_of_b_is_lossless :
    Lossless Host.plain "a".toList "b".toList ∧
      normalizeDirectory Host.plain "a".toList = .ok "a".toList := by
  constructor
  · exact (identity_is_lossless Host.plain).1 "/a/".toList _ _ (by decide) (by decide)
  · exact ((identity_is_lossless Host.plain).2 "a/b".toList ⟨_, _, _⟩ rfl).2.1

end Burlmd.Lifecycle
