import Burlmd.Library.Checked
import Burlmd.Library.Segments
import Burlmd.Lifecycle.Operations
import Burlmd.Okf.Classify

/-!
# Names and identities

What the validators accept, said once for each: a segment, a title, a directory and a
Link target. The fixed points of the directory normalization are the directories that
lead to a Note under its own spelling.
-/

namespace Burlmd.Lifecycle

open Workspace
open Segments
open Utf8 (Text)
open Okf
open Index (fileStem)
open Markdown (trim)
open Checked

variable {host : Host} {segment title path directory : Text}

/-- No path carries these characters, and no Link. -/
def Carried (text : Text) : Prop := '\\' ∉ text ∧ '\x00' ∉ text ∧ '\n' ∉ text ∧ '\r' ∉ text

instance (text : Text) : Decidable (Carried text) :=
  inferInstanceAs (Decidable (_ ∧ _ ∧ _ ∧ _))

structure ValidSegment (segment : Text) : Prop where
  nonblank : trim segment ≠ []
  visible : segment.head? ≠ some '.'
  whole : slash ∉ segment
  carried : Carried segment

structure ValidTitle (title : Text) : Prop extends ValidSegment title where
  unreserved : isReservedTitle title = false

/-- A directory in the spelling of its rows. -/
def ValidDirectory (directory : Text) : Prop :=
  directory = [] ∨ (Carried directory ∧
    ∀ segment ∈ directory.splitOn slash, segment ≠ [] ∧ segment.head? ≠ some '.')

theorem Carried.append {text : Text} (first : Carried directory) (second : Carried text) :
    Carried (directory ++ text) := by
  unfold Carried at *
  simp only [List.mem_append]
  tauto

theorem Carried.mono {text : Text} (carried : Carried text) (subset : path ⊆ text) : Carried path :=
  ⟨fun mem => carried.1 (subset mem), fun mem => carried.2.1 (subset mem),
    fun mem => carried.2.2.1 (subset mem), fun mem => carried.2.2.2 (subset mem)⟩

/-! ## Segments and titles -/

theorem validateSegment_iff : validateSegment host segment = .ok () ↔ ValidSegment segment := by
  constructor
  · intro valid
    unfold validateSegment at valid
    repeat' split at valid
    all_goals try cases valid
    rename_i blank dotted unnameable terminated
    simp only [not_or] at unnameable terminated
    exact ⟨blank, dotted, unnameable.1,
      ⟨unnameable.2.1, unnameable.2.2, terminated.1, terminated.2⟩⟩
  · rintro ⟨nonblank, visible, whole, backslash, null, newline, carriage⟩
    unfold validateSegment
    rw [if_neg nonblank, if_neg visible, if_neg (by simp [whole, backslash, null]),
      if_neg (by simp [newline, carriage])]

theorem validateTitle_iff : validateTitle host title = .ok () ↔ ValidTitle title := by
  unfold validateTitle
  constructor
  · intro valid
    obtain ⟨⟨⟩, segment, valid⟩ := bind_eq_ok.mp valid
    split at valid
    · cases valid
    · rename_i free
      exact ⟨validateSegment_iff.mp segment, by simpa using free⟩
  · intro valid
    rw [validateSegment_iff.mpr valid.toValidSegment]
    refine (if_neg ?_).trans rfl
    simp [valid.unreserved]

theorem ValidSegment.ne_nil (valid : ValidSegment segment) : segment ≠ [] := by
  rintro rfl
  exact valid.nonblank rfl

/-! ## Directories -/

theorem trimSlashes_subset : trimSlashes path ⊆ path := by
  intro c mem
  unfold trimSlashes at mem
  have first := (List.dropWhile_suffix _).subset (List.mem_reverse.mp mem)
  exact (List.dropWhile_suffix _).subset (List.mem_reverse.mp first)

theorem trimSlashes_eq_self (leading : path.head? ≠ some slash)
    (trailing : path.getLast? ≠ some slash) : trimSlashes path = path := by
  have kept : ∀ text : Text, text.head? ≠ some slash → text.dropWhile (· = slash) = text := by
    intro text leads
    cases text with
    | nil => rfl
    | cons c rest =>
      have other : c ≠ slash := fun same => leads (congrArg some same)
      exact List.dropWhile_cons_of_neg (by simpa using other)
  unfold trimSlashes
  rw [kept path leading, kept path.reverse (by rwa [List.head?_reverse]), List.reverse_reverse]

theorem nameable_of_visible (nonempty : segment ≠ []) (visible : segment.head? ≠ some '.')
    (whole : slash ∉ segment) (null : '\x00' ∉ segment) : Nameable segment := by
  refine ⟨nonempty, ?_, ?_, whole, null⟩
  · rintro rfl
    exact visible rfl
  · rintro rfl
    exact visible rfl

theorem plainSegment_of_visible (nonempty : segment ≠ []) (visible : segment.head? ≠ some '.') :
    PlainSegment segment := by
  refine ⟨nonempty, ?_, ?_⟩
  · rintro rfl
    exact visible rfl
  · rintro rfl
    exact visible rfl

theorem exists_path {segments : List Text} (nameable : ∀ segment ∈ segments, Nameable segment) :
    ∃ levels : Path, levels.map Name.text = segments := by
  induction segments with
  | nil => exact ⟨[], rfl⟩
  | cons segment rest ih =>
    obtain ⟨levels, isRest⟩ := ih fun other mem => nameable other (List.mem_cons_of_mem _ mem)
    refine ⟨⟨segment, nameable segment List.mem_cons_self⟩ :: levels, ?_⟩
    rw [List.map_cons, isRest]

/-- The segments of a directory name the levels of its path. -/
theorem exists_path_of_visible (carried : Carried directory)
    (visible : ∀ segment ∈ directory.splitOn slash, segment ≠ [] ∧ segment.head? ≠ some '.') :
    ∃ levels : Path, levels.map Name.text = directory.splitOn slash ∧
      normalComponents directory = some levels := by
  obtain ⟨levels, isSplit⟩ := exists_path fun segment mem =>
    nameable_of_visible (visible segment mem).1 (visible segment mem).2 (not_mem_of_mem_splitOn mem)
      fun inside => carried.2.1 (subset_of_mem_splitOn mem inside)
  have nonempty : levels ≠ [] := by
    rintro rfl
    exact List.splitOn_ne_nil slash directory isSplit.symm
  have joined : joinPath levels = directory := by
    unfold joinPath
    rw [isSplit, List.intercalate_splitOn]
  refine ⟨levels, isSplit, ?_⟩
  rw [← joined]
  exact normalComponents_joinPath nonempty

theorem trimSlashes_of_visible
    (visible : ∀ segment ∈ directory.splitOn slash, segment ≠ [] ∧ segment.head? ≠ some '.') :
    trimSlashes directory = directory := by
  have plain : ∀ segment ∈ directory.splitOn slash, PlainSegment segment := fun segment mem =>
    plainSegment_of_visible (visible segment mem).1 (visible segment mem).2
  exact trimSlashes_eq_self (head?_ne_slash_of_plain plain) (getLast?_ne_slash_of_plain plain)

/-- The normalization takes the outer slashes off, and repairs nothing else. -/
theorem normalizeDirectory_iff : normalizeDirectory host path = .ok directory ↔
    directory = trimSlashes path ∧ Carried path ∧ ValidDirectory directory := by
  constructor
  · intro normalized
    unfold normalizeDirectory at normalized
    dsimp only at normalized
    repeat' split at normalized
    all_goals try cases normalized
    · rename_i backslash null terminated trimmed
      simp only [not_or] at terminated
      exact ⟨trimmed.symm, ⟨backslash, null, terminated⟩, .inl rfl⟩
    · rename_i backslash null terminated _ empty _ dotted
      simp only [not_or] at terminated
      have carried : Carried path := ⟨backslash, null, terminated⟩
      refine ⟨rfl, carried, .inr ⟨carried.mono trimSlashes_subset, fun segment mem => ⟨?_, ?_⟩⟩⟩
      · rintro rfl
        exact empty mem
      · intro isDot
        exact dotted (List.any_eq_true.mpr ⟨segment, mem, decide_eq_true isDot⟩)
  · rintro ⟨rfl, ⟨backslash, null, newline, carriage⟩, valid⟩
    unfold normalizeDirectory
    dsimp only
    rw [if_neg backslash, if_neg null, if_neg (by simp [newline, carriage])]
    rcases valid with root | ⟨carried, visible⟩
    · rw [if_pos root, root]
    · obtain ⟨levels, -, resolved⟩ := exists_path_of_visible carried visible
      have nonempty : trimSlashes path ≠ [] := by
        intro isEmpty
        rw [isEmpty] at visible
        exact (visible [] (by simp)).1 rfl
      rw [if_neg nonempty, if_neg fun mem => (visible [] mem).1 rfl, resolved,
        if_neg (by simp), if_neg]
      intro dotted
      obtain ⟨segment, mem, isDot⟩ := List.any_eq_true.mp dotted
      exact (visible segment mem).2 (of_decide_eq_true isDot)

theorem ValidDirectory.carried (valid : ValidDirectory directory) : Carried directory := by
  rcases valid with rfl | ⟨carried, -⟩
  · decide
  · exact carried

/-- A valid directory is its own normal form. -/
theorem normalizeDirectory_eq_self_iff :
    normalizeDirectory host directory = .ok directory ↔ ValidDirectory directory := by
  rw [normalizeDirectory_iff]
  constructor
  · exact fun normalized => normalized.2.2
  · intro valid
    refine ⟨?_, valid.carried, valid⟩
    rcases valid with rfl | ⟨-, visible⟩
    · rfl
    · exact (trimSlashes_of_visible visible).symm

/-! ## Identities -/

theorem ValidDirectory.plainDirectory (valid : ValidDirectory directory) :
    PlainDirectory directory := by
  rcases valid with rfl | ⟨-, visible⟩
  · exact .inl rfl
  · exact .inr fun segment mem =>
      plainSegment_of_visible (visible segment mem).1 (visible segment mem).2

theorem splitOn_joinId (whole : slash ∉ title) : (joinId directory title).splitOn slash =
    (if directory = [] then [] else directory.splitOn slash) ++ [title] := by
  unfold joinId
  split
  · exact List.splitOn_eq_singleton whole
  · rw [List.splitOn_append_cons_self, List.splitOn_eq_singleton whole]

theorem lastSegment_joinId (whole : slash ∉ title) : lastSegment slash (joinId directory title) = title :=
  lastSegment_of_splitOn (splitOn_joinId whole)

theorem containingDir_joinId (whole : slash ∉ title) : containingDir (joinId directory title) = directory := by
  unfold containingDir
  rw [splitOn_joinId whole, List.dropLast_concat]
  split
  · rename_i root
    rw [root]
    rfl
  · rw [List.intercalate_splitOn]

theorem plain_joinId (validDirectory : ValidDirectory directory) (valid : ValidSegment title) :
    ∀ segment ∈ (joinId directory title).splitOn slash, PlainSegment segment := by
  intro segment mem
  rw [splitOn_joinId valid.whole, List.mem_append, List.mem_singleton] at mem
  rcases mem with mem | rfl
  · split at mem
    · cases mem
    · rename_i inside
      exact validDirectory.plainDirectory.resolve_left inside segment mem
  · exact plainSegment_of_visible valid.ne_nil valid.visible

/-- A Link target is identified exactly where it is a directory and a title, joined. -/
theorem linkTargetIdentity_iff {target_id : ConceptId} {identity : LinkTargetIdentity} :
    linkTargetIdentity host target_id = .ok identity ↔
      ∃ directory title, ValidDirectory directory ∧ ValidTitle title ∧
        target_id = joinId directory title ∧ identity = ⟨target_id, directory, title⟩ := by
  unfold linkTargetIdentity
  dsimp only
  constructor
  · intro identified
    split at identified
    · obtain ⟨directory, normalized, identified⟩ := bind_eq_ok.mp identified
      obtain ⟨⟨⟩, valid, identified⟩ := bind_eq_ok.mp identified
      split at identified
      · rename_i joined
        cases identified
        exact ⟨directory, fileStem target_id, (normalizeDirectory_iff.mp normalized).2.2,
          validateTitle_iff.mp valid, joined.symm, rfl⟩
      · cases identified
    · obtain ⟨⟨⟩, valid, identified⟩ := bind_eq_ok.mp identified
      cases identified
      exact ⟨[], target_id, .inl rfl, validateTitle_iff.mp valid, rfl, rfl⟩
  · rintro ⟨directory, title, validDirectory, valid, rfl, rfl⟩
    have isStem : fileStem (joinId directory title) = title := lastSegment_joinId valid.whole
    by_cases root : directory = []
    · subst root
      have isTitle : joinId [] title = title := rfl
      rw [isTitle, if_neg valid.whole, validateTitle_iff.mpr valid]
      rfl
    · have inside : slash ∈ joinId directory title := by
        unfold joinId
        rw [if_neg root]
        exact List.mem_append_right _ List.mem_cons_self
      rw [if_pos inside, containingDir_joinId valid.whole, isStem,
        normalizeDirectory_eq_self_iff.mpr validDirectory, validateTitle_iff.mpr valid]
      refine bind_eq_ok.mpr ⟨directory, rfl, bind_eq_ok.mpr ⟨(), rfl, ?_⟩⟩
      rw [if_pos rfl]
      rfl

end Burlmd.Lifecycle
