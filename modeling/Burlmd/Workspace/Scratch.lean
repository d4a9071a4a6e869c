import Burlmd.Index.Scan
import Burlmd.Lifecycle.Names

/-!
# Names of scratch files

The names that the journal and the atomic writes give to their files, and the two predicates
that know them again. No Note and no Directory has such a name.
-/

namespace Burlmd.Workspace

open Index
open Lifecycle
open Okf (slash mdSuffix ConceptId)
open Segments
open Utf8 (Text)

def TRASH_PREFIX : Text := ".burlmd-trash.".toList

def tmpSuffix : Text := ".tmp".toList

def SCRATCH_IGNORE_PATTERNS : List Text := [".burlmd-trash.*".toList, ".*.tmp".toList]

def is_ignored_scratch_name (name : Text) : Bool :=
  TRASH_PREFIX.isPrefixOf name || (name.head? = some '.' && tmpSuffix.isSuffixOf name)

/-- The text before and behind the last `c`. -/
def rsplit_once (c : Char) (text : Text) : Option (Text × Text) :=
  match text.reverse.span (· ≠ c) with
  | (_, []) => none
  | (tail, _ :: front) => some (front.reverse, tail.reverse)

def is_decimal (text : Text) : Bool := text ≠ [] && text.all Char.isDigit

def is_burlmd_scratch_name (name : Text) : Bool :=
  if TRASH_PREFIX.isPrefixOf name then true
  else
    match (name.dropPrefix? ['.']).bind (·.dropSuffix? tmpSuffix) with
    | none => false
    | some rest =>
        match rsplit_once '.' rest with
        | none => false
        | some (rest, counter) =>
            match rsplit_once '.' rest with
            | none => false
            | some (stem, pid) => stem ≠ [] && is_decimal pid && is_decimal counter

/-- What names a scratch file for a path: its last component, if there is one. -/
def stemOf (file_name : Option Name) : Text :=
  match file_name with
  | none => "note".toList
  | some name => name.text

/-- The name under which the journal puts a path aside. -/
def trashName (file_name : Option Name) (pid next : Nat) : Text :=
  TRASH_PREFIX ++ stemOf file_name ++ '.' :: shown pid ++ '.' :: shown next

/-- The temporary of an atomic write or create. -/
def tempName (file_name : Option Name) (pid next : Nat) : Text :=
  '.' :: stemOf file_name ++ '.' :: shown pid ++ '.' :: shown next ++ tmpSuffix

/-! ## The generated names are known again -/

theorem is_decimal_shown (n : Nat) : is_decimal (shown n) = true := by
  have isDigits : shown n = Nat.toDigits 10 n := Nat.toList_repr
  have some_ : shown n ≠ [] := by
    rw [isDigits]
    exact Nat.toDigits_ne_nil
  unfold is_decimal
  rw [Bool.and_eq_true, decide_eq_true_eq, List.all_eq_true]
  refine ⟨some_, fun c mem => ?_⟩
  rw [isDigits] at mem
  exact Nat.isDigit_of_mem_toDigits (by decide) (by decide) mem

theorem dot_not_mem_shown (n : Nat) : '.' ∉ shown n := by
  intro mem
  have digits := is_decimal_shown n
  unfold is_decimal at digits
  rw [Bool.and_eq_true, List.all_eq_true] at digits
  exact absurd (digits.2 '.' mem) (by decide)

theorem rsplit_once_append {c : Char} {front tail : Text} (last : c ∉ tail) :
    rsplit_once c (front ++ c :: tail) = some (front, tail) := by
  have isSpan : (front ++ c :: tail).reverse.span (· ≠ c) = (tail.reverse, c :: front.reverse) := by
    rw [List.span_eq_takeWhile_dropWhile, List.reverse_append, List.reverse_cons, List.append_assoc,
      List.singleton_append]
    have kept : ∀ d ∈ tail.reverse, decide (d ≠ c) = true := by
      intro d mem
      rw [decide_eq_true_eq]
      intro same
      rw [same] at mem
      exact last (List.mem_reverse.mp mem)
    rw [List.takeWhile_append_of_pos kept, List.dropWhile_append_of_pos kept]
    simp
  unfold rsplit_once
  rw [isSpan]
  simp

theorem stemOf_ne_nil (file_name : Option Name) : stemOf file_name ≠ [] := by
  cases file_name with
  | none => decide
  | some name => exact name.nameable.1

theorem is_scratch_trashName (file_name : Option Name) (pid next : Nat) :
    is_burlmd_scratch_name (trashName file_name pid next) = true ∧
      is_ignored_scratch_name (trashName file_name pid next) = true := by
  have starts : TRASH_PREFIX.isPrefixOf (trashName file_name pid next) = true := by
    rw [List.isPrefixOf_iff_prefix]
    unfold trashName
    rw [List.append_assoc, List.append_assoc]
    exact List.prefix_append _ _
  unfold is_burlmd_scratch_name is_ignored_scratch_name
  rw [starts]
  exact ⟨if_pos rfl, Bool.true_or _⟩

theorem is_scratch_tempName (file_name : Option Name) (pid next : Nat) :
    is_burlmd_scratch_name (tempName file_name pid next) = true ∧
      is_ignored_scratch_name (tempName file_name pid next) = true := by
  have ends : tmpSuffix.isSuffixOf (tempName file_name pid next) = true := by
    rw [List.isSuffixOf_iff_suffix]
    exact List.suffix_append _ _
  constructor
  · unfold is_burlmd_scratch_name
    split
    · rfl
    · have isName : tempName file_name pid next =
          ['.'] ++ ((stemOf file_name ++ '.' :: shown pid) ++ '.' :: shown next ++ tmpSuffix) := by
        simp [tempName]
      have front : (tempName file_name pid next).dropPrefix? ['.'] =
          some ((stemOf file_name ++ '.' :: shown pid) ++ '.' :: shown next ++ tmpSuffix) := by
        rw [isName]
        exact List.dropPrefix?_eq_some_iff.mpr ⟨['.'], rfl, beq_self_eq_true _⟩
      have back : ((stemOf file_name ++ '.' :: shown pid) ++ '.' :: shown next ++
          tmpSuffix).dropSuffix? tmpSuffix =
            some ((stemOf file_name ++ '.' :: shown pid) ++ '.' :: shown next) :=
        List.dropSuffix?_eq_some_iff.mpr ⟨tmpSuffix, rfl, beq_self_eq_true _⟩
      rw [front, Option.bind_some, back]
      dsimp only
      rw [rsplit_once_append (dot_not_mem_shown next)]
      dsimp only
      rw [rsplit_once_append (dot_not_mem_shown pid)]
      dsimp only
      rw [is_decimal_shown, is_decimal_shown, Bool.and_true, Bool.and_true, decide_eq_true_eq]
      exact stemOf_ne_nil file_name
  · unfold is_ignored_scratch_name
    rw [ends]
    simp [tempName]

/-! ## No segment is taken for a scratch file -/

theorem hidden_of_scratch {name : Text}
    (scratch : is_burlmd_scratch_name name = true ∨ is_ignored_scratch_name name = true) :
    name.head? = some '.' := by
  have ofTrash : TRASH_PREFIX.isPrefixOf name = true → name.head? = some '.' := by
    intro starts
    rcases List.isPrefixOf_iff_prefix.mp starts with ⟨rest, same⟩
    rw [← same]
    rfl
  rcases scratch with own | ignored
  · unfold is_burlmd_scratch_name at own
    split at own
    · rename_i starts
      exact ofTrash starts
    · cases name with
      | nil => cases own
      | cons c rest =>
        by_cases dot : c = '.'
        · rw [dot]
          rfl
        · have none_ : (c :: rest).dropPrefix? ['.'] = none := by
            simp [List.dropPrefix?, dot]
          rw [none_, Option.bind_none] at own
          cases own
  · unfold is_ignored_scratch_name at ignored
    rw [Bool.or_eq_true, Bool.and_eq_true, decide_eq_true_eq] at ignored
    rcases ignored with starts | both
    · exact ofTrash starts
    · exact both.1

/-- Neither predicate holds of a name. -/
def Unscratched (name : Text) : Prop :=
  is_burlmd_scratch_name name = false ∧ is_ignored_scratch_name name = false

theorem unscratched_of_visible {name : Text} (visible : name.head? ≠ some '.') : Unscratched name := by
  constructor
  · rw [Bool.eq_false_iff]
    exact fun own => visible (hidden_of_scratch (Or.inl own))
  · rw [Bool.eq_false_iff]
    exact fun ignored => visible (hidden_of_scratch (Or.inr ignored))

theorem unscratched_of_validateSegment {host : Host} {segment : Text}
    (valid : validateSegment host segment = .ok ()) : Unscratched segment :=
  unscratched_of_visible (validateSegment_iff.mp valid).visible

theorem unscratched_of_normalizeDirectory {host : Host} {path directory : Text}
    (valid : normalizeDirectory host path = .ok directory) :
    ∀ segment ∈ directory.splitOn slash, Unscratched segment := by
  intro segment mem
  rcases (normalizeDirectory_iff.mp valid).2.2 with root | ⟨-, visible⟩
  · rw [root] at mem
    have none_ : segment = [] := List.mem_singleton.mp mem
    rw [none_]
    exact ⟨by decide, by decide⟩
  · exact unscratched_of_visible (visible segment mem).2

theorem visible_of_all {path : Path} (all : path.all fun segment => !Index.hidden segment.text) :
    ∀ name ∈ path, name.text.head? ≠ some '.' := by
  intro name mem
  have own := List.all_eq_true.mp all name mem
  unfold Index.hidden at own
  simpa using own

theorem unscratched_of_directories {bundle : Bundle} {directory : Text}
    (mem : directory ∈ (walkBundle bundle).directories) :
    ∀ segment ∈ directory.splitOn slash, Unscratched segment := by
  unfold walkBundle at mem
  rw [List.mem_insertionSort, List.mem_map] at mem
  rcases mem with ⟨path, filtered, isPath⟩
  rw [List.mem_filter] at filtered
  have both := of_decide_eq_true filtered.2
  intro segment isSegment
  rw [← isPath, splitOn_joinPath both.1, List.mem_map] at isSegment
  rcases isSegment with ⟨name, isName, same⟩
  rw [← same]
  exact unscratched_of_visible (visible_of_all both.2 name isName)

theorem visible_front {front name : Text} (front_of : front <+: name)
    (visible : name.head? ≠ some '.') : front.head? ≠ some '.' := by
  rcases front_of with ⟨rest, same⟩
  cases front with
  | nil => exact Option.some_ne_none _ ∘ Eq.symm
  | cons c others =>
    rw [← same] at visible
    exact visible

theorem unscratched_of_notes {bundle : Bundle} {id : ConceptId}
    (mem : id ∈ (walkBundle bundle).notes) : ∀ segment ∈ id.splitOn slash, Unscratched segment := by
  rcases mem_walkBundle.mp mem with ⟨file, -, listed⟩
  rcases Option.bind_eq_some_iff.mp listed with ⟨name, last, found⟩
  split at found
  · rename_i isNote
    simp only [Bool.and_eq_true, List.isSuffixOf_iff_suffix] at isNote
    have some_ : file.path ≠ [] := by
      intro none_
      rw [none_] at last
      cases last
    have isPath : id ++ mdSuffix = joinPath file.path := by
      rw [← Option.some.inj found]
      exact conceptIdToPath_pathToConceptId last isNote.1.2
    have names := splitOn_joinPath some_
    rw [← isPath, splitOn_append (by decide)] at names
    -- each segment is a name, or the last name without its extension
    intro segment isSegment
    rw [splitOn_eq_dropLast_append, List.mem_append, List.mem_singleton] at isSegment
    have exists_name : ∃ name ∈ file.path, segment <+: name.text := by
      rcases isSegment with front | back
      · have isName : segment ∈ file.path.map Name.text := by
          rw [← names]
          exact List.mem_append_left _ front
        rcases List.mem_map.mp isName with ⟨name, isName, same⟩
        exact ⟨name, isName, by rw [same]⟩
      · have isName : lastSegment slash id ++ mdSuffix ∈ file.path.map Name.text := by
          rw [← names]
          exact List.mem_append_right _ (List.mem_singleton_self _)
        rcases List.mem_map.mp isName with ⟨name, isName, same⟩
        refine ⟨name, isName, ?_⟩
        rw [same, back]
        exact List.prefix_append _ _
    rcases exists_name with ⟨name, isName, front⟩
    exact unscratched_of_visible
      (visible_front front (visible_of_all isNote.1.1 name isName))
  · cases found

end Burlmd.Workspace
