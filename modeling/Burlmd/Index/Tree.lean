import Mathlib.Data.List.Perm.Basic
import Mathlib.Data.List.Sort
import Mathlib.Data.List.Lex
import Mathlib.Data.Char
import Mathlib.Data.Prod.Lex
import Burlmd.Index.Listing

/-!
# The tree of a Workspace

The sidebar renders from the rows of the directories and of the Notes, and a parent that
has no row is not made up. Over a nested index the tree is finite, and each Note is in it
once, under the directories of its own path.
-/

namespace Burlmd.Index

open Utf8 (Text)
open Okf (ConceptId containingDir slash)
open Segments

inductive TreeNode where
  | directory (name path : Text) (children : List TreeNode)
  | note (id title path : Text)

/-- What the tree reads of a Note. -/
structure NoteEntry where
  id : ConceptId
  path : Text
  title : Text
  deriving DecidableEq

/-- The text before the last slash, and the text after it. -/
def splitParent (id : Text) : Text × Text := (containingDir id, fileStem id)

/-- Sorted by lowercased name; a tie is broken by what is unique. -/
def Sorted (to_lowercase : Text → Text) (first second : Text × Text) : Prop :=
  toLex (to_lowercase first.1, first.2) ≤ toLex (to_lowercase second.1, second.2)

instance (to_lowercase : Text → Text) : DecidableRel (Sorted to_lowercase) :=
  fun _ _ => inferInstanceAs (Decidable (_ ≤ _))

section Building

variable (to_lowercase : Text → Text) (dirs : List (Text × Text)) (notes : List NoteEntry)

/-- The directories in a directory, by name and path. -/
def dirsByParent (parent : Text) : List (Text × Text) :=
  ((dirs.filter fun dir => (splitParent dir.1).1 = parent).map fun dir =>
    ((splitParent dir.1).2, dir.2)).insertionSort (Sorted to_lowercase)

def notesByParent (parent : Text) : List NoteEntry :=
  (notes.filter fun note => (splitParent note.id).1 = parent).insertionSort fun first second =>
    Sorted to_lowercase (first.title, first.id) (second.title, second.id)

/-- One level of the tree. Nothing bounds how deep the rows go but the rows themselves. -/
def buildTreeLevel : Nat → Text → Option (List TreeNode)
  | 0, _ => none
  | fuel + 1, parent => do
      let directories ← (dirsByParent to_lowercase dirs parent).mapM fun dir => do
        return .directory dir.1 dir.2 (← buildTreeLevel fuel dir.2)
      return directories ++ (notesByParent to_lowercase notes parent).map fun note =>
        .note note.id note.title note.path

end Building

namespace Database

def dirEntries (db : Database) (workspace_id : WorkspaceId) : List (Text × Text) :=
  (db.directories.rows.filter fun row => row.workspace_id = workspace_id).map fun row =>
    (row.id, row.path)

def noteEntries (db : Database) (workspace_id : WorkspaceId) : List NoteEntry :=
  (db.notes.rows.filter fun note => note.workspace_id = workspace_id).map fun note =>
    ⟨note.id, note.path, note.title⟩

def workspaceTree (to_lowercase : Text → Text) (db : Database) (workspace_id : WorkspaceId)
    (fuel : Nat) : Option (List TreeNode) :=
  buildTreeLevel to_lowercase (db.dirEntries workspace_id) (db.noteEntries workspace_id) fuel []

end Database

/-! ## What a tree shows -/

mutual

/-- The Notes of a tree, each with the paths of the directories it is in. -/
def TreeNode.located (above : List Text) : TreeNode → List (List Text × NoteEntry)
  | .directory _ path children => locatedAll (above ++ [path]) children
  | .note id title path => [(above, ⟨id, path, title⟩)]

def locatedAll (above : List Text) : List TreeNode → List (List Text × NoteEntry)
  | [] => []
  | node :: rest => node.located above ++ locatedAll above rest

end

theorem locatedAll_eq (above : List Text) (nodes : List TreeNode) :
    locatedAll above nodes = nodes.flatMap (TreeNode.located above) := by
  induction nodes with
  | nil => simp [locatedAll]
  | cons node rest ih =>
    rw [locatedAll, ih, List.flatMap_cons]

/-- Where a Note belongs. -/
def NoteEntry.place (note : NoteEntry) : List Text × NoteEntry :=
  (Database.directoryAncestors (containingDir note.id), note)

/-! ## Building -/

theorem mapM_eq_some {α β : Type} {f : α → Option β} {g : α → β} {list : List α}
    (each : ∀ x ∈ list, f x = some (g x)) : list.mapM f = some (list.map g) := by
  induction list with
  | nil => rfl
  | cons x rest ih =>
    rw [List.mapM_cons, each x List.mem_cons_self,
      ih fun y mem => each y (List.mem_cons_of_mem _ mem)]
    rfl

/-- A list falls apart into the parts of disjoint tests. -/
theorem filter_any_perm {α β : Type} (test : β → α → Bool) {list : List α} {tests : List β}
    (apart : tests.Pairwise fun b c => ∀ x ∈ list, test b x = true → test c x = false) :
    (list.filter fun x => tests.any fun b => test b x).Perm
      (tests.flatMap fun b => list.filter (test b)) := by
  induction tests with
  | nil => simp
  | cons b rest ih =>
    obtain ⟨first, apart⟩ := List.pairwise_cons.mp apart
    rw [List.flatMap_cons]
    refine List.Perm.trans (List.filter_append_perm (test b) _).symm (List.Perm.append ?_ ?_)
    · rw [List.filter_filter]
      refine List.Perm.of_eq (List.filter_congr fun x _ => ?_)
      rw [List.any_cons]
      cases test b x <;> rfl
    · refine List.Perm.trans (List.Perm.of_eq ?_) (ih apart)
      rw [List.filter_filter]
      refine List.filter_congr fun x mem => ?_
      rw [List.any_cons]
      cases here : test b x with
      | false => simp
      | true =>
        have none : (rest.any fun c => test c x) = false :=
          List.any_eq_false.mpr fun c later => by simp [first c later x mem here]
        rw [none]
        rfl

/-! ## Levels -/

/-- The rows that a tree can be built from. -/
structure Grounded (dirs : List (Text × Text)) (notes : List NoteEntry) : Prop where
  same : ∀ dir ∈ dirs, dir.2 = dir.1
  whole : ∀ dir ∈ dirs, Whole slash dir.1
  distinct : (dirs.map Prod.fst).Nodup
  reached : ∀ note ∈ notes, ∀ level, Above slash level note.id → ∃ dir ∈ dirs, dir.1 = level

namespace Grounded

variable {to_lowercase : Text → Text} {dirs : List (Text × Text)} {notes : List NoteEntry}
  {parent : Text}

theorem mem_dirsByParent (grounded : Grounded dirs notes) {child : Text × Text}
    (mem : child ∈ dirsByParent to_lowercase dirs parent) :
    (∃ dir ∈ dirs, dir.1 = child.2) ∧ Segments.parent slash child.2 = parent ∧
      Whole slash child.2 := by
  obtain ⟨dir, inside, rfl⟩ := List.mem_map.mp ((List.mem_insertionSort _).mp mem)
  obtain ⟨listed, isParent⟩ := List.mem_filter.mp inside
  have isChild : containingDir dir.1 = parent := of_decide_eq_true isParent
  show (∃ dir' ∈ dirs, dir'.1 = dir.2) ∧ Segments.parent slash dir.2 = parent ∧ Whole slash dir.2
  rw [grounded.same dir listed]
  exact ⟨⟨dir, listed, rfl⟩, isChild, grounded.whole dir listed⟩

theorem exists_mem_dirsByParent (grounded : Grounded dirs notes) {dir : Text × Text}
    (listed : dir ∈ dirs) (isChild : Segments.parent slash dir.1 = parent) :
    ∃ child ∈ dirsByParent to_lowercase dirs parent, child.2 = dir.1 := by
  refine ⟨((splitParent dir.1).2, dir.2), (List.mem_insertionSort _).mpr ?_, grounded.same dir listed⟩
  exact List.mem_map_of_mem (List.mem_filter.mpr ⟨listed, decide_eq_true isChild⟩)

theorem pairwise_dirsByParent (grounded : Grounded dirs notes) :
    (dirsByParent to_lowercase dirs parent).Pairwise fun child other =>
      ∀ note ∈ notes, decide (Under slash child.2 note.id) = true →
        decide (Under slash other.2 note.id) = false := by
  have distinct : ((dirsByParent to_lowercase dirs parent).map Prod.snd).Nodup := by
    refine ((List.perm_insertionSort _ _).map Prod.snd).nodup_iff.mpr ?_
    rw [List.map_map]
    have paths : (dirs.filter fun dir => (splitParent dir.1).1 = parent).map
          (Prod.snd ∘ fun dir => ((splitParent dir.1).2, dir.2)) =
        (dirs.filter fun dir => (splitParent dir.1).1 = parent).map Prod.fst :=
      List.map_congr_left fun dir mem => grounded.same dir (List.mem_filter.mp mem).1
    rw [paths]
    exact grounded.distinct.sublist (List.filter_sublist.map _)
  refine (List.pairwise_map.mp distinct).imp_of_mem fun {child other} mem mem' apart => ?_
  intro note _ under
  obtain ⟨-, isChild, whole⟩ := grounded.mem_dirsByParent mem
  obtain ⟨-, isChild', whole'⟩ := grounded.mem_dirsByParent mem'
  have above := (of_decide_eq_true under).resolve_left whole.ne_nil
  refine decide_eq_false fun under' => apart ?_
  exact child_unique (isChild.trans isChild'.symm) above (under'.resolve_left whole'.ne_nil)

/-- What is under a directory is in it, or under exactly one of its directories. -/
theorem filter_under_perm (grounded : Grounded dirs notes) :
    (((dirsByParent to_lowercase dirs parent).flatMap fun child =>
        notes.filter fun note => Under slash child.2 note.id) ++
      notes.filter fun note => (splitParent note.id).1 = parent).Perm
      (notes.filter fun note => Under slash parent note.id) := by
  have direct_under : ∀ note : NoteEntry, (splitParent note.id).1 = parent →
      Under slash parent note.id := by
    rintro note rfl
    by_cases root : (splitParent note.id).1 = []
    · exact .inl root
    · exact .inr (above_iff_parent.mpr (.inl ⟨root, rfl⟩))
  refine List.Perm.trans ?_
    (List.filter_append_perm (fun note => decide ((splitParent note.id).1 = parent)) _)
  refine List.perm_append_comm.trans (List.Perm.append (List.Perm.of_eq ?_) ?_)
  · rw [List.filter_filter]
    refine List.filter_congr fun note _ => ?_
    by_cases direct : (splitParent note.id).1 = parent
    · rw [decide_eq_true direct, decide_eq_true (direct_under note direct)]
      rfl
    · rw [decide_eq_false direct]
      rfl
  · refine (filter_any_perm (fun (child : Text × Text) (note : NoteEntry) =>
      decide (Under slash child.2 note.id)) grounded.pairwise_dirsByParent).symm.trans
        (List.Perm.of_eq ?_)
    rw [List.filter_filter]
    refine List.filter_congr fun note mem => ?_
    rw [Bool.eq_iff_iff, List.any_eq_true, Bool.and_eq_true, Bool.not_eq_true',
      decide_eq_false_iff_not, decide_eq_true_eq]
    constructor
    · rintro ⟨child, inside, under⟩
      obtain ⟨-, isChild, whole⟩ := grounded.mem_dirsByParent inside
      have above := (of_decide_eq_true under).resolve_left whole.ne_nil
      constructor
      · intro direct
        exact not_above_of_parent_eq whole.ne_nil (isChild.trans direct.symm) above
      · by_cases root : parent = []
        · exact .inl root
        · refine .inr (Above.trans ?_ above)
          exact above_iff_parent.mpr (.inl ⟨root, isChild.symm⟩)
    · rintro ⟨indirect, under⟩
      obtain ⟨child, -, isChild, above⟩ := exists_child under indirect
      obtain ⟨dir, listed, rfl⟩ := grounded.reached note mem child above
      obtain ⟨child, inside, same⟩ :=
        @exists_mem_dirsByParent to_lowercase dirs notes parent grounded dir listed isChild
      exact ⟨child, inside, decide_eq_true (.inr (same ▸ above))⟩

variable (to_lowercase dirs notes) in
/-- With more fuel than this, the level is built, and shows what is under its directory. -/
def Shows (fuel : Nat) (parent : Text) (nodes : List TreeNode) : Prop :=
  (∀ more, fuel < more → buildTreeLevel to_lowercase dirs notes more parent = some nodes) ∧
    (locatedAll (Database.directoryAncestors parent) nodes).Perm
      ((notes.filter fun note => Under slash parent note.id).map NoteEntry.place)

/-- The levels of the children make the level of the parent. -/
theorem shows_of_children (grounded : Grounded dirs notes) {fuel : Nat}
    (children : ∀ child ∈ dirsByParent to_lowercase dirs parent,
      ∃ nodes, 0 < fuel ∧ Shows to_lowercase dirs notes (fuel - 1) child.2 nodes) :
    ∃ nodes, Shows to_lowercase dirs notes fuel parent nodes := by
  choose! nodes positive built shown using children
  let directories := (dirsByParent to_lowercase dirs parent).map fun child =>
    TreeNode.directory child.1 child.2 (nodes child)
  let leaves := (notesByParent to_lowercase notes parent).map fun note =>
    TreeNode.note note.id note.title note.path
  refine ⟨directories ++ leaves, ?_, ?_⟩
  · intro more enough
    obtain ⟨more, rfl⟩ := Nat.exists_eq_succ_of_ne_zero (Nat.ne_zero_of_lt enough)
    have isMap : ((dirsByParent to_lowercase dirs parent).mapM fun child => do
        return TreeNode.directory child.1 child.2
          (← buildTreeLevel to_lowercase dirs notes more child.2)) = some directories := by
      refine mapM_eq_some fun child mem => ?_
      have inside := positive child mem
      rw [built child mem more (by omega)]
      rfl
    unfold buildTreeLevel
    rw [isMap]
    rfl
  · have atChildren : directories.flatMap (TreeNode.located (Database.directoryAncestors parent)) =
        (dirsByParent to_lowercase dirs parent).flatMap fun child =>
          locatedAll (Database.directoryAncestors child.2) (nodes child) := by
      rw [List.flatMap_map]
      refine List.flatMap_congr fun child mem => ?_
      obtain ⟨-, isChild, whole⟩ := grounded.mem_dirsByParent mem
      rw [TreeNode.located, Database.directoryAncestors_eq, Database.directoryAncestors_eq,
        ancestors_eq_parent whole, isChild]
    have atLeaves : leaves.flatMap (TreeNode.located (Database.directoryAncestors parent)) =
        (notesByParent to_lowercase notes parent).map NoteEntry.place := by
      rw [List.flatMap_map, List.map_eq_flatMap]
      refine List.flatMap_congr fun note mem => ?_
      have direct := of_decide_eq_true (List.mem_filter.mp ((List.mem_insertionSort _).mp mem)).2
      rw [TreeNode.located, ← direct]
      rfl
    rw [locatedAll_eq, List.flatMap_append, atChildren, atLeaves]
    refine List.Perm.trans (List.Perm.append (List.Perm.flatMap_left _ fun child mem =>
      shown child mem) ((List.perm_insertionSort _ _).map NoteEntry.place)) ?_
    rw [← List.map_flatMap, ← List.map_append]
    exact grounded.filter_under_perm.map NoteEntry.place

/-- A level is built as soon as the fuel covers the longest id. -/
theorem exists_shows (grounded : Grounded dirs notes) {fuel : Nat}
    (deep : ∀ dir ∈ dirs, dir.1.length ≤ parent.length + fuel) :
    ∃ nodes, Shows to_lowercase dirs notes fuel parent nodes := by
  have longer : ∀ {parent : Text}, ∀ child ∈ dirsByParent to_lowercase dirs parent,
      parent.length < child.2.length := by
    intro parent child mem
    obtain ⟨-, rfl, whole⟩ := grounded.mem_dirsByParent mem
    exact length_parent_lt whole.ne_nil
  induction fuel generalizing parent with
  | zero =>
    refine grounded.shows_of_children fun child mem => ?_
    obtain ⟨⟨dir, listed, same⟩, -, -⟩ := grounded.mem_dirsByParent mem
    have short := deep dir listed
    have long := longer child mem
    rw [same] at short
    omega
  | succ fuel ih =>
    refine grounded.shows_of_children fun child mem => ?_
    have long := longer child mem
    obtain ⟨nodes, shows_⟩ := @ih child.2 fun dir listed => by
      have short := deep dir listed
      omega
    exact ⟨nodes, Nat.succ_pos fuel, shows_⟩

end Grounded

/-! ## The whole tree -/

namespace Database

variable {db : Database} {workspace_id : WorkspaceId}

theorem Nested.grounded (nested : db.Nested workspace_id) :
    Grounded (db.dirEntries workspace_id) (db.noteEntries workspace_id) := by
  have listed : ∀ dir ∈ db.dirEntries workspace_id, ∃ row ∈ db.directories,
      row.key = (workspace_id, dir.1) ∧ dir = (row.id, row.path) := by
    intro dir mem
    obtain ⟨row, inside, rfl⟩ := List.mem_map.mp mem
    obtain ⟨inside, own⟩ := List.mem_filter.mp inside
    have isWorkspace : row.workspace_id = workspace_id := of_decide_eq_true own
    exact ⟨row, inside, by rw [DirectoryRow.key, isWorkspace], rfl⟩
  refine ⟨?_, ?_, ?_, ?_⟩
  · intro dir mem
    obtain ⟨row, inside, -, rfl⟩ := listed dir mem
    exact nested.paths row inside
  · intro dir mem
    obtain ⟨row, inside, isKey, -⟩ := listed dir mem
    exact nested.wholeDirectories dir.1 ⟨row, inside, isKey⟩
  · unfold dirEntries
    rw [List.map_map]
    refine List.Nodup.map_on ?_ (db.directories.distinct.of_map.filter _)
    intro row mem other mem' same
    obtain ⟨mem, own⟩ := List.mem_filter.mp mem
    obtain ⟨mem', own'⟩ := List.mem_filter.mp mem'
    have isWorkspace : row.workspace_id = workspace_id := of_decide_eq_true own
    have isWorkspace' : other.workspace_id = workspace_id := of_decide_eq_true own'
    refine Table.eq_of_key_eq mem mem' ?_
    rw [DirectoryRow.key, DirectoryRow.key, isWorkspace, isWorkspace']
    exact congrArg (Prod.mk workspace_id) same
  · intro note mem level above
    obtain ⟨row, inside, rfl⟩ := List.mem_map.mp mem
    obtain ⟨inside, own⟩ := List.mem_filter.mp inside
    have isWorkspace : row.workspace_id = workspace_id := of_decide_eq_true own
    obtain ⟨directory, found, isKey⟩ := nested.closed.leaves row.id
      ⟨row, inside, by rw [NoteRow.key, isWorkspace]⟩ level above
    refine ⟨(directory.id, directory.path), ?_, congrArg Prod.snd isKey⟩
    refine List.mem_map.mpr ⟨directory, List.mem_filter.mpr ⟨found, ?_⟩, rfl⟩
    exact decide_eq_true (congrArg Prod.fst isKey)

/-- The tree is built, and has every Note once, under the directories of its own path. -/
theorem Nested.workspaceTree (nested : db.Nested workspace_id) (to_lowercase : Text → Text) :
    ∃ fuel tree, (∀ more, fuel < more →
        db.workspaceTree to_lowercase workspace_id more = some tree) ∧
      (locatedAll [] tree).Perm ((db.noteEntries workspace_id).map NoteEntry.place) := by
  let lengths := (db.dirEntries workspace_id).map fun dir => dir.1.length
  have deep : ∀ dir ∈ db.dirEntries workspace_id,
      dir.1.length ≤ ([] : Text).length + lengths.foldr max 0 := by
    intro dir mem
    rw [List.length_nil, Nat.zero_add]
    exact le_foldr_max (List.mem_map.mpr ⟨dir, mem, rfl⟩)
  obtain ⟨tree, built, shown⟩ := @Grounded.exists_shows to_lowercase _ _ [] nested.grounded _ deep
  refine ⟨_, tree, built, ?_⟩
  have all : (db.noteEntries workspace_id).filter (fun note => Under slash [] note.id) =
      db.noteEntries workspace_id :=
    List.filter_eq_self.mpr fun note _ => decide_eq_true (.inl rfl)
  rwa [all] at shown

end Database

end Burlmd.Index
