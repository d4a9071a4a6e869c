import Burlmd.Library.Ancestors
import Burlmd.Library.Table
import Burlmd.Library.Utf8

/-!
# Trees and their editor

A tree is the table of its files, none of which is a directory of another. The editor puts a file
in the place of whatever is in its way, and removes a path with everything beneath it.
-/

namespace Burlmd.Git

open Segments (Above)
open Utf8 (Text)

def separator : Char := '/'

instance (level path : Text) : Decidable (Above separator level path) :=
  inferInstanceAs (Decidable (_ ∧ _))

theorem not_above_self (path : Text) : ¬ Above separator path path :=
  fun above => Nat.lt_irrefl _ above.length_lt

/-- The path is another one, or one of its directories. -/
def AtOrAbove (level path : Text) : Prop := path = level ∨ Above separator level path

instance (level path : Text) : Decidable (AtOrAbove level path) :=
  inferInstanceAs (Decidable (_ ∨ _))

inductive EntryKind where
  | blob
  | blobExecutable
  | link
  | commit
  deriving DecidableEq, Repr

abbrev ObjectId := Nat

structure TreeEntry where
  path : Text
  id : ObjectId
  kind : EntryKind
  deriving DecidableEq, Repr

structure Tree where
  files : Table TreeEntry.path
  prefixless : ∀ entry ∈ files, ∀ other ∈ files, ¬ Above separator entry.path other.path

namespace Tree

def empty : Tree where
  files := ⟨[], List.nodup_nil⟩
  prefixless := by
    intro entry mem
    cases mem

def find? (tree : Tree) (path : Text) : Option TreeEntry := tree.files.find? path

/-- What an entry at a path takes the place of: what is beneath the path, and a file above it. -/
def inTheWay (path : Text) (entry : TreeEntry) : Bool :=
  Above separator path entry.path || Above separator entry.path path

def upsert (tree : Tree) (entry : TreeEntry) : Tree where
  files := (tree.files.delete (inTheWay entry.path)).put entry
  prefixless := by
    intro row mem row' mem' above
    rw [Table.mem_put, Table.mem_delete] at mem mem'
    rcases mem with ⟨⟨isRow, apart⟩, -⟩ | own
    · rcases mem' with ⟨⟨isRow', apart'⟩, -⟩ | own'
      · exact tree.prefixless row isRow row' isRow' above
      · rw [own'] at above
        simp [inTheWay, above] at apart
    · rw [own] at above
      rcases mem' with ⟨⟨isRow', apart'⟩, -⟩ | own'
      · simp [inTheWay, above] at apart'
      · rw [own'] at above
        exact not_above_self _ above

def remove (tree : Tree) (path : Text) : Tree where
  files := tree.files.delete fun entry => AtOrAbove path entry.path
  prefixless := by
    intro row mem row' mem'
    exact tree.prefixless row (Table.mem_delete.mp mem).1 row' (Table.mem_delete.mp mem').1

/-- Trees of the same files have the same id. -/
def same (tree other : Tree) : Bool :=
  (tree.files.rows ++ other.files.rows).all fun entry =>
    tree.find? entry.path = other.find? entry.path

variable {tree other : Tree} {entry : TreeEntry} {path name : Text}

theorem find?_upsert : (tree.upsert entry).find? name =
    if name = entry.path then some entry
    else if Above separator entry.path name ∨ Above separator name entry.path then none
    else tree.find? name := by
  unfold find? upsert
  rw [Table.find?_put]
  by_cases own : name = entry.path
  · rw [if_pos own.symm, if_pos own]
  · rw [if_neg (Ne.symm own), if_neg own]
    have deleted : (tree.files.delete (inTheWay entry.path)).find? name =
        if (decide (Above separator entry.path name) || decide (Above separator name entry.path))
        then none else tree.files.find? name :=
      Table.find?_of_mem_iff (q := fun path => decide (Above separator entry.path path) ||
        decide (Above separator path entry.path)) (fun row => Table.mem_delete) name
    rw [deleted]
    simp only [Bool.or_eq_true, decide_eq_true_eq]

theorem find?_remove : (tree.remove path).find? name =
    if AtOrAbove path name then none else tree.find? name := by
  unfold find? remove
  have deleted : (tree.files.delete fun entry => AtOrAbove path entry.path).find? name =
      if decide (AtOrAbove path name) then none else tree.files.find? name :=
    Table.find?_of_mem_iff (q := fun name => decide (AtOrAbove path name))
      (fun row => Table.mem_delete) name
  rw [deleted]
  simp only [decide_eq_true_eq]

theorem same_iff : tree.same other = true ↔ ∀ name, tree.find? name = other.find? name := by
  unfold same
  rw [List.all_eq_true]
  constructor
  · intro all name
    cases found : tree.find? name with
    | some row =>
      rcases Table.find?_eq_some_iff.mp found with ⟨mem, isName⟩
      have agree := all row (List.mem_append_left _ mem)
      rw [decide_eq_true_eq, isName, found] at agree
      exact agree
    | none =>
      cases found' : other.find? name with
      | none => rfl
      | some row =>
        rcases Table.find?_eq_some_iff.mp found' with ⟨mem, isName⟩
        have agree := all row (List.mem_append_right _ mem)
        rw [decide_eq_true_eq, isName, found, found'] at agree
        exact agree
  · intro agree row _
    rw [decide_eq_true_eq]
    exact agree row.path

end Tree

end Burlmd.Git
