import Burlmd.Index.Scan
import Burlmd.Workspace.FileCalls

/-!
# An index that mirrors the disk

The rows of every Note are those its file calls for, and there are none where the walk lists
no file. This is what a rebuild makes; a statement keeps it when it changes the rows of a Note
as the disk changes its file.
-/

namespace Burlmd.Index

open Utf8 (Text)
open Okf (ConceptId conceptIdToPath)

variable {host : Host} {workspace_id : WorkspaceId} {bundle bundle' : Bundle} {db db' : Database}
  {id : ConceptId} {path : Path}

/-- An id as a walk spells one. -/
def Named (id : ConceptId) : Prop := ∃ path, listedId path = some id

/-- The bytes of the file that the walk lists under an id. -/
def contentsOf (bundle : Bundle) (id : ConceptId) : Option FileBytes :=
  ((normalComponents (conceptIdToPath id)).filter fun path => listedId path = some id).bind bundle.read

/-- What a rebuild puts into the rows of a Note. -/
def shownRows (host : Host) (bundle : Bundle) (id : ConceptId) : NoteRows :=
  (contentsOf bundle id).elim .none (derivedRows host id)

def Mirrors (host : Host) (workspace_id : WorkspaceId) (bundle : Bundle) (db : Database) : Prop :=
  ∀ id, db.rowsOf (workspace_id, id) = shownRows host bundle id

/-! ## Files by their ids -/

theorem contentsOf_of_listed (listed : listedId path = some id) : contentsOf bundle id = bundle.read path := by
  unfold contentsOf
  rw [normalComponents_of_listedId listed, Option.filter_some, if_pos (decide_eq_true listed),
    Option.bind_some]

theorem contentsOf_eq_some_iff {contents : FileBytes} : contentsOf bundle id = some contents ↔
    ∃ path, listedId path = some id ∧ bundle.read path = some contents := by
  constructor
  · intro found
    rcases Option.bind_eq_some_iff.mp found with ⟨path, isPath, read⟩
    exact ⟨path, of_decide_eq_true (Option.filter_eq_some_iff.mp isPath).2, read⟩
  · rintro ⟨path, listed, read⟩
    rw [contentsOf_of_listed listed]
    exact read

theorem contentsOf_of_unnamed (unnamed : ¬Named id) : contentsOf bundle id = none := by
  cases found : contentsOf bundle id with
  | none => rfl
  | some contents =>
    rcases contentsOf_eq_some_iff.mp found with ⟨path, listed, -⟩
    exact absurd ⟨path, listed⟩ unnamed

/-- Files that read the same are listed the same. -/
theorem contentsOf_congr (same : ∀ path, listedId path = some id → bundle'.read path = bundle.read path) :
    contentsOf bundle' id = contentsOf bundle id := by
  by_cases named : Named id
  · rcases named with ⟨path, listed⟩
    rw [contentsOf_of_listed listed, contentsOf_of_listed listed]
    exact same path listed
  · rw [contentsOf_of_unnamed named, contentsOf_of_unnamed named]

theorem mem_files_of_read {contents : FileBytes} (read : bundle.read path = some contents) :
    ∃ file ∈ bundle.files, file.path = path ∧ file.contents = contents :=
  Bundle.read_eq_some_iff.mp read

/-! ## Rows -/

theorem derivedRows_ne_none (id : ConceptId) (contents : FileBytes) : derivedRows host id contents ≠ .none := by
  intro same
  cases congrArg NoteRows.note same

theorem shownRows_congr (same : contentsOf bundle' id = contentsOf bundle id) :
    shownRows host bundle' id = shownRows host bundle id := by
  unfold shownRows
  rw [same]

theorem shownRows_of_contents {contents : FileBytes} (found : contentsOf bundle id = some contents) :
    shownRows host bundle id = derivedRows host id contents := by
  unfold shownRows
  rw [found]
  rfl

theorem shownRows_of_missing (missing : contentsOf bundle id = none) : shownRows host bundle id = .none := by
  unfold shownRows
  rw [missing]
  rfl

namespace Mirrors

/-- A Note has rows exactly where the walk lists a file for it. -/
theorem rows_iff (mirrors : Mirrors host workspace_id bundle db) :
    db.rowsOf (workspace_id, id) = .none ↔ contentsOf bundle id = none := by
  rw [mirrors id]
  cases found : contentsOf bundle id with
  | none =>
    rw [shownRows_of_missing found]
    exact ⟨fun _ => rfl, fun _ => rfl⟩
  | some contents =>
    rw [shownRows_of_contents found]
    exact ⟨fun same => absurd same (derivedRows_ne_none _ _), fun isNone => by cases isNone⟩

theorem agrees (mirrors : Mirrors host workspace_id bundle db) : Agrees host workspace_id bundle db := by
  intro file mem id listed
  have read : bundle.read file.path = some file.contents :=
    congrArg (Option.map BundleFile.contents) (Table.find?_key mem)
  rw [mirrors id]
  apply shownRows_of_contents
  rw [contentsOf_of_listed listed]
  exact read

theorem noteExists_iff (mirrors : Mirrors host workspace_id bundle db) :
    db.noteExists workspace_id id = true ↔ (contentsOf bundle id).isSome := by
  have shown : db.noteColumns (workspace_id, id) = (shownRows host bundle id).note :=
    congrArg NoteRows.note (mirrors id)
  have isRow : db.noteExists workspace_id id = (db.noteColumns (workspace_id, id)).isSome :=
    Option.isSome_map.symm
  rw [isRow, shown]
  unfold shownRows
  cases contentsOf bundle id with
  | none => exact Iff.refl _
  | some contents => exact Iff.refl _

/-- Neither the disk nor the rows of the Workspace have changed. -/
theorem congr (mirrors : Mirrors host workspace_id bundle db)
    (files : ∀ id, contentsOf bundle' id = contentsOf bundle id)
    (rows : ∀ id, db'.rowsOf (workspace_id, id) = db.rowsOf (workspace_id, id)) :
    Mirrors host workspace_id bundle' db' := by
  intro id
  rw [rows, mirrors id, shownRows_congr (files id)]

end Mirrors

/-! ## Rebuilds -/

theorem find?_scanBundle (bundle : Bundle) (id : ConceptId) :
    ((scanBundle host bundle).notes.find? fun note => note.concept_id = id).map
        (NoteRows.derived host.title_lookup_key) =
      (contentsOf bundle id).map (derivedRows host id) := by
  cases scanned : (scanBundle host bundle).notes.find? fun note => note.concept_id = id with
  | some note =>
    have isFound := List.find?_some scanned
    have isId : note.concept_id = id := of_decide_eq_true isFound
    rcases List.mem_filterMap.mp (List.mem_of_find?_eq_some scanned) with ⟨other, walked, isNote⟩
    rcases readNote_eq_some_iff.mp isNote with ⟨path, file, isPath, found, rfl⟩
    rw [derive_concept_id] at isId
    subst isId
    rcases mem_walkBundle.mp walked with ⟨listedFile, -, listed⟩
    obtain same : listedFile.path = path :=
      Option.some.inj ((normalComponents_of_listedId listed).symm.trans isPath)
    rw [same] at listed
    have read : bundle.read path = some file.contents := congrArg (Option.map BundleFile.contents) found
    rw [contentsOf_of_listed listed, read]
    rfl
  | none =>
    cases found : contentsOf bundle id with
    | none => rfl
    | some contents =>
      rcases contentsOf_eq_some_iff.mp found with ⟨path, listed, read⟩
      rcases mem_files_of_read read with ⟨file, mem, rfl, rfl⟩
      have isNote : derive host id file.contents file.modified ∈ (scanBundle host bundle).notes :=
        List.mem_filterMap.mpr ⟨id, mem_walkBundle.mpr ⟨file, mem, listed⟩, readNote_of_listed mem listed⟩
      exact absurd (decide_eq_true rfl) (List.find?_eq_none.mp scanned _ isNote)

/-- A rebuild makes the index mirror the disk. -/
theorem mirrors_of_rebuild (ok : db.Consistent)
    (written : db.writeScannedBundle host.title_lookup_key workspace_id (scanBundle host bundle) = some db') :
    Mirrors host workspace_id bundle db' := by
  intro id
  rw [Database.rowsOf_writeScannedBundle ok written, find?_scanBundle]
  unfold shownRows
  cases contentsOf bundle id with
  | none => rfl
  | some contents => rfl

/-! ## The transaction of a plan -/

namespace Database

variable {key : NoteKey} {title_lookup_key : Text → Text}

theorem consistent_updateAll (ok : db.Consistent) (remap : List (ConceptId × ConceptId)) :
    (remap.foldl (fun (db : Database) renamed => db.updateLinkTargets workspace_id renamed.1 renamed.2)
      db).Consistent := by
  induction remap generalizing db with
  | nil => exact ok
  | cons renamed rest ih => exact ih (ok.updateLinkTargets _ _ _)

/-- The rows of a Note that links to no renamed id stay as they are. -/
theorem rowsOf_updateAll (remap : List (ConceptId × ConceptId))
    (unlinked : ∀ renamed ∈ remap, (db.rowsOf (workspace_id, id)).links renamed.1 = none) :
    (remap.foldl (fun (db : Database) renamed => db.updateLinkTargets workspace_id renamed.1 renamed.2)
      db).rowsOf (workspace_id, id) = db.rowsOf (workspace_id, id) := by
  induction remap generalizing db with
  | nil => rfl
  | cons renamed rest ih =>
    have first : (db.updateLinkTargets workspace_id renamed.1 renamed.2).rowsOf (workspace_id, id) =
        db.rowsOf (workspace_id, id) := by
      apply rowsOf_updateLinkTargets
      intro link mem isSource _ isTarget
      have missing := unlinked renamed List.mem_cons_self
      have absent := Table.find?_eq_none_iff.mp (Option.map_eq_none_iff.mp missing) link mem
      apply absent
      rw [← isTarget, ← isSource]
      rfl
    rw [List.foldl_cons, ih, first]
    intro other mem
    rw [first]
    exact unlinked other (List.mem_cons_of_mem _ mem)

theorem consistent_removeAll (ok : db.Consistent) (ids : List ConceptId) :
    (ids.foldl (fun (db : Database) id => db.removeNoteRows workspace_id id) db).Consistent := by
  induction ids generalizing db with
  | nil => exact ok
  | cons first rest ih => exact ih (ok.removeRows _)

theorem rowsOf_removeNoteRows (ok : db.Consistent) (removed id : ConceptId) :
    (db.removeNoteRows workspace_id removed).rowsOf (workspace_id, id) =
      if id = removed then .none else db.rowsOf (workspace_id, id) := by
  unfold removeNoteRows
  rw [rowsOf_removeRows ok]
  by_cases same : id = removed
  · rw [if_pos same, if_pos (decide_eq_true (congrArg (Prod.mk workspace_id) same))]
  · rw [if_neg same, if_neg]
    intro isKey
    exact same (Prod.mk.inj (of_decide_eq_true isKey)).2

theorem rowsOf_removeAll (ok : db.Consistent) (ids : List ConceptId) :
    (ids.foldl (fun (db : Database) id => db.removeNoteRows workspace_id id) db).rowsOf
        (workspace_id, id) =
      if id ∈ ids then .none else db.rowsOf (workspace_id, id) := by
  induction ids generalizing db with
  | nil => exact (if_neg List.not_mem_nil).symm
  | cons first rest ih =>
    have next : (db.removeNoteRows workspace_id first).Consistent := ok.removeRows _
    rw [List.foldl_cons, ih next, rowsOf_removeNoteRows ok]
    by_cases inside : id ∈ rest
    · rw [if_pos inside, if_pos (List.mem_cons_of_mem _ inside)]
    · rw [if_neg inside]
      by_cases same : id = first
      · rw [if_pos same, if_pos (same ▸ List.mem_cons_self)]
      · rw [if_neg same, if_neg]
        intro mem
        rcases List.mem_cons.mp mem with isFirst | isRest
        · exact same isFirst
        · exact inside isRest

/-- A Note has the rows of what was derived for it last, or keeps its own. -/
theorem rowsOf_writeAll {indexed : List IndexedNote} (ok : db.Consistent)
    (written : indexed.foldlM (fun db note => writeNoteRows title_lookup_key db workspace_id note) db =
      some db') :
    (∃ note ∈ indexed, note.concept_id = id ∧
        db'.rowsOf (workspace_id, id) = .derived title_lookup_key note) ∨
      (∀ note ∈ indexed, note.concept_id ≠ id) ∧
        db'.rowsOf (workspace_id, id) = db.rowsOf (workspace_id, id) := by
  induction indexed generalizing db with
  | nil =>
    obtain rfl := Option.some.inj written
    exact Or.inr ⟨fun note mem => absurd mem List.not_mem_nil, rfl⟩
  | cons first rest ih =>
    rw [List.foldlM_cons, Option.bind_eq_bind] at written
    rcases Option.bind_eq_some_iff.mp written with ⟨next, head, tail⟩
    rcases ih (ok.writeNoteRows head) tail with ⟨note, mem, isId, rows⟩ | ⟨others, rows⟩
    · exact Or.inl ⟨note, List.mem_cons_of_mem _ mem, isId, rows⟩
    · rw [rowsOf_writeNoteRows ok head] at rows
      by_cases isId : first.concept_id = id
      · rw [if_pos (congrArg (Prod.mk workspace_id) isId)] at rows
        exact Or.inl ⟨first, List.mem_cons_self, isId, rows⟩
      · rw [if_neg fun same => isId (Prod.mk.inj same).2] at rows
        refine Or.inr ⟨?_, rows⟩
        intro note mem
        rcases List.mem_cons.mp mem with rfl | mem
        · exact isId
        · exact others note mem

end Database

end Burlmd.Index
