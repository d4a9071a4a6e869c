import Burlmd.Lifecycle.IndexMirrored

/-!
# Deletions keep the mirror

What a deletion puts aside has a name that the walk does not list, so the index mirrors the disk
as soon as the rows are gone, whether the trash can be removed or not.
-/

namespace Burlmd.Lifecycle

open Workspace
open Utf8 (Text)
open Okf (ConceptId)
open Index (WorkspaceId Database Named Mirrors contentsOf listedId contentsOf_of_listed)
open Checked

variable {host : Host} {workspace_id : WorkspaceId} {core core' : Core} {now : Int} {bundle bundle' : Bundle}
  {source path : Path} {id : ConceptId} {directory : Text}

/-! ## Files away from the trash -/

/-- No file is listed that is under the name of the trash. -/
theorem outside_of_listed {pid next : Nat} (listed : listedId path = some id) :
    ¬ asideOf source pid next <+: path := by
  intro under
  rcases listedId_eq_some_iff.mp listed with ⟨levels, name, -, visible, -⟩
  have inside : (⟨trashName source.getLast? pid next, nameable_trashName source pid next⟩ : Name) ∈ path :=
    under.subset (List.mem_append_right _ List.mem_cons_self)
  have shown := hidden_eq_false_iff.mp (visible _ inside)
  exact shown (hidden_of_scratch (Or.inl (is_scratch_trashName source.getLast? pid next).1))

theorem contentsOf_of_away {pid next : Nat} {clean : Prop}
    (away : Away (asideOf source pid next) clean bundle.entry bundle'.entry) (id : ConceptId) :
    contentsOf bundle' id = contentsOf bundle id := by
  apply Index.contentsOf_congr
  intro other listed
  have outside : ¬ asideOf source pid next <+: other := outside_of_listed listed
  have below : other ≠ [] := by
    rintro rfl
    cases listed
  apply read_of_entry below
  have same := congrFun away.1 other
  unfold PathTree.prune at same
  rw [if_neg outside, if_neg outside] at same
  exact same

/-! ## The rows -/

section Rows

variable {db : Database}

theorem rowsOf_clearDrafts (ok : db.Consistent) (ids : List ConceptId) :
    (ids.foldl (fun (db : Database) id => db.clearDraft workspace_id id) db).Consistent ∧
      (ids.foldl (fun (db : Database) id => db.clearDraft workspace_id id) db).rowsOf = db.rowsOf := by
  induction ids generalizing db with
  | nil => exact ⟨ok, rfl⟩
  | cons first rest ih => exact @ih (db.clearDraft workspace_id first) (ok.with_drafts _)

theorem rowsOf_removeContents (ok : db.Consistent) (ids : List ConceptId) (id : ConceptId) :
    (ids.foldl (fun (db : Database) id => (db.removeNoteRows workspace_id id).clearDraft workspace_id id)
        db).Consistent ∧
      (ids.foldl (fun (db : Database) id => (db.removeNoteRows workspace_id id).clearDraft workspace_id id)
        db).rowsOf (workspace_id, id) = if id ∈ ids then .none else db.rowsOf (workspace_id, id) := by
  induction ids generalizing db with
  | nil => exact ⟨ok, (if_neg List.not_mem_nil).symm⟩
  | cons first rest ih =>
    have next : ((db.removeNoteRows workspace_id first).clearDraft workspace_id first).Consistent :=
      (ok.removeRows _).with_drafts _
    have own : ((db.removeNoteRows workspace_id first).clearDraft workspace_id first).rowsOf (workspace_id, id) =
        if id = first then .none else db.rowsOf (workspace_id, id) :=
      Index.Database.rowsOf_removeNoteRows ok first id
    rcases ih next with ⟨consistent, rows⟩
    refine ⟨consistent, rows.trans ?_⟩
    rw [own]
    by_cases inside : id ∈ rest
    · rw [if_pos inside, if_pos (List.mem_cons_of_mem _ inside)]
    · rw [if_neg inside]
      by_cases same : id = first
      · rw [if_pos same, if_pos (same ▸ List.mem_cons_self)]
      · rw [if_neg same, if_neg]
        exact fun mem => (List.mem_cons.mp mem).elim same inside

theorem rowsOf_deleteContents (ok : db.Consistent) (removed orphaned_drafts : List ConceptId)
    (id : ConceptId) :
    (deleteContents workspace_id db directory removed orphaned_drafts).Consistent ∧
      (deleteContents workspace_id db directory removed orphaned_drafts).rowsOf (workspace_id, id) =
        if id ∈ removed then .none else db.rowsOf (workspace_id, id) := by
  rcases @rowsOf_removeContents workspace_id db ok removed id with ⟨dropped, rows⟩
  rcases @rowsOf_clearDrafts workspace_id _ dropped orphaned_drafts with ⟨cleared, same⟩
  exact ⟨cleared.with_directories _, (congrFun same _).trans rows⟩

end Rows

/-! ## The deletions in one piece -/

theorem deleteNoteAt_mirrors {note_id : ConceptId} (consistent : core.db.Consistent)
    (mirrors : Mirrors host workspace_id core.bundle core.db) (named : Named note_id)
    (deleted : deleteNoteAt host workspace_id core note_id .none = .ok core') :
    core'.db.Consistent ∧ Mirrors host workspace_id core'.bundle core'.db := by
  unfold deleteNoteAt at deleted
  rcases bind_eq_ok.mp deleted with ⟨path, isPath, deleted⟩
  have listed := listed_of_notePath named isPath
  split_ifs at deleted with draftOnly other
  · unfold deleteOrphanedDraft at deleted
    rcases bind_eq_ok.mp deleted with ⟨⟨⟩, -, deleted⟩
    split_ifs at deleted
    obtain rfl := Except.ok.inj deleted
    exact ⟨consistent.with_drafts _, mirrors.congr (fun _ => rfl) fun _ => rfl⟩
  · rcases bind_eq_ok.mp deleted with ⟨⟨⟩, -, deleted⟩
    rcases bind_eq_ok.mp deleted with ⟨⟨⟩, -, deleted⟩
    obtain rfl := Except.ok.inj deleted
    refine ⟨(consistent.removeRows _).with_drafts _, fun id => ?_⟩
    have rows : (((core.db.removeNoteRows workspace_id note_id).clearDraft workspace_id note_id)).rowsOf
        (workspace_id, id) = if id = note_id then .none else core.db.rowsOf (workspace_id, id) :=
      Index.Database.rowsOf_removeNoteRows consistent note_id id
    refine rows.trans ?_
    by_cases same : id = note_id
    · subst same
      have gone : (core.bundle.removeFile path).read path = none := by
        apply Bundle.read_eq_none_iff.mpr
        intro other mem isOther
        exact of_decide_eq_false (Table.mem_delete.mp mem).2 isOther
      rw [if_pos rfl]
      exact (Index.shownRows_of_missing ((contentsOf_of_listed listed).trans gone)).symm
    · rw [if_neg same, mirrors id]
      apply Index.shownRows_congr
      symm
      apply Index.contentsOf_congr
      intro other isOther
      apply Bundle.read_unlink
      rintro rfl
      exact same (Option.some.inj (isOther.symm.trans listed))

/-- No file is where only a directory may be. -/
theorem read_of_directory (onDisk : OnDisk bundle) (below : path ≠ [])
    (isDirectory : ¬(bundle.exists_ path && !bundle.isDir path) = true) : bundle.read path = none := by
  cases found : bundle.file? path with
  | none =>
    unfold Bundle.read
    rw [found]
    rfl
  | some file =>
    have present : bundle.exists_ path = true := by
      unfold Bundle.exists_ Bundle.isFile
      rw [found]
      rfl
    rw [present, Bool.true_and, Bool.not_eq_true', Bool.not_eq_false] at isDirectory
    unfold Bundle.isDir at isDirectory
    rcases Bool.or_eq_true_iff.mp isDirectory with isRoot | mem
    · exact absurd (of_decide_eq_true isRoot) below
    · exact onDisk.single path (of_decide_eq_true mem)

theorem deleteDirectoryAt_mirrors {named : Text} {removed : List ConceptId} (onDisk : OnDisk core.bundle)
    (consistent : core.db.Consistent) (mirrors : Mirrors host workspace_id core.bundle core.db)
    (deleted : deleteDirectoryAt host workspace_id core named .none = .ok (removed, core')) :
    core'.db.Consistent ∧ Mirrors host workspace_id core'.bundle core'.db := by
  unfold deleteDirectoryAt at deleted
  rcases bind_eq_ok.mp deleted with ⟨directory, normalized, deleted⟩
  split_ifs at deleted with root
  rcases bind_eq_ok.mp deleted with ⟨absolute, isPath, deleted⟩
  dsimp only at deleted
  split_ifs at deleted with missing other
  rcases bind_eq_ok.mp deleted with ⟨⟨⟩, -, deleted⟩
  rcases bind_eq_ok.mp deleted with ⟨⟨⟩, -, deleted⟩
  obtain ⟨-, rfl⟩ := Prod.mk.inj (Except.ok.inj deleted)
  rcases joinPath_of_directoryAbsolute (normalizeDirectory_iff.mp normalized).2.2 root isPath with
    ⟨spelled, below, shown⟩
  have folder := read_of_directory onDisk below other
  have rows := fun id => @rowsOf_deleteContents workspace_id directory core.db consistent
    (contents workspace_id core.db directory).1 (contents workspace_id core.db directory).2 id
  rw [discardSessions_db, bundle_discard]
  refine ⟨(rows []).1, fun id => (rows id).2.trans ?_⟩
  have away {path : Path} (outside : ¬ absolute <+: path) (inside : path ≠ []) :
      (core.bundle.removeTree absolute).read path = core.bundle.read path := by
    apply read_of_entry inside
    rw [Bundle.removeTree_spec.2 below]
    unfold PathTree.prune
    exact if_neg outside
  have gone {path : Path} (under : absolute <+: path) : (core.bundle.removeTree absolute).read path = none := by
    apply Bundle.read_eq_none_iff.mpr
    intro file mem isFile
    exact Bundle.removeTree_spec.1.files file mem (isFile ▸ under)
  by_cases named : Named id
  · rcases named with ⟨path, listed⟩
    have inside : path ≠ [] := by
      rintro rfl
      cases listed
    by_cases under : absolute <+: path
    · have lost : contentsOf (core.bundle.removeTree absolute) id = none :=
        (contentsOf_of_listed listed).trans (gone under)
      rw [Index.shownRows_of_missing lost]
      by_cases mem : id ∈ (contents workspace_id core.db directory).1
      · exact if_pos mem
      · rw [if_neg mem]
        apply mirrors.rows_iff.mpr
        by_contra present
        apply mem
        rcases under with ⟨rest, rfl⟩
        have more : rest ≠ [] := by
          rintro rfl
          rw [contentsOf_of_listed listed, List.append_nil] at present
          exact present folder
        rcases listed_relocated listed below below more shown with ⟨tail, rfl, -⟩
        refine mem_withPrefix.mpr ⟨?_, ?_⟩
        · exact mem_noteIds_iff.mpr (mirrors.noteExists_iff.mpr (Option.isSome_iff_ne_none.mpr present))
        · exact ⟨tail, by rw [spelled, List.append_assoc, List.singleton_append]⟩
    · have kept : contentsOf (core.bundle.removeTree absolute) id = contentsOf core.bundle id := by
        rw [contentsOf_of_listed listed, contentsOf_of_listed listed]
        exact away under inside
      rw [Index.shownRows_congr kept, ← mirrors id]
      apply if_neg
      intro mem
      rcases (mem_withPrefix.mp mem).2 with ⟨tail, isId⟩
      rw [List.append_assoc, List.singleton_append, ← spelled] at isId
      rcases below_of_listed (isId ▸ listed) below with ⟨rest, -, isPath⟩
      exact under ⟨rest, isPath.symm⟩
  · have missing (bundle : Bundle) := @Index.contentsOf_of_unnamed bundle id named
    rw [Index.shownRows_of_missing (missing _), mirrors.rows_iff.mpr (missing _), ite_self]

/-! ## The deletions call by call -/

/-- However its calls end, a deletion leaves an index that mirrors the disk, unless it fails and cannot
put back what it put aside. -/
theorem deletion_mirrors (onDisk : OnDisk core.bundle) (consistent : core.db.Consistent)
    (mirrors : Mirrors host workspace_id core.bundle core.db) (deletion : Deletion)
    (named : ∀ note_id, deletion = .note note_id → Named note_id) (pid next : Nat) (now : Int)
    (faults : DeletionFaults)
    (settled : ∀ error, (deletion.run host workspace_id core pid next now faults).2 = .error error →
      faults.settle_refusals = []) :
    (deletion.run host workspace_id core pid next now faults).1.db.Consistent ∧
      Mirrors host workspace_id (deletion.run host workspace_id core pid next now faults).1.bundle
        (deletion.run host workspace_id core pid next now faults).1.db := by
  have settles : deletion.Settles host workspace_id core pid next now faults := by
    cases deletion with
    | note note_id => exact note_settles onDisk note_id pid next faults
    | directory path => exact directory_settles onDisk path pid next faults
  unfold Deletion.Settles at settles
  cases isTarget : deletion.target host core.bundle with
  | error error =>
    rw [isTarget] at settles
    rw [settles.1]
    exact ⟨consistent, mirrors⟩
  | ok path =>
    rw [isTarget] at settles
    dsimp only at settles
    cases ran : deletion.run host workspace_id core pid next now faults with
    | mk after answer =>
      rw [ran] at settles settled
      cases answer with
      | ok terminal =>
        rcases settles with ⟨whole, performed, sameDb, -, away, -⟩
        have kept : whole.db.Consistent ∧ Mirrors host workspace_id whole.bundle whole.db := by
          cases deletion with
          | note note_id =>
            unfold Deletion.operation Operation.perform deleteNoteLocked at performed
            dsimp only at performed
            cases deleted : deleteNoteAt host workspace_id core note_id .none with
            | error error =>
              rw [deleted] at performed
              cases (Prod.mk.inj performed).2
            | ok core' =>
              rw [deleted] at performed
              obtain rfl := (Prod.mk.inj performed).1
              exact deleteNoteAt_mirrors consistent mirrors (named note_id rfl) deleted
          | directory path =>
            unfold Deletion.operation Operation.perform deleteDirectoryLocked at performed
            dsimp only at performed
            cases deleted : deleteDirectoryAt host workspace_id core path .none with
            | error error =>
              rw [deleted] at performed
              cases (Prod.mk.inj performed).2
            | ok answer =>
              rw [deleted] at performed
              obtain rfl := (Prod.mk.inj performed).1
              exact deleteDirectoryAt_mirrors onDisk consistent mirrors deleted
        dsimp only
        rw [sameDb]
        exact ⟨kept.1, kept.2.congr (contentsOf_of_away away) fun _ => rfl⟩
      | error error =>
        rcases settles with ⟨sameDb, -, -, away, -⟩
        dsimp only
        rw [sameDb]
        exact ⟨consistent, mirrors.congr (contentsOf_of_away (away (settled error rfl))) fun _ => rfl⟩

/-- A deletion whose trash stays. -/
theorem deletion_mirrors_parked : Mirrors emptyLabelHost ['w']
    ((Deletion.note ['m']).run emptyLabelHost ['w'] emptyLabelCore 1 0 1
      ⟨[], [some ⟨false, "busy".toList⟩], none, none⟩).1.bundle
    ((Deletion.note ['m']).run emptyLabelHost ['w'] emptyLabelCore 1 0 1
      ⟨[], [some ⟨false, "busy".toList⟩], none, none⟩).1.db := by
  have done : ((Deletion.note ['m']).run emptyLabelHost ['w'] emptyLabelCore 1 0 1
      ⟨[], [some ⟨false, "busy".toList⟩], none, none⟩).2.toBool = true := by decide +kernel
  refine (deletion_mirrors tree_emptyLabelBundle.onDisk consistent_emptyLabelIndex mirrors_emptyLabelIndex _ ?_ 1 0 1 _
    ?_).2
  · rintro note_id same
    obtain rfl := Deletion.note.inj same
    exact named_linked
  · intro error failed
    rw [failed] at done
    cases done

end Burlmd.Lifecycle
