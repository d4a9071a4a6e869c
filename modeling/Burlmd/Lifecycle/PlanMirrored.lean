import Burlmd.Index.Mirror
import Burlmd.Lifecycle.AllOrNothing
import Burlmd.Lifecycle.Deletion
import Burlmd.Lifecycle.EveryLink
import Burlmd.Lifecycle.FilesKept

/-!
# A plan keeps the mirror

What a plan does to the files and what it does to the rows is the same, Note by Note: the Notes
it affects have the rows of the text it wrote, the Notes that go elsewhere leave no row behind,
and no other file and no other row changes.
-/

namespace Burlmd.Lifecycle

open Workspace
open Markdown
open Burlmd.Snapshot (NamesCarried notePath_of_listed)
open Utf8 (Text)
open Okf (ConceptId containingDir)
open Index (WorkspaceId Database IndexedNote Named Mirrors contentsOf listedId contentsOf_of_listed
  contentsOf_eq_some_iff normalComponents_of_listedId treeTargets_account)
open Checked

variable {host : Host} {workspace_id : WorkspaceId} {plan : Reidentify} {core core' : Core} {now : Int}
  {affected : List Affected} {bundle : Bundle} {source target path : Path} {id : ConceptId}

/-- A bundle that a file system holds, with names that a program can write. -/
structure Tree (bundle : Bundle) : Prop where
  rooted : Rooted bundle
  onDisk : OnDisk bundle
  carried : NamesCarried bundle

theorem listed_of_notePath (named : Named id) (isPath : notePath host bundle id = .ok path) :
    listedId path = some id := by
  rcases named with ⟨other, listed⟩
  obtain same : other = path := Option.some.inj
    ((normalComponents_of_listedId listed).symm.trans (normalComponents_of_notePath isPath))
  exact same ▸ listed

/-! ## The texts -/

theorem read_putTexts {a : Affected} (distinct : (affected.map Affected.old_path).Nodup) (mem : a ∈ affected) :
    (putTexts now bundle affected).read a.old_path =
      (a.new_file.map FileBytes.text).or (bundle.read a.old_path) := by
  unfold putTexts
  induction affected generalizing bundle with
  | nil => cases mem
  | cons first rest ih =>
    rcases List.nodup_cons.mp distinct with ⟨fresh, distinct⟩
    rw [List.foldl_cons]
    rcases List.mem_cons.mp mem with rfl | inside
    · have others : ∀ b ∈ rest, b.new_file.isSome → b.old_path ≠ a.old_path := by
        intro b mem _ same
        exact fresh (same ▸ List.mem_map_of_mem mem)
      have kept := @read_putTexts_other rest now
        (a.new_file.elim bundle fun text => bundle.atomicWrite a.old_path (.text text) now) a.old_path others
      unfold putTexts at kept
      rw [kept]
      cases a.new_file with
      | none => rfl
      | some text =>
        rw [Option.elim_some, Bundle.read_atomicWrite, if_pos rfl]
        rfl
    · have apart : a.old_path ≠ first.old_path := by
        intro same
        exact fresh (same ▸ List.mem_map_of_mem inside)
      rw [ih distinct inside]
      cases first.new_file with
      | none => rfl
      | some text => rw [Option.elim_some, Bundle.read_atomicWrite, if_neg apart]

/-! ## The moves -/

/-- What a plan moves, said of the Notes: they follow the entry that moves, and the plan knows of
every Note that does. -/
structure Carries (bundle : Bundle) (affected : List Affected) (source target : Path) : Prop where
  vacant : bundle.Vacant target
  follows : ∀ a ∈ affected, a.on_disk = true → a.new_path = Bundle.relocate source target a.old_path
  complete : ∀ path contents, source <+: path → bundle.read path = some contents →
    (listedId path).isSome ∨ (listedId (Bundle.relocate source target path)).isSome →
    ∃ a ∈ affected, a.old_path = path

/-- The ids of the affected Notes are those that the walk lists their files under. -/
structure Spells (affected : List Affected) : Prop where
  old : ∀ a ∈ affected, listedId a.old_path = some a.old_id
  new : ∀ a ∈ affected, listedId a.new_path = some a.new_id
  distinct : (affected.map Affected.old_id).Nodup

/-- An affected Note has its file on disk exactly when it says so. -/
def Files (bundle : Bundle) (affected : List Affected) : Prop :=
  ∀ a ∈ affected, (a.on_disk = true → ∃ text, bundle.read a.old_path = some (.text text)) ∧
    (a.on_disk = false → bundle.read a.old_path = none ∧ a.new_file = none)

/-- What a plan has made of the files. -/
structure Lands (bundle bundle' : Bundle) (affected : List Affected) : Prop where
  written : ∀ a ∈ affected, ∀ text, bundle.read a.old_path = some (.text text) →
    contentsOf bundle' a.new_id = some (.text (a.new_file.getD text))
  gone : ∀ id, (∀ a ∈ affected, a.on_disk = true → a.new_id ≠ id) →
    (∃ a ∈ affected, a.old_id = id ∧ a.old_id ≠ a.new_id) → contentsOf bundle' id = none
  kept : ∀ id, (∀ a ∈ affected, a.on_disk = true → a.new_id ≠ id) →
    (∀ a ∈ affected, a.old_id = id → a.old_id = a.new_id) → contentsOf bundle' id = contentsOf bundle id

theorem Spells.distinctPaths (spells : Spells affected) : (affected.map Affected.old_path).Nodup := by
  apply List.Nodup.of_map listedId
  have same : (affected.map Affected.old_path).map listedId = (affected.map Affected.old_id).map some := by
    rw [List.map_map, List.map_map]
    apply List.map_congr_left
    intro a mem
    exact spells.old a mem
  rw [same]
  exact spells.distinct.map (Option.some_injective _)

/-- Where the texts have been put. -/
theorem read_putTexts_of_text (spells : Spells affected) {a : Affected} {text : Text} (mem : a ∈ affected)
    (read : bundle.read a.old_path = some (.text text)) :
    (putTexts now bundle affected).read a.old_path = some (.text (a.new_file.getD text)) := by
  rw [read_putTexts spells.distinctPaths mem, read]
  cases a.new_file with
  | none => rfl
  | some text => rfl

theorem onDisk_of_new (files : Files bundle affected) {a : Affected} (mem : a ∈ affected)
    (isSome : a.new_file.isSome) : a.on_disk = true := by
  by_contra absent
  rw [((files a mem).2 (Bool.not_eq_true _ ▸ absent)).2] at isSome
  cases isSome

/-- Only Notes that have a file are given another text. -/
theorem read_putTexts_eq_none (spells : Spells affected) (files : Files bundle affected) :
    (putTexts now bundle affected).read path = none ↔ bundle.read path = none := by
  by_cases rewritten : ∃ a ∈ affected, a.new_file.isSome ∧ a.old_path = path
  · rcases rewritten with ⟨a, mem, isSome, rfl⟩
    rcases (files a mem).1 (onDisk_of_new files mem isSome) with ⟨text, read⟩
    rw [read_putTexts_of_text spells mem read, read]
    exact ⟨fun isNone => (by cases isNone), fun isNone => by cases isNone⟩
  · rw [read_putTexts_other]
    intro a mem isSome same
    exact rewritten ⟨a, mem, isSome, same⟩

theorem onDisk_of_read (files : Files bundle affected) {a : Affected} (mem : a ∈ affected)
    (read : bundle.read a.old_path ≠ none) : a.on_disk = true := by
  by_contra absent
  exact read ((files a mem).2 (Bool.not_eq_true _ ▸ absent)).1

/-- A move takes the Notes along that the plan affects. -/
theorem lands_of_carries {staged : Bundle} (spells : Spells affected) (files : Files bundle affected)
    (carries : Carries bundle affected source target) (vacant : staged.Vacant target)
    (same : ∀ path, staged.read path = (putTexts now bundle affected).read path) :
    Lands bundle (staged.rename source target) affected := by
  have free {other : Path} (under : target <+: other) : bundle.read other = none := by
    apply Bundle.read_eq_none_iff.mpr
    intro file mem isPath
    exact carries.vacant.files file mem (isPath ▸ under)
  -- what is under the target afterwards was under the source, so the plan has moved it there
  have arrived {id : ConceptId} {other : Path} (listed : listedId other = some id) (under : target <+: other)
      (others : ∀ a ∈ affected, a.on_disk = true → a.new_id ≠ id) :
      (putTexts now bundle affected).read (source ++ other.drop target.length) = none := by
    rcases under with ⟨rest, rfl⟩
    rw [List.drop_left, read_putTexts_eq_none spells files]
    cases read : bundle.read (source ++ rest) with
    | none => rfl
    | some contents =>
      have seen : (listedId (Bundle.relocate source target (source ++ rest))).isSome := by
        rw [Bundle.relocate_below, listed]
        rfl
      rcases carries.complete _ contents (List.prefix_append _ _) read (Or.inr seen) with ⟨a, mem, isPath⟩
      have onDisk := onDisk_of_read files mem (by rw [isPath, read]; exact Option.some_ne_none _)
      have isNew := spells.new a mem
      rw [carries.follows a mem onDisk, isPath, Bundle.relocate_below, listed] at isNew
      exact absurd (Option.some.inj isNew).symm (others a mem onDisk)
  constructor
  · intro a mem text read
    have onDisk := onDisk_of_read files mem (by rw [read]; exact Option.some_ne_none _)
    rw [contentsOf_of_listed (spells.new a mem), carries.follows a mem onDisk, Bundle.read_rename vacant.files, same, same]
    have outside : ¬ target <+: a.old_path := by
      intro under
      rw [free under] at read
      cases read
    by_cases inside : source <+: a.old_path
    · rcases inside with ⟨rest, isPath⟩
      rw [← isPath, Bundle.relocate_below, if_pos (List.prefix_append _ _), List.drop_left, isPath]
      exact read_putTexts_of_text spells mem read
    · rw [Bundle.relocate_other inside, if_neg outside, if_neg inside]
      exact read_putTexts_of_text spells mem read
  · rintro id others ⟨a, mem, rfl, moved⟩
    have listed := spells.old a mem
    rw [contentsOf_of_listed listed, Bundle.read_rename vacant.files, same, same]
    by_cases under : target <+: a.old_path
    · rw [if_pos under]
      exact arrived listed under others
    · rw [if_neg under]
      by_cases inside : source <+: a.old_path
      · exact if_pos inside
      · rw [if_neg inside, read_putTexts_eq_none spells files]
        by_contra present
        have stays := carries.follows a mem (onDisk_of_read files mem present)
        rw [Bundle.relocate_other inside] at stays
        have isNew := spells.new a mem
        rw [stays, listed] at isNew
        exact absurd (Option.some.inj isNew) moved
  · intro id others still
    apply Index.contentsOf_congr
    intro other listed
    rw [Bundle.read_rename vacant.files, same, same]
    by_cases under : target <+: other
    · rw [if_pos under, free under]
      exact arrived listed under others
    · rw [if_neg under]
      have known {a : Affected} (mem : a ∈ affected) (isPath : a.old_path = other) :
          a.old_id = id := by
        have isOld := spells.old a mem
        rw [isPath, listed] at isOld
        exact (Option.some.inj isOld).symm
      by_cases inside : source <+: other
      · rw [if_pos inside]
        cases read : bundle.read other with
        | none => rfl
        | some contents =>
          have seen : (listedId other).isSome := Option.isSome_of_eq_some listed
          rcases carries.complete other contents inside read (Or.inl seen) with ⟨a, mem, isPath⟩
          have sameId := still a mem (known mem isPath)
          have isNew := spells.new a mem
          rw [← sameId, known mem isPath] at isNew
          have stays := Index.listedId_injective listed isNew
          have onDisk := onDisk_of_read files mem (by rw [isPath, read]; exact Option.some_ne_none _)
          rw [carries.follows a mem onDisk, isPath] at stays
          rcases inside with ⟨rest, rfl⟩
          rw [Bundle.relocate_below] at stays
          exact absurd ⟨rest, stays.symm⟩ under
      · rw [if_neg inside]
        apply read_putTexts_other
        intro a mem isSome isPath
        apply others a mem (onDisk_of_new files mem isSome)
        rw [← still a mem (known mem isPath)]
        exact known mem isPath

/-- Where nothing moves, the texts are all that changes. -/
theorem lands_of_still (spells : Spells affected) (files : Files bundle affected)
    (still : ∀ a ∈ affected, a.old_path = a.new_path) :
    Lands bundle (putTexts now bundle affected) affected := by
  have sameId : ∀ a ∈ affected, a.old_id = a.new_id := by
    intro a mem
    have isNew := spells.new a mem
    rw [← still a mem, spells.old a mem] at isNew
    exact Option.some.inj isNew
  constructor
  · intro a mem text read
    rw [contentsOf_of_listed (spells.new a mem), ← still a mem]
    exact read_putTexts_of_text spells mem read
  · rintro id others ⟨a, mem, rfl, moved⟩
    exact absurd (sameId a mem) moved
  · intro id others _
    apply Index.contentsOf_congr
    intro other listed
    apply read_putTexts_other
    intro a mem isSome isPath
    apply others a mem (onDisk_of_new files mem isSome)
    have isOld := spells.old a mem
    rw [isPath, listed] at isOld
    rw [← sameId a mem]
    exact (Option.some.inj isOld).symm

/-! ## The rows -/

/-- The parser reads every text as one well-nested stream. -/
def WellNested (host : Host) : Prop := ∀ source, ∃ stream : EventStream source, host.events source = stream.events

theorem files_of_plans (plans : Plans host workspace_id plan core affected) : Files core.bundle affected := by
  intro a mem
  rcases (plans.affects a mem).2 with ⟨disk, affects⟩
  have read := readSource_spec affects.read
  rw [affects.on_disk, read]
  cases disk with
  | some text => exact ⟨fun _ => ⟨text, rfl⟩, fun absent => by cases absent⟩
  | none =>
    have isNone := (Except.ok.inj affects.new_file).symm
    exact ⟨fun present => (by cases present), fun _ => ⟨rfl, isNone⟩⟩

/-- A Note that a plan does not affect links to no renamed id. -/
theorem unlinked_of_unaffected {contents : FileBytes} (wellNested : WellNested host)
    (plans : Plans host workspace_id plan core affected) (tree : Tree core.bundle)
    (mirrors : Mirrors host workspace_id core.bundle core.db) (found : contentsOf core.bundle id = some contents)
    (unaffected : ∀ a ∈ affected, a.old_id ≠ id) :
    ∀ renamed ∈ plan.remap, (core.db.rowsOf (workspace_id, id)).links renamed.1 = none := by
  intro renamed mem
  by_contra linked
  have source_mem : id ∈ core.db.linkSources workspace_id renamed.1 :=
    Database.mem_linkSources.mpr (Option.isSome_iff_ne_none.mpr linked)
  have candidate : id ∈ plan.candidates workspace_id core :=
    mem_candidates.mpr (Or.inr (Or.inl ⟨renamed, mem, source_mem⟩))
  rcases contentsOf_eq_some_iff.mp found with ⟨path, listed, read⟩
  rcases Index.mem_files_of_read read with ⟨file, onDisk, rfl, rfl⟩
  have isPath := @notePath_of_listed host _ _ _ tree.rooted tree.carried onDisk listed
  rcases plans.unchanged candidate isPath read with ⟨a, inside, same⟩ | ⟨-, text, isText, rewritten⟩
  · exact unaffected a inside same
  · have isSource : file.contents.fromUtf8 = some text := by
      rw [isText]
      rfl
    rcases wellNested text with ⟨stream, parsed⟩
    have silent := (rewriteLinkTargets_eq_none_iff parsed).mp (links_of_rewrite rewritten) renamed mem
    have recorded := (mem_linkSources_iff mirrors.agrees onDisk listed isSource parsed renamed.1).mp source_mem
    have account := @treeTargets_account (containingDir id) text stream renamed.1
    have positive := List.count_pos_iff.mpr recorded
    have zero := List.count_eq_zero.mpr silent
    omega

theorem carryDrafts_eq (db : Database) (affected : List Affected) :
    ∃ drafts, affected.foldl (carryDraft workspace_id now) db = { db with drafts } := by
  induction affected generalizing db with
  | nil => exact ⟨db.drafts, rfl⟩
  | cons a rest ih =>
    have carried : ∃ drafts, carryDraft workspace_id now db a = { db with drafts } := by
      unfold carryDraft
      split <;> cases a.new_draft <;> exact ⟨_, rfl⟩
    rcases carried with ⟨drafts, isCarried⟩
    rcases ih { db with drafts } with ⟨drafts', isRest⟩
    rw [List.foldl_cons, isCarried, isRest]
    exact ⟨drafts', rfl⟩

/-- The rows go where the files go. -/
theorem mirrors_of_lands {bundle' : Bundle} {db' : Database} {indexed : List IndexedNote}
    (wellNested : WellNested host) (plans : Plans host workspace_id plan core affected) (tree : Tree core.bundle)
    (consistent : core.db.Consistent) (mirrors : Mirrors host workspace_id core.bundle core.db)
    (spells : Spells affected) (lands : Lands core.bundle bundle' affected)
    (isIndexed : indexedNotes host bundle' affected = .ok indexed)
    (rewritten : rewriteIndex host workspace_id core.db plan affected indexed now = some db') :
    db'.Consistent ∧ Mirrors host workspace_id bundle' db' := by
  rcases rewriteIndex_spec rewritten with ⟨indexedDb, directories, folded, rfl⟩
  have files := files_of_plans plans
  rcases @carryDrafts_eq workspace_id now (plan.remap.foldl
    (fun db renamed => db.updateLinkTargets workspace_id renamed.1 renamed.2) core.db) affected with
    ⟨drafts, carried⟩
  rw [carried] at folded
  have moved : ∀ db : Database, (affected.filter fun a => a.old_id ≠ a.new_id).foldl
      (fun db a => db.removeNoteRows workspace_id a.old_id) db =
        ((affected.filter fun a => a.old_id ≠ a.new_id).map Affected.old_id).foldl
          (fun db id => db.removeNoteRows workspace_id id) db := fun db => List.foldl_map.symm
  rw [moved] at folded
  have updated := (@Database.consistent_updateAll workspace_id _ consistent plan.remap).with_drafts drafts
  have removed := @Database.consistent_removeAll workspace_id _ updated
    ((affected.filter fun a => a.old_id ≠ a.new_id).map Affected.old_id)
  refine ⟨(removed.writeAllNoteRows folded).with_directories directories, ?_⟩
  intro id
  rw [Index.Database.rowsOf_with_directories]
  rcases @Database.rowsOf_writeAll workspace_id _ _ id _ _ removed folded with
    ⟨note, mem, isId, rows⟩ | ⟨others, rows⟩
  · rw [rows]
    rcases (mem_of_mapM_eq_ok isIndexed).2 note mem with ⟨a, inside, isDerived⟩
    rcases List.mem_filter.mp inside with ⟨inside, onDisk⟩
    rcases bind_eq_ok.mp isDerived with ⟨source, isFinal, isDerived⟩
    cases isDerived
    obtain rfl : a.new_id = id := isId
    rcases (files a inside).1 onDisk with ⟨text, read⟩
    have landed := lands.written a inside text read
    have isSource : source = a.new_file.getD text := by
      unfold finalSource at isFinal
      cases isNew : a.new_file with
      | some rewritten =>
        rw [isNew] at isFinal
        exact (Except.ok.inj isFinal).symm
      | none =>
        rw [isNew] at isFinal landed
        rw [contentsOf_of_listed (spells.new a inside)] at landed
        rw [landed] at isFinal
        exact (Except.ok.inj isFinal).symm
    rw [Index.shownRows_of_contents landed, isSource]
    rfl
  · have elsewhere : ∀ a ∈ affected, a.on_disk = true → a.new_id ≠ id := by
      intro a mem onDisk same
      rcases (mem_of_mapM_eq_ok isIndexed).1 a (List.mem_filter.mpr ⟨mem, onDisk⟩) with
        ⟨note, inside, isDerived⟩
      rcases bind_eq_ok.mp isDerived with ⟨source, -, isDerived⟩
      cases isDerived
      exact others _ inside same
    rw [rows, Database.rowsOf_removeAll updated]
    by_cases leaves : ∃ a ∈ affected, a.old_id = id ∧ a.old_id ≠ a.new_id
    · rw [Index.shownRows_of_missing (lands.gone id elsewhere leaves)]
      rcases leaves with ⟨a, mem, isOld, moves⟩
      exact if_pos (List.mem_map.mpr ⟨a, List.mem_filter.mpr ⟨mem, decide_eq_true moves⟩, isOld⟩)
    · have still : ∀ a ∈ affected, a.old_id = id → a.old_id = a.new_id := by
        intro a mem isOld
        by_contra moves
        exact leaves ⟨a, mem, isOld, moves⟩
      have unmoved : id ∉ (affected.filter fun a => a.old_id ≠ a.new_id).map Affected.old_id := by
        intro mem
        rcases List.mem_map.mp mem with ⟨a, inside, isOld⟩
        rcases List.mem_filter.mp inside with ⟨inside, moves⟩
        exact of_decide_eq_true moves (still a inside isOld)
      have unlinked : ∀ renamed ∈ plan.remap, (core.db.rowsOf (workspace_id, id)).links renamed.1 = none := by
        cases found : contentsOf core.bundle id with
        | none =>
          intro renamed _
          rw [mirrors.rows_iff.mpr found]
          rfl
        | some contents =>
          apply unlinked_of_unaffected wellNested plans tree mirrors found
          rintro a mem rfl
          have onDisk := onDisk_of_read files mem (by
            rw [← contentsOf_of_listed (spells.old a mem), found]
            exact Option.some_ne_none _)
          exact elsewhere a mem onDisk (still a mem rfl).symm
      rw [if_neg unmoved, Index.Database.rowsOf_with_drafts, Database.rowsOf_updateAll _ unlinked, mirrors id,
        Index.shownRows_congr (lands.kept id elsewhere still)]

end Burlmd.Lifecycle
