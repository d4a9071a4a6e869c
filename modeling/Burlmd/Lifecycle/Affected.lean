import Burlmd.Library.Checked
import Burlmd.Lifecycle.Operations

/-!
# What a plan affects

One lemma says all that a plan does to a candidate; the list of affected Notes is then
known by its members and by the ids it leaves out.
-/

namespace Burlmd.Lifecycle

open Workspace
open Utf8 (Text)
open Okf (ConceptId)
open Index (WorkspaceId Database DraftRow)
open Checked

variable {host : Host} {workspace_id : WorkspaceId} {plan : Reidentify} {core : Core}

variable (host workspace_id plan core) in
/-- An affected Note, with the text its file held. -/
structure Affects (disk : Option Text) (a : Affected) : Prop where
  new_id : a.new_id = plan.newId a.old_id
  old_path : notePath host core.bundle a.old_id = .ok a.old_path
  new_path : notePath host core.bundle a.new_id = .ok a.new_path
  read : readSource host core.bundle a.old_path = .ok disk
  on_disk : a.on_disk = disk.isSome
  filed : disk = none → (plan.remap.lookup a.old_id).isSome → a.old_id ∈ plan.file_less
  new_file : rewriteOption (plan.rewrite host a.old_id) disk = .ok a.new_file
  new_buffer : rewriteOption (plan.rewrite host a.old_id)
    ((core.sessions.find? a.old_id).map NoteSession.source) = .ok a.new_buffer
  new_draft : rewriteOption (plan.rewrite host a.old_id)
    ((core.db.readDraft workspace_id a.old_id).map DraftRow.raw_markdown) = .ok a.new_draft
  held : disk.isSome ∨ (core.db.readDraft workspace_id a.old_id).isSome ∨
    (core.sessions.find? a.old_id).isSome
  changed : a.new_file.isSome ∨ a.new_buffer.isSome ∨ a.new_draft.isSome ∨ a.old_id ≠ a.new_id
  revision : a.revision = (FileBytes.text ((a.new_file.or disk).getD [])).hash host

variable (host workspace_id plan core) in
/-- Why a candidate is left out. -/
inductive Spared (old_id : ConceptId) : Prop
  | unresolved (error : AppError) (refused : plan.resolved host core.bundle old_id = .error error)
      (bystander : old_id ∉ plan.targets)
  | absent (paths : Path × Path) (resolves : plan.resolved host core.bundle old_id = .ok paths)
      (disk : readSource host core.bundle paths.1 = .ok none)
      (draft : core.db.readDraft workspace_id old_id = none)
      (session : core.sessions.find? old_id = none)
  | unchanged (paths : Path × Path) (disk : Option Text)
      (resolves : plan.resolved host core.bundle old_id = .ok paths)
      (read : readSource host core.bundle paths.1 = .ok disk)
      (file : rewriteOption (plan.rewrite host old_id) disk = .ok none)
      (buffer : rewriteOption (plan.rewrite host old_id)
        ((core.sessions.find? old_id).map NoteSession.source) = .ok none)
      (draft : rewriteOption (plan.rewrite host old_id)
        ((core.db.readDraft workspace_id old_id).map DraftRow.raw_markdown) = .ok none)
      (kept : plan.newId old_id = old_id)

theorem resolved_eq_ok {old_id : ConceptId} {old_path new_path : Path} :
    plan.resolved host core.bundle old_id = .ok (old_path, new_path) ↔
      notePath host core.bundle old_id = .ok old_path ∧
        notePath host core.bundle (plan.newId old_id) = .ok new_path := by
  unfold Reidentify.resolved
  constructor
  · intro resolves
    obtain ⟨old_path', isOld, rest⟩ := bind_eq_ok.mp resolves
    obtain ⟨new_path', isNew, same⟩ := bind_eq_ok.mp rest
    cases same
    exact ⟨isOld, isNew⟩
  · rintro ⟨isOld, isNew⟩
    rw [isOld, isNew]
    rfl

/-- What becomes of a candidate. -/
theorem affect_spec {old_id : ConceptId} {result : Option Affected}
    (affected : plan.affect host workspace_id core old_id = .ok result) :
    (∃ a disk, result = some a ∧ a.old_id = old_id ∧ Affects host workspace_id plan core disk a) ∨
      (result = none ∧ Spared host workspace_id plan core old_id) := by
  unfold Reidentify.affect at affected
  cases resolves : plan.resolved host core.bundle old_id with
  | error error =>
    simp only [resolves] at affected
    split at affected
    · cases affected
    · rename_i bystander
      cases affected
      exact .inr ⟨rfl, .unresolved error resolves bystander⟩
  | ok paths =>
    obtain ⟨old_path, new_path⟩ := paths
    simp only [resolves] at affected
    obtain ⟨isOld, isNew⟩ := resolved_eq_ok.mp resolves
    obtain ⟨disk, read, affected⟩ := bind_eq_ok.mp affected
    split at affected
    · cases affected
    · rename_i filed
      obtain ⟨new_file, file, affected⟩ := bind_eq_ok.mp affected
      obtain ⟨new_buffer, buffer, affected⟩ := bind_eq_ok.mp affected
      obtain ⟨new_draft, draft, affected⟩ := bind_eq_ok.mp affected
      split at affected
      · rename_i absent
        cases affected
        simp only [Bool.and_eq_true, Option.isNone_iff_eq_none, Option.map_eq_none_iff] at absent
        obtain ⟨⟨rfl, noDraft⟩, noSession⟩ := absent
        exact .inr ⟨rfl, .absent (old_path, new_path) resolves read noDraft noSession⟩
      · rename_i held
        split at affected
        · rename_i same
          cases affected
          simp only [Bool.and_eq_true, Option.isNone_iff_eq_none, decide_eq_true_eq] at same
          obtain ⟨⟨⟨rfl, rfl⟩, rfl⟩, kept⟩ := same
          exact .inr ⟨rfl, .unchanged (old_path, new_path) disk resolves read file buffer draft
            kept.symm⟩
        · rename_i changed
          cases affected
          refine .inl ⟨_, disk, rfl, rfl, ?_⟩
          exact {
            new_id := rfl
            old_path := isOld
            new_path := isNew
            read
            on_disk := rfl
            filed := by
              rintro rfl renamed
              by_contra listed
              exact filed (by simp [renamed, listed])
            new_file := file
            new_buffer := buffer
            new_draft := draft
            held := by
              by_contra absent
              simp only [not_or, Bool.not_eq_true, Option.isSome_eq_false_iff,
                Option.isNone_iff_eq_none] at absent
              obtain ⟨rfl, noDraft, noSession⟩ := absent
              exact held (by simp only [noDraft, noSession]; rfl)
            changed := by
              by_contra same
              simp only [not_or, Bool.not_eq_true, Option.isSome_eq_false_iff,
                Option.isNone_iff_eq_none, ne_eq, not_not] at same
              obtain ⟨rfl, rfl, rfl, kept⟩ := same
              exact changed (by simpa using kept)
            revision := rfl }

/-- The affected Notes of a plan that goes through. -/
structure Plans (host : Host) (workspace_id : WorkspaceId) (plan : Reidentify) (core : Core)
    (affected : List Affected) : Prop where
  distinct : (affected.map Affected.old_id).Nodup
  affects : ∀ a ∈ affected, a.old_id ∈ plan.candidates workspace_id core ∧
    ∃ disk, Affects host workspace_id plan core disk a
  spared : ∀ id ∈ plan.candidates workspace_id core, (∃ a ∈ affected, a.old_id = id) ∨
    Spared host workspace_id plan core id

theorem mem_draftNoteIds {db : Database} {id : ConceptId} :
    id ∈ db.draftNoteIds workspace_id ↔ (db.readDraft workspace_id id).isSome := by
  rw [Option.isSome_iff_exists, Database.draftNoteIds, Database.readDraft]
  simp only [List.mem_map, List.mem_filter, decide_eq_true_eq, Table.find?_eq_some_iff]
  constructor
  · rintro ⟨row, ⟨mem, rfl⟩, rfl⟩
    exact ⟨row, mem, rfl⟩
  · rintro ⟨row, mem, same⟩
    exact ⟨row, ⟨mem, congrArg Prod.fst same⟩, congrArg Prod.snd same⟩

theorem mem_candidates {id : ConceptId} :
    id ∈ plan.candidates workspace_id core ↔
      id ∈ plan.targets ∨ (∃ renamed ∈ plan.remap, id ∈ core.db.linkSources workspace_id renamed.1) ∨
        (core.db.readDraft workspace_id id).isSome ∨ (core.sessions.find? id).isSome := by
  have registered : id ∈ core.sessions.rows.map NoteSession.note_id ↔
      (core.sessions.find? id).isSome := by
    rw [Option.isSome_iff_exists]
    simp only [List.mem_map, Table.find?_eq_some_iff]
    rfl
  unfold Reidentify.candidates
  simp only [List.mem_insertionSort, List.mem_dedup, List.mem_append, List.mem_flatMap, mem_draftNoteIds,
    registered, or_assoc]

theorem planAffected_spec {affected : List Affected}
    (planned : plan.planAffected host workspace_id core = .ok affected) :
    Plans host workspace_id plan core affected := by
  obtain ⟨results, mapped, rfl⟩ := map_eq_ok.mp planned
  have unique : (plan.candidates workspace_id core).Nodup :=
    (List.perm_insertionSort _ _).nodup_iff.mpr (List.nodup_dedup _)
  have own : ∀ id a, plan.affect host workspace_id core id = .ok (some a) → a.old_id = id := by
    intro id a found
    rcases affect_spec found with ⟨_, _, isSome, same, -⟩ | ⟨isNone, -⟩
    · cases isSome
      exact same
    · cases isNone
  obtain ⟨listed, distinct⟩ := nodup_reduceOption_of_mapM own unique mapped
  obtain ⟨forward, backward⟩ := mem_of_mapM_eq_ok mapped
  refine ⟨distinct, fun a mem => ?_, fun id mem => ?_⟩
  · obtain ⟨id, -, found⟩ := backward _ (List.reduceOption_mem_iff.mp mem)
    refine ⟨listed.subset (List.mem_map_of_mem mem), ?_⟩
    rcases affect_spec found with ⟨_, disk, isSome, -, affects⟩ | ⟨isNone, -⟩
    · cases isSome
      exact ⟨disk, affects⟩
    · cases isNone
  · obtain ⟨result, result_mem, found⟩ := forward id mem
    rcases affect_spec found with ⟨a, _, rfl, same, -⟩ | ⟨rfl, spared⟩
    · exact .inl ⟨a, List.reduceOption_mem_iff.mpr result_mem, same⟩
    · exact .inr spared

theorem mem_of_lookup {remap : Remap} {id new_id : ConceptId} (found : remap.lookup id = some new_id) :
    (id, new_id) ∈ remap := by
  obtain ⟨before, after, rfl, -⟩ := List.lookup_eq_some_iff.mp found
  exact List.mem_append_right before List.mem_cons_self

/-- A Note that gets a new id is affected, as soon as anything holds it. -/
theorem Plans.renamed {affected : List Affected} (plans : Plans host workspace_id plan core affected)
    {id : ConceptId} (target : (plan.remap.lookup id).isSome) (moves : plan.newId id ≠ id)
    (held : (core.db.readDraft workspace_id id).isSome ∨ (core.sessions.find? id).isSome) :
    ∃ a ∈ affected, a.old_id = id := by
  have isTarget : id ∈ plan.targets := by
    obtain ⟨new_id, found⟩ := Option.isSome_iff_exists.mp target
    apply List.mem_append_left
    exact List.mem_map.mpr ⟨(id, new_id), mem_of_lookup found, rfl⟩
  have candidate : id ∈ plan.candidates workspace_id core := mem_candidates.mpr (.inl isTarget)
  rcases plans.spared id candidate with affected | spared
  · exact affected
  · cases spared with
    | unresolved error refused bystander => exact absurd isTarget bystander
    | absent paths resolves disk draft session =>
      rw [draft, session] at held
      rcases held with held | held <;> cases held
    | unchanged paths disk resolves read file buffer draft kept => exact absurd kept moves

/-! ## What a whole operation leaves -/

theorem carrySessionForward_frame {old_id new_id : ConceptId} {new_source : Option Text}
    {new_revision : Text} :
    (carrySessionForward host core old_id new_id new_source new_revision).bundle = core.bundle ∧
      (carrySessionForward host core old_id new_id new_source new_revision).db = core.db := by
  unfold carrySessionForward
  split
  · exact ⟨rfl, rfl⟩
  · split
    · exact ⟨rfl, rfl⟩
    · split
      · exact ⟨rfl, rfl⟩
      · exact ⟨rfl, rfl⟩

theorem carrySessions_frame {affected : List Affected} :
    (carrySessions host core affected).bundle = core.bundle ∧
      (carrySessions host core affected).db = core.db := by
  induction affected generalizing core with
  | nil => exact ⟨rfl, rfl⟩
  | cons a rest ih =>
    have first := @carrySessionForward_frame host core a.old_id a.new_id a.new_buffer a.revision
    exact ⟨ih.1.trans first.1, ih.2.trans first.2⟩

/-- A plan that goes through was planned, derived and published. -/
theorem applyReidentify_spec {now : Int} {faults : LifecycleFaults} {effects : LifecycleEffects}
    {core' : Core}
    (applied : applyReidentify host workspace_id core plan now faults = .ok (effects, core')) :
    ∃ affected indexed db, Plans host workspace_id plan core affected ∧
      effects = plan.effects affected ∧
      indexedNotes host (writeFiles core.bundle plan affected now) affected = .ok indexed ∧
      rewriteIndex host workspace_id core.db plan affected indexed now = some db ∧
      core' = carrySessions host
        { core with bundle := writeFiles core.bundle plan affected now, db } affected := by
  unfold applyReidentify at applied
  obtain ⟨affected, planned, applied⟩ := bind_eq_ok.mp applied
  obtain ⟨-, -, applied⟩ := bind_eq_ok.mp applied
  obtain ⟨indexed, isIndexed, applied⟩ := bind_eq_ok.mp applied
  obtain ⟨-, -, applied⟩ := bind_eq_ok.mp applied
  split at applied
  · cases applied
  · rename_i db published
    cases applied
    exact ⟨affected, indexed, db, planAffected_spec planned, rfl, isIndexed, published, rfl⟩

end Burlmd.Lifecycle
