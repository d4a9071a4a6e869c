import Burlmd.Lifecycle.OperationSpecs
import Burlmd.Lifecycle.RewriteShape

/-!
# Unflushed work survives lifecycle operations

A drafts row is all that is left of an edit the file does not hold. Rows are found under
the ids that an operation renames whether or not a file, an index row or a session stands
behind them, and no row is ever re-keyed onto another.
-/

namespace Burlmd.Lifecycle

open Workspace
open Utf8 (Text)
open Okf (ConceptId containingDir slash)
open Index (WorkspaceId Database DraftRow IndexedNote fileStem)
open Checked

variable {host : Host} {workspace_id : WorkspaceId} {now : Int}

/-! ## Re-keying the drafts of affected Notes -/

/-- What one affected Note does to a row. -/
def carriedBy (workspace_id : WorkspaceId) (now : Int) (row : DraftRow) (a : Affected) : DraftRow :=
  if row.key = (workspace_id, a.old_id) then
    { row with
      note_id := a.new_id
      raw_markdown := a.new_draft.getD row.raw_markdown
      updated_at := if a.new_draft.isSome then now else row.updated_at }
  else row

theorem carriedBy_of_key {row : DraftRow} {a : Affected} (own : row.key = (workspace_id, a.old_id)) :
    carriedBy workspace_id now row a =
      { row with
        note_id := a.new_id
        raw_markdown := a.new_draft.getD row.raw_markdown
        updated_at := if a.new_draft.isSome then now else row.updated_at } := by
  unfold carriedBy
  rw [if_pos own]

theorem carriedBy_eq_self {row : DraftRow} {a : Affected}
    (idle : row.key = (workspace_id, a.old_id) → a.new_id = a.old_id ∧ a.new_draft = none) :
    carriedBy workspace_id now row a = row := by
  unfold carriedBy
  split
  · rename_i own
    obtain ⟨same, noDraft⟩ := idle own
    have isId : row.note_id = a.new_id := (congrArg Prod.snd own).trans same.symm
    simp only [noDraft, ← isId, Option.getD_none, Option.isSome_none, Bool.false_eq_true, ↓reduceIte]
  · rfl

theorem mem_rekeyDraft {db : Database} {old_id new_id : ConceptId}
    (free : ∀ row ∈ db.drafts, row.key ≠ (workspace_id, new_id)) {row : DraftRow} :
    row ∈ (db.rekeyDraft workspace_id old_id new_id).drafts ↔
      (row ∈ db.drafts ∧ row.key ≠ (workspace_id, old_id)) ∨
        ∃ old ∈ db.drafts, old.key = (workspace_id, old_id) ∧ { old with note_id := new_id } = row := by
  have apart : ∀ r ∈ db.drafts, ∀ r' ∈ db.drafts, decide (r.key = (workspace_id, old_id)) = true →
      decide (r'.key = (workspace_id, old_id)) = true →
      DraftRow.key { r with note_id := new_id } = DraftRow.key { r' with note_id := new_id } →
      r.key = r'.key := by
    intro r _ r' _ own own' _
    exact (decide_eq_true_eq.mp own).trans (decide_eq_true_eq.mp own').symm
  have mem := Table.mem_updateOrReplace apart (x := row)
  simp only [decide_eq_true_eq, decide_eq_false_iff_not] at mem
  refine mem.trans (or_congr_left ?_)
  constructor
  · rintro ⟨row_mem, other, -⟩
    exact ⟨row_mem, other⟩
  · rintro ⟨row_mem, other⟩
    refine ⟨row_mem, other, fun r _ own same => free row row_mem ?_⟩
    rw [same]
    exact congrArg (fun key => (key.1, new_id)) own

theorem mem_rewriteDraft {db : Database} {note_id : ConceptId} {raw_markdown : Text}
    {row : DraftRow} :
    row ∈ (db.rewriteDraft workspace_id note_id raw_markdown now).drafts ↔
      (row ∈ db.drafts ∧ row.key ≠ (workspace_id, note_id)) ∨
        ∃ old ∈ db.drafts, old.key = (workspace_id, note_id) ∧
          { old with raw_markdown, updated_at := now } = row := by
  have mem := @Table.mem_update _ _ _ db.drafts (fun draft => draft.key = (workspace_id, note_id))
    (fun draft => { draft with raw_markdown, updated_at := now }) (fun _ => rfl) row
  simp only [decide_eq_true_eq, decide_eq_false_iff_not] at mem
  exact mem

theorem mem_carryDraft {db : Database} {a : Affected}
    (free : a.old_id ≠ a.new_id → ∀ row ∈ db.drafts, row.key ≠ (workspace_id, a.new_id))
    {row : DraftRow} :
    row ∈ (carryDraft workspace_id now db a).drafts ↔
      ∃ old ∈ db.drafts, carriedBy workspace_id now old a = row := by
  -- the row under the old id, first with its key changed and then with its text
  have rekeyed : ∀ row, row ∈ (if a.old_id ≠ a.new_id then
        db.rekeyDraft workspace_id a.old_id a.new_id else db).drafts ↔
      ∃ old ∈ db.drafts, (if old.key = (workspace_id, a.old_id) then
        { old with note_id := a.new_id } else old) = row := by
    intro row
    split
    · rename_i moves
      rw [mem_rekeyDraft (free moves)]
      constructor
      · rintro (⟨mem, other⟩ | ⟨old, mem, own, rfl⟩)
        · exact ⟨row, mem, if_neg other⟩
        · exact ⟨old, mem, if_pos own⟩
      · rintro ⟨old, mem, same⟩
        split at same
        · rename_i own
          exact .inr ⟨old, mem, own, same⟩
        · rename_i other
          exact .inl (same ▸ ⟨mem, other⟩)
    · rename_i stays
      rw [not_not] at stays
      have kept : ∀ old : DraftRow, (if old.key = (workspace_id, a.old_id) then
          { old with note_id := a.new_id } else old) = old := by
        intro old
        split
        · rename_i own
          have isId : old.note_id = a.new_id := (congrArg Prod.snd own).trans stays
          rw [← isId]
        · rfl
      simp only [kept, exists_eq_right]
  unfold carryDraft
  cases isDraft : a.new_draft with
  | none =>
    refine (rekeyed row).trans (exists_congr fun old => and_congr_right fun _ => ?_)
    unfold carriedBy
    rw [isDraft]
    rfl
  | some draft =>
    refine mem_rewriteDraft.trans ?_
    simp only [rekeyed]
    constructor
    · rintro (⟨⟨old, mem, rfl⟩, other⟩ | ⟨_, ⟨old, mem, rfl⟩, own, rfl⟩)
      · refine ⟨old, mem, ?_⟩
        unfold carriedBy
        split
        · rename_i isOld
          rw [if_pos isOld] at other
          exact absurd (congrArg (fun key => (key.1, a.new_id)) isOld) other
        · rfl
      · refine ⟨old, mem, ?_⟩
        unfold carriedBy
        rw [isDraft]
        split
        · rfl
        · rename_i notOld
          rw [if_neg notOld] at own
          by_cases moves : a.old_id = a.new_id
          · exact absurd (moves ▸ own) notOld
          · exact absurd own (free moves old mem)
    · rintro ⟨old, mem, rfl⟩
      unfold carriedBy
      split
      · rename_i isOld
        refine .inr ⟨_, ⟨old, mem, if_pos isOld⟩, ?_, ?_⟩
        · exact congrArg (fun key => (key.1, a.new_id)) isOld
        · rw [isDraft]
          rfl
      · rename_i notOld
        refine .inl ⟨⟨old, mem, if_neg notOld⟩, fun own => ?_⟩
        by_cases moves : a.old_id = a.new_id
        · exact notOld (moves ▸ own)
        · exact free moves old mem own

/-- The destinations of a list of affected Notes keep apart from each other and from
every row. -/
structure Apart (workspace_id : WorkspaceId) (db : Database) (affected : List Affected) : Prop where
  distinct : (affected.map Affected.old_id).Nodup
  free : ∀ a ∈ affected, a.old_id ≠ a.new_id → ∀ row ∈ db.drafts, row.key ≠ (workspace_id, a.new_id)
  injective : ∀ a ∈ affected, ∀ b ∈ affected, a.old_id ≠ a.new_id → b.old_id ≠ b.new_id →
    a.new_id = b.new_id → a.old_id = b.old_id
  settled : ∀ a ∈ affected, a.old_id ≠ a.new_id → ∀ b ∈ affected, b.old_id = a.new_id →
    b.new_id = b.old_id ∧ b.new_draft = none

theorem Apart.step {db : Database} {a : Affected} {rest : List Affected}
    (apart : Apart workspace_id db (a :: rest)) :
    Apart workspace_id (carryDraft workspace_id now db a) rest := by
  obtain ⟨fresh, distinct⟩ := List.nodup_cons.mp apart.distinct
  have inside : ∀ b ∈ rest, b ∈ a :: rest := fun b mem => List.mem_cons_of_mem a mem
  refine ⟨distinct, ?_, ?_, ?_⟩
  · intro b b_mem moves row row_mem
    obtain ⟨old, old_mem, rfl⟩ := (mem_carryDraft (apart.free a List.mem_cons_self)).mp row_mem
    unfold carriedBy
    split
    · rename_i own
      intro same
      have taken : a.new_id = b.new_id := congrArg Prod.snd same
      by_cases stays : a.old_id = a.new_id
      · have isKey : old.key = (workspace_id, b.new_id) := by rw [own, stays, taken]
        exact apart.free b (inside b b_mem) moves old old_mem isKey
      · have same := apart.injective a List.mem_cons_self b (inside b b_mem) stays moves taken
        exact fresh (same ▸ List.mem_map_of_mem b_mem)
    · exact apart.free b (inside b b_mem) moves old old_mem
  · exact fun b b_mem c c_mem => apart.injective b (inside b b_mem) c (inside c c_mem)
  · exact fun b b_mem moves c c_mem => apart.settled b (inside b b_mem) moves c (inside c c_mem)

/-- No row is lost on the way: every one is carried on its own. -/
theorem mem_carryDrafts {db : Database} {affected : List Affected}
    (apart : Apart workspace_id db affected) {row : DraftRow} :
    row ∈ (affected.foldl (carryDraft workspace_id now) db).drafts ↔
      ∃ old ∈ db.drafts, affected.foldl (carriedBy workspace_id now) old = row := by
  induction affected generalizing db with
  | nil =>
    constructor
    · exact fun mem => ⟨row, mem, rfl⟩
    · rintro ⟨old, mem, rfl⟩
      exact mem
  | cons a rest ih =>
    have first := @mem_carryDraft workspace_id now db a (apart.free a List.mem_cons_self)
    refine (ih apart.step).trans ?_
    constructor
    · rintro ⟨middle, mem, rfl⟩
      obtain ⟨old, old_mem, rfl⟩ := first.mp mem
      exact ⟨old, old_mem, rfl⟩
    · rintro ⟨old, mem, rfl⟩
      exact ⟨_, first.mpr ⟨old, mem, rfl⟩, rfl⟩

theorem foldl_carriedBy_eq_self {affected : List Affected} {row : DraftRow}
    (idle : ∀ a ∈ affected, row.key = (workspace_id, a.old_id) →
      a.new_id = a.old_id ∧ a.new_draft = none) :
    affected.foldl (carriedBy workspace_id now) row = row := by
  induction affected with
  | nil => rfl
  | cons a rest ih =>
    rw [List.foldl_cons, carriedBy_eq_self (idle a List.mem_cons_self)]
    exact ih fun b mem => idle b (List.mem_cons_of_mem a mem)

theorem foldl_carriedBy_workspace_id (affected : List Affected) (row : DraftRow) :
    (affected.foldl (carriedBy workspace_id now) row).workspace_id = row.workspace_id := by
  induction affected generalizing row with
  | nil => rfl
  | cons a rest ih =>
    refine (ih _).trans ?_
    unfold carriedBy
    split
    · rfl
    · rfl

/-- A row is carried by the one affected Note that has its id. -/
theorem foldl_carriedBy {db : Database} {affected : List Affected} {row : DraftRow} {a : Affected}
    (apart : Apart workspace_id db affected) (mem : a ∈ affected)
    (own : row.key = (workspace_id, a.old_id)) :
    affected.foldl (carriedBy workspace_id now) row = carriedBy workspace_id now row a := by
  obtain ⟨before, after, rfl⟩ := List.append_of_mem mem
  obtain ⟨-, -, disjoint⟩ := List.nodup_append.mp (by simpa using apart.distinct)
  have distinct := apart.distinct
  rw [List.map_append, List.map_cons, List.nodup_append] at distinct
  obtain ⟨-, tail, apartHead⟩ := distinct
  have unread : before.foldl (carriedBy workspace_id now) row = row := by
    apply foldl_carriedBy_eq_self
    intro b b_mem isOwn
    have same : b.old_id = a.old_id := congrArg Prod.snd (isOwn.symm.trans own)
    exact absurd same (apartHead _ (List.mem_map_of_mem b_mem) _ List.mem_cons_self)
  rw [List.foldl_append, unread, List.foldl_cons]
  apply foldl_carriedBy_eq_self
  intro b b_mem isKey
  rw [carriedBy_of_key own] at isKey
  have isNew : b.old_id = a.new_id := (congrArg Prod.snd isKey).symm
  have b_in : b ∈ before ++ a :: after :=
    List.mem_append_right before (List.mem_cons_of_mem a b_mem)
  by_cases moves : a.old_id = a.new_id
  · have same : a.old_id = b.old_id := moves.trans isNew.symm
    exact absurd (same ▸ List.mem_map_of_mem b_mem) (List.nodup_cons.mp tail).1
  · exact apart.settled a mem moves b b_in isNew

/-! ## The rows of a Workspace -/

/-- Every row whose id has an image is there once, under that image; no other row is. -/
structure DraftsKept (workspace_id : WorkspaceId) (image : ConceptId → Option ConceptId)
    (text : ConceptId → Text → Text → Prop) (before after : Database) : Prop where
  survives : ∀ row ∈ before.drafts, row.workspace_id = workspace_id →
    ∀ id, image row.note_id = some id →
      ∃ row' ∈ after.drafts, row'.key = (workspace_id, id) ∧ row'.edit_seq = row.edit_seq ∧
        text row.note_id row.raw_markdown row'.raw_markdown
  apart : ∀ row ∈ before.drafts, ∀ other ∈ before.drafts, row.workspace_id = workspace_id →
    other.workspace_id = workspace_id → ∀ id, image row.note_id = some id →
      image other.note_id = some id → row = other
  nothing_else : ∀ row' ∈ after.drafts, row'.workspace_id = workspace_id →
    ∃ row ∈ before.drafts, row.workspace_id = workspace_id ∧ image row.note_id = some row'.note_id
  foreign : ∀ row, row.workspace_id ≠ workspace_id → (row ∈ after.drafts ↔ row ∈ before.drafts)

theorem DraftsKept.congr {image image' : ConceptId → Option ConceptId}
    {text text' : ConceptId → Text → Text → Prop} {before after : Database}
    (kept : DraftsKept workspace_id image text before after)
    (agree : ∀ row ∈ before.drafts, row.workspace_id = workspace_id →
      image' row.note_id = image row.note_id)
    (weaker : ∀ id old new, text id old new → text' id old new) :
    DraftsKept workspace_id image' text' before after where
  survives row mem own id isImage := by
    rw [agree row mem own] at isImage
    obtain ⟨row', mem', isKey, seq, texts⟩ := kept.survives row mem own id isImage
    exact ⟨row', mem', isKey, seq, weaker _ _ _ texts⟩
  apart row mem other mem' own own' id isImage isImage' := by
    rw [agree row mem own] at isImage
    rw [agree other mem' own'] at isImage'
    exact kept.apart row mem other mem' own own' id isImage isImage'
  nothing_else row' mem own := by
    obtain ⟨row, row_mem, isOwn, isImage⟩ := kept.nothing_else row' mem own
    exact ⟨row, row_mem, isOwn, (agree row row_mem isOwn).trans isImage⟩
  foreign := kept.foreign

/-- An operation that deletes the rows without an image and touches no other. -/
theorem draftsKept_of_deleted {image : ConceptId → Option ConceptId}
    {text : ConceptId → Text → Text → Prop} {before after : Database}
    (fixes : ∀ id id', image id = some id' → id' = id) (unchanged : ∀ id old, text id old old)
    (mem_iff : ∀ row, row ∈ after.drafts ↔
      row ∈ before.drafts ∧ (row.workspace_id = workspace_id → image row.note_id ≠ none)) :
    DraftsKept workspace_id image text before after where
  survives row mem own id isImage := by
    have isId := fixes row.note_id id isImage
    refine ⟨row, (mem_iff row).mpr ⟨mem, fun _ isNone => ?_⟩, ?_, rfl, unchanged _ _⟩
    · rw [isNone] at isImage
      cases isImage
    · rw [isId, ← own]
      rfl
  apart row mem other mem' own own' id isImage isImage' := by
    have isId := fixes row.note_id id isImage
    have isId' := fixes other.note_id id isImage'
    apply Table.eq_of_key_eq mem mem'
    exact Prod.ext (own.trans own'.symm) (isId.symm.trans isId')
  nothing_else row mem own := by
    obtain ⟨row_mem, some_⟩ := (mem_iff row).mp mem
    obtain ⟨id, isImage⟩ := Option.ne_none_iff_exists'.mp (some_ own)
    exact ⟨row, row_mem, own, by rw [isImage, fixes row.note_id id isImage]⟩
  foreign row other := (mem_iff row).trans
    ⟨And.left, fun mem => ⟨mem, fun own => absurd own other⟩⟩

/-! ## Plans -/

/-- A plan takes no id that a drafts row holds, no id twice and no id that it renames. -/
structure Reidentify.Free (workspace_id : WorkspaceId) (core : Core) (plan : Reidentify) : Prop where
  vacant : ∀ id new_id, plan.remap.lookup id = some new_id → new_id ≠ id →
    core.db.readDraft workspace_id new_id = none
  injective : ∀ id id' new_id, plan.remap.lookup id = some new_id →
    plan.remap.lookup id' = some new_id → id = id'
  settled : ∀ id new_id, plan.remap.lookup id = some new_id → new_id ≠ id →
    plan.remap.lookup new_id = none

section Planned

variable {core : Core} {plan : Reidentify} {affected : List Affected}

theorem lookup_of_moves {id new_id : ConceptId} (isNew : new_id = plan.newId id) (moves : id ≠ new_id) :
    plan.remap.lookup id = some new_id := by
  cases found : plan.remap.lookup id with
  | none =>
    rw [Reidentify.newId, found, Option.getD_none] at isNew
    exact absurd isNew.symm moves
  | some target =>
    rw [Reidentify.newId, found, Option.getD_some] at isNew
    rw [isNew]

theorem Reidentify.Free.apart (free : plan.Free workspace_id core)
    (plans : Plans host workspace_id plan core affected) : Apart workspace_id core.db affected where
  distinct := plans.distinct
  free a mem moves row row_mem isKey := by
    obtain ⟨disk, affects⟩ := (plans.affects a mem).2
    have noDraft := free.vacant _ _ (lookup_of_moves affects.new_id moves) (Ne.symm moves)
    exact Table.find?_eq_none_iff.mp noDraft row row_mem isKey
  injective a mem b mem' moves moves' same := by
    obtain ⟨disk, affects⟩ := (plans.affects a mem).2
    obtain ⟨disk', affects'⟩ := (plans.affects b mem').2
    apply free.injective _ _ _ (lookup_of_moves affects.new_id moves)
    rw [same]
    exact lookup_of_moves affects'.new_id moves'
  settled a mem moves b mem' here := by
    obtain ⟨disk, affects⟩ := (plans.affects a mem).2
    obtain ⟨disk', affects'⟩ := (plans.affects b mem').2
    have renamed := lookup_of_moves affects.new_id moves
    have noDraft := free.vacant _ _ renamed (Ne.symm moves)
    have still := free.settled _ _ renamed (Ne.symm moves)
    have isNew := affects'.new_id
    have isDraft := affects'.new_draft
    rw [← here] at noDraft still
    rw [Reidentify.newId, still, Option.getD_none] at isNew
    rw [noDraft] at isDraft
    have isNone : none = b.new_draft := Except.ok.inj isDraft
    exact ⟨isNew, isNone.symm⟩

theorem readDraft_of_mem {db : Database} {row : DraftRow} (mem : row ∈ db.drafts)
    (own : row.workspace_id = workspace_id) : db.readDraft workspace_id row.note_id = some row :=
  Table.find?_eq_some_iff.mpr ⟨mem, congrArg (fun owner => (owner, row.note_id)) own⟩

variable (host plan) in
/-- How a plan may change the text of a Note. -/
def Reidentify.Keeps (id : ConceptId) (old new : Text) : Prop :=
  Rewritten host (containingDir id) plan.remap (plan.newTitle id) (plan.absolutize = some id)
    old new

theorem Rewritten.refl {containing_dir : Text} {remap : Remap} {new_title : Option Text}
    {absolutize : Bool} (text : Text) :
    Rewritten host containing_dir remap new_title absolutize text text :=
  ⟨text, text, .inl rfl, .inl rfl, .inl rfl⟩

/-- What a plan does to one row of its Workspace. -/
theorem carried_row (free : plan.Free workspace_id core)
    (plans : Plans host workspace_id plan core affected) {row : DraftRow}
    (mem : row ∈ core.db.drafts) (own : row.workspace_id = workspace_id) :
    let row' := affected.foldl (carriedBy workspace_id now) row
    row'.key = (workspace_id, plan.newId row.note_id) ∧ row'.edit_seq = row.edit_seq ∧
      plan.Keeps host row.note_id row.raw_markdown row'.raw_markdown := by
  have apart := free.apart plans
  have isKey : row.key = (workspace_id, row.note_id) := by
    rw [← own]
    rfl
  have isDraft := readDraft_of_mem mem own
  by_cases touched : ∃ a ∈ affected, a.old_id = row.note_id
  · obtain ⟨a, a_mem, isOld⟩ := touched
    obtain ⟨disk, affects⟩ := (plans.affects a a_mem).2
    have isOwn : row.key = (workspace_id, a.old_id) := by rw [isOld]; exact isKey
    rw [foldl_carriedBy apart a_mem isOwn, carriedBy_of_key isOwn]
    have rewritten := affects.new_draft
    rw [isOld, isDraft] at rewritten
    refine ⟨?_, rfl, rewriteNoteText_spec rewritten⟩
    rw [← isOld, ← affects.new_id, ← own]
    rfl
  · have untouched : affected.foldl (carriedBy workspace_id now) row = row := by
      apply foldl_carriedBy_eq_self
      intro a a_mem isOwn
      have same : row.note_id = a.old_id := congrArg Prod.snd isOwn
      exact absurd ⟨a, a_mem, same.symm⟩ touched
    have candidate : row.note_id ∈ plan.candidates workspace_id core :=
      mem_candidates.mpr (.inr (.inr (.inl (by rw [isDraft]; rfl))))
    have stays : plan.newId row.note_id = row.note_id := by
      rcases plans.spared _ candidate with isTouched | spared
      · exact absurd isTouched touched
      · cases spared with
        | unresolved error refused bystander =>
          cases found : plan.remap.lookup row.note_id with
          | none => rw [Reidentify.newId, found, Option.getD_none]
          | some new_id =>
            have target : row.note_id ∈ plan.targets :=
              List.mem_append_left _ (List.mem_map.mpr ⟨_, mem_of_lookup found, rfl⟩)
            exact absurd target bystander
        | absent paths resolves disk draft session =>
          rw [isDraft] at draft
          cases draft
        | unchanged paths disk resolves read file buffer draft kept => exact kept
    rw [untouched, stays]
    exact ⟨isKey, rfl, Rewritten.refl _⟩

theorem newId_injective_on_drafts (free : plan.Free workspace_id core) {row other : DraftRow}
    (mem : row ∈ core.db.drafts) (mem' : other ∈ core.db.drafts)
    (own : row.workspace_id = workspace_id) (own' : other.workspace_id = workspace_id)
    (same : plan.newId row.note_id = plan.newId other.note_id) : row.note_id = other.note_id := by
  by_cases moves : row.note_id = plan.newId row.note_id
  · by_cases moves' : other.note_id = plan.newId other.note_id
    · exact moves.trans (same.trans moves'.symm)
    · have vacant := free.vacant _ _ (lookup_of_moves rfl moves') (Ne.symm moves')
      rw [← same, ← moves, readDraft_of_mem mem own] at vacant
      cases vacant
  · by_cases moves' : other.note_id = plan.newId other.note_id
    · have vacant := free.vacant _ _ (lookup_of_moves rfl moves) (Ne.symm moves)
      rw [same, ← moves', readDraft_of_mem mem' own'] at vacant
      cases vacant
    · apply free.injective _ _ _ (lookup_of_moves rfl moves)
      rw [same]
      exact lookup_of_moves rfl moves'

theorem updateLinkTargets_drafts (remap : Remap) (db : Database) :
    (remap.foldl (fun db renamed => db.updateLinkTargets workspace_id renamed.1 renamed.2) db).drafts =
      db.drafts := by
  induction remap generalizing db with
  | nil => rfl
  | cons renamed rest ih => exact ih _

theorem removeNoteRows_drafts (affected : List Affected) (db : Database) :
    (affected.foldl (fun db a => db.removeNoteRows workspace_id a.old_id) db).drafts =
      db.drafts := by
  induction affected generalizing db with
  | nil => rfl
  | cons a rest ih => exact ih _

theorem writeAll_drafts {notes : List IndexedNote} {db db' : Database}
    (written : notes.foldlM
      (fun db note => Database.writeNoteRows host.title_lookup_key db workspace_id note) db =
        some db') : db'.drafts = db.drafts := by
  induction notes generalizing db with
  | nil =>
    obtain rfl := Option.some.inj written
    rfl
  | cons note rest ih =>
    rw [List.foldlM_cons, Option.bind_eq_bind, Option.bind_eq_some_iff] at written
    obtain ⟨middle, first, written⟩ := written
    exact (ih written).trans (Database.writeNoteRows_frame first).2

/-- The rows after a plan, one for one. -/
theorem mem_drafts_of_plan {plan_db db' : Database} {indexed : List IndexedNote}
    (free : plan.Free workspace_id core) (plans : Plans host workspace_id plan core affected)
    (same : plan_db.drafts = core.db.drafts)
    (published : rewriteIndex host workspace_id plan_db plan affected indexed now = some db')
    {row : DraftRow} :
    row ∈ db'.drafts ↔ ∃ old ∈ core.db.drafts, affected.foldl (carriedBy workspace_id now) old = row := by
  obtain ⟨indexedDb, directories, written, rfl⟩ := rewriteIndex_spec published
  have linked := @updateLinkTargets_drafts workspace_id plan.remap plan_db
  have apart := free.apart plans
  have apart' : Apart workspace_id (plan.remap.foldl
      (fun db renamed => db.updateLinkTargets workspace_id renamed.1 renamed.2) plan_db) affected := by
    refine ⟨apart.distinct, ?_, apart.injective, apart.settled⟩
    rw [linked, same]
    exact apart.free
  have mem := @mem_carryDrafts workspace_id now _ _ apart' row
  rw [linked, same] at mem
  have isDrafts := (writeAll_drafts written).trans (removeNoteRows_drafts _ _)
  exact (show _ ↔ _ from by rw [isDrafts]).trans mem

theorem draftsKept_of_plan {db' : Database} {indexed : List IndexedNote}
    (free : plan.Free workspace_id core) (plans : Plans host workspace_id plan core affected)
    (published : rewriteIndex host workspace_id core.db plan affected indexed now = some db') :
    DraftsKept workspace_id (fun id => some (plan.newId id)) (plan.Keeps host) core.db db' where
  survives row mem own id isImage := by
    cases isImage
    obtain ⟨isKey, seq, text⟩ := @carried_row host workspace_id now core plan affected free plans
      row mem own
    exact ⟨_, (mem_drafts_of_plan free plans rfl published).mpr ⟨row, mem, rfl⟩, isKey, seq, text⟩
  apart row mem other mem' own own' id isImage isImage' := by
    have same := newId_injective_on_drafts free mem mem' own own'
      (Option.some.inj (isImage.trans isImage'.symm))
    exact Table.eq_of_key_eq mem mem' (Prod.ext (own.trans own'.symm) same)
  nothing_else row' mem own := by
    obtain ⟨row, row_mem, rfl⟩ := (mem_drafts_of_plan free plans rfl published).mp mem
    rw [foldl_carriedBy_workspace_id] at own
    have isKey := (@carried_row host workspace_id now core plan affected free plans row row_mem own).1
    exact ⟨row, row_mem, own, congrArg some (congrArg Prod.snd isKey).symm⟩
  foreign row other := by
    rw [mem_drafts_of_plan free plans rfl published]
    have fixed : ∀ old : DraftRow, old.workspace_id ≠ workspace_id →
        affected.foldl (carriedBy workspace_id now) old = old := by
      intro old elsewhere
      apply foldl_carriedBy_eq_self
      intro a _ isKey
      exact absurd (congrArg Prod.fst isKey) elsewhere
    constructor
    · rintro ⟨old, mem, rfl⟩
      rw [foldl_carriedBy_workspace_id] at other
      rw [fixed old other]
      exact mem
    · exact fun mem => ⟨row, mem, fixed row other⟩

end Planned


/-! ## The id map of an operation -/

namespace Operation

/-- Where an operation sends an id, or nothing for an id it deletes. -/
def image : Operation → ConceptId → Option ConceptId
  | renameNote note_id new_title, id =>
      some (if id = note_id then joinId (containingDir note_id) new_title else id)
  | moveNote note_id new_directory_path, id =>
      some (if id = note_id then joinId (trimSlashes new_directory_path) (fileStem note_id) else id)
  | renameDirectory path new_name, id =>
      let directory := trimSlashes path
      some <| (id.dropPrefix? (directory ++ [slash])).elim id fun rest =>
        joinId (containingDir directory) new_name ++ slash :: rest
  | deleteNote note_id, id => if id = note_id then none else some id
  | deleteDirectory path, id =>
      if (trimSlashes path ++ [slash]).isPrefixOf id then none else some id
  | createNote .., id | createLinkTarget _, id | createDirectory _, id => some id

def reidentifies : Operation → Bool
  | renameNote .. | moveNote .. | renameDirectory .. => true
  | createNote .. | createLinkTarget _ | createDirectory _ | deleteNote _ | deleteDirectory _ => false

/-- The title the operation gives this Note. -/
def retitles : Operation → ConceptId → Option Text
  | renameNote note_id new_title, id => if id = note_id then some new_title else none
  | _, _ => none

/-- The operation takes this Note to another directory. -/
def transfers : Operation → ConceptId → Bool
  | moveNote note_id _, id => id = note_id
  | _, _ => false

/-- The text of a draft, but for link destinations and the title of a renamed Note. -/
def Keeps (host : Host) (op : Operation) (id : ConceptId) (old new : Text) : Prop :=
  new = old ∨
    (op.reidentifies = true ∧ ∃ remap : Remap,
      (∀ renamed ∈ remap, op.image renamed.1 = some renamed.2) ∧
      Rewritten host (containingDir id) remap (op.retitles id) (op.transfers id) old new)

end Operation

theorem Rewritten.mono {containing_dir : Text} {remap : Remap}
    {new_title new_title' : Option Text} {absolutize absolutize' : Bool} {old new : Text}
    (rewritten : Rewritten host containing_dir remap new_title absolutize old new)
    (titles : ∀ title, new_title = some title → new_title' = some title)
    (absolutes : absolutize = true → absolutize' = true) :
    Rewritten host containing_dir remap new_title' absolutize' old new := by
  obtain ⟨retitled, absolutized, title, absolute, relinked⟩ := rewritten
  refine ⟨retitled, absolutized, ?_, ?_, relinked⟩
  · exact title.imp_right fun ⟨title, given, replaced⟩ => ⟨title, titles title given, replaced⟩
  · exact absolute.imp_right fun found => ⟨absolutes found.1, found.2⟩

/-! ## The operations -/

variable {core : Core} {faults : LifecycleFaults}

theorem free_of_single {note_id new_id : ConceptId} {new_path : Path} {held : HeldBy}
    {plan : Reidentify} (isRemap : plan.remap = singleRemap note_id new_id)
    (isHeld : held.id = note_id)
    (available : ensurePathAvailable workspace_id core new_id new_path (some held) = .ok ()) :
    plan.Free workspace_id core := by
  have lookups : ∀ id target, plan.remap.lookup id = some target →
      id = note_id ∧ new_id ≠ note_id ∧ target = new_id := by
    intro id target found
    rw [isRemap, lookup_singleRemap] at found
    split at found
    · rename_i own
      exact ⟨own.1, own.2, (Option.some.inj found).symm⟩
    · cases found
  refine ⟨?_, ?_, ?_⟩
  · intro id target found moves
    obtain ⟨rfl, renamed, rfl⟩ := lookups id target found
    rcases (ensurePathAvailable_eq_ok available).2.2.1 with noDraft | named
    · exact noDraft
    · have same : held.id = target := by simpa using named
      exact absurd (same.symm.trans isHeld) renamed
  · intro id id' target found found'
    exact (lookups id target found).1.trans (lookups id' target found').1.symm
  · intro id target found moves
    obtain ⟨rfl, renamed, rfl⟩ := lookups id target found
    rw [isRemap, lookup_singleRemap, if_neg fun own => renamed own.1]

theorem newId_single {note_id new_id id : ConceptId} {plan : Reidentify}
    (isRemap : plan.remap = singleRemap note_id new_id) :
    plan.newId id = if id = note_id then new_id else id := by
  unfold Reidentify.newId
  rw [isRemap, lookup_singleRemap]
  by_cases own : id = note_id
  · by_cases renamed : new_id = note_id
    · simp [own, renamed]
    · simp [own, renamed]
  · simp [own]

/-- A plan for one Note keeps the drafts of its Workspace. -/
theorem draftsKept_of_single {note_id new_id : ConceptId} {new_path : Path} {held : HeldBy}
    {plan : Reidentify} {effects : LifecycleEffects} {core' : Core} {op : Operation}
    (isRemap : plan.remap = singleRemap note_id new_id) (isHeld : held.id = note_id)
    (available : ensurePathAvailable workspace_id core new_id new_path (some held) = .ok ())
    (applied : applyReidentify host workspace_id core plan now faults = .ok (effects, core'))
    (isImage : ∀ id, op.image id = some (if id = note_id then new_id else id))
    (reidentifies : op.reidentifies = true)
    (titles : ∀ id title, plan.newTitle id = some title → op.retitles id = some title)
    (absolutes : ∀ id, plan.absolutize = some id → op.transfers id = true) :
    DraftsKept workspace_id op.image (op.Keeps host) core.db core'.db := by
  obtain ⟨affected, indexed, db, plans, -, -, published, rfl⟩ := applyReidentify_spec applied
  rw [carrySessions_frame.2]
  have kept := draftsKept_of_plan (free_of_single isRemap isHeld available) plans published
  refine kept.congr (fun row _ _ => ?_) fun id old new keeps => ?_
  · rw [isImage, newId_single isRemap]
  · refine .inr ⟨reidentifies, plan.remap, ?_, keeps.mono (titles id) fun own => ?_⟩
    · rintro ⟨renamed, target⟩ mem
      rw [isImage]
      rw [isRemap, singleRemap] at mem
      split at mem
      · cases mem
      · cases List.mem_singleton.mp mem
        rw [if_pos rfl]
    · exact absolutes id (of_decide_eq_true own)

section Directories

variable {path new_name directory : Text} {plan : Reidentify}

theorem DirectoryPlan.whole (planned : DirectoryPlan host workspace_id core path new_name directory
    plan) : directory = trimSlashes path ∧ [] ∉ directory.splitOn slash := by
  obtain ⟨trimmed, segments⟩ := normalizeDirectory_eq_ok planned.normalized
  exact ⟨trimmed, (segments planned.inside).1⟩

theorem dropPrefix?_beneath (directory rest : Text) :
    (directory ++ slash :: rest).dropPrefix? (directory ++ [slash]) = some rest :=
  List.dropPrefix?_eq_some_iff.mpr ⟨directory ++ [slash], by simp, beq_self_eq_true _⟩

/-- The new id of an id under the directory. -/
theorem DirectoryPlan.lookup_iff (planned : DirectoryPlan host workspace_id core path new_name
    directory plan) {id target : ConceptId} :
    plan.remap.lookup id = some target ↔
      id ∈ (contents workspace_id core.db directory).1 ++
        (contents workspace_id core.db directory).2 ∧
      ∃ rest, id = directory ++ slash :: rest ∧
        target = joinId (containingDir directory) new_name ++ slash :: rest := by
  rw [planned.remap, directoryRemap, lookup_map_self]
  simp only [List.mem_insertionSort]
  constructor
  · intro found
    split at found
    · rename_i mem
      obtain ⟨rest, shape⟩ := (mem_contents.mp mem).2
      rw [List.append_assoc, List.singleton_append] at shape
      refine ⟨mem, rest, shape.symm, ?_⟩
      rw [← Option.some.inj found, ← shape, dropPrefix?_beneath]
      rfl
    · cases found
  · rintro ⟨mem, rest, rfl, rfl⟩
    rw [if_pos mem, dropPrefix?_beneath]
    rfl

theorem DirectoryPlan.free' (planned : DirectoryPlan host workspace_id core path new_name directory
    plan) : plan.Free workspace_id core where
  vacant id target found moves :=
    (ensureDestinations_eq_ok planned.free _ (mem_of_lookup found) moves).1
  injective id id' target found found' := by
    obtain ⟨-, rest, rfl, isTarget⟩ := planned.lookup_iff.mp found
    obtain ⟨-, rest', rfl, isTarget'⟩ := planned.lookup_iff.mp found'
    have same := List.append_cancel_left (isTarget.symm.trans isTarget')
    rw [same]
  settled id target found _ := by
    obtain ⟨-, rest, rfl, rfl⟩ := planned.lookup_iff.mp found
    cases again : plan.remap.lookup (joinId (containingDir directory) new_name ++ slash :: rest) with
    | none => rfl
    | some other =>
      obtain ⟨mem, -⟩ := planned.lookup_iff.mp again
      have plain := (validateSegment_eq_ok planned.valid).2.2.1
      exact absurd (mem_contents.mp mem).2 (sibling_apart planned.whole.2 plain planned.moves)

theorem image_renameDirectory (id : ConceptId) :
    (Operation.renameDirectory path new_name).image id =
      some ((id.dropPrefix? (trimSlashes path ++ [slash])).elim id fun rest =>
        joinId (containingDir (trimSlashes path)) new_name ++ slash :: rest) := rfl

theorem image_beneath (rest : Text) :
    (Operation.renameDirectory path new_name).image (trimSlashes path ++ slash :: rest) =
      some (joinId (containingDir (trimSlashes path)) new_name ++ slash :: rest) := by
  rw [image_renameDirectory, dropPrefix?_beneath]
  rfl

/-- Every draft under the directory moves with it, and no other does. -/
theorem DirectoryPlan.image_eq (planned : DirectoryPlan host workspace_id core path new_name
    directory plan) {row : DraftRow} (mem : row ∈ core.db.drafts)
    (own : row.workspace_id = workspace_id) :
    (Operation.renameDirectory path new_name).image row.note_id = some (plan.newId row.note_id) := by
  by_cases beneath : directory ++ [slash] <+: row.note_id
  · have listed : row.note_id ∈ core.db.draftNoteIds workspace_id := by
      apply List.mem_map.mpr
      exact ⟨row, List.mem_filter.mpr ⟨mem, decide_eq_true own⟩, rfl⟩
    have inside := mem_contents.mpr ⟨.inr listed, beneath⟩
    obtain ⟨rest, shape⟩ := beneath
    rw [List.append_assoc, List.singleton_append] at shape
    have found := planned.lookup_iff.mpr ⟨inside, rest, shape.symm, rfl⟩
    rw [Reidentify.newId, found, Option.getD_some, ← shape, planned.whole.1]
    exact image_beneath rest
  · have kept : plan.remap.lookup row.note_id = none := by
      cases found : plan.remap.lookup row.note_id with
      | none => rfl
      | some target => exact absurd (mem_contents.mp (planned.lookup_iff.mp found).1).2 beneath
    rw [Reidentify.newId, kept, Option.getD_none, image_renameDirectory, ← planned.whole.1]
    cases found : row.note_id.dropPrefix? (directory ++ [slash]) with
    | none => rfl
    | some rest =>
      obtain ⟨start, shape, same⟩ := List.dropPrefix?_eq_some_iff.mp found
      rw [eq_of_beq same] at shape
      exact absurd ⟨rest, shape.symm⟩ beneath

theorem draftsKept_renameDirectory {effects : LifecycleEffects} {core' : Core}
    (planned : DirectoryPlan host workspace_id core path new_name directory plan)
    (applied : applyReidentify host workspace_id core plan now faults = .ok (effects, core')) :
    DraftsKept workspace_id (Operation.renameDirectory path new_name).image
      ((Operation.renameDirectory path new_name).Keeps host) core.db core'.db := by
  obtain ⟨affected, indexed, db, plans, -, -, published, rfl⟩ := applyReidentify_spec applied
  rw [carrySessions_frame.2]
  refine (draftsKept_of_plan planned.free' plans published).congr
    (fun row mem own => planned.image_eq mem own) fun id old new keeps => ?_
  refine .inr ⟨rfl, plan.remap, ?_, keeps.mono ?_ ?_⟩
  · intro renamed mem
    rw [planned.remap, directoryRemap] at mem
    obtain ⟨id, id_mem, rfl⟩ := List.mem_map.mp mem
    obtain ⟨rest, shape⟩ := (mem_contents.mp ((List.mem_insertionSort _).mp id_mem)).2
    rw [List.append_assoc, List.singleton_append] at shape
    dsimp only
    rw [← shape, dropPrefix?_beneath, planned.whole.1]
    exact image_beneath rest
  · intro title titled
    rw [Reidentify.newTitle, planned.plain.2.1] at titled
    cases titled
  · intro absolute
    rw [planned.plain.2.2] at absolute
    cases absolute

end Directories

theorem mem_clearDraft {db : Database} {note_id : ConceptId} {row : DraftRow} :
    row ∈ (db.clearDraft workspace_id note_id).drafts ↔
      row ∈ db.drafts ∧ row.key ≠ (workspace_id, note_id) := by
  unfold Database.clearDraft
  rw [Table.mem_delete, decide_eq_false_iff_not]

theorem clearDraft_eq_self {db : Database} {note_id : ConceptId}
    (none_ : db.readDraft workspace_id note_id = none) :
    (db.clearDraft workspace_id note_id).drafts = db.drafts := by
  apply Table.delete_eq_self
  intro row mem
  exact decide_eq_false (Table.find?_eq_none_iff.mp none_ row mem)

/-- The rows of a directory go, and no others. -/
theorem mem_deleteContents {db : Database} {directory : Text} {removed orphaned : List ConceptId}
    {row : DraftRow} :
    row ∈ (deleteContents workspace_id db directory removed orphaned).drafts ↔
      row ∈ db.drafts ∧
        (row.workspace_id = workspace_id → row.note_id ∉ removed ++ orphaned) := by
  have cleared : ∀ (ids : List ConceptId) (step : Database → ConceptId → Database),
      (∀ db id, (step db id).drafts = (db.clearDraft workspace_id id).drafts) →
      ∀ db, row ∈ (ids.foldl step db).drafts ↔
        row ∈ db.drafts ∧ (row.workspace_id = workspace_id → row.note_id ∉ ids) := by
    intro ids step clears
    induction ids with
    | nil => exact fun db => ⟨fun mem => ⟨mem, fun _ => List.not_mem_nil⟩, And.left⟩
    | cons id rest ih =>
      intro db
      rw [List.foldl_cons, ih, clears, mem_clearDraft, and_assoc, List.mem_cons, not_or]
      refine and_congr_right fun _ => ?_
      constructor
      · rintro ⟨other, others⟩ own
        refine ⟨fun same => other ?_, others own⟩
        exact Prod.ext own same
      · intro others
        exact ⟨fun isKey => (others (congrArg Prod.fst isKey)).1 (congrArg Prod.snd isKey),
          fun own => (others own).2⟩
  unfold deleteContents
  have first := cleared removed
    (fun db note_id => (db.removeNoteRows workspace_id note_id).clearDraft workspace_id note_id)
    (fun _ _ => rfl) db
  have second := cleared orphaned (fun db note_id => db.clearDraft workspace_id note_id)
    (fun _ _ => rfl)
  refine (second _).trans ?_
  rw [first, and_assoc]
  refine and_congr_right fun _ => ?_
  simp only [List.mem_append, not_or]
  constructor
  · exact fun both own => ⟨both.1 own, both.2 own⟩
  · exact fun both => ⟨fun own => (both own).1, fun own => (both own).2⟩

theorem draftsKept_of_eq {op : Operation} {after : Database}
    (fixes : ∀ id, op.image id = some id) (same : after.drafts = core.db.drafts) :
    DraftsKept workspace_id op.image (op.Keeps host) core.db after := by
  refine draftsKept_of_deleted ?_ (fun id old => .inl rfl) ?_
  · intro id id' isImage
    rw [fixes id] at isImage
    exact (Option.some.inj isImage).symm
  · intro row
    rw [same]
    constructor
    · intro mem
      refine ⟨mem, fun _ isNone => ?_⟩
      rw [fixes] at isNone
      cases isNone
    · exact And.left

theorem publishNote_drafts {note_id : ConceptId} {path : Path} {title : Text}
    {record : Database → Option Database} {core' : Core}
    (records : ∀ db db', record db = some db' → db'.drafts = db.drafts)
    (published : publishNote host workspace_id core note_id path title record now faults =
      .ok core') : core'.db.drafts = core.db.drafts := by
  obtain ⟨-, written, db, isWritten, isRecorded, rfl⟩ := publishNote_spec published
  exact (records _ _ isRecorded).trans (Database.writeNoteRows_frame isWritten).2

/-- A creation leaves the drafts alone, whether it goes through or is taken back. -/
theorem createNote_drafts {directory_path title : Text} :
    (createNoteSerialized host workspace_id core directory_path title now faults).1.db.drafts =
      core.db.drafts := by
  unfold createNoteSerialized
  split
  · rfl
  · rename_i directory bundle located
    dsimp only
    split
    · rfl
    · rename_i new_path core' published
      unfold publishNewNote at published
      obtain ⟨path, -, published⟩ := bind_eq_ok.mp published
      obtain ⟨⟨⟩, available, published⟩ := bind_eq_ok.mp published
      obtain ⟨created, isCreated, published⟩ := bind_eq_ok.mp published
      obtain ⟨rfl, rfl⟩ : path = new_path ∧ created = core' := by
        cases published
        exact ⟨rfl, rfl⟩
      have same : created.db.drafts = core.db.drafts := by
        refine (publishNote_drafts (fun db db' recorded => ?_) isCreated).trans rfl
        obtain ⟨directories, rfl⟩ := Database.recordDirectories_spec recorded
        rfl
      split
      · have vacant : core.db.readDraft workspace_id (joinId directory title) = none := by
          rcases (ensurePathAvailable_eq_ok available).2.2.1 with none_ | held
          · exact none_
          · cases held
        refine (clearDraft_eq_self ?_).trans same
        exact (congrArg (Table.find? · _) same).trans vacant
      · rename_i session opened_ isOpen
        rw [(openCreated_frame isOpen).1]
        exact same

theorem createLinkTarget_drafts {target_id : ConceptId} :
    (createLinkTarget host workspace_id core target_id now faults).1.db.drafts =
      core.db.drafts := by
  unfold createLinkTarget
  split
  · rfl
  · rename_i identity _
    unfold createLinkTargetSerialized
    dsimp only
    split
    · split
      · rfl
      · rename_i session opened_ isOpen
        rw [(openNoteSerialized_frame isOpen).1]
    · split
      · rfl
      · split
        · rfl
        · split
          · rfl
          · rename_i created isPublished
            unfold publishLinkTarget at isPublished
            obtain ⟨⟨⟩, available, isPublished⟩ := bind_eq_ok.mp isPublished
            have same : created.db.drafts = core.db.drafts :=
              (publishNote_drafts
                (fun _ _ recorded => congrArg Database.drafts (Option.some.inj recorded).symm)
                isPublished).trans rfl
            split
            · have vacant : core.db.readDraft workspace_id identity.target_id = none := by
                rcases (ensurePathAvailable_eq_ok available).2.2.1 with none_ | held
                · exact none_
                · cases held
              refine (clearDraft_eq_self ?_).trans same
              exact (congrArg (Table.find? · _) same).trans vacant
            · rename_i session opened_ isOpen
              rw [(openCreated_frame isOpen).1]
              exact same

theorem createDirectory_drafts {path : Text} :
    (createDirectorySerialized host workspace_id core path faults).1.db.drafts = core.db.drafts := by
  unfold createDirectorySerialized
  split
  · rfl
  · dsimp only
    split
    · rfl
    · split
      · rfl
      · rfl
      · rename_i db recorded
        obtain ⟨directories, rfl⟩ := Database.recordDirectories_spec recorded
        rfl

theorem discardSessions_db (ids : List ConceptId) (core : Core) :
    (ids.foldl discardSession core).db = core.db := by
  induction ids generalizing core with
  | nil => rfl
  | cons id rest ih => exact ih _

theorem draftsKept_deleteNote {note_id : ConceptId} {core' : Core}
    (deleted : deleteNoteAt host workspace_id core note_id faults = .ok core') :
    DraftsKept workspace_id (Operation.deleteNote note_id).image
      ((Operation.deleteNote note_id).Keeps host) core.db core'.db := by
  have cleared : core'.db.drafts = (core.db.clearDraft workspace_id note_id).drafts := by
    unfold deleteNoteAt at deleted
    obtain ⟨path, -, deleted⟩ := bind_eq_ok.mp deleted
    dsimp only at deleted
    split at deleted
    · unfold deleteOrphanedDraft at deleted
      obtain ⟨-, -, deleted⟩ := bind_eq_ok.mp deleted
      split at deleted
      · cases deleted
        rfl
      · cases deleted
    · split at deleted
      · cases deleted
      · obtain ⟨-, -, deleted⟩ := bind_eq_ok.mp deleted
        obtain ⟨-, -, deleted⟩ := bind_eq_ok.mp deleted
        cases deleted
        rfl
  have isImage : ∀ id, (Operation.deleteNote note_id).image id =
      if id = note_id then none else some id := fun _ => rfl
  refine draftsKept_of_deleted ?_ (fun id old => .inl rfl) ?_
  · intro id id' found
    rw [isImage] at found
    split at found
    · cases found
    · exact (Option.some.inj found).symm
  · intro row
    rw [cleared, mem_clearDraft]
    refine and_congr_right fun _ => ?_
    rw [isImage]
    constructor
    · intro other own
      split
      · rename_i same
        exact absurd (Prod.ext own same) other
      · exact Option.some_ne_none _
    · intro kept isKey
      have own : row.workspace_id = workspace_id := congrArg Prod.fst isKey
      have same : row.note_id = note_id := congrArg Prod.snd isKey
      exact kept own (if_pos same)

theorem draftsKept_deleteDirectory {path : Text} {removed : List ConceptId} {core' : Core}
    (deleted : deleteDirectoryAt host workspace_id core path faults = .ok (removed, core')) :
    DraftsKept workspace_id (Operation.deleteDirectory path).image
      ((Operation.deleteDirectory path).Keeps host) core.db core'.db := by
  unfold deleteDirectoryAt at deleted
  obtain ⟨directory, normalized, deleted⟩ := bind_eq_ok.mp deleted
  split at deleted
  · cases deleted
  · obtain ⟨absolute, -, deleted⟩ := bind_eq_ok.mp deleted
    dsimp only at deleted
    split at deleted
    · cases deleted
    · split at deleted
      · cases deleted
      · obtain ⟨-, -, deleted⟩ := bind_eq_ok.mp deleted
        obtain ⟨-, -, deleted⟩ := bind_eq_ok.mp deleted
        cases deleted
        rw [discardSessions_db]
        have isImage : ∀ id, (Operation.deleteDirectory path).image id =
            if (directory ++ [slash]).isPrefixOf id then none else some id := by
          rw [(normalizeDirectory_eq_ok normalized).1]
          exact fun _ => rfl
        refine draftsKept_of_deleted ?_ (fun id old => .inl rfl) ?_
        · intro id id' found
          rw [isImage] at found
          split at found
          · cases found
          · exact (Option.some.inj found).symm
        · intro row
          rw [mem_deleteContents]
          refine and_congr_right fun mem => forall_congr' fun own => ?_
          have listed : row.note_id ∈ core.db.draftNoteIds workspace_id := by
            apply List.mem_map.mpr
            exact ⟨row, List.mem_filter.mpr ⟨mem, decide_eq_true own⟩, rfl⟩
          rw [mem_contents, isImage]
          simp only [listed, or_true, true_and, List.isPrefixOf_iff_prefix, ne_eq,
            ite_eq_left_iff, reduceCtorEq, imp_false, not_not]

/-- Where an operation leaves the drafts of its Workspace. One that succeeds re-keys,
rewrites and deletes as its id map says; one that fails changes nothing, unless it had gone
through already and only its state could not be read back. -/
structure KeepsUnflushedWork (host : Host) (workspace_id : WorkspaceId) (op : Operation) (core : Core)
    (outcome : Outcome) : Prop where
  succeeds : ∀ result, outcome.2 = .ok result →
    DraftsKept workspace_id op.image (op.Keeps host) core.db outcome.1.db
  fails : ∀ error, outcome.2 = .error error → outcome.1.db.drafts = core.db.drafts ∨
    ((∃ note_id, settledState host outcome.1 note_id = .error error) ∧
      DraftsKept workspace_id op.image (op.Keeps host) core.db outcome.1.db)

section Outcomes

variable {op : Operation} {outcome : Outcome} {core' : Core}

theorem keepsUnflushedWork_of_eq (fixes : ∀ id, op.image id = some id)
    (same : outcome.1.db.drafts = core.db.drafts) :
    KeepsUnflushedWork host workspace_id op core outcome where
  succeeds _ _ := draftsKept_of_eq fixes same
  fails _ _ := .inl same

theorem keepsUnflushedWork_of_error {error : AppError} (same : core'.db.drafts = core.db.drafts) :
    KeepsUnflushedWork host workspace_id op core (core', .error error) :=
  ⟨fun _ isOk => (by cases isOk), fun _ _ => .inl same⟩

theorem keepsUnflushedWork_of_ok {result : LifecycleResult}
    (kept : DraftsKept workspace_id op.image (op.Keeps host) core.db core'.db) :
    KeepsUnflushedWork host workspace_id op core (core', .ok result) :=
  ⟨fun _ _ => kept, fun _ isError => by cases isError⟩

theorem keepsUnflushedWork_settle {new_id : ConceptId} {effects : LifecycleEffects}
    (kept : DraftsKept workspace_id op.image (op.Keeps host) core.db core'.db) :
    KeepsUnflushedWork host workspace_id op core (settle host core' new_id effects) := by
  refine ⟨fun _ _ => kept, fun error failed => ?_⟩
  refine .inr ⟨⟨new_id, ?_⟩, kept⟩
  change (settledState host core' new_id).map _ = _ at failed
  change settledState host core' new_id = .error error
  cases read : settledState host core' new_id with
  | error error' =>
    rw [read] at failed
    cases failed
    rfl
  | ok state =>
    rw [read] at failed
    cases failed

end Outcomes

theorem renameNote_keeps {note_id new_title : Text} :
    KeepsUnflushedWork host workspace_id (.renameNote note_id new_title) core
      (renameNoteSerialized host workspace_id core note_id new_title now faults) := by
  unfold renameNoteSerialized reidentifyNote
  split
  · exact keepsUnflushedWork_of_error rfl
  · rename_i new_id plan planned
    split
    · exact keepsUnflushedWork_of_error rfl
    · rename_i effects core' applied
      obtain ⟨old_path, new_path, -, -, -, rfl, -, available, rfl⟩ := planRename_spec planned
      apply keepsUnflushedWork_settle
      refine draftsKept_of_single rfl rfl available applied (fun _ => rfl) rfl ?_ ?_
      · intro id title titled
        obtain ⟨retitled, found, rfl⟩ := Option.map_eq_some_iff.mp titled
        obtain ⟨isRetitled, own⟩ := Option.filter_eq_some_iff.mp found
        cases isRetitled
        exact if_pos (of_decide_eq_true own).symm
      · intro id absolute
        cases absolute

theorem moveNote_keeps {note_id : ConceptId} {new_directory_path : Text} :
    KeepsUnflushedWork host workspace_id (.moveNote note_id new_directory_path) core
      (moveNoteSerialized host workspace_id core note_id new_directory_path now faults) := by
  unfold moveNoteSerialized reidentifyNote
  split
  · exact keepsUnflushedWork_of_error rfl
  · rename_i old_path directory bundle located
    dsimp only
    split
    · exact keepsUnflushedWork_of_error rfl
    · rename_i new_id plan planned
      split
      · exact keepsUnflushedWork_of_error rfl
      · rename_i effects core' applied
        obtain ⟨new_path, rfl, -, available, rfl⟩ := planMove_spec planned
        have isDirectory := (normalizeDirectory_eq_ok (locateMove_spec located).2.2.1).1
        apply keepsUnflushedWork_settle
        have same : core.db = ({ core with bundle } : Core).db := rfl
        rw [same]
        refine draftsKept_of_single rfl rfl available applied ?_ rfl ?_ ?_
        · rw [isDirectory]
          exact fun _ => rfl
        · intro id title titled
          cases titled
        · intro id absolute
          dsimp only at absolute
          split at absolute
          · exact decide_eq_true (Option.some.inj absolute).symm
          · cases absolute

theorem renameDirectory_keeps {path new_name : Text} :
    KeepsUnflushedWork host workspace_id (.renameDirectory path new_name) core
      (renameDirectorySerialized host workspace_id core path new_name now faults) := by
  unfold renameDirectorySerialized
  split
  · exact keepsUnflushedWork_of_error rfl
  · rename_i planned
    obtain ⟨directory, normalized, ⟨-, same⟩ | ⟨plan, isSome, -⟩⟩ := planDirectoryRename_spec planned
    · refine keepsUnflushedWork_of_eq (fun id => ?_) rfl
      rw [image_renameDirectory, ← (normalizeDirectory_eq_ok normalized).1, same]
      cases found : id.dropPrefix? (directory ++ [slash]) with
      | none => rfl
      | some rest =>
        obtain ⟨start, shape, isStart⟩ := List.dropPrefix?_eq_some_iff.mp found
        rw [eq_of_beq isStart, List.append_assoc, List.singleton_append] at shape
        rw [Option.elim_some, shape]
    · cases isSome
  · rename_i plan planned
    split
    · exact keepsUnflushedWork_of_error rfl
    · rename_i effects core' applied
      obtain ⟨directory, -, ⟨isNone, -⟩ | ⟨_, isSome, directoryPlan⟩⟩ :=
        planDirectoryRename_spec planned
      · cases isNone
      · cases isSome
        exact keepsUnflushedWork_of_ok (draftsKept_renameDirectory directoryPlan applied)

end Burlmd.Lifecycle
