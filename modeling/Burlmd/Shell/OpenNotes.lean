import Burlmd.Library.Machine
import Burlmd.Shell.SessionState

/-!
# The open Notes of the presentation state

The list of open Notes and the active one among them, under every order of the changes that
the Note controller makes. What it writes at the end of a restore it reads off the tabs.
-/

namespace Burlmd.Shell

open Workspace
open Okf (ConceptId)
open Index (WorkspaceId)
open Snapshot

/-- No Note is open twice, and the active one is open. -/
structure WorkspaceSessionState.Saveable (state : WorkspaceSessionState) : Prop where
  distinct : state.openNoteIds.Nodup
  among : ∀ active, state.activeNoteId = some active → active ∈ state.openNoteIds

namespace WorkspaceSessionState

variable {state : WorkspaceSessionState}

/-- Core accepts the state if it accepts each of its identities. -/
theorem Saveable.accepted {host : Host} {bundle : Bundle} {workspace_id : WorkspaceId}
    (saveable : state.Saveable) (named : workspace_id ≠ [])
    (notes : ∀ id ∈ state.openNoteIds,
      id ≠ [] ∧ validatePersistedNoteId host bundle id = .ok ())
    (directories : ∀ id ∈ state.expandedDirectoryIds.ids,
      id ≠ [] ∧ validatePersistedDirectoryId host id = .ok ()) :
    validateSemantics host bundle workspace_id (.fromSnapshot workspace_id state.toSnapshot) =
      .ok () := by
  apply validateSemantics_iff.mpr
  exact ⟨named, rfl, ⟨saveable.distinct, notes⟩,
    ⟨state.expandedDirectoryIds.distinct, directories⟩, saveable.among⟩

theorem saveable_of_accepted {host : Host} {bundle : Bundle} {workspace_id : WorkspaceId}
    {snapshot : ActiveWorkspaceSessionSnapshot}
    (accepted : validateSemantics host bundle workspace_id (.fromSnapshot workspace_id snapshot) =
      .ok ()) : (fromSnapshot snapshot).Saveable := by
  rcases validateSemantics_iff.mp accepted with ⟨_, _, notes, _, among⟩
  exact ⟨notes.1, among⟩

/-! ## Lists of ids -/

theorem mem_withNote (ids : List ConceptId) (noteId id : ConceptId) :
    id ∈ withNote ids noteId ↔ id ∈ ids ∨ id = noteId := by
  unfold withNote
  split
  · rename_i present
    constructor
    · exact Or.inl
    · intro either
      rcases either with inside | same
      · exact inside
      · exact same ▸ present
  · simp

theorem withNote_nodup {ids : List ConceptId} (distinct : ids.Nodup) (noteId : ConceptId) :
    (withNote ids noteId).Nodup := by
  unfold withNote
  split
  · exact distinct
  · rename_i absent
    apply distinct.append (List.nodup_singleton _)
    exact List.disjoint_singleton.mpr absent

theorem sublist_withNote (ids : List ConceptId) (noteId : ConceptId) :
    ids.Sublist (withNote ids noteId) := by
  unfold withNote
  split
  · exact List.Sublist.refl _
  · exact List.sublist_append_left _ _

/-- The slots after a rekey: the old id's own slot, unless the new id has one. -/
def rekeySlots (ids : List ConceptId) (oldNoteId newNoteId : ConceptId) : List ConceptId :=
  match ids.idxOf? oldNoteId with
  | none => withNote ids newNoteId
  | some oldIndex =>
      if oldNoteId = newNoteId then ids
      else if newNoteId ∈ ids then ids.eraseIdx oldIndex
      else ids.set oldIndex newNoteId

theorem rekeyOpenNoteId_eq (state : WorkspaceSessionState) (oldNoteId newNoteId : ConceptId)
    (makeActive : Bool) :
    state.rekeyOpenNoteId oldNoteId newNoteId makeActive =
      some { state with
        openNoteIds := rekeySlots state.openNoteIds oldNoteId newNoteId
        activeNoteId := state.activeNoteId.map fun active =>
          if makeActive || active = oldNoteId then newNoteId else active } := by
  unfold rekeyOpenNoteId rekeySlots
  cases state.openNoteIds.idxOf? oldNoteId <;> rfl

theorem idxOf?_append_cons {before : List ConceptId} {noteId : ConceptId}
    (unseen : noteId ∉ before) (after : List ConceptId) :
    (before ++ noteId :: after).idxOf? noteId = some before.length := by
  induction before with
  | nil => simp [List.idxOf?_cons]
  | cons first rest ih =>
    rw [List.mem_cons, not_or] at unseen
    rw [List.cons_append, List.idxOf?_cons, ih unseen.2]
    simp [Ne.symm unseen.1]

/-- The new id goes behind the list, or the list is cut at the old one. -/
theorem rekeySlots_cases {ids : List ConceptId} (distinct : ids.Nodup)
    {oldNoteId newNoteId : ConceptId} (changed : oldNoteId ≠ newNoteId) :
    (oldNoteId ∉ ids ∧ rekeySlots ids oldNoteId newNoteId = withNote ids newNoteId) ∨
      ∃ before after, ids = before ++ oldNoteId :: after ∧ oldNoteId ∉ before ++ after ∧
        (newNoteId ∈ ids ∧ rekeySlots ids oldNoteId newNoteId = before ++ after ∨
          newNoteId ∉ ids ∧
            rekeySlots ids oldNoteId newNoteId = before ++ newNoteId :: after) := by
  by_cases present : oldNoteId ∈ ids
  · right
    rcases List.append_of_mem present with ⟨before, after, cut⟩
    have unseen : oldNoteId ∉ before ++ after :=
      (List.nodup_cons.mp (List.nodup_middle.mp (cut ▸ distinct))).1
    have slot : ids.idxOf? oldNoteId = some before.length := by
      rw [cut]
      apply idxOf?_append_cons
      exact fun inside => unseen (List.mem_append_left _ inside)
    refine ⟨before, after, cut, unseen, ?_⟩
    unfold rekeySlots
    rw [slot]
    dsimp only
    rw [if_neg changed]
    by_cases there : newNoteId ∈ ids
    · left
      rw [if_pos there, cut]
      refine ⟨cut ▸ there, ?_⟩
      simp [List.eraseIdx_append_of_length_le]
    · right
      rw [if_neg there, cut]
      refine ⟨cut ▸ there, ?_⟩
      simp
  · left
    refine ⟨present, ?_⟩
    unfold rekeySlots
    rw [List.idxOf?_eq_none_iff.mpr present]

theorem rekeySlots_nodup {ids : List ConceptId} (distinct : ids.Nodup)
    {oldNoteId newNoteId : ConceptId} (changed : oldNoteId ≠ newNoteId) :
    (rekeySlots ids oldNoteId newNoteId).Nodup := by
  rcases rekeySlots_cases distinct changed with
    ⟨_, slots⟩ | ⟨before, after, cut, _, ⟨_, slots⟩ | ⟨absent, slots⟩⟩
  · exact slots ▸ withNote_nodup distinct newNoteId
  · rw [slots]
    exact (List.nodup_cons.mp (List.nodup_middle.mp (cut ▸ distinct))).2
  · rw [slots]
    have rest := (List.nodup_cons.mp (List.nodup_middle.mp (cut ▸ distinct))).2
    apply List.nodup_middle.mpr
    apply List.nodup_cons.mpr
    refine ⟨fun inside => absent ?_, rest⟩
    rw [cut]
    rcases List.mem_append.mp inside with inside | inside
    · exact List.mem_append_left _ inside
    · exact List.mem_append_right _ (List.mem_cons_of_mem _ inside)

theorem rekeySlots_gone {ids : List ConceptId} (distinct : ids.Nodup)
    {oldNoteId newNoteId : ConceptId} (changed : oldNoteId ≠ newNoteId) :
    oldNoteId ∉ rekeySlots ids oldNoteId newNoteId := by
  rcases rekeySlots_cases distinct changed with
    ⟨absent, slots⟩ | ⟨before, after, _, unseen, ⟨_, slots⟩ | ⟨_, slots⟩⟩
  · rw [slots, mem_withNote]
    exact fun either => either.elim absent changed
  · exact slots ▸ unseen
  · rw [slots]
    intro inside
    rcases List.mem_cons.mp (List.perm_middle.mem_iff.mp inside) with same | inside
    · exact changed same
    · exact unseen inside

theorem rekeySlots_new {ids : List ConceptId} (distinct : ids.Nodup)
    {oldNoteId newNoteId : ConceptId} (changed : oldNoteId ≠ newNoteId) :
    newNoteId ∈ rekeySlots ids oldNoteId newNoteId := by
  rcases rekeySlots_cases distinct changed with
    ⟨_, slots⟩ | ⟨before, after, cut, _, ⟨there, slots⟩ | ⟨_, slots⟩⟩
  · exact slots ▸ (mem_withNote _ _ _).mpr (Or.inr rfl)
  · rw [slots]
    rw [cut] at there
    rcases List.mem_cons.mp (List.perm_middle.mem_iff.mp there) with same | inside
    · exact absurd same.symm changed
    · exact inside
  · exact slots ▸ List.mem_append_right _ List.mem_cons_self

/-- The ids a rekey is not about keep their order. -/
theorem rekeySlots_sublist {ids : List ConceptId} (distinct : ids.Nodup)
    {oldNoteId newNoteId : ConceptId} (changed : oldNoteId ≠ newNoteId) :
    (ids.filter (· ≠ oldNoteId)).Sublist (rekeySlots ids oldNoteId newNoteId) := by
  have kept {before after : List ConceptId} (unseen : oldNoteId ∉ before ++ after) :
      (before ++ oldNoteId :: after).filter (· ≠ oldNoteId) = before ++ after := by
    have others : ∀ id ∈ before ++ after, decide (id ≠ oldNoteId) = true := by
      intro id inside
      apply decide_eq_true
      exact fun same => unseen (same ▸ inside)
    rw [List.filter_append, List.filter_cons_of_neg (by simp), ← List.filter_append]
    exact List.filter_eq_self.mpr others
  rcases rekeySlots_cases distinct changed with
    ⟨absent, slots⟩ | ⟨before, after, cut, unseen, ⟨_, slots⟩ | ⟨_, slots⟩⟩
  · rw [slots]
    exact List.filter_sublist.trans (sublist_withNote ids newNoteId)
  · rw [slots, cut]
    exact (kept unseen).symm ▸ List.Sublist.refl _
  · rw [slots, cut, kept unseen]
    exact (List.sublist_cons_self _ _).append_left _

theorem rekeySlots_same (ids : List ConceptId) (noteId : ConceptId) :
    rekeySlots ids noteId noteId = withNote ids noteId := by
  unfold rekeySlots withNote
  cases found : ids.idxOf? noteId with
  | none => rfl
  | some index =>
    have present : noteId ∈ ids := by
      by_contra absent
      rw [List.idxOf?_eq_none_iff.mpr absent] at found
      cases found
    simp [present]

end WorkspaceSessionState

/-! ## One change -/

/-- The ids a change is given. -/
def Change.Given (change : Change) (id : ConceptId) : Prop :=
  match change with
  | .addOpenNoteId noteId | .recordOpenedNoteAsActive noteId | .removeOpenNoteId noteId =>
      id = noteId
  | .setActiveNoteId noteId => noteId = some id
  | .rekeyOpenNoteId oldNoteId newNoteId _ => id = oldNoteId ∨ id = newNoteId
  | _ => False

def Change.Replaces : Change → Prop
  | .replaceOpenNotes _ _ => True
  | _ => False

/-- What a rekey is to make of the state. -/
structure Rekeyed (before after : WorkspaceSessionState) (oldNoteId newNoteId : ConceptId)
    (makeActive : Bool) : Prop where
  gone : oldNoteId ∉ after.openNoteIds
  ordered : (before.openNoteIds.filter (· ≠ oldNoteId)).Sublist after.openNoteIds
  active : makeActive = true ∨ before.activeNoteId = some oldNoteId →
    after.activeNoteId = some newNoteId

/-- What a change may do to the open Notes. -/
structure Change.Sound (change : Change) (before after : WorkspaceSessionState) : Prop where
  removes : ¬ change.Replaces → ∀ id ∈ before.openNoteIds, id ∉ after.openNoteIds →
    change.Given id
  rekeys : ∀ oldNoteId newNoteId makeActive,
    change = .rekeyOpenNoteId oldNoteId newNoteId makeActive → oldNoteId ≠ newNoteId →
      Rekeyed before after oldNoteId newNoteId makeActive

/-- The state after a change that may leave it as it is. -/
def Change.after (change : Change) (state : WorkspaceSessionState) : WorkspaceSessionState :=
  (change.apply state).getD state

section Change

open WorkspaceSessionState

variable {state : WorkspaceSessionState}

/-- A change that only adds ids is sound unless it is a rekey. -/
theorem Change.sound_of_sublist {change : Change} {after : WorkspaceSessionState}
    (grows : state.openNoteIds.Sublist after.openNoteIds)
    (plain : ∀ oldNoteId newNoteId makeActive,
      change ≠ .rekeyOpenNoteId oldNoteId newNoteId makeActive) : change.Sound state after where
  removes _ _ inside outside := absurd (grows.subset inside) outside
  rekeys _ _ _ same := absurd same (plain _ _ _)

theorem addOpenNoteId_after (saveable : state.Saveable) (noteId : ConceptId) :
    let after := (Change.addOpenNoteId noteId).after state
    after.Saveable ∧ state.openNoteIds.Sublist after.openNoteIds := by
  unfold Change.after Change.apply addOpenNoteId
  dsimp only
  split
  · exact ⟨saveable, List.Sublist.refl _⟩
  · rename_i absent
    refine ⟨⟨?_, ?_⟩, List.sublist_append_left _ _⟩
    · apply saveable.distinct.append (List.nodup_singleton _)
      exact List.disjoint_singleton.mpr absent
    · intro active shown
      exact List.mem_append_left _ (saveable.among active shown)

theorem recordOpenedNoteAsActive_after (saveable : state.Saveable) (noteId : ConceptId) :
    let after := (Change.recordOpenedNoteAsActive noteId).after state
    after.Saveable ∧ state.openNoteIds.Sublist after.openNoteIds := by
  unfold Change.after Change.apply recordOpenedNoteAsActive
  by_cases same : state.activeNoteId = some noteId
  · -- an active Note is among the open ones, so nothing is left to do
    simpa [same] using saveable
  · simp only [same, if_false, false_and, Option.getD_some]
    -- the Notes with the active one among them, before the new one joins
    have joined {ids : List ConceptId} (distinct : ids.Nodup)
        (grows : state.openNoteIds.Sublist ids) :
        ((withNote ids noteId).Nodup ∧ ∀ active, some noteId = some active →
          active ∈ withNote ids noteId) ∧ state.openNoteIds.Sublist (withNote ids noteId) := by
      refine ⟨⟨withNote_nodup distinct noteId, ?_⟩, grows.trans (sublist_withNote _ _)⟩
      intro active shown
      cases shown
      exact (mem_withNote _ _ _).mpr (Or.inr rfl)
    split
    · rename_i prior shown
      have all := joined (withNote_nodup saveable.distinct prior) (sublist_withNote _ _)
      exact ⟨⟨all.1.1, all.1.2⟩, all.2⟩
    · have all := joined saveable.distinct (List.Sublist.refl _)
      exact ⟨⟨all.1.1, all.1.2⟩, all.2⟩

theorem removeOpenNoteId_after (saveable : state.Saveable) (noteId : ConceptId) :
    let after := (Change.removeOpenNoteId noteId).after state
    after.Saveable ∧ ∀ id ∈ state.openNoteIds, id ∉ after.openNoteIds → id = noteId := by
  unfold Change.after Change.apply removeOpenNoteId
  dsimp only
  split
  · exact ⟨saveable, fun id inside outside => absurd inside outside⟩
  · refine ⟨⟨saveable.distinct.filter _, ?_⟩, ?_⟩
    · intro active shown
      dsimp only [Option.getD_some] at shown
      split at shown
      · cases shown
      · rename_i other
        apply List.mem_filter.mpr
        refine ⟨saveable.among active shown, decide_eq_true ?_⟩
        exact fun same => other (same ▸ shown)
    · intro id inside outside
      by_contra other
      exact outside (List.mem_filter.mpr ⟨inside, decide_eq_true other⟩)

theorem setActiveNoteId_after (saveable : state.Saveable) (noteId : Option ConceptId) :
    let after := (Change.setActiveNoteId noteId).after state
    after.Saveable ∧ state.openNoteIds.Sublist after.openNoteIds := by
  unfold Change.after Change.apply setActiveNoteId
  dsimp only
  split
  · exact ⟨saveable, List.Sublist.refl _⟩
  · cases noteId with
    | none => exact ⟨⟨saveable.distinct, fun _ shown => by cases shown⟩, List.Sublist.refl _⟩
    | some noteId =>
      refine ⟨⟨withNote_nodup saveable.distinct noteId, ?_⟩, sublist_withNote _ _⟩
      intro active shown
      cases shown
      exact (mem_withNote _ _ _).mpr (Or.inr rfl)

theorem rekeyOpenNoteId_after (state : WorkspaceSessionState) (oldNoteId newNoteId : ConceptId)
    (makeActive : Bool) :
    (Change.rekeyOpenNoteId oldNoteId newNoteId makeActive).after state =
      { state with
        openNoteIds := rekeySlots state.openNoteIds oldNoteId newNoteId
        activeNoteId := state.activeNoteId.map fun active =>
          if makeActive || active = oldNoteId then newNoteId else active } :=
  congrArg (Option.getD · state) (rekeyOpenNoteId_eq state oldNoteId newNoteId makeActive)

theorem rekeyOpenNoteId_saveable (saveable : state.Saveable) (oldNoteId newNoteId : ConceptId)
    (makeActive : Bool) :
    ((Change.rekeyOpenNoteId oldNoteId newNoteId makeActive).after state).Saveable := by
  rw [rekeyOpenNoteId_after]
  by_cases changed : oldNoteId = newNoteId
  · subst changed
    refine ⟨rekeySlots_same _ _ ▸ withNote_nodup saveable.distinct oldNoteId, ?_⟩
    intro active shown
    show active ∈ rekeySlots _ _ _
    rcases Option.map_eq_some_iff.mp shown with ⟨prior, wasActive, moved⟩
    rw [rekeySlots_same]
    apply (mem_withNote _ _ _).mpr
    split at moved
    · exact Or.inr moved.symm
    · exact Or.inl (moved ▸ saveable.among prior wasActive)
  · refine ⟨rekeySlots_nodup saveable.distinct changed, ?_⟩
    intro active shown
    rcases Option.map_eq_some_iff.mp shown with ⟨prior, wasActive, moved⟩
    split at moved
    · exact moved ▸ rekeySlots_new saveable.distinct changed
    · rename_i other
      rw [Bool.or_eq_true, not_or, decide_eq_true_iff] at other
      apply (rekeySlots_sublist saveable.distinct changed).subset
      apply List.mem_filter.mpr
      exact ⟨moved ▸ saveable.among prior wasActive, decide_eq_true (moved ▸ other.2)⟩

theorem rekeyOpenNoteId_sound_iff (saveable : state.Saveable) (oldNoteId newNoteId : ConceptId)
    (makeActive : Bool) :
    (Change.rekeyOpenNoteId oldNoteId newNoteId makeActive).Sound state
        ((Change.rekeyOpenNoteId oldNoteId newNoteId makeActive).after state) ↔
      (oldNoteId ≠ newNoteId → makeActive = true → state.activeNoteId ≠ none) := by
  rw [rekeyOpenNoteId_after]
  constructor
  · intro sound changed active missing
    have shown := (sound.rekeys _ _ _ rfl changed).active (Or.inl active)
    dsimp only at shown
    rw [missing] at shown
    cases shown
  · intro met
    refine ⟨?_, ?_⟩
    · intro _ id inside outside
      left
      by_contra other
      apply outside
      show id ∈ rekeySlots _ _ _
      by_cases changed : oldNoteId = newNoteId
      · subst changed
        exact rekeySlots_same _ _ ▸ (mem_withNote _ _ _).mpr (Or.inl inside)
      · apply (rekeySlots_sublist saveable.distinct changed).subset
        exact List.mem_filter.mpr ⟨inside, decide_eq_true other⟩
    · rintro _ _ _ ⟨⟩ changed
      refine ⟨rekeySlots_gone saveable.distinct changed,
        rekeySlots_sublist saveable.distinct changed, ?_⟩
      intro wanted
      have some_active : ∃ prior, state.activeNoteId = some prior := by
        rcases wanted with active | wasActive
        · exact Option.ne_none_iff_exists'.mp (met changed active)
        · exact ⟨oldNoteId, wasActive⟩
      rcases some_active with ⟨prior, wasActive⟩
      dsimp only
      rw [wasActive] at wanted ⊢
      rw [Option.map_some, if_pos]
      rw [Bool.or_eq_true, decide_eq_true_iff]
      exact wanted.imp_right Option.some.inj

end Change

/-! ## The controller -/

namespace OpenNotes

open Machine

/-- What Core says to the open of a saved Note. -/
inductive Answer where
  | opened
  | notFound
  | failed
  deriving DecidableEq

/-- The saved identities in their order, the active one last if it is not among them. -/
def restoreOrder (openNoteIds : List ConceptId) (activeNoteId : Option ConceptId) :
    List ConceptId :=
  (openNoteIds ++ activeNoteId.toList).reverse.dedup.reverse

section Restore

variable (answer : ConceptId → Answer) (ids : List ConceptId)

def restored : List ConceptId := ids.filter (answer · = .opened)

/-- A Note that is gone is not saved again; one that only failed to open is. -/
def savedIds : List ConceptId := ids.filter fun id => answer id = .opened ∨ answer id = .failed

def restoredActive (activeNoteId : Option ConceptId) : Option ConceptId :=
  ((restored answer ids).find? (some · = activeNoteId)).or (restored answer ids).head?

end Restore

/-- The tabs that Core sessions back, by the id each of them shows. -/
abbrev OpenNoteSessions := List ConceptId

def OpenNoteSessions.upsert (sessions : OpenNoteSessions) (noteId : ConceptId)
    (replacedId : Option ConceptId) : OpenNoteSessions :=
  match sessions.idxOf? (replacedId.getD noteId) with
  | none => sessions ++ [noteId]
  | some index => sessions.set index noteId

def OpenNoteSessions.remove (sessions : OpenNoteSessions) (noteId : ConceptId) :
    OpenNoteSessions :=
  sessions.filter (· ≠ noteId)

structure Shown where
  state : WorkspaceSessionState
  sessions : OpenNoteSessions

inductive Action where
  | addOpenNoteId (noteId : ConceptId)
  | recordOpenedNoteAsActive (noteId : ConceptId)
  | removeOpenNoteId (noteId : ConceptId)
  | setActiveNoteId (noteId : Option ConceptId)
  | rekeyOpenNoteId (oldNoteId newNoteId : ConceptId) (makeActive : Bool)
  | upsert (noteId : ConceptId) (replacedId : Option ConceptId)
  | remove (noteId : ConceptId)
  /-- A restore is over before its end, with the Note of the controller. -/
  | retireRestored (activeNoteId : Option ConceptId)
  /-- The end of a restore that nothing overtook. -/
  | restoreOpenNotes (openNoteIds : List ConceptId) (activeNoteId : Option ConceptId)
      (answer : ConceptId → Answer)

def Action.change (sessions : OpenNoteSessions) : Action → Option Change
  | .addOpenNoteId noteId => some (.addOpenNoteId noteId)
  | .recordOpenedNoteAsActive noteId => some (.recordOpenedNoteAsActive noteId)
  | .removeOpenNoteId noteId => some (.removeOpenNoteId noteId)
  | .setActiveNoteId noteId => some (.setActiveNoteId noteId)
  | .rekeyOpenNoteId oldNoteId newNoteId makeActive =>
      some (.rekeyOpenNoteId oldNoteId newNoteId makeActive)
  | .upsert _ _ | .remove _ => none
  | .retireRestored activeNoteId =>
      some (.replaceOpenNotes sessions (activeNoteId.filter (· ∈ sessions)))
  | .restoreOpenNotes openNoteIds activeNoteId answer =>
      let ids := restoreOrder openNoteIds activeNoteId
      some (.replaceOpenNotes (savedIds answer ids) (restoredActive answer ids activeNoteId))

def Action.sessions (sessions : OpenNoteSessions) : Action → OpenNoteSessions
  | .upsert noteId replacedId => sessions.upsert noteId replacedId
  | .remove noteId => sessions.remove noteId
  | .restoreOpenNotes openNoteIds activeNoteId answer =>
      restored answer (restoreOrder openNoteIds activeNoteId)
  | _ => sessions

def step (s : Shown) (action : Action) : Option Shown :=
  some {
    state := ((action.change s.sessions).bind (·.apply s.state)).getD s.state
    sessions := action.sessions s.sessions }

/-- A rekey finds an active Note if it is to make one active, and an interrupted restore
writes tabs of different Notes. -/
def Kept (s : Shown) : Action → Prop
  | .rekeyOpenNoteId oldNoteId newNoteId makeActive =>
      oldNoteId ≠ newNoteId → makeActive = true → s.state.activeNoteId ≠ none
  | .retireRestored _ => s.sessions.Nodup
  | _ => True

instance (s : Shown) (action : Action) : Decidable (Kept s action) := by
  unfold Kept
  split <;> infer_instance

theorem restoreOrder_nodup (openNoteIds : List ConceptId) (activeNoteId : Option ConceptId) :
    (restoreOrder openNoteIds activeNoteId).Nodup :=
  List.nodup_reverse.mpr (List.nodup_dedup _)

theorem restoredActive_mem {answer : ConceptId → Answer} {ids : List ConceptId}
    {activeNoteId : Option ConceptId} {active : ConceptId}
    (shown : restoredActive answer ids activeNoteId = some active) :
    active ∈ savedIds answer ids := by
  have opened : active ∈ restored answer ids := by
    rcases Option.or_eq_some_iff.mp shown with found | ⟨_, first⟩
    · exact List.mem_of_find?_eq_some found
    · exact List.mem_of_head? first
  rcases List.mem_filter.mp opened with ⟨inside, answered⟩
  apply List.mem_filter.mpr
  exact ⟨inside, decide_eq_true (Or.inl (of_decide_eq_true answered))⟩

/-- A tab list has one tab a Note as long as no tab takes the id of another. -/
theorem OpenNoteSessions.upsert_nodup {sessions : OpenNoteSessions} (distinct : sessions.Nodup)
    {noteId : ConceptId} {replacedId : Option ConceptId}
    (own : ∀ replaced, replacedId = some replaced → noteId ≠ replaced → noteId ∉ sessions) :
    (sessions.upsert noteId replacedId).Nodup := by
  unfold upsert
  by_cases same : replacedId.getD noteId = noteId
  · rw [same]
    cases found : sessions.idxOf? noteId with
    | none =>
      apply distinct.append (List.nodup_singleton _)
      exact List.disjoint_singleton.mpr (List.idxOf?_eq_none_iff.mp found)
    | some index =>
      rcases List.idxOf?_eq_some_iff.mp found with ⟨bound, there, _⟩
      dsimp only
      subst there
      exact (List.set_getElem_self bound).symm ▸ distinct
  · have absent : noteId ∉ sessions := by
      cases replacedId with
      | none => exact absurd rfl same
      | some replaced => exact own replaced rfl (Ne.symm same)
    split
    · apply distinct.append (List.nodup_singleton _)
      exact List.disjoint_singleton.mpr absent
    · exact distinct.set absent

theorem restored_nodup (answer : ConceptId → Answer) (openNoteIds : List ConceptId)
    (activeNoteId : Option ConceptId) :
    (restored answer (restoreOrder openNoteIds activeNoteId)).Nodup :=
  (restoreOrder_nodup openNoteIds activeNoteId).filter _

/-- Each action keeps the list and its member in order exactly where its condition holds. -/
theorem step_iff {s t : Shown} (saveable : s.state.Saveable) {action : Action}
    (stepped : step s action = some t) :
    (t.state.Saveable ∧
      ∀ change, action.change s.sessions = some change → change.Sound s.state t.state) ↔
        Kept s action := by
  cases stepped
  cases action with
  | addOpenNoteId noteId =>
    rcases addOpenNoteId_after saveable noteId with ⟨kept, grows⟩
    refine iff_of_true ⟨kept, ?_⟩ trivial
    rintro _ ⟨⟩
    exact Change.sound_of_sublist grows (fun _ _ _ => nofun)
  | recordOpenedNoteAsActive noteId =>
    rcases recordOpenedNoteAsActive_after saveable noteId with ⟨kept, grows⟩
    refine iff_of_true ⟨kept, ?_⟩ trivial
    rintro _ ⟨⟩
    exact Change.sound_of_sublist grows (fun _ _ _ => nofun)
  | removeOpenNoteId noteId =>
    rcases removeOpenNoteId_after saveable noteId with ⟨kept, removed⟩
    refine iff_of_true ⟨kept, ?_⟩ trivial
    rintro _ ⟨⟩
    exact ⟨fun _ => removed, fun _ _ _ => nofun⟩
  | setActiveNoteId noteId =>
    rcases setActiveNoteId_after saveable noteId with ⟨kept, grows⟩
    refine iff_of_true ⟨kept, ?_⟩ trivial
    rintro _ ⟨⟩
    exact Change.sound_of_sublist grows (fun _ _ _ => nofun)
  | rekeyOpenNoteId oldNoteId newNoteId makeActive =>
    have kept := rekeyOpenNoteId_saveable saveable oldNoteId newNoteId makeActive
    have sound := rekeyOpenNoteId_sound_iff saveable oldNoteId newNoteId makeActive
    constructor
    · intro good
      exact sound.mp (good.2 _ rfl)
    · intro met
      refine ⟨kept, ?_⟩
      rintro _ ⟨⟩
      exact sound.mpr met
  | upsert noteId replacedId =>
    exact iff_of_true ⟨saveable, fun _ => nofun⟩ trivial
  | remove noteId =>
    exact iff_of_true ⟨saveable, fun _ => nofun⟩ trivial
  | retireRestored activeNoteId =>
    constructor
    · intro good
      exact good.1.distinct
    · intro distinct
      refine ⟨⟨distinct, ?_⟩, ?_⟩
      · intro active shown
        exact of_decide_eq_true (Option.filter_eq_some_iff.mp shown).2
      · rintro _ ⟨⟩
        exact ⟨fun other => absurd trivial other, fun _ _ _ => nofun⟩
  | restoreOpenNotes openNoteIds activeNoteId answer =>
    refine iff_of_true ⟨⟨?_, ?_⟩, ?_⟩ trivial
    · exact (restoreOrder_nodup openNoteIds activeNoteId).filter _
    · intro active shown
      exact restoredActive_mem shown
    · rintro _ ⟨⟩
      exact ⟨fun other => absurd trivial other, fun _ _ _ => nofun⟩

/-- The expanded Directories are none of an action's business. -/
theorem step_directories {s t : Shown} {action : Action} (stepped : step s action = some t) :
    t.state.expandedDirectoryIds = s.state.expandedDirectoryIds := by
  cases stepped
  cases action with
  | addOpenNoteId noteId =>
    show (Option.getD (s.state.addOpenNoteId noteId) s.state).expandedDirectoryIds = _
    unfold WorkspaceSessionState.addOpenNoteId
    split <;> rfl
  | recordOpenedNoteAsActive noteId =>
    show (Option.getD (s.state.recordOpenedNoteAsActive noteId) s.state).expandedDirectoryIds = _
    unfold WorkspaceSessionState.recordOpenedNoteAsActive
    dsimp only
    generalize (if s.state.activeNoteId = some noteId then s.state.openNoteIds else _) = ids
    split <;> rfl
  | removeOpenNoteId noteId =>
    show (Option.getD (s.state.removeOpenNoteId noteId) s.state).expandedDirectoryIds = _
    unfold WorkspaceSessionState.removeOpenNoteId
    split <;> rfl
  | setActiveNoteId noteId =>
    show (Option.getD (s.state.setActiveNoteId noteId) s.state).expandedDirectoryIds = _
    unfold WorkspaceSessionState.setActiveNoteId
    split
    · rfl
    · cases noteId <;> rfl
  | rekeyOpenNoteId oldNoteId newNoteId makeActive => rfl
  | upsert noteId replacedId => rfl
  | remove noteId => rfl
  | retireRestored activeNoteId => rfl
  | restoreOpenNotes openNoteIds activeNoteId answer => rfl

variable {host : Host} {bundle : Bundle} {workspace_id : WorkspaceId}

/-- In a run whose steps meet the condition every state is one that Core accepts, and the
condition is what the next step needs. -/
theorem openNotes_stay_saveable {snapshot : ActiveWorkspaceSessionSnapshot}
    (accepted : validateSemantics host bundle workspace_id (.fromSnapshot workspace_id snapshot) =
      .ok ()) {sessions : OpenNoteSessions} {s : Shown}
    (reached : Reaches step Kept ⟨.fromSnapshot snapshot, sessions⟩ s) :
    s.state.Saveable ∧
      (∀ current, (∀ id ∈ s.state.openNoteIds,
          id ≠ [] ∧ validatePersistedNoteId host current id = .ok ()) →
        validateSemantics host current workspace_id
          (.fromSnapshot workspace_id s.state.toSnapshot) = .ok ()) ∧
      ∀ action t, step s action = some t →
        ((t.state.Saveable ∧ ∀ change, action.change s.sessions = some change →
          change.Sound s.state t.state) ↔ Kept s action) := by
  have start := WorkspaceSessionState.saveable_of_accepted accepted
  have both := reached.invariant
    (P := fun s => s.state.Saveable ∧
      s.state.expandedDirectoryIds = .ofList snapshot.expanded_directory_ids)
    ⟨start, rfl⟩ <| by
      intro s action t good met stepped
      exact ⟨((step_iff good.1 stepped).mpr met).1, (step_directories stepped).trans good.2⟩
  refine ⟨both.1, ?_, fun action t stepped => step_iff both.1 stepped⟩
  intro current notes
  rcases validateSemantics_iff.mp accepted with ⟨named, _, _, directories, _⟩
  apply both.1.accepted named notes
  intro id inside
  rw [both.2] at inside
  exact directories.2 id ((DirectorySet.mem_ofList _ _).mp inside)

/-- One Note is open and none is active, as after a first late open that Core would not
take back. -/
def oneOpen : Shown where
  state := { WorkspaceSessionState.fromSnapshot .default with openNoteIds := [['a']] }
  sessions := []

theorem oneOpen_reached {meets : Shown → Action → Prop}
    (met : meets ⟨.fromSnapshot .default, []⟩ (.addOpenNoteId ['a'])) :
    Reaches step meets ⟨.fromSnapshot .default, []⟩ oneOpen :=
  Reaches.refl.tail met rfl

/-- Three Notes are opened, one of them is renamed and comes to the front, one is closed, and
an interrupted restore leaves out an id that has no tab. -/
def threeOpened : List Action :=
  [.recordOpenedNoteAsActive ['a'], .upsert ['a'] none, .recordOpenedNoteAsActive ['b'],
    .upsert ['b'] none, .addOpenNoteId ['c'], .upsert ['c'] none,
    .rekeyOpenNoteId ['c'] ['d'] true, .upsert ['d'] (some ['c']), .removeOpenNoteId ['a'],
    .remove ['a'], .addOpenNoteId ['x'], .retireRestored (some ['d'])]

theorem openNotes_stay_saveable_renamed :
    ∃ s, Machine.run (Machine.guarded step Kept) ⟨.fromSnapshot .default, []⟩ threeOpened =
        some s ∧
      s.state.openNoteIds = [['b'], ['d']] ∧ s.state.activeNoteId = some ['d'] ∧
      s.sessions = [['b'], ['d']] ∧ s.state.Saveable ∧
      ∃ t, step s (.rekeyOpenNoteId ['b'] ['e'] true) = some t ∧
        t.state.openNoteIds = [['e'], ['d']] ∧ t.state.activeNoteId = some ['e'] ∧
        t.state.Saveable := by
  have accepted : validateSemantics .plain ⟨∅, [], []⟩ ['w']
      (.fromSnapshot ['w'] .default) = .ok () := rfl
  have ran : Machine.run (Machine.guarded step Kept) ⟨.fromSnapshot .default, []⟩ threeOpened =
      some _ := rfl
  have good := openNotes_stay_saveable accepted (Reaches.of_guarded ran)
  refine ⟨_, ran, by decide, by decide, by decide, ?_⟩
  refine ⟨good.1, _, rfl, by decide, by decide, ?_⟩
  exact ((good.2.2 (.rekeyOpenNoteId ['b'] ['e'] true) _ rfl).mpr (by decide)).1

/-- A rekey that is to make its Note active leaves none active where none was. -/
theorem rekeyOpenNoteId_stays_inactive :
    Reaches step Any ⟨.fromSnapshot .default, []⟩ oneOpen ∧
      ∃ t, step oneOpen (.rekeyOpenNoteId ['a'] ['b'] true) = some t ∧
        t.state.openNoteIds = [['b']] ∧ t.state.activeNoteId = none :=
  ⟨oneOpen_reached trivial, _, rfl, by decide, by decide⟩

end OpenNotes

end Burlmd.Shell
