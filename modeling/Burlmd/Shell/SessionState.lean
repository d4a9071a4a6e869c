import Mathlib.Data.List.Dedup
import Burlmd.Snapshot.Schema

/-!
# Presentation state

What the shell shows of a Workspace, and the changes its widgets make to it. A change
that leaves everything as it is has no result, and schedules no save.
-/

namespace Burlmd.Shell

open Utf8 (Text)
open Okf (ConceptId slash)
open Snapshot (ActiveWorkspaceSessionSnapshot SessionSyncPresentation)

/-- A set in the order in which its elements came. -/
structure DirectorySet where
  ids : List Text
  distinct : ids.Nodup
  deriving DecidableEq

namespace DirectorySet

def empty : DirectorySet := ⟨[], List.nodup_nil⟩

def ofList (ids : List Text) : DirectorySet :=
  ⟨ids.reverse.dedup.reverse, List.nodup_reverse.mpr (List.nodup_dedup _)⟩

def toggle (directories : DirectorySet) (directoryId : Text) : DirectorySet :=
  if absent : directoryId ∉ directories.ids then
    ⟨directories.ids ++ [directoryId], directories.distinct.append (List.nodup_singleton _)
      (List.disjoint_singleton.mpr absent)⟩
  else ⟨directories.ids.erase directoryId, directories.distinct.erase directoryId⟩

def filter (keep : Text → Bool) (directories : DirectorySet) : DirectorySet :=
  ⟨directories.ids.filter keep, directories.distinct.filter keep⟩

@[simp] theorem mem_ofList (ids : List Text) (id : Text) : id ∈ (ofList ids).ids ↔ id ∈ ids := by
  simp [ofList]

theorem mem_toggle (directories : DirectorySet) (directoryId id : Text) :
    id ∈ (directories.toggle directoryId).ids ↔
      if id = directoryId then directoryId ∉ directories.ids else id ∈ directories.ids := by
  unfold toggle
  split
  · rename_i absent
    by_cases same : id = directoryId <;> simp [same, absent]
  · rename_i present
    rw [directories.distinct.mem_erase_iff]
    by_cases same : id = directoryId
    · simpa [same] using present
    · simp [same]

end DirectorySet

structure WorkspaceSessionState where
  openNoteIds : List ConceptId
  activeNoteId : Option ConceptId
  expandedDirectoryIds : DirectorySet
  searchQuery : Text
  syncPresentation : SessionSyncPresentation
  deriving DecidableEq

namespace WorkspaceSessionState

def empty : WorkspaceSessionState where
  openNoteIds := []
  activeNoteId := none
  expandedDirectoryIds := .empty
  searchQuery := []
  syncPresentation := .local_

def fromSnapshot (snapshot : ActiveWorkspaceSessionSnapshot) : WorkspaceSessionState where
  openNoteIds := snapshot.open_note_ids
  activeNoteId := snapshot.active_note_id
  expandedDirectoryIds := .ofList snapshot.expanded_directory_ids
  searchQuery := snapshot.search_query
  syncPresentation := snapshot.sync_presentation

def toSnapshot (state : WorkspaceSessionState) : ActiveWorkspaceSessionSnapshot where
  open_note_ids := state.openNoteIds
  active_note_id := state.activeNoteId
  expanded_directory_ids := state.expandedDirectoryIds.ids
  search_query := state.searchQuery
  sync_presentation := state.syncPresentation

/-- What is saved is what a restore shows again. -/
theorem fromSnapshot_toSnapshot (state : WorkspaceSessionState) :
    fromSnapshot state.toSnapshot = state := by
  have same : DirectorySet.ofList state.expandedDirectoryIds.ids = state.expandedDirectoryIds := by
    have distinct := List.nodup_reverse.mpr state.expandedDirectoryIds.distinct
    simp [DirectorySet.ofList, distinct.dedup]
  simp [fromSnapshot, toSnapshot, same]

/-! ## Changes -/

variable (state : WorkspaceSessionState)

def setSearchQuery (query : Text) : Option WorkspaceSessionState :=
  if state.searchQuery = query then none else some { state with searchQuery := query }

def toggleDirectory (directoryId : Text) : Option WorkspaceSessionState :=
  some { state with expandedDirectoryIds := state.expandedDirectoryIds.toggle directoryId }

/-- Where the rename of a Directory moves a path. -/
def rekeyPath (oldPath newPath path : Text) : Text :=
  if path = oldPath then newPath
  else
    match path.dropPrefix? (oldPath ++ [slash]) with
    | some rest => newPath ++ slash :: rest
    | none => path

def rekeyExpandedDirectoryPrefix (oldPath newPath : Text) : Option WorkspaceSessionState :=
  let expanded := DirectorySet.ofList
    (state.expandedDirectoryIds.ids.map (rekeyPath oldPath newPath))
  if expanded.ids.length = state.expandedDirectoryIds.ids.length ∧
      ∀ path ∈ expanded.ids, path ∈ state.expandedDirectoryIds.ids then none
  else some { state with expandedDirectoryIds := expanded }

def removeExpandedDirectoryPrefix (path : Text) : Option WorkspaceSessionState :=
  let expanded := state.expandedDirectoryIds.filter fun candidate =>
    candidate ≠ path && !(path ++ [slash]).isPrefixOf candidate
  if expanded.ids.length = state.expandedDirectoryIds.ids.length then none
  else some { state with expandedDirectoryIds := expanded }

/-- Appends an id that is not there yet. -/
def withNote (ids : List ConceptId) (noteId : ConceptId) : List ConceptId :=
  if noteId ∈ ids then ids else ids ++ [noteId]

def addOpenNoteId (noteId : ConceptId) : Option WorkspaceSessionState :=
  if noteId ∈ state.openNoteIds then none
  else some { state with openNoteIds := state.openNoteIds ++ [noteId] }

/-- An active id that is displaced becomes an open one. -/
def recordOpenedNoteAsActive (noteId : ConceptId) : Option WorkspaceSessionState :=
  let openNoteIds :=
    if state.activeNoteId = some noteId then state.openNoteIds
    else
      let displaced := match state.activeNoteId with
        | some prior => withNote state.openNoteIds prior
        | none => state.openNoteIds
      withNote displaced noteId
  if state.activeNoteId = some noteId ∧ openNoteIds.length = state.openNoteIds.length then none
  else some { state with openNoteIds, activeNoteId := some noteId }

def removeOpenNoteId (noteId : ConceptId) : Option WorkspaceSessionState :=
  if noteId ∉ state.openNoteIds then none
  else
    some { state with
      openNoteIds := state.openNoteIds.filter (· ≠ noteId)
      activeNoteId := if state.activeNoteId = some noteId then none else state.activeNoteId }

def replaceOpenNotes (openNoteIds : List ConceptId) (activeNoteId : Option ConceptId) :
    Option WorkspaceSessionState :=
  some { state with openNoteIds, activeNoteId }

def setActiveNoteId (noteId : Option ConceptId) : Option WorkspaceSessionState :=
  if state.activeNoteId = noteId then none
  else
    match noteId with
    | none => some { state with activeNoteId := none }
    | some noteId =>
        some { state with
          openNoteIds := withNote state.openNoteIds noteId
          activeNoteId := some noteId }

/-- No tab becomes active where none was, whatever `makeActive` says. -/
def rekeyOpenNoteId (oldNoteId newNoteId : ConceptId) (makeActive : Bool) :
    Option WorkspaceSessionState :=
  let openNoteIds := match state.openNoteIds.idxOf? oldNoteId with
    | none => withNote state.openNoteIds newNoteId
    | some oldIndex =>
        if oldNoteId = newNoteId then state.openNoteIds
        else if newNoteId ∈ state.openNoteIds then state.openNoteIds.eraseIdx oldIndex
        else state.openNoteIds.set oldIndex newNoteId
  let activeNoteId := state.activeNoteId.map fun active =>
    if makeActive || active = oldNoteId then newNoteId else active
  some { state with openNoteIds, activeNoteId }

end WorkspaceSessionState

inductive Change where
  | setSearchQuery (query : Text)
  | toggleDirectory (directoryId : Text)
  | rekeyExpandedDirectoryPrefix (oldPath newPath : Text)
  | removeExpandedDirectoryPrefix (path : Text)
  | addOpenNoteId (noteId : ConceptId)
  | recordOpenedNoteAsActive (noteId : ConceptId)
  | removeOpenNoteId (noteId : ConceptId)
  | replaceOpenNotes (openNoteIds : List ConceptId) (activeNoteId : Option ConceptId)
  | setActiveNoteId (noteId : Option ConceptId)
  | rekeyOpenNoteId (oldNoteId newNoteId : ConceptId) (makeActive : Bool)

def Change.apply (change : Change) (state : WorkspaceSessionState) :
    Option WorkspaceSessionState :=
  match change with
  | setSearchQuery query => state.setSearchQuery query
  | toggleDirectory directoryId => state.toggleDirectory directoryId
  | rekeyExpandedDirectoryPrefix oldPath newPath =>
      state.rekeyExpandedDirectoryPrefix oldPath newPath
  | removeExpandedDirectoryPrefix path => state.removeExpandedDirectoryPrefix path
  | addOpenNoteId noteId => state.addOpenNoteId noteId
  | recordOpenedNoteAsActive noteId => state.recordOpenedNoteAsActive noteId
  | removeOpenNoteId noteId => state.removeOpenNoteId noteId
  | replaceOpenNotes openNoteIds activeNoteId => state.replaceOpenNotes openNoteIds activeNoteId
  | setActiveNoteId noteId => state.setActiveNoteId noteId
  | rekeyOpenNoteId oldNoteId newNoteId makeActive =>
      state.rekeyOpenNoteId oldNoteId newNoteId makeActive

end Burlmd.Shell
