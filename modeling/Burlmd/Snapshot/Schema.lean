import Mathlib.Data.Rat.Defs
import Burlmd.Library.Checked
import Burlmd.Lifecycle.Operations

/-!
# Session snapshots

What the process keeps of the presentation of a Workspace: a JSON file in application
support. Its version is looked at first, then its members, then the identities in it.
-/

namespace Burlmd.Snapshot

open Workspace
open Lifecycle (normalizeDirectory linkTargetIdentity)
open Utf8 (Text)
open Okf (ConceptId)
open Index (WorkspaceId)
open Checked

def CURRENT_SCHEMA_VERSION : Nat := 1

inductive SessionSyncPresentation where
  | local_
  | connected
  | paused
  deriving DecidableEq

structure ActiveWorkspaceSessionSnapshot where
  open_note_ids : List ConceptId
  active_note_id : Option ConceptId
  expanded_directory_ids : List Text
  search_query : Text
  sync_presentation : SessionSyncPresentation
  deriving DecidableEq

def ActiveWorkspaceSessionSnapshot.default : ActiveWorkspaceSessionSnapshot where
  open_note_ids := []
  active_note_id := none
  expanded_directory_ids := []
  search_query := []
  sync_presentation := .local_

structure PersistedWorkspaceSessionSnapshot where
  schema_version : Nat
  workspace_id : WorkspaceId
  open_note_ids : List ConceptId
  active_note_id : Option ConceptId
  expanded_directory_ids : List Text
  search_query : Text
  sync_presentation : SessionSyncPresentation
  deriving DecidableEq

namespace PersistedWorkspaceSessionSnapshot

def fromSnapshot (workspace_id : WorkspaceId) (snapshot : ActiveWorkspaceSessionSnapshot) :
    PersistedWorkspaceSessionSnapshot where
  schema_version := CURRENT_SCHEMA_VERSION
  workspace_id
  open_note_ids := snapshot.open_note_ids
  active_note_id := snapshot.active_note_id
  expanded_directory_ids := snapshot.expanded_directory_ids
  search_query := snapshot.search_query
  sync_presentation := snapshot.sync_presentation

def intoSnapshot (persisted : PersistedWorkspaceSessionSnapshot) : ActiveWorkspaceSessionSnapshot where
  open_note_ids := persisted.open_note_ids
  active_note_id := persisted.active_note_id
  expanded_directory_ids := persisted.expanded_directory_ids
  search_query := persisted.search_query
  sync_presentation := persisted.sync_presentation

@[simp] theorem intoSnapshot_fromSnapshot (workspace_id : WorkspaceId)
    (snapshot : ActiveWorkspaceSessionSnapshot) :
    (fromSnapshot workspace_id snapshot).intoSnapshot = snapshot := rfl

end PersistedWorkspaceSessionSnapshot

/-! ## JSON values -/

/-- A number as the JSON reader keeps it. A float is a binary64 value, so a rational. -/
inductive Number where
  | integer (n : Int)
  | float (value : Rat)

/-- The members of an object have distinct names, and stand in the order of the document. -/
inductive Value where
  | null
  | bool (b : Bool)
  | number (n : Number)
  | string (text : Text)
  | array (items : List Value)
  | object (members : List (Text × Value))

namespace Value

def asObject : Value → Option (List (Text × Value))
  | object members => some members
  | _ => none

def asArray : Value → Option (List Value)
  | array items => some items
  | _ => none

def asStr : Value → Option Text
  | string text => some text
  | _ => none

def asU64 : Value → Option Nat
  | number (.integer (.ofNat n)) => some n
  | _ => none

/-- The rounding of large integers keeps them integers above 1. -/
def asF64 : Value → Option Rat
  | number (.integer n) => some n
  | number (.float value) => some value
  | _ => none

end Value

def member (members : List (Text × Value)) (key : Text) : Option Value :=
  (members.find? fun entry => entry.1 = key).map Prod.snd

/-! ## Versions -/

inductive SnapshotVersion where
  | current
  | later
  | unknown
  deriving DecidableEq

/-- `1.0` and `1e0` are the integer 1, too. -/
def isCurrentSchemaVersion (value : Value) : Bool :=
  value.asU64 = some CURRENT_SCHEMA_VERSION || value.asF64 = some (CURRENT_SCHEMA_VERSION : Rat)

def isLaterIntegerSchemaVersion (value : Value) : Bool :=
  value.asU64.any (fun version => CURRENT_SCHEMA_VERSION < version) ||
    value.asF64.any fun version => version.den = 1 && (CURRENT_SCHEMA_VERSION : Rat) < version

def snapshotVersion (raw : Value) : SnapshotVersion :=
  match raw.asObject.bind fun members => member members "schema_version".toList with
  | none => .unknown
  | some version =>
      if isCurrentSchemaVersion version then .current
      else if isLaterIntegerSchemaVersion version then .later
      else .unknown

/-! ## Members -/

def keys : List Text :=
  ["schema_version", "workspace_id", "open_note_ids", "active_note_id", "expanded_directory_ids",
    "search_query", "sync_presentation"].map String.toList

def parseStrings (value : Value) : Option (List Text) := do
  (← value.asArray).mapM Value.asStr

/-- A member that is there, and may be null. -/
def parseNullableString : Value → Option (Option Text)
  | .null => some none
  | value => value.asStr.map some

def SessionSyncPresentation.name : SessionSyncPresentation → Text
  | local_ => "local".toList
  | connected => "connected".toList
  | paused => "paused".toList

def parseSyncPresentation (value : Value) : Option SessionSyncPresentation := do
  let name ← value.asStr
  [.local_, .connected, .paused].find? fun presentation => presentation.name = name

def parseCurrentSchema (raw : Value) : Option PersistedWorkspaceSessionSnapshot := do
  let members ← raw.asObject
  if members.length ≠ keys.length ∨ keys.any fun key => (member members key).isNone then none
  else
    let version ← member members "schema_version".toList
    if isCurrentSchemaVersion version then
      return {
        schema_version := CURRENT_SCHEMA_VERSION
        workspace_id := ← (← member members "workspace_id".toList).asStr
        open_note_ids := ← parseStrings (← member members "open_note_ids".toList)
        active_note_id := ← parseNullableString (← member members "active_note_id".toList)
        expanded_directory_ids := ←
          parseStrings (← member members "expanded_directory_ids".toList)
        search_query := ← (← member members "search_query".toList).asStr
        sync_presentation := ←
          parseSyncPresentation (← member members "sync_presentation".toList) }
    else none

/-- The object that a snapshot is written as. -/
def encode (persisted : PersistedWorkspaceSessionSnapshot) : Value :=
  .object [
    ("schema_version".toList, .number (.integer persisted.schema_version)),
    ("workspace_id".toList, .string persisted.workspace_id),
    ("open_note_ids".toList, .array (persisted.open_note_ids.map .string)),
    ("active_note_id".toList, persisted.active_note_id.elim .null .string),
    ("expanded_directory_ids".toList, .array (persisted.expanded_directory_ids.map .string)),
    ("search_query".toList, .string persisted.search_query),
    ("sync_presentation".toList, .string persisted.sync_presentation.name)]

theorem parseStrings_strings (texts : List Text) :
    parseStrings (.array (texts.map .string)) = some texts := by
  unfold parseStrings
  induction texts with
  | nil => rfl
  | cons text rest ih =>
    have rest_parsed : (rest.map Value.string).mapM Value.asStr = some rest := ih
    show ((text :: rest).map Value.string).mapM Value.asStr = some (text :: rest)
    rw [List.map_cons, List.mapM_cons, rest_parsed]
    rfl

theorem parseNullableString_elim (text : Option Text) :
    parseNullableString (text.elim .null .string) = some text := by
  cases text <;> rfl

theorem parseSyncPresentation_name (presentation : SessionSyncPresentation) :
    parseSyncPresentation (.string presentation.name) = some presentation := by
  cases presentation <;> decide

/-- What a snapshot is written as is read back. -/
theorem parseCurrentSchema_encode {persisted : PersistedWorkspaceSessionSnapshot}
    (current : persisted.schema_version = CURRENT_SCHEMA_VERSION) :
    parseCurrentSchema (encode persisted) = some persisted := by
  obtain ⟨version, workspace_id, open_note_ids, active_note_id, expanded, query, sync⟩ := persisted
  obtain rfl : version = CURRENT_SCHEMA_VERSION := current
  show (do
      let ids ← parseStrings (.array (open_note_ids.map .string))
      let active ← parseNullableString (active_note_id.elim .null .string)
      let directories ← parseStrings (.array (expanded.map .string))
      let presentation ← parseSyncPresentation (.string sync.name)
      some (⟨CURRENT_SCHEMA_VERSION, workspace_id, ids, active, directories, query, presentation⟩ :
        PersistedWorkspaceSessionSnapshot)) = _
  rw [parseStrings_strings, parseNullableString_elim, parseStrings_strings,
    parseSyncPresentation_name]
  rfl

theorem snapshotVersion_encode {persisted : PersistedWorkspaceSessionSnapshot}
    (current : persisted.schema_version = CURRENT_SCHEMA_VERSION) :
    snapshotVersion (encode persisted) = .current := by
  obtain ⟨version, workspace_id, open_note_ids, active_note_id, expanded, query, sync⟩ := persisted
  obtain rfl : version = CURRENT_SCHEMA_VERSION := current
  rfl

/-! ## Identities -/

section Semantics

variable (host : Host) (bundle : Bundle)

def validatePersistedNoteId (note_id : ConceptId) : Except AppError Unit := do
  let _ ← linkTargetIdentity host note_id
  let _ ← notePath host bundle note_id
  return ()

def validatePersistedDirectoryId (path : Text) : Except AppError Unit :=
  if path = [] then
    .error (.pathUnavailable "a persisted Directory identity cannot be empty".toList)
  else do
    let normalized ← normalizeDirectory host path
    if normalized ≠ path then
      .error <| .pathUnavailable <| path ++
        " is not an exact bundle-relative Directory identity".toList
    else return ()

/-- No identity is empty or there twice, and each passes the check. -/
def validateUnique (what : Text) (check : Text → Except AppError Unit) :
    List Text → List Text → Except AppError Unit
  | _, [] => .ok ()
  | seen, id :: rest =>
      if id = [] ∨ id ∈ seen then
        .error <| .parseError <|
          "session snapshot has an empty or duplicate ".toList ++ what ++ " identity".toList
      else do
        check id
        validateUnique what check (id :: seen) rest

def validateUniqueNoteIds : List ConceptId → Except AppError Unit :=
  validateUnique "Note".toList (validatePersistedNoteId host bundle) []

def validateUniqueDirectoryIds : List Text → Except AppError Unit :=
  validateUnique "Directory".toList (validatePersistedDirectoryId host) []

def validateSemantics (workspace_id : WorkspaceId)
    (snapshot : PersistedWorkspaceSessionSnapshot) : Except AppError Unit :=
  if snapshot.workspace_id = [] ∨ snapshot.workspace_id ≠ workspace_id then
    .error <| .parseError
      "session snapshot Workspace identity does not match the active Workspace".toList
  else do
    validateUniqueNoteIds host bundle snapshot.open_note_ids
    validateUniqueDirectoryIds host snapshot.expanded_directory_ids
    match snapshot.active_note_id with
    | none => return ()
    | some active =>
        if active = [] ∨ active ∉ snapshot.open_note_ids then
          .error (.parseError "the active session Note must occur in open_note_ids".toList)
        else validatePersistedNoteId host bundle active

variable {host bundle}

theorem validateUnique_iff {what : Text} {check : Text → Except AppError Unit} {seen ids : List Text} :
    validateUnique what check seen ids = .ok () ↔
      ids.Nodup ∧ ∀ id ∈ ids, id ≠ [] ∧ id ∉ seen ∧ check id = .ok () := by
  induction ids generalizing seen with
  | nil => exact ⟨fun _ => ⟨List.nodup_nil, by simp⟩, fun _ => rfl⟩
  | cons id rest ih =>
    unfold validateUnique
    rw [List.nodup_cons]
    constructor
    · intro valid
      split at valid
      · cases valid
      · rename_i fresh
        obtain ⟨⟨⟩, checked, valid⟩ := bind_eq_ok.mp valid
        obtain ⟨distinct, each⟩ := ih.mp valid
        simp only [not_or] at fresh
        refine ⟨⟨fun again => (each id again).2.1 List.mem_cons_self, distinct⟩, fun other mem => ?_⟩
        rcases List.mem_cons.mp mem with rfl | mem
        · exact ⟨fresh.1, fresh.2, checked⟩
        · obtain ⟨nonempty, unseen, valid⟩ := each other mem
          exact ⟨nonempty, fun inside => unseen (List.mem_cons_of_mem _ inside), valid⟩
    · rintro ⟨⟨fresh, distinct⟩, each⟩
      obtain ⟨nonempty, unseen, checked⟩ := each id List.mem_cons_self
      rw [if_neg (by simp [nonempty, unseen]), checked]
      refine ih.mpr ⟨distinct, fun other mem => ?_⟩
      obtain ⟨nonempty', unseen', checked'⟩ := each other (List.mem_cons_of_mem _ mem)
      refine ⟨nonempty', ?_, checked'⟩
      rw [List.mem_cons, not_or]
      refine ⟨?_, unseen'⟩
      rintro rfl
      exact fresh mem

theorem validateSemantics_iff {workspace_id : WorkspaceId}
    {snapshot : PersistedWorkspaceSessionSnapshot} :
    validateSemantics host bundle workspace_id snapshot = .ok () ↔
      snapshot.workspace_id ≠ [] ∧ snapshot.workspace_id = workspace_id ∧
        (snapshot.open_note_ids.Nodup ∧ ∀ id ∈ snapshot.open_note_ids,
          id ≠ [] ∧ validatePersistedNoteId host bundle id = .ok ()) ∧
        (snapshot.expanded_directory_ids.Nodup ∧ ∀ id ∈ snapshot.expanded_directory_ids,
          id ≠ [] ∧ validatePersistedDirectoryId host id = .ok ()) ∧
        ∀ active, snapshot.active_note_id = some active → active ∈ snapshot.open_note_ids := by
  unfold validateSemantics validateUniqueNoteIds validateUniqueDirectoryIds
  constructor
  · intro valid
    split at valid
    · cases valid
    · rename_i own
      simp only [not_or, not_not] at own
      obtain ⟨⟨⟩, notes, valid⟩ := bind_eq_ok.mp valid
      obtain ⟨⟨⟩, directories, valid⟩ := bind_eq_ok.mp valid
      obtain ⟨distinct, each⟩ := validateUnique_iff.mp notes
      obtain ⟨distinct', each'⟩ := validateUnique_iff.mp directories
      refine ⟨own.1, own.2, ⟨distinct, fun id mem => ⟨(each id mem).1, (each id mem).2.2⟩⟩,
        ⟨distinct', fun id mem => ⟨(each' id mem).1, (each' id mem).2.2⟩⟩, fun active isActive => ?_⟩
      rw [isActive] at valid
      dsimp only at valid
      split at valid
      · cases valid
      · rename_i among
        simp only [not_or, not_not] at among
        exact among.2
  · rintro ⟨nonempty, own, ⟨distinct, each⟩, ⟨distinct', each'⟩, among⟩
    have notes := (@validateUnique_iff "Note".toList (validatePersistedNoteId host bundle) [] _).mpr
      ⟨distinct, fun id mem => ⟨(each id mem).1, List.not_mem_nil, (each id mem).2⟩⟩
    have directories :=
      (@validateUnique_iff "Directory".toList (validatePersistedDirectoryId host) [] _).mpr
        ⟨distinct', fun id mem => ⟨(each' id mem).1, List.not_mem_nil, (each' id mem).2⟩⟩
    rw [if_neg (not_or.mpr ⟨nonempty, not_not.mpr own⟩), notes, directories]
    cases isActive : snapshot.active_note_id with
    | none => rfl
    | some active =>
      have mem := among active isActive
      refine (if_neg ?_).trans (each active mem).2
      exact not_or.mpr ⟨(each active mem).1, not_not.mpr mem⟩

end Semantics

end Burlmd.Snapshot
