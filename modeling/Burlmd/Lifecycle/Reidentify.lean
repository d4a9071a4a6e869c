import Mathlib.Data.List.Sort
import Burlmd.Lifecycle.Retitle
import Burlmd.Lifecycle.Session

/-!
# Re-identifying Notes

A rename, a move and a directory rename give Notes new ids. One plan says which; every
text that names such a Note is rewritten with it: the files, the buffers of open Notes
and the drafts rows.
-/

namespace Burlmd.Lifecycle

open Workspace
open Utf8 (Text)
open Okf (ConceptId containingDir slash)
open Index (WorkspaceId Database IndexedNote DirectoryRow derive)

structure DirectoryRename where
  old : Text
  new : Text
  old_absolute : Path
  new_absolute : Path

structure Reidentify where
  remap : Remap
  /-- Ids of drafts rows that no Note is behind. -/
  file_less : List ConceptId
  /-- The one Note the caller named. -/
  invoked : Option ConceptId
  retitled : Option (ConceptId × Text)
  /-- The Note whose relative destinations no longer resolve where it goes. -/
  absolutize : Option ConceptId
  directory_rename : Option DirectoryRename

/-- A Note that the operation gives another id, or another text, or both. -/
structure Affected where
  old_id : ConceptId
  new_id : ConceptId
  old_path : Path
  new_path : Path
  on_disk : Bool
  new_file : Option Text
  new_buffer : Option Text
  new_draft : Option Text
  /-- The revision that the session of the Note goes on from. -/
  revision : Text

structure LifecycleEffects where
  remapped : List (ConceptId × ConceptId)
  rewritten : List ConceptId
  deriving DecidableEq, Repr

def LifecycleEffects.none : LifecycleEffects := ⟨[], []⟩

/-- A step outside the model that fails; what was done before it is undone. -/
structure LifecycleFaults where
  /-- A file system call before publication. -/
  files : Option AppError
  /-- The transaction that publishes. -/
  index : Option AppError
  /-- The opening of a Note that was just created. -/
  opening : Option AppError

def LifecycleFaults.none : LifecycleFaults := ⟨Option.none, Option.none, Option.none⟩

variable (host : Host) (workspace_id : WorkspaceId)

/-! ## Planning -/

/-- Only a Note that changes its directory needs its relative destinations spelled out. -/
def absolutizeIf (absolutize : Bool) (source containing_dir : Text) :
    Except AppError (Option Text) :=
  if absolutize then absolutizeRelativeLinks host.events source containing_dir else .ok none

def rewriteNoteText (source containing_dir : Text) (remap : Remap) (new_title : Option Text)
    (absolutize : Bool) : Except AppError (Option Text) := do
  let retitled := new_title.bind (rewriteFrontmatterTitle host source)
  let base := retitled.getD source
  let absolutized ← absolutizeIf host absolutize base containing_dir
  let base := absolutized.getD base
  match ← rewriteLinkTargets host.events base containing_dir remap with
  | some rewritten => return some rewritten
  | none => return absolutized.or retitled

def rewriteOption (rewrite : Text → Except AppError (Option Text)) :
    Option Text → Except AppError (Option Text)
  | none => .ok none
  | some source => rewrite source

/-- The text of a file whose Links are to be rewritten. -/
def readSource (bundle : Bundle) (path : Path) : Except AppError (Option Text) := do
  match ← readBytes host bundle path with
  | none => return none
  | some contents =>
      match contents.fromUtf8 with
      | some source => return some source
      | none =>
          .error <| .parseError <| host.display (path.map Name.text) ++
            " is not valid UTF-8, so its Links cannot be rewritten without corrupting it".toList

namespace Reidentify

variable (plan : Reidentify)

def newId (old_id : ConceptId) : ConceptId := (plan.remap.lookup old_id).getD old_id

/-- The Notes that the operation is about; the others are only rewritten. -/
def targets : List ConceptId :=
  plan.remap.map Prod.fst ++ plan.retitled.toList.map Prod.fst

def newTitle (old_id : ConceptId) : Option Text :=
  (plan.retitled.filter fun retitled => retitled.1 = old_id).map Prod.snd

def rewrite (old_id : ConceptId) (source : Text) : Except AppError (Option Text) :=
  rewriteNoteText host source (containingDir old_id) plan.remap (plan.newTitle old_id)
    (plan.absolutize = some old_id)

/-- Drafts rows and open Notes count whether or not the index knows a Link of theirs. -/
def candidates (core : Core) : List ConceptId :=
  (plan.targets ++
    plan.remap.flatMap (fun renamed => core.db.linkSources workspace_id renamed.1) ++
    core.db.draftNoteIds workspace_id ++
    core.sessions.rows.map NoteSession.note_id).dedup.insertionSort (· ≤ ·)

def resolved (bundle : Bundle) (old_id : ConceptId) : Except AppError (Path × Path) := do
  let old_path ← notePath host bundle old_id
  let new_path ← notePath host bundle (plan.newId old_id)
  return (old_path, new_path)

/-- What the operation does to one candidate, if it does anything. -/
def affect (core : Core) (old_id : ConceptId) : Except AppError (Option Affected) := do
  match plan.resolved host core.bundle old_id with
  | .error error => if old_id ∈ plan.targets then .error error else return none
  | .ok (old_path, new_path) =>
      let disk ← readSource host core.bundle old_path
      if disk.isNone && (plan.remap.lookup old_id).isSome && old_id ∉ plan.file_less then
        .error (.notFound ("no file on disk for concept id ".toList ++ old_id))
      else
        let buffer := (core.sessions.find? old_id).map NoteSession.source
        let draft := (core.db.readDraft workspace_id old_id).map Index.DraftRow.raw_markdown
        let new_file ← rewriteOption (plan.rewrite host old_id) disk
        let new_buffer ← rewriteOption (plan.rewrite host old_id) buffer
        let new_draft ← rewriteOption (plan.rewrite host old_id) draft
        if disk.isNone && draft.isNone && buffer.isNone then return none
        else if new_file.isNone && new_buffer.isNone && new_draft.isNone &&
            old_id = plan.newId old_id then return none
        else
          return some
            { old_id
              new_id := plan.newId old_id
              old_path
              new_path
              on_disk := disk.isSome
              new_file
              new_buffer
              new_draft
              revision := (FileBytes.text ((new_file.or disk).getD [])).hash host }

def planAffected (core : Core) : Except AppError (List Affected) :=
  ((plan.candidates workspace_id core).mapM (plan.affect host workspace_id core)).map
    List.reduceOption

end Reidentify

/-! ## Writing -/

/-- Texts are written under the old names, and then the entries move. -/
def writeFiles (bundle : Bundle) (plan : Reidentify) (affected : List Affected) (now : Int) :
    Bundle :=
  let bundle := affected.foldl
    (fun bundle a =>
      a.new_file.elim bundle fun source => bundle.atomicWrite a.old_path (.text source) now)
    bundle
  match plan.directory_rename with
  | some rename =>
      (bundle.createDirAll rename.new_absolute.dropLast).rename rename.old_absolute
        rename.new_absolute
  | none =>
      affected.foldl
        (fun bundle a =>
          if a.old_path ≠ a.new_path then
            (bundle.createDirAll a.new_path.dropLast).rename a.old_path a.new_path
          else bundle)
        bundle

def finalSource (bundle : Bundle) (a : Affected) : Except AppError Text :=
  match a.new_file with
  | some source => .ok source
  | none =>
      match (bundle.read a.new_path).bind FileBytes.fromUtf8 with
      | some source => .ok source
      | none => .error (ioError host "read" a.new_path)

/-- The rows of every Note on disk that the operation touched, from what it wrote. -/
def indexedNotes (bundle : Bundle) (affected : List Affected) : Except AppError (List IndexedNote) :=
  (affected.filter Affected.on_disk).mapM fun a => do
    let source ← finalSource host bundle a
    return derive host a.new_id (.text source) (fileMtime bundle a.new_path)

/-- The name of a directory after the rename of one above it. -/
def DirectoryRename.moved (rename : DirectoryRename) (id : Text) : Option Text :=
  if id = rename.old then some rename.new
  else (id.dropPrefix? (rename.old ++ [slash])).map fun rest => rename.new ++ slash :: rest

def rekeyDirectories (db : Database) (rename : DirectoryRename) : Option Database := do
  let existing :=
    (db.directories.rows.filter fun row => row.workspace_id = workspace_id).map DirectoryRow.id
  let db ← existing.foldlM
    (fun (db : Database) id =>
      match rename.moved id with
      | none => some db
      | some moved =>
          Database.insertDirectory
            { db with
              directories := db.directories.delete fun row => row.key = (workspace_id, id) }
            workspace_id moved)
    db
  db.recordDirectories workspace_id rename.new

/-- A draft follows its Note, and is rewritten as its Note is. -/
def carryDraft (now : Int) (db : Database) (a : Affected) : Database :=
  let db := if a.old_id ≠ a.new_id then db.rekeyDraft workspace_id a.old_id a.new_id else db
  a.new_draft.elim db fun draft => db.rewriteDraft workspace_id a.new_id draft now

def rewriteIndex (db : Database) (plan : Reidentify) (affected : List Affected)
    (indexed : List IndexedNote) (now : Int) : Option Database := do
  let db := plan.remap.foldl
    (fun db renamed => db.updateLinkTargets workspace_id renamed.1 renamed.2) db
  let db := affected.foldl (carryDraft workspace_id now) db
  let db := (affected.filter fun a => a.old_id ≠ a.new_id).foldl
    (fun db a => db.removeNoteRows workspace_id a.old_id) db
  let db ← indexed.foldlM
    (fun db note => db.writeNoteRows host.title_lookup_key workspace_id note) db
  match plan.directory_rename with
  | some rename => rekeyDirectories workspace_id db rename
  | none => some db

/-! ## The whole operation -/

/-- What the caller is told beyond the Note it named. -/
def Reidentify.effects (plan : Reidentify) (affected : List Affected) : LifecycleEffects :=
  let beyondTheInvoked := affected.filter fun a => plan.invoked ≠ some a.old_id
  { remapped :=
      (beyondTheInvoked.filter fun a => a.old_id ≠ a.new_id).map fun a => (a.old_id, a.new_id)
    rewritten :=
      (beyondTheInvoked.filter fun a =>
        a.old_id = a.new_id && (a.new_file.isSome || a.new_buffer.isSome || a.new_draft.isSome)).map
          Affected.new_id }

def carrySessions (core : Core) (affected : List Affected) : Core :=
  affected.foldl
    (fun core a => carrySessionForward host core a.old_id a.new_id a.new_buffer a.revision) core

/-- A failure before the transaction commits leaves the Core as it was. -/
def applyReidentify (core : Core) (plan : Reidentify) (now : Int) (faults : LifecycleFaults) :
    Except AppError (LifecycleEffects × Core) := do
  let affected ← plan.planAffected host workspace_id core
  faults.files.elim (.ok ()) .error
  let bundle := writeFiles core.bundle plan affected now
  let indexed ← indexedNotes host bundle affected
  faults.index.elim (.ok ()) .error
  match rewriteIndex host workspace_id core.db plan affected indexed now with
  | none => .error (.databaseError [])
  | some db => return (plan.effects affected, carrySessions host { core with bundle, db } affected)

end Burlmd.Lifecycle
