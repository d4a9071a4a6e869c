import Burlmd.Lifecycle.Reidentify

/-!
# Lifecycle operations

Creating, renaming, moving and deleting Notes and Directories. Each operation runs alone
in its Workspace: the lifecycle lock keeps the others out, and no edit is admitted while
one runs. A deleted entry goes to a trash name first and is removed when the operation
has gone through.
-/

namespace Burlmd.Lifecycle

open Workspace
open Utf8 (Text)
open Okf (ConceptId conceptIdToPath pathToConceptId containingDir slash)
open Index (WorkspaceId Database derive fileStem)
open Markdown (trim)

/-- What an operation returns of a Note; the tree follows from the source. -/
structure NoteState where
  id : ConceptId
  base_revision : Text
  restored_from_draft : Bool
  deriving DecidableEq, Repr

def NoteSession.noteState (session : NoteSession) : NoteState :=
  ⟨session.note_id, session.revision, session.restored_from_draft⟩

structure LifecycleResult where
  state : Option NoteState
  effects : LifecycleEffects
  removed : List ConceptId
  deriving DecidableEq, Repr

/-- The Core after an operation, and what the caller gets. -/
abbrev Outcome := Core × Except AppError LifecycleResult

variable (host : Host) (workspace_id : WorkspaceId)

/-! ## Names -/

def joinId (directory name : Text) : ConceptId :=
  if directory = [] then name else directory ++ slash :: name

def validateSegment (segment : Text) : Except AppError Unit :=
  if trim segment = [] then
    .error (.pathUnavailable "a Note or Directory name cannot be empty".toList)
  else if segment.head? = some '.' then
    .error <| .pathUnavailable <| segment ++
      (" derives a dot-prefixed filename, which the indexer skips, so the Note would vanish " ++
        "from the Workspace while its file stayed on disk").toList
  else if slash ∈ segment ∨ '\\' ∈ segment ∨ '\x00' ∈ segment then
    .error <| .pathUnavailable <| segment ++
      (" contains a character no filename can carry, and the derivation is verbatim rather " ++
        "than slugifying (data-models/okf-bundle.md)").toList
  else if '\n' ∈ segment ∨ '\r' ∈ segment then
    .error <| .pathUnavailable <| host.debug segment ++
      (" contains a line terminator, which no Link to this Note could carry: the destination " ++
        "form is angle-bracketed and CommonMark forbids a line ending inside one, so every " ++
        "inbound Link would silently stop being a Link").toList
  else .ok ()

def reservedTitles : List Text := ["index".toList, "log".toList]

def isReservedTitle (title : Text) : Bool := pathToConceptId title ∈ reservedTitles

def validateTitle (title : Text) : Except AppError Unit := do
  validateSegment host title
  if isReservedTitle title then
    .error <| .pathUnavailable <| title ++
      " derives to a reserved OKF filename (OKF §3.1 reserves index.md and log.md)".toList
  else return ()

def trimSlashes (path : Text) : Text :=
  ((path.dropWhile (· = slash)).reverse.dropWhile (· = slash)).reverse

/-- The one spelling of a Directory path, empty for the bundle root. -/
def normalizeDirectory (path : Text) : Except AppError Text :=
  let trimmed := trimSlashes path
  let segments := trimmed.splitOn slash
  if '\\' ∈ path then
    .error <| .pathUnavailable <| path ++
      (" does not name a Directory inside the Workspace: a Directory path is `/`-separated and " ++
        "a backslash is a character no segment may carry").toList
  else if '\x00' ∈ path then
    .error <| .pathUnavailable <| host.debug path ++
      " contains a NUL, which no path on this system can carry".toList
  else if '\n' ∈ path ∨ '\r' ∈ path then
    .error <| .pathUnavailable <| host.debug path ++
      (" contains a line terminator, which no Link to a Note beneath it could carry: the " ++
        "destination form is angle-bracketed and CommonMark forbids a line ending inside one").toList
  else if trimmed = [] then .ok []
  else if [] ∈ segments then
    .error <| .pathUnavailable <| path ++
      (" has an empty path segment, so it names one Directory on disk and a different concept " ++
        "id in the index").toList
  else if (normalComponents trimmed).isNone then
    .error <| .pathUnavailable <| path ++
      " does not name a Directory inside the Workspace".toList
  else if segments.any fun segment => segment.head? = some '.' then
    .error <| .pathUnavailable <| path ++
      (" names a dot-prefixed Directory, which the indexer skips, so it would vanish from the " ++
        "Workspace while its contents stayed on disk").toList
  else .ok trimmed

structure LinkTargetIdentity where
  target_id : ConceptId
  directory_path : Text
  title : Text

def linkTargetIdentity (target_id : ConceptId) : Except AppError LinkTargetIdentity :=
  let title := fileStem target_id
  if slash ∈ target_id then do
    let directory_path ← normalizeDirectory host (containingDir target_id)
    validateTitle host title
    if joinId directory_path title = target_id then return ⟨target_id, directory_path, title⟩
    else
      .error <| .pathUnavailable <| target_id ++
        " is not an exact, bundle-relative Link target id".toList
  else do
    validateTitle host target_id
    return ⟨target_id, [], target_id⟩

/-- The path of a normalized Directory. -/
def directoryAbsolute (bundle : Bundle) (directory : Text) : Except AppError Path :=
  let path := (normalComponents directory).getD []
  if bundle.contained path then .ok path
  else
    .error <| .pathUnavailable <| directory ++
      " does not name a Directory inside the Workspace: ".toList ++ host.linkReason directory

/-! ## Preconditions -/

/-- The Note that an operation moves, which does not stand in its own way. -/
structure HeldBy where
  id : ConceptId
  path : Path

def ensurePathAvailable (core : Core) (new_id : ConceptId) (new_path : Path)
    (held : Option HeldBy) : Except AppError Unit :=
  let own := held.any fun source => source.path = new_path
  let named := held.any fun source => source.id = new_id
  if core.bundle.exists_ new_path && !own then
    .error <| .pathUnavailable <| conceptIdToPath new_id ++
      " is already taken in this Workspace".toList
  else if core.db.noteExists workspace_id new_id && !own then
    .error <| .pathUnavailable <| "a Note with concept id ".toList ++ new_id ++
      " already exists in this Workspace".toList
  else if core.db.draftExists workspace_id new_id && !named then
    .error <| .pathUnavailable <| new_id ++
      (" still holds unflushed work from an earlier session: open that Note to recover the " ++
        "draft (or delete it) before taking the name").toList
  else if (core.sessions.find? new_id).isSome && !named then
    .error <| .pathUnavailable <| new_id ++
      (" is still open in another session: close or recover that Note before taking its " ++
        "concept id").toList
  else .ok ()

def ensureDestinationsHoldNoForeignDraftOrSession (core : Core) (remap : Remap) :
    Except AppError Unit :=
  match remap.find? fun renamed =>
      renamed.2 ≠ renamed.1 && core.db.draftExists workspace_id renamed.2 with
  | some (_, new_id) =>
      .error <| .pathUnavailable <| new_id ++
        (" still holds unflushed work from an earlier session: open that Note to recover the " ++
          "draft (or delete it) before moving a Note onto its concept id").toList
  | none =>
      match remap.find? fun renamed =>
          renamed.2 ≠ renamed.1 && (remap.lookup renamed.2).isNone &&
            (core.sessions.find? renamed.2).isSome with
      | some (_, new_id) =>
          .error <| .pathUnavailable <| new_id ++
            (" is still open in another session: close or recover that Note before moving a " ++
              "Directory onto its concept id").toList
      | none => .ok ()

/-- A Directory that the index knows and the disk has lost is made again. -/
def ensureDirectoryExists (core : Core) (directory : Text) : Except AppError Bundle :=
  if directory = [] then .ok core.bundle
  else do
    let absolute ← directoryAbsolute host core.bundle directory
    if core.bundle.isDir absolute then return core.bundle
    else if core.db.directoryExists workspace_id directory then
      return core.bundle.createDirAll absolute
    else
      .error <| .pathUnavailable <| "no Directory at ".toList ++ directory ++
        " in this Workspace".toList

/-- Creates the directories of a path one by one, and tells which ones it created. -/
def materializeDirectories (bundle : Bundle) :
    List Text → List Path → Bundle × List Path × Except AppError Unit
  | [], created => (bundle, created, .ok ())
  | ancestor :: rest, created =>
      match directoryAbsolute host bundle ancestor with
      | .error error => (bundle, created, .error error)
      | .ok absolute =>
          if bundle.isDir absolute then materializeDirectories bundle rest created
          else if bundle.exists_ absolute then
            (bundle, created, .error <| .pathUnavailable <|
              ancestor ++ " is already a file in this Workspace".toList)
          else
            materializeDirectories { bundle with directories := bundle.directories ++ [absolute] }
              rest (absolute :: created)

def materializeLinkTargetDirectories (bundle : Bundle) (directory : Text) :
    Bundle × List Path × Except AppError Unit :=
  materializeDirectories host bundle (Database.directoryAncestors directory) []

/-- Removes the directories that an operation created, innermost first, where they are
empty. -/
def cleanupCreatedDirectories (bundle : Bundle) (created : List Path) : Bundle :=
  created.foldl
    (fun bundle path =>
      if (bundle.files.rows.any fun file => path.isPrefixOf file.path) ||
          (bundle.directories.any fun directory => path.isPrefixOf directory && directory ≠ path)
      then bundle
      else { bundle with directories := bundle.directories.filter (· ≠ path) })
    bundle

/-! ## Creating -/

def opened (session : NoteSession) : LifecycleResult := ⟨some session.noteState, .none, []⟩

def appeared (note_id : ConceptId) : AppError :=
  .pathUnavailable <| conceptIdToPath note_id ++ " appeared while creating the Note".toList

/-- Opens the Note that an operation created. -/
def openCreated (core : Core) (note_id : ConceptId) (faults : LifecycleFaults) :
    Except AppError (NoteSession × Core) := do
  faults.opening.elim (.ok ()) .error
  openNoteSerialized host workspace_id core note_id

/-- The file and the rows of a new Note. -/
def publishNote (core : Core) (note_id : ConceptId) (path : Path) (title : Text)
    (record : Database → Option Database) (now : Int) (faults : LifecycleFaults) :
    Except AppError Core := do
  faults.files.elim (.ok ()) .error
  if core.bundle.isFile path then .error (appeared note_id)
  else
    let source := FileBytes.text (conformantFrontmatter host title)
    let bundle := core.bundle.atomicWrite path source now
    faults.index.elim (.ok ()) .error
    match (core.db.writeNoteRows host.title_lookup_key workspace_id
        (derive host note_id source (fileMtime bundle path))).bind record with
    | none => .error (.databaseError [])
    | some db => return { core with bundle, db }

/-- Takes the rows and the file of an unpublished Note back. -/
def rollbackCreatedNote (core : Core) (note_id : ConceptId) (path : Path) : Core :=
  { core with
    bundle := core.bundle.removeFile path
    db := (core.db.removeNoteRows workspace_id note_id).clearDraft workspace_id note_id }

/-- Where a new Note goes, and the bundle with that directory in it. -/
def locateNewNote (core : Core) (directory_path title : Text) : Except AppError (Text × Bundle) := do
  validateTitle host title
  let directory ← normalizeDirectory host directory_path
  let bundle ← ensureDirectoryExists host workspace_id core directory
  return (directory, bundle)

def publishNewNote (core : Core) (directory title : Text) (now : Int) (faults : LifecycleFaults) :
    Except AppError (Path × Core) := do
  let new_id := joinId directory title
  let new_path ← notePath host core.bundle new_id
  ensurePathAvailable workspace_id core new_id new_path none
  let core ← publishNote host workspace_id core new_id new_path title
    (fun db => db.recordDirectories workspace_id directory) now faults
  return (new_path, core)

def createNoteSerialized (core : Core) (directory_path title : Text) (now : Int)
    (faults : LifecycleFaults) : Outcome :=
  match locateNewNote host workspace_id core directory_path title with
  | .error error => (core, .error error)
  | .ok (directory, bundle) =>
      let core := { core with bundle }
      match publishNewNote host workspace_id core directory title now faults with
      | .error error => (core, .error error)
      | .ok (new_path, core) =>
          match openCreated host workspace_id core (joinId directory title) faults with
          | .error error =>
              (rollbackCreatedNote workspace_id core (joinId directory title) new_path,
                .error error)
          | .ok (session, core) => (core, .ok (opened session))

/-- The Directory rows that the creation of a Note in `directory` adds. -/
def missingDirectoryRows (db : Database) (directory : Text) : List Text :=
  (Database.directoryAncestors directory).filter fun ancestor =>
    !db.directoryExists workspace_id ancestor

def rollbackLinkTargetCreation (core : Core) (note_id : ConceptId) (path : Path)
    (directory_rows : List Text) (created : List Path) (discard_session : Bool) : Core :=
  let core := if discard_session then discardSession core note_id else core
  let db := (core.db.removeNoteRows workspace_id note_id).clearDraft workspace_id note_id
  { core with
    bundle := cleanupCreatedDirectories (core.bundle.removeFile path) created
    db := { db with
      directories := db.directories.delete fun row =>
        row.workspace_id = workspace_id && row.id ∈ directory_rows } }

def publishLinkTarget (core : Core) (identity : LinkTargetIdentity) (new_path : Path) (now : Int)
    (faults : LifecycleFaults) : Except AppError Core := do
  ensurePathAvailable workspace_id core identity.target_id new_path none
  publishNote host workspace_id core identity.target_id new_path identity.title some now faults

/-- Creates the Note that a Link names, with the directories on the way. -/
def createLinkTargetSerialized (core : Core) (identity : LinkTargetIdentity) (now : Int)
    (faults : LifecycleFaults) : Outcome :=
  let target_id := identity.target_id
  if core.db.noteExists workspace_id target_id then
    match openNoteSerialized host workspace_id core target_id with
    | .error error => (core, .error error)
    | .ok (session, core) => (core, .ok (opened session))
  else
    let directory_rows := missingDirectoryRows workspace_id core.db identity.directory_path
    let (bundle, created, materialized) :=
      materializeLinkTargetDirectories host core.bundle identity.directory_path
    let core := { core with bundle }
    let cleaned := { core with bundle := cleanupCreatedDirectories bundle created }
    match materialized with
    | .error error => (cleaned, .error error)
    | .ok () =>
        match notePath host core.bundle target_id with
        | .error error => (core, .error error)
        | .ok new_path =>
            match publishLinkTarget host workspace_id core identity new_path now faults with
            | .error error => (cleaned, .error error)
            | .ok core =>
                match openCreated host workspace_id core target_id faults with
                | .error error =>
                    (rollbackLinkTargetCreation workspace_id core target_id new_path directory_rows
                      created true, .error error)
                | .ok (session, core) => (core, .ok (opened session))

def createLinkTarget (core : Core) (target_id : ConceptId) (now : Int)
    (faults : LifecycleFaults) : Outcome :=
  match linkTargetIdentity host target_id with
  | .error error => (core, .error error)
  | .ok identity => createLinkTargetSerialized host workspace_id core identity now faults

def locateNewDirectory (bundle : Bundle) (path : Text) : Except AppError Text := do
  let directory ← normalizeDirectory host path
  if directory = [] then
    .error <| .pathUnavailable "the bundle root already exists and cannot be created".toList
  else
    let absolute ← directoryAbsolute host bundle directory
    if bundle.isFile absolute then
      .error <| .pathUnavailable <| directory ++ " is already a file in this Workspace".toList
    else return directory

def createDirectorySerialized (core : Core) (path : Text) (faults : LifecycleFaults) : Outcome :=
  match locateNewDirectory host core.bundle path with
  | .error error => (core, .error error)
  | .ok directory =>
      let (bundle, created, materialized) :=
        materializeLinkTargetDirectories host core.bundle directory
      let core := { core with bundle }
      let cleaned := { core with bundle := cleanupCreatedDirectories bundle created }
      match materialized with
      | .error error => (core, .error error)
      | .ok () =>
          match faults.index, core.db.recordDirectories workspace_id directory with
          | some error, _ => (cleaned, .error error)
          | none, none => (cleaned, .error (.databaseError []))
          | none, some db => ({ core with db }, .ok ⟨none, .none, []⟩)

/-! ## Deleting -/

/-- A drafts row that no Note is behind is deleted on its own. -/
def deleteOrphanedDraft (core : Core) (note_id : ConceptId) (faults : LifecycleFaults) :
    Except AppError Core := do
  faults.index.elim (.ok ()) .error
  if core.db.draftExists workspace_id note_id then
    return discardSession { core with db := core.db.clearDraft workspace_id note_id } note_id
  else .error (.notFound ("no Note with concept id ".toList ++ note_id))

def deleteNoteAt (core : Core) (note_id : ConceptId) (faults : LifecycleFaults) :
    Except AppError Core := do
  let path ← notePath host core.bundle note_id
  if !core.bundle.exists_ path && (core.db.indexedTitle workspace_id note_id).isNone then
    deleteOrphanedDraft workspace_id core note_id faults
  else if core.bundle.exists_ path && !core.bundle.isFile path then
    .error <| .notFound <| "no Note with concept id ".toList ++ note_id ++ ": ".toList ++
      conceptIdToPath note_id ++ " is not a file".toList
  else
    faults.files.elim (.ok ()) .error
    faults.index.elim (.ok ()) .error
    let db := (core.db.removeNoteRows workspace_id note_id).clearDraft workspace_id note_id
    return discardSession { core with bundle := core.bundle.removeFile path, db } note_id

def deleteNoteLocked (core : Core) (note_id : ConceptId) (faults : LifecycleFaults) : Outcome :=
  match deleteNoteAt host workspace_id core note_id faults with
  | .error error => (core, .error error)
  | .ok core => (core, .ok ⟨none, .none, [note_id]⟩)

/-- `DELETE FROM directories`, for a Directory and what `LIKE` finds beneath it. -/
def deleteDirectoryRows (db : Database) (directory : Text) : Database :=
  { db with
    directories := db.directories.delete fun row =>
      row.workspace_id = workspace_id &&
        (row.id = directory || Database.likePrefix (directory ++ [slash]) row.id) }

/-- The Notes under a directory, and the drafts rows that no Note is behind. -/
def contents (db : Database) (directory : Text) : List ConceptId × List ConceptId :=
  let contained := db.noteIdsWithPrefix workspace_id (directory ++ [slash])
  (contained, (db.draftIdsWithPrefix workspace_id (directory ++ [slash])).filter (· ∉ contained))

def deleteContents (db : Database) (directory : Text) (removed orphaned_drafts : List ConceptId) :
    Database :=
  let db := removed.foldl
    (fun (db : Database) note_id =>
      (db.removeNoteRows workspace_id note_id).clearDraft workspace_id note_id)
    db
  let db := orphaned_drafts.foldl (fun db note_id => db.clearDraft workspace_id note_id) db
  deleteDirectoryRows workspace_id db directory

def deleteDirectoryAt (core : Core) (path : Text) (faults : LifecycleFaults) :
    Except AppError (List ConceptId × Core) := do
  let directory ← normalizeDirectory host path
  if directory = [] then
    .error (.pathUnavailable "the bundle root cannot be deleted".toList)
  else
    let absolute ← directoryAbsolute host core.bundle directory
    let (removed, orphaned_drafts) := contents workspace_id core.db directory
    if !core.bundle.exists_ absolute && removed.isEmpty && orphaned_drafts.isEmpty then
      .error <| .notFound <| "no Directory at ".toList ++ directory ++ " in this Workspace".toList
    else if core.bundle.exists_ absolute && !core.bundle.isDir absolute then
      .error <| .notFound <| "no Directory at ".toList ++ directory ++
        " in this Workspace: it is a file".toList
    else
      faults.files.elim (.ok ()) .error
      faults.index.elim (.ok ()) .error
      let bundle := core.bundle.removeTree absolute
      let db := deleteContents workspace_id core.db directory removed orphaned_drafts
      let gone := removed ++ orphaned_drafts
      return (gone.dedup.insertionSort (· ≤ ·), gone.foldl discardSession { core with bundle, db })

def deleteDirectoryLocked (core : Core) (path : Text) (faults : LifecycleFaults) : Outcome :=
  match deleteDirectoryAt host workspace_id core path faults with
  | .error error => (core, .error error)
  | .ok (removed, core) => (core, .ok ⟨none, .none, removed⟩)

/-! ## Re-identifying -/

/-- The state of a re-identified Note, from its session or from its file. -/
def settledState (core : Core) (note_id : ConceptId) : Except AppError NoteState :=
  match core.sessions.find? note_id with
  | some session => .ok session.noteState
  | none => do
      let path ← notePath host core.bundle note_id
      match core.bundle.read path with
      | some contents => return ⟨note_id, contents.hash host, false⟩
      | none => .error (ioError host "read" path)

/-- The operation has gone through, also when its state cannot be read back. -/
def settle (core : Core) (note_id : ConceptId) (effects : LifecycleEffects) : Outcome :=
  (core, (settledState host core note_id).map fun state => ⟨some state, effects, []⟩)

def noFile (note_id : ConceptId) : AppError :=
  .notFound ("no file on disk for concept id ".toList ++ note_id)

def singleRemap (note_id new_id : ConceptId) : Remap :=
  if new_id = note_id then [] else [(note_id, new_id)]

/-- Runs a plan for one Note, and reads its state back. -/
def reidentifyNote (core : Core) (now : Int) (faults : LifecycleFaults)
    (planned : Except AppError (ConceptId × Reidentify)) : Outcome :=
  match planned with
  | .error error => (core, .error error)
  | .ok (new_id, plan) =>
      match applyReidentify host workspace_id core plan now faults with
      | .error error => (core, .error error)
      | .ok (effects, core) => settle host core new_id effects

def planRename (core : Core) (note_id new_title : Text) :
    Except AppError (ConceptId × Reidentify) := do
  validateTitle host new_title
  let old_path ← notePath host core.bundle note_id
  if !core.bundle.isFile old_path then .error (noFile note_id)
  else
    let new_id := joinId (containingDir note_id) new_title
    let new_path ← notePath host core.bundle new_id
    ensurePathAvailable workspace_id core new_id new_path (some ⟨note_id, old_path⟩)
    return (new_id,
      { remap := singleRemap note_id new_id
        file_less := []
        invoked := some note_id
        retitled := some (note_id, new_title)
        absolutize := none
        directory_rename := none })

def renameNoteSerialized (core : Core) (note_id new_title : Text) (now : Int)
    (faults : LifecycleFaults) : Outcome :=
  reidentifyNote host workspace_id core now faults
    (planRename host workspace_id core note_id new_title)

/-- Where a Note moves from and to, and the bundle with the target directory in it. -/
def locateMove (core : Core) (note_id : ConceptId) (new_directory_path : Text) :
    Except AppError (Path × Text × Bundle) := do
  let old_path ← notePath host core.bundle note_id
  if !core.bundle.isFile old_path then .error (noFile note_id)
  else
    let directory ← normalizeDirectory host new_directory_path
    let bundle ← ensureDirectoryExists host workspace_id core directory
    return (old_path, directory, bundle)

def planMove (core : Core) (note_id : ConceptId) (directory : Text) (old_path : Path) :
    Except AppError (ConceptId × Reidentify) := do
  let new_id := joinId directory (fileStem note_id)
  let new_path ← notePath host core.bundle new_id
  ensurePathAvailable workspace_id core new_id new_path (some ⟨note_id, old_path⟩)
  return (new_id,
    { remap := singleRemap note_id new_id
      file_less := []
      invoked := some note_id
      retitled := none
      absolutize := if containingDir note_id ≠ directory then some note_id else none
      directory_rename := none })

def moveNoteSerialized (core : Core) (note_id : ConceptId) (new_directory_path : Text) (now : Int)
    (faults : LifecycleFaults) : Outcome :=
  match locateMove host workspace_id core note_id new_directory_path with
  | .error error => (core, .error error)
  | .ok (old_path, directory, bundle) =>
      let core := { core with bundle }
      reidentifyNote host workspace_id core now faults
        (planMove host workspace_id core note_id directory old_path)

/-- The new id of every id under a directory. -/
def directoryRemap (directory new_directory : Text) (ids : List ConceptId) : Remap :=
  (ids.insertionSort (· ≤ ·)).map fun id =>
    (id, new_directory ++ slash :: (id.dropPrefix? (directory ++ [slash])).getD id)

/-- Nothing where the Directory has this name already. -/
def planDirectoryRename (core : Core) (path new_name : Text) :
    Except AppError (Option Reidentify) := do
  let directory ← normalizeDirectory host path
  if directory = [] then .error (.pathUnavailable "the bundle root cannot be renamed".toList)
  else
    validateSegment host new_name
    let new_directory := joinId (containingDir directory) new_name
    let old_absolute ← directoryAbsolute host core.bundle directory
    let new_absolute ← directoryAbsolute host core.bundle new_directory
    if !core.bundle.isDir old_absolute then
      .error <| .notFound <| "no Directory at ".toList ++ directory ++ " in this Workspace".toList
    else if new_directory ≠ directory && core.bundle.exists_ new_absolute &&
        new_absolute ≠ old_absolute then
      .error <| .pathUnavailable <| new_directory ++ " already exists in this Workspace".toList
    else if new_directory = directory then return none
    else
      let (contained, orphaned_drafts) := contents workspace_id core.db directory
      let remap := directoryRemap directory new_directory (contained ++ orphaned_drafts)
      ensureDestinationsHoldNoForeignDraftOrSession workspace_id core remap
      return some
        { remap
          file_less := orphaned_drafts
          invoked := none
          retitled := none
          absolutize := none
          directory_rename := some ⟨directory, new_directory, old_absolute, new_absolute⟩ }

def renameDirectorySerialized (core : Core) (path new_name : Text) (now : Int)
    (faults : LifecycleFaults) : Outcome :=
  match planDirectoryRename host workspace_id core path new_name with
  | .error error => (core, .error error)
  | .ok none => (core, .ok ⟨none, .none, []⟩)
  | .ok (some plan) =>
      match applyReidentify host workspace_id core plan now faults with
      | .error error => (core, .error error)
      | .ok (effects, core) => (core, .ok ⟨none, effects, []⟩)

/-! ## The operations of a Workspace -/

inductive Operation where
  | createNote (directory_path title : Text)
  | createLinkTarget (target_id : ConceptId)
  | createDirectory (path : Text)
  | renameNote (note_id : ConceptId) (new_title : Text)
  | moveNote (note_id : ConceptId) (new_directory_path : Text)
  | renameDirectory (path new_name : Text)
  | deleteNote (note_id : ConceptId)
  | deleteDirectory (path : Text)
  deriving DecidableEq, Repr

def Operation.perform (core : Core) (now : Int) (faults : LifecycleFaults) : Operation → Outcome
  | createNote directory_path title =>
      createNoteSerialized host workspace_id core directory_path title now faults
  | createLinkTarget target_id =>
      Lifecycle.createLinkTarget host workspace_id core target_id now faults
  | createDirectory path => createDirectorySerialized host workspace_id core path faults
  | renameNote note_id new_title =>
      renameNoteSerialized host workspace_id core note_id new_title now faults
  | moveNote note_id new_directory_path =>
      moveNoteSerialized host workspace_id core note_id new_directory_path now faults
  | renameDirectory path new_name =>
      renameDirectorySerialized host workspace_id core path new_name now faults
  | deleteNote note_id => deleteNoteLocked host workspace_id core note_id faults
  | deleteDirectory path => deleteDirectoryLocked host workspace_id core path faults

end Burlmd.Lifecycle
