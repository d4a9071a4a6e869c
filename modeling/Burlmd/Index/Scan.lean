import Mathlib.Data.List.Lex
import Mathlib.Data.List.Sort
import Mathlib.Data.Char
import Burlmd.Index.RowsOf
import Burlmd.Workspace.Bundle

/-!
# Scanning the bundle

The walk lists the Notes and the directories; each Note is then read and derived by
itself.
-/

namespace Burlmd.Index

open Utf8 (Text)
open Okf (ConceptId conceptIdToPath pathToConceptId mdSuffix)

/-- Neither of these files is a Note. -/
def reservedFilenames : List Text := ["index.md".toList, "log.md".toList]

def hidden (name : Text) : Bool := name.head? = some '.'

/-- The concept id under which the walk lists a file. -/
def listedId (path : Path) : Option ConceptId :=
  path.getLast?.bind fun name =>
    if path.all (fun segment => !hidden segment.text) && mdSuffix.isSuffixOf name.text &&
        name.text ∉ reservedFilenames then
      some (pathToConceptId (joinPath path))
    else none

structure BundleScan where
  notes : List ConceptId
  directories : List Text

def walkBundle (bundle : Bundle) : BundleScan where
  notes := (bundle.files.rows.filterMap fun file => listedId file.path).insertionSort (· ≤ ·)
  directories :=
    ((bundle.directories.filter fun path =>
      path ≠ [] ∧ path.all (fun segment => !hidden segment.text)).map joinPath).insertionSort (· ≤ ·)

variable (host : Host)

/-- Derives what the bytes of a Note contribute, lossily where they are not a text. -/
def derive (concept_id : ConceptId) (contents : FileBytes) (last_modified : Int) : IndexedNote :=
  deriveNote host.events host.readFrontmatter concept_id (contents.lossy host)
    (contents.hash host) last_modified

/-- A Note that vanished since the walk contributes nothing. -/
def readNote (bundle : Bundle) (concept_id : ConceptId) : Option IndexedNote :=
  (normalComponents (conceptIdToPath concept_id)).bind fun path =>
    (bundle.file? path).map fun file => derive host concept_id file.contents file.modified

def scanBundle (bundle : Bundle) : ScannedBundle :=
  let scan := walkBundle bundle
  ⟨scan.directories, scan.notes.filterMap (readNote host bundle)⟩

variable {host}

theorem mem_walkBundle {bundle : Bundle} {id : ConceptId} :
    id ∈ (walkBundle bundle).notes ↔ ∃ file ∈ bundle.files, listedId file.path = some id := by
  rw [walkBundle, List.mem_insertionSort, List.mem_filterMap]
  rfl

/-- The spelling that the walk lists a file under leads back to the file. -/
theorem normalComponents_of_listedId {path : Path} {id : ConceptId}
    (listed : listedId path = some id) : normalComponents (conceptIdToPath id) = some path := by
  obtain ⟨name, last, found⟩ := Option.bind_eq_some_iff.mp listed
  split at found
  · rename_i isNote
    obtain rfl := Option.some.inj found
    simp only [Bool.and_eq_true, List.isSuffixOf_iff_suffix] at isNote
    rw [conceptIdToPath_pathToConceptId last isNote.1.2]
    apply normalComponents_joinPath
    rintro rfl
    cases last
  · cases found

theorem listedId_injective {path other : Path} {id : ConceptId}
    (listed : listedId path = some id) (listed' : listedId other = some id) : path = other :=
  Option.some.inj
    ((normalComponents_of_listedId listed).symm.trans (normalComponents_of_listedId listed'))

theorem nodup_walkBundle (bundle : Bundle) : (walkBundle bundle).notes.Nodup := by
  have listed : bundle.files.rows.filterMap (fun file => listedId file.path) =
      (bundle.files.rows.map BundleFile.path).filterMap listedId := by
    rw [List.filterMap_map]
    rfl
  refine (List.perm_insertionSort _ _).nodup_iff.mpr ?_
  rw [listed]
  exact bundle.files.distinct.filterMap fun path other id => listedId_injective

variable (host) in
/-- The rows that the bytes of a Note call for. The time of the last change shows in none
of them. -/
def derivedRows (id : ConceptId) (contents : FileBytes) : NoteRows :=
  .derived host.title_lookup_key (derive host id contents 0)

@[simp] theorem derived_derive (id : ConceptId) (contents : FileBytes) (last_modified : Int) :
    NoteRows.derived host.title_lookup_key (derive host id contents last_modified) =
      derivedRows host id contents := rfl

@[simp] theorem derive_concept_id (id : ConceptId) (contents : FileBytes) (last_modified : Int) :
    (derive host id contents last_modified).concept_id = id := rfl

@[simp] theorem derive_path (id : ConceptId) (contents : FileBytes) (last_modified : Int) :
    (derive host id contents last_modified).path = conceptIdToPath id := rfl

@[simp] theorem derivedRows_content_hash (id : ConceptId) (contents : FileBytes) :
    (derivedRows host id contents).note.map NoteColumns.content_hash =
      some (contents.hash host) := rfl

theorem readNote_eq_some_iff {bundle : Bundle} {id : ConceptId} {note : IndexedNote} :
    readNote host bundle id = some note ↔
      ∃ path file, normalComponents (conceptIdToPath id) = some path ∧
        bundle.file? path = some file ∧ derive host id file.contents file.modified = note := by
  simp [readNote, Option.bind_eq_some_iff]

theorem readNote_of_listed {bundle : Bundle} {file : BundleFile} {id : ConceptId}
    (mem : file ∈ bundle.files) (listed : listedId file.path = some id) :
    readNote host bundle id = some (derive host id file.contents file.modified) :=
  readNote_eq_some_iff.mpr
    ⟨file.path, file, normalComponents_of_listedId listed, Table.find?_key mem, rfl⟩

/-- The index says of every listed Note what its bytes call for. -/
def Agrees (host : Host) (workspace_id : WorkspaceId) (bundle : Bundle) (db : Database) : Prop :=
  ∀ file ∈ bundle.files, ∀ id, listedId file.path = some id →
    db.rowsOf (workspace_id, id) = derivedRows host id file.contents

/-- A rename asks the index for the sources of a Link, and is told all of them. -/
theorem Agrees.mem_linkSources {workspace_id : WorkspaceId} {bundle : Bundle} {db : Database}
    (agrees : Agrees host workspace_id bundle db) {file : BundleFile} (mem : file ∈ bundle.files)
    {id : ConceptId} (listed : listedId file.path = some id) (target_id : ConceptId) :
    id ∈ db.linkSources workspace_id target_id ↔
      ∃ edge ∈ (derive host id file.contents file.modified).links, edge.target_id = target_id := by
  rw [Database.mem_linkSources, agrees file mem id listed, derivedRows,
    NoteRows.derived_links_isSome]
  rfl

end Burlmd.Index
