import Burlmd.Error
import Burlmd.Index.Store
import Burlmd.Library.PathTree

/-!
# The bundle on disk

A bundle is a tree of files, each under the path of its directories. Symbolic links are
known by their path only: nothing is read or written through one.
-/

namespace Burlmd

open Utf8 (Text)
open Okf (ConceptId conceptIdToPath pathToConceptId slash mdSuffix)

/-- What the model takes from code outside the repository. -/
structure Host where
  /-- The event stream of the Markdown parser. -/
  events : Text → List (Markdown.Event × Utf8.Range)
  /-- What the YAML reader reports of a frontmatter block. -/
  readFrontmatter : Text → Index.Frontmatter
  /-- SHA-256, hex-encoded. -/
  content_hash : List UInt8 → Text
  /-- Compatibility normalization and case folding. -/
  title_lookup_key : Text → Text
  /-- Decodes bytes that are not UTF-8, a replacement character for each bad sequence. -/
  from_utf8_lossy : List UInt8 → Text
  /-- Alphabetic or numeric, by the Unicode tables. -/
  is_alphanumeric : Char → Bool
  /-- The debug form of a text in a message. -/
  debug : Text → Text
  /-- Why a directory path with a symbolic link in it is refused. -/
  linkReason : Text → Text
  /-- The absolute path of a bundle entry, as a message shows it. -/
  display : List Text → Text
  /-- The reason that the operating system gives for a refused call. -/
  os_error : List Text → Text

/-- What a file or a directory can be called. -/
def Nameable (text : Text) : Prop :=
  text ≠ [] ∧ text ≠ ['.'] ∧ text ≠ ['.', '.'] ∧ slash ∉ text ∧ '\x00' ∉ text

instance (text : Text) : Decidable (Nameable text) :=
  inferInstanceAs (Decidable (_ ∧ _ ∧ _ ∧ _ ∧ _))

structure Name where
  text : Text
  nameable : Nameable text
  deriving DecidableEq

def Name.of? (text : Text) : Option Name :=
  if nameable : Nameable text then some ⟨text, nameable⟩ else none

/-- The names of the directories that lead to an entry, and its own. -/
abbrev Path := List Name

/-- The bytes of a file: those of a text, or bytes that no text has. -/
inductive FileBytes where
  | text (source : Text)
  | binary (bytes : List UInt8) (invalid : ∀ source, Utf8.bytes source ≠ bytes)
  deriving DecidableEq

namespace FileBytes

def bytes : FileBytes → List UInt8
  | text source => Utf8.bytes source
  | binary bytes _ => bytes

def fromUtf8 : FileBytes → Option Text
  | text source => some source
  | binary _ _ => none

def lossy (host : Host) : FileBytes → Text
  | text source => source
  | binary bytes _ => host.from_utf8_lossy bytes

def hash (host : Host) (contents : FileBytes) : Text := host.content_hash contents.bytes

theorem bytes_injective : Function.Injective bytes := by
  intro first second same
  cases first with
  | text source =>
    cases second with
    | text source' => rw [Utf8.bytes_injective same]
    | binary bytes invalid => exact absurd same (invalid source)
  | binary bytes invalid =>
    cases second with
    | text source => exact absurd same.symm (invalid source)
    | binary bytes' invalid' =>
      obtain rfl : bytes = bytes' := same
      rfl

theorem hash_injective {host : Host} (injective : Function.Injective host.content_hash) :
    Function.Injective (hash host) :=
  injective.comp bytes_injective

end FileBytes

structure BundleFile where
  path : Path
  contents : FileBytes
  modified : Int
  deriving DecidableEq

/-- What a directory lists. -/
inductive Entry where
  | file (contents : FileBytes)
  | directory
  | link
  deriving DecidableEq

structure Bundle where
  files : Table BundleFile.path
  directories : List Path
  symlinks : List Path

namespace Bundle

def file? (bundle : Bundle) (path : Path) : Option BundleFile := bundle.files.find? path

def read (bundle : Bundle) (path : Path) : Option FileBytes :=
  (bundle.file? path).map BundleFile.contents

def isFile (bundle : Bundle) (path : Path) : Bool := (bundle.file? path).isSome

/-- The bundle root is a directory. -/
def isDir (bundle : Bundle) (path : Path) : Bool := path = [] || path ∈ bundle.directories

def exists_ (bundle : Bundle) (path : Path) : Bool :=
  bundle.isFile path || bundle.isDir path || path ∈ bundle.symlinks

/-- The tree of a bundle. Its root is a directory. -/
def entry (bundle : Bundle) : PathTree Name Entry := fun path =>
  if path = [] then some .directory
  else
    match bundle.read path with
    | some contents => some (.file contents)
    | none =>
        if path ∈ bundle.directories then some .directory
        else if path ∈ bundle.symlinks then some .link
        else none

/-- Publishes a file whole, in the place of the one that is there. -/
def atomicWrite (bundle : Bundle) (path : Path) (contents : FileBytes) (modified : Int) : Bundle :=
  { bundle with files := bundle.files.put ⟨path, contents, modified⟩ }

def removeFile (bundle : Bundle) (path : Path) : Bundle :=
  { bundle with files := bundle.files.delete fun file => file.path = path }

/-- Where a path under `source` is once `source` is called `target`. -/
def relocate (source target path : Path) : Path :=
  if source <+: path then target ++ path.drop source.length else path

/-- Renames a file, or a directory with all that it holds. -/
def rename (bundle : Bundle) (source target : Path) : Bundle where
  files := bundle.files.updateOrReplace (fun file => source <+: file.path) fun file =>
    { file with path := relocate source target file.path }
  directories := bundle.directories.map (relocate source target)
  symlinks := bundle.symlinks.map (relocate source target)

/-- Removes whatever is at a path or beneath it. -/
def removeTree (bundle : Bundle) (path : Path) : Bundle where
  files := bundle.files.delete fun file => path <+: file.path
  directories := bundle.directories.filter fun directory => !path.isPrefixOf directory
  symlinks := bundle.symlinks.filter fun link => !path.isPrefixOf link

/-- Creates a directory and the ancestors it lacks. -/
def createDirAll (bundle : Bundle) (path : Path) : Bundle :=
  { bundle with
    directories := bundle.directories ++
      (path.inits.tail.filter fun ancestor => ancestor ∉ bundle.directories) }

/-- No component of the path is a symbolic link. -/
def contained (bundle : Bundle) (path : Path) : Bool :=
  path.inits.tail.all fun ancestor => ancestor ∉ bundle.symlinks

end Bundle

/-- The levels on the way to a path, the path itself included. -/
theorem mem_tail_inits {α : Type} {front list : List α} :
    front ∈ list.inits.tail ↔ front <+: list ∧ front ≠ [] := by
  cases list with
  | nil =>
    rw [List.prefix_nil]
    exact ⟨fun mem => (by cases mem), fun both => absurd both.1 both.2⟩
  | cons first rest =>
    rw [← List.mem_inits, List.inits_cons, List.tail_cons, List.mem_cons]
    constructor
    · intro mem
      refine ⟨.inr mem, ?_⟩
      rintro rfl
      rcases List.mem_map.mp mem with ⟨_, -, isNil⟩
      cases isNil
    · rintro ⟨isNil | mem, nonempty⟩
      · exact absurd isNil nonempty
      · exact mem

/-- The spelling of a path from the bundle root. -/
def joinPath (path : Path) : Text := [slash].intercalate (path.map Name.text)

/-- The components of a relative path, or nothing when one of them is not a name. -/
def normalComponents (relative : Text) : Option Path :=
  let segments := relative.splitOn slash
  -- an absolute path, or one that starts at the current directory
  if segments.head? = some [] ∨ segments.head? = some ['.'] then none
  else (segments.filter fun segment => segment ≠ [] ∧ segment ≠ ['.']).mapM Name.of?

/-! ## Spellings -/

theorem Name.of?_text (name : Name) : Name.of? name.text = some name := dif_pos name.nameable

theorem mapM_of?_text (path : Path) : (path.map Name.text).mapM Name.of? = some path := by
  induction path with
  | nil => rfl
  | cons name rest ih =>
    simp only [List.map_cons, List.mapM_cons, Name.of?_text, ih]
    rfl

theorem splitOn_joinPath {path : Path} (nonempty : path ≠ []) :
    (joinPath path).splitOn slash = path.map Name.text := by
  apply List.splitOn_intercalate
  · intro text mem
    obtain ⟨name, -, rfl⟩ := List.mem_map.mp mem
    exact name.nameable.2.2.2.1
  · simpa using nonempty

/-- The spelling of a path leads back to it. -/
theorem normalComponents_joinPath {path : Path} (nonempty : path ≠ []) :
    normalComponents (joinPath path) = some path := by
  have split := splitOn_joinPath nonempty
  obtain ⟨first, rest, rfl⟩ := List.exists_cons_of_ne_nil nonempty
  have kept : ∀ segment ∈ (first :: rest).map Name.text, segment ≠ [] ∧ segment ≠ ['.'] := by
    intro segment mem
    obtain ⟨name, -, rfl⟩ := List.mem_map.mp mem
    exact ⟨name.nameable.1, name.nameable.2.1⟩
  have head := kept first.text List.mem_cons_self
  unfold normalComponents
  rw [split, if_neg (by simpa using head), List.filter_eq_self.mpr (by simpa using kept)]
  exact mapM_of?_text _

theorem joinPath_singleton (name : Name) : joinPath [name] = name.text := by
  simp [joinPath]

theorem joinPath_cons {name : Name} {rest : Path} (more : rest ≠ []) :
    joinPath (name :: rest) = name.text ++ slash :: joinPath rest := by
  simp [joinPath, List.intercalate_cons_of_ne_nil, more]

theorem suffix_joinPath {path : Path} {name : Name} (last : path.getLast? = some name) :
    name.text <:+ joinPath path := by
  induction path with
  | nil => cases last
  | cons first rest ih =>
    by_cases more : rest = []
    · subst more
      obtain rfl : first = name := by simpa using last
      simp only [joinPath_singleton, List.suffix_rfl]
    · rw [joinPath_cons more]
      have inRest := ih (by rwa [List.getLast?_cons_of_ne_nil more] at last)
      exact inRest.trans ((List.suffix_cons _ _).trans (List.suffix_append _ _))

theorem conceptIdToPath_pathToConceptId {path : Path} {name : Name}
    (last : path.getLast? = some name) (isNote : mdSuffix <:+ name.text) :
    conceptIdToPath (pathToConceptId (joinPath path)) = joinPath path := by
  have relative : (joinPath path).dropPrefix? [slash] = none := by
    cases found : (joinPath path).dropPrefix? [slash] with
    | none => rfl
    | some stripped =>
      obtain ⟨slash', shape, same⟩ := List.dropPrefix?_eq_some_iff.mp found
      obtain rfl := eq_of_beq same
      cases path with
      | nil => cases last
      | cons first rest =>
        have split : ∃ tail, joinPath (first :: rest) = first.text ++ tail := by
          by_cases more : rest = []
          · exact ⟨[], by rw [more, joinPath_singleton, List.append_nil]⟩
          · exact ⟨_, joinPath_cons more⟩
        obtain ⟨tail, isText⟩ := split
        obtain ⟨c, chars, isFirst⟩ := List.exists_cons_of_ne_nil first.nameable.1
        rw [isText, isFirst] at shape
        have noSlash := first.nameable.2.2.2.1
        rw [isFirst] at noSlash
        simp only [List.cons_append, List.nil_append, List.cons.injEq] at shape
        exact absurd (by rw [shape.1]; exact List.mem_cons_self) noSlash
  obtain ⟨stem, isStem⟩ := isNote.trans (suffix_joinPath last)
  have dropped : (joinPath path).dropSuffix? mdSuffix = some stem :=
    List.dropSuffix?_eq_some_iff.mpr ⟨mdSuffix, isStem.symm, beq_self_eq_true _⟩
  simp only [pathToConceptId, relative, Option.getD_none, dropped, Option.getD_some]
  exact isStem

theorem toOption_eq_some_iff {ε α : Type} {result : Except ε α} {a : α} :
    result.toOption = some a ↔ result = .ok a := by
  cases result <;> simp [Except.toOption]

namespace Workspace

/-- The path of the file of a Note, from the bundle root. -/
def notePath (host : Host) (bundle : Bundle) (note_id : ConceptId) : Except AppError Path :=
  if '\\' ∈ note_id then
    .error <| .pathUnavailable <| "concept id ".toList ++ note_id ++
      (" does not name a file inside the Workspace: a concept id is `/`-separated and a " ++
        "backslash is a character no segment may carry").toList
  else if '\x00' ∈ note_id then
    .error <| .pathUnavailable <| "concept id ".toList ++ host.debug note_id ++
      " contains a NUL, which no path on this system can carry".toList
  else
    match normalComponents (conceptIdToPath note_id) with
    | none =>
        .error <| .pathUnavailable <| "concept id ".toList ++ note_id ++
          " does not name a file inside the Workspace".toList
    | some path =>
        if !bundle.contained path.dropLast then
          .error <| .pathUnavailable <| "concept id ".toList ++ note_id ++
            " does not name a file inside the Workspace: ".toList ++
              host.linkReason (joinPath path.dropLast)
        else if path ∈ bundle.symlinks then
          .error <| .pathUnavailable <| "concept id ".toList ++ note_id ++
            (" is a symbolic link, and the indexer skips those — a Note read or written through " ++
              "one either lands outside the Workspace or disappears from it at the next reindex " ++
              "while its file, and its name, stay taken").toList
        else .ok path

theorem normalComponents_of_notePath {host : Host} {bundle : Bundle} {note_id : ConceptId} {path : Path}
    (found : notePath host bundle note_id = .ok path) :
    normalComponents (conceptIdToPath note_id) = some path := by
  unfold notePath at found
  repeat' split at found
  all_goals first | cases found; assumption | cases found

end Workspace

/-! ## A host for concrete runs -/

/-- A host on which every Note is one paragraph of plain words. -/
def Host.plain : Host where
  events source :=
    let range : Utf8.Range := ⟨0, Utf8.byteLen source⟩
    if source = [] then []
    else [(.start .paragraph, range), (.leaf (.text source), range), (.stop .paragraph, range)]
  readFrontmatter _ := .empty
  content_hash bytes := bytes.map fun byte => Char.ofNat byte.toNat
  title_lookup_key title := title.map Char.toLower
  from_utf8_lossy bytes := bytes.map fun byte => Char.ofNat byte.toNat
  is_alphanumeric := Char.isAlphanum
  debug text := text
  linkReason directory := directory
  display names := [slash].intercalate ([] :: names)
  os_error _ := []

theorem Host.plain_injective : Function.Injective Host.plain.content_hash := by
  apply List.map_injective_iff.mpr
  intro byte other same
  have back : ∀ byte : UInt8, (Char.ofNat byte.toNat).toNat = byte.toNat := by
    intro byte
    have valid : byte.toNat.isValidChar := .inl (by have := byte.toNat_lt; omega)
    rw [Char.ofNat, dif_pos valid]
    rfl
  have sameNat := congrArg Char.toNat same
  rw [back, back] at sameNat
  exact UInt8.toNat_inj.mp sameNat

end Burlmd
