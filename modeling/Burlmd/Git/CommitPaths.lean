import Mathlib.Data.List.Sort
import Burlmd.Error
import Burlmd.Git.Tree
import Burlmd.Library.BinarySearch

/-!
# Committing named paths

`commitPaths` edits the tree of `HEAD` at the named paths, one after the other, commits it where
it became another tree, and brings the entries of these paths in the index into line.
-/

namespace Burlmd.Git

open Segments (Above)
open Utf8 (Text)

/-! ## The index -/

inductive Stage where
  | unconflicted
  | base
  | ours
  | theirs
  deriving DecidableEq, Repr

def Stage.number : Stage → Nat
  | unconflicted => 0
  | base => 1
  | ours => 2
  | theirs => 3

structure Flags where
  assume_valid : Bool
  intent_to_add : Bool
  skip_worktree : Bool
  deriving DecidableEq, Repr

def Flags.empty : Flags := ⟨false, false, false⟩

structure Stat where
  mtime : Nat
  size : Nat
  deriving DecidableEq, Repr

def Stat.default : Stat := ⟨0, 0⟩

abbrev EntryKey := Text × Stage

structure IndexEntry where
  path : Text
  stage : Stage
  id : ObjectId
  mode : EntryKind
  flags : Flags
  stat : Stat
  deriving DecidableEq, Repr

def IndexEntry.key (entry : IndexEntry) : EntryKey := (entry.path, entry.stage)

/-- The order of the index: by path, and then by stage. -/
def compareKeys (first second : EntryKey) : Ordering :=
  (compare first.1 second.1).then (compare first.2.number second.2.number)

def Sorted (keys : List EntryKey) : Prop := keys.Pairwise fun first second =>
  compareKeys first second = .lt

/-- The lookup of the unconflicted entry of a path, which counts on the order of the entries. -/
structure EntryLookup where
  find : List EntryKey → Text → Option Nat
  sound : ∀ {keys path i}, find keys path = some i → keys[i]? = some (path, .unconflicted)
  complete : ∀ {keys path}, Sorted keys → (path, .unconflicted) ∈ keys → (find keys path).isSome

def sortEntries (entries : List IndexEntry) : List IndexEntry :=
  entries.insertionSort fun first second => compareKeys first.key second.key ≠ .gt

theorem compareKeys_self (key : EntryKey) : compareKeys key key = .eq := by
  simp [compareKeys]

theorem compareKeys_swap (first second : EntryKey) :
    (compareKeys first second).swap = compareKeys second first := by
  unfold compareKeys
  rw [Ordering.swap_then, ← Std.OrientedCmp.eq_swap, ← Std.OrientedCmp.eq_swap]

theorem eq_of_compareKeys_eq {first second : EntryKey} (same : compareKeys first second = .eq) :
    first = second := by
  unfold compareKeys at same
  rw [Ordering.then_eq_eq] at same
  apply Prod.ext
  · exact Std.LawfulEqCmp.eq_of_compare same.1
  · have number := Std.LawfulEqCmp.eq_of_compare same.2
    revert number
    cases first.2 <;> cases second.2 <;> simp [Stage.number]

/-- A lookup by binary search. -/
def binaryLookup : EntryLookup where
  find keys path := BinarySearch.search (fun key => compareKeys key (path, .unconflicted)) keys
  sound := by
    intro keys path i found
    rcases BinarySearch.search_sound found with ⟨key, isAt, same⟩
    rw [isAt, eq_of_compareKeys_eq same]
  complete := by
    intro keys path sorted mem
    rcases List.append_of_mem mem with ⟨before, after, isKeys⟩
    unfold Sorted at sorted
    rw [isKeys, List.pairwise_append, List.pairwise_cons] at sorted
    rw [isKeys, BinarySearch.search_complete]
    · rfl
    · intro key mem
      exact sorted.2.2 key mem _ List.mem_cons_self
    · exact compareKeys_self _
    · intro key mem
      rw [← compareKeys_swap, sorted.2.1.1 key mem]
      rfl

/-! ## What a call works on -/

structure File where
  bytes : List UInt8
  executable : Bool
  deriving DecidableEq, Repr

inductive OnDisk where
  | file (contents : File)
  | unreadable (error : Text)
  | absent
  deriving DecidableEq, Repr

def OnDisk.isFile : OnDisk → Bool
  | absent => false
  | _ => true

/-- What is on disk at each path below the root: nothing is beneath a file. -/
structure Worktree where
  read : Text → OnDisk
  apart : ∀ {level path}, (read level).isFile → Above separator level path → read path = .absent

structure Commit where
  id : Text
  tree : Tree

structure Repository where
  head : Option Commit
  index : Option (List IndexEntry)

/-- The tree of `HEAD`, empty where it is unborn. -/
def Repository.tree (repo : Repository) : Tree := (repo.head.map Commit.tree).getD .empty

inductive Step where
  | openRepo
  | readCommit
  | readTree
  | startEdit
  | writeBlob (relative : Text)
  | edit (relative : Text)
  | writeTree
  | commit
  | buildIndex
  | openIndex
  | writeIndex
  deriving DecidableEq, Repr

/-- What a call finds around it: the disk, what Git answers at each step, and what else `HEAD`
names by the time the call comes to write its commit, if it was moved. -/
structure Environment where
  repo_path : Text
  worktree : Worktree
  blobId : List UInt8 → ObjectId
  commitId : Tree → Option Commit → Text
  failed : Step → Option Text
  mismatch : Text
  movedTo : Option (Option Commit)
  lookup : EntryLookup

namespace Environment

variable (env : Environment)

/-- A step of Git, with what the code puts before its error. -/
def step (label : Text) (step : Step) : Except AppError Unit :=
  match env.failed step with
  | some error => .error (.ioError (label ++ ": ".toList ++ error))
  | none => .ok ()

/-- `HEAD` when the call comes to write its commit. -/
def current (repo : Repository) : Option Commit := env.movedTo.getD repo.head

def join (relative : Text) : Text := env.repo_path ++ separator :: relative

end Environment

/-! ## The code -/

def blobKind (contents : File) : EntryKind :=
  if contents.executable then .blobExecutable else .blob

structure StagedPath where
  relative : Text
  blob : Option (ObjectId × EntryKind)
  deriving DecidableEq, Repr

/-- The edit of the tree at one named path, and what it leaves for the index. -/
def stagePath (env : Environment) (tree : Tree) (relative : Text) :
    Except AppError (Tree × StagedPath) := do
  match env.worktree.read relative with
  | .unreadable error =>
      throw (.ioError ("read ".toList ++ env.join relative ++ ": ".toList ++ error))
  | .file contents =>
      env.step "write blob".toList (.writeBlob relative)
      env.step ("stage ".toList ++ relative) (.edit relative)
      let blob_id := env.blobId contents.bytes
      let kind := blobKind contents
      return (tree.upsert ⟨relative, blob_id, kind⟩, ⟨relative, some (blob_id, kind)⟩)
  | .absent =>
      env.step ("unstage ".toList ++ relative) (.edit relative)
      return (tree.remove relative, ⟨relative, none⟩)

def stagePaths (env : Environment) (tree : Tree) :
    List Text → Except AppError (Tree × List StagedPath)
  | [] => return (tree, [])
  | relative :: rest => do
      let first ← stagePath env tree relative
      let others ← stagePaths env first.1 rest
      return (others.1, first.2 :: others.2)

def isAtOrUnder (path removed : Text) : Bool :=
  path = removed ||
    (removed.length < path.length && removed.isPrefixOf path && !removed.isEmpty &&
      path[removed.length]? = some separator)

/-- Whether `refreshIndexEntries` takes an entry out: for a removed path, all at or beneath it;
for an updated one, its conflict stages. -/
def takenOut (staged : List StagedPath) (entry : IndexEntry) : Bool :=
  (staged.any fun s => s.blob.isNone && isAtOrUnder entry.path s.relative) ||
    (entry.stage ≠ .unconflicted &&
      staged.any fun s => s.blob.isSome && s.relative = entry.path)

/-- An entry as the commit leaves it: of its flags only the one that a commit retires is gone. -/
def IndexEntry.update (blob : ObjectId × EntryKind) (entry : IndexEntry) : IndexEntry :=
  { entry with
    id := blob.1
    mode := blob.2
    stat := .default
    flags := { entry.flags with intent_to_add := false } }

/-- One staged path in the index: its entry updated, or a new one at the end. -/
def placeEntry (lookup : EntryLookup) (state : List IndexEntry × Bool) (staged : StagedPath) :
    List IndexEntry × Bool :=
  match staged.blob with
  | none => state
  | some blob =>
      match lookup.find (state.1.map IndexEntry.key) staged.relative with
      | some i => (state.1.modify i (IndexEntry.update blob), state.2)
      | none =>
          (state.1 ++ [⟨staged.relative, .unconflicted, blob.1, blob.2, .empty, .default⟩], true)

def placeEntries (lookup : EntryLookup) (entries : List IndexEntry) (staged : List StagedPath) :
    List IndexEntry × Bool :=
  staged.foldl (placeEntry lookup) (entries, false)

def indexFromTree (tree : Tree) : List IndexEntry :=
  sortEntries (tree.files.rows.map fun entry =>
    ⟨entry.path, .unconflicted, entry.id, entry.kind, .empty, .default⟩)

/-- The entries at the staged paths brought into line, all others as they are. -/
def refreshed (lookup : EntryLookup) (entries : List IndexEntry) (staged : List StagedPath) :
    List IndexEntry :=
  let placed := placeEntries lookup (entries.filter fun entry => !takenOut staged entry) staged
  if placed.2 then sortEntries placed.1 else placed.1

def refreshIndexEntries (env : Environment) (index : Option (List IndexEntry)) (tree : Tree)
    (staged : List StagedPath) : Except AppError (List IndexEntry) := do
  match index with
  | none =>
      env.step "build index from tree".toList .buildIndex
      env.step "write index".toList .writeIndex
      return indexFromTree tree
  | some entries =>
      env.step "open index".toList .openIndex
      env.step "write index".toList .writeIndex
      return refreshed env.lookup entries staged

/-- What is read of `HEAD`, and the tree edited at the named paths. -/
def editPaths (env : Environment) (repo : Repository) (relative_paths : List Text) :
    Except AppError (Tree × List StagedPath) := do
  env.step "open repo".toList .openRepo
  if repo.head.isSome then
    env.step "read HEAD commit".toList .readCommit
    env.step "read HEAD tree".toList .readTree
  env.step "start tree edit".toList .startEdit
  let edited ← stagePaths env repo.tree relative_paths
  env.step "write tree".toList .writeTree
  return edited

/-- The commit is written only where `HEAD` is still what was read of it. -/
def commitAs (env : Environment) (repo : Repository) (tree : Tree) : Except AppError Commit := do
  env.step "write commit".toList .commit
  match env.movedTo with
  | none => return ⟨env.commitId tree repo.head, tree⟩
  | some _ => throw (.ioError ("write commit: ".toList ++ env.mismatch))

def commitPaths (env : Environment) (repo : Repository) (relative_paths : List Text) :
    Except AppError (Option Text) × Repository :=
  match editPaths env repo relative_paths with
  | .error error => (.error error, ⟨env.current repo, repo.index⟩)
  | .ok (tree, staged) =>
      if tree.same repo.tree then (.ok none, ⟨env.current repo, repo.index⟩)
      else match commitAs env repo tree with
        | .error error => (.error error, ⟨env.current repo, repo.index⟩)
        | .ok commit =>
            match refreshIndexEntries env repo.index tree staged with
            | .error error => (.error error, ⟨some commit, repo.index⟩)
            | .ok index => (.ok (some commit.id), ⟨some commit, some index⟩)

end Burlmd.Git
