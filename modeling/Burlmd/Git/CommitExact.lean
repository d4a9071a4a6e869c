import Burlmd.Git.IndexEntries

/-!
# What a commit of named paths changes

The tree of `HEAD` and the index against the disk, before and after a call.
-/

namespace Burlmd.Git

open Segments (Above)
open Utf8 (Text)

variable {env : Environment} {repo : Repository} {paths : List Text}

/-! ## The index against the disk -/

/-- No path is a directory of another. -/
def Prefixless (paths : List Text) : Prop :=
  ∀ path ∈ paths, ∀ other ∈ paths, ¬ Above separator path other

instance (paths : List Text) : Decidable (Prefixless paths) :=
  inferInstanceAs (Decidable (∀ path ∈ paths, ∀ other ∈ paths, ¬ Above separator path other))

/-- The index holds at each named path what is on disk there, and nothing else. -/
structure IndexHolds (env : Environment) (paths : List Text) (entries : List IndexEntry) : Prop where
  held : ∀ path ∈ paths, ∀ contents, env.worktree.read path = .file contents →
    ((entries.filter fun entry => entry.path = path).map IndexEntry.record) =
      [(.unconflicted, env.blobId contents.bytes, blobKind contents)]
  gone : ∀ path ∈ paths, env.worktree.read path = .absent → ∀ entry ∈ entries, entry.path ≠ path
  prefixless : Prefixless (entries.map IndexEntry.path)

/-- Neither a named path nor beneath one. -/
def outside (paths : List Text) (name : Text) : Bool := paths.all fun path => ¬ AtOrAbove path name

/-- The index holds the named paths, and its other entries are those it had. -/
structure IndexExact (env : Environment) (paths : List Text) (old new : Option (List IndexEntry)) :
    Prop where
  holds : IndexHolds env paths (new.getD [])
  elsewhere : ∀ entries, old = some entries →
    ((new.getD []).filter fun entry => outside paths entry.path).Perm
      (entries.filter fun entry => outside paths entry.path)

theorem IndexHolds.of_perm {entries entries' : List IndexEntry}
    (holds : IndexHolds env paths entries) (perm : entries'.Perm entries) :
    IndexHolds env paths entries' := by
  constructor
  · intro path mem contents onDisk
    have records := ((perm.filter fun entry => entry.path = path).map IndexEntry.record)
    rw [holds.held path mem contents onDisk] at records
    exact List.perm_singleton.mp records
  · intro path mem absent entry inEntries
    exact holds.gone path mem absent entry (perm.mem_iff.mp inEntries)
  · intro path mem other mem'
    exact holds.prefixless path ((perm.map _).mem_iff.mp mem) other ((perm.map _).mem_iff.mp mem')

theorem sortEntries_perm (entries : List IndexEntry) : (sortEntries entries).Perm entries :=
  List.perm_insertionSort _ entries

theorem blob_stagedPath_of_file {contents : File} {path : Text}
    (onDisk : env.worktree.read path = .file contents) :
    (env.stagedPath path).blob = some (env.blobId contents.bytes, blobKind contents) := by
  unfold Environment.stagedPath Worktree.stagedPath
  rw [onDisk]

theorem blob_stagedPath_isSome {path : Text} (isSome : (env.stagedPath path).blob.isSome) :
    ∃ contents, env.worktree.read path = .file contents := by
  unfold Environment.stagedPath Worktree.stagedPath at isSome
  cases onDisk : env.worktree.read path with
  | file contents => exact ⟨contents, rfl⟩
  | unreadable error =>
    rw [onDisk] at isSome
    cases isSome
  | absent =>
    rw [onDisk] at isSome
    cases isSome

/-- An index made from the tree alone holds what the tree does. -/
theorem indexHolds_indexFromTree {old new : Tree} (exact' : TreeExact env paths old new) :
    IndexHolds env paths (indexFromTree new) := by
  apply IndexHolds.of_perm _ (sortEntries_perm _)
  constructor
  · intro path mem contents onDisk
    have found := Table.find?_eq_some_iff.mp (exact'.held path mem contents onDisk)
    rcases List.append_of_mem found.1 with ⟨before, after, isRows⟩
    have distinct := new.files.distinct
    rw [isRows, List.map_append, List.map_cons] at distinct
    rcases List.nodup_append.mp distinct with ⟨-, tail, disjoint⟩
    rw [isRows, List.map_append, List.map_cons]
    rw [filter_eq_singleton]
    · rfl
    · exact decide_eq_true rfl
    · intro entry mem'
      rcases List.mem_map.mp mem' with ⟨row, inBefore, isEntry⟩
      rw [← isEntry]
      apply decide_eq_false
      intro same
      exact disjoint _ (List.mem_map_of_mem inBefore) _ List.mem_cons_self same
    · intro entry mem'
      rcases List.mem_map.mp mem' with ⟨row, inAfter, isEntry⟩
      rw [← isEntry]
      apply decide_eq_false
      intro same
      exact (List.nodup_cons.mp tail).1 (List.mem_map.mpr ⟨row, inAfter, same⟩)
  · intro path mem absent entry mem' same
    rcases List.mem_map.mp mem' with ⟨row, isRow, isEntry⟩
    have missing := Table.find?_eq_none_iff.mp (exact'.gone path mem absent path (.inl rfl))
    rw [← isEntry] at same
    exact missing row isRow same
  · intro path mem other mem' above
    rw [List.map_map, List.mem_map] at mem mem'
    rcases mem with ⟨row, isRow, isPath⟩
    rcases mem' with ⟨row', isRow', isOther⟩
    rw [← isPath, ← isOther] at above
    exact new.prefixless row isRow row' isRow' above

/-! ## The refreshed index -/

/-- What `refreshIndexEntries` keeps before it places anything. -/
def keptEntries (env : Environment) (paths : List Text) (entries : List IndexEntry) :
    List IndexEntry := entries.filter fun entry => !takenOut (paths.map env.stagedPath) entry

/-- The named paths that are files. -/
def namedFiles (env : Environment) (paths : List Text) : List Text :=
  paths.filter fun path => (env.worktree.read path).isFile

theorem refreshed_perm (lookup : EntryLookup) (entries : List IndexEntry)
    (staged : List StagedPath) : (refreshed lookup entries staged).Perm
      (placed lookup (entries.filter fun entry => !takenOut staged entry, false) staged) := by
  unfold refreshed placeEntries placed
  dsimp only
  by_cases appended : (staged.foldl (placeEntry lookup)
      (entries.filter fun entry => !takenOut staged entry, false)).2
  · rw [if_pos appended]
    exact sortEntries_perm _
  · rw [if_neg appended]

theorem takenOut_iff {entry : IndexEntry} : takenOut (paths.map env.stagedPath) entry = true ↔
    (∃ path ∈ paths, (env.stagedPath path).blob = none ∧ AtOrAbove path entry.path) ∨
      entry.stage ≠ .unconflicted ∧
        ∃ path ∈ paths, (env.stagedPath path).blob.isSome ∧ path = entry.path := by
  have relative : ∀ path, (env.stagedPath path).relative = path := fun _ => rfl
  unfold takenOut
  simp only [Bool.or_eq_true, Bool.and_eq_true, decide_eq_true_eq, List.any_map, List.any_eq_true,
    Function.comp, isAtOrUnder_iff, Option.isNone_iff_eq_none, relative]

theorem filter_outside_keptEntries (entries : List IndexEntry) :
    (keptEntries env paths entries).filter (fun entry => outside paths entry.path) =
      entries.filter fun entry => outside paths entry.path := by
  unfold keptEntries
  rw [List.filter_filter]
  apply List.filter_congr
  intro entry _
  cases isOutside : outside paths entry.path with
  | false => rw [Bool.false_and]
  | true =>
    unfold outside at isOutside
    rw [List.all_eq_true] at isOutside
    rw [Bool.true_and, Bool.not_eq_true', ← Bool.not_eq_true, takenOut_iff]
    intro either
    rcases either with ⟨path, mem, -, beneath⟩ | ⟨-, path, mem, -, same⟩
    · exact of_decide_eq_true (isOutside path mem) beneath
    · exact of_decide_eq_true (isOutside path mem) (.inl same.symm)

theorem outside_eq_false {path : Text} (mem : path ∈ paths) : outside paths path = false := by
  unfold outside
  rw [List.all_eq_false]
  refine ⟨path, mem, ?_⟩
  rw [decide_eq_true_eq, not_not]
  exact .inl rfl

theorem elsewhere_refreshed (lookup : EntryLookup) (entries : List IndexEntry) :
    ((refreshed lookup entries (paths.map env.stagedPath)).filter fun entry =>
      outside paths entry.path).Perm (entries.filter fun entry => outside paths entry.path) := by
  apply ((refreshed_perm lookup entries _).filter _).trans
  rw [filter_placed]
  · exact List.Perm.of_eq (filter_outside_keptEntries entries)
  · intro staged mem _
    rcases List.mem_map.mp mem with ⟨path, mem, isPath⟩
    rw [← isPath]
    exact outside_eq_false mem

theorem mem_paths_refreshed {lookup : EntryLookup} {entries : List IndexEntry} {name : Text}
    (readable : ∀ path ∈ paths, env.Readable path) :
    name ∈ (refreshed lookup entries (paths.map env.stagedPath)).map IndexEntry.path ↔
      name ∈ (keptEntries env paths entries).map IndexEntry.path ++ namedFiles env paths := by
  rw [((refreshed_perm lookup entries _).map _).mem_iff, mem_paths_placed, List.mem_append]
  apply or_congr_right
  unfold namedFiles
  rw [List.mem_filter]
  constructor
  · intro some
    rcases some with ⟨staged, mem, isSome, isName⟩
    rcases List.mem_map.mp mem with ⟨path, mem, isPath⟩
    rw [← isPath] at isSome isName
    rcases blob_stagedPath_isSome isSome with ⟨contents, onDisk⟩
    have isPath' : path = name := isName
    rw [← isPath', onDisk]
    exact ⟨mem, rfl⟩
  · intro file
    rcases file with ⟨mem, isFile⟩
    refine ⟨env.stagedPath name, List.mem_map_of_mem mem, ?_, rfl⟩
    cases onDisk : env.worktree.read name with
    | file contents =>
      rw [blob_stagedPath_of_file onDisk]
      rfl
    | unreadable error => exact absurd onDisk (readable name mem error)
    | absent =>
      rw [onDisk] at isFile
      cases isFile

/-- What the index has to meet where the call commits: no lookup misses its entry, and no named
file shares its path with a directory. -/
structure Refreshable (env : Environment) (paths : List Text) (entries : List IndexEntry) :
    Prop where
  finds : LookupsFind env.lookup ((keptEntries env paths entries).map IndexEntry.key)
    (paths.map env.stagedPath)
  prefixless :
    Prefixless ((keptEntries env paths entries).map IndexEntry.path ++ namedFiles env paths)

theorem indexHolds_refreshed_iff {entries : List IndexEntry}
    (readable : ∀ path ∈ paths, env.Readable path)
    (distinct : (entries.map IndexEntry.key).Nodup) :
    IndexHolds env paths (refreshed env.lookup entries (paths.map env.stagedPath)) ↔
      Refreshable env paths entries := by
  have perm := refreshed_perm env.lookup entries (paths.map env.stagedPath)
  constructor
  · intro holds
    constructor
    · by_contra missed
      rcases @exists_double _ (keptEntries env paths entries, false) _ missed with
        ⟨staged, mem, isSome, twice⟩
      rcases List.mem_map.mp mem with ⟨path, mem, isPath⟩
      rw [← isPath] at isSome twice
      rcases blob_stagedPath_isSome isSome with ⟨contents, onDisk⟩
      have held := (holds.of_perm perm.symm).held path mem contents onDisk
      have alone := congrArg List.length held
      rw [List.length_map, ← List.countP_eq_length_filter, List.length_singleton] at alone
      have bound : ((placed env.lookup (keptEntries env paths entries, false)
          (paths.map env.stagedPath)).map IndexEntry.key).count (path, .unconflicted) ≤ 1 := by
        rw [List.count, List.countP_map, ← alone]
        apply List.countP_mono_left
        intro entry _ isKey
        exact decide_eq_true (congrArg Prod.fst (beq_iff_eq.mp isKey))
      have twice' : 2 ≤ ((placed env.lookup (keptEntries env paths entries, false)
          (paths.map env.stagedPath)).map IndexEntry.key).count (path, .unconflicted) := twice
      omega
    · intro path mem other mem'
      exact holds.prefixless path ((mem_paths_refreshed readable).mpr mem) other
        ((mem_paths_refreshed readable).mpr mem')
  · intro refreshable
    apply IndexHolds.of_perm _ perm
    constructor
    · intro path mem contents onDisk
      apply @records_placed _ _ (env.stagedPath path) _ refreshable.finds
      · exact (List.filter_sublist.map _).nodup distinct
      · intro staged mem' isSome entry kept isPath
        rcases List.mem_filter.mp kept with ⟨-, notTaken⟩
        rw [Bool.not_eq_true', ← Bool.not_eq_true, takenOut_iff] at notTaken
        rcases List.mem_map.mp mem' with ⟨named, mem', isNamed⟩
        rw [← isNamed] at isSome isPath
        by_contra conflicted
        exact notTaken (.inr ⟨conflicted, named, mem', isSome, isPath.symm⟩)
      · intro staged mem' other mem'' same
        rcases List.mem_map.mp mem' with ⟨first, -, isFirst⟩
        rcases List.mem_map.mp mem'' with ⟨second, -, isSecond⟩
        rw [← isFirst, ← isSecond] at same ⊢
        exact congrArg env.stagedPath same
      · exact List.mem_map_of_mem mem
      · exact blob_stagedPath_of_file onDisk
    · intro path mem absent entry inPlaced same
      have isPath := ((perm.map IndexEntry.path).mem_iff.mpr (List.mem_map_of_mem inPlaced))
      rw [mem_paths_refreshed readable, same, List.mem_append] at isPath
      rcases isPath with kept | named
      · rcases List.mem_map.mp kept with ⟨other, kept, isOther⟩
        rcases List.mem_filter.mp kept with ⟨-, notTaken⟩
        rw [Bool.not_eq_true', ← Bool.not_eq_true, takenOut_iff] at notTaken
        apply notTaken
        refine .inl ⟨path, mem, ?_, .inl isOther⟩
        unfold Environment.stagedPath Worktree.stagedPath
        rw [absent]
      · rcases List.mem_filter.mp named with ⟨-, isFile⟩
        rw [absent] at isFile
        cases isFile
    · intro path mem other mem'
      exact refreshable.prefixless path
        ((mem_paths_refreshed readable).mp ((perm.map _).mem_iff.mpr mem)) other
        ((mem_paths_refreshed readable).mp ((perm.map _).mem_iff.mpr mem'))

/-! ## The call -/

/-- The index that `refreshIndexEntries` leaves. -/
def indexAfter (env : Environment) (paths : List Text) (tree : Tree) :
    Option (List IndexEntry) → List IndexEntry
  | none => indexFromTree tree
  | some entries => refreshed env.lookup entries (paths.map env.stagedPath)

theorem refreshIndexEntries_ok {index : Option (List IndexEntry)} {tree : Tree}
    {entries : List IndexEntry}
    (ok : refreshIndexEntries env index tree (paths.map env.stagedPath) = .ok entries) :
    entries = indexAfter env paths tree index := by
  unfold refreshIndexEntries at ok
  cases index with
  | none =>
    rcases bind_ok ok with ⟨_, -, ok⟩
    rcases bind_ok ok with ⟨_, -, ok⟩
    exact (Except.ok.inj ok).symm
  | some old =>
    rcases bind_ok ok with ⟨_, -, ok⟩
    rcases bind_ok ok with ⟨_, -, ok⟩
    exact (Except.ok.inj ok).symm

theorem commitAs_ok {tree : Tree} {commit : Commit} (ok : commitAs env repo tree = .ok commit) :
    env.movedTo = none ∧ commit.tree = tree := by
  unfold commitAs at ok
  rcases bind_ok ok with ⟨_, -, ok⟩
  cases moved : env.movedTo with
  | none =>
    rw [moved] at ok
    exact ⟨rfl, by rw [← Except.ok.inj ok]⟩
  | some head =>
    rw [moved] at ok
    cases ok

/-- A call ends with an error, with nothing to commit, or with its commit. -/
theorem commitPaths_cases (env : Environment) (repo : Repository) (paths : List Text) :
    (∃ error, commitPaths env repo paths = (.error error, ⟨env.current repo, repo.index⟩)) ∨
      (∀ path ∈ paths, env.Readable path) ∧
        (Settled repo.tree (paths.map env.stagedPath) ∧
            commitPaths env repo paths = (.ok none, ⟨env.current repo, repo.index⟩) ∨
          ¬ Settled repo.tree (paths.map env.stagedPath) ∧ env.movedTo = none ∧
            ∃ commit, commit.tree = repo.tree.editAll (paths.map env.stagedPath) ∧
              ((∃ error, commitPaths env repo paths =
                  (.error error, ⟨some commit, repo.index⟩)) ∨
                commitPaths env repo paths = (.ok (some commit.id),
                  ⟨some commit, some (indexAfter env paths commit.tree repo.index)⟩))) := by
  unfold commitPaths
  cases edited : editPaths env repo paths with
  | error error => exact .inl ⟨error, rfl⟩
  | ok result =>
    rcases editPaths_ok edited with ⟨isResult, readable⟩
    rw [isResult]
    dsimp only
    by_cases same : (repo.tree.editAll (paths.map env.stagedPath)).same repo.tree
    · rw [if_pos same]
      exact .inr ⟨readable, .inl ⟨editAll_same_iff.mp same, rfl⟩⟩
    · rw [if_neg same]
      cases written : commitAs env repo (repo.tree.editAll (paths.map env.stagedPath)) with
      | error error => exact .inl ⟨error, rfl⟩
      | ok commit =>
        rcases commitAs_ok written with ⟨unmoved, isTree⟩
        have unsettled : ¬ Settled repo.tree (paths.map env.stagedPath) :=
          fun settled => same (editAll_same_iff.mpr settled)
        refine .inr ⟨readable, .inr ⟨unsettled, unmoved, commit, isTree, ?_⟩⟩
        dsimp only
        cases refreshed : refreshIndexEntries env repo.index
            (repo.tree.editAll (paths.map env.stagedPath)) (paths.map env.stagedPath) with
        | error error => exact .inl ⟨error, rfl⟩
        | ok index =>
          apply Or.inr
          rw [isTree, refreshIndexEntries_ok refreshed]

/-- What a call that returns is to do, the answer and the repository afterwards given. -/
structure CommitExact (env : Environment) (repo : Repository) (paths : List Text)
    (answer : Option Text) (after : Repository) : Prop where
  unmoved : env.movedTo = none
  tree : TreeExact env paths repo.tree after.tree
  answered : answer = none ↔ ∀ name, after.tree.find? name = repo.tree.find? name
  index : IndexExact env paths repo.index after.index

/-- Where a call that returns does so: `HEAD` was not moved, no named path without a file is above
a named file, and the index is right already where there is nothing to commit, or can be brought
into line. -/
structure CommitSound (env : Environment) (repo : Repository) (paths : List Text) : Prop where
  unmoved : env.movedTo = none
  apart : Apart env paths
  settled : Settled repo.tree (paths.map env.stagedPath) →
    IndexHolds env paths (repo.index.getD [])
  unsettled : ¬ Settled repo.tree (paths.map env.stagedPath) →
    ∀ entries, repo.index = some entries → Refreshable env paths entries

theorem Settled.editAll_find? {tree : Tree} {all : List StagedPath} (settled : Settled tree all)
    (name : Text) : tree.find? name = (tree.editAll all).find? name :=
  (Tree.same_iff.mp (editAll_same_iff.mpr settled) name).symm

theorem current_tree (unmoved : env.movedTo = none) :
    Repository.tree ⟨env.current repo, repo.index⟩ = repo.tree := by
  unfold Environment.current
  rw [unmoved]
  rfl

theorem settled_exact_iff (readable : ∀ path ∈ paths, env.Readable path)
    (settled : Settled repo.tree (paths.map env.stagedPath)) :
    CommitExact env repo paths none ⟨env.current repo, repo.index⟩ ↔
      CommitSound env repo paths := by
  constructor
  · intro exact'
    constructor
    · exact exact'.unmoved
    · exact exact'.tree.apart readable
    · intro _
      exact exact'.index.holds
    · intro unsettled
      exact absurd settled unsettled
  · intro sound
    constructor
    · exact sound.unmoved
    · rw [current_tree sound.unmoved]
      exact (treeExact_editAll readable sound.apart).of_find? settled.editAll_find?
    · rw [current_tree sound.unmoved]
      exact ⟨fun _ name => rfl, fun _ => rfl⟩
    · refine ⟨sound.settled settled, ?_⟩
      intro entries isIndex
      rw [isIndex]
      exact List.Perm.refl _

theorem committed_exact_iff (readable : ∀ path ∈ paths, env.Readable path)
    (distinct : ∀ entries, repo.index = some entries → (entries.map IndexEntry.key).Nodup)
    (unsettled : ¬ Settled repo.tree (paths.map env.stagedPath)) (unmoved : env.movedTo = none)
    {commit : Commit} (isTree : commit.tree = repo.tree.editAll (paths.map env.stagedPath)) :
    CommitExact env repo paths (some commit.id)
        ⟨some commit, some (indexAfter env paths commit.tree repo.index)⟩ ↔
      CommitSound env repo paths := by
  constructor
  · intro exact'
    constructor
    · exact unmoved
    · exact exact'.tree.apart readable
    · intro settled
      exact absurd settled unsettled
    · intro _ entries isIndex
      have holds := exact'.index.holds
      rw [isIndex] at holds
      exact (indexHolds_refreshed_iff readable (distinct entries isIndex)).mp holds
  · intro sound
    have isExact : TreeExact env paths repo.tree commit.tree :=
      isTree ▸ treeExact_editAll readable sound.apart
    constructor
    · exact unmoved
    · exact isExact
    · constructor
      · intro wrong
        cases wrong
      · intro same
        apply absurd _ unsettled
        apply editAll_same_iff.mp
        apply Tree.same_iff.mpr
        rw [← isTree]
        exact same
    · cases isIndex : repo.index with
      | none =>
        refine ⟨indexHolds_indexFromTree isExact, ?_⟩
        intro entries wrong
        cases wrong
      | some entries =>
        have refreshable := sound.unsettled unsettled entries isIndex
        refine ⟨(indexHolds_refreshed_iff readable (distinct entries isIndex)).mpr refreshable, ?_⟩
        intro entries' same
        rw [← Option.some.inj same]
        exact elsewhere_refreshed env.lookup entries

/-- A call that returns is exact where `CommitSound` holds and nowhere else. Where `HEAD` was moved
it ends with an error as soon as there is something to commit, and an error leaves the other commit. -/
theorem commitPaths_exact_iff (env : Environment) (repo : Repository) (paths : List Text)
    (distinct : ∀ entries, repo.index = some entries → (entries.map IndexEntry.key).Nodup) :
    (∀ answer, (commitPaths env repo paths).1 = .ok answer →
        (CommitExact env repo paths answer (commitPaths env repo paths).2 ↔
          CommitSound env repo paths)) ∧
      ∀ other, env.movedTo = some other →
        (¬ Settled repo.tree (paths.map env.stagedPath) →
          ∃ error, (commitPaths env repo paths).1 = .error error) ∧
        ∀ error, (commitPaths env repo paths).1 = .error error →
          (commitPaths env repo paths).2.head = other := by
  have moved : ∀ other, env.movedTo = some other → env.current repo = other := by
    intro other isMoved
    unfold Environment.current
    rw [isMoved]
    rfl
  rcases commitPaths_cases env repo paths with
    ⟨error, isResult⟩ | ⟨readable, ⟨settled, isResult⟩ |
      ⟨unsettled, unmoved, commit, isTree, ⟨error, isResult⟩ | isResult⟩⟩
  · rw [isResult]
    constructor
    · intro answer wrong
      cases wrong
    · intro other isMoved
      exact ⟨fun _ => ⟨error, rfl⟩, fun _ _ => moved other isMoved⟩
  · rw [isResult]
    constructor
    · intro answer isAnswer
      rw [← Except.ok.inj isAnswer]
      exact settled_exact_iff readable settled
    · intro other isMoved
      exact ⟨fun unsettled => absurd settled unsettled, fun _ _ => moved other isMoved⟩
  · rw [isResult]
    constructor
    · intro answer wrong
      cases wrong
    · intro other isMoved
      rw [unmoved] at isMoved
      cases isMoved
  · rw [isResult]
    constructor
    · intro answer isAnswer
      rw [← Except.ok.inj isAnswer]
      exact committed_exact_iff readable distinct unsettled unmoved isTree
    · intro other isMoved
      rw [unmoved] at isMoved
      cases isMoved

/-! ## Calls on files named by letters -/

/-- Files in the root, each named by a letter. -/
def letterFiles (files : List (Char × File)) : Worktree where
  read path := match files.find? fun file => path = [file.1] with
    | some file => .file file.2
    | none => .absent
  apart := by
    intro level path _ above
    have missing : (files.find? fun file => path = [file.1]) = none := by
      rw [List.find?_eq_none]
      intro file _ same
      have longer := above.length_lt
      have nonempty := List.length_pos_of_ne_nil above.1
      rw [of_decide_eq_true same, List.length_singleton] at longer
      omega
    rw [missing]

/-- A Git that answers every call, where the id of a blob is the number its bytes spell. -/
def answering (worktree : Worktree) : Environment where
  repo_path := []
  worktree := worktree
  blobId bytes := bytes.foldl (fun id byte => id * 256 + byte.toNat) 1
  commitId _ _ := ['c']
  failed _ := none
  mismatch := []
  movedTo := none
  lookup := binaryLookup

def letterTree (files : List (Char × List UInt8)) : Tree :=
  files.foldl (fun tree file => tree.upsert ⟨[file.1], (answering (letterFiles [])).blobId file.2, .blob⟩)
    .empty

def entryOf (name : Char) (stage : Stage) (bytes : List UInt8) : IndexEntry :=
  ⟨[name], stage, (answering (letterFiles [])).blobId bytes, .blob, .empty, .default⟩

/-- A file of one name committed under another, with one that has changed. -/
def renameDisk : Environment := answering (letterFiles [('a', ⟨[1], false⟩), ('z', ⟨[3], false⟩)])

def renameRepository : Repository where
  head := some ⟨['h'], letterTree [('b', [1]), ('z', [2])]⟩
  index := some [entryOf 'b' .unconflicted [1], entryOf 'z' .unconflicted [2]]

/-- A conflict decided for the content that `HEAD` has. -/
def decisionDisk : Environment := answering (letterFiles [('a', ⟨[1], false⟩)])

def decisionRepository : Repository where
  head := some ⟨['h'], letterTree [('a', [1])]⟩
  index := some [entryOf 'a' .ours [1], entryOf 'a' .theirs [2]]

/-- The lookup of `z` among `z` and the pushed `a` misses, so `z` is pushed as well; and with
nothing to commit the stages of the conflict stay. -/
theorem commitPaths_leaves_index :
    (∃ answer, (commitPaths renameDisk renameRepository [['b'], ['a'], ['z']]).1 = .ok answer ∧
      ¬ CommitExact renameDisk renameRepository [['b'], ['a'], ['z']] answer
        (commitPaths renameDisk renameRepository [['b'], ['a'], ['z']]).2) ∧
    ∃ answer, (commitPaths decisionDisk decisionRepository [['a']]).1 = .ok answer ∧
      ¬ CommitExact decisionDisk decisionRepository [['a']] answer (commitPaths decisionDisk decisionRepository [['a']]).2 := by
  constructor
  · refine ⟨some ['c'], by rfl, ?_⟩
    intro isExact
    have held := isExact.index.holds.held ['z'] (by decide) ⟨[3], false⟩ (by decide)
    exact absurd held (by decide)
  · refine ⟨none, by rfl, ?_⟩
    intro isExact
    have held := isExact.index.holds.held ['a'] (by decide) ⟨[1], false⟩ (by decide)
    exact absurd held (by decide)

/-- `c` has changed, a conflict in `m` is decided by a new content, `a` is new and `k` is gone. -/
def mixedDisk : Environment :=
  answering (letterFiles [('a', ⟨[4], false⟩), ('c', ⟨[7], false⟩), ('m', ⟨[3], true⟩),
    ('z', ⟨[9], false⟩)])

def mixedRepository : Repository where
  head := some ⟨['h'], letterTree [('c', [6]), ('k', [1]), ('m', [2]), ('z', [9])]⟩
  index := some [entryOf 'c' .unconflicted [6], entryOf 'k' .unconflicted [1], entryOf 'm' .ours [2],
    entryOf 'm' .theirs [5], entryOf 'z' .unconflicted [8]]

theorem changed_file_exact :
    CommitExact mixedDisk mixedRepository [['c'], ['m'], ['a'], ['k']] (some ['c'])
      (commitPaths mixedDisk mixedRepository [['c'], ['m'], ['a'], ['k']]).2 := by
  have distinct : ∀ entries, mixedRepository.index = some entries →
      (entries.map IndexEntry.key).Nodup := by
    intro entries isIndex
    rw [← Option.some.inj isIndex]
    decide
  apply ((commitPaths_exact_iff mixedDisk mixedRepository [['c'], ['m'], ['a'], ['k']] distinct).1 _
    (by rfl)).mpr
  have isChanged : ¬ Settled mixedRepository.tree
      ([['c'], ['m'], ['a'], ['k']].map mixedDisk.stagedPath) := by
    intro settled
    exact absurd (settled ['c'] _ (by rfl)) (by decide)
  constructor
  · rfl
  · intro path mem other mem' absent isFile above
    have single : ∀ name ∈ [['c'], ['m'], ['a'], ['k']], name.length = 1 := by decide
    have longer := above.length_lt
    have nonempty := List.length_pos_of_ne_nil above.1
    rw [single path mem, single other mem'] at longer
    omega
  · intro settled
    exact absurd settled isChanged
  · intro _ entries isIndex
    rw [← Option.some.inj isIndex]
    constructor
    · exact ⟨by decide, trivial⟩
    · decide

end Burlmd.Git
