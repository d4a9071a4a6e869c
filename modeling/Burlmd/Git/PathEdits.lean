import Burlmd.Git.CommitPaths

/-!
# The tree of a commit

What each name holds in a tree edited at a list of paths is what the last of these edits that
concerns the name leaves there, and what it held before where none concerns it.
-/

namespace Burlmd.Git

open Segments (Above)
open Utf8 (Text)

/-- A path as it is staged. -/
def Worktree.stagedPath (worktree : Worktree) (blobId : List UInt8 → ObjectId) (relative : Text) :
    StagedPath where
  relative := relative
  blob := match worktree.read relative with
    | .file contents => some (blobId contents.bytes, blobKind contents)
    | _ => none

def Environment.stagedPath (env : Environment) : Text → StagedPath :=
  env.worktree.stagedPath env.blobId

def Environment.Readable (env : Environment) (path : Text) : Prop :=
  ∀ error, env.worktree.read path ≠ .unreadable error

namespace Tree

def edit (tree : Tree) (staged : StagedPath) : Tree :=
  match staged.blob with
  | some (id, kind) => tree.upsert ⟨staged.relative, id, kind⟩
  | none => tree.remove staged.relative

def editAll (tree : Tree) (staged : List StagedPath) : Tree := staged.foldl edit tree

end Tree

/-- What a staged path leaves at a name that it concerns. -/
def StagedPath.leaves? (staged : StagedPath) (name : Text) : Option (Option TreeEntry) :=
  match staged.blob with
  | some (id, kind) =>
      if name = staged.relative then some (some ⟨staged.relative, id, kind⟩)
      else if Above separator staged.relative name ∨ Above separator name staged.relative then
        some none
      else none
  | none => if AtOrAbove staged.relative name then some none else none

/-- What the last staged path that concerns a name leaves there. -/
def lastLeaves? : List StagedPath → Text → Option (Option TreeEntry)
  | [], _ => none
  | staged :: rest, name => (lastLeaves? rest name).or (staged.leaves? name)

variable {env : Environment} {tree : Tree} {staged : StagedPath} {all : List StagedPath}
  {relative name : Text} {paths : List Text}

theorem find?_edit : (tree.edit staged).find? name = (staged.leaves? name).getD (tree.find? name) := by
  unfold Tree.edit StagedPath.leaves?
  cases staged.blob with
  | none =>
    dsimp only
    rw [Tree.find?_remove]
    by_cases concerned : AtOrAbove staged.relative name
    · rw [if_pos concerned, if_pos concerned]
      rfl
    · rw [if_neg concerned, if_neg concerned]
      rfl
  | some blob =>
    dsimp only
    rw [Tree.find?_upsert]
    by_cases own : name = staged.relative
    · rw [if_pos own, if_pos own]
      rfl
    · rw [if_neg own, if_neg own]
      by_cases concerned : Above separator staged.relative name ∨ Above separator name staged.relative
      · rw [if_pos concerned, if_pos concerned]
        rfl
      · rw [if_neg concerned, if_neg concerned]
        rfl

theorem find?_editAll :
    (tree.editAll all).find? name = (lastLeaves? all name).getD (tree.find? name) := by
  induction all generalizing tree with
  | nil => rfl
  | cons staged rest ih =>
    unfold Tree.editAll lastLeaves?
    rw [List.foldl_cons]
    have step := @ih (tree.edit staged)
    unfold Tree.editAll at step
    rw [step, find?_edit]
    cases lastLeaves? rest name with
    | none => rfl
    | some leaves => rfl

/-- Where the last that concerns a name leaves something, one of the staged paths does. -/
theorem exists_leaves? {leaves : Option TreeEntry} (last : lastLeaves? all name = some leaves) :
    ∃ staged ∈ all, staged.leaves? name = some leaves := by
  induction all with
  | nil => cases last
  | cons staged rest ih =>
    unfold lastLeaves? at last
    cases later : lastLeaves? rest name with
    | none =>
      rw [later, Option.none_or] at last
      exact ⟨staged, List.mem_cons_self, last⟩
    | some word =>
      rw [later, Option.some_or] at last
      rcases ih (later.trans last) with ⟨staged', mem, isLast⟩
      exact ⟨staged', List.mem_cons_of_mem _ mem, isLast⟩

theorem lastLeaves?_ne_none (mem : staged ∈ all) (concerned : staged.leaves? name ≠ none) :
    lastLeaves? all name ≠ none := by
  induction all with
  | nil => cases mem
  | cons first rest ih =>
    unfold lastLeaves?
    rw [Ne, Option.or_eq_none_iff]
    intro both
    rcases List.mem_cons.mp mem with same | inRest
    · exact concerned (same ▸ both.2)
    · exact ih inRest both.1

/-! ## The edits of the code -/

theorem bind_ok {ε α β : Type} {first : Except ε α} {next : α → Except ε β} {result : β}
    (ok : (first >>= next) = .ok result) : ∃ value, first = .ok value ∧ next value = .ok result := by
  cases first with
  | error error => cases ok
  | ok value => exact ⟨value, rfl, ok⟩

theorem stagePath_ok {edited : Tree × StagedPath} (ok : stagePath env tree relative = .ok edited) :
    edited = (tree.edit (env.stagedPath relative), env.stagedPath relative) ∧
      env.Readable relative := by
  unfold stagePath at ok
  unfold Environment.stagedPath Worktree.stagedPath Environment.Readable
  cases onDisk : env.worktree.read relative with
  | unreadable error =>
    rw [onDisk] at ok
    cases ok
  | file contents =>
    rw [onDisk] at ok
    rcases bind_ok ok with ⟨_, -, ok⟩
    rcases bind_ok ok with ⟨_, -, ok⟩
    refine ⟨(Except.ok.inj ok).symm, ?_⟩
    intro error wrong
    cases wrong
  | absent =>
    rw [onDisk] at ok
    rcases bind_ok ok with ⟨_, -, ok⟩
    refine ⟨(Except.ok.inj ok).symm, ?_⟩
    intro error wrong
    cases wrong

theorem stagePaths_ok {edited : Tree × List StagedPath}
    (ok : stagePaths env tree paths = .ok edited) :
    edited = (tree.editAll (paths.map env.stagedPath), paths.map env.stagedPath) ∧
      ∀ path ∈ paths, env.Readable path := by
  induction paths generalizing tree edited with
  | nil => exact ⟨(Except.ok.inj ok).symm, List.forall_mem_nil _⟩
  | cons relative rest ih =>
    unfold stagePaths at ok
    rcases bind_ok ok with ⟨first, isFirst, ok⟩
    rcases bind_ok ok with ⟨others, areOthers, ok⟩
    rcases stagePath_ok isFirst with ⟨same, readable⟩
    rw [same] at areOthers ok
    rcases ih areOthers with ⟨same', readable'⟩
    rw [same'] at ok
    refine ⟨(Except.ok.inj ok).symm, ?_⟩
    rw [List.forall_mem_cons]
    exact ⟨readable, readable'⟩

theorem editPaths_ok {repo : Repository} {edited : Tree × List StagedPath}
    (ok : editPaths env repo paths = .ok edited) :
    edited = (repo.tree.editAll (paths.map env.stagedPath), paths.map env.stagedPath) ∧
      ∀ path ∈ paths, env.Readable path := by
  unfold editPaths at ok
  rcases bind_ok ok with ⟨_, -, ok⟩
  have rest : ∃ edited', stagePaths env repo.tree paths = .ok edited' ∧ edited' = edited := by
    by_cases born : repo.head.isSome
    · rw [if_pos born] at ok
      rcases bind_ok ok with ⟨_, -, ok⟩
      rcases bind_ok ok with ⟨_, -, ok⟩
      rcases bind_ok ok with ⟨_, -, ok⟩
      rcases bind_ok ok with ⟨edited', isEdited, ok⟩
      rcases bind_ok ok with ⟨_, -, ok⟩
      exact ⟨edited', isEdited, Except.ok.inj ok⟩
    · rw [if_neg born] at ok
      rcases bind_ok ok with ⟨_, -, ok⟩
      rcases bind_ok ok with ⟨edited', isEdited, ok⟩
      rcases bind_ok ok with ⟨_, -, ok⟩
      exact ⟨edited', isEdited, Except.ok.inj ok⟩
  rcases rest with ⟨edited', isEdited, same⟩
  rw [← same]
  exact stagePaths_ok isEdited

/-! ## The tree against the disk -/

/-- The tree afterwards is the one before but at the named paths, and what is on disk there. -/
structure TreeExact (env : Environment) (paths : List Text) (old new : Tree) : Prop where
  elsewhere : ∀ name,
    (∀ path ∈ paths, ¬ AtOrAbove path name ∧ ¬ Above separator name path) →
      new.find? name = old.find? name
  held : ∀ path ∈ paths, ∀ contents, env.worktree.read path = .file contents →
    new.find? path = some ⟨path, env.blobId contents.bytes, blobKind contents⟩
  gone : ∀ path ∈ paths, env.worktree.read path = .absent →
    ∀ name, AtOrAbove path name → new.find? name = none

/-- No named path without a file is above a named one with a file. -/
def Apart (env : Environment) (paths : List Text) : Prop :=
  ∀ path ∈ paths, ∀ other ∈ paths, env.worktree.read path = .absent →
    (env.worktree.read other).isFile → ¬ Above separator path other

theorem TreeExact.of_find? {old new new' : Tree} (exact' : TreeExact env paths old new)
    (agree : ∀ name, new'.find? name = new.find? name) : TreeExact env paths old new' := by
  constructor
  · intro name outside
    rw [agree]
    exact exact'.elsewhere name outside
  · intro path mem contents onDisk
    rw [agree]
    exact exact'.held path mem contents onDisk
  · intro path mem absent name beneath
    rw [agree]
    exact exact'.gone path mem absent name beneath

theorem TreeExact.apart {old new : Tree} (exact' : TreeExact env paths old new)
    (readable : ∀ path ∈ paths, env.Readable path) : Apart env paths := by
  intro path mem other mem' absent isFile above
  cases onDisk : env.worktree.read other with
  | absent =>
    rw [onDisk] at isFile
    cases isFile
  | unreadable error => exact readable other mem' error onDisk
  | file contents =>
    have held := exact'.held other mem' contents onDisk
    rw [exact'.gone path mem absent other (.inr above)] at held
    cases held

theorem leaves?_stagedPath_of_file {contents : File} {path : Text}
    (onDisk : env.worktree.read path = .file contents) :
    (env.stagedPath path).leaves? name =
      if name = path then some (some ⟨path, env.blobId contents.bytes, blobKind contents⟩)
      else if Above separator path name ∨ Above separator name path then some none else none := by
  unfold StagedPath.leaves? Environment.stagedPath Worktree.stagedPath
  rw [onDisk]

theorem leaves?_stagedPath_of_absent {path : Text} (absent : env.worktree.read path = .absent) :
    (env.stagedPath path).leaves? name = if AtOrAbove path name then some none else none := by
  unfold StagedPath.leaves? Environment.stagedPath Worktree.stagedPath
  rw [absent]

/-- What a named path leaves anywhere is nothing, or its own file at the path itself. -/
theorem leaves?_stagedPath_cases {path : Text} {leaves : Option TreeEntry}
    (readable : env.Readable path) (isLast : (env.stagedPath path).leaves? name = some leaves) :
    leaves = none ∧ (env.worktree.read path = .absent ∧ AtOrAbove path name ∨
        (env.worktree.read path).isFile ∧
          (Above separator path name ∨ Above separator name path)) ∨
      name = path ∧ ∃ contents, env.worktree.read path = .file contents ∧
        leaves = some ⟨path, env.blobId contents.bytes, blobKind contents⟩ := by
  cases onDisk : env.worktree.read path with
  | unreadable error => exact absurd onDisk (readable error)
  | absent =>
    rw [leaves?_stagedPath_of_absent onDisk] at isLast
    by_cases beneath : AtOrAbove path name
    · rw [if_pos beneath] at isLast
      exact .inl ⟨(Option.some.inj isLast).symm, .inl ⟨rfl, beneath⟩⟩
    · rw [if_neg beneath] at isLast
      cases isLast
  | file contents =>
    rw [leaves?_stagedPath_of_file onDisk] at isLast
    by_cases own : name = path
    · rw [if_pos own] at isLast
      exact .inr ⟨own, contents, rfl, (Option.some.inj isLast).symm⟩
    · rw [if_neg own] at isLast
      by_cases near : Above separator path name ∨ Above separator name path
      · rw [if_pos near] at isLast
        exact .inl ⟨(Option.some.inj isLast).symm, .inr ⟨rfl, near⟩⟩
      · rw [if_neg near] at isLast
        cases isLast

theorem treeExact_editAll (readable : ∀ path ∈ paths, env.Readable path)
    (apart : Apart env paths) :
    TreeExact env paths tree (tree.editAll (paths.map env.stagedPath)) := by
  constructor
  · intro name outside
    rw [find?_editAll]
    cases last : lastLeaves? (paths.map env.stagedPath) name with
    | none => rfl
    | some leaves =>
      rcases exists_leaves? last with ⟨staged, mem, isLast⟩
      rcases List.mem_map.mp mem with ⟨path, mem, isPath⟩
      rw [← isPath] at isLast
      rcases outside path mem with ⟨notAt, notAbove⟩
      rcases leaves?_stagedPath_cases (readable path mem) isLast with
        ⟨-, ⟨-, beneath⟩ | ⟨-, beneath | above⟩⟩ | ⟨own, -⟩
      · exact absurd beneath notAt
      · exact absurd (.inr beneath) notAt
      · exact absurd above notAbove
      · exact absurd (.inl own) notAt
  · intro path mem contents onDisk
    rw [find?_editAll]
    have isFile : (env.worktree.read path).isFile := by
      rw [onDisk]
      rfl
    have concerned : lastLeaves? (paths.map env.stagedPath) path ≠ none := by
      apply lastLeaves?_ne_none (List.mem_map_of_mem mem)
      rw [leaves?_stagedPath_of_file onDisk, if_pos rfl]
      exact Option.some_ne_none _
    rcases Option.ne_none_iff_exists'.mp concerned with ⟨leaves, last⟩
    rw [last, Option.getD_some]
    rcases exists_leaves? last with ⟨staged, mem', isLast⟩
    rcases List.mem_map.mp mem' with ⟨other, mem', isOther⟩
    rw [← isOther] at isLast
    rcases leaves?_stagedPath_cases (readable other mem') isLast with
      ⟨-, ⟨absent, same | beneath⟩ | ⟨isFile', beneath | above⟩⟩ | ⟨own, contents', onDisk', isLeft⟩
    · rw [same, absent] at onDisk
      cases onDisk
    · exact absurd beneath (apart other mem' path mem absent isFile)
    · rw [env.worktree.apart isFile' beneath] at onDisk
      cases onDisk
    · rw [env.worktree.apart isFile above] at isFile'
      cases isFile'
    · rw [← own, onDisk] at onDisk'
      rw [isLeft, ← own, OnDisk.file.inj onDisk']
  · intro path mem absent name beneath
    rw [find?_editAll]
    have concerned : lastLeaves? (paths.map env.stagedPath) name ≠ none := by
      apply lastLeaves?_ne_none (List.mem_map_of_mem mem)
      rw [leaves?_stagedPath_of_absent absent, if_pos beneath]
      exact Option.some_ne_none _
    rcases Option.ne_none_iff_exists'.mp concerned with ⟨leaves, last⟩
    rw [last, Option.getD_some]
    rcases exists_leaves? last with ⟨staged, mem', isLast⟩
    rcases List.mem_map.mp mem' with ⟨other, mem', isOther⟩
    rw [← isOther] at isLast
    rcases leaves?_stagedPath_cases (readable other mem') isLast with
      ⟨isNone, -⟩ | ⟨own, contents, onDisk, -⟩
    · exact isNone
    · have isFile : (env.worktree.read other).isFile := by
        rw [onDisk]
        rfl
      rcases beneath with same | above
      · rw [← own, same, absent] at onDisk
        cases onDisk
      · rw [own] at above
        exact absurd above (apart path mem other mem' absent isFile)

/-- Each name holds already what the last staged path that concerns it leaves there. -/
def Settled (tree : Tree) (all : List StagedPath) : Prop :=
  ∀ name leaves, lastLeaves? all name = some leaves → tree.find? name = leaves

theorem editAll_same_iff : (tree.editAll all).same tree = true ↔ Settled tree all := by
  rw [Tree.same_iff]
  constructor
  · intro same name leaves last
    have held := same name
    rw [find?_editAll, last, Option.getD_some] at held
    exact held.symm
  · intro settled name
    rw [find?_editAll]
    cases last : lastLeaves? all name with
    | none => rfl
    | some leaves => exact (settled name leaves last).symm

end Burlmd.Git
