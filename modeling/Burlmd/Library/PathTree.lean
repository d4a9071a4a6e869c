import Mathlib.Logic.Function.Basic
import Mathlib.Data.List.Infix
import Mathlib.Tactic.Common

/-!
# Trees of entries

A tree says what there is at every path. Entries are put, erased and moved with all that is
beneath them, and one tree extends another by debris: by entries of a kind that do not matter.
-/

namespace Burlmd

universe u v

/-- What there is at each path, from the root. -/
abbrev PathTree (ν : Type u) (α : Type v) : Type (max u v) := List ν → Option α

namespace PathTree

variable {ν : Type u} {α : Type v} [DecidableEq ν] {tree tree' tree'' : PathTree ν α}
  {path source target : List ν} {x y : α}

def put (tree : PathTree ν α) (path : List ν) (x : α) : PathTree ν α :=
  Function.update tree path (some x)

def erase (tree : PathTree ν α) (path : List ν) : PathTree ν α := Function.update tree path none

/-- What is at the source and beneath it goes to the target, in the place of what is there. -/
def move (tree : PathTree ν α) (source target : List ν) : PathTree ν α := fun path =>
  if target <+: path then tree (source ++ path.drop target.length)
  else if source <+: path then none
  else tree path

/-- Drops what is at a path and beneath it. -/
def prune (tree : PathTree ν α) (path : List ν) : PathTree ν α := fun other =>
  if path <+: other then none else tree other

/-- Nothing is at the path or beneath it. -/
def Free (tree : PathTree ν α) (path : List ν) : Prop :=
  ∀ other, path <+: other → tree other = none

/-! ## Values -/

theorem put_apply (other : List ν) :
    tree.put path x other = if other = path then some x else tree other :=
  Function.update_apply tree path (some x) other

theorem put_self : tree.put path x path = some x := by
  rw [put_apply]
  exact if_pos rfl

theorem erase_apply (other : List ν) :
    tree.erase path other = if other = path then none else tree other :=
  Function.update_apply tree path none other

theorem move_below (rest : List ν) : tree.move source target (target ++ rest) = tree (source ++ rest) := by
  unfold move
  rw [if_pos (List.prefix_append target rest), List.drop_left]

theorem move_target : tree.move source target target = tree source := by
  have below := @move_below ν α _ tree source target []
  rw [List.append_nil, List.append_nil] at below
  exact below

theorem move_source (outside : ¬ target <+: path) (inside : source <+: path) :
    tree.move source target path = none := by
  unfold move
  rw [if_neg outside, if_pos inside]

theorem move_other (notTarget : ¬ target <+: path) (notSource : ¬ source <+: path) :
    tree.move source target path = tree path := by
  unfold move
  rw [if_neg notTarget, if_neg notSource]

theorem move_self : tree.move source source = tree := by
  funext path
  by_cases inside : source <+: path
  · rcases inside with ⟨rest, rfl⟩
    exact move_below rest
  · exact move_other inside inside

/-! ## Inverses -/

theorem put_put : (tree.put path x).put path y = tree.put path y := by
  unfold put
  exact Function.update_idem _ _ _

/-- A path that held something has it back. -/
theorem put_restores (held : tree path = some y) : (tree.put path x).put path y = tree := by
  rw [put_put]
  unfold put
  rw [← held]
  exact Function.update_eq_self path tree

/-- A path that held nothing holds nothing again. -/
theorem erase_restores (vacant : tree path = none) : (tree.put path x).erase path = tree := by
  unfold put erase
  rw [Function.update_idem, ← vacant]
  exact Function.update_eq_self path tree

/-- What moves to a free place and back was never away. -/
theorem move_restores (free : tree.Free target) : (tree.move source target).move target source = tree := by
  funext path
  by_cases inside : source <+: path
  · rcases inside with ⟨rest, rfl⟩
    rw [move_below, move_below]
  · by_cases under : target <+: path
    · rw [move_source inside under]
      exact (free path under).symm
    · rw [move_other inside under, move_other under inside]

/-! ## What is put aside -/

theorem prune_free (free : tree.Free path) : tree.prune path = tree := by
  funext other
  unfold prune
  by_cases under : path <+: other
  · rw [if_pos under, free other under]
  · exact if_neg under

/-- Trees that differ at a path only, or beneath it. -/
theorem prune_eq_iff : tree'.prune path = tree.prune path ↔
    ∀ other, ¬ path <+: other → tree' other = tree other := by
  constructor
  · intro same other outside
    have at_ := congrFun same other
    unfold prune at at_
    rwa [if_neg outside, if_neg outside] at at_
  · intro same
    funext other
    unfold prune
    by_cases under : path <+: other
    · rw [if_pos under, if_pos under]
    · rw [if_neg under, if_neg under, same other under]

/-- What is put aside and taken back was never away, whatever stood in its place. -/
theorem prune_move_back : ((tree.move source target).move target source).prune target = tree.prune target := by
  apply prune_eq_iff.mpr
  intro other outside
  by_cases inside : source <+: other
  · rcases inside with ⟨rest, rfl⟩
    rw [move_below, move_below]
  · rw [move_other inside outside, move_other outside inside]

/-- What is put aside is gone from where it was. -/
theorem prune_move_aside : (tree.move source target).prune target = (tree.prune source).prune target := by
  apply prune_eq_iff.mpr
  intro other outside
  unfold prune
  by_cases inside : source <+: other
  · rw [if_pos inside]
    exact move_source outside inside
  · rw [if_neg inside]
    exact move_other outside inside

/-! ## Debris -/

variable {debris : α → Prop}

/-- A tree with all that another has, and at most debris besides. -/
def Extends (debris : α → Prop) (tree tree' : PathTree ν α) : Prop :=
  ∀ path, tree' path = tree path ∨ tree path = none ∧ ∃ x, tree' path = some x ∧ debris x

namespace Extends

omit [DecidableEq ν] in
theorem refl (tree : PathTree ν α) : Extends debris tree tree := fun _ => Or.inl rfl

omit [DecidableEq ν] in
theorem trans (first : Extends debris tree tree') (second : Extends debris tree' tree'') :
    Extends debris tree tree'' := by
  intro path
  rcases first path with same | ⟨vacant, x, isDebris, litter⟩
  · rcases second path with same' | ⟨vacant, x, isDebris, litter⟩
    · exact Or.inl (same'.trans same)
    · exact Or.inr ⟨same.symm.trans vacant, x, isDebris, litter⟩
  · rcases second path with same' | ⟨vacant', -⟩
    · exact Or.inr ⟨vacant, x, same'.trans isDebris, litter⟩
    · rw [vacant'] at isDebris
      cases isDebris

omit [DecidableEq ν] in
/-- What there was is there still. -/
theorem kept (extends_ : Extends debris tree tree') (held : tree path = some x) :
    tree' path = some x := by
  rcases extends_ path with same | ⟨vacant, -⟩
  · exact same.trans held
  · rw [held] at vacant
    cases vacant

omit [DecidableEq ν] in
/-- What is no debris was there before. -/
theorem back (extends_ : Extends debris tree tree') (held : tree' path = some x) (clean : ¬ debris x) :
    tree path = some x := by
  rcases extends_ path with same | ⟨-, y, isDebris, litter⟩
  · exact same.symm.trans held
  · rw [held] at isDebris
    rw [Option.some.inj isDebris] at clean
    exact absurd litter clean

theorem put (extends_ : Extends debris tree tree') : Extends debris (tree.put path x) (tree'.put path x) := by
  intro other
  rw [put_apply, put_apply]
  by_cases same : other = path
  · rw [if_pos same, if_pos same]
    exact Or.inl rfl
  · rw [if_neg same, if_neg same]
    exact extends_ other

theorem erase (extends_ : Extends debris tree tree') : Extends debris (tree.erase path) (tree'.erase path) := by
  intro other
  rw [erase_apply, erase_apply]
  by_cases same : other = path
  · rw [if_pos same, if_pos same]
    exact Or.inl rfl
  · rw [if_neg same, if_neg same]
    exact extends_ other

theorem move (extends_ : Extends debris tree tree') :
    Extends debris (tree.move source target) (tree'.move source target) := by
  intro other
  unfold PathTree.move
  by_cases under : target <+: other
  · rw [if_pos under, if_pos under]
    exact extends_ _
  · rw [if_neg under, if_neg under]
    by_cases inside : source <+: other
    · rw [if_pos inside, if_pos inside]
      exact Or.inl rfl
    · rw [if_neg inside, if_neg inside]
      exact extends_ other

/-- New debris. -/
theorem put_debris (vacant : tree path = none) (litter : debris x) :
    Extends debris tree (tree.put path x) := by
  intro other
  rw [put_apply]
  by_cases same : other = path
  · rw [if_pos same, same]
    exact Or.inr ⟨vacant, x, rfl, litter⟩
  · rw [if_neg same]
    exact Or.inl rfl

end Extends

/-! ## Rooted trees -/

/-- Every entry below the root is in a branch. -/
def Rooted (branch : α → Prop) (tree : PathTree ν α) : Prop :=
  ∀ path name, (tree (path ++ [name])).isSome → ∃ x, tree path = some x ∧ branch x

variable {branch : α → Prop}

omit [DecidableEq ν] in
theorem Rooted.above (rooted : tree.Rooted branch) {rest : List ν} (held : (tree (path ++ rest)).isSome) :
    (tree path).isSome := by
  induction rest using List.reverseRecOn with
  | nil => rwa [List.append_nil] at held
  | append_singleton rest name ih =>
    rw [← List.append_assoc] at held
    rcases rooted _ _ held with ⟨x, isBranch, -⟩
    exact ih (Option.isSome_of_eq_some isBranch)

omit [DecidableEq ν] in
/-- Nothing is beneath a path that has nothing. -/
theorem Rooted.free (rooted : tree.Rooted branch) (vacant : tree path = none) : tree.Free path := by
  rintro _ ⟨rest, rfl⟩
  cases found : tree (path ++ rest) with
  | none => rfl
  | some x =>
    have above := rooted.above (Option.isSome_of_eq_some found)
    rw [vacant] at above
    cases above

/-- An entry in a branch, which has nothing beneath it unless it is one. -/
theorem Rooted.put (rooted : tree.Rooted branch) (parent : tree path.dropLast = some y) (isBranch : branch y)
    (leaf : (∀ z, tree path = some z → ¬ branch z) ∨ branch x) : (tree.put path x).Rooted branch := by
  intro above name held
  rw [put_apply] at held
  by_cases same : above ++ [name] = path
  · rw [← same, List.dropLast_concat] at parent
    refine ⟨y, ?_, isBranch⟩
    rw [put_apply, if_neg, parent]
    intro isPath
    rw [← isPath] at same
    exact List.ne_cons_self (List.append_right_eq_self.mp same).symm
  · rw [if_neg same] at held
    rcases rooted above name held with ⟨z, found, isBranch⟩
    rw [put_apply]
    by_cases isPath : above = path
    · rw [if_pos isPath]
      rcases leaf with leaf | leaf
      · exact absurd isBranch (leaf z (isPath ▸ found))
      · exact ⟨x, rfl, leaf⟩
    · rw [if_neg isPath]
      exact ⟨z, found, isBranch⟩

/-- A leaf can go. -/
theorem Rooted.erase (rooted : tree.Rooted branch)
    (leaf : ∀ other, path <+: other → other ≠ path → tree other = none) : (tree.erase path).Rooted branch := by
  intro above name held
  rw [erase_apply] at held
  by_cases same : above ++ [name] = path
  · rw [if_pos same] at held
    cases held
  · rw [if_neg same] at held
    rw [erase_apply, if_neg]
    · exact rooted above name held
    · rintro rfl
      have longer : above ++ [name] ≠ above := fun whole =>
        List.cons_ne_nil _ _ (List.append_right_eq_self.mp whole)
      rw [leaf _ (List.prefix_append above [name]) longer] at held
      cases held

/-- A move into a branch, to a place that is free. -/
theorem Rooted.move (rooted : tree.Rooted branch) (parent : tree target.dropLast = some y)
    (isBranch : branch y) (inside : ¬ source <+: target) :
    (tree.move source target).Rooted branch := by
  intro above name held
  by_cases under : target <+: above ++ [name]
  · rcases List.prefix_concat_iff.mp under with whole | ⟨rest, rfl⟩
    · rw [whole, List.dropLast_concat] at parent
      refine ⟨y, ?_, isBranch⟩
      rw [move_other, parent]
      · intro within
        rw [whole] at within
        have shorter := within.length_le
        rw [List.length_append, List.length_singleton] at shorter
        omega
      · intro within
        apply inside
        rw [whole]
        exact within.trans (List.prefix_append above [name])
    · rw [List.append_assoc, move_below, ← List.append_assoc] at held
      rw [move_below]
      exact rooted _ _ held
  · by_cases within : source <+: above ++ [name]
    · rw [move_source under within] at held
      cases held
    · rw [move_other under within] at held
      rw [move_other]
      · exact rooted above name held
      · intro below
        exact under (below.trans (List.prefix_append above [name]))
      · intro below
        exact within (below.trans (List.prefix_append above [name]))

end PathTree

end Burlmd
