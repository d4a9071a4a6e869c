import Mathlib.Data.List.Sort
import Mathlib.Data.List.Nodup
import Mathlib.Tactic.Common
import Burlmd.Library.BottomUp
import Burlmd.Markdown.Spans

/-!
# Deriving the tree from the registered paths

`finish` links every block to the blocks registered one component below it and
measures the containers from the deepest paths up.
-/

namespace Burlmd.Markdown

open Utf8
open BottomUp

/-- The path of the block at an index. -/
def pathAt (blocks : List BlockSpan) (index : Nat) : BlockPath :=
  (blocks[index]?.map BlockSpan.path).getD []

theorem byPath_eq_some_iff {blocks : List BlockSpan} (nodup : (blocks.map BlockSpan.path).Nodup)
    {path : BlockPath} {index : Nat} :
    byPath blocks path = some index ↔ ∃ block, blocks[index]? = some block ∧ block.path = path := by
  induction blocks generalizing index with
  | nil => simp [byPath]
  | cons block rest ih =>
    rw [List.map_cons, List.nodup_cons] at nodup
    have tail (index : Nat) : byPath rest path = some index ↔
        ∃ block, rest[index]? = some block ∧ block.path = path := ih nodup.2
    cases found : byPath rest path with
    | some later =>
      obtain ⟨inner, at_, same⟩ := (tail later).mp found
      have other : block.path ≠ path := by
        rintro rfl
        exact nodup.1 (List.mem_map.mpr ⟨inner, List.mem_of_getElem? at_, same⟩)
      cases index with
      | zero => simp [byPath, found, other]
      | succ index =>
        rw [List.getElem?_cons_succ, ← tail index]
        simp [byPath, found]
    | none =>
      cases index with
      | zero => by_cases same : block.path = path <;> simp [byPath, found, same]
      | succ index =>
        rw [List.getElem?_cons_succ, ← tail index]
        by_cases same : block.path = path <;> simp [byPath, found, same]

namespace SpanMapBuilder

variable {blocks : List BlockSpan}

theorem mem_childrenOf (nodup : (blocks.map BlockSpan.path).Nodup) {index child : Nat} :
    child ∈ childrenOf blocks index ↔
      ∃ block parent, blocks[child]? = some block ∧ blocks[index]? = some parent ∧
        2 ≤ block.path.length ∧ block.path.dropLast = parent.path := by
  simp only [childrenOf, isParent, List.mem_map, mem_sortByKey, List.mem_filter,
    Bool.and_eq_true, decide_eq_true_eq, byPath_eq_some_iff nodup, Prod.exists,
    List.mk_mem_zipIdx_iff_getElem?]
  constructor
  · rintro ⟨block, _, ⟨at_, long, parent, found, same⟩, rfl⟩
    exact ⟨block, parent, at_, found, long, same.symm⟩
  · rintro ⟨block, parent, at_, found, long, same⟩
    exact ⟨block, child, ⟨at_, long, parent, found, same.symm⟩, rfl⟩

theorem pathAt_of_mem_zipIdx {pair : BlockSpan × Nat} (member : pair ∈ blocks.zipIdx) :
    pathAt blocks pair.2 = pair.1.path := by
  have at_ := List.mk_mem_zipIdx_iff_getElem?.mp (show (pair.1, pair.2) ∈ blocks.zipIdx from member)
  simp [pathAt, at_]

theorem childrenOf_sorted (blocks : List BlockSpan) (index : Nat) :
    (childrenOf blocks index).Pairwise fun left right =>
      (pathAt blocks left).getLastD 0 ≤ (pathAt blocks right).getLastD 0 := by
  rw [childrenOf, List.pairwise_map]
  refine (sortByKey_pairwise _ _).imp_of_mem fun {left right} first second ordered => ?_
  rw [mem_sortByKey, List.mem_filter] at first second
  rwa [pathAt_of_mem_zipIdx first.1, pathAt_of_mem_zipIdx second.1]

theorem childrenOf_nodup (blocks : List BlockSpan) (index : Nat) :
    (childrenOf blocks index).Nodup := by
  have indices : ((blocks.zipIdx.filter fun child => isParent blocks index child.1).map
      Prod.snd).Nodup :=
    ((List.filter_sublist.map Prod.snd).nodup
      (by rw [List.zipIdx_map_snd]; exact List.nodup_range'))
  exact ((sortByKey_perm _ _).map Prod.snd).nodup_iff.mpr indices

theorem pathAt_injective (nodup : (blocks.map BlockSpan.path).Nodup) {first second : Nat}
    {one two : BlockSpan} (at_first : blocks[first]? = some one)
    (at_second : blocks[second]? = some two) (same : one.path = two.path) : first = second := by
  have left := (byPath_eq_some_iff nodup).mpr ⟨one, at_first, rfl⟩
  have right := (byPath_eq_some_iff nodup).mpr ⟨two, at_second, same.symm⟩
  exact Option.some.inj (left.symm.trans right)

/-- The children of a block whose registered child paths are those below `count`. -/
theorem childrenOf_paths (nodup : (blocks.map BlockSpan.path).Nodup) {index count : Nat}
    {parent : BlockSpan} (found : blocks[index]? = some parent) (rooted : parent.path ≠ [])
    (below : ∀ k, parent.path ++ [k] ∈ blocks.map BlockSpan.path ↔ k < count) :
    (childrenOf blocks index).map (pathAt blocks) =
      (List.range count).map fun k => parent.path ++ [k] := by
  let lastOf (child : Nat) : Nat := (pathAt blocks child).getLastD 0
  have shape {child : Nat} (member : child ∈ childrenOf blocks index) :
      ∃ block, blocks[child]? = some block ∧ block.path = parent.path ++ [lastOf child] ∧
        pathAt blocks child = parent.path ++ [lastOf child] := by
    obtain ⟨block, parent', at_, found', long, same⟩ := (mem_childrenOf nodup).mp member
    obtain rfl : parent = parent' := by simpa [found] using found'
    have nonempty : block.path ≠ [] := by rintro empty; simp [empty] at long
    have path : pathAt blocks child = block.path := by simp [pathAt, at_]
    have whole : block.path = parent.path ++ [lastOf child] := by
      simp only [lastOf, path, ← same, List.getLastD_eq_getLast?,
        List.getLast?_eq_some_getLast nonempty, Option.getD_some]
      exact (List.dropLast_append_getLast nonempty).symm
    exact ⟨block, at_, whole, path.trans whole⟩
  have sorted : ((childrenOf blocks index).map lastOf).Pairwise (· ≤ ·) :=
    List.pairwise_map.mpr (childrenOf_sorted blocks index)
  have distinct : ((childrenOf blocks index).map lastOf).Nodup := by
    refine List.Nodup.map_on ?_ (childrenOf_nodup blocks index)
    intro first member second member' same
    obtain ⟨one, at_one, path_one, -⟩ := shape member
    obtain ⟨two, at_two, path_two, -⟩ := shape member'
    exact pathAt_injective nodup at_one at_two (by rw [path_one, path_two, same])
  have members (k : Nat) : k ∈ (childrenOf blocks index).map lastOf ↔ k ∈ List.range count := by
    rw [List.mem_range, ← below k, List.mem_map, List.mem_map]
    constructor
    · rintro ⟨child, member, rfl⟩
      obtain ⟨block, at_, path, -⟩ := shape member
      exact ⟨block, List.mem_of_getElem? at_, path⟩
    · rintro ⟨block, member, path⟩
      obtain ⟨child, at_⟩ := List.getElem?_of_mem member
      have long : 2 ≤ block.path.length := by
        have := List.length_pos_of_ne_nil rooted
        rw [path]
        simp
        omega
      have child_mem : child ∈ childrenOf blocks index :=
        (mem_childrenOf nodup).mpr ⟨block, parent, at_, found, long, by simp [path]⟩
      exact ⟨child, child_mem, by simp [lastOf, pathAt, at_, path]⟩
  have lasts : (childrenOf blocks index).map lastOf = List.range count :=
    ((List.perm_ext_iff_of_nodup distinct List.nodup_range).mpr members).eq_of_pairwise
      (fun a b _ _ => Nat.le_antisymm) sorted
      (List.pairwise_lt_range.imp Nat.le_of_lt)
  rw [← lasts, List.map_map]
  exact List.map_congr_left fun child member => (shape member).choose_spec.2.2

/-! ## Measuring -/

theorem linked_getElem? (blocks : List BlockSpan) (index : Nat) :
    (linked blocks)[index]? =
      blocks[index]?.map fun block => { block with children := childrenOf blocks index } := by
  simp [linked, List.getElem?_zipIdx, Option.map_map, Function.comp_def]

theorem finish_blocks (builder : SpanMapBuilder) :
    builder.finish.blocks = (byDepth (linked builder.blocks)).foldl measure (linked builder.blocks) :=
  rfl

theorem measure_frame (blocks : List BlockSpan) {index other : Nat} (ne : other ≠ index) :
    (measure blocks index)[other]? = blocks[other]? := by
  simp [measure, ne.symm]

/-- Everything but the length of a block is as it was linked. -/
theorem foldl_measure_shape (order : List Nat) (blocks : List BlockSpan) (index : Nat) :
    ((order.foldl measure blocks)[index]?).map (fun block => { block with rendered_len := 0 }) =
      (blocks[index]?).map fun block => { block with rendered_len := 0 } := by
  induction order generalizing blocks with
  | nil => rfl
  | cons first rest ih =>
    rw [List.foldl_cons, ih]
    by_cases same : index = first
    · subst same
      cases at_ : blocks[index]? with
      | none => simp [measure, at_]
      | some block =>
        by_cases leaf : block.children = [] <;>
          simp [measure, at_, leaf]
    · rw [measure_frame _ same]

theorem mem_byDepth {blocks : List BlockSpan} {index : Nat} :
    index ∈ byDepth blocks ↔ index < blocks.length := by
  simp only [byDepth, List.mem_map, mem_sortByKey, Prod.exists, List.mk_mem_zipIdx_iff_getElem?]
  constructor
  · rintro ⟨block, _, at_, rfl⟩
    exact (List.getElem?_eq_some_iff.mp at_).1
  · intro lt
    exact ⟨blocks[index], index, List.getElem?_eq_getElem lt, rfl⟩

theorem byDepth_nodup (blocks : List BlockSpan) : (byDepth blocks).Nodup := by
  refine ((sortByKey_perm _ _).map Prod.snd).nodup_iff.mpr ?_
  rw [List.zipIdx_map_snd]
  exact List.nodup_range'

theorem byDepth_pairwise (blocks : List BlockSpan) :
    (byDepth blocks).Pairwise fun left right =>
      (pathAt blocks right).length ≤ (pathAt blocks left).length := by
  rw [byDepth, List.pairwise_map]
  refine (sortByKey_pairwise _ _).imp_of_mem fun {left right} first second ordered => ?_
  rw [mem_sortByKey] at first second
  rw [pathAt_of_mem_zipIdx first, pathAt_of_mem_zipIdx second]
  exact ordered

theorem pathAt_linked (blocks : List BlockSpan) (index : Nat) :
    pathAt (linked blocks) index = pathAt blocks index := by
  rw [pathAt, linked_getElem?, pathAt, Option.map_map]
  rfl

theorem depth_of_child (nodup : (blocks.map BlockSpan.path).Nodup) {index child : Nat}
    (member : child ∈ childrenOf blocks index) :
    child < blocks.length ∧ (pathAt blocks child).length = (pathAt blocks index).length + 1 := by
  obtain ⟨block, parent, at_, found, long, same⟩ := (mem_childrenOf nodup).mp member
  refine ⟨(List.getElem?_eq_some_iff.mp at_).1, ?_⟩
  have depth := congrArg List.length same
  rw [List.length_dropLast] at depth
  simp only [pathAt, at_, found, Option.map_some, Option.getD_some]
  omega

/-- The lengths of the finished map, when `target` solves the equations of `measure`. -/
theorem finish_getElem? {builder : SpanMapBuilder}
    (nodup : (builder.blocks.map BlockSpan.path).Nodup) (target : Nat → Nat)
    (leaf : ∀ index block, builder.blocks[index]? = some block →
      childrenOf builder.blocks index = [] → block.rendered_len = target index)
    (joined : ∀ index, childrenOf builder.blocks index ≠ [] →
      ((childrenOf builder.blocks index).map target).sum +
        (childrenOf builder.blocks index).length - 1 = target index)
    (index : Nat) :
    builder.finish.blocks[index]? = builder.blocks[index]?.map fun block =>
      { block with
        children := childrenOf builder.blocks index
        rendered_len := target index } := by
  obtain ⟨blocks, frontmatter⟩ := builder
  simp only at nodup leaf joined ⊢
  rw [finish_blocks]
  by_cases inside : index < blocks.length
  swap
  · have shape := foldl_measure_shape (byDepth (linked blocks)) (linked blocks) index
    have outside : blocks[index]? = none := List.getElem?_eq_none (by omega)
    rw [linked_getElem?, outside, Option.map_none, Option.map_none, Option.map_eq_none_iff]
      at shape
    rw [shape, outside, Option.map_none]
  refine foldl_settles (fun blocks index other ne => measure_frame blocks ne)
    (fun index child => child ∈ childrenOf blocks index)
    (fun index => blocks[index]?.map fun block =>
      { block with children := childrenOf blocks index, rendered_len := target index }) ?_ ?_ ?_ (byDepth_nodup _) index ?_
  · intro current index member unvisited settled
    obtain ⟨block, at_⟩ : ∃ block, blocks[index]? = some block := by
      rw [mem_byDepth, linked, List.length_map, List.length_zipIdx] at member
      exact ⟨_, List.getElem?_eq_getElem member⟩
    have here : current[index]? = some { block with children := childrenOf blocks index } := by
      rw [unvisited, linked_getElem?, at_]
      rfl
    by_cases empty : childrenOf blocks index = []
    · simp [measure, here, at_, empty, leaf index block at_ empty]
    · have lengths : (childrenOf blocks index).map
          (fun child => (current[child]?.map BlockSpan.rendered_len).getD 0) =
            (childrenOf blocks index).map target := by
        refine List.map_congr_left fun child member => ?_
        have inside := (depth_of_child nodup member).1
        rw [settled child member, List.getElem?_eq_getElem inside]
        rfl
      simp [measure, here, at_, empty, joinedLength, lengths, joined index empty]
  · refine (byDepth_pairwise (linked blocks)).imp fun {left right} ordered member => ?_
    have deeper := (depth_of_child nodup member).2
    rw [pathAt_linked, pathAt_linked] at ordered
    omega
  · intro index _ child member
    obtain ⟨inside, deeper⟩ := depth_of_child nodup member
    refine ⟨mem_byDepth.mpr (by simpa [linked] using inside), ?_⟩
    rintro rfl
    omega
  · exact mem_byDepth.mpr (by simpa [linked] using inside)

end SpanMapBuilder

end Burlmd.Markdown
