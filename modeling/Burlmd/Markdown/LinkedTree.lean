import Burlmd.Markdown.Descent
import Burlmd.Markdown.RunEnds

/-!
# The map of a parsed Note is linked

Linking and measuring make one tree of any Blocks with distinct paths: the lengths of containers
solve the equations of measuring, whatever the parser registered.
-/

namespace Burlmd.Markdown

open Utf8

namespace SpanMapBuilder

variable {blocks : List BlockSpan} (frontmatter : Option Range)

/-- The length of a Block from those of the Blocks below it, as deep as the fuel goes. -/
def lengthBy (blocks : List BlockSpan) : Nat → Nat → Nat
  | 0, _ => 0
  | fuel + 1, index =>
      if childrenOf blocks index = [] then (blocks[index]?.map BlockSpan.rendered_len).getD 0
      else ((childrenOf blocks index).map (lengthBy blocks fuel)).sum +
        (childrenOf blocks index).length - 1

/-- A child of a Block has fewer Blocks that are deeper. -/
theorem deeper_child (nodup : (blocks.map BlockSpan.path).Nodup) {index child : Nat}
    (member : child ∈ childrenOf blocks index) :
    SpanMap.deeper ⟨blocks, frontmatter⟩ (pathAt blocks child) <
      SpanMap.deeper ⟨blocks, frontmatter⟩ (pathAt blocks index) := by
  rcases depth_of_child nodup member with ⟨inside, depth⟩
  have path : pathAt blocks child = blocks[child].path := by
    unfold pathAt
    rw [List.getElem?_eq_getElem inside]
    rfl
  rw [path] at depth ⊢
  apply SpanMap.deeper_lt (List.getElem_mem inside)
  omega

/-- Fuel beyond the depth of a Block makes no difference. -/
theorem lengthBy_stable (nodup : (blocks.map BlockSpan.path).Nodup) {fuel fuel' index : Nat}
    (enough : SpanMap.deeper ⟨blocks, frontmatter⟩ (pathAt blocks index) < fuel)
    (enough' : SpanMap.deeper ⟨blocks, frontmatter⟩ (pathAt blocks index) < fuel') :
    lengthBy blocks fuel index = lengthBy blocks fuel' index := by
  induction fuel generalizing fuel' index with
  | zero => cases enough
  | succ fuel ih =>
    cases fuel' with
    | zero => cases enough'
    | succ fuel' =>
      unfold lengthBy
      have each : (childrenOf blocks index).map (lengthBy blocks fuel) =
          (childrenOf blocks index).map (lengthBy blocks fuel') := by
        apply List.map_congr_left
        intro child member
        have less := deeper_child frontmatter nodup member
        exact ih (Nat.lt_of_lt_of_le less (Nat.le_of_lt_succ enough))
          (Nat.lt_of_lt_of_le less (Nat.le_of_lt_succ enough'))
      rw [each]

/-- The Blocks of a finished map. -/
theorem finish_linked (nodup : (blocks.map BlockSpan.path).Nodup) (index : Nat) :
    (finish ⟨blocks, frontmatter⟩).blocks[index]? = blocks[index]?.map fun block =>
      { block with
        children := childrenOf blocks index
        rendered_len := lengthBy blocks (blocks.length + 1) index } := by
  have enough (path : BlockPath) : SpanMap.deeper ⟨blocks, frontmatter⟩ path < blocks.length + 1 :=
    SpanMap.deeper_le path
  apply @finish_getElem? ⟨blocks, frontmatter⟩ nodup
  · intro index block here none_
    unfold lengthBy
    rw [if_pos none_, here]
    rfl
  · intro index some_
    refine Eq.trans ?_ (if_neg some_).symm
    have each : (childrenOf blocks index).map (lengthBy blocks (blocks.length + 1)) =
        (childrenOf blocks index).map (lengthBy blocks blocks.length) := by
      apply List.map_congr_left
      intro child member
      have less := deeper_child frontmatter nodup member
      exact lengthBy_stable frontmatter nodup (enough _)
        (Nat.lt_of_lt_of_le less (Nat.le_of_lt_succ (enough _)))
    dsimp only
    rw [each]

theorem finish_paths (nodup : (blocks.map BlockSpan.path).Nodup) :
    (finish ⟨blocks, frontmatter⟩).blocks.map BlockSpan.path = blocks.map BlockSpan.path := by
  apply List.ext_getElem?
  intro index
  rw [List.getElem?_map, List.getElem?_map, finish_linked frontmatter nodup, Option.map_map]
  rfl

/-- A Block of a finished map is one that was registered, linked and measured. -/
theorem mem_finish (nodup : (blocks.map BlockSpan.path).Nodup) {block : BlockSpan}
    (member : block ∈ (finish ⟨blocks, frontmatter⟩).blocks) :
    ∃ (index : Nat) (started : BlockSpan), blocks[index]? = some started ∧ block = { started with
      children := childrenOf blocks index
      rendered_len := lengthBy blocks (blocks.length + 1) index } := by
  rcases List.getElem?_of_mem member with ⟨index, here⟩
  rw [finish_linked frontmatter nodup] at here
  rcases Option.map_eq_some_iff.mp here with ⟨started, at_, same⟩
  exact ⟨index, started, at_, same.symm⟩

/-- A linked child is one component below its parent. -/
theorem childrenOf_path (nodup : (blocks.map BlockSpan.path).Nodup) {index child : Nat}
    {parent : BlockSpan} (here : blocks[index]? = some parent)
    (member : child ∈ childrenOf blocks index) :
    ∃ below, blocks[child]? = some below ∧
      below.path = parent.path ++ [(pathAt blocks child).getLastD 0] := by
  rcases (mem_childrenOf nodup).mp member with ⟨below, parent', at_, here', long, same⟩
  rw [here] at here'
  cases here'
  refine ⟨below, at_, ?_⟩
  have path : pathAt blocks child = below.path := by
    unfold pathAt
    rw [at_]
    rfl
  have nonempty : below.path ≠ [] := by
    intro empty
    rw [empty] at long
    cases long
  rw [path, ← same, List.getLastD_eq_getLast?, List.getLast?_eq_some_getLast nonempty]
  exact (List.dropLast_append_getLast nonempty).symm

/-- Linked children stand in the order of their last components, no two of which are one. -/
theorem childrenOf_increasing (nodup : (blocks.map BlockSpan.path).Nodup) {index : Nat}
    {parent : BlockSpan} (here : blocks[index]? = some parent) :
    ((childrenOf blocks index).map fun child => (pathAt blocks child).getLastD 0).Pairwise
      (· < ·) := by
  rw [List.pairwise_map]
  apply ((childrenOf_sorted blocks index).and (childrenOf_nodup blocks index)).imp_of_mem
  intro first second member member' ordered
  rcases childrenOf_path nodup here member with ⟨one, at_one, path_one⟩
  rcases childrenOf_path nodup here member' with ⟨two, at_two, path_two⟩
  apply Nat.lt_of_le_of_ne ordered.1
  intro same
  apply ordered.2
  apply pathAt_injective nodup at_one at_two
  rw [path_one, path_two, same]

/-- A finished map is linked, when the runs of what was registered are laid out. -/
theorem finish_is_linked (nodup : (blocks.map BlockSpan.path).Nodup) {source : Text}
    (leaves : ∀ block ∈ blocks, BlockSpan.Runs source block) :
    SpanMap.Linked source (finish ⟨blocks, frontmatter⟩) := by
  constructor
  · rw [finish_paths frontmatter nodup]
    exact nodup
  · intro block member leaf
    rcases mem_finish frontmatter nodup member with ⟨index, started, here, same⟩
    subst same
    have none_ : childrenOf blocks index = [] := List.isEmpty_iff.mp leaf
    have length : lengthBy blocks (blocks.length + 1) index = started.rendered_len := by
      unfold lengthBy
      rw [if_pos none_, here]
      rfl
    have runs := leaves started (List.mem_of_getElem? here)
    constructor
    · dsimp only
      rw [length]
      exact runs.tiles
    · exact runs.order
    · exact runs.sliced
  · intro block member container
    rcases mem_finish frontmatter nodup member with ⟨index, started, here, same⟩
    subst same
    have some_ : childrenOf blocks index ≠ [] := by
      intro none_
      unfold BlockSpan.isLeaf at container
      dsimp only at container
      rw [none_] at container
      cases container
    have each : (childrenOf blocks index).map (fun child =>
        ((finish ⟨blocks, frontmatter⟩).blocks[child]?.map BlockSpan.rendered_len).getD 0) =
          (childrenOf blocks index).map (lengthBy blocks blocks.length) := by
      apply List.map_congr_left
      intro child inside
      rcases childrenOf_path nodup here inside with ⟨below, at_, -⟩
      rw [finish_linked frontmatter nodup, at_]
      have less := deeper_child frontmatter nodup inside
      have enough (path : BlockPath) :
          SpanMap.deeper ⟨blocks, frontmatter⟩ path < blocks.length + 1 := SpanMap.deeper_le path
      exact lengthBy_stable frontmatter nodup (enough _)
        (Nat.lt_of_lt_of_le less (Nat.le_of_lt_succ (enough _)))
    unfold joinedLength
    rw [each]
    exact if_neg some_
  · intro block member
    rcases mem_finish frontmatter nodup member with ⟨index, started, here, same⟩
    subst same
    refine ⟨_, childrenOf_increasing nodup here, ?_⟩
    apply List.forall₂_map_right_iff.mpr
    apply List.forall₂_same.mpr
    intro child inside
    rcases childrenOf_path nodup here inside with ⟨below, at_, path⟩
    have finished := finish_linked frontmatter nodup child
    rw [at_, Option.map_some] at finished
    exact ⟨_, finished, path⟩
  · intro block member rooted child component below child_here path
    rcases mem_finish frontmatter nodup member with ⟨index, started, here, same⟩
    subst same
    rw [finish_linked frontmatter nodup] at child_here
    rcases Option.map_eq_some_iff.mp child_here with ⟨below', at_, same⟩
    subst same
    apply (mem_childrenOf nodup).mpr
    refine ⟨below', started, at_, here, ?_, ?_⟩
    · have long := List.length_pos_of_ne_nil rooted
      rw [path, List.length_append, List.length_singleton]
      exact Nat.succ_le_succ long
    · rw [path, List.dropLast_concat]

end SpanMapBuilder

/-! ## The parsed note -/

variable {source : Text} (stream : EventStream source) (containing_dir : Text)

theorem InOrder.mem_ordered {runs : List InlineRun} {low high : Nat}
    (order : InOrder low runs high) {run : InlineRun} (inside : run ∈ runs) :
    run.source.start ≤ run.source.stop := by
  induction runs generalizing low with
  | nil => cases inside
  | cons head rest ih =>
    rcases List.mem_cons.mp inside with same | later
    · subst same
      exact order.2.1
    · exact ih order.2.2 later

theorem InOrder.mem_le {runs : List InlineRun} {low high : Nat} (order : InOrder low runs high)
    {run : InlineRun} (inside : run ∈ runs) : run.source.stop ≤ high := by
  induction runs generalizing low with
  | nil => cases inside
  | cons head rest ih =>
    rcases List.mem_cons.mp inside with same | later
    · subst same
      exact order.2.2.le
    · exact ih order.2.2 later

/-- The runs of what the parser registers are laid out in it. -/
theorem registered_runs {block : BlockSpan}
    (member : block ∈ registerAll [] 0 (stream.emitted containing_dir).blocks) :
    block.Runs source := by
  have ends : RunsEndIn (IsBoundary source) block.runs := by
    have same : (Builder.new.run source containing_dir stream.events).spans.blocks =
        registerAll [] 0 (stream.emitted containing_dir).blocks := by
      have ran := run_emit source containing_dir stream.forest (.inl rfl) stream.conforms
        .initial .root []
      have started : Flow.initial.into .root [] = Builder.new := rfl
      rw [started] at ran
      rw [EventStream.events, ran]
      rfl
    apply (stream.runsIn containing_dir).blocks
    rw [same]
    exact member
  rcases mem_registered.mp member with ⟨path, emitted, range, found, own, entry⟩
  have laid := lookup_laid (stream.emitted_laid containing_dir).blocks found
  subst entry
  cases emitted with
  | leaf node own' runs =>
    have lay := laid.2 range own
    constructor
    · have length : (Emitted.entry path range (.leaf node own' runs)).rendered_len =
          (renderedText node).length := lay.tiles.renderedEnd
      rw [length]
      exact lay.tiles
    · exact lay.order
    · intro run inside
      cases interpolable : run.interpolable with
      | true =>
        refine ⟨_, lay.exact run inside interpolable, ?_⟩
        intro _
        have high := lay.tiles.mem_le inside
        unfold cut
        rw [List.length_take, List.length_drop]
        omega
      | false =>
        have within := ends run.source (List.mem_map_of_mem inside)
        have sliced : (slice? source run.source).isSome :=
          slice?_isSome_iff.mpr ⟨lay.order.mem_ordered inside, within⟩
        rcases Option.isSome_iff_exists.mp sliced with ⟨text, sliced⟩
        refine ⟨text, sliced, ?_⟩
        intro wrong
        cases wrong
  | container kind own' children =>
    constructor
    · rfl
    · have ordered := laid.1
      rw [Option.some.inj own] at ordered
      exact ordered
    · exact List.forall_mem_nil _

/-- The map of a Note is linked. -/
theorem parseNote_linked :
    (parseNote source containing_dir stream.events).spans.Linked source := by
  rw [parseNote_eq]
  apply SpanMapBuilder.finish_is_linked _ (registerAll_nodup _ [] 0)
  intro block member
  exact registered_runs stream containing_dir member

end Burlmd.Markdown
