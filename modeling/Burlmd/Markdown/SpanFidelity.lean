import Mathlib.Data.List.Basic
import Mathlib.Tactic.Common
import Burlmd.Markdown.Measure

/-!
# The span map and the tree count the same text

The map derives its tree from the registered paths alone, so it agrees with the
tree of the note exactly when every block below a registered one is registered.
-/

namespace Burlmd.Markdown

open Utf8

/-! ## The map and the tree -/

@[simp] theorem nodesOf_getElem? (blocks : List Emitted) (index : Nat) :
    (nodesOf blocks)[index]? = blocks[index]?.map Emitted.node := by
  induction blocks generalizing index with
  | nil => simp [nodesOf]
  | cons block rest ih => cases index <;> simp [nodesOf, ih]

theorem length_joinLines (lines : List Text) :
    (joinLines lines).length = (lines.map List.length).sum + lines.length - 1 := by
  induction lines with
  | nil => simp [joinLines]
  | cons line rest ih =>
    cases rest with
    | nil => simp [joinLines]
    | cons next rest =>
      simp only [joinLines, List.intercalate_cons_cons, List.length_append, List.length_cons,
        List.length_nil, List.map_cons, List.sum_cons] at ih ⊢
      omega

namespace Emitted

theorem Laid.children {source : Text} {block : Emitted} (laid : block.Laid source) :
    ∀ child ∈ block.children, child.Laid source := by
  cases block with
  | leaf => simp [Emitted.children]
  | container kind range children => exact laidAll_iff.mp laid.2

theorem Laid.kids {source : Text} {block : Emitted} (laid : block.Laid source) :
    block.node.kids = nodesOf block.children := by
  cases block with
  | leaf node range runs => simpa [Emitted.node, Emitted.children, nodesOf] using laid.1
  | container kind range children => cases kind <;> rfl

theorem Sealed.children {block : Emitted} (sealed_ : block.Sealed) :
    ∀ child ∈ block.children, child.source?.isSome ∧ child.Sealed := by
  cases block with
  | leaf => simp [Emitted.children]
  | container kind range children => exact sealedAll_iff.mp sealed_

theorem renderedText_node {source : Text} {block : Emitted} (laid : block.Laid source)
    (inner : block.children ≠ []) :
    (renderedText block.node).length =
      (block.children.map fun child => (renderedText child.node).length).sum +
        block.children.length - 1 := by
  have lines (blocks : List Emitted) :
      renderedTexts (nodesOf blocks) = blocks.map fun child => renderedText child.node := by
    induction blocks with
    | nil => simp [nodesOf, renderedTexts]
    | cons block rest ih => simp [nodesOf, renderedTexts, ih]
  cases block with
  | leaf => simp [Emitted.children] at inner
  | container kind range children =>
    have joined : renderedText (Emitted.container kind range children).node =
        joinLines (children.map fun child => renderedText child.node) := by
      cases kind <;> simp [Emitted.node, ContainerKind.node, renderedText, lines]
    rw [joined, length_joinLines, List.map_map, List.length_map]
    rfl

end Emitted

/-- The rendered length of the node at a path. -/
def lengthAt (blocks : List Emitted) (path : BlockPath) : Nat :=
  ((lookup blocks path).map fun block => (renderedText block.node).length).getD 0

theorem lookup_laid {source : Text} {blocks : List Emitted}
    (laid : ∀ block ∈ blocks, block.Laid source) {path : BlockPath} {block : Emitted}
    (found : lookup blocks path = some block) : block.Laid source :=
  lookup_induction laid (fun _ laid => laid.children) found

theorem nodeAt_lookup {source : Text} {blocks : List Emitted}
    (laid : ∀ block ∈ blocks, block.Laid source) (path : BlockPath) :
    nodeAt (nodesOf blocks) path = (lookup blocks path).map Emitted.node := by
  induction path generalizing blocks with
  | nil => rfl
  | cons index rest ih =>
    cases rest with
    | nil => simp [nodeAt, lookup]
    | cons next rest =>
      rw [nodeAt, lookup_cons_cons, nodesOf_getElem?]
      cases at_ : blocks[index]? with
      | none => rfl
      | some block =>
        have here := laid block (List.mem_of_getElem? at_)
        simp only [Option.map_some, Option.bind_some, here.kids]
        exact ih here.children

/-! ## From registered children to sealed blocks -/

theorem Emitted.sealed_of : ∀ (block : Emitted),
    (∀ child ∈ block.children, child.source?.isSome) →
    (∀ path inner, lookup block.children path = some inner → inner.source?.isSome →
      ∀ child ∈ inner.children, child.source?.isSome) → block.Sealed
  | .leaf _ _ _, _, _ => trivial
  | .container kind range children, own, below => by
    refine sealedAll_iff.mpr fun child member => ⟨own child member, ?_⟩
    have smaller := List.sizeOf_lt_of_mem member
    obtain ⟨index, at_⟩ := List.getElem?_of_mem member
    refine sealed_of child (below [index] child at_ (own child member))
      fun path inner found => ?_
    refine below (index :: path) inner (lookup_cons_some.mpr ⟨child, at_, .inr ⟨?_, found⟩⟩)
    rintro rfl
    simp [lookup] at found
termination_by block => sizeOf block

section Described

open SpanMapBuilder

variable {source : Text} {blocks : List Emitted} (frontmatter : Option Range)

/-- The finished map of the emitted blocks. -/
abbrev finished (blocks : List Emitted) (frontmatter : Option Range) : List BlockSpan :=
  (SpanMapBuilder.finish ⟨registerAll [] 0 blocks, frontmatter⟩).blocks

variable (blocks) in
theorem finished_shape (index : Nat) :
    (finished blocks frontmatter)[index]?.map (fun block => { block with rendered_len := 0 }) =
      (registerAll [] 0 blocks)[index]?.map fun block =>
        { block with rendered_len := 0, children := childrenOf (registerAll [] 0 blocks) index } := by
  rw [finished, finish_blocks, foldl_measure_shape, linked_getElem?, Option.map_map]
  rfl

theorem pathAt_finished (index : Nat) :
    pathAt (finished blocks frontmatter) index = pathAt (registerAll [] 0 blocks) index := by
  have shape := congrArg (Option.map BlockSpan.path) (finished_shape blocks frontmatter index)
  simp only [Option.map_map] at shape
  exact congrArg (Option.getD · []) shape

/-- A registered block whose children are all registered is linked to exactly these. -/
theorem childrenOf_sealed {index : Nat} {entry : BlockSpan} {block : Emitted}
    (at_ : (registerAll [] 0 blocks)[index]? = some entry)
    (found : lookup blocks entry.path = some block)
    (children : ∀ child ∈ block.children, child.source?.isSome) :
    (childrenOf (registerAll [] 0 blocks) index).map (pathAt (registerAll [] 0 blocks)) =
      (List.range block.children.length).map fun k => entry.path ++ [k] := by
  have rooted : entry.path ≠ [] := by
    intro empty
    simp [empty, lookup] at found
  refine childrenOf_paths (registerAll_nodup blocks [] 0) at_ rooted fun k => ?_
  rw [mem_paths]
  constructor
  · rintro ⟨child, here, -⟩
    obtain ⟨parent, same, held⟩ := (lookup_snoc rooted).mp here
    obtain rfl : block = parent := by simpa [found] using same
    exact (List.getElem?_eq_some_iff.mp held).1
  · intro lt
    have held := List.getElem?_eq_getElem lt
    exact ⟨_, (lookup_snoc rooted).mpr ⟨block, found, held⟩,
      children _ (List.getElem_mem lt)⟩

/-- The entries of the finished map, when every block below a registered one is registered. -/
theorem finished_getElem? (laid : ∀ block ∈ blocks, block.Laid source)
    (good : ∀ block ∈ blocks, block.Sealed) (index : Nat) :
    (finished blocks frontmatter)[index]? = (registerAll [] 0 blocks)[index]?.map fun block =>
      { block with
        children := childrenOf (registerAll [] 0 blocks) index
        rendered_len := lengthAt blocks (pathAt (registerAll [] 0 blocks) index) } := by
  have registered {index : Nat} {entry : BlockSpan}
      (at_ : (registerAll [] 0 blocks)[index]? = some entry) :
      ∃ block range, lookup blocks entry.path = some block ∧ block.source? = some range ∧
        entry = block.entry entry.path range ∧ block.Laid source ∧ block.Sealed ∧
        (childrenOf (registerAll [] 0 blocks) index).map (pathAt (registerAll [] 0 blocks)) =
          (List.range block.children.length).map fun k => entry.path ++ [k] := by
    obtain ⟨path, block, range, found, ranged, rfl⟩ := mem_registered.mp (List.mem_of_getElem? at_)
    have below : block.Sealed := lookup_induction good
      (fun _ sealed_ child member => (sealed_.children child member).2) found
    exact ⟨block, range, found, ranged, rfl, lookup_laid laid found, below,
      childrenOf_sealed at_ found fun child member => (below.children child member).1⟩
  refine finish_getElem?
    (registerAll_nodup blocks [] 0)
    (fun index => lengthAt blocks (pathAt (registerAll [] 0 blocks) index)) ?_ ?_ index
  · intro index entry at_ leaf
    obtain ⟨block, range, found, ranged, entered, here, -, children⟩ := registered at_
    have none_ : block.children = [] := by
      rw [leaf, List.map_nil, eq_comm, List.map_eq_nil_iff, List.range_eq_nil] at children
      exact List.length_eq_zero_iff.mp children
    have length : entry.rendered_len = renderedEnd block.runs := by rw [entered]; rfl
    rw [length, pathAt, at_, Option.map_some, Option.getD_some, lengthAt, found, Option.map_some,
      Option.getD_some]
    cases block with
    | leaf node source runs => exact (here.2 range ranged).tiles.renderedEnd
    | container kind source inner =>
      obtain rfl : inner = [] := none_
      cases kind <;> rfl
  · intro index joined
    obtain ⟨entry, at_⟩ : ∃ entry, (registerAll [] 0 blocks)[index]? = some entry := by
      obtain ⟨child, member⟩ := List.exists_mem_of_ne_nil _ joined
      obtain ⟨-, parent, -, found, -⟩ :=
        (mem_childrenOf (registerAll_nodup blocks [] 0)).mp member
      exact ⟨parent, found⟩
    obtain ⟨block, range, found, -, -, here, -, children⟩ := registered at_
    have rooted : entry.path ≠ [] := by
      intro empty
      simp [empty, lookup] at found
    have count : (childrenOf (registerAll [] 0 blocks) index).length = block.children.length := by
      simpa using congrArg List.length children
    have inner : block.children ≠ [] := by
      intro none_
      rw [none_, List.length_nil, List.length_eq_zero_iff] at count
      exact joined count
    have lengths : ((List.range block.children.length).map fun k => entry.path ++ [k]).map
        (lengthAt blocks) = block.children.map fun child => (renderedText child.node).length := by
      refine List.ext_getElem (by simp) fun k left right => ?_
      simp only [List.length_map] at right
      have held := (lookup_snoc rooted).mpr ⟨block, found, List.getElem?_eq_getElem right⟩
      simp [lengthAt, held]
    have target := Emitted.renderedText_node here inner
    rw [← lengths, ← children, List.map_map, ← count] at target
    rw [pathAt, at_, Option.map_some, Option.getD_some, lengthAt, found, Option.map_some,
      Option.getD_some, target]
    rfl

/-- The map measures the tree when every block below a registered one is registered. -/
theorem measured_of_sealed (laid : ∀ block ∈ blocks, block.Laid source)
    (good : ∀ block ∈ blocks, block.Sealed) :
    ParsedNote.Measured source
      ⟨nodesOf blocks, SpanMapBuilder.finish ⟨registerAll [] 0 blocks, frontmatter⟩⟩ := by
  intro entry member
  obtain ⟨index, at_⟩ := List.getElem?_of_mem member
  rw [finished_getElem? frontmatter laid good, Option.map_eq_some_iff] at at_
  obtain ⟨started, at_, rfl⟩ := at_
  obtain ⟨path, block, range, found, ranged, rfl⟩ := mem_registered.mp (List.mem_of_getElem? at_)
  have here := lookup_laid laid found
  have below : block.Sealed := lookup_induction good
    (fun _ sealed_ child member => (sealed_.children child member).2) found
  have children := childrenOf_sealed at_ found fun child member => (below.children child member).1
  refine ⟨block.node, by simp [nodeAt_lookup laid, Emitted.entry, found], ?_, ?_, ?_⟩
  · simp [pathAt, at_, Emitted.entry, lengthAt, found]
  · intro leaf
    have none_ : childrenOf (registerAll [] 0 blocks) index = [] := List.isEmpty_iff.mp leaf
    rw [none_, List.map_nil, eq_comm, List.map_eq_nil_iff, List.range_eq_nil] at children
    cases block with
    | leaf node source runs => exact here.2 range ranged
    | container kind source inner =>
      obtain rfl : inner = [] := List.length_eq_zero_iff.mp children
      obtain rfl : source = range := by simpa using ranged
      have text : renderedText (Emitted.container kind source []).node = [] := by
        cases kind <;> rfl
      rw [text]
      exact ⟨rfl, here.1, by simp [Exact, Emitted.entry, Emitted.runs]⟩
  · have paths : pathAt (finished blocks frontmatter) = pathAt (registerAll [] 0 blocks) :=
      funext (pathAt_finished frontmatter)
    simp only [here.kids, nodesOf_length]
    rw [paths]
    exact children

/-- Where the map measures the tree, every child of a registered block is registered. -/
theorem sealed_of_measured (laid : ∀ block ∈ blocks, block.Laid source)
    (measured : ParsedNote.Measured source
      ⟨nodesOf blocks, SpanMapBuilder.finish ⟨registerAll [] 0 blocks, frontmatter⟩⟩) :
    ∀ block ∈ blocks, block.Sealed := by
  have children {path : BlockPath} {block : Emitted} (found : lookup blocks path = some block)
      (registered : block.source?.isSome) : ∀ child ∈ block.children, child.source?.isSome := by
    obtain ⟨range, ranged⟩ := Option.isSome_iff_exists.mp registered
    obtain ⟨index, at_⟩ := List.getElem?_of_mem
      (mem_registered.mpr ⟨path, block, range, found, ranged, rfl⟩)
    have rooted : path ≠ [] := by
      rintro rfl
      simp [lookup] at found
    have shape := finished_shape blocks frontmatter index
    rw [at_, Option.map_some, Option.map_eq_some_iff] at shape
    obtain ⟨entry, at_entry, same⟩ := shape
    obtain ⟨own_path, own_children⟩ : entry.path = path ∧
        entry.children = childrenOf (registerAll [] 0 blocks) index := by
      simpa [Emitted.entry] using And.intro (congrArg BlockSpan.path same)
        (congrArg BlockSpan.children same)
    obtain ⟨node, addressed, describes⟩ := measured entry (List.mem_of_getElem? at_entry)
    obtain rfl : block.node = node := by simpa [nodeAt_lookup laid, own_path, found] using addressed
    have linked := describes.children
    have paths : pathAt (finished blocks frontmatter) = pathAt (registerAll [] 0 blocks) :=
      funext (pathAt_finished frontmatter)
    rw [paths, own_children, own_path, (lookup_laid laid found).kids, nodesOf_length] at linked
    intro child member
    obtain ⟨k, held⟩ := List.getElem?_of_mem member
    have inside := (List.getElem?_eq_some_iff.mp held).1
    have known : path ++ [k] ∈ (childrenOf (registerAll [] 0 blocks) index).map
        (pathAt (registerAll [] 0 blocks)) := by
      rw [linked]
      exact List.mem_map.mpr ⟨k, List.mem_range.mpr inside, rfl⟩
    obtain ⟨position, linked_child, path_child⟩ := List.mem_map.mp known
    obtain ⟨inner, parent, at_inner, -⟩ :=
      (mem_childrenOf (registerAll_nodup blocks [] 0)).mp linked_child
    have mem : path ++ [k] ∈ (registerAll [] 0 blocks).map BlockSpan.path := by
      rw [← path_child, pathAt, at_inner]
      exact List.mem_map.mpr ⟨inner, List.mem_of_getElem? at_inner, rfl⟩
    obtain ⟨held', here, sourced⟩ := mem_paths.mp mem
    obtain ⟨parent', same_parent, held_child⟩ := (lookup_snoc rooted).mp here
    obtain rfl : block = parent' := by simpa [found] using same_parent
    obtain rfl : child = held' := by simpa [held] using held_child
    exact sourced
  intro block member
  obtain ⟨index, at_⟩ := List.getElem?_of_mem member
  have top : lookup blocks [index] = some block := at_
  cases block with
  | leaf => trivial
  | container kind range inner =>
    refine Emitted.sealed_of _ (children top rfl) fun path below found => ?_
    refine children
      (lookup_cons_some.mpr ⟨_, at_, .inr ⟨?_, found⟩⟩)
    rintro rfl
    simp [lookup] at found

end Described

/-! ## The parsed note -/

theorem EventStream.emitted_laid {source : Text} (stream : EventStream source)
    (containing_dir : Text) :
    (stream.emitted containing_dir).Laid source 0 (byteLen source) :=
  stream.forest.emit_laid containing_dir (.inl rfl) stream.conforms stream.placed
    ⟨Pending.Laid.empty (le_refl 0), by simp [Flow.initial]⟩

/-- The span map of a note measures its tree if and only if no heading inside a quote
or an item holds an image and shows no text of its own. -/
theorem parseNote_measured_iff {source : Text} (stream : EventStream source)
    (containing_dir : Text) :
    (parseNote source containing_dir stream.events).Measured source ↔
      stream.forest.headingsShow false = true := by
  have laid := stream.emitted_laid containing_dir
  have start : Flow.initial.Laid source 0 0 :=
    ⟨Pending.Laid.empty (le_refl 0), by simp [Flow.initial]⟩
  have good := stream.forest.emit_good_iff containing_dir (.inl rfl) stream.conforms stream.placed
    start false
  have sealed_iff : (∀ block ∈ (stream.emitted containing_dir).blocks, block.Sealed) ↔
      stream.forest.headingsShow false = true := by
    refine Iff.trans ?_ (good.trans (and_iff_right (by simp [Flow.Good, Flow.initial])))
    simp [Flow.Good, Emitted.Good, EventStream.emitted]
  rw [parseNote_eq, ← sealed_iff]
  exact ⟨sealed_of_measured _ laid.blocks, measured_of_sealed _ laid.blocks⟩

/-- `> # ![a](x.png)`, where a quoted heading holds an image and no text. -/
def imageInQuotedHeading : EventStream "> # ![a](x.png)".toList where
  forest :=
    .node .blockQuote ⟨0, 15⟩
      (.node (.heading 1) ⟨2, 15⟩
        (.node (.image "x.png".toList) ⟨4, 15⟩
          (.leaf (.text "a".toList) ⟨6, 7⟩ .nil) .nil)
        .nil)
      .nil
  conforms := by decide
  placed := by decide

/-- The quote renders two characters and a line break, and the map counts one. -/
theorem imageInQuotedHeading_not_measured :
    ¬ (parseNote "> # ![a](x.png)".toList [] imageInQuotedHeading.events).Measured
      "> # ![a](x.png)".toList := by
  intro measured
  obtain ⟨node, addressed, describes⟩ := measured ⟨[0], ⟨0, 15⟩, [], 1, [0]⟩ (by decide)
  have quote : nodeAt (parseNote "> # ![a](x.png)".toList [] imageInQuotedHeading.events).ast [0] =
      some (.blockquote [.heading 1 [], .image "a".toList "x.png".toList]) := rfl
  rw [quote] at addressed
  obtain rfl := Option.some.inj addressed
  exact absurd describes.rendered_len (by decide)

end Burlmd.Markdown
