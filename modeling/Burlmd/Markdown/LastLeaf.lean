import Burlmd.Markdown.Caret

/-!
# The last leaf of a Block

A caret behind all of the text that a top-level Block renders is promoted to the last leaf of it.
-/

namespace Burlmd.Markdown

open Utf8
open Utf16 (utf16Len)

namespace SpanMap

/-- The last leaf of a top-level Block, in document order. -/
structure LastLeaf (spans : SpanMap) (top : Nat) (path : BlockPath) : Prop where
  leaf : ∃ block ∈ spans.blocks, block.isLeaf = true ∧ block.path = path
  below : [top] <+: path
  last : ∀ other ∈ spans.blocks, other.isLeaf = true → [top] <+: other.path →
    other.path = path ∨ Later other.path path

theorem LastLeaf.unique {spans : SpanMap} {top : Nat} {path path' : BlockPath}
    (first : spans.LastLeaf top path) (second : spans.LastLeaf top path') : path = path' := by
  rcases first.leaf with ⟨block, member, isLeaf, same⟩
  rcases second.leaf with ⟨block', member', isLeaf', same'⟩
  subst same
  subst same'
  rcases first.last block' member' isLeaf' second.below with equal | behind
  · exact equal.symm
  · rcases second.last block member isLeaf first.below with equal | ahead
    · exact equal
    · exact absurd ahead behind.asymm

variable {spans : SpanMap} {source : Text} {blocks : List Emitted} {block leaf_block : BlockSpan}
  {index rendered_offset second leaf leaf' within within' : Nat}

/-- One offset is in one leaf. -/
theorem Descends.unique (first : spans.Descends index rendered_offset leaf within)
    (other : spans.Descends index second leaf' within') (linked : spans.Linked source)
    (same : rendered_offset = second) : leaf = leaf' := by
  induction first generalizing second with
  | leaf here isLeaf _ =>
    cases other with
    | leaf _ _ _ => rfl
    | child here' below _ =>
      rw [here] at here'
      cases here'
      rw [isLeaf_eq_false below] at isLeaf
      cases isLeaf
  | @child index place child offset leaf within block here below descends ih =>
    cases other with
    | leaf here' isLeaf _ =>
      rw [here] at here'
      cases here'
      rw [isLeaf_eq_false below] at isLeaf
      cases isLeaf
    | @child _ place' child' offset' _ _ block' here' below' descends' =>
      rw [here] at here'
      cases here'
      have holds := descends.holds linked here below
      have holds' := descends'.holds linked here below'
      have ahead := holds.place_le holds' (Nat.le_of_eq same)
      have behind := holds'.place_le holds (Nat.le_of_eq same.symm)
      have places : place = place' := Nat.le_antisymm ahead behind
      subst places
      rw [below] at below'
      cases below'
      exact ih descends' (Nat.add_left_cancel same)

/-- A Block descends to every leaf below it. -/
theorem Registers.exists_descends (registers : spans.Registers blocks)
    (linked : spans.Linked source) (here : spans.blocks[index]? = some block)
    (leaf_here : spans.blocks[leaf]? = some leaf_block) (isLeaf : leaf_block.isLeaf = true)
    (below : block.path <+: leaf_block.path) :
    ∃ offset, spans.Descends index offset leaf 0 := by
  -- What an entry below the Block descends to, the Block does: by induction on the way to it.
  have through (rest : BlockPath) : ∀ (middle : Nat) (entry : BlockSpan) (offset : Nat),
      spans.blocks[middle]? = some entry → entry.path = block.path ++ rest →
      spans.Descends middle offset leaf 0 → ∃ offset, spans.Descends index offset leaf 0 := by
    induction rest using List.reverseRecOn with
    | nil =>
      intro middle entry offset at_ path descends
      rw [List.append_nil] at path
      have same := (byPath_eq_some_iff linked.distinct).mpr ⟨entry, at_, path⟩
      rw [(byPath_eq_some_iff linked.distinct).mpr ⟨block, here, rfl⟩] at same
      cases same
      exact ⟨offset, descends⟩
    | append_singleton rest k ih =>
      intro middle entry offset at_ path descends
      rw [← List.append_assoc] at path
      have rooted : block.path ++ rest ≠ [] :=
        List.append_ne_nil_of_left_ne_nil (registers.rooted (List.mem_of_getElem? here)) _
      rcases registers.emitted entry (List.mem_of_getElem? at_) with ⟨emitted, found, -, -⟩
      rw [path] at found
      rcases (lookup_snoc rooted).mp found with ⟨parent, parent_found, held⟩
      have registered : parent.source?.isSome := by
        cases parent with
        | leaf node range runs => cases held
        | container kind range children => rfl
      rcases registers.entry _ parent parent_found registered with ⟨above, member, isAbove⟩
      rcases List.getElem?_of_mem member with ⟨outer, outer_here⟩
      rw [← isAbove] at path rooted
      rcases List.getElem?_of_mem (linked.reaches above member rooted middle k entry at_ path) with
        ⟨place, child_here⟩
      exact ih outer above _ outer_here isAbove (.child outer_here child_here descends)
  rcases below with ⟨rest, whole⟩
  exact through rest leaf leaf_block 0 leaf_here whole.symm (.leaf leaf_here isLeaf (Nat.zero_le _))

/-- The last offset of a Block is in a leaf that no other one comes behind. -/
theorem Descends.last (descends : spans.Descends index block.rendered_len leaf within)
    (registers : spans.Registers blocks) (linked : spans.Linked source)
    (here : spans.blocks[index]? = some block) (leaf_here : spans.blocks[leaf]? = some leaf_block)
    {other : BlockSpan} (member : other ∈ spans.blocks) (isLeaf : other.isLeaf = true)
    (below : block.path <+: other.path) :
    other.path = leaf_block.path ∨ Later other.path leaf_block.path := by
  rcases List.getElem?_of_mem member with ⟨position, other_here⟩
  rcases registers.exists_descends linked here other_here isLeaf below with ⟨offset, reached⟩
  rcases Nat.eq_or_lt_of_le (reached.high linked here) with same | earlier
  · have equal := reached.unique descends linked same
    subst equal
    rw [other_here] at leaf_here
    cases leaf_here
    exact Or.inl rfl
  · rcases reached.order descends linked earlier with ⟨equal, -⟩ | parts
    · subst equal
      rw [other_here] at leaf_here
      cases leaf_here
      exact Or.inl rfl
    · exact Or.inr (parts.later linked other_here leaf_here)

/-- The place of the end of a text that the map measures. -/
theorem Registers.exists_endCaret (registers : spans.Registers blocks)
    (linked : spans.Linked source) (placed : spans.Placed source)
    (here : spans.blocks[index]? = some block) {top : Nat} (isTop : block.path = [top])
    {rendered : Text} (length : rendered.length = block.rendered_len) :
    ∃ path caret, spans.LastLeaf top path ∧
      spans.resolveUtf16Caret source [top] rendered (utf16Len rendered) = some (path, caret) := by
  rcases linked.exists_caret placed here isTop length (List.append_nil rendered).symm with
    ⟨path, caret, at_, found⟩
  refine ⟨path, caret, ?_, found⟩
  rw [length] at at_
  cases at_ with
  | @intro leaf within leaf_block resolution head tail descends leaf_here resolved sliced start =>
    constructor
    · exact ⟨leaf_block, List.mem_of_getElem? leaf_here, descends.isLeaf leaf_here, rfl⟩
    · rw [← isTop]
      exact descends.path_prefix linked here leaf_here
    · intro other member isLeaf below
      rw [← isTop] at below
      exact descends.last registers linked here leaf_here member isLeaf below

end SpanMap

/-! ## The parsed note -/

variable {source : Text} (stream : EventStream source) (containing_dir : Text)

/-- A caret behind the text of a top-level node has a place exactly when every node from there down
has an entry in the map, and the place is in the last leaf of the Block. -/
theorem exists_endCaret_iff {top : Nat} {node : AstNode} {path : BlockPath}
    (at_ : (parseNote source containing_dir stream.events).ast[top]? = some node) :
    (∃ caret, (parseNote source containing_dir stream.events).spans.resolveUtf16Caret source [top]
        (renderedText node) (utf16Len (renderedText node)) = some (path, caret)) ↔
      (∀ path, (nodeAt (parseNote source containing_dir stream.events).ast (top :: path)).isSome →
        ((parseNote source containing_dir stream.events).spans.block (top :: path)).isSome) ∧
      (parseNote source containing_dir stream.events).spans.LastLeaf top path := by
  have registers := parseNote_registers stream containing_dir
  have linked := parseNote_linked stream containing_dir
  have placed : (parseNote source containing_dir stream.events).spans.Placed source :=
    fun block member => parseNote_sliceable stream containing_dir member
  have ast : (parseNote source containing_dir stream.events).ast =
      nodesOf (stream.emitted containing_dir).blocks := by
    rw [parseNote_eq]
  rw [ast] at at_ ⊢
  rw [nodesOf_getElem?] at at_
  rcases Option.map_eq_some_iff.mp at_ with ⟨emitted, here, same⟩
  subst same
  have known_iff := parseNote_known_iff stream containing_dir here
  rw [ast, ← block_measured_iff stream containing_dir here] at known_iff
  rw [known_iff]
  constructor
  · rintro ⟨caret, resolved⟩
    have measured : ∃ (index : Nat) (entry : BlockSpan),
        (parseNote source containing_dir stream.events).spans.blocks[index]? = some entry ∧
        entry.path = [top] ∧ emitted.text.length = entry.rendered_len := by
      apply Classical.byContradiction
      intro unmeasured
      have none_ : (parseNote source containing_dir stream.events).spans.resolveUtf16Caret source
          [top] (renderedText emitted.node) (utf16Len (renderedText emitted.node)) = none := by
        apply SpanMap.resolveUtf16Caret_eq_none
        intro index block by_path at_block length
        rcases (byPath_eq_some_iff linked.distinct).mp by_path with ⟨same_block, same_at, isTop⟩
        rw [at_block] at same_at
        cases same_at
        exact unmeasured ⟨index, block, at_block, isTop, length⟩
      rw [resolved] at none_
      cases none_
    refine ⟨measured, ?_⟩
    rcases measured with ⟨index, entry, at_entry, isTop, length⟩
    rcases registers.exists_endCaret linked placed at_entry isTop length with
      ⟨path', caret', last, found⟩
    rw [Emitted.text, resolved] at found
    cases found
    exact last
  · rintro ⟨⟨index, entry, at_entry, isTop, length⟩, last⟩
    rcases registers.exists_endCaret linked placed at_entry isTop length with
      ⟨path', caret', last', found⟩
    rw [last.unique last']
    exact ⟨caret', found⟩

end Burlmd.Markdown
