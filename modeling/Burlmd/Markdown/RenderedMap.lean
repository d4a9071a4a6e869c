import Burlmd.Markdown.Attended
import Burlmd.Markdown.LinkedTree

/-!
# The rendered text of the map

The map counts the text of what it registers. That is the text of the tree exactly where every node
is registered, and there a leaf renders the characters that its Block does.
-/

namespace Burlmd.Markdown

open Utf8

/-! ## Sums and lines -/

/-- A sum over some elements of a list is that over all, where it is no less, exactly for the whole
list. -/
theorem sum_map_sublist {some_ whole : List Nat} (sub : some_.Sublist whole) {g f : Nat → Nat}
    (le : ∀ k ∈ some_, g k ≤ f k) (positive : ∀ k ∈ whole, 0 < f k) :
    (some_.map g).sum ≤ (whole.map f).sum ∧
      ((some_.map g).sum = (whole.map f).sum → some_ = whole ∧ ∀ k ∈ some_, g k = f k) := by
  induction sub with
  | slnil => exact ⟨Nat.le_refl _, fun _ => ⟨rfl, List.forall_mem_nil _⟩⟩
  | @cons some_ whole k sub ih =>
    rw [List.forall_mem_cons] at positive
    have less := (ih le positive.2).1
    have more := positive.1
    rw [List.map_cons, List.sum_cons]
    constructor
    · omega
    · intro same
      omega
  | @cons_cons some_ whole k sub ih =>
    rw [List.forall_mem_cons] at le positive
    rcases ih le.2 positive.2 with ⟨less, same⟩
    rw [List.map_cons, List.map_cons, List.sum_cons, List.sum_cons]
    have first := le.1
    constructor
    · omega
    · intro equal
      have rest := same (by omega)
      refine ⟨congrArg _ rest.1, ?_⟩
      rw [List.forall_mem_cons]
      exact ⟨by omega, rest.2⟩

/-- A character of a line, among the lines joined. -/
theorem joinLines_getElem? {lines : List Text} {place offset : Nat} {own : Text}
    (here : lines[place]? = some own) (inside : offset < own.length) :
    (joinLines lines)[((lines.take place).map fun line => line.length + 1).sum + offset]? =
      own[offset]? := by
  induction lines generalizing place with
  | nil => cases here
  | cons first rest ih =>
    cases rest with
    | nil =>
      cases place with
      | zero =>
        rw [List.getElem?_cons_zero] at here
        cases here
        simp [joinLines]
      | succ place =>
        rw [List.getElem?_cons_succ] at here
        cases here
    | cons next rest =>
      have joined : joinLines (first :: next :: rest) =
          first ++ '\n' :: joinLines (next :: rest) := by
        simp [joinLines]
      rw [joined]
      cases place with
      | zero =>
        rw [List.getElem?_cons_zero] at here
        cases here
        rw [List.take_zero, List.map_nil, List.sum_nil, Nat.zero_add]
        exact List.getElem?_append_left inside
      | succ place =>
        rw [List.getElem?_cons_succ] at here
        rw [List.take_succ_cons, List.map_cons, List.sum_cons,
          List.getElem?_append_right (by omega)]
        have behind : first.length + 1 +
            (((next :: rest).take place).map fun line => line.length + 1).sum + offset -
              first.length =
            (((next :: rest).take place).map fun line => line.length + 1).sum + offset + 1 := by
          omega
        rw [behind, List.getElem?_cons_succ]
        exact ih here

/-! ## The map and the blocks -/

/-- The map has an entry for every block with a range, and for nothing else. -/
structure SpanMap.Registers (spans : SpanMap) (blocks : List Emitted) : Prop where
  emitted : ∀ entry ∈ spans.blocks, ∃ block, lookup blocks entry.path = some block ∧
    block.source? = some entry.source ∧ entry.runs = block.runs
  entry : ∀ path block, lookup blocks path = some block → block.source?.isSome →
    ∃ entry ∈ spans.blocks, entry.path = path

namespace Emitted

/-- The text that a block renders. -/
def text (block : Emitted) : Text := renderedText block.node

theorem text_container (kind : ContainerKind) (range : Range) (children : List Emitted) :
    (container kind range children).text = joinLines (children.map text) := by
  have lines (blocks : List Emitted) : renderedTexts (nodesOf blocks) = blocks.map text := by
    induction blocks with
    | nil => simp [nodesOf, renderedTexts]
    | cons block rest ih => simp [nodesOf, renderedTexts, ih, text]
  unfold text
  cases kind with
  | blockquote | list ordered | listItem checked =>
    simp only [node, ContainerKind.node, renderedText, lines]
    rfl

/-- The length of the text of a child, with the line break behind it. -/
def lengthAfter (children : List Emitted) (place : Nat) : Nat :=
  (children[place]?.map fun child => child.text.length).getD 0 + 1

theorem sum_lengthAfter (children : List Emitted) (count : Nat) :
    ((List.range count).map (lengthAfter children)).sum =
      ((children.take count).map fun child => child.text.length + 1).sum +
        (count - children.length) := by
  induction count with
  | zero => simp
  | succ count ih =>
    rw [List.range_succ, List.map_append, List.sum_append, ih, List.map_singleton,
      List.sum_singleton]
    unfold lengthAfter
    rcases Nat.lt_or_ge count children.length with inside | outside
    · rw [List.getElem?_eq_getElem inside, List.take_succ_eq_append_getElem inside,
        List.map_append, List.sum_append, List.map_singleton, List.sum_singleton, Option.map_some,
        Option.getD_some]
      omega
    · rw [List.getElem?_eq_none outside, List.take_of_length_le outside,
        List.take_of_length_le (Nat.le_succ_of_le outside), Option.map_none, Option.getD_none]
      omega

theorem length_text_container (kind : ContainerKind) (range : Range) (children : List Emitted) :
    (container kind range children).text.length =
      ((List.range children.length).map (lengthAfter children)).sum - 1 := by
  rw [text_container, length_joinLines, sum_lengthAfter, List.take_length, Nat.sub_self,
    Nat.add_zero, List.map_map, List.length_map]
  have each (blocks : List Emitted) :
      (blocks.map fun child => child.text.length + 1).sum =
        (blocks.map (List.length ∘ text)).sum + blocks.length := by
    induction blocks with
    | nil => rfl
    | cons block rest ih =>
      rw [List.map_cons, List.sum_cons, ih, List.map_cons, List.sum_cons, List.length_cons]
      dsimp only [Function.comp]
      omega
  rw [each]

end Emitted

namespace SpanMap

variable {spans : SpanMap} {source : Text} {blocks : List Emitted} {entry : BlockSpan}
  {block : Emitted}

theorem Registers.rooted (registers : spans.Registers blocks) (member : entry ∈ spans.blocks) :
    entry.path ≠ [] := by
  intro empty
  rcases registers.emitted entry member with ⟨block, found, -⟩
  rw [empty] at found
  cases found

/-- The entry at an index and the block that it was made of. -/
structure Entry (spans : SpanMap) (blocks : List Emitted) (index : Nat) (entry : BlockSpan)
    (block : Emitted) : Prop where
  here : spans.blocks[index]? = some entry
  found : lookup blocks entry.path = some block

/-- The entries of the children of a block stand at the places of the children with a range. -/
theorem Registers.children (registers : spans.Registers blocks) (linked : spans.Linked source)
    {index : Nat} (own : spans.Entry blocks index entry block) :
    ∃ components : List Nat, components.Pairwise (· < ·) ∧
      (∀ k, k ∈ components ↔ ∃ child, block.children[k]? = some child ∧ child.source?.isSome) ∧
      List.Forall₂ (fun child component => ∃ below inner,
        spans.Entry blocks child below inner ∧ below.path = entry.path ++ [component] ∧
          block.children[component]? = some inner) entry.children components := by
  have member := List.mem_of_getElem? own.here
  have rooted := registers.rooted member
  rcases linked.children entry member with ⟨components, sorted, each⟩
  have inner (child component : Nat) (below : BlockSpan) (at_ : spans.blocks[child]? = some below)
      (path : below.path = entry.path ++ [component]) :
      ∃ inner, spans.Entry blocks child below inner ∧ block.children[component]? = some inner ∧
        inner.source?.isSome := by
    rcases registers.emitted below (List.mem_of_getElem? at_) with ⟨inner, found, source_, -⟩
    have found' := found
    rw [path] at found'
    rcases (lookup_snoc rooted).mp found' with ⟨parent, here, held⟩
    rw [own.found] at here
    cases here
    exact ⟨inner, ⟨at_, found⟩, held, Option.isSome_of_eq_some source_⟩
  refine ⟨components, sorted, ?_, ?_⟩
  · intro k
    constructor
    · intro inside
      rcases List.getElem?_of_mem inside with ⟨place, here⟩
      rcases forall₂_getElem? each.flip here with ⟨position, -, below, at_, path⟩
      rcases inner position k below at_ path with ⟨child, -, held, registered⟩
      exact ⟨child, held, registered⟩
    · rintro ⟨child, held, registered⟩
      have found := (lookup_snoc rooted).mpr ⟨block, own.found, held⟩
      rcases registers.entry _ child found registered with ⟨below, below_member, path⟩
      rcases List.getElem?_of_mem below_member with ⟨position, at_⟩
      have linked_child := linked.reaches entry member rooted position k below at_ path
      rcases List.getElem?_of_mem linked_child with ⟨place, here⟩
      rcases forall₂_getElem? each here with ⟨component, component_at, below', at_', path'⟩
      rw [at_] at at_'
      cases at_'
      rw [path] at path'
      have same := (List.cons.inj (List.append_cancel_left path')).1
      rw [same]
      exact List.mem_of_getElem? component_at
  · apply each.imp
    intro position component related
    rcases related with ⟨below, at_, path⟩
    rcases inner position component below at_ path with ⟨child, entry_, held, -⟩
    exact ⟨below, child, entry_, path, held⟩

theorem block_eq (linked : spans.Linked source) {index : Nat}
    (here : spans.blocks[index]? = some entry) : spans.block entry.path = some entry := by
  unfold SpanMap.block
  rw [(byPath_eq_some_iff linked.distinct).mpr ⟨entry, here, rfl⟩]
  exact here

/-- The paths of the map are those of the blocks with a range. -/
theorem Registers.block_isSome_iff (registers : spans.Registers blocks)
    (linked : spans.Linked source) {path : BlockPath} :
    (spans.block path).isSome ↔ ∃ block, lookup blocks path = some block ∧ block.source?.isSome := by
  constructor
  · intro known
    rcases Option.isSome_iff_exists.mp known with ⟨entry, isEntry⟩
    rcases Option.bind_eq_some_iff.mp isEntry with ⟨index, by_path, here⟩
    rcases (byPath_eq_some_iff linked.distinct).mp by_path with ⟨same, same_here, isPath⟩
    rw [here] at same_here
    cases same_here
    rcases registers.emitted entry (List.mem_of_getElem? here) with ⟨block, found, own, -⟩
    exact ⟨block, isPath ▸ found, Option.isSome_of_eq_some own⟩
  · rintro ⟨block, found, registered⟩
    rcases registers.entry path block found registered with ⟨entry, member, same⟩
    rcases List.getElem?_of_mem member with ⟨index, here⟩
    rw [← same, block_eq linked here]
    rfl

/-- The rendered length of the entry at a path, with the line break behind it. -/
def lengthAfter (spans : SpanMap) (path : BlockPath) : Nat :=
  ((spans.block path).map BlockSpan.rendered_len).getD 0 + 1

theorem lengthAfter_eq (linked : spans.Linked source) {index : Nat}
    (here : spans.blocks[index]? = some entry) :
    spans.lengthAfter entry.path = entry.rendered_len + 1 := by
  unfold lengthAfter
  rw [block_eq linked here]
  rfl

/-- The offsets that children take up, read off their paths. -/
theorem extent_eq (linked : spans.Linked source) {children components : List Nat}
    {path : BlockPath}
    (each : List.Forall₂ (fun child component => ∃ below, spans.blocks[child]? = some below ∧
      below.path = path ++ [component]) children components) :
    spans.extent children = (components.map fun k => spans.lengthAfter (path ++ [k])).sum := by
  induction each with
  | nil => rfl
  | cons related _ ih =>
    rcases related with ⟨below, at_, same⟩
    rw [extent_cons, ih, List.map_cons, List.sum_cons, ← same, lengthAfter_eq linked at_,
      lengthOf_eq at_]

/-- The children of a leaf of the tree are none. -/
theorem Registers.no_children (registers : spans.Registers blocks) (linked : spans.Linked source)
    {index : Nat} (own : spans.Entry blocks index entry block) (none_ : block.children = []) :
    entry.children = [] := by
  rcases registers.children linked own with ⟨components, -, members, each⟩
  cases components with
  | nil => exact List.forall₂_nil_right_iff.mp each
  | cons k rest =>
    rcases (members k).mp List.mem_cons_self with ⟨child, held, -⟩
    rw [none_] at held
    cases held

/-- The length of a container, whether or not the map knows a child of it. -/
theorem Registers.length_container (registers : spans.Registers blocks)
    (linked : spans.Linked source) {index : Nat} {kind : ContainerKind} {range : Range}
    {children : List Emitted}
    (own : spans.Entry blocks index entry (.container kind range children)) :
    entry.rendered_len = spans.extent entry.children - 1 := by
  have member := List.mem_of_getElem? own.here
  cases isLeaf : entry.isLeaf with
  | false => rw [linked.lengths entry member isLeaf, joinedLength_eq]
  | true =>
    rcases registers.emitted entry member with ⟨block, found, -, runs⟩
    rw [own.found] at found
    cases found
    have tiles := (linked.leaves entry member isLeaf).tiles
    have none_ : entry.runs = [] := runs
    rw [none_] at tiles
    have zero : 0 = entry.rendered_len := tiles
    rw [List.isEmpty_iff.mp isLeaf]
    exact zero.symm

/-- The map counts no more than the text of a block, and all of it exactly where everything below is
registered. -/
theorem Registers.length (registers : spans.Registers blocks) (linked : spans.Linked source)
    {index : Nat} (own : spans.Entry blocks index entry block) (attended : block.Attended)
    (laid : block.Laid source) :
    entry.rendered_len ≤ block.text.length ∧
      (entry.rendered_len = block.text.length ↔ block.Sealed) := by
  have member := List.mem_of_getElem? own.here
  induction attended generalizing index entry with
  | leaf node range runs =>
    rcases registers.emitted entry member with ⟨block, found, source_, same⟩
    rw [own.found] at found
    cases found
    have isLeaf := List.isEmpty_iff.mpr (registers.no_children linked own rfl)
    have tiles := (linked.leaves entry member isLeaf).tiles
    have tiles' := (laid.2 entry.source source_).tiles
    rw [same] at tiles
    have equal : entry.rendered_len = (Emitted.leaf node range runs).text.length :=
      tiles.renderedEnd.symm.trans tiles'.renderedEnd
    exact ⟨Nat.le_of_eq equal, fun _ => trivial, fun _ => equal⟩
  | @container kind range children attends each ih =>
    rcases registers.children linked own with ⟨components, sorted, members, related⟩
    have inner (child : Emitted) (held : child ∈ children) : child.Laid source :=
      laid.children child held
    have extent := extent_eq linked (related.imp fun _ _ related => by
      rcases related with ⟨below, _, entry_, path, -⟩
      exact ⟨below, entry_.here, path⟩)
    rw [registers.length_container linked own, extent, Emitted.length_text_container]
    -- Each registered child is counted as far as it is.
    have counted (k : Nat) (inside : k ∈ components) :
        ∃ child, children[k]? = some child ∧ child.source?.isSome ∧
          spans.lengthAfter (entry.path ++ [k]) ≤ Emitted.lengthAfter children k ∧
          (spans.lengthAfter (entry.path ++ [k]) = Emitted.lengthAfter children k ↔
            child.Sealed) := by
      rcases (members k).mp inside with ⟨child, held, registered⟩
      rcases List.getElem?_of_mem inside with ⟨place, here⟩
      rcases forall₂_getElem? related.flip here with ⟨position, -, below, inner', entry_, path, held'⟩
      rw [held] at held'
      cases held'
      have member' := List.mem_of_getElem? held
      rcases ih child member' entry_ (inner child member') (List.mem_of_getElem? entry_.here) with
        ⟨le, iff_⟩
      refine ⟨child, held, registered, ?_⟩
      rw [← path, lengthAfter_eq linked entry_.here]
      unfold Emitted.lengthAfter
      have held_ : children[k]? = some child := held
      rw [held_, Option.map_some, Option.getD_some]
      refine ⟨Nat.succ_le_succ le, ?_⟩
      rw [← iff_]
      exact Nat.succ_inj
    have inside_range : components ⊆ List.range children.length := by
      intro k inside
      rcases counted k inside with ⟨child, held, -⟩
      exact List.mem_range.mpr (List.getElem?_eq_some_iff.mp held).1
    have sub : components.Sublist (List.range children.length) :=
      List.sublist_of_subperm_of_pairwise (List.subperm_of_subset sorted.nodup inside_range) sorted
        List.pairwise_lt_range
    have sums := sum_map_sublist sub (fun k inside => (counted k inside).choose_spec.2.2.1)
      (fun k _ => Nat.succ_pos _)
    refine ⟨Nat.sub_le_sub_right sums.1 1, ?_⟩
    rw [Emitted.Sealed, Emitted.sealedAll_iff]
    constructor
    · intro equal child held
      -- A child that the map does not know has a sibling that it does.
      have some_ : components ≠ [] := by
        intro none_
        cases known : child.source? with
        | some _ =>
          rcases List.getElem?_of_mem held with ⟨k, at_⟩
          have inside := (members k).mpr ⟨child, at_, Option.isSome_of_eq_some known⟩
          rw [none_] at inside
          cases inside
        | none =>
          rcases attends child held known with ⟨other, held', registered⟩
          rcases List.getElem?_of_mem held' with ⟨k, at_⟩
          have inside := (members k).mpr ⟨other, at_, registered⟩
          rw [none_] at inside
          cases inside
      have positive : 0 < (components.map fun k => spans.lengthAfter (entry.path ++ [k])).sum := by
        rcases List.exists_cons_of_ne_nil some_ with ⟨k, rest, whole⟩
        rw [whole, List.map_cons, List.sum_cons]
        unfold lengthAfter
        omega
      rcases sums.2 (by omega) with ⟨whole, lengths⟩
      rcases List.getElem?_of_mem held with ⟨k, at_⟩
      have inside : k ∈ components := by
        rw [whole]
        exact List.mem_range.mpr (List.getElem?_eq_some_iff.mp at_).1
      rcases counted k inside with ⟨child', held', registered, -, iff_⟩
      rw [at_] at held'
      cases held'
      exact ⟨registered, iff_.mp (lengths k inside)⟩
    · intro sealed_
      have whole : components = List.range children.length := by
        apply List.Subset.antisymm_of_pairwise sorted List.pairwise_lt_range inside_range
        intro k inside
        have at_ := List.getElem?_eq_getElem (List.mem_range.mp inside)
        exact (members k).mpr ⟨_, at_, (sealed_ _ (List.getElem_mem _)).1⟩
      have lengths : (components.map fun k => spans.lengthAfter (entry.path ++ [k])) =
          (List.range children.length).map (Emitted.lengthAfter children) := by
        rw [whole]
        apply List.map_congr_left
        intro k inside
        rcases counted k (whole ▸ inside) with ⟨child, held, -, -, iff_⟩
        exact iff_.mpr (sealed_ child (List.mem_of_getElem? held)).2
      rw [lengths]

/-- A child of a block whose children are all registered, and the offsets before it. -/
theorem Registers.child (registers : spans.Registers blocks) (linked : spans.Linked source)
    {index place child : Nat} {kind : ContainerKind} {range : Range} {children : List Emitted}
    (own : spans.Entry blocks index entry (.container kind range children))
    (attended : (Emitted.container kind range children).Attended)
    (laid : (Emitted.container kind range children).Laid source)
    (sealed_ : (Emitted.container kind range children).Sealed)
    (here : entry.children[place]? = some child) :
    ∃ below inner, spans.Entry blocks child below inner ∧ children[place]? = some inner ∧
      spans.extent (entry.children.take place) =
        ((children.take place).map fun child => child.text.length + 1).sum := by
  rcases registers.children linked own with ⟨components, sorted, members, related⟩
  have each := sealed_.children
  have whole : components = List.range children.length := by
    apply List.Subset.antisymm_of_pairwise sorted List.pairwise_lt_range
    · intro k inside
      rcases (members k).mp inside with ⟨_, held, -⟩
      exact List.mem_range.mpr (List.getElem?_eq_some_iff.mp held).1
    · intro k inside
      have at_ : children[k]? = some _ := List.getElem?_eq_getElem (List.mem_range.mp inside)
      exact (members k).mpr ⟨_, at_, (each _ (List.getElem_mem _)).1⟩
  subst whole
  rcases forall₂_getElem? related here with ⟨k, at_, below, inner, entry_, path, held⟩
  rcases List.getElem?_eq_some_iff.mp at_ with ⟨bound, same⟩
  rw [List.getElem_range] at same
  subst same
  refine ⟨below, inner, entry_, held, ?_⟩
  have ahead := List.forall₂_take place related
  rw [List.length_range] at bound
  rw [List.take_range, Nat.min_eq_left (Nat.le_of_lt bound)] at ahead
  have extent := extent_eq linked (ahead.imp fun _ _ related => by
    rcases related with ⟨below, _, entry_, path, -⟩
    exact ⟨below, entry_.here, path⟩)
  have lengths : ((List.range place).map fun k => spans.lengthAfter (entry.path ++ [k])) =
      (List.range place).map (Emitted.lengthAfter children) := by
    apply List.map_congr_left
    intro k inside
    rcases List.getElem?_of_mem inside with ⟨position, at_k⟩
    rcases forall₂_getElem? ahead.flip at_k with ⟨_, -, other, other_inner, own', path', held'⟩
    have member' := List.mem_of_getElem? held'
    have attended' : other_inner.Attended := by
      cases attended with
      | container _ below_attended => exact below_attended other_inner member'
    have length := (registers.length linked own' attended' (laid.children other_inner member')).2.mpr
      (each other_inner member').2
    have held_ : children[k]? = some other_inner := held'
    unfold Emitted.lengthAfter
    rw [← path', lengthAfter_eq linked own'.here, held_, length]
    rfl
  rw [extent, lengths, Emitted.sum_lengthAfter]
  omega

/-- A leaf renders the characters that a Block above it does. -/
theorem Descends.character {index rendered_offset leaf within : Nat}
    (descends : spans.Descends index rendered_offset leaf within)
    (registers : spans.Registers blocks) (linked : spans.Linked source)
    (own : spans.Entry blocks index entry block) (attended : block.Attended)
    (laid : block.Laid source) (sealed_ : block.Sealed) {leaf_entry : BlockSpan}
    {leaf_block : Emitted} (leaf_own : spans.Entry blocks leaf leaf_entry leaf_block)
    (inside : within < leaf_entry.rendered_len) :
    block.text[rendered_offset]? = leaf_block.text[within]? := by
  induction descends generalizing entry block with
  | leaf here isLeaf high =>
    have same := own.here.symm.trans leaf_own.here
    cases same
    have same := own.found.symm.trans leaf_own.found
    cases same
    rfl
  | @child index place child offset leaf within entry' here child_here descends ih =>
    have same := own.here.symm.trans here
    cases same
    cases block with
    | leaf node range runs =>
      rw [registers.no_children linked own rfl] at child_here
      cases child_here
    | container kind range children =>
      rcases registers.child linked own attended laid sealed_ child_here with
        ⟨below, inner, entry_, held, extent⟩
      have member := List.mem_of_getElem? held
      have inner_laid := laid.children inner member
      have inner_sealed := (sealed_.children inner member).2
      have inner_attended : inner.Attended := by
        cases attended with
        | container _ below_attended => exact below_attended inner member
      have length := (registers.length linked entry_ inner_attended inner_laid).2.mpr inner_sealed
      have next : within + 1 ≤ leaf_entry.rendered_len := inside
      have room := (descends.further leaf_own.here next).high linked entry_.here
      have line : (children.map Emitted.text)[place]? = some inner.text := by
        rw [List.getElem?_map, held]
        rfl
      have joined := joinLines_getElem? line (Nat.lt_of_lt_of_le room (Nat.le_of_eq length))
      rw [← List.map_take, List.map_map] at joined
      rw [Emitted.text_container, extent]
      refine Eq.trans joined ?_
      exact ih entry_ inner_attended inner_laid inner_sealed leaf_own inside

end SpanMap

/-! ## The parsed note -/

variable {source : Text} (stream : EventStream source) (containing_dir : Text)

/-- The map of a Note has an entry for every block with a range. -/
theorem parseNote_registers :
    (parseNote source containing_dir stream.events).spans.Registers
      (stream.emitted containing_dir).blocks := by
  have nodup := registerAll_nodup (stream.emitted containing_dir).blocks [] 0
  rw [parseNote_eq]
  constructor
  · intro entry member
    rcases SpanMapBuilder.mem_finish _ nodup member with ⟨index, started, here, same⟩
    rcases mem_registered.mp (List.mem_of_getElem? here) with ⟨path, block, range, found, own, made⟩
    subst same
    subst made
    exact ⟨block, found, own, rfl⟩
  · intro path block found registered
    have known := mem_paths.mpr ⟨block, found, registered⟩
    rw [← SpanMapBuilder.finish_paths (stream.emitted containing_dir).frontmatter nodup] at known
    rcases List.mem_map.mp known with ⟨entry, member, same⟩
    exact ⟨entry, member, same⟩

/-- Everything that can be looked up below a sealed block is registered. -/
theorem Emitted.Sealed.lookup {block inner : Emitted} (sealed_ : block.Sealed) {path : BlockPath}
    (found : Burlmd.Markdown.lookup block.children path = some inner) :
    inner.source?.isSome ∧ inner.Sealed :=
  lookup_induction sealed_.children (fun _ known child member => known.2.children child member) found

/-- A block is sealed when everything that can be looked up below it is registered. -/
theorem Emitted.sealed_of_lookup {block : Emitted}
    (below : ∀ path inner, Burlmd.Markdown.lookup block.children path = some inner →
      inner.source?.isSome) : block.Sealed := by
  apply block.sealed_of
  · intro child held
    rcases List.getElem?_of_mem held with ⟨k, here⟩
    exact below [k] child here
  · intro path inner found _ child held
    rcases List.getElem?_of_mem held with ⟨k, here⟩
    apply below (path ++ [k])
    apply (lookup_snoc _).mpr ⟨inner, found, here⟩
    intro empty
    rw [empty] at found
    cases found

/-- Everything from a top-level block down is registered. -/
theorem registered_below_iff {blocks : List Emitted} {top : Nat} {block : Emitted}
    (here : blocks[top]? = some block) :
    (∀ path inner, lookup blocks (top :: path) = some inner → inner.source?.isSome) ↔
      block.Good true := by
  constructor
  · intro each
    constructor
    · intro _
      exact each [] block here
    · apply Emitted.sealed_of_lookup
      intro path inner found
      apply each path inner
      apply lookup_cons_some.mpr
      refine ⟨block, here, Or.inr ⟨?_, found⟩⟩
      intro empty
      rw [empty] at found
      cases found
  · intro good path inner found
    rcases lookup_cons_some.mp found with ⟨same, same_here, ⟨-, last⟩ | ⟨-, below⟩⟩
    · rw [here] at same_here
      cases same_here
      subst last
      exact good.1 rfl
    · rw [here] at same_here
      cases same_here
      exact (good.2.lookup below).1

/-- Every node from the top-level one at `top` down has an entry exactly when its block is
registered and sealed. -/
theorem parseNote_known_iff {top : Nat} {block : Emitted}
    (here : (stream.emitted containing_dir).blocks[top]? = some block) :
    (∀ path, (nodeAt (parseNote source containing_dir stream.events).ast (top :: path)).isSome →
        ((parseNote source containing_dir stream.events).spans.block (top :: path)).isSome) ↔
      block.Good true := by
  have laid := (stream.emitted_laid containing_dir).blocks
  have registers := parseNote_registers stream containing_dir
  have linked := parseNote_linked stream containing_dir
  have ast : (parseNote source containing_dir stream.events).ast =
      nodesOf (stream.emitted containing_dir).blocks := by
    rw [parseNote_eq]
  rw [← registered_below_iff here, ast]
  apply forall_congr'
  intro path
  rw [nodeAt_lookup laid, Option.isSome_map, registers.block_isSome_iff linked]
  constructor
  · intro known inner found
    rcases known (Option.isSome_of_eq_some found) with ⟨same, found', registered⟩
    rw [found] at found'
    cases found'
    exact registered
  · intro known found
    rcases Option.isSome_iff_exists.mp found with ⟨inner, found⟩
    exact ⟨inner, found, known inner found⟩

/-- The map measures a top-level block exactly when the block is registered and sealed. -/
theorem block_measured_iff {top : Nat} {block : Emitted}
    (here : (stream.emitted containing_dir).blocks[top]? = some block) :
    (∃ (index : Nat) (entry : BlockSpan),
        (parseNote source containing_dir stream.events).spans.blocks[index]? = some entry ∧
        entry.path = [top] ∧ block.text.length = entry.rendered_len) ↔
      block.Good true := by
  have registers := parseNote_registers stream containing_dir
  have linked := parseNote_linked stream containing_dir
  have found : lookup (stream.emitted containing_dir).blocks [top] = some block := here
  have laid := lookup_laid (stream.emitted_laid containing_dir).blocks found
  have attended := (stream.emitted_attended containing_dir).each block (List.mem_of_getElem? here)
  constructor
  · rintro ⟨index, entry, at_entry, isTop, length⟩
    constructor
    · intro _
      rcases registers.emitted entry (List.mem_of_getElem? at_entry) with ⟨_, found', own, -⟩
      rw [isTop, found] at found'
      cases found'
      exact Option.isSome_of_eq_some own
    · exact (registers.length linked ⟨at_entry, isTop.symm ▸ found⟩ attended laid).2.mp length.symm
  · intro good
    rcases registers.entry _ block found (good.1 rfl) with ⟨entry, member, isTop⟩
    rcases List.getElem?_of_mem member with ⟨index, at_entry⟩
    have length := (registers.length linked ⟨at_entry, isTop.symm ▸ found⟩ attended laid).2.mpr good.2
    exact ⟨index, entry, at_entry, isTop, length.symm⟩

/-- Every node of a Note has an entry exactly when each of its headings that holds an image shows
text as well. -/
theorem parseNote_all_known_iff :
    (∀ path, (nodeAt (parseNote source containing_dir stream.events).ast path).isSome →
        ((parseNote source containing_dir stream.events).spans.block path).isSome) ↔
      stream.forest.headingsShow true = true := by
  have start : Flow.initial.Laid source 0 0 :=
    ⟨Pending.Laid.empty (Nat.le_refl 0), List.forall_mem_nil _⟩
  have good := stream.forest.emit_good_iff containing_dir (.inl rfl) stream.conforms
    stream.placed start true
  have none_ : Flow.initial.Good true := List.forall_mem_nil _
  rw [and_iff_right none_] at good
  rw [← good]
  constructor
  · intro known block member
    rcases List.getElem?_of_mem member with ⟨top, here⟩
    exact (parseNote_known_iff stream containing_dir here).mp fun path => known (top :: path)
  · intro each path known
    cases path with
    | nil => cases known
    | cons top path =>
      have inside := known
      rw [parseNote_eq] at inside
      dsimp only at inside
      rw [nodeAt_lookup (stream.emitted_laid containing_dir).blocks, Option.isSome_map] at inside
      rcases Option.isSome_iff_exists.mp inside with ⟨inner, found⟩
      rcases lookup_cons_some.mp found with ⟨block, here, -⟩
      exact (parseNote_known_iff stream containing_dir here).mpr
        (each block (List.mem_of_getElem? here)) path known

end Burlmd.Markdown
