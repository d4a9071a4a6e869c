import Burlmd.Interface.LeafLayout

/-!
# Offsets and paths of the leaves

A painted offset becomes a rendered one in order, and the leaves that stay painted beside an
edited Block are those that do not lie under its path.
-/

namespace Burlmd.Interface

open Markdown
open Surrogates
open Tiling
open Utf8 (Text)
open Utf16

section Offsets

variable {node : AstNode} {leaf : LeafText}

theorem ownUnits_length {corePrefix : Nat} (inside : leaf ∈ leaves node corePrefix) :
    leaf.ownUnits.length = leaf.coreWidth := by
  have shown : leaf.shown ∈ ownTexts (places node) := by
    rw [← leaves_shown node corePrefix]
    exact List.mem_map_of_mem inside
  rcases List.mem_map.mp shown with ⟨place, _, same⟩
  have text := congrArg Prod.fst same
  have width := congrArg Prod.snd same
  unfold LeafText.shown at text width
  dsimp only at text width
  rw [← text, ← width]
  exact encode_length _

theorem leaves_length (node : AstNode) (corePrefix : Nat) :
    (leaves node corePrefix).length = (places node).length := by
  have shown := congrArg List.length (leaves_shown node corePrefix)
  unfold ownTexts at shown
  rw [List.length_map, List.length_map] at shown
  exact shown

theorem blockLeaves_tile (settled : node.settled = true) :
    Tiles (· = lineFeed) 0 ((blockLeaves node).map LeafText.piece) (encode (renderedText node)) :=
  leaves_tile node settled 0

/-- Core's text at a leaf is what the leaf paints of its Block. -/
theorem leaf_slice (settled : node.settled = true) (inside : leaf ∈ blockLeaves node) :
    leaf.corePrefix + leaf.coreWidth ≤ utf16Len (renderedText node) ∧
      substring (encode (renderedText node)) leaf.corePrefix (leaf.corePrefix + leaf.coreWidth) =
        leaf.ownUnits := by
  have width := ownUnits_length inside
  have tiles := blockLeaves_tile settled
  have mem : leaf.piece ∈ (blockLeaves node).map LeafText.piece := List.mem_map_of_mem inside
  have bounds := (tiles.offset_le mem).2
  rcases tiles.exists_split mem with ⟨before, after, whole, start⟩
  unfold LeafText.piece at bounds whole start
  dsimp only at bounds whole start
  rw [Nat.zero_add] at start bounds
  rw [width, encode_length] at bounds
  refine ⟨bounds, ?_⟩
  rw [whole, ← width, start, ← List.length_append]
  exact substring_append _ _ _

theorem clamp_le (value : Int) (upper : Nat) : clamp value 0 upper ≤ upper := by
  unfold clamp
  omega

theorem clamp_mono {value other : Int} (le : value ≤ other) (upper : Nat) :
    clamp value 0 upper ≤ clamp other 0 upper := by
  unfold clamp
  omega

/-- A painted offset of a leaf stays in what the leaf contributes. -/
theorem offset_within {leafIndex : Nat} (found : (blockLeaves node)[leafIndex]? = some leaf)
    (renderedOffset : Int) :
    leaf.corePrefix ≤ blockCoreRenderedOffset node leafIndex renderedOffset ∧
      blockCoreRenderedOffset node leafIndex renderedOffset ≤ leaf.corePrefix + leaf.coreWidth := by
  unfold blockCoreRenderedOffset
  rw [found]
  exact ⟨Nat.le_add_right _ _, Nat.add_le_add_left (clamp_le _ _) _⟩

/-- No painted offset is mapped outside of the Block. -/
theorem offset_le (settled : node.settled = true) (leafIndex : Nat) (renderedOffset : Int) :
    blockCoreRenderedOffset node leafIndex renderedOffset ≤ utf16Len (renderedText node) := by
  cases found : (blockLeaves node)[leafIndex]? with
  | none =>
    unfold blockCoreRenderedOffset
    rw [found]
    exact Nat.zero_le _
  | some leaf =>
    have within := (offset_within found renderedOffset).2
    have slice := (leaf_slice settled (List.mem_of_getElem? found)).1
    omega

/-- Painted positions are mapped in their order. -/
theorem offset_mono (settled : node.settled = true) {first second : Nat} {one two : Int}
    (inside : second < (blockLeaves node).length)
    (ordered : first < second ∨ first = second ∧ one ≤ two) :
    blockCoreRenderedOffset node first one ≤ blockCoreRenderedOffset node second two := by
  rcases ordered with before | ⟨same, le⟩
  · have at_first := List.getElem?_eq_getElem (Nat.lt_trans before inside)
    have at_second := List.getElem?_eq_getElem inside
    have sorted := List.pairwise_map.mp (blockLeaves_tile settled).ordered
    have behind := List.pairwise_iff_getElem.mp sorted first second
      (Nat.lt_trans before inside) inside before
    have width := ownUnits_length (List.mem_of_getElem? at_first)
    have upper := (offset_within at_first one).2
    have lower := (offset_within at_second two).1
    unfold LeafText.piece at behind
    dsimp only at behind
    omega
  · rw [← same] at inside ⊢
    have at_first := List.getElem?_eq_getElem inside
    unfold blockCoreRenderedOffset
    rw [at_first]
    apply Nat.add_le_add_left
    apply clamp_mono
    omega

end Offsets

/-! ## Leaves under a path -/

section Paths

theorem placesEach_append (first : Nat) (nodes others : List AstNode) :
    placesEach first (nodes ++ others) =
      placesEach first nodes ++ placesEach (first + nodes.length) others := by
  induction nodes generalizing first with
  | nil => simp [placesEach]
  | cons node rest ih =>
    have next : first + 1 + rest.length = first + (rest.length + 1) := by omega
    rw [List.cons_append, placesEach, ih, placesEach, List.append_assoc, List.length_cons, next]

theorem mem_placesEach {first : Nat} {nodes : List AstNode} {place : Place}
    (inside : place ∈ placesEach first nodes) :
    ∃ index node below, nodes[index]? = some node ∧ below ∈ places node ∧
      place.path = (first + index) :: below.path := by
  induction nodes generalizing first with
  | nil =>
    rw [placesEach] at inside
    cases inside
  | cons node rest ih =>
    rw [placesEach] at inside
    rcases List.mem_append.mp inside with here | later
    · rcases List.mem_map.mp here with ⟨below, mem, same⟩
      exact ⟨0, node, below, rfl, mem, same ▸ rfl⟩
    · rcases ih later with ⟨index, other, below, found, mem, path⟩
      refine ⟨index + 1, other, below, found, mem, ?_⟩
      rw [path, Nat.add_assoc, Nat.add_comm 1 index]

theorem leafCountBefore_eq (nodes : List AstNode) (stop first : Nat) :
    leafCountBefore nodes stop = (placesEach first (nodes.take stop)).length := by
  unfold leafCountBefore blockLeaves
  generalize nodes.take stop = before
  have from_ (count : Nat) : before.foldl (fun count node => count + (leaves node 0).length) count =
      count + (placesEach first before).length := by
    induction before generalizing first count with
    | nil =>
      rw [placesEach]
      rfl
    | cons node rest ih =>
      rw [List.foldl_cons, ih (first + 1), leaves_length, placesEach, List.length_append,
        List.length_map, Nat.add_assoc]
  exact (from_ 0).trans (Nat.zero_add _)

/-- A node with children, or a leaf. -/
theorem children_cases (node : AstNode) (index : Nat) (remaining : List Nat) :
    (∃ marks nodes, places node = marks ++ placesEach 0 nodes ∧ (∀ mark ∈ marks, mark.path = []) ∧
      nodeAtPath (index :: remaining) node = nodes[index]?.bind (nodeAtPath remaining) ∧
      ∀ child, nodes[index]? = some child → leafPrefixForPath (index :: remaining) node =
        marks.length + leafCountBefore nodes index + leafPrefixForPath remaining child) ∨
      nodeAtPath (index :: remaining) node = none ∧ ∀ place ∈ places node, place.path = [] := by
  cases node with
  | list ordered items =>
    refine Or.inl ⟨[], items, ?_, List.forall_mem_nil _, ?_, ?_⟩
    · rw [places]
      rfl
    · rw [nodeAtPath]
    · intro child found
      rw [leafPrefixForPath, found, List.length_nil, Nat.zero_add]
  | listItem content checked =>
    refine Or.inl ⟨if checked = none then [⟨[], none⟩] else [], content, ?_, ?_, ?_, ?_⟩
    · rw [places]
    · intro mark inside
      split at inside
      · rw [List.mem_singleton.mp inside]
      · cases inside
    · rw [nodeAtPath]
    · intro child found
      rw [leafPrefixForPath, found]
      cases checked with
      | none => rfl
      | some _ => rfl
  | blockquote nodes =>
    refine Or.inl ⟨[], nodes, ?_, List.forall_mem_nil _, ?_, ?_⟩
    · rw [places]
      rfl
    · rw [nodeAtPath]
    · intro child found
      rw [leafPrefixForPath, found, List.length_nil, Nat.zero_add]
  | suggestion base local_content incoming =>
    refine Or.inl ⟨[], local_content, ?_, List.forall_mem_nil _, ?_, ?_⟩
    · rw [places]
      rfl
    · rw [nodeAtPath]
    · intro child found
      rw [leafPrefixForPath, found, List.length_nil, Nat.zero_add]
  | heading _ _ | paragraph _ | codeBlock _ _ | thematicBreak | image _ _ =>
    apply Or.inr
    rw [nodeAtPath, places]
    · refine ⟨rfl, ?_⟩
      intro place inside
      first
        | rw [List.mem_singleton.mp inside]
        | cases inside
    all_goals
      intros
      contradiction

/-- The leaves under a path stand together, and no other leaf is under it. -/
theorem places_split {path : List Nat} {node focused : AstNode}
    (found : nodeAtPath path node = some focused) :
    ∃ before after, (places node).map Place.path =
        before ++ (places focused).map (fun place => path ++ place.path) ++ after ∧
      before.length = leafPrefixForPath path node ∧
      ∀ other ∈ before ++ after, ¬ path <+: other := by
  induction path generalizing node with
  | nil =>
    rw [nodeAtPath] at found
    cases Option.some.inj found
    refine ⟨[], [], ?_, ?_, List.forall_mem_nil _⟩
    · rw [List.append_nil]
      rfl
    · rw [leafPrefixForPath]
      rfl
  | cons index remaining ih =>
    rcases children_cases node index remaining with
      ⟨marks, nodes, whole, unmarked, isNode, isPrefix⟩ | ⟨none_, _⟩
    · rw [isNode] at found
      rcases Option.bind_eq_some_iff.mp found with ⟨child, isChild, found⟩
      rcases List.getElem?_eq_some_iff.mp isChild with ⟨bounded, at_⟩
      rcases ih found with ⟨before, after, inner, long, apart⟩
      have cut : nodes = nodes.take index ++ child :: nodes.drop (index + 1) := by
        rw [← at_, List.getElem_cons_drop, List.take_append_drop]
      have ahead : (nodes.take index).length = index := by
        rw [List.length_take]
        omega
      have siblings : placesEach 0 nodes = placesEach 0 (nodes.take index) ++
          ((places child).map (Place.below index) ++
            placesEach (index + 1) (nodes.drop (index + 1))) := by
        conv_lhs => rw [cut]
        rw [placesEach_append, ahead, Nat.zero_add, placesEach]
      have below : ((places child).map (Place.below index)).map Place.path =
          ((places child).map Place.path).map (index :: ·) := by
        rw [List.map_map, List.map_map]
        rfl
      refine ⟨marks.map Place.path ++ (placesEach 0 (nodes.take index)).map Place.path ++
        before.map (index :: ·), after.map (index :: ·) ++
        (placesEach (index + 1) (nodes.drop (index + 1))).map Place.path, ?_, ?_, ?_⟩
      · rw [whole, siblings]
        simp only [List.map_append, below, inner, List.map_map, List.append_assoc]
        rfl
      · rw [isPrefix child isChild, leafCountBefore_eq nodes index 0, ← long]
        simp only [List.length_append, List.length_map]
      · intro other inside under
        simp only [List.mem_append, List.mem_map] at inside
        rcases inside with ((⟨mark, mem, same⟩ | ⟨place, mem, same⟩) | ⟨inner_, mem, same⟩) |
          ⟨inner_, mem, same⟩ | ⟨place, mem, same⟩
        · rw [← same, unmarked mark mem] at under
          exact absurd (List.prefix_nil.mp under) (List.cons_ne_nil _ _)
        · rcases mem_placesEach mem with ⟨place', node', _, at_place, _, starts⟩
          rcases List.getElem?_eq_some_iff.mp at_place with ⟨early, _⟩
          rw [← same, starts, List.cons_prefix_cons] at under
          omega
        · rw [← same, List.cons_prefix_cons] at under
          exact apart inner_ (List.mem_append_left _ mem) under.2
        · rw [← same, List.cons_prefix_cons] at under
          exact apart inner_ (List.mem_append_right _ mem) under.2
        · rcases mem_placesEach mem with ⟨place', node', _, at_place, _, starts⟩
          rw [← same, starts, List.cons_prefix_cons] at under
          omega
    · rw [none_] at found
      cases found

theorem places_of_none {path : List Nat} {node : AstNode} (missing : nodeAtPath path node = none) :
    ∀ place ∈ places node, ¬ path <+: place.path := by
  induction path generalizing node with
  | nil =>
    rw [nodeAtPath] at missing
    cases missing
  | cons index remaining ih =>
    intro place inside under
    rcases children_cases node index remaining with
      ⟨marks, nodes, whole, unmarked, isNode, _⟩ | ⟨_, leaf⟩
    · rw [whole] at inside
      rcases List.mem_append.mp inside with mark | inside
      · rw [unmarked place mark] at under
        exact absurd (List.prefix_nil.mp under) (List.cons_ne_nil _ _)
      · rcases mem_placesEach inside with ⟨place', child, below, found, mem, path⟩
        rw [path, Nat.zero_add, List.cons_prefix_cons] at under
        rw [isNode, under.1, found] at missing
        exact ih missing below mem under.2
    · rw [leaf place inside] at under
      exact absurd (List.prefix_nil.mp under) (List.cons_ne_nil _ _)

/-- The leaves that stay painted are those that do not lie under the path. -/
theorem mem_blockUnfocusedLeafIndices {node : AstNode} {path : List Nat} {index : Nat} :
    index ∈ blockUnfocusedLeafIndices node path ↔
      ∃ place, (places node)[index]? = some place ∧ ¬ path <+: place.path := by
  have count : (blockLeaves node).length = (places node).length := leaves_length node 0
  unfold blockUnfocusedLeafIndices
  rw [count]
  cases found : nodeAtPath path node with
  | none =>
    rw [List.mem_range]
    constructor
    · intro inside
      have at_ := List.getElem?_eq_getElem inside
      exact ⟨_, at_, places_of_none found _ (List.mem_of_getElem? at_)⟩
    · intro some_
      rcases some_ with ⟨place, at_, _⟩
      exact (List.getElem?_eq_some_iff.mp at_).1
  | some focused =>
    rcases places_split found with ⟨before, after, whole, start, apart⟩
    have inner : (blockLeaves focused).length = (places focused).length := leaves_length focused 0
    have path_at (place : Place) (at_ : (places node)[index]? = some place) :
        (before ++ (places focused).map (fun place => path ++ place.path) ++ after)[index]? =
          some place.path := by
      rw [← whole, List.getElem?_map, at_]
      rfl
    dsimp only
    rw [← start, inner, List.mem_filter, List.mem_range, Bool.or_eq_true, decide_eq_true_eq,
      decide_eq_true_eq]
    constructor
    · intro outside
      have at_ := List.getElem?_eq_getElem outside.1
      refine ⟨_, at_, ?_⟩
      have here := path_at _ at_
      apply apart
      rcases outside.2 with ahead | behind
      · rw [List.append_assoc, List.getElem?_append_left ahead] at here
        exact List.mem_append_left _ (List.mem_of_getElem? here)
      · have long : (before ++ (places focused).map (fun place => path ++ place.path)).length ≤
            index := by
          rw [List.length_append, List.length_map]
          exact behind
        rw [List.getElem?_append_right long] at here
        exact List.mem_append_right _ (List.mem_of_getElem? here)
    · intro some_
      rcases some_ with ⟨place, at_, outside⟩
      refine ⟨(List.getElem?_eq_some_iff.mp at_).1, ?_⟩
      by_contra within
      rw [not_or, Nat.not_lt, Nat.not_le] at within
      have here := path_at place at_
      have early : index < (before ++ (places focused).map
          (fun place => path ++ place.path)).length := by
        rw [List.length_append, List.length_map]
        exact within.2
      rw [List.getElem?_append_left early, List.getElem?_append_right within.1] at here
      rcases List.mem_map.mp (List.mem_of_getElem? here) with ⟨below, _, same⟩
      apply outside
      rw [← same]
      exact List.prefix_append _ _

theorem blockUnfocusedLeafIndices_sorted (node : AstNode) (path : List Nat) :
    (blockUnfocusedLeafIndices node path).Pairwise (· < ·) := by
  unfold blockUnfocusedLeafIndices
  split
  · exact List.pairwise_lt_range
  · exact List.pairwise_lt_range.filter _

end Paths

/-! ## The coordinates of the interface -/

section Coordinates

variable {node : AstNode}

/-- The leaves that are no markers, with where each stands. -/
def textPieces (node : AstNode) : List (Nat × Units) :=
  (((blockLeaves node).zip (places node)).filter fun pair => pair.2.own.isSome).map
    fun pair => pair.1.piece

theorem shown_of_mem_zip {pair : LeafText × Place}
    (inside : pair ∈ (blockLeaves node).zip (places node)) :
    pair.1.shown = (encode (pair.2.own.getD []), utf16Len (pair.2.own.getD [])) := by
  rcases List.mem_iff_getElem?.mp inside with ⟨index, at_⟩
  rcases List.getElem?_zip_eq_some.mp at_ with ⟨at_leaf, at_place⟩
  have both := congrArg (·[index]?) (leaves_shown node 0)
  unfold ownTexts at both
  rw [List.getElem?_map, List.getElem?_map, at_place] at both
  unfold blockLeaves at at_leaf
  rw [at_leaf] at both
  exact Option.some.inj both

theorem textPieces_tile (settled : node.settled = true) :
    Tiles (· = lineFeed) 0 (textPieces node) (encode (renderedText node)) := by
  have tiles := blockLeaves_tile settled
  have count : (blockLeaves node).length = (places node).length := leaves_length node 0
  have whole : ((blockLeaves node).zip (places node)).map (fun pair => pair.1.piece) =
      (blockLeaves node).map LeafText.piece := by
    have firsts := List.map_fst_zip (Nat.le_of_eq count)
    conv_rhs => rw [← firsts, List.map_map]
    rfl
  rw [← whole] at tiles
  apply tiles.filter
  intro pair inside marker
  have shown := congrArg Prod.fst (shown_of_mem_zip inside)
  rw [Option.isSome_eq_false_iff, Option.isNone_iff_eq_none] at marker
  rw [marker] at shown
  exact shown

/-- The coordinates of the interface are Core's: lengths, slices, the order of offsets, and the
leaves beside an edited Block. -/
theorem blockLeaves_match_core (settled : node.settled = true) :
    blockCoreRenderedLength node = utf16Len (renderedText node) ∧
      (∀ leaf ∈ blockLeaves node,
        leaf.corePrefix + leaf.coreWidth ≤ utf16Len (renderedText node) ∧
          substring (encode (renderedText node)) leaf.corePrefix
            (leaf.corePrefix + leaf.coreWidth) = leaf.ownUnits) ∧
      (blockLeaves node).map LeafText.shown = ownTexts (places node) ∧
      Tiles (· = lineFeed) 0 (textPieces node) (encode (renderedText node)) ∧
      (∀ leafIndex renderedOffset,
        blockCoreRenderedOffset node leafIndex renderedOffset ≤ utf16Len (renderedText node)) ∧
      (∀ first second one two, second < (blockLeaves node).length →
        first < second ∨ first = second ∧ one ≤ two →
          blockCoreRenderedOffset node first one ≤ blockCoreRenderedOffset node second two) ∧
      ∀ path, (blockUnfocusedLeafIndices node path).Pairwise (· < ·) ∧
        ∀ index, index ∈ blockUnfocusedLeafIndices node path ↔
          ∃ place, (places node)[index]? = some place ∧ ¬ path <+: place.path := by
  refine ⟨coreRenderedLength_eq node settled, ?_, leaves_shown node 0, textPieces_tile settled,
    offset_le settled, ?_, ?_⟩
  · intro leaf inside
    exact leaf_slice settled inside
  · intro first second one two inside ordered
    exact offset_mono settled inside ordered
  · intro path
    refine ⟨blockUnfocusedLeafIndices_sorted node path, ?_⟩
    intro index
    exact mem_blockUnfocusedLeafIndices

/-- A List with one item, which holds a Paragraph and an Image. -/
def pictured : AstNode :=
  .list false [.listItem [.paragraph [.text ⟨['a'], false, false, false, false⟩], .image ['b'] []]
    none]

theorem blockLeaves_match_core_list :
    pictured.settled = true ∧ blockCoreRenderedLength pictured = 3 ∧
      ∀ index, index ∈ blockUnfocusedLeafIndices pictured [0, 0] ↔
        ∃ place, (places pictured)[index]? = some place ∧ ¬ [0, 0] <+: place.path := by
  have settled : pictured.settled = true := by decide
  have core := blockLeaves_match_core settled
  refine ⟨settled, ?_, (core.2.2.2.2.2.2 [0, 0]).2⟩
  apply core.1.trans
  decide

end Coordinates

end Burlmd.Interface
