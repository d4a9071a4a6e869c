import Burlmd.Interface.LeafOffsets
import Burlmd.Interface.Painted

/-!
# Taps

A tap asks which painted paragraph it met and reads that index in the list of leaves. The mark of a
task is painted as a paragraph too, but is no leaf: indices agree in a Block without tasks.
-/

namespace Burlmd.Interface

open Markdown
open Surrogates
open Utf8 (Text)
open Utf16

/-! ## A Block with an edited leaf -/

section Focused

def shownIndexed (shown : Nat → AstNode → List Shown) : Nat → List AstNode → List Shown
  | _, [] => []
  | index, node :: rest => shown index node ++ shownIndexed shown (index + 1) rest

theorem shownIndexed_each (index : Nat) (nodes : List AstNode) :
    shownIndexed (fun _ => shownParagraphs) index nodes = shownEach nodes := by
  induction nodes generalizing index with
  | nil => rw [shownIndexed, shownEach]
  | cons node rest ih => rw [shownIndexed, shownEach, ih]

theorem shownIndexed_items (ordered : Bool) (index : Nat) (items : List AstNode) :
    shownIndexed (itemShown ordered) index items = shownItems ordered index items := by
  induction items generalizing index with
  | nil => rw [shownIndexed, shownItems]
  | cons node rest ih => rw [shownIndexed, shownItems_cons, ih]

variable {renderSibling renderFocused : Render}

theorem renderIndexed_shows {render : Nat → Render} {shown : Nat → AstNode → List Shown}
    (each : ∀ index node renderedLinkIndex,
      Shows (render index node renderedLinkIndex).1 (shown index node))
    (index : Nat) (nodes : List AstNode) (renderedLinkIndex : Nat) :
    Shows (.children (renderIndexed render index nodes renderedLinkIndex).1)
      (shownIndexed shown index nodes) := by
  induction nodes generalizing index renderedLinkIndex with
  | nil =>
    rw [renderIndexed, shownIndexed]
    exact Shows.nil
  | cons node rest ih =>
    rw [renderIndexed, shownIndexed]
    exact (each index node renderedLinkIndex).cons (ih _ _)

theorem renderIndexed_shows_each {render : Nat → Render}
    (each : ∀ index node renderedLinkIndex,
      Shows (render index node renderedLinkIndex).1 (shownParagraphs node))
    (nodes : List AstNode) (renderedLinkIndex : Nat) :
    Shows (.children (renderIndexed render 0 nodes renderedLinkIndex).1) (shownEach nodes) := by
  rw [← shownIndexed_each 0]
  exact renderIndexed_shows each 0 nodes renderedLinkIndex

variable (sibling : ∀ node renderedLinkIndex,
  Shows (renderSibling node renderedLinkIndex).1 (shownParagraphs node))

include sibling

theorem renderListItemWith_shows (content : List AstNode) (checked : Option Bool) (marker : Text) :
    Shows (renderListItemWith content checked marker renderSibling)
      (markerShown checked marker :: shownEach content) := by
  apply listItemRow_shows
  apply Shows.deferred
  intro renderedLinkIndex
  exact renderIndexed_shows_each (fun _ => sibling) content renderedLinkIndex

variable (focused : ∀ node renderedLinkIndex,
  Shows (renderFocused node renderedLinkIndex).1 (shownParagraphs node))

include focused

theorem either_shows (chosen : Prop) [Decidable chosen] (node : AstNode) (renderedLinkIndex : Nat) :
    Shows ((if chosen then renderFocused else renderSibling) node renderedLinkIndex).1
      (shownParagraphs node) := by
  split
  · exact focused node renderedLinkIndex
  · exact sibling node renderedLinkIndex

theorem renderFocusedListItem_shows (content : List AstNode) (checked : Option Bool)
    (marker : Text) (first : Option Nat) (renderedLinkIndex : Nat) :
    Shows (renderFocusedListItem content checked marker first renderFocused renderSibling
        renderedLinkIndex).1
      (markerShown checked marker :: shownEach content) := by
  apply listItemRow_shows
  apply renderIndexed_shows_each
  intro index
  exact either_shows sibling focused (some index = first)

theorem renderListChild_shows {renderDeeper : Render} (deeper : ∀ node renderedLinkIndex,
      Shows (renderDeeper node renderedLinkIndex).1 (shownParagraphs node))
    (ordered : Bool) (childIndex : Nat) (first : Option Nat) (index : Nat) (item : AstNode)
    (renderedLinkIndex : Nat) :
    Shows (renderListChild ordered childIndex first renderFocused renderDeeper renderSibling index
        item renderedLinkIndex).1
      (itemShown ordered index item) := by
  unfold renderListChild
  cases item with
  | listItem content checked =>
    split
    · exact renderFocusedListItem_shows sibling deeper content checked _ _ _
    · exact renderListItemWith_shows sibling content checked _
  | heading _ _ | paragraph _ | list _ _ | blockquote _ | codeBlock _ _ | thematicBreak
  | image _ _ | suggestion _ _ _ =>
    split
    · exact focused _ _
    · exact sibling _ _

omit sibling focused

theorem focusedSlot_shows (node : AstNode) : Shows (focusedSlot node .editor) (shownParagraphs node) := by
  cases node with
  | heading level content =>
    rw [focusedSlot, shownParagraphs]
    exact headingSlot_shows level (renderInlines_shows content) (Or.inr rfl)
  | codeBlock language code =>
    rw [focusedSlot, shownParagraphs]
    exact codeBlockSlot_shows language code (Or.inr rfl)
  | paragraph _ | list _ _ | listItem _ _ | blockquote _ | thematicBreak | image _ _
  | suggestion _ _ _ => exact (renderBlock_shows _).edited

include sibling

/-- Focus does not change what a Block shows. -/
theorem renderBlockWithFocusedLeaf_shows (path : List Nat) (node : AstNode)
    (renderedLinkIndex : Nat) :
    Shows (renderBlockWithFocusedLeaf renderSibling path node renderedLinkIndex).1
      (shownParagraphs node) := by
  cases path with
  | nil => exact focusedSlot_shows node
  | cons childIndex remaining =>
    have focused := renderBlockWithFocusedLeaf_shows remaining
    have chosen (index : Nat) := either_shows sibling focused (index = childIndex)
    have away := sibling node renderedLinkIndex
    cases node with
    | list ordered items =>
      rw [renderBlockWithFocusedLeaf_list]
      split
      · rw [shownParagraphs, ← shownIndexed_items]
        apply renderIndexed_shows
        apply renderListChild_shows sibling focused
        cases remaining with
        | nil => exact sibling
        | cons first deeper => exact renderBlockWithFocusedLeaf_shows deeper
      · exact away
    | listItem content checked =>
      simp only [renderBlockWithFocusedLeaf]
      split
      · rw [shownParagraphs]
        exact renderFocusedListItem_shows sibling focused content checked _ _ _
      · exact away
    | blockquote nodes =>
      simp only [renderBlockWithFocusedLeaf]
      split
      · rw [shownParagraphs]
        exact (renderIndexed_shows_each chosen nodes _).built
      · exact away
    | suggestion base local_content incoming =>
      simp only [renderBlockWithFocusedLeaf]
      split
      · rw [shownParagraphs]
        exact renderIndexed_shows_each chosen local_content _
      · exact away
    | heading _ _ | paragraph _ | codeBlock _ _ | thematicBreak | image _ _ => exact away
termination_by path.length

omit sibling

theorem surface_shows (node : AstNode) (focusedLeafPath : Option (List Nat)) (activation : Bool) :
    shownUnder (BlockView.surface node focusedLeafPath activation).1 = shownParagraphs node := by
  cases focusedLeafPath with
  | none => exact renderInteractive_shows activation _ node 0 _
  | some path => exact renderBlockWithFocusedLeaf_shows (renderInteractive_shows activation _) path node 0 _

end Focused

/-! ## Paragraphs and leaves -/

/-- Whether a paragraph shows a leaf. The marker of an item has a sign of its own, and every other
leaf is painted as it reads. -/
def Shown.fits (shown : Shown) (leaf : LeafText) : Option Text → Prop
  | none => ∃ ordered index, shown = .text (itemMarker ordered index)
  | some _ => shown = .text leaf.rendered

/-- One paragraph for each leaf, in order. -/
def Fit : List Shown → List LeafText → List (Option Text) → Prop
  | [], [], [] => True
  | shown :: paragraphs, leaf :: leaves, own :: owns =>
      shown.fits leaf own ∧ Fit paragraphs leaves owns
  | _, _, _ => False

def owns (places : List Place) : List (Option Text) := places.map Place.own

section Fits

variable {paragraphs paragraphs' : List Shown} {leaves leaves' : List LeafText}
  {texts texts' : List (Option Text)}

theorem owns_append (first second : List Place) : owns (first ++ second) = owns first ++ owns second :=
  List.map_append

theorem owns_below (places : List Place) (index : Nat) :
    owns (places.map (Place.below index)) = owns places := by
  unfold owns
  rw [List.map_map]
  rfl

theorem Fit.append (first : Fit paragraphs leaves texts) (second : Fit paragraphs' leaves' texts') :
    Fit (paragraphs ++ paragraphs') (leaves ++ leaves') (texts ++ texts') := by
  induction paragraphs generalizing leaves texts with
  | nil =>
    cases leaves with
    | cons _ _ => cases texts <;> exact first.elim
    | nil =>
      cases texts with
      | cons _ _ => exact first.elim
      | nil => exact second
  | cons shown rest ih =>
    cases leaves with
    | nil => cases texts <;> exact first.elim
    | cons leaf leaves =>
      cases texts with
      | nil => exact first.elim
      | cons text texts => exact ⟨first.1, ih first.2⟩

theorem Fit.length_eq (fit : Fit paragraphs leaves texts) : paragraphs.length = leaves.length := by
  induction paragraphs generalizing leaves texts with
  | nil =>
    cases leaves with
    | nil => rfl
    | cons _ _ => cases texts <;> exact fit.elim
  | cons shown rest ih =>
    cases leaves with
    | nil => cases texts <;> exact fit.elim
    | cons leaf leaves =>
      cases texts with
      | nil => exact fit.elim
      | cons text texts => exact congrArg (· + 1) (ih fit.2)

theorem Fit.single {leaf : LeafText} {text : Text} (own : Text) (reads : text = leaf.rendered) :
    Fit [.text text] [leaf] [some own] := ⟨congrArg Shown.text reads, trivial⟩

end Fits

/-! ## Tasks -/

mutual

/-- The items of a node that are tasks. -/
def tasks : AstNode → Nat
  | .list _ items => tasksEach items
  | .listItem content checked => (if checked = none then 0 else 1) + tasksEach content
  | .blockquote nodes => tasksEach nodes
  | .suggestion _ local_content _ => tasksEach local_content
  | .heading .. | .paragraph _ | .codeBlock .. | .thematicBreak | .image .. => 0

def tasksEach : List AstNode → Nat
  | [] => 0
  | node :: rest => tasks node + tasksEach rest

end

theorem marker_length (checked : Option Bool) :
    1 = (if checked = none then [Place.mk [] none] else []).length +
      (if checked = none then 0 else 1) := by
  cases checked with
  | none => rfl
  | some _ => rfl

mutual

/-- Each task has one paragraph more than it has leaves. -/
theorem shownParagraphs_length (node : AstNode) :
    (shownParagraphs node).length = (places node).length + tasks node := by
  cases node with
  | list ordered items =>
    rw [shownParagraphs, places, tasks]
    exact shownItems_length ordered 0 0 items
  | listItem content checked =>
    have marker := marker_length checked
    have inner := shownEach_length 0 content
    rw [shownParagraphs, places, tasks, List.length_cons, List.length_append]
    omega
  | blockquote nodes =>
    rw [shownParagraphs, places, tasks]
    exact shownEach_length 0 nodes
  | suggestion base local_content incoming =>
    rw [shownParagraphs, places, tasks]
    exact shownEach_length 0 local_content
  | heading _ _ | paragraph _ | codeBlock _ _ | thematicBreak | image _ _ =>
    rw [shownParagraphs, places, tasks]
    rfl

theorem shownEach_length (index : Nat) (nodes : List AstNode) :
    (shownEach nodes).length = (placesEach index nodes).length + tasksEach nodes := by
  cases nodes with
  | nil =>
    rw [shownEach, placesEach, tasksEach]
    rfl
  | cons node rest =>
    have own := shownParagraphs_length node
    have onward := shownEach_length (index + 1) rest
    rw [shownEach, placesEach, tasksEach, List.length_append, List.length_append, List.length_map]
    omega

theorem shownItems_length (ordered : Bool) (number index : Nat) (items : List AstNode) :
    (shownItems ordered number items).length = (placesEach index items).length + tasksEach items := by
  cases items with
  | nil =>
    rw [shownItems, placesEach, tasksEach]
    rfl
  | cons node rest =>
    have own : (itemShown ordered number node).length = (places node).length + tasks node := by
      cases node with
      | listItem content checked =>
        have whole := shownParagraphs_length (.listItem content checked)
        rw [shownParagraphs] at whole
        exact whole
      | heading _ _ | paragraph _ | list _ _ | blockquote _ | codeBlock _ _ | thematicBreak
      | image _ _ | suggestion _ _ _ => exact shownParagraphs_length _
    have onward := shownItems_length ordered (number + 1) (index + 1) rest
    rw [shownItems_cons, placesEach, tasksEach, List.length_append, List.length_append,
      List.length_map]
    omega

end

theorem marker_fits (checked : Option Bool) (ordered : Bool) (index start : Nat)
    (untasked : (if checked = none then 0 else 1) = 0) :
    Fit [markerShown checked (itemMarker ordered index)] (listItemMarker checked ordered index start)
      (owns (if checked = none then [Place.mk [] none] else [])) := by
  cases checked with
  | none => exact ⟨⟨ordered, index, rfl⟩, trivial⟩
  | some _ => exact absurd untasked Nat.one_ne_zero

mutual

/-- Without tasks each paragraph shows the leaf with its index. -/
theorem leaves_fit (node : AstNode) (untasked : tasks node = 0) (start : Nat) :
    Fit (shownParagraphs node) (leaves node start) (owns (places node)) := by
  cases node with
  | heading level content =>
    rw [shownParagraphs, leaves, places]
    exact Fit.single _ (inlineRendered_eq content).symm
  | paragraph content =>
    rw [shownParagraphs, leaves, places]
    exact Fit.single _ (inlineRendered_eq content).symm
  | list ordered items =>
    rw [tasks] at untasked
    rw [shownParagraphs, leaves, places]
    exact itemLeaves_fit ordered 0 0 items untasked start
  | listItem content checked =>
    rw [tasks, Nat.add_eq_zero_iff] at untasked
    rw [shownParagraphs, leaves, places, owns_append]
    exact (marker_fits checked false 0 start untasked.1).append
      (leavesEach_fit 0 content untasked.2 start)
  | blockquote nodes =>
    rw [tasks] at untasked
    rw [shownParagraphs, leaves, places]
    exact leavesEach_fit 0 nodes untasked start
  | codeBlock language code =>
    rw [shownParagraphs, leaves, places]
    exact Fit.single _ rfl
  | thematicBreak =>
    rw [shownParagraphs, leaves, places]
    exact trivial
  | image alt_text url_or_path =>
    rw [shownParagraphs, leaves, places]
    exact Fit.single _ rfl
  | suggestion base local_content incoming =>
    rw [tasks] at untasked
    rw [shownParagraphs, leaves, places]
    exact leavesEach_fit 0 local_content untasked start

theorem leavesEach_fit (index : Nat) (nodes : List AstNode) (untasked : tasksEach nodes = 0)
    (start : Nat) :
    Fit (shownEach nodes) (leavesEach nodes start) (owns (placesEach index nodes)) := by
  cases nodes with
  | nil =>
    rw [shownEach, leavesEach, placesEach]
    exact trivial
  | cons node rest =>
    rw [tasksEach, Nat.add_eq_zero_iff] at untasked
    rw [shownEach, leavesEach, placesEach, owns_append, owns_below]
    exact (leaves_fit node untasked.1 start).append (leavesEach_fit (index + 1) rest untasked.2 _)

theorem itemLeaves_fit (ordered : Bool) (number index : Nat) (items : List AstNode)
    (untasked : tasksEach items = 0) (start : Nat) :
    Fit (shownItems ordered number items) (itemLeaves ordered number items start)
      (owns (placesEach index items)) := by
  cases items with
  | nil =>
    rw [shownItems, itemLeaves, placesEach]
    exact trivial
  | cons node rest =>
    rw [tasksEach, Nat.add_eq_zero_iff] at untasked
    have onward := itemLeaves_fit ordered (number + 1) (index + 1) rest untasked.2
    cases node with
    | listItem content checked =>
      have own := untasked.1
      rw [tasks, Nat.add_eq_zero_iff] at own
      rw [shownItems, itemLeaves, placesEach, owns_append, owns_below, places, owns_append]
      exact ((marker_fits checked ordered number start own.1).append
        (leavesEach_fit 0 content own.2 start)).append (onward _)
    | heading _ _ | paragraph _ | list _ _ | blockquote _ | codeBlock _ _ | thematicBreak
    | image _ _ | suggestion _ _ _ =>
      rw [shownItems, itemLeaves, placesEach, owns_append, owns_below]
      · exact (leaves_fit _ untasked.1 start).append (onward _)
      all_goals
        intro _ _ never
        cases never

end

/-! ## A tap -/

/-- The offset that a tap promotes with. `hit` gives, for a paragraph whose bounds hold the pointer,
the offset in it that lies under the pointer. -/
def handleTapUp (node : AstNode) (paragraphs : List Paragraph) (hit : Nat → Option Nat) : Nat :=
  ((List.range paragraphs.length).findSome? fun index =>
    (hit index).map fun offset => blockCoreRenderedOffset node index offset).getD 0

/-- The first paragraph under the pointer decides. -/
theorem handleTapUp_eq {node : AstNode} {paragraphs : List Paragraph} {hit : Nat → Option Nat}
    {index offset : Nat} (inside : index < paragraphs.length) (here : hit index = some offset)
    (first : ∀ earlier < index, hit earlier = none) :
    handleTapUp node paragraphs hit = blockCoreRenderedOffset node index offset := by
  have cut : List.range paragraphs.length = List.range index ++
      index :: (List.range (paragraphs.length - index - 1)).map (· + (index + 1)) := by
    have length : paragraphs.length = index + (1 + (paragraphs.length - index - 1)) := by omega
    conv_lhs => rw [length, List.range_add, Nat.add_comm 1, List.range_succ_eq_map]
    rw [List.map_cons, List.map_map, Nat.add_zero]
    congr 2
    apply List.map_congr_left
    intro number _
    exact Nat.add_comm index (number + 1) |>.trans (by omega)
  have none_ : ((List.range index).findSome? fun index =>
      (hit index).map fun offset => blockCoreRenderedOffset node index offset) = none := by
    rw [List.findSome?_eq_none_iff]
    intro earlier ahead
    rw [first earlier (List.mem_range.mp ahead)]
    rfl
  unfold handleTapUp
  rw [cut, List.findSome?_append, none_, Option.none_or, List.findSome?_cons, here]
  rfl

/-- Each paragraph shows the leaf with its index, and a tap on a character of a leaf promotes with
the offset of that character in what Core renders. -/
structure TapsAddressLeaves (node : AstNode) (paragraphs : List Paragraph) : Prop where
  correspond : Fit (paragraphs.map Paragraph.shown) (blockLeaves node) (owns (places node))
  addressed : ∀ hit index offset leaf, hit index = some offset →
    (∀ earlier < index, hit earlier = none) → (blockLeaves node)[index]? = some leaf →
    leaf.leadingDecorationWidth ≤ offset → offset < leaf.leadingDecorationWidth + leaf.coreWidth →
      handleTapUp node paragraphs hit =
          leaf.corePrefix + (offset - leaf.leadingDecorationWidth) ∧
        ∃ unit, (encode leaf.rendered)[offset]? = some unit ∧
          (encode (renderedText node))[handleTapUp node paragraphs hit]? = some unit

theorem substring_getElem? {text : Units} {start stop offset : Nat} (ordered : start ≤ offset)
    (before : offset < stop) : (substring text start stop)[offset - start]? = text[offset]? := by
  have index : start + (offset - start) = offset := by omega
  unfold substring
  rw [List.getElem?_drop, index, List.getElem?_take_of_lt before]

section Tap

variable {node : AstNode} {leaf : LeafText}

/-- Core renders at a painted offset what the leaf paints there. -/
theorem leaf_unit (settled : node.settled = true) (inside : leaf ∈ blockLeaves node) {offset : Nat}
    (from_ : leaf.leadingDecorationWidth ≤ offset)
    (before : offset < leaf.leadingDecorationWidth + leaf.coreWidth) :
    ∃ unit, (encode leaf.rendered)[offset]? = some unit ∧
      (encode (renderedText node))[leaf.corePrefix + (offset - leaf.leadingDecorationWidth)]? =
        some unit := by
  have width := ownUnits_length inside
  have slice := (leaf_slice settled inside).2
  have short : offset - leaf.leadingDecorationWidth < leaf.ownUnits.length := by omega
  have own := List.getElem?_eq_getElem short
  refine ⟨leaf.ownUnits[offset - leaf.leadingDecorationWidth], ?_, ?_⟩
  · rw [← own]
    exact (substring_getElem? from_ before).symm
  · rw [← own, ← slice]
    have ordered : leaf.corePrefix ≤ leaf.corePrefix + (offset - leaf.leadingDecorationWidth) :=
      Nat.le_add_right _ _
    have bounded : leaf.corePrefix + (offset - leaf.leadingDecorationWidth) <
        leaf.corePrefix + leaf.coreWidth := by omega
    have unit : (substring (encode (renderedText node)) leaf.corePrefix
        (leaf.corePrefix + leaf.coreWidth))[leaf.corePrefix +
          (offset - leaf.leadingDecorationWidth) - leaf.corePrefix]? =
        (encode (renderedText node))[leaf.corePrefix + (offset - leaf.leadingDecorationWidth)]? :=
      substring_getElem? ordered bounded
    rw [Nat.add_sub_cancel_left] at unit
    exact unit.symm

theorem offset_inside {index offset : Nat} (found : (blockLeaves node)[index]? = some leaf)
    (from_ : leaf.leadingDecorationWidth ≤ offset)
    (before : offset < leaf.leadingDecorationWidth + leaf.coreWidth) :
    blockCoreRenderedOffset node index offset =
      leaf.corePrefix + (offset - leaf.leadingDecorationWidth) := by
  unfold blockCoreRenderedOffset
  rw [found]
  have clamped : clamp ((offset : Int) - leaf.leadingDecorationWidth) 0 leaf.coreWidth =
      offset - leaf.leadingDecorationWidth := by
    unfold clamp
    omega
  exact congrArg (leaf.corePrefix + ·) clamped

/-- Taps address the character under them exactly in a Block without tasks. -/
theorem taps_address_leaves_iff (settled : node.settled = true)
    (focusedLeafPath : Option (List Nat)) (activation : Bool) :
    TapsAddressLeaves node
        (collectParagraphs (BlockView.surface node focusedLeafPath activation).1) ↔
      tasks node = 0 := by
  have shown := surface_shows node focusedLeafPath activation
  unfold shownUnder at shown
  have lengths := shownParagraphs_length node
  rw [← leaves_length node 0] at lengths
  constructor
  · intro addresses
    have count := addresses.correspond.length_eq
    rw [shown] at count
    unfold blockLeaves at count
    omega
  · intro untasked
    have count : (collectParagraphs (BlockView.surface node focusedLeafPath activation).1).length =
        (blockLeaves node).length := by
      rw [← List.length_map Paragraph.shown, shown, lengths, untasked]
      rfl
    constructor
    · rw [shown]
      exact leaves_fit node untasked 0
    · intro hit index offset leaf here first found from_ before
      have inside : index < (blockLeaves node).length := (List.getElem?_eq_some_iff.mp found).1
      rw [← count] at inside
      have tapped : handleTapUp node _ hit = _ :=
        (handleTapUp_eq inside here first).trans (offset_inside found from_ before)
      refine ⟨tapped, ?_⟩
      rw [tapped]
      exact leaf_unit settled (List.mem_of_getElem? found) from_ before

end Tap

/-- Two tasks. -/
def checklist : AstNode :=
  .list false [.listItem [.paragraph [.text ⟨"ab".toList, false, false, false, false⟩]] (some true),
    .listItem [.paragraph [.text ⟨"cd".toList, false, false, false, false⟩]] (some false)]

def plainItems : AstNode :=
  .list false [.listItem [.paragraph [.text ⟨"ab".toList, false, false, false, false⟩]] none,
    .listItem [.image "cd".toList []] none]

theorem taps_address_plain_items :
    plainItems.settled = true ∧ TapsAddressLeaves plainItems
      (collectParagraphs (BlockView.surface plainItems (some [0, 0]) true).1) := by
  have settled : plainItems.settled = true := by decide
  refine ⟨settled, (taps_address_leaves_iff settled (some [0, 0]) true).mpr ?_⟩
  decide

/-- A tap on the first letter of the first task puts the caret into the second one. -/
theorem checklist_taps_wrong_item :
    checklist.settled = true ∧
      (collectParagraphs (BlockView.surface checklist none true).1).map Paragraph.shown =
        [.icon true, .text "ab".toList, .icon false, .text "cd".toList] ∧
      handleTapUp checklist (collectParagraphs (BlockView.surface checklist none true).1)
        (fun index => if index = 1 then some 0 else none) = 3 ∧
      ¬ TapsAddressLeaves checklist
        (collectParagraphs (BlockView.surface checklist none true).1) := by
  refine ⟨by decide, by decide, by decide, ?_⟩
  intro addresses
  have count := addresses.correspond.length_eq
  revert count
  decide

end Burlmd.Interface
