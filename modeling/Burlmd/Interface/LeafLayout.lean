import Burlmd.Interface.Emphasis
import Burlmd.Interface.Leaves
import Burlmd.Library.Tiling

/-!
# Where the leaves stand

The leaves tile what Core renders of a Block, so that painted offsets become rendered ones.
-/

namespace Burlmd.Interface

open Markdown
open Surrogates
open Tiling
open Utf8 (Text)
open Utf16

/-! ## Lengths -/

mutual

theorem inlineRenderedOne_eq (element : InlineElement) :
    inlineRenderedOne element = element.rendered := by
  cases element with
  | text run => simp [inlineRenderedOne, InlineElement.rendered]
  | link target_id exists_ content =>
    simp [inlineRenderedOne, InlineElement.rendered, inlineRendered_eq content]
  | externalLink url content =>
    simp [inlineRenderedOne, InlineElement.rendered, inlineRendered_eq content]

theorem inlineRendered_eq (content : List InlineElement) :
    inlineRendered content = renderedInlineText content := by
  cases content with
  | nil => simp [inlineRendered]
  | cons element rest =>
    simp [inlineRendered, inlineRenderedOne_eq element, inlineRendered_eq rest]

end

theorem inlineRenderedLength_eq (element : InlineElement) :
    inlineRenderedLength element = utf16Len element.rendered := by
  cases element with
  | text run => simp [inlineRenderedLength, InlineElement.rendered]
  | link target_id exists_ content =>
    simp [inlineRenderedLength, InlineElement.rendered, inlineRendered_eq]
  | externalLink url content =>
    simp [inlineRenderedLength, InlineElement.rendered, inlineRendered_eq]

theorem inlineRenderedLengthAll_eq (content : List InlineElement) :
    inlineRenderedLengthAll content = utf16Len (renderedInlineText content) := by
  have from_ (sum : Nat) : content.foldl (fun sum element => sum + inlineRenderedLength element) sum =
      sum + utf16Len (renderedInlineText content) := by
    induction content generalizing sum with
    | nil => simp [utf16Len]
    | cons element rest ih =>
      rw [List.foldl_cons, ih, inlineRenderedLength_eq, renderedInlineText_cons, utf16Len_append,
        Nat.add_assoc]
  exact (from_ 0).trans (Nat.zero_add _)

/-- Nodes joined with one separator. -/
theorem joinLines_cons (line : Text) (lines : List Text) :
    joinLines (line :: lines) = line ++ lines.flatMap ('\n' :: ·) := by
  induction lines generalizing line with
  | nil => simp [joinLines]
  | cons next rest ih =>
    have onward := ih next
    unfold joinLines at onward ⊢
    simp [onward]

theorem utf16Len_cons_line (text : Text) : utf16Len ('\n' :: text) = 1 + utf16Len text := rfl

mutual

/-- The length that the interface counts is the length of what Core renders. -/
theorem coreRenderedLength_eq (node : AstNode) (settled : node.settled = true) :
    coreRenderedLength node = utf16Len (renderedText node) := by
  cases node with
  | heading level content => simp [coreRenderedLength, renderedText, inlineRenderedLengthAll_eq]
  | paragraph content => simp [coreRenderedLength, renderedText, inlineRenderedLengthAll_eq]
  | list ordered items =>
    rw [AstNode.settled] at settled
    rw [coreRenderedLength, renderedText]
    exact joinedCoreLength_eq items settled
  | listItem content checked =>
    rw [AstNode.settled] at settled
    rw [coreRenderedLength, renderedText]
    exact joinedCoreLength_eq content settled
  | blockquote nodes =>
    rw [AstNode.settled] at settled
    rw [coreRenderedLength, renderedText]
    exact joinedCoreLength_eq nodes settled
  | codeBlock language code => simp [coreRenderedLength, renderedText]
  | thematicBreak => simp [coreRenderedLength, renderedText, utf16Len]
  | image alt_text url_or_path => simp [coreRenderedLength, renderedText]
  | suggestion base local_content incoming => simp [AstNode.settled] at settled

theorem joinedCoreLength_eq (nodes : List AstNode) (settled : settledEach nodes = true) :
    joinedCoreLength nodes = utf16Len (joinLines (renderedTexts nodes)) := by
  cases nodes with
  | nil => simp [joinedCoreLength, renderedTexts, joinLines, utf16Len]
  | cons node rest =>
    rw [settledEach, Bool.and_eq_true] at settled
    rw [joinedCoreLength, renderedTexts, joinLines_cons, utf16Len_append,
      coreRenderedLength_eq node settled.1, followingCoreLength_eq rest settled.2]

theorem followingCoreLength_eq (nodes : List AstNode) (settled : settledEach nodes = true) :
    followingCoreLength nodes = utf16Len ((renderedTexts nodes).flatMap ('\n' :: ·)) := by
  cases nodes with
  | nil => simp [followingCoreLength, renderedTexts, utf16Len]
  | cons node rest =>
    rw [settledEach, Bool.and_eq_true] at settled
    rw [followingCoreLength, renderedTexts, List.flatMap_cons, utf16Len_append,
      utf16Len_cons_line, coreRenderedLength_eq node settled.1, followingCoreLength_eq rest settled.2]

end

/-- `leavesEach` gives each sibling its start. -/
theorem siblingCoreStart_succ (node : AstNode) (rest : List AstNode) (index start : Nat) :
    siblingCoreStart (node :: rest) (index + 1) start =
      siblingCoreStart rest index (start + (coreRenderedLength node + 1)) := rfl

theorem leavesEach_eq (nodes : List AstNode) (start : Nat) :
    leavesEach nodes start =
      (List.range nodes.length).flatMap fun index =>
        (nodes[index]?.map fun node => leaves node (siblingCoreStart nodes index start)).getD [] := by
  induction nodes generalizing start with
  | nil => simp [leavesEach]
  | cons node rest ih =>
    rw [leavesEach, ih, List.length_cons, List.range_succ_eq_map, List.flatMap_cons,
      List.flatMap_map]
    rfl

/-! ## What each leaf is -/

/-- The Block that a leaf belongs to, and its own text unless it is the marker of an item. -/
structure Place where
  path : List Nat
  own : Option Text

def Place.below (index : Nat) (place : Place) : Place := { place with path := index :: place.path }

mutual

/-- The leaves of a node in the order of the document. -/
def places : AstNode → List Place
  | .heading _ content | .paragraph content => [⟨[], some (renderedInlineText content)⟩]
  | .list _ items => placesEach 0 items
  | .listItem content checked =>
      (if checked = none then [⟨[], none⟩] else []) ++ placesEach 0 content
  | .blockquote nodes => placesEach 0 nodes
  | .codeBlock _ code => [⟨[], some code⟩]
  | .thematicBreak => []
  | .image alt_text _ => [⟨[], some alt_text⟩]
  | .suggestion _ local_content _ => placesEach 0 local_content

def placesEach : Nat → List AstNode → List Place
  | _, [] => []
  | index, node :: rest => (places node).map (Place.below index) ++ placesEach (index + 1) rest

end

/-- What a leaf paints of its Block. -/
def LeafText.ownUnits (leaf : LeafText) : Units :=
  substring (encode leaf.rendered) leaf.leadingDecorationWidth
    (leaf.leadingDecorationWidth + leaf.coreWidth)

/-- What a leaf paints of its Block, and how wide it says that is. -/
def LeafText.shown (leaf : LeafText) : Units × Nat := (leaf.ownUnits, leaf.coreWidth)

def ownTexts (places : List Place) : List (Units × Nat) :=
  places.map fun place => (encode (place.own.getD []), utf16Len (place.own.getD []))

@[simp] theorem ownTexts_append (first second : List Place) :
    ownTexts (first ++ second) = ownTexts first ++ ownTexts second := List.map_append

@[simp] theorem ownTexts_below (places : List Place) (index : Nat) :
    ownTexts (places.map (Place.below index)) = ownTexts places := by
  unfold ownTexts
  rw [List.map_map]
  rfl

theorem ownUnits_text (text : Text) (corePrefix : Nat) :
    LeafText.ownUnits ⟨text, corePrefix, utf16Len text, 0⟩ = encode text := by
  unfold LeafText.ownUnits substring
  rw [Nat.zero_add, ← encode_length, List.take_length, List.drop_zero]

theorem ownUnits_inline (content : List InlineElement) (corePrefix : Nat) :
    LeafText.ownUnits ⟨inlineRendered content, corePrefix, inlineRenderedLengthAll content, 0⟩ =
      encode (renderedInlineText content) := by
  rw [inlineRendered_eq, inlineRenderedLengthAll_eq]
  exact ownUnits_text _ _

theorem ownUnits_image (alt_text : Text) (corePrefix : Nat) :
    LeafText.ownUnits ⟨imageOpening ++ alt_text ++ [']'], corePrefix, utf16Len alt_text,
      utf16Len imageOpening⟩ = encode alt_text := by
  unfold LeafText.ownUnits
  rw [encode_append, encode_append, ← encode_length, ← encode_length, ← List.length_append]
  exact substring_append _ _ _

theorem shown_inline (content : List InlineElement) (corePrefix : Nat) :
    LeafText.shown ⟨inlineRendered content, corePrefix, inlineRenderedLengthAll content, 0⟩ =
      (encode (renderedInlineText content), utf16Len (renderedInlineText content)) := by
  unfold LeafText.shown
  rw [ownUnits_inline, inlineRenderedLengthAll_eq]

theorem shown_marker (checked : Option Bool) (ordered : Bool) (index corePrefix : Nat) :
    (listItemMarker checked ordered index corePrefix).map LeafText.shown =
      ownTexts (if checked = none then [⟨[], none⟩] else []) := by
  cases checked with
  | some _ => rfl
  | none =>
    unfold listItemMarker ownTexts LeafText.shown LeafText.ownUnits substring
    simp [encode, utf16Len]

/-- An item of a List has its marker, and any other node what it has elsewhere. -/
theorem itemLeaves_cons (ordered : Bool) (number : Nat) (node : AstNode) (rest : List AstNode)
    (start : Nat) :
    (∃ content checked, node = .listItem content checked ∧
        itemLeaves ordered number (node :: rest) start =
          listItemMarker checked ordered number start ++ leavesEach content start ++
            itemLeaves ordered (number + 1) rest (start + (coreRenderedLength node + 1))) ∨
      itemLeaves ordered number (node :: rest) start = leaves node start ++
        itemLeaves ordered (number + 1) rest (start + (coreRenderedLength node + 1)) := by
  cases node with
  | listItem content checked =>
    refine Or.inl ⟨content, checked, rfl, ?_⟩
    rw [itemLeaves]
  | heading _ _ | paragraph _ | list _ _ | blockquote _ | codeBlock _ _ | thematicBreak
  | image _ _ | suggestion _ _ _ =>
    apply Or.inr
    rw [itemLeaves]
    intro _ _ never
    cases never

mutual

/-- The leaves paint the text of their Blocks, and markers none. -/
theorem leaves_shown (node : AstNode) (corePrefix : Nat) :
    (leaves node corePrefix).map LeafText.shown = ownTexts (places node) := by
  cases node with
  | heading level content =>
    rw [leaves, places, List.map_singleton, shown_inline]
    rfl
  | paragraph content =>
    rw [leaves, places, List.map_singleton, shown_inline]
    rfl
  | list ordered items =>
    rw [leaves, places]
    exact itemLeaves_shown ordered 0 0 items corePrefix
  | listItem content checked =>
    rw [leaves, places, List.map_append, ownTexts_append, shown_marker,
      leavesEach_shown 0 content corePrefix]
  | blockquote nodes =>
    rw [leaves, places]
    exact leavesEach_shown 0 nodes corePrefix
  | codeBlock language code =>
    rw [leaves, places, List.map_singleton, LeafText.shown, ownUnits_text]
    rfl
  | thematicBreak =>
    rw [leaves, places]
    rfl
  | image alt_text url_or_path =>
    rw [leaves, places, List.map_singleton, LeafText.shown, ownUnits_image]
    rfl
  | suggestion base local_content incoming =>
    rw [leaves, places]
    exact leavesEach_shown 0 local_content corePrefix

theorem leavesEach_shown (index : Nat) (nodes : List AstNode) (start : Nat) :
    (leavesEach nodes start).map LeafText.shown = ownTexts (placesEach index nodes) := by
  cases nodes with
  | nil =>
    rw [leavesEach, placesEach]
    rfl
  | cons node rest =>
    rw [leavesEach, placesEach, List.map_append, ownTexts_append, ownTexts_below,
      leaves_shown node start, leavesEach_shown (index + 1) rest]

theorem itemLeaves_shown (ordered : Bool) (number index : Nat) (items : List AstNode) (start : Nat) :
    (itemLeaves ordered number items start).map LeafText.shown =
      ownTexts (placesEach index items) := by
  cases items with
  | nil =>
    rw [itemLeaves, placesEach]
    rfl
  | cons node rest =>
    have own : (itemLeaves ordered number (node :: rest) start).map LeafText.shown =
        ownTexts (places node) ++ (itemLeaves ordered (number + 1) rest
          (start + (coreRenderedLength node + 1))).map LeafText.shown := by
      rcases itemLeaves_cons ordered number node rest start with
        ⟨content, checked, isItem, whole⟩ | whole
      · rw [whole, isItem, List.map_append, List.map_append, shown_marker,
          leavesEach_shown 0 content start, places, ownTexts_append]
      · rw [whole, List.map_append, leaves_shown node start]
    rw [own, placesEach, ownTexts_append, ownTexts_below, itemLeaves_shown ordered (number + 1)
      (index + 1) rest]

end

/-! ## Where each leaf stands -/

/-- A leaf and its start in what Core renders. -/
def LeafText.piece (leaf : LeafText) : Nat × Units := (leaf.corePrefix, leaf.ownUnits)

theorem joinLines_cons_cons (line next : Text) (lines : List Text) :
    joinLines (line :: next :: lines) = line ++ '\n' :: joinLines (next :: lines) := by
  rw [joinLines_cons, joinLines_cons, List.flatMap_cons]
  rfl

theorem encode_line (text : Text) : encode ('\n' :: text) = lineFeed :: encode text := rfl

/-- The leaves of a node ahead of those of its later siblings. -/
theorem tiles_joined {node : AstNode} {rest : List AstNode} {start : Nat}
    {own onward : List LeafText} (settled : node.settled = true)
    (tiles : Tiles (· = lineFeed) start (own.map LeafText.piece) (encode (renderedText node)))
    (later : Tiles (· = lineFeed) (start + (coreRenderedLength node + 1))
      (onward.map LeafText.piece) (encode (joinLines (renderedTexts rest))))
    (none_ : rest = [] → onward = []) :
    Tiles (· = lineFeed) start ((own ++ onward).map LeafText.piece)
      (encode (joinLines (renderedTexts (node :: rest)))) := by
  cases rest with
  | nil =>
    rw [none_ rfl, List.append_nil, renderedTexts, renderedTexts, joinLines_cons,
      List.flatMap_nil, List.append_nil]
    exact tiles
  | cons next others =>
    rw [List.map_append, renderedTexts, renderedTexts, joinLines_cons_cons, encode_append,
      encode_line]
    apply tiles.append rfl
    rw [encode_length, ← coreRenderedLength_eq node settled, Nat.add_assoc]
    rw [renderedTexts] at later
    exact later

theorem tiles_marker (checked : Option Bool) (ordered : Bool) (index start : Nat)
    {onward : List LeafText} {whole : Units}
    (tiles : Tiles (· = lineFeed) start (onward.map LeafText.piece) whole) :
    Tiles (· = lineFeed) start
      ((listItemMarker checked ordered index start ++ onward).map LeafText.piece) whole := by
  have own := shown_marker checked ordered index start
  cases checked with
  | some _ => exact tiles
  | none =>
    unfold listItemMarker at own ⊢
    have empty := congrArg Prod.fst (List.cons.inj own).1
    unfold LeafText.shown at empty
    dsimp only at empty
    refine ⟨[], whole, ?_, List.forall_mem_nil _, rfl, ?_⟩
    · unfold LeafText.piece
      rw [empty]
      rfl
    · unfold LeafText.piece
      rw [empty]
      exact tiles

mutual

/-- The leaves tile what Core renders of the node. -/
theorem leaves_tile (node : AstNode) (settled : node.settled = true) (start : Nat) :
    Tiles (· = lineFeed) start ((leaves node start).map LeafText.piece)
      (encode (renderedText node)) := by
  cases node with
  | heading level content =>
    rw [leaves, renderedText, List.map_singleton, LeafText.piece, ownUnits_inline]
    exact Tiles.single _ _
  | paragraph content =>
    rw [leaves, renderedText, List.map_singleton, LeafText.piece, ownUnits_inline]
    exact Tiles.single _ _
  | list ordered items =>
    rw [AstNode.settled] at settled
    rw [leaves, renderedText]
    exact itemLeaves_tile ordered 0 items settled start
  | listItem content checked =>
    rw [AstNode.settled] at settled
    rw [leaves, renderedText]
    exact tiles_marker checked false 0 start (leavesEach_tile content settled start)
  | blockquote nodes =>
    rw [AstNode.settled] at settled
    rw [leaves, renderedText]
    exact leavesEach_tile nodes settled start
  | codeBlock language code =>
    rw [leaves, renderedText, List.map_singleton, LeafText.piece, ownUnits_text]
    exact Tiles.single _ _
  | thematicBreak =>
    rw [leaves, renderedText]
    exact Tiles.nil _
  | image alt_text url_or_path =>
    rw [leaves, renderedText, List.map_singleton, LeafText.piece, ownUnits_image]
    exact Tiles.single _ _
  | suggestion base local_content incoming => simp [AstNode.settled] at settled

theorem leavesEach_tile (nodes : List AstNode) (settled : settledEach nodes = true) (start : Nat) :
    Tiles (· = lineFeed) start ((leavesEach nodes start).map LeafText.piece)
      (encode (joinLines (renderedTexts nodes))) := by
  cases nodes with
  | nil =>
    rw [leavesEach, renderedTexts]
    exact Tiles.nil _
  | cons node rest =>
    rw [settledEach, Bool.and_eq_true] at settled
    rw [leavesEach]
    apply tiles_joined settled.1 (leaves_tile node settled.1 start)
      (leavesEach_tile rest settled.2 _)
    intro empty
    rw [empty, leavesEach]

theorem itemLeaves_tile (ordered : Bool) (number : Nat) (items : List AstNode)
    (settled : settledEach items = true) (start : Nat) :
    Tiles (· = lineFeed) start ((itemLeaves ordered number items start).map LeafText.piece)
      (encode (joinLines (renderedTexts items))) := by
  cases items with
  | nil =>
    rw [itemLeaves, renderedTexts]
    exact Tiles.nil _
  | cons node rest =>
    rw [settledEach, Bool.and_eq_true] at settled
    have later := itemLeaves_tile ordered (number + 1) rest settled.2
      (start + (coreRenderedLength node + 1))
    have none_ : rest = [] → itemLeaves ordered (number + 1) rest
        (start + (coreRenderedLength node + 1)) = [] := by
      intro empty
      rw [empty, itemLeaves]
    rcases itemLeaves_cons ordered number node rest start with
      ⟨content, checked, isItem, whole⟩ | whole
    · rw [whole]
      apply tiles_joined settled.1 ?_ later none_
      have inner := settled.1
      rw [isItem, AstNode.settled] at inner
      rw [isItem, renderedText]
      exact tiles_marker checked ordered number start (leavesEach_tile content inner start)
    · rw [whole]
      exact tiles_joined settled.1 (leaves_tile node settled.1 start) later none_

end

end Burlmd.Interface
