import Burlmd.Interface.LinkOrder

/-!
# Rendering follows the plans

Each way of rendering a Block draws what its plan says, with a leaf of it edited or without.
-/

namespace Burlmd.Interface

open Deferred
open Markdown
open Utf8 (Text)

/-! ## Widgets that draw nothing -/

/-- The widget leaves the counter alone. -/
def Idle (widget : Widget) : Prop := ∀ after, (widget.inflate after).2 = after

namespace Idle

variable {widget : Widget} {widgets : List Widget}

theorem nil : Idle (.children []) := fun _ => rfl

theorem cons (first : Idle widget) (rest : Idle (.children widgets)) :
    Idle (.children (widget :: widgets)) := by
  intro after
  exact (rest (widget.inflate after).2).trans (first after)

theorem text (content : Text) : Idle (.text content) := fun _ => rfl

theorem marker (checked : Option Bool) (marker : Text) : Idle (markerWidget checked marker) := by
  cases checked with
  | none => exact fun _ => rfl
  | some _ => exact fun _ => rfl

theorem row (checked : Option Bool) (marker : Text) (body : Idle widget) :
    Idle (listItemRow checked marker widget) := (Idle.marker checked marker).cons (body.cons nil)

theorem edited (idle : Idle widget) : Idle (.children [.baseline widget, .editor]) := idle

end Idle

/-- The rule under a heading of the first level draws nothing. -/
theorem transparent_ruled (level : Nat) : Transparent fun body : Widget =>
    if level = 1 then .built (.children [body, .blank]) else body := by
  intro widget after
  dsimp only
  split
  · exact ⟨rfl, List.append_nil _⟩
  · exact ⟨rfl, rfl⟩

mutual

theorem renderBlock_idle (node : AstNode) : Idle (renderBlock node) := by
  cases node with
  | heading level content => exact fun after => (transparent_ruled level _ after).1
  | list ordered items => exact renderBlockItems_idle ordered 0 items
  | listItem content checked => exact Idle.row checked _ (renderBlockEach_idle content)
  | blockquote nodes => exact renderBlockEach_idle nodes
  | suggestion base local_content incoming => exact renderBlockEach_idle local_content
  | paragraph _ | codeBlock _ _ | thematicBreak | image _ _ => exact fun _ => rfl

theorem renderBlockEach_idle (nodes : List AstNode) : Idle (.children (renderBlockEach nodes)) := by
  cases nodes with
  | nil => exact Idle.nil
  | cons node rest => exact (renderBlock_idle node).cons (renderBlockEach_idle rest)

theorem renderBlockItems_idle (ordered : Bool) (index : Nat) (items : List AstNode) :
    Idle (.children (renderBlockItems ordered index items)) := by
  cases items with
  | nil => exact Idle.nil
  | cons node rest =>
    have onward := renderBlockItems_idle ordered (index + 1) rest
    cases node with
    | listItem content checked => exact (Idle.row checked _ (renderBlockEach_idle content)).cons onward
    | heading _ _ | paragraph _ | list _ _ | blockquote _ | codeBlock _ _ | thematicBreak
    | image _ _ | suggestion _ _ _ => exact (renderBlock_idle _).cons onward

end

/-- An edited leaf has its formatted text as a hidden baseline only. -/
theorem focusedSlot_still (node : AstNode) : Still (focusedSlot node .editor) := by
  intro after
  cases node with
  | heading level content => exact transparent_ruled level _ after
  | codeBlock language code => exact ⟨rfl, rfl⟩
  | paragraph _ | list _ _ | listItem _ _ | blockquote _ | thematicBreak | image _ _
  | suggestion _ _ _ => exact ⟨(renderBlock_idle _).edited after, rfl⟩

/-! ## Widgets around a build -/

theorem transparent_built : Transparent .built := fun _ _ => ⟨rfl, rfl⟩

theorem transparent_listItemRow (checked : Option Bool) (marker : Text) :
    Transparent (listItemRow checked marker) := by
  intro widget after
  cases checked with
  | none => exact ⟨rfl, List.append_nil _⟩
  | some _ => exact ⟨rfl, List.append_nil _⟩

theorem transparent_headingSlot (level : Nat) :
    Transparent fun formatted => headingSlot level formatted none := transparent_ruled level

/-! ## Nodes that are not edited -/

section View

variable {identities : List LinkIdentity}

theorem paragraph_draws (content : List InlineElement) :
    Draws identities
      (fun now => (.paragraph (.rich (interactiveInlines (linkSpan identities) content now).1),
        (interactiveInlines (linkSpan identities) content now).2))
      (.draw (linkCount content)) content where
  total := rfl
  eager now := (interactiveInlines_draws content now).1
  deferred _ _ := rfl
  painted now _ := (interactiveInlines_draws content now).2

mutual

theorem renderBlockForView_draws (node : AstNode) :
    Draws identities (renderBlockForView (linkSpan identities) node) (plan node) (elements node) := by
  cases node with
  | heading level content => exact (paragraph_draws content).wrap (transparent_headingSlot level)
  | paragraph content => exact paragraph_draws content
  | list ordered items => exact renderItemsForView_draws ordered 0 items
  | listItem content checked =>
    exact (renderEachForView_draws content).wrap (transparent_listItemRow checked _)
  | blockquote nodes => exact (renderEachForView_draws nodes).wrap transparent_built
  | suggestion base local_content incoming => exact renderEachForView_draws local_content
  | codeBlock _ _ | thematicBreak | image _ _ =>
    exact Draws.still fun _ => ⟨rfl, rfl⟩

theorem renderEachForView_draws (nodes : List AstNode) :
    DrawsEach identities (renderEachForView (linkSpan identities) nodes) (planEach nodes)
      (elementsEach nodes) := by
  cases nodes with
  | nil => exact Draws.nil
  | cons node rest => exact (renderBlockForView_draws node).cons (renderEachForView_draws rest)

theorem renderItemsForView_draws (ordered : Bool) (index : Nat) (items : List AstNode) :
    DrawsEach identities (renderItemsForView (linkSpan identities) ordered index items)
      (planItems items) (elementsEach items) := by
  cases items with
  | nil => exact Draws.nil
  | cons node rest =>
    have onward := renderItemsForView_draws ordered (index + 1) rest
    cases node with
    | listItem content checked =>
      have body := (Draws.later (renderEachForView_draws content)).wrap
        (transparent_listItemRow checked (itemMarker ordered index))
      exact body.cons onward
    | heading _ _ | paragraph _ | list _ _ | blockquote _ | codeBlock _ _ | thematicBreak
    | image _ _ | suggestion _ _ _ => exact (renderBlockForView_draws _).cons onward

end

end View

/-! ## Children, one of which has the edited leaf -/

section Indexed

variable {identities : List LinkIdentity} {render : Nat → Render} {planned : AstNode → Plan}
  {nodes : List AstNode}

theorem renderIndexed_append (index : Nat) (first second : List AstNode) (now : Nat) :
    renderIndexed render index (first ++ second) now =
      ((renderIndexed render index first now).1 ++ (renderIndexed render (index + first.length) second
          (renderIndexed render index first now).2).1,
        (renderIndexed render (index + first.length) second
          (renderIndexed render index first now).2).2) := by
  induction first generalizing index now with
  | nil => rfl
  | cons node rest ih =>
    have next : index + (node :: rest).length = index + 1 + rest.length := by
      rw [List.length_cons]
      omega
    rw [next, List.cons_append, renderIndexed, renderIndexed, ih]
    rfl

theorem renderIndexed_draws (index : Nat)
    (each : ∀ number, index ≤ number → number < index + nodes.length → ∀ node,
      Draws identities (render number node) (planned node) (elements node)) :
    DrawsEach identities (renderIndexed render index nodes) (Plan.all (nodes.map planned))
      (elementsEach nodes) := by
  induction nodes generalizing index with
  | nil => exact Draws.nil
  | cons node rest ih =>
    rw [List.length_cons] at each
    apply Draws.cons (each index (Nat.le_refl _) (by omega) node)
    apply ih
    intro number from_ before
    exact each number (by omega) (by omega)

theorem elementsEach_append (first second : List AstNode) :
    elementsEach (first ++ second) = elementsEach first ++ elementsEach second := by
  induction first with
  | nil => rfl
  | cons node rest ih =>
    rw [List.cons_append, elementsEach, elementsEach, ih, List.append_assoc]

/-- One child is built another way than its siblings. -/
theorem renderIndexed_around {childIndex : Nat} {child : AstNode} {own : Plan}
    {content : List InlineElement} (found : nodes[childIndex]? = some child)
    (focused : Draws identities (render childIndex child) own content)
    (each : ∀ number ≠ childIndex, ∀ node,
      Draws identities (render number node) (planned node) (elements node)) :
    DrawsEach identities (renderIndexed render 0 nodes)
      (.both (Plan.all ((nodes.take childIndex).map planned))
        (.both own (Plan.all ((nodes.drop (childIndex + 1)).map planned))))
      (elementsEach (nodes.take childIndex) ++
        (content ++ elementsEach (nodes.drop (childIndex + 1)))) := by
  rcases List.getElem?_eq_some_iff.mp found with ⟨inside, isChild⟩
  have cut : nodes = nodes.take childIndex ++ child :: nodes.drop (childIndex + 1) := by
    rw [← isChild, List.getElem_cons_drop, List.take_append_drop]
  have length : 0 + (nodes.take childIndex).length = childIndex := by
    rw [List.length_take]
    omega
  have ahead : DrawsEach identities (renderIndexed render 0 (nodes.take childIndex))
      (Plan.all ((nodes.take childIndex).map planned)) (elementsEach (nodes.take childIndex)) := by
    apply renderIndexed_draws 0
    intro number _ before
    exact each number (by omega)
  have behind : DrawsEach identities
      (renderIndexed render (childIndex + 1) (nodes.drop (childIndex + 1)))
      (Plan.all ((nodes.drop (childIndex + 1)).map planned))
      (elementsEach (nodes.drop (childIndex + 1))) := by
    apply renderIndexed_draws
    intro number from_ _
    exact each number (by omega)
  have whole := Draws.append ahead (focused.cons behind)
  have same : renderIndexed render 0 nodes = fun now =>
      renderIndexed render 0 (nodes.take childIndex ++ child :: nodes.drop (childIndex + 1)) now := by
    rw [← cut]
  rw [same]
  simp only [renderIndexed_append, length]
  exact whole

end Indexed

/-! ## A Block with an edited leaf -/

/-- The children that a path may lead to. -/
def childNodes : AstNode → List AstNode
  | .list _ children | .listItem children _ | .blockquote children | .suggestion _ children _ =>
      children
  | .heading .. | .paragraph _ | .codeBlock .. | .image .. | .thematicBreak => []

/-- The path leads to a leaf. -/
def LeafAt (path : List Nat) (node : AstNode) : Prop :=
  ∃ leaf, nodeAtPath path node = some leaf ∧ childNodes leaf = []

theorem nodeAtPath_cons (index : Nat) (remaining : List Nat) (node : AstNode) :
    nodeAtPath (index :: remaining) node = (childNodes node)[index]?.bind (nodeAtPath remaining) := by
  cases node with
  | list _ _ | listItem _ _ | blockquote _ | suggestion _ _ _ => rfl
  | heading _ _ | paragraph _ | codeBlock _ _ | image _ _ | thematicBreak => rfl

theorem LeafAt.child {index : Nat} {remaining : List Nat} {node : AstNode}
    (leafAt : LeafAt (index :: remaining) node) :
    ∃ child, (childNodes node)[index]? = some child ∧ LeafAt remaining child := by
  rcases leafAt with ⟨leaf, found, isLeaf⟩
  rw [nodeAtPath_cons] at found
  rcases Option.bind_eq_some_iff.mp found with ⟨child, at_, below⟩
  exact ⟨child, at_, leaf, below, isLeaf⟩

section Outside

variable {index : Nat} {remaining : List Nat} {node child : AstNode}

theorem elementsOutside_found (found : (childNodes node)[index]? = some child) :
    elementsOutside (index :: remaining) node = elementsEach ((childNodes node).take index) ++
      (elementsOutside remaining child ++ elementsEach ((childNodes node).drop (index + 1))) := by
  cases node with
  | list _ children | listItem children _ | blockquote children | suggestion _ children _ =>
    have at_ : children[index]? = some child := found
    rw [elementsOutside, at_]
    rfl
  | heading _ _ | paragraph _ | codeBlock _ _ | image _ _ | thematicBreak => cases found

theorem planOutside_found_item {ordered : Bool} {items : List AstNode}
    (found : items[index]? = some child) :
    planOutside (index :: remaining) (.list ordered items) = .both (planItems (items.take index))
      (.both (planOutside remaining child) (planItems (items.drop (index + 1)))) := by
  rw [planOutside, found]

theorem planOutside_found (found : (childNodes node)[index]? = some child)
    (other : ∀ ordered items, node ≠ .list ordered items) :
    planOutside (index :: remaining) node = .both (planEach ((childNodes node).take index))
      (.both (planOutside remaining child) (planEach ((childNodes node).drop (index + 1)))) := by
  cases node with
  | list ordered items => exact absurd rfl (other ordered items)
  | listItem children _ | blockquote children | suggestion _ children _ =>
    have at_ : children[index]? = some child := found
    rw [planOutside, at_]
    rfl
  | heading _ _ | paragraph _ | codeBlock _ _ | image _ _ | thematicBreak => cases found

end Outside

section Focused

variable {identities : List LinkIdentity} {renderSibling renderFocused : Render}
  (sibling : ∀ node, Draws identities (renderSibling node) (plan node) (elements node))

include sibling

theorem renderListItemWith_draws (content : List AstNode) (checked : Option Bool) (marker : Text) :
    Draws identities
      (fun now => (renderListItemWith content checked marker renderSibling, now))
      (.later (planEach content)) (elementsEach content) := by
  have body : DrawsEach identities (renderIndexed (fun _ => renderSibling) 0 content) _ _ :=
    renderIndexed_draws 0 fun _ _ _ => sibling
  rw [planEach_eq]
  exact (Draws.later body).wrap (transparent_listItemRow checked marker)

theorem either_draws {own : Plan} {content : List InlineElement} {child : AstNode} {childIndex : Nat}
    {nodes : List AstNode} (found : nodes[childIndex]? = some child)
    (focused : Draws identities (renderFocused child) own content) :
    DrawsEach identities
      (renderIndexed
        (fun index => if index = childIndex then renderFocused else renderSibling) 0 nodes)
      (.both (planEach (nodes.take childIndex))
        (.both own (planEach (nodes.drop (childIndex + 1)))))
      (elementsEach (nodes.take childIndex) ++
        (content ++ elementsEach (nodes.drop (childIndex + 1)))) := by
  rw [planEach_eq, planEach_eq]
  apply renderIndexed_around found
  · rw [if_pos rfl]
    exact focused
  · intro number other
    rw [if_neg other]
    exact sibling

theorem renderFocusedListItem_draws {own : Plan} {inline : List InlineElement} {child : AstNode}
    {first : Nat} {content : List AstNode} (found : content[first]? = some child)
    (focused : Draws identities (renderFocused child) own inline) (checked : Option Bool)
    (marker : Text) :
    Draws identities
      (renderFocusedListItem content checked marker (some first) renderFocused renderSibling)
      (.both (planEach (content.take first)) (.both own (planEach (content.drop (first + 1)))))
      (elementsEach (content.take first) ++
        (inline ++ elementsEach (content.drop (first + 1)))) := by
  have inner := (either_draws sibling found focused).wrap (transparent_listItemRow checked marker)
  apply inner.of_eq
  intro now
  unfold renderFocusedListItem
  simp only [Option.some.injEq]

theorem renderListChild_draws (ordered : Bool) (first : Option Nat) {childIndex index : Nat}
    {renderDeeper : Render} (other : index ≠ childIndex) (item : AstNode) :
    Draws identities
      (renderListChild ordered childIndex first renderFocused renderDeeper renderSibling index item)
      (itemPlan item) (elements item) := by
  unfold renderListChild
  simp only [if_neg other]
  cases item with
  | listItem content checked =>
    rw [itemPlan, elements]
    exact renderListItemWith_draws sibling content checked _
  | heading _ _ | paragraph _ | list _ _ | blockquote _ | codeBlock _ _ | thematicBreak
  | image _ _ | suggestion _ _ _ => exact sibling _

/-- A Block with an edited leaf draws what its other leaves draw. -/
theorem renderBlockWithFocusedLeaf_draws (path : List Nat) (node : AstNode)
    (leafAt : LeafAt path node) :
    Draws identities (renderBlockWithFocusedLeaf renderSibling path node) (planOutside path node)
      (elementsOutside path node) := by
  cases path with
  | nil => exact Draws.still (focusedSlot_still node)
  | cons childIndex remaining =>
    rcases leafAt.child with ⟨child, found, below⟩
    have inside := (List.getElem?_eq_some_iff.mp found).1
    have focused := renderBlockWithFocusedLeaf_draws remaining child below
    cases node with
    | list ordered items =>
      have at_ : items[childIndex]? = some child := found
      have chosen : Draws identities
          (renderListChild ordered childIndex remaining.head?
            (renderBlockWithFocusedLeaf renderSibling remaining)
            (renderDeeper renderSibling remaining) renderSibling childIndex child)
          (planOutside remaining child) (elementsOutside remaining child) := by
        unfold renderListChild
        simp only [if_pos]
        cases child with
        | listItem content checked =>
          cases remaining with
          | nil =>
            -- A path ends at an item only if the item is empty.
            rcases below with ⟨leaf, self, isLeaf⟩
            rw [← Option.some.inj self] at isLeaf
            have empty : content = [] := isLeaf
            rw [empty]
            exact Draws.nil.wrap (transparent_listItemRow checked _)
          | cons first deeper =>
            rcases below.child with ⟨inner, innerFound, deepest⟩
            have leaf := renderBlockWithFocusedLeaf_draws deeper inner deepest
            rw [planOutside_found innerFound (by intros; intro never; cases never),
              elementsOutside_found innerFound]
            exact renderFocusedListItem_draws sibling innerFound leaf checked _
        | heading _ _ | paragraph _ | list _ _ | blockquote _ | codeBlock _ _ | thematicBreak
        | image _ _ | suggestion _ _ _ => exact focused
      have whole := renderIndexed_around at_ chosen
        fun number other => renderListChild_draws sibling ordered _ other
      rw [← planItems_eq, ← planItems_eq] at whole
      rw [planOutside_found_item at_, elementsOutside_found found]
      apply whole.of_eq
      intro now
      rw [renderBlockWithFocusedLeaf_list]
      exact if_pos inside
    | listItem content checked =>
      have whole := renderFocusedListItem_draws sibling found focused checked (itemMarker false 0)
      rw [planOutside_found found (by intros; intro never; cases never), elementsOutside_found found]
      exact whole.of_eq fun _ => if_pos inside
    | blockquote nodes =>
      have whole := (either_draws sibling found focused).wrap transparent_built
      rw [planOutside_found found (by intros; intro never; cases never), elementsOutside_found found]
      exact whole.of_eq fun _ => if_pos inside
    | suggestion base local_content incoming =>
      have whole := either_draws sibling found focused
      rw [planOutside_found found (by intros; intro never; cases never), elementsOutside_found found]
      exact Draws.of_eq whole fun _ => if_pos inside
    | heading _ _ | paragraph _ | codeBlock _ _ | thematicBreak | image _ _ =>
      exact absurd inside (Nat.not_lt_zero _)
termination_by path.length

end Focused

end Burlmd.Interface
