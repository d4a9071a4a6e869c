import Burlmd.Interface.Leaves

/-!
# The widgets of a Block

A Block is built into widgets, which are inflated when the build has returned: the callback of a
Builder runs then, depth first and in the order of the children. Internal Links draw their
identities from one counter, whichever of the two reaches them. Of layout and style only what
decides which text is painted is kept.
-/

namespace Burlmd.Interface

open Markdown
open Okf (ConceptId)
open Utf8 (Text)

/-! ## Internal Links -/

structure InternalLink where
  targetId : ConceptId
  exists_ : Bool
  title : Text

def internalLinksInInlines : List InlineElement → List InternalLink
  | [] => []
  | .link targetId exists_ content :: rest =>
      ⟨targetId, exists_, inlineRendered content⟩ :: internalLinksInInlines rest
  | _ :: rest => internalLinksInInlines rest

mutual

def internalLinks : AstNode → List InternalLink
  | .paragraph content | .heading _ content => internalLinksInInlines content
  | .list _ items => internalLinksEach items
  | .listItem content _ => internalLinksEach content
  | .blockquote nodes => internalLinksEach nodes
  | .suggestion _ local_content _ => internalLinksEach local_content
  | .codeBlock .. | .image .. | .thematicBreak => []

def internalLinksEach : List AstNode → List InternalLink
  | [] => []
  | node :: rest => internalLinks node ++ internalLinksEach rest

end

def internalLinkCountBefore (nodes : List AstNode) (stop : Nat) : Nat :=
  (nodes.take stop).foldl (fun count node => count + (internalLinks node).length) 0

def internalLinkPrefixForPath : List Nat → AstNode → Nat
  | [], _ => 0
  | index :: remaining, node =>
      match node with
      | .list _ children | .listItem children _ | .blockquote children
      | .suggestion _ children _ =>
          match children[index]? with
          | some child =>
              internalLinkCountBefore children index + internalLinkPrefixForPath remaining child
          | none => 0
      | _ => 0

/-- The Links that stay painted while the leaf at a path is edited. -/
def internalLinksOutsideFocusedPath (node : AstNode) (relativeLeafPath : List Nat) :
    List InternalLink :=
  match nodeAtPath relativeLeafPath node with
  | none => internalLinks node
  | some focusedNode =>
      let all := internalLinks node
      let start := internalLinkPrefixForPath relativeLeafPath node
      let stop := start + (internalLinks focusedNode).length
      all.take start ++ all.drop stop

def activeLinks (node : AstNode) (focusedLeafPath : Option (List Nat)) : List InternalLink :=
  match focusedLeafPath with
  | none => internalLinks node
  | some path => internalLinksOutsideFocusedPath node path

structure LinkIdentity where
  targetId : ConceptId
  occurrence : Nat
  deriving DecidableEq

/-- `occurrences` has the last occurrence that was given to a target. -/
def linkIdentitiesFrom (occurrences : ConceptId → Option Nat) : List InternalLink → List LinkIdentity
  | [] => []
  | link :: rest =>
      let occurrence := match occurrences link.targetId with
        | none => 0
        | some count => count + 1
      ⟨link.targetId, occurrence⟩ ::
        linkIdentitiesFrom (Function.update occurrences link.targetId (some occurrence)) rest

def linkIdentities (links : List InternalLink) : List LinkIdentity :=
  linkIdentitiesFrom (fun _ => none) links

/-! ## Spans -/

/-- What a paragraph paints. A Link keeps the target of the Link it paints, and the identity whose
recognizer it was given. -/
inductive InlineSpan where
  | text (content : Text) (recognizer : Option LinkIdentity)
  | group (children : List InlineSpan)
  | link (targetId : ConceptId) (identity : Option LinkIdentity) (children : List InlineSpan)

mutual

def renderInline : InlineElement → InlineSpan
  | .text run => .text run.content none
  | .link target_id _ content => .link target_id none (renderInlines content)
  | .externalLink _ content => .group (renderInlines content)

def renderInlines : List InlineElement → List InlineSpan
  | [] => []
  | element :: rest => renderInline element :: renderInlines rest

end

mutual

/-- A recognizer on each painted leaf of a Link. -/
def linkElementWithRecognizer (recognizer : Option LinkIdentity) : InlineElement → InlineSpan
  | .text run => .text run.content recognizer
  | .link target_id _ content =>
      .link target_id recognizer (linkContentWithRecognizer recognizer content)
  | .externalLink _ content => .group (linkContentWithRecognizer recognizer content)

def linkContentWithRecognizer (recognizer : Option LinkIdentity) :
    List InlineElement → List InlineSpan
  | [] => []
  | element :: rest =>
      linkElementWithRecognizer recognizer element :: linkContentWithRecognizer recognizer rest

end

/-- How an internal Link is rendered, which may draw from the counter. -/
abbrev LinkSpan := ConceptId → Bool → List InlineElement → Nat → InlineSpan × Nat

/-- The span takes the next identity; behind the last one the list has none to give. -/
def linkSpan (identities : List LinkIdentity) : LinkSpan :=
  fun targetId _ content renderedLinkIndex =>
    let identity := identities[renderedLinkIndex]?
    (.link targetId identity (linkContentWithRecognizer identity content), renderedLinkIndex + 1)

def interactiveInlines (linkSpan : LinkSpan) : List InlineElement → Nat → List InlineSpan × Nat
  | [], renderedLinkIndex => ([], renderedLinkIndex)
  | .link targetId exists_ content :: rest, renderedLinkIndex =>
      let span := linkSpan targetId exists_ content renderedLinkIndex
      let spans := interactiveInlines linkSpan rest span.2
      (span.1 :: spans.1, spans.2)
  | element :: rest, renderedLinkIndex =>
      let spans := interactiveInlines linkSpan rest renderedLinkIndex
      (renderInline element :: spans.1, spans.2)

/-! ## Widgets -/

/-- One painted `RenderParagraph`. -/
inductive Paragraph where
  | rich (spans : List InlineSpan)
  | icon (checked : Bool)

inductive Widget where
  /-- Space, a rule, or any other widget without text. -/
  | blank
  | paragraph (painted : Paragraph)
  /-- The raw field. -/
  | editor
  /-- Laid out, but neither painted nor hit. -/
  | baseline (child : Widget)
  | nonDocumentText (child : Widget)
  | beside (first second : Widget)
  /-- The callback and the counter that it leaves behind. -/
  | builder (callback : Nat → Widget) (counter : Nat → Nat)

namespace Widget

def text (content : Text) : Widget := .paragraph (.rich [.text content none])

/-- The children of a row, a column or a stack in their order. -/
def children (widgets : List Widget) : Widget := widgets.foldr beside blank

/-- A Builder around what exists already. -/
def built (child : Widget) : Widget := .builder (fun _ => child) id

/-- A Builder whose callback builds its children. -/
def deferred (callback : Nat → List Widget × Nat) : Widget :=
  .builder (fun renderedLinkIndex => children (callback renderedLinkIndex).1)
    (fun renderedLinkIndex => (callback renderedLinkIndex).2)

end Widget

/-- How a node is rendered, which may draw from the counter. -/
abbrev Render := AstNode → Nat → Widget × Nat

/-- Children in their order, each with its index. -/
def renderIndexed (render : Nat → Render) : Nat → List AstNode → Nat → List Widget × Nat
  | _, [], renderedLinkIndex => ([], renderedLinkIndex)
  | index, node :: rest, renderedLinkIndex =>
      let widget := render index node renderedLinkIndex
      let widgets := renderIndexed render (index + 1) rest widget.2
      (widget.1 :: widgets.1, widgets.2)

def markerWidget (checked : Option Bool) (marker : Text) : Widget :=
  match checked with
  | some checked => .built (.paragraph (.icon checked))
  | none => .built (.text marker)

def itemMarker (ordered : Bool) (index : Nat) : Text :=
  if ordered then (toString (index + 1)).toList ++ ['.'] else ['•']

def headingSlot (level : Nat) (formatted : Widget) (field : Option Widget) : Widget :=
  let body := match field with
    | none => formatted
    | some field => .children [.baseline formatted, field]
  if level = 1 then .built (.children [body, .blank]) else body

/-- The header has the language, and beside it a button that copies the code. -/
def codeBlockSlot (language : Option Text) (code : Text) (field : Option Widget) : Widget :=
  let formattedBody := .text code
  .children [.nonDocumentText (.text (language.getD "code".toList)),
    match field with
    | none => formattedBody
    | some field => .children [.baseline formattedBody, field]]

/-- The marker of an item beside its body. -/
def listItemRow (checked : Option Bool) (marker : Text) (body : Widget) : Widget :=
  .children [markerWidget checked marker, body]

mutual

def renderBlock : AstNode → Widget
  | .heading level content =>
      headingSlot level (.paragraph (.rich (renderInlines content))) none
  | .paragraph content => .paragraph (.rich (renderInlines content))
  | .list ordered items => .children (renderBlockItems ordered 0 items)
  | .listItem content checked =>
      listItemRow checked (itemMarker false 0) (.built (.children (renderBlockEach content)))
  | .blockquote nodes => .built (.children (renderBlockEach nodes))
  | .codeBlock language code => codeBlockSlot language code none
  | .thematicBreak => .built .blank
  | .image alt_text _ => .text (imageOpening ++ alt_text ++ [']'])
  | .suggestion _ local_content _ => .children (renderBlockEach local_content)

def renderBlockEach : List AstNode → List Widget
  | [] => []
  | node :: rest => renderBlock node :: renderBlockEach rest

def renderBlockItems (ordered : Bool) : Nat → List AstNode → List Widget
  | _, [] => []
  | index, .listItem content checked :: rest =>
      listItemRow checked (itemMarker ordered index) (.built (.children (renderBlockEach content))) ::
        renderBlockItems ordered (index + 1) rest
  | index, node :: rest => renderBlock node :: renderBlockItems ordered (index + 1) rest

end

mutual

def renderBlockForView (linkSpan : LinkSpan) : AstNode → Nat → Widget × Nat
  | .heading level content, renderedLinkIndex =>
      let spans := interactiveInlines linkSpan content renderedLinkIndex
      (headingSlot level (.paragraph (.rich spans.1)) none, spans.2)
  | .paragraph content, renderedLinkIndex =>
      let spans := interactiveInlines linkSpan content renderedLinkIndex
      (.paragraph (.rich spans.1), spans.2)
  | .list ordered items, renderedLinkIndex =>
      let widgets := renderItemsForView linkSpan ordered 0 items renderedLinkIndex
      (.children widgets.1, widgets.2)
  | .listItem content checked, renderedLinkIndex =>
      let widgets := renderEachForView linkSpan content renderedLinkIndex
      (listItemRow checked (itemMarker false 0) (.children widgets.1), widgets.2)
  | .blockquote nodes, renderedLinkIndex =>
      let widgets := renderEachForView linkSpan nodes renderedLinkIndex
      (.built (.children widgets.1), widgets.2)
  | .suggestion _ local_content _, renderedLinkIndex =>
      let widgets := renderEachForView linkSpan local_content renderedLinkIndex
      (.children widgets.1, widgets.2)
  | node, renderedLinkIndex => (renderBlock node, renderedLinkIndex)

def renderEachForView (linkSpan : LinkSpan) : List AstNode → Nat → List Widget × Nat
  | [], renderedLinkIndex => ([], renderedLinkIndex)
  | node :: rest, renderedLinkIndex =>
      let widget := renderBlockForView linkSpan node renderedLinkIndex
      let widgets := renderEachForView linkSpan rest widget.2
      (widget.1 :: widgets.1, widgets.2)

/-- The body of an item is rendered by the callback of a Builder. -/
def renderItemsForView (linkSpan : LinkSpan) (ordered : Bool) :
    Nat → List AstNode → Nat → List Widget × Nat
  | _, [], renderedLinkIndex => ([], renderedLinkIndex)
  | index, .listItem content checked :: rest, renderedLinkIndex =>
      let widgets := renderItemsForView linkSpan ordered (index + 1) rest renderedLinkIndex
      (listItemRow checked (itemMarker ordered index)
        (.deferred (renderEachForView linkSpan content)) :: widgets.1, widgets.2)
  | index, node :: rest, renderedLinkIndex =>
      let widget := renderBlockForView linkSpan node renderedLinkIndex
      let widgets := renderItemsForView linkSpan ordered (index + 1) rest widget.2
      (widget.1 :: widgets.1, widgets.2)

end

def renderListItemWith (content : List AstNode) (checked : Option Bool) (marker : Text)
    (renderChild : Render) : Widget :=
  listItemRow checked marker (.deferred (renderIndexed (fun _ => renderChild) 0 content))

/-! ## A Block with an edited leaf -/

def blockPromotionSlot (node : AstNode) (field : Widget) : Widget :=
  .children [.baseline (renderBlock node), field]

def focusedSlot (node : AstNode) (field : Widget) : Widget :=
  match node with
  | .codeBlock language code => codeBlockSlot language code (some field)
  | .heading level content =>
      headingSlot level (.paragraph (.rich (renderInlines content))) (some field)
  | node => blockPromotionSlot node field

/-- An item with an edited leaf. A path that ends at an item with children has no first index, which
the source refuses; the editor focuses leaves only. -/
def renderFocusedListItem (content : List AstNode) (checked : Option Bool) (marker : Text)
    (first : Option Nat) (renderFocused renderSibling : Render) (renderedLinkIndex : Nat) :
    Widget × Nat :=
  let widgets := renderIndexed
    (fun index => if some index = first then renderFocused else renderSibling) 0 content
    renderedLinkIndex
  (listItemRow checked marker (.children widgets.1), widgets.2)

/-- The child of a List, of which one has the edited leaf. -/
def renderListChild (ordered : Bool) (childIndex : Nat) (first : Option Nat)
    (renderFocused renderDeeper renderSibling : Render) (index : Nat) : Render :=
  fun item renderedLinkIndex =>
    if index = childIndex then
      match item with
      | .listItem content checked =>
          renderFocusedListItem content checked (itemMarker ordered index) first renderDeeper
            renderSibling renderedLinkIndex
      | item => renderFocused item renderedLinkIndex
    else
      match item with
      | .listItem content checked =>
          (renderListItemWith content checked (itemMarker ordered index) renderSibling,
            renderedLinkIndex)
      | item => renderSibling item renderedLinkIndex

def renderBlockWithFocusedLeaf (renderSibling : Render) : List Nat → Render
  | [], node, renderedLinkIndex => (focusedSlot node .editor, renderedLinkIndex)
  | childIndex :: remaining, node, renderedLinkIndex =>
      let renderFocused := renderBlockWithFocusedLeaf renderSibling remaining
      match node with
      | .list ordered items =>
          if childIndex < items.length then
            let renderDeeper := match remaining with
              | [] => renderSibling
              | _ :: deeper => renderBlockWithFocusedLeaf renderSibling deeper
            let widgets := renderIndexed
              (renderListChild ordered childIndex remaining.head? renderFocused renderDeeper
                renderSibling) 0 items renderedLinkIndex
            (.children widgets.1, widgets.2)
          else renderSibling node renderedLinkIndex
      | .listItem content checked =>
          if childIndex < content.length then
            renderFocusedListItem content checked (itemMarker false 0) (some childIndex)
              renderFocused renderSibling renderedLinkIndex
          else renderSibling node renderedLinkIndex
      | .blockquote nodes =>
          if childIndex < nodes.length then
            let widgets := renderIndexed
              (fun index => if index = childIndex then renderFocused else renderSibling) 0 nodes
              renderedLinkIndex
            (.built (.children widgets.1), widgets.2)
          else renderSibling node renderedLinkIndex
      | .suggestion _ local_content _ =>
          if childIndex < local_content.length then
            let widgets := renderIndexed
              (fun index => if index = childIndex then renderFocused else renderSibling) 0
              local_content renderedLinkIndex
            (.children widgets.1, widgets.2)
          else renderSibling node renderedLinkIndex
      | node => renderSibling node renderedLinkIndex

section FocusedLeaf

variable (renderSibling : Render) (childIndex : Nat) (remaining : List Nat)
  (renderedLinkIndex : Nat)

/-- How the edited child of an item of a List is rendered. -/
def renderDeeper : List Nat → Render
  | [] => renderSibling
  | _ :: deeper => renderBlockWithFocusedLeaf renderSibling deeper

theorem renderBlockWithFocusedLeaf_list (ordered : Bool) (items : List AstNode) :
    renderBlockWithFocusedLeaf renderSibling (childIndex :: remaining) (.list ordered items)
        renderedLinkIndex =
      if childIndex < items.length then
        let widgets := renderIndexed
          (renderListChild ordered childIndex remaining.head?
            (renderBlockWithFocusedLeaf renderSibling remaining)
            (renderDeeper renderSibling remaining) renderSibling) 0 items renderedLinkIndex
        (.children widgets.1, widgets.2)
      else renderSibling (.list ordered items) renderedLinkIndex := by
  cases remaining with
  | nil => rfl
  | cons first deeper => rfl

end FocusedLeaf

/-! ## The surface of a Block -/

/-- How the nodes are rendered that are not edited; without activation no Link is followed. -/
def renderInteractive (activation : Bool) (identities : List LinkIdentity) : Render :=
  fun node renderedLinkIndex =>
    if activation then renderBlockForView (linkSpan identities) node renderedLinkIndex
    else (renderBlock node, renderedLinkIndex)

/-- A build with the counter at a number. -/
def BlockView.buildFrom (node : AstNode) (focusedLeafPath : Option (List Nat)) (activation : Bool) :
    Nat → Widget × Nat :=
  let render := renderInteractive activation (linkIdentities (activeLinks node focusedLeafPath))
  match focusedLeafPath with
  | none => render node
  | some path => renderBlockWithFocusedLeaf render path node

def BlockView.build (node : AstNode) (focusedLeafPath : Option (List Nat)) (activation : Bool) :
    Widget × Nat :=
  BlockView.buildFrom node focusedLeafPath activation 0

/-! ## Inflation -/

inductive RenderObject where
  | blank
  | paragraph (painted : Paragraph)
  | baseline (child : RenderObject)
  | nonDocumentText (child : RenderObject)
  | beside (first second : RenderObject)

/-- Callbacks run as their elements are inflated. -/
def Widget.inflate : Widget → Nat → RenderObject × Nat
  | .blank, renderedLinkIndex | .editor, renderedLinkIndex => (.blank, renderedLinkIndex)
  | .paragraph painted, renderedLinkIndex => (.paragraph painted, renderedLinkIndex)
  | .baseline child, renderedLinkIndex =>
      let child := child.inflate renderedLinkIndex
      (.baseline child.1, child.2)
  | .nonDocumentText child, renderedLinkIndex =>
      let child := child.inflate renderedLinkIndex
      (.nonDocumentText child.1, child.2)
  | .beside first second, renderedLinkIndex =>
      let first := first.inflate renderedLinkIndex
      let second := second.inflate first.2
      (.beside first.1 second.1, second.2)
  | .builder callback counter, renderedLinkIndex =>
      (callback renderedLinkIndex).inflate (counter renderedLinkIndex)

/-- What a Block has on the screen, and the counter when all its callbacks have run. -/
def BlockView.surface (node : AstNode) (focusedLeafPath : Option (List Nat)) (activation : Bool) :
    RenderObject × Nat :=
  let built := BlockView.build node focusedLeafPath activation
  built.1.inflate built.2

/-- The paragraphs under an object, hidden baselines with them. -/
def collectParagraphs : RenderObject → List Paragraph
  | .nonDocumentText _ | .blank => []
  | .paragraph painted => [painted]
  | .baseline child => collectParagraphs child
  | .beside first second => collectParagraphs first ++ collectParagraphs second

end Burlmd.Interface
