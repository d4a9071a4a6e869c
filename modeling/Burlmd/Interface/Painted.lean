import Burlmd.Interface.LeafLayout
import Burlmd.Interface.Widgets

/-!
# What a Block paints

The paragraphs under a Block are the same however it is rendered: a leaf that is edited keeps its
formatted paragraphs as a hidden baseline.
-/

namespace Burlmd.Interface

open Markdown
open Utf8 (Text)

/-! ## Text of a paragraph -/

mutual

def InlineSpan.plainText : InlineSpan → Text
  | .text content _ => content
  | .group children | .link _ _ children => plainTexts children

def plainTexts : List InlineSpan → Text
  | [] => []
  | span :: rest => span.plainText ++ plainTexts rest

end

/-- What a paragraph shows: a text, or the mark of a task. -/
inductive Shown where
  | text (content : Text)
  | icon (checked : Bool)
  deriving DecidableEq

def Paragraph.shown : Paragraph → Shown
  | .rich spans => .text (plainTexts spans)
  | .icon checked => .icon checked

def shownUnder (object : RenderObject) : List Shown := (collectParagraphs object).map Paragraph.shown

mutual

theorem renderInline_plainText (element : InlineElement) :
    (renderInline element).plainText = element.rendered := by
  cases element with
  | text run => simp [renderInline, InlineSpan.plainText, InlineElement.rendered]
  | link target_id exists_ content =>
    rw [renderInline, InlineSpan.plainText, InlineElement.rendered, renderInlines_plainTexts content]
  | externalLink url content =>
    rw [renderInline, InlineSpan.plainText, InlineElement.rendered, renderInlines_plainTexts content]

theorem renderInlines_plainTexts (content : List InlineElement) :
    plainTexts (renderInlines content) = renderedInlineText content := by
  cases content with
  | nil => simp [renderInlines, plainTexts]
  | cons element rest =>
    rw [renderInlines, plainTexts, renderInline_plainText element, renderInlines_plainTexts rest,
      renderedInlineText_cons]

end

mutual

theorem linkElement_plainText (recognizer : Option LinkIdentity) (element : InlineElement) :
    (linkElementWithRecognizer recognizer element).plainText = element.rendered := by
  cases element with
  | text run => simp [linkElementWithRecognizer, InlineSpan.plainText, InlineElement.rendered]
  | link target_id exists_ content =>
    rw [linkElementWithRecognizer, InlineSpan.plainText, InlineElement.rendered,
      linkContent_plainTexts recognizer content]
  | externalLink url content =>
    rw [linkElementWithRecognizer, InlineSpan.plainText, InlineElement.rendered,
      linkContent_plainTexts recognizer content]

theorem linkContent_plainTexts (recognizer : Option LinkIdentity) (content : List InlineElement) :
    plainTexts (linkContentWithRecognizer recognizer content) = renderedInlineText content := by
  cases content with
  | nil => simp [linkContentWithRecognizer, plainTexts]
  | cons element rest =>
    rw [linkContentWithRecognizer, plainTexts, linkElement_plainText recognizer element,
      linkContent_plainTexts recognizer rest, renderedInlineText_cons]

end

theorem interactiveInlines_plainTexts (identities : List LinkIdentity)
    (content : List InlineElement) (renderedLinkIndex : Nat) :
    plainTexts (interactiveInlines (linkSpan identities) content renderedLinkIndex).1 =
      renderedInlineText content := by
  induction content generalizing renderedLinkIndex with
  | nil => simp [interactiveInlines, plainTexts]
  | cons element rest ih =>
    cases element with
    | text run =>
      rw [interactiveInlines, plainTexts, ih, renderInline_plainText, renderedInlineText_cons]
      intro _ _ _ never
      cases never
    | link target_id exists_ inner =>
      rw [interactiveInlines, plainTexts, ih, renderedInlineText_cons, linkSpan,
        InlineSpan.plainText, linkContent_plainTexts, InlineElement.rendered]
    | externalLink url inner =>
      rw [interactiveInlines, plainTexts, ih, renderInline_plainText, renderedInlineText_cons]
      intro _ _ _ never
      cases never

/-! ## Widgets and what they show -/

/-- However far the counter is, the widget shows this. -/
def Shows (widget : Widget) (shown : List Shown) : Prop :=
  ∀ renderedLinkIndex, shownUnder (widget.inflate renderedLinkIndex).1 = shown

namespace Shows

variable {widget body : Widget} {widgets : List Widget} {shown others : List Shown}

theorem blank : Shows .blank [] := fun _ => rfl

theorem editor : Shows .editor [] := fun _ => rfl

theorem paragraph (painted : Paragraph) : Shows (.paragraph painted) [painted.shown] :=
  fun _ => rfl

theorem rich {spans : List InlineSpan} {content : Text} (plain : plainTexts spans = content) :
    Shows (.paragraph (.rich spans)) [.text content] := by
  rw [← plain]
  exact paragraph (.rich spans)

theorem text (content : Text) : Shows (.text content) [.text content] :=
  rich (List.append_nil content)

theorem baseline (shows : Shows widget shown) : Shows (.baseline widget) shown := shows

theorem nonDocumentText : Shows (.nonDocumentText widget) [] := fun _ => rfl

theorem beside (first : Shows widget shown) (second : Shows body others) :
    Shows (.beside widget body) (shown ++ others) := by
  intro renderedLinkIndex
  have both : shownUnder ((Widget.beside widget body).inflate renderedLinkIndex).1 =
      shownUnder (widget.inflate renderedLinkIndex).1 ++
        shownUnder (body.inflate (widget.inflate renderedLinkIndex).2).1 := List.map_append
  rw [both, first, second]

theorem cons (first : Shows widget shown) (rest : Shows (.children widgets) others) :
    Shows (.children (widget :: widgets)) (shown ++ others) := first.beside rest

theorem nil : Shows (.children []) [] := blank

theorem pair (first : Shows widget shown) (second : Shows body others) :
    Shows (.children [widget, body]) (shown ++ others) := by
  have whole := first.cons (second.cons nil)
  rw [List.append_nil] at whole
  exact whole

theorem built (shows : Shows widget shown) : Shows (.built widget) shown := shows

theorem deferred {callback : Nat → List Widget × Nat}
    (each : ∀ renderedLinkIndex, Shows (.children (callback renderedLinkIndex).1) shown) :
    Shows (.deferred callback) shown :=
  fun renderedLinkIndex => each renderedLinkIndex _

/-- A raw field in front of its baseline. -/
theorem edited (shows : Shows widget shown) : Shows (.children [.baseline widget, .editor]) shown := by
  have whole := shows.baseline.pair editor
  rw [List.append_nil] at whole
  exact whole

end Shows

/-! ## What each node shows -/

def markerShown (checked : Option Bool) (marker : Text) : Shown :=
  match checked with
  | some checked => .icon checked
  | none => .text marker

mutual

def shownParagraphs : AstNode → List Shown
  | .heading _ content | .paragraph content => [.text (renderedInlineText content)]
  | .list ordered items => shownItems ordered 0 items
  | .listItem content checked => markerShown checked (itemMarker false 0) :: shownEach content
  | .blockquote nodes => shownEach nodes
  | .codeBlock _ code => [.text code]
  | .thematicBreak => []
  | .image alt_text _ => [.text (imageOpening ++ alt_text ++ [']'])]
  | .suggestion _ local_content _ => shownEach local_content

def shownEach : List AstNode → List Shown
  | [] => []
  | node :: rest => shownParagraphs node ++ shownEach rest

def shownItems (ordered : Bool) : Nat → List AstNode → List Shown
  | _, [] => []
  | index, .listItem content checked :: rest =>
      markerShown checked (itemMarker ordered index) :: shownEach content ++
        shownItems ordered (index + 1) rest
  | index, node :: rest => shownParagraphs node ++ shownItems ordered (index + 1) rest

end

/-- An item of a List shows its own marker, and any other node what it shows elsewhere. -/
def itemShown (ordered : Bool) (index : Nat) : AstNode → List Shown
  | .listItem content checked => markerShown checked (itemMarker ordered index) :: shownEach content
  | node => shownParagraphs node

theorem shownItems_cons (ordered : Bool) (index : Nat) (node : AstNode) (rest : List AstNode) :
    shownItems ordered index (node :: rest) =
      itemShown ordered index node ++ shownItems ordered (index + 1) rest := by
  cases node with
  | listItem content checked => rw [shownItems, itemShown]
  | heading _ _ | paragraph _ | list _ _ | blockquote _ | codeBlock _ _ | thematicBreak
  | image _ _ | suggestion _ _ _ =>
    rw [shownItems, itemShown]
    all_goals
      intro _ _ never
      cases never

section Slots

variable {body : Widget} {shown : List Shown}

theorem markerWidget_shows (checked : Option Bool) (marker : Text) :
    Shows (markerWidget checked marker) [markerShown checked marker] := by
  cases checked with
  | none => exact (Shows.text marker).built
  | some checked => exact (Shows.paragraph (.icon checked)).built

theorem listItemRow_shows (checked : Option Bool) (marker : Text) (shows : Shows body shown) :
    Shows (listItemRow checked marker body) (markerShown checked marker :: shown) :=
  (markerWidget_shows checked marker).pair shows

/-- The rule under a heading of the first level has no text. -/
theorem ruled_shows (level : Nat) (shows : Shows body shown) :
    Shows (if level = 1 then .built (.children [body, .blank]) else body) shown := by
  split
  · have whole := shows.pair Shows.blank
    rw [List.append_nil] at whole
    exact whole.built
  · exact shows

theorem headingSlot_shows (level : Nat) (shows : Shows body shown) {field : Option Widget}
    (raw : field = none ∨ field = some .editor) : Shows (headingSlot level body field) shown := by
  rcases raw with none_ | editor
  · rw [none_]
    exact ruled_shows level shows
  · rw [editor]
    exact ruled_shows level shows.edited

theorem codeBlockSlot_shows (language : Option Text) (code : Text) {field : Option Widget}
    (raw : field = none ∨ field = some .editor) :
    Shows (codeBlockSlot language code field) [.text code] := by
  rcases raw with none_ | editor
  · rw [none_]
    exact Shows.nonDocumentText.pair (Shows.text code)
  · rw [editor]
    exact Shows.nonDocumentText.pair (Shows.text code).edited

theorem renderInlines_shows (content : List InlineElement) :
    Shows (.paragraph (.rich (renderInlines content))) [.text (renderedInlineText content)] :=
  Shows.rich (renderInlines_plainTexts content)

theorem interactiveInlines_shows (identities : List LinkIdentity) (content : List InlineElement)
    (renderedLinkIndex : Nat) :
    Shows (.paragraph
        (.rich (interactiveInlines (linkSpan identities) content renderedLinkIndex).1))
      [.text (renderedInlineText content)] :=
  Shows.rich (interactiveInlines_plainTexts identities content renderedLinkIndex)

end Slots

/-! ## Nodes that are not edited -/

mutual

theorem renderBlock_shows (node : AstNode) : Shows (renderBlock node) (shownParagraphs node) := by
  cases node with
  | heading level content =>
    rw [renderBlock, shownParagraphs]
    exact headingSlot_shows level (renderInlines_shows content) (Or.inl rfl)
  | paragraph content =>
    rw [renderBlock, shownParagraphs]
    exact renderInlines_shows content
  | list ordered items =>
    rw [renderBlock, shownParagraphs]
    exact renderBlockItems_shows ordered 0 items
  | listItem content checked =>
    rw [renderBlock, shownParagraphs]
    exact listItemRow_shows checked _ (renderBlockEach_shows content).built
  | blockquote nodes =>
    rw [renderBlock, shownParagraphs]
    exact (renderBlockEach_shows nodes).built
  | codeBlock language code =>
    rw [renderBlock, shownParagraphs]
    exact codeBlockSlot_shows language code (Or.inl rfl)
  | thematicBreak =>
    rw [renderBlock, shownParagraphs]
    exact Shows.blank.built
  | image alt_text url_or_path =>
    rw [renderBlock, shownParagraphs]
    exact Shows.text _
  | suggestion base local_content incoming =>
    rw [renderBlock, shownParagraphs]
    exact renderBlockEach_shows local_content

theorem renderBlockEach_shows (nodes : List AstNode) :
    Shows (.children (renderBlockEach nodes)) (shownEach nodes) := by
  cases nodes with
  | nil =>
    rw [renderBlockEach, shownEach]
    exact Shows.nil
  | cons node rest =>
    rw [renderBlockEach, shownEach]
    exact (renderBlock_shows node).cons (renderBlockEach_shows rest)

theorem renderBlockItems_shows (ordered : Bool) (index : Nat) (items : List AstNode) :
    Shows (.children (renderBlockItems ordered index items)) (shownItems ordered index items) := by
  cases items with
  | nil =>
    rw [renderBlockItems, shownItems]
    exact Shows.nil
  | cons node rest =>
    have onward := renderBlockItems_shows ordered (index + 1) rest
    cases node with
    | listItem content checked =>
      rw [renderBlockItems, shownItems]
      exact (listItemRow_shows checked _ (renderBlockEach_shows content).built).cons onward
    | heading _ _ | paragraph _ | list _ _ | blockquote _ | codeBlock _ _ | thematicBreak
    | image _ _ | suggestion _ _ _ =>
      rw [renderBlockItems, shownItems]
      · exact (renderBlock_shows _).cons onward
      all_goals
        intro _ _ never
        cases never

end

section View

variable (identities : List LinkIdentity)

mutual

theorem renderBlockForView_shows (node : AstNode) (renderedLinkIndex : Nat) :
    Shows (renderBlockForView (linkSpan identities) node renderedLinkIndex).1
      (shownParagraphs node) := by
  cases node with
  | heading level content =>
    rw [renderBlockForView, shownParagraphs]
    exact headingSlot_shows level (interactiveInlines_shows identities content renderedLinkIndex)
      (Or.inl rfl)
  | paragraph content =>
    rw [renderBlockForView, shownParagraphs]
    exact interactiveInlines_shows identities content renderedLinkIndex
  | list ordered items =>
    rw [renderBlockForView, shownParagraphs]
    exact renderItemsForView_shows ordered 0 items renderedLinkIndex
  | listItem content checked =>
    rw [renderBlockForView, shownParagraphs]
    exact listItemRow_shows checked _ (renderEachForView_shows content renderedLinkIndex)
  | blockquote nodes =>
    rw [renderBlockForView, shownParagraphs]
    exact (renderEachForView_shows nodes renderedLinkIndex).built
  | suggestion base local_content incoming =>
    rw [renderBlockForView, shownParagraphs]
    exact renderEachForView_shows local_content renderedLinkIndex
  | codeBlock language code =>
    rw [renderBlockForView]
    · exact renderBlock_shows _
    all_goals
      intros
      contradiction
  | thematicBreak =>
    rw [renderBlockForView]
    · exact renderBlock_shows _
    all_goals
      intros
      contradiction
  | image alt_text url_or_path =>
    rw [renderBlockForView]
    · exact renderBlock_shows _
    all_goals
      intros
      contradiction

theorem renderEachForView_shows (nodes : List AstNode) (renderedLinkIndex : Nat) :
    Shows (.children (renderEachForView (linkSpan identities) nodes renderedLinkIndex).1)
      (shownEach nodes) := by
  cases nodes with
  | nil =>
    rw [renderEachForView, shownEach]
    exact Shows.nil
  | cons node rest =>
    rw [renderEachForView, shownEach]
    exact (renderBlockForView_shows node renderedLinkIndex).cons (renderEachForView_shows rest _)

theorem renderItemsForView_shows (ordered : Bool) (index : Nat) (items : List AstNode)
    (renderedLinkIndex : Nat) :
    Shows (.children
        (renderItemsForView (linkSpan identities) ordered index items renderedLinkIndex).1)
      (shownItems ordered index items) := by
  cases items with
  | nil =>
    rw [renderItemsForView, shownItems]
    exact Shows.nil
  | cons node rest =>
    cases node with
    | listItem content checked =>
      rw [renderItemsForView, shownItems]
      exact (listItemRow_shows checked _
        (Shows.deferred (renderEachForView_shows content))).cons
          (renderItemsForView_shows ordered (index + 1) rest _)
    | heading _ _ | paragraph _ | list _ _ | blockquote _ | codeBlock _ _ | thematicBreak
    | image _ _ | suggestion _ _ _ =>
      rw [renderItemsForView, shownItems]
      · exact (renderBlockForView_shows _ renderedLinkIndex).cons
          (renderItemsForView_shows ordered (index + 1) rest _)
      all_goals
        intro _ _ never
        cases never

end

end View

theorem renderInteractive_shows (activation : Bool) (identities : List LinkIdentity)
    (node : AstNode) (renderedLinkIndex : Nat) :
    Shows (renderInteractive activation identities node renderedLinkIndex).1
      (shownParagraphs node) := by
  unfold renderInteractive
  cases activation with
  | true => exact renderBlockForView_shows identities node renderedLinkIndex
  | false => exact renderBlock_shows node

end Burlmd.Interface
