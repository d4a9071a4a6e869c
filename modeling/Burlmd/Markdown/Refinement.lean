import Mathlib.Data.List.Basic
import Mathlib.Tactic.Common
import Burlmd.Markdown.Emission

/-!
# The builder computes the emission

Inline content is run under an arbitrary link stack, where only the innermost
link and the hoisted images change, and then under an empty one, where it lands
its atoms. Blocks are run from a builder in which a `Flow` has been laid into an
open container.
-/

namespace Burlmd.Markdown

open Utf8

namespace Builder

/-! ## Inline content inside a link -/

/-- The effect of closing an image, once it is off the link stack. -/
def landImage (b : Builder) (image : Image) : Builder :=
  let (b, defer) := b.splitFrame
  let runs := (RunAccum.empty.push image.alt_text.length image.source false).runs
  let node := AstNode.image image.alt_text image.url
  if defer then { b with deferred := b.deferred ++ [⟨node, image.source, runs⟩] }
  else b.flushPendingInlines.pushBlock node (some image.source) runs

/-- The builder with another link stack and formatting. -/
def inside (b : Builder) (links : List LinkFrame) (state : FormatState) : Builder :=
  { b with link_stack := links, format_state := state }

variable (b : Builder) (links : List LinkFrame) (state : FormatState)

@[simp] theorem inside_inside (links' : List LinkFrame) (state' : FormatState) :
    (b.inside links state).inside links' state' = b.inside links' state' := rfl

@[simp] theorem inside_self : b.inside b.link_stack b.format_state = b := rfl

theorem attach_inside (node : AstNode) :
    (b.inside links state).attach node = (b.attach node).inside links state := by
  simp only [attach, containerIndex, inside]
  split <;> rfl

theorem pushBlock_inside (node : AstNode) (source : Option Range) (runs : List InlineRun) :
    (b.inside links state).pushBlock node source runs =
      (b.pushBlock node source runs).inside links state := by
  cases source with
  | none => exact attach_inside b links state node
  | some range => exact attach_inside { b with spans := _ } links state node

theorem flushPendingInlines_inside :
    (b.inside links state).flushPendingInlines = b.flushPendingInlines.inside links state := by
  by_cases nothing : b.inlines = []
  · simp [flushPendingInlines, inside, nothing]
  · simp only [flushPendingInlines, nothing, inside, if_false]
    exact pushBlock_inside { b with inlines := [], runs := .empty } links state _ _ _

theorem splitFrame_inside :
    (b.inside links state).splitFrame =
      (b.splitFrame.1.inside links state, b.splitFrame.2) := by
  simp only [splitFrame, inside]
  split
  · split <;> rfl
  · rfl

theorem landImage_inside (image : Image) :
    (b.inside links state).landImage image = (b.landImage image).inside links state := by
  simp only [landImage, splitFrame_inside]
  split
  · rfl
  · rw [flushPendingInlines_inside, pushBlock_inside]

theorem landImages_inside (images : List Image) :
    images.foldl landImage (b.inside links state) =
      (images.foldl landImage b).inside links state := by
  induction images generalizing b with
  | nil => rfl
  | cons image rest ih => rw [List.foldl_cons, List.foldl_cons, landImage_inside, ih]

/-- No code block and no metadata block is open. -/
def Open (b : Builder) : Prop := b.code_block = none ∧ b.in_metadata = false

variable {b}

theorem Open.attach (idle : b.Open) (node : AstNode) : (b.attach node).Open := by
  simp only [Builder.attach]
  split <;> exact idle

theorem Open.pushBlock (idle : b.Open) (node : AstNode) (source : Option Range)
    (runs : List InlineRun) : (b.pushBlock node source runs).Open := by
  cases source with
  | none => exact idle.attach node
  | some range =>
    exact Open.attach (b := { b with spans := b.spans.pushBlock b.nextPath range runs }) idle node

theorem Open.flushPendingInlines (idle : b.Open) : b.flushPendingInlines.Open := by
  simp only [Builder.flushPendingInlines]
  split
  · exact idle
  · exact Open.pushBlock (b := { b with inlines := [], runs := .empty }) idle _ _ _

theorem Open.splitFrame (idle : b.Open) : b.splitFrame.1.Open := by
  simp only [Builder.splitFrame]
  split
  · split <;> exact idle
  · exact idle

theorem Open.landImage (idle : b.Open) (image : Image) : (b.landImage image).Open := by
  simp only [Builder.landImage]
  split
  · exact idle.splitFrame
  · exact (idle.splitFrame.flushPendingInlines).pushBlock _ _ _

theorem Open.landImages (idle : b.Open) (images : List Image) :
    (images.foldl Builder.landImage b).Open := by
  induction images generalizing b with
  | nil => exact idle
  | cons image rest ih => exact ih (idle.landImage image)

theorem closeImage_inside (b : Builder) (frame : LinkFrame) (links : List LinkFrame)
    (state : FormatState) (url : Text) (kind : frame.kind = .image url) :
    (b.inside (frame :: links) state).closeImage =
      (b.landImage ⟨altText frame.content, url, frame.source⟩).inside links state := by
  rw [← landImage_inside]
  by_cases waits : (b.inside links state).splitFrame.2 = true
  · simp only [inside] at waits
    simp [closeImage, landImage, inside, kind, waits]
  · simp only [inside] at waits
    simp [closeImage, landImage, inside, kind, waits]

theorem altText_append (first second : List InlineElement) :
    altText (first ++ second) = altText first ++ altText second := by
  simp [altText]

theorem altText_linkElement (kind : LinkKind) (content : List InlineElement) :
    altText [linkElement kind content] = [] := by
  rcases kind with ⟨_ | _⟩ | _ <;> simp [linkElement, altText]

theorem altText_elements (state : FormatState) (l : Leaf) :
    altText (l.elements state) = l.rendered := by
  cases shown : l.shown? <;>
    simp [Leaf.elements, Leaf.rendered, shown, altText, TextRun.fromState]

theorem altText_content (containing_dir : Text) (state : FormatState) (f : Forest) :
    altText (f.content containing_dir state) = f.altText := by
  induction f generalizing state with
  | nil => simp [Forest.content, Forest.altText, altText]
  | leaf l range rest ih =>
    rw [Forest.content, altText_append, altText_elements, ih, Forest.altText]
  | node tag range children rest inner ih =>
    cases tag with
    | link dest_url =>
      rw [Forest.content, altText_append, ih, Forest.altText]
      split
      · rfl
      · rw [altText_linkElement]; rfl
    | image url => rw [Forest.content, altText_append, ih, Forest.altText]; rfl
    | _ =>
      simp only [Forest.content, Forest.altText]
      rw [altText_append, ih, inner]

section Run

variable (source containing_dir : Text)

@[simp] theorem run_nil (b : Builder) : b.run source containing_dir [] = b := rfl

@[simp] theorem run_cons (b : Builder) (entry : Event × Range) (events : List (Event × Range)) :
    b.run source containing_dir (entry :: events) =
      (b.handle source containing_dir entry).run source containing_dir events := rfl

@[simp] theorem run_append (b : Builder) (first second : List (Event × Range)) :
    b.run source containing_dir (first ++ second) =
      (b.run source containing_dir first).run source containing_dir second := by
  simp [run, List.foldl_append]

end Run

end Builder

/-- The link frame after the inline content `f` inside it. -/
def LinkFrame.extend (containing_dir : Text) (state : FormatState) (frame : LinkFrame)
    (f : Forest) : LinkFrame :=
  { frame with
    content := frame.content ++ f.content containing_dir state
    rendered_chars := frame.rendered_chars + f.ownText.length }

namespace Builder

section Link

variable (source containing_dir : Text)

theorem handle_leaf_inside {b : Builder} (idle : b.Open) (frame : LinkFrame)
    (links : List LinkFrame) (state : FormatState) {l : Leaf} {range : Range}
    (allowed : l.allowed range .inline = true) :
    (b.inside (frame :: links) state).handle source containing_dir (.leaf l, range) =
      b.inside ({ frame with
        content := frame.content ++ l.elements state
        rendered_chars := frame.rendered_chars + l.rendered.length } :: links) state := by
  obtain ⟨no_code, no_metadata⟩ := idle
  cases l with
  | text content =>
    by_cases blank : content = []
    · simp [handle, text, inside, no_metadata, blank, Leaf.elements, Leaf.rendered, Leaf.shown?]
    · simp [handle, text, inside, no_metadata, no_code, blank, Leaf.elements, Leaf.rendered,
        Leaf.shown?, pushRun, emitRun, pushInline]
  | code content =>
    simp [handle, codeSpan, inside, Leaf.elements, Leaf.rendered, Leaf.shown?, pushRun, emitRun,
      pushInline]
  | softBreak | hardBreak =>
    simp [handle, lineBreak, inside, Leaf.elements, Leaf.rendered, Leaf.shown?, pushRun, emitRun,
      pushInline]
  | html | inlineHtml =>
    simp [handle, inside, Leaf.elements, Leaf.rendered, Leaf.shown?]
  | rule | taskListMarker => simp [Leaf.allowed] at allowed

theorem closeLink_inside (b : Builder) (frame outer : LinkFrame) (links : List LinkFrame)
    (state : FormatState) :
    (b.inside (frame :: outer :: links) state).closeLink =
      b.inside ((if frame.rendered_chars = 0 then outer else { outer with
        content := outer.content ++ [linkElement frame.kind (processInlines frame.content)]
        rendered_chars := outer.rendered_chars + frame.rendered_chars }) :: links) state := by
  by_cases empty : frame.rendered_chars = 0
  · simp [closeLink, inside, empty]
  · simp [closeLink, inside, empty, emitRun, pushInline]

section Tags

variable (b : Builder) (links : List LinkFrame) (state : FormatState) (range : Range)

theorem handle_start_format {tag : Tag} (isFormat : tag.isFormat = true) :
    (b.inside links state).handle source containing_dir (.start tag, range) =
      b.inside links (tag.enter state) := by
  cases tag <;> first | rfl | simp [Tag.isFormat] at isFormat

theorem handle_stop_format {tag : Tag} (isFormat : tag.isFormat = true) :
    (b.inside links state).handle source containing_dir (.stop tag.toEnd, range) =
      b.inside links (tag.leave state) := by
  cases tag <;> first | rfl | simp [Tag.isFormat] at isFormat

theorem handle_start_link (dest_url : Text) :
    (b.inside links state).handle source containing_dir (.start (.link dest_url), range) =
      b.inside (⟨.link (Okf.classify dest_url containing_dir), [], range, 0⟩ :: links) state := rfl

theorem handle_start_image (url : Text) :
    (b.inside links state).handle source containing_dir (.start (.image url), range) =
      b.inside (⟨.image url, [], range, 0⟩ :: links) state := rfl

theorem handle_stop_link :
    b.handle source containing_dir (.stop .link, range) = b.closeLink := rfl

theorem handle_stop_image :
    b.handle source containing_dir (.stop .image, range) = b.closeImage := rfl

end Tags

theorem run_link (f : Forest) (conforms : f.conforms .inline = true) {b : Builder}
    (idle : b.Open) (frame : LinkFrame) (links : List LinkFrame) (state : FormatState) :
    (b.inside (frame :: links) state).run source containing_dir f.events =
      (f.hoisted.foldl landImage b).inside
        (frame.extend containing_dir state f :: links) (f.format state) := by
  induction f generalizing b frame links state with
  | nil => simp [Forest.events, Forest.hoisted, Forest.format, LinkFrame.extend, Forest.content,
      Forest.ownText]
  | leaf l range rest ih =>
    simp only [Forest.conforms, Bool.and_eq_true] at conforms
    rw [Forest.events, run_cons,
      handle_leaf_inside source containing_dir idle frame links state conforms.1,
      ih conforms.2 idle]
    simp [Forest.hoisted, Forest.format, LinkFrame.extend, Forest.content, Forest.ownText,
      Nat.add_assoc]
  | node tag range children rest inner ih =>
    cases tag with
    | emphasis | strong | strikethrough =>
      simp only [Forest.conforms, Tag.inner, Bool.and_eq_true] at conforms
      simp only [Forest.events, run_cons, run_append]
      rw [handle_start_format _ _ _ _ _ _ rfl, inner conforms.1 idle,
        handle_stop_format _ _ _ _ _ _ rfl, ih conforms.2 (idle.landImages children.hoisted)]
      simp [Forest.hoisted, Forest.format, Forest.content, Forest.ownText, LinkFrame.extend,
        Nat.add_assoc]
    | link dest_url =>
      simp only [Forest.conforms, Tag.inner, Bool.and_eq_true] at conforms
      simp only [Forest.events, run_cons, run_append, handle_start_link,
        inner conforms.1 idle, Tag.toEnd, handle_stop_link, closeLink_inside]
      rw [ih conforms.2 (idle.landImages children.hoisted)]
      by_cases empty : children.ownText = []
      · simp [Forest.hoisted, Forest.format, Forest.content, Forest.ownText, LinkFrame.extend,
          Tag.enter, Tag.leave, empty]
      · simp [Forest.hoisted, Forest.format, Forest.content, Forest.ownText, LinkFrame.extend,
          Tag.enter, Tag.leave, empty, Nat.add_assoc]
    | image url =>
      simp only [Forest.conforms, Tag.inner, Bool.and_eq_true] at conforms
      simp only [Forest.events, run_cons, run_append, handle_start_image,
        inner conforms.1 idle, Tag.toEnd, handle_stop_image]
      rw [closeImage_inside _ _ _ _ url rfl,
        ih conforms.2 ((idle.landImages children.hoisted).landImage _)]
      simp [Forest.hoisted, Forest.format, Forest.content, Forest.ownText, LinkFrame.extend,
        Tag.enter, Tag.leave, altText_content]
    | _ => simp [Forest.conforms, Tag.inner] at conforms

end Link

/-! ## Inline content outside every link -/

def landAtom (b : Builder) : Atom → Builder
  | .element element chars source interpolable =>
      { b with
        inlines := b.inlines ++ [element]
        runs := b.runs.push chars source interpolable }
  | .image image => b.landImage image

theorem Open.landAtoms {b : Builder} (idle : b.Open) (atoms : List Atom) :
    (atoms.foldl landAtom b).Open := by
  induction atoms generalizing b with
  | nil => exact idle
  | cons atom rest ih =>
    cases atom with
    | element => exact ih idle
    | image image => exact ih (idle.landImage image)

theorem landAtoms_images (b : Builder) (images : List Image) :
    (images.map .image).foldl landAtom b = images.foldl landImage b := by
  simp [List.foldl_map, landAtom]

/-- The innermost frame is a paragraph, where a task list marker marks nothing. -/
def OnParagraph (b : Builder) : Prop :=
  ∃ frame rest, b.frames = frame :: rest ∧ frame.kind = .paragraph

theorem OnParagraph.setChecked {b : Builder} (on : b.OnParagraph) (checked : Bool) :
    b.setChecked checked = b := by
  obtain ⟨⟨kind, range, split⟩, rest, frames, rfl⟩ := on
  simp [Builder.setChecked, frames]

theorem OnParagraph.attach {b : Builder} (on : b.OnParagraph) (node : AstNode) :
    (b.attach node).OnParagraph := by
  obtain ⟨frame, rest, frames, paragraph⟩ := on
  simp only [Builder.attach]
  split
  · exact ⟨frame, rest, frames, paragraph⟩
  · rename_i index found
    cases index with
    | zero => simp [containerIndex, frames, paragraph, List.findIdx?_cons] at found
    | succ index =>
      rw [frames, List.modify_succ_cons]
      exact ⟨frame, _, rfl, paragraph⟩

theorem OnParagraph.pushBlock {b : Builder} (on : b.OnParagraph) (node : AstNode)
    (source : Option Range) (runs : List InlineRun) :
    (b.pushBlock node source runs).OnParagraph := by
  cases source with
  | none => exact on.attach node
  | some range =>
    exact OnParagraph.attach
      (b := { b with spans := b.spans.pushBlock b.nextPath range runs }) on node

theorem OnParagraph.landImage {b : Builder} (on : b.OnParagraph) (image : Image) :
    (b.landImage image).OnParagraph := by
  obtain ⟨frame, rest, frames, paragraph⟩ := on
  simp only [Builder.landImage, splitFrame, frames, paragraph, Bool.false_eq_true, if_false]
  apply OnParagraph.pushBlock
  simp only [Builder.flushPendingInlines]
  split
  · exact ⟨_, _, rfl, rfl⟩
  · exact OnParagraph.pushBlock ⟨_, _, rfl, rfl⟩ _ _ _

theorem OnParagraph.landAtoms {b : Builder} (on : b.OnParagraph) (atoms : List Atom) :
    (atoms.foldl landAtom b).OnParagraph := by
  induction atoms generalizing b with
  | nil => exact on
  | cons atom rest ih =>
    cases atom with
    | element => exact ih on
    | image image => exact ih (on.landImage image)

section Inline

variable (source containing_dir : Text)

theorem handle_leaf_atoms {b : Builder} (idle : b.Open) (state : FormatState) {l : Leaf}
    (range : Range) (inline : l.isBlock = false) :
    (b.inside [] state).handle source containing_dir (.leaf l, range) =
      ((Forest.leafAtoms source state l range).foldl landAtom b).inside [] state := by
  obtain ⟨no_code, no_metadata⟩ := idle
  cases l with
  | text content =>
    by_cases blank : content = []
    · simp [handle, text, inside, no_metadata, blank, Forest.leafAtoms, Leaf.shown?]
    · simp [handle, text, inside, no_metadata, no_code, blank, Forest.leafAtoms, Leaf.shown?,
        pushRun, emitRun, pushInline, landAtom]
  | code content =>
    simp [handle, codeSpan, inside, Forest.leafAtoms, Leaf.shown?, pushRun, emitRun, pushInline,
      landAtom]
  | softBreak | hardBreak =>
    simp [handle, lineBreak, inside, Forest.leafAtoms, Leaf.shown?, pushRun, emitRun, pushInline,
      landAtom]
  | html | inlineHtml => simp [handle, inside, Forest.leafAtoms, Leaf.shown?]
  | rule | taskListMarker => simp [Leaf.isBlock] at inline

theorem closeLink_outermost (b : Builder) (frame : LinkFrame) (state : FormatState) :
    (b.inside [frame] state).closeLink =
      ((if frame.rendered_chars = 0 then []
        else [Atom.element (linkElement frame.kind (processInlines frame.content))
          frame.rendered_chars frame.source false]).foldl landAtom b).inside [] state := by
  by_cases empty : frame.rendered_chars = 0
  · simp [closeLink, inside, empty]
  · simp [closeLink, inside, empty, emitRun, pushInline, landAtom]

theorem run_inline (f : Forest) {context : Context}
    (conforms : f.conforms context = true) {b : Builder} (idle : b.Open)
    (position : context = .inline ∨ context = .paragraph ∧ b.OnParagraph)
    (state : FormatState) :
    (b.inside [] state).run source containing_dir f.events =
      ((f.atoms source containing_dir state).foldl landAtom b).inside [] (f.format state) := by
  induction f generalizing b context state with
  | nil => rfl
  | leaf l range rest ih =>
    simp only [Forest.conforms, Bool.and_eq_true] at conforms
    by_cases block : l.isBlock = true
    · obtain rfl | ⟨rfl, on⟩ := position
      · cases l <;> simp_all [Leaf.isBlock, Leaf.allowed]
      · cases l with
        | taskListMarker checked =>
          have stays : (b.inside [] state).handle source containing_dir
              (.leaf (.taskListMarker checked), range) = b.inside [] state :=
            OnParagraph.setChecked (b := b.inside [] state) on checked
          rw [Forest.events, run_cons, stays, ih conforms.2 idle (.inr ⟨rfl, on⟩)]
          rfl
        | _ => simp_all [Leaf.isBlock, Leaf.allowed]
    · rw [Forest.events, run_cons,
        handle_leaf_atoms source containing_dir idle state range (by simpa using block),
        ih conforms.2 (idle.landAtoms _) (position.imp_right fun on => ⟨on.1, on.2.landAtoms _⟩)]
      simp [Forest.atoms, Forest.format]
  | node tag range children rest inner ih =>
    have tail (atoms : List Atom) : context = .inline ∨ context = .paragraph ∧
        (atoms.foldl landAtom b).OnParagraph :=
      position.imp_right fun on => ⟨on.1, on.2.landAtoms _⟩
    have inline : context.isInline = true := by
      obtain rfl | ⟨rfl, -⟩ := position <;> rfl
    obtain ⟨shape, within, after⟩ := Forest.conforms_inline_node inline conforms
    simp only [Forest.events, run_cons, run_append]
    obtain isFormat | ⟨url, rfl | rfl⟩ := shape
    · rw [handle_start_format _ _ _ _ _ _ isFormat, inner within idle (.inl rfl),
        handle_stop_format _ _ _ _ _ _ isFormat, ih after (idle.landAtoms _) (tail _)]
      cases tag <;> simp_all [Forest.atoms, Forest.format, Tag.isFormat]
    · rw [handle_start_link, run_link source containing_dir children within idle, Tag.toEnd,
        handle_stop_link, closeLink_outermost, ← landAtoms_images, ← List.foldl_append,
        ih after (idle.landAtoms _) (tail _), ← List.foldl_append]
      by_cases empty : children.ownText = []
      · simp [Forest.atoms, Forest.linkAtoms, Forest.format, Tag.leave, Tag.enter,
          LinkFrame.extend, empty]
      · simp [Forest.atoms, Forest.linkAtoms, Forest.format, Tag.leave, Tag.enter,
          LinkFrame.extend, empty]
    · rw [handle_start_image, run_link source containing_dir children within idle, Tag.toEnd,
        handle_stop_image, closeImage_inside _ _ _ _ url rfl,
        ← List.foldl_concat landImage, ← landAtoms_images, ih after (idle.landAtoms _) (tail _), ← List.foldl_append]
      simp [Forest.atoms, Forest.format, Tag.leave, Tag.enter, LinkFrame.extend, altText_content]

end Inline

end Builder

end Burlmd.Markdown
