import Mathlib.Data.List.Basic
import Mathlib.Tactic.Common
import Burlmd.Markdown.Simulation

/-!
# The text that inline content renders

Merging runs and processing links change no character, so the text of a Block is
the text of the atoms it was built from.
-/

namespace Burlmd.Markdown

open Utf8

theorem renderedInlineText_mergeInto (merged : List InlineElement) (element : InlineElement) :
    renderedInlineText (mergeInto merged element) =
      renderedInlineText merged ++ element.rendered := by
  rcases List.eq_nil_or_concat merged with rfl | ⟨front, last, rfl⟩
  · cases element <;> simp [mergeInto]
  · cases element with
    | text run =>
      cases last with
      | text previous =>
        by_cases same : previous.sameFormat run
        · simp [mergeInto, same, InlineElement.rendered]
        · simp [mergeInto, same]
      | link | externalLink => simp [mergeInto]
    | link | externalLink => simp [mergeInto]

theorem renderedInlineText_merge (inlines : List InlineElement) :
    renderedInlineText (mergeAdjacentTextRuns inlines) = renderedInlineText inlines := by
  have merged (front : List InlineElement) :
      renderedInlineText (inlines.foldl mergeInto front) =
        renderedInlineText front ++ renderedInlineText inlines := by
    induction inlines generalizing front with
    | nil => simp
    | cons element rest ih => simp [ih, renderedInlineText_mergeInto]
  simpa [mergeAdjacentTextRuns] using merged []

mutual

theorem InlineElement.rendered_processed : ∀ element : InlineElement,
    element.processed.rendered = element.rendered
  | .text run => by simp [InlineElement.processed]
  | .link _ _ content => by
    simp [InlineElement.processed, InlineElement.rendered, renderedInlineText_merge,
      renderedInlineText_processedEach content]
  | .externalLink _ content => by
    simp [InlineElement.processed, InlineElement.rendered, renderedInlineText_merge,
      renderedInlineText_processedEach content]

theorem renderedInlineText_processedEach : ∀ inlines : List InlineElement,
    renderedInlineText (processedEach inlines) = renderedInlineText inlines
  | [] => by simp [processedEach]
  | element :: rest => by
    simp [processedEach, InlineElement.rendered_processed element,
      renderedInlineText_processedEach rest]

end

@[simp] theorem renderedInlineText_processInlines (inlines : List InlineElement) :
    renderedInlineText (processInlines inlines) = renderedInlineText inlines := by
  rw [processInlines, renderedInlineText_merge, renderedInlineText_processedEach]

@[simp] theorem rendered_linkElement (kind : LinkKind) (content : List InlineElement) :
    (Builder.linkElement kind content).rendered = renderedInlineText content := by
  rcases kind with ⟨_ | _⟩ | _ <;> simp [Builder.linkElement, InlineElement.rendered]

theorem renderedInlineText_elements (state : FormatState) (l : Leaf) :
    renderedInlineText (l.elements state) = l.rendered := by
  cases shown : l.shown? <;>
    simp [Leaf.elements, Leaf.rendered, shown, InlineElement.rendered, TextRun.fromState]

theorem renderedInlineText_content (containing_dir : Text) (state : FormatState) (f : Forest) :
    renderedInlineText (f.content containing_dir state) = f.ownText := by
  induction f generalizing state with
  | nil => simp [Forest.content, Forest.ownText]
  | leaf l range rest ih =>
    simp [Forest.content, Forest.ownText, renderedInlineText_elements, ih]
  | node tag range children rest inner ih =>
    cases tag with
    | link dest_url =>
      by_cases empty : children.ownText = []
      · simp [Forest.content, Forest.ownText, ih, empty]
      · simp [Forest.content, Forest.ownText, ih, empty, inner]
    | image url => simp [Forest.content, Forest.ownText, ih]
    | _ => simp [Forest.content, Forest.ownText, ih, inner]

/-- The text of an element that lands outside every link. -/
def Atom.text : Atom → Text
  | .element shown _ _ _ => shown.rendered
  | .image hoisted => hoisted.alt_text

/-- The alt texts of the images of a forest, in the order in which they close. -/
def Forest.hoistedText (f : Forest) : Text := f.hoisted.flatMap Image.alt_text

theorem text_leafAtoms (source : Text) (state : FormatState) (l : Leaf) (range : Range) :
    (Forest.leafAtoms source state l range).flatMap Atom.text = l.rendered := by
  cases shown : l.shown? <;>
    simp [Forest.leafAtoms, Leaf.rendered, shown, Atom.text, InlineElement.rendered,
      TextRun.fromState]

def Pending.text (pending : Pending) : Text := renderedInlineText pending.inlines

@[simp] theorem Pending.text_empty : Pending.empty.text = [] := by
  simp [Pending.text, Pending.empty]

@[simp] theorem codeLines_eq (source : Text) (accum : RunAccum) (f : Forest)
    (conforms : f.conforms .verbatim = true) :
    (Flow.codeLines source accum f).1 = f.ownText := by
  induction f generalizing accum with
  | nil => simp [Flow.codeLines, Forest.ownText]
  | node tag => simp [Forest.conforms, Tag.inner] at conforms
  | leaf l range rest ih =>
    simp only [Forest.conforms, Bool.and_eq_true] at conforms
    cases l with
    | text content =>
      by_cases blank : content = []
      · simp [Flow.codeLines, Forest.ownText, Leaf.rendered, Leaf.shown?, blank, ih _ conforms.2]
      · simp [Flow.codeLines, Forest.ownText, Leaf.rendered, Leaf.shown?, blank, ih _ conforms.2]
    | _ => simp [Leaf.allowed] at conforms

namespace Flow

variable (source containing_dir : Text)

theorem text_pushElement (pending : Pending) (element : InlineElement) (chars : Nat)
    (range : Range) (interpolable : Bool) :
    (pending.push (.element element chars range interpolable)).text =
      pending.text ++ element.rendered := by
  simp [Pending.push, Pending.text]

theorem text_pushLeaf (pending : Pending) (state : FormatState) (l : Leaf) (range : Range) :
    ((Forest.leafAtoms source state l range).foldl Pending.push pending).text =
      pending.text ++ l.rendered := by
  cases shown : l.shown? <;>
    simp [Forest.leafAtoms, shown, Leaf.rendered, Pending.push, Pending.text,
      InlineElement.rendered, TextRun.fromState]

theorem pushImages (pending : Pending) (images : List Image) :
    (images.map Atom.image).foldl Pending.push pending = pending := by
  induction images with
  | nil => rfl
  | cons image rest ih => simpa [Pending.push] using ih

theorem text_pushAtoms (f : Forest) (pending : Pending) (state : FormatState) :
    ((f.atoms source containing_dir state).foldl Pending.push pending).text =
      pending.text ++ f.ownText := by
  induction f generalizing pending state with
  | nil => simp [Forest.atoms, Forest.ownText]
  | leaf l range rest ih =>
    simp [Forest.atoms, Forest.ownText, ih, text_pushLeaf]
  | node tag range children rest inner ih =>
    cases tag with
    | link url =>
      by_cases empty : children.ownText = []
      · simp [Forest.atoms, Forest.linkAtoms, Forest.ownText, ih, pushImages, empty]
      · simp [Forest.atoms, Forest.linkAtoms, Forest.ownText, ih, pushImages, empty,
          text_pushElement, renderedInlineText_content]
    | image url =>
      simp only [Forest.atoms, Forest.ownText, List.foldl_append, pushImages, ih]
    | _ => simp [Forest.atoms, Forest.ownText, ih, inner]

theorem imagesOf_append (first second : List Atom) :
    imagesOf (first ++ second) = imagesOf first ++ imagesOf second := by
  simp [imagesOf]

theorem imagesOf_images (images : List Image) : imagesOf (images.map .image) = images := by
  simp [imagesOf, List.filterMap_map]

theorem any_isImage_iff (atoms : List Atom) :
    atoms.any Atom.isImage = true ↔ imagesOf atoms ≠ [] := by
  induction atoms with
  | nil => simp [imagesOf]
  | cons atom rest ih =>
    cases atom <;> simp_all [imagesOf, Atom.isImage]

theorem imagesOf_atoms (f : Forest) (state : FormatState) :
    imagesOf (f.atoms source containing_dir state) = f.hoisted := by
  induction f generalizing state with
  | nil => rfl
  | leaf l range rest ih =>
    have none_ : imagesOf (Forest.leafAtoms source state l range) = [] := by
      cases shown : l.shown? <;> simp [Forest.leafAtoms, shown, imagesOf]
    simp [Forest.atoms, Forest.hoisted, imagesOf_append, none_, ih]
  | node tag range children rest inner ih =>
    cases tag with
    | link url =>
      have none_ : imagesOf (children.linkAtoms containing_dir state url range) = [] := by
        by_cases empty : children.ownText = [] <;> simp [Forest.linkAtoms, imagesOf, empty]
      simp [Forest.atoms, Forest.hoisted, imagesOf_append, imagesOf_images, none_, ih]
    | image url =>
      simp only [Forest.atoms, Forest.hoisted, imagesOf_append, imagesOf_images, ih]
      simp
    | _ => simp [Forest.atoms, Forest.hoisted, imagesOf_append, inner, ih]

end Flow

end Burlmd.Markdown
