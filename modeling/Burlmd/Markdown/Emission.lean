import Mathlib.Data.List.Basic
import Mathlib.Tactic.Common
import Burlmd.Markdown.Parser

/-!
# What the parser emits

A structural reading of an event stream, with no stack: inline content becomes
atoms, block content becomes a list of `Emitted` blocks, and only the pending
inline content is threaded from one construct to the next. `Refinement` shows
that the builder computes exactly this.
-/

namespace Burlmd.Markdown

open Utf8
open Okf (classify)

namespace Leaf

/-- The characters an inline leaf renders, and whether it is a code span. -/
def shown? : Leaf → Option (Text × Bool)
  | .text content => if content = [] then none else some (content, false)
  | .code content => some (content, true)
  | .softBreak | .hardBreak => some (['\n'], false)
  | .html _ | .inlineHtml _ | .rule | .taskListMarker _ => none

def rendered (leaf : Leaf) : Text := (leaf.shown?.map Prod.fst).getD []

/-- A leaf that a container takes itself, and not the inline content in it. -/
def isBlock : Leaf → Bool
  | .rule | .taskListMarker _ => true
  | _ => false

def elements (format : FormatState) (leaf : Leaf) : List InlineElement :=
  leaf.shown?.toList.map fun shown => .text (.fromState shown.1 format shown.2)

end Leaf

namespace Tag

def enter (format : FormatState) : Tag → FormatState
  | strong => { format with bold := true }
  | emphasis => { format with italic := true }
  | strikethrough => { format with strikethrough := true }
  | _ => format

def isFormat : Tag → Bool
  | strong | emphasis | strikethrough => true
  | _ => false

/-- Closing a construct switches its formatting off, also inside one of its kind. -/
def leave (format : FormatState) : Tag → FormatState
  | strong => { format with bold := false }
  | emphasis => { format with italic := false }
  | strikethrough => { format with strikethrough := false }
  | _ => format

end Tag

/-- The contexts that hold inline content only. -/
def Context.isInline : Context → Bool
  | .paragraph | .inline => true
  | _ => false

theorem Forest.conforms_inline_node {context : Context} {tag : Tag} {range : Range}
    {children rest : Forest} (inline : context.isInline = true)
    (conforms : (Forest.node tag range children rest).conforms context = true) :
    (tag.isFormat = true ∨ ∃ url, tag = .link url ∨ tag = .image url) ∧
      children.conforms .inline = true ∧ rest.conforms context = true := by
  cases context <;> simp only [Context.isInline, Bool.false_eq_true] at inline <;>
    cases tag <;> simp_all [Forest.conforms, Tag.inner, Tag.isFormat]

structure Image where
  alt_text : Text
  url : Text
  source : Range
  deriving DecidableEq, Repr

inductive Atom where
  | element (element : InlineElement) (chars : Nat) (source : Range) (interpolable : Bool)
  | image (image : Image)
  deriving Repr

def Atom.isImage : Atom → Bool
  | element .. => false
  | image _ => true

namespace Forest

/-- The formatting in force after a forest of inline content. -/
def format : FormatState → Forest → FormatState
  | state, nil => state
  | state, leaf _ _ rest => rest.format state
  | state, node tag _ children rest =>
      rest.format (tag.leave (children.format (tag.enter state)))

/-- The text shown outside every image. -/
def ownText : Forest → Text
  | nil => []
  | leaf l _ rest => l.rendered ++ rest.ownText
  | node (.image _) _ _ rest => rest.ownText
  | node _ _ children rest => children.ownText ++ rest.ownText

/-- The text outside every link and image, which is what an image keeps as its alt text. -/
def altText : Forest → Text
  | nil => []
  | leaf l _ rest => l.rendered ++ rest.altText
  | node (.link _) _ _ rest | node (.image _) _ _ rest => rest.altText
  | node _ _ children rest => children.altText ++ rest.altText

/-- The images of a forest in the order in which they close. -/
def hoisted : Forest → List Image
  | nil => []
  | leaf _ _ rest => rest.hoisted
  | node (.image url) range children rest =>
      children.hoisted ++ ⟨children.altText, url, range⟩ :: rest.hoisted
  | node _ _ children rest => children.hoisted ++ rest.hoisted

/-- The elements a forest adds to the link or image around it. -/
def content (containing_dir : Text) : FormatState → Forest → List InlineElement
  | _, nil => []
  | state, leaf l _ rest => l.elements state ++ rest.content containing_dir state
  | state, node tag _ children rest =>
      let inner := children.content containing_dir (tag.enter state)
      let after := tag.leave (children.format (tag.enter state))
      (match tag with
        | .link dest_url =>
            if children.ownText = [] then []
            else [Builder.linkElement (.link (classify dest_url containing_dir))
              (processInlines inner)]
        | .image _ => []
        | _ => inner) ++ rest.content containing_dir after

def leafAtoms (source : Text) (state : FormatState) (l : Leaf) (range : Range) : List Atom :=
  l.shown?.toList.map fun shown =>
    .element (.text (.fromState shown.1 state shown.2)) shown.1.length range
      (slice? source range = some shown.1)

/-- What a link outside every link lands after its images. -/
def linkAtoms (containing_dir : Text) (state : FormatState) (dest_url : Text) (range : Range)
    (children : Forest) : List Atom :=
  if children.ownText = [] then []
  else [.element (Builder.linkElement (.link (classify dest_url containing_dir))
      (processInlines (children.content containing_dir state)))
    children.ownText.length range false]

/-- A forest of inline content outside every link. -/
def atoms (source containing_dir : Text) : FormatState → Forest → List Atom
  | _, nil => []
  | state, leaf l range rest =>
      leafAtoms source state l range ++ rest.atoms source containing_dir state
  | state, node tag range children rest =>
      let after := tag.leave (children.format (tag.enter state))
      (match tag with
        | .link dest_url =>
            children.hoisted.map .image ++
              children.linkAtoms containing_dir state dest_url range
        | .image url => (children.hoisted ++ [Image.mk children.altText url range]).map .image
        | _ => children.atoms source containing_dir (tag.enter state)) ++
        rest.atoms source containing_dir after

end Forest

inductive ContainerKind where
  | blockquote
  | list (ordered : Bool)
  | listItem (checked : Option Bool)
  deriving DecidableEq, Repr

def ContainerKind.node (nodes : List AstNode) : ContainerKind → AstNode
  | blockquote => .blockquote nodes
  | list ordered => .list ordered nodes
  | listItem checked => .listItem nodes checked

inductive Emitted where
  | leaf (node : AstNode) (source : Option Range) (runs : List InlineRun)
  | container (kind : ContainerKind) (source : Range) (children : List Emitted)
  deriving Repr

mutual

def Emitted.node : Emitted → AstNode
  | .leaf node _ _ => node
  | .container kind _ children => kind.node (nodesOf children)

def nodesOf : List Emitted → List AstNode
  | [] => []
  | block :: rest => block.node :: nodesOf rest

end

mutual

/-- The entries a block adds to the span map, children first. -/
def Emitted.register (path : BlockPath) : Emitted → List BlockSpan
  | .leaf _ none _ => []
  | .leaf _ (some source) runs => [⟨path, source, runs, SpanMapBuilder.renderedEnd runs, []⟩]
  | .container _ source children => registerAll path 0 children ++ [⟨path, source, [], 0, []⟩]

def registerAll (path : BlockPath) (first : Nat) : List Emitted → List BlockSpan
  | [] => []
  | block :: rest => block.register (path ++ [first]) ++ registerAll path (first + 1) rest

end

def Image.emitted (image : Image) : Emitted :=
  .leaf (.image image.alt_text image.url) (some image.source)
    (RunAccum.empty.push image.alt_text.length image.source false).runs

/-- Inline content that no Block holds yet. -/
structure Pending where
  inlines : List InlineElement
  runs : RunAccum
  deriving Repr

namespace Pending

def empty : Pending := ⟨[], .empty⟩

def push (pending : Pending) : Atom → Pending
  | .element element chars source interpolable =>
      ⟨pending.inlines ++ [element], pending.runs.push chars source interpolable⟩
  | .image _ => pending

/-- The paragraph pending content becomes, when there is any. -/
def paragraph (pending : Pending) (source : Option Range) : List Emitted :=
  if pending.inlines = [] then []
  else [.leaf (.paragraph (processInlines pending.inlines)) source pending.runs.runs]

def flush (pending : Pending) : List Emitted := pending.paragraph (runExtent pending.runs.runs)

end Pending

structure Flow where
  /-- The blocks attached to the innermost container so far. -/
  blocks : List Emitted
  checked : Option Bool
  pending : Pending
  format : FormatState
  frontmatter : Option Range
  deriving Repr

namespace Flow

def initial : Flow := ⟨[], none, .empty, .plain, none⟩

def push (st : Flow) (blocks : List Emitted) : Flow := { st with blocks := st.blocks ++ blocks }

def flush (st : Flow) : Flow :=
  { st with blocks := st.blocks ++ st.pending.flush, pending := .empty }

def land (st : Flow) : Atom → Flow
  | .element element chars source interpolable =>
      { st with pending := st.pending.push (.element element chars source interpolable) }
  | .image image => st.flush.push [image.emitted]

/-- The state inside a container that opens here. -/
def enter (st : Flow) : Flow := { st with blocks := [], checked := none }

def leave (st inner : Flow) (kind : ContainerKind) (range : Range) : Flow :=
  { inner with
    blocks := st.blocks ++ [.container kind range inner.blocks]
    checked := st.checked }

variable (source containing_dir : Text)

/-- Bare inline content. -/
def bare (st : Flow) (forest : Forest) : Flow :=
  { (forest.atoms source containing_dir st.format).foldl land st with
    format := forest.format st.format }

def tagSource (range : Range) (atoms : List Atom) (pending : Pending) : Option Range :=
  if atoms.any Atom.isImage then runExtent pending.runs.runs else some range

def paragraph (st : Flow) (range : Range) (children : Forest) : Flow :=
  let atoms := children.atoms source containing_dir st.format
  let landed := atoms.foldl land { st with pending := .empty }
  { landed with
    blocks := landed.blocks ++
      landed.pending.paragraph (tagSource range atoms landed.pending)
    pending := .empty
    format := children.format st.format }

def imagesOf (atoms : List Atom) : List Image :=
  atoms.filterMap fun atom =>
    match atom with
    | .image image => some image
    | .element .. => none

def heading (st : Flow) (level : Nat) (range : Range) (children : Forest) : Flow :=
  let atoms := children.atoms source containing_dir st.format
  let pending := atoms.foldl Pending.push .empty
  { st with
    blocks := st.blocks ++
      .leaf (.heading level (processInlines pending.inlines)) (tagSource range atoms pending)
        pending.runs.runs :: (imagesOf atoms).map Image.emitted
    pending := .empty
    format := children.format st.format }

/-- The text of the lines of a code block, and the runs they emit. -/
def codeLines (accum : RunAccum) : Forest → Text × RunAccum
  | .leaf (.text content) range rest =>
      let next := accum.push content.length range (slice? source range = some content)
      let lines := codeLines next rest
      (content ++ lines.1, lines.2)
  | .leaf _ _ rest => codeLines accum rest
  | .node _ _ _ rest => codeLines accum rest
  | .nil => ([], accum)

def codeBlock (st : Flow) (kind : CodeBlockKind) (range : Range) (children : Forest) : Flow :=
  let lines := codeLines source .empty children
  st.push [.leaf (.codeBlock kind.language lines.1) (some range) lines.2.runs]

def leaf (st : Flow) (l : Leaf) (range : Range) : Flow :=
  match l with
  | .rule => st.push [.leaf .thematicBreak (some range) []]
  | .taskListMarker checked => { st with checked := some checked }
  | _ => (Forest.leafAtoms source st.format l range).foldl land st

end Flow

/-- The blocks of a forest in flow or list position. -/
def Forest.emit (source containing_dir : Text) : Flow → Forest → Flow
  | st, nil => st
  | st, leaf l range rest => rest.emit source containing_dir (st.leaf source l range)
  | st, node tag range children rest =>
      rest.emit source containing_dir <|
        match tag with
        | .paragraph => st.paragraph source containing_dir range children
        | .heading level => st.heading source containing_dir level range children
        | .blockQuote =>
            st.leave (children.emit source containing_dir st.enter) .blockquote range
        | .list start_number =>
            let st := st.flush
            st.leave (children.emit source containing_dir st.enter)
              (.list start_number.isSome) range
        | .item =>
            let inner := (children.emit source containing_dir st.enter).flush
            st.leave inner (.listItem inner.checked) range
        | .codeBlock kind => st.codeBlock source kind range children
        | .metadataBlock => { st with frontmatter := some range }
        | .htmlBlock => st
        | _ => st.bare source containing_dir (.node tag range children .nil)

end Burlmd.Markdown
