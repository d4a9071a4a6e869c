import Mathlib.Data.List.Basic
import Mathlib.Tactic.Common
import Burlmd.Library.Utf8

/-!
# Event streams

`pulldown-cmark` yields one event stream with source ranges for a source text.
A well-nested stream is the traversal of a `Forest`; `conforms` is the part of
the CommonMark grammar that says which construct may stand in which, and
`placed` says that the ranges are character ranges, nested and in source order.
-/

namespace Burlmd.Markdown

open Utf8

inductive CodeBlockKind where
  | indented
  | fenced (lang : Text)
  deriving DecidableEq, Repr

inductive Tag where
  | paragraph
  | heading (level : Nat)
  | blockQuote
  | codeBlock (kind : CodeBlockKind)
  | htmlBlock
  | list (start_number : Option Nat)
  | item
  | metadataBlock
  | emphasis
  | strong
  | strikethrough
  | link (dest_url : Text)
  | image (dest_url : Text)
  deriving DecidableEq, Repr

inductive TagEnd where
  | paragraph
  | heading
  | blockQuote
  | codeBlock
  | htmlBlock
  | list
  | item
  | metadataBlock
  | emphasis
  | strong
  | strikethrough
  | link
  | image
  deriving DecidableEq, Repr

def Tag.toEnd : Tag → TagEnd
  | paragraph => .paragraph
  | heading _ => .heading
  | blockQuote => .blockQuote
  | codeBlock _ => .codeBlock
  | htmlBlock => .htmlBlock
  | list _ => .list
  | item => .item
  | metadataBlock => .metadataBlock
  | emphasis => .emphasis
  | strong => .strong
  | strikethrough => .strikethrough
  | link _ => .link
  | image _ => .image

/-- The events that open and close nothing. -/
inductive Leaf where
  | text (text : Text)
  | code (text : Text)
  | html (text : Text)
  | inlineHtml (text : Text)
  | softBreak
  | hardBreak
  | rule
  | taskListMarker (checked : Bool)
  deriving DecidableEq, Repr

inductive Event where
  | start (tag : Tag)
  | stop (tag_end : TagEnd)
  | leaf (leaf : Leaf)
  deriving DecidableEq, Repr

inductive Forest where
  | nil
  | leaf (leaf : Leaf) (range : Range) (rest : Forest)
  | node (tag : Tag) (range : Range) (children rest : Forest)
  deriving DecidableEq, Repr

/-- What a construct may hold: blocks and bare inline content, list items, the inline
content of a paragraph, other inline content, the lines of a code or metadata block,
the lines of an HTML block. -/
inductive Context where
  | flow
  | items
  | paragraph
  | inline
  | verbatim
  | markup
  deriving DecidableEq, Repr

/-- Only inside a code or metadata block may a leaf have an empty range: the parser
synthesizes the text of a tab that an indentation consumed in part. -/
def Leaf.allowed (range : Range) : Context → Leaf → Bool
  | .flow, .code content => content ≠ [] && range.start < range.stop
  | .flow, _ => range.start < range.stop
  | .paragraph, .code content | .inline, .code content =>
      content ≠ [] && range.start < range.stop
  | .paragraph, .rule | .inline, .rule => false
  | .inline, .taskListMarker _ => false
  | .paragraph, _ => range.start < range.stop
  | .inline, _ => range.start < range.stop
  | .verbatim, .text _ => true
  | .verbatim, _ => false
  | .markup, .html _ => true
  | .markup, _ => false
  | .items, _ => false

/-- The context inside `tag`, when the grammar admits it in the outer context. -/
def Tag.inner : Context → Tag → Option Context
  | .flow, paragraph => some .paragraph
  | .flow, heading _ => some .inline
  | .flow, blockQuote => some .flow
  | .flow, codeBlock _ => some .verbatim
  | .flow, metadataBlock => some .verbatim
  | .flow, htmlBlock => some .markup
  | .flow, list _ => some .items
  | .items, item => some .flow
  | .flow, tag | .paragraph, tag | .inline, tag =>
      match tag with
      | emphasis | strong | strikethrough | link _ | image _ => some .inline
      | _ => none
  | _, _ => none

namespace Forest

def events : Forest → List (Event × Range)
  | nil => []
  | leaf l range rest => (.leaf l, range) :: rest.events
  | node tag range children rest =>
      (.start tag, range) :: (children.events ++ (.stop tag.toEnd, range) :: rest.events)

def conforms : Context → Forest → Bool
  | _, nil => true
  | context, leaf l range rest => l.allowed range context && rest.conforms context
  | context, node tag _ children rest =>
      match tag.inner context with
      | some inner => children.conforms inner && rest.conforms context
      | none => false

/-- The ranges of a forest are character ranges of `source` between `low` and `high`. -/
def placed (source : Text) : Nat → Nat → Forest → Bool
  | low, high, nil => low ≤ high
  | low, high, leaf _ range rest =>
      low ≤ range.start && (slice? source range).isSome && rest.placed source range.stop high
  | low, high, node _ range children rest =>
      low ≤ range.start && range.start < range.stop && (slice? source range).isSome &&
        children.placed source range.start range.stop && rest.placed source range.stop high

end Forest

/-- One event stream of `pulldown-cmark` for the text `source`. -/
structure EventStream (source : Text) where
  forest : Forest
  conforms : forest.conforms .flow = true
  placed : forest.placed source 0 (byteLen source) = true

def EventStream.events {source : Text} (stream : EventStream source) : List (Event × Range) :=
  stream.forest.events

namespace Forest

theorem placed.le {source : Text} {low high : Nat} {forest : Forest}
    (placed : forest.placed source low high = true) : low ≤ high := by
  induction forest generalizing low with
  | nil => simpa [Forest.placed] using placed
  | leaf l range rest ih =>
    simp only [Forest.placed, Bool.and_eq_true, decide_eq_true_eq] at placed
    obtain ⟨⟨start, slice⟩, tail⟩ := placed
    have ordered := (slice?_isSome_iff.mp slice).1
    have := ih tail
    omega
  | node tag range children rest _ ih =>
    simp only [Forest.placed, Bool.and_eq_true, decide_eq_true_eq] at placed
    obtain ⟨⟨⟨⟨start, ordered⟩, _⟩, _⟩, tail⟩ := placed
    have := ih tail
    omega

theorem placed_alone {source : Text} {tag : Tag} {range : Range} {children : Forest}
    {low : Nat} (start : low ≤ range.start) (ordered : range.start < range.stop)
    (slice : (slice? source range).isSome)
    (within : children.placed source range.start range.stop = true) :
    (node tag range children nil).placed source low range.stop = true := by
  simp [Forest.placed, start, ordered, slice, within]

end Forest

end Burlmd.Markdown
