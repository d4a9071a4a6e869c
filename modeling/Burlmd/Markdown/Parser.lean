import Mathlib.Data.List.Basic
import Mathlib.Tactic.Common
import Burlmd.Markdown.Ast
import Burlmd.Markdown.Events
import Burlmd.Markdown.Spans

/-!
# The parser

`Builder.handle` consumes one event of the stream. Open containers and inline-only
frames stand on `frames`, open links and images on `link_stack`, both innermost
first; the inline content of the Block being built is in `inlines` and `runs`.
-/

namespace Burlmd.Markdown

open Utf8
open Okf (LinkTarget)

structure FormatState where
  bold : Bool
  italic : Bool
  strikethrough : Bool
  deriving DecidableEq, Repr

def FormatState.plain : FormatState := ⟨false, false, false⟩

def TextRun.fromState (content : Text) (format_state : FormatState) (code : Bool) : TextRun :=
  ⟨content, format_state.bold, format_state.italic, format_state.strikethrough, code⟩

inductive LinkKind where
  | link (target : LinkTarget)
  | image (url : Text)
  deriving DecidableEq, Repr

structure LinkFrame where
  kind : LinkKind
  content : List InlineElement
  source : Range
  /-- Rendered characters inside this link; its children emit no runs of their own. -/
  rendered_chars : Nat
  deriving Repr

structure RunAccum where
  runs : List InlineRun
  rendered_len : Nat
  deriving DecidableEq, Repr

namespace RunAccum

def empty : RunAccum := ⟨[], 0⟩

def push (accum : RunAccum) (rendered_chars : Nat) (source : Range) (interpolable : Bool) :
    RunAccum :=
  if rendered_chars = 0 then accum
  else
    let stop := accum.rendered_len + rendered_chars
    ⟨accum.runs ++ [⟨⟨accum.rendered_len, stop⟩, source, interpolable⟩], stop⟩

end RunAccum

structure CodeBlockAccum where
  language : Option Text
  code : Text
  source : Range
  runs : RunAccum
  deriving DecidableEq, Repr

inductive FrameKind where
  | heading (level : Nat)
  | paragraph
  | blockquote (path : BlockPath) (nodes : List AstNode)
  | list (path : BlockPath) (ordered : Bool) (items : List AstNode)
  | listItem (path : BlockPath) (content : List AstNode) (checked : Option Bool)
  deriving Repr

structure Frame where
  kind : FrameKind
  source : Range
  /-- A Block was hoisted out of this frame. -/
  split : Bool
  deriving Repr

namespace FrameKind

def holdsChildren : FrameKind → Bool
  | blockquote .. | list .. | listItem .. => true
  | heading _ | paragraph => false

@[simp] theorem holdsChildren_heading (level : Nat) :
    (heading level).holdsChildren = false := rfl

@[simp] theorem holdsChildren_paragraph : paragraph.holdsChildren = false := rfl

@[simp] theorem holdsChildren_blockquote (path : BlockPath) (nodes : List AstNode) :
    (blockquote path nodes).holdsChildren = true := rfl

@[simp] theorem holdsChildren_list (path : BlockPath) (ordered : Bool) (items : List AstNode) :
    (list path ordered items).holdsChildren = true := rfl

@[simp] theorem holdsChildren_listItem (path : BlockPath) (content : List AstNode)
    (checked : Option Bool) : (listItem path content checked).holdsChildren = true := rfl

def path : FrameKind → BlockPath
  | blockquote path _ | list path _ _ | listItem path _ _ => path
  | heading _ | paragraph => []

def nodes : FrameKind → List AstNode
  | blockquote _ nodes | list _ _ nodes | listItem _ nodes _ => nodes
  | heading _ | paragraph => []

def push (node : AstNode) : FrameKind → FrameKind
  | blockquote path nodes => blockquote path (nodes ++ [node])
  | list path ordered items => list path ordered (items ++ [node])
  | listItem path content checked => listItem path (content ++ [node]) checked
  | kind => kind

end FrameKind

structure DeferredBlock where
  node : AstNode
  source : Range
  runs : List InlineRun
  deriving Repr

structure Builder where
  root_nodes : List AstNode
  frames : List Frame
  inlines : List InlineElement
  runs : RunAccum
  format_state : FormatState
  code_block : Option CodeBlockAccum
  link_stack : List LinkFrame
  spans : SpanMapBuilder
  in_metadata : Bool
  /-- Blocks hoisted out of a frame that cannot hold Block children. -/
  deferred : List DeferredBlock
  deriving Repr

structure ParsedNote where
  ast : List AstNode
  spans : SpanMap
  deriving Repr

def TextRun.sameFormat (left right : TextRun) : Bool :=
  left.bold = right.bold && left.italic = right.italic &&
    left.strikethrough = right.strikethrough && left.code = right.code

def mergeInto (merged : List InlineElement) (element : InlineElement) : List InlineElement :=
  match element, merged.getLast? with
  | .text run, some (.text last) =>
      if last.sameFormat run then
        merged.dropLast ++ [.text { last with content := last.content ++ run.content }]
      else merged ++ [element]
  | _, _ => merged ++ [element]

def mergeAdjacentTextRuns (inlines : List InlineElement) : List InlineElement :=
  inlines.foldl mergeInto []

mutual

def InlineElement.processed : InlineElement → InlineElement
  | .text run => .text run
  | .link target_id exists_ content =>
      .link target_id exists_ (mergeAdjacentTextRuns (processedEach content))
  | .externalLink url content =>
      .externalLink url (mergeAdjacentTextRuns (processedEach content))

def processedEach : List InlineElement → List InlineElement
  | [] => []
  | element :: rest => element.processed :: processedEach rest

end

/-- Merges inside out; `processInlines_eq_map` is the order the source has. -/
def processInlines (raw_inlines : List InlineElement) : List InlineElement :=
  mergeAdjacentTextRuns (processedEach raw_inlines)

theorem mergeInto_processed (merged : List InlineElement) (element : InlineElement) :
    (mergeInto merged element).map InlineElement.processed =
      mergeInto (merged.map InlineElement.processed) element.processed := by
  rcases List.eq_nil_or_concat merged with rfl | ⟨front, last, rfl⟩
  · cases element <;> simp [mergeInto, InlineElement.processed]
  · cases element with
    | text run =>
      cases last with
      | text previous =>
        by_cases same : previous.sameFormat run
        · simp [mergeInto, InlineElement.processed, same]
        · simp [mergeInto, InlineElement.processed, same]
      | link | externalLink => simp [mergeInto, InlineElement.processed]
    | link | externalLink => simp [mergeInto, InlineElement.processed]

theorem processedEach_eq_map (inlines : List InlineElement) :
    processedEach inlines = inlines.map InlineElement.processed := by
  induction inlines with
  | nil => simp [processedEach]
  | cons element rest ih => simp [processedEach, ih]

theorem processInlines_eq_map (raw_inlines : List InlineElement) :
    processInlines raw_inlines =
      (mergeAdjacentTextRuns raw_inlines).map InlineElement.processed := by
  have merged (front : List InlineElement) :
      (raw_inlines.map InlineElement.processed).foldl mergeInto
          (front.map InlineElement.processed) =
        (raw_inlines.foldl mergeInto front).map InlineElement.processed := by
    induction raw_inlines generalizing front with
    | nil => simp
    | cons element rest ih =>
      simp only [List.map_cons, List.foldl_cons, ← mergeInto_processed, ih]
  simpa [processInlines, mergeAdjacentTextRuns, processedEach_eq_map] using merged []

/-- The extent of a set of runs, from the first to the last. -/
def runExtent (runs : List InlineRun) : Option Range :=
  match runs.head?, runs.getLast? with
  | some first, some last => some ⟨first.source.start, last.source.stop⟩
  | _, _ => none

def splitAdjustedSource (frame : Frame) (runs : List InlineRun) : Option Range :=
  if frame.split then runExtent runs else some frame.source

/-- The characters that Rust's `str::trim` removes. -/
def isWhiteSpace (c : Char) : Bool :=
  let n := c.toNat
  (9 ≤ n && n ≤ 13) || n = 0x20 || n = 0x85 || n = 0xA0 || n = 0x1680 ||
    (0x2000 ≤ n && n ≤ 0x200A) || n = 0x2028 || n = 0x2029 || n = 0x202F || n = 0x205F ||
    n = 0x3000

def trim (text : Text) : Text :=
  ((text.dropWhile isWhiteSpace).reverse.dropWhile isWhiteSpace).reverse

def CodeBlockKind.language : CodeBlockKind → Option Text
  | indented => none
  | fenced lang => if trim lang = [] then none else some (trim lang)

namespace Builder

def new : Builder :=
  ⟨[], [], [], .empty, .plain, none, [], .empty, false, []⟩

def containerIndex (b : Builder) : Option Nat :=
  b.frames.findIdx? fun frame => frame.kind.holdsChildren

def nextPath (b : Builder) : BlockPath :=
  match b.containerIndex.bind fun index => b.frames[index]? with
  | none => [b.root_nodes.length]
  | some frame => frame.kind.path ++ [frame.kind.nodes.length]

def attach (b : Builder) (node : AstNode) : Builder :=
  match b.containerIndex with
  | none => { b with root_nodes := b.root_nodes ++ [node] }
  | some index =>
      { b with frames := b.frames.modify index fun frame =>
          { frame with kind := frame.kind.push node } }

def pushBlock (b : Builder) (node : AstNode) (source : Option Range) (runs : List InlineRun) :
    Builder :=
  match source with
  | some source => { b with spans := b.spans.pushBlock b.nextPath source runs }.attach node
  | none => b.attach node

def pushContainer (b : Builder) (node : AstNode) (path : BlockPath) (source : Range) : Builder :=
  { b with spans := b.spans.pushBlock path source [] }.attach node

def openFrame (b : Builder) (kind : FrameKind) (source : Range) : Builder :=
  { b with frames := ⟨kind, source, false⟩ :: b.frames }

def resetInlines (b : Builder) : Builder := { b with inlines := [], runs := .empty }

def flushPendingInlines (b : Builder) : Builder :=
  if b.inlines = [] then { b with runs := .empty }
  else
    { b with inlines := [], runs := .empty }.pushBlock (.paragraph (processInlines b.inlines))
      (runExtent b.runs.runs) b.runs.runs

def emitRun (b : Builder) (rendered_chars : Nat) (source : Range) (interpolable : Bool) :
    Builder :=
  match b.link_stack with
  | frame :: rest =>
      { b with link_stack :=
          { frame with rendered_chars := frame.rendered_chars + rendered_chars } :: rest }
  | [] => { b with runs := b.runs.push rendered_chars source interpolable }

def pushInline (b : Builder) (element : InlineElement) : Builder :=
  match b.link_stack with
  | frame :: rest =>
      { b with link_stack := { frame with content := frame.content ++ [element] } :: rest }
  | [] => { b with inlines := b.inlines ++ [element] }

def pushRun (source : Text) (b : Builder) (rendered : Text) (range : Range) : Builder :=
  b.emitRun rendered.length range (slice? source range = some rendered)

def openLink (b : Builder) (kind : LinkKind) (range : Range) : Builder :=
  { b with link_stack := ⟨kind, [], range, 0⟩ :: b.link_stack }

def linkElement (kind : LinkKind) (content : List InlineElement) : InlineElement :=
  match kind with
  | .link (.internal target_id) => .link target_id false content
  | .link (.external url) => .externalLink url content
  | .image url => .externalLink url content

def closeLink (b : Builder) : Builder :=
  match b.link_stack with
  | [] => b
  | frame :: rest =>
      let b := { b with link_stack := rest }
      -- A link that renders no characters contributes to neither the tree nor the map.
      if frame.rendered_chars = 0 then b
      else
        (b.emitRun frame.rendered_chars frame.source false).pushInline
          (linkElement frame.kind (processInlines frame.content))

/-- The content of the text runs directly inside an image; links contribute nothing. -/
def altText (content : List InlineElement) : Text :=
  content.flatMap fun element =>
    match element with
    | .text run => run.content
    | _ => []

/-- Marks the frame an image is hoisted out of, and tells whether it must wait. -/
def splitFrame (b : Builder) : Builder × Bool :=
  match b.frames with
  | frame :: rest =>
      match frame.kind with
      | .paragraph => ({ b with frames := { frame with split := true } :: rest }, false)
      | .heading _ => ({ b with frames := { frame with split := true } :: rest }, true)
      | _ => (b, false)
  | [] => (b, false)

def closeImage (b : Builder) : Builder :=
  match b.link_stack with
  | [] => b
  | frame :: rest =>
      let alt_text := altText frame.content
      let (b, defer) := { b with link_stack := rest }.splitFrame
      let b := if defer then b else b.flushPendingInlines
      let runs := (RunAccum.empty.push alt_text.length frame.source false).runs
      match frame.kind with
      | .link _ => b
      | .image url_or_path =>
          let node := AstNode.image alt_text url_or_path
          if defer then { b with deferred := b.deferred ++ [⟨node, frame.source, runs⟩] }
          else b.pushBlock node (some frame.source) runs

def drainDeferred (b : Builder) : Builder :=
  b.deferred.foldl (fun b deferred => b.pushBlock deferred.node (some deferred.source) deferred.runs)
    { b with deferred := [] }

def text (source : Text) (b : Builder) (content : Text) (range : Range) : Builder :=
  if b.in_metadata then b
  else if content = [] then b
  else
    match b.code_block with
    | some accum =>
        let interpolable := slice? source range = some content
        { b with
          code_block := some { accum with
            code := accum.code ++ content
            runs := accum.runs.push content.length range interpolable } }
    | none =>
        (b.pushRun source content range).pushInline
          (.text (.fromState content b.format_state false))

def codeSpan (source : Text) (b : Builder) (content : Text) (range : Range) : Builder :=
  (b.pushRun source content range).pushInline (.text (.fromState content b.format_state true))

def lineBreak (source : Text) (b : Builder) (range : Range) : Builder :=
  (b.pushRun source ['\n'] range).pushInline (.text (.fromState ['\n'] b.format_state false))

def setChecked (b : Builder) (checked : Bool) : Builder :=
  match b.frames with
  | ⟨.listItem path content _, range, split⟩ :: rest =>
      { b with frames := ⟨.listItem path content (some checked), range, split⟩ :: rest }
  | _ => b

def start (containing_dir : Text) (b : Builder) (tag : Tag) (range : Range) : Builder :=
  match tag with
  | .metadataBlock => { b with spans := b.spans.setFrontmatter range, in_metadata := true }
  | .heading level => b.resetInlines.openFrame (.heading level) range
  | .paragraph => b.resetInlines.openFrame .paragraph range
  | .blockQuote => b.openFrame (.blockquote b.nextPath []) range
  | .list start_number =>
      -- The text of a tight item ahead of a nested list belongs to the item.
      let b := b.flushPendingInlines
      b.openFrame (.list b.nextPath start_number.isSome []) range
  | .item => b.openFrame (.listItem b.nextPath [] none) range
  | .codeBlock kind => { b with code_block := some ⟨kind.language, [], range, .empty⟩ }
  | .link dest_url => b.openLink (.link (Okf.classify dest_url containing_dir)) range
  | .image dest_url => b.openLink (.image dest_url) range
  | .strong => { b with format_state.bold := true }
  | .emphasis => { b with format_state.italic := true }
  | .strikethrough => { b with format_state.strikethrough := true }
  | .htmlBlock => b

def endHeading (b : Builder) : Builder :=
  match b.frames with
  | [] => b
  | frame :: rest =>
      let b := { b with frames := rest }
      match frame.kind with
      | .heading level =>
          let content := processInlines b.inlines
          ({ b with inlines := [], runs := .empty }.pushBlock (.heading level content)
            (splitAdjustedSource frame b.runs.runs) b.runs.runs).drainDeferred
      | _ => b

def endParagraph (b : Builder) : Builder :=
  match b.frames with
  | [] => b
  | frame :: rest =>
      let b := { b with frames := rest }
      match frame.kind with
      | .paragraph =>
          if b.inlines = [] then { b with runs := .empty }
          else
            let content := processInlines b.inlines
            { b with inlines := [], runs := .empty }.pushBlock (.paragraph content)
              (splitAdjustedSource frame b.runs.runs) b.runs.runs
      | _ => b

def endBlockQuote (b : Builder) : Builder :=
  match b.frames with
  | [] => b
  | frame :: rest =>
      let b := { b with frames := rest }
      match frame.kind with
      | .blockquote path nodes => b.pushContainer (.blockquote nodes) path frame.source
      | _ => b

def endList (b : Builder) : Builder :=
  match b.frames with
  | [] => b
  | frame :: rest =>
      let b := { b with frames := rest }
      match frame.kind with
      | .list path ordered items => b.pushContainer (.list ordered items) path frame.source
      | _ => b

/-- The bare text of a tight item is flushed into it before it closes. -/
def endItem (b : Builder) : Builder :=
  let b := b.flushPendingInlines
  match b.frames with
  | [] => b
  | frame :: rest =>
      let b := { b with frames := rest }
      match frame.kind with
      | .listItem path content checked =>
          b.pushContainer (.listItem content checked) path frame.source
      | _ => b

def endCodeBlock (b : Builder) : Builder :=
  match b.code_block with
  | none => b
  | some accum =>
      { b with code_block := none }.pushBlock (.codeBlock accum.language accum.code)
        (some accum.source) accum.runs.runs

def stop (b : Builder) (tag_end : TagEnd) : Builder :=
  match tag_end with
  | .metadataBlock => { b with in_metadata := false }
  | .heading => b.endHeading
  | .paragraph => b.endParagraph
  | .blockQuote => b.endBlockQuote
  | .list => b.endList
  | .item => b.endItem
  | .codeBlock => b.endCodeBlock
  | .link => b.closeLink
  | .image => b.closeImage
  | .strong => { b with format_state.bold := false }
  | .emphasis => { b with format_state.italic := false }
  | .strikethrough => { b with format_state.strikethrough := false }
  | .htmlBlock => b

def handle (source containing_dir : Text) (b : Builder) (entry : Event × Range) : Builder :=
  match entry.1 with
  | .start tag => b.start containing_dir tag entry.2
  | .stop tag_end => b.stop tag_end
  | .leaf (.text content) => b.text source content entry.2
  | .leaf (.code content) => b.codeSpan source content entry.2
  | .leaf .rule => b.pushBlock .thematicBreak (some entry.2) []
  | .leaf .softBreak | .leaf .hardBreak => b.lineBreak source entry.2
  | .leaf (.taskListMarker checked) => b.setChecked checked
  | .leaf (.html _) | .leaf (.inlineHtml _) => b

def run (source containing_dir : Text) (b : Builder) (events : List (Event × Range)) : Builder :=
  events.foldl (handle source containing_dir) b

end Builder

/-- Parses the text `source` of a Note in `containing_dir`, whose events are `events`. -/
def parseNote (source containing_dir : Text) (events : List (Event × Range)) : ParsedNote :=
  let b := Builder.new.run source containing_dir events
  ⟨b.root_nodes, b.spans.finish⟩

end Burlmd.Markdown
