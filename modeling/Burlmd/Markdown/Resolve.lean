import Burlmd.Library.Utf16
import Burlmd.Markdown.Spans

/-!
# Resolution of rendered offsets

A rendered offset names one byte only inside a run whose source is its rendered text. Between two
runs it names the gap, and inside an atomic run the whole of it.
-/

namespace Burlmd.Markdown

open Utf8
open Utf16 (toScalarOffset? utf16Len)

/-- A selection, in rendered offsets of one or more Blocks. -/
structure RenderedRange where
  start_path : BlockPath
  start_offset : Nat
  end_path : BlockPath
  end_offset : Nat
  deriving DecidableEq, Repr

inductive SourceResolution where
  | exact (offset : Nat)
  | boundary (before after : Nat)
  | atomic (range : Range)
  deriving DecidableEq, Repr

namespace SourceResolution

/-- The offset at the start of a selection, which biases forward. -/
def start : SourceResolution → Nat
  | exact offset => offset
  | boundary _ after => after
  | atomic range => range.start

/-- The offset at the end of a selection. -/
def stop : SourceResolution → Nat
  | exact offset => offset
  | boundary before _ => before
  | atomic range => range.stop

end SourceResolution

namespace SpanMap

variable (spans : SpanMap) (source : Text)

/-- The child that a rendered offset of a container falls in; a joiner is the end of the child
before it. -/
def childAt (rendered_offset : Nat) : Nat → List Nat → Option (Nat × Nat)
  | _, [] => none
  | consumed, child :: rest =>
      let child_len := (spans.blocks[child]?.map BlockSpan.rendered_len).getD 0
      if rendered_offset ≤ consumed + child_len then some (child, rendered_offset - consumed)
      else childAt rendered_offset (consumed + child_len + 1) rest

/-- The resolution among the runs of a leaf, after those that end at `previous_end`. -/
def resolveRuns (block : BlockSpan) (rendered_offset : Nat) :
    Option Nat → List InlineRun → Option SourceResolution
  | _, [] =>
      -- The last run, not the Block, so that the newline at its end stays out.
      let stop := (block.runs.getLast?.map fun run => run.source.stop).getD block.source.start
      some (.boundary stop stop)
  | previous_end, run :: rest =>
      if rendered_offset = run.rendered.start then
        some (.boundary (previous_end.getD run.source.start) run.source.start)
      else if rendered_offset < run.rendered.stop then
        if !run.interpolable then some (.atomic run.source)
        else
          let within := rendered_offset - run.rendered.start
          (slice? source run.source).bind fun text =>
            if within < text.length then
              some (.exact (run.source.start + byteLen (text.take within)))
            else none
      else resolveRuns block rendered_offset (some run.source.stop) rest

/-- Descends to the leaf that an offset falls in, at most as deep as there are Blocks. -/
def resolveAt : Nat → Nat → Nat → Option SourceResolution
  | 0, _, _ => none
  | fuel + 1, index, rendered_offset =>
      (spans.blocks[index]?).bind fun block =>
        if block.rendered_len < rendered_offset then none
        else if block.isLeaf then resolveRuns source block rendered_offset none block.runs
        else (spans.childAt rendered_offset 0 block.children).bind fun child =>
          resolveAt fuel child.1 child.2

def resolveOffset (path : BlockPath) (rendered_offset : Nat) : Option SourceResolution :=
  (byPath spans.blocks path).bind fun index =>
    spans.resolveAt source (spans.blocks.length + 1) index rendered_offset

/-- The leaf that an offset falls in, with its resolution. -/
def resolveLeafAt : Nat → Nat → Nat → Option (Nat × SourceResolution)
  | 0, _, _ => none
  | fuel + 1, index, rendered_offset =>
      (spans.blocks[index]?).bind fun block =>
        if block.rendered_len < rendered_offset then none
        else if block.isLeaf then
          (spans.resolveAt source (fuel + 1) index rendered_offset).map fun resolution =>
            (index, resolution)
        else (spans.childAt rendered_offset 0 block.children).bind fun child =>
          resolveLeafAt fuel child.1 child.2

/-- The leaf and the offset in its source at a UTF-16 offset of the text that a top-level Block
renders. -/
def resolveUtf16Caret (top_level_path : BlockPath) (rendered : Text)
    (rendered_utf16_offset : Nat) : Option (BlockPath × Nat) :=
  if top_level_path.length ≠ 1 then none
  else
    (byPath spans.blocks top_level_path).bind fun index =>
    (spans.blocks[index]?).bind fun block =>
    if rendered.length ≠ block.rendered_len then none
    else
      (toScalarOffset? rendered rendered_utf16_offset).bind fun rendered_offset =>
      (spans.resolveLeafAt source (spans.blocks.length + 1) index rendered_offset).bind fun found =>
      (spans.blocks[found.1]?).bind fun leaf =>
      (slice? source leaf.source).bind fun leaf_source =>
      if found.2.start < leaf.source.start then none
      else
        (slice? leaf_source ⟨0, found.2.start - leaf.source.start⟩).map fun before =>
          (leaf.path, utf16Len before)

/-- The source that a selection of rendered text resolves to. -/
def resolveRange (range : RenderedRange) : Option Range :=
  (spans.resolveOffset source range.start_path range.start_offset).bind fun start =>
    (spans.resolveOffset source range.end_path range.end_offset).bind fun stop =>
      if stop.stop < start.start then none else some ⟨start.start, stop.stop⟩

end SpanMap

end Burlmd.Markdown
