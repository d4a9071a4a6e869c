import Mathlib.Algebra.GroupWithZero.Nat
import Mathlib.Data.List.Basic
import Mathlib.Tactic.Common
import Burlmd.Library.BottomUp
import Burlmd.Library.Utf8

/-!
# The span map

A block path is an index path into the tree. The map records the source range
of every addressable Block together with the inline runs of its rendered text;
blocks are kept in the order the parser completed them.
-/

namespace Burlmd.Markdown

open Utf8
open BottomUp (sortByKey)

abbrev BlockPath := List Nat

structure InlineRun where
  /-- Character offsets into the rendered text of the Block. -/
  rendered : Range
  /-- Byte offsets into the source of the Note. -/
  source : Range
  interpolable : Bool
  deriving DecidableEq, Repr

structure BlockSpan where
  path : BlockPath
  source : Range
  runs : List InlineRun
  rendered_len : Nat
  /-- Indices of the child Blocks, in document order. -/
  children : List Nat
  deriving DecidableEq, Repr

def BlockSpan.isLeaf (block : BlockSpan) : Bool := block.children.isEmpty

structure SpanMap where
  blocks : List BlockSpan
  frontmatter : Option Range
  deriving DecidableEq, Repr

/-- The index of the block registered for `path`; the last one when several are. -/
def byPath : List BlockSpan → BlockPath → Option Nat
  | [], _ => none
  | block :: rest, path =>
      match byPath rest path with
      | some index => some (index + 1)
      | none => if block.path = path then some 0 else none

def SpanMap.block (spans : SpanMap) (path : BlockPath) : Option BlockSpan :=
  (byPath spans.blocks path).bind fun index => spans.blocks[index]?

structure SpanMapBuilder where
  blocks : List BlockSpan
  frontmatter : Option Range
  deriving DecidableEq, Repr

namespace SpanMapBuilder

def empty : SpanMapBuilder := ⟨[], none⟩

def renderedEnd (runs : List InlineRun) : Nat :=
  runs.getLast?.elim 0 fun run => run.rendered.stop

def pushBlock (builder : SpanMapBuilder) (path : BlockPath) (source : Range)
    (runs : List InlineRun) : SpanMapBuilder :=
  { builder with blocks := builder.blocks ++ [⟨path, source, runs, renderedEnd runs, []⟩] }

def setFrontmatter (builder : SpanMapBuilder) (source : Range) : SpanMapBuilder :=
  { builder with frontmatter := some source }

/-- The block at an index has the path of `child` without its last component. -/
def isParent (blocks : List BlockSpan) (index : Nat) (child : BlockSpan) : Bool :=
  2 ≤ child.path.length && byPath blocks child.path.dropLast = some index

/-- The blocks one component below block `index`, by their last component. -/
def childrenOf (blocks : List BlockSpan) (index : Nat) : List Nat :=
  (sortByKey (fun child : BlockSpan × Nat => child.1.path.getLastD 0)
    (blocks.zipIdx.filter fun child => isParent blocks index child.1)).map Prod.snd

/-- The length of a container, from the lengths its children have so far. -/
def joinedLength (blocks : List BlockSpan) (children : List Nat) : Nat :=
  (children.map fun child => (blocks[child]?.map BlockSpan.rendered_len).getD 0).sum +
    children.length - 1

def measure (blocks : List BlockSpan) (index : Nat) : List BlockSpan :=
  blocks.modify index fun block =>
    if block.children = [] then block
    else { block with rendered_len := joinedLength blocks block.children }

/-- Block indices with the deepest paths first. -/
def byDepth (blocks : List BlockSpan) : List Nat :=
  (sortByKey (fun block : BlockSpan × Nat => OrderDual.toDual block.1.path.length)
    blocks.zipIdx).map Prod.snd

/-- The blocks linked to their children, before any is measured. -/
def linked (blocks : List BlockSpan) : List BlockSpan :=
  blocks.zipIdx.map fun entry => { entry.1 with children := childrenOf blocks entry.2 }

def finish (builder : SpanMapBuilder) : SpanMap :=
  let linked := linked builder.blocks
  ⟨(byDepth linked).foldl measure linked, builder.frontmatter⟩

end SpanMapBuilder

namespace SpanMap

def shift (old : Range) (new_len offset : Nat) : Nat :=
  offset + new_len - (old.stop - old.start)

def shiftRange (old : Range) (new_len : Nat) (range : Range) : Range :=
  ⟨shift old new_len range.start, shift old new_len range.stop⟩

/-- The block at position `index` was resized to `new_len` bytes; what happens to
the block at `position`. -/
def rebase (path : BlockPath) (index : Nat) (old : Range) (new_len : Nat)
    (position : Nat) (block : BlockSpan) : BlockSpan :=
  if position = index then
    { block with source := ⟨block.source.start, shift old new_len block.source.stop⟩ }
  else if old.stop ≤ block.source.start then
    { block with
      source := shiftRange old new_len block.source
      runs := block.runs.map fun run =>
        { run with source := shiftRange old new_len run.source } }
  else if block.path.isPrefixOf path then
    { block with source := ⟨block.source.start, shift old new_len block.source.stop⟩ }
  else block

/-- The span the block occupied and the map after its text grew or shrank to
`new_len` bytes; `none` for an unknown path and for a container. -/
def applyBufferedEdit (spans : SpanMap) (path : BlockPath) (new_len : Nat) :
    Option (Range × SpanMap) :=
  match byPath spans.blocks path with
  | none => none
  | some index =>
      match spans.blocks[index]? with
      | none => none
      | some block =>
          if !block.isLeaf then none
          else if new_len = block.source.stop - block.source.start then
            some (block.source, spans)
          else
            some (block.source,
              { spans with blocks := spans.blocks.mapIdx (rebase path index block.source new_len) })

end SpanMap

end Burlmd.Markdown
