import Burlmd.Markdown.Coherence

/-!
# Where spans end

The parser makes no offsets of its own: every range it keeps starts and stops where events do. So
every Block of a Note, and its frontmatter, is a range of characters.
-/

namespace Burlmd.Markdown

open Utf8

/-- Both ends of a range are among some offsets. -/
def Range.EndsIn (Q : Nat → Prop) (range : Range) : Prop := Q range.start ∧ Q range.stop

namespace Builder

/-- The ranges that a builder keeps all end among some offsets. -/
structure EndsIn (Q : Nat → Prop) (b : Builder) : Prop where
  frames : ∀ range ∈ b.frames.map Frame.source, Range.EndsIn Q range
  links : ∀ range ∈ b.link_stack.map LinkFrame.source, Range.EndsIn Q range
  runs : ∀ range ∈ b.runs.runs.map InlineRun.source, Range.EndsIn Q range
  code : ∀ accum, b.code_block = some accum → Range.EndsIn Q accum.source
  deferred : ∀ range ∈ b.deferred.map DeferredBlock.source, Range.EndsIn Q range
  blocks : ∀ range ∈ b.spans.blocks.map BlockSpan.source, Range.EndsIn Q range
  frontmatter : ∀ range, b.spans.frontmatter = some range →
    Range.EndsIn Q range ∧ range.start ≤ range.stop

variable {Q : Nat → Prop} {b : Builder}

theorem map_source_modify (frames : List Frame) (index : Nat) (node : AstNode) :
    (frames.modify index fun frame => { frame with kind := frame.kind.push node }).map
      Frame.source = frames.map Frame.source := by
  apply List.ext_getElem?
  intro i
  rw [List.getElem?_map, List.getElem?_map, List.getElem?_modify]
  cases frames[i]? with
  | none => rfl
  | some frame =>
    by_cases here : index = i
    · simp [here]
    · simp [here]

theorem EndsIn.attach (ends : b.EndsIn Q) (node : AstNode) : (b.attach node).EndsIn Q := by
  unfold Builder.attach
  cases b.containerIndex with
  | none =>
    exact ⟨ends.frames, ends.links, ends.runs, ends.code, ends.deferred, ends.blocks,
      ends.frontmatter⟩
  | some index =>
    refine ⟨?_, ends.links, ends.runs, ends.code, ends.deferred, ends.blocks, ends.frontmatter⟩
    dsimp only
    rw [map_source_modify]
    exact ends.frames

theorem EndsIn.register (ends : b.EndsIn Q) (path : BlockPath) {source : Range}
    (within : Range.EndsIn Q source) (runs : List InlineRun) :
    ({ b with spans := b.spans.pushBlock path source runs } : Builder).EndsIn Q := by
  refine ⟨ends.frames, ends.links, ends.runs, ends.code, ends.deferred, ?_, ends.frontmatter⟩
  unfold SpanMapBuilder.pushBlock
  dsimp only
  rw [List.map_append, List.forall_mem_append]
  refine ⟨ends.blocks, ?_⟩
  intro range mem
  rw [List.mem_singleton.mp mem]
  exact within

theorem EndsIn.pushBlock (ends : b.EndsIn Q) (node : AstNode) {source : Option Range}
    (within : ∀ range, source = some range → Range.EndsIn Q range) (runs : List InlineRun) :
    (b.pushBlock node source runs).EndsIn Q := by
  unfold Builder.pushBlock
  cases source with
  | none => exact ends.attach node
  | some range => exact (ends.register _ (within range rfl) runs).attach node

theorem EndsIn.pushContainer (ends : b.EndsIn Q) (node : AstNode) (path : BlockPath)
    {source : Range} (within : Range.EndsIn Q source) :
    (b.pushContainer node path source).EndsIn Q :=
  (ends.register path within []).attach node

theorem EndsIn.openFrame (ends : b.EndsIn Q) (kind : FrameKind) {source : Range}
    (within : Range.EndsIn Q source) : (b.openFrame kind source).EndsIn Q := by
  refine ⟨?_, ends.links, ends.runs, ends.code, ends.deferred, ends.blocks, ends.frontmatter⟩
  unfold Builder.openFrame
  rw [List.map_cons, List.forall_mem_cons]
  exact ⟨within, ends.frames⟩

theorem EndsIn.resetInlines (ends : b.EndsIn Q) : b.resetInlines.EndsIn Q :=
  ⟨ends.frames, ends.links, List.forall_mem_nil _, ends.code, ends.deferred, ends.blocks,
    ends.frontmatter⟩

theorem endsIn_runExtent {runs : List InlineRun}
    (each : ∀ range ∈ runs.map InlineRun.source, Range.EndsIn Q range) {extent : Range}
    (isExtent : runExtent runs = some extent) : Range.EndsIn Q extent := by
  unfold runExtent at isExtent
  cases first : runs.head? with
  | none =>
    rw [first] at isExtent
    cases isExtent
  | some run =>
    cases last : runs.getLast? with
    | none =>
      rw [first, last] at isExtent
      cases isExtent
    | some run' =>
      rw [first, last] at isExtent
      rw [← Option.some.inj isExtent]
      exact ⟨(each _ (List.mem_map_of_mem (List.mem_of_mem_head? first))).1,
        (each _ (List.mem_map_of_mem (List.mem_of_getLast? last))).2⟩

theorem EndsIn.flushPendingInlines (ends : b.EndsIn Q) : b.flushPendingInlines.EndsIn Q := by
  unfold Builder.flushPendingInlines
  by_cases empty : b.inlines = []
  · rw [if_pos empty]
    exact ⟨ends.frames, ends.links, List.forall_mem_nil _, ends.code, ends.deferred, ends.blocks,
      ends.frontmatter⟩
  · rw [if_neg empty]
    exact EndsIn.pushBlock ends.resetInlines _
      (fun range isExtent => endsIn_runExtent ends.runs isExtent) _

theorem EndsIn.emitRun (ends : b.EndsIn Q) (rendered_chars : Nat) {source : Range}
    (within : Range.EndsIn Q source) (interpolable : Bool) :
    (b.emitRun rendered_chars source interpolable).EndsIn Q := by
  unfold Builder.emitRun
  cases stack : b.link_stack with
  | nil =>
    refine ⟨ends.frames, List.forall_mem_nil _, ?_, ends.code, ends.deferred, ends.blocks,
      ends.frontmatter⟩
    · dsimp only
      unfold RunAccum.push
      by_cases zero : rendered_chars = 0
      · rw [if_pos zero]
        exact ends.runs
      · rw [if_neg zero, List.map_append, List.forall_mem_append]
        refine ⟨ends.runs, ?_⟩
        intro range mem
        rw [List.mem_singleton.mp mem]
        exact within
  | cons frame rest =>
    refine ⟨ends.frames, ?_, ends.runs, ends.code, ends.deferred, ends.blocks, ends.frontmatter⟩
    have links := ends.links
    rw [stack] at links
    exact links

theorem EndsIn.pushInline (ends : b.EndsIn Q) (element : InlineElement) :
    (b.pushInline element).EndsIn Q := by
  unfold Builder.pushInline
  cases stack : b.link_stack with
  | nil =>
    exact ⟨ends.frames, List.forall_mem_nil _, ends.runs, ends.code, ends.deferred, ends.blocks,
      ends.frontmatter⟩
  | cons frame rest =>
    refine ⟨ends.frames, ?_, ends.runs, ends.code, ends.deferred, ends.blocks, ends.frontmatter⟩
    have links := ends.links
    rw [stack] at links
    exact links

theorem EndsIn.openLink (ends : b.EndsIn Q) (kind : LinkKind) {range : Range}
    (within : Range.EndsIn Q range) : (b.openLink kind range).EndsIn Q := by
  refine ⟨ends.frames, ?_, ends.runs, ends.code, ends.deferred, ends.blocks, ends.frontmatter⟩
  unfold Builder.openLink
  rw [List.map_cons, List.forall_mem_cons]
  exact ⟨within, ends.links⟩

/-- The innermost link, and a builder without it. -/
theorem EndsIn.popLink (ends : b.EndsIn Q) {frame : LinkFrame} {rest : List LinkFrame}
    (stack : b.link_stack = frame :: rest) :
    Range.EndsIn Q frame.source ∧ ({ b with link_stack := rest } : Builder).EndsIn Q := by
  have links := ends.links
  rw [stack, List.map_cons, List.forall_mem_cons] at links
  exact ⟨links.1, ends.frames, links.2, ends.runs, ends.code, ends.deferred, ends.blocks,
    ends.frontmatter⟩

theorem EndsIn.closeLink (ends : b.EndsIn Q) : b.closeLink.EndsIn Q := by
  unfold Builder.closeLink
  cases stack : b.link_stack with
  | nil => exact ends
  | cons frame rest =>
    rcases ends.popLink stack with ⟨within, ends⟩
    dsimp only
    by_cases zero : frame.rendered_chars = 0
    · rw [if_pos zero]
      exact ends
    · rw [if_neg zero]
      exact (ends.emitRun _ within false).pushInline _

theorem EndsIn.splitFrame (ends : b.EndsIn Q) : b.splitFrame.1.EndsIn Q := by
  unfold Builder.splitFrame
  cases stack : b.frames with
  | nil => exact ends
  | cons frame rest =>
    have frames := ends.frames
    rw [stack] at frames
    dsimp only
    cases kind : frame.kind with
    | paragraph | heading _ =>
      exact ⟨frames, ends.links, ends.runs, ends.code, ends.deferred, ends.blocks,
        ends.frontmatter⟩
    | blockquote _ _ | list _ _ _ | listItem _ _ _ => exact ends

theorem EndsIn.closeImage (ends : b.EndsIn Q) : b.closeImage.EndsIn Q := by
  unfold Builder.closeImage
  cases stack : b.link_stack with
  | nil => exact ends
  | cons frame rest =>
    rcases ends.popLink stack with ⟨within, ends⟩
    dsimp only
    have split := ends.splitFrame
    cases isSplit : ({ b with link_stack := rest } : Builder).splitFrame with
    | mk b' defer =>
      rw [isSplit] at split
      dsimp only at split ⊢
      have flushed : (if defer = true then b' else b'.flushPendingInlines).EndsIn Q := by
        cases defer with
        | true => exact split
        | false => exact split.flushPendingInlines
      cases kind : frame.kind with
      | link _ => exact flushed
      | image _ =>
        dsimp only
        cases defer with
        | true =>
          refine ⟨flushed.frames, flushed.links, flushed.runs, flushed.code, ?_, flushed.blocks,
            flushed.frontmatter⟩
          rw [if_pos rfl, List.map_append, List.forall_mem_append]
          refine ⟨flushed.deferred, ?_⟩
          intro range mem
          rw [List.mem_singleton.mp mem]
          exact within
        | false =>
          rw [if_neg Bool.false_ne_true]
          apply EndsIn.pushBlock flushed
          intro range isRange
          rw [← Option.some.inj isRange]
          exact within

theorem EndsIn.drainDeferred (ends : b.EndsIn Q) : b.drainDeferred.EndsIn Q := by
  unfold Builder.drainDeferred
  have empty : ({ b with deferred := [] } : Builder).EndsIn Q :=
    ⟨ends.frames, ends.links, ends.runs, ends.code, List.forall_mem_nil _, ends.blocks,
      ends.frontmatter⟩
  have each := ends.deferred
  revert each empty
  generalize b.deferred = deferred
  generalize ({ b with deferred := [] } : Builder) = b'
  intro empty each
  induction deferred generalizing b' with
  | nil => exact empty
  | cons first rest ih =>
    rw [List.map_cons, List.forall_mem_cons] at each
    rw [List.foldl_cons]
    apply ih _ _ each.2
    apply EndsIn.pushBlock empty
    intro range isRange
    rw [← Option.some.inj isRange]
    exact each.1

/-- The innermost frame, and a builder without it. -/
theorem EndsIn.popFrame (ends : b.EndsIn Q) {frame : Frame} {rest : List Frame}
    (stack : b.frames = frame :: rest) :
    Range.EndsIn Q frame.source ∧ ({ b with frames := rest } : Builder).EndsIn Q := by
  have frames := ends.frames
  rw [stack, List.map_cons, List.forall_mem_cons] at frames
  exact ⟨frames.1, frames.2, ends.links, ends.runs, ends.code, ends.deferred, ends.blocks,
    ends.frontmatter⟩

theorem endsIn_splitAdjustedSource {frame : Frame} (within : Range.EndsIn Q frame.source)
    {runs : List InlineRun}
    (each : ∀ range ∈ runs.map InlineRun.source, Range.EndsIn Q range) {range : Range}
    (isSource : splitAdjustedSource frame runs = some range) : Range.EndsIn Q range := by
  unfold splitAdjustedSource at isSource
  cases split : frame.split with
  | true =>
    rw [split, if_pos rfl] at isSource
    exact endsIn_runExtent each isSource
  | false =>
    rw [split, if_neg Bool.false_ne_true] at isSource
    rw [← Option.some.inj isSource]
    exact within

theorem EndsIn.endHeading (ends : b.EndsIn Q) : b.endHeading.EndsIn Q := by
  unfold Builder.endHeading
  cases stack : b.frames with
  | nil => exact ends
  | cons frame rest =>
    rcases ends.popFrame stack with ⟨within, ends⟩
    dsimp only
    cases kind : frame.kind with
    | heading level =>
      exact (EndsIn.pushBlock ends.resetInlines _
        (fun range isSource => endsIn_splitAdjustedSource within ends.runs isSource) _).drainDeferred
    | paragraph | blockquote _ _ | list _ _ _ | listItem _ _ _ => exact ends

theorem EndsIn.endParagraph (ends : b.EndsIn Q) : b.endParagraph.EndsIn Q := by
  unfold Builder.endParagraph
  cases stack : b.frames with
  | nil => exact ends
  | cons frame rest =>
    rcases ends.popFrame stack with ⟨within, ends⟩
    dsimp only
    cases kind : frame.kind with
    | paragraph =>
      by_cases empty : b.inlines = []
      · rw [if_pos empty]
        exact ⟨ends.frames, ends.links, List.forall_mem_nil _, ends.code, ends.deferred,
          ends.blocks, ends.frontmatter⟩
      · rw [if_neg empty]
        exact EndsIn.pushBlock ends.resetInlines _
          (fun range isSource => endsIn_splitAdjustedSource within ends.runs isSource) _
    | heading _ | blockquote _ _ | list _ _ _ | listItem _ _ _ => exact ends

theorem EndsIn.endBlockQuote (ends : b.EndsIn Q) : b.endBlockQuote.EndsIn Q := by
  unfold Builder.endBlockQuote
  cases stack : b.frames with
  | nil => exact ends
  | cons frame rest =>
    rcases ends.popFrame stack with ⟨within, ends⟩
    dsimp only
    cases kind : frame.kind with
    | blockquote path nodes => exact ends.pushContainer _ _ within
    | paragraph | heading _ | list _ _ _ | listItem _ _ _ => exact ends

theorem EndsIn.endList (ends : b.EndsIn Q) : b.endList.EndsIn Q := by
  unfold Builder.endList
  cases stack : b.frames with
  | nil => exact ends
  | cons frame rest =>
    rcases ends.popFrame stack with ⟨within, ends⟩
    dsimp only
    cases kind : frame.kind with
    | list path ordered items => exact ends.pushContainer _ _ within
    | paragraph | heading _ | blockquote _ _ | listItem _ _ _ => exact ends

theorem EndsIn.endItem (ends : b.EndsIn Q) : b.endItem.EndsIn Q := by
  unfold Builder.endItem
  have flushed := ends.flushPendingInlines
  dsimp only
  cases stack : b.flushPendingInlines.frames with
  | nil => exact flushed
  | cons frame rest =>
    rcases flushed.popFrame stack with ⟨within, popped⟩
    dsimp only
    cases kind : frame.kind with
    | listItem path content checked => exact popped.pushContainer _ _ within
    | paragraph | heading _ | blockquote _ _ | list _ _ _ => exact popped

theorem EndsIn.endCodeBlock (ends : b.EndsIn Q) : b.endCodeBlock.EndsIn Q := by
  unfold Builder.endCodeBlock
  cases isCode : b.code_block with
  | none => exact ends
  | some accum =>
    have within := ends.code accum isCode
    have closed : ({ b with code_block := none } : Builder).EndsIn Q := by
      refine ⟨ends.frames, ends.links, ends.runs, ?_, ends.deferred, ends.blocks,
        ends.frontmatter⟩
      intro accum wrong
      cases wrong
    apply EndsIn.pushBlock closed
    intro range isRange
    rw [← Option.some.inj isRange]
    exact within

theorem EndsIn.stop (ends : b.EndsIn Q) (tag_end : TagEnd) : (b.stop tag_end).EndsIn Q := by
  cases tag_end with
  | heading => exact ends.endHeading
  | paragraph => exact ends.endParagraph
  | blockQuote => exact ends.endBlockQuote
  | list => exact ends.endList
  | item => exact ends.endItem
  | codeBlock => exact ends.endCodeBlock
  | link => exact ends.closeLink
  | image => exact ends.closeImage
  | metadataBlock | strong | emphasis | strikethrough =>
    exact ⟨ends.frames, ends.links, ends.runs, ends.code, ends.deferred, ends.blocks,
      ends.frontmatter⟩
  | htmlBlock => exact ends

theorem EndsIn.start (ends : b.EndsIn Q) (containing_dir : Text) (tag : Tag) {range : Range}
    (within : Range.EndsIn Q range) (ordered : range.start ≤ range.stop) :
    (b.start containing_dir tag range).EndsIn Q := by
  cases tag with
  | metadataBlock =>
    refine ⟨ends.frames, ends.links, ends.runs, ends.code, ends.deferred, ends.blocks, ?_⟩
    intro range' isRange
    rw [← Option.some.inj isRange]
    exact ⟨within, ordered⟩
  | heading level => exact ends.resetInlines.openFrame _ within
  | paragraph => exact ends.resetInlines.openFrame _ within
  | blockQuote => exact ends.openFrame _ within
  | list start_number => exact ends.flushPendingInlines.openFrame _ within
  | item => exact ends.openFrame _ within
  | codeBlock kind =>
    refine ⟨ends.frames, ends.links, ends.runs, ?_, ends.deferred, ends.blocks, ends.frontmatter⟩
    intro accum isCode
    rw [← Option.some.inj isCode]
    exact within
  | link dest_url => exact ends.openLink _ within
  | image dest_url => exact ends.openLink _ within
  | strong | emphasis | strikethrough =>
    exact ⟨ends.frames, ends.links, ends.runs, ends.code, ends.deferred, ends.blocks,
      ends.frontmatter⟩
  | htmlBlock => exact ends

theorem EndsIn.text (ends : b.EndsIn Q) (source content : Text) {range : Range}
    (within : Range.EndsIn Q range) : (b.text source content range).EndsIn Q := by
  unfold Builder.text
  by_cases metadata : b.in_metadata
  · rw [if_pos metadata]
    exact ends
  · rw [if_neg metadata]
    by_cases empty : content = []
    · rw [if_pos empty]
      exact ends
    · rw [if_neg empty]
      cases isCode : b.code_block with
      | none => exact (ends.emitRun _ within _).pushInline _
      | some accum =>
        refine ⟨ends.frames, ends.links, ends.runs, ?_, ends.deferred, ends.blocks,
          ends.frontmatter⟩
        intro accum' isCode'
        rw [← Option.some.inj isCode']
        exact ends.code accum isCode

theorem EndsIn.setChecked (ends : b.EndsIn Q) (checked : Bool) : (b.setChecked checked).EndsIn Q := by
  unfold Builder.setChecked
  have frames := ends.frames
  split
  · rename_i path content mark range isSplit rest stack
    rw [stack] at frames
    exact ⟨frames, ends.links, ends.runs, ends.code, ends.deferred, ends.blocks,
      ends.frontmatter⟩
  · exact ends

theorem EndsIn.handle (ends : b.EndsIn Q) (source containing_dir : Text) {entry : Event × Range}
    (within : Range.EndsIn Q entry.2) (ordered : entry.2.start ≤ entry.2.stop) :
    (b.handle source containing_dir entry).EndsIn Q := by
  unfold Builder.handle
  cases event : entry.1 with
  | start tag => exact ends.start containing_dir tag within ordered
  | stop tag_end => exact ends.stop tag_end
  | leaf leaf =>
    cases leaf with
    | text content => exact ends.text source content within
    | code content => exact (ends.emitRun _ within _).pushInline _
    | rule =>
      apply EndsIn.pushBlock ends
      intro range isRange
      rw [← Option.some.inj isRange]
      exact within
    | softBreak | hardBreak => exact (ends.emitRun _ within _).pushInline _
    | taskListMarker checked => exact ends.setChecked checked
    | html _ | inlineHtml _ => exact ends

theorem EndsIn.run (ends : b.EndsIn Q) (source containing_dir : Text)
    {events : List (Event × Range)}
    (within : ∀ entry ∈ events, Range.EndsIn Q entry.2 ∧ entry.2.start ≤ entry.2.stop) :
    (b.run source containing_dir events).EndsIn Q := by
  unfold Builder.run
  induction events generalizing b with
  | nil => exact ends
  | cons entry rest ih =>
    rw [List.forall_mem_cons] at within
    exact ih (ends.handle source containing_dir within.1.1 within.1.2) within.2

end Builder

/-! ## The parsed note -/

/-- Every event ends on character boundaries. -/
theorem Forest.boundaries_of_placed {source : Text} {forest : Forest} {low high : Nat}
    (placed : forest.placed source low high = true) :
    ∀ entry ∈ forest.events,
      Range.EndsIn (IsBoundary source) entry.2 ∧ entry.2.start ≤ entry.2.stop := by
  induction forest generalizing low high with
  | nil => exact List.forall_mem_nil _
  | leaf l range rest ih =>
    simp only [Forest.placed, Bool.and_eq_true, decide_eq_true_eq] at placed
    rcases placed with ⟨⟨-, slice⟩, tail⟩
    unfold Forest.events
    rw [List.forall_mem_cons]
    exact ⟨(slice?_isSome_iff.mp slice).symm, ih tail⟩
  | node tag range children rest inner ih =>
    simp only [Forest.placed, Bool.and_eq_true, decide_eq_true_eq] at placed
    rcases placed with ⟨⟨⟨-, slice⟩, within⟩, tail⟩
    have ends := (slice?_isSome_iff.mp slice).symm
    unfold Forest.events
    rw [List.forall_mem_cons, List.forall_mem_append, List.forall_mem_cons]
    exact ⟨ends, inner within, ends, ih tail⟩

variable {source : Text} (stream : EventStream source) (containing_dir : Text)

theorem EventStream.endsIn :
    (Builder.new.run source containing_dir stream.events).EndsIn (IsBoundary source) := by
  apply Builder.EndsIn.run _ _ _ (Forest.boundaries_of_placed stream.placed)
  constructor
  · exact List.forall_mem_nil _
  · exact List.forall_mem_nil _
  · exact List.forall_mem_nil _
  · intro accum wrong
    cases wrong
  · exact List.forall_mem_nil _
  · exact List.forall_mem_nil _
  · intro range wrong
    cases wrong

/-- Linking and measuring leave the ranges of the Blocks. -/
theorem map_source_finish (builder : SpanMapBuilder) :
    builder.finish.blocks.map BlockSpan.source = builder.blocks.map BlockSpan.source := by
  apply List.ext_getElem?
  intro index
  have shape := congrArg (Option.map BlockSpan.source)
    (SpanMapBuilder.foldl_measure_shape (SpanMapBuilder.byDepth (SpanMapBuilder.linked builder.blocks))
      (SpanMapBuilder.linked builder.blocks) index)
  rw [Option.map_map, Option.map_map, SpanMapBuilder.linked_getElem?, Option.map_map] at shape
  rw [List.getElem?_map, List.getElem?_map, SpanMapBuilder.finish_blocks]
  exact shape

theorem parseNote_frontmatter_sliceable {range : Range}
    (isFrontmatter :
      (parseNote source containing_dir stream.events).spans.frontmatter = some range) :
    (slice? source range).isSome :=
  slice?_isSome_iff.mpr ((stream.endsIn containing_dir).frontmatter range isFrontmatter).symm

theorem Emitted.Laid.ordered {block : Emitted} (laid : block.Laid source) {range : Range}
    (own : block.source? = some range) : range.start ≤ range.stop := by
  cases block with
  | leaf node own' runs =>
    exact (laid.2 range own).order.le
  | container kind own' children =>
    rw [← Option.some.inj own]
    exact laid.1

/-- Every Block of a Note is a range of its characters. -/
theorem parseNote_sliceable {block : BlockSpan}
    (mem : block ∈ (parseNote source containing_dir stream.events).spans.blocks) :
    (slice? source block.source).isSome := by
  have ends := (stream.endsIn containing_dir).blocks block.source (by
    have inMap := List.mem_map_of_mem (f := BlockSpan.source) mem
    unfold parseNote at inMap
    dsimp only at inMap
    rw [map_source_finish] at inMap
    exact inMap)
  rw [slice?_isSome_iff]
  refine ⟨?_, ends⟩
  rw [parseNote_eq] at mem
  rcases lookup_of_mem_finished mem with ⟨emitted, found, own⟩
  exact (lookup_laid (stream.emitted_laid containing_dir).blocks found).ordered own

/-- No two Blocks of a Note have one path. -/
theorem parseNote_distinct :
    ((parseNote source containing_dir stream.events).spans.blocks.map BlockSpan.path).Nodup := by
  have registered := registerAll_nodup (stream.emitted containing_dir).blocks [] 0
  have same : (finished (stream.emitted containing_dir).blocks
      (stream.emitted containing_dir).frontmatter).map BlockSpan.path =
        (registerAll [] 0 (stream.emitted containing_dir).blocks).map BlockSpan.path := by
    apply List.ext_getElem?
    intro index
    have shape := congrArg (Option.map BlockSpan.path)
      (finished_shape (stream.emitted containing_dir).blocks
        (stream.emitted containing_dir).frontmatter index)
    rw [Option.map_map, Option.map_map] at shape
    rw [List.getElem?_map, List.getElem?_map]
    exact shape
  rw [parseNote_eq]
  rw [← same] at registered
  exact registered

theorem parseNote_leaf_prefix {block other : BlockSpan}
    (mem : block ∈ (parseNote source containing_dir stream.events).spans.blocks)
    (leaf : block.isLeaf = true)
    (mem' : other ∈ (parseNote source containing_dir stream.events).spans.blocks)
    (above : block.path <+: other.path) : other.path = block.path := by
  rw [parseNote_eq] at mem mem'
  exact leaf_prefix_eq mem mem' leaf above

/-- Every Block of a Note is part of a top-level one. -/
theorem parseNote_top_level {block : BlockSpan}
    (mem : block ∈ (parseNote source containing_dir stream.events).spans.blocks) :
    ∃ top ∈ (parseNote source containing_dir stream.events).spans.blocks,
      top.path = block.path.take 1 := by
  rw [parseNote_eq] at mem ⊢
  rcases lookup_of_mem_finished mem with ⟨emitted, found, own⟩
  cases path : block.path with
  | nil =>
    rw [path, lookup] at found
    cases found
  | cons index rest =>
    rw [path] at found
    rcases lookup_cons_some.mp found with ⟨first, at_, ⟨isNil, -⟩ | ⟨-, below⟩⟩
    · rw [isNil] at path ⊢
      exact ⟨block, mem, path⟩
    · cases first with
      | leaf node own' runs =>
        rw [Emitted.children, lookup_nil] at below
        cases below
      | container kind own' children =>
        have top : lookup (stream.emitted containing_dir).blocks [index] =
            some (.container kind own' children) := by
          apply lookup_cons_some.mpr
          exact ⟨_, at_, .inl ⟨rfl, rfl⟩⟩
        rcases mem_finished.mpr ⟨_, top, rfl⟩ with ⟨entry, member, isPath, -⟩
        exact ⟨entry, member, isPath⟩

end Burlmd.Markdown
