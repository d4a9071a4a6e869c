import Burlmd.Markdown.SpanEnds

/-!
# Where runs end

The runs of a Block are those that events left behind, so they end where events do, and the source of
every run of a Note is a range of characters.
-/

namespace Burlmd.Markdown

open Utf8

/-- Every run of a list ends among some offsets. -/
def RunsEndIn (Q : Nat → Prop) (runs : List InlineRun) : Prop :=
  ∀ range ∈ runs.map InlineRun.source, Range.EndsIn Q range

theorem runsEndIn_nil (Q : Nat → Prop) : RunsEndIn Q [] := List.forall_mem_nil _

theorem RunAccum.push_endIn {Q : Nat → Prop} {accum : RunAccum} (ends : RunsEndIn Q accum.runs)
    (rendered_chars : Nat) {source : Range} (within : Range.EndsIn Q source) (interpolable : Bool) :
    RunsEndIn Q (accum.push rendered_chars source interpolable).runs := by
  unfold RunAccum.push
  by_cases zero : rendered_chars = 0
  · rw [if_pos zero]
    exact ends
  · rw [if_neg zero]
    unfold RunsEndIn
    rw [List.map_append, List.forall_mem_append]
    refine ⟨ends, ?_⟩
    intro range mem
    rw [List.mem_singleton.mp mem]
    exact within

namespace Builder

/-- The runs that a builder has in Blocks, waiting or not, end among some offsets. -/
structure RunsIn (Q : Nat → Prop) (b : Builder) : Prop where
  blocks : ∀ block ∈ b.spans.blocks, RunsEndIn Q block.runs
  deferred : ∀ block ∈ b.deferred, RunsEndIn Q block.runs
  code : ∀ accum, b.code_block = some accum → RunsEndIn Q accum.runs.runs

variable {Q : Nat → Prop} {b b' : Builder}

theorem RunsIn.congr (runs : b.RunsIn Q) (blocks : b'.spans.blocks = b.spans.blocks)
    (deferred : b'.deferred = b.deferred) (code : b'.code_block = b.code_block) : b'.RunsIn Q := by
  constructor
  · rw [blocks]
    exact runs.blocks
  · rw [deferred]
    exact runs.deferred
  · rw [code]
    exact runs.code

theorem RunsIn.attach (runs : b.RunsIn Q) (node : AstNode) : (b.attach node).RunsIn Q := by
  unfold Builder.attach
  cases b.containerIndex with
  | none => exact runs.congr rfl rfl rfl
  | some index => exact runs.congr rfl rfl rfl

theorem RunsIn.register (runs : b.RunsIn Q) (path : BlockPath) (source : Range)
    {own : List InlineRun} (ends : RunsEndIn Q own) :
    ({ b with spans := b.spans.pushBlock path source own } : Builder).RunsIn Q := by
  refine ⟨?_, runs.deferred, runs.code⟩
  intro block mem
  rcases List.mem_append.mp mem with earlier | last
  · exact runs.blocks block earlier
  · rw [List.mem_singleton.mp last]
    exact ends

theorem RunsIn.pushBlock (runs : b.RunsIn Q) (node : AstNode) (source : Option Range)
    {own : List InlineRun} (ends : RunsEndIn Q own) : (b.pushBlock node source own).RunsIn Q := by
  unfold Builder.pushBlock
  cases source with
  | none => exact runs.attach node
  | some range => exact (runs.register b.nextPath range ends).attach node

theorem RunsIn.pushContainer (runs : b.RunsIn Q) (node : AstNode) (path : BlockPath)
    (source : Range) : (b.pushContainer node path source).RunsIn Q :=
  (runs.register path source (runsEndIn_nil Q)).attach node

theorem RunsIn.flushPendingInlines (runs : b.RunsIn Q) (ends : RunsEndIn Q b.runs.runs) :
    b.flushPendingInlines.RunsIn Q := by
  unfold Builder.flushPendingInlines
  by_cases empty : b.inlines = []
  · rw [if_pos empty]
    exact runs.congr rfl rfl rfl
  · rw [if_neg empty]
    have reset : ({ b with inlines := [], runs := .empty } : Builder).RunsIn Q :=
      runs.congr rfl rfl rfl
    exact reset.pushBlock _ _ ends

theorem RunsIn.emitRun (runs : b.RunsIn Q) (rendered_chars : Nat) (source : Range)
    (interpolable : Bool) : (b.emitRun rendered_chars source interpolable).RunsIn Q := by
  unfold Builder.emitRun
  cases b.link_stack with
  | nil => exact runs.congr rfl rfl rfl
  | cons frame rest => exact runs.congr rfl rfl rfl

theorem RunsIn.pushInline (runs : b.RunsIn Q) (element : InlineElement) :
    (b.pushInline element).RunsIn Q := by
  unfold Builder.pushInline
  cases b.link_stack with
  | nil => exact runs.congr rfl rfl rfl
  | cons frame rest => exact runs.congr rfl rfl rfl

theorem RunsIn.closeLink (runs : b.RunsIn Q) : b.closeLink.RunsIn Q := by
  unfold Builder.closeLink
  cases b.link_stack with
  | nil => exact runs
  | cons frame rest =>
    have popped : ({ b with link_stack := rest } : Builder).RunsIn Q :=
      runs.congr rfl rfl rfl
    dsimp only
    by_cases zero : frame.rendered_chars = 0
    · rw [if_pos zero]
      exact popped
    · rw [if_neg zero]
      exact (popped.emitRun _ _ _).pushInline _

theorem RunsIn.splitFrame (runs : b.RunsIn Q) : b.splitFrame.1.RunsIn Q := by
  unfold Builder.splitFrame
  cases b.frames with
  | nil => exact runs
  | cons frame rest =>
    dsimp only
    cases frame.kind with
    | paragraph | heading _ => exact runs.congr rfl rfl rfl
    | blockquote _ _ | list _ _ _ | listItem _ _ _ => exact runs

theorem RunsIn.closeImage (runs : b.RunsIn Q) (ends : b.EndsIn Q) : b.closeImage.RunsIn Q := by
  unfold Builder.closeImage
  cases stack : b.link_stack with
  | nil => exact runs
  | cons frame rest =>
    rcases ends.popLink stack with ⟨within, ends⟩
    have popped : ({ b with link_stack := rest } : Builder).RunsIn Q :=
      runs.congr rfl rfl rfl
    dsimp only
    have own : RunsEndIn Q
        (RunAccum.empty.push (altText frame.content).length frame.source false).runs :=
      RunAccum.push_endIn (runsEndIn_nil Q) _ within _
    have split := popped.splitFrame
    have split_ends := ends.splitFrame
    cases isSplit : ({ b with link_stack := rest } : Builder).splitFrame with
    | mk b' defer =>
      rw [isSplit] at split split_ends
      dsimp only at split split_ends ⊢
      have flushed : (if defer = true then b' else b'.flushPendingInlines).RunsIn Q := by
        cases defer with
        | true => exact split
        | false => exact split.flushPendingInlines split_ends.runs
      cases frame.kind with
      | link _ => exact flushed
      | image _ =>
        dsimp only
        cases defer with
        | true =>
          refine ⟨flushed.blocks, ?_, flushed.code⟩
          intro block mem
          rcases List.mem_append.mp mem with earlier | last
          · exact flushed.deferred block earlier
          · rw [List.mem_singleton.mp last]
            exact own
        | false =>
          rw [if_neg Bool.false_ne_true]
          exact RunsIn.pushBlock flushed _ _ own

theorem RunsIn.drainDeferred (runs : b.RunsIn Q) : b.drainDeferred.RunsIn Q := by
  unfold Builder.drainDeferred
  have empty : ({ b with deferred := [] } : Builder).RunsIn Q :=
    ⟨runs.blocks, List.forall_mem_nil _, runs.code⟩
  have each := runs.deferred
  revert each empty
  generalize b.deferred = deferred
  generalize ({ b with deferred := [] } : Builder) = b'
  intro empty each
  induction deferred generalizing b' with
  | nil => exact empty
  | cons first rest ih =>
    rw [List.forall_mem_cons] at each
    rw [List.foldl_cons]
    exact ih _ (RunsIn.pushBlock empty _ _ each.1) each.2

theorem RunsIn.endHeading (runs : b.RunsIn Q) (ends : b.EndsIn Q) : b.endHeading.RunsIn Q := by
  unfold Builder.endHeading
  cases b.frames with
  | nil => exact runs
  | cons frame rest =>
    dsimp only
    cases frame.kind with
    | heading level =>
      have reset : ({ b with frames := rest, inlines := [], runs := .empty } : Builder).RunsIn Q :=
        runs.congr rfl rfl rfl
      exact (reset.pushBlock _ _ ends.runs).drainDeferred
    | paragraph | blockquote _ _ | list _ _ _ | listItem _ _ _ =>
      exact runs.congr rfl rfl rfl

theorem RunsIn.endParagraph (runs : b.RunsIn Q) (ends : b.EndsIn Q) :
    b.endParagraph.RunsIn Q := by
  unfold Builder.endParagraph
  cases b.frames with
  | nil => exact runs
  | cons frame rest =>
    dsimp only
    cases frame.kind with
    | paragraph =>
      by_cases empty : b.inlines = []
      · rw [if_pos empty]
        exact runs.congr rfl rfl rfl
      · rw [if_neg empty]
        have reset :
            ({ b with frames := rest, inlines := [], runs := .empty } : Builder).RunsIn Q :=
          runs.congr rfl rfl rfl
        exact reset.pushBlock _ _ ends.runs
    | heading _ | blockquote _ _ | list _ _ _ | listItem _ _ _ =>
      exact runs.congr rfl rfl rfl

/-- A container that closes keeps the runs of its Blocks. -/
theorem RunsIn.popFrame (runs : b.RunsIn Q) (rest : List Frame) :
    ({ b with frames := rest } : Builder).RunsIn Q :=
  runs.congr rfl rfl rfl

theorem RunsIn.endBlockQuote (runs : b.RunsIn Q) : b.endBlockQuote.RunsIn Q := by
  unfold Builder.endBlockQuote
  cases b.frames with
  | nil => exact runs
  | cons frame rest =>
    dsimp only
    cases frame.kind with
    | blockquote path nodes => exact (runs.popFrame rest).pushContainer _ _ _
    | paragraph | heading _ | list _ _ _ | listItem _ _ _ => exact runs.popFrame rest

theorem RunsIn.endList (runs : b.RunsIn Q) : b.endList.RunsIn Q := by
  unfold Builder.endList
  cases b.frames with
  | nil => exact runs
  | cons frame rest =>
    dsimp only
    cases frame.kind with
    | list path ordered items => exact (runs.popFrame rest).pushContainer _ _ _
    | paragraph | heading _ | blockquote _ _ | listItem _ _ _ => exact runs.popFrame rest

theorem RunsIn.endItem (runs : b.RunsIn Q) (ends : b.EndsIn Q) : b.endItem.RunsIn Q := by
  unfold Builder.endItem
  have flushed := runs.flushPendingInlines ends.runs
  dsimp only
  cases b.flushPendingInlines.frames with
  | nil => exact flushed
  | cons frame rest =>
    dsimp only
    cases frame.kind with
    | listItem path content checked => exact (flushed.popFrame rest).pushContainer _ _ _
    | paragraph | heading _ | blockquote _ _ | list _ _ _ => exact flushed.popFrame rest

theorem RunsIn.endCodeBlock (runs : b.RunsIn Q) : b.endCodeBlock.RunsIn Q := by
  unfold Builder.endCodeBlock
  cases isCode : b.code_block with
  | none => exact runs
  | some accum =>
    have closed : ({ b with code_block := none } : Builder).RunsIn Q := by
      refine ⟨runs.blocks, runs.deferred, ?_⟩
      intro accum wrong
      cases wrong
    exact closed.pushBlock _ _ (runs.code accum isCode)

theorem RunsIn.stop (runs : b.RunsIn Q) (ends : b.EndsIn Q) (tag_end : TagEnd) :
    (b.stop tag_end).RunsIn Q := by
  cases tag_end with
  | heading => exact runs.endHeading ends
  | paragraph => exact runs.endParagraph ends
  | blockQuote => exact runs.endBlockQuote
  | list => exact runs.endList
  | item => exact runs.endItem ends
  | codeBlock => exact runs.endCodeBlock
  | link => exact runs.closeLink
  | image => exact runs.closeImage ends
  | metadataBlock | strong | emphasis | strikethrough =>
    exact runs.congr rfl rfl rfl
  | htmlBlock => exact runs

theorem RunsIn.start (runs : b.RunsIn Q) (ends : b.EndsIn Q) (containing_dir : Text) (tag : Tag)
    (range : Range) : (b.start containing_dir tag range).RunsIn Q := by
  cases tag with
  | list start_number =>
    exact (runs.flushPendingInlines ends.runs).congr rfl rfl rfl
  | codeBlock kind =>
    refine ⟨runs.blocks, runs.deferred, ?_⟩
    intro accum isCode
    rw [← Option.some.inj isCode]
    exact runsEndIn_nil Q
  | metadataBlock | heading level | paragraph | blockQuote | item | link dest_url | image dest_url
  | strong | emphasis | strikethrough => exact runs.congr rfl rfl rfl
  | htmlBlock => exact runs

theorem RunsIn.text (runs : b.RunsIn Q) (source content : Text) {range : Range}
    (within : Range.EndsIn Q range) : (b.text source content range).RunsIn Q := by
  unfold Builder.text
  by_cases metadata : b.in_metadata
  · rw [if_pos metadata]
    exact runs
  · rw [if_neg metadata]
    by_cases empty : content = []
    · rw [if_pos empty]
      exact runs
    · rw [if_neg empty]
      cases isCode : b.code_block with
      | none => exact (runs.emitRun _ _ _).pushInline _
      | some accum =>
        refine ⟨runs.blocks, runs.deferred, ?_⟩
        intro accum' isCode'
        rw [← Option.some.inj isCode']
        exact RunAccum.push_endIn (runs.code accum isCode) _ within _

theorem RunsIn.setChecked (runs : b.RunsIn Q) (checked : Bool) :
    (b.setChecked checked).RunsIn Q := by
  unfold Builder.setChecked
  split
  · exact runs.congr rfl rfl rfl
  · exact runs

theorem RunsIn.handle (runs : b.RunsIn Q) (ends : b.EndsIn Q) (source containing_dir : Text)
    {entry : Event × Range} (within : Range.EndsIn Q entry.2) :
    (b.handle source containing_dir entry).RunsIn Q := by
  unfold Builder.handle
  cases entry.1 with
  | start tag => exact runs.start ends containing_dir tag entry.2
  | stop tag_end => exact runs.stop ends tag_end
  | leaf leaf =>
    cases leaf with
    | text content => exact runs.text source content within
    | code content => exact (runs.emitRun _ _ _).pushInline _
    | rule => exact runs.pushBlock _ _ (runsEndIn_nil Q)
    | softBreak | hardBreak => exact (runs.emitRun _ _ _).pushInline _
    | taskListMarker checked => exact runs.setChecked checked
    | html _ | inlineHtml _ => exact runs

theorem RunsIn.run (runs : b.RunsIn Q) (ends : b.EndsIn Q) (source containing_dir : Text)
    {events : List (Event × Range)}
    (within : ∀ entry ∈ events, Range.EndsIn Q entry.2 ∧ entry.2.start ≤ entry.2.stop) :
    (b.run source containing_dir events).RunsIn Q := by
  unfold Builder.run
  induction events generalizing b with
  | nil => exact runs
  | cons entry rest ih =>
    rw [List.forall_mem_cons] at within
    exact ih (runs.handle ends source containing_dir within.1.1)
      (ends.handle source containing_dir within.1.1 within.1.2) within.2

end Builder

/-! ## The parsed note -/

variable {source : Text} (stream : EventStream source) (containing_dir : Text)

theorem Builder.new_endsIn (Q : Nat → Prop) : Builder.new.EndsIn Q := by
  constructor
  · exact List.forall_mem_nil _
  · exact List.forall_mem_nil _
  · exact List.forall_mem_nil _
  · intro accum wrong
    cases wrong
  · exact List.forall_mem_nil _
  · exact List.forall_mem_nil _
  · intro range wrong
    cases wrong

/-- Every run of a Block of a Note ends on character boundaries. -/
theorem EventStream.runsIn :
    (Builder.new.run source containing_dir stream.events).RunsIn (IsBoundary source) := by
  have within := Forest.boundaries_of_placed stream.placed
  apply Builder.RunsIn.run _ (Builder.new_endsIn _) _ _ within
  constructor
  · exact List.forall_mem_nil _
  · exact List.forall_mem_nil _
  · intro accum wrong
    cases wrong

end Burlmd.Markdown
