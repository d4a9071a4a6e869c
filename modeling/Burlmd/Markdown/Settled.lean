import Burlmd.Markdown.Parser

/-!
# Trees without a pending conflict

No parse produces a Suggestion: they come from conflict markers only.
-/

namespace Burlmd.Markdown

open Utf8

mutual

/-- No Suggestion stands anywhere in the node. -/
def AstNode.settled : AstNode → Bool
  | .list _ items => settledEach items
  | .listItem content _ => settledEach content
  | .blockquote nodes => settledEach nodes
  | .suggestion .. => false
  | .heading .. | .paragraph _ | .codeBlock .. | .thematicBreak | .image .. => true

def settledEach : List AstNode → Bool
  | [] => true
  | node :: rest => node.settled && settledEach rest

end

theorem settledEach_iff {nodes : List AstNode} :
    settledEach nodes = true ↔ ∀ node ∈ nodes, node.settled = true := by
  induction nodes with
  | nil => simp [settledEach]
  | cons node rest ih => simp [settledEach, ih]

/-- Every node that is built so far is settled. -/
structure Builder.Settled (b : Builder) : Prop where
  root : ∀ node ∈ b.root_nodes, node.settled = true
  frames : ∀ frame ∈ b.frames, ∀ node ∈ frame.kind.nodes, node.settled = true
  deferred : ∀ block ∈ b.deferred, block.node.settled = true

namespace Builder

variable {b : Builder}

theorem mem_nodes_push {kind : FrameKind} {node other : AstNode}
    (inside : other ∈ (kind.push node).nodes) : other ∈ kind.nodes ∨ other = node := by
  cases kind with
  | heading level => exact Or.inl inside
  | paragraph => exact Or.inl inside
  | blockquote path nodes =>
    rcases List.mem_append.mp inside with old | new
    · exact Or.inl old
    · exact Or.inr (List.mem_singleton.mp new)
  | list path ordered items =>
    rcases List.mem_append.mp inside with old | new
    · exact Or.inl old
    · exact Or.inr (List.mem_singleton.mp new)
  | listItem path content checked =>
    rcases List.mem_append.mp inside with old | new
    · exact Or.inl old
    · exact Or.inr (List.mem_singleton.mp new)

theorem Settled.attach (settled : b.Settled) {node : AstNode} (isSettled : node.settled = true) :
    (b.attach node).Settled := by
  unfold Builder.attach
  cases b.containerIndex with
  | none =>
    refine ⟨?_, settled.frames, settled.deferred⟩
    intro other inside
    rcases List.mem_append.mp inside with old | new
    · exact settled.root other old
    · rw [List.mem_singleton.mp new]
      exact isSettled
  | some index =>
    refine ⟨settled.root, ?_, settled.deferred⟩
    intro frame inside other mem
    rcases List.mem_iff_getElem?.mp inside with ⟨place, at_⟩
    rw [List.getElem?_modify] at at_
    rcases Option.map_eq_some_iff.mp at_ with ⟨old, found, same⟩
    have known := settled.frames old (List.mem_of_getElem? found)
    split at same
    · rw [← same] at mem
      rcases mem_nodes_push mem with before | new
      · exact known other before
      · rw [new]
        exact isSettled
    · rw [← same] at mem
      exact known other mem

theorem Settled.pushBlock (settled : b.Settled) {node : AstNode} (isSettled : node.settled = true)
    (source : Option Range) (runs : List InlineRun) : (b.pushBlock node source runs).Settled := by
  unfold Builder.pushBlock
  cases source with
  | none => exact settled.attach isSettled
  | some source =>
    apply Settled.attach ?_ isSettled
    exact ⟨settled.root, settled.frames, settled.deferred⟩

theorem Settled.pushContainer (settled : b.Settled) {node : AstNode}
    (isSettled : node.settled = true) (path : BlockPath) (source : Range) :
    (b.pushContainer node path source).Settled := by
  unfold Builder.pushContainer
  apply Settled.attach ?_ isSettled
  exact ⟨settled.root, settled.frames, settled.deferred⟩

theorem Settled.flushPendingInlines (settled : b.Settled) : b.flushPendingInlines.Settled := by
  unfold Builder.flushPendingInlines
  split
  · exact ⟨settled.root, settled.frames, settled.deferred⟩
  · apply Settled.pushBlock ?_ rfl
    exact ⟨settled.root, settled.frames, settled.deferred⟩

/-- What is only pushed onto the inline stacks keeps the nodes. -/
theorem Settled.of_same {other : Builder} (settled : b.Settled)
    (root : other.root_nodes = b.root_nodes) (frames : other.frames = b.frames)
    (deferred : other.deferred = b.deferred) : other.Settled :=
  ⟨root ▸ settled.root, frames ▸ settled.frames, deferred ▸ settled.deferred⟩

theorem Settled.emitRun (settled : b.Settled) (chars : Nat) (range : Range) (interpolable : Bool) :
    (b.emitRun chars range interpolable).Settled := by
  unfold Builder.emitRun
  split
  · exact ⟨settled.root, settled.frames, settled.deferred⟩
  · exact ⟨settled.root, settled.frames, settled.deferred⟩

theorem Settled.pushInline (settled : b.Settled) (element : InlineElement) :
    (b.pushInline element).Settled := by
  unfold Builder.pushInline
  split
  · exact ⟨settled.root, settled.frames, settled.deferred⟩
  · exact ⟨settled.root, settled.frames, settled.deferred⟩

theorem Settled.openFrame (settled : b.Settled) {kind : FrameKind} (empty : kind.nodes = [])
    (range : Range) : (b.openFrame kind range).Settled := by
  refine ⟨settled.root, ?_, settled.deferred⟩
  intro frame inside node mem
  rcases List.mem_cons.mp inside with same | inside
  · rw [same, empty] at mem
    cases mem
  · exact settled.frames frame inside node mem

theorem Settled.closeLink (settled : b.Settled) : b.closeLink.Settled := by
  unfold Builder.closeLink
  split
  · exact settled
  · dsimp only
    have inner : ∀ rest, ({ b with link_stack := rest } : Builder).Settled := fun rest =>
      ⟨settled.root, settled.frames, settled.deferred⟩
    split
    · exact inner _
    · exact ((inner _).emitRun _ _ _).pushInline _

theorem Settled.splitFrame (settled : b.Settled) : b.splitFrame.1.Settled := by
  unfold Builder.splitFrame
  cases frames : b.frames with
  | nil => exact settled
  | cons frame rest =>
    have marked : ({ b with frames := { frame with split := true } :: rest } : Builder).Settled := by
      refine ⟨settled.root, ?_, settled.deferred⟩
      intro other inside
      rcases List.mem_cons.mp inside with same | inside
      · rw [same]
        exact settled.frames frame (frames ▸ List.mem_cons_self)
      · exact settled.frames other (frames ▸ List.mem_cons_of_mem _ inside)
    dsimp only
    split
    · exact marked
    · exact marked
    · exact settled

theorem Settled.closeImage (settled : b.Settled) : b.closeImage.Settled := by
  unfold Builder.closeImage
  split
  · exact settled
  · rename_i frame rest _
    have inner : ({ b with link_stack := rest } : Builder).Settled :=
      ⟨settled.root, settled.frames, settled.deferred⟩
    have split_ := inner.splitFrame
    generalize ({ b with link_stack := rest } : Builder).splitFrame = pair at split_
    rcases pair with ⟨after, defer⟩
    have ready : (if defer then after else after.flushPendingInlines).Settled := by
      split
      · exact split_
      · exact split_.flushPendingInlines
    dsimp only
    generalize (if defer then after else after.flushPendingInlines) = ready_ at ready
    split
    · exact ready
    · split
      · refine ⟨ready.root, ready.frames, ?_⟩
        intro block inside
        rcases List.mem_append.mp inside with old | new
        · exact ready.deferred block old
        · rw [List.mem_singleton.mp new]
          rfl
      · exact ready.pushBlock rfl _ _

theorem Settled.foldl_pushBlock (settled : b.Settled) {blocks : List DeferredBlock}
    (known : ∀ block ∈ blocks, block.node.settled = true) :
    (blocks.foldl (fun b deferred =>
      b.pushBlock deferred.node (some deferred.source) deferred.runs) b).Settled := by
  induction blocks generalizing b with
  | nil => exact settled
  | cons block rest ih =>
    apply ih
    · exact settled.pushBlock (known block List.mem_cons_self) _ _
    · exact fun other inside => known other (List.mem_cons_of_mem _ inside)

theorem Settled.drainDeferred (settled : b.Settled) : b.drainDeferred.Settled := by
  unfold Builder.drainDeferred
  apply Settled.foldl_pushBlock ?_ settled.deferred
  exact ⟨settled.root, settled.frames, List.forall_mem_nil _⟩

/-- A frame that is closed leaves its nodes to its parent. -/
theorem Settled.popFrame (settled : b.Settled) {frame : Frame} {rest : List Frame}
    (frames : b.frames = frame :: rest) :
    ({ b with frames := rest } : Builder).Settled ∧ settledEach frame.kind.nodes = true := by
  refine ⟨⟨settled.root, ?_, settled.deferred⟩, ?_⟩
  · intro other inside
    exact settled.frames other (frames ▸ List.mem_cons_of_mem _ inside)
  · exact settledEach_iff.mpr (settled.frames frame (frames ▸ List.mem_cons_self))

theorem Settled.endHeading (settled : b.Settled) : b.endHeading.Settled := by
  unfold Builder.endHeading
  cases frames : b.frames with
  | nil => exact settled
  | cons frame rest =>
    have popped := (settled.popFrame frames).1
    dsimp only
    split
    · apply Settled.drainDeferred
      apply Settled.pushBlock ?_ rfl
      exact ⟨popped.root, popped.frames, popped.deferred⟩
    · exact popped

theorem Settled.endParagraph (settled : b.Settled) : b.endParagraph.Settled := by
  unfold Builder.endParagraph
  cases frames : b.frames with
  | nil => exact settled
  | cons frame rest =>
    have popped := (settled.popFrame frames).1
    dsimp only
    split
    · split
      · exact ⟨popped.root, popped.frames, popped.deferred⟩
      · apply Settled.pushBlock ?_ rfl
        exact ⟨popped.root, popped.frames, popped.deferred⟩
    · exact popped

theorem Settled.endBlockQuote (settled : b.Settled) : b.endBlockQuote.Settled := by
  unfold Builder.endBlockQuote
  cases frames : b.frames with
  | nil => exact settled
  | cons frame rest =>
    rcases settled.popFrame frames with ⟨popped, nodes⟩
    dsimp only
    split
    · rename_i path nodes' isQuote
      rw [isQuote] at nodes
      apply popped.pushContainer
      rw [AstNode.settled]
      exact nodes
    · exact popped

theorem Settled.endList (settled : b.Settled) : b.endList.Settled := by
  unfold Builder.endList
  cases frames : b.frames with
  | nil => exact settled
  | cons frame rest =>
    rcases settled.popFrame frames with ⟨popped, nodes⟩
    dsimp only
    split
    · rename_i path ordered items isList
      rw [isList] at nodes
      apply popped.pushContainer
      rw [AstNode.settled]
      exact nodes
    · exact popped

theorem Settled.endItem (settled : b.Settled) : b.endItem.Settled := by
  have flushed := settled.flushPendingInlines
  unfold Builder.endItem
  generalize b.flushPendingInlines = after at flushed
  dsimp only
  cases frames : after.frames with
  | nil => exact flushed
  | cons frame rest =>
    rcases flushed.popFrame frames with ⟨popped, nodes⟩
    dsimp only
    split
    · rename_i path content checked isItem
      rw [isItem] at nodes
      apply popped.pushContainer
      rw [AstNode.settled]
      exact nodes
    · exact popped

theorem Settled.endCodeBlock (settled : b.Settled) : b.endCodeBlock.Settled := by
  unfold Builder.endCodeBlock
  split
  · exact settled
  · apply Settled.pushBlock ?_ rfl
    exact ⟨settled.root, settled.frames, settled.deferred⟩

theorem Settled.setChecked (settled : b.Settled) (checked : Bool) :
    (b.setChecked checked).Settled := by
  unfold Builder.setChecked
  split
  · rename_i path content old range split_ rest frames
    refine ⟨settled.root, ?_, settled.deferred⟩
    intro frame inside
    rcases List.mem_cons.mp inside with same | inside
    · have known := settled.frames _ (frames ▸ List.mem_cons_self)
      rw [same]
      exact known
    · exact settled.frames frame (frames ▸ List.mem_cons_of_mem _ inside)
  · exact settled

theorem Settled.start (settled : b.Settled) (containing_dir : Text) (tag : Tag) (range : Range) :
    (b.start containing_dir tag range).Settled := by
  have same : ∀ other : Builder, other.root_nodes = b.root_nodes → other.frames = b.frames →
      other.deferred = b.deferred → other.Settled := fun _ => settled.of_same
  cases tag with
  | heading level =>
    apply Settled.openFrame ?_ rfl
    exact same _ rfl rfl rfl
  | paragraph =>
    apply Settled.openFrame ?_ rfl
    exact same _ rfl rfl rfl
  | blockQuote => exact settled.openFrame rfl _
  | list start_number => exact settled.flushPendingInlines.openFrame rfl _
  | item => exact settled.openFrame rfl _
  | metadataBlock | codeBlock _ | link _ | image _ | strong | emphasis | strikethrough | htmlBlock =>
    exact same _ rfl rfl rfl

theorem Settled.stop (settled : b.Settled) (tag_end : TagEnd) : (b.stop tag_end).Settled := by
  cases tag_end with
  | heading => exact settled.endHeading
  | paragraph => exact settled.endParagraph
  | blockQuote => exact settled.endBlockQuote
  | list => exact settled.endList
  | item => exact settled.endItem
  | codeBlock => exact settled.endCodeBlock
  | link => exact settled.closeLink
  | image => exact settled.closeImage
  | metadataBlock | strong | emphasis | strikethrough | htmlBlock =>
    exact settled.of_same rfl rfl rfl

theorem Settled.text (settled : b.Settled) (source content : Text) (range : Range) :
    (b.text source content range).Settled := by
  unfold Builder.text
  split
  · exact settled
  · split
    · exact settled
    · split
      · exact ⟨settled.root, settled.frames, settled.deferred⟩
      · exact (settled.emitRun _ _ _).pushInline _

theorem Settled.handle (settled : b.Settled) (source containing_dir : Text)
    (entry : Event × Range) : (handle source containing_dir b entry).Settled := by
  rcases entry with ⟨event, range⟩
  cases event with
  | start tag => exact settled.start containing_dir tag range
  | stop tag_end => exact settled.stop tag_end
  | leaf leaf =>
    cases leaf with
    | text content => exact settled.text source content range
    | code content => exact (settled.emitRun _ _ _).pushInline _
    | rule =>
      have plain : AstNode.thematicBreak.settled = true := by rw [AstNode.settled]
      exact settled.pushBlock plain (some range) []
    | softBreak | hardBreak => exact (settled.emitRun _ _ _).pushInline _
    | taskListMarker checked => exact settled.setChecked checked
    | html _ | inlineHtml _ => exact settled

theorem Settled.run (settled : b.Settled) (source containing_dir : Text)
    (events : List (Event × Range)) : (b.run source containing_dir events).Settled := by
  induction events generalizing b with
  | nil => exact settled
  | cons entry rest ih => exact ih (settled.handle source containing_dir entry)

end Builder

/-- Every Block of a parsed Note is settled. -/
theorem parseNote_settled (source containing_dir : Text) (events : List (Event × Range)) :
    ∀ node ∈ (parseNote source containing_dir events).ast, node.settled = true := by
  have empty : Builder.new.Settled :=
    ⟨List.forall_mem_nil _, List.forall_mem_nil _, List.forall_mem_nil _⟩
  exact (empty.run source containing_dir events).root

end Burlmd.Markdown
