import Mathlib.Data.List.Basic
import Mathlib.Tactic.Common
import Burlmd.Markdown.Finish
import Burlmd.Markdown.Layout
import Burlmd.Markdown.Registry

/-!
# The span map measures the rendered text of the tree

Every leaf the parser registers has runs that tile its rendered text. The length
of a container is right as long as every node of the tree below it is registered,
which fails exactly for a nested heading that images leave without any text.
-/

namespace Burlmd.Markdown

open Utf8

namespace AstNode

/-- The child nodes that take part in the newline join of a container. -/
def kids : AstNode → List AstNode
  | list _ items => items
  | listItem content _ => content
  | blockquote nodes => nodes
  | _ => []

end AstNode

/-- The node a block path addresses. -/
def nodeAt : List AstNode → BlockPath → Option AstNode
  | _, [] => none
  | nodes, [index] => nodes[index]?
  | nodes, index :: next :: rest =>
      nodes[index]?.bind fun node => nodeAt node.kids (next :: rest)

/-- The map describes `node` in `block`. -/
structure BlockSpan.Describes (source : Text) (blocks : List BlockSpan) (block : BlockSpan)
    (node : AstNode) : Prop where
  rendered_len : block.rendered_len = (renderedText node).length
  /-- The runs of a leaf tile its text, stand in source order inside its range, and slice
  to their characters where they are interpolable. -/
  runs : block.isLeaf = true →
    RunsLay source block.source.start block.source.stop (renderedText node) block.runs
  /-- The children the map knows are the children in the newline join. -/
  children : block.children.map (pathAt blocks) =
    (List.range node.kids.length).map fun index => block.path ++ [index]

/-- Every registered block addresses a node of the tree and describes it. -/
def ParsedNote.Measured (source : Text) (note : ParsedNote) : Prop :=
  ∀ block ∈ note.spans.blocks, ∃ node, nodeAt note.ast block.path = some node ∧
    block.Describes source note.spans.blocks node

namespace Forest

/-- No heading inside a quote or an item holds an image and no visible text of its own. -/
def headingsShow (nested : Bool) : Forest → Bool
  | nil => true
  | leaf _ _ rest => rest.headingsShow nested
  | node tag _ children rest =>
      (match tag with
        | .heading _ => !nested || children.hoisted = [] || children.ownText ≠ []
        | .blockQuote | .list _ | .item => children.headingsShow true
        | _ => true) && rest.headingsShow nested

end Forest

/-! ## Leaves -/

namespace Emitted

mutual

/-- Every leaf holds no nodes and has runs that lie in its source. -/
def Laid (source : Text) : Emitted → Prop
  | leaf node range runs => node.kids = [] ∧ ∀ span, range = some span →
      RunsLay source span.start span.stop (renderedText node) runs
  | container _ range children => range.start ≤ range.stop ∧ LaidAll source children

def LaidAll (source : Text) : List Emitted → Prop
  | [] => True
  | block :: rest => block.Laid source ∧ LaidAll source rest

end

theorem laidAll_iff {source : Text} {blocks : List Emitted} :
    LaidAll source blocks ↔ ∀ block ∈ blocks, block.Laid source := by
  induction blocks with
  | nil => simp [LaidAll]
  | cons block rest ih => simp [LaidAll, ih]

end Emitted

structure Pending.Laid (source : Text) (low high : Nat) (pending : Pending) : Prop where
  runs : pending.runs.Lays source low high pending.text
  shown : pending.inlines ≠ [] → pending.runs.runs ≠ []

namespace Pending.Laid

variable {source : Text} {low high : Nat} {pending : Pending}

theorem mono (laid : pending.Laid source low high) {high' : Nat} (le : high ≤ high') :
    pending.Laid source low high' :=
  ⟨laid.runs.mono le, laid.shown⟩

theorem empty (le : low ≤ high) : Pending.empty.Laid source low high :=
  ⟨by rw [Pending.text_empty]; exact RunAccum.empty_lays le, by simp [Pending.empty]⟩

theorem push (laid : pending.Laid source low high) {shown : InlineElement} {chars : Nat}
    {range : Range} {interpolable : Bool} (start : high ≤ range.start)
    (ordered : range.start < range.stop) (count : chars = shown.rendered.length)
    (positive : 0 < chars)
    (exact : interpolable = true → slice? source range = some shown.rendered) :
    (pending.push (.element shown chars range interpolable)).Laid source low range.stop := by
  subst count
  refine ⟨?_, ?_⟩
  · simpa [Pending.push, Pending.text] using
      laid.runs.push _ _ start (Nat.le_of_lt ordered) exact
  · simp [Pending.push, RunAccum.push, Nat.ne_of_gt positive]

theorem runExtent_eq (laid : pending.Laid source low high) (something : pending.inlines ≠ []) :
    ∃ range, runExtent pending.runs.runs = some range ∧ low ≤ range.start ∧ range.stop ≤ high ∧
      InOrder range.start pending.runs.runs range.stop := by
  obtain ⟨range, extent⟩ := Option.isSome_iff_exists.mp
    (runExtent_isSome.mpr (laid.shown something))
  exact ⟨range, extent, laid.runs.runs.order.extent extent⟩

/-- The paragraph pending content becomes is laid out in its source. -/
theorem paragraph (laid : pending.Laid source low high) {range : Range}
    (inside : InOrder range.start pending.runs.runs range.stop) :
    ∀ block ∈ pending.paragraph (some range), block.Laid source := by
  intro block member
  by_cases nothing : pending.inlines = []
  · simp [Pending.paragraph, nothing] at member
  · simp only [Pending.paragraph, nothing, if_false, List.mem_singleton] at member
    subst member
    refine ⟨rfl, ?_⟩
    rintro span ⟨⟩
    refine ⟨?_, inside, ?_⟩
    · simpa [renderedText, Pending.text] using laid.runs.runs.tiles
    · simpa [renderedText, Pending.text] using laid.runs.runs.exact

theorem flush (laid : pending.Laid source low high) :
    ∀ block ∈ pending.flush, block.Laid source := by
  intro block member
  by_cases nothing : pending.inlines = []
  · simp [Pending.flush, Pending.paragraph, nothing] at member
  · obtain ⟨range, extent, -, -, inside⟩ := laid.runExtent_eq nothing
    rw [Pending.flush, extent] at member
    exact laid.paragraph inside block member

end Pending.Laid

theorem Image.laid {source : Text} {image : Image}
    (ordered : image.source.start < image.source.stop) : image.emitted.Laid source := by
  refine ⟨rfl, ?_⟩
  rintro span ⟨⟩
  have empty : RunAccum.empty.Lays source image.source.start image.source.start [] :=
    RunAccum.empty_lays (le_refl _)
  have lays := empty.push image.alt_text false (le_refl _) (Nat.le_of_lt ordered) (by simp)
  exact lays.runs

structure Flow.Laid (source : Text) (low high : Nat) (st : Flow) : Prop where
  pending : st.pending.Laid source low high
  blocks : ∀ block ∈ st.blocks, block.Laid source

namespace Flow.Laid

variable {source : Text} {low high : Nat} {st : Flow}

theorem mono (laid : st.Laid source low high) {high' : Nat} (le : high ≤ high') :
    st.Laid source low high' :=
  ⟨laid.pending.mono le, laid.blocks⟩

theorem push (laid : st.Laid source low high) {blocks : List Emitted}
    (each : ∀ block ∈ blocks, block.Laid source) : (st.push blocks).Laid source low high := by
  refine ⟨laid.pending, fun block member => ?_⟩
  rcases List.mem_append.mp member with member | member
  · exact laid.blocks block member
  · exact each block member

theorem flush (laid : st.Laid source low high) : st.flush.Laid source low high := by
  refine ⟨Pending.Laid.empty (laid.pending.runs.runs.order.le), fun block member => ?_⟩
  rcases List.mem_append.mp member with member | member
  · exact laid.blocks block member
  · exact laid.pending.flush block member

theorem landElement (laid : st.Laid source low high) {shown : InlineElement} {chars : Nat}
    {range : Range} {interpolable : Bool} (start : high ≤ range.start)
    (ordered : range.start < range.stop) (count : chars = shown.rendered.length)
    (positive : 0 < chars)
    (exact : interpolable = true → slice? source range = some shown.rendered) :
    (st.land (.element shown chars range interpolable)).Laid source low range.stop :=
  ⟨laid.pending.push start ordered count positive exact, laid.blocks⟩

theorem landImage (laid : st.Laid source low high) {image : Image}
    (ordered : image.source.start < image.source.stop) :
    (st.land (.image image)).Laid source low high :=
  laid.flush.push (by simpa using Image.laid ordered)

theorem land (laid : st.Laid source low high) {atoms : List Atom} {high' : Nat}
    (placed : AtomsPlaced source high atoms high') :
    (atoms.foldl Flow.land st).Laid source low high' := by
  induction atoms generalizing st high with
  | nil => exact laid.mono placed
  | cons atom rest ih =>
    cases atom with
    | element shown chars range interpolable =>
      obtain ⟨start, ordered, -, count, positive, exact, tail⟩ := placed
      exact ih (laid.landElement start ordered count positive exact) tail
    | image image => exact ih (laid.landImage placed.1) placed.2.2

theorem enter (laid : st.Laid source low high) : st.enter.Laid source low high :=
  ⟨laid.pending, by simp [Flow.enter]⟩

theorem leave (laid : st.Laid source low high) {inner : Flow} {high' : Nat}
    (within : inner.Laid source low high') (kind : ContainerKind) {range : Range}
    (ordered : range.start < range.stop) : (st.leave inner kind range).Laid source low high' := by
  refine ⟨within.pending, fun block member => ?_⟩
  rcases List.mem_append.mp member with member | member
  · exact laid.blocks block member
  · obtain rfl := List.mem_singleton.mp member
    exact ⟨Nat.le_of_lt ordered, Emitted.laidAll_iff.mpr within.blocks⟩

end Flow.Laid

theorem codeLines_lays {source : Text} (f : Forest) (conforms : f.conforms .verbatim = true)
    {accum : RunAccum} {text : Text} {low mid high : Nat}
    (placed : f.placed source mid high = true) (lays : accum.Lays source low mid text) :
    (Flow.codeLines source accum f).2.Lays source low high (text ++ f.ownText) := by
  induction f generalizing accum text mid with
  | nil =>
    simp only [Forest.placed, decide_eq_true_eq] at placed
    simpa [Flow.codeLines, Forest.ownText] using lays.mono placed
  | node tag => simp [Forest.conforms, Tag.inner] at conforms
  | leaf l range rest ih =>
    simp only [Forest.conforms, Bool.and_eq_true] at conforms
    simp only [Forest.placed, Bool.and_eq_true, decide_eq_true_eq] at placed
    obtain ⟨⟨start, slice⟩, tail⟩ := placed
    cases l with
    | text content =>
      have rendered : (Leaf.text content).rendered = content := by
        by_cases blank : content = [] <;> simp [Leaf.rendered, Leaf.shown?, blank]
      have next := ih conforms.2 tail (lays.push content (slice? source range = some content)
        start (slice?_isSome_iff.mp slice).1 (by simp))
      simpa [Flow.codeLines, Forest.ownText, rendered] using next
    | _ => simp [Leaf.allowed] at conforms

namespace Flow

variable {source : Text} (containing_dir : Text) {low high : Nat} {st : Flow}

theorem Laid.paragraph (laid : st.Laid source 0 high) {range : Range} {children : Forest}
    (conforms : children.conforms .paragraph = true)
    (placed : children.placed source range.start range.stop = true) :
    (st.paragraph source containing_dir range children).Laid source 0 range.stop := by
  have cleared : ({ st with pending := .empty } : Flow).Laid source range.start range.start :=
    ⟨Pending.Laid.empty (le_refl _), laid.blocks⟩
  have landed := cleared.land
    (children.atoms_placed source containing_dir rfl conforms placed st.format)
  refine ⟨Pending.Laid.empty (Nat.zero_le _), fun block member => ?_⟩
  rcases List.mem_append.mp member with member | member
  · exact landed.blocks block member
  · by_cases images : (children.atoms source containing_dir st.format).any Atom.isImage
    · rw [tagSource, if_pos images] at member
      exact landed.pending.flush block member
    · rw [tagSource, if_neg images] at member
      exact landed.pending.paragraph landed.pending.runs.runs.order block member

/-- The pending content of a heading, whose images wait outside it. -/
theorem pushAtoms_laid {pending : Pending} (laid : pending.Laid source low high)
    {atoms : List Atom} {high' : Nat} (placed : AtomsPlaced source high atoms high') :
    (atoms.foldl Pending.push pending).Laid source low high' := by
  induction atoms generalizing pending high with
  | nil => exact laid.mono placed
  | cons atom rest ih =>
    cases atom with
    | element shown chars range interpolable =>
      obtain ⟨start, ordered, -, count, positive, exact, tail⟩ := placed
      exact ih (laid.push start ordered count positive exact) tail
    | image image => exact ih laid placed.2.2

theorem Laid.heading (laid : st.Laid source 0 high) (level : Nat) {range : Range}
    {children : Forest} (conforms : children.conforms .inline = true)
    (placed : children.placed source range.start range.stop = true) :
    (st.heading source containing_dir level range children).Laid source 0 range.stop := by
  have atoms := children.atoms_placed source containing_dir rfl conforms placed st.format
  have pending := pushAtoms_laid (Pending.Laid.empty (le_refl range.start)) atoms
  refine ⟨Pending.Laid.empty (Nat.zero_le _), fun block member => ?_⟩
  simp only [Flow.heading, List.mem_append, List.mem_cons, List.mem_map] at member
  obtain member | rfl | ⟨image, member, rfl⟩ := member
  · exact laid.blocks block member
  · refine ⟨rfl, fun span registered => ?_⟩
    have text : renderedText (.heading level (processInlines
        ((children.atoms source containing_dir st.format).foldl Pending.push .empty).inlines)) =
          ((children.atoms source containing_dir st.format).foldl Pending.push .empty).text := by
      simp [renderedText, Pending.text]
    rw [text]
    refine ⟨pending.runs.runs.tiles, ?_, pending.runs.runs.exact⟩
    by_cases images : (children.atoms source containing_dir st.format).any Atom.isImage
    · rw [tagSource, if_pos images] at registered
      exact (pending.runs.runs.order.extent registered).2.2
    · rw [tagSource, if_neg images] at registered
      obtain rfl := Option.some.inj registered
      exact pending.runs.runs.order
  · rw [imagesOf_atoms] at member
    exact Image.laid (children.hoisted_placed source placed image member).1

theorem Laid.codeBlock (laid : st.Laid source 0 high) (kind : CodeBlockKind) {range : Range}
    {children : Forest} (start : high ≤ range.start) (ordered : range.start < range.stop)
    (conforms : children.conforms .verbatim = true)
    (placed : children.placed source range.start range.stop = true) :
    (st.codeBlock source kind range children).Laid source 0 range.stop := by
  have lays := codeLines_lays children conforms placed
    (RunAccum.empty_lays (le_refl range.start))
  refine (laid.push fun block member => ?_).mono (by omega)
  obtain rfl := List.mem_singleton.mp member
  refine ⟨rfl, ?_⟩
  rintro span ⟨⟩
  simpa [renderedText, conforms] using lays.runs

theorem Laid.bare (laid : st.Laid source 0 low) {f : Forest}
    (conforms : f.conforms .inline = true) (placed : f.placed source low high = true) :
    (st.bare source containing_dir f).Laid source 0 high := by
  have landed := laid.land (f.atoms_placed source containing_dir rfl conforms placed st.format)
  exact ⟨landed.pending, landed.blocks⟩

theorem Laid.leaf (laid : st.Laid source 0 low) {l : Leaf} {range : Range} {context : Context}
    (block : context = .flow ∨ context = .items) (allowed : l.allowed range context = true)
    (start : low ≤ range.start) (slice : (slice? source range).isSome) :
    (st.leaf source l range).Laid source 0 range.stop := by
  obtain rfl | rfl := block
  · have landed := laid.land (Forest.leafAtoms_placed source st.format (.inr rfl) allowed start
      slice (le_refl _))
    have le := (slice?_isSome_iff.mp slice).1
    cases l with
    | rule =>
      refine (laid.push fun block member => ?_).mono (Nat.le_trans start le)
      obtain rfl := List.mem_singleton.mp member
      refine ⟨rfl, ?_⟩
      rintro span ⟨⟩
      exact ⟨rfl, le, by simp [Exact]⟩
    | taskListMarker => exact ⟨laid.pending.mono (Nat.le_trans start le), laid.blocks⟩
    | _ => exact landed
  · simp [Leaf.allowed] at allowed

end Flow

theorem Forest.emit_laid {source : Text} (containing_dir : Text) (f : Forest)
    {context : Context} (block : context = .flow ∨ context = .items)
    (conforms : f.conforms context = true) {low high : Nat}
    (placed : f.placed source low high = true) {st : Flow} (laid : st.Laid source 0 low) :
    (f.emit source containing_dir st).Laid source 0 high := by
  induction f generalizing context low high st with
  | nil =>
    simp only [Forest.placed, decide_eq_true_eq] at placed
    exact laid.mono placed
  | leaf l range rest ih =>
    simp only [Forest.conforms, Bool.and_eq_true] at conforms
    simp only [Forest.placed, Bool.and_eq_true, decide_eq_true_eq] at placed
    obtain ⟨⟨start, slice⟩, tail⟩ := placed
    exact ih block conforms.2 tail (laid.leaf block conforms.1 start slice)
  | node tag range children rest inner ih =>
    simp only [Forest.placed, Bool.and_eq_true, decide_eq_true_eq] at placed
    obtain ⟨⟨⟨⟨start, ordered⟩, slice⟩, nested⟩, tail⟩ := placed
    have entered : st.enter.Laid source 0 range.start := laid.enter.mono start
    obtain rfl | rfl := block
    · cases tag with
      | paragraph =>
        simp only [Forest.conforms, Tag.inner, Bool.and_eq_true] at conforms
        exact ih (.inl rfl) conforms.2 tail (laid.paragraph containing_dir conforms.1 nested)
      | heading level =>
        simp only [Forest.conforms, Tag.inner, Bool.and_eq_true] at conforms
        exact ih (.inl rfl) conforms.2 tail (laid.heading containing_dir level conforms.1 nested)
      | blockQuote =>
        simp only [Forest.conforms, Tag.inner, Bool.and_eq_true] at conforms
        exact ih (.inl rfl) conforms.2 tail
          (laid.leave (inner (.inl rfl) conforms.1 nested entered) .blockquote ordered)
      | codeBlock kind =>
        simp only [Forest.conforms, Tag.inner, Bool.and_eq_true] at conforms
        exact ih (.inl rfl) conforms.2 tail (laid.codeBlock kind start ordered conforms.1 nested)
      | htmlBlock | metadataBlock =>
        simp only [Forest.conforms, Tag.inner, Bool.and_eq_true] at conforms
        exact ih (.inl rfl) conforms.2 tail
          ⟨laid.pending.mono (by omega), laid.blocks⟩
      | list start_number =>
        simp only [Forest.conforms, Tag.inner, Bool.and_eq_true] at conforms
        exact ih (.inl rfl) conforms.2 tail (laid.flush.leave
          (inner (.inr rfl) conforms.1 nested (laid.flush.enter.mono start)) _ ordered)
      | item => simp [Forest.conforms, Tag.inner] at conforms
      | emphasis | strong | strikethrough | link | image =>
        simp only [Forest.conforms, Tag.inner, Bool.and_eq_true] at conforms
        exact ih (.inl rfl) conforms.2 tail (laid.bare containing_dir
          (by simp [Forest.conforms, Tag.inner, conforms.1])
          (Forest.placed_alone start ordered slice nested))
    · cases tag with
      | item =>
        simp only [Forest.conforms, Tag.inner, Bool.and_eq_true] at conforms
        exact ih (.inr rfl) conforms.2 tail
          (laid.leave (inner (.inl rfl) conforms.1 nested entered).flush _ ordered)
      | _ => simp [Forest.conforms, Tag.inner] at conforms

/-! ## Nodes that are registered -/

namespace Emitted

mutual

/-- Every block below is registered. -/
def Sealed : Emitted → Prop
  | leaf .. => True
  | container _ _ children => SealedAll children

def SealedAll : List Emitted → Prop
  | [] => True
  | block :: rest => (block.source?.isSome ∧ block.Sealed) ∧ SealedAll rest

end

theorem sealedAll_iff {blocks : List Emitted} :
    SealedAll blocks ↔ ∀ block ∈ blocks, block.source?.isSome ∧ block.Sealed := by
  induction blocks with
  | nil => simp [SealedAll]
  | cons block rest ih => simp [SealedAll, ih]

/-- A block is registered, where `nested` asks for it, and so is every block below it. -/
def Good (nested : Bool) (block : Emitted) : Prop :=
  (nested = true → block.source?.isSome) ∧ block.Sealed

end Emitted

/-- Every block of a flow is good. -/
def Flow.Good (nested : Bool) (st : Flow) : Prop := ∀ block ∈ st.blocks, block.Good nested

namespace Flow.Good

variable {source : Text} (containing_dir : Text) {low high : Nat} {st : Flow} {nested : Bool}

theorem push_iff (blocks : List Emitted) :
    (st.push blocks).Good nested ↔ st.Good nested ∧ ∀ block ∈ blocks, block.Good nested := by
  simp [Flow.Good, Flow.push, or_imp, forall_and]

theorem paragraph_good {pending : Pending} {range : Option Range} (registered : range.isSome) :
    ∀ block ∈ pending.paragraph range, block.Good nested := by
  intro block member
  by_cases nothing : pending.inlines = []
  · simp [Pending.paragraph, nothing] at member
  · simp only [Pending.paragraph, nothing, if_false, List.mem_singleton] at member
    subst member
    exact ⟨fun _ => registered, trivial⟩

variable (nested) in
theorem flush_good {pending : Pending} (laid : pending.Laid source low high) :
    ∀ block ∈ pending.flush, block.Good nested := by
  by_cases nothing : pending.inlines = []
  · simp [Pending.flush, Pending.paragraph, nothing]
  · obtain ⟨range, extent, -⟩ := laid.runExtent_eq nothing
    exact paragraph_good (by simp [extent])

theorem flush_iff (laid : st.Laid source low high) : st.flush.Good nested ↔ st.Good nested := by
  have good := flush_good nested laid.pending
  simpa [Flow.Good, Flow.flush, or_imp, forall_and] using fun _ => good

variable (nested) in
theorem land_iff (laid : st.Laid source low high) {atoms : List Atom} {high' : Nat}
    (placed : AtomsPlaced source high atoms high') :
    (atoms.foldl Flow.land st).Good nested ↔ st.Good nested := by
  induction atoms generalizing st high with
  | nil => rfl
  | cons atom rest ih =>
    cases atom with
    | element shown chars range interpolable =>
      obtain ⟨start, ordered, -, count, positive, exact, tail⟩ := placed
      exact ih (laid.landElement start ordered count positive exact) tail
    | image image =>
      rw [List.foldl_cons, ih (laid.landImage placed.1) placed.2.2, Flow.land, push_iff,
        flush_iff laid]
      simp [Image.emitted, Emitted.Good, Emitted.Sealed]

theorem paragraph_iff (laid : st.Laid source 0 high) {range : Range} {children : Forest}
    (conforms : children.conforms .paragraph = true)
    (placed : children.placed source range.start range.stop = true) :
    (st.paragraph source containing_dir range children).Good nested ↔ st.Good nested := by
  have cleared : ({ st with pending := .empty } : Flow).Laid source range.start range.start :=
    ⟨Pending.Laid.empty (le_refl _), laid.blocks⟩
  have atoms := children.atoms_placed source containing_dir rfl conforms placed st.format
  have landed := cleared.land atoms
  have before := land_iff nested cleared atoms
  refine Iff.trans ?_ before
  have last : ∀ block ∈ Pending.paragraph
      ((children.atoms source containing_dir st.format).foldl Flow.land
        { st with pending := .empty }).pending
      (Flow.tagSource range (children.atoms source containing_dir st.format)
        ((children.atoms source containing_dir st.format).foldl Flow.land
          { st with pending := .empty }).pending), block.Good nested := by
    by_cases images : (children.atoms source containing_dir st.format).any Atom.isImage
    · rw [Flow.tagSource, if_pos images]
      exact flush_good _ landed.pending
    · rw [Flow.tagSource, if_neg images]
      exact paragraph_good rfl
  simpa [Flow.Good, Flow.paragraph, or_imp, forall_and] using fun _ => last

theorem bare_iff (laid : st.Laid source 0 low) {f : Forest}
    (conforms : f.conforms .inline = true) (placed : f.placed source low high = true) :
    (st.bare source containing_dir f).Good nested ↔ st.Good nested :=
  land_iff _ laid (f.atoms_placed source containing_dir rfl conforms placed st.format)

/-- A heading is registered unless images were hoisted out of it and left no text. -/
theorem heading_source {range : Range} {children : Forest} (state : FormatState)
    (conforms : children.conforms .inline = true)
    (placed : children.placed source range.start range.stop = true) :
    let atoms := children.atoms source containing_dir state
    (Flow.tagSource range atoms (atoms.foldl Pending.push .empty)).isSome ↔
      children.hoisted = [] ∨ children.ownText ≠ [] := by
  intro atoms
  have laid := Flow.pushAtoms_laid (Pending.Laid.empty (le_refl range.start))
    (children.atoms_placed source containing_dir rfl conforms placed state)
  have text := Flow.text_pushAtoms source containing_dir children .empty state
  rw [Pending.text_empty, List.nil_append] at text
  have tiles := laid.runs.runs.tiles
  rw [text] at tiles
  have runs : (atoms.foldl Pending.push .empty).runs.runs ≠ [] ↔ children.ownText ≠ [] := by
    rw [← List.length_pos_iff (l := children.ownText)]
    change Tiles 0 (atoms.foldl Pending.push .empty).runs.runs _ at tiles
    cases given : (atoms.foldl Pending.push .empty).runs.runs with
    | nil =>
      rw [given] at tiles
      simp [← (show 0 = children.ownText.length from tiles)]
    | cons run rest =>
      rw [given] at tiles
      have := tiles.2.2.le
      simp only [ne_eq, reduceCtorEq, not_false_eq_true, true_iff]
      exact Nat.lt_of_lt_of_le tiles.2.1 this
  have images : atoms.any Atom.isImage = true ↔ children.hoisted ≠ [] := by
    rw [← imagesOf_atoms source containing_dir children state]
    exact any_isImage_iff atoms
  by_cases some_ : atoms.any Atom.isImage = true
  · have hoisted := images.mp some_
    rw [Flow.tagSource, if_pos some_, runExtent_isSome, runs]
    simp [hoisted]
  · have none_ : children.hoisted = [] := by
      by_contra hoisted
      exact some_ (images.mpr hoisted)
    simp [Flow.tagSource, some_, none_]

theorem heading_iff (level : Nat) {range : Range} {children : Forest}
    (conforms : children.conforms .inline = true)
    (placed : children.placed source range.start range.stop = true) :
    (st.heading source containing_dir level range children).Good nested ↔
      st.Good nested ∧
        (!nested || children.hoisted = [] || children.ownText ≠ [] : Bool) = true := by
  have registered := heading_source containing_dir st.format conforms placed
  simp only [Flow.Good, Flow.heading, List.mem_append, List.mem_cons, List.mem_map, or_imp,
    forall_and, forall_eq]
  refine and_congr Iff.rfl ?_
  have images : ∀ block, (∃ image ∈ Flow.imagesOf (children.atoms source containing_dir st.format),
      image.emitted = block) → block.Good nested := by
    rintro _ ⟨image, -, rfl⟩
    exact ⟨fun _ => rfl, trivial⟩
  rw [and_iff_left images]
  simp only [Emitted.Good, Emitted.Sealed, and_true, Emitted.source?_leaf]
  cases nested <;> simp [registered]

end Flow.Good

theorem Forest.emit_good_iff {source : Text} (containing_dir : Text) (f : Forest)
    {context : Context} (block : context = .flow ∨ context = .items)
    (conforms : f.conforms context = true) {low high : Nat}
    (placed : f.placed source low high = true) {st : Flow} (laid : st.Laid source 0 low)
    (nested : Bool) :
    (f.emit source containing_dir st).Good nested ↔
      st.Good nested ∧ f.headingsShow nested = true := by
  induction f generalizing context low high st nested with
  | nil => simp [emit, headingsShow]
  | leaf l range rest ih =>
    simp only [Forest.conforms, Bool.and_eq_true] at conforms
    simp only [Forest.placed, Bool.and_eq_true, decide_eq_true_eq] at placed
    obtain ⟨⟨start, slice⟩, tail⟩ := placed
    rw [emit, ih block conforms.2 tail (laid.leaf block conforms.1 start slice)]
    refine and_congr_left fun _ => ?_
    obtain rfl | rfl := block
    · have landed := Flow.Good.land_iff nested laid
        (leafAtoms_placed source st.format (.inr rfl) conforms.1 start slice (le_refl _))
      cases l with
      | rule => simp [Flow.leaf, Flow.Good.push_iff, Emitted.Good, Emitted.Sealed]
      | taskListMarker => rfl
      | _ => exact landed
    · simp [Leaf.allowed] at conforms
  | node tag range children rest inner ih =>
    simp only [Forest.placed, Bool.and_eq_true, decide_eq_true_eq] at placed
    obtain ⟨⟨⟨⟨start, ordered⟩, slice⟩, within⟩, tail⟩ := placed
    have entered : st.enter.Laid source 0 range.start := laid.enter.mono start
    have fresh : st.enter.Good true := by simp [Flow.Good, Flow.enter]
    have container (st inner : Flow) (kind : ContainerKind) :
        (st.leave inner kind range).Good nested ↔ st.Good nested ∧ inner.Good true := by
      simp [Flow.Good, Flow.leave, or_imp, forall_and, Emitted.Good, Emitted.Sealed,
        Emitted.sealedAll_iff, and_assoc]
    obtain rfl | rfl := block
    · cases tag with
      | paragraph =>
        simp only [Forest.conforms, Tag.inner, Bool.and_eq_true] at conforms
        rw [emit, ih (.inl rfl) conforms.2 tail (laid.paragraph containing_dir conforms.1 within),
          Flow.Good.paragraph_iff containing_dir laid conforms.1 within]
        simp [headingsShow]
      | heading level =>
        simp only [Forest.conforms, Tag.inner, Bool.and_eq_true] at conforms
        rw [emit, ih (.inl rfl) conforms.2 tail
            (laid.heading containing_dir level conforms.1 within),
          Flow.Good.heading_iff containing_dir level conforms.1 within]
        simp [headingsShow, and_assoc]
      | blockQuote =>
        simp only [Forest.conforms, Tag.inner, Bool.and_eq_true] at conforms
        rw [emit, ih (.inl rfl) conforms.2 tail (laid.leave (children.emit_laid containing_dir
            (.inl rfl) conforms.1 within entered) .blockquote ordered),
          container, inner (.inl rfl) conforms.1 within entered]
        simp [headingsShow, fresh, and_assoc]
      | codeBlock kind =>
        simp only [Forest.conforms, Tag.inner, Bool.and_eq_true] at conforms
        rw [emit, ih (.inl rfl) conforms.2 tail (laid.codeBlock kind start ordered conforms.1
          within), Flow.codeBlock, Flow.Good.push_iff]
        simp [headingsShow, Emitted.Good, Emitted.Sealed]
      | htmlBlock =>
        simp only [Forest.conforms, Tag.inner, Bool.and_eq_true] at conforms
        rw [emit, ih (.inl rfl) conforms.2 tail (laid.mono (by omega))]
        simp [headingsShow]
      | metadataBlock =>
        simp only [Forest.conforms, Tag.inner, Bool.and_eq_true] at conforms
        have next : Flow.Laid source 0 range.stop { st with frontmatter := some range } :=
          ⟨laid.pending.mono (by omega), laid.blocks⟩
        refine (ih (.inl rfl) conforms.2 tail next nested).trans ?_
        simp [headingsShow, Flow.Good]
      | list start_number =>
        simp only [Forest.conforms, Tag.inner, Bool.and_eq_true] at conforms
        have fresh : st.flush.enter.Good true := by simp [Flow.Good, Flow.enter]
        rw [emit, ih (.inl rfl) conforms.2 tail (laid.flush.leave (children.emit_laid
            containing_dir (.inr rfl) conforms.1 within (laid.flush.enter.mono start)) _ ordered),
          container, inner (.inr rfl) conforms.1 within (laid.flush.enter.mono start),
          Flow.Good.flush_iff laid]
        simp [headingsShow, fresh, and_assoc]
      | item => simp [Forest.conforms, Tag.inner] at conforms
      | emphasis | strong | strikethrough | link | image =>
        simp only [Forest.conforms, Tag.inner, Bool.and_eq_true] at conforms
        have alone (tag : Tag) : (node tag range children nil).placed source low range.stop = true :=
          placed_alone start ordered slice within
        refine (ih (.inl rfl) conforms.2 tail (laid.bare containing_dir
          (by simp [Forest.conforms, Tag.inner, conforms.1]) (alone _)) nested).trans ?_
        rw [Flow.Good.bare_iff containing_dir laid
          (by simp [Forest.conforms, Tag.inner, conforms.1]) (alone _)]
        simp [headingsShow]
    · cases tag with
      | item =>
        simp only [Forest.conforms, Tag.inner, Bool.and_eq_true] at conforms
        have inside := children.emit_laid containing_dir (.inl rfl) conforms.1 within entered
        rw [emit, ih (.inr rfl) conforms.2 tail (laid.leave inside.flush _ ordered), container,
          Flow.Good.flush_iff inside, inner (.inl rfl) conforms.1 within entered]
        simp [headingsShow, fresh, and_assoc]
      | _ => simp [Forest.conforms, Tag.inner] at conforms

end Burlmd.Markdown
