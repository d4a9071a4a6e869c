import Mathlib.Data.List.Basic
import Mathlib.Tactic.Common
import Burlmd.Markdown.Refinement

/-!
# Running the builder over blocks

`Flow.into` lays a flow into the container that is open at a `Position`. Running
the events of a forest from there is the same as emitting the forest and laying
the result into the same container.
-/

namespace Burlmd.Markdown

open Utf8

@[simp] theorem nodesOf_append (first second : List Emitted) :
    nodesOf (first ++ second) = nodesOf first ++ nodesOf second := by
  induction first with
  | nil => simp [nodesOf]
  | cons block rest ih => simp [nodesOf, ih]

@[simp] theorem nodesOf_length (blocks : List Emitted) :
    (nodesOf blocks).length = blocks.length := by
  induction blocks with
  | nil => simp [nodesOf]
  | cons block rest ih => simp [nodesOf, ih]

theorem registerAll_append (path : BlockPath) (start : Nat) (first second : List Emitted) :
    registerAll path start (first ++ second) =
      registerAll path start first ++ registerAll path (start + first.length) second := by
  induction first generalizing start with
  | nil => simp [registerAll]
  | cons block rest ih =>
    simp [registerAll, ih, Nat.add_comm, Nat.add_left_comm]

/-- Where in the tree the builder stands: the innermost open frame is a container. -/
structure Position where
  root_nodes : List AstNode
  frames : List Frame
  container : ∀ frame ∈ frames.head?, frame.kind.holdsChildren = true

namespace Position

def path (p : Position) : BlockPath := p.frames.head?.elim [] fun frame => frame.kind.path

def filled (p : Position) : Nat :=
  p.frames.head?.elim p.root_nodes.length fun frame => frame.kind.nodes.length

def root : Position := ⟨[], [], by simp⟩

end Position

def FrameKind.extend (nodes : List AstNode) (checked : Option Bool) : FrameKind → FrameKind
  | blockquote path held => blockquote path (held ++ nodes)
  | list path ordered held => list path ordered (held ++ nodes)
  | listItem path held old => listItem path (held ++ nodes) (checked.or old)
  | kind => kind

namespace Flow

def rootNodes (st : Flow) (p : Position) : List AstNode :=
  match p.frames with
  | [] => p.root_nodes ++ nodesOf st.blocks
  | _ :: _ => p.root_nodes

def frames (st : Flow) (p : Position) : List Frame :=
  match p.frames with
  | [] => []
  | frame :: rest =>
      { frame with kind := frame.kind.extend (nodesOf st.blocks) st.checked } :: rest

def into (st : Flow) (p : Position) (registered : List BlockSpan) : Builder where
  root_nodes := st.rootNodes p
  frames := st.frames p
  inlines := st.pending.inlines
  runs := st.pending.runs
  format_state := st.format
  code_block := none
  link_stack := []
  spans := ⟨registered ++ registerAll p.path p.filled st.blocks, st.frontmatter⟩
  in_metadata := false
  deferred := []

variable (st : Flow) (p : Position) (registered : List BlockSpan)

theorem into_open : (st.into p registered).Open := ⟨rfl, rfl⟩

theorem into_inside (state : FormatState) :
    (st.into p registered).inside [] state = ({ st with format := state }).into p registered :=
  rfl

theorem nextPath_into :
    (st.into p registered).nextPath = p.path ++ [p.filled + st.blocks.length] := by
  obtain ⟨root_nodes, frames, container⟩ := p
  cases frames with
  | nil => simp [Builder.nextPath, Builder.containerIndex, into, rootNodes, Flow.frames,
      Position.path, Position.filled]
  | cons frame rest =>
    obtain ⟨kind, range, split⟩ := frame
    cases kind with
    | heading | paragraph => simp at container
    | _ => simp [Builder.nextPath, Builder.containerIndex, into, Flow.frames, FrameKind.extend,
        Position.path, Position.filled, FrameKind.path, FrameKind.nodes, List.findIdx?_cons]

theorem attach_into (block : Emitted) :
    ({ st.into p registered with
        spans := ⟨(st.into p registered).spans.blocks ++
          block.register (st.into p registered).nextPath, st.frontmatter⟩ } : Builder).attach
        block.node =
      (st.push [block]).into p registered := by
  have entries : registerAll p.path p.filled (st.blocks ++ [block]) =
      registerAll p.path p.filled st.blocks ++
        block.register (p.path ++ [p.filled + st.blocks.length]) := by
    simp [registerAll_append, registerAll]
  rw [nextPath_into]
  obtain ⟨root_nodes, frames, container⟩ := p
  cases frames with
  | nil =>
    simp [Builder.attach, Builder.containerIndex, into, rootNodes, Flow.frames, push, nodesOf,
      entries]
  | cons frame rest =>
    obtain ⟨kind, range, split⟩ := frame
    cases kind with
    | heading | paragraph => simp at container
    | _ =>
      simp [Builder.attach, Builder.containerIndex, into, rootNodes, Flow.frames,
        FrameKind.extend, FrameKind.push, push, nodesOf, entries, List.findIdx?_cons]

theorem pushBlock_into (node : AstNode) (source : Option Range) (runs : List InlineRun) :
    (st.into p registered).pushBlock node source runs =
      (st.push [.leaf node source runs]).into p registered := by
  rw [← attach_into]
  cases source with
  | none => simp [Builder.pushBlock, Emitted.register, Emitted.node]; rfl
  | some range => rfl

theorem flush_into :
    (st.into p registered).flushPendingInlines = st.flush.into p registered := by
  by_cases nothing : st.pending.inlines = []
  · simp [Builder.flushPendingInlines, into, nothing, flush, Pending.flush, Pending.paragraph,
      rootNodes, Flow.frames, Pending.empty]
  · have settled := pushBlock_into { st with pending := .empty } p registered
    simp only [Builder.flushPendingInlines, flush, Pending.flush, Pending.paragraph, nothing,
      if_false]
    rw [if_neg (show (st.into p registered).inlines ≠ [] from nothing)]
    exact settled _ _ _

theorem splitFrame_into : (st.into p registered).splitFrame = (st.into p registered, false) := by
  obtain ⟨root_nodes, frames, container⟩ := p
  cases frames with
  | nil => rfl
  | cons frame rest =>
    obtain ⟨kind, range, split⟩ := frame
    cases kind with
    | heading | paragraph => simp at container
    | _ => rfl

theorem land_into (atom : Atom) :
    (st.into p registered).landAtom atom = (st.land atom).into p registered := by
  cases atom with
  | element => rfl
  | image image =>
    simp only [Builder.landAtom, Builder.landImage, splitFrame_into, Bool.false_eq_true, if_false,
      flush_into, pushBlock_into]
    rfl

theorem landAtoms_into (atoms : List Atom) :
    atoms.foldl Builder.landAtom (st.into p registered) =
      (atoms.foldl land st).into p registered := by
  induction atoms generalizing st with
  | nil => rfl
  | cons atom rest ih => rw [List.foldl_cons, List.foldl_cons, land_into, ih]

end Flow

def Image.deferred (image : Image) : DeferredBlock :=
  ⟨.image image.alt_text image.url, image.source,
    (RunAccum.empty.push image.alt_text.length image.source false).runs⟩

namespace Builder

/-- The builder with one more frame open. -/
def under (b : Builder) (frame : Frame) : Builder := { b with frames := frame :: b.frames }

variable (b : Builder) {frame : Frame}

theorem attach_under (inner : frame.kind.holdsChildren = false) (node : AstNode) :
    (b.under frame).attach node = (b.attach node).under frame := by
  simp only [attach, containerIndex, under, List.findIdx?_cons, inner]
  cases b.frames.findIdx? fun frame => frame.kind.holdsChildren <;> simp

theorem nextPath_under (inner : frame.kind.holdsChildren = false) :
    (b.under frame).nextPath = b.nextPath := by
  simp only [nextPath, containerIndex, under, List.findIdx?_cons, inner]
  cases b.frames.findIdx? fun frame => frame.kind.holdsChildren <;> simp

theorem pushBlock_under (inner : frame.kind.holdsChildren = false) (node : AstNode)
    (source : Option Range) (runs : List InlineRun) :
    (b.under frame).pushBlock node source runs = (b.pushBlock node source runs).under frame := by
  cases source with
  | none => exact attach_under b inner node
  | some range =>
    simp only [pushBlock, nextPath_under b inner]
    exact attach_under { b with spans := b.spans.pushBlock b.nextPath range runs } inner node

/-- The builder with other blocks held back. -/
def holding (b : Builder) (deferred : List DeferredBlock) : Builder :=
  { b with deferred := deferred }

theorem attach_holding (deferred : List DeferredBlock) (node : AstNode) :
    (b.holding deferred).attach node = (b.attach node).holding deferred := by
  simp only [attach, containerIndex, holding]
  split <;> rfl

theorem pushBlock_holding (deferred : List DeferredBlock) (node : AstNode)
    (source : Option Range) (runs : List InlineRun) :
    (b.holding deferred).pushBlock node source runs =
      (b.pushBlock node source runs).holding deferred := by
  cases source with
  | none => exact attach_holding b deferred node
  | some range =>
    exact attach_holding { b with spans := b.spans.pushBlock b.nextPath range runs } deferred node

theorem flushPendingInlines_under (inner : frame.kind.holdsChildren = false) :
    (b.under frame).flushPendingInlines = b.flushPendingInlines.under frame := by
  by_cases nothing : b.inlines = []
  · simp [flushPendingInlines, under, nothing]
  · simp only [flushPendingInlines, under, nothing, if_false]
    exact pushBlock_under { b with inlines := [], runs := .empty } inner _ _ _

end Builder

namespace Flow

variable (st : Flow) (p : Position) (registered : List BlockSpan)

theorem land_under (range : Range) (split : Bool) (atom : Atom) :
    ((st.into p registered).under ⟨.paragraph, range, split⟩).landAtom atom =
      ((st.land atom).into p registered).under ⟨.paragraph, range, split || atom.isImage⟩ := by
  cases atom with
  | element => simp [Builder.landAtom, Builder.under, land, into, Atom.isImage, Pending.push,
      rootNodes, Flow.frames]
  | image image =>
    have marked : ((st.into p registered).under ⟨.paragraph, range, split⟩).splitFrame =
        ((st.into p registered).under ⟨.paragraph, range, true⟩, false) := rfl
    simp only [Builder.landAtom, Builder.landImage, marked, Bool.false_eq_true, if_false]
    rw [Builder.flushPendingInlines_under _ rfl, Builder.pushBlock_under _ rfl, flush_into,
      pushBlock_into]
    simp [land, Image.emitted, Atom.isImage]

theorem landAtoms_under (range : Range) (split : Bool) (atoms : List Atom) :
    atoms.foldl Builder.landAtom ((st.into p registered).under ⟨.paragraph, range, split⟩) =
      ((atoms.foldl land st).into p registered).under
        ⟨.paragraph, range, split || atoms.any Atom.isImage⟩ := by
  induction atoms generalizing st split with
  | nil => simp
  | cons atom rest ih =>
    rw [List.foldl_cons, List.foldl_cons, land_under, ih, List.any_cons, Bool.or_assoc]

/-- A flow in an open heading, with the images held back so far. -/
def inHeading (level : Nat) (range : Range) (split : Bool) (images : List Image) : Builder :=
  ((st.into p registered).under ⟨.heading level, range, split⟩).holding
    (images.map Image.deferred)

theorem landAtoms_inHeading (level : Nat) (range : Range) (split : Bool) (images : List Image)
    (atoms : List Atom) :
    atoms.foldl Builder.landAtom (st.inHeading p registered level range split images) =
      ({ st with pending := atoms.foldl Pending.push st.pending }).inHeading p registered level
        range (split || atoms.any Atom.isImage) (images ++ imagesOf atoms) := by
  induction atoms generalizing st split images with
  | nil => simp [imagesOf]
  | cons atom rest ih =>
    rw [List.foldl_cons, List.foldl_cons]
    cases atom with
    | element element chars source interpolable =>
      have landed : (st.inHeading p registered level range split images).landAtom
            (.element element chars source interpolable) =
          ({ st with pending := st.pending.push (.element element chars source interpolable) }
            ).inHeading p registered level range split images := rfl
      rw [landed, ih]
      simp [imagesOf, Atom.isImage]
    | image image =>
      have landed : (st.inHeading p registered level range split images).landAtom
            (.image image) =
          st.inHeading p registered level range true (images ++ [image]) := by
        simp [Builder.landAtom, Builder.landImage, inHeading, Builder.splitFrame, Builder.under,
          Builder.holding, Image.deferred]
      rw [landed, ih]
      simp [imagesOf, Atom.isImage, Pending.push]

theorem drainDeferred_into (images : List Image) :
    ((st.into p registered).holding (images.map Image.deferred)).drainDeferred =
      (st.push (images.map Image.emitted)).into p registered := by
  have settled (st : Flow) (images : List Image) :
      (images.map Image.deferred).foldl
          (fun b deferred => b.pushBlock deferred.node (some deferred.source) deferred.runs)
          (st.into p registered) =
        (st.push (images.map Image.emitted)).into p registered := by
    induction images generalizing st with
    | nil => simp [push]
    | cons image rest ih =>
      rw [List.map_cons, List.foldl_cons, pushBlock_into, ih]
      simp [push, Image.emitted, Image.deferred]
  exact settled st images

variable (source containing_dir : Text)

theorem endParagraph_under (range : Range) (split : Bool) :
    ((st.into p registered).under ⟨.paragraph, range, split⟩).endParagraph =
      ({ st with
        blocks := st.blocks ++ st.pending.paragraph
          (if split then runExtent st.pending.runs.runs else some range)
        pending := .empty }).into p registered := by
  have shape : ((st.into p registered).under ⟨.paragraph, range, split⟩).endParagraph =
      if st.pending.inlines = [] then
        ({ st with pending := ⟨st.pending.inlines, .empty⟩ } : Flow).into p registered
      else
        (({ st with pending := .empty } : Flow).into p registered).pushBlock
          (.paragraph (processInlines st.pending.inlines))
          (if split then runExtent st.pending.runs.runs else some range)
          st.pending.runs.runs := rfl
  rw [shape]
  split
  · rename_i nothing
    simp [nothing, Pending.paragraph, Pending.empty]
  · rename_i something
    rw [pushBlock_into]
    simp [push, Pending.paragraph, something]

theorem run_paragraph (range : Range) (children : Forest)
    (conforms : children.conforms .paragraph = true) :
    (st.into p registered).run source containing_dir
        ((.start .paragraph, range) :: (children.events ++ [(.stop .paragraph, range)])) =
      (st.paragraph source containing_dir range children).into p registered := by
  let cleared : Flow := { st with pending := .empty }
  let opened := (cleared.into p registered).under ⟨.paragraph, range, false⟩
  have started : (st.into p registered).handle source containing_dir (.start .paragraph, range) =
      opened.inside [] st.format := rfl
  have ended (b : Builder) :
      b.handle source containing_dir (.stop .paragraph, range) = b.endParagraph := rfl
  rw [Builder.run_cons, started, Builder.run_append,
    Builder.run_inline source containing_dir children conforms (b := opened) ⟨rfl, rfl⟩
      (.inr ⟨rfl, _, _, rfl, rfl⟩),
    landAtoms_under, Builder.run_cons, Builder.run_nil, ended]
  let landed := (children.atoms source containing_dir st.format).foldl land cleared
  exact endParagraph_under { landed with format := children.format st.format } p registered range _

theorem endHeading_into (level : Nat) (range : Range) (split : Bool) (images : List Image) :
    (st.inHeading p registered level range split images).endHeading =
      ({ st with
        blocks := st.blocks ++
          Emitted.leaf (.heading level (processInlines st.pending.inlines))
            (if split then runExtent st.pending.runs.runs else some range)
            st.pending.runs.runs :: images.map Image.emitted
        pending := .empty }).into p registered := by
  have shape : (st.inHeading p registered level range split images).endHeading =
      (((({ st with pending := .empty } : Flow).into p registered).holding
          (images.map Image.deferred)).pushBlock
        (.heading level (processInlines st.pending.inlines))
        (if split then runExtent st.pending.runs.runs else some range)
        st.pending.runs.runs).drainDeferred := rfl
  rw [shape, Builder.pushBlock_holding, pushBlock_into, drainDeferred_into]
  simp [push]

theorem run_heading (level : Nat) (range : Range) (children : Forest)
    (conforms : children.conforms .inline = true) :
    (st.into p registered).run source containing_dir
        ((.start (.heading level), range) :: (children.events ++ [(.stop .heading, range)])) =
      (st.heading source containing_dir level range children).into p registered := by
  let cleared : Flow := { st with pending := .empty }
  let opened := cleared.inHeading p registered level range false []
  have started :
      (st.into p registered).handle source containing_dir (.start (.heading level), range) =
        opened.inside [] st.format := rfl
  have ended (b : Builder) :
      b.handle source containing_dir (.stop .heading, range) = b.endHeading := rfl
  rw [Builder.run_cons, started, Builder.run_append,
    Builder.run_inline source containing_dir children conforms (b := opened) ⟨rfl, rfl⟩
      (.inl rfl),
    landAtoms_inHeading, Builder.run_cons, Builder.run_nil, ended]
  let pending := (children.atoms source containing_dir st.format).foldl Pending.push .empty
  refine (endHeading_into ⟨st.blocks, st.checked, pending, children.format st.format,
    st.frontmatter⟩ p registered level range _ _).trans ?_
  simp [heading, tagSource, pending]

theorem run_codeLines (b : Builder) (idle : b.in_metadata = false) (accum : CodeBlockAccum)
    (children : Forest) (conforms : children.conforms .verbatim = true) :
    ({ b with code_block := some accum } : Builder).run source containing_dir children.events =
      { b with code_block := some { accum with
          code := accum.code ++ (codeLines source accum.runs children).1
          runs := (codeLines source accum.runs children).2 } } := by
  induction children generalizing accum with
  | nil => simp [Forest.events, codeLines]
  | node tag => simp [Forest.conforms, Tag.inner] at conforms
  | leaf l range rest ih =>
    simp only [Forest.conforms, Bool.and_eq_true] at conforms
    cases l with
    | text content =>
      by_cases blank : content = []
      · have unmoved : ({ b with code_block := some accum } : Builder).handle source
            containing_dir (.leaf (.text content), range) =
              { b with code_block := some accum } := by
          simp [Builder.handle, Builder.text, blank]
        rw [Forest.events, Builder.run_cons, unmoved, ih _ conforms.2]
        simp [codeLines, blank, RunAccum.push]
      · have appended : ({ b with code_block := some accum } : Builder).handle source
            containing_dir (.leaf (.text content), range) =
              { b with code_block := some { accum with
                  code := accum.code ++ content
                  runs := accum.runs.push content.length range
                    (slice? source range = some content) } } := by
          simp [Builder.handle, Builder.text, blank, idle]
        rw [Forest.events, Builder.run_cons, appended, ih _ conforms.2]
        simp [codeLines]
    | _ => simp [Leaf.allowed] at conforms

theorem run_codeBlock (kind : CodeBlockKind) (range : Range) (children : Forest)
    (conforms : children.conforms .verbatim = true) :
    (st.into p registered).run source containing_dir
        ((.start (.codeBlock kind), range) :: (children.events ++ [(.stop .codeBlock, range)])) =
      (st.codeBlock source kind range children).into p registered := by
  let accum : CodeBlockAccum := ⟨kind.language, [], range, .empty⟩
  have started :
      (st.into p registered).handle source containing_dir (.start (.codeBlock kind), range) =
        { st.into p registered with code_block := some accum } := rfl
  rw [Builder.run_cons, started, Builder.run_append,
    run_codeLines source containing_dir _ rfl accum children conforms]
  let lines := codeLines source .empty children
  exact pushBlock_into st p registered (.codeBlock kind.language lines.1) (some range) lines.2.runs

theorem run_metadataBlock (range : Range) (children : Forest)
    (conforms : children.conforms .verbatim = true) :
    (st.into p registered).run source containing_dir
        ((.start .metadataBlock, range) ::
          (children.events ++ [(.stop .metadataBlock, range)])) =
      ({ st with frontmatter := some range }).into p registered := by
  have skipped (children : Forest) (conforms : children.conforms .verbatim = true) (b : Builder)
      (metadata : b.in_metadata = true) : b.run source containing_dir children.events = b := by
    induction children with
    | nil => rfl
    | node tag => simp [Forest.conforms, Tag.inner] at conforms
    | leaf l range rest ih =>
      simp only [Forest.conforms, Bool.and_eq_true] at conforms
      cases l with
      | text content =>
        simpa [Forest.events, Builder.handle, Builder.text, metadata] using ih conforms.2
      | _ => simp [Leaf.allowed] at conforms
  rw [Builder.run_cons, Builder.run_append, skipped children conforms _ rfl]
  rfl

theorem run_htmlBlock (range : Range) (children : Forest)
    (conforms : children.conforms .markup = true) :
    (st.into p registered).run source containing_dir
        ((.start .htmlBlock, range) :: (children.events ++ [(.stop .htmlBlock, range)])) =
      st.into p registered := by
  have skipped (children : Forest) (conforms : children.conforms .markup = true) (b : Builder) :
      b.run source containing_dir children.events = b := by
    induction children with
    | nil => rfl
    | node tag => simp [Forest.conforms, Tag.inner] at conforms
    | leaf l range rest ih =>
      simp only [Forest.conforms, Bool.and_eq_true] at conforms
      cases l with
      | html content => simpa [Forest.events, Builder.handle] using ih conforms.2
      | _ => simp [Leaf.allowed] at conforms
  rw [Builder.run_cons, Builder.run_append, skipped children conforms]
  rfl

/-- The position inside a container that opens where `st` stands in `p`. -/
def within (kind : BlockPath → FrameKind) (holds : ∀ path, (kind path).holdsChildren = true)
    (range : Range) : Position where
  root_nodes := st.rootNodes p
  frames := ⟨kind (p.path ++ [p.filled + st.blocks.length]), range, false⟩ :: st.frames p
  container := by simpa using holds _

/-- The entries registered when a container opens where `st` stands in `p`. -/
def entries : List BlockSpan := registered ++ registerAll p.path p.filled st.blocks

theorem leave_into (inner : Flow) (kind : ContainerKind) (range : Range) :
    ({ inner.into p registered with
        root_nodes := st.rootNodes p
        frames := st.frames p
        spans := ⟨st.entries p registered ++
          registerAll (p.path ++ [p.filled + st.blocks.length]) 0 inner.blocks,
          inner.frontmatter⟩ } : Builder).pushContainer
        (kind.node (nodesOf inner.blocks)) (p.path ++ [p.filled + st.blocks.length]) range =
      (st.leave inner kind range).into p registered := by
  have attached := attach_into
    { inner with blocks := st.blocks, checked := st.checked } p registered
    (.container kind range inner.blocks)
  rw [nextPath_into] at attached
  refine Eq.trans ?_ attached
  simp only [Builder.pushContainer, SpanMapBuilder.pushBlock, Emitted.register, entries,
    SpanMapBuilder.renderedEnd, Emitted.node]
  simp [into]
  rfl

theorem enter_into (kind : BlockPath → FrameKind)
    (holds : ∀ path, (kind path).holdsChildren = true)
    (fresh : ∀ path, (kind path).extend [] none = kind path) (range : Range) :
    (st.into p registered).openFrame (kind (st.into p registered).nextPath) range =
      st.enter.into (st.within p kind holds range) (st.entries p registered) := by
  rw [nextPath_into]
  simp [Builder.openFrame, into, enter, within, rootNodes, Flow.frames, entries, fresh,
    registerAll, nodesOf]

variable {children : Forest}
  (inside : ∀ (st : Flow) (p : Position) (registered : List BlockSpan),
    (st.into p registered).run source containing_dir children.events =
      (children.emit source containing_dir st).into p registered)

include inside

theorem run_blockQuote (range : Range) :
    (st.into p registered).run source containing_dir
        ((.start .blockQuote, range) :: (children.events ++ [(.stop .blockQuote, range)])) =
      (st.leave (children.emit source containing_dir st.enter) .blockquote range).into p
        registered := by
  have started : (st.into p registered).handle source containing_dir (.start .blockQuote, range) =
      st.enter.into (st.within p (.blockquote · []) (fun _ => rfl) range)
        (st.entries p registered) :=
    enter_into st p registered (.blockquote · []) _ (fun _ => rfl) range
  rw [Builder.run_cons, started, Builder.run_append, inside]
  exact leave_into st p registered _ .blockquote range

theorem run_list (start_number : Option Nat) (range : Range) :
    (st.into p registered).run source containing_dir
        ((.start (.list start_number), range) ::
          (children.events ++ [(.stop .list, range)])) =
      (st.flush.leave (children.emit source containing_dir st.flush.enter)
        (.list start_number.isSome) range).into p registered := by
  have started : (st.into p registered).handle source containing_dir
        (.start (.list start_number), range) =
      st.flush.enter.into
        (st.flush.within p (.list · start_number.isSome []) (fun _ => rfl) range)
        (st.flush.entries p registered) := by
    simp only [Builder.handle, Builder.start, flush_into]
    exact enter_into st.flush p registered (.list · start_number.isSome []) _ (fun _ => rfl) range
  rw [Builder.run_cons, started, Builder.run_append, inside]
  exact leave_into st.flush p registered _ (.list start_number.isSome) range

theorem run_item (range : Range) :
    (st.into p registered).run source containing_dir
        ((.start .item, range) :: (children.events ++ [(.stop .item, range)])) =
      (st.leave (children.emit source containing_dir st.enter).flush
        (.listItem (children.emit source containing_dir st.enter).flush.checked) range).into p
        registered := by
  have started : (st.into p registered).handle source containing_dir (.start .item, range) =
      st.enter.into (st.within p (.listItem · [] none) (fun _ => rfl) range)
        (st.entries p registered) :=
    enter_into st p registered (.listItem · [] none) _ (fun _ => rfl) range
  have ended (b : Builder) :
      b.handle source containing_dir (.stop .item, range) = b.endItem := rfl
  rw [Builder.run_cons, started, Builder.run_append, inside, Builder.run_cons, Builder.run_nil,
    ended, Builder.endItem, flush_into]
  have closed := leave_into st p registered (children.emit source containing_dir st.enter).flush
    (.listItem (children.emit source containing_dir st.enter).flush.checked) range
  simp only [ContainerKind.node] at closed
  rw [← closed]
  simp [into, Flow.frames, within, FrameKind.extend, rootNodes, Position.path, Position.filled,
    FrameKind.path, FrameKind.nodes, entries, Option.or_none]

omit inside in
theorem handle_leaf_into (l : Leaf) (range : Range) :
    (st.into p registered).handle source containing_dir (.leaf l, range) =
      (st.leaf source l range).into p registered := by
  by_cases block : l.isBlock = true
  · cases l with
    | rule => exact pushBlock_into st p registered .thematicBreak (some range) []
    | taskListMarker checked =>
      obtain ⟨root_nodes, frames, container⟩ := p
      cases frames with
      | nil => rfl
      | cons frame rest =>
        obtain ⟨kind, span, split⟩ := frame
        cases kind with
        | heading | paragraph => simp at container
        | blockquote | list => rfl
        | listItem => simp [Builder.handle, Builder.setChecked, into, Flow.frames,
            FrameKind.extend, leaf, rootNodes]
    | _ => simp [Leaf.isBlock] at block
  · have landed := Builder.handle_leaf_atoms source containing_dir
      (into_open st p registered) st.format range (by simpa using block)
    rw [into_inside, landAtoms_into, into_inside] at landed
    have kept (atoms : List Atom) (st : Flow) :
        { atoms.foldl land st with format := st.format } = atoms.foldl land st := by
      induction atoms generalizing st with
      | nil => rfl
      | cons atom rest ih => cases atom <;> exact ih _
    rw [kept] at landed
    cases l <;> first | exact landed | simp [Leaf.isBlock] at block

omit inside in
theorem run_bare (forest : Forest) (conforms : forest.conforms .inline = true) :
    (st.into p registered).run source containing_dir forest.events =
      (st.bare source containing_dir forest).into p registered := by
  have landed := Builder.run_inline source containing_dir forest conforms
    (into_open st p registered) (.inl rfl) st.format
  rwa [into_inside, landAtoms_into, into_inside] at landed

omit inside in
theorem run_bare_node (tag : Tag) (range : Range) (children : Forest)
    (conforms : (Forest.node tag range children .nil).conforms .inline = true) :
    (st.into p registered).run source containing_dir
        ((.start tag, range) :: (children.events ++ [(.stop tag.toEnd, range)])) =
      (st.bare source containing_dir (.node tag range children .nil)).into p registered := by
  simpa [Forest.events] using run_bare st p registered source containing_dir _ conforms

end Flow

/-- The builder computes the emission. -/
theorem run_emit (source containing_dir : Text) (forest : Forest) {context : Context}
    (block : context = .flow ∨ context = .items) (conforms : forest.conforms context = true)
    (st : Flow) (p : Position) (registered : List BlockSpan) :
    (st.into p registered).run source containing_dir forest.events =
      (forest.emit source containing_dir st).into p registered := by
  induction forest generalizing context st p registered with
  | nil => rfl
  | leaf l range rest ih =>
    simp only [Forest.conforms, Bool.and_eq_true] at conforms
    rw [Forest.events, Builder.run_cons, Flow.handle_leaf_into, ih block conforms.2]
    rfl
  | node tag range children rest inner ih =>
    have step (st' : Flow) (after : rest.conforms context = true)
        (ran : (st.into p registered).run source containing_dir
            ((.start tag, range) :: (children.events ++ [(.stop tag.toEnd, range)])) =
          st'.into p registered) :
        (st.into p registered).run source containing_dir
            (Forest.node tag range children rest).events =
          (rest.emit source containing_dir st').into p registered := by
      rw [← ih block after, ← ran, ← Builder.run_append]
      simp [Forest.events]
    obtain rfl | rfl := block
    · cases tag with
      | paragraph =>
        simp only [Forest.conforms, Tag.inner, Bool.and_eq_true] at conforms
        exact step _ conforms.2
          (st.run_paragraph p registered source containing_dir range children conforms.1)
      | heading level =>
        simp only [Forest.conforms, Tag.inner, Bool.and_eq_true] at conforms
        exact step _ conforms.2
          (st.run_heading p registered source containing_dir level range children conforms.1)
      | blockQuote =>
        simp only [Forest.conforms, Tag.inner, Bool.and_eq_true] at conforms
        exact step _ conforms.2 (st.run_blockQuote p registered source containing_dir
          (fun st p registered => inner (.inl rfl) conforms.1 st p registered) range)
      | codeBlock kind =>
        simp only [Forest.conforms, Tag.inner, Bool.and_eq_true] at conforms
        exact step _ conforms.2
          (st.run_codeBlock p registered source containing_dir kind range children conforms.1)
      | htmlBlock =>
        simp only [Forest.conforms, Tag.inner, Bool.and_eq_true] at conforms
        exact step _ conforms.2
          (st.run_htmlBlock p registered source containing_dir range children conforms.1)
      | list start_number =>
        simp only [Forest.conforms, Tag.inner, Bool.and_eq_true] at conforms
        exact step _ conforms.2 (st.run_list p registered source containing_dir
          (fun st p registered => inner (.inr rfl) conforms.1 st p registered) start_number range)
      | item => simp [Forest.conforms, Tag.inner] at conforms
      | metadataBlock =>
        simp only [Forest.conforms, Tag.inner, Bool.and_eq_true] at conforms
        exact step _ conforms.2
          (st.run_metadataBlock p registered source containing_dir range children conforms.1)
      | emphasis | strong | strikethrough | link | image =>
        simp only [Forest.conforms, Tag.inner, Bool.and_eq_true] at conforms
        exact step _ conforms.2 (st.run_bare_node p registered source containing_dir _ range
          children (by simp [Forest.conforms, Tag.inner, conforms.1]))
    · cases tag with
      | item =>
        simp only [Forest.conforms, Tag.inner, Bool.and_eq_true] at conforms
        exact step _ conforms.2 (st.run_item p registered source containing_dir
          (fun st p registered => inner (.inl rfl) conforms.1 st p registered) range)
      | _ => simp [Forest.conforms, Tag.inner] at conforms

/-- The blocks of a whole document. -/
def EventStream.emitted {source : Text} (stream : EventStream source) (containing_dir : Text) :
    Flow :=
  stream.forest.emit source containing_dir .initial

theorem parseNote_eq {source : Text} (stream : EventStream source) (containing_dir : Text) :
    parseNote source containing_dir stream.events =
      ⟨nodesOf (stream.emitted containing_dir).blocks,
        SpanMapBuilder.finish ⟨registerAll [] 0 (stream.emitted containing_dir).blocks,
          (stream.emitted containing_dir).frontmatter⟩⟩ := by
  have ran := run_emit source containing_dir stream.forest (.inl rfl) stream.conforms
    .initial .root []
  have started : Flow.initial.into .root [] = Builder.new := rfl
  rw [started] at ran
  simp only [parseNote, EventStream.events, ran]
  rfl

end Burlmd.Markdown
