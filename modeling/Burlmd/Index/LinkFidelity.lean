import Mathlib.Data.List.Basic
import Mathlib.Tactic.Common
import Burlmd.Index.Derive
import Burlmd.Markdown.RenderedText
import Burlmd.Workspace.LinkScan

/-!
# Which links reach the index

The index records the links of the tree, and the tree drops a link that shows no text
of its own, that stands inside an image, or whose bare text never reaches a Block. A
rename that opens the Notes the index names therefore misses such a link unless another
link of the same Note to the same target is kept.
-/

namespace Burlmd.Index

open Utf8 (Text Range)
open Okf (ConceptId classify LinkTarget)
open Markdown

/-- The targets of the links in an inline element. -/
def elementTargets (element : InlineElement) : List ConceptId :=
  (inlineLinks element).map LinkEdge.target_id

/-- The targets of the links in inline content. -/
def inlineTargets (content : List InlineElement) : List ConceptId :=
  (collectInlineLinks content).map LinkEdge.target_id

/-- The targets of the links in a tree. -/
def treeTargets (nodes : List AstNode) : List ConceptId :=
  (collectLinks nodes).map LinkEdge.target_id

@[simp] theorem inlineTargets_nil : inlineTargets [] = [] := by
  simp [inlineTargets, collectInlineLinks]

@[simp] theorem inlineTargets_append (first second : List InlineElement) :
    inlineTargets (first ++ second) = inlineTargets first ++ inlineTargets second := by
  simp [inlineTargets]

@[simp] theorem inlineTargets_cons (element : InlineElement) (rest : List InlineElement) :
    inlineTargets (element :: rest) = elementTargets element ++ inlineTargets rest := by
  simp [inlineTargets, elementTargets, collectInlineLinks]

@[simp] theorem elementTargets_text (run : TextRun) : elementTargets (.text run) = [] := by
  simp [elementTargets, inlineLinks]

@[simp] theorem elementTargets_link (target_id : ConceptId) (exists_ : Bool)
    (content : List InlineElement) :
    elementTargets (.link target_id exists_ content) = target_id :: inlineTargets content := by
  simp [elementTargets, inlineLinks, inlineTargets]

@[simp] theorem elementTargets_externalLink (url : Text) (content : List InlineElement) :
    elementTargets (.externalLink url content) = inlineTargets content := by
  simp [elementTargets, inlineLinks, inlineTargets]

theorem inlineTargets_merge (inlines : List InlineElement) :
    inlineTargets (mergeAdjacentTextRuns inlines) = inlineTargets inlines := by
  have into (merged : List InlineElement) (element : InlineElement) :
      inlineTargets (mergeInto merged element) = inlineTargets merged ++ elementTargets element := by
    rcases List.eq_nil_or_concat merged with rfl | ⟨front, last, rfl⟩
    · cases element <;> simp [mergeInto]
    · cases element with
      | text run =>
        cases last with
        | text previous => by_cases same : previous.sameFormat run <;> simp [mergeInto, same]
        | link | externalLink => simp [mergeInto]
      | link | externalLink => simp [mergeInto]
  have each (merged : List InlineElement) :
      inlineTargets (inlines.foldl mergeInto merged) =
        inlineTargets merged ++ inlineTargets inlines := by
    induction inlines generalizing merged with
    | nil => simp
    | cons element rest ih => simp [ih, into]
  simpa [mergeAdjacentTextRuns] using each []

mutual

theorem elementTargets_processed : ∀ element : InlineElement,
    elementTargets element.processed = elementTargets element
  | .text run => by rw [InlineElement.processed]
  | .link target exists_ content => by
    rw [InlineElement.processed, elementTargets_link, elementTargets_link, inlineTargets_merge,
      inlineTargets_processedEach content]
  | .externalLink url content => by
    rw [InlineElement.processed, elementTargets_externalLink, elementTargets_externalLink,
      inlineTargets_merge, inlineTargets_processedEach content]

theorem inlineTargets_processedEach : ∀ content : List InlineElement,
    inlineTargets (processedEach content) = inlineTargets content
  | [] => by rw [processedEach]
  | element :: rest => by
    rw [processedEach, inlineTargets_cons, elementTargets_processed element,
      inlineTargets_processedEach rest, ← inlineTargets_cons]

end

@[simp] theorem inlineTargets_processInlines (content : List InlineElement) :
    inlineTargets (processInlines content) = inlineTargets content := by
  rw [processInlines, inlineTargets_merge, inlineTargets_processedEach]

/-! ## Inline content -/

/-- The targets of the links that inline content keeps. -/
@[grind =] def keptInline (containing_dir : Text) : Forest → List ConceptId
  | .nil => []
  | .leaf _ _ rest => keptInline containing_dir rest
  | .node (.link dest_url) _ children rest =>
      (if children.ownText = [] then []
        else (classify dest_url containing_dir).internal?.toList ++
          keptInline containing_dir children) ++ keptInline containing_dir rest
  | .node (.image _) _ _ rest => keptInline containing_dir rest
  | .node _ _ children rest => keptInline containing_dir children ++ keptInline containing_dir rest

@[simp] theorem elementTargets_linkElement (target : LinkTarget) (content : List InlineElement) :
    elementTargets (Builder.linkElement (.link target) content) =
      target.internal?.toList ++ inlineTargets content := by
  cases target <;> simp [Builder.linkElement]

theorem inlineTargets_elements (state : FormatState) (l : Leaf) :
    inlineTargets (l.elements state) = [] := by
  cases shown : l.shown? <;> simp [Leaf.elements, shown]

theorem inlineTargets_content (containing_dir : Text) (f : Forest) (state : FormatState) :
    inlineTargets (f.content containing_dir state) = keptInline containing_dir f := by
  induction f generalizing state with
  | nil => simp [Forest.content, keptInline]
  | leaf l range rest ih => simp [Forest.content, keptInline, ih, inlineTargets_elements]
  | node tag range children rest inner ih =>
    cases tag with
    | link url =>
      by_cases silent : children.ownText = []
      · simp [Forest.content, keptInline, ih, silent]
      · simp [Forest.content, keptInline, ih, silent, inner]
    | image url => simp [Forest.content, keptInline, ih]
    | _ => simp [Forest.content, keptInline, ih, inner]

/-- The targets of the links in an atom. -/
def atomTargets : Atom → List ConceptId
  | .element element _ _ _ => elementTargets element
  | .image _ => []

theorem atomTargets_leafAtoms (source : Text) (state : FormatState) (l : Leaf) (range : Range) :
    (Forest.leafAtoms source state l range).flatMap atomTargets = [] := by
  cases shown : l.shown? <;> simp [Forest.leafAtoms, shown, atomTargets]

theorem atomTargets_images (images : List Image) :
    (images.map Atom.image).flatMap atomTargets = [] := by
  simp [List.flatMap_map, atomTargets]

theorem atomTargets_linkAtoms (containing_dir : Text) (state : FormatState) (dest_url : Text)
    (range : Range) (children : Forest) :
    (children.linkAtoms containing_dir state dest_url range).flatMap atomTargets =
      keptInline containing_dir (.node (.link dest_url) range children .nil) := by
  by_cases silent : children.ownText = []
  · simp [Forest.linkAtoms, keptInline, silent]
  · simp [Forest.linkAtoms, keptInline, silent, atomTargets, inlineTargets_content]

theorem atomTargets_atoms (source containing_dir : Text) (f : Forest) (state : FormatState) :
    (f.atoms source containing_dir state).flatMap atomTargets = keptInline containing_dir f := by
  induction f generalizing state with
  | nil => simp [Forest.atoms, keptInline]
  | leaf l range rest ih => simp [Forest.atoms, keptInline, ih, atomTargets_leafAtoms]
  | node tag range children rest inner ih =>
    cases tag with
    | link url =>
      simp [Forest.atoms, keptInline, ih, atomTargets_images, atomTargets_linkAtoms]
    | image url =>
      simp only [Forest.atoms, List.flatMap_append, atomTargets_images, keptInline, ih,
        List.nil_append]
    | _ => simp [Forest.atoms, keptInline, ih, inner]

/-! ## Blocks -/

def blockTargets (blocks : List Emitted) : List ConceptId := treeTargets (nodesOf blocks)

@[simp] theorem treeTargets_nodesOf (blocks : List Emitted) :
    treeTargets (nodesOf blocks) = blockTargets blocks := rfl

def pendingTargets (pending : Pending) : List ConceptId := inlineTargets pending.inlines

@[simp] theorem blockTargets_nil : blockTargets [] = [] := by
  simp [blockTargets, treeTargets, nodesOf, collectLinks]

@[simp] theorem blockTargets_append (first second : List Emitted) :
    blockTargets (first ++ second) = blockTargets first ++ blockTargets second := by
  simp [blockTargets, treeTargets]

@[simp] theorem pendingTargets_empty : pendingTargets .empty = [] := by
  simp [pendingTargets, Pending.empty]

theorem blockTargets_paragraph (pending : Pending) (range : Option Range) :
    blockTargets (pending.paragraph range) = pendingTargets pending := by
  by_cases nothing : pending.inlines = []
  · simp [Pending.paragraph, nothing, pendingTargets]
  · have processed := inlineTargets_processInlines pending.inlines
    simp only [inlineTargets] at processed
    simp [Pending.paragraph, nothing, blockTargets, treeTargets, nodesOf, Emitted.node,
      collectLinks, nodeLinks, processed, pendingTargets, inlineTargets]

theorem blockTargets_image (image : Image) : blockTargets [image.emitted] = [] := by
  simp [blockTargets, treeTargets, nodesOf, Emitted.node, Image.emitted, collectLinks, nodeLinks]

theorem blockTargets_images (images : List Image) :
    blockTargets (images.map Image.emitted) = [] := by
  induction images with
  | nil => simp
  | cons image rest ih =>
    have split_ : image.emitted :: rest.map Image.emitted = [image.emitted] ++ rest.map Image.emitted :=
      rfl
    rw [List.map_cons, split_, blockTargets_append, blockTargets_image, ih, List.append_nil]

theorem blockTargets_container (kind : ContainerKind) (range : Range) (children : List Emitted) :
    blockTargets [.container kind range children] = blockTargets children := by
  cases kind <;>
    simp [blockTargets, treeTargets, nodesOf, Emitted.node, ContainerKind.node, collectLinks,
      nodeLinks]

theorem pendingTargets_push (pending : Pending) (atom : Atom) :
    pendingTargets (pending.push atom) = pendingTargets pending ++ atomTargets atom := by
  cases atom <;> simp [Pending.push, pendingTargets, atomTargets]

theorem pendingTargets_pushAll (pending : Pending) (atoms : List Atom) :
    pendingTargets (atoms.foldl Pending.push pending) =
      pendingTargets pending ++ atoms.flatMap atomTargets := by
  induction atoms generalizing pending with
  | nil => simp
  | cons atom rest ih => simp [ih, pendingTargets_push]

/-! ## The flow -/

/-- The targets of the links that reached a block, and of those that still wait. -/
structure Kept where
  attached : List ConceptId
  waiting : List ConceptId
  deriving DecidableEq, Repr

namespace Kept

def after (kept : Kept) (next : List ConceptId → Kept) : Kept :=
  ⟨kept.attached ++ (next kept.waiting).attached, (next kept.waiting).waiting⟩

end Kept

/-- Bare inline content, whose images send what waits to a block. -/
@[grind =] def stow (containing_dir : Text) : List ConceptId → Forest → Kept
  | waiting, .nil => ⟨[], waiting⟩
  | waiting, .leaf _ _ rest => stow containing_dir waiting rest
  | waiting, .node tag range children rest =>
      let here : Kept :=
        match tag with
        | .image _ => ⟨waiting, []⟩
        | .link _ =>
            let own := keptInline containing_dir (.node tag range children .nil)
            if children.hoisted = [] then ⟨[], waiting ++ own⟩ else ⟨waiting, own⟩
        | _ => stow containing_dir waiting children
      here.after fun waiting => stow containing_dir waiting rest

/-- The targets the links of a forest contribute, given those of the waiting content. A
paragraph and a heading discard what waits; a list and the end of an item keep it. -/
@[grind =] def keep (containing_dir : Text) : List ConceptId → Forest → Kept
  | waiting, .nil => ⟨[], waiting⟩
  | waiting, .leaf _ _ rest => keep containing_dir waiting rest
  | waiting, .node tag range children rest =>
      let here : Kept :=
        match tag with
        | .paragraph | .heading _ => ⟨keptInline containing_dir children, []⟩
        | .blockQuote => keep containing_dir waiting children
        | .list _ => (Kept.mk waiting []).after fun waiting => keep containing_dir waiting children
        | .item => (keep containing_dir waiting children).after fun waiting => ⟨waiting, []⟩
        | .codeBlock _ | .metadataBlock | .htmlBlock => ⟨[], waiting⟩
        | _ => stow containing_dir waiting (.node tag range children .nil)
      here.after fun waiting => keep containing_dir waiting rest

/-- The flow `after` holds what `before` held and `kept` besides. -/
structure Grows (before after : Flow) (kept : Kept) : Prop where
  blocks : blockTargets after.blocks = blockTargets before.blocks ++ kept.attached
  pending : pendingTargets after.pending = kept.waiting

namespace Grows

theorem after {one two three : Flow} {kept : Kept} (next : List ConceptId → Kept)
    (first : Grows one two kept) (second : Grows two three (next (pendingTargets two.pending))) :
    Grows one three (kept.after next) := by
  refine ⟨?_, ?_⟩
  · rw [second.blocks, first.blocks, first.pending, List.append_assoc]
    rfl
  · rw [second.pending, first.pending]
    rfl

theorem refl (st : Flow) : Grows st st ⟨[], pendingTargets st.pending⟩ := ⟨by simp, rfl⟩

theorem flush (st : Flow) : Grows st st.flush ⟨pendingTargets st.pending, []⟩ :=
  ⟨by simp [Flow.flush, Pending.flush, blockTargets_paragraph], by simp [Flow.flush]⟩

theorem landElement (st : Flow) (element : InlineElement) (chars : Nat) (range : Range)
    (interpolable : Bool) :
    Grows st (st.land (.element element chars range interpolable))
      ⟨[], pendingTargets st.pending ++ elementTargets element⟩ :=
  ⟨by simp [Flow.land], pendingTargets_push _ _⟩

theorem landImage (st : Flow) (image : Image) :
    Grows st (st.land (.image image)) ⟨pendingTargets st.pending, []⟩ :=
  ⟨by simp [Flow.land, Flow.push, (flush st).blocks, blockTargets_image],
    by simp [Flow.land, Flow.push, Flow.flush]⟩

theorem landImages (st : Flow) {images : List Image} (some_ : images ≠ []) :
    Grows st ((images.map Atom.image).foldl Flow.land st) ⟨pendingTargets st.pending, []⟩ := by
  induction images generalizing st with
  | nil => simp at some_
  | cons image rest ih =>
    have one := landImage st image
    by_cases last : rest = []
    · subst last
      exact one
    · have all := one.after (fun waiting => ⟨waiting, []⟩) (ih (st.land (.image image)) last)
      simpa [Kept.after] using all

theorem landLeaf (source : Text) (st : Flow) (state : FormatState) (l : Leaf) (range : Range) :
    Grows st ((Forest.leafAtoms source state l range).foldl Flow.land st)
      ⟨[], pendingTargets st.pending⟩ := by
  cases shown : l.shown? with
  | none => simpa [Forest.leafAtoms, shown] using refl st
  | some content =>
    have one := landElement st (.text (.fromState content.1 state content.2)) content.1.length range
      (Utf8.slice? source range = some content.1)
    simpa [Forest.leafAtoms, shown] using one

/-- Everything that lands ends up attached or waiting, in order. -/
theorem landAll (st : Flow) (atoms : List Atom) :
    blockTargets (atoms.foldl Flow.land st).blocks ++
        pendingTargets (atoms.foldl Flow.land st).pending =
      blockTargets st.blocks ++ pendingTargets st.pending ++ atoms.flatMap atomTargets := by
  induction atoms generalizing st with
  | nil => simp
  | cons atom rest ih =>
    rw [List.foldl_cons, ih]
    cases atom with
    | element element chars range interpolable =>
      rw [(landElement st element chars range interpolable).blocks,
        (landElement st element chars range interpolable).pending]
      simp [atomTargets]
    | image image =>
      rw [(landImage st image).blocks, (landImage st image).pending]
      simp [atomTargets]

theorem leave {st inner : Flow} {kept : Kept} (within : Grows st.enter inner kept)
    (kind : ContainerKind) (range : Range) : Grows st (st.leave inner kind range) kept := by
  refine ⟨?_, within.pending⟩
  have blocks := within.blocks
  simp only [Flow.enter, blockTargets_nil, List.nil_append] at blocks
  simp [Flow.leave, blockTargets_container, blocks]

variable (source containing_dir : Text)

theorem stow_atoms (f : Forest) (state : FormatState) (st : Flow) :
    Grows st ((f.atoms source containing_dir state).foldl Flow.land st)
      (stow containing_dir (pendingTargets st.pending) f) := by
  induction f generalizing state st with
  | nil => exact refl st
  | leaf l range rest ih =>
    rw [Forest.atoms, List.foldl_append]
    have one := landLeaf source st state l range
    have all := one.after (fun waiting => stow containing_dir waiting rest) (ih state _)
    simpa [Kept.after, stow] using all
  | node tag range children rest inner ih =>
    have step {here : List Atom} {kept : Kept} (state : FormatState)
        (one : Grows st (here.foldl Flow.land st) kept) :
        Grows st ((here ++ rest.atoms source containing_dir state).foldl Flow.land st)
          (kept.after fun waiting => stow containing_dir waiting rest) := by
      rw [List.foldl_append]
      exact one.after _ (ih state _)
    cases tag with
    | image url => exact step _ (landImages st (by simp))
    | link url =>
      refine step _ ?_
      have label (st : Flow) : Grows st
          ((children.linkAtoms containing_dir state url range).foldl Flow.land st)
          ⟨[], pendingTargets st.pending ++
            keptInline containing_dir (.node (.link url) range children .nil)⟩ := by
        have targets := atomTargets_linkAtoms containing_dir state url range children
        by_cases silent : children.ownText = []
        · simpa [Forest.linkAtoms, keptInline, silent] using refl st
        · rw [← targets]
          simpa [Forest.linkAtoms, silent, atomTargets] using landElement st
            (Builder.linkElement (.link (classify url containing_dir))
              (processInlines (children.content containing_dir state)))
            children.ownText.length range false
      change Grows st ((children.hoisted.map Atom.image ++
        children.linkAtoms containing_dir state url range).foldl Flow.land st) _
      rw [List.foldl_append]
      by_cases none_ : children.hoisted = []
      · simpa [none_] using label st
      · have both := (landImages st none_).after
          (fun waiting => ⟨[], waiting ++
            keptInline containing_dir (.node (.link url) range children .nil)⟩) (label _)
        simpa [none_, Kept.after] using both
    | _ => exact step _ (inner _ st)

theorem paragraph (st : Flow) (range : Range) (children : Forest) :
    Grows st (st.paragraph source containing_dir range children)
      ⟨keptInline containing_dir children, []⟩ := by
  have landed := landAll { st with pending := .empty } (children.atoms source containing_dir st.format)
  rw [atomTargets_atoms] at landed
  refine ⟨?_, by simp [Flow.paragraph]⟩
  simpa [Flow.paragraph, blockTargets_paragraph] using landed

theorem heading (st : Flow) (level : Nat) (range : Range) (children : Forest) :
    Grows st (st.heading source containing_dir level range children)
      ⟨keptInline containing_dir children, []⟩ := by
  have pushed := pendingTargets_pushAll .empty (children.atoms source containing_dir st.format)
  rw [atomTargets_atoms, pendingTargets_empty, List.nil_append] at pushed
  refine ⟨?_, by simp [Flow.heading]⟩
  have own (pending : Pending) (range : Option Range) (images : List Image) :
      blockTargets (.leaf (.heading level (processInlines pending.inlines)) range
        pending.runs.runs :: images.map Image.emitted) = pendingTargets pending := by
    have processed := inlineTargets_processInlines pending.inlines
    have none_ := blockTargets_images images
    simp only [inlineTargets, blockTargets, treeTargets] at processed none_
    simp [blockTargets, treeTargets, nodesOf, Emitted.node, collectLinks, nodeLinks, processed,
      none_, pendingTargets, inlineTargets]
  rw [Flow.heading, blockTargets_append, own, pushed]

theorem leaf (st : Flow) (l : Leaf) (range : Range) :
    Grows st (st.leaf source l range) ⟨[], pendingTargets st.pending⟩ := by
  cases l with
  | rule =>
    exact ⟨by simp [Flow.leaf, Flow.push, blockTargets, treeTargets, nodesOf, Emitted.node, collectLinks, nodeLinks], rfl⟩
  | taskListMarker => exact ⟨by simp [Flow.leaf], rfl⟩
  | _ => exact landLeaf source st st.format _ range

theorem codeBlock (st : Flow) (kind : CodeBlockKind) (range : Range) (children : Forest) :
    Grows st (st.codeBlock source kind range children) ⟨[], pendingTargets st.pending⟩ :=
  ⟨by simp [Flow.codeBlock, Flow.push, blockTargets, treeTargets, nodesOf, Emitted.node,
    collectLinks, nodeLinks], rfl⟩

theorem emit (f : Forest) (st : Flow) :
    Grows st (f.emit source containing_dir st)
      (keep containing_dir (pendingTargets st.pending) f) := by
  induction f generalizing st with
  | nil => exact refl st
  | leaf l range rest ih =>
    have all := (leaf source st l range).after (fun waiting => keep containing_dir waiting rest)
      (ih _)
    simpa [Kept.after, keep, Forest.emit] using all
  | node tag range children rest inner ih =>
    have step {next : Flow} {kept : Kept} (one : Grows st next kept) :
        Grows st (rest.emit source containing_dir next)
          (kept.after fun waiting => keep containing_dir waiting rest) := one.after _ (ih _)
    cases tag with
    | paragraph => exact step (paragraph source containing_dir st range children)
    | heading level => exact step (heading source containing_dir st level range children)
    | blockQuote => exact step (leave (inner st.enter) .blockquote range)
    | list start_number =>
      refine step ((flush st).after _ ?_)
      exact leave (inner st.flush.enter) (.list start_number.isSome) range
    | item =>
      have flushed := (inner st.enter).after (fun waiting => ⟨waiting, []⟩) (flush _)
      exact step (leave flushed _ range)
    | codeBlock kind => exact step (codeBlock source st kind range children)
    | metadataBlock => exact step ⟨by simp, rfl⟩
    | htmlBlock => exact step (refl st)
    | emphasis | strong | strikethrough | link | image =>
      have landed (tag : Tag) :=
        stow_atoms source containing_dir (.node tag range children .nil) st.format st
      exact step ⟨(landed _).blocks, (landed _).pending⟩

end Grows

/-- The index records exactly the links the flow keeps. -/
theorem treeTargets_parseNote {source : Text} (stream : EventStream source)
    (containing_dir : Text) :
    treeTargets (parseNote source containing_dir stream.events).ast =
      (keep containing_dir [] stream.forest).attached := by
  have grown := (Grows.emit source containing_dir stream.forest .initial).blocks
  rw [parseNote_eq]
  simpa [Flow.initial, EventStream.emitted] using grown

end Burlmd.Index
