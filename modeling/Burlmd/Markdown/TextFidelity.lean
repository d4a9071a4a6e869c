import Mathlib.Data.List.Basic
import Mathlib.Tactic.Common
import Burlmd.Markdown.RenderedText

/-!
# Whether the tree holds the text of the stream

`TextAudit` reads a stream region by region. A region begins with bare text that
no Block holds yet and ends where that text reaches a Block; in between, the text
of other Blocks and of hoisted images passes it by. The tree holds the text of the
stream exactly when no region drops its text and every region reads the same
before and after.
-/

namespace Burlmd.Markdown

open Utf8

/-- The text and code events of a stream outside its metadata block, with a newline
for every break. -/
def eventText (in_metadata : Bool) : List (Event × Range) → Text
  | [] => []
  | (.start .metadataBlock, _) :: rest => eventText true rest
  | (.stop .metadataBlock, _) :: rest => eventText false rest
  | (.leaf l, _) :: rest => (if in_metadata then [] else l.rendered) ++ eventText in_metadata rest
  | (.start _, _) :: rest => eventText in_metadata rest
  | (.stop _, _) :: rest => eventText in_metadata rest

mutual

/-- The own text of the leaf nodes of a tree, in document order. -/
def AstNode.leafText : AstNode → Text
  | .heading _ content => renderedInlineText content
  | .paragraph content => renderedInlineText content
  | .list _ items => leafTexts items
  | .listItem content _ => leafTexts content
  | .blockquote nodes => leafTexts nodes
  | .codeBlock _ code => code
  | .thematicBreak => []
  | .image alt_text _ => alt_text
  | .suggestion none local_content incoming_content =>
      leafTexts local_content ++ leafTexts incoming_content
  | .suggestion (some base) local_content incoming_content =>
      leafTexts base ++ leafTexts local_content ++ leafTexts incoming_content

def leafTexts : List AstNode → Text
  | [] => []
  | node :: rest => node.leafText ++ leafTexts rest

end

@[simp] theorem leafTexts_append (first second : List AstNode) :
    leafTexts (first ++ second) = leafTexts first ++ leafTexts second := by
  induction first with
  | nil => simp [leafTexts]
  | cons node rest ih => simp [leafTexts, ih]

/-- The text of a forest in stream order. -/
def Forest.streamText : Forest → Text
  | nil => []
  | leaf l _ rest => l.rendered ++ rest.streamText
  | node .metadataBlock _ _ rest => rest.streamText
  | node _ _ children rest => children.streamText ++ rest.streamText

theorem eventText_verbatim (f : Forest) (conforms : f.conforms .verbatim = true)
    (rest : List (Event × Range)) : eventText true (f.events ++ rest) = eventText true rest := by
  induction f with
  | nil => rfl
  | leaf l range after ih =>
    simp only [Forest.conforms, Bool.and_eq_true] at conforms
    simpa [Forest.events, eventText] using ih conforms.2
  | node tag => simp [Forest.conforms, Tag.inner] at conforms

theorem eventText_events (f : Forest) {context : Context} (conforms : f.conforms context = true)
    (rest : List (Event × Range)) :
    eventText false (f.events ++ rest) = f.streamText ++ eventText false rest := by
  induction f generalizing context rest with
  | nil => simp [Forest.events, Forest.streamText]
  | leaf l range after ih =>
    simp only [Forest.conforms, Bool.and_eq_true] at conforms
    simp [Forest.events, Forest.streamText, eventText, ih conforms.2]
  | node tag range children after inner ih =>
    obtain ⟨nested, opened, within, tail⟩ : ∃ nested, tag.inner context = some nested ∧
        children.conforms nested = true ∧ after.conforms context = true := by
      cases opened : tag.inner context with
      | none => simp [Forest.conforms, opened] at conforms
      | some nested => exact ⟨nested, rfl, by simpa [Forest.conforms, opened] using conforms⟩
    by_cases metadata : tag = .metadataBlock
    · subst metadata
      obtain rfl : nested = .verbatim := by
        cases context <;> simp [Tag.inner] at opened; exact opened.symm
      simp [Forest.events, Forest.streamText, eventText, eventText_verbatim children within,
        Tag.toEnd, ih tail]
    · have started : eventText false (Forest.events (.node tag range children after) ++ rest) =
          eventText false (children.events ++
            (Event.stop tag.toEnd, range) :: (after.events ++ rest)) := by
        cases tag <;> simp_all [Forest.events, eventText]
      have ended : eventText false ((Event.stop tag.toEnd, range) :: (after.events ++ rest)) =
          after.streamText ++ eventText false rest := by
        rw [← ih tail]
        cases tag <;> simp_all [eventText, Tag.toEnd]
      rw [started, inner within, ended]
      cases tag <;> simp_all [Forest.streamText]

structure TextAudit where
  faithful : Bool
  /-- Bare text that no Block holds yet. -/
  pending : Text
  /-- The text of the Blocks attached since the region began. -/
  passed : Text
  /-- The text of the stream since the region began. -/
  seen : Text
  deriving DecidableEq, Repr

namespace TextAudit

def initial : TextAudit := ⟨true, [], [], []⟩

def read (audit : TextAudit) (text : Text) : TextAudit :=
  { audit with pending := audit.pending ++ text, seen := audit.seen ++ text }

/-- Ends the region with its pending text in a Block. -/
def flush (audit : TextAudit) : TextAudit :=
  ⟨audit.faithful && audit.passed ++ audit.pending = audit.seen, [], [], []⟩

/-- Ends a region that has no pending text. -/
def settle (audit : TextAudit) : TextAudit :=
  if audit.pending = [] then audit.flush else audit

/-- Blocks with the text `attached` stand for `stream`. -/
def attach (audit : TextAudit) (attached stream : Text) : TextAudit :=
  settle { audit with passed := audit.passed ++ attached, seen := audit.seen ++ stream }

/-- Ends the region with its pending text in no Block. -/
def drop (audit : TextAudit) : TextAudit :=
  ⟨audit.faithful && audit.pending = [] && audit.passed = audit.seen, [], [], []⟩

end TextAudit

namespace Forest

/-- Inline content that a Block does not hold yet. -/
def auditInline (audit : TextAudit) : Forest → TextAudit
  | nil => audit
  | leaf l _ rest => rest.auditInline (audit.read l.rendered)
  | node (.link _) _ children rest =>
      rest.auditInline <|
        if children.hoisted = [] then audit.read children.ownText
        else
          TextAudit.settle { audit.flush with
            passed := children.hoistedText
            pending := children.ownText
            seen := children.streamText }
  | node (.image _) _ children rest =>
      rest.auditInline <|
        audit.flush.attach (children.hoistedText ++ children.altText) children.streamText
  | node _ _ children rest => rest.auditInline (children.auditInline audit)

/-- The audit of the blocks of a forest in flow or list position. -/
def auditText (audit : TextAudit) : Forest → TextAudit
  | nil => audit
  | leaf l _ rest => rest.auditText (audit.read l.rendered)
  | node tag range children rest =>
      rest.auditText <|
        match tag with
        | .paragraph => (children.auditInline audit.drop).flush
        | .heading _ =>
            audit.drop.attach (children.ownText ++ children.hoistedText) children.streamText
        | .blockQuote => children.auditText audit
        | .list _ => children.auditText audit.flush
        | .item => (children.auditText audit).flush
        | .codeBlock _ => audit.attach children.ownText children.streamText
        | .metadataBlock | .htmlBlock => audit
        | _ => (Forest.node tag range children .nil).auditInline audit

end Forest

/-- No bare text is dropped, and no text moves past a different text. -/
def EventStream.KeepsText {source : Text} (stream : EventStream source) : Prop :=
  (stream.forest.auditText .initial).drop.faithful = true

namespace Forest

theorem length_altText_le (f : Forest) : f.altText.length ≤ f.ownText.length := by
  induction f with
  | nil => simp [altText]
  | leaf l range rest ih => simpa [altText, ownText] using ih
  | node tag range children rest inner ih =>
    cases tag <;> simp only [altText, ownText, List.length_append] <;> omega

/-- What the parser keeps of inline content is no longer than what it reads. -/
theorem length_kept_le (f : Forest) {context : Context} (inline : context.isInline = true)
    (conforms : f.conforms context = true) :
    f.ownText.length + f.hoistedText.length ≤ f.streamText.length := by
  induction f generalizing context with
  | nil => simp [ownText, hoistedText, hoisted, streamText]
  | leaf l range rest ih =>
    simp only [Forest.conforms, Bool.and_eq_true] at conforms
    have after := ih inline conforms.2
    simp only [ownText, hoistedText, hoisted, streamText, List.length_append] at after ⊢
    omega
  | node tag range children rest inner ih =>
    have alt := children.length_altText_le
    obtain ⟨shape, within, after⟩ := conforms_inline_node inline conforms
    have within := inner rfl within
    have after := ih inline after
    obtain isFormat | ⟨url, rfl | rfl⟩ := shape
    · cases tag <;> simp only [Tag.isFormat, Bool.false_eq_true] at isFormat <;>
        simp only [ownText, hoistedText, hoisted, streamText, List.length_append,
          List.flatMap_append] at within after ⊢ <;> omega
    · simp only [ownText, hoistedText, hoisted, streamText, List.length_append,
        List.flatMap_append] at within after ⊢
      omega
    · simp only [ownText, hoistedText, hoisted, streamText, List.length_append,
        List.flatMap_append, List.flatMap_cons] at within after ⊢
      omega

theorem streamText_of_no_images (f : Forest) {context : Context}
    (inline : context.isInline = true) (conforms : f.conforms context = true)
    (none_ : f.hoisted = []) : f.streamText = f.ownText := by
  induction f generalizing context with
  | nil => rfl
  | leaf l range rest ih =>
    simp only [Forest.conforms, Bool.and_eq_true] at conforms
    simpa [streamText, ownText] using ih inline conforms.2 none_
  | node tag range children rest inner ih =>
    obtain ⟨shape, within, after⟩ := conforms_inline_node inline conforms
    obtain isFormat | ⟨url, rfl | rfl⟩ := shape
    · cases tag <;> simp only [Tag.isFormat, Bool.false_eq_true] at isFormat <;>
        (simp only [hoisted, List.append_eq_nil_iff] at none_
         simp [streamText, ownText, inner rfl within none_.1, ih inline after none_.2])
    · simp only [hoisted, List.append_eq_nil_iff] at none_
      simp [streamText, ownText, inner rfl within none_.1, ih inline after none_.2]
    · simp [hoisted] at none_

end Forest

/-! ## The audit tracks the emission -/

/-- The text of the blocks attached so far. -/
def blocksText (blocks : List Emitted) : Text := leafTexts (nodesOf blocks)

@[simp] theorem blocksText_nil : blocksText [] = [] := by simp [blocksText, nodesOf, leafTexts]

@[simp] theorem blocksText_append (first second : List Emitted) :
    blocksText (first ++ second) = blocksText first ++ blocksText second := by
  simp [blocksText]

@[simp] theorem blocksText_leaf (node : AstNode) (source : Option Range)
    (runs : List InlineRun) : blocksText [.leaf node source runs] = node.leafText := by
  simp [blocksText, nodesOf, Emitted.node, leafTexts]

@[simp] theorem blocksText_container (kind : ContainerKind) (range : Range)
    (children : List Emitted) : blocksText [.container kind range children] =
      blocksText children := by
  cases kind <;>
    simp [blocksText, nodesOf, Emitted.node, leafTexts, ContainerKind.node, AstNode.leafText]

@[simp] theorem blocksText_paragraph (pending : Pending) (source : Option Range) :
    blocksText (pending.paragraph source) = pending.text := by
  by_cases nothing : pending.inlines = []
  · simp [Pending.paragraph, nothing, Pending.text]
  · simp [Pending.paragraph, nothing, Pending.text, AstNode.leafText]

/-- `attached` is the text of the Blocks, `stream` what was read and `pending` the text
that no Block holds. -/
structure TextAudit.Tracks (audit : TextAudit) (attached stream pending : Text) : Prop where
  settled : ∃ before read, attached = before ++ audit.passed ∧ stream = read ++ audit.seen ∧
    (audit.faithful = true ↔ before = read) ∧ before.length ≤ read.length
  pending_eq : audit.pending = pending
  shorter : audit.passed.length + audit.pending.length ≤ audit.seen.length

namespace TextAudit

variable {audit : TextAudit} {attached stream pending : Text}

/-- Two regions agree one by one when they are never longer than what was read. -/
theorem append_eq_append_iff {before read passed seen : Text} (len : before.length ≤ read.length)
    (shorter : passed.length ≤ seen.length) :
    before ++ passed = read ++ seen ↔ before = read ∧ passed = seen := by
  constructor
  · intro same
    have total := congrArg List.length same
    simp only [List.length_append] at total
    exact List.append_inj same (by omega)
  · rintro ⟨rfl, rfl⟩
    rfl

theorem Tracks.flow (tracks : audit.Tracks attached stream pending) (outer : Text) (st : Flow)
    (text : attached = outer ++ blocksText st.blocks) (held : pending = st.pending.text) :
    audit.Tracks (outer ++ blocksText st.blocks) stream st.pending.text :=
  text ▸ held ▸ tracks

theorem Tracks.read (tracks : audit.Tracks attached stream pending) (text : Text) :
    (audit.read text).Tracks attached (stream ++ text) (pending ++ text) := by
  obtain ⟨⟨before, read, rfl, rfl, agree, len⟩, rfl, shorter⟩ := tracks
  refine ⟨⟨before, read, rfl, by simp [TextAudit.read], agree, len⟩, rfl, ?_⟩
  simp only [TextAudit.read, List.length_append]
  omega

theorem Tracks.flush (tracks : audit.Tracks attached stream pending) :
    audit.flush.Tracks (attached ++ pending) stream [] := by
  obtain ⟨⟨before, read, rfl, rfl, agree, len⟩, rfl, shorter⟩ := tracks
  refine ⟨⟨_, _, (List.append_nil _).symm, (List.append_nil _).symm, ?_, ?_⟩, rfl, le_refl _⟩
  · rw [List.append_assoc, append_eq_append_iff len (by simpa using shorter), ← agree]
    simp [TextAudit.flush]
  · simp only [List.length_append]
    omega

theorem Tracks.settle (tracks : audit.Tracks attached stream pending) :
    audit.settle.Tracks attached stream pending := by
  by_cases nothing : audit.pending = []
  · have ended := tracks.flush
    rw [← tracks.pending_eq, nothing] at ended ⊢
    simpa [TextAudit.settle, nothing] using ended
  · simpa [TextAudit.settle, nothing] using tracks

theorem Tracks.attach (tracks : audit.Tracks attached stream pending) (text read : Text)
    (len : text.length ≤ read.length) :
    (audit.attach text read).Tracks (attached ++ text) (stream ++ read) pending := by
  obtain ⟨⟨before, read, rfl, rfl, agree, len⟩, rfl, shorter⟩ := tracks
  refine Tracks.settle ⟨⟨before, read, by simp, by simp, agree, len⟩, rfl, ?_⟩
  simp only [List.length_append]
  omega

/-- A link with images in it: the images pass its own text by. -/
theorem Tracks.link (tracks : audit.Tracks attached stream pending) {hoisted own read : Text}
    (len : own.length + hoisted.length ≤ read.length) :
    (TextAudit.settle { audit.flush with passed := hoisted, pending := own, seen := read }).Tracks
      (attached ++ pending ++ hoisted) (stream ++ read) own := by
  obtain ⟨⟨before, stop, same, rest, agree, shorter⟩, -, -⟩ := tracks.flush
  simp only [TextAudit.flush, List.append_nil] at same rest
  subst rest
  rw [same]
  exact Tracks.settle ⟨⟨before, stream, rfl, rfl, agree, shorter⟩, rfl, by simp; omega⟩

theorem Tracks.drop (tracks : audit.Tracks attached stream pending) :
    audit.drop.Tracks attached stream [] := by
  obtain ⟨⟨before, read, rfl, rfl, agree, len⟩, rfl, shorter⟩ := tracks
  refine ⟨⟨_, _, (List.append_nil _).symm, (List.append_nil _).symm, ?_, ?_⟩, rfl, le_refl _⟩
  · rw [append_eq_append_iff len (by omega), ← agree]
    simp only [TextAudit.drop, Bool.and_eq_true, decide_eq_true_eq]
    constructor
    · rintro ⟨⟨faithful, -⟩, same⟩
      exact ⟨faithful, same⟩
    · rintro ⟨faithful, same⟩
      rw [same] at shorter
      exact ⟨⟨faithful, List.length_eq_zero_iff.mp (by omega)⟩, same⟩
  · simp only [List.length_append]
    omega

theorem Tracks.faithful_iff (tracks : audit.Tracks attached stream pending) :
    audit.drop.faithful = true ↔ attached = stream := by
  obtain ⟨⟨before, read, rfl, rfl, agree, -⟩, -, -⟩ := tracks.drop
  simpa [TextAudit.drop] using agree

end TextAudit

namespace Flow

variable (source containing_dir : Text)

@[simp] theorem blocksText_flush (st : Flow) :
    blocksText st.flush.blocks = blocksText st.blocks ++ st.pending.text := by
  simp [flush, Pending.flush]

@[simp] theorem pending_flush (st : Flow) : st.flush.pending = .empty := rfl

theorem text_land_element (st : Flow) (element : InlineElement) (chars : Nat) (range : Range)
    (interpolable : Bool) :
    blocksText (st.land (.element element chars range interpolable)).blocks =
        blocksText st.blocks ∧
      (st.land (.element element chars range interpolable)).pending.text =
        st.pending.text ++ element.rendered := by
  simp [land, Pending.push, Pending.text]

theorem text_leafAtoms (st : Flow) (state : FormatState) (l : Leaf) (range : Range) :
    let landed := (Forest.leafAtoms source state l range).foldl land st
    blocksText landed.blocks = blocksText st.blocks ∧
      landed.pending.text = st.pending.text ++ l.rendered := by
  cases shown : l.shown? with
  | none => simp [Forest.leafAtoms, shown, Leaf.rendered]
  | some content =>
    simpa [Forest.leafAtoms, shown, Leaf.rendered, InlineElement.rendered, TextRun.fromState]
      using text_land_element st (.text (.fromState content.1 state content.2)) content.1.length
        range (slice? source range = some content.1)

theorem text_linkAtoms (st : Flow) (state : FormatState) (url : Text) (range : Range)
    (children : Forest) :
    let landed := (children.linkAtoms containing_dir state url range).foldl land st
    blocksText landed.blocks = blocksText st.blocks ∧
      landed.pending.text = st.pending.text ++ children.ownText := by
  by_cases empty : children.ownText = []
  · simp [Forest.linkAtoms, empty]
  · simpa [Forest.linkAtoms, empty, renderedInlineText_content] using text_land_element st
      (Builder.linkElement (.link (Okf.classify url containing_dir))
        (processInlines (children.content containing_dir state)))
      children.ownText.length range false

theorem text_landImages (st : Flow) (images : List Image) (some_ : images ≠ []) :
    let landed := (images.map .image).foldl land st
    blocksText landed.blocks =
        blocksText st.blocks ++ st.pending.text ++ images.flatMap Image.alt_text ∧
      landed.pending = .empty := by
  induction images generalizing st with
  | nil => simp at some_
  | cons image rest ih =>
    simp only [List.map_cons, List.foldl_cons]
    have first : blocksText (st.land (.image image)).blocks =
        blocksText st.blocks ++ st.pending.text ++ image.alt_text := by
      simp [land, push, Image.emitted, AstNode.leafText]
    have cleared : (st.land (.image image)).pending = .empty := rfl
    by_cases last : rest = []
    · subst last
      exact ⟨by simpa using first, cleared⟩
    · obtain ⟨text, pending⟩ := ih (st.land (.image image)) last
      refine ⟨?_, pending⟩
      simp [text, first, cleared]

end Flow

namespace Forest

variable (source containing_dir : Text)

theorem auditInline_tracks (f : Forest) {context : Context} (inline : context.isInline = true)
    (conforms : f.conforms context = true) {audit : TextAudit} {outer stream : Text}
    (st : Flow) (state : FormatState)
    (tracks : audit.Tracks (outer ++ blocksText st.blocks) stream st.pending.text) :
    let landed := (f.atoms source containing_dir state).foldl Flow.land st
    (f.auditInline audit).Tracks (outer ++ blocksText landed.blocks) (stream ++ f.streamText)
      landed.pending.text := by
  induction f generalizing context audit stream st state with
  | nil => simpa [auditInline, atoms, streamText] using tracks
  | leaf l range rest ih =>
    simp only [Forest.conforms, Bool.and_eq_true] at conforms
    obtain ⟨text, pending⟩ := Flow.text_leafAtoms source st state l range
    have next := tracks.read l.rendered
    rw [← text, ← pending] at next
    simpa [auditInline, atoms, streamText, List.foldl_append] using ih inline conforms.2 _ state next
  | node tag range children rest inner ih =>
    obtain ⟨shape, within, after⟩ := conforms_inline_node inline conforms
    obtain isFormat | ⟨url, rfl | rfl⟩ := shape
    · have next := ih inline after _ (tag.leave (children.format (tag.enter state)))
        (inner rfl within st (tag.enter state) tracks)
      cases tag <;> simp only [Tag.isFormat, Bool.false_eq_true] at isFormat <;>
        simpa [auditInline, atoms, streamText, List.foldl_append] using next
    · have kept := children.length_kept_le rfl within
      by_cases images : children.hoisted = []
      · obtain ⟨text, pending⟩ := Flow.text_linkAtoms containing_dir st state url range children
        have next := tracks.read children.ownText
        rw [← text, ← pending] at next
        have whole := children.streamText_of_no_images rfl within images
        simpa [auditInline, atoms, streamText, List.foldl_append, images, whole] using
          ih inline after _ _ next
      · let hoisted := (children.hoisted.map .image).foldl Flow.land st
        let landed := (children.linkAtoms containing_dir state url range).foldl Flow.land hoisted
        obtain ⟨passed, cleared⟩ := Flow.text_landImages st children.hoisted images
        obtain ⟨text, pending⟩ := Flow.text_linkAtoms containing_dir hoisted state url range
          children
        have next := (tracks.link kept).flow outer landed
          (by simp [landed, text, hoisted, passed, hoistedText])
          (by simp [landed, pending, hoisted, cleared])
        simpa [auditInline, atoms, streamText, List.foldl_append, images, landed, hoisted] using
          ih inline after landed _ next
    · have kept := children.length_kept_le rfl within
      have alt := children.length_altText_le
      let hoisted := (children.hoisted ++ [Image.mk children.altText url range]).map Atom.image
      let landed := hoisted.foldl Flow.land st
      obtain ⟨passed, cleared⟩ := Flow.text_landImages st
        (children.hoisted ++ [Image.mk children.altText url range]) (by simp)
      have next := (tracks.flush.attach (children.hoistedText ++ children.altText)
        children.streamText (by simp only [List.length_append]; omega)).flow
          outer landed (by simp only [landed, hoisted, passed]; simp [hoistedText])
          (by simp only [landed, hoisted, cleared, Pending.text_empty])
      simpa [auditInline, atoms, streamText, List.foldl_append, landed, hoisted] using
        ih inline after landed _ next

end Forest

namespace Flow

variable (source containing_dir : Text) {audit : TextAudit} {outer stream : Text}

theorem paragraph_tracks (st : Flow) (range : Range) (children : Forest)
    (conforms : children.conforms .paragraph = true)
    (tracks : audit.Tracks (outer ++ blocksText st.blocks) stream st.pending.text) :
    (children.auditInline audit.drop).flush.Tracks
      (outer ++ blocksText (st.paragraph source containing_dir range children).blocks)
      (stream ++ children.streamText)
      (st.paragraph source containing_dir range children).pending.text := by
  have dropped : audit.drop.Tracks (outer ++ blocksText { st with pending := .empty }.blocks)
      stream { st with pending := Pending.empty }.pending.text := by
    simpa using tracks.drop
  have landed := (children.auditInline_tracks source containing_dir rfl conforms _ st.format
    dropped).flush
  simpa [paragraph] using landed

theorem blocksText_images (images : List Image) :
    blocksText (images.map Image.emitted) = images.flatMap Image.alt_text := by
  induction images with
  | nil => simp
  | cons image rest ih =>
    rw [List.map_cons, ← List.singleton_append, blocksText_append, ih]
    simp [Image.emitted, AstNode.leafText]

theorem text_heading (st : Flow) (level : Nat) (range : Range) (children : Forest) :
    blocksText (st.heading source containing_dir level range children).blocks =
      blocksText st.blocks ++ (children.ownText ++ children.hoistedText) := by
  have own := text_pushAtoms source containing_dir children .empty st.format
  rw [Pending.text_empty, List.nil_append] at own
  simp only [heading, imagesOf_atoms]
  rw [← List.singleton_append, blocksText_append, blocksText_append, blocksText_leaf,
    blocksText_images, ← own]
  simp [AstNode.leafText, Pending.text, Forest.hoistedText]

theorem text_leaf (st : Flow) (l : Leaf) (range : Range) :
    blocksText (st.leaf source l range).blocks = blocksText st.blocks ∧
      (st.leaf source l range).pending.text = st.pending.text ++ l.rendered := by
  have landed := text_leafAtoms source st st.format l range
  cases l with
  | rule => simp [leaf, push, AstNode.leafText, Leaf.rendered, Leaf.shown?]
  | taskListMarker => simp [leaf, Leaf.rendered, Leaf.shown?]
  | _ => exact landed

theorem bare_tracks (st : Flow) (tag : Tag) (range : Range) (children : Forest)
    (conforms : (Forest.node tag range children .nil).conforms .inline = true)
    (tracks : audit.Tracks (outer ++ blocksText st.blocks) stream st.pending.text) :
    ((Forest.node tag range children .nil).auditInline audit).Tracks
      (outer ++ blocksText
        (st.bare source containing_dir (.node tag range children .nil)).blocks)
      (stream ++ children.streamText)
      (st.bare source containing_dir (.node tag range children .nil)).pending.text := by
  have landed := Forest.auditInline_tracks source containing_dir
    (.node tag range children .nil) rfl conforms st st.format tracks
  have whole : (Forest.node tag range children .nil).streamText = children.streamText := by
    obtain ⟨shape, -⟩ := Forest.conforms_inline_node rfl conforms
    cases tag <;> simp_all [Forest.streamText, Tag.isFormat]
  rw [whole] at landed
  exact landed

end Flow

namespace Forest

variable (source containing_dir : Text)

theorem streamText_of_verbatim (f : Forest) {context : Context}
    (lines : context = .verbatim ∨ context = .markup) (conforms : f.conforms context = true) :
    f.streamText = f.ownText := by
  induction f with
  | nil => rfl
  | leaf l range rest ih =>
    simp only [Forest.conforms, Bool.and_eq_true] at conforms
    simp [streamText, ownText, ih conforms.2]
  | node tag => obtain rfl | rfl := lines <;> simp [Forest.conforms, Tag.inner] at conforms

theorem streamText_of_markup (f : Forest) (conforms : f.conforms .markup = true) :
    f.streamText = [] := by
  induction f with
  | nil => rfl
  | leaf l range rest ih =>
    simp only [Forest.conforms, Bool.and_eq_true] at conforms
    cases l <;>
      simp_all [Leaf.allowed, streamText, Leaf.rendered, Leaf.shown?]
  | node tag => simp [Forest.conforms, Tag.inner] at conforms

theorem auditText_tracks (f : Forest) {context : Context}
    (block : context = .flow ∨ context = .items) (conforms : f.conforms context = true)
    {audit : TextAudit} {outer stream : Text} (st : Flow)
    (tracks : audit.Tracks (outer ++ blocksText st.blocks) stream st.pending.text) :
    (f.auditText audit).Tracks (outer ++ blocksText (f.emit source containing_dir st).blocks)
      (stream ++ f.streamText) (f.emit source containing_dir st).pending.text := by
  induction f generalizing context audit outer stream st with
  | nil => simpa [auditText, emit, streamText] using tracks
  | leaf l range rest ih =>
    simp only [Forest.conforms, Bool.and_eq_true] at conforms
    obtain ⟨text, pending⟩ := Flow.text_leaf source st l range
    have landed := (tracks.read l.rendered).flow _ (st.leaf source l range)
      (by rw [text]) pending.symm
    simpa [auditText, emit, streamText] using ih block conforms.2 _ landed
  | node tag range children rest inner ih =>
    have step {audit' : TextAudit} {st' : Flow} (after : rest.conforms context = true)
        (stepped : audit'.Tracks (outer ++ blocksText st'.blocks)
          (stream ++ children.streamText) st'.pending.text) :
        (rest.auditText audit').Tracks
          (outer ++ blocksText (rest.emit source containing_dir st').blocks)
          (stream ++ (children.streamText ++ rest.streamText))
          (rest.emit source containing_dir st').pending.text := by
      simpa using ih block after st' stepped
    obtain rfl | rfl := block
    · cases tag with
      | paragraph =>
        simp only [Forest.conforms, Tag.inner, Bool.and_eq_true] at conforms
        exact step conforms.2
          (st.paragraph_tracks source containing_dir range children conforms.1 tracks)
      | heading level =>
        simp only [Forest.conforms, Tag.inner, Bool.and_eq_true] at conforms
        have kept := children.length_kept_le rfl conforms.1
        refine step conforms.2 ((tracks.drop.attach _ _ ?_).flow _ _ ?_ rfl)
        · simpa using kept
        · simp [Flow.text_heading]
      | blockQuote =>
        simp only [Forest.conforms, Tag.inner, Bool.and_eq_true] at conforms
        refine step conforms.2 ((inner (.inl rfl) conforms.1 st.enter
          (by simpa [Flow.enter] using tracks)).flow _ _ ?_ rfl)
        simp [Flow.leave]
      | codeBlock kind =>
        simp only [Forest.conforms, Tag.inner, Bool.and_eq_true] at conforms
        have whole := children.streamText_of_verbatim (.inl rfl) conforms.1
        refine step conforms.2 ((tracks.attach _ _ (by rw [whole])).flow _ _ ?_ rfl)
        simp [Flow.codeBlock, Flow.push, AstNode.leafText, conforms.1]
      | htmlBlock =>
        simp only [Forest.conforms, Tag.inner, Bool.and_eq_true] at conforms
        have nothing := children.streamText_of_markup conforms.1
        simpa [auditText, emit, streamText, nothing] using ih (.inl rfl) conforms.2 st tracks
      | list start_number =>
        simp only [Forest.conforms, Tag.inner, Bool.and_eq_true] at conforms
        refine step conforms.2 ((inner (.inr rfl) conforms.1 st.flush.enter
            (by simpa [Flow.enter] using tracks.flush)).flow _ _ ?_ rfl)
        simp [Flow.leave]
      | item => simp [Forest.conforms, Tag.inner] at conforms
      | metadataBlock =>
        simp only [Forest.conforms, Tag.inner, Bool.and_eq_true] at conforms
        simpa [auditText, emit, streamText] using
          ih (.inl rfl) conforms.2 { st with frontmatter := some range } tracks
      | emphasis | strong | strikethrough | link | image =>
        simp only [Forest.conforms, Tag.inner, Bool.and_eq_true] at conforms
        exact step conforms.2 (st.bare_tracks source containing_dir _ range children
          (by simp [Forest.conforms, Tag.inner, conforms.1]) tracks)
    · cases tag with
      | item =>
        simp only [Forest.conforms, Tag.inner, Bool.and_eq_true] at conforms
        refine step conforms.2 ((inner (.inl rfl) conforms.1 st.enter
            (by simpa [Flow.enter] using tracks)).flush.flow _ _ ?_ rfl)
        simp [Flow.leave]
      | _ => simp [Forest.conforms, Tag.inner] at conforms

end Forest

/-- The tree holds exactly the text of the stream when no text is dropped and none is
moved past a different text. -/
theorem leafTexts_eq_eventText_iff {source : Text} (stream : EventStream source)
    (containing_dir : Text) :
    leafTexts (parseNote source containing_dir stream.events).ast =
        eventText false stream.events ↔
      stream.KeepsText := by
  have start : TextAudit.initial.Tracks ([] ++ blocksText Flow.initial.blocks) []
      Flow.initial.pending.text :=
    ⟨⟨[], [], rfl, rfl, by simp [TextAudit.initial], le_refl _⟩, rfl, le_refl _⟩
  have tracks := stream.forest.auditText_tracks source containing_dir (.inl rfl) stream.conforms
    .initial start
  have read : eventText false stream.events = stream.forest.streamText := by
    simpa [eventText, EventStream.events] using eventText_events stream.forest stream.conforms []
  rw [EventStream.KeepsText, tracks.faithful_iff, read, parseNote_eq]
  exact Iff.rfl

/-- `- foo` with a heading inside the same item. -/
def headingInTightItem : EventStream "- foo\n  # Bar\n".toList where
  forest :=
    .node (.list none) ⟨0, 14⟩
      (.node .item ⟨0, 14⟩
        (.leaf (.text "foo".toList) ⟨2, 5⟩
          (.node (.heading 1) ⟨8, 14⟩ (.leaf (.text "Bar".toList) ⟨10, 13⟩ .nil) .nil))
        .nil)
      .nil
  conforms := by decide
  placed := by decide

theorem headingInTightItem_drops_text :
    leafTexts (parseNote "- foo\n  # Bar\n".toList [] headingInTightItem.events).ast = "Bar".toList ∧
      eventText false headingInTightItem.events = "fooBar".toList := by
  decide

end Burlmd.Markdown
