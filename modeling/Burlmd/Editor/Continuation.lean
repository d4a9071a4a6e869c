import Burlmd.Editor.BlockEdits
import Burlmd.Editor.RangeExact

/-!
# The focus of a continuation

A continuation puts the text of the caller between a separator and line endings of its own. What it
records as inserted is that text, unless line endings follow it: then the record is late by them.
-/

namespace Burlmd.Editor

open Checked
open Extremum
open Lifecycle (newlineStyle)
open Markdown
open Utf16
open Utf8

/-- Where an edit inserts, what it puts before the text of the caller, and what after it. -/
structure Seam where
  offset : Nat
  lead : Text
  trail : Text
  deriving DecidableEq, Repr

/-- Where the text of the caller comes to lie. -/
def Seam.place (seam : Seam) (source : Text) : Range :=
  ⟨seam.offset + byteLen seam.lead, seam.offset + byteLen seam.lead + byteLen source⟩

/-- A text with a seam in it, and the text of the caller in the seam. -/
structure Seam.Fills (seam : Seam) (working source new_source : Text) (before after : Text) :
    Prop where
  working_eq : working = before ++ after
  offset_eq : byteLen before = seam.offset
  filled : new_source = before ++ (seam.lead ++ source ++ seam.trail) ++ after

namespace Seam.Fills

variable {seam : Seam} {working source new_source before after : Text}

theorem splice (fills : seam.Fills working source new_source before after) :
    spliceOr working ⟨seam.offset, seam.offset⟩ (seam.lead ++ source ++ seam.trail) =
      .ok new_source := by
  rw [fills.working_eq, fills.filled, ← fills.offset_eq]
  exact spliceOr_insert before after _

theorem before_eq (fills : seam.Fills working source new_source before after) :
    beforeOr working seam.offset = .ok before := by
  rw [fills.working_eq, ← fills.offset_eq]
  exact beforeOr_append before after

theorem after_eq (fills : seam.Fills working source new_source before after) :
    afterOr working seam.offset = .ok after := by
  rw [fills.working_eq, ← fills.offset_eq]
  exact afterOr_append before after

/-- The text of the caller is at its place. -/
theorem slice_place (fills : seam.Fills working source new_source before after) :
    slice? new_source (seam.place source) = some source := by
  apply slice?_eq_some_iff.mpr
  refine ⟨before ++ seam.lead, seam.trail ++ after, ?_, ?_, ?_⟩
  · rw [fills.filled]
    simp only [List.append_assoc]
  · rw [byteLen_append, fills.offset_eq]
    rfl
  · rw [byteLen_append, fills.offset_eq]
    rfl

end Seam.Fills

/-! ## The seams of a continuation -/

def Continuation.focusParent : Continuation → BlockPath
  | .list _ _ list_path item_index => list_path ++ [item_index + 1]
  | .independent top_level_path => [top_level_path.headD 0 + 1]
  | .emptyNote => [0]

def Continuation.seam (working : Text) (spans : SpanMap) (source : Text) :
    Continuation → Except AppError Seam
  | .list marker leaf_path _ _ => do
      let span ← blockSpan spans leaf_path
      return ⟨span.stop, newlineStyle working ++ marker, []⟩
  | .independent top_level_path => do
      let span ← blockSpan spans top_level_path
      let before ← beforeOr working span.stop
      let after ← afterOr working span.stop
      return ⟨span.stop, separatorBefore before BLOCK_SEPARATOR_NEWLINES,
        repeatText (seamNewline before working)
          ((if after = [] then 1 else BLOCK_SEPARATOR_NEWLINES) -
            (trailingNewlines source + leadingNewlines after))⟩
  | .emptyNote =>
      .ok ⟨byteLen working, separatorBefore working BLOCK_SEPARATOR_NEWLINES,
        repeatText (newlineStyle working) (1 - trailingNewlines source)⟩

def StructuralEditInsertionSlot.seam (slot : StructuralEditInsertionSlot)
    (working before after source : Text) : Seam :=
  ⟨slot.source_offset, slot.line_prefix, repeatText (seamNewline before working)
    (slot.required_after_newlines - (trailingNewlines source + leadingNewlines after))⟩

/-- What a continuation records as inserted: its start counts what follows the text. -/
def Seam.recorded (seam : Seam) (source : Text) : Range :=
  ⟨(seam.place source).start + byteLen seam.trail, (seam.place source).stop + byteLen seam.trail⟩

theorem Seam.recorded_eq_place_iff {seam : Seam} {source : Text} :
    seam.recorded source = seam.place source ↔ seam.trail = [] := by
  unfold Seam.recorded
  constructor
  · intro same
    have starts := congrArg Range.start same
    exact byteLen_eq_zero.mp (by dsimp only at starts; omega)
  · intro isNil
    rw [isNil]
    rfl

theorem Seam.recorded_eq (seam : Seam) (source : Text) :
    seam.recorded source =
      ⟨seam.offset + (byteLen (seam.lead ++ source ++ seam.trail) - byteLen source),
        seam.offset + (byteLen (seam.lead ++ source ++ seam.trail) - byteLen source) +
          byteLen source⟩ := by
  have len : byteLen (seam.lead ++ source ++ seam.trail) - byteLen source =
      byteLen seam.lead + byteLen seam.trail := by
    rw [byteLen_append, byteLen_append]
    omega
  unfold Seam.recorded Seam.place
  rw [len]
  dsimp only
  congr 1
  · omega
  · omega

/-- Every continuation fills its seam. -/
theorem continueAs_eq (working : Text) (live : ParsedNote) (source : Text)
    (continuation : Continuation) :
    continueAs working live source continuation = (do
      let seam ← continuation.seam working live.spans source
      let new_source ← spliceOr working ⟨seam.offset, seam.offset⟩
        (seam.lead ++ source ++ seam.trail)
      return (new_source, ⟨continuation.focusParent, seam.recorded source⟩)) := by
  cases continuation with
  | list marker leaf_path list_path item_index =>
    dsimp only [continueAs, continueList, Continuation.seam, Continuation.focusParent, bind,
      Except.bind, pure, Except.pure]
    cases blockSpan live.spans leaf_path with
    | error error => rfl
    | ok span =>
      dsimp only
      rw [List.append_nil]
      unfold Seam.recorded Seam.place
      dsimp only
      rw [byteLen_append]
      rfl
  | independent top_level_path =>
    dsimp only [continueAs, continueIndependent, Continuation.seam, Continuation.focusParent, bind,
      Except.bind, pure, Except.pure]
    cases blockSpan live.spans top_level_path with
    | error error => rfl
    | ok span =>
      dsimp only
      cases beforeOr working span.stop with
      | error error => rfl
      | ok before =>
        dsimp only
        cases afterOr working span.stop with
        | error error => rfl
        | ok after =>
          dsimp only
          rw [Seam.recorded_eq]
  | emptyNote =>
    dsimp only [continueAs, continueEmptyNote, Continuation.seam, Continuation.focusParent, bind,
      Except.bind, pure, Except.pure]
    rw [Seam.recorded_eq]

/-! ## The seam of every address -/

variable (env : Surroundings) (session : Session)

/-- The paths that a continuation accepts: those of a live leaf, and that of the first Block of a
Note that shows none. -/
def Session.Continues (block_path : BlockPath) : Prop :=
  (env.parse session.source).spans.blocks = [] ∧ block_path = [0] ∨
    ∃ live_path, editableLivePath (env.parse session.source).spans session.spans block_path =
      .ok live_path

def Session.continuation (block_path : BlockPath) : Except AppError Continuation :=
  continuationOf session.source (env.parse session.source) session.spans block_path

variable {env session} {block_path live_path : BlockPath}

/-- A Block of a parse is what its path names. -/
theorem Surroundings.block_of_mem (env : Surroundings) {source : Text} {block : BlockSpan}
    (mem : block ∈ (env.parse source).spans.blocks) :
    (env.parse source).spans.block block.path = some block := by
  have distinct : ((env.parse source).spans.blocks.map BlockSpan.path).Nodup :=
    parseNote_distinct _ _
  rcases List.getElem?_of_mem mem with ⟨index, at_⟩
  unfold SpanMap.block
  rw [(byPath_eq_some_iff distinct).mpr ⟨block, at_, rfl⟩]
  exact at_

/-- An editable path is that of a leaf of the parse. -/
theorem leaf_of_editableLivePath {source : Text} {retained_spans : SpanMap}
    (ok : editableLivePath (env.parse source).spans retained_spans block_path = .ok live_path) :
    ∃ leaf, (env.parse source).spans.block live_path = some leaf ∧ leaf.isLeaf = true := by
  rcases editableLivePath_ok ok with ⟨block, found, leaf, isPath⟩ | fallback
  · refine ⟨block, ?_, leaf⟩
    rw [← isPath, (mem_of_block found).2]
    exact found
  · rcases leafInRegion_ok fallback with ⟨-, block, -, -, mem, leaf, isPath, -⟩
    refine ⟨block, ?_, leaf⟩
    rw [← isPath]
    exact env.block_of_mem mem

/-- The end of a Block of a parse is an offset of the text. -/
theorem Surroundings.split_at_stop (env : Surroundings) {source : Text} {block : BlockSpan}
    (mem : block ∈ (env.parse source).spans.blocks) :
    ∃ before after, source = before ++ after ∧ byteLen before = block.source.stop :=
  isBoundary_iff.mp (slice?_isSome_iff.mp (env.parse_sliceable mem)).2.2

/-- An accepted path has its continuation, and the continuation its seam. -/
theorem Session.Continues.seam (continues : session.Continues env block_path) (source : Text) :
    ∃ continuation seam new_source before after,
      session.continuation env block_path = .ok continuation ∧
      continuation.seam session.source (env.parse session.source).spans source = .ok seam ∧
      seam.Fills session.source source new_source before after := by
  unfold Session.continuation continuationOf
  rcases continues with empty | ⟨live_path, ok⟩
  · rw [if_pos empty]
    exact ⟨.emptyNote, _, _, session.source, [], rfl, rfl,
      (List.append_nil _).symm, rfl, rfl⟩
  · rcases leaf_of_editableLivePath ok with ⟨leaf, found, isLeaf⟩
    rcases mem_of_block found with ⟨mem, isPath⟩
    have shown_ : ¬ ((env.parse session.source).spans.blocks = [] ∧ block_path = [0]) := by
      intro empty
      rw [empty.1] at mem
      cases mem
    rw [if_neg shown_, ok]
    dsimp only [bind, Except.bind]
    rw [found]
    dsimp only
    rw [isLeaf, Bool.not_true, if_neg Bool.false_ne_true]
    cases nearestListItem (env.parse session.source).ast live_path with
    | some item =>
      rcases isBoundary_iff.mp (slice?_isSome_iff.mp (env.parse_sliceable mem)).2.1 with
        ⟨line, rest, whole, start⟩
      rcases env.split_at_stop mem with ⟨before, after, split, stop⟩
      have isPrefix : linePrefixBefore session.source leaf.source.start = .ok (lastLine line) := by
        rw [whole, ← start]
        exact linePrefixBefore_append line rest
      have isSpan : blockSpan (env.parse session.source).spans live_path = .ok leaf.source :=
        blockSpan_eq_ok.mpr ⟨leaf, found, rfl⟩
      dsimp only
      rw [isPrefix]
      refine ⟨.list (lastLine line) live_path item.1 item.2,
        ⟨leaf.source.stop, newlineStyle session.source ++ lastLine line, []⟩, _, before, after,
        rfl, ?_, split, stop, rfl⟩
      dsimp only [Continuation.seam, bind, Except.bind]
      rw [isSpan]
      rfl
    | none =>
      rcases parseNote_top_level _ _ mem with ⟨top, topMem, topPath⟩
      rcases env.split_at_stop topMem with ⟨before, after, split, stop⟩
      have isSpan : blockSpan (env.parse session.source).spans (live_path.take 1) =
          .ok top.source := by
        apply blockSpan_eq_ok.mpr
        refine ⟨top, ?_, rfl⟩
        rw [← isPath, ← topPath]
        exact env.block_of_mem topMem
      have isBefore : beforeOr session.source top.source.stop = .ok before := by
        rw [split, ← stop]
        exact beforeOr_append before after
      have isAfter : afterOr session.source top.source.stop = .ok after := by
        rw [split, ← stop]
        exact afterOr_append before after
      refine ⟨.independent (live_path.take 1),
        ⟨top.source.stop, separatorBefore before BLOCK_SEPARATOR_NEWLINES,
          repeatText (seamNewline before session.source)
            ((if after = [] then 1 else BLOCK_SEPARATOR_NEWLINES) -
              (trailingNewlines source + leadingNewlines after))⟩,
        _, before, after, rfl, ?_, split, stop, rfl⟩
      dsimp only [Continuation.seam, bind, Except.bind]
      rw [isSpan]
      dsimp only
      rw [isBefore]
      dsimp only
      rw [isAfter]
      rfl

/-! ## The focus -/

/-- The last of the leaves that a range lies in. -/
structure LastLeafIn (spans : SpanMap) (inserted : Range) (leaf : BlockSpan) : Prop where
  mem : leaf ∈ spans.blocks
  overlaps : overlapsLeaf inserted leaf = true
  last : ∀ other ∈ spans.blocks, overlapsLeaf inserted other = true →
    sourceOrder other ≤ sourceOrder leaf

/-- A focus in the last leaf that a range lies in, just after the part of the range in it. -/
def Focus.Exact (focus : Focus) (source : Text) (spans : SpanMap) (inserted : Range) : Prop :=
  ∃ leaf before, LastLeafIn spans inserted leaf ∧ focus.block_path = leaf.path ∧
    slice? source ⟨leaf.source.start, min inserted.stop leaf.source.stop⟩ = some before ∧
    focus.caret_offset = utf16Len before

section Focus

variable {source : Text} {spans : SpanMap} {inserted : Range}

/-- The caret of a leaf that a range lies in. -/
theorem insertedEditableFocus_ok {leaf : BlockSpan} (boundary : IsBoundary source inserted.stop)
    (sliceable : (slice? source leaf.source).isSome) (overlaps : overlapsLeaf inserted leaf = true) :
    ∃ before, slice? source ⟨leaf.source.start, min inserted.stop leaf.source.stop⟩ = some before ∧
      insertedEditableFocus source leaf inserted = .ok ⟨leaf.path, utf16Len before⟩ := by
  unfold overlapsLeaf at overlaps
  simp only [Bool.and_eq_true, decide_eq_true_eq] at overlaps
  have ordered := (slice?_isSome_iff.mp sliceable).1
  have isEnd : clamp inserted.stop leaf.source.start leaf.source.stop =
      min inserted.stop leaf.source.stop := by
    apply Nat.max_eq_right
    exact Nat.le_min.mpr ⟨overlaps.2.1.le, ordered⟩
  rcases Option.isSome_iff_exists.mp (slice?_clamp_isSome boundary sliceable) with ⟨before, sliced⟩
  rw [isEnd] at sliced
  refine ⟨before, sliced, ?_⟩
  unfold insertedEditableFocus getOr
  rw [isEnd]
  dsimp only
  rw [sliced]
  rfl

variable (boundary : IsBoundary source inserted.stop)
  (sliceable : ∀ block ∈ spans.blocks, (slice? source block.source).isSome)

include boundary sliceable

theorem finalEditableLeafOverlapping_exact
    (created : ∃ leaf ∈ spans.blocks, overlapsLeaf inserted leaf = true) :
    ∃ focus, finalEditableLeafOverlapping source spans inserted = .ok focus ∧
      focus.Exact source spans inserted := by
  unfold finalEditableLeafOverlapping
  cases found : lastMax? sourceOrder (spans.blocks.filter (overlapsLeaf inserted)) with
  | none =>
    rcases created with ⟨leaf, mem, overlaps⟩
    have inNil := List.mem_filter.mpr ⟨mem, overlaps⟩
    rw [lastMax?_eq_none_iff.mp found] at inNil
    cases inNil
  | some leaf =>
    rcases lastMax?_spec found with ⟨mem, bound⟩
    rcases List.mem_filter.mp mem with ⟨mem, overlaps⟩
    rcases insertedEditableFocus_ok boundary (sliceable leaf mem) overlaps with
      ⟨before, sliced, focused⟩
    refine ⟨_, focused, leaf, before, ⟨mem, overlaps, ?_⟩, rfl, sliced, rfl⟩
    intro other mem' overlaps'
    exact bound other (List.mem_filter.mpr ⟨mem', overlaps'⟩)

/-- A continuation focuses the last leaf if that is no empty item. -/
theorem finalEditableLeafInsertedUnder_exact_iff (ast : List AstNode) (parent_path : BlockPath) :
    (∃ focus, finalEditableLeafInsertedUnder source ⟨ast, spans⟩ parent_path inserted = .ok focus ∧
        focus.Exact source spans inserted) ↔
      ∃ leaf, LastLeafIn spans inserted leaf ∧ isEmptyItem ast leaf.path = false := by
  unfold finalEditableLeafInsertedUnder
  have mem_iff (leaf : BlockSpan) : leaf ∈ spans.blocks.filter (fun block =>
      overlapsLeaf inserted block && !isEmptyItem ast block.path) ↔
        leaf ∈ spans.blocks ∧ overlapsLeaf inserted leaf = true ∧
          isEmptyItem ast leaf.path = false := by
    rw [List.mem_filter, Bool.and_eq_true, Bool.not_eq_true']
  cases found : lastMax? sourceOrder (spans.blocks.filter fun block =>
      overlapsLeaf inserted block && !isEmptyItem ast block.path) with
  | none =>
    constructor
    · intro focused
      rcases focused with ⟨focus, wrong, -⟩
      cases wrong
    · intro created
      rcases created with ⟨leaf, isLast, filled⟩
      have inNil := (mem_iff leaf).mpr ⟨isLast.mem, isLast.overlaps, filled⟩
      rw [lastMax?_eq_none_iff.mp found] at inNil
      cases inNil
  | some leaf =>
    rcases lastMax?_spec found with ⟨mem, bound⟩
    rcases (mem_iff leaf).mp mem with ⟨mem, overlaps, filled⟩
    rcases insertedEditableFocus_ok boundary (sliceable leaf mem) overlaps with
      ⟨before, sliced, focused⟩
    constructor
    · intro exact_
      rcases exact_ with ⟨focus, focused', other, -, isLast, isPath, -, -⟩
      refine ⟨other, isLast, ?_⟩
      have same := Except.ok.inj (focused.symm.trans focused')
      rw [← isPath, ← same]
      exact filled
    · intro created
      rcases created with ⟨other, isLast, filled'⟩
      refine ⟨_, focused, leaf, before, ⟨mem, overlaps, ?_⟩, rfl, sliced, rfl⟩
      intro block mem' overlaps'
      apply le_trans (isLast.last block mem' overlaps')
      exact bound other ((mem_iff other).mpr ⟨isLast.mem, isLast.overlaps, filled'⟩)

end Focus

/-! ## Continuations -/

variable {source new_source : Text} {seam : Seam} {ast : List AstNode}

theorem Seam.Fills.boundary {before after working : Text}
    (fills : seam.Fills working source new_source before after) :
    IsBoundary new_source (seam.place source).stop := by
  have sliced := fills.slice_place
  exact (slice?_isSome_iff.mp (Option.isSome_iff_exists.mpr ⟨source, sliced⟩)).2.2

/-- The seam that a path has in a session, and the text with the seam filled. -/
def Session.ContinuesAt (env : Surroundings) (session : Session) (block_path : BlockPath)
    (source : Text) (seam : Seam) (new_source : Text) : Prop :=
  ∃ continuation before after, session.continuation env block_path = .ok continuation ∧
    continuation.seam session.source (env.parse session.source).spans source = .ok seam ∧
    seam.Fills session.source source new_source before after

/-- Some leaf of a text lies in a range of it. -/
def CreatesLeaf (env : Surroundings) (new_source : Text) (inserted : Range) : Prop :=
  ∃ leaf ∈ (env.parse new_source).spans.blocks, overlapsLeaf inserted leaf = true

/-- A continuation that leaves the text filled, records the place of the text of the caller, and
focuses the end of it. -/
def Session.ContinuesExactly (env : Surroundings) (session : Session) (block_path : BlockPath)
    (source new_source : Text) (place : Range) (ast : List AstNode) : Prop :=
  ∃ focus_parent focus,
    continuing block_path source session.source (env.parse session.source) session.spans =
      .ok (new_source, ⟨focus_parent, place⟩) ∧
    continueBlockAfter env session block_path source =
      (.ok focus, session.install new_source (env.parse new_source).spans ast) ∧
    focus.Exact new_source (env.parse new_source).spans place

theorem Session.ContinuesAt.edit (at_ : session.ContinuesAt env block_path source seam new_source) :
    ∃ focus_parent,
      continuing block_path source session.source (env.parse session.source) session.spans =
        .ok (new_source, ⟨focus_parent, seam.recorded source⟩) := by
  rcases at_ with ⟨continuation, before, after, isContinuation, isSeam, fills⟩
  refine ⟨continuation.focusParent, ?_⟩
  unfold Session.continuation at isContinuation
  unfold continuing
  rw [isContinuation]
  dsimp only [bind, Except.bind]
  rw [continueAs_eq, isSeam]
  dsimp only [bind, Except.bind]
  rw [fills.splice]
  rfl

/-- A continuation is exact unless it puts line endings after the text, or the last leaf of the
text is an item that holds nothing. -/
theorem continuesExactly_iff (lease : env.editLease = .ok ()) (editable : session.Editable)
    (at_ : session.ContinuesAt env block_path source seam new_source)
    (links : env.resolveLinks (env.parse new_source).ast = .ok ast)
    (drafted : env.writeDraft new_source (session.edit_seq + 1) = .ok ()) :
    session.ContinuesExactly env block_path source new_source (seam.place source) ast ↔
      seam.trail = [] ∧ ∃ leaf, LastLeafIn (env.parse new_source).spans (seam.place source) leaf ∧
        isEmptyItem (env.parse new_source).ast leaf.path = false := by
  rcases at_.edit with ⟨focus_parent, edited⟩
  have boundary : IsBoundary new_source (seam.place source).stop := by
    rcases at_ with ⟨-, before, after, -, -, fills⟩
    exact fills.boundary
  have focused := finalEditableLeafInsertedUnder_exact_iff boundary
    (fun block => env.parse_sliceable) ast focus_parent
  simp only [isEmptyItem_resolved links] at focused
  rw [← focused]
  constructor
  · intro exact_
    rcases exact_ with ⟨focus_parent', focus, edited', answered, isExact⟩
    rcases Prod.mk.inj (Except.ok.inj (edited.symm.trans edited')) with ⟨-, result⟩
    have isPlace : seam.recorded source = seam.place source :=
      congrArg ContinuationResult.inserted result
    refine ⟨Seam.recorded_eq_place_iff.mp isPlace, focus, ?_, isExact⟩
    have done : (structuralEditWithResult env session (continuing block_path source)
        focusContinuation).1 = .ok focus := congrArg Prod.fst answered
    rcases structuralEdit_ok done with ⟨-, -, new, change, ast', edited'', links', derived, left⟩
    rcases Prod.mk.inj (Except.ok.inj (edited.symm.trans edited'')) with ⟨isNew, isChange⟩
    rw [← isChange, ← isNew, isPlace] at derived
    rw [← isNew, links] at links'
    rw [← Except.ok.inj links'] at derived
    exact derived
  · intro focused_
    rcases focused_ with ⟨noTrail, focus, derived, isExact⟩
    rw [Seam.recorded_eq_place_iff.mpr noTrail] at edited
    exact ⟨focus_parent, focus, edited,
      structuralEdit_installed lease editable edited links derived drafted, isExact⟩

/-! ## Slots -/

/-- A slot of a text, as the edit that left the text returned it. -/
structure StructuralEditInsertionSlot.Issued (env : Surroundings)
    (slot : StructuralEditInsertionSlot) (working : Text) : Prop where
  note_id_eq : slot.note_id = env.note_id
  fingerprint_eq : slot.source_fingerprint = env.contentHash working
  boundary : IsBoundary working slot.source_offset

def Session.MaterializesExactly (env : Surroundings) (session : Session)
    (slot : StructuralEditInsertionSlot) (source new_source : Text) (place : Range)
    (ast : List AstNode) : Prop :=
  ∃ focus,
    materializing env slot source session.source (env.parse session.source) session.spans =
      .ok (new_source, place) ∧
    continueBlockAtInsertionSlot env session slot source =
      (.ok focus, session.install new_source (env.parse new_source).spans ast) ∧
    focus.Exact new_source (env.parse new_source).spans place

variable {slot : StructuralEditInsertionSlot}

theorem materializing_ok {before after : Text} (issued : slot.Issued env session.source)
    (fills : (slot.seam session.source before after source).Fills session.source source new_source
      before after) :
    materializing env slot source session.source (env.parse session.source) session.spans =
      .ok (new_source, (slot.seam session.source before after source).place source) := by
  have isBefore : beforeOr session.source slot.source_offset = .ok before := fills.before_eq
  have isAfter : afterOr session.source slot.source_offset = .ok after := fills.after_eq
  have spliced := fills.splice
  unfold materializing
  rw [if_neg (not_not.mpr issued.note_id_eq), if_neg (not_not.mpr issued.fingerprint_eq)]
  dsimp only
  rw [if_neg (not_not.mpr issued.boundary), isBefore]
  dsimp only [bind, Except.bind]
  rw [isAfter]
  dsimp only
  unfold StructuralEditInsertionSlot.seam at spliced
  dsimp only at spliced
  rw [spliced]
  rfl

/-- A text put into a slot is always focused exactly. -/
theorem materializesExactly (lease : env.editLease = .ok ()) (editable : session.Editable)
    {before after : Text} (issued : slot.Issued env session.source)
    (fills : (slot.seam session.source before after source).Fills session.source source new_source
      before after)
    (created : CreatesLeaf env new_source
      ((slot.seam session.source before after source).place source))
    (links : env.resolveLinks (env.parse new_source).ast = .ok ast)
    (drafted : env.writeDraft new_source (session.edit_seq + 1) = .ok ()) :
    session.MaterializesExactly env slot source new_source
      ((slot.seam session.source before after source).place source) ast := by
  have edited := materializing_ok issued fills
  rcases finalEditableLeafOverlapping_exact fills.boundary (fun block => env.parse_sliceable)
    created with ⟨focus, derived, isExact⟩
  exact ⟨focus, edited, structuralEdit_installed lease editable edited links derived drafted,
    isExact⟩

theorem removeField_slot {working : Text} {live : ParsedNote} {retained_spans : SpanMap}
    {retained : BlockSpan} {location : StructuralEditLocation}
    (removed : removeField working live retained_spans block_path retained =
      .ok (new_source, location)) :
    ∃ slot, location = .phantom slot ∧ IsBoundary new_source slot.source_offset := by
  unfold removeField at removed
  rcases bind_eq_ok.mp removed with ⟨live_path, -, removed⟩
  rcases bind_eq_ok.mp removed with ⟨ line_prefix, -, removed⟩
  rcases bind_eq_ok.mp removed with ⟨after, -, removed⟩
  rcases bind_eq_ok.mp removed with ⟨part, -, removed⟩
  rcases bind_eq_ok.mp removed with ⟨replacement, -, removed⟩
  rcases bind_eq_ok.mp removed with ⟨spliced, isSpliced, removed⟩
  rcases Prod.mk.inj (Except.ok.inj removed) with ⟨isNew, isLocation⟩
  rcases splice?_eq_some_iff.mp (spliceOr_eq_ok.mp isSpliced) with
    ⟨before, old, rest, -, start, -, isText⟩
  refine ⟨_, isLocation.symm, isBoundary_iff.mpr ⟨before, replacement ++ rest, ?_, ?_⟩⟩
  · rw [← isNew, isText, List.append_assoc]
  · rw [start]
    split_ifs
    all_goals rfl

theorem removeAndSplit_block {working editor_source : Text} {retained_spans : SpanMap}
    {retained : BlockSpan} {selection_base selection_start selection_end : Nat}
    {location : StructuralEditLocation}
    (removed : removeAndSplit env working retained_spans block_path retained editor_source
      selection_base selection_start selection_end = .ok (new_source, location)) :
    ∃ focus, location = .block focus := by
  unfold removeAndSplit at removed
  rcases bind_eq_ok.mp removed with ⟨replaced_editor_source, -, removed⟩
  cases edited : retained_spans.applyBufferedEdit block_path (byteLen replaced_editor_source) with
  | none =>
    rw [edited] at removed
    cases removed
  | some edit =>
    rw [edited] at removed
    dsimp only at removed
    cases found : edit.2.block block_path with
    | none =>
      rw [found] at removed
      cases removed
    | some replaced =>
      rw [found] at removed
      rcases bind_eq_ok.mp removed with ⟨source_with_replacement, -, removed⟩
      rcases bind_eq_ok.mp removed with ⟨⟨split_source, focus⟩, -, removed⟩
      exact ⟨focus, (Prod.mk.inj (Except.ok.inj removed)).2.symm⟩

/-- A slot is an offset of the text that the edit leaves. -/
theorem replacingSelection_slot {editor_source working : Text} {live : ParsedNote}
    {retained_spans : SpanMap} {selection_base selection_extent : Nat}
    (edited : replacingSelection env block_path editor_source selection_base selection_extent
      working live retained_spans = .ok (new_source, .phantom slot)) :
    IsBoundary new_source slot.source_offset := by
  unfold replacingSelection at edited
  cases found : retained_spans.block block_path with
  | none =>
    rw [found] at edited
    cases edited
  | some retained =>
    rw [found] at edited
    dsimp only at edited
    cases leaf : retained.isLeaf with
    | false =>
      rw [leaf] at edited
      cases edited
    | true =>
      rw [leaf, Bool.not_true, if_neg Bool.false_ne_true] at edited
      cases isBase : toByteOffset? editor_source selection_base with
      | none =>
        rw [isBase] at edited
        cases edited
      | some base =>
        rw [isBase] at edited
        dsimp only at edited
        cases isExtent : toByteOffset? editor_source selection_extent with
        | none =>
          rw [isExtent] at edited
          cases edited
        | some extent =>
          rw [isExtent] at edited
          dsimp only at edited
          by_cases collapsed : base = extent
          · rw [if_pos collapsed] at edited
            cases edited
          · rw [if_neg collapsed] at edited
            by_cases whole : min base extent = 0 ∧ max base extent = byteLen editor_source
            · rw [if_pos whole] at edited
              rcases removeField_slot edited with ⟨issued, same, boundary⟩
              rw [StructuralEditLocation.phantom.inj same]
              exact boundary
            · rw [if_neg whole] at edited
              rcases removeAndSplit_block edited with ⟨focus, wrong⟩
              cases wrong

/-- A slot comes with the text that it is a slot of. -/
theorem replaceSelection_issues {editor_source : Text} {selection_base selection_extent : Nat}
    {left : Session}
    (done : replaceSelectionAndSplitBlockFromEditorSource env session block_path editor_source
      selection_base selection_extent = (.ok (.phantom slot), left)) :
    slot.Issued env left.source := by
  rcases structuralEdit_ok (congrArg Prod.fst done) with
    ⟨-, -, new_source, change, ast, edited, -, derived, installed⟩
  have isLeft := (congrArg Prod.snd done).symm.trans (congrArg Prod.snd installed)
  have isSource : left.source = new_source := congrArg Session.source isLeft
  cases change with
  | block focus => cases derived
  | phantom issued =>
    have isSlot := (StructuralEditLocation.phantom.inj (Except.ok.inj derived)).symm
    rw [isSlot, isSource]
    have boundary : IsBoundary new_source issued.source_offset := replacingSelection_slot edited
    exact ⟨rfl, rfl, boundary⟩

/-! ## Both continuations -/

/-- After a leaf, a continuation is exact if and only if no line ending follows its text and the
text does not end in an item that holds nothing. In a slot it always is. -/
theorem continuation_exact_iff (lease : env.editLease = .ok ()) (editable : session.Editable)
    (source : Text) :
    (∀ block_path, session.Continues env block_path → ∃ seam new_source,
      session.ContinuesAt env block_path source seam new_source ∧
      ∀ ast, CreatesLeaf env new_source (seam.place source) →
        env.resolveLinks (env.parse new_source).ast = .ok ast →
        env.writeDraft new_source (session.edit_seq + 1) = .ok () →
        (session.ContinuesExactly env block_path source new_source (seam.place source) ast ↔
          seam.trail = [] ∧ ∃ leaf,
            LastLeafIn (env.parse new_source).spans (seam.place source) leaf ∧
              isEmptyItem (env.parse new_source).ast leaf.path = false)) ∧
    ∀ slot : StructuralEditInsertionSlot, slot.Issued env session.source →
      ∃ before after new_source,
        (slot.seam session.source before after source).Fills session.source source new_source
          before after ∧
        ∀ ast, CreatesLeaf env new_source
            ((slot.seam session.source before after source).place source) →
          env.resolveLinks (env.parse new_source).ast = .ok ast →
          env.writeDraft new_source (session.edit_seq + 1) = .ok () →
          session.MaterializesExactly env slot source new_source
            ((slot.seam session.source before after source).place source) ast := by
  constructor
  · intro block_path continues
    rcases continues.seam source with
      ⟨continuation, seam, new_source, before, after, isContinuation, isSeam, fills⟩
    have at_ : session.ContinuesAt env block_path source seam new_source :=
      ⟨continuation, before, after, isContinuation, isSeam, fills⟩
    refine ⟨seam, new_source, at_, ?_⟩
    intro ast _ links drafted
    exact continuesExactly_iff lease editable at_ links drafted
  · intro slot issued
    rcases isBoundary_iff.mp issued.boundary with ⟨before, after, whole, offset⟩
    have fills : (slot.seam session.source before after source).Fills session.source source _
        before after := ⟨whole, offset, rfl⟩
    refine ⟨before, after, _, fills, ?_⟩
    intro ast created links drafted
    exact materializesExactly lease editable issued fills created links drafted

theorem continuation_exact_iff_plain :
    ∃ seam new_source,
      (plainSession "A\n".toList).ContinuesAt plainNote [0] "x\n".toList seam new_source ∧
      ∀ ast, CreatesLeaf plainNote new_source (seam.place "x\n".toList) →
        plainNote.resolveLinks (plainNote.parse new_source).ast = .ok ast →
        ((plainSession "A\n".toList).ContinuesExactly plainNote [0] "x\n".toList new_source
            (seam.place "x\n".toList) ast ↔
          seam.trail = [] ∧ ∃ leaf,
            LastLeafIn (plainNote.parse new_source).spans (seam.place "x\n".toList) leaf ∧
              isEmptyItem (plainNote.parse new_source).ast leaf.path = false) := by
  have continues : (plainSession "A\n".toList).Continues plainNote [0] :=
    .inr ⟨[0], rfl⟩
  rcases (continuation_exact_iff rfl (plainSession_fresh _).toEditable _).1 [0] continues
    with ⟨seam, new_source, at_, exact_iff⟩
  refine ⟨seam, new_source, at_, ?_⟩
  intro ast created links
  exact exact_iff ast created links rfl

/-- `x` after `A` lies at the fourth byte, is recorded at the fifth, and leaves the caret behind
the line ending after it. -/
theorem continuation_recorded_late :
    continuing [0] "x".toList "A\n".toList (plainNote.parse "A\n".toList)
        (plainSession "A\n".toList).spans = .ok ("A\n\nx\n".toList, ⟨[1], ⟨4, 5⟩⟩) ∧
      slice? "A\n\nx\n".toList ⟨3, 4⟩ = some "x".toList ∧
      (continueBlockAfter plainNote (plainSession "A\n".toList) [0] "x".toList).1 =
        .ok ⟨[1], 2⟩ ∧
      ∀ ast, ¬ (plainSession "A\n".toList).ContinuesExactly plainNote [0] "x".toList
        "A\n\nx\n".toList ⟨3, 4⟩ ast := by
  have edited : continuing [0] "x".toList "A\n".toList (plainNote.parse "A\n".toList)
      (plainSession "A\n".toList).spans = .ok ("A\n\nx\n".toList, ⟨[1], ⟨4, 5⟩⟩) := rfl
  refine ⟨edited, rfl, rfl, ?_⟩
  intro ast exact_
  rcases exact_ with ⟨focus_parent, focus, edited', -, -⟩
  rcases Prod.mk.inj (Except.ok.inj (edited.symm.trans edited')) with ⟨-, result⟩
  have late : (⟨4, 5⟩ : Range) = ⟨3, 4⟩ := congrArg ContinuationResult.inserted result
  cases late

end Burlmd.Editor
