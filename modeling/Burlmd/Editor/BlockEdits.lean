import Burlmd.Editor.Addresses
import Burlmd.Editor.Seams
import Burlmd.Editor.Splice
import Burlmd.Library.Utf16
import Mathlib.Data.Prod.Lex

/-!
# Block edits

A Block is inserted, deleted, split in two or merged with the one before it by one splice of the
text. What the caller focuses afterwards is looked up in the parse of the new text.
-/

namespace Burlmd.Editor

open Extremum
open Lifecycle (newlineStyle)
open Markdown
open Utf16
open Utf8

variable (env : Surroundings)

/-- A focused Block, with the caret in UTF-16 units of its text. -/
structure Focus where
  block_path : BlockPath
  caret_offset : Nat
  deriving DecidableEq, Repr

/-! ## Insertion -/

def insertText (source : Text) (before working : Text) (required_after : Nat) : Text :=
  separatorBefore before BLOCK_SEPARATOR_NEWLINES ++ source ++
    repeatText (seamNewline before working) (required_after - trailingNewlines source)

def inserting (block_path : BlockPath) (source : Text) : Edit Unit := fun working live _ => do
  let target := live.spans.block block_path
  -- A path that addresses nothing appends, where no Block follows.
  let required_after := if target.isSome then BLOCK_SEPARATOR_NEWLINES else 1
  let start := (target.map fun block => block.source.start).getD (byteLen working)
  let before ← beforeOr working start
  let new_source ← spliceOr working ⟨start, start⟩ (insertText source before working required_after)
  return (new_source, ())

def insertBlock (session : Session) (block_path : BlockPath) (source : Text) :
    Except AppError Unit × Session :=
  structuralEdit env session (inserting block_path source)

/-! ## Continuation -/

structure ContinuationResult where
  focus_parent : BlockPath
  inserted : Range
  deriving DecidableEq, Repr

inductive Continuation where
  | list (marker : Text) (leaf_path list_path : BlockPath) (item_index : Nat)
  | independent (top_level_path : BlockPath)
  | emptyNote
  deriving DecidableEq, Repr

def continuationOf (working : Text) (live : ParsedNote) (retained_spans : SpanMap)
    (block_path : BlockPath) : Except AppError Continuation :=
  if live.spans.blocks = [] ∧ block_path = [0] then return .emptyNote
  else do
    let live_path ← editableLivePath live.spans retained_spans block_path
    match live.spans.block live_path with
    | none => .error (noBlock live_path)
    | some leaf =>
        if !leaf.isLeaf then .error (notEditable live_path)
        else
          match nearestListItem live.ast live_path with
          | some (list_path, item_index) => do
              let marker ← linePrefixBefore working leaf.source.start
              return .list marker live_path list_path item_index
          | none => return .independent (live_path.take 1)

/-- A sibling item on the next line, with the marker of this one. -/
def continueList (working : Text) (live : ParsedNote) (source marker : Text)
    (leaf_path list_path : BlockPath) (item_index : Nat) :
    Except AppError (Text × ContinuationResult) := do
  let span ← blockSpan live.spans leaf_path
  let start := span.stop
  let newline := newlineStyle working
  let new_source ← spliceOr working ⟨start, start⟩ (newline ++ marker ++ source)
  let content_start := start + (byteLen newline + byteLen marker)
  return (new_source, ⟨list_path ++ [item_index + 1],
    ⟨content_start, content_start + byteLen source⟩⟩)

/-- A Block of its own after the whole top-level Block. -/
def continueIndependent (working : Text) (live : ParsedNote) (source : Text)
    (top_level_path : BlockPath) : Except AppError (Text × ContinuationResult) := do
  let span ← blockSpan live.spans top_level_path
  let start := span.stop
  let before ← beforeOr working start
  let after ← afterOr working start
  let required_after := if after = [] then 1 else BLOCK_SEPARATOR_NEWLINES
  let text := separatorBefore before BLOCK_SEPARATOR_NEWLINES ++ source ++
    repeatText (seamNewline before working)
      (required_after - (trailingNewlines source + leadingNewlines after))
  let content_start := start + (byteLen text - byteLen source)
  let new_source ← spliceOr working ⟨start, start⟩ text
  return (new_source, ⟨[top_level_path.headD 0 + 1],
    ⟨content_start, content_start + byteLen source⟩⟩)

/-- The first Block of a Note that shows none, behind all that it holds. -/
def continueEmptyNote (working source : Text) : Except AppError (Text × ContinuationResult) := do
  let text := separatorBefore working BLOCK_SEPARATOR_NEWLINES ++ source ++
    repeatText (newlineStyle working) (1 - trailingNewlines source)
  let content_start := byteLen working + (byteLen text - byteLen source)
  let new_source ← spliceOr working ⟨byteLen working, byteLen working⟩ text
  return (new_source, ⟨[0], ⟨content_start, content_start + byteLen source⟩⟩)

def continueAs (working : Text) (live : ParsedNote) (source : Text) :
    Continuation → Except AppError (Text × ContinuationResult)
  | .list marker leaf_path list_path item_index =>
      continueList working live source marker leaf_path list_path item_index
  | .independent top_level_path => continueIndependent working live source top_level_path
  | .emptyNote => continueEmptyNote working source

def continuing (block_path : BlockPath) (source : Text) : Edit ContinuationResult :=
  fun working live retained_spans => do
    let continuation ← continuationOf working live retained_spans block_path
    continueAs working live source continuation

/-- A leaf that some of a range lies in. -/
def overlapsLeaf (inserted : Range) (block : BlockSpan) : Bool :=
  block.isLeaf && (block.source.start < inserted.stop && inserted.start < block.source.stop)

/-- By their starts, and by their ends where they start together. -/
def sourceOrder (block : BlockSpan) : ℕ ×ₗ ℕ := toLex (block.source.start, block.source.stop)

def insertedEditableFocus (source : Text) (block : BlockSpan) (inserted : Range) :
    Except AppError Focus := do
  let caret_end := clamp inserted.stop block.source.start block.source.stop
  let field_prefix ← getOr
    (.parseError ("continued Block at ".toList ++ shownPath block.path ++
      " has an unaddressable focus offset".toList)) source ⟨block.source.start, caret_end⟩
  return ⟨block.path, utf16Len field_prefix⟩

def finalEditableLeafInsertedUnder (source : Text) (parsed : ParsedNote) (parent_path : BlockPath)
    (inserted : Range) : Except AppError Focus :=
  match lastMax? sourceOrder (parsed.spans.blocks.filter fun block =>
      overlapsLeaf inserted block && !isEmptyItem parsed.ast block.path) with
  | some block => insertedEditableFocus source block inserted
  | none =>
      .error (.parseError ("continued Block at ".toList ++ shownPath parent_path ++
        " created no editable leaf".toList))

def finalEditableLeafOverlapping (source : Text) (spans : SpanMap) (inserted : Range) :
    Except AppError Focus :=
  match lastMax? sourceOrder (spans.blocks.filter (overlapsLeaf inserted)) with
  | some block => insertedEditableFocus source block inserted
  | none =>
      .error (.parseError
        "materializing the phantom insertion slot created no editable leaf".toList)

def focusContinuation : Derivation ContinuationResult Focus := fun working parsed result =>
  finalEditableLeafInsertedUnder working parsed result.focus_parent result.inserted

def continueBlockAfter (session : Session) (block_path : BlockPath) (source : Text) :
    Except AppError Focus × Session :=
  structuralEditWithResult env session (continuing block_path source) focusContinuation

/-- Where the text of a field went that was selected as a whole, for its Note and text only. -/
structure StructuralEditInsertionSlot where
  source_offset : Nat
  line_prefix : Text
  required_after_newlines : Nat
  note_id : Okf.ConceptId
  source_fingerprint : Text
  deriving DecidableEq, Repr

def materializing (slot : StructuralEditInsertionSlot) (source : Text) : Edit Range :=
  fun working _ _ => do
    if slot.note_id ≠ env.note_id then
      .error (.parseError ("phantom insertion slot belongs to ".toList ++ slot.note_id ++
        ", not ".toList ++ env.note_id))
    if slot.source_fingerprint ≠ env.contentHash working then
      .error (.parseError ("phantom insertion slot is stale after an authoritative source " ++
        "change; retry from the current Note").toList)
    let start := slot.source_offset
    if ¬ IsBoundary working start then
      .error (.parseError ("phantom source offset ".toList ++ shown start ++
        " is not addressable in this Note".toList))
    let before ← beforeOr working start
    let after ← afterOr working start
    let content_start := start + byteLen slot.line_prefix
    let text := slot.line_prefix ++ source ++ repeatText (seamNewline before working)
      (slot.required_after_newlines - (trailingNewlines source + leadingNewlines after))
    let new_source ← spliceOr working ⟨start, start⟩ text
    return (new_source, ⟨content_start, content_start + byteLen source⟩)

def focusMaterialized : Derivation Range Focus := fun working parsed inserted =>
  finalEditableLeafOverlapping working parsed.spans inserted

def continueBlockAtInsertionSlot (session : Session) (slot : StructuralEditInsertionSlot)
    (source : Text) : Except AppError Focus × Session :=
  structuralEditWithResult env session (materializing env slot source) focusMaterialized

/-! ## Deletion -/

def deleteSpan (working : Text) (span : Range) : Except AppError (Text × Unit) := do
  let after := (startingAt? working span.stop).getD []
  let run_end := span.stop + newlineRunLen after
  let removed : Range :=
    -- The last Block takes the line endings before it, the others those after them.
    if (startingAt? working run_end).getD [] = [] then
      ⟨cutToOneTrailingNewline ((upTo? working span.start).getD []), span.stop⟩
    else ⟨span.start, run_end⟩
  checkSpan working removed
  let new_source ← spliceOr working removed
    (separatorAcross working removed.start removed.stop)
  return (new_source, ())

def deleting (block_path : BlockPath) : Edit Unit := fun working live retained_spans => do
  let live_path ← livePath live.spans retained_spans block_path
  let span ← blockSpan live.spans live_path
  deleteSpan working span

def deleteBlock (session : Session) (block_path : BlockPath) : Except AppError Unit × Session :=
  structuralEdit env session (deleting block_path)

/-! ## Splits -/

/-- The text with a blank line put in, and where the second half starts. -/
def splitAtOffset (working : Text) (start : Nat) : Except AppError (Text × Nat) := do
  let before ← beforeOr working start
  let separator := repeatText (seamNewline before working) 2
  let new_source ← spliceOr working ⟨start, start⟩ separator
  return (new_source, start + byteLen separator)

def splitOffsetRefused (offset : Nat) (path : BlockPath) : AppError :=
  .parseError ("split UTF-16 offset ".toList ++ shown offset ++
    " is not a character boundary in block_path ".toList ++ shownPath path)

def splitting (block_path : BlockPath) (offset : Nat) : Edit Unit :=
  fun working live retained_spans => do
    let live_path ← editableLivePath live.spans retained_spans block_path
    let span ← blockSpan live.spans live_path
    let block_source ← getOr (notAddressable span) working span
    match toByteOffset? block_source offset with
    | none => .error (splitOffsetRefused offset live_path)
    | some byte_offset => do
        let (new_source, _) ← splitAtOffset working (span.start + byte_offset)
        return (new_source, ())

def splitBlock (session : Session) (block_path : BlockPath) (offset : Nat) :
    Except AppError Unit × Session :=
  structuralEdit env session (splitting block_path offset)

/-- The first leaf that an offset is in or before. -/
def editableLeafAtOrAfterSourceOffset (source : Text) (spans : SpanMap) (source_offset : Nat) :
    Except AppError Focus :=
  match firstMin? (fun block => block.source.start) (spans.blocks.filter fun block =>
      block.isLeaf && ((block.source.start ≤ source_offset && source_offset < block.source.stop) ||
        source_offset ≤ block.source.start)) with
  | none =>
      .error (.parseError ("no editable leaf follows source offset ".toList ++
        shown source_offset ++ " after structural edit".toList))
  | some leaf => do
      let caret_source_offset := max source_offset leaf.source.start
      let before ← getOr
        (.parseError ("source offset ".toList ++ shown caret_source_offset ++
          " is not addressable in the resulting leaf".toList)) source
        ⟨leaf.source.start, caret_source_offset⟩
      return ⟨leaf.path, utf16Len before⟩

def outsideEditorSource (live_path block_path : BlockPath) : AppError :=
  .parseError ("live leaf ".toList ++ shownPath live_path ++
    " lies outside the editor source for block_path ".toList ++ shownPath block_path)

def outsideLeaf (what : Text) (offset : Nat) (path : BlockPath) : AppError :=
  .parseError (what ++ " UTF-16 offset ".toList ++ shown offset ++
    " is outside the current editable leaf for block_path ".toList ++ shownPath path)

/-- A split of a field whose region starts at `field_start`, at an offset into the field. -/
def splitField (working : Text) (live_spans field_spans : SpanMap) (block_path : BlockPath)
    (field_start editor_offset : Nat) (refused : AppError) : Except AppError (Text × Focus) := do
  let live_path ← editableLivePath live_spans field_spans block_path
  let span ← blockSpan live_spans live_path
  if span.start < field_start then .error (outsideEditorSource live_path block_path)
  if span.stop < field_start then .error (outsideEditorSource live_path block_path)
  if editor_offset < span.start - field_start ∨ span.stop - field_start < editor_offset then
    .error refused
  let (new_source, second) ←
    splitAtOffset working (span.start + (editor_offset - (span.start - field_start)))
  let focus ← editableLeafAtOrAfterSourceOffset new_source (env.parse new_source).spans second
  return (new_source, focus)

def splittingFromEditor (block_path : BlockPath) (editor_source : Text) (offset : Nat) :
    Edit Focus := fun working live retained_spans => do
  match retained_spans.block block_path with
  | none => .error (noBlock block_path)
  | some retained => do
      if !retained.isLeaf then .error (notEditable block_path)
      let retained_source ← getOr (notAddressable retained.source) working retained.source
      if retained_source ≠ editor_source then
        .error (.parseError ("editor source no longer matches block_path ".toList ++
          shownPath block_path ++ "; refusing stale split".toList))
      match toByteOffset? editor_source offset with
      | none => .error (splitOffsetRefused offset block_path)
      | some editor_byte_offset =>
          splitField env working live.spans retained_spans block_path retained.source.start
            editor_byte_offset (outsideLeaf "split".toList offset block_path)

def splitBlockFromEditorSource (session : Session) (block_path : BlockPath) (editor_source : Text)
    (offset : Nat) : Except AppError Focus × Session :=
  structuralEdit env session (splittingFromEditor env block_path editor_source offset)

/-! ## Selections -/

inductive StructuralEditLocation where
  | block (focus : Focus)
  | phantom (insertion_slot : StructuralEditInsertionSlot)
  deriving DecidableEq, Repr

def selectionRefused (offset : Nat) (path : BlockPath) : AppError :=
  .parseError ("selection UTF-16 offset ".toList ++ shown offset ++
    " is not a character boundary in block_path ".toList ++ shownPath path)

def fieldEnd (working : Text) (field : Range) : Except AppError Text :=
  match startingAt? working field.stop with
  | some after => .ok after
  | none => .error (notAddressable field)

/-- Nothing, or the line ending that a marker keeps. -/
def fieldReplacement (working : Text) (delete_start : Nat) (whole_line : Bool) :
    Except AppError Text :=
  if whole_line then .ok []
  else (beforeOr working delete_start).map fun before => seamNewline before working

/-- A whole field is removed, with its line where nothing else is on it. -/
def removeField (working : Text) (live : ParsedNote) (retained_spans : SpanMap)
    (block_path : BlockPath) (retained : BlockSpan) :
    Except AppError (Text × StructuralEditLocation) := do
  let live_path ← editableLivePath live.spans retained_spans block_path
  let line_prefix ← linePrefixBefore working retained.source.start
  let removes_structural_line :=
    line_prefix ≠ [] && removableStructuralLine live.ast live_path
  let delete_start :=
    if removes_structural_line then retained.source.start - byteLen line_prefix
    else retained.source.start
  let after ← fieldEnd working retained.source
  let stop := retained.source.stop + newlineRunLen after
  let removed ← getOr
    (.parseError ("selected field range ".toList ++ shown delete_start ++ "..".toList ++
      shown stop ++ " is not addressable in this Note".toList)) working ⟨delete_start, stop⟩
  let insertion_slot : StructuralEditInsertionSlot :=
    if removes_structural_line || line_prefix = [] then
      { source_offset := delete_start
        line_prefix := if removes_structural_line then line_prefix else []
        required_after_newlines := max (trailingNewlines removed) 1
        note_id := []
        source_fingerprint := [] }
    else
      { source_offset := delete_start
        line_prefix := []
        required_after_newlines := 0
        note_id := []
        source_fingerprint := [] }
  let replacement ← fieldReplacement working delete_start
    (removes_structural_line || line_prefix = [])
  let new_source ← spliceOr working ⟨delete_start, stop⟩ replacement
  return (new_source, .phantom insertion_slot)

def withoutSelection (editor_source : Text) (selection_start selection_end : Nat) :
    Except AppError Text :=
  match upTo? editor_source selection_start, startingAt? editor_source selection_end with
  | some before, some after => .ok (before ++ after)
  | _, _ => .error (.parseError "selection is not addressable in editor source".toList)

/-- A part of a field is removed, and the rest is split where it was. -/
def removeAndSplit (working : Text) (retained_spans : SpanMap) (block_path : BlockPath)
    (retained : BlockSpan) (editor_source : Text) (selection_base selection_start selection_end :
      Nat) : Except AppError (Text × StructuralEditLocation) := do
  let replaced_editor_source ← withoutSelection editor_source selection_start selection_end
  match retained_spans.applyBufferedEdit block_path (byteLen replaced_editor_source) with
  | none =>
      .error (.parseError ("block_path ".toList ++ shownPath block_path ++
        (" addresses a container Block, whose child spans a buffered edit cannot " ++
          "maintain").toList))
  | some (_, replaced_spans) =>
      match replaced_spans.block block_path with
      | none => .error (noBlock block_path)
      | some replaced => do
          let source_with_replacement ← spliceOr working retained.source replaced_editor_source
          let (new_source, focus) ← splitField env source_with_replacement
            (env.parse source_with_replacement).spans replaced_spans block_path
            replaced.source.start selection_start
            (outsideLeaf "selection".toList selection_base block_path)
          return (new_source, .block focus)

def replacingSelection (block_path : BlockPath) (editor_source : Text)
    (selection_base selection_extent : Nat) : Edit StructuralEditLocation :=
  fun working live retained_spans => do
    match retained_spans.block block_path with
    | none => .error (noBlock block_path)
    | some retained => do
        if !retained.isLeaf then .error (notEditable block_path)
        match toByteOffset? editor_source selection_base with
        | none => .error (selectionRefused selection_base block_path)
        | some base =>
            match toByteOffset? editor_source selection_extent with
            | none => .error (selectionRefused selection_extent block_path)
            | some extent =>
                if base = extent then
                  .error (.parseError
                    "replace-selection split requires a non-collapsed selection".toList)
                else if min base extent = 0 ∧ max base extent = byteLen editor_source then
                  removeField working live retained_spans block_path retained
                else
                  removeAndSplit env working retained_spans block_path retained editor_source
                    selection_base (min base extent) (max base extent)

/-- A slot is bound to the Note and to the text that it is a slot of. -/
def bindSlot : Derivation StructuralEditLocation StructuralEditLocation :=
  fun source _ location =>
    match location with
    | .block focus => .ok (.block focus)
    | .phantom insertion_slot =>
        .ok (.phantom { insertion_slot with
          note_id := env.note_id
          source_fingerprint := env.contentHash source })

def replaceSelectionAndSplitBlockFromEditorSource (session : Session) (block_path : BlockPath)
    (editor_source : Text) (selection_base selection_extent : Nat) :
    Except AppError StructuralEditLocation × Session :=
  structuralEditWithResult env session
    (replacingSelection env block_path editor_source selection_base selection_extent)
    (bindSlot env)

/-! ## Merges -/

def trimNewlines (text : Text) : Text := (text.reverse.dropWhile isLineEnding).reverse

def sourceCaretBeforeTrailingNewline (source : Text) : Nat := utf16Len (trimNewlines source)

def splitWhitespace (text : Text) : List Text :=
  (text.splitOnP isWhiteSpace).filter (· ≠ [])

/-- A text on one line, cut to a number of characters. -/
def elided (text : Text) (limit : Nat) : Text :=
  let one_line := [' '].intercalate (splitWhitespace text)
  if limit < one_line.length then one_line.take limit ++ "…".toList else one_line

def removeGap (working : Text) (gap : Range) (previous_leaf : BlockSpan) :
    Except AppError (Text × Focus) := do
  let previous_source ← getOr (notAddressable previous_leaf.source) working previous_leaf.source
  let new_source ← spliceOr working gap []
  return (new_source, ⟨previous_leaf.path, sourceCaretBeforeTrailingNewline previous_source⟩)

/-- The merge over a seam that is one line ending and the marker of the line, where it is one. -/
def mergeOverMarker (working : Text) (previous_leaf : BlockSpan) (span : Range) :
    Except AppError (Option (Text × Focus)) := do
  let line_prefix ← linePrefixBefore working span.start
  let gap_range : Range := ⟨previous_leaf.source.stop, span.start⟩
  let gap ← getOr (notAddressable gap_range) working gap_range
  if gap = newlineStyle working ++ line_prefix then
    let merged ← removeGap working gap_range previous_leaf
    return some merged
  else return none

def leafOr (leaf : Option BlockSpan) (missing : Text) : Except AppError BlockSpan :=
  match leaf with
  | some leaf => .ok leaf
  | none => .error (.parseError missing)

def noItemLeaf (item_path : BlockPath) : Text :=
  "ListItem at block_path ".toList ++ shownPath item_path ++ " has no editable leaf".toList

/-- The merge of the first leaf of an item into the item before it. -/
def mergeItem (working : Text) (live : ParsedNote) (live_path : BlockPath) (span : Range) :
    Except AppError (Option (Text × Focus)) :=
  match nearestListItem live.ast live_path with
  | none => .ok none
  | some (list_path, item_index) => do
      let item_path := list_path ++ [item_index]
      let first_item_leaf ← leafOr (firstEditableLeaf live.spans item_path) (noItemLeaf item_path)
      if 0 < item_index ∧ first_item_leaf.path = live_path then
        let previous_item_path := list_path ++ [item_index - 1]
        let previous_leaf ← leafOr (lastEditableLeaf live.spans previous_item_path)
          (noItemLeaf previous_item_path)
        mergeOverMarker working previous_leaf span
      else return none

def isListOrBlockquote : Option AstNode → Bool
  | some (.list ..) | some (.blockquote _) => true
  | _ => false

/-- The merge of the first leaf of a List or a Blockquote into the Block before it. -/
def mergeContainer (working : Text) (live : ParsedNote) (live_path : BlockPath) (span : Range) :
    Except AppError (Option (Text × Focus)) :=
  match live_path.head? with
  | none => .ok none
  | some top_level_index =>
      if 0 < top_level_index ∧ isListOrBlockquote live.ast[top_level_index]? ∧
          (firstEditableLeaf live.spans [top_level_index]).map BlockSpan.path = some live_path then
        do
          let previous_leaf ← leafOr (lastEditableLeaf live.spans [top_level_index - 1])
            ("top-level Block ".toList ++ shown (top_level_index - 1) ++
              " has no editable predecessor".toList)
          mergeOverMarker working previous_leaf span
      else .ok none

/-- The merge over the blank text behind the last Block before. -/
def mergeGap (working : Text) (live : ParsedNote) (live_path : BlockPath) (span : Range) :
    Except AppError (Text × Focus) :=
  match previousBlockEnd live.spans span with
  | none => .ok (working, ⟨live_path, 0⟩)
  | some previous_end => do
      let previous_leaf ← leafOr (previousEditableLeaf live.spans span)
        ("block_path ".toList ++ shownPath live_path ++ " has no editable predecessor".toList)
      let gap_range : Range := ⟨previous_end, span.start⟩
      let gap ← getOr (notAddressable gap_range) working gap_range
      if trim gap ≠ [] then
        .error (.parseError ("block_path ".toList ++ shownPath live_path ++
          (" cannot be merged with the Block before it: the two are separated by content " ++
            "this editor does not render and cannot address, and the merge would delete it " ++
              "— ").toList ++ elided gap 60))
      else removeGap working gap_range previous_leaf

def merging (block_path : BlockPath) : Edit Focus := fun working live retained_spans => do
  let live_path ← editableLivePath live.spans retained_spans block_path
  let span ← blockSpan live.spans live_path
  match ← mergeItem working live live_path span with
  | some merged => return merged
  | none =>
      match ← mergeContainer working live live_path span with
      | some merged => return merged
      | none => mergeGap working live live_path span

def mergeBlockWithPrevious (session : Session) (block_path : BlockPath) :
    Except AppError Focus × Session :=
  structuralEdit env session (merging block_path)

end Burlmd.Editor
