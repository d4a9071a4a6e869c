import Burlmd.Editor.Continuation
import Burlmd.Editor.Reached

/-!
# Replacing a selection and splitting

A part of a field is replaced and split as by a keystroke and a split. The text of the field is
taken from the caller, and not compared with the text of the Note.
-/

namespace Burlmd.Editor

open Checked
open Extremum
open Markdown
open Utf16
open Utf8

variable {env : Surroundings} {session : Session} {block_path : BlockPath}
  {editor_source before selected after : Text} {base extent : Nat}

/-! ## Selections -/

/-- A text around a selection, in either direction. -/
structure Selected (editor_source : Text) (base extent : Nat) (before selected after : Text) :
    Prop where
  whole : editor_source = before ++ selected ++ after
  start : utf16Len before = min base extent
  stop : utf16Len (before ++ selected) = max base extent

theorem Selected.symm (selection : Selected editor_source base extent before selected after) :
    Selected editor_source extent base before selected after where
  whole := selection.whole
  start := selection.start.trans (Nat.min_comm _ _)
  stop := selection.stop.trans (Nat.max_comm _ _)

theorem toByteOffset?_append (before after : Text) :
    toByteOffset? (before ++ after) (utf16Len before) = some (byteLen before) :=
  toByteOffset?_eq_some_iff.mpr ⟨before, after, rfl, rfl, rfl⟩

/-- The ends of a selection are offsets of the text. -/
theorem Selected.offsets (selection : Selected editor_source base extent before selected after) :
    ∃ base_bytes extent_bytes, toByteOffset? editor_source base = some base_bytes ∧
      toByteOffset? editor_source extent = some extent_bytes ∧
      min base_bytes extent_bytes = byteLen before ∧
      max base_bytes extent_bytes = byteLen (before ++ selected) := by
  have le : byteLen before ≤ byteLen (before ++ selected) := by
    rw [byteLen_append]
    exact Nat.le_add_right _ _
  have first : toByteOffset? editor_source (utf16Len before) = some (byteLen before) := by
    rw [selection.whole, List.append_assoc]
    exact toByteOffset?_append before (selected ++ after)
  have second : toByteOffset? editor_source (utf16Len (before ++ selected)) =
      some (byteLen (before ++ selected)) := by
    rw [selection.whole]
    exact toByteOffset?_append (before ++ selected) after
  rw [selection.start] at first
  rw [selection.stop] at second
  rcases Nat.le_total base extent with forward | backward
  · rw [Nat.min_eq_left forward] at first
    rw [Nat.max_eq_right forward] at second
    exact ⟨_, _, first, second, Nat.min_eq_left le, Nat.max_eq_right le⟩
  · rw [Nat.min_eq_right backward] at first
    rw [Nat.max_eq_left backward] at second
    exact ⟨_, _, second, first, Nat.min_eq_right le, Nat.max_eq_left le⟩

/-- Two offsets of a text make a selection. -/
theorem selected_of_offsets {base_bytes extent_bytes : Nat}
    (isBase : toByteOffset? editor_source base = some base_bytes)
    (isExtent : toByteOffset? editor_source extent = some extent_bytes) :
    ∃ before selected after, Selected editor_source base extent before selected after := by
  have ordered {low high low_bytes high_bytes : Nat}
      (isLow : toByteOffset? editor_source low = some low_bytes)
      (isHigh : toByteOffset? editor_source high = some high_bytes)
      (le : low_bytes ≤ high_bytes) :
      ∃ before selected after, Selected editor_source low high before selected after := by
    rcases toByteOffset?_eq_some_iff.mp isLow with ⟨before, rest, whole, units, bytes⟩
    rcases toByteOffset?_eq_some_iff.mp isHigh with ⟨upTo, after, whole', units', bytes'⟩
    rcases append_prefix (whole.symm.trans whole') (by omega) with ⟨selected, isUpTo, -⟩
    have le_units : low ≤ high := by
      rw [← units, ← units', isUpTo, utf16Len_append]
      exact Nat.le_add_right _ _
    refine ⟨before, selected, after, ?_, ?_, ?_⟩
    · rw [whole', isUpTo]
    · rw [units, Nat.min_eq_left le_units]
    · rw [← isUpTo, units', Nat.max_eq_right le_units]
  rcases Nat.le_total base_bytes extent_bytes with forward | backward
  · exact ordered isBase isExtent forward
  · rcases ordered isExtent isBase backward with ⟨before, selected, after, selection⟩
    exact ⟨before, selected, after, selection.symm⟩

/-- A selection of something is not collapsed. -/
theorem Selected.ne_nil (selection : Selected editor_source base extent before selected after)
    (open_ : base ≠ extent) : selected ≠ [] := by
  intro isNil
  have start := selection.start
  have stop := selection.stop
  rw [isNil, List.append_nil] at stop
  omega

theorem Selected.whole_iff (selection : Selected editor_source base extent before selected after) :
    byteLen before = 0 ∧ byteLen (before ++ selected) = byteLen editor_source ↔
      before ++ after = [] := by
  rw [selection.whole, byteLen_append (before ++ selected), List.append_eq_nil_iff,
    byteLen_eq_zero]
  constructor
  · intro ends
    exact ⟨ends.1, byteLen_eq_zero.mp (by omega)⟩
  · intro isNil
    rw [isNil.2, byteLen_nil]
    exact ⟨isNil.1, rfl⟩

theorem Selected.withoutSelection
    (selection : Selected editor_source base extent before selected after) :
    withoutSelection editor_source (byteLen before) (byteLen (before ++ selected)) =
      .ok (before ++ after) := by
  have upTo : upTo? editor_source (byteLen before) = some before := by
    unfold upTo?
    rw [selection.whole, List.append_assoc, splitAt?_append]
    rfl
  have from_ : startingAt? editor_source (byteLen (before ++ selected)) = some after := by
    unfold startingAt?
    rw [selection.whole, splitAt?_append]
    rfl
  unfold Editor.withoutSelection
  rw [upTo, from_]

/-- A replacement of a selection is that of the whole field or of a part of it. -/
theorem replacingSelection_eq (selection : Selected editor_source base extent before selected after)
    (open_ : base ≠ extent) {retained : BlockSpan} {working : Text} {live : ParsedNote}
    {retained_spans : SpanMap} (found : retained_spans.block block_path = some retained)
    (leaf : retained.isLeaf = true) :
    replacingSelection env block_path editor_source base extent working live retained_spans =
      if before ++ after = [] then removeField working live retained_spans block_path retained
      else removeAndSplit env working retained_spans block_path retained editor_source base
        (byteLen before) (byteLen (before ++ selected)) := by
  rcases selection.offsets with ⟨base_bytes, extent_bytes, isBase, isExtent, low, high⟩
  have apart : base_bytes ≠ extent_bytes := by
    intro same
    rw [same, Nat.min_self] at low
    rw [same, Nat.max_self, low, byteLen_append] at high
    exact selection.ne_nil open_ (byteLen_eq_zero.mp (by omega))
  unfold replacingSelection
  rw [found]
  dsimp only
  rw [leaf, Bool.not_true, if_neg Bool.false_ne_true, isBase]
  dsimp only
  rw [isExtent]
  dsimp only
  rw [if_neg apart, low, high]
  by_cases nothing : before ++ after = []
  · rw [if_pos nothing, if_pos (selection.whole_iff.mpr nothing)]
  · rw [if_neg nothing, if_neg (mt selection.whole_iff.mp nothing)]

/-! ## The two halves -/

/-- A keystroke that takes the selection out of a field, and a split where it was. -/
def replaceThenSplit (env : Surroundings) (session : Session) (block_path : BlockPath)
    (before after : Text) : Except AppError Focus × Session :=
  match updateBlock env session block_path (before ++ after) with
  | (.error error, left) => (.error error, left)
  | (.ok (), left) =>
      splitBlockFromEditorSource env left block_path (before ++ after) (utf16Len before)

/-- A split fails in the same cases whatever it says then. -/
theorem splitField_refused {working : Text} {live_spans field_spans : SpanMap}
    {field_start editor_offset : Nat} {refused refused' : AppError} {result : Text × Focus}
    (done : splitField env working live_spans field_spans block_path field_start editor_offset
      refused = .ok result) :
    splitField env working live_spans field_spans block_path field_start editor_offset refused' =
      .ok result := by
  unfold splitField at done ⊢
  rcases bind_eq_ok.mp done with ⟨live_path, isPath, done⟩
  rcases bind_eq_ok.mp done with ⟨span, isSpan, done⟩
  rw [isPath]
  dsimp only [bind, Except.bind] at done ⊢
  rw [isSpan]
  dsimp only
  by_cases ahead : span.start < field_start
  · rw [if_pos ahead] at done
    cases done
  · rw [if_neg ahead] at done ⊢
    by_cases short : span.stop < field_start
    · rw [if_pos short] at done
      cases done
    · rw [if_neg short] at done ⊢
      by_cases outside : editor_offset < span.start - field_start ∨
          span.stop - field_start < editor_offset
      · rw [if_pos outside] at done
        cases done
      · rw [if_neg outside] at done ⊢
        exact done

section Halves

variable {retained : BlockSpan} {new_source : Text}

/-- A part of a field is removed and split by the keystroke that removes it, and a split. -/
theorem removeAndSplit_ok_iff
    (selection : Selected editor_source base extent before selected after)
    (found : session.spans.block block_path = some retained) (leaf : retained.isLeaf = true)
    (ordered : retained.source.start ≤ retained.source.stop)
    {location : StructuralEditLocation} :
    removeAndSplit env session.source session.spans block_path retained editor_source base
        (byteLen before) (byteLen (before ++ selected)) = .ok (new_source, location) ↔
      ∃ source spans focus, bufferedEdit session block_path (before ++ after) = .ok (source, spans) ∧
        location = .block focus ∧
        splitField env source (env.parse source).spans spans block_path retained.source.start
          (byteLen before) (outsideLeaf "selection".toList base block_path) =
            .ok (new_source, focus) := by
  rcases applyBufferedEdit_leaf found leaf ordered (byteLen (before ++ after)) with
    ⟨spans, edited, applied, isEdited, -, isRange⟩
  unfold removeAndSplit
  rw [selection.withoutSelection]
  dsimp only [bind, Except.bind]
  rw [applied]
  dsimp only
  rw [isEdited]
  dsimp only
  rw [isRange]
  constructor
  · intro done
    rcases bind_eq_ok.mp done with ⟨source, spliced, done⟩
    rcases bind_eq_ok.mp done with ⟨⟨new, focus⟩, split_, done⟩
    cases done
    refine ⟨source, spans, focus, ?_, rfl, split_⟩
    exact bufferedEdit_ok.mpr ⟨retained, found, by rw [applied]; exact rfl,
      spliceOr_eq_ok.mp spliced⟩
  · rintro ⟨source, spans', focus, edit, isLocation, split_⟩
    rcases bufferedEdit_ok.mp edit with ⟨retained', found', applied', spliced⟩
    rw [found] at found'
    cases found'
    rw [applied] at applied'
    cases applied'
    apply bind_eq_ok.mpr
    refine ⟨source, spliceOr_eq_ok.mpr spliced, ?_⟩
    apply bind_eq_ok.mpr
    refine ⟨(new_source, focus), split_, ?_⟩
    rw [isLocation]
    rfl

/-- The split of a field that holds the text. -/
theorem splittingFromEditor_ok_iff {source : Text} {live : ParsedNote} {spans : SpanMap}
    {edited : BlockSpan} {focus : Focus} (found : spans.block block_path = some edited)
    (leaf : edited.isLeaf = true) (sliced : slice? source edited.source = some (before ++ after)) :
    splittingFromEditor env block_path (before ++ after) (utf16Len before) source live spans =
        .ok (new_source, focus) ↔
      splitField env source live.spans spans block_path edited.source.start (byteLen before)
        (outsideLeaf "split".toList (utf16Len before) block_path) = .ok (new_source, focus) := by
  unfold splittingFromEditor
  rw [found]
  dsimp only
  unfold getOr
  rw [leaf, Bool.not_true, if_neg Bool.false_ne_true, sliced]
  dsimp only [bind, Except.bind]
  rw [if_neg (not_not_intro rfl), toByteOffset?_append]

/-- A keystroke and a split, where the Workspace answers. -/
theorem replaceThenSplit_ok_iff (answers : env.Answers) (editable : session.Editable)
    (found : session.spans.block block_path = some retained) (leaf : retained.isLeaf = true)
    (ordered : retained.source.start ≤ retained.source.stop) {focus : Focus} :
    (∃ left, replaceThenSplit env session block_path before after = (.ok focus, left) ∧
        left.source = new_source) ↔
      ∃ source spans, bufferedEdit session block_path (before ++ after) = .ok (source, spans) ∧
        splitField env source (env.parse source).spans spans block_path retained.source.start
          (byteLen before) (outsideLeaf "split".toList (utf16Len before) block_path) =
            .ok (new_source, focus) := by
  rcases applyBufferedEdit_leaf found leaf ordered (byteLen (before ++ after)) with
    ⟨spans, edited, applied, isEdited, edited_leaf, isRange⟩
  have split_iff {source : Text} (spliced : splice? session.source retained.source
      (before ++ after) = some source) :
      (∃ left, splitBlockFromEditorSource env (session.install source spans session.ast) block_path
          (before ++ after) (utf16Len before) = (.ok focus, left) ∧ left.source = new_source) ↔
        splitField env source (env.parse source).spans spans block_path retained.source.start
          (byteLen before) (outsideLeaf "split".toList (utf16Len before) block_path) =
            .ok (new_source, focus) := by
    have sliced : slice? source edited.source = some (before ++ after) := by
      rw [isRange]
      exact slice?_splice?_self spliced
    have editable' : (session.install source spans session.ast).Editable :=
      ⟨editable.conflicted, editable.closed⟩
    have split_ok := @splittingFromEditor_ok_iff env block_path before after new_source source
      (env.parse source) spans edited focus isEdited edited_leaf sliced
    rw [isRange] at split_ok
    rw [← split_ok]
    have made := @structuralEdit_iff env (session.install source spans session.ast) Focus Focus
      (splittingFromEditor env block_path (before ++ after) (utf16Len before))
      (fun _ _ result => .ok result) (fun _ result => result) answers editable'
      (fun _ _ _ => rfl) new_source focus
    refine Iff.trans made ?_
    constructor
    · rintro ⟨change, done, same⟩
      rw [← same]
      exact done
    · intro done
      exact ⟨focus, done, rfl⟩
  unfold replaceThenSplit
  constructor
  · rintro ⟨left, done, isNew⟩
    rcases typed : updateBlock env session block_path (before ++ after) with ⟨answer, between⟩
    rw [typed] at done
    cases answer with
    | error error => cases (Prod.mk.inj done).1
    | ok _ =>
      rcases updateBlock_ok typed with ⟨-, source, spans', edit, installed⟩
      rcases bufferedEdit_ok.mp edit with ⟨retained', found', applied', spliced⟩
      rw [found] at found'
      cases found'
      rw [applied] at applied'
      cases applied'
      rw [installed] at done
      exact ⟨source, spans, edit, (split_iff spliced).mp ⟨left, done, isNew⟩⟩
  · rintro ⟨source, spans', edit, split_⟩
    rcases bufferedEdit_ok.mp edit with ⟨retained', found', applied', spliced⟩
    rw [found] at found'
    cases found'
    rw [applied] at applied'
    cases applied'
    rw [updateBlock_of_bufferedEdit answers editable edit]
    exact (split_iff spliced).mpr split_

/-- What a keystroke and a split go through for is a leaf. -/
theorem replaceThenSplit_leaf {focus : Focus} {left : Session}
    (done : replaceThenSplit env session block_path before after = (.ok focus, left)) :
    ∃ retained, session.spans.block block_path = some retained ∧ retained.isLeaf = true := by
  unfold replaceThenSplit at done
  rcases typed : updateBlock env session block_path (before ++ after) with ⟨answer, between⟩
  rw [typed] at done
  cases answer with
  | error error => cases (Prod.mk.inj done).1
  | ok _ =>
    rcases updateBlock_ok typed with ⟨-, source, spans, edit, -⟩
    rcases bufferedEdit_ok.mp edit with ⟨retained, found, applied, -⟩
    refine ⟨retained, found, ?_⟩
    cases leaf : retained.isLeaf with
    | true => rfl
    | false =>
      unfold SpanMap.block at found
      rcases Option.bind_eq_some_iff.mp found with ⟨index, isIndex, at_⟩
      unfold SpanMap.applyBufferedEdit at applied
      rw [isIndex] at applied
      dsimp only at applied
      rw [at_] at applied
      dsimp only at applied
      rw [leaf] at applied
      cases applied

/-- A slot is bound to the Note and its text, a caret is left alone. -/
def bound (env : Surroundings) (source : Text) : StructuralEditLocation → StructuralEditLocation
  | .block focus => .block focus
  | .phantom insertion_slot =>
      .phantom { insertion_slot with
        note_id := env.note_id
        source_fingerprint := env.contentHash source }

/-- A replacement goes through if its edit can be made. -/
theorem replaceSelection_ok_iff (answers : env.Answers) (editable : session.Editable)
    {location : StructuralEditLocation} :
    (∃ left, replaceSelectionAndSplitBlockFromEditorSource env session block_path editor_source base
        extent = (.ok location, left) ∧ left.source = new_source) ↔
      ∃ change, replacingSelection env block_path editor_source base extent session.source
        (env.parse session.source) session.spans = .ok (new_source, change) ∧
          bound env new_source change = location := by
  apply structuralEdit_iff answers editable
  intro source parsed change
  cases change with
  | block focus => rfl
  | phantom insertion_slot => rfl

/-- Replacing a part of a field and splitting it goes through where a keystroke and a split do, with
the same text and the same caret. -/
theorem halves_agree (answers : env.Answers) (reached : session.Reached env)
    (selection : Selected editor_source base extent before selected after) (open_ : base ≠ extent)
    (part : before ++ after ≠ []) {location : StructuralEditLocation} :
    (∃ left, replaceSelectionAndSplitBlockFromEditorSource env session block_path editor_source base
        extent = (.ok location, left) ∧ left.source = new_source) ↔
      ∃ focus, location = .block focus ∧
        ∃ left, replaceThenSplit env session block_path before after = (.ok focus, left) ∧
          left.source = new_source := by
  rw [replaceSelection_ok_iff answers reached.editable]
  cases found : session.spans.block block_path with
  | none =>
    constructor
    · rintro ⟨change, edited, -⟩
      unfold replacingSelection at edited
      rw [found] at edited
      cases edited
    · rintro ⟨focus, -, left, done, -⟩
      rcases replaceThenSplit_leaf done with ⟨retained, found', -⟩
      rw [found] at found'
      cases found'
  | some retained =>
    cases leaf : retained.isLeaf with
    | false =>
      constructor
      · rintro ⟨change, edited, -⟩
        unfold replacingSelection at edited
        rw [found] at edited
        dsimp only at edited
        rw [leaf] at edited
        cases edited
      · rintro ⟨focus, -, left, done, -⟩
        rcases replaceThenSplit_leaf done with ⟨retained', found', leaf'⟩
        rw [found] at found'
        cases found'
        rw [leaf] at leaf'
        cases leaf'
    | true =>
      have ordered := reached.orderly.forward retained (mem_of_block found).1 leaf
      rw [replacingSelection_eq selection open_ found leaf, if_neg part]
      constructor
      · rintro ⟨change, edited, isLocation⟩
        rcases (removeAndSplit_ok_iff selection found leaf ordered).mp edited with
          ⟨source, spans, focus, edit, isBlock, split_⟩
        refine ⟨focus, ?_, ?_⟩
        · rw [← isLocation, isBlock]
          rfl
        · exact (replaceThenSplit_ok_iff answers reached.editable found leaf ordered).mpr
            ⟨source, spans, edit, splitField_refused split_⟩
      · rintro ⟨focus, isLocation, done⟩
        rcases (replaceThenSplit_ok_iff answers reached.editable found leaf ordered).mp done with
          ⟨source, spans, edit, split_⟩
        refine ⟨.block focus, ?_, isLocation.symm⟩
        exact (removeAndSplit_ok_iff selection found leaf ordered).mpr
          ⟨source, spans, focus, edit, rfl, splitField_refused split_⟩

end Halves

/-! ## What a split needs -/

/-- The blank line that a split puts between two texts. -/
def blankLine (ahead behind : Text) : Text := repeatText (seamNewline ahead (ahead ++ behind)) 2

/-- A leaf reaches behind an offset, or follows it. -/
def Reaches (spans : SpanMap) (offset : Nat) : Prop :=
  ∃ leaf ∈ spans.blocks, leaf.isLeaf = true ∧
    (offset < leaf.source.stop ∨ offset ≤ leaf.source.start)

/-- A caret in a field, with the text around it: the leaf that the path names reaches over the caret,
and once a blank line is put there, some leaf reaches behind it or follows. -/
structure SplitsAt (env : Surroundings) (block_path : BlockPath) (head before after rest : Text) :
    Prop where
  beneath : ∃ leaf, NamesLeaf (env.parse (head ++ before ++ (after ++ rest))).spans block_path
      ⟨byteLen head, byteLen head + byteLen (before ++ after)⟩ leaf ∧
    byteLen head ≤ leaf.source.start ∧ leaf.source.start ≤ byteLen (head ++ before) ∧
    byteLen (head ++ before) ≤ leaf.source.stop
  behind : Reaches
    (env.parse (head ++ before ++ blankLine (head ++ before) (after ++ rest) ++
      (after ++ rest))).spans
    (byteLen (head ++ before ++ blankLine (head ++ before) (after ++ rest)))

theorem splitAtOffset_append (ahead behind : Text) :
    splitAtOffset (ahead ++ behind) (byteLen ahead) =
      .ok (ahead ++ blankLine ahead behind ++ behind, byteLen (ahead ++ blankLine ahead behind)) := by
  unfold splitAtOffset blankLine
  rw [beforeOr_append]
  dsimp only [bind, Except.bind]
  rw [spliceOr_insert, byteLen_append]
  rfl

/-- A caret is found exactly where a leaf reaches behind it or follows. -/
theorem editableLeafAtOrAfter_ok_iff {source : Text} {offset : Nat}
    (boundary : IsBoundary source offset) :
    (∃ focus, editableLeafAtOrAfterSourceOffset source (env.parse source).spans offset =
      .ok focus) ↔ Reaches (env.parse source).spans offset := by
  unfold editableLeafAtOrAfterSourceOffset
  cases first : firstMin? (fun block => block.source.start)
      ((env.parse source).spans.blocks.filter fun block => block.isLeaf &&
        ((block.source.start ≤ offset && offset < block.source.stop) ||
          offset ≤ block.source.start)) with
  | none =>
    have nothing := firstMin?_eq_none_iff.mp first
    constructor
    · intro found
      rcases found with ⟨focus, wrong⟩
      cases wrong
    · intro reaches
      rcases reaches with ⟨leaf, mem, isLeaf, near⟩
      have inside : leaf ∈ ([] : List BlockSpan) := by
        rw [← nothing]
        apply List.mem_filter.mpr
        refine ⟨mem, ?_⟩
        simp only [isLeaf, Bool.true_and, Bool.or_eq_true, Bool.and_eq_true, decide_eq_true_eq]
        omega
      cases inside
  | some leaf =>
    rcases List.mem_filter.mp (firstMin?_spec first).1 with ⟨mem, holds⟩
    simp only [Bool.and_eq_true, Bool.or_eq_true, decide_eq_true_eq] at holds
    have start := (slice?_isSome_iff.mp (env.parse_sliceable mem)).2.1
    have caret : IsBoundary source (max offset leaf.source.start) := by
      rcases Nat.le_total offset leaf.source.start with before | behind
      · rw [Nat.max_eq_right before]
        exact start
      · rw [Nat.max_eq_left behind]
        exact boundary
    have sliced : (slice? source ⟨leaf.source.start, max offset leaf.source.start⟩).isSome :=
      slice?_isSome_iff.mpr ⟨Nat.le_max_right _ _, start, caret⟩
    rcases Option.isSome_iff_exists.mp sliced with ⟨prefix_, isPrefix⟩
    constructor
    · intro _
      refine ⟨leaf, mem, holds.1, ?_⟩
      omega
    · intro _
      dsimp only
      unfold getOr
      rw [isPrefix]
      exact ⟨_, rfl⟩

/-- A field is split exactly where its leaf reaches over the caret and the second half is found. -/
theorem splitField_ok_iff {head rest : Text} {spans : SpanMap} {edited : BlockSpan}
    {refused : AppError} (found : spans.block block_path = some edited)
    (leaf : edited.isLeaf = true)
    (region : edited.source = ⟨byteLen head, byteLen head + byteLen (before ++ after)⟩) :
    (∃ result, splitField env (head ++ before ++ (after ++ rest))
        (env.parse (head ++ before ++ (after ++ rest))).spans spans block_path (byteLen head)
        (byteLen before) refused = .ok result) ↔ SplitsAt env block_path head before after rest := by
  have caret : byteLen (head ++ before) = byteLen head + byteLen before := byteLen_append _ _
  have boundary : IsBoundary
      (head ++ before ++ blankLine (head ++ before) (after ++ rest) ++ (after ++ rest))
      (byteLen (head ++ before ++ blankLine (head ++ before) (after ++ rest))) :=
    isBoundary_iff.mpr ⟨_, _, rfl, rfl⟩
  have cut {named : BlockSpan} (starts : byteLen head ≤ named.source.start)
      (ahead : named.source.start ≤ byteLen (head ++ before)) :
      splitAtOffset (head ++ before ++ (after ++ rest))
        (named.source.start + (byteLen before - (named.source.start - byteLen head))) =
          .ok (head ++ before ++ blankLine (head ++ before) (after ++ rest) ++ (after ++ rest),
            byteLen (head ++ before ++ blankLine (head ++ before) (after ++ rest))) := by
    have at_ : named.source.start + (byteLen before - (named.source.start - byteLen head)) =
        byteLen (head ++ before) := by omega
    rw [at_]
    exact splitAtOffset_append _ _
  have resolves (live_path : BlockPath) :
      editableLivePath (env.parse (head ++ before ++ (after ++ rest))).spans spans block_path =
          .ok live_path ↔
        ∃ named, NamesLeaf (env.parse (head ++ before ++ (after ++ rest))).spans block_path
          ⟨byteLen head, byteLen head + byteLen (before ++ after)⟩ named ∧
            named.path = live_path := by
    rw [← region]
    exact editableLivePath_eq_ok found leaf
  constructor
  · intro done
    rcases done with ⟨result, done⟩
    unfold splitField at done
    rcases bind_eq_ok.mp done with ⟨live_path, isPath, done⟩
    rcases bind_eq_ok.mp done with ⟨span, isSpan, done⟩
    rcases (resolves live_path).mp isPath with ⟨named, names, isNamed⟩
    have own := env.block_of_mem names.mem.1
    rw [isNamed] at own
    rcases blockSpan_eq_ok.mp isSpan with ⟨block, found', isSource⟩
    rw [own] at found'
    cases found'
    rw [← isSource] at done
    by_cases starts : named.source.start < byteLen head
    · rw [if_pos starts] at done
      cases done
    · rw [if_neg starts] at done
      by_cases short : named.source.stop < byteLen head
      · rw [if_pos short] at done
        cases done
      · rw [if_neg short] at done
        by_cases outside : byteLen before < named.source.start - byteLen head ∨
            named.source.stop - byteLen head < byteLen before
        · rw [if_pos outside] at done
          cases done
        · rw [if_neg outside] at done
          have ahead : named.source.start ≤ byteLen (head ++ before) := by omega
          dsimp only [bind, Except.bind, pure, Except.pure] at done
          rw [cut (Nat.le_of_not_lt starts) ahead] at done
          dsimp only at done
          refine ⟨⟨named, names, Nat.le_of_not_lt starts, ahead, by omega⟩, ?_⟩
          rw [← editableLeafAtOrAfter_ok_iff boundary]
          cases focus : editableLeafAtOrAfterSourceOffset
              (head ++ before ++ blankLine (head ++ before) (after ++ rest) ++ (after ++ rest))
              (env.parse (head ++ before ++ blankLine (head ++ before) (after ++ rest) ++
                (after ++ rest))).spans
              (byteLen (head ++ before ++ blankLine (head ++ before) (after ++ rest))) with
          | error error =>
            rw [focus] at done
            cases done
          | ok caret => exact ⟨caret, rfl⟩
  · intro splits
    rcases splits.beneath with ⟨named, names, starts, ahead, reaches⟩
    rcases (editableLeafAtOrAfter_ok_iff boundary).mpr splits.behind with ⟨focus, isFocus⟩
    have isPath := (resolves named.path).mpr ⟨named, names, rfl⟩
    have isSpan : blockSpan (env.parse (head ++ before ++ (after ++ rest))).spans named.path =
        .ok named.source :=
      blockSpan_eq_ok.mpr ⟨named, env.block_of_mem names.mem.1, rfl⟩
    unfold splitField
    rw [isPath]
    dsimp only [bind, Except.bind]
    rw [isSpan]
    dsimp only
    rw [if_neg (Nat.not_lt.mpr starts), if_neg (by omega), if_neg (by omega)]
    dsimp only [pure, Except.pure]
    rw [cut starts ahead]
    dsimp only
    rw [isFocus]
    exact ⟨_, rfl⟩

/-! ## Whole fields -/

theorem lastLine_suffix (before : Text) : ∃ head, before = head ++ lastLine before := by
  refine ⟨(before.reverse.dropWhile (· ≠ '\n')).reverse, ?_⟩
  unfold lastLine
  rw [← List.reverse_append, List.takeWhile_append_dropWhile, List.reverse_reverse]

/-- A whole field is removed exactly when it is a range of the text and its Block is found. -/
theorem removeField_ok_iff {working : Text} {live : ParsedNote} {retained_spans : SpanMap}
    {retained : BlockSpan} (ordered : retained.source.start ≤ retained.source.stop) :
    (∃ result, removeField working live retained_spans block_path retained = .ok result) ↔
      (slice? working retained.source).isSome ∧
        ∃ live_path, editableLivePath live.spans retained_spans block_path = .ok live_path := by
  constructor
  · rintro ⟨result, done⟩
    unfold removeField at done
    rcases bind_eq_ok.mp done with ⟨live_path, isPath, done⟩
    rcases bind_eq_ok.mp done with ⟨marker, isPrefix, done⟩
    dsimp only at done
    rcases bind_eq_ok.mp done with ⟨after, isAfter, -⟩
    refine ⟨slice?_isSome_iff.mpr ⟨ordered, ?_, ?_⟩, live_path, isPath⟩
    · unfold linePrefixBefore upTo? at isPrefix
      unfold IsBoundary
      cases start : splitAt? working retained.source.start with
      | none =>
        rw [start] at isPrefix
        cases isPrefix
      | some _ => rfl
    · unfold fieldEnd startingAt? at isAfter
      unfold IsBoundary
      cases stop : splitAt? working retained.source.stop with
      | none =>
        rw [stop] at isAfter
        cases isAfter
      | some _ => rfl
  · rintro ⟨sliced, live_path, isPath⟩
    rcases Option.isSome_iff_exists.mp sliced with ⟨field, isField⟩
    rcases slice?_eq_some_iff.mp isField with ⟨before, after, whole, start, stop⟩
    rcases lastLine_suffix before with ⟨head, line⟩
    have start_boundary : IsBoundary working retained.source.start :=
      isBoundary_iff.mpr ⟨before, field ++ after, by rw [whole, List.append_assoc], start⟩
    have isPrefix : linePrefixBefore working retained.source.start = .ok (lastLine before) := by
      rw [whole, ← start, List.append_assoc, linePrefixBefore_append]
    have isAfter : fieldEnd working retained.source = .ok after := by
      have split_ : splitAt? working retained.source.stop = some (before ++ field, after) :=
        splitAt?_eq_some_iff.mpr ⟨whole, by rw [byteLen_append]; omega⟩
      unfold fieldEnd startingAt?
      rw [split_]
      rfl
    have stop_boundary : IsBoundary working (retained.source.stop + newlineRunLen after) := by
      refine isBoundary_iff.mpr ⟨before ++ field ++ after.takeWhile isLineEnding,
        after.dropWhile isLineEnding, ?_, ?_⟩
      · rw [List.append_assoc, List.takeWhile_append_dropWhile]
        exact whole
      · rw [byteLen_append, byteLen_append, byteLen_newlineRun]
        omega
    -- The removal starts with the field or with its line.
    have removal (whole_line : Bool) : ∃ delete_start,
        delete_start = (if whole_line then retained.source.start - byteLen (lastLine before)
          else retained.source.start) ∧
        delete_start ≤ retained.source.start ∧ IsBoundary working delete_start := by
      refine ⟨_, rfl, ?_⟩
      cases whole_line with
      | false => exact ⟨Nat.le_refl _, start_boundary⟩
      | true =>
        rw [if_pos rfl]
        refine ⟨Nat.sub_le _ _, isBoundary_iff.mpr ⟨head, lastLine before ++ field ++ after, ?_, ?_⟩⟩
        · rw [whole, List.append_assoc, List.append_assoc, ← List.append_assoc head, ← line]
        · have length := congrArg byteLen line
          rw [byteLen_append] at length
          omega
    unfold removeField
    rw [isPath]
    dsimp only [bind, Except.bind]
    rw [isPrefix]
    dsimp only
    rw [isAfter]
    dsimp only
    generalize (decide (lastLine before ≠ []) && removableStructuralLine live.ast live_path) =
      whole_line
    rcases removal whole_line with ⟨delete_start, isStart, le, boundary⟩
    rw [← isStart]
    have removable : (slice? working
        ⟨delete_start, retained.source.stop + newlineRunLen after⟩).isSome := by
      apply slice?_isSome_iff.mpr
      refine ⟨?_, boundary, stop_boundary⟩
      dsimp only
      omega
    rcases Option.isSome_iff_exists.mp removable with ⟨removed, isRemoved⟩
    unfold getOr
    rw [isRemoved]
    dsimp only
    have replaced (keeps : Bool) :
        ∃ replacement, fieldReplacement working delete_start keeps = .ok replacement := by
      unfold fieldReplacement
      cases keeps with
      | true => exact ⟨[], rfl⟩
      | false =>
        rcases isBoundary_iff.mp boundary with ⟨ahead, behind, split_, length⟩
        refine ⟨seamNewline ahead working, ?_⟩
        rw [if_neg Bool.false_ne_true, split_, ← length, beforeOr_append]
        rfl
    rcases replaced (whole_line || decide (lastLine before = [])) with ⟨replacement, isReplacement⟩
    rw [isReplacement]
    dsimp only
    rcases Option.isSome_iff_exists.mp ((@splice?_isSome_iff working replacement _).mpr removable)
      with ⟨left, spliced⟩
    rw [spliceOr_eq_ok.mpr spliced]
    exact ⟨_, rfl⟩

/-! ## Current and stale fields -/

/-- The text is the source of the Block at the path. -/
def Session.Shows (session : Session) (block_path : BlockPath) (text : Text) : Prop :=
  ∃ block, session.spans.block block_path = some block ∧
    slice? session.source block.source = some text

/-- A replacement of a selection is a keystroke and a split, and a field whose text is not that of
its Block is refused. -/
structure Session.ReplacesSelection (env : Surroundings) (session : Session)
    (block_path : BlockPath) (editor_source : Text) (base extent : Nat) : Prop where
  halves : session.Shows block_path editor_source → ∀ before selected after new_source location,
    Selected editor_source base extent before selected after → base ≠ extent →
    before ++ after ≠ [] →
    ((∃ left, replaceSelectionAndSplitBlockFromEditorSource env session block_path editor_source base
        extent = (.ok location, left) ∧ left.source = new_source) ↔
      ∃ focus, location = .block focus ∧
        ∃ left, replaceThenSplit env session block_path before after = (.ok focus, left) ∧
          left.source = new_source)
  refuses : ¬ session.Shows block_path editor_source → ∃ error,
    replaceSelectionAndSplitBlockFromEditorSource env session block_path editor_source base extent =
      (.error error, session)

/-- A path, a text and a selection for which the call goes through, whatever the text of the Block is.
The path names a leaf of the map whose range is one of the text. Where a part of the field is
selected, the text that is left splits at the caret. Where all of it is, the path still names a leaf
of the text as it is. -/
def Session.Takes (env : Surroundings) (session : Session) (block_path : BlockPath)
    (editor_source : Text) (base extent : Nat) : Prop :=
  base ≠ extent ∧ ∃ retained head field rest before selected after,
    session.spans.block block_path = some retained ∧ retained.isLeaf = true ∧
    session.source = head ++ field ++ rest ∧ retained.source.start = byteLen head ∧
    retained.source.stop = byteLen head + byteLen field ∧
    Selected editor_source base extent before selected after ∧
    if before ++ after = [] then
      ∃ leaf, NamesLeaf (env.parse session.source).spans block_path retained.source leaf
    else SplitsAt env block_path head before after rest

/-- A part of a field is removed and split exactly where the text that is left splits. -/
theorem removeAndSplit_isOk_iff {retained : BlockSpan}
    (selection : Selected editor_source base extent before selected after)
    (found : session.spans.block block_path = some retained) (leaf : retained.isLeaf = true)
    (ordered : retained.source.start ≤ retained.source.stop) :
    (∃ result, removeAndSplit env session.source session.spans block_path retained editor_source base
        (byteLen before) (byteLen (before ++ selected)) = .ok result) ↔
      ∃ head field rest, session.source = head ++ field ++ rest ∧
        retained.source.start = byteLen head ∧ retained.source.stop = byteLen head + byteLen field ∧
        SplitsAt env block_path head before after rest := by
  rcases applyBufferedEdit_leaf found leaf ordered (byteLen (before ++ after)) with
    ⟨spans, edited, applied, isEdited, edited_leaf, isRange⟩
  have splits {head rest : Text} (start : retained.source.start = byteLen head) :=
    @splitField_ok_iff env block_path before after head rest spans edited
      (outsideLeaf "selection".toList base block_path) isEdited edited_leaf
      (by rw [isRange, start])
  constructor
  · intro done
    rcases done with ⟨⟨new_source, location⟩, done⟩
    rcases (removeAndSplit_ok_iff selection found leaf ordered).mp done with
      ⟨source, spans', focus, edit, -, split_⟩
    rcases bufferedEdit_ok.mp edit with ⟨retained', found', applied', spliced⟩
    rw [found] at found'
    cases found'
    rw [applied] at applied'
    cases applied'
    rcases splice?_eq_some_iff.mp spliced with ⟨head, field, rest, whole, start, stop, isSource⟩
    have isSource : source = head ++ before ++ (after ++ rest) := by
      rw [isSource, List.append_assoc, List.append_assoc, List.append_assoc]
    rw [isSource, ← start] at split_
    exact ⟨head, field, rest, whole, start.symm, stop.symm, (splits start.symm).mp ⟨_, split_⟩⟩
  · intro given
    rcases given with ⟨head, field, rest, whole, start, stop, splitsAt⟩
    rcases (splits start).mpr splitsAt with ⟨⟨new_source, focus⟩, split_⟩
    have spliced : splice? session.source retained.source (before ++ after) =
        some (head ++ before ++ (after ++ rest)) := by
      apply splice?_eq_some_iff.mpr
      refine ⟨head, field, rest, whole, start.symm, stop.symm, ?_⟩
      rw [List.append_assoc, List.append_assoc, List.append_assoc]
    refine ⟨(new_source, .block focus), ?_⟩
    apply (removeAndSplit_ok_iff selection found leaf ordered).mpr
    refine ⟨_, spans, focus, bufferedEdit_ok.mpr ⟨retained, found, by rw [applied]; rfl, spliced⟩,
      rfl, ?_⟩
    rw [start]
    exact split_

/-- A whole field is removed exactly where it is a range of the text and the path names a leaf. -/
theorem removeField_isOk_iff {retained : BlockSpan}
    (found : session.spans.block block_path = some retained) (leaf : retained.isLeaf = true)
    (ordered : retained.source.start ≤ retained.source.stop) :
    (∃ result, removeField session.source (env.parse session.source) session.spans block_path
        retained = .ok result) ↔
      ∃ head field rest, session.source = head ++ field ++ rest ∧
        retained.source.start = byteLen head ∧ retained.source.stop = byteLen head + byteLen field ∧
        ∃ leaf, NamesLeaf (env.parse session.source).spans block_path retained.source leaf := by
  rw [removeField_ok_iff ordered, Option.isSome_iff_exists]
  constructor
  · intro given
    rcases given with ⟨⟨field, sliced⟩, live_path, isPath⟩
    rcases slice?_eq_some_iff.mp sliced with ⟨head, rest, whole, start, stop⟩
    rcases (editableLivePath_eq_ok found leaf).mp isPath with ⟨named, names, -⟩
    exact ⟨head, field, rest, whole, start.symm, stop.symm, named, names⟩
  · intro given
    rcases given with ⟨head, field, rest, whole, start, stop, named, names⟩
    exact ⟨⟨field, slice?_eq_some_iff.mpr ⟨head, rest, whole, start.symm, stop.symm⟩⟩, named.path,
      (editableLivePath_eq_ok found leaf).mpr ⟨named, names, rfl⟩⟩

/-- The edit can be made exactly for what the call takes. -/
theorem replacingSelection_isOk_iff (reached : session.Reached env) :
    (∃ result, replacingSelection env block_path editor_source base extent session.source
        (env.parse session.source) session.spans = .ok result) ↔
      session.Takes env block_path editor_source base extent := by
  constructor
  · intro done
    rcases done with ⟨result, edited⟩
    have original := edited
    unfold replacingSelection at edited
    cases found : session.spans.block block_path with
    | none =>
      rw [found] at edited
      cases edited
    | some retained =>
      rw [found] at edited
      dsimp only at edited
      cases leaf : retained.isLeaf with
      | false =>
        rw [leaf] at edited
        cases edited
      | true =>
        rw [leaf, Bool.not_true, if_neg Bool.false_ne_true] at edited
        cases isBase : toByteOffset? editor_source base with
        | none =>
          rw [isBase] at edited
          cases edited
        | some base_bytes =>
          rw [isBase] at edited
          dsimp only at edited
          cases isExtent : toByteOffset? editor_source extent with
          | none =>
            rw [isExtent] at edited
            cases edited
          | some extent_bytes =>
            rw [isExtent] at edited
            dsimp only at edited
            have open_ : base ≠ extent := by
              intro same
              rw [same, isExtent] at isBase
              rw [if_pos (Option.some.inj isBase).symm] at edited
              cases edited
            have ordered := reached.orderly.forward retained (mem_of_block found).1 leaf
            rcases selected_of_offsets isBase isExtent with ⟨before, selected, after, selection⟩
            rw [replacingSelection_eq selection open_ found leaf] at original
            by_cases whole : before ++ after = []
            · rw [if_pos whole] at original
              rcases (removeField_isOk_iff found leaf ordered).mp ⟨_, original⟩ with
                ⟨head, field, rest, isSource, start, stop, named⟩
              refine ⟨open_, retained, head, field, rest, before, selected, after, found, leaf,
                isSource, start, stop, selection, ?_⟩
              rw [if_pos whole]
              exact named
            · rw [if_neg whole] at original
              rcases (removeAndSplit_isOk_iff selection found leaf ordered).mp ⟨_, original⟩ with
                ⟨head, field, rest, isSource, start, stop, splits⟩
              refine ⟨open_, retained, head, field, rest, before, selected, after, found, leaf,
                isSource, start, stop, selection, ?_⟩
              rw [if_neg whole]
              exact splits
  · intro takes
    rcases takes with ⟨open_, retained, head, field, rest, before, selected, after, found, leaf,
      isSource, start, stop, selection, condition⟩
    have ordered := reached.orderly.forward retained (mem_of_block found).1 leaf
    rw [replacingSelection_eq selection open_ found leaf]
    by_cases whole : before ++ after = []
    · rw [if_pos whole] at condition ⊢
      exact (removeField_isOk_iff found leaf ordered).mpr
        ⟨head, field, rest, isSource, start, stop, condition⟩
    · rw [if_neg whole] at condition ⊢
      exact (removeAndSplit_isOk_iff selection found leaf ordered).mpr
        ⟨head, field, rest, isSource, start, stop, condition⟩

/-- What a call takes, it goes through for. -/
theorem takes_iff (answers : env.Answers) (reached : session.Reached env) :
    (∃ location left, replaceSelectionAndSplitBlockFromEditorSource env session block_path
        editor_source base extent = (.ok location, left)) ↔
      session.Takes env block_path editor_source base extent := by
  rw [← replacingSelection_isOk_iff reached]
  constructor
  · intro done
    rcases done with ⟨location, left, done⟩
    rcases (replaceSelection_ok_iff answers reached.editable).mp ⟨left, done, rfl⟩ with
      ⟨change, edited, -⟩
    exact ⟨_, edited⟩
  · intro made
    rcases made with ⟨⟨new_source, change⟩, edited⟩
    rcases (replaceSelection_ok_iff answers reached.editable).mpr ⟨change, edited, rfl⟩ with
      ⟨left, done, -⟩
    exact ⟨_, left, done⟩

/-- The call does what it is for exactly when the text is that of the Block, or when it would not go
through anyway. -/
theorem replacesSelection_iff (answers : env.Answers) (reached : session.Reached env)
    (block_path : BlockPath) (editor_source : Text) (base extent : Nat) :
    session.ReplacesSelection env block_path editor_source base extent ↔
      session.Shows block_path editor_source ∨
        ¬ session.Takes env block_path editor_source base extent := by
  rw [← takes_iff answers reached]
  constructor
  · intro replaces
    by_cases shows_ : session.Shows block_path editor_source
    · exact Or.inl shows_
    · refine Or.inr ?_
      rintro ⟨location, left, done⟩
      rcases replaces.refuses shows_ with ⟨error, refused⟩
      rw [refused] at done
      cases (Prod.mk.inj done).1
  · intro condition
    constructor
    · intro _ before selected after new_source location selection open_ part
      exact halves_agree answers reached selection open_ part
    · intro stale
      rcases condition with shows_ | refused
      · exact absurd shows_ stale
      · cases answer : (replaceSelectionAndSplitBlockFromEditorSource env session block_path
            editor_source base extent).1 with
        | ok location => exact absurd ⟨location, _, Prod.ext answer rfl⟩ refused
        | error error =>
          exact ⟨error, Prod.ext answer (structuralEditWithResult_error answer)⟩

theorem plainNote_answers : plainNote.Answers :=
  ⟨rfl, fun _ => ⟨true, rfl⟩, fun _ _ => rfl⟩

theorem replacesSelection_current :
    (plainSession "abcd\n".toList).ReplacesSelection plainNote [0] "abcd\n".toList 1 2 := by
  apply (replacesSelection_iff plainNote_answers (.parsed (plainSession_fresh _)) _ _ _ _).mpr
  refine Or.inl ⟨⟨[0], ⟨0, 5⟩, [⟨⟨0, 4⟩, ⟨0, 4⟩, true⟩], 4, []⟩, ?_, ?_⟩
  · decide +kernel
  · decide +kernel

/-- The text of the Block is lost to a field that holds another one. -/
theorem replacesSelection_stale :
    ¬ (plainSession "abcd\n".toList).ReplacesSelection plainNote [0] "xyz\n".toList 1 2 := by
  intro replaces
  have stale : ¬ (plainSession "abcd\n".toList).Shows [0] "xyz\n".toList := by
    rintro ⟨block, found, sliced⟩
    have own : ((plainSession "abcd\n".toList).spans.block [0]).bind (fun block =>
        slice? (plainSession "abcd\n".toList).source block.source) = some "abcd\n".toList := by
      decide +kernel
    rw [found, Option.bind_some, sliced] at own
    exact absurd own (by decide)
  rcases replaces.refuses stale with ⟨error, refused⟩
  have taken : (replaceSelectionAndSplitBlockFromEditorSource plainNote
      (plainSession "abcd\n".toList) [0] "xyz\n".toList 1 2).1.isOk = true := by decide +kernel
  rw [refused] at taken
  cases taken

end Burlmd.Editor
