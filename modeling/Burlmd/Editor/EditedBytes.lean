import Mathlib.Data.Bool.AllAny
import Mathlib.Data.List.TakeWhile
import Burlmd.Editor.Continuation

/-!
# What an edit changes

A structural edit is one splice at the Block that its path resolves to. Around what it removes or
inserts it changes line endings only.
-/

namespace Burlmd.Editor

open Checked
open Lifecycle (newlineStyle)
open Markdown
open Utf16
open Utf8

/-- Nothing but line endings. -/
def LineEndings (text : Text) : Prop := ∀ c ∈ text, isLineEnding c = true

/-- A text comes to lie at an offset, and nothing else changes. -/
def Inserts (old new : Text) (offset : Nat) (text : Text) : Prop :=
  ∃ before after, old = before ++ after ∧ byteLen before = offset ∧ new = before ++ text ++ after

/-- A range goes, with line endings around it. -/
def Removes (old new : Text) (range : Range) : Prop :=
  ∃ before lead part trail after seam, old = before ++ (lead ++ part ++ trail) ++ after ∧
    new = before ++ seam ++ after ∧ byteLen (before ++ lead) = range.start ∧
    byteLen (before ++ lead ++ part) = range.stop ∧ LineEndings lead ∧ LineEndings trail ∧
    LineEndings seam

/-- Line endings come to lie in a range. -/
def Splits (old new : Text) (range : Range) : Prop :=
  ∃ offset seam, range.start ≤ offset ∧ offset ≤ range.stop ∧ LineEndings seam ∧ seam ≠ [] ∧
    Inserts old new offset seam

/-- The text goes on behind a leaf: in the next item, with the marker of the leaf's own line, or
behind the whole top-level Block that the leaf is in. -/
inductive GoesOn (live : SpanMap) (old new source : Text) (leaf : BlockSpan) : Prop
  | item {marker : Text} (isMarker : linePrefixBefore old leaf.source.start = .ok marker)
      (inserted : Inserts old new leaf.source.stop (newlineStyle old ++ marker ++ source)) :
      GoesOn live old new source leaf
  | block {top : BlockSpan} {lead trail : Text} (isTop : live.block (leaf.path.take 1) = some top)
      (leads : LineEndings lead) (trails : LineEndings trail)
      (inserted : Inserts old new top.source.stop (lead ++ source ++ trail)) :
      GoesOn live old new source leaf

/-- What stands in front of an offset goes, where it is blank or a line ending with the marker of
the next line. -/
def Joins (old new : Text) (offset : Nat) : Prop :=
  ∃ start gap, Inserts new old start gap ∧ start + byteLen gap = offset ∧
    (trim gap = [] ∨ ∃ marker, linePrefixBefore old offset = .ok marker ∧
      gap = newlineStyle old ++ marker)

/-- Where a text goes that is inserted at a path. -/
def insertionOffset (working : Text) (live_spans : SpanMap) (block_path : BlockPath) : Nat :=
  ((live_spans.block block_path).map fun block => block.source.start).getD (byteLen working)

/-! ## Seams are line endings -/

variable {text before after working new_source : Text} {span : Range} {env : Surroundings}
  {live : ParsedNote} {retained_spans : SpanMap} {block_path : BlockPath}

theorem LineEndings.append {first second : Text} (left : LineEndings first)
    (right : LineEndings second) : LineEndings (first ++ second) := by
  intro c mem
  rcases List.mem_append.mp mem with mem | mem
  · exact left c mem
  · exact right c mem

theorem lineEndings_nil : LineEndings [] := by
  intro c mem
  cases mem

theorem lineEndings_newlineStyle (text : Text) : LineEndings (newlineStyle text) := by
  unfold newlineStyle LineEndings
  split
  · exact List.all_iff_forall_prop.mp (by decide)
  · exact List.all_iff_forall_prop.mp (by decide)

theorem lineEndings_repeatText (lines : LineEndings text) (count : Nat) :
    LineEndings (repeatText text count) := by
  intro c mem
  rcases List.mem_flatten.mp mem with ⟨part, isPart, mem⟩
  rw [List.eq_of_mem_replicate isPart] at mem
  exact lines c mem

theorem lineEndings_separatorBefore (before : Text) (required : Nat) :
    LineEndings (separatorBefore before required) := by
  unfold separatorBefore
  split
  · exact lineEndings_nil
  · exact lineEndings_repeatText (lineEndings_newlineStyle before) _

theorem lineEndings_seamNewline (before working : Text) :
    LineEndings (seamNewline before working) := by
  unfold seamNewline
  split
  · exact lineEndings_newlineStyle before
  · exact lineEndings_newlineStyle working

theorem lineEndings_separatorAcross (source : Text) (start stop : Nat) :
    LineEndings (separatorAcross source start stop) := by
  unfold separatorAcross
  split
  · split
    · exact lineEndings_nil
    · exact lineEndings_separatorBefore _ _
  · exact lineEndings_nil

/-! ## Insertions -/

theorem inserts_of_splice {offset : Nat}
    (spliced : spliceOr working ⟨offset, offset⟩ text = .ok new_source) :
    Inserts working new_source offset text := by
  rcases splice?_eq_some_iff.mp (spliceOr_eq_ok.mp spliced) with
    ⟨before, part, after, whole, start, stop, isNew⟩
  have empty : part = [] := by
    apply byteLen_eq_zero.mp
    dsimp only at start stop
    omega
  rw [empty, List.append_nil] at whole
  exact ⟨before, after, whole, start, isNew⟩

/-- A text can be inserted wherever a character starts. -/
theorem inserting_inserts (source : Text) (retained_spans : SpanMap) (boundary : IsBoundary working
    (insertionOffset working live.spans block_path)) :
    ∃ new_source lead trail,
      inserting block_path source working live retained_spans = .ok (new_source, ()) ∧
      LineEndings lead ∧ LineEndings trail ∧
      Inserts working new_source (insertionOffset working live.spans block_path)
        (lead ++ source ++ trail) := by
  rcases isBoundary_iff.mp boundary with ⟨before, after, whole, length⟩
  refine ⟨_, separatorBefore before BLOCK_SEPARATOR_NEWLINES,
    repeatText (seamNewline before working)
      ((if (live.spans.block block_path).isSome then BLOCK_SEPARATOR_NEWLINES else 1) -
        trailingNewlines source), ?_, lineEndings_separatorBefore _ _,
    lineEndings_repeatText (lineEndings_seamNewline before working) _, before, after, whole, length,
    rfl⟩
  unfold inserting
  dsimp only [bind, Except.bind]
  unfold insertionOffset at length
  rw [← length]
  have isBefore : beforeOr working (byteLen before) = .ok before := by
    rw [whole]
    exact beforeOr_append before after
  rw [isBefore]
  dsimp only
  have spliced (text : Text) :
      spliceOr working ⟨byteLen before, byteLen before⟩ text = .ok (before ++ text ++ after) := by
    rw [whole]
    exact spliceOr_insert before after text
  rw [spliced]
  rfl

theorem splitAtOffset_inserts {offset second : Nat}
    (made : splitAtOffset working offset = .ok (new_source, second)) :
    ∃ seam, LineEndings seam ∧ seam ≠ [] ∧ Inserts working new_source offset seam := by
  unfold splitAtOffset at made
  rcases bind_eq_ok.mp made with ⟨before, -, made⟩
  rcases bind_eq_ok.mp made with ⟨spliced_, spliced, made⟩
  rw [(Prod.mk.inj (pure_eq_ok.mp made)).1] at spliced
  refine ⟨_, lineEndings_repeatText (lineEndings_seamNewline before working) 2, ?_,
    inserts_of_splice spliced⟩
  intro isNil
  have positive : 0 < byteLen (seamNewline before working) := by
    unfold seamNewline
    split
    · exact byteLen_newlineStyle_pos _
    · exact byteLen_newlineStyle_pos _
  exact absurd ((repeatText_eq_nil positive).mp isNil) (by decide)

/-! ## Deletions -/

theorem byteLen_reverse (text : Text) : byteLen text.reverse = byteLen text := by
  induction text with
  | nil => rfl
  | cons c rest ih =>
    rw [List.reverse_cons, byteLen_append, ih, byteLen_cons, byteLen_cons, byteLen_nil]
    omega

/-- How many line endings a reversed text ends with. -/
def endings (text : Text) : Nat := ((text.filter (· ≠ '\r')).takeWhile (· = '\n')).length

theorem endings_cons (c : Char) (rest : Text) : endings (c :: rest) =
    if c = '\r' then endings rest else if c = '\n' then endings rest + 1 else 0 := by
  unfold endings
  by_cases carriage : c = '\r'
  · simp [carriage]
  · by_cases line : c = '\n'
    · simp [line]
    · simp [carriage, line]

theorem isLineEnding_of_endings {c : Char} {rest : Text} (some_ : endings (c :: rest) ≠ 0) :
    isLineEnding c = true := by
  rw [endings_cons] at some_
  unfold isLineEnding
  by_cases carriage : c = '\r'
  · simp [carriage]
  · by_cases line : c = '\n'
    · simp [line]
    · rw [if_neg carriage, if_neg line] at some_
      exact absurd rfl some_

theorem endings_le (c : Char) (rest : Text) : endings (c :: rest) ≤ endings rest + 1 := by
  rw [endings_cons]
  split
  · exact Nat.le_succ _
  · split
    · exact Nat.le_refl _
    · exact Nat.zero_le _

/-- As long as a text has line endings, nothing else is cut. -/
theorem cutNewlines_suffix {count : Nat} {text : Text} (enough : count ≤ endings text) :
    ∃ cut, text = cut ++ cutNewlines count text ∧ LineEndings cut := by
  induction count, text using cutNewlines.induct with
  | case1 text => exact ⟨[], rfl, lineEndings_nil⟩
  | case2 count => exact ⟨[], rfl, lineEndings_nil⟩
  | case3 count c rest ih =>
    have first := endings_le c ('\r' :: rest)
    have second : endings ('\r' :: rest) = endings rest := by rw [endings_cons, if_pos rfl]
    have some_ : endings (c :: '\r' :: rest) ≠ 0 := by omega
    rcases ih (by omega) with ⟨cut, same, lines⟩
    refine ⟨c :: '\r' :: cut, congrArg (fun tail => c :: '\r' :: tail) same, ?_⟩
    intro d mem
    rcases List.mem_cons.mp mem with isFirst | mem
    · rw [isFirst]
      exact isLineEnding_of_endings some_
    · rcases List.mem_cons.mp mem with isSecond | mem
      · rw [isSecond]
        decide
      · exact lines d mem
  | case4 count c rest plain ih =>
    have first := endings_le c rest
    have some_ : endings (c :: rest) ≠ 0 := by omega
    rcases ih (by omega) with ⟨cut, same, lines⟩
    refine ⟨c :: cut, ?_, ?_⟩
    · rw [cutNewlines.eq_4 _ _ _ plain]
      exact congrArg (fun tail => c :: tail) same
    · intro d mem
      rcases List.mem_cons.mp mem with isFirst | mem
      · rw [isFirst]
        exact isLineEnding_of_endings some_
      · exact lines d mem

/-- The text before a cut is a front of it. -/
theorem exists_cut (before : Text) :
    ∃ kept cut, before = kept ++ cut ∧ byteLen kept = cutToOneTrailingNewline before ∧
      LineEndings cut := by
  rcases @cutNewlines_suffix (trailingNewlines before - 1) before.reverse (Nat.sub_le _ _) with
    ⟨cut, same, lines⟩
  refine ⟨(cutNewlines (trailingNewlines before - 1) before.reverse).reverse, cut.reverse, ?_, ?_, ?_⟩
  · rw [← List.reverse_append, ← same, List.reverse_reverse]
  · exact byteLen_reverse _
  · intro c mem
    exact lines c (List.mem_reverse.mp mem)

/-- A Block whose text can be read can be deleted, and only line endings go with it. -/
theorem deleteSpan_removes (sliced : (slice? working span).isSome) :
    ∃ new_source, deleteSpan working span = .ok (new_source, ()) ∧
      Removes working new_source span := by
  rcases Option.isSome_iff_exists.mp sliced with ⟨part, isPart⟩
  rcases slice?_eq_some_iff.mp isPart with ⟨before, after, whole, start, stop⟩
  have isAfter : startingAt? working span.stop = some after := by
    have split_ : splitAt? working span.stop = some (before ++ part, after) :=
      splitAt?_eq_some_iff.mpr ⟨whole, by rw [byteLen_append]; omega⟩
    unfold startingAt?
    rw [split_]
    rfl
  have isBefore : upTo? working span.start = some before := by
    have split_ : splitAt? working span.start = some (before, part ++ after) :=
      splitAt?_eq_some_iff.mpr ⟨by rw [whole, List.append_assoc], start⟩
    unfold upTo?
    rw [split_]
    rfl
  rcases exists_cut before with ⟨kept, cut, isCut, length, cutLines⟩
  -- what goes with the Block: the line endings before it where it is the last, those behind it else
  have around : ∃ front lead trail rest,
      working = front ++ (lead ++ part ++ trail) ++ rest ∧ before = front ++ lead ∧
      LineEndings lead ∧ LineEndings trail ∧
      (if (startingAt? working (span.stop + newlineRunLen after)).getD [] = []
        then (⟨cutToOneTrailingNewline before, span.stop⟩ : Range)
        else ⟨span.start, span.stop + newlineRunLen after⟩) =
          ⟨byteLen front, byteLen front + byteLen (lead ++ part ++ trail)⟩ := by
    have total := congrArg byteLen isCut
    rw [byteLen_append] at total
    split
    · refine ⟨kept, cut, [], after, ?_, isCut, cutLines, lineEndings_nil, ?_⟩
      · rw [whole, isCut]
        simp only [List.append_assoc, List.nil_append]
      · rw [← length, List.append_nil, byteLen_append]
        congr 1
        omega
    · refine ⟨before, [], after.takeWhile isLineEnding, after.dropWhile isLineEnding, ?_,
        (List.append_nil _).symm, lineEndings_nil, fun c mem => List.mem_takeWhile_imp mem, ?_⟩
      · rw [whole, List.nil_append, List.append_assoc, List.append_assoc, List.append_assoc,
          List.takeWhile_append_dropWhile]
      · rw [← start, List.nil_append, byteLen_append, byteLen_newlineRun]
        congr 1
        omega
  rcases around with ⟨front, lead, trail, rest, parts, isFront, leads, trails, isRemoved⟩
  unfold deleteSpan
  rw [isAfter, isBefore, Option.getD_some, Option.getD_some]
  dsimp only
  rw [isRemoved]
  have removable : slice? working ⟨byteLen front, byteLen front + byteLen (lead ++ part ++ trail)⟩ =
      some (lead ++ part ++ trail) := slice?_eq_some_iff.mpr ⟨front, rest, parts, rfl, rfl⟩
  unfold checkSpan
  rw [removable, Option.isSome_some, if_pos rfl]
  dsimp only [bind, Except.bind]
  have spliced (seam : Text) : spliceOr working
      ⟨byteLen front, byteLen front + byteLen (lead ++ part ++ trail)⟩ seam =
        .ok (front ++ seam ++ rest) :=
    spliceOr_eq_ok.mpr (splice?_eq_some_iff.mpr ⟨front, _, rest, parts, rfl, rfl, rfl⟩)
  rw [spliced]
  refine ⟨_, rfl, front, lead, part, trail, rest, _, parts, rfl, ?_, ?_, leads, trails,
    lineEndings_separatorAcross _ _ _⟩
  · rw [← isFront]
    exact start
  · rw [← isFront, byteLen_append]
    exact stop

/-! ## Splits -/

theorem getOr_eq_ok {error : AppError} {range : Range} {part : Text}
    (read : getOr error working range = .ok part) : slice? working range = some part := by
  unfold getOr at read
  split at read
  · rename_i found isFound
    rw [isFound, Except.ok.inj read]
  · cases read

theorem splitting_splits {offset : Nat}
    (made : splitting block_path offset working live retained_spans = .ok (new_source, ())) :
    ∃ live_path block, editableLivePath live.spans retained_spans block_path = .ok live_path ∧
      live.spans.block live_path = some block ∧ Splits working new_source block.source := by
  unfold splitting at made
  rcases bind_eq_ok.mp made with ⟨live_path, resolved, made⟩
  rcases bind_eq_ok.mp made with ⟨span, isSpan, made⟩
  rcases bind_eq_ok.mp made with ⟨block_source, isSource, made⟩
  rcases blockSpan_eq_ok.mp isSpan with ⟨block, found, sameSpan⟩
  refine ⟨live_path, block, resolved, found, ?_⟩
  rw [sameSpan]
  cases isOffset : toByteOffset? block_source offset with
  | none =>
    rw [isOffset] at made
    cases made
  | some byte_offset =>
    rw [isOffset] at made
    rcases bind_eq_ok.mp made with ⟨⟨spliced, second⟩, split_, made⟩
    rw [(Prod.mk.inj (pure_eq_ok.mp made)).1] at split_
    rcases splitAtOffset_inserts split_ with ⟨seam, lines, some_, inserted⟩
    rcases toByteOffset?_eq_some_iff.mp isOffset with ⟨front, rest, isWhole, -, length⟩
    rcases slice?_eq_some_iff.mp (getOr_eq_ok isSource) with ⟨before, after, -, start, stop⟩
    have total := congrArg byteLen isWhole
    rw [byteLen_append] at total
    exact ⟨span.start + byte_offset, seam, Nat.le_add_right _ _, by omega, lines, some_, inserted⟩

/-- A split of a field is one of the live leaf, whatever region the field has. -/
theorem splitField_splits {live_spans field_spans : SpanMap} {field_start editor_offset : Nat}
    {refused : AppError} {focus : Focus}
    (made : splitField env working live_spans field_spans block_path field_start editor_offset
      refused = .ok (new_source, focus)) :
    ∃ live_path block, editableLivePath live_spans field_spans block_path = .ok live_path ∧
      live_spans.block live_path = some block ∧ Splits working new_source block.source := by
  unfold splitField at made
  rcases bind_eq_ok.mp made with ⟨live_path, resolved, made⟩
  rcases bind_eq_ok.mp made with ⟨span, isSpan, made⟩
  rcases blockSpan_eq_ok.mp isSpan with ⟨block, found, sameSpan⟩
  refine ⟨live_path, block, resolved, found, ?_⟩
  rw [sameSpan]
  dsimp only [bind, Except.bind] at made
  by_cases ahead : span.start < field_start
  · rw [if_pos ahead] at made
    cases made
  · rw [if_neg ahead] at made
    by_cases short : span.stop < field_start
    · rw [if_pos short] at made
      cases made
    · rw [if_neg short] at made
      by_cases outside : editor_offset < span.start - field_start ∨
          span.stop - field_start < editor_offset
      · rw [if_pos outside] at made
        cases made
      · rw [if_neg outside] at made
        rcases bind_eq_ok.mp made with ⟨⟨spliced, second⟩, split_, made⟩
        rcases bind_eq_ok.mp made with ⟨focus', -, made⟩
        have isNew : spliced = new_source := (Prod.mk.inj (pure_eq_ok.mp made)).1
        rw [isNew] at split_
        rcases splitAtOffset_inserts split_ with ⟨seam, lines, some_, inserted⟩
        exact ⟨_, seam, Nat.le_add_right _ _, by omega, lines, some_, inserted⟩

theorem splittingFromEditor_splits {editor_source : Text} {offset : Nat} {focus : Focus}
    (made : splittingFromEditor env block_path editor_source offset working live retained_spans =
      .ok (new_source, focus)) :
    ∃ live_path block, editableLivePath live.spans retained_spans block_path = .ok live_path ∧
      live.spans.block live_path = some block ∧ Splits working new_source block.source := by
  unfold splittingFromEditor at made
  cases found : retained_spans.block block_path with
  | none =>
    rw [found] at made
    cases made
  | some retained =>
    rw [found] at made
    dsimp only at made
    cases leaf : retained.isLeaf with
    | false =>
      rw [leaf] at made
      cases made
    | true =>
      rw [leaf, Bool.not_true, if_neg Bool.false_ne_true] at made
      rcases bind_eq_ok.mp made with ⟨retained_source, -, made⟩
      by_cases stale : retained_source ≠ editor_source
      · rw [if_pos stale] at made
        cases made
      · rw [if_neg stale] at made
        cases isOffset : toByteOffset? editor_source offset with
        | none =>
          rw [isOffset] at made
          cases made
        | some editor_byte_offset =>
          rw [isOffset] at made
          exact splitField_splits made

/-! ## Continuations -/

theorem continuing_goesOn {source : Text} {result : ContinuationResult}
    (made : continuing block_path source working live retained_spans = .ok (new_source, result)) :
    (live.spans.blocks = [] ∧ block_path = [0] ∧ ∃ lead trail, LineEndings lead ∧ LineEndings trail ∧
        Inserts working new_source (byteLen working) (lead ++ source ++ trail)) ∨
      ∃ live_path leaf, editableLivePath live.spans retained_spans block_path = .ok live_path ∧
        live.spans.block live_path = some leaf ∧
        GoesOn live.spans working new_source source leaf := by
  unfold continuing at made
  rcases bind_eq_ok.mp made with ⟨continuation, isContinuation, made⟩
  unfold continuationOf at isContinuation
  by_cases blank : live.spans.blocks = [] ∧ block_path = [0]
  · rw [if_pos blank] at isContinuation
    rw [← pure_eq_ok.mp isContinuation] at made
    rcases bind_eq_ok.mp made with ⟨spliced_, spliced, made⟩
    rw [(Prod.mk.inj (pure_eq_ok.mp made)).1] at spliced
    exact Or.inl ⟨blank.1, blank.2, _, _, lineEndings_separatorBefore _ _,
      lineEndings_repeatText (lineEndings_newlineStyle working) _, inserts_of_splice spliced⟩
  · rw [if_neg blank] at isContinuation
    rcases bind_eq_ok.mp isContinuation with ⟨live_path, resolved, isContinuation⟩
    cases found : live.spans.block live_path with
    | none =>
      rw [found] at isContinuation
      cases isContinuation
    | some leaf =>
      rw [found] at isContinuation
      dsimp only at isContinuation
      have isPath := (mem_of_block found).2
      refine Or.inr ⟨live_path, leaf, resolved, found, ?_⟩
      by_cases container : (!leaf.isLeaf) = true
      · rw [if_pos container] at isContinuation
        cases isContinuation
      · rw [if_neg container] at isContinuation
        cases nearest : nearestListItem live.ast live_path with
        | some item =>
          rw [nearest] at isContinuation
          rcases bind_eq_ok.mp isContinuation with ⟨marker, isMarker, isContinuation⟩
          rw [← pure_eq_ok.mp isContinuation] at made
          rcases bind_eq_ok.mp made with ⟨span, isSpan, made⟩
          rcases bind_eq_ok.mp made with ⟨spliced_, spliced, made⟩
          rcases blockSpan_eq_ok.mp isSpan with ⟨block, found', sameSpan⟩
          rw [(Prod.mk.inj (pure_eq_ok.mp made)).1, ← sameSpan] at spliced
          rw [found] at found'
          rw [← Option.some.inj found'] at spliced
          exact .item isMarker (inserts_of_splice spliced)
        | none =>
          rw [nearest] at isContinuation
          rw [← pure_eq_ok.mp isContinuation] at made
          rcases bind_eq_ok.mp made with ⟨span, isSpan, made⟩
          rcases bind_eq_ok.mp made with ⟨before, -, made⟩
          rcases bind_eq_ok.mp made with ⟨after, -, made⟩
          rcases bind_eq_ok.mp made with ⟨spliced_, spliced, made⟩
          rcases blockSpan_eq_ok.mp isSpan with ⟨top, isTop, sameSpan⟩
          rw [(Prod.mk.inj (pure_eq_ok.mp made)).1, ← sameSpan] at spliced
          rw [← isPath] at isTop
          exact .block isTop (lineEndings_separatorBefore _ _)
            (lineEndings_repeatText (lineEndings_seamNewline before working) _)
            (inserts_of_splice spliced)

/-! ## Merges -/

theorem removeGap_inserts {gap : Range} {part : Text} {previous_leaf : BlockSpan} {focus : Focus}
    (isPart : slice? working gap = some part)
    (made : removeGap working gap previous_leaf = .ok (new_source, focus)) :
    Inserts new_source working gap.start part ∧ gap.start + byteLen part = gap.stop := by
  unfold removeGap at made
  rcases bind_eq_ok.mp made with ⟨previous_source, -, made⟩
  rcases bind_eq_ok.mp made with ⟨spliced_, spliced, made⟩
  rw [(Prod.mk.inj (pure_eq_ok.mp made)).1] at spliced
  rcases slice?_eq_some_iff.mp isPart with ⟨before, after, whole, start, stop⟩
  have removed : splice? working gap [] = some (before ++ [] ++ after) :=
    splice?_eq_some_iff.mpr ⟨before, part, after, whole, start, stop, rfl⟩
  rw [spliceOr_eq_ok.mp spliced, List.append_nil] at removed
  exact ⟨⟨before, after, Option.some.inj removed, start, whole⟩, by omega⟩

theorem mergeOverMarker_joins {previous_leaf : BlockSpan} {focus : Focus}
    (made : mergeOverMarker working previous_leaf span = .ok (some (new_source, focus))) :
    Joins working new_source span.start := by
  unfold mergeOverMarker at made
  rcases bind_eq_ok.mp made with ⟨marker, isMarker, made⟩
  rcases bind_eq_ok.mp made with ⟨gap, isGap, made⟩
  by_cases same : gap = newlineStyle working ++ marker
  · rw [if_pos same] at made
    rcases bind_eq_ok.mp made with ⟨merged, removed, made⟩
    rw [Option.some.inj (pure_eq_ok.mp made)] at removed
    rcases removeGap_inserts (getOr_eq_ok isGap) removed with ⟨inserted, upTo⟩
    exact ⟨_, gap, inserted, upTo, Or.inr ⟨marker, isMarker, same⟩⟩
  · rw [if_neg same] at made
    cases pure_eq_ok.mp made

theorem mergeItem_joins {live_path : BlockPath} {focus : Focus}
    (made : mergeItem working live live_path span = .ok (some (new_source, focus))) :
    Joins working new_source span.start := by
  unfold mergeItem at made
  split at made
  · cases made
  · rcases bind_eq_ok.mp made with ⟨first_leaf, -, made⟩
    split at made
    · rcases bind_eq_ok.mp made with ⟨previous_leaf, -, made⟩
      exact mergeOverMarker_joins made
    · cases pure_eq_ok.mp made

theorem mergeContainer_joins {live_path : BlockPath} {focus : Focus}
    (made : mergeContainer working live live_path span = .ok (some (new_source, focus))) :
    Joins working new_source span.start := by
  unfold mergeContainer at made
  split at made
  · cases made
  · split at made
    · rcases bind_eq_ok.mp made with ⟨previous_leaf, -, made⟩
      exact mergeOverMarker_joins made
    · cases made

theorem mergeGap_joins {live_path : BlockPath} {focus : Focus} (boundary : IsBoundary working span.start)
    (made : mergeGap working live live_path span = .ok (new_source, focus)) :
    Joins working new_source span.start := by
  unfold mergeGap at made
  split at made
  · rw [← (Prod.mk.inj (Except.ok.inj made)).1]
    rcases isBoundary_iff.mp boundary with ⟨before, after, whole, length⟩
    refine ⟨span.start, [], ⟨before, after, whole, length, ?_⟩, rfl, Or.inl rfl⟩
    rw [List.append_nil]
    exact whole
  · rcases bind_eq_ok.mp made with ⟨previous_leaf, -, made⟩
    rcases bind_eq_ok.mp made with ⟨gap, isGap, made⟩
    by_cases content : trim gap ≠ []
    · rw [if_pos content] at made
      cases made
    · rw [if_neg content] at made
      rcases removeGap_inserts (getOr_eq_ok isGap) made with ⟨inserted, upTo⟩
      exact ⟨_, gap, inserted, upTo, Or.inl (Decidable.not_not.mp content)⟩

theorem merging_joins {focus : Focus}
    (sliced : ∀ block ∈ live.spans.blocks, (slice? working block.source).isSome)
    (made : merging block_path working live retained_spans = .ok (new_source, focus)) :
    ∃ live_path block, editableLivePath live.spans retained_spans block_path = .ok live_path ∧
      live.spans.block live_path = some block ∧ Joins working new_source block.source.start := by
  unfold merging at made
  rcases bind_eq_ok.mp made with ⟨live_path, resolved, made⟩
  rcases bind_eq_ok.mp made with ⟨span, isSpan, made⟩
  rcases blockSpan_eq_ok.mp isSpan with ⟨block, found, sameSpan⟩
  refine ⟨live_path, block, resolved, found, ?_⟩
  rw [sameSpan]
  have boundary : IsBoundary working span.start := by
    rw [← sameSpan]
    exact (slice?_isSome_iff.mp (sliced block (mem_of_block found).1)).2.1
  rcases bind_eq_ok.mp made with ⟨item, isItem, made⟩
  cases item with
  | some merged =>
    rw [pure_eq_ok.mp made] at isItem
    exact mergeItem_joins isItem
  | none =>
    rcases bind_eq_ok.mp made with ⟨container, isContainer, made⟩
    cases container with
    | some merged =>
      rw [pure_eq_ok.mp made] at isContainer
      exact mergeContainer_joins isContainer
    | none => exact mergeGap_joins boundary made

end Burlmd.Editor
