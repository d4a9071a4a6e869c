import Burlmd.Interface.Emphasis

/-!
# The code shortcut

What the shortcut makes of a selection, and what an inline parser reads there.
-/

namespace Burlmd.Interface

open Replacement
open Surrogates
open CodeSpans
open CodeSpans.Marks

/-- The punctuation of ASCII, which a backslash escapes. -/
def isAsciiPunctuation (unit : UInt16) : Bool :=
  (33 ≤ unit && unit ≤ 47) || (58 ≤ unit && unit ≤ 64) || (91 ≤ unit && unit ≤ 96) ||
    (123 ≤ unit && unit ≤ 126)

def units : Marks UInt16 where
  tick := tick
  backslash := backslash
  space := space
  escapable := isAsciiPunctuation
  tick_escapable := by decide
  backslash_ne_tick := by decide
  space_ne_tick := by decide

/-! ## Runs of a text -/

theorem longest_fold_le (text : Units) (longest current : Nat) (le : current ≤ longest) :
    let result := (text.foldl (fun (longest, current) unit =>
      if unit = tick then (max longest (current + 1), current + 1) else (longest, 0))
      (longest, current)).1
    longest ≤ result ∧ ∀ run ∈ units.runs current text, run ≤ result := by
  induction text generalizing longest current with
  | nil =>
    refine ⟨Nat.le_refl _, ?_⟩
    intro run inside
    rw [runs] at inside
    split at inside
    · cases inside
    · cases List.mem_singleton.mp inside
      exact le
  | cons unit rest ih =>
    rw [List.foldl_cons, runs]
    by_cases isTick : unit = tick
    · rcases ih (max longest (current + 1)) (current + 1) (Nat.le_max_right _ _) with
        ⟨grows, bounds⟩
      have same : unit = units.tick := isTick
      simp only [if_pos isTick, if_pos same]
      exact ⟨Nat.le_trans (Nat.le_max_left _ _) grows, bounds⟩
    · rcases ih longest 0 (Nat.zero_le _) with ⟨grows, bounds⟩
      have other : unit ≠ units.tick := isTick
      simp only [if_neg isTick, if_neg other]
      refine ⟨grows, ?_⟩
      intro run inside
      rcases List.mem_append.mp inside with here | inside
      · split at here
        · cases here
        · cases List.mem_singleton.mp here
          exact Nat.le_trans le grows
      · exact bounds run inside

theorem runs_le_longest (text : Units) {run : Nat} (inside : run ∈ units.runs 0 text) :
    run ≤ longestBacktickRun text :=
  (longest_fold_le text 0 0 (Nat.le_refl _)).2 run inside

/-! ## Padding -/

def padding (selected : Units) : Units := if needsCodeSpanPadding selected then [space] else []

def delimiterOf (selected : Units) : Units :=
  List.replicate (longestBacktickRun selected + 1) tick

/-- What stands between the delimiters. -/
def padded (selected : Units) : Units := padding selected ++ selected ++ padding selected

theorem needsCodeSpanPadding_iff {selected : Units} (nonempty : selected ≠ []) :
    needsCodeSpanPadding selected = true ↔ isAllSpaces selected = false ∧
      (selected.head? = some space ∨ selected.getLast? = some space ∨
        selected.head? = some tick ∨ selected.getLast? = some tick) := by
  unfold needsCodeSpanPadding
  simp [nonempty, or_assoc]

theorem tick_ne_space : tick ≠ space := by decide

theorem isAllSpaces_iff {text : Units} :
    isAllSpaces text = true ↔ ∀ unit ∈ text, unit = space := by
  simp [isAllSpaces]

theorem padded_enclosed {selected : Units} (nonempty : selected ≠ []) :
    units.Enclosed (padded selected) := by
  unfold padded padding
  by_cases needs : needsCodeSpanPadding selected = true
  · rw [if_pos needs]
    refine ⟨by simp, ?_, ?_⟩
    · intro starts
      exact tick_ne_space (Option.some.inj starts).symm
    · rw [List.getLast?_concat]
      intro ends
      exact tick_ne_space (Option.some.inj ends).symm
  · rw [if_neg needs, List.nil_append, List.append_nil]
    rw [needsCodeSpanPadding_iff nonempty, not_and_or] at needs
    rcases needs with spaces | plain
    · rw [Bool.not_eq_false, isAllSpaces_iff] at spaces
      refine ⟨nonempty, ?_, ?_⟩
      · intro starts
        exact tick_ne_space (spaces _ (List.mem_of_head? starts))
      · intro ends
        exact tick_ne_space (spaces _ (List.mem_of_getLast? ends))
    · simp only [not_or] at plain
      exact ⟨nonempty, plain.2.2.1, plain.2.2.2⟩

theorem runs_padded (selected : Units) : units.runs 0 (padded selected) = units.runs 0 selected := by
  have alone : units.runs 0 [space] = [] := by decide
  have apart : ∀ unit ∈ [space].head?, unit ≠ units.tick := by
    intro unit mem
    cases Option.some.inj mem
    decide
  unfold padded padding
  split
  · have front : [space] ++ selected ++ [space] = ([] ++ [space]) ++ (selected ++ [space]) := by simp
    have plain : space ≠ units.tick := by decide
    rw [front, runs_append_of_last plain, List.nil_append, alone, runs_append_of_head apart, alone]
    simp
  · simp

theorem strip_spaced {text : Units} (mixed : isAllSpaces text = false) :
    units.strip ([space] ++ text ++ [space]) = text := by
  have other : ∃ unit ∈ [space] ++ text ++ [space], unit ≠ units.space := by
    by_contra none_
    have spaces : isAllSpaces text = true := by
      apply isAllSpaces_iff.mpr
      intro unit inside
      by_contra different
      apply none_
      exact ⟨unit, by simp [inside], different⟩
    rw [spaces] at mixed
    cases mixed
  unfold strip
  rw [if_pos ⟨rfl, by rw [List.getLast?_concat]; exact rfl, other⟩]
  simp

theorem strip_spaces {text : Units} (spaces : isAllSpaces text = true) : units.strip text = text := by
  unfold strip
  rw [if_neg]
  intro spaced
  rcases spaced.2.2 with ⟨unit, inside, other⟩
  exact other (isAllSpaces_iff.mp spaces unit inside)

/-- The selection is what a code span shows of it. -/
theorem strip_padded {selected : Units} (nonempty : selected ≠ []) :
    units.strip (padded selected) = selected := by
  unfold padded padding
  by_cases needs : needsCodeSpanPadding selected = true
  · rw [if_pos needs]
    exact strip_spaced ((needsCodeSpanPadding_iff nonempty).mp needs).1
  · rw [if_neg needs, List.nil_append, List.append_nil]
    cases spaces : isAllSpaces selected with
    | true => exact strip_spaces spaces
    | false =>
      rw [needsCodeSpanPadding_iff nonempty] at needs
      unfold strip
      rw [if_neg]
      intro spaced
      exact needs ⟨spaces, Or.inl spaced.1⟩

/-! ## Wrapping -/

section Wrapping

variable {text : Units} {low high : Nat}

theorem wrapCode_text (text : Units) (low high : Nat) (reversed : Bool) :
    (wrapCode text low high reversed).text =
      text.take low ++ (delimiterOf (substring text low high) ++
        padded (substring text low high) ++ delimiterOf (substring text low high) ++
          text.drop high) := by
  unfold wrapCode replaceRange padded delimiterOf padding
  simp only [List.append_assoc]

theorem delimiterOf_eq (selected : Units) :
    delimiterOf selected = units.ticks (longestBacktickRun selected + 1) := rfl

theorem closed_of_apart (bounded : low ≤ text.length)
    (apart : hasOutsideAdjacentBacktick text low high = false) :
    units.Closed (text.take low) := by
  intro ends
  unfold hasOutsideAdjacentBacktick at apart
  rw [Bool.or_eq_false_iff, Bool.and_eq_false_iff] at apart
  rw [List.getLast?_take] at ends
  split at ends
  · cases ends
  · rename_i positive
    have inside : low - 1 < text.length := by omega
    have last : text[low - 1]? = some tick := by
      rw [List.getElem?_eq_getElem inside] at ends ⊢
      exact ends
    rcases apart.1 with start | before
    · have zero : low = 0 := by simpa using start
      exact positive zero
    · rw [last] at before
      exact absurd before (by decide)

theorem starts_of_apart (apart : hasOutsideAdjacentBacktick text low high = false) :
    ∀ unit ∈ (text.drop high).head?, unit ≠ units.tick := by
  intro unit starts same
  unfold hasOutsideAdjacentBacktick at apart
  rw [Bool.or_eq_false_iff] at apart
  rw [List.head?_drop] at starts
  have here : text[high]? = some tick := by
    rw [starts, same]
    rfl
  rw [here] at apart
  exact absurd apart.2 (by decide)

end Wrapping

/-! ## Runs at a position -/

section Runs

variable {unit : UInt16} {n : Nat}

theorem runStartingAt_append (unit : UInt16) (ahead behind : Units) :
    runStartingAt unit (ahead ++ behind) ahead.length =
      (behind.takeWhile (· = unit)).length := by
  unfold runStartingAt
  rw [List.drop_left]

theorem runEndingAt_append (unit : UInt16) (ahead behind : Units) :
    runEndingAt unit (ahead ++ behind) ahead.length =
      (ahead.reverse.takeWhile (· = unit)).length := by
  unfold runEndingAt
  rw [List.take_left]

theorem takeWhile_run (n : Nat) {behind : Units} (apart : ∀ other ∈ behind.head?, other ≠ unit) :
    (List.replicate n unit ++ behind).takeWhile (· = unit) = List.replicate n unit := by
  induction n with
  | zero =>
    cases behind with
    | nil => rfl
    | cons other rest => simp [apart other rfl]
  | succ n ih => simp [List.replicate_succ, ih]

theorem starts_run (ahead : Units) (n : Nat) {behind : Units}
    (apart : ∀ other ∈ behind.head?, other ≠ unit) :
    runStartingAt unit (ahead ++ (List.replicate n unit ++ behind)) ahead.length = n := by
  rw [runStartingAt_append, takeWhile_run n apart, List.length_replicate]

theorem ends_run {ahead : Units} (n : Nat) (behind : Units)
    (apart : ∀ other ∈ ahead.getLast?, other ≠ unit) :
    runEndingAt unit (ahead ++ List.replicate n unit ++ behind)
      (ahead ++ List.replicate n unit).length = n := by
  have turned : ∀ other ∈ ahead.reverse.head?, other ≠ unit := by
    rw [List.head?_reverse]
    exact apart
  rw [runEndingAt_append, List.reverse_append, List.reverse_replicate, takeWhile_run n turned,
    List.length_replicate]

theorem runStartingAt_spec (unit : UInt16) {text : Units} {offset : Nat}
    (bounded : offset ≤ text.length) :
    offset + runStartingAt unit text offset ≤ text.length ∧
      substring text offset (offset + runStartingAt unit text offset) =
        List.replicate (runStartingAt unit text offset) unit := by
  have opening := List.takeWhile_prefix (· = unit) (l := text.drop offset)
  have short := opening.length_le
  rw [List.length_drop] at short
  unfold runStartingAt substring
  refine ⟨by omega, ?_⟩
  rw [← List.take_drop, ← List.prefix_iff_eq_take.mp opening]
  apply List.eq_replicate_of_mem
  intro other inside
  simpa using List.mem_takeWhile_imp inside

theorem runEndingAt_spec (unit : UInt16) {text : Units} {offset : Nat}
    (bounded : offset ≤ text.length) :
    runEndingAt unit text offset ≤ offset ∧
      substring text (offset - runEndingAt unit text offset) offset =
        List.replicate (runEndingAt unit text offset) unit := by
  have opening := List.takeWhile_prefix (· = unit) (l := (text.take offset).reverse)
  have short := opening.length_le
  rw [List.length_reverse, List.length_take, Nat.min_eq_left bounded] at short
  unfold runEndingAt substring
  refine ⟨short, ?_⟩
  have closing := List.reverse_suffix.mpr opening
  rw [List.reverse_reverse] at closing
  have cut := List.suffix_iff_eq_drop.mp closing
  rw [List.length_reverse, List.length_take, Nat.min_eq_left bounded] at cut
  rw [← cut]
  apply List.eq_replicate_iff.mpr
  refine ⟨List.length_reverse, ?_⟩
  intro other inside
  simpa using List.mem_takeWhile_imp (List.mem_reverse.mp inside)

end Runs

/-! ## What is left of a content -/

/-- What the removal leaves of a content is what a code span shows of it. -/
theorem normalizedCodeSpanContent_eq_strip (content : Units) :
    normalizedCodeSpanContent content = units.strip content := by
  have inner : substring content 1 (content.length - 1) = content.tail.dropLast := by
    unfold substring
    rw [← List.dropLast_eq_take, List.drop_one, List.tail_dropLast]
  have same : (2 ≤ content.length ∧ content.head? = some space ∧ content.getLast? = some space ∧
      isAllSpaces content = false) ↔ (content.head? = some units.space ∧
        content.getLast? = some units.space ∧ ∃ unit ∈ content, unit ≠ units.space) := by
    have mixed : isAllSpaces content = false ↔ ∃ unit ∈ content, unit ≠ space := by
      rw [← Bool.not_eq_true, isAllSpaces_iff]
      push Not
      exact Iff.refl _
    rw [mixed]
    constructor
    · intro spaced
      exact spaced.2
    · intro spaced
      refine ⟨?_, spaced⟩
      rcases spaced with ⟨starts, _, unit, inside, other⟩
      cases content with
      | nil => cases inside
      | cons first rest =>
        cases rest with
        | nil =>
          cases List.mem_singleton.mp inside
          exact absurd (Option.some.inj starts) other
        | cons second others => simp
  unfold normalizedCodeSpanContent strip
  rw [inner]
  by_cases spaced : content.head? = some units.space ∧ content.getLast? = some units.space ∧
      ∃ unit ∈ content, unit ≠ units.space
  · rw [if_pos (same.mpr spaced), if_pos spaced]
  · rw [if_neg (fun wide => spaced (same.mp wide)), if_neg spaced]

/-- What the removal takes from a content is the padding of a code span. -/
theorem exists_padding (content : Units) :
    ∃ padding, (padding = [] ∨ padding = [space]) ∧
      content = padding ++ normalizedCodeSpanContent content ++ padding := by
  rw [normalizedCodeSpanContent_eq_strip]
  unfold strip
  by_cases spaced : content.head? = some units.space ∧ content.getLast? = some units.space ∧
      ∃ unit ∈ content, unit ≠ units.space
  · refine ⟨[space], Or.inr rfl, ?_⟩
    rw [if_pos spaced]
    rcases spaced with ⟨starts, ends, unit, inside, other⟩
    cases content with
    | nil => cases inside
    | cons first rest =>
      rcases List.eq_nil_or_concat' rest with empty | ⟨middle, last, whole⟩
      · rw [empty] at inside
        cases List.mem_singleton.mp inside
        exact absurd (Option.some.inj starts) other
      · rw [whole] at ends ⊢
        rw [← List.cons_append, List.getLast?_concat] at ends
        rw [List.tail_cons, List.dropLast_concat, Option.some.inj starts, Option.some.inj ends]
        rfl
  · refine ⟨[], Or.inl rfl, ?_⟩
    rw [if_neg spaced, List.nil_append, List.append_nil]

/-! ## Spans -/

theorem replaceRange_append (ahead middle behind content : Units) :
    replaceRange (ahead ++ middle ++ behind) ahead.length (ahead ++ middle).length content =
      ahead ++ content ++ behind := by
  unfold replaceRange
  rw [List.drop_left, List.append_assoc ahead middle, List.take_left]

/-- A span with its two runs of `n` backticks and the content between them. -/
structure CodeSpan.Spans (text : Units) (span : CodeSpan) (before : Units) (n : Nat)
    (physical after : Units) : Prop where
  positive : 0 < n
  whole : text = before ++ units.ticks n ++ physical ++ units.ticks n ++ after
  start : span.start = before.length
  contentStart : span.contentStart = (before ++ units.ticks n).length
  contentEnd : span.contentEnd = (before ++ units.ticks n ++ physical).length
  stop : span.stop = (before ++ units.ticks n ++ physical ++ units.ticks n).length

section Spans

variable {text : Units} {span : CodeSpan} {n : Nat} {before physical after : Units} {low high : Nat}

theorem CodeSpan.Spans.content (spans : span.Spans text before n physical after) :
    substring text span.contentStart span.contentEnd = physical := by
  rw [spans.contentStart, spans.contentEnd, spans.whole, List.append_assoc (_ ++ _ ++ _)]
  exact substring_append _ _ _

theorem CodeSpan.Spans.removed (spans : span.Spans text before n physical after) (rev : Bool) :
    removeCodeSpan text span rev =
      ⟨before ++ normalizedCodeSpanContent physical ++ after,
        some (directed rev before.length
          (before.length + (normalizedCodeSpanContent physical).length))⟩ := by
  have replaced := replaceRange_append before (units.ticks n ++ physical ++ units.ticks n) after
    (normalizedCodeSpanContent physical)
  simp only [← List.append_assoc] at replaced
  unfold removeCodeSpan
  dsimp only
  rw [spans.content, spans.start, spans.stop, spans.whole, replaced]

theorem CodeSpan.Spans.shorter (spans : span.Spans text before n physical after) (rev : Bool) :
    (removeCodeSpan text span rev).text.length < text.length := by
  rcases exists_padding physical with ⟨padding, _, content⟩
  have count : (units.ticks n).length = n := List.length_replicate
  have lengths := congrArg List.length content
  have positive := spans.positive
  rw [spans.removed, spans.whole]
  simp only [List.length_append, count] at lengths ⊢
  omega

theorem spans_of_runs {start contentStart contentEnd stop : Nat} (positive : 0 < n)
    (opening : start ≤ contentStart) (content : contentStart ≤ contentEnd)
    (closing : contentEnd ≤ stop) (bounded : stop ≤ text.length)
    (first : substring text start contentStart = units.ticks n)
    (last : substring text contentEnd stop = units.ticks n) :
    CodeSpan.Spans text ⟨start, stop, contentStart, contentEnd⟩ (text.take start) n
      (substring text contentStart contentEnd) (text.drop stop) := by
  have ahead : text.take start ++ units.ticks n = text.take contentStart := by
    rw [← first, take_append_substring opening]
  have middle : text.take start ++ units.ticks n ++ substring text contentStart contentEnd =
      text.take contentEnd := by
    rw [ahead, take_append_substring content]
  have whole : text.take start ++ units.ticks n ++ substring text contentStart contentEnd ++
      units.ticks n = text.take stop := by
    rw [middle, ← last, take_append_substring closing]
  have within {offset : Nat} (less : offset ≤ stop) : offset = (text.take offset).length := by
    rw [List.length_take]
    omega
  constructor
  · exact positive
  · rw [whole, List.take_append_drop]
  · exact within (Nat.le_trans opening (Nat.le_trans content closing))
  · rw [ahead]
    exact within (Nat.le_trans content closing)
  · rw [middle]
    exact within closing
  · rw [whole]
    exact within (Nat.le_refl _)

theorem codeSpanAround_spans {padded : Bool} (ordered : low ≤ high)
    (around : codeSpanAround text low high padded = some span) :
    (∃ before n physical after, span.Spans text before n physical after) ∧
      span.contentStart + padded.toNat = low ∧ span.contentEnd = high + padded.toNat ∧
      (padded = true → text[low - 1]? = some space ∧ text[high]? = some space) := by
  unfold codeSpanAround at around
  dsimp only at around
  split at around
  · cases around
  rename_i within
  split at around
  · cases around
  rename_i spaces
  split at around
  · cases around
  rename_i lengths
  split at around
  · rename_i runs
    rw [not_or, not_not] at lengths
    have opens : low - padded.toNat ≤ text.length := by omega
    have closes : high + padded.toNat ≤ text.length := by omega
    rcases runEndingAt_spec tick opens with ⟨short, first⟩
    rcases runStartingAt_spec tick closes with ⟨bounded, last⟩
    rw [← lengths.2] at last bounded
    cases around
    refine ⟨⟨_, _, _, _, spans_of_runs (Nat.pos_of_ne_zero lengths.1) (Nat.sub_le _ _) ?_
      (Nat.le_add_right _ _) ?_ first ?_⟩, ?_, rfl, ?_⟩
    · omega
    · rw [← lengths.2]
      exact bounded
    · rw [← lengths.2]
      exact last
    · dsimp only
      omega
    · intro isPadded
      rw [not_and, not_or, not_not, not_not] at spaces
      exact spaces isPadded
  · cases around

theorem fullCodeSpan_spans (bounded : high ≤ text.length)
    (full : fullCodeSpan text low high = some span) :
    (∃ before n physical after, span.Spans text before n physical after) ∧ span.start = low ∧
      span.stop = high := by
  unfold fullCodeSpan at full
  dsimp only at full
  split at full
  · cases full
  rename_i lengths
  rw [not_or, not_not] at lengths
  split at full
  · rename_i runs
    rcases runEndingAt_spec tick bounded with ⟨short, last⟩
    have opens : low ≤ text.length := by omega
    rcases runStartingAt_spec tick opens with ⟨within, first⟩
    rw [← lengths.2] at short last
    cases full
    refine ⟨⟨_, _, _, _, spans_of_runs (Nat.pos_of_ne_zero lengths.1) (Nat.le_add_right _ _)
      (Nat.le_of_lt runs.1) (Nat.sub_le _ _) bounded first ?_⟩, rfl, rfl⟩
    rw [← lengths.2]
    exact last
  · cases full

end Spans

/-! ## What the shortcut does -/

/-- The range that a shortcut works on. -/
def low (selection : TextSelection) : Nat := min selection.baseOffset selection.extentOffset
def high (selection : TextSelection) : Nat := max selection.baseOffset selection.extentOffset
def selected (text : Units) (selection : TextSelection) : Units :=
  substring text (low selection) (high selection)

/-- A selection that is not empty and splits no character. -/
structure TextSelection.Valid (text : Units) (selection : TextSelection) : Prop where
  base : isValidUtf16SelectionBoundary text selection.baseOffset = true
  extent : isValidUtf16SelectionBoundary text selection.extentOffset = true
  apart : selection.baseOffset ≠ selection.extentOffset

section Shortcut

variable {text : Units} {selection : TextSelection}

theorem TextSelection.Valid.low_lt (valid : selection.Valid text) :
    low selection < high selection := by
  have apart := valid.apart
  unfold low high
  omega

theorem TextSelection.Valid.high_le (valid : selection.Valid text) :
    high selection ≤ text.length := by
  have base := bounded_of_boundary valid.base
  have extent := bounded_of_boundary valid.extent
  unfold high
  omega

theorem TextSelection.Valid.length_take (valid : selection.Valid text) :
    (text.take (low selection)).length = low selection := by
  have ordered := valid.low_lt
  have bounded := valid.high_le
  rw [List.length_take]
  omega

theorem TextSelection.Valid.length_selected (valid : selection.Valid text) :
    low selection + (selected text selection).length = high selection := by
  have ordered := valid.low_lt
  rw [selected, substring_length valid.high_le]
  omega

theorem TextSelection.Valid.around (valid : selection.Valid text) :
    text.take (low selection) ++ selected text selection ++ text.drop (high selection) = text :=
  around_selection (Nat.le_of_lt valid.low_lt)

theorem TextSelection.Valid.selected_ne_nil (valid : selection.Valid text) :
    selected text selection ≠ [] := substring_ne_nil valid.low_lt valid.high_le

/-- What the shortcut does to a selection without line endings. -/
theorem applyInlineCode_line (valid : selection.Valid text)
    (lines : lineFeed ∉ selected text selection ∧ carriageReturn ∉ selected text selection) :
    applyInlineCode ⟨text, some selection⟩ =
      match (codeSpanAroundSelection text (low selection) (high selection)).or
          (fullCodeSpan text (low selection) (high selection)) with
      | some span =>
          removeCodeSpan text span (decide (selection.extentOffset < selection.baseOffset))
      | none =>
          if hasOutsideAdjacentBacktick text (low selection) (high selection) then
            ⟨text, some selection⟩
          else wrapCode text (low selection) (high selection)
            (decide (selection.extentOffset < selection.baseOffset)) := by
  rcases selection with ⟨base, extent⟩
  have inside : ¬ (isValidUtf16SelectionBoundary text base = false ∨
      isValidUtf16SelectionBoundary text extent = false) := by
    rw [valid.base, valid.extent]
    simp
  have apart : ¬ base = extent := valid.apart
  unfold selected at lines
  unfold applyInlineCode
  dsimp only
  rw [if_neg inside, if_neg apart]
  exact if_neg fun ending => ending.elim lines.1 lines.2

theorem applyInlineCode_lines (valid : selection.Valid text)
    (lines : lineFeed ∈ selected text selection ∨ carriageReturn ∈ selected text selection) :
    applyInlineCode ⟨text, some selection⟩ = ⟨text, some selection⟩ := by
  rcases selection with ⟨base, extent⟩
  have inside : ¬ (isValidUtf16SelectionBoundary text base = false ∨
      isValidUtf16SelectionBoundary text extent = false) := by
    rw [valid.base, valid.extent]
    simp
  have apart : ¬ base = extent := valid.apart
  unfold selected at lines
  unfold applyInlineCode
  dsimp only
  rw [if_neg inside, if_neg apart]
  exact if_pos lines

/-- The shortcut takes a span away, leaves everything as it is, or wraps. -/
theorem applyInlineCode_cases (valid : selection.Valid text) :
    (∃ span, (codeSpanAroundSelection text (low selection) (high selection)).or
          (fullCodeSpan text (low selection) (high selection)) = some span ∧
        applyInlineCode ⟨text, some selection⟩ =
          removeCodeSpan text span (decide (selection.extentOffset < selection.baseOffset))) ∨
      applyInlineCode ⟨text, some selection⟩ = ⟨text, some selection⟩ ∨
      (lineFeed ∉ selected text selection ∧ carriageReturn ∉ selected text selection) ∧
        hasOutsideAdjacentBacktick text (low selection) (high selection) = false ∧
        applyInlineCode ⟨text, some selection⟩ =
          wrapCode text (low selection) (high selection)
            (decide (selection.extentOffset < selection.baseOffset)) := by
  by_cases lines : lineFeed ∈ selected text selection ∨ carriageReturn ∈ selected text selection
  · exact Or.inr (Or.inl (applyInlineCode_lines valid lines))
  rw [not_or] at lines
  rw [applyInlineCode_line valid lines]
  cases (codeSpanAroundSelection text (low selection) (high selection)).or
      (fullCodeSpan text (low selection) (high selection)) with
  | some span => exact Or.inl ⟨span, rfl, rfl⟩
  | none =>
    dsimp only
    split
    · exact Or.inr (Or.inl rfl)
    · rename_i outside
      exact Or.inr (Or.inr ⟨lines, Bool.eq_false_iff.mpr outside, rfl⟩)

theorem found_spans (valid : selection.Valid text) {span : CodeSpan}
    (found : (codeSpanAroundSelection text (low selection) (high selection)).or
      (fullCodeSpan text (low selection) (high selection)) = some span) :
    ∃ before n physical after, span.Spans text before n physical after := by
  have ordered := Nat.le_of_lt valid.low_lt
  unfold codeSpanAroundSelection at found
  rw [Option.or_eq_some_iff, Option.or_eq_some_iff] at found
  rcases found with (direct | ⟨_, padded⟩) | ⟨_, full⟩
  · exact (codeSpanAround_spans ordered direct).1
  · exact (codeSpanAround_spans ordered padded).1
  · exact (fullCodeSpan_spans valid.high_le full).1

/-- A shortcut that makes the text longer wraps. -/
theorem wraps_of_longer (valid : selection.Valid text)
    (longer : text.length < (applyInlineCode ⟨text, some selection⟩).text.length) :
    hasOutsideAdjacentBacktick text (low selection) (high selection) = false ∧
      applyInlineCode ⟨text, some selection⟩ = wrapCode text (low selection) (high selection)
        (decide (selection.extentOffset < selection.baseOffset)) := by
  rcases applyInlineCode_cases valid with ⟨span, found, removes⟩ | unchanged | wraps
  · rw [removes] at longer
    rcases found_spans valid found with ⟨_, _, _, _, spans⟩
    have shorter := spans.shorter (decide (selection.extentOffset < selection.baseOffset))
    omega
  · rw [unchanged] at longer
    exact absurd longer (Nat.lt_irrefl _)
  · exact wraps.2

/-- The inserted runs are read as a code span whose content is the selection, exactly if the text
before them does not end in a backslash that escapes and leaves no run open that is as long as
an inserted run, or as one in the selection or behind it. -/
theorem applyInlineCode_reads_iff (valid : selection.Valid text)
    (longer : text.length < (applyInlineCode ⟨text, some selection⟩).text.length) :
    (∃ before content after,
        units.read (applyInlineCode ⟨text, some selection⟩).text =
          before ++ .code (longestBacktickRun (selected text selection) + 1) content :: after ∧
        units.allText before = text.take (low selection) ∧
        units.allText after = text.drop (high selection) ∧
        units.strip content = selected text selection) ↔
      (∀ piece ∈ (units.read (text.take (low selection))).getLast?, piece ≠ .item backslash) ∧
        ∀ run, .run run ∈ units.read (text.take (low selection)) →
          run ≠ longestBacktickRun (selected text selection) + 1 ∧
            run ∉ units.runs 0 (selected text selection) ∧
            run ∉ units.runs 0 (text.drop (high selection)) := by
  rcases wraps_of_longer valid longer with ⟨outside, wraps⟩
  have ordered := valid.low_lt
  have bounded := valid.high_le
  have nonempty := valid.selected_ne_nil
  have closed := closed_of_apart (Nat.le_trans (Nat.le_of_lt ordered) bounded) outside
  have fresh : longestBacktickRun (selected text selection) + 1 ∉
      units.runs 0 (padded (selected text selection)) := by
    rw [runs_padded]
    intro inside
    have most := runs_le_longest _ inside
    omega
  have exact_ := reads_span_iff closed (Nat.succ_pos _) (padded_enclosed nonempty) fresh
    (starts_of_apart outside)
  rw [runs_padded] at exact_
  rw [wraps, wrapCode_text, delimiterOf_eq]
  apply Iff.trans ?_ exact_
  constructor
  · intro reads
    rcases reads with ⟨before, content, after, pieces, ahead, behind, _⟩
    have whole := congrArg units.allText pieces
    rw [allText_read, allText_around, ahead, behind] at whole
    have inner := List.append_cancel_right (List.append_cancel_right
      (List.append_cancel_left whole))
    exact ⟨before, after, List.append_cancel_left inner ▸ pieces, ahead⟩
  · intro reads
    rcases reads with ⟨before, after, pieces, ahead⟩
    have whole := congrArg units.allText pieces
    rw [allText_read, allText_around, ahead] at whole
    have behind := List.append_cancel_left (List.append_cancel_left whole)
    exact ⟨before, _, after, pieces, ahead, behind.symm, strip_padded nonempty⟩

/-- Two ticks that stay open and a backslash that is itself escaped stand before the selection, and
three ticks behind it. -/
theorem applyInlineCode_reads_word :
    let text : Units := [tick, tick, 120, backslash, backslash, 121, space, tick, tick, tick]
    applyInlineCode ⟨text, some ⟨6, 5⟩⟩ =
        ⟨[tick, tick, 120, backslash, backslash, tick, 121, tick, space, tick, tick, tick],
          some ⟨7, 6⟩⟩ ∧
      ∃ before content after, units.read (applyInlineCode ⟨text, some ⟨6, 5⟩⟩).text =
        before ++ .code 1 content :: after ∧
          units.allText before = [tick, tick, 120, backslash, backslash] ∧
          units.allText after = [space, tick, tick, tick] ∧ units.strip content = [121] := by
  intro text
  have valid : (⟨6, 5⟩ : TextSelection).Valid text := ⟨by decide, by decide, by decide⟩
  have pieces : units.read (text.take (low ⟨6, 5⟩)) =
      [Piece.run 2, Piece.item 120, Piece.escape backslash] := rfl
  refine ⟨by decide, ?_⟩
  apply (applyInlineCode_reads_iff valid (by decide)).mpr
  rw [pieces]
  constructor
  · intro piece last
    have escaped : piece = .escape backslash := (Option.some.inj last).symm
    intro same
    cases escaped.symm.trans same
  · intro run inside
    have two : run = 2 := by simpa using inside
    subst two
    exact ⟨by decide, by decide, by decide⟩

/-- Behind a tick that is left open, `x y` has `y` selected: the tick closes before it. -/
theorem applyInlineCode_feeds_open_run :
    (⟨3, 4⟩ : TextSelection).Valid [tick, 120, space, 121] ∧
      applyInlineCode ⟨[tick, 120, space, 121], some ⟨3, 4⟩⟩ =
        ⟨[tick, 120, space, tick, 121, tick], some ⟨4, 5⟩⟩ ∧
      ¬ ∃ before content after, units.read [tick, 120, space, tick, 121, tick] =
        before ++ .code 1 content :: after ∧ units.allText before = [tick, 120, space] ∧
        units.allText after = [] ∧ units.strip content = [121] := by
  refine ⟨⟨by decide, by decide, by decide⟩, by decide, ?_⟩
  intro reads
  rcases reads with ⟨before, content, after, pieces, ahead, behind, _⟩
  have alone : units.Enclosed [121] := ⟨by decide, by decide, by decide⟩
  have whole := congrArg units.allText pieces
  rw [allText_read, allText_around, ahead, behind] at whole
  have same : content = [121] := by
    have inner : [121] ++ [tick] = content ++ [tick] := by simpa [Marks.ticks, units] using whole
    exact (List.append_cancel_right inner).symm
  rw [same] at pieces
  have closed : units.Closed [tick, 120, space] := by
    unfold Marks.Closed
    decide
  have apart : ∀ unit ∈ ([] : Units).head?, unit ≠ units.tick := by
    intro unit never
    cases never
  have clear := (reads_span_iff closed Nat.one_pos alone (by decide) apart).mp
    ⟨before, after, pieces, ahead⟩
  have open_ : units.read [tick, 120, space] = [.run 1, .item 120, .item space] := rfl
  exact (clear.2 1 (open_ ▸ List.mem_cons_self)).1 rfl

end Shortcut

end Burlmd.Interface
