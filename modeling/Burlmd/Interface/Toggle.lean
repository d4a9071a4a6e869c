import Burlmd.Interface.CodeToggle

/-!
# Shortcuts that toggle

What a shortcut puts around a selection it takes away again, and what it takes away is one pair of
delimiters at the selection. A single star is taken back only between runs of even length.
-/

namespace Burlmd.Interface

open Replacement
open Surrogates

/-! ## What a toggle is -/

/-- A delimiter, and the padding that a code span has inside of it. -/
def Pair : InlineEmphasis → Units → Units → Prop
  | .code, delimiter, padding =>
      (∃ n, 0 < n ∧ delimiter = List.replicate n tick) ∧ (padding = [] ∨ padding = [space])
  | kind, delimiter, padding => delimiter = kind.delimiter ∧ padding = []

section Toggles

variable (classes : Classes) (text : Units) (selection : TextSelection) (kind : InlineEmphasis)

/-- Only delimiters and padding are put around the selection, which keeps its characters and its
direction, and a second shortcut takes them back. -/
def WrapsBack (result : TextEditingValue) : Prop :=
  ∃ delimiter padding, Pair kind delimiter padding ∧
    result =
      ⟨text.take (low selection) ++ delimiter ++ padding ++ selected text selection ++
          (padding ++ delimiter ++ text.drop (high selection)),
        some (directed (decide (selection.extentOffset < selection.baseOffset))
          (text.take (low selection) ++ delimiter ++ padding).length
          (text.take (low selection) ++ delimiter ++ padding ++ selected text selection).length)⟩ ∧
    applyInlineEmphasis classes result kind.delimiter = ⟨text, some selection⟩

/-- One pair of delimiters with its padding is taken away, where the selection is what is between
them, with or without the padding, or all of it. -/
def Unwraps (result : TextEditingValue) : Prop :=
  ∃ delimiter padding before content after, Pair kind delimiter padding ∧
    text = before ++ delimiter ++ padding ++ content ++ padding ++ delimiter ++ after ∧
    (low selection = (before ++ delimiter).length ∧
        high selection = (before ++ delimiter ++ padding ++ content ++ padding).length ∨
      low selection = (before ++ delimiter ++ padding).length ∧
        high selection = (before ++ delimiter ++ padding ++ content).length ∨
      low selection = before.length ∧
        high selection =
          (before ++ delimiter ++ padding ++ content ++ padding ++ delimiter).length) ∧
    result = ⟨before ++ content ++ after,
      some (directed (decide (selection.extentOffset < selection.baseOffset)) before.length
        (before.length + content.length))⟩

structure Toggles : Prop where
  wraps : let result := applyInlineEmphasis classes ⟨text, some selection⟩ kind.delimiter
    text.length < result.text.length → WrapsBack classes text selection kind result
  unwraps : let result := applyInlineEmphasis classes ⟨text, some selection⟩ kind.delimiter
    result.text.length < text.length → Unwraps text selection kind result
  keeps : let result := applyInlineEmphasis classes ⟨text, some selection⟩ kind.delimiter
    result.text.length = text.length → result = ⟨text, some selection⟩

variable {classes : Classes} {text : Units} {selection : TextSelection} {kind : InlineEmphasis}

theorem Toggles.of_longer
    (longer : text.length <
      (applyInlineEmphasis classes ⟨text, some selection⟩ kind.delimiter).text.length)
    (back : WrapsBack classes text selection kind
      (applyInlineEmphasis classes ⟨text, some selection⟩ kind.delimiter)) :
    Toggles classes text selection kind := by
  constructor
  · intro result _
    exact back
  · intro result shorter
    exact absurd shorter (Nat.lt_asymm longer)
  · intro result same
    exact absurd same (Nat.ne_of_gt longer)

theorem Toggles.of_shorter
    (shorter : (applyInlineEmphasis classes ⟨text, some selection⟩ kind.delimiter).text.length <
      text.length)
    (unwraps : Unwraps text selection kind
      (applyInlineEmphasis classes ⟨text, some selection⟩ kind.delimiter)) :
    Toggles classes text selection kind := by
  constructor
  · intro result longer
    exact absurd shorter (Nat.lt_asymm longer)
  · intro result _
    exact unwraps
  · intro result same
    exact absurd same (Nat.ne_of_lt shorter)

theorem Toggles.of_unchanged
    (unchanged : applyInlineEmphasis classes ⟨text, some selection⟩ kind.delimiter =
      ⟨text, some selection⟩) : Toggles classes text selection kind := by
  constructor
  · rw [unchanged]
    intro result longer
    exact absurd longer (Nat.lt_irrefl _)
  · rw [unchanged]
    intro result shorter
    exact absurd shorter (Nat.lt_irrefl _)
  · intro result _
    exact unchanged

end Toggles

/-! ## Code -/

section Code

variable {classes : Classes} {text : Units} {selection : TextSelection}

theorem codeSpanAround_none {high : Nat} {low : Nat} (positive : 0 < low)
    (before : text[low - 1]? = some space) : codeSpanAround text low high false = none := by
  rcases List.getElem?_eq_some_iff.mp before with ⟨inside, isSpace⟩
  have cut : text.take low = text.take (low - 1) ++ [space] := by
    have one : low = low - 1 + 1 := by omega
    rw [one, List.take_succ_eq_append_getElem inside, Nat.add_sub_cancel, isSpace]
  have run : runEndingAt tick text low = 0 := by
    unfold runEndingAt
    rw [cut, List.reverse_append]
    rfl
  unfold codeSpanAround
  dsimp only
  split
  · rfl
  · rw [if_neg fun wrong => by cases wrong.1]
    exact if_pos (Or.inl run)

/-- A range with one space more at both ends. -/
theorem substring_spaced {start low high : Nat} (positive : start + 1 = low) (ordered : low ≤ high)
    (before : text[low - 1]? = some space) (after : text[high]? = some space) :
    substring text start (high + 1) = [space] ++ substring text low high ++ [space] := by
  rcases List.getElem?_eq_some_iff.mp before with ⟨opens, isFirst⟩
  rcases List.getElem?_eq_some_iff.mp after with ⟨closes, isLast⟩
  have first : (text.take high)[start]? = some space := by
    rw [List.getElem?_take_of_lt (by omega), ← before, ← positive, Nat.add_sub_cancel]
  rcases List.getElem?_eq_some_iff.mp first with ⟨inside, isSpace⟩
  unfold substring
  rw [List.take_succ_eq_append_getElem closes, isLast,
    List.drop_append_of_le_length (Nat.le_of_lt inside), List.drop_eq_getElem_cons inside, isSpace,
    positive]
  rfl

theorem isAllSpaces_spaced (text : Units) : isAllSpaces ([space] ++ text ++ [space]) = isAllSpaces text := by
  unfold isAllSpaces
  simp

theorem wrapCode_longer (valid : selection.Valid text) (rev : Bool) :
    text.length < (wrapCode text (low selection) (high selection) rev).text.length := by
  have whole := congrArg List.length valid.around
  rw [wrapCode_eq valid]
  unfold front rear
  rw [delimiterOf_eq_cons]
  simp only [List.length_append, List.length_cons] at whole ⊢
  omega

theorem applyInlineEmphasis_code (classes : Classes) (value : TextEditingValue) :
    applyInlineEmphasis classes value InlineEmphasis.code.delimiter = applyInlineCode value := by
  unfold applyInlineEmphasis applyInlineCode
  cases value.selection with
  | none => rfl
  | some range => exact (if_neg (List.cons_ne_nil _ _)).trans (if_pos rfl)

section Spans

variable {span : CodeSpan} {before physical after : Units} {n : Nat}

/-- A span is taken away with the padding that its content has. -/
theorem unwraps_span (spans : span.Spans text before n physical after)
    (ranges : ∃ padding, (padding = [] ∨ padding = [space]) ∧
      physical = padding ++ normalizedCodeSpanContent physical ++ padding ∧
      (low selection = span.contentStart ∧ high selection = span.contentEnd ∨
        low selection = span.contentStart + padding.length ∧
          high selection + padding.length = span.contentEnd ∨
        low selection = span.start ∧ high selection = span.stop)) :
    Unwraps text selection .code
      (removeCodeSpan text span (decide (selection.extentOffset < selection.baseOffset))) := by
  rcases ranges with ⟨padding, shape, content, ranges⟩
  have inner : before ++ units.ticks n ++ physical =
      before ++ units.ticks n ++ padding ++ normalizedCodeSpanContent physical ++ padding := by
    conv_lhs => rw [content]
    simp only [List.append_assoc]
  refine ⟨units.ticks n, padding, before, normalizedCodeSpanContent physical, after,
    ⟨⟨n, spans.positive, rfl⟩, shape⟩, ?_, ?_, spans.removed _⟩
  · rw [← inner]
    exact spans.whole
  · have contentStart := spans.contentStart
    have contentEnd := spans.contentEnd
    rw [inner] at contentEnd
    have long : (before ++ units.ticks n ++ padding).length =
        (before ++ units.ticks n).length + padding.length := List.length_append
    have longer : (before ++ units.ticks n ++ padding ++ normalizedCodeSpanContent physical ++
        padding).length = (before ++ units.ticks n ++ padding ++
          normalizedCodeSpanContent physical).length + padding.length := List.length_append
    rcases ranges with direct | padded | full
    · exact Or.inl ⟨direct.1.trans contentStart, direct.2.trans contentEnd⟩
    · exact Or.inr (Or.inl ⟨by omega, by omega⟩)
    · have stop := spans.stop
      rw [inner] at stop
      exact Or.inr (Or.inr ⟨full.1.trans spans.start, full.2.trans stop⟩)

end Spans

/-- Every span that the shortcut takes away stands at the selection. -/
theorem found_unwraps (valid : selection.Valid text) {span : CodeSpan}
    (found : (codeSpanAroundSelection text (low selection) (high selection)).or
      (fullCodeSpan text (low selection) (high selection)) = some span)
    (mixed : (codeSpanAround text (low selection) (high selection) true).isSome = true →
      isAllSpaces (selected text selection) = false) :
    Unwraps text selection .code
      (removeCodeSpan text span (decide (selection.extentOffset < selection.baseOffset))) := by
  have ordered := Nat.le_of_lt valid.low_lt
  unfold codeSpanAroundSelection at found
  rw [Option.or_eq_some_iff, Option.or_eq_some_iff] at found
  rcases found with (direct | ⟨_, padded⟩) | ⟨_, full⟩
  · rcases codeSpanAround_spans ordered direct with
      ⟨⟨before, n, physical, after, spans⟩, opens, closes, _⟩
    rcases exists_padding physical with ⟨padding, shape, content⟩
    exact unwraps_span spans ⟨padding, shape, content, Or.inl ⟨opens.symm, closes.symm⟩⟩
  · rcases codeSpanAround_spans ordered padded with
      ⟨⟨before, n, physical, after, spans⟩, opens, closes, spaced⟩
    rcases spaced rfl with ⟨first, last⟩
    have content : physical = [space] ++ selected text selection ++ [space] := by
      rw [← spans.content, closes]
      exact substring_spaced opens ordered first last
    have shown : normalizedCodeSpanContent physical = selected text selection := by
      rw [normalizedCodeSpanContent_eq_strip, content]
      exact strip_spaced (mixed (Option.isSome_iff_exists.mpr ⟨span, padded⟩))
    apply unwraps_span spans
    refine ⟨[space], Or.inr rfl, ?_, Or.inr (Or.inl ⟨opens.symm, closes.symm⟩)⟩
    rw [shown]
    exact content
  · rcases fullCodeSpan_spans valid.high_le full with ⟨⟨before, n, physical, after, spans⟩, start, stop⟩
    rcases exists_padding physical with ⟨padding, shape, content⟩
    exact unwraps_span spans ⟨padding, shape, content, Or.inr (Or.inr ⟨start.symm, stop.symm⟩)⟩

/-- The code shortcut toggles, but for a selection of spaces with one more space around it in a code
span of spaces. -/
theorem code_toggles_iff (classes : Classes) (valid : selection.Valid text) :
    Toggles classes text selection .code ↔
      ((codeSpanAround text (low selection) (high selection) true).isSome = true →
        isAllSpaces (selected text selection) = false) := by
  have ordered := Nat.le_of_lt valid.low_lt
  constructor
  · intro toggles isPadded
    rcases Option.isSome_iff_exists.mp isPadded with ⟨span, padded⟩
    rcases codeSpanAround_spans ordered padded with
      ⟨⟨before, n, physical, after, spans⟩, opens, closes, spaced⟩
    rcases spaced rfl with ⟨first, last⟩
    rw [Bool.toNat_true] at opens closes
    apply Bool.eq_false_iff.mpr
    intro spaces
    have content : physical = [space] ++ selected text selection ++ [space] := by
      rw [← spans.content, closes]
      exact substring_spaced opens ordered first last
    have kept : normalizedCodeSpanContent physical = physical := by
      rw [normalizedCodeSpanContent_eq_strip, content]
      apply strip_spaces
      rw [isAllSpaces_spaced]
      exact spaces
    have lines : lineFeed ∉ selected text selection ∧ carriageReturn ∉ selected text selection := by
      constructor
      · intro inside
        exact absurd (isAllSpaces_iff.mp spaces _ inside) (by decide)
      · intro inside
        exact absurd (isAllSpaces_iff.mp spaces _ inside) (by decide)
    have removes := applyInlineCode_line valid lines
    unfold codeSpanAroundSelection at removes
    rw [codeSpanAround_none (by omega) first, padded] at removes
    dsimp only [Option.or] at removes
    have shorter := spans.shorter (decide (selection.extentOffset < selection.baseOffset))
    rw [← removes, ← applyInlineEmphasis_code classes] at shorter
    rcases toggles.unwraps shorter with ⟨_, _, before', content', _, _, _, ranges, result⟩
    rw [applyInlineEmphasis_code, removes, spans.removed, kept] at result
    have range := Option.some.inj (congrArg TextEditingValue.selection result)
    have starts := congrArg low range
    have stops := congrArg high range
    rw [low_directed (Nat.le_add_right _ _), low_directed (Nat.le_add_right _ _)] at starts
    rw [high_directed (Nat.le_add_right _ _), high_directed (Nat.le_add_right _ _)] at stops
    have long := congrArg List.length content
    rw [selected, List.length_append, List.length_append, substring_length valid.high_le] at long
    -- the selection is two units shorter than what is left of the span
    simp only [List.length_append, List.length_singleton] at ranges long
    omega
  · intro mixed
    have code := applyInlineEmphasis_code classes ⟨text, some selection⟩
    rcases applyInlineCode_cases valid with
      ⟨span, found, removes⟩ | unchanged | ⟨lines, outside, wraps⟩
    · rcases found_spans valid found with ⟨_, _, _, _, spans⟩
      apply Toggles.of_shorter
      · rw [code, removes]
        exact spans.shorter _
      · rw [code, removes]
        exact found_unwraps valid found mixed
    · exact Toggles.of_unchanged (code.trans unchanged)
    · apply Toggles.of_longer
      · rw [code, wraps]
        exact wrapCode_longer valid _
      · refine ⟨delimiterOf (selected text selection), padding (selected text selection),
          ⟨⟨_, Nat.succ_pos _, rfl⟩, padding_cases _⟩, ?_, ?_⟩
        · exact code.trans (wraps.trans (wrapCode_eq valid _))
        · rw [code, applyInlineEmphasis_code]
          exact (congrArg applyInlineCode wraps).trans
            (applyInlineCode_wrapCode valid lines outside _ rfl)

end Code

/-! ## Delimiters -/

section Delimiters

variable {classes : Classes} {text : Units} {selection : TextSelection} {kind : InlineEmphasis}

theorem delimiter_units (kind : InlineEmphasis) :
    ∀ unit ∈ kind.delimiter, isHigh unit = false ∧ isLow unit = false := by
  have plain : kind.delimiter.all (fun unit => !isHigh unit && !isLow unit) = true := by
    cases kind <;> decide
  intro unit inside
  simpa using List.all_eq_true.mp plain unit inside

theorem delimiter_ne_nil (kind : InlineEmphasis) : kind.delimiter ≠ [] := by
  cases kind <;> decide

theorem pair_of_fenced (fenced : kind ≠ .code) : Pair kind kind.delimiter [] := by
  cases kind with
  | code => exact absurd rfl fenced
  | bold => exact ⟨rfl, rfl⟩
  | italic => exact ⟨rfl, rfl⟩
  | strike => exact ⟨rfl, rfl⟩

theorem canUnwrap_at {low high : Nat} {delimiter : Units}
    (unwraps : canUnwrap classes text low high delimiter = true) :
    surroundsInner text low high delimiter = true ∨ selectsFullRun text low high delimiter = true := by
  unfold canUnwrap at unwraps
  simp only [Bool.or_eq_true, Bool.and_eq_true] at unwraps
  rcases unwraps with inner | full
  · exact Or.inl inner.1.1
  · exact Or.inr full.1.1

theorem applyInlineEmphasis_fenced (valid : selection.Valid text) (fenced : kind ≠ .code) :
    applyInlineEmphasis classes ⟨text, some selection⟩ kind.delimiter =
      if canUnwrap classes text (low selection) (high selection) kind.delimiter then
        unwrap text (low selection) (high selection) kind.delimiter
          (decide (selection.extentOffset < selection.baseOffset))
      else if canWrapWithEmphasisDelimiter classes text (low selection) (high selection)
          kind.delimiter then
        wrap text (low selection) (high selection) kind.delimiter
          (decide (selection.extentOffset < selection.baseOffset))
      else ⟨text, some selection⟩ := by
  rcases selection with ⟨base, extent⟩
  have inside : ¬ (isValidUtf16SelectionBoundary text base = false ∨
      isValidUtf16SelectionBoundary text extent = false) := by
    rw [valid.base, valid.extent]
    simp
  have apart : ¬ base = extent := valid.apart
  have some_ := delimiter_ne_nil kind
  have other : kind.delimiter ≠ [tick] := by
    cases kind with
    | code => exact absurd rfl fenced
    | bold => decide
    | italic => decide
    | strike => decide
  unfold applyInlineEmphasis low high
  dsimp only
  rw [if_neg some_, if_neg other, if_neg inside, if_neg apart]
  cases unwraps : canUnwrap classes text (min base extent) (max base extent) kind.delimiter with
  | false => simp
  | true =>
    have either := canUnwrap_at unwraps
    rw [← Bool.or_eq_true] at either
    simp [either]

/-! ### Taking delimiters away -/

section Around

variable (before delimiter content after : Units)

theorem surroundsInner_around :
    surroundsInner (before ++ delimiter ++ content ++ (delimiter ++ after))
      (before ++ delimiter).length (before ++ delimiter ++ content).length delimiter = true := by
  have opening : substring (before ++ delimiter ++ content ++ (delimiter ++ after)) before.length
      (before ++ delimiter).length = delimiter := by
    rw [List.append_assoc (before ++ delimiter)]
    exact substring_append _ _ _
  have closing : substring (before ++ delimiter ++ content ++ (delimiter ++ after))
      (before ++ delimiter ++ content).length
      (before ++ delimiter ++ content ++ delimiter).length = delimiter := by
    rw [← List.append_assoc]
    exact substring_append _ _ _
  have back : (before ++ delimiter).length - delimiter.length = before.length := by
    rw [List.length_append, Nat.add_sub_cancel]
  have onward : (before ++ delimiter ++ content).length + delimiter.length =
      (before ++ delimiter ++ content ++ delimiter).length := List.length_append.symm
  unfold surroundsInner
  rw [back, onward, opening, closing]
  simp

/-- A pair of delimiters gives way to what is between them. -/
theorem replaceRange_pair :
    replaceRange (before ++ delimiter ++ content ++ (delimiter ++ after)) before.length
      (before ++ delimiter ++ content ++ delimiter).length content = before ++ content ++ after := by
  have cut := replaceRange_append before (delimiter ++ content ++ delimiter) after content
  simpa only [List.append_assoc] using cut

theorem substring_pair :
    substring (before ++ delimiter ++ content ++ (delimiter ++ after)) (before ++ delimiter).length
      (before ++ delimiter ++ content).length = content := substring_append _ _ _

theorem unwrap_around (rev : Bool) :
    unwrap (before ++ delimiter ++ content ++ (delimiter ++ after)) (before ++ delimiter).length
        (before ++ delimiter ++ content).length delimiter rev =
      ⟨before ++ content ++ after,
        some (directed rev before.length (before.length + content.length))⟩ := by
  have back : (before ++ delimiter).length - delimiter.length = before.length := by
    rw [List.length_append, Nat.add_sub_cancel]
  have opens : before.length + delimiter.length = (before ++ delimiter).length :=
    List.length_append.symm
  have stop : (before ++ delimiter ++ content).length + delimiter.length =
      (before ++ delimiter ++ content ++ delimiter).length := List.length_append.symm
  have closes : (before ++ delimiter ++ content).length - delimiter.length + delimiter.length =
      (before ++ delimiter ++ content).length := by
    simp only [List.length_append]
    omega
  have long : (before ++ delimiter ++ content).length - delimiter.length - before.length =
      content.length := by
    simp only [List.length_append]
    omega
  unfold unwrap
  rw [surroundsInner_around]
  dsimp only [if_true]
  simp only [if_true]
  rw [back, opens, closes, stop, long, substring_pair, replaceRange_pair]

theorem unwrap_full (rev : Bool)
    (inner : surroundsInner (before ++ delimiter ++ content ++ (delimiter ++ after)) before.length
      (before ++ delimiter ++ content ++ delimiter).length delimiter = false) :
    unwrap (before ++ delimiter ++ content ++ (delimiter ++ after)) before.length
        (before ++ delimiter ++ content ++ delimiter).length delimiter rev =
      ⟨before ++ content ++ after,
        some (directed rev before.length (before.length + content.length))⟩ := by
  have opens : before.length + delimiter.length = (before ++ delimiter).length :=
    List.length_append.symm
  have closes : (before ++ delimiter ++ content ++ delimiter).length - delimiter.length * 2 +
      delimiter.length = (before ++ delimiter ++ content).length := by
    simp only [List.length_append]
    omega
  have long : (before ++ delimiter ++ content ++ delimiter).length - delimiter.length * 2 -
      before.length = content.length := by
    simp only [List.length_append]
    omega
  unfold unwrap
  rw [inner]
  simp only [Bool.false_eq_true, if_false]
  rw [opens, closes, long, Nat.add_zero, substring_pair, replaceRange_pair]

end Around

/-- A text with a delimiter at both sides of a range. -/
theorem exists_of_surrounds {low high : Nat} {delimiter : Units} (ordered : low ≤ high)
    (surrounds : surroundsInner text low high delimiter = true) :
    ∃ before after,
      text = before ++ delimiter ++ substring text low high ++ (delimiter ++ after) ∧
        low = (before ++ delimiter).length ∧
        high = (before ++ delimiter ++ substring text low high).length := by
  unfold surroundsInner at surrounds
  simp only [Bool.and_eq_true, decide_eq_true_eq] at surrounds
  rcases surrounds with ⟨⟨⟨short, bounded⟩, opening⟩, closing⟩
  have first : text.take (low - delimiter.length) ++ delimiter = text.take low := by
    rw [← take_append_substring (Nat.sub_le low delimiter.length), opening]
  have last : text.take high ++ delimiter = text.take (high + delimiter.length) := by
    rw [← take_append_substring (Nat.le_add_right high delimiter.length), closing]
  have middle : text.take (low - delimiter.length) ++ delimiter ++ substring text low high =
      text.take high := by
    rw [first, take_append_substring ordered]
  refine ⟨text.take (low - delimiter.length), text.drop (high + delimiter.length), ?_, ?_, ?_⟩
  · rw [middle, ← List.append_assoc, last, List.take_append_drop]
  · rw [first, List.length_take]
    omega
  · rw [middle, List.length_take]
    omega

/-- A text with a delimiter at both ends of a range. -/
theorem exists_of_full {low high : Nat} {delimiter : Units} (ordered : low ≤ high)
    (bounded : high ≤ text.length) (full : selectsFullRun text low high delimiter = true) :
    ∃ before content after, text = before ++ delimiter ++ content ++ (delimiter ++ after) ∧
      low = before.length ∧ high = (before ++ delimiter ++ content ++ delimiter).length := by
  unfold selectsFullRun at full
  simp only [Bool.and_eq_true, decide_eq_true_eq] at full
  rcases full with ⟨⟨long, opening⟩, closing⟩
  rcases List.isPrefixOf_iff_prefix.mp opening with ⟨behind, whole⟩
  have count := congrArg List.length whole
  rw [List.length_append] at count
  have suffix_ : delimiter <:+ behind := by
    apply List.suffix_of_suffix_length_le (List.isSuffixOf_iff_suffix.mp closing)
    · rw [← whole]
      exact List.suffix_append _ _
    · omega
  rcases suffix_ with ⟨content, ends⟩
  have around : text.take low ++ substring text low high ++ text.drop high = text :=
    around_selection ordered
  rw [← whole, ← ends] at around
  refine ⟨text.take low, content, text.drop high, ?_, ?_, ?_⟩
  · simpa only [List.append_assoc] using around.symm
  · rw [List.length_take]
    omega
  · have stop : (substring text low high).length = high - low := substring_length bounded
    rw [← whole, ← ends] at stop
    simp only [List.length_append, List.length_take] at stop ⊢
    omega

/-- A pair of delimiters that the shortcut takes away stands at the selection. -/
theorem fenced_unwraps (valid : selection.Valid text) (fenced : kind ≠ .code)
    (unwraps : canUnwrap classes text (low selection) (high selection) kind.delimiter = true) :
    Unwraps text selection kind
        (unwrap text (low selection) (high selection) kind.delimiter
          (decide (selection.extentOffset < selection.baseOffset))) ∧
      (unwrap text (low selection) (high selection) kind.delimiter
        (decide (selection.extentOffset < selection.baseOffset))).text.length < text.length := by
  have ordered := Nat.le_of_lt valid.low_lt
  have some_ := List.length_pos_iff.mpr (delimiter_ne_nil kind)
  have pair := pair_of_fenced fenced
  by_cases surrounds : surroundsInner text (low selection) (high selection) kind.delimiter = true
  · rcases exists_of_surrounds ordered surrounds with ⟨before, after, whole, starts, stops⟩
    have result := unwrap_around before kind.delimiter
      (substring text (low selection) (high selection)) after
      (decide (selection.extentOffset < selection.baseOffset))
    rw [← whole, ← starts, ← stops] at result
    rw [result]
    constructor
    · refine ⟨kind.delimiter, [], before, substring text (low selection) (high selection), after,
        pair, ?_, Or.inl ⟨starts, ?_⟩, rfl⟩
      · simpa only [List.append_nil, List.append_assoc] using whole
      · rw [List.append_nil, List.append_nil]
        exact stops
    · have long := congrArg List.length whole
      simp only [List.length_append] at long ⊢
      omega
  · have full := (canUnwrap_at unwraps).resolve_left surrounds
    rcases exists_of_full ordered valid.high_le full with
      ⟨before, content, after, whole, starts, stops⟩
    rw [whole, starts, stops] at surrounds
    have result := unwrap_full before kind.delimiter content after
      (decide (selection.extentOffset < selection.baseOffset)) (Bool.eq_false_iff.mpr surrounds)
    rw [← whole, ← starts, ← stops] at result
    rw [result]
    constructor
    · refine ⟨kind.delimiter, [], before, content, after, pair, ?_,
        Or.inr (Or.inr ⟨starts, ?_⟩), ?_⟩
      · simpa only [List.append_nil, List.append_assoc] using whole
      · rw [List.append_nil, List.append_nil]
        exact stops
      · rw [starts]
    · have long := congrArg List.length whole
      simp only [List.length_append] at long ⊢
      omega

/-! ### Runs of stars -/

section Stars

variable {offset : Nat}

theorem runStartingAt_of_unit {unit : UInt16} (here : text[offset]? = some unit) :
    runStartingAt unit text offset = runStartingAt unit text (offset + 1) + 1 := by
  rcases List.getElem?_eq_some_iff.mp here with ⟨inside, same⟩
  unfold runStartingAt
  rw [List.drop_eq_getElem_cons inside, same]
  simp

theorem runEndingAt_of_unit {unit : UInt16} (here : text[offset]? = some unit) :
    runEndingAt unit text (offset + 1) = runEndingAt unit text offset + 1 := by
  rcases List.getElem?_eq_some_iff.mp here with ⟨inside, same⟩
  unfold runEndingAt
  rw [List.take_succ_eq_append_getElem inside, same, List.reverse_append]
  simp

theorem runEndingAt_le (unit : UInt16) (text : Units) (offset : Nat) :
    runEndingAt unit text offset ≤ offset := by
  have short := (List.takeWhile_prefix (· = unit) (l := (text.take offset).reverse)).length_le
  rw [List.length_reverse, List.length_take] at short
  unfold runEndingAt
  omega

theorem starRunLengthAt_eq (here : text[offset]? = some star) :
    starRunLengthAt text offset = runEndingAt star text offset + runStartingAt star text offset := by
  have short := runEndingAt_le star text offset
  unfold starRunLengthAt starRunAt
  rw [if_pos here]
  dsimp only [StarRun.length]
  omega

/-- Neighbouring stars are of one run. -/
theorem starRunLengthAt_succ (here : text[offset]? = some star)
    (next : text[offset + 1]? = some star) :
    starRunLengthAt text (offset + 1) = starRunLengthAt text offset := by
  rw [starRunLengthAt_eq here, starRunLengthAt_eq next, runStartingAt_of_unit here,
    runEndingAt_of_unit here]
  omega

end Stars

/-! ### The wrapped text -/

theorem getElem?_between (ahead : Units) (unit : UInt16) (behind : Units) :
    (ahead ++ ([unit] ++ behind))[ahead.length]? = some unit := by
  rw [List.getElem?_append_right (Nat.le_refl _), Nat.sub_self]
  rfl

theorem opening_star (ahead content behind : Units) :
    (ahead ++ [star] ++ content ++ ([star] ++ behind))[ahead.length]? = some star := by
  simp only [List.append_assoc]
  exact getElem?_between _ _ _

theorem wrapped_text (text : Units) (selection : TextSelection) (delimiter : Units) :
    replaceRange text (low selection) (high selection)
        (delimiter ++ selected text selection ++ delimiter) =
      text.take (low selection) ++ delimiter ++ selected text selection ++
        (delimiter ++ text.drop (high selection)) := by
  unfold replaceRange
  simp only [List.append_assoc]

theorem wrap_eq (valid : selection.Valid text) (delimiter : Units) (rev : Bool) :
    wrap text (low selection) (high selection) delimiter rev =
      ⟨text.take (low selection) ++ delimiter ++ selected text selection ++
          (delimiter ++ text.drop (high selection)),
        some (directed rev (text.take (low selection) ++ delimiter).length
          (text.take (low selection) ++ delimiter ++ selected text selection).length)⟩ := by
  have start : (text.take (low selection) ++ delimiter).length =
      low selection + delimiter.length := by
    rw [List.length_append, valid.length_take]
  have stop : (text.take (low selection) ++ delimiter ++ selected text selection).length =
      high selection + delimiter.length := by
    have long := valid.length_selected
    rw [List.length_append, start]
    omega
  have whole := wrapped_text text selection delimiter
  unfold selected at whole
  unfold wrap
  rw [start, stop, whole]
  rfl

theorem canWrap_eq (classes : Classes) (valid : selection.Valid text) (delimiter : Units) :
    canWrapWithEmphasisDelimiter classes text (low selection) (high selection) delimiter =
      isValidEmphasisDelimiterPair classes
        (text.take (low selection) ++ delimiter ++ selected text selection ++
          (delimiter ++ text.drop (high selection))) delimiter (text.take (low selection)).length
        (text.take (low selection) ++ delimiter ++ selected text selection).length := by
  have stop : (text.take (low selection) ++ delimiter ++ selected text selection).length =
      high selection + delimiter.length := by
    have long := valid.length_selected
    rw [List.length_append, List.length_append, valid.length_take]
    omega
  rw [← wrapped_text, stop, valid.length_take]
  unfold canWrapWithEmphasisDelimiter isValidEmphasisDelimiterPair
  split
  · rfl
  · rfl

/-- In the wrapped text the pair can be taken away, if it is not a single star or both runs of
stars are odd. -/
theorem canUnwrap_wrapped (delimiter ahead content behind : Units)
    (pair : isValidEmphasisDelimiterPair classes (ahead ++ delimiter ++ content ++
      (delimiter ++ behind)) delimiter ahead.length (ahead ++ delimiter ++ content).length = true) :
    canUnwrap classes (ahead ++ delimiter ++ content ++ (delimiter ++ behind))
        (ahead ++ delimiter).length (ahead ++ delimiter ++ content).length delimiter = true ↔
      (delimiter = [star] →
        isOddStarDelimiterPair (ahead ++ delimiter ++ content ++ (delimiter ++ behind))
          ahead.length (ahead ++ delimiter ++ content).length = true) := by
  have back : (ahead ++ delimiter).length - delimiter.length = ahead.length := by
    rw [List.length_append, Nat.add_sub_cancel]
  constructor
  · intro unwraps single
    subst single
    have before : (ahead ++ [star]).length - 1 = ahead.length := back
    unfold canUnwrap at unwraps
    simp only [Bool.or_eq_true, Bool.and_eq_true] at unwraps
    rcases unwraps with ⟨_, odd⟩ | ⟨⟨full, _⟩, odd⟩
    · rw [before] at odd
      exact odd.resolve_left (by decide)
    · -- the selection starts and ends with stars, which are of the two runs around it
      unfold selectsFullRun at full
      rw [substring_pair] at full
      simp only [Bool.and_eq_true] at full
      rcases List.isPrefixOf_iff_prefix.mp full.1.2 with ⟨rest, starts⟩
      rcases List.isSuffixOf_iff_suffix.mp full.2 with ⟨front, ends⟩
      have outer := opening_star ahead content behind
      have inner : (ahead ++ [star] ++ content ++ ([star] ++ behind))[ahead.length + 1]? =
          some star := by
        have here := getElem?_between (ahead ++ [star]) star (rest ++ ([star] ++ behind))
        have one : (ahead ++ [star]).length = ahead.length + 1 := List.length_append
        rw [one] at here
        rw [← starts]
        simpa only [List.append_assoc] using here
      have inner' : (ahead ++ [star] ++ content ++ ([star] ++ behind))[(ahead ++ [star] ++
          front).length]? = some star := by
        have here := getElem?_between (ahead ++ [star] ++ front) star ([star] ++ behind)
        rw [← ends]
        simpa only [List.append_assoc] using here
      have outer' : (ahead ++ [star] ++ content ++ ([star] ++ behind))[(ahead ++ [star] ++
          front).length + 1]? = some star := by
        have here := getElem?_between (ahead ++ [star] ++ front ++ [star]) star behind
        have one : (ahead ++ [star] ++ front ++ [star]).length =
            (ahead ++ [star] ++ front).length + 1 := List.length_append
        rw [one] at here
        rw [← ends]
        simpa only [List.append_assoc] using here
      have opening := starRunLengthAt_succ outer inner
      have closing := starRunLengthAt_succ inner' outer'
      have last : (ahead ++ [star] ++ content).length = (ahead ++ [star] ++ front).length + 1 := by
        rw [← ends, ← List.append_assoc, List.length_append]
        rfl
      have odd := odd.resolve_left (by decide)
      unfold isOddStarDelimiterPair at odd ⊢
      rw [last, closing, ← opening]
      rw [last, Nat.sub_eq_of_eq_add rfl] at odd
      have start : (ahead ++ [star]).length = ahead.length + 1 := List.length_append
      rw [start] at odd
      exact odd
  · intro odd
    unfold canUnwrap
    rw [surroundsInner_around, back, pair]
    by_cases single : delimiter = [star]
    · have here := odd single
      subst single
      have before : (ahead ++ [star]).length - 1 = ahead.length := back
      rw [before, here]
      simp
    · simp [single]

/-! ### Single stars -/

section Single

variable {ahead content behind : Units}

theorem takeWhile_append_of_other {unit : UInt16} {first : Units}
    (mixed : ∃ other ∈ first, other ≠ unit) (second : Units) :
    (first ++ second).takeWhile (· = unit) = first.takeWhile (· = unit) := by
  rcases mixed with ⟨other, inside, different⟩
  rw [List.takeWhile_append, if_neg]
  intro whole
  have same := (List.takeWhile_prefix (· = unit)).eq_of_length whole
  rw [← same] at inside
  have isUnit := List.mem_takeWhile_imp inside
  exact different (by simpa using isUnit)

theorem takeWhile_append_of_all {unit : UInt16} {first : Units}
    (same : ∀ other ∈ first, other = unit) (second : Units) :
    (first ++ second).takeWhile (· = unit) = first ++ second.takeWhile (· = unit) := by
  apply List.takeWhile_append_of_pos
  intro other inside
  exact decide_eq_true (same other inside)

/-- The pair that stars around stars would be is one run. -/
theorem mixed_of_pair (pair : isValidStarPair classes (ahead ++ [star] ++ content ++
      ([star] ++ behind)) ahead.length (ahead ++ [star] ++ content).length = true) :
    ∃ other ∈ content, other ≠ star := by
  by_contra none_
  have stars : ∀ other ∈ content.reverse ++ [star], other = star := by
    intro other inside
    rcases List.mem_append.mp inside with inside | single
    · by_contra different
      exact none_ ⟨other, List.mem_reverse.mp inside, different⟩
    · exact List.mem_singleton.mp single
  have opening := opening_star ahead content behind
  have closing : (ahead ++ [star] ++ content ++ ([star] ++ behind))[(ahead ++ [star] ++
      content).length]? = some star := getElem?_between _ _ _
  have first : runEndingAt star (ahead ++ [star] ++ content ++ ([star] ++ behind)) ahead.length =
      (ahead.reverse.takeWhile (· = star)).length := by
    simp only [List.append_assoc]
    exact runEndingAt_append _ _ _
  have last : runEndingAt star (ahead ++ [star] ++ content ++ ([star] ++ behind))
      (ahead ++ [star] ++ content).length =
      content.length + 1 + (ahead.reverse.takeWhile (· = star)).length := by
    rw [runEndingAt_append, List.reverse_append, List.reverse_append]
    have turned : content.reverse ++ ([star].reverse ++ ahead.reverse) =
        content.reverse ++ [star] ++ ahead.reverse := (List.append_assoc _ _ _).symm
    rw [turned, takeWhile_append_of_all stars, List.length_append, List.length_append,
      List.length_reverse]
    rfl
  unfold isValidStarPair starRunAt at pair
  rw [if_pos opening, if_pos closing] at pair
  dsimp only at pair
  rw [first, last, if_pos] at pair
  · cases pair
  · simp only [List.length_append, List.length_singleton]
    omega

theorem isOdd_wrapped (ahead behind : Units) (mixed : ∃ other ∈ content, other ≠ star) :
    isOddStarDelimiterPair (ahead ++ [star] ++ content ++ ([star] ++ behind)) ahead.length
        (ahead ++ [star] ++ content).length = true ↔
      (runEndingAt star (ahead ++ content ++ behind) ahead.length +
          runStartingAt star (ahead ++ content ++ behind) ahead.length) % 2 = 0 ∧
        (runEndingAt star (ahead ++ content ++ behind) (ahead ++ content).length +
          runStartingAt star (ahead ++ content ++ behind) (ahead ++ content).length) % 2 = 0 := by
  have before : runEndingAt star (ahead ++ [star] ++ content ++ ([star] ++ behind)) ahead.length =
      runEndingAt star (ahead ++ content ++ behind) ahead.length := by
    simp only [List.append_assoc]
    rw [runEndingAt_append, runEndingAt_append]
  have first : runStartingAt star (ahead ++ [star] ++ content ++ ([star] ++ behind)) ahead.length =
      runStartingAt star (ahead ++ content ++ behind) ahead.length + 1 := by
    have inner : runStartingAt star (ahead ++ [star] ++ (content ++ ([star] ++ behind)))
        (ahead ++ [star]).length = (content.takeWhile (· = star)).length := by
      rw [runStartingAt_append, takeWhile_append_of_other mixed]
    have one : (ahead ++ [star]).length = ahead.length + 1 := List.length_append
    rw [one, ← List.append_assoc] at inner
    rw [runStartingAt_of_unit (opening_star _ _ _), inner, List.append_assoc, runStartingAt_append,
      takeWhile_append_of_other mixed]
  have last : runEndingAt star (ahead ++ [star] ++ content ++ ([star] ++ behind))
      (ahead ++ [star] ++ content).length =
      runEndingAt star (ahead ++ content ++ behind) (ahead ++ content).length := by
    have turned : ∃ other ∈ content.reverse, other ≠ star := by
      rcases mixed with ⟨other, inside, different⟩
      exact ⟨other, List.mem_reverse.mpr inside, different⟩
    rw [runEndingAt_append, runEndingAt_append]
    simp only [List.reverse_append]
    rw [takeWhile_append_of_other turned, takeWhile_append_of_other turned]
  have after : runStartingAt star (ahead ++ [star] ++ content ++ ([star] ++ behind))
      (ahead ++ [star] ++ content).length =
      runStartingAt star (ahead ++ content ++ behind) (ahead ++ content).length + 1 := by
    rw [runStartingAt_append, runStartingAt_append]
    exact congrArg List.length (List.takeWhile_cons_of_pos (by decide))
  unfold isOddStarDelimiterPair
  rw [starRunLengthAt_eq (opening_star _ _ _), starRunLengthAt_eq (getElem?_between _ _ _), before,
    first, last, after, Bool.and_eq_true, decide_eq_true_eq, decide_eq_true_eq]
  omega

end Single

/-! ### Taking a wrapped selection back -/

theorem wrap_longer (valid : selection.Valid text) (kind : InlineEmphasis) (rev : Bool) :
    text.length <
      (wrap text (low selection) (high selection) kind.delimiter rev).text.length := by
  have whole := congrArg List.length valid.around
  have some_ := List.length_pos_iff.mpr (delimiter_ne_nil kind)
  rw [wrap_eq valid]
  simp only [List.length_append] at whole ⊢
  omega

/-- What the shortcut makes of a text that it has wrapped. -/
theorem applyInlineEmphasis_wrap (valid : selection.Valid text) (fenced : kind ≠ .code)
    (wraps : canWrapWithEmphasisDelimiter classes text (low selection) (high selection)
      kind.delimiter = true) :
    applyInlineEmphasis classes (wrap text (low selection) (high selection) kind.delimiter
        (decide (selection.extentOffset < selection.baseOffset))) kind.delimiter =
        ⟨text, some selection⟩ ↔
      (kind = .italic →
        (runEndingAt star text (low selection) + runStartingAt star text (low selection)) % 2 = 0 ∧
        (runEndingAt star text (high selection) + runStartingAt star text (high selection)) % 2 =
          0) := by
  have longer := wrap_longer valid kind
    (decide (selection.extentOffset < selection.baseOffset))
  rw [canWrap_eq classes valid] at wraps
  rw [wrap_eq valid] at longer ⊢
  have last : ∀ unit ∈ (text.take (low selection) ++ kind.delimiter).getLast?,
      isHigh unit = false := by
    intro unit inside
    rw [List.getLast?_append_of_ne_nil _ (delimiter_ne_nil kind)] at inside
    exact (delimiter_units kind unit (List.mem_of_getLast? inside)).1
  have first : ∀ unit ∈ (kind.delimiter ++ text.drop (high selection)).head?,
      isLow unit = false := by
    intro unit inside
    rw [List.head?_append_of_ne_nil _ (delimiter_ne_nil kind)] at inside
    exact (delimiter_units kind unit (List.mem_of_head? inside)).2
  have some_ := List.length_pos_iff.mpr valid.selected_ne_nil
  have ordered : (text.take (low selection) ++ kind.delimiter).length <
      (text.take (low selection) ++ kind.delimiter ++ selected text selection).length := by
    have long : (text.take (low selection) ++ kind.delimiter ++ selected text selection).length =
        (text.take (low selection) ++ kind.delimiter).length + (selected text selection).length :=
      List.length_append
    omega
  have again := canUnwrap_wrapped kind.delimiter (text.take (low selection))
    (selected text selection) (text.drop (high selection)) wraps
  rw [applyInlineEmphasis_fenced (directed_valid valid.selected_ne_nil last first) fenced,
    low_directed (Nat.le_of_lt ordered), high_directed (Nat.le_of_lt ordered),
    reversed_directed ordered]
  have parity : canUnwrap classes (text.take (low selection) ++ kind.delimiter ++
        selected text selection ++ (kind.delimiter ++ text.drop (high selection)))
        (text.take (low selection) ++ kind.delimiter).length
        (text.take (low selection) ++ kind.delimiter ++ selected text selection).length
        kind.delimiter = true ↔ (kind = .italic →
      (runEndingAt star text (low selection) + runStartingAt star text (low selection)) % 2 = 0 ∧
      (runEndingAt star text (high selection) + runStartingAt star text (high selection)) % 2 =
        0) := by
    apply again.trans
    by_cases italic : kind = .italic
    · subst italic
      have odd := isOdd_wrapped (text.take (low selection)) (text.drop (high selection))
        (mixed_of_pair wraps)
      have stop : (text.take (low selection) ++ selected text selection).length =
          high selection := by
        rw [List.length_append, valid.length_take, valid.length_selected]
      rw [valid.around, stop, valid.length_take] at odd
      rw [valid.length_take]
      constructor
      · intro single _
        exact odd.mp (single rfl)
      · intro even _
        exact odd.mpr (even rfl)
    · constructor
      · intro _ isItalic
        exact absurd isItalic italic
      · intro _ single
        cases kind with
        | italic => exact absurd rfl italic
        | bold => exact absurd single (by decide)
        | code => exact absurd single (by decide)
        | strike => exact absurd single (by decide)
  rw [← parity]
  constructor
  · intro back
    by_contra kept
    rw [if_neg kept] at back
    split at back
    · have valid' : (directed (decide (selection.extentOffset < selection.baseOffset))
          (text.take (low selection) ++ kind.delimiter).length
          (text.take (low selection) ++ kind.delimiter ++ selected text selection).length).Valid
          (text.take (low selection) ++ kind.delimiter ++ selected text selection ++
            (kind.delimiter ++ text.drop (high selection))) :=
        directed_valid valid.selected_ne_nil last first
      have more := wrap_longer valid' kind
        (decide (selection.extentOffset < selection.baseOffset))
      rw [low_directed (Nat.le_of_lt ordered), high_directed (Nat.le_of_lt ordered), back] at more
      exact absurd longer (Nat.lt_asymm more)
    · have same := congrArg (fun value => value.text.length) back
      exact absurd same (Nat.ne_of_gt longer)
  · intro unwraps
    rw [if_pos unwraps, unwrap_around, valid.around, valid.length_take, valid.length_selected,
      directed_range]

/-- Shortcuts toggle, but for a single star put where it makes a run even, and for a selection of
spaces with one more space around it in a code span of spaces. -/
theorem applyInlineEmphasis_toggles_iff (classes : Classes) (kind : InlineEmphasis)
    (valid : selection.Valid text) :
    Toggles classes text selection kind ↔
      (kind = .italic →
        canUnwrap classes text (low selection) (high selection) [star] = false →
        canWrapWithEmphasisDelimiter classes text (low selection) (high selection) [star] = true →
        (runEndingAt star text (low selection) + runStartingAt star text (low selection)) % 2 = 0 ∧
        (runEndingAt star text (high selection) + runStartingAt star text (high selection)) % 2 =
          0) ∧
      (kind = .code →
        (codeSpanAround text (low selection) (high selection) true).isSome = true →
        isAllSpaces (selected text selection) = false) := by
  by_cases code : kind = .code
  · subst code
    rw [code_toggles_iff classes valid]
    constructor
    · intro mixed
      constructor
      · intro never
        cases never
      · intro _
        exact mixed
    · intro condition
      exact condition.2 rfl
  have applied : applyInlineEmphasis classes ⟨text, some selection⟩ kind.delimiter = _ :=
    applyInlineEmphasis_fenced valid code
  cases unwraps : canUnwrap classes text (low selection) (high selection) kind.delimiter with
  | true =>
    rw [unwraps, if_pos rfl] at applied
    rcases fenced_unwraps valid code unwraps with ⟨isPair, shorter⟩
    constructor
    · intro _
      refine ⟨?_, fun isCode => absurd isCode code⟩
      intro italic kept
      rw [italic] at unwraps
      exact absurd (unwraps.symm.trans kept) (by decide)
    · intro _
      apply Toggles.of_shorter
      · rw [applied]
        exact shorter
      · rw [applied]
        exact isPair
  | false =>
    rw [unwraps, if_neg (by decide)] at applied
    cases wraps : canWrapWithEmphasisDelimiter classes text (low selection) (high selection)
        kind.delimiter with
    | false =>
      rw [wraps, if_neg (by decide)] at applied
      constructor
      · intro _
        refine ⟨?_, fun isCode => absurd isCode code⟩
        intro italic _ wrapping
        rw [italic] at wraps
        exact absurd (wraps.symm.trans wrapping) (by decide)
      · intro _
        exact Toggles.of_unchanged applied
    | true =>
      rw [wraps, if_pos rfl] at applied
      have back := applyInlineEmphasis_wrap valid code wraps
      have longer := wrap_longer valid kind
        (decide (selection.extentOffset < selection.baseOffset))
      rw [← applied] at back longer
      constructor
      · intro toggles
        refine ⟨?_, fun isCode => absurd isCode code⟩
        intro italic _ _
        rcases toggles.wraps longer with ⟨_, _, _, _, again⟩
        exact back.mp again italic
      · intro condition
        apply Toggles.of_longer longer
        refine ⟨kind.delimiter, [], pair_of_fenced code, ?_, ?_⟩
        · rw [applied, wrap_eq valid, List.append_nil, List.nil_append]
        · apply back.mpr
          intro italic
          subst italic
          exact condition.1 rfl unwraps wraps

/-- In `x **a** b` the single star toggles inside of the strong run, and in ``x ` a ` b`` the
padding of a code span goes with it. -/
theorem applyInlineEmphasis_toggles_word :
    let classes : Classes := ⟨fun unit => unit = [space], fun unit => unit = [star]⟩
    let strong : Units := [120, space, star, star, 97, star, star, space, 98]
    let padded : Units := [120, space, tick, space, 97, space, tick, space, 98]
    Toggles classes strong ⟨5, 4⟩ .italic ∧
      applyInlineEmphasis classes ⟨strong, some ⟨5, 4⟩⟩ [star] =
        ⟨[120, space, star, star, star, 97, star, star, star, space, 98], some ⟨6, 5⟩⟩ ∧
      Toggles classes padded ⟨4, 5⟩ .code ∧
      applyInlineEmphasis classes ⟨padded, some ⟨4, 5⟩⟩ [tick] =
        ⟨[120, space, 97, space, 98], some ⟨2, 3⟩⟩ := by
  intro classes strong padded
  have inStrong : (⟨5, 4⟩ : TextSelection).Valid strong := ⟨by decide, by decide, by decide⟩
  have inPadded : (⟨4, 5⟩ : TextSelection).Valid padded := ⟨by decide, by decide, by decide⟩
  refine ⟨?_, by decide, ?_, by decide⟩
  · apply (applyInlineEmphasis_toggles_iff classes .italic inStrong).mpr
    exact ⟨by decide, by decide⟩
  · apply (applyInlineEmphasis_toggles_iff classes .code inPadded).mpr
    exact ⟨by decide, by decide⟩

/-- In `x *a b` a star around `a` makes a run of two before it, which is not taken back. -/
theorem star_beside_star_stays :
    (⟨3, 4⟩ : TextSelection).Valid [120, space, star, 97, space, 98] ∧
      applyInlineEmphasis ⟨fun unit => unit = [space], fun unit => unit = [star]⟩
          ⟨[120, space, star, 97, space, 98], some ⟨3, 4⟩⟩ [star] =
        ⟨[120, space, star, star, 97, star, space, 98], some ⟨4, 5⟩⟩ ∧
      ¬ Toggles ⟨fun unit => unit = [space], fun unit => unit = [star]⟩
        [120, space, star, 97, space, 98] ⟨3, 4⟩ .italic := by
  refine ⟨⟨by decide, by decide, by decide⟩, by decide, ?_⟩
  intro toggles
  rcases toggles.wraps (by decide) with ⟨_, _, _, _, again⟩
  exact absurd again (by decide)

end Delimiters

end Burlmd.Interface
