import Burlmd.Library.CodeSpans
import Burlmd.Library.Replacement
import Burlmd.Library.Surrogates

/-!
# Emphasis shortcuts

A shortcut puts delimiters around the selection of the raw source, or takes them away.
Offsets count UTF-16 code units.
-/

namespace Burlmd.Interface

open Replacement
open Surrogates

structure TextSelection where
  baseOffset : Nat
  extentOffset : Nat
  deriving DecidableEq

/-- Without a selection if one of its offsets is negative. -/
structure TextEditingValue where
  text : Units
  selection : Option TextSelection
  deriving DecidableEq

/-! ## Units -/

def tick : UInt16 := 96
def backslash : UInt16 := 92
def space : UInt16 := 32
def star : UInt16 := 42
def tilde : UInt16 := 126
def lineFeed : UInt16 := 10
def carriageReturn : UInt16 := 13

def substring (text : Units) (start stop : Nat) : Units := (text.take stop).drop start

def isValidUtf16SelectionBoundary (text : Units) (offset : Nat) : Bool :=
  if text.length < offset then false
  else if offset = 0 ∨ offset = text.length then true
  else !text[offset - 1]?.any isHigh || !text[offset]?.any isLow

section Around

variable {text : Units} {low high : Nat}

theorem substring_length (bounded : high ≤ text.length) :
    (substring text low high).length = high - low := by
  unfold substring
  rw [List.length_drop, List.length_take, Nat.min_eq_left bounded]

theorem take_append_substring (ordered : low ≤ high) :
    text.take low ++ substring text low high = text.take high := by
  unfold substring
  conv_rhs => rw [← List.take_append_drop low (text.take high), List.take_take,
    Nat.min_eq_left ordered]

theorem around_selection (ordered : low ≤ high) :
    text.take low ++ substring text low high ++ text.drop high = text := by
  rw [take_append_substring ordered, List.take_append_drop]

theorem substring_ne_nil (ordered : low < high) (bounded : high ≤ text.length) :
    substring text low high ≠ [] := by
  intro empty
  have length : (substring text low high).length = high - low := substring_length bounded
  rw [empty, List.length_nil] at length
  omega

/-- The range of a middle part. -/
theorem substring_append (ahead middle behind : Units) :
    substring (ahead ++ middle ++ behind) ahead.length (ahead ++ middle).length = middle := by
  unfold substring
  rw [List.take_left, List.drop_left]

theorem bounded_of_boundary {offset : Nat}
    (boundary : isValidUtf16SelectionBoundary text offset = true) : offset ≤ text.length := by
  unfold isValidUtf16SelectionBoundary at boundary
  split at boundary
  · cases boundary
  · omega

end Around

/-- How many of `unit` stand directly before an offset. -/
def runEndingAt (unit : UInt16) (text : Units) (offset : Nat) : Nat :=
  ((text.take offset).reverse.takeWhile (· = unit)).length

/-- How many of `unit` stand directly behind an offset. -/
def runStartingAt (unit : UInt16) (text : Units) (offset : Nat) : Nat :=
  ((text.drop offset).takeWhile (· = unit)).length

/-! ## Code spans -/

def isAllSpaces (text : Units) : Bool := text.all (· = space)

def needsCodeSpanPadding (selected : Units) : Bool :=
  selected ≠ [] && !isAllSpaces selected &&
    (selected.head? = some space || selected.getLast? = some space ||
      selected.head? = some tick || selected.getLast? = some tick)

def normalizedCodeSpanContent (content : Units) : Units :=
  if 2 ≤ content.length ∧ content.head? = some space ∧ content.getLast? = some space ∧
      isAllSpaces content = false then substring content 1 (content.length - 1)
  else content

def hasOutsideAdjacentBacktick (text : Units) (low high : Nat) : Bool :=
  (0 < low && text[low - 1]? = some tick) || text[high]? = some tick

def longestBacktickRun (text : Units) : Nat :=
  (text.foldl (fun (longest, current) unit =>
    if unit = tick then (max longest (current + 1), current + 1) else (longest, 0)) (0, 0)).1

def isStandaloneBacktickRun (text : Units) (start stop : Nat) : Bool :=
  stop ≤ text.length && start < stop && (start = 0 || text[start - 1]? ≠ some tick) &&
    (stop = text.length || text[stop]? ≠ some tick)

/-- Each round moves the cursor, so that as many rounds as there are units suffice. -/
def closerLoop (text : Units) (delimiterLength proposedClosingStart : Nat) : Nat → Nat → Bool
  | 0, _ => false
  | rounds + 1, cursor =>
      match text[cursor]? with
      | none => false
      | some unit =>
          if unit ≠ tick then
            closerLoop text delimiterLength proposedClosingStart rounds (cursor + 1)
          else
            let runEnd := cursor + runStartingAt tick text cursor
            if runStartingAt tick text cursor = delimiterLength ∧
                isStandaloneBacktickRun text cursor runEnd = true then
              cursor = proposedClosingStart
            else closerLoop text delimiterLength proposedClosingStart rounds runEnd

def isFirstMatchingCodeSpanCloser (text : Units)
    (openingEnd delimiterLength proposedClosingStart : Nat) : Bool :=
  closerLoop text delimiterLength proposedClosingStart text.length openingEnd

structure CodeSpan where
  start : Nat
  stop : Nat
  contentStart : Nat
  contentEnd : Nat

def codeSpanAround (text : Units) (low high : Nat) (padded : Bool) : Option CodeSpan :=
  let openingEnd := low - padded.toNat
  let closingStart := high + padded.toNat
  if openingEnd < 1 ∨ text.length ≤ closingStart then none
  else if padded = true ∧ (text[low - 1]? ≠ some space ∨ text[high]? ≠ some space) then none
  else
    let openingLength := runEndingAt tick text openingEnd
    let closingLength := runStartingAt tick text closingStart
    if openingLength = 0 ∨ openingLength ≠ closingLength then none
    else
      let start := openingEnd - openingLength
      let stop := closingStart + closingLength
      if isStandaloneBacktickRun text start openingEnd = true ∧
          isStandaloneBacktickRun text closingStart stop = true ∧
          isFirstMatchingCodeSpanCloser text openingEnd openingLength closingStart = true then
        some ⟨start, stop, openingEnd, closingStart⟩
      else none

def codeSpanAroundSelection (text : Units) (low high : Nat) : Option CodeSpan :=
  (codeSpanAround text low high false).or (codeSpanAround text low high true)

def fullCodeSpan (text : Units) (low high : Nat) : Option CodeSpan :=
  let openingLength := runStartingAt tick text low
  let closingLength := runEndingAt tick text high
  if openingLength = 0 ∨ openingLength ≠ closingLength then none
  else
    let contentStart := low + openingLength
    let contentEnd := high - closingLength
    if contentStart < contentEnd ∧ isStandaloneBacktickRun text low contentStart = true ∧
        isStandaloneBacktickRun text contentEnd high = true ∧
        isFirstMatchingCodeSpanCloser text contentStart openingLength contentEnd = true then
      some ⟨low, high, contentStart, contentEnd⟩
    else none

/-- A selection from `start` to `stop`, or the other way round. -/
def directed (reversed : Bool) (start stop : Nat) : TextSelection :=
  if reversed then ⟨stop, start⟩ else ⟨start, stop⟩

def removeCodeSpan (text : Units) (span : CodeSpan) (reversed : Bool) : TextEditingValue :=
  let content := normalizedCodeSpanContent (substring text span.contentStart span.contentEnd)
  ⟨replaceRange text span.start span.stop content,
    some (directed reversed span.start (span.start + content.length))⟩

/-- The selection in a code span, between runs longer than any in it. -/
def wrapCode (text : Units) (low high : Nat) (reversed : Bool) : TextEditingValue :=
  let selected := substring text low high
  let delimiter := List.replicate (longestBacktickRun selected + 1) tick
  let padding := if needsCodeSpanPadding selected then [space] else []
  let selectedStart := low + delimiter.length + padding.length
  ⟨replaceRange text low high (delimiter ++ padding ++ selected ++ padding ++ delimiter),
    some (directed reversed selectedStart (selectedStart + selected.length))⟩

def applyInlineCode (value : TextEditingValue) : TextEditingValue :=
  match value.selection with
  | none => value
  | some ⟨base, extent⟩ =>
      let text := value.text
      if isValidUtf16SelectionBoundary text base = false ∨
          isValidUtf16SelectionBoundary text extent = false then value
      else if base = extent then
        if hasOutsideAdjacentBacktick text base base then value
        else ⟨replaceRange text base base [tick, tick], some ⟨base + 1, base + 1⟩⟩
      else
        let low := min base extent
        let high := max base extent
        let reversed := decide (extent < base)
        let selected := substring text low high
        if lineFeed ∈ selected ∨ carriageReturn ∈ selected then value
        else
          match (codeSpanAroundSelection text low high).or (fullCodeSpan text low high) with
          | some span => removeCodeSpan text span reversed
          | none =>
              if hasOutsideAdjacentBacktick text low high then value
              else wrapCode text low high reversed

/-! ## Stars -/

/-- What counts as whitespace and as punctuation, asked of a code point. -/
structure Classes where
  whitespace : Units → Bool
  punctuation : Units → Bool

def codePointBefore (text : Units) (offset : Nat) : Option Units :=
  match (text.take offset).reverse with
  | [] => none
  | [unit] => some [unit]
  | unit :: prior :: _ => if isLow unit && isHigh prior then some [prior, unit] else some [unit]

def codePointAt (text : Units) (offset : Nat) : Option Units :=
  match text.drop offset with
  | [] => none
  | [unit] => some [unit]
  | unit :: later :: _ => if isHigh unit && isLow later then some [unit, later] else some [unit]

structure StarRun where
  start : Nat
  stop : Nat

def StarRun.length (run : StarRun) : Nat := run.stop - run.start

def starRunAt (text : Units) (offset : Nat) : Option StarRun :=
  if text[offset]? = some star then
    some ⟨offset - runEndingAt star text offset, offset + runStartingAt star text offset⟩
  else none

def starRunLengthAt (text : Units) (offset : Nat) : Nat :=
  match starRunAt text offset with
  | some run => run.length
  | none => 0

def isOddStarDelimiterPair (text : Units) (opening closing : Nat) : Bool :=
  starRunLengthAt text opening % 2 = 1 && starRunLengthAt text closing % 2 = 1

def isBackslashEscaped (text : Units) (offset : Nat) : Bool :=
  runEndingAt backslash text offset % 2 = 1

section Flanking

variable (classes : Classes) (text : Units)

def leftFlanking (run : StarRun) : Bool :=
  let before := codePointBefore text run.start
  let after := codePointAt text run.stop
  let beforeWhitespace := before.all classes.whitespace
  let afterWhitespace := after.all classes.whitespace
  !afterWhitespace &&
    (!after.any classes.punctuation || beforeWhitespace || before.any classes.punctuation)

def rightFlanking (run : StarRun) : Bool :=
  let before := codePointBefore text run.start
  let after := codePointAt text run.stop
  let beforeWhitespace := before.all classes.whitespace
  let afterWhitespace := after.all classes.whitespace
  !beforeWhitespace &&
    (!before.any classes.punctuation || afterWhitespace || after.any classes.punctuation)

def isValidStarPair (openingStart closingStart : Nat) : Bool :=
  match starRunAt text openingStart, starRunAt text closingStart with
  | some opening, some closing =>
      if opening.start = closing.start then false
      else if isBackslashEscaped text opening.start || isBackslashEscaped text closing.start then
        false
      else if !leftFlanking classes text opening || !rightFlanking classes text closing then false
      else
        !((rightFlanking classes text opening || leftFlanking classes text closing) &&
          (opening.length + closing.length) % 3 = 0 &&
          !(opening.length % 3 = 0 && closing.length % 3 = 0))
  | _, _ => false

def isValidEmphasisDelimiterPair (delimiter : Units) (openingStart closingStart : Nat) : Bool :=
  if delimiter ≠ [star] ∧ delimiter ≠ [star, star] then true
  else isValidStarPair classes text openingStart closingStart

def canWrapWithEmphasisDelimiter (low high : Nat) (delimiter : Units) : Bool :=
  if delimiter ≠ [star] ∧ delimiter ≠ [star, star] then true
  else
    isValidEmphasisDelimiterPair classes
      (replaceRange text low high (delimiter ++ substring text low high ++ delimiter)) delimiter low
      (high + delimiter.length)

end Flanking

inductive InlineEmphasis where
  | bold
  | italic
  | code
  | strike
  deriving DecidableEq

def InlineEmphasis.delimiter : InlineEmphasis → Units
  | bold => [star, star]
  | italic => [star]
  | code => [tick]
  | strike => [tilde, tilde]

section Emphasis

variable (classes : Classes) (text : Units) (low high : Nat) (delimiter : Units)

def surroundsInner : Bool :=
  delimiter.length ≤ low && high + delimiter.length ≤ text.length &&
    substring text (low - delimiter.length) low = delimiter &&
    substring text high (high + delimiter.length) = delimiter

def selectsFullRun : Bool :=
  let selected := substring text low high
  delimiter.length * 2 ≤ selected.length && delimiter.isPrefixOf selected &&
    delimiter.isSuffixOf selected

def canUnwrap : Bool :=
  (surroundsInner text low high delimiter &&
    isValidEmphasisDelimiterPair classes text delimiter (low - delimiter.length) high &&
    (delimiter ≠ [star] || isOddStarDelimiterPair text (low - 1) high)) ||
  (selectsFullRun text low high delimiter &&
    isValidEmphasisDelimiterPair classes text delimiter low (high - delimiter.length) &&
    (delimiter ≠ [star] || isOddStarDelimiterPair text low (high - 1)))

def unwrap (reversed : Bool) : TextEditingValue :=
  let surrounds := surroundsInner text low high delimiter
  let outerStart := if surrounds then low - delimiter.length else low
  let innerEnd := if surrounds then high - delimiter.length else high - delimiter.length * 2
  ⟨replaceRange text outerStart (high + if surrounds then delimiter.length else 0)
      (substring text (outerStart + delimiter.length) (innerEnd + delimiter.length)),
    some (directed reversed outerStart (outerStart + (innerEnd - outerStart)))⟩

def wrap (reversed : Bool) : TextEditingValue :=
  ⟨replaceRange text low high (delimiter ++ substring text low high ++ delimiter),
    some (directed reversed (low + delimiter.length) (high + delimiter.length))⟩

end Emphasis

def applyInlineEmphasis (classes : Classes) (value : TextEditingValue) (delimiter : Units) :
    TextEditingValue :=
  match value.selection with
  | none => value
  | some ⟨base, extent⟩ =>
      let text := value.text
      if delimiter = [] then value
      else if delimiter = [tick] then applyInlineCode value
      else if isValidUtf16SelectionBoundary text base = false ∨
          isValidUtf16SelectionBoundary text extent = false then value
      else if base = extent then
        ⟨replaceRange text base base (delimiter ++ delimiter),
          some ⟨base + delimiter.length, base + delimiter.length⟩⟩
      else
        let low := min base extent
        let high := max base extent
        let reversed := decide (extent < base)
        if (surroundsInner text low high delimiter || selectsFullRun text low high delimiter) &&
            canUnwrap classes text low high delimiter then
          unwrap text low high delimiter reversed
        else if canWrapWithEmphasisDelimiter classes text low high delimiter then
          wrap text low high delimiter reversed
        else value

end Burlmd.Interface
