import Burlmd.Editor.Session
import Burlmd.Markdown.Resolve

/-!
# Splicing

An edit is a substitution into the text of a Note, over a range that the span map resolves.
-/

namespace Burlmd.Editor

open Markdown
open Utf8

inductive SpliceError where
  | unknownBlock (path : BlockPath)
  | offsetOutOfRange (path : BlockPath) (offset : Nat)
  | invertedRange
  | invalidSourceRange (range : Range)
  deriving DecidableEq, Repr

def SpliceError.display : SpliceError → Text
  | unknownBlock path => "no Block is addressed by block_path ".toList ++ shownPath path
  | offsetOutOfRange path offset =>
      "rendered offset ".toList ++ shown offset ++ " is out of range for block_path ".toList ++
        shownPath path
  | invertedRange => "selection ends before it starts".toList
  | invalidSourceRange range =>
      "source range ".toList ++ shown range.start ++ "..".toList ++ shown range.stop ++
        " is not a valid character range in this Note".toList

def spliceError (error : SpliceError) : AppError := .parseError error.display

def spliceSource (source : Text) (span : Range) (replacement : Text) : Except SpliceError Text :=
  match splice? source span replacement with
  | some spliced => .ok spliced
  | none => .error (.invalidSourceRange span)

def offsetError (spans : SpanMap) (path : BlockPath) (offset : Nat) : SpliceError :=
  if (spans.block path).isNone then .unknownBlock path else .offsetOutOfRange path offset

def resolveRange (source : Text) (spans : SpanMap) (range : RenderedRange) :
    Except SpliceError Range :=
  match spans.resolveOffset source range.start_path range.start_offset with
  | none => .error (offsetError spans range.start_path range.start_offset)
  | some start =>
      match spans.resolveOffset source range.end_path range.end_offset with
      | none => .error (offsetError spans range.end_path range.end_offset)
      | some stop =>
          if stop.stop < start.start then .error .invertedRange else .ok ⟨start.start, stop.stop⟩

def extractRange (source : Text) (spans : SpanMap) (range : RenderedRange) :
    Except SpliceError Text :=
  match resolveRange source spans range with
  | .error error => .error error
  | .ok resolved =>
      match slice? source resolved with
      | some part => .ok part
      | none => .error (.invalidSourceRange resolved)

/-- The splice of an edit, with the error that a caller sees. -/
def spliceOr (source : Text) (span : Range) (replacement : Text) : Except AppError Text :=
  (spliceSource source span replacement).mapError spliceError

def clamp (offset low high : Nat) : Nat := max low (min offset high)

theorem spliceOr_eq_ok {source replacement result : Text} {span : Range} :
    spliceOr source span replacement = .ok result ↔
      splice? source span replacement = some result := by
  unfold spliceOr spliceSource
  cases spliced : splice? source span replacement with
  | none =>
    constructor
    · intro wrong
      cases wrong
    · intro wrong
      cases wrong
  | some text =>
    constructor
    · intro ok
      exact congrArg some (Except.ok.inj ok)
    · intro same
      exact congrArg Except.ok (Option.some.inj same)

/-- A range can be replaced exactly where it can be read. -/
theorem splice?_isSome_iff {source replacement : Text} {span : Range} :
    (splice? source span replacement).isSome ↔ (slice? source span).isSome := by
  rw [Option.isSome_iff_exists, Option.isSome_iff_exists]
  constructor
  · intro spliced
    rcases spliced with ⟨result, spliced⟩
    rcases splice?_eq_some_iff.mp spliced with ⟨before, part, after, whole, start, stop, -⟩
    exact ⟨part, slice?_eq_some_iff.mpr ⟨before, after, whole, start, stop⟩⟩
  · intro sliced
    rcases sliced with ⟨part, sliced⟩
    rcases slice?_eq_some_iff.mp sliced with ⟨before, after, whole, start, stop⟩
    exact ⟨before ++ replacement ++ after,
      splice?_eq_some_iff.mpr ⟨before, part, after, whole, start, stop, rfl⟩⟩

/-- A range can be read up to an offset, as far as the offset is in it. -/
theorem slice?_clamp_isSome {source : Text} {offset : Nat} {range : Range}
    (boundary : IsBoundary source offset) (sliced : (slice? source range).isSome) :
    (slice? source ⟨range.start, clamp offset range.start range.stop⟩).isSome := by
  rcases slice?_isSome_iff.mp sliced with ⟨ordered, start, stop⟩
  refine slice?_isSome_iff.mpr ⟨Nat.le_max_left _ _, start, ?_⟩
  dsimp only
  unfold clamp
  rcases Nat.le_total offset range.stop with inside | behind
  · rw [Nat.min_eq_left inside]
    rcases Nat.le_total range.start offset with after | before
    · rw [Nat.max_eq_right after]
      exact boundary
    · rw [Nat.max_eq_left before]
      exact start
  · rw [Nat.min_eq_right behind, Nat.max_eq_right ordered]
    exact stop

theorem spliceOr_insert (before after text : Text) :
    spliceOr (before ++ after) ⟨byteLen before, byteLen before⟩ text =
      .ok (before ++ text ++ after) := by
  apply spliceOr_eq_ok.mpr
  apply splice?_eq_some_iff.mpr
  refine ⟨before, [], after, ?_, rfl, rfl, rfl⟩
  rw [List.append_nil]

end Burlmd.Editor
