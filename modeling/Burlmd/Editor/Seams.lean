import Burlmd.Editor.Session
import Burlmd.Lifecycle.Retitle

/-!
# Seams

Line endings between two Blocks are counted with a CRLF pair as one, and written the way the text
before them writes its own.
-/

namespace Burlmd.Editor

open Lifecycle (newlineStyle)
open Utf8

/-- A blank line between two Blocks. -/
def BLOCK_SEPARATOR_NEWLINES : Nat := 2

def isLineEnding (c : Char) : Bool := c = '\n' || c = '\r'

def trailingNewlines (text : Text) : Nat :=
  ((text.reverse.filter (· ≠ '\r')).takeWhile (· = '\n')).length

def leadingNewlines (text : Text) : Nat :=
  ((text.takeWhile isLineEnding).filter (· ≠ '\r')).length

/-- The bytes of the line endings that a text begins with. -/
def newlineRunLen (text : Text) : Nat := (text.takeWhile isLineEnding).length

def repeatText (text : Text) (count : Nat) : Text := (List.replicate count text).flatten

def separatorBefore (before : Text) (required : Nat) : Text :=
  if before = [] then []
  else repeatText (newlineStyle before) (required - trailingNewlines before)

/-- Takes line endings off the end of a reversed text, each with the `\r` before it. -/
def cutNewlines : Nat → Text → Text
  | 0, text => text
  | _ + 1, [] => []
  | count + 1, _ :: '\r' :: rest => cutNewlines count rest
  | count + 1, _ :: rest => cutNewlines count rest

/-- Where a text ends with all but one of its trailing line endings cut off. -/
def cutToOneTrailingNewline (text : Text) : Nat :=
  byteLen (cutNewlines (trailingNewlines text - 1) text.reverse)

/-- How a seam after `before` is spelled in a Note. -/
def seamNewline (before working : Text) : Text :=
  if '\n' ∈ before then newlineStyle before else newlineStyle working

def upTo? (text : Text) (offset : Nat) : Option Text := (splitAt? text offset).map Prod.fst

def startingAt? (text : Text) (offset : Nat) : Option Text := (splitAt? text offset).map Prod.snd

/-- What keeps the text before a removed range as separated from the text after it as it was. -/
def separatorAcross (source : Text) (start stop : Nat) : Text :=
  match upTo? source start, slice? source ⟨start, stop⟩, startingAt? source stop with
  | some before, some removed, some after =>
      if before = [] || after = [] then []
      else separatorBefore before (trailingNewlines removed)
  | _, _, _ => []

/-- The text of the line that an offset is on, up to it. -/
def lastLine (before : Text) : Text := (before.reverse.takeWhile (· ≠ '\n')).reverse

def linePrefixBefore (source : Text) (content_start : Nat) : Except AppError Text :=
  match upTo? source content_start with
  | some before => .ok (lastLine before)
  | none =>
      .error (.parseError ("source offset ".toList ++ shown content_start ++
        " is not addressable".toList))

def beforeOr (source : Text) (offset : Nat) : Except AppError Text :=
  match upTo? source offset with
  | some before => .ok before
  | none => .error (offsetNotAddressable offset)

def afterOr (source : Text) (offset : Nat) : Except AppError Text :=
  match startingAt? source offset with
  | some after => .ok after
  | none => .error (offsetNotAddressable offset)

/-! ## Lemmas -/

variable {text before after : Text}

@[simp] theorem byteLen_newlineStyle_pos (text : Text) : 0 < byteLen (newlineStyle text) := by
  unfold newlineStyle
  split
  · exact Nat.zero_lt_of_lt (by decide : 0 < 2)
  · exact Nat.zero_lt_of_lt (by decide : 0 < 1)

theorem repeatText_eq_nil {count : Nat} (positive : 0 < byteLen text) :
    repeatText text count = [] ↔ count = 0 := by
  unfold repeatText
  constructor
  · intro isNil
    cases count with
    | zero => rfl
    | succ count =>
      rw [List.replicate_succ, List.flatten_cons, List.append_eq_nil_iff] at isNil
      rw [isNil.1] at positive
      exact absurd positive (Nat.lt_irrefl _)
  · intro zero
    rw [zero]
    rfl

theorem byteLen_newlineRun (text : Text) :
    byteLen (text.takeWhile isLineEnding) = newlineRunLen text := by
  unfold newlineRunLen
  induction text with
  | nil => rfl
  | cons c rest ih =>
    rw [List.takeWhile_cons]
    cases ending : isLineEnding c with
    | false => rfl
    | true =>
      have size : c.utf8Size = 1 := by
        unfold isLineEnding at ending
        rcases Bool.or_eq_true_iff.mp ending with line | return_
        · rw [of_decide_eq_true line]
          rfl
        · rw [of_decide_eq_true return_]
          rfl
      rw [if_pos rfl, byteLen_cons, size, ih, List.length_cons, Nat.add_comm]

theorem beforeOr_append (before after : Text) :
    beforeOr (before ++ after) (byteLen before) = .ok before := by
  unfold beforeOr upTo?
  rw [splitAt?_append]
  rfl

theorem afterOr_append (before after : Text) :
    afterOr (before ++ after) (byteLen before) = .ok after := by
  unfold afterOr startingAt?
  rw [splitAt?_append]
  rfl

theorem linePrefixBefore_append (before after : Text) :
    linePrefixBefore (before ++ after) (byteLen before) = .ok (lastLine before) := by
  unfold linePrefixBefore upTo?
  rw [splitAt?_append]
  rfl

end Burlmd.Editor
