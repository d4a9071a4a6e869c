import Mathlib.Data.List.Basic
import Mathlib.Order.Defs.LinearOrder
import Mathlib.Tactic.Common

/-!
# Byte offsets into a list of characters

A text is its list of Unicode scalar values; an offset counts the bytes of its
UTF-8 encoding. `splitAt?` succeeds exactly at the character boundaries, and
slicing and splicing are both read off it.
-/

namespace Burlmd.Utf8

abbrev Text := List Char

instance : LawfulBEq Text := inferInstance

/-- A half-open range of byte offsets. -/
structure Range where
  start : Nat
  stop : Nat
  deriving DecidableEq, Repr

namespace Range

def Contains (outer inner : Range) : Prop :=
  outer.start ≤ inner.start ∧ inner.stop ≤ outer.stop

def Before (left right : Range) : Prop := left.stop ≤ right.start

instance (outer inner : Range) : Decidable (outer.Contains inner) :=
  inferInstanceAs (Decidable (_ ∧ _))

instance (left right : Range) : Decidable (left.Before right) :=
  inferInstanceAs (Decidable (_ ≤ _))

theorem Contains.trans {a b c : Range} (outer : a.Contains b) (inner : b.Contains c) :
    a.Contains c :=
  ⟨Nat.le_trans outer.1 inner.1, Nat.le_trans inner.2 outer.2⟩

@[simp] theorem Contains.refl (a : Range) : a.Contains a :=
  ⟨Nat.le_refl _, Nat.le_refl _⟩

/-- The range of the same characters after `edited`, which lies before them, was replaced
by `new_len` bytes. -/
def shiftedBy (range edited : Range) (new_len : Nat) : Range :=
  ⟨range.start - (edited.stop - edited.start) + new_len,
    range.stop - (edited.stop - edited.start) + new_len⟩

/-- The range of the same characters after `edited`, which is disjoint from them, was
replaced by `new_len` bytes. -/
def moved (range edited : Range) (new_len : Nat) : Range :=
  if range.stop ≤ edited.start then range else range.shiftedBy edited new_len

end Range

def byteLen : Text → Nat
  | [] => 0
  | c :: rest => c.utf8Size + byteLen rest

@[simp] theorem byteLen_nil : byteLen [] = 0 := rfl

@[simp] theorem byteLen_cons (c : Char) (rest : Text) :
    byteLen (c :: rest) = c.utf8Size + byteLen rest := rfl

/-- The UTF-8 encoding of a text. -/
def bytes (text : Text) : List UInt8 := text.flatMap String.utf8EncodeChar

theorem bytes_injective : Function.Injective bytes := by
  intro first second same
  apply String.ofList_injective
  apply String.toByteArray_inj.mp
  rw [String.toByteArray_ofList, String.toByteArray_ofList, List.utf8Encode, List.utf8Encode]
  exact congrArg List.toByteArray same

@[simp] theorem byteLen_append (first second : Text) :
    byteLen (first ++ second) = byteLen first + byteLen second := by
  induction first with
  | nil => simp
  | cons c rest ih => simp [ih, Nat.add_assoc]

theorem byteLen_eq_zero {text : Text} : byteLen text = 0 ↔ text = [] := by
  cases text with
  | nil => exact ⟨fun _ => rfl, fun _ => rfl⟩
  | cons c rest =>
    constructor
    · intro zero
      rw [byteLen_cons] at zero
      exact absurd c.utf8Size_pos (by omega)
    · intro wrong
      cases wrong

/-- The text before and after a byte offset, when the offset is a character boundary. -/
def splitAt? : Text → Nat → Option (Text × Text)
  | text, 0 => some ([], text)
  | [], _ + 1 => none
  | c :: rest, offset + 1 =>
      if c.utf8Size ≤ offset + 1 then
        (splitAt? rest (offset + 1 - c.utf8Size)).map fun parts => (c :: parts.1, parts.2)
      else none

theorem splitAt?_eq_some_iff {text before after : Text} {offset : Nat} :
    splitAt? text offset = some (before, after) ↔
      text = before ++ after ∧ byteLen before = offset := by
  induction text generalizing offset before with
  | nil =>
    cases offset with
    | zero => simp [splitAt?, eq_comm]; aesop
    | succ offset => simp [splitAt?]; aesop
  | cons c rest ih =>
    have positive := c.utf8Size_pos
    cases offset with
    | zero =>
      cases before with
      | nil => simp [splitAt?, eq_comm]
      | cons d before => simp [splitAt?]; intro _ _; have := d.utf8Size_pos; omega
    | succ offset =>
      cases before with
      | nil => simp [splitAt?]
      | cons d before =>
        simp only [splitAt?]
        split
        · rename_i fits
          simp only [Option.map_eq_some_iff, Prod.mk.injEq, List.cons.injEq, Prod.exists]
          constructor
          · rintro ⟨a, b, found, ⟨rfl, rfl⟩, rfl⟩
            obtain ⟨rfl, len⟩ := ih.mp found
            exact ⟨by simp, by simp only [byteLen_cons]; omega⟩
          · rintro ⟨⟨rfl, rfl⟩, len⟩
            simp only [byteLen_cons] at len
            exact ⟨before, after, ih.mpr ⟨rfl, by omega⟩, ⟨rfl, rfl⟩, rfl⟩
        · rename_i tooLong
          simp only [reduceCtorEq, false_iff, not_and, byteLen_cons]
          intro shape
          obtain ⟨rfl, -⟩ := List.cons.inj shape
          omega

@[simp] theorem splitAt?_append (before after : Text) :
    splitAt? (before ++ after) (byteLen before) = some (before, after) :=
  splitAt?_eq_some_iff.mpr ⟨rfl, rfl⟩

theorem append_cancel_of_byteLen {a b c d : Text} (same : a ++ b = c ++ d)
    (len : byteLen a = byteLen c) : a = c ∧ b = d := by
  have left := splitAt?_eq_some_iff.mpr ⟨same, rfl⟩
  rw [← len, splitAt?_append] at left
  simpa [eq_comm] using left

/-- Of two splits of one text, the shorter head is a prefix of the longer. -/
theorem append_prefix {a b c d : Text} (same : a ++ b = c ++ d) (le : byteLen a ≤ byteLen c) :
    ∃ mid, c = a ++ mid ∧ b = mid ++ d := by
  obtain ⟨mid, longer, rest⟩ | ⟨mid, shorter, rest⟩ := List.append_eq_append_iff.mp same
  · exact ⟨mid, longer, rest⟩
  · subst shorter
    have empty : mid = [] := by
      cases mid with
      | nil => rfl
      | cons c cs => have := c.utf8Size_pos; simp only [byteLen_append, byteLen_cons] at le; omega
    subst empty
    exact ⟨[], by simp, by simpa using rest.symm⟩

def IsBoundary (text : Text) (offset : Nat) : Prop := (splitAt? text offset).isSome

instance (text : Text) (offset : Nat) : Decidable (IsBoundary text offset) :=
  inferInstanceAs (Decidable (_ = true))

theorem isBoundary_iff {text : Text} {offset : Nat} :
    IsBoundary text offset ↔ ∃ before after, text = before ++ after ∧ byteLen before = offset := by
  simp only [IsBoundary, Option.isSome_iff_exists, Prod.exists, splitAt?_eq_some_iff]

theorem IsBoundary.le {text : Text} {offset : Nat} (boundary : IsBoundary text offset) :
    offset ≤ byteLen text := by
  obtain ⟨before, after, rfl, rfl⟩ := isBoundary_iff.mp boundary
  simp

/-- The character range `range` of a text, or `none` when it is not one. -/
def slice? (text : Text) (range : Range) : Option Text :=
  if range.start ≤ range.stop then
    (splitAt? text range.start).bind fun parts =>
      (splitAt? parts.2 (range.stop - range.start)).map Prod.fst
  else none

theorem slice?_eq_some_iff {text part : Text} {range : Range} :
    slice? text range = some part ↔
      ∃ before after, text = before ++ part ++ after ∧
        byteLen before = range.start ∧ byteLen before + byteLen part = range.stop := by
  unfold slice?
  split
  · rename_i ordered
    simp only [Option.bind_eq_some_iff, Option.map_eq_some_iff, Prod.exists,
      splitAt?_eq_some_iff]
    constructor
    · rintro ⟨before, rest, ⟨rfl, start⟩, part, after, ⟨rfl, len⟩, rfl⟩
      exact ⟨before, after, by simp, start, by omega⟩
    · rintro ⟨before, after, rfl, start, stop⟩
      exact ⟨before, part ++ after, ⟨by simp, start⟩, part, after, ⟨rfl, by omega⟩, rfl⟩
  · rename_i inverted
    simp only [reduceCtorEq, false_iff, not_exists, not_and]
    intro before after _ start stop
    omega

theorem slice?_isSome_iff {text : Text} {range : Range} :
    (slice? text range).isSome ↔
      range.start ≤ range.stop ∧ IsBoundary text range.start ∧ IsBoundary text range.stop := by
  simp only [Option.isSome_iff_exists, slice?_eq_some_iff, isBoundary_iff]
  constructor
  · rintro ⟨part, before, after, rfl, start, stop⟩
    exact ⟨by omega, ⟨before, part ++ after, by simp, start⟩,
      ⟨before ++ part, after, rfl, by simp [stop]⟩⟩
  · rintro ⟨ordered, ⟨before, rest, whole, start⟩, ⟨upTo, after, rfl, stop⟩⟩
    obtain ⟨mid, shorter, -⟩ | ⟨mid, longer, -⟩ := List.append_eq_append_iff.mp whole
    · subst shorter
      simp only [byteLen_append] at start
      have empty : mid = [] := by
        cases mid with
        | nil => rfl
        | cons c cs => have := c.utf8Size_pos; simp only [byteLen_cons] at start; omega
      subst empty
      exact ⟨[], upTo, after, by simp, by simpa using start, by simpa using stop⟩
    · subst longer
      exact ⟨mid, before, after, rfl, start, by simpa using stop⟩

/-- Substitutes `replacement` for the character range `range`. -/
def splice? (text : Text) (range : Range) (replacement : Text) : Option Text :=
  if range.start ≤ range.stop then
    (splitAt? text range.start).bind fun parts =>
      (splitAt? parts.2 (range.stop - range.start)).map fun tail =>
        parts.1 ++ replacement ++ tail.2
  else none

theorem splice?_eq_some_iff {text replacement result : Text} {range : Range} :
    splice? text range replacement = some result ↔
      ∃ before part after, text = before ++ part ++ after ∧ byteLen before = range.start ∧
        byteLen before + byteLen part = range.stop ∧
        result = before ++ replacement ++ after := by
  unfold splice?
  split
  · rename_i ordered
    simp only [Option.bind_eq_some_iff, Option.map_eq_some_iff, Prod.exists,
      splitAt?_eq_some_iff]
    constructor
    · rintro ⟨before, rest, ⟨rfl, start⟩, part, after, ⟨rfl, len⟩, rfl⟩
      exact ⟨before, part, after, by simp, start, by omega, rfl⟩
    · rintro ⟨before, part, after, rfl, start, stop, rfl⟩
      exact ⟨before, part ++ after, ⟨by simp, start⟩, part, after, ⟨rfl, by omega⟩, rfl⟩
  · rename_i inverted
    simp only [reduceCtorEq, false_iff, not_exists, not_and]
    intro before part after _ start stop
    omega

theorem slice?_splice?_self {text replacement result : Text} {range : Range}
    (spliced : splice? text range replacement = some result) :
    slice? result ⟨range.start, range.start + byteLen replacement⟩ = some replacement := by
  obtain ⟨before, part, after, rfl, start, stop, rfl⟩ := splice?_eq_some_iff.mp spliced
  exact slice?_eq_some_iff.mpr ⟨before, after, rfl, start, by simp [start]⟩

/-- Substituting a range does not touch what ends before it. -/
theorem slice?_splice?_before {text replacement result : Text} {range other : Range}
    (spliced : splice? text range replacement = some result) (before : other.Before range)
    (sliced : (slice? text other).isSome) : slice? result other = slice? text other := by
  obtain ⟨head, old, tail, rfl, start, -, rfl⟩ := splice?_eq_some_iff.mp spliced
  obtain ⟨part, at_⟩ := Option.isSome_iff_exists.mp sliced
  rw [at_]
  obtain ⟨left, right, whole, from_, upTo⟩ := slice?_eq_some_iff.mp at_
  obtain ⟨mid, rfl, -⟩ := append_prefix (a := left ++ part) (b := right) (c := head)
    (d := old ++ tail) (by simpa using whole.symm)
    (by simp only [byteLen_append, Range.Before] at before ⊢; omega)
  exact slice?_eq_some_iff.mpr ⟨left, mid ++ replacement ++ tail, by simp, from_, upTo⟩

/-- Substituting a range moves what starts after it. -/
theorem slice?_splice?_after {text replacement result : Text} {range other : Range}
    (spliced : splice? text range replacement = some result) (after : range.Before other)
    (sliced : (slice? text other).isSome) :
    slice? result (other.shiftedBy range (byteLen replacement)) = slice? text other := by
  obtain ⟨head, old, tail, rfl, start, stop, rfl⟩ := splice?_eq_some_iff.mp spliced
  obtain ⟨part, at_⟩ := Option.isSome_iff_exists.mp sliced
  rw [at_]
  obtain ⟨left, right, whole, from_, upTo⟩ := slice?_eq_some_iff.mp at_
  obtain ⟨mid, rfl, rfl⟩ := append_prefix (a := head ++ old) (b := tail) (c := left)
    (d := part ++ right) (by simpa using whole)
    (by simp only [byteLen_append, Range.Before] at after ⊢; omega)
  simp only [byteLen_append] at from_ upTo
  refine slice?_eq_some_iff.mpr ⟨head ++ replacement ++ mid, right, by simp, ?_, ?_⟩ <;>
    simp only [Range.shiftedBy, byteLen_append] <;> omega

/-- Substituting a range leaves the characters of a disjoint one. -/
theorem slice?_splice?_moved {text replacement result : Text} {range other : Range}
    (spliced : splice? text range replacement = some result)
    (disjoint : range.Before other ∨ other.Before range) (ordered : range.start < range.stop)
    (ordered' : other.start < other.stop) (sliced : (slice? text other).isSome) :
    slice? result (other.moved range (byteLen replacement)) = slice? text other := by
  obtain after | before := disjoint
  · have moved : ¬ other.stop ≤ range.start := by
      simp only [Range.Before] at after
      omega
    rw [Range.moved, if_neg moved]
    exact slice?_splice?_after spliced after sliced
  · rw [Range.moved, if_pos (show other.stop ≤ range.start from before)]
    exact slice?_splice?_before spliced before sliced

end Burlmd.Utf8
