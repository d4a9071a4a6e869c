import Mathlib.Algebra.GroupWithZero.Nat
import Burlmd.Library.Utf8

/-!
# UTF-16 offsets into a list of characters

An offset in UTF-16 code units names a byte boundary, unless it is inside a surrogate pair.
-/

namespace Burlmd.Utf16

open Utf8 (Text byteLen)

/-- The code units of a character. -/
def units (c : Char) : Nat := if c.toNat < 0x10000 then 1 else 2

def utf16Len : Text → Nat
  | [] => 0
  | c :: rest => units c + utf16Len rest

/-- The byte offset at an offset in code units. -/
def toByteOffset? : Text → Nat → Option Nat
  | [], offset => if offset = 0 then some 0 else none
  | c :: rest, offset =>
      if offset = 0 then some 0
      else if offset < units c then none
      else (toByteOffset? rest (offset - units c)).map (c.utf8Size + ·)

/-- The offset in characters at an offset in code units. -/
def toScalarOffset? : Text → Nat → Option Nat
  | [], offset => if offset = 0 then some 0 else none
  | c :: rest, offset =>
      if offset = 0 then some 0
      else if offset < units c then none
      else (toScalarOffset? rest (offset - units c)).map (1 + ·)

theorem units_pos (c : Char) : 0 < units c := by
  unfold units
  by_cases low : c.toNat < 0x10000
  · rw [if_pos low]
    omega
  · rw [if_neg low]
    omega

theorem utf16Len_append (first second : Text) :
    utf16Len (first ++ second) = utf16Len first + utf16Len second := by
  induction first with
  | nil => exact (Nat.zero_add _).symm
  | cons c rest ih =>
    rw [List.cons_append, utf16Len, utf16Len, ih, Nat.add_assoc]

/-- The code units themselves. -/
def encodeChar (c : Char) : List UInt16 :=
  if c.toNat < 0x10000 then [UInt16.ofNat c.toNat]
  else
    let above := c.toNat - 0x10000
    [UInt16.ofNat (0xD800 + above / 0x400), UInt16.ofNat (0xDC00 + above % 0x400)]

def encode (text : Text) : List UInt16 := text.flatMap encodeChar

theorem encodeChar_length (c : Char) : (encodeChar c).length = units c := by
  unfold encodeChar units
  split
  · rfl
  · rfl

@[simp] theorem encode_length (text : Text) : (encode text).length = utf16Len text := by
  induction text with
  | nil => rfl
  | cons c rest ih =>
    rw [encode, List.flatMap_cons, List.length_append, encodeChar_length, utf16Len]
    exact congrArg _ ih

@[simp] theorem encode_append (first second : Text) :
    encode (first ++ second) = encode first ++ encode second := List.flatMap_append

/-! ## Offsets of another unit -/

/-- What a text comes to when each of its characters counts `size`. -/
def total (size : Char → Nat) (text : Text) : Nat := (text.map size).sum

theorem total_cons (size : Char → Nat) (c : Char) (rest : Text) :
    total size (c :: rest) = size c + total size rest := by
  unfold total
  rw [List.map_cons, List.sum_cons]

theorem total_utf8Size (text : Text) : total Char.utf8Size text = byteLen text := by
  induction text with
  | nil => rfl
  | cons c rest ih => rw [total_cons, ih, Utf8.byteLen_cons]

theorem total_one (text : Text) : total (fun _ => 1) text = text.length := by
  induction text with
  | nil => rfl
  | cons c rest ih => rw [total_cons, ih, List.length_cons, Nat.add_comm]

/-- The offset of some unit at an offset in code units. -/
def toOffset? (size : Char → Nat) : Text → Nat → Option Nat
  | [], offset => if offset = 0 then some 0 else none
  | c :: rest, offset =>
      if offset = 0 then some 0
      else if offset < units c then none
      else (toOffset? size rest (offset - units c)).map (size c + ·)

theorem toByteOffset?_eq (text : Text) (offset : Nat) :
    toByteOffset? text offset = toOffset? Char.utf8Size text offset := by
  induction text generalizing offset with
  | nil => rfl
  | cons c rest ih => rw [toByteOffset?, toOffset?, ih]

theorem toScalarOffset?_eq (text : Text) (offset : Nat) :
    toScalarOffset? text offset = toOffset? (fun _ => 1) text offset := by
  induction text generalizing offset with
  | nil => rfl
  | cons c rest ih => rw [toScalarOffset?, toOffset?, ih]

/-- The offsets that convert are those between two characters. -/
theorem toOffset?_eq_some_iff {size : Char → Nat} {text : Text} {offset other : Nat} :
    toOffset? size text offset = some other ↔
      ∃ before after, text = before ++ after ∧ utf16Len before = offset ∧
        total size before = other := by
  induction text generalizing offset other with
  | nil =>
    unfold toOffset?
    constructor
    · intro found
      by_cases zero : offset = 0
      · rw [if_pos zero] at found
        exact ⟨[], [], rfl, zero.symm, Option.some.inj found⟩
      · rw [if_neg zero] at found
        cases found
    · intro split
      rcases split with ⟨before, after, whole, isUnits, isOther⟩
      rcases List.append_eq_nil_iff.mp whole.symm with ⟨isNil, -⟩
      rw [isNil] at isUnits isOther
      have zero : offset = 0 := isUnits.symm
      rw [if_pos zero]
      exact congrArg some isOther
  | cons c rest ih =>
    have positive := units_pos c
    unfold toOffset?
    constructor
    · intro found
      by_cases zero : offset = 0
      · rw [if_pos zero] at found
        exact ⟨[], c :: rest, rfl, zero.symm, Option.some.inj found⟩
      · rw [if_neg zero] at found
        by_cases inside : offset < units c
        · rw [if_pos inside] at found
          cases found
        · rw [if_neg inside] at found
          rcases Option.map_eq_some_iff.mp found with ⟨other', found', isOther⟩
          rcases ih.mp found' with ⟨before, after, whole, isUnits, isOther'⟩
          refine ⟨c :: before, after, ?_, ?_, ?_⟩
          · rw [whole]
            rfl
          · rw [utf16Len, isUnits]
            omega
          · rw [total_cons, isOther']
            exact isOther
    · intro split
      rcases split with ⟨before, after, whole, isUnits, isOther⟩
      cases before with
      | nil =>
        have zero : offset = 0 := isUnits.symm
        rw [if_pos zero]
        exact congrArg some isOther
      | cons d before =>
        rcases List.cons.inj whole with ⟨same, whole⟩
        rw [utf16Len, ← same] at isUnits
        rw [total_cons, ← same] at isOther
        rw [if_neg (by omega), if_neg (by omega), Option.map_eq_some_iff]
        exact ⟨total size before, ih.mpr ⟨before, after, whole, by omega, rfl⟩, isOther⟩

theorem toByteOffset?_eq_some_iff {text : Text} {offset bytes : Nat} :
    toByteOffset? text offset = some bytes ↔
      ∃ before after, text = before ++ after ∧ utf16Len before = offset ∧ byteLen before = bytes := by
  simp only [toByteOffset?_eq, toOffset?_eq_some_iff, total_utf8Size]

theorem toScalarOffset?_eq_some_iff {text : Text} {offset scalars : Nat} :
    toScalarOffset? text offset = some scalars ↔
      ∃ before after, text = before ++ after ∧ utf16Len before = offset ∧
        before.length = scalars := by
  simp only [toScalarOffset?_eq, toOffset?_eq_some_iff, total_one]

/-- An offset in code units that is inside a surrogate pair or past the end. -/
inductive Misplaced (text : Text) (offset : Nat) : Prop
  | splits {before after : Text} {c : Char} (whole : text = before ++ c :: after)
      (behind : utf16Len before < offset) (ahead : offset < utf16Len before + units c) :
      Misplaced text offset
  | past (beyond : utf16Len text < offset) : Misplaced text offset

/-- The offsets that do not convert are those that name no place between characters. -/
theorem toScalarOffset?_eq_none_iff {text : Text} {offset : Nat} :
    toScalarOffset? text offset = none ↔ Misplaced text offset := by
  induction text generalizing offset with
  | nil =>
    unfold toScalarOffset?
    constructor
    · intro none_
      by_cases zero : offset = 0
      · rw [if_pos zero] at none_
        cases none_
      · exact .past (Nat.pos_of_ne_zero zero)
    · intro misplaced
      cases misplaced with
      | splits whole _ _ => cases List.append_eq_nil_iff.mp whole.symm |>.2
      | past beyond => exact if_neg (Nat.ne_of_gt beyond)
  | cons c rest ih =>
    unfold toScalarOffset?
    constructor
    · intro none_
      by_cases zero : offset = 0
      · rw [if_pos zero] at none_
        cases none_
      · rw [if_neg zero] at none_
        by_cases inside : offset < units c
        · refine @Misplaced.splits _ _ [] rest c rfl (Nat.pos_of_ne_zero zero) ?_
          rw [utf16Len, Nat.zero_add]
          exact inside
        · rw [if_neg inside, Option.map_eq_none_iff] at none_
          cases ih.mp none_ with
          | @splits before after d whole behind ahead =>
            refine @Misplaced.splits _ _ (c :: before) after d (congrArg (List.cons c) whole) ?_ ?_
            · rw [utf16Len]
              omega
            · rw [utf16Len]
              omega
          | past beyond =>
            apply Misplaced.past
            rw [utf16Len]
            omega
    · intro misplaced
      have positive := units_pos c
      cases misplaced with
      | @splits before after d whole behind ahead =>
        rw [if_neg (by omega)]
        cases before with
        | nil =>
          cases whole
          rw [utf16Len, Nat.zero_add] at ahead
          exact if_pos ahead
        | cons b before =>
          cases whole
          rw [utf16Len] at behind ahead
          rw [if_neg (by omega), Option.map_eq_none_iff]
          exact ih.mpr (.splits rfl (by omega) (by omega))
      | past beyond =>
        rw [utf16Len] at beyond
        rw [if_neg (by omega), if_neg (by omega), Option.map_eq_none_iff]
        exact ih.mpr (.past (by omega))

/-- Of two beginnings of one text, the one with fewer code units is not the longer one. -/
theorem length_le_of_utf16Len {first rest second rest' : Text}
    (same : first ++ rest = second ++ rest') (le : utf16Len first ≤ utf16Len second) :
    first.length ≤ second.length := by
  rcases List.append_eq_append_iff.mp same with ⟨mid, longer, -⟩ | ⟨mid, longer, -⟩
  · rw [longer, List.length_append]
    exact Nat.le_add_right _ _
  · cases mid with
    | nil =>
      have equal : first = second := longer.trans (List.append_nil _)
      exact Nat.le_of_eq (congrArg List.length equal)
    | cons c mid =>
      have positive := units_pos c
      rw [longer, utf16Len_append, utf16Len] at le
      omega

end Burlmd.Utf16
