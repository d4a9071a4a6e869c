import Mathlib.Data.UInt
import Burlmd.Library.Utf8

/-!
# ASCII in UTF-8

An ASCII character is one byte, and every byte of another character is above the ASCII
range. So a scan for ASCII bytes never mistakes a part of another character for one.
-/

namespace Burlmd.Utf8

def IsAscii (c : Char) : Prop := c.toNat < 128

instance (c : Char) : Decidable (IsAscii c) := inferInstanceAs (Decidable (_ < _))

/-- The byte of an ASCII character. -/
def asciiByte (c : Char) : UInt8 := c.toNat.toUInt8

@[simp] theorem bytes_nil : bytes [] = [] := List.flatMap_nil

theorem bytes_cons (c : Char) (rest : Text) :
    bytes (c :: rest) = String.utf8EncodeChar c ++ bytes rest := List.flatMap_cons

@[simp] theorem bytes_append (first second : Text) :
    bytes (first ++ second) = bytes first ++ bytes second := List.flatMap_append

theorem length_bytes (text : Text) : (bytes text).length = byteLen text := by
  induction text with
  | nil => simp
  | cons c rest ih => simp [bytes_cons, ih]

theorem utf8EncodeChar_ascii {c : Char} (ascii : IsAscii c) :
    String.utf8EncodeChar c = [asciiByte c] := by
  unfold String.utf8EncodeChar
  have small : c.val.toNat ≤ 0x7f := Nat.le_of_lt_succ ascii
  simp only [small, if_true]
  rfl

theorem bytes_cons_ascii {c : Char} (ascii : IsAscii c) (rest : Text) :
    bytes (c :: rest) = asciiByte c :: bytes rest := by
  rw [bytes_cons, utf8EncodeChar_ascii ascii]
  rfl

theorem utf8Size_ascii {c : Char} (ascii : IsAscii c) : c.utf8Size = 1 := by
  rw [← String.length_utf8EncodeChar, utf8EncodeChar_ascii ascii]
  rfl

theorem high_of_mem_utf8EncodeChar {c : Char} (other : ¬ IsAscii c) :
    ∀ b ∈ String.utf8EncodeChar c, 128 ≤ b.toNat := by
  have large : ¬ c.val.toNat ≤ 0x7f := by
    intro small
    exact other (Nat.lt_succ_of_le small)
  intro b mem
  unfold String.utf8EncodeChar at mem
  simp only [large, if_false] at mem
  split at mem
  · simp only [List.mem_cons, List.not_mem_nil, or_false] at mem
    rcases mem with same | same <;> subst same <;> simp only [UInt8.toNat_ofNat'] <;> omega
  · split at mem
    · simp only [List.mem_cons, List.not_mem_nil, or_false] at mem
      rcases mem with same | same | same <;> subst same <;> simp only [UInt8.toNat_ofNat'] <;> omega
    · simp only [List.mem_cons, List.not_mem_nil, or_false] at mem
      rcases mem with same | same | same | same <;> subst same <;>
        simp only [UInt8.toNat_ofNat'] <;> omega

theorem toNat_asciiByte {c : Char} (ascii : IsAscii c) : (asciiByte c).toNat = c.toNat := by
  unfold IsAscii at ascii
  simp only [asciiByte, Nat.toUInt8, UInt8.toNat_ofNat']
  omega

theorem asciiByte_inj {c d : Char} (left : IsAscii c) (right : IsAscii d)
    (same : asciiByte c = asciiByte d) : c = d := by
  have values := congrArg UInt8.toNat same
  rw [toNat_asciiByte left, toNat_asciiByte right] at values
  exact Char.ext (UInt32.toNat_inj.mp values)

/-- An ASCII byte of a text is an ASCII character of it. -/
theorem mem_of_asciiByte_mem {c : Char} (ascii : IsAscii c) {text : Text}
    (mem : asciiByte c ∈ bytes text) : c ∈ text := by
  rcases List.mem_flatMap.mp mem with ⟨d, there, encoded⟩
  by_cases low : IsAscii d
  · rw [utf8EncodeChar_ascii low, List.mem_singleton] at encoded
    rw [asciiByte_inj ascii low encoded]
    exact there
  · have high := high_of_mem_utf8EncodeChar low _ encoded
    rw [toNat_asciiByte ascii] at high
    unfold IsAscii at ascii
    omega

end Burlmd.Utf8
