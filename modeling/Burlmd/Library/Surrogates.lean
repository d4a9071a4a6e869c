import Mathlib.Data.List.Basic
import Mathlib.Tactic.Common

/-!
# UTF-16 code units

A text of code units is well formed if its surrogates come in pairs, a high one first.
-/

namespace Burlmd.Surrogates

abbrev Units := List UInt16

def isHigh (u : UInt16) : Bool := 0xD800 ≤ u && u ≤ 0xDBFF

def isLow (u : UInt16) : Bool := 0xDC00 ≤ u && u ≤ 0xDFFF

/-- Reads units behind a high surrogate or not, and tells whether the last one is high. -/
def scan : Bool → Units → Option Bool
  | afterHigh, [] => some afterHigh
  | afterHigh, u :: rest => if afterHigh = isLow u then scan (isHigh u) rest else none

def WellFormed (text : Units) : Prop := scan false text = some false

instance (text : Units) : Decidable (WellFormed text) := inferInstanceAs (Decidable (_ = _))

/-- One unit that is no surrogate, or a pair. -/
def CodePoint (units : Units) : Prop :=
  (∃ u, units = [u] ∧ isHigh u = false ∧ isLow u = false) ∨
    ∃ high low, units = [high, low] ∧ isHigh high = true ∧ isLow low = true

theorem CodePoint.length_le {point : Units} (isPoint : CodePoint point) : point.length ≤ 2 := by
  rcases isPoint with ⟨u, single, _⟩ | ⟨high, low, pair, _⟩
  · simp [single]
  · simp [pair]

theorem scan_append (afterHigh : Bool) (first second : Units) :
    scan afterHigh (first ++ second) = (scan afterHigh first).bind fun last => scan last second := by
  induction first generalizing afterHigh with
  | nil => rfl
  | cons u rest ih =>
    rw [List.cons_append, scan, scan]
    split
    · exact ih _
    · rfl

/-- A text can stand behind one kind of unit only. -/
theorem scan_injective {text : Units} {afterHigh afterHigh' last : Bool}
    (read : scan afterHigh text = some last) (read' : scan afterHigh' text = some last) :
    afterHigh = afterHigh' := by
  cases text with
  | nil => exact Option.some.inj (read.trans read'.symm)
  | cons u rest =>
    rw [scan] at read read'
    split at read
    · rename_i first
      split at read'
      · rename_i second
        exact first.trans second.symm
      · cases read'
    · cases read

/-- Two beginnings that one end can follow can be followed by the same ends. -/
theorem WellFormed.exchange {first first' last last' : Units}
    (own : WellFormed (first' ++ last)) (shared : WellFormed (first ++ last))
    (other : WellFormed (first ++ last')) : WellFormed (first' ++ last') := by
  unfold WellFormed at own shared other ⊢
  rw [scan_append] at own shared other ⊢
  rcases Option.bind_eq_some_iff.mp own with ⟨state', reads', ends'⟩
  rcases Option.bind_eq_some_iff.mp shared with ⟨state, reads, ends⟩
  rw [reads, Option.bind_some] at other
  rw [reads', Option.bind_some, scan_injective ends' ends]
  exact other

end Burlmd.Surrogates
