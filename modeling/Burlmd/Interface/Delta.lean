import Burlmd.Interface.Emphasis

/-!
# The delta between two field values

The part of a field value that changed is read off what the two values share at their ends. Both
ends are compared one scalar at a time, so that the delta never starts or ends inside of a
surrogate pair.
-/

namespace Burlmd.Interface

open Surrogates

structure Utf16Delta where
  start : Nat
  stop : Nat
  replacement : Units
  deriving DecidableEq

/-- A surrogate pair starts at the offset. -/
def pairAt (text : Units) (offset : Nat) : Bool :=
  text[offset]?.any isHigh && text[offset + 1]?.any isLow

def nextUtf16Scalar (text : Units) (offset : Nat) : Nat :=
  if pairAt text offset then offset + 2 else offset + 1

def previousUtf16Scalar (text : Units) (offset : Nat) : Nat :=
  if 1 < offset ∧ pairAt text (offset - 2) then offset - 2 else offset - 1

def sameUtf16Scalar (a : Units) (aOffset : Nat) (b : Units) (bOffset : Nat) : Bool :=
  let aEnd := nextUtf16Scalar a aOffset
  let bEnd := nextUtf16Scalar b bOffset
  aEnd - aOffset == bEnd - bOffset && substring a aOffset aEnd == substring b bOffset bEnd

/-- Each round moves behind a scalar, so the length of the text is fuel enough. -/
def sharedPrefix (previous next : Units) : Nat → Nat → Nat
  | 0, offset => offset
  | fuel + 1, offset =>
      if offset < previous.length ∧ offset < next.length ∧
          sameUtf16Scalar previous offset next offset then
        sharedPrefix previous next fuel (nextUtf16Scalar previous offset)
      else offset

def sharedSuffix (previous next : Units) (start : Nat) : Nat → Nat → Nat → Nat × Nat
  | 0, previousEnd, nextEnd => (previousEnd, nextEnd)
  | fuel + 1, previousEnd, nextEnd =>
      if start < previousEnd ∧ start < nextEnd ∧
          sameUtf16Scalar previous (previousUtf16Scalar previous previousEnd) next
            (previousUtf16Scalar next nextEnd) then
        sharedSuffix previous next start fuel (previousUtf16Scalar previous previousEnd)
          (previousUtf16Scalar next nextEnd)
      else (previousEnd, nextEnd)

def utf16Delta (previous next : Units) : Utf16Delta :=
  let start := sharedPrefix previous next previous.length 0
  let ends := sharedSuffix previous next start previous.length previous.length next.length
  ⟨start, ends.1, substring next start ends.2⟩

/-! ## Boundaries -/

/-- No surrogate pair stands around the offset. -/
def Boundary (text : Units) (offset : Nat) : Prop :=
  ∀ before, offset = before + 1 → pairAt text before = false

section Boundaries

variable {text : Units} {offset : Nat}

theorem not_isHigh_of_isLow {u : UInt16} (low : isLow u = true) : isHigh u = false := by
  unfold isLow at low
  unfold isHigh
  rw [Bool.and_eq_true, decide_eq_true_eq, decide_eq_true_eq] at low
  rw [Bool.and_eq_false_iff, decide_eq_false_iff_not, decide_eq_false_iff_not]
  apply Or.inr
  intro high
  have bounds := UInt16.le_trans low.1 high
  revert bounds
  decide

/-- Pairs do not overlap. -/
theorem pairAt_succ (pair : pairAt text offset = true) : pairAt text (offset + 1) = false := by
  unfold pairAt at pair ⊢
  rw [Bool.and_eq_true] at pair
  cases found : text[offset + 1]? with
  | none => rfl
  | some u =>
    have low := pair.2
    rw [found] at low
    have high : (some u).any isHigh = false := not_isHigh_of_isLow low
    rw [high, Bool.false_and]

theorem pairAt_inside (pair : pairAt text offset = true) : offset + 2 ≤ text.length := by
  unfold pairAt at pair
  rw [Bool.and_eq_true] at pair
  by_contra short
  have none_ : text[offset + 1]? = none := List.getElem?_eq_none (by omega)
  rw [none_] at pair
  exact Bool.false_ne_true pair.2

theorem boundary_zero : Boundary text 0 := by
  intro before zero
  omega

theorem boundary_length : Boundary text text.length := by
  intro before length
  by_contra pair
  have inside := pairAt_inside (eq_true_of_ne_false pair)
  omega

theorem boundary_next : Boundary text (nextUtf16Scalar text offset) := by
  unfold nextUtf16Scalar
  split
  · rename_i pair
    intro before same
    have isNext : before = offset + 1 := by omega
    rw [isNext]
    exact pairAt_succ pair
  · rename_i single
    intro before same
    have isOffset : before = offset := by omega
    rw [isOffset]
    exact eq_false_of_ne_true single

theorem boundary_previous : Boundary text (previousUtf16Scalar text offset) := by
  unfold previousUtf16Scalar
  split
  · rename_i pair
    intro before same
    by_contra again
    have next := pairAt_succ (eq_true_of_ne_false again)
    rw [← same, pair.2] at next
    cases next
  · rename_i single
    intro before same
    by_contra pair
    apply single
    have isBefore : offset - 2 = before := by omega
    rw [isBefore]
    exact ⟨by omega, eq_true_of_ne_false pair⟩

theorem next_bounds (inside : offset < text.length) :
    offset < nextUtf16Scalar text offset ∧ nextUtf16Scalar text offset ≤ text.length := by
  unfold nextUtf16Scalar
  split
  · rename_i pair
    have bound := pairAt_inside pair
    omega
  · omega

/-- A scalar that ends at a boundary is the one that starts where it starts. -/
theorem next_previous (boundary : Boundary text offset) (positive : 0 < offset) :
    previousUtf16Scalar text offset < offset ∧
      nextUtf16Scalar text (previousUtf16Scalar text offset) = offset := by
  unfold previousUtf16Scalar
  split
  · rename_i pair
    unfold nextUtf16Scalar
    rw [if_pos pair.2]
    omega
  · have single := boundary (offset - 1) (by omega)
    unfold nextUtf16Scalar
    rw [single]
    simp only [Bool.false_eq_true, if_false]
    omega

/-- The scalar ahead of a later boundary does not start before an earlier one. -/
theorem le_previous {start : Nat} (boundary : Boundary text start) (before : start < offset) :
    start ≤ previousUtf16Scalar text offset := by
  unfold previousUtf16Scalar
  split
  · rename_i pair
    by_contra short
    have single := boundary (offset - 2) (by omega)
    rw [pair.2] at single
    cases single
  · omega

end Boundaries

/-! ## What a delta is -/

section Shared

variable {previous next : Units}

theorem substring_split (text : Units) {start stop : Nat} (ordered : start ≤ stop) :
    text.drop start = substring text start stop ++ text.drop stop := by
  have cut := List.take_append_drop stop text
  have bounded : start ≤ (text.take stop).length ∨ text.length ≤ start := by
    rw [List.length_take]
    omega
  unfold substring
  rcases bounded with inside | outside
  · conv_lhs => rw [← cut]
    rw [List.drop_append_of_le_length inside]
  · rw [List.drop_eq_nil_of_le outside, List.drop_eq_nil_of_le (Nat.le_trans outside ordered),
      List.drop_eq_nil_of_le (Nat.le_trans (List.length_take_le' _ _) outside)]
    rfl

/-- The two values agree up to an offset, and no pair stands around it in either. -/
structure SharedTo (previous next : Units) (offset : Nat) : Prop where
  inside : offset ≤ previous.length
  inside' : offset ≤ next.length
  same : previous.take offset = next.take offset
  boundary : Boundary previous offset
  boundary' : Boundary next offset

/-- The two values agree from two offsets on, and no pair stands around these. -/
structure SharedFrom (previous next : Units) (previousEnd nextEnd : Nat) : Prop where
  inside : previousEnd ≤ previous.length
  inside' : nextEnd ≤ next.length
  same : previous.drop previousEnd = next.drop nextEnd
  boundary : Boundary previous previousEnd
  boundary' : Boundary next nextEnd

theorem sameUtf16Scalar_iff {a b : Units} {aOffset bOffset : Nat} :
    sameUtf16Scalar a aOffset b bOffset = true ↔
      nextUtf16Scalar a aOffset - aOffset = nextUtf16Scalar b bOffset - bOffset ∧
        substring a aOffset (nextUtf16Scalar a aOffset) =
          substring b bOffset (nextUtf16Scalar b bOffset) := by
  unfold sameUtf16Scalar
  simp only [Bool.and_eq_true, beq_iff_eq]

theorem take_split (text : Units) {start stop : Nat} (ordered : start ≤ stop) :
    text.take stop = text.take start ++ substring text start stop := by
  have cut := List.take_append_drop start (text.take stop)
  rw [List.take_take, Nat.min_eq_left ordered] at cut
  exact cut.symm

theorem sharedPrefix_shared (fuel : Nat) {offset : Nat} (shared : SharedTo previous next offset) :
    SharedTo previous next (sharedPrefix previous next fuel offset) := by
  induction fuel generalizing offset with
  | zero => exact shared
  | succ fuel ih =>
    unfold sharedPrefix
    split
    · rename_i going
      rcases going with ⟨inside, inside', same⟩
      rw [sameUtf16Scalar_iff] at same
      have bounds := next_bounds inside
      have bounds' := next_bounds inside'
      have together : nextUtf16Scalar next offset = nextUtf16Scalar previous offset := by omega
      have scalar := same.2
      rw [together] at scalar bounds'
      apply ih
      refine ⟨bounds.2, bounds'.2, ?_, boundary_next, ?_⟩
      · rw [take_split previous (Nat.le_of_lt bounds.1), take_split next (Nat.le_of_lt bounds.1),
          shared.same, scalar]
      · rw [← together]
        exact boundary_next
    · exact shared

variable {start : Nat}

theorem sharedSuffix_shared (fuel : Nat) {previousEnd nextEnd : Nat}
    (ahead : SharedTo previous next start) (ordered : start ≤ previousEnd)
    (ordered' : start ≤ nextEnd) (shared : SharedFrom previous next previousEnd nextEnd) :
    start ≤ (sharedSuffix previous next start fuel previousEnd nextEnd).1 ∧
      start ≤ (sharedSuffix previous next start fuel previousEnd nextEnd).2 ∧
      SharedFrom previous next (sharedSuffix previous next start fuel previousEnd nextEnd).1
        (sharedSuffix previous next start fuel previousEnd nextEnd).2 := by
  induction fuel generalizing previousEnd nextEnd with
  | zero => exact ⟨ordered, ordered', shared⟩
  | succ fuel ih =>
    unfold sharedSuffix
    split
    · rename_i going
      rcases going with ⟨before, before', same⟩
      rw [sameUtf16Scalar_iff] at same
      have scalar := next_previous shared.boundary (Nat.zero_lt_of_lt before)
      have scalar' := next_previous shared.boundary' (Nat.zero_lt_of_lt before')
      rw [scalar.2, scalar'.2] at same
      have inside := shared.inside
      have inside' := shared.inside'
      apply ih (le_previous ahead.boundary before) (le_previous ahead.boundary' before')
      refine ⟨by omega, by omega, ?_, boundary_previous, boundary_previous⟩
      rw [substring_split previous (Nat.le_of_lt scalar.1),
        substring_split next (Nat.le_of_lt scalar'.1), same.2, shared.same]
    · exact ⟨ordered, ordered', shared⟩

/-- The values around a delta. -/
structure Around (previous next : Units) (delta : Utf16Delta) (before removed after : Units) :
    Prop where
  previous_eq : previous = before ++ removed ++ after
  next_eq : next = before ++ delta.replacement ++ after
  start_eq : delta.start = before.length
  stop_eq : delta.stop = (before ++ removed).length
  starts : Boundary previous before.length
  stops : Boundary previous (before ++ removed).length
  starts' : Boundary next before.length
  stops' : Boundary next (before ++ delta.replacement).length

/-- The delta leaves what the values share and splits no surrogate pair of theirs. -/
theorem utf16Delta_around (previous next : Units) :
    ∃ before removed after, Around previous next (utf16Delta previous next) before removed after := by
  have ahead : SharedTo previous next (sharedPrefix previous next previous.length 0) :=
    sharedPrefix_shared previous.length
      ⟨Nat.zero_le _, Nat.zero_le _, rfl, boundary_zero, boundary_zero⟩
  have whole : SharedFrom previous next previous.length next.length :=
    ⟨Nat.le_refl _, Nat.le_refl _, by rw [List.drop_length, List.drop_length], boundary_length,
      boundary_length⟩
  rcases sharedSuffix_shared previous.length ahead ahead.inside ahead.inside' whole with
    ⟨ordered, ordered', behind⟩
  unfold utf16Delta
  dsimp only
  generalize sharedPrefix previous next previous.length 0 = start at ahead ordered ordered' behind ⊢
  generalize sharedSuffix previous next start previous.length previous.length next.length = ends
    at ordered ordered' behind ⊢
  have own : previous.take ends.1 = previous.take start ++ substring previous start ends.1 :=
    take_split previous ordered
  have own' : next.take ends.2 = next.take start ++ substring next start ends.2 :=
    take_split next ordered'
  have length : (previous.take start).length = start := by
    rw [List.length_take]
    exact Nat.min_eq_left ahead.inside
  have stop : (previous.take start ++ substring previous start ends.1).length = ends.1 := by
    rw [← own, List.length_take]
    exact Nat.min_eq_left behind.inside
  have stop' : (previous.take start ++ substring next start ends.2).length = ends.2 := by
    rw [ahead.same, ← own', List.length_take]
    exact Nat.min_eq_left behind.inside'
  refine ⟨previous.take start, substring previous start ends.1, previous.drop ends.1, ?_⟩
  constructor
  · rw [← own, List.take_append_drop]
  · rw [ahead.same, ← own', behind.same, List.take_append_drop]
  · exact length.symm
  · exact stop.symm
  · rw [length]
    exact ahead.boundary
  · rw [stop]
    exact behind.boundary
  · rw [length]
    exact ahead.boundary'
  · rw [stop']
    exact behind.boundary'

end Shared

end Burlmd.Interface
