import Mathlib.Data.List.Basic
import Mathlib.Order.Compare

/-!
# Binary search

The search for an element that a probe calls equal, over elements it calls less, equal and greater
in that order. It halves what is left until one element is left, and only then asks for equality.
-/

namespace Burlmd.BinarySearch

universe u
variable {α : Type u} (probe : α → Ordering)

/-- Where the search ends, of `size` elements from `base` on. -/
def narrow (xs : List α) : Nat → Nat → Nat → Nat
  | 0, _, base => base
  | fuel + 1, size, base =>
      if size ≤ 1 then base
      else if (xs[base + size / 2]?).any fun x => probe x != .gt then
        narrow xs fuel (size - size / 2) (base + size / 2)
      else narrow xs fuel (size - size / 2) base

def search (xs : List α) : Option Nat :=
  let base := narrow probe xs xs.length xs.length 0
  if (xs[base]?).any fun x => probe x == .eq then some base else none

variable {probe} {xs : List α} {i : Nat}

theorem search_sound (found : search probe xs = some i) :
    ∃ x, xs[i]? = some x ∧ probe x = .eq := by
  unfold search at found
  dsimp only at found
  by_cases equal : (xs[narrow probe xs xs.length xs.length 0]?).any fun x => probe x == .eq
  · rw [if_pos equal] at found
    rw [← Option.some.inj found]
    rcases (Option.any_eq_true _ _).mp equal with ⟨x, isAt, isEqual⟩
    exact ⟨x, isAt, beq_iff_eq.mp isEqual⟩
  · rw [if_neg equal] at found
    cases found

variable {before after : List α} {x : α}

/-- What lies at or before an element is not greater, and what lies after it is. -/
theorem any_not_gt (less : ∀ y ∈ before, probe y = .lt) (equal : probe x = .eq)
    (greater : ∀ y ∈ after, probe y = .gt) (bound : i < (before ++ x :: after).length) :
    ((before ++ x :: after)[i]?).any (fun y => probe y != .gt) = true ↔ i ≤ before.length := by
  rcases Nat.lt_trichotomy i before.length with inside | same | beyond
  · rw [List.getElem?_append_left inside, List.getElem?_eq_getElem inside, Option.any_some,
      less _ (List.getElem_mem inside)]
    exact ⟨fun _ => Nat.le_of_lt inside, fun _ => rfl⟩
  · rw [same, List.getElem?_append_right (Nat.le_refl _), Nat.sub_self, List.getElem?_cons_zero,
      Option.any_some, equal]
    exact ⟨fun _ => Nat.le_refl _, fun _ => rfl⟩
  · rw [List.length_append, List.length_cons] at bound
    have inside : i - before.length - 1 < after.length := by omega
    rw [List.getElem?_append_right (Nat.le_of_lt beyond),
      show i - before.length = i - before.length - 1 + 1 from by omega, List.getElem?_cons_succ,
      List.getElem?_eq_getElem inside, Option.any_some, greater _ (List.getElem_mem inside)]
    constructor
    · intro wrong
      cases wrong
    · intro early
      omega

/-- The element stays among those that are left. -/
theorem narrow_eq (less : ∀ y ∈ before, probe y = .lt) (equal : probe x = .eq)
    (greater : ∀ y ∈ after, probe y = .gt) {fuel size base : Nat} (enough : size ≤ fuel)
    (inside : base + size ≤ (before ++ x :: after).length)
    (low : base ≤ before.length) (high : before.length < base + size) :
    narrow probe (before ++ x :: after) fuel size base = before.length := by
  induction fuel generalizing size base with
  | zero => omega
  | succ fuel ih =>
    unfold narrow
    by_cases last : size ≤ 1
    · rw [if_pos last]
      omega
    · rw [if_neg last]
      have probed := any_not_gt (i := base + size / 2) less equal greater (by omega)
      by_cases reached : base + size / 2 ≤ before.length
      · rw [if_pos (probed.mpr reached)]
        apply ih <;> omega
      · rw [if_neg (fun any => reached (probed.mp any))]
        apply ih <;> omega

theorem search_complete (less : ∀ y ∈ before, probe y = .lt) (equal : probe x = .eq)
    (greater : ∀ y ∈ after, probe y = .gt) :
    search probe (before ++ x :: after) = some before.length := by
  have isBefore : narrow probe (before ++ x :: after) (before ++ x :: after).length
      (before ++ x :: after).length 0 = before.length := by
    apply narrow_eq less equal greater (Nat.le_refl _)
    · exact Nat.le_of_eq (Nat.zero_add _)
    · exact Nat.zero_le _
    · rw [List.length_append, List.length_cons]
      omega
  unfold search
  dsimp only
  rw [isBefore, List.getElem?_append_right (Nat.le_refl _), Nat.sub_self, List.getElem?_cons_zero,
    Option.any_some, equal]
  rfl

end Burlmd.BinarySearch
