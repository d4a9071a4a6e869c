import Mathlib.Data.List.Basic
import Mathlib.Data.List.Sort
import Mathlib.Data.List.Range
import Mathlib.Tactic.Common

/-!
# Numbers drawn in two rounds

The parts of a build stand in one order and draw numbers from one counter. Some draw while the
build runs; a part that is put off draws after it, in a build of its own. The numbers stand in the
order of the parts exactly when no part that draws at once stands behind one that was put off.
-/

namespace Burlmd.Deferred

inductive Plan where
  | draw (count : Nat)
  | both (first second : Plan)
  | later (body : Plan)

namespace Plan

/-- What the build draws before it returns. -/
def eager : Plan → Nat
  | draw count => count
  | both first second => first.eager + second.eager
  | later _ => 0

/-- What is drawn after the build has returned. -/
def deferred : Plan → Nat
  | draw _ => 0
  | both first second => first.deferred + second.deferred
  | later body => body.eager + body.deferred

def total (plan : Plan) : Nat := plan.eager + plan.deferred

/-- The numbers in the order of the parts: the build draws from the first counter, and what it
put off from the second. -/
def place : Plan → Nat → Nat → List Nat
  | draw count, now, _ => List.range' now count
  | both first second, now, after =>
      place first now after ++ place second (now + first.eager) (after + first.deferred)
  | later body, _, after => place body after (after + body.eager)

/-- Plans one after another. -/
def all : List Plan → Plan
  | [] => draw 0
  | plan :: rest => both plan (all rest)

/-- Nothing is drawn at once behind a part that was put off. -/
def inOrder : Plan → Bool
  | draw _ => true
  | both first second =>
      first.inOrder && second.inOrder && (first.deferred == 0 || second.eager == 0)
  | later body => body.inOrder

variable {plan first second : Plan} {now after number : Nat}

theorem place_length : (plan.place now after).length = plan.total := by
  induction plan generalizing now after with
  | draw count => exact List.length_range'
  | both first second one two =>
    have lengths : (place (both first second) now after).length =
        (first.place now after).length +
          (second.place (now + first.eager) (after + first.deferred)).length := List.length_append
    apply lengths.trans
    rw [one, two]
    simp only [total, eager, deferred]
    omega
  | later body ih =>
    have inner : (place (later body) now after).length = body.total := ih
    apply inner.trans
    simp only [total, eager, deferred]
    omega

theorem mem_place : number ∈ plan.place now after ↔
    now ≤ number ∧ number < now + plan.eager ∨ after ≤ number ∧ number < after + plan.deferred := by
  induction plan generalizing now after with
  | draw count =>
    have drawn : number ∈ (draw count).place now after ↔ now ≤ number ∧ number < now + count :=
      List.mem_range'_1
    rw [drawn]
    simp only [eager, deferred]
    omega
  | both first second one two =>
    have either : number ∈ (both first second).place now after ↔ number ∈ first.place now after ∨
        number ∈ second.place (now + first.eager) (after + first.deferred) := List.mem_append
    rw [either, one, two]
    simp only [eager, deferred]
    omega
  | later body ih =>
    have inner : number ∈ (later body).place now after ↔
        number ∈ body.place after (after + body.eager) := Iff.rfl
    rw [inner, ih]
    simp only [eager, deferred]
    omega

theorem inOrder_both : (both first second).inOrder = true ↔
    first.inOrder = true ∧ second.inOrder = true ∧ (first.deferred = 0 ∨ second.eager = 0) := by
  simp only [inOrder, Bool.and_eq_true, Bool.or_eq_true, beq_iff_eq, and_assoc]

/-- Two parts are in order unless the second draws at once behind what the first put off. -/
theorem place_before_iff (ahead : now + first.eager + second.eager ≤ after) :
    (∀ one ∈ first.place now after,
        ∀ two ∈ second.place (now + first.eager) (after + first.deferred), one < two) ↔
      first.deferred = 0 ∨ second.eager = 0 := by
  constructor
  · intro before
    by_contra both_draw
    rw [not_or] at both_draw
    have put_off : after ∈ first.place now after := mem_place.mpr (Or.inr (by omega))
    have at_once : now + first.eager ∈ second.place (now + first.eager) (after + first.deferred) :=
      mem_place.mpr (Or.inl (by omega))
    have less := before _ put_off _ at_once
    omega
  · intro none_ one inFirst two inSecond
    have here := mem_place.mp inFirst
    have there := mem_place.mp inSecond
    omega

theorem place_sorted_iff (ahead : now + plan.eager ≤ after) :
    (plan.place now after).Pairwise (· < ·) ↔ plan.inOrder = true := by
  induction plan generalizing now after with
  | draw count => exact iff_of_true List.pairwise_lt_range' rfl
  | both first second one two =>
    simp only [eager] at ahead
    have split : (place (both first second) now after).Pairwise (· < ·) ↔
        (first.place now after).Pairwise (· < ·) ∧
          (second.place (now + first.eager) (after + first.deferred)).Pairwise (· < ·) ∧
          ∀ one ∈ first.place now after,
            ∀ two ∈ second.place (now + first.eager) (after + first.deferred), one < two :=
      List.pairwise_append
    rw [split, one (by omega), two (by omega), place_before_iff (by omega), inOrder_both]
  | later body ih => exact ih (Nat.le_refl _)

/-- The numbers count the parts exactly when the plan is in order. -/
theorem place_eq_range_iff :
    plan.place 0 plan.eager = List.range plan.total ↔ plan.inOrder = true := by
  have start : 0 + plan.eager ≤ plan.eager := Nat.le_of_eq (Nat.zero_add _)
  constructor
  · intro counts
    apply (place_sorted_iff start).mp
    rw [counts]
    exact List.pairwise_lt_range
  · intro ordered
    have sorted := (place_sorted_iff start).mpr ordered
    apply List.Perm.eq_of_pairwise ?_ sorted List.pairwise_lt_range ?_
    · intro one two _ _ less more
      exact absurd more (Nat.lt_asymm less)
    · apply (List.perm_ext_iff_of_nodup (sorted.imp Nat.ne_of_lt) List.nodup_range).mpr
      intro number
      rw [mem_place, List.mem_range]
      unfold total
      omega

end Plan

end Burlmd.Deferred
