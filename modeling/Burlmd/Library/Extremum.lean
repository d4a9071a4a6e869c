import Mathlib.Order.Lattice
import Mathlib.Tactic.Common

/-!
# Extreme elements of a list

The last of the elements with the greatest key, and the first of those with the least.
-/

namespace Burlmd.Extremum

universe u v
variable {α : Type u} {β : Type v} [LinearOrder β]

def lastMax? (key : α → β) : List α → Option α
  | [] => none
  | x :: rest =>
      match lastMax? key rest with
      | none => some x
      | some y => if key x ≤ key y then some y else some x

def firstMin? (key : α → β) : List α → Option α
  | [] => none
  | x :: rest =>
      match firstMin? key rest with
      | none => some x
      | some y => if key x ≤ key y then some x else some y

variable {key : α → β} {xs : List α} {x : α}

theorem lastMax?_eq_none_iff : lastMax? key xs = none ↔ xs = [] := by
  cases xs with
  | nil => exact ⟨fun _ => rfl, fun _ => rfl⟩
  | cons x rest =>
    unfold lastMax?
    constructor
    · intro none_
      cases later : lastMax? key rest with
      | none =>
        rw [later] at none_
        cases none_
      | some y =>
        rw [later] at none_
        dsimp only at none_
        by_cases le : key x ≤ key y
        · rw [if_pos le] at none_
          cases none_
        · rw [if_neg le] at none_
          cases none_
    · intro wrong
      cases wrong

theorem lastMax?_spec (found : lastMax? key xs = some x) :
    x ∈ xs ∧ ∀ y ∈ xs, key y ≤ key x := by
  induction xs generalizing x with
  | nil => cases found
  | cons first rest ih =>
    unfold lastMax? at found
    cases later : lastMax? key rest with
    | none =>
      rw [later] at found
      rw [← Option.some.inj found, lastMax?_eq_none_iff.mp later]
      refine ⟨List.mem_cons_self, ?_⟩
      intro y mem
      rw [List.mem_singleton.mp mem]
    | some z =>
      rw [later] at found
      dsimp only at found
      rcases ih later with ⟨mem, bound⟩
      by_cases le : key first ≤ key z
      · rw [if_pos le] at found
        rw [← Option.some.inj found, List.forall_mem_cons]
        exact ⟨List.mem_cons_of_mem _ mem, le, bound⟩
      · rw [if_neg le] at found
        rw [← Option.some.inj found, List.forall_mem_cons]
        refine ⟨List.mem_cons_self, le_refl _, ?_⟩
        intro y inRest
        exact le_trans (bound y inRest) (le_of_lt (not_le.mp le))

theorem firstMin?_eq_none_iff : firstMin? key xs = none ↔ xs = [] := by
  cases xs with
  | nil => exact ⟨fun _ => rfl, fun _ => rfl⟩
  | cons x rest =>
    unfold firstMin?
    constructor
    · intro none_
      cases later : firstMin? key rest with
      | none =>
        rw [later] at none_
        cases none_
      | some y =>
        rw [later] at none_
        dsimp only at none_
        by_cases le : key x ≤ key y
        · rw [if_pos le] at none_
          cases none_
        · rw [if_neg le] at none_
          cases none_
    · intro wrong
      cases wrong

theorem firstMin?_spec (found : firstMin? key xs = some x) :
    x ∈ xs ∧ ∀ y ∈ xs, key x ≤ key y := by
  induction xs generalizing x with
  | nil => cases found
  | cons first rest ih =>
    unfold firstMin? at found
    cases later : firstMin? key rest with
    | none =>
      rw [later] at found
      rw [← Option.some.inj found, firstMin?_eq_none_iff.mp later]
      refine ⟨List.mem_cons_self, ?_⟩
      intro y mem
      rw [List.mem_singleton.mp mem]
    | some z =>
      rw [later] at found
      dsimp only at found
      rcases ih later with ⟨mem, bound⟩
      by_cases le : key first ≤ key z
      · rw [if_pos le] at found
        rw [← Option.some.inj found, List.forall_mem_cons]
        refine ⟨List.mem_cons_self, le_refl _, ?_⟩
        intro y inRest
        exact le_trans le (bound y inRest)
      · rw [if_neg le] at found
        rw [← Option.some.inj found, List.forall_mem_cons]
        exact ⟨List.mem_cons_of_mem _ mem, le_of_lt (not_le.mp le), bound⟩

end Burlmd.Extremum
