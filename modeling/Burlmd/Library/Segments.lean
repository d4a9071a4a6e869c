import Mathlib.Data.List.Basic
import Mathlib.Data.List.Infix
import Mathlib.Tactic.Common

/-!
# Segments

A list is cut into segments at each occurrence of a separator.
-/

namespace Burlmd.Segments

universe u
variable {α : Type u} {a : α} {xs ys : List α}

/-- A list has no separator, or a last one. -/
theorem not_mem_or_exists_last (a : α) (xs : List α) :
    a ∉ xs ∨ ∃ before last, xs = before ++ a :: last ∧ a ∉ last := by
  induction xs with
  | nil => exact .inl List.not_mem_nil
  | cons c rest ih =>
    rcases ih with plain | ⟨before, last, rfl, plain⟩
    · by_cases here : a = c
      · exact .inr ⟨[], rest, by rw [here, List.nil_append], plain⟩
      · left
        intro inside
        rcases List.mem_cons.mp inside with same | inside
        · exact here same
        · exact plain inside
    · exact .inr ⟨c :: before, last, rfl, plain⟩

theorem suffix_append_cons_iff {suffix : List α} (plain : a ∉ suffix) :
    suffix <:+ xs ++ a :: ys ↔ suffix <:+ ys := by
  constructor
  · intro isSuffix
    rcases List.suffix_or_suffix_of_suffix isSuffix (List.suffix_append xs (a :: ys)) with
      shorter | longer
    · rcases List.suffix_cons_iff.mp shorter with same | shorter
      · exact absurd (same ▸ List.mem_cons_self) plain
      · exact shorter
    · exact absurd (longer.subset List.mem_cons_self) plain
  · intro isSuffix
    exact isSuffix.trans ((List.suffix_cons a ys).trans (List.suffix_append xs _))

variable [BEq α]

/-- What comes after the last separator. -/
def lastSegment (a : α) (xs : List α) : List α := (xs.splitOn a).getLastD []

theorem splitOn_eq_dropLast_append :
    xs.splitOn a = (xs.splitOn a).dropLast ++ [lastSegment a xs] := by
  have nonempty : xs.splitOn a ≠ [] := List.splitOn_ne_nil a xs
  unfold lastSegment
  rw [List.getLastD_eq_getLast?, List.getLast?_eq_some_getLast nonempty, Option.getD_some,
    List.dropLast_append_getLast]

theorem lastSegment_of_splitOn {init : List (List α)} {last : List α}
    (split : xs.splitOn a = init ++ [last]) : lastSegment a xs = last := by
  unfold lastSegment
  rw [split, List.getLastD_eq_getLast?, List.getLast?_concat]
  rfl

theorem subset_of_mem_splitOn {part : List α} (mem : part ∈ xs.splitOn a) : part ⊆ xs := by
  induction xs generalizing part with
  | nil =>
    obtain rfl : part = [] := by simpa using mem
    exact fun _ inside => inside
  | cons c rest ih =>
    rw [List.splitOn_cons_eq_if_modifyHead] at mem
    split at mem
    · rcases List.mem_cons.mp mem with rfl | mem
      · exact List.nil_subset _
      · exact List.Subset.trans (ih mem) (List.subset_cons_self _ _)
    · obtain ⟨first, parts, isSplit⟩ := List.exists_cons_of_ne_nil (List.splitOn_ne_nil a rest)
      rw [isSplit, List.modifyHead_cons] at mem
      rw [isSplit] at ih
      rcases List.mem_cons.mp mem with rfl | mem
      · exact List.cons_subset_cons _ (ih List.mem_cons_self)
      · exact List.Subset.trans (ih (List.mem_cons_of_mem _ mem)) (List.subset_cons_self _ _)

variable [LawfulBEq α]

/-- What is joined is a part of it, or what stands between the parts. -/
theorem mem_or_exists_of_mem {b : α} (mem : b ∈ xs) : b = a ∨ ∃ part ∈ xs.splitOn a, b ∈ part := by
  have joined (parts : List (List α)) (inside : b ∈ [a].intercalate parts) :
      b = a ∨ ∃ part ∈ parts, b ∈ part := by
    induction parts with
    | nil => simp at inside
    | cons part rest ih =>
      cases rest with
      | nil =>
        rw [List.intercalate_singleton] at inside
        exact Or.inr ⟨part, List.mem_cons_self, inside⟩
      | cons next others =>
        rw [List.intercalate_cons_cons, List.mem_append, List.mem_append, List.mem_singleton] at inside
        rcases inside with (here | between) | later
        · exact Or.inr ⟨part, List.mem_cons_self, here⟩
        · exact Or.inl between
        · rcases ih later with same | ⟨other, there, holds⟩
          · exact Or.inl same
          · exact Or.inr ⟨other, List.mem_cons_of_mem _ there, holds⟩
  apply joined
  rw [List.intercalate_splitOn]
  exact mem

theorem not_mem_of_mem_splitOn {part : List α} (mem : part ∈ xs.splitOn a) : a ∉ part := by
  induction xs generalizing part with
  | nil =>
    obtain rfl : part = [] := by simpa using mem
    exact List.not_mem_nil
  | cons c rest ih =>
    rw [List.splitOn_cons_eq_if_modifyHead] at mem
    split at mem
    · rcases List.mem_cons.mp mem with rfl | mem
      · exact List.not_mem_nil
      · exact ih mem
    · rename_i other
      obtain ⟨first, parts, isSplit⟩ := List.exists_cons_of_ne_nil (List.splitOn_ne_nil a rest)
      rw [isSplit, List.modifyHead_cons] at mem
      rw [isSplit] at ih
      rcases List.mem_cons.mp mem with rfl | mem
      · have tail := ih List.mem_cons_self
        intro inside
        rcases List.mem_cons.mp inside with rfl | inside
        · exact other (beq_self_eq_true _)
        · exact tail inside
      · exact ih (List.mem_cons_of_mem _ mem)

theorem not_mem_lastSegment : a ∉ lastSegment a xs := by
  apply not_mem_of_mem_splitOn
  rw [splitOn_eq_dropLast_append]
  exact List.mem_append_right _ (List.mem_singleton_self _)

theorem lastSegment_of_not_mem (whole : a ∉ xs) : lastSegment a xs = xs := by
  unfold lastSegment
  rw [List.splitOn_eq_singleton whole]
  rfl

theorem lastSegment_append_cons : lastSegment a (xs ++ a :: ys) = lastSegment a ys := by
  have nonempty : ys.splitOn a ≠ [] := List.splitOn_ne_nil a ys
  unfold lastSegment
  rw [List.splitOn_append_cons_self, List.getLastD_eq_getLast?, List.getLastD_eq_getLast?,
    List.getLast?_append_of_ne_nil _ nonempty]

theorem dropLast_splitOn_append_cons :
    ((xs ++ a :: ys).splitOn a).dropLast = xs.splitOn a ++ (ys.splitOn a).dropLast := by
  rw [List.splitOn_append_cons_self, List.dropLast_append_of_ne_nil (List.splitOn_ne_nil a ys)]

/-- A text without a separator goes on with the last segment. -/
theorem splitOn_append (plain : a ∉ ys) :
    (xs ++ ys).splitOn a = (xs.splitOn a).dropLast ++ [lastSegment a xs ++ ys] := by
  rcases not_mem_or_exists_last a xs with whole | ⟨before, last, rfl, whole⟩
  · have joined : a ∉ xs ++ ys := by
      intro inside
      exact (List.mem_append.mp inside).elim whole plain
    rw [List.splitOn_eq_singleton joined, lastSegment_of_not_mem whole,
      List.splitOn_eq_singleton whole]
    rfl
  · have joined : a ∉ last ++ ys := by
      intro inside
      exact (List.mem_append.mp inside).elim whole plain
    rw [List.append_assoc, List.cons_append, List.splitOn_append_cons_self,
      dropLast_splitOn_append_cons, lastSegment_append_cons, lastSegment_of_not_mem whole,
      List.splitOn_eq_singleton joined, List.splitOn_eq_singleton whole, List.dropLast_singleton,
      List.append_nil]

theorem lastSegment_append (plain : a ∉ ys) :
    lastSegment a (xs ++ ys) = lastSegment a xs ++ ys :=
  lastSegment_of_splitOn (splitOn_append plain)

end Burlmd.Segments
