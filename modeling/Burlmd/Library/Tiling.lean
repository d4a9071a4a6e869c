import Mathlib.Data.List.Basic
import Mathlib.Tactic.Common

/-!
# Pieces that tile a list

Pieces stand in a list one after another, each at its own offset, and nothing but separators
stands between them.
-/

namespace Burlmd.Tiling

universe u
variable {α : Type u} {separates : α → Prop}

/-- The pieces from an offset on, with where each starts. -/
def Tiles (separates : α → Prop) : Nat → List (Nat × List α) → List α → Prop
  | _, [], whole => ∀ a ∈ whole, separates a
  | offset, piece :: rest, whole =>
      ∃ between behind, whole = between ++ piece.2 ++ behind ∧ (∀ a ∈ between, separates a) ∧
        piece.1 = offset + between.length ∧
        Tiles separates (piece.1 + piece.2.length) rest behind

theorem Tiles.nil (offset : Nat) : Tiles separates offset [] [] := List.forall_mem_nil _

theorem Tiles.single (offset : Nat) (piece : List α) :
    Tiles separates offset [(offset, piece)] piece :=
  ⟨[], [], (List.append_nil _).symm, List.forall_mem_nil _, rfl, List.forall_mem_nil _⟩

/-- Separators may stand before the first piece. -/
theorem Tiles.after {offset : Nat} {pieces : List (Nat × List α)} {between whole : List α}
    (separators : ∀ a ∈ between, separates a)
    (tiles : Tiles separates (offset + between.length) pieces whole) :
    Tiles separates offset pieces (between ++ whole) := by
  cases pieces with
  | nil =>
    intro a inside
    rcases List.mem_append.mp inside with inside | inside
    · exact separators a inside
    · exact tiles a inside
  | cons piece rest =>
    rcases tiles with ⟨gap, behind, cut, gaps, start, onward⟩
    refine ⟨between ++ gap, behind, ?_, ?_, ?_, onward⟩
    · rw [cut]
      simp only [List.append_assoc]
    · intro a inside
      rcases List.mem_append.mp inside with inside | inside
      · exact separators a inside
      · exact gaps a inside
    · rw [start, List.length_append]
      omega

/-- Two tilings with a separator between them. -/
theorem Tiles.append {offset : Nat} {first second : List (Nat × List α)} {whole behind : List α}
    {separator : α} (ahead : Tiles separates offset first whole) (isSeparator : separates separator)
    (onward : Tiles separates (offset + whole.length + 1) second behind) :
    Tiles separates offset (first ++ second) (whole ++ separator :: behind) := by
  induction first generalizing offset whole with
  | nil =>
    have gap : whole ++ separator :: behind = (whole ++ [separator]) ++ behind := by simp
    rw [gap]
    apply Tiles.after
    · intro a inside
      rcases List.mem_append.mp inside with inside | same
      · exact ahead a inside
      · rw [List.mem_singleton.mp same]
        exact isSeparator
    · rw [List.length_append, List.length_singleton, ← Nat.add_assoc]
      exact onward
  | cons piece rest ih =>
    rcases ahead with ⟨between, tail, cut, gaps, start, inner⟩
    refine ⟨between, tail ++ separator :: behind, ?_, gaps, start, ?_⟩
    · rw [cut]
      simp only [List.append_assoc]
    · apply ih inner
      have long := congrArg List.length cut
      rw [List.length_append, List.length_append] at long
      have same : piece.1 + piece.2.length + tail.length + 1 = offset + whole.length + 1 := by omega
      rw [same]
      exact onward

theorem Tiles.offset_le {offset : Nat} {pieces : List (Nat × List α)} {whole : List α}
    (tiles : Tiles separates offset pieces whole) {piece : Nat × List α} (inside : piece ∈ pieces) :
    offset ≤ piece.1 ∧ piece.1 + piece.2.length ≤ offset + whole.length := by
  induction pieces generalizing offset whole with
  | nil => cases inside
  | cons first rest ih =>
    rcases tiles with ⟨between, behind, cut, _, start, onward⟩
    have long := congrArg List.length cut
    rw [List.length_append, List.length_append] at long
    rcases List.mem_cons.mp inside with same | inside
    · rw [same]
      omega
    · have bounds := ih onward inside
      omega

/-- Every piece is what stands at its offset. -/
theorem Tiles.exists_split {offset : Nat} {pieces : List (Nat × List α)} {whole : List α}
    (tiles : Tiles separates offset pieces whole) {piece : Nat × List α} (inside : piece ∈ pieces) :
    ∃ before after, whole = before ++ piece.2 ++ after ∧ piece.1 = offset + before.length := by
  induction pieces generalizing offset whole with
  | nil => cases inside
  | cons first rest ih =>
    rcases tiles with ⟨between, behind, cut, _, start, onward⟩
    rcases List.mem_cons.mp inside with same | inside
    · rw [same]
      exact ⟨between, behind, cut, start⟩
    · rcases ih onward inside with ⟨before, after, split, place⟩
      refine ⟨between ++ first.2 ++ before, after, ?_, ?_⟩
      · rw [cut, split]
        simp only [List.append_assoc]
      · rw [place, start, List.length_append, List.length_append]
        omega

/-- A later piece starts behind an earlier one. -/
theorem Tiles.ordered {offset : Nat} {pieces : List (Nat × List α)} {whole : List α}
    (tiles : Tiles separates offset pieces whole) :
    pieces.Pairwise fun first second => first.1 + first.2.length ≤ second.1 := by
  induction pieces generalizing offset whole with
  | nil => exact List.Pairwise.nil
  | cons first rest ih =>
    rcases tiles with ⟨_, _, _, _, _, onward⟩
    apply List.Pairwise.cons ?_ (ih onward)
    intro later inside
    exact (onward.offset_le inside).1

/-- Empty pieces can be left out. -/
theorem Tiles.filter {β : Type*} {offset : Nat} {items : List β} {piece : β → Nat × List α}
    {whole : List α} (tiles : Tiles separates offset (items.map piece) whole) {keeps : β → Bool}
    (empty : ∀ item ∈ items, keeps item = false → (piece item).2 = []) :
    Tiles separates offset ((items.filter keeps).map piece) whole := by
  induction items generalizing offset whole with
  | nil => exact tiles
  | cons item rest ih =>
    rcases tiles with ⟨between, behind, cut, gaps, start, onward⟩
    have later := ih onward fun other inside => empty other (List.mem_cons_of_mem _ inside)
    cases kept : keeps item with
    | true =>
      rw [List.filter_cons_of_pos kept]
      exact ⟨between, behind, cut, gaps, start, later⟩
    | false =>
      rw [List.filter_cons_of_neg (Bool.eq_false_iff.mp kept)]
      have none_ := empty item List.mem_cons_self kept
      rw [none_, List.append_nil] at cut
      rw [none_, List.length_nil, Nat.add_zero, start] at later
      rw [cut]
      exact later.after gaps

end Burlmd.Tiling
