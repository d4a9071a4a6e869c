import Mathlib.Data.List.Basic
import Mathlib.Data.List.Induction
import Mathlib.Data.List.Sort
import Mathlib.Order.OrderDual
import Mathlib.Tactic.Common

/-!
# Settling values in dependency order

`sortByKey` is a stable sort. A fold visits every index once and changes only the
value of the index it visits; when an index is visited after everything it depends
on, each value has settled by the end.
-/

namespace Burlmd.BottomUp

section ByKey

variable {α κ : Type*} [LinearOrder κ]

def sortByKey (key : α → κ) (items : List α) : List α :=
  items.insertionSort fun left right => key left ≤ key right

variable (key : α → κ) (items : List α)

theorem sortByKey_perm : (sortByKey key items).Perm items :=
  List.perm_insertionSort _ _

@[simp] theorem mem_sortByKey {item : α} : item ∈ sortByKey key items ↔ item ∈ items :=
  List.mem_insertionSort _

theorem sortByKey_pairwise :
    (sortByKey key items).Pairwise fun left right => key left ≤ key right := by
  have total : Std.Total fun left right : α => key left ≤ key right :=
    ⟨fun left right => le_total _ _⟩
  have trans : IsTrans α fun left right => key left ≤ key right :=
    ⟨fun _ _ _ => le_trans⟩
  exact List.pairwise_insertionSort _ _

end ByKey

section Settle

variable {σ ι α : Type*} {step : σ → ι → σ} {value : σ → ι → α}

theorem foldl_frame (frame : ∀ s i j, j ≠ i → value (step s i) j = value s j)
    (order : List ι) (start : σ) {j : ι} (absent : j ∉ order) :
    value (order.foldl step start) j = value start j := by
  induction order generalizing start with
  | nil => rfl
  | cons i rest ih =>
    simp only [List.mem_cons, not_or] at absent
    rw [List.foldl_cons, ih _ absent.2, frame _ _ _ absent.1]

theorem foldl_settles (frame : ∀ s i j, j ≠ i → value (step s i) j = value s j)
    (depends : ι → ι → Prop) {start : σ} (target : ι → α) {order : List ι}
    (settle : ∀ s, ∀ i ∈ order, value s i = value start i →
      (∀ j, depends i j → value s j = target j) → value (step s i) i = target i)
    (ordered : order.Pairwise fun i j => ¬ depends i j)
    (closed : ∀ i ∈ order, ∀ j, depends i j → j ∈ order ∧ j ≠ i) (nodup : order.Nodup) :
    ∀ i ∈ order, value (order.foldl step start) i = target i := by
  -- The visited indices have settled; the others are as they were at the start.
  have settled (before after : List ι) (split : order = before ++ after) :
      ∀ i ∈ before, value (before.foldl step start) i = target i := by
    induction before using List.reverseRecOn generalizing after with
    | nil => simp
    | append_singleton before last ih =>
      rw [List.append_assoc] at split
      have earlier := ih _ split
      rw [split] at nodup ordered
      have fresh : last ∉ before := by
        have := (List.nodup_append.mp nodup).2.2
        exact fun member => this last member last (by simp) rfl
      intro i member
      rw [List.foldl_append]
      simp only [List.foldl_cons, List.foldl_nil]
      by_cases same : i = last
      · subst same
        have mem : i ∈ order := by simp [split]
        refine settle _ i mem (foldl_frame frame before start fresh) fun j dependent => ?_
        obtain ⟨visited, other⟩ := closed i mem j dependent
        rw [split] at visited
        refine earlier j ?_
        rcases List.mem_append.mp visited with visited | later
        · exact visited
        · have notLater := (List.pairwise_append.mp ordered).2.1
          simp only [List.singleton_append, List.mem_cons] at later
          exact absurd dependent
            ((List.pairwise_cons.mp notLater).1 j (later.resolve_left other))
      · rw [frame _ _ _ same]
        exact earlier i ((List.mem_append.mp member).resolve_right (by simpa using same))
  exact settled order [] (by simp)

end Settle

end Burlmd.BottomUp
