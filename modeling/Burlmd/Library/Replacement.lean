import Mathlib.Data.List.Basic
import Mathlib.Tactic.Common

/-!
# Contiguous replacements

The one replacement that turns a list into another, read off what the two share at their
ends, and what two replacements of one list make together.
-/

namespace Burlmd.Replacement

universe u
variable {α : Type u}

def replaceRange (items : List α) (start stop : Nat) (replacement : List α) : List α :=
  items.take start ++ replacement ++ items.drop stop

/-- The items from `start` up to `stop` give way to the replacement. -/
structure Change (α : Type u) where
  start : Nat
  stop : Nat
  replacement : List α
  deriving DecidableEq

namespace Change

def apply (change : Change α) (base : List α) : List α :=
  replaceRange base change.start change.stop change.replacement

def isInsertion (change : Change α) : Prop := change.start = change.stop

instance (change : Change α) : Decidable change.isInsertion :=
  inferInstanceAs (Decidable (_ = _))

def isInsertionAtSameOffsetAs (change other : Change α) : Prop :=
  change.isInsertion ∧ other.isInsertion ∧ change.start = other.start

instance (change other : Change α) : Decidable (change.isInsertionAtSameOffsetAs other) :=
  inferInstanceAs (Decidable (_ ∧ _))

theorem isInsertionAtSameOffsetAs_comm (change other : Change α) :
    change.isInsertionAtSameOffsetAs other ↔ other.isInsertionAtSameOffsetAs change := by
  constructor <;> exact fun same => ⟨same.2.1, same.1, same.2.2.symm⟩

/-- The change is of a range of `base`. -/
structure Within (change : Change α) (base : List α) : Prop where
  ordered : change.start ≤ change.stop
  bounded : change.stop ≤ base.length

end Change

/-- Both changes of `base`, the first of which ends before the second starts. -/
def both (base : List α) (first second : Change α) : List α :=
  base.take first.start ++ first.replacement ++ (base.take second.start).drop first.stop ++
    second.replacement ++ base.drop second.stop

section Both

variable {base : List α} {first second : Change α}

theorem replaceRange_append (ahead old behind replacement : List α) :
    replaceRange (ahead ++ old ++ behind) ahead.length (ahead ++ old).length replacement =
      ahead ++ replacement ++ behind := by
  unfold replaceRange
  rw [List.drop_left, List.append_assoc ahead old behind, List.take_left]

/-- The five parts of `base` at two disjoint ranges. -/
structure Parts (base : List α) (first second : Change α)
    (ahead old between old' behind : List α) : Prop where
  whole : base = ahead ++ old ++ between ++ old' ++ behind
  start : first.start = ahead.length
  stop : first.stop = (ahead ++ old).length
  start' : second.start = (ahead ++ old ++ between).length
  stop' : second.stop = (ahead ++ old ++ between ++ old').length

theorem exists_parts (ordered : first.start ≤ first.stop) (disjoint : first.stop ≤ second.start)
    (inside : second.Within base) :
    ∃ ahead old between old' behind, Parts base first second ahead old between old' behind := by
  have bounded := inside.bounded
  have ordered' := inside.ordered
  refine ⟨base.take first.start, (base.take first.stop).drop first.start,
    (base.take second.start).drop first.stop, (base.take second.stop).drop second.start,
    base.drop second.stop, ?_, ?_, ?_, ?_, ?_⟩
  · have rejoin (low high : Nat) (le : low ≤ high) :
        base.take low ++ (base.take high).drop low = base.take high := by
      conv_rhs => rw [← List.take_append_drop low (base.take high), List.take_take,
        Nat.min_eq_left le]
    rw [rejoin _ _ ordered, rejoin _ _ disjoint, rejoin _ _ ordered', List.take_append_drop]
  all_goals
    simp only [List.length_append, List.length_take, List.length_drop]
    omega

namespace Parts

variable {ahead old between old' behind : List α}
  (parts : Parts base first second ahead old between old' behind)

include parts

theorem apply_first :
    first.apply base = ahead ++ first.replacement ++ between ++ old' ++ behind := by
  have cut := replaceRange_append ahead old (between ++ old' ++ behind) first.replacement
  simp only [← List.append_assoc] at cut
  unfold Change.apply
  rw [parts.start, parts.stop, parts.whole, cut]

theorem apply_second :
    second.apply base = ahead ++ old ++ between ++ second.replacement ++ behind := by
  unfold Change.apply
  rw [parts.start', parts.stop', parts.whole, replaceRange_append]

theorem both_eq :
    both base first second =
      ahead ++ first.replacement ++ between ++ second.replacement ++ behind := by
  have front : base.take first.start = ahead := by
    rw [parts.start, parts.whole]
    simp only [List.append_assoc, List.take_left]
  have middle : (base.take second.start).drop first.stop = between := by
    rw [parts.start', parts.stop, parts.whole, List.append_assoc (ahead ++ old ++ between),
      List.take_left, List.drop_left]
  have back : base.drop second.stop = behind := by
    rw [parts.stop', parts.whole, List.drop_left]
  unfold both
  rw [front, middle, back]

/-- The first change is made in the text that the second has changed already. -/
theorem replaceRange_first :
    replaceRange (second.apply base) first.start first.stop first.replacement =
      both base first second := by
  have cut := replaceRange_append ahead old (between ++ second.replacement ++ behind)
    first.replacement
  simp only [← List.append_assoc] at cut
  rw [parts.apply_second, parts.both_eq, parts.start, parts.stop, cut]

/-- The second change is made further on or back by what the first has added or removed. -/
theorem replaceRange_second :
    replaceRange (first.apply base)
        (second.start + first.replacement.length - (first.stop - first.start))
        (second.stop + first.replacement.length - (first.stop - first.start))
        second.replacement = both base first second := by
  have start : second.start + first.replacement.length - (first.stop - first.start) =
      (ahead ++ first.replacement ++ between).length := by
    rw [parts.start', parts.stop, parts.start]
    simp only [List.length_append]
    omega
  have stop : second.stop + first.replacement.length - (first.stop - first.start) =
      (ahead ++ first.replacement ++ between ++ old').length := by
    rw [parts.stop', parts.stop, parts.start]
    simp only [List.length_append]
    omega
  rw [start, stop, parts.apply_first, parts.both_eq, replaceRange_append]

end Parts

end Both

/-! ## The change between two lists -/

section Between

variable [DecidableEq α]

def sharedPrefix : List α → List α → Nat
  | x :: xs, y :: ys => if x = y then sharedPrefix xs ys + 1 else 0
  | _, _ => 0

/-- What is left between the prefix and the suffix that both share. -/
def Change.between (before after : List α) : Change α :=
  let start := sharedPrefix before after
  let shared := sharedPrefix (before.drop start).reverse (after.drop start).reverse
  ⟨start, before.length - shared, (after.take (after.length - shared)).drop start⟩

theorem exists_sharedPrefix (before after : List α) :
    ∃ ahead rest rest', before = ahead ++ rest ∧ after = ahead ++ rest' ∧
      sharedPrefix before after = ahead.length := by
  induction before generalizing after with
  | nil => exact ⟨[], [], after, rfl, rfl, by simp [sharedPrefix]⟩
  | cons x xs ih =>
    cases after with
    | nil => exact ⟨[], x :: xs, [], rfl, rfl, rfl⟩
    | cons y ys =>
      by_cases same : x = y
      · rcases ih ys with ⟨ahead, rest, rest', left, right, length⟩
        refine ⟨x :: ahead, rest, rest', ?_, ?_, ?_⟩
        · rw [left, List.cons_append]
        · rw [right, same, List.cons_append]
        · rw [sharedPrefix, if_pos same, length, List.length_cons]
      · exact ⟨[], x :: xs, y :: ys, rfl, rfl, by simp [sharedPrefix, same]⟩

theorem sharedPrefix_self (items : List α) : sharedPrefix items items = items.length := by
  induction items with
  | nil => rfl
  | cons x xs ih => rw [sharedPrefix, if_pos rfl, ih, List.length_cons]

/-- Both lists at the change between them. -/
theorem Change.exists_between (before after : List α) :
    ∃ ahead old replacement behind, before = ahead ++ old ++ behind ∧
      after = ahead ++ replacement ++ behind ∧
      between before after = ⟨ahead.length, (ahead ++ old).length, replacement⟩ := by
  rcases exists_sharedPrefix before after with ⟨ahead, rest, rest', left, right, start⟩
  rcases exists_sharedPrefix rest.reverse rest'.reverse with
    ⟨tail, old, replacement, left', right', shared⟩
  have old_rest : rest = old.reverse ++ tail.reverse := by
    rw [← List.reverse_append, ← left', List.reverse_reverse]
  have new_rest : rest' = replacement.reverse ++ tail.reverse := by
    rw [← List.reverse_append, ← right', List.reverse_reverse]
  refine ⟨ahead, old.reverse, replacement.reverse, tail.reverse, ?_, ?_, ?_⟩
  · rw [left, old_rest, List.append_assoc]
  · rw [right, new_rest, List.append_assoc]
  · have dropped : before.drop ahead.length = rest := by rw [left, List.drop_left]
    have dropped' : after.drop ahead.length = rest' := by rw [right, List.drop_left]
    have stop : before.length - tail.length = (ahead ++ old.reverse).length := by
      rw [left, old_rest]
      simp only [List.length_append, List.length_reverse]
      omega
    have kept : after.take (after.length - tail.length) = ahead ++ replacement.reverse := by
      have whole : after = (ahead ++ replacement.reverse) ++ tail.reverse := by
        rw [right, new_rest, List.append_assoc]
      have length : after.length - tail.length = (ahead ++ replacement.reverse).length := by
        rw [whole]
        simp only [List.length_append, List.length_reverse]
        omega
      rw [length, whole, List.take_left]
    unfold between
    dsimp only
    rw [start, dropped, dropped', shared, stop, kept, List.drop_left]

theorem Change.apply_between (before after : List α) :
    (between before after).apply before = after := by
  rcases exists_between before after with ⟨ahead, old, replacement, behind, left, right, change⟩
  rw [change, left, right]
  exact replaceRange_append ahead old behind replacement

theorem Change.between_within (before after : List α) : (between before after).Within before := by
  rcases exists_between before after with ⟨ahead, old, replacement, behind, left, _, change⟩
  rw [change]
  constructor
  · simp
  · rw [left]
    simp

theorem Change.between_self (items : List α) :
    between items items = ⟨items.length, items.length, []⟩ := by
  unfold between
  dsimp only
  rw [sharedPrefix_self, List.drop_length, List.reverse_nil]
  simp [sharedPrefix]

end Between

end Burlmd.Replacement
