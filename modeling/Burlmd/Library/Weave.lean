import Mathlib.Data.List.Sort
import Burlmd.Library.BottomUp
import Burlmd.Library.Utf8

/-!
# Replacing several ranges of a text

A text in segments, each with a part that is kept and a part that is replaced. Ranges that
are disjoint cut a text into segments, and splices in descending order replace each of them
as if it were the only one.
-/

namespace Burlmd.Utf8

open BottomUp (sortByKey)

structure Segment where
  kept : Text
  old : Text
  new : Text
  deriving DecidableEq, Repr

def original (segments : List Segment) (last : Text) : Text :=
  segments.flatMap (fun segment => segment.kept ++ segment.old) ++ last

def replaced (segments : List Segment) (last : Text) : Text :=
  segments.flatMap (fun segment => segment.kept ++ segment.new) ++ last

/-- A range with what goes over it. -/
abbrev Edit := Range × Text

/-- The edits that replace the segments of a text that starts at `offset`. -/
def edits (offset : Nat) : List Segment → List Edit
  | [] => []
  | segment :: rest =>
      let start := offset + byteLen segment.kept
      let stop := start + byteLen segment.old
      (⟨start, stop⟩, segment.new) :: edits stop rest

@[simp] theorem original_nil (last : Text) : original [] last = last := List.nil_append _

@[simp] theorem replaced_nil (last : Text) : replaced [] last = last := List.nil_append _

theorem original_cons (segment : Segment) (rest : List Segment) (last : Text) :
    original (segment :: rest) last = segment.kept ++ segment.old ++ original rest last := by
  simp [original]

theorem replaced_cons (segment : Segment) (rest : List Segment) (last : Text) :
    replaced (segment :: rest) last = segment.kept ++ segment.new ++ replaced rest last := by
  simp [replaced]

@[simp] theorem edits_eq_nil {offset : Nat} {segments : List Segment} :
    edits offset segments = [] ↔ segments = [] := by
  cases segments <;> simp [edits]

/-- Ranges one behind the other cut a text into segments. -/
theorem exists_segments {before after : Text} {list : List Edit}
    (ascending : list.Pairwise fun first second => first.1.stop ≤ second.1.start)
    (start : ∀ edit ∈ list, byteLen before ≤ edit.1.start)
    (sliced : ∀ edit ∈ list, (slice? (before ++ after) edit.1).isSome) :
    ∃ segments last, after = original segments last ∧
      list = edits (byteLen before) segments := by
  induction list generalizing before after with
  | nil => exact ⟨[], after, by simp, rfl⟩
  | cons edit rest ih =>
    rcases Option.isSome_iff_exists.mp (sliced edit List.mem_cons_self) with ⟨old, isOld⟩
    rcases slice?_eq_some_iff.mp isOld with ⟨head, tail, whole, from_, upTo⟩
    have order := List.pairwise_cons.mp ascending
    have le : byteLen before ≤ byteLen head := by
      rw [from_]
      exact start edit List.mem_cons_self
    rw [List.append_assoc] at whole
    rcases append_prefix whole le with ⟨kept, shape, others⟩
    have again : before ++ after = (head ++ old) ++ tail := by
      rw [whole, List.append_assoc]
    have inner := @ih (head ++ old) tail order.2
      (by
        intro next mem
        rw [byteLen_append, upTo]
        exact order.1 next mem)
      (by
        intro next mem
        rw [← again]
        exact sliced next (List.mem_cons_of_mem _ mem))
    rcases inner with ⟨segments, last, isTail, isRest⟩
    refine ⟨⟨kept, old, edit.2⟩ :: segments, last, ?_, ?_⟩
    · rw [original_cons, others, isTail, List.append_assoc]
    · rw [shape, byteLen_append] at from_ upTo
      have range : edit.1 = ⟨byteLen before + byteLen kept,
          byteLen before + byteLen kept + byteLen old⟩ := by
        rw [upTo, from_]
      have here : edit = (⟨byteLen before + byteLen kept,
          byteLen before + byteLen kept + byteLen old⟩, edit.2) := by
        rw [← range]
      rw [edits, isRest, shape, byteLen_append, byteLen_append]
      dsimp only
      rw [← here]

/-- Each splice of a list in turn. -/
def spliceEach : Text → List Edit → Option Text
  | text, [] => some text
  | text, edit :: rest => (splice? text edit.1 edit.2).bind fun text => spliceEach text rest

theorem spliceEach_append (text : Text) (first second : List Edit) :
    spliceEach text (first ++ second) =
      (spliceEach text first).bind fun text => spliceEach text second := by
  induction first generalizing text with
  | nil => simp [spliceEach]
  | cons edit rest ih =>
    simp only [List.cons_append, spliceEach, Option.bind_assoc]
    congr 1
    funext text
    exact ih text

/-- Splices from the last segment to the first replace every segment. -/
theorem spliceEach_reverse (before : Text) (segments : List Segment) (last : Text) :
    spliceEach (before ++ original segments last) (edits (byteLen before) segments).reverse =
      some (before ++ replaced segments last) := by
  induction segments generalizing before with
  | nil => simp [edits, spliceEach]
  | cons segment rest ih =>
    have inner := ih (before ++ segment.kept ++ segment.old)
    rw [byteLen_append, byteLen_append] at inner
    rw [original_cons, edits, List.reverse_cons, spliceEach_append]
    have same : before ++ (segment.kept ++ segment.old ++ original rest last) =
        before ++ segment.kept ++ segment.old ++ original rest last := by
      simp
    rw [same, inner, Option.bind_some]
    simp only [spliceEach, Option.bind_fun_some]
    apply splice?_eq_some_iff.mpr
    refine ⟨before ++ segment.kept, segment.old, replaced rest last, by simp, by simp, by simp, ?_⟩
    rw [replaced_cons]
    simp

theorem orderedInsert_last {α : Type*} {r : α → α → Prop} [DecidableRel r] {a : α} {list : List α}
    (last : ∀ b ∈ list, ¬ r a b) : list.orderedInsert r a = list ++ [a] := by
  induction list with
  | nil => rfl
  | cons b rest ih =>
    have step := ih fun c mem => last c (List.mem_cons_of_mem _ mem)
    rw [List.orderedInsert_of_not_le r rest (last b List.mem_cons_self), step, List.cons_append]

/-- Sorting by descending start turns a list of ascending edits around. -/
theorem sortByKey_descending {list : List Edit}
    (ascending : list.Pairwise fun first second => first.1.start < second.1.start) :
    sortByKey (fun edit : Edit => OrderDual.toDual edit.1.start) list = list.reverse := by
  induction list with
  | nil => rfl
  | cons edit rest ih =>
    have order := List.pairwise_cons.mp ascending
    have step := ih order.2
    unfold sortByKey at step ⊢
    rw [List.insertionSort_cons, step, List.reverse_cons]
    apply orderedInsert_last
    intro other mem le
    have later := order.1 other (List.mem_reverse.mp mem)
    have early : other.1.start ≤ edit.1.start := OrderDual.toDual_le_toDual.mp le
    omega

end Burlmd.Utf8
