import Mathlib.Data.List.Basic
import Mathlib.Tactic.Common
import Burlmd.Workspace.LinksRewrite

/-!
# What the link scan finds

The stack of the scan is the nesting of the stream, so the scan finds every link of
the stream, in the order in which they close, and knows where its inner events end.
-/

namespace Burlmd.Workspace

open Utf8
open Markdown

structure LinkSpot where
  dest_url : Text
  span : Range
  text_end : Nat
  deriving DecidableEq, Repr

def LinkSpot.matched? (select : Text → Option Replacement) (spot : LinkSpot) : Option MatchedLink :=
  (select spot.dest_url).map fun new_target => ⟨spot.span, spot.text_end, new_target⟩

/-- The furthest end of a construct of the forest, at least `d`. -/
def reach (d : Nat) : Forest → Nat
  | .nil => d
  | .leaf _ range rest => reach (max d range.stop) rest
  | .node _ range _ rest => reach (max d range.stop) rest

/-- The destination of a tag the scan considers. -/
def Scan.dest? (scan : Scan) (tag : Tag) : Option Text := scan.opened (.start tag)

/-- The links of a forest in the order in which they close. -/
def spots (scan : Scan) : Forest → List LinkSpot
  | .nil => []
  | .leaf _ _ rest => spots scan rest
  | .node tag range children rest =>
      spots scan children ++
        (scan.dest? tag).toList.map (⟨·, range, reach (range.start + 1) children⟩) ++
        spots scan rest

theorem reach_eq (f : Forest) {source : Text} {low high d : Nat}
    (placed : f.placed source low high = true) (le : high ≤ d) : reach d f = d := by
  induction f generalizing low with
  | nil => rfl
  | leaf l range rest ih =>
    simp only [Forest.placed, Bool.and_eq_true] at placed
    have := Forest.placed.le placed.2
    rw [reach, Nat.max_eq_left (by omega), ih placed.2]
  | node tag range children rest inner ih =>
    simp only [Forest.placed, Bool.and_eq_true] at placed
    have := Forest.placed.le placed.2
    rw [reach, Nat.max_eq_left (by omega), ih placed.2]

/-- The innermost open link, read up to the end of `f`. -/
def raise (f : Forest) : List OpenLink → List OpenLink
  | [] => []
  | top :: rest => { top with link := { top.link with text_end := reach top.link.text_end f } } :: rest

/-- The innermost open link spans from `low` to `high`. -/
def Spanned (low high : Nat) : List OpenLink → Prop
  | [] => True
  | top :: _ => top.link.span.start ≤ low ∧ high ≤ top.link.span.stop

theorem Spanned.mono {low low' high high' : Nat} {links : List OpenLink}
    (spanned : Spanned low high links) (lower : low ≤ low') (higher : high' ≤ high) :
    Spanned low' high' links := by
  cases links with
  | nil => trivial
  | cons top rest => exact ⟨Nat.le_trans spanned.1 lower, Nat.le_trans higher spanned.2⟩

theorem foldInner_eq {low high : Nat} {links : List OpenLink} {range : Range}
    (spanned : Spanned low high links) (start : low ≤ range.start) (stop : range.stop ≤ high) :
    foldInner links range = raise (.leaf .rule range .nil) links := by
  cases links with
  | nil => rfl
  | cons top rest =>
    have inside := spanned
    simp only [Spanned] at inside
    simp [foldInner, raise, reach, Nat.le_trans inside.1 start, Nat.le_trans stop inside.2]

theorem spanned_raise {low high : Nat} {links : List OpenLink} (f : Forest)
    (spanned : Spanned low high links) : Spanned low high (raise f links) := by
  cases links with
  | nil => trivial
  | cons top rest => exact spanned

namespace ScanState

variable {scan : Scan} {select : Text → Option Replacement}

theorem run_spots {source : Text} (f : Forest) {low high : Nat}
    (placed : f.placed source low high = true) (links : List OpenLink)
    (spanned : Spanned low high links) (matched : List MatchedLink) :
    f.events.foldl (step scan select) ⟨links, matched⟩ =
      ⟨raise f links, matched ++ (spots scan f).filterMap (LinkSpot.matched? select)⟩ := by
  induction f generalizing low high links matched with
  | nil => cases links <;> simp [Forest.events, raise, reach, spots]
  | leaf l range rest ih =>
    simp only [Forest.placed, Bool.and_eq_true, decide_eq_true_eq] at placed
    obtain ⟨⟨start, slice⟩, tail⟩ := placed
    have upTo := Forest.placed.le tail
    have ordered := (slice?_isSome_iff.mp slice).1
    have one : step scan select ⟨links, matched⟩ (.leaf l, range) =
        ⟨raise (.leaf .rule range .nil) links, matched⟩ := by
      rw [← foldInner_eq spanned start upTo]
      simp [step, Scan.opened, Scan.closes]
    rw [Forest.events, List.foldl_cons, one, ih tail _ ((spanned_raise _ spanned).mono
      (by omega) (le_refl _))]
    cases links <;> rfl
  | node tag range children rest inner ih =>
    simp only [Forest.placed, Bool.and_eq_true, decide_eq_true_eq] at placed
    obtain ⟨⟨⟨⟨start, ordered⟩, slice⟩, within⟩, tail⟩ := placed
    have upTo := Forest.placed.le tail
    have own := foldInner_eq spanned start upTo
    have after := (spanned_raise (.leaf .rule range .nil) spanned).mono
      (show low ≤ range.stop by omega) (le_refl high)
    rw [Forest.events, List.foldl_cons, List.foldl_append, List.foldl_cons]
    cases opened : scan.dest? tag with
    | some dest_url =>
      have entered : step scan select ⟨links, matched⟩ (.start tag, range) =
          ⟨⟨⟨range, range.start + 1, (select dest_url).getD (.note [])⟩,
            (select dest_url).isSome⟩ :: links, matched⟩ := by
        simp only [Scan.dest?] at opened
        simp [step, opened]
      have closes : scan.closes (.stop tag.toEnd) = true := by
        cases tag <;> simp_all [Scan.dest?, Scan.opened, Scan.closes, Tag.toEnd]
      have closed (top : OpenLink) (matched : List MatchedLink) :
          step scan select ⟨top :: links, matched⟩ (.stop tag.toEnd, range) =
            ⟨foldInner links top.link.span,
              if top.matches_ then matched ++ [top.link] else matched⟩ := by
        have silent : scan.opened (.stop tag.toEnd) = none := rfl
        simp only [step, silent, closes, if_true]
      rw [entered, inner within (_ :: links) (And.intro (le_refl _) (le_refl _)), raise, closed,
        own]
      rw [ih tail _ after]
      have raised : raise rest (raise (.leaf .rule range .nil) links) =
          raise (.node tag range children rest) links := by cases links <;> rfl
      rw [raised]
      cases chosen : select dest_url <;>
        simp [spots, opened, LinkSpot.matched?, chosen]
    | none =>
      have entered : step scan select ⟨links, matched⟩ (.start tag, range) =
          ⟨raise (.leaf .rule range .nil) links, matched⟩ := by
        simp only [Scan.dest?] at opened
        rw [← own]
        simp [step, opened, Scan.closes]
      have closes : scan.closes (.stop tag.toEnd) = false := by
        cases tag <;> simp_all [Scan.dest?, Scan.opened, Scan.closes, Tag.toEnd]
      have closed (links : List OpenLink) (matched : List MatchedLink) :
          step scan select ⟨links, matched⟩ (.stop tag.toEnd, range) =
            ⟨foldInner links range, matched⟩ := by
        have silent : scan.opened (.stop tag.toEnd) = none := rfl
        simp [step, silent, closes]
      -- the inner events and the closing one reach no further than the opening one
      have still : foldInner (raise children (raise (.leaf .rule range .nil) links)) range =
          raise (.leaf .rule range .nil) links := by
        rw [foldInner_eq (spanned_raise _ (spanned_raise _ spanned)) start upTo]
        cases links with
        | nil => rfl
        | cons top others =>
          have same := reach_eq children within (Nat.le_max_right top.link.text_end range.stop)
          simp [raise, reach, same]
      rw [entered, inner within _ ((spanned_raise _ spanned).mono start upTo), closed, still,
        ih tail _ after]
      have raised : raise rest (raise (.leaf .rule range .nil) links) =
          raise (.node tag range children rest) links := by cases links <;> rfl
      rw [raised]
      simp [spots, opened]

end ScanState

/-- The scan selects among exactly the links of the stream. -/
theorem matchingLinks_eq {source : Text} (stream : EventStream source) (scan : Scan)
    (select : Text → Option Replacement) :
    matchingLinks stream.events scan select =
      (spots scan stream.forest).filterMap (LinkSpot.matched? select) := by
  rw [matchingLinks, EventStream.events,
    ScanState.run_spots stream.forest stream.placed [] trivial []]
  rfl

/-! ## Nesting -/

theorem le_reach (d : Nat) (f : Forest) : d ≤ reach d f := by
  induction f generalizing d with
  | nil => exact Nat.le_refl d
  | leaf l range rest ih => exact Nat.le_trans (Nat.le_max_left _ _) (ih _)
  | node tag range children rest _ ih => exact Nat.le_trans (Nat.le_max_left _ _) (ih _)

/-- The spots of a forest lie in it, and each starts before the end of its inner events. -/
theorem spots_within {scan : Scan} {source : Text} {f : Forest} {low high : Nat}
    (placed : f.placed source low high = true) :
    ∀ spot ∈ spots scan f, low ≤ spot.span.start ∧ spot.span.stop ≤ high ∧
      spot.span.start < spot.text_end := by
  induction f generalizing low high with
  | nil =>
    intro spot mem
    cases mem
  | leaf l range rest ih =>
    simp only [Forest.placed, Bool.and_eq_true, decide_eq_true_eq] at placed
    have ordered := (slice?_isSome_iff.mp placed.1.2).1
    intro spot mem
    have within := ih placed.2 spot mem
    exact ⟨by omega, within.2⟩
  | node tag range children rest inner ih =>
    simp only [Forest.placed, Bool.and_eq_true, decide_eq_true_eq] at placed
    have upTo := Forest.placed.le placed.2
    intro spot mem
    rcases List.mem_append.mp mem with first | later
    · rcases List.mem_append.mp first with inside | own
      · have within := inner placed.1.2 spot inside
        exact ⟨by omega, by omega, within.2.2⟩
      · rcases List.mem_map.mp own with ⟨dest_url, -, same⟩
        subst same
        exact ⟨placed.1.1.1.1, upTo, le_reach _ _⟩
    · have within := ih placed.2 spot later
      have ordered := placed.1.1.1.2
      exact ⟨by omega, within.2⟩

/-- The inner events of a construct reach over every spot in it. -/
theorem spots_reach {scan : Scan} {source : Text} {f : Forest} {low high d : Nat}
    (placed : f.placed source low high = true) :
    ∀ spot ∈ spots scan f, spot.span.stop ≤ reach d f := by
  induction f generalizing low d with
  | nil =>
    intro spot mem
    cases mem
  | leaf l range rest ih =>
    simp only [Forest.placed, Bool.and_eq_true] at placed
    exact ih placed.2
  | node tag range children rest inner ih =>
    simp only [Forest.placed, Bool.and_eq_true, decide_eq_true_eq] at placed
    have whole : range.stop ≤ reach d (.node tag range children rest) :=
      Nat.le_trans (Nat.le_max_right _ _) (le_reach _ _)
    intro spot mem
    rcases List.mem_append.mp mem with first | later
    · rcases List.mem_append.mp first with inside | own
      · exact Nat.le_trans (spots_within placed.1.2 spot inside).2.1 whole
      · rcases List.mem_map.mp own with ⟨dest_url, -, same⟩
        subst same
        exact whole
    · exact ih placed.2 spot later

/-- A spot that closes later starts, or has its inner events end, behind an earlier one. -/
theorem spots_pairwise {scan : Scan} {source : Text} {f : Forest} {low high : Nat}
    (placed : f.placed source low high = true) :
    (spots scan f).Pairwise fun first second => first.span.stop ≤ second.text_end := by
  induction f generalizing low high with
  | nil => exact List.Pairwise.nil
  | leaf l range rest ih =>
    simp only [Forest.placed, Bool.and_eq_true] at placed
    exact ih placed.2
  | node tag range children rest inner ih =>
    simp only [Forest.placed, Bool.and_eq_true, decide_eq_true_eq] at placed
    have behind : ∀ spot ∈ spots scan rest, range.stop ≤ spot.text_end := by
      intro spot mem
      have within := spots_within placed.2 spot mem
      omega
    rw [spots, List.pairwise_append, List.pairwise_append]
    refine ⟨⟨inner placed.1.2, ?_, ?_⟩, ih placed.2, ?_⟩
    · cases scan.dest? tag <;> simp
    · intro spot inside own mem
      rcases List.mem_map.mp mem with ⟨dest_url, -, same⟩
      subst same
      exact spots_reach placed.1.2 spot inside
    · intro spot first other mem
      apply Nat.le_trans _ (behind other mem)
      rcases List.mem_append.mp first with inside | own
      · exact (spots_within placed.1.2 spot inside).2.1
      · rcases List.mem_map.mp own with ⟨dest_url, -, same⟩
        subst same
        exact Nat.le_refl _

end Burlmd.Workspace
