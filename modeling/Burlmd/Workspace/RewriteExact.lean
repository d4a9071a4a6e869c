import Burlmd.Library.Weave
import Burlmd.Workspace.DestinationSpan

/-!
# A rewrite replaces destinations

Where the scan finds every destination that is selected, a rewrite replaces these and
nothing else: the destinations lie one behind the other, in the order in which their links
close, so that no splice moves another.
-/

namespace Burlmd.Workspace

open Utf8
open CommonMark
open Markdown

/-- The inline link that the event stream reports at a spot. -/
structure LinkAt (source : Text) (spot : LinkSpot) (link : InlineLink) : Prop where
  source_eq : link.source = source
  span_eq : link.span = spot.span
  textEnd_eq : link.textEnd = spot.text_end

/-- What a spot is rewritten to: the destination of its link. -/
def Rewrites (source : Text) (select : Text → Option Replacement) (spot : LinkSpot)
    (edit : Edit) : Prop :=
  ∃ link target, LinkAt source spot link ∧ select spot.dest_url = some target ∧
    edit = (link.destinationRange, target.destinationText)

/-- A selected destination is where the scan looks for it. -/
def Found (source : Text) (spot : LinkSpot) : Prop :=
  ∃ link, LinkAt source spot link ∧ Located link

def chosen (scan : Scan) (select : Text → Option Replacement) (forest : Forest) : List LinkSpot :=
  (spots scan forest).filter fun spot => (select spot.dest_url).isSome

theorem textEnd_le (link : InlineLink) : link.textEnd ≤ link.destinationRange.start := by
  rcases link.place.exists_textEnd link.text with ⟨before, passed, whole, upTo, -, -⟩
  have len := congrArg byteLen whole
  rw [byteLen_append before passed] at len
  rw [destinationRange_start, upToGap, byteLen_append _ "](".toList, InlineLink.textEnd, ← upTo]
  omega

theorem slice?_destination (link : InlineLink) :
    slice? link.source link.destinationRange = some link.destination.text := by
  apply slice?_eq_some_iff.mpr
  refine ⟨link.upToDestination, link.ending.text ++ link.trail, ?_, rfl, ?_⟩
  · simp [InlineLink.source, InlineLink.upToEnd]
  · simp [InlineLink.destinationRange]

theorem spliceAll_eq_ok {text out : Text} {list : List Edit}
    (spliced : spliceEach text list = some out) : spliceAll text list = .ok out := by
  induction list generalizing text with
  | nil =>
    cases spliced
    rfl
  | cons edit rest ih =>
    rcases Option.bind_eq_some_iff.mp spliced with ⟨next, here, others⟩
    rw [spliceAll, here]
    exact ih others

theorem exists_of_forall₂ {α β : Type*} {R : α → β → Prop} {first : List α} {second : List β}
    (related : List.Forall₂ R first second) {a : α} (mem : a ∈ first) : ∃ b ∈ second, R a b := by
  induction related with
  | nil => cases mem
  | cons here rest ih =>
    rcases List.mem_cons.mp mem with same | later
    · subst same
      exact ⟨_, List.mem_cons_self, here⟩
    · rcases ih later with ⟨b, there, holds⟩
      exact ⟨b, List.mem_cons_of_mem _ there, holds⟩

section

variable {source : Text} {select : Text → Option Replacement}

/-- The destinations of the selected spots, where all of them are found. -/
theorem exists_destinations {list : List LinkSpot}
    (found : ∀ spot ∈ list, (select spot.dest_url).isSome → Found source spot) :
    ∃ edits, destinations source (list.filterMap (LinkSpot.matched? select)) = .ok edits ∧
      List.Forall₂ (Rewrites source select)
        (list.filter fun spot => (select spot.dest_url).isSome) edits := by
  induction list with
  | nil => exact ⟨[], rfl, List.Forall₂.nil⟩
  | cons spot rest ih =>
    rcases ih (fun other mem => found other (List.mem_cons_of_mem _ mem)) with
      ⟨edits, isRest, related⟩
    cases target : select spot.dest_url with
    | none =>
      refine ⟨edits, ?_, ?_⟩
      · simpa [LinkSpot.matched?, target] using isRest
      · simpa [target] using related
    | some new_target =>
      rcases found spot List.mem_cons_self (by simp [target]) with ⟨link, at_, located⟩
      have span := (destinationSpan_inline link).mpr located
      rw [at_.source_eq, at_.span_eq, at_.textEnd_eq] at span
      refine ⟨(link.destinationRange, new_target.destinationText) :: edits, ?_, ?_⟩
      · simp only [List.filterMap_cons, LinkSpot.matched?, target, Option.map_some]
        rw [destinations]
        dsimp only
        rw [span]
        rw [show destinations source (rest.filterMap fun spot => spot.matched? select) = .ok edits
          from isRest]
        rfl
      · rw [List.filter_cons_of_pos (by simp [target])]
        exact List.Forall₂.cons ⟨link, new_target, at_, target, rfl⟩ related

/-- An edit lies behind the inner events of its link, and inside it. -/
theorem Rewrites.bounds {spot : LinkSpot} {edit : Edit} (rewrites : Rewrites source select spot edit) :
    spot.text_end ≤ edit.1.start ∧ edit.1.stop < spot.span.stop ∧
      (slice? source edit.1).isSome := by
  rcases rewrites with ⟨link, target, at_, -, same⟩
  subst same
  rw [← at_.textEnd_eq, ← at_.span_eq, ← at_.source_eq]
  exact ⟨textEnd_le link, destinationRange_lt link, by rw [slice?_destination]; exact rfl⟩

/-- Edits of spots that close one after the other lie one behind the other. -/
theorem edits_ascending {list : List LinkSpot} {edits : List Edit}
    (related : List.Forall₂ (Rewrites source select) list edits)
    (nested : list.Pairwise fun first second => first.span.stop ≤ second.text_end) :
    edits.Pairwise fun first second => first.1.stop < second.1.start := by
  induction related with
  | nil => exact List.Pairwise.nil
  | @cons spot edit spots edits here rest ih =>
    have order := List.pairwise_cons.mp nested
    refine List.pairwise_cons.mpr ⟨?_, ih order.2⟩
    intro other mem
    rcases exists_of_forall₂ (List.Forall₂.flip rest) mem with ⟨next, there, rewrites⟩
    have later := order.1 next there
    have first := here.bounds
    have second := Rewrites.bounds rewrites
    omega

/-- A rewrite that finds every selected destination replaces exactly these. -/
theorem exists_rewrite (stream : EventStream source) (scan : Scan)
    (found : ∀ spot ∈ spots scan stream.forest, (select spot.dest_url).isSome →
      Found source spot) :
    ∃ segments last, source = original segments last ∧
      destinations source (matchingLinks stream.events scan select) = .ok (edits 0 segments) ∧
      List.Forall₂ (Rewrites source select) (chosen scan select stream.forest)
        (edits 0 segments) ∧
      rewriteDestinations source stream.events scan select =
        .ok (if segments = [] then none else some (replaced segments last)) := by
  rcases exists_destinations found with ⟨list, isList, related⟩
  have nested := (@spots_pairwise scan source stream.forest 0 _ stream.placed).filter
    fun spot => (select spot.dest_url).isSome
  have apart := edits_ascending related nested
  have sliced : ∀ edit ∈ list, (slice? ([] ++ source) edit.1).isSome := by
    intro edit mem
    rcases exists_of_forall₂ (List.Forall₂.flip related) mem with ⟨spot, -, rewrites⟩
    exact (Rewrites.bounds rewrites).2.2
  have ordered : ∀ edit ∈ list, edit.1.start ≤ edit.1.stop := by
    intro edit mem
    exact (slice?_isSome_iff.mp (sliced edit mem)).1
  rcases @exists_segments [] source list (apart.imp fun less => Nat.le_of_lt less)
    (fun edit _ => Nat.zero_le _) sliced with ⟨segments, last, isSource, isEdits⟩
  refine ⟨segments, last, isSource, ?_, ?_, ?_⟩
  · rw [matchingLinks_eq stream, isList, isEdits, byteLen_nil]
  · rw [chosen, ← byteLen_nil, ← isEdits]
    exact related
  · have ascending : list.Pairwise fun first second => first.1.start < second.1.start := by
      apply apart.imp_of_mem
      intro first second mem _ less
      exact Nat.lt_of_le_of_lt (ordered first mem) less
    unfold rewriteDestinations
    rw [matchingLinks_eq stream, isList]
    simp only [bind, Except.bind]
    by_cases none : segments = []
    · have empty : list = [] := by rw [isEdits, none, edits]
      simp [none, empty, pure, Except.pure]
    · have some_ : list.isEmpty = false := by
        rw [isEdits]
        cases segments with
        | nil => exact absurd rfl none
        | cons segment rest => rfl
      have spliced := spliceEach_reverse [] segments last
      rw [List.nil_append, List.nil_append, ← isEdits, ← isSource] at spliced
      have ok := spliceAll_eq_ok spliced
      rw [← sortByKey_descending ascending] at ok
      simp [none, some_, ok, pure, Except.pure]

end

/-- The scan finds a destination exactly where CommonMark delimits it, if and only if it is
located, and none for a link that is not inline. A rewrite of located destinations replaces
these, each independently of the others, and nothing else. -/
theorem destination_location_exact (link : InlineLink) :
    (destinationSpan link.source link.span link.textEnd = some link.destinationRange ↔
      Located link) ∧
    (∀ reference : ReferenceLink,
      destinationSpan reference.source reference.span reference.textEnd = none) ∧
    (∀ autolink : Autolink,
      destinationSpan autolink.source autolink.span autolink.textEnd = none) ∧
    ∀ (source : Text) (stream : EventStream source) (scan : Scan)
      (select : Text → Option Replacement),
      (∀ spot ∈ spots scan stream.forest, (select spot.dest_url).isSome →
        Found source spot) →
      ∃ segments last, source = original segments last ∧
        List.Forall₂ (Rewrites source select) (chosen scan select stream.forest)
          (edits 0 segments) ∧
        rewriteDestinations source stream.events scan select =
          .ok (if segments = [] then none else some (replaced segments last)) :=
  ⟨destinationSpan_inline link, destinationSpan_reference, destinationSpan_autolink, by
    intro source stream scan select found
    rcases exists_rewrite stream scan found with ⟨segments, last, isSource, -, related, rewritten⟩
    exact ⟨segments, last, isSource, related, rewritten⟩⟩

/-- A link with the text `a` at the start of a Note. -/
def linkTo (gap : Gap) (destination : Destination) (ending : Ending)
    (delimited : destination.BackslashAtEnd → ending.text ≠ [')']) : InlineLink where
  place := ⟨[], false⟩
  text := ⟨['a'], [], by simp, by decide⟩
  gap
  destination
  ending
  delimited
  trail := []

/-- `[a](x)`, which a rewrite makes `[a](</x>)`. -/
def plainLink : InlineLink :=
  linkTo .empty (.bare ['x'] (by decide) (by decide)) (.plain .empty) fun at_ => absurd at_ (by decide)

def plainStream : EventStream plainLink.source where
  forest := .node .paragraph ⟨0, 6⟩
    (.node (.link ['x']) ⟨0, 6⟩ (.leaf (.text ['a']) ⟨1, 2⟩ .nil) .nil) .nil
  conforms := by decide +kernel
  placed := by decide +kernel

theorem plainLink_rewritten : ∃ segments last, plainLink.source = original segments last ∧
    List.Forall₂ (Rewrites plainLink.source (absolute [])) (chosen .linksAndImages (absolute [])
      plainStream.forest) (edits 0 segments) ∧
    rewriteDestinations plainLink.source plainStream.events .linksAndImages (absolute []) =
      .ok (if segments = [] then none else some (replaced segments last)) := by
  apply (destination_location_exact plainLink).2.2.2
  intro spot mem _
  have only : spot = ⟨['x'], ⟨0, 6⟩, 2⟩ := by simpa [plainStream, spots, Scan.dest?, Scan.opened, reach] using mem
  subst only
  refine ⟨plainLink, ⟨rfl, by decide, by decide⟩, by decide, by decide, ?_⟩
  intro backslash
  exact absurd backslash (by decide)

/-- `[a](x\ "t")`: the scan takes the title for a part of the destination. -/
def backslashLink : InlineLink :=
  linkTo .empty (.bare ['x', '\\'] (by decide) (by decide))
    (.titled ⟨[' '], none, by simp [isBlank], Gap.empty.markers⟩ (by decide) ⟨.double, ['t'], by decide⟩ .empty)
    fun _ => by decide

/-- `> [a](` and `> x)` on the next line: the scan takes the marker for the destination. -/
def quotedLink : InlineLink :=
  { linkTo ⟨[], some (.lf, ['>', ' ']), by simp, by simp [isBlank]⟩ (.bare ['x'] (by decide) (by decide))
      (.plain .empty) fun at_ => absurd at_ (by decide) with
    place := ⟨['>', ' '], false⟩ }

theorem destination_mistaken :
    destinationSpan backslashLink.source backslashLink.span backslashLink.textEnd =
        some ⟨4, 10⟩ ∧
      backslashLink.destinationRange = ⟨4, 6⟩ ∧
    destinationSpan quotedLink.source quotedLink.span quotedLink.textEnd = some ⟨7, 8⟩ ∧
      quotedLink.destinationRange = ⟨9, 10⟩ := by
  decide +kernel

end Burlmd.Workspace
