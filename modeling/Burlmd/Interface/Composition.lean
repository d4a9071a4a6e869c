import Burlmd.Library.Replacement
import Burlmd.Library.Surrogates

/-!
# Rebasing a composition

A text field holds the composition of an input method while Core rewrites the Note under it.
When the composition ends, the field's own change and Core's are merged over the text they
both started from, or the two are in conflict. Texts are lists of UTF-16 code units.
-/

namespace Burlmd.Interface

open Replacement
open Surrogates

def rebaseComposition (base local_ external : Units) : Option Units :=
  if local_ = external ∨ local_ = base then some external
  else if external = base then some local_
  else
    let localChange := Change.between base local_
    let externalChange := Change.between base external
    if localChange = externalChange then some external
    else if localChange.stop ≤ externalChange.start ∧
        ¬ localChange.isInsertionAtSameOffsetAs externalChange then
      some (replaceRange external localChange.start localChange.stop localChange.replacement)
    else if externalChange.stop ≤ localChange.start ∧
        ¬ localChange.isInsertionAtSameOffsetAs externalChange then
      -- the offsets are never negative, as the removed range lies before the local change
      let removed := externalChange.stop - externalChange.start
      some (replaceRange external
        (localChange.start + externalChange.replacement.length - removed)
        (localChange.stop + externalChange.replacement.length - removed)
        localChange.replacement)
    else none

/-- The changes from `base` to two texts are disjoint, the first before the second. -/
def Precedes (base first second : Units) : Prop :=
  (Change.between base first).stop ≤ (Change.between base second).start ∧
    ¬ (Change.between base first).isInsertionAtSameOffsetAs (Change.between base second)

instance (base first second : Units) : Decidable (Precedes base first second) :=
  inferInstanceAs (Decidable (_ ∧ _))

def mergedChanges (base first second : Units) : Units :=
  both base (Change.between base first) (Change.between base second)

theorem Precedes.asymm {base first second : Units} (precedes : Precedes base first second) :
    ¬ Precedes base second first := by
  intro follows
  apply precedes.2
  have ordered := (Change.between_within base first).ordered
  have ordered' := (Change.between_within base second).ordered
  have disjoint := precedes.1
  have disjoint' := follows.1
  refine ⟨?_, ?_, ?_⟩
  · show _ = _
    omega
  · show _ = _
    omega
  · omega

variable {base local_ external : Units}

theorem between_injective {first second : Units}
    (same : Change.between base first = Change.between base second) : first = second := by
  rw [← Change.apply_between base first, same, Change.apply_between]

theorem rebaseComposition_of_precedes (differ : local_ ≠ external) (changed : local_ ≠ base)
    (changed' : external ≠ base) (precedes : Precedes base local_ external) :
    rebaseComposition base local_ external = some (mergedChanges base local_ external) := by
  have ordered := (Change.between_within base local_).ordered
  rcases exists_parts ordered precedes.1 (Change.between_within base external) with
    ⟨ahead, old, between, old', behind, parts⟩
  have merged := parts.replaceRange_first
  rw [Change.apply_between] at merged
  unfold rebaseComposition
  rw [if_neg (not_or.mpr ⟨differ, changed⟩), if_neg changed']
  dsimp only
  unfold Precedes at precedes
  rw [if_neg (fun same => differ (between_injective same)), if_pos precedes]
  exact congrArg some merged

theorem rebaseComposition_of_follows (differ : local_ ≠ external) (changed : local_ ≠ base)
    (changed' : external ≠ base) (follows : Precedes base external local_) :
    rebaseComposition base local_ external = some (mergedChanges base external local_) := by
  have ordered := (Change.between_within base external).ordered
  rcases exists_parts ordered follows.1 (Change.between_within base local_) with
    ⟨ahead, old, between, old', behind, parts⟩
  have merged := parts.replaceRange_second
  rw [Change.apply_between] at merged
  have apart : ¬ (Change.between base local_).isInsertionAtSameOffsetAs
      (Change.between base external) := by
    rw [Change.isInsertionAtSameOffsetAs_comm]
    exact follows.2
  unfold rebaseComposition
  rw [if_neg (not_or.mpr ⟨differ, changed⟩), if_neg changed']
  dsimp only
  have other := follows.asymm
  unfold Precedes at other
  rw [if_neg (fun same => differ (between_injective same)), if_neg other,
    if_pos ⟨follows.1, apart⟩]
  exact congrArg some merged

theorem rebaseComposition_of_neither (differ : local_ ≠ external) (changed : local_ ≠ base)
    (changed' : external ≠ base) (neither : ¬ Precedes base local_ external)
    (neither' : ¬ Precedes base external local_) :
    rebaseComposition base local_ external = none := by
  unfold rebaseComposition
  rw [if_neg (not_or.mpr ⟨differ, changed⟩), if_neg changed']
  dsimp only
  unfold Precedes at neither
  rw [if_neg (fun same => differ (between_injective same)), if_neg neither, if_neg]
  intro follows
  apply neither'
  refine ⟨follows.1, ?_⟩
  rw [Change.isInsertionAtSameOffsetAs_comm]
  exact follows.2

theorem rebaseComposition_symmetric (base local_ external : Units) :
    rebaseComposition base local_ external = rebaseComposition base external local_ := by
  by_cases differ : local_ = external
  · rw [differ]
  by_cases changed : local_ = base
  · unfold rebaseComposition
    rw [if_pos (Or.inr changed)]
    by_cases changed' : external = base
    · rw [if_pos (Or.inr changed'), changed, changed']
    · rw [if_neg (not_or.mpr ⟨Ne.symm differ, changed'⟩), if_pos changed]
  by_cases changed' : external = base
  · unfold rebaseComposition
    rw [if_neg (not_or.mpr ⟨differ, changed⟩), if_pos changed', if_pos (Or.inr changed')]
  by_cases precedes : Precedes base local_ external
  · rw [rebaseComposition_of_precedes differ changed changed' precedes,
      rebaseComposition_of_follows (Ne.symm differ) changed' changed precedes]
  by_cases follows : Precedes base external local_
  · rw [rebaseComposition_of_follows differ changed changed' follows,
      rebaseComposition_of_precedes (Ne.symm differ) changed' changed follows]
  · rw [rebaseComposition_of_neither differ changed changed' precedes follows,
      rebaseComposition_of_neither (Ne.symm differ) changed' changed follows precedes]

/-! ## What a merge is to be -/

/-- The replaced ranges share an item, or one is an insertion inside the other. -/
def Overlap (first second : Change UInt16) : Prop :=
  second.start < first.stop ∧ first.start < second.stop

theorem not_precedes_iff :
    (¬ Precedes base local_ external ∧ ¬ Precedes base external local_) ↔
      Overlap (Change.between base local_) (Change.between base external) ∨
        (Change.between base local_).isInsertionAtSameOffsetAs (Change.between base external) := by
  have comm := Change.isInsertionAtSameOffsetAs_comm (Change.between base local_)
    (Change.between base external)
  unfold Precedes Overlap
  rw [← comm]
  by_cases same : (Change.between base local_).isInsertionAtSameOffsetAs
      (Change.between base external)
  · simp [same]
  · simp only [same, not_false_eq_true, and_true, or_false, Nat.not_le]

/-- Every code point of the merge stands as in `first`, with all that is before it, or as in
`second`, with all that is behind it. -/
def FromOne (first second merged : Units) : Prop :=
  ∀ before point after, merged = before ++ point ++ after → CodePoint point →
    (before ++ point) <+: first ∨ (point ++ after) <:+ second

/-- The merge is `base` with the change to `first` and, behind it, that to `second`. -/
structure Merges (base first second merged : Units) : Prop where
  applied : ∃ ahead old between old' behind,
    Parts base (Change.between base first) (Change.between base second) ahead old between old'
      behind ∧
    first = ahead ++ (Change.between base first).replacement ++ between ++ old' ++ behind ∧
    second = ahead ++ old ++ between ++ (Change.between base second).replacement ++ behind ∧
    merged = ahead ++ (Change.between base first).replacement ++ between ++
      (Change.between base second).replacement ++ behind
  wellFormed : WellFormed merged
  whole : FromOne first second merged

/-- A merge is `base` with both changes made in it, and no code point is put together from
halves of two. -/
structure SoundRebase (base local_ external : Units) : Prop where
  symmetric : rebaseComposition base local_ external = rebaseComposition base external local_
  merges : local_ ≠ external → local_ ≠ base → external ≠ base →
    ∀ merged, rebaseComposition base local_ external = some merged →
      Merges base local_ external merged ∨ Merges base external local_ merged
  refuses : local_ ≠ external → local_ ≠ base → external ≠ base →
    (rebaseComposition base local_ external = none ↔
      Overlap (Change.between base local_) (Change.between base external) ∨
        (Change.between base local_).isInsertionAtSameOffsetAs (Change.between base external))
  takes : local_ = external ∨ local_ = base ∨ external = base →
    rebaseComposition base local_ external = some external ∨
      rebaseComposition base local_ external = some local_

/-- The first range ends inside a surrogate pair of `base` where the second starts, and neither
half of that pair is there any more. -/
def SplitsPair (base first second : Units) : Prop :=
  let change := Change.between base first
  let change' := Change.between base second
  Precedes base first second ∧ change.stop = change'.start ∧
    ∃ high low,
      (base.take change.start ++ change.replacement).getLast? = some high ∧
        (change'.replacement ++ base.drop change'.stop).head? = some low ∧
        isHigh high = true ∧ isLow low = true ∧
        (base.take change.stop).getLast? ≠ some high ∧ (base.drop change'.start).head? ≠ some low

/-- Two texts that share a middle, one's beginning with the other's end. -/
theorem fromOne_iff {front head between tail rear : Units} :
    FromOne (front ++ between ++ tail) (head ++ between ++ rear) (front ++ between ++ rear) ↔
      ¬ (between = [] ∧ ∃ high low, front.getLast? = some high ∧ rear.head? = some low ∧
        isHigh high = true ∧ isLow low = true ∧
        head.getLast? ≠ some high ∧ tail.head? ≠ some low) := by
  constructor
  · intro whole split
    rcases split with ⟨empty, high, low, last, first, isHigh, isLow, other, other'⟩
    subst empty
    rcases List.getLast?_eq_some_iff.mp last with ⟨before, isFront⟩
    rcases List.head?_eq_some_iff.mp first with ⟨after, isRear⟩
    have cut : front ++ [] ++ rear = before ++ [high, low] ++ after := by
      simp [isFront, isRear]
    have isPoint : CodePoint [high, low] := Or.inr ⟨high, low, rfl, isHigh, isLow⟩
    rcases whole before [high, low] after cut isPoint with ⟨rest, whole⟩ | ⟨rest, whole⟩
    · apply other'
      simp only [isFront, List.append_nil, List.append_assoc] at whole
      have tail_eq : low :: rest = tail := by simpa using List.append_cancel_left whole
      rw [← tail_eq]
      rfl
    · apply other
      simp only [isRear, List.append_nil] at whole
      have cut_head : (rest ++ [high]) ++ (low :: after) = head ++ (low :: after) := by
        simpa using whole
      have head_eq : rest ++ [high] = head := List.append_cancel_right cut_head
      rw [← head_eq, List.getLast?_concat]
  · intro together before point after cut isPoint
    have short := isPoint.length_le
    have lengths := congrArg List.length cut
    simp only [List.length_append] at lengths
    by_cases early : (before ++ point).length ≤ (front ++ between).length
    · left
      have inside : before ++ point <+: front ++ between ++ rear := by
        rw [cut]
        exact List.prefix_append _ _
      have prefix_front := List.prefix_of_prefix_length_le inside (List.prefix_append _ _) early
      exact prefix_front.trans (List.prefix_append _ _)
    by_cases late : front.length ≤ before.length
    · right
      have inside : point ++ after <:+ front ++ between ++ rear := by
        rw [cut, List.append_assoc]
        exact List.suffix_append _ _
      have inside' : between ++ rear <:+ front ++ between ++ rear := by
        rw [List.append_assoc]
        exact List.suffix_append _ _
      have shorter : (point ++ after).length ≤ (between ++ rear).length := by
        simp only [List.length_append]
        omega
      apply (List.suffix_of_suffix_length_le inside inside' shorter).trans
      rw [List.append_assoc]
      exact List.suffix_append _ _
    -- what is left is a pair whose halves come from the two sides
    · simp only [List.length_append, Nat.not_le] at early late
      have empty : between = [] := List.eq_nil_of_length_eq_zero (by omega)
      have two : point.length = 2 := by omega
      subst empty
      rcases isPoint with ⟨u, single, _⟩ | ⟨high, low, pair, isHigh, isLow⟩
      · rw [single] at two
        cases two
      · subst pair
        have isFront : front = before ++ [high] := by
          have same : (front ++ rear).take front.length = (before ++ [high, low] ++ after).take
              (before ++ [high]).length := by
            rw [← cut]
            simp only [List.append_nil, List.length_append, List.length_singleton]
            congr 1
            simp only [List.length_cons, List.length_nil] at early
            omega
          have shape : before ++ [high, low] ++ after = (before ++ [high]) ++ (low :: after) := by
            simp
          rw [List.take_left, shape, List.take_left] at same
          exact same
        have isRear : rear = low :: after := by
          have shape : before ++ [high, low] ++ after = front ++ (low :: after) := by
            simp [isFront]
          rw [shape, List.append_nil] at cut
          exact List.append_cancel_left cut
        by_cases same : head.getLast? = some high
        · right
          rcases List.getLast?_eq_some_iff.mp same with ⟨rest, isHead⟩
          exact ⟨rest, by simp [isHead, isRear]⟩
        by_cases same' : tail.head? = some low
        · left
          rcases List.head?_eq_some_iff.mp same' with ⟨rest, isTail⟩
          exact ⟨rest, by simp [isFront, isTail]⟩
        · refine absurd ⟨rfl, high, low, ?_, ?_, isHigh, isLow, same, same'⟩ together
          · rw [isFront, List.getLast?_concat]
          · rw [isRear]
            rfl

section Merged

variable {first second : Units} {ahead old between old' behind : Units}

theorem wellFormed_mergedChanges
    (parts : Parts base (Change.between base first) (Change.between base second) ahead old between
      old' behind)
    (wellBase : WellFormed base) (wellFirst : WellFormed first) (wellSecond : WellFormed second) :
    WellFormed (mergedChanges base first second) := by
  have isFirst := parts.apply_first
  have isSecond := parts.apply_second
  rw [Change.apply_between] at isFirst isSecond
  have shared := parts.whole
  simp only [List.append_assoc] at isFirst isSecond shared
  unfold mergedChanges
  rw [parts.both_eq]
  simp only [List.append_assoc]
  rw [← List.append_assoc ahead] at isFirst isSecond shared ⊢
  -- both beginnings can be followed by the untouched rest of `base`
  apply WellFormed.exchange
  · exact isFirst ▸ wellFirst
  · exact shared ▸ wellBase
  · exact isSecond ▸ wellSecond

theorem fromOne_mergedChanges_iff (precedes : Precedes base first second)
    (parts : Parts base (Change.between base first) (Change.between base second) ahead old between
      old' behind) :
    FromOne first second (mergedChanges base first second) ↔ ¬ SplitsPair base first second := by
  have isFirst := parts.apply_first
  have isSecond := parts.apply_second
  rw [Change.apply_between] at isFirst isSecond
  have isMerged := parts.both_eq
  have whole := parts.whole
  simp only [List.append_assoc] at isFirst isSecond isMerged whole
  rw [← List.append_assoc ahead, ← List.append_assoc _ between] at isFirst isSecond isMerged whole
  have met : between = [] ↔ (Change.between base first).stop = (Change.between base second).start := by
    rw [parts.stop, parts.start']
    simp only [List.length_append]
    constructor
    · intro empty
      simp [empty]
    · intro same
      apply List.eq_nil_of_length_eq_zero
      omega
  have front : base.take (Change.between base first).start = ahead := by
    rw [parts.start, whole, List.append_assoc, List.append_assoc, List.take_left]
  have head : base.take (Change.between base first).stop = ahead ++ old := by
    rw [parts.stop, whole, List.append_assoc, List.take_left]
  have rear : base.drop (Change.between base second).stop = behind := by
    rw [parts.stop', parts.whole, List.drop_left]
  have tail : base.drop (Change.between base second).start = old' ++ behind := by
    rw [parts.start', whole, List.drop_left]
  have law := @fromOne_iff (ahead ++ (Change.between base first).replacement) (ahead ++ old)
    between (old' ++ behind) ((Change.between base second).replacement ++ behind)
  rw [← isFirst, ← isSecond] at law
  unfold mergedChanges
  rw [isMerged, law]
  unfold SplitsPair
  dsimp only
  rw [front, head, rear, tail, met]
  exact not_congr (and_iff_right precedes).symm

theorem merges_mergedChanges_iff (precedes : Precedes base first second)
    (wellBase : WellFormed base) (wellFirst : WellFormed first) (wellSecond : WellFormed second) :
    Merges base first second (mergedChanges base first second) ↔
      ¬ SplitsPair base first second := by
  have ordered := (Change.between_within base first).ordered
  rcases exists_parts ordered precedes.1 (Change.between_within base second) with
    ⟨ahead, old, between, old', behind, parts⟩
  constructor
  · intro merges
    exact (fromOne_mergedChanges_iff precedes parts).mp merges.whole
  · intro together
    have isFirst := parts.apply_first
    have isSecond := parts.apply_second
    rw [Change.apply_between] at isFirst isSecond
    refine ⟨⟨ahead, old, between, old', behind, parts, isFirst, isSecond, parts.both_eq⟩, ?_, ?_⟩
    · exact wellFormed_mergedChanges parts wellBase wellFirst wellSecond
    · exact (fromOne_mergedChanges_iff precedes parts).mpr together

/-- The parts of a merge tell which change comes first. -/
theorem Merges.ordered {merged : Units} (merges : Merges base first second merged) :
    (Change.between base first).stop ≤ (Change.between base second).start := by
  rcases merges.applied with ⟨ahead, old, between, old', behind, parts, _⟩
  rw [parts.stop, parts.start']
  simp

end Merged

/-- Where one change splits a pair that the other completes, all three texts differ. -/
theorem SplitsPair.differ {first second : Units} (splits : SplitsPair base first second) :
    first ≠ second ∧ first ≠ base ∧ second ≠ base := by
  rcases splits with ⟨precedes, met, high, low, last, start, _, _, other, _⟩
  refine ⟨?_, ?_, ?_⟩
  · intro same
    subst same
    have ordered := (Change.between_within base first).ordered
    have insertion : (Change.between base first).start = (Change.between base first).stop := by
      have disjoint := precedes.1
      omega
    exact precedes.2 ⟨insertion, insertion, rfl⟩
  · intro same
    rw [same, Change.between_self] at last other
    rw [List.append_nil] at last
    exact other last
  · intro same
    rw [same, Change.between_self, List.drop_length] at start
    cases start

/-- The rebase is the merge of both changes exactly where no surrogate pair is split between
them. -/
theorem rebaseComposition_sound_iff (wellBase : WellFormed base) (wellLocal : WellFormed local_)
    (wellExternal : WellFormed external) :
    SoundRebase base local_ external ↔
      ¬ SplitsPair base local_ external ∧ ¬ SplitsPair base external local_ := by
  constructor
  · intro sound
    constructor
    · intro splits
      have precedes := splits.1
      rcases splits.differ with ⟨differ, changed, changed'⟩
      have merged := rebaseComposition_of_precedes differ changed changed' precedes
      rcases sound.merges differ changed changed' _ merged with merges | merges
      · exact (merges_mergedChanges_iff precedes wellBase wellLocal wellExternal).mp merges splits
      · apply precedes.asymm
        refine ⟨merges.ordered, ?_⟩
        rw [Change.isInsertionAtSameOffsetAs_comm]
        exact precedes.2
    · intro splits
      have follows := splits.1
      rcases splits.differ with ⟨differ, changed', changed⟩
      have merged := rebaseComposition_of_follows (Ne.symm differ) changed changed' follows
      rcases sound.merges (Ne.symm differ) changed changed' _ merged with merges | merges
      · apply follows.asymm
        refine ⟨merges.ordered, ?_⟩
        rw [Change.isInsertionAtSameOffsetAs_comm]
        exact follows.2
      · exact (merges_mergedChanges_iff follows wellBase wellExternal wellLocal).mp merges splits
  · intro together
    refine ⟨rebaseComposition_symmetric base local_ external, ?_, ?_, ?_⟩
    · intro differ changed changed' merged made
      by_cases precedes : Precedes base local_ external
      · left
        rw [rebaseComposition_of_precedes differ changed changed' precedes] at made
        rw [← Option.some.inj made]
        exact (merges_mergedChanges_iff precedes wellBase wellLocal wellExternal).mpr together.1
      by_cases follows : Precedes base external local_
      · right
        rw [rebaseComposition_of_follows differ changed changed' follows] at made
        rw [← Option.some.inj made]
        exact (merges_mergedChanges_iff follows wellBase wellExternal wellLocal).mpr together.2
      · rw [rebaseComposition_of_neither differ changed changed' precedes follows] at made
        cases made
    · intro differ changed changed'
      rw [← not_precedes_iff]
      constructor
      · intro refused
        constructor
        · intro precedes
          rw [rebaseComposition_of_precedes differ changed changed' precedes] at refused
          cases refused
        · intro follows
          rw [rebaseComposition_of_follows differ changed changed' follows] at refused
          cases refused
      · intro neither
        exact rebaseComposition_of_neither differ changed changed' neither.1 neither.2
    · intro same
      unfold rebaseComposition
      by_cases taken : local_ = external ∨ local_ = base
      · rw [if_pos taken]
        exact Or.inl rfl
      · have kept : external = base := by
          rcases same with same | same | same
          · exact absurd (Or.inl same) taken
          · exact absurd (Or.inr same) taken
          · exact same
        rw [if_neg taken, if_pos kept]
        exact Or.inr rfl

/-- Of two characters with one high half, one side takes out the first and the other changes the
second. The changes touch inside the second pair, whose high half stays. -/
theorem rebaseComposition_sound_ends :
    let base : Units := [97, 0xD83D, 0xDE01, 0xD83D, 0xDE00, 98]
    let local_ : Units := [97, 0xD83D, 0xDE00, 98]
    let external : Units := [97, 0xD83D, 0xDE01, 0xD83D, 0xDE02, 98]
    (Change.between base local_).stop = (Change.between base external).start ∧
      SoundRebase base local_ external ∧
      rebaseComposition base local_ external = some [97, 0xD83D, 0xDE02, 98] := by
  intro base local_ external
  refine ⟨by decide, ?_, by decide⟩
  apply (rebaseComposition_sound_iff (by decide) (by decide) (by decide)).mpr
  constructor
  · intro splits
    rcases splits with ⟨_, _, high, low, isHigh, isLow, _, _, gone, _⟩
    -- the unit before the touching place is a high half in the base and in the result
    rw [← isHigh] at gone
    exact gone (by decide)
  · intro splits
    exact absurd splits.1.1 (by decide)

/-- One side changes the first half of a pair and the other the second. -/
theorem rebaseComposition_mixes_halves :
    rebaseComposition [0xD83D, 0xDE00] [0xD83C, 0xDE00] [0xD83D, 0xDE01] =
        some [0xD83C, 0xDE01] ∧
      WellFormed [0xD83D, 0xDE00] ∧ WellFormed [0xD83C, 0xDE00] ∧ WellFormed [0xD83D, 0xDE01] ∧
      CodePoint [0xD83C, 0xDE01] ∧
      ¬ [0xD83C, 0xDE01] <:+: [0xD83C, 0xDE00] ∧ ¬ [0xD83C, 0xDE01] <:+: [0xD83D, 0xDE01] := by
  refine ⟨by decide, by decide, by decide, by decide, ?_, by decide, by decide⟩
  exact Or.inr ⟨0xD83C, 0xDE01, rfl, by decide, by decide⟩

end Burlmd.Interface
