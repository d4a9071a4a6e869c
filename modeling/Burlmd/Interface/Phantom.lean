import Burlmd.Interface.Delta
import Burlmd.Interface.Leaves

/-!
# Typing into a Block that was just created

The field that created a Block stays on the screen until it is rebuilt. Each value that it delivers
meanwhile is compared with the last one, and what changed inside of the Block is forwarded to Core.
-/

namespace Burlmd.Interface

open Replacement
open Surrogates

/-- The part of the source of a leaf that the field can show. -/
def phantomControllerLeafContent (source : Units) : Units :=
  if [carriageReturn, lineFeed].isSuffixOf source then source.take (source.length - 2)
  else if [lineFeed].isSuffixOf source then source.take (source.length - 1)
  else source

def lastIndexOf (text pattern : Units) : Option Nat :=
  (List.range (text.length + 1)).reverse.find? fun index => pattern.isPrefixOf (text.drop index)

/-- The focused leaf, with the last value of the field and where the leaf starts in it. -/
structure Focused where
  source : Units
  caret : Nat
  phantomControllerValue : Option Units
  phantomControllerSourceOffset : Option Nat

/-- The focus when Core has made a Block of the first text. -/
def handlePhantomInsert (text source : Units) (caretOffset : Int) : Focused where
  source := source
  caret := clamp caretOffset 0 source.length
  phantomControllerValue := some text
  phantomControllerSourceOffset := lastIndexOf text (phantomControllerLeafContent source)

/-- A value of the field, its caret, and Core's answer to the source it may be sent. -/
structure PlatformValue where
  text : Units
  extentOffset : Int
  updateBlock : Units → Bool

structure Handled where
  focused : Focused
  /-- The source that was sent to Core. -/
  forwarded : Option Units
  accepted : Bool

abbrev changedBeforeSource (delta : Utf16Delta) (sourceOffset : Nat) : Prop :=
  delta.stop < sourceOffset ∨ delta.stop = sourceOffset ∧ delta.start ≠ delta.stop

abbrev changedAfterSource (delta : Utf16Delta) (sourceEnd : Nat) : Prop :=
  sourceEnd < delta.start ∨ delta.start = sourceEnd ∧ delta.start ≠ delta.stop

def handlePhantomMaterializedUpdate (focused : Focused) (value : PlatformValue) : Handled :=
  match focused.phantomControllerValue, focused.phantomControllerSourceOffset with
  | some previous, some sourceOffset =>
      let delta := utf16Delta previous value.text
      let controllerSourceLength := (phantomControllerLeafContent focused.source).length
      let sourceEnd := sourceOffset + controllerSourceLength
      if delta.start = delta.stop ∧ delta.replacement = [] then
        ⟨{ focused with
            phantomControllerValue := some value.text
            caret := clamp (value.extentOffset - sourceOffset) 0 controllerSourceLength },
          none, true⟩
      else if changedBeforeSource delta sourceOffset then
        ⟨{ focused with
            phantomControllerValue := some value.text
            phantomControllerSourceOffset :=
              some (sourceOffset + delta.replacement.length - (delta.stop - delta.start)) },
          none, true⟩
      else if changedAfterSource delta sourceEnd then
        ⟨{ focused with phantomControllerValue := some value.text }, none, true⟩
      -- the source drops an edit that crosses the leaf, but not the offset
      else if delta.start < sourceOffset ∨ sourceEnd < delta.stop then
        ⟨{ focused with phantomControllerValue := some value.text }, none, true⟩
      else
        let nextSource := replaceRange focused.source (delta.start - sourceOffset)
          (delta.stop - sourceOffset) delta.replacement
        if value.updateBlock nextSource then
          ⟨{ focused with
              source := nextSource
              caret := clamp (value.extentOffset - sourceOffset) 0
                (phantomControllerLeafContent nextSource).length
              phantomControllerValue := some value.text },
            some nextSource, true⟩
        else ⟨focused, some nextSource, false⟩
  | _, _ => ⟨focused, none, true⟩

/-- The values that the field delivers, one after another. -/
def handleAll (focused : Focused) (values : List PlatformValue) : Focused :=
  values.foldl (fun focused value => (handlePhantomMaterializedUpdate focused value).focused) focused

/-! ## What the field shows -/

/-- The text has the content at the offset. -/
def ShowsAt (text : Units) (offset : Nat) (content : Units) : Prop :=
  offset + content.length ≤ text.length ∧ substring text offset (offset + content.length) = content

instance (text : Units) (offset : Nat) (content : Units) : Decidable (ShowsAt text offset content) :=
  inferInstanceAs (Decidable (_ ∧ _))

section Content

variable {text content source : Units} {offset : Nat}

theorem showsAt_iff : ShowsAt text offset content ↔
    ∃ before after, text = before ++ content ++ after ∧ before.length = offset := by
  constructor
  · intro shows
    rcases shows with ⟨bounded, same⟩
    have cut := take_split text (Nat.le_add_right offset content.length)
    rw [same] at cut
    refine ⟨text.take offset, text.drop (offset + content.length), ?_, ?_⟩
    · rw [← cut, List.take_append_drop]
    · rw [List.length_take]
      omega
  · intro parts
    rcases parts with ⟨before, after, whole, length⟩
    have stop : before.length + content.length = (before ++ content).length :=
      List.length_append.symm
    unfold ShowsAt
    rw [whole, ← length, stop]
    refine ⟨?_, substring_append before content after⟩
    exact (List.prefix_append _ _).length_le

theorem lastIndexOf_shows (found : lastIndexOf text content = some offset) :
    ShowsAt text offset content := by
  unfold lastIndexOf at found
  have inside := List.mem_of_find?_eq_some found
  rw [List.mem_reverse, List.mem_range] at inside
  have here : content.isPrefixOf (text.drop offset) = true :=
    List.find?_some (p := fun index => content.isPrefixOf (text.drop index)) found
  have starts := List.isPrefixOf_iff_prefix.mp here
  rcases starts with ⟨after, whole⟩
  apply showsAt_iff.mpr
  refine ⟨text.take offset, after, ?_, ?_⟩
  · rw [List.append_assoc, whole, List.take_append_drop]
  · rw [List.length_take]
    omega

/-- The content is all of the source but its last line ending. -/
theorem content_cases (source : Units) :
    [carriageReturn, lineFeed] <:+ source ∧
        phantomControllerLeafContent source = source.take (source.length - 2) ∨
      ¬ [carriageReturn, lineFeed] <:+ source ∧ [lineFeed] <:+ source ∧
        phantomControllerLeafContent source = source.take (source.length - 1) ∨
      ¬ [lineFeed] <:+ source ∧ phantomControllerLeafContent source = source := by
  unfold phantomControllerLeafContent
  split
  · rename_i pair
    exact Or.inl ⟨List.isSuffixOf_iff_suffix.mp pair, rfl⟩
  · rename_i pair
    split
    · rename_i line
      refine Or.inr (Or.inl ⟨?_, List.isSuffixOf_iff_suffix.mp line, rfl⟩)
      intro suffix
      exact pair (List.isSuffixOf_iff_suffix.mpr suffix)
    · rename_i line
      refine Or.inr (Or.inr ⟨?_, rfl⟩)
      intro suffix
      exact line (List.isSuffixOf_iff_suffix.mpr suffix)

/-- The structural line ending of a source. -/
def lineEnding (source : Units) : Units := source.drop (phantomControllerLeafContent source).length

theorem drop_of_suffix {ending : Units} (suffix : ending <:+ source) :
    source.drop (source.take (source.length - ending.length)).length = ending := by
  rcases suffix with ⟨content, whole⟩
  rw [← whole, List.length_append, Nat.add_sub_cancel_right, List.take_left, List.drop_left]

theorem lineEnding_cases (source : Units) :
    lineEnding source = [carriageReturn, lineFeed] ∨ lineEnding source = [lineFeed] ∨
      lineEnding source = [] := by
  unfold lineEnding
  rcases content_cases source with ⟨suffix, content⟩ | ⟨_, suffix, content⟩ | ⟨_, content⟩
  · rw [content]
    exact Or.inl (drop_of_suffix suffix)
  · rw [content]
    exact Or.inr (Or.inl (drop_of_suffix suffix))
  · rw [content, List.drop_length]
    exact Or.inr (Or.inr rfl)

theorem content_lineEnding (source : Units) :
    phantomControllerLeafContent source ++ lineEnding source = source := by
  apply List.prefix_iff_eq_append.mp
  rcases content_cases source with ⟨_, content⟩ | ⟨_, _, content⟩ | ⟨_, content⟩
  · rw [content]
    exact List.take_prefix _ _
  · rw [content]
    exact List.take_prefix _ _
  · exact ⟨[], (List.append_nil _).trans content⟩

/-- With the line ending of another source behind it, a text shows no more than itself. -/
theorem content_of_spliced (shown source : Units) :
    phantomControllerLeafContent (shown ++ lineEnding source) <+: shown := by
  have within (kept : Nat) (short : kept ≤ shown.length) (ending : Units) :
      (shown ++ ending).take kept <+: shown := by
    rw [List.take_append_of_le_length short]
    exact List.take_prefix _ _
  rcases content_cases (shown ++ lineEnding source) with
    ⟨_, content⟩ | ⟨pair, suffix, content⟩ | ⟨line, content⟩
  · rw [content]
    apply within
    rcases lineEnding_cases source with ending | ending | ending <;>
      · rw [ending, List.length_append]
        simp
  · rw [content]
    apply within
    rcases lineEnding_cases source with ending | ending | ending
    · rw [ending] at pair
      exact absurd (List.suffix_append _ _) pair
    · rw [ending, List.length_append]
      simp
    · rw [ending, List.length_append]
      simp
  · rw [content]
    rcases lineEnding_cases source with ending | ending | ending
    · rw [ending] at line
      exact absurd ⟨shown ++ [carriageReturn], by simp⟩ line
    · rw [ending] at line
      exact absurd (List.suffix_append _ _) line
    · exact ⟨[], by rw [ending, List.append_nil, List.append_nil]⟩

theorem lineEnding_plain (source : Units) : (lineEnding source)[0]?.any isLow = false := by
  rcases lineEnding_cases source with ending | ending | ending <;>
    · rw [ending]
      decide

end Content

/-! ## A delivered value -/

/-- The recorded value has the content of the leaf at the recorded offset. -/
def Aligned (focused : Focused) : Prop :=
  ∀ previous sourceOffset, focused.phantomControllerValue = some previous →
    focused.phantomControllerSourceOffset = some sourceOffset →
      ShowsAt previous sourceOffset (phantomControllerLeafContent focused.source)

/-- What replaces the source of the leaf is what the field shows for it and its line ending, and
neither of the two sources is cut inside of a surrogate pair. -/
structure Replaces (focused : Focused) (text nextSource : Units) : Prop where
  shown : ∃ before shown after,
    focused.phantomControllerValue =
        some (before ++ phantomControllerLeafContent focused.source ++ after) ∧
      focused.phantomControllerSourceOffset = some before.length ∧
      text = before ++ shown ++ after ∧ nextSource = shown ++ lineEnding focused.source
  spliced : ∃ start stop replacement,
    nextSource = replaceRange focused.source start stop replacement ∧
      Boundary focused.source start ∧ Boundary focused.source stop ∧
      Boundary nextSource start ∧ Boundary nextSource (start + replacement.length)

/-- A value is recorded as it is, moves the offset with the leaf, or reaches Core as the source that
the field shows; when Core refuses, nothing is recorded. -/
structure ExactStep (focused : Focused) (value : PlatformValue) (handled : Handled) : Prop where
  aligned : Aligned handled.focused
  replaces : ∀ nextSource, handled.forwarded = some nextSource →
    Replaces focused value.text nextSource
  accepts : ∀ nextSource, handled.forwarded = some nextSource →
    value.updateBlock nextSource = true →
      handled.focused.source = nextSource ∧
        handled.focused.phantomControllerValue = some value.text
  refuses : ∀ nextSource, handled.forwarded = some nextSource →
    value.updateBlock nextSource = false → handled.focused = focused
  kept : handled.forwarded = none → handled.focused.source = focused.source

/-- The replaced range has an end of the leaf inside. -/
def Crosses (delta : Utf16Delta) (sourceOffset sourceEnd : Nat) : Prop :=
  delta.start < sourceOffset ∧ sourceOffset < delta.stop ∨
    delta.start < sourceEnd ∧ sourceEnd < delta.stop

/-- If what changed crosses the leaf, the value still has the content where it was. -/
def Keeps (focused : Focused) (value : PlatformValue) : Prop :=
  ∀ previous sourceOffset, focused.phantomControllerValue = some previous →
    focused.phantomControllerSourceOffset = some sourceOffset →
      Crosses (utf16Delta previous value.text) sourceOffset
          (sourceOffset + (phantomControllerLeafContent focused.source).length) →
        ShowsAt value.text sourceOffset (phantomControllerLeafContent focused.source)

section Step

variable {focused : Focused} {value : PlatformValue} {previous next before after content : Units}
  {delta : Utf16Delta} {ahead removed behind : Units}

/-- A change before the leaf moves it. -/
theorem showsAt_of_before (around : Around previous next delta ahead removed behind)
    (shows : previous = before ++ content ++ after)
    (earlier : (ahead ++ removed).length ≤ before.length) :
    ShowsAt next (before.length + delta.replacement.length - removed.length) content := by
  have whole := around.previous_eq.symm.trans shows
  rw [List.append_assoc before] at whole
  have inside : ahead ++ removed <+: before :=
    List.prefix_of_prefix_length_le (whole ▸ List.prefix_append _ _) (List.prefix_append _ _) earlier
  rcases inside with ⟨between, cut⟩
  rw [← cut, List.append_assoc (ahead ++ removed)] at whole
  have rest := List.append_cancel_left whole
  apply showsAt_iff.mpr
  refine ⟨ahead ++ delta.replacement ++ between, after, ?_, ?_⟩
  · rw [around.next_eq, rest]
    simp only [List.append_assoc]
  · rw [← cut]
    simp only [List.length_append]
    omega

/-- A change behind the leaf leaves it. -/
theorem showsAt_of_after (around : Around previous next delta ahead removed behind)
    (shows : previous = before ++ content ++ after)
    (later : (before ++ content).length ≤ ahead.length) : ShowsAt next before.length content := by
  have whole := shows.symm.trans around.previous_eq
  rw [List.append_assoc ahead] at whole
  have inside : before ++ content <+: ahead :=
    List.prefix_of_prefix_length_le (whole ▸ List.prefix_append _ _) (List.prefix_append _ _) later
  rcases inside with ⟨between, cut⟩
  apply showsAt_iff.mpr
  refine ⟨before, between ++ delta.replacement ++ behind, ?_, rfl⟩
  rw [around.next_eq, ← cut]
  simp only [List.append_assoc]

/-- A change inside of the leaf is a change of its content. -/
theorem inside_content (around : Around previous next delta ahead removed behind)
    (shows : previous = before ++ content ++ after) (from_ : before.length ≤ ahead.length)
    (until_ : (ahead ++ removed).length ≤ (before ++ content).length) :
    ∃ first last, ahead = before ++ first ∧ content = first ++ removed ++ last ∧
      next = before ++ (first ++ delta.replacement ++ last) ++ after := by
  have whole := shows.symm.trans around.previous_eq
  have starts : before <+: ahead := by
    apply List.prefix_of_prefix_length_le ?_ (List.prefix_append ahead (removed ++ behind)) from_
    rw [← List.append_assoc, ← whole, List.append_assoc]
    exact List.prefix_append _ _
  rcases starts with ⟨first, isAhead⟩
  have ends : ahead ++ removed <+: before ++ content := by
    apply List.prefix_of_prefix_length_le ?_ (List.prefix_append _ after) until_
    rw [whole]
    exact List.prefix_append _ _
  rcases ends with ⟨last, isContent⟩
  have parts := isContent
  rw [← isAhead, List.append_assoc, List.append_assoc] at parts
  have isContent' := List.append_cancel_left parts
  rw [← isContent, List.append_assoc (ahead ++ removed)] at whole
  have rest := List.append_cancel_left whole
  refine ⟨first, last, isAhead.symm, ?_, ?_⟩
  · rw [← isContent', List.append_assoc]
  · rw [around.next_eq, ← isAhead, ← rest]
    simp only [List.append_assoc]

/-- A boundary of the field's value inside of the leaf is one of the source. -/
theorem boundary_source {ending : Units} {offset : Nat} (plain : ending[0]?.any isLow = false)
    (bounded : offset ≤ content.length)
    (boundary : Boundary (before ++ content ++ after) (before.length + offset)) :
    Boundary (content ++ ending) offset := by
  intro first isNext
  by_cases inside : first + 1 < content.length
  · have single := boundary (before.length + first) (by omega)
    have unit (index : Nat) (short : index < content.length) :
        (before ++ content ++ after)[before.length + index]? = (content ++ ending)[index]? := by
      rw [List.append_assoc, List.getElem?_append_right (Nat.le_add_right _ _),
        Nat.add_sub_cancel_left, List.getElem?_append_left short, List.getElem?_append_left short]
    unfold pairAt at single ⊢
    rw [← unit first (by omega), ← unit (first + 1) inside]
    exact single
  · have last : first + 1 = content.length := by omega
    unfold pairAt
    rw [last, List.getElem?_append_right (Nat.le_refl _), Nat.sub_self, plain, Bool.and_false]

/-- What is forwarded for a change inside of the leaf. -/
theorem replaces_inside (around : Around previous next delta ahead removed behind)
    (recorded : focused.phantomControllerValue = some previous)
    (starts : focused.phantomControllerSourceOffset = some before.length)
    (shows : previous = before ++ phantomControllerLeafContent focused.source ++ after)
    (from_ : before.length ≤ ahead.length) (until_ : (ahead ++ removed).length ≤
      (before ++ phantomControllerLeafContent focused.source).length) :
    ShowsAt next before.length (phantomControllerLeafContent
        (replaceRange focused.source (delta.start - before.length) (delta.stop - before.length)
          delta.replacement)) ∧
      Replaces focused next
        (replaceRange focused.source (delta.start - before.length) (delta.stop - before.length)
          delta.replacement) := by
  rcases inside_content around shows from_ until_ with ⟨first, last, isAhead, isContent, isNext⟩
  have start : delta.start - before.length = first.length := by
    rw [around.start_eq, isAhead, List.length_append, Nat.add_sub_cancel_left]
  have stop : delta.stop - before.length = (first ++ removed).length := by
    rw [around.stop_eq, isAhead, List.append_assoc, List.length_append, Nat.add_sub_cancel_left]
  have whole : focused.source = first ++ removed ++ (last ++ lineEnding focused.source) := by
    rw [← List.append_assoc, ← isContent, content_lineEnding]
  have spliced : replaceRange focused.source first.length (first ++ removed).length
      delta.replacement = first ++ delta.replacement ++ last ++ lineEnding focused.source := by
    unfold replaceRange
    conv_lhs => rw [whole]
    rw [List.drop_left, List.append_assoc first, List.take_left]
    simp only [List.append_assoc]
  have own (offset : Nat) (bounded : offset ≤ (phantomControllerLeafContent focused.source).length)
      (boundary : Boundary previous (before.length + offset)) : Boundary focused.source offset := by
    rw [shows] at boundary
    rw [← content_lineEnding focused.source]
    exact boundary_source (lineEnding_plain _) bounded boundary
  have grown (offset : Nat) (bounded : offset ≤ (first ++ delta.replacement ++ last).length)
      (boundary : Boundary next (before.length + offset)) :
      Boundary (first ++ delta.replacement ++ last ++ lineEnding focused.source) offset := by
    rw [isNext] at boundary
    exact boundary_source (lineEnding_plain _) bounded boundary
  rw [start, stop, spliced]
  constructor
  · rcases content_of_spliced (first ++ delta.replacement ++ last) focused.source with ⟨rest, cut⟩
    apply showsAt_iff.mpr
    refine ⟨before, rest ++ after, ?_, rfl⟩
    have grown := congrArg (fun shown => before ++ shown ++ after) cut
    apply isNext.trans
    apply grown.symm.trans
    simp only [List.append_assoc]
  · constructor
    · refine ⟨before, first ++ delta.replacement ++ last, after, ?_, starts, isNext, rfl⟩
      rw [recorded, shows]
    · refine ⟨first.length, (first ++ removed).length, delta.replacement, spliced.symm, ?_, ?_, ?_, ?_⟩
      · exact own _ (by rw [isContent, List.append_assoc]; exact (List.prefix_append _ _).length_le)
          (by rw [← List.length_append, ← isAhead]; exact around.starts)
      · exact own _ (by rw [isContent]; exact (List.prefix_append _ _).length_le)
          (by rw [← List.length_append, ← List.append_assoc, ← isAhead]; exact around.stops)
      · exact grown _ (by rw [List.append_assoc]; exact (List.prefix_append _ _).length_le)
          (by rw [← List.length_append, ← isAhead]; exact around.starts')
      · exact grown _ (by rw [← List.length_append]; exact (List.prefix_append _ _).length_le)
          (by
            rw [← List.length_append, ← List.length_append, ← List.append_assoc, ← isAhead]
            exact around.stops')

theorem aligned_some {source : Units} {caret sourceOffset : Nat} {text : Units}
    (shows : ShowsAt text sourceOffset (phantomControllerLeafContent source)) :
    Aligned ⟨source, caret, some text, some sourceOffset⟩ := by
  intro previous offset recorded starts
  rw [← Option.some.inj recorded, ← Option.some.inj starts]
  exact shows

theorem ExactStep.silent {handled : Handled} (none_ : handled.forwarded = none)
    (source : handled.focused.source = focused.source) (aligned : Aligned handled.focused) :
    ExactStep focused value handled := by
  constructor
  · exact aligned
  · intro nextSource forwarded
    rw [none_] at forwarded
    cases forwarded
  · intro nextSource forwarded
    rw [none_] at forwarded
    cases forwarded
  · intro nextSource forwarded
    rw [none_] at forwarded
    cases forwarded
  · intro _
    exact source

/-- Nothing crosses the leaf in a step that keeps it aligned anyway. -/
theorem exactStep_iff_of_not_crosses {handled : Handled} (exact_ : ExactStep focused value handled)
    (apart : ∀ previous sourceOffset, focused.phantomControllerValue = some previous →
      focused.phantomControllerSourceOffset = some sourceOffset →
        ¬ Crosses (utf16Delta previous value.text) sourceOffset
          (sourceOffset + (phantomControllerLeafContent focused.source).length)) :
    ExactStep focused value handled ↔ Keeps focused value := by
  refine iff_of_true exact_ ?_
  intro previous sourceOffset recorded starts crosses
  exact absurd crosses (apart previous sourceOffset recorded starts)

/-- The step of a leaf whose place in the value is known. -/
theorem exactStep_recorded_iff {source : Units} {caret sourceOffset : Nat}
    (shows : ShowsAt previous sourceOffset (phantomControllerLeafContent source)) :
    ExactStep ⟨source, caret, some previous, some sourceOffset⟩ value
        (handlePhantomMaterializedUpdate ⟨source, caret, some previous, some sourceOffset⟩ value) ↔
      Keeps ⟨source, caret, some previous, some sourceOffset⟩ value := by
  rcases showsAt_iff.mp shows with ⟨before, after, whole, length⟩
  rcases utf16Delta_around previous value.text with ⟨ahead, removed, behind, around⟩
  have start := around.start_eq
  have stop := around.stop_eq
  have width : ahead.length + removed.length = (ahead ++ removed).length := List.length_append.symm
  have leaf : before.length + (phantomControllerLeafContent source).length =
      (before ++ phantomControllerLeafContent source).length := List.length_append.symm
  have apart (outside : ¬ Crosses (utf16Delta previous value.text) sourceOffset
      (sourceOffset + (phantomControllerLeafContent source).length)) (other : Units) (offset : Nat)
      (recorded : some previous = some other) (starts : some sourceOffset = some offset) :
      ¬ Crosses (utf16Delta other value.text) offset
        (offset + (phantomControllerLeafContent source).length) := by
    rw [← Option.some.inj recorded, ← Option.some.inj starts]
    exact outside
  unfold handlePhantomMaterializedUpdate
  dsimp only
  split
  · rename_i same
    refine exactStep_iff_of_not_crosses (ExactStep.silent rfl rfl ?_) (apart ?_)
    · have empty : removed = [] := List.eq_nil_of_length_eq_zero (by omega)
      have own := around.previous_eq
      have next := around.next_eq
      rw [empty] at own
      rw [same.2] at next
      have unchanged : value.text = previous := next.trans own.symm
      apply aligned_some
      rw [unchanged]
      exact shows
    · unfold Crosses
      omega
  · rename_i changed
    split
    · rename_i earlier
      refine exactStep_iff_of_not_crosses (ExactStep.silent rfl rfl ?_) (apart ?_)
      · have moved := showsAt_of_before around whole (by omega)
        have offset : sourceOffset + (utf16Delta previous value.text).replacement.length -
            ((utf16Delta previous value.text).stop - (utf16Delta previous value.text).start) =
              before.length + (utf16Delta previous value.text).replacement.length - removed.length := by
          omega
        apply aligned_some
        rw [offset]
        exact moved
      · unfold Crosses
        omega
    · rename_i notEarlier
      split
      · rename_i later
        refine exactStep_iff_of_not_crosses (ExactStep.silent rfl rfl ?_) (apart ?_)
        · apply aligned_some
          rw [← length]
          exact showsAt_of_after around whole (by omega)
        · unfold Crosses
          omega
      · rename_i notLater
        split
        · rename_i outside
          constructor
          · intro exact_ other offset recorded starts _
            exact exact_.aligned value.text offset rfl starts
          · intro keeps
            have crosses : Crosses (utf16Delta previous value.text) sourceOffset
                (sourceOffset + (phantomControllerLeafContent source).length) := by
              unfold Crosses
              omega
            refine ExactStep.silent rfl rfl ?_
            apply aligned_some
            exact keeps previous sourceOffset rfl rfl crosses
        · rename_i inside
          have within : before.length ≤ ahead.length ∧
              (ahead ++ removed).length ≤ (before ++ phantomControllerLeafContent source).length := by
            omega
          have isolated : ¬ Crosses (utf16Delta previous value.text) sourceOffset
              (sourceOffset + (phantomControllerLeafContent source).length) := by
            unfold Crosses
            omega
          rw [← length]
          have recorded : (Focused.mk source caret (some previous) (some before.length)).phantomControllerValue =
              some previous := rfl
          rcases replaces_inside around recorded rfl whole within.1 within.2 with
            ⟨shown, replaces⟩
          rw [← length] at apart isolated
          refine exactStep_iff_of_not_crosses ?_ (apart isolated)
          split
          · rename_i accepted
            constructor
            · exact aligned_some shown
            · intro nextSource forwarded
              rw [← Option.some.inj forwarded]
              exact replaces
            · intro nextSource forwarded _
              exact ⟨Option.some.inj forwarded, rfl⟩
            · intro nextSource forwarded refused
              rw [← Option.some.inj forwarded] at refused
              exact absurd accepted (ne_true_of_eq_false refused)
            · intro none_
              cases none_
          · rename_i refused
            constructor
            · rw [← length] at shows
              exact aligned_some shows
            · intro nextSource forwarded
              rw [← Option.some.inj forwarded]
              exact replaces
            · intro nextSource forwarded accepted
              rw [← Option.some.inj forwarded] at accepted
              exact absurd accepted refused
            · intro _ _ _
              rfl
            · intro none_
              cases none_

/-- A step is exact exactly if it keeps the leaf in what crosses it. -/
theorem exactStep_iff (aligned : Aligned focused) :
    ExactStep focused value (handlePhantomMaterializedUpdate focused value) ↔
      Keeps focused value := by
  rcases focused with ⟨source, caret, controllerValue, controllerOffset⟩
  cases controllerValue with
  | none =>
    refine exactStep_iff_of_not_crosses ?_ ?_
    · exact ExactStep.silent rfl rfl aligned
    · intro previous _ recorded
      cases recorded
  | some previous =>
    cases controllerOffset with
    | none =>
      refine exactStep_iff_of_not_crosses ?_ ?_
      · exact ExactStep.silent rfl rfl aligned
      · intro _ sourceOffset _ starts
        cases starts
    | some sourceOffset => exact exactStep_recorded_iff (aligned _ _ rfl rfl)

end Step

/-! ## All values of a field -/

/-- The leaf is found in the recorded value from the start, and each value is handled exactly. -/
structure ExactRun (focused : Focused) (values : List PlatformValue) : Prop where
  aligned : Aligned focused
  steps : ∀ before value after, values = before ++ value :: after →
    ExactStep (handleAll focused before) value
      (handlePhantomMaterializedUpdate (handleAll focused before) value)

theorem forall_split_cons {α : Type} {first : α} {rest : List α} {holds : List α → α → Prop} :
    (∀ before value after, first :: rest = before ++ value :: after → holds before value) ↔
      holds [] first ∧
        ∀ before value after, rest = before ++ value :: after → holds (first :: before) value := by
  constructor
  · intro all
    refine ⟨all [] first rest rfl, ?_⟩
    intro before value after cut
    exact all (first :: before) value after (congrArg (first :: ·) cut)
  · intro both before value after cut
    cases before with
    | nil =>
      rw [← (List.cons.inj cut).1]
      exact both.1
    | cons head before =>
      rw [← (List.cons.inj cut).1]
      exact both.2 before value after (List.cons.inj cut).2

section Run

variable {focused : Focused} {values : List PlatformValue}

theorem steps_exact_iff (aligned : Aligned focused) :
    (∀ before value after, values = before ++ value :: after →
        ExactStep (handleAll focused before) value
          (handlePhantomMaterializedUpdate (handleAll focused before) value)) ↔
      ∀ before value after, values = before ++ value :: after →
        Keeps (handleAll focused before) value := by
  induction values generalizing focused with
  | nil =>
    refine iff_of_true ?_ ?_
    · intro before value after cut
      simp at cut
    · intro before value after cut
      simp at cut
  | cons first rest ih =>
    rw [forall_split_cons, forall_split_cons]
    constructor
    · intro steps
      exact ⟨(exactStep_iff aligned).mp steps.1, (ih steps.1.aligned).mp steps.2⟩
    · intro steps
      have step := (exactStep_iff aligned).mpr steps.1
      exact ⟨step, (ih step.aligned).mpr steps.2⟩

theorem handlePhantomInsert_aligned (text source : Units) (caretOffset : Int) :
    Aligned (handlePhantomInsert text source caretOffset) := by
  intro previous sourceOffset recorded starts
  rw [← Option.some.inj recorded]
  exact lastIndexOf_shows starts

end Run

/-- Every value is handled exactly if and only if no change crosses an end of the leaf without
leaving its content where it was. -/
theorem phantom_values_exact_iff (text source : Units) (caretOffset : Int)
    (values : List PlatformValue) :
    ExactRun (handlePhantomInsert text source caretOffset) values ↔
      ∀ before value after, values = before ++ value :: after →
        Keeps (handleAll (handlePhantomInsert text source caretOffset) before) value := by
  have aligned := handlePhantomInsert_aligned text source caretOffset
  constructor
  · intro run
    exact (steps_exact_iff aligned).mp run.steps
  · intro keeps
    exact ⟨aligned, (steps_exact_iff aligned).mpr keeps⟩

/-- The focus when two paragraphs, `a` and `bc`, were pasted into the field. -/
def pasted : Focused := handlePhantomInsert [97, 10, 10, 98, 99] [98, 99, 10] 2

/-- The lines between the paragraphs and the `b` give way to an `X`. -/
def crossing : PlatformValue := ⟨[97, 88, 99], 2, fun _ => true⟩

/-- After the crossing a `d` that is typed at the end is put in front of the second paragraph. -/
theorem crossing_writes_elsewhere :
    (handlePhantomMaterializedUpdate (handleAll pasted [crossing])
        ⟨[97, 88, 99, 100], 4, fun _ => true⟩).forwarded = some [100, 98, 99, 10] ∧
      ¬ ExactRun pasted [crossing] := by
  constructor
  · decide
  · intro run
    have step := run.steps [] crossing [] rfl
    have shows := step.aligned [97, 88, 99] 3 (by decide) (by decide)
    revert shows
    decide

end Burlmd.Interface
