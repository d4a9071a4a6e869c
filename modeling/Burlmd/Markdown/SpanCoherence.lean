import Mathlib.Data.List.Basic
import Mathlib.Tactic.Common
import Burlmd.Markdown.SpanAudit

/-!
# The span map of a whole note
-/

namespace Burlmd.Markdown

open Utf8

namespace Flow.Watched

variable {source : Text} {base low high : Nat} {hold : Hold} {st : Flow}

/-- A heading and the images hoisted out of it are in order exactly when no image holds
another and no visible text stands after or around one. -/
theorem heading_sound_iff (watched : st.Watched source base low hold) (containing_dir : Text)
    (level : Nat) {range : Range} {children : Forest} (conforms : children.conforms .inline = true)
    (placed : children.placed source range.start range.stop = true) (start : low ≤ range.start)
    (covers : Covers source range) :
    SoundBlocks source base (st.heading source containing_dir level range children).blocks ↔
      children.nests = false ∧ children.textFirst = true := by
  have atoms := children.atoms_placed source containing_dir rfl conforms placed st.format
  have order := (Flow.pushAtoms_laid (Pending.Laid.empty (le_refl range.start)) atoms).runs.runs.order
  obtain ⟨extent, holds⟩ := pushAtoms_holds atoms (Pending.Holds.empty)
  have shown := pushAtoms_runs atoms Pending.empty
  have inside := Forest.hoisted_placed source children placed
  have base_le := watched.low
  -- the range of the heading itself, and what it must precede
  obtain ⟨own, given⟩ : ∃ own, own = Flow.tagSource range
      (children.atoms source containing_dir st.format)
      ((children.atoms source containing_dir st.format).foldl Pending.push .empty) := ⟨_, rfl⟩
  have claim : ∀ span, own = some span → Covers source span ∧ range.start ≤ span.start ∧
      span.stop ≤ range.stop := by
    intro span registered
    rw [registered] at given
    by_cases images : (children.atoms source containing_dir st.format).any Atom.isImage = true
    · rw [Flow.tagSource, if_pos images, holds.runs] at given
      obtain ⟨first, last, -⟩ := order.extent (holds.runs.trans given.symm)
      exact ⟨(holds.covers span given.symm).1, first, last⟩
    · rw [Flow.tagSource, if_neg images] at given
      obtain rfl := Option.some.inj given
      exact ⟨covers, le_refl _, le_refl _⟩
  have first : (∀ span, own = some span → ∀ image ∈ children.hoisted, span.Before image.source) ↔
      children.textFirst = true := by
    rw [children.textFirst_iff containing_dir rfl conforms placed st.format]
    by_cases none_ : children.hoisted = []
    · simp [none_]
    · have images : (children.atoms source containing_dir st.format).any Atom.isImage = true := by
        by_contra imageless
        rw [Bool.not_eq_true] at imageless
        exact none_ ((hoisted_eq_nil_iff source containing_dir children st.format).mp imageless)
      rw [Flow.tagSource, if_pos images] at given
      simp only [Pending.empty, RunAccum.empty, List.map_nil, List.nil_append] at shown
      cases registered : own with
      | none =>
        have empty : ((children.atoms source containing_dir st.format).foldl Pending.push
            .empty).runs.runs = [] := by
          by_contra some_
          have extent := runExtent_isSome.mpr some_
          simp [← given, registered] at extent
        have silent : shownRanges (children.atoms source containing_dir st.format) = [] := by
          rw [← shown]
          exact List.map_eq_nil_iff.mpr empty
        simp [silent]
      | some span =>
        rw [registered] at given
        have stops (offset : Nat) : span.stop ≤ offset ↔ _ := order.stop_le_iff given.symm
        simp only [Option.some.injEq, forall_eq', Forest.Ahead]
        constructor
        · intro each shown' member image member'
          refine (stops image.source.start).mp (each image member') shown' ?_
          rw [← shown] at member
          exact member
        · intro each image member
          refine (stops image.source.start).mpr fun shown' member' => each shown' ?_ image member
          rw [← shown]
          exact member'
  have blocks : (st.heading source containing_dir level range children).blocks =
      (st.blocks ++ [.leaf (.heading level (processInlines
        ((children.atoms source containing_dir st.format).foldl Pending.push .empty).inlines)) own
          ((children.atoms source containing_dir st.format).foldl Pending.push .empty).runs.runs]) ++
        children.hoisted.map Image.emitted := by
    rw [Flow.heading, given]
    simp [Flow.imagesOf_atoms]
  rw [blocks, ← children.hoisted_pairwise_iff placed, ← first]
  have earlier : ∀ span ∈ sources st.blocks, ∀ other, range.start ≤ other → span.stop ≤ other :=
    fun span member other le =>
      Nat.le_trans (watched.bounded span member) (Nat.le_trans start le)
  constructor
  · rintro ⟨ordered, -, -⟩
    rw [Ordered, sources_append, List.pairwise_append, sources_images, sources_append] at ordered
    refine ⟨ordered.2.1, fun span registered image member => ordered.2.2 span ?_ _
      (List.mem_map.mpr ⟨image, member, rfl⟩)⟩
    simp [registered]
  · rintro ⟨pairs, before⟩
    refine ⟨?_, ?_, ?_⟩
    · rw [Ordered, sources_append, List.pairwise_append, sources_images, sources_append,
        List.pairwise_append]
      refine ⟨⟨watched.sound.ordered, ?_, ?_⟩, pairs, ?_⟩
      · cases own <;> simp
      · intro span member other member'
        have registered : own = some other := by simpa using member'
        exact earlier span member _ (claim other registered).2.1
      · intro span member other member'
        obtain ⟨image, held, rfl⟩ := List.mem_map.mp member'
        rcases List.mem_append.mp member with member | member
        · exact earlier span member _ (inside image held).2.2.1
        · exact before span (by simpa using member) image held
    · intro block member
      simp only [List.mem_append, List.mem_singleton, List.mem_map] at member
      obtain (member | rfl) | ⟨image, held, rfl⟩ := member
      · exact watched.sound.below block member
      · exact leaf_orderly fun span registered => (claim span registered).1
      · refine leaf_orderly ?_
        rintro span ⟨⟩
        exact ⟨(inside image held).1, (inside image held).2.1⟩
    · intro span member
      simp only [sources_append, sources_images, List.mem_append, List.mem_map] at member
      obtain (member | member) | ⟨image, held, rfl⟩ := member
      · exact watched.sound.inside span member
      · have := (claim span (by simpa using member)).2.1
        omega
      · have := (inside image held).2.2.1
        omega

theorem heading (watched : st.Watched source base low hold) (containing_dir : Text)
    (level : Nat) {range : Range} {children : Forest} (conforms : children.conforms .inline = true)
    (placed : children.placed source range.start range.stop = true) (start : low ≤ range.start)
    (covers : Covers source range) :
    (st.heading source containing_dir level range children).Answers source base range.stop
      (if children.nests || !children.textFirst then none else some .empty) := by
  have sound := watched.heading_sound_iff containing_dir level conforms placed start covers
  have wide := covers.1
  have base_le := watched.low
  split
  · rename_i bad
    intro good
    obtain ⟨plain, first⟩ := sound.mp good
    simp [plain, first] at bad
  · rename_i good
    refine ⟨sound.mpr (by simpa using good), ?_, by omega, none, .empty, rfl⟩
    have atoms := children.atoms_placed source containing_dir rfl conforms placed st.format
    have order := (Flow.pushAtoms_laid (Pending.Laid.empty (le_refl range.start))
      atoms).runs.runs.order
    intro span member
    simp only [Flow.heading, Flow.imagesOf_atoms, sources_append, sources_cons, sources_images,
      Emitted.source?_leaf, List.mem_append, List.mem_map, Option.mem_toList] at member
    obtain member | member | ⟨image, held, rfl⟩ := member
    · have := watched.bounded span member
      omega
    · by_cases images : (children.atoms source containing_dir st.format).any Atom.isImage = true
      · rw [Flow.tagSource, if_pos images] at member
        exact (order.extent member).2.1
      · rw [Flow.tagSource, if_neg images] at member
        obtain rfl := Option.some.inj member
        exact le_refl _
    · exact (Forest.hoisted_placed source children placed image held).2.2.2

/-! ## Containers -/

/-- A container opens past the waiting content. -/
theorem enter (watched : st.Watched source base low hold) {range : Range}
    (start : low ≤ range.start) :
    st.enter.Watched source range.start range.start hold.passed := by
  obtain ⟨sound, bounded, base_le, extent, holds, fits⟩ := watched
  refine ⟨⟨by simp [Flow.enter, Ordered], by simp [Flow.enter], by simp [Flow.enter]⟩,
    by simp [Flow.enter], le_refl _, extent, holds.mono start, ?_⟩
  cases hold with
  | empty => exact fits
  | clean | stranded =>
    obtain ⟨span, held, -⟩ := fits
    obtain ⟨⟨wide, -⟩, within⟩ := holds.covers span held
    exact ⟨span, held, .inl (by omega)⟩

/-- A container closes around its children. -/
theorem leave (watched : st.Watched source base low hold) {inner : Flow} {answer : Option Hold}
    {range : Range} (answers : inner.Answers source range.start range.stop answer)
    (kind : ContainerKind) (start : low ≤ range.start) (covers : Covers source range) :
    (st.leave inner kind range).Answers source base range.stop (answer.map Hold.passed) := by
  cases answer with
  | none =>
    intro sound
    obtain ⟨-, orderly, -⟩ := SoundBlocks.snoc_iff.mp sound
    obtain ⟨own, below⟩ := Emitted.orderlyBelow_iff.mp orderly
    exact answers ⟨own.ordered, below, fun span member => (own.inside range rfl span member).1⟩
  | some hold' =>
    obtain ⟨sound, bounded, inner_le, extent, holds, fits⟩ := answers
    have orderly : (Emitted.container kind range inner.blocks).OrderlyBelow source := by
      refine Emitted.orderlyBelow_iff.mpr ⟨⟨?_, sound.ordered, ?_⟩, sound.below⟩
      · rintro span ⟨⟩
        exact covers
      · rintro span ⟨⟩ other member
        exact ⟨sound.inside other member, bounded other member⟩
    have pushed := watched.push _ rfl start covers.1
      orderly
    refine ⟨pushed.sound, pushed.bounded, pushed.low, extent, holds, ?_⟩
    cases hold' with
    | empty => exact fits
    | clean | stranded =>
      obtain ⟨span, held, -⟩ := fits
      obtain ⟨⟨wide, -⟩, within⟩ := holds.covers span held
      refine ⟨span, held, .inr ⟨range, by simp [Flow.leave], ?_⟩⟩
      simp only [Range.Before]
      omega

theorem leaf (watched : st.Watched source base low hold) {l : Leaf} {range : Range}
    (allowed : l.allowed range .flow = true) (start : low ≤ range.start)
    (slice : (slice? source range).isSome) :
    (st.leaf source l range).Watched source base range.stop (hold.read l) := by
  have ordered := Leaf.allowed_lt (.inr rfl) allowed
  have landed := watched.landLeaf st.format (.inr rfl) allowed start slice
  cases l with
  | rule =>
    exact watched.push _ rfl start ordered
      (leaf_orderly (by rintro span ⟨⟩; exact ⟨ordered, slice⟩))
  | taskListMarker checked =>
    obtain ⟨sound, bounded, base_le, held⟩ := watched.mono (show low ≤ range.stop by omega)
    exact ⟨sound, bounded, base_le, held⟩
  | _ => exact landed

end Flow.Watched

/-- Each step of the stream moves the flow as its audit says. -/
theorem Forest.audit_answers {source : Text} (containing_dir : Text) (f : Forest)
    {context : Context} (block : context = .flow ∨ context = .items)
    (conforms : f.conforms context = true) {low high : Nat}
    (placed : f.placed source low high = true) {base : Nat} {hold : Hold} {st : Flow}
    (watched : st.Watched source base low hold) :
    (f.emit source containing_dir st).Answers source base high (f.audit hold) := by
  induction f generalizing context low high base hold st with
  | nil =>
    simp only [Forest.placed, decide_eq_true_eq] at placed
    exact watched.mono placed
  | leaf l range rest ih =>
    simp only [Forest.conforms, Bool.and_eq_true] at conforms
    simp only [Forest.placed, Bool.and_eq_true, decide_eq_true_eq] at placed
    obtain ⟨⟨start, slice⟩, tail⟩ := placed
    obtain rfl | rfl := block
    · exact ih (.inl rfl) conforms.2 tail (watched.leaf conforms.1 start slice)
    · simp [Leaf.allowed] at conforms
  | node tag range children rest inner ih =>
    simp only [Forest.placed, Bool.and_eq_true, decide_eq_true_eq] at placed
    obtain ⟨⟨⟨⟨start, ordered⟩, slice⟩, within⟩, tail⟩ := placed
    have covers : Covers source range := ⟨ordered, slice⟩
    have step {next : Flow} {answer : Option Hold} (context : Context)
        (block : context = .flow ∨ context = .items) (after : rest.conforms context = true)
        (answers : next.Answers source base range.stop answer) :
        (rest.emit source containing_dir next).Answers source base high
          (answer.bind fun hold => rest.audit hold) :=
      answers.bind _ (.emit source containing_dir rest next) fun hold _ watched =>
        ih block after tail watched
    obtain rfl | rfl := block
    · cases tag with
      | paragraph =>
        simp only [Forest.conforms, Tag.inner, Bool.and_eq_true] at conforms
        exact step _ (.inl rfl) conforms.2
          (watched.paragraph containing_dir conforms.1 within start covers)
      | heading level =>
        simp only [Forest.conforms, Tag.inner, Bool.and_eq_true] at conforms
        exact step _ (.inl rfl) conforms.2
          (watched.heading containing_dir level conforms.1 within start covers)
      | blockQuote =>
        simp only [Forest.conforms, Tag.inner, Bool.and_eq_true] at conforms
        exact step _ (.inl rfl) conforms.2 (watched.leave
          (inner (.inl rfl) conforms.1 within (watched.enter start)) .blockquote start covers)
      | codeBlock kind =>
        simp only [Forest.conforms, Tag.inner, Bool.and_eq_true] at conforms
        exact step _ (.inl rfl) conforms.2 (watched.push _ rfl start
          ordered (Flow.Watched.leaf_orderly (by rintro span ⟨⟩; exact covers)))
      | htmlBlock =>
        simp only [Forest.conforms, Tag.inner, Bool.and_eq_true] at conforms
        exact step _ (.inl rfl) conforms.2
          (watched.mono (show low ≤ range.stop by omega))
      | metadataBlock =>
        simp only [Forest.conforms, Tag.inner, Bool.and_eq_true] at conforms
        exact step _ (.inl rfl) conforms.2
          (Flow.Answers.congr
            (watched.mono (show low ≤ range.stop by omega)) rfl rfl)
      | list start_number =>
        simp only [Forest.conforms, Tag.inner, Bool.and_eq_true] at conforms
        refine step _ (.inl rfl) conforms.2 (watched.flush.bind _ ⟨_, rfl⟩ fun hold _ flushed => ?_)
        exact flushed.leave (inner (.inr rfl) conforms.1 within (flushed.enter start))
          (.list start_number.isSome) start covers
      | item => simp [Forest.conforms, Tag.inner] at conforms
      | emphasis | strong | strikethrough | link | image =>
        simp only [Forest.conforms, Tag.inner, Bool.and_eq_true] at conforms
        have alone (tag : Tag) : (node tag range children nil).placed source low range.stop = true :=
          placed_alone start ordered slice within
        refine step _ (.inl rfl) conforms.2 (Flow.Answers.congr
          (settle_answers containing_dir _ (show Context.inline.isInline = true from rfl)
            (by simp [Forest.conforms, Tag.inner, conforms.1]) (alone _) st.format watched) rfl rfl)
    · cases tag with
      | item =>
        simp only [Forest.conforms, Tag.inner, Bool.and_eq_true] at conforms
        have held := inner (.inl rfl) conforms.1 within (watched.enter start)
        exact step _ (.inr rfl) conforms.2 (watched.leave
          (held.bind _ ⟨_, rfl⟩ fun hold _ watched => watched.flush) _ start covers)
      | _ => simp [Forest.conforms, Tag.inner] at conforms

/-- The span map of a note is coherent, and splicing one of its Blocks leaves the bytes
of the others, exactly when the audit of the stream succeeds. -/
theorem parseNote_coherent_iff {source : Text} (stream : EventStream source)
    (containing_dir : Text) :
    ((parseNote source containing_dir stream.events).spans.Coherent source ∧
      (parseNote source containing_dir stream.events).spans.Isolates source) ↔
        (stream.forest.audit .empty).isSome := by
  have start : Flow.initial.Watched source 0 0 .empty :=
    ⟨⟨List.Pairwise.nil, by simp [Flow.initial], by simp [Flow.initial]⟩, by simp [Flow.initial],
      le_refl 0, none, .empty, rfl⟩
  have answers := stream.forest.audit_answers containing_dir (.inl rfl) stream.conforms
    stream.placed start
  change Flow.Answers source 0 (byteLen source) (stream.emitted containing_dir) _ at answers
  rw [parseNote_eq]
  simp only [coherent_iff]
  cases audit : stream.forest.audit .empty with
  | none =>
    rw [audit] at answers
    simp only [Option.isSome_none, Bool.false_eq_true, iff_false, not_and]
    intro coherent
    exact absurd ⟨coherent.ordered, coherent.below, fun _ _ => Nat.zero_le _⟩ answers
  | some hold =>
    rw [audit] at answers
    have coherent : CoherentBlocks source (stream.emitted containing_dir).blocks :=
      ⟨answers.sound.ordered, answers.sound.below⟩
    simpa using And.intro coherent coherent.isolates

/-- `# a ![x](y) b`, where visible text stands on both sides of an image. -/
def imageInsideHeading : EventStream "# a ![x](y) b".toList where
  forest :=
    .node (.heading 1) ⟨0, 13⟩
      (.leaf (.text "a ".toList) ⟨2, 4⟩
        (.node (.image "y".toList) ⟨4, 11⟩ (.leaf (.text "x".toList) ⟨6, 7⟩ .nil)
          (.leaf (.text " b".toList) ⟨11, 13⟩ .nil)))
      .nil
  conforms := by decide
  placed := by decide

/-- The heading claims the bytes of the image hoisted out of it. -/
theorem imageInsideHeading_not_coherent :
    ¬ (parseNote "# a ![x](y) b".toList [] imageInsideHeading.events).spans.Coherent
      "# a ![x](y) b".toList := by
  intro coherent
  have before := coherent.ordered
    ⟨[0], ⟨2, 13⟩, [⟨⟨0, 2⟩, ⟨2, 4⟩, true⟩, ⟨⟨2, 4⟩, ⟨11, 13⟩, true⟩], 4, []⟩ (by decide)
    ⟨[1], ⟨4, 11⟩, [⟨⟨0, 1⟩, ⟨4, 11⟩, false⟩], 1, []⟩ (by decide) [] 0 1 rfl rfl (by decide)
  exact absurd before (by decide)

end Burlmd.Markdown
