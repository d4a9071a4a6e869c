import Burlmd.Markdown.SpanFidelity

/-!
# Blocks without a range

Only a heading that images leave without any text has no range, and its images stand behind it. So
no container holds Blocks without a range alone.
-/

namespace Burlmd.Markdown

open Utf8

/-- A list of blocks with one that has no range has one that does. -/
def Attends (blocks : List Emitted) : Prop :=
  ∀ block ∈ blocks, block.source? = none → ∃ other ∈ blocks, other.source?.isSome

/-- Every container at or below a block attends to what it holds. -/
inductive Emitted.Attended : Emitted → Prop
  | leaf (node : AstNode) (source : Option Range) (runs : List InlineRun) :
      Attended (.leaf node source runs)
  | container {kind : ContainerKind} {source : Range} {children : List Emitted}
      (attends : Attends children) (each : ∀ child ∈ children, child.Attended) :
      Attended (.container kind source children)

theorem attends_of_registered {blocks : List Emitted}
    (registered : ∀ block ∈ blocks, block.source?.isSome) : Attends blocks := by
  intro block member none_
  exact ⟨block, member, registered block member⟩

theorem Attends.append {first second : List Emitted} (attends : Attends first)
    (attends' : Attends second) : Attends (first ++ second) := by
  intro block member none_
  rcases List.mem_append.mp member with ahead | behind
  · rcases attends block ahead none_ with ⟨other, other_member, registered⟩
    exact ⟨other, List.mem_append_left _ other_member, registered⟩
  · rcases attends' block behind none_ with ⟨other, other_member, registered⟩
    exact ⟨other, List.mem_append_right _ other_member, registered⟩

theorem Emitted.Sealed.attended : ∀ {block : Emitted}, block.Sealed → block.Attended
  | .leaf node source runs, _ => .leaf node source runs
  | .container _ _ children, sealed_ => by
    have inner := sealedAll_iff.mp sealed_
    refine .container (attends_of_registered fun child member => (inner child member).1) ?_
    intro child member
    have smaller := List.sizeOf_lt_of_mem member
    exact (inner child member).2.attended
termination_by block => sizeOf block

/-- What a flow has attached so far attends to itself. -/
structure Flow.Attended (st : Flow) : Prop where
  attends : Attends st.blocks
  each : ∀ block ∈ st.blocks, block.Attended

namespace Flow.Attended

variable {source : Text} (containing_dir : Text) {low high : Nat} {st : Flow}

theorem initial : Flow.initial.Attended := ⟨List.forall_mem_nil _, List.forall_mem_nil _⟩

theorem enter : st.enter.Attended := ⟨List.forall_mem_nil _, List.forall_mem_nil _⟩

theorem more (attended : st.Attended) {st' : Flow} {blocks : List Emitted}
    (whole : st'.blocks = st.blocks ++ blocks) (attends : Attends blocks)
    (each : ∀ block ∈ blocks, block.Attended) : st'.Attended := by
  constructor
  · rw [whole]
    exact attended.attends.append attends
  · rw [whole, List.forall_mem_append]
    exact ⟨attended.each, each⟩

/-- Blocks that are registered and sealed attend to themselves. -/
theorem good (attended : st.Attended) {st' : Flow} {blocks : List Emitted}
    (whole : st'.blocks = st.blocks ++ blocks) (each : ∀ block ∈ blocks, block.Good true) :
    st'.Attended := by
  apply attended.more whole
  · exact attends_of_registered fun block member => (each block member).1 rfl
  · exact fun block member => (each block member).2.attended

theorem flush (attended : st.Attended) (laid : st.Laid source low high) : st.flush.Attended :=
  attended.good rfl (Flow.Good.flush_good true laid.pending)

theorem land (attended : st.Attended) (laid : st.Laid source low high) {atoms : List Atom}
    {high' : Nat} (placed : AtomsPlaced source high atoms high') :
    (atoms.foldl Flow.land st).Attended := by
  induction atoms generalizing st high with
  | nil => exact attended
  | cons atom rest ih =>
    cases atom with
    | element shown chars range interpolable =>
      rcases placed with ⟨start, ordered, _, count, positive, exact_, tail⟩
      have kept : (st.land (.element shown chars range interpolable)).Attended :=
        ⟨attended.attends, attended.each⟩
      exact ih kept (laid.landElement start ordered count positive exact_) tail
    | image image =>
      refine ih ?_ (laid.landImage placed.1) placed.2.2
      apply (attended.flush laid).good rfl
      intro block member
      rw [List.mem_singleton.mp member]
      exact ⟨fun _ => rfl, trivial⟩

theorem leaf (attended : st.Attended) (laid : st.Laid source 0 low) {l : Leaf} {range : Range}
    (allowed : l.allowed range .flow = true) (start : low ≤ range.start)
    (slice : (slice? source range).isSome) : (st.leaf source l range).Attended := by
  have landed := attended.land laid
    (Forest.leafAtoms_placed source st.format (.inr rfl) allowed start slice
      (Nat.le_refl _))
  cases l with
  | rule =>
    apply attended.good rfl
    intro block member
    rw [List.mem_singleton.mp member]
    exact ⟨fun _ => rfl, trivial⟩
  | taskListMarker checked => exact ⟨attended.attends, attended.each⟩
  | text _ | code _ | softBreak | hardBreak | html _ | inlineHtml _ => exact landed

theorem bare (attended : st.Attended) (laid : st.Laid source 0 low) {f : Forest}
    (conforms : f.conforms .inline = true) (placed : f.placed source low high = true) :
    (st.bare source containing_dir f).Attended := by
  have landed := attended.land laid
    (f.atoms_placed source containing_dir rfl conforms placed st.format)
  exact ⟨landed.attends, landed.each⟩

theorem paragraph (attended : st.Attended) (laid : st.Laid source 0 high) {range : Range}
    {children : Forest} (conforms : children.conforms .paragraph = true)
    (placed : children.placed source range.start range.stop = true) :
    (st.paragraph source containing_dir range children).Attended := by
  have cleared : ({ st with pending := .empty } : Flow).Laid source range.start range.start :=
    ⟨Pending.Laid.empty (Nat.le_refl _), laid.blocks⟩
  have unchanged : ({ st with pending := .empty } : Flow).Attended :=
    ⟨attended.attends, attended.each⟩
  have atoms := children.atoms_placed source containing_dir rfl conforms placed st.format
  have landed := cleared.land atoms
  apply (unchanged.land cleared atoms).good rfl
  by_cases images : (children.atoms source containing_dir st.format).any Atom.isImage = true
  · rw [Flow.tagSource, if_pos images]
    exact Flow.Good.flush_good true landed.pending
  · rw [Flow.tagSource, if_neg images]
    exact Flow.Good.paragraph_good rfl

/-- A heading without a range has images behind it. -/
theorem heading (attended : st.Attended) (level : Nat) (range : Range) (children : Forest) :
    (st.heading source containing_dir level range children).Attended := by
  apply attended.more rfl
  · intro block member none_
    rcases List.mem_cons.mp member with same | image
    · rw [same] at none_
      have images : (children.atoms source containing_dir st.format).any Atom.isImage = true := by
        apply Decidable.by_contra
        intro no_image
        rw [Emitted.source?_leaf, Flow.tagSource, if_neg no_image] at none_
        cases none_
      have some_ := (Flow.any_isImage_iff _).mp images
      rcases List.exists_mem_of_ne_nil _ some_ with ⟨image, member'⟩
      exact ⟨image.emitted, List.mem_cons_of_mem _ (List.mem_map_of_mem member'), rfl⟩
    · rcases List.mem_map.mp image with ⟨image, -, same⟩
      rw [← same] at none_
      cases none_
  · intro block member
    rcases List.mem_cons.mp member with same | image
    · rw [same]
      exact .leaf _ _ _
    · rcases List.mem_map.mp image with ⟨image, -, same⟩
      rw [← same]
      exact .leaf _ _ _

theorem leave (attended : st.Attended) {inner : Flow} (inside : inner.Attended)
    (kind : ContainerKind) (range : Range) : (st.leave inner kind range).Attended := by
  apply attended.more rfl
  · apply attends_of_registered
    intro block member
    rw [List.mem_singleton.mp member]
    rfl
  · intro block member
    rw [List.mem_singleton.mp member]
    exact .container inside.attends inside.each

end Flow.Attended

theorem Forest.emit_attended {source : Text} (containing_dir : Text) (f : Forest)
    {context : Context} (block : context = .flow ∨ context = .items)
    (conforms : f.conforms context = true) {low high : Nat}
    (placed : f.placed source low high = true) {st : Flow} (laid : st.Laid source 0 low)
    (attended : st.Attended) : (f.emit source containing_dir st).Attended := by
  induction f generalizing context low high st with
  | nil => exact attended
  | leaf l range rest ih =>
    simp only [Forest.conforms, Bool.and_eq_true] at conforms
    simp only [Forest.placed, Bool.and_eq_true, decide_eq_true_eq] at placed
    rcases placed with ⟨⟨start, slice⟩, tail⟩
    refine ih block conforms.2 tail (laid.leaf block conforms.1 start slice) ?_
    rcases block with flow | items
    · subst flow
      exact attended.leaf laid conforms.1 start slice
    · subst items
      simp [Leaf.allowed] at conforms
  | node tag range children rest inner ih =>
    simp only [Forest.placed, Bool.and_eq_true, decide_eq_true_eq] at placed
    rcases placed with ⟨⟨⟨⟨start, ordered⟩, slice⟩, nested⟩, tail⟩
    have entered : st.enter.Laid source 0 range.start := laid.enter.mono start
    rcases block with flow | items
    · subst flow
      cases tag with
      | paragraph =>
        simp only [Forest.conforms, Tag.inner, Bool.and_eq_true] at conforms
        exact ih (.inl rfl) conforms.2 tail
          (laid.paragraph containing_dir conforms.1 nested)
          (attended.paragraph containing_dir laid conforms.1 nested)
      | heading level =>
        simp only [Forest.conforms, Tag.inner, Bool.and_eq_true] at conforms
        exact ih (.inl rfl) conforms.2 tail
          (laid.heading containing_dir level conforms.1 nested)
          (attended.heading containing_dir level range children)
      | blockQuote =>
        simp only [Forest.conforms, Tag.inner, Bool.and_eq_true] at conforms
        have within := children.emit_laid containing_dir (.inl rfl) conforms.1 nested entered
        exact ih (.inl rfl) conforms.2 tail (laid.leave within .blockquote ordered)
          (attended.leave (inner (.inl rfl) conforms.1 nested entered .enter) _ _)
      | codeBlock kind =>
        simp only [Forest.conforms, Tag.inner, Bool.and_eq_true] at conforms
        refine ih (.inl rfl) conforms.2 tail
          (laid.codeBlock kind start ordered conforms.1 nested) ?_
        apply attended.good rfl
        intro block member
        rw [List.mem_singleton.mp member]
        exact ⟨fun _ => rfl, trivial⟩
      | htmlBlock | metadataBlock =>
        simp only [Forest.conforms, Tag.inner, Bool.and_eq_true] at conforms
        exact ih (.inl rfl) conforms.2 tail ⟨laid.pending.mono (by omega), laid.blocks⟩
          ⟨attended.attends, attended.each⟩
      | list start_number =>
        simp only [Forest.conforms, Tag.inner, Bool.and_eq_true] at conforms
        have flushed := laid.flush.enter.mono start
        have within := children.emit_laid containing_dir (.inr rfl) conforms.1 nested flushed
        exact ih (.inl rfl) conforms.2 tail (laid.flush.leave within _ ordered)
          ((attended.flush laid).leave
            (inner (.inr rfl) conforms.1 nested flushed .enter) _ _)
      | item => simp [Forest.conforms, Tag.inner] at conforms
      | emphasis | strong | strikethrough | link | image =>
        simp only [Forest.conforms, Tag.inner, Bool.and_eq_true] at conforms
        have alone (tag : Tag) : (node tag range children nil).placed source low range.stop = true :=
          placed_alone start ordered slice nested
        exact ih (.inl rfl) conforms.2 tail
          (laid.bare containing_dir (by simp [Forest.conforms, Tag.inner, conforms.1]) (alone _))
          (attended.bare containing_dir laid
            (by simp [Forest.conforms, Tag.inner, conforms.1]) (alone _))
    · subst items
      cases tag with
      | item =>
        simp only [Forest.conforms, Tag.inner, Bool.and_eq_true] at conforms
        have within := children.emit_laid containing_dir (.inl rfl) conforms.1 nested entered
        exact ih (.inr rfl) conforms.2 tail (laid.leave within.flush _ ordered)
          (attended.leave
            ((inner (.inl rfl) conforms.1 nested entered .enter).flush within) _ _)
      | _ => simp [Forest.conforms, Tag.inner] at conforms

/-- Every container of a Note attends to what it holds. -/
theorem EventStream.emitted_attended {source : Text} (stream : EventStream source)
    (containing_dir : Text) : (stream.emitted containing_dir).Attended :=
  stream.forest.emit_attended containing_dir (.inl rfl) stream.conforms stream.placed
    ⟨Pending.Laid.empty (Nat.le_refl 0), List.forall_mem_nil _⟩ .initial

end Burlmd.Markdown
