import Mathlib.Data.List.Basic
import Mathlib.Tactic.Common
import Burlmd.Markdown.SpanOrder

/-!
# The audit decides coherence

Each construct of a stream moves the flow as the audit says. The whole document then
yields a coherent span map exactly when its audit succeeds.
-/

namespace Burlmd.Markdown

open Utf8

/-! ## Images -/

theorem sources_images (images : List Image) :
    sources (images.map Image.emitted) = images.map Image.source := by
  induction images with
  | nil => rfl
  | cons image rest ih => simp [Image.emitted, ih]

namespace Forest

variable {source : Text}

/-- The images of inline content follow one another unless one holds another. -/
theorem hoisted_pairwise_iff (f : Forest) {low high : Nat}
    (placed : f.placed source low high = true) :
    (f.hoisted.map Image.source).Pairwise Range.Before ↔ f.nests = false := by
  induction f generalizing low high with
  | nil => simp [hoisted, nests]
  | leaf l range rest ih =>
    simp only [Forest.placed, Bool.and_eq_true] at placed
    exact ih placed.2
  | node tag range children rest inner ih =>
    simp only [Forest.placed, Bool.and_eq_true, decide_eq_true_eq] at placed
    obtain ⟨⟨⟨⟨start, ordered⟩, slice⟩, within⟩, tail⟩ := placed
    have below := hoisted_placed source children within
    have after := hoisted_placed source rest tail
    have apart : ∀ first ∈ children.hoisted, ∀ second ∈ rest.hoisted,
        first.source.Before second.source := fun first member second member' =>
      Nat.le_trans (below first member).2.2.2 (after second member').2.2.1
    cases tag with
    | image url =>
      have self : ∀ second ∈ rest.hoisted, range.Before second.source :=
        fun second member => (after second member).2.2.1
      by_cases empty : children.hoisted = []
      · simpa [hoisted, nests, empty, List.pairwise_cons, ih tail] using fun _ => self
      · obtain ⟨image, member⟩ := List.exists_mem_of_ne_nil _ empty
        have inside := below image member
        have bad : ¬ ((node (.image url) range children rest).hoisted.map
            Image.source).Pairwise Range.Before := by
          intro pairs
          rw [hoisted, List.map_append, List.pairwise_append] at pairs
          have := pairs.2.2 _ (List.mem_map.mpr ⟨image, member, rfl⟩) range (by simp)
          simp only [Range.Before] at this
          omega
        simpa [nests, empty] using bad
    | _ =>
      simp only [hoisted, nests, List.map_append, List.pairwise_append, inner within, ih tail,
        Bool.or_eq_false_iff]
      simpa using fun _ _ => apart

theorem settle_imageless (f : Forest) {context : Context} (inline : context.isInline = true)
    (conforms : f.conforms context = true) (none_ : f.hoisted = []) (hold : Hold) :
    f.settle hold = some (if f.ownText = [] then hold else hold.shown) := by
  have twice (hold : Hold) : hold.shown.shown = hold.shown := by cases hold <;> rfl
  induction f generalizing context hold with
  | nil => simp [settle, ownText]
  | leaf l range rest ih =>
    simp only [Forest.conforms, Bool.and_eq_true] at conforms
    rw [settle, ih inline conforms.2 none_]
    by_cases own : l.rendered = [] <;> by_cases after : rest.ownText = [] <;>
      simp [ownText, own, after, twice]
  | node tag range children rest inner ih =>
    obtain ⟨shape, within, after⟩ := conforms_inline_node inline conforms
    obtain isFormat | ⟨url, rfl | rfl⟩ := shape
    · have both : children.hoisted = [] ∧ rest.hoisted = [] := by
        cases tag <;> simp only [Tag.isFormat, Bool.false_eq_true] at isFormat <;>
          simpa [hoisted] using none_
      have joined : (if rest.ownText = [] then (if children.ownText = [] then hold else hold.shown)
          else (if children.ownText = [] then hold else hold.shown).shown) =
            if children.ownText ++ rest.ownText = [] then hold else hold.shown := by
        by_cases own : children.ownText = [] <;> by_cases later : rest.ownText = [] <;>
          simp [own, later, twice]
      cases tag <;> simp only [Tag.isFormat, Bool.false_eq_true] at isFormat <;>
        simpa [settle, ownText, inner rfl within both.1, ih inline after both.2] using joined
    · have both : children.hoisted = [] ∧ rest.hoisted = [] := by simpa [hoisted] using none_
      have plain : children.nests = false := by
        have nests_of (f : Forest) (none_ : f.hoisted = []) : f.nests = false := by
          induction f with
          | nil => rfl
          | leaf l range rest ih => exact ih none_
          | node tag range children rest inner ih =>
            cases tag <;> simp_all [hoisted, nests]
        exact nests_of children both.1
      simp only [settle, plain, both.1, if_true, Bool.false_eq_true, if_false, Option.bind_some,
        ih inline after both.2, ownText]
      by_cases own : children.ownText = [] <;> by_cases later : rest.ownText = [] <;>
        simp [own, later, twice]
    · simp [hoisted] at none_

end Forest

namespace Flow.Watched

variable {source : Text} {base low high : Nat} {hold : Hold} {st : Flow}

/-- The images of inline content, each attached past the last. -/
theorem pushImages (watched : st.Watched source base low .empty) {images : List Image}
    (pairs : (images.map Image.source).Pairwise Range.Before) (le : low ≤ high)
    (each : ∀ image ∈ images, Covers source image.source ∧ low ≤ image.source.start ∧
      image.source.stop ≤ high) :
    (st.push (images.map Image.emitted)).Watched source base high .empty := by
  induction images generalizing st low with
  | nil => simpa [Flow.push] using watched.mono le
  | cons image rest ih =>
    obtain ⟨covers, start, stop⟩ := each image (by simp)
    rw [List.map_cons, List.pairwise_cons] at pairs
    have one := watched.push image.emitted rfl start covers.1
      (leaf_orderly (by rintro span ⟨⟩; exact covers))
    have all := ih one pairs.2 stop fun other member =>
      ⟨(each other (by simp [member])).1,
        pairs.1 _ (List.mem_map.mpr ⟨other, member, rfl⟩), (each other (by simp [member])).2.2⟩
    simpa [Flow.push] using all

theorem foldl_images (st : Flow) {images : List Image} (some_ : images ≠ []) :
    (images.map Atom.image).foldl Flow.land st = st.flush.push (images.map Image.emitted) := by
  have settled (st : Flow) (images : List Image) (nothing : st.pending = .empty) :
      (images.map Atom.image).foldl Flow.land st = st.push (images.map Image.emitted) := by
    induction images generalizing st with
    | nil => simp [Flow.push]
    | cons image rest ih =>
      rw [List.map_cons, List.foldl_cons, ih _ (by rfl)]
      simp [Flow.land, Flow.flush, Flow.push, nothing, Pending.flush, Pending.paragraph,
        Pending.empty]
  cases images with
  | nil => simp at some_
  | cons image rest =>
    rw [List.map_cons, List.foldl_cons, settled _ _ rfl]
    simp [Flow.land, Flow.push]

/-- Images flush the waiting content and become blocks of the container. -/
theorem landImages (watched : st.Watched source base low hold) {images : List Image}
    (some_ : images ≠ []) (pairs : (images.map Image.source).Pairwise Range.Before)
    (le : low ≤ high) (each : ∀ image ∈ images, Covers source image.source ∧
      low ≤ image.source.start ∧ image.source.stop ≤ high) :
    ((images.map Atom.image).foldl Flow.land st).Answers source base high hold.flush := by
  rw [foldl_images st some_]
  have flushed := watched.flush.bind some ⟨_, rfl⟩ fun hold' given flushed => by
      obtain rfl : hold' = .empty := by cases hold <;> simp_all [Hold.flush]
      exact flushed.pushImages pairs le each
  simpa using flushed

variable (source base st) in
/-- An image inside an image is attached before the one around it. -/
theorem landNested {images : List Image} (some_ : images ≠ [])
    (crossed : ¬ (images.map Image.source).Pairwise Range.Before) :
    ¬ SoundBlocks source base ((images.map Atom.image).foldl Flow.land st).blocks := by
  rw [foldl_images st some_]
  intro sound
  have ordered := sound.ordered
  rw [Flow.push, Ordered, sources_append, List.pairwise_append, sources_images] at ordered
  exact crossed ordered.2.1

theorem landLeaf (watched : st.Watched source base low hold) (state : FormatState) {l : Leaf}
    {range : Range} {context : Context} (inline : context.isInline = true ∨ context = .flow)
    (allowed : l.allowed range context = true) (start : low ≤ range.start)
    (slice : (slice? source range).isSome) :
    ((Forest.leafAtoms source state l range).foldl Flow.land st).Watched source base range.stop
      (if l.rendered = [] then hold else hold.shown) := by
  have ordered := Leaf.allowed_lt inline allowed
  cases shown : l.shown? with
  | none =>
    have silent : l.rendered = [] := by simp [Leaf.rendered, shown]
    simpa [Forest.leafAtoms, shown, silent] using watched.mono (show low ≤ range.stop by omega)
  | some content =>
    have visible := Leaf.shown_ne_nil inline allowed shown
    have loud : l.rendered ≠ [] := by simpa [Leaf.rendered, shown] using visible
    simp only [Forest.leafAtoms, shown, Option.toList_some, List.map_cons, List.map_nil,
      List.foldl_cons, List.foldl_nil, loud, if_false]
    exact watched.landElement _ _ ⟨ordered, slice⟩ start (List.length_pos_of_ne_nil visible)

end Flow.Watched

/-! ## Inline content -/

theorem Forest.settle_answers {source : Text} (containing_dir : Text) (f : Forest)
    {context : Context} (inline : context.isInline = true)
    (conforms : f.conforms context = true) {low high : Nat}
    (placed : f.placed source low high = true) (state : FormatState) {base : Nat} {hold : Hold}
    {st : Flow} (watched : st.Watched source base low hold) :
    ((f.atoms source containing_dir state).foldl Flow.land st).Answers source base high
      (f.settle hold) := by
  induction f generalizing context low high state hold st with
  | nil =>
    simp only [Forest.placed, decide_eq_true_eq] at placed
    exact watched.mono placed
  | leaf l range rest ih =>
    simp only [Forest.conforms, Bool.and_eq_true] at conforms
    simp only [Forest.placed, Bool.and_eq_true, decide_eq_true_eq] at placed
    obtain ⟨⟨start, slice⟩, tail⟩ := placed
    rw [atoms, List.foldl_append, settle]
    exact ih inline conforms.2 tail state
      (watched.landLeaf state (.inl inline) conforms.1 start slice)
  | node tag range children rest inner ih =>
    obtain ⟨shape, within, after⟩ := conforms_inline_node inline conforms
    simp only [Forest.placed, Bool.and_eq_true, decide_eq_true_eq] at placed
    obtain ⟨⟨⟨⟨start, ordered⟩, slice⟩, nested⟩, tail⟩ := placed
    have covers : Covers source range := ⟨ordered, slice⟩
    -- the atoms of this node, then those of the rest of the forest
    have step {answer : Option Hold} {here : List Atom} (state : FormatState)
        (answers : (here.foldl Flow.land st).Answers source base range.stop answer) :
        ((here ++ rest.atoms source containing_dir state).foldl Flow.land st).Answers source base
          high (answer.bind fun hold => rest.settle hold) := by
      rw [List.foldl_append]
      exact answers.bind _ (.landAll _ _) fun hold _ watched => ih inline after tail state watched
    have inside (image : Image) (member : image ∈ children.hoisted) :
        Covers source image.source ∧ low ≤ image.source.start ∧ image.source.stop ≤ range.stop := by
      obtain ⟨wide, slices, first, last⟩ := hoisted_placed source children nested image member
      exact ⟨⟨wide, slices⟩, by omega, last⟩
    obtain isFormat | ⟨url, rfl | rfl⟩ := shape
    · have here := inner rfl within nested (tag.enter state) (watched.mono start)
      have next := step (tag.leave (children.format (tag.enter state))) here
      cases tag <;> simp only [Tag.isFormat, Bool.false_eq_true] at isFormat <;>
        simpa [atoms, settle] using next
    · refine step _ ?_
      have pairs := children.hoisted_pairwise_iff nested
      rw [List.foldl_append]
      by_cases crossed : children.nests = true
      · have some_ : children.hoisted ≠ [] := by
          intro none_
          simp [none_, crossed] at pairs
        have broken := Flow.Watched.landNested source base st some_ (by rw [pairs, crossed]; simp)
        obtain ⟨more, blocks⟩ := Flow.Extends.landAll
          ((children.hoisted.map Atom.image).foldl Flow.land st)
          (children.linkAtoms containing_dir state url range)
        simp only [crossed, if_true]
        intro sound
        change SoundBlocks source base (List.foldl Flow.land _ _).blocks at sound
        rw [blocks] at sound
        exact broken sound.of_append
      · simp only [Bool.not_eq_true] at crossed
        have ordered_images := pairs.mpr crossed
        simp only [crossed, Bool.false_eq_true, if_false]
        by_cases none_ : children.hoisted = []
        · simp only [none_, List.map_nil, List.foldl_nil, if_true]
          by_cases silent : children.ownText = []
          · simp only [linkAtoms, silent, if_true, List.foldl_nil]
            exact watched.mono (by omega)
          · simp only [linkAtoms, silent, if_false, List.foldl_cons, List.foldl_nil]
            exact watched.landElement _ _ covers start (List.length_pos_of_ne_nil silent)
        · simp only [none_, if_false]
          have landed := watched.landImages none_ ordered_images (show low ≤ range.stop by omega)
            inside
          rw [Option.map_eq_bind]
          refine landed.bind _ (.landAll _ _) fun hold' given flushed => ?_
          obtain rfl : hold' = .empty := by cases hold <;> simp_all [Hold.flush]
          by_cases silent : children.ownText = []
          · simpa [linkAtoms, silent, Flow.Answers] using flushed
          · simp only [linkAtoms, silent, if_false, List.foldl_cons, List.foldl_nil]
            obtain ⟨image, member⟩ := List.exists_mem_of_ne_nil _ none_
            have bounds := hoisted_placed source children nested image member
            refine flushed.landAround _ _ covers (le_refl _) image.source ?_
              (by omega) (List.length_pos_of_ne_nil silent)
            rw [Flow.Watched.foldl_images st none_, Flow.push, sources_append, sources_images]
            exact List.mem_append_right _ (List.mem_map.mpr ⟨image, member, rfl⟩)
    · refine step _ ?_
      have alone : (node (.image url) range children nil).placed source low range.stop = true :=
        placed_alone start ordered slice nested
      have pairs := (node (.image url) range children nil).hoisted_pairwise_iff alone
      by_cases none_ : children.hoisted = []
      · simp only [none_, if_true]
        refine watched.landImages (by simp) ?_ (show low ≤ range.stop by omega) ?_
        · simp
        · simpa using And.intro covers start
      · simp only [none_, if_false]
        refine Flow.Watched.landNested source base st (by simp) fun ordered_images => ?_
        simp [hoisted, nests, none_] at pairs
        exact pairs (by simpa using ordered_images)

/-! ## Paragraphs -/

theorem blocks_imageless (st : Flow) {atoms : List Atom} (none_ : atoms.any Atom.isImage = false) :
    (atoms.foldl Flow.land st).blocks = st.blocks := by
  induction atoms generalizing st with
  | nil => rfl
  | cons atom rest ih =>
    cases atom with
    | element => exact ih _ (by simpa [Atom.isImage] using none_)
    | image => simp [Atom.isImage] at none_

theorem hoisted_eq_nil_iff (source containing_dir : Text) (f : Forest) (state : FormatState) :
    (f.atoms source containing_dir state).any Atom.isImage = false ↔ f.hoisted = [] := by
  have images := Flow.any_isImage_iff (f.atoms source containing_dir state)
  rw [Flow.imagesOf_atoms] at images
  by_cases none_ : f.hoisted = [] <;> simp_all

namespace Flow.Watched

variable {source : Text} {base low high : Nat} {hold : Hold} {st : Flow}

theorem paragraph (watched : st.Watched source base low hold) (containing_dir : Text)
    {range : Range} {children : Forest} (conforms : children.conforms .paragraph = true)
    (placed : children.placed source range.start range.stop = true) (start : low ≤ range.start)
    (covers : Covers source range) :
    (st.paragraph source containing_dir range children).Answers source base range.stop
      ((children.settle .empty).bind Hold.flush) := by
  have low_le := watched.low
  have cleared : ({ st with pending := .empty } : Flow).Watched source base range.start .empty :=
    ⟨watched.sound, fun span member => Nat.le_trans (watched.bounded span member) start,
      by omega, none, .empty, rfl⟩
  have landed := children.settle_answers containing_dir rfl conforms placed st.format cleared
  by_cases images : (children.atoms source containing_dir st.format).any Atom.isImage = true
  · refine (landed.bind _ ⟨_, rfl⟩ fun _ _ watched => watched.flush).congr
      ?_ rfl
    simp [Flow.paragraph, Flow.tagSource, images, Flow.flush, Pending.flush]
  · simp only [Bool.not_eq_true] at images
    have none_ := (hoisted_eq_nil_iff source containing_dir children st.format).mp images
    have blocks := blocks_imageless { st with pending := .empty } images
    rw [children.settle_imageless rfl conforms none_] at landed ⊢
    have flushed : (Hold.flush (if children.ownText = [] then .empty else Hold.empty.shown)) =
        some .empty := by
      by_cases silent : children.ownText = [] <;> simp [silent, Hold.shown, Hold.flush]
    rw [Option.bind_some, flushed]
    have wide := covers.1
    have attached (pending : Pending) :
        SoundBlocks source base (st.blocks ++ pending.paragraph (some range)) ∧
          ∀ span ∈ sources (st.blocks ++ pending.paragraph (some range)),
            span.stop ≤ range.stop := by
      by_cases nothing : pending.inlines = []
      · rw [Pending.paragraph, if_pos nothing, List.append_nil]
        refine ⟨watched.sound, fun span member => ?_⟩
        have := watched.bounded span member
        omega
      · rw [Pending.paragraph, if_neg nothing]
        have pushed := watched.push (.leaf (.paragraph (processInlines pending.inlines))
          (some range) pending.runs.runs) rfl start covers.1
          (leaf_orderly (by rintro span ⟨⟩; exact covers))
        exact ⟨pushed.sound, pushed.bounded⟩
    obtain ⟨sound, bounded⟩ := attached ((children.atoms source containing_dir st.format).foldl
      Flow.land { st with pending := .empty }).pending
    have shape : (st.paragraph source containing_dir range children).blocks =
        st.blocks ++ ((children.atoms source containing_dir st.format).foldl Flow.land
          { st with pending := .empty }).pending.paragraph (some range) := by
      rw [Flow.paragraph]
      simp only [Flow.tagSource, images, Bool.false_eq_true, if_false, blocks]
    exact ⟨shape ▸ sound, shape ▸ bounded, by omega, none, .empty, rfl⟩

end Flow.Watched

/-! ## Headings -/

def Atom.shownAt : Atom → Option Range
  | element _ _ range _ => some range
  | image _ => none

/-- The ranges of the visible elements among atoms. -/
def shownRanges (atoms : List Atom) : List Range := atoms.filterMap Atom.shownAt

@[simp] theorem shownRanges_nil : shownRanges [] = [] := rfl

@[simp] theorem shownRanges_element (shown : InlineElement) (chars : Nat) (range : Range)
    (interpolable : Bool) (rest : List Atom) :
    shownRanges (.element shown chars range interpolable :: rest) = range :: shownRanges rest := rfl

@[simp] theorem shownRanges_image (image : Image) (rest : List Atom) :
    shownRanges (.image image :: rest) = shownRanges rest := rfl

@[simp] theorem shownRanges_append (first second : List Atom) :
    shownRanges (first ++ second) = shownRanges first ++ shownRanges second := by
  simp [shownRanges]

@[simp] theorem shownRanges_images (images : List Image) :
    shownRanges (images.map Atom.image) = [] := by
  induction images with
  | nil => rfl
  | cons image rest ih => simpa using ih

theorem AtomsPlaced.shown {source : Text} {atoms : List Atom} {low high : Nat}
    (placed : AtomsPlaced source low atoms high) :
    ∀ range ∈ shownRanges atoms, low ≤ range.start ∧ range.start < range.stop ∧
      range.stop ≤ high := by
  induction atoms generalizing low with
  | nil => simp
  | cons atom rest ih =>
    cases atom with
    | element shown chars own interpolable =>
      obtain ⟨start, ordered, -, -, -, -, tail⟩ := placed
      have upTo := tail.le
      intro range member
      rw [shownRanges_element, List.mem_cons] at member
      obtain rfl | member := member
      · exact ⟨start, ordered, upTo⟩
      · obtain ⟨first, wide, last⟩ := ih tail range member
        exact ⟨by omega, wide, last⟩
    | image => simpa using ih placed.2.2

theorem pushAtoms_runs {source : Text} {atoms : List Atom} {low high : Nat}
    (placed : AtomsPlaced source low atoms high) (pending : Pending) :
    (atoms.foldl Pending.push pending).runs.runs.map InlineRun.source =
      pending.runs.runs.map InlineRun.source ++ shownRanges atoms := by
  induction atoms generalizing pending low with
  | nil => simp
  | cons atom rest ih =>
    cases atom with
    | element shown chars own interpolable =>
      obtain ⟨-, -, -, -, positive, -, tail⟩ := placed
      rw [List.foldl_cons, ih tail]
      simp [Pending.push, RunAccum.push, Nat.ne_of_gt positive]
    | image =>
      rw [List.foldl_cons, ih placed.2.2]
      simp [Pending.push]

theorem pushAtoms_holds {source : Text} {atoms : List Atom} {low high : Nat}
    (placed : AtomsPlaced source low atoms high) {pending : Pending} {extent : Option Range}
    (holds : pending.Holds source low extent) :
    ∃ extent, (atoms.foldl Pending.push pending).Holds source high extent := by
  induction atoms generalizing pending low extent with
  | nil => exact ⟨extent, holds.mono placed⟩
  | cons atom rest ih =>
    cases atom with
    | element shown chars own interpolable =>
      obtain ⟨start, ordered, slice, -, positive, -, tail⟩ := placed
      exact ih tail (holds.push shown interpolable ⟨ordered, slice⟩ (by omega) positive)
    | image => exact ih placed.2.2 holds

/-- A range ends before an offset when all runs in it do. -/
theorem InOrder.stop_le_iff {runs : List InlineRun} {low high offset : Nat}
    (order : InOrder low runs high) {span : Range} (extent : runExtent runs = some span) :
    span.stop ≤ offset ↔ ∀ range ∈ runs.map InlineRun.source, range.stop ≤ offset := by
  obtain ⟨-, -, within⟩ := order.extent extent
  have upTo (low : Nat) (runs : List InlineRun) (within : InOrder low runs span.stop) :
      ∀ run ∈ runs, run.source.stop ≤ span.stop := by
    induction runs generalizing low with
    | nil => simp
    | cons head rest ih =>
      have := within.2.2.le
      simpa [this] using ih _ within.2.2
  constructor
  · intro le range member
    obtain ⟨run, held, rfl⟩ := List.mem_map.mp member
    exact Nat.le_trans (upTo _ runs within run held) le
  · intro each
    cases last : runs.getLast? with
    | none => cases runs <;> simp [runExtent, last] at extent
    | some run =>
      have stop : span.stop = run.source.stop := by
        cases runs with
        | nil => simp at last
        | cons head rest =>
          simp only [runExtent, List.head?_cons, last, Option.some.injEq] at extent
          rw [← extent]
      rw [stop]
      exact each _ (List.mem_map.mpr ⟨run, List.mem_of_getLast? last, rfl⟩)

namespace Forest

variable {source : Text} (containing_dir : Text)

variable (source) in
theorem shownRanges_eq_nil_iff (f : Forest) {context : Context}
    (inline : context.isInline = true) (conforms : f.conforms context = true)
    (state : FormatState) :
    shownRanges (f.atoms source containing_dir state) = [] ↔ f.ownText = [] := by
  induction f generalizing context state with
  | nil => simp [atoms, ownText, shownRanges]
  | leaf l range rest ih =>
    simp only [Forest.conforms, Bool.and_eq_true] at conforms
    rw [atoms, ownText, shownRanges_append, List.append_eq_nil_iff, ih inline conforms.2,
      List.append_eq_nil_iff]
    refine and_congr_left fun _ => ?_
    cases shown : l.shown? with
    | none => simp [leafAtoms, shown, Leaf.rendered, shownRanges]
    | some content =>
      have visible := Leaf.shown_ne_nil (.inl inline) conforms.1 shown
      simp [leafAtoms, shown, Leaf.rendered, shownRanges, Atom.shownAt, visible]
  | node tag range children rest inner ih =>
    obtain ⟨shape, within, after⟩ := conforms_inline_node inline conforms
    obtain isFormat | ⟨url, rfl | rfl⟩ := shape
    · cases tag <;> simp only [Tag.isFormat, Bool.false_eq_true] at isFormat <;>
        simp [atoms, ownText, inner rfl within, ih inline after]
    · by_cases silent : children.ownText = []
      · simp [atoms, ownText, linkAtoms, silent, ih inline after]
      · simp [atoms, ownText, linkAtoms, silent, shownRanges, Atom.shownAt]
    · simp only [atoms, ownText, shownRanges_append, shownRanges_images, List.nil_append,
        ih inline after]

/-- What is shown in `shown` ends before every image of `images`. -/
def Ahead (shown : List Range) (images : List Image) : Prop :=
  ∀ range ∈ shown, ∀ image ∈ images, range.Before image.source

@[simp] theorem ahead_nil (shown : List Range) : Ahead shown [] := by simp [Ahead]

@[simp] theorem nil_ahead (images : List Image) : Ahead [] images := by simp [Ahead]

theorem ahead_append (one two : List Range) (first second : List Image) :
    Ahead (one ++ two) (first ++ second) ↔
      Ahead one first ∧ Ahead one second ∧ Ahead two first ∧ Ahead two second := by
  simp only [Ahead, List.mem_append, or_imp, forall_and]
  tauto

theorem ahead_of_le {shown : List Range} {images : List Image} {mid : Nat}
    (before : ∀ range ∈ shown, range.stop ≤ mid) (after : ∀ image ∈ images, mid ≤ image.source.start) :
    Ahead shown images := fun range member image member' =>
  Nat.le_trans (before range member) (after image member')

/-- Where everything shown ends after the images begin, one of the two is missing. -/
theorem ahead_iff_of_lt (shown : List Range) {images : List Image}
    (late : ∀ range ∈ shown, ∀ image ∈ images, image.source.start < range.stop) :
    Ahead shown images ↔ shown = [] ∨ images = [] := by
  constructor
  · intro ahead
    by_contra both
    rw [not_or] at both
    obtain ⟨range, member⟩ := List.exists_mem_of_ne_nil _ both.1
    obtain ⟨image, member'⟩ := List.exists_mem_of_ne_nil _ both.2
    exact absurd (ahead range member image member') (Nat.not_le.mpr (late range member image member'))
  · rintro (rfl | rfl) <;> simp

/-- Visible text ends before every image exactly when none stands after or around one. -/
theorem textFirst_iff (f : Forest) {context : Context} (inline : context.isInline = true)
    (conforms : f.conforms context = true) {low high : Nat}
    (placed : f.placed source low high = true) (state : FormatState) :
    f.textFirst = true ↔ Ahead (shownRanges (f.atoms source containing_dir state)) f.hoisted := by
  induction f generalizing context low high state with
  | nil => simp [textFirst, atoms]
  | leaf l range rest ih =>
    simp only [Forest.conforms, Bool.and_eq_true] at conforms
    simp only [Forest.placed, Bool.and_eq_true, decide_eq_true_eq] at placed
    obtain ⟨⟨start, slice⟩, tail⟩ := placed
    have own := leafAtoms_placed source state (.inl inline) conforms.1 start slice (le_refl _)
    have earlier : Ahead (shownRanges (leafAtoms source state l range)) rest.hoisted :=
      ahead_of_le (fun shown member => (own.shown shown member).2.2)
        fun image member => (hoisted_placed source rest tail image member).2.2.1
    rw [textFirst, ih inline conforms.2 tail state, atoms, hoisted, shownRanges_append,
      ← List.nil_append rest.hoisted, ahead_append]
    simpa using fun _ => earlier
  | node tag range children rest inner ih =>
    obtain ⟨shape, within, after⟩ := conforms_inline_node inline conforms
    simp only [Forest.placed, Bool.and_eq_true, decide_eq_true_eq] at placed
    obtain ⟨⟨⟨⟨start, ordered⟩, slice⟩, nested⟩, tail⟩ := placed
    have below := hoisted_placed source children nested
    have above := hoisted_placed source rest tail
    -- what the rest shows cannot end before an image inside this node
    have cross (state : FormatState) :
        Ahead (shownRanges (rest.atoms source containing_dir state)) children.hoisted ↔
          rest.ownText = [] ∨ children.hoisted = [] := by
      rw [← rest.shownRanges_eq_nil_iff source containing_dir inline after state]
      refine ahead_iff_of_lt _ fun shown member image member' => ?_
      have late := (rest.atoms_placed source containing_dir inline after tail state).shown shown
        member
      have inside := below image member'
      omega
    have later {atoms : List Atom} (placed : AtomsPlaced source range.start atoms range.stop) :
        Ahead (shownRanges atoms) rest.hoisted :=
      ahead_of_le (fun shown member => (placed.shown shown member).2.2)
        fun image member => (above image member).2.2.1
    obtain isFormat | ⟨url, rfl | rfl⟩ := shape
    · have ahead := later (children.atoms_placed source containing_dir rfl within nested
        (tag.enter state))
      have split_ := ahead_append (shownRanges (children.atoms source containing_dir
        (tag.enter state))) (shownRanges (rest.atoms source containing_dir
          (tag.leave (children.format (tag.enter state))))) children.hoisted rest.hoisted
      rw [← inner rfl within nested, ← ih inline after tail, cross] at split_
      have whole : (node tag range children rest).textFirst =
          (children.textFirst && (children.hoisted = [] || rest.ownText = []) &&
            rest.textFirst) := by
        cases tag <;> simp only [Tag.isFormat, Bool.false_eq_true] at isFormat <;> rfl
      have content : (node tag range children rest).atoms source containing_dir state =
          children.atoms source containing_dir (tag.enter state) ++
            rest.atoms source containing_dir
              (tag.leave (children.format (tag.enter state))) ∧
            (node tag range children rest).hoisted = children.hoisted ++ rest.hoisted := by
        cases tag <;> simp only [Tag.isFormat, Bool.false_eq_true] at isFormat <;>
          exact ⟨rfl, rfl⟩
      rw [whole, content.1, content.2, shownRanges_append, split_]
      simp only [Bool.and_eq_true, Bool.or_eq_true, decide_eq_true_eq]
      tauto
    · have own : shownRanges (children.linkAtoms containing_dir state url range) =
          if children.ownText = [] then [] else [range] := by
        by_cases silent : children.ownText = [] <;> simp [linkAtoms, silent]
      have around : Ahead [range] children.hoisted ↔ children.hoisted = [] := by
        have either := ahead_iff_of_lt [range]
          fun shown member image member' => by
            obtain rfl := List.mem_singleton.mp member
            have inside := below image member'
            omega
        simpa using either
      have before : Ahead [range] rest.hoisted :=
        ahead_of_le (by simp) fun image member => (above image member).2.2.1
      change _ ↔ Ahead (shownRanges ((children.hoisted.map Atom.image ++
        children.linkAtoms containing_dir state url range) ++ rest.atoms source containing_dir
          (children.format state))) (children.hoisted ++ rest.hoisted)
      rw [shownRanges_append, shownRanges_append, shownRanges_images, List.nil_append, own,
        ahead_append, cross, ← ih inline after tail, textFirst]
      simp only [Bool.and_eq_true, Bool.or_eq_true, decide_eq_true_eq]
      by_cases silent : children.ownText = []
      · simp only [silent, if_true, nil_ahead, true_and]
        tauto
      · simp only [silent, if_false, around, before, true_and, false_and, or_false]
        tauto
    · have quiet := rest.shownRanges_eq_nil_iff source containing_dir inline after
        (children.format state)
      change _ ↔ Ahead (shownRanges ((children.hoisted ++ [Image.mk children.altText url range]).map
        Atom.image ++ rest.atoms source containing_dir (children.format state)))
          (children.hoisted ++ ⟨children.altText, url, range⟩ :: rest.hoisted)
      rw [shownRanges_append, shownRanges_images, List.nil_append, textFirst, decide_eq_true_eq,
        ← quiet]
      constructor
      · intro none_
        simp [none_]
      · intro each
        by_contra some_
        obtain ⟨shown, member⟩ := List.exists_mem_of_ne_nil _ some_
        have late := (rest.atoms_placed source containing_dir inline after tail _).shown shown
          member
        have := each shown member ⟨children.altText, url, range⟩ (by simp)
        simp only [Range.Before] at this
        omega

end Forest

end Burlmd.Markdown
