import Mathlib.Data.List.Basic
import Mathlib.Tactic.Common
import Burlmd.Markdown.RenderedText

/-!
# Where the runs of a Block lie

The runs of a Block tile its rendered text and stand in source order. Both are
kept while runs are pushed, given that the stream is in source order.
-/

namespace Burlmd.Markdown

open Utf8

/-- The runs cover the characters from `first` to `stop` without gap or overlap. -/
def Tiles : Nat → List InlineRun → Nat → Prop
  | first, [], stop => first = stop
  | first, run :: rest, stop =>
      run.rendered.start = first ∧ first < run.rendered.stop ∧ Tiles run.rendered.stop rest stop

/-- The sources of the runs stand in order between two offsets. -/
def InOrder : Nat → List InlineRun → Nat → Prop
  | low, [], high => low ≤ high
  | low, run :: rest, high =>
      low ≤ run.source.start ∧ run.source.start ≤ run.source.stop ∧ InOrder run.source.stop rest high

/-- The characters of `text` at `range`. -/
def cut (text : Text) (range : Range) : Text :=
  (text.drop range.start).take (range.stop - range.start)

/-- An interpolable run slices to exactly its rendered characters. -/
def Exact (source text : Text) (runs : List InlineRun) : Prop :=
  ∀ run ∈ runs, run.interpolable = true → slice? source run.source = some (cut text run.rendered)

theorem Tiles.le {runs : List InlineRun} {first stop : Nat} (tiles : Tiles first runs stop) :
    first ≤ stop := by
  induction runs generalizing first with
  | nil => exact Nat.le_of_eq tiles
  | cons run rest ih =>
    obtain ⟨-, lt, tail⟩ := tiles
    have := ih tail
    omega

theorem Tiles.mem_le {runs : List InlineRun} {first stop : Nat} (tiles : Tiles first runs stop)
    {run : InlineRun} (member : run ∈ runs) : run.rendered.stop ≤ stop := by
  induction runs generalizing first with
  | nil => simp at member
  | cons head rest ih =>
    obtain ⟨-, -, tail⟩ := tiles
    rcases List.mem_cons.mp member with rfl | member
    · exact tail.le
    · exact ih tail member

theorem Tiles.snoc {runs : List InlineRun} {first mid : Nat} (tiles : Tiles first runs mid)
    {run : InlineRun} (start : run.rendered.start = mid) (lt : mid < run.rendered.stop) :
    Tiles first (runs ++ [run]) run.rendered.stop := by
  induction runs generalizing first with
  | nil =>
    obtain rfl : first = mid := tiles
    exact ⟨start, lt, rfl⟩
  | cons head rest ih => exact ⟨tiles.1, tiles.2.1, ih tiles.2.2⟩

theorem Tiles.renderedEnd {runs : List InlineRun} {stop : Nat} (tiles : Tiles 0 runs stop) :
    SpanMapBuilder.renderedEnd runs = stop := by
  have last (first : Nat) (runs : List InlineRun) (nonempty : runs ≠ [])
      (tiles : Tiles first runs stop) :
      SpanMapBuilder.renderedEnd runs = stop := by
    induction runs generalizing first with
    | nil => simp at nonempty
    | cons run rest ih =>
      cases rest with
      | nil => exact tiles.2.2
      | cons next rest =>
        have := ih _ (by simp) tiles.2.2
        simpa [SpanMapBuilder.renderedEnd] using this
  cases runs with
  | nil => exact tiles
  | cons run rest => exact last 0 _ (by simp) tiles

theorem InOrder.le {runs : List InlineRun} {low high : Nat} (order : InOrder low runs high) :
    low ≤ high := by
  induction runs generalizing low with
  | nil => exact order
  | cons run rest ih =>
    obtain ⟨start, ordered, tail⟩ := order
    have := ih tail
    omega

theorem InOrder.mono {runs : List InlineRun} {low low' high high' : Nat}
    (order : InOrder low runs high) (lower : low' ≤ low) (higher : high ≤ high') :
    InOrder low' runs high' := by
  induction runs generalizing low low' with
  | nil => exact Nat.le_trans (Nat.le_trans lower order) higher
  | cons run rest ih => exact ⟨Nat.le_trans lower order.1, order.2.1, ih order.2.2 (le_refl _)⟩

theorem InOrder.snoc {runs : List InlineRun} {low mid : Nat} (order : InOrder low runs mid)
    {run : InlineRun} (start : mid ≤ run.source.start)
    (ordered : run.source.start ≤ run.source.stop) :
    InOrder low (runs ++ [run]) run.source.stop := by
  induction runs generalizing low with
  | nil => exact ⟨Nat.le_trans order start, ordered, le_refl _⟩
  | cons head rest ih => exact ⟨order.1, order.2.1, ih order.2.2⟩

theorem InOrder.extent {runs : List InlineRun} {low high : Nat} (order : InOrder low runs high)
    {range : Range} (extent : runExtent runs = some range) :
    low ≤ range.start ∧ range.stop ≤ high ∧ InOrder range.start runs range.stop := by
  cases runs with
  | nil => simp [runExtent] at extent
  | cons run rest =>
    have last (low : Nat) (run : InlineRun) (rest : List InlineRun)
        (order : InOrder low (run :: rest) high) :
        InOrder low (run :: rest) ((run :: rest).getLast (by simp)).source.stop ∧
          ((run :: rest).getLast (by simp)).source.stop ≤ high := by
      induction rest generalizing low run with
      | nil => exact ⟨⟨order.1, order.2.1, le_refl _⟩, order.2.2⟩
      | cons next rest ih =>
        obtain ⟨inner, upTo⟩ := ih _ _ order.2.2
        exact ⟨⟨order.1, order.2.1, by simpa using inner⟩, by simpa using upTo⟩
    obtain ⟨inner, upTo⟩ := last low run rest order
    simp only [runExtent, List.head?_cons, List.getLast?_eq_some_getLast (List.cons_ne_nil run rest),
      Option.some.injEq] at extent
    subst extent
    exact ⟨order.1, upTo, le_refl _, inner.2⟩

theorem runExtent_isSome {runs : List InlineRun} : (runExtent runs).isSome ↔ runs ≠ [] := by
  cases runs with
  | nil => simp [runExtent]
  | cons run rest =>
    simp [runExtent, List.getLast?_eq_some_getLast (List.cons_ne_nil run rest)]

theorem cut_append {text more : Text} {range : Range} (inside : range.stop ≤ text.length) :
    cut (text ++ more) range = cut text range := by
  by_cases ordered : range.start ≤ text.length
  · rw [cut, List.drop_append_of_le_length ordered, List.take_append_of_le_length, cut]
    rw [List.length_drop]
    omega
  · have empty : range.stop - range.start = 0 := by omega
    simp [cut, empty]

theorem cut_suffix (text more : Text) :
    cut (text ++ more) ⟨text.length, text.length + more.length⟩ = more := by
  simp [cut]

/-- The runs of a Block with the rendered text `text`. -/
structure RunsLay (source : Text) (low high : Nat) (text : Text) (runs : List InlineRun) :
    Prop where
  tiles : Tiles 0 runs text.length
  order : InOrder low runs high
  exact : Exact source text runs

structure RunAccum.Lays (source : Text) (low high : Nat) (text : Text) (accum : RunAccum) :
    Prop where
  runs : RunsLay source low high text accum.runs
  length : accum.rendered_len = text.length

namespace RunAccum

variable {source text : Text} {low high : Nat} {accum : RunAccum}

theorem Lays.mono (lays : accum.Lays source low high text) {high' : Nat} (le : high ≤ high') :
    accum.Lays source low high' text :=
  ⟨⟨lays.runs.tiles, lays.runs.order.mono (le_refl _) le, lays.runs.exact⟩, lays.length⟩

theorem empty_lays (le : low ≤ high) : RunAccum.empty.Lays source low high [] :=
  ⟨⟨rfl, le, by simp [Exact, empty]⟩, rfl⟩

theorem Lays.push (lays : accum.Lays source low high text) {range : Range} (more : Text)
    (interpolable : Bool) (start : high ≤ range.start) (ordered : range.start ≤ range.stop)
    (exact : interpolable = true → slice? source range = some more) :
    (accum.push more.length range interpolable).Lays source low range.stop (text ++ more) := by
  by_cases nothing : more.length = 0
  · obtain rfl := List.length_eq_zero_iff.mp nothing
    simpa [RunAccum.push] using lays.mono (Nat.le_trans start ordered)
  · obtain ⟨⟨tiles, order, old⟩, length⟩ := lays
    refine ⟨⟨?_, ?_, ?_⟩, by simp [RunAccum.push, nothing, length]⟩
    · simp only [RunAccum.push, nothing, if_false, length, List.length_append]
      exact tiles.snoc rfl (by show _ < _ + _; omega)
    · simp only [RunAccum.push, nothing, if_false]
      exact order.snoc start ordered
    · intro run member interpolates
      simp only [RunAccum.push, nothing, if_false, List.mem_append, List.mem_singleton] at member
      obtain member | rfl := member
      · rw [cut_append (tiles.mem_le member)]
        exact old run member interpolates
      · rw [length, cut_suffix]
        exact exact interpolates

end RunAccum

/-- The atoms stand in source order between two offsets and render what they count;
an image claims a character range of its own. -/
def AtomsPlaced (source : Text) : Nat → List Atom → Nat → Prop
  | low, [], high => low ≤ high
  | low, .element shown chars range interpolable :: rest, high =>
      low ≤ range.start ∧ range.start < range.stop ∧ (slice? source range).isSome ∧
        chars = shown.rendered.length ∧ 0 < chars ∧
        (interpolable = true → slice? source range = some shown.rendered) ∧
        AtomsPlaced source range.stop rest high
  | low, .image hoisted :: rest, high =>
      hoisted.source.start < hoisted.source.stop ∧ (slice? source hoisted.source).isSome ∧
        AtomsPlaced source low rest high

@[simp] theorem atomsPlaced_nil {source : Text} {low high : Nat} :
    AtomsPlaced source low [] high ↔ low ≤ high := Iff.rfl

namespace AtomsPlaced

variable {source : Text}

theorem le {atoms : List Atom} {low high : Nat} (placed : AtomsPlaced source low atoms high) :
    low ≤ high := by
  induction atoms generalizing low with
  | nil => exact placed
  | cons atom rest ih =>
    cases atom with
    | element =>
      obtain ⟨start, ordered, -, -, -, -, tail⟩ := placed
      have := ih tail
      omega
    | image => exact ih placed.2.2

theorem mono {atoms : List Atom} {low low' high high' : Nat}
    (placed : AtomsPlaced source low atoms high) (lower : low' ≤ low) (higher : high ≤ high') :
    AtomsPlaced source low' atoms high' := by
  induction atoms generalizing low low' with
  | nil => exact Nat.le_trans (Nat.le_trans lower placed) higher
  | cons atom rest ih =>
    cases atom with
    | element =>
      exact ⟨Nat.le_trans lower placed.1, placed.2.1, placed.2.2.1, placed.2.2.2.1,
        placed.2.2.2.2.1, placed.2.2.2.2.2.1, ih placed.2.2.2.2.2.2 (le_refl _)⟩
    | image => exact ⟨placed.1, placed.2.1, ih placed.2.2 lower⟩

theorem append {first second : List Atom} {low mid high : Nat}
    (placed : AtomsPlaced source low first mid) (after : AtomsPlaced source mid second high) :
    AtomsPlaced source low (first ++ second) high := by
  induction first generalizing low with
  | nil => exact after.mono placed (le_refl _)
  | cons atom rest ih =>
    cases atom with
    | element =>
      exact ⟨placed.1, placed.2.1, placed.2.2.1, placed.2.2.2.1, placed.2.2.2.2.1,
        placed.2.2.2.2.2.1, ih placed.2.2.2.2.2.2⟩
    | image => exact ⟨placed.1, placed.2.1, ih placed.2.2⟩

end AtomsPlaced

namespace Leaf

variable {l : Leaf} {range : Range} {context : Context}

theorem allowed_lt (inline : context.isInline = true ∨ context = .flow)
    (allowed : l.allowed range context = true) : range.start < range.stop := by
  cases context <;> simp only [Context.isInline, Bool.false_eq_true, reduceCtorEq, or_false]
    at inline <;> cases l <;> simp_all [Leaf.allowed]

theorem shown_ne_nil (inline : context.isInline = true ∨ context = .flow)
    (allowed : l.allowed range context = true) {content : Text × Bool}
    (shown : l.shown? = some content) : content.1 ≠ [] := by
  cases l with
  | text text =>
    simp only [shown?, Option.ite_none_left_eq_some, Option.some.injEq] at shown
    rw [← shown.2]
    exact shown.1
  | code text =>
    obtain rfl := Option.some.inj shown
    cases context <;> simp_all [Leaf.allowed, Context.isInline]
  | softBreak | hardBreak =>
    obtain rfl := Option.some.inj shown
    simp
  | _ => simp [shown?] at shown

end Leaf

namespace Forest

variable (source containing_dir : Text)

theorem leafAtoms_placed (state : FormatState) {l : Leaf} {range : Range} {context : Context}
    {low high : Nat} (inline : context.isInline = true ∨ context = .flow)
    (allowed : l.allowed range context = true) (start : low ≤ range.start)
    (slice : (slice? source range).isSome) (le : range.stop ≤ high) :
    AtomsPlaced source low (leafAtoms source state l range) high := by
  have ordered := (slice?_isSome_iff.mp slice).1
  cases shown : l.shown? with
  | none => simpa [leafAtoms, shown] using Nat.le_trans start (Nat.le_trans ordered le)
  | some content =>
    simp only [leafAtoms, shown, Option.toList_some, List.map_cons, List.map_nil]
    refine ⟨start, Leaf.allowed_lt inline allowed, slice, rfl,
      List.length_pos_of_ne_nil (Leaf.shown_ne_nil inline allowed shown), ?_, le⟩
    simp [InlineElement.rendered, TextRun.fromState]

/-- The images of a forest claim character ranges of their own. -/
theorem hoisted_placed (f : Forest) {low high : Nat} (placed : f.placed source low high = true) :
    ∀ image ∈ f.hoisted, image.source.start < image.source.stop ∧
      (slice? source image.source).isSome ∧ low ≤ image.source.start ∧
      image.source.stop ≤ high := by
  induction f generalizing low high with
  | nil => simp [hoisted]
  | leaf l range rest ih =>
    simp only [Forest.placed, Bool.and_eq_true, decide_eq_true_eq] at placed
    obtain ⟨⟨start, slice⟩, tail⟩ := placed
    have ordered := (slice?_isSome_iff.mp slice).1
    intro image member
    obtain ⟨wide, slices, low_, high_⟩ := ih tail image member
    exact ⟨wide, slices, by omega, high_⟩
  | node tag range children rest inner ih =>
    simp only [Forest.placed, Bool.and_eq_true, decide_eq_true_eq] at placed
    obtain ⟨⟨⟨⟨start, ordered⟩, slice⟩, within⟩, tail⟩ := placed
    have up := Forest.placed.le tail
    have below (image : Image) (member : image ∈ children.hoisted) :
        image.source.start < image.source.stop ∧ (slice? source image.source).isSome ∧
          low ≤ image.source.start ∧ image.source.stop ≤ high := by
      obtain ⟨wide, slices, low_, high_⟩ := inner within image member
      exact ⟨wide, slices, by omega, by omega⟩
    have after (image : Image) (member : image ∈ rest.hoisted) :
        image.source.start < image.source.stop ∧ (slice? source image.source).isSome ∧
          low ≤ image.source.start ∧ image.source.stop ≤ high := by
      obtain ⟨wide, slices, low_, high_⟩ := ih tail image member
      exact ⟨wide, slices, by omega, high_⟩
    cases tag with
    | image url =>
      intro image member
      simp only [hoisted, List.mem_append, List.mem_cons] at member
      obtain member | rfl | member := member
      · exact below image member
      · exact ⟨ordered, slice, start, up⟩
      · exact after image member
    | _ =>
      intro image member
      simp only [hoisted, List.mem_append] at member
      exact member.elim (below image) (after image)

theorem images_placed {images : List Image} {low high : Nat} (le : low ≤ high)
    (placed : ∀ image ∈ images, image.source.start < image.source.stop ∧
      (slice? source image.source).isSome) :
    AtomsPlaced source low (images.map .image) high := by
  induction images with
  | nil => exact le
  | cons image rest ih =>
    simp only [List.mem_cons, forall_eq_or_imp] at placed
    exact ⟨placed.1.1, placed.1.2, ih placed.2⟩

theorem atoms_placed (f : Forest) {context : Context} (inline : context.isInline = true)
    (conforms : f.conforms context = true) {low high : Nat}
    (placed : f.placed source low high = true) (state : FormatState) :
    AtomsPlaced source low (f.atoms source containing_dir state) high := by
  induction f generalizing context low high state with
  | nil => simpa [Forest.placed, atoms] using placed
  | leaf l range rest ih =>
    simp only [Forest.conforms, Bool.and_eq_true] at conforms
    simp only [Forest.placed, Bool.and_eq_true, decide_eq_true_eq] at placed
    exact (leafAtoms_placed source state (.inl inline) conforms.1 placed.1.1 placed.1.2
      (le_refl _)).append (ih inline conforms.2 placed.2 state)
  | node tag range children rest inner ih =>
    obtain ⟨shape, within, after⟩ := conforms_inline_node inline conforms
    have hoisted := hoisted_placed source (node tag range children .nil) (by
        simp only [Forest.placed, Bool.and_eq_true, decide_eq_true_eq] at placed ⊢
        exact ⟨placed.1, le_refl _⟩)
    have own := fun image member => And.intro (hoisted image member).1 (hoisted image member).2.1
    simp only [Forest.placed, Bool.and_eq_true, decide_eq_true_eq] at placed
    obtain ⟨⟨⟨⟨start, ordered⟩, slice⟩, nested⟩, tail⟩ := placed
    obtain isFormat | ⟨url, rfl | rfl⟩ := shape
    · have here := (inner rfl within nested (tag.enter state)).mono start (le_refl _)
      have next := here.append (ih inline after tail
        (tag.leave (children.format (tag.enter state))))
      cases tag <;> simp only [Tag.isFormat, Bool.false_eq_true] at isFormat <;>
        simpa [atoms] using next
    · have images : AtomsPlaced source low (children.hoisted.map .image) range.start :=
        images_placed source start fun image member =>
          own image (by simpa [Forest.hoisted] using member)
      have link : AtomsPlaced source range.start
          (children.linkAtoms containing_dir state url range) range.stop := by
        by_cases empty : children.ownText = []
        · simpa [linkAtoms, empty] using Nat.le_of_lt ordered
        · simp only [linkAtoms, empty, if_false]
          refine ⟨le_refl _, ordered, slice, ?_, List.length_pos_of_ne_nil empty, by simp,
            le_refl _⟩
          simp [renderedInlineText_content]
      exact (images.append link).append (ih inline after tail _)
    · have images : AtomsPlaced source low
          ((children.hoisted ++ [Image.mk children.altText url range]).map .image) range.stop :=
        images_placed source (by omega) fun image member =>
          own image (by simpa [Forest.hoisted] using member)
      exact images.append (ih inline after tail _)

end Forest

end Burlmd.Markdown
