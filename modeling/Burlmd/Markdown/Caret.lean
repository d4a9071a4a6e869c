import Burlmd.Markdown.DocumentOrder
import Burlmd.Markdown.RenderedMap

/-!
# Carets

A caret in the text that a top-level Block renders is promoted to the leaf that it is in, and to an
offset of the source of that leaf.
-/

namespace Burlmd.Markdown

open Utf8
open Utf16 (toScalarOffset? toScalarOffset?_eq_some_iff toScalarOffset?_eq_none_iff utf16Len
  utf16Len_append Misplaced)

/-- A character boundary in a slice splits it. -/
theorem slice?_split {source text : Text} {range : Range} {offset : Nat}
    (sliced : slice? source range = some text) (boundary : IsBoundary source offset)
    (low : range.start ≤ offset) (high : offset ≤ range.stop) :
    ∃ head tail, text = head ++ tail ∧ offset = range.start + byteLen head := by
  rcases slice?_eq_some_iff.mp sliced with ⟨before, after, whole, start, stop⟩
  rcases isBoundary_iff.mp boundary with ⟨ahead, behind, whole', length⟩
  rw [whole, List.append_assoc] at whole'
  rcases append_prefix whole' (by omega) with ⟨head, longer, rest⟩
  rw [longer, byteLen_append] at length
  rcases append_prefix rest.symm (by omega) with ⟨tail, split_, -⟩
  exact ⟨head, tail, split_, by omega⟩

namespace SpanMap

variable {spans : SpanMap} {source : Text}

/-- Every Block of the map is a range of characters. -/
def Placed (source : Text) (spans : SpanMap) : Prop :=
  ∀ block ∈ spans.blocks, (slice? source block.source).isSome

/-- The leaf and the offset in its source that a rendered offset of a Block is promoted to. -/
inductive CaretAt (source : Text) (spans : SpanMap) (index rendered_offset : Nat) :
    BlockPath → Nat → Prop
  | intro {leaf within : Nat} {block : BlockSpan} {resolution : SourceResolution}
      {head tail : Text} (descends : spans.Descends index rendered_offset leaf within)
      (here : spans.blocks[leaf]? = some block)
      (resolved : resolveRuns source block within none block.runs = some resolution)
      (sliced : slice? source block.source = some (head ++ tail))
      (start : resolution.start = block.source.start + byteLen head) :
      CaretAt source spans index rendered_offset block.path (utf16Len head)

variable {index rendered_offset leaf within fuel : Nat} {block leaf_block : BlockSpan}

theorem Descends.isLeaf (descends : spans.Descends index rendered_offset leaf within)
    (here : spans.blocks[leaf]? = some leaf_block) : leaf_block.isLeaf = true := by
  rcases descends.leaf_at with ⟨same, same_here, isLeaf, -⟩
  rw [here] at same_here
  cases same_here
  exact isLeaf

/-- Both ways down end in one leaf. -/
theorem Descends.resolveLeafAt (descends : spans.Descends index rendered_offset leaf within)
    (linked : spans.Linked source) (here : spans.blocks[index]? = some block)
    (leaf_here : spans.blocks[leaf]? = some leaf_block)
    (enough : spans.deeper block.path < fuel) :
    spans.resolveLeafAt source fuel index rendered_offset =
      (resolveRuns source leaf_block within none leaf_block.runs).map fun resolution =>
        (leaf, resolution) := by
  induction descends generalizing block fuel with
  | leaf here' isLeaf high =>
    rw [here'] at leaf_here
    cases leaf_here
    cases fuel with
    | zero => cases enough
    | succ fuel =>
      rw [SpanMap.resolveLeafAt, here', Option.bind_some, if_neg (Nat.not_lt.mpr high),
        if_pos isLeaf, resolveAt_leaf here' isLeaf high]
  | child here' below descends ih =>
    rw [here'] at here
    cases here
    rcases linked.child_deeper here' below with ⟨middle, component, at_, path, deeper⟩
    have whole := (Descends.child here' below descends).high linked here'
    cases fuel with
    | zero => cases enough
    | succ fuel =>
      rw [SpanMap.resolveLeafAt, here', Option.bind_some, if_neg (Nat.not_lt.mpr whole),
        isLeaf_eq_false below, if_neg Bool.false_ne_true,
        childAt_of_holds (descends.holds linked here' below), Option.bind_some]
      dsimp only
      rw [Nat.add_sub_cancel_left]
      exact ih at_ leaf_here (by omega)

/-- The resolution of an offset of a leaf starts in its source. -/
theorem Linked.exists_resolved (linked : spans.Linked source) (placed : spans.Placed source)
    (descends : spans.Descends index rendered_offset leaf within)
    (here : spans.blocks[leaf]? = some leaf_block) :
    ∃ resolution head tail,
      resolveRuns source leaf_block within none leaf_block.runs = some resolution ∧
      slice? source leaf_block.source = some (head ++ tail) ∧
      resolution.start = leaf_block.source.start + byteLen head := by
  rcases descends.leaf_at with ⟨same, same_here, isLeaf, high⟩
  rw [here] at same_here
  cases same_here
  have slice := placed leaf_block (List.mem_of_getElem? here)
  rcases Option.isSome_iff_exists.mp slice with ⟨text, sliced⟩
  have behind := linked.behind here isLeaf (slice?_isSome_iff.mp slice).2.1
  rcases behind.total (Nat.zero_le _) high with ⟨resolution, resolved, inside⟩
  rcases slice?_split sliced inside.start_boundary inside.low_le_start inside.start_le_high with
    ⟨head, tail, split_, start⟩
  exact ⟨resolution, head, tail, resolved, split_ ▸ sliced, start⟩

theorem Linked.exists_caretAt (linked : spans.Linked source) (placed : spans.Placed source)
    (here : spans.blocks[index]? = some block) (high : rendered_offset ≤ block.rendered_len) :
    ∃ path caret, spans.CaretAt source index rendered_offset path caret := by
  rcases linked.exists_descends here high with ⟨leaf, within, descends⟩
  rcases descends.leaf_at with ⟨leaf_block, leaf_here, -, -⟩
  rcases linked.exists_resolved placed descends leaf_here with
    ⟨resolution, head, tail, resolved, sliced, start⟩
  exact ⟨_, _, .intro descends leaf_here resolved sliced start⟩

/-- What promotion returns, for a Block whose text is as long as the map says. -/
theorem CaretAt.resolves {top : Nat} {before after rendered : Text} {path : BlockPath}
    {caret : Nat} (at_ : spans.CaretAt source index before.length path caret)
    (linked : spans.Linked source) (here : spans.blocks[index]? = some block)
    (isTop : block.path = [top]) (length : rendered.length = block.rendered_len)
    (whole : rendered = before ++ after) :
    spans.resolveUtf16Caret source [top] rendered (utf16Len before) = some (path, caret) := by
  cases at_ with
  | @intro leaf within leaf_block resolution head tail descends leaf_here resolved sliced start =>
    have found : byPath spans.blocks [top] = some index :=
      (byPath_eq_some_iff linked.distinct).mpr ⟨block, here, isTop⟩
    have scalars : toScalarOffset? rendered (utf16Len before) = some before.length :=
      toScalarOffset?_eq_some_iff.mpr ⟨before, after, whole, rfl, rfl⟩
    have descended := descends.resolveLeafAt linked here leaf_here (spans.deeper_le block.path)
    rw [resolved, Option.map_some] at descended
    have relative : slice? (head ++ tail) ⟨0, resolution.start - leaf_block.source.start⟩ =
        some head := by
      apply slice?_eq_some_iff.mpr
      refine ⟨[], tail, rfl, rfl, ?_⟩
      rw [byteLen_nil, Nat.zero_add, start, Nat.add_sub_cancel_left]
    unfold resolveUtf16Caret
    rw [if_neg (by simp), found, Option.bind_some, here, Option.bind_some,
      if_neg (by simp [length]), scalars, Option.bind_some, descended, Option.bind_some]
    dsimp only
    rw [leaf_here, Option.bind_some, sliced, Option.bind_some, if_neg (by omega), relative,
      Option.map_some]

/-- Leaves that part stand in document order. -/
theorem Parts.later {leaf' : Nat} (parts : spans.Parts leaf leaf') (linked : spans.Linked source)
    {one two : BlockSpan} (here : spans.blocks[leaf]? = some one)
    (here' : spans.blocks[leaf']? = some two) : Later one.path two.path := by
  rcases parts.branches with ⟨_, _, left, right, base, component, component', at_, path, at_',
    path', lt, ⟨_, _, descends⟩, ⟨_, _, descends'⟩⟩
  rcases descends.path_prefix linked at_ here with ⟨rest, below⟩
  rcases descends'.path_prefix linked at_' here' with ⟨rest', below'⟩
  rw [← below, ← below', path, path']
  exact (later_siblings lt).append rest rest'

/-- A later offset is promoted to a later leaf, or to no earlier place in the same one. -/
theorem CaretAt.order {second caret caret' : Nat} {path path' : BlockPath}
    (first : spans.CaretAt source index rendered_offset path caret)
    (behind : spans.CaretAt source index second path' caret') (linked : spans.Linked source)
    (placed : spans.Placed source) (lt : rendered_offset < second) :
    Later path path' ∨ path = path' ∧ caret ≤ caret' := by
  cases first with
  | @intro leaf within one resolution head tail descends here resolved sliced start =>
    cases behind with
    | @intro leaf' within' two resolution' head' tail' descends' here' resolved' sliced' start' =>
      rcases descends.order descends' linked lt with ⟨same, further⟩ | parts
      · subst same
        rw [here] at here'
        cases here'
        refine Or.inr ⟨rfl, ?_⟩
        have slice := placed one (List.mem_of_getElem? here)
        rcases descends'.leaf_at with ⟨_, same_here, -, high⟩
        rw [here] at same_here
        cases same_here
        have starts := ((linked.behind here (descends.isLeaf here)
          (slice?_isSome_iff.mp slice).2.1).ordered (Nat.zero_le _) further high resolved
            resolved').starts
        rw [start, start'] at starts
        rw [sliced] at sliced'
        rcases append_prefix (Option.some.inj sliced') (by omega) with ⟨mid, longer, -⟩
        rw [longer, utf16Len_append]
        exact Nat.le_add_right _ _
      · exact Or.inl (parts.later linked here here')

/-- Promotion of the offsets in the text that the top-level Block at `top` renders. -/
structure CaretExact (source : Text) (spans : SpanMap) (top : Nat) (rendered : Text) : Prop where
  /-- Only an offset inside a surrogate pair or past the end has no place. -/
  none_iff : ∀ offset, spans.resolveUtf16Caret source [top] rendered offset = none ↔
    Misplaced rendered offset
  /-- The path is that of a leaf of the Block, and the offset is between two characters of its
  source, where a selection from the same place starts. -/
  placed : ∀ offset path caret,
    spans.resolveUtf16Caret source [top] rendered offset = some (path, caret) →
    ∃ leaf ∈ spans.blocks, leaf.isLeaf = true ∧ leaf.path = path ∧ [top] <+: path ∧
      ∃ head tail rendered_offset resolution,
        slice? source leaf.source = some (head ++ tail) ∧ utf16Len head = caret ∧
        toScalarOffset? rendered offset = some rendered_offset ∧
        spans.resolveOffset source [top] rendered_offset = some resolution ∧
        resolution.start = leaf.source.start + byteLen head
  /-- A later offset has no earlier place. -/
  ordered : ∀ first second path caret path' caret', first ≤ second →
    spans.resolveUtf16Caret source [top] rendered first = some (path, caret) →
    spans.resolveUtf16Caret source [top] rendered second = some (path', caret') →
    Later path path' ∨ path = path' ∧ caret ≤ caret'
  /-- A character of an interpolable run is at the place of the offset before it. -/
  character : ∀ before c after index leaf within block run, rendered = before ++ c :: after →
    byPath spans.blocks [top] = some index → spans.Descends index before.length leaf within →
    spans.blocks[leaf]? = some block → run ∈ block.runs → run.interpolable = true →
    run.rendered.start ≤ within → within < run.rendered.stop →
    ∃ head tail, slice? source block.source = some (head ++ c :: tail) ∧
      spans.resolveUtf16Caret source [top] rendered (utf16Len before) =
        some (block.path, utf16Len head)

/-- No offset has a place in a text that the map does not measure. -/
theorem resolveUtf16Caret_eq_none {top : Nat} {rendered : Text} {offset : Nat}
    (unmeasured : ∀ index block, byPath spans.blocks [top] = some index →
      spans.blocks[index]? = some block → rendered.length ≠ block.rendered_len) :
    spans.resolveUtf16Caret source [top] rendered offset = none := by
  unfold resolveUtf16Caret
  rw [if_neg (by simp)]
  cases found : byPath spans.blocks [top] with
  | none => rfl
  | some index =>
    rw [Option.bind_some]
    cases here : spans.blocks[index]? with
    | none => rfl
    | some block =>
      rw [Option.bind_some]
      exact if_pos (unmeasured index block found here)

section Exact

variable {blocks : List Emitted} {top : Nat} {emitted : Emitted}

/-- The place of every offset between two characters. -/
theorem Linked.exists_caret (linked : spans.Linked source) (placed : spans.Placed source)
    (here : spans.blocks[index]? = some block) (isTop : block.path = [top]) {rendered : Text}
    (length : rendered.length = block.rendered_len) {before after : Text}
    (whole : rendered = before ++ after) :
    ∃ path caret, spans.CaretAt source index before.length path caret ∧
      spans.resolveUtf16Caret source [top] rendered (utf16Len before) = some (path, caret) := by
  have high : before.length ≤ block.rendered_len := by
    rw [← length, whole, List.length_append]
    exact Nat.le_add_right _ _
  rcases linked.exists_caretAt placed here high with ⟨path, caret, at_⟩
  exact ⟨path, caret, at_, at_.resolves linked here isTop length whole⟩

/-- An offset that has a place is one between two characters. -/
theorem split_of_some {rendered : Text} {offset : Nat} {found : BlockPath × Nat}
    (resolved : spans.resolveUtf16Caret source [top] rendered offset = some found) :
    ∃ before after, rendered = before ++ after ∧ utf16Len before = offset := by
  cases scalars : toScalarOffset? rendered offset with
  | some rendered_offset =>
    rcases toScalarOffset?_eq_some_iff.mp scalars with ⟨before, after, whole, isUnits, -⟩
    exact ⟨before, after, whole, isUnits⟩
  | none =>
    unfold resolveUtf16Caret at resolved
    rw [if_neg (by simp)] at resolved
    rcases Option.bind_eq_some_iff.mp resolved with ⟨index, -, resolved⟩
    rcases Option.bind_eq_some_iff.mp resolved with ⟨block, -, resolved⟩
    split at resolved
    · cases resolved
    · rw [scalars] at resolved
      cases resolved

/-- The characters of an interpolable run are those of its source. -/
theorem interpolated {text : Text} {run : InlineRun} {runs : List InlineRun} {low high : Nat}
    (lay : RunsLay source low high text runs) (inside : run ∈ runs)
    (interpolable : run.interpolable = true) (start : run.rendered.start ≤ within)
    (stop : within < run.rendered.stop) {c : Char} (character : text[within]? = some c) :
    ∃ before after, slice? source run.source = some (before ++ c :: after) ∧
      run.rendered.start + before.length = within := by
  have sliced := lay.exact run inside interpolable
  have bound := lay.tiles.mem_le inside
  have here : (cut text run.rendered)[within - run.rendered.start]? = some c := by
    unfold cut
    rw [List.getElem?_take_of_lt (by omega), List.getElem?_drop, Nat.add_sub_cancel' start]
    exact character
  rcases List.getElem?_eq_some_iff.mp here with ⟨place, same⟩
  refine ⟨(cut text run.rendered).take (within - run.rendered.start),
    (cut text run.rendered).drop (within - run.rendered.start + 1), ?_, ?_⟩
  · rw [← same, ← List.drop_eq_getElem_cons place, List.take_append_drop]
    exact sliced
  · rw [List.length_take_of_le (Nat.le_of_lt place)]
    exact Nat.add_sub_cancel' start

/-- Where a character stands in a slice of a slice. -/
theorem slice?_character {source head tail before after : Text} {outer inner : Range} {c : Char}
    (sliced : slice? source outer = some (head ++ tail))
    (sliced' : slice? source inner = some (before ++ c :: after)) (within : inner.stop ≤ outer.stop)
    (same : outer.start + byteLen head = inner.start + byteLen before) :
    ∃ rest, tail = c :: rest := by
  rcases slice?_eq_some_iff.mp sliced with ⟨ahead, behind, whole, start, stop⟩
  rcases slice?_eq_some_iff.mp sliced' with ⟨ahead', behind', whole', start', stop'⟩
  have equal : (ahead ++ head) ++ (tail ++ behind) =
      (ahead' ++ before) ++ (c :: after ++ behind') := by
    rw [← List.append_assoc, List.append_assoc ahead, ← whole, whole']
    simp only [List.append_assoc]
  rcases append_cancel_of_byteLen equal (by rw [byteLen_append, byteLen_append]; omega) with
    ⟨-, rest⟩
  have positive := c.utf8Size_pos
  cases tail with
  | nil =>
    rw [byteLen_append, byteLen_cons] at stop'
    rw [byteLen_append, byteLen_nil] at stop
    omega
  | cons d rest' =>
    rw [List.cons_append, List.cons_append] at rest
    exact ⟨rest', by rw [(List.cons.inj rest).1]⟩

/-- The character at the place of an offset before it. -/
theorem caret_character (registers : spans.Registers blocks) (linked : spans.Linked source)
    (placed : spans.Placed source) (own : spans.Entry blocks index block emitted)
    (isTop : block.path = [top]) (attended : emitted.Attended)
    (laid : ∀ block ∈ blocks, block.Laid source) (sealed_ : emitted.Sealed)
    {before after : Text} {c : Char} (whole : emitted.text = before ++ c :: after)
    (descends : spans.Descends index before.length leaf within)
    (here : spans.blocks[leaf]? = some leaf_block) {run : InlineRun} (inside : run ∈ leaf_block.runs)
    (interpolable : run.interpolable = true) (start : run.rendered.start ≤ within)
    (stop : within < run.rendered.stop) :
    ∃ head tail, slice? source leaf_block.source = some (head ++ c :: tail) ∧
      spans.resolveUtf16Caret source [top] emitted.text (utf16Len before) =
        some (leaf_block.path, utf16Len head) := by
  have own_laid := lookup_laid laid own.found
  have length := (registers.length linked own attended own_laid).2.mpr sealed_
  have leaf_member := List.mem_of_getElem? here
  rcases registers.emitted leaf_block leaf_member with ⟨leaf_emitted, found, source_, runs⟩
  have runs_laid := linked.leaves leaf_block leaf_member (descends.isLeaf here)
  have room : within < leaf_block.rendered_len :=
    Nat.lt_of_lt_of_le stop (runs_laid.tiles.mem_le inside)
  have character := descends.character registers linked own attended own_laid sealed_
    ⟨here, found⟩ room
  rw [whole, List.getElem?_append_right (Nat.le_refl _), Nat.sub_self, List.getElem?_cons_zero]
    at character
  cases leaf_emitted with
  | container kind range children =>
    rw [runs] at inside
    cases inside
  | leaf node range own_runs =>
    have lay := (lookup_laid laid found).2 leaf_block.source source_
    have runs' : leaf_block.runs = own_runs := runs
    rw [← runs'] at lay
    rcases interpolated lay inside interpolable start stop character.symm with
      ⟨ahead, behind, sliced, position⟩
    have shows_ := InlineRun.Shows.character interpolable sliced
    rw [position] at shows_
    have slice := placed leaf_block leaf_member
    have order := linked.behind here (descends.isLeaf here) (slice?_isSome_iff.mp slice).2.1
    rcases order.selects inside shows_ with ⟨one, two, resolved, -, ranges⟩
    have starts : run.source.start + byteLen ahead = one.start := congrArg Range.start ranges
    rcases linked.exists_resolved placed descends here with
      ⟨resolution, head, tail, resolved', sliced', start'⟩
    rw [resolved] at resolved'
    cases resolved'
    have within_ : run.source.stop ≤ leaf_block.source.stop := lay.order.mem_le inside
    rcases slice?_character sliced' sliced within_ (by omega) with ⟨rest, same⟩
    subst same
    refine ⟨head, rest, sliced', ?_⟩
    exact (CaretAt.intro descends here resolved sliced' start').resolves linked own.here isTop
      length.symm whole

/-- Promotion is exact for a Block that the map measures. -/
theorem caretExact_of_sealed (registers : spans.Registers blocks) (linked : spans.Linked source)
    (placed : spans.Placed source) (own : spans.Entry blocks index block emitted)
    (isTop : block.path = [top]) (attended : emitted.Attended)
    (laid : ∀ block ∈ blocks, block.Laid source) (sealed_ : emitted.Sealed) :
    CaretExact source spans top emitted.text := by
  have length := (registers.length linked own attended (lookup_laid laid own.found)).2.mpr sealed_
  constructor
  · intro offset
    rw [← toScalarOffset?_eq_none_iff]
    constructor
    · intro none_
      cases scalars : toScalarOffset? emitted.text offset with
      | none => rfl
      | some rendered_offset =>
        rcases toScalarOffset?_eq_some_iff.mp scalars with ⟨before, after, whole, isUnits, -⟩
        rcases linked.exists_caret placed own.here isTop length.symm whole with ⟨_, _, -, found⟩
        rw [isUnits, none_] at found
        cases found
    · intro none_
      cases resolved : spans.resolveUtf16Caret source [top] emitted.text offset with
      | none => rfl
      | some found =>
        rcases split_of_some resolved with ⟨before, after, whole, isUnits⟩
        have scalars := toScalarOffset?_eq_some_iff.mpr
          ⟨before, after, whole, isUnits, rfl⟩
        rw [none_] at scalars
        cases scalars
  · intro offset path caret resolved
    rcases split_of_some resolved with ⟨before, after, whole, isUnits⟩
    rcases linked.exists_caret placed own.here isTop length.symm whole with
      ⟨path', caret', at_, found⟩
    rw [isUnits, resolved] at found
    cases found
    cases at_ with
    | @intro leaf within leaf_block resolution head tail descends here resolved' sliced start =>
      have above := descends.path_prefix linked own.here here
      rw [isTop] at above
      refine ⟨leaf_block, List.mem_of_getElem? here, descends.isLeaf here, rfl, above, head,
        tail, before.length, resolution, sliced, rfl, ?_, ?_, start⟩
      · exact toScalarOffset?_eq_some_iff.mpr ⟨before, after, whole, isUnits, rfl⟩
      · rw [← isTop, resolveOffset_eq linked own.here,
          descends.resolveAt linked own.here here (spans.deeper_le block.path)]
        exact resolved'
  · intro first second path caret path' caret' le resolved resolved'
    rcases split_of_some resolved with ⟨before, after, whole, isUnits⟩
    rcases split_of_some resolved' with ⟨before', after', whole', isUnits'⟩
    rcases linked.exists_caret placed own.here isTop length.symm whole with ⟨_, _, at_, found⟩
    rcases linked.exists_caret placed own.here isTop length.symm whole' with ⟨_, _, at_', found'⟩
    rw [isUnits, resolved] at found
    rw [isUnits', resolved'] at found'
    cases found
    cases found'
    have lengths := Utf16.length_le_of_utf16Len (whole.symm.trans whole')
      (by rw [isUnits, isUnits']; exact le)
    rcases Nat.eq_or_lt_of_le lengths with same | earlier
    · have equal := (List.append_inj (whole.symm.trans whole') same).1
      rw [← isUnits, equal, isUnits', resolved'] at resolved
      cases resolved
      exact Or.inr ⟨rfl, Nat.le_refl _⟩
    · exact at_.order at_' linked placed earlier
  · intro before c after index' leaf within leaf_block run whole found descends here inside
      interpolable start stop
    have same := (byPath_eq_some_iff linked.distinct).mpr ⟨block, own.here, isTop⟩
    rw [found] at same
    cases same
    exact caret_character registers linked placed own isTop attended laid sealed_ whole descends here
      inside interpolable start stop

end Exact

end SpanMap

/-! ## The parsed note -/

variable {source : Text} (stream : EventStream source) (containing_dir : Text)

/-- Promotion is exact for the Block at a top-level node exactly when every node from there down has
an entry in the map. -/
theorem resolveUtf16Caret_exact_iff {top : Nat} {node : AstNode}
    (at_ : (parseNote source containing_dir stream.events).ast[top]? = some node) :
    SpanMap.CaretExact source (parseNote source containing_dir stream.events).spans top
        (renderedText node) ↔
      ∀ path, (nodeAt (parseNote source containing_dir stream.events).ast (top :: path)).isSome →
        ((parseNote source containing_dir stream.events).spans.block (top :: path)).isSome := by
  have laid := (stream.emitted_laid containing_dir).blocks
  have registers := parseNote_registers stream containing_dir
  have linked := parseNote_linked stream containing_dir
  have placed : (parseNote source containing_dir stream.events).spans.Placed source :=
    fun block member => parseNote_sliceable stream containing_dir member
  have ast : (parseNote source containing_dir stream.events).ast =
      nodesOf (stream.emitted containing_dir).blocks := by
    rw [parseNote_eq]
  rw [ast] at at_ ⊢
  rw [nodesOf_getElem?] at at_
  rcases Option.map_eq_some_iff.mp at_ with ⟨emitted, here, same⟩
  subst same
  have attended := (stream.emitted_attended containing_dir).each emitted
    (List.mem_of_getElem? here)
  have found : lookup (stream.emitted containing_dir).blocks [top] = some emitted := here
  have known_iff := parseNote_known_iff stream containing_dir here
  rw [ast] at known_iff
  rw [known_iff, ← block_measured_iff stream containing_dir here]
  constructor
  · intro exact_
    -- The first offset has a place, so the map measures the Block.
    have first : ¬ Misplaced emitted.text 0 := by
      intro misplaced
      cases misplaced with
      | splits _ behind _ => cases behind
      | past beyond => cases beyond
    apply Classical.byContradiction
    intro unmeasured
    apply first
    apply (exact_.none_iff 0).mp
    apply SpanMap.resolveUtf16Caret_eq_none
    intro index block by_path at_block length
    rcases (byPath_eq_some_iff linked.distinct).mp by_path with ⟨same_block, same_at, isTop⟩
    rw [at_block] at same_at
    cases same_at
    exact unmeasured ⟨index, block, at_block, isTop, length⟩
  · intro measured
    have good := (block_measured_iff stream containing_dir here).mp measured
    rcases measured with ⟨index, block, at_block, isTop, -⟩
    exact SpanMap.caretExact_of_sealed registers linked placed ⟨at_block, isTop.symm ▸ found⟩ isTop
      attended laid good.2

/-- A quoted character that takes a surrogate pair. -/
def quotedAstral : EventStream "> 😀".toList where
  forest :=
    .node .blockQuote ⟨0, 6⟩
      (.node .paragraph ⟨2, 6⟩ (.leaf (.text "😀".toList) ⟨2, 6⟩ .nil) .nil)
      .nil
  conforms := by decide
  placed := by decide

theorem quotedAstral_caretExact :
    ∃ node, (parseNote "> 😀".toList [] quotedAstral.events).ast[0]? = some node ∧
      SpanMap.CaretExact "> 😀".toList
        (parseNote "> 😀".toList [] quotedAstral.events).spans 0 (renderedText node) := by
  refine ⟨_, rfl, (resolveUtf16Caret_exact_iff quotedAstral [] rfl).mpr ?_⟩
  intro path known
  rcases path with _ | ⟨k, _ | ⟨next, rest⟩⟩
  · rfl
  · cases k with
    | zero => rfl
    | succ k => cases known
  · cases k with
    | zero =>
      have none_ : nodeAt (parseNote "> 😀".toList [] quotedAstral.events).ast
          (0 :: 0 :: next :: rest) = none := by
        cases rest with
        | nil => rfl
        | cons _ _ => rfl
      rw [none_] at known
      cases known
    | succ k => cases known

/-- Nothing in the quote has a place: the heading in it has no entry. -/
theorem imageInQuotedHeading_not_caretExact :
    ¬ ∀ node, (parseNote "> # ![a](x.png)".toList [] imageInQuotedHeading.events).ast[0]? =
        some node →
      SpanMap.CaretExact "> # ![a](x.png)".toList
        (parseNote "> # ![a](x.png)".toList [] imageInQuotedHeading.events).spans 0
        (renderedText node) := by
  intro each
  have none_ : Misplaced
      (renderedText (.blockquote [.heading 1 [], .image "a".toList "x.png".toList])) 0 :=
    ((each _ rfl).none_iff 0).mp (by decide)
  cases none_ with
  | splits _ behind _ => cases behind
  | past beyond => cases beyond

end Burlmd.Markdown
