import Burlmd.Markdown.DocumentOrder

/-!
# Buffered edits

A keystroke replaces the text of one leaf and moves the spans by arithmetic, without a parse. The
map keeps describing the buffer exactly where no Block before or above the edited one starts at
its end.
-/

namespace Burlmd.Markdown

open Utf8

/-- The buffer of a session: its text and the map of its Blocks. -/
structure Buffer where
  source : Text
  spans : SpanMap

/-- The path of a Block and its new text. -/
abbrev Buffer.Edit := BlockPath × Text

namespace Buffer

/-- Replaces the text of the leaf at a path; `none` for a container and for no Block. -/
def edit? (buffer : Buffer) (edit : Edit) : Option Buffer :=
  (buffer.spans.applyBufferedEdit edit.1 (byteLen edit.2)).bind fun edited =>
    (splice? buffer.source edited.1 edit.2).map fun source => ⟨source, edited.2⟩

def after (buffer : Buffer) (edit : Edit) : Buffer := (buffer.edit? edit).getD buffer

/-- Blocks may be empty. They lie in the text and in their parents, siblings follow one another,
and nothing is below a leaf. -/
structure Coherent (buffer : Buffer) : Prop where
  distinct : (buffer.spans.blocks.map BlockSpan.path).Nodup
  named : ∀ block ∈ buffer.spans.blocks, block.path ≠ []
  placed : ∀ block ∈ buffer.spans.blocks, (slice? buffer.source block.source).isSome
  rooted : ∀ block ∈ buffer.spans.blocks, ∀ path index, path ≠ [] → block.path = path ++ [index] →
    ∃ parent ∈ buffer.spans.blocks, parent.path = path
  nested : ∀ parent ∈ buffer.spans.blocks, ∀ block ∈ buffer.spans.blocks, ∀ index,
    block.path = parent.path ++ [index] → parent.source.Contains block.source
  ordered : ∀ left ∈ buffer.spans.blocks, ∀ right ∈ buffer.spans.blocks, ∀ base first second,
    left.path = base ++ [first] → right.path = base ++ [second] → first < second →
      left.source.Before right.source
  leaves : ∀ block ∈ buffer.spans.blocks, block.isLeaf = true →
    ∀ other ∈ buffer.spans.blocks, ∀ index, other.path ≠ block.path ++ [index]

end Buffer

/-! ## What coherence says of two Blocks -/

namespace Buffer

variable {buffer : Buffer} {block other : BlockSpan}

theorem Coherent.mem_of_block (coherent : buffer.Coherent) {path : BlockPath} :
    buffer.spans.block path = some block ↔ block ∈ buffer.spans.blocks ∧ block.path = path := by
  unfold SpanMap.block
  rw [Option.bind_eq_some_iff]
  constructor
  · rintro ⟨index, found, at_⟩
    rcases (byPath_eq_some_iff coherent.distinct).mp found with ⟨block', at_', isPath⟩
    rw [at_] at at_'
    cases at_'
    exact ⟨List.mem_of_getElem? at_, isPath⟩
  · rintro ⟨mem, isPath⟩
    rcases List.getElem?_of_mem mem with ⟨index, at_⟩
    exact ⟨index, (byPath_eq_some_iff coherent.distinct).mpr ⟨block, at_, isPath⟩, at_⟩

theorem Coherent.ordered_range (coherent : buffer.Coherent) (mem : block ∈ buffer.spans.blocks) :
    block.source.start ≤ block.source.stop :=
  (slice?_isSome_iff.mp (coherent.placed block mem)).1

/-- Every path above a Block, but for the empty one, is that of a Block that contains it. -/
theorem Coherent.above (coherent : buffer.Coherent) (path rest : BlockPath) (some_ : path ≠ [])
    (mem : block ∈ buffer.spans.blocks) (isPath : block.path = path ++ rest) :
    ∃ outer ∈ buffer.spans.blocks, outer.path = path ∧ outer.source.Contains block.source := by
  induction rest using List.reverseRecOn generalizing block with
  | nil =>
    rw [List.append_nil] at isPath
    exact ⟨block, mem, isPath, Range.Contains.refl _⟩
  | append_singleton upper index ih =>
    rw [← List.append_assoc] at isPath
    have inside : path ++ upper ≠ [] := List.append_ne_nil_of_left_ne_nil some_ _
    rcases coherent.rooted block mem _ index inside isPath with ⟨parent, isParent, isUpper⟩
    rcases ih isParent isUpper with ⟨outer, isOuter, isOuterPath, contains⟩
    rw [← isUpper] at isPath
    exact ⟨outer, isOuter, isOuterPath,
      contains.trans (coherent.nested parent isParent block mem index isPath)⟩

theorem Coherent.eq_of_path (coherent : buffer.Coherent) (mem : block ∈ buffer.spans.blocks)
    (mem' : other ∈ buffer.spans.blocks) (same : block.path = other.path) : block = other := by
  have found := coherent.mem_of_block.mpr ⟨mem, same⟩
  have found' := coherent.mem_of_block.mpr ⟨mem', rfl⟩
  rw [found] at found'
  exact Option.some.inj found'

theorem Coherent.contains (coherent : buffer.Coherent) (mem : block ∈ buffer.spans.blocks)
    (mem' : other ∈ buffer.spans.blocks) (above : block.path <+: other.path) :
    block.source.Contains other.source := by
  rcases above with ⟨rest, isPath⟩
  rcases coherent.above block.path rest (coherent.named block mem) mem' isPath.symm with ⟨outer, isOuter, same, contains⟩
  rw [coherent.eq_of_path isOuter mem same] at contains
  exact contains

theorem Coherent.before (coherent : buffer.Coherent) (mem : block ∈ buffer.spans.blocks)
    (mem' : other ∈ buffer.spans.blocks) (later : Later block.path other.path) :
    block.source.Before other.source := by
  rcases later_iff.mp later with ⟨base, first, second, s, t, lt, isPath, isOther⟩
  have left := coherent.above (base ++ [first]) s (by simp) mem (by rw [isPath]; simp)
  have right := coherent.above (base ++ [second]) t (by simp) mem' (by rw [isOther]; simp)
  rcases left with ⟨one, isOne, onePath, inOne⟩
  rcases right with ⟨two, isTwo, twoPath, inTwo⟩
  have apart := coherent.ordered one isOne two isTwo base first second onePath twoPath lt
  exact Nat.le_trans inOne.2 (Nat.le_trans apart inTwo.1)

theorem Coherent.leaf_prefix (coherent : buffer.Coherent) (mem : block ∈ buffer.spans.blocks)
    (leaf : block.isLeaf = true) (mem' : other ∈ buffer.spans.blocks) (above : block.path <+: other.path) : other.path = block.path := by
  rcases above with ⟨rest, isPath⟩
  cases rest with
  | nil =>
    rw [← isPath]
    exact List.append_nil _
  | cons index rest =>
    have split : other.path = (block.path ++ [index]) ++ rest := by
      rw [← isPath]
      simp
    rcases coherent.above _ rest (by simp) mem' split with ⟨child, isChild, childPath, -⟩
    exact absurd childPath (coherent.leaves block mem leaf child isChild index)

end Buffer

/-! ## Where each Block is after an edit -/

/-- Substituting inside a range substitutes inside its text. -/
theorem slice?_splice?_around {text replacement result : Text} {range outer : Range}
    (spliced : splice? text range replacement = some result) (contains : outer.Contains range)
    (sliced : (slice? text outer).isSome) :
    ∃ before part after, slice? text outer = some (before ++ part ++ after) ∧
      slice? text range = some part ∧ outer.start + byteLen before = range.start ∧
      slice? result ⟨outer.start, outer.stop + byteLen replacement - (range.stop - range.start)⟩ =
        some (before ++ replacement ++ after) := by
  rcases splice?_eq_some_iff.mp spliced with ⟨head, part, tail, whole, start, stop, isResult⟩
  rcases Option.isSome_iff_exists.mp sliced with ⟨inner, at_⟩
  rcases slice?_eq_some_iff.mp at_ with ⟨left, right, whole', from_, upTo⟩
  have lower : byteLen left ≤ byteLen head := by
    have := contains.1
    omega
  rcases append_prefix (a := left) (b := inner ++ right) (c := head) (d := part ++ tail)
    (by rw [← List.append_assoc, ← List.append_assoc, ← whole', whole]) lower with
    ⟨before, isHead, isInner⟩
  have front : byteLen (before ++ part) ≤ byteLen inner := by
    have := contains.2
    rw [isHead] at start stop
    simp only [byteLen_append] at start stop ⊢
    omega
  rcases append_prefix (a := before ++ part) (b := tail) (c := inner) (d := right)
    (by rw [isInner, List.append_assoc]) front with ⟨after, isWhole, isTail⟩
  subst isHead isWhole isTail
  refine ⟨before, part, after, at_, ?_, ?_, ?_⟩
  · exact slice?_eq_some_iff.mpr ⟨left ++ before, after ++ right, whole, start, stop⟩
  · simp only [byteLen_append] at start
    omega
  · apply slice?_eq_some_iff.mpr
    refine ⟨left, right, ?_, from_, ?_⟩
    · rw [isResult]
      simp
    · simp only [byteLen_append] at start stop upTo ⊢
      omega

/-- The range of a Block after the text of the leaf at `path` grew or shrank: resized for the leaf
and what is above it, moved for what comes later. -/
def SpanMap.movedRange (path : BlockPath) (old : Range) (new_len : Nat) (block : BlockSpan) : Range :=
  if block.path <+: path then ⟨block.source.start, SpanMap.shift old new_len block.source.stop⟩
  else if Later path block.path then SpanMap.shiftRange old new_len block.source
  else block.source

namespace Buffer

variable {buffer : Buffer} {leaf block other : BlockSpan} {path : BlockPath} {new_len : Nat}

/-- A leaf of a buffer whose paths are those of Blocks. -/
structure LeafAt (buffer : Buffer) (path : BlockPath) (leaf : BlockSpan) : Prop where
  mem : leaf ∈ buffer.spans.blocks
  isPath : leaf.path = path
  isLeaf : leaf.isLeaf = true

/-- No Block before or above the edited one starts where it ends. -/
def Apart (buffer : Buffer) (path : BlockPath) (leaf : BlockSpan) : Prop :=
  ∀ other ∈ buffer.spans.blocks, other.path ≠ path → leaf.source.stop ≤ other.source.start →
    Later path other.path

instance (buffer : Buffer) (path : BlockPath) (leaf : BlockSpan) :
    Decidable (buffer.Apart path leaf) :=
  inferInstanceAs (Decidable (∀ other ∈ buffer.spans.blocks, _))

theorem applyBufferedEdit_eq_none (coherent : buffer.Coherent)
    (noLeaf : ∀ leaf, ¬ buffer.LeafAt path leaf) :
    buffer.spans.applyBufferedEdit path new_len = none := by
  unfold SpanMap.applyBufferedEdit
  split
  · rfl
  · rename_i index found
    split
    · rfl
    · rename_i block at_
      split
      · rfl
      · rename_i isLeaf
        rcases (byPath_eq_some_iff coherent.distinct).mp found with ⟨block', at_', isPath⟩
        rw [at_] at at_'
        cases at_'
        exact absurd ⟨List.mem_of_getElem? at_, isPath, by simpa using isLeaf⟩ (noLeaf block)

/-- The range of a Block after the arithmetic, which goes by offsets alone. -/
def rebased (path : BlockPath) (old : Range) (new_len : Nat) (block : BlockSpan) : Range :=
  if block.path = path then ⟨block.source.start, SpanMap.shift old new_len block.source.stop⟩
  else if old.stop ≤ block.source.start then SpanMap.shiftRange old new_len block.source
  else if block.path <+: path then
    ⟨block.source.start, SpanMap.shift old new_len block.source.stop⟩
  else block.source

/-- A Block as the arithmetic leaves it, but for its runs. -/
structure Becomes (block after : BlockSpan) (range : Range) : Prop where
  path : after.path = block.path
  children : after.children = block.children
  source : after.source = range

theorem rebase_becomes (coherent : buffer.Coherent) {index position : Nat}
    (at_ : buffer.spans.blocks[index]? = some leaf) (isPath : leaf.path = path)
    (at_' : buffer.spans.blocks[position]? = some block) :
    Becomes block (SpanMap.rebase path index leaf.source new_len position block)
      (rebased path leaf.source new_len block) := by
  have same_iff : position = index ↔ block.path = path := by
    constructor
    · intro same
      rw [same, at_] at at_'
      rw [← Option.some.inj at_', isPath]
    · intro same
      have found := (byPath_eq_some_iff coherent.distinct).mpr ⟨leaf, at_, isPath⟩
      have found' := (byPath_eq_some_iff coherent.distinct).mpr ⟨block, at_', same⟩
      rw [found] at found'
      exact (Option.some.inj found').symm
  unfold SpanMap.rebase rebased
  simp only [same_iff, List.isPrefixOf_iff_prefix]
  split
  · exact ⟨rfl, rfl, rfl⟩
  · split
    · exact ⟨rfl, rfl, rfl⟩
    · split
      · exact ⟨rfl, rfl, rfl⟩
      · exact ⟨rfl, rfl, rfl⟩

/-- The range a Block has after an edit of the leaf. -/
def landed (path : BlockPath) (old : Range) (new_len : Nat) (block : BlockSpan) : Range :=
  if new_len = old.stop - old.start then block.source else rebased path old new_len block

theorem forall₂_mapIdx {f : Nat → BlockSpan → BlockSpan} {R : BlockSpan → BlockSpan → Prop}
    {blocks : List BlockSpan}
    (each : ∀ (position : Nat) (block : BlockSpan), blocks[position]? = some block →
      R block (f position block)) :
    List.Forall₂ R blocks (blocks.mapIdx f) := by
  rw [List.forall₂_iff_get]
  refine ⟨List.length_mapIdx.symm, ?_⟩
  intro position inside inside'
  have at_ := List.getElem?_eq_getElem inside
  simpa using each position _ at_

/-- The arithmetic on the leaf at a path. -/
theorem applyBufferedEdit_eq_some (coherent : buffer.Coherent) (leafAt : buffer.LeafAt path leaf)
    (new_len : Nat) :
    ∃ after, buffer.spans.applyBufferedEdit path new_len = some (leaf.source, after) ∧
      after.frontmatter = buffer.spans.frontmatter ∧
      List.Forall₂ (fun block after => Becomes block after (landed path leaf.source new_len block))
        buffer.spans.blocks after.blocks := by
  rcases List.getElem?_of_mem leafAt.mem with ⟨index, at_⟩
  have found := (byPath_eq_some_iff coherent.distinct).mpr ⟨leaf, at_, leafAt.isPath⟩
  unfold SpanMap.applyBufferedEdit
  rw [found]
  dsimp only
  rw [at_]
  dsimp only
  rw [leafAt.isLeaf]
  by_cases same : new_len = leaf.source.stop - leaf.source.start
  · refine ⟨buffer.spans, ?_, rfl, ?_⟩
    · simp [same]
    · rw [List.forall₂_same]
      intro block _
      exact ⟨rfl, rfl, (if_pos same).symm⟩
  · refine ⟨_, if_neg same, rfl, ?_⟩
    apply forall₂_mapIdx
    intro position block at_'
    have becomes := @rebase_becomes _ _ _ _ new_len coherent _ _ at_ leafAt.isPath at_'
    unfold landed
    rwa [if_neg same]

/-- Against the edited leaf, a Block is above or the leaf itself, later, or before. -/
theorem Coherent.kinds (coherent : buffer.Coherent) (leafAt : buffer.LeafAt path leaf)
    (mem : block ∈ buffer.spans.blocks) :
    block.path <+: path ∨ Later path block.path ∨ Later block.path path := by
  rcases prefix_or_later block.path path with above | below | before | later
  · exact Or.inl above
  · rw [← leafAt.isPath] at below
    have same := coherent.leaf_prefix leafAt.mem leafAt.isLeaf mem below
    rw [same, leafAt.isPath]
    exact Or.inl List.prefix_rfl
  · exact Or.inr (Or.inr before)
  · exact Or.inr (Or.inl later)

theorem shift_width (old : Range) (offset : Nat) :
    SpanMap.shift old (old.stop - old.start) offset = offset :=
  Nat.add_sub_cancel _ _

/-- Where nothing before or above the leaf starts at its end, the arithmetic moves each Block as
its place in the document asks. -/
theorem landed_of_apart (coherent : buffer.Coherent) (leafAt : buffer.LeafAt path leaf)
    (apart : new_len = leaf.source.stop - leaf.source.start ∨ buffer.Apart path leaf)
    (mem : block ∈ buffer.spans.blocks) :
    landed path leaf.source new_len block = SpanMap.movedRange path leaf.source new_len block := by
  unfold landed SpanMap.movedRange
  by_cases same : new_len = leaf.source.stop - leaf.source.start
  · rw [if_pos same, same]
    unfold SpanMap.shiftRange
    simp only [shift_width, ite_self]
  · have apart := apart.resolve_left same
    rw [if_neg same]
    unfold rebased
    by_cases own : block.path = path
    · rw [if_pos own, own, if_pos List.prefix_rfl]
    · rw [if_neg own]
      by_cases above : block.path <+: path
      · have early : ¬ leaf.source.stop ≤ block.source.start :=
          fun late => (apart block mem own late).not_above.2 above
        rw [if_neg early, if_pos above, if_pos above]
      · rw [if_neg above, if_neg above]
        by_cases later : Later path block.path
        · rw [← leafAt.isPath] at later
          have late := coherent.before leafAt.mem mem later
          rw [leafAt.isPath] at later
          rw [if_pos later, if_pos (show leaf.source.stop ≤ block.source.start from late)]
        · have early : ¬ leaf.source.stop ≤ block.source.start :=
            fun late => later (apart block mem own late)
          rw [if_neg early, if_neg later]

theorem moved_above {old : Range} (above : block.path <+: path) :
    SpanMap.movedRange path old new_len block =
      ⟨block.source.start, SpanMap.shift old new_len block.source.stop⟩ :=
  if_pos above

theorem moved_later {old : Range} (later : Later path block.path) :
    SpanMap.movedRange path old new_len block = SpanMap.shiftRange old new_len block.source :=
  (if_neg later.not_above.2).trans (if_pos later)

theorem moved_before {old : Range} (before : Later block.path path) :
    SpanMap.movedRange path old new_len block = block.source :=
  (if_neg before.not_above.1).trans (if_neg before.asymm)

section Moved

variable (coherent : buffer.Coherent) (leafAt : buffer.LeafAt path leaf)

include coherent leafAt

/-- What is above the leaf contains it, what is later starts behind it, what is before ends
before it. -/
theorem Coherent.bounds (mem : block ∈ buffer.spans.blocks) :
    leaf.source.start ≤ leaf.source.stop ∧ block.source.start ≤ block.source.stop ∧
      (block.path <+: path → block.source.Contains leaf.source) ∧
      (Later path block.path → leaf.source.stop ≤ block.source.start) ∧
      (Later block.path path → block.source.stop ≤ leaf.source.start) := by
  refine ⟨coherent.ordered_range leafAt.mem, coherent.ordered_range mem, ?_, ?_, ?_⟩
  · intro above
    rw [← leafAt.isPath] at above
    exact coherent.contains mem leafAt.mem above
  · intro later
    rw [← leafAt.isPath] at later
    exact coherent.before leafAt.mem mem later
  · intro before
    rw [← leafAt.isPath] at before
    exact coherent.before mem leafAt.mem before

theorem moved_nested (mem : block ∈ buffer.spans.blocks) (mem' : other ∈ buffer.spans.blocks)
    {index : Nat} (isChild : other.path = block.path ++ [index]) :
    (SpanMap.movedRange path leaf.source new_len block).Contains
      (SpanMap.movedRange path leaf.source new_len other) := by
  have inside := coherent.nested block mem other mem' index isChild
  rcases coherent.bounds leafAt mem with ⟨width, size, contains, starts, ends⟩
  rcases coherent.bounds leafAt mem' with ⟨-, size', contains', starts', ends'⟩
  have isAbove : block.path <+: other.path := by
    rw [isChild]
    exact List.prefix_append _ _
  unfold Range.Contains at inside ⊢
  rcases coherent.kinds leafAt mem' with above' | later' | before'
  · have above := isAbove.trans above'
    rw [moved_above above, moved_above above']
    unfold SpanMap.shift
    dsimp only
    omega
  · have start' := starts' later'
    rw [moved_later later']
    unfold SpanMap.shiftRange SpanMap.shift
    rcases coherent.kinds leafAt mem with above | later | before
    · have around := contains above
      unfold Range.Contains at around
      rw [moved_above above]
      unfold SpanMap.shift
      dsimp only
      omega
    · have start := starts later
      rw [moved_later later]
      unfold SpanMap.shiftRange SpanMap.shift
      dsimp only
      omega
    · have back := before.append [index] []
      rw [← isChild, List.append_nil] at back
      exact absurd back later'.asymm
  · have end' := ends' before'
    rw [moved_before before']
    rcases coherent.kinds leafAt mem with above | later | before
    · have around := contains above
      unfold Range.Contains at around
      rw [moved_above above]
      unfold SpanMap.shift
      dsimp only
      omega
    · have onward := later.append [] [index]
      rw [← isChild, List.append_nil] at onward
      exact absurd onward before'.asymm
    · rw [moved_before before]
      exact inside

theorem moved_ordered (mem : block ∈ buffer.spans.blocks) (mem' : other ∈ buffer.spans.blocks)
    (apart : Later block.path other.path) :
    (SpanMap.movedRange path leaf.source new_len block).Before
      (SpanMap.movedRange path leaf.source new_len other) := by
  have order := coherent.before mem mem' apart
  rcases coherent.bounds leafAt mem with ⟨width, size, contains, starts, ends⟩
  rcases coherent.bounds leafAt mem' with ⟨-, size', contains', starts', ends'⟩
  unfold Range.Before at order ⊢
  have onward : block.path <+: path ∨ Later path block.path → Later path other.path := by
    rintro (⟨rest, isPath⟩ | later)
    · have after := apart.append rest []
      rwa [isPath, List.append_nil] at after
    · exact later.trans apart
  rcases coherent.kinds leafAt mem with above | later | before
  · have later' := onward (Or.inl above)
    rw [moved_above above, moved_later later']
    have start' := starts' later'
    unfold SpanMap.shiftRange SpanMap.shift
    dsimp only
    omega
  · have later' := onward (Or.inr later)
    rw [moved_later later, moved_later later']
    unfold SpanMap.shiftRange SpanMap.shift
    dsimp only
    omega
  · have stop := ends before
    rw [moved_before before]
    rcases coherent.kinds leafAt mem' with above' | later' | before'
    · rw [moved_above above']
      exact order
    · have start' := starts' later'
      rw [moved_later later']
      unfold SpanMap.shiftRange SpanMap.shift
      dsimp only
      omega
    · rw [moved_before before']
      exact order

/-- What a Block reads as after the edit: for the leaf and what is above it the old text with the
new one in it, and otherwise what it read as before. -/
theorem moved_slice {text source : Text} (spliced : splice? buffer.source leaf.source text = some source)
    (mem : block ∈ buffer.spans.blocks) :
    (block.path <+: path → ∃ before part after,
        slice? buffer.source block.source = some (before ++ part ++ after) ∧
        slice? buffer.source leaf.source = some part ∧
        block.source.start + byteLen before = leaf.source.start ∧
        slice? source (SpanMap.movedRange path leaf.source (byteLen text) block) =
          some (before ++ text ++ after)) ∧
      (¬ block.path <+: path →
        slice? source (SpanMap.movedRange path leaf.source (byteLen text) block) =
          slice? buffer.source block.source) := by
  have sliced := coherent.placed block mem
  rcases coherent.bounds leafAt mem with ⟨width, size, contains, starts, ends⟩
  constructor
  · intro above
    rw [moved_above above]
    exact slice?_splice?_around spliced (contains above) sliced
  · intro apart
    rcases (coherent.kinds leafAt mem).resolve_left apart with later | before
    · have start := starts later
      have same : SpanMap.shiftRange leaf.source (byteLen text) block.source =
          block.source.shiftedBy leaf.source (byteLen text) := by
        unfold SpanMap.shiftRange SpanMap.shift Range.shiftedBy
        rw [Range.mk.injEq]
        constructor
        · omega
        · omega
      rw [moved_later later, same]
      exact slice?_splice?_after spliced start sliced
    · rw [moved_before before]
      exact slice?_splice?_before spliced (ends before) sliced

end Moved

end Buffer

end Burlmd.Markdown
