import Mathlib.Data.List.Basic
import Mathlib.Tactic.Common
import Burlmd.Markdown.SpanFidelity

/-!
# Coherence of the span map

Coherence is a property of all Blocks together: each addresses bytes of the text,
a child stays inside its parent, and siblings follow one another in the order of
their paths. It is read off the emitted blocks, where it is local to each of them.
-/

namespace Burlmd.Markdown

open Utf8
open SpanMapBuilder (childrenOf mem_childrenOf)

/-- A range that is not empty and lies in the text, on character boundaries. -/
def Covers (source : Text) (range : Range) : Prop :=
  range.start < range.stop ∧ (slice? source range).isSome

structure SpanMap.Coherent (source : Text) (spans : SpanMap) : Prop where
  placed : ∀ block ∈ spans.blocks, Covers source block.source
  nested : ∀ parent ∈ spans.blocks, ∀ block ∈ spans.blocks, ∀ index,
    block.path = parent.path ++ [index] → parent.source.Contains block.source
  ordered : ∀ left ∈ spans.blocks, ∀ right ∈ spans.blocks, ∀ base first second,
    left.path = base ++ [first] → right.path = base ++ [second] → first < second →
      left.source.Before right.source

/-- Splicing one Block leaves the bytes of every Block that is neither above nor below it. -/
def SpanMap.Isolates (source : Text) (spans : SpanMap) : Prop :=
  ∀ block ∈ spans.blocks, ∀ other ∈ spans.blocks, ¬ other.path <+: block.path →
    (block.isLeaf = true ∨ ¬ block.path <+: other.path) →
    ∀ replacement result, splice? source block.source replacement = some result →
      slice? result (other.source.moved block.source (byteLen replacement)) =
        slice? source other.source

/-! ## Emitted blocks -/

/-- The ranges of the registered blocks among `blocks`. -/
def sources (blocks : List Emitted) : List Range := blocks.filterMap Emitted.source?

@[simp] theorem sources_nil : sources [] = [] := rfl

@[simp] theorem sources_append (first second : List Emitted) :
    sources (first ++ second) = sources first ++ sources second := by
  simp [sources]

@[simp] theorem sources_cons (block : Emitted) (rest : List Emitted) :
    sources (block :: rest) = block.source?.toList ++ sources rest := by
  cases own : block.source? <;> simp [sources, own]

theorem mem_sources {blocks : List Emitted} {range : Range} :
    range ∈ sources blocks ↔ ∃ block ∈ blocks, block.source? = some range := by
  simp [sources]

/-- Registered blocks follow one another in source order. -/
def Ordered (blocks : List Emitted) : Prop := (sources blocks).Pairwise Range.Before

theorem ordered_iff {blocks : List Emitted} :
    Ordered blocks ↔ ∀ (first second : Nat) (left right : Emitted) (a b : Range), first < second →
      blocks[first]? = some left → blocks[second]? = some right → left.source? = some a →
      right.source? = some b → a.Before b := by
  rw [Ordered, sources, List.pairwise_filterMap, List.pairwise_iff_getElem]
  constructor
  · intro pairs first second left right a b lt at_first at_second own_left own_right
    obtain ⟨inside, rfl⟩ := List.getElem?_eq_some_iff.mp at_first
    obtain ⟨inside', rfl⟩ := List.getElem?_eq_some_iff.mp at_second
    exact pairs first second inside inside' lt a own_left b own_right
  · intro each first second inside inside' lt a own_left b own_right
    exact each first second _ _ a b lt (List.getElem?_eq_getElem inside)
      (List.getElem?_eq_getElem inside') own_left own_right

namespace Emitted

/-- What coherence asks of one block and the blocks it holds. -/
structure Orderly (source : Text) (block : Emitted) : Prop where
  covers : ∀ span, block.source? = some span → Covers source span
  ordered : Ordered block.children
  inside : ∀ span, block.source? = some span → ∀ range ∈ sources block.children,
    span.Contains range

/-- A block and every block below it are orderly. -/
def OrderlyBelow (source : Text) (block : Emitted) : Prop :=
  block.Orderly source ∧
    ∀ path inner, lookup block.children path = some inner → inner.Orderly source

end Emitted

theorem orderly_lookup_iff {source : Text} {blocks : List Emitted} :
    (∀ path block, lookup blocks path = some block → block.Orderly source) ↔
      ∀ block ∈ blocks, block.OrderlyBelow source := by
  constructor
  · intro each block member
    obtain ⟨index, at_⟩ := List.getElem?_of_mem member
    refine ⟨each [index] block at_, fun path inner found => ?_⟩
    refine each (index :: path) inner (lookup_cons_some.mpr ⟨block, at_, .inr ⟨?_, found⟩⟩)
    rintro rfl
    simp [lookup] at found
  · intro each path block found
    cases path with
    | nil => simp [lookup] at found
    | cons index rest =>
      obtain ⟨first, at_, ⟨-, rfl⟩ | ⟨-, below⟩⟩ := lookup_cons_some.mp found
      · exact (each _ (List.mem_of_getElem? at_)).1
      · exact (each _ (List.mem_of_getElem? at_)).2 rest block below

theorem Emitted.orderlyBelow_iff {source : Text} {block : Emitted} :
    block.OrderlyBelow source ↔
      block.Orderly source ∧ ∀ child ∈ block.children, child.OrderlyBelow source := by
  rw [Emitted.OrderlyBelow, orderly_lookup_iff]

structure CoherentBlocks (source : Text) (blocks : List Emitted) : Prop where
  ordered : Ordered blocks
  below : ∀ block ∈ blocks, block.OrderlyBelow source

section Bridge

variable {source : Text} {blocks : List Emitted} {frontmatter : Option Range}

/-- An entry of the finished map is a registered block at its path. -/
theorem mem_finished {path : BlockPath} {range : Range} :
    (∃ entry ∈ finished blocks frontmatter, entry.path = path ∧ entry.source = range) ↔
      ∃ block, lookup blocks path = some block ∧ block.source? = some range := by
  have same (index : Nat) :
      (finished blocks frontmatter)[index]?.map (fun entry => (entry.path, entry.source)) =
        (registerAll [] 0 blocks)[index]?.map fun entry => (entry.path, entry.source) := by
    have shape := congrArg (Option.map fun entry : BlockSpan => (entry.path, entry.source))
      (finished_shape blocks frontmatter index)
    simp only [Option.map_map] at shape
    exact shape
  have members (pair : BlockPath × Range) :
      pair ∈ (finished blocks frontmatter).map (fun entry => (entry.path, entry.source)) ↔
        pair ∈ (registerAll [] 0 blocks).map fun entry => (entry.path, entry.source) := by
    rw [List.mem_iff_getElem?, List.mem_iff_getElem?]
    simp only [List.getElem?_map, same]
  have registered : (path, range) ∈ (registerAll [] 0 blocks).map
      (fun entry => (entry.path, entry.source)) ↔
        ∃ block, lookup blocks path = some block ∧ block.source? = some range := by
    simp only [List.mem_map, mem_registered]
    constructor
    · rintro ⟨_, ⟨path', block, range', found, own, rfl⟩, pair⟩
      obtain ⟨rfl, rfl⟩ := Prod.mk.inj pair
      exact ⟨block, found, own⟩
    · rintro ⟨block, found, own⟩
      exact ⟨_, ⟨path, block, range, found, own, rfl⟩, rfl⟩
  rw [← registered, ← members, List.mem_map]
  simp only [Prod.mk.injEq]

theorem lookup_of_mem_finished {entry : BlockSpan} (member : entry ∈ finished blocks frontmatter) :
    ∃ block, lookup blocks entry.path = some block ∧ block.source? = some entry.source :=
  mem_finished.mp ⟨entry, member, rfl, rfl⟩

/-- The map is coherent exactly when the emitted blocks are. -/
theorem coherent_iff :
    SpanMap.Coherent source (SpanMapBuilder.finish ⟨registerAll [] 0 blocks, frontmatter⟩) ↔
      CoherentBlocks source blocks := by
  constructor
  · intro coherent
    have entry (path : BlockPath) {block : Emitted} {range : Range}
        (found : lookup blocks path = some block) (own : block.source? = some range) :
        ∃ entry ∈ finished blocks frontmatter, entry.path = path ∧ entry.source = range :=
      mem_finished.mpr ⟨block, found, own⟩
    refine ⟨ordered_iff.mpr ?_, orderly_lookup_iff.mp fun path block found => ⟨?_, ?_, ?_⟩⟩
    · intro first second left right a b lt at_first at_second own_left own_right
      obtain ⟨one, member, path_one, rfl⟩ := entry [first] at_first own_left
      obtain ⟨two, member', path_two, rfl⟩ := entry [second] at_second own_right
      exact coherent.ordered one member two member' [] first second path_one path_two lt
    · intro span own
      obtain ⟨one, member, -, rfl⟩ := entry _ found own
      exact coherent.placed one member
    · have rooted : path ≠ [] := by
        rintro rfl
        simp [lookup] at found
      refine ordered_iff.mpr ?_
      intro first second left right a b lt at_first at_second own_left own_right
      obtain ⟨one, member, path_one, rfl⟩ :=
        entry _ ((lookup_snoc rooted).mpr ⟨block, found, at_first⟩) own_left
      obtain ⟨two, member', path_two, rfl⟩ :=
        entry _ ((lookup_snoc rooted).mpr ⟨block, found, at_second⟩) own_right
      exact coherent.ordered one member two member' path first second path_one path_two lt
    · intro span own range inner
      have rooted : path ≠ [] := by
        rintro rfl
        simp [lookup] at found
      obtain ⟨child, held, own_child⟩ := mem_sources.mp inner
      obtain ⟨index, at_⟩ := List.getElem?_of_mem held
      obtain ⟨one, member, path_one, rfl⟩ := entry _ found own
      obtain ⟨two, member', path_two, rfl⟩ :=
        entry _ ((lookup_snoc rooted).mpr ⟨block, found, at_⟩) own_child
      exact coherent.nested one member two member' index (by rw [path_one, path_two])
  · intro coherent
    have orderly := orderly_lookup_iff.mpr coherent.below
    refine ⟨fun entry member => ?_, ?_, ?_⟩
    · obtain ⟨block, found, own⟩ := lookup_of_mem_finished member
      exact (orderly entry.path block found).covers _ own
    · intro parent member entry member' index path
      obtain ⟨outer, found, own⟩ := lookup_of_mem_finished member
      obtain ⟨inner, found', own'⟩ := lookup_of_mem_finished member'
      have rooted : parent.path ≠ [] := by
        intro empty
        simp [empty, lookup] at found
      rw [path] at found'
      obtain ⟨holder, same, held⟩ := (lookup_snoc rooted).mp found'
      obtain rfl : outer = holder := by simpa [found] using same
      exact (orderly parent.path outer found).inside _ own _
        (mem_sources.mpr ⟨inner, List.mem_of_getElem? held, own'⟩)
    · intro left member right member' base first second path path' lt
      obtain ⟨one, found, own⟩ := lookup_of_mem_finished member
      obtain ⟨two, found', own'⟩ := lookup_of_mem_finished member'
      rw [path] at found
      rw [path'] at found'
      cases base with
      | nil => exact ordered_iff.mp coherent.ordered first second one two _ _ lt found found' own own'
      | cons top base =>
        obtain ⟨holder, here, held⟩ := (lookup_snoc (List.cons_ne_nil top base)).mp found
        obtain ⟨holder', here', held'⟩ := (lookup_snoc (List.cons_ne_nil top base)).mp found'
        obtain rfl : holder = holder' := by simpa [here] using here'
        exact ordered_iff.mp (orderly _ holder here).ordered first second one two _ _ lt held held'
          own own'

end Bridge

/-! ## Isolation -/

theorem Emitted.source?_of_child {block child : Emitted} (member : child ∈ block.children) :
    block.source?.isSome := by
  cases block with
  | leaf => simp [Emitted.children] at member
  | container => rfl

/-- A registered block lies inside every block above it. -/
theorem CoherentBlocks.above {source : Text} {blocks : List Emitted}
    (coherent : CoherentBlocks source blocks) (path : BlockPath) (rooted : path ≠ [])
    (rest : BlockPath) {inner : Emitted} {range : Range}
    (found : lookup blocks (path ++ rest) = some inner) (own : inner.source? = some range) :
    ∃ outer span, lookup blocks path = some outer ∧ outer.source? = some span ∧
      span.Contains range := by
  induction rest using List.reverseRecOn generalizing inner range with
  | nil => exact ⟨inner, range, by simpa using found, own, Range.Contains.refl _⟩
  | append_singleton upper index ih =>
    rw [← List.append_assoc] at found
    obtain ⟨holder, here, held⟩ := (lookup_snoc (by simp [rooted])).mp found
    have member := List.mem_of_getElem? held
    obtain ⟨span, own_holder⟩ := Option.isSome_iff_exists.mp (Emitted.source?_of_child member)
    obtain ⟨outer, top, at_, own_outer, contains⟩ := ih here own_holder
    have orderly := orderly_lookup_iff.mpr coherent.below _ holder here
    exact ⟨outer, top, at_, own_outer,
      contains.trans (orderly.inside _ own_holder _ (mem_sources.mpr ⟨inner, member, own⟩))⟩

/-- Two paths neither of which is above the other part at some component. -/
theorem paths_part {left right : BlockPath} (not_above : ¬ left <+: right)
    (not_below : ¬ right <+: left) :
    ∃ base first second s t, first ≠ second ∧ left = base ++ first :: s ∧
      right = base ++ second :: t := by
  induction left generalizing right with
  | nil => simp at not_above
  | cons first s ih =>
    cases right with
    | nil => simp at not_below
    | cons second t =>
      by_cases same : first = second
      · subst same
        simp only [List.cons_prefix_cons, true_and] at not_above not_below
        obtain ⟨base, one, two, s', t', ne, rfl, rfl⟩ := ih not_above not_below
        exact ⟨first :: base, one, two, s', t', ne, rfl, rfl⟩
      · exact ⟨[], first, second, s, t, same, rfl, rfl⟩

/-- Registered blocks on paths that part do not overlap. -/
theorem CoherentBlocks.disjoint {source : Text} {blocks : List Emitted}
    (coherent : CoherentBlocks source blocks) {left right : BlockPath} {one two : Emitted}
    {a b : Range} (found : lookup blocks left = some one) (own : one.source? = some a)
    (found' : lookup blocks right = some two) (own' : two.source? = some b)
    (not_above : ¬ left <+: right) (not_below : ¬ right <+: left) : a.Before b ∨ b.Before a := by
  obtain ⟨base, first, second, s, t, ne, rfl, rfl⟩ := paths_part not_above not_below
  obtain ⟨outer, span, top, own_top, contains⟩ := coherent.above (base ++ [first])
    (by simp) s (by simpa using found) own
  obtain ⟨outer', span', top', own_top', contains'⟩ := coherent.above (base ++ [second])
    (by simp) t (by simpa using found') own'
  have spans : CoherentBlocks source blocks ↔
      SpanMap.Coherent source (SpanMapBuilder.finish ⟨registerAll [] 0 blocks, none⟩) :=
    coherent_iff.symm
  have ordered := (spans.mp coherent).ordered
  obtain ⟨entry, member, path, rfl⟩ := mem_finished.mpr ⟨outer, top, own_top⟩
  obtain ⟨entry', member', path', rfl⟩ :=
    mem_finished.mpr ⟨outer', top', own_top'⟩
  rcases Nat.lt_or_gt_of_ne ne with lt | gt
  · have before := ordered entry member entry' member' base first second path path' lt
    exact .inl (Nat.le_trans contains.2 (Nat.le_trans before contains'.1))
  · have before := ordered entry' member' entry member base second first path' path gt
    exact .inr (Nat.le_trans contains'.2 (Nat.le_trans before contains.1))

/-- Nothing is registered below a leaf. -/
theorem leaf_prefix_eq {blocks : List Emitted} {frontmatter : Option Range}
    {block other : BlockSpan} (member : block ∈ finished blocks frontmatter)
    (member' : other ∈ finished blocks frontmatter) (leaf : block.isLeaf = true)
    (above : block.path <+: other.path) : other.path = block.path := by
  obtain ⟨rest, split_⟩ := above
  cases rest with
  | nil => simpa using split_.symm
  | cons index rest =>
    exfalso
    obtain ⟨one, found, own⟩ := lookup_of_mem_finished member
    obtain ⟨two, found', own'⟩ := lookup_of_mem_finished member'
    have rooted : block.path ≠ [] := by
      intro empty
      simp [empty, lookup] at found
    have child : ∃ inner, lookup blocks (block.path ++ [index]) = some inner ∧
        inner.source?.isSome := by
      cases rest with
      | nil => exact ⟨two, by rw [split_]; exact found', by simp [own']⟩
      | cons next rest =>
        have deeper : lookup blocks ((block.path ++ [index]) ++ (next :: rest)) = some two := by
          rw [List.append_assoc]
          exact split_ ▸ found'
        obtain ⟨inner, at_, below⟩ := lookup_append (by simp) (by simp) deeper
        cases inner with
        | leaf => simp [Emitted.children] at below
        | container kind range children => exact ⟨_, at_, rfl⟩
    obtain ⟨inner, at_, registered⟩ := child
    have known := mem_paths.mpr ⟨inner, at_, registered⟩
    obtain ⟨entry, entered, path⟩ := List.mem_map.mp known
    obtain ⟨position, at_child⟩ := List.getElem?_of_mem entered
    obtain ⟨place, at_block⟩ := List.getElem?_of_mem member
    have shape := finished_shape blocks frontmatter place
    rw [at_block, Option.map_some, eq_comm, Option.map_eq_some_iff] at shape
    obtain ⟨parent, at_parent, same⟩ := shape
    obtain ⟨own_path, own_children⟩ : parent.path = block.path ∧
        childrenOf (registerAll [] 0 blocks) place = block.children := by
      simpa using And.intro (congrArg BlockSpan.path same) (congrArg BlockSpan.children same)
    have linked : position ∈ childrenOf (registerAll [] 0 blocks) place := by
      refine (mem_childrenOf (registerAll_nodup blocks [] 0)).mpr
        ⟨entry, parent, at_child, at_parent, ?_, by rw [path, own_path]; simp⟩
      have := List.length_pos_of_ne_nil rooted
      rw [path]
      simp
      omega
    have none_ : block.children = [] := List.isEmpty_iff.mp leaf
    rw [own_children, none_] at linked
    simp at linked

/-- In a coherent map, splicing a Block leaves the bytes of the others. -/
theorem CoherentBlocks.isolates {source : Text} {blocks : List Emitted}
    {frontmatter : Option Range} (coherent : CoherentBlocks source blocks) :
    SpanMap.Isolates source (SpanMapBuilder.finish ⟨registerAll [] 0 blocks, frontmatter⟩) := by
  intro block member other member' not_above apart replacement result spliced
  obtain ⟨one, found, own⟩ := lookup_of_mem_finished member
  obtain ⟨two, found', own'⟩ := lookup_of_mem_finished member'
  have not_below : ¬ block.path <+: other.path := by
    obtain leaf | apart := apart
    · intro below
      exact not_above (leaf_prefix_eq member member' leaf below ▸ List.prefix_refl _)
    · exact apart
  have covers := (orderly_lookup_iff.mpr coherent.below _ two found').covers _ own'
  have covers_own := (orderly_lookup_iff.mpr coherent.below _ one found).covers _ own
  exact slice?_splice?_moved spliced (coherent.disjoint found own found' own' not_below not_above)
    covers_own.1 covers.1 covers.2

end Burlmd.Markdown
