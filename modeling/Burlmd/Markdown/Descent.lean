import Burlmd.Markdown.Finish
import Burlmd.Markdown.Resolution

/-!
# Resolution in containers

The rendered text of a container is that of its children, one line break between each two. An offset
of it belongs to exactly one child, and resolution descends to the leaf that the offset is in.
-/

namespace Burlmd.Markdown

open Utf8

theorem forall₂_getElem? {α β : Type*} {R : α → β → Prop} {first : List α} {second : List β}
    (each : List.Forall₂ R first second) {place : Nat} {a : α} (here : first[place]? = some a) :
    ∃ b, second[place]? = some b ∧ R a b := by
  induction each generalizing place with
  | nil => cases here
  | cons related _ ih =>
    cases place with
    | zero =>
      rw [List.getElem?_cons_zero] at here
      cases here
      exact ⟨_, List.getElem?_cons_zero, related⟩
    | succ place =>
      rw [List.getElem?_cons_succ] at here
      rcases ih here with ⟨b, at_, related⟩
      exact ⟨b, at_, related⟩

namespace SpanMap

variable {spans : SpanMap} {source : Text}

/-! ## Children -/

/-- The rendered length of the Block at an index. -/
def lengthOf (spans : SpanMap) (index : Nat) : Nat :=
  (spans.blocks[index]?.map BlockSpan.rendered_len).getD 0

/-- The offsets that some children take up, each with the line break behind it. -/
def extent (spans : SpanMap) (children : List Nat) : Nat :=
  (children.map fun child => spans.lengthOf child + 1).sum

theorem lengthOf_eq {index : Nat} {block : BlockSpan} (here : spans.blocks[index]? = some block) :
    spans.lengthOf index = block.rendered_len := by
  unfold lengthOf
  rw [here]
  rfl

@[simp] theorem extent_nil : spans.extent [] = 0 := rfl

@[simp] theorem extent_cons (child : Nat) (rest : List Nat) :
    spans.extent (child :: rest) = spans.lengthOf child + 1 + spans.extent rest := by
  unfold extent
  rw [List.map_cons, List.sum_cons]

theorem joinedLength_eq (children : List Nat) :
    SpanMapBuilder.joinedLength spans.blocks children = spans.extent children - 1 := by
  have joined : (children.map fun child => spans.lengthOf child).sum + children.length =
      spans.extent children := by
    induction children with
    | nil => rfl
    | cons child rest ih =>
      rw [extent_cons, ← ih, List.map_cons, List.sum_cons, List.length_cons]
      omega
  rw [← joined]
  rfl

theorem extent_take_succ {children : List Nat} {place child : Nat}
    (here : children[place]? = some child) :
    spans.extent (children.take (place + 1)) =
      spans.extent (children.take place) + (spans.lengthOf child + 1) := by
  induction children generalizing place with
  | nil => cases here
  | cons first rest ih =>
    cases place with
    | zero =>
      rw [List.getElem?_cons_zero] at here
      rw [Option.some.inj here]
      simp
    | succ place =>
      rw [List.getElem?_cons_succ] at here
      rw [List.take_succ_cons, List.take_succ_cons, extent_cons, extent_cons, ih here]
      omega

theorem extent_take_le {children : List Nat} {first second : Nat} (le : first ≤ second) :
    spans.extent (children.take first) ≤ spans.extent (children.take second) := by
  rcases List.take_prefix_take_left le with ⟨tail, whole⟩
  rw [← whole]
  unfold extent
  rw [List.map_append, List.sum_append]
  exact Nat.le_add_right _ _

/-- An offset is in the child at a place, or on the line break behind it. -/
structure Holds (spans : SpanMap) (children : List Nat) (rendered_offset place child : Nat) :
    Prop where
  here : children[place]? = some child
  low : spans.extent (children.take place) ≤ rendered_offset
  high : rendered_offset ≤ spans.extent (children.take place) + spans.lengthOf child

/-- Every offset of a container is in one of its children. -/
theorem exists_holds {children : List Nat} {rendered_offset : Nat}
    (within : rendered_offset < spans.extent children) :
    ∃ place child, spans.Holds children rendered_offset place child := by
  induction children generalizing rendered_offset with
  | nil => cases within
  | cons first rest ih =>
    rcases Nat.lt_or_ge (spans.lengthOf first) rendered_offset with behind | inside
    · rw [extent_cons] at within
      have later : rendered_offset - (spans.lengthOf first + 1) < spans.extent rest := by omega
      rcases ih later with ⟨place, child, holds⟩
      refine ⟨place + 1, child, ?_⟩
      have low := holds.low
      have high := holds.high
      constructor
      · rw [List.getElem?_cons_succ]
        exact holds.here
      · rw [List.take_succ_cons, extent_cons]
        omega
      · rw [List.take_succ_cons, extent_cons]
        omega
    · refine ⟨0, first, rfl, Nat.zero_le _, ?_⟩
      rw [List.take_zero, extent_nil, Nat.zero_add]
      exact inside

/-- The child that resolution descends to is the one that holds the offset. -/
theorem childAt_of_holds {children : List Nat} {rendered_offset place child : Nat}
    (holds : spans.Holds children rendered_offset place child) :
    spans.childAt rendered_offset 0 children =
      some (child, rendered_offset - spans.extent (children.take place)) := by
  have from_ (consumed place : Nat) (children : List Nat) (here : children[place]? = some child)
      (low : consumed + spans.extent (children.take place) ≤ rendered_offset)
      (high : rendered_offset ≤
        consumed + spans.extent (children.take place) + spans.lengthOf child) :
      spans.childAt rendered_offset consumed children =
        some (child, rendered_offset - (consumed + spans.extent (children.take place))) := by
    induction children generalizing consumed place with
    | nil => cases here
    | cons first rest ih =>
      unfold childAt
      cases place with
      | zero =>
        rw [List.getElem?_cons_zero] at here
        cases here
        rw [List.take_zero, extent_nil, Nat.add_zero] at high
        exact if_pos high
      | succ place =>
        rw [List.getElem?_cons_succ] at here
        rw [List.take_succ_cons, extent_cons] at low high ⊢
        have beyond : ¬ rendered_offset ≤ consumed + spans.lengthOf first := by omega
        refine Eq.trans (if_neg beyond) ?_
        rw [← Nat.add_assoc, ← Nat.add_assoc] at low high ⊢
        exact ih (consumed + spans.lengthOf first + 1) place here low high
  have found := from_ 0 place children holds.here
  rw [Nat.zero_add] at found
  exact found holds.low holds.high

/-- Of two offsets the earlier one is not in a later child. -/
theorem Holds.place_le {children : List Nat} {first second place place' child child' : Nat}
    (holds : spans.Holds children first place child)
    (holds' : spans.Holds children second place' child') (le : first ≤ second) :
    place ≤ place' := by
  apply Nat.le_of_not_lt
  intro later
  have apart : spans.extent (children.take (place' + 1)) ≤ spans.extent (children.take place) :=
    extent_take_le later
  rw [extent_take_succ holds'.here] at apart
  have low := holds.low
  have high := holds'.high
  omega

/-! ## The tree -/

/-- What linking and measuring make of a map: the runs of its leaves are laid out, and a container
holds Blocks one component below it, in the order of their paths. -/
structure Linked (source : Text) (spans : SpanMap) : Prop where
  distinct : (spans.blocks.map BlockSpan.path).Nodup
  leaves : ∀ block ∈ spans.blocks, block.isLeaf = true → block.Runs source
  lengths : ∀ block ∈ spans.blocks, block.isLeaf = false →
    block.rendered_len = SpanMapBuilder.joinedLength spans.blocks block.children
  children : ∀ block ∈ spans.blocks, ∃ components : List Nat, components.Pairwise (· < ·) ∧
    List.Forall₂ (fun child component => ∃ below, spans.blocks[child]? = some below ∧
      below.path = block.path ++ [component]) block.children components
  /-- Every Block one component below is a child. -/
  reaches : ∀ block ∈ spans.blocks, block.path ≠ [] → ∀ (child component : Nat) (below : BlockSpan),
    spans.blocks[child]? = some below → below.path = block.path ++ [component] →
    child ∈ block.children

namespace Linked

variable {block : BlockSpan} {index place child : Nat}

/-- A child of a Block is one component below it. -/
theorem child_at (linked : spans.Linked source) (member : block ∈ spans.blocks)
    (here : block.children[place]? = some child) :
    ∃ below component, spans.blocks[child]? = some below ∧
      below.path = block.path ++ [component] := by
  rcases linked.children block member with ⟨components, -, each⟩
  rcases forall₂_getElem? each here with ⟨component, -, below, at_, path⟩
  exact ⟨below, component, at_, path⟩

/-- Children stand in the order of their last components. -/
theorem children_ordered (linked : spans.Linked source) (member : block ∈ spans.blocks)
    {place' child' : Nat} (lt : place < place') (here : block.children[place]? = some child)
    (here' : block.children[place']? = some child') :
    ∃ below below' component component', spans.blocks[child]? = some below ∧
      below.path = block.path ++ [component] ∧ spans.blocks[child']? = some below' ∧
      below'.path = block.path ++ [component'] ∧ component < component' := by
  rcases linked.children block member with ⟨components, sorted, each⟩
  rcases forall₂_getElem? each here with ⟨component, first, below, at_, path⟩
  rcases forall₂_getElem? each here' with ⟨component', second, below', at_', path'⟩
  refine ⟨below, below', component, component', at_, path, at_', path', ?_⟩
  rcases List.getElem?_eq_some_iff.mp first with ⟨bound, same⟩
  rcases List.getElem?_eq_some_iff.mp second with ⟨bound', same'⟩
  rw [← same, ← same']
  exact List.pairwise_iff_getElem.mp sorted place place' bound bound' lt

end Linked

/-- How many Blocks have a longer path. -/
def deeper (spans : SpanMap) (path : BlockPath) : Nat :=
  spans.blocks.countP fun block => path.length < block.path.length

theorem deeper_lt {path : BlockPath} {below : BlockSpan} (member : below ∈ spans.blocks)
    (longer : path.length < below.path.length) :
    spans.deeper below.path < spans.deeper path := by
  have count (blocks : List BlockSpan) (member : below ∈ blocks) :
      blocks.countP (fun block => below.path.length < block.path.length) <
        blocks.countP fun block => path.length < block.path.length := by
    induction blocks with
    | nil => cases member
    | cons first rest ih =>
      have rest_le : rest.countP (fun block => below.path.length < block.path.length) ≤
          rest.countP fun block => path.length < block.path.length := by
        apply List.countP_mono_left
        intro block _ longer'
        exact decide_eq_true (Nat.lt_trans longer (of_decide_eq_true longer'))
      rw [List.countP_cons, List.countP_cons]
      rcases List.mem_cons.mp member with same | later
      · rw [← same, if_neg (by simp), if_pos (by simpa using longer)]
        omega
      · have lt := ih later
        by_cases longer' : below.path.length < first.path.length
        · rw [if_pos (by simpa using longer'), if_pos (by simpa using Nat.lt_trans longer longer')]
          omega
        · rw [if_neg (by simpa using longer')]
          omega
  exact count spans.blocks member

/-- The fuel of resolution is enough for every Block. -/
theorem deeper_le (path : BlockPath) : spans.deeper path < spans.blocks.length + 1 :=
  Nat.lt_succ_of_le List.countP_le_length

/-! ## Descent -/

theorem isLeaf_eq_false {block : BlockSpan} {place child : Nat}
    (here : block.children[place]? = some child) : block.isLeaf = false := by
  cases children : block.children with
  | nil =>
    rw [children] at here
    cases here
  | cons first rest =>
    unfold BlockSpan.isLeaf
    rw [children]
    rfl

/-- The leaf that an offset of a Block is in, and the offset in it. -/
inductive Descends (spans : SpanMap) : Nat → Nat → Nat → Nat → Prop
  | leaf {index rendered_offset : Nat} {block : BlockSpan}
      (here : spans.blocks[index]? = some block) (isLeaf : block.isLeaf = true)
      (high : rendered_offset ≤ block.rendered_len) :
      Descends spans index rendered_offset index rendered_offset
  | child {index place child rendered_offset leaf within : Nat} {block : BlockSpan}
      (here : spans.blocks[index]? = some block) (below : block.children[place]? = some child)
      (descends : Descends spans child rendered_offset leaf within) :
      Descends spans index (spans.extent (block.children.take place) + rendered_offset) leaf within

section Descent

variable {block : BlockSpan} {fuel index place child rendered_offset second leaf leaf' within
  within' : Nat}

theorem resolveAt_leaf (here : spans.blocks[index]? = some block) (isLeaf : block.isLeaf = true)
    (high : rendered_offset ≤ block.rendered_len) :
    spans.resolveAt source (fuel + 1) index rendered_offset =
      resolveRuns source block rendered_offset none block.runs := by
  rw [resolveAt, here, Option.bind_some, if_neg (Nat.not_lt.mpr high), if_pos isLeaf]

theorem resolveAt_child (here : spans.blocks[index]? = some block)
    (container : block.isLeaf = false) (high : rendered_offset ≤ block.rendered_len)
    (holds : spans.Holds block.children rendered_offset place child) :
    spans.resolveAt source (fuel + 1) index rendered_offset =
      spans.resolveAt source fuel child
        (rendered_offset - spans.extent (block.children.take place)) := by
  rw [resolveAt, here, Option.bind_some, if_neg (Nat.not_lt.mpr high), container,
    if_neg Bool.false_ne_true, childAt_of_holds holds, Option.bind_some]

/-- Every offset of a container is in one of its children. -/
theorem Linked.holds (linked : spans.Linked source) (here : spans.blocks[index]? = some block)
    (container : block.isLeaf = false) (high : rendered_offset ≤ block.rendered_len) :
    ∃ place child, spans.Holds block.children rendered_offset place child := by
  apply exists_holds
  rw [linked.lengths block (List.mem_of_getElem? here) container, joinedLength_eq] at high
  cases children : block.children with
  | nil =>
    unfold BlockSpan.isLeaf at container
    rw [children] at container
    cases container
  | cons first rest =>
    rw [children, extent_cons] at high
    rw [extent_cons]
    omega

/-- The offsets of a child are offsets of the container. -/
theorem Linked.child_within (linked : spans.Linked source)
    (here : spans.blocks[index]? = some block) (below : block.children[place]? = some child) :
    spans.extent (block.children.take place) + spans.lengthOf child ≤ block.rendered_len := by
  rw [linked.lengths block (List.mem_of_getElem? here) (isLeaf_eq_false below), joinedLength_eq]
  have inside := (List.getElem?_eq_some_iff.mp below).1
  have le : spans.extent (block.children.take (place + 1)) ≤
      spans.extent (block.children.take block.children.length) := extent_take_le inside
  rw [extent_take_succ below, List.take_length] at le
  omega

/-- A child is a Block one component below, with fewer Blocks that are deeper. -/
theorem Linked.child_deeper (linked : spans.Linked source)
    (here : spans.blocks[index]? = some block) (child_here : block.children[place]? = some child) :
    ∃ below component, spans.blocks[child]? = some below ∧
      below.path = block.path ++ [component] ∧ spans.deeper below.path < spans.deeper block.path := by
  rcases linked.child_at (List.mem_of_getElem? here) child_here with ⟨below, component, at_, path⟩
  refine ⟨below, component, at_, path, ?_⟩
  apply deeper_lt (List.mem_of_getElem? at_)
  rw [path, List.length_append, List.length_singleton]
  exact Nat.lt_succ_self _

/-- Every offset of a Block is in a leaf. -/
theorem Linked.exists_descends (linked : spans.Linked source)
    (here : spans.blocks[index]? = some block) (high : rendered_offset ≤ block.rendered_len) :
    ∃ leaf within, spans.Descends index rendered_offset leaf within := by
  induction depth : spans.deeper block.path using Nat.strong_induction_on
    generalizing index block rendered_offset with
  | h depth ih =>
    cases kind : block.isLeaf with
    | true => exact ⟨index, rendered_offset, .leaf here kind high⟩
    | false =>
      rcases linked.holds here kind high with ⟨place, child, holds⟩
      rcases linked.child_deeper here holds.here with ⟨below, component, at_, -, deeper⟩
      have low := holds.low
      have high' := holds.high
      rw [lengthOf_eq at_] at high'
      have inside : rendered_offset - spans.extent (block.children.take place) ≤
          below.rendered_len := by omega
      rcases ih _ (depth ▸ deeper) at_ inside rfl with ⟨leaf, within, descends⟩
      refine ⟨leaf, within, ?_⟩
      have whole := Descends.child here holds.here descends
      rw [Nat.add_sub_cancel' low] at whole
      exact whole

namespace Descends

theorem leaf_at (descends : spans.Descends index rendered_offset leaf within) :
    ∃ block, spans.blocks[leaf]? = some block ∧ block.isLeaf = true ∧
      within ≤ block.rendered_len := by
  induction descends with
  | leaf here isLeaf high => exact ⟨_, here, isLeaf, high⟩
  | child _ _ _ ih => exact ih

theorem high (descends : spans.Descends index rendered_offset leaf within)
    (linked : spans.Linked source) (here : spans.blocks[index]? = some block) :
    rendered_offset ≤ block.rendered_len := by
  induction descends generalizing block with
  | leaf here' _ high =>
    rw [here'] at here
    cases here
    exact high
  | child here' below _ ih =>
    rw [here'] at here
    cases here
    rcases linked.child_deeper here' below with ⟨inner, _, at_, -, -⟩
    have inside := ih at_
    have within := linked.child_within here' below
    rw [lengthOf_eq at_] at within
    omega

/-- A descent through a child is one where the child holds the offset. -/
theorem holds (descends : spans.Descends child rendered_offset leaf within)
    (linked : spans.Linked source) (here : spans.blocks[index]? = some block)
    (child_here : block.children[place]? = some child) :
    spans.Holds block.children (spans.extent (block.children.take place) + rendered_offset) place
      child := by
  rcases linked.child_deeper here child_here with ⟨inner, _, at_, -, -⟩
  have inside := descends.high linked at_
  refine ⟨child_here, Nat.le_add_right _ _, ?_⟩
  rw [lengthOf_eq at_]
  omega

theorem path_prefix (descends : spans.Descends index rendered_offset leaf within)
    (linked : spans.Linked source) {inner : BlockSpan} (here : spans.blocks[index]? = some block)
    (leaf_here : spans.blocks[leaf]? = some inner) : block.path <+: inner.path := by
  induction descends generalizing block with
  | leaf here' _ _ =>
    rw [here] at leaf_here
    cases leaf_here
    exact List.prefix_refl _
  | child here' below _ ih =>
    rw [here'] at here
    cases here
    rcases linked.child_deeper here' below with ⟨middle, component, at_, path, -⟩
    have above := ih at_ leaf_here
    rw [path] at above
    exact (List.prefix_append _ _).trans above

theorem contains (descends : spans.Descends index rendered_offset leaf within)
    (coherent : spans.Coherent source) (linked : spans.Linked source) {inner : BlockSpan}
    (here : spans.blocks[index]? = some block) (leaf_here : spans.blocks[leaf]? = some inner) :
    block.source.Contains inner.source := by
  induction descends generalizing block with
  | leaf here' _ _ =>
    rw [here] at leaf_here
    cases leaf_here
    exact Range.Contains.refl _
  | child here' below _ ih =>
    rw [here'] at here
    cases here
    rcases linked.child_deeper here' below with ⟨middle, component, at_, path, -⟩
    exact (coherent.nested _ (List.mem_of_getElem? here') middle (List.mem_of_getElem? at_)
      component path).trans (ih at_ leaf_here)

/-- Further on in a leaf, a Block is further on by as much. -/
theorem further (descends : spans.Descends index rendered_offset leaf within) {more : Nat}
    {inner : BlockSpan} (leaf_here : spans.blocks[leaf]? = some inner)
    (room : within + more ≤ inner.rendered_len) :
    spans.Descends index (rendered_offset + more) leaf (within + more) := by
  induction descends with
  | leaf here isLeaf _ =>
    rw [here] at leaf_here
    cases leaf_here
    exact .leaf here isLeaf room
  | child here below _ ih =>
    rw [Nat.add_assoc]
    exact .child here below (ih leaf_here room)

/-- Resolution descends to the runs of the leaf. -/
theorem resolveAt (descends : spans.Descends index rendered_offset leaf within)
    (linked : spans.Linked source) {inner : BlockSpan} (here : spans.blocks[index]? = some block)
    (leaf_here : spans.blocks[leaf]? = some inner) (enough : spans.deeper block.path < fuel) :
    spans.resolveAt source fuel index rendered_offset =
      resolveRuns source inner within none inner.runs := by
  induction descends generalizing block fuel with
  | leaf here' isLeaf high =>
    rw [here'] at leaf_here
    cases leaf_here
    cases fuel with
    | zero => cases enough
    | succ fuel => exact resolveAt_leaf here' isLeaf high
  | child here' below descends ih =>
    rw [here'] at here
    cases here
    rcases linked.child_deeper here' below with ⟨middle, component, at_, path, deeper⟩
    have whole := (Descends.child here' below descends).high linked here'
    cases fuel with
    | zero => cases enough
    | succ fuel =>
      rw [resolveAt_child here' (isLeaf_eq_false below) whole (descends.holds linked here' below),
        Nat.add_sub_cancel_left]
      exact ih at_ leaf_here (by omega)

end Descends

/-- Two leaves are below different Blocks of one parent, the first below the earlier one. -/
structure Parts (spans : SpanMap) (leaf leaf' : Nat) : Prop where
  branches : ∃ one two left right base component component',
    spans.blocks[one]? = some left ∧ left.path = base ++ [component] ∧
    spans.blocks[two]? = some right ∧ right.path = base ++ [component'] ∧
    component < component' ∧ (∃ offset within, spans.Descends one offset leaf within) ∧
    ∃ offset within, spans.Descends two offset leaf' within

/-- A later offset is further on in the same leaf, or in one behind it. -/
theorem Descends.order (first : spans.Descends index rendered_offset leaf within)
    (behind : spans.Descends index second leaf' within') (linked : spans.Linked source)
    (lt : rendered_offset < second) :
    (leaf = leaf' ∧ within < within') ∨ spans.Parts leaf leaf' := by
  induction first generalizing second with
  | leaf here isLeaf _ =>
    cases behind with
    | leaf _ _ _ => exact Or.inl ⟨rfl, lt⟩
    | child here' below _ =>
      rw [here] at here'
      cases here'
      rw [isLeaf_eq_false below] at isLeaf
      cases isLeaf
  | @child index place child offset leaf within block here below descends ih =>
    cases behind with
    | leaf here' isLeaf _ =>
      rw [here] at here'
      cases here'
      rw [isLeaf_eq_false below] at isLeaf
      cases isLeaf
    | @child _ place' child' offset' _ _ block' here' below' descends' =>
      rw [here] at here'
      cases here'
      have holds := descends.holds linked here below
      have holds' := descends'.holds linked here below'
      rcases Nat.eq_or_lt_of_le (holds.place_le holds' (Nat.le_of_lt lt)) with same | earlier
      · subst same
        rw [below] at below'
        cases below'
        exact ih descends' (Nat.lt_of_add_lt_add_left lt)
      · rcases linked.children_ordered (List.mem_of_getElem? here) earlier below below' with
          ⟨left, right, component, component', at_, path, at_', path', lt'⟩
        exact Or.inr ⟨child, child', left, right, _, component, component', at_, path, at_', path',
          lt', ⟨offset, within, descends⟩, ⟨offset', within', descends'⟩⟩

/-- In a coherent map leaves that part follow one another in the source. -/
theorem Parts.before (parts : spans.Parts leaf leaf') (coherent : spans.Coherent source)
    (linked : spans.Linked source) {one two : BlockSpan} (here : spans.blocks[leaf]? = some one)
    (here' : spans.blocks[leaf']? = some two) : one.source.Before two.source := by
  rcases parts.branches with ⟨_, _, left, right, base, component, component', at_, path, at_',
    path', lt, ⟨_, _, descends⟩, ⟨_, _, descends'⟩⟩
  have inside := descends.contains coherent linked at_ here
  have inside' := descends'.contains coherent linked at_' here'
  have before := coherent.ordered left (List.mem_of_getElem? at_) right (List.mem_of_getElem? at_')
    base component component' path path' lt
  exact Nat.le_trans inside.2 (Nat.le_trans before inside'.1)

end Descent

/-! ## Coherent maps -/

section Coherent

variable {block leaf_block : BlockSpan} {fuel index rendered_offset second leaf within : Nat}
  {one two : SourceResolution} {range : Range}

theorem Coherent.placed_start (coherent : spans.Coherent source)
    (here : spans.blocks[index]? = some block) : IsBoundary source block.source.start :=
  (slice?_isSome_iff.mp (coherent.placed block (List.mem_of_getElem? here)).2).2.1

/-- The runs of the leaf that a descent ends in. -/
theorem Linked.behind (linked : spans.Linked source)
    (leaf_here : spans.blocks[leaf]? = some leaf_block) (isLeaf : leaf_block.isLeaf = true)
    (placed : IsBoundary source leaf_block.source.start) :
    Behind source leaf_block 0 none leaf_block.runs :=
  Behind.whole (linked.leaves leaf_block (List.mem_of_getElem? leaf_here) isLeaf) placed

/-- Every offset of a Block resolves, to character boundaries inside the Block. -/
theorem Coherent.resolveAt_total (coherent : spans.Coherent source) (linked : spans.Linked source)
    (here : spans.blocks[index]? = some block) (enough : spans.deeper block.path < fuel)
    (high : rendered_offset ≤ block.rendered_len) :
    ∃ resolution, spans.resolveAt source fuel index rendered_offset = some resolution ∧
      resolution.Within source block.source.start block.source.stop := by
  rcases linked.exists_descends here high with ⟨leaf, within, descends⟩
  rcases descends.leaf_at with ⟨leaf_block, leaf_here, isLeaf, high'⟩
  rw [descends.resolveAt linked here leaf_here enough]
  have placed := coherent.placed_start leaf_here
  rcases (linked.behind leaf_here isLeaf placed).total (Nat.zero_le _) high' with
    ⟨resolution, resolved, inside⟩
  have contains := descends.contains coherent linked here leaf_here
  exact ⟨resolution, resolved, inside.mono contains.1 contains.2⟩

/-- Of two offsets of a Block the earlier one does not resolve behind the later one. -/
theorem Coherent.resolveAt_ordered (coherent : spans.Coherent source)
    (linked : spans.Linked source) (here : spans.blocks[index]? = some block)
    (enough : spans.deeper block.path < fuel) (lt : rendered_offset < second)
    (high : second ≤ block.rendered_len)
    (resolved : spans.resolveAt source fuel index rendered_offset = some one)
    (resolved' : spans.resolveAt source fuel index second = some two) : one.Le two := by
  have low : rendered_offset ≤ block.rendered_len := Nat.le_of_lt (Nat.lt_of_lt_of_le lt high)
  rcases linked.exists_descends here low with ⟨leaf, within, descends⟩
  rcases linked.exists_descends here high with ⟨leaf', within', descends'⟩
  rcases descends.leaf_at with ⟨leaf_block, leaf_here, isLeaf, inside⟩
  rcases descends'.leaf_at with ⟨leaf_block', leaf_here', isLeaf', inside'⟩
  rw [descends.resolveAt linked here leaf_here enough] at resolved
  rw [descends'.resolveAt linked here leaf_here' enough] at resolved'
  have behind := linked.behind leaf_here isLeaf (coherent.placed_start leaf_here)
  rcases descends.order descends' linked lt with ⟨same, further⟩ | parts
  · subst same
    rw [leaf_here] at leaf_here'
    cases leaf_here'
    exact behind.ordered (Nat.zero_le _) further inside' resolved resolved'
  · have behind' := linked.behind leaf_here' isLeaf' (coherent.placed_start leaf_here')
    rcases behind.total (Nat.zero_le _) inside with ⟨resolution, found, place⟩
    rcases behind'.total (Nat.zero_le _) inside' with ⟨resolution', found', place'⟩
    rw [resolved] at found
    rw [resolved'] at found'
    cases found
    cases found'
    exact place.le place' (parts.before coherent linked leaf_here leaf_here')

/-- The source of the rendered character at an offset of a Block. A line break between two children
has none. -/
inductive Shows (source : Text) (spans : SpanMap) (index rendered_offset : Nat) : Range → Prop
  | intro {leaf within : Nat} {block : BlockSpan} {run : InlineRun} {range : Range}
      (descends : spans.Descends index rendered_offset leaf within)
      (here : spans.blocks[leaf]? = some block) (inside : run ∈ block.runs)
      (shows_ : run.Shows source within range) : Shows source spans index rendered_offset range

/-- Every character of a leaf has a source. -/
theorem Linked.exists_shows (linked : spans.Linked source)
    (descends : spans.Descends index rendered_offset leaf within)
    (here : spans.blocks[leaf]? = some leaf_block) (inside : within < leaf_block.rendered_len) :
    ∃ range, spans.Shows source index rendered_offset range := by
  rcases descends.leaf_at with ⟨same, same_here, isLeaf, -⟩
  rw [here] at same_here
  cases same_here
  have runs := linked.leaves leaf_block (List.mem_of_getElem? here) isLeaf
  rcases runs.tiles.exists_run (Nat.zero_le _) inside with ⟨run, member, start, stop⟩
  rcases run.exists_shows (runs.sliced run member) start stop with ⟨range, shows_⟩
  exact ⟨range, .intro descends here member shows_⟩

/-- The source of a character is what a selection of it alone resolves to. -/
theorem Coherent.selects (coherent : spans.Coherent source) (linked : spans.Linked source)
    (shows_ : spans.Shows source index rendered_offset range)
    (here : spans.blocks[index]? = some block) (enough : spans.deeper block.path < fuel) :
    rendered_offset + 1 ≤ block.rendered_len ∧
      ∃ one two, spans.resolveAt source fuel index rendered_offset = some one ∧
        spans.resolveAt source fuel index (rendered_offset + 1) = some two ∧
        range = ⟨one.start, two.stop⟩ := by
  cases shows_ with
  | @intro leaf within leaf_block run _ descends leaf_here inside shows_ =>
    have isLeaf : leaf_block.isLeaf = true := by
      rcases descends.leaf_at with ⟨same, same_here, isLeaf, -⟩
      rw [leaf_here] at same_here
      cases same_here
      exact isLeaf
    have runs := linked.leaves leaf_block (List.mem_of_getElem? leaf_here) isLeaf
    have bounds := shows_.placed (runs.sliced run inside)
    have room : within + 1 ≤ leaf_block.rendered_len :=
      Nat.le_trans (Nat.succ_le_of_lt bounds.2) (runs.tiles.mem_le inside)
    have next := descends.further leaf_here room
    rw [descends.resolveAt linked here leaf_here enough,
      next.resolveAt linked here leaf_here enough]
    refine ⟨next.high linked here, ?_⟩
    exact (linked.behind leaf_here isLeaf (coherent.placed_start leaf_here)).selects inside shows_

end Coherent

/-! ## Ranges -/

theorem resolveOffset_eq (linked : spans.Linked source) {index : Nat} {block : BlockSpan}
    (here : spans.blocks[index]? = some block) (rendered_offset : Nat) :
    spans.resolveOffset source block.path rendered_offset =
      spans.resolveAt source (spans.blocks.length + 1) index rendered_offset := by
  unfold resolveOffset
  rw [(byPath_eq_some_iff linked.distinct).mpr ⟨block, here, rfl⟩]
  rfl

/-- What two offsets of a Block resolve to, and the selection between them. -/
structure Selects (source : Text) (spans : SpanMap) (index : Nat) (block : BlockSpan)
    (first second : Nat) (one two : SourceResolution) : Prop where
  first_resolved : spans.resolveOffset source block.path first = some one
  second_resolved : spans.resolveOffset source block.path second = some two
  first_within : one.Within source block.source.start block.source.stop
  second_within : two.Within source block.source.start block.source.stop
  ordered : one.Le two
  /-- The selection holds the source of every character between the offsets, which is the whole of
  an atomic run. -/
  contains : ∀ rendered_offset range, first ≤ rendered_offset → rendered_offset < second →
    spans.Shows source index rendered_offset range → Range.Contains ⟨one.start, two.stop⟩ range

/-- Two offsets of a Block resolve in their order, and to what lies between them. -/
theorem Coherent.exists_selects (coherent : spans.Coherent source) (linked : spans.Linked source)
    {index first second : Nat} {block : BlockSpan} (here : spans.blocks[index]? = some block)
    (lt : first < second) (high : second ≤ block.rendered_len) :
    ∃ one two, spans.Selects source index block first second one two := by
  have low : first ≤ block.rendered_len := Nat.le_of_lt (Nat.lt_of_lt_of_le lt high)
  have enough := spans.deeper_le block.path
  rcases coherent.resolveAt_total linked here enough low with ⟨one, resolved, within⟩
  rcases coherent.resolveAt_total linked here enough high with ⟨two, resolved', within'⟩
  refine ⟨one, two, ?_⟩
  constructor
  · rw [resolveOffset_eq linked here]
    exact resolved
  · rw [resolveOffset_eq linked here]
    exact resolved'
  · exact within
  · exact within'
  · exact coherent.resolveAt_ordered linked here enough lt high resolved resolved'
  · intro offset range after before shows_
    rcases coherent.selects linked shows_ here enough with
      ⟨_, left, right, resolved_left, resolved_right, same⟩
    rw [same]
    constructor
    · rcases Nat.eq_or_lt_of_le after with at_first | behind
      · subst at_first
        rw [resolved] at resolved_left
        cases resolved_left
        exact Nat.le_refl _
      · exact (coherent.resolveAt_ordered linked here enough behind (by omega) resolved
          resolved_left).starts
    · rcases Nat.eq_or_lt_of_le (Nat.succ_le_of_lt before) with at_second | ahead
      · subst at_second
        rw [resolved'] at resolved_right
        cases resolved_right
        exact Nat.le_refl _
      · exact (coherent.resolveAt_ordered linked here enough ahead high resolved_right
          resolved').stops

end SpanMap

end Burlmd.Markdown
