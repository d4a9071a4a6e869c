import Burlmd.Markdown.BufferedEdit

/-!
# Runs of buffered edits

What one edit keeps, and what a run of edits keeps from it: the map goes on describing the buffer
as long as every edit is clean.
-/

namespace Burlmd.Markdown

open Utf8

namespace Buffer

variable {buffer : Buffer} {leaf block other : BlockSpan} {path : BlockPath} {new_len : Nat}

/-! ## A step -/

section Moving

variable {spans : SpanMap} {range : BlockSpan → Range}
  (moves : List.Forall₂ (fun block after => Becomes block after (range block)) buffer.spans.blocks
    spans.blocks)

include moves

theorem exists_origin {after : BlockSpan} (mem : after ∈ spans.blocks) :
    ∃ block ∈ buffer.spans.blocks, Becomes block after (range block) := by
  rcases List.getElem?_of_mem mem with ⟨position, at_⟩
  rcases List.getElem?_eq_some_iff.mp at_ with ⟨inside, same⟩
  have inside' : position < buffer.spans.blocks.length := by
    rw [moves.length_eq]
    exact inside
  have both := List.Forall₂.get moves inside' inside
  rw [List.get_eq_getElem, List.get_eq_getElem, same] at both
  exact ⟨_, List.getElem_mem inside', both⟩

theorem exists_image (mem : block ∈ buffer.spans.blocks) :
    ∃ after ∈ spans.blocks, Becomes block after (range block) := by
  rcases List.getElem?_of_mem mem with ⟨position, at_⟩
  rcases List.getElem?_eq_some_iff.mp at_ with ⟨inside, same⟩
  have inside' : position < spans.blocks.length := by
    rw [← moves.length_eq]
    exact inside
  have both := List.Forall₂.get moves inside inside'
  rw [List.get_eq_getElem, List.get_eq_getElem, same] at both
  exact ⟨_, List.getElem_mem inside', both⟩

theorem paths_moved : spans.blocks.map BlockSpan.path = buffer.spans.blocks.map BlockSpan.path := by
  have same : List.Forall₂ (· = ·) (buffer.spans.blocks.map BlockSpan.path)
      (spans.blocks.map BlockSpan.path) := by
    rw [List.forall₂_map_left_iff, List.forall₂_map_right_iff]
    exact moves.imp fun _ _ becomes => becomes.path.symm
  exact (List.forall₂_eq_eq_eq ▸ same).symm

end Moving

/-- What an edit of a leaf is to keep. -/
structure Kept (buffer after : Buffer) (edit : Edit) (leaf : BlockSpan) : Prop where
  coherent : after.Coherent
  paths : after.spans.blocks.map BlockSpan.path = buffer.spans.blocks.map BlockSpan.path
  frontmatter : after.spans.frontmatter = buffer.spans.frontmatter
  /-- The edited Block reads as its new text. -/
  edited : ∀ block, after.spans.block edit.1 = some block →
    slice? after.source block.source = some edit.2
  /-- A Block that is not above the edited one reads as before. -/
  others : ∀ block, buffer.spans.block block.path = some block → ¬ block.path <+: edit.1 →
    ∀ moved, after.spans.block block.path = some moved →
      slice? after.source moved.source = slice? buffer.source block.source
  /-- A Block above it reads as before, with the new text in the place of the old one. -/
  above : ∀ block, buffer.spans.block block.path = some block → block.path <+: edit.1 →
    ∀ moved, after.spans.block block.path = some moved → ∃ front part back,
      slice? buffer.source block.source = some (front ++ part ++ back) ∧
      slice? buffer.source leaf.source = some part ∧
      block.source.start + byteLen front = leaf.source.start ∧
      slice? after.source moved.source = some (front ++ edit.2 ++ back)

/-- What is asked of an edit: at a leaf it takes place and keeps what it is to keep, elsewhere it
is refused. -/
def Faithful (buffer : Buffer) (edit : Edit) : Prop :=
  (∀ leaf, buffer.LeafAt edit.1 leaf →
    ∃ after, buffer.edit? edit = some after ∧ buffer.Kept after edit leaf) ∧
  ((∀ leaf, ¬ buffer.LeafAt edit.1 leaf) →
    buffer.spans.applyBufferedEdit edit.1 (byteLen edit.2) = none ∧ buffer.edit? edit = none)

/-- The edit keeps the length of its Block, or no Block before or above it starts where it ends. -/
def Clean (buffer : Buffer) (edit : Edit) : Prop :=
  ∀ leaf, buffer.LeafAt edit.1 leaf →
    byteLen edit.2 = leaf.source.stop - leaf.source.start ∨ buffer.Apart edit.1 leaf

/-- An edit of a leaf: its text is substituted, and each Block lands where the arithmetic puts it. -/
theorem edit?_of_leafAt (coherent : buffer.Coherent) {edit : Edit}
    (leafAt : buffer.LeafAt edit.1 leaf) :
    ∃ after, buffer.edit? edit = some after ∧
      splice? buffer.source leaf.source edit.2 = some after.source ∧
      after.spans.frontmatter = buffer.spans.frontmatter ∧
      List.Forall₂ (fun block moved =>
          Becomes block moved (landed edit.1 leaf.source (byteLen edit.2) block))
        buffer.spans.blocks after.spans.blocks := by
  rcases applyBufferedEdit_eq_some coherent leafAt (byteLen edit.2) with
    ⟨spans, applied, frontmatter, moves⟩
  rcases Option.isSome_iff_exists.mp (coherent.placed leaf leafAt.mem) with ⟨part, sliced⟩
  rcases slice?_eq_some_iff.mp sliced with ⟨before, behind, whole, start, stop⟩
  have spliced : splice? buffer.source leaf.source edit.2 = some (before ++ edit.2 ++ behind) :=
    splice?_eq_some_iff.mpr ⟨before, part, behind, whole, start, stop, rfl⟩
  refine ⟨⟨before ++ edit.2 ++ behind, spans⟩, ?_, spliced, frontmatter, moves⟩
  unfold edit?
  rw [applied, Option.bind_some, spliced]
  rfl

theorem coherent_moved (coherent : buffer.Coherent) (leafAt : buffer.LeafAt path leaf)
    {text : Text} {after : Buffer}
    (spliced : splice? buffer.source leaf.source text = some after.source)
    (moves : List.Forall₂ (fun block moved =>
        Becomes block moved (SpanMap.movedRange path leaf.source (byteLen text) block))
      buffer.spans.blocks after.spans.blocks) :
    after.Coherent where
  distinct := by
    rw [paths_moved moves]
    exact coherent.distinct
  named := by
    intro moved mem
    rcases exists_origin moves mem with ⟨block, isBlock, becomes⟩
    rw [becomes.path]
    exact coherent.named block isBlock
  placed := by
    intro moved mem
    rcases exists_origin moves mem with ⟨block, isBlock, becomes⟩
    rw [becomes.source]
    have reads := moved_slice coherent leafAt spliced isBlock
    by_cases above : block.path <+: path
    · rcases reads.1 above with ⟨front, part, back, -, -, -, reads⟩
      rw [reads]
      rfl
    · rw [reads.2 above]
      exact coherent.placed block isBlock
  rooted := by
    intro moved mem path' index some_ isPath
    rcases exists_origin moves mem with ⟨block, isBlock, becomes⟩
    rw [becomes.path] at isPath
    rcases coherent.rooted block isBlock path' index some_ isPath with ⟨parent, isParent, isUpper⟩
    rcases exists_image moves isParent with ⟨image, isImage, becomes'⟩
    exact ⟨image, isImage, becomes'.path.trans isUpper⟩
  nested := by
    intro parent mem moved mem' index isPath
    rcases exists_origin moves mem with ⟨outer, isOuter, becomes⟩
    rcases exists_origin moves mem' with ⟨inner, isInner, becomes'⟩
    rw [becomes.path, becomes'.path] at isPath
    rw [becomes.source, becomes'.source]
    exact moved_nested coherent leafAt isOuter isInner isPath
  ordered := by
    intro left mem right mem' base first second isLeft isRight lt
    rcases exists_origin moves mem with ⟨one, isOne, becomes⟩
    rcases exists_origin moves mem' with ⟨two, isTwo, becomes'⟩
    rw [becomes.path] at isLeft
    rw [becomes'.path] at isRight
    rw [becomes.source, becomes'.source]
    apply moved_ordered coherent leafAt isOne isTwo
    rw [isLeft, isRight]
    exact later_siblings lt
  leaves := by
    intro moved mem isLeaf other' mem' index
    rcases exists_origin moves mem with ⟨block, isBlock, becomes⟩
    rcases exists_origin moves mem' with ⟨other, isOther, becomes'⟩
    rw [becomes.path, becomes'.path]
    apply coherent.leaves block isBlock _ other isOther
    unfold BlockSpan.isLeaf at isLeaf ⊢
    rwa [← becomes.children]

theorem kept_of_moved (coherent : buffer.Coherent) {edit : Edit}
    (leafAt : buffer.LeafAt edit.1 leaf) {after : Buffer}
    (spliced : splice? buffer.source leaf.source edit.2 = some after.source)
    (frontmatter : after.spans.frontmatter = buffer.spans.frontmatter)
    (moves : List.Forall₂ (fun block moved =>
        Becomes block moved (SpanMap.movedRange edit.1 leaf.source (byteLen edit.2) block))
      buffer.spans.blocks after.spans.blocks) :
    buffer.Kept after edit leaf := by
  have coherent' := coherent_moved coherent leafAt spliced moves
  -- the Block that the new map has at the path of an old one
  have image : ∀ block ∈ buffer.spans.blocks, ∀ moved,
      after.spans.block block.path = some moved →
        moved.source = SpanMap.movedRange edit.1 leaf.source (byteLen edit.2) block := by
    intro block mem moved found
    rcases coherent'.mem_of_block.mp found with ⟨isMoved, samePath⟩
    rcases exists_image moves mem with ⟨image, isImage, becomes⟩
    have same := coherent'.eq_of_path isMoved isImage (samePath.trans becomes.path.symm)
    rw [same, becomes.source]
  refine ⟨coherent', paths_moved moves, frontmatter, ?_, ?_, ?_⟩
  · intro moved found
    rw [← leafAt.isPath] at found
    rw [image leaf leafAt.mem moved found]
    have isOwn : leaf.path <+: edit.1 := leafAt.isPath ▸ List.prefix_rfl
    rw [moved_above isOwn]
    have width := (coherent.bounds leafAt leafAt.mem).1
    have resized : SpanMap.shift leaf.source (byteLen edit.2) leaf.source.stop =
        leaf.source.start + byteLen edit.2 := by
      unfold SpanMap.shift
      omega
    rw [resized]
    exact slice?_splice?_self spliced
  · intro block found apart moved found'
    have mem := (coherent.mem_of_block.mp found).1
    rw [image block mem moved found']
    exact (moved_slice coherent leafAt spliced mem).2 apart
  · intro block found above moved found'
    have mem := (coherent.mem_of_block.mp found).1
    rw [image block mem moved found']
    exact (moved_slice coherent leafAt spliced mem).1 above

/-- A map that is still coherent shows that nothing before or above the leaf starts at its end. -/
theorem apart_of_coherent (coherent : buffer.Coherent) (leafAt : buffer.LeafAt path leaf)
    {after : Buffer} (coherent' : after.Coherent)
    (other_length : new_len ≠ leaf.source.stop - leaf.source.start)
    (moves : List.Forall₂ (fun block moved => Becomes block moved (landed path leaf.source new_len block))
      buffer.spans.blocks after.spans.blocks) : buffer.Apart path leaf := by
  intro other mem foreign late
  rcases exists_image moves leafAt.mem with ⟨image, isImage, becomes⟩
  rcases exists_image moves mem with ⟨moved, isMoved, becomes'⟩
  have bounds := coherent.bounds leafAt mem
  rcases bounds with ⟨width, size, contains, -, ends⟩
  have own : image.source.start = leaf.source.start := by
    rw [becomes.source]
    unfold landed rebased
    rw [if_neg other_length, if_pos leafAt.isPath]
  have shifted : moved.source.start = SpanMap.shift leaf.source new_len other.source.start := by
    rw [becomes'.source]
    unfold landed rebased
    rw [if_neg other_length, if_neg foreign, if_pos late]
    rfl
  have larger := coherent'.ordered_range isMoved
  rcases coherent.kinds leafAt mem with above | later | before
  · have around := contains above
    have above' : moved.path <+: image.path := by
      rwa [becomes.path, becomes'.path, leafAt.isPath]
    have around' := coherent'.contains isMoved isImage above'
    unfold Range.Contains at around around'
    unfold SpanMap.shift at shifted
    omega
  · exact later
  · have stop := ends before
    have before' : Later moved.path image.path := by
      rwa [becomes.path, becomes'.path, leafAt.isPath]
    have stop' := coherent'.before isMoved isImage before'
    unfold Range.Before at stop'
    unfold SpanMap.shift at shifted
    omega

/-- An edit is faithful exactly when it is clean. -/
theorem faithful_iff_clean (coherent : buffer.Coherent) (edit : Edit) :
    buffer.Faithful edit ↔ buffer.Clean edit := by
  constructor
  · rintro ⟨atLeaf, -⟩ leaf leafAt
    rcases atLeaf leaf leafAt with ⟨after, edited, kept⟩
    rcases edit?_of_leafAt coherent leafAt with ⟨after', edited', -, -, moves⟩
    rw [edited] at edited'
    cases edited'
    by_cases same : byteLen edit.2 = leaf.source.stop - leaf.source.start
    · exact Or.inl same
    · exact Or.inr (apart_of_coherent coherent leafAt kept.coherent same moves)
  · intro clean
    constructor
    · intro leaf leafAt
      rcases edit?_of_leafAt coherent leafAt with ⟨after, edited, spliced, frontmatter, moves⟩
      refine ⟨after, edited, kept_of_moved coherent leafAt spliced frontmatter ?_⟩
      have moves' : List.Forall₂ (fun block moved => block ∈ buffer.spans.blocks ∧
          Becomes block moved (landed edit.1 leaf.source (byteLen edit.2) block))
          buffer.spans.blocks after.spans.blocks := by
        rw [List.forall₂_and_left]
        exact ⟨fun _ mem => mem, moves⟩
      refine moves'.imp ?_
      rintro block moved ⟨mem, becomes⟩
      rwa [← landed_of_apart coherent leafAt (clean leaf leafAt) mem]
    · intro noLeaf
      have refused := @applyBufferedEdit_eq_none _ _ (byteLen edit.2) coherent noLeaf
      refine ⟨refused, ?_⟩
      unfold edit?
      rw [refused]
      rfl

theorem Faithful.coherent_after (coherent : buffer.Coherent) {edit : Edit}
    (faithful : buffer.Faithful edit) : (buffer.after edit).Coherent := by
  unfold after
  by_cases atLeaf : ∃ leaf, buffer.LeafAt edit.1 leaf
  · rcases atLeaf with ⟨leaf, leafAt⟩
    rcases faithful.1 leaf leafAt with ⟨after, edited, kept⟩
    rw [edited]
    exact kept.coherent
  · rw [(faithful.2 (not_exists.mp atLeaf)).2]
    exact coherent

/-! ## Runs -/

/-- Each edit of a run meets a condition in the buffer that it finds. -/
def Throughout (condition : Buffer → Edit → Prop) : Buffer → List Edit → Prop
  | _, [] => True
  | buffer, edit :: rest => condition buffer edit ∧ Throughout condition (buffer.after edit) rest

/-- In every run from a coherent buffer, every edit is faithful exactly when every edit is clean. -/
theorem run_faithful_iff (buffer : Buffer) (coherent : buffer.Coherent) (edits : List Edit) :
    Throughout Faithful buffer edits ↔ Throughout Clean buffer edits := by
  induction edits generalizing buffer with
  | nil => exact Iff.refl _
  | cons edit rest ih =>
    unfold Throughout
    rw [faithful_iff_clean coherent edit]
    apply and_congr_right
    intro clean
    have faithful := (faithful_iff_clean coherent edit).mpr clean
    exact ih _ (faithful.coherent_after coherent)

/-! ## Two headings next to each other -/

/-- `# a` and `# b`, each a line of its own. -/
def headings : Buffer where
  source := "# a\n# b\n".toList
  spans := ⟨[⟨[0], ⟨0, 4⟩, [], 1, []⟩, ⟨[1], ⟨4, 8⟩, [], 1, []⟩], none⟩

theorem path_of_headings {block : BlockSpan} (mem : block ∈ headings.spans.blocks) :
    block.path = [0] ∧ block.source = ⟨0, 4⟩ ∨ block.path = [1] ∧ block.source = ⟨4, 8⟩ := by
  rcases List.mem_pair.mp mem with first | second
  · rw [first]
    exact Or.inl ⟨rfl, rfl⟩
  · rw [second]
    exact Or.inr ⟨rfl, rfl⟩

theorem length_path_headings {block : BlockSpan} (mem : block ∈ headings.spans.blocks) :
    block.path.length = 1 := by
  rcases path_of_headings mem with ⟨isPath, -⟩ | ⟨isPath, -⟩
  · rw [isPath]
    rfl
  · rw [isPath]
    rfl

theorem headings_coherent : headings.Coherent where
  distinct := by decide
  named := by
    intro block mem none_
    have length := length_path_headings mem
    rw [none_] at length
    cases length
  placed := by decide +kernel
  rooted := by
    intro block mem path index some_ isPath
    have length := length_path_headings mem
    rw [isPath, List.length_append, List.length_singleton] at length
    exact absurd (List.length_eq_zero_iff.mp (by omega)) some_
  nested := by
    intro parent mem block mem' index isPath
    have length := length_path_headings mem
    have length' := length_path_headings mem'
    rw [isPath, List.length_append, List.length_singleton] at length'
    omega
  ordered := by
    intro left mem right mem' base first second isLeft isRight lt
    have length := length_path_headings mem
    rw [isLeft, List.length_append, List.length_singleton] at length
    have none_ : base = [] := List.length_eq_zero_iff.mp (by omega)
    rw [none_, List.nil_append] at isLeft isRight
    rcases path_of_headings mem with ⟨one, source⟩ | ⟨one, source⟩
    · rcases path_of_headings mem' with ⟨two, source'⟩ | ⟨two, source'⟩
      · rw [one] at isLeft
        rw [two] at isRight
        cases isLeft
        cases isRight
        omega
      · rw [source, source']
        exact Nat.le_refl _
    · rcases path_of_headings mem' with ⟨two, source'⟩ | ⟨two, source'⟩
      · rw [one] at isLeft
        rw [two] at isRight
        cases isLeft
        cases isRight
        omega
      · rw [one] at isLeft
        rw [two] at isRight
        cases isLeft
        cases isRight
        omega
  leaves := by
    intro block mem _ other mem' index isPath
    have length := length_path_headings mem
    have length' := length_path_headings mem'
    rw [isPath, List.length_append, List.length_singleton] at length'
    omega

/-- The first heading grows, and the second one is retyped. -/
theorem headings_retyped :
    Throughout Faithful headings [([0], "# aa\n".toList), ([1], "# c\n".toList)] := by
  apply (run_faithful_iff headings headings_coherent _).mpr
  have isGrown : headings.after ([0], "# aa\n".toList) =
      ⟨"# aa\n# b\n".toList, ⟨[⟨[0], ⟨0, 5⟩, [], 1, []⟩, ⟨[1], ⟨5, 9⟩, [], 1, []⟩], none⟩⟩ :=
    rfl
  refine ⟨?_, ?_, trivial⟩
  · intro leaf _
    refine Or.inr fun other mem foreign _ => ?_
    rcases path_of_headings mem with ⟨isFirst, -⟩ | ⟨isSecond, -⟩
    · exact absurd isFirst foreign
    · rw [isSecond]
      decide
  · rw [isGrown]
    intro leaf leafAt
    refine Or.inl ?_
    rcases List.mem_pair.mp leafAt.mem with isFirst | isSecond
    · have isPath := leafAt.isPath
      rw [isFirst] at isPath
      cases isPath
    · rw [isSecond]
      decide +kernel

/-- Both headings are emptied, and the second one is typed again. -/
theorem emptied_headings_cross :
    headings.Coherent ∧
      ¬ Throughout Faithful headings [([0], []), ([1], []), ([1], ['x'])] := by
  refine ⟨headings_coherent, ?_⟩
  rintro ⟨first, second, third, -⟩
  have coherent := second.coherent_after (first.coherent_after headings_coherent)
  have clean := (faithful_iff_clean coherent _).mp third
  have isEmpty : (headings.after ([0], [])).after ([1], []) =
      ⟨[], ⟨[⟨[0], ⟨0, 0⟩, [], 1, []⟩, ⟨[1], ⟨0, 0⟩, [], 1, []⟩], none⟩⟩ := by
    rfl
  rw [isEmpty] at clean
  have leafAt : LeafAt ⟨[], ⟨[⟨[0], ⟨0, 0⟩, [], 1, []⟩, ⟨[1], ⟨0, 0⟩, [], 1, []⟩], none⟩⟩ [1]
      ⟨[1], ⟨0, 0⟩, [], 1, []⟩ :=
    ⟨List.mem_cons_of_mem _ List.mem_cons_self, rfl, rfl⟩
  rcases clean _ leafAt with same | apart
  · exact absurd same (by decide)
  · have later := apart ⟨[0], ⟨0, 0⟩, [], 1, []⟩ List.mem_cons_self (by decide) (Nat.le_refl _)
    exact absurd later (by decide)

end Buffer

end Burlmd.Markdown

