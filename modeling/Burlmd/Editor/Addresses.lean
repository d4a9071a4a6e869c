import Burlmd.Editor.Session
import Burlmd.Library.Extremum

/-!
# Addresses

A caller names a Block by its path in the tree that it still shows. A structural edit looks it up
in the parse of the text as it is.
-/

namespace Burlmd.Editor

open Extremum
open Markdown
open Utf8

def blockSpan (spans : SpanMap) (path : BlockPath) : Except AppError Range :=
  match spans.block path with
  | some block => .ok block.source
  | none => .error (noBlock path)

def notEditable (path : BlockPath) : AppError :=
  .parseError ("block_path ".toList ++ shownPath path ++ " does not name an editable leaf".toList)

/-- The only live leaf inside the region that the caller's map still holds for a path. -/
def leafInRegion (live_spans retained_spans : SpanMap) (requested_path : BlockPath) :
    Except AppError BlockPath :=
  match retained_spans.block requested_path with
  | none => .error (noBlock requested_path)
  | some retained =>
      if !retained.isLeaf then
        .error (.parseError ("no live Block at block_path ".toList ++ shownPath requested_path))
      else
        match live_spans.blocks.filter fun block =>
            block.isLeaf && decide (retained.source.Contains block.source) with
        | [block] => .ok block.path
        | [] =>
            .error (.parseError ("block_path ".toList ++ shownPath requested_path ++
              " no longer names an editable leaf after its buffered edit".toList))
        | _ =>
            .error (.parseError ("block_path ".toList ++ shownPath requested_path ++
              (" became multiple editable leaves after its buffered edit; commit it before a " ++
                "structural edit").toList))

def editableLivePath (live_spans retained_spans : SpanMap) (requested_path : BlockPath) :
    Except AppError BlockPath :=
  match live_spans.block requested_path with
  | some block =>
      if block.isLeaf then .ok block.path
      else leafInRegion live_spans retained_spans requested_path
  | none => leafInRegion live_spans retained_spans requested_path

def livePath (live_spans retained_spans : SpanMap) (requested_path : BlockPath) :
    Except AppError BlockPath :=
  match live_spans.block requested_path with
  | some block => .ok block.path
  | none => editableLivePath live_spans retained_spans requested_path

/-! ## The tree -/

/-- The nodes that a path goes on through below a node. -/
def childNodes : AstNode → Option (List AstNode)
  | .list _ items => some items
  | .listItem content _ => some content
  | .blockquote nodes => some nodes
  | .suggestion _ local_content _ => some local_content
  | .heading .. | .paragraph _ | .codeBlock .. | .thematicBreak | .image .. => none

def nodeAtPath (nodes : List AstNode) : BlockPath → Option AstNode
  | [] => none
  | [head] => nodes[head]?
  | head :: rest =>
      (nodes[head]?).bind fun node => (childNodes node).bind fun inner => nodeAtPath inner rest

/-- The innermost List on the way to a path, and the item of it; `none` off the tree. -/
def nearestListItemWalk (nodes : List AstNode) (above : BlockPath)
    (closest : Option (BlockPath × Nat)) : BlockPath → Option (Option (BlockPath × Nat))
  | [] => none
  | head :: rest =>
      (nodes[head]?).bind fun node =>
        let entered : Option (Option (BlockPath × Nat)) :=
          match node, rest with
          | .list .., [] => none
          | .list .., item :: _ => some (some (above ++ [head], item))
          | _, _ => some closest
        entered.bind fun closest =>
          if rest = [] then some closest
          else (childNodes node).bind fun inner =>
            nearestListItemWalk inner (above ++ [head]) closest rest

def nearestListItem (nodes : List AstNode) (path : BlockPath) : Option (BlockPath × Nat) :=
  (nearestListItemWalk nodes [] none path).join

def removableWalk (nodes : List AstNode) : BlockPath → Option Bool
  | [] => none
  | [head] => (nodes[head]?).map fun _ => true
  | head :: rest =>
      (nodes[head]?).bind fun node =>
        match node with
        | .list _ items => removableWalk items rest
        | .listItem content _ => if content.length = 1 then removableWalk content rest else none
        | .blockquote nodes => if nodes.length = 1 then removableWalk nodes rest else none
        | .suggestion _ local_content _ =>
            if local_content.length = 1 then removableWalk local_content rest else none
        | .heading .. | .paragraph _ | .codeBlock .. | .thematicBreak | .image .. => some false

/-- Whether a line can go together with the marker of the item or quote that it is all of. -/
def removableStructuralLine (nodes : List AstNode) (path : BlockPath) : Bool :=
  (removableWalk nodes path).getD false

def isEmptyItem (ast : List AstNode) (path : BlockPath) : Bool :=
  match nodeAtPath ast path with
  | some (.listItem [] _) => true
  | _ => false

/-! ## Neighbours -/

def leavesBelow (spans : SpanMap) (parent_path : BlockPath) : List BlockSpan :=
  spans.blocks.filter fun block => block.isLeaf && parent_path.isPrefixOf block.path

def firstEditableLeaf (spans : SpanMap) (parent_path : BlockPath) : Option BlockSpan :=
  firstMin? (fun block => block.source.start) (leavesBelow spans parent_path)

def lastEditableLeaf (spans : SpanMap) (parent_path : BlockPath) : Option BlockSpan :=
  lastMax? (fun block => block.source.stop) (leavesBelow spans parent_path)

def previousBlockEnd (spans : SpanMap) (span : Range) : Option Nat :=
  ((spans.blocks.filter fun block => block.source.stop ≤ span.start).map
    fun block => block.source.stop).max?

def previousEditableLeaf (spans : SpanMap) (span : Range) : Option BlockSpan :=
  lastMax? (fun block => block.source.stop)
    (spans.blocks.filter fun block => block.isLeaf && block.source.stop ≤ span.start)

/-! ## What a path resolves to -/

variable {spans live_spans retained_spans : SpanMap} {path live_path : BlockPath}

theorem byPath_spec {blocks : List BlockSpan} {index : Nat}
    (found : byPath blocks path = some index) :
    ∃ block, blocks[index]? = some block ∧ block.path = path := by
  induction blocks generalizing index with
  | nil => cases found
  | cons first rest ih =>
    unfold byPath at found
    cases later : byPath rest path with
    | some index' =>
      rw [later] at found
      rw [← Option.some.inj found]
      exact ih later
    | none =>
      rw [later] at found
      dsimp only at found
      by_cases same : first.path = path
      · rw [if_pos same] at found
        rw [← Option.some.inj found]
        exact ⟨first, rfl, same⟩
      · rw [if_neg same] at found
        cases found

theorem byPath_isSome {blocks : List BlockSpan} {block : BlockSpan} (mem : block ∈ blocks) :
    (byPath blocks block.path).isSome := by
  induction blocks with
  | nil => cases mem
  | cons first rest ih =>
    unfold byPath
    cases later : byPath rest block.path with
    | some index => rfl
    | none =>
      rcases List.mem_cons.mp mem with same | inRest
      · dsimp only
        rw [if_pos (congrArg BlockSpan.path same.symm)]
        rfl
      · have found := ih inRest
        rw [later] at found
        cases found

theorem mem_of_block {block : BlockSpan} (found : spans.block path = some block) :
    block ∈ spans.blocks ∧ block.path = path := by
  unfold SpanMap.block at found
  rcases Option.bind_eq_some_iff.mp found with ⟨index, isIndex, at_⟩
  rcases byPath_spec isIndex with ⟨block', at_', isPath⟩
  rw [at_] at at_'
  rw [Option.some.inj at_']
  exact ⟨List.mem_of_getElem? (at_.trans at_'), isPath⟩

theorem block_of_mem {block : BlockSpan} (mem : block ∈ spans.blocks) :
    ∃ found, spans.block block.path = some found := by
  rcases Option.isSome_iff_exists.mp (byPath_isSome mem) with ⟨index, isIndex⟩
  rcases byPath_spec isIndex with ⟨found, at_, -⟩
  refine ⟨found, ?_⟩
  unfold SpanMap.block
  rw [isIndex]
  exact at_

theorem blockSpan_eq_ok {range : Range} :
    blockSpan spans path = .ok range ↔
      ∃ block, spans.block path = some block ∧ block.source = range := by
  unfold blockSpan
  cases found : spans.block path with
  | none =>
    constructor
    · intro wrong
      cases wrong
    · intro wrong
      rcases wrong with ⟨block, wrong, -⟩
      cases wrong
  | some block =>
    constructor
    · intro ok
      exact ⟨block, rfl, Except.ok.inj ok⟩
    · intro own
      rcases own with ⟨block', same, isRange⟩
      rw [same]
      exact congrArg Except.ok isRange

/-- The fallback stays in the region that the caller's map holds. -/
theorem leafInRegion_ok (ok : leafInRegion live_spans retained_spans path = .ok live_path) :
    ∃ retained block, retained_spans.block path = some retained ∧ retained.isLeaf ∧
      block ∈ live_spans.blocks ∧ block.isLeaf ∧ block.path = live_path ∧
      retained.source.Contains block.source := by
  unfold leafInRegion at ok
  cases found : retained_spans.block path with
  | none =>
    rw [found] at ok
    cases ok
  | some retained =>
    rw [found] at ok
    dsimp only at ok
    cases leaf : retained.isLeaf with
    | false =>
      rw [leaf] at ok
      cases ok
    | true =>
      rw [leaf, Bool.not_true, if_neg Bool.false_ne_true] at ok
      cases candidates : live_spans.blocks.filter fun block =>
          block.isLeaf && decide (retained.source.Contains block.source) with
      | nil =>
        rw [candidates] at ok
        cases ok
      | cons block rest =>
        rw [candidates] at ok
        cases rest with
        | cons other rest => cases ok
        | nil =>
          have mem : block ∈ live_spans.blocks.filter fun block =>
              block.isLeaf && decide (retained.source.Contains block.source) := by
            rw [candidates]
            exact List.mem_singleton_self _
          rcases List.mem_filter.mp mem with ⟨mem, holds⟩
          rcases Bool.and_eq_true_iff.mp holds with ⟨isLeaf, within⟩
          exact ⟨retained, block, rfl, leaf, mem, isLeaf, Except.ok.inj ok,
            of_decide_eq_true within⟩

/-- An edit address is a live leaf: the one at the path, or else one in its region. -/
theorem editableLivePath_ok (ok : editableLivePath live_spans retained_spans path = .ok live_path) :
    (∃ block, live_spans.block path = some block ∧ block.isLeaf ∧ block.path = live_path) ∨
      leafInRegion live_spans retained_spans path = .ok live_path := by
  unfold editableLivePath at ok
  cases found : live_spans.block path with
  | none =>
    rw [found] at ok
    exact .inr ok
  | some block =>
    rw [found] at ok
    dsimp only at ok
    cases leaf : block.isLeaf with
    | true =>
      rw [leaf, if_pos rfl] at ok
      exact .inl ⟨block, rfl, leaf, Except.ok.inj ok⟩
    | false =>
      rw [leaf, if_neg Bool.false_ne_true] at ok
      exact .inr ok

theorem livePath_ok (ok : livePath live_spans retained_spans path = .ok live_path) :
    (∃ block, live_spans.block path = some block ∧ block.path = live_path) ∨
      leafInRegion live_spans retained_spans path = .ok live_path := by
  unfold livePath at ok
  cases found : live_spans.block path with
  | none =>
    rw [found] at ok
    rcases editableLivePath_ok ok with ⟨block, found', -⟩ | fallback
    · rw [found] at found'
      cases found'
    · exact .inr fallback
  | some block =>
    rw [found] at ok
    exact .inl ⟨block, rfl, Except.ok.inj ok⟩

/-- The leaf that a path names in a parse, for a caller whose map holds a region for it: the leaf at
the path, or without one the only leaf in the region. -/
inductive NamesLeaf (live_spans : SpanMap) (path : BlockPath) (region : Range) : BlockSpan → Prop
  | there {leaf : BlockSpan} (found : live_spans.block path = some leaf)
      (isLeaf : leaf.isLeaf = true) : NamesLeaf live_spans path region leaf
  | alone {leaf : BlockSpan}
      (gone : ∀ block, live_spans.block path = some block → block.isLeaf = false)
      (only : (live_spans.blocks.filter fun block =>
        block.isLeaf && decide (region.Contains block.source)) = [leaf]) :
      NamesLeaf live_spans path region leaf

theorem NamesLeaf.mem {region : Range} {leaf : BlockSpan}
    (names : NamesLeaf live_spans path region leaf) :
    leaf ∈ live_spans.blocks ∧ leaf.isLeaf = true := by
  cases names with
  | there found isLeaf => exact ⟨(mem_of_block found).1, isLeaf⟩
  | alone gone only =>
    have inside : leaf ∈ live_spans.blocks.filter fun block =>
        block.isLeaf && decide (region.Contains block.source) := by
      rw [only]
      exact List.mem_singleton_self _
    rcases List.mem_filter.mp inside with ⟨mem, holds⟩
    exact ⟨mem, (Bool.and_eq_true_iff.mp holds).1⟩

/-- An edit address is that of the leaf that the path names. -/
theorem editableLivePath_eq_ok {retained : BlockSpan}
    (known : retained_spans.block path = some retained) (isLeaf : retained.isLeaf = true) :
    editableLivePath live_spans retained_spans path = .ok live_path ↔
      ∃ leaf, NamesLeaf live_spans path retained.source leaf ∧ leaf.path = live_path := by
  have region : leafInRegion live_spans retained_spans path = .ok live_path ↔
      ∃ leaf, (live_spans.blocks.filter fun block =>
        block.isLeaf && decide (retained.source.Contains block.source)) = [leaf] ∧
          leaf.path = live_path := by
    unfold leafInRegion
    rw [known]
    dsimp only
    rw [isLeaf, Bool.not_true, if_neg Bool.false_ne_true]
    cases candidates : live_spans.blocks.filter fun block =>
        block.isLeaf && decide (retained.source.Contains block.source) with
    | nil => simp
    | cons block rest =>
      cases rest with
      | nil => simp
      | cons other rest => simp
  unfold editableLivePath
  cases found : live_spans.block path with
  | none =>
    dsimp only
    rw [region]
    constructor
    · intro only
      rcases only with ⟨leaf, only, isPath⟩
      refine ⟨leaf, .alone ?_ only, isPath⟩
      intro block wrong
      rw [found] at wrong
      cases wrong
    · intro named
      rcases named with ⟨leaf, names, isPath⟩
      cases names with
      | there found' =>
        rw [found] at found'
        cases found'
      | alone gone only => exact ⟨leaf, only, isPath⟩
  | some block =>
    dsimp only
    cases blockLeaf : block.isLeaf with
    | true =>
      rw [if_pos rfl, Except.ok.injEq]
      constructor
      · intro isPath
        exact ⟨block, .there found blockLeaf, isPath⟩
      · intro named
        rcases named with ⟨leaf, names, isPath⟩
        cases names with
        | there found' =>
          rw [found] at found'
          cases found'
          exact isPath
        | alone gone only =>
          rw [gone block found] at blockLeaf
          cases blockLeaf
    | false =>
      rw [if_neg Bool.false_ne_true, region]
      constructor
      · intro only
        rcases only with ⟨leaf, only, isPath⟩
        refine ⟨leaf, .alone ?_ only, isPath⟩
        intro block' same
        rw [found] at same
        cases same
        exact blockLeaf
      · intro named
        rcases named with ⟨leaf, names, isPath⟩
        cases names with
        | there found' leaf' =>
          rw [found] at found'
          cases found'
          rw [blockLeaf] at leaf'
          cases leaf'
        | alone gone only => exact ⟨leaf, only, isPath⟩

/-! ## Link marks -/

theorem childNodes_linkExistence (existing : List Okf.ConceptId) (node : AstNode) :
    childNodes (Index.linkExistenceOf existing node) =
      (childNodes node).map (Index.applyLinkExistence existing) := by
  cases node with
  | suggestion base local_content incoming_content =>
    cases base with
    | none =>
      unfold Index.linkExistenceOf
      rfl
    | some base =>
      unfold Index.linkExistenceOf
      rfl
  | heading _ _ | paragraph _ | list _ _ | listItem _ _ | blockquote _ | codeBlock _ _
  | thematicBreak | image _ _ =>
    unfold Index.linkExistenceOf
    rfl

/-- The marks of Links move no node. -/
theorem nodeAtPath_linkExistence (existing : List Okf.ConceptId) (nodes : List AstNode)
    (path : BlockPath) :
    nodeAtPath (Index.applyLinkExistence existing nodes) path =
      (nodeAtPath nodes path).map (Index.linkExistenceOf existing) := by
  induction path generalizing nodes with
  | nil => rfl
  | cons head rest ih =>
    cases rest with
    | nil => exact Index.applyLinkExistence_getElem? nodes head
    | cons next rest =>
      unfold nodeAtPath
      rw [Index.applyLinkExistence_getElem?]
      cases nodes[head]? with
      | none => rfl
      | some node =>
        dsimp only [Option.map_some, Option.bind_some]
        rw [childNodes_linkExistence]
        cases childNodes node with
        | none => rfl
        | some inner => exact ih inner

theorem isEmptyItem_linkExistence (existing : List Okf.ConceptId) (ast : List AstNode)
    (path : BlockPath) :
    isEmptyItem (Index.applyLinkExistence existing ast) path = isEmptyItem ast path := by
  unfold isEmptyItem
  rw [nodeAtPath_linkExistence]
  cases nodeAtPath ast path with
  | none => rfl
  | some node =>
    cases node with
    | listItem content checked =>
      unfold Option.map Index.linkExistenceOf
      cases content with
      | nil =>
        unfold Index.applyLinkExistence
        rfl
      | cons first rest =>
        unfold Index.applyLinkExistence
        rfl
    | suggestion base local_content incoming_content =>
      cases base with
      | none =>
        unfold Option.map Index.linkExistenceOf
        rfl
      | some base =>
        unfold Option.map Index.linkExistenceOf
        rfl
    | heading _ _ | paragraph _ | list _ _ | blockquote _ | codeBlock _ _ | thematicBreak
    | image _ _ =>
      unfold Option.map Index.linkExistenceOf
      rfl

/-- Resolving the Links of a tree leaves its items empty or not. -/
theorem isEmptyItem_resolved {env : Surroundings} {ast resolved : List AstNode}
    (ok : env.resolveLinks ast = .ok resolved) (path : BlockPath) :
    isEmptyItem resolved path = isEmptyItem ast path := by
  rcases Index.resolveLinkExistence_ok ok with same | ⟨existing, marked⟩
  · rw [same]
  · rw [marked]
    exact isEmptyItem_linkExistence existing ast path

end Burlmd.Editor
