import Burlmd.Editor.BlockEdits
import Burlmd.Editor.Reached
import Burlmd.Interface.LeafLayout
import Burlmd.Markdown.LastLeaf

/-!
# Enter behind an edited field

Enter at the visual end of a changed field first has Core parse the text. The Block that the user
continues is then looked for in the new tree: at the old path, or in front of the top-level Blocks
that the edit left as they were.
-/

namespace Burlmd.Interface

open Editor hiding nodeAtPath
open Markdown
open Surrogates
open Utf16 (encode utf16Len)
open Utf8 (Range Text byteLen slice?)

/-! ## Equal nodes -/

mutual

def InlineElement.same : InlineElement → InlineElement → Bool
  | .text run, .text run' => run = run'
  | .link target_id exists_ content, .link target_id' exists_' content' =>
      target_id = target_id' && exists_ = exists_' && sameContent content content'
  | .externalLink url content, .externalLink url' content' =>
      url = url' && sameContent content content'
  | _, _ => false

def sameContent : List InlineElement → List InlineElement → Bool
  | [], [] => true
  | element :: rest, element' :: rest' => InlineElement.same element element' && sameContent rest rest'
  | _, _ => false

end

mutual

def AstNode.same : AstNode → AstNode → Bool
  | .heading level content, .heading level' content' => level = level' && sameContent content content'
  | .paragraph content, .paragraph content' => sameContent content content'
  | .list ordered items, .list ordered' items' => ordered = ordered' && sameNodes items items'
  | .listItem content checked, .listItem content' checked' =>
      sameNodes content content' && checked = checked'
  | .blockquote nodes, .blockquote nodes' => sameNodes nodes nodes'
  | .codeBlock language code, .codeBlock language' code' => language = language' && code = code'
  | .thematicBreak, .thematicBreak => true
  | .image alt_text url_or_path, .image alt_text' url_or_path' =>
      alt_text = alt_text' && url_or_path = url_or_path'
  | .suggestion base_content local_content incoming_content,
      .suggestion base_content' local_content' incoming_content' =>
      sameBase base_content base_content' && sameNodes local_content local_content' &&
        sameNodes incoming_content incoming_content'
  | _, _ => false

def sameBase : Option (List AstNode) → Option (List AstNode) → Bool
  | none, none => true
  | some nodes, some nodes' => sameNodes nodes nodes'
  | _, _ => false

def sameNodes : List AstNode → List AstNode → Bool
  | [], [] => true
  | node :: rest, node' :: rest' => AstNode.same node node' && sameNodes rest rest'
  | _, _ => false

end

mutual

theorem InlineElement.same_iff (element element' : InlineElement) :
    InlineElement.same element element' = true ↔ element = element' := by
  cases element with
  | text run =>
    cases element' with
    | text run' => simp [InlineElement.same]
    | link _ _ _ | externalLink _ _ => simp [InlineElement.same]
  | link target_id exists_ content =>
    cases element' with
    | link target_id' exists_' content' =>
      simp [InlineElement.same, sameContent_iff content content', and_assoc]
    | text _ | externalLink _ _ => simp [InlineElement.same]
  | externalLink url content =>
    cases element' with
    | externalLink url' content' => simp [InlineElement.same, sameContent_iff content content']
    | text _ | link _ _ _ => simp [InlineElement.same]

theorem sameContent_iff (content content' : List InlineElement) :
    sameContent content content' = true ↔ content = content' := by
  cases content with
  | nil =>
    cases content' with
    | nil => simp [sameContent]
    | cons _ _ => simp [sameContent]
  | cons element rest =>
    cases content' with
    | nil => simp [sameContent]
    | cons element' rest' =>
      simp [sameContent, InlineElement.same_iff element element', sameContent_iff rest rest']

end

mutual

theorem AstNode.same_iff (node node' : AstNode) : AstNode.same node node' = true ↔ node = node' := by
  cases node with
  | heading level content => cases node' <;> simp [AstNode.same, sameContent_iff]
  | paragraph content => cases node' <;> simp [AstNode.same, sameContent_iff]
  | list ordered items =>
    cases node' with
    | list ordered' items' => simp [AstNode.same, sameNodes_iff items items']
    | _ => simp [AstNode.same]
  | listItem content checked =>
    cases node' with
    | listItem content' checked' => simp [AstNode.same, sameNodes_iff content content']
    | _ => simp [AstNode.same]
  | blockquote nodes =>
    cases node' with
    | blockquote nodes' => simp [AstNode.same, sameNodes_iff nodes nodes']
    | _ => simp [AstNode.same]
  | codeBlock language code => cases node' <;> simp [AstNode.same]
  | thematicBreak => cases node' <;> simp [AstNode.same]
  | image alt_text url_or_path => cases node' <;> simp [AstNode.same]
  | suggestion base local_content incoming =>
    cases node' with
    | suggestion base' local_content' incoming' =>
      simp [AstNode.same, sameBase_iff base base', sameNodes_iff local_content local_content',
        sameNodes_iff incoming incoming', and_assoc]
    | _ => simp [AstNode.same]

theorem sameBase_iff (base base' : Option (List AstNode)) :
    sameBase base base' = true ↔ base = base' := by
  cases base with
  | none => cases base' <;> simp [sameBase]
  | some nodes =>
    cases base' with
    | none => simp [sameBase]
    | some nodes' => simp [sameBase, sameNodes_iff nodes nodes']

theorem sameNodes_iff (nodes nodes' : List AstNode) :
    sameNodes nodes nodes' = true ↔ nodes = nodes' := by
  cases nodes with
  | nil => cases nodes' <;> simp [sameNodes]
  | cons node rest =>
    cases nodes' with
    | nil => simp [sameNodes]
    | cons node' rest' => simp [sameNodes, AstNode.same_iff node node', sameNodes_iff rest rest']

end

instance : DecidableEq AstNode := fun node node' =>
  decidable_of_iff _ (AstNode.same_iff node node')

/-! ## Leaf paths -/

mutual

def leafPathsIn : AstNode → BlockPath → List BlockPath
  | .list _ items, path => leafPathsFrom items path 0
  | .listItem content _, path => leafPathsFrom content path 0
  | .blockquote nodes, path => leafPathsFrom nodes path 0
  | .suggestion _ local_content _, path => leafPathsFrom local_content path 0
  | .heading .., path | .paragraph _, path | .codeBlock .., path | .thematicBreak, path
  | .image .., path => [path]

/-- The leaf paths of siblings, the first of which has an index. -/
def leafPathsFrom : List AstNode → BlockPath → Nat → List BlockPath
  | [], _, _ => []
  | node :: rest, path, index =>
      leafPathsIn node (path ++ [index]) ++ leafPathsFrom rest path (index + 1)

end

def leafPaths (ast : List AstNode) : List BlockPath := leafPathsFrom ast [] 0

/-- A node without children stands at the path. -/
def StandsLeaf (ast : List AstNode) (path : BlockPath) : Prop :=
  ∃ node, Editor.nodeAtPath ast path = some node ∧ Editor.childNodes node = none

theorem standsLeaf_nil {nodes : List AstNode} : ¬ StandsLeaf nodes [] := by
  rintro ⟨node, found, -⟩
  cases found

theorem standsLeaf_cons {nodes : List AstNode} {k : Nat} {rest : BlockPath} :
    StandsLeaf nodes (k :: rest) ↔ ∃ node, nodes[k]? = some node ∧
      ((rest = [] ∧ Editor.childNodes node = none) ∨
        ∃ inner, Editor.childNodes node = some inner ∧ StandsLeaf inner rest) := by
  cases rest with
  | nil =>
    constructor
    · rintro ⟨node, found, leaf⟩
      exact ⟨node, found, Or.inl ⟨rfl, leaf⟩⟩
    · rintro ⟨node, found, ⟨-, leaf⟩ | ⟨inner, -, below⟩⟩
      · exact ⟨node, found, leaf⟩
      · exact absurd below standsLeaf_nil
  | cons next rest =>
    constructor
    · rintro ⟨node, found, leaf⟩
      rcases Option.bind_eq_some_iff.mp found with ⟨outer, here, found⟩
      rcases Option.bind_eq_some_iff.mp found with ⟨inner, children, found⟩
      exact ⟨outer, here, Or.inr ⟨inner, children, node, found, leaf⟩⟩
    · rintro ⟨outer, here, ⟨empty, -⟩ | ⟨inner, children, node, found, leaf⟩⟩
      · cases empty
      · refine ⟨node, ?_, leaf⟩
        apply Option.bind_eq_some_iff.mpr
        refine ⟨outer, here, ?_⟩
        apply Option.bind_eq_some_iff.mpr
        exact ⟨inner, children, found⟩

mutual

theorem mem_leafPathsIn (node : AstNode) (path : BlockPath) {found : BlockPath} :
    found ∈ leafPathsIn node path ↔ ∃ rest, found = path ++ rest ∧
      ((rest = [] ∧ Editor.childNodes node = none) ∨
        ∃ inner, Editor.childNodes node = some inner ∧ StandsLeaf inner rest) := by
  have leaf (none_ : Editor.childNodes node = none) : found ∈ [path] ↔ ∃ rest, found = path ++ rest ∧
      ((rest = [] ∧ Editor.childNodes node = none) ∨
        ∃ inner, Editor.childNodes node = some inner ∧ StandsLeaf inner rest) := by
    rw [List.mem_singleton]
    constructor
    · intro same
      exact ⟨[], same.trans (List.append_nil _).symm, Or.inl ⟨rfl, none_⟩⟩
    · rintro ⟨rest, same, ⟨empty, -⟩ | ⟨inner, some_, -⟩⟩
      · rw [same, empty, List.append_nil]
      · rw [none_] at some_
        cases some_
  have container (nodes : List AstNode) (some_ : Editor.childNodes node = some nodes)
      (below : found ∈ leafPathsFrom nodes path 0 ↔
        ∃ k rest, found = path ++ (0 + k) :: rest ∧ StandsLeaf nodes (k :: rest)) :
      found ∈ leafPathsFrom nodes path 0 ↔ ∃ rest, found = path ++ rest ∧
        ((rest = [] ∧ Editor.childNodes node = none) ∨
          ∃ inner, Editor.childNodes node = some inner ∧ StandsLeaf inner rest) := by
    rw [below]
    constructor
    · rintro ⟨k, rest, same, at_⟩
      rw [Nat.zero_add] at same
      exact ⟨k :: rest, same, Or.inr ⟨nodes, some_, at_⟩⟩
    · rintro ⟨rest, same, ⟨-, none_⟩ | ⟨inner, isInner, at_⟩⟩
      · rw [some_] at none_
        cases none_
      · rw [some_] at isInner
        cases isInner
        cases rest with
        | nil => exact absurd at_ standsLeaf_nil
        | cons k rest => exact ⟨k, rest, by rw [Nat.zero_add, same], at_⟩
  cases node with
  | list ordered items => exact container items rfl (mem_leafPathsFrom items path 0)
  | listItem content checked =>
    exact container content rfl (mem_leafPathsFrom content path 0)
  | blockquote nodes => exact container nodes rfl (mem_leafPathsFrom nodes path 0)
  | suggestion base local_content incoming =>
    exact container local_content rfl (mem_leafPathsFrom local_content path 0)
  | heading _ _ | paragraph _ | codeBlock _ _ | thematicBreak | image _ _ => exact leaf rfl

theorem mem_leafPathsFrom (nodes : List AstNode) (path : BlockPath) (index : Nat)
    {found : BlockPath} :
    found ∈ leafPathsFrom nodes path index ↔
      ∃ k rest, found = path ++ (index + k) :: rest ∧ StandsLeaf nodes (k :: rest) := by
  cases nodes with
  | nil =>
    constructor
    · intro inside
      cases inside
    · rintro ⟨k, rest, -, at_⟩
      rcases standsLeaf_cons.mp at_ with ⟨node, here, -⟩
      cases here
  | cons node behind =>
    rw [leafPathsFrom, List.mem_append, mem_leafPathsIn node (path ++ [index]),
      mem_leafPathsFrom behind path (index + 1)]
    constructor
    · rintro (⟨rest, same, at_⟩ | ⟨k, rest, same, at_⟩)
      · refine ⟨0, rest, ?_, standsLeaf_cons.mpr ⟨node, rfl, at_⟩⟩
        rw [same, List.append_assoc]
        rfl
      · rcases standsLeaf_cons.mp at_ with ⟨inner, here, below⟩
        refine ⟨k + 1, rest, ?_, standsLeaf_cons.mpr ⟨inner, here, below⟩⟩
        rw [same, Nat.add_right_comm, Nat.add_assoc]
    · rintro ⟨k, rest, same, at_⟩
      rcases standsLeaf_cons.mp at_ with ⟨inner, here, below⟩
      cases k with
      | zero =>
        cases here
        refine Or.inl ⟨rest, ?_, below⟩
        rw [same, List.append_assoc]
        rfl
      | succ k =>
        refine Or.inr ⟨k, rest, ?_, standsLeaf_cons.mpr ⟨inner, here, below⟩⟩
        rw [same, Nat.add_right_comm, Nat.add_assoc]

end

theorem mem_leafPaths {ast : List AstNode} {path : BlockPath} :
    path ∈ leafPaths ast ↔ StandsLeaf ast path := by
  rw [leafPaths, mem_leafPathsFrom]
  constructor
  · rintro ⟨k, rest, same, at_⟩
    rw [List.nil_append, Nat.zero_add] at same
    exact same ▸ at_
  · intro at_
    cases path with
    | nil => exact absurd at_ standsLeaf_nil
    | cons k rest => exact ⟨k, rest, by rw [List.nil_append, Nat.zero_add], at_⟩

/-! ## The unchanged end -/

/-- Counted from the end, as far as the nodes are equal and behind the focused one. -/
def unchangedFollowingTopLevelRegionCount (previous current : List AstNode)
    (focusedTopLevelIndex : Nat) : Nat :=
  Replacement.sharedPrefix (previous.drop (focusedTopLevelIndex + 1)).reverse current.reverse

theorem sharedPrefix_eq_iff {α : Type} [DecidableEq α] {xs ys : List α} {n : Nat}
    (short : n < ys.length) :
    Replacement.sharedPrefix xs ys = n ↔ ys.take n <+: xs ∧ ¬ ys.take (n + 1) <+: xs := by
  induction ys generalizing xs n with
  | nil => cases short
  | cons y ys ih =>
    cases xs with
    | nil =>
      rw [List.take_succ_cons, List.prefix_nil, List.prefix_nil]
      cases n with
      | zero => simp [Replacement.sharedPrefix]
      | succ n => simp [Replacement.sharedPrefix]
    | cons x xs =>
      rw [Replacement.sharedPrefix, List.take_succ_cons, List.cons_prefix_cons]
      by_cases same : x = y
      · rw [if_pos same]
        cases n with
        | zero => simp [same]
        | succ n =>
          rw [List.take_succ_cons, List.cons_prefix_cons, Nat.succ_inj,
            ih (Nat.lt_of_succ_lt_succ short)]
          simp [same]
      · rw [if_neg same]
        have other : ¬ y = x := fun equal => same equal.symm
        cases n with
        | zero => simp [other]
        | succ n => simp [other]

/-- The unchanged nodes are those behind an index. -/
theorem unchanged_eq_iff {previous current : List AstNode} {focused top : Nat}
    (inside : top < current.length) :
    unchangedFollowingTopLevelRegionCount previous current focused = current.length - (top + 1) ↔
      current.drop (top + 1) <:+ previous.drop (focused + 1) ∧
        ¬ current.drop top <:+ previous.drop (focused + 1) := by
  have behind (place : Nat) (le : place ≤ current.length) :
      current.reverse.take (current.length - place) = (current.drop place).reverse := by
    rw [List.take_reverse, Nat.sub_sub_self le]
  have next : current.length - (top + 1) + 1 = current.length - top := by omega
  have short : current.length - (top + 1) < current.reverse.length := by
    rw [List.length_reverse]
    omega
  rw [unchangedFollowingTopLevelRegionCount, sharedPrefix_eq_iff short, next, behind _ inside,
    behind _ (Nat.le_of_lt inside), List.reverse_prefix, List.reverse_prefix]

/-! ## The handler -/

/-- An error of Core, or of the interface itself. -/
inductive Failure where
  | core (error : AppError)
  | state (message : Text)
  deriving DecidableEq

def sessionFailure {α : Type} : Except AppError α → Except Failure α
  | .ok result => .ok result
  | .error error => .error (.core error)

variable (env : Surroundings)

/-- The raw Markdown source of one Block. -/
def getBlockSource (session : Session) (block_path : BlockPath) : Except AppError Text := do
  session.refuseWhileConflicted env "reading a Block's source".toList
  match (session.spans.block block_path).bind fun block => slice? session.source block.source with
  | some source => .ok source
  | none => .error (noBlock block_path)

def resolveBlockCaret (session : Session) (top_level_path : BlockPath)
    (rendered_utf16_offset : Nat) : Except AppError (BlockPath × Nat) :=
  match top_level_path with
  | [top] =>
      match session.ast[top]? with
      | none => .error (noBlock top_level_path)
      | some top_level =>
          match session.spans.resolveUtf16Caret session.source top_level_path
              (renderedText top_level) rendered_utf16_offset with
          | some found => .ok found
          | none =>
              .error (.parseError ("rendered UTF-16 offset ".toList ++ shown rendered_utf16_offset ++
                " is invalid for block_path ".toList ++ shownPath top_level_path))
  | _ =>
      .error (.parseError ("block_path ".toList ++ shownPath top_level_path ++
        " must name exactly one top-level Block".toList))

theorem lastBefore_lt {count length : Nat} (inside : count < length) :
    length - (count + 1) < length := by
  omega

/-- The last leaf in front of the top-level nodes that the edit left as they were. -/
def anchorBeforeUnchanged (session : Session) (previousState state : List AstNode)
    (previousPath : BlockPath) : Except Failure BlockPath :=
  match previousPath with
  | [] => .error (.state "No element".toList)
  | originalTopLevelIndex :: _ =>
      if previousState.length ≤ originalTopLevelIndex then
        .error (.state "Focused Block has no prior top-level region.".toList)
      else
        let followingRegionCount :=
          unchangedFollowingTopLevelRegionCount previousState state originalTopLevelIndex
        if inside : followingRegionCount < state.length then
          let topLevelIndex := state.length - (followingRegionCount + 1)
          let node := state.get ⟨topLevelIndex, lastBefore_lt inside⟩
          (sessionFailure (resolveBlockCaret session [topLevelIndex]
            (blockCoreRenderedLength node))).map Prod.fst
        else .error (.state "Committed Block produced no continuation anchor.".toList)

/-- The Block to continue after a commit: the old address where Core reports the committed text
there, and else the end of what was changed. -/
def rederiveContinuationPath (session : Session) (previousState state : List AstNode)
    (previousPath : BlockPath) (committedSource : Text) : Except Failure BlockPath :=
  if previousPath ∈ leafPaths state then
    match getBlockSource env session previousPath with
    | .error error => .error (.core error)
    | .ok survivingSource =>
        if survivingSource = committedSource then .ok previousPath
        else anchorBeforeUnchanged session previousState state previousPath
  else anchorBeforeUnchanged session previousState state previousPath

/-- What the interface keeps of a focused field. -/
structure FocusedField where
  path : BlockPath
  source : Text
  canCommit : Bool
  isPhantom : Bool

inductive EnterOutcome where
  | ignored
  /-- Core splits the Block. -/
  | splits
  /-- An empty field opens behind the Block at the path. -/
  | phantom (path : BlockPath)
  | reported (failure : Failure)
  deriving DecidableEq

/-- What Enter leaves, and whether the tree of the interface is that of the last parse. -/
structure Entered where
  session : Session
  /-- Core has parsed the text. -/
  committed : Bool
  /-- The interface shows the tree of that parse. -/
  adopted : Bool
  outcome : EnterOutcome

/-- The white space that Dart trims. -/
def isTrimmed (unit : UInt16) : Bool :=
  (9 ≤ unit && unit ≤ 13) || unit = 32 || unit = 0x85 || unit = 0xA0 || unit = 0x1680 ||
    (0x2000 ≤ unit && unit ≤ 0x200A) || unit = 0x2028 || unit = 0x2029 || unit = 0x202F ||
      unit = 0x205F || unit = 0x3000 || unit = 0xFEFF

/-- The branch of a changed field: commit, find the Block to continue, adopt. -/
def continueAfterCommit (session : Session) (note : List AstNode) (blockPath : BlockPath)
    (source : Text) : Entered :=
  match commitBlock env session with
  | (.error error, session) => ⟨session, false, false, .reported (.core error)⟩
  | (.ok (), session) =>
      match rederiveContinuationPath env session note session.ast blockPath source with
      | .error failure => ⟨session, true, false, .reported failure⟩
      | .ok continuationPath => ⟨session, true, true, .phantom continuationPath⟩

/-- `note` is the tree that the interface shows. -/
def handleEnterRequested (session : Session) (note : List AstNode) (focused : FocusedField)
    (blockPath : BlockPath) (source : Text) (selection : TextSelection) : Entered :=
  let units := encode source
  if !focused.canCommit || focused.isPhantom || focused.path ≠ blockPath then
    ⟨session, false, false, .ignored⟩
  else if !isValidUtf16SelectionBoundary units selection.baseOffset ||
      !isValidUtf16SelectionBoundary units selection.extentOffset then
    ⟨session, false, false, .ignored⟩
  else
    let caret := min selection.baseOffset selection.extentOffset
    if selection.baseOffset = selection.extentOffset ∧ (units.drop caret).all isTrimmed then
      if source ≠ focused.source then continueAfterCommit env session note blockPath source
      else ⟨session, false, false, .phantom blockPath⟩
    else ⟨session, false, false, .splits⟩

/-! ## Marked trees -/

section Marks

variable (existing : List Okf.ConceptId)

mutual

theorem rendered_existenceOf (element : InlineElement) :
    (Index.existenceOf existing element).rendered = element.rendered := by
  cases element with
  | text run => rw [Index.existenceOf]
  | link target_id exists_ content =>
    rw [Index.existenceOf, InlineElement.rendered, InlineElement.rendered,
      renderedInlineText_existence content]
  | externalLink url content =>
    rw [Index.existenceOf, InlineElement.rendered, InlineElement.rendered,
      renderedInlineText_existence content]

theorem renderedInlineText_existence (content : List InlineElement) :
    renderedInlineText (Index.applyInlineExistence existing content) =
      renderedInlineText content := by
  cases content with
  | nil => rw [Index.applyInlineExistence]
  | cons element rest =>
    rw [Index.applyInlineExistence, renderedInlineText, renderedInlineText,
      rendered_existenceOf element, renderedInlineText_existence rest]

end

mutual

/-- The marks of Links show no text. -/
theorem renderedText_linkExistence (node : AstNode) :
    renderedText (Index.linkExistenceOf existing node) = renderedText node := by
  cases node with
  | heading level content =>
    rw [Index.linkExistenceOf, renderedText, renderedText, renderedInlineText_existence]
  | paragraph content =>
    rw [Index.linkExistenceOf, renderedText, renderedText, renderedInlineText_existence]
  | list ordered items =>
    rw [Index.linkExistenceOf, renderedText, renderedText, renderedTexts_linkExistence items]
  | listItem content checked =>
    rw [Index.linkExistenceOf, renderedText, renderedText, renderedTexts_linkExistence content]
  | blockquote nodes =>
    rw [Index.linkExistenceOf, renderedText, renderedText, renderedTexts_linkExistence nodes]
  | codeBlock language code => rw [Index.linkExistenceOf]
  | thematicBreak => rw [Index.linkExistenceOf]
  | image alt_text url_or_path => rw [Index.linkExistenceOf]
  | suggestion base local_content incoming =>
    cases base with
    | none =>
      rw [Index.linkExistenceOf, renderedText, renderedText,
        renderedTexts_linkExistence local_content, renderedTexts_linkExistence incoming]
    | some base =>
      rw [Index.linkExistenceOf, renderedText, renderedText, renderedTexts_linkExistence base,
        renderedTexts_linkExistence local_content, renderedTexts_linkExistence incoming]

theorem renderedTexts_linkExistence (nodes : List AstNode) :
    renderedTexts (Index.applyLinkExistence existing nodes) = renderedTexts nodes := by
  cases nodes with
  | nil => rw [Index.applyLinkExistence]
  | cons node rest =>
    rw [Index.applyLinkExistence, renderedTexts, renderedTexts, renderedText_linkExistence node,
      renderedTexts_linkExistence rest]

end

mutual

theorem settled_linkExistence (node : AstNode) :
    (Index.linkExistenceOf existing node).settled = node.settled := by
  cases node with
  | heading level content => rw [Index.linkExistenceOf, AstNode.settled, AstNode.settled]
  | paragraph content => rw [Index.linkExistenceOf, AstNode.settled, AstNode.settled]
  | list ordered items =>
    rw [Index.linkExistenceOf, AstNode.settled, AstNode.settled, settledEach_linkExistence items]
  | listItem content checked =>
    rw [Index.linkExistenceOf, AstNode.settled, AstNode.settled, settledEach_linkExistence content]
  | blockquote nodes =>
    rw [Index.linkExistenceOf, AstNode.settled, AstNode.settled, settledEach_linkExistence nodes]
  | codeBlock language code => rw [Index.linkExistenceOf]
  | thematicBreak => rw [Index.linkExistenceOf]
  | image alt_text url_or_path => rw [Index.linkExistenceOf]
  | suggestion base local_content incoming =>
    cases base with
    | none => rw [Index.linkExistenceOf, AstNode.settled, AstNode.settled]
    | some base => rw [Index.linkExistenceOf, AstNode.settled, AstNode.settled]

theorem settledEach_linkExistence (nodes : List AstNode) :
    settledEach (Index.applyLinkExistence existing nodes) = settledEach nodes := by
  cases nodes with
  | nil => rw [Index.applyLinkExistence]
  | cons node rest =>
    rw [Index.applyLinkExistence, settledEach, settledEach, settled_linkExistence node,
      settledEach_linkExistence rest]

end

end Marks

/-- What a marked node shows is what the parsed one does. -/
theorem resolved_getElem? {env : Surroundings} {ast committed : List AstNode} {top : Nat}
    {node : AstNode} (ok : env.resolveLinks ast = .ok committed)
    (here : committed[top]? = some node) :
    ∃ original, ast[top]? = some original ∧ renderedText node = renderedText original ∧
      node.settled = original.settled := by
  rcases Index.resolveLinkExistence_ok ok with same | ⟨existing, marked⟩
  · rw [same] at here
    exact ⟨node, here, rfl, rfl⟩
  · rw [marked, Index.applyLinkExistence_getElem?] at here
    rcases Option.map_eq_some_iff.mp here with ⟨original, at_, same⟩
    rw [← same]
    exact ⟨original, at_, renderedText_linkExistence existing original,
      settled_linkExistence existing original⟩

/-! ## The Block that is continued -/

/-- The last leaf that some of a range lies in, in document order. -/
structure LastOverlapping (spans : SpanMap) (range : Range) (leaf : BlockSpan) : Prop where
  mem : leaf ∈ spans.blocks
  overlaps : overlapsLeaf range leaf = true
  last : ∀ other ∈ spans.blocks, overlapsLeaf range other = true →
    other.path = leaf.path ∨ Later other.path leaf.path

/-- A leaf of the tree stands at the path, and its source is the text. -/
structure Kept (source : Text) (spans : SpanMap) (committed : List AstNode) (path : BlockPath)
    (text : Text) : Prop where
  leaf : StandsLeaf committed path
  text : ∃ block, spans.block path = some block ∧ slice? source block.source = some text

/-- The path is that of the last leaf of the Block at `top`, and behind that Block stands as much of
the end of the tree as stood behind the Block at `focused` before. -/
structure EndsAt (parsed : ParsedNote) (previous committed : List AstNode) (focused top : Nat)
    (path : BlockPath) : Prop where
  shown : focused < previous.length
  unchanged : committed.drop (top + 1) <:+ previous.drop (focused + 1)
  longest : ¬ committed.drop top <:+ previous.drop (focused + 1)
  /-- Every node of the Block has an entry in the map. -/
  known : ∀ path, (nodeAt parsed.ast (top :: path)).isSome →
    (parsed.spans.block (top :: path)).isSome
  last : parsed.spans.LastLeaf top path

theorem EndsAt.inside {parsed : ParsedNote} {previous committed : List AstNode} {focused top : Nat}
    {path : BlockPath} (ends : EndsAt parsed previous committed focused top path) :
    top < committed.length := by
  apply Nat.lt_of_not_le
  intro beyond
  apply ends.longest
  rw [List.drop_of_length_le beyond]
  exact List.nil_suffix

section Continuation

variable {env : Surroundings} {session : Session} {previous committed : List AstNode}
  {path found : BlockPath} {text : Text}

/-- A session after a parse of its text. -/
def reparsed (env : Surroundings) (session : Session) (committed : List AstNode) : Session :=
  { session with ast := committed, spans := (env.parse session.source).spans }

theorem resolveBlockCaret_iff (ok : env.resolveLinks (env.parse session.source).ast = .ok committed)
    {top : Nat} {node : AstNode} (here : committed[top]? = some node) :
    (sessionFailure (resolveBlockCaret (reparsed env session committed) [top]
        (blockCoreRenderedLength node))).map Prod.fst = .ok found ↔
      (∀ path, (nodeAt (env.parse session.source).ast (top :: path)).isSome →
        ((env.parse session.source).spans.block (top :: path)).isSome) ∧
      (env.parse session.source).spans.LastLeaf top found := by
  rcases resolved_getElem? ok here with ⟨original, at_, rendered, settled⟩
  have original_settled : original.settled = true :=
    parseNote_settled _ _ _ original (List.mem_of_getElem? at_)
  have length : blockCoreRenderedLength node = utf16Len (renderedText original) := by
    rw [blockCoreRenderedLength, coreRenderedLength_eq node (settled.trans original_settled), rendered]
  have caret : resolveBlockCaret (reparsed env session committed) [top]
      (blockCoreRenderedLength node) =
      match (env.parse session.source).spans.resolveUtf16Caret session.source [top]
          (renderedText original) (utf16Len (renderedText original)) with
      | some found => .ok found
      | none =>
          .error (.parseError ("rendered UTF-16 offset ".toList ++
            shown (blockCoreRenderedLength node) ++ " is invalid for block_path ".toList ++
              shownPath [top])) := by
    have here' : (reparsed env session committed).ast[top]? = some node := here
    unfold resolveBlockCaret
    dsimp only
    rw [here', ← length, ← rendered]
    rfl
  refine Iff.trans ?_
    (exists_endCaret_iff (env.stream session.source) (Okf.containingDir env.note_id) at_)
  rw [caret]
  change _ ↔ ∃ caret, (env.parse session.source).spans.resolveUtf16Caret session.source [top]
    (renderedText original) (utf16Len (renderedText original)) = some (found, caret)
  cases (env.parse session.source).spans.resolveUtf16Caret session.source [top]
      (renderedText original) (utf16Len (renderedText original)) with
  | none =>
    constructor
    · intro wrong
      cases wrong
    · rintro ⟨caret, wrong⟩
      cases wrong
  | some place =>
    constructor
    · intro same
      exact ⟨place.2, congrArg some (Prod.ext (Except.ok.inj same) rfl)⟩
    · rintro ⟨caret, same⟩
      exact congrArg Except.ok (congrArg Prod.fst (Option.some.inj same))

theorem anchorBeforeUnchanged_iff
    (ok : env.resolveLinks (env.parse session.source).ast = .ok committed) :
    anchorBeforeUnchanged (reparsed env session committed) previous committed path = .ok found ↔
      ∃ focused rest top, path = focused :: rest ∧
        EndsAt (env.parse session.source) previous committed focused top found := by
  unfold anchorBeforeUnchanged
  cases path with
  | nil =>
    constructor
    · intro wrong
      cases wrong
    · rintro ⟨_, _, _, wrong, -⟩
      cases wrong
  | cons focused rest =>
    dsimp only
    constructor
    · intro anchored
      by_cases gone : previous.length ≤ focused
      · rw [if_pos gone] at anchored
        cases anchored
      · rw [if_neg gone] at anchored
        by_cases inside :
            unchangedFollowingTopLevelRegionCount previous committed focused < committed.length
        · rw [dif_pos inside] at anchored
          have bound : committed.length -
              (unchangedFollowingTopLevelRegionCount previous committed focused + 1) <
                committed.length := by omega
          have caret := (resolveBlockCaret_iff ok (List.getElem?_eq_getElem bound)).mp anchored
          have count := (@unchanged_eq_iff previous committed focused _ bound).mp (by omega)
          exact ⟨focused, rest, _, rfl, Nat.lt_of_not_le gone, count.1, count.2, caret.1,
            caret.2⟩
        · rw [dif_neg inside] at anchored
          cases anchored
    · rintro ⟨_, _, top, same, ends⟩
      cases same
      have inside := ends.inside
      have count := (unchanged_eq_iff inside).mpr ⟨ends.unchanged, ends.longest⟩
      have short : unchangedFollowingTopLevelRegionCount previous committed focused <
          committed.length := by omega
      rw [if_neg (Nat.not_le_of_lt ends.shown), dif_pos short]
      have place : top = committed.length -
          (unchangedFollowingTopLevelRegionCount previous committed focused + 1) := by omega
      have known := ends.known
      have last := ends.last
      subst place
      exact (resolveBlockCaret_iff ok (List.getElem?_eq_getElem inside)).mpr ⟨known, last⟩

/-- What Core reports at a path of the new map. -/
theorem getBlockSource_eq (editable : session.Editable) :
    getBlockSource env (reparsed env session committed) path =
      match ((env.parse session.source).spans.block path).bind
          fun block => slice? session.source block.source with
      | some source => .ok source
      | none => .error (noBlock path) := by
  have open_ : (reparsed env session committed).Editable := ⟨editable.conflicted, editable.closed⟩
  unfold getBlockSource
  rw [open_.refuseWhileConflicted]
  rfl

theorem rederiveContinuationPath_iff (editable : session.Editable)
    (ok : env.resolveLinks (env.parse session.source).ast = .ok committed) :
    rederiveContinuationPath env (reparsed env session committed) previous committed path text =
        .ok found ↔
      Kept session.source (env.parse session.source).spans committed path text ∧ found = path ∨
      ¬ Kept session.source (env.parse session.source).spans committed path text ∧
        (StandsLeaf committed path → ((env.parse session.source).spans.block path).isSome) ∧
        ∃ focused rest top, path = focused :: rest ∧
          EndsAt (env.parse session.source) previous committed focused top found := by
  unfold rederiveContinuationPath
  rw [← anchorBeforeUnchanged_iff ok, getBlockSource_eq editable]
  by_cases leaf : path ∈ leafPaths committed
  · have at_ := mem_leafPaths.mp leaf
    rw [if_pos leaf]
    cases known : (env.parse session.source).spans.block path with
    | none =>
      constructor
      · intro wrong
        cases wrong
      · rintro (⟨kept, -⟩ | ⟨-, readable, -⟩)
        · rcases kept.text with ⟨block, found', -⟩
          rw [known] at found'
          cases found'
        · cases readable at_
    | some block =>
      rcases Option.isSome_iff_exists.mp (env.parse_sliceable (mem_of_block known).1) with
        ⟨source, sliced⟩
      rw [Option.bind_some, sliced]
      dsimp only
      by_cases same : source = text
      · rw [if_pos same]
        have kept : Kept session.source (env.parse session.source).spans committed path text :=
          ⟨at_, block, known, same ▸ sliced⟩
        constructor
        · intro old
          exact Or.inl ⟨kept, (Except.ok.inj old).symm⟩
        · rintro (⟨-, old⟩ | ⟨other, -⟩)
          · rw [old]
          · exact absurd kept other
      · rw [if_neg same]
        have changed : ¬ Kept session.source (env.parse session.source).spans committed path text := by
          rintro ⟨-, block', known', sliced'⟩
          rw [known] at known'
          cases known'
          rw [sliced] at sliced'
          exact same (Option.some.inj sliced')
        constructor
        · intro anchored
          exact Or.inr ⟨changed, fun _ => rfl, anchored⟩
        · rintro (⟨kept, -⟩ | ⟨-, -, anchored⟩)
          · exact absurd kept changed
          · exact anchored
  · rw [if_neg leaf]
    have changed : ¬ Kept session.source (env.parse session.source).spans committed path text :=
      fun kept => leaf (mem_leafPaths.mpr kept.leaf)
    constructor
    · intro anchored
      exact Or.inr ⟨changed, fun at_ => absurd (mem_leafPaths.mpr at_) leaf, anchored⟩
    · rintro (⟨kept, -⟩ | ⟨-, -, anchored⟩)
      · exact absurd kept changed
      · exact anchored

theorem commitBlock_reparsed (editable : session.Editable)
    (ok : env.resolveLinks (env.parse session.source).ast = .ok committed) :
    commitBlock env session = (.ok (), reparsed env session committed) := by
  unfold commitBlock
  dsimp only
  rw [editable.refuseWhileConflicted, ok]
  rfl

theorem commitBlock_failed (editable : session.Editable) {error : AppError}
    (failed : env.resolveLinks (env.parse session.source).ast = .error error) :
    commitBlock env session = (.error error, session) := by
  unfold commitBlock
  dsimp only
  rw [editable.refuseWhileConflicted, failed]
  rfl

theorem continueAfterCommit_eq (editable : session.Editable)
    (ok : env.resolveLinks (env.parse session.source).ast = .ok committed) (note : List AstNode) :
    continueAfterCommit env session note path text =
      match rederiveContinuationPath env (reparsed env session committed) note committed path text
        with
      | .error failure => ⟨reparsed env session committed, true, false, .reported failure⟩
      | .ok found => ⟨reparsed env session committed, true, true, .phantom found⟩ := by
  unfold continueAfterCommit
  rw [commitBlock_reparsed editable ok]
  rfl

end Continuation

/-- Enter with a caret that only white space follows, in a field that was changed. -/
structure AtVisualEnd (focused : FocusedField) (path : BlockPath) (source : Text)
    (selection : TextSelection) : Prop where
  editable : focused.canCommit = true
  real : focused.isPhantom = false
  own : focused.path = path
  collapsed : selection.baseOffset = selection.extentOffset
  boundary : isValidUtf16SelectionBoundary (encode source) selection.baseOffset = true
  behind : ((encode source).drop selection.baseOffset).all isTrimmed = true
  changed : source ≠ focused.source

theorem AtVisualEnd.handled {env : Surroundings} {session : Session} {note : List AstNode}
    {focused : FocusedField} {path : BlockPath} {source : Text} {selection : TextSelection}
    (pressed : AtVisualEnd focused path source selection) :
    handleEnterRequested env session note focused path source selection =
      continueAfterCommit env session note path source := by
  rcases pressed with ⟨editable, real, own, collapsed, boundary, behind, changed⟩
  have extent := collapsed ▸ boundary
  have inside : min selection.baseOffset selection.extentOffset = selection.baseOffset := by
    rw [← collapsed, Nat.min_self]
  unfold handleEnterRequested
  dsimp only
  rw [editable, real, own, boundary, extent, inside, if_neg (by simp), if_neg (by simp),
    if_pos ⟨collapsed, behind⟩, if_pos changed]

/-- The bytes that a field takes up once it holds the text. -/
def fieldRange (session : Session) (path : BlockPath) (text : Text) : Range :=
  let start := ((session.spans.block path).map fun field => field.source.start).getD 0
  ⟨start, start + byteLen text⟩

/-- A keystroke that goes through puts the text there. -/
theorem fieldRange_holds {env : Surroundings} {session left : Session} {path : BlockPath}
    {text : Text} (accepted : updateBlock env session path text = (.ok (), left)) :
    slice? left.source (fieldRange session path text) = some text := by
  rcases updateBlock_ok accepted with ⟨-, source, spans, edited, installed⟩
  rcases bufferedEdit_ok.mp edited with ⟨field, found, -, spliced⟩
  rw [installed, fieldRange, found]
  exact Utf8.slice?_splice?_self spliced

/-- The Block that is continued is the last one that the text of the field lies in. After an error
the interface does not show an older tree than that of Core. -/
def Entered.ContinuesAfter (entered : Entered) (range : Range) : Prop :=
  match entered.outcome with
  | .phantom path => ∃ leaf, LastOverlapping entered.session.spans range leaf ∧ leaf.path = path
  | .reported _ => entered.committed = true → entered.adopted = true
  | .ignored | .splits => True

/-- Enter behind a changed field continues after its text exactly when the commit fails, or when the
text lies in a leaf of the new tree and the last such leaf is either the one at the old path, with
just that text, or the one that the unchanged end of the tree leaves. -/
theorem enter_continues_iff (note : List AstNode) {env : Surroundings} {session left : Session}
    {focused : FocusedField} {path : BlockPath} {text : Text} {selection : TextSelection}
    (accepted : updateBlock env session path text = (.ok (), left))
    (pressed : AtVisualEnd focused path text selection) :
    (handleEnterRequested env left note focused path text selection).ContinuesAfter
        (fieldRange session path text) ↔
      (∃ error, env.resolveLinks (env.parse left.source).ast = .error error) ∨
      ∃ committed leaf, env.resolveLinks (env.parse left.source).ast = .ok committed ∧
        LastOverlapping (env.parse left.source).spans (fieldRange session path text) leaf ∧
        (Kept left.source (env.parse left.source).spans committed path text ∧ leaf.path = path ∨
          ¬ Kept left.source (env.parse left.source).spans committed path text ∧
            (StandsLeaf committed path → ((env.parse left.source).spans.block path).isSome) ∧
            ∃ index rest top, path = index :: rest ∧
              EndsAt (env.parse left.source) note committed index top leaf.path) := by
  have editable : left.Editable := by
    rcases updateBlock_ok accepted with ⟨editable, source, spans, -, installed⟩
    rw [installed]
    exact ⟨editable.conflicted, editable.closed⟩
  rw [pressed.handled]
  cases links : env.resolveLinks (env.parse left.source).ast with
  | error error =>
    have failed : continueAfterCommit env left note path text =
        ⟨left, false, false, .reported (.core error)⟩ := by
      unfold continueAfterCommit
      rw [commitBlock_failed editable links]
    rw [failed]
    constructor
    · intro _
      exact Or.inl ⟨error, rfl⟩
    · intro _ committed
      cases committed
  | ok committed =>
    have anchored (leaf : BlockSpan) :=
      @rederiveContinuationPath_iff env left note committed path leaf.path text editable links
    rw [continueAfterCommit_eq editable links]
    constructor
    · intro continues
      refine Or.inr ⟨committed, ?_⟩
      cases rederived : rederiveContinuationPath env (reparsed env left committed) note committed
          path text with
      | error failure =>
        rw [rederived] at continues
        cases continues rfl
      | ok found =>
        rw [rederived] at continues
        rcases continues with ⟨leaf, last, same⟩
        exact ⟨leaf, rfl, last, (anchored leaf).mp (same ▸ rederived)⟩
    · rintro (⟨error, wrong⟩ | ⟨_, leaf, same, last, condition⟩)
      · cases wrong
      · cases same
        rw [(anchored leaf).mpr condition]
        exact ⟨leaf, last, rfl⟩

/-- A line of plain text as a paragraph. -/
def plainParagraph (content : Text) : AstNode := .paragraph [.text ⟨content, false, false, false, false⟩]

/-- The first of two paragraphs, edited so that it becomes two. -/
def splitSession : Session :=
  (updateBlock plainNote (plainSession "A\n\nB\n".toList) [0] "X\n\nY\n".toList).2

theorem enter_continues_split :
    (handleEnterRequested plainNote splitSession (plainSession "A\n\nB\n".toList).ast
      ⟨[0], "A\n".toList, true, false⟩ [0] "X\n\nY\n".toList ⟨4, 4⟩).ContinuesAfter ⟨0, 5⟩ := by
  have pressed : AtVisualEnd ⟨[0], "A\n".toList, true, false⟩ [0] "X\n\nY\n".toList ⟨4, 4⟩ := by
    constructor
    all_goals decide
  have range : fieldRange (plainSession "A\n\nB\n".toList) [0] "X\n\nY\n".toList = ⟨0, 5⟩ := by
    decide +kernel
  have accepted : updateBlock plainNote (plainSession "A\n\nB\n".toList) [0] "X\n\nY\n".toList =
      (.ok (), splitSession) := by
    have isOk : (updateBlock plainNote (plainSession "A\n\nB\n".toList) [0]
        "X\n\nY\n".toList).1.isOk = true := by decide +kernel
    refine Prod.ext ?_ rfl
    cases done : (updateBlock plainNote (plainSession "A\n\nB\n".toList) [0]
        "X\n\nY\n".toList).1 with
    | error error =>
      rw [done] at isOk
      cases isOk
    | ok _ => rfl
  have spans : (plainNote.parse splitSession.source).spans =
      ⟨[⟨[0], ⟨0, 2⟩, [⟨⟨0, 1⟩, ⟨0, 1⟩, true⟩], 1, []⟩,
        ⟨[1], ⟨3, 5⟩, [⟨⟨0, 1⟩, ⟨3, 4⟩, true⟩], 1, []⟩,
        ⟨[2], ⟨6, 8⟩, [⟨⟨0, 1⟩, ⟨6, 7⟩, true⟩], 1, []⟩], none⟩ := by decide +kernel
  have ast : (plainNote.parse splitSession.source).ast =
      [plainParagraph ['X'], plainParagraph ['Y'], plainParagraph ['B']] := by decide +kernel
  have note : (plainSession "A\n\nB\n".toList).ast =
      [plainParagraph ['A'], plainParagraph ['B']] := by decide +kernel
  have links : plainNote.resolveLinks (plainNote.parse splitSession.source).ast =
      .ok [plainParagraph ['X'], plainParagraph ['Y'], plainParagraph ['B']] := by
    rw [ast]
    rfl
  have continues := enter_continues_iff (plainSession "A\n\nB\n".toList).ast accepted pressed
  rw [range] at continues
  -- The condition speaks for what the handler leaves.
  generalize handleEnterRequested plainNote splitSession (plainSession "A\n\nB\n".toList).ast
    ⟨[0], "A\n".toList, true, false⟩ [0] "X\n\nY\n".toList ⟨4, 4⟩ = entered at continues ⊢
  refine continues.mpr (Or.inr ⟨_, ⟨[1], ⟨3, 5⟩, [⟨⟨0, 1⟩, ⟨3, 4⟩, true⟩], 1, []⟩, links, ?_,
    Or.inr ⟨?_, ?_, ?_⟩⟩)
  · rw [spans]
    constructor
    all_goals decide
  · rintro ⟨-, block, known, sliced⟩
    rw [spans] at known
    cases known
    have fragment : slice? splitSession.source ⟨0, 2⟩ = some "X\n".toList := by decide +kernel
    rw [fragment] at sliced
    exact absurd sliced (by decide)
  · intro _
    rw [spans]
    decide
  · refine ⟨0, [], 1, rfl, ?_⟩
    rw [note]
    constructor
    · decide
    · decide
    · decide
    · intro path
      rw [ast, spans]
      cases path with
      | nil => decide
      | cons k rest =>
        intro below
        cases rest with
        | nil => cases below
        | cons _ _ => cases below
    · rw [spans]
      constructor
      · refine ⟨⟨[1], ⟨3, 5⟩, [⟨⟨0, 1⟩, ⟨3, 4⟩, true⟩], 1, []⟩, ?_, rfl, rfl⟩
        decide
      · decide
      · decide

/-- The items of a list of one line each. -/
def dashedItems : Nat → List Text → Forest
  | _, [] => .nil
  | start, item :: rest =>
      let stop := start + byteLen item
      .node .item ⟨start, stop⟩
        (.leaf (.text (item.drop 2).dropLast) ⟨start + 2, stop - 1⟩ .nil) (dashedItems stop rest)

theorem nil_conforms : Forest.nil.conforms .flow = true := rfl

theorem nil_placed (source : Text) : Forest.nil.placed source 0 (byteLen source) = true :=
  rfl

/-- A Note that is one list, in a Workspace that answers. -/
def dashedNote : Surroundings :=
  { plainNote with
    stream := fun source =>
      let forest : Forest :=
        .node (.list none) ⟨0, byteLen source⟩ (dashedItems 0 (Lines.splitInclusive source)) .nil
      if plain : forest.conforms .flow = true ∧ forest.placed source 0 (byteLen source) = true then
        ⟨forest, plain.1, plain.2⟩
      else ⟨.nil, nil_conforms, nil_placed source⟩ }

/-- The list as it was opened. -/
def dashedSession (source : Text) : Session :=
  { plainSession source with
    spans := (dashedNote.parse source).spans
    ast := (dashedNote.parse source).ast }

/-- The field of the first item, edited so that there are two items, and Enter at the end of it. -/
def dashedEntered : Entered :=
  handleEnterRequested dashedNote
    (updateBlock dashedNote (dashedSession "- a\n- b\n".toList) [0, 0, 0] "a\n- c".toList).2
    (dashedSession "- a\n- b\n".toList).ast ⟨[0, 0, 0], "a".toList, true, false⟩ [0, 0, 0]
    "a\n- c".toList ⟨5, 5⟩

/-- The list is continued behind its third item, which the field does not lie in. -/
theorem enter_continues_behind_item : ¬ dashedEntered.ContinuesAfter ⟨2, 7⟩ := by
  have outcome : dashedEntered.outcome = .phantom [0, 2, 0] := by decide +kernel
  have apart : ∀ block ∈ dashedEntered.session.spans.blocks,
      overlapsLeaf ⟨2, 7⟩ block = true → block.path ≠ [0, 2, 0] := by decide +kernel
  unfold Entered.ContinuesAfter
  rw [outcome]
  rintro ⟨leaf, last, same⟩
  exact apart leaf last.mem last.overlaps same

end Burlmd.Interface
