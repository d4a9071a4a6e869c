import Burlmd.Editor.Addresses
import Burlmd.Editor.RangeExact

/-!
# Sessions between two parses

Between two parses a session changes by keystrokes alone, which move the ranges of its map.
-/

namespace Burlmd.Editor

open Checked
open Markdown
open Utf8

/-- A Workspace whose lease is held, whose index is read, and whose drafts are written. -/
structure Surroundings.Answers (env : Surroundings) : Prop where
  lease : env.editLease = .ok ()
  lookups : ∀ id, ∃ answer, env.noteExists id = .ok answer
  drafts : ∀ source edit_seq, env.writeDraft source edit_seq = .ok ()

variable {env : Surroundings} {session left : Session} {block_path : BlockPath}

theorem Surroundings.Answers.links (answers : env.Answers) (ast : List AstNode) :
    ∃ resolved, env.resolveLinks ast = .ok resolved :=
  Index.resolveLinkExistence_total answers.lookups ast

/-- Where the Workspace answers, an edit goes through if it can be made and its result derived. -/
theorem structuralEdit_iff {α β : Type} {edit : Edit α} {derive : Derivation α β}
    {finish : Text → α → β} (answers : env.Answers) (editable : session.Editable)
    (derives : ∀ source parsed change, derive source parsed change = .ok (finish source change))
    {new_source : Text} {result : β} :
    (∃ left, structuralEditWithResult env session edit derive = (.ok result, left) ∧
        left.source = new_source) ↔
      ∃ change, edit session.source (env.parse session.source) session.spans =
        .ok (new_source, change) ∧ finish new_source change = result := by
  constructor
  · intro done
    rcases done with ⟨left, done, isSource⟩
    rcases structuralEdit_ok (congrArg Prod.fst done) with
      ⟨-, -, new, change, ast, edited, -, derived, installed⟩
    have isLeft := (congrArg Prod.snd done).symm.trans (congrArg Prod.snd installed)
    have isNew : new = new_source := (congrArg Session.source isLeft).symm.trans isSource
    rw [isNew] at edited derived
    rw [derives] at derived
    exact ⟨change, edited, Except.ok.inj derived⟩
  · intro made
    rcases made with ⟨change, edited, finished⟩
    rcases answers.links (env.parse new_source).ast with ⟨ast, links⟩
    have derived := derives new_source ⟨ast, (env.parse new_source).spans⟩ change
    rw [finished] at derived
    exact ⟨_, structuralEdit_installed answers.lease editable edited links derived
      (answers.drafts _ _), rfl⟩

/-! ## Keystrokes -/

/-- A keystroke that goes through changes text and map, and nothing is parsed. -/
theorem updateBlock_ok {new_source : Text}
    (done : updateBlock env session block_path new_source = (.ok (), left)) :
    session.Editable ∧ ∃ source spans,
      bufferedEdit session block_path new_source = .ok (source, spans) ∧
      left = session.install source spans session.ast := by
  unfold updateBlock at done
  dsimp only [bind, Except.bind] at done
  cases lease : env.editLease with
  | error error =>
    rw [lease] at done
    cases (Prod.mk.inj done).1
  | ok held =>
    rw [lease] at done
    dsimp only at done
    cases refused : session.refuseWhileConflicted env "editing a Block".toList with
    | error error =>
      rw [refused] at done
      cases (Prod.mk.inj done).1
    | ok open_ =>
      rw [refused] at done
      dsimp only at done
      cases edited : bufferedEdit session block_path new_source with
      | error error =>
        rw [edited] at done
        cases (Prod.mk.inj done).1
      | ok edit =>
        rw [edited] at done
        dsimp only at done
        have drafted := (Session.drafted_eq_ok (congrArg Prod.fst done)).2
        rw [drafted] at done
        exact ⟨editable_of_not_refused refused, edit.1, edit.2, rfl,
          (Prod.mk.inj done).2.symm⟩

theorem updateBlock_of_bufferedEdit {new_source source : Text} {spans : SpanMap}
    (answers : env.Answers) (editable : session.Editable)
    (edited : bufferedEdit session block_path new_source = .ok (source, spans)) :
    updateBlock env session block_path new_source =
      (.ok (), session.install source spans session.ast) := by
  unfold updateBlock
  rw [answers.lease, editable.refuseWhileConflicted, edited]
  dsimp only [bind, Except.bind]
  unfold Session.drafted
  rw [answers.drafts]

/-- A session after keystrokes on the last parse. -/
inductive Session.Reached (env : Surroundings) : Session → Prop
  | parsed {session : Session} (fresh : session.Fresh env) : Session.Reached env session
  | updated {session left : Session} {asked : Surroundings} {block_path : BlockPath}
      {new_source : Text} (reached : Session.Reached env session)
      (done : updateBlock asked session block_path new_source = (.ok (), left)) :
      Session.Reached env left

theorem Session.Reached.editable (reached : session.Reached env) : session.Editable := by
  induction reached with
  | parsed fresh => exact fresh.toEditable
  | updated _ done ih =>
    rcases updateBlock_ok done with ⟨-, source, spans, -, installed⟩
    rw [installed]
    exact ⟨ih.conflicted, ih.closed⟩

/-! ## The map -/

theorem byPath_congr {blocks blocks' : List BlockSpan}
    (same : blocks.map BlockSpan.path = blocks'.map BlockSpan.path) (path : BlockPath) :
    byPath blocks path = byPath blocks' path := by
  induction blocks generalizing blocks' with
  | nil =>
    rw [List.map_nil, eq_comm, List.map_eq_nil_iff] at same
    rw [same]
  | cons block rest ih =>
    cases blocks' with
    | nil => cases same
    | cons block' rest' =>
      rw [List.map_cons, List.map_cons] at same
      rcases List.cons.inj same with ⟨isPath, isRest⟩
      unfold byPath
      rw [ih isRest, isPath]

theorem rebase_path (path : BlockPath) (index : Nat) (old : Range) (new_len position : Nat)
    (block : BlockSpan) :
    (SpanMap.rebase path index old new_len position block).path = block.path := by
  unfold SpanMap.rebase
  split_ifs
  all_goals rfl

theorem rebase_isLeaf (path : BlockPath) (index : Nat) (old : Range) (new_len position : Nat)
    (block : BlockSpan) :
    (SpanMap.rebase path index old new_len position block).isLeaf = block.isLeaf := by
  unfold SpanMap.rebase
  split_ifs
  all_goals rfl

theorem map_path_rebase (path : BlockPath) (index : Nat) (old : Range) (new_len : Nat)
    (blocks : List BlockSpan) :
    (blocks.mapIdx (SpanMap.rebase path index old new_len)).map BlockSpan.path =
      blocks.map BlockSpan.path := by
  apply List.ext_getElem?
  intro position
  rw [List.getElem?_map, List.getElem?_map, List.getElem?_mapIdx]
  cases blocks[position]? with
  | none => rfl
  | some block => exact congrArg some (rebase_path path index old new_len position block)

/-- An edit of a leaf keeps it where it starts, at its new length. -/
theorem applyBufferedEdit_leaf {spans : SpanMap} {leaf : BlockSpan}
    (found : spans.block block_path = some leaf) (isLeaf : leaf.isLeaf = true)
    (ordered : leaf.source.start ≤ leaf.source.stop) (new_len : Nat) :
    ∃ after edited, spans.applyBufferedEdit block_path new_len = some (leaf.source, after) ∧
      after.block block_path = some edited ∧ edited.isLeaf = true ∧
      edited.source = ⟨leaf.source.start, leaf.source.start + new_len⟩ := by
  unfold SpanMap.block at found
  rcases Option.bind_eq_some_iff.mp found with ⟨index, isIndex, at_⟩
  unfold SpanMap.applyBufferedEdit
  rw [isIndex]
  dsimp only
  rw [at_]
  dsimp only
  rw [isLeaf, Bool.not_true, if_neg Bool.false_ne_true]
  by_cases same : new_len = leaf.source.stop - leaf.source.start
  · rw [if_pos same]
    refine ⟨spans, leaf, rfl, ?_, isLeaf, ?_⟩
    · unfold SpanMap.block
      rw [isIndex]
      exact at_
    · rw [same, Nat.add_sub_cancel' ordered]
  · rw [if_neg same]
    refine ⟨_, SpanMap.rebase block_path index leaf.source new_len index leaf, rfl, ?_, ?_,
      ?_⟩
    · unfold SpanMap.block
      dsimp only
      rw [byPath_congr (map_path_rebase block_path index leaf.source new_len spans.blocks), isIndex,
        Option.bind_some, List.getElem?_mapIdx, at_]
      rfl
    · rw [rebase_isLeaf]
      exact isLeaf
    · unfold SpanMap.rebase SpanMap.shift
      rw [if_pos rfl]
      dsimp only
      congr 1
      omega

/-- A keystroke changes the text and the map at a leaf. -/
theorem bufferedEdit_ok {new_source source : Text} {spans : SpanMap} :
    bufferedEdit session block_path new_source = .ok (source, spans) ↔
      ∃ leaf, session.spans.block block_path = some leaf ∧
        (session.spans.applyBufferedEdit block_path (byteLen new_source)).map Prod.snd =
          some spans ∧
        splice? session.source leaf.source new_source = some source := by
  unfold bufferedEdit
  cases found : session.spans.block block_path with
  | none =>
    constructor
    · intro wrong
      cases wrong
    · intro wrong
      rcases wrong with ⟨leaf, wrong, -⟩
      cases wrong
  | some leaf =>
    dsimp only [bind, Except.bind]
    unfold checkSpan
    cases edited : session.spans.applyBufferedEdit block_path (byteLen new_source) with
    | none =>
      constructor
      · intro wrong
        split at wrong
        · cases wrong
        · cases wrong
      · intro wrong
        rcases wrong with ⟨leaf, -, wrong, -⟩
        cases wrong
    | some edit =>
      cases spliced : splice? session.source leaf.source new_source with
      | none =>
        constructor
        · intro wrong
          split at wrong
          · cases wrong
          · cases wrong
        · intro wrong
          rcases wrong with ⟨leaf', same, -, wrong⟩
          rw [← Option.some.inj same, spliced] at wrong
          cases wrong
      | some source' =>
        have sliced : (slice? session.source leaf.source).isSome := by
          apply splice?_isSome_iff.mp
          rw [spliced]
          rfl
        rw [if_pos sliced]
        constructor
        · intro done
          rcases Prod.mk.inj (Except.ok.inj done) with ⟨isSource, isSpans⟩
          refine ⟨leaf, rfl, congrArg some isSpans, ?_⟩
          rw [spliced, isSource]
        · intro done
          rcases done with ⟨leaf', same, isSpans, isSource⟩
          rw [← Option.some.inj same, spliced] at isSource
          have isSpans := Option.some.inj isSpans
          rw [← isSpans, ← Option.some.inj isSource]

/-- What holds of the maps of all sessions: paths name one Block, no Block is below a leaf, and
leaves do not end before they start. -/
structure Orderly (spans : SpanMap) : Prop where
  distinct : (spans.blocks.map BlockSpan.path).Nodup
  bare : ∀ leaf ∈ spans.blocks, leaf.isLeaf = true → ∀ other ∈ spans.blocks,
    leaf.path <+: other.path → other.path = leaf.path
  forward : ∀ leaf ∈ spans.blocks, leaf.isLeaf = true → leaf.source.start ≤ leaf.source.stop

theorem Surroundings.orderly (env : Surroundings) (source : Text) :
    Orderly (env.parse source).spans where
  distinct := parseNote_distinct _ _
  bare _ mem isLeaf _ mem' above := parseNote_leaf_prefix _ _ mem isLeaf mem' above
  forward _ mem _ := (slice?_isSome_iff.mp (env.parse_sliceable mem)).1

theorem Orderly.applyBufferedEdit {spans after : SpanMap} {old : Range} {new_len : Nat}
    (orderly : Orderly spans)
    (edited : spans.applyBufferedEdit block_path new_len = some (old, after)) : Orderly after := by
  unfold SpanMap.applyBufferedEdit at edited
  cases isIndex : byPath spans.blocks block_path with
  | none =>
    rw [isIndex] at edited
    cases edited
  | some index =>
    rcases byPath_spec isIndex with ⟨leaf, at_, isPath⟩
    rw [isIndex] at edited
    dsimp only at edited
    rw [at_] at edited
    dsimp only at edited
    cases isLeaf : leaf.isLeaf with
    | false =>
      rw [isLeaf] at edited
      cases edited
    | true =>
      rw [isLeaf, Bool.not_true, if_neg Bool.false_ne_true] at edited
      by_cases same : new_len = leaf.source.stop - leaf.source.start
      · rw [if_pos same] at edited
        rw [← (Prod.mk.inj (Option.some.inj edited)).2]
        exact orderly
      · rw [if_neg same] at edited
        rw [← (Prod.mk.inj (Option.some.inj edited)).2]
        have mem := List.mem_of_getElem? at_
        have moved : ∀ block ∈ spans.blocks.mapIdx
            (SpanMap.rebase block_path index leaf.source new_len),
            ∃ position before, spans.blocks[position]? = some before ∧
              block = SpanMap.rebase block_path index leaf.source new_len position before := by
          intro block mem'
          rcases List.getElem?_of_mem mem' with ⟨position, at_'⟩
          rw [List.getElem?_mapIdx, Option.map_eq_some_iff] at at_'
          rcases at_' with ⟨before, at_', isBlock⟩
          exact ⟨position, before, at_', isBlock.symm⟩
        constructor
        · rw [map_path_rebase]
          exact orderly.distinct
        · intro block mem' isLeaf' other mem'' above
          rcases moved block mem' with ⟨position, before, at_', isBlock⟩
          rcases moved other mem'' with ⟨position', before', at_'', isOther⟩
          rw [isBlock, rebase_isLeaf] at isLeaf'
          rw [isBlock, isOther, rebase_path, rebase_path] at above
          rw [isBlock, isOther, rebase_path, rebase_path]
          exact orderly.bare before (List.mem_of_getElem? at_') isLeaf' before'
            (List.mem_of_getElem? at_'') above
        · intro block mem' isLeaf'
          rcases moved block mem' with ⟨position, before, at_', isBlock⟩
          rw [isBlock, rebase_isLeaf] at isLeaf'
          have forward := orderly.forward before (List.mem_of_getElem? at_') isLeaf'
          have forwardLeaf := orderly.forward leaf mem isLeaf
          rw [isBlock]
          unfold SpanMap.rebase SpanMap.shiftRange SpanMap.shift
          by_cases own : position = index
          · rw [if_pos own]
            rw [own, at_] at at_'
            rw [← Option.some.inj at_']
            dsimp only
            omega
          · rw [if_neg own]
            by_cases behind : leaf.source.stop ≤ before.source.start
            · rw [if_pos behind]
              dsimp only
              omega
            · rw [if_neg behind]
              by_cases above : before.path.isPrefixOf block_path = true
              · -- A leaf above the edited one is the edited one.
                rw [List.isPrefixOf_iff_prefix, ← isPath] at above
                have samePath := orderly.bare before (List.mem_of_getElem? at_') isLeaf' leaf mem
                  above
                have named := (byPath_eq_some_iff orderly.distinct).mpr
                  ⟨before, at_', samePath.symm.trans isPath⟩
                rw [isIndex] at named
                exact absurd (Option.some.inj named).symm own
              · rw [if_neg above]
                exact forward

theorem Session.Reached.orderly (reached : session.Reached env) : Orderly session.spans := by
  induction reached with
  | parsed fresh =>
    rw [fresh.spans_eq]
    exact env.orderly _
  | updated _ done ih =>
    rcases updateBlock_ok done with ⟨-, source, spans, edited, installed⟩
    rcases bufferedEdit_ok.mp edited with ⟨leaf, -, isSpans, -⟩
    rcases Option.map_eq_some_iff.mp isSpans with ⟨⟨old, after⟩, edited, isAfter⟩
    have isAfter : after = spans := isAfter
    rw [installed]
    rw [isAfter] at edited
    exact ih.applyBufferedEdit edited

end Burlmd.Editor
