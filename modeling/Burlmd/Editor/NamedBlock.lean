import Burlmd.Editor.EditedBytes
import Burlmd.Editor.SelectionSplit

/-!
# The Block that a path names

A caller names Blocks by the paths of a map that keystrokes have moved but not renumbered, and a
structural edit looks the path up in a parse of the text as it is.
-/

namespace Burlmd.Editor

open Checked
open Markdown
open Utf8

/-- A path resolves to a Block inside a region, and the Block is changed. -/
def LandsIn (live_spans : SpanMap) (region : Range) (resolved : Except AppError BlockPath)
    (changed : BlockSpan → Prop) : Prop :=
  ∃ live_path block, resolved = .ok live_path ∧ live_spans.block live_path = some block ∧
    region.Contains block.source ∧ changed block

/-- A call that goes through does to the text what it promises, and one that does not changes
nothing. -/
def Session.Keeps {α : Type} (session : Session) (call : Except AppError α × Session)
    (promise : Text → Prop) : Prop :=
  match call.1 with
  | .ok _ => promise call.2.source
  | .error _ => call.2 = session

/-- Every structural edit of a path changes the text at the Block inside the region that the
caller's map has for it. A deletion removes the Block; a split puts line endings in it; an insertion
goes to the start of the region; a continuation goes behind the Block, or behind the top-level Block
around it; a merge takes what stands in front of the Block. A Note that shows no Block is continued
behind all that it holds. -/
structure Session.ActsOnNamed (env : Surroundings) (session : Session) (block_path : BlockPath)
    (region : Range) : Prop where
  delete : session.Keeps (deleteBlock env session block_path) fun left =>
    LandsIn (env.parse session.source).spans region
      (livePath (env.parse session.source).spans session.spans block_path)
      fun block => Removes session.source left block.source
  split : ∀ offset, session.Keeps (splitBlock env session block_path offset) fun left =>
    LandsIn (env.parse session.source).spans region
      (editableLivePath (env.parse session.source).spans session.spans block_path)
      fun block => Splits session.source left block.source
  splitFromEditor : ∀ editor_source offset,
    session.Keeps (splitBlockFromEditorSource env session block_path editor_source offset)
      fun left => LandsIn (env.parse session.source).spans region
        (editableLivePath (env.parse session.source).spans session.spans block_path)
        fun block => Splits session.source left block.source
  insert : ∀ source, session.Keeps (insertBlock env session block_path source) fun left =>
    insertionOffset session.source (env.parse session.source).spans block_path = region.start ∧
      ∃ lead trail, LineEndings lead ∧ LineEndings trail ∧
        Inserts session.source left region.start (lead ++ source ++ trail)
  continueAfter : ∀ source, session.Keeps (continueBlockAfter env session block_path source)
    fun left =>
      ((env.parse session.source).spans.blocks = [] ∧ block_path = [0] ∧
        ∃ lead trail, LineEndings lead ∧ LineEndings trail ∧
          Inserts session.source left (byteLen session.source) (lead ++ source ++ trail)) ∨
      LandsIn (env.parse session.source).spans region
        (editableLivePath (env.parse session.source).spans session.spans block_path)
        fun leaf => GoesOn (env.parse session.source).spans session.source left source leaf
  merge : session.Keeps (mergeBlockWithPrevious env session block_path) fun left =>
    LandsIn (env.parse session.source).spans region
      (editableLivePath (env.parse session.source).spans session.spans block_path)
      fun block => Joins session.source left block.source.start

/-- The Block that the text has at the path lies in the region and starts it; where the text has
none there, the region starts at its end. -/
def Session.Stands (env : Surroundings) (session : Session) (block_path : BlockPath)
    (region : Range) : Prop :=
  match (env.parse session.source).spans.block block_path with
  | some block => region.Contains block.source ∧ block.source.start = region.start
  | none => region.start = byteLen session.source

variable {env : Surroundings} {session : Session} {block_path : BlockPath} {region : Range}

/-! ## Deletions and insertions go through -/

theorem insertionOffset_boundary (env : Surroundings) (source : Text) (block_path : BlockPath) :
    IsBoundary source (insertionOffset source (env.parse source).spans block_path) := by
  unfold insertionOffset
  cases found : (env.parse source).spans.block block_path with
  | none =>
    exact isBoundary_iff.mpr ⟨source, [], (List.append_nil _).symm, rfl⟩
  | some block =>
    exact (slice?_isSome_iff.mp (env.parse_sliceable (mem_of_block found).1)).2.1

/-- An edit that can be made of a text goes through, where it returns nothing. -/
theorem structuralEdit_done (answers : env.Answers) (editable : session.Editable)
    {edit : Edit Unit} {new_source : Text}
    (made : edit session.source (env.parse session.source) session.spans = .ok (new_source, ())) :
    ∃ left, structuralEdit env session edit = (.ok (), left) := by
  have derives : ∀ (source : Text) (parsed : ParsedNote) (change : Unit),
      (fun _ _ result => .ok result : Derivation Unit Unit) source parsed change = .ok change :=
    fun _ _ _ => rfl
  rcases (structuralEdit_iff answers editable derives).mpr ⟨(), made, rfl⟩ with
    ⟨left, done, -⟩
  exact ⟨left, done⟩

/-! ## What the edits need -/

theorem Session.Keeps.promise {α : Type} {result : α} {left : Session} {promise : Text → Prop}
    {call : Except AppError α × Session} (keeps : session.Keeps call promise)
    (done : call = (.ok result, left)) : promise left.source := by
  unfold Session.Keeps at keeps
  rw [done] at keeps
  exact keeps

/-- What a deletion and an insertion need. -/
theorem Session.ActsOnNamed.stands (answers : env.Answers) (editable : session.Editable)
    (acts : session.ActsOnNamed env block_path region) : session.Stands env block_path region := by
  have offset : insertionOffset session.source (env.parse session.source).spans block_path =
      region.start := by
    rcases inserting_inserts [] session.spans
      (insertionOffset_boundary env session.source block_path) with ⟨_, _, _, made, -⟩
    rcases structuralEdit_done answers editable made with ⟨left, done⟩
    exact ((acts.insert []).promise done).1
  unfold insertionOffset at offset
  unfold Session.Stands
  cases found : (env.parse session.source).spans.block block_path with
  | none =>
    rw [found] at offset
    exact offset.symm
  | some block =>
    rw [found] at offset
    refine ⟨?_, offset⟩
    have isLive : livePath (env.parse session.source).spans session.spans block_path =
        .ok block_path := by
      unfold livePath
      rw [found]
      exact congrArg Except.ok (mem_of_block found).2
    have made : ∃ result, deleting block_path session.source (env.parse session.source)
        session.spans = .ok result := by
      rcases deleteSpan_removes (env.parse_sliceable (mem_of_block found).1) with
        ⟨new_source, deleted, -⟩
      refine ⟨(new_source, ()), ?_⟩
      unfold deleting
      rw [isLive]
      dsimp only [bind, Except.bind]
      rw [blockSpan_eq_ok.mpr ⟨block, found, rfl⟩]
      exact deleted
    rcases made with ⟨⟨new_source, _⟩, made⟩
    rcases structuralEdit_done answers editable made with ⟨left, done⟩
    rcases acts.delete.promise done with ⟨live_path, block', resolved, found', within, -⟩
    rw [isLive] at resolved
    rw [← Except.ok.inj resolved, found] at found'
    rw [Option.some.inj found']
    exact within

/-- A Block that stands is what its path resolves to. -/
theorem Session.Stands.lands {named : BlockSpan} {live_path : BlockPath}
    (stands : session.Stands env block_path named.source)
    (known : session.spans.block block_path = some named)
    (resolved : livePath (env.parse session.source).spans session.spans block_path =
        .ok live_path ∨
      editableLivePath (env.parse session.source).spans session.spans block_path =
        .ok live_path) :
    ∃ block, (env.parse session.source).spans.block live_path = some block ∧
      named.source.Contains block.source := by
  have direct {block : BlockSpan}
      (found : (env.parse session.source).spans.block block_path = some block)
      (isPath : block.path = live_path) :
      ∃ block, (env.parse session.source).spans.block live_path = some block ∧
        named.source.Contains block.source := by
    refine ⟨block, ?_, ?_⟩
    · rw [← isPath, (mem_of_block found).2]
      exact found
    · unfold Session.Stands at stands
      rw [found] at stands
      exact stands.1
  have fallback (within : leafInRegion (env.parse session.source).spans session.spans block_path =
      .ok live_path) :
      ∃ block, (env.parse session.source).spans.block live_path = some block ∧
        named.source.Contains block.source := by
    rcases leafInRegion_ok within with ⟨retained, block, found, -, mem, -, isPath, inside⟩
    rw [known] at found
    rw [Option.some.inj found]
    refine ⟨block, ?_, inside⟩
    rw [← isPath]
    exact env.block_of_mem mem
  rcases resolved with any | editable
  · rcases livePath_ok any with ⟨block, found, isPath⟩ | within
    · exact direct found isPath
    · exact fallback within
  · rcases editableLivePath_ok editable with ⟨block, found, -, isPath⟩ | within
    · exact direct found isPath
    · exact fallback within

/-- An edit keeps a promise that follows from its going through. -/
theorem Session.keeps_of_made {α β : Type} {edit : Edit α} {derive : Derivation α β}
    {promise : Text → Prop}
    (promised : ∀ new_source change, edit session.source (env.parse session.source) session.spans =
      .ok (new_source, change) → promise new_source) :
    session.Keeps (structuralEditWithResult env session edit derive) promise := by
  unfold Session.Keeps
  cases answer : (structuralEditWithResult env session edit derive).1 with
  | error error => exact structuralEditWithResult_error answer
  | ok result =>
    rcases structuralEdit_ok answer with ⟨-, -, new_source, change, ast, made, -, -, installed⟩
    rw [installed]
    exact promised new_source change made

/-- All that the edits need. -/
theorem Session.Stands.actsOnNamed {named : BlockSpan}
    (stands : session.Stands env block_path named.source)
    (known : session.spans.block block_path = some named) :
    session.ActsOnNamed env block_path named.source := by
  have inside {live_path : BlockPath} {block : BlockSpan}
      (resolved : livePath (env.parse session.source).spans session.spans block_path = .ok live_path ∨
        editableLivePath (env.parse session.source).spans session.spans block_path = .ok live_path)
      (found : (env.parse session.source).spans.block live_path = some block) :
      named.source.Contains block.source := by
    rcases stands.lands known resolved with ⟨other, found', within⟩
    rw [found] at found'
    rw [Option.some.inj found']
    exact within
  have editable {changed : BlockSpan → Prop}
      (made : ∃ live_path block,
        editableLivePath (env.parse session.source).spans session.spans block_path = .ok live_path ∧
        (env.parse session.source).spans.block live_path = some block ∧ changed block) :
      LandsIn (env.parse session.source).spans named.source
        (editableLivePath (env.parse session.source).spans session.spans block_path) changed := by
    rcases made with ⟨live_path, block, resolved, found, change⟩
    exact ⟨live_path, block, resolved, found, inside (Or.inr resolved) found, change⟩
  constructor
  · apply Session.keeps_of_made
    intro new_source change made
    unfold deleting at made
    rcases bind_eq_ok.mp made with ⟨live_path, resolved, made⟩
    rcases bind_eq_ok.mp made with ⟨span, isSpan, made⟩
    rcases blockSpan_eq_ok.mp isSpan with ⟨block, found, sameSpan⟩
    rcases deleteSpan_removes (env.parse_sliceable (mem_of_block found).1) with
      ⟨deleted, isDeleted, removed⟩
    rw [sameSpan, made] at isDeleted
    rw [← (Prod.mk.inj (Except.ok.inj isDeleted)).1] at removed
    exact ⟨live_path, block, resolved, found, inside (Or.inl resolved) found, removed⟩
  · intro offset
    apply Session.keeps_of_made
    intro new_source change made
    exact editable (splitting_splits made)
  · intro editor_source offset
    apply Session.keeps_of_made
    intro new_source change made
    exact editable (splittingFromEditor_splits made)
  · intro source
    apply Session.keeps_of_made
    intro new_source change made
    have offset : insertionOffset session.source (env.parse session.source).spans block_path =
        named.source.start := by
      unfold Session.Stands at stands
      unfold insertionOffset
      cases found : (env.parse session.source).spans.block block_path with
      | none =>
        rw [found] at stands
        exact stands.symm
      | some block =>
        rw [found] at stands
        exact stands.2
    rcases inserting_inserts source session.spans
      (insertionOffset_boundary env session.source block_path) with
      ⟨inserted, lead, trail, isInserted, leads, trails, inserts⟩
    rw [made] at isInserted
    rw [← (Prod.mk.inj (Except.ok.inj isInserted)).1, offset] at inserts
    exact ⟨offset, lead, trail, leads, trails, inserts⟩
  · intro source
    apply Session.keeps_of_made
    intro new_source change made
    rcases continuing_goesOn made with blank | resolved
    · exact Or.inl blank
    · exact Or.inr (editable resolved)
  · apply Session.keeps_of_made
    intro new_source change made
    exact editable (merging_joins (fun block mem => env.parse_sliceable mem) made)

/-- The region of the Block of the last keystroke holds what was typed. -/
theorem slice?_typed {asked : Surroundings} {earlier : Session} {new_source : Text}
    {named : BlockSpan} (reached : earlier.Reached env)
    (done : updateBlock asked earlier block_path new_source = (.ok (), session))
    (known : session.spans.block block_path = some named) :
    slice? session.source named.source = some new_source := by
  rcases updateBlock_ok done with ⟨-, source, spans, edited, installed⟩
  rcases bufferedEdit_ok.mp edited with ⟨leaf, found, isSpans, spliced⟩
  rcases Option.map_eq_some_iff.mp isSpans with ⟨⟨old, after⟩, applied, isAfter⟩
  have isLeaf : leaf.isLeaf = true := by
    unfold SpanMap.block at found
    rcases Option.bind_eq_some_iff.mp found with ⟨index, isIndex, at_⟩
    unfold SpanMap.applyBufferedEdit at applied
    rw [isIndex] at applied
    dsimp only at applied
    rw [at_] at applied
    by_contra container
    rw [Bool.not_eq_true] at container
    dsimp only at applied
    rw [container] at applied
    cases applied
  have forward := reached.orderly.forward leaf (mem_of_block found).1 isLeaf
  rcases applyBufferedEdit_leaf found isLeaf forward (byteLen new_source) with
    ⟨after', changed, applied', there, -, range⟩
  rw [applied] at applied'
  have same : spans = after' := isAfter.symm.trans (Prod.mk.inj (Option.some.inj applied')).2
  rw [installed] at known ⊢
  have isNamed : named = changed := by
    apply Option.some.inj
    rw [← known, ← there, ← same]
    rfl
  rcases splice?_eq_some_iff.mp spliced with ⟨before, part, rest, -, start, -, isSource⟩
  apply slice?_eq_some_iff.mpr
  refine ⟨before, rest, isSource, ?_, ?_⟩
  · rw [isNamed, range]
    exact start
  · rw [isNamed, range, start]

/-- Structural edits act on the Block that the caller named exactly where the keystrokes since the
last parse have left it at its path. The region that is theirs holds what was typed last. -/
theorem actsOnNamed_iff (answers : env.Answers) (reached : session.Reached env)
    {named : BlockSpan} (known : session.spans.block block_path = some named) :
    (session.ActsOnNamed env block_path named.source ↔
      session.Stands env block_path named.source) ∧
    ∀ asked earlier new_source, Session.Reached env earlier →
      updateBlock asked earlier block_path new_source = (.ok (), session) →
      slice? session.source named.source = some new_source := by
  refine ⟨⟨fun acts => acts.stands answers reached.editable, fun stands => stands.actsOnNamed known⟩,
    ?_⟩
  intro asked earlier new_source reached_ done
  exact slice?_typed reached_ done known

/-- Two paragraphs, the first of them typed in: both are acted on, the second where it has moved. -/
theorem actsOnNamed_typed :
    ∃ left : Session, left.Reached plainNote ∧ left.source = "AX\n\nB\n".toList ∧
      left.ActsOnNamed plainNote [0] ⟨0, 3⟩ ∧ slice? left.source ⟨0, 3⟩ = some "AX\n".toList ∧
      left.ActsOnNamed plainNote [1] ⟨4, 6⟩ := by
  have accepted : (updateBlock plainNote (plainSession "A\n\nB\n".toList) [0]
      "AX\n".toList).1.isOk = true := by decide +kernel
  have text : (updateBlock plainNote (plainSession "A\n\nB\n".toList) [0]
      "AX\n".toList).2.source = "AX\n\nB\n".toList := by decide +kernel
  have first : (updateBlock plainNote (plainSession "A\n\nB\n".toList) [0]
      "AX\n".toList).2.spans.block [0] =
        some ⟨[0], ⟨0, 3⟩, [⟨⟨0, 1⟩, ⟨0, 1⟩, true⟩], 1, []⟩ := by decide +kernel
  have second : (updateBlock plainNote (plainSession "A\n\nB\n".toList) [0]
      "AX\n".toList).2.spans.block [1] =
        some ⟨[1], ⟨4, 6⟩, [⟨⟨0, 1⟩, ⟨4, 5⟩, true⟩], 1, []⟩ := by decide +kernel
  have live : (plainNote.parse "AX\n\nB\n".toList).spans.block [0] =
      some ⟨[0], ⟨0, 3⟩, [⟨⟨0, 2⟩, ⟨0, 2⟩, true⟩], 2, []⟩ ∧
    (plainNote.parse "AX\n\nB\n".toList).spans.block [1] =
      some ⟨[1], ⟨4, 6⟩, [⟨⟨0, 1⟩, ⟨4, 5⟩, true⟩], 1, []⟩ := by decide +kernel
  generalize typed : updateBlock plainNote (plainSession "A\n\nB\n".toList) [0]
    "AX\n".toList = answer at accepted text first second
  rcases answer with ⟨answer, left⟩
  cases answer with
  | error error => cases accepted
  | ok _ =>
    have fresh : (plainSession "A\n\nB\n".toList).Reached plainNote := .parsed (plainSession_fresh _)
    have reached : left.Reached plainNote := .updated fresh typed
    dsimp only at text
    refine ⟨left, reached, text, ?_, ?_, ?_⟩
    · apply (actsOnNamed_iff plainNote_answers reached first).1.mpr
      unfold Session.Stands
      rw [text, live.1]
      exact ⟨⟨Nat.le_refl _, Nat.le_refl _⟩, rfl⟩
    · exact (actsOnNamed_iff plainNote_answers reached first).2 _ _ _ fresh typed
    · apply (actsOnNamed_iff plainNote_answers reached second).1.mpr
      unfold Session.Stands
      rw [text, live.2]
      exact ⟨⟨Nat.le_refl _, Nat.le_refl _⟩, rfl⟩

/-- A paragraph that a keystroke has made two of gives the path of the next one to its second
half. -/
theorem actsOnNamed_renumbered :
    ∃ (left : Session) (named : BlockSpan), left.Reached plainNote ∧ left.spans.block [1] = some named ∧
      ¬ left.ActsOnNamed plainNote [1] named.source := by
  have accepted : (updateBlock plainNote (plainSession "A\n\nB\n".toList) [0]
      "X\n\nY\n".toList).1.isOk = true := by decide +kernel
  have known : (updateBlock plainNote (plainSession "A\n\nB\n".toList) [0]
      "X\n\nY\n".toList).2.spans.block [1] =
        some ⟨[1], ⟨6, 8⟩, [⟨⟨0, 1⟩, ⟨6, 7⟩, true⟩], 1, []⟩ := by decide +kernel
  have live : (plainNote.parse (updateBlock plainNote (plainSession "A\n\nB\n".toList) [0]
      "X\n\nY\n".toList).2.source).spans.block [1] =
        some ⟨[1], ⟨3, 5⟩, [⟨⟨0, 1⟩, ⟨3, 4⟩, true⟩], 1, []⟩ := by decide +kernel
  generalize typed : updateBlock plainNote (plainSession "A\n\nB\n".toList) [0]
    "X\n\nY\n".toList = answer at accepted known live
  rcases answer with ⟨answer, left⟩
  cases answer with
  | error error => cases accepted
  | ok _ =>
    have reached : left.Reached plainNote := .updated (.parsed (plainSession_fresh _)) typed
    refine ⟨left, _, reached, known, ?_⟩
    intro acts
    have stands := acts.stands plainNote_answers reached.editable
    unfold Session.Stands at stands
    rw [live] at stands
    exact absurd stands.2 (by decide)

end Burlmd.Editor
