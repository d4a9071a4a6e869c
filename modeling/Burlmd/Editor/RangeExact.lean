import Burlmd.Editor.RangeEdits
import Burlmd.Library.Lines
import Burlmd.Markdown.SpanEnds

/-!
# Range edits agree with copying

On a session whose map is that of its text, a range edit replaces what a copy reads. The caret that
it returns is in the parse of the new text, at the join or as near to it as a leaf is.
-/

namespace Burlmd.Editor

open Extremum
open Markdown
open Utf16
open Utf8

variable {env : Surroundings} {session : Session}

theorem Surroundings.parse_sliceable (env : Surroundings) {source : Text} {block : BlockSpan}
    (mem : block ∈ (env.parse source).spans.blocks) : (slice? source block.source).isSome :=
  parseNote_sliceable _ _ mem

/-! ## The caret -/

/-- A leaf around the join, or the next one where none is, or the last one where none follows. -/
inductive JoinLeaf (spans : SpanMap) (join : Nat) (leaf : BlockSpan) : Prop where
  | around (low : leaf.source.start ≤ join) (high : join ≤ leaf.source.stop)
  | next
      (alone : ∀ other ∈ spans.blocks, other.isLeaf →
        ¬ (other.source.start ≤ join ∧ join ≤ other.source.stop))
      (low : join ≤ leaf.source.start)
      (first : ∀ other ∈ spans.blocks, other.isLeaf → join ≤ other.source.start →
        leaf.source.start ≤ other.source.start)
  | last
      (behind : ∀ other ∈ spans.blocks, other.isLeaf → other.source.start < join)
      (high : leaf.source.stop ≤ join)
      (last : ∀ other ∈ spans.blocks, other.isLeaf → other.source.stop ≤ leaf.source.stop)

theorem mem_leaves {spans : SpanMap} {leaf : BlockSpan} {p : BlockSpan → Bool} :
    leaf ∈ (spans.blocks.filter BlockSpan.isLeaf).filter p ↔
      leaf ∈ spans.blocks ∧ leaf.isLeaf ∧ p leaf := by
  rw [List.mem_filter, List.mem_filter, and_assoc]

theorem no_leaves {spans : SpanMap} {p : BlockSpan → Bool}
    (isNil : (spans.blocks.filter BlockSpan.isLeaf).filter p = []) :
    ∀ other ∈ spans.blocks, other.isLeaf → ¬ p other := by
  intro other mem leaf holds
  have inNil := mem_leaves.mpr ⟨mem, leaf, holds⟩
  rw [isNil] at inNil
  cases inNil

theorem joinLeaf?_spec {spans : SpanMap} {join : Nat} {leaf : BlockSpan}
    (found : joinLeaf? spans join = some leaf) :
    leaf ∈ spans.blocks ∧ leaf.isLeaf ∧ JoinLeaf spans join leaf := by
  unfold joinLeaf? at found
  dsimp only at found
  rw [Option.or_assoc, Option.or_eq_some_iff] at found
  rcases found with around | ⟨notAround, found⟩
  · rcases mem_leaves.mp (lastMax?_spec around).1 with ⟨mem, isLeaf, holds⟩
    rcases of_decide_eq_true (Eq.trans (Bool.decide_and _ _) holds) with ⟨low, high⟩
    exact ⟨mem, isLeaf, .around low high⟩
  · have alone := no_leaves (lastMax?_eq_none_iff.mp notAround)
    rcases Option.or_eq_some_iff.mp found with next | ⟨notNext, last⟩
    · rcases firstMin?_spec next with ⟨mem, first⟩
      rcases mem_leaves.mp mem with ⟨mem, isLeaf, low⟩
      refine ⟨mem, isLeaf, .next ?_ (of_decide_eq_true low) ?_⟩
      · intro other mem' leaf' around
        exact alone other mem' leaf' (by simp [around.1, around.2])
      · intro other mem' leaf' low'
        exact first other (mem_leaves.mpr ⟨mem', leaf', decide_eq_true low'⟩)
    · have notNext := no_leaves (firstMin?_eq_none_iff.mp notNext)
      rcases lastMax?_spec last with ⟨mem, bound⟩
      rcases mem_leaves.mp mem with ⟨mem, isLeaf, high⟩
      have behind : ∀ other ∈ spans.blocks, other.isLeaf → other.source.start < join := by
        intro other mem' leaf'
        exact Nat.lt_of_not_le fun low => notNext other mem' leaf' (decide_eq_true low)
      refine ⟨mem, isLeaf, .last behind (of_decide_eq_true high) ?_⟩
      intro other mem' leaf'
      apply bound other (mem_leaves.mpr ⟨mem', leaf', decide_eq_true ?_⟩)
      apply Nat.le_of_lt (Nat.lt_of_not_le _)
      intro high'
      exact alone other mem' leaf' (by simp [(behind other mem' leaf').le, high'])

/-- There is a leaf for the caret unless there is no leaf. -/
theorem joinLeaf?_eq_none {spans : SpanMap} {join : Nat} (missing : joinLeaf? spans join = none) :
    ∀ leaf ∈ spans.blocks, ¬ leaf.isLeaf := by
  unfold joinLeaf? at missing
  dsimp only at missing
  rw [Option.or_eq_none_iff, Option.or_eq_none_iff] at missing
  rcases missing with ⟨⟨around, next⟩, last⟩
  have around := no_leaves (lastMax?_eq_none_iff.mp around)
  have next := no_leaves (firstMin?_eq_none_iff.mp next)
  have last := no_leaves (lastMax?_eq_none_iff.mp last)
  intro leaf mem isLeaf
  have around := around leaf mem isLeaf
  have next := next leaf mem isLeaf
  have last := last leaf mem isLeaf
  simp only [Bool.and_eq_true, decide_eq_true_eq] at around next last
  omega

/-- Where a caret belongs after a join: in a leaf at its offset, or outside every Block where there
is no leaf. -/
def RangeEditLocation.At (source : Text) (spans : SpanMap) (join : Nat) :
    RangeEditLocation → Prop
  | .block block_path source_offset_utf16 =>
      ∃ leaf ∈ spans.blocks, leaf.isLeaf ∧ JoinLeaf spans join leaf ∧ leaf.path = block_path ∧
        ∃ before, slice? source
            ⟨leaf.source.start, clamp join leaf.source.start leaf.source.stop⟩ = some before ∧
          utf16Len before = source_offset_utf16
  | .phantom insertion_index =>
      (∀ block ∈ spans.blocks, ¬ block.isLeaf) ∧
        insertion_index = (spans.blocks.filter fun block =>
          block.path.length = 1 && block.source.stop ≤ join).length

/-- A join always has its caret. -/
theorem rangeEditCaret_at {source : Text} {spans : SpanMap} {join : Nat}
    (boundary : IsBoundary source join)
    (sliceable : ∀ block ∈ spans.blocks, (slice? source block.source).isSome) :
    ∃ location, rangeEditCaret source spans join = .ok location ∧
      location.At source spans join := by
  unfold rangeEditCaret
  rw [if_neg (not_not.mpr boundary)]
  cases found : joinLeaf? spans join with
  | none => exact ⟨_, rfl, joinLeaf?_eq_none found, rfl⟩
  | some leaf =>
    rcases joinLeaf?_spec found with ⟨mem, isLeaf, joined⟩
    rcases Option.isSome_iff_exists.mp (slice?_clamp_isSome boundary (sliceable leaf mem)) with
      ⟨before, sliced⟩
    dsimp only
    rw [sliced]
    exact ⟨_, rfl, leaf, mem, isLeaf, joined, rfl, before, sliced, rfl⟩

/-! ## The body of a Note -/

/-- What comes before the body: a conformant frontmatter block with its line ending, or nothing. -/
inductive BeforeBody (env : Surroundings) (head body : Text) : Prop where
  | frontmatter (range : Range) (before raw ending : Text)
      (parsed : (env.parse (head ++ body)).spans.frontmatter = some range)
      (conformant : (env.readFrontmatter raw).isConformant = true)
      (whole : head = before ++ raw ++ ending)
      (start : byteLen before = range.start)
      (stop : byteLen before + byteLen raw = range.stop)
      (line : ending = "\r\n".toList ∨ ending = "\n".toList ∨
        ending = [] ∧ lineEndingLen body = 0)
  | nothing (isNil : head = [])
      (unread : ∀ range raw, (env.parse body).spans.frontmatter = some range →
        slice? body range = some raw → (env.readFrontmatter raw).isConformant = false)

/-- A text begins with its line ending. -/
theorem lineEndingLen_split (text : Text) :
    ∃ ending rest, text = ending ++ rest ∧ byteLen ending = lineEndingLen text ∧
      (ending = "\r\n".toList ∨ ending = "\n".toList ∨ ending = [] ∧ lineEndingLen rest = 0) := by
  unfold lineEndingLen
  split
  · rename_i rest
    exact ⟨"\r\n".toList, rest, rfl, rfl, .inl rfl⟩
  · rename_i rest
    exact ⟨"\n".toList, rest, rfl, rfl, .inr (.inl rfl)⟩
  · rename_i crlf lf
    refine ⟨[], text, rfl, rfl, .inr (.inr ⟨rfl, ?_⟩)⟩
    split
    · exact absurd rfl (crlf _)
    · exact absurd rfl (lf _)
    · rfl

/-- The body of every Note is addressable. -/
theorem wholeNoteSourceRange_ok (env : Surroundings) (source : Text) :
    ∃ head body, source = head ++ body ∧ BeforeBody env head body ∧
      wholeNoteSourceRange env source (env.parse source).spans =
        .ok ⟨byteLen head, byteLen source⟩ := by
  unfold wholeNoteSourceRange
  cases isFrontmatter : (env.parse source).spans.frontmatter with
  | none =>
    refine ⟨[], source, rfl, .nothing rfl ?_, rfl⟩
    intro range raw parsed
    rw [isFrontmatter] at parsed
    cases parsed
  | some range =>
    have sliceable : (slice? source range).isSome :=
      parseNote_frontmatter_sliceable _ _ isFrontmatter
    rcases Option.isSome_iff_exists.mp sliceable with ⟨raw, sliced⟩
    dsimp only
    unfold getOr
    rw [sliced]
    dsimp only [bind, Except.bind]
    cases conformant : (env.readFrontmatter raw).isConformant with
    | false =>
      refine ⟨[], source, rfl, .nothing rfl ?_, rfl⟩
      intro range' raw' parsed sliced'
      rw [isFrontmatter] at parsed
      rw [← Option.some.inj parsed, sliced] at sliced'
      rw [← Option.some.inj sliced']
      exact conformant
    | true =>
      rcases slice?_eq_some_iff.mp sliced with ⟨before, suffix, whole, start, stop⟩
      rcases lineEndingLen_split suffix with ⟨ending, body, isSuffix, len, line⟩
      have rest : slice? source ⟨range.stop, byteLen source⟩ = some suffix := by
        apply slice?_eq_some_iff.mpr
        refine ⟨before ++ raw, [], ?_, ?_, ?_⟩
        · rw [List.append_nil]
          exact whole
        · rw [byteLen_append]
          exact stop
        · rw [whole, byteLen_append, byteLen_append, byteLen_append]
      have boundary : IsBoundary source (range.stop + lineEndingLen suffix) := by
        apply isBoundary_iff.mpr
        refine ⟨before ++ raw ++ ending, body, ?_, ?_⟩
        · rw [whole, isSuffix, List.append_assoc _ ending]
        · rw [byteLen_append, byteLen_append, len, stop]
      rw [rest]
      dsimp only
      rw [if_neg (by simp), if_neg (not_not.mpr boundary)]
      have split : source = before ++ raw ++ ending ++ body := by
        rw [whole, isSuffix, List.append_assoc _ ending]
      refine ⟨before ++ raw ++ ending, body, split, ?_, ?_⟩
      · apply BeforeBody.frontmatter range before raw ending _ conformant rfl start stop
          line
        rw [← split]
        exact isFrontmatter
      · rw [byteLen_append, byteLen_append, stop, len]
        rfl

/-! ## Edits and copies -/

/-- The edit of a range replaces its slice, and finds the caret after the replacement. -/
theorem replacing_ok {resolve : Text → SpanMap → Except AppError Range} {source part : Text}
    {live : ParsedNote} {retained : SpanMap} {resolved : Range} (replacement : Text)
    (isResolved : resolve source live.spans = .ok resolved)
    (sliced : slice? source resolved = some part) :
    ∃ new_source, splice? source resolved replacement = some new_source ∧
      replacing resolve replacement source live retained =
        .ok (new_source, resolved.start + byteLen replacement) ∧
      IsBoundary new_source (resolved.start + byteLen replacement) := by
  rcases slice?_eq_some_iff.mp sliced with ⟨before, after, whole, start, stop⟩
  have spliced : splice? source resolved replacement = some (before ++ replacement ++ after) :=
    splice?_eq_some_iff.mpr ⟨before, part, after, whole, start, stop, rfl⟩
  refine ⟨before ++ replacement ++ after, spliced, ?_, ?_⟩
  · unfold replacing
    rw [isResolved]
    dsimp only [bind, Except.bind]
    rw [spliceOr_eq_ok.mpr spliced]
    rfl
  · apply isBoundary_iff.mpr
    refine ⟨before ++ replacement, after, rfl, ?_⟩
    rw [byteLen_append, start]

/-- What a range edit returns and installs, when links resolve and the draft is written. -/
def Session.LeavesRange (env : Surroundings) (session : Session)
    (answer : Except AppError RangeEditLocation × Session) (new_source : Text) (join : Nat) :
    Prop :=
  ∀ ast, env.resolveLinks (env.parse new_source).ast = .ok ast →
    env.writeDraft new_source (session.edit_seq + 1) = .ok () →
      ∃ location,
        answer = (.ok location, session.install new_source (env.parse new_source).spans ast) ∧
        location.At new_source (env.parse new_source).spans join

theorem replacing_leaves {resolve : Text → SpanMap → Except AppError Range} {part : Text}
    {resolved : Range} (replacement : Text) (lease : env.editLease = .ok ())
    (editable : session.Editable)
    (isResolved : resolve session.source (env.parse session.source).spans = .ok resolved)
    (sliced : slice? session.source resolved = some part) :
    ∃ new_source, splice? session.source resolved replacement = some new_source ∧
      session.LeavesRange env
        (structuralEditWithResult env session (replacing resolve replacement) caretOfJoin)
        new_source (resolved.start + byteLen replacement) := by
  have replaced : ∃ new_source, splice? session.source resolved replacement = some new_source ∧
      replacing resolve replacement session.source (env.parse session.source) session.spans =
        .ok (new_source, resolved.start + byteLen replacement) ∧
      IsBoundary new_source (resolved.start + byteLen replacement) :=
    replacing_ok replacement isResolved sliced
  rcases replaced with ⟨new_source, spliced, edited, boundary⟩
  refine ⟨new_source, spliced, ?_⟩
  intro ast links drafted
  rcases rangeEditCaret_at boundary fun block => env.parse_sliceable with
    ⟨location, derived, isAt⟩
  exact ⟨location, structuralEdit_installed lease editable edited links derived drafted, isAt⟩

/-- A range edit fails exactly like a copy, and otherwise replaces the slice that a copy reads. -/
def Session.ReplacesCopy (env : Surroundings) (session : Session) (range : RenderedRange)
    (replacement : Text) : Prop :=
  match copyRangeAsMarkdown env session range with
  | .error error => replaceRange env session range replacement = (.error error, session)
  | .ok copied =>
      ∃ resolved new_source, slice? session.source resolved = some copied ∧
        resolveRange session.source session.spans range = .ok resolved ∧
        splice? session.source resolved replacement = some new_source ∧
        session.LeavesRange env (replaceRange env session range replacement) new_source
          (resolved.start + byteLen replacement)

/-- An edit of the whole Note replaces the body that a copy reads, and nothing before it. -/
def Session.ReplacesBody (env : Surroundings) (session : Session) (replacement : Text) : Prop :=
  ∃ head body, session.source = head ++ body ∧ BeforeBody env head body ∧
    copyWholeNoteAsMarkdown env session = .ok body ∧
    session.LeavesRange env (replaceWholeNote env session replacement) (head ++ replacement)
      (byteLen head + byteLen replacement)

theorem Session.Fresh.replacesCopy (fresh : session.Fresh env) (lease : env.editLease = .ok ())
    (range : RenderedRange) (replacement : Text) :
    session.ReplacesCopy env range replacement := by
  have editable := fresh.toEditable
  unfold Session.ReplacesCopy copyRangeAsMarkdown extractRange
  rw [editable.refuseWhileConflicted, fresh.spans_eq]
  dsimp only [bind, Except.bind]
  cases resolved : resolveRange session.source (env.parse session.source).spans range with
  | error error =>
    apply structuralEdit_refused lease editable
    unfold replacing
    dsimp only [bind, Except.bind]
    rw [resolved]
    rfl
  | ok resolved' =>
    have isResolved : (resolveRange session.source (env.parse session.source).spans range).mapError
        spliceError = .ok resolved' := by
      rw [resolved]
      rfl
    cases sliced : slice? session.source resolved' with
    | none =>
      have unspliced : splice? session.source resolved' replacement = none := by
        apply Option.not_isSome_iff_eq_none.mp
        rw [splice?_isSome_iff, sliced]
        exact Bool.false_ne_true
      dsimp only [Except.mapError]
      rw [sliced]
      apply structuralEdit_refused lease editable
      unfold replacing
      dsimp only [bind, Except.bind]
      rw [isResolved]
      dsimp only
      unfold spliceOr spliceSource
      rw [unspliced]
      rfl
    | some copied =>
      have replaced := @replacing_leaves _ _
        (fun working spans => (resolveRange working spans range).mapError spliceError) _ _
        replacement lease editable isResolved sliced
      rcases replaced with ⟨new_source, spliced, leaves⟩
      dsimp only [Except.mapError]
      rw [sliced]
      exact ⟨resolved', new_source, sliced, rfl, spliced, leaves⟩

theorem Session.Fresh.replacesBody (fresh : session.Fresh env) (lease : env.editLease = .ok ())
    (replacement : Text) : session.ReplacesBody env replacement := by
  have editable := fresh.toEditable
  rcases wholeNoteSourceRange_ok env session.source with ⟨head, body, whole, isHead, resolved⟩
  have sliced : slice? session.source ⟨byteLen head, byteLen session.source⟩ = some body := by
    apply slice?_eq_some_iff.mpr
    refine ⟨head, [], ?_, rfl, ?_⟩
    · rw [List.append_nil]
      exact whole
    · rw [whole, byteLen_append]
  refine ⟨head, body, whole, isHead, ?_, ?_⟩
  · unfold copyWholeNoteAsMarkdown getOr
    rw [editable.refuseWhileConflicted, fresh.spans_eq]
    dsimp only [bind, Except.bind]
    rw [resolved]
    dsimp only
    rw [sliced]
  · rcases replacing_leaves replacement lease editable resolved sliced with
      ⟨new_source, spliced, leaves⟩
    have isNew : splice? session.source ⟨byteLen head, byteLen session.source⟩ replacement =
        some (head ++ replacement) := by
      apply splice?_eq_some_iff.mpr
      refine ⟨head, body, [], ?_, rfl, ?_, ?_⟩
      · rw [List.append_nil]
        exact whole
      · rw [whole, byteLen_append]
      · rw [List.append_nil]
    rw [isNew] at spliced
    rw [← Option.some.inj spliced] at leaves
    exact leaves

/-- Range edits and edits of the whole Note agree with the copies of them. -/
theorem rangeEdits_agree_with_copy (fresh : session.Fresh env) (lease : env.editLease = .ok ())
    (range : RenderedRange) (replacement : Text) :
    session.ReplacesCopy env range replacement ∧ session.ReplacesBody env replacement :=
  ⟨fresh.replacesCopy lease range replacement, fresh.replacesBody lease replacement⟩

/-- Lines between blank lines are a paragraph each. -/
def plainForest : Nat → List Text → Forest
  | _, [] => .nil
  | start, line :: rest =>
      let stop := start + byteLen line
      if line = ['\n'] then plainForest stop rest
      else
        .node .paragraph ⟨start, stop⟩
          (.leaf (.text line.dropLast) ⟨start, start + byteLen line.dropLast⟩ .nil)
          (plainForest stop rest)

/-- A Note of plain paragraphs of one line, in a Workspace that answers. -/
def plainNote : Surroundings where
  note_id := "plain.md".toList
  stream source :=
    let forest := plainForest 0 (Lines.splitInclusive source)
    if plain : forest.conforms .flow = true ∧ forest.placed source 0 (byteLen source) = true then
      ⟨forest, plain.1, plain.2⟩
    else ⟨.nil, rfl, rfl⟩
  readFrontmatter _ := .empty
  contentHash source := source
  editLease := .ok ()
  noteExists _ := .ok true
  writeDraft _ _ := .ok ()

/-- A plain Note as it was opened. -/
def plainSession (source : Text) : Session where
  source
  spans := (plainNote.parse source).spans
  ast := (plainNote.parse source).ast
  edit_seq := 0
  session_edited := false
  unwritten := false
  conflicted := false
  closed := false

theorem plainSession_fresh (source : Text) : (plainSession source).Fresh plainNote :=
  ⟨⟨rfl, rfl⟩, rfl⟩

theorem rangeEdits_agree_with_copy_plain :
    (plainSession "ab\n".toList).ReplacesCopy plainNote ⟨[0], 0, [0], 1⟩ "x".toList ∧
      (plainSession "ab\n".toList).ReplacesBody plainNote "x".toList :=
  rangeEdits_agree_with_copy (plainSession_fresh _) rfl _ _

end Burlmd.Editor
