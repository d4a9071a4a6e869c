import Burlmd.Markdown.Parser

/-!
# Text runs and the tags around them

The builder keeps one flag a style. Over a well-nested stream the flag says whether the last
tag of that style was a start tag, which is less than whether one is open.
-/

namespace Burlmd.Markdown

open Utf8

/-! ## What is open in a stream -/

def stepTags (tags : List Tag) (entry : Event × Range) : List Tag :=
  match entry.1 with
  | .start tag => tag :: tags
  | .stop _ => tags.tail
  | .leaf _ => tags

/-- The tags open behind `before`, innermost first. -/
def openTags (before : List (Event × Range)) : List Tag := before.foldl stepTags []

def stepLast (kind : TagEnd) (last : Bool) (entry : Event × Range) : Bool :=
  match entry.1 with
  | .start tag => if tag.toEnd = kind then true else last
  | .stop tag_end => if tag_end = kind then false else last
  | .leaf _ => last

/-- The last tag of a kind in `before` is a start tag. -/
def lastOpens (kind : TagEnd) (before : List (Event × Range)) : Bool :=
  before.foldl (stepLast kind) false

@[simp] theorem lastOpens_concat (kind : TagEnd) (before : List (Event × Range))
    (entry : Event × Range) :
    lastOpens kind (before ++ [entry]) = stepLast kind (lastOpens kind before) entry := by
  simp [lastOpens]

/-- The events may follow where `tags` are open. -/
def Closes : List Tag → List (Event × Range) → Prop
  | _, [] => True
  | tags, (.start tag, _) :: rest => Closes (tag :: tags) rest
  | tags, (.stop tag_end, _) :: rest =>
      ∃ tag outer, tags = tag :: outer ∧ tag.toEnd = tag_end ∧ Closes outer rest
  | tags, (.leaf _, _) :: rest => Closes tags rest

theorem Forest.closes (forest : Forest) {tags : List Tag} {rest : List (Event × Range)}
    (closed : Closes tags rest) : Closes tags (forest.events ++ rest) := by
  induction forest generalizing tags rest with
  | nil => exact closed
  | leaf l range following ih => exact ih closed
  | node tag range children following inside ih =>
    show Closes (tag :: tags) ((children.events ++ _ :: following.events) ++ rest)
    rw [List.append_assoc]
    apply inside
    exact ⟨tag, tags, rfl, rfl, ih closed⟩

/-- A style: a start tag that its end tag tells. -/
def Tag.Style (style : Tag) : Prop := ∀ tag : Tag, tag.toEnd = style.toEnd → tag = style

theorem strong_style : Tag.strong.Style := by
  intro tag same
  cases tag <;> cases same
  rfl

theorem emphasis_style : Tag.emphasis.Style := by
  intro tag same
  cases tag <;> cases same
  rfl

theorem strikethrough_style : Tag.strikethrough.Style := by
  intro tag same
  cases tag <;> cases same
  rfl

/-- In a well-nested stream a style whose last tag is a start tag is open. -/
theorem mem_openTags_of_last {style : Tag} (proper : style.Style) {tags : List Tag} {last : Bool}
    (open_ : last = true → style ∈ tags) {before after : List (Event × Range)}
    (closed : Closes tags (before ++ after))
    (starts : before.foldl (stepLast style.toEnd) last = true) :
    style ∈ before.foldl stepTags tags := by
  induction before generalizing tags last with
  | nil => exact open_ starts
  | cons entry rest ih =>
    rcases entry with ⟨event, range⟩
    cases event with
    | start tag =>
      refine ih ?_ closed starts
      intro now
      by_cases same : tag.toEnd = style.toEnd
      · exact proper tag same ▸ List.mem_cons_self
      · apply List.mem_cons_of_mem
        apply open_
        simpa [stepLast, same] using now
    | stop tag_end =>
      rcases closed with ⟨tag, outer, rfl, rfl, closed⟩
      refine ih ?_ closed starts
      intro now
      by_cases same : tag.toEnd = style.toEnd
      · simp [stepLast, same] at now
      · have inside : style ∈ tag :: outer := by
          apply open_
          simpa [stepLast, same] using now
        rcases List.mem_cons.mp inside with here | inside
        · exact absurd (congrArg Tag.toEnd here.symm) same
        · exact inside
    | leaf l => exact ih open_ closed starts

/-- A style is open, but its last tag is an end tag: that of another one inside it. -/
def Interrupted (style : Tag) (before : List (Event × Range)) : Prop :=
  style ∈ openTags before ∧ lastOpens style.toEnd before = false

instance (style : Tag) (before : List (Event × Range)) : Decidable (Interrupted style before) :=
  inferInstanceAs (Decidable (_ ∧ _))

theorem lastOpens_iff_of_forest {forest : Forest} {before after : List (Event × Range)}
    (cut : forest.events = before ++ after) {style : Tag} (proper : style.Style) :
    (lastOpens style.toEnd before = true ↔ style ∈ openTags before) ↔
      ¬ Interrupted style before := by
  have closed : Closes [] (before ++ after) := by
    have whole : Closes [] (forest.events ++ []) := forest.closes trivial
    rwa [List.append_nil, cut] at whole
  have inside : lastOpens style.toEnd before = true → style ∈ openTags before :=
    mem_openTags_of_last proper (fun never : false = true => by cases never) closed
  unfold Interrupted
  constructor
  · intro same interrupted
    have starts := same.mpr interrupted.1
    rw [interrupted.2] at starts
    cases starts
  · intro whole
    refine ⟨inside, fun opened => ?_⟩
    by_contra stopped
    exact whole ⟨opened, Bool.eq_false_iff.mpr stopped⟩

/-- The leaf shows text: not that of a metadata or code block, and not an empty one. -/
def Shows (before : List (Event × Range)) (entry : Event × Range) : Prop :=
  match entry.1 with
  | .leaf (.text content) =>
      content ≠ [] ∧ lastOpens .metadataBlock before = false ∧ lastOpens .codeBlock before = false
  | .leaf (.code _) | .leaf .softBreak | .leaf .hardBreak => True
  | _ => False

instance (before : List (Event × Range)) (entry : Event × Range) :
    Decidable (Shows before entry) := by
  unfold Shows
  split <;> infer_instance

/-! ## The flags of the builder -/

namespace Builder

/-- What the emission of a text run depends on. -/
def flags (b : Builder) : FormatState × Bool × Bool :=
  (b.format_state, b.in_metadata, b.code_block.isSome)

variable (b : Builder)

@[simp] theorem attach_flags (node : AstNode) : (b.attach node).flags = b.flags := by
  unfold attach
  split <;> rfl

@[simp] theorem pushBlock_flags (node : AstNode) (source : Option Range)
    (runs : List InlineRun) : (b.pushBlock node source runs).flags = b.flags := by
  cases source with
  | none => exact attach_flags b node
  | some range => exact attach_flags _ node

@[simp] theorem pushContainer_flags (node : AstNode) (path : BlockPath) (source : Range) :
    (b.pushContainer node path source).flags = b.flags :=
  attach_flags _ node

@[simp] theorem flushPendingInlines_flags : b.flushPendingInlines.flags = b.flags := by
  unfold flushPendingInlines
  split
  · rfl
  · exact pushBlock_flags _ _ _ _

@[simp] theorem emitRun_flags (rendered_chars : Nat) (source : Range) (interpolable : Bool) :
    (b.emitRun rendered_chars source interpolable).flags = b.flags := by
  unfold emitRun
  split <;> rfl

@[simp] theorem pushInline_flags (element : InlineElement) :
    (b.pushInline element).flags = b.flags := by
  unfold pushInline
  split <;> rfl

@[simp] theorem closeLink_flags : b.closeLink.flags = b.flags := by
  unfold closeLink
  split
  · rfl
  · dsimp only
    split
    · rfl
    · rw [pushInline_flags, emitRun_flags]
      rfl

@[simp] theorem splitFrame_flags : b.splitFrame.1.flags = b.flags := by
  unfold splitFrame
  split
  · split <;> rfl
  · rfl

@[simp] theorem closeImage_flags : b.closeImage.flags = b.flags := by
  unfold closeImage
  split
  · rfl
  · rename_i frame rest _
    have hoists : { b with link_stack := rest }.splitFrame.1.flags = b.flags :=
      splitFrame_flags _
    revert hoists
    generalize { b with link_stack := rest }.splitFrame = parts
    rcases parts with ⟨hoisted, defer⟩
    intro hoists
    cases frame.kind with
    | link target =>
      cases defer with
      | true => exact hoists
      | false => exact (flushPendingInlines_flags _).trans hoists
    | image url =>
      cases defer with
      | true => exact hoists
      | false =>
        have flushed := (flushPendingInlines_flags hoisted).trans hoists
        simp only [Bool.false_eq_true, if_false, pushBlock_flags]
        exact flushed

@[simp] theorem drainDeferred_flags : b.drainDeferred.flags = b.flags := by
  have drained (waiting : List DeferredBlock) (c : Builder) :
      (waiting.foldl (fun c deferred =>
        c.pushBlock deferred.node (some deferred.source) deferred.runs) c).flags = c.flags := by
    induction waiting generalizing c with
    | nil => rfl
    | cons first rest ih => exact (ih _).trans (pushBlock_flags _ _ _ _)
  exact drained b.deferred { b with deferred := [] }

end Builder

def stepFlags (flags : FormatState × Bool × Bool) (entry : Event × Range) :
    FormatState × Bool × Bool :=
  let bold := stepLast .strong flags.1.bold entry
  let italic := stepLast .emphasis flags.1.italic entry
  let strikethrough := stepLast .strikethrough flags.1.strikethrough entry
  (⟨bold, italic, strikethrough⟩, stepLast .metadataBlock flags.2.1 entry,
    stepLast .codeBlock flags.2.2 entry)

namespace Builder

@[simp] theorem pushRun_flags (source : Text) (b : Builder) (rendered : Text) (range : Range) :
    (b.pushRun source rendered range).flags = b.flags :=
  emitRun_flags b _ _ _

theorem text_flags (source : Text) (b : Builder) (content : Text) (range : Range) :
    (b.text source content range).flags = b.flags := by
  unfold text
  split
  · rfl
  · split
    · rfl
    · split
      · rename_i accum within
        unfold flags
        rw [within]
        rfl
      · rw [pushInline_flags, pushRun_flags]

theorem endHeading_flags (b : Builder) : b.endHeading.flags = b.flags := by
  unfold endHeading
  split
  · rfl
  · rename_i frame rest _
    cases frame.kind with
    | heading level =>
      dsimp only
      rw [drainDeferred_flags, pushBlock_flags]
      rfl
    | _ => rfl

theorem endParagraph_flags (b : Builder) : b.endParagraph.flags = b.flags := by
  unfold endParagraph
  split
  · rfl
  · rename_i frame rest _
    cases frame.kind with
    | paragraph =>
      dsimp only
      split
      · rfl
      · rw [pushBlock_flags]
        rfl
    | _ => rfl

theorem endBlockQuote_flags (b : Builder) : b.endBlockQuote.flags = b.flags := by
  unfold endBlockQuote
  split
  · rfl
  · rename_i frame rest _
    cases frame.kind with
    | blockquote path nodes => exact pushContainer_flags _ _ _ _
    | _ => rfl

theorem endList_flags (b : Builder) : b.endList.flags = b.flags := by
  unfold endList
  split
  · rfl
  · rename_i frame rest _
    cases frame.kind with
    | list path ordered items => exact pushContainer_flags _ _ _ _
    | _ => rfl

theorem endItem_flags (b : Builder) : b.endItem.flags = b.flags := by
  refine Eq.trans ?_ (flushPendingInlines_flags b)
  unfold endItem
  generalize b.flushPendingInlines = flushed
  dsimp only
  split
  · rfl
  · rename_i frame rest _
    cases frame.kind with
    | listItem path content checked => exact pushContainer_flags _ _ _ _
    | _ => rfl

theorem setChecked_flags (b : Builder) (checked : Bool) :
    (b.setChecked checked).flags = b.flags := by
  unfold setChecked
  split <;> rfl

/-- One event moves each flag as the last tag of its kind. -/
theorem handle_flags (source containing_dir : Text) (b : Builder) (entry : Event × Range) :
    (b.handle source containing_dir entry).flags = stepFlags b.flags entry := by
  rcases entry with ⟨event, range⟩
  cases event with
  | start tag =>
    cases tag with
    | list start_number => exact flushPendingInlines_flags b
    | _ => rfl
  | stop tag_end =>
    cases tag_end with
    | paragraph => exact endParagraph_flags b
    | heading => exact endHeading_flags b
    | blockQuote => exact endBlockQuote_flags b
    | list => exact endList_flags b
    | item => exact endItem_flags b
    | link => exact closeLink_flags b
    | image => exact closeImage_flags b
    | codeBlock =>
      show b.endCodeBlock.flags = stepFlags b.flags _
      unfold endCodeBlock
      cases within : b.code_block with
      | none =>
        unfold flags
        rw [within]
        rfl
      | some accum =>
        dsimp only
        rw [pushBlock_flags]
        rfl
    | _ => rfl
  | leaf l =>
    cases l with
    | text content => exact text_flags source b content range
    | code content => exact (pushInline_flags _ _).trans (pushRun_flags _ _ _ _)
    | softBreak => exact (pushInline_flags _ _).trans (pushRun_flags _ _ _ _)
    | hardBreak => exact (pushInline_flags _ _).trans (pushRun_flags _ _ _ _)
    | rule => exact pushBlock_flags _ _ _ _
    | taskListMarker checked => exact setChecked_flags b checked
    | html content => rfl
    | inlineHtml content => rfl

/-- The flags behind a stream are those of its last tags. -/
theorem run_flags (source containing_dir : Text) (before : List (Event × Range)) :
    (new.run source containing_dir before).flags =
      (⟨lastOpens .strong before, lastOpens .emphasis before, lastOpens .strikethrough before⟩,
        lastOpens .metadataBlock before, lastOpens .codeBlock before) := by
  induction before using List.reverseRecOn with
  | nil => rfl
  | append_singleton before entry ih =>
    have snoc : new.run source containing_dir (before ++ [entry]) =
        (new.run source containing_dir before).handle source containing_dir entry := by
      simp [run]
    rw [snoc, handle_flags, ih]
    simp only [lastOpens_concat]
    rfl

/-- The text run that the builder emits for an event. -/
def emitted (b : Builder) (entry : Event × Range) : Option TextRun :=
  match entry.1 with
  | .leaf (.text content) =>
      if b.in_metadata = true ∨ content = [] ∨ b.code_block.isSome then none
      else some (.fromState content b.format_state false)
  | .leaf (.code content) => some (.fromState content b.format_state true)
  | .leaf .softBreak | .leaf .hardBreak => some (.fromState ['\n'] b.format_state false)
  | _ => none

/-- An emitted run is the inline element that is pushed. -/
theorem handle_of_emitted (source containing_dir : Text) (b : Builder) {entry : Event × Range}
    {run : TextRun} (emits : b.emitted entry = some run) :
    b.handle source containing_dir entry =
      (b.pushRun source run.content entry.2).pushInline (.text run) := by
  rcases entry with ⟨event, range⟩
  cases event with
  | start tag => cases emits
  | stop tag_end => cases emits
  | leaf l =>
    cases l with
    | text content =>
      dsimp only [emitted] at emits
      split at emits
      · cases emits
      · rename_i shown
        simp only [not_or, Option.not_isSome_iff_eq_none] at shown
        cases emits
        show b.text source content range = _
        unfold text
        rw [if_neg shown.1, if_neg shown.2.1, shown.2.2]
        rfl
    | code content =>
      cases emits
      rfl
    | softBreak =>
      cases emits
      rfl
    | hardBreak =>
      cases emits
      rfl
    | _ => cases emits

theorem emitted_isSome_iff (source containing_dir : Text) (before : List (Event × Range))
    (entry : Event × Range) :
    ((new.run source containing_dir before).emitted entry).isSome ↔ Shows before entry := by
  have flags := run_flags source containing_dir before
  unfold Builder.flags at flags
  rcases entry with ⟨event, range⟩
  cases event with
  | start tag => simp [emitted, Shows]
  | stop tag_end => simp [emitted, Shows]
  | leaf l =>
    cases l with
    | text content =>
      have metadata := congrArg (fun flags => flags.2.1) flags
      have code := congrArg (fun flags => flags.2.2) flags
      dsimp only at metadata code
      dsimp only [emitted, Shows]
      rw [metadata, code]
      split
      · rename_i hidden
        refine iff_of_false (fun never => by cases never) ?_
        intro shown
        rcases hidden with within | empty | within
        · exact absurd (within.symm.trans shown.2.1) (fun never => by cases never)
        · exact shown.1 empty
        · exact absurd (within.symm.trans shown.2.2) (fun never => by cases never)
      · rename_i shown
        simp only [not_or, Bool.not_eq_true] at shown
        exact iff_of_true rfl ⟨shown.2.1, shown.1, shown.2.2⟩
    | _ => simp [emitted, Shows]

theorem emitted_style {b : Builder} {entry : Event × Range} {run : TextRun}
    (emits : b.emitted entry = some run) :
    run.bold = b.format_state.bold ∧ run.italic = b.format_state.italic ∧
      run.strikethrough = b.format_state.strikethrough := by
  rcases entry with ⟨event, range⟩
  cases event with
  | start tag => cases emits
  | stop tag_end => cases emits
  | leaf l =>
    cases l with
    | text content =>
      dsimp only [emitted] at emits
      split at emits
      · cases emits
      · cases emits
        exact ⟨rfl, rfl, rfl⟩
    | html content => cases emits
    | inlineHtml content => cases emits
    | rule => cases emits
    | taskListMarker checked => cases emits
    | _ =>
      cases emits
      exact ⟨rfl, rfl, rfl⟩

end Builder

/-! ## Merging -/

/-- The characters of a run with the flags that each of them has. -/
def TextRun.styled (run : TextRun) : List (Char × FormatState × Bool) :=
  run.content.map fun c => (c, ⟨run.bold, run.italic, run.strikethrough⟩, run.code)

mutual

def InlineElement.styled : InlineElement → List (Char × FormatState × Bool)
  | .text run => run.styled
  | .link _ _ content => styledText content
  | .externalLink _ content => styledText content

def styledText : List InlineElement → List (Char × FormatState × Bool)
  | [] => []
  | element :: rest => element.styled ++ styledText rest

end

theorem styledText_eq_flatMap (inlines : List InlineElement) :
    styledText inlines = inlines.flatMap InlineElement.styled := by
  induction inlines with
  | nil => simp [styledText]
  | cons element rest ih => simp [styledText, ih]

theorem TextRun.styled_append {left right : TextRun} (same : left.sameFormat right = true) :
    TextRun.styled { left with content := left.content ++ right.content } =
      left.styled ++ right.styled := by
  unfold TextRun.sameFormat at same
  simp only [Bool.and_eq_true, decide_eq_true_eq] at same
  rcases same with ⟨⟨⟨bold, italic⟩, strikethrough⟩, code⟩
  unfold TextRun.styled
  rw [bold, italic, strikethrough, code]
  exact List.map_append

theorem styledText_mergeInto (merged : List InlineElement) (element : InlineElement) :
    styledText (mergeInto merged element) = styledText merged ++ element.styled := by
  simp only [styledText_eq_flatMap]
  rcases List.eq_nil_or_concat merged with empty | ⟨front, last, filled⟩
  · subst empty
    cases element <;> simp [mergeInto]
  · subst filled
    cases element with
    | text run =>
      cases last with
      | text previous =>
        cases same : previous.sameFormat run with
        | true =>
          have joined := TextRun.styled_append same
          simp [mergeInto, same, InlineElement.styled, joined]
        | false => simp [mergeInto, same]
      | link target_id exists_ content => simp [mergeInto]
      | externalLink url content => simp [mergeInto]
    | link target_id exists_ content => simp [mergeInto]
    | externalLink url content => simp [mergeInto]

theorem styledText_mergeAdjacentTextRuns (inlines : List InlineElement) :
    styledText (mergeAdjacentTextRuns inlines) = styledText inlines := by
  have merges (merged : List InlineElement) :
      styledText (inlines.foldl mergeInto merged) = styledText merged ++ styledText inlines := by
    induction inlines generalizing merged with
    | nil => simp [styledText]
    | cons element rest ih =>
      rw [List.foldl_cons, ih, styledText_mergeInto, List.append_assoc]
      simp [styledText]
  simpa [mergeAdjacentTextRuns, styledText] using merges []

mutual

theorem InlineElement.styled_processed (element : InlineElement) :
    element.processed.styled = element.styled := by
  cases element with
  | text run => simp [InlineElement.processed]
  | link target_id exists_ content =>
    have inside := styledText_processedEach content
    simp [InlineElement.processed, InlineElement.styled, styledText_mergeAdjacentTextRuns, inside]
  | externalLink url content =>
    have inside := styledText_processedEach content
    simp [InlineElement.processed, InlineElement.styled, styledText_mergeAdjacentTextRuns, inside]

theorem styledText_processedEach (inlines : List InlineElement) :
    styledText (processedEach inlines) = styledText inlines := by
  cases inlines with
  | nil => simp [processedEach]
  | cons element rest =>
    have first := InlineElement.styled_processed element
    have following := styledText_processedEach rest
    simp [processedEach, styledText, first, following]

end

theorem styledText_processInlines (raw_inlines : List InlineElement) :
    styledText (processInlines raw_inlines) = styledText raw_inlines := by
  unfold processInlines
  rw [styledText_mergeAdjacentTextRuns, styledText_processedEach]

/-! ## The law -/

/-- The run has each flag exactly where a tag of that style is open. -/
structure StyledBy (tags : List Tag) (run : TextRun) : Prop where
  bold : run.bold = true ↔ .strong ∈ tags
  italic : run.italic = true ↔ .emphasis ∈ tags
  strikethrough : run.strikethrough = true ↔ .strikethrough ∈ tags

theorem styledBy_iff {source containing_dir : Text} {forest : Forest}
    {before after : List (Event × Range)} (cut : forest.events = before ++ after)
    {entry : Event × Range} {run : TextRun}
    (emits : (Builder.new.run source containing_dir before).emitted entry = some run) :
    StyledBy (openTags before) run ↔
      ∀ style ∈ [Tag.strong, .emphasis, .strikethrough], ¬ Interrupted style before := by
  have flags := congrArg Prod.fst (Builder.run_flags source containing_dir before)
  have bold := lastOpens_iff_of_forest cut strong_style
  have italic := lastOpens_iff_of_forest cut emphasis_style
  have strikethrough := lastOpens_iff_of_forest cut strikethrough_style
  rcases Builder.emitted_style emits with ⟨isBold, isItalic, isStruck⟩
  have isBold : run.bold = lastOpens Tag.strong.toEnd before :=
    isBold.trans (congrArg FormatState.bold flags)
  have isItalic : run.italic = lastOpens Tag.emphasis.toEnd before :=
    isItalic.trans (congrArg FormatState.italic flags)
  have isStruck : run.strikethrough = lastOpens Tag.strikethrough.toEnd before :=
    isStruck.trans (congrArg FormatState.strikethrough flags)
  simp only [List.forall_mem_cons, ← bold, ← italic, ← strikethrough]
  constructor
  · intro styled
    exact ⟨isBold ▸ styled.bold, isItalic ▸ styled.italic, isStruck ▸ styled.strikethrough,
      List.forall_mem_nil _⟩
  · intro whole
    exact ⟨isBold ▸ whole.1, isItalic ▸ whole.2.1, isStruck ▸ whole.2.2.1⟩

/-- Every run that is emitted has the flags of the tags around it exactly where no shown text
follows the end of a style inside another of its kind; merging is never to blame. -/
theorem runs_styled_iff (source containing_dir : Text) (forest : Forest) :
    ((∀ before entry after, forest.events = before ++ entry :: after →
        ∀ run, (Builder.new.run source containing_dir before).emitted entry = some run →
          StyledBy (openTags before) run) ∧
      ∀ inlines, styledText (mergeAdjacentTextRuns inlines) = styledText inlines ∧
        styledText (processInlines inlines) = styledText inlines) ↔
      ∀ before entry after, forest.events = before ++ entry :: after → Shows before entry →
        ∀ style ∈ [Tag.strong, .emphasis, .strikethrough], ¬ Interrupted style before := by
  constructor
  · intro styled before entry after cut shown
    have emits := (Builder.emitted_isSome_iff source containing_dir before entry).mpr shown
    rcases Option.isSome_iff_exists.mp emits with ⟨run, emits⟩
    exact (styledBy_iff cut emits).mp (styled.1 before entry after cut run emits)
  · intro whole
    refine ⟨?_, fun inlines =>
      ⟨styledText_mergeAdjacentTextRuns inlines, styledText_processInlines inlines⟩⟩
    intro before entry after cut run emits
    apply (styledBy_iff cut emits).mpr
    apply whole before entry after cut
    apply (Builder.emitted_isSome_iff source containing_dir before entry).mp
    rw [emits]
    rfl

/-- `**a **b** c**`: the last text stands in the outer of two Strong tags. -/
def strongInsideStrong : EventStream "**a **b** c**".toList where
  forest :=
    .node .paragraph ⟨0, 13⟩
      (.node .strong ⟨0, 13⟩
        (.leaf (.text "a ".toList) ⟨2, 4⟩
          (.node .strong ⟨4, 9⟩ (.leaf (.text "b".toList) ⟨6, 7⟩ .nil)
            (.leaf (.text " c".toList) ⟨9, 11⟩ .nil)))
        .nil)
      .nil
  conforms := by decide
  placed := by decide

theorem strongInsideStrong_loses_bold :
    ∃ before entry after, strongInsideStrong.events = before ++ entry :: after ∧
      openTags before = [.strong, .paragraph] ∧
      (Builder.new.run "**a **b** c**".toList [] before).emitted entry =
        some ⟨" c".toList, false, false, false, false⟩ :=
  ⟨strongInsideStrong.events.take 6, (.leaf (.text " c".toList), ⟨9, 11⟩),
    strongInsideStrong.events.drop 7, by decide, by decide, by decide⟩

end Burlmd.Markdown
