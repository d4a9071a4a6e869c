import Burlmd.Workspace.ConflictDocument

/-!
# When the collapse is faithful

A document collapses to its own segments exactly when no line of a segment starts like the marker
that ends its section.
-/

namespace Burlmd.Workspace

open Lines
open Collapse (Segment)
open Markdown
open Utf8 (Text byteLen)

/-! ## A parser that tells texts apart -/

/-- The whole text as one code block. -/
def quoteForest (source : Text) : Forest :=
  if source = [] then .nil
  else
    .node (.codeBlock .indented) ⟨0, byteLen source⟩ (.leaf (.text source) ⟨0, byteLen source⟩ .nil)
      .nil

theorem conforms_quoteForest (source : Text) : (quoteForest source).conforms .flow = true := by
  unfold quoteForest
  split
  · rfl
  · rfl

theorem placed_quoteForest (source : Text) :
    (quoteForest source).placed source 0 (byteLen source) = true := by
  have whole : (Utf8.slice? source ⟨0, byteLen source⟩).isSome := by
    apply Utf8.slice?_isSome_iff.mpr
    refine ⟨Nat.zero_le _, Utf8.isBoundary_iff.mpr ⟨[], source, rfl, rfl⟩, ?_⟩
    exact Utf8.isBoundary_iff.mpr ⟨source, [], (List.append_nil _).symm, rfl⟩
  unfold quoteForest
  split
  · rename_i none_
    simp [none_, Forest.placed]
  · rename_i some_
    have longer : 0 < byteLen source := by
      cases source with
      | nil => exact absurd rfl some_
      | cons c rest =>
        rw [Utf8.byteLen_cons]
        have := c.utf8Size_pos
        omega
    simp [Forest.placed, whole, longer]

def quoting : Parsers :=
  fun _ source => ⟨quoteForest source, conforms_quoteForest source, placed_quoteForest source⟩

def quoted (text : Text) : List AstNode := if trim text = [] then [] else [.codeBlock none text]

theorem parse_quoting (source containing_dir : Text) (segment : Segment) :
    parseMarkdownSegment quoting source containing_dir segment = quoted source := by
  unfold parseMarkdownSegment quoted
  split
  · rfl
  · rename_i visible
    cases source with
    | nil => exact absurd rfl visible
    | cons c rest => rfl

theorem trim_ne_nil_of_mem {text : Text} {c : Char} (mem : c ∈ text)
    (visible : isWhiteSpace c = false) : trim text ≠ [] := by
  intro blank
  have stays : c ∈ text.dropWhile isWhiteSpace := by
    have split := mem
    rw [← List.takeWhile_append_dropWhile (p := isWhiteSpace) (l := text)] at split
    rcases List.mem_append.mp split with left | right
    · have white := List.mem_takeWhile_imp left
      rw [visible] at white
      exact absurd white Bool.false_ne_true
    · exact right
  unfold trim at blank
  rw [List.reverse_eq_nil_iff, List.dropWhile_eq_nil_iff] at blank
  have white := blank c (List.mem_reverse.mpr stays)
  rw [visible] at white
  exact absurd white Bool.false_ne_true

/-- A text up to a line is not quoted like one with the line. -/
theorem quoted_append_ne {c : Char} {line : Text} (visible : isWhiteSpace c = false)
    (looks : Looks c line) (before after : Text) (rest rest' : List AstNode)
    (other : ∀ text later, rest ≠ .codeBlock none text :: later) :
    quoted before ++ rest ≠ quoted (before ++ (line ++ after)) ++ rest' := by
  have mem : c ∈ line := looks.subset (by unfold marker; exact List.mem_cons_self)
  have here : trim (before ++ (line ++ after)) ≠ [] :=
    trim_ne_nil_of_mem (List.mem_append_right _ (List.mem_append_left _ mem)) visible
  intro same
  unfold quoted at same
  rw [if_neg here, List.singleton_append] at same
  split at same
  · exact other _ _ same
  · rw [List.singleton_append] at same
    have isText : before = before ++ (line ++ after) := by
      have first := (List.cons.inj same).1
      injection first
    have none_ : line ++ after = [] := List.append_right_eq_self.mp isText.symm
    rw [List.append_eq_nil_iff] at none_
    rw [none_.1] at mem
    cases mem

theorem quoted_ne {c : Char} {line : Text} (visible : isWhiteSpace c = false) (looks : Looks c line)
    (before after : Text) : quoted before ≠ quoted (before ++ (line ++ after)) := by
  intro same
  apply quoted_append_ne visible looks before after [] [] (fun _ _ nothing => by cases nothing)
  rw [List.append_nil, List.append_nil, same]

/-! ## What a reading starts with -/

theorem read_incoming_head {mine : Text} {old : Option Text} {text : Text} {lines : List Text}
    {parts : List Part} (isRead : read (.incoming mine old text) lines = some parts) :
    ∃ theirs rest, parts = .region mine old theirs :: rest := by
  induction lines generalizing text with
  | nil => cases isRead
  | cons line others ih =>
    rw [read] at isRead
    split at isRead
    · rcases Option.map_eq_some_iff.mp isRead with ⟨rest, -, same⟩
      exact ⟨text, rest, same.symm⟩
    · exact ih isRead

theorem read_base_head {mine text : Text} {lines : List Text} {parts : List Part}
    (isRead : read (.base mine text) lines = some parts) :
    ∃ old theirs rest, parts = .region mine old theirs :: rest := by
  induction lines generalizing text with
  | nil => cases isRead
  | cons line others ih =>
    rw [read] at isRead
    split at isRead
    · exact ⟨some text, read_incoming_head isRead⟩
    · exact ih isRead

theorem read_local_head {text : Text} {lines : List Text} {parts : List Part}
    (isRead : read (.local_ text) lines = some parts) :
    ∃ mine old theirs rest, parts = .region mine old theirs :: rest := by
  induction lines generalizing text with
  | nil => cases isRead
  | cons line others ih =>
    rw [read] at isRead
    split at isRead
    · exact ⟨text, read_base_head isRead⟩
    · split at isRead
      · exact ⟨text, none, read_incoming_head isRead⟩
      · exact ih isRead

/-- The first line for which a condition fails, with what is before it. -/
theorem exists_first_of_not {P : Text → Prop} {lines : List Text} (fails : ¬ ∀ line ∈ lines, P line) :
    ∃ before line after, lines = before ++ line :: after ∧ ¬ P line ∧ ∀ other ∈ before, P other := by
  induction lines with
  | nil => exact absurd (fun _ mem => absurd mem List.not_mem_nil) fails
  | cons line rest ih =>
    by_cases here : P line
    · have later : ¬ ∀ other ∈ rest, P other := by
        intro all
        exact fails (List.forall_mem_cons.mpr ⟨here, all⟩)
      rcases ih later with ⟨before, other, after, isRest, failing, hold⟩
      refine ⟨line :: before, other, after, ?_, failing, List.forall_mem_cons.mpr ⟨here, hold⟩⟩
      rw [isRest]
      rfl
    · exact ⟨[], line, rest, rfl, here, fun _ mem => absurd mem List.not_mem_nil⟩

/-! ## Equal blocks force a clear document -/

section Forced

variable {parts : List Part} {rest : List Text}

/-- The first region of the parts, with its three texts. -/
def Leads (holds : Text → Option Text → Text → Prop) (parts : List Part) : Prop :=
  ∀ mine old theirs later, parts = .region mine old theirs :: later → holds mine old theirs

theorem local_clear {lines : List Text} (isRead : read (.local_ []) (lines ++ rest) = some parts)
    (same : Leads (fun mine _ _ => quoted mine = quoted lines.flatten) parts) :
    ∀ line ∈ lines, ¬ Looks '|' line ∧ ¬ Looks '=' line := by
  by_contra unclear
  rcases exists_first_of_not unclear with ⟨before, line, after, isLines, failing, clear⟩
  have starts : ∃ old theirs later, parts = .region before.flatten old theirs :: later := by
    rw [isLines, List.append_assoc, read_local clear, List.nil_append, List.cons_append] at isRead
    by_cases bar : Looks '|' line
    · rw [read_bar bar] at isRead
      exact read_base_head isRead
    · have equals : Looks '=' line := by
        by_contra no
        exact failing ⟨bar, no⟩
      rw [read_separator equals] at isRead
      exact ⟨none, read_incoming_head isRead⟩
  rcases starts with ⟨old, theirs, later, isParts⟩
  have quotes := same _ _ _ _ isParts
  rw [isLines, List.flatten_append, List.flatten_cons] at quotes
  by_cases bar : Looks '|' line
  · exact quoted_ne (by decide) bar _ _ quotes
  · have equals : Looks '=' line := by
      by_contra no
      exact failing ⟨bar, no⟩
    exact quoted_ne (by decide) equals _ _ quotes

theorem base_clear {lines : List Text} {mine : Text}
    (isRead : read (.base mine []) (lines ++ rest) = some parts)
    (same : Leads (fun _ old _ => old.map quoted = some (quoted lines.flatten)) parts) :
    ∀ line ∈ lines, ¬ Looks '=' line := by
  by_contra unclear
  rcases exists_first_of_not unclear with ⟨before, line, after, isLines, failing, clear⟩
  have equals := not_not.mp failing
  rw [isLines, List.append_assoc, read_base clear, List.nil_append, List.cons_append,
    read_base_separator equals] at isRead
  rcases read_incoming_head isRead with ⟨theirs, later, isParts⟩
  have quotes := same _ _ _ _ isParts
  rw [isLines, List.flatten_append, List.flatten_cons, Option.map_some, Option.some.injEq] at quotes
  exact quoted_ne (by decide) equals _ _ quotes

theorem incoming_clear {lines : List Text} {mine : Text} {old : Option Text}
    (isRead : read (.incoming mine old []) (lines ++ rest) = some parts)
    (same : Leads (fun _ _ theirs => quoted theirs = quoted lines.flatten) parts) :
    ∀ line ∈ lines, ¬ Looks '>' line := by
  by_contra unclear
  rcases exists_first_of_not unclear with ⟨before, line, after, isLines, failing, clear⟩
  have closes := not_not.mp failing
  rw [isLines, List.append_assoc, read_incoming clear, List.nil_append, List.cons_append,
    read_closing closes] at isRead
  rcases Option.map_eq_some_iff.mp isRead with ⟨later, -, isParts⟩
  have quotes := same _ _ _ _ isParts.symm
  rw [isLines, List.flatten_append, List.flatten_cons] at quotes
  exact quoted_ne (by decide) closes _ _ quotes

theorem region_clear {region : Region} (marked : region.Marked Looks)
    (isRead : read (.local_ []) (region.inner ++ rest) = some parts)
    (same : Leads (fun mine old theirs =>
      quoted mine = quoted region.local_.flatten ∧
      old.map quoted = region.base.map (fun base => quoted base.2.flatten) ∧
      quoted theirs = quoted region.incoming.flatten) parts) :
    region.Clear := by
  have isInner : region.inner ++ rest = region.local_ ++ (region.baseLines ++
      region.separator :: (region.incoming ++ region.closing :: rest)) := by
    simp [Region.inner]
  rw [isInner] at isRead
  have mine := local_clear isRead fun _ _ _ _ isParts => (same _ _ _ _ isParts).1
  rw [read_local mine, List.nil_append] at isRead
  unfold Region.baseLines at isRead
  cases isBase : region.base with
  | none =>
    rw [isBase] at isRead
    dsimp only at isRead
    rw [List.nil_append, read_separator marked.separator] at isRead
    have theirs := incoming_clear isRead fun _ _ _ _ isParts => (same _ _ _ _ isParts).2.2
    refine ⟨mine, ?_, theirs⟩
    intro base mem
    rw [isBase] at mem
    cases mem
  | some base =>
    rw [isBase] at isRead
    dsimp only at isRead
    rw [List.cons_append, read_bar (marked.base base isBase)] at isRead
    have old : ∀ line ∈ base.2, ¬ Looks '=' line := by
      apply base_clear isRead
      intro _ _ _ _ isParts
      have quotes := (same _ _ _ _ isParts).2.1
      rwa [isBase, Option.map_some] at quotes
    rw [read_base old, List.nil_append, read_base_separator marked.separator] at isRead
    have theirs := incoming_clear isRead fun _ _ _ _ isParts => (same _ _ _ _ isParts).2.2
    refine ⟨mine, ?_, theirs⟩
    intro base' mem
    rw [isBase] at mem
    cases mem
    exact old

variable {text containing_dir : Text} {segment : Segment}

theorem suggestion_quoting (mine : Text) (old : Option Text) (theirs : Text) :
    Collapse.suggestion quoting containing_dir mine old theirs =
      .suggestion (old.map quoted) (quoted mine) (quoted theirs) := by
  unfold Collapse.suggestion
  simp only [parse_quoting]

theorem nodesOf_plain (later : List Part) :
    nodesOf quoting containing_dir segment (.plain text :: later) =
      quoted text ++ nodesOf quoting containing_dir .interior later := by
  rw [nodesOf, parse_quoting]

theorem nodesOf_region (mine : Text) (old : Option Text) (theirs : Text) (later : List Part) :
    nodesOf quoting containing_dir segment (.region mine old theirs :: later) =
      .suggestion (old.map quoted) (quoted mine) (quoted theirs) ::
        nodesOf quoting containing_dir .interior later := by
  rw [nodesOf, suggestion_quoting]

theorem plain_clear {lines : List Text} {later : List Part}
    (isRead : read (.plain text) (lines ++ rest) = some parts)
    (same : nodesOf quoting containing_dir segment parts =
      nodesOf quoting containing_dir segment (.plain (text ++ lines.flatten) :: later)) :
    ∀ line ∈ lines, ¬ Looks '<' line := by
  by_contra unclear
  rcases exists_first_of_not unclear with ⟨before, line, after, isLines, failing, clear⟩
  have opens := not_not.mp failing
  rw [isLines, List.append_assoc, read_plain clear, List.cons_append, read_opening opens] at isRead
  rcases Option.map_eq_some_iff.mp isRead with ⟨others, isOthers, isParts⟩
  rcases read_local_head isOthers with ⟨mine, old, theirs, more, isRegion⟩
  rw [← isParts, isRegion, isLines, List.flatten_append, List.flatten_cons, nodesOf_plain,
    nodesOf_plain, nodesOf_region, ← List.append_assoc text] at same
  apply quoted_append_ne (by decide) opens _ _ _ _ ?_ same
  intro _ _ isQuote
  injection isQuote with isQuote
  cases isQuote

theorem regions_clear {regions : Regions} (marked : regions.Marked Looks) {head : List Text}
    (isRead : read (.plain text) (head ++ regions.lines) = some parts)
    (same : nodesOf quoting containing_dir segment parts =
      nodesOf quoting containing_dir segment (.plain (text ++ head.flatten) :: regions.parts)) :
    (∀ line ∈ head, ¬ Looks '<' line) ∧ regions.Clear := by
  induction regions generalizing text head parts segment with
  | nil => exact ⟨plain_clear isRead same, fun _ mem => absurd mem List.not_mem_nil⟩
  | cons entry others ih =>
    rcases entry with ⟨region, after⟩
    have isMarked := marked _ List.mem_cons_self
    have plain := plain_clear isRead same
    have isLines : Regions.lines ((region, after) :: others) =
        region.opening :: (region.inner ++ (after ++ Regions.lines others)) := by
      simp [Regions.lines, Region.lines]
    rw [isLines, read_plain plain, read_opening isMarked.opening] at isRead
    rcases Option.map_eq_some_iff.mp isRead with ⟨later, isLater, isParts⟩
    have isRegions : Regions.parts ((region, after) :: others) =
        .region region.local_.flatten (region.base.map fun base => base.2.flatten)
          region.incoming.flatten :: .plain after.flatten :: Regions.parts others := rfl
    rw [← isParts, isRegions, nodesOf_plain, nodesOf_plain, nodesOf_region,
      List.append_cancel_left_eq, Option.map_map] at same
    have own : region.Clear := by
      apply region_clear isMarked isLater
      intro mine old theirs more isMore
      rw [isMore, nodesOf_region] at same
      have heads := (List.cons.inj same).1
      injection heads with isOld isMine isTheirs
      exact ⟨isMine, isOld, isTheirs⟩
    rw [read_region isMarked own] at isLater
    rcases Option.map_eq_some_iff.mp isLater with ⟨more, isMore, isRest⟩
    rw [← isRest, Region.part, nodesOf_region, Option.map_map] at same
    have tails := ih (fun entry mem => marked entry (List.mem_cons_of_mem _ mem)) isMore
      (List.cons.inj same).2
    exact ⟨plain, List.forall_mem_cons.mpr ⟨⟨own, tails.1⟩, tails.2⟩⟩

end Forced

/-! ## When a document collapses to its own segments -/

/-- Its lines are also those of a document with regions and lines that start like markers. -/
def Document.Mistakable (doc : Document) : Prop :=
  ∃ other : Document, other.Readable ∧ other.regions ≠ [] ∧ other.lines = doc.lines

theorem Document.length_parts (doc : Document) : 1 < doc.parts.length ↔ doc.regions ≠ [] := by
  unfold parts Regions.parts
  cases doc.regions with
  | nil => simp
  | cons entry others => simp

theorem Marked.looks {regions : Regions} (marked : regions.Marked IsMarker) : regions.Marked Looks := by
  intro entry mem
  have own := marked entry mem
  exact ⟨looks_of_isMarker own.opening, fun base isBase => looks_of_isMarker (own.base base isBase),
    looks_of_isMarker own.separator, looks_of_isMarker own.closing⟩

theorem Document.Assembled.conflictSuggestions {doc : Document} (assembled : doc.Assembled)
    (parsers : Parsers) (containing_dir : Text) :
    conflictSuggestions parsers doc.text containing_dir =
      (read (.plain []) doc.lines).bind fun parts =>
        if 1 < parts.length then some (nodesOf parsers containing_dir .head parts) else none := by
  unfold text
  rw [conflictSuggestions_eq, splitInclusive_flatten assembled.lined]

theorem closed_collapses_iff {doc : Document} (assembled : doc.Assembled) (closed : doc.Closed) :
    doc.Collapses ↔ doc.Clear := by
  have code := assembled.conflictSuggestions
  have isLines : doc.lines = doc.head ++ doc.regions.lines := by
    unfold Document.lines
    rw [closed.1]
    exact List.append_nil _
  have marked := Marked.looks assembled.regions
  unfold Document.Collapses Document.suggestions?
  simp only [if_pos closed]
  constructor
  · intro collapses
    have same := collapses quoting []
    rw [code] at same
    rcases Option.bind_eq_some_iff.mp same with ⟨parts, isRead, isNodes⟩
    rw [isLines] at isRead
    split at isNodes
    · have clear := regions_clear marked isRead (Option.some.inj isNodes)
      exact ⟨clear.1, clear.2⟩
    · cases isNodes
  · intro clear parsers containing_dir
    have readable : doc.Readable := ⟨closed.1, marked, clear⟩
    rw [code, readable.read, Option.bind_some, if_pos (doc.length_parts.mpr closed.2)]

theorem open_collapses_iff {doc : Document} (assembled : doc.Assembled) (unclosed : ¬ doc.Closed) :
    doc.Collapses ↔ ¬ doc.Mistakable := by
  have code := assembled.conflictSuggestions
  unfold Document.Collapses Document.suggestions?
  simp only [if_neg unclosed]
  constructor
  · rintro collapses ⟨other, readable, some_, sameLines⟩
    have nothing := collapses quoting []
    rw [code, ← sameLines, readable.read, Option.bind_some, if_pos (other.length_parts.mpr some_)]
      at nothing
    cases nothing
  · intro unmistaken parsers containing_dir
    rw [code]
    cases isRead : read (.plain []) doc.lines with
    | none => rfl
    | some parts =>
      rw [Option.bind_some]
      apply if_neg
      intro longer
      rcases exists_document isRead with ⟨other, readable, sameLines, sameParts⟩
      rw [← sameParts] at longer
      exact unmistaken ⟨other, readable, other.length_parts.mp longer, sameLines⟩

/-- A document with a closed last region collapses to its segments, whatever the parser, exactly
when it is clear. Any other document is no conflict, exactly when its lines are not mistaken for
those of one. -/
theorem document_collapses_iff (doc : Document) (assembled : doc.Assembled) :
    doc.Collapses ↔ if doc.Closed then doc.Clear else ¬ doc.Mistakable := by
  split
  · rename_i closed
    exact closed_collapses_iff assembled closed
  · rename_i unclosed
    exact open_collapses_iff assembled unclosed

theorem lined_of_body {bodies : List Text} (whole : ∀ body ∈ bodies, '\n' ∉ body) :
    Lined (bodies.map (· ++ ['\n'])) := by
  induction bodies with
  | nil => trivial
  | cons body others ih =>
    have own := whole body List.mem_cons_self
    have later := ih fun other mem => whole other (List.mem_cons_of_mem _ mem)
    cases others with
    | nil =>
      refine ⟨List.append_ne_nil_of_right_ne_nil _ (List.cons_ne_nil _ _), ?_⟩
      intro front c isLine
      rw [← (List.append_inj' isLine rfl).1]
      exact own
    | cons next rest => exact ⟨⟨body, rfl, own⟩, later⟩

def unmarked (line : Text) : Bool := ['<', '|', '=', '>'].all fun c => !decide (IsMarker c line)

theorem not_isMarker_of_all {lines : List Text} (all : lines.all unmarked = true) :
    ∀ line ∈ lines, ∀ c ∈ ['<', '|', '=', '>'], ¬ IsMarker c line := by
  intro line mem c isChar
  have own := List.all_eq_true.mp (List.all_eq_true.mp all line mem) c isChar
  simpa using own

/-- A conflict between one line and another, with text around it. -/
def plainConflict : Document where
  head := ["Title\n".toList]
  regions :=
    [(⟨"<<<<<<< HEAD\n".toList, ["Mine\n".toList], none, "=======\n".toList, ["Theirs\n".toList],
      ">>>>>>> origin/main\n".toList⟩, ["After\n".toList])]
  unfinished := none

/-- A conflict whose local side underlines its line. -/
def underlinedConflict : Document where
  head := []
  regions :=
    [(⟨"<<<<<<< HEAD\n".toList, ["Section\n".toList, "==========\n".toList, "Mine\n".toList], none,
      "=======\n".toList, ["Theirs\n".toList], ">>>>>>> origin/main\n".toList⟩, [])]
  unfinished := none

theorem plainConflict_assembled : plainConflict.Assembled where
  regions := by
    apply Regions.Marked.cons _ (List.forall_mem_nil _)
    exact ⟨by decide +kernel, (fun _ mem => by cases mem), by decide +kernel, by decide +kernel⟩
  unfinished := fun _ mem => by cases mem
  content := not_isMarker_of_all (by decide +kernel)
  lined := @lined_of_body ["Title".toList, "<<<<<<< HEAD".toList, "Mine".toList, "=======".toList,
    "Theirs".toList, ">>>>>>> origin/main".toList, "After".toList] (by decide +kernel)

theorem plainConflict_collapses : plainConflict.Collapses := by
  apply (document_collapses_iff plainConflict plainConflict_assembled).mpr
  rw [if_pos ⟨rfl, List.cons_ne_nil _ _⟩]
  refine ⟨by decide +kernel, List.forall_mem_singleton.mpr ⟨?_, by decide +kernel⟩⟩
  exact ⟨by decide +kernel, (fun _ mem => by cases mem), by decide +kernel⟩

theorem underlinedConflict_split : underlinedConflict.Assembled ∧ ¬ underlinedConflict.Collapses := by
  have assembled : underlinedConflict.Assembled := {
    regions := by
      apply Regions.Marked.cons _ (List.forall_mem_nil _)
      exact ⟨by decide +kernel, (fun _ mem => by cases mem), by decide +kernel, by decide +kernel⟩
    unfinished := fun _ mem => by cases mem
    content := not_isMarker_of_all (by decide +kernel)
    lined := @lined_of_body ["<<<<<<< HEAD".toList, "Section".toList, "==========".toList,
      "Mine".toList, "=======".toList, "Theirs".toList, ">>>>>>> origin/main".toList]
      (by decide +kernel) }
  refine ⟨assembled, ?_⟩
  rw [closed_collapses_iff assembled ⟨rfl, List.cons_ne_nil _ _⟩]
  intro clear
  have own := (List.forall_mem_singleton.mp clear.regions).1
  have underline := own.local_ "==========\n".toList (by decide +kernel)
  exact underline.2 (by decide +kernel)

end Burlmd.Workspace
