import Burlmd.Workspace.ConflictSuggestions

/-!
# Documents with conflicts

A merge leaves plain lines and regions between marker lines of exactly seven characters. The
collapse gives back these segments where no line of a segment starts like the marker that ends
it.
-/

namespace Burlmd.Workspace

open Lines
open Markdown
open Utf8 (Text)

structure Region where
  opening : Text
  local_ : List Text
  /-- The marker of the base, if the merge writes it, and its lines. -/
  base : Option (Text × List Text)
  separator : Text
  incoming : List Text
  closing : Text

namespace Region

variable (region : Region)

def baseLines : List Text :=
  match region.base with
  | none => []
  | some base => base.1 :: base.2

/-- The lines behind the opening marker. -/
def inner : List Text :=
  region.local_ ++ region.baseLines ++ region.separator :: region.incoming ++ [region.closing]

def lines : List Text := region.opening :: region.inner

def content : List Text :=
  region.local_ ++ (region.base.elim [] Prod.snd) ++ region.incoming

structure Marked (is_ : Char → Text → Prop) : Prop where
  opening : is_ '<' region.opening
  base : ∀ base ∈ region.base, is_ '|' base.1
  separator : is_ '=' region.separator
  closing : is_ '>' region.closing

/-- No line of a section starts like a marker that would end it. -/
structure Clear : Prop where
  local_ : ∀ line ∈ region.local_, ¬ Looks '|' line ∧ ¬ Looks '=' line
  base : ∀ base ∈ region.base, ∀ line ∈ base.2, ¬ Looks '=' line
  incoming : ∀ line ∈ region.incoming, ¬ Looks '>' line

def part : Part :=
  .region region.local_.flatten (region.base.map fun base => base.2.flatten) region.incoming.flatten

end Region

/-- A last region that nothing closes, in the section in which the document ends. -/
inductive Unfinished where
  | local_ (opening : Text) (lines : List Text)
  | base (opening : Text) (local_ : List Text) (bar : Text) (lines : List Text)
  | incoming (opening : Text) (local_ : List Text) (base : Option (Text × List Text))
      (separator : Text) (lines : List Text)

namespace Unfinished

def lines : Unfinished → List Text
  | .local_ opening lines => opening :: lines
  | .base opening ours bar lines => opening :: ours ++ bar :: lines
  | .incoming opening ours old separator lines =>
      opening :: ours ++ (old.elim [] fun base => base.1 :: base.2) ++ separator :: lines

def content : Unfinished → List Text
  | .local_ _ lines => lines
  | .base _ ours _ lines => ours ++ lines
  | .incoming _ ours old _ lines => ours ++ old.elim [] Prod.snd ++ lines

def Marked (is_ : Char → Text → Prop) : Unfinished → Prop
  | .local_ opening _ => is_ '<' opening
  | .base opening _ bar _ => is_ '<' opening ∧ is_ '|' bar
  | .incoming opening _ old separator _ =>
      is_ '<' opening ∧ (∀ base ∈ old, is_ '|' base.1) ∧ is_ '=' separator

end Unfinished

/-- Regions with the plain lines behind each. -/
abbrev Regions := List (Region × List Text)

def Regions.lines (regions : Regions) : List Text := regions.flatMap fun entry => entry.1.lines ++ entry.2

def Regions.parts (regions : Regions) : List Part :=
  regions.flatMap fun entry => [entry.1.part, .plain entry.2.flatten]

def Regions.Clear (regions : Regions) : Prop :=
  ∀ entry ∈ regions, entry.1.Clear ∧ ∀ line ∈ entry.2, ¬ Looks '<' line

def Regions.Marked (is_ : Char → Text → Prop) (regions : Regions) : Prop :=
  ∀ entry ∈ regions, entry.1.Marked is_

theorem Regions.Marked.cons {is_ : Char → Text → Prop} {region : Region} {after : List Text}
    {regions : Regions} (own : region.Marked is_) (later : regions.Marked is_) :
    Regions.Marked is_ ((region, after) :: regions) :=
  List.forall_mem_cons.mpr ⟨own, later⟩

theorem Regions.Clear.cons {region : Region} {after : List Text} {regions : Regions}
    (own : region.Clear) (plain : ∀ line ∈ after, ¬ Looks '<' line) (later : regions.Clear) :
    Regions.Clear ((region, after) :: regions) :=
  List.forall_mem_cons.mpr ⟨⟨own, plain⟩, later⟩

structure Document where
  head : List Text
  regions : Regions
  unfinished : Option Unfinished

namespace Document

variable (doc : Document)

def lines : List Text :=
  doc.head ++ doc.regions.lines ++ doc.unfinished.elim [] Unfinished.lines

def text : Text := doc.lines.flatten

def content : List Text :=
  doc.head ++ doc.regions.flatMap (fun entry => entry.1.content ++ entry.2) ++
    doc.unfinished.elim [] Unfinished.content

def parts : List Part := .plain doc.head.flatten :: doc.regions.parts

/-- There is a region, and the last one is closed. -/
def Closed : Prop := doc.unfinished = none ∧ doc.regions ≠ []

instance : Decidable doc.Closed := by
  unfold Closed
  cases doc.unfinished <;> cases doc.regions <;> simp <;> infer_instance

end Document

/-- Exactly seven characters, alone or followed by a space and a label. -/
def IsMarker (c : Char) (line : Text) : Prop :=
  trimEnd line = marker c ∨ marker c ++ [' '] <+: trimEnd line

instance (c : Char) (line : Text) : Decidable (IsMarker c line) :=
  inferInstanceAs (Decidable (_ ∨ _))

/-- A document as a merge writes it. -/
structure Document.Assembled (doc : Document) : Prop where
  regions : doc.regions.Marked IsMarker
  unfinished : ∀ last ∈ doc.unfinished, last.Marked IsMarker
  content : ∀ line ∈ doc.content, ∀ c ∈ ['<', '|', '=', '>'], ¬ IsMarker c line
  lined : Lined doc.lines

/-- No line of a segment starts like the marker that ends its section. -/
structure Document.Clear (doc : Document) : Prop where
  head : ∀ line ∈ doc.head, ¬ Looks '<' line
  regions : doc.regions.Clear

/-- A document whose marker lines only start like one, and that is read as it is. -/
structure Document.Readable (doc : Document) : Prop where
  whole : doc.unfinished = none
  marked : doc.regions.Marked Looks
  clear : doc.Clear

/-- What a merge of the same segments is to be collapsed to. -/
def Document.suggestions? (doc : Document) (parsers : Parsers) (containing_dir : Text) :
    Option (List AstNode) :=
  if doc.Closed then some (nodesOf parsers containing_dir .head doc.parts) else none

def Document.Collapses (doc : Document) : Prop :=
  ∀ parsers containing_dir,
    conflictSuggestions parsers doc.text containing_dir = doc.suggestions? parsers containing_dir

/-! ## A clear document is read as it is -/

theorem looks_of_isMarker {c : Char} {line : Text} (isMarker : IsMarker c line) : Looks c line := by
  have start : trimEnd line <+: line := by
    have split : line = trimEnd line ++
        (line.reverse.takeWhile fun c => c = '\n' || c = '\r').reverse := by
      unfold trimEnd
      rw [← List.reverse_append, List.takeWhile_append_dropWhile, List.reverse_reverse]
    exact ⟨_, split.symm⟩
  rcases isMarker with alone | labelled
  · rw [Looks, ← alone]
    exact start
  · exact (List.prefix_append _ _).trans (labelled.trans start)

theorem looks_apart {c d : Char} {line : Text} (looks : Looks c line) (other : c ≠ d) :
    ¬ Looks d line := by
  intro also
  rcases looks with ⟨rest, isLine⟩
  rcases also with ⟨rest', isLine'⟩
  have same := isLine.trans isLine'.symm
  exact other (List.cons.inj same).1

section Read

variable {text : Text} {lines rest : List Text}

theorem read_plain (clear : ∀ line ∈ lines, ¬ Looks '<' line) :
    read (.plain text) (lines ++ rest) = read (.plain (text ++ lines.flatten)) rest := by
  induction lines generalizing text with
  | nil => rw [List.nil_append, List.flatten_nil, List.append_nil]
  | cons line others ih =>
    have here : read (.plain text) (line :: (others ++ rest)) =
        read (.plain (text ++ line)) (others ++ rest) := if_neg (clear line List.mem_cons_self)
    rw [List.cons_append, here, ih fun other mem => clear other (List.mem_cons_of_mem _ mem),
      List.flatten_cons, List.append_assoc]

theorem read_local (clear : ∀ line ∈ lines, ¬ Looks '|' line ∧ ¬ Looks '=' line) :
    read (.local_ text) (lines ++ rest) = read (.local_ (text ++ lines.flatten)) rest := by
  induction lines generalizing text with
  | nil => rw [List.nil_append, List.flatten_nil, List.append_nil]
  | cons line others ih =>
    have own := clear line List.mem_cons_self
    have here : read (.local_ text) (line :: (others ++ rest)) =
        read (.local_ (text ++ line)) (others ++ rest) := (if_neg own.1).trans (if_neg own.2)
    rw [List.cons_append, here, ih fun other mem => clear other (List.mem_cons_of_mem _ mem),
      List.flatten_cons, List.append_assoc]

theorem read_base {local_ : Text} (clear : ∀ line ∈ lines, ¬ Looks '=' line) :
    read (.base local_ text) (lines ++ rest) = read (.base local_ (text ++ lines.flatten)) rest := by
  induction lines generalizing text with
  | nil => rw [List.nil_append, List.flatten_nil, List.append_nil]
  | cons line others ih =>
    have here : read (.base local_ text) (line :: (others ++ rest)) =
        read (.base local_ (text ++ line)) (others ++ rest) := if_neg (clear line List.mem_cons_self)
    rw [List.cons_append, here, ih fun other mem => clear other (List.mem_cons_of_mem _ mem),
      List.flatten_cons, List.append_assoc]

theorem read_incoming {local_ : Text} {base : Option Text} (clear : ∀ line ∈ lines, ¬ Looks '>' line) :
    read (.incoming local_ base text) (lines ++ rest) =
      read (.incoming local_ base (text ++ lines.flatten)) rest := by
  induction lines generalizing text with
  | nil => rw [List.nil_append, List.flatten_nil, List.append_nil]
  | cons line others ih =>
    have here : read (.incoming local_ base text) (line :: (others ++ rest)) =
        read (.incoming local_ base (text ++ line)) (others ++ rest) :=
      if_neg (clear line List.mem_cons_self)
    rw [List.cons_append, here, ih fun other mem => clear other (List.mem_cons_of_mem _ mem),
      List.flatten_cons, List.append_assoc]

theorem read_opening {line : Text} (looks : Looks '<' line) :
    read (.plain text) (line :: rest) = (read (.local_ []) rest).map (.plain text :: ·) :=
  if_pos looks

theorem read_bar {line : Text} (looks : Looks '|' line) :
    read (.local_ text) (line :: rest) = read (.base text []) rest :=
  if_pos looks

theorem read_separator {line : Text} (looks : Looks '=' line) :
    read (.local_ text) (line :: rest) = read (.incoming text none []) rest :=
  (if_neg (looks_apart looks (by decide))).trans (if_pos looks)

theorem read_base_separator {local_ line : Text} (looks : Looks '=' line) :
    read (.base local_ text) (line :: rest) = read (.incoming local_ (some text) []) rest :=
  if_pos looks

theorem read_closing {local_ line : Text} {base : Option Text} (looks : Looks '>' line) :
    read (.incoming local_ base text) (line :: rest) =
      (read (.plain []) rest).map (.region local_ base text :: ·) :=
  if_pos looks

theorem read_region {region : Region} (marked : region.Marked Looks) (clear : region.Clear) :
    read (.local_ []) (region.inner ++ rest) = (read (.plain []) rest).map (region.part :: ·) := by
  unfold Region.inner Region.part
  rw [List.append_assoc, List.append_assoc, List.append_assoc, read_local clear.local_,
    List.nil_append, List.cons_append]
  unfold Region.baseLines
  cases isBase : region.base with
  | none =>
    dsimp only
    rw [List.nil_append, read_separator marked.separator, read_incoming clear.incoming,
      List.nil_append, List.singleton_append, read_closing marked.closing]
    rfl
  | some base =>
    dsimp only
    rw [List.cons_append, read_bar (marked.base base isBase), read_base (clear.base base isBase),
      List.nil_append, read_base_separator marked.separator, read_incoming clear.incoming,
      List.nil_append, List.singleton_append, read_closing marked.closing]
    rfl

theorem read_regions {regions : Regions} (marked : regions.Marked Looks) (clear : regions.Clear)
    (before : Text) :
    read (.plain before) regions.lines = some (.plain before :: regions.parts) := by
  induction regions generalizing before with
  | nil => rfl
  | cons entry others ih =>
    rcases entry with ⟨region, after⟩
    have own := clear _ List.mem_cons_self
    have isMarked := marked _ List.mem_cons_self
    have later := ih (fun entry mem => marked entry (List.mem_cons_of_mem _ mem))
      (fun entry mem => clear entry (List.mem_cons_of_mem _ mem)) after.flatten
    have isLines : Regions.lines ((region, after) :: others) =
        region.opening :: (region.inner ++ (after ++ Regions.lines others)) := by
      simp [Regions.lines, Region.lines]
    rw [isLines, read_opening isMarked.opening, read_region isMarked own.1, read_plain own.2,
      List.nil_append, later]
    rfl

end Read

theorem Document.Readable.read {doc : Document} (readable : doc.Readable) :
    read (.plain []) doc.lines = some doc.parts := by
  unfold lines parts
  rw [readable.whole, Option.elim_none, List.append_nil, read_plain readable.clear.head,
    List.nil_append, read_regions readable.marked readable.clear.regions]

/-! ## What is read is a readable document -/

/-- The lines that a reading takes to the end, split as it takes them. -/
def Splits (lines : List Text) : Reading → Prop
  | .plain _ => ∃ head regions, lines = head ++ Regions.lines regions ∧
      Document.Readable ⟨head, regions, none⟩
  | .local_ _ => ∃ (region : Region) (rest : List Text), lines = region.inner ++ rest ∧ region.Marked Looks ∧ region.Clear ∧
      Splits.behind rest
  | .base _ _ => ∃ old separator theirs closing rest,
      lines = old ++ separator :: (theirs ++ closing :: rest) ∧ (∀ line ∈ old, ¬ Looks '=' line) ∧
      Looks '=' separator ∧ (∀ line ∈ theirs, ¬ Looks '>' line) ∧ Looks '>' closing ∧
      Splits.behind rest
  | .incoming _ _ _ => ∃ theirs closing rest, lines = theirs ++ closing :: rest ∧
      (∀ line ∈ theirs, ¬ Looks '>' line) ∧ Looks '>' closing ∧ Splits.behind rest
where
  behind (rest : List Text) : Prop :=
    ∃ head regions, rest = head ++ Regions.lines regions ∧ Document.Readable ⟨head, regions, none⟩

theorem splits_of_read {reading : Reading} {lines : List Text} {parts : List Part}
    (isRead : read reading lines = some parts) : Splits lines reading := by
  induction lines generalizing reading parts with
  | nil =>
    cases reading with
    | plain text =>
      exact ⟨[], [], rfl, rfl, List.forall_mem_nil _, List.forall_mem_nil _,
        List.forall_mem_nil _⟩
    | local_ text => cases isRead
    | base mine text => cases isRead
    | incoming mine old text => cases isRead
  | cons line others ih =>
    cases reading with
    | plain text =>
      rw [read] at isRead
      split at isRead
      · rename_i opens
        rcases Option.map_eq_some_iff.mp isRead with ⟨later, isLater, -⟩
        rcases ih isLater with ⟨region, rest, isLines, marked, clear, head, regions, isRest, behind⟩
        refine ⟨[], ({ region with opening := line }, head) :: regions, ?_, rfl, ?_, ?_, ?_⟩
        · simp [isLines, isRest, Regions.lines, Region.lines, Region.inner, Region.baseLines]
        · exact .cons ⟨opens, marked.base, marked.separator, marked.closing⟩ behind.marked
        · exact List.forall_mem_nil _
        · exact .cons ⟨clear.local_, clear.base, clear.incoming⟩ behind.clear.head
            behind.clear.regions
      · rename_i plain
        rcases ih isRead with ⟨head, regions, isLines, behind⟩
        refine ⟨line :: head, regions, ?_, rfl, behind.marked, ?_, behind.clear.regions⟩
        · rw [isLines]
          rfl
        · exact List.forall_mem_cons.mpr ⟨plain, behind.clear.head⟩
    | local_ text =>
      rw [read] at isRead
      split at isRead
      · rename_i bar
        rcases ih isRead with ⟨old, separator, theirs, closing, rest, isLines, isOld, equals,
          isTheirs, closes, behind⟩
        refine ⟨⟨marker '<', [], some (line, old), separator, theirs, closing⟩, rest, ?_,
          ⟨List.prefix_rfl, ?_, equals, closes⟩, ⟨List.forall_mem_nil _, ?_, isTheirs⟩, behind⟩
        · simp [isLines, Region.inner, Region.baseLines]
        · intro base mem
          cases mem
          exact bar
        · intro base mem
          cases mem
          exact isOld
      · rename_i noBar
        split at isRead
        · rename_i equals
          rcases ih isRead with ⟨theirs, closing, rest, isLines, isTheirs, closes, behind⟩
          refine ⟨⟨marker '<', [], none, line, theirs, closing⟩, rest, ?_,
            ⟨List.prefix_rfl, (fun _ mem => absurd mem (Option.not_mem_none _)), equals, closes⟩,
            ⟨List.forall_mem_nil _, (fun _ mem => absurd mem (Option.not_mem_none _)), isTheirs⟩,
            behind⟩
          simp [isLines, Region.inner, Region.baseLines]
        · rename_i noEquals
          rcases ih isRead with ⟨region, rest, isLines, marked, clear, behind⟩
          refine ⟨{ region with local_ := line :: region.local_ }, rest, ?_,
            ⟨marked.opening, marked.base, marked.separator, marked.closing⟩,
            ⟨List.forall_mem_cons.mpr ⟨⟨noBar, noEquals⟩, clear.local_⟩, clear.base, clear.incoming⟩,
            behind⟩
          rw [isLines]
          rfl
    | base mine text =>
      rw [read] at isRead
      split at isRead
      · rename_i equals
        rcases ih isRead with ⟨theirs, closing, rest, isLines, isTheirs, closes, behind⟩
        refine ⟨[], line, theirs, closing, rest, ?_, List.forall_mem_nil _, equals, isTheirs,
          closes, behind⟩
        rw [isLines]
        rfl
      · rename_i noEquals
        rcases ih isRead with ⟨old, separator, theirs, closing, rest, isLines, isOld, later⟩
        refine ⟨line :: old, separator, theirs, closing, rest, ?_,
          List.forall_mem_cons.mpr ⟨noEquals, isOld⟩, later⟩
        rw [isLines]
        rfl
    | incoming mine old text =>
      rw [read] at isRead
      split at isRead
      · rename_i closes
        rcases Option.map_eq_some_iff.mp isRead with ⟨later, isLater, -⟩
        exact ⟨[], line, others, rfl, List.forall_mem_nil _, closes, ih isLater⟩
      · rename_i open_
        rcases ih isRead with ⟨theirs, closing, rest, isLines, isTheirs, later⟩
        refine ⟨line :: theirs, closing, rest, ?_, List.forall_mem_cons.mpr ⟨open_, isTheirs⟩, later⟩
        rw [isLines]
        rfl

theorem exists_document {lines : List Text} {parts : List Part}
    (isRead : read (.plain []) lines = some parts) :
    ∃ doc : Document, doc.Readable ∧ doc.lines = lines ∧ doc.parts = parts := by
  rcases splits_of_read isRead with ⟨head, regions, isLines, readable⟩
  have same : Document.lines ⟨head, regions, none⟩ = lines := by
    rw [isLines]
    exact List.append_nil _
  refine ⟨_, readable, same, ?_⟩
  have again := readable.read
  rw [same, isRead] at again
  exact (Option.some.inj again).symm

end Burlmd.Workspace
