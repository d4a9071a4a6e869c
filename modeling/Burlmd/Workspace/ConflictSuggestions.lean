import Mathlib.Data.List.TakeWhile
import Burlmd.Library.Lines
import Burlmd.Markdown.Parser

/-!
# Collapsing a conflicted Note

The scan goes line by line through four sections, from one marker to the next. A line is taken
for a marker as soon as it starts with seven of its characters.
-/

namespace Burlmd.Workspace

open Lines
open Markdown
open Utf8 (Text)

inductive Collapse.Section where
  | plain
  | local_
  | base
  | incoming
  deriving DecidableEq, Repr

/-- Where a segment sits in the document: only at its head is there frontmatter. -/
inductive Collapse.Segment where
  | head
  | interior
  deriving DecidableEq, Repr

open Collapse (Section Segment)

/-- The event streams of the Markdown parser, with and without the metadata option. -/
abbrev Parsers := Segment → ∀ source : Text, EventStream source

def parseMarkdownSegment (parsers : Parsers) (source containing_dir : Text) (segment : Segment) :
    List AstNode :=
  if trim source = [] then []
  else (parseNote source containing_dir (parsers segment source).events).ast

def marker (c : Char) : Text := List.replicate 7 c

def trimEnd (line : Text) : Text := (line.reverse.dropWhile fun c => c = '\n' || c = '\r').reverse

structure Collapse where
  nodes : List AstNode
  plain : Text
  local_ : Text
  base : Option Text
  incoming : Text
  section_ : Section
  saw_conflict : Bool

namespace Collapse

def initial : Collapse := ⟨[], [], [], none, [], .plain, false⟩

def segment (st : Collapse) : Segment := if st.saw_conflict then .interior else .head

variable (parsers : Parsers) (containing_dir : Text)

def suggestion (local_ : Text) (base : Option Text) (incoming : Text) : AstNode :=
  .suggestion (base.map fun text => parseMarkdownSegment parsers text containing_dir .interior)
    (parseMarkdownSegment parsers local_ containing_dir .interior)
    (parseMarkdownSegment parsers incoming containing_dir .interior)

def step (st : Collapse) (line : Text) : Collapse :=
  let trimmed := trimEnd line
  match st.section_ with
  | .plain =>
      if (marker '<').isPrefixOf trimmed then
        { nodes := st.nodes ++ parseMarkdownSegment parsers st.plain containing_dir st.segment
          plain := []
          local_ := []
          base := none
          incoming := []
          section_ := .local_
          saw_conflict := true }
      else { st with plain := st.plain ++ line }
  | .local_ =>
      if (marker '|').isPrefixOf trimmed then { st with base := some [], section_ := .base }
      else if (marker '=').isPrefixOf trimmed then { st with section_ := .incoming }
      else { st with local_ := st.local_ ++ line }
  | .base =>
      if (marker '=').isPrefixOf trimmed then { st with section_ := .incoming }
      else { st with base := st.base.map (· ++ line) }
  | .incoming =>
      if (marker '>').isPrefixOf trimmed then
        { st with
          nodes := st.nodes ++ [suggestion parsers containing_dir st.local_ st.base st.incoming]
          base := none
          section_ := .plain }
      else { st with incoming := st.incoming ++ line }

def finish (st : Collapse) : Option (List AstNode) :=
  if !st.saw_conflict || st.section_ ≠ .plain then none
  else some (st.nodes ++ parseMarkdownSegment parsers st.plain containing_dir .interior)

end Collapse

def conflictSuggestions (parsers : Parsers) (source containing_dir : Text) : Option (List AstNode) :=
  if ¬ marker '<' <+: source ∧ ¬ '\n' :: marker '<' <:+: source then none
  else
    ((splitInclusive source).foldl (Collapse.step parsers containing_dir) .initial).finish parsers
      containing_dir

/-! ## What the scan reads -/

/-- A line that the scan takes for a marker, where it looks for one. -/
def Looks (c : Char) (line : Text) : Prop := marker c <+: line

instance (c : Char) (line : Text) : Decidable (Looks c line) := inferInstanceAs (Decidable (_ <+: _))

/-- The line endings at the end of a line are none of its marker. -/
theorem isPrefixOf_trimEnd {c : Char} (other : c ≠ '\n' ∧ c ≠ '\r') (line : Text) :
    (marker c).isPrefixOf (trimEnd line) = true ↔ Looks c line := by
  rw [List.isPrefixOf_iff_prefix]
  have split : line = trimEnd line ++ (line.reverse.takeWhile fun c => c = '\n' || c = '\r').reverse := by
    unfold trimEnd
    rw [← List.reverse_append, List.takeWhile_append_dropWhile, List.reverse_reverse]
  have ending : ∀ d ∈ (line.reverse.takeWhile fun c => c = '\n' || c = '\r').reverse,
      d = '\n' ∨ d = '\r' := by
    intro d mem
    have holds := List.mem_takeWhile_imp (List.mem_reverse.mp mem)
    simpa using holds
  constructor
  · intro starts
    rw [Looks, split]
    exact starts.trans (List.prefix_append _ _)
  · intro starts
    rw [Looks, split] at starts
    rcases List.prefix_or_prefix_of_prefix starts (List.prefix_append _ _) with inside | shorter
    · exact inside
    · rcases shorter with ⟨rest, isMarker⟩
      rw [← isMarker, List.prefix_append_right_inj] at starts
      cases rest with
      | nil =>
        rw [List.append_nil] at isMarker
        rw [isMarker]
      | cons d others =>
        have isChar : d = c := by
          apply List.eq_of_mem_replicate
          rw [show List.replicate 7 c = marker c from rfl, ← isMarker]
          exact List.mem_append_right _ List.mem_cons_self
        rcases ending d (starts.subset List.mem_cons_self) with newline | carriage
        · exact absurd (isChar.symm.trans newline) other.1
        · exact absurd (isChar.symm.trans carriage) other.2

/-- What the scan is about to read, with the text of the segments so far. -/
inductive Reading where
  | plain (text : Text)
  | local_ (text : Text)
  | base (local_ text : Text)
  | incoming (local_ : Text) (base : Option Text) (text : Text)

/-- The texts of a conflicted Note. -/
inductive Part where
  | plain (text : Text)
  | region (local_ : Text) (base : Option Text) (incoming : Text)
  deriving DecidableEq, Repr

/-- The parts of the lines that are left; none for a region that nothing closes. -/
def read : Reading → List Text → Option (List Part)
  | .plain text, [] => some [.plain text]
  | _, [] => none
  | .plain text, line :: rest =>
      if Looks '<' line then (read (.local_ []) rest).map (.plain text :: ·)
      else read (.plain (text ++ line)) rest
  | .local_ text, line :: rest =>
      if Looks '|' line then read (.base text []) rest
      else if Looks '=' line then read (.incoming text none []) rest
      else read (.local_ (text ++ line)) rest
  | .base local_ text, line :: rest =>
      if Looks '=' line then read (.incoming local_ (some text) []) rest
      else read (.base local_ (text ++ line)) rest
  | .incoming local_ base text, line :: rest =>
      if Looks '>' line then (read (.plain []) rest).map (.region local_ base text :: ·)
      else read (.incoming local_ base (text ++ line)) rest

/-- The blocks of the parts, from a segment on. -/
def nodesOf (parsers : Parsers) (containing_dir : Text) : Segment → List Part → List AstNode
  | _, [] => []
  | segment, .plain text :: rest =>
      parseMarkdownSegment parsers text containing_dir segment ++
        nodesOf parsers containing_dir .interior rest
  | _, .region local_ base incoming :: rest =>
      Collapse.suggestion parsers containing_dir local_ base incoming ::
        nodesOf parsers containing_dir .interior rest

/-! ## The scan reads the parts -/

namespace Collapse

/-- What a state of the scan is about to read. -/
def reading (st : Collapse) : Reading :=
  match st.section_ with
  | .plain => .plain st.plain
  | .local_ => .local_ st.local_
  | .base => .base st.local_ (st.base.getD [])
  | .incoming => .incoming st.local_ st.base st.incoming

/-- The sections of a region start empty. -/
def Sound (st : Collapse) : Prop :=
  match st.section_ with
  | .plain => True
  | .local_ => st.saw_conflict = true ∧ st.plain = [] ∧ st.base = none ∧ st.incoming = []
  | .base => st.saw_conflict = true ∧ st.plain = [] ∧ st.base ≠ none ∧ st.incoming = []
  | .incoming => st.saw_conflict = true ∧ st.plain = []

/-- What the parts of a reading amount to behind the nodes that are there. -/
def collapsed (parsers : Parsers) (containing_dir : Text) (st : Collapse) (parts : List Part) :
    Option (List AstNode) :=
  if st.saw_conflict = true ∨ 1 < parts.length then
    some (st.nodes ++ nodesOf parsers containing_dir st.segment parts)
  else none

variable {parsers : Parsers} {containing_dir : Text}

theorem length_read {reading : Reading} {lines : List Text} {parts : List Part}
    (isRead : read reading lines = some parts) : 0 < parts.length := by
  induction lines generalizing reading parts with
  | nil =>
    cases reading with
    | plain text =>
      cases isRead
      exact Nat.zero_lt_one
    | local_ text => cases isRead
    | base local_ text => cases isRead
    | incoming local_ base text => cases isRead
  | cons line rest ih =>
    cases reading with
    | plain text =>
      rw [read] at isRead
      split at isRead
      · rcases Option.map_eq_some_iff.mp isRead with ⟨_, -, same⟩
        rw [← same]
        exact Nat.succ_pos _
      · exact ih isRead
    | local_ text =>
      rw [read] at isRead
      split at isRead
      · exact ih isRead
      · split at isRead
        · exact ih isRead
        · exact ih isRead
    | base local_ text =>
      rw [read] at isRead
      split at isRead
      · exact ih isRead
      · exact ih isRead
    | incoming local_ base text =>
      rw [read] at isRead
      split at isRead
      · rcases Option.map_eq_some_iff.mp isRead with ⟨_, -, same⟩
        rw [← same]
        exact Nat.succ_pos _
      · exact ih isRead

theorem step_plain {st : Collapse} (isPlain : st.section_ = .plain) (line : Text) :
    step parsers containing_dir st line =
      if Looks '<' line then
        ⟨st.nodes ++ parseMarkdownSegment parsers st.plain containing_dir st.segment, [], [], none, [],
          .local_, true⟩
      else { st with plain := st.plain ++ line } := by
  have looks := @isPrefixOf_trimEnd '<' (by decide) line
  unfold step
  simp only [isPlain, looks]

theorem step_local {st : Collapse} (isLocal : st.section_ = .local_) (line : Text) :
    step parsers containing_dir st line =
      if Looks '|' line then { st with base := some [], section_ := .base }
      else if Looks '=' line then { st with section_ := .incoming }
      else { st with local_ := st.local_ ++ line } := by
  have bar := @isPrefixOf_trimEnd '|' (by decide) line
  have equals := @isPrefixOf_trimEnd '=' (by decide) line
  unfold step
  simp only [isLocal, bar, equals]

theorem step_base {st : Collapse} (isBase : st.section_ = .base) (line : Text) :
    step parsers containing_dir st line =
      if Looks '=' line then { st with section_ := .incoming }
      else { st with base := st.base.map (· ++ line) } := by
  have equals := @isPrefixOf_trimEnd '=' (by decide) line
  unfold step
  simp only [isBase, equals]

theorem step_incoming {st : Collapse} (isIncoming : st.section_ = .incoming) (line : Text) :
    step parsers containing_dir st line =
      if Looks '>' line then
        { st with
          nodes := st.nodes ++ [suggestion parsers containing_dir st.local_ st.base st.incoming]
          base := none
          section_ := .plain }
      else { st with incoming := st.incoming ++ line } := by
  have closes := @isPrefixOf_trimEnd '>' (by decide) line
  unfold step
  simp only [isIncoming, closes]

/-- The scan of the lines that are left gives the blocks of their parts. -/
theorem finish_foldl {st : Collapse} (sound : st.Sound) (lines : List Text) :
    (lines.foldl (step parsers containing_dir) st).finish parsers containing_dir =
      (read st.reading lines).bind (collapsed parsers containing_dir st) := by
  induction lines generalizing st with
  | nil =>
    unfold finish reading
    rw [List.foldl_nil]
    cases isSection : st.section_ with
    | plain =>
      cases saw : st.saw_conflict <;> simp [read, collapsed, nodesOf, segment, saw]
    | local_ => simp [read]
    | base => simp [read]
    | incoming => simp [read]
  | cons line rest ih =>
    rcases st with ⟨nodes, plain, local_, base, incoming, section_, saw⟩
    rw [List.foldl_cons]
    cases section_ with
    | plain =>
      rw [step_plain rfl]
      split
      · rename_i looks
        have opened : Sound ⟨nodes ++ parseMarkdownSegment parsers plain containing_dir
            (segment ⟨nodes, plain, local_, base, incoming, .plain, saw⟩), [], [], none, [],
            .local_, true⟩ := ⟨rfl, rfl, rfl, rfl⟩
        rw [ih opened]
        have here : read (.plain plain) (line :: rest) =
            (read (.local_ []) rest).map (.plain plain :: ·) := if_pos looks
        simp only [reading, here]
        cases isRead : read (.local_ []) rest with
        | none => rfl
        | some parts =>
          have more := length_read isRead
          have two : 1 < (Part.plain plain :: parts).length := Nat.succ_lt_succ more
          simp only [Option.map_some, Option.bind_some, collapsed, two, or_true, true_or, if_true,
            nodesOf, List.append_assoc]
          rfl
      · rename_i plainLine
        have onward : Sound ⟨nodes, plain ++ line, local_, base, incoming, .plain, saw⟩ := trivial
        rw [ih onward]
        have here : read (.plain plain) (line :: rest) = read (.plain (plain ++ line)) rest :=
          if_neg plainLine
        simp only [reading, here]
        rfl
    | local_ =>
      rcases sound with ⟨isSaw, isPlain, isBase, isIncoming⟩
      dsimp only at isSaw isPlain isBase isIncoming
      subst isSaw isPlain isBase isIncoming
      rw [step_local rfl]
      split
      · rename_i bar
        have onward : Sound ⟨nodes, [], local_, some [], [], .base, true⟩ :=
          ⟨rfl, rfl, Option.some_ne_none _, rfl⟩
        rw [ih onward]
        have here : read (.local_ local_) (line :: rest) = read (.base local_ []) rest := if_pos bar
        simp only [reading, here]
        rfl
      · rename_i noBar
        split
        · rename_i equals
          have onward : Sound ⟨nodes, [], local_, none, [], .incoming, true⟩ :=
            ⟨rfl, rfl⟩
          rw [ih onward]
          have here : read (.local_ local_) (line :: rest) = read (.incoming local_ none []) rest :=
            (if_neg noBar).trans (if_pos equals)
          simp only [reading, here]
          rfl
        · rename_i noEquals
          have onward : Sound ⟨nodes, [], local_ ++ line, none, [], .local_, true⟩ :=
            ⟨rfl, rfl, rfl, rfl⟩
          rw [ih onward]
          have here : read (.local_ local_) (line :: rest) = read (.local_ (local_ ++ line)) rest :=
            (if_neg noBar).trans (if_neg noEquals)
          simp only [reading, here]
          rfl
    | base =>
      rcases sound with ⟨isSaw, isPlain, isBase, isIncoming⟩
      dsimp only at isSaw isPlain isBase isIncoming
      subst isSaw isPlain isIncoming
      rcases Option.ne_none_iff_exists'.mp isBase with ⟨text, isText⟩
      subst isText
      rw [step_base rfl]
      split
      · rename_i equals
        have onward : Sound ⟨nodes, [], local_, some text, [], .incoming, true⟩ :=
          ⟨rfl, rfl⟩
        rw [ih onward]
        have here : read (.base local_ text) (line :: rest) =
            read (.incoming local_ (some text) []) rest := if_pos equals
        simp only [reading, Option.getD_some, here]
        rfl
      · rename_i noEquals
        have onward : Sound ⟨nodes, [], local_, some (text ++ line), [], .base, true⟩ :=
          ⟨rfl, rfl, Option.some_ne_none _, rfl⟩
        simp only [Option.map_some]
        rw [ih onward]
        have here : read (.base local_ text) (line :: rest) =
            read (.base local_ (text ++ line)) rest := if_neg noEquals
        simp only [reading, Option.getD_some, here]
        rfl
    | incoming =>
      rcases sound with ⟨isSaw, isPlain⟩
      dsimp only at isSaw isPlain
      subst isSaw isPlain
      rw [step_incoming rfl]
      split
      · rename_i closes
        have onward : Sound ⟨nodes ++ [suggestion parsers containing_dir local_ base incoming], [],
            local_, none, incoming, .plain, true⟩ := trivial
        rw [ih onward]
        have here : read (.incoming local_ base incoming) (line :: rest) =
            (read (.plain []) rest).map (.region local_ base incoming :: ·) := if_pos closes
        simp only [reading, here]
        cases read (.plain []) rest with
        | none => rfl
        | some parts =>
          simp only [Option.map_some, Option.bind_some, collapsed, true_or, if_true, nodesOf, segment,
            List.append_assoc]
          rfl
      · rename_i open_
        have onward : Sound ⟨nodes, [], local_, base, incoming ++ line, .incoming, true⟩ :=
          ⟨rfl, rfl⟩
        rw [ih onward]
        have here : read (.incoming local_ base incoming) (line :: rest) =
            read (.incoming local_ base (incoming ++ line)) rest := if_neg open_
        simp only [reading, here]
        rfl

end Collapse

theorem read_plain_whole {text : Text} {lines : List Text}
    (whole : ∀ line ∈ lines, ¬ Looks '<' line) :
    read (.plain text) lines = some [.plain (text ++ lines.flatten)] := by
  induction lines generalizing text with
  | nil => rw [read, List.flatten_nil, List.append_nil]
  | cons line rest ih =>
    have here : read (.plain text) (line :: rest) = read (.plain (text ++ line)) rest :=
      if_neg (whole line List.mem_cons_self)
    rw [here, ih fun other mem => whole other (List.mem_cons_of_mem _ mem), List.flatten_cons,
      List.append_assoc]

/-- The code is a scan for the parts, with the parser over each of them. -/
theorem conflictSuggestions_eq (parsers : Parsers) (source containing_dir : Text) :
    conflictSuggestions parsers source containing_dir =
      (read (.plain []) (splitInclusive source)).bind fun parts =>
        if 1 < parts.length then some (nodesOf parsers containing_dir .head parts) else none := by
  unfold conflictSuggestions
  split
  · rename_i absent
    have whole : ∀ line ∈ splitInclusive source, ¬ Looks '<' line := by
      intro line mem looks
      rcases starts_of_mem mem looks with first | behind
      · exact absent.1 first
      · exact absent.2 behind
    rw [read_plain_whole whole]
    rfl
  · have start : Collapse.Sound .initial := trivial
    rw [Collapse.finish_foldl start]
    congr 1
    funext parts
    simp [Collapse.collapsed, Collapse.initial, Collapse.segment]

end Burlmd.Workspace
