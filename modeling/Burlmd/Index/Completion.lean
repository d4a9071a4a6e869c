import Burlmd.Lifecycle.Names
import Burlmd.Okf.Label

/-!
# Link completions

A completion inserts a Link whose text is the title of its target. The text reads as the title
only where nothing in it is read as markup.
-/

namespace Burlmd.Index

open Workspace
open CommonMark
open Okf
open Lifecycle
open Segments
open Utf8 (Text)
open Markdown (isWhiteSpace)

def foldWhitespaceFrom : Bool → Text → Text
  | _, [] => []
  | in_whitespace, c :: rest =>
      if isWhiteSpace c then
        if in_whitespace then foldWhitespaceFrom true rest else ' ' :: foldWhitespaceFrom true rest
      else c :: foldWhitespaceFrom false rest

def foldWhitespace (text : Text) : Text := foldWhitespaceFrom false text

/-- A folded title is on one line. -/
theorem foldWhitespace_whole (text : Text) : ∀ c ∈ foldWhitespace text, isLineEnding c = false := by
  have from_ (in_whitespace : Bool) :
      ∀ c ∈ foldWhitespaceFrom in_whitespace text, isLineEnding c = false := by
    induction text generalizing in_whitespace with
    | nil =>
      intro c mem
      cases mem
    | cons d rest ih =>
      intro c mem
      unfold foldWhitespaceFrom at mem
      split at mem
      · split at mem
        · exact ih true c mem
        · rcases List.mem_cons.mp mem with same | later
          · rw [same]
            decide
          · exact ih true c later
      · rename_i other
        rcases List.mem_cons.mp mem with same | later
        · by_contra ending
          simp only [isLineEnding, Bool.not_eq_false, Bool.or_eq_true, decide_eq_true_eq] at ending
          apply other
          rw [← same]
          rcases ending with newline | carriage
          · rw [newline]
            decide
          · rw [carriage]
            decide
        · exact ih false c later
  exact from_ false

/-- A concept id of segments that the validator accepts. -/
structure Built (host : Host) (concept_id : ConceptId) : Prop where
  accepted : ∀ segment ∈ concept_id.splitOn slash, validateSegment host segment = .ok ()

section Built

variable {host : Host} {concept_id : ConceptId} (built : Built host concept_id)

include built

theorem Built.plain : ∀ segment ∈ concept_id.splitOn slash, PlainSegment segment := by
  intro segment mem
  have valid := validateSegment_iff.mp (built.accepted segment mem)
  exact plainSegment_of_visible valid.ne_nil valid.visible

theorem Built.carried : Carried concept_id := by
  have segment {c : Char} (other : c ≠ slash) (mem : c ∈ concept_id) :
      ∃ segment, ValidSegment segment ∧ c ∈ segment := by
    rcases (mem_or_exists_of_mem mem).resolve_left other with
      ⟨segment, there, inside⟩
    exact ⟨segment, validateSegment_iff.mp (built.accepted segment there), inside⟩
  refine ⟨?_, ?_, ?_, ?_⟩
  · intro mem
    rcases segment (by decide) mem with ⟨_, valid, inside⟩
    exact valid.carried.1 inside
  · intro mem
    rcases segment (by decide) mem with ⟨_, valid, inside⟩
    exact valid.carried.2.1 inside
  · intro mem
    rcases segment (by decide) mem with ⟨_, valid, inside⟩
    exact valid.carried.2.2.1 inside
  · intro mem
    rcases segment (by decide) mem with ⟨_, valid, inside⟩
    exact valid.carried.2.2.2 inside

theorem Built.whole : ∀ c ∈ concept_id, isLineEnding c = false := by
  intro c mem
  by_contra ending
  simp only [isLineEnding, Bool.not_eq_false, Bool.or_eq_true, decide_eq_true_eq] at ending
  rcases ending with newline | carriage
  · rw [newline] at mem
    exact built.carried.2.2.1 mem
  · rw [carriage] at mem
    exact built.carried.2.2.2 mem

end Built

/-- A link on a line of its own. -/
theorem serializeLink_whole {title : Text} {concept_id : ConceptId}
    (ofTitle : ∀ c ∈ title, isLineEnding c = false)
    (ofId : ∀ c ∈ concept_id, isLineEnding c = false) :
    ∀ c ∈ serializeLink title concept_id, isLineEnding c = false := by
  have escaped {special : Char → Bool} {text : Text} (whole : ∀ c ∈ text, isLineEnding c = false) :
      ∀ c ∈ escape special text, isLineEnding c = false := by
    intro c mem
    rcases List.mem_flatMap.mp mem with ⟨d, inside, isPart⟩
    split at isPart
    · rcases List.mem_cons.mp isPart with same | other
      · rw [same]
        decide
      · rw [List.mem_singleton.mp other]
        exact whole d inside
    · rw [List.mem_singleton.mp isPart]
      exact whole d inside
  have path : ∀ c ∈ slash :: concept_id ++ mdSuffix, isLineEnding c = false := by
    rw [List.cons_append, List.forall_mem_cons, List.forall_mem_append]
    exact ⟨by decide, ofId, by simp [mdSuffix, isLineEnding]⟩
  rw [serializeLink_eq, List.forall_mem_cons, List.forall_mem_append, List.forall_mem_cons, linkTail,
    List.cons_append, List.forall_mem_cons, List.cons_append, List.forall_mem_cons,
    List.forall_mem_append]
  exact ⟨by decide, escaped ofTitle, by decide, by decide, by decide, escaped path,
    by simp [isLineEnding]⟩

def linkLine (title : Line) {host : Host} {concept_id : ConceptId} (built : Built host concept_id) : Line :=
  ⟨serializeLink title.text concept_id, serializeLink_whole title.whole built.whole⟩

/-- The line of the link is read as one link, which shows the title and names the id from
everywhere. -/
def RoundTrips (rules : Rules) (title : Line) {host : Host} {concept_id : ConceptId}
    (built : Built host concept_id) : Prop :=
  ∃ dest_url children, rules.inlines (linkLine title built) = .node (.link dest_url) children .nil ∧
    children.shown = title.text ∧
    ∀ containing_dir, classify dest_url containing_dir = .internal concept_id

/-- Nothing in the title is read as markup: no run of backticks has one of the same length
behind it, in the title or in the id, and no two runs of markers pair. A null character is
never shown. -/
structure Inert (rules : Rules) (title : Text) (concept_id : ConceptId) : Prop where
  shown : '\x00' ∉ title
  open_ : StaysOpen (chunks title) concept_id
  apart : rules.Apart (labelRuns rules title)

theorem secure_eq_self {c : Char} (shown : c ≠ '\x00') : secure c = c := if_neg shown

theorem map_secure {text : Text} (shown : '\x00' ∉ text) : text.map secure = text := by
  have same : text.map secure = text.map id := by
    apply List.map_congr_left
    intro c mem
    apply secure_eq_self
    intro isNull
    rw [isNull] at mem
    exact shown mem
  rw [same, List.map_id]

theorem secure_escape {special : Char → Bool} (silent : special '\x00' = false)
    (unmarked : special (secure '\x00') = false) (text : Text) :
    (escape special text).map secure = escape special (text.map secure) := by
  have backslash : secure '\\' = '\\' := by decide
  induction text with
  | nil => rfl
  | cons c rest ih =>
    rw [escape_cons, List.map_append, ih, List.map_cons, escape_cons]
    congr 1
    by_cases isNull : c = '\x00'
    · rw [isNull, silent, unmarked]
      rfl
    · rw [secure_eq_self isNull]
      split
      · rw [List.map_cons, List.map_cons, backslash, secure_eq_self isNull]
        rfl
      · rw [List.map_cons, secure_eq_self isNull]
        rfl

/-- A link is read with a null character of the title replaced. -/
theorem inlines_linkLine (rules : Rules) (title : Line) {host : Host} {concept_id : ConceptId}
    (built : Built host concept_id) :
    rules.inlines (linkLine title built) = linkRead rules (title.text.map secure) concept_id := by
  have tail : '\x00' ∉ linkTail concept_id := by
    have inside : '\x00' ∉ escapeDestination (slash :: concept_id ++ mdSuffix) := by
      intro mem
      rcases List.mem_flatMap.mp mem with ⟨c, there, isPart⟩
      have isNull : c = '\x00' := by
        split at isPart
        · rcases List.mem_cons.mp isPart with same | other
          · cases same
          · exact (List.mem_singleton.mp other).symm
        · exact (List.mem_singleton.mp isPart).symm
      rw [isNull, List.cons_append, List.mem_cons, List.mem_append] at there
      rcases there with same | ofId | suffix
      · exact absurd same (by decide)
      · exact built.carried.2.1 ofId
      · exact absurd suffix (by decide)
    rw [linkTail, List.cons_append, List.mem_cons, List.cons_append, List.mem_cons, List.mem_append]
    simp only [List.cons_append] at inside
    simp [inside]
  unfold Rules.inlines linkLine linkRead
  dsimp only
  rw [serializeLink_eq, serializeLink_eq, List.map_cons, List.map_append, List.map_cons,
    map_secure tail, escapeLinkText_eq, secure_escape (by decide) (by decide)]
  rfl

theorem count_secure {c : Char} (same : secure c = c) (other : c ≠ secure '\x00') (text : Text) :
    (text.map secure).count c = text.count c := by
  have apart : c ≠ '\x00' := by
    intro isNull
    rw [isNull] at same
    revert same
    decide
  induction text with
  | nil => rfl
  | cons d rest ih =>
    rw [List.map_cons, List.count_cons, List.count_cons, ih]
    congr 1
    by_cases isNull : d = '\x00'
    · rw [isNull, if_neg (by simpa using Ne.symm other), if_neg (by simpa using Ne.symm apart)]
    · rw [secure_eq_self isNull]

/-- A completed link reads back as the title and the id it is made of, if and only if nothing
in the title is read as markup. -/
theorem link_round_trips_iff (rules : Rules) (title : Line) (host : Host) (concept_id : ConceptId)
    (built : Built host concept_id) :
    RoundTrips rules title built ↔ Inert rules title.text concept_id := by
  have isRead := inlines_linkLine rules title built
  constructor
  · intro roundTrips
    rcases roundTrips with ⟨dest_url, children, isLink, shown, -⟩
    rw [isRead] at isLink
    have visible : (linkRead rules (title.text.map secure) concept_id).shown = title.text := by
      rw [isLink, Inlines.shown, Inlines.shown, List.append_nil, shown]
    have kept : StaysOpen (chunks (title.text.map secure)) concept_id ∧
        rules.Apart (labelRuns rules (title.text.map secure)) := by
      by_contra closed
      rcases linkRead_of_not_open built.whole closed with ⟨c, same, other, differs⟩
      rw [visible, count_secure same other] at differs
      exact differs rfl
    rcases linkRead_of_open built.whole kept.1 kept.2 with ⟨_, isOpen, isTitle⟩
    have secured : title.text.map secure = title.text := by
      rw [isOpen, Inlines.shown, Inlines.shown, List.append_nil, isTitle] at visible
      exact visible
    rw [secured] at kept
    refine ⟨?_, kept.1, kept.2⟩
    intro mem
    have inside : '\x00' ∈ title.text.map secure := by
      rw [secured]
      exact mem
    rcases List.mem_map.mp inside with ⟨c, -, isNull⟩
    by_cases same : c = '\x00'
    · rw [same] at isNull
      revert isNull
      decide
    · rw [secure_eq_self same] at isNull
      exact same isNull
  · intro inert
    rw [map_secure inert.shown] at isRead
    rcases linkRead_of_open built.whole inert.open_ inert.apart with ⟨children, isLink, shown⟩
    refine ⟨_, children, isRead.trans isLink, shown, ?_⟩
    intro containing_dir
    exact classify_of_plain built.plain

/-- The dialect of the parser on ASCII texts without angle brackets and entities. -/
def asciiRules : Rules := .commonMark isWhiteSpace isAsciiPunctuation (fun _ => none) fun _ => none

theorem plan_built : Built Host.plain "plans/b_c".toList where
  accepted := by decide

theorem folded_title_round_trips :
    RoundTrips asciiRules ⟨foldWhitespace "Plan\t b_c [x]".toList, foldWhitespace_whole _⟩ plan_built := by
  apply (link_round_trips_iff _ _ _ _ _).mpr
  exact ⟨by decide, ⟨by decide +kernel, by decide +kernel⟩, by decide +kernel⟩

def codeTitle : Line := ⟨"`a`".toList, by simp [isLineEnding]⟩

def openTitle : Line := ⟨"a`".toList, by simp [isLineEnding]⟩

theorem open_built : Built Host.plain "b`".toList where
  accepted := by decide

/-- The label of a title in backticks is a code span. A backtick in the title and one in the id
leave no link at all. -/
theorem backticks_are_read :
    asciiRules.inlines (linkLine codeTitle plan_built) =
      .node (.link "/plans/b_c.md".toList) (.code ['a'] .nil) .nil ∧
    ¬ RoundTrips asciiRules codeTitle plan_built ∧ ¬ RoundTrips asciiRules openTitle open_built := by
  have code : asciiRules.inlines (linkLine codeTitle plan_built) =
      .node (.link "/plans/b_c.md".toList) (.code ['a'] .nil) .nil := by decide +kernel
  refine ⟨code, ?_, ?_⟩
  · intro roundTrips
    rcases roundTrips with ⟨dest_url, children, isLink, shown, -⟩
    rw [code] at isLink
    injection isLink with _ isCode _
    rw [← isCode] at shown
    revert shown
    decide
  · intro roundTrips
    rcases roundTrips with ⟨dest_url, children, isLink, -, -⟩
    have opening : (asciiRules.inlines (linkLine openTitle open_built)).append .nil =
        .text ['['] (.text ['a'] (.code "](</b".toList (.text ['.'] (.text ['m'] (.text ['d']
          (.text ['>'] (.text [')'] .nil))))))) := by decide +kernel
    rw [isLink] at opening
    cases opening

end Burlmd.Index
