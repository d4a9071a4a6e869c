import Mathlib.Data.List.Pairwise
import Burlmd.Library.CodeSpans
import Burlmd.Workspace.RewriteExact

/-!
# A destination is opaque

The parser reads from the left and takes the destination of an inline link as it stands. So
another destination is read in its place and the rest of the Note as before, unless something
that is open in front of it is closed by the new one: a run of backticks, raw HTML, a quoted
value, the destination or the title of another link. What is open is shown as text; the parser
has found nothing that closes it.
-/

namespace Burlmd.Workspace

open Utf8
open CommonMark
open Markdown
open Okf

/-! ## What is left open -/

/-- An offset is shown as text, in the block that also holds the destination. -/
def OpenAt {source : Text} (stream : EventStream source) (offset destination : Nat) : Prop :=
  (∃ text range, (Event.leaf (.text text), range) ∈ stream.events ∧ range.start ≤ offset ∧
    offset < range.stop) ∧
  ∀ tag range, (Event.start tag, range) ∈ stream.events → (Tag.inner .inline tag).isNone →
    (range.start ≤ offset ∧ offset < range.stop ↔
      range.start ≤ destination ∧ destination < range.stop)

/-- Behind an odd number of backslashes. -/
def Escaped (front : Text) : Prop := (front.reverse.takeWhile (· = '\\')).length % 2 = 1

def backtick : Char := Char.ofNat 96

def inlineMarks : CodeSpans.Marks Char where
  tick := backtick
  backslash := '\\'
  space := ' '
  escapable := isAsciiPunctuation
  tick_escapable := by decide
  backslash_ne_tick := by decide
  space_ne_tick := by decide

/-- Comments, instructions and CDATA, and what closes each. -/
def rawHtml : List (Text × Text) :=
  [("<!--".toList, "-->".toList), ("<?".toList, "?>".toList), ("<![CDATA[".toList, "]]>".toList)]

/-- What a destination without brackets, or a title, goes by. -/
def restless (c : Char) : Bool :=
  c = '"' || c = '\'' || c = '(' || c = ')' || c = '\\' || c = ' ' || isAsciiControl c

/-- Something in front of the destination of a link is open there, and a new destination may
close it; or the destination starts a line, where the new one may start a block. -/
inductive Enclosed {source : Text} (stream : EventStream source) (link : InlineLink) (new : Text) :
    Prop
  | code {front mid : Text} {n : Nat}
      (split : link.upToDestination = front ++ List.replicate (n + 1) backtick ++ mid)
      (opens : ¬ Escaped front) (first : ∀ before, front = before ++ [backtick] → Escaped before)
      (last : mid.head? ≠ some backtick)
      (open_ : OpenAt stream (byteLen front) (byteLen link.upToDestination))
      (closes : n + 1 ∈ inlineMarks.runs 0 new) : Enclosed stream link new
  | html {front mid opener closer : Text} (kind : (opener, closer) ∈ rawHtml)
      (split : link.upToDestination = front ++ opener ++ mid) (opens : ¬ Escaped front)
      (open_ : OpenAt stream (byteLen front) (byteLen link.upToDestination))
      (closes : closer <:+: new) : Enclosed stream link new
  /-- The bracket of the new destination closes it. -/
  | declaration {front mid : Text} {c : Char} (letter : c.isAlpha)
      (split : link.upToDestination = front ++ ['<', '!', c] ++ mid) (opens : ¬ Escaped front)
      (open_ : OpenAt stream (byteLen front) (byteLen link.upToDestination)) :
      Enclosed stream link new
  /-- A tag, in which a quote opens a value. -/
  | tag {front mid : Text} {c quote : Char} (letter : c.isAlpha)
      (split : link.upToDestination = front ++ ['<', c] ++ mid) (opens : ¬ Escaped front)
      (open_ : OpenAt stream (byteLen front) (byteLen link.upToDestination))
      (isQuote : quote = '"' ∨ quote = '\'') (opensValue : quote ∈ mid)
      (held : quote ∈ link.destination.text ∨ quote ∈ new) : Enclosed stream link new
  /-- The destination or the title of another link. -/
  | outer {front mid : Text} (split : link.upToDestination = front ++ "](".toList ++ mid) (opens : ¬ Escaped front)
      (open_ : OpenAt stream (byteLen front) (byteLen link.upToDestination))
      (held : link.destination.text.any restless ∨ new.any restless) : Enclosed stream link new
  /-- The destination or the title of a link definition. -/
  | definition {front mid : Text} (split : link.upToDestination = front ++ "]:".toList ++ mid)
      (block : ¬ ['\n', '\n'] <:+: mid)
      (held : link.destination.text.any restless ∨ new.any restless) : Enclosed stream link new
  /-- The line has been no code fence for a backtick that goes. -/
  | fence (opener : List.replicate 3 backtick <:+: link.upToDestination)
      (held : backtick ∈ link.destination.text) (gone : backtick ∉ new) : Enclosed stream link new
  | line (wraps : link.gap.wrap.isSome) : Enclosed stream link new

/-- The trail of a link encloses nothing. -/
theorem Enclosed.congr {source out : Text} {old : EventStream source} {now : EventStream out}
    {link : InlineLink} {trail new : Text}
    (open_ : ∀ first ≤ byteLen link.upToDestination, OpenAt now first (byteLen link.upToDestination) →
      OpenAt old first (byteLen link.upToDestination))
    (enclosed : Enclosed now { link with trail } new) : Enclosed old link new := by
  have upTo (front rest : Text) (split : link.upToDestination = front ++ rest) :
      byteLen front ≤ byteLen link.upToDestination := by
    rw [split, byteLen_append]
    exact Nat.le_add_right _ _
  cases enclosed with
  | code split opens first last isOpen closes =>
    exact .code split opens first last (open_ _ (upTo _ _ (by rw [← List.append_assoc]; exact split)) isOpen)
      closes
  | html kind split opens isOpen closes =>
    exact .html kind split opens (open_ _ (upTo _ _ (by rw [← List.append_assoc]; exact split)) isOpen) closes
  | declaration letter split opens isOpen =>
    exact .declaration letter split opens (open_ _ (upTo _ _ (by rw [← List.append_assoc]; exact split)) isOpen)
  | tag letter split opens isOpen isQuote opensValue held =>
    exact .tag letter split opens (open_ _ (upTo _ _ (by rw [← List.append_assoc]; exact split)) isOpen) isQuote
      opensValue held
  | outer split opens isOpen held =>
    exact .outer split opens (open_ _ (upTo _ _ (by rw [← List.append_assoc]; exact split)) isOpen) held
  | definition split block held => exact .definition split block held
  | fence opener held gone => exact .fence opener held gone
  | line wraps => exact .line wraps

/-! ## What the parser does -/

/-- The text with another destination. -/
def redirected (link : InlineLink) (new : Text) : Text :=
  link.upToDestination ++ new ++ link.ending.text ++ link.trail

/-- The same links, at what `moved` says. What is in front of the offset stays. -/
structure Redirected {source out : Text} (old : EventStream source) (now : EventStream out)
    (ours : List LinkSpot) (url : LinkSpot → Text) (offset : Nat) (moved : LinkSpot → LinkSpot) :
    Prop where
  links : spots .linksAndImages now.forest = (spots .linksAndImages old.forest).map moved
  own : ∀ spot ∈ ours, (moved spot).dest_url = url spot
  others : ∀ spot ∈ spots .linksAndImages old.forest, spot ∉ ours →
    (moved spot).dest_url = spot.dest_url
  before : ∀ spot ∈ spots .linksAndImages old.forest, spot.span.stop ≤ offset → moved spot = spot
  open_ : ∀ first ≤ offset, ∀ second ≤ offset, OpenAt now first second ↔ OpenAt old first second

/-- The parser reads from the left, and takes a destination as it stands. -/
def Opaque (streams : ∀ source, EventStream source) : Prop :=
  ∀ (link : InlineLink) (spot : LinkSpot) (url : Text),
    spot ∈ spots .linksAndImages (streams link.source).forest → LinkAt link.source spot link →
    Located link → (∀ c ∈ url, isLineEnding c = false) →
    ¬ Enclosed (streams link.source) link (serializeDestination url) →
    ∃ moved, Redirected (streams link.source)
      (streams (redirected link (serializeDestination url))) [spot] (fun _ => url)
      (byteLen link.upToDestination) moved

namespace Redirected

variable {source out : Text} {old : EventStream source} {now : EventStream out}
  {ours : List LinkSpot} {url : LinkSpot → Text} {offset : Nat} {moved : LinkSpot → LinkSpot}

theorem unchanged (stream : EventStream source) (url : LinkSpot → Text) (offset : Nat) :
    Redirected stream stream [] url offset id where
  links := (List.map_id _).symm
  own spot mem := by cases mem
  others _ _ _ := rfl
  before _ _ _ := rfl
  open_ _ _ _ _ := Iff.rfl

/-- Links close one after the other, so no two of them are moved to one. -/
theorem eq_of_moved (redirected : Redirected old now ours url offset moved) {spot other : LinkSpot}
    (mem : spot ∈ spots .linksAndImages old.forest) (mem' : other ∈ spots .linksAndImages old.forest)
    (real : (moved spot).text_end < (moved spot).span.stop) (same : moved other = moved spot) :
    other = spot := by
  have apart := @spots_pairwise .linksAndImages out now.forest 0 _ now.placed
  rw [redirected.links, List.pairwise_map] at apart
  let Apart (first second : LinkSpot) : Prop := (moved first).span.stop ≤ (moved second).text_end ∨
    (moved second).span.stop ≤ (moved first).text_end
  have symmetric : Std.Symm Apart := ⟨fun _ _ => Or.symm⟩
  have either : (spots .linksAndImages old.forest).Pairwise Apart := apart.imp Or.inl
  by_contra differ
  rcases either.forall mem' mem differ with first | second
  · rw [same] at first
    omega
  · rw [same] at second
    omega

theorem mono (redirected : Redirected old now ours url offset moved) {lower : Nat}
    (le : lower ≤ offset) : Redirected old now ours url lower moved where
  links := redirected.links
  own := redirected.own
  others := redirected.others
  before spot mem upTo := redirected.before spot mem (Nat.le_trans upTo le)
  open_ first upTo second upTo' :=
    redirected.open_ first (Nat.le_trans upTo le) second (Nat.le_trans upTo' le)

/-- A link in front of all that is redirected is redirected next. -/
theorem cons {last : Text} {end_ : EventStream last} {spot : LinkSpot} {next : LinkSpot → LinkSpot}
    (redirected : Redirected old now ours url offset moved)
    (here : Redirected now end_ [spot] (fun _ => url spot) offset next)
    (mem : spot ∈ spots .linksAndImages old.forest)
    (real : spot.text_end < spot.span.stop) (still : moved spot = spot) (new : spot ∉ ours)
    (known : ∀ other ∈ ours, other ∈ spots .linksAndImages old.forest) :
    Redirected old end_ (spot :: ours) url offset (next ∘ moved) where
  links := by rw [here.links, redirected.links, List.map_map]
  own other mem' := by
    rcases List.mem_cons.mp mem' with same | later
    · subst same
      rw [Function.comp, still]
      exact here.own _ List.mem_cons_self
    · have away : moved other ∉ [spot] := by
        intro at_
        rw [List.mem_singleton, ← still] at at_
        have same := redirected.eq_of_moved mem (known other later) (by rw [still]; exact real) at_
        exact new (same ▸ later)
      have isRead : moved other ∈ spots .linksAndImages now.forest := by
        rw [redirected.links]
        exact List.mem_map_of_mem (known other later)
      rw [Function.comp, here.others _ isRead away, redirected.own other later]
  others other mem' absent := by
    have away : moved other ∉ [spot] := by
      intro at_
      rw [List.mem_singleton, ← still] at at_
      have same := redirected.eq_of_moved mem mem' (by rw [still]; exact real) at_
      exact absent (same ▸ List.mem_cons_self)
    have isRead : moved other ∈ spots .linksAndImages now.forest := by
      rw [redirected.links]
      exact List.mem_map_of_mem mem'
    rw [Function.comp, here.others _ isRead away]
    exact redirected.others other mem' fun later => absent (List.mem_cons_of_mem _ later)
  before other mem' upTo := by
    have first := redirected.before other mem' upTo
    have isRead : other ∈ spots .linksAndImages now.forest := by
      rw [redirected.links, ← first]
      exact List.mem_map_of_mem mem'
    rw [Function.comp, first]
    exact here.before other isRead upTo
  open_ first upTo second upTo' :=
    (here.open_ first upTo second upTo').trans (redirected.open_ first upTo second upTo')

end Redirected

/-! ## All destinations of a Note -/

/-- The link of a spot takes another destination, which closes nothing. -/
def Redirects (streams : ∀ source, EventStream source) (source : Text) (url : LinkSpot → Text)
    (spot : LinkSpot) (edit : Edit) : Prop :=
  ∃ link, LinkAt source spot link ∧ Located link ∧
    edit = (link.destinationRange, serializeDestination (url spot)) ∧
    (∀ c ∈ url spot, isLineEnding c = false) ∧
    ¬ Enclosed (streams source) link (serializeDestination (url spot))

/-- A link in front of the next edit stands in the text with the later edits, too. -/
theorem exists_trail {link : InlineLink} {before last : Text} {segments : List Segment}
    (isSource : link.source = before ++ original segments last)
    (front : ∀ edit ∈ edits (byteLen before) segments, link.span.stop ≤ edit.1.start) :
    ∃ trail, { link with trail }.source = before ++ replaced segments last := by
  cases segments with
  | nil => exact ⟨link.trail, by rw [replaced_nil, ← original_nil last]; exact isSource⟩
  | cons segment rest =>
    have le := front _ List.mem_cons_self
    rw [InlineLink.source, original_cons, List.append_assoc segment.kept, ← List.append_assoc] at isSource
    rcases append_prefix isSource (by rw [byteLen_append]; exact le) with ⟨mid, longer, -⟩
    refine ⟨mid ++ (segment.new ++ replaced rest last), ?_⟩
    rw [replaced_cons, List.append_assoc segment.kept, ← List.append_assoc before, longer, InlineLink.source,
      List.append_assoc]
    rfl

/-- What an edit cuts off is the destination of its link. -/
theorem cut_of_range {link : InlineLink} {before kept old after : Text}
    (isSource : link.source = before ++ kept ++ old ++ after)
    (start : link.destinationRange.start = byteLen before + byteLen kept)
    (stop : link.destinationRange.stop = byteLen before + byteLen kept + byteLen old) :
    link.upToDestination = before ++ kept ∧ link.destination.text = old ∧
      link.ending.text ++ link.trail = after := by
  rw [InlineLink.source, InlineLink.upToEnd, List.append_assoc, List.append_assoc, List.append_assoc (before ++ kept)]
    at isSource
  rcases append_cancel_of_byteLen isSource (by rw [byteLen_append]; exact start) with ⟨front, others⟩
  have size : byteLen link.destination.text = byteLen old := by
    have both := destinationRange_stop link
    omega
  rcases append_cancel_of_byteLen others size with ⟨cut, tail⟩
  exact ⟨front, cut, tail⟩

/-- From the last destination to the first each link is redirected, and none that was closes
what is open in front of the next. -/
theorem exists_redirected {streams : ∀ source, EventStream source} (isOpaque : Opaque streams)
    {url : LinkSpot → Text} {source before last : Text} {segments : List Segment} {ours : List LinkSpot}
    (isSource : source = before ++ original segments last)
    (known : ∀ spot ∈ ours, spot ∈ spots .linksAndImages (streams source).forest)
    (nested : ours.Pairwise fun first second => first.span.stop ≤ second.text_end)
    (related : List.Forall₂ (Redirects streams source url) ours (edits (byteLen before) segments)) :
    ∃ moved, ∀ offset, (∀ edit ∈ edits (byteLen before) segments, offset ≤ edit.1.start) →
      Redirected (streams source) (streams (before ++ replaced segments last)) ours url offset moved := by
  induction segments generalizing before ours with
  | nil =>
    cases related
    rw [original_nil] at isSource
    subst isSource
    refine ⟨id, fun offset _ => ?_⟩
    rw [replaced_nil]
    exact Redirected.unchanged _ url offset
  | cons segment rest ih =>
    rw [edits] at related
    cases related with
    | @cons spot _ ours _ here related =>
      rcases here with ⟨link, at_, located, isEdit, line, enclosed⟩
      injection isEdit with range isNew
      have parts : source = before ++ segment.kept ++ segment.old ++ original rest last := by
        rw [isSource, original_cons]
        simp only [List.append_assoc]
      have size : byteLen (before ++ segment.kept ++ segment.old) =
          byteLen before + byteLen segment.kept + byteLen segment.old := by
        rw [byteLen_append, byteLen_append]
      have order := List.pairwise_cons.mp nested
      rcases @ih (before ++ segment.kept ++ segment.old) ours parts
        (fun other mem => known other (List.mem_cons_of_mem _ mem)) order.2
        (by rw [size]; exact related) with ⟨moved, others⟩
      have front : ∀ edit ∈ edits (byteLen (before ++ segment.kept ++ segment.old)) rest,
          spot.span.stop ≤ edit.1.start := by
        rw [size]
        intro edit mem
        rcases exists_of_forall₂ (List.Forall₂.flip related) mem with ⟨other, there, next, at', -, isEdit, -⟩
        have later := order.1 other there
        have from_ := textEnd_le next
        rw [at'.textEnd_eq] at from_
        rw [isEdit]
        exact Nat.le_trans later from_
      have isSpot := known spot List.mem_cons_self
      have real : spot.text_end < spot.span.stop := by
        rw [← at_.textEnd_eq, ← at_.span_eq]
        have first := textEnd_le link
        have second := destinationRange_lt link
        have both := destinationRange_stop link
        omega
      have still := (others spot.span.stop front).before spot isSpot (Nat.le_refl _)
      -- the link stands in the text with the later edits, with another trail
      rcases exists_trail (at_.source_eq.trans parts) (by rw [at_.span_eq]; exact front) with
        ⟨trail, isNext⟩
      rcases cut_of_range isNext (congrArg Range.start range).symm (congrArg Range.stop range).symm with
        ⟨upTo, -, after⟩
      have isOut : redirected { link with trail } (serializeDestination (url spot)) =
          before ++ replaced (segment :: rest) last := by
        rw [redirected, upTo, List.append_assoc _ _ trail, after, ← isNew, replaced_cons]
        simp only [List.append_assoc]
      have inside : byteLen link.upToDestination ≤ spot.span.stop := by
        rw [← at_.span_eq]
        have first := destinationRange_lt link
        have second := destinationRange_stop link
        exact Nat.le_trans (Nat.le_trans (Nat.le_add_right _ _) (Nat.le_of_eq second.symm)) (Nat.le_of_lt first)
      have known_ := others (byteLen link.upToDestination)
        fun edit mem => Nat.le_trans inside (front edit mem)
      have isRead : spot ∈ spots .linksAndImages
          (streams (before ++ segment.kept ++ segment.old ++ replaced rest last)).forest := by
        rw [known_.links, ← still]
        exact List.mem_map_of_mem isSpot
      have step := isOpaque { link with trail } spot (url spot)
      rw [isNext, isOut] at step
      rcases step isRead ⟨isNext, at_.span_eq, at_.textEnd_eq⟩ located line
        (fun closed => enclosed (closed.congr fun first le isOpen =>
          (known_.open_ first le _ (Nat.le_refl _)).mp isOpen)) with ⟨next, here⟩
      refine ⟨next ∘ moved, ?_⟩
      intro offset front_
      have first : offset ≤ byteLen link.upToDestination := by
        rw [show link.upToDestination = before ++ segment.kept from upTo, byteLen_append]
        exact front_ _ List.mem_cons_self
      have rest_ := others offset fun edit mem => by
        rw [size] at mem
        exact front_ edit (List.mem_cons_of_mem _ mem)
      exact rest_.cons (here.mono first) isSpot real still
        (fun mem => absurd (order.1 spot mem) (Nat.not_le.mpr real))
        fun other mem => known other (List.mem_cons_of_mem _ mem)

end Burlmd.Workspace
