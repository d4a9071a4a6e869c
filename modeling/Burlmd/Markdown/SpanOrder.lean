import Mathlib.Data.List.Basic
import Mathlib.Tactic.Common
import Burlmd.Markdown.Coherence

/-!
# When the span map is coherent

Inline content waits in the flow until a Block takes it. It is clean while its text
comes after every block of the container, and stranded once a block of a later range
is attached before it; flushing stranded content puts siblings out of order. The audit
of a stream follows this, and fails exactly when the span map is not coherent.
-/

namespace Burlmd.Markdown

open Utf8

/-- The inline content that waits for a Block. -/
inductive Hold where
  | empty
  | clean
  | stranded
  deriving DecidableEq, Repr

namespace Hold

/-- Visible text joined the waiting content. -/
def shown : Hold → Hold
  | empty => clean
  | hold => hold

/-- A block was attached, or a container opened or closed, past the waiting content. -/
def passed : Hold → Hold
  | empty => empty
  | _ => stranded

/-- The waiting content became a paragraph of its own. -/
def flush : Hold → Option Hold
  | stranded => none
  | _ => some empty

/-- A leaf in flow position. -/
def read (hold : Hold) : Leaf → Hold
  | .rule => hold.passed
  | .taskListMarker _ => hold
  | l => if l.rendered = [] then hold else hold.shown

end Hold

namespace Forest

/-- Some image holds another. -/
def nests : Forest → Bool
  | nil => false
  | leaf _ _ rest => rest.nests
  | node (.image _) _ children rest => children.hoisted ≠ [] || rest.nests
  | node _ _ children rest => children.nests || rest.nests

/-- No visible text stands after or around an image. -/
def textFirst : Forest → Bool
  | nil => true
  | leaf _ _ rest => rest.textFirst
  | node (.image _) _ _ rest => rest.ownText = []
  | node (.link _) _ children rest =>
      (children.hoisted = [] || (children.ownText = [] && rest.ownText = [])) && rest.textFirst
  | node _ _ children rest =>
      children.textFirst && (children.hoisted = [] || rest.ownText = []) && rest.textFirst

/-- What waits after inline content whose images become blocks of the container. -/
def settle : Hold → Forest → Option Hold
  | hold, nil => some hold
  | hold, leaf l _ rest => rest.settle (if l.rendered = [] then hold else hold.shown)
  | hold, node tag _ children rest =>
      (match tag with
        | .image _ => if children.hoisted = [] then hold.flush else none
        | .link _ =>
            if children.nests then none
            else if children.hoisted = [] then
              some (if children.ownText = [] then hold else hold.shown)
            else hold.flush.map fun hold => if children.ownText = [] then hold else .stranded
        | _ => children.settle hold).bind fun hold => rest.settle hold

/-- What waits after a forest in flow or list position; `none` when siblings came out of
order or a child left its parent. -/
def audit : Hold → Forest → Option Hold
  | hold, nil => some hold
  | hold, leaf l _ rest => rest.audit (hold.read l)
  | hold, node tag range children rest =>
      (match tag with
        | .paragraph => (children.settle .empty).bind Hold.flush
        | .heading _ => if children.nests || !children.textFirst then none else some .empty
        | .blockQuote => (children.audit hold.passed).map Hold.passed
        | .list _ => hold.flush.bind fun hold => (children.audit hold.passed).map Hold.passed
        | .item => ((children.audit hold.passed).bind Hold.flush).map Hold.passed
        | .codeBlock _ => some hold.passed
        | .metadataBlock | .htmlBlock => some hold
        | tag => (node tag range children nil).settle hold).bind fun hold => rest.audit hold

end Forest

/-! ## Pending content -/

/-- The extent of the pending content, which is a character range up to `high`. -/
structure Pending.Holds (source : Text) (high : Nat) (pending : Pending)
    (extent : Option Range) : Prop where
  runs : runExtent pending.runs.runs = extent
  nothing : pending.inlines = [] ↔ extent = none
  covers : ∀ span, extent = some span → Covers source span ∧ span.stop ≤ high

theorem runExtent_snoc (runs : List InlineRun) (run : InlineRun) :
    runExtent (runs ++ [run]) =
      some ((runExtent runs).elim run.source fun span => ⟨span.start, run.source.stop⟩) := by
  cases runs with
  | nil => rfl
  | cons head rest =>
    have last : (head :: (rest ++ [run])).getLast? = some run :=
      List.getLast?_concat (l := head :: rest)
    simp [runExtent, last, List.getLast?_eq_some_getLast (List.cons_ne_nil head rest)]

namespace Pending.Holds

variable {source : Text} {high : Nat} {pending : Pending} {extent : Option Range}

theorem empty : Pending.empty.Holds source high none :=
  ⟨rfl, by simp [Pending.empty], by simp⟩

theorem mono (holds : pending.Holds source high extent) {high' : Nat} (le : high ≤ high') :
    pending.Holds source high' extent :=
  ⟨holds.runs, holds.nothing, fun span held =>
    ⟨(holds.covers span held).1, Nat.le_trans (holds.covers span held).2 le⟩⟩

theorem push (holds : pending.Holds source high extent) (shown : InlineElement) {chars : Nat}
    {range : Range} (interpolable : Bool) (covers : Covers source range) (le : high ≤ range.stop)
    (positive : 0 < chars) :
    (pending.push (.element shown chars range interpolable)).Holds source range.stop
      (some (extent.elim range fun span => ⟨span.start, range.stop⟩)) := by
  refine ⟨?_, by simp [Pending.push], ?_⟩
  · have pushed : (pending.push (.element shown chars range interpolable)).runs.runs =
        pending.runs.runs ++ [⟨⟨pending.runs.rendered_len, pending.runs.rendered_len + chars⟩,
          range, interpolable⟩] := by
      simp [Pending.push, RunAccum.push, Nat.ne_of_gt positive]
    rw [pushed, runExtent_snoc, holds.runs]
  · rintro span ⟨⟩
    cases extent with
    | none => exact ⟨covers, le_refl _⟩
    | some span =>
      obtain ⟨⟨wide, slice⟩, within⟩ := holds.covers span rfl
      have start := (slice?_isSome_iff.mp slice).2.1
      have stop := (slice?_isSome_iff.mp covers.2).2.2
      exact ⟨⟨by simp only [Option.elim_some]; omega,
        slice?_isSome_iff.mpr ⟨by simp only [Option.elim_some]; omega, start, stop⟩⟩, le_refl _⟩

end Pending.Holds

/-! ## The state of a flow -/

/-- What the blocks of a container that starts at `base` need so far. -/
structure SoundBlocks (source : Text) (base : Nat) (blocks : List Emitted) : Prop where
  ordered : Ordered blocks
  below : ∀ block ∈ blocks, block.OrderlyBelow source
  inside : ∀ span ∈ sources blocks, base ≤ span.start

namespace SoundBlocks

variable {source : Text} {base : Nat}

theorem of_append {first second : List Emitted}
    (sound : SoundBlocks source base (first ++ second)) : SoundBlocks source base first := by
  obtain ⟨ordered, below, inside⟩ := sound
  rw [Ordered, sources_append, List.pairwise_append] at ordered
  exact ⟨ordered.1, fun block member => below block (by simp [member]),
    fun span member => inside span (by simp [member])⟩

theorem snoc_iff {blocks : List Emitted} {block : Emitted} :
    SoundBlocks source base (blocks ++ [block]) ↔
      SoundBlocks source base blocks ∧ block.OrderlyBelow source ∧
        ∀ own, block.source? = some own → base ≤ own.start ∧
          ∀ span ∈ sources blocks, span.Before own := by
  constructor
  · intro sound
    refine ⟨sound.of_append, sound.below block (by simp), fun own registered => ⟨?_, ?_⟩⟩
    · exact sound.inside own (by simp [registered])
    · have ordered := sound.ordered
      rw [Ordered, sources_append, List.pairwise_append] at ordered
      exact fun span member => ordered.2.2 span member own (by simp [registered])
  · rintro ⟨sound, orderly, own⟩
    refine ⟨?_, ?_, ?_⟩
    · rw [Ordered, sources_append, List.pairwise_append]
      refine ⟨sound.ordered, ?_, fun span member other member' => ?_⟩
      · cases block.source? <;> simp [*]
      · exact (own other (by simpa using member')).2 span member
    · intro inner member
      rcases List.mem_append.mp member with member | member
      · exact sound.below inner member
      · obtain rfl := List.mem_singleton.mp member
        exact orderly
    · intro span member
      rw [sources_append, List.mem_append] at member
      rcases member with member | member
      · exact sound.inside span member
      · exact (own span (by simpa using member)).1

end SoundBlocks

/-- Where the waiting content stands relative to the blocks of the container. -/
def Hold.Fits (base : Nat) (blocks : List Emitted) : Hold → Option Range → Prop
  | empty, extent => extent = none
  | clean, extent => ∃ span, extent = some span ∧ base ≤ span.start ∧
      ∀ other ∈ sources blocks, other.Before span
  | stranded, extent => ∃ span, extent = some span ∧
      (span.start < base ∨ ∃ other ∈ sources blocks, ¬ other.Before span)

/-- The flow read up to `high` in a container that starts at `base`. -/
structure Flow.Watched (source : Text) (base high : Nat) (hold : Hold) (st : Flow) : Prop where
  sound : SoundBlocks source base st.blocks
  bounded : ∀ span ∈ sources st.blocks, span.stop ≤ high
  low : base ≤ high
  held : ∃ extent, st.pending.Holds source high extent ∧ hold.Fits base st.blocks extent

/-- The flow matches what the audit found. -/
def Flow.Answers (source : Text) (base high : Nat) (st : Flow) : Option Hold → Prop
  | some hold => st.Watched source base high hold
  | none => ¬ SoundBlocks source base st.blocks

def Flow.Extends (before after : Flow) : Prop := ∃ more, after.blocks = before.blocks ++ more

namespace Flow.Extends

theorem refl (st : Flow) : st.Extends st := ⟨[], by simp⟩

theorem trans {one two three : Flow} (first : one.Extends two) (second : two.Extends three) :
    one.Extends three := by
  obtain ⟨more, blocks⟩ := first
  obtain ⟨further, blocks'⟩ := second
  exact ⟨more ++ further, by rw [blocks', blocks, List.append_assoc]⟩

theorem land (st : Flow) (atom : Atom) : st.Extends (st.land atom) := by
  cases atom with
  | element => exact refl _
  | image image => exact ⟨st.pending.flush ++ [image.emitted], by simp [Flow.land, Flow.flush,
      Flow.push]⟩

theorem landAll (st : Flow) (atoms : List Atom) : st.Extends (atoms.foldl Flow.land st) := by
  induction atoms generalizing st with
  | nil => exact refl st
  | cons atom rest ih => exact (land st atom).trans (ih _)

theorem emit (source containing_dir : Text) (f : Forest) (st : Flow) :
    st.Extends (f.emit source containing_dir st) := by
  induction f generalizing st with
  | nil => exact refl st
  | leaf l range rest ih =>
    refine trans ?_ (ih _)
    cases l with
    | rule => exact ⟨_, rfl⟩
    | taskListMarker => exact refl _
    | _ => exact landAll st _
  | node tag range children rest inner ih =>
    refine trans ?_ (ih _)
    cases tag with
    | paragraph =>
      obtain ⟨more, landed⟩ := landAll { st with pending := .empty }
        (children.atoms source containing_dir st.format)
      exact ⟨_, by rw [Flow.paragraph, landed, List.append_assoc]⟩
    | heading | blockQuote | item => exact ⟨_, rfl⟩
    | list => exact ⟨_, by simp only [Flow.leave, Flow.flush, List.append_assoc]; rfl⟩
    | codeBlock => exact ⟨_, rfl⟩
    | htmlBlock | metadataBlock => exact refl _
    | _ => exact landAll st _

end Flow.Extends

theorem Flow.Answers.bind {source : Text} {base mid high : Nat} {first second : Flow}
    {answer : Option Hold}
    (answers : first.Answers source base mid answer) (next : Hold → Option Hold)
    (extended : first.Extends second) (step : ∀ hold, answer = some hold → first.Watched source base mid hold →
      second.Answers source base high (next hold)) :
    second.Answers source base high (answer.bind next) := by
  cases answer with
  | some hold => exact step hold rfl answers
  | none =>
    obtain ⟨more, blocks⟩ := extended
    intro sound
    rw [blocks] at sound
    exact answers sound.of_append

theorem Flow.Answers.congr {source : Text} {base high : Nat} {st st' : Flow}
    {answer : Option Hold} (answers : st.Answers source base high answer)
    (blocks : st'.blocks = st.blocks) (pending : st'.pending = st.pending) :
    st'.Answers source base high answer := by
  cases answer with
  | some hold =>
    obtain ⟨sound, bounded, low, held⟩ := answers
    exact ⟨blocks ▸ sound, blocks ▸ bounded, low, by rw [blocks, pending]; exact held⟩
  | none =>
    intro sound
    rw [blocks] at sound
    exact answers sound

namespace Flow.Watched

variable {source : Text} {base low high : Nat} {hold : Hold} {st : Flow}

theorem mono (watched : st.Watched source base low hold) (le : low ≤ high) :
    st.Watched source base high hold := by
  obtain ⟨sound, bounded, base_le, extent, holds, fits⟩ := watched
  exact ⟨sound, fun span member => Nat.le_trans (bounded span member) le,
    Nat.le_trans base_le le, extent, holds.mono le, fits⟩

/-- A registered block is attached past the waiting content. -/
theorem push (watched : st.Watched source base low hold) (block : Emitted) {range : Range}
    (own : block.source? = some range) (start : low ≤ range.start)
    (ordered : range.start < range.stop) (orderly : block.OrderlyBelow source) :
    (st.push [block]).Watched source base range.stop hold.passed := by
  obtain ⟨sound, bounded, base_le, extent, holds, fits⟩ := watched
  have attached : SoundBlocks source base (st.blocks ++ [block]) := by
    refine SoundBlocks.snoc_iff.mpr ⟨sound, orderly, fun other same => ?_⟩
    obtain rfl : range = other := by simpa [own] using same
    exact ⟨by omega, fun span member => Nat.le_trans (bounded span member) start⟩
  refine ⟨attached, fun span member => ?_, by omega, extent, holds.mono (by omega), ?_⟩
  · rw [Flow.push, sources_append, List.mem_append] at member
    rcases member with member | member
    · have := bounded span member
      omega
    · obtain rfl : span = range := by simpa [own] using member
      exact le_refl _
  · have passed (span : Range) (held : extent = some span) : ¬ range.Before span := by
      obtain ⟨⟨wide, -⟩, within⟩ := holds.covers span held
      simp only [Range.Before]
      omega
    cases hold with
    | empty => exact fits
    | clean | stranded =>
      obtain ⟨span, held, -⟩ := fits
      exact ⟨span, held, .inr ⟨range, by simp [Flow.push, own], passed span held⟩⟩

/-- Visible text joins the waiting content. -/
theorem landElement (watched : st.Watched source base low hold) (shown : InlineElement)
    {chars : Nat} {range : Range} (interpolable : Bool) (covers : Covers source range)
    (start : low ≤ range.start) (positive : 0 < chars) :
    (st.land (.element shown chars range interpolable)).Watched source base range.stop
      hold.shown := by
  obtain ⟨sound, bounded, base_le, extent, holds, fits⟩ := watched
  have wide := covers.1
  refine ⟨sound, fun span member => ?_, by omega, _,
    holds.push shown interpolable covers (by omega) positive, ?_⟩
  · have := bounded span member
    omega
  · cases hold with
    | empty =>
      obtain rfl : extent = none := fits
      exact ⟨range, rfl, by omega, fun other member =>
        Nat.le_trans (bounded other member) start⟩
    | clean =>
      obtain ⟨span, rfl, inside, before⟩ := fits
      exact ⟨_, rfl, inside, before⟩
    | stranded =>
      obtain ⟨span, rfl, off⟩ := fits
      exact ⟨_, rfl, off⟩

/-- Text around blocks that are already attached is stranded from the start. -/
theorem landAround (watched : st.Watched source base low .empty) (shown : InlineElement)
    {chars : Nat} {range : Range} (interpolable : Bool) (covers : Covers source range)
    (within : low ≤ range.stop) (inner : Range) (attached : inner ∈ sources st.blocks)
    (around : range.start < inner.stop) (positive : 0 < chars) :
    (st.land (.element shown chars range interpolable)).Watched source base range.stop
      .stranded := by
  obtain ⟨sound, bounded, base_le, extent, holds, fits⟩ := watched
  obtain rfl : extent = none := fits
  refine ⟨sound, fun span member => ?_, by omega, _,
    holds.push shown interpolable covers within positive, range, rfl, .inr ⟨inner, attached, ?_⟩⟩
  · have := bounded span member
    omega
  · simp only [Range.Before]
    omega

theorem leaf_orderly {node : AstNode} {range : Option Range} {runs : List InlineRun}
    (covers : ∀ span, range = some span → Covers source span) :
    (Emitted.leaf node range runs).OrderlyBelow source := by
  refine Emitted.orderlyBelow_iff.mpr ⟨⟨covers, ?_, ?_⟩, ?_⟩ <;>
    simp [Emitted.children, Ordered]

theorem flush (watched : st.Watched source base high hold) :
    st.flush.Answers source base high hold.flush := by
  obtain ⟨sound, bounded, base_le, extent, holds, fits⟩ := watched
  have done (blocks : st.flush.blocks = st.blocks) :
      st.flush.Watched source base high .empty :=
    ⟨blocks ▸ sound, blocks ▸ bounded, base_le, none, .empty, rfl⟩
  have paragraph (span : Range) (held : extent = some span) : st.pending.flush =
      [.leaf (.paragraph (processInlines st.pending.inlines)) (some span)
        st.pending.runs.runs] := by
    have some_ : st.pending.inlines ≠ [] := by
      intro nothing
      simp [holds.nothing.mp nothing] at held
    rw [Pending.flush, Pending.paragraph, if_neg some_, holds.runs, held]
  cases hold with
  | empty =>
    have none_ := holds.nothing.mpr fits
    exact done (by simp [Flow.flush, Pending.flush, Pending.paragraph, none_])
  | clean =>
    obtain ⟨span, held, inside, before⟩ := fits
    obtain ⟨covers, within⟩ := holds.covers span held
    have blocks := paragraph span held
    refine ⟨?_, ?_, base_le, none, .empty, rfl⟩
    · rw [Flow.flush, blocks]
      refine SoundBlocks.snoc_iff.mpr ⟨sound, leaf_orderly ?_, ?_⟩
      · rintro other ⟨⟩
        exact covers
      · rintro other ⟨⟩
        exact ⟨inside, before⟩
    · intro other member
      simp only [Flow.flush, blocks, sources_append, List.mem_append] at member
      rcases member with member | member
      · exact bounded other member
      · obtain rfl : other = span := by simpa using member
        exact within
  | stranded =>
    obtain ⟨span, held, off⟩ := fits
    intro broken
    rw [Flow.flush, paragraph span held] at broken
    obtain ⟨-, -, own⟩ := SoundBlocks.snoc_iff.mp broken
    obtain ⟨inside, before⟩ := own span rfl
    obtain out | ⟨other, member, late⟩ := off
    · omega
    · exact late (before other member)

end Flow.Watched

end Burlmd.Markdown
