import Burlmd.Markdown.Coherence
import Burlmd.Markdown.Resolve

/-!
# Resolution is total and in order

The runs of a leaf tile its rendered text, so every offset of it is at the start of a run, inside
one, or at the end. What a run resolves to lies between what the runs before and behind it do, and
the Blocks below a container follow one another in the same way.
-/

namespace Burlmd.Markdown

open Utf8

/-! ## Characters -/

/-- The source of the rendered character at an offset of a run. -/
inductive InlineRun.Shows (source : Text) (run : InlineRun) : Nat → Range → Prop
  | character {before after : Text} {c : Char} (interpolable : run.interpolable = true)
      (sliced : slice? source run.source = some (before ++ c :: after)) :
      run.Shows source (run.rendered.start + before.length)
        ⟨run.source.start + byteLen before, run.source.start + byteLen before + c.utf8Size⟩
  | atomic (offset : Nat) (atomic : run.interpolable = false)
      (start : run.rendered.start ≤ offset) (stop : offset < run.rendered.stop) :
      run.Shows source offset run.source

/-- The runs of a leaf tile its rendered text and stand in order inside its source; a run is a
range of characters, as many as it renders where it is interpolable. -/
structure BlockSpan.Runs (source : Text) (block : BlockSpan) : Prop where
  tiles : Tiles 0 block.runs block.rendered_len
  order : InOrder block.source.start block.runs block.source.stop
  sliced : ∀ run ∈ block.runs, ∃ text, slice? source run.source = some text ∧
    (run.interpolable = true → text.length = run.rendered.stop - run.rendered.start)

namespace SourceResolution

/-- Both readings of a resolution are character boundaries between two offsets. -/
structure Within (source : Text) (low high : Nat) (resolution : SourceResolution) : Prop where
  start_boundary : IsBoundary source resolution.start
  stop_boundary : IsBoundary source resolution.stop
  low_le_start : low ≤ resolution.start
  low_le_stop : low ≤ resolution.stop
  start_le_high : resolution.start ≤ high
  stop_le_high : resolution.stop ≤ high

theorem Within.mono {source : Text} {low low' high high' : Nat} {resolution : SourceResolution}
    (within : resolution.Within source low high) (lower : low' ≤ low) (higher : high ≤ high') :
    resolution.Within source low' high' where
  start_boundary := within.start_boundary
  stop_boundary := within.stop_boundary
  low_le_start := Nat.le_trans lower within.low_le_start
  low_le_stop := Nat.le_trans lower within.low_le_stop
  start_le_high := Nat.le_trans within.start_le_high higher
  stop_le_high := Nat.le_trans within.stop_le_high higher

/-- The resolution of an earlier offset does not end up behind that of a later one. -/
structure Le (first second : SourceResolution) : Prop where
  starts : first.start ≤ second.start
  stops : first.stop ≤ second.stop
  across : first.start ≤ second.stop

/-- What ends before another starts comes first. -/
theorem Within.le {source : Text} {low mid mid' high : Nat} {first second : SourceResolution}
    (before : first.Within source low mid) (behind : second.Within source mid' high)
    (apart : mid ≤ mid') : first.Le second where
  starts := Nat.le_trans before.start_le_high (Nat.le_trans apart behind.low_le_start)
  stops := Nat.le_trans before.stop_le_high (Nat.le_trans apart behind.low_le_stop)
  across := Nat.le_trans before.start_le_high (Nat.le_trans apart behind.low_le_stop)

end SourceResolution

/-! ## Runs -/

section Runs

variable {source : Text} {block : BlockSpan} {run : InlineRun} {rest : List InlineRun}
  {previous_end : Option Nat} {offset : Nat}

theorem resolveRuns_start :
    SpanMap.resolveRuns source block run.rendered.start previous_end (run :: rest) =
      some (.boundary (previous_end.getD run.source.start) run.source.start) := by
  unfold SpanMap.resolveRuns
  rw [if_pos rfl]

theorem resolveRuns_atomic (after : run.rendered.start < offset) (before : offset < run.rendered.stop)
    (atomic : run.interpolable = false) :
    SpanMap.resolveRuns source block offset previous_end (run :: rest) =
      some (.atomic run.source) := by
  unfold SpanMap.resolveRuns
  rw [if_neg (Nat.ne_of_gt after), if_pos before, atomic]
  rfl

theorem resolveRuns_exact (after : run.rendered.start < offset) (before : offset < run.rendered.stop)
    (interpolable : run.interpolable = true) {text : Text}
    (sliced : slice? source run.source = some text)
    (length : text.length = run.rendered.stop - run.rendered.start) :
    SpanMap.resolveRuns source block offset previous_end (run :: rest) =
      some (.exact (run.source.start + byteLen (text.take (offset - run.rendered.start)))) := by
  unfold SpanMap.resolveRuns
  rw [if_neg (Nat.ne_of_gt after), if_pos before, interpolable]
  simp only [Bool.not_true, Bool.false_eq_true, if_false]
  rw [sliced, Option.bind_some, if_pos (by omega)]

theorem resolveRuns_beyond (ordered : run.rendered.start < run.rendered.stop)
    (beyond : run.rendered.stop ≤ offset) :
    SpanMap.resolveRuns source block offset previous_end (run :: rest) =
      SpanMap.resolveRuns source block offset (some run.source.stop) rest := by
  rw [SpanMap.resolveRuns, if_neg (by omega), if_neg (by omega)]

theorem resolveRuns_nil :
    SpanMap.resolveRuns source block offset previous_end [] =
      some (.boundary ((block.runs.getLast?.map fun run => run.source.stop).getD block.source.start)
        ((block.runs.getLast?.map fun run => run.source.stop).getD block.source.start)) := by
  unfold SpanMap.resolveRuns
  rfl

/-- What is known of the runs behind those that a resolution has passed. -/
structure Behind (source : Text) (block : BlockSpan) (first : Nat) (previous_end : Option Nat)
    (rest : List InlineRun) : Prop where
  tiles : Tiles first rest block.rendered_len
  order : InOrder (previous_end.getD block.source.start) rest block.source.stop
  sliced : ∀ run ∈ rest, ∃ text, slice? source run.source = some text ∧
    (run.interpolable = true → text.length = run.rendered.stop - run.rendered.start)
  passed : IsBoundary source (previous_end.getD block.source.start)
  ends : rest = [] → (block.runs.getLast?.map fun run => run.source.stop).getD block.source.start =
    previous_end.getD block.source.start
  last : ∀ run, rest.getLast? = some run → block.runs.getLast? = some run

namespace Behind

variable {first : Nat}

theorem whole (runs : block.Runs source) (placed : IsBoundary source block.source.start) :
    Behind source block 0 none block.runs where
  tiles := runs.tiles
  order := runs.order
  sliced := runs.sliced
  passed := placed
  ends none_ := by
    rw [none_]
    rfl
  last _ isLast := isLast

/-- A run that is passed leaves the runs behind it. -/
theorem next (behind : Behind source block first previous_end (run :: rest)) :
    Behind source block run.rendered.stop (some run.source.stop) rest where
  tiles := behind.tiles.2.2
  order := behind.order.2.2
  sliced other inside := behind.sliced other (List.mem_cons_of_mem _ inside)
  passed := by
    rcases behind.sliced run List.mem_cons_self with ⟨text, sliced, -⟩
    exact (slice?_isSome_iff.mp (Option.isSome_of_eq_some sliced)).2.2
  ends none_ := by
    rw [none_] at behind
    rw [behind.last run rfl]
    rfl
  last other isLast := by
    cases rest with
    | nil => cases isLast
    | cons head tail => exact behind.last other isLast

theorem source_ordered (behind : Behind source block first previous_end (run :: rest)) :
    previous_end.getD block.source.start ≤ run.source.start ∧
      run.source.start ≤ run.source.stop ∧ run.source.stop ≤ block.source.stop :=
  ⟨behind.order.1, behind.order.2.1, behind.order.2.2.le⟩

theorem width (behind : Behind source block first previous_end (run :: rest)) :
    run.rendered.start < run.rendered.stop := by
  rw [behind.tiles.1]
  exact behind.tiles.2.1

theorem boundaries (behind : Behind source block first previous_end (run :: rest)) :
    IsBoundary source run.source.start ∧ IsBoundary source run.source.stop := by
  rcases behind.sliced run List.mem_cons_self with ⟨text, sliced, -⟩
  exact (slice?_isSome_iff.mp (Option.isSome_of_eq_some sliced)).2

end Behind

/-- A character boundary of a slice is one of the text. -/
theorem boundary_in_slice {range : Range} {before after : Text}
    (sliced : slice? source range = some (before ++ after)) :
    IsBoundary source (range.start + byteLen before) ∧
      range.start + byteLen before ≤ range.stop := by
  rcases slice?_eq_some_iff.mp sliced with ⟨head, tail, whole, start, stop⟩
  rw [byteLen_append] at stop
  constructor
  · apply isBoundary_iff.mpr
    refine ⟨head ++ before, after ++ tail, ?_, ?_⟩
    · rw [whole, List.append_assoc, List.append_assoc, List.append_assoc]
    · rw [byteLen_append, start]
  · omega

theorem byteLen_take_le {text : Text} {first second : Nat} (le : first ≤ second) :
    byteLen (text.take first) ≤ byteLen (text.take second) := by
  rcases List.take_prefix_take_left le with ⟨tail, whole⟩
  rw [← whole, byteLen_append]
  exact Nat.le_add_right _ _

namespace Behind

variable {first : Nat}

/-- What an offset inside a run resolves to lies in the source of the run. -/
theorem inside (behind : Behind source block first previous_end (run :: rest))
    (after : run.rendered.start < offset) (before : offset < run.rendered.stop) :
    ∃ resolution, SpanMap.resolveRuns source block offset previous_end (run :: rest) =
        some resolution ∧
      resolution.Within source run.source.start run.source.stop := by
  have boundaries := behind.boundaries
  have ordered := behind.source_ordered
  rcases behind.sliced run List.mem_cons_self with ⟨text, sliced, length⟩
  cases interpolable : run.interpolable with
  | false =>
    refine ⟨_, resolveRuns_atomic after before interpolable, ?_⟩
    exact ⟨boundaries.1, boundaries.2, Nat.le_refl _, ordered.2.1, ordered.2.1, Nat.le_refl _⟩
  | true =>
    refine ⟨_, resolveRuns_exact after before interpolable sliced (length interpolable), ?_⟩
    rw [← List.take_append_drop (offset - run.rendered.start) text] at sliced
    have place := boundary_in_slice sliced
    exact ⟨place.1, place.1, Nat.le_add_right _ _, Nat.le_add_right _ _, place.2, place.2⟩

theorem at_start (behind : Behind source block first previous_end (run :: rest)) :
    (SourceResolution.boundary (previous_end.getD run.source.start) run.source.start).Within source
      (previous_end.getD block.source.start) run.source.start := by
  have boundaries := behind.boundaries
  have ordered := behind.source_ordered
  have passed := behind.passed
  cases previous_end with
  | none => exact ⟨boundaries.1, boundaries.1, ordered.1, ordered.1, Nat.le_refl _, Nat.le_refl _⟩
  | some stop => exact ⟨boundaries.1, passed, ordered.1, Nat.le_refl _, Nat.le_refl _, ordered.1⟩

/-- Every offset of the runs that are left resolves, behind those that were passed. -/
theorem total (behind : Behind source block first previous_end rest) (low : first ≤ offset)
    (high : offset ≤ block.rendered_len) :
    ∃ resolution, SpanMap.resolveRuns source block offset previous_end rest = some resolution ∧
      resolution.Within source (previous_end.getD block.source.start) block.source.stop := by
  induction rest generalizing first previous_end with
  | nil =>
    have stop : previous_end.getD block.source.start ≤ block.source.stop := behind.order
    refine ⟨_, resolveRuns_nil, ?_⟩
    rw [behind.ends rfl]
    exact ⟨behind.passed, behind.passed, Nat.le_refl _, Nat.le_refl _, stop, stop⟩
  | cons run rest ih =>
    have start := behind.tiles.1
    have ordered := behind.source_ordered
    rcases Nat.lt_trichotomy offset run.rendered.start with early | same | late
    · omega
    · subst same
      refine ⟨_, resolveRuns_start, ?_⟩
      exact behind.at_start.mono (Nat.le_refl _) (Nat.le_trans ordered.2.1 ordered.2.2)
    · rcases Nat.lt_or_ge offset run.rendered.stop with within | beyond
      · rcases behind.inside late within with ⟨resolution, resolved, place⟩
        exact ⟨resolution, resolved, place.mono ordered.1 ordered.2.2⟩
      · rw [resolveRuns_beyond behind.width beyond]
        rcases ih behind.next beyond with ⟨resolution, resolved, place⟩
        refine ⟨resolution, resolved, place.mono ?_ (Nat.le_refl _)⟩
        exact Nat.le_trans ordered.1 ordered.2.1

/-- Two offsets inside one run resolve in their order. -/
theorem inside_le (behind : Behind source block first previous_end (run :: rest)) {second : Nat}
    (after : run.rendered.start < offset) (lt : offset < second)
    (before : second < run.rendered.stop) {one two : SourceResolution}
    (resolved : SpanMap.resolveRuns source block offset previous_end (run :: rest) = some one)
    (resolved' : SpanMap.resolveRuns source block second previous_end (run :: rest) = some two) :
    one.Le two := by
  have ordered := behind.source_ordered
  rcases behind.sliced run List.mem_cons_self with ⟨text, sliced, length⟩
  cases interpolable : run.interpolable with
  | false =>
    rw [resolveRuns_atomic after (Nat.lt_trans lt before) interpolable] at resolved
    rw [resolveRuns_atomic (Nat.lt_trans after lt) before interpolable] at resolved'
    cases resolved
    cases resolved'
    exact ⟨Nat.le_refl _, Nat.le_refl _, ordered.2.1⟩
  | true =>
    rw [resolveRuns_exact after (Nat.lt_trans lt before) interpolable sliced
      (length interpolable)] at resolved
    rw [resolveRuns_exact (Nat.lt_trans after lt) before interpolable sliced
      (length interpolable)] at resolved'
    cases resolved
    cases resolved'
    have le : run.source.start + byteLen (text.take (offset - run.rendered.start)) ≤
        run.source.start + byteLen (text.take (second - run.rendered.start)) :=
      Nat.add_le_add_left (byteLen_take_le (by omega)) _
    exact ⟨le, le, le⟩

/-- Of two offsets the earlier one does not resolve behind the later one. -/
theorem ordered (behind : Behind source block first previous_end rest) (low : first ≤ offset)
    {second : Nat} (lt : offset < second) (high : second ≤ block.rendered_len)
    {one two : SourceResolution}
    (resolved : SpanMap.resolveRuns source block offset previous_end rest = some one)
    (resolved' : SpanMap.resolveRuns source block second previous_end rest = some two) :
    one.Le two := by
  induction rest generalizing first previous_end with
  | nil =>
    have stop : first = block.rendered_len := behind.tiles
    omega
  | cons run rest ih =>
    have start := behind.tiles.1
    have order := behind.source_ordered
    rcases Nat.lt_trichotomy offset run.rendered.start with early | same | late
    · omega
    · subst same
      rw [resolveRuns_start] at resolved
      cases resolved
      have behind_ : two.Within source run.source.start block.source.stop := by
        rcases Nat.lt_or_ge second run.rendered.stop with within | beyond
        · rcases behind.inside lt within with ⟨resolution, found, place⟩
          rw [resolved'] at found
          cases found
          exact place.mono (Nat.le_refl _) order.2.2
        · rw [resolveRuns_beyond behind.width beyond] at resolved'
          rcases behind.next.total beyond high with ⟨resolution, found, place⟩
          rw [resolved'] at found
          cases found
          exact place.mono order.2.1 (Nat.le_refl _)
      exact behind.at_start.le behind_ (Nat.le_refl _)
    · rcases Nat.lt_or_ge second run.rendered.stop with within | beyond
      · exact behind.inside_le late lt within resolved resolved'
      · rcases Nat.lt_or_ge offset run.rendered.stop with within | beyond'
        · rw [resolveRuns_beyond behind.width beyond] at resolved'
          rcases behind.next.total beyond high with ⟨resolution, found, place⟩
          rw [resolved'] at found
          cases found
          rcases behind.inside late within with ⟨resolution', found', place'⟩
          rw [resolved] at found'
          cases found'
          exact place'.le place (Nat.le_refl _)
        · rw [resolveRuns_beyond behind.width beyond] at resolved'
          rw [resolveRuns_beyond behind.width beyond'] at resolved
          exact ih behind.next beyond' resolved resolved'

/-- Directly behind a run, a selection ends where the run does. -/
theorem at_first {stop : Nat} (behind : Behind source block first (some stop) rest) :
    ∃ resolution, SpanMap.resolveRuns source block first (some stop) rest = some resolution ∧
      resolution.stop = stop := by
  cases rest with
  | nil => exact ⟨_, resolveRuns_nil, behind.ends rfl⟩
  | cons run rest =>
    have start := behind.tiles.1
    subst start
    exact ⟨_, resolveRuns_start, rfl⟩

end Behind

theorem InlineRun.Shows.placed {range : Range} (shows_ : run.Shows source offset range)
    (sliced : ∃ text, slice? source run.source = some text ∧
      (run.interpolable = true → text.length = run.rendered.stop - run.rendered.start)) :
    run.rendered.start ≤ offset ∧ offset < run.rendered.stop := by
  rcases sliced with ⟨text, sliced, length⟩
  cases shows_ with
  | character interpolable sliced' =>
    rw [sliced'] at sliced
    cases sliced
    have length := length interpolable
    rw [List.length_append, List.length_cons] at length
    omega
  | atomic _ _ start stop => exact ⟨start, stop⟩

theorem Tiles.start_le {runs : List InlineRun} {first stop : Nat} (tiles : Tiles first runs stop)
    (inside : run ∈ runs) : first ≤ run.rendered.start := by
  induction runs generalizing first with
  | nil => cases inside
  | cons head rest ih =>
    rcases tiles with ⟨start, width, tail⟩
    rcases List.mem_cons.mp inside with same | later
    · rw [same, start]
    · exact Nat.le_of_lt (Nat.lt_of_lt_of_le width (ih tail later))

/-- Every offset of the runs is in one of them. -/
theorem Tiles.exists_run {runs : List InlineRun} {first stop : Nat} (tiles : Tiles first runs stop)
    (low : first ≤ offset) (high : offset < stop) :
    ∃ run ∈ runs, run.rendered.start ≤ offset ∧ offset < run.rendered.stop := by
  induction runs generalizing first with
  | nil =>
    have stop_ : first = stop := tiles
    omega
  | cons head rest ih =>
    rcases tiles with ⟨start, width, tail⟩
    rcases Nat.lt_or_ge offset head.rendered.stop with inside | beyond
    · exact ⟨head, List.mem_cons_self, start ▸ low, inside⟩
    · rcases ih tail beyond with ⟨run, member, placed⟩
      exact ⟨run, List.mem_cons_of_mem _ member, placed⟩

theorem InlineRun.exists_shows (run : InlineRun)
    (sliced : ∃ text, slice? source run.source = some text ∧
      (run.interpolable = true → text.length = run.rendered.stop - run.rendered.start))
    (start : run.rendered.start ≤ offset) (stop : offset < run.rendered.stop) :
    ∃ range, run.Shows source offset range := by
  rcases sliced with ⟨text, sliced, length⟩
  cases interpolable : run.interpolable with
  | false => exact ⟨_, .atomic offset interpolable start stop⟩
  | true =>
    have inside : offset - run.rendered.start < text.length := by
      have length := length interpolable
      omega
    have whole : text = text.take (offset - run.rendered.start) ++
        text[offset - run.rendered.start] :: text.drop (offset - run.rendered.start + 1) := by
      rw [← List.drop_eq_getElem_cons inside, List.take_append_drop]
    rw [whole] at sliced
    have shows_ := InlineRun.Shows.character interpolable sliced
    rw [List.length_take_of_le (Nat.le_of_lt inside), Nat.add_sub_cancel' start] at shows_
    exact ⟨_, shows_⟩

namespace Behind

variable {first : Nat} {range : Range}

/-- A selection that starts at a character of the first run starts at its source. -/
theorem shows_start (behind : Behind source block first previous_end (run :: rest))
    (shows_ : run.Shows source offset range) :
    ∃ resolution, SpanMap.resolveRuns source block offset previous_end (run :: rest) =
      some resolution ∧ resolution.start = range.start := by
  have placed := shows_.placed (behind.sliced run List.mem_cons_self)
  rcases behind.sliced run List.mem_cons_self with ⟨text, sliced, length⟩
  rcases Nat.eq_or_lt_of_le placed.1 with same | after
  · subst same
    refine ⟨_, resolveRuns_start, ?_⟩
    generalize offset_eq : run.rendered.start = offset at shows_
    cases shows_ with
    | @character head tail c interpolable sliced' =>
      have none_ : head = [] := List.length_eq_zero_iff.mp (by omega)
      rw [none_]
      rfl
    | atomic _ _ _ _ => rfl
  · cases shows_ with
    | @character head tail c interpolable sliced' =>
      rw [sliced'] at sliced
      cases sliced
      refine ⟨_, resolveRuns_exact after placed.2 interpolable sliced' (length interpolable), ?_⟩
      rw [Nat.add_sub_cancel_left, List.take_left]
      rfl
    | atomic _ atomic _ _ => exact ⟨_, resolveRuns_atomic after placed.2 atomic, rfl⟩

/-- A selection that ends with a character of the first run ends at its source. -/
theorem shows_stop (behind : Behind source block first previous_end (run :: rest))
    (shows_ : run.Shows source offset range) :
    ∃ resolution, SpanMap.resolveRuns source block (offset + 1) previous_end (run :: rest) =
      some resolution ∧ resolution.stop = range.stop := by
  have placed := shows_.placed (behind.sliced run List.mem_cons_self)
  have after : run.rendered.start < offset + 1 := Nat.lt_succ_of_le placed.1
  rcases behind.sliced run List.mem_cons_self with ⟨text, sliced, length⟩
  rcases Nat.eq_or_lt_of_le (Nat.succ_le_of_lt placed.2) with same | before
  · -- The character is the last one of the run.
    rw [resolveRuns_beyond behind.width (Nat.le_of_eq same.symm)]
    have behind_ := behind.next
    rw [← same] at behind_
    rcases behind_.at_first with ⟨resolution, resolved, stop⟩
    refine ⟨resolution, resolved, ?_⟩
    rw [stop]
    cases shows_ with
    | @character head tail c interpolable sliced' =>
      rw [sliced'] at sliced
      cases sliced
      have length := length interpolable
      rw [List.length_append, List.length_cons] at length
      have none_ : tail = [] := List.length_eq_zero_iff.mp (by omega)
      subst none_
      rcases slice?_eq_some_iff.mp sliced' with ⟨_, _, -, start, stop⟩
      rw [byteLen_append, byteLen_cons, byteLen_nil] at stop
      dsimp only
      omega
    | atomic _ _ _ _ => rfl
  · cases shows_ with
    | @character head tail c interpolable sliced' =>
      rw [sliced'] at sliced
      cases sliced
      refine ⟨_, resolveRuns_exact after before interpolable sliced' (length interpolable), ?_⟩
      have taken : (head ++ c :: tail).take (run.rendered.start + head.length + 1 -
          run.rendered.start) = head ++ [c] := by
        rw [List.append_cons]
        apply List.take_left'
        rw [List.length_append, List.length_singleton]
        omega
      rw [taken, byteLen_append, byteLen_cons, byteLen_nil]
      exact (Nat.add_assoc _ _ _).symm
    | atomic _ atomic _ _ => exact ⟨_, resolveRuns_atomic after before atomic, rfl⟩

/-- The source of a character is what a selection of it alone resolves to. -/
theorem selects (behind : Behind source block first previous_end rest) (inside : run ∈ rest)
    (shows_ : run.Shows source offset range) :
    ∃ one two, SpanMap.resolveRuns source block offset previous_end rest = some one ∧
      SpanMap.resolveRuns source block (offset + 1) previous_end rest = some two ∧
      range = ⟨one.start, two.stop⟩ := by
  induction rest generalizing first previous_end with
  | nil => cases inside
  | cons head rest ih =>
    rcases List.mem_cons.mp inside with same | later
    · subst same
      rcases behind.shows_start shows_ with ⟨one, resolved, start⟩
      rcases behind.shows_stop shows_ with ⟨two, resolved', stop⟩
      refine ⟨one, two, resolved, resolved', ?_⟩
      rw [start, stop]
    · have start := behind.next.tiles.start_le later
      have placed := shows_.placed (behind.sliced run inside)
      rw [resolveRuns_beyond behind.width (by omega), resolveRuns_beyond behind.width (by omega)]
      exact ih behind.next later

end Behind

end Runs

end Burlmd.Markdown
