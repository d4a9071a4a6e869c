import Mathlib.Data.List.Basic
import Mathlib.Data.List.TakeWhile
import Mathlib.Data.Nat.Init
import Mathlib.Tactic.Common

/-!
# Escapes and code spans

Inline text is read from the left. Outside of code a backslash escapes what can be escaped; a
run of ticks opens a code span if a later run is as long, and the first such run closes it.
-/

namespace Burlmd.CodeSpans

universe u
variable {α : Type u} [DecidableEq α]

/-- The items that count. -/
structure Marks (α : Type u) where
  tick : α
  backslash : α
  space : α
  escapable : α → Bool
  tick_escapable : escapable tick = true
  backslash_ne_tick : backslash ≠ tick
  space_ne_tick : space ≠ tick

namespace Marks

variable (marks : Marks α)

/-! ## Runs of ticks -/

/-- How many items there are up to the end of the first run of `n` ticks, where `k` ticks of a
run are read already. -/
@[grind =] def closes? (n : Nat) : Nat → List α → Option Nat
  | k, [] => if k = n then some 0 else none
  | k, c :: rest =>
      if c = marks.tick then (closes? n (k + 1) rest).map (· + 1)
      else if k = n then some 0
      else (closes? n 0 rest).map (· + 1)

/-- The ticks of a run read at the end, if no run of `n` ended before. -/
@[grind =] def passes (n : Nat) : Nat → List α → Option Nat
  | k, [] => some k
  | k, c :: rest =>
      if c = marks.tick then passes n (k + 1) rest else if k = n then none else passes n 0 rest

/-- How long the runs are. -/
@[grind =] def runs : Nat → List α → List Nat
  | k, [] => if k = 0 then [] else [k]
  | k, c :: rest =>
      if c = marks.tick then runs (k + 1) rest else (if k = 0 then [] else [k]) ++ runs 0 rest

variable {marks}

theorem closes?_append_of_passes {n k k' : Nat} {first : List α}
    (quiet : marks.passes n k first = some k') (second : List α) :
    marks.closes? n k (first ++ second) =
      (marks.closes? n k' second).map (first.length + ·) := by
  induction first generalizing k with
  | nil =>
    cases quiet
    simp
  | cons c rest ih =>
    rw [passes] at quiet
    rw [List.cons_append, closes?]
    have shift (found : Option Nat) : (found.map (rest.length + ·)).map (· + 1) =
        found.map ((c :: rest).length + ·) := by
      cases found with
      | none => rfl
      | some e =>
        simp only [Option.map_some, List.length_cons]
        congr 1
        omega
    by_cases isTick : c = marks.tick
    · rw [if_pos isTick] at quiet ⊢
      rw [ih quiet, shift]
    · rw [if_neg isTick] at quiet ⊢
      by_cases ends : k = n
      · rw [if_pos ends] at quiet
        cases quiet
      · rw [if_neg ends] at quiet ⊢
        rw [ih quiet, shift]

/-- A run that ends inside the first text ends there whatever follows. -/
theorem closes?_append_of_ends {n k : Nat} {first : List α}
    (ends : marks.passes n k first = none) (second : List α) :
    ∃ e < first.length, marks.closes? n k first = some e ∧
      marks.closes? n k (first ++ second) = some e := by
  induction first generalizing k with
  | nil => cases ends
  | cons c rest ih =>
    rw [passes] at ends
    rw [List.cons_append, closes?, closes?]
    by_cases isTick : c = marks.tick
    · rw [if_pos isTick] at ends ⊢
      rcases ih ends with ⟨e, inside, own, whole⟩
      refine ⟨e + 1, ?_, ?_, ?_⟩
      · simpa using inside
      · rw [own, Option.map_some]
      · rw [if_pos isTick, whole, Option.map_some]
    · rw [if_neg isTick] at ends ⊢
      rw [if_neg isTick]
      by_cases here : k = n
      · rw [if_pos here, if_pos here]
        exact ⟨0, by simp, rfl, rfl⟩
      · rw [if_neg here] at ends ⊢
        rw [if_neg here]
        rcases ih ends with ⟨e, inside, own, whole⟩
        refine ⟨e + 1, ?_, ?_, ?_⟩
        · simpa using inside
        · rw [own, Option.map_some]
        · rw [whole, Option.map_some]

/-- Behind an item that is no tick no run is open. -/
theorem passes_concat {n k k' : Nat} {first : List α} {c : α} (plain : c ≠ marks.tick)
    (quiet : marks.passes n k (first ++ [c]) = some k') : k' = 0 := by
  induction first generalizing k with
  | nil =>
    rw [List.nil_append, passes, if_neg plain] at quiet
    split at quiet
    · cases quiet
    · exact (Option.some.inj quiet).symm
  | cons d rest ih =>
    rw [List.cons_append, passes] at quiet
    split at quiet
    · exact ih quiet
    · split at quiet
      · cases quiet
      · exact ih quiet

theorem closes?_isSome_iff {n : Nat} (some_ : n ≠ 0) {k : Nat} {text : List α} :
    (marks.closes? n k text).isSome ↔ n ∈ marks.runs k text := by
  induction text generalizing k with
  | nil =>
    rw [closes?, runs]
    by_cases ends : k = n
    · simp [ends, some_]
    · by_cases zero : k = 0
      · simp [zero, some_.symm]
      · simp [ends, zero, Ne.symm ends]
  | cons c rest ih =>
    rw [closes?, runs]
    by_cases isTick : c = marks.tick
    · simp [isTick, ih]
    · by_cases ends : k = n
      · simp [isTick, ends, some_]
      · by_cases zero : k = 0
        · simp [isTick, zero, some_.symm, ih]
        · simp [isTick, ends, zero, Ne.symm ends, ih]

theorem closes?_eq_none_iff {n : Nat} (some_ : n ≠ 0) {k : Nat} {text : List α} :
    marks.closes? n k text = none ↔ n ∉ marks.runs k text := by
  rw [← closes?_isSome_iff some_, Option.not_isSome_iff_eq_none]

/-- What closes a span is as many ticks as are asked for. -/
theorem exists_of_closes? {n k e : Nat} {text : List α}
    (found : marks.closes? n k text = some e) :
    e ≤ text.length ∧ ∃ content, List.replicate k marks.tick ++ text.take e =
      content ++ List.replicate n marks.tick := by
  induction text generalizing k e with
  | nil =>
    rw [closes?] at found
    split at found
    · rename_i same
      cases found
      exact ⟨Nat.le_refl _, [], by simp [same]⟩
    · cases found
  | cons c rest ih =>
    rw [closes?] at found
    split at found
    · rename_i isTick
      rcases Option.map_eq_some_iff.mp found with ⟨e', found', same⟩
      subst same
      rcases ih found' with ⟨bound, content, whole⟩
      refine ⟨Nat.succ_le_succ bound, content, ?_⟩
      rw [List.take_succ_cons, ← whole, isTick, List.replicate_succ']
      simp
    · split at found
      · rename_i same
        cases found
        exact ⟨Nat.zero_le _, [], by simp [same]⟩
      · rcases Option.map_eq_some_iff.mp found with ⟨e', found', same⟩
        subst same
        rcases ih found' with ⟨bound, content, whole⟩
        refine ⟨Nat.succ_le_succ bound, List.replicate k marks.tick ++ c :: content, ?_⟩
        rw [List.replicate_zero, List.nil_append] at whole
        rw [List.take_succ_cons, whole]
        simp

theorem runs_append_of_head {second : List α} (starts : ∀ c ∈ second.head?, c ≠ marks.tick)
    (k : Nat) (first : List α) :
    marks.runs k (first ++ second) = marks.runs k first ++ marks.runs 0 second := by
  induction first generalizing k with
  | nil =>
    cases second with
    | nil => simp [runs]
    | cons d others =>
      have plain : d ≠ marks.tick := starts d rfl
      simp [runs, plain]
  | cons c rest ih =>
    rw [List.cons_append, runs, runs]
    by_cases isTick : c = marks.tick
    · rw [if_pos isTick, if_pos isTick, ih]
    · rw [if_neg isTick, if_neg isTick, ih, List.append_assoc]

theorem runs_append_of_last {c : α} (plain : c ≠ marks.tick) (k : Nat) (first second : List α) :
    marks.runs k ((first ++ [c]) ++ second) = marks.runs k (first ++ [c]) ++ marks.runs 0 second := by
  induction first generalizing k with
  | nil => simp [runs, plain]
  | cons d rest ih =>
    rw [List.cons_append, List.cons_append, runs, runs]
    by_cases isTick : d = marks.tick
    · rw [if_pos isTick, if_pos isTick, ih]
    · rw [if_neg isTick, if_neg isTick, ih, List.append_assoc]

theorem runs_replicate (n k : Nat) :
    marks.runs k (List.replicate n marks.tick) = if n + k = 0 then [] else [n + k] := by
  induction n generalizing k with
  | zero => simp [runs]
  | succ n ih =>
    rw [List.replicate_succ, runs, if_pos rfl, ih]
    have same : n + (k + 1) = n + 1 + k := by omega
    rw [same]

end Marks

/-! ## Reading -/

inductive Piece (α : Type u) where
  | item (c : α)
  | escape (c : α)
  /-- A run that opens nothing. -/
  | run (n : Nat)
  | code (n : Nat) (content : List α)

namespace Marks

variable (marks : Marks α)

def ticks (n : Nat) : List α := List.replicate n marks.tick

def text : Piece α → List α
  | .item c => [c]
  | .escape c => [marks.backslash, c]
  | .run n => marks.ticks n
  | .code n content => marks.ticks n ++ content ++ marks.ticks n

/-- The piece that a run of `n` ticks starts, with what is behind the run. -/
def afterRun (n : Nat) (behind : List α) : Piece α × List α :=
  match marks.closes? n 0 behind with
  | some e => (.code n (behind.take (e - n)), behind.drop e)
  | none => (.run n, behind)

/-- The first piece of a text that starts with `c`, and what is behind it. -/
def next (c : α) (rest : List α) : Piece α × List α :=
  if c = marks.backslash then
    match rest with
    | [] => (.item c, [])
    | d :: behind => if marks.escapable d then (.escape d, behind) else (.item c, d :: behind)
  else if c = marks.tick then
    marks.afterRun ((rest.takeWhile (· = marks.tick)).length + 1)
      (rest.dropWhile (· = marks.tick))
  else (.item c, rest)

def readFrom : Nat → List α → List (Piece α)
  | 0, _ => []
  | _ + 1, [] => []
  | fuel + 1, c :: rest => (marks.next c rest).1 :: readFrom fuel (marks.next c rest).2

def read (text : List α) : List (Piece α) := marks.readFrom text.length text

def allText (pieces : List (Piece α)) : List α := pieces.flatMap marks.text

omit [DecidableEq α] in
theorem allText_around (before after : List (Piece α)) (n : Nat) (content : List α) :
    marks.allText (before ++ .code n content :: after) =
      marks.allText before ++ (marks.ticks n ++ content ++ marks.ticks n ++ marks.allText after) := by
  unfold allText
  rw [List.flatMap_append, List.flatMap_cons, text]

/-- The content of a code span as it is shown: without one space at both ends, if there is
anything else. -/
def strip (content : List α) : List α :=
  if content.head? = some marks.space ∧ content.getLast? = some marks.space ∧
      ∃ c ∈ content, c ≠ marks.space then content.tail.dropLast
  else content

variable {marks}

theorem afterRun_length (n : Nat) (behind : List α) :
    (marks.afterRun n behind).2.length ≤ behind.length := by
  unfold afterRun
  split
  · exact (List.drop_sublist _ _).length_le
  · exact Nat.le_refl _

theorem afterRun_text (n : Nat) (behind : List α) :
    marks.text (marks.afterRun n behind).1 ++ (marks.afterRun n behind).2 =
      marks.ticks n ++ behind := by
  unfold afterRun
  split
  · rename_i e found
    rcases exists_of_closes? found with ⟨bound, content, whole⟩
    rw [List.replicate_zero, List.nil_append] at whole
    have length := congrArg List.length whole
    rw [List.length_take, Nat.min_eq_left bound, List.length_append, List.length_replicate]
      at length
    have inner : behind.take (e - n) = content := by
      have early : e - n = content.length := by omega
      have within : content.length ≤ e := by omega
      rw [early, ← Nat.min_eq_left within, ← List.take_take, whole, List.take_left]
    have closing : content ++ marks.ticks n ++ behind.drop e = behind := by
      unfold ticks
      rw [← whole, List.take_append_drop]
    rw [text, inner]
    simp only [List.append_assoc] at closing ⊢
    rw [closing]
  · rfl

theorem next_length (c : α) (rest : List α) : (marks.next c rest).2.length ≤ rest.length := by
  have shorter : (rest.dropWhile (· = marks.tick)).length ≤ rest.length :=
    (List.dropWhile_sublist _).length_le
  unfold next
  split
  · cases rest with
    | nil => exact Nat.le_refl _
    | cons d behind =>
      dsimp only
      split
      · exact Nat.le_succ _
      · exact Nat.le_refl _
  · split
    · exact Nat.le_trans (afterRun_length _ _) shorter
    · exact Nat.le_refl _

theorem readFrom_eq {fuel : Nat} {text : List α} (enough : text.length ≤ fuel) :
    marks.readFrom fuel text = marks.read text := by
  have more (fuel : Nat) (text : List α) (enough : text.length ≤ fuel) :
      marks.readFrom fuel text = marks.readFrom (fuel + 1) text := by
    induction fuel generalizing text with
    | zero =>
      have empty := List.eq_nil_of_length_eq_zero (Nat.le_zero.mp enough)
      rw [empty]
      rfl
    | succ fuel ih =>
      cases text with
      | nil => rfl
      | cons c rest =>
        have shorter : (marks.next c rest).2.length ≤ rest.length := next_length c rest
        have bound : rest.length ≤ fuel := Nat.le_of_succ_le_succ enough
        rw [readFrom, readFrom, ih _ (Nat.le_trans shorter bound)]
  unfold read
  induction fuel with
  | zero =>
    have empty := List.eq_nil_of_length_eq_zero (Nat.le_zero.mp enough)
    rw [empty]
    rfl
  | succ fuel ih =>
    by_cases whole : text.length = fuel + 1
    · rw [whole]
    · have bound : text.length ≤ fuel := by omega
      rw [← more fuel text bound, ih bound]

@[simp] theorem read_nil : marks.read [] = [] := rfl

theorem read_cons (c : α) (rest : List α) :
    marks.read (c :: rest) = (marks.next c rest).1 :: marks.read (marks.next c rest).2 := by
  rw [← readFrom_eq (next_length c rest)]
  rfl

theorem takeWhile_eq_ticks (text : List α) :
    text.takeWhile (· = marks.tick) =
      marks.ticks (text.takeWhile (· = marks.tick)).length := by
  apply List.eq_replicate_of_mem
  intro c inside
  simpa using List.mem_takeWhile_imp inside

/-- Nothing of a text is lost. -/
theorem next_text (c : α) (rest : List α) :
    marks.text (marks.next c rest).1 ++ (marks.next c rest).2 = c :: rest := by
  unfold next
  split
  · rename_i isBackslash
    cases rest with
    | nil => rfl
    | cons d behind =>
      dsimp only
      split
      · rw [isBackslash]
        rfl
      · rfl
  · split
    · rename_i isTick
      have cut : marks.ticks ((rest.takeWhile (· = marks.tick)).length + 1) ++
          rest.dropWhile (· = marks.tick) = c :: rest := by
        unfold ticks
        rw [List.replicate_succ, List.cons_append, isTick]
        congr 1
        have run : rest.takeWhile (· = marks.tick) =
            marks.ticks (rest.takeWhile (· = marks.tick)).length := takeWhile_eq_ticks rest
        unfold ticks at run
        rw [← run]
        exact List.takeWhile_append_dropWhile
      exact (afterRun_text _ _).trans cut
    · rfl

/-- No piece is empty. -/
theorem text_next_ne_nil (c : α) (rest : List α) : marks.text (marks.next c rest).1 ≠ [] := by
  unfold next
  split
  · cases rest with
    | nil => exact List.cons_ne_nil _ _
    | cons d behind =>
      dsimp only
      split <;> exact List.cons_ne_nil _ _
  · split
    · unfold afterRun
      split
      · exact List.cons_ne_nil _ _
      · exact List.cons_ne_nil _ _
    · exact List.cons_ne_nil _ _

theorem allText_read (text : List α) : marks.allText (marks.read text) = text := by
  induction length : text.length using Nat.strong_induction_on generalizing text with
  | h n ih =>
    cases text with
    | nil => rfl
    | cons c rest =>
      have shorter : (marks.next c rest).2.length ≤ rest.length := next_length c rest
      have less : (marks.next c rest).2.length < n := by
        rw [← length, List.length_cons]
        omega
      have behind := ih _ less (marks.next c rest).2 rfl
      rw [read_cons]
      unfold allText at behind ⊢
      rw [List.flatMap_cons, behind, next_text]

/-! ## Reading a beginning -/

/-- A text that may be followed by ticks: its own runs are over. -/
def Closed (marks : Marks α) (text : List α) : Prop := text.getLast? ≠ some marks.tick

omit [DecidableEq α] in
theorem Closed.tail {c : α} {rest : List α} (closed : marks.Closed (c :: rest)) :
    marks.Closed rest := by
  cases rest with
  | nil => exact fun never => by cases never
  | cons d behind =>
    unfold Closed at closed ⊢
    rwa [List.getLast?_cons_cons] at closed

omit [DecidableEq α] in
theorem Closed.drop {text : List α} (closed : marks.Closed text) (n : Nat) :
    marks.Closed (text.drop n) := by
  induction n generalizing text with
  | zero => exact closed
  | succ n ih =>
    cases text with
    | nil => exact closed
    | cons c rest => exact ih closed.tail

omit [DecidableEq α] in
theorem Closed.dropWhile {text : List α} (closed : marks.Closed text) (p : α → Bool) :
    marks.Closed (text.dropWhile p) := by
  induction text with
  | nil => exact closed
  | cons c rest ih =>
    rw [List.dropWhile_cons]
    split
    · exact ih closed.tail
    · exact closed

/-- Behind a closed text no run is open. -/
theorem Closed.passes {text : List α} (closed : marks.Closed text) {n k' : Nat}
    (quiet : marks.passes n 0 text = some k') : k' = 0 := by
  rcases List.eq_nil_or_concat' text with empty | ⟨front, last, whole⟩
  · rw [empty] at quiet
    exact (Option.some.inj quiet).symm
  · have plain : last ≠ marks.tick := by
      intro same
      apply closed
      rw [whole, same, List.getLast?_concat]
    rw [whole] at quiet
    exact passes_concat plain quiet

theorem dropWhile_append_of_closed {rest : List α} {c : α} (closed : marks.Closed (c :: rest))
    (isTick : c = marks.tick) (tail : List α) :
    (rest ++ tail).takeWhile (· = marks.tick) = rest.takeWhile (· = marks.tick) ∧
      (rest ++ tail).dropWhile (· = marks.tick) = rest.dropWhile (· = marks.tick) ++ tail := by
  induction rest generalizing c with
  | nil => exact absurd (congrArg some isTick) closed
  | cons d behind ih =>
    by_cases same : d = marks.tick
    · have both := ih closed.tail same
      simp [same, both]
    · simp [same]

theorem afterRun_append {n : Nat} (positive : 0 < n) {behind : List α}
    (closed : marks.Closed behind) {tail : List α}
    (unclosed : ∀ m, (marks.afterRun n behind).1 = .run m → marks.closes? m 0 tail = none) :
    marks.afterRun n (behind ++ tail) =
      ((marks.afterRun n behind).1, (marks.afterRun n behind).2 ++ tail) := by
  unfold afterRun at unclosed ⊢
  cases inside : marks.passes n 0 behind with
  | none =>
    rcases closes?_append_of_ends inside tail with ⟨e, within, own, whole⟩
    rw [own, whole]
    dsimp only
    rw [List.take_append_of_le_length (Nat.le_trans (Nat.sub_le _ _) (Nat.le_of_lt within)),
      List.drop_append_of_le_length (Nat.le_of_lt within)]
  | some k =>
    have own : marks.closes? n 0 behind = none := by
      have alone := closes?_append_of_passes inside []
      rw [List.append_nil, closed.passes inside, closes?, if_neg (Nat.ne_of_lt positive)] at alone
      exact alone
    rw [own] at unclosed ⊢
    rw [closes?_append_of_passes inside, closed.passes inside, unclosed n rfl]
    rfl

/-- A span that ends in a closed text is closed there. -/
theorem afterRun_within {n : Nat} (positive : 0 < n) {behind : List α}
    (closed : marks.Closed behind) {tail : List α}
    (within : (marks.text (marks.afterRun n (behind ++ tail)).1).length ≤ n + behind.length)
    {m : Nat} (isRun : (marks.afterRun n behind).1 = .run m) : marks.closes? m 0 tail = none := by
  unfold afterRun at within isRun
  cases inside : marks.passes n 0 behind with
  | none =>
    rcases closes?_append_of_ends inside tail with ⟨e, _, own, _⟩
    rw [own] at isRun
    cases isRun
  | some k =>
    have own : marks.closes? n 0 behind = none := by
      have alone := closes?_append_of_passes inside []
      rw [List.append_nil, closed.passes inside, closes?, if_neg (Nat.ne_of_lt positive)] at alone
      exact alone
    rw [own] at isRun
    cases isRun
    cases found : marks.closes? n 0 tail with
    | none => rfl
    | some e =>
      -- the run would be closed behind the text, at `behind.length + e`
      rcases exists_of_closes? found with ⟨bound, content, whole⟩
      rw [closes?_append_of_passes inside, closed.passes inside, found] at within
      rw [List.replicate_zero, List.nil_append] at whole
      have length := congrArg List.length whole
      rw [List.length_take, Nat.min_eq_left bound, List.length_append, List.length_replicate]
        at length
      simp only [Option.map_some, text, ticks, List.length_append, List.length_replicate,
        List.length_take] at within
      omega

/-- The next piece does not see what follows, unless it is a backslash at the end or a run that
is closed later. -/
theorem next_append {c : α} {rest tail : List α} (closed : marks.Closed (c :: rest))
    (unescaped : ¬ (c = marks.backslash ∧ rest = []))
    (unclosed : ∀ n, (marks.next c rest).1 = .run n → marks.closes? n 0 tail = none) :
    marks.next c (rest ++ tail) = ((marks.next c rest).1, (marks.next c rest).2 ++ tail) := by
  unfold next at unclosed ⊢
  by_cases isBackslash : c = marks.backslash
  · rw [if_pos isBackslash, if_pos isBackslash]
    cases rest with
    | nil => exact absurd ⟨isBackslash, rfl⟩ unescaped
    | cons d behind =>
      dsimp only [List.cons_append]
      split <;> rfl
  by_cases isTick : c = marks.tick
  · rw [if_neg isBackslash, if_pos isTick] at unclosed ⊢
    rw [if_neg isBackslash, if_pos isTick]
    rcases dropWhile_append_of_closed closed isTick tail with ⟨run, behind⟩
    rw [run, behind]
    exact afterRun_append (Nat.succ_pos _) (closed.tail.dropWhile _) unclosed
  · rw [if_neg isBackslash, if_neg isTick, if_neg isBackslash, if_neg isTick]

/-- A piece that ends in a closed text leaves the ticks behind it to themselves. -/
theorem next_within {c : α} {rest tail : List α} (closed : marks.Closed (c :: rest))
    (ticks : tail.head? = some marks.tick)
    (within : (marks.text (marks.next c (rest ++ tail)).1).length ≤ rest.length + 1) :
    ¬ (c = marks.backslash ∧ rest = []) ∧
      ∀ n, (marks.next c rest).1 = .run n → marks.closes? n 0 tail = none := by
  unfold next at within ⊢
  by_cases isBackslash : c = marks.backslash
  · rw [if_pos isBackslash] at within
    rw [if_pos isBackslash]
    cases rest with
    | nil =>
      cases tail with
      | nil => cases ticks
      | cons d behind =>
        -- the backslash would escape the first tick
        have isTick : d = marks.tick := Option.some.inj ticks
        simp [isTick, marks.tick_escapable, text] at within
    | cons d behind =>
      refine ⟨fun last => (List.cons_ne_nil _ _ last.2).elim, ?_⟩
      intro n isRun
      dsimp only at isRun
      split at isRun <;> cases isRun
  by_cases isTick : c = marks.tick
  · refine ⟨fun last => isBackslash last.1, ?_⟩
    rw [if_neg isBackslash, if_pos isTick] at within
    rw [if_neg isBackslash, if_pos isTick]
    rcases dropWhile_append_of_closed closed isTick tail with ⟨run, behind⟩
    rw [run, behind] at within
    intro n isRun
    have positive : 0 < (rest.takeWhile (· = marks.tick)).length + 1 := Nat.succ_pos _
    refine afterRun_within positive (closed.tail.dropWhile _) ?_ isRun
    have lengths := congrArg List.length
      (List.takeWhile_append_dropWhile (p := (· = marks.tick)) (l := rest))
    rw [List.length_append] at lengths
    omega
  · refine ⟨fun last => isBackslash last.1, ?_⟩
    intro n isRun
    rw [if_neg isBackslash, if_neg isTick] at isRun
    cases isRun

/-- A closed text is read as it is alone, if it does not end in a backslash and no run in it is
closed behind it. -/
theorem read_append {first tail : List α} (closed : marks.Closed first)
    (unescaped : ∀ piece ∈ (marks.read first).getLast?, piece ≠ .item marks.backslash)
    (unclosed : ∀ n, .run n ∈ marks.read first → marks.closes? n 0 tail = none) :
    marks.read (first ++ tail) = marks.read first ++ marks.read tail := by
  induction length : first.length using Nat.strong_induction_on generalizing first with
  | h n ih =>
    cases first with
    | nil => rfl
    | cons c rest =>
      have shorter : (marks.next c rest).2.length ≤ rest.length := next_length c rest
      have less : (marks.next c rest).2.length < n := by
        rw [← length, List.length_cons]
        omega
      rw [read_cons] at unescaped unclosed
      have ends : marks.Closed (marks.next c rest).2 := by
        have whole : marks.text (marks.next c rest).1 ++ (marks.next c rest).2 = c :: rest :=
        next_text c rest
        have cut := closed.drop (marks.text (marks.next c rest).1).length
        rwa [← whole, List.drop_left] at cut
      have here : ¬ (c = marks.backslash ∧ rest = []) := by
        intro last
        rcases last with ⟨isBackslash, empty⟩
        rw [empty, next, if_pos isBackslash] at unescaped
        exact unescaped _ rfl (congrArg Piece.item isBackslash)
      have piece : marks.next c (rest ++ tail) =
          ((marks.next c rest).1, (marks.next c rest).2 ++ tail) :=
        next_append closed here fun n isRun => unclosed n (isRun ▸ List.mem_cons_self)
      have behind := ih _ less ends ?_ ?_ rfl
      · rw [List.cons_append, read_cons, piece, read_cons, behind, List.cons_append]
      · intro last mem
        apply unescaped
        cases pieces : marks.read (marks.next c rest).2 with
        | nil =>
          rw [pieces] at mem
          cases mem
        | cons second others =>
          rw [List.getLast?_cons_cons, ← pieces]
          exact mem
      · intro n inside
        exact unclosed n (List.mem_cons_of_mem _ inside)

/-- If a closed text with ticks behind it is read up to its end, it is read as it is alone. -/
theorem read_of_append {first tail : List α} (closed : marks.Closed first)
    (ticks : tail.head? = some marks.tick) {before after : List (Piece α)}
    (pieces : marks.read (first ++ tail) = before ++ after) (cut : marks.allText before = first) :
    marks.read first = before ∧ marks.read tail = after ∧
      (∀ piece ∈ before.getLast?, piece ≠ .item marks.backslash) ∧
      ∀ n, .run n ∈ before → marks.closes? n 0 tail = none := by
  induction before generalizing first with
  | nil =>
    subst cut
    refine ⟨rfl, pieces, ?_, ?_⟩
    · intro piece never
      cases never
    · intro n never
      cases never
  | cons piece others ih =>
    cases first with
    | nil =>
      exfalso
      cases tail with
      | nil => cases ticks
      | cons d behind =>
        rw [List.nil_append, read_cons, List.cons_append, List.cons.injEq] at pieces
        apply (text_next_ne_nil d behind : marks.text (marks.next d behind).1 ≠ [])
        rw [pieces.1]
        exact (List.append_eq_nil_iff.mp cut).1
    | cons c rest =>
      rw [List.cons_append, read_cons, List.cons_append, List.cons.injEq] at pieces
      rcases pieces with ⟨isPiece, behind⟩
      have within : (marks.text (marks.next c (rest ++ tail)).1).length ≤ rest.length + 1 := by
        rw [isPiece]
        have length := congrArg List.length cut
        simp only [allText, List.flatMap_cons, List.length_append, List.length_cons] at length
        omega
      rcases next_within closed ticks within with ⟨unescaped, unclosed⟩
      have next_eq := next_append closed unescaped unclosed
      rw [next_eq] at isPiece behind
      have whole : marks.text (marks.next c rest).1 ++ (marks.next c rest).2 = c :: rest :=
        next_text c rest
      have ends : marks.Closed (marks.next c rest).2 := by
        have cut := closed.drop (marks.text (marks.next c rest).1).length
        rwa [← whole, List.drop_left] at cut
      have rest_cut : marks.allText others = (marks.next c rest).2 := by
        have split := cut
        unfold allText at split ⊢
        rw [List.flatMap_cons, ← isPiece, ← whole] at split
        exact List.append_cancel_left split
      rcases ih ends behind rest_cut with ⟨own, tail_read, last, quiet⟩
      dsimp only at isPiece
      rw [isPiece] at whole
      refine ⟨?_, tail_read, ?_, ?_⟩
      · rw [read_cons, own, isPiece]
      · intro end_ mem
        cases others with
        | nil =>
          cases Option.some.inj mem
          intro isBackslash
          apply unescaped
          have single : piece = .item marks.backslash := isBackslash
          have empty : (marks.next c rest).2 = [] := rest_cut.symm
          rw [single, empty] at whole
          exact ⟨(List.cons.inj whole).1.symm, (List.cons.inj whole).2.symm⟩
        | cons second more =>
          rw [List.getLast?_cons_cons] at mem
          exact last end_ mem
      · intro n inside
        rcases List.mem_cons.mp inside with same | inside
        · exact unclosed n (isPiece.trans same.symm)
        · exact quiet n inside

theorem next_run_pos {c : α} {rest : List α} {n : Nat}
    (isRun : (marks.next c rest).1 = .run n) : 0 < n := by
  unfold next at isRun
  split at isRun
  · cases rest with
    | nil => cases isRun
    | cons d behind =>
      dsimp only at isRun
      split at isRun <;> cases isRun
  · split at isRun
    · unfold afterRun at isRun
      split at isRun
      · cases isRun
      · cases isRun
        exact Nat.succ_pos _
    · cases isRun

theorem read_run_pos {text : List α} {n : Nat} (inside : .run n ∈ marks.read text) : 0 < n := by
  induction length : text.length using Nat.strong_induction_on generalizing text with
  | h m ih =>
    cases text with
    | nil => cases inside
    | cons c rest =>
      have shorter : (marks.next c rest).2.length ≤ rest.length := next_length c rest
      have less : (marks.next c rest).2.length < m := by
        rw [← length, List.length_cons]
        omega
      rw [read_cons] at inside
      rcases List.mem_cons.mp inside with same | inside
      · exact next_run_pos same.symm
      · exact ih _ less inside rfl

/-! ## A span in a text -/

section Span

variable {n : Nat} {content post : List α}

/-- Content that stands by itself between two runs. -/
structure Enclosed (marks : Marks α) (content : List α) : Prop where
  nonempty : content ≠ []
  starts : content.head? ≠ some marks.tick
  ends : content.getLast? ≠ some marks.tick

omit [DecidableEq α] in
theorem Enclosed.exists_concat (enclosed : marks.Enclosed content) :
    ∃ front last, content = front ++ [last] ∧ last ≠ marks.tick := by
  rcases List.eq_nil_or_concat' content with empty | ⟨front, last, whole⟩
  · exact absurd empty enclosed.nonempty
  · refine ⟨front, last, whole, ?_⟩
    intro same
    apply enclosed.ends
    rw [whole, same, List.getLast?_concat]

omit [DecidableEq α] in
theorem Enclosed.head_append (enclosed : marks.Enclosed content) (post : List α) :
    ∀ c ∈ (content ++ post).head?, c ≠ marks.tick := by
  intro c mem same
  cases content with
  | nil => exact enclosed.nonempty rfl
  | cons d rest =>
    apply enclosed.starts
    cases Option.some.inj mem
    rw [← same]
    rfl

theorem runs_span (positive : 0 < n) (enclosed : marks.Enclosed content)
    (apart : ∀ c ∈ post.head?, c ≠ marks.tick) :
    marks.runs 0 (marks.ticks n ++ content ++ marks.ticks n ++ post) =
      n :: marks.runs 0 content ++ n :: marks.runs 0 post := by
  have own : marks.runs 0 (marks.ticks n) = [n] := by
    have some_ : ¬ n + 0 = 0 := by omega
    rw [ticks, runs_replicate, if_neg some_, Nat.add_zero]
  rcases enclosed.exists_concat with ⟨front, last, whole, plain⟩
  rw [List.append_assoc, List.append_assoc, runs_append_of_head (enclosed.head_append _), own]
  rw [whole, runs_append_of_last plain, ← whole, runs_append_of_head apart, own]
  simp

theorem closes?_span (positive : 0 < n) (enclosed : marks.Enclosed content)
    (other : n ∉ marks.runs 0 content) (apart : ∀ c ∈ post.head?, c ≠ marks.tick) :
    marks.closes? n 0 (content ++ marks.ticks n ++ post) = some (content.length + n) := by
  have closed : marks.Closed content := enclosed.ends
  have some_ : n ≠ 0 := by omega
  have reach (k m : Nat) : marks.closes? n k (marks.ticks m ++ post) =
      (marks.closes? n (k + m) post).map (m + ·) := by
    induction m generalizing k with
    | zero => simp [ticks]
    | succ m ih =>
      rw [ticks] at ih ⊢
      rw [List.replicate_succ, List.cons_append, closes?, if_pos rfl, ih]
      have same : k + 1 + m = k + (m + 1) := by omega
      rw [same, Option.map_map]
      congr 1
      funext e
      show m + e + 1 = m + 1 + e
      omega
  have here : marks.closes? n n post = some 0 := by
    cases post with
    | nil => rw [closes?, if_pos rfl]
    | cons c rest => rw [closes?, if_neg (apart c rfl), if_pos rfl]
  rw [List.append_assoc]
  cases inside : marks.passes n 0 content with
  | none =>
    rcases closes?_append_of_ends inside [] with ⟨e, _, own, _⟩
    rw [(closes?_eq_none_iff some_).mpr other] at own
    cases own
  | some k =>
    rw [closes?_append_of_passes inside, closed.passes inside, reach, Nat.zero_add, here]
    rfl

/-- A span is read where its opening run is read. -/
theorem read_span (positive : 0 < n) (enclosed : marks.Enclosed content)
    (other : n ∉ marks.runs 0 content) (apart : ∀ c ∈ post.head?, c ≠ marks.tick) :
    marks.read (marks.ticks n ++ content ++ marks.ticks n ++ post) =
      .code n content :: marks.read post := by
  rcases Nat.exists_eq_add_of_lt positive with ⟨more, count⟩
  have opening : marks.ticks n = marks.tick :: marks.ticks more := by
    rw [count, Nat.zero_add]
    exact List.replicate_succ
  have starts := enclosed.head_append (marks.ticks n ++ post)
  have run : (marks.ticks more ++ (content ++ (marks.ticks n ++ post))).takeWhile
      (· = marks.tick) = marks.ticks more ∧
      (marks.ticks more ++ (content ++ (marks.ticks n ++ post))).dropWhile (· = marks.tick) =
        content ++ (marks.ticks n ++ post) := by
    clear opening count
    generalize content ++ (marks.ticks n ++ post) = behind at starts ⊢
    have stops : behind.takeWhile (· = marks.tick) = [] ∧
        behind.dropWhile (· = marks.tick) = behind := by
      cases behind with
      | nil => exact ⟨rfl, rfl⟩
      | cons c rest => simp [starts c rfl]
    induction more with
    | zero => exact stops
    | succ more ih =>
      rw [ticks, List.replicate_succ]
      rw [ticks] at ih
      simp [ih]
  have closing := closes?_span positive enclosed other apart
  have length : (marks.ticks more).length + 1 = n := by
    rw [ticks, List.length_replicate, count, Nat.zero_add]
  have next_eq : marks.next marks.tick (marks.ticks more ++ (content ++ (marks.ticks n ++ post))) =
      (.code n content, post) := by
    unfold next
    rw [if_neg (Ne.symm marks.backslash_ne_tick), if_pos rfl, run.1, run.2, length, afterRun,
      ← List.append_assoc, closing]
    have inner : content.length + n - n = content.length := Nat.add_sub_cancel _ _
    have outer : content.length + n = (content ++ marks.ticks n).length := by
      rw [List.length_append, ticks, List.length_replicate]
    dsimp only
    rw [inner, outer, List.drop_left, List.append_assoc, List.take_left]
  rw [List.append_assoc, List.append_assoc, opening, List.cons_append, read_cons, ← opening, next_eq]

/-- Where a span is read behind a closed text: no backslash escapes its opening run, and no run
left open before it is closed by it or behind its start. -/
theorem reads_span_iff {first : List α} (closed : marks.Closed first) (positive : 0 < n)
    (enclosed : marks.Enclosed content) (other : n ∉ marks.runs 0 content)
    (apart : ∀ c ∈ post.head?, c ≠ marks.tick) :
    (∃ before after, marks.read (first ++ (marks.ticks n ++ content ++ marks.ticks n ++ post)) =
        before ++ .code n content :: after ∧ marks.allText before = first) ↔
      (∀ piece ∈ (marks.read first).getLast?, piece ≠ .item marks.backslash) ∧
        ∀ k, .run k ∈ marks.read first →
          k ≠ n ∧ k ∉ marks.runs 0 content ∧ k ∉ marks.runs 0 post := by
  have quiet (k : Nat) (inside : .run k ∈ marks.read first) :
      marks.closes? k 0 (marks.ticks n ++ content ++ marks.ticks n ++ post) = none ↔
        k ≠ n ∧ k ∉ marks.runs 0 content ∧ k ∉ marks.runs 0 post := by
    have some_ : k ≠ 0 := Nat.ne_of_gt (read_run_pos inside)
    rw [closes?_eq_none_iff some_, runs_span positive enclosed apart]
    simp only [List.cons_append, List.mem_cons, List.mem_append, not_or]
    constructor
    · intro away
      exact ⟨away.1, away.2.1, away.2.2.2⟩
    · intro away
      exact ⟨away.1, away.2.1, away.1, away.2.2⟩
  constructor
  · intro reads
    rcases reads with ⟨before, after, pieces, cut⟩
    have ticks : (marks.ticks n ++ content ++ marks.ticks n ++ post).head? = some marks.tick := by
      rcases Nat.exists_eq_add_of_lt positive with ⟨more, count⟩
      rw [count, Nat.zero_add, Marks.ticks, List.replicate_succ]
      rfl
    rcases read_of_append closed ticks pieces cut with ⟨own, _, last, unclosed⟩
    rw [own] at quiet ⊢
    exact ⟨last, fun k inside => (quiet k inside).mp (unclosed k inside)⟩
  · intro clear
    rcases clear with ⟨last, away⟩
    refine ⟨marks.read first, marks.read post, ?_, allText_read first⟩
    rw [read_append closed last (fun k inside => (quiet k inside).mpr (away k inside)),
      read_span positive enclosed other apart]

end Span

end Marks

end Burlmd.CodeSpans
