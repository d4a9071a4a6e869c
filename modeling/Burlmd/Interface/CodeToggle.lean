import Burlmd.Interface.InlineCode

/-!
# Taking a code span back

A code span that the shortcut made is found again and taken away whole, and what is taken away
otherwise is a pair of delimiters with the padding of a code span.
-/

namespace Burlmd.Interface

open Replacement
open Surrogates
open CodeSpans
open CodeSpans.Marks

/-! ## A span between its runs -/

section Span

variable {ahead content post : Units} {n : Nat}

theorem ahead_apart (closed : units.Closed ahead) : ∀ unit ∈ ahead.getLast?, unit ≠ tick := by
  intro unit last same
  apply closed
  rw [same] at last
  exact last

theorem isStandalone_run (closed : units.Closed ahead) (positive : 0 < n)
    (apart : ∀ unit ∈ post.head?, unit ≠ tick) :
    isStandaloneBacktickRun (ahead ++ (units.ticks n ++ post)) ahead.length
      (ahead.length + n) = true := by
  have count : (units.ticks n).length = n := List.length_replicate
  have before : ahead.length = 0 ∨
      (ahead ++ (units.ticks n ++ post))[ahead.length - 1]? ≠ some tick := by
    rcases Nat.eq_zero_or_pos ahead.length with empty | some_
    · exact Or.inl empty
    · apply Or.inr
      rw [List.getElem?_append_left (Nat.sub_lt some_ Nat.one_pos), ← List.getLast?_eq_getElem?]
      exact closed
  have after : ahead.length + n = (ahead ++ (units.ticks n ++ post)).length ∨
      (ahead ++ (units.ticks n ++ post))[ahead.length + n]? ≠ some tick := by
    cases post with
    | nil =>
      apply Or.inl
      rw [List.append_nil, List.length_append, count]
    | cons unit rest =>
      apply Or.inr
      have here : (ahead ++ (units.ticks n ++ unit :: rest))[ahead.length + n]? = some unit := by
        rw [List.getElem?_append_right (Nat.le_add_right _ _), Nat.add_sub_cancel_left,
          List.getElem?_append_right (Nat.le_of_eq count), count, Nat.sub_self]
        rfl
      rw [here]
      intro same
      exact apart unit rfl (Option.some.inj same)
  have within : ahead.length + n ≤ (ahead ++ (units.ticks n ++ post)).length := by
    rw [List.length_append, List.length_append, count]
    omega
  unfold isStandaloneBacktickRun
  simp only [Bool.and_eq_true, Bool.or_eq_true, decide_eq_true_eq]
  exact ⟨⟨⟨within, Nat.lt_add_of_pos_right positive⟩, before⟩, after⟩

/-- A text that does not end in a tick starts with a whole run. -/
theorem exists_run {rest : Units} (closed : units.Closed (tick :: rest)) :
    ∃ r unit behind, tick :: rest = units.ticks (r + 1) ++ unit :: behind ∧ unit ≠ tick := by
  induction rest with
  | nil => exact absurd rfl closed
  | cons next others ih =>
    by_cases isTick : next = tick
    · rw [isTick] at closed ⊢
      rcases ih closed.tail with ⟨r, unit, behind, whole, plain⟩
      exact ⟨r + 1, unit, behind, congrArg (tick :: ·) whole, plain⟩
    · exact ⟨0, next, others, rfl, isTick⟩

/-- The search goes over every run of the content, none of which is as long, and ends at the
closing one. -/
theorem closerLoop_span (positive : 0 < n) (apart : ∀ unit ∈ post.head?, unit ≠ tick)
    (rounds : Nat) (ahead content : Units) (enough : content.length < rounds)
    (closed : units.Closed (ahead ++ content)) (other : n ∉ units.runs 0 content) :
    closerLoop (ahead ++ (content ++ (units.ticks n ++ post))) n (ahead ++ content).length rounds
      ahead.length = true := by
  induction rounds generalizing ahead content with
  | zero => cases enough
  | succ rounds ih =>
    rw [closerLoop]
    cases content with
    | nil =>
      rcases Nat.exists_eq_add_of_lt positive with ⟨more, count⟩
      have here : (ahead ++ (units.ticks n ++ post))[ahead.length]? = some tick := by
        rw [List.getElem?_append_right (Nat.le_refl _), Nat.sub_self, count, Nat.zero_add]
        rfl
      rw [List.append_nil] at closed ⊢
      have run : runStartingAt tick (ahead ++ (units.ticks n ++ post)) ahead.length = n :=
        starts_run ahead n apart
      rw [List.nil_append, here]
      dsimp only
      rw [run, if_neg (not_not.mpr rfl),
        if_pos ⟨rfl, isStandalone_run closed positive apart⟩]
      exact decide_eq_true rfl
    | cons unit rest =>
      have here : (ahead ++ (unit :: rest ++ (units.ticks n ++ post)))[ahead.length]? =
          some unit := by
        rw [List.getElem?_append_right (Nat.le_refl _), Nat.sub_self]
        rfl
      rw [here]
      dsimp only
      rw [List.length_cons] at enough
      by_cases isTick : unit = tick
      · subst isTick
        have suffix_ : units.Closed (tick :: rest) := by
          have cut := closed.drop ahead.length
          rwa [List.drop_left] at cut
        rcases exists_run suffix_ with ⟨r, next, behind, whole, plain⟩
        have shorter := congrArg List.length whole
        have count : (units.ticks (r + 1)).length = r + 1 := List.length_replicate
        rw [List.length_append, List.length_cons, List.length_cons, count] at shorter
        have starts : ∀ unit ∈ (next :: behind).head?, unit ≠ units.tick := by
          intro unit mem
          cases Option.some.inj mem
          exact plain
        have own : units.runs 0 (units.ticks (r + 1)) = [r + 1] := by
          rw [Marks.ticks, runs_replicate]
          exact if_neg (Nat.succ_ne_zero _)
        rw [whole, runs_append_of_head starts, own, List.mem_append, not_or,
          List.mem_singleton] at other
        rw [whole] at closed ⊢
        have run : runStartingAt tick (ahead ++ (units.ticks (r + 1) ++ next :: behind ++
            (units.ticks n ++ post))) ahead.length = r + 1 := by
          rw [List.append_assoc]
          apply starts_run ahead (r + 1)
          exact starts
        rw [if_neg (not_not.mpr rfl), run, if_neg fun same => other.1 same.1.symm]
        have onward := ih (ahead ++ units.ticks (r + 1)) (next :: behind)
          (by rw [List.length_cons]; omega) (by rw [List.append_assoc]; exact closed) other.2
        have moved : (ahead ++ units.ticks (r + 1)).length = ahead.length + (r + 1) := by
          rw [List.length_append, count]
        rw [moved] at onward
        simpa only [List.append_assoc] using onward
      · have plain : unit ≠ units.tick := isTick
        rw [if_pos isTick]
        have onward := ih (ahead ++ [unit]) rest (by omega)
          (by rw [List.append_assoc]; exact closed) (by
            rw [runs, if_neg plain] at other
            exact fun inside => other (List.mem_append_right _ inside))
        have moved : (ahead ++ [unit]).length = ahead.length + 1 := List.length_append
        rw [moved] at onward
        simpa only [List.append_assoc, List.cons_append, List.nil_append] using onward

theorem isFirstMatching_span (positive : 0 < n) (enclosed : units.Enclosed content) (other : n ∉ units.runs 0 content)
    (apart : ∀ unit ∈ post.head?, unit ≠ tick) :
    isFirstMatchingCodeSpanCloser (ahead ++ (units.ticks n ++ content ++ units.ticks n ++ post))
      (ahead ++ units.ticks n).length n (ahead ++ units.ticks n ++ content).length = true := by
  have whole : ahead ++ (units.ticks n ++ content ++ units.ticks n ++ post) =
      (ahead ++ units.ticks n) ++ (content ++ (units.ticks n ++ post)) := by
    simp only [List.append_assoc]
  have inner : units.Closed (ahead ++ units.ticks n ++ content) := by
    unfold Marks.Closed
    rw [List.getLast?_append_of_ne_nil _ enclosed.nonempty]
    exact enclosed.ends
  unfold isFirstMatchingCodeSpanCloser
  rw [whole]
  apply closerLoop_span positive apart _ _ _ ?_ inner other
  have count : (units.ticks n).length = n := List.length_replicate
  simp only [List.length_append, count]
  omega

/-- A span is found from a selection in it that has nothing but its padding around it. -/
theorem codeSpanAround_span (low high : Nat) (padded : Bool) {text : Units}
    (closed : units.Closed ahead) (positive : 0 < n) (enclosed : units.Enclosed content)
    (other : n ∉ units.runs 0 content) (apart : ∀ unit ∈ post.head?, unit ≠ tick)
    (whole : text = ahead ++ (units.ticks n ++ content ++ units.ticks n ++ post))
    (opens : low = (ahead ++ units.ticks n).length + padded.toNat)
    (closes : high + padded.toNat = (ahead ++ units.ticks n ++ content).length)
    (spaced : padded = true → text[low - 1]? = some space ∧ text[high]? = some space) :
    codeSpanAround text low high padded =
      some ⟨ahead.length, (ahead ++ units.ticks n ++ content).length + n,
        (ahead ++ units.ticks n).length, (ahead ++ units.ticks n ++ content).length⟩ := by
  have count : (units.ticks n).length = n := List.length_replicate
  have start : low - padded.toNat = (ahead ++ units.ticks n).length := by omega
  have opening : runEndingAt tick text (ahead ++ units.ticks n).length = n := by
    have split : text = ahead ++ units.ticks n ++ (content ++ (units.ticks n ++ post)) := by
      rw [whole]
      simp only [List.append_assoc]
    rw [split]
    exact ends_run n _ (ahead_apart closed)
  have split : text = (ahead ++ units.ticks n ++ content) ++ (units.ticks n ++ post) := by
    rw [whole]
    simp only [List.append_assoc]
  have closing : runStartingAt tick text (ahead ++ units.ticks n ++ content).length = n := by
    rw [split]
    exact starts_run _ n apart
  have inner : units.Closed (ahead ++ units.ticks n ++ content) := by
    unfold Marks.Closed
    rw [List.getLast?_append_of_ne_nil _ enclosed.nonempty]
    exact enclosed.ends
  have first : isStandaloneBacktickRun text ahead.length (ahead ++ units.ticks n).length = true := by
    have split : text = ahead ++ (units.ticks n ++ (content ++ (units.ticks n ++ post))) := by
      rw [whole]
      simp only [List.append_assoc]
    rw [split, List.length_append, count]
    exact isStandalone_run closed positive (enclosed.head_append _)
  have second : isStandaloneBacktickRun text (ahead ++ units.ticks n ++ content).length
      ((ahead ++ units.ticks n ++ content).length + n) = true := by
    rw [split]
    exact isStandalone_run inner positive apart
  have search : isFirstMatchingCodeSpanCloser text (ahead ++ units.ticks n).length n
      (ahead ++ units.ticks n ++ content).length = true := by
    rw [whole]
    exact isFirstMatching_span positive enclosed other apart
  have within : ¬ ((ahead ++ units.ticks n).length < 1 ∨
      text.length ≤ (ahead ++ units.ticks n ++ content).length) := by
    have long : text.length =
        (ahead ++ units.ticks n ++ content).length + (n + post.length) := by
      rw [split, List.length_append]
      have behind : (units.ticks n ++ post).length = n + post.length := by
        rw [List.length_append, count]
      rw [behind]
    have opened : 0 < (ahead ++ units.ticks n).length := by
      rw [List.length_append, count]
      omega
    omega
  have spaces : ¬ (padded = true ∧ (text[low - 1]? ≠ some space ∨ text[high]? ≠ some space)) := by
    intro wrong
    rcases spaced wrong.1 with ⟨before, after⟩
    rcases wrong.2 with missing | missing
    · exact missing before
    · exact missing after
  have begin_ : (ahead ++ units.ticks n).length - n = ahead.length := by
    rw [List.length_append, count, Nat.add_sub_cancel]
  unfold codeSpanAround
  dsimp only
  rw [start, closes, if_neg within, if_neg spaces, opening, closing, begin_,
    if_neg (by omega), if_pos ⟨first, second, search⟩]

end Span

/-! ## Selections around a middle part -/

section Middle

variable {ahead middle behind : Units} {rev : Bool}

theorem boundary_append (last : ∀ unit ∈ ahead.getLast?, isHigh unit = false) :
    isValidUtf16SelectionBoundary (ahead ++ behind) ahead.length = true := by
  have within : ¬ (ahead ++ behind).length < ahead.length := by
    rw [List.length_append]
    omega
  unfold isValidUtf16SelectionBoundary
  rw [if_neg within]
  split
  · rfl
  · rename_i inner
    have some_ : 0 < ahead.length := by omega
    rw [List.getElem?_append_left (Nat.sub_lt some_ Nat.one_pos), ← List.getLast?_eq_getElem?]
    cases ends : ahead.getLast? with
    | none => rfl
    | some unit =>
      have low_ := last unit ends
      simp [low_]

theorem boundary_append_of_head (first : ∀ unit ∈ behind.head?, isLow unit = false) :
    isValidUtf16SelectionBoundary (ahead ++ behind) ahead.length = true := by
  have within : ¬ (ahead ++ behind).length < ahead.length := by
    rw [List.length_append]
    omega
  unfold isValidUtf16SelectionBoundary
  rw [if_neg within]
  split
  · rfl
  · rw [List.getElem?_append_right (Nat.le_refl _), Nat.sub_self, ← List.head?_eq_getElem?]
    cases starts : behind.head? with
    | none => simp
    | some unit =>
      have high_ := first unit starts
      simp [high_]

theorem low_directed {start stop : Nat} (ordered : start ≤ stop) :
    low (directed rev start stop) = start := by
  unfold low directed
  split
  · exact Nat.min_eq_right ordered
  · exact Nat.min_eq_left ordered

theorem high_directed {start stop : Nat} (ordered : start ≤ stop) :
    high (directed rev start stop) = stop := by
  unfold high directed
  split
  · exact Nat.max_eq_left ordered
  · exact Nat.max_eq_right ordered

theorem reversed_directed {start stop : Nat} (ordered : start < stop) :
    decide ((directed rev start stop).extentOffset < (directed rev start stop).baseOffset) = rev := by
  unfold directed
  cases rev with
  | false => exact decide_eq_false (Nat.not_lt.mpr (Nat.le_of_lt ordered))
  | true => exact decide_eq_true ordered

theorem directed_range (selection : TextSelection) :
    directed (decide (selection.extentOffset < selection.baseOffset)) (low selection)
      (high selection) = selection := by
  rcases selection with ⟨base, extent⟩
  unfold directed low high
  by_cases turned : extent < base
  · have least : min base extent = extent := by omega
    have most : max base extent = base := by omega
    simp [turned, least, most]
  · have least : min base extent = base := by omega
    have most : max base extent = extent := by omega
    simp [turned, least, most]

theorem directed_valid (nonempty : middle ≠ [])
    (last : ∀ unit ∈ ahead.getLast?, isHigh unit = false)
    (first : ∀ unit ∈ behind.head?, isLow unit = false) :
    (directed rev ahead.length (ahead ++ middle).length).Valid (ahead ++ middle ++ behind) := by
  have opens : isValidUtf16SelectionBoundary (ahead ++ middle ++ behind) ahead.length = true := by
    rw [List.append_assoc]
    exact boundary_append last
  have closes : isValidUtf16SelectionBoundary (ahead ++ middle ++ behind)
      (ahead ++ middle).length = true := boundary_append_of_head first
  have some_ := List.length_pos_iff.mpr nonempty
  have apart : ahead.length ≠ (ahead ++ middle).length := by
    rw [List.length_append]
    omega
  unfold directed
  cases rev with
  | false => exact ⟨opens, closes, apart⟩
  | true => exact ⟨closes, opens, apart.symm⟩

end Middle

/-! ## The selection of a wrapped text -/

section Wrapped

variable {text : Units} {selection : TextSelection}

/-- Everything before the wrapped selection. -/
def front (text : Units) (selection : TextSelection) : Units :=
  text.take (low selection) ++ delimiterOf (selected text selection) ++
    padding (selected text selection)

/-- Everything behind the wrapped selection. -/
def rear (text : Units) (selection : TextSelection) : Units :=
  padding (selected text selection) ++ delimiterOf (selected text selection) ++
    text.drop (high selection)

theorem wrapCode_eq (valid : selection.Valid text) (rev : Bool) :
    wrapCode text (low selection) (high selection) rev =
      ⟨front text selection ++ selected text selection ++ rear text selection,
        some (directed rev (front text selection).length
          (front text selection ++ selected text selection).length)⟩ := by
  have within := valid.length_take
  unfold wrapCode replaceRange front rear selected delimiterOf padding
  simp only [List.append_assoc, List.length_append, within, Nat.add_assoc]

theorem padding_cases (text : Units) : padding text = [] ∨ padding text = [space] := by
  unfold padding
  split
  · exact Or.inr rfl
  · exact Or.inl rfl

theorem delimiterOf_eq_cons (text : Units) :
    delimiterOf text = tick :: List.replicate (longestBacktickRun text) tick := List.replicate_succ

theorem last_delimiterOf (ahead text : Units) : (ahead ++ delimiterOf text).getLast? = some tick := by
  unfold delimiterOf
  rw [List.replicate_succ', ← List.append_assoc, List.getLast?_concat]

theorem front_last : ∀ unit ∈ (front text selection).getLast?, isHigh unit = false := by
  unfold front
  intro unit last
  rcases padding_cases (selected text selection) with none_ | spaced
  · rw [none_, List.append_nil, last_delimiterOf] at last
    cases Option.some.inj last
    decide
  · rw [spaced, List.getLast?_concat] at last
    cases Option.some.inj last
    decide

theorem rear_head : ∀ unit ∈ (rear text selection).head?, isLow unit = false := by
  unfold rear
  intro unit first
  rcases padding_cases (selected text selection) with none_ | spaced
  · rw [none_, List.nil_append, delimiterOf_eq_cons] at first
    cases Option.some.inj first
    decide
  · rw [spaced] at first
    cases Option.some.inj first
    decide

/-- The wrapped selection is in a code span of the wrapped text. -/
theorem codeSpanAroundSelection_wrapped (valid : selection.Valid text)
    (outside : hasOutsideAdjacentBacktick text (low selection) (high selection) = false) :
    codeSpanAroundSelection (front text selection ++ selected text selection ++ rear text selection)
        (front text selection).length (front text selection ++ selected text selection).length =
      some ⟨(text.take (low selection)).length,
        (text.take (low selection) ++ delimiterOf (selected text selection) ++
          padded (selected text selection)).length + (longestBacktickRun (selected text selection) + 1),
        (text.take (low selection) ++ delimiterOf (selected text selection)).length,
        (text.take (low selection) ++ delimiterOf (selected text selection) ++
          padded (selected text selection)).length⟩ := by
  have nonempty := valid.selected_ne_nil
  have closed := closed_of_apart (Nat.le_trans (Nat.le_of_lt valid.low_lt) valid.high_le) outside
  have fresh : longestBacktickRun (selected text selection) + 1 ∉
      units.runs 0 (padded (selected text selection)) := by
    rw [runs_padded]
    intro inside
    have most := runs_le_longest _ inside
    omega
  have whole : front text selection ++ selected text selection ++ rear text selection =
      text.take (low selection) ++ (units.ticks (longestBacktickRun (selected text selection) + 1) ++
        padded (selected text selection) ++
        units.ticks (longestBacktickRun (selected text selection) + 1) ++
        text.drop (high selection)) := by
    unfold front rear padded
    rw [delimiterOf_eq]
    simp only [List.append_assoc]
  have found (spaced : Bool) := codeSpanAround_span (front text selection).length
    (front text selection ++ selected text selection).length spaced (n := longestBacktickRun (selected text selection) + 1) closed
    (Nat.succ_pos _) (padded_enclosed nonempty) fresh (starts_of_apart outside) whole
  unfold codeSpanAroundSelection
  rcases padding_cases (selected text selection) with none_ | spaced
  · have direct := found false (by unfold front; rw [none_, List.append_nil]; exact rfl)
      (by unfold front padded; rw [none_, List.append_nil, List.append_nil]; exact rfl)
      (fun never => by cases never)
    rw [direct]
    rfl
  · have apart_ : ∀ unit ∈ (front text selection).getLast?, unit ≠ tick := by
      intro unit last
      unfold front at last
      rw [spaced, List.getLast?_concat] at last
      cases Option.some.inj last
      decide
    have missed : codeSpanAround (front text selection ++ selected text selection ++
        rear text selection) (front text selection).length
        (front text selection ++ selected text selection).length false = none := by
      have run := ends_run 0 (selected text selection ++ rear text selection) apart_
      rw [List.replicate_zero, List.append_nil, ← List.append_assoc] at run
      unfold codeSpanAround
      dsimp only
      split
      · rfl
      · rw [if_neg fun wrong => by cases wrong.1]
        exact if_pos (Or.inl run)
    have ends : (front text selection).getLast? = some space := by
      unfold front
      rw [spaced, List.getLast?_concat]
    have starts : (rear text selection).head? = some space := by
      unfold rear
      rw [spaced]
      rfl
    have some_ : 0 < (front text selection).length := by
      unfold front
      rw [spaced, List.length_append]
      exact Nat.succ_pos _
    have inner := found true
      (by unfold front; rw [spaced, List.length_append]; exact rfl)
      (by
        unfold front padded
        rw [spaced, delimiterOf_eq]
        simp only [List.length_append, Bool.toNat_true, List.length_singleton]
        omega)
      (by
        intro _
        constructor
        · rw [List.append_assoc, List.getElem?_append_left (Nat.sub_lt some_ Nat.one_pos),
            ← List.getLast?_eq_getElem?, ends]
        · rw [List.getElem?_append_right (Nat.le_refl _), Nat.sub_self, ← List.head?_eq_getElem?,
            starts])
    rw [missed, inner]
    rfl

/-- What the shortcut wraps it takes back. -/
theorem applyInlineCode_wrapCode (valid : selection.Valid text)
    (lines : lineFeed ∉ selected text selection ∧ carriageReturn ∉ selected text selection)
    (outside : hasOutsideAdjacentBacktick text (low selection) (high selection) = false)
    (rev : Bool) (turned : rev = decide (selection.extentOffset < selection.baseOffset)) :
    applyInlineCode (wrapCode text (low selection) (high selection) rev) =
      ⟨text, some selection⟩ := by
  have nonempty := valid.selected_ne_nil
  have some_ := List.length_pos_iff.mpr nonempty
  have ordered : (front text selection).length <
      (front text selection ++ selected text selection).length := by
    rw [List.length_append]
    omega
  have starts : low (directed rev (front text selection).length
      (front text selection ++ selected text selection).length) = (front text selection).length :=
    low_directed (Nat.le_of_lt ordered)
  have stops : high (directed rev (front text selection).length
      (front text selection ++ selected text selection).length) =
      (front text selection ++ selected text selection).length :=
    high_directed (Nat.le_of_lt ordered)
  have same : selected (front text selection ++ selected text selection ++ rear text selection)
      (directed rev (front text selection).length
        (front text selection ++ selected text selection).length) = selected text selection := by
    rw [selected, starts, stops]
    exact substring_append _ _ _
  rw [wrapCode_eq valid, applyInlineCode_line (directed_valid nonempty front_last rear_head)
    (same.symm ▸ lines), starts, stops, codeSpanAroundSelection_wrapped valid outside,
    reversed_directed ordered]
  have spans : CodeSpan.Spans (front text selection ++ selected text selection ++ rear text selection)
      ⟨(text.take (low selection)).length,
        (text.take (low selection) ++ delimiterOf (selected text selection) ++
          padded (selected text selection)).length + (longestBacktickRun (selected text selection) + 1),
        (text.take (low selection) ++ delimiterOf (selected text selection)).length,
        (text.take (low selection) ++ delimiterOf (selected text selection) ++
          padded (selected text selection)).length⟩
      (text.take (low selection)) (longestBacktickRun (selected text selection) + 1)
      (padded (selected text selection)) (text.drop (high selection)) := by
    refine ⟨Nat.succ_pos _, ?_, rfl, rfl, rfl, ?_⟩
    · unfold front rear padded
      rw [delimiterOf_eq]
      simp only [List.append_assoc]
    · dsimp only
      have count : (units.ticks (longestBacktickRun (selected text selection) + 1)).length =
          longestBacktickRun (selected text selection) + 1 := List.length_replicate
      simp only [List.length_append, delimiterOf_eq, count]
  dsimp only [Option.or]
  rw [spans.removed, normalizedCodeSpanContent_eq_strip, strip_padded nonempty,
    valid.length_take, valid.length_selected, turned, directed_range]
  rw [valid.around]

end Wrapped

end Burlmd.Interface
