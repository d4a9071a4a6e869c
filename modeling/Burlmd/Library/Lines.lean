import Mathlib.Data.List.Basic
import Mathlib.Data.List.Infix
import Mathlib.Tactic.Common

/-!
# The lines of a text

A text cut behind each newline, and put together again.
-/

namespace Burlmd.Lines

/-- The lines of a text, each with its newline. -/
@[grind =] def splitInclusive : List Char → List (List Char)
  | [] => []
  | c :: rest =>
      if c = '\n' then [c] :: splitInclusive rest
      else
        match splitInclusive rest with
        | [] => [[c]]
        | line :: lines => (c :: line) :: lines

/-- Lines as a text has them: each but the last ends in its only newline. -/
def Lined : List (List Char) → Prop
  | [] => True
  | [line] => line ≠ [] ∧ ∀ body c, line = body ++ [c] → '\n' ∉ body
  | line :: next :: rest => (∃ body, line = body ++ ['\n'] ∧ '\n' ∉ body) ∧ Lined (next :: rest)

theorem splitInclusive_flatten_self (text : List Char) : (splitInclusive text).flatten = text := by
  induction text with
  | nil => rfl
  | cons c rest ih =>
    rw [splitInclusive]
    split
    · rw [List.flatten_cons, ih]
      rfl
    · split
      · rename_i none_
        rw [none_] at ih
        rw [← ih]
        rfl
      · rename_i line lines some_
        rw [some_, List.flatten_cons] at ih
        rw [List.flatten_cons, List.cons_append, ih]

theorem splitInclusive_append {body : List Char} (whole : '\n' ∉ body) (rest : List Char) :
    splitInclusive (body ++ '\n' :: rest) = (body ++ ['\n']) :: splitInclusive rest := by
  induction body with
  | nil => simp [splitInclusive]
  | cons c others ih =>
    rw [List.mem_cons, not_or] at whole
    rw [List.cons_append, splitInclusive, if_neg (Ne.symm whole.1), ih whole.2]
    rfl

theorem splitInclusive_whole {c : Char} {body : List Char} (whole : '\n' ∉ body) :
    splitInclusive (body ++ [c]) = [body ++ [c]] := by
  induction body with
  | nil =>
    by_cases newline : c = '\n'
    · simp [splitInclusive, newline]
    · simp [splitInclusive, newline]
  | cons d others ih =>
    rw [List.mem_cons, not_or] at whole
    rw [List.cons_append, splitInclusive, if_neg (Ne.symm whole.1), ih whole.2]

/-- Lines are cut apart as they are put together. -/
theorem splitInclusive_flatten {lines : List (List Char)} (lined : Lined lines) :
    splitInclusive lines.flatten = lines := by
  induction lines with
  | nil => rfl
  | cons line rest ih =>
    cases rest with
    | nil =>
      rcases lined with ⟨some_, last⟩
      rcases List.eq_nil_or_concat line with none_ | ⟨body, c, isLine⟩
      · exact absurd none_ some_
      · rw [List.concat_eq_append] at isLine
        rw [List.flatten_cons, List.flatten_nil, List.append_nil, isLine]
        exact splitInclusive_whole (last body c isLine)
    | cons next others =>
      rcases lined with ⟨⟨body, isLine, whole⟩, tail⟩
      rw [List.flatten_cons, isLine, List.append_assoc, List.singleton_append,
        splitInclusive_append whole, ih tail]

theorem prefix_of_splitInclusive {text head : List Char} {tail : List (List Char)}
    (cut : splitInclusive text = head :: tail) : head <+: text := by
  have whole := splitInclusive_flatten_self text
  rw [cut, List.flatten_cons] at whole
  rw [← whole]
  exact List.prefix_append _ _

/-- Every line but the first stands behind a newline. -/
theorem behind_of_mem {text head line : List Char} {tail : List (List Char)}
    (cut : splitInclusive text = head :: tail) (mem : line ∈ tail) : '\n' :: line <:+: text := by
  induction text generalizing head tail with
  | nil => cases cut
  | cons c rest ih =>
    have later : rest <:+: c :: rest := (List.suffix_cons c rest).isInfix
    cases below : splitInclusive rest with
    | nil =>
      rw [splitInclusive, below] at cut
      split at cut <;> cases cut <;> cases mem
    | cons first others =>
      rw [splitInclusive, below] at cut
      split at cut
      · rename_i newline
        cases cut
        rcases List.mem_cons.mp mem with same | other
        · rw [same, newline]
          exact (List.cons_prefix_cons.mpr ⟨rfl, prefix_of_splitInclusive below⟩).isInfix
        · exact (ih below other).trans later
      · cases cut
        exact (ih below mem).trans later

/-- A line that starts with `marker` is the first, or stands behind a newline. -/
theorem starts_of_mem {marker text line : List Char} (mem : line ∈ splitInclusive text)
    (starts : marker <+: line) : marker <+: text ∨ '\n' :: marker <:+: text := by
  cases cut : splitInclusive text with
  | nil =>
    rw [cut] at mem
    cases mem
  | cons head tail =>
    rw [cut] at mem
    rcases List.mem_cons.mp mem with same | later
    · rw [same] at starts
      exact Or.inl (starts.trans (prefix_of_splitInclusive cut))
    · have inside : '\n' :: marker <+: '\n' :: line := List.cons_prefix_cons.mpr ⟨rfl, starts⟩
      exact Or.inr (inside.isInfix.trans (behind_of_mem cut later))

end Burlmd.Lines
