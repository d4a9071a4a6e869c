import Mathlib.Data.List.Infix
import Mathlib.Tactic.Common

/-!
# Where a pattern occurs in a text with names in it

Fixed words with names between them: a pattern occurs within the words, or it touches a name.
-/

namespace Burlmd.Occurrence

variable {α : Type}

/-- Each name with the words behind it. -/
abbrev Named (α : Type) := List (List α × List α)

def flat (rest : Named α) : List α := rest.flatMap fun entry => entry.1 ++ entry.2

/-- The first words, then the names and the words behind them. -/
def woven (first : List α) (rest : Named α) : List α := first ++ flat rest

/-- The fixed words. -/
def words (first : List α) (rest : Named α) : List (List α) := first :: rest.map Prod.snd

/-- Some occurrence of the pattern has a name, or the place of an empty one, within it. -/
def Touches (pattern : List α) : List α → Named α → Prop
  | _, [] => False
  | first, (name, next) :: rest =>
      (∃ before after, before ++ pattern ++ after = first ++ (name ++ woven next rest) ∧
        before.length < first.length + name.length ∧
        first.length < before.length + pattern.length) ∨
      Touches pattern next rest

theorem woven_cons (first name next : List α) (rest : Named α) :
    woven first ((name, next) :: rest) = first ++ (name ++ woven next rest) := by
  simp [woven, flat]

theorem infix_woven_of_touches {pattern first : List α} {rest : Named α}
    (touches : Touches pattern first rest) : pattern <:+: woven first rest := by
  induction rest generalizing first with
  | nil => cases touches
  | cons entry others ih =>
    rcases entry with ⟨name, next⟩
    rw [woven_cons]
    rcases touches with ⟨before, after, occurs, -, -⟩ | later
    · exact ⟨before, after, occurs⟩
    · exact ((ih later).trans (List.suffix_append _ _).isInfix).trans (List.suffix_append _ _).isInfix

theorem infix_woven_of_words {pattern first : List α} {rest : Named α} {fixed : List α}
    (mem : fixed ∈ words first rest) (inside : pattern <:+: fixed) : pattern <:+: woven first rest := by
  induction rest generalizing first with
  | nil =>
    have isFirst : fixed = first := List.mem_singleton.mp mem
    rw [isFirst] at inside
    exact inside.trans (List.prefix_append _ _).isInfix
  | cons entry others ih =>
    rcases entry with ⟨name, next⟩
    rw [woven_cons]
    rcases List.mem_cons.mp mem with isFirst | later
    · rw [isFirst] at inside
      exact inside.trans (List.prefix_append _ _).isInfix
    · have below := ih later
      exact (below.trans (List.suffix_append _ _).isInfix).trans (List.suffix_append _ _).isInfix

/-- A pattern occurs in the text exactly where it is in the words or touches a name. -/
theorem infix_woven_iff {pattern first : List α} {rest : Named α} :
    pattern <:+: woven first rest ↔
      (∃ fixed ∈ words first rest, pattern <:+: fixed) ∨ Touches pattern first rest := by
  constructor
  · intro occurs
    induction rest generalizing first with
    | nil =>
      have isFirst : woven first [] = first := List.append_nil first
      rw [isFirst] at occurs
      exact Or.inl ⟨first, List.mem_singleton_self _, occurs⟩
    | cons entry others ih =>
      rcases entry with ⟨name, next⟩
      rw [woven_cons] at occurs
      rcases occurs with ⟨before, after, same⟩
      by_cases early : before.length + pattern.length ≤ first.length
      · -- the occurrence ends within the first words
        have inFirst : before ++ pattern <+: first := by
          apply List.prefix_of_prefix_length_le ⟨after, same⟩ (List.prefix_append _ _)
          rwa [List.length_append]
        refine Or.inl ⟨first, List.mem_cons_self, ?_⟩
        exact (List.suffix_append before pattern).isInfix.trans inFirst.isInfix
      · by_cases late : first.length + name.length ≤ before.length
        · -- the occurrence starts behind the first name
          have behind : first ++ name <+: before := by
            have front : first ++ name <+: first ++ (name ++ woven next others) := by
              rw [← List.append_assoc]
              exact List.prefix_append _ _
            have front' : before <+: first ++ (name ++ woven next others) := by
              rw [← same, List.append_assoc]
              exact List.prefix_append _ _
            apply List.prefix_of_prefix_length_le front front'
            rwa [List.length_append]
          rcases behind with ⟨gap, isBefore⟩
          rw [← isBefore, ← List.append_assoc first, List.append_assoc, List.append_assoc,
            List.append_cancel_left_eq] at same
          have below : pattern <:+: woven next others := by
            rw [← same, ← List.append_assoc]
            exact List.infix_append _ _ _
          rcases ih below with ⟨fixed, mem, inside⟩ | touches
          · exact Or.inl ⟨fixed, List.mem_cons_of_mem _ mem, inside⟩
          · exact Or.inr (Or.inr touches)
        · refine Or.inr (Or.inl ⟨before, after, same, ?_, ?_⟩)
          · omega
          · omega
  · rintro (⟨fixed, mem, inside⟩ | touches)
    · exact infix_woven_of_words mem inside
    · exact infix_woven_of_touches touches

end Burlmd.Occurrence
