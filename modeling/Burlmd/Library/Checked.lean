import Mathlib.Data.List.ReduceOption
import Mathlib.Tactic.Common

/-!
# Checked computations

A computation in `Except` that succeeds went through every one of its steps.
-/

namespace Burlmd.Checked

universe u v w
variable {ε : Type u} {α : Type v} {β γ : Type w}

theorem bind_eq_ok {β : Type v} {x : Except ε α} {f : α → Except ε β} {b : β} :
    (x >>= f) = .ok b ↔ ∃ a, x = .ok a ∧ f a = .ok b := by
  cases x with
  | error error =>
    constructor
    · intro bound
      cases bound
    · rintro ⟨a, isOk, -⟩
      cases isOk
  | ok a =>
    constructor
    · intro bound
      exact ⟨a, rfl, bound⟩
    · rintro ⟨a', isOk, bound⟩
      cases isOk
      exact bound

theorem map_eq_ok {x : Except ε α} {f : α → β} {b : β} :
    x.map f = .ok b ↔ ∃ a, x = .ok a ∧ f a = b := by
  cases x with
  | error error =>
    constructor
    · intro mapped
      cases mapped
    · rintro ⟨a, isOk, -⟩
      cases isOk
  | ok a =>
    constructor
    · intro mapped
      cases mapped
      exact ⟨a, rfl, rfl⟩
    · rintro ⟨a', isOk, rfl⟩
      cases isOk
      rfl

@[simp] theorem pure_eq_ok {a b : α} : (pure a : Except ε α) = .ok b ↔ a = b := by
  constructor
  · intro same
    cases same
    rfl
  · rintro rfl
    rfl

/-- A check over a list passes when it passes at every element. -/
theorem mapM_cons_eq_ok {f : α → Except ε β} {a : α} {rest : List α} {out : List β} :
    (a :: rest).mapM f = .ok out ↔
      ∃ b results, f a = .ok b ∧ rest.mapM f = .ok results ∧ out = b :: results := by
  rw [List.mapM_cons]
  cases f a with
  | error error =>
    constructor
    · intro bound
      cases bound
    · rintro ⟨b, results, isOk, -⟩
      cases isOk
  | ok b =>
    cases rest.mapM f with
    | error error =>
      constructor
      · intro bound
        cases bound
      · rintro ⟨b', results, -, isOk, -⟩
        cases isOk
    | ok results =>
      constructor
      · intro bound
        cases bound
        exact ⟨b, results, rfl, rfl, rfl⟩
      · rintro ⟨b', results', isB, isResults, rfl⟩
        cases isB
        cases isResults
        rfl

theorem mem_of_mapM_eq_ok {f : α → Except ε β} {list : List α} {out : List β}
    (mapped : list.mapM f = .ok out) :
    (∀ a ∈ list, ∃ b ∈ out, f a = .ok b) ∧ ∀ b ∈ out, ∃ a ∈ list, f a = .ok b := by
  induction list generalizing out with
  | nil =>
    cases mapped
    exact ⟨fun a mem => absurd mem List.not_mem_nil, fun b mem => absurd mem List.not_mem_nil⟩
  | cons a rest ih =>
    obtain ⟨b, results, isB, isRest, rfl⟩ := mapM_cons_eq_ok.mp mapped
    obtain ⟨forward, backward⟩ := ih isRest
    constructor
    · intro x mem
      rcases List.mem_cons.mp mem with rfl | mem
      · exact ⟨b, List.mem_cons_self, isB⟩
      · obtain ⟨y, y_mem, isY⟩ := forward x mem
        exact ⟨y, List.mem_cons_of_mem b y_mem, isY⟩
    · intro y mem
      rcases List.mem_cons.mp mem with rfl | mem
      · exact ⟨a, List.mem_cons_self, isB⟩
      · obtain ⟨x, x_mem, isX⟩ := backward y mem
        exact ⟨x, List.mem_cons_of_mem a x_mem, isX⟩

/-- Results that carry the element they came from repeat none when the list does not. -/
theorem nodup_reduceOption_of_mapM {f : α → Except ε (Option β)} {source : β → α}
    (from_ : ∀ a b, f a = .ok (some b) → source b = a) {list : List α} {out : List (Option β)}
    (distinct : list.Nodup) (mapped : list.mapM f = .ok out) :
    (out.reduceOption.map source).Sublist list ∧ (out.reduceOption.map source).Nodup := by
  have isSublist : (out.reduceOption.map source).Sublist list := by
    clear distinct
    induction list generalizing out with
    | nil =>
      cases mapped
      exact List.Sublist.refl _
    | cons a rest ih =>
      obtain ⟨b, results, isB, isRest, rfl⟩ := mapM_cons_eq_ok.mp mapped
      cases b with
      | none =>
        rw [List.reduceOption_cons_of_none]
        exact (ih isRest).cons a
      | some b =>
        rw [List.reduceOption_cons_of_some, List.map_cons, from_ a b isB]
        exact (ih isRest).cons_cons a
  exact ⟨isSublist, distinct.sublist isSublist⟩

end Burlmd.Checked
