import Mathlib.Logic.Function.Basic
import Mathlib.Tactic.Common

/-!
# Machines

A machine is a partial step function. A run is a list of actions, each enabled where it
is taken. A condition on steps singles out the runs all of whose steps meet it.
-/

namespace Burlmd.Machine

universe u v
variable {σ : Type u} {α : Type v}

/-- The states that steps meeting `meets` lead to. -/
inductive Reaches (step : σ → α → Option σ) (meets : σ → α → Prop) (start : σ) : σ → Prop
  | refl : Reaches step meets start start
  | tail {s t : σ} {a : α} : Reaches step meets start s → meets s a → step s a = some t →
      Reaches step meets start t

/-- The condition every step meets. -/
def Any (_ : σ) (_ : α) : Prop := True

/-- Takes the actions in order. -/
def run (step : σ → α → Option σ) (s : σ) : List α → Option σ
  | [] => some s
  | a :: rest => (step s a).bind fun t => run step t rest

/-- Takes only the steps that meet the condition. -/
def guarded (step : σ → α → Option σ) (meets : σ → α → Prop) [∀ s a, Decidable (meets s a)]
    (s : σ) (a : α) : Option σ :=
  if meets s a then step s a else none

variable {step : σ → α → Option σ} {meets meets' : σ → α → Prop} {start s t : σ}

namespace Reaches

/-- What the start satisfies and every step keeps holds wherever the steps lead. -/
theorem invariant {P : σ → Prop} (h : Reaches step meets start s) (initial : P start)
    (keeps : ∀ s a t, P s → meets s a → step s a = some t → P t) : P s := by
  induction h with
  | refl => exact initial
  | tail _ met stepped ih => exact keeps _ _ _ ih met stepped

theorem mono (h : Reaches step meets start s) (weaker : ∀ s a, meets s a → meets' s a) :
    Reaches step meets' start s := by
  induction h with
  | refl => exact .refl
  | tail _ met stepped ih => exact ih.tail (weaker _ _ met) stepped

theorem any (h : Reaches step meets start s) : Reaches step Any start s :=
  h.mono fun _ _ _ => trivial

theorem trans (first : Reaches step meets start s) (second : Reaches step meets s t) :
    Reaches step meets start t := by
  induction second with
  | refl => exact first
  | tail _ met stepped ih => exact ih.tail met stepped

theorem head {a : α} (met : meets start a) (stepped : step start a = some s)
    (rest : Reaches step meets s t) : Reaches step meets start t :=
  (Reaches.refl.tail met stepped).trans rest

theorem of_run_of {actions : List α} (met : ∀ s, ∀ a ∈ actions, meets s a)
    (ran : run step start actions = some t) : Reaches step meets start t := by
  induction actions generalizing start with
  | nil =>
    obtain rfl : start = t := by simpa [run] using ran
    exact .refl
  | cons a rest ih =>
    obtain ⟨s, stepped, ran⟩ := Option.bind_eq_some_iff.mp ran
    refine head (met start a List.mem_cons_self) stepped (ih ?_ ran)
    exact fun s a mem => met s a (List.mem_cons_of_mem _ mem)

theorem of_run {actions : List α} (ran : run step start actions = some t) :
    Reaches step Any start t :=
  of_run_of (fun _ _ _ => trivial) ran

theorem of_guarded [∀ s a, Decidable (meets s a)] {actions : List α}
    (ran : run (guarded step meets) start actions = some t) : Reaches step meets start t := by
  induction actions generalizing start with
  | nil =>
    cases ran
    exact .refl
  | cons a rest ih =>
    rcases Option.bind_eq_some_iff.mp ran with ⟨s, stepped, ran⟩
    unfold guarded at stepped
    split at stepped
    · rename_i met
      exact head met stepped (ih ran)
    · cases stepped

end Reaches

end Burlmd.Machine
