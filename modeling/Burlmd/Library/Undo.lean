import Mathlib.Data.List.Induction
import Mathlib.Tactic.Common

/-!
# Undo logs

Steps are logged as they are taken, and a log is undone from its last step back. Between two steps
a state can drift, as far as a relation allows.
-/

namespace Burlmd.Undo

universe u v w z
variable {σ : Type u} {κ : Type v} {τ : Type w} {ε : Type z}

/-- What a log leads to from a start: undone, its last step comes near the state before it. -/
inductive Logged (near : σ → σ → Prop) (undo : κ → σ → σ) (start : σ) : List κ → σ → Prop
  | nil : Logged near undo start [] start
  | drift {log : List κ} {s t : σ} : Logged near undo start log s → near s t →
      Logged near undo start log t
  | step {log : List κ} {s t : σ} {k : κ} : Logged near undo start log s → near s (undo k t) →
      Logged near undo start (log ++ [k]) t

variable {near : σ → σ → Prop} {undo : κ → σ → σ} {start s : σ} {log : List κ}

theorem Logged.drifted (trans : ∀ s t u, near s t → near t u → near s u)
    (mono : ∀ k s t, near s t → near (undo k s) (undo k t))
    (logged : Logged near undo start log s) {t : σ} (drift : near s t) :
    near start (log.foldr undo t) := by
  induction logged generalizing t with
  | nil => exact drift
  | drift _ between ih => exact ih (trans _ _ _ between drift)
  | @step log s r k _ back ih =>
    rw [List.foldr_append]
    exact ih (trans _ _ _ back (mono k r t drift))

/-- A log that is undone leads back near its start. -/
theorem Logged.restores (refl : ∀ s, near s s)
    (trans : ∀ s t u, near s t → near t u → near s u) (mono : ∀ k s t, near s t → near (undo k s) (undo k t))
    (logged : Logged near undo start log s) : near start (log.foldr undo s) :=
  logged.drifted trans mono (refl s)

/-! ## Steps that cannot be undone -/

/-- Undoes a log as far as it can be undone, and tells what failed. -/
def unwind (attempt : κ → τ → τ × Option ε) : List κ → τ → τ × List ε
  | [], t => (t, [])
  | k :: log, t =>
      let (t, failed) := unwind attempt log t
      let (t, failure) := attempt k t
      (t, failed ++ failure.toList)

variable {attempt : κ → τ → τ × Option ε} {view : τ → σ} {t : τ}

/-- What is undone with no failure is undone. -/
theorem unwind_view (honest : ∀ k t, (attempt k t).2 = none → view (attempt k t).1 = undo k (view t))
    (complete : (unwind attempt log t).2 = []) :
    view (unwind attempt log t).1 = log.foldr undo (view t) := by
  induction log with
  | nil => rfl
  | cons k log ih =>
    rcases List.append_eq_nil_iff.mp complete with ⟨earlier, last⟩
    rw [List.foldr_cons, ← ih earlier]
    apply honest
    exact Option.toList_eq_nil_iff.mp last

/-- A log whose steps can all be undone in turn is undone with no failure. -/
theorem unwind_complete {ready : List κ → τ → Prop}
    (sure : ∀ log k t, ready (log ++ [k]) t → (attempt k t).2 = none ∧ ready log (attempt k t).1)
    (isReady : ready log t) : (unwind attempt log t).2 = [] := by
  have main : ∀ log' : List κ, ∀ t, ready (log' ++ log) t → (unwind attempt log t).2 = [] ∧
      ready log' (unwind attempt log t).1 := by
    clear isReady
    induction log with
    | nil =>
      intro log' t isReady
      rw [List.append_nil] at isReady
      exact ⟨rfl, isReady⟩
    | cons k log ih =>
      intro log' t isReady
      rw [List.append_cons] at isReady
      rcases ih (log' ++ [k]) t isReady with ⟨earlier, isReady⟩
      rcases sure log' k _ isReady with ⟨last, isReady⟩
      refine ⟨?_, isReady⟩
      apply List.append_eq_nil_iff.mpr
      exact ⟨earlier, Option.toList_eq_nil_iff.mpr last⟩
  exact (main [] t isReady).1

end Burlmd.Undo
