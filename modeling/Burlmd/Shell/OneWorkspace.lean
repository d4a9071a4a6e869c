import Burlmd.Shell.SnapshotScope

/-!
# One Workspace at a time

A bootstrap that is superseded leaves its call with Core behind. As long as no bootstrap
ends before that call, and a load restores what Core answered for the Workspace of its
scope, no snapshot crosses Workspaces.
-/

namespace Burlmd.Shell

open Index (WorkspaceId)
open Snapshot (ActiveWorkspaceSessionSnapshot)
open Machine (Reaches Any guarded run)

namespace World

/-- While a call is with Core there are no writes, and otherwise the scope is of the
Workspace that is selected. -/
structure Quiet (w : World) : Prop where
  calls : ∀ bootstrap ∈ w.bootstraps, bootstrap.InFlight →
    w.session.activeBootstrapGeneration ≠ none ∧ w.session.writes = []
  selected : w.session.activeBootstrapGeneration = none ∨ w.session.writes ≠ [] →
    w.session.workspaceId.isSome → w.core.selected = w.session.workspaceId
  one : w.OneWorkspace

theorem init_quiet : init.Quiet := by
  constructor
  · intro bootstrap mem
    cases mem
  · intro _ known
    cases known
  · constructor
    · intro received mem
      cases mem
    · intro restored
      cases restored

theorem openCalls_eq_zero {w : World} : w.openCalls = 0 ↔ ∀ bootstrap ∈ w.bootstraps,
    ¬ bootstrap.InFlight := by
  simp [openCalls, List.countP_eq_zero]

section

variable {w : World}

/-- A bootstrap that is not current changes nothing but itself. -/
theorem Quiet.erase (quiet : w.Quiet) (bootstrap : Bootstrap) :
    Quiet { w with bootstraps := w.bootstraps.erase bootstrap } :=
  { quiet with calls := fun other mem => quiet.calls other (List.mem_of_mem_erase mem) }

theorem Quiet.enqueueSave (quiet : w.Quiet)
    (idle : w.session.activeBootstrapGeneration = none) :
    Quiet { w with session := w.session.enqueueSave } := by
  have frame : ∃ writes, w.session.enqueueSave = { w.session with writes } := by
    unfold WorkspaceSession.enqueueSave
    split
    · exact ⟨w.session.writes, rfl⟩
    · split
      · exact ⟨w.session.writes, rfl⟩
      · exact ⟨_, rfl⟩
  rcases frame with ⟨writes, saved⟩
  rw [saved]
  constructor
  · intro bootstrap mem flying
    exact absurd idle (quiet.calls bootstrap mem flying).1
  · intro _
    exact quiet.selected (Or.inl idle)
  · exact quiet.one

/-- An end in the scope lets writes through again. -/
theorem Quiet.endInScope (quiet : w.Quiet) (past : ∀ bootstrap ∈ w.bootstraps, ¬ bootstrap.InFlight)
    (selected : w.session.workspaceId.isSome → w.core.selected = w.session.workspaceId) :
    Quiet { w with session := w.session.endInScope } := by
  have ended : Quiet { w with
      session := { w.session with
        activeBootstrapGeneration := none, savePendingDuringBootstrap := false } } :=
    { quiet with
      calls := fun bootstrap mem flying => absurd flying (past bootstrap mem)
      selected := fun _ => selected }
  unfold WorkspaceSession.endInScope
  dsimp only
  split
  · exact ended.enqueueSave rfl
  · exact ended

theorem Quiet.fail (quiet : w.Quiet) (generation : Nat)
    (undisturbed : w.session.IsCurrentWorkspaceBootstrap generation →
      (∀ bootstrap ∈ w.bootstraps, ¬ bootstrap.InFlight) ∧
        (w.session.workspaceId.isSome → w.core.selected = w.session.workspaceId)) :
    Quiet { w with session := w.session.failWorkspaceBootstrap generation } := by
  unfold WorkspaceSession.failWorkspaceBootstrap
  split
  · exact quiet
  · rename_i current
    have met := undisturbed (not_not.mp current)
    exact quiet.endInScope met.1 met.2

theorem Quiet.complete (quiet : w.Quiet) (generation : Nat) (workspaceId : WorkspaceId)
    (past : ∀ bootstrap ∈ w.bootstraps, ¬ bootstrap.InFlight)
    (selected : w.core.selected = some workspaceId) :
    Quiet { w with session := w.session.completeWorkspaceBootstrap generation workspaceId } := by
  unfold WorkspaceSession.completeWorkspaceBootstrap
  split
  · exact quiet
  · split
    · constructor
      · intro bootstrap mem flying
        exact absurd flying (past bootstrap mem)
      · intro _ _
        exact selected
      · refine ⟨quiet.one.1, ?_⟩
        intro restored
        cases restored
    · rename_i same
      apply quiet.endInScope past
      intro _
      rw [selected, not_not.mp same]

/-- A call starts when its bootstrap has drained. -/
theorem Quiet.called (quiet : w.Quiet) (steady : w.Steady) {bootstrap : Bootstrap} {writes : Nat}
    (there : bootstrap ∈ w.bootstraps) (stage : bootstrap.stage = .draining writes)
    (drained : writes ≤ w.session.settled)
    (current : w.session.IsCurrentWorkspaceBootstrap bootstrap.generation) :
    Quiet { w with bootstraps := ⟨bootstrap.generation, .calling⟩ :: w.bootstraps.erase bootstrap } := by
  have none : w.session.writes = [] := by
    have admitted := steady.drains bootstrap there current writes stage
    unfold WorkspaceSession.admitted at admitted
    apply List.eq_nil_of_length_eq_zero
    omega
  have active : w.session.activeBootstrapGeneration ≠ Option.none := by
    rw [show w.session.activeBootstrapGeneration = some bootstrap.generation from current]
    exact Option.some_ne_none _
  exact { quiet with calls := fun _ _ _ => ⟨active, none⟩ }

theorem Quiet.answered (quiet : w.Quiet) {bootstrap : Bootstrap} (there : bootstrap ∈ w.bootstraps)
    (calling : bootstrap.stage = .calling) (workspace : Option WorkspaceId) :
    Quiet (w.answer bootstrap workspace) := by
  have flying : bootstrap.InFlight := by
    unfold Bootstrap.InFlight
    rw [calling]
    trivial
  have still := quiet.calls bootstrap there flying
  constructor
  · intro _ _ _
    exact still
  · intro writing
    rcases writing with idle | writes
    · exact absurd idle still.1
    · exact absurd still.2 writes
  · exact quiet.one

theorem Quiet.loaded (quiet : w.Quiet) (load : Load) (selected : Option WorkspaceId)
    (snapshot : Option ActiveWorkspaceSessionSnapshot)
    (own : w.session.AwaitsRestore load.workspaceId load.scopeGeneration → snapshot.isSome →
      selected = some load.workspaceId) :
    Quiet (w.loaded load selected snapshot) := by
  unfold World.loaded
  dsimp only
  split
  · rename_i awaits
    have origin : (if snapshot.isSome then selected else some load.workspaceId) =
        w.session.workspaceId := by
      rw [awaits.2.1.1]
      split
      · rename_i read
        exact own awaits read
      · rfl
    cases snapshot with
    | none =>
      simp only [WorkspaceSession.restoreAfterLoadFailure, awaits, if_true]
      exact { quiet with one := ⟨quiet.one.1, fun _ => origin⟩ }
    | some snapshot =>
      simp only [WorkspaceSession.restore, awaits, if_true]
      exact { quiet with one := ⟨quiet.one.1, fun _ => origin⟩ }
  · rename_i stale
    cases snapshot with
    | none => simpa [WorkspaceSession.restoreAfterLoadFailure, stale] using quiet
    | some snapshot => simpa [WorkspaceSession.restore, stale] using quiet

theorem Quiet.shows (quiet : w.Quiet) (state : WorkspaceSessionState) (changed : Bool) :
    Quiet { w with session := { w.session with state }, changed } :=
  { quiet with }

theorem Quiet.change (quiet : w.Quiet) (what : Change) (changed : Bool) :
    Quiet { w with session := w.session.change what, changed } := by
  rcases change_cases w.session what with ⟨-, same⟩ | ⟨state, -, unsaved | pending | saved⟩
  · rw [same]
    exact { quiet with }
  · rw [unsaved.2]
    exact quiet.shows state changed
  · rw [pending.2]
    exact { quiet.shows state changed with }
  · rw [saved.2.2]
    exact (quiet.shows state changed).enqueueSave saved.2.1

theorem Quiet.settled (quiet : w.Quiet) {write : Write} {rest : List Write} (saving : Bool)
    (oldest : w.session.writes = write :: rest) :
    Quiet { w with
      saving
      session := { w.session with writes := rest, settled := w.session.settled + 1 } } := by
  have writing : w.session.writes ≠ [] := by
    rw [oldest]
    exact List.cons_ne_nil _ _
  constructor
  · intro bootstrap mem flying
    exact absurd (quiet.calls bootstrap mem flying).2 writing
  · intro _
    exact quiet.selected (Or.inr writing)
  · exact quiet.one

theorem Quiet.send (quiet : w.Quiet) {write : Write} {rest : List Write}
    (oldest : w.session.writes = write :: rest) : Quiet (w.send write rest) := by
  have writing : w.session.writes ≠ [] := by
    rw [oldest]
    exact List.cons_ne_nil _ _
  unfold World.send
  split
  · rename_i scope
    refine { quiet with one := ⟨?_, quiet.one.2⟩ }
    intro received mem
    rcases List.mem_append.mp mem with earlier | last
    · exact quiet.one.1 received earlier
    · rw [List.mem_singleton] at last
      subst last
      constructor
      · apply openCalls_eq_zero.mpr
        intro bootstrap there flying
        exact writing (quiet.calls bootstrap there flying).2
      · have known : w.session.workspaceId.isSome := by simp [scope.1]
        exact (quiet.selected (Or.inr writing) known).trans scope.1
  · have settled := quiet.settled w.saving oldest
    exact settled

theorem Quiet.step {w' : World} (quiet : w.Quiet) (steady : w.Steady) {action : Action}
    (orderly : w.Orderly action) (stepped : w.step action = some w') : w'.Quiet := by
  cases step_cases stepped with
  | begin =>
    have active : w.session.beginWorkspaceBootstrap.activeBootstrapGeneration ≠ none :=
      Option.some_ne_none _
    constructor
    · intro bootstrap mem flying
      rcases List.mem_cons.mp mem with same | earlier
      · subst same
        cases flying
      · exact ⟨active, (quiet.calls bootstrap earlier flying).2⟩
    · intro writing
      rcases writing with idle | writes
      · exact absurd idle active
      · exact quiet.selected (Or.inr writes)
    · exact quiet.one
  | @gaveUp bootstrap mounted there past =>
    apply (quiet.erase bootstrap).fail
    intro current
    rcases past with unmounted | superseded
    · exact orderly unmounted current
    · exact absurd current superseded
  | called there stage drained current => exact quiet.called steady there stage drained current
  | answered there calling => exact quiet.answered there calling _
  | @failed bootstrap mounted there stage =>
    apply (quiet.erase bootstrap).fail
    intro current
    have met := orderly current
    rw [stage] at met
    exact met
  | dropped there => exact quiet.erase _
  | @completed bootstrap workspaceId there stage current =>
    have met := orderly current
    rw [stage] at met
    have undisturbed := met rfl
    exact (quiet.erase bootstrap).complete _ _ undisturbed.1 (undisturbed.2 rfl)
  | loads loads => exact { quiet with }
  | @loaded load selected snapshot stage =>
    have without : Quiet { w with loads := w.loads.erase load } := { quiet with }
    apply without.loaded load selected snapshot
    intro awaits read
    have met := orderly rfl awaits
    rcases Option.isSome_iff_exists.mp read with ⟨shown, same⟩
    rw [stage, same] at met
    exact met
  | changed what => exact quiet.change what _
  | flushed restored idle => exact quiet.enqueueSave idle
  | sent oldest free => exact quiet.send oldest
  | settled oldest sending => exact quiet.settled false oldest

end

/-! ## Every run -/

/-- In every run a save waits for the restore of its scope, and no change is forgotten. Where
no bootstrap ends while another call is with Core, and no load restores another Workspace's
snapshot, snapshots never cross Workspaces. -/
theorem snapshots_stay_in_scope {w : World} (reached : Reaches step Any init w) :
    w.AfterRestore ∧ w.NothingForgotten ∧
      (Reaches step Orderly init w → w.OneWorkspace) := by
  rcases reaches_steady reached with ⟨steady, kept⟩
  refine ⟨steady.after, kept.nothingForgotten steady, ?_⟩
  intro orderly
  have both := orderly.invariant (P := fun w => w.Steady ∧ w.Quiet) ⟨init_steady, init_quiet⟩ <| by
    intro s action t good met stepped
    exact ⟨good.1.step stepped, good.2.step good.1 met stepped⟩
  exact both.2.one

/-- A read of the Workspace up to where Core has its call. -/
def reads (generation : Nat) : List Action :=
  [.begin, .drained ⟨generation, .draining 0⟩ true]

/-- The bootstrap ends with a Workspace, and its scope is restored. -/
def opens (generation : Nat) (workspaceId : WorkspaceId) (scopeGeneration : Nat) : List Action :=
  let restored := ActiveWorkspaceSessionSnapshot.default
  [.answer ⟨generation, .calling⟩ (some workspaceId),
    .resume ⟨generation, .answered (some workspaceId)⟩ true,
    .load workspaceId,
    .answerLoad ⟨workspaceId, scopeGeneration, .asked⟩ (some restored),
    .loaded ⟨workspaceId, scopeGeneration, .answered (some workspaceId) (some restored)⟩ true]

/-- The second read overtakes the first, whose call is over before it. A change that is made
during the third is saved when that is over. -/
def overtaken : List Action :=
  reads 1 ++ reads 2 ++
    [.answer ⟨1, .calling⟩ (some ['a']), .resume ⟨1, .answered (some ['a'])⟩ true] ++
    opens 2 ['b'] 1 ++
    [.change (.setSearchQuery ['q']), .begin, .change (.setSearchQuery ['r']), .send, .settle,
      .drained ⟨3, .draining 1⟩ true, .answer ⟨3, .calling⟩ (some ['b']),
      .resume ⟨3, .answered (some ['b'])⟩ true, .send, .settle]

theorem overtaken_stays_in_scope : ∃ w, run (guarded step Orderly) init overtaken = some w ∧
    w.core.received.length = 2 ∧ w.session.state.searchQuery = ['r'] ∧
    w.lastSent w.session.scopeGeneration = some w.session.state.toSnapshot ∧
    w.AfterRestore ∧ w.NothingForgotten ∧ w.OneWorkspace := by
  have seen : (run (guarded step Orderly) init overtaken).map (fun w =>
      decide (w.core.received.length = 2 ∧ w.session.state.searchQuery = ['r'] ∧
        w.session.activeBootstrapGeneration = none ∧ w.session.writes = [] ∧
        w.session.restored = true ∧ ¬ w.session.SavingDisabled ∧ w.changed = true)) =
      some true := by decide +kernel
  rcases Option.map_eq_some_iff.mp seen with ⟨w, ran, shown⟩
  rcases of_decide_eq_true shown with ⟨two, query, idle, written, restored, enabled, changed⟩
  have orderly := Reaches.of_guarded ran
  have kept := snapshots_stay_in_scope orderly.any
  have last := kept.2.1 idle written restored enabled changed
  exact ⟨w, ran, two, query, last, kept.1, kept.2.1, kept.2.2 orderly⟩

/-- The call of the superseded read selects another Workspace after the newer one is shown. -/
def outlasting : List Action :=
  reads 1 ++ reads 2 ++ opens 2 ['a'] 1 ++
    [.answer ⟨1, .calling⟩ (some ['b']), .change (.setSearchQuery ['q']), .send]

theorem outlasting_crosses : ∃ w, Reaches step Any init w ∧ ¬ w.OneWorkspace ∧
    ∃ received ∈ w.core.received, received.openCalls = 1 ∧ received.selected = some ['b'] ∧
      received.write.workspaceId = ['a'] := by
  have seen : (run step init outlasting).map
      (fun w => w.core.received.map fun received =>
        (received.openCalls, received.selected, received.write.workspaceId)) =
      some [(1, some ['b'], ['a'])] := by decide +kernel
  rcases Option.map_eq_some_iff.mp seen with ⟨w, ran, sent⟩
  rcases List.map_eq_singleton_iff.mp sent with ⟨received, only, stamp⟩
  simp only [Prod.mk.injEq] at stamp
  have there : received ∈ w.core.received := by
    rw [only]
    exact List.mem_singleton_self _
  refine ⟨w, Reaches.of_run ran, ?_, received, there, stamp⟩
  intro one
  have quiet := (one.1 received there).1
  rw [stamp.1] at quiet
  contradiction

end World

end Burlmd.Shell
