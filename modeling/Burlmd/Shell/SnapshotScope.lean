import Burlmd.Shell.WorkspaceSession

/-!
# Snapshots stay in their scope

What every run keeps, and what is kept as long as no bootstrap ends while another call is
with Core. Bootstraps that overlap otherwise let a save through to a Workspace that is not
its own.
-/

namespace Burlmd.Shell

open Index (WorkspaceId)
open Snapshot (ActiveWorkspaceSessionSnapshot)
open Machine (Reaches)

namespace World

/-! ## What is promised -/

/-- A save reaches Core while no call to open or create a Workspace is in flight, and the
Workspace selected there is its own; a restored state is of the Workspace it is shown for. -/
def OneWorkspace (w : World) : Prop :=
  (∀ received ∈ w.core.received,
    received.openCalls = 0 ∧ received.selected = some received.write.workspaceId) ∧
  (w.session.restored = true → w.origin = w.session.workspaceId)

/-- The scope of every save that reached Core had been restored from a load that succeeded. -/
def AfterRestore (w : World) : Prop :=
  ∀ received ∈ w.core.received,
    (received.write.scopeGeneration, .loaded) ∈ w.restores ∧
      (received.write.scopeGeneration, .failed) ∉ w.restores

/-- The last snapshot that Core received of a scope. -/
def lastSent (w : World) (scopeGeneration : Nat) : Option ActiveWorkspaceSessionSnapshot :=
  ((w.core.received.map Received.write).filter
    (·.scopeGeneration = scopeGeneration)).getLast?.map Write.snapshot

/-- Once nothing is under way, Core has what the restored scope shows. -/
def NothingForgotten (w : World) : Prop :=
  w.session.activeBootstrapGeneration = none → w.session.writes = [] →
    w.session.restored = true → ¬ w.session.SavingDisabled → w.changed = true →
      w.lastSent w.session.scopeGeneration = some w.session.state.toSnapshot

/-- No other call is with Core, and Core's selection is the Workspace of the scope, if any. -/
def Undisturbed (w : World) (bootstrap : Bootstrap) (workspaceId : Option WorkspaceId) : Prop :=
  (∀ other ∈ w.bootstraps.erase bootstrap, ¬ other.InFlight) ∧
    (workspaceId.isSome → w.core.selected = workspaceId)

instance (w : World) (bootstrap : Bootstrap) (workspaceId : Option WorkspaceId) :
    Decidable (w.Undisturbed bootstrap workspaceId) :=
  inferInstanceAs (Decidable (_ ∧ _))

/-- The current bootstrap ends undisturbed, and a load restores what Core answered for the
Workspace of its scope. -/
def Orderly (w : World) : Action → Prop
  | .drained bootstrap mounted =>
      mounted = false → w.session.IsCurrentWorkspaceBootstrap bootstrap.generation →
        w.Undisturbed bootstrap w.session.workspaceId
  | .resume bootstrap mounted =>
      w.session.IsCurrentWorkspaceBootstrap bootstrap.generation →
        match bootstrap.stage with
        | .answered none => w.Undisturbed bootstrap w.session.workspaceId
        | .answered (some workspaceId) => mounted → w.Undisturbed bootstrap (some workspaceId)
        | _ => True
  | .loaded load mounted =>
      mounted → w.session.AwaitsRestore load.workspaceId load.scopeGeneration →
        match load.stage with
        | .answered selected (some _) => selected = some load.workspaceId
        | _ => True
  | _ => True

instance (w : World) (action : Action) : Decidable (w.Orderly action) := by
  unfold Orderly
  split
  · infer_instance
  · split <;> infer_instance
  · split <;> infer_instance
  · infer_instance

/-! ## What every run keeps -/

/-- The writes that have not reached Core. -/
def unsent (w : World) : List Write :=
  if w.saving then w.session.writes.tail else w.session.writes

/-- The writes of a scope, whether they have reached Core or not. -/
def writesOf (w : World) (scopeGeneration : Nat) : List Write :=
  (w.core.received.map Received.write ++ w.unsent).filter (·.scopeGeneration = scopeGeneration)

structure Steady (w : World) : Prop where
  numbered : ∀ bootstrap ∈ w.bootstraps, bootstrap.generation ≤ w.session.bootstrapGeneration
  /-- Nothing is admitted while the current bootstrap drains. -/
  drains : ∀ bootstrap ∈ w.bootstraps,
    w.session.IsCurrentWorkspaceBootstrap bootstrap.generation →
      ∀ writes, bootstrap.stage = .draining writes → writes = w.session.admitted
  idle : w.session.activeBootstrapGeneration = none →
    w.session.savePendingDuringBootstrap = false
  saving : w.saving = true → w.session.writes ≠ []
  known : w.session.restored = true → w.session.workspaceId.isSome
  enabled : w.session.restored = false → ¬ w.session.SavingDisabled
  /-- A write of the scope is of its Workspace, and the scope may be saved. -/
  writes : ∀ write ∈ w.session.writes, write.scopeGeneration ≤ w.session.scopeGeneration ∧
    (write.scopeGeneration = w.session.scopeGeneration →
      w.session.workspaceId = some write.workspaceId ∧ w.session.restored = true ∧
        ¬ w.session.SavingDisabled)
  restores : ∀ entry ∈ w.restores, entry.1 ≤ w.session.scopeGeneration ∧
    (entry.1 = w.session.scopeGeneration → w.session.restored = true)
  outcome : w.session.restored = true → ∀ outcome,
    (w.session.scopeGeneration, outcome) ∈ w.restores ↔
      outcome = if w.session.SavingDisabled then .failed else .loaded
  after : w.AfterRestore

/-- What has changed in the scope is pending, or the last of its writes. -/
def Kept (w : World) : Prop :=
  w.session.restored = true → ¬ w.session.SavingDisabled → w.changed = true →
    w.session.savePendingDuringBootstrap = true ∨
      (w.writesOf w.session.scopeGeneration).getLast?.map Write.snapshot =
        some w.session.state.toSnapshot

theorem Kept.nothingForgotten {w : World} (kept : w.Kept) (steady : w.Steady) :
    w.NothingForgotten := by
  intro idle settled restored enabled changed
  rcases kept restored enabled changed with pending | last
  · rw [steady.idle idle] at pending
    contradiction
  · have none : w.unsent = [] := by
      unfold unsent
      split <;> simp [settled]
    rw [writesOf, none, List.append_nil] at last
    exact last

theorem init_steady : init.Steady := by
  constructor <;> intros <;> simp_all [init, WorkspaceSession.build, AfterRestore,
    WorkspaceSession.SavingDisabled]

theorem init_kept : init.Kept := by
  intro restored
  cases restored

/-! ### Saves -/

section

variable {w : World}

/-- A save of a restored scope is refused, or becomes the last write. -/
theorem enqueueSave_cases {s : WorkspaceSession} (known : s.workspaceId.isSome) :
    (s.SavingDisabled ∧ s.enqueueSave = s) ∨
      (¬ s.SavingDisabled ∧ ∃ workspaceId, s.workspaceId = some workspaceId ∧
        s.enqueueSave =
          { s with writes := s.writes ++ [⟨workspaceId, s.scopeGeneration, s.state.toSnapshot⟩] }) := by
  rcases Option.isSome_iff_exists.mp known with ⟨workspaceId, named⟩
  by_cases disabled : s.SavingDisabled
  · exact Or.inl ⟨disabled, by simp [WorkspaceSession.enqueueSave, named, disabled]⟩
  · exact Or.inr ⟨disabled, workspaceId, named,
      by simp [WorkspaceSession.enqueueSave, named, disabled]⟩

theorem Steady.enqueueSave (steady : w.Steady)
    (idle : w.session.activeBootstrapGeneration = none) (restored : w.session.restored = true) :
    Steady { w with session := w.session.enqueueSave } := by
  rcases enqueueSave_cases (steady.known restored) with ⟨-, same⟩ | ⟨enabled, workspaceId, named, saved⟩
  · rw [same]
    exact steady
  · rw [saved]
    constructor
    · exact steady.numbered
    · intro bootstrap _ current
      rw [WorkspaceSession.IsCurrentWorkspaceBootstrap] at current
      simp only [idle] at current
      contradiction
    · exact steady.idle
    · intro _
      simp
    · exact steady.known
    · exact steady.enabled
    · intro write mem
      rcases List.mem_append.mp mem with earlier | last
      · exact steady.writes write earlier
      · rw [List.mem_singleton] at last
        subst last
        exact ⟨le_refl _, fun _ => ⟨named, restored, enabled⟩⟩
    · exact steady.restores
    · exact steady.outcome
    · exact steady.after

/-- What is saved last is what is shown. -/
theorem Steady.enqueueSave_kept (steady : w.Steady) (restored : w.session.restored = true) :
    Kept { w with session := w.session.enqueueSave } := by
  rcases enqueueSave_cases (steady.known restored) with ⟨disabled, same⟩ | ⟨-, workspaceId, -, saved⟩
  · intro _ enabled
    simp only [same] at enabled
    contradiction
  · intro _ _ _
    apply Or.inr
    have last : unsent { w with session := w.session.enqueueSave } =
        w.unsent ++ [⟨workspaceId, w.session.scopeGeneration, w.session.state.toSnapshot⟩] := by
      unfold unsent
      rw [saved]
      by_cases sending : w.saving = true
      · simp [sending, List.tail_append_of_ne_nil (steady.saving sending)]
      · simp [sending]
    have scope : w.session.enqueueSave.scopeGeneration = w.session.scopeGeneration := by rw [saved]
    have shown : w.session.enqueueSave.state = w.session.state := by rw [saved]
    dsimp only
    rw [writesOf, last, scope, shown, ← List.append_assoc, List.filter_append]
    simp

/-! ### Bootstraps -/

/-- Bootstraps may be over, or with Core. -/
theorem Steady.ofBootstraps (steady : w.Steady) {bootstraps : List Bootstrap}
    (from_ : ∀ bootstrap ∈ bootstraps, bootstrap ∈ w.bootstraps ∨
      bootstrap.InFlight ∧ ∃ before ∈ w.bootstraps, before.generation = bootstrap.generation) :
    Steady { w with bootstraps } := by
  refine { steady with numbered := ?_, drains := ?_ }
  · intro bootstrap mem
    rcases from_ bootstrap mem with same | ⟨-, before, there, number⟩
    · exact steady.numbered bootstrap same
    · rw [← number]
      exact steady.numbered before there
  · intro bootstrap mem current writes stage
    rcases from_ bootstrap mem with same | ⟨flying, -⟩
    · exact steady.drains bootstrap same current writes stage
    · rw [Bootstrap.InFlight, stage] at flying
      contradiction

theorem Steady.erase (steady : w.Steady) (bootstrap : Bootstrap) :
    Steady { w with bootstraps := w.bootstraps.erase bootstrap } :=
  steady.ofBootstraps fun _ mem => Or.inl (List.mem_of_mem_erase mem)

theorem Steady.moved (steady : w.Steady) {bootstrap : Bootstrap} (there : bootstrap ∈ w.bootstraps)
    {stage : BootstrapStage} (flying : Bootstrap.InFlight ⟨bootstrap.generation, stage⟩) :
    Steady { w with bootstraps := ⟨bootstrap.generation, stage⟩ :: w.bootstraps.erase bootstrap } := by
  apply steady.ofBootstraps
  intro other mem
  rcases List.mem_cons.mp mem with same | earlier
  · subst same
    exact Or.inr ⟨flying, bootstrap, there, rfl⟩
  · exact Or.inl (List.mem_of_mem_erase earlier)

theorem Steady.begin (steady : w.Steady) :
    Steady { w with
      session := w.session.beginWorkspaceBootstrap
      bootstraps := ⟨w.session.beginWorkspaceBootstrap.bootstrapGeneration,
        .draining w.session.beginWorkspaceBootstrap.admitted⟩ :: w.bootstraps } := by
  refine { steady with numbered := ?_, drains := ?_, idle := ?_ }
  · intro bootstrap mem
    rcases List.mem_cons.mp mem with same | earlier
    · subst same
      exact le_refl _
    · exact Nat.le_succ_of_le (steady.numbered bootstrap earlier)
  · intro bootstrap mem current writes stage
    rcases List.mem_cons.mp mem with same | earlier
    · subst same
      cases stage
      rfl
    · -- an older bootstrap is superseded
      have older := steady.numbered bootstrap earlier
      have number : w.session.bootstrapGeneration + 1 = bootstrap.generation :=
        Option.some.inj current
      omega
  · intro idle
    cases idle

theorem Steady.ended (steady : w.Steady) :
    Steady { w with
      session := { w.session with
        activeBootstrapGeneration := none, savePendingDuringBootstrap := false } } := by
  refine { steady with drains := ?_, idle := fun _ => rfl }
  intro bootstrap _ current
  cases current

theorem Steady.endInScope (steady : w.Steady) : Steady { w with session := w.session.endInScope } := by
  unfold WorkspaceSession.endInScope
  dsimp only
  split
  · rename_i due
    rw [Bool.and_eq_true] at due
    exact steady.ended.enqueueSave rfl due.2
  · exact steady.ended

theorem Kept.endInScope (kept : w.Kept) (steady : w.Steady) :
    Kept { w with session := w.session.endInScope } := by
  unfold WorkspaceSession.endInScope
  dsimp only
  split
  · rename_i due
    rw [Bool.and_eq_true] at due
    exact steady.ended.enqueueSave_kept due.2
  · rename_i settled
    intro restored enabled changed
    rcases kept restored enabled changed with pending | last
    · rw [Bool.and_eq_true] at settled
      exact absurd ⟨pending, restored⟩ settled
    · exact Or.inr last

/-- A scope that is not restored yet has no writes. -/
theorem Steady.newScope (steady : w.Steady) (workspaceId : WorkspaceId) :
    Steady { w with
      session := { w.session with
        activeBootstrapGeneration := none
        savePendingDuringBootstrap := false
        workspaceId := some workspaceId
        scopeGeneration := w.session.scopeGeneration + 1
        restored := false
        snapshotSavingDisabledScopeGeneration := none
        state := .empty } } := by
  constructor
  · exact steady.numbered
  · intro bootstrap _ current
    cases current
  · intro _
    rfl
  · exact steady.saving
  · intro restored
    cases restored
  · intro _ disabled
    cases disabled
  · intro write mem
    have earlier := (steady.writes write mem).1
    refine ⟨Nat.le_succ_of_le earlier, ?_⟩
    intro same
    dsimp only at same
    omega
  · intro entry mem
    have earlier := (steady.restores entry mem).1
    refine ⟨Nat.le_succ_of_le earlier, ?_⟩
    intro same
    dsimp only at same
    omega
  · intro restored
    cases restored
  · exact steady.after

theorem Steady.fail (steady : w.Steady) (generation : Nat) :
    Steady { w with session := w.session.failWorkspaceBootstrap generation } := by
  unfold WorkspaceSession.failWorkspaceBootstrap
  split
  · exact steady
  · exact steady.endInScope

theorem Kept.fail (kept : w.Kept) (steady : w.Steady) (generation : Nat) :
    Kept { w with session := w.session.failWorkspaceBootstrap generation } := by
  unfold WorkspaceSession.failWorkspaceBootstrap
  split
  · exact kept
  · exact kept.endInScope steady

theorem Steady.complete (steady : w.Steady) (generation : Nat) (workspaceId : WorkspaceId) :
    Steady { w with session := w.session.completeWorkspaceBootstrap generation workspaceId } := by
  unfold WorkspaceSession.completeWorkspaceBootstrap
  split
  · exact steady
  · split
    · exact steady.newScope workspaceId
    · exact steady.endInScope

theorem Kept.complete (kept : w.Kept) (steady : w.Steady) (generation : Nat)
    (workspaceId : WorkspaceId) :
    Kept { w with session := w.session.completeWorkspaceBootstrap generation workspaceId } := by
  unfold WorkspaceSession.completeWorkspaceBootstrap
  split
  · exact kept
  · split
    · intro restored
      cases restored
    · exact kept.endInScope steady

/-! ### Loads -/

/-- A scope is restored once. -/
theorem Steady.restored (steady : w.Steady) (waiting : w.session.restored = false)
    (known : w.session.workspaceId.isSome) {session : WorkspaceSession} {outcome : LoadOutcome}
    (frame : session =
      { w.session with
        state := session.state
        restored := true
        snapshotSavingDisabledScopeGeneration := session.snapshotSavingDisabledScopeGeneration })
    (result : outcome = if session.SavingDisabled then .failed else .loaded)
    (origin : Option WorkspaceId) :
    Steady { w with
      session, origin, changed := false
      restores := (w.session.scopeGeneration, outcome) :: w.restores } := by
  have scope : session.scopeGeneration = w.session.scopeGeneration := by rw [frame]
  have none : ∀ entry ∈ w.restores, entry.1 ≠ w.session.scopeGeneration := by
    intro entry mem same
    have already := (steady.restores entry mem).2 same
    rw [waiting] at already
    contradiction
  have restored : session.restored = true := by rw [frame]
  constructor
  · rw [frame]
    exact steady.numbered
  · rw [frame]
    exact steady.drains
  · rw [frame]
    exact steady.idle
  · rw [frame]
    exact steady.saving
  · intro _
    rw [frame]
    exact known
  · intro no
    rw [restored] at no
    contradiction
  · intro write mem
    rw [frame] at mem
    rcases steady.writes write mem with ⟨earlier, own⟩
    refine ⟨scope ▸ earlier, ?_⟩
    intro same
    have already := (own (same.trans scope)).2.1
    rw [waiting] at already
    contradiction
  · intro entry mem
    refine ⟨?_, fun _ => restored⟩
    rcases List.mem_cons.mp mem with same | earlier
    · rw [same, scope]
    · rw [scope]
      exact (steady.restores entry earlier).1
  · intro _ other
    dsimp only
    rw [scope, List.mem_cons, ← result]
    constructor
    · intro mem
      rcases mem with same | earlier
      · exact congrArg Prod.snd same
      · exact absurd rfl (none _ earlier)
    · intro same
      exact Or.inl (by rw [same])
  · intro received mem
    rcases steady.after received mem with ⟨loaded, failed⟩
    have other := none _ loaded
    refine ⟨List.mem_cons_of_mem _ loaded, ?_⟩
    intro there
    rcases List.mem_cons.mp there with same | earlier
    · exact other (congrArg Prod.fst same)
    · exact failed earlier

theorem Steady.loaded (steady : w.Steady) (load : Load) (selected : Option WorkspaceId)
    (snapshot : Option ActiveWorkspaceSessionSnapshot) :
    Steady (w.loaded load selected snapshot) := by
  unfold World.loaded
  dsimp only
  split
  · rename_i awaits
    rcases awaits with ⟨idle, ⟨named, scope⟩, waiting⟩
    have awaits : w.session.AwaitsRestore load.workspaceId load.scopeGeneration :=
      ⟨idle, ⟨named, scope⟩, waiting⟩
    have known : w.session.workspaceId.isSome := by simp [named]
    rw [← scope]
    cases snapshot with
    | none =>
      apply steady.restored waiting known
      · simp [WorkspaceSession.restoreAfterLoadFailure, scope, awaits]
      · simp [WorkspaceSession.restoreAfterLoadFailure, scope, awaits,
          WorkspaceSession.SavingDisabled]
    | some snapshot =>
      have enabled := steady.enabled waiting
      rw [WorkspaceSession.SavingDisabled] at enabled
      apply steady.restored waiting known
      · simp [WorkspaceSession.restore, scope, awaits]
      · rw [scope] at enabled
        simp [WorkspaceSession.restore, scope, awaits, WorkspaceSession.SavingDisabled, enabled]
  · rename_i stale
    cases snapshot with
    | none => simpa [WorkspaceSession.restoreAfterLoadFailure, stale] using steady
    | some snapshot => simpa [WorkspaceSession.restore, stale] using steady

theorem Kept.loaded (kept : w.Kept) (load : Load) (selected : Option WorkspaceId)
    (snapshot : Option ActiveWorkspaceSessionSnapshot) : Kept (w.loaded load selected snapshot) := by
  unfold World.loaded
  dsimp only
  split
  · intro _ _ changed
    cases changed
  · rename_i stale
    cases snapshot with
    | none => simpa [WorkspaceSession.restoreAfterLoadFailure, stale] using kept
    | some snapshot => simpa [WorkspaceSession.restore, stale] using kept

/-! ### Changes and writes -/

/-- A change has no effect on the scope, is pending, or is saved. -/
theorem change_cases (s : WorkspaceSession) (what : Change) :
    (what.apply s.state = none ∧ s.change what = s) ∨
      ∃ state, what.apply s.state = some state ∧
        ((s.restored = false ∧ s.change what = { s with state }) ∨
          (s.activeBootstrapGeneration.isSome ∧
            s.change what = { s with state, savePendingDuringBootstrap := true }) ∨
          (s.restored = true ∧ s.activeBootstrapGeneration = none ∧
            s.change what = { s with state }.enqueueSave)) := by
  unfold WorkspaceSession.change
  cases applied : what.apply s.state with
  | none => exact Or.inl ⟨rfl, rfl⟩
  | some state =>
    apply Or.inr
    refine ⟨state, rfl, ?_⟩
    unfold WorkspaceSession.scheduleSave
    cases restored : s.restored with
    | false => exact Or.inl ⟨rfl, by simp⟩
    | true =>
      apply Or.inr
      cases active : s.activeBootstrapGeneration with
      | none => exact Or.inr ⟨rfl, rfl, by simp⟩
      | some generation => exact Or.inl ⟨rfl, by simp⟩

theorem Steady.shows (steady : w.Steady) (state : WorkspaceSessionState) (changed : Bool) :
    Steady { w with session := { w.session with state }, changed } :=
  { steady with }

theorem Steady.change (steady : w.Steady) (what : Change) (changed : Bool) :
    Steady { w with session := w.session.change what, changed } := by
  rcases change_cases w.session what with ⟨-, same⟩ | ⟨state, -, unsaved | pending | saved⟩
  · rw [same]
    exact { steady with }
  · rw [unsaved.2]
    exact steady.shows state changed
  · rw [pending.2]
    refine { steady.shows state changed with idle := ?_ }
    intro idle
    have active := pending.1
    rw [show w.session.activeBootstrapGeneration = none from idle] at active
    cases active
  · rw [saved.2.2]
    exact (steady.shows state changed).enqueueSave saved.2.1 saved.1

theorem Kept.change (kept : w.Kept) (steady : w.Steady) (what : Change) :
    Kept { w with
      session := w.session.change what
      changed := w.changed || (what.apply w.session.state).isSome } := by
  rcases change_cases w.session what with
    ⟨none, same⟩ | ⟨state, applied, unsaved | pending | saved⟩
  · simpa [none, same] using kept
  · intro restored
    rw [unsaved.2] at restored
    rw [unsaved.1] at restored
    contradiction
  · intro _ _ _
    apply Or.inl
    rw [pending.2]
  · rw [saved.2.2]
    exact (steady.shows state _).enqueueSave_kept saved.1

/-- A write of another scope is skipped. -/
theorem Steady.settled (steady : w.Steady) {write : Write} {rest : List Write}
    (oldest : w.session.writes = write :: rest) :
    Steady { w with
      saving := false
      session := { w.session with writes := rest, settled := w.session.settled + 1 } } := by
  refine { steady with drains := ?_, saving := ?_, writes := ?_ }
  · intro bootstrap mem current writes stage
    rw [steady.drains bootstrap mem current writes stage]
    simp only [WorkspaceSession.admitted, oldest, List.length_cons]
    omega
  · intro saving
    cases saving
  · intro other mem
    exact steady.writes other (oldest ▸ List.mem_cons_of_mem _ mem)

theorem Steady.send (steady : w.Steady) {write : Write} {rest : List Write}
    (oldest : w.session.writes = write :: rest) (free : w.saving = false) :
    Steady (w.send write rest) := by
  unfold World.send
  split
  · rename_i scope
    have own := (steady.writes write (oldest ▸ List.mem_cons_self)).2 scope.2.symm
    refine { steady with saving := ?_, after := ?_ }
    · intro _
      rw [oldest]
      exact List.cons_ne_nil _ _
    · intro received mem
      rcases List.mem_append.mp mem with earlier | last
      · exact steady.after received earlier
      · rw [List.mem_singleton] at last
        subst last
        have outcome := steady.outcome own.2.1
        simp only [own.2.2, if_false] at outcome
        dsimp only
        rw [← scope.2, outcome, outcome]
        exact ⟨rfl, LoadOutcome.noConfusion⟩
  · have settled := steady.settled oldest
    rw [← free] at settled
    exact settled

theorem Kept.settled (kept : w.Kept) {write : Write} {rest : List Write}
    (oldest : w.session.writes = write :: rest) (sending : w.saving = true) :
    Kept { w with
      saving := false
      session := { w.session with writes := rest, settled := w.session.settled + 1 } } := by
  have same (scopeGeneration : Nat) :
      writesOf { w with
        saving := false
        session := { w.session with writes := rest, settled := w.session.settled + 1 } }
          scopeGeneration = w.writesOf scopeGeneration := by
    simp [writesOf, unsent, sending, oldest]
  unfold Kept
  simp only [same]
  exact kept

theorem Kept.send (kept : w.Kept) (steady : w.Steady) {write : Write} {rest : List Write}
    (oldest : w.session.writes = write :: rest) (free : w.saving = false) :
    Kept (w.send write rest) := by
  unfold World.send
  split
  · have same (scopeGeneration : Nat) :
        writesOf { w with
          saving := true
          core := { w.core with
            received := w.core.received ++ [⟨write, w.core.selected, w.openCalls⟩] } }
            scopeGeneration = w.writesOf scopeGeneration := by
      simp [writesOf, unsent, free, oldest]
    unfold Kept
    simp only [same]
    exact kept
  · rename_i stale
    have other : write.scopeGeneration ≠ w.session.scopeGeneration := by
      intro same
      have own := (steady.writes write (oldest ▸ List.mem_cons_self)).2 same
      exact stale ⟨own.1, same.symm⟩
    have same : writesOf
        { w with session := { w.session with writes := rest, settled := w.session.settled + 1 } }
          w.session.scopeGeneration = w.writesOf w.session.scopeGeneration := by
      simp [writesOf, unsent, free, oldest, List.filter_append, other]
    intro restored enabled changed
    dsimp only
    rw [same]
    exact kept restored enabled changed

/-- One step. -/
theorem Steady.step {w' : World} (steady : w.Steady) {action : Action}
    (stepped : w.step action = some w') : w'.Steady := by
  cases step_cases stepped with
  | begin => exact steady.begin
  | gaveUp there past => exact (steady.erase _).fail _
  | called there stage drained current => exact steady.moved there trivial
  | @answered bootstrap workspace there calling =>
    have flying : Bootstrap.InFlight ⟨bootstrap.generation, .answered workspace⟩ := trivial
    exact { steady.moved there flying with }
  | failed there stage => exact (steady.erase _).fail _
  | dropped there => exact steady.erase _
  | completed there stage current => exact (steady.erase _).complete _ _
  | loads loads => exact { steady with }
  | @loaded load selected snapshot stage =>
    have without : Steady { w with loads := w.loads.erase load } := { steady with }
    exact without.loaded load selected snapshot
  | changed what => exact steady.change what _
  | flushed restored idle => exact steady.enqueueSave idle restored
  | sent oldest free => exact steady.send oldest free
  | settled oldest sending => exact steady.settled oldest

theorem Kept.step {w' : World} (kept : w.Kept) (steady : w.Steady) {action : Action}
    (stepped : w.step action = some w') : w'.Kept := by
  cases step_cases stepped with
  | begin => exact kept
  | @gaveUp bootstrap mounted there past =>
    exact Kept.fail (w := { w with bootstraps := w.bootstraps.erase bootstrap }) kept
      (steady.erase _) _
  | called there stage drained current => exact kept
  | answered there calling => exact kept
  | @failed bootstrap mounted there stage =>
    exact Kept.fail (w := { w with bootstraps := w.bootstraps.erase bootstrap }) kept
      (steady.erase _) _
  | dropped there => exact kept
  | @completed bootstrap workspaceId there stage current =>
    exact Kept.complete (w := { w with bootstraps := w.bootstraps.erase bootstrap }) kept
      (steady.erase _) _ _
  | loads loads => exact kept
  | @loaded load selected snapshot stage =>
    exact Kept.loaded (w := { w with loads := w.loads.erase load }) kept load selected snapshot
  | changed what => exact kept.change steady what
  | flushed restored idle => exact steady.enqueueSave_kept restored
  | sent oldest free => exact kept.send steady oldest free
  | settled oldest sending => exact kept.settled oldest sending

end

/-- Every run is steady, and forgets nothing. -/
theorem reaches_steady {w : World} (reached : Reaches step Machine.Any init w) :
    w.Steady ∧ w.Kept := by
  apply reached.invariant (P := fun w => w.Steady ∧ w.Kept) ⟨init_steady, init_kept⟩
  intro s action t good _ stepped
  exact ⟨good.1.step stepped, good.2.step good.1 stepped⟩

end World

end Burlmd.Shell
