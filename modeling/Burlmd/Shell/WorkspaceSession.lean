import Burlmd.Library.Machine
import Burlmd.Shell.SessionState

/-!
# The session of a Workspace

A bootstrap selects a Workspace in Core. Core's save names no Workspace, so the session
holds its saves back while a bootstrap is active, and a bootstrap waits for the saves that
are admitted. Every segment between two awaits is one action. A newer read of the
Workspace begins a bootstrap of its own while an older one is still under way.
-/

namespace Burlmd.Shell

open Index (WorkspaceId)
open Snapshot (ActiveWorkspaceSessionSnapshot)

/-- A save in the chain of writes. -/
structure Write where
  workspaceId : WorkspaceId
  scopeGeneration : Nat
  snapshot : ActiveWorkspaceSessionSnapshot
  deriving DecidableEq

structure WorkspaceSession where
  state : WorkspaceSessionState
  /-- The writes that are admitted and not settled, oldest first. -/
  writes : List Write
  settled : Nat
  workspaceId : Option WorkspaceId
  scopeGeneration : Nat
  bootstrapGeneration : Nat
  activeBootstrapGeneration : Option Nat
  savePendingDuringBootstrap : Bool
  restored : Bool
  snapshotSavingDisabledScopeGeneration : Option Nat
  deriving DecidableEq

namespace WorkspaceSession

def build : WorkspaceSession where
  state := .empty
  writes := []
  settled := 0
  workspaceId := none
  scopeGeneration := 0
  bootstrapGeneration := 0
  activeBootstrapGeneration := none
  savePendingDuringBootstrap := false
  restored := false
  snapshotSavingDisabledScopeGeneration := none

variable (s : WorkspaceSession)

/-- The length of the chain of writes since the start. -/
def admitted : Nat := s.settled + s.writes.length

def SavingDisabled : Prop := s.snapshotSavingDisabledScopeGeneration = some s.scopeGeneration

instance : Decidable s.SavingDisabled := inferInstanceAs (Decidable (_ = _))

def enqueueSave : WorkspaceSession :=
  match s.workspaceId with
  | none => s
  | some workspaceId =>
      if s.SavingDisabled then s
      else { s with writes := s.writes ++ [⟨workspaceId, s.scopeGeneration, s.state.toSnapshot⟩] }

def scheduleSave : WorkspaceSession :=
  if !s.restored then s
  else if s.activeBootstrapGeneration.isSome then { s with savePendingDuringBootstrap := true }
  else s.enqueueSave

def beginWorkspaceBootstrap : WorkspaceSession :=
  { s with
    bootstrapGeneration := s.bootstrapGeneration + 1
    activeBootstrapGeneration := some (s.bootstrapGeneration + 1) }

def IsCurrentWorkspaceBootstrap (generation : Nat) : Prop :=
  s.activeBootstrapGeneration = some generation

instance (generation : Nat) : Decidable (s.IsCurrentWorkspaceBootstrap generation) :=
  inferInstanceAs (Decidable (_ = _))

/-- Ends the active bootstrap in the scope there was before it. -/
def endInScope : WorkspaceSession :=
  let ended := { s with activeBootstrapGeneration := none, savePendingDuringBootstrap := false }
  if s.savePendingDuringBootstrap && s.restored then ended.enqueueSave else ended

/-- A Workspace other than the one before opens a scope, empty until it is restored. -/
def completeWorkspaceBootstrap (generation : Nat) (workspaceId : WorkspaceId) :
    WorkspaceSession :=
  if ¬ s.IsCurrentWorkspaceBootstrap generation then s
  else if s.workspaceId ≠ some workspaceId then
    { s with
      activeBootstrapGeneration := none
      savePendingDuringBootstrap := false
      workspaceId := some workspaceId
      scopeGeneration := s.scopeGeneration + 1
      restored := false
      snapshotSavingDisabledScopeGeneration := none
      state := .empty }
  else s.endInScope

def failWorkspaceBootstrap (generation : Nat) : WorkspaceSession :=
  if ¬ s.IsCurrentWorkspaceBootstrap generation then s else s.endInScope

def restoreScopeFor (workspaceId : WorkspaceId) : Option Nat :=
  if s.activeBootstrapGeneration.isSome || s.workspaceId ≠ some workspaceId then none
  else some s.scopeGeneration

def IsCurrentWorkspaceScope (workspaceId : WorkspaceId) (scopeGeneration : Nat) : Prop :=
  s.workspaceId = some workspaceId ∧ s.scopeGeneration = scopeGeneration

instance (workspaceId : WorkspaceId) (scopeGeneration : Nat) :
    Decidable (s.IsCurrentWorkspaceScope workspaceId scopeGeneration) :=
  inferInstanceAs (Decidable (_ ∧ _))

/-- The loads that a restore still waits for: of this scope, and none has come yet. -/
def AwaitsRestore (workspaceId : WorkspaceId) (scopeGeneration : Nat) : Prop :=
  s.activeBootstrapGeneration = none ∧ s.IsCurrentWorkspaceScope workspaceId scopeGeneration ∧
    s.restored = false

instance (workspaceId : WorkspaceId) (scopeGeneration : Nat) :
    Decidable (s.AwaitsRestore workspaceId scopeGeneration) :=
  inferInstanceAs (Decidable (_ ∧ _ ∧ _))

def restore (snapshot : ActiveWorkspaceSessionSnapshot) (workspaceId : WorkspaceId)
    (scopeGeneration : Nat) : WorkspaceSession :=
  if s.AwaitsRestore workspaceId scopeGeneration then
    { s with state := .fromSnapshot snapshot, restored := true }
  else s

def restoreAfterLoadFailure (workspaceId : WorkspaceId) (scopeGeneration : Nat) :
    WorkspaceSession :=
  if s.AwaitsRestore workspaceId scopeGeneration then
    { s with
      state := .empty
      restored := true
      snapshotSavingDisabledScopeGeneration := some scopeGeneration }
  else s

def change (what : Change) : WorkspaceSession :=
  match what.apply s.state with
  | none => s
  | some state => { s with state }.scheduleSave

/-- The save of `flushPendingWrites`, which is refused where saving is not available. -/
def flushPendingWrites : Option WorkspaceSession :=
  if !s.restored || s.workspaceId.isNone || s.activeBootstrapGeneration.isSome ||
      s.SavingDisabled then none
  else some s.enqueueSave

end WorkspaceSession

/-! ## Core and what is under way -/

/-- A save as it reaches Core, with the Workspace that is selected there, and the calls to
open or create one that are in flight. -/
structure Received where
  write : Write
  selected : Option WorkspaceId
  openCalls : Nat
  deriving DecidableEq

structure Core where
  selected : Option WorkspaceId
  received : List Received
  deriving DecidableEq

inductive BootstrapStage where
  /-- Waits for the writes admitted when it began. -/
  | draining (writes : Nat)
  /-- The call is with Core. -/
  | calling
  /-- Core has answered, with a Workspace or a failure. -/
  | answered (workspace : Option WorkspaceId)
  deriving DecidableEq

structure Bootstrap where
  generation : Nat
  stage : BootstrapStage
  deriving DecidableEq

def Bootstrap.InFlight (bootstrap : Bootstrap) : Prop :=
  match bootstrap.stage with
  | .draining _ => False
  | .calling | .answered _ => True

instance : ∀ bootstrap : Bootstrap, Decidable bootstrap.InFlight
  | ⟨_, .draining _⟩ => inferInstanceAs (Decidable False)
  | ⟨_, .calling⟩ | ⟨_, .answered _⟩ => inferInstanceAs (Decidable True)

inductive LoadStage where
  | asked
  /-- Core has answered, with a snapshot or a failure, for the Workspace selected there. -/
  | answered (selected : Option WorkspaceId) (snapshot : Option ActiveWorkspaceSessionSnapshot)
  deriving DecidableEq

/-- A load of the snapshot of a scope. -/
structure Load where
  workspaceId : WorkspaceId
  scopeGeneration : Nat
  stage : LoadStage
  deriving DecidableEq

inductive LoadOutcome where
  | loaded
  | failed
  deriving DecidableEq

structure World where
  session : WorkspaceSession
  bootstraps : List Bootstrap
  loads : List Load
  /-- The oldest write is with Core. -/
  saving : Bool
  core : Core
  /-- How each scope was restored. -/
  restores : List (Nat × LoadOutcome)
  /-- The Workspace whose state was restored last. -/
  origin : Option WorkspaceId
  /-- Something has changed since the scope was restored. -/
  changed : Bool
  deriving DecidableEq

def World.init : World where
  session := .build
  bootstraps := []
  loads := []
  saving := false
  core := ⟨none, []⟩
  restores := []
  origin := none
  changed := false

/-! ## Steps -/

inductive Action where
  /-- The Workspace is read. -/
  | begin
  /-- The drain of a bootstrap is over, and its provider may have been disposed of. -/
  | drained (bootstrap : Bootstrap) (mounted : Bool)
  /-- Core opens or creates a Workspace, or fails. -/
  | answer (bootstrap : Bootstrap) (workspace : Option WorkspaceId)
  | resume (bootstrap : Bootstrap) (mounted : Bool)
  | load (workspaceId : WorkspaceId)
  | answerLoad (load : Load) (snapshot : Option ActiveWorkspaceSessionSnapshot)
  | loaded (load : Load) (mounted : Bool)
  | change (what : Change)
  | flush
  /-- The oldest write reaches Core, or is skipped in another scope than its own. -/
  | send
  | settle

namespace World

variable (w : World)

def openCalls : Nat := w.bootstraps.countP (decide ·.InFlight)

def drained (bootstrap : Bootstrap) (mounted : Bool) : World :=
  if !mounted || ¬ w.session.IsCurrentWorkspaceBootstrap bootstrap.generation then
    { w with
      session := w.session.failWorkspaceBootstrap bootstrap.generation
      bootstraps := w.bootstraps.erase bootstrap }
  else
    { w with bootstraps := ⟨bootstrap.generation, .calling⟩ :: w.bootstraps.erase bootstrap }

def answer (bootstrap : Bootstrap) (workspace : Option WorkspaceId) : World :=
  { w with
    core := { w.core with selected := workspace.orElse fun _ => w.core.selected }
    bootstraps := ⟨bootstrap.generation, .answered workspace⟩ :: w.bootstraps.erase bootstrap }

def resume (bootstrap : Bootstrap) (workspace : Option WorkspaceId) (mounted : Bool) : World :=
  let w := { w with bootstraps := w.bootstraps.erase bootstrap }
  match workspace with
  | none => { w with session := w.session.failWorkspaceBootstrap bootstrap.generation }
  | some workspaceId =>
      if !mounted || ¬ w.session.IsCurrentWorkspaceBootstrap bootstrap.generation then w
      else
        { w with
          session := w.session.completeWorkspaceBootstrap bootstrap.generation workspaceId }

def loaded (load : Load) (selected : Option WorkspaceId)
    (snapshot : Option ActiveWorkspaceSessionSnapshot) : World :=
  let session := match snapshot with
    | some snapshot => w.session.restore snapshot load.workspaceId load.scopeGeneration
    | none => w.session.restoreAfterLoadFailure load.workspaceId load.scopeGeneration
  if w.session.AwaitsRestore load.workspaceId load.scopeGeneration then
    { w with
      session
      restores := (load.scopeGeneration, if snapshot.isSome then .loaded else .failed) :: w.restores
      -- a failure shows the empty state, which is of no other Workspace
      origin := if snapshot.isSome then selected else some load.workspaceId
      changed := false }
  else { w with session }

def send (write : Write) (rest : List Write) : World :=
  if w.session.IsCurrentWorkspaceScope write.workspaceId write.scopeGeneration then
    { w with
      saving := true
      core := { w.core with
        received := w.core.received ++ [⟨write, w.core.selected, w.openCalls⟩] } }
  else
    { w with session := { w.session with writes := rest, settled := w.session.settled + 1 } }

def step (w : World) : Action → Option World
  | .begin =>
      let session := w.session.beginWorkspaceBootstrap
      some { w with
        session
        bootstraps := ⟨session.bootstrapGeneration, .draining session.admitted⟩ :: w.bootstraps }
  | .drained bootstrap mounted =>
      match bootstrap.stage with
      | .draining writes =>
          if bootstrap ∈ w.bootstraps ∧ writes ≤ w.session.settled then
            some (w.drained bootstrap mounted)
          else none
      | _ => none
  | .answer bootstrap workspace =>
      if bootstrap ∈ w.bootstraps ∧ bootstrap.stage = .calling then
        some (w.answer bootstrap workspace)
      else none
  | .resume bootstrap mounted =>
      match bootstrap.stage with
      | .answered workspace =>
          if bootstrap ∈ w.bootstraps then some (w.resume bootstrap workspace mounted) else none
      | _ => none
  | .load workspaceId =>
      (w.session.restoreScopeFor workspaceId).map fun scopeGeneration =>
        { w with loads := ⟨workspaceId, scopeGeneration, .asked⟩ :: w.loads }
  | .answerLoad load snapshot =>
      if load ∈ w.loads ∧ load.stage = .asked then
        let answered := { load with stage := .answered w.core.selected snapshot }
        some { w with loads := answered :: w.loads.erase load }
      else none
  | .loaded load mounted =>
      match load.stage with
      | .answered selected snapshot =>
          if load ∈ w.loads then
            let w := { w with loads := w.loads.erase load }
            some (if mounted then w.loaded load selected snapshot else w)
          else none
      | .asked => none
  | .change what =>
      some { w with
        session := w.session.change what
        changed := w.changed || (what.apply w.session.state).isSome }
  | .flush => w.session.flushPendingWrites.map fun session => { w with session }
  | .send =>
      match w.session.writes with
      | write :: rest => if w.saving then none else some (w.send write rest)
      | [] => none
  | .settle =>
      match w.session.writes with
      | _ :: rest =>
          if w.saving then
            some { w with
              saving := false
              session := { w.session with writes := rest, settled := w.session.settled + 1 } }
          else none
      | [] => none

/-- What a step can do. -/
inductive Stepped (w : World) : Action → World → Prop
  | begin : Stepped w .begin { w with
      session := w.session.beginWorkspaceBootstrap
      bootstraps := ⟨w.session.beginWorkspaceBootstrap.bootstrapGeneration,
        .draining w.session.beginWorkspaceBootstrap.admitted⟩ :: w.bootstraps }
  | gaveUp {bootstrap : Bootstrap} {mounted : Bool} (there : bootstrap ∈ w.bootstraps)
      (past : mounted = false ∨
        ¬ w.session.IsCurrentWorkspaceBootstrap bootstrap.generation) :
      Stepped w (.drained bootstrap mounted) { w with
        session := w.session.failWorkspaceBootstrap bootstrap.generation
        bootstraps := w.bootstraps.erase bootstrap }
  | called {bootstrap : Bootstrap} {writes : Nat} (there : bootstrap ∈ w.bootstraps)
      (stage : bootstrap.stage = .draining writes) (drained : writes ≤ w.session.settled)
      (current : w.session.IsCurrentWorkspaceBootstrap bootstrap.generation) :
      Stepped w (.drained bootstrap true)
        { w with bootstraps := ⟨bootstrap.generation, .calling⟩ :: w.bootstraps.erase bootstrap }
  | answered {bootstrap : Bootstrap} {workspace : Option WorkspaceId}
      (there : bootstrap ∈ w.bootstraps) (calling : bootstrap.stage = .calling) :
      Stepped w (.answer bootstrap workspace) (w.answer bootstrap workspace)
  | failed {bootstrap : Bootstrap} {mounted : Bool} (there : bootstrap ∈ w.bootstraps)
      (stage : bootstrap.stage = .answered none) :
      Stepped w (.resume bootstrap mounted) { w with
        session := w.session.failWorkspaceBootstrap bootstrap.generation
        bootstraps := w.bootstraps.erase bootstrap }
  | dropped {bootstrap : Bootstrap} {mounted : Bool} (there : bootstrap ∈ w.bootstraps) :
      Stepped w (.resume bootstrap mounted) { w with bootstraps := w.bootstraps.erase bootstrap }
  | completed {bootstrap : Bootstrap} {workspaceId : WorkspaceId}
      (there : bootstrap ∈ w.bootstraps) (stage : bootstrap.stage = .answered (some workspaceId))
      (current : w.session.IsCurrentWorkspaceBootstrap bootstrap.generation) :
      Stepped w (.resume bootstrap true) { w with
        session := w.session.completeWorkspaceBootstrap bootstrap.generation workspaceId
        bootstraps := w.bootstraps.erase bootstrap }
  | loads {action : Action} (loads : List Load) : Stepped w action { w with loads }
  | loaded {load : Load} {selected : Option WorkspaceId}
      {snapshot : Option ActiveWorkspaceSessionSnapshot}
      (stage : load.stage = .answered selected snapshot) :
      Stepped w (.loaded load true)
        ({ w with loads := w.loads.erase load }.loaded load selected snapshot)
  | changed (what : Change) : Stepped w (.change what) { w with
      session := w.session.change what
      changed := w.changed || (what.apply w.session.state).isSome }
  | flushed (restored : w.session.restored = true)
      (idle : w.session.activeBootstrapGeneration = none) :
      Stepped w .flush { w with session := w.session.enqueueSave }
  | sent {write : Write} {rest : List Write} (oldest : w.session.writes = write :: rest)
      (free : w.saving = false) : Stepped w .send (w.send write rest)
  | settled {write : Write} {rest : List Write} (oldest : w.session.writes = write :: rest)
      (sending : w.saving = true) :
      Stepped w .settle { w with
        saving := false
        session := { w.session with writes := rest, settled := w.session.settled + 1 } }

theorem flush_eq_some {s session : WorkspaceSession} (flushed : s.flushPendingWrites = some session) :
    s.restored = true ∧ s.activeBootstrapGeneration = none ∧ session = s.enqueueSave := by
  unfold WorkspaceSession.flushPendingWrites at flushed
  split at flushed
  · contradiction
  · rename_i available
    simp only [Bool.or_eq_true, not_or] at available
    simp only [Option.some.injEq] at flushed
    exact ⟨by simpa using available.1.1.1, by simpa using available.1.2, flushed.symm⟩

theorem step_cases {w w' : World} {action : Action} (stepped : w.step action = some w') :
    Stepped w action w' := by
  cases action with
  | begin =>
    cases stepped
    exact .begin
  | drained bootstrap mounted =>
    simp only [step] at stepped
    split at stepped
    · rename_i writes stage
      split at stepped
      · rename_i ready
        cases stepped
        unfold drained
        split
        · rename_i past
          exact .gaveUp ready.1 (by simpa using past)
        · rename_i current
          simp only [Bool.or_eq_true, not_or, decide_eq_true_eq, not_not] at current
          cases mounted with
          | false => exact absurd rfl current.1
          | true => exact .called ready.1 stage ready.2 current.2
      · cases stepped
    · cases stepped
  | answer bootstrap workspace =>
    simp only [step] at stepped
    split at stepped
    · rename_i ready
      cases stepped
      exact .answered ready.1 ready.2
    · cases stepped
  | resume bootstrap mounted =>
    simp only [step] at stepped
    split at stepped
    · rename_i workspace stage
      split at stepped
      · rename_i there
        cases stepped
        unfold resume
        cases workspace with
        | none => exact .failed there stage
        | some workspaceId =>
          dsimp only
          split
          · exact .dropped there
          · rename_i current
            simp only [Bool.or_eq_true, not_or, decide_eq_true_eq, not_not] at current
            cases mounted with
            | false => exact absurd rfl current.1
            | true => exact .completed there stage current.2
      · cases stepped
    · cases stepped
  | load workspaceId =>
    rcases Option.map_eq_some_iff.mp stepped with ⟨scopeGeneration, -, same⟩
    subst same
    exact .loads _
  | answerLoad load snapshot =>
    simp only [step] at stepped
    split at stepped
    · cases stepped
      exact .loads _
    · cases stepped
  | loaded load mounted =>
    simp only [step] at stepped
    split at stepped
    · rename_i selected snapshot stage
      split at stepped
      · cases stepped
        cases mounted with
        | false => exact .loads _
        | true => exact .loaded stage
      · cases stepped
    · cases stepped
  | change what =>
    cases stepped
    exact .changed what
  | flush =>
    rcases Option.map_eq_some_iff.mp stepped with ⟨session, flushed, same⟩
    rcases flush_eq_some flushed with ⟨restored, idle, saved⟩
    subst same saved
    exact .flushed restored idle
  | send =>
    simp only [step] at stepped
    split at stepped
    · rename_i write rest oldest
      split at stepped
      · cases stepped
      · rename_i free
        cases stepped
        exact .sent oldest (Bool.eq_false_of_not_eq_true free)
    · cases stepped
  | settle =>
    simp only [step] at stepped
    split at stepped
    · rename_i write rest oldest
      split at stepped
      · rename_i sending
        cases stepped
        exact .settled oldest sending
      · cases stepped
    · cases stepped

end World

end Burlmd.Shell
