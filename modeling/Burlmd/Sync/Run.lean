import Burlmd.Sync.Scheduler

/-!
# The loop of the sync scheduler

The thread waits for a command or for the earliest of three deadlines, and a deadline that is due
starts one cycle. The cycles that it ran are kept beside the thread, latest first.
-/

namespace Burlmd.Sync

open Git

/-- The configuration with the times that only the loop uses. -/
structure RunConfig extends SyncConfig where
  debounce : Nat
  poll_interval : Nat

/-- The latest instant and the longest duration; arithmetic that goes past them panics. -/
structure Limits where
  instant : Nat
  duration : Nat

/-- What the thread keeps from one head of its loop to the next. -/
structure Loop where
  next_poll : Nat
  debounce_deadline : Option Nat
  sync : SyncState

/-- What ends a wait. A timeout comes with the reading of the clock behind it, and with what the
operations of a cycle return and the clock reads when its push has failed. -/
inductive Wake where
  | activity (now : Nat)
  | stop
  | disconnected
  | timeout (now : Nat) (deps : SyncDeps) (failed : Nat)

/-- A cycle: when it started, when its push had failed if it did, and what its operations
returned. -/
structure Cycle where
  start : Nat
  failed : Nat
  deps : SyncDeps

/-- The thread, unless it has ended, and the cycles that it ran, latest first. -/
structure Scheduler where
  thread : Option Loop
  cycles : List Cycle

variable (limits : Limits) (config : RunConfig)

def Limits.after? (now duration : Nat) : Option Nat :=
  if now + duration ≤ limits.instant then some (now + duration) else none

/-- How long the loop waits when the clock reads `now`. -/
def Loop.wait (loop : Loop) (now : Nat) : Nat :=
  let wait := loop.next_poll - now
  let wait := loop.debounce_deadline.elim wait fun deadline => min wait (deadline - now)
  loop.sync.backoff_deadline.elim wait fun deadline => min wait (deadline - now)

/-- A deadline is there and has come. -/
def reached (deadline : Option Nat) (now : Nat) : Bool := deadline.any fun due => due ≤ now

/-- The loop with the deadline taken that starts a cycle, if one is due; `none` for a panic. -/
def Loop.due (loop : Loop) (now : Nat) : Option (Option Loop) :=
  if reached loop.sync.backoff_deadline now then
    some (some { loop with sync := { loop.sync with backoff_deadline := none } })
  else if reached loop.debounce_deadline now then
    some (some { loop with debounce_deadline := none })
  else if loop.next_poll ≤ now then
    (limits.after? now config.poll_interval).map fun next_poll => some { loop with next_poll }
  else some none

/-- A push that failed on the network. -/
def networkFailed (deps : SyncDeps) : Bool :=
  match deps.push config.repo_path config.remote config.branch deps.credentials with
  | .error (.networkError _) => true
  | _ => false

/-- The times of a retry can be told. -/
def backoffFits (failed : Nat) (st : SyncState) : Bool :=
  failed + st.backoff_delay ≤ limits.instant && st.backoff_delay * 2 ≤ limits.duration

def startCycle (start : Nat) (deps : SyncDeps) (failed : Nat) (loop : Loop)
    (cycles : List Cycle) : Scheduler :=
  if networkFailed config deps && !backoffFits limits failed loop.sync then ⟨none, cycles⟩
  else
    ⟨some { loop with sync := run_sync_cycle config.toSyncConfig deps failed loop.sync },
      ⟨start, failed, deps⟩ :: cycles⟩

/-- One turn of the loop. Nothing reaches a thread that has ended. -/
def turn (s : Scheduler) (wake : Wake) : Scheduler :=
  match s.thread with
  | none => s
  | some loop =>
      match wake with
      | .activity now =>
          match limits.after? now config.debounce with
          | none => ⟨none, s.cycles⟩
          | some deadline => ⟨some { loop with debounce_deadline := some deadline }, s.cycles⟩
      | .stop => ⟨none, s.cycles⟩
      | .disconnected => ⟨none, s.cycles⟩
      | .timeout now deps failed =>
          match loop.due limits config now with
          | none => ⟨none, s.cycles⟩
          | some none => s
          | some (some loop) => startCycle limits config now deps failed loop s.cycles

/-- The loop when the thread starts. -/
def Loop.first (next_poll : Nat) : Loop where
  next_poll := next_poll
  debounce_deadline := none
  sync := ⟨.idle, none, config.backoff_base, none, []⟩

def started (now : Nat) : Scheduler :=
  match limits.after? now config.poll_interval with
  | none => ⟨none, []⟩
  | some next_poll => ⟨some (.first config next_poll), []⟩

def run (now : Nat) (wakes : List Wake) : Scheduler :=
  wakes.foldl (turn limits config) (started limits config now)

/-! ## What is said of a run -/

/-- The network failures since the last cycle that ended otherwise. -/
def failures : List Cycle → Nat
  | [] => 0
  | cycle :: rest => if networkFailed config cycle.deps then failures rest + 1 else 0

/-- What the pull of a cycle returned, where the cycle came to it. -/
def pulled (deps : SyncDeps) : Option (Except AppError Unit) :=
  match deps.push config.repo_path config.remote config.branch deps.credentials with
  | .error .gitConflict =>
      some (deps.pull config.repo_path config.remote config.branch deps.credentials)
  | _ => none

/-- The hooks of a cycle: both where its pull merged, with conflicts or without, else none. -/
def hooks (deps : SyncDeps) : List HookCall :=
  match pulled config deps with
  | some (.ok ()) => [.reindex, .on_conflict (.ok ())]
  | some (.error .gitConflict) => [.reindex, .on_conflict (.error .gitConflict)]
  | _ => []

/-- The push went through, or the pull merged without conflicts and was indexed. -/
def Succeeded (deps : SyncDeps) : Prop :=
  deps.push config.repo_path config.remote config.branch deps.credentials = .ok () ∨
    pulled config deps = some (.ok ()) ∧ deps.reindex = .ok ()

/-- What holds at a head of the loop, by the cycles so far. -/
structure Governed (s : Scheduler) : Prop where
  retrying : ∀ loop, s.thread = some loop →
    (loop.sync.status = .retrying ↔ ∃ deadline, loop.sync.backoff_deadline = some deadline)
  /-- The delay that the next network failure waits for. -/
  delay : ∀ loop, s.thread = some loop → config.backoff_base ≤ config.backoff_cap →
    loop.sync.backoff_delay = min (config.backoff_base * 2 ^ failures config s.cycles)
      config.backoff_cap
  /-- The delay that is pending, from the last failure on. -/
  pending : ∀ loop, s.thread = some loop → config.backoff_base ≤ config.backoff_cap →
    ∀ k, failures config s.cycles = k + 1 → ∃ cycle rest, s.cycles = cycle :: rest ∧
      loop.sync.backoff_deadline =
        some (cycle.failed + min (config.backoff_base * 2 ^ k) config.backoff_cap)
  reset : ∀ loop, s.thread = some loop → failures config s.cycles = 0 →
    loop.sync.backoff_deadline = none
  /-- The calls of the hooks are those of the cycles. -/
  called : ∀ loop, s.thread = some loop →
    loop.sync.calls = s.cycles.reverse.flatMap fun cycle => hooks config cycle.deps
  idle : ∀ loop, s.thread = some loop → loop.sync.status = .idle →
    ∀ cycle rest, s.cycles = cycle :: rest → Succeeded config cycle.deps

/-- A wake whose times can be told, and that is not the end of the thread. -/
def Fits (loop : Loop) : Wake → Prop
  | .activity now => now + config.debounce ≤ limits.instant
  | .stop | .disconnected => False
  | .timeout start deps failed => start + config.poll_interval ≤ limits.instant ∧
      (networkFailed config deps = true → backoffFits limits failed loop.sync = true)

/-- What holds of a run: at the heads of the loop, and between the commands that were received
and the cycles that were run. -/
structure Disciplined (now : Nat) (wakes : List Wake) : Prop where
  governed : Governed config (run limits config now wakes)
  /-- An activity is waited for from when it is received to a cycle that starts late enough. -/
  debounced : ∀ before received after, wakes = before ++ .activity received :: after →
    (∀ again, .activity again ∉ after) → ∀ loop, (run limits config now wakes).thread = some loop →
      ∃ since, (run limits config now wakes).cycles =
          since ++ (run limits config now before).cycles ∧
        ((∀ cycle ∈ since, cycle.start < received + config.debounce) →
          loop.debounce_deadline = some (received + config.debounce))
  /-- A wait that has run out starts a cycle, unless its times cannot be told. -/
  served : ∀ before start deps failed, wakes = before ++ [.timeout start deps failed] →
    ∀ loop, (run limits config now before).thread = some loop →
    ∀ head, head + loop.wait head ≤ start → Fits limits config loop (.timeout start deps failed) →
      (run limits config now wakes).cycles =
        ⟨start, failed, deps⟩ :: (run limits config now before).cycles
  /-- A cycle is started by a timeout, with what its operations return. -/
  woken : ∀ cycle ∈ (run limits config now wakes).cycles,
    .timeout cycle.start cycle.deps cycle.failed ∈ wakes
  /-- The thread runs until it is stopped, or until times cannot be told. -/
  begun : now + config.poll_interval ≤ limits.instant → (run limits config now []).thread.isSome
  alive : ∀ before wake, wakes = before ++ [wake] →
    ∀ loop, (run limits config now before).thread = some loop → Fits limits config loop wake →
      (run limits config now wakes).thread.isSome
  /-- A stop ends the thread, and no cycle is run behind it. -/
  stopped : ∀ before after, wakes = before ++ .stop :: after →
    run limits config now wakes = ⟨none, (run limits config now before).cycles⟩

/-! ## A cycle -/

section Cycles

variable {config} {deps : SyncDeps} {st : SyncState}

/-- A cycle that fails on the network waits for its retry. -/
theorem run_sync_cycle_network (failed : Nat) (network : networkFailed config deps = true) :
    let after := run_sync_cycle config.toSyncConfig deps failed st
    after.status = .retrying ∧
      after.backoff_deadline = some (failed + st.backoff_delay) ∧
      after.backoff_delay = min (st.backoff_delay * 2) config.backoff_cap := by
  unfold networkFailed at network
  unfold run_sync_cycle
  split at network
  · rename_i msg isPush
    simp [isPush]
  · cases network

theorem merged_backoff (reindex_result pull_result : Except AppError Unit) :
    (merged st reindex_result pull_result).backoff_deadline = st.backoff_deadline ∧
      (merged st reindex_result pull_result).backoff_delay = st.backoff_delay ∧
      (merged st reindex_result pull_result).calls =
        st.calls ++ [.reindex, .on_conflict pull_result] := by
  unfold merged
  cases pull_result with
  | ok _ =>
    cases reindex_result with
    | ok _ => exact ⟨rfl, rfl, rfl⟩
    | error _ => exact ⟨rfl, rfl, rfl⟩
  | error _ => exact ⟨rfl, rfl, rfl⟩

/-- Any other cycle waits for nothing, and starts the delays anew. -/
theorem run_sync_cycle_other (failed : Nat) (other : networkFailed config deps = false) :
    let after := run_sync_cycle config.toSyncConfig deps failed st
    after.status ≠ .retrying ∧ after.backoff_deadline = none ∧
      after.backoff_delay = config.backoff_base := by
  unfold networkFailed at other
  unfold run_sync_cycle
  dsimp only
  split
  · simp
  · rename_i msg isPush
    simp [isPush] at other
  · simp
  · split
    · rcases @merged_backoff { st with
        status := .syncing, backoff_delay := config.backoff_base, backoff_deadline := none }
        deps.reindex (.ok ()) with ⟨deadline, delay, -⟩
      exact ⟨merged_status_ne _ _ _, deadline, delay⟩
    · rcases @merged_backoff { st with
        status := .syncing, backoff_delay := config.backoff_base, backoff_deadline := none }
        deps.reindex (.error .gitConflict) with ⟨deadline, delay, -⟩
      exact ⟨merged_status_ne _ _ _, deadline, delay⟩
    · simp
  · simp

theorem pulled_of_conflict
    (isPush : deps.push config.repo_path config.remote config.branch deps.credentials =
      .error .gitConflict) :
    pulled config deps =
      some (deps.pull config.repo_path config.remote config.branch deps.credentials) := by
  unfold pulled
  rw [isPush]

/-- A push that is not rejected is followed by no pull, and no hook. -/
theorem hooks_of_no_conflict (notConflict :
    deps.push config.repo_path config.remote config.branch deps.credentials ≠
      .error .gitConflict) : hooks config deps = [] := by
  have none_ : pulled config deps = none := by
    unfold pulled
    split
    · rename_i isPush
      exact absurd isPush notConflict
    · rfl
  unfold hooks
  rw [none_]

/-- The hooks are called where the pull merged, and nowhere else. -/
theorem run_sync_cycle_calls (failed : Nat) :
    (run_sync_cycle config.toSyncConfig deps failed st).calls = st.calls ++ hooks config deps := by
  unfold run_sync_cycle
  dsimp only
  split
  · rename_i isPush
    rw [hooks_of_no_conflict (by simp [isPush]), List.append_nil]
  · rename_i msg isPush
    rw [hooks_of_no_conflict (by simp [isPush]), List.append_nil]
  · rename_i isPush
    rw [hooks_of_no_conflict (by simp [isPush]), List.append_nil]
  · rename_i isPush
    unfold hooks
    rw [pulled_of_conflict isPush]
    split
    · rename_i isPull
      rw [isPull]
      exact (merged_backoff _ _).2.2
    · rename_i isPull
      rw [isPull]
      exact (merged_backoff _ _).2.2
    · rename_i err notConflict isPull
      rw [isPull]
      split
      · rename_i wrong
        cases wrong
      · rename_i wrong
        cases wrong
        exact absurd rfl notConflict
      · exact (List.append_nil _).symm
  · rename_i other _ _ notConflict isPush
    rw [hooks_of_no_conflict, List.append_nil]
    intro same
    rw [isPush] at same
    exact notConflict (Except.error.inj same)

/-- Nothing else than success ends in `idle`. -/
theorem run_sync_cycle_idle (failed : Nat)
    (idle : (run_sync_cycle config.toSyncConfig deps failed st).status = .idle) :
    Succeeded config deps := by
  unfold run_sync_cycle at idle
  unfold Succeeded pulled
  dsimp only at idle
  split at idle
  · rename_i isPush
    exact .inl isPush
  · cases idle
  · cases idle
  · rename_i isPush
    split at idle
    · rename_i isPull
      unfold merged at idle
      cases indexed : deps.reindex with
      | ok _ => simp [isPush, isPull]
      | error _ =>
        rw [indexed] at idle
        cases idle
    · cases idle
    · cases idle
  · cases idle

end Cycles

/-! ## A turn -/

section Turns

variable {limits} {config} {s : Scheduler} {loop next : Loop} {now : Nat}

theorem after?_eq_some {duration later : Nat} (fits : limits.after? now duration = some later) :
    later = now + duration := by
  unfold Limits.after? at fits
  split at fits
  · exact (Option.some.inj fits).symm
  · cases fits

theorem reached_iff {deadline : Option Nat} :
    reached deadline now = true ↔ ∃ due, deadline = some due ∧ due ≤ now := by
  unfold reached
  cases deadline with
  | none => simp
  | some due => simp

/-- A deadline that starts a cycle leaves the delay, the hooks, and every debounce to come. -/
theorem Loop.due_eq_some (due : loop.due limits config now = some (some next)) :
    next.sync.backoff_delay = loop.sync.backoff_delay ∧ next.sync.calls = loop.sync.calls ∧
      (next.debounce_deadline = loop.debounce_deadline ∨
        ∃ deadline, loop.debounce_deadline = some deadline ∧ deadline ≤ now) := by
  unfold Loop.due at due
  split at due
  · cases due
    exact ⟨rfl, rfl, .inl rfl⟩
  · split at due
    · rename_i come
      cases due
      exact ⟨rfl, rfl, .inr (reached_iff.mp come)⟩
    · split at due
      · rcases Option.map_eq_some_iff.mp due with ⟨next_poll, -, isNext⟩
        cases isNext
        exact ⟨rfl, rfl, .inl rfl⟩
      · cases due

/-- All that a turn can do to the thread, and to the cycles that were run. -/
inductive Turned (config : RunConfig) (s : Scheduler) : Wake → Scheduler → Prop
  | ended (wake : Wake) : Turned config s wake ⟨none, s.cycles⟩
  | slept (loop : Loop) (start : Nat) (deps : SyncDeps) (failed : Nat)
      (running : s.thread = some loop) : Turned config s (.timeout start deps failed) s
  | activity (loop : Loop) (received : Nat) (running : s.thread = some loop) :
      Turned config s (.activity received)
        ⟨some { loop with debounce_deadline := some (received + config.debounce) }, s.cycles⟩
  | cycle (loop next : Loop) (start failed : Nat) (deps : SyncDeps)
      (running : s.thread = some loop)
      (delay : next.sync.backoff_delay = loop.sync.backoff_delay)
      (calls : next.sync.calls = loop.sync.calls)
      (debounce : next.debounce_deadline = loop.debounce_deadline ∨
        ∃ deadline, loop.debounce_deadline = some deadline ∧ deadline ≤ start) :
      Turned config s (.timeout start deps failed)
        ⟨some { next with sync := run_sync_cycle config.toSyncConfig deps failed next.sync },
          ⟨start, failed, deps⟩ :: s.cycles⟩

theorem turn_ended (ended : s.thread = none) (wake : Wake) : turn limits config s wake = s := by
  unfold turn
  rw [ended]

theorem turn_turned (s : Scheduler) (wake : Wake) :
    Turned config s wake (turn limits config s wake) := by
  cases running : s.thread with
  | none =>
    rw [turn_ended running]
    have same : s = ⟨none, s.cycles⟩ := by
      rw [← running]
    rw [same]
    exact .ended wake
  | some loop =>
    unfold turn
    rw [running]
    cases wake with
    | stop => exact .ended _
    | disconnected => exact .ended _
    | activity received =>
      dsimp only
      split
      · exact .ended _
      · rename_i deadline fits
        rw [after?_eq_some fits]
        exact .activity loop received running
    | timeout start deps failed =>
      dsimp only
      split
      · exact .ended _
      · exact .slept loop start deps failed running
      · rename_i next due
        rcases Loop.due_eq_some due with ⟨delay, calls, debounce⟩
        unfold startCycle
        split
        · exact .ended _
        · exact .cycle loop next start failed deps running delay calls debounce

/-- A wait that runs out makes a cycle due, so that no deadline is slept through. -/
theorem Loop.due_of_waited {later : Nat} (waited : now + loop.wait now ≤ later) :
    loop.due limits config later ≠ some none := by
  have come : reached loop.sync.backoff_deadline later = true ∨
      reached loop.debounce_deadline later = true ∨ loop.next_poll ≤ later := by
    simp only [reached_iff]
    unfold Loop.wait at waited
    cases backoff : loop.sync.backoff_deadline with
    | none =>
      cases debounce : loop.debounce_deadline with
      | none =>
        simp [backoff, debounce] at waited ⊢
        omega
      | some deadline =>
        simp [backoff, debounce] at waited ⊢
        omega
    | some retry =>
      cases debounce : loop.debounce_deadline with
      | none =>
        simp [backoff, debounce] at waited ⊢
        omega
      | some deadline =>
        simp [backoff, debounce] at waited ⊢
        omega
  unfold Loop.due
  split
  · simp
  · split
    · simp
    · rename_i noBackoff noDebounce
      rcases come with backoff | debounce | poll
      · exact absurd backoff noBackoff
      · exact absurd debounce noDebounce
      · rw [if_pos poll]
        cases limits.after? later config.poll_interval with
        | none => simp
        | some _ => simp

/-- A wait that has run out starts a cycle where its times can be told. -/
theorem due_ne_none {start : Nat} (polls : start + config.poll_interval ≤ limits.instant) :
    loop.due limits config start ≠ none := by
  unfold Loop.due Limits.after?
  rw [if_pos polls]
  simp only [Option.map_some]
  split
  · simp
  · split
    · simp
    · split
      · simp
      · simp

/-- A cycle whose times can be told is run, and the thread goes on. -/
theorem startCycle_of_fits {start failed : Nat} {deps : SyncDeps} {next : Loop}
    (fits : networkFailed config deps = true → backoffFits limits failed next.sync = true)
    (cycles : List Cycle) :
    startCycle limits config start deps failed next cycles =
      ⟨some { next with sync := run_sync_cycle config.toSyncConfig deps failed next.sync },
        ⟨start, failed, deps⟩ :: cycles⟩ := by
  unfold startCycle
  rw [if_neg]
  intro panics
  rw [Bool.and_eq_true, Bool.not_eq_true'] at panics
  rw [fits panics.1] at panics
  exact absurd panics.2 (by decide)

theorem fits_due {start failed : Nat} {deps : SyncDeps} {next : Loop}
    (due : loop.due limits config start = some (some next))
    (fits : networkFailed config deps = true → backoffFits limits failed loop.sync = true) :
    networkFailed config deps = true → backoffFits limits failed next.sync = true := by
  intro network
  have told := fits network
  unfold backoffFits at told ⊢
  rw [(Loop.due_eq_some due).1]
  exact told

theorem turn_waited {start failed : Nat} {deps : SyncDeps} (running : s.thread = some loop)
    (waited : now + loop.wait now ≤ start)
    (fits : Fits limits config loop (.timeout start deps failed)) :
    (turn limits config s (.timeout start deps failed)).cycles =
      ⟨start, failed, deps⟩ :: s.cycles := by
  have awake : loop.due limits config start ≠ some none := Loop.due_of_waited waited
  have told : loop.due limits config start ≠ none := due_ne_none fits.1
  unfold turn
  rw [running]
  dsimp only
  split
  · rename_i panics
    exact absurd panics told
  · rename_i sleeps
    exact absurd sleeps awake
  · rename_i next due
    rw [startCycle_of_fits (fits_due due fits.2)]

/-- A wake whose times can be told leaves the thread running. -/
theorem turn_alive (running : s.thread = some loop) {wake : Wake}
    (fits : Fits limits config loop wake) : (turn limits config s wake).thread.isSome := by
  unfold turn
  rw [running]
  cases wake with
  | activity received =>
    have told : limits.after? received config.debounce = some _ := if_pos fits
    dsimp only
    rw [told]
    rfl
  | stop => exact fits.elim
  | disconnected => exact fits.elim
  | timeout start deps failed =>
    have told : loop.due limits config start ≠ none := due_ne_none fits.1
    dsimp only
    split
    · rename_i panics
      exact absurd panics told
    · exact Option.isSome_of_eq_some running
    · rename_i next due
      rw [startCycle_of_fits (fits_due due fits.2)]
      rfl

end Turns

/-! ## The heads of the loop -/

namespace Governed

variable {config} {s : Scheduler} {loop next : Loop}

theorem ended (cycles : List Cycle) : Governed config ⟨none, cycles⟩ where
  retrying _ running := by cases running
  delay _ running := by cases running
  pending _ running := by cases running
  reset _ running := by cases running
  called _ running := by cases running
  idle _ running := by cases running

/-- A head speaks of no debounce. -/
theorem activity (governed : Governed config s) (deadline : Option Nat)
    (running : s.thread = some loop) :
    Governed config ⟨some { loop with debounce_deadline := deadline }, s.cycles⟩ where
  retrying _ same := by
    cases same
    exact governed.retrying loop running
  delay _ same := by
    cases same
    exact governed.delay loop running
  pending _ same := by
    cases same
    exact governed.pending loop running
  reset _ same := by
    cases same
    exact governed.reset loop running
  called _ same := by
    cases same
    exact governed.called loop running
  idle _ same := by
    cases same
    exact governed.idle loop running

/-- The delay doubles with every failure, up to the cap. -/
theorem doubled {base cap k : Nat} :
    min (min (base * 2 ^ k) cap * 2) cap = min (base * 2 ^ (k + 1)) cap := by
  rw [Nat.pow_succ, ← Nat.mul_assoc]
  omega

theorem cycle (governed : Governed config s) (start failed : Nat) (deps : SyncDeps)
    (running : s.thread = some loop)
    (delay : next.sync.backoff_delay = loop.sync.backoff_delay)
    (calls : next.sync.calls = loop.sync.calls) :
    Governed config
      ⟨some { next with sync := run_sync_cycle config.toSyncConfig deps failed next.sync },
        ⟨start, failed, deps⟩ :: s.cycles⟩ where
  retrying _ same := by
    cases same
    cases outcome : networkFailed config deps with
    | true =>
      rcases @run_sync_cycle_network config deps next.sync failed outcome with ⟨status, deadline, -⟩
      exact ⟨fun _ => ⟨_, deadline⟩, fun _ => status⟩
    | false =>
      rcases @run_sync_cycle_other config deps next.sync failed outcome with ⟨status, deadline, -⟩
      constructor
      · intro retrying
        exact absurd retrying status
      · intro pending
        rcases pending with ⟨_, pending⟩
        rw [deadline] at pending
        cases pending
  delay _ same fits := by
    cases same
    cases outcome : networkFailed config deps with
    | true =>
      rcases @run_sync_cycle_network config deps next.sync failed outcome with ⟨-, -, isDelay⟩
      have before := governed.delay loop running fits
      simp only [failures, outcome, if_true]
      rw [isDelay, delay, before]
      exact doubled
    | false =>
      rcases @run_sync_cycle_other config deps next.sync failed outcome with ⟨-, -, isDelay⟩
      simp only [failures, outcome, Bool.false_eq_true, if_false]
      rw [isDelay]
      omega
  pending _ same fits k isCount := by
    cases same
    refine ⟨_, _, rfl, ?_⟩
    cases outcome : networkFailed config deps with
    | true =>
      rcases @run_sync_cycle_network config deps next.sync failed outcome with ⟨-, isDeadline, -⟩
      simp only [failures, outcome, if_true] at isCount
      have before := governed.delay loop running fits
      rw [Nat.succ.inj isCount] at before
      dsimp only
      rw [isDeadline, delay, before]
    | false =>
      simp [failures, outcome] at isCount
  reset _ same none_ := by
    cases same
    cases outcome : networkFailed config deps with
    | true => simp [failures, outcome] at none_
    | false => exact (@run_sync_cycle_other config deps next.sync failed outcome).2.1
  called _ same := by
    cases same
    dsimp only
    rw [run_sync_cycle_calls, calls, governed.called loop running, List.reverse_cons,
      List.flatMap_append, List.flatMap_singleton]
  idle _ same isIdle cycle rest isLast := by
    cases same
    cases isLast
    exact run_sync_cycle_idle failed isIdle

theorem started (limits : Limits) (now : Nat) : Governed config (started limits config now) := by
  unfold Sync.started
  split
  · exact ended []
  · constructor
    all_goals simp [Loop.first, failures]

/-- Every turn keeps what holds at the heads. -/
theorem turn (limits : Limits) (governed : Governed config s) (wake : Wake) :
    Governed config (turn limits config s wake) := by
  have turned : Turned config s wake (Sync.turn limits config s wake) := turn_turned s wake
  generalize Sync.turn limits config s wake = after at turned
  cases turned with
  | ended => exact .ended s.cycles
  | slept => exact governed
  | activity loop received running => exact governed.activity _ running
  | cycle loop next start failed deps running delay calls debounce =>
    exact governed.cycle start failed deps running delay calls

end Governed

/-! ## A run -/

section Runs

variable {limits} {config} {now : Nat}

theorem run_append (before after : List Wake) :
    run limits config now (before ++ after) =
      after.foldl (turn limits config) (run limits config now before) :=
  List.foldl_append

theorem run_concat (before : List Wake) (wake : Wake) :
    run limits config now (before ++ [wake]) =
      turn limits config (run limits config now before) wake :=
  List.foldl_concat _ _ _ _

theorem run_governed (wakes : List Wake) : Governed config (run limits config now wakes) := by
  induction wakes using List.reverseRecOn with
  | nil => exact .started limits now
  | append_singleton wakes wake ih =>
    rw [run_concat]
    exact ih.turn limits wake

/-- Nothing reaches a thread that has ended. -/
theorem foldl_ended {s : Scheduler} (ended : s.thread = none) (wakes : List Wake) :
    wakes.foldl (turn limits config) s = s := by
  induction wakes with
  | nil => rfl
  | cons wake rest ih =>
    rw [List.foldl_cons, turn_ended ended]
    exact ih

theorem run_woken (wakes : List Wake) : ∀ cycle ∈ (run limits config now wakes).cycles,
    .timeout cycle.start cycle.deps cycle.failed ∈ wakes := by
  induction wakes using List.reverseRecOn with
  | nil =>
    intro cycle inside
    unfold run started at inside
    split at inside
    · cases inside
    · cases inside
  | append_singleton wakes wake ih =>
    rw [run_concat]
    have turned : Turned config _ wake (turn limits config (run limits config now wakes) wake) :=
      turn_turned _ wake
    generalize turn limits config (run limits config now wakes) wake = after at turned
    intro cycle inside
    cases turned with
    | ended => exact List.mem_append_left _ (ih cycle inside)
    | slept => exact List.mem_append_left _ (ih cycle inside)
    | activity => exact List.mem_append_left _ (ih cycle inside)
    | cycle loop next start failed deps =>
      rcases List.mem_cons.mp inside with isNew | old
      · rw [isNew]
        simp
      · exact List.mem_append_left _ (ih cycle old)

/-- The deadline of an activity is pending until a cycle starts that does not come before it. -/
def Awaits (deadline : Nat) (earlier : List Cycle) (s : Scheduler) : Prop :=
  ∀ loop, s.thread = some loop → ∃ since, s.cycles = since ++ earlier ∧
    ((∀ cycle ∈ since, cycle.start < deadline) → loop.debounce_deadline = some deadline)

theorem Awaits.turn {deadline : Nat} {earlier : List Cycle} {s : Scheduler}
    (awaits : Awaits deadline earlier s) {wake : Wake}
    (silent : ∀ again, wake ≠ .activity again) :
    Awaits deadline earlier (turn limits config s wake) := by
  have turned : Turned config s wake (Sync.turn limits config s wake) := turn_turned s wake
  generalize Sync.turn limits config s wake = after at turned
  cases turned with
  | ended =>
    intro _ running
    cases running
  | slept => exact awaits
  | activity loop received running => exact absurd rfl (silent received)
  | cycle loop next start failed deps running delay calls debounce =>
    intro _ same
    cases same
    rcases awaits loop running with ⟨since, isSince, pending⟩
    refine ⟨⟨start, failed, deps⟩ :: since, by rw [isSince, List.cons_append], ?_⟩
    intro early
    have waits := pending fun cycle inside => early cycle (List.mem_cons_of_mem _ inside)
    -- the cycle that takes the deadline would start late enough
    rcases debounce with kept | ⟨taken, isTaken, come⟩
    · exact kept.trans waits
    · rw [waits] at isTaken
      have isDeadline := Option.some.inj isTaken
      have before := early _ List.mem_cons_self
      dsimp only at before
      omega

theorem Awaits.foldl {deadline : Nat} {earlier : List Cycle} {s : Scheduler}
    (awaits : Awaits deadline earlier s) {wakes : List Wake}
    (silent : ∀ again, .activity again ∉ wakes) :
    Awaits deadline earlier (wakes.foldl (Sync.turn limits config) s) := by
  induction wakes generalizing s with
  | nil => exact awaits
  | cons wake rest ih =>
    apply ih
    · apply awaits.turn
      intro again same
      exact silent again (same ▸ List.mem_cons_self)
    · intro again inside
      exact silent again (List.mem_cons_of_mem _ inside)

/-- An activity sets the deadline, whatever was pending. -/
theorem awaits_of_activity (s : Scheduler) (received : Nat) :
    Awaits (received + config.debounce) s.cycles (turn limits config s (.activity received)) := by
  intro loop running
  unfold turn at running ⊢
  cases before : s.thread with
  | none =>
    rw [before] at running
    dsimp only at running
    rw [before] at running
    cases running
  | some loop =>
    rw [before] at running
    dsimp only at running ⊢
    split at running
    · cases running
    · rename_i deadline fits
      cases running
      exact ⟨[], rfl, fun _ => congrArg some (after?_eq_some fits)⟩

theorem turn_stop (s : Scheduler) : turn limits config s .stop = ⟨none, s.cycles⟩ := by
  unfold turn
  cases before : s.thread with
  | none =>
    dsimp only
    rw [← before]
  | some loop => rfl

end Runs

/-- Whatever wakes the thread, and however pushes and pulls end, the schedule is kept: a retry is
pending exactly while the status tells so, its delay doubles up to the cap, an activity is waited
for until a late enough cycle, a wait that runs out starts one, and the thread goes on until it is
stopped, behind which nothing starts. -/
theorem run_disciplined (limits : Limits) (config : RunConfig) (now : Nat) (wakes : List Wake) :
    Disciplined limits config now wakes where
  governed := run_governed wakes
  debounced before received after whole silent loop running := by
    rw [whole, run_append, List.foldl_cons] at running ⊢
    exact (awaits_of_activity _ received).foldl silent loop running
  served before start deps failed whole loop running head waited fits := by
    rw [whole, run_concat]
    exact turn_waited running waited fits
  woken := run_woken wakes
  begun polls := by
    have told : limits.after? now config.poll_interval = some _ := if_pos polls
    show (started limits config now).thread.isSome
    unfold started
    rw [told]
    rfl
  alive before wake whole loop running fits := by
    rw [whole, run_concat]
    exact turn_alive running fits
  stopped before after whole := by
    rw [whole, run_append, List.foldl_cons, turn_stop]
    exact foldl_ended rfl after

/-! ## A run with two retries -/

/-- The operations of a cycle whose push, and pull if it comes to it, end so. -/
def ending (push pull : Except AppError Unit) : SyncDeps where
  credentials := none
  push := fun _ _ _ _ => push
  pull := fun _ _ _ _ => pull
  reindex := .ok ()

/-- A debounce of 2 and a poll every 300. -/
def quickConfig : RunConfig := ⟨⟨"/notes".toList, "origin".toList, "main".toList, 1, 60⟩, 2, 300⟩

/-- Two activities, two pushes that fail on the network, and one that is rejected and merged. -/
def retriedTwice : List Wake :=
  [.activity 0, .activity 1,
    .timeout 3 (ending (.error (.networkError [])) (.ok ())) 3,
    .timeout 4 (ending (.error (.networkError [])) (.ok ())) 4,
    .timeout 6 (ending (.error .gitConflict) (.ok ())) 6,
    .activity 7, .stop, .timeout 9 (ending (.ok ()) (.ok ())) 9]

theorem retriedTwice_disciplined :
    Disciplined ⟨1000, 1000⟩ quickConfig 0 retriedTwice ∧
      ((run ⟨1000, 1000⟩ quickConfig 0 retriedTwice).cycles.map Cycle.start = [6, 4, 3]) ∧
      ((run ⟨1000, 1000⟩ quickConfig 0 (retriedTwice.take 4)).thread.map
          fun loop => (loop.sync.status, loop.sync.backoff_deadline)) = some (.retrying, some 6) ∧
      ((run ⟨1000, 1000⟩ quickConfig 0 (retriedTwice.take 6)).thread.map
          fun loop => (loop.sync.status, loop.sync.calls, loop.debounce_deadline)) =
        some (.idle, [.reindex, .on_conflict (.ok ())], some 9) :=
  ⟨run_disciplined _ _ _ _, rfl, rfl, rfl⟩

end Burlmd.Sync
