import Burlmd.Git.Diagnostic

/-!
# A cycle of the sync scheduler

One push, and what follows from how it ends. A cycle that fails only because the network cannot
be reached waits for a retry, if the failure is told from the others.
-/

namespace Burlmd.Sync

open Git
open Utf8 (Text)

inductive SyncStatus where
  | idle
  | syncing
  | retrying
  | conflict
  | error
  deriving DecidableEq, Repr

/-- What a cycle uses of the configuration. Durations are in one unit. -/
structure SyncConfig where
  repo_path : Text
  remote : Text
  branch : Text
  backoff_base : Nat
  backoff_cap : Nat

structure GitCredentials where
  username : Text
  token : Text

abbrev GitOpFn := Text → Text → Text → Option GitCredentials → Except AppError Unit

/-- The operations of a cycle, with what they return in it. -/
structure SyncDeps where
  credentials : Option GitCredentials
  push : GitOpFn
  pull : GitOpFn
  reindex : Except AppError Unit

/-- The hooks that a cycle calls. -/
inductive HookCall where
  | reindex
  | on_conflict (result : Except AppError Unit)
  deriving DecidableEq

structure SyncState where
  status : SyncStatus
  last_error : Option AppError
  backoff_delay : Nat
  backoff_deadline : Option Nat
  calls : List HookCall

/-- What follows a merge that ran, clean or with conflicts. -/
def merged (st : SyncState) (reindex_result pull_result : Except AppError Unit) : SyncState :=
  let last_error :=
    match reindex_result with
    | .error e => some e
    | .ok () => st.last_error
  let calls := st.calls ++ [.reindex, .on_conflict pull_result]
  match pull_result, reindex_result with
  | .ok (), .ok () => { st with last_error := none, status := .idle, calls }
  | .ok (), .error _ => { st with last_error, status := .error, calls }
  | .error _, _ => { st with last_error := some .gitConflict, status := .conflict, calls }

def run_sync_cycle (config : SyncConfig) (deps : SyncDeps) (now : Nat) (st : SyncState) :
    SyncState :=
  let st := { st with status := .syncing }
  let credentials := deps.credentials
  match deps.push config.repo_path config.remote config.branch credentials with
  | .ok () =>
      { st with
        backoff_delay := config.backoff_base
        backoff_deadline := none
        last_error := none
        status := .idle }
  | .error (.networkError msg) =>
      { st with
        last_error := some (.networkError msg)
        status := .retrying
        backoff_deadline := some (now + st.backoff_delay)
        backoff_delay := min (st.backoff_delay * 2) config.backoff_cap }
  | .error .authExpired =>
      { st with
        last_error := some .authExpired
        status := .error
        backoff_delay := config.backoff_base
        backoff_deadline := none }
  | .error .gitConflict =>
      let pull_result := deps.pull config.repo_path config.remote config.branch credentials
      let st := { st with backoff_delay := config.backoff_base, backoff_deadline := none }
      match pull_result with
      | .ok () => merged st deps.reindex (.ok ())
      | .error .gitConflict => merged st deps.reindex (.error .gitConflict)
      -- no merge ran, and the hooks are not called
      | .error err => { st with last_error := some err, status := .error }
  | .error other =>
      { st with
        last_error := some other
        status := .error
        backoff_delay := config.backoff_base
        backoff_deadline := none }

/-- The cycle ends in a retry at its deadline, and no hook was called. -/
def RetriesQuietly (now : Nat) (before after : SyncState) : Prop :=
  after.status = .retrying ∧ after.backoff_deadline = some (now + before.backoff_delay) ∧
    after.calls = before.calls

theorem merged_status_ne (st : SyncState) (reindex_result pull_result : Except AppError Unit) :
    (merged st reindex_result pull_result).status ≠ .retrying := by
  unfold merged
  cases pull_result with
  | ok _ => cases reindex_result <;> simp
  | error _ => simp

/-- Only a push that reports the network is retried. -/
theorem retriesQuietly_iff (config : SyncConfig) (deps : SyncDeps) (now : Nat) (st : SyncState) :
    RetriesQuietly now st (run_sync_cycle config deps now st) ↔
      ∃ msg, deps.push config.repo_path config.remote config.branch deps.credentials =
        .error (.networkError msg) := by
  unfold run_sync_cycle
  dsimp only
  split
  · rename_i isPush
    simp [RetriesQuietly, isPush]
  · rename_i msg isPush
    simp [RetriesQuietly, isPush]
  · rename_i isPush
    simp [RetriesQuietly, isPush]
  · rename_i isPush
    have unreported : ¬ ∃ msg, deps.push config.repo_path config.remote config.branch
        deps.credentials = .error (.networkError msg) := by
      simp [isPush]
    apply iff_of_false _ unreported
    rintro ⟨status, -, -⟩
    split at status
    · exact merged_status_ne _ _ _ status
    · exact merged_status_ne _ _ _ status
    · cases status
  · rename_i other notNetwork _ _ isPush
    rw [isPush]
    constructor
    · rintro ⟨status, -, -⟩
      cases status
    · rintro ⟨msg, same⟩
      cases same
      exact absurd rfl (notNetwork msg)

/-- A failed command whose standard error is the diagnostic. -/
def failed (d : Diagnostic) : Except Text Output := .ok ⟨false, [], d.stderr⟩

/-- The operations of a cycle in which `push` and `fetch` fail. -/
def failing (casing : Casing) (pushed fetched : Diagnostic) (credentials : Option GitCredentials)
    (reindex : Except AppError Unit) (merge_output : Except Text Output) : SyncDeps where
  credentials := credentials
  push := fun _ _ _ _ => push casing (failed pushed)
  pull := fun _ _ _ _ => pull casing (failed fetched) merge_output
  reindex := reindex

/-- The casing of ASCII text. -/
def asciiCasing : Casing where
  lower := fun c => if Utf8.IsAscii c then [c.toLower] else [c]
  final_sigma := fun _ _ => false
  ascii := fun _ ascii => if_pos ascii

/-- A push or fetch from a remote on a host that cannot be resolved. -/
def unresolved (url host : Text) : Diagnostic where
  kind := .network
  first := "fatal: unable to access '".toList
  rest := [(url, "': Could not resolve host: ".toList), (host, "\n".toList)]

def defaultConfig : SyncConfig := ⟨"/notes".toList, "origin".toList, "main".toList, 1, 60⟩

def initialState : SyncState := ⟨.idle, none, 1, none, []⟩

theorem unresolved_written (url host : Text) : (unresolved url host).Written cLocale :=
  .unresolved

end Burlmd.Sync
