import Burlmd.Preferences.Controller
import Burlmd.Preferences.Payload

/-!
# Preferences survive

Writes settle in order, and each takes the value when its turn comes. So a count of the setters
that the settled writes cover says what is in the file, and a flush that has drained the queue
knows that its setters are among them.
-/

namespace Burlmd.Preferences

namespace Controller

variable {codec : JsonCodec} {c : Controller}

/-- The value that the setters start from. -/
def base (c : Controller) : BurlPreferences :=
  match c.restoration with
  | .restored preferences => preferences
  | .loading _ | .failed _ => .defaults

/-- The value after the first `n` setters. -/
def valueAt (c : Controller) (n : Nat) : BurlPreferences :=
  (c.settings.take n).foldl Setting.apply c.base

/-- The file reads as a value. -/
def Holds (codec : JsonCodec) (c : Controller) (preferences : BurlPreferences) : Prop :=
  ∃ bytes, c.store.disk.preferences = some bytes ∧ codec.read bytes = some preferences

/-- The writes that have settled cover the first `covered` setters. -/
structure Covered (codec : JsonCodec) (c : Controller) (covered : Nat) : Prop where
  le : covered ≤ c.settings.length
  caught : c.settled = c.queued → covered = c.settings.length
  first : c.settled = 0 → covered = 0
  outcome : 0 < c.settled → c.failure = none → c.hasFailedWrite = false
  saving : ∀ preferences save, c.writer = .saving preferences save →
    ∃ n, covered ≤ n ∧ n ≤ c.settings.length ∧ preferences = c.valueAt n ∧
      (c.settled + 1 = c.queued → n = c.settings.length) ∧
      (save = .returned (.ok ()) → c.Holds codec preferences)
  stored : 0 < c.settled → c.hasFailedWrite = false → c.Holds codec (c.valueAt covered) ∨
    ∃ preferences, c.writer = .saving preferences (.returned (.ok ()))
  since : ∀ flush ∈ c.flushes, flush.since ≤ c.settings.length ∧
    ∀ retried, flush.now = .drained retried → flush.since ≤ covered

structure Kept (codec : JsonCodec) (c : Controller) : Prop where
  queue : c.settled ≤ c.queued
  turn : ∀ preferences save, c.writer = .saving preferences save →
    c.settled < c.queued ∧ c.restorationDone = true
  early : c.restorationDone = false → c.settled = 0
  loads : ∀ load, c.restoration = .loading load → load.Grounded codec c.store
  saves : ∀ preferences save, c.writer = .saving preferences save → save.Grounded codec c.store
  value : c.state = c.settings.foldl Setting.apply c.base
  changed : ∀ field, field ∈ c.locallyChanged ↔ ∃ setting ∈ c.settings, setting.field = field
  covers : ∃ covered, Covered codec c covered

theorem start_kept (disk : Disk) : Kept codec (start disk) where
  queue := Nat.le_refl _
  turn _ _ saving := by cases saving
  early _ := rfl
  loads load isLoading := by
    cases isLoading
    exact Store.load_grounded
  saves _ _ saving := by cases saving
  value := rfl
  changed field := by simp [start]
  covers := by
    refine ⟨0, Nat.le_refl _, fun _ => rfl, fun _ => rfl, fun some_ => ?_,
      fun _ _ saving => ?_, fun some_ => ?_, fun _ none_ => ?_⟩
    · cases some_
    · cases saving
    · cases some_
    · cases none_

/-! ## Setters -/

theorem valueAt_length : c.valueAt c.settings.length = c.settings.foldl Setting.apply c.base := by
  unfold valueAt
  rw [List.take_length]

theorem update_valueAt (setting : Setting) {n : Nat} (le : n ≤ c.settings.length) :
    (c.update setting).valueAt n = c.valueAt n := by
  unfold valueAt update
  dsimp only
  rw [List.take_append_of_le_length le]
  rfl

theorem update_kept (kept : Kept codec c) (setting : Setting) :
    Kept codec (c.update setting) where
  queue := Nat.le_succ_of_le kept.queue
  turn preferences save saving := by
    rcases kept.turn preferences save saving with ⟨turn, done⟩
    exact ⟨Nat.lt_succ_of_lt turn, done⟩
  early := kept.early
  loads := kept.loads
  saves := kept.saves
  value := by
    show setting.apply c.state = (c.settings ++ [setting]).foldl Setting.apply c.base
    rw [List.foldl_append, kept.value]
    rfl
  changed field := by
    show field ∈ c.locallyChanged.insert setting.field ↔
      ∃ other ∈ c.settings ++ [setting], other.field = field
    simp only [List.mem_insert_iff, kept.changed field, List.mem_append, List.mem_singleton]
    constructor
    · intro known
      rcases known with new | ⟨other, inside, isField⟩
      · exact ⟨setting, .inr rfl, new.symm⟩
      · exact ⟨other, .inl inside, isField⟩
    · intro known
      rcases known with ⟨other, inside | new, isField⟩
      · exact .inr ⟨other, inside, isField⟩
      · rw [new] at isField
        exact .inl isField.symm
  covers := by
    rcases kept.covers with ⟨covered, covers⟩
    have longer : c.settings.length ≤ (c.update setting).settings.length := by
      show c.settings.length ≤ (c.settings ++ [setting]).length
      rw [List.length_append]
      exact Nat.le_add_right _ _
    refine ⟨covered, ?_⟩
    constructor
    · exact Nat.le_trans covers.le longer
    · intro caught
      have caught : c.settled = c.queued + 1 := caught
      have queue := kept.queue
      omega
    · exact covers.first
    · exact covers.outcome
    · intro preferences save saving
      rcases covers.saving preferences save saving with ⟨n, ge, le, isValue, -, holds⟩
      refine ⟨n, ge, Nat.le_trans le longer, ?_, ?_, holds⟩
      · rw [update_valueAt setting le]
        exact isValue
      · intro last
        have last : c.settled + 1 = c.queued + 1 := last
        have turn := (kept.turn preferences save saving).1
        omega
    · intro some_ good
      rw [update_valueAt setting covers.le]
      exact covers.stored some_ good
    · intro flush inside
      rcases covers.since flush inside with ⟨le, drained⟩
      exact ⟨Nat.le_trans le longer, drained⟩

/-! ## Restoration -/

theorem merged_agree (state restored : BurlPreferences) (changed : List PreferenceField)
    (field : PreferenceField) :
    if field ∈ changed then Agree (merged state restored changed) state field
    else Agree (merged state restored changed) restored field := by
  cases field
  all_goals
    simp only [Agree, merged]
    split
    · rfl
    · rfl

theorem agree_ext {first second : BurlPreferences} (agree : ∀ field, Agree first second field) :
    first = second := by
  have theme := agree .theme
  have fontScale := agree .fontScale
  have measure := agree .measure
  have focusMode := agree .focusMode
  have updateNotifications := agree .updateNotifications
  cases first
  cases second
  simp only [Agree] at theme fontScale measure focusMode updateNotifications
  rw [theme, fontScale, measure, focusMode, updateNotifications]

/-- A setter decides its own field, and leaves the others. -/
theorem apply_agree {first second : BurlPreferences} {field : PreferenceField} (setting : Setting)
    (agree : setting.field ≠ field → Agree first second field) :
    Agree (setting.apply first) (setting.apply second) field := by
  cases setting
  all_goals
    cases field
    all_goals
      first
      | rfl
      | exact agree (by simp [Setting.field])

/-- The setters decide the fields they were called for. -/
theorem foldl_apply_agree {first second : BurlPreferences} {field : PreferenceField}
    (settings : List Setting)
    (agree : (∀ setting ∈ settings, setting.field ≠ field) → Agree first second field) :
    Agree (settings.foldl Setting.apply first) (settings.foldl Setting.apply second) field := by
  induction settings generalizing first second with
  | nil => exact agree fun _ none_ => by cases none_
  | cons setting rest ih =>
    apply ih
    intro others
    apply apply_agree setting
    intro other
    apply agree
    intro setting' inside
    rcases List.mem_cons.mp inside with same | inside
    · rw [same]
      exact other
    · exact others setting' inside

theorem foldl_apply_untouched (preferences : BurlPreferences) {field : PreferenceField}
    (settings : List Setting) (untouched : ∀ setting ∈ settings, setting.field ≠ field) :
    Agree (settings.foldl Setting.apply preferences) preferences field := by
  induction settings generalizing preferences with
  | nil =>
    cases field
    all_goals rfl
  | cons setting rest ih =>
    have later := ih (setting.apply preferences) fun other inside =>
      untouched other (List.mem_cons_of_mem _ inside)
    have own := untouched setting List.mem_cons_self
    cases setting
    all_goals
      cases field
      all_goals
        first
        | exact later
        | exact absurd rfl own

theorem agree_trans {first second third : BurlPreferences} {field : PreferenceField}
    (one : Agree first second field) (two : Agree second third field) : Agree first third field := by
  cases field
  all_goals exact one.trans two

theorem agree_symm {first second : BurlPreferences} {field : PreferenceField}
    (agree : Agree first second field) : Agree second first field := by
  cases field
  all_goals exact agree.symm

/-- A late restoration gives what an early one would have given. -/
theorem merged_foldl (defaults restored : BurlPreferences) {settings : List Setting}
    {locallyChanged : List PreferenceField}
    (changed : ∀ field, field ∈ locallyChanged ↔ ∃ setting ∈ settings, setting.field = field) :
    merged (settings.foldl Setting.apply defaults) restored locallyChanged =
      settings.foldl Setting.apply restored := by
  apply agree_ext
  intro field
  have agree := merged_agree (settings.foldl Setting.apply defaults) restored locallyChanged field
  by_cases known : field ∈ locallyChanged
  · rw [if_pos known] at agree
    apply agree_trans agree
    apply foldl_apply_agree settings
    intro others
    rcases (changed field).mp known with ⟨setting, inside, isField⟩
    exact absurd isField (others setting inside)
  · rw [if_neg known] at agree
    apply agree_trans agree
    apply agree_symm
    apply foldl_apply_untouched restored settings
    intro setting inside isField
    exact known ((changed field).mpr ⟨setting, inside, isField⟩)

/-- Nothing is written before the restoration is done. -/
theorem Kept.idle (kept : Kept codec c) {load : Load} (isLoading : c.restoration = .loading load) :
    c.settled = 0 ∧ ∀ preferences save, c.writer ≠ .saving preferences save := by
  have running : c.restorationDone = false := by
    unfold restorationDone
    rw [isLoading]
  refine ⟨kept.early running, ?_⟩
  intro preferences save saving
  rw [(kept.turn preferences save saving).2] at running
  cases running

/-- Before the first write, only the counts matter to what is covered. -/
theorem Covered.before {next : Controller} (covers : ∃ covered, Covered codec c covered)
    (none_ : c.settled = 0) (idle : ∀ preferences save, next.writer ≠ .saving preferences save)
    (settled : next.settled = c.settled) (queued : next.queued = c.queued)
    (settings : next.settings = c.settings) (flushes : next.flushes = c.flushes) :
    ∃ covered, Covered codec next covered := by
  rcases covers with ⟨covered, covers⟩
  refine ⟨covered, ?_⟩
  constructor
  · rw [settings]
    exact covers.le
  · rw [settled, queued, settings]
    exact covers.caught
  · intro _
    exact covers.first none_
  · intro some_
    omega
  · intro preferences save saving
    exact absurd saving (idle preferences save)
  · intro some_
    omega
  · rw [flushes, settings]
    exact covers.since

theorem restore_kept (kept : Kept codec c) (io : Io) : Kept codec (c.restore codec io) := by
  unfold restore
  split
  · rename_i restored isLoading
    rcases kept.idle isLoading with ⟨none_, idle⟩
    constructor
    · exact kept.queue
    · intro preferences save saving
      exact absurd saving (idle preferences save)
    · intro running
      cases running
    · intro load wrong
      cases wrong
    · intro preferences save saving
      exact absurd saving (idle preferences save)
    · have value := kept.value
      dsimp only
      rw [value]
      exact merged_foldl _ _ kept.changed
    · exact kept.changed
    · exact Covered.before kept.covers none_ idle rfl rfl rfl rfl
  · rename_i fault isLoading
    rcases kept.idle isLoading with ⟨none_, idle⟩
    constructor
    · exact kept.queue
    · intro preferences save saving
      exact absurd saving (idle preferences save)
    · intro running
      cases running
    · intro load wrong
      cases wrong
    · intro preferences save saving
      exact absurd saving (idle preferences save)
    · have value := kept.value
      unfold base at value ⊢
      rw [isLoading] at value
      exact value
    · exact kept.changed
    · exact Covered.before kept.covers none_ idle rfl rfl rfl rfl
  · rename_i load _ _ isLoading
    rcases kept.idle isLoading with ⟨none_, idle⟩
    constructor
    · exact kept.queue
    · intro preferences save saving
      exact absurd saving (idle preferences save)
    · intro _
      exact none_
    · intro load' same
      cases same
      exact loadStep_grounded (kept.loads load isLoading) io
    · intro preferences save saving
      exact absurd saving (idle preferences save)
    · have value := kept.value
      unfold base at value ⊢
      rw [isLoading] at value
      exact value
    · exact kept.changed
    · exact Covered.before kept.covers none_ idle rfl rfl rfl rfl
  · exact kept
  · exact kept

/-! ## Writes -/

/-- A settled write covers the setters that its value had seen. -/
theorem Covered.settle (covers : ∃ covered, Covered codec c covered) {next : Controller}
    {preferences : BurlPreferences} {result : Except Fault Unit}
    (saving : c.writer = .saving preferences (.returned result))
    (settled : next.settled = c.settled + 1) (idle : next.writer = .idle)
    (same : next.queued = c.queued ∧ next.settings = c.settings ∧ next.flushes = c.flushes ∧
      next.store = c.store ∧ next.base = c.base)
    (outcome : next.failure = none → next.hasFailedWrite = false)
    (good : next.hasFailedWrite = false → result = .ok ()) :
    ∃ covered, Covered codec next covered := by
  rcases covers with ⟨covered, covers⟩
  rcases same with ⟨queued, settings, flushes, store, isBase⟩
  rcases covers.saving preferences _ saving with ⟨n, ge, le, isValue, last, holds⟩
  refine ⟨n, ?_⟩
  constructor
  · rw [settings]
    exact le
  · intro caught
    rw [settings]
    exact last (settled.symm.trans (caught.trans queued))
  · intro none_
    omega
  · intro _
    exact outcome
  · intro preferences' save wrong
    rw [idle] at wrong
    cases wrong
  · intro _ isGood
    apply Or.inl
    have inFile := holds (by rw [good isGood])
    unfold valueAt at isValue ⊢
    unfold Holds at inFile ⊢
    rw [settings, isBase, store, ← isValue]
    exact inFile
  · intro flush inside
    rw [flushes] at inside
    rw [settings]
    rcases covers.since flush inside with ⟨called, drained⟩
    exact ⟨called, fun retried isDrained => Nat.le_trans (drained retried isDrained) ge⟩

theorem write_kept (kept : Kept codec c) (io : Io) : Kept codec (c.write codec io) := by
  unfold write
  split
  · rename_i isIdle
    split
    · rename_i ready
      rcases Bool.and_eq_true_iff.mp ready with ⟨turn, done⟩
      constructor
      · exact kept.queue
      · intro preferences save saving
        exact ⟨of_decide_eq_true turn, done⟩
      · exact kept.early
      · exact kept.loads
      · intro preferences save saving
        cases saving
        exact Store.load_grounded
      · exact kept.value
      · exact kept.changed
      · rcases kept.covers with ⟨covered, covers⟩
        refine ⟨covered, covers.le, covers.caught, covers.first, covers.outcome, ?_, ?_,
          covers.since⟩
        · intro preferences save saving
          cases saving
          refine ⟨_, covers.le, Nat.le_refl _, ?_, fun _ => rfl, fun wrong => ?_⟩
          · exact kept.value.trans valueAt_length.symm
          · cases wrong
        · intro some_ good
          rcases covers.stored some_ good with holds | ⟨preferences, saving⟩
          · exact .inl holds
          · rw [isIdle] at saving
            cases saving
    · exact kept
  · rename_i preferences saving
    constructor
    · exact (kept.turn _ _ saving).1
    · intro preferences' save wrong
      cases wrong
    · intro running
      have done := (kept.turn _ _ saving).2
      have running : c.restorationDone = false := running
      rw [done] at running
      cases running
    · exact kept.loads
    · intro preferences' save wrong
      cases wrong
    · exact kept.value
    · exact kept.changed
    · exact Covered.settle kept.covers saving rfl rfl
        ⟨rfl, rfl, rfl, rfl, rfl⟩ (fun _ => rfl)
        (fun _ => rfl)
  · rename_i preferences fault saving
    constructor
    · exact (kept.turn _ _ saving).1
    · intro preferences' save wrong
      cases wrong
    · intro running
      have done := (kept.turn _ _ saving).2
      have running : c.restorationDone = false := running
      rw [done] at running
      cases running
    · exact kept.loads
    · intro preferences' save wrong
      cases wrong
    · exact kept.value
    · exact kept.changed
    · exact Covered.settle kept.covers saving rfl rfl
        ⟨rfl, rfl, rfl, rfl, rfl⟩ (fun wrong => by cases wrong)
        (fun wrong => by cases wrong)
  · rename_i preferences save notOk notError saving
    rcases kept.turn _ _ saving with ⟨turn, done⟩
    have grounded := kept.saves _ _ saving
    rcases @saveStep_file codec c.store save preferences grounded io with ⟨put, keeps⟩
    constructor
    · exact kept.queue
    · intro preferences' save' _
      exact ⟨turn, done⟩
    · exact kept.early
    · intro load isLoading
      have isLoading : c.restoration = .loading load := isLoading
      unfold restorationDone at done
      rw [isLoading] at done
      cases done
    · intro preferences' save' same
      cases same
      exact saveStep_grounded grounded io
    · exact kept.value
    · exact kept.changed
    · rcases kept.covers with ⟨covered, covers⟩
      rcases covers.saving _ _ saving with ⟨n, ge, le, isValue, last, -⟩
      refine ⟨covered, covers.le, covers.caught, covers.first, covers.outcome, ?_, ?_,
        covers.since⟩
      · intro preferences' save' same
        cases same
        refine ⟨n, ge, le, isValue, last, ?_⟩
        intro isReturned
        exact ⟨_, put isReturned notOk, codec.read_write preferences⟩
      · intro some_ good
        rcases covers.stored some_ good with holds | ⟨preferences', wrong⟩
        · rcases holds with ⟨bytes, present, isRead⟩
          have readable : c.store.Readable codec := by
            intro other same
            rw [present] at same
            rw [← Option.some.inj same, isRead]
            simp
          rcases keeps readable with isReturned | isKept
          · refine .inr ⟨preferences, ?_⟩
            dsimp only
            rw [isReturned]
          · exact .inl ⟨bytes, isKept.trans present, isRead⟩
        · rw [saving] at wrong
          cases wrong
          exact absurd rfl notOk

/-! ## Flushes -/

/-- A flush has drained the queue only when every write has settled. -/
theorem flushStep_drained (c : Controller) (now : Flushing) :
    ∀ retried, (c.flushStep now).1 = .drained retried → c.queued ≤ c.settled := by
  intro retried' isDrained
  cases now with
  | restoring =>
    simp only [flushStep] at isDrained
    split at isDrained
    · cases isDrained
    · cases isDrained
  | draining retried writes =>
    simp only [flushStep] at isDrained
    split at isDrained
    · cases isDrained
    · rename_i settled
      split at isDrained
      · rename_i all
        omega
      · cases isDrained
  | drained retried =>
    cases retried with
    | true => cases isDrained
    | false =>
      simp only [flushStep] at isDrained
      split at isDrained
      · cases isDrained
      · cases isDrained
  | completed failure => cases isDrained

theorem resume_eq {flush : Flush} {index : Nat} (found : c.flushes[index]? = some flush) :
    c.resume index =
      { c with
        queued := if (c.flushStep flush.now).2 then c.queued + 1 else c.queued
        flushes := c.flushes.set index ⟨flush.since, (c.flushStep flush.now).1⟩ } := by
  unfold resume
  rw [found]

theorem resume_kept (kept : Kept codec c) (index : Nat) : Kept codec (c.resume index) := by
  cases found : c.flushes[index]? with
  | none =>
    unfold resume
    rw [found]
    exact kept
  | some flush =>
    rw [resume_eq found]
    have drained := flushStep_drained c flush.now
    generalize c.flushStep flush.now = answer at drained
    rcases answer with ⟨next, queues⟩
    have grown : c.queued ≤ (if queues then c.queued + 1 else c.queued) := by
      split
      · exact Nat.le_succ _
      · exact Nat.le_refl _
    have same : ∀ n, n ≤ c.queued → n = (if queues then c.queued + 1 else c.queued) →
        n = c.queued := by
      intro n le isQueued
      omega
    have queue := kept.queue
    constructor
    · exact Nat.le_trans queue grown
    · intro preferences save saving
      rcases kept.turn preferences save saving with ⟨turn, done⟩
      exact ⟨Nat.lt_of_lt_of_le turn grown, done⟩
    · exact kept.early
    · exact kept.loads
    · exact kept.saves
    · exact kept.value
    · exact kept.changed
    · rcases kept.covers with ⟨covered, covers⟩
      refine ⟨covered, covers.le, ?_, covers.first, covers.outcome, ?_, covers.stored, ?_⟩
      · intro caught
        exact covers.caught (same _ queue caught)
      · intro preferences save saving
        rcases covers.saving preferences save saving with ⟨n, ge, le, isValue, last, holds⟩
        refine ⟨n, ge, le, isValue, ?_, holds⟩
        intro isLast
        exact last (same _ (kept.turn preferences save saving).1 isLast)
      · intro other inside
        rcases List.mem_or_eq_of_mem_set inside with old | new
        · exact covers.since other old
        · have known := covers.since flush (List.mem_of_getElem? found)
          rw [new]
          refine ⟨known.1, ?_⟩
          intro retried isDrained
          have all := drained retried isDrained
          rw [covers.caught (by omega)]
          exact known.1

theorem flush_kept (kept : Kept codec c) : Kept codec (c.step codec .flush) where
  queue := kept.queue
  turn := kept.turn
  early := kept.early
  loads := kept.loads
  saves := kept.saves
  value := kept.value
  changed := kept.changed
  covers := by
    rcases kept.covers with ⟨covered, covers⟩
    refine ⟨covered, covers.le, covers.caught, covers.first, covers.outcome, covers.saving,
      covers.stored, ?_⟩
    intro flush inside
    rcases List.mem_append.mp inside with old | new
    · exact covers.since flush old
    · rw [List.mem_singleton.mp new]
      exact ⟨Nat.le_refl _, fun _ wrong => by cases wrong⟩

theorem step_kept (kept : Kept codec c) (action : Action) : Kept codec (c.step codec action) := by
  cases action with
  | set setting => exact update_kept kept setting
  | flush => exact flush_kept kept
  | restore io => exact restore_kept kept io
  | write io => exact write_kept kept io
  | resume index => exact resume_kept kept index

theorem run_kept (kept : Kept codec c) (actions : List Action) : Kept codec (c.run codec actions) := by
  unfold run
  induction actions generalizing c with
  | nil => exact kept
  | cons action rest ih => exact ih (step_kept kept action)

/-! ## Bytes that are no payload -/

/-- The bytes are at the path, or moved aside with every load and save out of the way. -/
structure Guarded (bytes : Bytes) (written : List Bytes) (c : Controller) : Prop where
  written : c.store.written = written
  there : c.store.disk.preferences = some bytes ∨
    bytes ∈ c.store.disk.preserved ∧ c.store.blocked = true ∧
      (∀ load, c.restoration = .loading load → ∃ result, load = .returned result) ∧
      ∀ preferences save, c.writer = .saving preferences save → save.Quiet

variable {bytes : Bytes} {written : List Bytes}

theorem restore_guarded (kept : Kept codec c) (guarded : Guarded bytes written c) (io : Io) :
    Guarded bytes written (c.restore codec io) := by
  unfold restore
  split
  · refine ⟨guarded.written, guarded.there.imp_right ?_⟩
    intro aside
    exact ⟨aside.1, aside.2.1, fun load wrong => (by cases wrong), aside.2.2.2⟩
  · refine ⟨guarded.written, guarded.there.imp_right ?_⟩
    intro aside
    exact ⟨aside.1, aside.2.1, fun load wrong => (by cases wrong), aside.2.2.2⟩
  · rename_i load notOk notError isLoading
    have idle := (kept.idle isLoading).2
    rcases loadStep_keeps (kept.loads load isLoading) io with ⟨same, moves⟩
    refine ⟨same.trans guarded.written, ?_⟩
    rcases guarded.there with present | ⟨-, -, returned, -⟩
    · rcases moves with stays | ⟨bytes', result, present', -, inside, blocked, isReturned⟩
      · exact .inl (stays.trans present)
      · rw [present] at present'
        rw [← Option.some.inj present'] at inside
        refine .inr ⟨inside, blocked, ?_, ?_⟩
        · intro load' isLoad
          cases isLoad
          exact ⟨result, isReturned⟩
        · intro preferences save saving
          exact absurd saving (idle preferences save)
    · -- a load that has returned was one of the cases before
      rcases returned load isLoading with ⟨result, isReturned⟩
      cases result with
      | ok preferences => exact absurd isReturned (notOk preferences)
      | error fault => exact absurd isReturned (notError fault)
  · exact guarded
  · exact guarded

theorem write_guarded (kept : Kept codec c) (unreadable : codec.read bytes = none)
    (guarded : Guarded bytes written c) (io : Io) : Guarded bytes written (c.write codec io) := by
  unfold write
  split
  · split
    · refine ⟨guarded.written, guarded.there.imp_right ?_⟩
      intro aside
      rcases aside with ⟨inside, blocked, loads, -⟩
      refine ⟨inside, blocked, loads, ?_⟩
      intro preferences save saving
      cases saving
      unfold Store.save Store.load
      rw [if_pos blocked]
      trivial
    · exact guarded
  · refine ⟨guarded.written, guarded.there.imp_right ?_⟩
    intro aside
    exact ⟨aside.1, aside.2.1, aside.2.2.1, fun _ _ wrong => by cases wrong⟩
  · refine ⟨guarded.written, guarded.there.imp_right ?_⟩
    intro aside
    exact ⟨aside.1, aside.2.1, aside.2.2.1, fun _ _ wrong => by cases wrong⟩
  · rename_i preferences save notOk notError saving
    have done := (kept.turn _ _ saving).2
    have noLoad : ∀ load, c.restoration = .loading load → ∃ result, load = .returned result := by
      intro load isLoading
      unfold restorationDone at done
      rw [isLoading] at done
      cases done
    rcases guarded.there with present | ⟨inside, blocked, -, quiet⟩
    · rcases @saveStep_unreadable codec c.store save preferences bytes (kept.saves _ _ saving)
        present unreadable io with ⟨same, stays | ⟨inside, blocked, quiet⟩⟩
      · exact ⟨same.trans guarded.written, .inl stays⟩
      · refine ⟨same.trans guarded.written, .inr ⟨inside, blocked, noLoad, ?_⟩⟩
        intro preferences' save' isSave
        cases isSave
        exact quiet
    · rcases @saveStep_quiet codec c.store save preferences blocked (quiet _ _ saving) io with
        ⟨same, stays⟩
      dsimp only
      constructor
      · rw [same]
        exact guarded.written
      · refine .inr ⟨?_, ?_, noLoad, ?_⟩
        · rw [same]
          exact inside
        · rw [same]
          exact blocked
        · intro preferences' save' isSave
          cases isSave
          exact stays

theorem resume_guarded (guarded : Guarded bytes written c) (index : Nat) :
    Guarded bytes written (c.resume index) := by
  unfold resume
  split
  · exact guarded
  · exact ⟨guarded.written, guarded.there⟩

theorem run_guarded (kept : Kept codec c) (unreadable : codec.read bytes = none)
    (guarded : Guarded bytes written c) (actions : List Action) :
    Guarded bytes written (c.run codec actions) := by
  unfold run
  induction actions generalizing c with
  | nil => exact guarded
  | cons action rest ih =>
    apply ih (step_kept kept action)
    cases action with
    | set setting => exact ⟨guarded.written, guarded.there⟩
    | flush => exact ⟨guarded.written, guarded.there⟩
    | restore io => exact restore_guarded kept guarded io
    | write io => exact write_guarded kept unreadable guarded io
    | resume index => exact resume_guarded guarded index

/-! ## Where the restored value comes from -/

section Sources

variable {disk : Disk} {store : Store} {load : Load} {restored : BurlPreferences}

/-- What a load has found so far is what the disk was. -/
def Traces (codec : JsonCodec) (disk : Disk) (store : Store) : Load → Prop
  | .resolving | .listing => store.disk = disk
  | .probing => store.disk = disk ∧ disk.preserved = []
  | .reading => store.disk = disk ∧ disk.preserved = [] ∧ disk.preferences ≠ none
  | .reserving | .moving =>
      store.blocked = true ∧ disk.preserved = [] ∧
        ∃ bytes, disk.preferences = some bytes ∧ codec.read bytes = none
  | .returned (.ok restored) => Restores codec disk store restored
  | .returned (.error _) => True

theorem loadStep_traces (traced : Traces codec disk store load) (io : Io) :
    Traces codec disk (loadStep codec store load io).1 (loadStep codec store load io).2 := by
  cases load with
  | resolving =>
    cases io with
    | done => exact traced
    | failed fault => trivial
  | listing =>
    cases io with
    | failed fault => trivial
    | done =>
      have same : store.disk = disk := traced
      simp only [loadStep]
      split
      · rename_i marked
        rw [same] at marked
        exact .preserved marked rfl
      · rename_i unmarked
        rw [same] at unmarked
        exact ⟨same, not_not.mp unmarked⟩
  | probing =>
    rcases traced with ⟨same, unmarked⟩
    cases io with
    | failed fault => trivial
    | done =>
      simp only [loadStep]
      split
      · rename_i none_
        rw [same] at none_
        exact .absent unmarked none_
      · rename_i some_
        rw [same] at some_
        exact ⟨same, unmarked, some_⟩
  | reading =>
    rcases traced with ⟨same, unmarked, -⟩
    cases io with
    | failed fault => trivial
    | done =>
      simp only [loadStep]
      cases present : store.disk.preferences with
      | none => trivial
      | some bytes =>
        have there : disk.preferences = some bytes := by
          rw [← same]
          exact present
        dsimp only
        cases isRead : codec.read bytes with
        | none => exact ⟨rfl, unmarked, bytes, there, isRead⟩
        | some restored => exact .payload unmarked there isRead
  | reserving =>
    rcases traced with ⟨blocked, unmarked, bytes, present, unreadable⟩
    cases io with
    | done => exact ⟨blocked, unmarked, bytes, present, unreadable⟩
    | failed fault =>
      cases fault with
      | pathExists => exact ⟨blocked, unmarked, bytes, present, unreadable⟩
      | preserved => exact .foreign unmarked present unreadable blocked
      | other message => exact .foreign unmarked present unreadable blocked
  | moving =>
    rcases traced with ⟨blocked, unmarked, bytes, present, unreadable⟩
    cases io with
    | failed fault => exact .foreign unmarked present unreadable blocked
    | done =>
      exact .foreign unmarked present unreadable (store.moved_blocked.trans blocked)
  | returned result =>
    cases io with
    | done => exact traced
    | failed fault => exact traced

/-- A load that is under way fails with what the file system answered. -/
theorem loadStep_failed (traced : Traces codec disk store load)
    (running : ∀ result, load ≠ .returned result) {io : Io} {fault : Fault}
    (failed : (loadStep codec store load io).2 = .returned (.error fault)) : io = .failed fault := by
  cases load with
  | resolving =>
    cases io with
    | done => cases failed
    | failed fault' =>
      cases failed
      rfl
  | listing =>
    cases io with
    | done =>
      simp only [loadStep] at failed
      split at failed
      · cases failed
      · cases failed
    | failed fault' =>
      cases failed
      rfl
  | probing =>
    cases io with
    | done =>
      simp only [loadStep] at failed
      split at failed
      · cases failed
      · cases failed
    | failed fault' =>
      cases failed
      rfl
  | reading =>
    rcases traced with ⟨same, -, some_⟩
    cases io with
    | done =>
      simp only [loadStep] at failed
      cases present : store.disk.preferences with
      | none => exact absurd (same ▸ present) some_
      | some bytes =>
        rw [present] at failed
        dsimp only at failed
        split at failed
        · cases failed
        · cases failed
    | failed fault' =>
      cases failed
      rfl
  | reserving =>
    cases io with
    | done => cases failed
    | failed fault' =>
      cases fault' with
      | pathExists => cases failed
      | preserved => cases failed
      | other message => cases failed
  | moving =>
    cases io with
    | done => cases failed
    | failed fault' => cases failed
  | returned result => exact absurd rfl (running result)

/-- What is known of where the restored value comes from, or will come from. -/
def Sourced (codec : JsonCodec) (disk : Disk) (c : Controller) : Prop :=
  match c.restoration with
  | .loading load => Traces codec disk c.store load
  | .restored restored => Restores codec disk c.store restored
  | .failed _ => True

theorem start_sourced (disk : Disk) : Sourced codec disk (start disk) := rfl

/-- Only whether the store is blocked matters to a value that is restored. -/
theorem restores_of_blocked {next : Store} (sourced : Restores codec disk store restored)
    (blocked : store.blocked = true → next.blocked = true) : Restores codec disk next restored := by
  cases sourced with
  | payload unmarked present isRead => exact .payload unmarked present isRead
  | absent unmarked none_ => exact .absent unmarked none_
  | foreign unmarked present unreadable isBlocked =>
    exact .foreign unmarked present unreadable (blocked isBlocked)
  | preserved marked isBlocked => exact .preserved marked (blocked isBlocked)

theorem restore_sourced (sourced : Sourced codec disk c) (io : Io) :
    Sourced codec disk (c.restore codec io) := by
  unfold Sourced at sourced
  unfold restore
  split
  · rename_i restored isLoading
    rw [isLoading] at sourced
    exact sourced
  · trivial
  · rename_i load _ _ isLoading
    rw [isLoading] at sourced
    exact loadStep_traces sourced io
  · rename_i isRestored
    unfold Sourced
    rw [isRestored] at sourced ⊢
    exact sourced
  · rename_i isFailed
    unfold Sourced
    rw [isFailed]
    trivial

theorem write_sourced (kept : Kept codec c) (sourced : Sourced codec disk c) (io : Io) :
    Sourced codec disk (c.write codec io) := by
  unfold write
  split
  · split
    · exact sourced
    · exact sourced
  · exact sourced
  · exact sourced
  · rename_i preferences save _ _ saving
    have done := (kept.turn _ _ saving).2
    unfold restorationDone at done
    unfold Sourced at sourced ⊢
    dsimp only
    cases restoration : c.restoration with
    | loading load =>
      rw [restoration] at done
      cases done
    | restored restored =>
      rw [restoration] at sourced
      exact restores_of_blocked sourced (saveStep_blocked io)
    | failed fault => trivial

theorem resume_sourced (sourced : Sourced codec disk c) (index : Nat) :
    Sourced codec disk (c.resume index) := by
  unfold resume
  split
  · exact sourced
  · exact sourced

theorem run_sourced (kept : Kept codec c) (sourced : Sourced codec disk c) (actions : List Action) :
    Sourced codec disk (c.run codec actions) := by
  unfold run
  induction actions generalizing c with
  | nil => exact sourced
  | cons action rest ih =>
    apply ih (step_kept kept action)
    cases action with
    | set setting => exact sourced
    | flush => exact sourced
    | restore io => exact restore_sourced sourced io
    | write io => exact write_sourced kept sourced io
    | resume index => exact resume_sourced sourced index

end Sources

/-! ## What a flush that completes has done -/

/-- A flush completes where it has drained the queue. -/
theorem flushStep_completed {now : Flushing} (running : ∀ failure, now ≠ .completed failure)
    {failure : Option Fault} (completes : (c.flushStep now).1 = .completed failure) :
    (∃ retried, now = .drained retried) ∧ failure = c.failure := by
  cases now with
  | restoring =>
    simp only [flushStep] at completes
    split at completes
    · cases completes
    · cases completes
  | draining retried writes =>
    simp only [flushStep] at completes
    split at completes
    · cases completes
    · split at completes
      · cases completes
      · cases completes
  | drained retried =>
    refine ⟨⟨retried, rfl⟩, ?_⟩
    cases retried with
    | true =>
      cases completes
      rfl
    | false =>
      simp only [flushStep] at completes
      split at completes
      · cases completes
      · cases completes
        rfl
  | completed failure => exact absurd rfl (running failure)

/-- Where the settled writes cover all setters, and none has failed, the value is in the file. -/
theorem Kept.inFile (kept : Kept codec c) {covered : Nat} (covers : Covered codec c covered)
    (all : covered = c.settings.length) (some_ : c.settings ≠ []) (none_ : c.failure = none) :
    c.Holds codec c.state := by
  have settled : 0 < c.settled := by
    apply Nat.pos_of_ne_zero
    intro zero
    rw [covers.first zero] at all
    exact some_ (List.length_eq_zero_iff.mp all.symm)
  have isState : c.state = c.valueAt c.settings.length := kept.value.trans valueAt_length.symm
  rcases covers.stored settled (covers.outcome settled none_) with holds | ⟨preferences, saving⟩
  · rw [isState, ← all]
    exact holds
  · rcases covers.saving _ _ saving with ⟨n, ge, le, isValue, -, holds⟩
    have isAll : n = c.settings.length := by omega
    rw [isState, ← isAll, ← isValue]
    exact holds rfl

theorem Kept.survives {disk : Disk} (kept : Kept codec c) (sourced : Sourced codec disk c) :
    Survives codec disk c where
  preserved bytes present unreadable actions := by
    have guarded := run_guarded kept unreadable ⟨rfl, .inl present⟩ actions
    exact ⟨guarded.there.imp_right And.left, guarded.written⟩
  changed := kept.changed
  restored restored known := by
    unfold Sourced at sourced
    rcases known with isLoading | isRestored
    · rw [isLoading] at sourced
      exact sourced
    · rw [isRestored] at sourced
      exact sourced
  restoration restored isLoading io field := by
    have agree := merged_agree c.state restored c.locallyChanged field
    simp only [step, restore, isLoading]
    exact agree
  value restored isRestored := by
    have value := kept.value
    unfold base at value
    rw [isRestored] at value
    exact value
  refused load isLoading running io fault isRefused := by
    unfold Sourced at sourced
    rw [isLoading] at sourced
    apply loadStep_failed sourced running
    simp only [step, restore, isLoading] at isRefused
    split at isRefused
    · rename_i restored same
      cases same
      exact absurd rfl (running _)
    · rename_i fault' same
      cases same
      exact absurd rfl (running _)
    · rename_i under _ _ same
      cases same
      exact Restoration.loading.inj isRefused
    · rename_i same
      cases same
    · rename_i same
      cases same
  failed fault isFailed := by
    have value := kept.value
    unfold base at value
    rw [isFailed] at value
    exact value
  flushed index since pending found running completes isSince := by
    rcases kept.covers with ⟨covered, covers⟩
    have spec := @flushStep_completed c pending running none
    simp only [step, resume_eq found] at completes ⊢
    rw [List.getElem?_set_self (List.getElem?_eq_some_iff.mp found).1, Option.some.injEq,
      Flush.mk.injEq] at completes
    rcases spec completes.2 with ⟨⟨retried, isDrained⟩, noFailure⟩
    have known := (covers.since _ (List.mem_of_getElem? found)).2 retried isDrained
    have known : since ≤ covered := known
    have le := covers.le
    by_cases nothing : c.settings = []
    · exact .inl nothing
    · exact .inr (kept.inFile covers (by omega) nothing noFailure.symm)

/-- Device preferences survive: from any disk, in any order of steps, with any answers of the file
system, foreign bytes are kept, restoration gives what the file holds where nothing was set, and a
flush tells the truth. -/
theorem preferences_survive (codec : JsonCodec) (disk : Disk) (actions : List Action) :
    Survives codec disk ((start disk).run codec actions) :=
  (run_kept (start_kept disk) actions).survives
    (run_sourced (start_kept disk) (start_sourced disk) actions)

/-- The device's preferences as an earlier session left them. -/
def darkDisk : Disk := ⟨some (payloadCodec.write ⟨.dark, .standard, .wide, true, true⟩), []⟩

/-- A setter is called while the file is read, and then a flush. -/
def chosenMeanwhile : List Action :=
  List.replicate 3 (.restore .done) ++ .set (.fontScale .spacious) :: .flush ::
    List.replicate 2 (.restore .done) ++ List.replicate 13 (.write .done) ++
      List.replicate 3 (.resume 0)

/-- The setting lies over what the file holds, and both are in the file after the flush. A file of
other bytes is moved aside, and nothing is written. -/
theorem chosen_preferences_survive :
    Survives payloadCodec darkDisk ((start darkDisk).run payloadCodec chosenMeanwhile) ∧
      ((start darkDisk).run payloadCodec chosenMeanwhile).store.disk.preferences =
        some (payloadCodec.write ⟨.dark, .spacious, .wide, true, true⟩) ∧
      ((start darkDisk).run payloadCodec chosenMeanwhile).flushes = [⟨1, .completed none⟩] ∧
      Survives payloadCodec ⟨some [120], []⟩
        ((start ⟨some [120], []⟩).run payloadCodec
          (List.replicate 7 (.restore .done) ++ chosenMeanwhile)) ∧
      ((start ⟨some [120], []⟩).run payloadCodec
          (List.replicate 7 (.restore .done) ++ chosenMeanwhile)).store =
        ⟨true, ⟨none, [[120]]⟩, []⟩ :=
  ⟨preferences_survive payloadCodec darkDisk chosenMeanwhile, by decide +kernel, by decide +kernel,
    preferences_survive payloadCodec _ _, by decide +kernel⟩

end Controller

end Burlmd.Preferences
