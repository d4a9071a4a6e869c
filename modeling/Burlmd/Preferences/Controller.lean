import Burlmd.Preferences.Store

/-!
# The controller of the device preferences

Setters change the value at once and queue a write of it. The restoration, the writes and the
flushes run between them: any of them may take its next step, or a setter be called.
-/

namespace Burlmd.Preferences

inductive PreferenceField where
  | theme
  | fontScale
  | measure
  | focusMode
  | updateNotifications
  deriving DecidableEq

/-- A call of a setter. -/
inductive Setting where
  | theme (value : BurlThemePreference)
  | fontScale (value : BurlFontScale)
  | measure (value : BurlMeasure)
  | focusMode (value : Bool)
  | updateNotifications (value : Bool)

namespace Setting

def field : Setting → PreferenceField
  | theme _ => .theme
  | fontScale _ => .fontScale
  | measure _ => .measure
  | focusMode _ => .focusMode
  | updateNotifications _ => .updateNotifications

def apply (preferences : BurlPreferences) : Setting → BurlPreferences
  | theme value => { preferences with theme := value }
  | fontScale value => { preferences with fontScale := value }
  | measure value => { preferences with measure := value }
  | focusMode value => { preferences with focusMode := value }
  | updateNotifications value => { preferences with updateNotifications := value }

end Setting

inductive Restoration where
  | loading (load : Load)
  | restored (preferences : BurlPreferences)
  | failed (fault : Fault)

/-- The write whose turn it is. -/
inductive Writer where
  | idle
  | saving (preferences : BurlPreferences) (save : Save)

/-- What a flush waits for; `retried` once it has queued its retry. -/
inductive Flushing where
  | restoring
  | draining (retried : Bool) (writes : Nat)
  | drained (retried : Bool)
  | completed (failure : Option Fault)
  deriving DecidableEq

structure Flush where
  /-- The setters called before the flush. -/
  since : Nat
  now : Flushing
  deriving DecidableEq

/-- The writes are numbered in the order in which they are queued; a write takes its turn when the
one before it has settled. -/
structure Controller where
  store : Store
  state : BurlPreferences
  locallyChanged : List PreferenceField
  hasFailedWrite : Bool
  failure : Option Fault
  restoration : Restoration
  queued : Nat
  settled : Nat
  writer : Writer
  flushes : List Flush
  /-- The setters called so far. -/
  settings : List Setting

inductive Action where
  | set (setting : Setting)
  | flush
  | restore (io : Io)
  | write (io : Io)
  | resume (index : Nat)

namespace Controller

def start (disk : Disk) : Controller where
  store := ⟨false, disk, []⟩
  state := .defaults
  locallyChanged := []
  hasFailedWrite := false
  failure := none
  restoration := .loading (Store.load ⟨false, disk, []⟩)
  queued := 0
  settled := 0
  writer := .idle
  flushes := []
  settings := []

/-- The restored value in the fields that were not set. -/
def merged (state restored : BurlPreferences) (locallyChanged : List PreferenceField) :
    BurlPreferences where
  theme := if .theme ∈ locallyChanged then state.theme else restored.theme
  fontScale := if .fontScale ∈ locallyChanged then state.fontScale else restored.fontScale
  measure := if .measure ∈ locallyChanged then state.measure else restored.measure
  focusMode := if .focusMode ∈ locallyChanged then state.focusMode else restored.focusMode
  updateNotifications :=
    if .updateNotifications ∈ locallyChanged then state.updateNotifications
    else restored.updateNotifications

def restorationDone (c : Controller) : Bool :=
  match c.restoration with
  | .loading _ => false
  | .restored _ | .failed _ => true

def update (c : Controller) (setting : Setting) : Controller :=
  { c with
    locallyChanged := c.locallyChanged.insert setting.field
    state := setting.apply c.state
    queued := c.queued + 1
    settings := c.settings ++ [setting] }

variable (codec : JsonCodec)

def restore (c : Controller) (io : Io) : Controller :=
  match c.restoration with
  | .loading (.returned (.ok restored)) =>
      { c with
        state := merged c.state restored c.locallyChanged
        restoration := .restored restored }
  | .loading (.returned (.error fault)) =>
      { c with failure := some fault, restoration := .failed fault }
  | .loading load =>
      let (store, load) := loadStep codec c.store load io
      { c with store, restoration := .loading load }
  | .restored _ | .failed _ => c

/-- The next step of the queue; the value is read when a write takes its turn. -/
def write (c : Controller) (io : Io) : Controller :=
  match c.writer with
  | .idle =>
      if c.settled < c.queued && c.restorationDone then
        { c with writer := .saving c.state c.store.save }
      else c
  | .saving _ (.returned (.ok ())) =>
      { c with hasFailedWrite := false, failure := none, settled := c.settled + 1, writer := .idle }
  | .saving _ (.returned (.error fault)) =>
      { c with
        hasFailedWrite := true, failure := some fault, settled := c.settled + 1, writer := .idle }
  | .saving preferences save =>
      let (store, save) := saveStep codec preferences c.store save io
      { c with store, writer := .saving preferences save }

/-- What a flush does next, and whether it queues a write. -/
def flushStep (c : Controller) : Flushing → Flushing × Bool
  | .restoring => if c.restorationDone then (.draining false c.queued, false) else (.restoring, false)
  | .draining retried writes =>
      if c.settled < writes then (.draining retried writes, false)
      -- a write that was queued meanwhile is waited for, too
      else if writes = c.queued then (.drained retried, false)
      else (.draining retried c.queued, false)
  | .drained false =>
      if c.hasFailedWrite then (.draining true (c.queued + 1), true)
      else (.completed c.failure, false)
  | .drained true => (.completed c.failure, false)
  | .completed failure => (.completed failure, false)

def resume (c : Controller) (index : Nat) : Controller :=
  match c.flushes[index]? with
  | none => c
  | some flush =>
      let (next, queues) := c.flushStep flush.now
      { c with
        queued := if queues then c.queued + 1 else c.queued
        flushes := c.flushes.set index ⟨flush.since, next⟩ }

def step (c : Controller) : Action → Controller
  | .set setting => c.update setting
  | .flush => { c with flushes := c.flushes ++ [⟨c.settings.length, .restoring⟩] }
  | .restore io => c.restore codec io
  | .write io => c.write codec io
  | .resume index => c.resume index

def run (c : Controller) (actions : List Action) : Controller := actions.foldl (step codec) c

end Controller

/-! ## What is said of a run -/

/-- The two values agree in a field. -/
def Agree (first second : BurlPreferences) : PreferenceField → Prop
  | .theme => first.theme = second.theme
  | .fontScale => first.fontScale = second.fontScale
  | .measure => first.measure = second.measure
  | .focusMode => first.focusMode = second.focusMode
  | .updateNotifications => first.updateNotifications = second.updateNotifications

/-- Where the value of a restoration comes from, for a store that began with this disk. -/
inductive Restores (codec : JsonCodec) (disk : Disk) (store : Store) : BurlPreferences → Prop where
  | payload {bytes : Bytes} {restored : BurlPreferences} (unmarked : disk.preserved = [])
      (present : disk.preferences = some bytes) (isRead : codec.read bytes = some restored) :
      Restores codec disk store restored
  | absent (unmarked : disk.preserved = []) (none_ : disk.preferences = none) :
      Restores codec disk store .defaults
  | foreign {bytes : Bytes} (unmarked : disk.preserved = [])
      (present : disk.preferences = some bytes) (unreadable : codec.read bytes = none)
      (blocked : store.blocked = true) : Restores codec disk store .defaults
  | preserved (marked : disk.preserved ≠ []) (blocked : store.blocked = true) :
      Restores codec disk store .defaults

namespace Controller

variable (codec : JsonCodec)

/-- What holds in a state of a run that began with this disk, for every step from it and every
further run. -/
structure Survives (disk : Disk) (c : Controller) : Prop where
  /-- Bytes that are no payload stay at the path or are moved aside, and nothing is written. -/
  preserved : ∀ bytes, c.store.disk.preferences = some bytes → codec.read bytes = none →
    ∀ actions,
      ((c.run codec actions).store.disk.preferences = some bytes ∨
        bytes ∈ (c.run codec actions).store.disk.preserved) ∧
      (c.run codec actions).store.written = c.store.written
  /-- The fields that setters were called for. -/
  changed : ∀ field, field ∈ c.locallyChanged ↔ ∃ setting ∈ c.settings, setting.field = field
  /-- A restoration gives what the file decodes to. Without a file, or with bytes put aside now or
  earlier, it gives the defaults. -/
  restored : ∀ restored, c.restoration = .loading (.returned (.ok restored)) ∨
    c.restoration = .restored restored → Restores codec disk c.store restored
  /-- A restoration fails where a call of the file system does. -/
  refused : ∀ load, c.restoration = .loading load → (∀ result, load ≠ .returned result) →
    ∀ io fault, (c.step codec (.restore io)).restoration = .loading (.returned (.error fault)) →
      io = .failed fault
  /-- The restoration keeps the fields that were set, and gives the others their value. -/
  restoration : ∀ restored, c.restoration = .loading (.returned (.ok restored)) → ∀ io field,
    if field ∈ c.locallyChanged then Agree (c.step codec (.restore io)).state c.state field
    else Agree (c.step codec (.restore io)).state restored field
  /-- The value is what the setters made of the restored one. -/
  value : ∀ restored, c.restoration = .restored restored →
    c.state = c.settings.foldl Setting.apply restored
  /-- Where the restoration failed, what they made of the defaults. -/
  failed : ∀ fault, c.restoration = .failed fault →
    c.state = c.settings.foldl Setting.apply .defaults
  /-- A flush that completes normally without a setter meanwhile leaves the value in the file. -/
  flushed : ∀ index since pending, c.flushes[index]? = some ⟨since, pending⟩ →
    (∀ failure, pending ≠ .completed failure) →
    (c.step codec (.resume index)).flushes[index]? = some ⟨since, .completed none⟩ →
    since = c.settings.length → c.settings = [] ∨
      ∃ bytes, (c.step codec (.resume index)).store.disk.preferences = some bytes ∧
        codec.read bytes = some (c.step codec (.resume index)).state

end Controller

end Burlmd.Preferences
