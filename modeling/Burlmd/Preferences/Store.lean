import Burlmd.Snapshot.Schema

/-!
# The store of the device preferences

A versioned payload in application support. Bytes that are none are moved aside, and block every
later save. Each `await` of the source ends one step, and the file system answers the next one.
-/

namespace Burlmd.Preferences

open Snapshot (Value member)
open Utf8 (Text)

abbrev Bytes := List UInt8

inductive BurlThemePreference where
  | system
  | light
  | dark
  deriving DecidableEq, Repr

inductive BurlFontScale where
  | compact
  | standard
  | comfortable
  | spacious
  deriving DecidableEq, Repr

inductive BurlMeasure where
  | narrow
  | standard
  | wide
  | technical
  | full
  deriving DecidableEq, Repr

namespace BurlThemePreference

def name : BurlThemePreference → Text
  | system => "system".toList
  | light => "light".toList
  | dark => "dark".toList

def values : List BurlThemePreference := [system, light, dark]

end BurlThemePreference

namespace BurlFontScale

def name : BurlFontScale → Text
  | compact => "compact".toList
  | standard => "standard".toList
  | comfortable => "comfortable".toList
  | spacious => "spacious".toList

def values : List BurlFontScale := [compact, standard, comfortable, spacious]

end BurlFontScale

namespace BurlMeasure

def name : BurlMeasure → Text
  | narrow => "narrow".toList
  | standard => "standard".toList
  | wide => "wide".toList
  | technical => "technical".toList
  | full => "full".toList

def values : List BurlMeasure := [narrow, standard, wide, technical, full]

end BurlMeasure

structure BurlPreferences where
  theme : BurlThemePreference
  fontScale : BurlFontScale
  measure : BurlMeasure
  focusMode : Bool
  updateNotifications : Bool
  deriving DecidableEq, Repr

def BurlPreferences.defaults : BurlPreferences := ⟨.system, .standard, .standard, false, true⟩

/-! ## Payloads -/

/-- The pattern `1`, which a float matches, too. -/
def isOne : Value → Bool
  | .number (.integer n) => n = 1
  | .number (.float value) => value = 1
  | _ => false

def enumByName {α : Type} (values : List α) (nameOf : α → Text) (text : Text) : Option α :=
  values.find? fun value => nameOf value = text

def BurlThemePreference.byName : Text → Option BurlThemePreference := enumByName values name

def BurlFontScale.byName : Text → Option BurlFontScale := enumByName values name

def BurlMeasure.byName : Text → Option BurlMeasure := enumByName values name

namespace BurlPreferences

/-- `none` for a `FormatException`. -/
def fromJson : Value → Option BurlPreferences
  | .object members =>
      match member members "schema_version".toList, member members "theme".toList,
        member members "font_scale".toList, member members "measure".toList,
        member members "focus_mode".toList, member members "update_notifications".toList with
      | some version, some (.string theme), some (.string fontScale), some (.string measure),
        some (.bool focusMode), some (.bool updateNotifications) =>
          if isOne version && members.length == 6 then
            (BurlThemePreference.byName theme).bind fun theme =>
              (BurlFontScale.byName fontScale).bind fun fontScale =>
                (BurlMeasure.byName measure).map fun measure =>
                  ⟨theme, fontScale, measure, focusMode, updateNotifications⟩
          else none
      | _, _, _, _, _, _ => none
  | _ => none

def toJson (preferences : BurlPreferences) : Value :=
  .object
    [("schema_version".toList, .number (.integer 1)),
      ("theme".toList, .string preferences.theme.name),
      ("font_scale".toList, .string preferences.fontScale.name),
      ("measure".toList, .string preferences.measure.name),
      ("focus_mode".toList, .bool preferences.focusMode),
      ("update_notifications".toList, .bool preferences.updateNotifications)]

end BurlPreferences

/-- The JSON reader and writer over UTF-8, as far as a payload shows them. -/
structure JsonCodec where
  decode : Bytes → Option Value
  encode : Value → Bytes
  decode_encode : ∀ preferences : BurlPreferences,
    decode (encode preferences.toJson) = some preferences.toJson

namespace JsonCodec

variable (codec : JsonCodec)

def read (bytes : Bytes) : Option BurlPreferences :=
  (codec.decode bytes).bind BurlPreferences.fromJson

def write (preferences : BurlPreferences) : Bytes := codec.encode preferences.toJson

end JsonCodec

/-! ## The file system -/

inductive Fault where
  /-- The bytes at the path are preserved, and nothing is saved. -/
  | preserved
  | pathExists
  | other (message : Text)
  deriving DecidableEq

/-- How an operation of the file system ends. -/
inductive Io where
  | done
  | failed (fault : Fault)

structure Disk where
  /-- The bytes at the path of the preferences. -/
  preferences : Option Bytes
  /-- The contents of the files with the quarantine marker, latest first. -/
  preserved : List Bytes
  deriving DecidableEq

structure Store where
  blocked : Bool
  disk : Disk
  /-- The payloads that saves began to write, latest first. -/
  written : List Bytes
  deriving DecidableEq

def Store.block (store : Store) : Store := { store with blocked := true }

/-! ## Loading -/

/-- What a load waits for. -/
inductive Load where
  | resolving
  | listing
  | probing
  | reading
  | reserving
  | moving
  | returned (result : Except Fault BurlPreferences)

def Store.load (store : Store) : Load :=
  if store.blocked then .returned (.ok .defaults) else .resolving

/-- An error of the file system in a load. -/
def Store.refused (store : Store) (fault : Fault) : Store × Load :=
  (store.block, .returned (.error fault))

/-- The bytes at the path take the place of the reservation. -/
def Store.moved (store : Store) : Store :=
  match store.disk.preferences with
  | none => store
  | some bytes => { store with disk := ⟨none, bytes :: store.disk.preserved.tail⟩ }

@[simp] theorem Store.moved_blocked (store : Store) : store.moved.blocked = store.blocked := by
  unfold Store.moved
  split
  · rfl
  · rfl

variable (codec : JsonCodec)

/-- One step of a load; one that has returned takes none. -/
def loadStep (store : Store) (load : Load) (io : Io) : Store × Load :=
  match load, io with
  | .resolving, .done => (store, .listing)
  | .resolving, .failed fault => (store, .returned (.error fault))
  | .listing, .done =>
      if store.disk.preserved ≠ [] then (store.block, .returned (.ok .defaults))
      else (store, .probing)
  | .listing, .failed fault => store.refused fault
  | .probing, .done =>
      if store.disk.preferences = none then (store, .returned (.ok .defaults))
      else (store, .reading)
  | .probing, .failed fault => store.refused fault
  | .reading, .done =>
      match store.disk.preferences with
      | none => store.refused (.other "Cannot open file".toList)
      | some bytes =>
          match codec.read bytes with
          | some preferences => (store, .returned (.ok preferences))
          | none => (store.block, .reserving)
  | .reading, .failed fault => store.refused fault
  | .reserving, .done =>
      ({ store with disk := { store.disk with preserved := [] :: store.disk.preserved } }, .moving)
  -- a name that is taken is followed by another one
  | .reserving, .failed .pathExists => (store, .reserving)
  | .reserving, .failed _ => (store, .returned (.ok .defaults))
  | .moving, .done => (store.moved, .returned (.ok .defaults))
  | .moving, .failed _ => (store, .returned (.ok .defaults))
  | .returned result, _ => (store, .returned result)

/-! ## Saving -/

/-- What a save waits for. -/
inductive Save where
  | loading (load : Load)
  | resolving
  | listing
  | creating
  | writing
  | promoting
  | cleaning (fault : Fault)
  | returned (result : Except Fault Unit)

def Store.save (store : Store) : Save := .loading store.load

/-- One step of a save; one that has returned takes none. -/
def saveStep (preferences : BurlPreferences) (store : Store) (save : Save) (io : Io) :
    Store × Save :=
  match save, io with
  | .loading (.returned (.error fault)), _ => (store, .returned (.error fault))
  | .loading (.returned (.ok _)), _ =>
      if store.blocked then (store, .returned (.error .preserved)) else (store, .resolving)
  | .loading load, io =>
      let (store, load) := loadStep codec store load io
      (store, .loading load)
  | .resolving, .done => (store, .listing)
  | .resolving, .failed fault => (store, .returned (.error fault))
  | .listing, .done =>
      if store.disk.preserved ≠ [] then (store.block, .returned (.error .preserved))
      else (store, .creating)
  | .listing, .failed fault => (store, .returned (.error fault))
  | .creating, .done =>
      ({ store with written := codec.write preferences :: store.written }, .writing)
  | .creating, .failed fault => (store, .returned (.error fault))
  | .writing, .done => (store, .promoting)
  | .writing, .failed fault => (store, .cleaning fault)
  | .promoting, .done =>
      ({ store with disk := { store.disk with preferences := some (codec.write preferences) } },
        .returned (.ok ()))
  | .promoting, .failed fault => (store, .cleaning fault)
  | .cleaning fault, _ => (store, .returned (.error fault))
  | .returned result, _ => (store, .returned result)

/-! ## Payloads that are read back -/

theorem BurlPreferences.fromJson_toJson (preferences : BurlPreferences) :
    fromJson preferences.toJson = some preferences := by
  rcases preferences with ⟨theme, fontScale, measure, focusMode, updateNotifications⟩
  have isTheme : BurlThemePreference.byName theme.name = some theme := by
    cases theme
    all_goals decide
  have isScale : BurlFontScale.byName fontScale.name = some fontScale := by
    cases fontScale
    all_goals decide
  have isMeasure : BurlMeasure.byName measure.name = some measure := by
    cases measure
    all_goals decide
  unfold toJson fromJson
  have decoded : ((BurlThemePreference.byName theme.name).bind fun theme =>
      (BurlFontScale.byName fontScale.name).bind fun fontScale =>
        (BurlMeasure.byName measure.name).map fun measure =>
          (⟨theme, fontScale, measure, focusMode, updateNotifications⟩ : BurlPreferences)) =
      some ⟨theme, fontScale, measure, focusMode, updateNotifications⟩ := by
    rw [isTheme, isScale, isMeasure]
    rfl
  -- Each member stands under its own key.
  exact decoded

theorem JsonCodec.read_write (preferences : BurlPreferences) :
    codec.read (codec.write preferences) = some preferences := by
  unfold read write
  rw [codec.decode_encode]
  exact preferences.fromJson_toJson

/-! ## What a step finds and leaves -/

section Steps

variable {codec} {store : Store} {load : Load} {save : Save} {preferences : BurlPreferences}
  {bytes : Bytes}

/-- No save could replace bytes that are no payload. -/
def Store.Readable (codec : JsonCodec) (store : Store) : Prop :=
  ∀ bytes, store.disk.preferences = some bytes → codec.read bytes ≠ none

/-- What a load has found out so far holds of the store. -/
def Load.Grounded (codec : JsonCodec) (store : Store) : Load → Prop
  | .reserving | .moving =>
      store.blocked = true ∧ ∃ bytes, store.disk.preferences = some bytes ∧ codec.read bytes = none
  | .returned (.ok _) => store.blocked = true ∨ store.Readable codec
  | .resolving | .listing | .probing | .reading | .returned (.error _) => True

def Save.Grounded (codec : JsonCodec) (store : Store) : Save → Prop
  | .loading load => load.Grounded codec store
  | .resolving | .listing | .creating | .writing | .promoting => store.Readable codec
  | .cleaning _ | .returned _ => True

theorem Store.readable_of_none (absent : store.disk.preferences = none) : store.Readable codec := by
  intro bytes present
  rw [absent] at present
  cases present

theorem Store.load_grounded : store.load.Grounded codec store := by
  unfold Store.load
  split
  · rename_i blocked
    exact .inl blocked
  · trivial

theorem loadStep_grounded (grounded : load.Grounded codec store) (io : Io) :
    (loadStep codec store load io).2.Grounded codec (loadStep codec store load io).1 := by
  cases load with
  | resolving =>
    cases io with
    | done => trivial
    | failed fault => trivial
  | listing =>
    cases io with
    | failed fault => trivial
    | done =>
      simp only [loadStep]
      split
      · exact .inl rfl
      · trivial
  | probing =>
    cases io with
    | failed fault => trivial
    | done =>
      simp only [loadStep]
      split
      · rename_i absent
        exact .inr (Store.readable_of_none absent)
      · trivial
  | reading =>
    cases io with
    | failed fault => trivial
    | done =>
      simp only [loadStep]
      cases present : store.disk.preferences with
      | none => trivial
      | some bytes =>
        dsimp only
        cases isRead : codec.read bytes with
        | none => exact ⟨rfl, bytes, present, isRead⟩
        | some preferences =>
          apply Or.inr
          intro other same
          rw [present] at same
          rw [← Option.some.inj same, isRead]
          simp
  | reserving =>
    rcases grounded with ⟨blocked, found⟩
    cases io with
    | done => exact ⟨blocked, found⟩
    | failed fault =>
      cases fault with
      | pathExists => exact ⟨blocked, found⟩
      | preserved => exact .inl blocked
      | other message => exact .inl blocked
  | moving =>
    rcases grounded with ⟨blocked, bytes, present, -⟩
    cases io with
    | failed fault => exact .inl blocked
    | done =>
      apply Or.inl
      unfold loadStep Store.moved
      rw [present]
      exact blocked
  | returned result =>
    cases io with
    | done => exact grounded
    | failed fault => exact grounded

/-- A load leaves the file as it is, or moves it aside, blocked, and returns. -/
theorem loadStep_keeps (grounded : load.Grounded codec store) (io : Io) :
    (loadStep codec store load io).1.written = store.written ∧
      ((loadStep codec store load io).1.disk.preferences = store.disk.preferences ∨
        ∃ bytes result, store.disk.preferences = some bytes ∧ codec.read bytes = none ∧
          bytes ∈ (loadStep codec store load io).1.disk.preserved ∧
          (loadStep codec store load io).1.blocked = true ∧
          (loadStep codec store load io).2 = .returned result) := by
  cases load with
  | resolving =>
    cases io with
    | done => exact ⟨rfl, .inl rfl⟩
    | failed fault => exact ⟨rfl, .inl rfl⟩
  | listing =>
    cases io with
    | failed fault => exact ⟨rfl, .inl rfl⟩
    | done =>
      simp only [loadStep]
      split
      · exact ⟨rfl, .inl rfl⟩
      · exact ⟨rfl, .inl rfl⟩
  | probing =>
    cases io with
    | failed fault => exact ⟨rfl, .inl rfl⟩
    | done =>
      simp only [loadStep]
      split
      · exact ⟨rfl, .inl rfl⟩
      · exact ⟨rfl, .inl rfl⟩
  | reading =>
    cases io with
    | failed fault => exact ⟨rfl, .inl rfl⟩
    | done =>
      simp only [loadStep]
      split
      · exact ⟨rfl, .inl rfl⟩
      · split
        · exact ⟨rfl, .inl rfl⟩
        · exact ⟨rfl, .inl rfl⟩
  | reserving =>
    cases io with
    | done => exact ⟨rfl, .inl rfl⟩
    | failed fault =>
      cases fault with
      | pathExists => exact ⟨rfl, .inl rfl⟩
      | preserved => exact ⟨rfl, .inl rfl⟩
      | other message => exact ⟨rfl, .inl rfl⟩
  | moving =>
    rcases grounded with ⟨blocked, bytes, present, unreadable⟩
    cases io with
    | failed fault => exact ⟨rfl, .inl rfl⟩
    | done =>
      unfold loadStep Store.moved
      rw [present]
      exact ⟨rfl, .inr ⟨bytes, _, rfl, unreadable, List.mem_cons_self, blocked,
        rfl⟩⟩
  | returned result =>
    cases io with
    | done => exact ⟨rfl, .inl rfl⟩
    | failed fault => exact ⟨rfl, .inl rfl⟩

/-- A save that has not looked at the file, or is through with it. -/
def Save.Quiet : Save → Prop
  | .loading (.returned _) | .returned _ => True
  | _ => False

theorem saveStep_loading {io : Io} (runs : ∀ result, load ≠ .returned result) :
    saveStep codec preferences store (.loading load) io =
      ((loadStep codec store load io).1, .loading (loadStep codec store load io).2) := by
  cases load with
  | returned result => exact absurd rfl (runs result)
  | resolving | listing | probing | reading | reserving | moving => rfl

theorem saveStep_grounded (grounded : save.Grounded codec store) (io : Io) :
    (saveStep codec preferences store save io).2.Grounded codec
      (saveStep codec preferences store save io).1 := by
  cases save with
  | loading load =>
    by_cases returns : ∃ result, load = .returned result
    · rcases returns with ⟨result, isReturned⟩
      rw [isReturned] at grounded ⊢
      cases result with
      | error fault => trivial
      | ok preferences =>
        simp only [saveStep]
        split
        · trivial
        · rename_i unblocked
          exact grounded.resolve_left unblocked
    · rw [saveStep_loading fun result same => returns ⟨result, same⟩]
      exact loadStep_grounded grounded io
  | resolving =>
    cases io with
    | done => exact grounded
    | failed fault => trivial
  | listing =>
    cases io with
    | failed fault => trivial
    | done =>
      simp only [saveStep]
      split
      · trivial
      · exact grounded
  | creating =>
    cases io with
    | done => exact grounded
    | failed fault => trivial
  | writing =>
    cases io with
    | done => exact grounded
    | failed fault => trivial
  | promoting =>
    cases io with
    | done => trivial
    | failed fault => trivial
  | cleaning fault => trivial
  | returned result => trivial

/-- While a save has not read the file, bytes that are no payload stay, or are moved aside. -/
theorem saveStep_unreadable (grounded : save.Grounded codec store)
    (present : store.disk.preferences = some bytes) (unreadable : codec.read bytes = none) (io : Io) :
    (saveStep codec preferences store save io).1.written = store.written ∧
      ((saveStep codec preferences store save io).1.disk.preferences = some bytes ∨
        bytes ∈ (saveStep codec preferences store save io).1.disk.preserved ∧
          (saveStep codec preferences store save io).1.blocked = true ∧
          (saveStep codec preferences store save io).2.Quiet) := by
  have never (readable : store.Readable codec) : False := readable bytes present unreadable
  cases save with
  | loading load =>
    by_cases returns : ∃ result, load = .returned result
    · rcases returns with ⟨result, isReturned⟩
      rw [isReturned]
      cases result with
      | error fault => exact ⟨rfl, .inl present⟩
      | ok preferences =>
        simp only [saveStep]
        split
        · exact ⟨rfl, .inl present⟩
        · exact ⟨rfl, .inl present⟩
    · rw [saveStep_loading fun result same => returns ⟨result, same⟩]
      rcases loadStep_keeps grounded io with ⟨written, kept | ⟨bytes', result, same, -, moved⟩⟩
      · exact ⟨written, .inl (kept.trans present)⟩
      · rw [present] at same
        rw [← Option.some.inj same] at moved
        rcases moved with ⟨inside, blocked, returned⟩
        refine ⟨written, .inr ⟨inside, blocked, ?_⟩⟩
        dsimp only
        rw [returned]
        trivial
  | resolving => exact (never grounded).elim
  | listing => exact (never grounded).elim
  | creating => exact (never grounded).elim
  | writing => exact (never grounded).elim
  | promoting => exact (never grounded).elim
  | cleaning fault => exact ⟨rfl, .inl present⟩
  | returned result => exact ⟨rfl, .inl present⟩

/-- Blocked, a save that has not looked at the file does nothing any more. -/
theorem saveStep_quiet (blocked : store.blocked = true) (quiet : save.Quiet) (io : Io) :
    (saveStep codec preferences store save io).1 = store ∧
      (saveStep codec preferences store save io).2.Quiet := by
  cases save with
  | loading load =>
    cases load with
    | returned result =>
      cases result with
      | error fault => exact ⟨rfl, trivial⟩
      | ok preferences =>
        simp only [saveStep, blocked, if_true]
        exact ⟨trivial, trivial⟩
    | resolving | listing | probing | reading | reserving | moving => exact quiet.elim
  | returned result => exact ⟨rfl, trivial⟩
  | resolving | listing | creating | writing | promoting | cleaning => exact quiet.elim

theorem loadStep_blocked (io : Io) (blocked : store.blocked = true) :
    (loadStep codec store load io).1.blocked = true := by
  cases load with
  | resolving | returned =>
    cases io with
    | done => exact blocked
    | failed fault => exact blocked
  | reserving =>
    cases io with
    | done => exact blocked
    | failed fault =>
      cases fault with
      | pathExists => exact blocked
      | preserved => exact blocked
      | other message => exact blocked
  | listing =>
    cases io with
    | failed fault => rfl
    | done =>
      simp only [loadStep]
      split
      · rfl
      · exact blocked
  | probing =>
    cases io with
    | failed fault => rfl
    | done =>
      simp only [loadStep]
      split
      · exact blocked
      · exact blocked
  | reading =>
    cases io with
    | failed fault => rfl
    | done =>
      simp only [loadStep]
      split
      · rfl
      · split
        · exact blocked
        · rfl
  | moving =>
    cases io with
    | failed fault => exact blocked
    | done => exact store.moved_blocked.trans blocked

/-- A store that is blocked stays so. -/
theorem saveStep_blocked (io : Io) (blocked : store.blocked = true) :
    (saveStep codec preferences store save io).1.blocked = true := by
  cases save with
  | loading load =>
    by_cases returns : ∃ result, load = .returned result
    · rcases returns with ⟨result, isReturned⟩
      rw [isReturned]
      cases result with
      | error fault => exact blocked
      | ok preferences =>
        simp only [saveStep, blocked, if_true]
    · rw [saveStep_loading fun result same => returns ⟨result, same⟩]
      exact loadStep_blocked io blocked
  | listing =>
    cases io with
    | failed fault => exact blocked
    | done =>
      simp only [saveStep]
      split
      · rfl
      · exact blocked
  | resolving | creating | writing | promoting | cleaning | returned =>
    cases io with
    | done => exact blocked
    | failed fault => exact blocked

/-- A save that goes through has put its payload in place; before, it keeps one that is there. -/
theorem saveStep_file (grounded : save.Grounded codec store) (io : Io) :
    ((saveStep codec preferences store save io).2 = .returned (.ok ()) → save ≠ .returned (.ok ()) →
      (saveStep codec preferences store save io).1.disk.preferences =
        some (codec.write preferences)) ∧
    (store.Readable codec →
      (saveStep codec preferences store save io).2 = .returned (.ok ()) ∨
        (saveStep codec preferences store save io).1.disk.preferences =
          store.disk.preferences) := by
  cases save with
  | loading load =>
    by_cases returns : ∃ result, load = .returned result
    · rcases returns with ⟨result, isReturned⟩
      rw [isReturned]
      cases result with
      | error fault => exact ⟨fun wrong _ => (by cases wrong), fun _ => .inr rfl⟩
      | ok preferences =>
        simp only [saveStep]
        split
        · exact ⟨fun wrong _ => (by cases wrong), fun _ => .inr rfl⟩
        · exact ⟨fun wrong _ => (by cases wrong), fun _ => .inr rfl⟩
    · rw [saveStep_loading fun result same => returns ⟨result, same⟩]
      refine ⟨fun wrong _ => (by cases wrong), ?_⟩
      intro readable
      rcases loadStep_keeps grounded io with ⟨-, kept | ⟨bytes, result, present, unreadable, -⟩⟩
      · exact .inr kept
      · exact absurd unreadable (readable bytes present)
  | resolving =>
    cases io with
    | done => exact ⟨fun wrong _ => (by cases wrong), fun _ => .inr rfl⟩
    | failed fault => exact ⟨fun wrong _ => (by cases wrong), fun _ => .inr rfl⟩
  | listing =>
    cases io with
    | failed fault => exact ⟨fun wrong _ => (by cases wrong), fun _ => .inr rfl⟩
    | done =>
      simp only [saveStep]
      split
      · exact ⟨fun wrong _ => (by cases wrong), fun _ => .inr rfl⟩
      · exact ⟨fun wrong _ => (by cases wrong), fun _ => .inr rfl⟩
  | creating =>
    cases io with
    | done => exact ⟨fun wrong _ => (by cases wrong), fun _ => .inr rfl⟩
    | failed fault => exact ⟨fun wrong _ => (by cases wrong), fun _ => .inr rfl⟩
  | writing =>
    cases io with
    | done => exact ⟨fun wrong _ => (by cases wrong), fun _ => .inr rfl⟩
    | failed fault => exact ⟨fun wrong _ => (by cases wrong), fun _ => .inr rfl⟩
  | promoting =>
    cases io with
    | done => exact ⟨fun _ _ => rfl, fun _ => .inl rfl⟩
    | failed fault => exact ⟨fun wrong _ => (by cases wrong), fun _ => .inr rfl⟩
  | cleaning fault => exact ⟨fun wrong _ => (by cases wrong), fun _ => .inr rfl⟩
  | returned result => exact ⟨fun same not_ => absurd same not_, fun _ => .inr rfl⟩

end Steps

end Burlmd.Preferences
