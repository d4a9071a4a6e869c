import Mathlib.Logic.Function.Basic
import Mathlib.Tactic.Common

/-!
# Write-back

A buffer has two stores. A row takes every edit under its number, and writers bring a file level with
the buffer behind the edits: a writer reads the buffer, publishes what it read, and clears the row
unless the row is newer. An edit that is under way has changed the buffer, and not the row yet.
-/

namespace Burlmd.WriteBack

universe u v

/-- What the stores have, and what the writers know of the buffer. -/
@[ext]
structure Stores (V : Type u) (ι : Type v) where
  /-- The newest edit that was stored, with its number. -/
  row : Option (V × Int)
  file : Option V
  /-- What a writer has read and has not written through yet. -/
  reads : ι → Option (V × Int)
  /-- Up to which number a writer still clears the row, though it is done with the file. -/
  clears : ι → Option Int

/-- How far the writers have come with an edit that is under way. -/
inductive Seen where
  | unread
  | read
  /-- It is in the file, and the row is gone. -/
  | cleared
  deriving DecidableEq

def Seen.onRead : Seen → Seen
  | unread | read => read
  | cleared => cleared

def Seen.onClear : Seen → Seen
  | unread => unread
  | read | cleared => cleared

/-- What the buffer is between two edits, or during one. -/
inductive Phase (V : Type u) where
  | quiet (x : V) (n : Int)
  | pending (seen : Seen) (x : V) (n : Int) (y : V)

namespace Phase

variable {V : Type u}

/-- What the buffer is, with the number of the edit it comes from. -/
def buffer : Phase V → V × Int
  | quiet x n => (x, n)
  | pending _ _ n y => (y, n + 1)

/-- The writers come on with the edit that is under way, if one is. -/
def advance (come : Seen → Seen) : Phase V → Phase V
  | quiet x n => quiet x n
  | pending seen x n y => pending (come seen) x n y

theorem advance_id (phase : Phase V) : phase.advance id = phase := by
  cases phase with
  | quiet x n => rfl
  | pending seen x n y => rfl

end Phase

namespace Stores

variable {V : Type u} {ι : Type v} [DecidableEq ι] {s : Stores V ι} {x y z w : V} {n k : Int} {i : ι}
  {seen : Seen} {phase : Phase V}

/-- What a restart finds. The row is preferred. -/
def recovered (s : Stores V ι) : Option V := (s.row.map Prod.fst).or s.file

/-- What a writer knows changes. -/
def hold (s : Stores V ι) (i : ι) (read : Option (V × Int)) (clear : Option Int) : Stores V ι :=
  { s with reads := Function.update s.reads i read, clears := Function.update s.clears i clear }

def publish (s : Stores V ι) (w : V) : Stores V ι := { s with file := some w }

def store (s : Stores V ι) (y : V) (n : Int) : Stores V ι := { s with row := some (y, n) }

def clearThrough (s : Stores V ι) (k : Int) : Stores V ι :=
  { s with row := s.row.filter fun row => k < row.2 }

/-! ## What fits a phase -/

/-- The buffer is stored, and no writer knows of anything newer. -/
structure Quiet (s : Stores V ι) (x : V) (n : Int) : Prop where
  row : s.row = some (x, n) ∨
    s.row = none ∧ s.file = some x ∧ ∀ i w k, s.reads i = some (w, k) → k = n
  reads : ∀ i w k, s.reads i = some (w, k) → k ≤ n ∧ (k = n → w = x)
  clears : ∀ i k, s.clears i = some k → k ≤ n ∧
    (k = n → s.file = some x ∧ ∀ j w m, s.reads j = some (w, m) → m = n)

/-- A writer has read the edit that is under way. The row is about the text before it. -/
structure Overlapped (s : Stores V ι) (x : V) (n : Int) (y : V) : Prop where
  row : s.row = some (x, n) ∨ s.row = none ∧ (s.file = some x ∨ s.file = some y)
  reads : ∀ i w k, s.reads i = some (w, k) → w = y ∧ k = n + 1
  clears : ∀ i k, s.clears i = some k → k ≤ n + 1 ∧
    (k = n → s.file = some x ∨ s.file = some y) ∧ (k = n + 1 → s.file = some y)

/-- A writer has written the edit through. -/
structure Covered (s : Stores V ι) (n : Int) (y : V) : Prop where
  row : s.row = none
  file : s.file = some y
  reads : ∀ i w k, s.reads i = some (w, k) → w = y ∧ k = n + 1
  clears : ∀ i k, s.clears i = some k → k ≤ n + 1

def Fits (s : Stores V ι) : Phase V → Prop
  | .quiet x n => s.Quiet x n
  | .pending .unread x n _ => s.Quiet x n
  | .pending .read x n y => s.Overlapped x n y
  | .pending .cleared _ n y => s.Covered n y

omit [DecidableEq ι] in
theorem Quiet.recovered (quiet : s.Quiet x n) : s.recovered = some x := by
  unfold Stores.recovered
  rcases quiet.row with stored | ⟨gone, file, -⟩
  · rw [stored]
    rfl
  · rw [gone, file]
    rfl

omit [DecidableEq ι] in
theorem Overlapped.recovered (overlapped : s.Overlapped x n y) :
    s.recovered = some x ∨ s.recovered = some y := by
  unfold Stores.recovered
  rcases overlapped.row with stored | ⟨gone, file | file⟩
  · rw [stored]
    exact Or.inl rfl
  · rw [gone, file]
    exact Or.inl rfl
  · rw [gone, file]
    exact Or.inr rfl

omit [DecidableEq ι] in
theorem Covered.recovered (covered : s.Covered n y) : s.recovered = some y := by
  unfold Stores.recovered
  rw [covered.row, covered.file]
  rfl

/-! ## Edits -/

omit [DecidableEq ι] in
/-- The row is older than the edit that is under way. -/
theorem Fits.older (fits : s.Fits (.pending seen x n y)) (stored : s.row = some (w, k)) : k < n + 1 := by
  have isNumber (row : s.row = some (x, n)) : k < n + 1 := by
    rw [stored] at row
    rw [(Prod.mk.inj (Option.some.inj row)).2]
    exact Int.lt_succ n
  have isGone (row : s.row = none) : k < n + 1 := by
    rw [stored] at row
    cases row
  cases seen with
  | unread =>
    have quiet : s.Quiet x n := fits
    exact quiet.row.elim isNumber fun gone => isGone gone.1
  | read =>
    have overlapped : s.Overlapped x n y := fits
    exact overlapped.row.elim isNumber fun gone => isGone gone.1
  | cleared =>
    have covered : s.Covered n y := fits
    exact isGone covered.row

omit [DecidableEq ι] in
/-- An edit that is stored is the buffer, whoever has read it. -/
theorem Fits.store (fits : s.Fits (.pending seen x n y)) : (s.store y (n + 1)).Fits (.quiet y (n + 1)) := by
  cases seen with
  | unread =>
    have quiet : s.Quiet x n := fits
    refine ⟨Or.inl rfl, ?_, ?_⟩
    · intro i w k read
      rcases quiet.reads i w k read with ⟨older, -⟩
      exact ⟨by omega, fun same => by omega⟩
    · intro i k clear
      rcases quiet.clears i k clear with ⟨older, -⟩
      exact ⟨by omega, fun same => by omega⟩
  | read =>
    have overlapped : s.Overlapped x n y := fits
    refine ⟨Or.inl rfl, ?_, ?_⟩
    · intro i w k read
      rcases overlapped.reads i w k read with ⟨isText, isNumber⟩
      exact ⟨Int.le_of_eq isNumber, fun _ => isText⟩
    · intro i k clear
      rcases overlapped.clears i k clear with ⟨older, -, newest⟩
      exact ⟨older, fun same => ⟨newest same, fun j w m read => (overlapped.reads j w m read).2⟩⟩
  | cleared =>
    have covered : s.Covered n y := fits
    refine ⟨Or.inl rfl, ?_, ?_⟩
    · intro i w k read
      rcases covered.reads i w k read with ⟨isText, isNumber⟩
      exact ⟨Int.le_of_eq isNumber, fun _ => isText⟩
    · intro i k clear
      exact ⟨covered.clears i k clear,
        fun _ => ⟨covered.file, fun j w m read => (covered.reads j w m read).2⟩⟩

omit [DecidableEq ι] in
/-- An edit that was written through needs no row. -/
theorem Fits.keep (fits : s.Fits (.pending .cleared x n y)) : s.Fits (.quiet y (n + 1)) := by
  have covered : s.Covered n y := fits
  refine ⟨Or.inr ⟨covered.row, covered.file, ?_⟩, ?_, ?_⟩
  · intro i w k read
    exact (covered.reads i w k read).2
  · intro i w k read
    rcases covered.reads i w k read with ⟨isText, isNumber⟩
    exact ⟨Int.le_of_eq isNumber, fun _ => isText⟩
  · intro i k clear
    exact ⟨covered.clears i k clear,
      fun _ => ⟨covered.file, fun j w m read => (covered.reads j w m read).2⟩⟩

omit [DecidableEq ι] in
/-- The row goes for the sake of the file, which no writer is about to change. -/
theorem Fits.discard (fits : s.Fits (.quiet x n)) (file : s.file = some z) (alone : ∀ i, s.reads i = none) :
    ({ s with row := none } : Stores V ι).Fits (.quiet z n) := by
  have quiet : s.Quiet x n := fits
  have unread (i : ι) (w : V) (k : Int) (read : s.reads i = some (w, k)) : False := by
    rw [alone i] at read
    cases read
  refine ⟨Or.inr ⟨rfl, file, ?_⟩, ?_, ?_⟩
  · intro i w k read
    exact (unread i w k read).elim
  · intro i w k read
    exact (unread i w k read).elim
  · intro i k clear
    exact ⟨(quiet.clears i k clear).1, fun _ => ⟨file, fun j w m read => (unread j w m read).elim⟩⟩

/-! ## Writers -/

theorem hold_reads {read : Option (V × Int)} {clear : Option Int} (j : ι) :
    (s.hold i read clear).reads j = if j = i then read else s.reads j :=
  Function.update_apply s.reads i read j

theorem hold_clears {read : Option (V × Int)} {clear : Option Int} (j : ι) :
    (s.hold i read clear).clears j = if j = i then clear else s.clears j :=
  Function.update_apply s.clears i clear j

/-- No writer but one has read anything. -/
def Alone (s : Stores V ι) (i : ι) : Prop := ∀ j, j ≠ i → s.reads j = none

omit [DecidableEq ι] in
/-- Stores in which writers know less. -/
theorem Fits.mono {s' : Stores V ι} (fits : s.Fits phase) (row : s'.row = s.row) (file : s'.file = s.file)
    (reads : ∀ i read, s'.reads i = some read → s.reads i = some read)
    (clears : ∀ i k, s'.clears i = some k → s.clears i = some k) : s'.Fits phase := by
  have quietly {x : V} {n : Int} (quiet : s.Quiet x n) : s'.Quiet x n := by
    constructor
    · rw [row, file]
      rcases quiet.row with stored | ⟨gone, isFile, same⟩
      · exact Or.inl stored
      · exact Or.inr ⟨gone, isFile, fun i w k read => same i w k (reads i _ read)⟩
    · intro i w k read
      exact quiet.reads i w k (reads i _ read)
    · intro i k clear
      rcases quiet.clears i k (clears i k clear) with ⟨older, newest⟩
      rw [file]
      exact ⟨older, fun same => ⟨(newest same).1, fun j w m read => (newest same).2 j w m (reads j _ read)⟩⟩
  cases phase with
  | quiet x n => exact quietly fits
  | pending seen x n y =>
    cases seen with
    | unread => exact quietly fits
    | read =>
      have overlapped : s.Overlapped x n y := fits
      constructor
      · rw [row, file]
        exact overlapped.row
      · intro i w k read
        exact overlapped.reads i w k (reads i _ read)
      · intro i k clear
        rw [file]
        exact overlapped.clears i k (clears i k clear)
    | cleared =>
      have covered : s.Covered n y := fits
      refine ⟨row.trans covered.row, file.trans covered.file, ?_, ?_⟩
      · intro i w k read
        exact covered.reads i w k (reads i _ read)
      · intro i k clear
        exact covered.clears i k (clears i k clear)

/-- A writer lets go of what it has read. -/
theorem Fits.forget (fits : s.Fits phase) (i : ι) : (s.hold i none none).Fits phase := by
  have row : (s.hold i none none).row = s.row := rfl
  apply fits.mono row rfl
  · intro j read
    rw [hold_reads]
    by_cases same : j = i
    · rw [if_pos same]
      intro isRead
      cases isRead
    · rw [if_neg same]
      exact id
  · intro j k
    rw [hold_clears]
    by_cases same : j = i
    · rw [if_pos same]
      intro isClear
      cases isClear
    · rw [if_neg same]
      exact id

/-- A writer keeps what it has read. -/
theorem Fits.rehold (fits : s.Fits phase) (i : ι) : (s.hold i (s.reads i) none).Fits phase := by
  have row : (s.hold i (s.reads i) none).row = s.row := rfl
  apply fits.mono row rfl
  · intro j read
    rw [hold_reads]
    by_cases same : j = i
    · rw [if_pos same, same]
      exact id
    · rw [if_neg same]
      exact id
  · intro j k
    rw [hold_clears]
    by_cases same : j = i
    · rw [if_pos same]
      intro isClear
      cases isClear
    · rw [if_neg same]
      exact id

/-- A writer reads the buffer, and no other has. -/
theorem Fits.read (fits : s.Fits phase) (i : ι) (alone : ∀ j, s.reads j = none) :
    (s.hold i (some phase.buffer) none).Fits (phase.advance Seen.onRead) := by
  have only {x : V} {n : Int} (j : ι) (w : V) (k : Int)
      (read : (s.hold i (some (x, n)) none).reads j = some (w, k)) : w = x ∧ k = n := by
    rw [hold_reads] at read
    by_cases same : j = i
    · rw [if_pos same] at read
      obtain ⟨rfl, rfl⟩ := Prod.mk.inj (Option.some.inj read)
      exact ⟨rfl, rfl⟩
    · rw [if_neg same, alone j] at read
      cases read
  have clears {read : Option (V × Int)} (j : ι) (k : Int) (clear : (s.hold i read none).clears j = some k) :
      s.clears j = some k := by
    rw [hold_clears] at clear
    by_cases same : j = i
    · rw [if_pos same] at clear
      cases clear
    · rwa [if_neg same] at clear
  cases phase with
  | quiet x n =>
    have quiet : s.Quiet x n := fits
    constructor
    · rcases quiet.row with stored | ⟨gone, file, -⟩
      · exact Or.inl stored
      · exact Or.inr ⟨gone, file, fun j w k read => (only j w k read).2⟩
    · intro j w k read
      rcases only j w k read with ⟨isText, isNumber⟩
      exact ⟨Int.le_of_eq isNumber, fun _ => isText⟩
    · intro j k clear
      rcases quiet.clears j k (clears j k clear) with ⟨older, newest⟩
      exact ⟨older, fun same => ⟨(newest same).1, fun j w m read => (only j w m read).2⟩⟩
  | pending seen x n y =>
    cases seen with
    | unread =>
      have quiet : s.Quiet x n := fits
      constructor
      · rcases quiet.row with stored | ⟨gone, file, -⟩
        · exact Or.inl stored
        · exact Or.inr ⟨gone, Or.inl file⟩
      · exact fun j w k read => only j w k read
      · intro j k clear
        rcases quiet.clears j k (clears j k clear) with ⟨older, newest⟩
        exact ⟨by omega, fun same => Or.inl (newest same).1, fun same => by omega⟩
    | read =>
      have overlapped : s.Overlapped x n y := fits
      exact ⟨overlapped.row, fun j w k read => only j w k read,
        fun j k clear => overlapped.clears j k (clears j k clear)⟩
    | cleared =>
      have covered : s.Covered n y := fits
      exact ⟨covered.row, covered.file, fun j w k read => only j w k read,
        fun j k clear => covered.clears j k (clears j k clear)⟩

omit [DecidableEq ι] in
/-- A writer publishes what it has read. -/
theorem Fits.publish (fits : s.Fits phase) (held : s.reads i = some (w, k)) : (s.publish w).Fits phase := by
  have quietly {x : V} {n : Int} (quiet : s.Quiet x n) : (s.publish w).Quiet x n := by
    have newest (same : k = n) : (s.publish w).file = some x :=
      congrArg some ((quiet.reads i w k held).2 same)
    refine ⟨?_, quiet.reads, ?_⟩
    · rcases quiet.row with stored | ⟨gone, -, same⟩
      · exact Or.inl stored
      · exact Or.inr ⟨gone, newest (same i w k held), same⟩
    · intro j m clear
      rcases quiet.clears j m clear with ⟨older, all⟩
      exact ⟨older, fun same => ⟨newest ((all same).2 i w k held), (all same).2⟩⟩
  cases phase with
  | quiet x n => exact quietly fits
  | pending seen x n y =>
    cases seen with
    | unread => exact quietly fits
    | read =>
      have overlapped : s.Overlapped x n y := fits
      have file : (s.publish w).file = some y := congrArg some (overlapped.reads i w k held).1
      refine ⟨?_, overlapped.reads, ?_⟩
      · rcases overlapped.row with stored | ⟨gone, -⟩
        · exact Or.inl stored
        · exact Or.inr ⟨gone, Or.inr file⟩
      · intro j m clear
        exact ⟨(overlapped.clears j m clear).1, fun _ => Or.inr file, fun _ => file⟩
    | cleared =>
      have covered : s.Covered n y := fits
      exact ⟨covered.row, congrArg some (covered.reads i w k held).1, covered.reads, covered.clears⟩

omit [DecidableEq ι] in
theorem clearThrough_newer (stored : s.row = some (x, n)) (newer : k < n) :
    (s.clearThrough k).row = some (x, n) := by
  unfold clearThrough
  dsimp only
  rw [stored, Option.filter_some, if_pos]
  exact decide_eq_true newer

omit [DecidableEq ι] in
theorem clearThrough_older (stored : s.row = some (x, n)) (older : n ≤ k) : (s.clearThrough k).row = none := by
  unfold clearThrough
  dsimp only
  rw [stored, Option.filter_some, if_neg]
  rw [decide_eq_true_eq]
  omega

omit [DecidableEq ι] in
theorem clearThrough_none (gone : s.row = none) : (s.clearThrough k).row = none := by
  unfold clearThrough
  dsimp only
  rw [gone]
  rfl

omit [DecidableEq ι] in
/-- A writer that has published clears the row. -/
theorem Fits.clear (fits : s.Fits phase) (held : s.reads i = some (w, k)) (alone : s.Alone i)
    (published : s.file = some w) : (s.clearThrough k).Fits (phase.advance Seen.onClear) := by
  have only (j : ι) (v : V) (m : Int) (read : s.reads j = some (v, m)) : m = k := by
    by_cases same : j = i
    · rw [same, held] at read
      exact (Prod.mk.inj (Option.some.inj read)).2.symm
    · rw [alone j same] at read
      cases read
  have quietly {x : V} {n : Int} (quiet : s.Quiet x n) : (s.clearThrough k).Quiet x n := by
    rcases quiet.reads i w k held with ⟨older, newest⟩
    refine ⟨?_, quiet.reads, quiet.clears⟩
    rcases quiet.row with stored | ⟨gone, file, same⟩
    · by_cases newer : k < n
      · exact Or.inl (clearThrough_newer stored newer)
      · have isNumber : k = n := by omega
        refine Or.inr ⟨clearThrough_older stored (by omega), ?_, ?_⟩
        · rw [← newest isNumber]
          exact published
        · intro j v m read
          exact (only j v m read).trans isNumber
    · exact Or.inr ⟨clearThrough_none gone, file, same⟩
  cases phase with
  | quiet x n => exact quietly fits
  | pending seen x n y =>
    cases seen with
    | unread => exact quietly fits
    | read =>
      have overlapped : s.Overlapped x n y := fits
      rcases overlapped.reads i w k held with ⟨isText, isNumber⟩
      refine ⟨?_, ?_, overlapped.reads, fun j m clear => (overlapped.clears j m clear).1⟩
      · rcases overlapped.row with stored | ⟨gone, -⟩
        · exact clearThrough_older stored (by omega)
        · exact clearThrough_none gone
      · rw [← isText]
        exact published
    | cleared =>
      have covered : s.Covered n y := fits
      exact ⟨clearThrough_none covered.row, covered.file, covered.reads, covered.clears⟩

/-- A writer that is done with the file goes on to clear the row once more. -/
theorem Fits.pend (fits : s.Fits phase) (held : s.reads i = some (w, k)) (alone : s.Alone i)
    (published : s.file = some w) : (s.hold i none (some k)).Fits phase := by
  have unread (j : ι) (v : V) (m : Int) (read : (s.hold i none (some k)).reads j = some (v, m)) : False := by
    rw [hold_reads] at read
    by_cases same : j = i
    · rw [if_pos same] at read
      cases read
    · rw [if_neg same, alone j same] at read
      cases read
  have cases_ (j : ι) (m : Int) (clear : (s.hold i none (some k)).clears j = some m) :
      m = k ∨ s.clears j = some m := by
    rw [hold_clears] at clear
    by_cases same : j = i
    · rw [if_pos same] at clear
      exact Or.inl (Option.some.inj clear).symm
    · rw [if_neg same] at clear
      exact Or.inr clear
  have quietly {x : V} {n : Int} (quiet : s.Quiet x n) : (s.hold i none (some k)).Quiet x n := by
    rcases quiet.reads i w k held with ⟨older, newest⟩
    refine ⟨?_, fun j v m read => (unread j v m read).elim, ?_⟩
    · rcases quiet.row with stored | ⟨gone, file, -⟩
      · exact Or.inl stored
      · exact Or.inr ⟨gone, file, fun j v m read => (unread j v m read).elim⟩
    · intro j m clear
      rcases cases_ j m clear with rfl | clear
      · refine ⟨older, fun same => ⟨?_, fun j v m read => (unread j v m read).elim⟩⟩
        rw [← newest same]
        exact published
      · rcases quiet.clears j m clear with ⟨older, all⟩
        exact ⟨older, fun same => ⟨(all same).1, fun j v m read => (unread j v m read).elim⟩⟩
  cases phase with
  | quiet x n => exact quietly fits
  | pending seen x n y =>
    cases seen with
    | unread => exact quietly fits
    | read =>
      have overlapped : s.Overlapped x n y := fits
      rcases overlapped.reads i w k held with ⟨isText, isNumber⟩
      refine ⟨overlapped.row, fun j v m read => (unread j v m read).elim, ?_⟩
      intro j m clear
      rcases cases_ j m clear with rfl | clear
      · exact ⟨Int.le_of_eq isNumber, fun same => by omega, fun _ => isText ▸ published⟩
      · exact overlapped.clears j m clear
    | cleared =>
      have covered : s.Covered n y := fits
      refine ⟨covered.row, covered.file, fun j v m read => (unread j v m read).elim, ?_⟩
      intro j m clear
      rcases cases_ j m clear with rfl | clear
      · exact Int.le_of_eq (covered.reads i w m held).2
      · exact covered.clears j m clear

omit [DecidableEq ι] in
/-- A writer clears the row once more. -/
theorem Fits.clearAgain (fits : s.Fits phase) (pending : s.clears i = some k) : (s.clearThrough k).Fits phase := by
  have quietly {x : V} {n : Int} (quiet : s.Quiet x n) : (s.clearThrough k).Quiet x n := by
    rcases quiet.clears i k pending with ⟨older, newest⟩
    refine ⟨?_, quiet.reads, quiet.clears⟩
    rcases quiet.row with stored | ⟨gone, file, same⟩
    · by_cases newer : k < n
      · exact Or.inl (clearThrough_newer stored newer)
      · have isNumber : k = n := by omega
        exact Or.inr ⟨clearThrough_older stored (by omega), newest isNumber⟩
    · exact Or.inr ⟨clearThrough_none gone, file, same⟩
  cases phase with
  | quiet x n => exact quietly fits
  | pending seen x n y =>
    cases seen with
    | unread => exact quietly fits
    | read =>
      have overlapped : s.Overlapped x n y := fits
      rcases overlapped.clears i k pending with ⟨older, same, newest⟩
      refine ⟨?_, overlapped.reads, overlapped.clears⟩
      rcases overlapped.row with stored | ⟨gone, file⟩
      · by_cases newer : k < n
        · exact Or.inl (clearThrough_newer stored newer)
        · refine Or.inr ⟨clearThrough_older stored (by omega), ?_⟩
          by_cases isNumber : k = n
          · exact same isNumber
          · exact Or.inr (newest (by omega))
      · exact Or.inr ⟨clearThrough_none gone, file⟩
    | cleared =>
      have covered : s.Covered n y := fits
      exact ⟨clearThrough_none covered.row, covered.file, covered.reads, covered.clears⟩

omit [DecidableEq ι] in
/-- Where there is a row and no writer is at work, the file may be anything. -/
theorem Fits.replace (fits : s.Fits phase) (stored : s.row.isSome) (unread : ∀ i, s.reads i = none)
    (done : ∀ i, s.clears i = none) (file : Option V) : ({ s with file } : Stores V ι).Fits phase := by
  have reads (j : ι) (v : V) (m : Int) (read : s.reads j = some (v, m)) : False := by
    rw [unread j] at read
    cases read
  have clears (j : ι) (m : Int) (clear : s.clears j = some m) : False := by
    rw [done j] at clear
    cases clear
  have quietly {x : V} {n : Int} (quiet : s.Quiet x n) : ({ s with file } : Stores V ι).Quiet x n := by
    refine ⟨?_, quiet.reads, fun j m clear => (clears j m clear).elim⟩
    rcases quiet.row with isRow | ⟨gone, -⟩
    · exact Or.inl isRow
    · rw [gone] at stored
      cases stored
  cases phase with
  | quiet x n => exact quietly fits
  | pending seen x n y =>
    cases seen with
    | unread => exact quietly fits
    | read =>
      have overlapped : s.Overlapped x n y := fits
      refine ⟨?_, overlapped.reads, fun j m clear => (clears j m clear).elim⟩
      rcases overlapped.row with isRow | ⟨gone, -⟩
      · exact Or.inl isRow
      · rw [gone] at stored
        cases stored
    | cleared =>
      have covered : s.Covered n y := fits
      rw [covered.row] at stored
      cases stored

end Stores

end Burlmd.WriteBack
