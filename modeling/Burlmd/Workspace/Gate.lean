import Mathlib.Data.Char
import Mathlib.Data.List.Count
import Mathlib.Data.List.Lex
import Mathlib.Data.List.Sort
import Mathlib.Tactic.Common
import Burlmd.Library.Machine
import Burlmd.Okf.Links

/-!
# Lifecycle admission

The lifecycle lock of one Workspace, the edit leases its gate admits, and the write
locks of its open sessions. A thread takes one step at a time, and what the source does
under the admission mutex is one step.
-/

namespace Burlmd.Workspace

open Utf8 (Text)
open Okf (ConceptId)

abbrev Thread := Nat

/-- `inner` is the identity of the shared session state. -/
structure NoteSession where
  inner : Nat
  note_id : ConceptId
  deriving DecidableEq, Repr

structure SessionKey where
  workspace : Text
  note : ConceptId
  deriving DecidableEq, Repr

abbrev SessionMap := List (SessionKey × NoteSession)

namespace SessionMap

def insert (registry : SessionMap) (key : SessionKey) (session : NoteSession) : SessionMap :=
  (key, session) :: registry.filter (·.1 ≠ key)

def remove (registry : SessionMap) (key : SessionKey) : SessionMap :=
  registry.filter (·.1 ≠ key)

end SessionMap

structure EditAdmission where
  active : Bool
  leases : Nat
  /-- The mutex around the admission was held by a thread that panicked. -/
  poisoned : Bool
  deriving DecidableEq, Repr

structure EditLease where
  thread : Thread
  counted : Bool
  /-- Dropped from the thread's depth, and not from the count yet. -/
  dropping : Bool
  deriving DecidableEq, Repr

/-- How a lifecycle body returns. -/
inductive Outcome
  | normal
  | error
  | unwinding
  deriving DecidableEq, Repr

/-- Where a thread stands in `with_lifecycle_lock_id`. -/
inductive Operation
  | outside
  /-- Holds the lifecycle lock. -/
  | locked
  /-- The gate is closed; the wait loop reads the lease count. -/
  | waiting (asleep : Bool)
  | body
  /-- The body has returned and its gate guard has not been dropped. -/
  | returned (outcome : Outcome)
  /-- The gate guard has been dropped and the lifecycle lock is still held. -/
  | reopened
  deriving DecidableEq, Repr

namespace Operation

/-- The thread owns the action that reopens the gate. -/
def gated : Operation → Bool
  | waiting _ | body | returned _ => true
  | _ => false

/-- The thread runs code of its own. -/
def running : Operation → Bool
  | outside | body => true
  | _ => false

/-- `notify_all` on the admission's condition variable. -/
def notified : Operation → Operation
  | waiting _ => waiting false
  | other => other

end Operation

/-- Where a thread stands in `with_write_locks_hooked`. -/
inductive LockedCall
  | outside
  /-- Takes the write locks of `todo` in order, and has those of `held`. -/
  | acquiring (attempts : Nat) (held todo : List NoteSession)
  /-- The registry held no other session; the body comes next. -/
  | calling (locked : List NoteSession)
  | body (locked : List NoteSession)
  /-- Drops the guards of `held`, then tries again with `next`. -/
  | releasing (held : List NoteSession) (next : Option (Nat × List NoteSession))
  deriving DecidableEq, Repr

namespace LockedCall

def running : LockedCall → Bool
  | outside | body _ => true
  | _ => false

/-- The sessions whose guards the call owns. -/
def held : LockedCall → List NoteSession
  | outside => []
  | acquiring _ held _ => held
  | calling locked | body locked => locked
  | releasing held _ => held

end LockedCall

def lockSnapshotAttempts : Nat := 64

structure Coordination where
  lock : Option Thread
  admission : EditAdmission
  live : List EditLease
  depths : Thread → Option Nat
  operation : Thread → Operation
  registry : SessionMap
  /-- The owner of a session's write lock. -/
  write_lock : Nat → Option Thread
  locked_call : Thread → LockedCall

namespace Coordination

/-- A Workspace no thread has used. -/
def initial : Coordination where
  lock := none
  admission := ⟨false, 0, false⟩
  live := []
  depths := fun _ => none
  operation := fun _ => .outside
  registry := []
  write_lock := fun _ => none
  locked_call := fun _ => .outside

/-- The thread runs code of its own: it is inside no call modelled step by step. -/
def free (c : Coordination) (t : Thread) : Bool :=
  (c.operation t).running && (c.locked_call t).running &&
    c.live.all fun lease => lease.thread ≠ t || !lease.dropping

/-! ## Edit leases -/

def edit_lease_is_held (c : Coordination) (t : Thread) : Bool := (c.depths t).isSome

def edit_lease_enter (c : Coordination) (t : Thread) : Coordination :=
  { c with depths := Function.update c.depths t (some ((c.depths t).getD 0 + 1)) }

inductive Admission
  /-- The thread already holds a lease. -/
  | borrowed
  | admitted
  /-- A lifecycle operation is in progress. -/
  | refused
  | poisoned
  deriving DecidableEq, Repr

/-- What `edit_lease` answers on a thread. -/
def admits (c : Coordination) (t : Thread) : Admission :=
  if c.edit_lease_is_held t then .borrowed
  else if c.admission.poisoned then .poisoned
  else if c.admission.active then .refused
  else .admitted

def edit_lease (c : Coordination) (t : Thread) : Coordination :=
  match c.admits t with
  | .borrowed => { c.edit_lease_enter t with live := ⟨t, false, false⟩ :: c.live }
  | .admitted =>
      { c.edit_lease_enter t with
        live := ⟨t, true, false⟩ :: c.live
        admission := { c.admission with leases := c.admission.leases + 1 } }
  | .refused | .poisoned => c

/-- `edit_lease_exit`: `none` is a failed expectation. -/
def edit_lease_exit (c : Coordination) (t : Thread) : Option Coordination :=
  match c.depths t with
  | none | some 0 => none
  | some (depth + 1) =>
      some { c with depths := Function.update c.depths t (if depth = 0 then none else some depth) }

/-- The part of `EditLease::drop` outside the admission mutex. -/
def drop_lease (c : Coordination) (lease : EditLease) : Option Coordination :=
  (c.edit_lease_exit lease.thread).map fun c =>
    { c with
      live := if lease.counted then { lease with dropping := true } :: c.live.erase lease
        else c.live.erase lease }

def notify_all (c : Coordination) : Coordination :=
  { c with operation := fun t => (c.operation t).notified }

/-- The part of `EditLease::drop` under the admission mutex. -/
def settle_lease (c : Coordination) (lease : EditLease) : Coordination :=
  if c.admission.leases = 0 then
    -- the expectation fails with the mutex held
    { c with admission := { c.admission with poisoned := true } }
  else
    let settled : Coordination :=
      { c with
        live := c.live.erase lease
        admission := { c.admission with leases := c.admission.leases - 1 } }
    if settled.admission.leases = 0 then settled.notify_all else settled

/-! ## Lifecycle operations -/

def move (c : Coordination) (t : Thread) (operation : Operation) : Coordination :=
  { c with operation := Function.update c.operation t operation }

/-- `ActiveEditGate::drop`. -/
def open_gate (c : Coordination) (t : Thread) : Coordination :=
  { (c.notify_all.move t .reopened) with admission := { c.admission with active := false } }

/-! ## Write locks -/

variable (workspace : Text)

/-- The sessions of the Workspace that are not among `held`, by identity. -/
def sessions_not_among (c : Coordination) (held : List NoteSession) : List NoteSession :=
  ((c.registry.filter (·.1.workspace = workspace)).map Prod.snd).filter
    fun candidate => !held.any (·.inner = candidate.inner)

/-- `sort_by` on the concept id. -/
def sorted (sessions : List NoteSession) : List NoteSession :=
  sessions.insertionSort fun a b => a.note_id ≤ b.note_id

def shift (c : Coordination) (t : Thread) (call : LockedCall) : Coordination :=
  { c with locked_call := Function.update c.locked_call t call }

end Coordination

inductive Action
  | editLease (t : Thread)
  | dropLease (lease : EditLease)
  | settleLease (lease : EditLease)
  | lockLifecycle (t : Thread)
  | closeGate (t : Thread)
  | awaitLeases (t : Thread)
  | wake (t : Thread)
  | finishBody (t : Thread) (outcome : Outcome)
  | openGate (t : Thread)
  | unlockLifecycle (t : Thread)
  /-- A lifecycle body puts a session into the registry. -/
  | install (t : Thread) (key : SessionKey) (session : NoteSession)
  /-- A session leaves the registry, as when it is closed. -/
  | remove (t : Thread) (key : SessionKey)
  /-- One write lock, as a tier 2 writer takes it. -/
  | lockWrites (t : Thread) (session : NoteSession)
  | unlockWrites (t : Thread) (session : NoteSession)
  | withWriteLocks (t : Thread)
  | acquireNext (t : Thread)
  /-- A poisoned write lock, or a poisoned registry where the call reads it again. -/
  | acquireFails (t : Thread)
  | recheck (t : Thread)
  | callBody (t : Thread)
  | bodyReturns (t : Thread)
  | releaseNext (t : Thread)
  deriving DecidableEq, Repr

namespace Coordination

def step (workspace : Text) (c : Coordination) : Action → Option Coordination
  | .editLease t => if c.free t then some (c.edit_lease t) else none
  | .dropLease lease =>
      if c.free lease.thread && lease ∈ c.live && !lease.dropping then c.drop_lease lease else none
  | .settleLease lease =>
      if lease ∈ c.live && lease.dropping then some (c.settle_lease lease) else none
  | .lockLifecycle t =>
      if c.free t && c.lock = none then some { c.move t .locked with lock := some t } else none
  | .closeGate t =>
      if c.operation t = .locked then
        if c.admission.poisoned then some (c.move t .reopened)
        else
          some { c.move t (.waiting false) with
            admission := { c.admission with active := true } }
      else none
  | .awaitLeases t =>
      if c.operation t = .waiting false then
        if c.admission.leases = 0 then some (c.move t .body)
        else if c.admission.poisoned then some (c.move t (.returned .error))
        else some (c.move t (.waiting true))
      else none
  | .wake t => if c.operation t = .waiting true then some (c.move t (.waiting false)) else none
  | .finishBody t outcome =>
      if c.free t && c.operation t = .body && c.locked_call t = .outside then
        some (c.move t (.returned outcome))
      else none
  | .openGate t =>
      match c.operation t with
      | .returned _ => some (c.open_gate t)
      | _ => none
  | .unlockLifecycle t =>
      if c.operation t = .reopened then some { c.move t .outside with lock := none } else none
  | .install t key session =>
      if c.free t && c.operation t = .body then
        some { c with registry := c.registry.insert key session }
      else none
  | .remove t key => if c.free t then some { c with registry := c.registry.remove key } else none
  | .lockWrites t session =>
      if c.free t && c.locked_call t = .outside && c.write_lock session.inner = none then
        some { c with write_lock := Function.update c.write_lock session.inner (some t) }
      else none
  | .unlockWrites t session =>
      if c.free t && c.locked_call t = .outside && c.write_lock session.inner = some t then
        some { c with write_lock := Function.update c.write_lock session.inner none }
      else none
  | .withWriteLocks t =>
      if c.free t && c.locked_call t = .outside then
        some (c.shift t (.acquiring 0 [] (sorted (c.sessions_not_among workspace []))))
      else none
  | .acquireNext t =>
      match c.locked_call t with
      | .acquiring attempts held (session :: todo) =>
          if c.write_lock session.inner = none then
            some { c.shift t (.acquiring attempts (held ++ [session]) todo) with
              write_lock := Function.update c.write_lock session.inner (some t) }
          else none
      | _ => none
  | .acquireFails t =>
      match c.locked_call t with
      | .acquiring _ held _ => some (c.shift t (.releasing held none))
      | _ => none
  | .recheck t =>
      match c.locked_call t with
      | .acquiring attempts locked [] =>
          let appeared := c.sessions_not_among workspace locked
          if appeared = [] then some (c.shift t (.calling locked))
          else some (c.shift t (.releasing locked (some (attempts + 1, sorted (locked ++ appeared)))))
      | _ => none
  | .callBody t =>
      match c.locked_call t with
      | .calling locked => some (c.shift t (.body locked))
      | _ => none
  | .bodyReturns t =>
      match c.locked_call t with
      | .body locked => if c.free t then some (c.shift t (.releasing locked none)) else none
      | _ => none
  | .releaseNext t =>
      match c.locked_call t with
      | .releasing [] none => some (c.shift t .outside)
      | .releasing [] (some (attempts, locked)) =>
          if attempts < lockSnapshotAttempts then some (c.shift t (.acquiring attempts [] locked))
          else some (c.shift t .outside)
      | .releasing held next =>
          match held.getLast? with
          | none => none
          | some session =>
              some { c.shift t (.releasing held.dropLast next) with
                write_lock := Function.update c.write_lock session.inner none }
      | _ => none

end Coordination

end Burlmd.Workspace
