import Mathlib.Data.List.Nodup
import Mathlib.Tactic.Common
import Burlmd.Workspace.LeaseGate

/-!
# The sessions a body finds locked

The write locks a call has taken are those of the registry it read last, which nobody
extends as long as the call is made under the lifecycle lock.
-/

namespace Burlmd.Workspace

open Utf8 (Text)
open Machine

namespace Coordination

/-! ## Guards -/

/-- The guards of a call are those of distinct sessions, and the thread owns them. -/
structure Guards (c : Coordination) : Prop where
  owned : ∀ t, ∀ session ∈ (c.locked_call t).held, c.write_lock session.inner = some t
  once : ∀ t, ((c.locked_call t).held.map NoteSession.inner).Nodup

/-- The thread owns the write lock of every session in the Workspace's registry. -/
def Covers (workspace : Text) (c : Coordination) (t : Thread) : Prop :=
  ∀ entry ∈ c.registry, entry.1.workspace = workspace → c.write_lock entry.2.inner = some t

/-! Edit leases leave the registry, the write locks and the calls as they are. -/

@[simp] theorem edit_lease_write_lock (c : Coordination) (t : Thread) :
    (c.edit_lease t).write_lock = c.write_lock := by
  unfold edit_lease
  split <;> rfl

@[simp] theorem edit_lease_locked_call (c : Coordination) (t : Thread) :
    (c.edit_lease t).locked_call = c.locked_call := by
  unfold edit_lease
  split <;> rfl

@[simp] theorem edit_lease_lock (c : Coordination) (t : Thread) :
    (c.edit_lease t).lock = c.lock := by
  unfold edit_lease
  split <;> rfl

@[simp] theorem edit_lease_registry (c : Coordination) (t : Thread) :
    (c.edit_lease t).registry = c.registry := by
  unfold edit_lease
  split <;> rfl

@[simp] theorem settle_lease_write_lock (c : Coordination) (lease : EditLease) :
    (c.settle_lease lease).write_lock = c.write_lock := by
  unfold settle_lease
  split_ifs
  · rfl
  · dsimp only
    split <;> rfl

@[simp] theorem settle_lease_locked_call (c : Coordination) (lease : EditLease) :
    (c.settle_lease lease).locked_call = c.locked_call := by
  unfold settle_lease
  split_ifs
  · rfl
  · dsimp only
    split <;> rfl

@[simp] theorem settle_lease_lock (c : Coordination) (lease : EditLease) :
    (c.settle_lease lease).lock = c.lock := by
  unfold settle_lease
  split_ifs
  · rfl
  · dsimp only
    split <;> rfl

@[simp] theorem settle_lease_registry (c : Coordination) (lease : EditLease) :
    (c.settle_lease lease).registry = c.registry := by
  unfold settle_lease
  split_ifs
  · rfl
  · dsimp only
    split <;> rfl

theorem drop_lease_frame {c c' : Coordination} {lease : EditLease}
    (dropped : c.drop_lease lease = some c') :
    c'.write_lock = c.write_lock ∧ c'.locked_call = c.locked_call ∧ c'.registry = c.registry ∧
      c'.lock = c.lock := by
  obtain ⟨left, exits, rfl⟩ := Option.map_eq_some_iff.mp dropped
  unfold edit_lease_exit at exits
  split at exits
  · cases exits
  · cases exits
  · obtain rfl := Option.some.inj exits
    exact ⟨rfl, rfl, rfl, rfl⟩

namespace Guards

variable {c c' : Coordination}

theorem initial : Guards Coordination.initial where
  owned _ session member := by simp [Coordination.initial, LockedCall.held] at member
  once _ := List.nodup_nil

theorem shift (h : c.Guards) {t : Thread} {call : LockedCall}
    (same : call.held = (c.locked_call t).held) : (c.shift t call).Guards := by
  have held (u : Thread) : ((c.shift t call).locked_call u).held = (c.locked_call u).held := by
    by_cases equal : u = t
    · simp [Coordination.shift, equal, same]
    · simp [Coordination.shift, equal]
  refine ⟨fun u session member => ?_, fun u => ?_⟩
  · rw [held] at member
    exact h.owned u session member
  · rw [held]
    exact h.once u

/-- A call takes a free write lock. -/
theorem acquire (h : c.Guards) {t : Thread} {attempts : Nat} {held todo : List NoteSession}
    {session : NoteSession} (at_ : c.locked_call t = .acquiring attempts held (session :: todo))
    (unowned : c.write_lock session.inner = none) :
    Guards { c.shift t (.acquiring attempts (held ++ [session]) todo) with
      write_lock := Function.update c.write_lock session.inner (some t) } := by
  have other {u : Thread} {s : NoteSession} (member : s ∈ (c.locked_call u).held) :
      s.inner ≠ session.inner := by
    intro same
    have := h.owned u s member
    rw [same, unowned] at this
    cases this
  have mine : (c.locked_call t).held = held := by rw [at_]; rfl
  refine ⟨fun u s member => ?_, fun u => ?_⟩
  · by_cases same : u = t
    · subst same
      simp only [Coordination.shift, Function.update_self, LockedCall.held, List.mem_append,
        List.mem_singleton] at member
      obtain member | rfl := member
      · have kept := h.owned u s (mine ▸ member)
        exact (Function.update_of_ne (other (mine ▸ member)) _ _).trans kept
      · simp
    · simp only [Coordination.shift, Function.update_of_ne same] at member
      exact (Function.update_of_ne (other member) _ _).trans (h.owned u s member)
  · by_cases same : u = t
    · subst same
      have old := h.once u
      rw [mine] at old
      simp only [Coordination.shift, Function.update_self, LockedCall.held, List.map_append,
        List.map_cons, List.map_nil]
      refine List.nodup_append.mpr ⟨old, by simp, fun x left y right => ?_⟩
      obtain ⟨s, member, rfl⟩ := List.mem_map.mp left
      obtain rfl := List.mem_singleton.mp right
      exact other (mine ▸ member)
    · simpa only [Coordination.shift, Function.update_of_ne same] using h.once u

/-- A call drops its newest guard. -/
theorem release (h : c.Guards) {t : Thread} {held : List NoteSession}
    {next : Option (Nat × List NoteSession)} {session : NoteSession}
    (at_ : c.locked_call t = .releasing held next) (last : held.getLast? = some session) :
    Guards { c.shift t (.releasing held.dropLast next) with
      write_lock := Function.update c.write_lock session.inner none } := by
  obtain ⟨rest, rfl⟩ := List.getLast?_eq_some_iff.mp last
  rw [List.dropLast_concat]
  have mine : (c.locked_call t).held = rest ++ [session] := by rw [at_]; rfl
  have owner : c.write_lock session.inner = some t := h.owned t session (by simp [mine])
  have once := h.once t
  rw [mine, List.map_append, List.nodup_append] at once
  obtain ⟨nodup, -, apart⟩ := once
  have other {s : NoteSession} (member : s ∈ rest) : s.inner ≠ session.inner :=
    apart _ (List.mem_map.mpr ⟨s, member, rfl⟩) _ (by simp)
  refine ⟨fun u s member => ?_, fun u => ?_⟩
  · by_cases same : u = t
    · subst same
      simp only [Coordination.shift, Function.update_self, LockedCall.held] at member
      have kept := h.owned u s (by simp [mine, member])
      exact (Function.update_of_ne (other member) _ _).trans kept
    · simp only [Coordination.shift, Function.update_of_ne same] at member
      have kept := h.owned u s member
      have apart : s.inner ≠ session.inner := by
        intro equal
        rw [equal, owner] at kept
        exact same (Option.some.inj kept).symm
      exact (Function.update_of_ne apart _ _).trans kept
  · by_cases same : u = t
    · subst same
      simpa only [Coordination.shift, Function.update_self, LockedCall.held] using nodup
    · simpa only [Coordination.shift, Function.update_of_ne same] using h.once u

/-- A tier 2 writer outside a locked call takes or gives back one write lock. -/
theorem single (h : c.Guards) {t : Thread} {session : NoteSession} {owner : Option Thread}
    (outside : c.locked_call t = .outside)
    (free : c.write_lock session.inner = none ∨ c.write_lock session.inner = some t) :
    Guards { c with write_lock := Function.update c.write_lock session.inner owner } := by
  refine ⟨fun u s member => ?_, h.once⟩
  have kept := h.owned u s member
  have apart : s.inner ≠ session.inner := by
    intro equal
    rw [equal] at kept
    rcases free with free | free
    · simp [free] at kept
    · obtain rfl : t = u := by simpa [free] using kept
      simp [outside, LockedCall.held] at member
  exact (Function.update_of_ne apart _ _).trans kept

/-- Steps that leave the write locks and the calls as they are. -/
theorem frame (h : c.Guards) (locks : c'.write_lock = c.write_lock)
    (calls : c'.locked_call = c.locked_call) : c'.Guards := by
  refine ⟨?_, ?_⟩
  · simpa only [locks, calls] using h.owned
  · simpa only [calls] using h.once

theorem step {workspace : Text} {a : Action} (h : c.Guards)
    (stepped : c.step workspace a = some c') : c'.Guards := by
  cases a with
  | lockWrites t session =>
    simp only [Coordination.step, Option.ite_none_right_eq_some, Bool.and_eq_true,
      decide_eq_true_eq, Option.some.injEq] at stepped
    obtain ⟨⟨⟨-, outside⟩, unowned⟩, rfl⟩ := stepped
    exact h.single outside (.inl unowned)
  | unlockWrites t session =>
    simp only [Coordination.step, Option.ite_none_right_eq_some, Bool.and_eq_true,
      decide_eq_true_eq, Option.some.injEq] at stepped
    obtain ⟨⟨⟨-, outside⟩, owned⟩, rfl⟩ := stepped
    exact h.single outside (.inr owned)
  | withWriteLocks t =>
    simp only [Coordination.step, Option.ite_none_right_eq_some, Bool.and_eq_true,
      decide_eq_true_eq, Option.some.injEq] at stepped
    obtain ⟨⟨-, outside⟩, rfl⟩ := stepped
    exact h.shift (by simp [outside, LockedCall.held])
  | acquireNext t =>
    simp only [Coordination.step] at stepped
    split at stepped
    · rename_i attempts held session todo at_
      rw [Option.ite_none_right_eq_some, Option.some.injEq] at stepped
      obtain ⟨unowned, rfl⟩ := stepped
      exact h.acquire at_ unowned
    · cases stepped
  | releaseNext t =>
    simp only [Coordination.step] at stepped
    split at stepped
    · rename_i at_
      obtain rfl := Option.some.inj stepped
      exact h.shift (by rw [at_]; rfl)
    · rename_i attempts locked at_
      split at stepped <;>
      · obtain rfl := Option.some.inj stepped
        exact h.shift (by rw [at_]; rfl)
    · rename_i held next _ _ at_
      split at stepped
      · cases stepped
      · rename_i session last
        obtain rfl := Option.some.inj stepped
        exact h.release at_ last
    · cases stepped
  | acquireFails t | recheck t | callBody t | bodyReturns t =>
    simp only [Coordination.step] at stepped
    split at stepped
    · rename_i at_
      (repeat' split at stepped) <;>
        first
          | cases stepped; done
          | obtain rfl := Option.some.inj stepped; exact h.shift (by rw [at_]; rfl)
    · cases stepped
  | editLease t =>
    simp only [Coordination.step, Option.ite_none_right_eq_some, Option.some.injEq] at stepped
    obtain ⟨-, rfl⟩ := stepped
    exact h.frame (by simp) (by simp)
  | dropLease lease =>
    simp only [Coordination.step, Option.ite_none_right_eq_some] at stepped
    obtain ⟨locks, calls, -⟩ := drop_lease_frame stepped.2
    exact h.frame locks calls
  | settleLease lease =>
    simp only [Coordination.step, Option.ite_none_right_eq_some, Option.some.injEq] at stepped
    obtain ⟨-, rfl⟩ := stepped
    exact h.frame (by simp) (by simp)
  | _ =>
    -- the lifecycle operations and the registry only
    simp only [Coordination.step] at stepped
    (repeat' split at stepped) <;>
      first
        | cases stepped; done
        | obtain rfl := Option.some.inj stepped; exact h.frame rfl rfl

end Guards

/-! ## The sessions a body finds locked -/

variable {workspace : Text} {c c' : Coordination}

theorem sessions_not_among_eq_nil (workspace : Text) (c : Coordination)
    (held : List NoteSession) :
    c.sessions_not_among workspace held = [] ↔
      ∀ entry ∈ c.registry, entry.1.workspace = workspace →
        ∃ session ∈ held, session.inner = entry.2.inner := by
  simp only [sessions_not_among, List.filter_eq_nil_iff, List.mem_map, List.mem_filter,
    decide_eq_true_eq, Bool.not_eq_true', Bool.not_eq_false, List.any_eq_true]
  constructor
  · intro all entry member own
    exact all entry.2 ⟨entry, ⟨member, own⟩, rfl⟩
  · rintro all _ ⟨entry, ⟨member, own⟩, rfl⟩
    exact all entry member own

/-- The session a step installs is one whose write lock each call about to run its body
owns. -/
def Quiet (workspace : Text) (c : Coordination) : Action → Prop
  | .install _ key session =>
      ∀ u locked, c.locked_call u = .calling locked → key.workspace = workspace →
        c.write_lock session.inner = some u
  | _ => True

/-- A thread that stands at its call keeps the write lock of any session it had. -/
theorem write_lock_step {a : Action} {u : Thread} {locked : List NoteSession} {inner : Nat}
    (guards : c.Guards) (stepped : c.step workspace a = some c')
    (calling : c.locked_call u = .calling locked) (owned : c.write_lock inner = some u) :
    c'.write_lock inner = some u := by
  cases a with
  | lockWrites t session =>
    simp only [Coordination.step, Option.ite_none_right_eq_some, Bool.and_eq_true,
      decide_eq_true_eq, Option.some.injEq] at stepped
    obtain ⟨⟨-, unowned⟩, rfl⟩ := stepped
    have apart : inner ≠ session.inner := by
      rintro rfl
      simp [owned] at unowned
    exact (Function.update_of_ne apart _ _).trans owned
  | unlockWrites t session =>
    simp only [Coordination.step, Option.ite_none_right_eq_some, Bool.and_eq_true,
      decide_eq_true_eq, Option.some.injEq] at stepped
    obtain ⟨⟨⟨-, outside⟩, mine⟩, rfl⟩ := stepped
    have apart : inner ≠ session.inner := by
      rintro rfl
      obtain rfl : u = t := by simpa [owned] using mine
      simp [outside] at calling
    exact (Function.update_of_ne apart _ _).trans owned
  | acquireNext t =>
    simp only [Coordination.step] at stepped
    split at stepped
    · rename_i attempts held session todo at_
      rw [Option.ite_none_right_eq_some, Option.some.injEq] at stepped
      obtain ⟨unowned, rfl⟩ := stepped
      have apart : inner ≠ session.inner := by
        rintro rfl
        simp [owned] at unowned
      exact (Function.update_of_ne apart _ _).trans owned
    · cases stepped
  | releaseNext t =>
    simp only [Coordination.step] at stepped
    split at stepped
    · obtain rfl := Option.some.inj stepped
      exact owned
    · split at stepped <;>
      · obtain rfl := Option.some.inj stepped
        exact owned
    · rename_i held next _ _ at_
      split at stepped
      · cases stepped
      · rename_i session last
        obtain rfl := Option.some.inj stepped
        have apart : inner ≠ session.inner := by
          rintro rfl
          obtain ⟨rest, rfl⟩ := List.getLast?_eq_some_iff.mp last
          have mine := guards.owned t session (by simp [at_, LockedCall.held])
          obtain rfl : u = t := by simpa [owned] using mine
          simp [at_] at calling
        exact (Function.update_of_ne apart _ _).trans owned
    · cases stepped
  | editLease t =>
    simp only [Coordination.step, Option.ite_none_right_eq_some, Option.some.injEq] at stepped
    obtain ⟨-, rfl⟩ := stepped
    simpa using owned
  | dropLease lease =>
    simp only [Coordination.step, Option.ite_none_right_eq_some] at stepped
    rw [(drop_lease_frame stepped.2).1]
    exact owned
  | settleLease lease =>
    simp only [Coordination.step, Option.ite_none_right_eq_some, Option.some.injEq] at stepped
    obtain ⟨-, rfl⟩ := stepped
    simpa using owned
  | _ =>
    simp only [Coordination.step] at stepped
    (repeat' split at stepped) <;>
      first
        | cases stepped; done
        | obtain rfl := Option.some.inj stepped; exact owned

/-- What a step can add to the registry. -/
theorem registry_step {a : Action} (stepped : c.step workspace a = some c')
    {entry : SessionKey × NoteSession} (member : entry ∈ c'.registry) :
    entry ∈ c.registry ∨ ∃ t, a = .install t entry.1 entry.2 ∧ c.operation t = .body ∧
      c.free t = true := by
  cases a with
  | install t key session =>
    simp only [Coordination.step, Option.ite_none_right_eq_some, Bool.and_eq_true,
      decide_eq_true_eq, Option.some.injEq] at stepped
    obtain ⟨⟨free, body⟩, rfl⟩ := stepped
    simp only [SessionMap.insert, List.mem_cons] at member
    rcases member with rfl | member
    · exact .inr ⟨t, rfl, body, free⟩
    · exact .inl (List.mem_of_mem_filter member)
  | remove t key =>
    simp only [Coordination.step, Option.ite_none_right_eq_some, Option.some.injEq] at stepped
    obtain ⟨-, rfl⟩ := stepped
    exact .inl (List.mem_of_mem_filter member)
  | editLease t =>
    simp only [Coordination.step, Option.ite_none_right_eq_some, Option.some.injEq] at stepped
    obtain ⟨-, rfl⟩ := stepped
    exact .inl (by simpa using member)
  | dropLease lease =>
    simp only [Coordination.step, Option.ite_none_right_eq_some] at stepped
    exact .inl ((drop_lease_frame stepped.2).2.2.1 ▸ member)
  | settleLease lease =>
    simp only [Coordination.step, Option.ite_none_right_eq_some, Option.some.injEq] at stepped
    obtain ⟨-, rfl⟩ := stepped
    exact .inl (by simpa using member)
  | _ =>
    simp only [Coordination.step] at stepped
    (repeat' split at stepped) <;>
      first
        | cases stepped; done
        | obtain rfl := Option.some.inj stepped; exact .inl member

/-- How a thread gets to the call of its body. -/
theorem calling_step {a : Action} {u : Thread} {locked : List NoteSession}
    (stepped : c.step workspace a = some c') (calling : c'.locked_call u = .calling locked) :
    c.locked_call u = .calling locked ∨
      a = .recheck u ∧ (∃ attempts, c.locked_call u = .acquiring attempts locked []) ∧
        c.sessions_not_among workspace locked = [] := by
  have shifted {t : Thread} {call : LockedCall} (other : call ≠ .calling locked)
      (after : (c.shift t call).locked_call u = .calling locked) :
      c.locked_call u = .calling locked := by
    by_cases same : u = t
    · subst same
      exact absurd (by simpa [shift] using after) other
    · simpa [shift, same] using after
  cases a with
  | recheck t =>
    simp only [Coordination.step] at stepped
    split at stepped
    · rename_i attempts now at_
      split_ifs at stepped with none_
      · obtain rfl := Option.some.inj stepped
        by_cases same : u = t
        · subst same
          obtain rfl : now = locked := by simpa [shift] using calling
          exact .inr ⟨rfl, ⟨attempts, at_⟩, none_⟩
        · exact .inl (by simpa [shift, same] using calling)
      · obtain rfl := Option.some.inj stepped
        exact .inl (shifted (by simp) calling)
    · cases stepped
  | editLease t =>
    simp only [Coordination.step, Option.ite_none_right_eq_some, Option.some.injEq] at stepped
    obtain ⟨-, rfl⟩ := stepped
    exact .inl (by simpa using calling)
  | dropLease lease =>
    simp only [Coordination.step, Option.ite_none_right_eq_some] at stepped
    exact .inl ((drop_lease_frame stepped.2).2.1 ▸ calling)
  | settleLease lease =>
    simp only [Coordination.step, Option.ite_none_right_eq_some, Option.some.injEq] at stepped
    obtain ⟨-, rfl⟩ := stepped
    exact .inl (by simpa using calling)
  | _ =>
    simp only [Coordination.step] at stepped
    (repeat' split at stepped) <;>
      first
        | cases stepped; done
        | obtain rfl := Option.some.inj stepped; exact .inl (shifted (by simp) calling)
        | obtain rfl := Option.some.inj stepped; exact .inl calling

theorem lock_step {a : Action} {u : Thread} {locked : List NoteSession}
    (stepped : c.step workspace a = some c') (calling : c.locked_call u = .calling locked)
    (lock : c'.lock = some u) : c.lock = some u := by
  cases a with
  | lockLifecycle t =>
    simp only [Coordination.step, Option.ite_none_right_eq_some, Bool.and_eq_true,
      decide_eq_true_eq, Option.some.injEq] at stepped
    obtain ⟨⟨free, -⟩, rfl⟩ := stepped
    obtain rfl : t = u := by simpa using lock
    simp [Coordination.free, calling, LockedCall.running] at free
  | editLease t =>
    simp only [Coordination.step, Option.ite_none_right_eq_some, Option.some.injEq] at stepped
    obtain ⟨-, rfl⟩ := stepped
    simpa using lock
  | dropLease lease =>
    simp only [Coordination.step, Option.ite_none_right_eq_some] at stepped
    exact (drop_lease_frame stepped.2).2.2.2 ▸ lock
  | settleLease lease =>
    simp only [Coordination.step, Option.ite_none_right_eq_some, Option.some.injEq] at stepped
    obtain ⟨-, rfl⟩ := stepped
    simpa using lock
  | _ =>
    simp only [Coordination.step] at stepped
    (repeat' split at stepped) <;>
      first
        | cases stepped; done
        | obtain rfl := Option.some.inj stepped; exact lock
        | obtain rfl := Option.some.inj stepped; cases lock

/-- A call that found every session of the registry locked still does after a step, unless
the step installs one it has not locked. -/
theorem covers_step {a : Action} {u : Thread} (guards : c.Guards)
    (stepped : c.step workspace a = some c')
    (covers : ∀ locked, c.locked_call u = .calling locked → Covers workspace c u)
    (quiet : ∀ t key session locked, a = .install t key session →
      c.locked_call u = .calling locked → key.workspace = workspace →
        c.write_lock session.inner = some u)
    {locked : List NoteSession} (calling : c'.locked_call u = .calling locked) :
    Covers workspace c' u := by
  intro entry member own
  rcases calling_step stepped calling with before | ⟨rfl, ⟨attempts, at_⟩, none_⟩
  · refine write_lock_step guards stepped before ?_
    rcases registry_step stepped member with old | ⟨t, installs, -, -⟩
    · exact covers locked before entry old own
    · exact quiet t entry.1 entry.2 locked installs before own
  · have rechecked : c.step workspace (.recheck u) = some (c.shift u (.calling locked)) := by
      simp [Coordination.step, at_, none_]
    obtain rfl := Option.some.inj (stepped.symm.trans rechecked)
    obtain ⟨session, held, same⟩ := (sessions_not_among_eq_nil workspace c locked).mp none_
      entry member own
    have owned := guards.owned u session (by simpa [at_, LockedCall.held] using held)
    exact same ▸ owned

/-- What a call that is about to run its body holds. -/
structure Covered (workspace : Text) (c : Coordination) (t : Thread)
    (locked : List NoteSession) : Prop where
  once : (locked.map NoteSession.inner).Nodup
  owned : ∀ session ∈ locked, c.write_lock session.inner = some t
  registered : Covers workspace c t

theorem Guards.covered (guards : c.Guards) {t : Thread} {locked : List NoteSession}
    (calling : c.locked_call t = .calling locked) (covers : Covers workspace c t) :
    Covered workspace c t locked where
  once := by simpa [calling, LockedCall.held] using guards.once t
  owned := by simpa [calling, LockedCall.held] using guards.owned t
  registered := covers

/-! ## Whole runs -/

theorem admits_of_reaches (reached : Reaches (step workspace) Any initial c) : c.Admits :=
  reached.invariant .initial fun _ _ _ h _ stepped => h.step stepped

theorem guards_of_reaches (reached : Reaches (step workspace) Any initial c) : c.Guards :=
  reached.invariant .initial fun _ _ _ h _ stepped => h.step stepped

/-- A call made under the lifecycle lock covers the registry in every run. -/
theorem covers_of_lock (reached : Reaches (step workspace) Any initial c) {t : Thread}
    {locked : List NoteSession} (calling : c.locked_call t = .calling locked)
    (lock : c.lock = some t) : Covers workspace c t := by
  induction reached generalizing locked with
  | refl => cases calling
  | @tail before after a reached _ stepped ih =>
    have admits := admits_of_reaches reached
    refine covers_step (guards_of_reaches reached) stepped (fun locked now => ?_) ?_ calling
    · exact ih now (lock_step stepped now lock)
    · rintro u key session locked rfl now own
      -- the thread that installs holds the lock the caller holds
      have held := lock_step stepped now lock
      simp only [Coordination.step, Option.ite_none_right_eq_some, Bool.and_eq_true,
        decide_eq_true_eq] at stepped
      obtain ⟨⟨free, body⟩, -⟩ := stepped
      have same := (admits.exclusive u (by simp [body])).symm.trans held
      obtain rfl : u = t := Option.some.inj same
      simp [Coordination.free, now, LockedCall.running] at free

theorem covers_of_quiet (reached : Reaches (step workspace) (Quiet workspace) initial c)
    {t : Thread} {locked : List NoteSession} (calling : c.locked_call t = .calling locked) :
    Covers workspace c t := by
  induction reached generalizing locked with
  | refl => cases calling
  | @tail before after a reached met stepped ih =>
    refine covers_step (guards_of_reaches reached.any) stepped (fun _ now => ih now) ?_ calling
    rintro u key session locked rfl now own
    exact met t locked now own

/-- A step that is not quiet leaves a call without the lock of a registered session. -/
theorem not_covers_of_loud {a : Action} (stepped : c.step workspace a = some c')
    (loud : ¬ Quiet workspace c a) :
    ∃ t locked, c'.locked_call t = .calling locked ∧ ¬ Covers workspace c' t := by
  cases a with
  | install t key session =>
    simp only [Quiet, not_forall] at loud
    obtain ⟨u, locked, calling, own, unowned⟩ := loud
    simp only [Coordination.step, Option.ite_none_right_eq_some, Option.some.injEq] at stepped
    obtain ⟨-, rfl⟩ := stepped
    refine ⟨u, locked, calling, fun covers => ?_⟩
    exact unowned (covers (key, session) (by simp [SessionMap.insert]) own)
  | _ => exact absurd trivial loud

/-- What the gate promises in a state. -/
structure GateSafe (workspace : Text) (c : Coordination) : Prop where
  drained : ∀ t, c.operation t = .body → ∀ lease ∈ c.live, lease.counted = false
  closed : ∀ t, c.operation t = .body → ∀ u, c.admits u ≠ .admitted
  single : ∀ t u, c.operation t = .body → c.operation u = .body → t = u
  count : c.admission.leases = c.live.countP EditLease.counted
  /-- No lease was dropped with the count at zero. -/
  sound : c.admission.poisoned = false
  reopens : ∀ t outcome, c.operation t = .returned outcome → ∃ c',
    c.step workspace (.openGate t) = some c' ∧ c'.operation t = .reopened
  reopened : ∀ t, c.operation t = .reopened → c.admission.active = false
  idle : (∀ t, c.operation t = .outside) → c.admission.active = false

theorem Admits.gateSafe (h : c.Admits) (workspace : Text) : c.GateSafe workspace where
  drained t body := by
    have none_ : c.live.countP EditLease.counted = 0 := h.counter.symm.trans (h.drained t body)
    simpa using List.countP_eq_zero.mp none_
  closed t body u answer := by
    have active := h.gated t (by simp [body, Operation.gated])
    simp [(admits_eq_admitted.mp answer).2.2] at active
  single t u one two := by
    have lock := h.exclusive t (by simp [one])
    rw [h.exclusive u (by simp [two])] at lock
    exact (Option.some.inj lock).symm
  count := h.counter
  sound := h.sound
  reopens t outcome returned :=
    ⟨c.open_gate t, by simp [Coordination.step, returned],
      by simp [Coordination.open_gate, Coordination.move]⟩
  reopened t at_ := by
    have lock := h.exclusive t (by simp [at_])
    by_contra active
    obtain ⟨u, gated⟩ := h.owner (by simpa using active)
    by_cases same : u = t
    · simp [same, at_, Operation.gated] at gated
    · simp [h.operation_outside lock same, Operation.gated] at gated
  idle outside := by
    by_contra active
    obtain ⟨u, gated⟩ := h.owner (by simpa using active)
    simp [outside u, Operation.gated] at gated

/-- The gate holds in every run, and so does the cover of a call made under the lifecycle
lock. Any other call is covered exactly as long as no session is installed between its
last look at the registry and its body. -/
theorem lifecycle_gate (workspace : Text) :
    (∀ c, Reaches (step workspace) Any initial c → c.GateSafe workspace ∧
      ∀ t locked, c.locked_call t = .calling locked → c.lock = some t →
        Covered workspace c t locked) ∧
    ∀ c, Reaches (step workspace) (Quiet workspace) initial c →
      (∀ t locked, c.locked_call t = .calling locked → Covered workspace c t locked) ∧
      ∀ a c', c.step workspace a = some c' →
        ((∀ t locked, c'.locked_call t = .calling locked → Covered workspace c' t locked) ↔
          Quiet workspace c a) := by
  refine ⟨fun c reached => ⟨(admits_of_reaches reached).gateSafe workspace, ?_⟩,
    fun c reached => ⟨?_, fun a c' stepped => ⟨?_, ?_⟩⟩⟩
  · intro t locked calling lock
    exact (guards_of_reaches reached).covered calling (covers_of_lock reached calling lock)
  · intro t locked calling
    exact (guards_of_reaches reached.any).covered calling (covers_of_quiet reached calling)
  · intro covered
    by_contra loud
    obtain ⟨t, locked, calling, exposed⟩ := not_covers_of_loud stepped loud
    exact exposed (covered t locked calling).registered
  · intro quiet t locked calling
    have next := reached.tail quiet stepped
    exact (guards_of_reaches next.any).covered calling (covers_of_quiet next calling)

/-- Thread 0 commits a Block of `a` while thread 1 opens `b`. -/
def openDuringCommit : List Action :=
  [.lockLifecycle 1, .closeGate 1, .awaitLeases 1, .install 1 ⟨['w'], ['a']⟩ ⟨0, ['a']⟩,
    .finishBody 1 .normal, .openGate 1, .unlockLifecycle 1,
    .withWriteLocks 0, .acquireNext 0, .recheck 0,
    .lockLifecycle 1, .closeGate 1, .awaitLeases 1, .install 1 ⟨['w'], ['b']⟩ ⟨1, ['b']⟩]

/-- The body of `commit_block` begins without the write lock of the Note just opened. -/
theorem openDuringCommit_not_covered :
    ∃ c, Reaches (step ['w']) Any initial c ∧ c.locked_call 0 = .calling [⟨0, ['a']⟩] ∧
      ¬ Covers ['w'] c 0 := by
  refine ⟨_, Reaches.of_run (show run (step ['w']) initial openDuringCommit = some _ from rfl),
    rfl, ?_⟩
  intro covers
  have owned := covers (⟨['w'], ['b']⟩, ⟨1, ['b']⟩) (by decide) rfl
  exact absurd owned (by decide)

theorem reaches_of_not_install (actions : List Action)
    (others : ∀ a ∈ actions, ∀ t key session, a ≠ .install t key session)
    (ran : run (step workspace) c actions = some c') :
    Reaches (step workspace) (Quiet workspace) c c' := by
  apply Reaches.of_run_of ?_ ran
  intro c a inside
  cases a with
  | install t key session => exact absurd rfl (others _ inside t key session)
  | _ => trivial

/-- With `a` open, thread 0 commits a Block of it while thread 1 is about to open `b`. -/
def openingBesideCommit : List Action :=
  [.lockLifecycle 1, .closeGate 1, .awaitLeases 1, .install 1 ⟨['w'], ['a']⟩ ⟨0, ['a']⟩,
    .finishBody 1 .normal, .openGate 1, .unlockLifecycle 1,
    .withWriteLocks 0, .acquireNext 0, .lockLifecycle 1, .closeGate 1, .awaitLeases 1]

def stateAfter (actions : List Action) : Coordination :=
  (run (step ['w']) initial actions).getD initial

/-- The first call of `recheck` finds `b`, so thread 0 gives its lock back and takes both. -/
def afterRecheck : List Action :=
  [.recheck 0, .releaseNext 0, .releaseNext 0, .acquireNext 0, .acquireNext 0, .recheck 0]

/-- A session that is installed before the registry is read again is covered. -/
theorem openBeforeRecheck_covered :
    ∃ c, Reaches (step ['w']) (Quiet ['w']) initial c ∧ c.lock = some 1 ∧
      c.locked_call 0 = .calling [⟨0, ['a']⟩, ⟨1, ['b']⟩] ∧
      Covered ['w'] c 0 [⟨0, ['a']⟩, ⟨1, ['b']⟩] := by
  have lead : Reaches (step ['w']) (Quiet ['w']) initial
      (stateAfter (openingBesideCommit.take 3)) :=
    reaches_of_not_install (openingBesideCommit.take 3) (by simp [openingBesideCommit]) rfl
  have first : Reaches (step ['w']) (Quiet ['w']) initial
      (stateAfter (openingBesideCommit.take 4)) := by
    refine lead.tail (a := .install 1 ⟨['w'], ['a']⟩ ⟨0, ['a']⟩) ?_ rfl
    intro u locked calling
    have idle : (stateAfter (openingBesideCommit.take 3)).locked_call u = .outside := rfl
    rw [idle] at calling
    cases calling
  have calls : Reaches (step ['w']) (Quiet ['w']) initial (stateAfter openingBesideCommit) :=
    first.trans (reaches_of_not_install (openingBesideCommit.drop 4)
      (by simp [openingBesideCommit]) rfl)
  have second : Reaches (step ['w']) (Quiet ['w']) initial
      (stateAfter (openingBesideCommit ++ [.install 1 ⟨['w'], ['b']⟩ ⟨1, ['b']⟩])) := by
    refine calls.tail (a := .install 1 ⟨['w'], ['b']⟩ ⟨1, ['b']⟩) ?_ rfl
    intro u locked calling
    -- thread 0 still takes its locks, and no other thread is in a call
    have stage : (stateAfter openingBesideCommit).locked_call =
        Function.update (Function.update (fun _ => .outside) 0 (.acquiring 0 [] [⟨0, ['a']⟩])) 0
          (.acquiring 0 [⟨0, ['a']⟩] []) := rfl
    rw [stage] at calling
    by_cases own : u = 0
    · rw [own, Function.update_self] at calling
      cases calling
    · rw [Function.update_of_ne own, Function.update_of_ne own] at calling
      cases calling
  have reached : Reaches (step ['w']) (Quiet ['w']) initial
      (stateAfter (openingBesideCommit ++ .install 1 ⟨['w'], ['b']⟩ ⟨1, ['b']⟩ :: afterRecheck)) :=
    second.trans (reaches_of_not_install afterRecheck (by simp [afterRecheck]) rfl)
  refine ⟨_, reached, rfl, rfl, ?_⟩
  exact ((lifecycle_gate ['w']).2 _ reached).1 0 _ rfl

end Coordination

end Burlmd.Workspace
