import Mathlib.Data.List.Count
import Mathlib.Tactic.Common
import Burlmd.Workspace.Gate

/-!
# Edit leases and the lifecycle gate

While a lifecycle body runs no counted lease is live and none is admitted.
-/

namespace Burlmd.Workspace

open Utf8 (Text)

/-- The lease counts towards the depth of the thread. -/
def EditLease.deepens (t : Thread) (lease : EditLease) : Bool :=
  lease.thread = t && !lease.dropping

namespace Operation

@[simp] theorem notified_gated (o : Operation) : o.notified.gated = o.gated := by
  cases o <;> rfl

@[simp] theorem notified_eq_body {o : Operation} : o.notified = .body ↔ o = .body := by
  cases o <;> simp [notified]

@[simp] theorem notified_eq_outside {o : Operation} : o.notified = .outside ↔ o = .outside := by
  cases o <;> simp [notified]

@[simp] theorem notified_ne_asleep (o : Operation) : o.notified ≠ .waiting true := by
  cases o <;> simp [notified]

end Operation

namespace Coordination

/-- The entry of `EDIT_LEASE_DEPTHS` for a number of leases. -/
def depthOf : Nat → Option Nat
  | 0 => none
  | n + 1 => some (n + 1)

@[simp] theorem admits_eq_admitted {c : Coordination} {t : Thread} :
    c.admits t = .admitted ↔ c.edit_lease_is_held t = false ∧ c.admission.poisoned = false ∧
      c.admission.active = false := by
  unfold admits
  split_ifs <;> simp_all

@[simp] theorem edit_lease_enter_admission (c : Coordination) (t : Thread) :
    (c.edit_lease_enter t).admission = c.admission := rfl

/-! ## The admission -/

structure Admits (c : Coordination) : Prop where
  sound : c.admission.poisoned = false
  counter : c.admission.leases = c.live.countP EditLease.counted
  counted : ∀ lease ∈ c.live, lease.dropping = true → lease.counted = true
  depth : ∀ t, c.depths t = depthOf (c.live.countP (EditLease.deepens t))
  exclusive : ∀ t, c.operation t ≠ .outside → c.lock = some t
  gated : ∀ t, (c.operation t).gated = true → c.admission.active = true
  owner : c.admission.active = true → ∃ t, (c.operation t).gated = true
  drained : ∀ t, c.operation t = .body → c.admission.leases = 0
  awake : ∀ t, c.operation t = .waiting true → c.admission.leases ≠ 0

namespace Admits

variable {c c' : Coordination}

theorem initial : Admits Coordination.initial where
  sound := rfl
  counter := rfl
  counted := by simp [Coordination.initial]
  depth _ := rfl
  exclusive _ outside := absurd rfl outside
  gated _ h := by simp [Coordination.initial, Operation.gated] at h
  owner h := by simp [Coordination.initial] at h
  drained _ h := by simp [Coordination.initial] at h
  awake _ h := by simp [Coordination.initial] at h

theorem depth_enter (h : c.Admits) (t : Thread) (counted : Bool) (u : Thread) :
    (c.edit_lease_enter t).depths u =
      depthOf ((⟨t, counted, false⟩ :: c.live).countP (EditLease.deepens u)) := by
  by_cases same : u = t
  · subst same
    simp [edit_lease_enter, h.depth, EditLease.deepens]
    cases c.live.countP (EditLease.deepens u) <;> rfl
  · simp [edit_lease_enter, h.depth, EditLease.deepens, same, Ne.symm same]

theorem edit_lease (h : c.Admits) (t : Thread) : (c.edit_lease t).Admits := by
  unfold Coordination.edit_lease
  cases answer : c.admits t with
  | refused | poisoned => exact h
  | borrowed =>
    refine ⟨h.sound, by simpa using h.counter, ?_, h.depth_enter t false, h.exclusive, h.gated,
      h.owner, h.drained, h.awake⟩
    simpa using h.counted
  | admitted =>
    have open_ : c.admission.active = false := (admits_eq_admitted.mp answer).2.2
    have quiet (u : Thread) : (c.operation u).gated = false := by
      cases gated : (c.operation u).gated with
      | false => rfl
      | true => simpa [open_] using h.gated u gated
    refine ⟨h.sound, by simp [h.counter], ?_, h.depth_enter t true, h.exclusive, h.gated,
      h.owner, ?_, ?_⟩
    · simpa using h.counted
    · intro u body
      simpa [show c.operation u = .body from body, Operation.gated] using quiet u
    · intro u waiting
      exact absurd (quiet u) (by simp [show c.operation u = .waiting true from waiting,
        Operation.gated])

/-- A live lease that has not been dropped has an entry to leave. -/
theorem exit (h : c.Admits) {lease : EditLease} (live : lease ∈ c.live)
    (held : lease.dropping = false) :
    ∃ depth, c.depths lease.thread = some (depth + 1) := by
  have counts : 0 < c.live.countP (EditLease.deepens lease.thread) :=
    List.countP_pos_iff.mpr ⟨lease, live, by simp [EditLease.deepens, held]⟩
  obtain ⟨depth, count⟩ := Nat.exists_eq_succ_of_ne_zero (Nat.pos_iff_ne_zero.mp counts)
  exact ⟨depth, by rw [h.depth, count]; rfl⟩

theorem drop_lease (h : c.Admits) {lease : EditLease} (live : lease ∈ c.live)
    (held : lease.dropping = false) (dropped : c.drop_lease lease = some c') : c'.Admits := by
  obtain ⟨depth, entry⟩ := h.exit live held
  have exits : c.edit_lease_exit lease.thread = some { c with
      depths := Function.update c.depths lease.thread (if depth = 0 then none else some depth) } := by
    simp [edit_lease_exit, entry]
  rw [Coordination.drop_lease, exits, Option.map_some] at dropped
  obtain rfl := Option.some.inj dropped
  have perm := List.perm_cons_erase live
  have count (p : EditLease → Bool) : c.live.countP p = (c.live.erase lease).countP p +
      if p lease then 1 else 0 := by
    rw [perm.countP_eq, List.countP_cons]
  have total := count (EditLease.deepens lease.thread)
  have depths : depth + 1 = c.live.countP (EditLease.deepens lease.thread) := by
    have := h.depth lease.thread
    rw [entry] at this
    cases number : c.live.countP (EditLease.deepens lease.thread) with
    | zero => simp [number, depthOf] at this
    | succ n => simpa [number, depthOf] using this
  refine ⟨h.sound, ?_, ?_, ?_, h.exclusive, h.gated, h.owner, h.drained, h.awake⟩
  · have counted := count EditLease.counted
    by_cases own : lease.counted = true
    · simpa [own, ← counted] using h.counter.trans counted
    · simpa [own, ← counted] using h.counter.trans counted
  · intro other member dropping
    by_cases own : lease.counted = true
    · simp only [own, if_true, List.mem_cons] at member
      obtain rfl | member := member
      · rfl
      · exact h.counted other (List.mem_of_mem_erase member) dropping
    · simp only [own] at member
      exact h.counted other (List.mem_of_mem_erase member) dropping
  · intro u
    have rest : (if lease.counted = true then { lease with dropping := true } ::
        c.live.erase lease else c.live.erase lease).countP (EditLease.deepens u) =
          (c.live.erase lease).countP (EditLease.deepens u) := by
      split_ifs <;> simp [EditLease.deepens]
    simp only [rest]
    by_cases same : u = lease.thread
    · subst same
      have own : EditLease.deepens lease.thread lease = true := by simp [EditLease.deepens, held]
      rw [own, if_pos rfl] at total
      have left : (c.live.erase lease).countP (EditLease.deepens lease.thread) = depth := by omega
      rw [left]
      cases depth <;> simp [depthOf]
    · have other : EditLease.deepens u lease = false := by simp [EditLease.deepens, Ne.symm same]
      have unchanged := count (EditLease.deepens u)
      rw [other] at unchanged
      simp [same, h.depth, unchanged]

theorem settle_lease (h : c.Admits) {lease : EditLease} (live : lease ∈ c.live)
    (dropping : lease.dropping = true) : (c.settle_lease lease).Admits := by
  have own : lease.counted = true := h.counted lease live dropping
  have perm := List.perm_cons_erase live
  have counter : c.admission.leases = (c.live.erase lease).countP EditLease.counted + 1 := by
    rw [h.counter, perm.countP_eq, List.countP_cons, if_pos own]
  have counted : ∀ other ∈ c.live.erase lease, other.dropping = true → other.counted = true :=
    fun other member => h.counted other (List.mem_of_mem_erase member)
  have depth (t : Thread) :
      c.depths t = depthOf ((c.live.erase lease).countP (EditLease.deepens t)) := by
    rw [h.depth, perm.countP_eq, List.countP_cons, if_neg (by simp [EditLease.deepens, dropping]),
      Nat.add_zero]
  unfold Coordination.settle_lease
  rw [if_neg (by omega)]
  by_cases last : (c.live.erase lease).countP EditLease.counted = 0
  · have empty : c.admission.leases - 1 = 0 := by omega
    simp only [empty, if_true]
    -- the last lease wakes the operation that waits
    refine ⟨h.sound, last.symm, counted, depth, ?_, ?_, ?_, fun _ _ => rfl, ?_⟩
    · intro t inside
      exact h.exclusive t (by simpa [notify_all] using inside)
    · intro t gated
      exact h.gated t (by simpa [notify_all] using gated)
    · intro active
      simpa [notify_all] using h.owner active
    · intro t asleep
      exact absurd asleep (Operation.notified_ne_asleep _)
  · have more : c.admission.leases - 1 ≠ 0 := by omega
    simp only [more, if_false]
    refine ⟨h.sound, ?_, counted, depth, h.exclusive, h.gated, h.owner, ?_, fun _ _ => more⟩
    · have settled : c.admission.leases - 1 = (c.live.erase lease).countP EditLease.counted := by
        omega
      exact settled
    · intro t body
      have := h.drained t body
      omega

/-- A thread moves on in its lifecycle operation, with the admission left as it is. -/
theorem move (h : c.Admits) {t : Thread} {o : Operation} (lock : c.lock = some t)
    (gate : o.gated = (c.operation t).gated) (drained : o = .body → c.admission.leases = 0)
    (awake : o = .waiting true → c.admission.leases ≠ 0) : (c.move t o).Admits := by
  have moved (u : Thread) : (c.move t o).operation u = if u = t then o else c.operation u := by
    simp [Coordination.move, Function.update_apply]
  refine ⟨h.sound, h.counter, h.counted, h.depth, ?_, ?_, ?_, ?_, ?_⟩
  · intro u inside
    rw [moved] at inside
    split_ifs at inside with same
    · exact same ▸ lock
    · exact h.exclusive u inside
  · intro u gated
    rw [moved] at gated
    split_ifs at gated with same
    · exact h.gated t (by rw [← gate, gated])
    · exact h.gated u gated
  · intro active
    obtain ⟨u, gated⟩ := h.owner active
    refine ⟨u, ?_⟩
    rw [moved]
    split_ifs with same
    · rw [gate, ← same, gated]
    · exact gated
  · intro u body
    rw [moved] at body
    split_ifs at body with same
    · exact drained body
    · exact h.drained u body
  · intro u asleep
    rw [moved] at asleep
    split_ifs at asleep with same
    · exact awake asleep
    · exact h.awake u asleep

theorem operation_outside (h : c.Admits) {t u : Thread} (lock : c.lock = some t)
    (other : u ≠ t) : c.operation u = .outside := by
  by_contra inside
  have := h.exclusive u inside
  rw [lock] at this
  exact other (Option.some.inj this).symm

theorem lock_lifecycle (h : c.Admits) {t : Thread} (unlocked : c.lock = none) :
    Admits { c.move t .locked with lock := some t } := by
  have outside (u : Thread) : c.operation u = .outside := by
    by_contra inside
    simpa [unlocked] using h.exclusive u inside
  have inactive : c.admission.active = false := by
    by_contra active
    obtain ⟨u, gated⟩ := h.owner (by simpa using active)
    simp [outside u, Operation.gated] at gated
  refine ⟨h.sound, h.counter, h.counted, h.depth, ?_, ?_, ?_, ?_, ?_⟩
  · intro u inside
    by_cases same : u = t
    · exact congrArg some same.symm
    · simp [Coordination.move, same, outside] at inside
  all_goals
    simp only [Coordination.move, Function.update_apply, outside, inactive]
  · intro u gated
    split_ifs at gated <;> simp [Operation.gated] at gated
  · simp
  · intro u body
    split_ifs at body
  · intro u asleep
    split_ifs at asleep

theorem close_gate (h : c.Admits) {t : Thread} (at_ : c.operation t = .locked) :
    Admits { c.move t (.waiting false) with admission := { c.admission with active := true } } := by
  have lock : c.lock = some t := h.exclusive t (by simp [at_])
  have outside {u : Thread} (other : u ≠ t) := h.operation_outside lock other
  refine ⟨h.sound, h.counter, h.counted, h.depth, ?_, fun _ _ => rfl, fun _ => ⟨t, ?_⟩, ?_, ?_⟩
  · intro u inside
    by_cases same : u = t
    · exact same ▸ lock
    · simp [Coordination.move, same, outside same] at inside
  · simp [Coordination.move, Operation.gated]
  · intro u body
    by_cases same : u = t
    · simp [Coordination.move, same] at body
    · simp [Coordination.move, same, outside same] at body
  · intro u asleep
    by_cases same : u = t
    · simp [Coordination.move, same] at asleep
    · simp [Coordination.move, same, outside same] at asleep

theorem open_gate (h : c.Admits) {t : Thread} {outcome : Outcome}
    (at_ : c.operation t = .returned outcome) : (c.open_gate t).Admits := by
  have lock : c.lock = some t := h.exclusive t (by simp [at_])
  have after (u : Thread) : (c.open_gate t).operation u = if u = t then .reopened else .outside := by
    by_cases same : u = t
    · simp [Coordination.open_gate, Coordination.move, same]
    · simp [Coordination.open_gate, Coordination.move, notify_all, same,
        h.operation_outside lock same, Operation.notified]
  refine ⟨h.sound, h.counter, h.counted, h.depth, ?_, ?_, ?_, ?_, ?_⟩
  · intro u inside
    rw [after] at inside
    split_ifs at inside with same
    · exact same ▸ lock
    · exact absurd rfl inside
  · intro u gated
    rw [after] at gated
    split_ifs at gated <;> simp [Operation.gated] at gated
  · intro active
    simp [Coordination.open_gate] at active
  · intro u body
    rw [after] at body
    split_ifs at body
  · intro u asleep
    rw [after] at asleep
    split_ifs at asleep

theorem unlock_lifecycle (h : c.Admits) {t : Thread} (at_ : c.operation t = .reopened) :
    Admits { c.move t .outside with lock := none } := by
  have lock : c.lock = some t := h.exclusive t (by simp [at_])
  have after (u : Thread) : (c.move t .outside).operation u = .outside := by
    by_cases same : u = t
    · simp [Coordination.move, same]
    · simp [Coordination.move, same, h.operation_outside lock same]
  have inactive : c.admission.active = false := by
    by_contra active
    obtain ⟨u, gated⟩ := h.owner (by simpa using active)
    by_cases same : u = t
    · simp [same, at_, Operation.gated] at gated
    · simp [h.operation_outside lock same, Operation.gated] at gated
  refine ⟨h.sound, h.counter, h.counted, h.depth, ?_, ?_, ?_, ?_, ?_⟩
  · intro u inside
    exact absurd (after u) inside
  · intro u gated
    simp [after, Operation.gated] at gated
  · intro active
    simp [Coordination.move, inactive] at active
  · intro u body
    simp [after] at body
  · intro u asleep
    simp [after] at asleep

/-- Steps that leave the admission, the lifecycle lock and the operations as they are. -/
theorem frame (h : c.Admits) (lock : c'.lock = c.lock) (admission : c'.admission = c.admission)
    (live : c'.live = c.live) (depths : c'.depths = c.depths)
    (operation : c'.operation = c.operation) : c'.Admits := by
  obtain ⟨sound, counter, counted, depth, exclusive, gated, owner, drained, awake⟩ := h
  refine ⟨?_, ?_, ?_, ?_, ?_, ?_, ?_, ?_, ?_⟩ <;>
    simpa only [lock, admission, live, depths, operation]

theorem step {workspace : Text} {a : Action} (h : c.Admits)
    (stepped : c.step workspace a = some c') : c'.Admits := by
  cases a with
  | editLease t =>
    simp only [Coordination.step, Option.ite_none_right_eq_some, Option.some.injEq] at stepped
    obtain ⟨-, rfl⟩ := stepped
    exact h.edit_lease t
  | dropLease lease =>
    simp only [Coordination.step, Option.ite_none_right_eq_some, Bool.and_eq_true,
      decide_eq_true_eq, Bool.not_eq_true'] at stepped
    obtain ⟨⟨⟨-, live⟩, held⟩, dropped⟩ := stepped
    exact h.drop_lease live held dropped
  | settleLease lease =>
    simp only [Coordination.step, Option.ite_none_right_eq_some, Bool.and_eq_true,
      decide_eq_true_eq, Option.some.injEq] at stepped
    obtain ⟨⟨live, dropping⟩, rfl⟩ := stepped
    exact h.settle_lease live dropping
  | lockLifecycle t =>
    simp only [Coordination.step, Option.ite_none_right_eq_some, Bool.and_eq_true,
      decide_eq_true_eq, Option.some.injEq] at stepped
    obtain ⟨⟨-, unlocked⟩, rfl⟩ := stepped
    exact h.lock_lifecycle unlocked
  | closeGate t =>
    simp only [Coordination.step, h.sound, Option.ite_none_right_eq_some, Bool.false_eq_true,
      if_false, Option.some.injEq] at stepped
    obtain ⟨at_, rfl⟩ := stepped
    simpa only [h.sound] using h.close_gate at_
  | awaitLeases t =>
    simp only [Coordination.step, h.sound, Option.ite_none_right_eq_some, Bool.false_eq_true,
      if_false] at stepped
    obtain ⟨at_, stepped⟩ := stepped
    have lock : c.lock = some t := h.exclusive t (by simp [at_])
    split_ifs at stepped with empty
    · obtain rfl := Option.some.inj stepped
      exact h.move lock (by simp [at_, Operation.gated]) (fun _ => empty) (by simp)
    · obtain rfl := Option.some.inj stepped
      exact h.move lock (by simp [at_, Operation.gated]) (by simp) fun _ => empty
  | wake t =>
    simp only [Coordination.step, Option.ite_none_right_eq_some, Option.some.injEq] at stepped
    obtain ⟨at_, rfl⟩ := stepped
    exact h.move (h.exclusive t (by simp [at_])) (by simp [at_, Operation.gated]) (by simp)
      (by simp)
  | finishBody t outcome =>
    simp only [Coordination.step, Option.ite_none_right_eq_some, Bool.and_eq_true,
      decide_eq_true_eq, Option.some.injEq] at stepped
    obtain ⟨⟨⟨-, at_⟩, -⟩, rfl⟩ := stepped
    exact h.move (h.exclusive t (by simp [at_])) (by simp [at_, Operation.gated]) (by simp)
      (by simp)
  | openGate t =>
    simp only [Coordination.step] at stepped
    split at stepped
    · rename_i outcome at_
      obtain rfl := Option.some.inj stepped
      exact h.open_gate at_
    · cases stepped
  | unlockLifecycle t =>
    simp only [Coordination.step, Option.ite_none_right_eq_some, Option.some.injEq] at stepped
    obtain ⟨at_, rfl⟩ := stepped
    exact h.unlock_lifecycle at_
  | _ =>
    -- the registry and the write locks only
    simp only [Coordination.step] at stepped
    (repeat' split at stepped) <;>
      first
        | cases stepped; done
        | obtain rfl := Option.some.inj stepped; exact h.frame rfl rfl rfl rfl rfl

end Admits

end Coordination

end Burlmd.Workspace
