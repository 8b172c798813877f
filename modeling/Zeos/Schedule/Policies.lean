import Zeos.Kernel.System
import Zeos.Schedule.Quiet

/-!
# The installed policy

`schedperf.h` puts four pointers between the kernel and its policy. Ticks, blocking and
waking up go through them; `sys_yield` and `sys_exit` still call the `*_rr` functions.
-/

namespace Zeos

open Library

inductive Handover where
  | tick
  | yield
  | exit
  | block (queue : Queue)
  | unblock (blocked : Task)
  deriving DecidableEq

/-- The operation is one of those written for any policy. -/
def Handover.viaPolicy : Handover → Bool
  | .tick | .block _ | .unblock _ => true
  | .yield | .exit => false

section

variable [Image]

namespace Policy

def giveUp (policy : Policy) (s : State) (queue : Queue) : State :=
  policy.schedNext (policy.updateProcessState s s.current (some queue))

def poll (policy : Policy) (s : State) : State :=
  let (needed, s) := policy.needsSched s
  if needed then policy.giveUp s .readyqueue else s

end Policy

namespace State

/-- The operations with every decision left to the installed policy. -/
def through (policy : Policy) (s : State) : Handover → State
  | .tick => policy.poll (policy.updateSchedData { s with zeosTicks := s.zeosTicks + 1 })
  | .yield => policy.giveUp s .readyqueue
  | .exit =>
      let s := { s with mm := s.mm.freeData (s.getPT s.current) NUM_PAG_DATA }
      let t := s.current
      let s := policy.updateProcessState s t (some .freequeue)
      policy.schedNext (s.setTask t fun t => { t with PID := -1 })
  | .block queue =>
      let t := s.current
      let s := policy.updateProcessState s t (some queue)
      policy.schedNext (s.addTicks t .systemTicks)
  | .unblock blocked =>
      let s := s.addTicks blocked .blockedTicks
      policy.poll (policy.updateProcessState s blocked (some .readyqueue))

/-- The operations as the kernel has them. -/
def handOver (policy : Policy) (s : State) : Handover → State
  | .tick => s.clockRoutine policy
  | .yield => s.sysYield.2
  | .exit => s.sysExit
  | .block queue => s.blockProcess policy queue
  | .unblock blocked => s.unblockProcess policy blocked

variable {s : State} {handover : Handover}

theorem handOver_eq_through (via : handover.viaPolicy = true) (policy : Policy) :
    s.handOver policy handover = s.through policy handover := by
  cases handover with
  | tick => rfl
  | yield => exact absurd via Bool.false_ne_true
  | exit => exact absurd via Bool.false_ne_true
  | block queue => rfl
  | unblock blocked => rfl

theorem bypasses_policy (direct : handover.viaPolicy = false) (policy other : Policy) :
    s.handOver policy handover = s.handOver other handover := by
  cases handover with
  | yield => rfl
  | exit => rfl
  | tick => exact absurd direct.symm Bool.false_ne_true
  | block queue => exact absurd direct.symm Bool.false_ne_true
  | unblock blocked => exact absurd direct.symm Bool.false_ne_true

end State

/-- A policy that enqueues nobody and always chooses `t`. -/
def Policy.always (t : Task) : Policy where
  schedNext s := s.taskSwitch t
  updateProcessState s _ _ := s
  needsSched s := (true, s)
  updateSchedData s := s

namespace State

variable {s : State} {handover : Handover}

theorem through_always (direct : handover.viaPolicy = false) (t : Task) :
    (s.through (.always t) handover).current = t := by
  cases handover with
  | yield => exact (s.taskSwitch_frame t).2.1
  | exit => exact (State.taskSwitch_frame _ t).2.1
  | tick => exact absurd direct.symm Bool.false_ne_true
  | block queue => exact absurd direct.symm Bool.false_ne_true
  | unblock blocked => exact absurd direct.symm Bool.false_ne_true

theorem bypassed (direct : handover.viaPolicy = false) : ∃ policy,
    (s.handOver policy handover).current ≠ (s.through policy handover).current := by
  have another : ∀ u : Task, ∃ t : Task, t ≠ u := by decide
  obtain ⟨t, apart⟩ := another (s.handOver .rr handover).current
  refine ⟨.always t, ?_⟩
  rw [through_always direct, bypasses_policy direct _ .rr]
  exact apart.symm

end State

/-- In every state: an operation leaves the whole decision to every installed policy, or
just who runs next, exactly if it is a tick, `block_process` or `unblock_process`. -/
theorem policy_respected_iff (s : State) (handover : Handover) :
    ((∀ policy, s.handOver policy handover = s.through policy handover) ↔
      handover.viaPolicy = true) ∧
    ((∀ policy, (s.handOver policy handover).current = (s.through policy handover).current) ↔
      handover.viaPolicy = true) := by
  have direct : (∀ policy, (s.handOver policy handover).current =
      (s.through policy handover).current) → handover.viaPolicy = true := by
    intro chosen
    by_contra direct
    obtain ⟨policy, other⟩ := State.bypassed (Bool.not_eq_true _ ▸ direct)
    exact other (chosen policy)
  refine ⟨⟨fun respected => direct fun policy => congrArg State.current (respected policy),
    State.handOver_eq_through⟩, direct, fun via policy => ?_⟩
  rw [State.handOver_eq_through via]

end

/-- With a policy installed that always chooses idle, the first process yields and goes on. -/
theorem yield_ignores_policy :
    ¬ ∀ (policy : Policy) (s : State) (handover : Handover),
      (@State.handOver Image.sample policy s handover).current =
        (State.through policy s handover).current := by
  intro always
  have chosen := always (@Policy.always Image.sample 0) sampleBoot .yield
  rw [@State.through_always Image.sample sampleBoot .yield rfl] at chosen
  have stays : (@State.handOver Image.sample (@Policy.always Image.sample 0) sampleBoot
      .yield).current = 1 := by decide +kernel
  rw [stays] at chosen
  exact absurd chosen (by decide)

end Zeos
