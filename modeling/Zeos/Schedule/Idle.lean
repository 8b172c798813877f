import Zeos.Schedule.Partition

/-!
# When idle runs

Idle gives way correctly as long as nothing is woken while it runs: then
`unblock_process` either leaves it running beside a ready task, or enqueues it.
-/

namespace Zeos

open Library

section

variable [Image]

variable {memory s after : State} {queues : Queues} {op : Op} {task : Task}

def IdleRests (s : State) : Prop :=
  (∀ queue, ¬ s.OnQueue s.idleTask queue) ∧
    (s.current = s.idleTask → s.listEmpty .readyqueue = true)

def NotWokenInIdle (s : State) : Op → Prop
  | .unblock _ _ => s.current ≠ s.idleTask
  | _ => True

omit [Image] in
theorem Sched.idleRests_iff {installed : Installed} (sched : Sched installed s queues) :
    IdleRests s ↔ queues.Off s.idleTask ∧
      (s.current = s.idleTask → queues.on .readyqueue = []) := by
  have empty := sched.represents.listEmpty_iff .readyqueue
  simp only [IdleRests, State.listEmpty, empty, sched.onQueue_iff, Queues.Off]

theorem Switches.idleRests {installed : Installed} (placed : Placed installed s queues ∅)
    (switches : Switches installed s queues after) (idle : after.idleTask = s.idleTask)
    (current : after.current = queues.next s.idleTask)
    (notReady : s.idleTask ∉ queues.on .readyqueue) : IdleRests after := by
  rw [switches.sched.idleRests_iff, idle, current, Queues.off_remove]
  refine ⟨.inr (placed.idle_off notReady), fun isIdle => ?_⟩
  rcases queues.next_cases s.idleTask with ⟨none, _⟩ | ⟨rest, first⟩
  · simp [Queues.remove, none]
  · rw [isIdle] at first
    exact absurd (by simp [first]) notReady

theorem Placed.schedNextRr_idleRests {installed : Installed}
    (placed : Placed installed s queues ∅) (notReady : s.idleTask ∉ queues.on .readyqueue) :
    IdleRests s.schedNextRr := by
  obtain ⟨middle, quiet, result⟩ := placed.schedNextRr.switched
  obtain ⟨_, current, idle, _⟩ := middle.taskSwitch_frame (queues.next s.idleTask)
  refine placed.schedNextRr.idleRests placed ?_ ?_ notReady
  · rw [result, idle, quiet.idleTask]
  · rw [result, current]

omit [Image] in
theorem idle_notMem_push {queue : Queue} {off : queues.Off task} {idle : Task}
    (idleOff : queues.Off idle) (apart : task ≠ idle) (place : Queue) :
    idle ∉ (queues.push task queue off).on place := by
  rw [Queues.mem_push]
  rintro (old | ⟨_, same⟩)
  · exact idleOff place old
  · exact apart same.symm

/-- With idle off the queues and another task running, rescheduling never
enqueues idle. -/
theorem Sched.reschedule_idleRests (sched : Sched .RR s queues)
    (off : queues.Off s.idleTask) (process : s.current ≠ s.idleTask) :
    IdleRests (s.reschedule .rr) := by
  rcases sched.rescheduleRr with accounts | ⟨_, middle, quiet, placed, result⟩
  · rw [(sched.accounts accounts).idleRests_iff, accounts.idleTask, accounts.current]
    exact ⟨off, fun same => absurd same process⟩
  · rw [result]
    refine placed.schedNextRr_idleRests ?_
    rw [quiet.idleTask]
    exact idle_notMem_push off process .readyqueue

omit [Image] in
theorem IdleRests.accounts (rests : IdleRests s) (accounts : s.Accounts after) :
    IdleRests after := by
  unfold IdleRests State.OnQueue State.listEmpty at *
  rwa [accounts.idleTask, accounts.current, accounts.links]

theorem Sched.sysExit_idleRests (sched : Sched .RR s queues) (off : queues.Off s.idleTask)
    (process : s.current ≠ s.idleTask) : IdleRests s.sysExit := by
  obtain ⟨left, quiet, placed, _, result⟩ := sched.sysExit_eq process
  rw [result]
  refine placed.schedNextRr_idleRests ?_
  rw [quiet.idleTask]
  exact idle_notMem_push off process .readyqueue

theorem Sched.forceTaskSwitch_idleRests (sched : Sched .RR s queues)
    (off : queues.Off s.idleTask) (process : s.current ≠ s.idleTask) :
    IdleRests s.forceTaskSwitch := by
  have placed := sched.enqueueRr .readyqueue sched.running fun _ => process
  refine placed.schedNextRr_idleRests ?_
  rw [(updateProcessStateRr_quiet _ _ _).idleTask]
  exact idle_notMem_push off process .readyqueue

theorem Sched.blockProcess_idleRests (sched : Sched .RR s queues) (off : queues.Off s.idleTask)
    (process : s.current ≠ s.idleTask) (n : Nat) :
    IdleRests (s.blockProcess .rr (.blocking n)) := by
  have placed := sched.enqueueRr (.blocking n) sched.running process
  have accounts := (s.updateProcessStateRr s.current (some (.blocking n))).addTicks_accounts
    s.current .systemTicks
  have result : s.blockProcess .rr (.blocking n) = ((s.updateProcessStateRr s.current
    (some (.blocking n))).addTicks s.current .systemTicks).schedNextRr := by
    simp only [State.blockProcess, Policy.rr]
  rw [result]
  refine (placed.accounts accounts).schedNextRr_idleRests ?_
  rw [accounts.idleTask, (updateProcessStateRr_quiet _ _ _).idleTask]
  exact idle_notMem_push off process .readyqueue

theorem Sched.unblockProcess_idleRests (sched : Sched .RR s queues)
    (off : queues.Off s.idleTask) (process : s.current ≠ s.idleTask) {n : Nat}
    (waiting : task ∈ queues.on (.blocking n)) : IdleRests (s.unblockProcess .rr task) := by
  have accounts := s.addTicks_accounts task .blockedTicks
  have gone := queues.off_remove_self task
  have woken := (sched.accounts accounts).wake waiting gone
  have quiet := accounts.quiet.trans (updateProcessState_quiet .RR _ task .readyqueue)
  have notIdle : task ≠ s.idleTask := fun same => off _ (same ▸ waiting)
  refine woken.reschedule_idleRests ?_ ?_
  · rw [quiet.idleTask]
    exact idle_notMem_push (Queues.off_remove.mpr (.inr off)) notIdle
  · rw [quiet.idleTask, quiet.current]
    exact process

theorem Sched.clockRoutine_idleRests (sched : Sched .RR s queues) (rests : IdleRests s) :
    IdleRests (s.clockRoutine .rr) := by
  obtain ⟨middle, accounts, result⟩ := clockRoutine_eq .RR s
  have counted := sched.accounts accounts
  have kept := rests.accounts accounts
  have result : s.clockRoutine .rr = middle.reschedule .rr := result
  rw [result]
  rcases counted.rescheduleRr with more | ⟨ready, _⟩
  · exact kept.accounts more
  · obtain ⟨off, empty⟩ := counted.idleRests_iff.mp kept
    exact counted.reschedule_idleRests off fun same => ready (empty same)

/-- A wake-up in idle breaks the discipline: either idle goes on running beside
the woken task, or it is itself enqueued. -/
theorem Sched.unblockProcess_not_idleRests (sched : Sched .RR s queues) (idling : s.current = s.idleTask) {n : Nat}
    (waiting : task ∈ queues.on (.blocking n)) : ¬ IdleRests (s.unblockProcess .rr task) := by
  have accounts := s.addTicks_accounts task .blockedTicks
  have gone := queues.off_remove_self task
  have woken := (sched.accounts accounts).wake waiting gone
  have quiet := accounts.quiet.trans (updateProcessState_quiet .RR _ task .readyqueue)
  have ready : task ∈ ((queues.remove task).push task .readyqueue gone).on .readyqueue :=
    Queues.mem_push.mpr (.inr ⟨rfl, rfl⟩)
  have same : s.unblockProcess .rr task = State.reschedule .rr
    (Installed.RR.policy.updateProcessState (s.addTicks task .blockedTicks) task
      (some .readyqueue)) := rfl
  rw [same]
  rcases woken.rescheduleRr with more | ⟨_, middle, rest, placed, result⟩
  · rw [(woken.accounts more).idleRests_iff, more.idleTask, more.current, quiet.idleTask,
      quiet.current]
    rintro ⟨_, empty⟩
    rw [empty idling] at ready
    exact List.not_mem_nil ready
  · rw [result]
    intro rests
    have switches := placed.schedNextRr
    obtain ⟨last, more, switched⟩ := switches.switched
    obtain ⟨_, _, idle, _⟩ := last.taskSwitch_frame _
    rw [← switched, more.idleTask, rest.idleTask, quiet.idleTask] at idle
    obtain ⟨first, queued⟩ := Queues.next_push woken.current_off middle.idleTask
      (List.ne_nil_of_mem ready)
    rw [switches.sched.idleRests_iff, idle, first] at rests
    have apart : s.idleTask ≠ ((queues.remove task).push task .readyqueue gone).next
        middle.idleTask := by
      intro equal
      rw [← equal, ← idling, ← quiet.current] at queued
      exact woken.current_off _ queued
    refine rests.1 .readyqueue (Queues.mem_remove.mpr ⟨apart, Queues.mem_push.mpr (.inr ⟨rfl, ?_⟩)⟩)
    rw [quiet.current, idling]

omit [Image] in
theorem idleRests_off {installed : Installed} {later : Queues}
    (sched : Sched installed after later) (off : later.Off after.idleTask)
    (process : after.current ≠ after.idleTask) : IdleRests after :=
  sched.idleRests_iff.mpr ⟨off, fun same => absurd same process⟩

/-- In round robin the discipline survives a step exactly when the step does not
wake a process while idle runs. -/
theorem Sched.idleRests_step_iff (sched : Sched .RR s queues) (rests : IdleRests s)
    (enabled : s.Enabled op) : IdleRests (s.step .rr op) ↔ NotWokenInIdle s op := by
  obtain ⟨off, _⟩ := sched.idleRests_iff.mp rests
  cases op with
  | fork site =>
      obtain ⟨later, after, _, others, current, idle⟩ := (sched.enterFork site).sysFork
      refine iff_of_true (idleRests_off after ?_ ?_) trivial
      · exact idle ▸ others _ off
      · exact fun same => enabled (current.symm.trans (same.trans idle))
  | exit site => exact iff_of_true ((sched.enter site).sysExit_idleRests off enabled) trivial
  | yield site =>
      exact iff_of_true ((sched.enter site).forceTaskSwitch_idleRests off enabled) trivial
  | block site n =>
      exact iff_of_true ((sched.enter site).blockProcess_idleRests off enabled n) trivial
  | unblock site blocked =>
      obtain ⟨n, waiting⟩ := enabled
      have member := sched.represents.on_iff.mp waiting
      constructor
      · intro after idling
        exact (sched.enter site).unblockProcess_not_idleRests idling member after
      · exact fun process => (sched.enter site).unblockProcess_idleRests off process member
  | tick site => exact iff_of_true ((sched.enter site).clockRoutine_idleRests rests) trivial
  | charge v =>
      exact iff_of_true (rests.accounts (s.updateStats_accounts s.current v)) trivial
  | touch page => exact iff_of_true rests trivial

theorem boot_idleRests (memory : State) : IdleRests memory.boot := by
  rw [(boot_sched .RR memory).idleRests_iff, State.boot_current, State.boot_idleTask]
  refine ⟨fun queue member => (Queues.mem_boot.mp member).2.1 rfl, fun same => ?_⟩
  exact absurd same (by decide)

/-- Round robin: idle stays off the queues and out of the way of ready processes
in every state of a run exactly when no step wakes a process while idle runs. -/
theorem always_idleRests_iff (memory : State) {ops : List Op}
    (runs : (kernel .RR memory).Runs memory.boot ops) :
    (kernel .RR memory).Always IdleRests memory.boot ops ↔
      (kernel .RR memory).Each NotWokenInIdle memory.boot ops := by
  have kept : ∀ s op, (∃ queues, Sched .RR s queues) → s.Enabled op →
      ∃ queues, Sched .RR (s.step .rr op) queues := by
    rintro s op ⟨queues, sched⟩ enabled
    obtain ⟨later, after, _⟩ := sched.step enabled
    exact ⟨later, after⟩
  refine System.always_iff_each kept ?_ runs
    ⟨_, boot_sched .RR memory⟩ (boot_idleRests memory)
  rintro s op ⟨queues, sched⟩ rests enabled
  exact sched.idleRests_step_iff rests enabled

end

/-- The only process waits, and is woken while idle runs. -/
def wokenInIdle : List Op := [.block SwitchSite.top 0, .unblock SwitchSite.top 1]

theorem wokenInIdle_runs (installed : Installed) :
    (sampleKernel installed).Runs sampleBoot wokenInIdle := by
  have process : sampleBoot.current ≠ sampleBoot.idleTask := by decide
  refine ⟨process, ⟨0, by decide, .single ?_⟩, trivial⟩
  cases installed <;> decide

theorem always_idleRests_iff_wokenInIdle :
    (sampleKernel .RR).Always IdleRests sampleBoot wokenInIdle ↔
      (sampleKernel .RR).Each NotWokenInIdle sampleBoot wokenInIdle :=
  @always_idleRests_iff Image.sample State.blank _ (wokenInIdle_runs .RR)

/-- Idle can go on running although a process is ready. -/
theorem idle_runs_beside_ready_process :
    ¬ ∀ s, (sampleKernel .RR).Reachable s → IdleRests s := by
  intro always
  have rests := always _ (System.Reachable.run (.initial rfl) (wokenInIdle_runs .RR))
  have idles := rests.2 (by decide)
  exact absurd idles (by decide)

end Zeos
