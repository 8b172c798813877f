import Zeos.Space.Runs

/-!
# The stack the processor enters the kernel on

`inner_task_switch` moves `tss.esp0` and the MSR of `sysenter` with `current`.
-/

namespace Zeos

open Library Library.X86

section

variable [Image]

/-- The kernel is entered at the top of the running task's page. -/
def OnTop (s : State) : Prop := s.esp0 = taskAddr s.current PAGE_SIZE

variable {installed : Installed} {memory s : State} {op : Op}

theorem taskSwitch_onTop (s : State) (new : Task) : OnTop (s.taskSwitch new) := by
  obtain ⟨_, _, _, _, _, result⟩ := s.taskSwitch_writes new
  rw [result]
  exact rfl

theorem schedNext_onTop (installed : Installed) (s : State) : OnTop (installed.policy.schedNext s) := by
  cases installed with
  | RR => exact taskSwitch_onTop _ _
  | FCFS => exact taskSwitch_onTop _ _

theorem State.Relinks.onTop {after : State} (relinks : s.Relinks after) (top : OnTop s) :
    OnTop after := by
  obtain ⟨_, _, rfl, _⟩ := relinks
  exact top

theorem OnTop.updateProcessState (top : OnTop s) (installed : Installed) (t : Task) (queue : Queue) :
    OnTop (installed.policy.updateProcessState s t (some queue)) := by
  cases installed with
  | RR =>
      obtain ⟨middle, relinks, result⟩ := s.updateProcessStateRr_relinks t queue
      show OnTop (s.updateProcessStateRr t (some queue))
      rw [result]
      split
      · exact relinks.onTop top
      · exact relinks.onTop top
  | FCFS => exact (s.updateProcessStateFcfs_relinks t (some queue)).onTop top

theorem OnTop.reschedule (top : OnTop s) (installed : Installed) :
    OnTop (s.reschedule installed.policy) := by
  have asked : OnTop (installed.policy.needsSched s).2 := by
    cases installed with
    | RR =>
        obtain ⟨quantum, result⟩ := s.needsSchedRr_writes
        show OnTop s.needsSchedRr.2
        rw [result]
        exact top
    | FCFS => exact top
  unfold State.reschedule
  dsimp only
  split
  · exact schedNext_onTop installed _
  · exact asked

theorem OnTop.sysFork (top : OnTop s) : OnTop s.sysFork.2 := by
  unfold State.sysFork
  split
  · exact top
  · unfold State.forkInto State.forkAllocated
    dsimp only
    split
    · exact top
    · exact top

theorem OnTop.step (top : OnTop s) : OnTop (s.step installed.policy op) := by
  cases op with
  | fork site => exact @OnTop.sysFork _ (s.enterFork site) top
  | exit site => exact taskSwitch_onTop _ _
  | yield site => exact taskSwitch_onTop _ _
  | block site n => exact schedNext_onTop installed _
  | unblock site blocked =>
      have counted : OnTop ((s.enter site).addTicks blocked .blockedTicks) := top
      exact (counted.updateProcessState installed blocked .readyqueue).reschedule installed
  | tick site =>
      refine OnTop.reschedule ?_ installed
      cases installed with
      | RR => exact top
      | FCFS => exact top
  | charge v => exact top
  | touch page => exact top

theorem task1_onTop (s : State) (c : Task) :
    OnTop { (s.listDel (s.listFirst .freequeue)).task1Into c with trace := [] } := rfl

theorem onTop_of_reachable (reachable : (kernel installed memory).Reachable s) : OnTop s := by
  have start : ∀ s, s = memory.boot → OnTop s := by
    rintro _ rfl
    exact task1_onTop memory.prepare.initIdle _
  have kept : ∀ s op, OnTop s → s.Enabled op → OnTop (s.step installed.policy op) :=
    fun _ _ top _ => top.step
  exact reachable.invariant start kept

end

end Zeos
