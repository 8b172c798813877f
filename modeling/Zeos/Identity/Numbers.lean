import Zeos.Schedule.Fields
import Zeos.Space.Runs

/-!
# PIDs

Who gets a number and who loses it. `sys_fork` gives the child the next value of
`global_PID`, `sys_exit` writes -1, and no other entry of the kernel writes a PID.
-/

namespace Zeos

open Library

section

variable [Image]

def State.born (s : State) : Op → Option DWord
  | .fork site => (s.enterFork site).sysFork.1.toOption
  | _ => none

def State.gone (s : State) : Op → Option DWord
  | .exit _ => some (s.task s.current).PID
  | _ => none

inductive Numbers (s : State) (queues : Queues) (op : Op) (after : State) (later : Queues) : Prop where
  | same (slots : SameFree queues later) (pids : State.Preserves TaskStruct.PID s after)
      (born : s.born op = none) (gone : s.gone op = none)
  | birth {child : Task} (free : child ∈ queues.on .freequeue)
      (slots : ∀ t, t ∈ later.on .freequeue ↔ t ≠ child ∧ t ∈ queues.on .freequeue)
      (pid : (after.task child).PID = after.globalPID)
      (others : ∀ t, t ≠ child → (after.task t).PID = (s.task t).PID)
      (counter : after.globalPID = s.globalPID + 1)
      (born : s.born op = some after.globalPID) (gone : s.gone op = none)
  | death (slots : ∀ t, t ∈ later.on .freequeue ↔ t ∈ queues.on .freequeue ∨ t = s.current)
      (pid : (after.task s.current).PID = -1)
      (others : ∀ t, t ≠ s.current → (after.task t).PID = (s.task t).PID)
      (counter : after.globalPID = s.globalPID)
      (born : s.born op = none) (gone : s.gone op = some (s.task s.current).PID)

variable {installed : Installed} {s after : State} {queues later : Queues} {op : Op}
  {code : Nat → Nat}

theorem enter_preserves {below above : Nat} {field : TaskStruct → DWord} (s : State)
    (site : CallSite below above) : State.Preserves field s (s.enter site) :=
  ⟨fun _ => rfl, rfl⟩

theorem sysExit_pids (sched : Sched installed s queues) (process : s.current ≠ s.idleTask) :
    (∀ t, (s.sysExit.task t).PID = if t = s.current then -1 else (s.task t).PID) ∧
      s.sysExit.globalPID = s.globalPID := by
  obtain ⟨left, _, _, explicit, result⟩ := sched.sysExit_eq process
  obtain ⟨task, counter⟩ := State.schedNextRr_preserves State.pid_apart left
  have own : left.globalPID = s.globalPID := by
    rw [explicit]
    rfl
  rw [result]
  refine ⟨fun t => ?_, counter.trans own⟩
  rw [task, explicit, State.setTask_task]
  split <;> rfl

theorem forkFinish_pids (s : State) (child : Task) :
    (s.forkFinish child).2.globalPID = s.globalPID + 1 ∧
      ((s.forkFinish child).2.task child).PID = s.globalPID + 1 ∧
      ∀ t, t ≠ child → ((s.forkFinish child).2.task t).PID = (s.task t).PID := by
  refine ⟨rfl, ?_, fun t apart => ?_⟩
  · simp [State.forkFinish, State.listAddTail, State.setState, State.setTask, State.initStats,
      State.setStats, State.getTicks, State.forkStack]
  · obtain ⟨before, finish⟩ := forkFinish_eq s child
    rw [finish.result]
    show (before.task t).PID = _
    rw [finish.task t apart]

theorem forkMapped_pids (s : State) (child : Task) (mm : Mm) :
    ((forkMapped s child mm).forkFinish child).2.globalPID = s.globalPID + 1 ∧
      (((forkMapped s child mm).forkFinish child).2.task child).PID = s.globalPID + 1 ∧
      ∀ t, t ≠ child →
        (((forkMapped s child mm).forkFinish child).2.task t).PID = (s.task t).PID := by
  obtain ⟨counter, pid, others⟩ := forkFinish_pids (forkMapped s child mm) child
  have number : (forkMapped s child mm).globalPID = s.globalPID := by
    simp only [forkMapped, forkCopied, State.forkCopy, State.copyTaskUnion, State.allocateDIR,
      State.setTask, State.listDel]
  rw [number] at counter pid
  refine ⟨counter, pid, fun t apart => (others t apart).trans ?_⟩
  rw [← forkCopied_task s apart]
  rfl

theorem Spaced.fork_numbers (spaced : Spaced code s queues) (sched : Sched installed s queues)
    (process : s.current ≠ s.idleTask) (forks : Forks s queues later s.sysFork) :
    (later = queues ∧ s.sysFork = (.error ENOMEM, s)) ∨
      ∃ child ∈ queues.on .freequeue,
        (∀ t, t ∈ later.on .freequeue ↔ t ≠ child ∧ t ∈ queues.on .freequeue) ∧
        s.sysFork.1 = .ok s.sysFork.2.globalPID ∧
        (s.sysFork.2.task child).PID = s.sysFork.2.globalPID ∧
        s.sysFork.2.globalPID = s.globalPID + 1 ∧
        ∀ t, t ≠ child → (s.sysFork.2.task t).PID = (s.task t).PID := by
  rcases spaced.fork_cases sched process forks with
    ⟨_, same, result⟩ | ⟨child, free, mm, _, slots, result⟩
  · exact .inl ⟨same, result⟩
  · refine .inr ⟨child, free, slots, ?_⟩
    obtain ⟨counter, pid, others⟩ := forkMapped_pids s child mm
    have returned := forkFinish_ok (Zeos.forkMapped s child mm) child
    rw [result, returned]
    generalize (Zeos.forkMapped s child mm).forkFinish child = finished at *
    exact ⟨by rw [pid, counter], by rw [pid, counter], counter, others⟩

theorem Spaced.numbers (spaced : Spaced code s queues) (sched : Sched installed s queues)
    (enabled : s.Enabled op)
    (effect : Effect installed s queues later (s.step installed.policy op) op) :
    Numbers s queues op (s.step installed.policy op) later := by
  cases op with
  | fork site =>
      have number : (s.enterFork site).globalPID = s.globalPID := rfl
      rcases (spaced.enterFork site).fork_numbers (sched.enterFork site) enabled effect.1 with
        ⟨rfl, result⟩ | ⟨child, free, slots, answer, pid, counter, others⟩
      · refine .same (fun _ => .rfl) ?_ ?_ rfl
        · show State.Preserves _ s (s.enterFork site).sysFork.2
          rw [result]
          exact ⟨fun _ => rfl, rfl⟩
        · rw [State.born, result]
          rfl
      · refine .birth free slots pid others counter ?_ rfl
        rw [State.born, answer]
        rfl
  | exit site =>
      obtain ⟨pids, counter⟩ := sysExit_pids (sched.enter site) enabled
      refine .death effect.1 ((pids _).trans (if_pos rfl)) (fun t apart => ?_) counter rfl rfl
      exact (pids t).trans (if_neg apart)
  | yield site =>
      have moved := (State.updateProcessStateRr_preserves State.pid_apart (s.enter site)
        (s.enter site).current .readyqueue).trans (State.schedNextRr_preserves State.pid_apart _)
      exact .same effect.1 ((enter_preserves s site).trans moved) rfl rfl
  | block site n =>
      have moved := State.blockProcess_preserves State.pid_apart installed (s.enter site) (.blocking n)
      exact .same effect.1 ((enter_preserves s site).trans moved) rfl rfl
  | unblock site blocked =>
      have moved := State.unblockProcess_preserves State.pid_apart installed (s.enter site) blocked
      exact .same effect.1 ((enter_preserves s site).trans moved) rfl rfl
  | tick site =>
      have moved := State.clockRoutine_preserves State.pid_apart installed (s.enter site)
      exact .same effect.1 ((enter_preserves s site).trans moved) rfl rfl
  | charge v => exact .same effect.1 (State.updateStats_preserves State.pid_apart s _ v) rfl rfl
  | touch page => exact .same effect.1 ⟨fun _ => rfl, rfl⟩ rfl rfl

end

end Zeos
