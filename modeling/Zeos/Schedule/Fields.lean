import Zeos.Schedule.Effects

/-!
# Fields that scheduling does not write

`task_switch`, the queues and the statistics write a few fields of a task only. What
holds of any other field is proved once, and used for the quantum of a task and for
its PID.
-/

namespace Zeos

namespace State

universe u

structure Apart {α : Type u} (field : TaskStruct → α) : Prop where
  state : ∀ t state, field { t with state := state } = field t
  stats : ∀ t stats, field { t with pStats := stats } = field t
  registerEsp : ∀ t registerEsp, field { t with registerEsp := registerEsp } = field t

theorem totalQuantum_apart : Apart TaskStruct.totalQuantum :=
  ⟨fun _ _ => rfl, fun _ _ => rfl, fun _ _ => rfl⟩

theorem pid_apart : Apart TaskStruct.PID := ⟨fun _ _ => rfl, fun _ _ => rfl, fun _ _ => rfl⟩

/-- The field is the same for every task, and no number was given out. -/
structure Preserves {α : Type u} (field : TaskStruct → α) (s after : State) : Prop where
  task : ∀ t, field (after.task t) = field (s.task t)
  globalPID : after.globalPID = s.globalPID

variable {α : Type u} {field : TaskStruct → α} {s middle after : State}

theorem Preserves.refl (field : TaskStruct → α) (s : State) : Preserves field s s :=
  ⟨fun _ => rfl, rfl⟩

theorem Preserves.trans (first : Preserves field s middle) (second : Preserves field middle after) :
    Preserves field s after :=
  ⟨fun t => (second.task t).trans (first.task t), second.globalPID.trans first.globalPID⟩

theorem setTask_preserves (s : State) (task : Task) {f : TaskStruct → TaskStruct}
    (same : field (f (s.task task)) = field (s.task task)) :
    Preserves field s (s.setTask task f) := by
  refine ⟨fun t => ?_, rfl⟩
  rw [setTask_task]
  split
  · rename_i equal
    rw [equal, same]
  · rfl

theorem Relinks.preserves (relinks : s.Relinks after) : Preserves field s after := by
  obtain ⟨_, _, rfl, _⟩ := relinks
  exact ⟨fun _ => rfl, rfl⟩

theorem takeNext_preserves (s : State) : Preserves field s s.takeNext.2 :=
  s.takeNext_relinks.preserves

theorem getTicks_preserves (s : State) : Preserves field s s.getTicks.2 := ⟨fun _ => rfl, rfl⟩

section

variable (apart : Apart field)

include apart

theorem setState_preserves (s : State) (task : Task) (state : TaskState) :
    Preserves field s (s.setState task state) :=
  s.setTask_preserves task (apart.state _ _)

theorem setStats_preserves (s : State) (task : Task) (f : Stats → Stats) :
    Preserves field s (s.setStats task f) :=
  s.setTask_preserves task (apart.stats _ _)

theorem updateStats_preserves (s : State) (task : Task) (v : Counter) :
    Preserves field s (s.updateStats task v) := by
  unfold updateStats
  exact s.getTicks_preserves.trans (setStats_preserves apart _ _ _)

theorem addTicks_preserves (s : State) (task : Task) (v : Counter) :
    Preserves field s (s.addTicks task v) := by
  unfold addTicks
  exact (s.getTicks_preserves.trans (setStats_preserves apart _ _ _)).trans
    ((getTicks_preserves _).trans (setStats_preserves apart _ _ _))

theorem prepareRr_preserves (s : State) (t : Task) : Preserves field s (s.prepareRr t) := by
  have started := setState_preserves apart s t .ST_RUN
  unfold prepareRr
  dsimp only
  generalize s.setState t .ST_RUN = middle at started ⊢
  have loaded : Preserves field s
      { middle with remainingQuantum := (middle.task t).totalQuantum } :=
    started.trans ⟨fun _ => rfl, rfl⟩
  exact ((loaded.trans (updateStats_preserves apart _ middle.current .systemTicks)).trans
    (updateStats_preserves apart _ t .readyTicks)).trans (setStats_preserves apart _ t _)

theorem updateProcessStateRr_preserves (s : State) (t : Task) (queue : Queue) :
    Preserves field s (s.updateProcessStateRr t (some queue)) := by
  obtain ⟨middle, relinks, result⟩ := s.updateProcessStateRr_relinks t queue
  rw [result]
  split
  · exact (relinks.preserves.trans (updateStats_preserves apart middle t .systemTicks)).trans
      (setState_preserves apart _ t _)
  · exact relinks.preserves.trans (setState_preserves apart middle t _)

omit apart in
theorem updateProcessStateFcfs_preserves (s : State) (t : Task) (dst : Option Queue) :
    Preserves field s (s.updateProcessStateFcfs t dst) :=
  (s.updateProcessStateFcfs_relinks t dst).preserves

variable [Image]

theorem taskSwitch_preserves (s : State) (new : Task) : Preserves field s (s.taskSwitch new) := by
  refine ⟨fun t => ?_, (s.taskSwitch_globals new).2.2⟩
  obtain ⟨registerEsp, same⟩ := s.taskSwitch_task new t
  rw [same, apart.registerEsp]

theorem schedNextRr_preserves (s : State) : Preserves field s s.schedNextRr := by
  have result : s.schedNextRr = (s.takeNext.2.prepareRr s.takeNext.1).taskSwitch s.takeNext.1 := rfl
  rw [result]
  exact (s.takeNext_preserves.trans (prepareRr_preserves apart _ s.takeNext.1)).trans
    (taskSwitch_preserves apart _ s.takeNext.1)

theorem schedNextFcfs_preserves (s : State) : Preserves field s s.schedNextFcfs := by
  have result : s.schedNextFcfs =
      (s.takeNext.2.addTicks s.takeNext.1 .readyTicks).taskSwitch s.takeNext.1 := rfl
  rw [result]
  exact (s.takeNext_preserves.trans (addTicks_preserves apart _ s.takeNext.1 .readyTicks)).trans
    (taskSwitch_preserves apart _ s.takeNext.1)

theorem schedNext_preserves (installed : Installed) (s : State) :
    Preserves field s (installed.policy.schedNext s) := by
  cases installed with
  | RR => exact schedNextRr_preserves apart s
  | FCFS => exact schedNextFcfs_preserves apart s

theorem updateProcessState_preserves (installed : Installed) (s : State) (t : Task)
    (queue : Queue) :
    Preserves field s (installed.policy.updateProcessState s t (some queue)) := by
  cases installed with
  | RR => exact updateProcessStateRr_preserves apart s t queue
  | FCFS => exact s.updateProcessStateFcfs_preserves t (some queue)

omit apart in
theorem needsSched_preserves (installed : Installed) (s : State) :
    Preserves field s (installed.policy.needsSched s).2 := by
  cases installed with
  | RR =>
      obtain ⟨quantum, result⟩ := s.needsSchedRr_writes
      show Preserves field s s.needsSchedRr.2
      rw [result]
      exact ⟨fun _ => rfl, rfl⟩
  | FCFS => exact .refl field s

theorem reschedule_preserves (installed : Installed) (s : State) :
    Preserves field s (s.reschedule installed.policy) := by
  have asked : Preserves field s (installed.policy.needsSched s).2 := needsSched_preserves installed s
  have result : s.reschedule installed.policy =
      if (installed.policy.needsSched s).1 then
        installed.policy.schedNext (installed.policy.updateProcessState
          (installed.policy.needsSched s).2 (installed.policy.needsSched s).2.current
          (some .readyqueue))
      else (installed.policy.needsSched s).2 := rfl
  rw [result]
  generalize installed.policy.needsSched s = answer at asked ⊢
  split
  · exact (asked.trans (updateProcessState_preserves apart installed _ _ _)).trans
      (schedNext_preserves apart installed _)
  · exact asked

theorem blockProcess_preserves (installed : Installed) (s : State) (queue : Queue) :
    Preserves field s (s.blockProcess installed.policy queue) := by
  unfold blockProcess
  exact ((updateProcessState_preserves apart installed s s.current queue).trans
    (addTicks_preserves apart _ _ _)).trans (schedNext_preserves apart installed _)

theorem unblockProcess_preserves (installed : Installed) (s : State) (blocked : Task) :
    Preserves field s (s.unblockProcess installed.policy blocked) := by
  unfold unblockProcess
  exact ((addTicks_preserves apart s blocked .blockedTicks).trans
    (updateProcessState_preserves apart installed _ blocked .readyqueue)).trans
    (reschedule_preserves apart installed _)

theorem clockRoutine_preserves (installed : Installed) (s : State) :
    Preserves field s (s.clockRoutine installed.policy) := by
  have counted : ∃ middle, s.clockRoutine installed.policy = middle.reschedule installed.policy ∧
      Preserves field s middle := by
    cases installed with
    | RR => exact ⟨_, rfl, fun _ => rfl, rfl⟩
    | FCFS => exact ⟨_, rfl, fun _ => rfl, rfl⟩
  obtain ⟨middle, result, head⟩ := counted
  rw [result]
  exact head.trans (reschedule_preserves apart installed middle)

end

end State

end Zeos
