import Zeos.Kernel.Sched

/-!
# What scheduling leaves alone

`Accounts`: only statistics, the clock and the quantum may differ. `Quiet`: the
processor, memory and what a switch reads of a task are the same, so that only a
`task_switch` matters to address spaces and stacks.
-/

namespace Zeos

open Library

def Event.isSwitch : Event → Bool
  | .taskSwitch .. => true
  | _ => false

namespace State

def switches (s : State) : List Event := s.trace.filter Event.isSwitch

structure Accounts (s after : State) : Prop where
  links : after.links = s.links
  trace : after.trace = s.trace
  current : after.current = s.current
  idleTask : after.idleTask = s.idleTask
  mm : after.mm = s.mm
  cpu : after.cpu = s.cpu
  saved : after.saved = s.saved
  task : ∀ t, ∃ stats, after.task t = { s.task t with pStats := stats }

structure Quiet (s after : State) : Prop where
  current : after.current = s.current
  idleTask : after.idleTask = s.idleTask
  mm : after.mm = s.mm
  cpu : after.cpu = s.cpu
  saved : after.saved = s.saved
  switches : after.switches = s.switches
  dir : ∀ t, (after.task t).dirPagesBaseAddr = (s.task t).dirPagesBaseAddr
  registerEsp : ∀ t, (after.task t).registerEsp = (s.task t).registerEsp

variable {s middle after : State}

theorem Accounts.refl (s : State) : s.Accounts s :=
  ⟨rfl, rfl, rfl, rfl, rfl, rfl, rfl, fun t => ⟨(s.task t).pStats, rfl⟩⟩

theorem Accounts.trans (first : s.Accounts middle) (second : middle.Accounts after) :
    s.Accounts after where
  links := second.links.trans first.links
  trace := second.trace.trans first.trace
  current := second.current.trans first.current
  idleTask := second.idleTask.trans first.idleTask
  mm := second.mm.trans first.mm
  cpu := second.cpu.trans first.cpu
  saved := second.saved.trans first.saved
  task t := by
    obtain ⟨stats, firstTask⟩ := first.task t
    obtain ⟨later, secondTask⟩ := second.task t
    exact ⟨later, by rw [secondTask, firstTask]⟩

theorem Accounts.state (accounts : s.Accounts after) (t : Task) :
    (after.task t).state = (s.task t).state := by
  obtain ⟨stats, same⟩ := accounts.task t
  rw [same]

theorem setStats_accounts (s : State) (task : Task) (f : Stats → Stats) :
    s.Accounts (s.setStats task f) := by
  refine ⟨rfl, rfl, rfl, rfl, rfl, rfl, rfl, fun t => ?_⟩
  by_cases same : t = task
  · subst same
    exact ⟨f (s.task t).pStats, by simp [setStats, setTask]⟩
  · exact ⟨(s.task t).pStats, by simp [setStats, setTask, same]⟩

theorem getTicks_accounts (s : State) : s.Accounts s.getTicks.2 :=
  ⟨rfl, rfl, rfl, rfl, rfl, rfl, rfl, fun t => ⟨(s.task t).pStats, rfl⟩⟩

theorem updateStats_accounts (s : State) (task : Task) (v : Counter) :
    s.Accounts (s.updateStats task v) := by
  unfold updateStats
  exact s.getTicks_accounts.trans (setStats_accounts _ _ _)

theorem addTicks_accounts (s : State) (task : Task) (v : Counter) :
    s.Accounts (s.addTicks task v) := by
  unfold addTicks
  exact (s.getTicks_accounts.trans (setStats_accounts _ _ _)).trans
    ((getTicks_accounts _).trans (setStats_accounts _ _ _))

theorem quantum_accounts (s : State) (quantum : DWord) :
    s.Accounts { s with remainingQuantum := quantum } :=
  ⟨rfl, rfl, rfl, rfl, rfl, rfl, rfl, fun t => ⟨(s.task t).pStats, rfl⟩⟩

theorem zeosTicks_accounts (s : State) (ticks : DWord) :
    s.Accounts { s with zeosTicks := ticks } :=
  ⟨rfl, rfl, rfl, rfl, rfl, rfl, rfl, fun t => ⟨(s.task t).pStats, rfl⟩⟩

theorem needsSchedRr_writes (s : State) :
    ∃ quantum, s.needsSchedRr.2 = { s with remainingQuantum := quantum } := by
  unfold needsSchedRr
  split
  · exact ⟨s.remainingQuantum, rfl⟩
  · split
    · exact ⟨_, rfl⟩
    · exact ⟨s.remainingQuantum, rfl⟩

theorem needsSchedRr_accounts (s : State) : s.Accounts s.needsSchedRr.2 := by
  obtain ⟨quantum, result⟩ := s.needsSchedRr_writes
  rw [result]
  exact quantum_accounts s quantum

def Relinks (s after : State) : Prop :=
  ∃ links trace, after = { s with links := links, trace := trace } ∧ after.switches = s.switches

theorem Relinks.refl (s : State) : s.Relinks s := ⟨s.links, s.trace, rfl, rfl⟩

theorem Relinks.trans (first : s.Relinks middle) (second : middle.Relinks after) :
    s.Relinks after := by
  obtain ⟨_, _, rfl, firstSwitches⟩ := first
  obtain ⟨links, trace, rfl, secondSwitches⟩ := second
  exact ⟨links, trace, rfl, secondSwitches.trans firstSwitches⟩

theorem listDel_relinks (s : State) (entry : Link) : s.Relinks (s.listDel entry) :=
  ⟨_, _, rfl, rfl⟩

theorem listAddTail_relinks (s : State) (new : Link) (head : Queue) :
    s.Relinks (s.listAddTail new head) :=
  ⟨_, _, rfl, rfl⟩

theorem unlink_relinks (s : State) (t : Task) (linked : Prop) [Decidable linked] :
    s.Relinks (if linked then s.listDel (.node t) else s) := by
  split
  · exact s.listDel_relinks _
  · exact .refl s

theorem takeNext_relinks (s : State) : s.Relinks s.takeNext.2 := by
  unfold takeNext
  split
  · exact s.listDel_relinks _
  · exact .refl s

theorem updateProcessStateRr_relinks (s : State) (t : Task) (queue : Queue) :
    ∃ middle, s.Relinks middle ∧ s.updateProcessStateRr t (some queue) =
      if queue = .readyqueue then (middle.updateStats t .systemTicks).setState t .ST_READY
      else middle.setState t .ST_BLOCKED := by
  have unlinked := s.unlink_relinks t ((s.task t).state ≠ .ST_RUN)
  unfold updateProcessStateRr
  dsimp only
  generalize (if (s.task t).state ≠ .ST_RUN then s.listDel (.node t) else s) = middle
    at unlinked ⊢
  refine ⟨_, unlinked.trans (middle.listAddTail_relinks (.node t) queue), ?_⟩
  by_cases ready : queue = .readyqueue
  · rw [if_pos ready, if_neg (not_not.mpr ready)]
  · rw [if_neg ready, if_pos ready]

theorem updateProcessStateFcfs_relinks (s : State) (t : Task) (dst : Option Queue) :
    s.Relinks (s.updateProcessStateFcfs t dst) := by
  have unlinked := s.unlink_relinks t (s.links.next (.node t) ≠ none)
  unfold updateProcessStateFcfs
  dsimp only
  generalize (if s.links.next (.node t) ≠ none then s.listDel (.node t) else s) = middle
    at unlinked ⊢
  cases dst with
  | none => exact unlinked
  | some queue =>
      dsimp only
      split
      · exact unlinked.trans (middle.listAddTail_relinks (.node t) queue)
      · exact unlinked

theorem Quiet.refl (s : State) : s.Quiet s :=
  ⟨rfl, rfl, rfl, rfl, rfl, rfl, fun _ => rfl, fun _ => rfl⟩

theorem Quiet.trans (first : s.Quiet middle) (second : middle.Quiet after) : s.Quiet after where
  current := second.current.trans first.current
  idleTask := second.idleTask.trans first.idleTask
  mm := second.mm.trans first.mm
  cpu := second.cpu.trans first.cpu
  saved := second.saved.trans first.saved
  switches := second.switches.trans first.switches
  dir t := (second.dir t).trans (first.dir t)
  registerEsp t := (second.registerEsp t).trans (first.registerEsp t)

theorem Accounts.quiet (accounts : s.Accounts after) : s.Quiet after where
  current := accounts.current
  idleTask := accounts.idleTask
  mm := accounts.mm
  cpu := accounts.cpu
  saved := accounts.saved
  switches := by rw [switches, switches, accounts.trace]
  dir t := by
    obtain ⟨stats, same⟩ := accounts.task t
    rw [same]
  registerEsp t := by
    obtain ⟨stats, same⟩ := accounts.task t
    rw [same]

theorem setState_quiet (s : State) (task : Task) (state : TaskState) :
    s.Quiet (s.setState task state) := by
  refine ⟨rfl, rfl, rfl, rfl, rfl, rfl, fun t => ?_, fun t => ?_⟩ <;>
    by_cases same : t = task <;> simp [setState, setTask, same]

theorem Relinks.quiet (relinks : s.Relinks after) : s.Quiet after := by
  obtain ⟨_, _, rfl, switches⟩ := relinks
  exact ⟨rfl, rfl, rfl, rfl, rfl, switches, fun _ => rfl, fun _ => rfl⟩

theorem listDel_quiet (s : State) (entry : Link) : s.Quiet (s.listDel entry) :=
  (s.listDel_relinks entry).quiet

theorem listAddTail_quiet (s : State) (new : Link) (head : Queue) :
    s.Quiet (s.listAddTail new head) :=
  (s.listAddTail_relinks new head).quiet

section

variable [Image]

/-- Only the processor depends on where the switch returns to. -/
theorem switchReturn_eq (s : State) : ∃ cpu, s.switchReturn = { s with cpu := cpu } := by
  unfold switchReturn
  split
  · exact ⟨_, rfl⟩
  · exact ⟨s.cpu, rfl⟩

theorem taskSwitch_writes (s : State) (new : Task) :
    ∃ registerEsp saved found returned cpu, s.taskSwitch new =
      { s with
        task := Function.update s.task s.current
          { s.task s.current with registerEsp := registerEsp }
        mm := s.mm.setCr3 (s.task new).dirPagesBaseAddr, current := new
        esp0 := taskAddr new PAGE_SIZE, saved := saved, cpu := cpu
        trace := .taskSwitch new found returned :: s.trace } := by
  unfold taskSwitch
  dsimp only
  obtain ⟨cpu, result⟩ := switchReturn_eq (State.innerTaskSwitch
    { s with
      saved := Function.update s.saved s.current (.gaveUp (s.switchEntry new))
      cpu := (s.switchEntry new).exec taskSwitchEnter } new
    (Image.innerTaskSwitchBody ((s.switchEntry new).exec taskSwitchEnter) new))
  rw [result]
  exact ⟨_, _, _, _, _, rfl⟩

theorem taskSwitch_frame (s : State) (new : Task) :
    (s.taskSwitch new).links = s.links ∧ (s.taskSwitch new).current = new ∧
      (s.taskSwitch new).idleTask = s.idleTask ∧
      (s.taskSwitch new).mm = s.mm.setCr3 (s.task new).dirPagesBaseAddr := by
  obtain ⟨_, _, _, _, _, result⟩ := s.taskSwitch_writes new
  rw [result]
  exact ⟨rfl, rfl, rfl, rfl⟩

theorem taskSwitch_trace (s : State) (new : Task) :
    ∃ saved returned, (s.taskSwitch new).trace = .taskSwitch new saved returned :: s.trace := by
  obtain ⟨_, _, _, _, _, result⟩ := s.taskSwitch_writes new
  rw [result]
  exact ⟨_, _, rfl⟩

theorem taskSwitch_globals (s : State) (new : Task) :
    (s.taskSwitch new).clock = s.clock ∧
      (s.taskSwitch new).remainingQuantum = s.remainingQuantum ∧
      (s.taskSwitch new).globalPID = s.globalPID := by
  obtain ⟨_, _, _, _, _, result⟩ := s.taskSwitch_writes new
  rw [result]
  exact ⟨rfl, rfl, rfl⟩

theorem taskSwitch_task (s : State) (new t : Task) :
    ∃ registerEsp, (s.taskSwitch new).task t = { s.task t with registerEsp := registerEsp } := by
  obtain ⟨_, _, _, _, _, result⟩ := s.taskSwitch_writes new
  rw [result]
  by_cases same : t = s.current
  · subst same
    exact ⟨_, Function.update_self ..⟩
  · exact ⟨(s.task t).registerEsp, Function.update_of_ne same ..⟩

end

end State

end Zeos
