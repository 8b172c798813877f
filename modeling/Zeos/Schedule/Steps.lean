import Zeos.Schedule.Placement

/-!
# Scheduling keeps every task in its place

One lemma for each routine of `sched.c`, under either policy: from the running
task on no queue, through no task off the queues, back to a running task. Each
also says that nothing but a `task_switch` touches address spaces and stacks.
-/

namespace Zeos

open Library

namespace Queues

def next (queues : Queues) (idle : Task) : Task := (queues.on .readyqueue).headD idle

variable {queues : Queues} {task idle : Task}

theorem remove_off (off : queues.Off task) : queues.remove task = queues := by
  obtain ⟨on, nodup, apart⟩ := queues
  have same : (fun queue => (on queue).erase task) = on :=
    funext fun queue => List.erase_of_not_mem (off queue)
  simp [remove, same]

theorem next_cases (queues : Queues) (idle : Task) :
    (queues.on .readyqueue = [] ∧ queues.next idle = idle) ∨
      ∃ rest, queues.on .readyqueue = queues.next idle :: rest := by
  unfold next
  cases queues.on .readyqueue with
  | nil => exact .inl ⟨rfl, rfl⟩
  | cons first rest => exact .inr ⟨rest, rfl⟩

theorem next_push (off : queues.Off task) (idle : Task)
    (ready : queues.on .readyqueue ≠ []) :
    (queues.push task .readyqueue off).next idle = queues.next idle ∧
      queues.next idle ∈ queues.on .readyqueue := by
  simp only [next, push, Function.update_self]
  cases on : queues.on .readyqueue with
  | nil => exact absurd on ready
  | cons first rest => simp

end Queues

variable {installed : Installed} {s after : State} {queues : Queues} {off : Set Task}
  {task : Task} {queue : Queue}

theorem Placed.idle_off (placed : Placed installed s queues off)
    (notReady : s.idleTask ∉ queues.on .readyqueue) : queues.Off s.idleTask := by
  intro queue member
  have fits := placed.fits queue s.idleTask member
  cases queue with
  | freequeue => exact fits rfl
  | readyqueue => exact notReady member
  | blocking n => exact fits.1 rfl

theorem Placed.next_not_free (placed : Placed installed s queues off) :
    queues.next s.idleTask ∉ queues.on .freequeue := by
  intro free
  rcases queues.next_cases s.idleTask with ⟨_, isIdle⟩ | ⟨rest, first⟩
  · exact placed.fits .freequeue _ free isIdle
  · have ready : queues.next s.idleTask ∈ queues.on .readyqueue := Queues.mem_of_first first
    exact Queue.noConfusion (queues.apart free ready)

theorem Placed.takeNext (placed : Placed installed s queues ∅) :
    s.takeNext.1 = queues.next s.idleTask ∧ s.Quiet s.takeNext.2 ∧
      Placed installed s.takeNext.2 (queues.remove (queues.next s.idleTask))
        {queues.next s.idleTask} := by
  have empty := placed.represents.listEmpty_iff .readyqueue
  rcases queues.next_cases s.idleTask with ⟨none, isIdle⟩ | ⟨rest, first⟩
  · have taken : s.takeNext = (s.idleTask, s) := by
      simp [State.takeNext, State.listEmpty, empty.mpr none]
    have idleOff := placed.idle_off (by simp [none])
    rw [taken, isIdle, Queues.remove_off idleOff]
    refine ⟨rfl, .refl s, placed.represents, ?_, ?_, placed.fits, placed.proper⟩
    · rintro task rfl
      exact idleOff
    · exact fun task => .inr ((placed.covered task).resolve_left (Set.notMem_empty task))
  · have notEmpty : s.listEmpty .readyqueue = false := by
      rw [← Bool.not_eq_true, State.listEmpty, empty, first]
      exact List.cons_ne_nil _ _
    have taken : s.takeNext =
        (queues.next s.idleTask, s.listDel (.node (queues.next s.idleTask))) := by
      simp [State.takeNext, notEmpty, State.listFirst, placed.represents.listFirst _ first,
        listHeadToTaskStruct]
    have ready : queues.next s.idleTask ∈ queues.on .readyqueue := Queues.mem_of_first first
    rw [taken]
    refine ⟨rfl, State.listDel_quiet s _, ?_⟩
    simpa using placed.remove ready

theorem prepareRr_accounts (s : State) (t : Task) :
    (s.setState t .ST_RUN).Accounts (s.prepareRr t) := by
  unfold State.prepareRr
  exact ((State.quantum_accounts _ _).trans (State.updateStats_accounts _ _ _)).trans
    ((State.updateStats_accounts _ _ _).trans (State.setStats_accounts _ _ _))

section

variable [Image]

theorem Placed.taskSwitch (placed : Placed installed s queues {task})
    (running : installed = .RR → (s.task task).state = .ST_RUN) :
    Sched installed (s.taskSwitch task) queues := by
  obtain ⟨links, current, idle, -⟩ := s.taskSwitch_frame task
  obtain ⟨saved, returned, trace⟩ := s.taskSwitch_trace task
  have state : ∀ t, ((s.taskSwitch task).task t).state = (s.task t).state := by
    intro t
    obtain ⟨registerEsp, same⟩ := s.taskSwitch_task task t
    rw [same]
  constructor
  · rw [current]
    constructor
    · rw [links]
      exact placed.represents
    · exact placed.offQueues
    · rw [idle]
      exact placed.covered
    · exact fun queue t member => (placed.fits queue t member).congr idle (state t)
    · intro round event member
      rw [trace] at member
      rcases List.mem_cons.mp member with rfl | old
      · trivial
      · exact placed.proper round event old
  · intro round
    rw [current, state]
    exact running round

structure Switches (installed : Installed) (s : State) (queues : Queues) (after : State) :
    Prop where
  switched : ∃ middle, s.Quiet middle ∧ after = middle.taskSwitch (queues.next s.idleTask)
  sched : Sched installed after (queues.remove (queues.next s.idleTask))

theorem Placed.schedNextRr (placed : Placed installed s queues ∅) :
    Switches installed s queues s.schedNextRr := by
  obtain ⟨chosen, quiet, rest⟩ := placed.takeNext
  have result : s.schedNextRr =
      (s.takeNext.2.prepareRr (queues.next s.idleTask)).taskSwitch (queues.next s.idleTask) := by
    rw [← chosen]
    rfl
  have accounts := prepareRr_accounts s.takeNext.2 (queues.next s.idleTask)
  rw [result]
  constructor
  · exact ⟨_, quiet.trans ((State.setState_quiet _ _ _).trans accounts.quiet), rfl⟩
  · refine ((rest.setState rfl .ST_RUN).accounts accounts).taskSwitch fun _ => ?_
    rw [accounts.state, State.setState_state, if_pos rfl]

theorem Placed.schedNextFcfs (placed : Placed .FCFS s queues ∅) :
    Switches .FCFS s queues s.schedNextFcfs := by
  obtain ⟨chosen, quiet, rest⟩ := placed.takeNext
  have accounts := s.takeNext.2.addTicks_accounts (queues.next s.idleTask) .readyTicks
  have result : s.schedNextFcfs =
      (s.takeNext.2.addTicks (queues.next s.idleTask) .readyTicks).taskSwitch
        (queues.next s.idleTask) := by
    rw [← chosen]
    rfl
  rw [result]
  exact ⟨⟨_, quiet.trans accounts.quiet, rfl⟩, (rest.accounts accounts).taskSwitch nofun⟩

theorem Placed.schedNext (placed : Placed installed s queues ∅) :
    Switches installed s queues (installed.policy.schedNext s) := by
  cases installed with
  | RR => exact placed.schedNextRr
  | FCFS => exact placed.schedNextFcfs

end

/-- The first line of `update_process_state_rr`: it unlinks a waiting task. On the
running task it does nothing, or follows the null pointers of its node. -/
theorem Placed.unlink (placed : Placed installed s queues off) (member : task ∈ off)
    (running : installed = .RR → (s.task task).state = .ST_RUN) (linked : Prop)
    [Decidable linked] (waits : installed = .RR → linked → (s.task task).state ≠ .ST_RUN) :
    Placed installed (if linked then s.listDel (.node task) else s) queues off := by
  split
  · rename_i holds
    have first : installed = .FCFS := by
      cases installed with
      | RR => exact absurd (running rfl) (waits rfl holds)
      | FCFS => rfl
    obtain ⟨next, prev⟩ := placed.represents.off (placed.offQueues task member)
    subst first
    refine ⟨?_, placed.offQueues, placed.covered, ?_, nofun⟩
    · show Represents (listDel s.links (.node task)) queues
      rw [listDel_null next prev]
      exact placed.represents
    · exact fun queue t inQueue => (placed.fits queue t inQueue).congr rfl rfl
  · exact placed

/-- `update_process_state_rr` with a queue, its stores in another order. -/
theorem updateProcessStateRr_eq (s : State) (t : Task) (queue : Queue) :
    ∃ middle, (if (s.task t).state ≠ .ST_RUN then s.listDel (.node t) else s).Accounts middle ∧
      s.updateProcessStateRr t (some queue) =
        (middle.setState t (if queue = .readyqueue then .ST_READY else .ST_BLOCKED)).listAddTail
          (.node t) queue := by
  unfold State.updateProcessStateRr
  by_cases ready : queue = .readyqueue
  · subst ready
    exact ⟨_, State.updateStats_accounts _ t .systemTicks, rfl⟩
  · refine ⟨_, .refl _, ?_⟩
    simp only [ready, if_false, ne_eq, not_false_eq_true, if_true]
    rfl

theorem updateProcessStateRr_quiet (s : State) (t : Task) (queue : Queue) :
    s.Quiet (s.updateProcessStateRr t (some queue)) := by
  obtain ⟨middle, relinks, result⟩ := s.updateProcessStateRr_relinks t queue
  rw [result]
  split
  · exact relinks.quiet.trans ((State.updateStats_accounts middle t .systemTicks).quiet.trans
      (State.setState_quiet _ _ _))
  · exact relinks.quiet.trans (State.setState_quiet _ _ _)

theorem updateProcessStateFcfs_quiet (s : State) (t : Task) (dst : Option Queue) :
    s.Quiet (s.updateProcessStateFcfs t dst) :=
  (s.updateProcessStateFcfs_relinks t dst).quiet

theorem updateProcessState_quiet [Image] (installed : Installed) (s : State) (t : Task) (queue : Queue) :
    s.Quiet (installed.policy.updateProcessState s t (some queue)) := by
  cases installed with
  | RR => exact updateProcessStateRr_quiet s t queue
  | FCFS => exact updateProcessStateFcfs_quiet s t (some queue)

/-- What a task must be to go on a queue, before its state field is set. -/
def Admits (installed : Installed) (s : State) (task : Task) : Queue → Prop
  | .freequeue => False
  | .readyqueue => installed = .FCFS → task ≠ s.idleTask
  | .blocking _ => task ≠ s.idleTask

theorem Admits.congr (admits : Admits installed s task queue)
    (idle : after.idleTask = s.idleTask) : Admits installed after task queue := by
  cases queue with
  | freequeue => exact admits
  | readyqueue => rwa [Admits, idle]
  | blocking n => rwa [Admits, idle]

theorem Placed.enqueue (placed : Placed installed s queues off) (outside : queues.Off task)
    (member : task ∈ off) (admits : Admits installed s task queue) :
    Placed installed
      ((s.setState task (if queue = .readyqueue then .ST_READY else .ST_BLOCKED)).listAddTail
        (.node task) queue) (queues.push task queue outside) (off \ {task}) := by
  refine (placed.setState member _).push queue outside ?_
  cases queue with
  | freequeue => exact admits.elim
  | readyqueue =>
      cases installed with
      | RR => simp [Fits]
      | FCFS => exact admits rfl
  | blocking n => exact ⟨admits, fun _ => by simp⟩

theorem Placed.enqueueRr (placed : Placed installed s queues {task}) (queue : Queue)
    (running : installed = .RR → (s.task task).state = .ST_RUN)
    (admits : Admits installed s task queue) :
    Placed installed (s.updateProcessStateRr task (some queue))
      (queues.push task queue (placed.offQueues task rfl)) ∅ := by
  obtain ⟨middle, accounts, result⟩ := updateProcessStateRr_eq s task queue
  have unlinked := placed.unlink rfl running ((s.task task).state ≠ .ST_RUN) fun _ holds => holds
  have idle : middle.idleTask = s.idleTask := by
    rw [accounts.idleTask]
    split <;> rfl
  have enqueued := (unlinked.accounts accounts).enqueue (placed.offQueues task rfl)
    (Set.mem_singleton task)
    (admits.congr idle)
  rw [result]
  rwa [Set.sdiff_self] at enqueued

/-- `update_process_state_fcfs` on the running task; idle stays off. -/
theorem Placed.enqueueFcfs (placed : Placed .FCFS s queues {task}) (queue : Queue)
    (admits : task ≠ s.idleTask → Admits .FCFS s task queue) :
    ∃ queues', (∀ t, t ∈ queues'.on .freequeue ↔ t ∈ queues.on .freequeue) ∧
      Placed .FCFS (s.updateProcessStateFcfs task (some queue)) queues' ∅ := by
  have outside := placed.offQueues task rfl
  have null := placed.represents.next_eq_none_iff.mpr outside
  simp only [State.updateProcessStateFcfs, null, ne_eq, not_true_eq_false, if_false]
  by_cases idle : task = s.idleTask
  · subst idle
    simp only [not_true_eq_false, if_false]
    refine ⟨queues, fun _ => .rfl, placed.represents, ?_, ?_, placed.fits, placed.proper⟩
    · exact fun _ member => absurd member (Set.notMem_empty _)
    · intro t
      rcases placed.covered t with rfl | rest
      · exact .inr (.inl rfl)
      · exact .inr rest
  · simp only [idle, not_false_eq_true, if_true]
    have fits : Fits .FCFS s task queue := by
      have enqueued := admits idle
      cases queue with
      | freequeue => exact enqueued.elim
      | readyqueue => exact enqueued rfl
      | blocking n => exact ⟨enqueued, nofun⟩
    have pushed := placed.push queue outside fits
    rw [Set.sdiff_self] at pushed
    refine ⟨_, fun t => ?_, pushed⟩
    rw [Queues.mem_push]
    cases queue with
    | freequeue => exact (admits idle).elim
    | readyqueue => simp
    | blocking n => simp

end Zeos
