import Zeos.Time.Conservation

/-!
# Attribution of user and system time

Runs of the kernel with the way in and out of it. `clock_handler` and
`keyboard_handler` call `user_to_system` first and `system_to_user` last;
`system_call_handler` calls neither, and a task that is switched to goes back the
way it once came in. The history says when each task last returned to user mode
and how long it has been there.
-/

namespace Zeos

open Library

/-- Where a task is, or will be when it runs again. -/
inductive Mode where
  | user
  /-- In `system_call_handler`, or in `main` before the first return. -/
  | inCall
  /-- In `clock_handler` or `keyboard_handler`. -/
  | inInterrupt
  | idling
  deriving DecidableEq

structure Timed where
  state : State
  mode : Task → Mode
  /-- When the task last returned to user mode. -/
  since : Task → DWord
  /-- All its time in user mode up to its last entry. -/
  spent : Task → DWord
  /-- When its present stay in the kernel began: at the entry, or at the reading of
  the clock `sched_next` ends with when it gives the task the processor. -/
  arrived : Task → DWord

/-- What happens next. Times are what `get_ticks` would have returned. -/
inductive Moment where
  /-- An interrupt, up to the end of `user_to_system`. -/
  | interrupt
  | call (time : DWord)
  | work (op : Op)
  /-- `system_to_user` and `iret`. -/
  | interruptReturn
  /-- `sysexit`, or the first return to user mode. -/
  | callReturn (time : DWord)

def Mode.does : Mode → Op → Prop
  | _, .touch _ => True
  | .inCall, .fork _ | .inCall, .exit _ | .inCall, .yield _ | .inCall, .block _ _ => True
  | .inInterrupt, .unblock _ _ | .inInterrupt, .tick _ => True
  | _, _ => False

namespace Timed

variable (before : Timed)

def current : Task := before.state.current

def stats (t : Task) : Stats := (before.state.task t).pStats

def mark : DWord := (before.stats before.current).elapsedTotalTicks

def enter (mode : Mode) (time : DWord) (state : State) : Timed :=
  let t := before.current
  if before.mode t = .user then
    { before with
      state := state
      mode := Function.update before.mode t mode
      spent := Function.update before.spent t (before.spent t + (time - before.since t))
      arrived := Function.update before.arrived t time }
  else { before with state := state, mode := Function.update before.mode t mode }

/-- The running task leaves the kernel. Idle goes back to its loop. -/
def leave (time : DWord) (state : State) : Timed :=
  let t := before.current
  { before with
    state := state
    mode := Function.update before.mode t (if t = before.state.idleTask then .idling else .user)
    since := Function.update before.since t time }

/-- A step may hand the processor over. -/
def hand (after : State) : Timed :=
  { before with
    state := after
    arrived :=
      if after.current = before.current then before.arrived
      else Function.update before.arrived after.current
        (after.task after.current).pStats.elapsedTotalTicks }

def born (child : Option Task) : Timed :=
  match child with
  | some child =>
      { before with
        mode := Function.update before.mode child .inCall
        spent := Function.update before.spent child 0 }
  | none => before

end Timed

section

variable [Image]

namespace Timed

variable (before : Timed)

/-- A child goes back to user mode through `ret_from_fork`. -/
def work (policy : Policy) (op : Op) : Timed :=
  (before.hand (before.state.step policy op)).born (before.state.forked op)

def next (policy : Policy) : Moment → Timed
  | .interrupt =>
      before.enter .inInterrupt (before.state.clock 0)
        (before.state.step policy (.charge .userTicks))
  | .call time => before.enter .inCall time before.state
  | .work op => before.work policy op
  | .interruptReturn =>
      before.leave (before.state.clock 0) (before.state.step policy (.charge .systemTicks))
  | .callReturn time => before.leave time before.state

/-- Interrupts come in user mode or in the loop of idle; a given time is not before
the last event of the running task and not after the next reading of the clock. -/
def Enabled : Moment → Prop
  | .interrupt => before.mode before.current = .user ∨ before.mode before.current = .idling
  | .call time =>
      before.mode before.current = .user ∧ before.since before.current ≤ time ∧
        time ≤ before.state.clock 0
  | .work op => (before.mode before.current).does op ∧ before.state.Enabled op
  | .interruptReturn => before.mode before.current = .inInterrupt
  | .callReturn time =>
      before.mode before.current = .inCall ∧ before.mark ≤ time ∧ time ≤ before.state.clock 0

/-- After boot `main` is still in the kernel, on behalf of the first process. -/
def boot (memory : State) : Timed where
  state := memory.boot
  mode t := if t = memory.boot.idleTask then .idling else .inCall
  since _ := 0
  spent _ := 0
  arrived t := (memory.boot.task t).pStats.elapsedTotalTicks

end Timed

def timed (installed : Installed) (memory : State) : System Timed Moment where
  initial before := before = .boot memory
  enabled := Timed.Enabled
  next before moment := before.next installed.policy moment

end

def Moment.entry (before : Timed) : Moment → Option DWord
  | .interrupt => if before.mode before.current = .user then some (before.state.clock 0) else none
  | .call time => some time
  | _ => none

def Moment.userTime (before : Timed) (moment : Moment) (t : Task) : DWord :=
  match moment.entry before with
  | some time => if t = before.current then time - before.since t else 0
  | none => 0

/-- At an entry the time in user mode goes on `user_ticks` and nothing on any other
counter; `user_ticks` grows at entries only; and `system_ticks` grows only for the
running task, by a part of its present stay in the kernel. -/
structure Attributed (before : Timed) (moment : Moment) (after : Timed) : Prop where
  user : ∀ t, before.state.Live t →
    (after.stats t).userTicks = (before.stats t).userTicks + moment.userTime before t
  entry : moment.entry before ≠ none → ∀ t, before.state.Live t →
    ∀ v, v ≠ .userTicks → (after.stats t).count v = (before.stats t).count v
  system : ∀ t, before.state.Live t →
    (after.stats t).systemTicks = (before.stats t).systemTicks ∨
      (t = before.current ∧ before.mode t ≠ .user ∧ before.arrived t ≤ before.mark ∧
        before.mark ≤ (after.stats t).elapsedTotalTicks ∧
        (after.stats t).systemTicks - (before.stats t).systemTicks ≤
          (after.stats t).elapsedTotalTicks - before.mark)

/-- `user_ticks` is the whole time in user mode up to the last entry. -/
def Timed.UserTimeRight (timed : Timed) : Prop :=
  ∀ t, timed.state.Live t → (timed.stats t).userTicks = timed.spent t

/-- No time passes where the code does not look at the clock: before an interrupt of
idle, in user mode before a system call, in the kernel before the return from one, and
before `unblock_process` enqueues a task under round robin. -/
def OnTime (installed : Installed) (before : Timed) : Moment → Prop
  | .interrupt => before.mode before.current = .idling → before.state.clock 0 = before.mark
  | .call time => time = before.mark
  | .work (.unblock _ _) => installed = .RR → before.state.clock 1 = before.state.clock 2
  | .callReturn time => time = before.mark
  | _ => True

namespace State

def Forward (s : State) : Prop := ∀ n, s.clock n ≤ s.clock (n + 1)

/-- The task is accounted for up to some moment in the past. -/
def Past (s : State) (t : Task) : Prop := (s.task t).pStats.elapsedTotalTicks ≤ s.clock 0

/-- Kernel code charges no user time, and system time to the running task only. -/
def ByKernel (running t : Task) (v : Counter) : Prop :=
  v ≠ .userTicks ∧ (v = .systemTicks → t = running)

def Charges (running : Task) (s after : State) : Prop :=
  s.Forward → after.Forward ∧ ∀ t, s.Past t →
    after.Past t ∧ Books (ByKernel running t) (s.task t).pStats (after.task t).pStats

variable {running : Task} {s middle after : State}

theorem Charges.of_same (clock : after.clock = s.clock)
    (meters : ∀ t, (after.task t).pStats.meter = (s.task t).pStats.meter) :
    Charges running s after := by
  intro forward
  refine ⟨by unfold Forward; rw [clock]; exact forward, fun t past => ⟨?_, .of_meter (meters t)⟩⟩
  have mark := congrArg Meter.mark (meters t)
  change (after.task t).pStats.elapsedTotalTicks = _ at mark
  rw [Past, mark, clock]
  exact past

theorem Charges.refl (running : Task) (s : State) : Charges running s s := .of_same rfl fun _ => rfl

theorem Charges.trans (first : Charges running s middle) (second : Charges running middle after) :
    Charges running s after := by
  intro forward
  obtain ⟨moved, head⟩ := first forward
  obtain ⟨movedOn, tail⟩ := second moved
  refine ⟨movedOn, fun t past => ?_⟩
  obtain ⟨between, books⟩ := head t past
  exact ⟨(tail t between).1, books.trans (tail t between).2⟩

theorem updateStats_count (s : State) (task t : Task) (v other : Counter) :
    ((s.updateStats task v).task t).pStats.count other = (s.task t).pStats.count other +
      if t = task ∧ other = v then s.clock 0 - (s.task t).pStats.elapsedTotalTicks else 0 := by
  have count := congrArg Meter.count (s.updateStats_meter task t v)
  change ((s.updateStats task v).task t).pStats.count = _ at count
  rw [count]
  by_cases same : t = task
  · rw [if_pos same]
    by_cases counter : other = v
    · rw [if_pos ⟨same, counter⟩, counter]
      exact Function.update_self _ _ _
    · rw [if_neg fun both => counter both.2, add_zero]
      exact Function.update_of_ne counter _ _
  · rw [if_neg same, if_neg fun both => same both.1, add_zero]
    rfl

theorem updateStats_mark (s : State) (task t : Task) (v : Counter) :
    ((s.updateStats task v).task t).pStats.elapsedTotalTicks =
      if t = task then s.clock 0 else (s.task t).pStats.elapsedTotalTicks := by
  have mark := congrArg Meter.mark (s.updateStats_meter task t v)
  change ((s.updateStats task v).task t).pStats.elapsedTotalTicks = _ at mark
  rw [mark]
  split <;> rfl

theorem updateStats_past (forward : s.Forward) {t : Task} (past : s.Past t) (task : Task)
    (v : Counter) : (s.updateStats task v).Past t := by
  have later : (s.updateStats task v).clock 0 = s.clock 1 := rfl
  rw [Past, updateStats_mark, later]
  split
  · exact forward 0
  · exact BitVec.le_trans past (forward 0)

theorem updateStats_charges (s : State) (task : Task) (v : Counter)
    (allowed : ByKernel running task v ∨ s.clock 0 = (s.task task).pStats.elapsedTotalTicks) :
    Charges running s (s.updateStats task v) := by
  refine fun forward => ⟨fun n => forward (n + 1), fun t past =>
    ⟨updateStats_past forward past task v, ?_⟩⟩
  have meter := s.updateStats_meter task t v
  by_cases same : t = task
  · subst same
    rw [if_pos rfl] at meter
    rcases allowed with allowed | still
    · exact .charge allowed past (BitVec.le_refl _) meter
    · rw [show s.clock 0 = (s.task t).pStats.meter.mark from still, Meter.charge_mark] at meter
      exact .of_meter meter
  · rw [if_neg same] at meter
    exact .of_meter meter

theorem addTicks_charges (s : State) (task : Task) (v : Counter)
    (allowed : ByKernel running task v) : Charges running s (s.addTicks task v) := by
  refine fun forward => ⟨fun n => forward (n + 2), fun t past => ?_⟩
  have meter := s.addTicks_meter task t v
  have later : (s.addTicks task v).clock 0 = s.clock 2 := rfl
  by_cases same : t = task
  · subst same
    rw [if_pos rfl] at meter
    have mark : ((s.addTicks t v).task t).pStats.elapsedTotalTicks = s.clock 1 :=
      congrArg Meter.mark meter
    exact ⟨by rw [Past, mark, later]; exact forward 1, .charge allowed past (forward 0) meter⟩
  · rw [if_neg same] at meter
    have mark : ((s.addTicks task v).task t).pStats.elapsedTotalTicks =
        (s.task t).pStats.elapsedTotalTicks := congrArg Meter.mark meter
    refine ⟨?_, .of_meter meter⟩
    rw [Past, mark, later]
    exact BitVec.le_trans past (BitVec.le_trans (forward 0) (forward 1))

theorem setTask_charges (s : State) (task : Task) {f : TaskStruct → TaskStruct}
    (meter : (f (s.task task)).pStats.meter = (s.task task).pStats.meter) :
    Charges running s (s.setTask task f) := by
  refine .of_same rfl fun t => ?_
  rw [setTask_task]
  split
  · rename_i same
    rw [same, meter]
  · rfl

theorem Relinks.charges {after : State} (relinks : s.Relinks after) : Charges running s after := by
  obtain ⟨_, _, rfl, _⟩ := relinks
  exact .of_same rfl fun _ => rfl

theorem prepareRr_charges (s : State) (t : Task) : Charges s.current s (s.prepareRr t) := by
  have started : Charges s.current s (s.setState t .ST_RUN) := s.setTask_charges t rfl
  have current : (s.setState t .ST_RUN).current = s.current := rfl
  unfold prepareRr
  dsimp only
  generalize s.setState t .ST_RUN = middle at started current ⊢
  have loaded : Charges s.current s
      { middle with remainingQuantum := (middle.task t).totalQuantum } :=
    started.trans (.of_same rfl fun _ => rfl)
  have out := loaded.trans (updateStats_charges _ middle.current .systemTicks
    (.inl ⟨Counter.noConfusion, fun _ => current⟩))
  have counted := out.trans (updateStats_charges _ t .readyTicks
    (.inl ⟨Counter.noConfusion, Counter.noConfusion⟩))
  exact counted.trans (setTask_charges _ t rfl)

section

variable [Image]

theorem taskSwitch_charges (s : State) (new : Task) : Charges running s (s.taskSwitch new) := by
  refine .of_same (s.taskSwitch_globals new).1 fun t => ?_
  obtain ⟨registerEsp, same⟩ := s.taskSwitch_task new t
  rw [same]

theorem schedNextRr_charges (s : State) : Charges s.current s s.schedNextRr := by
  have current : s.takeNext.2.current = s.current := s.takeNext_relinks.quiet.current
  have prepared := prepareRr_charges s.takeNext.2 s.takeNext.1
  rw [current] at prepared
  have result : s.schedNextRr = (s.takeNext.2.prepareRr s.takeNext.1).taskSwitch s.takeNext.1 := rfl
  rw [result]
  exact (s.takeNext_relinks.charges.trans prepared).trans (taskSwitch_charges _ s.takeNext.1)

theorem schedNextFcfs_charges (s : State) : Charges running s s.schedNextFcfs := by
  have counted := @addTicks_charges running s.takeNext.2 s.takeNext.1 .readyTicks
    ⟨Counter.noConfusion, Counter.noConfusion⟩
  have result : s.schedNextFcfs =
      (s.takeNext.2.addTicks s.takeNext.1 .readyTicks).taskSwitch s.takeNext.1 := rfl
  rw [result]
  exact (s.takeNext_relinks.charges.trans counted).trans (taskSwitch_charges _ s.takeNext.1)

theorem schedNext_charges (installed : Installed) (s : State) :
    Charges s.current s (installed.policy.schedNext s) := by
  cases installed with
  | RR => exact s.schedNextRr_charges
  | FCFS => exact s.schedNextFcfs_charges

end

theorem updateProcessStateRr_charges (s : State) (t : Task) (queue : Queue)
    (allowed : queue = .readyqueue →
      t = running ∨ s.clock 0 = (s.task t).pStats.elapsedTotalTicks) :
    Charges running s (s.updateProcessStateRr t (some queue)) := by
  obtain ⟨middle, relinks, result⟩ := s.updateProcessStateRr_relinks t queue
  have moved : Charges running s middle := relinks.charges
  rw [result]
  split
  · rename_i ready
    refine (moved.trans (updateStats_charges middle t .systemTicks ?_)).trans
      (setTask_charges _ t rfl)
    rcases allowed ready with same | still
    · exact .inl ⟨Counter.noConfusion, fun _ => same⟩
    · obtain ⟨_, _, rfl, _⟩ := relinks
      exact .inr still
  · exact moved.trans (setTask_charges middle t rfl)

theorem updateProcessStateFcfs_charges (s : State) (t : Task) (dst : Option Queue) :
    Charges running s (s.updateProcessStateFcfs t dst) :=
  (s.updateProcessStateFcfs_relinks t dst).charges

theorem updateProcessState_charges [Image] (installed : Installed) (s : State) (t : Task)
    (queue : Queue) (allowed : installed = .RR → queue = .readyqueue →
      t = running ∨ s.clock 0 = (s.task t).pStats.elapsedTotalTicks) :
    Charges running s (installed.policy.updateProcessState s t (some queue)) := by
  cases installed with
  | RR => exact s.updateProcessStateRr_charges t queue (allowed rfl)
  | FCFS => exact s.updateProcessStateFcfs_charges t (some queue)

section

variable [Image]

theorem handOver_charges (installed : Installed) (s : State) (queue : Queue) :
    Charges s.current s (installed.policy.schedNext
      (installed.policy.updateProcessState s s.current (some queue))) := by
  have queued := @updateProcessState_charges s.current _ installed s s.current queue
    fun _ _ => .inl rfl
  have current := (updateProcessState_quiet installed s s.current queue).current
  generalize installed.policy.updateProcessState s s.current (some queue) = middle
    at queued current ⊢
  have switched := schedNext_charges installed middle
  rw [current] at switched
  exact queued.trans switched

theorem reschedule_charges (installed : Installed) (s : State) :
    Charges s.current s (s.reschedule installed.policy) := by
  cases installed with
  | RR =>
      rcases reschedule_rr s with result | ⟨_, result⟩
      · show Charges s.current s (s.reschedule .rr)
        rw [result]
        obtain ⟨quantum, asked⟩ := s.needsSchedRr_writes
        rw [asked]
        exact .of_same rfl fun _ => rfl
      · have moved := handOver_charges .RR s .readyqueue
        simp only [Installed.policy, Policy.rr] at moved
        show Charges s.current s (s.reschedule .rr)
        rw [result]
        exact moved
  | FCFS =>
      show Charges s.current s (s.reschedule .fcfs)
      have moved := handOver_charges .FCFS s .readyqueue
      simp only [Installed.policy, Policy.fcfs] at moved
      simp only [reschedule, Policy.fcfs, needsSchedFcfs, decide_eq_true_eq]
      split
      · exact moved
      · exact .refl _ s

theorem blockProcess_charges (installed : Installed) (s : State) (queue : Queue) :
    Charges s.current s (s.blockProcess installed.policy queue) := by
  have queued := @updateProcessState_charges s.current _ installed s s.current queue
    fun _ _ => .inl rfl
  have current := (updateProcessState_quiet installed s s.current queue).current
  unfold blockProcess
  dsimp only
  generalize installed.policy.updateProcessState s s.current (some queue) = middle
    at queued current ⊢
  have counted := queued.trans (addTicks_charges middle s.current .systemTicks
    ⟨Counter.noConfusion, fun _ => rfl⟩)
  have still := (addTicks_accounts middle s.current .systemTicks).current.trans current
  generalize middle.addTicks s.current .systemTicks = left at counted still ⊢
  have switched := schedNext_charges installed left
  rw [still] at switched
  exact counted.trans switched

theorem unblockProcess_charges (installed : Installed) (s : State) (blocked : Task)
    (still : installed = .RR → s.clock 1 = s.clock 2) :
    Charges s.current s (s.unblockProcess installed.policy blocked) := by
  have counted := @addTicks_charges s.current s blocked .blockedTicks
    ⟨Counter.noConfusion, Counter.noConfusion⟩
  have mark : ((s.addTicks blocked .blockedTicks).task blocked).pStats.elapsedTotalTicks =
      s.clock 1 := by
    have meter := s.addTicks_meter blocked blocked .blockedTicks
    rw [if_pos rfl] at meter
    exact congrArg Meter.mark meter
  have clock : (s.addTicks blocked .blockedTicks).clock 0 = s.clock 2 := rfl
  have kept : (s.addTicks blocked .blockedTicks).current = s.current := rfl
  unfold unblockProcess
  dsimp only
  generalize s.addTicks blocked .blockedTicks = middle at counted mark clock kept ⊢
  have woken := counted.trans (@updateProcessState_charges s.current _ installed middle
    blocked .readyqueue fun round _ => .inr (by rw [clock, mark, still round]))
  have current := (updateProcessState_quiet installed middle blocked .readyqueue).current
  generalize installed.policy.updateProcessState middle blocked (some .readyqueue) = left
    at woken current ⊢
  have rest := reschedule_charges installed left
  rw [current, kept] at rest
  exact woken.trans rest

theorem sysExit_charges (s : State) : Charges s.current s s.sysExit := by
  unfold sysExit
  dsimp only
  generalize s.mm.freeData (s.getPT s.current) NUM_PAG_DATA = mm
  have left : Charges s.current s (listAddTail { s with mm := mm } (.node s.current) .freequeue) :=
    .of_same rfl fun _ => rfl
  have current : (listAddTail { s with mm := mm } (.node s.current) .freequeue).current =
      s.current := rfl
  generalize listAddTail { s with mm := mm } (.node s.current) .freequeue = middle
    at left current ⊢
  have cleared := left.trans (setTask_charges middle middle.current
    (f := fun t => { t with PID := -1 }) rfl)
  have still : (middle.setTask middle.current fun t => { t with PID := -1 }).current = s.current :=
    current
  generalize middle.setTask middle.current (fun t => { t with PID := -1 }) = gone
    at cleared still ⊢
  have switched := schedNextRr_charges gone
  rw [still] at switched
  exact cleared.trans switched

theorem clockRoutine_charges (installed : Installed) (s : State) :
    Charges s.current s (s.clockRoutine installed.policy) := by
  have counted : ∃ middle, s.clockRoutine installed.policy = middle.reschedule installed.policy ∧
      Charges s.current s middle ∧ middle.current = s.current := by
    cases installed with
    | RR => exact ⟨_, rfl, .of_same rfl fun _ => rfl, rfl⟩
    | FCFS => exact ⟨_, rfl, .of_same rfl fun _ => rfl, rfl⟩
  obtain ⟨middle, result, head, current⟩ := counted
  have rest := reschedule_charges installed middle
  rw [current] at rest
  rw [result]
  exact head.trans rest

theorem enter_charges {below above : Nat} (s : State) (site : CallSite below above) :
    Charges running s (s.enter site) :=
  .of_same rfl fun _ => rfl

/-- What a handler calls charges the time of the kernel to the task that runs. -/
theorem step_charges (installed : Installed) (s : State) {op : Op} (other : op.isFork = false)
    (kernel : ∀ v, op = .charge v → v ≠ .userTicks)
    (still : ∀ site blocked, op = .unblock site blocked → installed = .RR →
      s.clock 1 = s.clock 2) :
    Charges s.current s (s.step installed.policy op) := by
  cases op with
  | fork site => exact absurd other Bool.noConfusion
  | exit site => exact (s.enter_charges site).trans (s.enter site).sysExit_charges
  | yield site =>
      have moved := handOver_charges .RR (s.enter site) .readyqueue
      simp only [Installed.policy, Policy.rr] at moved
      exact (s.enter_charges site).trans moved
  | block site n => exact (s.enter_charges site).trans (blockProcess_charges installed _ _)
  | unblock site blocked =>
      exact (s.enter_charges site).trans
        (unblockProcess_charges installed (s.enter site) blocked (still site blocked rfl))
  | tick site => exact (s.enter_charges site).trans (clockRoutine_charges installed _)
  | charge v =>
      exact s.updateStats_charges s.current v (.inl ⟨kernel v rfl, fun _ => rfl⟩)
  | touch page => exact .of_same rfl fun _ => rfl

end

end State

/-- The mark of the running task is where its present stay in user mode began, or lies
in its present stay in the kernel; no other task is in user mode. -/
structure Timed.Kept (installed : Installed) (timed : Timed) : Prop where
  sched : ∃ queues, Sched installed timed.state queues
  forward : timed.state.Forward
  past : ∀ t, timed.state.Live t → timed.state.Past t
  right : timed.UserTimeRight
  inUser : timed.mode timed.current = .user → timed.mark = timed.since timed.current
  inKernel : timed.mode timed.current ≠ .user → timed.arrived timed.current ≤ timed.mark
  away : ∀ t, timed.state.Live t → t ≠ timed.current → timed.mode t ≠ .user

section

variable {installed : Installed} {timed : Timed}

theorem Timed.enter_spent (timed : Timed) (mode : Mode) (time : DWord) (state : State) (t : Task) :
    (timed.enter mode time state).spent t = timed.spent t +
      if t = timed.current ∧ timed.mode timed.current = .user then time - timed.since t else 0 := by
  unfold Timed.enter
  dsimp only
  split
  · rename_i user
    by_cases same : t = timed.current
    · rw [if_pos ⟨same, user⟩, same]
      exact Function.update_self _ _ _
    · rw [if_neg fun both => same both.1, add_zero]
      exact Function.update_of_ne same _ _
  · rename_i kernel
    rw [if_neg fun both => kernel both.2, add_zero]

theorem Timed.enter_away (timed : Timed) (mode : Mode) (time : DWord) (state : State) {t : Task}
    (apart : t ≠ timed.current) : (timed.enter mode time state).mode t = timed.mode t := by
  unfold Timed.enter
  dsimp only
  split <;> exact Function.update_of_ne apart _ _

theorem Timed.enter_mode (timed : Timed) (mode : Mode) (time : DWord) (state : State) :
    (timed.enter mode time state).mode timed.current = mode := by
  unfold Timed.enter
  dsimp only
  split <;> exact Function.update_self _ _ _

theorem Timed.enter_state (timed : Timed) (mode : Mode) (time : DWord) (state : State) :
    (timed.enter mode time state).state = state := by
  unfold Timed.enter
  dsimp only
  split <;> rfl

theorem Timed.enter_arrived (timed : Timed) (mode : Mode) (time : DWord) (state : State)
    (before : timed.mode timed.current ≠ .user → timed.arrived timed.current ≤ time) :
    (timed.enter mode time state).arrived timed.current ≤ time := by
  unfold Timed.enter
  dsimp only
  split
  · simp only [Function.update_self]
    exact BitVec.le_refl _
  · rename_i kernel
    exact before kernel

theorem Timed.leave_away (timed : Timed) (time : DWord) (state : State) {t : Task}
    (apart : t ≠ timed.current) : (timed.leave time state).mode t = timed.mode t :=
  Function.update_of_ne apart _ _

theorem Timed.leave_since (timed : Timed) (time : DWord) (state : State) :
    (timed.leave time state).since timed.current = time :=
  Function.update_self _ _ _

/-- The state after a step in which the running task stays on the processor, with its
mark at `time`. -/
structure Timed.Follows (installed : Installed) (timed : Timed) (time : DWord) (after : State) :
    Prop where
  sched : ∃ queues, Sched installed after queues
  forward : after.Forward
  past : ∀ t, after.Live t → after.Past t
  live : ∀ t, after.Live t ↔ timed.state.Live t
  current : after.current = timed.current
  mark : (after.task timed.current).pStats.elapsedTotalTicks = time
  later : timed.mark ≤ time

theorem Timed.Kept.follows (kept : timed.Kept installed) :
    timed.Follows installed timed.mark timed.state :=
  ⟨kept.sched, kept.forward, kept.past, fun _ => .rfl, rfl, rfl, BitVec.le_refl _⟩

theorem Timed.Kept.current_live (kept : timed.Kept installed) : timed.state.Live timed.current := by
  obtain ⟨queues, sched⟩ := kept.sched
  exact fun free => sched.current_off _ (sched.represents.on_iff.mp free)

theorem Timed.Kept.charged [Image] (kept : timed.Kept installed) (v : Counter) :
    timed.Follows installed (timed.state.clock 0) (timed.state.updateStats timed.current v) := by
  have live : ∀ t, (timed.state.updateStats timed.current v).Live t ↔ timed.state.Live t :=
    fun _ => .rfl
  obtain ⟨queues, sched⟩ := kept.sched
  refine ⟨⟨queues, sched.accounts (timed.state.updateStats_accounts timed.current v)⟩,
    fun n => kept.forward (n + 1), fun t alive => ?_, live, rfl, ?_, kept.past _ kept.current_live⟩
  · exact State.updateStats_past kept.forward (kept.past t ((live t).mp alive)) timed.current v
  · rw [State.updateStats_mark, if_pos rfl]

theorem Timed.Kept.enter (kept : timed.Kept installed) {mode : Mode} {time : DWord}
    {after : State} (kernel : mode ≠ .user) (follows : timed.Follows installed time after)
    (user : ∀ t, (after.task t).pStats.userTicks = (timed.stats t).userTicks +
      if t = timed.current ∧ timed.mode timed.current = .user then time - timed.since t else 0) :
    (timed.enter mode time after).Kept installed := by
  have state := timed.enter_state mode time after
  have entered := timed.enter_mode mode time after
  have current : (timed.enter mode time after).current = timed.current := by
    rw [Timed.current, state, follows.current]
  constructor
  · rw [state]
    exact follows.sched
  · rw [state]
    exact follows.forward
  · rw [state]
    exact follows.past
  · intro t live
    rw [state] at live
    rw [Timed.stats, state, user, enter_spent, kept.right t ((follows.live t).mp live)]
  · intro inUser
    rw [current, entered] at inUser
    exact absurd inUser kernel
  · intro _
    rw [Timed.mark, current, Timed.stats, state, follows.mark]
    exact timed.enter_arrived mode time after fun inKernel =>
      BitVec.le_trans (kept.inKernel inKernel) follows.later
  · intro t live apart
    rw [state, follows.live] at live
    rw [current] at apart
    rw [timed.enter_away mode time after apart]
    exact kept.away t live apart

theorem Timed.Kept.leave (kept : timed.Kept installed) {time : DWord} {after : State}
    (kernel : timed.mode timed.current ≠ .user) (follows : timed.Follows installed time after)
    (user : ∀ t, (after.task t).pStats.userTicks = (timed.stats t).userTicks) :
    (timed.leave time after).Kept installed := by
  have state : (timed.leave time after).state = after := rfl
  have since := timed.leave_since time after
  have current : (timed.leave time after).current = timed.current := follows.current
  have mark : (timed.leave time after).mark = time := by
    rw [Timed.mark, current]
    exact follows.mark
  constructor
  · exact follows.sched
  · exact follows.forward
  · exact follows.past
  · intro t live
    rw [state] at live
    exact (user t).trans (kept.right t ((follows.live t).mp live))
  · intro _
    rw [mark, current, since]
  · intro _
    rw [mark, current]
    exact BitVec.le_trans (kept.inKernel kernel) follows.later
  · intro t live apart
    rw [state, follows.live] at live
    rw [current] at apart
    rw [timed.leave_away time after apart]
    exact kept.away t live apart

end

section

variable [Image] {installed : Installed} {timed : Timed}

omit [Image] in
theorem Timed.charge_count (timed : Timed) (v other : Counter) (t : Task) :
    ((timed.state.updateStats timed.current v).task t).pStats.count other =
      (timed.stats t).count other +
        if t = timed.current ∧ other = v then timed.state.clock 0 - timed.mark else 0 := by
  rw [State.updateStats_count]
  by_cases same : t = timed.current
  · rw [same]
    rfl
  · rw [if_neg fun both => same both.1, if_neg fun both => same both.1]
    rfl

theorem Timed.Kept.interrupt (kept : timed.Kept installed)
    (onTime : OnTime installed timed .interrupt) (enabled : timed.Enabled .interrupt) :
    Attributed timed .interrupt (timed.next installed.policy .interrupt) ∧
      (timed.next installed.policy .interrupt).Kept installed := by
  have follows := kept.charged .userTicks
  have counts := timed.charge_count .userTicks
  -- an interrupt of idle finds nothing to charge
  have elapsed : ∀ t, (if t = timed.current then timed.state.clock 0 - timed.mark else 0) =
      if t = timed.current ∧ timed.mode timed.current = .user then
        timed.state.clock 0 - timed.since t else 0 := by
    intro t
    by_cases same : t = timed.current
    · rw [if_pos same]
      rcases enabled with user | idling
      · rw [if_pos ⟨same, user⟩, kept.inUser user, same]
      · rw [if_neg fun both => Mode.noConfusion (idling.symm.trans both.2), onTime idling, sub_self]
    · rw [if_neg same, if_neg fun both => same both.1]
  have user : ∀ t, ((timed.state.updateStats timed.current .userTicks).task t).pStats.userTicks =
      (timed.stats t).userTicks + if t = timed.current ∧ timed.mode timed.current = .user then
        timed.state.clock 0 - timed.since t else 0 := by
    intro t
    have count := counts .userTicks t
    simp only [and_true] at count
    rw [← elapsed]
    exact count
  have others : ∀ v, v ≠ .userTicks → ∀ t,
      ((timed.next installed.policy .interrupt).stats t).count v = (timed.stats t).count v := by
    intro v apart t
    have count := counts v t
    rw [if_neg fun both => apart both.2, add_zero] at count
    rw [Timed.stats, Timed.next, Timed.enter_state]
    exact count
  refine ⟨⟨fun t _ => ?_, fun _ t _ v apart => others v apart t, fun t _ => .inl ?_⟩,
    kept.enter Mode.noConfusion follows user⟩
  · rw [Timed.stats, Timed.next, Timed.enter_state]
    refine (user t).trans (congrArg _ ?_)
    unfold Moment.userTime Moment.entry
    by_cases inUser : timed.mode timed.current = .user <;> simp [inUser]
  · exact others .systemTicks Counter.noConfusion t

theorem Timed.Kept.call (kept : timed.Kept installed) {time : DWord}
    (onTime : OnTime installed timed (.call time)) (enabled : timed.Enabled (.call time)) :
    Attributed timed (.call time) (timed.next installed.policy (.call time)) ∧
      (timed.next installed.policy (.call time)).Kept installed := by
  have mark : time = timed.mark := onTime
  have still : ∀ t, t = timed.current → time - timed.since t = 0 := by
    rintro t rfl
    rw [mark, kept.inUser enabled.1, sub_self]
  have follows := mark ▸ kept.follows
  have same : ∀ t, (timed.next installed.policy (.call time)).stats t = timed.stats t := by
    intro t
    rw [Timed.stats, Timed.next, Timed.enter_state]
    rfl
  refine ⟨⟨fun t _ => ?_, fun _ t _ v _ => by rw [same], fun t _ => .inl (by rw [same])⟩,
    kept.enter Mode.noConfusion follows fun t => ?_⟩
  · rw [same]
    show _ = _ + ite _ _ _
    split
    · rename_i here
      rw [still t here, add_zero]
    · rw [add_zero]
  · show (timed.stats t).userTicks = _
    split
    · rename_i here
      rw [still t here.1, add_zero]
    · rw [add_zero]

omit [Image] in
/-- Kernel code that charges the running task attributes the time well. -/
theorem Timed.Kept.attributed (kept : timed.Kept installed) {moment : Moment} {after : Timed}
    (inside : moment.entry timed = none) (inKernel : timed.mode timed.current ≠ .user)
    (books : ∀ t, timed.state.Live t →
      Books (State.ByKernel timed.current t) (timed.stats t) (after.stats t)) :
    Attributed timed moment after := by
  refine ⟨fun t live => ?_, fun entry => absurd inside entry, fun t live => ?_⟩
  · rw [Moment.userTime, inside, add_zero]
    exact (books t live).other .userTicks fun kernel => kernel.1 rfl
  · have book := books t live
    by_cases here : t = timed.current
    · subst here
      exact .inr ⟨rfl, inKernel, kept.inKernel inKernel, book.forward, book.bounded .systemTicks⟩
    · exact .inl (book.other .systemTicks fun kernel => here (kernel.2 rfl))

theorem Timed.Kept.interruptReturn (kept : timed.Kept installed)
    (enabled : timed.Enabled .interruptReturn) :
    Attributed timed .interruptReturn (timed.next installed.policy .interruptReturn) ∧
      (timed.next installed.policy .interruptReturn).Kept installed := by
  have inKernel : timed.mode timed.current ≠ .user := fun user =>
    Mode.noConfusion (user.symm.trans enabled)
  have charges : State.Charges timed.current timed.state
      (timed.state.updateStats timed.current .systemTicks) :=
    State.updateStats_charges _ _ _ (.inl ⟨Counter.noConfusion, fun _ => rfl⟩)
  obtain ⟨_, books⟩ := charges kept.forward
  refine ⟨kept.attributed rfl inKernel fun t live => (books t (kept.past t live)).2,
    kept.leave inKernel (kept.charged .systemTicks) fun t => ?_⟩
  have count := timed.charge_count .systemTicks .userTicks t
  rw [if_neg fun both => Counter.noConfusion both.2, add_zero] at count
  exact count

theorem Timed.Kept.callReturn (kept : timed.Kept installed) {time : DWord}
    (onTime : OnTime installed timed (.callReturn time))
    (enabled : timed.Enabled (.callReturn time)) :
    Attributed timed (.callReturn time) (timed.next installed.policy (.callReturn time)) ∧
      (timed.next installed.policy (.callReturn time)).Kept installed := by
  have inKernel : timed.mode timed.current ≠ .user := fun user =>
    Mode.noConfusion (user.symm.trans enabled.1)
  have mark : time = timed.mark := onTime
  have follows := mark ▸ kept.follows
  refine ⟨⟨fun t _ => (add_zero _).symm, fun entry => absurd rfl entry, fun t _ => .inl rfl⟩,
    kept.leave inKernel follows fun t => rfl⟩

theorem State.forked_none (s : State) {op : Op} (other : op.isFork = false) : s.forked op = none := by
  cases op with
  | fork site => exact absurd other Bool.noConfusion
  | _ => rfl

omit [Image] in
theorem Timed.Kept.hand (kept : timed.Kept installed) {after : State} {later : Queues}
    (inKernel : timed.mode timed.current ≠ .user) (sched : Sched installed after later)
    (forward : after.Forward) (live : ∀ t, after.Live t → timed.state.Live t)
    (books : ∀ t, after.Live t → after.Past t ∧
      Books (State.ByKernel timed.current t) (timed.stats t) (after.task t).pStats) :
    (timed.hand after).Kept installed := by
  have running : after.Live after.current :=
    fun free => sched.current_off _ (sched.represents.on_iff.mp free)
  -- no task off the processor is in user mode, and the one that leaves it is not
  have kernel : ∀ t, after.Live t → timed.mode t ≠ .user := by
    intro t alive
    by_cases here : t = timed.current
    · exact here ▸ inKernel
    · exact kept.away t (live t alive) here
  refine ⟨⟨later, sched⟩, forward, fun t alive => (books t alive).1, fun t alive => ?_,
    fun user => absurd user (kernel _ running), fun _ => ?_, fun t alive _ => kernel t alive⟩
  · exact ((books t alive).2.other .userTicks fun charged => charged.1 rfl).trans
      (kept.right t (live t alive))
  · show (timed.hand after).arrived after.current ≤ (after.task after.current).pStats.elapsedTotalTicks
    unfold Timed.hand
    dsimp only
    split
    · rename_i same
      rw [same]
      exact BitVec.le_trans (kept.inKernel inKernel) (books _ (same ▸ running)).2.forward
    · rw [Function.update_self]
      exact BitVec.le_refl _

omit [Image] in
theorem Timed.Kept.born (kept : timed.Kept installed) {after : State} {later : Queues} {child : Task}
    (inKernel : timed.mode timed.current ≠ .user) (sched : Sched installed after later)
    (forward : after.Forward) (current : after.current = timed.current)
    (elapsed : timed.state.clock 0 ≤ after.clock 0) (fresh : ¬ timed.state.Live child)
    (live : ∀ t, after.Live t → timed.state.Live t ∨ t = child)
    (started : (after.task child).pStats.meter = Meter.start (timed.state.clock 0))
    (stats : ∀ t, t ≠ child → (after.task t).pStats = timed.stats t) :
    ((timed.hand after).born (some child)).Kept installed := by
  have apart : timed.current ≠ child := fun same => fresh (same ▸ kept.current_live)
  have mode : ∀ t, t ≠ child → ((timed.hand after).born (some child)).mode t = timed.mode t :=
    fun t other => Function.update_of_ne other _ _
  have arrived : ((timed.hand after).born (some child)).arrived = timed.arrived := if_pos current
  have here : ((timed.hand after).born (some child)).current = timed.current := current
  have mark : ((timed.hand after).born (some child)).mark = timed.mark :=
    congrArg Stats.elapsedTotalTicks ((congrArg (fun t => (after.task t).pStats) current).trans
      (stats timed.current apart))
  have old : ∀ t, after.Live t → t ≠ child → timed.state.Live t :=
    fun t alive other => (live t alive).resolve_right other
  refine ⟨⟨later, sched⟩, forward, fun t alive => ?_, fun t alive => ?_, fun user => ?_,
    fun _ => ?_, fun t alive other => ?_⟩
  · show (after.task t).pStats.elapsedTotalTicks ≤ after.clock 0
    by_cases same : t = child
    · subst same
      rw [(Stats.of_start started).2]
      exact elapsed
    · rw [stats t same]
      exact BitVec.le_trans (kept.past t (old t alive same)) elapsed
  · by_cases same : t = child
    · subst same
      have none : (after.task t).pStats.userTicks = 0 := (Stats.of_start started).1 .userTicks
      have zero : ((timed.hand after).born (some t)).spent t = 0 := Function.update_self _ _ _
      exact none.trans zero.symm
    · refine ((congrArg Stats.userTicks (stats t same)).trans
        (kept.right t (old t alive same))).trans (Function.update_of_ne same _ _).symm
  · rw [here, mode _ apart] at user
    exact absurd user inKernel
  · rw [arrived, here, mark]
    exact kept.inKernel inKernel
  · rw [here] at other
    by_cases same : t = child
    · subst same
      rw [show ((timed.hand after).born (some t)).mode t = .inCall from Function.update_self _ _ _]
      exact Mode.noConfusion
    · rw [mode t same]
      exact kept.away t (old t alive same) other

theorem Timed.Kept.serve (kept : timed.Kept installed) {op : Op} (other : op.isFork = false)
    (inKernel : timed.mode timed.current ≠ .user) (enabled : timed.state.Enabled op)
    (charges : State.Charges timed.current timed.state
      (timed.state.step installed.policy op)) :
    Attributed timed (.work op) (timed.next installed.policy (.work op)) ∧
      (timed.next installed.policy (.work op)).Kept installed := by
  obtain ⟨queues, sched⟩ := kept.sched
  obtain ⟨later, _, _, after, free, _⟩ := sched.step_elapses enabled other
  obtain ⟨forward, books⟩ := charges kept.forward
  have result : timed.next installed.policy (.work op) =
      timed.hand (timed.state.step installed.policy op) := by
    rw [Timed.next, Timed.work, timed.state.forked_none other]
    rfl
  have live : ∀ t, (timed.state.step installed.policy op).Live t → timed.state.Live t := by
    intro t alive freed
    exact alive (after.represents.on_iff.mpr (free t (sched.represents.on_iff.mp freed)))
  rw [result]
  generalize timed.state.step installed.policy op = reached at after forward books live ⊢
  exact ⟨kept.attributed rfl inKernel fun t alive => (books t (kept.past t alive)).2,
    kept.hand inKernel after forward live fun t alive => books t (kept.past t (live t alive))⟩

theorem Timed.Kept.fork (kept : timed.Kept installed) (site : ForkSite)
    (inKernel : timed.mode timed.current ≠ .user) :
    Attributed timed (.work (.fork site)) (timed.next installed.policy (.work (.fork site))) ∧
      (timed.next installed.policy (.work (.fork site))).Kept installed := by
  obtain ⟨queues, sched⟩ := kept.sched
  have starts := (sched.enterFork site).sysFork_starts
  obtain ⟨later, after, _, _, current, _⟩ := (sched.enterFork site).sysFork
  have result : timed.next installed.policy (.work (.fork site)) =
      (timed.hand (timed.state.enterFork site).sysFork.2).born (timed.state.forked (.fork site)) :=
    rfl
  rw [result]
  simp only [State.forked]
  generalize (timed.state.enterFork site).sysFork = returned at starts after current ⊢
  have still : ∀ before after : Stats, after = before → ∀ t,
      Books (State.ByKernel timed.current t) before after :=
    fun before after same t => .of_meter (congrArg Stats.meter same)
  cases starts with
  | none clock live stats =>
      change _ = timed.state.clock at clock
      have forward := kept.forward
      refine ⟨kept.attributed rfl inKernel fun t alive => still _ _ (stats t alive) t,
        kept.hand inKernel after ?_ (fun t => (live t).mp) fun t alive => ?_⟩
      · unfold State.Forward
        rw [clock]
        exact forward
      · have before := (live t).mp alive
        refine ⟨?_, still _ _ (stats t before) t⟩
        rw [State.Past, clock, stats t before]
        exact kept.past t before
  | @child pid reached child first fresh clock started live stats =>
      rw [first]
      change ∀ n, _ = timed.state.clock (n + 2) at clock
      refine ⟨kept.attributed rfl inKernel fun t alive => still _ _ (stats t ?_) t,
        kept.born inKernel after (fun n => ?_) current ?_ fresh (fun t => (live t).mp) started stats⟩
      · rintro rfl
        exact fresh alive
      · rw [clock, clock]
        exact kept.forward (n + 2)
      · rw [clock]
        exact BitVec.le_trans (kept.forward 0) (kept.forward 1)

theorem Timed.Kept.touch (kept : timed.Kept installed) (page : Nat) :
    Attributed timed (.work (.touch page)) (timed.next installed.policy (.work (.touch page))) ∧
      (timed.next installed.policy (.work (.touch page))).Kept installed := by
  obtain ⟨queues, sched⟩ := kept.sched
  have arrived : (timed.next installed.policy (.work (.touch page))).arrived = timed.arrived :=
    if_pos rfl
  refine ⟨⟨fun t _ => (add_zero _).symm, fun entry => absurd rfl entry, fun t _ => .inl rfl⟩,
    ⟨queues, sched.setMemory _⟩, kept.forward, kept.past, kept.right, kept.inUser, ?_, kept.away⟩
  rw [arrived]
  exact kept.inKernel

/-- In a step that is on time the time is attributed well, and the invariant is kept. -/
theorem Timed.Kept.next (kept : timed.Kept installed) {moment : Moment}
    (enabled : timed.Enabled moment) (onTime : OnTime installed timed moment) :
    Attributed timed moment (timed.next installed.policy moment) ∧
      (timed.next installed.policy moment).Kept installed := by
  cases moment with
  | interrupt => exact kept.interrupt onTime enabled
  | call time => exact kept.call onTime enabled
  | interruptReturn => exact kept.interruptReturn enabled
  | callReturn time => exact kept.callReturn onTime enabled
  | work op =>
      obtain ⟨does, enabled⟩ := enabled
      by_cases touches : ∃ page, op = .touch page
      · obtain ⟨page, rfl⟩ := touches
        exact kept.touch page
      · have inKernel : timed.mode timed.current ≠ .user := by
          intro user
          rw [user] at does
          cases op <;> first | exact does | exact touches ⟨_, rfl⟩
        cases fork : op.isFork with
        | true =>
            cases op with
            | fork site => exact kept.fork site inKernel
            | _ => exact absurd fork Bool.noConfusion
        | false =>
            refine kept.serve fork inKernel enabled (State.step_charges installed timed.state fork
              ?_ ?_)
            · rintro v rfl
              cases mode : timed.mode timed.current <;> rw [mode] at does <;> exact does.elim
            · rintro site blocked rfl
              exact onTime

end

section

variable [Image] {installed : Installed}

theorem Timed.boot_kept (installed : Installed) {memory : State}
    (forward : ∀ n, memory.clock n ≤ memory.clock (n + 1)) :
    (Timed.boot memory).Kept installed := by
  obtain ⟨idle, first, clock⟩ := boot_meters memory
  have sched := boot_sched installed memory
  have slot : ∀ t, memory.boot.Live t → t = 0 ∨ t = 1 := by
    intro t live
    by_contra neither
    exact live (sched.represents.on_iff.mpr (Queues.mem_boot.mpr ⟨rfl, not_or.mp neither⟩))
  have marks : ∀ t, memory.boot.Live t →
      (memory.boot.task t).pStats.userTicks = 0 ∧ memory.boot.Past t := by
    have upTo : ∀ n, memory.clock 0 ≤ memory.clock n := by
      intro n
      induction n with
      | zero => exact BitVec.le_refl _
      | succ n inductionHypothesis => exact BitVec.le_trans inductionHypothesis (forward n)
    intro t live
    rw [State.Past, clock]
    rcases slot t live with rfl | rfl
    · obtain ⟨zero, mark⟩ := Stats.of_start idle
      rw [mark]
      exact ⟨zero .userTicks, upTo _⟩
    · obtain ⟨zero, mark⟩ := Stats.of_start first
      rw [mark]
      exact ⟨zero .userTicks, BitVec.le_trans (forward 2) (forward 3)⟩
  have either : ∀ (idle : Prop) [Decidable idle],
      (if idle then Mode.idling else Mode.inCall) ≠ .user := by
    intro idle _
    split <;> exact Mode.noConfusion
  have moved : ∀ n, memory.boot.clock n ≤ memory.boot.clock (n + 1) := by
    intro n
    rw [clock, clock]
    exact forward (n + 4)
  unfold Timed.boot
  generalize memory.boot = s at sched slot marks moved ⊢
  exact ⟨⟨_, sched⟩, moved, fun t live => (marks t live).2, fun t live => (marks t live).1,
    fun user => absurd user (either _), fun _ => BitVec.le_refl _, fun t _ _ => either (t = s.idleTask)⟩

/-- In a run whose steps are all on time, on a clock that does not run backwards, every
tick in user mode goes on `user_ticks` and every tick of `system_ticks` is one in the
kernel. -/
theorem attributed_of_onTime {memory : State}
    (forward : ∀ n, memory.clock n ≤ memory.clock (n + 1)) {moments : List Moment}
    (runs : (timed installed memory).Runs (.boot memory) moments)
    (onTime : (timed installed memory).Each (OnTime installed) (.boot memory) moments) :
    (timed installed memory).Each
        (fun before moment => Attributed before moment (before.next installed.policy moment))
        (.boot memory) moments ∧
      (timed installed memory).Always Timed.UserTimeRight (.boot memory) moments := by
  have start := Timed.boot_kept installed forward
  have step : ∀ before moment, before.Kept installed → before.Enabled moment →
      OnTime installed before moment →
      Attributed before moment (before.next installed.policy moment) ∧
        (before.next installed.policy moment).Kept installed :=
    fun before moment kept enabled inTime => kept.next enabled inTime
  refine ⟨System.each_of_each step runs start onTime, ?_⟩
  have kept := System.always_of_each (fun before moment kept enabled inTime =>
    (step before moment kept enabled inTime).2) runs start onTime
  exact kept.mono fun before kept => kept.right

theorem Timed.interrupt_returns (timed : Timed) (policy : Policy) :
    (timed.next policy .interrupt).Enabled .interruptReturn := by
  have current : (timed.next policy .interrupt).current = timed.current := by
    rw [Timed.current, Timed.next, Timed.enter_state]
    rfl
  show Timed.mode _ (timed.next policy .interrupt).current = _
  rw [current]
  exact timed.enter_mode _ _ _

theorem Timed.call_unseen (timed : Timed) (policy : Policy) {time : DWord}
    (live : timed.state.Live timed.current)
    (attributed : Attributed timed (.call time) (timed.next policy (.call time))) :
    time = timed.since timed.current := by
  have user := attributed.user timed.current live
  have same : (timed.next policy (.call time)).stats = timed.stats := by
    unfold Timed.stats
    rw [Timed.next, Timed.enter_state]
  rw [same] at user
  have none := left_eq_add.mp user
  rw [Moment.userTime] at none
  simp only [Moment.entry, if_true] at none
  exact sub_eq_zero.mp none

theorem Timed.boot_leaves {memory : State}
    (forward : ∀ n, memory.clock n ≤ memory.clock (n + 1)) :
    (Timed.boot memory).Enabled (.callReturn (memory.clock 2)) ∧
      memory.clock 2 = (Timed.boot memory).mark ∧
      ((Timed.boot memory).leave (memory.clock 2) memory.boot).mode memory.boot.current = .user := by
  obtain ⟨_, first, clock⟩ := boot_meters memory
  have process := boot_process memory
  have mark : (memory.boot.task memory.boot.current).pStats.elapsedTotalTicks = memory.clock 2 := by
    rw [State.boot_current]
    exact (Stats.of_start first).2
  have later : memory.clock 2 ≤ memory.boot.clock 0 := by
    rw [clock]
    exact BitVec.le_trans (forward 2) (forward 3)
  unfold Timed.boot
  generalize memory.boot = s at process mark later ⊢
  refine ⟨⟨if_neg process, BitVec.le_of_eq mark, later⟩, mark.symm, ?_⟩
  exact (Function.update_self _ _ _).trans (if_neg process)

end

/-- The first process returns to user mode, and an interrupt comes and goes. -/
theorem attributed_of_onTime_interrupt :
    (@timed Image.sample .RR State.ticking).Each
        (fun before moment => Attributed before moment
          (@Timed.next Image.sample before (@Installed.policy Image.sample .RR) moment))
        (@Timed.boot Image.sample State.ticking) [.callReturn 2, .interrupt, .interruptReturn] ∧
      (@timed Image.sample .RR State.ticking).Always Timed.UserTimeRight
        (@Timed.boot Image.sample State.ticking) [.callReturn 2, .interrupt, .interruptReturn] := by
  obtain ⟨enabled, mark, user⟩ := @Timed.boot_leaves Image.sample _ State.ticking_forward
  refine @attributed_of_onTime Image.sample .RR State.ticking State.ticking_forward
    [.callReturn 2, .interrupt, .interruptReturn] ⟨enabled, .inl user, ?_, trivial⟩
    ⟨mark, fun idling => ?_, trivial, trivial⟩
  · exact @Timed.interrupt_returns Image.sample (@Timed.next Image.sample
      (@Timed.boot Image.sample State.ticking) (@Policy.rr Image.sample) (.callReturn 2))
      (@Policy.rr Image.sample)
  · exact absurd (user.symm.trans idling) Mode.noConfusion

/-- The first process spends two ticks in user mode and calls the system. -/
theorem call_forgets_user_time : ¬ ∀ (installed : Installed) (memory : State),
    (∀ n, memory.clock n ≤ memory.clock (n + 1)) → ∀ moments : List Moment,
      (@timed Image.sample installed memory).Runs (@Timed.boot Image.sample memory) moments →
      (@timed Image.sample installed memory).Each
          (fun before moment => Attributed before moment
            (@Timed.next Image.sample before (@Installed.policy Image.sample installed) moment))
          (@Timed.boot Image.sample memory) moments ∧
        (@timed Image.sample installed memory).Always Timed.UserTimeRight
          (@Timed.boot Image.sample memory) moments := by
  intro attributed
  obtain ⟨enabled, mark, user⟩ := @Timed.boot_leaves Image.sample _ State.ticking_forward
  have since : (@Timed.next Image.sample (@Timed.boot Image.sample State.ticking)
      (@Policy.rr Image.sample) (.callReturn 2)).since
        (@State.boot Image.sample State.ticking).current = 2 :=
    Timed.leave_since (@Timed.boot Image.sample State.ticking) 2 (@State.boot Image.sample State.ticking)
  have clock : (@State.boot Image.sample State.ticking).clock 0 = 4 :=
    (@boot_meters Image.sample State.ticking).2.2 0
  have order : (2 : DWord) ≤ 4 := by decide
  have call := (attributed .RR State.ticking State.ticking_forward [.callReturn 2, .call 4]
    ⟨enabled, ⟨user, since ▸ order, clock ▸ BitVec.le_refl _⟩, trivial⟩).1.2.1
  have live := (@Timed.boot_kept Image.sample .RR _ State.ticking_forward).current_live
  have still := @Timed.call_unseen Image.sample (@Timed.next Image.sample
    (@Timed.boot Image.sample State.ticking) (@Policy.rr Image.sample) (.callReturn 2))
    (@Policy.rr Image.sample) 4 live call
  exact absurd (still.trans since) (by decide)

end Zeos
