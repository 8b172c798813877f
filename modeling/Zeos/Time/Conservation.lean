import Zeos.Time.Meters

/-!
# Conservation of accounted time

A ledger remembers what `init_stats` gave each task as `elapsed_total_ticks`. The
counters of a live task should add up to the time since then. They do as long as
the clock stands still wherever the code reads it twice.
-/

namespace Zeos

open Library

structure Ledger where
  state : State
  begun : Task → DWord

/-- Every live task is accounted for. -/
def Ledger.Conserved (ledger : Ledger) : Prop :=
  ∀ t, ledger.state.Live t → (ledger.state.task t).pStats.Accounts (ledger.begun t)

/-- The readings of the clock, counted from now, that are followed by a second
reading for the same update, in `block_process`, `unblock_process` and
`sched_next_fcfs`. -/
def doubleReadings (installed : Installed) (s : State) : Op → List Nat
  | .block _ _ =>
      match installed with
      | .RR => [0]
      | .FCFS => [0, 2]
  | .unblock _ _ =>
      match installed with
      | .RR => [0]
      | .FCFS => if s.current = s.idleTask then [0, 2] else [0]
  | .tick _ =>
      match installed with
      | .RR => []
      | .FCFS => if s.current = s.idleTask ∧ s.listEmpty .readyqueue = false then [0] else []
  | _ => []

/-- The clock stands still between two readings for the same update. -/
def Steady (installed : Installed) (ledger : Ledger) (op : Op) : Prop :=
  ∀ reading ∈ doubleReadings installed ledger.state op,
    ledger.state.clock reading = ledger.state.clock (reading + 1)

section

variable [Image]

def State.forked (s : State) : Op → Option Task
  | .fork site =>
      match (s.enterFork site).sysFork.1 with
      | .ok _ => some (listHeadToTaskStruct ((s.enterFork site).listFirst .freequeue))
      | .error _ => none
  | _ => none

/-- A child's meter starts with what `init_stats` leaves in it. -/
def Ledger.next (policy : Policy) (ledger : Ledger) (op : Op) : Ledger :=
  let after := ledger.state.step policy op
  { state := after
    begun := match ledger.state.forked op with
      | some child =>
          Function.update ledger.begun child (after.task child).pStats.elapsedTotalTicks
      | none => ledger.begun }

def Ledger.boot (memory : State) : Ledger where
  state := memory.boot
  begun t := (memory.boot.task t).pStats.elapsedTotalTicks

def ledgers (installed : Installed) (memory : State) : System Ledger Op where
  initial ledger := ledger = .boot memory
  enabled ledger op := ledger.state.Enabled op
  next := Ledger.next installed.policy

variable {installed : Installed} {s after : State} {queues later : Queues} {task : Task}

/-- A loss is the sum of what passes between some readings, on live tasks. -/
inductive Loses (clock : Nat → DWord) (after : State) : List Nat → (Task → DWord) → Prop where
  | nothing : Loses clock after [] 0
  | once {t : Task} (live : after.Live t) :
      Loses clock after [0] (Pi.single t (clock 0 - clock 1))
  | twice {t u : Task} (live : after.Live t) (alive : after.Live u) : Loses clock after [0, 2]
      (Pi.single t (clock 0 - clock 1) + Pi.single u (clock 2 - clock 3))

omit [Image] in
theorem both_zero {a b c d : DWord} (first : a ≤ b) (between : b ≤ c) (last : c ≤ d)
    (none : a - b + (c - d) = 0) : a = b ∧ c = d := by
  bv_omega

omit [Image] in
theorem Loses.iff {clock : Nat → DWord} {readings : List Nat} {loss : Task → DWord}
    (loses : Loses clock after readings loss) (forward : ∀ n, clock n ≤ clock (n + 1)) :
    (∀ t, after.Live t → loss t = 0) ↔
      ∀ reading ∈ readings, clock reading = clock (reading + 1) := by
  cases loses with
  | nothing => simp
  | @once t live =>
      simp only [List.mem_singleton, forall_eq]
      constructor
      · intro none
        have zero := none t live
        rwa [Pi.single_eq_same, sub_eq_zero] at zero
      · intro steady u _
        rw [steady, sub_self, Pi.single_zero]
        rfl
  | @twice t u live alive =>
      simp only [List.mem_cons, List.not_mem_nil, or_false, forall_eq_or_imp, forall_eq]
      constructor
      · intro none
        have first := none t live
        have second := none u alive
        by_cases same : t = u
        · subst same
          rw [Pi.add_apply, Pi.single_eq_same, Pi.single_eq_same] at first
          exact both_zero (forward 0) (forward 1) (forward 2) first
        · rw [Pi.add_apply, Pi.single_eq_same, Pi.single_eq_of_ne same, add_zero, sub_eq_zero] at first
          rw [Pi.add_apply, Pi.single_eq_same, Pi.single_eq_of_ne (Ne.symm same), zero_add,
            sub_eq_zero] at second
          exact ⟨first, second⟩
      · rintro ⟨first, second⟩ v _
        rw [first, second, sub_self, sub_self, Pi.single_zero, Pi.single_zero, add_zero]
        rfl

theorem enter_elapses {below above : Nat} (s : State) (site : CallSite below above) :
    s.Elapses (s.enter site) 0 0 :=
  .of_same rfl fun _ => rfl

theorem schedNextFcfs_elapses (s : State) : s.Elapses s.schedNextFcfs 2
    (Pi.single s.schedNextFcfs.current (s.clock 0 - s.clock 1)) := by
  have chosen : s.schedNextFcfs.current = s.takeNext.1 :=
    (State.taskSwitch_frame (s.takeNext.2.addTicks s.takeNext.1 .readyTicks) s.takeNext.1).2.1
  rw [chosen]
  exact s.schedNextFcfs_elapses

theorem rescheduleRr_elapses (s : State) : ∃ reads, s.Elapses (s.reschedule .rr) reads 0 := by
  rcases reschedule_rr s with result | ⟨_, result⟩
  · rw [result]
    exact ⟨0, s.needsSchedRr_elapses⟩
  · rw [result]
    exact ⟨_, (s.updateProcessStateRr_elapses s.current .readyqueue).conserving
      (State.schedNextRr_elapses _)⟩

/-- First come first served only ever takes the processor from idle. -/
theorem rescheduleFcfs_elapses (s : State) :
    if s.current = s.idleTask ∧ s.listEmpty .readyqueue = false then
      s.Elapses (s.reschedule .fcfs) 2
        (Pi.single (s.reschedule .fcfs).current (s.clock 0 - s.clock 1))
    else s.reschedule .fcfs = s := by
  unfold State.reschedule Policy.fcfs State.needsSchedFcfs
  dsimp only
  split
  · rename_i needed
    rw [if_pos (decide_eq_true needed)]
    have queued := s.updateProcessStateFcfs_elapses s.current (some .readyqueue)
    have switched := schedNextFcfs_elapses (s.updateProcessStateFcfs s.current (some .readyqueue))
    rw [queued.clock, queued.clock] at switched
    exact queued.keeping switched
  · rename_i needed
    rw [if_neg (by simpa using needed)]

theorem sysExit_elapses (s : State) : s.Elapses s.sysExit 2 0 := by
  unfold State.sysExit
  dsimp only
  generalize s.mm.freeData (s.getPT s.current) NUM_PAG_DATA = mm
  have freed : s.Elapses { s with mm := mm } 0 0 := .of_same rfl fun _ => rfl
  have left : s.Elapses (State.listAddTail { s with mm := mm } (.node s.current) .freequeue) 0 0 :=
    freed.keep (.of_same rfl fun _ => rfl)
  have cleared := left.keep (State.setTask_elapses _ s.current (f := fun t => { t with PID := -1 }) rfl)
  exact cleared.keeping (State.schedNextRr_elapses _)

theorem forceTaskSwitch_elapses (s : State) : s.Elapses s.forceTaskSwitch 3 0 :=
  (s.updateProcessStateRr_elapses s.current .readyqueue).conserving (State.schedNextRr_elapses _)

theorem blocked_elapses (s : State) (n : Nat) :
    s.Elapses (State.addTicks (installed.policy.updateProcessState s s.current (some (.blocking n)))
      s.current .systemTicks) 2 (Pi.single s.current (s.clock 0 - s.clock 1)) := by
  have queued : s.Elapses
      (installed.policy.updateProcessState s s.current (some (.blocking n))) 0 0 := by
    cases installed with
    | RR =>
        have rest := s.updateProcessStateRr_elapses s.current (.blocking n)
        rwa [if_neg Queue.noConfusion] at rest
    | FCFS => exact s.updateProcessStateFcfs_elapses s.current (some (.blocking n))
  generalize installed.policy.updateProcessState s s.current (some (.blocking n)) = middle
    at queued ⊢
  have counted := middle.addTicks_elapses s.current .systemTicks
  rw [queued.clock, queued.clock] at counted
  exact queued.keeping counted

theorem blockProcess_elapses (s : State) (site : SwitchSite) (n : Nat)
    (result : after = s.blockProcess installed.policy (.blocking n))
    (live : after.Live s.current) (running : after.Live after.current) :
    ∃ reads loss, s.Elapses after reads loss ∧
      Loses s.clock after (doubleReadings installed s (.block site n)) loss := by
  have left : s.Elapses _ _ _ := @blocked_elapses _ installed s n
  unfold State.blockProcess at result
  dsimp only at result
  generalize State.addTicks _ s.current .systemTicks = middle at left result
  subst result
  cases installed with
  | RR =>
      have switched := left.trans middle.schedNextRr_elapses
      rw [add_zero] at switched
      exact ⟨_, _, switched, .once live⟩
  | FCFS =>
      have switched := schedNextFcfs_elapses middle
      rw [left.clock, left.clock] at switched
      exact ⟨_, _, left.trans switched, .twice live running⟩

theorem unblockProcessRr_elapses (s : State) (blocked : Task) : ∃ reads,
    s.Elapses (s.unblockProcess .rr blocked) reads
      (Pi.single blocked (s.clock 0 - s.clock 1)) := by
  have woken := (s.addTicks_elapses blocked .blockedTicks).trans
    (State.updateProcessStateRr_elapses _ blocked .readyqueue)
  rw [add_zero] at woken
  obtain ⟨reads, rest⟩ := rescheduleRr_elapses
    ((s.addTicks blocked .blockedTicks).updateProcessStateRr blocked (some .readyqueue))
  have whole := woken.trans rest
  rw [add_zero] at whole
  exact ⟨_, whole⟩

theorem unblockProcessFcfs_elapses (s : State) (blocked : Task)
    (ready : ((s.addTicks blocked .blockedTicks).updateProcessStateFcfs blocked
      (some .readyqueue)).listEmpty .readyqueue = false)  :
    ∃ reads loss, s.Elapses (s.unblockProcess .fcfs blocked) reads
      (Pi.single blocked (s.clock 0 - s.clock 1) + loss) ∧
      loss = if s.current = s.idleTask then
        Pi.single (s.unblockProcess .fcfs blocked).current (s.clock 2 - s.clock 3) else 0 := by
  have woken := (s.addTicks_elapses blocked .blockedTicks).keep
    (State.updateProcessStateFcfs_elapses _ blocked (some .readyqueue))
  have quiet : s.Quiet ((s.addTicks blocked .blockedTicks).updateProcessStateFcfs blocked
      (some .readyqueue)) :=
    (s.addTicks_accounts blocked .blockedTicks).quiet.trans (updateProcessStateFcfs_quiet _ _ _)
  have rest := rescheduleFcfs_elapses
    ((s.addTicks blocked .blockedTicks).updateProcessStateFcfs blocked (some .readyqueue))
  rw [quiet.current, quiet.idleTask] at rest
  by_cases idle : s.current = s.idleTask
  · rw [if_pos ⟨idle, ready⟩, woken.clock, woken.clock] at rest
    exact ⟨_, _, woken.trans rest, (if_pos idle).symm⟩
  · rw [if_neg fun both => idle both.1] at rest
    refine ⟨2, 0, ?_, (if_neg idle).symm⟩
    rw [add_zero, State.unblockProcess]
    exact rest.symm ▸ woken

theorem unblockProcess_elapses (s : State) (site : SwitchSite) {blocked : Task}
    (result : after = s.unblockProcess installed.policy blocked)
    (live : after.Live blocked) (running : after.Live after.current)
    (ready : (installed.policy.updateProcessState (s.addTicks blocked .blockedTicks) blocked
      (some .readyqueue)).listEmpty .readyqueue = false) :
    ∃ reads loss, s.Elapses after reads loss ∧
      Loses s.clock after (doubleReadings installed s (.unblock site blocked)) loss := by
  cases installed with
  | RR =>
      obtain ⟨reads, elapses⟩ := unblockProcessRr_elapses s blocked
      rw [← show after = s.unblockProcess .rr blocked from result] at elapses
      exact ⟨reads, _, elapses, .once live⟩
  | FCFS =>
      obtain ⟨reads, loss, elapses, lost⟩ := unblockProcessFcfs_elapses s blocked ready
      rw [← show after = s.unblockProcess .fcfs blocked from result] at elapses lost
      refine ⟨reads, _, elapses, ?_⟩
      unfold doubleReadings
      dsimp only
      by_cases idle : s.current = s.idleTask
      · rw [lost, if_pos idle, if_pos idle]
        exact .twice live running
      · rw [lost, if_neg idle, if_neg idle, add_zero]
        exact .once live

theorem clockRoutine_counted (s : State) : ∃ middle,
    s.clockRoutine installed.policy = middle.reschedule installed.policy ∧
    s.Elapses middle 0 0 ∧ middle.current = s.current ∧ middle.idleTask = s.idleTask ∧
    middle.links = s.links := by
  cases installed with
  | RR => exact ⟨_, rfl, .of_same rfl fun _ => rfl, rfl, rfl, rfl⟩
  | FCFS => exact ⟨_, rfl, .of_same rfl fun _ => rfl, rfl, rfl, rfl⟩

theorem clockRoutine_elapses (s : State) (site : SwitchSite)
    (result : after = s.clockRoutine installed.policy) (running : after.Live after.current) :
    ∃ reads loss, s.Elapses after reads loss ∧
      Loses s.clock after (doubleReadings installed s (.tick site)) loss := by
  obtain ⟨middle, rest, counted, current, idle, links⟩ := @clockRoutine_counted _ installed s
  rw [rest] at result
  cases installed with
  | RR =>
      obtain ⟨reads, elapses⟩ := rescheduleRr_elapses middle
      rw [← show after = middle.reschedule .rr from result] at elapses
      exact ⟨reads, 0, counted.keeping elapses, .nothing⟩
  | FCFS =>
      have elapses := rescheduleFcfs_elapses middle
      have empty : middle.listEmpty .readyqueue = s.listEmpty .readyqueue := by
        rw [State.listEmpty, links, State.listEmpty]
      rw [← show after = middle.reschedule .fcfs from result, current, idle, empty, counted.clock,
        counted.clock] at elapses
      unfold doubleReadings
      dsimp only
      by_cases taken : s.current = s.idleTask ∧ s.listEmpty .readyqueue = false
      · rw [if_pos taken] at elapses ⊢
        exact ⟨_, _, counted.keeping elapses, .once running⟩
      · rw [if_neg taken] at elapses ⊢
        exact ⟨0, 0, elapses ▸ counted, .nothing⟩

/-- A step that is not `sys_fork` loses what passes between its double readings. -/
theorem Sched.step_elapses {op : Op} (sched : Sched installed s queues) (enabled : s.Enabled op)
    (other : op.isFork = false) : ∃ later reads loss,
    Sched installed (s.step installed.policy op) later ∧
      (∀ t, t ∈ queues.on .freequeue → t ∈ later.on .freequeue) ∧
      s.Elapses (s.step installed.policy op) reads loss ∧
      Loses s.clock (s.step installed.policy op) (doubleReadings installed s op) loss := by
  obtain ⟨later, after, effect⟩ := sched.step enabled
  have alive : ∀ t, t ∉ later.on .freequeue → (s.step installed.policy op).Live t :=
    fun t notFree free => notFree (after.represents.on_iff.mp free)
  have running := alive _ (after.current_off .freequeue)
  cases op with
  | fork site => exact absurd other Bool.noConfusion
  | exit site =>
      exact ⟨later, _, _, after, fun t free => (effect.1 t).mpr (.inl free),
        (enter_elapses s site).keeping (sysExit_elapses _), .nothing⟩
  | yield site =>
      exact ⟨later, _, _, after, fun t => (effect.1 t).mpr,
        (enter_elapses s site).keeping (forceTaskSwitch_elapses _), .nothing⟩
  | block site n =>
      have live := alive s.current fun free => sched.current_off _ ((effect.1 _).mp free)
      obtain ⟨reads, loss, elapses, loses⟩ :=
        blockProcess_elapses (s.enter site) site n rfl live running
      exact ⟨later, reads, loss, after, fun t => (effect.1 t).mpr,
        (enter_elapses s site).keeping elapses, loses⟩
  | unblock site blocked =>
      obtain ⟨n, waiting⟩ := enabled
      have member := sched.represents.on_iff.mp waiting
      have live := alive blocked fun free =>
        Queue.noConfusion (queues.apart ((effect.1 _).mp free) member)
      have counted := (sched.enter site).accounts
        ((s.enter site).addTicks_accounts blocked .blockedTicks)
      have woken := counted.wake member (queues.off_remove_self blocked)
      have ready := (woken.represents.listEmpty_iff .readyqueue).not.mpr
        (by simp [Queues.push])
      obtain ⟨reads, loss, elapses, loses⟩ := unblockProcess_elapses (s.enter site) site rfl live
        running (Bool.not_eq_true _ ▸ ready)
      exact ⟨later, reads, loss, after, fun t => (effect.1 t).mpr,
        (enter_elapses s site).keeping elapses, loses⟩
  | tick site =>
      obtain ⟨reads, loss, elapses, loses⟩ := clockRoutine_elapses (s.enter site) site rfl running
      exact ⟨later, reads, loss, after, fun t => (effect.1 t).mpr,
        (enter_elapses s site).keeping elapses, loses⟩
  | charge v =>
      exact ⟨later, _, _, after, fun t => (effect.1 t).mpr, s.updateStats_elapses s.current v, .nothing⟩
  | touch page =>
      exact ⟨later, 0, 0, after, fun t => (effect.1 t).mpr, .of_same rfl fun _ => rfl, .nothing⟩

theorem forkFinish_meters (s : State) (child : Task) :
    (∀ n, (s.forkFinish child).2.clock n = s.clock (n + 2)) ∧
      (∃ pid, (s.forkFinish child).1 = .ok pid) ∧
      (((s.forkFinish child).2.task child).pStats.meter = Meter.start (s.clock 0)) ∧
      ∀ t, t ≠ child → ((s.forkFinish child).2.task t).pStats = (s.task t).pStats := by
  refine ⟨fun n => rfl, ⟨_, rfl⟩, ?_, fun t apart => ?_⟩
  · simp only [State.forkFinish, State.listAddTail, State.setState, State.setTask,
      Function.update_self, State.initStats, State.setStats, State.getTicks]
    refine congrArg (Meter.mk · (s.clock 0)) (funext fun counter => ?_)
    cases counter <;> rfl
  · obtain ⟨before, finish⟩ := forkFinish_eq s child
    rw [finish.result]
    show (before.task t).pStats = _
    rw [finish.task t apart]

theorem forkCopied_stats {s : State} {child t : Task} (apart : t ≠ child) :
    ((forkCopied s child).task t).pStats = (s.task t).pStats := by
  simp [forkCopied, State.forkCopy, State.copyTaskUnion, State.allocateDIR, State.setTask,
    State.listDel, apart]

inductive Starts (s : State) : Result × State → Prop where
  | none {code : DWord} {after : State} (clock : after.clock = s.clock)
      (live : ∀ t, after.Live t ↔ s.Live t)
      (stats : ∀ t, s.Live t → (after.task t).pStats = (s.task t).pStats) :
      Starts s (.error code, after)
  | child {pid : DWord} {after : State} {child : Task}
      (first : s.listFirst .freequeue = .node child) (fresh : ¬ s.Live child)
      (clock : ∀ n, after.clock n = s.clock (n + 2))
      (started : (after.task child).pStats.meter = Meter.start (s.clock 0))
      (live : ∀ t, after.Live t ↔ s.Live t ∨ t = child)
      (stats : ∀ t, t ≠ child → (after.task t).pStats = (s.task t).pStats) :
      Starts s (.ok pid, after)

theorem Sched.sysFork_starts (sched : Sched installed s queues) : Starts s s.sysFork := by
  rcases sysFork_cases sched.represents with ⟨none, result⟩ | ⟨child, rest, first, result⟩
  · rw [result]
    exact .none rfl (fun _ => .rfl) fun _ _ => rfl
  · have free : child ∈ queues.on .freequeue := Queues.mem_of_first first
    have off := queues.off_remove_self child
    have fresh : ¬ s.Live child := not_not.mpr (sched.represents.on_iff.mpr free)
    rw [result]
    cases allocated : (forkCopied s child).mm.allocData ((forkCopied s child).getPT child)
        NUM_PAG_DATA with
    | error stopped =>
        have refused := sched.fork_refused free off
          (stopped.1.freeData ((forkCopied s child).getPT child) stopped.2)
        rw [forkInto_error allocated]
        refine .none rfl (fun t => ?_) fun t live => ?_
        · rw [State.Live, State.OnQueue, refused.represents.on_iff, State.Live, State.OnQueue,
            sched.represents.on_iff, Queues.mem_push, Queues.mem_remove]
          by_cases same : t = child <;> simp [same, free]
        · exact forkCopied_stats fun same => fresh (same ▸ live)
    | ok mm =>
        have forked := sched.forked free off mm
        obtain ⟨clock, ⟨pid, succeeded⟩, started, others⟩ :=
          forkFinish_meters (forkMapped s child mm) child
        rw [forkInto_ok allocated]
        generalize (forkMapped s child mm).forkFinish child = returned at *
        obtain ⟨answer, after⟩ := returned
        subst succeeded
        refine .child (sched.represents.listFirst _ first) fresh clock started (fun t => ?_)
          fun t apart => ?_
        · rw [State.Live, State.OnQueue, forked.represents.on_iff, State.Live, State.OnQueue,
            sched.represents.on_iff, Queues.mem_push, Queues.mem_remove]
          by_cases same : t = child <;> simp [same]
        · rw [others t apart, forkMapped]
          dsimp only
          exact forkCopied_stats apart

omit [Image] in
theorem Starts.clock {returned : Result × State} (starts : Starts s returned) :
    ∃ reads, ∀ n, returned.2.clock n = s.clock (n + reads) := by
  cases starts with
  | none clock => exact ⟨0, fun n => congrFun clock n⟩
  | child _ _ clock => exact ⟨2, clock⟩

/-- What the ledger keeps whatever the clock does. -/
structure Ledger.Kept (installed : Installed) (ledger : Ledger) : Prop where
  sched : ∃ queues, Sched installed ledger.state queues
  forward : ∀ n, ledger.state.clock n ≤ ledger.state.clock (n + 1)

theorem Ledger.Kept.next {ledger : Ledger} (kept : ledger.Kept installed) {op : Op}
    (enabled : ledger.state.Enabled op) : (ledger.next installed.policy op).Kept installed := by
  obtain ⟨⟨queues, sched⟩, forward⟩ := kept
  have shifted : ∀ {after : State} {reads : Nat},
      (∀ n, after.clock n = ledger.state.clock (n + reads)) →
      ∀ n, after.clock n ≤ after.clock (n + 1) := by
    intro after reads clock n
    rw [clock, clock, Nat.add_right_comm]
    exact forward _
  cases fork : op.isFork with
  | false =>
      obtain ⟨later, reads, loss, after, _, elapses, _⟩ := sched.step_elapses enabled fork
      exact ⟨⟨later, after⟩, shifted elapses.clock⟩
  | true =>
      obtain ⟨later, after, _⟩ := sched.step enabled
      cases op with
      | fork site =>
          obtain ⟨reads, clock⟩ := (sched.enterFork site).sysFork_starts.clock
          exact ⟨⟨later, after⟩, shifted clock⟩
      | _ => exact absurd fork Bool.noConfusion

theorem Sched.fork_conserved {ledger : Ledger} (sched : Sched installed ledger.state queues)
    (site : ForkSite) (conserved : ledger.Conserved) :
    (ledger.next installed.policy (.fork site)).Conserved := by
  have starts := (sched.enterFork site).sysFork_starts
  have entered : ∀ t, (ledger.state.enterFork site).Live t →
      ((ledger.state.enterFork site).task t).pStats.Accounts (ledger.begun t) := conserved
  intro t live
  change (State.sysFork (ledger.state.enterFork site)).2.Live t at live
  show Stats.Accounts ((ledger.state.enterFork site).sysFork.2.task t).pStats
    ((ledger.next installed.policy (.fork site)).begun t)
  simp only [Ledger.next, State.forked, State.step]
  generalize (ledger.state.enterFork site).sysFork = returned at starts live ⊢
  cases starts with
  | none _ alive stats =>
      have before := (alive t).mp live
      rw [stats t before]
      exact entered t before
  | @child _ _ child first _ _ started alive stats =>
      simp only [first, listHeadToTaskStruct]
      by_cases same : t = child
      · subst same
        rw [Function.update_self]
        exact Stats.accounts_start started
      · rw [Function.update_of_ne same, stats t same]
        exact entered t (((alive t).mp live).resolve_right same)

/-- Conservation survives a step exactly when the clock stands still at its double
readings. -/
theorem Ledger.Kept.conserved_iff {ledger : Ledger} (kept : ledger.Kept installed)
    (conserved : ledger.Conserved) {op : Op} (enabled : ledger.state.Enabled op) :
    (ledger.next installed.policy op).Conserved ↔ Steady installed ledger op := by
  obtain ⟨⟨queues, sched⟩, forward⟩ := kept
  cases fork : op.isFork with
  | false =>
      obtain ⟨later, reads, loss, after, free, elapses, loses⟩ := sched.step_elapses enabled fork
      have begun : (ledger.next installed.policy op).begun = ledger.begun := by
        cases op with
        | fork site => exact absurd fork Bool.noConfusion
        | _ => simp only [Ledger.next, State.forked]
      refine Iff.trans (forall_congr' fun t => forall_congr' fun live => ?_) (loses.iff forward)
      have before : ledger.state.Live t := fun member => live (after.represents.on_iff.mpr
        (free t (sched.represents.on_iff.mp member)))
      have old := (Stats.accounts_iff _ _).mp (conserved t before)
      have new := elapses.balance t
      rw [begun, Stats.accounts_iff]
      show State.balance (ledger.state.step installed.policy op) t = _ ↔ _
      rw [new, State.balance, old, add_eq_left]
  | true =>
      cases op with
      | fork site => exact iff_of_true (sched.fork_conserved site conserved) (by simp [Steady, doubleReadings])
      | _ => exact absurd fork Bool.noConfusion

omit [Image] in
theorem foldl_freeSlot_clock (tasks : List Task) (s : State) :
    (tasks.foldl State.freeSlot s).clock = s.clock := by
  induction tasks generalizing s with
  | nil => rfl
  | cons i rest inductionHypothesis => exact inductionHypothesis _

theorem idleInto_meters (s : State) (c : Task) :
    (∀ n, (s.idleInto c).clock n = s.clock (n + 2)) ∧
      ((s.idleInto c).task c).pStats.meter = Meter.start (s.clock 0) := by
  refine ⟨fun n => rfl, ?_⟩
  simp only [State.idleInto, State.setTask, Function.update_self, State.allocateDIR,
    State.initStats, State.setStats, State.getTicks]
  refine congrArg (Meter.mk · (s.clock 0)) (funext fun counter => ?_)
  cases counter <;> rfl

theorem task1Into_meters (s : State) (c : Task) :
    (∀ n, (s.task1Into c).clock n = s.clock (n + 2)) ∧
      ((s.task1Into c).task c).pStats.meter = Meter.start (s.clock 0) ∧
      ∀ t, t ≠ c → (s.task1Into c).task t = s.task t := by
  refine ⟨fun n => rfl, ?_, fun t apart => ?_⟩
  · simp only [State.task1Into, State.setCr3, State.setTask, Function.update_self,
      State.allocateDIR, State.initStats, State.setStats, State.getTicks]
    refine congrArg (Meter.mk · (s.clock 0)) (funext fun counter => ?_)
    cases counter <;> rfl
  · simp [State.task1Into, State.setCr3, State.setTask, State.allocateDIR, State.initStats,
      State.setStats, State.getTicks, apart]

theorem boot_meters (memory : State) :
    (memory.boot.task 0).pStats.meter = Meter.start (memory.clock 0) ∧
      (memory.boot.task 1).pStats.meter = Meter.start (memory.clock 2) ∧
      ∀ n, memory.boot.clock n = memory.clock (n + 4) := by
  have prepared : memory.prepare.clock = memory.clock :=
    foldl_freeSlot_clock (List.finRange NR_TASKS) (memory.load.initMm.initListHead .freequeue)
  rw [State.boot_eq, ← prepared]
  generalize memory.prepare = s
  obtain ⟨idleClock, idle⟩ := idleInto_meters (s.listDel (.node 0)) 0
  obtain ⟨clock, first, others⟩ := task1Into_meters
    (((s.listDel (.node 0)).idleInto 0).listDel (.node 1)) 1
  refine ⟨?_, first, fun n => rfl⟩
  have apart : (0 : Task) ≠ 1 := by decide
  show (State.task ((((s.listDel (.node 0)).idleInto 0).listDel (.node 1)).task1Into 1) 0).pStats.meter
    = _
  rw [others 0 apart]
  exact idle

theorem boot_conserved (installed : Installed) (memory : State) :
    (Ledger.boot memory).Conserved := by
  obtain ⟨idle, first, _⟩ := boot_meters memory
  intro t live
  have alive : t ∉ Queues.boot.on .freequeue := fun free =>
    live ((boot_sched installed memory).represents.on_iff.mpr free)
  have slot : t = 0 ∨ t = 1 := by
    by_contra neither
    exact alive (Queues.mem_boot.mpr ⟨rfl, not_or.mp neither⟩)
  show (memory.boot.task t).pStats.Accounts (memory.boot.task t).pStats.elapsedTotalTicks
  rcases slot with rfl | rfl
  · exact Stats.accounts_start idle
  · exact Stats.accounts_start first

theorem boot_kept (installed : Installed) {memory : State}
    (forward : ∀ n, memory.clock n ≤ memory.clock (n + 1)) :
    (Ledger.boot memory).Kept installed := by
  refine ⟨⟨_, boot_sched installed memory⟩, fun n => ?_⟩
  show memory.boot.clock n ≤ memory.boot.clock (n + 1)
  rw [(boot_meters memory).2.2, (boot_meters memory).2.2, Nat.add_right_comm]
  exact forward _

theorem Ledger.Kept.always_iff {memory : State} {ledger : Ledger} (kept : ledger.Kept installed)
    (conserved : ledger.Conserved) {ops : List Op}
    (runs : (ledgers installed memory).Runs ledger ops) :
    (ledgers installed memory).Always Ledger.Conserved ledger ops ↔
      (ledgers installed memory).Each (Steady installed) ledger ops :=
  System.always_iff_each (fun _ _ kept enabled => kept.next enabled)
    (fun _ _ kept conserved enabled => kept.conserved_iff conserved enabled) runs kept conserved

/-- In a run on a clock that does not run backwards, every live task stays accounted
for exactly when the clock stands still at all double readings. -/
theorem always_conserved_iff {memory : State}
    (forward : ∀ n, memory.clock n ≤ memory.clock (n + 1)) {ops : List Op}
    (runs : (ledgers installed memory).Runs (.boot memory) ops) :
    (ledgers installed memory).Always Ledger.Conserved (.boot memory) ops ↔
      (ledgers installed memory).Each (Steady installed) (.boot memory) ops :=
  (boot_kept installed forward).always_iff (boot_conserved installed memory) runs

theorem boot_process (memory : State) : memory.boot.current ≠ memory.boot.idleTask := by
  rw [State.boot_current, State.boot_idleTask]
  decide

end

/-- Zeroed memory, and a clock that moves on at each of the first hundred readings. -/
def State.ticking : State := { State.blank with clock := fun n => BitVec.ofNat 32 (min n 100) }

theorem State.ticking_forward (n : Nat) : State.ticking.clock n ≤ State.ticking.clock (n + 1) := by
  rw [BitVec.le_def]
  simp only [ticking, BitVec.toNat_ofNat]
  omega

/-- A fork and a tick conserve time on any clock. -/
theorem always_conserved_iff_forkAndTick : (@ledgers Image.sample .RR State.ticking).Always
    Ledger.Conserved (@Ledger.boot Image.sample State.ticking)
    [.fork ForkSite.top, .tick SwitchSite.top] :=
  (@always_conserved_iff Image.sample .RR State.ticking State.ticking_forward
    [.fork ForkSite.top, .tick SwitchSite.top]
    ⟨@boot_process Image.sample State.ticking, trivial, trivial⟩).mpr
      ⟨by simp [Steady, doubleReadings], by simp [Steady, doubleReadings], trivial⟩

/-- The first process blocks, and a tick is gone. -/
theorem block_loses_tick : ¬ ∀ (installed : Installed) (memory : State),
    (∀ n, memory.clock n ≤ memory.clock (n + 1)) → ∀ ops : List Op,
      (@ledgers Image.sample installed memory).Runs (@Ledger.boot Image.sample memory) ops →
      (@ledgers Image.sample installed memory).Always Ledger.Conserved
        (@Ledger.boot Image.sample memory) ops := by
  intro conserved
  have enabled := @boot_process Image.sample State.ticking
  have always := conserved .RR State.ticking State.ticking_forward [.block SwitchSite.top 0]
    ⟨enabled, trivial⟩
  have kept := @boot_kept Image.sample .RR State.ticking State.ticking_forward
  have steady := (@Ledger.Kept.conserved_iff Image.sample .RR _ kept always.1
    (.block SwitchSite.top 0) enabled).mp always.2
  have still : (@State.boot Image.sample State.ticking).clock 0 =
      (@State.boot Image.sample State.ticking).clock 1 := steady 0 List.mem_cons_self
  have shown := (@boot_meters Image.sample State.ticking).2.2
  rw [shown, shown] at still
  exact absurd still (by decide)

end Zeos
