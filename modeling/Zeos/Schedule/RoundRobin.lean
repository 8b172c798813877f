import Zeos.Schedule.Fields

/-!
# Round robin, step by step

What an entry of the kernel does to the ready queue and to the quantum when the
pointers are set to the `*_rr` functions: new tasks go to the end of the queue, and
either the running task goes on or the first one takes its place with a new quantum.
-/

namespace Zeos

open Library

namespace State

structure SameQuanta (s after : State) : Prop where
  total : ∀ t, (after.task t).totalQuantum = (s.task t).totalQuantum
  remaining : after.remainingQuantum = s.remainingQuantum

variable {s middle after : State}

theorem SameQuanta.refl (s : State) : s.SameQuanta s := ⟨fun _ => rfl, rfl⟩

theorem SameQuanta.trans (first : s.SameQuanta middle) (second : middle.SameQuanta after) :
    s.SameQuanta after :=
  ⟨fun t => (second.total t).trans (first.total t), second.remaining.trans first.remaining⟩

theorem updateStats_quanta (s : State) (task : Task) (v : Counter) :
    s.SameQuanta (s.updateStats task v) :=
  ⟨(updateStats_preserves totalQuantum_apart s task v).task, rfl⟩

theorem addTicks_quanta (s : State) (task : Task) (v : Counter) :
    s.SameQuanta (s.addTicks task v) :=
  ⟨(addTicks_preserves totalQuantum_apart s task v).task, rfl⟩

theorem updateProcessStateRr_quanta (s : State) (t : Task) (queue : Queue) :
    s.SameQuanta (s.updateProcessStateRr t (some queue)) := by
  refine ⟨(updateProcessStateRr_preserves totalQuantum_apart s t queue).task, ?_⟩
  obtain ⟨_, ⟨_, _, rfl, _⟩, result⟩ := s.updateProcessStateRr_relinks t queue
  rw [result]
  split
  · rfl
  · rfl

section

variable [Image]

theorem schedNextRr_quanta (s : State) :
    (∀ t, (s.schedNextRr.task t).totalQuantum = (s.task t).totalQuantum) ∧
      s.schedNextRr.remainingQuantum = (s.task s.takeNext.1).totalQuantum ∧
      s.schedNextRr.current = s.takeNext.1 := by
  have whole : (s.takeNext.2.prepareRr s.takeNext.1).remainingQuantum =
      (s.task s.takeNext.1).totalQuantum :=
    ((setState_preserves totalQuantum_apart s.takeNext.2 s.takeNext.1 .ST_RUN).task _).trans
      (s.takeNext_preserves.task _)
  have total := (schedNextRr_preserves totalQuantum_apart s).task
  have result : s.schedNextRr = (s.takeNext.2.prepareRr s.takeNext.1).taskSwitch s.takeNext.1 := rfl
  rw [result] at total ⊢
  generalize s.takeNext.2.prepareRr s.takeNext.1 = middle at whole total ⊢
  exact ⟨total, (middle.taskSwitch_globals s.takeNext.1).2.1.trans whole,
    (middle.taskSwitch_frame s.takeNext.1).2.1⟩

end

end State

def Op.isTick : Op → Bool
  | .tick _ => true
  | _ => false

theorem needsSchedRr_left {s : State} (left : s.remainingQuantum ≠ 0) :
    s.needsSchedRr = (false, s) := by
  rw [State.needsSchedRr, if_neg fun both => left both.1, if_neg left]

theorem Queues.next_ready (queues : Queues) (idle : Task) :
    (queues.remove (queues.next idle)).on .readyqueue = (queues.on .readyqueue).tail := by
  unfold next
  show (queues.on .readyqueue).erase _ = _
  cases queues.on .readyqueue with
  | nil => rfl
  | cons first rest => simp

def Counts (tick : Bool) (s after : State) : Prop :=
  after.remainingQuantum ≠ 0 ∧
    after.remainingQuantum + (if tick then 1 else 0) = s.remainingQuantum

/-- What an entry of the kernel does with the processor: the running task goes on, or
the first ready task gets it, or idle if none is ready. The tasks of `entered` are new
on the ready queue. -/
inductive Turn (tick : Bool) (s : State) (ready entered later : List Task) (after : State) :
    Prop where
  | goesOn (queue : later = ready ++ entered) (current : after.current = s.current)
      (counts : Counts tick s after)
  /-- The quantum is spent and nobody waits for the processor. -/
  | renewed (alone : ready = []) (queue : later = entered) (current : after.current = s.current)
      (whole : after.remainingQuantum = (after.task after.current).totalQuantum)
  | handsOver (queue : later = (ready ++ entered).tail)
      (current : after.current = (ready ++ entered).headD s.idleTask)
      (whole : after.remainingQuantum = (after.task after.current).totalQuantum)

/-- Live tasks keep their quanta; a new one has that of a live task. -/
structure Inherits (s : State) (queues : Queues) (after : State) (later : Queues) : Prop where
  old : ∀ t, t ∉ queues.on .freequeue → (after.task t).totalQuantum = (s.task t).totalQuantum
  new : ∀ t, t ∉ later.on .freequeue →
    ∃ u, u ∉ queues.on .freequeue ∧ (after.task t).totalQuantum = (s.task u).totalQuantum

def Proceeds (tick : Bool) (s : State) (queues : Queues) (after : State) : Prop :=
  ∃ later entered, Sched .RR after later ∧
    Turn tick s (queues.on .readyqueue) entered (later.on .readyqueue) after ∧
    Inherits s queues after later

section

variable [Image] {s middle after : State} {queues later : Queues} {tick : Bool}

omit [Image] in
theorem Inherits.of_total (total : ∀ t, (after.task t).totalQuantum = (s.task t).totalQuantum)
    (free : ∀ t, t ∈ queues.on .freequeue → t ∈ later.on .freequeue) :
    Inherits s queues after later :=
  ⟨fun t _ => total t, fun t live => ⟨t, fun member => live (free t member), total t⟩⟩

/-- After quiet steps and new tasks at the end of the ready queue, `sched_next_rr`. -/
theorem Placed.proceeds (placed : Placed .RR middle later ∅) (entered : List Task)
    (same : ∀ t, (middle.task t).totalQuantum = (s.task t).totalQuantum)
    (idle : middle.idleTask = s.idleTask)
    (ready : later.on .readyqueue = queues.on .readyqueue ++ entered)
    (free : ∀ t, t ∈ queues.on .freequeue → t ∈ later.on .freequeue) :
    Proceeds tick s queues middle.schedNextRr := by
  have switches := placed.schedNextRr
  obtain ⟨total, remaining, current⟩ := middle.schedNextRr_quanta
  have chosen := placed.takeNext.1
  refine ⟨_, entered, switches.sched, .handsOver ?_ ?_ ?_, .of_total
    (fun t => (total t).trans (same t)) fun t member => ?_⟩
  · rw [Queues.next_ready, ready]
  · rw [current, chosen, Queues.next, ready, idle]
  · rw [remaining, total, current]
  · exact (SameFree.remove placed.next_not_free t).mpr (free t member)

omit [Image] in
theorem Sched.proceeds (sched : Sched .RR after later) (entered : List Task)
    (same : s.SameQuanta after) (current : after.current = s.current)
    (left : s.remainingQuantum ≠ 0)
    (ready : later.on .readyqueue = queues.on .readyqueue ++ entered)
    (free : ∀ t, t ∈ queues.on .freequeue → t ∈ later.on .freequeue) :
    Proceeds false s queues after := by
  refine ⟨later, entered, sched, .goesOn ready current ⟨?_, ?_⟩, .of_total same.total free⟩
  · rw [same.remaining]
    exact left
  · rw [same.remaining]
    exact BitVec.add_zero _

theorem enter_quanta {below above : Nat} (s : State) (site : CallSite below above) :
    s.SameQuanta (s.enter site) :=
  ⟨fun _ => rfl, rfl⟩

theorem Sched.exit_proceeds (sched : Sched .RR s queues) (process : s.current ≠ s.idleTask) :
    Proceeds false s queues s.sysExit := by
  obtain ⟨left, quiet, placed, explicit, result⟩ := sched.sysExit_eq process
  rw [result]
  refine placed.proceeds [] (fun t => ?_) quiet.idleTask ?_ fun t member => ?_
  · rw [explicit]
    exact (State.setTask_preserves _ s.current rfl).task t
  · simp [Queues.push]
  · exact Queues.mem_push.mpr (.inl member)

theorem Sched.yield_proceeds (sched : Sched .RR s queues) (process : s.current ≠ s.idleTask) :
    Proceeds false s queues s.forceTaskSwitch := by
  have placed := sched.enqueueRr .readyqueue sched.running fun _ => process
  refine placed.proceeds [s.current] (s.updateProcessStateRr_quanta s.current .readyqueue).total
    (updateProcessStateRr_quiet s s.current .readyqueue).idleTask ?_ fun t member => ?_
  · simp [Queues.push]
  · exact Queues.mem_push.mpr (.inl member)

theorem Sched.block_proceeds (sched : Sched .RR s queues) (process : s.current ≠ s.idleTask)
    (n : Nat) : Proceeds false s queues (s.blockProcess .rr (.blocking n)) := by
  have placed := sched.enqueueRr (.blocking n) sched.running process
  have accounts := (s.updateProcessStateRr s.current (some (.blocking n))).addTicks_accounts
    s.current .systemTicks
  have quanta := (s.updateProcessStateRr_quanta s.current (.blocking n)).trans
    (State.addTicks_quanta _ s.current .systemTicks)
  have idle := accounts.idleTask.trans
    (updateProcessStateRr_quiet s s.current (.blocking n)).idleTask
  have result : s.blockProcess .rr (.blocking n) = ((s.updateProcessStateRr s.current
    (some (.blocking n))).addTicks s.current .systemTicks).schedNextRr := by
    simp only [State.blockProcess, Policy.rr]
  rw [result]
  refine (placed.accounts accounts).proceeds [] quanta.total idle ?_ fun t member => ?_
  · simp [Queues.push]
  · exact Queues.mem_push.mpr (.inl member)

theorem Sched.unblock_proceeds (sched : Sched .RR s queues) (left : s.remainingQuantum ≠ 0)
    {task : Task} {n : Nat} (waiting : task ∈ queues.on (.blocking n)) :
    Proceeds false s queues (s.unblockProcess .rr task) := by
  have accounts := s.addTicks_accounts task .blockedTicks
  have woken := (sched.accounts accounts).wake waiting (queues.off_remove_self task)
  have quanta := (s.addTicks_quanta task .blockedTicks).trans
    (State.updateProcessStateRr_quanta _ task .readyqueue)
  have current := (updateProcessStateRr_quiet (s.addTicks task .blockedTicks) task
    .readyqueue).current.trans accounts.current
  have result : s.unblockProcess .rr task =
      ((s.addTicks task .blockedTicks).updateProcessStateRr task (some .readyqueue)).reschedule .rr :=
    rfl
  rw [result]
  change Sched .RR ((s.addTicks task .blockedTicks).updateProcessStateRr task (some .readyqueue)) _
    at woken
  generalize (s.addTicks task .blockedTicks).updateProcessStateRr task (some .readyqueue) = middle
    at woken quanta current ⊢
  have some : middle.remainingQuantum ≠ 0 := by
    rw [quanta.remaining]
    exact left
  rw [reschedule_notNeeded (needsSchedRr_left some)]
  refine woken.proceeds [task] quanta current left ?_ fun t member => ?_
  · have apart : task ∉ queues.on .readyqueue := fun ready =>
      Queue.noConfusion (queues.apart ready waiting)
    simp [Queues.push, Queues.remove, List.erase_of_not_mem apart]
  · have apart : t ≠ task := by
      rintro rfl
      exact Queue.noConfusion (queues.apart member waiting)
    exact Queues.mem_push.mpr (.inl (Queues.mem_remove.mpr ⟨apart, member⟩))

/-- A tick counts, renews the quantum of a task that is alone, or ends its turn. -/
theorem Sched.tick_proceeds (sched : Sched .RR s queues) :
    Proceeds true s queues (s.clockRoutine .rr) := by
  have accounts := (s.zeosTicks_accounts (s.zeosTicks + 1)).trans
    (State.quantum_accounts _ (s.remainingQuantum - 1))
  have total : ∀ t, (State.task { s with
      zeosTicks := s.zeosTicks + 1
      remainingQuantum := s.remainingQuantum - 1 } t).totalQuantum = (s.task t).totalQuantum :=
    fun _ => rfl
  have counted : State.remainingQuantum { s with
      zeosTicks := s.zeosTicks + 1
      remainingQuantum := s.remainingQuantum - 1 } + 1 = s.remainingQuantum :=
    BitVec.sub_add_cancel _ _
  have result : s.clockRoutine .rr = State.reschedule .rr { s with
      zeosTicks := s.zeosTicks + 1
      remainingQuantum := s.remainingQuantum - 1 } := rfl
  rw [result]
  have counting := sched.accounts accounts
  generalize ({ s with
    zeosTicks := s.zeosTicks + 1
    remainingQuantum := s.remainingQuantum - 1 } : State) = middle
    at accounts total counted counting ⊢
  clear result
  by_cases spent : middle.remainingQuantum = 0
  · cases empty : middle.listEmpty .readyqueue with
    | true =>
        have none := (counting.represents.listEmpty_iff .readyqueue).mp empty
        have notNeeded : middle.needsSchedRr =
            (false, { middle with remainingQuantum := (middle.task middle.current).totalQuantum }) := by
          rw [State.needsSchedRr, if_neg (by simp [empty]), if_pos spent]
        rw [reschedule_notNeeded notNeeded]
        refine ⟨queues, [], counting.accounts (State.quantum_accounts _ _), .renewed none none
          accounts.current rfl, .of_total total fun _ member => member⟩
    | false =>
        have needed : middle.needsSchedRr = (true, middle) := by
          rw [State.needsSchedRr, if_pos ⟨spent, empty⟩]
        have placed := counting.enqueueRr .readyqueue counting.running nofun
        rw [reschedule_needed needed]
        refine placed.proceeds [middle.current] (fun t =>
          ((middle.updateProcessStateRr_quanta middle.current .readyqueue).total t).trans (total t))
          ((updateProcessStateRr_quiet middle middle.current .readyqueue).idleTask.trans
            accounts.idleTask) ?_ fun t member => ?_
        · simp [Queues.push]
        · exact Queues.mem_push.mpr (.inl member)
  · rw [reschedule_notNeeded (needsSchedRr_left spent)]
    exact ⟨queues, [], counting, .goesOn (List.append_nil _).symm accounts.current ⟨spent, counted⟩,
      .of_total total fun _ member => member⟩

theorem forkFinish_quanta (s : State) (child : Task) :
    (s.forkFinish child).2.remainingQuantum = s.remainingQuantum ∧
      ∀ t, ((s.forkFinish child).2.task t).totalQuantum = (s.task t).totalQuantum := by
  refine ⟨rfl, fun t => ?_⟩
  by_cases same : t = child <;> simp [State.forkFinish, State.listAddTail, State.setState,
    State.setTask, State.initStats, State.setStats, State.getTicks, State.forkStack, same]

theorem forkCopied_quanta (s : State) (child t : Task) :
    ((forkCopied s child).task t).totalQuantum =
      if t = child then (s.task s.current).totalQuantum else (s.task t).totalQuantum := by
  by_cases same : t = child <;> simp [forkCopied, State.forkCopy, State.copyTaskUnion,
    State.allocateDIR, State.setTask, State.listDel, same]

theorem Sched.fork_proceeds (sched : Sched .RR s queues) (left : s.remainingQuantum ≠ 0) :
    Proceeds false s queues s.sysFork.2 := by
  rcases sysFork_cases sched.represents with ⟨none, result⟩ | ⟨child, rest, first, result⟩
  · rw [result]
    exact sched.proceeds [] (.refl s) rfl left (List.append_nil _).symm fun _ member => member
  · have free : child ∈ queues.on .freequeue := Queues.mem_of_first first
    have off := queues.off_remove_self child
    have running : s.current ∉ queues.on .freequeue := sched.current_off _
    have ready : (queues.on .readyqueue).erase child = queues.on .readyqueue :=
      List.erase_of_not_mem fun member => Queue.noConfusion (queues.apart free member)
    have copied := forkCopied_quanta s child
    have old : ∀ t, t ∉ queues.on .freequeue →
        ((forkCopied s child).task t).totalQuantum = (s.task t).totalQuantum := by
      intro t live
      have apart : t ≠ child := fun same => live (same ▸ free)
      rw [copied, if_neg apart]
    rw [result]
    cases allocated : (forkCopied s child).mm.allocData ((forkCopied s child).getPT child)
        NUM_PAG_DATA with
    | error stopped =>
        rw [forkInto_error allocated]
        refine ⟨_, [], sched.fork_refused free off _, .goesOn ?_ rfl ⟨left, BitVec.add_zero _⟩,
          old, fun t live => ⟨t, fun member => live ?_, old t fun member => live ?_⟩⟩
        · simp [Queues.push, Queues.remove, ready]
        all_goals
          by_cases same : t = child
          · exact Queues.mem_push.mpr (.inr ⟨rfl, same⟩)
          · exact Queues.mem_push.mpr (.inl (Queues.mem_remove.mpr ⟨same, member⟩))
    | ok mm =>
        obtain ⟨remaining, total⟩ := forkFinish_quanta (forkMapped s child mm) child
        have current : ((forkMapped s child mm).forkFinish child).2.current = s.current := by
          obtain ⟨before, finish⟩ := forkFinish_eq (forkMapped s child mm) child
          rw [finish.result]
          exact finish.current
        have kept : ∀ t, t ∉ queues.on .freequeue →
            (((forkMapped s child mm).forkFinish child).2.task t).totalQuantum =
              (s.task t).totalQuantum := fun t live => (total t).trans (old t live)
        rw [forkInto_ok allocated]
        refine ⟨_, [child], sched.forked free off mm, .goesOn ?_ current ?_, kept, fun t live => ?_⟩
        · simp [Queues.push, Queues.remove, ready]
        · exact ⟨by rw [remaining]; exact left, by rw [remaining]; exact BitVec.add_zero _⟩
        · by_cases same : t = child
          · refine ⟨s.current, running, (total t).trans ?_⟩
            show ((forkCopied s child).task t).totalQuantum = _
            rw [copied, if_pos same]
          · have before : t ∉ queues.on .freequeue := fun member =>
              live (Queues.mem_push.mpr (.inl (Queues.mem_remove.mpr ⟨same, member⟩)))
            exact ⟨t, before, kept t before⟩

omit [Image] in
theorem Proceeds.entered {before : State} (proceeds : Proceeds tick before queues after)
    (same : s.SameQuanta before) (current : before.current = s.current)
    (idle : before.idleTask = s.idleTask) : Proceeds tick s queues after := by
  obtain ⟨later, entered, sched, turn, inherits⟩ := proceeds
  refine ⟨later, entered, sched, ?_, fun t live => (inherits.old t live).trans (same.total t),
    fun t live => ?_⟩
  · cases turn with
    | goesOn queue on counts =>
        rw [Counts, same.remaining] at counts
        exact .goesOn queue (on.trans current) counts
    | renewed alone queue on whole => exact .renewed alone queue (on.trans current) whole
    | handsOver queue first whole => exact .handsOver queue (idle ▸ first) whole
  · obtain ⟨u, alive, total⟩ := inherits.new t live
    exact ⟨u, alive, total.trans (same.total u)⟩

/-- Every entry of the kernel under round robin is a turn. -/
theorem Sched.step_proceeds (sched : Sched .RR s queues) (left : s.remainingQuantum ≠ 0) {op : Op}
    (enabled : s.Enabled op) : Proceeds op.isTick s queues (s.step .rr op) := by
  have entered : ∀ {below above : Nat} (site : CallSite below above) {tick : Bool} {after : State},
      Proceeds tick (s.enter site) queues after → Proceeds tick s queues after :=
    fun site _ _ proceeds => proceeds.entered (enter_quanta s site) rfl rfl
  cases op with
  | fork site =>
      exact ((sched.enterFork site).fork_proceeds left).entered ⟨fun _ => rfl, rfl⟩ rfl rfl
  | exit site => exact entered site ((sched.enter site).exit_proceeds enabled)
  | yield site => exact entered site ((sched.enter site).yield_proceeds enabled)
  | block site n => exact entered site ((sched.enter site).block_proceeds enabled n)
  | unblock site blocked =>
      obtain ⟨n, waiting⟩ := enabled
      exact entered site
        ((sched.enter site).unblock_proceeds left (sched.represents.on_iff.mp waiting))
  | tick site => exact entered site (sched.enter site).tick_proceeds
  | charge v =>
      exact (sched.accounts (s.updateStats_accounts s.current v)).proceeds []
        (s.updateStats_quanta s.current v) rfl left (List.append_nil _).symm fun _ member => member
  | touch page =>
      exact (sched.setMemory _).proceeds [] ⟨fun _ => rfl, rfl⟩ rfl left
        (List.append_nil _).symm fun _ member => member

end

end Zeos
