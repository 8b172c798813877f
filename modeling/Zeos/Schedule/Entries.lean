import Zeos.Schedule.Steps

/-!
# Every kernel entry keeps every task in its place

The steps of the system, one by one. Each lemma gives the queues after the step
and says in which way the step reaches address spaces and stacks.
-/

namespace Zeos

open Library

variable {installed : Installed} {s after : State} {queues later : Queues} {off : Set Task}
  {task : Task} {queue : Queue} {back : Prop}

def SameFree (queues later : Queues) : Prop :=
  ∀ t, t ∈ later.on .freequeue ↔ t ∈ queues.on .freequeue

theorem SameFree.trans {middle : Queues} (first : SameFree queues middle)
    (second : SameFree middle later) : SameFree queues later :=
  fun t => (second t).trans (first t)

theorem SameFree.push {outside : queues.Off task} (apart : queue ≠ .freequeue) :
    SameFree queues (queues.push task queue outside) := by
  intro t
  rw [Queues.mem_push]
  simp [apart.symm]

theorem SameFree.remove (notFree : task ∉ queues.on .freequeue) :
    SameFree queues (queues.remove task) := by
  intro t
  rw [Queues.mem_remove]
  exact ⟨fun member => member.2, fun member => ⟨fun same => notFree (same ▸ member), member⟩⟩

theorem needsSchedRr_cases (s : State) :
    (s.needsSchedRr = (true, s) ∧ s.listEmpty .readyqueue = false) ∨
      s.needsSchedRr.1 = false := by
  unfold State.needsSchedRr
  split
  · rename_i spent
    exact .inl ⟨rfl, spent.2⟩
  · refine .inr ?_
    split <;> rfl

section

variable [Image]

/-- Quiet steps, then a switch to a task whose slot is not free. Under round robin
it is the running task itself exactly if `back`. -/
def HandsOver (installed : Installed) (back : Prop) (s after : State) (queues : Queues) : Prop :=
  ∃ middle t, s.Quiet middle ∧ t ∉ queues.on .freequeue ∧
    (installed = .RR → (t = s.current ↔ back)) ∧ after = middle.taskSwitch t

def Yields (installed : Installed) (back : Prop) (s : State) (queues : Queues)
    (after : State) : Prop :=
  ∃ later, Sched installed after later ∧ SameFree queues later ∧
    HandsOver installed back s after later

/-- The same, or quiet steps only; then never to the running task itself. -/
def Settles (installed : Installed) (s : State) (queues : Queues) (after : State) : Prop :=
  ∃ later, Sched installed after later ∧ SameFree queues later ∧
    (s.Quiet after ∨ HandsOver installed False s after later)

theorem Switches.yields {middle : State} (quiet : s.Quiet middle)
    (placed : Placed installed middle later ∅) (free : SameFree queues later)
    (switches : Switches installed middle later after)
    (moves : installed = .RR → (later.next middle.idleTask = s.current ↔ back)) :
    Yields installed back s queues after := by
  obtain ⟨last, rest, result⟩ := switches.switched
  have notFree := placed.next_not_free
  have removed := SameFree.remove notFree
  exact ⟨_, switches.sched, free.trans removed, last, _, quiet.trans rest,
    fun member => notFree ((removed _).mp member), moves, result⟩

theorem Yields.settles (yields : Yields installed False s queues after) :
    Settles installed s queues after := by
  obtain ⟨later, sched, free, handsOver⟩ := yields
  exact ⟨later, sched, free, .inr handsOver⟩

theorem Sched.settles (sched : Sched installed after queues) (quiet : s.Quiet after) :
    Settles installed s queues after :=
  ⟨queues, sched, fun _ => .rfl, .inl quiet⟩

theorem Settles.after_quiet {middle : State} (settles : Settles installed middle later after)
    (quiet : s.Quiet middle) (free : SameFree queues later) :
    Settles installed s queues after := by
  obtain ⟨last, sched, same, switched⟩ := settles
  refine ⟨last, sched, free.trans same, ?_⟩
  rcases switched with rest | ⟨turn, t, rest, notFree, moves, result⟩
  · exact .inl (quiet.trans rest)
  · refine .inr ⟨turn, t, quiet.trans rest, notFree, ?_, result⟩
    rw [← quiet.current]
    exact moves

omit [Image] in
theorem next_ne_of_not_ready {queues : Queues} {task idle : Task}
    (notReady : task ∉ queues.on .readyqueue) (process : task ≠ idle) :
    queues.next idle ≠ task := by
  rintro rfl
  rcases queues.next_cases idle with ⟨_, isIdle⟩ | ⟨rest, first⟩
  · exact process isIdle
  · rw [first] at notReady
    exact notReady List.mem_cons_self

theorem reschedule_needed {s : State} (needed : s.needsSchedRr = (true, s)) :
    s.reschedule .rr = (s.updateProcessStateRr s.current (some .readyqueue)).schedNextRr := by
  unfold State.reschedule
  simp only [Policy.rr, needed, if_true]

theorem reschedule_notNeeded {s after : State} (notNeeded : s.needsSchedRr = (false, after)) :
    s.reschedule .rr = after := by
  unfold State.reschedule
  simp only [Policy.rr, notNeeded, Bool.false_eq_true, if_false]

theorem reschedule_rr (s : State) :
    (s.reschedule .rr = s.needsSchedRr.2) ∨
      (s.listEmpty .readyqueue = false ∧ s.reschedule .rr =
        (s.updateProcessStateRr s.current (some .readyqueue)).schedNextRr) := by
  rcases needsSchedRr_cases s with ⟨needed, notEmpty⟩ | notNeeded
  · exact .inr ⟨notEmpty, reschedule_needed needed⟩
  · exact .inl (reschedule_notNeeded (Prod.ext notNeeded rfl))

omit [Image] in
theorem Sched.next_push_ne (sched : Sched installed s queues) (ready : queues.on .readyqueue ≠ [])
    {idle : Task} : (queues.push s.current .readyqueue sched.current_off).next idle ≠ s.current := by
  intro same
  obtain ⟨first, queued⟩ := Queues.next_push sched.current_off idle ready
  rw [← first, same] at queued
  exact sched.current_off _ queued

theorem Sched.rescheduleRr (sched : Sched .RR s queues) :
    s.Accounts (s.reschedule .rr) ∨
      (queues.on .readyqueue ≠ [] ∧ ∃ middle, s.Quiet middle ∧
        Placed .RR middle (queues.push s.current .readyqueue sched.current_off) ∅ ∧
        s.reschedule .rr = middle.schedNextRr) := by
  rcases reschedule_rr s with result | ⟨notEmpty, result⟩
  · rw [result]
    exact .inl s.needsSchedRr_accounts
  · refine .inr ⟨?_, _, updateProcessStateRr_quiet s s.current .readyqueue,
      sched.enqueueRr .readyqueue sched.running nofun, result⟩
    intro none
    have empty := (sched.represents.listEmpty_iff .readyqueue).mpr none
    rw [State.listEmpty, empty] at notEmpty
    exact Bool.noConfusion notEmpty

theorem Sched.rescheduleFcfs (sched : Sched .FCFS s queues) :
    Settles .FCFS s queues (s.reschedule .fcfs) := by
  simp only [State.reschedule, Policy.fcfs, State.needsSchedFcfs, decide_eq_true_eq]
  split
  · obtain ⟨later, free, placed⟩ := sched.enqueueFcfs .readyqueue fun apart _ => apart
    exact ((Placed.schedNextFcfs placed).yields
      (updateProcessStateFcfs_quiet s s.current (some .readyqueue)) placed free nofun).settles
  · exact sched.settles (.refl s)

theorem Sched.reschedule (sched : Sched installed s queues) :
    Settles installed s queues (s.reschedule installed.policy) := by
  cases installed with
  | RR =>
      rcases sched.rescheduleRr with accounts | ⟨ready, middle, quiet, placed, result⟩
      · exact (sched.accounts accounts).settles accounts.quiet
      · show Settles .RR s queues (s.reschedule .rr)
        rw [result]
        refine (placed.schedNextRr.yields quiet placed (.push Queue.noConfusion)
          fun _ => iff_of_false ?_ not_false).settles
        exact sched.next_push_ne ready
  | FCFS => exact sched.rescheduleFcfs

theorem clockRoutine_eq (installed : Installed) (s : State) :
    ∃ middle, s.Accounts middle ∧
      s.clockRoutine installed.policy = middle.reschedule installed.policy := by
  cases installed with
  | RR => exact ⟨_, (s.zeosTicks_accounts _).trans (State.quantum_accounts _ _), rfl⟩
  | FCFS => exact ⟨_, s.zeosTicks_accounts _, rfl⟩

theorem Sched.clockRoutine (sched : Sched installed s queues) :
    Settles installed s queues (s.clockRoutine installed.policy) := by
  obtain ⟨middle, accounts, result⟩ := clockRoutine_eq installed s
  rw [result]
  exact (sched.accounts accounts).reschedule.after_quiet accounts.quiet fun _ => .rfl

theorem Sched.forceTaskSwitch (sched : Sched installed s queues)
    (process : s.current ≠ s.idleTask) :
    Yields installed (queues.on .readyqueue = []) s queues s.forceTaskSwitch := by
  have placed := sched.enqueueRr .readyqueue sched.running fun _ => process
  refine placed.schedNextRr.yields (updateProcessStateRr_quiet s s.current .readyqueue) placed
    (.push Queue.noConfusion) fun _ => ⟨fun same => ?_, fun none => ?_⟩
  · by_contra ready
    exact sched.next_push_ne ready same
  · simp [Queues.next, Queues.push, none]

theorem Sched.blockProcess (sched : Sched installed s queues)
    (process : s.current ≠ s.idleTask) (n : Nat) :
    Settles installed s queues (s.blockProcess installed.policy (.blocking n)) := by
  have quiet := updateProcessState_quiet installed s s.current (.blocking n)
  have enqueued : ∃ later, SameFree queues later ∧ Placed installed
      (installed.policy.updateProcessState s s.current (some (.blocking n))) later ∅ ∧
      (installed = .RR → s.current ∉ later.on .readyqueue) := by
    cases installed with
    | RR =>
        refine ⟨_, .push Queue.noConfusion,
          sched.enqueueRr (.blocking n) sched.running process, fun _ ready => ?_⟩
        rcases Queues.mem_push.mp ready with old | ⟨other, _⟩
        · exact sched.current_off _ old
        · exact Queue.noConfusion other
    | FCFS =>
        obtain ⟨later, free, placed⟩ := sched.enqueueFcfs (.blocking n) fun _ => process
        exact ⟨later, free, placed, nofun⟩
  obtain ⟨later, free, placed, notReady⟩ := enqueued
  have accounts := (installed.policy.updateProcessState s s.current (some (.blocking n)))
    |>.addTicks_accounts s.current .systemTicks
  have counted := placed.accounts accounts
  have whole := quiet.trans accounts.quiet
  refine (counted.schedNext.yields whole counted free fun round =>
    iff_of_false ?_ not_false).settles
  refine next_ne_of_not_ready (notReady round) ?_
  rw [whole.idleTask]
  exact process

theorem Sched.wake (sched : Sched installed s queues) {n : Nat}
    (waiting : task ∈ queues.on (.blocking n)) (off : (queues.remove task).Off task) :
    Sched installed (installed.policy.updateProcessState s task (some .readyqueue))
      ((queues.remove task).push task .readyqueue off) := by
  have fits := sched.fits _ task waiting
  have removed := sched.remove waiting
  have apart : s.current ≠ task := fun same => sched.current_off _ (same ▸ waiting)
  have running : installed = .RR → ((installed.policy.updateProcessState s task
      (some .readyqueue)).task s.current).state = .ST_RUN := by
    rintro rfl
    obtain ⟨middle, accounts, result⟩ := updateProcessStateRr_eq s task .readyqueue
    show ((s.updateProcessStateRr task (some .readyqueue)).task s.current).state = .ST_RUN
    rw [result]
    show ((middle.setState task _).task s.current).state = .ST_RUN
    rw [State.setState_state, if_neg apart, accounts.state, ← sched.running rfl]
    split <;> rfl
  have back : insert task {s.current} \ {task} = ({s.current} : Set Task) := by
    ext other
    simp only [Set.mem_sdiff, Set.mem_insert_iff, Set.mem_singleton_iff]
    exact ⟨fun member => member.1.resolve_left member.2,
      fun same => ⟨.inr same, fun equal => apart (same.symm.trans equal)⟩⟩
  have current := (updateProcessState_quiet installed s task .readyqueue).current
  refine ⟨?_, fun round => by rw [current]; exact running round⟩
  rw [current, ← back]
  cases installed with
  | RR =>
      obtain ⟨middle, accounts, result⟩ := updateProcessStateRr_eq s task .readyqueue
      have waits : (s.task task).state ≠ .ST_RUN := by simp [fits.2 rfl]
      rw [if_pos waits] at accounts
      show Placed .RR (s.updateProcessStateRr task (some .readyqueue)) _ _
      rw [result]
      exact (removed.accounts accounts).enqueue off (Set.mem_insert _ _) nofun
  | FCFS =>
      have linked : s.links.next (.node task) ≠ none := by
        rw [ne_eq, sched.represents.next_eq_none_iff]
        exact fun outside => outside _ waiting
      have result : Policy.fcfs.updateProcessState s task (some .readyqueue) =
          (s.listDel (.node task)).listAddTail (.node task) .readyqueue := by
        simp only [Policy.fcfs, State.updateProcessStateFcfs, if_pos linked]
        exact if_pos fits.1
      show Placed .FCFS (Policy.fcfs.updateProcessState s task (some .readyqueue)) _ _
      rw [result]
      exact removed.push .readyqueue off fits.1

theorem Sched.unblockProcess (sched : Sched installed s queues) {n : Nat}
    (waiting : task ∈ queues.on (.blocking n)) :
    Settles installed s queues (s.unblockProcess installed.policy task) := by
  have accounts := s.addTicks_accounts task .blockedTicks
  have woken := (sched.accounts accounts).wake waiting (queues.off_remove_self task)
  refine woken.reschedule.after_quiet
    (accounts.quiet.trans (updateProcessState_quiet installed _ task .readyqueue)) ?_
  refine (SameFree.remove fun free => ?_).trans (.push Queue.noConfusion)
  exact Queue.noConfusion (queues.apart free waiting)

/-- The memory after `sys_exit` freed the data pages of the running task. -/
def exitMemory (s : State) : Mm := s.mm.freeData (s.getPT s.current) NUM_PAG_DATA

/-- The slot of the running task becomes free before `sched_next_rr` runs. -/
theorem Sched.sysExit_eq (sched : Sched installed s queues) (process : s.current ≠ s.idleTask) :
    ∃ left, State.Quiet { s with mm := exitMemory s } left ∧
      Placed installed left (queues.push s.current .freequeue sched.current_off) ∅ ∧
      left = State.setTask { (s.listAddTail (.node s.current) .freequeue) with mm := exitMemory s }
        s.current (fun t => { t with PID := -1 }) ∧
      s.sysExit = left.schedNextRr := by
  let freed : State := { s with mm := exitMemory s }
  have start : Placed installed freed queues {s.current} :=
    sched.toPlaced.congr rfl rfl rfl fun _ _ => rfl
  have pushed := start.push .freequeue sched.current_off process
  rw [Set.sdiff_self] at pushed
  refine ⟨(freed.listAddTail (.node s.current) .freequeue).setTask s.current
    fun t => { t with PID := -1 }, ?_, ?_, rfl, rfl⟩
  · refine ⟨rfl, rfl, rfl, rfl, rfl, rfl, fun t => ?_, fun t => ?_⟩ <;>
      by_cases same : t = s.current <;> simp [freed, State.setTask, State.listAddTail, same]
  · refine pushed.congr rfl rfl rfl fun t _ => ?_
    by_cases same : t = s.current <;> simp [State.setTask, same]

theorem Sched.sysExit (sched : Sched installed s queues) (process : s.current ≠ s.idleTask) :
    ∃ later, Sched installed s.sysExit later ∧
      (∀ t, t ∈ later.on .freequeue ↔ t ∈ queues.on .freequeue ∨ t = s.current) ∧
      ∃ middle t, State.Quiet { s with mm := exitMemory s } middle ∧
        t ∉ later.on .freequeue ∧ s.sysExit = middle.taskSwitch t := by
  obtain ⟨left, quiet, placed, _, result⟩ := sched.sysExit_eq process
  have switches := placed.schedNextRr
  obtain ⟨middle, rest, switched⟩ := switches.switched
  have notFree := placed.next_not_free
  have removed := SameFree.remove notFree
  rw [result]
  refine ⟨_, switches.sched, fun t => ?_, middle, _, quiet.trans rest,
    fun member => notFree ((removed _).mp member), switched⟩
  rw [removed t, Queues.mem_push]
  simp

/-- Copying null list pointers over null list pointers changes nothing. -/
theorem copyTaskUnion_links (s : State) {parent child : Task}
    (parentNext : s.links.next (.node parent) = none)
    (parentPrev : s.links.prev (.node parent) = none)
    (childNext : s.links.next (.node child) = none)
    (childPrev : s.links.prev (.node child) = none) :
    (s.copyTaskUnion parent child).links = s.links := by
  simp only [State.copyTaskUnion, parentNext, parentPrev]
  rw [← childNext, Function.update_eq_self, childNext, ← childPrev, Function.update_eq_self]

structure ForkFinishes (s : State) (uchild : Task) (before : State) : Prop where
  result : (s.forkFinish uchild).2 = before.listAddTail (.node uchild) .readyqueue
  links : before.links = s.links
  trace : before.trace = s.trace
  current : before.current = s.current
  idleTask : before.idleTask = s.idleTask
  mm : before.mm = s.mm
  cpu : before.cpu = (s.forkStack uchild).cpu
  saved : before.saved = (s.forkStack uchild).saved
  state : (before.task uchild).state = .ST_READY
  registerEsp : (before.task uchild).registerEsp = ((s.forkStack uchild).task uchild).registerEsp
  dir : (before.task uchild).dirPagesBaseAddr = (s.task uchild).dirPagesBaseAddr
  task : ∀ t, t ≠ uchild → before.task t = s.task t

theorem forkFinish_eq (s : State) (uchild : Task) : ∃ before, ForkFinishes s uchild before := by
  refine ⟨_, rfl, rfl, rfl, rfl, rfl, rfl, rfl, rfl, ?_, ?_, ?_, ?_⟩
  · simp
  · simp [State.setState, State.initStats, State.setStats, State.setTask, State.getTicks,
      State.forkStack]
  · simp [State.setState, State.initStats, State.setStats, State.setTask, State.getTicks,
      State.forkStack]
  · intro t apart
    simp [State.setState, State.initStats, State.setStats, State.setTask, State.getTicks,
      State.forkStack, apart]

/-- The state of `sys_fork` once the child has a copy of its parent's page. -/
def forkCopied (s : State) (child : Task) : State := (s.listDel (.node child)).forkCopy child

def forkMapped (s : State) (child : Task) (mm : Mm) : State :=
  { forkCopied s child with mm := (forkCopied s child).forkMemory mm child }

theorem sysFork_cases (represents : Represents s.links queues) :
    (queues.on .freequeue = [] ∧ s.sysFork = (.error ENOMEM, s)) ∨
      ∃ child rest, queues.on .freequeue = child :: rest ∧
        s.sysFork = (s.listDel (.node child)).forkInto (.node child) := by
  have empty := represents.listEmpty_iff .freequeue
  cases free : queues.on .freequeue with
  | nil =>
      have none := empty.mpr free
      exact .inl ⟨rfl, by simp [State.sysFork, State.listEmpty, none]⟩
  | cons child rest =>
      refine .inr ⟨child, rest, rfl, ?_⟩
      have some : Zeos.listEmpty s.links (.head .freequeue) = false := by
        rw [← Bool.not_eq_true, empty, free]
        exact List.cons_ne_nil _ _
      simp [State.sysFork, State.listEmpty, some, State.listFirst, represents.listFirst _ free]

theorem forkInto_ok {child : Task} {mm : Mm}
    (allocated : (forkCopied s child).mm.allocData ((forkCopied s child).getPT child)
      NUM_PAG_DATA = .ok mm) :
    (s.listDel (.node child)).forkInto (.node child) =
      (forkMapped s child mm).forkFinish child :=
  congrArg ((forkCopied s child).forkAllocated (.node child)) allocated

theorem forkInto_error {child : Task} {mm : Mm} {pag : Nat}
    (refused : (forkCopied s child).mm.allocData ((forkCopied s child).getPT child)
      NUM_PAG_DATA = .error (mm, pag)) :
    (s.listDel (.node child)).forkInto (.node child) =
      (.error EAGAIN, State.listAddTail { forkCopied s child with
        mm := mm.freeData ((forkCopied s child).getPT child) pag } (.node child) .freequeue) :=
  congrArg ((forkCopied s child).forkAllocated (.node child)) refused

/-- The child's slot is off the free queue, and its node holds null pointers. -/
theorem Sched.placed_forkCopied (sched : Sched installed s queues) {child : Task}
    (free : child ∈ queues.on .freequeue) :
    Placed installed (forkCopied s child) (queues.remove child) {child, s.current} := by
  have removed := sched.remove free
  have apart : child ≠ s.current := fun same => sched.current_off _ (same ▸ free)
  have parent := removed.represents.off (removed.offQueues s.current (by simp))
  have own := removed.represents.off (removed.offQueues child (by simp))
  refine removed.congr ?_ rfl rfl fun t outside => ?_
  · exact copyTaskUnion_links (s.listDel (.node child)) parent.1 parent.2 own.1 own.2
  · have notChild : t ≠ child := fun same => outside (by simp [same])
    simp [forkCopied, State.forkCopy, State.copyTaskUnion, State.allocateDIR, State.setTask, notChild,
      State.listDel]

theorem Sched.fork_refused (sched : Sched installed s queues) {child : Task}
    (free : child ∈ queues.on .freequeue) (off : (queues.remove child).Off child) (mm : Mm) :
    Sched installed
      (State.listAddTail { forkCopied s child with mm := mm } (.node child) .freequeue)
      ((queues.remove child).push child .freequeue off) := by
  have apart : s.current ≠ child := fun same => sched.current_off _ (same ▸ free)
  have kept : Placed installed { forkCopied s child with mm := mm } (queues.remove child)
      {child, s.current} := (sched.placed_forkCopied free).congr rfl rfl rfl fun _ _ => rfl
  have pushed := kept.push .freequeue off (sched.fits _ child free)
  have back : ({child, s.current} \ {child} : Set Task) = {s.current} := by simp [apart]
  rw [back] at pushed
  refine ⟨pushed, fun round => ?_⟩
  have running := sched.running round
  simpa [forkCopied, State.forkCopy, State.copyTaskUnion, State.allocateDIR, State.setTask, apart,
    State.listDel, State.listAddTail] using running

theorem Sched.forked (sched : Sched installed s queues) {child : Task}
    (free : child ∈ queues.on .freequeue) (off : (queues.remove child).Off child) (mm : Mm) :
    Sched installed ((forkMapped s child mm).forkFinish child).2
      ((queues.remove child).push child .readyqueue off) := by
  have apart : s.current ≠ child := fun same => sched.current_off _ (same ▸ free)
  obtain ⟨before, finish⟩ := forkFinish_eq (forkMapped s child mm) child
  have copied := sched.placed_forkCopied free
  have kept : Placed installed before (queues.remove child) {child, s.current} := by
    refine copied.congr finish.links finish.trace finish.idleTask fun t outside => ?_
    rw [finish.task t fun equal => outside (by simp [equal])]
    rfl
  have fits : Fits installed before child .readyqueue := by
    cases installed with
    | RR => exact finish.state
    | FCFS =>
        have idle : before.idleTask = s.idleTask := finish.idleTask
        rw [Fits, idle]
        exact sched.fits _ child free
  have pushed := kept.push .readyqueue off fits
  have back : ({child, s.current} \ {child} : Set Task) = {s.current} := by simp [apart]
  have current : before.current = s.current := finish.current
  rw [back, ← current] at pushed
  rw [finish.result]
  refine ⟨pushed, fun round => ?_⟩
  show (before.task before.current).state = .ST_RUN
  have running := sched.running round
  rw [current, finish.task s.current apart]
  simpa [forkMapped, forkCopied, State.forkCopy, State.copyTaskUnion, State.allocateDIR,
    State.setTask, apart, State.listDel] using running

inductive Forks (s : State) (queues later : Queues) (returned : Result × State) : Prop where
  | full (none : queues.on .freequeue = []) (same : later = queues)
      (result : returned = (.error ENOMEM, s))
  | refused {child : Task} {mm : Mm} {pag : Nat} (free : child ∈ queues.on .freequeue)
      (ran : (forkCopied s child).mm.allocData ((forkCopied s child).getPT child)
        NUM_PAG_DATA = .error (mm, pag))
  | forked {child : Task} {mm : Mm} (free : child ∈ queues.on .freequeue)
      (ran : (forkCopied s child).mm.allocData ((forkCopied s child).getPT child)
        NUM_PAG_DATA = .ok mm)
      (slots : ∀ t, t ∈ later.on .freequeue ↔ t ≠ child ∧ t ∈ queues.on .freequeue)
      (result : returned = (forkMapped s child mm).forkFinish child)

/-- Whatever `sys_fork` returns, only the slot it took changes its queue. -/
theorem Sched.sysFork (sched : Sched installed s queues) :
    ∃ later, Sched installed s.sysFork.2 later ∧ Forks s queues later s.sysFork ∧
      (∀ t, queues.Off t → later.Off t) ∧ s.sysFork.2.current = s.current ∧
      s.sysFork.2.idleTask = s.idleTask := by
  rcases sysFork_cases sched.represents with ⟨none, result⟩ | ⟨child, rest, first, result⟩
  · rw [result]
    exact ⟨queues, sched, .full none rfl rfl, fun _ off => off, rfl, rfl⟩
  · have free : child ∈ queues.on .freequeue := Queues.mem_of_first first
    have off := queues.off_remove_self child
    have others : ∀ queue t, queues.Off t → ((queues.remove child).push child queue off).Off t := by
      intro queue t outside
      have apart : t ≠ child := fun same => outside .freequeue (same ▸ free)
      rw [Queues.off_push apart, Queues.off_remove]
      exact .inr outside
    cases allocated : (forkCopied s child).mm.allocData ((forkCopied s child).getPT child)
        NUM_PAG_DATA with
    | error stopped =>
        rw [result, forkInto_error allocated]
        exact ⟨_, sched.fork_refused free off _, .refused free allocated, others _, rfl, rfl⟩
    | ok mm =>
        rw [result, forkInto_ok allocated]
        refine ⟨_, sched.forked free off mm, .forked free allocated (fun t => ?_) rfl, others _,
          rfl, rfl⟩
        rw [Queues.mem_push, Queues.mem_remove]
        simp

end

end Zeos
