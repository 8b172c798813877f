import Zeos.Library.Robin
import Zeos.Schedule.Waiting
import Zeos.Space.Images

/-!
# The scheduler is round robin on lists

Of all that a kernel entry reads and writes, only the order of the queues and the
quanta decide who runs next. Step by step the kernel with its linked lists does what
round robin does on plain lists.
-/

namespace Zeos

open Library

abbrev Turns := Robin Task Nat

abbrev TurnEvent := RobinEvent Task Nat

def Turns.on (turns : Turns) : Queue → List Task
  | .freequeue => turns.free
  | .readyqueue => turns.ready
  | .blocking n => turns.blocked n

/-- What a step means to the scheduler. Without a free slot `sys_fork` does nothing. -/
def State.turnEvents (s : State) : Op → List TurnEvent
  | .fork _ => if s.listEmpty .freequeue then [] else [.fork]
  | .exit _ => [.exit]
  | .yield _ => [.yield]
  | .block _ n => [.block n]
  | .unblock _ task => [.unblock task]
  | .tick _ => [.tick]
  | .charge _ => []
  | .touch _ => []

structure Mirrors (s : State) (turns : Turns) : Prop where
  running : s.current = turns.running
  lists : ∀ queue, s.links.Ring (.head queue) ((turns.on queue).map .node)
  quantum : ∀ t, s.Live t → (s.task t).totalQuantum.toNat = turns.quantum t
  left : s.remainingQuantum.toNat = turns.left

structure Follows (s : State) (queues : Queues) (turns : Turns) : Prop where
  lists : ∀ queue, queues.on queue = turns.on queue
  quantum : ∀ t ∉ queues.on .freequeue, (s.task t).totalQuantum.toNat = turns.quantum t

structure OnLists (s : State) (queues : Queues) (turns : Turns) : Prop extends
    Follows s queues turns where
  sched : Sched .RR s queues
  running : s.current = turns.running
  left : s.remainingQuantum.toNat = turns.left

variable {s middle after : State} {queues later : Queues} {turns next : Turns} {Q : Nat}

theorem Queues.ext {first second : Queues} (same : ∀ queue, first.on queue = second.on queue) :
    first = second := by
  obtain ⟨on, _, _⟩ := first
  obtain ⟨other, _, _⟩ := second
  obtain rfl : on = other := funext same
  rfl

theorem Sched.unique {installed : Installed} {others : Queues} (sched : Sched installed s queues)
    (other : Sched installed s others) : queues = others :=
  Queues.ext (sched.represents.unique other.represents)

theorem OnLists.mirrors (onLists : OnLists s queues turns) : Mirrors s turns where
  running := onLists.running
  lists queue := by
    rw [← onLists.lists queue]
    exact onLists.sched.represents.ring queue
  quantum t live := onLists.quantum t (onLists.sched.live_iff.mp live)
  left := onLists.left

theorem Follows.congr (follows : Follows s queues turns)
    (same : ∀ t, (after.task t).totalQuantum = (s.task t).totalQuantum) :
    Follows after queues turns :=
  ⟨follows.lists, fun t live => by rw [same]; exact follows.quantum t live⟩

/-- A task that is on no queue goes to the end of one. -/
theorem Follows.push (follows : Follows s queues turns) {t : Task} {queue : Queue}
    (off : queues.Off t) (same : ∀ t, (after.task t).totalQuantum = (s.task t).totalQuantum)
    (quantum : next.quantum = turns.quantum)
    (on : ∀ place, next.on place = turns.on place ++ if place = queue then [t] else []) :
    Follows after (queues.push t queue off) next := by
  constructor
  · intro place
    rw [on, ← follows.lists]
    by_cases there : place = queue
    · subst there
      simp [Queues.push]
    · simp [Queues.push, there]
  · intro u live
    rw [same, quantum]
    exact follows.quantum u fun member => live (Queues.mem_push.mpr (.inl member))

section

variable [Image]

theorem Placed.dispatches (placed : Placed .RR middle later ∅)
    (follows : Follows middle later turns) :
    ∃ last, OnLists middle.schedNextRr last (turns.dispatch middle.idleTask) := by
  have switches := placed.schedNextRr
  obtain ⟨total, remaining, current⟩ := middle.schedNextRr_quanta
  have chosen : middle.takeNext.1 = turns.ready.headD middle.idleTask := by
    rw [placed.takeNext.1, Queues.next, follows.lists]
    rfl
  have off : ∀ queue, queue ≠ .readyqueue → later.next middle.idleTask ∉ later.on queue := by
    intro queue apart member
    rcases later.next_cases middle.idleTask with ⟨_, isIdle⟩ | ⟨rest, first⟩
    · have fits := placed.fits queue _ member
      cases queue with
      | freequeue => exact fits isIdle
      | readyqueue => exact apart rfl
      | blocking n => exact fits.1 isIdle
    · exact apart (later.apart member (Queues.mem_of_first first))
  refine ⟨_, ⟨fun queue => ?_, fun t live => ?_⟩, switches.sched, ?_, ?_⟩
  · cases queue with
    | readyqueue =>
        rw [Queues.next_ready, follows.lists]
        rfl
    | freequeue =>
        show (later.on .freequeue).erase _ = _
        rw [List.erase_of_not_mem (off .freequeue Queue.noConfusion), follows.lists]
        rfl
    | blocking n =>
        show (later.on (.blocking n)).erase _ = _
        rw [List.erase_of_not_mem (off (.blocking n) Queue.noConfusion), follows.lists]
        rfl
  · rw [total]
    exact follows.quantum t fun free => live ((SameFree.remove placed.next_not_free t).mpr free)
  · rw [current, chosen]
    rfl
  · have notFree := placed.next_not_free
    rw [← placed.takeNext.1] at notFree
    rw [remaining, follows.quantum _ notFree, chosen]
    rfl

theorem OnLists.exit (onLists : OnLists s queues turns) (process : s.current ≠ s.idleTask) :
    ∃ later, OnLists s.sysExit later (turns.next s.idleTask .exit) := by
  obtain ⟨left, quiet, placed, explicit, result⟩ := onLists.sched.sysExit_eq process
  have idle : left.idleTask = s.idleTask := quiet.idleTask
  rw [result, ← idle]
  refine placed.dispatches (onLists.push onLists.sched.current_off (fun t => ?_) rfl fun place => ?_)
  · rw [explicit]
    exact (State.setTask_preserves _ s.current rfl).task t
  · rw [onLists.running]
    cases place <;> simp [Turns.on]

theorem OnLists.yield (onLists : OnLists s queues turns) (process : s.current ≠ s.idleTask) :
    ∃ later, OnLists s.forceTaskSwitch later (turns.next s.idleTask .yield) := by
  have placed := onLists.sched.enqueueRr .readyqueue onLists.sched.running fun _ => process
  rw [← (updateProcessStateRr_quiet s s.current .readyqueue).idleTask]
  refine placed.dispatches (onLists.push _
    (s.updateProcessStateRr_quanta s.current .readyqueue).total rfl fun place => ?_)
  rw [onLists.running]
  cases place <;> simp [Turns.on]

theorem OnLists.block (onLists : OnLists s queues turns) (process : s.current ≠ s.idleTask)
    (n : Nat) : ∃ later, OnLists (s.blockProcess .rr (.blocking n)) later
      (turns.next s.idleTask (.block n)) := by
  have placed := onLists.sched.enqueueRr (.blocking n) onLists.sched.running process
  have accounts := (s.updateProcessStateRr s.current (some (.blocking n))).addTicks_accounts
    s.current .systemTicks
  have quanta := (s.updateProcessStateRr_quanta s.current (.blocking n)).trans
    (State.addTicks_quanta _ s.current .systemTicks)
  have idle := accounts.idleTask.trans
    (updateProcessStateRr_quiet s s.current (.blocking n)).idleTask
  have result : s.blockProcess .rr (.blocking n) = ((s.updateProcessStateRr s.current
    (some (.blocking n))).addTicks s.current .systemTicks).schedNextRr := by
    simp only [State.blockProcess, Policy.rr]
  rw [result, ← idle]
  refine (placed.accounts accounts).dispatches (onLists.push _ quanta.total rfl fun place => ?_)
  rw [onLists.running]
  cases place with
  | blocking m => by_cases same : m = n <;> simp [Turns.on, same]
  | freequeue => simp [Turns.on]
  | readyqueue => simp [Turns.on]

/-- Some of the quantum is left, so the running task goes on. -/
theorem OnLists.unblock (onLists : OnLists s queues turns) (some : s.remainingQuantum ≠ 0)
    {task : Task} {n : Nat} (waiting : task ∈ queues.on (.blocking n)) :
    ∃ later, OnLists (s.unblockProcess .rr task) later (turns.next s.idleTask (.unblock task)) := by
  have accounts := s.addTicks_accounts task .blockedTicks
  have woken := (onLists.sched.accounts accounts).wake waiting (queues.off_remove_self task)
  have quanta := (s.addTicks_quanta task .blockedTicks).trans
    (State.updateProcessStateRr_quanta _ task .readyqueue)
  have current := (updateProcessStateRr_quiet (s.addTicks task .blockedTicks) task
    .readyqueue).current.trans accounts.current
  have result : s.unblockProcess .rr task =
      ((s.addTicks task .blockedTicks).updateProcessStateRr task (.some .readyqueue)).reschedule .rr :=
    rfl
  have elsewhere : ∀ queue, queue ≠ .blocking n → task ∉ queues.on queue :=
    fun queue apart member => apart (queues.apart member waiting)
  rw [result]
  change Sched .RR ((s.addTicks task .blockedTicks).updateProcessStateRr task (.some .readyqueue)) _
    at woken
  generalize (s.addTicks task .blockedTicks).updateProcessStateRr task (.some .readyqueue) = middle
    at woken quanta current ⊢
  have goesOn : middle.remainingQuantum ≠ 0 := by
    rw [quanta.remaining]
    exact some
  rw [reschedule_notNeeded (needsSchedRr_left goesOn)]
  refine ⟨_, ⟨fun queue => ?_, fun t live => ?_⟩, woken, current.trans onLists.running, ?_⟩
  · have lists := onLists.lists queue
    cases queue with
    | freequeue =>
        have absent : task ∉ turns.free := fun member =>
          elsewhere .freequeue Queue.noConfusion (lists.symm ▸ member)
        simp [Queues.push, Queues.remove, absent, lists, Turns.on, Robin.next]
    | readyqueue =>
        have absent : task ∉ turns.ready := fun member =>
          elsewhere .readyqueue Queue.noConfusion (lists.symm ▸ member)
        simp [Queues.push, Queues.remove, absent, lists, Turns.on, Robin.next]
    | blocking m => simp [Queues.push, Queues.remove, lists, Turns.on, Robin.next]
  · rw [quanta.total]
    refine onLists.quantum t fun free => live (Queues.mem_push.mpr (.inl ?_))
    refine Queues.mem_remove.mpr ⟨?_, free⟩
    rintro rfl
    exact elsewhere .freequeue Queue.noConfusion free
  · rw [quanta.remaining]
    exact onLists.left

/-- A tick counts, renews the quantum of a task that is alone, or ends its turn. -/
theorem OnLists.tick (onLists : OnLists s queues turns) (some : s.remainingQuantum ≠ 0) :
    ∃ later, OnLists (s.clockRoutine .rr) later (turns.next s.idleTask .tick) := by
  have accounts := (s.zeosTicks_accounts (s.zeosTicks + 1)).trans
    (State.quantum_accounts _ (s.remainingQuantum - 1))
  have total : ∀ t, (State.task { s with
      zeosTicks := s.zeosTicks + 1
      remainingQuantum := s.remainingQuantum - 1 } t).totalQuantum = (s.task t).totalQuantum :=
    fun _ => rfl
  have counted : (State.remainingQuantum { s with
      zeosTicks := s.zeosTicks + 1
      remainingQuantum := s.remainingQuantum - 1 }).toNat + 1 = turns.left := by
    rw [← onLists.left]
    show (s.remainingQuantum - 1).toNat + 1 = s.remainingQuantum.toNat
    bv_omega
  have result : s.clockRoutine .rr = State.reschedule .rr { s with
      zeosTicks := s.zeosTicks + 1
      remainingQuantum := s.remainingQuantum - 1 } := rfl
  rw [result]
  have counting := onLists.sched.accounts accounts
  generalize ({ s with
    zeosTicks := s.zeosTicks + 1
    remainingQuantum := s.remainingQuantum - 1 } : State) = middle
    at accounts total counted counting ⊢
  clear result
  have follows := onLists.toFollows.congr total
  have running := accounts.current.trans onLists.running
  have ready : queues.on .readyqueue = turns.ready := onLists.lists .readyqueue
  rw [Robin.next]
  by_cases spent : middle.remainingQuantum = 0
  · have last : ¬ 1 < turns.left := by
      rw [spent] at counted
      simp at counted
      omega
    rw [if_neg last]
    by_cases waiting : turns.ready = []
    · have empty := (counting.represents.listEmpty_iff .readyqueue).mpr (ready.trans waiting)
      have notNeeded : middle.needsSchedRr =
          (false, { middle with remainingQuantum := (middle.task middle.current).totalQuantum }) := by
        rw [State.needsSchedRr, if_neg (by simp [State.listEmpty, empty]), if_pos spent]
      rw [reschedule_notNeeded notNeeded, if_pos (by simp [waiting])]
      refine ⟨queues, ⟨follows.lists, follows.quantum⟩,
        counting.accounts (State.quantum_accounts _ _), running, ?_⟩
      show (middle.task middle.current).totalQuantum.toNat = turns.quantum turns.running
      rw [← running]
      exact follows.quantum _ (counting.current_off _)
    · have notEmpty : middle.listEmpty .readyqueue = false := by
        rw [← Bool.not_eq_true, State.listEmpty, counting.represents.listEmpty_iff, ready]
        exact waiting
      have needed : middle.needsSchedRr = (true, middle) := by
        rw [State.needsSchedRr, if_pos ⟨spent, notEmpty⟩]
      have placed := counting.enqueueRr .readyqueue counting.running fun isFCFS => Installed.noConfusion isFCFS
      have idle := (updateProcessStateRr_quiet middle middle.current .readyqueue).idleTask.trans
        accounts.idleTask
      rw [reschedule_needed needed, ← idle, if_neg (by simp [waiting])]
      refine placed.dispatches (follows.push _
        (middle.updateProcessStateRr_quanta middle.current .readyqueue).total rfl fun place => ?_)
      rw [running]
      cases place <;> simp [Turns.on]
  · have goesOn : 1 < turns.left := by
      have positive : middle.remainingQuantum.toNat ≠ 0 := fun zero =>
        spent (BitVec.eq_of_toNat_eq zero)
      omega
    rw [reschedule_notNeeded (needsSchedRr_left spent), if_pos goesOn]
    exact ⟨queues, ⟨follows.lists, follows.quantum⟩, counting, running, by
      show middle.remainingQuantum.toNat = turns.left - 1
      omega⟩

theorem OnLists.fork {code : Nat → Nat} (onLists : OnLists s queues turns)
    (spaced : Spaced code s queues) (process : s.current ≠ s.idleTask) {child : Task}
    {rest : List Task} (free : turns.free = child :: rest) :
    ∃ later, OnLists s.sysFork.2 later (turns.next s.idleTask .fork) := by
  have sched := onLists.sched
  have slots : queues.on .freequeue = child :: rest := (onLists.lists .freequeue).trans free
  have member : child ∈ queues.on .freequeue := Queues.mem_of_first slots
  have off := queues.off_remove_self child
  have elsewhere : ∀ queue, queue ≠ .freequeue → child ∉ queues.on queue :=
    fun queue apart there => apart (queues.apart there member)
  obtain ⟨mm, _, result⟩ := spaced.fork_first sched process slots
  obtain ⟨remaining, total⟩ := forkFinish_quanta (forkMapped s child mm) child
  have copied := forkCopied_quanta s child
  have current : ((forkMapped s child mm).forkFinish child).2.current = s.current := by
    obtain ⟨before, finish⟩ := forkFinish_eq (forkMapped s child mm) child
    rw [finish.result]
    exact finish.current
  rw [result]
  have after : turns.next s.idleTask .fork =
      { turns with
        free := rest, ready := turns.ready ++ [child]
        quantum := Function.update turns.quantum child (turns.quantum turns.running) } := by
    simp only [Robin.next, free]
  rw [after]
  refine ⟨_, ⟨fun queue => ?_, fun t live => ?_⟩, sched.forked member off mm,
    current.trans onLists.running, ?_⟩
  · have lists := onLists.lists queue
    cases queue with
    | freequeue => simp [Queues.push, Queues.remove, slots, Turns.on]
    | readyqueue =>
        have absent : child ∉ turns.ready := fun there =>
          elsewhere .readyqueue Queue.noConfusion (lists.symm ▸ there)
        simp [Queues.push, Queues.remove, absent, lists, Turns.on]
    | blocking n =>
        have absent : child ∉ turns.blocked n := fun there =>
          elsewhere (.blocking n) Queue.noConfusion (lists.symm ▸ there)
        simp [Queues.push, Queues.remove, absent, lists, Turns.on]
  · rw [total]
    show ((forkCopied s child).task t).totalQuantum.toNat = _
    rw [copied]
    by_cases isChild : t = child
    · subst isChild
      rw [if_pos rfl, onLists.quantum _ (sched.current_off _), onLists.running]
      simp
    · rw [if_neg isChild, onLists.quantum t fun there =>
        live (Queues.mem_push.mpr (.inl (Queues.mem_remove.mpr ⟨isChild, there⟩)))]
      simp [isChild]
  · rw [remaining]
    exact onLists.left

omit [Image] in
theorem OnLists.congr (onLists : OnLists s queues turns) (sched : Sched .RR after queues)
    (same : s.SameQuanta after) (current : after.current = s.current) :
    OnLists after queues turns :=
  ⟨onLists.toFollows.congr same.total, sched, current.trans onLists.running, by
    rw [same.remaining]
    exact onLists.left⟩

theorem OnLists.enter {below above : Nat} (onLists : OnLists s queues turns)
    (site : CallSite below above) : OnLists (s.enter site) queues turns :=
  onLists.congr (onLists.sched.enter site) (enter_quanta s site) rfl

/-- The lists, the quanta and memory are in order. -/
def Scheduled (Q : Nat) (code : Nat → Nat) (idle : Task) (s : State) (turns : Turns) : Prop :=
  ∃ queues, Paced Q s queues ∧ Spaced code s queues ∧ OnLists s queues turns ∧ s.idleTask = idle

variable {code : Nat → Nat} {memory : State} {op : Op}

omit [Image] in
theorem OnLists.empty_iff (onLists : OnLists s queues turns) :
    s.listEmpty .freequeue = true ↔ turns.free = [] := by
  rw [State.listEmpty, onLists.sched.represents.listEmpty_iff, onLists.lists]
  rfl

theorem OnLists.step (start : Turns → Prop) (onLists : OnLists s queues turns)
    (paced : Paced Q s queues) (spaced : Spaced code s queues) (enabled : s.Enabled op) :
    (Robin.robins start s.idleTask).Runs turns (s.turnEvents op) ∧
      ∃ later, OnLists (s.step .rr op) later
        ((Robin.robins start s.idleTask).run turns (s.turnEvents op)) := by
  have process : s.current ≠ s.idleTask → turns.running ≠ s.idleTask := fun process => by
    rw [← onLists.running]
    exact process
  cases op with
  | fork site =>
      have entered : OnLists (s.enterFork site) queues turns :=
        onLists.congr (onLists.sched.enterFork site) ⟨fun _ => rfl, rfl⟩ rfl
      rw [State.turnEvents]
      by_cases empty : s.listEmpty .freequeue = true
      · have none : queues.on .freequeue = [] :=
          (onLists.lists _).trans (onLists.empty_iff.mp empty)
        have full : s.step .rr (.fork site) = s.enterFork site := by
          rcases sysFork_cases entered.sched.represents with ⟨_, result⟩ | ⟨_, _, first, _⟩
          · show (s.enterFork site).sysFork.2 = _
            rw [result]
          · rw [none] at first
            exact absurd first nofun
        rw [if_pos empty, full]
        exact ⟨trivial, queues, entered⟩
      · have some := mt onLists.empty_iff.mpr empty
        obtain ⟨child, rest, free⟩ := List.exists_cons_of_ne_nil some
        rw [if_neg empty]
        exact ⟨⟨⟨process enabled, some⟩, trivial⟩,
          entered.fork (spaced.enterFork site) enabled free⟩
  | exit site => exact ⟨⟨process enabled, trivial⟩, (onLists.enter site).exit enabled⟩
  | yield site => exact ⟨⟨process enabled, trivial⟩, (onLists.enter site).yield enabled⟩
  | block site n => exact ⟨⟨process enabled, trivial⟩, (onLists.enter site).block enabled n⟩
  | unblock site task =>
      obtain ⟨n, waiting⟩ := enabled
      have member := onLists.sched.represents.on_iff.mp waiting
      refine ⟨⟨⟨n, ?_⟩, trivial⟩, (onLists.enter site).unblock paced.remaining member⟩
      rw [onLists.lists] at member
      exact member
  | tick site => exact ⟨⟨trivial, trivial⟩, (onLists.enter site).tick paced.remaining⟩
  | charge v =>
      exact ⟨trivial, queues, onLists.congr (onLists.sched.accounts
        (s.updateStats_accounts s.current v)) (s.updateStats_quanta s.current v) rfl⟩
  | touch page =>
      exact ⟨trivial, queues, onLists.congr (onLists.sched.setMemory _) ⟨fun _ => rfl, rfl⟩ rfl⟩

theorem Scheduled.step (start : Turns → Prop) {idle : Task}
    (scheduled : Scheduled Q code idle s turns) (enabled : s.Enabled op) :
    (Robin.robins start idle).Runs turns (s.turnEvents op) ∧
      Scheduled Q code idle (s.step .rr op)
        ((Robin.robins start idle).run turns (s.turnEvents op)) := by
  obtain ⟨queues, paced, spaced, onLists, rfl⟩ := scheduled
  obtain ⟨goes, later, next⟩ := onLists.step start paced spaced enabled
  obtain ⟨_, _, after, _⟩ := paced.next enabled
  obtain ⟨_, placed, effect⟩ := paced.sched.step enabled
  have memory := spaced.step paced.sched enabled effect
  obtain rfl := next.sched.unique after.sched
  obtain rfl := next.sched.unique placed
  exact ⟨goes, _, after, memory, next, paced.sched.step_idleTask enabled⟩

def State.firstTurns (s : State) : Turns where
  running := 1
  free := [2, 3, 4, 5, 6, 7, 8, 9]
  ready := []
  blocked _ := []
  quantum t := (s.task t).totalQuantum.toNat
  left := s.remainingQuantum.toNat

theorem boot_scheduled (initial : (roundRobin Q memory).initial s) :
    Scheduled Q (codeFrame memory) 0 s s.firstTurns := by
  obtain ⟨quanta, remaining, within, left, rfl⟩ := initial
  have paced := @boot_paced _ Q memory quanta remaining within left
  have spaced := (boot_spaced memory).2
  have current := State.boot_current memory
  have idle := State.boot_idleTask memory
  generalize memory.boot = boot at paced spaced current idle ⊢
  refine ⟨_, paced, ⟨spaced.space, spaced.dirs, spaced.loaded, spaced.coherent⟩,
    ⟨⟨fun queue => ?_, fun _ _ => rfl⟩, paced.sched, current, rfl⟩, idle⟩
  cases queue with
  | freequeue =>
      show Queues.boot.on .freequeue = [2, 3, 4, 5, 6, 7, 8, 9]
      decide
  | readyqueue => rfl
  | blocking n => rfl

/-- Round robin on lists, from the boot with any quanta from 1 to `Q`. -/
def robinsFrom (Q : Nat) (memory : State) : System Turns TurnEvent :=
  Robin.robins (fun turns => ∃ s, (roundRobin Q memory).initial s ∧ turns = s.firstTurns) 0

theorem scheduler_refines (Q : Nat) (memory : State) :
    System.Refines (roundRobin Q memory) (robinsFrom Q memory) State.turnEvents
      (Scheduled Q (codeFrame memory) 0) where
  start s initial := ⟨_, ⟨s, initial, rfl⟩, boot_scheduled initial⟩
  step _ scheduled enabled := scheduled.step _ enabled

def Mm.usedFrames (mm : Mm) : Nat :=
  (List.range' NUM_PAG_KERNEL (TOTAL_PAGES - NUM_PAG_KERNEL)).countP
    fun frame => mm.physMem frame = USED_FRAME

omit [Image] in
theorem Mm.mem_usedFrames (mm : Mm) (frame : Nat) :
    frame ∈ (List.range' NUM_PAG_KERNEL (TOTAL_PAGES - NUM_PAG_KERNEL)).filter
      (fun frame => mm.physMem frame = USED_FRAME) ↔ mm.InUse frame := by
  rw [List.mem_filter, List.mem_range'_1, decide_eq_true_iff, Mm.InUse]
  simp only [NUM_PAG_KERNEL, TOTAL_PAGES]
  constructor
  · rintro ⟨⟨low, high⟩, used⟩
    exact ⟨low, by omega, used⟩
  · rintro ⟨low, high, used⟩
    exact ⟨⟨low, by omega⟩, used⟩

def Queues.processes (queues : Queues) (idle : Task) : List Task :=
  (List.finRange NR_TASKS).filter fun t => t ∉ queues.on .freequeue ∧ t ≠ idle

omit [Image] in
theorem Queues.mem_processes {idle t : Task} :
    t ∈ queues.processes idle ↔ queues.Process idle t := by
  simp [processes, Process, List.mem_finRange]

omit [Image] in
/-- Every slot is free, or a process's, or idle's. -/
theorem Sched.processes_length {installed : Installed} (sched : Sched installed s queues) :
    (queues.processes s.idleTask).length + (queues.on .freequeue).length + 1 = NR_TASKS := by
  have notFree : s.idleTask ∉ queues.on .freequeue := fun free =>
    sched.fits .freequeue _ free rfl
  have rest : ((List.finRange NR_TASKS).filter
      fun t => !decide (t ∉ queues.on .freequeue ∧ t ≠ s.idleTask)).length =
        (s.idleTask :: queues.on .freequeue).length := by
    apply List.Perm.length_eq
    rw [List.perm_ext_iff_of_nodup ((List.nodup_finRange NR_TASKS).filter _)
      (List.nodup_cons.mpr ⟨notFree, queues.nodup .freequeue⟩)]
    intro t
    simp only [List.mem_filter, List.mem_finRange, true_and, Bool.not_eq_true', decide_eq_false_iff_not,
      List.mem_cons]
    tauto
  have all := List.length_eq_length_filter_add (l := List.finRange NR_TASKS)
    fun t => decide (t ∉ queues.on .freequeue ∧ t ≠ s.idleTask)
  rw [rest, List.length_finRange, List.length_cons] at all
  exact (Nat.add_assoc _ _ _).trans all.symm

theorem Spaced.usedFrames (spaced : Spaced code s queues) :
    s.mm.usedFrames = NUM_PAG_CODE + NUM_PAG_DATA * (queues.processes s.idleTask).length := by
  let owners : List Owner := (List.range NUM_PAG_CODE).map .code ++
    (queues.processes s.idleTask).flatMap fun t => (List.range NUM_PAG_DATA).map (.data t)
  have all : ∀ owner, owner ∈ owners ↔
      ∃ frame, s.mm.Owns code (queues.Process s.idleTask) owner frame := by
    intro owner
    cases owner with
    | code pag => simp [owners, Mm.Owns]
    | data t pag => simp [owners, Mm.Owns, Queues.mem_processes]
  have nodup : owners.Nodup := by
    refine List.Nodup.append (List.nodup_range.map fun _ _ => Owner.code.inj) ?_ ?_
    · refine List.nodup_flatMap.mpr ⟨fun t _ => List.nodup_range.map fun _ _ same =>
        (Owner.data.inj same).2, ?_⟩
      refine ((List.nodup_finRange NR_TASKS).filter _).imp fun {t u} apart => ?_
      intro owner first second
      obtain ⟨_, _, rfl⟩ := List.mem_map.mp first
      obtain ⟨_, _, same⟩ := List.mem_map.mp second
      exact apart (Owner.data.inj same).1.symm
    · intro owner first second
      obtain ⟨_, _, rfl⟩ := List.mem_map.mp first
      simp at second
  have same := spaced.space.pool.accounted.length_eq ((List.nodup_range' 1).filter _)
    s.mm.mem_usedFrames nodup all spaced.space.pool.single
  rw [Mm.usedFrames, List.countP_eq_length_filter, same]
  simp [owners, Nat.mul_comm]

/-- What a kernel is like after so many forks and exits. -/
structure RunsAsRobin (s : State) (events : List TurnEvent) (turns : Turns) : Prop where
  mirrors : Mirrors s turns
  slots : turns.free.length + events.count .fork = 8 + events.count .exit
  frames : s.mm.usedFrames + NUM_PAG_DATA * events.count .exit =
    NUM_PAG_CODE + NUM_PAG_DATA * (1 + events.count .fork)
  full : ∀ site, s.Enabled (.fork site) → turns.free = [] →
    (s.enterFork site).sysFork.1 = .error ENOMEM
  forks : ∀ site, s.Enabled (.fork site) → turns.free ≠ [] →
    ∃ pid, (s.enterFork site).sysFork.1 = .ok pid

theorem Scheduled.runsAsRobin {idle : Task} {events : List TurnEvent}
    (scheduled : Scheduled Q code idle s turns)
    (slots : turns.free.length + events.count .fork = 8 + events.count .exit) :
    RunsAsRobin s events turns := by
  obtain ⟨queues, paced, spaced, onLists, rfl⟩ := scheduled
  have used := spaced.usedFrames
  have population := paced.sched.processes_length
  have free : queues.on .freequeue = turns.free := onLists.lists .freequeue
  rw [free] at population
  refine ⟨onLists.mirrors, slots, ?_, fun site process none => ?_, fun site process some => ?_⟩
  · simp only [NUM_PAG_CODE, NUM_PAG_DATA, NR_TASKS] at used population ⊢
    omega
  · rcases sysFork_cases (onLists.sched.enterFork site).represents with
      ⟨_, result⟩ | ⟨child, rest, first, _⟩
    · rw [result]
    · rw [free, none] at first
      exact absurd first nofun
  · obtain ⟨child, rest, first⟩ := List.exists_cons_of_ne_nil some
    obtain ⟨mm, _, result⟩ := (spaced.enterFork site).fork_first (onLists.sched.enterFork site)
      process (free.trans first)
    rw [result, forkFinish_ok]
    exact ⟨_, rfl⟩

/-- In any run under round robin the kernel's queues are the lists that plain round robin
keeps, the same task runs and has the same ticks left, a slot and twenty frames are in use
for each process that was forked and has not exited, and a fork fails only when all slots
are taken. -/
theorem scheduler_is_roundRobin {ops : List Op} (initial : (roundRobin Q memory).initial s)
    (runs : (roundRobin Q memory).Runs s ops) :
    (robinsFrom Q memory).Runs s.firstTurns ((roundRobin Q memory).told State.turnEvents s ops) ∧
      RunsAsRobin ((roundRobin Q memory).run s ops)
        ((roundRobin Q memory).told State.turnEvents s ops)
        ((robinsFrom Q memory).run s.firstTurns
          ((roundRobin Q memory).told State.turnEvents s ops)) := by
  obtain ⟨goes, scheduled⟩ :=
    (scheduler_refines Q memory).run (boot_scheduled initial) runs
  exact ⟨goes, scheduled.runsAsRobin (Robin.run_free_length goes)⟩

end

def forksAndTicks : List Op := [.fork ForkSite.top, .tick SwitchSite.top]

theorem scheduler_is_roundRobin_forksAndTicks :
    @RunsAsRobin Image.sample
      ((@roundRobin Image.sample 7 State.blank).run sampleTurns forksAndTicks)
      ((@roundRobin Image.sample 7 State.blank).told State.turnEvents sampleTurns forksAndTicks)
      ((@robinsFrom Image.sample 7 State.blank).run sampleTurns.firstTurns
        ((@roundRobin Image.sample 7 State.blank).told State.turnEvents sampleTurns
          forksAndTicks)) := by
  have within : Within 7 7 := by decide
  have left : Within 7 5 := by decide
  have process : sampleTurns.current ≠ sampleTurns.idleTask := by decide
  exact (@scheduler_is_roundRobin sampleTurns 7 Image.sample State.blank forksAndTicks
    ⟨fun _ => 7, 5, fun _ => within, left, rfl⟩ ⟨process, trivial, trivial⟩).2

end Zeos
