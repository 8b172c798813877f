import Zeos.Identity.Answers

/-!
# A PID names one process

Numbers are given out once and never come back, as long as `global_PID` counts on.
So `sys_get_stats`, which looks at every slot and at no queue, finds the one live
task it is asked for.
-/

namespace Zeos

open Library

/-- What may happen next: a kernel entry, a question about a PID, or another policy. -/
inductive Request where
  | entry (op : Op)
  | getStats (pid st : DWord)
  | setSchedPolicy (policy : DWord)

/-- The kernel, with the PIDs it gave out and those whose process has exited. -/
structure Registry where
  installed : Installed
  state : State
  given : List DWord
  exited : List DWord

/-- PIDs are distinct and no `int` below zero; free slots have PID -1. -/
structure Identified (s : State) : Prop where
  number : ∀ t, s.Live t → 0 ≤ (s.task t).PID.toInt
  distinct : ∀ t u, s.Live t → s.Live u → (s.task t).PID = (s.task u).PID → t = u
  free : ∀ t, s.OnQueue t .freequeue → (s.task t).PID = -1

def CountsUp (r : Registry) : Prop := 0 ≤ r.state.globalPID.toInt

instance (r : Registry) : Decidable (CountsUp r) := inferInstanceAs (Decidable (_ ≤ _))

section

variable [Image]

def Registry.boot (installed : Installed) (memory : State) : Registry :=
  ⟨installed, memory.boot, [0, 1], []⟩

/-- The kernel from boot. Where the copy of a question faults there is no next state. The
history of list operations is that of the policy in force. -/
def registries (installed : Installed) (memory : State) : System Registry Request where
  initial r := r = .boot installed memory
  enabled r
    | .entry op => r.state.Enabled op
    | .getStats pid st => r.state.current ≠ r.state.idleTask ∧
        (r.state.sysGetStats pid st).2.mm.fault = false
    | .setSchedPolicy _ => r.state.current ≠ r.state.idleTask
  next r
    | .entry op =>
        { r with
          state := r.state.step r.installed.policy op
          given := (r.state.born op).toList ++ r.given
          exited := (r.state.gone op).toList ++ r.exited }
    | .getStats pid st => { r with state := (r.state.sysGetStats pid st).2 }
    | .setSchedPolicy policy =>
        { r with
          installed := (sysSetSchedPolicy r.installed policy).2
          state := { r.state with trace := [] } }

/-- The tasks are as the policy would have left them: round robin goes by the state of a task
where the other goes by its links, and it queues idle. -/
def State.Suits (s : State) : Installed → Prop
  | .RR => (s.task s.current).state = .ST_RUN ∧
      ∀ t, (s.OnQueue t .readyqueue → (s.task t).state = .ST_READY) ∧
        ∀ n, s.OnQueue t (.blocking n) → (s.task t).state = .ST_BLOCKED
  | .FCFS => ¬ s.OnQueue s.idleTask .readyqueue

/-- The policy changes, if at all, to one that suits. -/
def ChangesSuitably (r : Registry) : Request → Prop
  | .setSchedPolicy policy =>
      (sysSetSchedPolicy r.installed policy).2 = r.installed ∨
        r.state.Suits (sysSetSchedPolicy r.installed policy).2
  | _ => True

/-- What `sys_get_stats` promises. -/
structure AnswersStats (r : Registry) (pid st : DWord) : Prop where
  zero : r.state.StatsReturn pid st (.ok 0) ↔ ∃ t, (r.state.Live t ∧ (r.state.task t).PID = pid) ∧
    ∀ u, r.state.Live u ∧ (r.state.task u).PID = pid → u = t
  receives : ∀ t, r.state.Live t → (r.state.task t).PID = pid → ∀ index < SIZEOF_STATS,
    (r.state.sysGetStats pid st).2.userByte (offset st index) =
      some (byteOfWords (r.state.reported t).words index)
  missing : pid ∉ r.given ∨ pid ∈ r.exited → r.state.StatsReturn pid st (.error ESRCH)

/-- The tasks off the free queue hold one number each, out of those in use. -/
structure Numbered (r : Registry) (queues : Queues) : Prop where
  counter : CountsUp r
  bounded : ∀ pid ∈ r.given, pid.toNat ≤ r.state.globalPID.toNat
  live : ∀ t ∉ queues.on .freequeue,
    (r.state.task t).PID ∈ r.given ∧ (r.state.task t).PID ∉ r.exited
  distinct : ∀ t ∉ queues.on .freequeue, ∀ u ∉ queues.on .freequeue,
    (r.state.task t).PID = (r.state.task u).PID → t = u
  free : ∀ t ∈ queues.on .freequeue, (r.state.task t).PID = -1
  exited : r.exited ⊆ r.given

def Registered (memory : State) (r : Registry) : Prop :=
  ∃ queues, Sched r.installed r.state queues ∧ Spaced (codeFrame memory) r.state queues ∧
    Numbered r queues

variable {installed : Installed} {memory after : State} {queues later : Queues} {op : Op}
  {r : Registry} {pid st : DWord}

omit [Image] in
theorem CountsUp.lt (counts : CountsUp r) : r.state.globalPID.toNat < 2 ^ 31 := by
  rw [CountsUp, BitVec.toInt_eq_toNat_cond] at counts
  split at counts <;> omega

omit [Image] in
theorem Numbered.number (numbered : Numbered r queues) {t : Task}
    (notFree : t ∉ queues.on .freequeue) : 0 ≤ (r.state.task t).PID.toInt := by
  have bound := numbered.bounded _ (numbered.live t notFree).1
  have counter := numbered.counter.lt
  rw [BitVec.toInt_eq_toNat_cond, if_pos (by omega)]
  exact Int.natCast_nonneg _

omit [Image] in
theorem Numbered.congr (numbered : Numbered r queues)
    (same : State.Preserves TaskStruct.PID r.state after) (slots : SameFree queues later) :
    Numbered { r with state := after } later where
  counter := by
    show 0 ≤ after.globalPID.toInt
    rw [same.globalPID]
    exact numbered.counter
  bounded pid given := by
    show pid.toNat ≤ after.globalPID.toNat
    rw [same.globalPID]
    exact numbered.bounded pid given
  live t notFree := by
    show (after.task t).PID ∈ r.given ∧ (after.task t).PID ∉ r.exited
    rw [same.task]
    exact numbered.live t fun free => notFree ((slots t).mpr free)
  distinct t first u second pids := by
    rw [same.task, same.task] at pids
    exact numbered.distinct t (fun free => first ((slots t).mpr free)) u
      (fun free => second ((slots u).mpr free)) pids
  free t free := (same.task t).trans (numbered.free t ((slots t).mp free))
  exited := numbered.exited

omit [Image] in
theorem Numbered.birth (numbered : Numbered r queues) {child : Task}
    (slots : ∀ t, t ∈ later.on .freequeue ↔ t ≠ child ∧ t ∈ queues.on .freequeue)
    (pid : (after.task child).PID = after.globalPID)
    (others : ∀ t, t ≠ child → (after.task t).PID = (r.state.task t).PID)
    (counter : after.globalPID = r.state.globalPID + 1) (counts : 0 ≤ after.globalPID.toInt) :
    Numbered ⟨r.installed, after, after.globalPID :: r.given, r.exited⟩ later := by
  have old := numbered.counter.lt
  have next : after.globalPID.toNat = r.state.globalPID.toNat + 1 := by
    have one : (1 : DWord).toNat = 1 := rfl
    rw [counter, BitVec.toNat_add, one]
    omega
  have fresh : after.globalPID ∉ r.given := by
    intro given
    have bound := numbered.bounded _ given
    omega
  have stays : ∀ t, t ≠ child → t ∉ later.on .freequeue → t ∉ queues.on .freequeue :=
    fun t apart notFree free => notFree ((slots t).mpr ⟨apart, free⟩)
  have kept : ∀ t, t ≠ child → t ∉ later.on .freequeue →
      (after.task t).PID ∈ r.given ∧ (after.task t).PID ∉ r.exited := by
    intro t apart notFree
    rw [others t apart]
    exact numbered.live t (stays t apart notFree)
  constructor
  · exact counts
  · intro number given
    show number.toNat ≤ after.globalPID.toNat
    rcases List.mem_cons.mp given with rfl | earlier
    · exact Nat.le_refl _
    · have bound := numbered.bounded number earlier
      omega
  · intro t notFree
    by_cases isChild : t = child
    · subst isChild
      show (after.task t).PID ∈ _ ∧ (after.task t).PID ∉ _
      rw [pid]
      exact ⟨List.mem_cons_self, fun exited => fresh (numbered.exited exited)⟩
    · obtain ⟨given, notExited⟩ := kept t isChild notFree
      exact ⟨List.mem_cons_of_mem _ given, notExited⟩
  · intro t first u second same
    by_cases tChild : t = child
    · by_cases uChild : u = child
      · rw [tChild, uChild]
      · have earlier := (kept u uChild second).1
        rw [← same, tChild, pid] at earlier
        exact absurd earlier fresh
    · by_cases uChild : u = child
      · have earlier := (kept t tChild first).1
        rw [same, uChild, pid] at earlier
        exact absurd earlier fresh
      · rw [others t tChild, others u uChild] at same
        exact numbered.distinct t (stays t tChild first) u (stays u uChild second) same
  · intro t free
    obtain ⟨apart, before⟩ := (slots t).mp free
    exact (others t apart).trans (numbered.free t before)
  · exact fun number exited => List.mem_cons_of_mem _ (numbered.exited exited)

omit [Image] in
theorem Numbered.death (numbered : Numbered r queues) {t : Task}
    (live : t ∉ queues.on .freequeue)
    (slots : ∀ u, u ∈ later.on .freequeue ↔ u ∈ queues.on .freequeue ∨ u = t)
    (pid : (after.task t).PID = -1)
    (others : ∀ u, u ≠ t → (after.task u).PID = (r.state.task u).PID)
    (counter : after.globalPID = r.state.globalPID) :
    Numbered ⟨r.installed, after, r.given, (r.state.task t).PID :: r.exited⟩ later := by
  have stays : ∀ u ∉ later.on .freequeue, u ≠ t ∧ u ∉ queues.on .freequeue := fun u notFree =>
    ⟨fun same => notFree ((slots u).mpr (.inr same)), fun free => notFree ((slots u).mpr (.inl free))⟩
  constructor
  · show 0 ≤ after.globalPID.toInt
    rw [counter]
    exact numbered.counter
  · intro number given
    show number.toNat ≤ after.globalPID.toNat
    rw [counter]
    exact numbered.bounded number given
  · intro u notFree
    obtain ⟨apart, before⟩ := stays u notFree
    obtain ⟨given, notExited⟩ := numbered.live u before
    show (after.task u).PID ∈ _ ∧ (after.task u).PID ∉ _
    rw [others u apart]
    refine ⟨given, fun exited => ?_⟩
    rcases List.mem_cons.mp exited with same | earlier
    · exact apart (numbered.distinct u before t live same)
    · exact notExited earlier
  · intro u first v second same
    obtain ⟨uApart, uBefore⟩ := stays u first
    obtain ⟨vApart, vBefore⟩ := stays v second
    rw [others u uApart, others v vApart] at same
    exact numbered.distinct u uBefore v vBefore same
  · intro u free
    by_cases same : u = t
    · rw [same]
      exact pid
    · exact (others u same).trans (numbered.free u (((slots u).mp free).resolve_right same))
  · intro number exited
    rcases List.mem_cons.mp exited with rfl | earlier
    · exact (numbered.live t live).1
    · exact numbered.exited earlier

namespace State

omit [Image] in
theorem freeSlot_pid (s : State) (i t : Task) :
    ((s.freeSlot i).task t).PID = if t = i then -1 else (s.task t).PID := by
  show ((s.setTask i fun t => { t with PID := -1 }).task t).PID = _
  rw [setTask_task]
  split <;> rfl

omit [Image] in
theorem foldl_freeSlot_pids (tasks : List Task) (s : State) :
    (tasks.foldl freeSlot s).globalPID = s.globalPID ∧
      ∀ t, (t ∈ tasks ∨ (s.task t).PID = -1) → ((tasks.foldl freeSlot s).task t).PID = -1 := by
  induction tasks generalizing s with
  | nil => exact ⟨rfl, fun t free => free.resolve_left List.not_mem_nil⟩
  | cons i rest inductionHypothesis =>
      obtain ⟨counter, pids⟩ := inductionHypothesis (s.freeSlot i)
      refine ⟨counter, fun t free => pids t ?_⟩
      rw [freeSlot_pid]
      by_cases first : t = i
      · exact .inr (if_pos first)
      · rw [if_neg first]
        exact free.imp_left fun member => (List.mem_cons.mp member).resolve_left first

theorem prepare_pids (s : State) :
    s.prepare.globalPID = 1000 ∧ ∀ t, (s.prepare.task t).PID = -1 := by
  obtain ⟨counter, pids⟩ :=
    foldl_freeSlot_pids (List.finRange NR_TASKS) (s.load.initMm.initListHead .freequeue)
  exact ⟨counter, fun t => pids t (.inl (List.mem_finRange t))⟩

theorem idleInto_pids (s : State) (c : Task) : (s.idleInto c).globalPID = s.globalPID ∧
    ∀ t, ((s.idleInto c).task t).PID = if t = c then 0 else (s.task t).PID := by
  refine ⟨rfl, fun t => ?_⟩
  by_cases same : t = c
  · simp [idleInto, initStats, setStats, allocateDIR, getTicks, setTask, same]
  · simp [idleInto, initStats, setStats, allocateDIR, getTicks, setTask, same]

theorem task1Into_pids (s : State) (c : Task) : (s.task1Into c).globalPID = s.globalPID ∧
    ∀ t, ((s.task1Into c).task t).PID = if t = c then 1 else (s.task t).PID := by
  refine ⟨rfl, fun t => ?_⟩
  by_cases same : t = c
  · simp [task1Into, initStats, setStats, allocateDIR, getTicks, setTask, setCr3, same]
  · simp [task1Into, initStats, setStats, allocateDIR, getTicks, setTask, setCr3, same]

theorem boot_pids (s : State) : s.boot.globalPID = 1000 ∧
    ∀ t, (s.boot.task t).PID = if t = 1 then 1 else if t = 0 then 0 else -1 := by
  obtain ⟨counter, pids⟩ := s.prepare_pids
  rw [boot_eq]
  generalize s.prepare = start at counter pids ⊢
  obtain ⟨idleCounter, idlePids⟩ := (start.listDel (.node 0)).idleInto_pids 0
  obtain ⟨firstCounter, firstPids⟩ :=
    (((start.listDel (.node 0)).idleInto 0).listDel (.node 1)).task1Into_pids 1
  refine ⟨firstCounter.trans (idleCounter.trans counter), fun t => (firstPids t).trans ?_⟩
  have idle : ((((start.listDel (.node 0)).idleInto 0).listDel (.node 1)).task t).PID =
      if t = 0 then 0 else -1 := (idlePids t).trans (by
    rw [← pids t]
    rfl)
  rw [idle]

end State

theorem boot_numbered (installed : Installed) (memory : State) :
    Numbered (.boot installed memory) Queues.boot := by
  obtain ⟨counter, pids⟩ := memory.boot_pids
  have live : ∀ t ∉ Queues.boot.on .freequeue, t = 0 ∨ t = 1 := by
    intro t notFree
    by_contra neither
    exact notFree (Queues.mem_boot.mpr ⟨rfl, not_or.mp neither⟩)
  constructor
  · show 0 ≤ memory.boot.globalPID.toInt
    rw [counter]
    decide
  · intro pid given
    show pid.toNat ≤ memory.boot.globalPID.toNat
    rw [counter]
    rcases List.mem_cons.mp given with rfl | one
    · decide
    · rw [List.mem_singleton.mp one]
      decide
  · intro t notFree
    refine ⟨?_, List.not_mem_nil⟩
    show (memory.boot.task t).PID ∈ [0, 1]
    rw [pids]
    rcases live t notFree with rfl | rfl
    · exact List.mem_cons_self
    · exact List.mem_cons_of_mem _ List.mem_cons_self
  · intro t first u second same
    change (memory.boot.task t).PID = (memory.boot.task u).PID at same
    rw [pids, pids] at same
    rcases live t first with rfl | rfl <;> rcases live u second with rfl | rfl
    · rfl
    · exact absurd same (by decide)
    · exact absurd same (by decide)
    · rfl
  · intro t free
    obtain ⟨_, notIdle, notFirst⟩ := Queues.mem_boot.mp free
    show (memory.boot.task t).PID = -1
    rw [pids, if_neg notFirst, if_neg notIdle]
  · exact List.nil_subset _

theorem Registered.step (registered : Registered memory r) (enabled : r.state.Enabled op)
    (counts : 0 ≤ (r.state.step r.installed.policy op).globalPID.toInt) :
    Registered memory ⟨r.installed, r.state.step r.installed.policy op,
      (r.state.born op).toList ++ r.given, (r.state.gone op).toList ++ r.exited⟩ := by
  obtain ⟨queues, sched, spaced, numbered⟩ := registered
  obtain ⟨later, after, effect⟩ := sched.step enabled
  refine ⟨later, after, spaced.step sched enabled effect, ?_⟩
  cases spaced.numbers sched enabled effect with
  | same slots pids born gone =>
      rw [born, gone]
      exact numbered.congr pids slots
  | birth free slots pid others counter born gone =>
      rw [born, gone]
      exact numbered.birth slots pid others counter counts
  | death slots pid others counter born gone =>
      rw [born, gone]
      exact numbered.death (sched.current_off .freequeue) slots pid others counter

theorem Registered.getStats (registered : Registered memory r)
    (returned : (r.state.sysGetStats pid st).2.mm.fault = false) :
    Registered memory { r with state := (r.state.sysGetStats pid st).2 } := by
  obtain ⟨queues, sched, spaced, numbered⟩ := registered
  rcases sysGetStats_slot r.state pid st with same | ⟨t, result⟩
  · rw [same]
    exact ⟨queues, sched, spaced, numbered⟩
  · rw [result] at returned ⊢
    rw [statsAnswered_mm] at returned
    exact ⟨queues, sched.statsAnswered t st, spaced.statsAnswered t st returned,
      numbered.congr (statsAnswered_preserves r.state t st) fun _ => .rfl⟩

omit [Image] in
/-- Another policy goes on with what suits it. -/
theorem Sched.reinstall {s : State} {other : Installed} (sched : Sched installed s queues)
    (suits : other = installed ∨ s.Suits other) : Sched other { s with trace := [] } queues := by
  have proper : ∀ event ∈ ([] : List Event), event.Proper := fun _ member => nomatch member
  rcases suits with rfl | suits
  · exact ⟨⟨sched.represents, sched.offQueues, sched.covered, sched.fits, fun _ => proper⟩,
      sched.running⟩
  · have ready : ∀ t ∈ queues.on .readyqueue, s.OnQueue t .readyqueue :=
      fun t member => sched.represents.on_iff.mpr member
    refine ⟨⟨sched.represents, sched.offQueues, sched.covered, fun queue t member => ?_,
      fun _ => proper⟩, fun round => ?_⟩
    · have fits := sched.fits queue t member
      cases queue with
      | freequeue => exact fits
      | readyqueue =>
          cases other with
          | RR => exact (suits.2 t).1 (ready t member)
          | FCFS =>
              rintro rfl
              exact suits (ready _ member)
      | blocking n =>
          refine ⟨fits.1, fun round => ?_⟩
          subst round
          exact (suits.2 t).2 n (sched.represents.on_iff.mpr member)
    · subst round
      exact suits.1

theorem Registered.setSchedPolicy (registered : Registered memory r) (policy : DWord)
    (suitably : ChangesSuitably r (.setSchedPolicy policy)) :
    Registered memory { r with
      installed := (sysSetSchedPolicy r.installed policy).2
      state := { r.state with trace := [] } } := by
  obtain ⟨queues, sched, spaced, numbered⟩ := registered
  exact ⟨queues, sched.reinstall suitably,
    ⟨spaced.space, spaced.dirs, spaced.loaded, spaced.coherent⟩, ⟨numbered.counter,
      numbered.bounded, numbered.live, numbered.distinct, numbered.free, numbered.exited⟩⟩

theorem boot_registered (installed : Installed) (memory : State) :
    Registered memory (.boot installed memory) :=
  ⟨_, boot_sched installed memory, (boot_spaced memory).2, boot_numbered installed memory⟩

theorem registered_of_runs {requests : List Request}
    (runs : (registries installed memory).Runs (.boot installed memory) requests)
    (counts : (registries installed memory).Always CountsUp (.boot installed memory) requests)
    (suitably : (registries installed memory).Each ChangesSuitably (.boot installed memory)
      requests) :
    Registered memory ((registries installed memory).run (.boot installed memory) requests) := by
  refine counts.holds_final_of_each ?_ suitably runs (boot_registered installed memory)
  intro r request registered enabled allowed next
  cases request with
  | entry op => exact registered.step enabled next
  | getStats pid st => exact registered.getStats enabled.2
  | setSchedPolicy policy => exact registered.setSchedPolicy policy allowed

theorem Registered.identified (registered : Registered memory r) : Identified r.state := by
  obtain ⟨queues, sched, _, numbered⟩ := registered
  exact ⟨fun t live => numbered.number (sched.live_iff.mp live),
    fun t u first second => numbered.distinct t (sched.live_iff.mp first) u (sched.live_iff.mp second),
    fun t free => numbered.free t (sched.represents.on_iff.mp free)⟩

def State.Unnamed (s : State) (pid : DWord) : Prop := ∀ t, s.Live t → (s.task t).PID ≠ pid

section

omit [Image]

variable {s : State} (identified : Identified s) (number : 0 ≤ pid.toInt)

include identified number

theorem Identified.live_of_pid {t : Task} (named : (s.task t).PID = pid) : s.Live t := by
  intro free
  rw [identified.free t free] at named
  rw [← named] at number
  exact absurd number (by decide)

theorem Identified.unique {t : Task} (live : s.Live t) (named : (s.task t).PID = pid) :
    ∀ u, (s.task u).PID = pid → u = t := fun u same =>
  identified.distinct u t (identified.live_of_pid number same) live (same.trans named.symm)

end

theorem Registered.answers_found (registered : Registered memory r)
    (process : r.state.current ≠ r.state.idleTask) (number : 0 ≤ pid.toInt)
    (inUser : InUserPages st) {t : Task} (live : r.state.Live t)
    (named : (r.state.task t).PID = pid) : AnswersStats r pid st := by
  have unique := registered.identified.unique number live named
  obtain ⟨queues, sched, spaced, numbered⟩ := registered
  have current : queues.Process r.state.idleTask r.state.current :=
    ⟨sched.current_off .freequeue, process⟩
  have result := sysGetStats_found inUser.accessOk number named unique
  have returned := (spaced.statsCopied_fault current inUser.accessOk t).mpr inUser
  constructor
  · refine iff_of_true ?_ ⟨t, ⟨live, named⟩, fun u found => unique u found.2⟩
    rw [State.StatsReturn, result, statsAnswered_mm]
    exact ⟨rfl, returned⟩
  · intro u found same index bound
    rw [unique u same, result]
    exact spaced.statsAnswered_bytes current inUser t bound
  · intro missing
    obtain ⟨given, notExited⟩ := numbered.live t (sched.live_iff.mp live)
    rw [named] at given notExited
    exact absurd missing (not_or.mpr ⟨not_not.mpr given, notExited⟩)

theorem Registered.answers_unknown (registered : Registered memory r)
    (number : 0 ≤ pid.toInt) (accepted : Accepted st) (unnamed : r.state.Unnamed pid) :
    AnswersStats r pid st := by
  have identified := registered.identified
  obtain ⟨_, _, spaced, _⟩ := registered
  have none : ∀ t, (r.state.task t).PID ≠ pid := fun t same =>
    unnamed t (identified.live_of_pid number same) same
  have result := sysGetStats_unknown accepted number none
  have answer : r.state.StatsReturn pid st (.error ESRCH) := by
    rw [State.StatsReturn, result]
    exact ⟨rfl, spaced.space.fault⟩
  refine ⟨iff_of_false ?_ ?_, fun t _ same => absurd same (none t), fun _ => answer⟩
  · intro zero
    have answers := zero.1.symm.trans answer.1
    exact absurd answers nofun
  · rintro ⟨t, ⟨_, same⟩, _⟩
    exact none t same

theorem Registered.inUserPages (registered : Registered memory r)
    (process : r.state.current ≠ r.state.idleTask) (number : 0 ≤ pid.toInt)
    (accepted : Accepted st) (answers : AnswersStats r pid st) {t : Task} (live : r.state.Live t)
    (named : (r.state.task t).PID = pid) : InUserPages st := by
  have unique := registered.identified.unique number live named
  obtain ⟨_, sched, spaced, _⟩ := registered
  obtain ⟨_, returned⟩ := answers.zero.mpr ⟨t, ⟨live, named⟩, fun u found => unique u found.2⟩
  rw [sysGetStats_found accepted number named unique, statsAnswered_mm] at returned
  exact (spaced.statsCopied_fault ⟨sched.current_off .freequeue, process⟩ accepted t).mp returned

/-- In every state of every run in which the policy changes suitably, PIDs identify the live
tasks. There `sys_get_stats` answers as promised exactly when nobody is asked about, or the
structure is in the user pages. -/
theorem identified_and_answers_iff {requests : List Request}
    (runs : (registries installed memory).Runs (.boot installed memory) requests)
    (counts : (registries installed memory).Always CountsUp (.boot installed memory) requests)
    (suitably : (registries installed memory).Each ChangesSuitably (.boot installed memory)
      requests) :
    let r := (registries installed memory).run (.boot installed memory) requests
    Identified r.state ∧ (r.state.current ≠ r.state.idleTask → ∀ pid st, 0 ≤ pid.toInt →
      Accepted st → (AnswersStats r pid st ↔ InUserPages st ∨ r.state.Unnamed pid)) := by
  have registered := registered_of_runs runs counts suitably
  intro r
  change Registered memory r at registered
  refine ⟨registered.identified, fun process pid st number accepted => ?_⟩
  by_cases unnamed : r.state.Unnamed pid
  · exact iff_of_true (registered.answers_unknown number accepted unnamed) (.inr unnamed)
  · obtain ⟨t, live, named⟩ : ∃ t, r.state.Live t ∧ (r.state.task t).PID = pid := by
      simpa only [State.Unnamed, not_forall, not_not, exists_prop] using unnamed
    constructor
    · exact fun answers => .inl (registered.inUserPages process number accepted answers live named)
    · intro inside
      have inUser := inside.resolve_right unnamed
      exact registered.answers_found process number inUser live named

theorem boot_suits_rr (memory : State) : memory.boot.Suits .RR := by
  have sched := boot_sched .RR memory
  refine ⟨sched.running rfl, fun t => ⟨fun ready => ?_, fun n blocked => ?_⟩⟩
  · exact sched.fits .readyqueue t (sched.represents.on_iff.mp ready)
  · exact (sched.fits (.blocking n) t (sched.represents.on_iff.mp blocked)).2 rfl

end

def sampleRegistry (installed : Installed) : Registry :=
  @Registry.boot Image.sample installed State.blank

def sampleRegistries (installed : Installed) : System Registry Request :=
  @registries Image.sample installed State.blank

/-- The first process installs round robin, asks about itself, and forks. -/
def asksAndForks : List Request :=
  [.setSchedPolicy 0, .getStats 1 0x108000, .entry (.fork ForkSite.top)]

theorem identified_asksAndForks :
    let r := (sampleRegistries .FCFS).run (sampleRegistry .FCFS) asksAndForks
    Identified r.state ∧ (r.state.current ≠ r.state.idleTask → ∀ pid st, 0 ≤ pid.toInt →
      Accepted st → (@AnswersStats Image.sample r pid st ↔ InUserPages st ∨ r.state.Unnamed pid)) := by
  have process : sampleBoot.current ≠ sampleBoot.idleTask := by decide
  exact @identified_and_answers_iff Image.sample .FCFS State.blank asksAndForks
    ⟨process, ⟨process, by decide +kernel⟩, process, trivial⟩
    ⟨by decide, by decide, by decide +kernel, show CountsUp _ by decide +kernel⟩
    ⟨.inr (@boot_suits_rr Image.sample State.blank), trivial, trivial, trivial⟩

/-- The structure begins in the last user page and ends in the page after it. -/
theorem stats_past_end :
    ¬ ∀ requests, (sampleRegistries .FCFS).Runs (sampleRegistry .FCFS) requests →
      (sampleRegistries .FCFS).Always CountsUp (sampleRegistry .FCFS) requests →
      let r := (sampleRegistries .FCFS).run (sampleRegistry .FCFS) requests
      Identified r.state ∧ (r.state.current ≠ r.state.idleTask → ∀ pid st, 0 ≤ pid.toInt →
        Accepted st → @AnswersStats Image.sample r pid st) := by
  intro always
  have process : sampleBoot.current ≠ sampleBoot.idleTask := by decide
  have counts : CountsUp (sampleRegistry .FCFS) := by decide
  have registered : @Registered Image.sample State.blank (sampleRegistry .FCFS) :=
    @boot_registered Image.sample .FCFS State.blank
  have named : (sampleBoot.task 1).PID = 1 := by decide
  have identified := @Registered.identified Image.sample _ _ registered
  have live : sampleBoot.Live 1 := identified.live_of_pid (by decide) named
  have accepted : Accepted 0x11BFF0 := by decide
  have answers := (always [] trivial counts).2 process 1 0x11BFF0 (by decide) accepted
  have inside := @Registered.inUserPages Image.sample State.blank (sampleRegistry .FCFS) 1 0x11BFF0
    registered process (by decide) accepted answers 1 live named
  exact absurd inside.2 (by decide)

/-- The first process forks and waits; its child installs round robin, which does not suit, as
the first process is on a queue and its state is not that of a waiting one. -/
def changesAbruptly : List Request :=
  [.entry (.fork ForkSite.top), .entry (.block SwitchSite.top 0), .setSchedPolicy 0,
    .entry (.unblock SwitchSite.top 1), .entry (.yield SwitchSite.top),
    .entry (.exit SwitchSite.top), .entry (.block SwitchSite.top 0)]

def mixed : Registry := (sampleRegistries .FCFS).run (sampleRegistry .FCFS) changesAbruptly

theorem changesAbruptly_runs :
    (sampleRegistries .FCFS).Runs (sampleRegistry .FCFS) changesAbruptly := by
  have waiting : ((sampleRegistries .FCFS).run (sampleRegistry .FCFS)
      (changesAbruptly.take 3)).state.links.Segment (.head (.blocking 0)) [.node 1]
        (.head (.blocking 0)) := by
    simp only [Heap.Segment, Heap.Linked]
    decide +kernel
  have onQueue : ((sampleRegistries .FCFS).run (sampleRegistry .FCFS)
      (changesAbruptly.take 3)).state.OnQueue 1 (.blocking 0) :=
    ⟨by decide, waiting.reaches (by decide)⟩
  refine ⟨?_, ?_, ?_, ⟨0, onQueue⟩, ?_, ?_, ?_, trivial⟩
  all_goals
    show _ ≠ _
    decide +kernel

/-- The child, live and with its number, is then reached from the free queue. -/
theorem changesAbruptly_mixes : ¬ Identified mixed.state := by
  have path : mixed.state.links.Segment (.head .freequeue)
      [.node 3, .node 4, .node 5, .node 6, .node 7, .node 8, .node 9, .node 1, .node 2]
      (.head (.blocking 0)) := by
    simp only [Heap.Segment, Heap.Linked]
    decide +kernel
  have onQueue : mixed.state.OnQueue 2 .freequeue := ⟨by decide, path.reaches (by decide)⟩
  have number : (mixed.state.task 2).PID = 1001 := by decide +kernel
  intro identified
  have free := identified.free 2 onQueue
  rw [number] at free
  exact absurd free (by decide)

end Zeos
