import Zeos.Identity.Registry
import Zeos.Syscall.ForkCall

/-!
# Parent, child or failure

A program goes by the result of `fork()`: a PID, 0 or -1. `global_PID` only counts up,
and the wrapper takes what is below zero for an error.
-/

namespace Zeos

open Library Library.X86

abbrev INT_MAX : DWord := 0x7FFFFFFF

/-- The next number is an `int` above zero, if a slot is free. -/
def NumberLeft (s : State) : Prop := s.listEmpty .freequeue = false → s.globalPID ≠ INT_MAX

instance (s : State) : Decidable (NumberLeft s) := inferInstanceAs (Decidable (_ → _))

/-- The step is no `sys_fork` beyond the last number. -/
def ForkInRange (s : State) (op : Op) : Prop := op.isFork = true → NumberLeft s

instance (s : State) (op : Op) : Decidable (ForkInRange s op) := inferInstanceAs (Decidable (_ → _))

section

variable [Image] [UserImage]

/-- `fork()` says what happened: the PID of a new child, which no other task has, and 0
in the child, or -1 and there is no child. -/
inductive ForkMeans (installed : Installed) (memory s : State) : Prop
  | created {child : Task} {pid : DWord} (free : s.OnQueue child .freequeue)
      (succeeded : s.forking.sysFork.1 = .ok pid)
      (live : ∀ t, s.userFork.Live t ↔ s.Live t ∨ t = child)
      (number : (s.userFork.task child).PID = pid)
      (parent : s.userFork.cpu.eax = pid)
      (positive : 0 < pid.toInt)
      (distinct : ∀ t, s.userFork.Live t → t ≠ child → (s.userFork.task t).PID ≠ pid)
      (zero : ∀ dispatched, FirstDispatch installed memory s.userFork child dispatched →
        ChildReturns s dispatched.cpu)
  | refused {code : DWord} (failed : s.forking.sysFork.1 = .error code)
      (live : ∀ t, s.userFork.Live t ↔ s.Live t)
      (parent : s.userFork.cpu.eax = -1)

variable {installed : Installed} {memory s : State} {queues : Queues} {code : Nat → Nat}
  {given exited : List DWord} {child : Task}

structure Creates (installed : Installed) (memory s : State) (queues : Queues) (child : Task) :
    Prop where
  free : child ∈ queues.on .freequeue
  succeeded : s.forking.sysFork.1 = .ok (s.globalPID + 1)
  placed : ∃ later, Sched installed s.userFork later ∧
    ∀ t, t ∈ later.on .freequeue ↔ t ≠ child ∧ t ∈ queues.on .freequeue
  number : (s.userFork.task child).PID = s.globalPID + 1
  others : ∀ t, t ≠ child → (s.userFork.task t).PID = (s.task t).PID
  parent : s.userFork.cpu.eax =
    if Wrapper.fork.Fails (s.globalPID + 1) then -1 else s.globalPID + 1
  zero : ¬ Wrapper.fork.Fails (s.globalPID + 1) → ∀ dispatched,
    FirstDispatch installed memory s.userFork child dispatched → ChildReturns s dispatched.cpu

omit [UserImage] in
theorem forkFinish_mem {depth : Nat} (mm : Mm) (ebp : s.cpu.ebp = taskAddr s.current depth)
    (room : 60 ≤ depth) (fits : depth + 4 ≤ PAGE_SIZE) {address : DWord}
    (off : PH_PAGE address ≠ taskPage child) :
    ((forkMapped s child mm).forkFinish child).2.cpu.mem address = s.cpu.mem address := by
  have made := s.forkFinish_makesChild child mm ebp room fits
  have apart : ∀ place < PAGE_SIZE, address ≠ taskAddr child place := by
    rintro place bound rfl
    exact off (PH_PAGE_taskAddr child bound)
  rw [made.stack, forkWords, Function.update_of_ne (apart _ (by omega)),
    Function.update_of_ne (apart _ (by omega))]
  exact if_neg off

omit [UserImage] in
theorem page_apart {t : Task} (apart : t ≠ child) {address : DWord}
    (own : PH_PAGE address = taskPage t ∨ L_USER_START ≤ address.toNat) :
    PH_PAGE address ≠ taskPage child := by
  rcases own with onStack | user
  · rw [onStack]
    exact fun same => apart (taskPage_injective same)
  · have page := taskPage_lt child
    rw [PH_PAGE]
    simp only [L_USER_START, NUM_PAG_KERNEL, PAGE_SIZE] at *
    omega

theorem Calls.creates (calls : Calls s) (sched : Sched installed s queues) {later : Queues}
    (afterSched : Sched installed s.forking.sysFork.2 later)
    (afterSpaced : Spaced code s.forking.sysFork.2 later) (free : child ∈ queues.on .freequeue)
    {mm : Mm} (slots : ∀ t, t ∈ later.on .freequeue ↔ t ≠ child ∧ t ∈ queues.on .freequeue)
    (result : s.forking.sysFork = (forkMapped s.forking child mm).forkFinish child) :
    Creates installed memory s queues child := by
  have apart : s.current ≠ child := (sched.free_apart free).1
  obtain ⟨frame, _⟩ := calls.forking_spec
  have current := forking_current s
  have counted : s.forking.globalPID = s.globalPID := by rw [forking_eq]
  have tasks : s.forking.task = s.task := by rw [forking_eq]
  obtain ⟨_, number, others⟩ := forkMapped_pids s.forking child mm
  have returned := forkFinish_ok (forkMapped s.forking child mm) child
  have ebp : s.forking.cpu.ebp = taskAddr s.forking.current forkDepth := by rw [current, frame]
  have first : FirstFrame s.forking child forkDepth _ :=
    forkFinish_firstFrame mm ebp (by decide) (by decide)
  have kept := fun address own => @forkFinish_mem _ s.forking child forkDepth mm ebp
    (by decide) (by decide) address (page_apart apart own)
  rw [← result] at number others returned first kept
  rw [counted] at number
  rw [number] at returned
  rw [tasks] at others
  have ran : s.forking.sysFork = (.ok (s.globalPID + 1), s.forking.sysFork.2) := Prod.ext returned rfl
  generalize s.forking.sysFork.2 = after at *
  obtain ⟨⟨cpu, whole⟩, answer, elsewhere⟩ := calls.userFork_spec ran first.ebp kept
  have pending : ¬ Wrapper.fork.Fails (s.globalPID + 1) →
      Pending installed code after child s.userFork := by
    intro succeeds
    have stack := elsewhere succeeds child apart.symm
    rw [whole] at stack ⊢
    refine ⟨⟨later, afterSched.setCpu cpu, afterSpaced.setCpu cpu,
      fun inFree => ((slots child).mp inFree).1 rfl⟩, ?_, ⟨rfl, rfl, stack⟩⟩
    have same : after.current = s.current := first.current.trans current
    rw [same]
    exact apart.symm
  refine ⟨free, congrArg Prod.fst ran, ⟨later, ?_, slots⟩, ?_, ?_, answer, ?_⟩
  · rw [whole]
    exact afterSched.setCpu cpu
  · rw [whole]
    exact number
  · rw [whole]
    exact others
  · intro succeeds dispatched dispatch
    exact calls.child_returns first ((pending succeeds).first_dispatch
      (first.resumable (by decide) (by decide)) dispatch)

theorem Calls.refused (calls : Calls s) (full : s.forking.sysFork = (.error ENOMEM, s.forking)) :
    ForkMeans installed memory s := by
  obtain ⟨⟨cpu, whole⟩, answer, _⟩ := calls.userFork_spec full rfl fun _ _ => rfl
  have fails : Wrapper.fork.Fails (Result.word (.error ENOMEM)) := by decide
  rw [if_pos fails] at answer
  refine .refused (congrArg Prod.fst full) (fun t => ?_) answer
  rw [whole, forking_eq]
  exact .rfl

theorem Calls.fork_cases (memory : State) (calls : Calls s) (sched : Sched installed s queues)
    (spaced : Spaced code s queues) (process : s.current ≠ s.idleTask) :
    (queues.on .freequeue = [] ∧ s.forking.sysFork = (.error ENOMEM, s.forking)) ∨
      ∃ child, Creates installed memory s queues child := by
  have inside : Sched installed s.forking queues := by
    rw [forking_eq]
    exact sched.setCpu _
  have ready : Spaced code s.forking queues := by
    rw [forking_eq]
    exact spaced.setCpu _
  have entered : s.forking.current ≠ s.forking.idleTask := by
    rw [forking_eq]
    exact process
  obtain ⟨later, afterSched, forks, _⟩ := inside.sysFork
  have afterSpaced := (ready.sysFork inside entered forks).1
  rcases ready.fork_cases inside entered forks with
    ⟨none, _, full⟩ | ⟨child, free, mm, _, slots, result⟩
  · exact .inl ⟨none, full⟩
  · exact .inr ⟨child, calls.creates sched afterSched afterSpaced free slots result⟩

omit [Image] [UserImage] in
/-- Below the largest `int` the next number is above zero and not in use. -/
theorem Numbered.next (numbered : Numbered ⟨installed, s, given, exited⟩ queues)
    (left : s.globalPID ≠ INT_MAX) : 0 < (s.globalPID + 1).toInt ∧
      ∀ t, t ∉ queues.on .freequeue → (s.task t).PID ≠ s.globalPID + 1 := by
  have small : s.globalPID.toNat < 2 ^ 31 := numbered.counter.lt
  have apart : s.globalPID.toNat ≠ INT_MAX.toNat := fun same => left (BitVec.eq_of_toNat_eq same)
  have max : INT_MAX.toNat = 2 ^ 31 - 1 := rfl
  have one : (1 : DWord).toNat = 1 := rfl
  have next : (s.globalPID + 1).toNat = s.globalPID.toNat + 1 := by
    rw [BitVec.toNat_add, one]
    omega
  constructor
  · rw [BitVec.toInt_eq_toNat_cond, if_pos (by omega), next]
    omega
  · intro t notFree same
    have bound : (s.task t).PID.toNat ≤ s.globalPID.toNat :=
      numbered.bounded _ (numbered.live t notFree).1
    rw [same, next] at bound
    omega

omit [Image] [UserImage] in
theorem not_fails_of_pos {pid : DWord} (positive : 0 < pid.toInt) : ¬ Wrapper.fork.Fails pid := by
  rintro ⟨_, negative⟩
  rw [BitVec.slt_iff_toInt_lt] at negative
  have zero : (0 : DWord).toInt = 0 := rfl
  omega

theorem Creates.forkMeans (creates : Creates installed memory s queues child)
    (sched : Sched installed s queues) (numbered : Numbered ⟨installed, s, given, exited⟩ queues)
    (left : s.globalPID ≠ INT_MAX) : ForkMeans installed memory s := by
  obtain ⟨positive, fresh⟩ := numbered.next left
  have succeeds := not_fails_of_pos positive
  obtain ⟨later, afterSched, slots⟩ := creates.placed
  have parent := creates.parent
  rw [if_neg succeeds] at parent
  refine .created (sched.represents.on_iff.mpr creates.free) creates.succeeded (fun t => ?_)
    creates.number parent positive (fun t live apart => ?_) (creates.zero succeeds)
  · rw [afterSched.live_iff, sched.live_iff, slots]
    by_cases same : t = child <;> simp [same]
  · rw [creates.others t apart]
    exact fresh t fun inFree => afterSched.live_iff.mp live ((slots t).mpr ⟨apart, inFree⟩)

/-- The number after the largest `int` is taken for an error. -/
theorem Creates.not_forkMeans (creates : Creates installed memory s queues child)
    (last : s.globalPID = INT_MAX) : ¬ ForkMeans installed memory s := by
  intro means
  have succeeded := creates.succeeded
  cases means with
  | created free answered live number parent positive distinct zero =>
      rw [answered, last] at succeeded
      rw [Except.ok.inj succeeded] at positive
      exact absurd positive (by decide)
  | refused failed live parent =>
      rw [failed] at succeeded
      exact absurd succeeded nofun

theorem Calls.forkMeans_iff (calls : Calls s) (sched : Sched installed s queues)
    (spaced : Spaced code s queues) (numbered : Numbered ⟨installed, s, given, exited⟩ queues)
    (process : s.current ≠ s.idleTask) : ForkMeans installed memory s ↔ NumberLeft s := by
  have empty : s.listEmpty .freequeue = true ↔ queues.on .freequeue = [] :=
    sched.represents.listEmpty_iff .freequeue
  rcases calls.fork_cases memory sched spaced process with ⟨none, full⟩ | ⟨child, creates⟩
  · refine iff_of_true (calls.refused full) fun some => ?_
    rw [empty.mpr none] at some
    exact absurd some nofun
  · have some : s.listEmpty .freequeue = false := by
      rw [← Bool.not_eq_true, empty]
      exact List.ne_nil_of_mem creates.free
    by_cases last : s.globalPID = INT_MAX
    · exact iff_of_false (creates.not_forkMeans last) fun left => left some last
    · exact iff_of_true (creates.forkMeans sched numbered last) fun _ => last

def Counted (installed : Installed) (memory s : State) : Prop :=
  ∃ given exited, Registered memory ⟨installed, s, given, exited⟩

omit [UserImage] in
theorem born_isFork {op : Op} {pid : DWord} (born : s.born op = some pid) : op.isFork = true := by
  cases op with
  | fork site => rfl
  | _ => exact absurd born nofun

omit [UserImage] in
theorem Counted.step {op : Op} (counted : Counted installed memory s) (enabled : s.Enabled op)
    (inRange : ForkInRange s op) : Counted installed memory (s.step installed.policy op) := by
  obtain ⟨given, exited, registered⟩ := counted
  have counts : 0 ≤ (s.step installed.policy op).globalPID.toInt := by
    obtain ⟨queues, sched, spaced, numbered⟩ := registered
    obtain ⟨later, _, effect⟩ := sched.step enabled
    cases spaced.numbers sched enabled effect with
    | same slots pids born gone =>
        rw [pids.globalPID]
        exact numbered.counter
    | birth free slots pid others counter born gone =>
        have some : s.listEmpty .freequeue = false := by
          rw [← Bool.not_eq_true, State.listEmpty, sched.represents.listEmpty_iff]
          exact List.ne_nil_of_mem free
        rw [counter]
        exact Int.le_of_lt (numbered.next (inRange (born_isFork born) some)).1
    | death slots pid others counter born gone =>
        rw [counter]
        exact numbered.counter
  exact ⟨_, _, registered.step enabled counts⟩

theorem Counted.forkMeans_iff (counted : Counted installed memory s) (top : OnTop s)
    (process : s.current ≠ s.idleTask) {cpu : Cpu} (hasRoom : HasRoom cpu) :
    ForkMeans installed memory { s with cpu := cpu } ↔ NumberLeft s := by
  obtain ⟨given, exited, queues, sched, spaced, numbered⟩ := counted
  have calls : Calls { s with cpu := cpu } := ⟨hasRoom, top⟩
  have same : Numbered ⟨installed, { s with cpu := cpu }, given, exited⟩ queues :=
    numbered.congr ⟨fun _ => rfl, rfl⟩ fun _ => .rfl
  exact calls.forkMeans_iff (sched.setCpu cpu) (spaced.setCpu cpu) same process

end

section

variable [Image] {installed : Installed} {memory s : State} {queues : Queues} {code : Nat → Nat}

/-- A process runs, a slot is free, and idle waits for the processor to be given up. -/
structure Spins (installed : Installed) (code : Nat → Nat) (s : State) (queues : Queues) :
    Prop where
  sched : Sched installed s queues
  spaced : Spaced code s queues
  process : s.current ≠ s.idleTask
  some : queues.on .freequeue ≠ []
  idle : s.idleTask ∉ queues.on .readyqueue

theorem Spins.fork (spins : Spins installed code s queues) (site : ForkSite) :
    ∃ later, Sched installed (s.step installed.policy (.fork site)) later ∧
      Spaced code (s.step installed.policy (.fork site)) later ∧
      (s.step installed.policy (.fork site)).current = s.current ∧
      (s.step installed.policy (.fork site)).idleTask = s.idleTask ∧
      (s.step installed.policy (.fork site)).globalPID = s.globalPID + 1 ∧
      later.on .readyqueue ≠ [] ∧ s.idleTask ∉ later.on .readyqueue := by
  have entered := spins.sched.enterFork site
  have ready := spins.spaced.enterFork site
  rcases sysFork_cases entered.represents with ⟨none, _⟩ | ⟨child, rest, first, result⟩
  · exact absurd none spins.some
  · have free : child ∈ queues.on .freequeue := Queues.mem_of_first first
    obtain ⟨_, apart, _⟩ := entered.free_apart free
    obtain ⟨mm, allocated, duplicates⟩ := ready.forkMapped entered spins.process free
    rw [forkInto_ok allocated] at result
    have after : s.step installed.policy (.fork site) =
      ((forkMapped (s.enterFork site) child mm).forkFinish child).2 := congrArg Prod.snd result
    obtain ⟨counter, _⟩ := forkMapped_pids (s.enterFork site) child mm
    obtain ⟨before, finish⟩ := forkFinish_eq (forkMapped (s.enterFork site) child mm) child
    have current : ((forkMapped (s.enterFork site) child mm).forkFinish child).2.current =
        s.current := by
      rw [finish.result]
      exact finish.current
    have idle : ((forkMapped (s.enterFork site) child mm).forkFinish child).2.idleTask =
        s.idleTask := by
      rw [finish.result]
      exact finish.idleTask
    have off := queues.off_remove_self child
    have slots : ∀ t, t ∈ ((queues.remove child).push child .readyqueue off).on .freequeue ↔
        t ≠ child ∧ t ∈ queues.on .freequeue := by
      intro t
      simp [Queues.mem_push, Queues.mem_remove]
    rw [after]
    refine ⟨(queues.remove child).push child .readyqueue off, entered.forked free off mm,
      (ready.forkFinish entered free duplicates slots).2, current, idle, counter, ?_, ?_⟩
    · exact List.ne_nil_of_mem (Queues.mem_push.mpr (.inr ⟨rfl, rfl⟩))
    · intro member
      rcases Queues.mem_push.mp member with old | ⟨_, same⟩
      · exact spins.idle (Queues.mem_remove.mp old).2
      · exact apart same

def Exhausted (installed : Installed) (code : Nat → Nat) (s : State) : Prop :=
  s.globalPID = INT_MAX ∧ ∃ queues, Spins installed code s queues

theorem Exhausted.not_forkMeans [UserImage] (exhausted : Exhausted installed code s)
    (counted : Counted installed memory s) (top : OnTop s) {cpu : Cpu} (hasRoom : HasRoom cpu) :
    s.current ≠ s.idleTask ∧ ¬ ForkMeans installed memory { s with cpu := cpu } := by
  obtain ⟨last, queues, spins⟩ := exhausted
  refine ⟨spins.process, fun means => ?_⟩
  refine (counted.forkMeans_iff top spins.process hasRoom).mp means ?_ last
  rw [← Bool.not_eq_true, State.listEmpty, spins.sched.represents.listEmpty_iff]
  exact spins.some

end

end Zeos
