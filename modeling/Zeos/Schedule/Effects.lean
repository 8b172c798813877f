import Zeos.Schedule.Entries
import Zeos.Schedule.Start

/-!
# What a step can do

Every step keeps every task in its place, and reaches address spaces and stacks
in one of four ways.
-/

namespace Zeos

open Library

section

variable [Image]

variable {installed : Installed} {memory s after : State} {queues later : Queues} {op : Op}

omit [Image] in
theorem Sched.setCpu (sched : Sched installed s queues) (cpu : X86.Cpu) :
    Sched installed { s with cpu := cpu } queues :=
  ⟨sched.toPlaced.congr rfl rfl rfl fun _ _ => rfl, sched.running⟩

theorem Sched.enter {below above : Nat} (sched : Sched installed s queues)
    (site : CallSite below above) : Sched installed (s.enter site) queues := sched.setCpu _

theorem Sched.enterFork (sched : Sched installed s queues) (site : ForkSite) :
    Sched installed (s.enterFork site) queues := sched.setCpu _

omit [Image] in
theorem Sched.setMemory (sched : Sched installed s queues) (mm : Mm) :
    Sched installed { s with mm := mm } queues :=
  ⟨sched.toPlaced.congr rfl rfl rfl fun _ _ => rfl, sched.running⟩

def Leaves (installed : Installed) (entered : State) (queues later : Queues)
    (after : State) : Prop :=
  SameFree queues later ∧ (entered.Quiet after ∨ HandsOver installed False entered after later)

/-- The running task leaves its slot and its frames to others. -/
def Exits (entered : State) (queues later : Queues) (after : State) : Prop :=
  (∀ t, t ∈ later.on .freequeue ↔ t ∈ queues.on .freequeue ∨ t = entered.current) ∧
    ∃ middle t, State.Quiet { entered with mm := exitMemory entered } middle ∧
      t ∉ later.on .freequeue ∧ after = middle.taskSwitch t

def Effect (installed : Installed) (s : State) (queues later : Queues) (after : State) :
    Op → Prop
  | .fork site =>
      Forks (s.enterFork site) queues later (s.enterFork site).sysFork ∧
        after = (s.enterFork site).sysFork.2
  | .exit site => Exits (s.enter site) queues later after
  | .yield site =>
      SameFree queues later ∧
        HandsOver installed (queues.on .readyqueue = []) (s.enter site) after later
  | .block site _ | .unblock site _ | .tick site =>
      Leaves installed (s.enter site) queues later after
  | .charge _ => SameFree queues later ∧ s.Quiet after
  | .touch page => SameFree queues later ∧ after = { s with mm := (s.mm.translate page).2 }

theorem Sched.step (sched : Sched installed s queues) (enabled : s.Enabled op) :
    ∃ later, Sched installed (s.step installed.policy op) later ∧
      Effect installed s queues later (s.step installed.policy op) op := by
  cases op with
  | fork site =>
      obtain ⟨later, after, forks, _⟩ := (sched.enterFork site).sysFork
      exact ⟨later, after, forks, rfl⟩
  | exit site => exact (sched.enter site).sysExit enabled
  | yield site => exact (sched.enter site).forceTaskSwitch enabled
  | block site n => exact (sched.enter site).blockProcess enabled n
  | unblock site blocked =>
      obtain ⟨n, waiting⟩ := enabled
      exact (sched.enter site).unblockProcess (sched.represents.on_iff.mp waiting)
  | tick site => exact (sched.enter site).clockRoutine
  | charge v =>
      have accounts := s.updateStats_accounts s.current v
      exact ⟨queues, sched.accounts accounts, fun _ => .rfl, accounts.quiet⟩
  | touch page => exact ⟨queues, sched.setMemory _, fun _ => .rfl, rfl⟩

theorem sched_of_reachable (reachable : (kernel installed memory).Reachable s) :
    ∃ queues, Sched installed s queues := by
  have start : ∀ s, s = memory.boot → ∃ queues, Sched installed s queues := by
    rintro state rfl
    exact ⟨_, boot_sched installed memory⟩
  refine reachable.invariant start ?_
  rintro state op ⟨queues, sched⟩ enabled
  obtain ⟨later, after, _⟩ := sched.step enabled
  exact ⟨later, after⟩

end

end Zeos
