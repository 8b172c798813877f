import Zeos.Library.Transition
import Zeos.Kernel.Boot
import Zeos.Kernel.Sys

/-!
# Runs of the kernel

One step is one kernel entry, from wherever its code is on the kernel stack of
the running task to the next return to user mode: the registers and the words
of that stack are part of the step. User code between two steps shows as
accesses to memory.
-/

namespace Zeos

open Library Library.X86

inductive Installed where
  | RR | FCFS
  deriving DecidableEq

/-- Registers and kernel stack of the running task at some point of the kernel's
code. The stack pointer is `depth` bytes into the page; `below` bytes are still
to be pushed and `above` are known to lie above. -/
structure CallSite (below above : Nat) where
  cpu : Cpu
  depth : Nat
  aligned : depth % 4 = 0
  room : SIZEOF_TASK_STRUCT + below ≤ depth
  fits : depth + above ≤ PAGE_SIZE

abbrev SwitchSite := CallSite 48 0

/-- The frame of `sys_fork`: saved frame pointer and return address, under the
sixteen words of the save area. -/
abbrev ForkSite := CallSite 4 72

/-- The kernel entries, and what user code may do in between. -/
inductive Op where
  | fork (site : ForkSite)
  | exit (site : SwitchSite)
  | yield (site : SwitchSite)
  | block (site : SwitchSite) (n : Nat)
  | unblock (site : SwitchSite) (blocked : Task)
  | tick (site : SwitchSite)
  /-- `user_to_system` and `system_to_user`, which the handlers call. -/
  | charge (v : Counter)
  | touch (page : Nat)

def Op.isFork : Op → Bool
  | .fork _ => true
  | _ => false

section

variable [Image]

def Installed.policy : Installed → Policy
  | .RR => .rr
  | .FCFS => .fcfs

namespace State

def enter {below above : Nat} (s : State) (site : CallSite below above) : State :=
  { s with
    cpu := { site.cpu with
      esp := taskAddr s.current site.depth
      mem := fun address =>
        if PH_PAGE address = taskPage s.current then site.cpu.mem address
        else s.cpu.mem address } }

/-- The processor inside `sys_fork`, which `get_ebp` is called from. -/
def enterFork (s : State) (site : ForkSite) : State :=
  let s := s.enter site
  { s with cpu := { s.cpu with ebp := taskAddr s.current site.depth } }

def Mapped (s : State) (page : Nat) : Prop :=
  (s.mm.pagusrTable (s.mm.dirPages s.mm.cr3).pbaseAddr page).present = true

/-- Services are called by processes, and so is `block_process`; a process that
is waiting somewhere can be unblocked. -/
def Enabled (s : State) : Op → Prop
  | .fork _ | .exit _ | .yield _ | .block _ _ => s.current ≠ s.idleTask
  | .unblock _ blocked => ∃ n, s.OnQueue blocked (.blocking n)
  | .tick _ | .charge _ => True
  | .touch page => s.Mapped page

def step (policy : Policy) (s : State) : Op → State
  | .fork site => (s.enterFork site).sysFork.2
  | .exit site => (s.enter site).sysExit
  | .yield site => (s.enter site).sysYield.2
  | .block site n => (s.enter site).blockProcess policy (.blocking n)
  | .unblock site blocked => (s.enter site).unblockProcess policy blocked
  | .tick site => (s.enter site).clockRoutine policy
  | .charge v => s.updateStats s.current v
  | .touch page => { s with mm := (s.mm.translate page).2 }

end State

/-- `sys_set_sched_policy`, read off its instructions in `libschedperf.a`. -/
def sysSetSchedPolicy (installed : Installed) (policy : DWord) : Result × Installed :=
  if policy ≠ 0 ∧ policy ≠ 1 then (.error EINVAL, installed)
  else if policy = 0 then (.ok 0, .RR)
  else (.ok 0, .FCFS)

/-- The kernel from boot, over memory that held `memory`. What is proved of its reachable states
is about runs in which `sys_set_sched_policy` leaves the policy as it is. -/
def kernel (installed : Installed) (memory : State) : System State Op where
  initial s := s = memory.boot
  enabled := State.Enabled
  next := State.step installed.policy

theorem kernel_run_single (installed : Installed) (memory s : State) (op : Op) :
    (kernel installed memory).run s [op] = s.step installed.policy op := rfl

end

abbrev Image.sample : Image where
  protectedTasks := 32
  above_start := by decide
  below_user := by decide
  cpuIdle := 0x10100
  retFromFork := 0x10200
  innerTaskSwitchRet := 0x10300
  switchStackRet := 0x10400
  systemCallRet := 0x10500
  innerTaskSwitchBody cpu new := ⟨BitVec.ofNat 32 (0x21000 + new * 0x1000), 0x24000, cpu.edi⟩
  idle_apart := by decide
  fork_apart := by decide

namespace State

def blank : State where
  task _ :=
    { PID := 0, dirPagesBaseAddr := 0, registerEsp := 0, state := .ST_RUN, totalQuantum := 0
      pStats := ⟨0, 0, 0, 0, 0, 0, 0⟩ }
  links := { next := fun _ => none, prev := fun _ => none }
  current := 0
  idleTask := 0
  remainingQuantum := 0
  globalPID := 0
  zeosTicks := 0
  clock _ := 0
  mm :=
    { physMem := fun _ => 0, dirPages := fun _ => ⟨false, false, false, 0⟩
      pagusrTable := fun _ _ => .zero, frames := fun _ _ => 0, cr3 := 0, tlb := []
      choice := fun _ => 0, fault := false, freed := [] }
  cpu := ⟨0, 0, 0, 0, 0, 0, 0, 0, 0, 0, 0, 0, 0, 0, 0, 0, fun _ => 0⟩
  esp0 := 0
  saved _ := .built ⟨0, 0, 0, 0, 0, 0, 0, 0, 0, 0, 0, 0, 0, 0, 0, 0, fun _ => 0⟩
  trace := []

end State

def SwitchSite.top : SwitchSite where
  cpu := State.blank.cpu
  depth := 4000
  aligned := by decide
  room := by decide
  fits := by decide

def ForkSite.top : ForkSite where
  cpu := State.blank.cpu
  depth := 4024
  aligned := by decide
  room := by decide
  fits := by decide

def sampleBoot : State := @State.boot Image.sample State.blank

def sampleKernel (installed : Installed) : System State Op :=
  @kernel Image.sample installed State.blank

end Zeos
