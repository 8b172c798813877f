import Zeos.Library.Ring
import Zeos.Library.X86

/-!
# Data of the kernel

Constants of `mm_address.h`, `sched.h`, `mm.h`, `utils.h` and `errno.h`, the
structures of `types.h`, `stats.h` and `sched.h`, and the linked image. A
pointer into an array of the image is the index it points at.
-/

namespace Zeos

open Library Library.X86

abbrev Byte := BitVec 8

/-- `DWord`, `unsigned long`, `unsigned int` and `int` are 32 bits wide. -/
abbrev DWord := X86.Word

@[simp] abbrev TOTAL_PAGES : Nat := 1024
@[simp] abbrev NUM_PAG_KERNEL : Nat := 256
@[simp] abbrev L_USER_START : Nat := 0x100000
@[simp] abbrev NUM_PAG_CODE : Nat := 8
@[simp] abbrev NUM_PAG_DATA : Nat := 20
@[simp] abbrev PAGE_SIZE : Nat := 0x1000
@[simp] abbrev PAG_LOG_INIT_CODE : Nat := L_USER_START / PAGE_SIZE
@[simp] abbrev PAG_LOG_INIT_DATA : Nat := PAG_LOG_INIT_CODE + NUM_PAG_CODE
@[simp] abbrev USER_FIRST_PAGE : Nat := L_USER_START / PAGE_SIZE
@[simp] abbrev KERNEL_START : Nat := 0x10000
@[simp] abbrev NR_TASKS : Nat := 10
@[simp] abbrev KERNEL_STACK_SIZE : Nat := 1024

abbrev FREE_FRAME : Byte := 0
abbrev USED_FRAME : Byte := 1
abbrev DEFAULT_QUANTUM : DWord := 10

abbrev ESRCH : DWord := 3
abbrev EAGAIN : DWord := 11
abbrev ENOMEM : DWord := 12
abbrev EFAULT : DWord := 14
abbrev EINVAL : DWord := 22
abbrev ENOSYS : DWord := 38

/-- A slot of `task[NR_TASKS]`, and so a `struct task_struct *`. -/
abbrev Task := Fin NR_TASKS

instance neZeroTasks : @NeZero Nat Zero.ofOfNat0 NR_TASKS := Nat.instNeZeroSucc

structure Stats where
  userTicks : DWord
  systemTicks : DWord
  blockedTicks : DWord
  readyTicks : DWord
  elapsedTotalTicks : DWord
  totalTrans : DWord
  remainingTicks : DWord
  deriving DecidableEq

/-- The counters `update_stats` is handed a pointer to. -/
inductive Counter where
  | userTicks | systemTicks | blockedTicks | readyTicks
  deriving DecidableEq

def Stats.charge (stats : Stats) (ticks : DWord) : Counter → Stats
  | .userTicks => { stats with userTicks := stats.userTicks + ticks }
  | .systemTicks => { stats with systemTicks := stats.systemTicks + ticks }
  | .blockedTicks => { stats with blockedTicks := stats.blockedTicks + ticks }
  | .readyTicks => { stats with readyTicks := stats.readyTicks + ticks }

def Stats.words (stats : Stats) : List DWord :=
  [stats.userTicks, stats.systemTicks, stats.blockedTicks, stats.readyTicks,
    stats.elapsedTotalTicks, stats.totalTrans, stats.remainingTicks]

inductive TaskState where
  | ST_RUN | ST_READY | ST_BLOCKED
  deriving DecidableEq

/-- `struct task_struct` but for its `list` field: the list nodes of all tasks
and the queue heads are one heap, see `Link`. -/
structure TaskStruct where
  PID : DWord
  dirPagesBaseAddr : Task
  registerEsp : DWord
  state : TaskState
  totalQuantum : DWord
  pStats : Stats
  deriving DecidableEq

/-- Bytes of `struct task_struct`; the kernel stack shares the page above it. -/
@[simp] abbrev SIZEOF_TASK_STRUCT : Nat := 56
@[simp] abbrev OFFSET_P_STATS : Nat := 28
@[simp] abbrev SIZEOF_STATS : Nat := 28

/-- The list heads. `blocking n` are the queues processes wait on, such as
`console_blocked`. -/
inductive Queue where
  | freequeue
  | readyqueue
  | blocking (n : Nat)
  deriving DecidableEq

/-- A `struct list_head`: a queue's head or the `list` field of a task. -/
inductive Link where
  | head (queue : Queue)
  | node (task : Task)
  deriving DecidableEq

structure PageTableEntry where
  present : Bool
  rw : Bool
  user : Bool
  pbaseAddr : Nat
  deriving DecidableEq

def PageTableEntry.zero : PageTableEntry := ⟨false, false, false, 0⟩

/-- A directory row: of its entries only `ENTRY_DIR_PAGES` is ever set, and its
`pbaseAddr` names a row of `pagusr_table`. -/
structure DirEntry where
  present : Bool
  rw : Bool
  user : Bool
  pbaseAddr : Task
  deriving DecidableEq

/-- What the linker decides: where `protected_tasks` lies, and the addresses
of the code that ends up on kernel stacks. -/
class Image where
  protectedTasks : Nat
  above_start : KERNEL_START / PAGE_SIZE ≤ protectedTasks
  below_user : protectedTasks + NR_TASKS + 1 < NUM_PAG_KERNEL
  cpuIdle : DWord
  retFromFork : DWord
  /-- Return address of `call inner_task_switch` in `task_switch`. -/
  innerTaskSwitchRet : DWord
  /-- Return address of the call of `switch_stack`. -/
  switchStackRet : DWord
  /-- Return address of the call in `system_call_handler`. -/
  systemCallRet : DWord
  /-- What the compiled body of `inner_task_switch` keeps in its registers for a new task. -/
  innerTaskSwitchBody : Cpu → Task → Cpu.CalleeSaved
  idle_apart : cpuIdle ≠ innerTaskSwitchRet
  fork_apart : retFromFork ≠ innerTaskSwitchRet

section

variable [image : Image]

/-- Page of `task[t]`, which is `protected_tasks[t + 1]`. -/
def taskPage (task : Task) : Nat := image.protectedTasks + 1 + task

/-- The address `offset` bytes into the page of a task. -/
def taskAddr (task : Task) (offset : Nat) : DWord :=
  BitVec.ofNat 32 (taskPage task * PAGE_SIZE + offset)

def PH_PAGE (address : DWord) : Nat := address.toNat / PAGE_SIZE

theorem taskPage_lt (task : Task) : taskPage task < NUM_PAG_KERNEL := by
  have := image.below_user
  have := task.isLt
  simp only [taskPage, NR_TASKS, NUM_PAG_KERNEL] at *
  omega

theorem taskPage_injective {first second : Task} (same : taskPage first = taskPage second) :
    first = second := by
  simp only [taskPage] at same
  exact Fin.ext (by omega)

theorem taskAddr_toNat (task : Task) {offset : Nat} (bound : offset ≤ PAGE_SIZE) :
    (taskAddr task offset).toNat = taskPage task * PAGE_SIZE + offset := by
  have := taskPage_lt task
  simp only [NUM_PAG_KERNEL, PAGE_SIZE] at *
  rw [taskAddr, BitVec.toNat_ofNat, Nat.mod_eq_of_lt (by simp only [PAGE_SIZE]; omega)]

@[simp] theorem PH_PAGE_taskAddr (task : Task) {offset : Nat} (bound : offset < PAGE_SIZE) :
    PH_PAGE (taskAddr task offset) = taskPage task := by
  rw [PH_PAGE, taskAddr_toNat task (Nat.le_of_lt bound)]
  simp only [PAGE_SIZE] at *
  omega

theorem taskAddr_inj {task : Task} {first second : Nat} (firstBound : first ≤ PAGE_SIZE)
    (secondBound : second ≤ PAGE_SIZE) :
    taskAddr task first = taskAddr task second ↔ first = second := by
  constructor
  · intro same
    have values := congrArg BitVec.toNat same
    rw [taskAddr_toNat task firstBound, taskAddr_toNat task secondBound] at values
    omega
  · rintro rfl
    rfl

theorem taskAddr_sub (task : Task) (offset down : Nat) (bound : down ≤ offset)
    (inside : offset ≤ PAGE_SIZE) :
    taskAddr task offset - BitVec.ofNat 32 down = taskAddr task (offset - down) := by
  apply BitVec.eq_of_toNat_eq
  have page := taskPage_lt task
  simp only [NUM_PAG_KERNEL, PAGE_SIZE] at *
  rw [BitVec.toNat_sub, taskAddr_toNat task (by simpa using inside),
    taskAddr_toNat task (by simp only [PAGE_SIZE]; omega), BitVec.toNat_ofNat]
  simp only [PAGE_SIZE]
  omega

theorem taskAddr_add (task : Task) (offset up : Nat) (inside : offset + up ≤ PAGE_SIZE) :
    taskAddr task offset + BitVec.ofNat 32 up = taskAddr task (offset + up) := by
  apply BitVec.eq_of_toNat_eq
  have page := taskPage_lt task
  simp only [NUM_PAG_KERNEL, PAGE_SIZE] at *
  rw [BitVec.toNat_add, taskAddr_toNat task (by simp only [PAGE_SIZE]; omega),
    taskAddr_toNat task (by simp only [PAGE_SIZE]; omega), BitVec.toNat_ofNat]
  simp only [PAGE_SIZE]
  omega

end

end Zeos
