import Zeos.Kernel.List
import Zeos.Kernel.Memory

/-!
# The state of the kernel

The global variables, the task array, memory and the processor. `current()`
masks the stack pointer down to its page: `current` is the slot of that page.
`saved` and `trace` are history, written and never read by the code; they record
what the properties about calls speak of.
-/

namespace Zeos

open Library Library.X86

/-- What a task that is off the CPU must find when it is switched to. -/
inductive Saved where
  /-- It called `task_switch`; the processor at the call's first instruction. -/
  | gaveUp (cpu : Cpu)
  /-- It never ran: the registers and stack its first frame was built for. -/
  | built (cpu : Cpu)

/-- A call worth remembering, with what it found. -/
inductive Event where
  | listDel (entry : Link) (links : Heap Link)
  | listAddTail (new : Link) (links : Heap Link)
  /-- Where it returned to, for whatever its body left in the registers. -/
  | taskSwitch (new : Task) (saved : Saved) (returned : Cpu.CalleeSaved → Cpu)

structure State where
  /-- `task[NR_TASKS]` but for its list nodes and stacks. -/
  task : Task → TaskStruct
  links : Heap Link
  current : Task
  /-- `idle_task`; null until `init_idle`. -/
  idleTask : Task
  remainingQuantum : DWord
  globalPID : DWord
  zeosTicks : DWord
  /-- What the coming calls of `get_ticks` return. -/
  clock : Nat → DWord
  mm : Mm
  /-- The memory of the processor holds the kernel stacks. -/
  cpu : Cpu
  /-- `tss.esp0` and the `sysenter` stack pointer, MSR 0x175. -/
  esp0 : DWord
  saved : Task → Saved
  trace : List Event

namespace State

variable (s : State)

def setTask (task : Task) (f : TaskStruct → TaskStruct) : State :=
  { s with task := Function.update s.task task (f (s.task task)) }

def setState (task : Task) (state : TaskState) : State :=
  s.setTask task fun t => { t with state := state }

def setStats (task : Task) (f : Stats → Stats) : State :=
  s.setTask task fun t => { t with pStats := f t.pStats }

theorem setTask_task (task other : Task) (f : TaskStruct → TaskStruct) :
    (s.setTask task f).task other = if other = task then f (s.task task) else s.task other := by
  simp [setTask, Function.update_apply]

@[simp] theorem setState_state (task other : Task) (state : TaskState) :
    ((s.setState task state).task other).state =
      if other = task then state else (s.task other).state := by
  simp only [setState, setTask_task]
  split <;> simp [*]

def listDel (entry : Link) : State :=
  { s with links := Zeos.listDel s.links entry, trace := .listDel entry s.links :: s.trace }

def listAddTail (new : Link) (head : Queue) : State :=
  { s with
    links := Zeos.listAddTail s.links new (.head head)
    trace := .listAddTail new s.links :: s.trace }

def listEmpty (head : Queue) : Bool := Zeos.listEmpty s.links (.head head)

def listFirst (head : Queue) : Link := Zeos.listFirst s.links (.head head)

def initListHead (head : Queue) : State :=
  { s with links := Zeos.initListHead s.links (.head head) }

def OnQueue (task : Task) (queue : Queue) : Prop := s.links.On (.head queue) (.node task)

def Live (task : Task) : Prop := ¬ s.OnQueue task .freequeue

def getTicks : DWord × State :=
  (s.clock 0, { s with clock := fun n => s.clock (n + 1) })

def updateStats (task : Task) (v : Counter) : State :=
  let (currentTicks, s) := s.getTicks
  s.setStats task fun stats =>
    { stats.charge (currentTicks - stats.elapsedTotalTicks) v with
      elapsedTotalTicks := currentTicks }

/-- `*v += get_ticks() - *elapsed; *elapsed = get_ticks()`, inlined where the
clock is read twice. -/
def addTicks (task : Task) (v : Counter) : State :=
  let (now, s) := s.getTicks
  let s := s.setStats task fun stats => stats.charge (now - stats.elapsedTotalTicks) v
  let (now, s) := s.getTicks
  s.setStats task fun stats => { stats with elapsedTotalTicks := now }

def initStats (task : Task) : State :=
  let (elapsed, s) := s.getTicks
  let (remaining, s) := s.getTicks
  s.setStats task fun _ =>
    { userTicks := 0, systemTicks := 0, blockedTicks := 0, readyTicks := 0
      elapsedTotalTicks := elapsed, totalTrans := 0, remainingTicks := remaining }

def getDIR (t : Task) : Task := (s.task t).dirPagesBaseAddr

def getPT (t : Task) : Task := (s.mm.dirPages (s.task t).dirPagesBaseAddr).pbaseAddr

/-- `allocate_DIR`: the row of `dir_pages` at the position of `t` in `task`. -/
def allocateDIR (t : Task) : State :=
  s.setTask t fun c => { c with dirPagesBaseAddr := t }

def setCr3 (dir : Task) : State := { s with mm := s.mm.setCr3 dir }

end State

end Zeos
