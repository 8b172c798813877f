import Zeos.Kernel.State

/-!
# `sched.c`, `kernel-utils.S` and the two scheduling policies

`schedule`, `block_process` and `unblock_process` go through the four pointers
of `schedperf.h`, here a `Policy`. Round robin is the source's; first come first
served ships as object code in `libschedperf.a` and is read off its instructions.
-/

namespace Zeos

open Library Library.X86

/-- The four scheduling pointers; the result of `needs_sched` is a C truth value. -/
structure Policy where
  schedNext : State → State
  updateProcessState : State → Task → Option Queue → State
  needsSched : State → Bool × State
  updateSchedData : State → State

section

variable [Image]

/-- `task_switch` up to and with its call of `inner_task_switch`. -/
def taskSwitchEnter : List Instr :=
  [.push (.reg .ebp),
   .mov (.reg .esp) (.reg .ebp),
   .push (.reg .esi),
   .push (.reg .edi),
   .push (.reg .ebx),
   .push (.mem 8 .ebp),
   .push (.imm Image.innerTaskSwitchRet)]

/-- `task_switch` from the return of `inner_task_switch`. -/
def taskSwitchLeave : List Instr :=
  [.add 4 .esp,
   .pop .ebx,
   .pop .edi,
   .pop .esi,
   .pop .ebp,
   .ret]

/-- The frame of `inner_task_switch` and its call `switch_stack(saveSp, newSp)`;
its locals lie below the arguments and do not outlive the switch. -/
def switchStackCall (saveSp newSp : DWord) : List Instr :=
  [.push (.reg .ebp),
   .mov (.reg .esp) (.reg .ebp),
   .push (.imm newSp),
   .push (.imm saveSp),
   .push (.imm Image.switchStackRet)]

namespace State

/-- `switch_stack`; the word at `saveSp` is `register_esp` of `owner`. -/
def switchStack (s : State) (owner : Task) : State :=
  let s := { s with cpu := s.cpu.exec [.mov (.mem 4 .esp) (.reg .eax)] }
  let s := s.setTask owner fun t => { t with registerEsp := s.cpu.ebp }
  { s with cpu := s.cpu.exec [.mov (.mem 8 .esp) (.reg .esp), .pop .ebp, .ret] }

/-- `inner_task_switch`. The arguments of `switch_stack` are evaluated before
the call, so `new->task.register_esp` is read before anything is saved. The code before the
call is free to use EBX, ESI and EDI: the epilogue that restores them is never reached. -/
def innerTaskSwitch (s : State) (new : Task) (body : Cpu.CalleeSaved) : State :=
  let newDIR := s.getDIR new
  let s := { s with esp0 := taskAddr new PAGE_SIZE }
  let s := s.setCr3 newDIR
  let saveSp := taskAddr s.current 16
  let call := switchStackCall saveSp (s.task new).registerEsp
  let s := { s with cpu := (s.cpu.exec call).holding body }
  { s.switchStack s.current with current := new }

/-- After `switch_stack` the processor is wherever the popped return address
says: at the end of another `task_switch`, or in a function a built frame starts. -/
def switchReturn (s : State) : State :=
  if s.cpu.eip = Image.innerTaskSwitchRet then { s with cpu := s.cpu.exec taskSwitchLeave }
  else s

/-- The processor at the first instruction of `task_switch`, called with `new`. -/
def switchEntry (s : State) (new : Task) : Cpu :=
  s.cpu.exec [.push (.imm (taskAddr new 0)), .push (.reg .eip)]

def taskSwitch (s : State) (new : Task) : State :=
  let entry := s.switchEntry new
  let s := { s with saved := Function.update s.saved s.current (.gaveUp entry) }
  let s := { s with cpu := entry.exec taskSwitchEnter }
  let after body := (s.innerTaskSwitch new body).switchReturn
  { after (Image.innerTaskSwitchBody s.cpu new) with
    trace := .taskSwitch new (s.saved new) (fun body => (after body).cpu) :: s.trace }

def updateSchedDataRr (s : State) : State :=
  { s with remainingQuantum := s.remainingQuantum - 1 }

def needsSchedRr (s : State) : Bool × State :=
  if s.remainingQuantum = 0 ∧ s.listEmpty .readyqueue = false then (true, s)
  else if s.remainingQuantum = 0 then
    (false, { s with remainingQuantum := (s.task s.current).totalQuantum })
  else (false, s)

def updateProcessStateRr (s : State) (t : Task) (dstQueue : Option Queue) : State :=
  let s := if (s.task t).state ≠ .ST_RUN then s.listDel (.node t) else s
  match dstQueue with
  | some queue =>
      let s := s.listAddTail (.node t) queue
      if queue ≠ .readyqueue then s.setState t .ST_BLOCKED
      else (s.updateStats t .systemTicks).setState t .ST_READY
  | none => s.setState t .ST_RUN

def takeNext (s : State) : Task × State :=
  if s.listEmpty .readyqueue = false then
    let e := s.listFirst .readyqueue
    (listHeadToTaskStruct e, s.listDel e)
  else (s.idleTask, s)

/-- What `sched_next_rr` does to the chosen task before it switches. -/
def prepareRr (s : State) (t : Task) : State :=
  let s := s.setState t .ST_RUN
  let s := { s with remainingQuantum := (s.task t).totalQuantum }
  let s := s.updateStats s.current .systemTicks
  let s := s.updateStats t .readyTicks
  s.setStats t fun stats => { stats with totalTrans := stats.totalTrans + 1 }

def schedNextRr (s : State) : State :=
  let (t, s) := s.takeNext
  (s.prepareRr t).taskSwitch t

def updateSchedDataFcfs (s : State) : State := s

def needsSchedFcfs (s : State) : Bool × State :=
  (s.current = s.idleTask ∧ s.listEmpty .readyqueue = false, s)

/-- `update_process_state_fcfs`: linked nodes are told by their `next` pointer,
and idle is never enqueued. -/
def updateProcessStateFcfs (s : State) (t : Task) (dst : Option Queue) : State :=
  let s := if s.links.next (.node t) ≠ none then s.listDel (.node t) else s
  match dst with
  | some queue => if t ≠ s.idleTask then s.listAddTail (.node t) queue else s
  | none => s

def schedNextFcfs (s : State) : State :=
  let (t, s) := s.takeNext
  (s.addTicks t .readyTicks).taskSwitch t

end State

def Policy.rr : Policy where
  schedNext := State.schedNextRr
  updateProcessState := State.updateProcessStateRr
  needsSched := State.needsSchedRr
  updateSchedData := State.updateSchedDataRr

def Policy.fcfs : Policy where
  schedNext := State.schedNextFcfs
  updateProcessState := State.updateProcessStateFcfs
  needsSched := State.needsSchedFcfs
  updateSchedData := State.updateSchedDataFcfs

namespace State

/-- `if (needs_sched()) { update_process_state(current(), &readyqueue); sched_next(); }`,
with which `schedule` and `unblock_process` end. -/
def reschedule (policy : Policy) (s : State) : State :=
  let (needed, s) := policy.needsSched s
  if needed then policy.schedNext (policy.updateProcessState s s.current (some .readyqueue))
  else s

def schedule (policy : Policy) (s : State) : State :=
  reschedule policy (policy.updateSchedData s)

/-- `force_task_switch`: round robin, whatever is installed. -/
def forceTaskSwitch (s : State) : State :=
  (s.updateProcessStateRr s.current (some .readyqueue)).schedNextRr

def blockProcess (policy : Policy) (s : State) (blockQueue : Queue) : State :=
  let t := s.current
  let s := policy.updateProcessState s t (some blockQueue)
  policy.schedNext (s.addTicks t .systemTicks)

def unblockProcess (policy : Policy) (s : State) (blocked : Task) : State :=
  let s := s.addTicks blocked .blockedTicks
  reschedule policy (policy.updateProcessState s blocked (some .readyqueue))

/-- `clock_routine`. What `zeos_update_read_console_emul` does before `schedule`
is to call `unblock_process` or nothing; that call is a step of its own. -/
def clockRoutine (policy : Policy) (s : State) : State :=
  schedule policy { s with zeosTicks := s.zeosTicks + 1 }

end State

end

end Zeos
