import Zeos.Kernel.Sched
import Zeos.Kernel.Utils

/-!
# `sys.c`

The services. `sys_fork` is cut at its loops; each loop over pages is a recursion
on the number of pages done.
-/

namespace Zeos

open Library Library.X86

/-- What a service returns: a value, or the code of an error. -/
abbrev Result := Except DWord DWord

/-- `return -ERROR`, in one word. -/
def Result.word : Result → DWord
  | .ok value => value
  | .error code => -code

namespace Mm

def freeData (table : Task) : Nat → Mm → Mm
  | 0, mm => mm
  | pag + 1, mm =>
      let mm := freeData table pag mm
      let mm := mm.freeFrame (mm.getFrame table (PAG_LOG_INIT_DATA + pag))
      mm.delSsPag table (PAG_LOG_INIT_DATA + pag)

/-- The allocation loop of `sys_fork`; an error carries the page it stopped at. -/
def allocData (processPT : Task) : Nat → Mm → Except (Mm × Nat) Mm
  | 0, mm => .ok mm
  | pag + 1, mm =>
      match allocData processPT pag mm with
      | .error stopped => .error stopped
      | .ok mm =>
          match mm.allocFrame with
          | (some frame, mm) => .ok (mm.setSsPag processPT (PAG_LOG_INIT_DATA + pag) frame)
          | (none, mm) => .error (mm, pag)

def sharePages (processPT parentPT : Task) (first : Nat) : Nat → Mm → Mm
  | 0, mm => mm
  | pag + 1, mm =>
      let mm := sharePages processPT parentPT first pag mm
      mm.setSsPag processPT (first + pag) (mm.getFrame parentPT (first + pag))

/-- The copy loop of `sys_fork`: data page `pag` goes through the parent's page
`pag + NUM_PAG_DATA`, mapped to the child's frame for the time of the copy. -/
def copyPages (kernel : Nat → Nat → Byte) (processPT parentPT : Task) : Nat → Mm → Mm
  | 0, mm => mm
  | n + 1, mm =>
      let mm := copyPages kernel processPT parentPT n mm
      let pag := NUM_PAG_KERNEL + NUM_PAG_CODE + n
      let mm := mm.setSsPag parentPT (pag + NUM_PAG_DATA) (mm.getFrame processPT pag)
      let mm := copyData (bus kernel) (BitVec.ofNat 32 (pag * PAGE_SIZE))
        (BitVec.ofNat 32 ((pag + NUM_PAG_DATA) * PAGE_SIZE)) PAGE_SIZE mm
      mm.delSsPag parentPT (pag + NUM_PAG_DATA)

end Mm

section

variable [Image]

def taskOfPage (page : Nat) : Option Task :=
  (List.finRange NR_TASKS).find? fun task => taskPage task = page

def byteOfWords (words : List DWord) (place : Nat) : Byte :=
  ((words[place / 4]?.getD 0) >>> (8 * (place % 4))).setWidth 8

namespace State

/-- The bytes of the kernel's own frames: `p_stats` of the tasks and the
stacks; the rest of `struct task_struct` is never read bytewise. -/
def kernelByte (s : State) (frame place : Nat) : Byte :=
  match taskOfPage frame with
  | some task =>
      if OFFSET_P_STATS ≤ place ∧ place < OFFSET_P_STATS + SIZEOF_STATS then
        byteOfWords (s.task task).pStats.words (place - OFFSET_P_STATS)
      else byteOfWords [s.cpu.mem (BitVec.ofNat 32 (frame * PAGE_SIZE + place / 4 * 4))] (place % 4)
  | none => byteOfWords [s.cpu.mem (BitVec.ofNat 32 (frame * PAGE_SIZE + place / 4 * 4))] (place % 4)

/-- `copy_data(current(), uchild, sizeof(union task_union))`: the structure, the
list pointers in it and the stack above it. -/
def copyTaskUnion (s : State) (parent child : Task) : State :=
  { s with
    task := Function.update s.task child (s.task parent)
    links := { next := Function.update s.links.next (.node child) (s.links.next (.node parent))
               prev := Function.update s.links.prev (.node child) (s.links.prev (.node parent)) }
    cpu := { s.cpu with
      mem := fun address =>
        if PH_PAGE address = taskPage child then
          s.cpu.mem (taskAddr parent (address.toNat % PAGE_SIZE))
        else s.cpu.mem address } }

/-- The child with its parent's structure and stack, and a directory of its own. -/
def forkCopy (s : State) (uchild : Task) : State :=
  (s.copyTaskUnion s.current uchild).allocateDIR uchild

/-- The address space of the child, once its frames are allocated. -/
def forkMemory (s : State) (mm : Mm) (uchild : Task) : Mm :=
  let processPT := s.getPT uchild
  let parentPT := s.getPT s.current
  let mm := mm.sharePages processPT parentPT 0 NUM_PAG_KERNEL
  let mm := mm.sharePages processPT parentPT PAG_LOG_INIT_CODE NUM_PAG_CODE
  let mm := mm.copyPages s.kernelByte processPT parentPT NUM_PAG_DATA
  mm.setCr3 (s.getDIR s.current)

/-- The child's stack: `get_ebp()` of the parent moved to the copy, and the two
words that make `switch_stack` return into `ret_from_fork`. -/
def forkStack (s : State) (uchild : Task) : State :=
  let registerEbp := s.cpu.ebp
  let registerEbp := registerEbp - taskAddr s.current 0 + taskAddr uchild 0
  let registerEsp := registerEbp + 4
  let tempEbp := s.cpu.mem registerEbp
  let registerEsp := registerEsp - 4
  let s := { s with cpu := s.cpu.store registerEsp Image.retFromFork }
  let registerEsp := registerEsp - 4
  let s := { s with cpu := s.cpu.store registerEsp tempEbp }
  let s := s.setTask uchild fun t => { t with registerEsp := registerEsp }
  let first := { s.cpu with
    esp := registerEsp + 8, ebp := tempEbp, eip := Image.retFromFork }
  { s with saved := Function.update s.saved uchild (.built first) }

def forkFinish (s : State) (uchild : Task) : Result × State :=
  let s := { s with globalPID := s.globalPID + 1 }
  let s := s.setTask uchild fun t => { t with PID := s.globalPID, state := .ST_READY }
  let s := s.forkStack uchild
  let s := s.initStats uchild
  let s := s.setState uchild .ST_READY
  let s := s.listAddTail (.node uchild) .readyqueue
  (.ok (s.task uchild).PID, s)

/-- `sys_fork` from the end of its allocation loop. -/
def forkAllocated (s : State) (lhcurrent : Link) : Except (Mm × Nat) Mm → Result × State
  | .error (mm, pag) =>
      let processPT := s.getPT (listHeadToTaskStruct lhcurrent)
      let s := { s with mm := mm.freeData processPT pag }
      (.error EAGAIN, s.listAddTail lhcurrent .freequeue)
  | .ok mm =>
      let uchild := listHeadToTaskStruct lhcurrent
      { s with mm := s.forkMemory mm uchild }.forkFinish uchild

/-- `sys_fork` from the moment the slot is off the free queue. -/
def forkInto (s : State) (lhcurrent : Link) : Result × State :=
  let uchild := listHeadToTaskStruct lhcurrent
  let s := s.forkCopy uchild
  let processPT := s.getPT uchild
  s.forkAllocated lhcurrent (s.mm.allocData processPT NUM_PAG_DATA)

def sysFork (s : State) : Result × State :=
  if s.listEmpty .freequeue then (.error ENOMEM, s)
  else
    let lhcurrent := s.listFirst .freequeue
    (s.listDel lhcurrent).forkInto lhcurrent

def sysNiSyscall (s : State) : Result × State := (.error ENOSYS, s)

def sysGetpid (s : State) : Result × State := (.ok (s.task s.current).PID, s)

def sysGettime (s : State) : Result × State := (.ok s.zeosTicks, s)

def sysExit (s : State) : State :=
  let processPT := s.getPT s.current
  let s := { s with mm := s.mm.freeData processPT NUM_PAG_DATA }
  let s := s.listAddTail (.node s.current) .freequeue
  let s := s.setTask s.current fun t => { t with PID := -1 }
  s.schedNextRr

def sysYield (s : State) : Result × State := (.ok 0, s.forceTaskSwitch)

def sysGetStats (s : State) (pid st : DWord) : Result × State :=
  if accessOk VERIFY_WRITE st (BitVec.ofNat 32 SIZEOF_STATS) = false then (.error EFAULT, s)
  else if pid.slt 0 then (.error EINVAL, s)
  else
    match (List.finRange NR_TASKS).find? fun i => (s.task i).PID = pid with
    | none => (.error ESRCH, s)
    | some i =>
        let s := s.setStats i fun stats => { stats with remainingTicks := s.remainingQuantum }
        let (_, mm) := copyToUser (Mm.bus s.kernelByte) (taskAddr i OFFSET_P_STATS) st
          SIZEOF_STATS s.mm
        (.ok 0, { s with mm := mm })

end State

end

end Zeos
