import Zeos.Kernel.Sched

/-!
# Boot

`init_mm`, `init_sched`, `init_idle` and `init_task1`, in the order `main` calls
them and on whatever memory holds before. What `main` then copies into the user
pages is part of the arbitrary contents of the frames.
-/

namespace Zeos

open Library Library.X86

section

variable [image : Image]

namespace Mm

/-- What `init_table_pages` puts at a page: pages equal frames in the kernel half,
but for the page of the null pointer and the two around the task array. -/
def initTableEntry (page : Nat) : PageTableEntry :=
  if page = 0 ∨ NUM_PAG_KERNEL ≤ page then .zero
  else
    { present := page ≠ image.protectedTasks ∧ page ≠ image.protectedTasks + 11
      rw := true, user := false, pbaseAddr := page }

def initTablePages (mm : Mm) : Mm :=
  { mm with pagusrTable := fun _ => initTableEntry }

def initFrames (mm : Mm) : Mm :=
  { mm with
    physMem := fun frame =>
      if frame < NUM_PAG_KERNEL then USED_FRAME
      else if frame < TOTAL_PAGES then FREE_FRAME else mm.physMem frame }

def initDirPages (mm : Mm) : Mm :=
  { mm with
    dirPages := fun i => { present := true, rw := true, user := true, pbaseAddr := i } }

/-- A frame for page `page`, with the entry `set_user_pages` builds for it. A
failed allocation would leave `-1` in the 20 bits of the address. -/
def setUserPage (mm : Mm) (processPT : Task) (page : Nat) (rw : Bool) : Mm :=
  let (newPhPag, mm) := mm.allocFrame
  mm.setEntry processPT page
    { present := true, rw := rw, user := true, pbaseAddr := newPhPag.getD (2 ^ 20 - 1) }

def setUserRange (processPT : Task) (first : Nat) (rw : Bool) : Nat → Mm → Mm
  | 0, mm => mm
  | pag + 1, mm => (setUserRange processPT first rw pag mm).setUserPage processPT (first + pag) rw

def setUserPages (mm : Mm) (processPT : Task) : Mm :=
  setUserRange processPT PAG_LOG_INIT_DATA true NUM_PAG_DATA
    (setUserRange processPT PAG_LOG_INIT_CODE false NUM_PAG_CODE mm)

end Mm

namespace State

def initMm (s : State) : State :=
  let s := { s with mm := s.mm.initTablePages.initFrames.initDirPages }
  let s := s.allocateDIR 0
  s.setCr3 (s.getDIR 0)

def freeSlot (s : State) (i : Task) : State :=
  (s.setTask i fun t => { t with PID := -1 }).listAddTail (.node i) .freequeue

def initFreequeue (s : State) : State :=
  (List.finRange NR_TASKS).foldl freeSlot (s.initListHead .freequeue)

def initSched (s : State) : State := s.initFreequeue.initListHead .readyqueue

def initBlocking (s : State) : State :=
  let own (old : Link → Option Link) : Link → Option Link
    | .head (.blocking n) => some (.head (.blocking n))
    | link => old link
  { s with links := { next := own s.links.next, prev := own s.links.prev } }

/-- `init_idle`, once it has the slot `c`. -/
def idleInto (s : State) (c : Task) : State :=
  let s := s.setTask c fun t => { t with PID := 0, totalQuantum := DEFAULT_QUANTUM }
  let s := s.initStats c
  let s := s.allocateDIR c
  let s := { s with cpu := s.cpu.store (taskAddr c (PAGE_SIZE - 4)) image.cpuIdle }
  let s := { s with cpu := s.cpu.store (taskAddr c (PAGE_SIZE - 8)) 0 }
  let s := s.setTask c fun t => { t with registerEsp := taskAddr c (PAGE_SIZE - 8) }
  let first := { s.cpu with esp := taskAddr c PAGE_SIZE, ebp := 0, eip := image.cpuIdle }
  { s with idleTask := c, saved := Function.update s.saved c (.built first) }

def initIdle (s : State) : State :=
  let l := s.listFirst .freequeue
  (s.listDel l).idleInto (listHeadToTaskStruct l)

/-- `init_task1`, once it has the slot `c`; the return to user mode that follows
makes the task current. -/
def task1Into (s : State) (c : Task) : State :=
  let s := s.setTask c fun t =>
    { t with PID := 1, totalQuantum := DEFAULT_QUANTUM, state := .ST_RUN }
  let s := { s with remainingQuantum := (s.task c).totalQuantum }
  let s := s.initStats c
  let s := s.allocateDIR c
  let s := { s with mm := s.mm.setUserPages (s.getPT c) }
  let s := { s with esp0 := taskAddr c PAGE_SIZE }
  { s.setCr3 (s.getDIR c) with current := c }

def initTask1 (s : State) : State :=
  let l := s.listFirst .freequeue
  (s.listDel l).task1Into (listHeadToTaskStruct l)

def load (s : State) : State :=
  { s with
    globalPID := 1000, zeosTicks := 0, remainingQuantum := 0, trace := []
    mm := { s.mm with freed := [], fault := false } }

def prepare (s : State) : State := s.load.initMm.initSched.initBlocking

/-- `main`, up to user mode. Runs start here, and so do their histories. -/
def boot (s : State) : State := { s.prepare.initIdle.initTask1 with trace := [] }

end State

end

end Zeos
