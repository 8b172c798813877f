import Zeos.Space.Fork
import Zeos.Stacks.Child

/-!
# Reused slots and frames

Nothing is cleared when a process ends. What it leaves behind stays in its slot, in
the table of the slot and in the frames it gave back, until `sys_fork` takes them
for a child. Two kernels that differ in such remains only do not differ in the child.
-/

namespace Zeos

open Library

namespace Mm

variable {a b : Mm}

def OwnPage (page : Nat) : Prop :=
  PAG_LOG_INIT_CODE ≤ page ∧ page < PAG_LOG_INIT_DATA + NUM_PAG_DATA

/-- Memory agrees, but for the code and data entries in the tables of tasks that are
not live, and for the contents of free frames. -/
structure Alike (live : Task → Prop) (a b : Mm) : Prop where
  physMem : a.physMem = b.physMem
  dirPages : a.dirPages = b.dirPages
  cr3 : a.cr3 = b.cr3
  tables : ∀ t page, live t ∨ ¬ OwnPage page → a.pagusrTable t page = b.pagusrTable t page
  frames : ∀ frame, NUM_PAG_KERNEL ≤ frame → frame < TOTAL_PAGES → a.physMem frame ≠ FREE_FRAME →
    ∀ place < PAGE_SIZE, a.frames frame place = b.frames frame place

theorem setUserPage_entry (mm : Mm) (table : Task) (page : Nat) (rw : Bool) (t : Task) (place : Nat) :
    (mm.setUserPage table page rw).pagusrTable t place =
      if t = table ∧ place = page then
        { present := true, rw := rw, user := true, pbaseAddr := mm.allocFrame.1.getD (2 ^ 20 - 1) }
      else mm.pagusrTable t place := by
  have tables : mm.allocFrame.2.pagusrTable = mm.pagusrTable := by
    unfold allocFrame
    split <;> rfl
  rw [setUserPage, setEntry_pagusrTable, tables]

theorem allocFrame_alike (same : a.physMem = b.physMem) :
    a.allocFrame.1 = b.allocFrame.1 ∧ a.allocFrame.2.physMem = b.allocFrame.2.physMem := by
  unfold allocFrame
  rw [same]
  split
  · exact ⟨rfl, rfl⟩
  · exact ⟨rfl, same⟩

/-- Which frames are handed out depends on the frame map only. -/
theorem setUserRange_alike (same : a.physMem = b.physMem) (table : Task) (first : Nat) (rw : Bool)
    (count : Nat) :
    (setUserRange table first rw count a).physMem = (setUserRange table first rw count b).physMem ∧
      ∀ pag < count, (setUserRange table first rw count a).pagusrTable table (first + pag) =
        (setUserRange table first rw count b).pagusrTable table (first + pag) := by
  induction count with
  | zero => exact ⟨same, fun _ bound => absurd bound (Nat.not_lt_zero _)⟩
  | succ count inductionHypothesis =>
      obtain ⟨map, entries⟩ := inductionHypothesis
      obtain ⟨frame, next⟩ := allocFrame_alike map
      refine ⟨next, fun pag bound => ?_⟩
      simp only [setUserRange]
      rw [setUserPage_entry, setUserPage_entry, frame]
      split
      · rfl
      · rename_i earlier
        have notLast : pag ≠ count := fun last => earlier ⟨rfl, by rw [last]⟩
        exact entries pag (by omega)

variable [Image] {code : Nat → Nat} {process : Task → Prop} {idle parent child : Task}

/-- The copy loop does not touch the entries that the allocation made. -/
theorem Space.duplicate_frames (space : a.Space code process idle) (live : process parent)
    (free : ¬ process child) (coherent : a.Coherent) (loaded : a.cr3 = parent)
    (kernel : Nat → Nat → Byte) :
    (Mm.duplicate kernel parent child a).physMem =
        (setUserRange child PAG_LOG_INIT_DATA true NUM_PAG_DATA a).physMem ∧
      ∀ pag < NUM_PAG_DATA,
        (Mm.duplicate kernel parent child a).pagusrTable child (PAG_LOG_INIT_DATA + pag) =
          (setUserRange child PAG_LOG_INIT_DATA true NUM_PAG_DATA a).pagusrTable child
            (PAG_LOG_INIT_DATA + pag) := by
  have apart : parent ≠ child := fun same => free (same ▸ live)
  have mapped := space.mapChild live free
  have ready := space.copyReady live free coherent loaded mapped
  have copies := ready.copyPages kernel (Nat.le_refl NUM_PAG_DATA)
  obtain ⟨copiedMap, copiedTables⟩ := copies.maps
  obtain ⟨map, entries⟩ := mapChild_data apart a
  constructor
  · rw [Mm.duplicate, setCr3_physMem, copiedMap]
    exact map
  · intro pag bound
    rw [Mm.duplicate, setCr3_pagusrTable, copiedTables]
    exact entries _ (Nat.le_add_right _ _)

section

variable {first second : Nat → Nat} {live : Task → Prop} {x y : Mm}

theorem Alike.child_entry (alike : a.Alike live b) (parentLive : live parent)
    (space : a.Space first process idle) (other : b.Space second process idle)
    (member : process parent) (done : a.Duplicates first process parent child x)
    (otherDone : b.Duplicates second process parent child y)
    (data : ∀ pag < NUM_PAG_DATA, x.pagusrTable child (PAG_LOG_INIT_DATA + pag) =
      y.pagusrTable child (PAG_LOG_INIT_DATA + pag)) (page : Nat) :
    x.pagusrTable child page = y.pagusrTable child page := by
  cases pageKind page with
  | kernel low => rw [done.forked.kernel page low, otherDone.forked.kernel page low]
  | @code pag bound =>
      have base := space.code_base member bound
      rw [getFrame, alike.tables parent _ (.inl parentLive)] at base
      rw [done.forked.code pag bound, otherDone.forked.code pag bound, ← base,
        ← other.code_base member bound]
      rfl
  | @data pag bound => exact data pag bound
  | beyond high =>
      rw [done.beyond page high, otherDone.beyond page high]
      exact alike.tables child page (.inr fun own => absurd own.2 (Nat.not_lt.mpr high))

/-- And their frames the same bytes: a copy of the parent's, or what was there before. -/
theorem Alike.child_frame (alike : a.Alike live b) (parentLive : live parent)
    (space : a.Space first process idle) (member : process parent)
    (done : a.Duplicates first process parent child x)
    (otherDone : b.Duplicates second process parent child y)
    (data : ∀ pag < NUM_PAG_DATA, x.pagusrTable child (PAG_LOG_INIT_DATA + pag) =
      y.pagusrTable child (PAG_LOG_INIT_DATA + pag))
    {frame : Nat} (low : NUM_PAG_KERNEL ≤ frame) (high : frame < TOTAL_PAGES)
    (marked : x.physMem frame ≠ FREE_FRAME) {place : Nat} (inside : place < PAGE_SIZE) :
    x.frames frame place = y.frames frame place := by
  by_cases mine : ∃ pag < NUM_PAG_DATA, frame = x.getFrame child (PAG_LOG_INIT_DATA + pag)
  · obtain ⟨pag, bound, rfl⟩ := mine
    have sameFrame : x.getFrame child (PAG_LOG_INIT_DATA + pag) =
        y.getFrame child (PAG_LOG_INIT_DATA + pag) :=
      congrArg PageTableEntry.pbaseAddr (data pag bound)
    have source : a.getFrame parent (PAG_LOG_INIT_DATA + pag) =
        b.getFrame parent (PAG_LOG_INIT_DATA + pag) :=
      congrArg PageTableEntry.pbaseAddr (alike.tables parent _ (.inl parentLive))
    have used := space.data_inUse member bound
    rw [done.bytes pag bound place inside, sameFrame, otherDone.bytes pag bound place inside,
      ← source]
    refine alike.frames _ used.1 used.2.1 ?_ place inside
    rw [used.2.2]
    decide
  · have notMine : ∀ pag < NUM_PAG_DATA, frame ≠ x.getFrame child (PAG_LOG_INIT_DATA + pag) :=
      fun pag bound same => mine ⟨pag, bound, same⟩
    have notYours : ∀ pag < NUM_PAG_DATA, frame ≠ y.getFrame child (PAG_LOG_INIT_DATA + pag) := by
      intro pag bound same
      rw [getFrame, ← data pag bound] at same
      exact notMine pag bound same
    rw [done.others frame low notMine, otherDone.others frame low notYours]
    refine alike.frames frame low high ?_ place inside
    have used : x.InUse frame := ⟨low, high, (done.pool.marked frame low high).resolve_left marked⟩
    obtain ⟨owner, old | ⟨pag, bound, _, same⟩⟩ := (done.pool.accounted.used_iff frame).mp used
    · have before := space.pool.inUse old
      rw [before.2.2]
      decide
    · exact absurd same (notMine pag bound)

theorem Alike.duplicate (alike : a.Alike live b)
    (aSpace : a.Space first process idle) (bSpace : b.Space second process idle)
    (member : process parent) (processes : ∀ t, process t → live t) (free : ¬ process child)
    (aCoherent : a.Coherent) (bCoherent : b.Coherent) (loaded : a.cr3 = parent)
    (aKernel bKernel : Nat → Nat → Byte) :
    (Mm.duplicate aKernel parent child a).Alike (fun t => live t ∨ t = child)
      (Mm.duplicate bKernel parent child b) := by
  have parentLive := processes parent member
  have bLoaded : b.cr3 = parent := alike.cr3.symm.trans loaded
  have aDone := aSpace.duplicate member free aCoherent loaded aKernel
  have bDone := bSpace.duplicate member free bCoherent bLoaded bKernel
  obtain ⟨aMap, aFrames⟩ := aSpace.duplicate_frames member free aCoherent loaded aKernel
  obtain ⟨bMap, bFrames⟩ := bSpace.duplicate_frames member free bCoherent bLoaded bKernel
  obtain ⟨map, frames⟩ :=
    setUserRange_alike alike.physMem child PAG_LOG_INIT_DATA true NUM_PAG_DATA
  generalize Mm.duplicate aKernel parent child a = x at *
  generalize Mm.duplicate bKernel parent child b = y at *
  obtain ⟨_, _, _, _, aShape⟩ := aDone.same
  obtain ⟨_, _, _, _, bShape⟩ := bDone.same
  have data : ∀ pag < NUM_PAG_DATA, x.pagusrTable child (PAG_LOG_INIT_DATA + pag) =
      y.pagusrTable child (PAG_LOG_INIT_DATA + pag) := fun pag bound =>
    (aFrames pag bound).trans ((frames pag bound).trans (bFrames pag bound).symm)
  constructor
  · exact aMap.trans (map.trans bMap.symm)
  · rw [aShape, bShape]
    exact alike.dirPages
  · rw [aShape, bShape]
  · intro t page known
    by_cases isChild : t = child
    · subst isChild
      exact alike.child_entry parentLive aSpace bSpace member aDone bDone data page
    · rw [aDone.tables t isChild, bDone.tables t isChild]
      exact alike.tables t page (known.imp_left fun live => live.resolve_right isChild)
  · intro frame low high marked place inside
    exact alike.child_frame parentLive aSpace member aDone bDone data low high marked inside

end

end Mm

section

variable [Image]

namespace State

variable {a b : State}

/-- Two kernels agree, but for what terminated tasks left behind. -/
structure Alike (a b : State) : Prop where
  links : a.links = b.links
  current : a.current = b.current
  idleTask : a.idleTask = b.idleTask
  remainingQuantum : a.remainingQuantum = b.remainingQuantum
  globalPID : a.globalPID = b.globalPID
  zeosTicks : a.zeosTicks = b.zeosTicks
  clock : a.clock = b.clock
  esp0 : a.esp0 = b.esp0
  task : ∀ t, a.Live t → a.task t = b.task t
  stack : ∀ address, (∀ t, PH_PAGE address = taskPage t → a.Live t) →
    a.cpu.mem address = b.cpu.mem address
  mm : a.mm.Alike a.Live b.mm

theorem Alike.enterFork (alike : a.Alike b) (site : ForkSite) :
    (a.enterFork site).Alike (b.enterFork site) where
  links := alike.links
  current := alike.current
  idleTask := alike.idleTask
  remainingQuantum := alike.remainingQuantum
  globalPID := alike.globalPID
  zeosTicks := alike.zeosTicks
  clock := alike.clock
  esp0 := alike.esp0
  task := alike.task
  stack address known := by
    show (if PH_PAGE address = taskPage a.current then _ else a.cpu.mem address) =
      if PH_PAGE address = taskPage b.current then _ else b.cpu.mem address
    rw [alike.current]
    split
    · rfl
    · exact alike.stack address known
  mm := alike.mm

def childTask (s : State) (child : Task) (depth : Nat) : TaskStruct :=
  { s.task s.current with
    dirPagesBaseAddr := child, PID := s.globalPID + 1, state := .ST_READY
    registerEsp := taskAddr child (depth - 4)
    pStats := ⟨0, 0, 0, 0, s.clock 0, 0, s.clock 1⟩ }

variable {s : State} {child : Task} {depth : Nat}

structure MakesChild (s : State) (child : Task) (depth : Nat) (mm : Mm) (after : State) : Prop where
  links : after.links = Zeos.listAddTail
    ((s.listDel (.node child)).copyTaskUnion s.current child).links (.node child) (.head .readyqueue)
  current : after.current = s.current
  idleTask : after.idleTask = s.idleTask
  remainingQuantum : after.remainingQuantum = s.remainingQuantum
  globalPID : after.globalPID = s.globalPID + 1
  zeosTicks : after.zeosTicks = s.zeosTicks
  clock : after.clock = fun n => s.clock (n + 2)
  esp0 : after.esp0 = s.esp0
  own : after.task child = s.childTask child depth
  task : ∀ t, t ≠ child → after.task t = s.task t
  stack : after.cpu.mem = forkWords (forkMapped s child mm) child depth
  mm : after.mm = (forkMapped s child mm).mm

theorem forkMapped_child (s : State) (child : Task) (mm : Mm) :
    (forkMapped s child mm).task child = { s.task s.current with dirPagesBaseAddr := child } := by
  simp [forkMapped, forkCopied, forkCopy, copyTaskUnion, allocateDIR, setTask, listDel]

theorem forkFinish_own (s : State) (child : Task) : (s.forkFinish child).2.task child =
    { s.task child with
      PID := s.globalPID + 1, state := .ST_READY
      registerEsp := ((s.forkStack child).task child).registerEsp
      pStats := ⟨0, 0, 0, 0, s.clock 0, 0, s.clock 1⟩ } := by
  simp [forkFinish, forkStack, listAddTail, setState, initStats, setStats, getTicks, setTask]

theorem forkFinish_makesChild (s : State) (child : Task) (mm : Mm)
    (ebp : s.cpu.ebp = taskAddr s.current depth) (room : 60 ≤ depth) (fits : depth + 4 ≤ PAGE_SIZE) :
    MakesChild s child depth mm ((forkMapped s child mm).forkFinish child).2 := by
  obtain ⟨before, finish⟩ := forkFinish_eq (forkMapped s child mm) child
  have result := forkStack_eq (forkMapped s child mm) child ebp room fits
  constructor
  · rfl
  · rfl
  · rfl
  · rfl
  · rfl
  · rfl
  · rfl
  · rfl
  · have number : (forkMapped s child mm).globalPID = s.globalPID := rfl
    have readings : (forkMapped s child mm).clock = s.clock := rfl
    have pointer : (((forkMapped s child mm).forkStack child).task child).registerEsp =
        taskAddr child (depth - 4) := by
      rw [result]
      simp [setTask]
    rw [forkFinish_own, pointer, number, readings, forkMapped_child]
    rfl
  · intro t other
    rw [finish.result]
    show before.task t = _
    rw [finish.task t other, ← forkCopied_task s other]
    rfl
  · rw [finish.result]
    show before.cpu.mem = _
    rw [finish.cpu, result]
  · rw [finish.result]
    exact finish.mm

theorem Alike.forkMapped_mem (alike : a.Alike b) (parent : a.Live a.current) (child : Task)
    (first second : Mm) (address : DWord) (known : ∀ t, PH_PAGE address = taskPage t → a.Live t ∨ t = child) :
    (forkMapped a child first).cpu.mem address = (forkMapped b child second).cpu.mem address := by
  show (if PH_PAGE address = taskPage child then
      a.cpu.mem (taskAddr a.current (address.toNat % PAGE_SIZE)) else a.cpu.mem address) =
    if PH_PAGE address = taskPage child then
      b.cpu.mem (taskAddr b.current (address.toNat % PAGE_SIZE)) else b.cpu.mem address
  split
  · rw [← alike.current]
    refine alike.stack _ fun t page => ?_
    rw [PH_PAGE_taskAddr _ (Nat.mod_lt _ (by decide))] at page
    rw [← taskPage_injective page]
    exact parent
  · rename_i other
    refine alike.stack address fun t page => (known t page).resolve_right fun same => other ?_
    rw [page, same]

theorem Alike.makesChild (alike : a.Alike b) {first second : Mm} {x y : State}
    (aMade : MakesChild a child depth first x) (bMade : MakesChild b child depth second y)
    (fits : depth + 4 ≤ PAGE_SIZE) (parent : a.Live a.current)
    (live : ∀ t, x.Live t ↔ a.Live t ∨ t = child)
    (memory : (forkMapped a child first).mm.Alike (fun t => a.Live t ∨ t = child)
      (forkMapped b child second).mm) : x.Alike y where
  links := by
    rw [aMade.links, bMade.links]
    simp only [copyTaskUnion, listDel, alike.links, alike.current]
  current := aMade.current.trans (alike.current.trans bMade.current.symm)
  idleTask := aMade.idleTask.trans (alike.idleTask.trans bMade.idleTask.symm)
  remainingQuantum :=
    aMade.remainingQuantum.trans (alike.remainingQuantum.trans bMade.remainingQuantum.symm)
  globalPID := by rw [aMade.globalPID, bMade.globalPID, alike.globalPID]
  zeosTicks := aMade.zeosTicks.trans (alike.zeosTicks.trans bMade.zeosTicks.symm)
  clock := by rw [aMade.clock, bMade.clock, alike.clock]
  esp0 := aMade.esp0.trans (alike.esp0.trans bMade.esp0.symm)
  task t alive := by
    by_cases isChild : t = child
    · rw [isChild, aMade.own, bMade.own, childTask, childTask, alike.task _ parent, alike.current,
        alike.globalPID, alike.clock]
    · rw [aMade.task t isChild, bMade.task t isChild]
      exact alike.task t (((live t).mp alive).resolve_right isChild)
  stack address known := by
    have copied := alike.forkMapped_mem parent child first second
    have word : (forkMapped a child first).cpu.mem (taskAddr child depth) =
        (forkMapped b child second).cpu.mem (taskAddr child depth) := by
      refine copied _ fun t page => .inr ?_
      rw [PH_PAGE_taskAddr _ (by omega)] at page
      exact (taskPage_injective page).symm
    rw [aMade.stack, bMade.stack, forkWords, forkWords, Function.update_apply, Function.update_apply,
      Function.update_apply, Function.update_apply, word]
    split
    · rfl
    · split
      · rfl
      · exact copied address fun t page => (live t).mp (known t page)
  mm := by
    rw [aMade.mm, bMade.mm]
    exact ⟨memory.physMem, memory.dirPages, memory.cr3,
      fun t page known => memory.tables t page (known.imp_left (live t).mp), memory.frames⟩

end State

variable {installed : Installed} {queues later : Queues} {code : Nat → Nat} {a b s : State}
  {child t : Task} {memory other : State}

theorem Spaced.fork_first (spaced : Spaced code s queues) (sched : Sched installed s queues)
    (process : s.current ≠ s.idleTask) {rest : List Task} (first : queues.on .freequeue = child :: rest) :
    ∃ mm, (Zeos.forkMapped s child mm).mm =
        Mm.duplicate (forkCopied s child).kernelByte s.current child s.mm ∧
      s.sysFork = (Zeos.forkMapped s child mm).forkFinish child := by
  have free : child ∈ queues.on .freequeue := Queues.mem_of_first first
  obtain ⟨mm, allocated, memory⟩ := spaced.forkMapped_mm sched process free
  rcases sysFork_cases sched.represents with ⟨none, _⟩ | ⟨found, others, same, result⟩
  · rw [none] at first
    exact absurd first nofun
  · obtain rfl : found = child := (List.cons.inj (same.symm.trans first)).1
    exact ⟨mm, memory, result.trans (forkInto_ok allocated)⟩

theorem Spaced.fork_child (spaced : Spaced code s queues) (sched : Sched installed s queues)
    (process : s.current ≠ s.idleTask) {rest : List Task} (first : queues.on .freequeue = t :: rest)
    (after : Sched installed s.sysFork.2 later)
    (slots : ∀ u, u ∈ later.on .freequeue ↔ u ≠ child ∧ u ∈ queues.on .freequeue) : t = child := by
  have free : t ∈ queues.on .freequeue := Queues.mem_of_first first
  obtain ⟨mm, _, result⟩ := spaced.fork_first sched process first
  have pushed := sched.forked free (queues.off_remove_self t) mm
  rw [← result] at pushed
  have same := after.represents.unique pushed.represents .freequeue
  by_contra apart
  have still := (slots t).mpr ⟨apart, free⟩
  rw [same, Queues.mem_push, Queues.mem_remove] at still
  simp at still

/-- What the free slots and frames hold makes no difference to a child. -/
theorem State.Alike.fork {others : Queues} {otherCode : Nat → Nat} (alike : a.Alike b)
    (aSched : Sched installed a queues) (bSched : Sched installed b others)
    (aSpaced : Spaced code a queues) (bSpaced : Spaced otherCode b others)
    (process : a.current ≠ a.idleTask) {depth : Nat} (aEbp : a.cpu.ebp = taskAddr a.current depth)
    (bEbp : b.cpu.ebp = taskAddr b.current depth) (room : 60 ≤ depth) (fits : depth + 4 ≤ PAGE_SIZE)
    {rest : List Task} (first : queues.on .freequeue = child :: rest)
    (after : Sched installed a.sysFork.2 later)
    (slots : ∀ t, t ∈ later.on .freequeue ↔ t ≠ child ∧ t ∈ queues.on .freequeue) :
    a.sysFork.2.Alike b.sysFork.2 ∧ a.sysFork.1 = b.sysFork.1 := by
  have free : child ∈ queues.on .freequeue := Queues.mem_of_first first
  have sameQueues : Represents b.links queues := alike.links ▸ aSched.represents
  have same := sameQueues.unique bSched.represents
  have bProcess : b.current ≠ b.idleTask := by
    rw [← alike.current, ← alike.idleTask]
    exact process
  have bFirst : others.on .freequeue = child :: rest := (same .freequeue).symm.trans first
  have parent : a.Live a.current := aSched.live_iff.mpr (aSched.current_off .freequeue)
  obtain ⟨mm, aMemory, aResult⟩ := aSpaced.fork_first aSched process first
  obtain ⟨otherMm, bMemory, bResult⟩ := bSpaced.fork_first bSched bProcess bFirst
  have aMade := State.forkFinish_makesChild a child mm aEbp room fits
  have bMade := State.forkFinish_makesChild b child otherMm bEbp room fits
  have live : ∀ t, a.sysFork.2.Live t ↔ a.Live t ∨ t = child := by
    intro t
    rw [after.live_iff, aSched.live_iff, slots, not_and_or, not_not, or_comm]
  have notLive := (aSched.free_apart free).2.2
  have processes : ∀ t, queues.Process a.idleTask t → a.Live t := fun t known =>
    aSched.live_iff.mpr known.1
  have bSpace : b.mm.Space otherCode (queues.Process a.idleTask) a.idleTask := by
    rw [alike.idleTask]
    refine bSpaced.space.congr (.refl _) fun t => ?_
    rw [Queues.Process, Queues.Process, same]
  have memory := alike.mm.duplicate aSpaced.space bSpace ⟨aSched.current_off .freequeue, process⟩
    processes notLive aSpaced.coherent bSpaced.coherent aSpaced.loaded
    (forkCopied a child).kernelByte (forkCopied b child).kernelByte
  rw [← aMemory] at memory
  rw [alike.current, ← bMemory] at memory
  have done := forkFinish_ok (Zeos.forkMapped a child mm) child
  have bDone := forkFinish_ok (Zeos.forkMapped b child otherMm) child
  rw [← aResult] at aMade done
  rw [← bResult] at bMade bDone
  refine ⟨alike.makesChild aMade bMade fits parent live memory, ?_⟩
  rw [done, bDone, aMade.own, bMade.own]
  show Except.ok (a.globalPID + 1) = Except.ok (b.globalPID + 1)
  rw [alike.globalPID]

end

end Zeos
