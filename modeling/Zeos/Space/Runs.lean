import Zeos.Schedule.Effects
import Zeos.Space.Start

/-!
# Address spaces over whole runs

`Spaced` ties memory to the slots: the processes are the tasks whose slot is
neither free nor idle's, each has the directory of its slot, and the directory of
the running task is loaded. Every step keeps it, and from such a state `sys_fork`
never runs out of frames.
-/

namespace Zeos

open Library

def Queues.Process (queues : Queues) (idle t : Task) : Prop :=
  t ∉ queues.on .freequeue ∧ t ≠ idle

section

variable [Image]

structure Spaced (code : Nat → Nat) (s : State) (queues : Queues) : Prop where
  space : s.mm.Space code (queues.Process s.idleTask) s.idleTask
  dirs : ∀ t ∉ queues.on .freequeue, (s.task t).dirPagesBaseAddr = t
  loaded : s.mm.cr3 = s.current
  coherent : s.mm.Coherent

variable {installed : Installed} {memory s after : State} {queues later : Queues} {op : Op}
  {code : Nat → Nat} {child : Task} {mm : Mm} {back : Prop}

omit [Image] in
theorem SameFree.process (free : SameFree queues later) (idle t : Task) :
    later.Process idle t ↔ queues.Process idle t := by
  rw [Queues.Process, Queues.Process, free t]

theorem Spaced.quiet (spaced : Spaced code s queues) (quiet : s.Quiet after)
    (free : SameFree queues later) : Spaced code after later where
  space := by
    rw [quiet.mm, quiet.idleTask]
    exact spaced.space.congr (.refl s.mm) (free.process s.idleTask)
  dirs t notFree := by
    rw [quiet.dir]
    exact spaced.dirs t fun inFree => notFree ((free t).mpr inFree)
  loaded := by
    rw [quiet.mm, quiet.current]
    exact spaced.loaded
  coherent := by
    rw [quiet.mm]
    exact spaced.coherent

omit [Image] in
theorem Mm.coherent_setCr3 (mm : Mm) (dir : Task) : (mm.setCr3 dir).Coherent :=
  fun _ member => absurd member List.not_mem_nil

omit [Image] in
theorem Mm.getFrame_setCr3 (mm : Mm) (dir table : Task) (page : Nat) :
    (mm.setCr3 dir).getFrame table page = mm.getFrame table page := rfl

theorem Spaced.taskSwitch (space : s.mm.Space code (queues.Process s.idleTask) s.idleTask)
    (dirs : ∀ t ∉ queues.on .freequeue, (s.task t).dirPagesBaseAddr = t) {t : Task}
    (notFree : t ∉ queues.on .freequeue) : Spaced code (s.taskSwitch t) queues := by
  obtain ⟨_, current, idle, memory⟩ := s.taskSwitch_frame t
  rw [dirs t notFree] at memory
  constructor
  · rw [memory, idle]
    exact space.congr ⟨rfl, rfl, rfl, rfl, rfl⟩ fun _ => .rfl
  · intro u notFree
    obtain ⟨registerEsp, same⟩ := s.taskSwitch_task t u
    rw [same]
    exact dirs u notFree
  · rw [memory, current]
    rfl
  · rw [memory]
    exact Mm.coherent_setCr3 _ _

theorem Spaced.handsOver (spaced : Spaced code s queues) (free : SameFree queues later)
    (handsOver : HandsOver installed back s after later) : Spaced code after later := by
  obtain ⟨middle, t, quiet, notFree, _, result⟩ := handsOver
  have ready := spaced.quiet quiet free
  rw [result]
  exact .taskSwitch ready.space ready.dirs notFree

theorem Spaced.leaves (spaced : Spaced code s queues)
    (leaves : Leaves installed s queues later after) : Spaced code after later := by
  obtain ⟨free, quiet | handsOver⟩ := leaves
  · exact spaced.quiet quiet free
  · exact spaced.handsOver free handsOver

theorem Spaced.touch (spaced : Spaced code s queues) {page : Nat} (mapped : s.Mapped page) :
    Spaced code { s with mm := (s.mm.translate page).2 } queues := by
  have maps : s.mm.Maps page
      (s.mm.pagusrTable (s.mm.dirPages s.mm.cr3).pbaseAddr page).pbaseAddr := by
    refine ⟨mapped, rfl, ?_⟩
    rintro entry member rfl
    exact (spaced.coherent entry member).2.symm
  obtain ⟨tlb, choice, result, kept⟩ := Mm.translate_of_maps maps
  rw [result]
  refine ⟨spaced.space.congr ⟨rfl, rfl, rfl, rfl, rfl⟩ fun _ => .rfl, spaced.dirs, spaced.loaded,
    fun entry member => ?_⟩
  rcases kept entry member with old | rfl
  · exact spaced.coherent entry old
  · exact ⟨mapped, rfl⟩

theorem Spaced.exits (spaced : Spaced code s queues) (sched : Sched installed s queues)
    (process : s.current ≠ s.idleTask) (exits : Exits s queues later after) :
    Spaced code after later := by
  obtain ⟨free, middle, t, quiet, notFree, result⟩ := exits
  have live : queues.Process s.idleTask s.current :=
    ⟨sched.current_off .freequeue, process⟩
  have table : s.getPT s.current = s.current := by
    rw [State.getPT, spaced.dirs _ live.1, spaced.space.rows]
  have freed := spaced.space.freeData live process.symm
  have memory : middle.mm = s.mm.freeData s.current NUM_PAG_DATA := by
    rw [quiet.mm]
    simp only [exitMemory, table]
  have idle : middle.idleTask = s.idleTask := quiet.idleTask
  rw [result]
  refine .taskSwitch ?_ ?_ notFree
  · rw [memory, idle]
    refine freed.congr (.refl _) fun u => ?_
    simp only [Queues.Process, free, not_or]
    exact and_right_comm
  · intro u notFree
    rw [quiet.dir]
    exact spaced.dirs u fun inFree => notFree ((free u).mpr (.inl inFree))

omit [Image] in
theorem Sched.free_apart (sched : Sched installed s queues) (free : child ∈ queues.on .freequeue) :
    s.current ≠ child ∧ s.idleTask ≠ child ∧ ¬ queues.Process s.idleTask child :=
  ⟨fun same => sched.current_off _ (same ▸ free), (sched.fits _ child free).symm,
    fun process => process.1 free⟩

theorem forkCopied_getPT (rows : (s.mm.dirPages child).pbaseAddr = child) :
    (forkCopied s child).getPT child = child := by
  have dir : ((forkCopied s child).task child).dirPagesBaseAddr = child := by
    simp [forkCopied, State.forkCopy, State.allocateDIR, State.setTask]
  rw [State.getPT, dir]
  exact rows

theorem forkCopied_task (s : State) {t : Task} (apart : t ≠ child) :
    (forkCopied s child).task t = s.task t := by
  simp [forkCopied, State.forkCopy, State.copyTaskUnion, State.allocateDIR, State.setTask,
    State.listDel, apart]

/-- The frames do not run out, and the child's address space is made out of its
parent's. -/
theorem Spaced.forkMapped_mm (spaced : Spaced code s queues) (sched : Sched installed s queues)
    (process : s.current ≠ s.idleTask) (free : child ∈ queues.on .freequeue) :
    ∃ mm, (forkCopied s child).mm.allocData ((forkCopied s child).getPT child) NUM_PAG_DATA =
        .ok mm ∧ (forkMapped s child mm).mm =
          Mm.duplicate (forkCopied s child).kernelByte s.current child s.mm := by
  obtain ⟨apart, _, notLive⟩ := sched.free_apart free
  have live : queues.Process s.idleTask s.current :=
    ⟨sched.current_off .freequeue, process⟩
  have allocated := spaced.space.pool.allocData child NUM_PAG_DATA (Nat.le_refl _)
    fun _ _ _ owns => notLive owns.1
  have childPT : (forkCopied s child).getPT child = child :=
    forkCopied_getPT (by rw [spaced.space.rows])
  have dir : ((forkCopied s child).task s.current).dirPagesBaseAddr = s.current := by
    rw [forkCopied_task s apart, spaced.dirs _ live.1]
  have parentPT : (forkCopied s child).getPT s.current = s.current := by
    rw [State.getPT, dir]
    exact congrArg DirEntry.pbaseAddr (spaced.space.rows s.current)
  refine ⟨_, by rw [childPT]; exact allocated, ?_⟩
  have current : (forkCopied s child).current = s.current := rfl
  simp only [Zeos.forkMapped, State.forkMemory, current, childPT, parentPT, State.getDIR, dir]
  rfl

theorem Spaced.forkMapped (spaced : Spaced code s queues) (sched : Sched installed s queues)
    (process : s.current ≠ s.idleTask) (free : child ∈ queues.on .freequeue) :
    ∃ mm, (forkCopied s child).mm.allocData ((forkCopied s child).getPT child) NUM_PAG_DATA =
        .ok mm ∧
      s.mm.Duplicates code (queues.Process s.idleTask) s.current child
        (forkMapped s child mm).mm := by
  obtain ⟨_, _, notLive⟩ := sched.free_apart free
  have live : queues.Process s.idleTask s.current :=
    ⟨sched.current_off .freequeue, process⟩
  obtain ⟨mm, allocated, memory⟩ := spaced.forkMapped_mm sched process free
  refine ⟨mm, allocated, ?_⟩
  rw [memory]
  exact spaced.space.duplicate live notLive spaced.coherent spaced.loaded _

theorem Spaced.forkFinish (spaced : Spaced code s queues) (sched : Sched installed s queues)
    (free : child ∈ queues.on .freequeue)
    (duplicates : s.mm.Duplicates code (queues.Process s.idleTask) s.current child
      (Zeos.forkMapped s child mm).mm)
    (slots : ∀ t, t ∈ later.on .freequeue ↔ t ≠ child ∧ t ∈ queues.on .freequeue) :
    ((Zeos.forkMapped s child mm).forkFinish child).2.mm = (Zeos.forkMapped s child mm).mm ∧
      Spaced code ((Zeos.forkMapped s child mm).forkFinish child).2 later := by
  obtain ⟨_, notIdle, notLive⟩ := sched.free_apart free
  obtain ⟨before, finish⟩ := forkFinish_eq (Zeos.forkMapped s child mm) child
  have memory := finish.mm
  have idle : before.idleTask = s.idleTask := finish.idleTask
  have current : before.current = s.current := finish.current
  have sameTask : ∀ t, ((Zeos.forkMapped s child mm).task t).dirPagesBaseAddr =
      (before.task t).dirPagesBaseAddr := by
    intro t
    by_cases isChild : t = child
    · rw [isChild, finish.dir]
    · rw [finish.task t isChild]
  obtain ⟨_, _, _, _, shape⟩ := duplicates.same
  rw [finish.result]
  refine ⟨memory, ?_, ?_, ?_, ?_⟩
  · show Mm.Space code before.mm (later.Process before.idleTask) before.idleTask
    rw [memory, idle]
    refine (spaced.space.forked notLive notIdle duplicates).congr (.refl _) fun t => ?_
    simp only [Queues.Process, slots, not_and_or, not_not]
    constructor
    · rintro ⟨rfl | notFree, process⟩
      · exact .inr rfl
      · exact .inl ⟨notFree, process⟩
    · rintro (⟨notFree, process⟩ | rfl)
      · exact ⟨.inr notFree, process⟩
      · exact ⟨.inl rfl, notIdle.symm⟩
  · intro t notFree
    show (before.task t).dirPagesBaseAddr = t
    rw [← sameTask]
    by_cases isChild : t = child
    · subst isChild
      simp [Zeos.forkMapped, forkCopied, State.forkCopy, State.allocateDIR, State.setTask]
    · show ((forkCopied s child).task t).dirPagesBaseAddr = t
      rw [forkCopied_task s isChild]
      exact spaced.dirs t fun inFree => notFree ((slots t).mpr ⟨isChild, inFree⟩)
  · show before.mm.cr3 = before.current
    rw [memory, current, shape]
  · show before.mm.Coherent
    rw [memory, shape]
    exact fun entry member => absurd member List.not_mem_nil

theorem forkFinish_ok (s : State) (uchild : Task) :
    (s.forkFinish uchild).1 = .ok ((s.forkFinish uchild).2.task uchild).PID := rfl

/-- `sys_fork` runs out of slots or succeeds; it never runs out of frames. -/
theorem Spaced.fork_cases (spaced : Spaced code s queues) (sched : Sched installed s queues)
    (process : s.current ≠ s.idleTask) (forks : Forks s queues later s.sysFork) :
    (queues.on .freequeue = [] ∧ later = queues ∧ s.sysFork = (.error ENOMEM, s)) ∨
      ∃ child ∈ queues.on .freequeue, ∃ mm,
        s.mm.Duplicates code (queues.Process s.idleTask) s.current child
          (Zeos.forkMapped s child mm).mm ∧
        (∀ t, t ∈ later.on .freequeue ↔ t ≠ child ∧ t ∈ queues.on .freequeue) ∧
        s.sysFork = (Zeos.forkMapped s child mm).forkFinish child := by
  cases forks with
  | full none same result => exact .inl ⟨none, same, result⟩
  | refused free ran =>
      obtain ⟨mm, allocated, _⟩ := spaced.forkMapped sched process free
      rw [ran] at allocated
      exact absurd allocated nofun
  | @forked child mm free ran slots result =>
      obtain ⟨mm, allocated, duplicates⟩ := spaced.forkMapped sched process free
      obtain rfl := Except.ok.inj (ran.symm.trans allocated)
      exact .inr ⟨child, free, mm, duplicates, slots, result⟩

theorem Spaced.sysFork (spaced : Spaced code s queues) (sched : Sched installed s queues)
    (process : s.current ≠ s.idleTask) (forks : Forks s queues later s.sysFork) :
    Spaced code s.sysFork.2 later ∧
      ((queues.on .freequeue = [] ∧ s.sysFork = (.error ENOMEM, s)) ∨
        ∃ child ∈ queues.on .freequeue,
          s.sysFork.1 = .ok (s.sysFork.2.task child).PID ∧
          (∀ t, t ∈ later.on .freequeue ↔ t ≠ child ∧ t ∈ queues.on .freequeue) ∧
          s.mm.Duplicates code (queues.Process s.idleTask) s.current child s.sysFork.2.mm) := by
  rcases spaced.fork_cases sched process forks with
    ⟨none, same, result⟩ | ⟨child, free, mm, duplicates, slots, result⟩
  · rw [result, same]
    exact ⟨spaced, .inl ⟨none, rfl⟩⟩
  · obtain ⟨memory, after⟩ := spaced.forkFinish sched free duplicates slots
    have returned := forkFinish_ok (Zeos.forkMapped s child mm) child
    rw [← memory] at duplicates
    rw [result]
    exact ⟨after, .inr ⟨child, free, returned, slots, duplicates⟩⟩

theorem Spaced.setCpu (spaced : Spaced code s queues) (cpu : X86.Cpu) :
    Spaced code { s with cpu := cpu } queues :=
  ⟨spaced.space, spaced.dirs, spaced.loaded, spaced.coherent⟩

theorem Spaced.enter {below above : Nat} (spaced : Spaced code s queues)
    (site : CallSite below above) : Spaced code (s.enter site) queues := spaced.setCpu _

theorem Spaced.enterFork (spaced : Spaced code s queues) (site : ForkSite) :
    Spaced code (s.enterFork site) queues := spaced.setCpu _

theorem Spaced.step (spaced : Spaced code s queues) (sched : Sched installed s queues)
    (enabled : s.Enabled op) (effect : Effect installed s queues later after op) :
    Spaced code after later := by
  cases op with
  | fork site =>
      obtain ⟨forks, rfl⟩ := effect
      exact ((spaced.enterFork site).sysFork (sched.enterFork site) enabled forks).1
  | exit site => exact (spaced.enter site).exits (sched.enter site) enabled effect
  | yield site => exact (spaced.enter site).handsOver effect.1 effect.2
  | block site n => exact (spaced.enter site).leaves effect
  | unblock site blocked => exact (spaced.enter site).leaves effect
  | tick site => exact (spaced.enter site).leaves effect
  | charge v => exact spaced.quiet effect.2 effect.1
  | touch page =>
      obtain ⟨free, rfl⟩ := effect
      exact (spaced.touch enabled).quiet (.refl _) free

def codeFrame (memory : State) (pag : Nat) : Nat :=
  memory.boot.mm.getFrame 1 (PAG_LOG_INIT_CODE + pag)

theorem codeFrame_eq (memory : State) :
    codeFrame memory = Mm.codeFrame ((startMemory memory).setUserPages 1) 1 := by
  funext pag
  rw [codeFrame, boot_mm]
  exact Mm.getFrame_setCr3 ..

omit [Image] in
theorem Queues.process_boot {t : Task} : Queues.boot.Process 0 t ↔ t = 1 := by
  simp only [Queues.Process, Queues.mem_boot, true_and, not_and_or, not_not]
  constructor
  · rintro ⟨idle | first, process⟩
    · exact absurd idle process
    · exact first
  · rintro rfl
    exact ⟨.inr rfl, by decide⟩

theorem boot_spaced (memory : State) : memory.boot.mm.Original (codeFrame memory) 1 ∧
    Spaced (codeFrame memory) memory.boot Queues.boot := by
  obtain ⟨original, space⟩ :=
    (startMemory_fresh memory).setUserPages (show (0 : Task) ≠ 1 by decide)
  rw [← codeFrame_eq] at original space
  have same := Mm.SameSpace.setCr3 ((startMemory memory).setUserPages 1) 1
  rw [← boot_mm] at same
  refine ⟨original.congr (congrFun same.pagusrTable 1), ?_, ?_, ?_, ?_⟩
  · rw [State.boot_idleTask]
    exact space.congr same fun t => Queues.process_boot
  · exact fun t notFree => boot_dirs memory notFree
  · rw [boot_mm, State.boot_current]
    rfl
  · rw [boot_mm]
    exact Mm.coherent_setCr3 _ _

theorem spaced_of_reachable (reachable : (kernel installed memory).Reachable s) :
    ∃ queues, Sched installed s queues ∧ Spaced (codeFrame memory) s queues := by
  have start : ∀ s, s = memory.boot →
      ∃ queues, Sched installed s queues ∧ Spaced (codeFrame memory) s queues := by
    rintro state rfl
    exact ⟨_, boot_sched installed memory, (boot_spaced memory).2⟩
  refine reachable.invariant start ?_
  rintro state op ⟨queues, sched, spaced⟩ enabled
  obtain ⟨later, after, effect⟩ := sched.step enabled
  exact ⟨later, after, spaced.step sched enabled effect⟩

end

end Zeos
