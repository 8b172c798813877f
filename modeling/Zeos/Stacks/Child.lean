import Zeos.Space.Runs
import Zeos.Stacks.Resume

/-!
# First frames

The stacks of tasks that have not run: what `sys_fork` leaves for a child and
`init_idle` for idle.
-/

namespace Zeos

open Library Library.X86

section

variable [Image]

variable {s after : State} {child t : Task} {depth : Nat}

theorem taskAddr_move (t child : Task) (depth : Nat) (fits : depth ≤ PAGE_SIZE) :
    taskAddr t depth - taskAddr t 0 + taskAddr child 0 = taskAddr child depth := by
  have from_base (u : Task) : taskAddr u 0 + BitVec.ofNat 32 depth = taskAddr u depth := by
    simpa using taskAddr_add u 0 depth (by simpa using fits)
  rw [← from_base t, ← from_base child]
  generalize taskAddr t 0 = old
  generalize taskAddr child 0 = new
  bv_omega

def forkWords (s : State) (child : Task) (depth : Nat) : DWord → DWord :=
  Function.update (Function.update s.cpu.mem (taskAddr child depth) Image.retFromFork)
    (taskAddr child (depth - 4)) (s.cpu.mem (taskAddr child depth))

theorem forkStack_eq (s : State) (child : Task) (ebp : s.cpu.ebp = taskAddr s.current depth) (room : 60 ≤ depth)
    (fits : depth + 4 ≤ PAGE_SIZE) :
    s.forkStack child = { s.setTask child fun t =>
        { t with registerEsp := taskAddr child (depth - 4) } with
      cpu := { s.cpu with mem := forkWords s child depth }
      saved := Function.update s.saved child (.built { s.cpu with
        esp := taskAddr child (depth + 4), ebp := s.cpu.mem (taskAddr child depth)
        eip := Image.retFromFork, mem := forkWords s child depth }) } := by
  have moved := taskAddr_move s.current child depth (by omega)
  have back : taskAddr child depth + 4 - 4 = taskAddr child depth := BitVec.add_sub_cancel _ _
  have below : taskAddr child depth - 4 = taskAddr child (depth - 4) :=
    taskAddr_sub child _ 4 (by omega) (by omega)
  have above : taskAddr child (depth - 4) + 8 = taskAddr child (depth + 4) := by
    have up := taskAddr_add child (depth - 4) 8 (by omega)
    rwa [show depth - 4 + 8 = depth + 4 by omega] at up
  simp only [State.forkStack, ebp, moved, back, below, above, Cpu.store, State.setTask, forkWords]

theorem forkWords_of_ne (s : State) {place : Nat} (bound : place < PAGE_SIZE)
    (fits : depth + 4 ≤ PAGE_SIZE) (outside : t ≠ child ∨ depth + 4 ≤ place) :
    forkWords s child depth (taskAddr t place) = s.cpu.mem (taskAddr t place) := by
  have apart (other : Nat) (low : other < depth + 4) :
      taskAddr t place ≠ taskAddr child other := by
    refine taskAddr_ne bound (by omega) ?_
    rcases outside with isOther | above
    · exact .inl isOther
    · exact .inr (by omega)
  rw [forkWords, Function.update_of_ne (apart _ (by omega)),
    Function.update_of_ne (apart _ (by omega))]

theorem forkWords_holds (s : State) (room : 60 ≤ depth) (fits : depth + 4 ≤ PAGE_SIZE) :
    Holds (forkWords s child depth) (taskAddr child (depth - 4))
      [s.cpu.mem (taskAddr child depth), Image.retFromFork] := by
  have next : taskAddr child (depth - 4) + 4 = taskAddr child depth := by
    have up := taskAddr_add child (depth - 4) 4 (by omega)
    rwa [show depth - 4 + 4 = depth by omega] at up
  refine ⟨Function.update_self .., ?_, trivial⟩
  rw [next, forkWords, Function.update_of_ne, Function.update_self]
  exact taskAddr_ne (by omega) (by omega) (.inr (by omega))

/-- The child has its parent's stack, and a frame to start from in place of the saved
frame pointer of `sys_fork`. -/
structure FirstFrame (s : State) (child : Task) (depth : Nat) (after : State) : Prop where
  saved : after.saved child = .built { s.cpu with
    esp := taskAddr child (depth + 4), ebp := s.cpu.mem (taskAddr s.current depth)
    eip := Image.retFromFork, mem := after.cpu.mem }
  registerEsp : (after.task child).registerEsp = taskAddr child (depth - 4)
  frame : Holds after.cpu.mem (taskAddr child (depth - 4))
    [s.cpu.mem (taskAddr s.current depth), Image.retFromFork]
  stack : ∀ place, depth + 4 ≤ place → place < PAGE_SIZE →
    after.cpu.mem (taskAddr child place) = s.cpu.mem (taskAddr s.current place)
  others : ∀ t ≠ child, Untouched s after t
  current : after.current = s.current
  ebp : after.cpu.ebp = s.cpu.ebp
  switches : after.switches = s.switches

theorem forkCopied_mem (s : State) (child t : Task) (place : Nat) (bound : place < PAGE_SIZE) :
    (forkCopied s child).cpu.mem (taskAddr t place) =
      s.cpu.mem (taskAddr (if t = child then s.current else t) place) := by
  have offset : (taskAddr child place).toNat % PAGE_SIZE = place := by
    rw [taskAddr_toNat child (Nat.le_of_lt bound), Nat.mul_add_mod_self_right]
    exact Nat.mod_eq_of_lt bound
  show (if PH_PAGE (taskAddr t place) = taskPage child then
    s.cpu.mem (taskAddr s.current ((taskAddr t place).toNat % PAGE_SIZE))
    else s.cpu.mem (taskAddr t place)) = _
  rw [PH_PAGE_taskAddr t bound]
  by_cases isChild : t = child
  · subst isChild
    rw [if_pos rfl, if_pos rfl, offset]
  · rw [if_neg isChild, if_neg fun same => isChild (taskPage_injective same)]

theorem forkFinish_firstFrame (mm : Mm) (ebp : s.cpu.ebp = taskAddr s.current depth)
    (room : 60 ≤ depth) (fits : depth + 4 ≤ PAGE_SIZE) :
    FirstFrame s child depth ((forkMapped s child mm).forkFinish child).2 := by
  obtain ⟨before, finish⟩ := forkFinish_eq (forkMapped s child mm) child
  have result := forkStack_eq (forkMapped s child mm) child ebp room fits
  have mapped : (forkMapped s child mm).cpu = { s.cpu with mem := (forkCopied s child).cpu.mem } := rfl
  have word := forkCopied_mem s child child depth (by omega)
  rw [if_pos rfl] at word
  have memory : before.cpu.mem = forkWords (forkMapped s child mm) child depth := by
    rw [finish.cpu, result]
  rw [finish.result]
  constructor
  · show before.saved child = .built { s.cpu with
      esp := _, ebp := _, eip := _, mem := before.cpu.mem }
    rw [finish.saved, result, memory]
    refine (Function.update_self ..).trans ?_
    rw [mapped, word]
  · show (before.task child).registerEsp = _
    rw [finish.registerEsp, result]
    simp [State.setTask]
  · show Holds before.cpu.mem _ _
    rw [memory, ← word]
    exact forkWords_holds _ room fits
  · intro place above bound
    show before.cpu.mem _ = _
    rw [memory, forkWords_of_ne _ bound fits (.inr above), mapped, forkCopied_mem s child child _ bound,
      if_pos rfl]
  · intro t other
    constructor
    · show before.saved t = _
      rw [finish.saved, result]
      exact Function.update_of_ne other ..
    · have tasks : (forkMapped s child mm).task = (forkCopied s child).task := rfl
      show (before.task t).registerEsp = _
      rw [finish.task t other, tasks, forkCopied_task s other]
    · intro place _ bound
      show before.cpu.mem _ = _
      rw [memory, forkWords_of_ne _ bound fits (.inl other), mapped, forkCopied_mem s child t _ bound,
        if_neg other]
  · exact finish.current
  · show before.cpu.ebp = _
    rw [finish.cpu, result, mapped]
  · have trace : before.trace = .listDel (.node child) s.links :: s.trace := finish.trace
    rw [(State.listAddTail_quiet before (.node child) .readyqueue).switches, State.switches, trace]
    rfl

theorem FirstFrame.resumable (first : FirstFrame s child depth after) (room : 60 ≤ depth)
    (fits : depth + 4 ≤ PAGE_SIZE) : Resumable after child := by
  have top : depth - 4 + 4 * 2 = depth + 4 := by omega
  unfold Resumable
  rw [first.saved]
  refine ⟨Image.fork_apart, depth - 4, ?_, ?_, first.registerEsp, first.frame, fun _ _ _ => rfl⟩
  · show depth - 4 + 4 * 2 ≤ PAGE_SIZE
    omega
  · show _ = taskAddr child (depth - 4 + 4 * 2)
    rw [top]

theorem idleInto_resumable (s : State) (c : Task) : Resumable (s.idleInto c) c := by
  have below : taskAddr c (PAGE_SIZE - 8) + 4 = taskAddr c (PAGE_SIZE - 4) :=
    taskAddr_add c _ 4 (by decide)
  have apart : taskAddr c (PAGE_SIZE - 4) ≠ taskAddr c (PAGE_SIZE - 8) :=
    taskAddr_ne (by decide) (by decide) (.inr (by decide))
  have saved : (s.idleInto c).saved c = .built { (s.idleInto c).cpu with
    esp := taskAddr c PAGE_SIZE, ebp := 0, eip := Image.cpuIdle } := Function.update_self ..
  have memory : (s.idleInto c).cpu.mem = Function.update
    (Function.update s.cpu.mem (taskAddr c (PAGE_SIZE - 4)) Image.cpuIdle)
      (taskAddr c (PAGE_SIZE - 8)) 0 := rfl
  have registerEsp : ((s.idleInto c).task c).registerEsp = taskAddr c (PAGE_SIZE - 8) := by
    simp [State.idleInto, State.setTask]
  generalize s.idleInto c = after at *
  unfold Resumable
  rw [saved]
  refine ⟨Image.idle_apart, PAGE_SIZE - 8, Nat.le_refl PAGE_SIZE, rfl, registerEsp, ?_,
    fun _ _ _ => rfl⟩
  rw [memory]
  refine ⟨Function.update_self .., ?_, trivial⟩
  rw [below, Function.update_of_ne apart, Function.update_self]

theorem boot_resumable (memory : State) : Resumable memory.boot 0 := by
  have start := idleInto_resumable (memory.prepare.listDel (.node 0)) 0
  rw [State.boot_eq]
  generalize (memory.prepare.listDel (.node 0)).idleInto 0 = idle at *
  refine start.congr ⟨rfl, ?_, fun _ _ _ => rfl⟩
  simp [State.task1Into, State.setTask, State.initStats, State.setStats, State.getTicks,
    State.allocateDIR, State.listDel, State.setCr3]

end

end Zeos
