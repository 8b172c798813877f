import Zeos.Space.Runs

/-!
# Frame accounting over runs

The frames marked as used are the frames of the code and of the data pages of the
processes, each used once: no run leaks a frame or frees one twice, and the
frames never run out.
-/

namespace Zeos

open Library

def State.entry (s : State) (t : Task) (page : Nat) : PageTableEntry :=
  s.mm.pagusrTable (s.getPT t) page

def State.dataFrame (s : State) (t : Task) (pag : Nat) : Nat :=
  (s.entry t (PAG_LOG_INIT_DATA + pag)).pbaseAddr

def State.Process (s : State) (t : Task) : Prop := s.Live t ∧ t ≠ s.idleTask

section

variable [Image]

/-- The frame map of `s` accounts for the code frames of the boot over `memory`
and for the data frames of the processes, and for nothing else. -/
structure FramesAccounted (memory s : State) : Prop where
  used_iff : ∀ frame, NUM_PAG_KERNEL ≤ frame → frame < TOTAL_PAGES →
    (s.mm.physMem frame = USED_FRAME ↔
      (∃ pag < NUM_PAG_CODE, frame = codeFrame memory pag) ∨
        ∃ t, s.Process t ∧ ∃ pag < NUM_PAG_DATA, frame = s.dataFrame t pag)
  mapped : ∀ t, s.Process t → ∀ pag < NUM_PAG_DATA,
    (s.entry t (PAG_LOG_INIT_DATA + pag)).present = true ∧
      NUM_PAG_KERNEL ≤ s.dataFrame t pag ∧ s.dataFrame t pag < TOTAL_PAGES
  codes : ∀ p < NUM_PAG_CODE, ∀ q < NUM_PAG_CODE,
    codeFrame memory p = codeFrame memory q → p = q
  distinct : ∀ t u, s.Process t → s.Process u → ∀ p < NUM_PAG_DATA, ∀ q < NUM_PAG_DATA,
    s.dataFrame t p = s.dataFrame u q → t = u ∧ p = q
  disjoint : ∀ t, s.Process t → ∀ p < NUM_PAG_CODE, ∀ q < NUM_PAG_DATA,
    codeFrame memory p ≠ s.dataFrame t q
  released : ∀ release ∈ s.mm.freed, release.2 = USED_FRAME

/-- `sys_fork` never finds too few frames, wherever it is called from. -/
def ForkFindsFrames (s : State) : Prop :=
  ∀ site, s.Enabled (.fork site) → (s.enterFork site).sysFork.1 ≠ .error EAGAIN

variable {installed : Installed} {memory s : State} {queues : Queues} {code : Nat → Nat} {t : Task}

omit [Image] in
theorem Sched.live_iff (sched : Sched installed s queues) :
    s.Live t ↔ t ∉ queues.on .freequeue := not_congr sched.represents.on_iff

omit [Image] in
theorem Sched.process_iff (sched : Sched installed s queues) :
    s.Process t ↔ queues.Process s.idleTask t := and_congr_left' sched.live_iff

theorem Spaced.getPT (spaced : Spaced code s queues) (live : t ∉ queues.on .freequeue) :
    s.getPT t = t := by
  rw [State.getPT, spaced.dirs t live, spaced.space.rows]

theorem Spaced.entry (spaced : Spaced code s queues) (live : t ∉ queues.on .freequeue)
    (page : Nat) : s.entry t page = s.mm.pagusrTable t page := by
  rw [State.entry, spaced.getPT live]

theorem Spaced.dataFrame (spaced : Spaced code s queues) (live : t ∉ queues.on .freequeue)
    (pag : Nat) : s.dataFrame t pag = s.mm.getFrame t (PAG_LOG_INIT_DATA + pag) := by
  rw [State.dataFrame, spaced.entry live]
  rfl

theorem Spaced.framesAccounted (spaced : Spaced (codeFrame memory) s queues)
    (sched : Sched installed s queues) : FramesAccounted memory s where
  used_iff frame low high := by
    have accounted := spaced.space.pool.accounted.used_iff frame
    have marked : s.mm.InUse frame ↔ s.mm.physMem frame = USED_FRAME :=
      ⟨fun used => used.2.2, fun used => ⟨low, high, used⟩⟩
    rw [← marked, accounted]
    constructor
    · rintro ⟨pag | ⟨task, pag⟩, owns⟩
      · exact .inl ⟨pag, owns⟩
      · obtain ⟨process, bound, same⟩ := owns
        exact .inr ⟨task, sched.process_iff.mpr process, pag, bound,
          same.trans (spaced.dataFrame process.1 pag).symm⟩
    · rintro (⟨pag, owns⟩ | ⟨task, process, pag, bound, same⟩)
      · exact ⟨.code pag, owns⟩
      · have live := sched.process_iff.mp process
        exact ⟨.data task pag, live, bound, same.trans (spaced.dataFrame live.1 pag)⟩
  mapped t process pag bound := by
    have live := sched.process_iff.mp process
    have used := spaced.space.data_inUse live bound
    rw [spaced.entry live.1, spaced.dataFrame live.1, spaced.space.data t live pag bound]
    exact ⟨rfl, used.1, used.2.1⟩
  codes p pBound q qBound same := by
    have first : s.mm.Owns (codeFrame memory) (queues.Process s.idleTask) (.code p) _ :=
      ⟨pBound, rfl⟩
    have second : s.mm.Owns (codeFrame memory) (queues.Process s.idleTask) (.code q) _ :=
      ⟨qBound, rfl⟩
    rw [← same] at second
    exact Owner.code.inj (spaced.space.pool.accounted.exclusive first second)
  distinct t u first second p pBound q qBound same := by
    have one := sched.process_iff.mp first
    have other := sched.process_iff.mp second
    rw [spaced.dataFrame one.1, spaced.dataFrame other.1] at same
    exact spaced.space.data_inj one other pBound qBound same
  disjoint t process p pBound q qBound := by
    have live := sched.process_iff.mp process
    rw [spaced.dataFrame live.1]
    exact spaced.space.code_ne_data live pBound qBound
  released := spaced.space.freed

/-- Frames are never lost, shared or freed twice, whatever the policy, and so
`sys_fork` always finds the frames it needs. -/
theorem frames_accounted (reachable : (kernel installed memory).Reachable s) :
    FramesAccounted memory s ∧ ForkFindsFrames s := by
  obtain ⟨queues, sched, spaced⟩ := spaced_of_reachable reachable
  refine ⟨spaced.framesAccounted sched, fun site process => ?_⟩
  obtain ⟨later, _, forks, _⟩ := (sched.enterFork site).sysFork
  obtain ⟨_, ⟨_, full⟩ | ⟨_, _, done, _⟩⟩ :=
    (spaced.enterFork site).sysFork (sched.enterFork site) process forks
  · rw [full]
    exact fun same => absurd (Except.error.inj same) (by decide)
  · rw [done]
    exact nofun

end

theorem frames_accounted_after_fork :
    @FramesAccounted Image.sample State.blank
        ((sampleKernel .FCFS).next sampleBoot (.fork ForkSite.top)) ∧
      @ForkFindsFrames Image.sample
        ((sampleKernel .FCFS).next sampleBoot (.fork ForkSite.top)) := by
  have process : sampleBoot.current ≠ sampleBoot.idleTask := by decide
  exact @frames_accounted Image.sample .FCFS State.blank _ (.step (.initial rfl) process)

end Zeos
