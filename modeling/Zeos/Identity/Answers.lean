import Zeos.Identity.Numbers
import Zeos.Syscall.Stats

/-!
# What `sys_get_stats` answers

The copy at the end of `sys_get_stats` leaves the address space alone, whatever the
pointer. It faults when the structure reaches past the last user page, which
`access_ok` lets through.
-/

namespace Zeos

open Library

namespace Mm

/-- Accesses leave an address space as it is, but for contents and the buffer. -/
def Accessed (start mm : Mm) : Prop :=
  (∃ frames tlb choice fault, mm =
    { start with frames := frames, tlb := tlb, choice := choice, fault := fault }) ∧ mm.Coherent

variable {start mm : Mm} {kernel : Nat → Nat → Byte}

theorem Accessed.refl (coherent : mm.Coherent) : mm.Accessed mm :=
  ⟨⟨mm.frames, mm.tlb, mm.choice, mm.fault, rfl⟩, coherent⟩

theorem Accessed.setFrames (accessed : start.Accessed mm) (frames : Nat → Nat → Byte) :
    start.Accessed { mm with frames := frames } := by
  obtain ⟨⟨_, tlb, choice, fault, rfl⟩, coherent⟩ := accessed
  exact ⟨⟨frames, tlb, choice, fault, rfl⟩, coherent⟩

/-- Each access is a hit in the buffer, a walk of the table, or a fault. -/
theorem Accessed.translate (accessed : start.Accessed mm) (page : Nat) :
    start.Accessed (mm.translate page).2 ∧ (mm.fault = true → (mm.translate page).2.fault = true) ∧
      (start.loadedMap page = none → (mm.translate page).2.fault = true) := by
  obtain ⟨⟨frames, tlb, choice, fault, rfl⟩, coherent⟩ := accessed
  unfold Mm.translate
  dsimp only
  cases kept : (tlb.filter (·.1 = page))[choice 0]? with
  | some entry =>
      have member := List.mem_filter.mp (List.mem_of_getElem? kept)
      have same : entry.1 = page := by simpa using member.2
      refine ⟨⟨⟨_, _, _, _, rfl⟩, coherent⟩, id, fun unmapped => ?_⟩
      have present := (coherent entry member.1).1
      rw [same] at present
      rw [loadedMap, if_pos present] at unmapped
      exact absurd unmapped (Option.some_ne_none _)
  | none =>
      dsimp only
      split
      · rename_i present
        refine ⟨⟨⟨_, _, _, _, rfl⟩, fun entry member => ?_⟩, id, fun unmapped => ?_⟩
        · rcases List.mem_cons.mp member with rfl | old
          · exact ⟨present, rfl⟩
          · exact coherent entry old
        · rw [loadedMap, if_pos present] at unmapped
          exact absurd unmapped (Option.some_ne_none _)
      · exact ⟨⟨⟨_, _, _, _, rfl⟩, coherent⟩, fun _ => rfl, fun _ => rfl⟩

theorem bus_keeps_accessed (start : Mm) (kernel : Nat → Nat → Byte) :
    (bus kernel).Keeps start.Accessed := by
  constructor
  · intro mm address accessed
    have after := (accessed.translate (PH_PAGE address)).1
    unfold bus
    dsimp only
    split <;> exact after
  · intro mm address byte accessed
    have after := (accessed.translate (PH_PAGE address)).1
    unfold bus
    dsimp only
    split
    · exact after
    · exact after.setFrames _

theorem bus_keeps_fault (kernel : Nat → Nat → Byte) :
    (bus kernel).Keeps fun mm => start.Accessed mm ∧ mm.fault = true := by
  have keeps := bus_keeps_accessed start kernel
  constructor
  · rintro mm address ⟨accessed, fault⟩
    refine ⟨keeps.load mm address accessed, ?_⟩
    have after := (accessed.translate (PH_PAGE address)).2.1 fault
    unfold bus
    dsimp only
    split <;> exact after
  · rintro mm address byte ⟨accessed, fault⟩
    refine ⟨keeps.store mm address byte accessed, ?_⟩
    have after := (accessed.translate (PH_PAGE address)).2.1 fault
    unfold bus
    dsimp only
    split <;> exact after

theorem Accessed.store_faults (accessed : start.Accessed mm) {address : DWord}
    (unmapped : start.loadedMap (PH_PAGE address) = none) (byte : Byte) :
    ((bus kernel).store mm address byte).fault = true := by
  have after := (accessed.translate (PH_PAGE address)).2.2 unmapped
  unfold bus
  dsimp only
  split <;> exact after

theorem Accessed.load_faults (accessed : start.Accessed mm) {address : DWord}
    (unmapped : start.loadedMap (PH_PAGE address) = none) :
    ((bus kernel).load mm address).2.fault = true := by
  have after := (accessed.translate (PH_PAGE address)).2.2 unmapped
  unfold bus
  dsimp only
  split <;> exact after

variable {source dest : DWord} {size : Nat}

theorem copyToUser_accessed (coherent : mm.Coherent) :
    mm.Accessed (copyToUser (bus kernel) source dest size mm).2 :=
  wordLoop_keeps (bus_keeps_accessed mm kernel) size (.refl coherent)

theorem copyToUser_faults (coherent : mm.Coherent) {index : Nat} (bound : index < size)
    (unmapped : mm.loadedMap (PH_PAGE (offset dest index)) = none) :
    (copyToUser (bus kernel) source dest size mm).2.fault = true :=
  (wordLoop_bad (bus_keeps_accessed mm kernel) (bus_keeps_fault kernel) size (.refl coherent) bound
    fun state byte accessed => ⟨(bus_keeps_accessed mm kernel).store state _ byte accessed,
      accessed.store_faults unmapped byte⟩).2

end Mm

namespace State

def userByte (s : State) (address : DWord) : Option Byte :=
  (s.mm.loadedMap (PH_PAGE address)).map fun frame => s.mm.frames frame (address.toNat % PAGE_SIZE)

/-- `p_stats`, with the quantum that is left. -/
def reported (s : State) (t : Task) : Stats :=
  { (s.task t).pStats with remainingTicks := s.remainingQuantum }

section

variable [Image]

def StatsReturn (s : State) (pid st : DWord) (answer : Result) : Prop :=
  (s.sysGetStats pid st).1 = answer ∧ (s.sysGetStats pid st).2.mm.fault = false

end

end State

def Accepted (st : DWord) : Prop :=
  accessOk VERIFY_WRITE st (BitVec.ofNat 32 SIZEOF_STATS) = true

instance (st : DWord) : Decidable (Accepted st) := inferInstanceAs (Decidable (_ = _))

theorem Accepted.cases {st : DWord} (accepted : Accepted st) :
    InUserPages st ∨ ∃ index < SIZEOF_STATS,
      PH_PAGE (offset st index) = PAG_LOG_INIT_DATA + NUM_PAG_DATA := by
  rw [Accepted, accessOk_type, accessOk] at accepted
  have notWrite : VERIFY_READ ≠ VERIFY_WRITE := by decide
  simp only [notWrite, false_and, if_false] at accepted
  have room := st.isLt
  have last : (st + BitVec.ofNat 32 SIZEOF_STATS).toNat = (st.toNat + 28) % 2 ^ 32 := by
    simp only [BitVec.toNat_add, BitVec.toNat_ofNat, SIZEOF_STATS]
  have final : (offset st 27).toNat = (st.toNat + 27) % 2 ^ 32 := by
    simp only [offset, BitVec.toNat_add, BitVec.toNat_ofNat]
  split at accepted
  · exact absurd accepted Bool.noConfusion
  · rename_i forward
    obtain ⟨low, high⟩ := of_decide_eq_true accepted
    rw [last] at forward high
    simp only [USER_FIRST_PAGE, L_USER_START, PAGE_SIZE, NUM_PAG_CODE, NUM_PAG_DATA] at low high forward
    by_cases inside : InUserPages st
    · exact .inl inside
    · refine .inr ⟨27, by decide, ?_⟩
      rw [PH_PAGE, final]
      simp only [InUserPages, USER_FIRST_PAGE, L_USER_START, PAGE_SIZE, NUM_PAG_CODE, NUM_PAG_DATA,
        SIZEOF_STATS, PAG_LOG_INIT_DATA, PAG_LOG_INIT_CODE] at inside ⊢
      omega

section

variable [Image] {installed : Installed} {s : State} {queues : Queues} {code : Nat → Nat}
  {pid st : DWord} {t : Task}

/-- The structure in the task array is brought up to date first. -/
def State.refreshed (s : State) (t : Task) : State :=
  s.setStats t fun stats => { stats with remainingTicks := s.remainingQuantum }

def statsCopied (s : State) (t : Task) (st : DWord) : Mm :=
  (copyToUser (Mm.bus (s.refreshed t).kernelByte) (taskAddr t OFFSET_P_STATS) st SIZEOF_STATS
    (s.refreshed t).mm).2

theorem statsCopied_eq (s : State) (t : Task) (st : DWord) : statsCopied s t st =
    (copyToUser (Mm.bus (s.refreshed t).kernelByte) (taskAddr t OFFSET_P_STATS) st SIZEOF_STATS
      s.mm).2 := by
  have memory : (s.refreshed t).mm = s.mm := rfl
  rw [statsCopied, memory]

/-- The state the service leaves, once it has found the task. -/
def statsAnswered (s : State) (t : Task) (st : DWord) : State :=
  { s.refreshed t with mm := statsCopied s t st }

theorem sysGetStats_slot (s : State) (pid st : DWord) :
    (s.sysGetStats pid st).2 = s ∨ ∃ t, s.sysGetStats pid st = (.ok 0, statsAnswered s t st) := by
  unfold State.sysGetStats
  split
  · exact .inl rfl
  · split
    · exact .inl rfl
    · split
      · exact .inl rfl
      · rename_i t _
        refine .inr ⟨t, ?_⟩
        unfold statsAnswered statsCopied State.refreshed
        generalize s.setStats t _ = middle
        dsimp only

omit [Image] in
theorem notNegative (number : 0 ≤ pid.toInt) : pid.slt 0 = false :=
  decide_eq_false (Int.not_lt.mpr number)

theorem sysGetStats_found (accepted : Accepted st) (number : 0 ≤ pid.toInt)
    (found : (s.task t).PID = pid) (unique : ∀ u, (s.task u).PID = pid → u = t) :
    s.sysGetStats pid st = (.ok 0, statsAnswered s t st) := by
  have scan : (List.finRange NR_TASKS).find? (fun i => (s.task i).PID = pid) = some t := by
    cases scan : (List.finRange NR_TASKS).find? (fun i => (s.task i).PID = pid) with
    | none =>
        have missing := List.find?_eq_none.mp scan t (List.mem_finRange t)
        exact absurd found (by simpa using missing)
    | some u =>
        have same := List.find?_some scan
        rw [unique u (by simpa using same)]
  unfold State.sysGetStats
  rw [if_neg (by rw [accepted]; exact Bool.noConfusion), if_neg (by
    rw [notNegative number]; exact Bool.noConfusion), scan]
  unfold statsAnswered statsCopied State.refreshed
  dsimp only

theorem sysGetStats_unknown (accepted : Accepted st) (number : 0 ≤ pid.toInt)
    (none : ∀ t, (s.task t).PID ≠ pid) : s.sysGetStats pid st = (.error ESRCH, s) := by
  have missing : (List.finRange NR_TASKS).find? (fun i => (s.task i).PID = pid) = Option.none :=
    List.find?_eq_none.mpr fun t _ => by simpa using none t
  unfold State.sysGetStats
  rw [if_neg (by rw [accepted]; exact Bool.noConfusion), if_neg (by
    rw [notNegative number]; exact Bool.noConfusion), missing]

theorem statsAnswered_mm (s : State) (t : Task) (st : DWord) :
    (statsAnswered s t st).mm = statsCopied s t st := by
  unfold statsAnswered
  generalize statsCopied s t st = mm
  rfl

theorem statsCopied_accessed (coherent : s.mm.Coherent) (t : Task) (st : DWord) :
    s.mm.Accessed (statsCopied s t st) := by
  rw [statsCopied_eq]
  exact Mm.copyToUser_accessed coherent

/-- The copy comes back when the structure is in the user pages, and only then. -/
theorem Spaced.statsCopied_fault (spaced : Spaced code s queues)
    (live : queues.Process s.idleTask s.current) (accepted : Accepted st) (t : Task) :
    (statsCopied s t st).fault = false ↔ InUserPages st := by
  rw [statsCopied_eq]
  constructor
  · intro returned
    rcases accepted.cases with inside | ⟨index, bound, page⟩
    · exact inside
    · have unmapped : s.mm.loadedMap (PH_PAGE (offset st index)) = none := by
        rw [spaced.loadedMap, page, spaced.space.beyond _ _ (Nat.le_refl _)]
        rfl
      have faults := @Mm.copyToUser_faults s.mm (s.refreshed t).kernelByte
        (taskAddr t OFFSET_P_STATS) st SIZEOF_STATS spaced.coherent index bound unmapped
      exact absurd (returned.symm.trans faults) Bool.noConfusion
  · intro inside
    have copied := (spaced.stats_delivers live inside t).copied spaced.coherent
      (s.refreshed t).kernelByte
    obtain ⟨_, _, _, shape, _⟩ := copied.holds.1
    rw [shape]
    exact spaced.space.fault

theorem taskOfPage_taskPage (t : Task) : taskOfPage (taskPage t) = some t := by
  unfold taskOfPage
  cases scan : (List.finRange NR_TASKS).find? (fun task => taskPage task = taskPage t) with
  | none =>
      have missing := List.find?_eq_none.mp scan t (List.mem_finRange t)
      simp at missing
  | some u =>
      have same := List.find?_some scan
      rw [taskPage_injective (of_decide_eq_true same)]

theorem kernelByte_stats (s : State) (t : Task) {index : Nat} (bound : index < SIZEOF_STATS) :
    s.kernelByte (taskPage t) (OFFSET_P_STATS + index) =
      byteOfWords (s.task t).pStats.words index := by
  unfold State.kernelByte
  rw [taskOfPage_taskPage]
  dsimp only
  rw [if_pos ⟨Nat.le_add_right _ _, Nat.add_lt_add_left bound _⟩, Nat.add_sub_cancel_left]

omit [Image] in
theorem reported_refreshed (s : State) (t : Task) :
    ((s.refreshed t).task t).pStats = s.reported t := by
  rw [State.refreshed, State.setStats, State.setTask_task, if_pos rfl]
  rfl

theorem Spaced.statsAnswered_bytes (spaced : Spaced code s queues)
    (live : queues.Process s.idleTask s.current) (inUser : InUserPages st) (t : Task) {index : Nat}
    (bound : index < SIZEOF_STATS) :
    (statsAnswered s t st).userByte (offset st index) =
      some (byteOfWords (s.reported t).words index) := by
  have delivers := spaced.stats_delivers live inUser t
  obtain ⟨frame, mapped, _⟩ := delivers.writes index bound
  have source : (offset (taskAddr t OFFSET_P_STATS) index).toNat % PAGE_SIZE =
      OFFSET_P_STATS + index := by
    have inside : OFFSET_P_STATS + index < PAGE_SIZE := by
      simp only [SIZEOF_STATS, OFFSET_P_STATS, PAGE_SIZE] at bound ⊢
      omega
    rw [offset, taskAddr_add t _ _ (Nat.le_of_lt inside), taskAddr_toNat t (Nat.le_of_lt inside),
      Nat.mul_add_mod_self_right, Nat.mod_eq_of_lt inside]
  have arrived := delivers.bytes spaced.coherent (s.refreshed t).kernelByte bound
    (spaced.loadedMap_stats live t bound) mapped
  rw [source, kernelByte_stats _ t bound, reported_refreshed] at arrived
  obtain ⟨⟨_, _, _, _, shape⟩, _⟩ := statsCopied_accessed spaced.coherent t st
  have kept : (statsCopied s t st).loadedMap (PH_PAGE (offset st index)) = some frame := by
    rw [shape]
    exact mapped
  rw [← statsCopied_eq] at arrived
  rw [State.userByte, statsAnswered_mm, kept, Option.map_some]
  exact congrArg some arrived

theorem statsAnswered_preserves (s : State) (t : Task) (st : DWord) :
    State.Preserves TaskStruct.PID s (statsAnswered s t st) := by
  obtain ⟨pids, counter⟩ := State.setStats_preserves State.pid_apart s t
    fun stats => { stats with remainingTicks := s.remainingQuantum }
  exact ⟨pids, counter⟩

theorem Sched.statsAnswered (sched : Sched installed s queues) (t : Task) (st : DWord) :
    Sched installed (Zeos.statsAnswered s t st) queues := by
  have accounts := s.setStats_accounts t fun stats => { stats with remainingTicks := s.remainingQuantum }
  exact (sched.accounts accounts).setMemory _

theorem Spaced.statsAnswered (spaced : Spaced code s queues) (t : Task) (st : DWord)
    (returned : (statsCopied s t st).fault = false) :
    Spaced code (Zeos.statsAnswered s t st) queues := by
  obtain ⟨⟨_, _, _, _, shape⟩, coherent⟩ := statsCopied_accessed spaced.coherent t st
  have same : s.mm.SameSpace (statsCopied s t st) := by
    have noFault := returned.trans spaced.space.fault.symm
    rw [shape] at noFault ⊢
    exact ⟨rfl, rfl, rfl, rfl, noFault⟩
  refine ⟨?_, fun u notFree => ?_, ?_, ?_⟩
  · rw [statsAnswered_mm]
    exact spaced.space.congr same fun _ => .rfl
  · have dirs := spaced.dirs u notFree
    show ((s.refreshed t).task u).dirPagesBaseAddr = u
    rw [State.refreshed, State.setStats, State.setTask_task]
    split
    · rename_i same
      rw [← same]
      exact dirs
    · exact dirs
  · rw [statsAnswered_mm, shape]
    exact spaced.loaded
  · rw [statsAnswered_mm]
    exact coherent

end

end Zeos
