import Zeos.Space.Accounts

/-!
# `sys_get_stats` and the check of its pointer

`copy_to_user` stores where the page table of the caller says. The kernel ignores
the read-only bit, so the test of `access_ok` is all that keeps it out of the code
pages.
-/

namespace Zeos

open Library

namespace Mm

def loadedMap (mm : Mm) (page : Nat) : Option Nat :=
  let entry := mm.pagusrTable (mm.dirPages mm.cr3).pbaseAddr page
  if entry.present then some entry.pbaseAddr else none

variable {mm : Mm} {page frame : Nat}

theorem Coherent.maps (coherent : mm.Coherent) :
    ∀ page frame, mm.loadedMap page = some frame → mm.Maps page frame := by
  intro page frame mapped
  unfold loadedMap at mapped
  dsimp only at mapped
  split at mapped
  · rename_i present
    refine ⟨present, Option.some.inj mapped, ?_⟩
    rintro entry member rfl
    rw [← (coherent entry member).2]
    exact Option.some.inj mapped
  · exact absurd mapped nofun

/-- Sources in the kernel's frames, distinct destinations above them: what
`copy_to_user` needs to be an exact copy. -/
structure Delivers (mm : Mm) (source dest : DWord) (size : Nat) : Prop where
  reads : ∀ index < size, ∃ frame < NUM_PAG_KERNEL,
    mm.loadedMap (PH_PAGE (offset source index)) = some frame
  writes : ∀ index < size, ∃ frame, mm.loadedMap (PH_PAGE (offset dest index)) = some frame ∧
    NUM_PAG_KERNEL ≤ frame
  apart : ∀ i < size, ∀ j < size,
    mm.loadedMap (PH_PAGE (offset dest i)) = mm.loadedMap (PH_PAGE (offset dest j)) →
    (offset dest i).toNat % PAGE_SIZE = (offset dest j).toNat % PAGE_SIZE → i = j

theorem loadedMap_place (coherent : mm.Coherent) (kernel : Nat → Nat → Byte) {address : DWord}
    (mapped : mm.loadedMap (PH_PAGE address) = some frame) :
    (mm.window kernel mm.loadedMap coherent.maps).place address =
      (frame, address.toNat % PAGE_SIZE) := by
  show ((mm.loadedMap _).getD 0, _) = _
  rw [mapped]
  rfl

theorem Delivers.forward {source dest : DWord} {size : Nat}
    (delivers : mm.Delivers source dest size) (coherent : mm.Coherent)
    (kernel : Nat → Nat → Byte) :
    (mm.window kernel mm.loadedMap coherent.maps).Forward source dest size := by
  have placed : ∀ index < size, ∃ frame, NUM_PAG_KERNEL ≤ frame ∧
      mm.loadedMap (PH_PAGE (offset dest index)) = some frame ∧
      (mm.window kernel mm.loadedMap coherent.maps).place (offset dest index) =
        (frame, (offset dest index).toNat % PAGE_SIZE) := by
    intro index bound
    obtain ⟨frame, mapped, above⟩ := delivers.writes index bound
    exact ⟨frame, above, mapped, loadedMap_place coherent kernel mapped⟩
  constructor
  · intro i iBound j jBound same
    obtain ⟨first, _, firstMapped, firstPlace⟩ := placed i iBound
    obtain ⟨second, _, secondMapped, secondPlace⟩ := placed j jBound
    rw [firstPlace, secondPlace, Prod.mk.injEq] at same
    exact delivers.apart i iBound j jBound (by rw [firstMapped, secondMapped, same.1]) same.2
  · intro i iBound j jBound same
    obtain ⟨frame, above, _, place⟩ := placed i iBound
    obtain ⟨low, below, mapped⟩ := delivers.reads j jBound
    rw [place, loadedMap_place coherent kernel mapped, Prod.mk.injEq] at same
    omega

theorem Delivers.copies {source dest : DWord} {size : Nat}
    (delivers : mm.Delivers source dest size) (coherent : mm.Coherent)
    (kernel : Nat → Nat → Byte) {middle : Mm}
    (holds : (mm.window kernel mm.loadedMap coherent.maps).holds middle) :
    (mm.window kernel mm.loadedMap coherent.maps).Copied source dest size middle
      (wordLoop (bus kernel) size source dest middle) :=
  wordLoop_copied size holds
    (fun index bound => (delivers.reads index bound).imp fun _ mapped => mapped.2) delivers.writes
    (delivers.forward coherent kernel)

theorem Delivers.copied {source dest : DWord} {size : Nat} (delivers : mm.Delivers source dest size)
    (coherent : mm.Coherent) (kernel : Nat → Nat → Byte) :
    (mm.window kernel mm.loadedMap coherent.maps).Copied source dest size mm
      (copyToUser (bus kernel) source dest size mm).2 :=
  delivers.copies coherent kernel (window_start kernel mm mm.loadedMap coherent.maps)

/-- A copy out of the kernel's frames into pages above them stores in the frames of
those pages only. -/
theorem Delivers.frames {source dest : DWord} {size : Nat} (delivers : mm.Delivers source dest size)
    (coherent : mm.Coherent) (kernel : Nat → Nat → Byte) {frame : Nat} (outside : ∀ index < size,
      mm.loadedMap (PH_PAGE (offset dest index)) ≠ some frame) :
    (copyToUser (bus kernel) source dest size mm).2.frames frame = mm.frames frame := by
  have copied := delivers.copied coherent kernel
  generalize (copyToUser (bus kernel) source dest size mm).2 = after at *
  rcases Nat.lt_or_ge frame NUM_PAG_KERNEL with low | above
  · exact copied.holds.2 frame low
  · funext place
    have same := copied.frame (frame, place) fun index bound equal => by
      obtain ⟨other, mapped, _⟩ := delivers.writes index bound
      rw [loadedMap_place coherent kernel mapped, Prod.mk.injEq] at equal
      exact outside index bound (by rw [mapped, equal.1])
    have bytes : ∀ any : Mm,
        (mm.window kernel mm.loadedMap coherent.maps).cell any (frame, place) = any.frames frame place :=
      fun any => if_neg (Nat.not_lt.mpr above)
    rwa [bytes, bytes] at same

theorem Delivers.bytes {source dest : DWord} {size : Nat} (delivers : mm.Delivers source dest size)
    (coherent : mm.Coherent) (kernel : Nat → Nat → Byte) {index : Nat} (bound : index < size)
    {low : Nat} (origin : mm.loadedMap (PH_PAGE (offset source index)) = some low)
    (into : mm.loadedMap (PH_PAGE (offset dest index)) = some frame) :
    (copyToUser (bus kernel) source dest size mm).2.frames frame
        ((offset dest index).toNat % PAGE_SIZE) =
      kernel low ((offset source index).toNat % PAGE_SIZE) := by
  obtain ⟨high, mapped, above⟩ := delivers.writes index bound
  obtain ⟨below, small, found⟩ := delivers.reads index bound
  obtain rfl := Option.some.inj (mapped.symm.trans into)
  obtain rfl := Option.some.inj (found.symm.trans origin)
  have same := (delivers.copied coherent kernel).bytes index bound
  rw [loadedMap_place coherent kernel into, loadedMap_place coherent kernel origin] at same
  exact ((if_neg (Nat.not_lt.mpr above)).symm.trans same).trans (if_pos small)

end Mm

def InUserPages (st : DWord) : Prop :=
  USER_FIRST_PAGE * PAGE_SIZE ≤ st.toNat ∧ st.toNat + SIZEOF_STATS ≤
    (USER_FIRST_PAGE + NUM_PAG_CODE + NUM_PAG_DATA) * PAGE_SIZE

def InCode (address : DWord) : Prop :=
  PAG_LOG_INIT_CODE ≤ PH_PAGE address ∧ PH_PAGE address < PAG_LOG_INIT_DATA

theorem InUserPages.offset_toNat {st : DWord} (inUser : InUserPages st) {index : Nat}
    (bound : index < SIZEOF_STATS) : (offset st index).toNat = st.toNat + index := by
  have bounds := inUser
  simp only [InUserPages, USER_FIRST_PAGE, L_USER_START, PAGE_SIZE, NUM_PAG_CODE, NUM_PAG_DATA,
    SIZEOF_STATS] at bounds bound
  rw [offset, BitVec.toNat_add, BitVec.toNat_ofNat]
  omega

theorem InUserPages.accessOk {st : DWord} (inUser : InUserPages st) :
    accessOk VERIFY_WRITE st (BitVec.ofNat 32 SIZEOF_STATS) = true := by
  have bounds := inUser
  simp only [InUserPages, USER_FIRST_PAGE, L_USER_START, PAGE_SIZE, NUM_PAG_CODE, NUM_PAG_DATA,
    SIZEOF_STATS] at bounds
  have last : (st + BitVec.ofNat 32 SIZEOF_STATS).toNat = st.toNat + 28 := by
    simp only [BitVec.toNat_add, BitVec.toNat_ofNat, SIZEOF_STATS]
    omega
  have notWrite : VERIFY_READ ≠ VERIFY_WRITE := by decide
  rw [accessOk_type, Zeos.accessOk, last]
  simp only [notWrite, false_and, if_false, PAGE_SIZE, USER_FIRST_PAGE, L_USER_START, NUM_PAG_CODE,
    NUM_PAG_DATA]
  rw [if_neg (by omega)]
  exact decide_eq_true (by omega)

section

variable [Image]

variable {installed : Installed} {memory s : State} {queues : Queues} {code : Nat → Nat}
  {pid st : DWord}

/-- A call stores in the frames of the caller's data pages only, and a range that
reaches into the code pages is refused. -/
structure Confined (s : State) (pid st : DWord) : Prop where
  stores : ∀ frame place,
    (s.sysGetStats pid st).2.mm.frames frame place ≠ s.mm.frames frame place →
      ∃ pag < NUM_PAG_DATA, frame = s.dataFrame s.current pag
  refuses : ∀ index < SIZEOF_STATS, InCode (offset st index) →
    s.sysGetStats pid st = (.error EFAULT, s)

theorem sysGetStats_cases (s : State) (pid : DWord) (inUser : InUserPages st) :
    s.sysGetStats pid st = (.error EINVAL, s) ∨ s.sysGetStats pid st = (.error ESRCH, s) ∨
      ∃ i kernel, (s.sysGetStats pid st).1 = .ok 0 ∧ (s.sysGetStats pid st).2.mm =
        (copyToUser (Mm.bus kernel) (taskAddr i OFFSET_P_STATS) st SIZEOF_STATS s.mm).2 := by
  unfold State.sysGetStats
  rw [inUser.accessOk, if_neg Bool.noConfusion]
  split
  · exact .inl rfl
  · split
    · exact .inr (.inl rfl)
    · rename_i i _
      refine .inr (.inr ⟨i, (s.setStats i fun stats =>
        { stats with remainingTicks := s.remainingQuantum }).kernelByte, ?_⟩)
      generalize refreshed : s.setStats i _ = middle
      have memory : s.mm = middle.mm := by
        rw [← refreshed]
        rfl
      rw [memory]
      dsimp only
      generalize copyToUser _ _ _ _ _ = copied
      exact ⟨rfl, rfl⟩

theorem Spaced.loadedMap (spaced : Spaced code s queues) (page : Nat) :
    s.mm.loadedMap page = if (s.mm.pagusrTable s.current page).present then
      some (s.mm.getFrame s.current page) else none := by
  rw [Mm.loadedMap, spaced.loaded, spaced.space.rows]
  rfl

theorem Spaced.loadedMap_task (spaced : Spaced code s queues)
    (live : queues.Process s.idleTask s.current) (i : Task) :
    s.mm.loadedMap (taskPage i) = some (taskPage i) := by
  have below := taskPage_lt i
  have index := i.isLt
  have present : (s.mm.pagusrTable s.current (taskPage i)).present = true := by
    rcases spaced.space.layout _ live with original | forked
    · rw [original.kernel _ below, Mm.initTableEntry, if_neg]
      · simp only [taskPage, NR_TASKS] at index ⊢
        exact decide_eq_true (by omega)
      · have page : taskPage i = Image.protectedTasks + 1 + i := rfl
        omega
    · rw [forked.kernel _ below]
  rw [spaced.loadedMap, if_pos present, spaced.space.kernel_base live below]

theorem Spaced.loadedMap_data (spaced : Spaced code s queues)
    (live : queues.Process s.idleTask s.current) {pag : Nat} (bound : pag < NUM_PAG_DATA) :
    s.mm.loadedMap (PAG_LOG_INIT_DATA + pag) =
      some (s.mm.getFrame s.current (PAG_LOG_INIT_DATA + pag)) := by
  have entry := congrArg PageTableEntry.present (spaced.space.data _ live pag bound)
  rw [spaced.loadedMap, if_pos entry]

def userOwner (t : Task) (page : Nat) : Owner :=
  if page < PAG_LOG_INIT_DATA then .code (page - PAG_LOG_INIT_CODE)
  else .data t (page - PAG_LOG_INIT_DATA)

omit [Image] in
theorem userOwner_inj {t : Task} {p q : Nat} (first : PAG_LOG_INIT_CODE ≤ p)
    (second : PAG_LOG_INIT_CODE ≤ q) (same : userOwner t p = userOwner t q) : p = q := by
  unfold userOwner at same
  simp only [PAG_LOG_INIT_DATA, PAG_LOG_INIT_CODE, NUM_PAG_CODE, L_USER_START, PAGE_SIZE]
    at first second same
  split at same <;> split at same
  · have pages := Owner.code.inj same
    omega
  · exact Owner.noConfusion same
  · exact Owner.noConfusion same
  · have pages := (Owner.data.inj same).2
    omega

theorem Spaced.user_page (spaced : Spaced code s queues)
    (live : queues.Process s.idleTask s.current) {page : Nat} (low : PAG_LOG_INIT_CODE ≤ page)
    (high : page < PAG_LOG_INIT_DATA + NUM_PAG_DATA) :
    ∃ frame, s.mm.loadedMap page = some frame ∧ NUM_PAG_KERNEL ≤ frame ∧
      s.mm.Owns code (queues.Process s.idleTask) (userOwner s.current page) frame := by
  cases pageKind page with
  | kernel below => exact absurd below (Nat.not_lt.mpr low)
  | @code pag bound =>
      have present : (s.mm.pagusrTable s.current (PAG_LOG_INIT_CODE + pag)).present = true := by
        rcases spaced.space.layout _ live with original | forked
        · rw [original.code pag bound]
        · rw [forked.code pag bound]
      refine ⟨code pag, ?_, (spaced.space.code_inUse bound).1, ?_⟩
      · rw [spaced.loadedMap, if_pos present, spaced.space.code_base live bound]
      · rw [userOwner, if_pos (Nat.add_lt_add_left bound _), Nat.add_sub_cancel_left]
        exact ⟨bound, rfl⟩
  | @data pag bound =>
      refine ⟨_, spaced.loadedMap_data live bound, (spaced.space.data_inUse live bound).1, ?_⟩
      rw [userOwner, if_neg (Nat.not_lt.mpr (Nat.le_add_right ..)), Nat.add_sub_cancel_left]
      exact ⟨live, bound, rfl⟩
  | beyond above => exact absurd high (Nat.not_lt.mpr above)

omit [Image] in
theorem InUserPages.user_page (inUser : InUserPages st) {index : Nat} (bound : index < SIZEOF_STATS) :
    PAG_LOG_INIT_CODE ≤ PH_PAGE (offset st index) ∧
      PH_PAGE (offset st index) < PAG_LOG_INIT_DATA + NUM_PAG_DATA := by
  have bounds := inUser
  rw [PH_PAGE, inUser.offset_toNat bound]
  simp only [InUserPages, USER_FIRST_PAGE, L_USER_START, PAGE_SIZE, NUM_PAG_CODE, NUM_PAG_DATA,
    SIZEOF_STATS, PAG_LOG_INIT_DATA, PAG_LOG_INIT_CODE] at bounds bound ⊢
  omega

theorem Spaced.loadedMap_stats (spaced : Spaced code s queues)
    (live : queues.Process s.idleTask s.current) (i : Task) {index : Nat}
    (bound : index < SIZEOF_STATS) :
    s.mm.loadedMap (PH_PAGE (offset (taskAddr i OFFSET_P_STATS) index)) = some (taskPage i) := by
  have source : offset (taskAddr i OFFSET_P_STATS) index = taskAddr i (OFFSET_P_STATS + index) :=
    taskAddr_add i _ _ (by simp at bound ⊢; omega)
  rw [source, PH_PAGE_taskAddr i (by simp at bound ⊢; omega), spaced.loadedMap_task live]

/-- In the user pages `copy_to_user` is an exact copy. -/
theorem Spaced.stats_delivers (spaced : Spaced code s queues)
    (live : queues.Process s.idleTask s.current) (inUser : InUserPages st) (i : Task) :
    s.mm.Delivers (taskAddr i OFFSET_P_STATS) st SIZEOF_STATS := by
  have placed : ∀ index < SIZEOF_STATS, ∃ frame,
      s.mm.loadedMap (PH_PAGE (offset st index)) = some frame ∧ NUM_PAG_KERNEL ≤ frame ∧
      s.mm.Owns code (queues.Process s.idleTask)
        (userOwner s.current (PH_PAGE (offset st index))) frame := by
    intro index bound
    obtain ⟨low, high⟩ := inUser.user_page bound
    exact spaced.user_page live low high
  constructor
  · exact fun index bound => ⟨taskPage i, taskPage_lt i, spaced.loadedMap_stats live i bound⟩
  · intro index bound
    obtain ⟨frame, mapped, above, _⟩ := placed index bound
    exact ⟨frame, mapped, above⟩
  · intro i iBound j jBound same offsets
    obtain ⟨p, pMapped, _, pOwns⟩ := placed i iBound
    obtain ⟨q, qMapped, _, qOwns⟩ := placed j jBound
    rw [pMapped, qMapped, Option.some.injEq] at same
    subst same
    have pages := userOwner_inj (inUser.user_page iBound).1 (inUser.user_page jBound).1
      (spaced.space.pool.accounted.exclusive pOwns qOwns)
    rw [PH_PAGE, PH_PAGE, inUser.offset_toNat iBound, inUser.offset_toNat jBound] at pages
    rw [inUser.offset_toNat iBound, inUser.offset_toNat jBound] at offsets
    simp only [PAGE_SIZE] at pages offsets
    omega

omit [Image] in
theorem InUserPages.data_page (inUser : InUserPages st)
    (above : PAG_LOG_INIT_DATA * PAGE_SIZE ≤ st.toNat) {index : Nat}
    (bound : index < SIZEOF_STATS) :
    ∃ pag < NUM_PAG_DATA, PH_PAGE (offset st index) = PAG_LOG_INIT_DATA + pag := by
  have bounds := inUser
  rw [PH_PAGE, inUser.offset_toNat bound]
  simp only [InUserPages, USER_FIRST_PAGE, L_USER_START, PAGE_SIZE, NUM_PAG_CODE, NUM_PAG_DATA,
    SIZEOF_STATS, PAG_LOG_INIT_DATA, PAG_LOG_INIT_CODE] at bounds above bound ⊢
  exact ⟨(st.toNat + index) / 4096 - 264, by omega, by omega⟩

theorem Spaced.stats_stores (spaced : Spaced code s queues)
    (live : queues.Process s.idleTask s.current) (inUser : InUserPages st)
    (above : PAG_LOG_INIT_DATA * PAGE_SIZE ≤ st.toNat) (i : Task) (kernel : Nat → Nat → Byte)
    {frame place : Nat} (changed :
      (copyToUser (Mm.bus kernel) (taskAddr i OFFSET_P_STATS) st SIZEOF_STATS s.mm).2.frames
        frame place ≠ s.mm.frames frame place) :
    ∃ pag < NUM_PAG_DATA, frame = s.dataFrame s.current pag := by
  by_contra none
  have delivers := spaced.stats_delivers live inUser i
  refine changed (congrFun (delivers.frames spaced.coherent kernel fun index bound there => ?_) place)
  obtain ⟨pag, below, page⟩ := inUser.data_page above bound
  rw [page, spaced.loadedMap_data live below, Option.some.injEq] at there
  exact none ⟨pag, below, by rw [spaced.dataFrame live.1, there]⟩

theorem not_confined (inUser : InUserPages st) (below : st.toNat < PAG_LOG_INIT_DATA * PAGE_SIZE) :
    ¬ Confined s pid st := by
  intro confined
  have code : InCode (offset st 0) := by
    have bounds := inUser.1
    rw [offset_zero]
    simp only [InCode, PH_PAGE, USER_FIRST_PAGE, L_USER_START, PAGE_SIZE, PAG_LOG_INIT_CODE,
      PAG_LOG_INIT_DATA, NUM_PAG_CODE] at bounds below ⊢
    omega
  have refused := confined.refuses 0 (by decide) code
  rcases sysGetStats_cases s pid inUser with invalid | unknown | ⟨_, _, found, _⟩
  · have codes := Except.error.inj (congrArg Prod.fst (invalid.symm.trans refused))
    exact absurd codes (by decide)
  · have codes := Except.error.inj (congrArg Prod.fst (unknown.symm.trans refused))
    exact absurd codes (by decide)
  · rw [refused] at found
    simp at found

/-- For a range inside the user pages, a call of `sys_get_stats` by a process, in any state
reachable under one policy, is confined to its data pages exactly when the range begins in
the data pages. -/
theorem confined_iff (reachable : (kernel installed memory).Reachable s)
    (process : s.current ≠ s.idleTask) (pid : DWord) {st : DWord} (inUser : InUserPages st) :
    Confined s pid st ↔ PAG_LOG_INIT_DATA * PAGE_SIZE ≤ st.toNat := by
  refine ⟨fun confined => Nat.le_of_not_lt fun below => not_confined inUser below confined,
    fun above => ?_⟩
  obtain ⟨queues, sched, spaced⟩ := spaced_of_reachable reachable
  have live : queues.Process s.idleTask s.current := ⟨sched.current_off .freequeue, process⟩
  constructor
  · intro frame place changed
    rcases sysGetStats_cases s pid inUser with invalid | unknown | ⟨i, kernel, _, copied⟩
    · rw [invalid] at changed
      exact absurd rfl changed
    · rw [unknown] at changed
      exact absurd rfl changed
    · rw [copied] at changed
      exact spaced.stats_stores live inUser above i kernel changed
  · intro index bound inCode
    obtain ⟨pag, _, page⟩ := inUser.data_page above bound
    exact absurd inCode.2 (by rw [page]; exact Nat.not_lt.mpr (Nat.le_add_right _ _))

end

/-- The first address of the data pages, for the first process itself. -/
theorem confined_iff_dataStart :
    @Confined Image.sample sampleBoot 1 0x108000 ↔
      PAG_LOG_INIT_DATA * PAGE_SIZE ≤ (0x108000 : DWord).toNat :=
  @confined_iff Image.sample .RR State.blank sampleBoot (.initial rfl) (by decide) 1 0x108000
    ⟨by decide, by decide⟩

/-- The first address of the code pages passes the check. -/
theorem stats_reach_code :
    ¬ ∀ s, (sampleKernel .RR).Reachable s → s.current ≠ s.idleTask →
      ∀ pid st, InUserPages st → @Confined Image.sample s pid st := fun always =>
  @not_confined Image.sample sampleBoot 1 0x100000 ⟨by decide, by decide⟩ (by decide)
    (always sampleBoot (.initial rfl) (by decide) 1 0x100000 ⟨by decide, by decide⟩)

/-- There it writes over the program: the remaining quantum, 10, lands in code. -/
example : (@State.sysGetStats Image.sample sampleBoot 1 0x100000).1 = .ok 0 ∧
    (@State.sysGetStats Image.sample sampleBoot 1 0x100000).2.mm.frames NUM_PAG_KERNEL 24 = 10 ∧
    sampleBoot.mm.frames NUM_PAG_KERNEL 24 = 0 := by
  decide +kernel

end Zeos
