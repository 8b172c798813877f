import Zeos.Boot.Build
import Zeos.Boot.ReadIt
import Zeos.Identity.Answers

/-!
# From the disk to the first process

The kernel finds the two sizes in its first bytes and copies the user program behind it to
the user pages. Builder, loader and kernel agree as long as the image ends below the boot
block, the program fits the user pages, and the kernel has mapped where it lies.
-/

namespace Zeos

open Library

namespace Boot

abbrev PH_USER_START : DWord := 0x100000
abbrev pSysSize : DWord := 0x10000
abbrev pUsrSize : DWord := pSysSize + 4

/-- The frames of the kernel hold the memory below the user pages. -/
def kernelFrames (ram : Nat → Byte) (frame place : Nat) : Byte := ram (frame * PAGE_SIZE + place)

/-- `*p` for a pointer to `unsigned int`. -/
def loadWord (ram : Nat → Byte) (p : DWord) (mm : Mm) : DWord × Mm :=
  let loaded := (Mm.bus (kernelFrames ram)).loadMany 4 p mm
  (BitVec.ofNat 32 (Bytes.value loaded.1), loaded.2)

structure Moved where
  sysSize : DWord
  usrSize : DWord
  mm : Mm

/-- `copy_data((void *) KERNEL_START + *p_sys_size, usr_main, *p_usr_size)` -/
def moveUser (ram : Nat → Byte) (mm : Mm) : Moved :=
  let sys := loadWord ram pSysSize mm
  let usr := loadWord ram pUsrSize sys.2
  { sysSize := sys.1
    usrSize := usr.1
    mm := copyData (Mm.bus (kernelFrames ram)) (0x10000 + sys.1) PH_USER_START usr.1.toInt usr.2 }

section

variable [image : Image]

/-- The two pages around the task array, which are not present. -/
def Guard (page : Nat) : Prop :=
  page = image.protectedTasks ∨ page = image.protectedTasks + NR_TASKS + 1

structure FirstSpace (mm : Mm) : Prop where
  coherent : mm.Coherent
  fault : mm.fault = false
  kernel : ∀ page, 0 < page → page < NUM_PAG_KERNEL →
    mm.loadedMap page = some page ∧ ¬ Guard page ∨ mm.loadedMap page = none ∧ Guard page
  user : ∀ page, PAG_LOG_INIT_CODE ≤ page → page < PAG_LOG_INIT_DATA + NUM_PAG_DATA →
    ∃ frame, mm.loadedMap page = some frame ∧ NUM_PAG_KERNEL ≤ frame
  apart : ∀ first second, PAG_LOG_INIT_CODE ≤ first → first < PAG_LOG_INIT_DATA + NUM_PAG_DATA →
    PAG_LOG_INIT_CODE ≤ second → second < PAG_LOG_INIT_DATA + NUM_PAG_DATA →
    mm.loadedMap first = mm.loadedMap second → first = second
  beyond : mm.loadedMap (PAG_LOG_INIT_DATA + NUM_PAG_DATA) = none

theorem boot_firstSpace (memory : State) : FirstSpace memory.boot.mm := by
  obtain ⟨original, spaced⟩ := boot_spaced memory
  have current : memory.boot.current = 1 := memory.boot_current
  have process : memory.boot.current ≠ memory.boot.idleTask := by
    rw [current, State.boot_idleTask]
    decide
  have live : Queues.boot.Process memory.boot.idleTask memory.boot.current :=
    ⟨(boot_sched .RR memory).current_off .freequeue, process⟩
  refine ⟨spaced.coherent, spaced.space.fault, fun page low high => ?_, fun page low high => ?_,
    fun first second firstLow firstHigh secondLow secondHigh same => ?_, ?_⟩
  · have entry := original.kernel page high
    have inside : ¬ (page = 0 ∨ NUM_PAG_KERNEL ≤ page) := by omega
    rw [Mm.initTableEntry, if_neg inside] at entry
    rw [spaced.loadedMap, current, Mm.getFrame, entry]
    dsimp only
    by_cases guard : Guard page
    · refine .inr ⟨if_neg ?_, guard⟩
      rw [decide_eq_true_iff]
      exact fun apart => guard.elim apart.1 apart.2
    · exact .inl ⟨if_pos (decide_eq_true (not_or.mp guard)), guard⟩
  · obtain ⟨frame, mapped, above, _⟩ := spaced.user_page live low high
    exact ⟨frame, mapped, above⟩
  · obtain ⟨one, oneMapped, _, oneOwns⟩ := spaced.user_page live firstLow firstHigh
    obtain ⟨two, twoMapped, _, twoOwns⟩ := spaced.user_page live secondLow secondHigh
    rw [oneMapped, twoMapped, Option.some.injEq] at same
    subst same
    exact userOwner_inj firstLow secondLow (spaced.space.pool.accounted.exclusive oneOwns twoOwns)
  · rw [spaced.loadedMap, spaced.space.beyond _ _ (Nat.le_refl _)]
    rfl

abbrev mainView (ram : Nat → Byte) (mm : Mm) (coherent : mm.Coherent) :=
  mm.window (kernelFrames ram) mm.loadedMap coherent.maps

variable {ram : Nat → Byte} {start mm : Mm} {system user : List Byte}

omit image in
theorem kernelFrames_address (ram : Nat → Byte) (address : Nat) :
    kernelFrames ram (address / PAGE_SIZE) (address % PAGE_SIZE) = ram address :=
  congrArg ram (Nat.div_add_mod' address PAGE_SIZE)

theorem FirstSpace.findsRam (space : FirstSpace start) (ram : Nat → Byte) {address : DWord}
    (low : PAGE_SIZE ≤ address.toNat) (high : address.toNat < 0x100000)
    (present : ¬ Guard (PH_PAGE address)) :
    start.loadedMap (PH_PAGE address) = some (PH_PAGE address) ∧
      PH_PAGE address < NUM_PAG_KERNEL ∧
      (mainView ram start space.coherent).cell start
        ((mainView ram start space.coherent).place address) = ram address.toNat := by
  have positive : 0 < PH_PAGE address := Nat.div_pos low (by decide)
  have below : PH_PAGE address < NUM_PAG_KERNEL := by
    rw [PH_PAGE]
    simp only [PAGE_SIZE, NUM_PAG_KERNEL]
    omega
  obtain ⟨mapped, _⟩ | ⟨_, guard⟩ := space.kernel _ positive below
  · refine ⟨mapped, below, ?_⟩
    rw [Mm.loadedMap_place space.coherent _ mapped]
    show (if PH_PAGE address < NUM_PAG_KERNEL then _ else _) = _
    rw [if_pos below]
    exact kernelFrames_address ram address.toNat
  · exact absurd guard present

def word (ram : Nat → Byte) (address : Nat) : Nat :=
  Bytes.value [ram address, ram (address + 1), ram (address + 2), ram (address + 3)]

structure Reads (ram : Nat → Byte) (start : Mm) (coherent : start.Coherent) (mm : Mm) : Prop where
  holds : (mainView ram start coherent).holds mm
  cells : (mainView ram start coherent).cell mm = (mainView ram start coherent).cell start

omit image in
theorem Reads.refl (ram : Nat → Byte) (coherent : mm.Coherent) : Reads ram mm coherent mm :=
  ⟨Mm.window_start .., rfl⟩

omit image in
theorem loadWord_keeps {inv : Mm → Prop} (keeps : (Mm.bus (kernelFrames ram)).Keeps inv)
    (holds : inv mm) (p : DWord) : inv (loadWord ram p mm).2 := by
  unfold loadWord
  dsimp only
  exact keeps.loadMany 4 holds

theorem FirstSpace.loadWord (space : FirstSpace start) (reads : Reads ram start space.coherent mm)
    {p : DWord} (low : PAGE_SIZE ≤ p.toNat) (high : p.toNat + 4 ≤ 0x100000)
    (present : ∀ index < 4, ¬ Guard (PH_PAGE (offset p index))) :
    (Boot.loadWord ram p mm).1 = BitVec.ofNat 32 (word ram p.toNat) ∧
      Reads ram start space.coherent (Boot.loadWord ram p mm).2 := by
  have address : ∀ index < 4, (offset p index).toNat = p.toNat + index :=
    fun index bound => Bus.offset_toNat (by omega) bound
  have found : ∀ index < 4, _ := fun index bound =>
    space.findsRam ram (show PAGE_SIZE ≤ (offset p index).toNat by rw [address index bound]; omega)
      (by rw [address index bound]; omega) (present index bound)
  have covers : Bus.Covers (mainView ram start space.coherent).readable p 4 :=
    fun index bound => ⟨_, (found index bound).1⟩
  obtain ⟨holds, cells, length, values⟩ := Bus.Window.loadMany_spec 4 reads.holds covers
  unfold Boot.loadWord
  dsimp only
  generalize (Mm.bus (kernelFrames ram)).loadMany 4 p mm = loaded at *
  refine ⟨?_, holds, cells.trans reads.cells⟩
  have bytes : loaded.1 =
      [ram p.toNat, ram (p.toNat + 1), ram (p.toNat + 2), ram (p.toNat + 3)] := by
    apply List.ext_getElem?
    intro index
    by_cases bound : index < 4
    · rw [values index bound, reads.cells, (found index bound).2.2, address index bound]
      have cases : index = 0 ∨ index = 1 ∨ index = 2 ∨ index = 3 := by omega
      rcases cases with rfl | rfl | rfl | rfl <;> rfl
    · have after := Nat.le_of_not_lt bound
      rw [List.getElem?_eq_none (by rw [length]; exact after), List.getElem?_eq_none after]
  rw [bytes, word]

/-- The kernel is told both sizes, the user pages begin with the program, and nothing else
changes. -/
structure HandsOver (system user : List Byte) (before : Mm) (moved : Moved) : Prop where
  sysSize : moved.sysSize.toNat = system.length
  usrSize : moved.usrSize.toNat = user.length
  returns : moved.mm.fault = false
  bytes : ∀ index < user.length, ∃ frame,
    before.loadedMap (PH_PAGE (offset PH_USER_START index)) = some frame ∧
      user[index]? = some (moved.mm.frames frame ((offset PH_USER_START index).toNat % PAGE_SIZE))
  others : ∀ frame place, (∀ index < user.length,
    before.loadedMap (PH_PAGE (offset PH_USER_START index)) = some frame →
      place ≠ (offset PH_USER_START index).toNat % PAGE_SIZE) →
    moved.mm.frames frame place = before.frames frame place

/-- The sizes and the program are in memory, below the boot block. -/
structure Handed (system user : List Byte) (ram : Nat → Byte) : Prop where
  below : system.length + user.length ≤ 0x7FFF0
  sysSize : word ram 0x10000 = system.length
  usrSize : word ram 0x10004 = user.length
  user : ∀ index < user.length, user[index]? = some (ram (0x10000 + system.length + index))

/-- What the kernel can copy: a program that fits the user pages, from pages it has mapped. -/
structure Copyable (system user : List Byte) : Prop where
  fits : user.length ≤ (NUM_PAG_CODE + NUM_PAG_DATA) * PAGE_SIZE
  header : ¬ Guard (0x10000 / PAGE_SIZE)
  source : ∀ index < user.length, ¬ Guard ((0x10000 + system.length + index) / PAGE_SIZE)

/-- Where the program lies behind the system. -/
def source (system : List Byte) : DWord := 0x10000 + BitVec.ofNat 32 system.length

omit image in
theorem Handed.source_toNat (handed : Handed system user ram) {index : Nat}
    (bound : index < user.length) :
    (offset (source system) index).toNat = 0x10000 + system.length + index := by
  have below := handed.below
  have start : (source system).toNat = 0x10000 + system.length := by
    have base : (0x10000 : DWord).toNat = 0x10000 := rfl
    rw [source, BitVec.toNat_add, base, BitVec.toNat_ofNat]
    omega
  rw [Bus.offset_toNat (by omega) bound, start]

theorem Handed.findsRam (handed : Handed system user ram) (space : FirstSpace start) {index : Nat}
    (bound : index < user.length)
    (present : ¬ Guard ((0x10000 + system.length + index) / PAGE_SIZE)) :
    start.loadedMap (PH_PAGE (offset (source system) index)) =
        some (PH_PAGE (offset (source system) index)) ∧
      PH_PAGE (offset (source system) index) < NUM_PAG_KERNEL ∧
      (mainView ram start space.coherent).cell start
        ((mainView ram start space.coherent).place (offset (source system) index)) =
          ram (offset (source system) index).toNat := by
  have below := handed.below
  have address := handed.source_toNat bound
  rw [← address] at present
  apply space.findsRam ram ?_ ?_ present
  · rw [address]
    simp only [PAGE_SIZE]
    omega
  · rw [address]
    omega

omit image in
theorem dest_toNat {index : Nat} (bound : index < 0x80000) :
    (offset PH_USER_START index).toNat = 0x100000 + index :=
  Bus.offset_toNat (show PH_USER_START.toNat + 0x80000 ≤ 0x100000000 by decide) bound

theorem FirstSpace.moveUser_eq (space : FirstSpace start) (handed : Handed system user ram)
    (header : ¬ Guard (0x10000 / PAGE_SIZE)) :
    ∃ mm, Reads ram start space.coherent mm ∧ start.Accessed mm ∧
      moveUser ram start = ⟨BitVec.ofNat 32 system.length, BitVec.ofNat 32 user.length,
        wordLoop (Mm.bus (kernelFrames ram)) user.length (source system) PH_USER_START mm⟩ := by
  have below := handed.below
  have page : ∀ index < 8, ¬ Guard (PH_PAGE (offset pSysSize index)) := by
    intro index bound
    have address : (offset pSysSize index).toNat = 0x10000 + index :=
      Bus.offset_toNat (show pSysSize.toNat + 8 ≤ 0x100000000 by decide) bound
    have same : (0x10000 + index) / PAGE_SIZE = 0x10000 / PAGE_SIZE := by
      simp only [PAGE_SIZE]
      omega
    rw [PH_PAGE, address, same]
    exact header
  have keeps := Mm.bus_keeps_accessed start (kernelFrames ram)
  obtain ⟨sysSize, first⟩ := space.loadWord (Reads.refl ram space.coherent)
    (show PAGE_SIZE ≤ pSysSize.toNat by decide) (by decide) fun index bound => page index (by omega)
  have firstAccessed : start.Accessed (Boot.loadWord ram pSysSize start).2 :=
    loadWord_keeps keeps (.refl space.coherent) pSysSize
  obtain ⟨usrSize, second⟩ := space.loadWord first
    (show PAGE_SIZE ≤ pUsrSize.toNat by decide) (by decide) fun index bound => by
      have next : offset pUsrSize index = offset pSysSize (4 + index) :=
        offset_add pSysSize 4 index
      rw [next]
      exact page (4 + index) (by omega)
  have secondAccessed : start.Accessed
      (Boot.loadWord ram pUsrSize (Boot.loadWord ram pSysSize start).2).2 :=
    loadWord_keeps keeps firstAccessed pUsrSize
  have length : (BitVec.ofNat 32 user.length).toInt.toNat = user.length := by
    rw [BitVec.toInt_eq_toNat_of_lt (by rw [BitVec.toNat_ofNat]; omega), Int.toNat_natCast,
      BitVec.toNat_ofNat]
    omega
  refine ⟨_, second, secondAccessed, ?_⟩
  have sysWord : word ram pSysSize.toNat = system.length := handed.sysSize
  have usrWord : word ram pUsrSize.toNat = user.length := handed.usrSize
  unfold moveUser copyData
  dsimp only
  rw [sysSize, usrSize, sysWord, usrWord, length, source]

theorem FirstSpace.delivers (space : FirstSpace start) (handed : Handed system user ram)
    (copyable : Copyable system user) :
    start.Delivers (source system) PH_USER_START user.length := by
  have below := handed.below
  have fits := copyable.fits
  simp only [NUM_PAG_CODE, NUM_PAG_DATA, PAGE_SIZE] at fits
  have pages : ∀ index < user.length, PAG_LOG_INIT_CODE ≤ PH_PAGE (offset PH_USER_START index) ∧
      PH_PAGE (offset PH_USER_START index) < PAG_LOG_INIT_DATA + NUM_PAG_DATA := by
    intro index bound
    rw [PH_PAGE, dest_toNat (by omega)]
    simp only [PAG_LOG_INIT_CODE, PAG_LOG_INIT_DATA, L_USER_START, NUM_PAG_CODE, NUM_PAG_DATA,
      PAGE_SIZE]
    omega
  constructor
  · intro index bound
    obtain ⟨mapped, kernel, _⟩ := handed.findsRam space bound (copyable.source index bound)
    exact ⟨_, kernel, mapped⟩
  · intro index bound
    obtain ⟨low, high⟩ := pages index bound
    exact space.user _ low high
  · intro i iBound j jBound same offsets
    have page := space.apart _ _ (pages i iBound).1 (pages i iBound).2 (pages j jBound).1
      (pages j jBound).2 same
    rw [PH_PAGE, PH_PAGE, dest_toNat (by omega), dest_toNat (by omega)] at page
    rw [dest_toNat (by omega), dest_toNat (by omega)] at offsets
    simp only [PAGE_SIZE] at page offsets
    omega

theorem FirstSpace.handsOver_of_copyable (space : FirstSpace start)
    (handed : Handed system user ram) (copyable : Copyable system user) :
    HandsOver system user start (moveUser ram start) := by
  have below := handed.below
  obtain ⟨mm, reads, _, result⟩ := space.moveUser_eq handed copyable.header
  have delivers := space.delivers handed copyable
  have copied := delivers.copies space.coherent (kernelFrames ram) reads.holds
  rw [result]
  generalize wordLoop (Mm.bus (kernelFrames ram)) user.length (source system) PH_USER_START mm =
    after at copied
  obtain ⟨_, _, _, shape, _⟩ := copied.holds.1
  have same : ∀ place, (mainView ram start space.coherent).cell mm place =
      (mainView ram start space.coherent).cell start place := congrFun reads.cells
  have contents : ∀ (any : Mm) frame place, NUM_PAG_KERNEL ≤ frame →
      (mainView ram start space.coherent).cell any (frame, place) = any.frames frame place :=
    fun any frame place above => if_neg (Nat.not_lt.mpr above)
  refine ⟨?_, ?_, ?_, fun index bound => ?_, fun frame place outside => ?_⟩
  · rw [BitVec.toNat_ofNat]
    omega
  · rw [BitVec.toNat_ofNat]
    omega
  · rw [shape]
    exact space.fault
  · obtain ⟨frame, mapped, above⟩ := delivers.writes index bound
    have found := (handed.findsRam space bound (copyable.source index bound)).2.2
    have arrived := copied.bytes index bound
    rw [Mm.loadedMap_place space.coherent _ mapped, contents _ _ _ above, same, found,
      handed.source_toNat bound] at arrived
    refine ⟨frame, mapped, ?_⟩
    rw [arrived]
    exact handed.user index bound
  · rcases Nat.lt_or_ge frame NUM_PAG_KERNEL with low | above
    · rw [copied.holds.2 frame low]
    · have kept := copied.frame (frame, place) fun index bound equal => by
        obtain ⟨other, mapped, _⟩ := delivers.writes index bound
        rw [Mm.loadedMap_place space.coherent _ mapped, Prod.mk.injEq] at equal
        exact outside index bound (equal.1 ▸ mapped) equal.2
      rwa [same, contents _ _ _ above, contents _ _ _ above] at kept

variable {page : Nat}

theorem FirstSpace.guarded (space : FirstSpace start) (low : 0 < page)
    (high : page < NUM_PAG_KERNEL) (guard : Guard page) : start.loadedMap page = none := by
  obtain ⟨_, absent⟩ | ⟨unmapped, _⟩ := space.kernel page low high
  · exact absurd guard absent
  · exact unmapped

omit image in
theorem moveUser_keeps {inv : Mm → Prop} (keeps : (Mm.bus (kernelFrames ram)).Keeps inv)
    (holds : inv (loadWord ram pSysSize start).2) : inv (moveUser ram start).mm := by
  unfold moveUser copyData
  dsimp only
  exact wordLoop_keeps keeps _ (loadWord_keeps keeps holds pUsrSize)

theorem FirstSpace.header_faults (space : FirstSpace start) (ram : Nat → Byte)
    (guard : Guard (0x10000 / PAGE_SIZE)) : (moveUser ram start).mm.fault = true := by
  have keeps := Mm.bus_keeps_accessed start (kernelFrames ram)
  have stuck : (Mm.bus (kernelFrames ram)).Keeps fun mm => start.Accessed mm ∧ mm.fault = true :=
    Mm.bus_keeps_fault (kernelFrames ram)
  have unmapped : start.loadedMap (PH_PAGE (offset pSysSize 0)) = none :=
    space.guarded (by decide) (by decide) guard
  refine (moveUser_keeps stuck ?_).2
  unfold Boot.loadWord
  dsimp only
  apply keeps.loadMany_bad stuck 4 (.refl space.coherent) (show 0 < 4 by decide)
  exact fun mm accessed => ⟨keeps.load mm _ accessed, accessed.load_faults unmapped⟩

theorem FirstSpace.copy_faults (space : FirstSpace start) (handed : Handed system user ram)
    (header : ¬ Guard (0x10000 / PAGE_SIZE)) {index : Nat} (bound : index < user.length)
    (unmapped : start.loadedMap (PH_PAGE (offset (source system) index)) = none ∨
      start.loadedMap (PH_PAGE (offset PH_USER_START index)) = none) :
    (moveUser ram start).mm.fault = true := by
  obtain ⟨mm, _, accessed, result⟩ := space.moveUser_eq handed header
  have keeps := Mm.bus_keeps_accessed start (kernelFrames ram)
  have stuck : (Mm.bus (kernelFrames ram)).Keeps fun mm => start.Accessed mm ∧ mm.fault = true :=
    Mm.bus_keeps_fault (kernelFrames ram)
  rw [result]
  dsimp only
  cases unmapped with
  | inl source =>
      refine (wordLoop_bad_load keeps stuck user.length accessed bound ?_).2
      exact fun mm accessed => ⟨keeps.load mm _ accessed, accessed.load_faults source⟩
  | inr dest =>
      refine (wordLoop_bad keeps stuck user.length accessed bound ?_).2
      exact fun mm byte accessed =>
        ⟨keeps.store mm _ byte accessed, accessed.store_faults dest byte⟩

theorem FirstSpace.copyable_of_returns (space : FirstSpace start)
    (handed : Handed system user ram) (returns : (moveUser ram start).mm.fault = false) :
    Copyable system user := by
  have below := handed.below
  have header : ¬ Guard (0x10000 / PAGE_SIZE) := by
    intro guard
    rw [space.header_faults ram guard] at returns
    cases returns
  refine ⟨?_, header, fun index bound guard => ?_⟩
  · by_contra large
    have bound : 0x1C000 < user.length := Nat.lt_of_not_le large
    have unmapped : start.loadedMap (PH_PAGE (offset PH_USER_START 0x1C000)) = none := by
      rw [PH_PAGE, dest_toNat (by omega)]
      exact space.beyond
    rw [space.copy_faults handed header bound (.inr unmapped)] at returns
    cases returns
  · have address := handed.source_toNat bound
    have unmapped : start.loadedMap (PH_PAGE (offset (source system) index)) = none := by
      rw [PH_PAGE, address]
      apply space.guarded ?_ ?_ guard
      · simp only [PAGE_SIZE]
        omega
      · simp only [PAGE_SIZE, NUM_PAG_KERNEL]
        omega
    rw [space.copy_faults handed header bound (.inl unmapped)] at returns
    cases returns

/-- `main` moves the program exactly when it has pages on both sides. -/
theorem FirstSpace.handsOver_iff (space : FirstSpace start) (handed : Handed system user ram) :
    HandsOver system user start (moveUser ram start) ↔ Copyable system user :=
  ⟨fun hands => space.copyable_of_returns handed hands.returns,
    space.handsOver_of_copyable handed⟩

end

end Boot

end Zeos
