import Zeos.Syscall.Stats

/-!
# `access_ok` for reads

The check compares the page of the first byte with the page of the first byte that is
not read any more. It is exact but for two kinds of range: those that end inside the
page after the user pages, and those that wrap around back into their first page.
-/

namespace Zeos

open Library

@[simp] abbrev USER_END_PAGE : Nat := USER_FIRST_PAGE + NUM_PAG_CODE + NUM_PAG_DATA

/-- The range does not wrap, and each byte of it lies in a user page. -/
def InUserRange (addr size : DWord) : Prop :=
  addr.toNat + size.toNat ≤ 0x100000000 ∧ ∀ index < size.toNat,
    USER_FIRST_PAGE ≤ (addr.toNat + index) / PAGE_SIZE ∧
      (addr.toNat + index) / PAGE_SIZE < USER_END_PAGE

/-- The range ends inside the page after the user pages. -/
def EndsPast (addr size : DWord) : Prop :=
  USER_FIRST_PAGE * PAGE_SIZE ≤ addr.toNat ∧ USER_END_PAGE * PAGE_SIZE < addr.toNat + size.toNat ∧
    addr.toNat + size.toNat < (USER_END_PAGE + 1) * PAGE_SIZE

/-- The range wraps around and ends in the page it began in. -/
def WrapsBack (addr size : DWord) : Prop :=
  USER_FIRST_PAGE ≤ PH_PAGE addr ∧ PH_PAGE addr ≤ USER_END_PAGE ∧
    0x100000000 ≤ addr.toNat + size.toNat ∧ PH_PAGE (addr + size) = PH_PAGE addr

theorem accessOk_read_iff (addr size : DWord) : accessOk VERIFY_READ addr size = true ↔
    PH_PAGE addr ≤ PH_PAGE (addr + size) ∧ USER_FIRST_PAGE ≤ PH_PAGE addr ∧
      PH_PAGE (addr + size) ≤ USER_END_PAGE := by
  have notWrite : VERIFY_READ ≠ VERIFY_WRITE := by decide
  simp only [accessOk, PH_PAGE, notWrite, false_and, if_false, USER_END_PAGE]
  split
  · rename_i below
    refine ⟨fun passed => absurd passed Bool.false_ne_true, fun bounds => ?_⟩
    exact absurd bounds.1 (Nat.not_le.mpr below)
  · rename_i ordered
    rw [decide_eq_true_iff]
    exact ⟨fun bounds => ⟨Nat.le_of_not_lt ordered, bounds⟩, And.right⟩

theorem inUserRange_iff {addr size : DWord} (nonempty : 0 < size.toNat) :
    InUserRange addr size ↔ USER_FIRST_PAGE * PAGE_SIZE ≤ addr.toNat ∧
      addr.toNat + size.toNat ≤ USER_END_PAGE * PAGE_SIZE := by
  simp only [InUserRange, USER_END_PAGE, USER_FIRST_PAGE, L_USER_START, PAGE_SIZE, NUM_PAG_CODE,
    NUM_PAG_DATA]
  constructor
  · rintro ⟨_, inside⟩
    have first := inside 0 nonempty
    have last := inside (size.toNat - 1) (by omega)
    omega
  · rintro ⟨low, high⟩
    refine ⟨by omega, fun index bound => ?_⟩
    omega

theorem accessOk_read_exact {addr size : DWord} (nonempty : 0 < size.toNat) :
    (accessOk VERIFY_READ addr size = true ↔ InUserRange addr size) ↔
      ¬ EndsPast addr size ∧ ¬ WrapsBack addr size := by
  have start := addr.isLt
  have length := size.isLt
  have last : (addr + size).toNat = (addr.toNat + size.toNat) % 0x100000000 :=
    BitVec.toNat_add addr size
  rw [accessOk_read_iff, inUserRange_iff nonempty]
  simp only [EndsPast, WrapsBack, PH_PAGE, last, USER_END_PAGE, USER_FIRST_PAGE, L_USER_START,
    PAGE_SIZE, NUM_PAG_CODE, NUM_PAG_DATA]
  generalize addr.toNat = first at *
  generalize size.toNat = count at *
  by_cases wraps : 0x100000000 ≤ first + count
  · have wrapped : (first + count) % 0x100000000 = first + count - 0x100000000 := by omega
    rw [wrapped]
    omega
  · rw [Nat.mod_eq_of_lt (Nat.lt_of_not_le wraps)]
    omega

/-- The page is mapped for the running task, as a page of its own. -/
def UserMapped (s : State) (page : Nat) : Prop :=
  s.Mapped page ∧ (s.mm.pagusrTable (s.mm.dirPages s.mm.cr3).pbaseAddr page).user = true

section

variable [Image]

variable {installed : Installed} {memory s : State} {queues : Queues} {code : Nat → Nat}
  {addr size : DWord}

theorem Spaced.userMapped (spaced : Spaced code s queues)
    (live : queues.Process s.idleTask s.current) {page : Nat} (low : USER_FIRST_PAGE ≤ page)
    (high : page < USER_END_PAGE) : UserMapped s page := by
  rw [UserMapped, State.Mapped, spaced.loaded, spaced.space.rows]
  cases pageKind page with
  | kernel below => exact absurd below (Nat.not_lt.mpr low)
  | code bound =>
      rcases spaced.space.layout _ live with original | forked
      · rw [original.code _ bound]
        exact ⟨rfl, rfl⟩
      · rw [forked.code _ bound]
        exact ⟨rfl, rfl⟩
  | data bound =>
      rw [spaced.space.data _ live _ bound]
      exact ⟨rfl, rfl⟩
  | beyond above => exact absurd high (Nat.not_lt.mpr above)

/-- A call of a process that passed the check reads mapped user pages only. -/
def ReadsMapped (s : State) (addr size : DWord) : Prop :=
  accessOk VERIFY_READ addr size = true →
    ∀ index < size.toNat, UserMapped s (PH_PAGE (offset addr index))

theorem InUserRange.readsMapped (inRange : InUserRange addr size) (spaced : Spaced code s queues)
    (live : queues.Process s.idleTask s.current) : ReadsMapped s addr size := by
  intro _ index bound
  have page : PH_PAGE (offset addr index) = (addr.toNat + index) / PAGE_SIZE := by
    have start := addr.isLt
    have inside := inRange.1
    rw [PH_PAGE, offset, BitVec.toNat_add, BitVec.toNat_ofNat]
    congr 1
    omega
  rw [page]
  exact spaced.userMapped live (inRange.2 index bound).1 (inRange.2 index bound).2

/-- The check of a nonempty range is exact, and sound for every process in every state
reachable under one policy, exactly for the ranges that neither end inside the page after the user
pages nor wrap around back into their first page. -/
theorem read_check_exact_iff (nonempty : 0 < size.toNat) :
    ((accessOk VERIFY_READ addr size = true ↔ InUserRange addr size) ∧
      ∀ s, (kernel installed memory).Reachable s → s.current ≠ s.idleTask →
        ReadsMapped s addr size) ↔
      ¬ EndsPast addr size ∧ ¬ WrapsBack addr size := by
  rw [← accessOk_read_exact nonempty]
  refine ⟨And.left, fun exact_check => ⟨exact_check, ?_⟩⟩
  intro s reachable process passed
  obtain ⟨queues, sched, spaced⟩ := spaced_of_reachable reachable
  have live : queues.Process s.idleTask s.current := ⟨sched.current_off .freequeue, process⟩
  exact (exact_check.mp passed).readsMapped spaced live passed

end

/-- The last byte of the user pages. -/
theorem read_check_exact_iff_lastByte :
    ((accessOk VERIFY_READ 0x11BFFF 1 = true ↔ InUserRange 0x11BFFF 1) ∧
      ∀ s, (sampleKernel .RR).Reachable s → s.current ≠ s.idleTask →
        ReadsMapped s 0x11BFFF 1) ↔
      ¬ EndsPast 0x11BFFF 1 ∧ ¬ WrapsBack 0x11BFFF 1 :=
  @read_check_exact_iff Image.sample .RR State.blank 0x11BFFF 1 (by decide)

/-- The last byte of the user pages and the first one after them. -/
theorem read_past_end : ¬ ∀ addr size : DWord, 0 < size.toNat →
    (accessOk VERIFY_READ addr size = true ↔ InUserRange addr size) := by
  intro always
  have inRange := (always 0x11BFFF 2 (by decide)).mp (by decide)
  exact absurd (inRange.2 1 (by decide)).2 (by decide)

end Zeos
