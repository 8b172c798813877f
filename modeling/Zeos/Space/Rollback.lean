import Zeos.Space.Frames

/-!
# The rollback of `sys_fork` in memory

Whatever the frame map, the pages that were mapped when `alloc_frame` gave up are
unmapped again and their frames are free again, but for the lowest frame, which
`free_frame` skips.
-/

namespace Zeos

namespace Mm

variable {start mm after : Mm} {table : Task} {count pag : Nat}

/-- The allocation loop up to `count`: each page has a frame that was free. -/
structure Takes (start : Mm) (table : Task) (count : Nat) (after : Mm) : Prop where
  remaps : start.Remaps table PAG_LOG_INIT_DATA count after
  taken : ∀ pag < count, after.getFrame table (PAG_LOG_INIT_DATA + pag) ∈ allocatable ∧
    start.physMem (after.getFrame table (PAG_LOG_INIT_DATA + pag)) = FREE_FRAME
  others : ∀ frame, (∀ pag < count, frame ≠ after.getFrame table (PAG_LOG_INIT_DATA + pag)) →
    after.physMem frame = start.physMem frame

theorem Takes.step (takes : start.Takes table count mm) {frame : Nat}
    (allocated : mm.allocFrame = (some frame, after)) :
    start.Takes table (count + 1) (after.setSsPag table (PAG_LOG_INIT_DATA + count) frame) := by
  obtain ⟨member, free, rfl⟩ := allocFrame_some allocated
  obtain ⟨_, high, _⟩ := mem_allocatable.mp member
  have fits : frame % 2 ^ 20 = frame := Nat.mod_eq_of_lt (by simp only [TOTAL_PAGES] at high; omega)
  rw [setSsPag, fits]
  have last : ∀ mm : Mm, (mm.setEntry table (PAG_LOG_INIT_DATA + count)
      { present := true, rw := true, user := true, pbaseAddr := frame }).getFrame table
        (PAG_LOG_INIT_DATA + count) = frame := fun mm => by rw [getFrame, setEntry_self]
  have kept : ∀ pag < count, ∀ entry, Mm.getFrame
      (Mm.setEntry { mm with physMem := Function.update mm.physMem frame USED_FRAME } table
        (PAG_LOG_INIT_DATA + count) entry) table (PAG_LOG_INIT_DATA + pag) =
          mm.getFrame table (PAG_LOG_INIT_DATA + pag) := by
    intro pag bound entry
    rw [getFrame, setEntry_page_ne _ _ _ _ (by omega)]
    rfl
  constructor
  · exact takes.remaps.setEntry _ mm.freed _
  · intro pag bound
    by_cases isLast : pag = count
    · subst isLast
      rw [last]
      refine ⟨member, ?_⟩
      by_cases again : ∃ pag' < pag, frame = mm.getFrame table (PAG_LOG_INIT_DATA + pag')
      · obtain ⟨pag', below, rfl⟩ := again
        exact (takes.taken pag' below).2
      · rw [← takes.others frame fun pag' below same => again ⟨pag', below, same⟩]
        exact free
    · have below : pag < count := by omega
      rw [kept pag below]
      exact takes.taken pag below
  · intro other apart
    have notLast := apart count (Nat.lt_succ_self count)
    rw [last] at notLast
    refine (Function.update_of_ne notLast ..).trans (takes.others other fun pag below => ?_)
    have differs := apart pag (Nat.lt_succ_of_lt below)
    rwa [kept pag below] at differs

theorem allocData_takes (allocated : start.allocData table count = .ok after) :
    start.Takes table count after := by
  induction count generalizing after with
  | zero =>
      cases allocated
      exact ⟨.refl start table _, fun _ bound => absurd bound (Nat.not_lt_zero _), fun _ _ => rfl⟩
  | succ count inductionHypothesis =>
      rw [allocData] at allocated
      cases before : start.allocData table count with
      | error stopped =>
          rw [before] at allocated
          cases allocated
      | ok mm =>
          rw [before] at allocated
          dsimp only at allocated
          cases found : mm.allocFrame with
          | mk frame rest =>
              rw [found] at allocated
              cases frame with
              | none => cases allocated
              | some frame =>
                  cases allocated
                  exact (inductionHypothesis before).step found

theorem allocData_error (stopped : start.allocData table count = .error (mm, pag)) :
    pag < count ∧ start.allocData table pag = .ok mm ∧
      ∀ frame ∈ allocatable, mm.physMem frame ≠ FREE_FRAME := by
  induction count with
  | zero => cases stopped
  | succ count inductionHypothesis =>
      rw [allocData] at stopped
      cases before : start.allocData table count with
      | error earlier =>
          rw [before] at stopped
          cases stopped
          obtain ⟨bound, rest⟩ := inductionHypothesis before
          exact ⟨Nat.lt_succ_of_lt bound, rest⟩
      | ok reached =>
          rw [before] at stopped
          dsimp only at stopped
          cases found : reached.allocFrame with
          | mk frame rest =>
              rw [found] at stopped
              cases frame with
              | some frame => cases stopped
              | none =>
                  obtain ⟨rfl, full⟩ := allocFrame_none found
                  cases stopped
                  exact ⟨Nat.lt_succ_self _, before, full⟩

theorem freeFrame_spec (mm : Mm) (given : Nat) : ∃ physMem freed,
    mm.freeFrame given = { mm with physMem := physMem, freed := freed } ∧
    (∀ frame, physMem frame = mm.physMem frame ∨
      frame = given ∧ NUM_PAG_KERNEL < frame ∧ physMem frame = FREE_FRAME) ∧
    (NUM_PAG_KERNEL < given → given < TOTAL_PAGES → physMem given = FREE_FRAME) := by
  unfold freeFrame
  dsimp only
  split
  · rename_i inside
    refine ⟨_, _, rfl, fun frame => ?_, fun _ _ => Function.update_self ..⟩
    by_cases same : frame = given
    · subst same
      exact .inr ⟨rfl, inside.1, Function.update_self ..⟩
    · exact .inl (Function.update_of_ne same ..)
  · rename_i outside
    exact ⟨_, _, rfl, fun _ => .inl rfl, fun low high => absurd ⟨low, high⟩ outside⟩

structure Releases (start : Mm) (table : Task) (count : Nat) (after : Mm) : Prop where
  remaps : start.Remaps table PAG_LOG_INIT_DATA count after
  entry : ∀ pag < count, after.pagusrTable table (PAG_LOG_INIT_DATA + pag) = .zero
  freed : ∀ pag < count, NUM_PAG_KERNEL < start.getFrame table (PAG_LOG_INIT_DATA + pag) →
    start.getFrame table (PAG_LOG_INIT_DATA + pag) < TOTAL_PAGES →
      after.physMem (start.getFrame table (PAG_LOG_INIT_DATA + pag)) = FREE_FRAME
  others : ∀ frame, (frame = NUM_PAG_KERNEL ∨
    ∀ pag < count, frame ≠ start.getFrame table (PAG_LOG_INIT_DATA + pag)) →
      after.physMem frame = start.physMem frame

theorem freeData_releases (start : Mm) (table : Task) (count : Nat) :
    start.Releases table count (start.freeData table count) := by
  induction count with
  | zero =>
      exact ⟨.refl start table _, fun _ bound => absurd bound (Nat.not_lt_zero _),
        fun _ bound => absurd bound (Nat.not_lt_zero _), fun _ _ => rfl⟩
  | succ count inductionHypothesis =>
      obtain ⟨remaps, entry, freed, others⟩ := inductionHypothesis
      simp only [freeData]
      generalize start.freeData table count = mm at *
      have frame : mm.getFrame table (PAG_LOG_INIT_DATA + count) =
          start.getFrame table (PAG_LOG_INIT_DATA + count) := by
        rw [getFrame, getFrame, remaps.entry table _ (by omega)]
      rw [frame]
      obtain ⟨physMem, record, result, elsewhere, here⟩ :=
        mm.freeFrame_spec (start.getFrame table (PAG_LOG_INIT_DATA + count))
      rw [result]
      constructor
      · exact remaps.setEntry _ _ _
      · intro pag bound
        by_cases isLast : pag = count
        · subst isLast
          rw [delSsPag, setEntry_self]
        · rw [delSsPag, setEntry_page_ne _ _ _ _ (by omega)]
          exact entry pag (by omega)
      · intro pag bound low high
        show physMem _ = FREE_FRAME
        by_cases isLast : pag = count
        · subst isLast
          exact here low high
        · rcases elsewhere (start.getFrame table (PAG_LOG_INIT_DATA + pag)) with same | last
          · exact same.trans (freed pag (by omega) low high)
          · exact last.2.2
      · intro other apart
        show physMem other = _
        rcases elsewhere other with same | ⟨last, low, _⟩
        · refine same.trans (others other (apart.imp id fun differ pag bound => differ pag (by omega)))
        · rcases apart with lowest | differ
          · exact absurd (lowest ▸ low) (Nat.lt_irrefl _)
          · exact absurd last (differ count (Nat.lt_succ_self count))

structure RolledBack (start after : Mm) : Prop where
  same : ∃ physMem freed, after = { start with physMem := physMem, freed := freed }
  physMem : ∀ frame, frame ≠ NUM_PAG_KERNEL → after.physMem frame = start.physMem frame
  lowest : after.physMem NUM_PAG_KERNEL = start.physMem NUM_PAG_KERNEL ↔
    start.physMem NUM_PAG_KERNEL ≠ FREE_FRAME

theorem allocData_rolledBack (unmapped : ∀ pag < count,
      start.pagusrTable table (PAG_LOG_INIT_DATA + pag) = .zero)
    (stopped : start.allocData table count = .error (mm, pag)) :
    start.RolledBack (mm.freeData table pag) := by
  obtain ⟨bound, allocated, full⟩ := allocData_error stopped
  have takes := allocData_takes allocated
  have releases := mm.freeData_releases table pag
  generalize mm.freeData table pag = after at *
  have tables : after.pagusrTable = start.pagusrTable := by
    funext t page
    by_cases inside : t = table ∧ PAG_LOG_INIT_DATA ≤ page ∧ page < PAG_LOG_INIT_DATA + pag
    · obtain ⟨rfl, low, high⟩ := inside
      obtain ⟨index, rfl⟩ := Nat.exists_eq_add_of_le low
      have below := Nat.lt_of_add_lt_add_left high
      rw [releases.entry index below, unmapped index (by omega)]
    · exact (releases.remaps.entry t page inside).trans (takes.remaps.entry t page inside)
  refine ⟨?_, fun frame apart => ?_, ?_⟩
  · obtain ⟨_, _, _, rfl⟩ := takes.remaps.same
    obtain ⟨physMem, _, freed, rfl⟩ := releases.remaps.same
    refine ⟨physMem, freed, ?_⟩
    dsimp only at tables
    rw [tables]
  · by_cases taken : ∃ index < pag, frame = mm.getFrame table (PAG_LOG_INIT_DATA + index)
    · obtain ⟨index, below, rfl⟩ := taken
      obtain ⟨member, free⟩ := takes.taken index below
      obtain ⟨low, high, _⟩ := mem_allocatable.mp member
      rw [releases.freed index below (Nat.lt_of_le_of_ne low apart.symm) high, free]
    · have differ : ∀ index < pag, frame ≠ mm.getFrame table (PAG_LOG_INIT_DATA + index) :=
        fun index below same => taken ⟨index, below, same⟩
      exact (releases.others frame (.inr differ)).trans (takes.others frame differ)
  · rw [releases.others NUM_PAG_KERNEL (.inl rfl)]
    have used := full NUM_PAG_KERNEL (mem_allocatable.mpr (by decide))
    constructor
    · exact fun same free => used (same.trans free)
    · refine fun notFree => takes.others _ fun index below same => notFree ?_
      rw [same]
      exact (takes.taken index below).2

end Mm

end Zeos
