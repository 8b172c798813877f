import Zeos.Kernel.Boot
import Zeos.Kernel.Sys
import Zeos.Library.Accounting

/-!
# Who owns which frame

The loops of `set_user_pages`, `sys_fork` and `sys_exit` over frames and page
table entries, as allocations and releases of a pool.
-/

namespace Zeos

open Library

/-- What a frame can be in use for: a page of the shared code, or a data page of
a process. -/
inductive Owner where
  | code (pag : Nat)
  | data (task : Task) (pag : Nat)
  deriving DecidableEq

def Owner.all : List Owner :=
  (List.range NUM_PAG_CODE).map .code ++
    (List.finRange NR_TASKS).flatMap fun task => (List.range NUM_PAG_DATA).map (.data task)

@[simp] theorem Owner.code_mem_all {pag : Nat} : Owner.code pag ∈ all ↔ pag < NUM_PAG_CODE := by
  simp [all]

@[simp] theorem Owner.data_mem_all {task : Task} {pag : Nat} :
    Owner.data task pag ∈ all ↔ pag < NUM_PAG_DATA := by
  simp [all, List.mem_finRange]

namespace Mm

def InUse (mm : Mm) (frame : Nat) : Prop :=
  NUM_PAG_KERNEL ≤ frame ∧ frame < TOTAL_PAGES ∧ mm.physMem frame = USED_FRAME

structure Pool (mm : Mm) (owns : Owner → Nat → Prop) : Prop where
  accounted : Accounted mm.InUse owns
  marked : ∀ frame, NUM_PAG_KERNEL ≤ frame → frame < TOTAL_PAGES →
    mm.physMem frame = FREE_FRAME ∨ mm.physMem frame = USED_FRAME
  known : ∀ {owner frame}, owns owner frame → owner ∈ Owner.all
  single : ∀ {owner frame other}, owns owner frame → owns owner other → frame = other

variable {mm start after : Mm} {owns holds : Owner → Nat → Prop} {owner : Owner} {frame : Nat}
  {table : Task}

namespace Pool

theorem congr (pool : mm.Pool owns) (physMem : after.physMem = mm.physMem)
    (grants : ∀ who what, holds who what ↔ owns who what) : after.Pool holds where
  accounted := pool.accounted.congr (fun frame => by rw [InUse, physMem]; rfl) grants
  marked := by
    rw [physMem]
    exact pool.marked
  known held := pool.known ((grants _ _).mp held)
  single first second := pool.single ((grants _ _).mp first) ((grants _ _).mp second)

theorem inUse (pool : mm.Pool owns) (held : owns owner frame) : mm.InUse frame :=
  (pool.accounted.used_iff frame).mpr ⟨owner, held⟩

/-- The even frames outnumber everything frames are used for. -/
theorem allocFrame (pool : mm.Pool owns) :
    ∃ frame, mm.allocFrame =
        (some frame, { mm with physMem := Function.update mm.physMem frame USED_FRAME }) ∧
      frame ∈ allocatable ∧ ¬ mm.InUse frame := by
  cases result : mm.allocFrame with
  | mk found after =>
      cases found with
      | some frame =>
          obtain ⟨member, free, rfl⟩ := allocFrame_some result
          refine ⟨frame, rfl, member, fun used => ?_⟩
          have marks := used.2.2
          rw [free] at marks
          exact absurd marks (by decide)
      | none =>
          obtain ⟨_, full⟩ := allocFrame_none result
          have used : ∀ frame ∈ allocatable, mm.InUse frame := by
            intro frame member
            obtain ⟨low, high, _⟩ := mem_allocatable.mp member
            exact ⟨low, high, (pool.marked frame low high).resolve_left (full frame member)⟩
          have bound := pool.accounted.length_le allocatable_nodup used pool.known pool.single
          have owners : Owner.all.length = 208 := by simp [Owner.all]
          have frames : allocatable.length = 384 := by simp [allocatable]
          omega

theorem give (pool : mm.Pool owns) (member : frame ∈ allocatable) (free : ¬ mm.InUse frame)
    (known : owner ∈ Owner.all) (unheld : ∀ frame, ¬ owns owner frame)
    (physMem : after.physMem = Function.update mm.physMem frame USED_FRAME)
    (grants : ∀ who what, holds who what ↔ owns who what ∨ (who = owner ∧ what = frame)) :
    after.Pool holds where
  accounted := by
    refine pool.accounted.give free (fun other => ?_) grants
    obtain ⟨low, high, _⟩ := mem_allocatable.mp member
    simp only [InUse, physMem]
    by_cases same : other = frame
    · subst same
      simp [low, high]
    · simp [same]
  marked other low high := by
    rw [physMem]
    by_cases same : other = frame
    · subst same
      simp
    · simpa [same] using pool.marked other low high
  known held := by
    rcases (grants _ _).mp held with old | ⟨rfl, _⟩
    · exact pool.known old
    · exact known
  single first second := by
    rcases (grants _ _).mp first with old | ⟨rfl, rfl⟩ <;>
      rcases (grants _ _).mp second with older | ⟨same, rfl⟩
    · exact pool.single old older
    · exact absurd (same ▸ old) (unheld _)
    · exact absurd older (unheld _)
    · rfl

/-- `free_frame` of an owned frame other than the one it skips. -/
theorem release (pool : mm.Pool owns) (frame : Nat)
    (physMem : after.physMem = Function.update mm.physMem frame FREE_FRAME)
    (grants : ∀ who what, holds who what ↔ owns who what ∧ what ≠ frame) : after.Pool holds where
  accounted := by
    refine pool.accounted.release (fun other => ?_) grants
    simp only [InUse, physMem]
    by_cases same : other = frame
    · subst same
      simp
    · simp [same]
  marked other low high := by
    rw [physMem]
    by_cases same : other = frame
    · subst same
      simp
    · simpa [same] using pool.marked other low high
  known held := pool.known ((grants _ _).mp held).1
  single first second := pool.single ((grants _ _).mp first).1 ((grants _ _).mp second).1

end Pool

/-- Of everything but the frame map, only the entries of `table` for `count`
pages from `first` on may differ. -/
structure Remaps (start : Mm) (table : Task) (first count : Nat) (after : Mm) : Prop where
  same : ∃ physMem pagusrTable freed, after =
    { start with physMem := physMem, pagusrTable := pagusrTable, freed := freed }
  entry : ∀ t page, ¬ (t = table ∧ first ≤ page ∧ page < first + count) →
    after.pagusrTable t page = start.pagusrTable t page

theorem Remaps.refl (mm : Mm) (table : Task) (first : Nat) : mm.Remaps table first 0 mm :=
  ⟨⟨mm.physMem, mm.pagusrTable, mm.freed, rfl⟩, fun _ _ _ => rfl⟩

theorem Remaps.setEntry {first count : Nat} (remaps : start.Remaps table first count mm)
    (physMem : Nat → Byte) (freed : List (Nat × Byte)) (entry : PageTableEntry) :
    start.Remaps table first (count + 1)
      (Mm.setEntry { mm with physMem := physMem, freed := freed } table (first + count) entry) := by
  obtain ⟨oldMem, tables, oldFreed, rfl⟩ := remaps.same
  refine ⟨⟨physMem, _, freed, rfl⟩, fun t page outside => ?_⟩
  rw [setEntry_pagusrTable,
    if_neg fun last => outside ⟨last.1, by rw [last.2]; omega, by rw [last.2]; omega⟩]
  exact remaps.entry t page fun inside => outside ⟨inside.1, inside.2.1, by omega⟩

theorem Pool.setUserPage (pool : mm.Pool owns) (table : Task) (page : Nat) (rw : Bool) :
    ∃ frame ∈ allocatable, ¬ mm.InUse frame ∧ mm.setUserPage table page rw =
      Mm.setEntry { mm with physMem := Function.update mm.physMem frame USED_FRAME } table page
        { present := true, rw := rw, user := true, pbaseAddr := frame } := by
  obtain ⟨frame, result, member, free⟩ := pool.allocFrame
  exact ⟨frame, member, free, by simp [Mm.setUserPage, result]⟩

structure Fills (start : Mm) (owns : Owner → Nat → Prop) (owner : Nat → Owner) (table : Task)
    (first : Nat) (rw : Bool) (count : Nat) (after : Mm) : Prop where
  remaps : start.Remaps table first count after
  freed : after.freed = start.freed
  entry : ∀ pag < count, after.pagusrTable table (first + pag) =
    { present := true, rw := rw, user := true, pbaseAddr := after.getFrame table (first + pag) }
  pool : after.Pool fun who what => owns who what ∨
    ∃ pag < count, who = owner pag ∧ what = after.getFrame table (first + pag)

theorem Pool.setUserRange (pool : start.Pool owns) (ownerOf : Nat → Owner)
    (injective : Function.Injective ownerOf) (table : Task) (first : Nat) (rw : Bool)
    (count : Nat) (known : ∀ pag < count, ownerOf pag ∈ Owner.all)
    (unheld : ∀ pag < count, ∀ frame, ¬ owns (ownerOf pag) frame) :
    start.Fills owns ownerOf table first rw count
      (Mm.setUserRange table first rw count start) := by
  induction count with
  | zero =>
      refine ⟨.refl start table first, rfl, fun _ bound => absurd bound (Nat.not_lt_zero _), ?_⟩
      exact pool.congr rfl fun who what => by simp [Mm.setUserRange]
  | succ count inductionHypothesis =>
      obtain ⟨remaps, freed, entry, pool⟩ := inductionHypothesis
        (fun pag bound => known pag (by omega)) (fun pag bound => unheld pag (by omega))
      simp only [Mm.setUserRange]
      generalize Mm.setUserRange table first rw count start = mm at *
      obtain ⟨frame, member, free, result⟩ := pool.setUserPage table (first + count) rw
      have last : (mm.setUserPage table (first + count) rw).pagusrTable table (first + count) =
          { present := true, rw := rw, user := true, pbaseAddr := frame } := by
        rw [result, setEntry_self]
      have kept : ∀ pag < count, (mm.setUserPage table (first + count) rw).pagusrTable table
          (first + pag) = mm.pagusrTable table (first + pag) := by
        intro pag bound
        rw [result, setEntry_page_ne _ _ _ _ (by omega)]
      refine ⟨?_, by rw [result]; exact freed, ?_, ?_⟩
      · rw [result]
        exact remaps.setEntry _ mm.freed _
      · intro pag bound
        by_cases isLast : pag = count
        · subst isLast
          simp only [getFrame, last]
        · have below : pag < count := by omega
          rw [getFrame, kept pag below]
          exact entry pag below
      · refine pool.give member free (known count (by omega)) ?_
          (by rw [result]; rfl) ?_
        · rintro what (old | ⟨pag, bound, same, _⟩)
          · exact unheld count (by omega) what old
          · exact absurd (injective same) (by omega)
        · intro who what
          constructor
          · rintro (old | ⟨pag, bound, rfl, rfl⟩)
            · exact .inl (.inl old)
            · by_cases isLast : pag = count
              · subst isLast
                exact .inr ⟨rfl, by rw [getFrame, last]⟩
              · have below : pag < count := by omega
                exact .inl (.inr ⟨pag, below, rfl, by rw [getFrame, kept pag below]; rfl⟩)
          · rintro ((old | ⟨pag, bound, rfl, rfl⟩) | ⟨rfl, rfl⟩)
            · exact .inl old
            · exact .inr ⟨pag, by omega, rfl, by rw [getFrame, getFrame, kept pag bound]⟩
            · exact .inr ⟨count, by omega, rfl, by rw [getFrame, last]⟩

/-- The allocation loop of `sys_fork` never fails and does what the data loop of
`set_user_pages` does. -/
theorem Pool.allocData (pool : start.Pool owns) (table : Task) (count : Nat)
    (bound : count ≤ NUM_PAG_DATA)
    (unheld : ∀ pag < count, ∀ frame, ¬ owns (.data table pag) frame) :
    Mm.allocData table count start =
      .ok (Mm.setUserRange table PAG_LOG_INIT_DATA true count start) := by
  induction count with
  | zero => rfl
  | succ count inductionHypothesis =>
      have before := inductionHypothesis (by omega) fun pag below => unheld pag (by omega)
      have fills := pool.setUserRange (.data table) (fun _ _ same => (Owner.data.inj same).2)
        table PAG_LOG_INIT_DATA true count
        (fun pag below => Owner.data_mem_all.mpr (by omega))
        (fun pag below => unheld pag (by omega))
      simp only [Mm.allocData, before, Mm.setUserRange]
      generalize Mm.setUserRange table PAG_LOG_INIT_DATA true count start = mm at *
      obtain ⟨frame, result, member, _⟩ := fills.pool.allocFrame
      obtain ⟨_, high, _⟩ := mem_allocatable.mp member
      have fits : frame % 2 ^ 20 = frame := Nat.mod_eq_of_lt (by simp at high; omega)
      simp only [result, Mm.setUserPage, setSsPag, fits, Option.getD_some]

structure Shares (start : Mm) (processPT parentPT : Task) (first count : Nat) (after : Mm) :
    Prop where
  same : ∃ pagusrTable, after = { start with pagusrTable := pagusrTable }
  outside : ∀ t page, ¬ (t = processPT ∧ first ≤ page ∧ page < first + count) →
    after.pagusrTable t page = start.pagusrTable t page
  entry : ∀ pag < count, after.pagusrTable processPT (first + pag) =
    { present := true, rw := true, user := true
      pbaseAddr := start.getFrame parentPT (first + pag) % 2 ^ 20 }

theorem sharePages_spec {processPT parentPT : Task} (apart : parentPT ≠ processPT)
    (first count : Nat) (start : Mm) : start.Shares processPT parentPT first count
      (sharePages processPT parentPT first count start) := by
  induction count with
  | zero => exact ⟨⟨_, rfl⟩, fun _ _ _ => rfl, fun _ bound => absurd bound (Nat.not_lt_zero _)⟩
  | succ count inductionHypothesis =>
      obtain ⟨same, outside, entry⟩ := inductionHypothesis
      simp only [sharePages]
      generalize sharePages processPT parentPT first count start = mm at *
      obtain ⟨tables, rfl⟩ := same
      refine ⟨⟨_, rfl⟩, fun t page out => ?_, fun pag bound => ?_⟩
      · rw [setSsPag, setEntry_pagusrTable,
          if_neg fun last => out ⟨last.1, by rw [last.2]; omega, by rw [last.2]; omega⟩]
        exact outside t page fun inside => out ⟨inside.1, inside.2.1, by omega⟩
      · by_cases isLast : pag = count
        · subst isLast
          rw [setSsPag, setEntry_self, getFrame, outside parentPT _ fun inside => apart inside.1]
          rfl
        · rw [setSsPag, setEntry_page_ne _ _ _ _ (by omega)]
          exact entry pag (by omega)

/-- The loop of `sys_exit`: the first `count` data pages of `table` are gone and
their frames are free. -/
structure Empties (start : Mm) (owns : Owner → Nat → Prop) (table : Task) (count : Nat)
    (after : Mm) : Prop where
  remaps : start.Remaps table PAG_LOG_INIT_DATA count after
  entry : ∀ pag < count, after.pagusrTable table (PAG_LOG_INIT_DATA + pag) = .zero
  pool : after.Pool fun who what => owns who what ∧ ∀ pag < count, who ≠ .data table pag
  freed : ∀ release ∈ after.freed, release ∈ start.freed ∨ release.2 = USED_FRAME

theorem Pool.freeData (pool : start.Pool owns) (table : Task) (count : Nat)
    (held : ∀ pag < count,
      owns (.data table pag) (start.getFrame table (PAG_LOG_INIT_DATA + pag)))
    (above : ∀ pag < count, NUM_PAG_KERNEL < start.getFrame table (PAG_LOG_INIT_DATA + pag)) :
    start.Empties owns table count (Mm.freeData table count start) := by
  induction count with
  | zero =>
      refine ⟨.refl start table _, fun _ bound => absurd bound (Nat.not_lt_zero _), ?_,
        fun _ old => .inl old⟩
      exact pool.congr rfl fun who what => by simp
  | succ count inductionHypothesis =>
      obtain ⟨remaps, entry, rest, freed⟩ := inductionHypothesis
        (fun pag bound => held pag (by omega)) (fun pag bound => above pag (by omega))
      have owned := held count (by omega)
      have high := above count (by omega)
      simp only [Mm.freeData]
      generalize Mm.freeData table count start = mm at *
      have frame : mm.getFrame table (PAG_LOG_INIT_DATA + count) =
          start.getFrame table (PAG_LOG_INIT_DATA + count) := by
        rw [getFrame, getFrame, remaps.entry table _ (by omega)]
      rw [frame]
      generalize start.getFrame table (PAG_LOG_INIT_DATA + count) = given at *
      have still : owns (.data table count) given ∧
          ∀ pag < count, Owner.data table count ≠ .data table pag :=
        ⟨owned, fun pag bound same => by have := (Owner.data.inj same).2; omega⟩
      have used := rest.inUse still
      have result : mm.freeFrame given =
          { mm with
            physMem := Function.update mm.physMem given FREE_FRAME
            freed := (given, mm.physMem given) :: mm.freed } := by
        rw [freeFrame, if_pos ⟨high, used.2.1⟩]
      rw [result]
      refine ⟨remaps.setEntry _ _ _, fun pag bound => ?_, ?_, ?_⟩
      · by_cases isLast : pag = count
        · subst isLast
          rw [delSsPag, setEntry_self]
        · rw [delSsPag, setEntry_page_ne _ _ _ _ (by omega)]
          exact entry pag (by omega)
      · refine rest.release given rfl fun who what => ?_
        constructor
        · rintro ⟨old, others⟩
          refine ⟨⟨old, fun pag bound => others pag (by omega)⟩, ?_⟩
          rintro rfl
          exact others count (by omega) (pool.accounted.exclusive old owned)
        · rintro ⟨⟨old, others⟩, apart⟩
          refine ⟨old, fun pag bound same => ?_⟩
          by_cases isLast : pag = count
          · subst isLast same
            exact apart (pool.single old owned)
          · exact others pag (by omega) same
      · intro release member
        rcases List.mem_cons.mp member with rfl | old
        · exact .inr used.2.2
        · exact freed release old

end Mm

end Zeos
