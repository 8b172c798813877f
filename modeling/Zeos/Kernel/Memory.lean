import Zeos.Kernel.Types
import Zeos.Library.Bus

/-!
# `mm.c` and the memory management unit

The frame map, the ten page tables, the contents of the frames, and the
processor's view of them: CR3 and a translation buffer. The buffer may keep any
translation used since CR3 was last loaded, and at every access an oracle picks
one of the kept ones or a fresh walk of the table, so what is proved holds of
every replacement policy.
-/

namespace Zeos

open Library

structure Mm where
  physMem : Nat → Byte
  /-- Entry `ENTRY_DIR_PAGES` of each row of `dir_pages`. -/
  dirPages : Task → DirEntry
  pagusrTable : Task → Nat → PageTableEntry
  /-- The bytes of every frame. -/
  frames : Nat → Nat → Byte
  cr3 : Task
  /-- Page and frame of the translations used since CR3 was loaded. -/
  tlb : List (Nat × Nat)
  /-- Which kept translation each coming access takes. -/
  choice : Nat → Nat
  /-- A page fault was raised; `page_fault_routine` never returns. -/
  fault : Bool
  freed : List (Nat × Byte)

namespace Mm

def setEntry (mm : Mm) (table : Task) (page : Nat) (entry : PageTableEntry) : Mm :=
  { mm with pagusrTable :=
      Function.update mm.pagusrTable table (Function.update (mm.pagusrTable table) page entry) }

/-- `set_ss_pag`; `pbase_addr` is a 20-bit field. -/
def setSsPag (mm : Mm) (table : Task) (page frame : Nat) : Mm :=
  mm.setEntry table page
    { present := true, rw := true, user := true, pbaseAddr := frame % 2 ^ 20 }

def delSsPag (mm : Mm) (table : Task) (logicalPage : Nat) : Mm :=
  mm.setEntry table logicalPage .zero

def getFrame (mm : Mm) (table : Task) (logicalPage : Nat) : Nat :=
  (mm.pagusrTable table logicalPage).pbaseAddr

/-- `set_cr3` flushes the translation buffer. -/
def setCr3 (mm : Mm) (dir : Task) : Mm :=
  { mm with cr3 := dir, tlb := [] }

@[simp] theorem setCr3_physMem (mm : Mm) (dir : Task) : (mm.setCr3 dir).physMem = mm.physMem := rfl

@[simp] theorem setCr3_pagusrTable (mm : Mm) (dir : Task) :
    (mm.setCr3 dir).pagusrTable = mm.pagusrTable := rfl

theorem setEntry_pagusrTable (mm : Mm) (table other : Task) (page place : Nat)
    (entry : PageTableEntry) :
    (mm.setEntry table page entry).pagusrTable other place =
      if other = table ∧ place = page then entry else mm.pagusrTable other place := by
  simp only [setEntry, Function.update_apply]
  by_cases sameTable : other = table
  · subst sameTable
    by_cases samePage : place = page <;> simp [samePage]
  · simp [sameTable]

theorem setEntry_self (mm : Mm) (table : Task) (page : Nat) (entry : PageTableEntry) :
    (mm.setEntry table page entry).pagusrTable table page = entry := by
  simp [setEntry_pagusrTable]

theorem setEntry_page_ne (mm : Mm) (table other : Task) {page place : Nat}
    (entry : PageTableEntry) (apart : place ≠ page) :
    (mm.setEntry table page entry).pagusrTable other place = mm.pagusrTable other place := by
  simp [setEntry_pagusrTable, apart]

/-- The frames the loop of `alloc_frame` looks at: every second one. -/
def allocatable : List Nat :=
  List.range' NUM_PAG_KERNEL ((TOTAL_PAGES - NUM_PAG_KERNEL) / 2) 2

/-- `alloc_frame`; `none` is `-1`. -/
def allocFrame (mm : Mm) : Option Nat × Mm :=
  match allocatable.find? (fun frame => mm.physMem frame = FREE_FRAME) with
  | some frame => (some frame, { mm with physMem := Function.update mm.physMem frame USED_FRAME })
  | none => (none, mm)

/-- `free_frame`: the range test excludes the first frame after the kernel. -/
def freeFrame (mm : Mm) (frame : Nat) : Mm :=
  let mm := { mm with freed := (frame, mm.physMem frame) :: mm.freed }
  if frame > NUM_PAG_KERNEL ∧ frame < TOTAL_PAGES then
    { mm with physMem := Function.update mm.physMem frame FREE_FRAME }
  else mm

theorem mem_allocatable {frame : Nat} :
    frame ∈ allocatable ↔
      NUM_PAG_KERNEL ≤ frame ∧ frame < TOTAL_PAGES ∧ frame % 2 = 0 := by
  simp only [allocatable, List.mem_range', TOTAL_PAGES, NUM_PAG_KERNEL]
  constructor
  · rintro ⟨index, bound, rfl⟩
    omega
  · rintro ⟨low, high, even⟩
    exact ⟨(frame - 256) / 2, by omega, by omega⟩

theorem allocatable_nodup : allocatable.Nodup := List.nodup_range' 2

theorem allocFrame_some {mm after : Mm} {frame : Nat}
    (result : mm.allocFrame = (some frame, after)) :
    frame ∈ allocatable ∧ mm.physMem frame = FREE_FRAME ∧
      after = { mm with physMem := Function.update mm.physMem frame USED_FRAME } := by
  unfold allocFrame at result
  split at result
  · rename_i found search
    obtain ⟨rfl, rfl⟩ := Prod.mk.inj result |>.imp_left Option.some.inj
    exact ⟨List.mem_of_find?_eq_some search, by simpa using List.find?_some search, rfl⟩
  · simp at result

theorem allocFrame_none {mm after : Mm} (result : mm.allocFrame = (none, after)) :
    after = mm ∧ ∀ frame ∈ allocatable, mm.physMem frame ≠ FREE_FRAME := by
  unfold allocFrame at result
  split at result
  · simp at result
  · rename_i search
    refine ⟨(Prod.mk.inj result).2.symm, ?_⟩
    simpa using List.find?_eq_none.mp search

/-- One access of the processor to a page. The kernel runs at level 0 with
CR0.WP clear, so neither `user` nor `rw` stops it. -/
def translate (mm : Mm) (page : Nat) : Option Nat × Mm :=
  let kept := (mm.tlb.filter (·.1 = page))[mm.choice 0]?
  let mm := { mm with choice := fun n => mm.choice (n + 1) }
  match kept with
  | some entry => (some entry.2, mm)
  | none =>
      let entry := mm.pagusrTable (mm.dirPages mm.cr3).pbaseAddr page
      if entry.present then
        (some entry.pbaseAddr, { mm with tlb := (page, entry.pbaseAddr) :: mm.tlb })
      else (none, { mm with fault := true })

/-- Loads and stores of the kernel. The frames below `NUM_PAG_KERNEL` hold the
kernel's own data, which the other parts of the model own; `kernel` shows their
bytes to loads. -/
def bus (kernel : Nat → Nat → Byte) : Bus Mm where
  load mm address :=
    let (frame, mm) := mm.translate (PH_PAGE address)
    match frame with
    | none => (0, mm)
    | some frame =>
        let place := address.toNat % PAGE_SIZE
        (if frame < NUM_PAG_KERNEL then kernel frame place else mm.frames frame place, mm)
  store mm address byte :=
    let (frame, mm) := mm.translate (PH_PAGE address)
    match frame with
    | none => mm
    | some frame =>
        let bytes := Function.update (mm.frames frame) (address.toNat % PAGE_SIZE) byte
        { mm with frames := Function.update mm.frames frame bytes }

structure Maps (mm : Mm) (page frame : Nat) : Prop where
  present : (mm.pagusrTable (mm.dirPages mm.cr3).pbaseAddr page).present = true
  base : (mm.pagusrTable (mm.dirPages mm.cr3).pbaseAddr page).pbaseAddr = frame
  kept : ∀ entry ∈ mm.tlb, entry.1 = page → entry.2 = frame

/-- Whatever the buffer does, a mapped page translates to its frame. -/
theorem translate_of_maps {mm : Mm} {page frame : Nat} (maps : mm.Maps page frame) :
    ∃ tlb choice, mm.translate page = (some frame, { mm with tlb := tlb, choice := choice }) ∧
      ∀ entry ∈ tlb, entry ∈ mm.tlb ∨ entry = (page, frame) := by
  unfold translate
  cases kept : (mm.tlb.filter (·.1 = page))[mm.choice 0]? with
  | some entry =>
      have member := List.mem_filter.mp (List.mem_of_getElem? kept)
      have same := maps.kept entry member.1 (by simpa using member.2)
      exact ⟨mm.tlb, fun n => mm.choice (n + 1), by simp [same], fun _ old => .inl old⟩
  | none =>
      refine ⟨(page, frame) :: mm.tlb, fun n => mm.choice (n + 1), ?_, ?_⟩
      · simp [maps.present, maps.base]
      · intro entry member
        exact (List.mem_cons.mp member).symm

/-- An address space with the pages of `map`, at any point of an execution that
only accesses memory. -/
def Serves (start : Mm) (map : Nat → Option Nat) (mm : Mm) : Prop :=
  ∃ frames tlb choice, mm = { start with frames := frames, tlb := tlb, choice := choice } ∧
    ∀ entry ∈ tlb, entry ∈ start.tlb ∨ map entry.1 = some entry.2

theorem Serves.refl (mm : Mm) (map : Nat → Option Nat) : mm.Serves map mm :=
  ⟨mm.frames, mm.tlb, mm.choice, rfl, fun _ member => .inl member⟩

section

variable {start mm : Mm} {map : Nat → Option Nat} {page frame : Nat}

theorem Serves.maps (serves : start.Serves map mm)
    (ok : ∀ page frame, map page = some frame → start.Maps page frame)
    (mapped : map page = some frame) : mm.Maps page frame := by
  obtain ⟨frames, tlb, choice, rfl, kept⟩ := serves
  have maps := ok page frame mapped
  refine ⟨maps.present, maps.base, ?_⟩
  intro entry member same
  rcases kept entry member with old | new
  · exact maps.kept entry old same
  · exact Option.some.inj (new.symm.trans (same ▸ mapped))

/-- An access keeps the address space and, until it stores, the bytes. -/
theorem Serves.translate (serves : start.Serves map mm)
    (ok : ∀ page frame, map page = some frame → start.Maps page frame)
    (mapped : map page = some frame) :
    (mm.translate page).1 = some frame ∧ (mm.translate page).2.frames = mm.frames ∧
      start.Serves map (mm.translate page).2 := by
  obtain ⟨tlb, choice, result, kept⟩ := translate_of_maps (serves.maps ok mapped)
  obtain ⟨frames, oldTlb, oldChoice, rfl, oldKept⟩ := serves
  rw [result]
  refine ⟨rfl, rfl, frames, tlb, choice, rfl, ?_⟩
  intro entry member
  rcases kept entry member with old | rfl
  · exact oldKept entry old
  · exact .inr mapped

theorem Serves.store (serves : start.Serves map mm) (bytes : Nat → Nat → Byte) :
    start.Serves map { mm with frames := bytes } := by
  obtain ⟨frames, tlb, choice, rfl, kept⟩ := serves
  exact ⟨bytes, tlb, choice, rfl, kept⟩

end

def byteAt (kernel : Nat → Nat → Byte) (mm : Mm) (place : Nat × Nat) : Byte :=
  if place.1 < NUM_PAG_KERNEL then kernel place.1 place.2 else mm.frames place.1 place.2

theorem load_of_maps {start mm : Mm} {map : Nat → Option Nat} {address : DWord} {frame : Nat}
    (kernel : Nat → Nat → Byte) (serves : start.Serves map mm)
    (ok : ∀ page frame, map page = some frame → start.Maps page frame)
    (mapped : map (PH_PAGE address) = some frame) :
    (bus kernel).load mm address =
      (mm.byteAt kernel (frame, address.toNat % PAGE_SIZE), (mm.translate (PH_PAGE address)).2) := by
  obtain ⟨found, bytes, _⟩ := serves.translate ok mapped
  simp only [bus, byteAt, found, bytes]

theorem store_of_maps {start mm : Mm} {map : Nat → Option Nat} {address : DWord} {frame : Nat}
    (kernel : Nat → Nat → Byte) (byte : Byte) (serves : start.Serves map mm)
    (ok : ∀ page frame, map page = some frame → start.Maps page frame)
    (mapped : map (PH_PAGE address) = some frame) :
    (bus kernel).store mm address byte =
      { (mm.translate (PH_PAGE address)).2 with
        frames := Function.update mm.frames frame
          (Function.update (mm.frames frame) (address.toNat % PAGE_SIZE) byte) } := by
  obtain ⟨found, bytes, _⟩ := serves.translate ok mapped
  simp only [bus, found, bytes]

/-- The window through which `bus` reads and writes the pages of a fixed
address space; only frames above the kernel's may be written. -/
def window (kernel : Nat → Nat → Byte) (start : Mm) (map : Nat → Option Nat)
    (ok : ∀ page frame, map page = some frame → start.Maps page frame) :
    (bus kernel).Window (Nat × Nat) where
  holds mm := start.Serves map mm ∧ ∀ frame < NUM_PAG_KERNEL, mm.frames frame = start.frames frame
  cell mm place := mm.byteAt kernel place
  place address := ((map (PH_PAGE address)).getD 0, address.toNat % PAGE_SIZE)
  readable address := ∃ frame, map (PH_PAGE address) = some frame
  writable address := ∃ frame, map (PH_PAGE address) = some frame ∧ NUM_PAG_KERNEL ≤ frame
  load_value := by
    rintro mm address ⟨serves, _⟩ ⟨frame, mapped⟩
    simp [load_of_maps kernel serves ok mapped, mapped]
  load_holds := by
    rintro mm address ⟨serves, low⟩ ⟨frame, mapped⟩
    obtain ⟨_, bytes, served⟩ := serves.translate ok mapped
    rw [load_of_maps kernel serves ok mapped]
    refine ⟨served, fun frame below => ?_⟩
    rw [bytes]
    exact low frame below
  load_cell := by
    rintro mm address ⟨serves, _⟩ ⟨frame, mapped⟩
    rw [load_of_maps kernel serves ok mapped]
    funext place
    simp only [byteAt, (serves.translate ok mapped).2.1]
  store_holds := by
    rintro mm address byte ⟨serves, low⟩ ⟨frame, mapped, above⟩
    rw [store_of_maps kernel byte serves ok mapped]
    refine ⟨(serves.translate ok mapped).2.2.store _, fun other below => ?_⟩
    exact (Function.update_of_ne (by omega) ..).trans (low other below)
  store_same := by
    rintro mm address byte ⟨serves, _⟩ ⟨frame, mapped, above⟩
    rw [store_of_maps kernel byte serves ok mapped]
    simp [byteAt, mapped, Nat.not_lt.mpr above]
  store_other := by
    rintro mm address byte place ⟨serves, _⟩ ⟨frame, mapped, above⟩ apart
    rw [store_of_maps kernel byte serves ok mapped]
    simp only [mapped, Option.getD_some] at apart
    simp only [byteAt]
    split
    · rfl
    · by_cases sameFrame : place.1 = frame
      · have differ : place.2 ≠ address.toNat % PAGE_SIZE :=
          fun same => apart (Prod.ext sameFrame same)
        simp [sameFrame, Function.update_of_ne differ]
      · simp [Function.update_of_ne sameFrame]

theorem window_start (kernel : Nat → Nat → Byte) (mm : Mm) (map : Nat → Option Nat)
    (ok : ∀ page frame, map page = some frame → mm.Maps page frame) :
    (mm.window kernel map ok).holds mm := ⟨.refl mm map, fun _ _ => rfl⟩

end Mm

end Zeos
