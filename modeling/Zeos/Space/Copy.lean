import Zeos.Kernel.Sys

/-!
# The copy loop of `sys_fork`

Data page `pag` of the parent is copied through page `pag + NUM_PAG_DATA`, which
is mapped to the child's frame only for the copy. The translation buffer is not
flushed in between; what it may keep of a copy is a translation of a page that
no later copy uses.
-/

namespace Zeos

open Library

namespace Mm

variable {start mm after : Mm} {source dest : Nat → Nat} {processPT parentPT : Task}
  {count : Nat}

theorem pageAddr_offset {page index : Nat} (pageBound : page < 2 ^ 20)
    (indexBound : index < PAGE_SIZE) :
    PH_PAGE (offset (BitVec.ofNat 32 (page * PAGE_SIZE)) index) = page ∧
      (offset (BitVec.ofNat 32 (page * PAGE_SIZE)) index).toNat % PAGE_SIZE = index := by
  have value : (offset (BitVec.ofNat 32 (page * PAGE_SIZE)) index).toNat =
      page * PAGE_SIZE + index := by
    simp only [offset, BitVec.toNat_add, BitVec.toNat_ofNat, PAGE_SIZE] at *
    omega
  rw [PH_PAGE, value]
  simp only [PAGE_SIZE] at *
  omega

def twoPages (first second : Nat × Nat) (page : Nat) : Option Nat :=
  if page = first.1 then some first.2 else if page = second.1 then some second.2 else none

theorem twoPages_cases {first second : Nat × Nat} {page frame : Nat}
    (mapped : twoPages first second page = some frame) :
    (page, frame) = first ∨ (page, frame) = second := by
  unfold twoPages at mapped
  split at mapped
  · rename_i isSource
    exact .inl (Prod.ext isSource (Option.some.inj mapped).symm)
  · split at mapped
    · rename_i isDest
      exact .inr (Prod.ext isDest (Option.some.inj mapped).symm)
    · exact absurd mapped nofun

theorem copyPage_spec (kernel : Nat → Nat → Byte) {source dest fromFrame toFrame : Nat}
    (reads : mm.Maps source fromFrame) (writes : mm.Maps dest toFrame) (pages : source ≠ dest)
    (frames : toFrame ≠ fromFrame) (sourceBound : source < 2 ^ 20) (destBound : dest < 2 ^ 20)
    (sourceAbove : NUM_PAG_KERNEL ≤ fromFrame) (destAbove : NUM_PAG_KERNEL ≤ toFrame) :
    ∃ bytes tlb choice, copyData (bus kernel) (BitVec.ofNat 32 (source * PAGE_SIZE))
        (BitVec.ofNat 32 (dest * PAGE_SIZE)) PAGE_SIZE mm =
          { mm with frames := bytes, tlb := tlb, choice := choice } ∧
      (∀ place < PAGE_SIZE, bytes toFrame place = mm.frames fromFrame place) ∧
      (∀ frame, NUM_PAG_KERNEL ≤ frame → frame ≠ toFrame → bytes frame = mm.frames frame) ∧
      ∀ entry ∈ tlb, entry ∈ mm.tlb ∨ entry = (source, fromFrame) ∨ entry = (dest, toFrame) := by
  let map := twoPages (source, fromFrame) (dest, toFrame)
  have ok : ∀ page frame, map page = some frame → mm.Maps page frame := by
    intro page frame mapped
    rcases twoPages_cases mapped with same | same
    · obtain ⟨rfl, rfl⟩ := Prod.mk.inj same
      exact reads
    · obtain ⟨rfl, rfl⟩ := Prod.mk.inj same
      exact writes
  have mapSource : map source = some fromFrame := if_pos rfl
  have mapDest : map dest = some toFrame := by
    simp only [map, twoPages, if_neg pages.symm, if_true]
  let view := mm.window kernel map ok
  have readPlace : ∀ index < PAGE_SIZE,
      view.place (offset (BitVec.ofNat 32 (source * PAGE_SIZE)) index) = (fromFrame, index) := by
    intro index inside
    obtain ⟨page, place⟩ := pageAddr_offset sourceBound inside
    show ((map _).getD 0, _) = _
    rw [page, place, mapSource]
    rfl
  have writePlace : ∀ index < PAGE_SIZE,
      view.place (offset (BitVec.ofNat 32 (dest * PAGE_SIZE)) index) = (toFrame, index) := by
    intro index inside
    obtain ⟨page, place⟩ := pageAddr_offset destBound inside
    show ((map _).getD 0, _) = _
    rw [page, place, mapDest]
    rfl
  have readable : Bus.Covers view.readable (BitVec.ofNat 32 (source * PAGE_SIZE)) PAGE_SIZE := by
    intro index inside
    exact ⟨fromFrame, by rw [(pageAddr_offset sourceBound inside).1, mapSource]⟩
  have writable : Bus.Covers view.writable (BitVec.ofNat 32 (dest * PAGE_SIZE)) PAGE_SIZE := by
    intro index inside
    exact ⟨toFrame, by rw [(pageAddr_offset destBound inside).1, mapDest], destAbove⟩
  have forward : view.Forward (BitVec.ofNat 32 (source * PAGE_SIZE))
      (BitVec.ofNat 32 (dest * PAGE_SIZE)) PAGE_SIZE := by
    constructor
    · intro i hi j hj same
      rw [writePlace i hi, writePlace j hj] at same
      exact (Prod.mk.inj same).2
    · intro i hi j hj same
      rw [writePlace i hi, readPlace j hj] at same
      exact absurd (Prod.mk.inj same).1 frames
  obtain ⟨⟨⟨bytes, tlb, choice, result, kept⟩, _⟩, copied, others⟩ :=
    wordLoop_copied PAGE_SIZE (window_start kernel mm map ok) readable writable forward
  have after : ∀ frame place, NUM_PAG_KERNEL ≤ frame → view.cell
      (wordLoop (bus kernel) PAGE_SIZE (BitVec.ofNat 32 (source * PAGE_SIZE))
        (BitVec.ofNat 32 (dest * PAGE_SIZE)) mm) (frame, place) = bytes frame place := by
    intro frame place above
    have cell : ∀ any, view.cell any = any.byteAt kernel := fun _ => rfl
    rw [cell, result]
    exact if_neg (Nat.not_lt.mpr above)
  refine ⟨bytes, tlb, choice, result, fun place inside => ?_, fun frame above apart => ?_, ?_⟩
  · have byte := copied place inside
    rw [writePlace place inside, readPlace place inside, after _ _ destAbove] at byte
    rw [byte]
    exact if_neg (Nat.not_lt.mpr sourceAbove)
  · funext place
    have byte := others (frame, place) fun index inside same => by
      rw [writePlace index inside] at same
      exact apart (Prod.mk.inj same).1
    rw [after _ _ above] at byte
    rw [byte]
    exact if_neg (Nat.not_lt.mpr above)
  · intro entry member
    refine (kept entry member).imp_right fun mapped => ?_
    exact twoPages_cases mapped

/-- Every kept translation is one the table still gives. -/
def Coherent (mm : Mm) : Prop :=
  ∀ entry ∈ mm.tlb,
    (mm.pagusrTable (mm.dirPages mm.cr3).pbaseAddr entry.1).present = true ∧
      (mm.pagusrTable (mm.dirPages mm.cr3).pbaseAddr entry.1).pbaseAddr = entry.2

/-- What the loop finds: the parent's table is loaded, its data pages are in the
frames `source`, the child's in the frames `dest`, and the temporary pages are free. -/
structure CopyReady (start : Mm) (processPT parentPT : Task) (source dest : Nat → Nat) :
    Prop where
  apart : parentPT ≠ processPT
  loaded : (start.dirPages start.cr3).pbaseAddr = parentPT
  coherent : start.Coherent
  present : ∀ pag < NUM_PAG_DATA,
    (start.pagusrTable parentPT (PAG_LOG_INIT_DATA + pag)).present = true
  parent : ∀ pag < NUM_PAG_DATA, start.getFrame parentPT (PAG_LOG_INIT_DATA + pag) = source pag
  child : ∀ pag < NUM_PAG_DATA, start.getFrame processPT (PAG_LOG_INIT_DATA + pag) = dest pag
  temporary : ∀ pag < NUM_PAG_DATA,
    start.pagusrTable parentPT (PAG_LOG_INIT_DATA + pag + NUM_PAG_DATA) = .zero
  sourceAbove : ∀ pag < NUM_PAG_DATA, NUM_PAG_KERNEL ≤ source pag
  destAbove : ∀ pag < NUM_PAG_DATA, NUM_PAG_KERNEL ≤ dest pag ∧ dest pag < 2 ^ 20
  distinct : ∀ first < NUM_PAG_DATA, ∀ second < NUM_PAG_DATA,
    dest first = dest second → first = second
  disjoint : ∀ first < NUM_PAG_DATA, ∀ second < NUM_PAG_DATA, dest first ≠ source second

structure Copies (start : Mm) (source dest : Nat → Nat) (count : Nat) (after : Mm) : Prop where
  same : ∃ frames tlb choice, after = { start with frames := frames, tlb := tlb, choice := choice }
  bytes : ∀ pag < count, ∀ place < PAGE_SIZE,
    after.frames (dest pag) place = start.frames (source pag) place
  others : ∀ frame, NUM_PAG_KERNEL ≤ frame → (∀ pag < count, frame ≠ dest pag) →
    after.frames frame = start.frames frame
  kept : ∀ entry ∈ after.tlb, entry ∈ start.tlb ∨
    (∃ pag < count, entry = (PAG_LOG_INIT_DATA + pag, source pag)) ∨
    ∃ pag < count, entry = (PAG_LOG_INIT_DATA + pag + NUM_PAG_DATA, dest pag)

theorem Copies.maps {after start : Mm} {source dest : Nat → Nat} {count : Nat}
    (copies : start.Copies source dest count after) :
    after.physMem = start.physMem ∧ after.pagusrTable = start.pagusrTable := by
  obtain ⟨_, _, _, shape⟩ := copies.same
  rw [shape]
  exact ⟨rfl, rfl⟩

theorem earlier_pages (bound : count < NUM_PAG_DATA) {pag : Nat} (below : pag < count) :
    PAG_LOG_INIT_DATA + pag ≠ PAG_LOG_INIT_DATA + count ∧
      PAG_LOG_INIT_DATA + pag ≠ PAG_LOG_INIT_DATA + count + NUM_PAG_DATA ∧
      PAG_LOG_INIT_DATA + pag + NUM_PAG_DATA ≠ PAG_LOG_INIT_DATA + count ∧
      PAG_LOG_INIT_DATA + pag + NUM_PAG_DATA ≠ PAG_LOG_INIT_DATA + count + NUM_PAG_DATA := by
  simp only [NUM_PAG_DATA] at *
  omega

/-- In its round a data page of the parent translates to its frame. -/
theorem CopyReady.maps_source (ready : start.CopyReady processPT parentPT source dest)
    (copies : start.Copies source dest count mm) (bound : count < NUM_PAG_DATA) :
    (mm.setSsPag parentPT (PAG_LOG_INIT_DATA + count + NUM_PAG_DATA) (dest count)).Maps
      (PAG_LOG_INIT_DATA + count) (source count) := by
  obtain ⟨⟨frames, tlb, choice, rfl⟩, -, -, kept⟩ := copies
  have entry : (Mm.setSsPag { start with frames := frames, tlb := tlb, choice := choice }
      parentPT (PAG_LOG_INIT_DATA + count + NUM_PAG_DATA) (dest count)).pagusrTable
        (start.dirPages start.cr3).pbaseAddr (PAG_LOG_INIT_DATA + count) =
      start.pagusrTable parentPT (PAG_LOG_INIT_DATA + count) := by
    rw [ready.loaded]
    exact setEntry_page_ne _ _ _ _ (by simp only [NUM_PAG_DATA]; omega)
  constructor
  · exact (congrArg PageTableEntry.present entry).trans (ready.present count bound)
  · exact (congrArg PageTableEntry.pbaseAddr entry).trans (ready.parent count bound)
  · intro known member same
    rcases kept known member with old | ⟨pag, below, rfl⟩ | ⟨pag, below, rfl⟩
    · rw [← (ready.coherent known old).2, ready.loaded, same]
      exact ready.parent count bound
    · exact absurd same (earlier_pages bound below).1
    · exact absurd same (earlier_pages bound below).2.2.1

/-- And its temporary page translates to the child's frame: nothing the buffer
kept from earlier rounds is about that page. -/
theorem CopyReady.maps_dest (ready : start.CopyReady processPT parentPT source dest)
    (copies : start.Copies source dest count mm) (bound : count < NUM_PAG_DATA) :
    (mm.setSsPag parentPT (PAG_LOG_INIT_DATA + count + NUM_PAG_DATA) (dest count)).Maps
      (PAG_LOG_INIT_DATA + count + NUM_PAG_DATA) (dest count) := by
  obtain ⟨⟨frames, tlb, choice, rfl⟩, -, -, kept⟩ := copies
  have entry : (Mm.setSsPag { start with frames := frames, tlb := tlb, choice := choice }
      parentPT (PAG_LOG_INIT_DATA + count + NUM_PAG_DATA) (dest count)).pagusrTable
        (start.dirPages start.cr3).pbaseAddr (PAG_LOG_INIT_DATA + count + NUM_PAG_DATA) =
      { present := true, rw := true, user := true, pbaseAddr := dest count } := by
    rw [ready.loaded, setSsPag, setEntry_self, Nat.mod_eq_of_lt (ready.destAbove count bound).2]
  constructor
  · exact congrArg PageTableEntry.present entry
  · exact congrArg PageTableEntry.pbaseAddr entry
  · intro known member same
    rcases kept known member with old | ⟨pag, below, rfl⟩ | ⟨pag, below, rfl⟩
    · have present := (ready.coherent known old).1
      rw [ready.loaded, same, ready.temporary count bound] at present
      exact absurd present (by decide)
    · exact absurd same (earlier_pages bound below).2.1
    · exact absurd same (earlier_pages bound below).2.2.2

theorem delSsPag_setSsPag {table : Task} {page frame : Nat}
    (unmapped : mm.pagusrTable table page = .zero) (bytes : Nat → Nat → Byte)
    (tlb : List (Nat × Nat)) (choice : Nat → Nat) :
    delSsPag { mm.setSsPag table page frame with frames := bytes, tlb := tlb, choice := choice }
        table page = { mm with frames := bytes, tlb := tlb, choice := choice } := by
  have tables : Function.update (mm.setSsPag table page frame).pagusrTable table
      (Function.update ((mm.setSsPag table page frame).pagusrTable table) page .zero) =
        mm.pagusrTable := by
    simp only [setSsPag, setEntry, Function.update_self, Function.update_idem]
    rw [← unmapped, Function.update_eq_self, Function.update_eq_self]
  simp only [delSsPag, setEntry, tables]
  rfl

theorem Copies.round (ready : start.CopyReady processPT parentPT source dest)
    (copies : start.Copies source dest count mm) (bound : count < NUM_PAG_DATA)
    (kernel : Nat → Nat → Byte) :
    start.Copies source dest (count + 1)
      (delSsPag (copyData (bus kernel)
        (BitVec.ofNat 32 ((PAG_LOG_INIT_DATA + count) * PAGE_SIZE))
        (BitVec.ofNat 32 ((PAG_LOG_INIT_DATA + count + NUM_PAG_DATA) * PAGE_SIZE)) PAGE_SIZE
        (mm.setSsPag parentPT (PAG_LOG_INIT_DATA + count + NUM_PAG_DATA) (dest count)))
        parentPT (PAG_LOG_INIT_DATA + count + NUM_PAG_DATA)) := by
  have small : PAG_LOG_INIT_DATA + count + NUM_PAG_DATA < 2 ^ 20 := by
    simp only [NUM_PAG_DATA] at bound
    simp
    omega
  obtain ⟨bytes, tlb, choice, result, copied, others, kept⟩ :=
    copyPage_spec kernel (ready.maps_source copies bound) (ready.maps_dest copies bound)
      (by simp only [NUM_PAG_DATA]; omega) (ready.disjoint count bound count bound)
      (by omega) small (ready.sourceAbove count bound) (ready.destAbove count bound).1
  obtain ⟨frames, oldTlb, oldChoice, shape⟩ := copies.same
  have temporary : mm.pagusrTable parentPT (PAG_LOG_INIT_DATA + count + NUM_PAG_DATA) = .zero := by
    rw [shape]
    exact ready.temporary count bound
  rw [result, delSsPag_setSsPag temporary]
  refine ⟨⟨bytes, tlb, choice, by rw [shape]⟩, ?_, ?_, ?_⟩
  · intro pag below place inside
    by_cases isLast : pag = count
    · subst isLast
      refine (copied place inside).trans ?_
      have unwritten := copies.others (source pag) (ready.sourceAbove pag bound)
        fun other otherBelow => (ready.disjoint other (by omega) pag bound).symm
      exact congrFun unwritten place
    · have earlier : pag < count := by omega
      have apart : dest pag ≠ dest count := fun same =>
        isLast (ready.distinct pag (by omega) count bound same)
      refine (congrFun (others _ (ready.destAbove pag (by omega)).1 apart) place).trans ?_
      exact copies.bytes pag earlier place inside
  · intro frame above apart
    refine (others frame above (apart count (by omega))).trans ?_
    exact copies.others frame above fun pag below => apart pag (by omega)
  · intro entry member
    rcases kept entry member with old | rfl | rfl
    · rcases copies.kept entry old with older | ⟨pag, below, same⟩ | ⟨pag, below, same⟩
      · exact .inl older
      · exact .inr (.inl ⟨pag, by omega, same⟩)
      · exact .inr (.inr ⟨pag, by omega, same⟩)
    · exact .inr (.inl ⟨count, by omega, rfl⟩)
    · exact .inr (.inr ⟨count, by omega, rfl⟩)

theorem CopyReady.copyPages (ready : start.CopyReady processPT parentPT source dest)
    (kernel : Nat → Nat → Byte) (bound : count ≤ NUM_PAG_DATA) :
    start.Copies source dest count (Mm.copyPages kernel processPT parentPT count start) := by
  induction count with
  | zero =>
      exact ⟨⟨_, _, _, rfl⟩, fun _ below => absurd below (Nat.not_lt_zero _), fun _ _ _ => rfl,
        fun _ member => .inl member⟩
  | succ count inductionHypothesis =>
      have copies := inductionHypothesis (by omega)
      simp only [Mm.copyPages]
      generalize Mm.copyPages kernel processPT parentPT count start = mm at *
      have frame : mm.getFrame processPT (NUM_PAG_KERNEL + NUM_PAG_CODE + count) = dest count := by
        obtain ⟨frames, tlb, choice, shape⟩ := copies.same
        rw [shape]
        exact ready.child count (by omega)
      rw [frame]
      exact copies.round ready (by omega) kernel

end Mm

end Zeos
