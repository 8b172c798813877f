import Zeos.Kernel.Utils

/-!
# The copy routines on plain memory

Where the ranges do not wrap, and are apart or the destination is not above the start,
the three routines are the same exact copy, for every size.
-/

namespace Zeos

open Library

/-- The bytes of the destination are the old bytes of the start, the others the old ones. -/
structure CopiedExactly (start dest : DWord) (size : Int) (memory after : DWord → Byte) :
    Prop where
  bytes : ∀ index : Nat, index < size → after (offset dest index) = memory (offset start index)
  frame : ∀ address : DWord,
    ¬ (dest.toNat ≤ address.toNat ∧ address.toNat < dest.toNat + size) →
      after address = memory address

/-- The ranges do not wrap, and a forward copy does not overwrite what it has still to
read. -/
structure ForwardRanges (start dest : DWord) (size : Int) : Prop where
  startFits : start.toNat + size ≤ 0x100000000
  destFits : dest.toNat + size ≤ 0x100000000
  order : dest.toNat ≤ start.toNat ∨ start.toNat + size ≤ dest.toNat ∨
    dest.toNat + size ≤ start.toNat

variable {start dest : DWord} {size : Int}

theorem ForwardRanges.copied (ranges : ForwardRanges start dest size) (memory : DWord → Byte) :
    CopiedExactly start dest size memory (wordLoop Bus.plain size.toNat start dest memory) := by
  rcases Int.le_total size 0 with nothing | nonneg
  · rw [Int.toNat_of_nonpos nothing]
    refine ⟨fun index bound => ?_, fun _ _ => rfl⟩
    omega
  · obtain ⟨count, rfl⟩ := Int.eq_ofNat_of_zero_le nonneg
    rw [Int.toNat_natCast]
    have startFits := ranges.startFits
    have destFits := ranges.destFits
    have order := ranges.order
    have destNat : dest.toNat + count ≤ 0x100000000 := by omega
    have forward : Bus.plainWindow.Forward start dest count :=
      Bus.plain_forward (by omega) destNat (by omega)
    have copied : Bus.plainWindow.Copied start dest count memory
        (wordLoop Bus.plain count start dest memory) :=
      wordLoop_copied count trivial (fun _ _ => trivial) (fun _ _ => trivial) forward
    refine ⟨fun index bound => copied.bytes index (by omega), fun address outside => ?_⟩
    refine copied.frame address fun index bound same => outside ?_
    have value : address.toNat = dest.toNat + index := by
      rw [same]
      exact Bus.offset_toNat destNat bound
    omega

/-- The three routines copy exactly, and are one function of memory. -/
theorem copies_exact (ranges : ForwardRanges start dest size) (memory : DWord → Byte) :
    CopiedExactly start dest size memory (copyData Bus.plain start dest size memory) ∧
      copyFromUser Bus.plain start dest size memory =
        (0, copyData Bus.plain start dest size memory) ∧
      copyToUser Bus.plain start dest size memory =
        (0, copyData Bus.plain start dest size memory) :=
  ⟨ranges.copied memory, rfl, rfl⟩

/-- Seven bytes, one down. -/
theorem copies_exact_down :
    CopiedExactly 0x101 0x100 7 (fun address => address.setWidth 8)
        (copyData Bus.plain 0x101 0x100 7 fun address => address.setWidth 8) ∧
      copyFromUser Bus.plain 0x101 0x100 7 (fun address => address.setWidth 8) =
        (0, copyData Bus.plain 0x101 0x100 7 fun address => address.setWidth 8) ∧
      copyToUser Bus.plain 0x101 0x100 7 (fun address => address.setWidth 8) =
        (0, copyData Bus.plain 0x101 0x100 7 fun address => address.setWidth 8) :=
  copies_exact ⟨by decide, by decide, .inl (by decide)⟩ fun address => address.setWidth 8

end Zeos
