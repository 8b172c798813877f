import Zeos.Kernel.Types

/-!
# `get_ticks`

`do_div` divides 64 bits by 32 with the 64-by-32-bit `divl`, which raises an exception
when its quotient does not fit. Dividing the high word first leaves a remainder there that
is smaller than the divisor.
-/

namespace Zeos

abbrev CYCLESPERTICK : DWord := 109000

/-- `divl`: the quotient and the remainder of `upper:low`, or the exception. -/
def divl (upper low base : DWord) : Option (DWord × DWord) :=
  let dividend := upper.toNat * 0x100000000 + low.toNat
  if base = 0 ∨ 0x100000000 ≤ dividend / base.toNat then none
  else some (BitVec.ofNat 32 (dividend / base.toNat), BitVec.ofNat 32 (dividend % base.toNat))

/-- `__upper` and `__high` when `do_div` comes to its `divl`. -/
def doDivUpper (high base : DWord) : DWord × DWord :=
  if high ≠ 0 then (high % base, high / base) else (high, high)

/-- `do_div`: the new dividend and the value of the macro. -/
def doDiv (n : BitVec 64) (base : DWord) : Option (BitVec 64 × DWord) :=
  let low : DWord := n.setWidth 32
  let high : DWord := (n >>> 32).setWidth 32
  let upper := doDivUpper high base
  (divl upper.1 low base).map fun divided => (upper.2 ++ divided.1, divided.2)

/-- `get_ticks`, when `rdtsc` reads `edx:eax`; `none` is a divide error. -/
def getTicks (edx eax : DWord) : Option DWord :=
  let ticks : BitVec 64 := (edx.setWidth 64 <<< 32) + eax.setWidth 64
  (doDiv ticks CYCLESPERTICK).map fun divided => divided.1.setWidth 32

section

variable {high low base : Nat}

theorem quotient_digit {upper radix : Nat} (below : upper < base) (digit : low < radix) :
    (upper * radix + low) / base < radix := by
  have positive : 0 < base := Nat.lt_of_le_of_lt (Nat.zero_le upper) below
  rw [Nat.div_lt_iff_lt_mul positive, Nat.mul_comm radix base]
  calc upper * radix + low < upper * radix + radix := Nat.add_lt_add_left digit _
    _ = (upper + 1) * radix := (Nat.succ_mul upper radix).symm
    _ ≤ base * radix := Nat.mul_le_mul_right radix below

theorem dividend_split (high low base radix : Nat) : high * radix + low =
    base * (high / base * radix) + (high % base * radix + low) := by
  rw [← Nat.add_assoc, ← Nat.mul_assoc, ← Nat.add_mul, Nat.div_add_mod]

theorem quotient_split (radix : Nat) (positive : 0 < base) :
    (high * radix + low) / base = high / base * radix + (high % base * radix + low) / base := by
  rw [dividend_split high low base radix, Nat.mul_add_div positive]

theorem remainder_split (radix : Nat) :
    (high * radix + low) % base = (high % base * radix + low) % base := by
  rw [dividend_split high low base radix, Nat.mul_add_mod]

end

variable {n : BitVec 64} {base : DWord}

/-- Whether the first division is made or not, the two words are what it gives. -/
theorem doDivUpper_eq (high base : DWord) : doDivUpper high base = (high % base, high / base) := by
  unfold doDivUpper
  split
  · rfl
  · rename_i zero
    rw [not_not] at zero
    subst zero
    exact Prod.ext BitVec.zero_umod.symm BitVec.zero_udiv.symm

/-- The `divl` of `do_div` finds a high word below its divisor. -/
theorem doDivUpper_lt (high : DWord) (nonzero : base ≠ 0) :
    (doDivUpper high base).1.toNat < base.toNat := by
  have positive : 0 < base.toNat := by
    rw [Nat.pos_iff_ne_zero]
    exact fun zero => nonzero (BitVec.eq_of_toNat_eq zero)
  rw [doDivUpper_eq, BitVec.toNat_umod]
  exact Nat.mod_lt _ positive

theorem divl_of_lt {upper low : DWord} (below : upper.toNat < base.toNat) :
    ∃ quotient remainder, divl upper low base = some (quotient, remainder) ∧
      quotient.toNat = (upper.toNat * 0x100000000 + low.toNat) / base.toNat ∧
      remainder.toNat = (upper.toNat * 0x100000000 + low.toNat) % base.toNat := by
  have fits := quotient_digit below low.isLt
  have small := Nat.mod_lt (upper.toNat * 0x100000000 + low.toNat)
    (Nat.lt_of_le_of_lt (Nat.zero_le _) below)
  have divisor := base.isLt
  have nonzero : base ≠ 0 := by
    rintro rfl
    exact absurd below (Nat.not_lt_zero _)
  refine ⟨_, _, if_neg (not_or.mpr ⟨nonzero, Nat.not_le.mpr fits⟩), ?_, ?_⟩
  · rw [BitVec.toNat_ofNat]
    exact Nat.mod_eq_of_lt fits
  · rw [BitVec.toNat_ofNat]
    exact Nat.mod_eq_of_lt (Nat.lt_trans small divisor)

theorem words_toNat (n : BitVec 64) :
    ((n >>> 32).setWidth 32 : DWord).toNat * 0x100000000 + (n.setWidth 32 : DWord).toNat =
      n.toNat := by
  have bound := n.isLt
  rw [BitVec.toNat_setWidth, BitVec.toNat_setWidth, BitVec.toNat_ushiftRight,
    Nat.shiftRight_eq_div_pow]
  omega

theorem append_toNat (high low : DWord) :
    (high ++ low : BitVec 64).toNat = high.toNat * 0x100000000 + low.toNat := by
  have bound := low.isLt
  rw [BitVec.toNat_append, Nat.shiftLeft_eq, Nat.mul_comm, ← Nat.two_pow_add_eq_or_of_lt bound,
    Nat.mul_comm]

theorem doDiv_exact (n : BitVec 64) (nonzero : base ≠ 0) :
    ∃ quotient remainder, doDiv n base = some (quotient, remainder) ∧
      quotient.toNat = n.toNat / base.toNat ∧ remainder.toNat = n.toNat % base.toNat := by
  have below := doDivUpper_lt ((n >>> 32).setWidth 32) nonzero
  have positive : 0 < base.toNat := Nat.lt_of_le_of_lt (Nat.zero_le _) below
  have first := doDivUpper_eq ((n >>> 32).setWidth 32) base
  have words := words_toNat n
  rw [first] at below
  unfold doDiv
  dsimp only
  rw [first]
  generalize ((n >>> 32).setWidth 32 : DWord) = high at *
  generalize (n.setWidth 32 : DWord) = low at *
  obtain ⟨quotient, remainder, divided, quotientValue, remainderValue⟩ := divl_of_lt below
  rw [divided]
  refine ⟨_, _, rfl, ?_, ?_⟩
  · rw [append_toNat, quotientValue, BitVec.toNat_udiv, BitVec.toNat_umod, ← words]
    exact (quotient_split 0x100000000 positive).symm
  · rw [remainderValue, BitVec.toNat_umod, ← words]
    exact (remainder_split 0x100000000).symm

def ticksAt (n : BitVec 64) : Option DWord :=
  getTicks ((n >>> 32).setWidth 32) (n.setWidth 32)

theorem timeStamp_eq (n : BitVec 64) :
    (((n >>> 32).setWidth 32 : DWord).setWidth 64 <<< 32) + (n.setWidth 32 : DWord).setWidth 64 =
      n := by
  have words := words_toNat n
  have bound := n.isLt
  generalize ((n >>> 32).setWidth 32 : DWord) = high at *
  generalize (n.setWidth 32 : DWord) = low at *
  apply BitVec.eq_of_toNat_eq
  rw [BitVec.toNat_add, BitVec.toNat_shiftLeft, BitVec.toNat_setWidth, BitVec.toNat_setWidth,
    Nat.shiftLeft_eq, ← words]
  omega

theorem ticksAt_eq (n : BitVec 64) :
    ticksAt n = some (BitVec.ofNat 32 (n.toNat / CYCLESPERTICK.toNat)) := by
  obtain ⟨quotient, remainder, divided, value, _⟩ :=
    @doDiv_exact CYCLESPERTICK n (by decide)
  rw [ticksAt, getTicks, timeStamp_eq, divided, ← value, Option.map_some]
  refine congrArg some (BitVec.eq_of_toNat_eq ?_)
  rw [BitVec.toNat_setWidth, BitVec.toNat_ofNat]

/-- The division never faults and is exact, `get_ticks` counts modulo 2^32, and so do
differences. -/
theorem ticks_exact (n : BitVec 64) (nonzero : base ≠ 0) :
    ((doDivUpper ((n >>> 32).setWidth 32) base).1.toNat < base.toNat ∧
      ∃ quotient remainder, doDiv n base = some (quotient, remainder) ∧
        quotient.toNat = n.toNat / base.toNat ∧ remainder.toNat = n.toNat % base.toNat) ∧
    (∃ ticks, ticksAt n = some ticks ∧
      ticks.toNat = n.toNat / CYCLESPERTICK.toNat % 0x100000000) ∧
    ∀ later : BitVec 64, n.toNat ≤ later.toNat → ∃ first last, ticksAt n = some first ∧
      ticksAt later = some last ∧ (last - first).toNat =
        (later.toNat / CYCLESPERTICK.toNat - n.toNat / CYCLESPERTICK.toNat) % 0x100000000 := by
  refine ⟨⟨doDivUpper_lt _ nonzero, doDiv_exact n nonzero⟩,
    ⟨_, ticksAt_eq n, BitVec.toNat_ofNat ..⟩, fun later order => ?_⟩
  refine ⟨_, _, ticksAt_eq n, ticksAt_eq later, ?_⟩
  have ordered : n.toNat / CYCLESPERTICK.toNat ≤ later.toNat / CYCLESPERTICK.toNat :=
    Nat.div_le_div_right order
  generalize n.toNat / CYCLESPERTICK.toNat = first at *
  generalize later.toNat / CYCLESPERTICK.toNat = last at *
  rw [BitVec.toNat_sub, BitVec.toNat_ofNat, BitVec.toNat_ofNat]
  omega

/-- The largest time stamp, by the divisor of `get_ticks`. -/
theorem ticks_exact_largest :
    ((doDivUpper (((BitVec.allOnes 64) >>> 32).setWidth 32) CYCLESPERTICK).1.toNat <
        CYCLESPERTICK.toNat ∧
      ∃ quotient remainder, doDiv (BitVec.allOnes 64) CYCLESPERTICK = some (quotient, remainder) ∧
        quotient.toNat = (BitVec.allOnes 64).toNat / CYCLESPERTICK.toNat ∧
        remainder.toNat = (BitVec.allOnes 64).toNat % CYCLESPERTICK.toNat) ∧
    (∃ ticks, ticksAt (BitVec.allOnes 64) = some ticks ∧
      ticks.toNat = (BitVec.allOnes 64).toNat / CYCLESPERTICK.toNat % 0x100000000) ∧
    ∀ later : BitVec 64, (BitVec.allOnes 64).toNat ≤ later.toNat →
      ∃ first last, ticksAt (BitVec.allOnes 64) = some first ∧
        ticksAt later = some last ∧ (last - first).toNat =
          (later.toNat / CYCLESPERTICK.toNat -
            (BitVec.allOnes 64).toNat / CYCLESPERTICK.toNat) % 0x100000000 :=
  ticks_exact (BitVec.allOnes 64) (by decide)

end Zeos
