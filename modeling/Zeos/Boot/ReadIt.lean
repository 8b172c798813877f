import Zeos.Kernel.Types
import Zeos.Library.Bytes

/-!
# `read_it` of `bootsect.S`

The loader reads the rest of the disk track by track to 0x10000 and up, a segment of
64 KB at a time, and looks at the number of paragraphs before each read. Every read of the
BIOS succeeds. The variables of the routine are kept apart from memory, but `syssize` is
read where it lies, in the running boot block.
-/

namespace Zeos

open Library

namespace Boot

abbrev SEC_PISTA : BitVec 16 := 18
abbrev SETUPSECS : BitVec 16 := 0
abbrev SYSSEG : BitVec 16 := 0x1000

/-- `INITSEG`, where the boot block runs. -/
@[simp] abbrev BOOT_CODE : Nat := 0x90000

/-- The registers and variables of the loop, memory, and where each sector read so far went:
address and number of bytes, latest first. -/
structure Loader where
  es : BitVec 16
  bx : BitVec 16
  sread : BitVec 16
  head : BitVec 16
  track : BitVec 16
  memory : Nat → Byte
  reads : List (Nat × Nat)

/-- `syssize`, at offset 500 of the boot block. -/
def syssize (memory : Nat → Byte) : BitVec 16 :=
  memory (BOOT_CODE + 501) ++ memory (BOOT_CODE + 500)

/-- Service 2 of `int 0x13`: `al` sectors of two heads and 18 sectors a track. -/
def int13 (disk memory : Nat → Byte) (al ch cl dh dest : Nat) : Nat → Byte :=
  let cylinder := ch + cl / 64 * 256
  let sector := (cylinder * 2 + dh) * 18 + (cl % 64 - 1)
  Bytes.block memory dest (512 * al) fun index => disk (512 * sector + index)

def readTrack (disk : Nat → Byte) (ax : BitVec 16) (l : Loader) : Loader :=
  let dx := l.track
  let cx := l.sread + 1
  let ch := dx.toNat % 256
  let cl := cx.toNat % 256
  let dh := l.head.toNat % 256 % 2
  let al := ax.toNat % 256
  let dest := l.es.toNat * 16 + l.bx.toNat
  { l with
    memory := int13 disk l.memory al ch cl dh dest
    reads := (dest, 512 * al) :: l.reads }

/-- The sectors of the next read: the rest of the track, or what fits in the segment. -/
def sectors (l : Loader) : BitVec 16 :=
  let ax := SEC_PISTA - l.sread
  let cx := ax <<< 9
  if cx.toNat + l.bx.toNat < 0x10000 then ax
  else if cx + l.bx = 0 then ax
  else (0 - l.bx) >>> 9

/-- After a read of AX sectors, up to `ok3_read: mov sread,ax`. -/
def nextSector (ax : BitVec 16) (l : Loader) : Loader :=
  let ax := ax + l.sread
  if ax ≠ SEC_PISTA then { l with sread := ax }
  else
    let ax := 1 - l.head
    if ax ≠ 0 then { l with head := ax, sread := 0 }
    else { l with track := l.track + 1, head := ax, sread := 0 }

/-- From there to `jmp rp_read`. -/
def nextAddress (cx : BitVec 16) (l : Loader) : Loader :=
  let cx := cx <<< 9
  if l.bx.toNat + cx.toNat < 0x10000 then { l with bx := l.bx + cx }
  else { l with es := l.es + 0x1000, bx := 0 }

def rpRead (disk : Nat → Byte) (l : Loader) : Option Loader :=
  if l.es - SYSSEG ≤ syssize l.memory then
    let ax := sectors l
    some (nextAddress ax (nextSector ax (readTrack disk ax l)))
  else none

def start (memory : Nat → Byte) : Loader where
  es := SYSSEG
  bx := 0
  sread := SETUPSECS + 1
  head := 0
  track := 0
  memory := memory
  reads := []

/-- At most so many reads. -/
def readIt (disk : Nat → Byte) : Nat → Loader → Loader
  | 0, l => l
  | passes + 1, l =>
      match rpRead disk l with
      | none => l
      | some l => readIt disk passes l

variable {disk memory : Nat → Byte} {l : Loader} {k : Nat}

/-- After `k` sectors: the place in memory, and the place on disk. -/
structure Position (k : Nat) (l : Loader) : Prop where
  es : l.es.toNat = 0x1000 * (1 + k / 128)
  bx : l.bx.toNat = 512 * (k % 128)
  place : (l.track.toNat * 2 + l.head.toNat) * 18 + l.sread.toNat = k + 1
  sread : l.sread.toNat < 18
  head : l.head.toNat ≤ 1

structure Filled (disk memory : Nat → Byte) (k : Nat) (l : Loader) : Prop where
  memory : l.memory = Bytes.block memory 0x10000 (512 * k) fun index => disk (512 + index)
  inside : ∀ read ∈ l.reads, 0x10000 ≤ read.1 ∧ read.1 + read.2 ≤ 0x10000 + 512 * k
  covered : ∀ index < 512 * k, ∃ read ∈ l.reads,
    read.1 ≤ 0x10000 + index ∧ 0x10000 + index < read.1 + read.2

theorem start_position (memory : Nat → Byte) : Position 0 (start memory) where
  es := rfl
  bx := rfl
  place := rfl
  sread := show (SETUPSECS + 1).toNat < 18 by decide
  head := Nat.zero_le 1

theorem start_filled (disk memory : Nat → Byte) : Filled disk memory 0 (start memory) where
  memory := (Bytes.block_zero memory 0x10000 fun index => disk (512 + index)).symm
  inside _ member := absurd member List.not_mem_nil
  covered index bound := absurd bound (Nat.not_lt_zero index)

theorem Filled.congr {after : Loader} (filled : Filled disk memory k l)
    (bytes : after.memory = l.memory) (reads : after.reads = l.reads) :
    Filled disk memory k after where
  memory := bytes.trans filled.memory
  inside := by
    rw [reads]
    exact filled.inside
  covered := by
    rw [reads]
    exact filled.covered

theorem sectors_spec (position : Position k l) :
    0 < (sectors l).toNat ∧ l.sread.toNat + (sectors l).toNat ≤ 18 ∧
      k % 128 + (sectors l).toNat ≤ 128 := by
  obtain ⟨_, bx, _, sread, _⟩ := position
  have left : (SEC_PISTA - l.sread).toNat = 18 - l.sread.toNat := by
    have pista : SEC_PISTA.toNat = 18 := rfl
    rw [BitVec.toNat_sub_of_le (by rw [BitVec.le_def, pista]; omega), pista]
  have bytes : ((SEC_PISTA - l.sread) <<< 9).toNat = 512 * (18 - l.sread.toNat) := by
    rw [BitVec.toNat_shiftLeft, left, Nat.shiftLeft_eq]
    omega
  unfold sectors
  dsimp only
  rw [bytes]
  split
  · rw [left]
    omega
  · split
    · rename_i zero
      have sum := congrArg BitVec.toNat zero
      rw [BitVec.toNat_add, bytes] at sum
      have none : (0 : BitVec 16).toNat = 0 := rfl
      rw [left]
      omega
    · rename_i carry notZero
      have differs : 512 * (18 - l.sread.toNat) + l.bx.toNat ≠ 0x10000 := by
        intro same
        apply notZero
        apply BitVec.eq_of_toNat_eq
        rw [BitVec.toNat_add, bytes, same]
        rfl
      have rest : ((0 - l.bx) >>> 9).toNat = 128 - k % 128 := by
        have zero : (0 : BitVec 16).toNat = 0 := rfl
        rw [BitVec.toNat_ushiftRight, BitVec.toNat_sub, Nat.shiftRight_eq_div_pow, zero]
        omega
      rw [rest]
      omega

/-- The read goes on where the last one stopped, in memory and on disk. -/
theorem readTrack_filled (position : Position k l) (filled : Filled disk memory k l)
    (few : k < 1152) {ax : BitVec 16} (small : ax.toNat ≤ 18) :
    Filled disk memory (k + ax.toNat) (readTrack disk ax l) := by
  obtain ⟨es, bx, place, sread, head⟩ := position
  have one : (1 : BitVec 16).toNat = 1 := rfl
  have al : ax.toNat % 256 = ax.toNat := Nat.mod_eq_of_lt (by omega)
  have cl : (l.sread + 1).toNat % 256 = l.sread.toNat + 1 := by
    rw [BitVec.toNat_add, one]
    omega
  have sector : (l.track.toNat % 256 + (l.sread.toNat + 1) / 64 * 256) * 2 = l.track.toNat * 2 := by
    omega
  have last : (l.sread.toNat + 1) % 64 - 1 = l.sread.toNat := by omega
  have dh : l.head.toNat % 256 % 2 = l.head.toNat := by omega
  have dest : l.es.toNat * 16 + l.bx.toNat = 0x10000 + 512 * k := by
    have whole := Nat.div_add_mod k 128
    omega
  have after : readTrack disk ax l = { l with
      memory := Bytes.block l.memory (0x10000 + 512 * k) (512 * ax.toNat)
        fun index => disk (512 * (k + 1) + index)
      reads := (0x10000 + 512 * k, 512 * ax.toNat) :: l.reads } := by
    simp only [readTrack, int13, al, cl, sector, last, dh, dest, place]
  rw [after]
  refine ⟨?_, fun read member => ?_, fun index bound => ?_⟩
  · have joined := Bytes.block_append memory (fun index => disk (512 + index)) 0x10000 (512 * k)
      (512 * ax.toNat)
    have shifted : (fun index => disk (512 * (k + 1) + index)) =
        fun index => disk (512 + (512 * k + index)) := by
      funext index
      congr 1
      omega
    have size : 512 * (k + ax.toNat) = 512 * k + 512 * ax.toNat := Nat.mul_add 512 k ax.toNat
    rw [size, ← joined, ← filled.memory, ← shifted]
  · rcases List.mem_cons.mp member with rfl | old
    · exact ⟨by omega, by omega⟩
    · have before := filled.inside read old
      exact ⟨before.1, by omega⟩
  · rcases Nat.lt_or_ge index (512 * k) with old | new
    · obtain ⟨read, member, covers⟩ := filled.covered index old
      exact ⟨read, .tail _ member, covers⟩
    · exact ⟨_, List.mem_cons_self, by omega, by omega⟩

/-- The same place in memory, and the place on disk `n` sectors on. -/
structure Between (k n : Nat) (l : Loader) : Prop where
  es : l.es.toNat = 0x1000 * (1 + k / 128)
  bx : l.bx.toNat = 512 * (k % 128)
  place : (l.track.toNat * 2 + l.head.toNat) * 18 + l.sread.toNat = k + n + 1
  sread : l.sread.toNat < 18
  head : l.head.toNat ≤ 1

/-- The end of a track leads to the other head or to the next track. -/
theorem nextSector_between (position : Position k l) (few : k < 1152) {ax : BitVec 16}
    (inTrack : l.sread.toNat + ax.toNat ≤ 18) : Between k ax.toNat (nextSector ax l) := by
  obtain ⟨es, bx, place, sread, head⟩ := position
  have one : (1 : BitVec 16).toNat = 1 := rfl
  have sum : (ax + l.sread).toNat = ax.toNat + l.sread.toNat := by
    rw [BitVec.toNat_add]
    omega
  unfold nextSector
  dsimp only
  split
  · rename_i inside
    have less : ax.toNat + l.sread.toNat ≠ 18 := by
      intro full
      apply inside
      exact BitVec.eq_of_toNat_eq (sum.trans full)
    refine ⟨es, bx, ?_, ?_, head⟩
    · dsimp only
      omega
    · dsimp only
      omega
  · rename_i full
    have whole := congrArg BitVec.toNat (not_not.mp full)
    have pista : SEC_PISTA.toNat = 18 := rfl
    have zero : (0 : BitVec 16).toNat = 0 := rfl
    rw [sum, pista] at whole
    have other : (1 - l.head).toNat = 1 - l.head.toNat := by
      rw [BitVec.toNat_sub_of_le (by rw [BitVec.le_def, one]; exact head), one]
    split
    · rename_i second
      have first : l.head.toNat ≠ 1 := by
        intro isSecond
        apply second
        apply BitVec.eq_of_toNat_eq
        rw [other, isSecond]
        rfl
      refine ⟨es, bx, ?_, Nat.succ_pos 17, ?_⟩
      · dsimp only
        rw [other, zero]
        omega
      · dsimp only
        omega
    · rename_i back
      have isSecond := congrArg BitVec.toNat (not_not.mp back)
      rw [other, zero] at isSecond
      refine ⟨es, bx, ?_, Nat.succ_pos 17, ?_⟩
      · dsimp only
        rw [BitVec.toNat_add, one, other, zero]
        omega
      · dsimp only
        omega

/-- The end of a segment leads to the next one. -/
theorem nextAddress_position {n : Nat} (between : Between k n l) (few : k < 1152)
    {cx : BitVec 16} (sectors : cx.toNat = n) (inSegment : k % 128 + n ≤ 128) (small : n ≤ 18) :
    Position (k + n) (nextAddress cx l) := by
  obtain ⟨es, bx, place, sread, head⟩ := between
  have bytes : (cx <<< 9).toNat = 512 * n := by
    rw [BitVec.toNat_shiftLeft, sectors, Nat.shiftLeft_eq]
    omega
  have step : (0x1000 : BitVec 16).toNat = 0x1000 := rfl
  unfold nextAddress
  dsimp only
  rw [bytes, bx]
  split
  · rename_i inside
    have sum : (l.bx + cx <<< 9).toNat = 512 * (k % 128) + 512 * n := by
      rw [BitVec.toNat_add, bytes, bx]
      omega
    refine ⟨?_, sum.trans ?_, place, sread, head⟩
    · dsimp only
      omega
    · omega
  · rename_i carry
    have next : (l.es + 0x1000).toNat = 0x1000 * (2 + k / 128) := by
      rw [BitVec.toNat_add, es, step]
      omega
    refine ⟨next.trans ?_, ?_, place, sread, head⟩
    · omega
    · show 0 = 512 * ((k + n) % 128)
      omega

theorem nextSector_same (ax : BitVec 16) (l : Loader) :
    (nextSector ax l).memory = l.memory ∧ (nextSector ax l).reads = l.reads := by
  unfold nextSector
  dsimp only
  split
  · exact ⟨rfl, rfl⟩
  · split <;> exact ⟨rfl, rfl⟩

theorem nextAddress_same (cx : BitVec 16) (l : Loader) :
    (nextAddress cx l).memory = l.memory ∧ (nextAddress cx l).reads = l.reads := by
  unfold nextAddress
  dsimp only
  split <;> exact ⟨rfl, rfl⟩

theorem rpRead_same {after : Loader} (read : rpRead disk l = some after) :
    after.memory = (readTrack disk (sectors l) l).memory ∧
      after.reads = (readTrack disk (sectors l) l).reads := by
  unfold rpRead at read
  split at read
  · rw [← Option.some.inj read]
    obtain ⟨addressMemory, addressReads⟩ := nextAddress_same (sectors l)
      (nextSector (sectors l) (readTrack disk (sectors l) l))
    obtain ⟨sectorMemory, sectorReads⟩ := nextSector_same (sectors l)
      (readTrack disk (sectors l) l)
    exact ⟨addressMemory.trans sectorMemory, addressReads.trans sectorReads⟩
  · cases read

theorem Filled.syssize (filled : Filled disk memory k l) (few : k ≤ 1024) :
    syssize l.memory = Boot.syssize memory := by
  unfold Boot.syssize
  rw [filled.memory, Bytes.block_outside (by simp only [BOOT_CODE]; omega),
    Bytes.block_outside (by simp only [BOOT_CODE]; omega)]

theorem Position.segment (position : Position k l) (few : k < 1152) :
    (l.es - SYSSEG).toNat = 0x1000 * (k / 128) := by
  have seg : SYSSEG.toNat = 0x1000 := rfl
  rw [BitVec.toNat_sub, position.es, seg]
  omega

theorem rpRead_some (position : Position k l) (filled : Filled disk memory k l) (few : k ≤ 1024)
    (more : 0x1000 * (k / 128) ≤ (syssize memory).toNat) :
    ∃ n after, 0 < n ∧ k % 128 + n ≤ 128 ∧ rpRead disk l = some after ∧
      Position (k + n) after ∧ Filled disk memory (k + n) after := by
  obtain ⟨positive, inTrack, inSegment⟩ := sectors_spec position
  have goesOn : l.es - SYSSEG ≤ syssize l.memory := by
    rw [BitVec.le_def, position.segment (by omega), filled.syssize few]
    exact more
  have next : rpRead disk l = some (nextAddress (sectors l)
      (nextSector (sectors l) (readTrack disk (sectors l) l))) := if_pos goesOn
  have here : Position k (readTrack disk (sectors l) l) :=
    ⟨position.es, position.bx, position.place, position.sread, position.head⟩
  have between : Between k (sectors l).toNat
      (nextSector (sectors l) (readTrack disk (sectors l) l)) :=
    nextSector_between here (by omega) inTrack
  have read := readTrack_filled position filled (by omega) (show (sectors l).toNat ≤ 18 by omega)
  refine ⟨(sectors l).toNat, _, positive, inSegment, next, ?_, ?_⟩
  · exact nextAddress_position between (by omega) rfl inSegment (by omega)
  · obtain ⟨bytes, reads⟩ := rpRead_same next
    exact read.congr bytes reads

theorem rpRead_none (position : Position k l) (filled : Filled disk memory k l) (few : k ≤ 1024)
    (done : (syssize memory).toNat < 0x1000 * (k / 128)) : rpRead disk l = none := by
  apply if_neg
  rw [BitVec.le_def, position.segment (by omega), filled.syssize few]
  exact Nat.not_le.mpr done

theorem readIt_stays (stopped : rpRead disk l = none) (passes : Nat) : readIt disk passes l = l := by
  cases passes with
  | zero => rfl
  | succ passes => rw [readIt, stopped]

theorem readIt_add (disk : Nat → Byte) (first second : Nat) (l : Loader) :
    readIt disk (first + second) l = readIt disk second (readIt disk first l) := by
  induction first generalizing l with
  | zero => rw [Nat.zero_add, readIt]
  | succ first inductionHypothesis =>
      rw [Nat.add_right_comm, readIt, readIt]
      cases next : rpRead disk l with
      | none => exact (readIt_stays next second).symm
      | some after => exact inductionHypothesis after

theorem fills_segment {m : Nat} (few : m < 8) (more : 0x1000 * m ≤ (syssize memory).toNat)
    (left : Nat) (position : Position k l) (filled : Filled disk memory k l)
    (inside : 128 * m ≤ k) (rest : k + left = 128 * (m + 1)) :
    ∃ passes, Position (128 * (m + 1)) (readIt disk passes l) ∧
      Filled disk memory (128 * (m + 1)) (readIt disk passes l) := by
  induction left using Nat.strongRecOn generalizing k l with
  | ind left inductionHypothesis =>
      rcases Nat.eq_zero_or_pos left with full | some
      · refine ⟨0, ?_⟩
        rw [← rest, full]
        exact ⟨position, filled⟩
      · have segment : k / 128 = m := by omega
        obtain ⟨n, after, positive, inSegment, read, there, holds⟩ :=
          rpRead_some position filled (by omega) (by rw [segment]; exact more)
        obtain ⟨passes, reached⟩ := inductionHypothesis (left - n) (by omega) there holds
          (by omega) (by omega)
        refine ⟨passes + 1, ?_⟩
        rw [readIt, read]
        exact reached

theorem reaches {m : Nat} (few : m ≤ 8) (more : ∀ j < m, 0x1000 * j ≤ (syssize memory).toNat) :
    ∃ passes, Position (128 * m) (readIt disk passes (start memory)) ∧
      Filled disk memory (128 * m) (readIt disk passes (start memory)) := by
  induction m with
  | zero => exact ⟨0, start_position memory, start_filled disk memory⟩
  | succ m inductionHypothesis =>
      obtain ⟨first, position, filled⟩ := inductionHypothesis (by omega)
        fun j bound => more j (by omega)
      obtain ⟨second, reached⟩ := fills_segment (by omega) (more m (by omega)) 128 position filled
        (Nat.le_refl _) (by omega)
      refine ⟨first + second, ?_⟩
      rw [readIt_add]
      exact reached

theorem readIt_reads (disk : Nat → Byte) (passes : Nat) (l : Loader) :
    l.reads ⊆ (readIt disk passes l).reads := by
  induction passes generalizing l with
  | zero => exact List.Subset.refl _
  | succ passes inductionHypothesis =>
      rw [readIt]
      cases next : rpRead disk l with
      | none => exact List.Subset.refl _
      | some after =>
          have first : l.reads ⊆ after.reads := by
            rw [(rpRead_same next).2]
            exact List.subset_cons_self _ _
          exact List.Subset.trans first (inductionHypothesis after)

/-- The loop came back, all of the disk after the boot block is in memory up to `total`
bytes, and no read touched the running boot block. -/
structure Loaded (disk : Nat → Byte) (total : Nat) (l : Loader) : Prop where
  returned : rpRead disk l = none
  whole : ∀ index < total, ∃ read ∈ l.reads,
    read.1 ≤ 0x10000 + index ∧ 0x10000 + index < read.1 + read.2
  bytes : ∀ index < total, l.memory (0x10000 + index) = disk (512 + index)
  untouched : ∀ read ∈ l.reads, read.1 + read.2 ≤ BOOT_CODE ∨ BOOT_CODE + 512 ≤ read.1

theorem loaded_of_fits {total : Nat} (fits : total ≤ 0x7FFF0)
    (paragraphs : (syssize memory).toNat = (total + 15) / 16 % 0x10000) :
    ∃ passes, Loaded disk total (readIt disk passes (start memory)) := by
  have below : (total + 15) / 16 % 0x10000 = (total + 15) / 16 := Nat.mod_eq_of_lt (by omega)
  rw [below] at paragraphs
  have segments : (syssize memory).toNat / 0x1000 + 1 ≤ 8 := by omega
  obtain ⟨passes, position, filled⟩ := @reaches disk memory _ segments fun j bound => by omega
  refine ⟨passes, ?_, fun index bound => ?_, fun index bound => ?_, fun read member => ?_⟩
  · exact rpRead_none position filled (by omega) (by omega)
  · exact filled.covered index (by omega)
  · rw [filled.memory, Bytes.block_inside (by omega) (by omega), Nat.add_sub_cancel_left]
  · have inside := filled.inside read member
    simp only [BOOT_CODE]
    omega

/-- Past it the loop reads over the boot block, or leaves bytes out. -/
theorem not_loaded {total : Nat} (large : 0x7FFF0 < total)
    (paragraphs : total ≤ 0x80000 → (syssize memory).toNat = (total + 15) / 16 % 0x10000)
    (passes : Nat) : ¬ Loaded disk total (readIt disk passes (start memory)) := by
  intro loaded
  rcases Nat.lt_or_ge 0x80000 total with past | fits
  · obtain ⟨read, member, low, high⟩ := loaded.whole 0x80000 past
    have apart := loaded.untouched read member
    simp only [BOOT_CODE] at apart
    omega
  · have count : (syssize memory).toNat = 0x8000 := by
      have value := paragraphs fits
      omega
    obtain ⟨first, position, filled⟩ := @reaches disk memory 8 (Nat.le_refl 8) fun j bound => by
      omega
    obtain ⟨n, after, some, _, next, _, reached⟩ := rpRead_some position filled (Nat.le_refl _)
      (by omega)
    have late : first < passes := by
      apply Nat.lt_of_not_le
      intro early
      obtain ⟨rest, same⟩ := Nat.exists_eq_add_of_le early
      rw [same, readIt_add, readIt_stays loaded.returned, loaded.returned] at next
      cases next
    obtain ⟨rest, same⟩ := Nat.exists_eq_add_of_lt late
    have split : passes = first + (rest + 1) := same
    have kept : after.reads ⊆ (readIt disk passes (start memory)).reads := by
      rw [split, readIt_add, readIt, next]
      exact readIt_reads disk rest after
    obtain ⟨read, member, low, high⟩ := reached.covered 0x80000 (by omega)
    have apart := loaded.untouched read (kept member)
    simp only [BOOT_CODE] at apart
    omega

end Boot

end Zeos
