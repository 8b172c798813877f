import Zeos.Kernel.Types
import Zeos.Library.Bytes

/-!
# `build.c`

The image is the boot block, the system and the user program, one behind the other. The
sizes are written over it afterwards: the loader's in the boot block, the kernel's at the
start of the system. A failure of the tool is the text it dies with.
-/

namespace Zeos

open Library

structure File where
  name : String
  content : List Byte

namespace Build

abbrev SIZEOF_BUF : Nat := 1024
abbrev MINIX_HEADER_LEN : Nat := 32
abbrev BOOT_BLOCK : Nat := 512
abbrev DEFAULT_MAJOR_ROOT : Byte := 0
abbrev DEFAULT_MINOR_ROOT : Byte := 0

def hdr : List Byte := [0x01, 0x03, 0x10, 0x04, 0x20, 0x00, 0x00, 0x00]

def lb (buf : List Byte) (index : Nat) : Nat := Bytes.value ((buf.drop (4 * index)).take 4)

/-- `minix_open`; the rest of the file comes next. -/
def minixOpen (file : File) : Except String (List Byte) :=
  let buf := file.content.take MINIX_HEADER_LEN
  if buf.length ≠ MINIX_HEADER_LEN then .error (file.name ++ ": Unable to read header")
  else if buf.take hdr.length ≠ hdr ∨ lb buf 5 ≠ 0 then .error (file.name ++ ": Non-Minix header")
  else if lb buf 3 ≠ 0 then .error (file.name ++ ": Illegal data segment")
  else if lb buf 4 ≠ 0 then .error (file.name ++ ": Illegal bss segment")
  else if lb buf 7 ≠ 0 then .error (file.name ++ ": Illegal symbol table")
  else .ok (file.content.drop MINIX_HEADER_LEN)

def bootBlock (file : File) : Except String (List Byte) :=
  match minixOpen file with
  | .error message => .error message
  | .ok rest =>
      let buf := rest.take SIZEOF_BUF
      if buf.length ≠ BOOT_BLOCK then .error "Boot block must be exactly 512 bytes"
      else if buf[510]? ≠ some 0x55 ∨ buf[511]? ≠ some 0xaa then
        .error "Boot block hasn't got boot flag (0xAA55)"
      else .ok ((buf.set 508 DEFAULT_MINOR_ROOT).set 509 DEFAULT_MAJOR_ROOT)

/-- `while (sz > 0)`: what is left of a file is read by the buffer and written out. -/
def copyLoop (name : String) (sz : Nat) (file out : List Byte) : Except String (List Byte) :=
  if sz = 0 then .ok out
  else
    let l := min sz SIZEOF_BUF
    let buf := file.take l
    if buf.length ≠ l then .error (name ++ ": Unexpected EOF")
    else copyLoop name (sz - l) (file.drop l) (out ++ buf)
termination_by sz
decreasing_by
  simp only [SIZEOF_BUF]
  omega

def size (file : File) : DWord := BitVec.ofNat 32 file.content.length

def copyFile (file : File) (out : List Byte) : Except String (List Byte) :=
  copyLoop file.name (size file).toNat file.content out

/-- `buf[0] = (value & 0xff); buf[1] = ((value >> 8) & 0xff);` -/
def lowBytes (value : DWord) : List Byte := [value.setWidth 8, (value >>> 8).setWidth 8]

/-- The same with the third byte, and a zero for the fourth. -/
def sizeBytes (value : DWord) : List Byte := lowBytes value ++ [(value >>> 16).setWidth 8, 0]

def imSize (system user : File) : DWord := (size system + size user + 15) / 16

def writeSizes (system user : File) (image : List Byte) : List Byte :=
  let image := Bytes.patch image 500 (lowBytes (imSize system user))
  let image := Bytes.patch image 512 (sizeBytes (size system))
  let image := Bytes.patch image 516 (sizeBytes (size user))
  Bytes.patch image 520 (sizeBytes 0x7E1A)

def main (argv : List File) : Except String (List Byte) :=
  match argv with
  | [bootsect, system, user] =>
      match bootBlock bootsect with
      | .error message => .error message
      | .ok boot =>
          match copyFile system boot with
          | .error message => .error message
          | .ok image =>
              match copyFile user image with
              | .error message => .error message
              | .ok image => .ok (writeSizes system user image)
  | _ => .error "Usage: build bootsect system user [> image]"

variable {bootsect system user : File} {boot image out : List Byte} {index : Nat}

theorem copyLoop_eq (name : String) (sz : Nat) (file out : List Byte)
    (bound : sz ≤ file.length) : copyLoop name sz file out = .ok (out ++ file.take sz) := by
  fun_induction copyLoop name sz file out with
  | case1 file out => rw [List.take_zero, List.append_nil]
  | case2 sz file out some l buf short =>
      refine absurd (List.length_take_of_le ?_) short
      exact Nat.le_trans (Nat.min_le_left sz SIZEOF_BUF) bound
  | case3 sz file out some l buf full inductionHypothesis =>
      have chunk : l ≤ sz := Nat.min_le_left sz SIZEOF_BUF
      have rest : sz - l ≤ (file.drop l).length := by
        rw [List.length_drop]
        omega
      have whole : file.take sz = buf ++ (file.drop l).take (sz - l) := by
        rw [← List.take_add, Nat.add_sub_cancel' chunk]
      rw [inductionHypothesis rest, List.append_assoc, whole]

theorem copyFile_eq (file : File) (out : List Byte) (small : file.content.length < 0x100000000) :
    copyFile file out = .ok (out ++ file.content) := by
  have whole : (size file).toNat = file.content.length := by
    rw [size, BitVec.toNat_ofNat]
    exact Nat.mod_eq_of_lt small
  rw [copyFile, whole, copyLoop_eq _ _ _ _ (Nat.le_refl _), List.take_length]

theorem bootBlock_length (written : bootBlock bootsect = .ok boot) : boot.length = BOOT_BLOCK := by
  unfold bootBlock at written
  split at written
  · cases written
  · dsimp only at written
    split at written
    · cases written
    · rename_i exact_length
      split at written
      · cases written
      · cases written
        simpa using exact_length

theorem main_eq (block : bootBlock bootsect = .ok boot)
    (systemFits : system.content.length < 0x100000000)
    (userFits : user.content.length < 0x100000000) :
    main [bootsect, system, user] =
      .ok (writeSizes system user (boot ++ system.content ++ user.content)) := by
  unfold main
  dsimp only
  rw [block]
  dsimp only
  rw [copyFile_eq system boot systemFits]
  dsimp only
  rw [copyFile_eq user _ userFits]

theorem main_ok (written : main [bootsect, system, user] = .ok image)
    (systemFits : system.content.length < 0x100000000)
    (userFits : user.content.length < 0x100000000) :
    ∃ boot, boot.length = BOOT_BLOCK ∧
      image = writeSizes system user (boot ++ system.content ++ user.content) := by
  cases block : bootBlock bootsect with
  | error message =>
      unfold main at written
      dsimp only at written
      rw [block] at written
      cases written
  | ok boot =>
      rw [main_eq block systemFits userFits] at written
      cases written
      exact ⟨boot, bootBlock_length block, rfl⟩

theorem value_lowBytes (value : DWord) :
    Bytes.value (lowBytes value) = value.toNat % 0x10000 := by
  simp only [lowBytes, Bytes.value, BitVec.toNat_setWidth, BitVec.toNat_ushiftRight,
    Nat.shiftRight_eq_div_pow]
  omega

theorem value_sizeBytes {value : DWord} (small : value.toNat < 0x1000000) :
    Bytes.value (sizeBytes value) = value.toNat := by
  have zero : (0 : Byte).toNat = 0 := rfl
  simp only [sizeBytes, lowBytes, List.cons_append, List.nil_append, Bytes.value,
    BitVec.toNat_setWidth, BitVec.toNat_ushiftRight, Nat.shiftRight_eq_div_pow, zero]
  omega

theorem size_toNat {file : File} (small : file.content.length < 0x1000000) :
    (size file).toNat = file.content.length := by
  rw [size, BitVec.toNat_ofNat]
  omega

theorem imSize_toNat (systemFits : system.content.length < 0x1000000)
    (userFits : user.content.length < 0x1000000) :
    (imSize system user).toNat = (system.content.length + user.content.length + 15) / 16 := by
  have sum : (size system + size user + 15).toNat =
      system.content.length + user.content.length + 15 := by
    have fifteen : (15 : DWord).toNat = 15 := rfl
    simp only [BitVec.toNat_add, size_toNat systemFits, size_toNat userFits, fifteen]
    omega
  rw [imSize, BitVec.toNat_udiv, sum]
  rfl

/-- The image on disk, for files of less than 16 MB. -/
structure Written (system user : File) (image : List Byte) : Prop where
  length : image.length = BOOT_BLOCK + system.content.length + user.content.length
  paragraphs : Bytes.value ((image.drop 500).take 2) =
    (system.content.length + user.content.length + 15) / 16 % 0x10000
  systemSize : Bytes.value ((image.drop 512).take 4) = system.content.length
  userSize : Bytes.value ((image.drop 516).take 4) = user.content.length
  systemBytes : ∀ index, 12 ≤ index → index < system.content.length →
    image[BOOT_BLOCK + index]? = system.content[index]?
  userBytes : ∀ index < user.content.length,
    image[BOOT_BLOCK + system.content.length + index]? = user.content[index]?

theorem writeSizes_spec {file : List Byte} (room : 524 ≤ file.length) :
    (writeSizes system user file).length = file.length ∧
      ((writeSizes system user file).drop 500).take 2 = lowBytes (imSize system user) ∧
      ((writeSizes system user file).drop 512).take 4 = sizeBytes (size system) ∧
      ((writeSizes system user file).drop 516).take 4 = sizeBytes (size user) ∧
      ∀ index, 524 ≤ index → (writeSizes system user file)[index]? = file[index]? := by
  unfold writeSizes
  dsimp only
  have two : (lowBytes (imSize system user)).length = 2 := rfl
  have four : ∀ value : DWord, (sizeBytes value).length = 4 := fun _ => rfl
  generalize lowBytes (imSize system user) = paragraphs at *
  generalize first : Bytes.patch file 500 paragraphs = counted
  have countedLength : counted.length = file.length := by
    rw [← first, Bytes.patch_length (by omega)]
  generalize second : Bytes.patch counted 512 (sizeBytes (size system)) = sized
  have sizedLength : sized.length = file.length := by
    rw [← second, Bytes.patch_length (by rw [four]; omega), countedLength]
  generalize third : Bytes.patch sized 516 (sizeBytes (size user)) = both
  have bothLength : both.length = file.length := by
    rw [← third, Bytes.patch_length (by rw [four]; omega), sizedLength]
  have last : ∀ index < 520, (Bytes.patch both 520 (sizeBytes 0x7E1A))[index]? = both[index]? :=
    fun index before => Bytes.patch_before (by omega) before
  refine ⟨?_, ?_, ?_, ?_, fun index after => ?_⟩
  · rw [Bytes.patch_length (by rw [four]; omega), bothLength]
  · rw [← two]
    apply Bytes.slice_eq
    intro index bound
    rw [last _ (by omega), ← third, Bytes.patch_before (by omega) (by omega), ← second,
      Bytes.patch_before (by omega) (by omega), ← first, Bytes.patch_here (by omega) bound]
  · rw [← four (size system)]
    apply Bytes.slice_eq
    intro index bound
    rw [four] at bound
    rw [last _ (by omega), ← third, Bytes.patch_before (by omega) (by omega), ← second,
      Bytes.patch_here (by omega) bound]
  · rw [← four (size user)]
    apply Bytes.slice_eq
    intro index bound
    rw [four] at bound
    rw [last _ (by omega), ← third, Bytes.patch_here (by omega) bound]
  · rw [Bytes.patch_after (by omega) (by rw [four]; omega), ← third,
      Bytes.patch_after (by omega) (by rw [four]; omega), ← second,
      Bytes.patch_after (by omega) (by rw [four]; omega), ← first,
      Bytes.patch_after (by omega) (by omega)]

theorem written_of_main (written : main [bootsect, system, user] = .ok image)
    (header : 12 ≤ system.content.length) (systemFits : system.content.length < 0x1000000)
    (userFits : user.content.length < 0x1000000) : Written system user image := by
  obtain ⟨boot, block, rfl⟩ := main_ok written (by omega) (by omega)
  simp only [BOOT_BLOCK] at block
  have whole : (boot ++ system.content ++ user.content).length =
      BOOT_BLOCK + system.content.length + user.content.length := by
    simp only [List.length_append, block, BOOT_BLOCK]
  obtain ⟨length, paragraphs, systemSize, userSize, rest⟩ :=
    @writeSizes_spec system user _ (show 524 ≤ (boot ++ system.content ++ user.content).length by
      simp only [BOOT_BLOCK] at whole
      omega)
  refine ⟨length.trans whole, ?_, ?_, ?_, fun index low high => ?_, fun index bound => ?_⟩
  · rw [paragraphs, value_lowBytes, imSize_toNat systemFits userFits]
  · rw [systemSize, value_sizeBytes (by rw [size_toNat systemFits]; exact systemFits),
      size_toNat systemFits]
  · rw [userSize, value_sizeBytes (by rw [size_toNat userFits]; exact userFits),
      size_toNat userFits]
  · rw [rest _ (by simp only [BOOT_BLOCK]; omega), List.append_assoc,
      List.getElem?_append_right (by simp only [BOOT_BLOCK]; omega), List.getElem?_append_left (by
        simp only [BOOT_BLOCK]
        omega), block, BOOT_BLOCK, Nat.add_sub_cancel_left]
  · have front : (boot ++ system.content).length = BOOT_BLOCK + system.content.length := by
      rw [List.length_append, block]
    rw [rest _ (by simp only [BOOT_BLOCK]; omega), List.getElem?_append_right (by omega), front,
      Nat.add_sub_cancel_left]

end Build

end Zeos
