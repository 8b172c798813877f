import Zeos.Boot.Handover

/-!
# Builder, loader and kernel

The image on disk, the boot block in its final place, what `read_it` leaves in memory, and
what `main` finds there. They agree exactly on the images that end below the boot block and
whose program `main` can copy.
-/

namespace Zeos

open Library

namespace Boot

/-- `rep movsw`: the boot block moves itself to `INITSEG`. -/
def moveBootBlock (memory : Nat → Byte) : Nat → Byte :=
  Bytes.block memory BOOT_CODE 512 fun index => memory (0x7C00 + index)

/-- From the end of `read_it` to the copy of `main` the system works on its own data: it
leaves the sizes at its start, and what lies between its end and the boot block. -/
structure Startup (size : Nat) where
  run : (Nat → Byte) → Nat → Byte
  header : ∀ memory address, 0x10000 ≤ address → address < 0x1000C →
    run memory address = memory address
  behind : ∀ memory address, 0x10000 + size ≤ address → address < BOOT_CODE →
    run memory address = memory address

/-- `build` has written the image, it is on the disk, and the BIOS has loaded its first sector. -/
structure Deployed (bootsect system user : File) (image : List Byte)
    (disk memory : Nat → Byte) : Prop where
  built : Build.main [bootsect, system, user] = .ok image
  header : 12 ≤ system.content.length
  onDisk : ∀ index < image.length, image[index]? = some (disk index)
  bios : ∀ index < 512, memory (0x7C00 + index) = disk index

variable {bootsect system user : File} {image : List Byte} {disk memory : Nat → Byte}

theorem value_onDisk (onDisk : ∀ index < image.length, image[index]? = some (disk index))
    {position count : Nat} (room : position + count ≤ image.length) :
    Bytes.value ((image.drop position).take count) =
      Bytes.value ((List.range count).map fun index => disk (position + index)) := by
  have length : ((List.range count).map fun index => disk (position + index)).length = count := by
    rw [List.length_map, List.length_range]
  have slice := @Bytes.slice_eq image ((List.range count).map fun index => disk (position + index))
    position fun index bound => by
      rw [length] at bound
      rw [onDisk _ (by omega), List.getElem?_map, List.getElem?_range bound]
      rfl
  rw [length] at slice
  rw [slice]

namespace Deployed

variable (deployed : Deployed bootsect system user image disk memory)

include deployed

theorem written (fits : system.content.length + user.content.length ≤ 0x80000) :
    Build.Written system user image :=
  Build.written_of_main deployed.built deployed.header (by omega) (by omega)

theorem syssize_eq (fits : system.content.length + user.content.length ≤ 0x80000) :
    (syssize (moveBootBlock memory)).toNat =
      (system.content.length + user.content.length + 15) / 16 % 0x10000 := by
  have written := deployed.written fits
  have moved : ∀ index < 512, moveBootBlock memory (BOOT_CODE + index) = disk index := by
    intro index bound
    rw [moveBootBlock, Bytes.block_inside (Nat.le_add_right ..) (by omega), Nat.add_sub_cancel_left]
    exact deployed.bios index bound
  have length := written.length
  have field := value_onDisk deployed.onDisk (show 500 + 2 ≤ image.length by
    simp only [Build.BOOT_BLOCK] at length
    omega)
  rw [← written.paragraphs, field, syssize, moved 501 (by decide), moved 500 (by decide)]
  show _ = (disk 500).toNat + 256 * ((disk 501).toNat + 256 * 0)
  rw [BitVec.toNat_append, ← Nat.shiftLeft_add_eq_or_of_lt (disk 500).isLt, Nat.shiftLeft_eq]
  omega

theorem not_loaded (large : 0x7FFF0 < system.content.length + user.content.length) (passes : Nat) :
    ¬ Loaded disk (system.content.length + user.content.length)
      (readIt disk passes (start (moveBootBlock memory))) :=
  Boot.not_loaded large deployed.syssize_eq passes

/-- What the loader has read is what `build` was given, but for the sizes. -/
theorem systemBytes {l : Loader} (fits : system.content.length + user.content.length ≤ 0x80000)
    (loaded : Loaded disk (system.content.length + user.content.length) l) {index : Nat}
    (low : 12 ≤ index) (high : index < system.content.length) :
    system.content[index]? = some (l.memory (0x10000 + index)) := by
  have written := deployed.written fits
  have length := written.length
  rw [loaded.bytes index (by omega), ← written.systemBytes index low high]
  exact deployed.onDisk _ (by omega)

theorem userBytes {l : Loader} (fits : system.content.length + user.content.length ≤ 0x80000)
    (loaded : Loaded disk (system.content.length + user.content.length) l) {index : Nat}
    (bound : index < user.content.length) :
    user.content[index]? = some (l.memory (0x10000 + system.content.length + index)) := by
  have written := deployed.written fits
  have length := written.length
  have place : 0x10000 + system.content.length + index =
      0x10000 + (system.content.length + index) := Nat.add_assoc ..
  rw [place, loaded.bytes _ (by omega), ← written.userBytes index bound, Nat.add_assoc]
  exact deployed.onDisk _ (by omega)

theorem word_eq {l : Loader} (startup : Startup system.content.length)
    (fits : system.content.length + user.content.length ≤ 0x80000)
    (loaded : Loaded disk (system.content.length + user.content.length) l) {position : Nat}
    (inHeader : position + 4 ≤ 12) :
    word (startup.run l.memory) (0x10000 + position) =
      Bytes.value ((image.drop (512 + position)).take 4) := by
  have written := deployed.written fits
  have length := written.length
  have header := deployed.header
  have found : ∀ index < 4, startup.run l.memory (0x10000 + position + index) =
      disk (512 + position + index) := by
    intro index bound
    rw [startup.header _ _ (by omega) (by omega), Nat.add_assoc, loaded.bytes _ (by omega),
      Nat.add_assoc]
  rw [value_onDisk deployed.onDisk (by simp only [Build.BOOT_BLOCK] at length; omega), word]
  have first := found 0 (by decide)
  rw [Nat.add_zero] at first
  rw [first, found 1 (by decide), found 2 (by decide), found 3 (by decide)]
  rfl

theorem handed {l : Loader} (startup : Startup system.content.length)
    (fits : system.content.length + user.content.length ≤ 0x7FFF0)
    (loaded : Loaded disk (system.content.length + user.content.length) l) :
    Handed system.content user.content (startup.run l.memory) := by
  have inside : system.content.length + user.content.length ≤ 0x80000 := by omega
  have written := deployed.written inside
  refine ⟨fits, ?_, ?_, fun index bound => ?_⟩
  · exact (deployed.word_eq startup inside loaded (show 0 + 4 ≤ 12 by decide)).trans
      written.systemSize
  · exact (deployed.word_eq startup inside loaded (show 4 + 4 ≤ 12 by decide)).trans
      written.userSize
  · rw [startup.behind _ _ (by omega) (by simp only [BOOT_CODE]; omega)]
    exact deployed.userBytes inside loaded bound

end Deployed

/-- The loader has brought everything into memory beside the running boot block, the
kernel is told both sizes, and the program is where the processes find it. -/
structure Boots (system user : File) (startup : Startup system.content.length) (before : Mm)
    (disk : Nat → Byte) (l : Loader) : Prop where
  loaded : Loaded disk (system.content.length + user.content.length) l
  systemBytes : ∀ index, 12 ≤ index → index < system.content.length →
    system.content[index]? = some (l.memory (0x10000 + index))
  userBytes : ∀ index < user.content.length,
    user.content[index]? = some (l.memory (0x10000 + system.content.length + index))
  handsOver : HandsOver system.content user.content before
    (moveUser (startup.run l.memory) before)

theorem image_boots_iff [Image] (deployed : Deployed bootsect system user image disk memory)
    (startup : Startup system.content.length) (kernel : State) :
    (∃ passes, Boots system user startup kernel.boot.mm disk
      (readIt disk passes (start (moveBootBlock memory)))) ↔
      system.content.length + user.content.length ≤ 0x7FFF0 ∧
        Copyable system.content user.content := by
  have space := boot_firstSpace kernel
  constructor
  · rintro ⟨passes, boots⟩
    have fits : system.content.length + user.content.length ≤ 0x7FFF0 :=
      Nat.le_of_not_lt fun large => deployed.not_loaded large passes boots.loaded
    refine ⟨fits, ?_⟩
    exact (space.handsOver_iff (deployed.handed startup fits boots.loaded)).mp boots.handsOver
  · rintro ⟨fits, copyable⟩
    have inside : system.content.length + user.content.length ≤ 0x80000 := by omega
    obtain ⟨passes, loaded⟩ := @loaded_of_fits disk _ _ fits (deployed.syssize_eq inside)
    refine ⟨passes, loaded, fun index low high => ?_, fun index bound => ?_, ?_⟩
    · exact deployed.systemBytes inside loaded low high
    · exact deployed.userBytes inside loaded bound
    · exact (space.handsOver_iff (deployed.handed startup fits loaded)).mpr copyable

def diskOf (file : List Byte) (place : Nat) : Byte := (file[place]?).getD 0

theorem deployed_of_block {boot : List Byte} (block : Build.bootBlock bootsect = .ok boot)
    (header : 12 ≤ system.content.length) (systemFits : system.content.length < 0x100000000)
    (userFits : user.content.length < 0x100000000) :
    ∃ image disk memory, Deployed bootsect system user image disk memory := by
  obtain ⟨image, built⟩ : ∃ image, Build.main [bootsect, system, user] = .ok image :=
    ⟨_, Build.main_eq block systemFits userFits⟩
  refine ⟨image, diskOf image, fun address => diskOf image (address - 0x7C00), built, header,
    fun index bound => ?_, fun index bound => ?_⟩
  · rw [diskOf, List.getElem?_eq_getElem bound, Option.getD_some]
  · rw [Nat.add_sub_cancel_left]

def blankBootsect : File where
  name := "bootsect"
  content := Build.hdr ++ List.replicate 534 0 ++ [0x55, 0xaa]

theorem blankBootsect_block : ∃ boot, Build.bootBlock blankBootsect = .ok boot := by
  have accepted : (Build.bootBlock blankBootsect).isOk = true := by decide +kernel
  cases block : Build.bootBlock blankBootsect with
  | error message =>
      rw [block] at accepted
      cases accepted
  | ok boot => exact ⟨boot, rfl⟩

def idleStartup (size : Nat) : Startup size where
  run := id
  header _ _ _ _ := rfl
  behind _ _ _ _ := rfl

def smallSystem : File := ⟨"system.out", List.replicate 16 0⟩
def smallUser : File := ⟨"user.out", [0xCC]⟩

/-- A system of 16 bytes and a program of one boot. -/
theorem image_boots_small : ∃ image disk memory,
    Deployed blankBootsect smallSystem smallUser image disk memory ∧
    ∃ passes, Boots smallSystem smallUser (idleStartup 16) (@State.boot Image.sample State.blank).mm
      disk (readIt disk passes (start (moveBootBlock memory))) := by
  obtain ⟨boot, block⟩ := blankBootsect_block
  obtain ⟨image, disk, memory, deployed⟩ :=
    @deployed_of_block blankBootsect smallSystem smallUser boot block (by decide) (by decide)
      (by decide)
  refine ⟨image, disk, memory, deployed, ?_⟩
  apply (@image_boots_iff _ _ _ _ _ _ Image.sample deployed (idleStartup 16) State.blank).mpr
  refine ⟨by decide, @Copyable.mk Image.sample _ _ (by decide) ?_ fun index bound => ?_⟩
  · unfold Guard
    decide
  · have first : index = 0 := Nat.lt_one_iff.mp bound
    subst first
    unfold Guard
    decide

def largeSystem : File := ⟨"system.out", List.replicate 0x70000 0⟩
def largeUser : File := ⟨"user.out", List.replicate 0x10000 0⟩

/-- `build` accepts half a megabyte, and the loader then reads over the boot block. -/
theorem image_too_large : ∃ image disk memory,
    Deployed blankBootsect largeSystem largeUser image disk memory ∧
    ∀ (startup : Startup largeSystem.content.length) (kernel : State),
      ¬ ∃ passes, Boots largeSystem largeUser startup (@State.boot Image.sample kernel).mm disk
        (readIt disk passes (start (moveBootBlock memory))) := by
  obtain ⟨boot, block⟩ := blankBootsect_block
  have systemLength : largeSystem.content.length = 0x70000 := List.length_replicate
  have userLength : largeUser.content.length = 0x10000 := List.length_replicate
  obtain ⟨image, disk, memory, deployed⟩ :=
    @deployed_of_block blankBootsect largeSystem largeUser boot block
      (by rw [systemLength]; decide) (by rw [systemLength]; decide) (by rw [userLength]; decide)
  refine ⟨image, disk, memory, deployed, ?_⟩
  rintro startup kernel ⟨passes, boots⟩
  exact deployed.not_loaded (by rw [systemLength, userLength]; decide) passes boots.loaded

end Boot

end Zeos
