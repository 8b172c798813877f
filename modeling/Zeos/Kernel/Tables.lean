import Zeos.Kernel.Interrupt
import Zeos.Library.Tables

/-!
# The tables of the processor

`setGdt` and `setTSS` of `mm.c`, `setIdt` of `interrupt.c`, `setMSR` of `kernel-utils.S`,
`set_task_reg` of `hardware.c`, and the table of segments that `bootsect.S` leaves.
-/

namespace Zeos

open Library Library.X86

def highWord (address : DWord) : BitVec 16 := (address >>> 16).setWidth 16

def lowWord (address : DWord) : BitVec 16 := address.setWidth 16

def midByte (address : DWord) : BitVec 8 := (address >>> 16).setWidth 8

def highByte (address : DWord) : BitVec 8 := (address >>> (16 + 8)).setWidth 8

structure Descriptor where
  limit : BitVec 16
  lowBase : BitVec 16
  midBase : BitVec 8
  flags1 : BitVec 8
  flags2 : BitVec 8
  highBase : BitVec 8
  deriving DecidableEq

structure Gate where
  lowOffset : BitVec 16
  segmentSelector : BitVec 16
  flags : BitVec 16
  highOffset : BitVec 16
  deriving DecidableEq

/-- The words after the selectors are never written. -/
structure TSS where
  PreviousTaskLink : BitVec 16
  esp0 : DWord
  ss0 : BitVec 16
  esp1 : DWord
  ss1 : BitVec 16
  esp2 : DWord
  ss2 : BitVec 16
  cr3 : DWord
  eip : DWord
  eFlags : DWord
  eax : DWord
  ecx : DWord
  edx : DWord
  ebx : DWord
  esp : DWord
  ebp : DWord
  esi : DWord
  edi : DWord
  es : BitVec 16
  cs : BitVec 16
  ss : BitVec 16
  ds : BitVec 16
  fs : BitVec 16
  gs : BitVec 16
  LDTSegmentSelector : BitVec 16
  debugTrap : BitVec 16
  IOMapBaseAddress : BitVec 16

def Descriptor.bytes (descriptor : Descriptor) : List (BitVec 8) :=
  bytes16 descriptor.limit ++ bytes16 descriptor.lowBase ++
    [descriptor.midBase, descriptor.flags1, descriptor.flags2, descriptor.highBase]

def Gate.bytes (gate : Gate) : List (BitVec 8) :=
  bytes16 gate.lowOffset ++ bytes16 gate.segmentSelector ++ bytes16 gate.flags ++
    bytes16 gate.highOffset

def TSS.words (tss : TSS) : List DWord :=
  [tss.PreviousTaskLink.setWidth 32, tss.esp0, tss.ss0.setWidth 32, tss.esp1,
   tss.ss1.setWidth 32, tss.esp2, tss.ss2.setWidth 32, tss.cr3, tss.eip, tss.eFlags, tss.eax,
   tss.ecx, tss.edx, tss.ebx, tss.esp, tss.ebp, tss.esi, tss.edi, tss.es.setWidth 32,
   tss.cs.setWidth 32, tss.ss.setWidth 32, tss.ds.setWidth 32, tss.fs.setWidth 32,
   tss.gs.setWidth 32, tss.LDTSegmentSelector.setWidth 32,
   tss.IOMapBaseAddress ++ tss.debugTrap]

abbrev KERNEL_TSS : DWord := 0x30

abbrev GDT_START : DWord := 0x901b3

abbrev INITIAL_EFLAGS : DWord := 0x200

abbrev USER_ESP : DWord :=
  BitVec.ofNat 32 (L_USER_START + (NUM_PAG_CODE + NUM_PAG_DATA) * 0x1000 - 16)

/-- `gdt` of `bootsect.S`. -/
def bootGdt : List Descriptor :=
  [⟨0, 0, 0, 0, 0, 0⟩,
   ⟨0, 0, 0, 0, 0, 0⟩,
   ⟨0xFFFF, 0, 0, 0x9a, 0xcf, 0⟩,
   ⟨0xFFFF, 0, 0, 0x92, 0xcf, 0⟩,
   ⟨0xFFFF, 0, 0, 0xfa, 0xcf, 0⟩,
   ⟨0xFFFF, 0, 0, 0xf2, 0xcf, 0⟩,
   ⟨104, 0, 0, 0x89, 0, 0⟩]

def setGdt (gdt : List Descriptor) (tss : DWord) : List Descriptor :=
  gdt.modify 6 fun descriptor =>
    { descriptor with lowBase := lowWord tss, midBase := midByte tss, highBase := highByte tss }

/-- `ltr`, with which `set_task_reg` ends, marks the task as busy. -/
def setTaskReg (gdt : List Descriptor) : List Descriptor :=
  gdt.modify 6 fun descriptor => { descriptor with flags1 := descriptor.flags1 ||| 0x02 }

def gdtR : Table := ⟨GDT_START, 256 * 8⟩

section

variable [Image]

def setTSS : TSS where
  PreviousTaskLink := 0
  esp0 := taskAddr 1 PAGE_SIZE
  ss0 := KERNEL_DS.setWidth 16
  esp1 := 0
  ss1 := 0
  esp2 := 0
  ss2 := 0
  cr3 := 0
  eip := 0
  eFlags := INITIAL_EFLAGS
  eax := 0
  ecx := 0
  edx := 0
  ebx := 0
  esp := USER_ESP
  ebp := USER_ESP
  esi := 0
  edi := 0
  es := USER_DS.setWidth 16
  cs := USER_CS.setWidth 16
  ss := USER_DS.setWidth 16
  ds := USER_DS.setWidth 16
  fs := 0
  gs := 0
  LDTSegmentSelector := KERNEL_TSS.setWidth 16
  debugTrap := 0
  IOMapBaseAddress := 0

/-- Later only `tss.esp0` is written. -/
def State.tss (s : State) : TSS := { setTSS with esp0 := s.esp0 }

end

abbrev IDT_ENTRIES : Nat := 256

abbrev Idt := Vector Gate IDT_ENTRIES

/-- What `setInterruptHandler` and `setTrapHandler` put in the table: both set up an
interrupt gate. -/
def handlerGate (handler maxAccessibleFromPL : DWord) : Gate where
  lowOffset := lowWord handler
  segmentSelector := KERNEL_CS.setWidth 16
  flags := (maxAccessibleFromPL <<< 13).setWidth 16 ||| 0x8E00
  highOffset := highWord handler

def setInterruptHandler (idt : Idt) (vector : Fin IDT_ENTRIES)
    (handler maxAccessibleFromPL : DWord) : Idt :=
  idt.set vector (handlerGate handler maxAccessibleFromPL)

def setTrapHandler (idt : Idt) (vector : Fin IDT_ENTRIES)
    (handler maxAccessibleFromPL : DWord) : Idt :=
  idt.set vector (handlerGate handler maxAccessibleFromPL)

section

variable [Image] [HandlerImage]

def Handler.vector : Handler → Fin IDT_ENTRIES
  | .clock => 32
  | .keyboard => 33

def setIdt (setHandlers : Idt → Idt) (idt : Idt) : Idt :=
  let idt := setHandlers idt
  let idt := setInterruptHandler idt 32 (HandlerImage.handler .clock) 0
  setInterruptHandler idt 33 (HandlerImage.handler .keyboard) 0

end

def idtR (idt : DWord) : Table := ⟨idt, BitVec.ofNat 16 (IDT_ENTRIES * 8 - 1)⟩

/-- What `wrmsr` does with the arguments of `setMSR` in ECX, EDX and EAX. -/
def setMSR (msr : DWord → BitVec 64) (msrNumber high low : DWord) : DWord → BitVec 64 :=
  Function.update msr msrNumber (high ++ low)

theorem setMSR_low (msr : DWord → BitVec 64) (msrNumber high low : DWord) :
    (setMSR msr msrNumber high low msrNumber).setWidth 32 = low := by
  rw [setMSR, Function.update_self]
  rw [BitVec.setWidth_append, dif_pos (Nat.le_refl 32)]
  exact BitVec.setWidth_eq low

theorem setMSR_other {msr : DWord → BitVec 64} {msrNumber other high low : DWord}
    (apart : other ≠ msrNumber) : setMSR msr msrNumber high low other = msr other :=
  Function.update_of_ne apart ..

section

variable [Image] [HandlerImage]

def setSysenter (msr : DWord → BitVec 64) : DWord → BitVec 64 :=
  let msr := setMSR msr 0x174 0 KERNEL_CS
  let msr := setMSR msr 0x175 0 (taskAddr 1 PAGE_SIZE)
  setMSR msr 0x176 0 HandlerImage.systemCallHandler

/-- `init_task1` and `inner_task_switch` then write 0x175. -/
def State.msr (s : State) (msr : DWord → BitVec 64) : DWord → BitVec 64 :=
  setMSR (setSysenter msr) 0x175 0 s.esp0

end

end Zeos
