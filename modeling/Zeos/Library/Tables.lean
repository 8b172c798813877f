import Mathlib.Data.BitVec
import Zeos.Library.Privilege

/-!
# The tables of an IA-32 processor

Descriptors, gates and the task state are bytes in memory, low byte first. What is here
is how the processor reads them, and which of its checks they pass.
-/

namespace Library.X86

def bytes16 (half : BitVec 16) : List (BitVec 8) := [half.setWidth 8, half.extractLsb' 8 8]

def bytes32 (word : Word) : List (BitVec 8) :=
  bytes16 (word.setWidth 16) ++ bytes16 (word.extractLsb' 16 16)

variable {mem : Word → BitVec 8} {address : Word}

def halfAt (mem : Word → BitVec 8) (address : Word) : BitVec 16 :=
  mem (address + 1) ++ mem address

def wordAt (mem : Word → BitVec 8) (address : Word) : Word :=
  halfAt mem (address + 2) ++ halfAt mem address

theorem high_append_low {high low : Nat} (word : BitVec (high + low)) :
    word.extractLsb' low high ++ word.setWidth low = word := by
  apply BitVec.eq_of_getLsbD_eq
  intro index bound
  rw [BitVec.getLsbD_append, BitVec.getLsbD_extractLsb', BitVec.getLsbD_setWidth]
  by_cases inLow : index < low
  · simp [inLow]
  · have inHigh : index - low < high := by omega
    have back : low + (index - low) = index := by omega
    simp [inLow, inHigh, back]

def Stored (mem : Word → BitVec 8) (address : Word) (bytes : List (BitVec 8)) : Prop :=
  ∀ index byte, bytes[index]? = some byte → mem (address + BitVec.ofNat 32 index) = byte

variable {bytes others : List (BitVec 8)}

theorem Stored.front (stored : Stored mem address (bytes ++ others)) :
    Stored mem address bytes := by
  intro index byte found
  have bound : index < bytes.length := (List.getElem?_eq_some_iff.mp found).1
  apply stored
  rw [List.getElem?_append_left bound, found]

theorem Stored.back (stored : Stored mem address (bytes ++ others)) :
    Stored mem (address + BitVec.ofNat 32 bytes.length) others := by
  intro index byte found
  rw [BitVec.add_assoc, ← BitVec.ofNat_add]
  apply stored
  rw [List.getElem?_append_right (Nat.le_add_right _ _), Nat.add_sub_cancel_left, found]

def placing (mem : Word → BitVec 8) (base : Word) (bytes : List (BitVec 8)) : Word → BitVec 8 :=
  fun address => bytes[(address - base).toNat]?.getD (mem address)

theorem stored_placing (short : bytes.length ≤ 2 ^ 32) :
    Stored (placing mem address bytes) address bytes := by
  intro index byte found
  have bound : index < bytes.length := (List.getElem?_eq_some_iff.mp found).1
  have offset : (address + BitVec.ofNat 32 index - address).toNat = index := by
    rw [BitVec.add_comm, BitVec.add_sub_cancel, BitVec.toNat_ofNat, Nat.mod_eq_of_lt (by omega)]
  rw [placing, offset, found]
  rfl

theorem Stored.placing {base : Word} (stored : Stored mem address bytes)
    (apart : ∀ index < bytes.length,
      others.length ≤ (address + BitVec.ofNat 32 index - base).toNat) :
    Stored (placing mem base others) address bytes := by
  intro index byte found
  have bound : index < bytes.length := (List.getElem?_eq_some_iff.mp found).1
  rw [X86.placing, List.getElem?_eq_none (apart index bound)]
  exact stored index byte found

/-- One of several records of the same size. -/
theorem Stored.record {Record : Type} {layout : Record → List (BitVec 8)} {size index : Nat}
    {records : List Record} {record : Record} (sized : ∀ record, (layout record).length = size)
    (stored : Stored mem address (records.flatMap layout)) (found : records[index]? = some record) :
    Stored mem (address + BitVec.ofNat 32 (size * index)) (layout record) := by
  induction records generalizing address index with
  | nil => exact absurd found (by simp)
  | cons first rest inductionHypothesis =>
      rw [List.flatMap_cons] at stored
      cases index with
      | zero =>
          obtain rfl : first = record := Option.some.inj found
          rw [Nat.mul_zero, BitVec.add_zero]
          exact stored.front
      | succ index =>
          have back := stored.back
          rw [sized] at back
          have later := inductionHypothesis back found
          rwa [BitVec.add_assoc, ← BitVec.ofNat_add, Nat.add_comm, ← Nat.mul_succ] at later

theorem Stored.half {half : BitVec 16} (stored : Stored mem address (bytes16 half ++ others)) :
    halfAt mem address = half ∧ Stored mem (address + 2) others := by
  have low := stored 0 _ rfl
  have high := stored 1 _ rfl
  rw [BitVec.add_zero] at low
  refine ⟨?_, stored.back⟩
  rw [halfAt, low]
  exact (congrArg (· ++ half.setWidth 8) high).trans (@high_append_low 8 8 half)

theorem length_bytes32 (word : Word) : (bytes32 word).length = 4 := rfl

theorem Stored.word {word : Word} (stored : Stored mem address (bytes32 word ++ others)) :
    wordAt mem address = word ∧ Stored mem (address + 4) others := by
  rw [bytes32, List.append_assoc] at stored
  obtain ⟨low, upper⟩ := stored.half
  obtain ⟨high, later⟩ := upper.half
  rw [BitVec.add_assoc] at later
  refine ⟨?_, later⟩
  rw [wordAt, low, high]
  exact @high_append_low 16 16 word

theorem bytes32_getElem? {word : Word} {place : Nat} (bound : place < 4) :
    (bytes32 word)[place]? = some (word.extractLsb' (8 * place) 8) := by
  obtain rfl | rfl | rfl | rfl : place = 0 ∨ place = 1 ∨ place = 2 ∨ place = 3 := by omega
  all_goals
    apply congrArg some
    apply BitVec.eq_of_getLsbD_eq
    intro index inside
    have low : index < 16 := by omega
    have upper : 8 + index < 16 := by omega
    simp [inside, low, upper, ← Nat.add_assoc]

theorem Stored.bit {word : Word} {index : Nat} (stored : Stored mem address (bytes32 word))
    (bound : index < 32) :
    (mem (address + BitVec.ofNat 32 (index / 8))).getLsbD (index % 8) = word.getLsbD index := by
  have place : 8 * (index / 8) + index % 8 = index := Nat.div_add_mod index 8
  have inside : index % 8 < 8 := Nat.mod_lt _ (by decide)
  have few : index / 8 < 4 := by omega
  rw [stored _ _ (bytes32_getElem? few), BitVec.getLsbD_extractLsb', place]
  simp [inside]

theorem halfAt_getLsbD {index : Nat} (bound : index < 8) :
    (halfAt mem address).getLsbD index = (mem address).getLsbD index := by
  rw [halfAt, BitVec.getLsbD_append, if_pos bound]

/-- P, DPL, S and the type: the sixth byte of a descriptor. -/
abbrev Access := BitVec 8

namespace Access

def present (access : Access) : Bool := access.getLsbD 7

def dpl (access : Access) : Word := (access.extractLsb' 5 2).setWidth 32

def kind (access : Access) : BitVec 5 := access.setWidth 5

/-- A code segment that runs at its own level. -/
def isCode (access : Access) : Bool := access &&& 0x1C = 0x18

def isStack (access : Access) : Bool := access &&& 0x1A = 0x12

end Access

structure Segment where
  base : Word
  limit : Word
  access : Access
  deriving DecidableEq

/-- The last address, from its high bits and G, and its low bits: in pages, or in bytes. -/
def segmentLimit (flags : BitVec 8) (low : BitVec 16) : Word :=
  let limit : BitVec 20 := flags.setWidth 4 ++ low
  if flags.getLsbD 7 then limit ++ 0xFFF#12 else limit.setWidth 32

def segmentAt (mem : Word → BitVec 8) (address : Word) : Segment where
  base := mem (address + 7) ++ mem (address + 4) ++ halfAt mem (address + 2)
  limit := segmentLimit (mem (address + 6)) (halfAt mem address)
  access := mem (address + 5)

structure GateWords where
  offset : Word
  selector : Word
  access : Access
  deriving DecidableEq

def gateAt (mem : Word → BitVec 8) (address : Word) : GateWords where
  offset := halfAt mem (address + 6) ++ halfAt mem address
  selector := (halfAt mem (address + 2)).setWidth 32
  access := mem (address + 5)

structure Table where
  base : Word
  limit : BitVec 16

def Table.slot (table : Table) (index : Nat) : Option Word :=
  if 8 * index + 7 ≤ table.limit.toNat then some (table.base + BitVec.ofNat 32 (8 * index))
  else none

structure Tables where
  mem : Word → BitVec 8
  gdt : Table
  idt : Table
  /-- The selector in TR. -/
  task : Word
  msr : Word → BitVec 64

namespace Tables

variable (tables : Tables)

/-- The segment a selector names. There is no LDT. -/
def segment (selector : Word) : Option Segment :=
  if selector.getLsbD 2 ∨ selector.toNat / 8 = 0 then none
  else (tables.gdt.slot (selector.toNat / 8)).map (segmentAt tables.mem)

/-- The stack of level 0, from the task state. -/
def innerStack : Option (Word × Word) :=
  (tables.segment tables.task).bind fun task =>
    let ss := (halfAt tables.mem (task.base + 8)).setWidth 32
    (tables.segment ss).bind fun stack =>
      if 9 ≤ task.limit.toNat ∧ level ss = 0 ∧ stack.access.isStack ∧ stack.access.present ∧
          stack.access.dpl = 0 then
        some (ss, wordAt tables.mem (task.base + 4))
      else none

/-- An interrupt gate to code of level 0 lets the interrupt through; `int` only from the
levels of the gate. -/
def Admits (cpu : Cpu) (software : Bool) (gate : GateWords) (code : Segment) : Prop :=
  gate.access.kind = 0x0E ∧ gate.access.present ∧ (software → level cpu.cs ≤ gate.access.dpl) ∧
    code.access.isCode ∧ code.access.present ∧ code.access.dpl = 0

instance (cpu : Cpu) (software : Bool) (gate : GateWords) (code : Segment) :
    Decidable (Admits cpu software gate code) :=
  inferInstanceAs (Decidable (_ ∧ _))

/-- An interrupt from outside, or `int`. It is a fault where there is no result. Gates to
other levels and trap gates are not followed. -/
def interrupt (cpu : Cpu) (vector : Nat) (software : Bool) : Option Cpu :=
  (tables.idt.slot vector).bind fun place =>
    let gate := gateAt tables.mem place
    (tables.segment gate.selector).bind fun code =>
      if Admits cpu software gate code then
        if level cpu.cs = 0 then some (cpu.deliver gate.selector gate.offset cpu.ss cpu.esp)
        else tables.innerStack.map fun stack =>
          cpu.deliver gate.selector gate.offset stack.1 stack.2
      else none

def low (number : Word) : Word := (tables.msr number).setWidth 32

def sysenter (cpu : Cpu) : Cpu :=
  let cs := tables.low 0x174 &&& 0xFFFC
  { cpu with
    cs := cs, ss := cs + 8, esp := tables.low 0x175, eip := tables.low 0x176
    eflags := cpu.eflags &&& ~~~0x30200 }

def sysexit (cpu : Cpu) : Cpu :=
  let cs := tables.low 0x174 &&& 0xFFFC
  { cpu with cs := cs + 16 ||| 3, ss := cs + 24 ||| 3, eip := cpu.edx, esp := cpu.ecx }

def iopl (eflags : Word) : Word := eflags >>> 12 &&& 3

/-- The bit of the port in the map that the task state points to. Two bytes of the map
are read. -/
def inMap (port : BitVec 16) : Bool :=
  (tables.segment tables.task).any fun task =>
    let place := (halfAt tables.mem (task.base + 102)).toNat + port.toNat / 8
    decide (103 ≤ task.limit.toNat) && decide (place + 1 ≤ task.limit.toNat) &&
      !(halfAt tables.mem (task.base + BitVec.ofNat 32 place)).getLsbD (port.toNat % 8)

/-- `in` and `out`, of one byte. -/
def MayUse (cpu : Cpu) (port : BitVec 16) : Prop :=
  level cpu.cs ≤ iopl cpu.eflags ∨ tables.inMap port = true

end Tables

end Library.X86
