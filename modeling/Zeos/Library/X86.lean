import Mathlib.Algebra.Group.Nat.Defs
import Mathlib.Logic.Function.Basic

/-!
# Straight-line IA-32 code on a word memory

The part of the instruction set that hand-written entry and context-switch
code is made of. Memory is a function from addresses to 32-bit words: every
access such code makes to its stack is aligned. A sequence of instructions is
a value, so that an assembly listing can be read against it; branches are left
to the program that uses the sequences.
-/

namespace Library.X86

abbrev Word := BitVec 32

inductive Reg where
  | eax | ecx | edx | ebx | esp | ebp | esi | edi
  | eip | eflags | cs | ss | ds | es | fs | gs
  deriving DecidableEq, Repr

structure Cpu where
  eax : Word
  ecx : Word
  edx : Word
  ebx : Word
  esp : Word
  ebp : Word
  esi : Word
  edi : Word
  eip : Word
  eflags : Word
  cs : Word
  ss : Word
  ds : Word
  es : Word
  fs : Word
  gs : Word
  mem : Word → Word

namespace Cpu

def get (cpu : Cpu) : Reg → Word
  | .eax => cpu.eax
  | .ecx => cpu.ecx
  | .edx => cpu.edx
  | .ebx => cpu.ebx
  | .esp => cpu.esp
  | .ebp => cpu.ebp
  | .esi => cpu.esi
  | .edi => cpu.edi
  | .eip => cpu.eip
  | .eflags => cpu.eflags
  | .cs => cpu.cs
  | .ss => cpu.ss
  | .ds => cpu.ds
  | .es => cpu.es
  | .fs => cpu.fs
  | .gs => cpu.gs

def set (cpu : Cpu) (value : Word) : Reg → Cpu
  | .eax => { cpu with eax := value }
  | .ecx => { cpu with ecx := value }
  | .edx => { cpu with edx := value }
  | .ebx => { cpu with ebx := value }
  | .esp => { cpu with esp := value }
  | .ebp => { cpu with ebp := value }
  | .esi => { cpu with esi := value }
  | .edi => { cpu with edi := value }
  | .eip => { cpu with eip := value }
  | .eflags => { cpu with eflags := value }
  | .cs => { cpu with cs := value }
  | .ss => { cpu with ss := value }
  | .ds => { cpu with ds := value }
  | .es => { cpu with es := value }
  | .fs => { cpu with fs := value }
  | .gs => { cpu with gs := value }

/-- The registers a C function gives back as it found them, but for EBP. -/
structure CalleeSaved where
  ebx : Word
  esi : Word
  edi : Word

def holding (cpu : Cpu) (registers : CalleeSaved) : Cpu :=
  { cpu with ebx := registers.ebx, esi := registers.esi, edi := registers.edi }

def store (cpu : Cpu) (address value : Word) : Cpu :=
  { cpu with mem := Function.update cpu.mem address value }

end Cpu

/-- `$value`, `%reg` and `disp(%base)`. -/
inductive Operand where
  | imm (value : Word)
  | reg (reg : Reg)
  | mem (disp : Word) (base : Reg)

inductive Instr where
  | push (source : Operand)
  | pop (dest : Reg)
  | mov (source dest : Operand)
  | add (value : Word) (dest : Reg)
  | sti

namespace Cpu

def read (cpu : Cpu) : Operand → Word
  | .imm value => value
  | .reg reg => cpu.get reg
  | .mem disp base => cpu.mem (cpu.get base + disp)

def write (cpu : Cpu) (value : Word) : Operand → Cpu
  | .imm _ => cpu
  | .reg reg => cpu.set value reg
  | .mem disp base => cpu.store (cpu.get base + disp) value

/-- One instruction. `push` reads its operand before it moves the stack pointer. -/
def step (cpu : Cpu) : Instr → Cpu
  | .push source =>
      { cpu.store (cpu.esp - 4) (cpu.read source) with esp := cpu.esp - 4 }
  | .pop dest => { cpu with esp := cpu.esp + 4 }.set (cpu.mem cpu.esp) dest
  | .mov source dest => cpu.write (cpu.read source) dest
  | .add value dest => cpu.set (cpu.get dest + value) dest
  | .sti => { cpu with eflags := cpu.eflags ||| 0x200 }

def exec (cpu : Cpu) : List Instr → Cpu
  | [] => cpu
  | instr :: rest => (cpu.step instr).exec rest

@[simp] theorem exec_nil (cpu : Cpu) : cpu.exec [] = cpu := rfl

@[simp] theorem exec_cons (cpu : Cpu) (instr : Instr) (rest : List Instr) :
    cpu.exec (instr :: rest) = (cpu.step instr).exec rest := rfl

theorem exec_append (cpu : Cpu) (first second : List Instr) :
    cpu.exec (first ++ second) = (cpu.exec first).exec second := by
  induction first generalizing cpu with
  | nil => rfl
  | cons instr rest inductionHypothesis => exact inductionHypothesis (cpu.step instr)

end Cpu

/-- `ret` pops the instruction pointer. -/
abbrev Instr.ret : Instr := .pop .eip

def Holds (mem : Word → Word) : Word → List Word → Prop
  | _, [] => True
  | address, word :: words => mem address = word ∧ Holds mem (address + 4) words

instance decidableHolds (mem : Word → Word) :
    (address : Word) → (words : List Word) → Decidable (Holds mem address words)
  | _, [] => .isTrue trivial
  | address, word :: words =>
      have := decidableHolds mem (address + 4) words
      inferInstanceAs (Decidable (mem address = word ∧ Holds mem (address + 4) words))

abbrev slot (address : Word) (index : Nat) : Word := address + BitVec.ofNat 32 (4 * index)

theorem slot_zero (address : Word) : slot address 0 = address := by simp [slot]

theorem slot_succ (address : Word) (index : Nat) :
    slot (address + 4) index = slot address (index + 1) := by
  rw [slot, slot, Nat.mul_add, Nat.add_comm, BitVec.ofNat_add, BitVec.add_assoc]
  rfl

theorem slot_inj {address : Word} {first second : Nat} (firstBound : first < 2 ^ 30)
    (secondBound : second < 2 ^ 30) (same : slot address first = slot address second) :
    first = second := by
  have words := BitVec.add_right_inj address |>.mp same
  have values := congrArg BitVec.toNat words
  simp only [BitVec.toNat_ofNat] at values
  omega

theorem Holds.move {mem other : Word → Word} {address place : Word} {words : List Word}
    (holds : Holds mem address words)
    (same : ∀ index < words.length, other (slot place index) = mem (slot address index)) :
    Holds other place words := by
  induction words generalizing address place with
  | nil => trivial
  | cons word words inductionHypothesis =>
      refine ⟨?_, inductionHypothesis holds.2 ?_⟩
      · have first := same 0 (by simp)
        rw [slot_zero, slot_zero] at first
        exact first.trans holds.1
      · intro index bound
        rw [slot_succ, slot_succ]
        exact same (index + 1) (by simpa using bound)

theorem Holds.congr {mem other : Word → Word} {address : Word} {words : List Word}
    (holds : Holds mem address words)
    (same : ∀ index < words.length, other (slot address index) = mem (slot address index)) :
    Holds other address words :=
  holds.move same

theorem Holds.drop {mem : Word → Word} {address : Word} {words : List Word} (count : Nat)
    (holds : Holds mem address words) : Holds mem (slot address count) (words.drop count) := by
  induction count generalizing address words with
  | zero => simpa [slot] using holds
  | succ count inductionHypothesis =>
      cases words with
      | nil => trivial
      | cons word words =>
          rw [← slot_succ]
          exact inductionHypothesis holds.2

theorem Holds.concat {mem : Word → Word} {address word : Word} {words : List Word}
    (holds : Holds mem address words) (last : mem (slot address words.length) = word) :
    Holds mem address (words ++ [word]) := by
  induction words generalizing address with
  | nil =>
      rw [List.length_nil, slot_zero] at last
      exact ⟨last, trivial⟩
  | cons first words inductionHypothesis =>
      rw [List.length_cons, ← slot_succ] at last
      exact ⟨holds.1, inductionHypothesis holds.2 last⟩

namespace Cpu

def pushAll (cpu : Cpu) : List Word → Cpu
  | [] => cpu
  | value :: rest => pushAll { cpu.store (cpu.esp - 4) value with esp := cpu.esp - 4 } rest

/-- Only the stack pointer and memory change. -/
theorem pushAll_eq (cpu : Cpu) (values : List Word) : cpu.pushAll values =
    { cpu with esp := (cpu.pushAll values).esp, mem := (cpu.pushAll values).mem } := by
  induction values generalizing cpu with
  | nil => rfl
  | cons value rest inductionHypothesis => exact inductionHypothesis _

theorem pushAll_append (cpu : Cpu) (first second : List Word) :
    cpu.pushAll (first ++ second) = (cpu.pushAll first).pushAll second := by
  induction first generalizing cpu with
  | nil => rfl
  | cons value rest inductionHypothesis => exact inductionHypothesis _

theorem exec_push (cpu : Cpu) (done : List Word) (source : Operand) (rest : List Instr) :
    (cpu.pushAll done).exec (.push source :: rest) =
      (cpu.pushAll (done ++ [(cpu.pushAll done).read source])).exec rest := by
  rw [pushAll_append]
  rfl

theorem exec_pushes (cpu : Cpu) (sources : List Operand) (done : List Word) (rest : List Instr)
    (steady : ∀ source ∈ sources, ∀ esp mem,
      Cpu.read { cpu with esp := esp, mem := mem } source = cpu.read source) :
    (cpu.pushAll done).exec (sources.map .push ++ rest) =
      (cpu.pushAll (done ++ sources.map cpu.read)).exec rest := by
  induction sources generalizing done with
  | nil => simp
  | cons source sources inductionHypothesis =>
      have first := steady source List.mem_cons_self
      have later := inductionHypothesis (done ++ [cpu.read source]) fun other member =>
        steady other (List.mem_cons_of_mem _ member)
      have same : (cpu.pushAll done).read source = cpu.read source := by
        rw [pushAll_eq]
        exact first _ _
      rw [List.map_cons, List.cons_append, exec_push, same, later, List.append_assoc]
      rfl

theorem pushAll_esp (cpu : Cpu) (values : List Word) :
    slot (cpu.pushAll values).esp values.length = cpu.esp := by
  induction values generalizing cpu with
  | nil => exact slot_zero cpu.esp
  | cons value rest inductionHypothesis =>
      have below : slot (cpu.pushAll (value :: rest)).esp rest.length = cpu.esp - 4 :=
        inductionHypothesis { cpu.store (cpu.esp - 4) value with esp := cpu.esp - 4 }
      have above : slot (cpu.pushAll (value :: rest)).esp (rest.length + 1) =
          slot (cpu.pushAll (value :: rest)).esp rest.length + 4 := by
        rw [slot, slot, Nat.mul_add, BitVec.ofNat_add, BitVec.add_assoc]
        rfl
      rw [List.length_cons, above, below]
      exact BitVec.sub_add_cancel _ _

theorem pushAll_mem (cpu : Cpu) (values : List Word) {address : Word}
    (outside : ∀ index < values.length, address ≠ slot (cpu.pushAll values).esp index) :
    (cpu.pushAll values).mem address = cpu.mem address := by
  induction values generalizing cpu with
  | nil => rfl
  | cons value rest inductionHypothesis =>
      let pushed : Cpu := { cpu.store (cpu.esp - 4) value with esp := cpu.esp - 4 }
      have below := inductionHypothesis pushed fun index bound =>
        outside index (Nat.lt_succ_of_lt bound)
      have apart : address ≠ cpu.esp - 4 := by
        have last := outside rest.length (Nat.lt_succ_self _)
        have top : slot (pushed.pushAll rest).esp rest.length = cpu.esp - 4 := pushed.pushAll_esp rest
        rwa [← top]
      exact below.trans (Function.update_of_ne apart ..)

end Cpu

theorem Holds.pushAll {cpu : Cpu} {words : List Word} (holds : Holds cpu.mem cpu.esp words)
    (values : List Word) (short : values.length + words.length < 2 ^ 30) :
    Holds (cpu.pushAll values).mem (cpu.pushAll values).esp (values.reverse ++ words) := by
  induction values generalizing cpu words with
  | nil => exact holds
  | cons value rest inductionHypothesis =>
      rw [List.length_cons] at short
      let pushed : Cpu := { cpu.store (cpu.esp - 4) value with esp := cpu.esp - 4 }
      have back : pushed.esp + 4 = cpu.esp := BitVec.sub_add_cancel _ _
      have front : Holds pushed.mem pushed.esp (value :: words) := by
        refine ⟨Function.update_self .., ?_⟩
        rw [back]
        refine holds.congr fun index bound => Function.update_of_ne ?_ _ _
        intro same
        have apart : slot pushed.esp (index + 1) = slot pushed.esp 0 := by
          rw [← slot_succ, back, slot_zero]
          exact same
        have := slot_inj (by omega) (by omega) apart
        omega
      have rest := inductionHypothesis front (by rw [List.length_cons]; omega)
      rw [List.reverse_cons, List.append_assoc]
      exact rest

theorem Holds.set {mem : Word → Word} {address : Word} {words : List Word}
    (holds : Holds mem address words) (short : words.length < 2 ^ 30) (index : Nat)
    (bound : index < 2 ^ 30) (value : Word) :
    Holds (Function.update mem (slot address index) value) address (words.set index value) := by
  induction words generalizing address index with
  | nil => trivial
  | cons word words inductionHypothesis =>
      cases index with
      | zero =>
          refine ⟨by simp [slot], holds.2.congr fun index below => Function.update_of_ne ?_ _ _⟩
          rw [slot_succ]
          intro same
          have := slot_inj (by simp only [List.length_cons] at short; omega) (by omega) same
          omega
      | succ index =>
          refine ⟨?_, ?_⟩
          · rw [Function.update_of_ne, holds.1]
            intro same
            have apart : slot address 0 = slot address (index + 1) := by rw [slot_zero, ← same]
            have := slot_inj (by omega) bound apart
            omega
          · have rest := inductionHypothesis holds.2 (by simp only [List.length_cons] at short; omega)
              index (by omega)
            rwa [slot_succ] at rest

end Library.X86
