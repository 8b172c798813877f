import Zeos.Boot.Gates
import Zeos.Stacks.Top

/-!
# The ports of a process

`setTSS` sets the base of the map of ports to 0, and the limit that `bootsect.S` gives the
task state is past its end: the processor takes the task state itself for the map.
-/

namespace Zeos

open Library Library.X86

section

variable [Image] [HandlerImage]

variable {tables : Tables} {s : State} {setHandlers : Idt → Idt} {idt : Idt}
  {idtAddress tssAddress : DWord} {msr : DWord → BitVec 64} {port : BitVec 16}

/-- `debugTrap` and `IOMapBaseAddress` are the last word. -/
theorem Loaded.mapBase (loaded : Loaded tables s setHandlers idt idtAddress tssAddress msr) :
    halfAt tables.mem (tssAddress + 102) = 0 := by
  have found : s.tss.words[25]? = some (0#16 ++ 0#16) := rfl
  have zero : (0#16 ++ 0#16 : DWord) = 0 := by decide
  have last := loaded.taskWord found
  rw [zero] at last
  have upper := last.half.2
  rw [BitVec.add_assoc, ← List.append_nil (bytes16 _)] at upper
  exact upper.half.1

theorem Loaded.inMap_byte (loaded : Loaded tables s setHandlers idt idtAddress tssAddress msr) :
    tables.inMap port = true ↔ port.toNat / 8 + 1 ≤ 104 ∧
      (tables.mem (tssAddress + BitVec.ofNat 32 (port.toNat / 8))).getLsbD (port.toNat % 8) =
        false := by
  rw [Tables.inMap, loaded.taskSegment, Option.any_some, loaded.mapBase]
  have start : (0 : BitVec 16).toNat + port.toNat / 8 = port.toNat / 8 := Nat.zero_add _
  have limit : (104 : DWord).toNat = 104 := rfl
  simp only [start, limit, halfAt_getLsbD (Nat.mod_lt _ (by decide : 0 < 8)),
    Bool.and_eq_true, decide_eq_true_eq, Bool.not_eq_true']
  constructor
  · rintro ⟨⟨_, bound⟩, unset⟩
    exact ⟨bound, unset⟩
  · rintro ⟨bound, unset⟩
    exact ⟨⟨by decide, bound⟩, unset⟩

theorem Loaded.inMap_iff (loaded : Loaded tables s setHandlers idt idtAddress tssAddress msr) :
    tables.inMap port = true ↔ ∃ word, s.tss.words[port.toNat / 32]? = some word ∧
      word.getLsbD (port.toNat % 32) = false := by
  have length : s.tss.words.length = 26 := rfl
  rw [loaded.inMap_byte]
  by_cases inside : port.toNat / 32 < 26
  · obtain ⟨word, found⟩ : ∃ word, s.tss.words[port.toNat / 32]? = some word :=
      ⟨_, List.getElem?_eq_getElem (by rw [length]; exact inside)⟩
    have bit := (loaded.taskWord found).bit (Nat.mod_lt port.toNat (by decide : 0 < 32))
    have byte : 4 * (port.toNat / 32) + port.toNat % 32 / 8 = port.toNat / 8 := by omega
    have index : port.toNat % 32 % 8 = port.toNat % 8 := by omega
    rw [BitVec.add_assoc, ← BitVec.ofNat_add, byte, index] at bit
    have within : port.toNat / 8 + 1 ≤ 104 := by omega
    simp only [bit, found, within, true_and, Option.some.injEq, exists_eq_left']
  · have none : s.tss.words[port.toNat / 32]? = none :=
      List.getElem?_eq_none (by rw [length]; omega)
    have past : ¬ port.toNat / 8 + 1 ≤ 104 := by omega
    simp [none, past]

def stateWords : List DWord :=
  [0, 0, 0x18, 0, 0, 0, 0, 0, 0, 0x200, 0, 0, 0, 0, 0x11BFF0, 0x11BFF0, 0, 0,
   0x2B, 0x23, 0x2B, 0x2B, 0, 0, 0x30, 0]

omit [HandlerImage] in
theorem tss_words (s : State) : s.tss.words = stateWords.set 1 s.esp0 := by
  have top : USER_ESP = 0x11BFF0 := by decide
  simp [TSS.words, State.tss, setTSS, stateWords, top]

end

/-- The ports that the selectors, the flags and the stack pointer of `setTSS` close. -/
def closedPorts : List Nat :=
  [67, 68, 297,
   452, 453, 454, 455, 456, 457, 458, 459, 460, 461, 463, 464, 468,
   484, 485, 486, 487, 488, 489, 490, 491, 492, 493, 495, 496, 500,
   576, 577, 579, 581, 608, 609, 613, 640, 641, 643, 645, 672, 673, 675, 677, 772, 773]

theorem closedPorts_iff : ∀ index < 26, index ≠ 1 → ∀ bit < 32,
    (stateWords.getD index 0).getLsbD bit = decide (32 * index + bit ∈ closedPorts) := by
  decide +kernel

theorem closedPorts_high : ∀ port ∈ closedPorts, 67 ≤ port := by decide

section

variable [Image] [HandlerImage]

variable {installed : Installed} {memory s : State} {cpu : Cpu} {tables : Tables}
  {setHandlers : Idt → Idt} {idt : Idt} {idtAddress tssAddress : DWord}
  {msr : DWord → BitVec 64} {port : BitVec 16}

omit [HandlerImage] in
theorem bit_words (s : State) (port : Nat) :
    (∃ word, s.tss.words[port / 32]? = some word ∧ word.getLsbD (port % 32) = false) ↔
      port < 832 ∧ port ∉ closedPorts ∧ (port / 32 = 1 → s.esp0.getLsbD (port % 32) = false) := by
  have length : stateWords.length = 26 := rfl
  have split : 32 * (port / 32) + port % 32 = port := Nat.div_add_mod port 32
  have within : port % 32 < 32 := Nat.mod_lt _ (by decide)
  rw [tss_words]
  by_cases inside : port / 32 < 26
  · by_cases second : port / 32 = 1
    · have here : (stateWords.set 1 s.esp0)[1]? = some s.esp0 := rfl
      have bound : port < 832 := by omega
      have notClosed : port ∉ closedPorts := fun closed => by
        have above := closedPorts_high _ closed
        omega
      simp [second, here, bound, notClosed]
    · have here : (stateWords.set 1 s.esp0)[port / 32]? = some (stateWords.getD (port / 32) 0) := by
        rw [List.getElem?_set_ne (Ne.symm second), List.getD_eq_getElem?_getD,
          List.getElem?_eq_getElem (by rw [length]; exact inside), Option.getD_some]
      have bit := closedPorts_iff _ inside second _ within
      rw [split] at bit
      have bound : port < 832 := by omega
      simp only [here, Option.some.injEq, exists_eq_left', bit, decide_eq_false_iff_not, bound,
        second, false_implies, and_true, true_and]
  · have none : (stateWords.set 1 s.esp0)[port / 32]? = none :=
      List.getElem?_eq_none (by rw [List.length_set, length]; omega)
    have past : ¬ port < 832 := by omega
    simp [none, past]

omit [HandlerImage] in
theorem taskAddr_getLsbD (t : Task) {bit : Nat} (low : bit < 12) :
    (taskAddr t PAGE_SIZE).getLsbD bit = false := by
  have place : (taskAddr t PAGE_SIZE).toNat = (taskPage t + 1) * 2 ^ 12 := by
    rw [taskAddr_toNat t (Nat.le_refl _), Nat.succ_mul]
    rfl
  rw [← BitVec.testBit_toNat, place, Nat.testBit_mul_two_pow]
  simp [low]

structure UsesPorts (tables : Tables) (s : State) (cpu : Cpu) : Prop where
  exactly : ∀ port, tables.MayUse cpu port ↔ port.toNat < 832 ∧ port.toNat ∉ closedPorts ∧
    (port.toNat / 32 = 1 → (taskAddr s.current PAGE_SIZE).getLsbD (port.toNat % 32) = false)
  /-- It may program the controller of interrupts, and mask the clock. -/
  always : ∀ port, port.toNat < 44 → tables.MayUse cpu port

theorem ports_of_processes (reachable : (kernel installed memory).Reachable s)
    (loaded : Loaded tables s setHandlers idt idtAddress tssAddress msr)
    (outer : Tables.iopl cpu.eflags < level cpu.cs) : UsesPorts tables s cpu := by
  have top : s.esp0 = taskAddr s.current PAGE_SIZE := onTop_of_reachable reachable
  have exactly : ∀ port, tables.MayUse cpu port ↔
      port.toNat < 832 ∧ port.toNat ∉ closedPorts ∧
        (port.toNat / 32 = 1 → (taskAddr s.current PAGE_SIZE).getLsbD (port.toNat % 32) = false) := by
    intro port
    rw [Tables.MayUse, or_iff_right (BitVec.not_le.mpr outer), loaded.inMap_iff, bit_words, top]
  refine ⟨exactly, fun port low => (exactly port).mpr ⟨by omega, fun closed => ?_, fun second => ?_⟩⟩
  · have above := closedPorts_high _ closed
    omega
  · exact taskAddr_getLsbD _ (by omega)

end

/-- The first process, just after boot. -/
theorem ports_of_processes_boot :
    @UsesPorts Image.sample sampleTables sampleBoot { sampleBoot.cpu with cs := USER_CS } :=
  @ports_of_processes Image.sample HandlerImage.sample .RR State.blank sampleBoot
    { sampleBoot.cpu with cs := USER_CS } sampleTables _ _ _ _ _ (.initial rfl)
    (@kernelTables_loaded Image.sample HandlerImage.sample sampleBoot id
      (Vector.replicate 256 ⟨0, 0, 0, 0⟩) fun _ => 0) (by decide)

end Zeos
