import Zeos.Library.X86

/-!
# Interrupts on IA-32

Through an interrupt gate to privilege level 0, and back with `iret`. The processor
changes the stack when the level changes, and only then.
-/

namespace Library.X86

def level (selector : Word) : Word := selector &&& 3

/-- What an interrupt gate clears in EFLAGS: TF, IF, NT, RF and VM. -/
abbrev GATE_CLEARS : Word := 0x34300

namespace Cpu

/-- To `entry` in the code segment `selector` of level 0; the stack of that level is
at `ss0:esp0`. -/
def deliver (cpu : Cpu) (selector entry ss0 esp0 : Word) : Cpu :=
  let onto :=
    if level cpu.cs = 0 then cpu
    else Cpu.pushAll { cpu with ss := ss0, esp := esp0 } [cpu.ss, cpu.esp]
  { onto.pushAll [cpu.eflags, cpu.cs, cpu.eip] with
    cs := selector, eip := entry, eflags := cpu.eflags &&& ~~~GATE_CLEARS }

/-- `iret` with NT clear in EFLAGS, as an interrupt gate leaves it; a return to a nested task
is not modelled. -/
def iret (cpu : Cpu) : Cpu :=
  let back := cpu.exec [.pop .eip, .pop .cs, .pop .eflags]
  if level back.cs = level cpu.cs then back
  else { back with esp := back.mem back.esp, ss := back.mem (back.esp + 4) }

variable {cpu : Cpu} {selector entry ss0 esp0 eip cs eflags esp ss : Word}

theorem deliver_outer (outer : level cpu.cs ≠ 0) : cpu.deliver selector entry ss0 esp0 =
    { Cpu.pushAll { cpu with ss := ss0, esp := esp0 }
        [cpu.ss, cpu.esp, cpu.eflags, cpu.cs, cpu.eip] with
      cs := selector, eip := entry, eflags := cpu.eflags &&& ~~~GATE_CLEARS } := by
  unfold deliver
  rw [if_neg outer]
  rfl

theorem deliver_inner (inner : level cpu.cs = 0) : cpu.deliver selector entry ss0 esp0 =
    { cpu.pushAll [cpu.eflags, cpu.cs, cpu.eip] with
      cs := selector, eip := entry, eflags := cpu.eflags &&& ~~~GATE_CLEARS } := by
  unfold deliver
  rw [if_pos inner]

theorem exec_pop_context (found : Holds cpu.mem cpu.esp [eip, cs, eflags]) :
    cpu.exec [.pop .eip, .pop .cs, .pop .eflags] =
      { cpu with eip := eip, cs := cs, eflags := eflags, esp := slot cpu.esp 3 } := by
  obtain ⟨eipWord, csWord, eflagsWord, -⟩ := found
  have top : slot cpu.esp 3 = cpu.esp + 4 + 4 + 4 := by
    rw [slot, BitVec.add_assoc, BitVec.add_assoc]
    rfl
  simp only [exec_cons, exec_nil, step, set, eipWord, csWord, eflagsWord, top]

/-- Back to a lower level, the stack pointer of that level is found too. -/
theorem iret_outer (found : Holds cpu.mem cpu.esp [eip, cs, eflags, esp, ss])
    (outer : level cs ≠ level cpu.cs) :
    cpu.iret = { cpu with eip := eip, cs := cs, eflags := eflags, esp := esp, ss := ss } := by
  obtain ⟨espWord, ssWord, -⟩ := found.drop 3
  have next : slot cpu.esp 3 + 4 = slot cpu.esp 4 := by
    rw [slot, slot, BitVec.add_assoc]
    rfl
  have context : Holds cpu.mem cpu.esp [eip, cs, eflags] :=
    ⟨found.1, found.2.1, found.2.2.1, trivial⟩
  unfold iret
  rw [exec_pop_context context]
  dsimp only
  rw [if_neg outer, espWord, ssWord]

theorem iret_inner (found : Holds cpu.mem cpu.esp [eip, cs, eflags])
    (inner : level cs = level cpu.cs) :
    cpu.iret = { cpu with eip := eip, cs := cs, eflags := eflags, esp := slot cpu.esp 3 } := by
  unfold iret
  rw [exec_pop_context found]
  exact if_pos inner

end Cpu

end Library.X86
