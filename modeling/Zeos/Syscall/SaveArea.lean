import Zeos.Kernel.Entry

/-!
# The save area of a system call

What `system_call_handler` leaves on the kernel stack, and what `sysenter_fin` and
`sysexit` make of it.
-/

namespace Zeos

open Library Library.X86

structure SaveArea where
  ebx : DWord
  ecx : DWord
  edx : DWord
  esi : DWord
  edi : DWord
  ebp : DWord
  eax : DWord
  ds : DWord
  es : DWord
  fs : DWord
  gs : DWord
  eip : DWord
  cs : DWord
  eflags : DWord
  oldesp : DWord
  oldss : DWord

namespace SaveArea

def words (area : SaveArea) : List DWord :=
  [area.ebx, area.ecx, area.edx, area.esi, area.edi, area.ebp, area.eax, area.ds, area.es,
    area.fs, area.gs, area.eip, area.cs, area.eflags, area.oldesp, area.oldss]

/-- The user's registers after the return. `sysexit` takes the instruction pointer
from EDX and the stack pointer from ECX, and leaves EFLAGS as they are. -/
def resume (area : SaveArea) (eax eflags : DWord) (mem : Word → Word) : Cpu where
  eax := eax
  ecx := area.oldesp
  edx := area.eip
  ebx := area.ebx
  esp := area.oldesp
  ebp := area.ebp
  esi := area.esi
  edi := area.edi
  eip := area.eip
  eflags := eflags
  cs := USER_CS
  ss := USER_DS
  ds := area.ds
  es := area.es
  fs := area.fs
  gs := area.gs
  mem := mem

end SaveArea

/-- What `system_call_handler` pushes, with the return address it finds on the
user's stack. -/
def savedArea (cpu : Cpu) (eip : DWord) : SaveArea where
  ebx := cpu.ebx
  ecx := cpu.ecx
  edx := cpu.edx
  esi := cpu.esi
  edi := cpu.edi
  ebp := cpu.ebp
  eax := cpu.eax
  ds := cpu.ds
  es := cpu.es
  fs := cpu.fs
  gs := cpu.gs
  eip := eip
  cs := USER_CS
  eflags := cpu.eflags
  oldesp := cpu.ebp
  oldss := USER_DS

/-- What `push 4(%ebp)` finds, after four pushes. -/
def returnWord (cpu : Cpu) : DWord :=
  (cpu.pushAll [USER_DS, cpu.ebp, cpu.eflags, USER_CS]).mem (cpu.ebp + 4)

/-- It is a word of the user's stack, if that is another stack. -/
theorem returnWord_eq (cpu : Cpu)
    (outside : ∀ index < 4, cpu.ebp + 4 ≠ slot (cpu.esp - 16) index) :
    returnWord cpu = cpu.mem (cpu.ebp + 4) := by
  refine cpu.pushAll_mem _ fun index bound same => outside index bound ?_
  have top := cpu.pushAll_esp [USER_DS, cpu.ebp, cpu.eflags, USER_CS]
  generalize (cpu.pushAll [USER_DS, cpu.ebp, cpu.eflags, USER_CS]).esp = bottom at top same
  rw [same, ← top]
  simp only [slot, List.length_cons, List.length_nil]
  bv_omega

theorem exec_systemCallEnter (cpu : Cpu) : cpu.exec systemCallEnter =
    { cpu.pushAll (savedArea cpu (returnWord cpu)).words.reverse with
      edx := KERNEL_DS, ds := KERNEL_DS, es := KERNEL_DS } := by
  let context : List Operand := [.imm USER_DS, .reg .ebp, .reg .eflags, .imm USER_CS]
  let registers : List Operand := [.reg .gs, .reg .fs, .reg .es, .reg .ds, .reg .eax, .reg .ebp,
    .reg .edi, .reg .esi, .reg .edx, .reg .ecx, .reg .ebx]
  let segments : List Instr := [.mov (.imm KERNEL_DS) (.reg .edx), .mov (.reg .edx) (.reg .ds),
    .mov (.reg .edx) (.reg .es)]
  have listing : systemCallEnter =
      context.map .push ++ (.push (.mem 4 .ebp) :: (registers.map .push ++ segments)) := rfl
  have first := cpu.exec_pushes context [] (.push (.mem 4 .ebp) :: (registers.map .push ++ segments))
    (by simp [context, Cpu.read, Cpu.get])
  rw [List.nil_append, Cpu.exec_push] at first
  have word : (cpu.pushAll (context.map cpu.read)).read (.mem 4 .ebp) = returnWord cpu := rfl
  rw [word] at first
  generalize returnWord cpu = eip at first ⊢
  have second := cpu.exec_pushes registers (context.map cpu.read ++ [eip]) segments
    (by simp [registers, Cpu.read, Cpu.get])
  have values : context.map cpu.read ++ [eip] ++ registers.map cpu.read =
      (savedArea cpu eip).words.reverse := rfl
  rw [second, values] at first
  generalize cpu.pushAll (savedArea cpu eip).words.reverse = pushed at first ⊢
  rw [listing]
  exact first

def restore : List Instr :=
  RESTORE_ALL ++ [.mov (.mem 0 .esp) (.reg .edx), .mov (.mem 12 .esp) (.reg .ecx), .sti]

theorem exec_restore {cpu : Cpu} {area : SaveArea} (saved : Holds cpu.mem cpu.esp area.words) :
    sysexit (cpu.exec restore) = area.resume area.eax (cpu.eflags ||| 0x200) cpu.mem := by
  obtain ⟨ebx, ecx, edx, esi, edi, ebp, eax, ds, es, fs, gs, eip, cs, eflags, oldesp, -⟩ := saved
  have eipWord : ∀ address : DWord, address + 0 = address := BitVec.add_zero
  have oldespWord : ∀ address : DWord, address + 12 = address + 4 + 4 + 4 := fun address => by
    rw [BitVec.add_assoc, BitVec.add_assoc]
    rfl
  simp only [restore, RESTORE_ALL, List.cons_append, List.nil_append, Cpu.exec_cons, Cpu.exec_nil,
    Cpu.step, Cpu.set, Cpu.write, Cpu.read, Cpu.get, sysexit, eipWord, oldespWord,
    ebx, ecx, edx, esi, edi, ebp, eax, ds, es, fs, gs, eip, oldesp, SaveArea.resume]

theorem exec_sysenterFin (cpu : Cpu) {area : SaveArea} (saved : Holds cpu.mem cpu.esp area.words) :
    sysexit (cpu.exec sysenterFin) = area.resume cpu.eax (cpu.eflags ||| 0x200)
      (Function.update cpu.mem (slot cpu.esp 6) cpu.eax) := by
  have stored := saved.set (by simp [SaveArea.words]) 6 (by decide) cpu.eax
  have listing : sysenterFin = .mov (.reg .eax) (.mem 0x18 .esp) :: restore := rfl
  have result : cpu.step (.mov (.reg .eax) (.mem 0x18 .esp)) =
    cpu.store (slot cpu.esp 6) cpu.eax := rfl
  rw [listing, Cpu.exec_cons, result]
  exact @exec_restore _ { area with eax := cpu.eax } stored

end Zeos
