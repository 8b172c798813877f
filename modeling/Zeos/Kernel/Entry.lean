import Zeos.Kernel.Sys

/-!
# `entry.S` and `sys_call_table.S`

The way into the kernel through `sysenter` and back through `sysexit`. The call
through the table is followed into `sys_ni_syscall`; of the other services the
outcome names the one that is entered.
-/

namespace Zeos

open Library Library.X86

abbrev KERNEL_CS : DWord := 0x10
abbrev KERNEL_DS : DWord := 0x18
abbrev USER_CS : DWord := 0x23
abbrev USER_DS : DWord := 0x2B

def SAVE_ALL : List Instr :=
  [.push (.reg .gs),
   .push (.reg .fs),
   .push (.reg .es),
   .push (.reg .ds),
   .push (.reg .eax),
   .push (.reg .ebp),
   .push (.reg .edi),
   .push (.reg .esi),
   .push (.reg .edx),
   .push (.reg .ecx),
   .push (.reg .ebx),
   .mov (.imm KERNEL_DS) (.reg .edx),
   .mov (.reg .edx) (.reg .ds),
   .mov (.reg .edx) (.reg .es)]

def RESTORE_ALL : List Instr :=
  [.pop .ebx,
   .pop .ecx,
   .pop .edx,
   .pop .esi,
   .pop .edi,
   .pop .ebp,
   .pop .eax,
   .pop .ds,
   .pop .es,
   .pop .fs,
   .pop .gs]

/-- `system_call_handler` up to its first comparison. -/
def systemCallEnter : List Instr :=
  [.push (.imm USER_DS),
   .push (.reg .ebp),
   .push (.reg .eflags),
   .push (.imm USER_CS),
   .push (.mem 4 .ebp)] ++ SAVE_ALL

/-- `sysenter_fin` up to `sysexit`. -/
def sysenterFin : List Instr :=
  [.mov (.reg .eax) (.mem 0x18 .esp)] ++ RESTORE_ALL ++
  [.mov (.mem 0 .esp) (.reg .edx),
   .mov (.mem 12 .esp) (.reg .ecx),
   .sti]

/-- `ret_from_fork`, as compiled with a frame pointer. -/
def retFromFork : List Instr :=
  [.push (.reg .ebp),
   .mov (.reg .esp) (.reg .ebp),
   .mov (.imm 0) (.reg .eax),
   .pop .ebp,
   .ret]

/-- The end of `sys_fork`, as compiled with a frame pointer: `leave; ret`. -/
def sysForkLeave : List Instr :=
  [.mov (.reg .ebp) (.reg .esp),
   .pop .ebp,
   .ret]

def sysexit (cpu : Cpu) : Cpu :=
  { cpu with eip := cpu.edx, esp := cpu.ecx, cs := USER_CS, ss := USER_DS }

inductive Service where
  | sysNiSyscall | sysExit | sysFork | sysRead | sysWrite | sysGettime | sysYield
  | sysSetSchedPolicy | sysGetpid | sysGetStats
  deriving DecidableEq

def sysCallTable : List Service :=
  [.sysNiSyscall, .sysExit, .sysFork, .sysRead, .sysWrite,
   .sysNiSyscall, .sysNiSyscall, .sysNiSyscall, .sysNiSyscall, .sysNiSyscall,
   .sysGettime, .sysNiSyscall, .sysNiSyscall, .sysYield, .sysNiSyscall,
   .sysNiSyscall, .sysNiSyscall, .sysSetSchedPolicy, .sysNiSyscall, .sysNiSyscall,
   .sysGetpid, .sysNiSyscall, .sysNiSyscall, .sysNiSyscall, .sysNiSyscall,
   .sysNiSyscall, .sysNiSyscall, .sysNiSyscall, .sysNiSyscall, .sysNiSyscall,
   .sysNiSyscall, .sysNiSyscall, .sysNiSyscall, .sysNiSyscall, .sysNiSyscall,
   .sysGetStats]

/-- The assembler's count of the entries of the table. -/
def MAX_SYSCALL : DWord := BitVec.ofNat 32 sysCallTable.length

inductive Dispatch where
  | sysenterErr
  | call (service : Service)
  /-- The call goes through a word after the end of the table. -/
  | outside (slot : Nat)
  deriving DecidableEq

/-- `cmpl $0, %eax; jl; cmpl $MAX_SYSCALL, %eax; jg; call *sys_call_table(, %eax, 4)` -/
def dispatch (eax : DWord) : Dispatch :=
  if eax.slt 0 then .sysenterErr
  else if MAX_SYSCALL.slt eax then .sysenterErr
  else
    match sysCallTable[eax.toNat]? with
    | some service => .call service
    | none => .outside eax.toNat

section

variable [Image]

/-- How far the handler is followed. -/
inductive Outcome where
  /-- Back in user mode. -/
  | user (after : State)
  /-- At the first instruction of a service other than `sys_ni_syscall`. -/
  | service (name : Service) (entered : State)
  /-- At an address that is not laid down in the table. -/
  | outside (slot : Nat) (entered : State)
  /-- `push 4(%ebp)` faults, and does not come back. -/
  | fault

namespace State

/-- The processor's `sysenter`: the stack of MSR 0x175, interrupts off. -/
def sysenter (s : State) : State :=
  { s with cpu := { s.cpu with
      cs := KERNEL_CS, ss := KERNEL_DS, esp := s.esp0, eflags := s.cpu.eflags &&& ~~~0x200 } }

/-- `sysenter_fin`, with the result in EAX. -/
def sysenterFin (s : State) (eax : DWord) : State :=
  { s with cpu := sysexit ({ s.cpu with eax := eax }.exec Zeos.sysenterFin) }

/-- `call sys_ni_syscall`: the routine leaves the stack as it finds it and its
result in EAX. -/
def callNiSyscall (s : State) : State :=
  let s := { s with cpu := s.cpu.exec [.push (.imm Image.systemCallRet)] }
  let (result, s) := s.sysNiSyscall
  { s with cpu := { s.cpu with eax := result.word }.exec [.ret] }

/-- The kernel can load the word: its first and its last byte are in pages that are there. -/
def Readable (s : State) (address : DWord) : Prop :=
  (s.mm.translate (PH_PAGE address)).1.isSome = true ∧
    ((s.mm.translate (PH_PAGE address)).2.translate (PH_PAGE (address + 3))).1.isSome = true

instance (s : State) (address : DWord) : Decidable (s.Readable address) :=
  inferInstanceAs (Decidable (_ ∧ _))

/-- `system_call_handler`, from the user's `sysenter` on, where `push 4(%ebp)` does not fault:
after `syscall_sysenter`, which pushes that word itself, it does not. -/
def systemCallPushed (s : State) : Outcome :=
  let s := s.sysenter
  let s := { s with cpu := s.cpu.exec systemCallEnter }
  match dispatch s.cpu.eax with
  | .sysenterErr => .user (s.sysenterFin (-ENOSYS))
  | .call .sysNiSyscall =>
      let s := s.callNiSyscall
      .user (s.sysenterFin s.cpu.eax)
  | .call service =>
      .service service { s with cpu := s.cpu.exec [.push (.imm Image.systemCallRet)] }
  | .outside slot =>
      .outside slot { s with cpu := s.cpu.exec [.push (.imm Image.systemCallRet)] }

/-- `system_call_handler`, from any `sysenter` on. -/
def systemCallHandler (s : State) : Outcome :=
  if s.Readable (s.cpu.ebp + 4) then s.systemCallPushed else .fault

end State

end

end Zeos
