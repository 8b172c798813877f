import Zeos.Kernel.Entry

/-!
# `user-utils.S`

The wrappers of the system calls. They have one shape: load the number and up to
three arguments, call `syscall_sysenter`, and some then turn a negative result into
`errno`. The flags that `test` and `neg` leave behind are not modelled.
-/

namespace Zeos

open Library Library.X86

/-- A wrapper: the number of its service, how many arguments it loads, and whether it
tests the sign of the result. -/
structure Wrapper where
  number : DWord
  args : Nat
  tests : Bool
  deriving DecidableEq

/-- Where the linker puts the code and the variable that the wrappers share. -/
class UserImage where
  SYSENTER_RETURN : DWord
  errno : DWord
  /-- Return address of `call syscall_sysenter` in a wrapper. -/
  afterCall : Wrapper → DWord

def argRegs : List Reg := [.ebx, .ecx, .edx]

namespace Wrapper

def write : Wrapper := ⟨4, 3, true⟩
def read : Wrapper := ⟨3, 3, true⟩
def setSchedPolicy : Wrapper := ⟨17, 1, true⟩
def gettime : Wrapper := ⟨10, 0, false⟩
def getpid : Wrapper := ⟨20, 0, false⟩
def fork : Wrapper := ⟨2, 0, true⟩
def exit : Wrapper := ⟨1, 0, false⟩
def yield : Wrapper := ⟨13, 0, false⟩
def getStats : Wrapper := ⟨35, 2, true⟩

def all : List Wrapper :=
  [write, read, setSchedPolicy, gettime, getpid, fork, exit, yield, getStats]

def loads (w : Wrapper) : List Instr :=
  (argRegs.take w.args).zipIdx.map fun (reg, index) =>
    .mov (.mem (BitVec.ofNat 32 (8 + 4 * index)) .ebp) (.reg reg)

section

variable [UserImage]

/-- Up to and with `call syscall_sysenter`; EBX is saved if it is going to be loaded. -/
def enter (w : Wrapper) : List Instr :=
  [.push (.reg .ebp),
   .mov (.reg .esp) (.reg .ebp)] ++
  (if 0 < w.args then [.push (.reg .ebx)] else []) ++
  [.mov (.imm w.number) (.reg .eax)] ++ w.loads ++
  [.push (.imm (UserImage.afterCall w))]

def nok (cpu : Cpu) : Cpu :=
  let cpu := { cpu with eax := -cpu.eax }
  let cpu := cpu.store UserImage.errno cpu.eax
  cpu.exec [.mov (.imm (-1)) (.reg .eax), .pop .ebp, .ret]

/-- From the return of the call; `js` goes by the sign bit of EAX. -/
def leave (w : Wrapper) (cpu : Cpu) : Cpu :=
  let cpu := if 0 < w.args then cpu.exec [.pop .ebx] else cpu
  if w.tests ∧ cpu.eax.slt 0 then nok cpu else cpu.exec [.pop .ebp, .ret]

end

end Wrapper

section

variable [UserImage]

/-- `syscall_sysenter`, up to `sysenter`. -/
def syscallSysenter : List Instr :=
  [.push (.reg .ecx),
   .push (.reg .edx),
   .push (.imm UserImage.SYSENTER_RETURN),
   .push (.reg .ebp),
   .mov (.reg .esp) (.reg .ebp)]

def sysenterReturn : List Instr :=
  [.pop .ebp,
   .pop .edx,
   .pop .edx,
   .pop .ecx,
   .ret]

/-- From `sysexit` on, if it leads where the wrapper left. -/
def Wrapper.back (w : Wrapper) (cpu : Cpu) : Cpu :=
  if cpu.eip = UserImage.SYSENTER_RETURN then
    let cpu := cpu.exec sysenterReturn
    if cpu.eip = UserImage.afterCall w then w.leave cpu else cpu
  else cpu

section

variable [Image]

def Wrapper.atSysenter (w : Wrapper) (s : State) : State :=
  { s with cpu := (s.cpu.exec w.enter).exec syscallSysenter }

/-- What `system_call_handler` does when the service returns to it. -/
def State.serviceReturn (s : State) : State :=
  if s.cpu.eip = Image.systemCallRet then s.sysenterFin s.cpu.eax else s

/-- A call of the wrapper, over any services: each is followed from its first
instruction to its return. -/
def Wrapper.call (w : Wrapper) (services : Service → State → State) (s : State) : State :=
  match (w.atSysenter s).systemCallPushed with
  | .user after => { after with cpu := w.back after.cpu }
  | .service name entered =>
      let s := (services name entered).serviceReturn
      { s with cpu := w.back s.cpu }
  | .outside _ entered => entered
  | .fault => w.atSysenter s

end

end

end Zeos
