import Zeos.Library.Privilege
import Zeos.Kernel.Entry

/-!
# The interrupt handlers of `entry.S`

`clock_handler` and `keyboard_handler` differ in the routine they call. The C
functions they call, `user_to_system`, the routine and `system_to_user`, are given
from their first instruction to their return.
-/

namespace Zeos

open Library Library.X86

inductive Handler where
  | clock | keyboard
  deriving DecidableEq

/-- Where the linker puts the handlers, what they call, and the return addresses of
their calls. -/
class HandlerImage [Image] where
  /-- `clock_handler` and `keyboard_handler`. -/
  handler : Handler → DWord
  systemCallHandler : DWord
  /-- `clock_routine` and `keyboard_routine`. -/
  routine : Handler → DWord
  /-- The functions of `sys_call_table`. -/
  service : Service → DWord
  userToSystemRet : Handler → DWord
  routineRet : Handler → DWord
  systemToUserRet : Handler → DWord
  routine_apart : ∀ handler, routine handler ≠ Image.retFromFork
  service_apart : ∀ name, service name ≠ Image.retFromFork
  ret_apart : ∀ handler, routineRet handler ≠ Image.systemCallRet

/-- `movb $0x20, %al; outb %al, $0x20`. -/
def EOI (cpu : Cpu) : Cpu := { cpu with eax := cpu.eax &&& 0xFFFFFF00 ||| 0x20 }

section

variable [Image] [HandlerImage]

/-- Up to the first instruction of `user_to_system`. -/
def handlerEnter (handler : Handler) : List Instr :=
  SAVE_ALL ++
  [.push (.reg .eax),
   .push (.imm (HandlerImage.userToSystemRet handler))]

/-- From the return of `user_to_system` to the first instruction of the routine. -/
def handlerServe (handler : Handler) (cpu : Cpu) : Cpu :=
  let cpu := EOI (cpu.exec [.pop .eax])
  { cpu.exec [.push (.imm (HandlerImage.routineRet handler))] with
    eip := HandlerImage.routine handler }

/-- From the return of the routine to the first instruction of `system_to_user`. -/
def handlerCharge (handler : Handler) : List Instr :=
  [.push (.reg .eax),
   .push (.imm (HandlerImage.systemToUserRet handler))]

/-- From the return of `system_to_user` on. -/
def handlerLeave (cpu : Cpu) : Cpu := (cpu.exec ([.pop .eax] ++ RESTORE_ALL)).iret

namespace State

def enterHandler (s : State) (handler : Handler) : State :=
  { s with cpu := s.cpu.exec (handlerEnter handler) }

def serveHandler (s : State) (handler : Handler) : State :=
  { s with cpu := handlerServe handler s.cpu }

def chargeHandler (s : State) (handler : Handler) : State :=
  { s with cpu := s.cpu.exec (handlerCharge handler) }

def leaveHandler (s : State) : State := { s with cpu := handlerLeave s.cpu }

end State

/-- The handler, from its first instruction to the return from the interrupt. -/
def interruptHandler (handler : Handler) (userToSystem routine systemToUser : State → State)
    (s : State) : State :=
  let s := userToSystem (s.enterHandler handler)
  let s := routine (s.serveHandler handler)
  let s := systemToUser (s.chargeHandler handler)
  s.leaveHandler

def clockHandler : (State → State) → (State → State) → (State → State) → State → State :=
  interruptHandler .clock

def keyboardHandler : (State → State) → (State → State) → (State → State) → State → State :=
  interruptHandler .keyboard

end

end Zeos
