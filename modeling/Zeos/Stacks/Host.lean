import Zeos.Library.Processors
import Zeos.Stacks.ForkReturn
import Zeos.Stacks.Handlers
import Zeos.Syscall.Dispatch
import Zeos.Time.Attribution

/-!
# The kernel and the registers of its processes

Runs in which the ways into the kernel and out of it are followed word by word. C
functions are followed from call to return: what they leave in the processor is part
of the step, and they obey, if the switches they wait for came back to them.
-/

namespace Zeos

open Library Library.X86

/-- How a system call shows in the registers: `sysexit` needs ECX and EDX for itself,
and the stack pointer is passed in EBP. -/
def sysenterConvention : Convention (Reg → DWord) DWord (DWord × DWord) where
  called regs eip
    | .ecx => regs .ebp
    | .edx => eip
    | .esp => regs .ebp
    | .eip => eip
    | .cs => USER_CS
    | .ss => USER_DS
    | reg => regs reg
  answered regs answer := Function.update (Function.update regs .eax answer.1) .eflags answer.2
  forChild answer := answer.1 = 0

structure Host where
  state : State
  mode : Task → Mode

inductive Move where
  /-- The process runs in user mode, up to these registers. -/
  | compute (cpu : Cpu)
  /-- An interrupt in user mode, up to the routine; `user_to_system` returns. -/
  | interrupt (handler : Handler) (returned : Cpu)
  | sysenter
  /-- What a service or a routine does. -/
  | work (op : Op)
  /-- The service or the routine returns, and in a handler then `system_to_user`. -/
  | leave (returned charged : Cpu)

section

variable [Image]

/-- At the first instruction of `ret_from_fork`, with nothing of the kernel's on the
stack but the frame of `system_call_handler`. -/
def State.Starts (s : State) : Prop :=
  s.cpu.eip = Image.retFromFork ∧ s.cpu.esp = taskAddr s.current (PAGE_SIZE - 68)

/-- Below the frame of the handler, which is as it was. -/
def CallSite.Below {below above : Nat} (site : CallSite below above) (s : State) : Prop :=
  site.depth + 72 ≤ PAGE_SIZE ∧
    SameStack s.current (PAGE_SIZE - 68) site.cpu.mem s.cpu.mem

/-- `system_call_handler` calls `sys_fork` itself; the others are deeper. -/
def Op.Below (s : State) : Op → Prop
  | .fork site => site.depth = PAGE_SIZE - 72 ∧ site.Below s
  | .exit site | .yield site | .block site _ | .unblock site _ | .tick site => site.Below s
  | .charge _ | .touch _ => True

/-- The C functions below the handler have returned to it, one after the other. -/
structure Unwinds (s : State) (returned : Cpu) : Prop where
  eip : returned.eip = s.cpu.mem (taskAddr s.current (PAGE_SIZE - 68))
  esp : returned.esp = taskAddr s.current (PAGE_SIZE - 64)
  kernel : level returned.cs = 0
  own : SameStack s.current (PAGE_SIZE - 64) returned.mem s.cpu.mem

def SparesOthers (s : State) (cpu : Cpu) : Prop :=
  ∀ t ≠ s.current, SameStack t 0 cpu.mem s.cpu.mem

/-- Back at the handler. A child has only `ret_from_fork` to return from; otherwise
functions return if the last switch returned to them. -/
def State.Returns (s : State) (returned : Cpu) : Prop :=
  SparesOthers s returned ∧
    (s.Starts → returned = s.cpu.exec retFromFork) ∧
    (SwitchesReturn s → ¬ s.Starts → Unwinds s returned)

end

section

variable [Image] [HandlerImage]

def handlerAt (eip : DWord) : Option Handler :=
  if eip = HandlerImage.routineRet .clock then some .clock
  else if eip = HandlerImage.routineRet .keyboard then some .keyboard
  else none

namespace Host

variable (host : Host)

def current : Task := host.state.current

def turn (mode : Mode) (state : State) : Host :=
  { state := state, mode := Function.update host.mode host.current mode }

def born (child : Option Task) : Host :=
  match child with
  | some child => { host with mode := Function.update host.mode child .inCall }
  | none => host

def interrupted (handler : Handler) : State :=
  State.enterHandler { host.state with
    cpu := host.state.cpu.deliver KERNEL_CS (HandlerImage.handler handler) KERNEL_DS
      host.state.esp0 } handler

def interrupt (handler : Handler) (returned : Cpu) : Host :=
  let s := { host.interrupted handler with cpu := returned }
  host.turn .inInterrupt ((s.updateStats s.current .userTicks).serveHandler handler)

/-- The handler, from the return of its routine on. -/
def interruptReturn (handler : Handler) (returned charged : Cpu) : Host :=
  let s := State.chargeHandler { host.state with cpu := returned } handler
  let s := { s with cpu := charged }
  host.turn .user (s.updateStats s.current .systemTicks).leaveHandler

/-- `system_call_handler`, up to the first instruction of the service. -/
def enterCall : Outcome → Host
  | .user after => { host with state := after }
  | .service name entered =>
      host.turn .inCall
        { entered with cpu := { entered.cpu with eip := HandlerImage.service name } }
  | .outside _ entered => { host with state := entered }
  | .fault => host

def leave (returned charged : Cpu) : Host :=
  if returned.eip = Image.systemCallRet then
    host.turn .user (State.sysenterFin { host.state with cpu := returned } returned.eax)
  else
    match handlerAt returned.eip with
    | some handler => host.interruptReturn handler returned charged
    | none => { host with state := { host.state with cpu := returned } }

def next (policy : Policy) : Move → Host
  | .compute cpu => { host with state := { host.state with cpu := cpu } }
  | .interrupt handler returned => host.interrupt handler returned
  | .sysenter => host.enterCall host.state.systemCallHandler
  | .work op =>
      { host with state := host.state.step policy op }.born (host.state.forked op)
  | .leave returned charged => host.leave returned charged

/-- Where the code that does it can be. Idle keeps nothing in registers, and its
entries are not followed. -/
def Works : Op → Prop
  | .touch _ => True
  | op =>
      (host.current = host.state.idleTask ∧ Mode.inInterrupt.does op) ∨
        (host.current ≠ host.state.idleTask ∧ (host.mode host.current).does op ∧
          op.Below host.state ∧ ¬ host.state.Starts)

/-- Not every run of the machine. User code is to leave the stacks of the kernel alone, though
`set_ss_pag` opens them to every child; a process that runs alone yields only if it finds its
own frame; and no call goes through the word after the table or with an EBP the kernel
cannot read above. -/
def Enabled : Move → Prop
  | .compute cpu =>
      host.mode host.current = .user ∧ level cpu.cs ≠ 0 ∧
        ∀ t, SameStack t 0 cpu.mem host.state.cpu.mem
  | .interrupt handler returned =>
      host.mode host.current = .user ∧ CReturns 17 (host.interrupted handler).cpu returned ∧
        SparesOthers (host.interrupted handler) returned
  | .sysenter =>
      host.mode host.current = .user ∧ host.state.cpu.eax ≠ MAX_SYSCALL ∧
        host.state.Readable (host.state.cpu.ebp + 4)
  | .work op => host.Works op ∧ host.state.Enabled op ∧ KeepsOwnFrame host.state op
  | .leave returned charged =>
      host.current ≠ host.state.idleTask ∧ host.mode host.current ≠ .user ∧
        host.state.Returns returned ∧ ∀ handler, handlerAt returned.eip = some handler →
          CReturns 17 (returned.exec (handlerCharge handler)) charged ∧
            SparesOthers { host.state with cpu := returned.exec (handlerCharge handler) } charged

/-- `return_gate` has entered user mode for the first process. -/
def boot (memory : State) (first : Cpu) : Host where
  state := { memory.boot with cpu := first }
  mode t := if t = memory.boot.idleTask then .idling else .user

end Host

/-- Runs under round robin, from when the first process is at `first`. -/
def sharing (memory : State) (first : Cpu) : System Host Move where
  initial host := host = .boot memory first
  enabled := Host.Enabled
  next host move := host.next .rr move

abbrev Processor := Processors Task (Reg → DWord)

abbrev ProcessorStep := ProcessorEvent Task (Reg → DWord) DWord (DWord × DWord)

namespace Host

variable (host : Host)

/-- The running process is answered, with what is now in EAX and EFLAGS. -/
def answer (after : Host) : ProcessorStep :=
  .answer host.current (after.state.cpu.eax, after.state.cpu.eflags)

/-- An interrupt is nothing to a process, and nor is what the kernel does for it. -/
def tells (policy : Policy) : Move → List ProcessorStep
  | .compute cpu => [.compute host.current cpu.get]
  | .interrupt _ _ => []
  | .sysenter =>
      .call host.current (returnWord host.state.sysenter.cpu) ::
        match host.state.systemCallHandler with
        | .user after => [host.answer { host with state := after }]
        | _ => []
  | .work (.exit _) => [.exit host.current]
  | .work op => (host.state.forked op).toList.map (.fork host.current)
  | .leave returned charged =>
      if host.mode host.current = .inCall then
        [host.answer (host.next policy (.leave returned charged))]
      else []

end Host

def firstProcessor (memory : State) (first : Cpu) : Processor where
  alive t := t = memory.boot.current
  activity _ := .computing
  regs _ := first.get

end

end Zeos
