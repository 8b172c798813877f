import Zeos.Kernel.Interrupt
import Zeos.Kernel.System
import Zeos.Syscall.SaveArea

/-!
# Through an interrupt handler

An interrupt can come between any two instructions of a process, or of the loop of
idle, so the handlers save and bring back every register. From user mode the
processor has pushed a stack pointer too; from the loop of idle it has not.
-/

namespace Zeos

open Library Library.X86

/-- What the processor and `SAVE_ALL` save. -/
def interruptArea (cpu : Cpu) : SaveArea where
  ebx := cpu.ebx
  ecx := cpu.ecx
  edx := cpu.edx
  esi := cpu.esi
  edi := cpu.edi
  ebp := cpu.ebp
  eax := cpu.eax
  ds := cpu.ds
  es := cpu.es
  fs := cpu.fs
  gs := cpu.gs
  eip := cpu.eip
  cs := cpu.cs
  eflags := cpu.eflags
  oldesp := cpu.esp
  oldss := cpu.ss

/-- In memory order; within level 0 no stack pointer is saved. -/
def interruptWords (cpu : Cpu) : List DWord :=
  if level cpu.cs = 0 then (interruptArea cpu).words.take 14 else (interruptArea cpu).words

def onKernelStack (cpu : Cpu) (esp0 : DWord) : Cpu :=
  if level cpu.cs = 0 then cpu else { cpu with ss := KERNEL_DS, esp := esp0 }

theorem exec_SAVE_ALL (cpu : Cpu) (done : List DWord) (rest : List Instr) :
    (cpu.pushAll done).exec (SAVE_ALL ++ rest) =
      Cpu.exec { cpu.pushAll (done ++ [cpu.gs, cpu.fs, cpu.es, cpu.ds, cpu.eax, cpu.ebp, cpu.edi,
          cpu.esi, cpu.edx, cpu.ecx, cpu.ebx]) with
        edx := KERNEL_DS, ds := KERNEL_DS, es := KERNEL_DS } rest := by
  let registers : List Operand := [.reg .gs, .reg .fs, .reg .es, .reg .ds, .reg .eax, .reg .ebp,
    .reg .edi, .reg .esi, .reg .edx, .reg .ecx, .reg .ebx]
  let segments : List Instr := [.mov (.imm KERNEL_DS) (.reg .edx), .mov (.reg .edx) (.reg .ds),
    .mov (.reg .edx) (.reg .es)]
  have listing : SAVE_ALL ++ rest = registers.map .push ++ (segments ++ rest) := rfl
  have pushed := cpu.exec_pushes registers done (segments ++ rest)
    (by simp [registers, Cpu.read, Cpu.get])
  rw [listing, pushed]
  rfl

theorem pushAll_context (cpu : Cpu) (cs eip eflags : DWord) (values : List DWord) :
    Cpu.pushAll { cpu with cs := cs, eip := eip, eflags := eflags } values =
      { cpu.pushAll values with cs := cs, eip := eip, eflags := eflags } := by
  induction values generalizing cpu with
  | nil => rfl
  | cons value rest inductionHypothesis =>
      exact inductionHypothesis { cpu.store (cpu.esp - 4) value with esp := cpu.esp - 4 }

variable {selector entry esp0 : DWord}

theorem exec_deliver (cpu : Cpu) (rest : List Instr) :
    (cpu.deliver selector entry KERNEL_DS esp0).exec (SAVE_ALL ++ rest) =
      Cpu.exec { (onKernelStack cpu esp0).pushAll (interruptWords cpu).reverse with
        cs := selector, eip := entry, eflags := cpu.eflags &&& ~~~GATE_CLEARS
        edx := KERNEL_DS, ds := KERNEL_DS, es := KERNEL_DS } rest := by
  by_cases inner : level cpu.cs = 0
  · have saved := exec_SAVE_ALL
      { cpu with cs := selector, eip := entry, eflags := cpu.eflags &&& ~~~GATE_CLEARS }
      [cpu.eflags, cpu.cs, cpu.eip] rest
    rw [pushAll_context, pushAll_context] at saved
    rw [Cpu.deliver_inner inner, saved, onKernelStack, if_pos inner, interruptWords, if_pos inner]
    rfl
  · have saved := exec_SAVE_ALL
      { cpu with
        ss := KERNEL_DS, esp := esp0
        cs := selector, eip := entry, eflags := cpu.eflags &&& ~~~GATE_CLEARS }
      [cpu.ss, cpu.esp, cpu.eflags, cpu.cs, cpu.eip] rest
    rw [pushAll_context { cpu with ss := KERNEL_DS, esp := esp0 },
      pushAll_context { cpu with ss := KERNEL_DS, esp := esp0 }] at saved
    rw [Cpu.deliver_outer inner, saved, onKernelStack, if_neg inner, interruptWords, if_neg inner]
    rfl

theorem exec_RESTORE_ALL {cpu : Cpu} {area : SaveArea} {above : List DWord}
    (saved : Holds cpu.mem cpu.esp (area.words.take 11 ++ above)) :
    cpu.exec RESTORE_ALL = { cpu with
      ebx := area.ebx, ecx := area.ecx, edx := area.edx, esi := area.esi, edi := area.edi
      ebp := area.ebp, eax := area.eax, ds := area.ds, es := area.es, fs := area.fs
      gs := area.gs, esp := slot cpu.esp 11 } := by
  obtain ⟨ebx, ecx, edx, esi, edi, ebp, eax, ds, es, fs, gs, -⟩ := saved
  have top : slot cpu.esp 11 = cpu.esp + 4 + 4 + 4 + 4 + 4 + 4 + 4 + 4 + 4 + 4 + 4 := by
    simp only [slot, BitVec.add_assoc]
    rfl
  simp only [RESTORE_ALL, Cpu.exec_cons, Cpu.exec_nil, Cpu.step, Cpu.set, top,
    ebx, ecx, edx, esi, edi, ebp, eax, ds, es, fs, gs]

/-- Over what the handler pushed, `iret` brings back every register but those of the
stack, which it brings back if it has changed the stack. -/
theorem handlerLeave_eq {cpu user : Cpu} {eax : DWord} (kernel : level cpu.cs = 0)
    (saved : Holds cpu.mem cpu.esp (eax :: interruptWords user)) :
    handlerLeave cpu = { user with
      esp := if level user.cs = 0 then slot cpu.esp 15 else user.esp
      ss := if level user.cs = 0 then cpu.ss else user.ss
      mem := cpu.mem } := by
  have popped : cpu.exec [.pop .eax] = { cpu with eax := eax, esp := cpu.esp + 4 } := by
    simp only [Cpu.exec_cons, Cpu.exec_nil, Cpu.step, Cpu.set, saved.1]
  have place : ∀ index, slot (cpu.esp + 4) index = slot cpu.esp (index + 1) := slot_succ cpu.esp
  have rest := saved.2
  unfold handlerLeave
  rw [Cpu.exec_append, popped]
  by_cases inner : level user.cs = 0
  · rw [interruptWords, if_pos inner] at rest
    have words : (interruptArea user).words.take 14 = (interruptArea user).words.take 11 ++
      [user.eip, user.cs, user.eflags] := rfl
    rw [words] at rest
    have context := rest.drop 11
    have registers := @exec_RESTORE_ALL { cpu with eax := eax, esp := cpu.esp + 4 } _ _ rest
    rw [registers, if_pos inner, if_pos inner]
    have back := @Cpu.iret_inner { cpu with
        ebx := user.ebx, ecx := user.ecx, edx := user.edx, esi := user.esi, edi := user.edi
        ebp := user.ebp, eax := user.eax, ds := user.ds, es := user.es, fs := user.fs
        gs := user.gs, esp := slot (cpu.esp + 4) 11 } _ _ _ context (inner.trans kernel.symm)
    have top : slot (slot (cpu.esp + 4) 11) 3 = slot cpu.esp 15 := by
      simp only [slot, BitVec.add_assoc]
      rfl
    dsimp only at back
    rw [top] at back
    exact back
  · rw [interruptWords, if_neg inner] at rest
    have words : (interruptArea user).words = (interruptArea user).words.take 11 ++
      [user.eip, user.cs, user.eflags, user.esp, user.ss] := rfl
    rw [words] at rest
    have context := rest.drop 11
    have registers := @exec_RESTORE_ALL { cpu with eax := eax, esp := cpu.esp + 4 } _ _ rest
    have outer : level user.cs ≠ level cpu.cs := by rwa [kernel]
    rw [registers, if_neg inner, if_neg inner]
    exact @Cpu.iret_outer { cpu with
        ebx := user.ebx, ecx := user.ecx, edx := user.edx, esi := user.esi, edi := user.edi
        ebp := user.ebp, eax := user.eax, ds := user.ds, es := user.es, fs := user.fs
        gs := user.gs, esp := slot (cpu.esp + 4) 11 } _ _ _ _ _ context outer

section

variable [Image] [HandlerImage]

variable {cpu : Cpu} {words : List DWord} {eax : DWord}

/-- What the processor and the handler write. -/
def OnHandlerFrame (cpu : Cpu) (esp0 address : DWord) : Prop :=
  ∃ index < 18, address = slot ((onKernelStack cpu esp0).esp - 72) index

/-- At the first instruction of a C function, over what its caller has on the stack. -/
structure CalledOver (cpu : Cpu) (ret : DWord) (words : List DWord) : Prop where
  kernel : level cpu.cs = 0
  found : Holds cpu.mem cpu.esp (ret :: words)

omit [Image] [HandlerImage] in
theorem length_interruptWords (cpu : Cpu) : (interruptWords cpu).length ≤ 16 := by
  unfold interruptWords
  split <;> simp [SaveArea.words]

/-- The handler calls `user_to_system` with all registers saved. -/
theorem enter_spec (handler : Handler) (cpu : Cpu) (esp0 : DWord) (kernel : level selector = 0) :
    CalledOver ((cpu.deliver selector entry KERNEL_DS esp0).exec (handlerEnter handler))
        (HandlerImage.userToSystemRet handler) (cpu.eax :: interruptWords cpu) ∧
      slot ((cpu.deliver selector entry KERNEL_DS esp0).exec (handlerEnter handler)).esp
          ((interruptWords cpu).length + 2) = (onKernelStack cpu esp0).esp ∧
      ((cpu.deliver selector entry KERNEL_DS esp0).exec (handlerEnter handler)).ss =
        (onKernelStack cpu esp0).ss ∧
      ∀ address, ¬ OnHandlerFrame cpu esp0 address →
        ((cpu.deliver selector entry KERNEL_DS esp0).exec (handlerEnter handler)).mem address =
          cpu.mem address := by
  have few := length_interruptWords cpu
  have same : (onKernelStack cpu esp0).eax = cpu.eax ∧ (onKernelStack cpu esp0).mem = cpu.mem := by
    unfold onKernelStack
    split <;> exact ⟨rfl, rfl⟩
  have entered : (cpu.deliver selector entry KERNEL_DS esp0).exec (handlerEnter handler) =
      { (onKernelStack cpu esp0).pushAll ((interruptWords cpu).reverse ++
          [cpu.eax, HandlerImage.userToSystemRet handler]) with
        cs := selector, eip := entry, eflags := cpu.eflags &&& ~~~GATE_CLEARS
        edx := KERNEL_DS, ds := KERNEL_DS, es := KERNEL_DS } := by
    unfold handlerEnter
    rw [exec_deliver, Cpu.pushAll_append, Cpu.pushAll_eq (onKernelStack cpu esp0), same.1]
    rfl
  have empty : Holds (onKernelStack cpu esp0).mem (onKernelStack cpu esp0).esp [] := trivial
  have found := empty.pushAll ((interruptWords cpu).reverse ++
    [cpu.eax, HandlerImage.userToSystemRet handler]) (by simp; omega)
  have top := (onKernelStack cpu esp0).pushAll_esp ((interruptWords cpu).reverse ++
    [cpu.eax, HandlerImage.userToSystemRet handler])
  have others := fun address => @Cpu.pushAll_mem (onKernelStack cpu esp0)
    ((interruptWords cpu).reverse ++ [cpu.eax, HandlerImage.userToSystemRet handler]) address
  have registers := (onKernelStack cpu esp0).pushAll_eq ((interruptWords cpu).reverse ++
    [cpu.eax, HandlerImage.userToSystemRet handler])
  rw [List.reverse_append, List.reverse_reverse, List.append_nil] at found
  rw [List.length_append, List.length_reverse, List.length_cons, List.length_singleton] at top
  rw [entered]
  generalize Cpu.pushAll (onKernelStack cpu esp0) ((interruptWords cpu).reverse ++
    [cpu.eax, HandlerImage.userToSystemRet handler]) = pushed at *
  refine ⟨⟨kernel, found⟩, top, ?_, fun address off => ?_⟩
  · rw [registers]
  · refine (others address fun index bound same => off ?_).trans (congrFun same.2 address)
    rw [List.length_append, List.length_reverse, List.length_cons, List.length_singleton] at bound
    refine ⟨index + (18 - ((interruptWords cpu).length + 2)), by omega, ?_⟩
    rw [same, ← top]
    generalize (interruptWords cpu).length = count at few bound
    simp only [slot]
    bv_omega

/-- Then the routine, in place of the word above the return address. -/
theorem serve_spec (handler : Handler) (kernel : level cpu.cs = 0) (short : words.length ≤ 16)
    (found : Holds cpu.mem cpu.esp (eax :: words)) :
    CalledOver (handlerServe handler cpu) (HandlerImage.routineRet handler) words ∧
      (handlerServe handler cpu).esp = cpu.esp ∧ (handlerServe handler cpu).ss = cpu.ss ∧
      (handlerServe handler cpu).eip = HandlerImage.routine handler ∧
      ∀ address ≠ cpu.esp, (handlerServe handler cpu).mem address = cpu.mem address := by
  have back : cpu.esp + 4 - 4 = cpu.esp := BitVec.add_sub_cancel _ _
  have result : handlerServe handler cpu = { EOI (cpu.exec [.pop .eax]) with
      eip := HandlerImage.routine handler, esp := cpu.esp
      mem := Function.update cpu.mem cpu.esp (HandlerImage.routineRet handler) } := by
    simp only [handlerServe, EOI, Cpu.exec_cons, Cpu.exec_nil, Cpu.step, Cpu.set, Cpu.store, Cpu.read,
      back]
  have stored := found.set (by rw [List.length_cons]; omega) 0 (by decide)
    (HandlerImage.routineRet handler)
  rw [slot_zero] at stored
  rw [result]
  exact ⟨⟨kernel, stored⟩, rfl, rfl, rfl, fun address apart => Function.update_of_ne apart ..⟩

theorem charge_spec (handler : Handler) (kernel : level cpu.cs = 0) (short : words.length ≤ 16)
    (found : Holds cpu.mem cpu.esp words) :
    CalledOver (cpu.exec (handlerCharge handler)) (HandlerImage.systemToUserRet handler)
        (cpu.eax :: words) ∧
      slot (cpu.exec (handlerCharge handler)).esp 2 = cpu.esp ∧
      (cpu.exec (handlerCharge handler)).ss = cpu.ss ∧
      ∀ address, (∀ index < 2, address ≠ slot (cpu.exec (handlerCharge handler)).esp index) →
        (cpu.exec (handlerCharge handler)).mem address = cpu.mem address := by
  have result : cpu.exec (handlerCharge handler) =
    cpu.pushAll [cpu.eax, HandlerImage.systemToUserRet handler] := rfl
  have pushed := found.pushAll [cpu.eax, HandlerImage.systemToUserRet handler] (by simp; omega)
  have top := cpu.pushAll_esp [cpu.eax, HandlerImage.systemToUserRet handler]
  have others := fun address =>
    @Cpu.pushAll_mem cpu [cpu.eax, HandlerImage.systemToUserRet handler] address
  have registers := cpu.pushAll_eq [cpu.eax, HandlerImage.systemToUserRet handler]
  rw [result]
  generalize cpu.pushAll [cpu.eax, HandlerImage.systemToUserRet handler] = after at *
  refine ⟨⟨?_, pushed⟩, top, ?_, others⟩
  · rw [registers]
    exact kernel
  · rw [registers]

/-- A C function has returned to its caller, with `kept` words of its caller's stack as
they were. -/
structure CReturns (kept : Nat) (called returned : Cpu) : Prop where
  eip : returned.eip = called.mem called.esp
  esp : returned.esp = called.esp + 4
  cs : returned.cs = called.cs
  ss : returned.ss = called.ss
  stack : ∀ index < kept, returned.mem (slot (called.esp + 4) index) =
    called.mem (slot (called.esp + 4) index)

omit [Image] [HandlerImage] in
theorem CReturns.ret (kept : Nat) (cpu : Cpu) : CReturns kept cpu (cpu.exec [.pop .eip]) :=
  ⟨rfl, rfl, rfl, rfl, fun _ _ => rfl⟩

omit [Image] [HandlerImage] in
theorem CReturns.over {kept : Nat} {returned : Cpu} {ret : DWord}
    (returns : CReturns kept cpu returned) (called : CalledOver cpu ret words)
    (few : words.length ≤ kept) : level returned.cs = 0 ∧ Holds returned.mem returned.esp words := by
  rw [returns.cs, returns.esp]
  exact ⟨called.kernel, called.found.2.congr fun index bound =>
    returns.stack index (Nat.lt_of_lt_of_le bound few)⟩

/-- After the interrupt: every register is as it was, and so is memory, but for the
frame of the handler and what the functions it calls write. -/
structure Transparent (s after : State) (kept : DWord → Prop) : Prop where
  registers : after.cpu = { s.cpu with mem := after.cpu.mem }
  memory : ∀ address, ¬ OnHandlerFrame s.cpu s.esp0 address → kept address →
    after.cpu.mem address = s.cpu.mem address

def Keeps (routine : State → State) (s : State) (address : DWord) : Prop :=
  (routine s).cpu.mem address = s.cpu.mem address

omit [Image] [HandlerImage] in
theorem slot_slot (address : DWord) (first second : Nat) :
    slot (slot address first) second = slot address (first + second) := by
  rw [slot, slot, slot, BitVec.add_assoc, ← BitVec.ofNat_add, Nat.mul_add]

omit [Image] [HandlerImage] in
theorem onHandlerFrame_of_slot {esp0 esp : DWord} {count index : Nat} (few : count ≤ 18)
    (top : slot esp count = (onKernelStack cpu esp0).esp) (bound : index < count) :
    OnHandlerFrame cpu esp0 (slot esp index) := by
  refine ⟨index + (18 - count), by omega, ?_⟩
  rw [← top]
  simp only [slot]
  bv_omega

/-- An interrupt at any point of a process, or of the loop of idle, leaves no trace in
it, if the C functions that the handler calls return. -/
theorem interrupt_transparent (handler : Handler) (s : State) (kernel : level selector = 0)
    (userToSystem routine systemToUser : State → State) {entered served charged : State}
    (enters : entered = State.enterHandler
      { s with cpu := s.cpu.deliver selector entry KERNEL_DS s.esp0 } handler)
    (serves : served = (userToSystem entered).serveHandler handler)
    (charges : charged = (routine served).chargeHandler handler)
    (first : CReturns 17 entered.cpu (userToSystem entered).cpu)
    (second : CReturns 16 served.cpu (routine served).cpu)
    (third : CReturns 17 charged.cpu (systemToUser charged).cpu) :
    Transparent s (interruptHandler handler userToSystem routine systemToUser
        { s with cpu := s.cpu.deliver selector entry KERNEL_DS s.esp0 }) fun address =>
      Keeps userToSystem entered address ∧ Keeps routine served address ∧
        Keeps systemToUser charged address := by
  have few := length_interruptWords s.cpu
  have result : interruptHandler handler userToSystem routine systemToUser
      { s with cpu := s.cpu.deliver selector entry KERNEL_DS s.esp0 } =
        (systemToUser charged).leaveHandler := by
    rw [charges, serves, enters]
    rfl
  have goesIn := @enter_spec selector entry _ _ handler s.cpu s.esp0 kernel
  have start : (s.cpu.deliver selector entry KERNEL_DS s.esp0).exec (handlerEnter handler) =
      entered.cpu := by rw [enters]; rfl
  rw [start] at goesIn
  obtain ⟨calledFirst, firstTop, firstSs, firstMem⟩ := goesIn
  obtain ⟨level1, found1⟩ := first.over calledFirst (by rw [List.length_cons]; omega)
  obtain ⟨calledSecond, secondEsp, secondSs, _, secondMem⟩ :=
    serve_spec handler level1 few found1
  have serve : handlerServe handler (userToSystem entered).cpu = served.cpu := by rw [serves]; rfl
  rw [serve] at calledSecond secondEsp secondSs secondMem
  obtain ⟨level2, found2⟩ := second.over calledSecond few
  obtain ⟨calledThird, thirdTop, thirdSs, thirdMem⟩ :=
    charge_spec handler level2 few found2
  have charge : (routine served).cpu.exec (handlerCharge handler) = charged.cpu := by
    rw [charges]
    rfl
  rw [charge] at calledThird thirdTop thirdSs thirdMem
  obtain ⟨level3, found3⟩ := third.over calledThird (by rw [List.length_cons]; omega)
  -- The stack pointer is followed down and up again.
  have servedTop : slot served.cpu.esp ((interruptWords s.cpu).length + 1) =
      (onKernelStack s.cpu s.esp0).esp := by
    rw [secondEsp, first.esp, slot_succ]
    exact firstTop
  have chargedTop : slot charged.cpu.esp ((interruptWords s.cpu).length + 2) =
      (onKernelStack s.cpu s.esp0).esp := by
    rw [Nat.add_comm, ← slot_slot, thirdTop, second.esp, slot_succ]
    exact servedTop
  have leftTop : slot (systemToUser charged).cpu.esp ((interruptWords s.cpu).length + 1) =
      (onKernelStack s.cpu s.esp0).esp := by
    rw [third.esp, slot_succ]
    exact chargedTop
  have ss : (systemToUser charged).cpu.ss = (onKernelStack s.cpu s.esp0).ss := by
    rw [third.ss, thirdSs, second.ss, secondSs, first.ss, firstSs]
  have left := handlerLeave_eq level3 found3
  have last : (interruptHandler handler userToSystem routine systemToUser
      { s with cpu := s.cpu.deliver selector entry KERNEL_DS s.esp0 }).cpu =
        handlerLeave (systemToUser charged).cpu := by rw [result]; rfl
  constructor
  · rw [last, left]
    by_cases inner : level s.cpu.cs = 0
    · rw [interruptWords, if_pos inner, onKernelStack, if_pos inner] at leftTop
      rw [onKernelStack, if_pos inner] at ss
      rw [if_pos inner, if_pos inner, ss]
      have esp : slot (systemToUser charged).cpu.esp 15 = s.cpu.esp := leftTop
      rw [esp]
    · rw [if_neg inner, if_neg inner]
  · rintro address off ⟨keepsFirst, keepsSecond, keepsThird⟩
    rw [last, left]
    refine keepsThird.trans ((thirdMem address ?_).trans (keepsSecond.trans
      ((secondMem address ?_).trans (keepsFirst.trans (firstMem address off)))))
    · rintro index bound rfl
      exact off (onHandlerFrame_of_slot (by omega) chargedTop (by omega))
    · rintro rfl
      have place : (userToSystem entered).cpu.esp = slot entered.cpu.esp 1 := first.esp
      rw [place] at off
      exact off (onHandlerFrame_of_slot (by omega) firstTop (by omega))

end

abbrev HandlerImage.sample : @HandlerImage Image.sample :=
  @HandlerImage.mk Image.sample
    (fun handler => if handler = .clock then 0x10600 else 0x10700)
    0x10800
    (fun handler => if handler = .clock then 0x10900 else 0x10A00)
    (fun _ => 0x10B00)
    (fun handler => if handler = .clock then 0x10608 else 0x10708)
    (fun handler => if handler = .clock then 0x10610 else 0x10710)
    (fun handler => if handler = .clock then 0x10618 else 0x10718)
    (fun handler => by cases handler <;> decide)
    (fun _ => by decide)
    (fun handler => by cases handler <;> decide)

/-- A function that returns and leaves zeros in the registers that its caller is to save. -/
def clobbers (s : State) : State :=
  { s with cpu := { s.cpu.exec [.pop .eip] with eax := 0, ecx := 0, edx := 0 } }

theorem clobbers_returns (kept : Nat) (s : State) : CReturns kept s.cpu (clobbers s).cpu :=
  ⟨rfl, rfl, rfl, rfl, fun _ _ => rfl⟩

/-- A process in user mode, with something of its own in every register. -/
def computing : State :=
  { sampleBoot with
    cpu := { sampleBoot.cpu with
      eax := 0x10, ebx := 0x11, ecx := 0x12, edx := 0x13, esi := 0x14, edi := 0x15, ebp := 0x11BF80
      esp := 0x11BF00, eip := 0x100010, eflags := 0x202
      cs := USER_CS, ss := USER_DS, ds := USER_DS, es := USER_DS, fs := USER_DS, gs := USER_DS } }

def clockInterrupted : State :=
  @clockHandler Image.sample HandlerImage.sample clobbers clobbers clobbers
    { computing with
      cpu := computing.cpu.deliver KERNEL_CS 0x10600 KERNEL_DS computing.esp0 }

theorem interrupt_transparent_computing :
    clockInterrupted.cpu = { computing.cpu with mem := clockInterrupted.cpu.mem } :=
  (@interrupt_transparent KERNEL_CS 0x10600 Image.sample HandlerImage.sample .clock computing
    (by decide) clobbers clobbers clobbers _ _ _ rfl rfl rfl (clobbers_returns 17 _)
    (clobbers_returns 16 _) (clobbers_returns 17 _)).registers

end Zeos
