import Zeos.Schedule.Quiet

/-!
# `task_switch` on the stacks

The two frames `task_switch` and `inner_task_switch` leave on the stack of the
running task, and how the processor leaves `switch_stack` on another one.
-/

namespace Zeos

open Library Library.X86

section

variable [Image]

/-- What is pushed from the first instruction of `task_switch` to that of
`switch_stack`. -/
def switchFrames (entry : Cpu) (argument newSp saveSp : DWord) : List DWord :=
  [entry.ebp, entry.esi, entry.edi, entry.ebx, argument, Image.innerTaskSwitchRet,
    entry.esp - 4, newSp, saveSp, Image.switchStackRet]

omit [Image] in
theorem pushAll_ebp (cpu : Cpu) (ebp : DWord) (values : List DWord) :
    Cpu.pushAll { cpu with ebp := ebp } values = { cpu.pushAll values with ebp := ebp } := by
  induction values generalizing cpu with
  | nil => rfl
  | cons value rest inductionHypothesis =>
      exact inductionHypothesis { cpu.store (cpu.esp - 4) value with esp := cpu.esp - 4 }

theorem exec_taskSwitchEnter (cpu : Cpu) : ∃ argument, cpu.exec taskSwitchEnter =
    { cpu.pushAll [cpu.ebp, cpu.esi, cpu.edi, cpu.ebx, argument, Image.innerTaskSwitchRet] with
      ebp := cpu.esp - 4 } := by
  let registers : List Operand := [.reg .esi, .reg .edi, .reg .ebx]
  let rest : List Instr := [.push (.mem 8 .ebp), .push (.imm Image.innerTaskSwitchRet)]
  have listing : taskSwitchEnter = .push (.reg .ebp) :: .mov (.reg .esp) (.reg .ebp) ::
    (registers.map .push ++ rest) := rfl
  have framed : (cpu.step (.push (.reg .ebp))).step (.mov (.reg .esp) (.reg .ebp)) =
    Cpu.pushAll { cpu.pushAll [cpu.ebp] with ebp := cpu.esp - 4 } [] := rfl
  have pushed := Cpu.exec_pushes { cpu.pushAll [cpu.ebp] with ebp := cpu.esp - 4 } registers [] rest
    (by simp [registers, Cpu.read, Cpu.get])
  rw [Cpu.exec_push] at pushed
  generalize (Cpu.pushAll { cpu.pushAll [cpu.ebp] with ebp := cpu.esp - 4 } _).read
    (.mem 8 .ebp) = argument at pushed
  rw [Cpu.exec_push, Cpu.exec_nil, pushAll_ebp, ← Cpu.pushAll_append] at pushed
  refine ⟨argument, ?_⟩
  rw [listing, Cpu.exec_cons, Cpu.exec_cons, framed]
  exact pushed

theorem exec_switchStackCall (cpu : Cpu) (saveSp newSp : DWord) :
    cpu.exec (switchStackCall saveSp newSp) =
      { cpu.pushAll [cpu.ebp, newSp, saveSp, Image.switchStackRet] with ebp := cpu.esp - 4 } := by
  have framed : (cpu.step (.push (.reg .ebp))).step (.mov (.reg .esp) (.reg .ebp)) =
    Cpu.pushAll { cpu.pushAll [cpu.ebp] with ebp := cpu.esp - 4 } [] := rfl
  have pushed := Cpu.exec_pushes { cpu.pushAll [cpu.ebp] with ebp := cpu.esp - 4 }
    [.imm newSp, .imm saveSp, .imm Image.switchStackRet] [] [] (by simp [Cpu.read])
  rw [pushAll_ebp _ _ (_ ++ _), ← Cpu.pushAll_append] at pushed
  rw [switchStackCall, Cpu.exec_cons, Cpu.exec_cons, framed]
  exact pushed

/-- `switch_stack` from its second move on, with `sp` as the new stack pointer. -/
def landing (cpu : Cpu) (sp : DWord) : Cpu :=
  { cpu with ebp := cpu.mem sp, eip := cpu.mem (sp + 4), esp := sp + 4 + 4 }

/-- The rest of `task_switch`, where that is where the processor landed. -/
def leaveSwitch (cpu : Cpu) : Cpu :=
  if cpu.eip = Image.innerTaskSwitchRet then cpu.exec taskSwitchLeave else cpu

theorem switchReturn_cpu (s : State) : s.switchReturn = { s with cpu := leaveSwitch s.cpu } := by
  unfold State.switchReturn leaveSwitch
  split <;> rfl

omit [Image] in
theorem exec_taskSwitchLeave (cpu : Cpu) : cpu.exec taskSwitchLeave =
    { cpu with
      ebx := cpu.mem (cpu.esp + 4), edi := cpu.mem (cpu.esp + 4 + 4)
      esi := cpu.mem (cpu.esp + 4 + 4 + 4), ebp := cpu.mem (cpu.esp + 4 + 4 + 4 + 4)
      eip := cpu.mem (cpu.esp + 4 + 4 + 4 + 4 + 4), esp := cpu.esp + 4 + 4 + 4 + 4 + 4 + 4 } := by
  simp only [taskSwitchLeave, Cpu.exec_cons, Cpu.exec_nil, Cpu.step, Cpu.set, Cpu.get]

theorem leaveSwitch_landing_esp (cpu : Cpu) (sp : DWord) :
    (leaveSwitch (landing cpu sp)).esp =
      if cpu.mem (sp + 4) = Image.innerTaskSwitchRet then sp + 32 else sp + 8 := by
  have eip : (landing cpu sp).eip = cpu.mem (sp + 4) := rfl
  unfold leaveSwitch
  rw [eip]
  split
  · rw [exec_taskSwitchLeave]
    simp only [landing, BitVec.add_assoc]
    rfl
  · simp only [landing, BitVec.add_assoc]
    rfl

theorem leaveSwitch_landing_mem (cpu : Cpu) (sp : DWord) :
    (leaveSwitch (landing cpu sp)).mem = cpu.mem := by
  unfold leaveSwitch
  split
  · rw [exec_taskSwitchLeave]
    rfl
  · rfl

theorem leaveSwitch_frames {cpu : Cpu} {sp base argument ebx edi esi ebp eip : DWord}
    (frames : Holds cpu.mem sp
      [base, Image.innerTaskSwitchRet, argument, ebx, edi, esi, ebp, eip]) :
    leaveSwitch (landing cpu sp) =
      { cpu with ebx := ebx, edi := edi, esi := esi, ebp := ebp, eip := eip, esp := sp + 32 } := by
  obtain ⟨_, ret, _, ebxWord, ediWord, esiWord, ebpWord, eipWord, -⟩ := frames
  have lands : (landing cpu sp).eip = Image.innerTaskSwitchRet := ret
  have top : sp + 4 + 4 + 4 + 4 + 4 + 4 + 4 + 4 = sp + 32 := by
    simp only [BitVec.add_assoc]
    rfl
  rw [leaveSwitch, if_pos lands, exec_taskSwitchLeave]
  simp only [landing, ebxWord, ediWord, esiWord, ebpWord, eipWord, top]

theorem leaveSwitch_built {cpu : Cpu} {sp ebp eip : DWord} (frame : Holds cpu.mem sp [ebp, eip])
    (apart : eip ≠ Image.innerTaskSwitchRet) :
    leaveSwitch (landing cpu sp) = { cpu with ebp := ebp, eip := eip, esp := sp + 8 } := by
  obtain ⟨ebpWord, eipWord, -⟩ := frame
  have lands : (landing cpu sp).eip ≠ Image.innerTaskSwitchRet := by
    show cpu.mem (sp + 4) ≠ _
    rwa [eipWord]
  have top : sp + 4 + 4 = sp + 8 := by
    simp only [BitVec.add_assoc]
    rfl
  rw [leaveSwitch, if_neg lands]
  simp only [landing, ebpWord, eipWord, top]

omit [Image] in
theorem switchStack_eq {s : State} {pushed : Cpu} {ebp saveSp newSp : DWord} (owner : Task)
    (cpu : s.cpu = { pushed with ebp := ebp }) (saveWord : pushed.mem (pushed.esp + 4) = saveSp)
    (newWord : pushed.mem (pushed.esp + 4 + 4) = newSp) : s.switchStack owner =
      { s.setTask owner fun t => { t with registerEsp := ebp } with
        cpu := landing { pushed with eax := saveSp } newSp } := by
  have third : pushed.esp + 8 = pushed.esp + 4 + 4 := by
    rw [BitVec.add_assoc]
    rfl
  have first : Cpu.exec { pushed with ebp := ebp } [.mov (.mem 4 .esp) (.reg .eax)] =
      { pushed with eax := saveSp, ebp := ebp } := by
    simp only [Cpu.exec_cons, Cpu.exec_nil, Cpu.step, Cpu.write, Cpu.read, Cpu.get, Cpu.set, saveWord]
  have second : Cpu.exec { pushed with eax := saveSp, ebp := ebp }
      [.mov (.mem 8 .esp) (.reg .esp), .pop .ebp, .ret] =
        landing { pushed with eax := saveSp } newSp := by
    simp only [Cpu.exec_cons, Cpu.exec_nil, Cpu.step, Cpu.write, Cpu.read, Cpu.get, Cpu.set, landing,
      third, newWord]
  simp only [State.switchStack, State.setTask, cpu, first, second]

def switchPushed (s : State) (new : Task) (argument : DWord) : Cpu :=
  (s.switchEntry new).pushAll (switchFrames (s.switchEntry new) argument
    (s.task new).registerEsp (taskAddr s.current 16))

theorem switchPushed_holds (s : State) (new : Task) (argument : DWord) :
    Holds (switchPushed s new argument).mem (switchPushed s new argument).esp
      [Image.switchStackRet, taskAddr s.current 16, (s.task new).registerEsp,
        (s.switchEntry new).esp - 4, Image.innerTaskSwitchRet, argument, (s.switchEntry new).ebx,
        (s.switchEntry new).edi, (s.switchEntry new).esi, (s.switchEntry new).ebp] := by
  have empty : Holds (s.switchEntry new).mem (s.switchEntry new).esp [] := trivial
  exact empty.pushAll (switchFrames (s.switchEntry new) argument
    (s.task new).registerEsp (taskAddr s.current 16)) (by simp [switchFrames])

/-- Both frames, and the call of `switch_stack`. -/
theorem exec_switch (s : State) (new : Task) : ∃ argument,
    ((s.switchEntry new).exec taskSwitchEnter).exec
        (switchStackCall (taskAddr s.current 16) (s.task new).registerEsp) =
      { switchPushed s new argument with ebp := (s.switchEntry new).esp - 28 } := by
  obtain ⟨argument, entered⟩ := exec_taskSwitchEnter (s.switchEntry new)
  refine ⟨argument, ?_⟩
  unfold switchPushed switchFrames
  generalize s.switchEntry new = entry at *
  have top := entry.pushAll_esp
    [entry.ebp, entry.esi, entry.edi, entry.ebx, argument, Image.innerTaskSwitchRet]
  have values : [entry.ebp, entry.esi, entry.edi, entry.ebx, argument, Image.innerTaskSwitchRet,
      entry.esp - 4, (s.task new).registerEsp, taskAddr s.current 16, Image.switchStackRet] =
    [entry.ebp, entry.esi, entry.edi, entry.ebx, argument, Image.innerTaskSwitchRet] ++
      [entry.esp - 4, (s.task new).registerEsp, taskAddr s.current 16, Image.switchStackRet] := rfl
  rw [entered, exec_switchStackCall, pushAll_ebp, values, Cpu.pushAll_append]
  generalize entry.pushAll [entry.ebp, entry.esi, entry.edi, entry.ebx, argument,
    Image.innerTaskSwitchRet] = framed at *
  have bottom : framed.esp - 4 = entry.esp - 28 := by
    rw [← top, slot]
    simp only [List.length_cons, List.length_nil]
    bv_omega
  rw [bottom]

/-- Where `task_switch` returns, with what the body of `inner_task_switch` leaves. -/
def switchReturns (s : State) (new : Task) (argument : DWord) (body : Cpu.CalleeSaved) : Cpu :=
  leaveSwitch (landing { (switchPushed s new argument).holding body with
    eax := taskAddr s.current 16 } (s.task new).registerEsp)

theorem innerTaskSwitch_of_exec {s : State} {new : Task} {framed pushed : Cpu} {ebp : DWord}
    (called : framed.exec (switchStackCall (taskAddr s.current 16) (s.task new).registerEsp) =
      { pushed with ebp := ebp })
    (saveWord : pushed.mem (pushed.esp + 4) = taskAddr s.current 16)
    (newWord : pushed.mem (pushed.esp + 4 + 4) = (s.task new).registerEsp)
    (saved : Task → Saved) (body : Cpu.CalleeSaved) :
    (State.innerTaskSwitch { s with saved := saved, cpu := framed } new body).switchReturn =
      { s with
        task := Function.update s.task s.current { s.task s.current with registerEsp := ebp }
        current := new
        mm := s.mm.setCr3 (s.task new).dirPagesBaseAddr
        cpu := leaveSwitch (landing { pushed.holding body with eax := taskAddr s.current 16 }
          (s.task new).registerEsp)
        esp0 := taskAddr new PAGE_SIZE
        saved := saved } := by
  have atCall : (framed.exec (switchStackCall (taskAddr s.current 16)
      (s.task new).registerEsp)).holding body = { pushed.holding body with ebp := ebp } := by
    rw [called]
    rfl
  simp only [State.innerTaskSwitch, State.setCr3, State.getDIR, switchReturn_cpu]
  rw [@switchStack_eq _ (pushed.holding body) ebp _ _ s.current atCall saveWord newWord]
  rfl

/-- `task_switch` saves the stack pointer of the running task and lands on the
stack of the other one. -/
theorem taskSwitch_eq (s : State) (new : Task) : ∃ argument body, s.taskSwitch new =
    { s with
      task := Function.update s.task s.current
        { s.task s.current with registerEsp := (s.switchEntry new).esp - 28 }
      current := new
      mm := s.mm.setCr3 (s.task new).dirPagesBaseAddr
      cpu := switchReturns s new argument body
      esp0 := taskAddr new PAGE_SIZE
      saved := Function.update s.saved s.current (.gaveUp (s.switchEntry new))
      trace := .taskSwitch new
        (Function.update s.saved s.current (.gaveUp (s.switchEntry new)) new)
        (switchReturns s new argument) :: s.trace } := by
  obtain ⟨argument, called⟩ := exec_switch s new
  have words := switchPushed_holds s new argument
  have after := innerTaskSwitch_of_exec called words.2.1 words.2.2.1
    (Function.update s.saved s.current (.gaveUp (s.switchEntry new)))
  refine ⟨argument, Image.innerTaskSwitchBody ((s.switchEntry new).exec taskSwitchEnter) new, ?_⟩
  simp only [State.taskSwitch, after]
  rfl

structure SwitchSpec (s : State) (new : Task) (argument : DWord) (after : State) : Prop where
  current : after.current = new
  cpu : ∃ body, after.cpu = switchReturns s new argument body
  mem : after.cpu.mem = (switchPushed s new argument).mem
  saved : after.saved = Function.update s.saved s.current (.gaveUp (s.switchEntry new))
  registerEsp : ∀ t, (after.task t).registerEsp =
    if t = s.current then (s.switchEntry new).esp - 28 else (s.task t).registerEsp
  switches : after.switches = .taskSwitch new
    (Function.update s.saved s.current (.gaveUp (s.switchEntry new)) new)
    (switchReturns s new argument) :: s.switches

theorem taskSwitch_spec (s : State) (new : Task) :
    ∃ argument, SwitchSpec s new argument (s.taskSwitch new) := by
  obtain ⟨argument, body, result⟩ := taskSwitch_eq s new
  refine ⟨argument, ?_⟩
  rw [result]
  constructor
  · rfl
  · exact ⟨body, rfl⟩
  · exact leaveSwitch_landing_mem ..
  · rfl
  · intro t
    dsimp only
    by_cases running : t = s.current
    · rw [running, Function.update_self, if_pos rfl]
    · rw [Function.update_of_ne running, if_neg running]
  · rfl

end

end Zeos
