import Zeos.Stacks.Behind
import Zeos.Stacks.Top

/-!
# The frames of the handlers

The handler a process enters the kernel through puts its registers on the top of its
kernel stack, and takes them from there on the way back.
-/

namespace Zeos

open Library Library.X86

section

variable [Image]

variable {s : State} {t : Task}

theorem SparesOthers.stacked {cpu : Cpu} {queues : Queues} (spares : SparesOthers s cpu)
    (stacked : Stacked s queues) : Stacked { s with cpu := cpu } queues :=
  fun t notFree off => (stacked t notFree off).congr ⟨rfl, rfl, spares t off⟩

theorem SparesOthers.trans {first second : Cpu} (one : SparesOthers s first)
    (other : SparesOthers { s with cpu := first } second) : SparesOthers s second :=
  fun t off place high bound => (other t off place high bound).trans (one t off place high bound)

/-- Writing on the own stack spares the others. -/
theorem SparesOthers.of_writes {cpu : Cpu} (written : DWord → Prop)
    (own : ∀ address, written address → ∃ place < PAGE_SIZE, address = taskAddr s.current place)
    (others : ∀ address, ¬ written address → cpu.mem address = s.cpu.mem address) :
    SparesOthers s cpu := by
  intro t off place _ bound
  refine others _ fun writes => ?_
  obtain ⟨mine, inside, same⟩ := own _ writes
  exact taskAddr_ne bound inside (.inl off) same

variable [HandlerImage]

variable {mem other : DWord → DWord} {regs : Reg → DWord} {mode : Mode} {activity : Activity}

/-- The registers of a process in the kernel are in the frame of its handler. -/
inductive Framed (mem : DWord → DWord) (t : Task) (regs : Reg → DWord) : Mode → Activity → Prop
  | call {activity : Activity} (area : SaveArea) (waits : activity ≠ .computing)
      (found : Holds mem (taskAddr t (PAGE_SIZE - 68)) (Image.systemCallRet :: area.words))
      (answers : ∀ answer mem, (area.resume answer.1 answer.2 mem).get =
        sysenterConvention.answered regs answer) : Framed mem t regs .inCall activity
  | interrupt (handler : Handler) (cpu : Cpu) (user : level cpu.cs ≠ 0) (same : cpu.get = regs)
      (found : Holds mem (taskAddr t (PAGE_SIZE - 68))
        (HandlerImage.routineRet handler :: (interruptArea cpu).words)) :
      Framed mem t regs .inInterrupt .computing

omit [HandlerImage] in
theorem holds_top {mem other : DWord → DWord} {t u : Task} {word : DWord} {area : SaveArea}
    (found : Holds mem (taskAddr t (PAGE_SIZE - 68)) (word :: area.words))
    (same : ∀ place, PAGE_SIZE - 68 ≤ place → place < PAGE_SIZE →
      other (taskAddr u place) = mem (taskAddr t place)) :
    Holds other (taskAddr u (PAGE_SIZE - 68)) (word :: area.words) := by
  refine found.move fun index bound => ?_
  rw [List.length_cons, SaveArea.length_words] at bound
  rw [slot_taskAddr (by simp only [PAGE_SIZE]; omega), slot_taskAddr (by simp only [PAGE_SIZE]; omega)]
  exact same _ (by omega) (by simp only [PAGE_SIZE]; omega)

theorem Framed.congr (framed : Framed mem t regs mode activity)
    (same : SameStack t (PAGE_SIZE - 68) other mem) : Framed other t regs mode activity := by
  cases framed with
  | call area waits found answers => exact .call area waits (holds_top found same) answers
  | interrupt handler cpu user regs found =>
      exact .interrupt handler cpu user regs (holds_top found same)

theorem Framed.not_user (framed : Framed mem t regs mode activity) : mode ≠ .user := by
  cases framed <;> exact Mode.noConfusion

theorem Framed.child {child : Task} (framed : Framed mem t regs .inCall activity)
    (copied : ∀ place, PAGE_SIZE - 68 ≤ place → place < PAGE_SIZE →
      other (taskAddr child place) = mem (taskAddr t place)) :
    Framed other child regs .inCall .born := by
  cases framed with
  | call area _ found answers =>
      exact .call area Activity.noConfusion (holds_top found copied) answers

omit [HandlerImage] in
theorem OnTop.down (top : OnTop s) {esp : DWord} {count : Nat} (few : 4 * count ≤ PAGE_SIZE)
    (place : slot esp count = s.esp0) : esp = taskAddr s.current (PAGE_SIZE - 4 * count) := by
  have esp0 : s.esp0 = taskAddr s.current PAGE_SIZE := top
  rw [← taskAddr_sub s.current PAGE_SIZE _ few (Nat.le_refl _), ← esp0, ← place, slot]
  exact (BitVec.add_sub_cancel _ _).symm

omit [Image] [HandlerImage] in
theorem answered_resume (s : State) (eip : DWord) (answer : DWord × DWord) (mem : DWord → DWord) :
    ((savedArea s.sysenter.cpu eip).resume answer.1 answer.2 mem).get =
      sysenterConvention.answered (sysenterConvention.called s.cpu.get eip) answer := by
  funext reg
  cases reg <;> simp [sysenterConvention, Function.update, SaveArea.resume, savedArea, Cpu.get,
    State.sysenter]

omit [HandlerImage] in
theorem OnTop.onSaveArea (top : OnTop s) {address : DWord} (on : OnSaveArea s.esp0 address) :
    ∃ place < PAGE_SIZE, address = taskAddr s.current place := by
  obtain ⟨index, bound, rfl⟩ := on
  have esp0 : s.esp0 = taskAddr s.current PAGE_SIZE := top
  have bottom : s.esp0 - 68 = taskAddr s.current (PAGE_SIZE - 68) := by
    rw [esp0]
    exact taskAddr_sub s.current PAGE_SIZE 68 (by decide) (Nat.le_refl _)
  refine ⟨PAGE_SIZE - 68 + 4 * index, by simp only [PAGE_SIZE]; omega, ?_⟩
  rw [bottom, slot_taskAddr (by simp only [PAGE_SIZE]; omega)]

omit [HandlerImage] in
theorem OnTop.enterCall (top : OnTop s) {cpu : Cpu}
    (called : cpu = s.entered.exec [.push (.imm Image.systemCallRet)]) :
    Holds cpu.mem (taskAddr s.current (PAGE_SIZE - 68))
        (Image.systemCallRet :: (savedArea s.sysenter.cpu (returnWord s.sysenter.cpu)).words) ∧
      SparesOthers s cpu := by
  obtain ⟨saved, place, _, others⟩ := entered_spec s
  obtain ⟨below, area⟩ := onSaveArea_slot place
  have same : cpu = s.entered.pushAll [Image.systemCallRet] := called
  have found := saved.pushAll [Image.systemCallRet] (by simp [SaveArea.words])
  have bottom : slot (s.entered.pushAll [Image.systemCallRet]).esp 1 = s.entered.esp :=
    s.entered.pushAll_esp [Image.systemCallRet]
  have mem : cpu.mem = Function.update s.entered.mem (s.entered.esp - 4) Image.systemCallRet := by
    rw [same]
    rfl
  rw [← same] at found bottom
  generalize s.entered = entered at *
  generalize (savedArea s.sysenter.cpu (returnWord s.sysenter.cpu)).words = words at *
  have depth : cpu.esp = taskAddr s.current (PAGE_SIZE - 68) := by
    refine @OnTop.down _ s top cpu.esp 17 (by decide) ?_
    rw [← place, ← bottom]
    exact (slot_slot cpu.esp 1 16).symm
  rw [← depth]
  refine ⟨found, .of_writes (OnSaveArea s.esp0) (fun _ => top.onSaveArea) fun address off => ?_⟩
  rw [mem, Function.update_of_ne]
  · refine others address fun index bound => ?_
    rintro rfl
    exact off (area index bound)
  · rintro rfl
    exact off below

omit [HandlerImage] in
theorem sysenterFin_spec {area : SaveArea} {regs : Reg → DWord} (eax : DWord)
    (esp : s.cpu.esp = taskAddr s.current (PAGE_SIZE - 64))
    (found : Holds s.cpu.mem s.cpu.esp area.words)
    (answers : ∀ answer mem, (area.resume answer.1 answer.2 mem).get =
      sysenterConvention.answered regs answer) :
    ∃ cpu, s.sysenterFin eax = { s with cpu := cpu } ∧ SparesOthers s cpu ∧ level cpu.cs ≠ 0 ∧
      cpu.eax = eax ∧ cpu.get = sysenterConvention.answered regs (cpu.eax, cpu.eflags) := by
  have back := exec_sysenterFin { s.cpu with eax := eax } found
  have user : level USER_CS ≠ 0 := by decide
  refine ⟨_, congrArg (fun cpu => { s with cpu := cpu }) back, ?_, user, rfl, answers (_, _) _⟩
  have inside : PAGE_SIZE - 64 + 4 * 6 < PAGE_SIZE := by decide
  have place : slot s.cpu.esp 6 = taskAddr s.current (PAGE_SIZE - 64 + 4 * 6) := by
    rw [esp]
    exact slot_taskAddr (Nat.le_of_lt inside)
  refine .of_writes (fun address => address = slot s.cpu.esp 6) ?_ fun address off => ?_
  · rintro _ rfl
    exact ⟨_, inside, place⟩
  · exact Function.update_of_ne off ..

omit [HandlerImage] in
/-- A call that is refused is answered at once. -/
theorem OnTop.refused (top : OnTop s) {after : State} (user : s.systemCallPushed = .user after) :
    ∃ cpu, after = { s with cpu := cpu } ∧ SparesOthers s cpu ∧ level cpu.cs ≠ 0 ∧
      cpu.eax = -ENOSYS ∧ cpu.get = sysenterConvention.answered
        (sysenterConvention.called s.cpu.get (returnWord s.sysenter.cpu)) (cpu.eax, cpu.eflags) := by
  obtain ⟨saved, place, _, others⟩ := entered_spec s
  obtain ⟨below, area⟩ := onSaveArea_slot place
  have answers := answered_resume s (returnWord s.sysenter.cpu)
  have depth : s.entered.esp = taskAddr s.current (PAGE_SIZE - 64) :=
    @OnTop.down _ s top s.entered.esp 16 (by decide) place
  have handler := systemCallPushed_eq s
  rw [user] at handler
  generalize s.entered = entered at *
  have spares : SparesOthers s entered := by
    refine .of_writes (OnSaveArea s.esp0) (fun _ => top.onSaveArea) fun address off => ?_
    refine others address fun index bound => ?_
    rintro rfl
    exact off (area index bound)
  cases number : dispatch s.cpu.eax with
  | sysenterErr =>
      simp only [number] at handler
      obtain rfl := Outcome.user.inj handler
      obtain ⟨cpu, result, kept, outer, eax, regs⟩ :=
        sysenterFin_spec (s := { s with cpu := entered }) (-ENOSYS) depth saved answers
      exact ⟨cpu, result, spares.trans kept, outer, eax, regs⟩
  | outside slot =>
      simp only [number] at handler
      exact Outcome.noConfusion handler
  | call name =>
      simp only [number] at handler
      cases name with
      | sysNiSyscall =>
          obtain rfl := Outcome.user.inj handler
          obtain ⟨next, result⟩ := callNiSyscall_eq s entered
          have pushed := saved.pushAll [Image.systemCallRet] (by simp [SaveArea.words])
          have back : entered.esp - 4 + 4 = entered.esp := BitVec.sub_add_cancel _ _
          have still : SparesOthers s (entered.pushAll [Image.systemCallRet]) := by
            refine spares.trans (.of_writes (fun address => address = entered.esp - 4) ?_ ?_)
            · rintro _ rfl
              exact top.onSaveArea below
            · exact fun address off => Function.update_of_ne off ..
          rw [result]
          obtain ⟨cpu, whole, kept, outer, eax, regs⟩ :=
            sysenterFin_spec (s := { s with cpu := { entered with
              eax := -ENOSYS, esp := entered.esp - 4 + 4, eip := next
              mem := (entered.pushAll [Image.systemCallRet]).mem } }) (-ENOSYS)
              (back.trans depth) pushed.2 answers
          exact ⟨cpu, whole, fun t off place high bound =>
            (kept t off place high bound).trans (still t off place high bound), outer, eax, regs⟩
      | _ => exact Outcome.noConfusion handler

omit [HandlerImage] in
theorem service_entered {name : Service} {entered : State}
    (service : s.systemCallPushed = .service name entered) : ∃ cpu,
      entered = { s with cpu := cpu } ∧ cpu = s.entered.exec [.push (.imm Image.systemCallRet)] := by
  have handler := systemCallPushed_eq s
  rw [service] at handler
  cases number : dispatch s.cpu.eax with
  | sysenterErr =>
      simp only [number] at handler
      exact Outcome.noConfusion handler
  | outside slot =>
      simp only [number] at handler
      exact Outcome.noConfusion handler
  | call name =>
      simp only [number] at handler
      cases name with
      | sysNiSyscall => exact Outcome.noConfusion handler
      | _ => exact ⟨_, (Outcome.service.inj handler).2, rfl⟩

omit [HandlerImage] in
theorem max_of_outside {slot : Nat} {entered : State}
    (outside : s.systemCallPushed = .outside slot entered) : s.cpu.eax = MAX_SYSCALL := by
  have handler := systemCallPushed_eq s
  rw [outside, dispatch_eq] at handler
  by_contra notMax
  cases entry : sysCallTable[s.cpu.eax.toNat]? with
  | none =>
      simp only [entry, if_neg notMax] at handler
      exact Outcome.noConfusion handler
  | some name =>
      simp only [entry] at handler
      cases name <;> exact Outcome.noConfusion handler

omit [HandlerImage] in
/-- The service or the routine has returned, also where it is a child's
`ret_from_fork`. -/
theorem State.Returns.back {returned : Cpu} (returns : s.Returns returned)
    (switched : SwitchesReturn s) :
    returned.eip = s.cpu.mem (taskAddr s.current (PAGE_SIZE - 68)) ∧
      returned.esp = taskAddr s.current (PAGE_SIZE - 64) ∧
      SameStack s.current (PAGE_SIZE - 64) returned.mem s.cpu.mem ∧
      (¬ s.Starts → level returned.cs = 0) ∧ (s.Starts → returned.eax = 0) := by
  obtain ⟨_, first, unwinds⟩ := returns
  by_cases starts : s.Starts
  · have result := exec_retFromFork s.cpu
    have up : s.cpu.esp + 4 = taskAddr s.current (PAGE_SIZE - 64) := by
      rw [starts.2]
      exact taskAddr_add s.current (PAGE_SIZE - 68) 4 (by decide)
    have below : s.cpu.esp - 4 = taskAddr s.current (PAGE_SIZE - 72) := by
      rw [starts.2]
      exact taskAddr_sub s.current (PAGE_SIZE - 68) 4 (by decide) (by decide)
    rw [up, below, starts.2] at result
    rw [first starts, result]
    refine ⟨rfl, rfl, ?_, fun other => absurd starts other, fun _ => rfl⟩
    intro place high bound
    dsimp only
    refine Function.update_of_ne (taskAddr_ne bound (by decide) (.inr ?_)) ..
    simp only [PAGE_SIZE] at high ⊢
    omega
  · obtain ⟨eip, esp, kernel, own⟩ := unwinds switched starts
    exact ⟨eip, esp, own, fun _ => kernel, fun start => absurd start starts⟩

omit [HandlerImage] in
theorem found_back {returned : Cpu} {word : DWord} {area : SaveArea}
    (found : Holds s.cpu.mem (taskAddr s.current (PAGE_SIZE - 68)) (word :: area.words))
    (own : SameStack s.current (PAGE_SIZE - 64) returned.mem s.cpu.mem)
    (esp : returned.esp = taskAddr s.current (PAGE_SIZE - 64)) :
    s.cpu.mem (taskAddr s.current (PAGE_SIZE - 68)) = word ∧
      Holds returned.mem returned.esp area.words := by
  obtain ⟨address, rest⟩ := found
  have up : taskAddr s.current (PAGE_SIZE - 68) + 4 = taskAddr s.current (PAGE_SIZE - 64) :=
    taskAddr_add s.current (PAGE_SIZE - 68) 4 (by decide)
  rw [up] at rest
  rw [esp]
  refine ⟨address, holds_sameStack rest ?_ own⟩
  rw [SaveArea.length_words]
  decide

theorem handlerAt_routineRet (handler : Handler) : ∃ other,
    handlerAt (HandlerImage.routineRet handler) = some other := by
  unfold handlerAt
  cases handler with
  | clock => exact ⟨_, if_pos rfl⟩
  | keyboard =>
      split
      · exact ⟨_, rfl⟩
      · exact ⟨_, if_pos rfl⟩

variable {cpu user returned charged : Cpu} {handler : Handler}

omit [HandlerImage] in
theorem OnTop.onHandlerFrame (top : OnTop s) (outer : level cpu.cs ≠ 0) {address : DWord}
    (on : OnHandlerFrame cpu s.esp0 address) :
    ∃ place < PAGE_SIZE, address = taskAddr s.current place := by
  obtain ⟨index, bound, rfl⟩ := on
  have esp0 : s.esp0 = taskAddr s.current PAGE_SIZE := top
  have bottom : s.esp0 - 72 = taskAddr s.current (PAGE_SIZE - 72) := by
    rw [esp0]
    exact taskAddr_sub s.current PAGE_SIZE 72 (by decide) (Nat.le_refl _)
  have start : (onKernelStack cpu s.esp0).esp = s.esp0 := by
    rw [onKernelStack, if_neg outer]
  refine ⟨PAGE_SIZE - 72 + 4 * index, by simp only [PAGE_SIZE]; omega, ?_⟩
  rw [start, bottom, slot_taskAddr (by simp only [PAGE_SIZE]; omega)]

theorem OnTop.interrupt (top : OnTop s) (outer : level s.cpu.cs ≠ 0) {entered : Cpu}
    (enters : entered = (s.cpu.deliver KERNEL_CS (HandlerImage.handler handler) KERNEL_DS
      s.esp0).exec (handlerEnter handler))
    (returns : CReturns 17 entered returned) (spares : SparesOthers { s with cpu := entered } returned) :
    Holds (handlerServe handler returned).mem (taskAddr s.current (PAGE_SIZE - 68))
        (HandlerImage.routineRet handler :: (interruptArea s.cpu).words) ∧
      (handlerServe handler returned).eip = HandlerImage.routine handler ∧
      SparesOthers s (handlerServe handler returned) := by
  have kernel : level KERNEL_CS = 0 := by decide
  have spec := @enter_spec KERNEL_CS (HandlerImage.handler handler) _ _ handler s.cpu s.esp0 kernel
  rw [← enters] at spec
  obtain ⟨called, place, _, others⟩ := spec
  rw [interruptWords, if_neg outer, onKernelStack, if_neg outer] at place
  rw [interruptWords, if_neg outer] at called
  obtain ⟨inner, found⟩ := returns.over called (by simp [SaveArea.words])
  obtain ⟨served, esp, _, eip, kept⟩ :=
    serve_spec handler inner (by simp [SaveArea.words]) found
  have down : slot returned.esp 17 = s.esp0 := by
    rw [returns.esp, slot_succ]
    exact place
  have depth : returned.esp = taskAddr s.current (PAGE_SIZE - 68) :=
    @OnTop.down _ s top returned.esp 17 (by decide) down
  have words := served.found
  rw [esp, depth] at words
  refine ⟨words, eip, ?_⟩
  have first : SparesOthers s entered :=
    .of_writes (OnHandlerFrame s.cpu s.esp0) (fun _ => top.onHandlerFrame outer) others
  refine (first.trans spares).trans (.of_writes (fun address => address = returned.esp) ?_ kept)
  rintro _ rfl
  exact ⟨_, by decide, depth⟩

/-- From the return of the routine to that of the interrupt. -/
theorem interruptReturn_spec (esp : returned.esp = taskAddr s.current (PAGE_SIZE - 64))
    (inner : level returned.cs = 0) (outer : level user.cs ≠ 0)
    (found : Holds returned.mem returned.esp (interruptArea user).words)
    (returns : CReturns 17 (returned.exec (handlerCharge handler)) charged)
    (spares : SparesOthers { s with cpu := returned.exec (handlerCharge handler) } charged) :
    handlerLeave charged = { user with mem := charged.mem } ∧
      SparesOthers { s with cpu := returned } charged := by
  obtain ⟨callee, place, _, others⟩ :=
    charge_spec handler inner (by simp [SaveArea.words]) found
  obtain ⟨level, words⟩ := returns.over callee (by simp [SaveArea.words])
  have same : interruptWords user = (interruptArea user).words := if_neg outer
  rw [← same] at words
  have left := handlerLeave_eq level words
  rw [if_neg outer, if_neg outer] at left
  refine ⟨left, ?_⟩
  generalize returned.exec (handlerCharge handler) = called at *
  have bottom : called.esp = taskAddr s.current (PAGE_SIZE - 72) := by
    have back : called.esp = returned.esp - 8 := by
      rw [← place]
      exact (BitVec.add_sub_cancel _ _).symm
    rw [back, esp]
    exact taskAddr_sub s.current (PAGE_SIZE - 64) 8 (by decide) (by decide)
  have first : SparesOthers { s with cpu := returned } called := by
    refine .of_writes (fun address => ∃ index < 2, address = slot called.esp index) ?_ ?_
    · rintro _ ⟨index, bound, rfl⟩
      refine ⟨PAGE_SIZE - 72 + 4 * index, by simp only [PAGE_SIZE]; omega, ?_⟩
      rw [bottom, slot_taskAddr (by simp only [PAGE_SIZE]; omega)]
    · exact fun address off => others address fun index bound same => off ⟨index, bound, same⟩
  exact first.trans spares

end

end Zeos
