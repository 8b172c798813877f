import Zeos.Space.Reuse
import Zeos.Stacks.ForkReturn
import Zeos.Syscall.RoundTrip

/-!
# `fork()`

The call as a program makes it. What `sys_fork` returns goes through
`system_call_handler` and the test of its sign in the wrapper.
-/

namespace Zeos

open Library Library.X86

/-- The start of `sys_fork`, as compiled with a frame pointer. -/
def sysForkEnter : List Instr :=
  [.push (.reg .ebp),
   .mov (.reg .esp) (.reg .ebp)]

section

variable [Image]

namespace State

def inSysFork (s : State) : State := { s with cpu := s.cpu.exec sysForkEnter }

def callSysFork (s : State) : State :=
  let (result, s) := s.inSysFork.sysFork
  { s with cpu := Cpu.exec { s.cpu with eax := result.word } sysForkLeave }

end State

section

variable [UserImage]

def State.userFork (s : State) : State := Wrapper.fork.call (fun _ => State.callSysFork) s

/-- The body of `sys_fork` in a call of `fork()`. -/
def State.forking (s : State) : State := (Wrapper.fork.entered s).inSysFork

variable {s after : State} {result : Result}

theorem forking_eq (s : State) : s.forking = { s with cpu := s.forking.cpu } := by
  have whole : s.forking = { s with cpu := (Wrapper.fork.entered s).cpu.exec sysForkEnter } := by
    unfold State.forking State.inSysFork
    generalize (Wrapper.fork.entered s).cpu.exec sysForkEnter = cpu
    unfold Wrapper.entered Wrapper.atSysenter
    dsimp only
  rw [whole]

theorem forking_current (s : State) : s.forking.current = s.current := by
  rw [forking_eq]

/-- The frame of `sys_fork` on the kernel stack, where `system_call_handler` calls it. -/
abbrev forkDepth : Nat := PAGE_SIZE - 72

theorem Calls.entered_esp (calls : Calls s) :
    (Wrapper.fork.entered s).cpu.esp = taskAddr s.current (PAGE_SIZE - 68) := by
  obtain ⟨_, _, top, _⟩ := calls.entered_spec (show Wrapper.fork.args ≤ 3 by decide)
  have kernel : s.esp0 = taskAddr s.current PAGE_SIZE := calls.kernel
  have down : taskAddr s.current PAGE_SIZE - 68 = taskAddr s.current (PAGE_SIZE - 68) :=
    taskAddr_sub s.current PAGE_SIZE 68 (by decide) (Nat.le_refl _)
  rw [← down, ← kernel, ← top]
  generalize (Wrapper.fork.entered s).cpu.esp = esp
  simp only [slot]
  bv_omega

omit [Image] [UserImage] in
theorem exec_sysForkEnter (cpu : Cpu) : cpu.exec sysForkEnter =
    { cpu.pushAll [cpu.ebp] with ebp := cpu.esp - 4 } := rfl

theorem Calls.forking_spec (calls : Calls s) :
    s.forking.cpu.ebp = taskAddr s.current forkDepth ∧
      Holds s.forking.cpu.mem (taskAddr s.current forkDepth) ((Wrapper.fork.entered s).cpu.ebp ::
        Image.systemCallRet :: (Wrapper.fork.area s).words) ∧
      ∀ address, address ≠ taskAddr s.current forkDepth →
        s.forking.cpu.mem address = (Wrapper.fork.entered s).cpu.mem address := by
  obtain ⟨address, saved, _, _⟩ := calls.entered_spec (show Wrapper.fork.args ≤ 3 by decide)
  rw [savedArea_atSysenter (by decide)] at saved
  have esp := calls.entered_esp
  have below : taskAddr s.current (PAGE_SIZE - 68) - 4 = taskAddr s.current forkDepth :=
    taskAddr_sub s.current (PAGE_SIZE - 68) 4 (by decide) (by decide)
  have start : s.forking.cpu = (Wrapper.fork.entered s).cpu.exec sysForkEnter := rfl
  rw [start, exec_sysForkEnter]
  generalize (Wrapper.fork.entered s).cpu = cpu at *
  have frame := @Holds.pushAll cpu (Image.systemCallRet :: (Wrapper.fork.area s).words)
    ⟨address, saved⟩ [cpu.ebp] (by simp [SaveArea.words])
  have place : (cpu.pushAll [cpu.ebp]).esp = cpu.esp - 4 := rfl
  rw [place, esp, below] at frame
  rw [esp, below]
  refine ⟨rfl, frame, fun other apart => ?_⟩
  refine Function.update_of_ne ?_ ..
  rwa [esp, below]

omit [UserImage] in
theorem user_ne_taskAddr {address : DWord} (user : L_USER_START ≤ address.toNat) (t : Task)
    {place : Nat} (bound : place < PAGE_SIZE) : address ≠ taskAddr t place := by
  rintro rfl
  have page := taskPage_lt t
  rw [taskAddr_toNat t (Nat.le_of_lt bound)] at user
  simp only [L_USER_START, NUM_PAG_KERNEL, PAGE_SIZE] at user page bound
  omega

theorem Calls.callSysFork_obeys (calls : Calls s) (ran : s.forking.sysFork = (result, after))
    (base : after.cpu.ebp = s.forking.cpu.ebp)
    (kept : ∀ address, PH_PAGE address = taskPage s.current ∨ L_USER_START ≤ address.toNat →
      after.cpu.mem address = s.forking.cpu.mem address) :
    (Wrapper.fork.entered s).callSysFork = { after with
      cpu := Cpu.exec { after.cpu with eax := result.word } sysForkLeave } ∧
    Obeys Wrapper.fork s (Wrapper.fork.entered s) (Wrapper.fork.entered s).callSysFork := by
  obtain ⟨address, _⟩ := calls.entered_spec (show Wrapper.fork.args ≤ 3 by decide)
  obtain ⟨frame, holds, others⟩ := calls.forking_spec
  have esp := calls.entered_esp
  have shape : (Wrapper.fork.entered s).callSysFork = { after with
      cpu := Cpu.exec { after.cpu with eax := result.word } sysForkLeave } := by
    have inside : (Wrapper.fork.entered s).inSysFork.sysFork = (result, after) := ran
    unfold State.callSysFork
    rw [inside]
  refine ⟨shape, ?_⟩
  have up : taskAddr s.current forkDepth + 4 = taskAddr s.current (PAGE_SIZE - 68) :=
    taskAddr_add s.current forkDepth 4 (by decide)
  have onStack : ∀ place, forkDepth < place → place < PAGE_SIZE →
      after.cpu.mem (taskAddr s.current place) =
        (Wrapper.fork.entered s).cpu.mem (taskAddr s.current place) := by
    intro place above below
    refine (kept _ (.inl (PH_PAGE_taskAddr s.current below))).trans (others _ ?_)
    exact taskAddr_ne below (by decide) (.inr (by omega))
  have back := exec_sysForkLeave { after.cpu with eax := result.word }
  rw [base, frame, up] at back
  rw [shape, back]
  constructor
  · rw [esp]
    exact onStack _ (by decide) (by decide)
  · rw [esp]
  · intro index bound
    have next : taskAddr s.current (PAGE_SIZE - 68) + 4 = taskAddr s.current (PAGE_SIZE - 64) :=
      taskAddr_add s.current _ 4 (by decide)
    have inside : PAGE_SIZE - 64 + 4 * index < PAGE_SIZE := by
      simp only [PAGE_SIZE]
      omega
    rw [esp, next, slot_taskAddr (Nat.le_of_lt inside)]
    exact onStack _ (by simp only [forkDepth, PAGE_SIZE]; omega) inside
  · intro index bound
    have length := frame_length Wrapper.fork s.cpu
    rw [frame_slot]
    have user := calls.user (show index + (7 - (Wrapper.fork.frame s.cpu).length) < 8 by omega)
    exact (kept _ (.inr user)).trans (others _ (user_ne_taskAddr user _ (by decide)))

omit [UserImage] in
theorem serviceReturn_eq (s : State) : ∃ cpu, s.serviceReturn = { s with cpu := cpu } := by
  unfold State.serviceReturn
  split
  · exact ⟨_, rfl⟩
  · exact ⟨s.cpu, rfl⟩

theorem userFork_eq (s : State) : s.userFork =
    { (Wrapper.fork.entered s).callSysFork.serviceReturn with
      cpu := Wrapper.fork.back (Wrapper.fork.entered s).callSysFork.serviceReturn.cpu } := by
  have handler := @handler_enters _ _ Wrapper.fork s .sysFork (by decide)
  unfold State.userFork Wrapper.call
  rw [handler]

theorem Calls.userFork_spec (calls : Calls s) (ran : s.forking.sysFork = (result, after))
    (base : after.cpu.ebp = s.forking.cpu.ebp)
    (kept : ∀ address, PH_PAGE address = taskPage s.current ∨ L_USER_START ≤ address.toNat →
      after.cpu.mem address = s.forking.cpu.mem address) :
    (∃ cpu, s.userFork = { after with cpu := cpu }) ∧
      s.userFork.cpu.eax = (if Wrapper.fork.Fails result.word then -1 else result.word) ∧
      (¬ Wrapper.fork.Fails result.word → ∀ t, t ≠ s.current →
        SameStack t 0 s.userFork.cpu.mem after.cpu.mem) := by
  obtain ⟨shape, obeys⟩ := calls.callSysFork_obeys ran base kept
  have trip := calls.roundTrip (by decide) obeys
  have eax : (Wrapper.fork.entered s).callSysFork.cpu.eax = result.word := by
    rw [shape, exec_sysForkLeave]
  have mem : (Wrapper.fork.entered s).callSysFork.cpu.mem = after.cpu.mem := by
    rw [shape, exec_sysForkLeave]
  obtain ⟨cpu, returned⟩ := serviceReturn_eq (Wrapper.fork.entered s).callSysFork
  have whole := userFork_eq s
  have answer := trip.eax
  have comingOut := trip.comingOut
  rw [eax] at answer comingOut
  rw [mem] at comingOut
  generalize Wrapper.fork.back (Wrapper.fork.entered s).callSysFork.serviceReturn.cpu = last at *
  rw [returned, shape] at whole
  rw [whole]
  refine ⟨⟨last, rfl⟩, answer, fun succeeds t other place _ bound => ?_⟩
  refine comingOut _ ?_ fun fails => absurd fails succeeds
  have kernel : s.esp0 = taskAddr s.current PAGE_SIZE := calls.kernel
  rintro (⟨index, below, same⟩ | ⟨index, below, same⟩)
  · have bottom : taskAddr s.current PAGE_SIZE - 68 = taskAddr s.current (PAGE_SIZE - 68) :=
      taskAddr_sub s.current PAGE_SIZE 68 (by decide) (Nat.le_refl _)
    have inside : PAGE_SIZE - 68 + 4 * index < PAGE_SIZE := by
      simp only [PAGE_SIZE]
      omega
    rw [kernel, bottom, slot_taskAddr (Nat.le_of_lt inside)] at same
    exact taskAddr_ne bound inside (.inl other) same
  · exact user_ne_taskAddr (calls.user (Nat.lt_succ_of_lt below)) t bound same.symm

/-- The end of `fork()` in a child that is dispatched for the first time, over the user
memory `mem`. -/
def childReturn (dispatched : Cpu) (mem : DWord → DWord) : Cpu :=
  Wrapper.fork.back { sysexit ((dispatched.exec retFromFork).exec sysenterFin) with mem := mem }

/-- The child at its first dispatch is going to return from `fork()`, with 0. Its user
memory is the copy of its parent's. -/
structure ChildReturns (s : State) (dispatched : Cpu) : Prop where
  starts : dispatched.eip = Image.retFromFork
  called : (dispatched.exec retFromFork).eip = Image.systemCallRet
  returns : ∀ mem : DWord → DWord,
    (∀ address, L_USER_START ≤ address.toNat → mem address = s.forking.cpu.mem address) →
    (childReturn dispatched mem).eax = 0 ∧
      (childReturn dispatched mem).eip = s.cpu.mem s.cpu.esp ∧
      (childReturn dispatched mem).esp = s.cpu.esp + 4

theorem Calls.child_returns (calls : Calls s) {child : Task} {cpu : Cpu}
    (first : FirstFrame s.forking child forkDepth after)
    (returns : ReturnsTo child (after.saved child) cpu) : ChildReturns s cpu := by
  obtain ⟨_, _, _, others⟩ := calls.entered_spec (show Wrapper.fork.args ≤ 3 by decide)
  obtain ⟨_, stack, below⟩ := calls.forking_spec
  rw [← forking_current] at stack
  have length := frame_length Wrapper.fork s.cpu
  obtain ⟨starts, back⟩ := first.child_back (by decide) (by decide) stack returns
  obtain ⟨eflags, memory, landed⟩ := back.user
  refine ⟨starts, back.eip, fun mem copied => ?_⟩
  have holds : Holds mem (Wrapper.fork.entering s.cpu).esp
      ((Wrapper.fork.frame s.cpu).reverse ++ [s.cpu.mem s.cpu.esp]) := by
    refine (entering_holds Wrapper.fork s.cpu).congr fun index bound => ?_
    rw [List.length_append, List.length_reverse, List.length_singleton] at bound
    have place := frame_slot Wrapper.fork s.cpu index
    have inside : index + (7 - (Wrapper.fork.frame s.cpu).length) < 8 := by omega
    have user := calls.user inside
    have off := calls.above inside
    rw [← place] at user off
    exact (copied _ user).trans ((below _ (user_ne_taskAddr user _ (by decide))).trans
      (others _ off))
  have result := @Wrapper.back_spec _ Wrapper.fork s.cpu
    ((Wrapper.fork.area s).resume 0 eflags mem) _ rfl holds fun index bound => calls.errno_apart Wrapper.fork bound
  have bottom : ((Wrapper.fork.area s).resume 0 eflags mem).esp = (Wrapper.fork.entering s.cpu).esp :=
    rfl
  have eax : ((Wrapper.fork.area s).resume 0 eflags mem).eax = 0 := rfl
  have own : { (Wrapper.fork.area s).resume 0 eflags memory with mem := mem } =
      (Wrapper.fork.area s).resume 0 eflags mem := rfl
  have zero : ¬ Wrapper.fork.Fails 0 := by decide
  rw [bottom, frame_top, eax, if_neg zero] at result
  rw [childReturn, landed, own, result]
  exact ⟨rfl, rfl, rfl⟩

end

end

end Zeos
