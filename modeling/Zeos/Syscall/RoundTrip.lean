import Zeos.Kernel.UserUtils
import Zeos.Stacks.Top
import Zeos.Syscall.Dispatch

/-!
# A system call and back

`sysenter` and `sysexit` save nothing. The wrapper leaves a frame on the user's stack,
`syscall_sysenter` another, `SAVE_ALL` one on the kernel's stack, and each is taken
down word by word by code in another file.
-/

namespace Zeos

open Library Library.X86

section

variable [UserImage]

namespace Wrapper

variable {w : Wrapper} {cpu : Cpu}

/-- What register `index` of `argRegs` holds at `sysenter`: an argument of the C call,
or what it held before. -/
def arg (w : Wrapper) (cpu : Cpu) (index : Nat) (old : DWord) : DWord :=
  if index < w.args then cpu.mem (slot (cpu.esp + 4) index) else old

def frame (w : Wrapper) (cpu : Cpu) : List DWord :=
  cpu.ebp :: (if 0 < w.args then [cpu.ebx] else []) ++
    [UserImage.afterCall w, w.arg cpu 1 cpu.ecx, w.arg cpu 2 cpu.edx, UserImage.SYSENTER_RETURN,
      cpu.esp - 4]

def entering (w : Wrapper) (cpu : Cpu) : Cpu :=
  { cpu.pushAll (w.frame cpu) with
    eax := w.number, ebx := w.arg cpu 0 cpu.ebx, ecx := w.arg cpu 1 cpu.ecx
    edx := w.arg cpu 2 cpu.edx, ebp := (cpu.pushAll (w.frame cpu)).esp }

omit [UserImage] in
theorem exec_loads (few : w.args ≤ 3) (cpu : Cpu) : cpu.exec w.loads = { cpu with
    ebx := if 0 < w.args then cpu.mem (cpu.ebp + 8) else cpu.ebx
    ecx := if 1 < w.args then cpu.mem (cpu.ebp + 12) else cpu.ecx
    edx := if 2 < w.args then cpu.mem (cpu.ebp + 16) else cpu.edx } := by
  obtain ⟨number, args, tests⟩ := w
  have count : args = 0 ∨ args = 1 ∨ args = 2 ∨ args = 3 := by
    simp only at few
    omega
  rcases count with rfl | rfl | rfl | rfl <;> rfl

omit [UserImage] in
theorem pushed_arg (cpu : Cpu) (values : List Word) (few : values.length ≤ 2) {index : Nat}
    (bound : index < 3) : (cpu.pushAll values).mem (cpu.esp - 4 + BitVec.ofNat 32 (8 + 4 * index)) =
      cpu.mem (slot (cpu.esp + 4) index) := by
  have place : cpu.esp - 4 + BitVec.ofNat 32 (8 + 4 * index) = slot (cpu.esp + 4) index := by
    rw [slot]
    bv_omega
  rw [place]
  refine cpu.pushAll_mem values fun other below same => ?_
  have top := cpu.pushAll_esp values
  rw [← top] at same
  generalize (cpu.pushAll values).esp = esp at same
  simp only [slot] at same
  bv_omega

theorem exec_enter (few : w.args ≤ 3) :
    (cpu.exec w.enter).exec syscallSysenter = w.entering cpu := by
  have start : cpu.exec ([.push (.reg .ebp), .mov (.reg .esp) (.reg .ebp)] ++
      (if 0 < w.args then [.push (.reg .ebx)] else [])) =
        { cpu.pushAll (cpu.ebp :: if 0 < w.args then [cpu.ebx] else []) with ebp := cpu.esp - 4 } := by
    split <;> rfl
  have few_words : (cpu.ebp :: if 0 < w.args then [cpu.ebx] else []).length ≤ 2 := by
    split <;> simp
  have words := fun index bound => @pushed_arg cpu _ few_words index bound
  have whole : w.frame cpu = (cpu.ebp :: if 0 < w.args then [cpu.ebx] else []) ++
    [UserImage.afterCall w, w.arg cpu 1 cpu.ecx, w.arg cpu 2 cpu.edx, UserImage.SYSENTER_RETURN,
      cpu.esp - 4] := rfl
  rw [entering, whole, Cpu.pushAll_append]
  unfold enter
  rw [Cpu.exec_append, Cpu.exec_append, Cpu.exec_append, start, exec_loads few]
  have registers := cpu.pushAll_eq (cpu.ebp :: if 0 < w.args then [cpu.ebx] else [])
  generalize cpu.pushAll (cpu.ebp :: if 0 < w.args then [cpu.ebx] else []) = pushed at *
  have ebx := words 0 (by decide)
  have ecx := words 1 (by decide)
  have edx := words 2 (by decide)
  rw [registers]
  simp only [arg, ← ebx, ← ecx, ← edx]
  rfl

/-- The call is one that ends in `nok`. -/
def Fails (w : Wrapper) (eax : DWord) : Prop := w.tests = true ∧ eax.slt 0 = true

instance (w : Wrapper) (eax : DWord) : Decidable (w.Fails eax) :=
  inferInstanceAs (Decidable (_ ∧ _))

omit [UserImage] in
theorem exec_sysenterReturn (cpu : Cpu) : cpu.exec sysenterReturn = { cpu with
    ebp := cpu.mem cpu.esp, edx := cpu.mem (cpu.esp + 4 + 4), ecx := cpu.mem (cpu.esp + 4 + 4 + 4)
    eip := cpu.mem (cpu.esp + 4 + 4 + 4 + 4), esp := cpu.esp + 4 + 4 + 4 + 4 + 4 } := rfl

theorem exec_last {cpu : Cpu} {ebp eip : DWord} (holds : Holds cpu.mem cpu.esp [ebp, eip])
    (apart : ∀ index < 2, slot cpu.esp index ≠ UserImage.errno) :
    (if w.tests ∧ cpu.eax.slt 0 then nok cpu else cpu.exec [.pop .ebp, .ret]) = { cpu with
      ebp := ebp, eip := eip, esp := slot cpu.esp 2
      eax := if w.Fails cpu.eax then -1 else cpu.eax
      mem := if w.Fails cpu.eax then Function.update cpu.mem UserImage.errno (-cpu.eax)
        else cpu.mem } := by
  obtain ⟨frame, address, -⟩ := holds
  have top : slot cpu.esp 2 = cpu.esp + 4 + 4 := by
    rw [slot, BitVec.add_assoc]
    rfl
  have first := apart 0 (by decide)
  have second := apart 1 (by decide)
  rw [slot_zero] at first
  have second : cpu.esp + 4 ≠ UserImage.errno := second
  by_cases fails : w.Fails cpu.eax
  · have branch : w.tests = true ∧ cpu.eax.slt 0 = true := fails
    rw [if_pos branch, if_pos fails, if_pos fails, top]
    simp only [nok, Cpu.exec_cons, Cpu.exec_nil, Cpu.step, Cpu.read, Cpu.write, Cpu.set, Cpu.store,
      Function.update_of_ne first, Function.update_of_ne second, frame, address]
  · have branch : ¬ (w.tests = true ∧ cpu.eax.slt 0 = true) := fails
    rw [if_neg branch, if_neg fails, if_neg fails, top]
    simp only [Cpu.exec_cons, Cpu.exec_nil, Cpu.step, Cpu.set, frame, address]

/-- The end of a wrapper, over what it pushed itself. -/
theorem exec_leave {cpu : Cpu} {words : List DWord} {ebx ebp eip : DWord}
    (shape : words = if 0 < w.args then [ebx] else [])
    (holds : Holds cpu.mem cpu.esp (words ++ [ebp, eip]))
    (apart : ∀ index < words.length + 2, slot cpu.esp index ≠ UserImage.errno) :
    w.leave cpu = { cpu with
      ebx := if 0 < w.args then ebx else cpu.ebx
      ebp := ebp, eip := eip, esp := slot cpu.esp (words.length + 2)
      eax := if w.Fails cpu.eax then -1 else cpu.eax
      mem := if w.Fails cpu.eax then Function.update cpu.mem UserImage.errno (-cpu.eax)
        else cpu.mem } := by
  unfold leave
  by_cases loads : 0 < w.args
  · rw [if_pos loads] at shape
    subst shape
    obtain ⟨word, rest⟩ := holds
    have popped : cpu.exec [.pop .ebx] = { cpu with ebx := ebx, esp := cpu.esp + 4 } := by
      simp only [Cpu.exec_cons, Cpu.exec_nil, Cpu.step, Cpu.set, word]
    have result := @exec_last _ w { cpu with ebx := ebx, esp := cpu.esp + 4 } ebp eip rest
      fun index bound => by
        rw [slot_succ]
        exact apart (index + 1) (by simp; omega)
    rw [if_pos loads, if_pos loads, popped]
    refine result.trans ?_
    rw [slot_succ]
    rfl
  · rw [if_neg loads] at shape
    subst shape
    rw [if_neg loads, if_neg loads]
    exact exec_last holds apart

/-- From `sysexit` to the return of the wrapper. -/
theorem back_spec {user cpu : Cpu} {eip : DWord} (landed : cpu.eip = UserImage.SYSENTER_RETURN)
    (holds : Holds cpu.mem cpu.esp ((w.frame user).reverse ++ [eip]))
    (apart : ∀ index < (w.frame user).length + 1, slot cpu.esp index ≠ UserImage.errno) :
    w.back cpu = { cpu with
      ecx := w.arg user 1 user.ecx, edx := w.arg user 2 user.edx
      ebx := if 0 < w.args then user.ebx else cpu.ebx
      ebp := user.ebp, eip := eip, esp := slot cpu.esp ((w.frame user).length + 1)
      eax := if w.Fails cpu.eax then -1 else cpu.eax
      mem := if w.Fails cpu.eax then Function.update cpu.mem UserImage.errno (-cpu.eax)
        else cpu.mem } := by
  have words : (w.frame user).reverse ++ [eip] = [user.esp - 4, UserImage.SYSENTER_RETURN,
      w.arg user 2 user.edx, w.arg user 1 user.ecx, UserImage.afterCall w] ++
        ((if 0 < w.args then [user.ebx] else []) ++ [user.ebp, eip]) := by
    unfold frame
    split <;> simp
  have length : (w.frame user).length = 6 + (if 0 < w.args then [user.ebx] else []).length := by
    unfold frame
    split <;> rfl
  rw [words] at holds
  rw [length] at apart ⊢
  generalize shape : (if 0 < w.args then [user.ebx] else []) = saves at *
  obtain ⟨-, -, edx, ecx, address, rest⟩ := holds
  have returned : (cpu.exec sysenterReturn).eip = UserImage.afterCall w := address
  have place : ∀ index, slot (cpu.esp + 4 + 4 + 4 + 4 + 4) index = slot cpu.esp (index + 5) := by
    intro index
    rw [slot_succ, slot_succ, slot_succ, slot_succ, slot_succ]
  have result := @exec_leave _ w (cpu.exec sysenterReturn) saves user.ebx user.ebp eip shape.symm rest
    fun index bound => by
      rw [exec_sysenterReturn]
      show slot (cpu.esp + 4 + 4 + 4 + 4 + 4) index ≠ _
      rw [place]
      exact apart _ (by omega)
  rw [back, if_pos landed, if_pos returned, result, exec_sysenterReturn]
  simp only [edx, ecx, place]
  have top : saves.length + 2 + 5 = 6 + saves.length + 1 := by omega
  rw [top]

end Wrapper

theorem frame_length (w : Wrapper) (cpu : Cpu) :
    6 ≤ (w.frame cpu).length ∧ (w.frame cpu).length ≤ 7 := by
  unfold Wrapper.frame
  split <;> simp

theorem frame_slot (w : Wrapper) (cpu : Cpu) (index : Nat) :
    slot (w.entering cpu).esp index = slot (cpu.esp - 28) (index + (7 - (w.frame cpu).length)) := by
  have top : slot (w.entering cpu).esp (w.frame cpu).length = cpu.esp := cpu.pushAll_esp (w.frame cpu)
  have length := frame_length w cpu
  rw [← top]
  generalize (w.entering cpu).esp = bottom
  generalize (w.frame cpu).length = count at length
  have few : count = 6 ∨ count = 7 := by omega
  rcases few with rfl | rfl
  · simp only [slot]
    bv_omega
  · simp only [slot]
    bv_omega

theorem entering_holds (w : Wrapper) (cpu : Cpu) : Holds (w.entering cpu).mem (w.entering cpu).esp
    ((w.frame cpu).reverse ++ [cpu.mem cpu.esp]) := by
  have length := frame_length w cpu
  have start : Holds cpu.mem cpu.esp [cpu.mem cpu.esp] := ⟨rfl, trivial⟩
  exact start.pushAll (w.frame cpu) (by simp only [List.length_singleton]; omega)

theorem entering_mem (w : Wrapper) (cpu : Cpu) {address : DWord}
    (outside : ∀ index < 7, address ≠ slot (cpu.esp - 28) index) :
    (w.entering cpu).mem address = cpu.mem address := by
  refine cpu.pushAll_mem (w.frame cpu) fun index bound => ?_
  have place := frame_slot w cpu index
  have length := frame_length w cpu
  have same : (w.entering cpu).esp = (cpu.pushAll (w.frame cpu)).esp := rfl
  rw [← same, place]
  exact outside _ (by omega)

section

variable [Image]

variable {w : Wrapper} {s returned after : State} {name : Service}

/-- The stack has room for the frames, and they are not where `errno` is. -/
structure HasRoom (cpu : Cpu) : Prop where
  room : L_USER_START + 28 ≤ cpu.esp.toNat
  errno : ∀ index < 8, slot (cpu.esp - 28) index ≠ UserImage.errno

structure Calls (s : State) : Prop extends HasRoom s.cpu where
  kernel : OnTop s

def Wrapper.entered (w : Wrapper) (s : State) : State :=
  { w.atSysenter s with
    cpu := (w.atSysenter s).entered.exec [.push (.imm Image.systemCallRet)] }

def OnFrames (s : State) (address : DWord) : Prop :=
  OnSaveArea s.esp0 address ∨ ∃ index < 7, address = slot (s.cpu.esp - 28) index

/-- The service returns as a C function does: to its return address, with its arguments
and what its callers have on both stacks as they were. -/
structure Obeys (w : Wrapper) (s entered returned : State) : Prop where
  eip : returned.cpu.eip = entered.cpu.mem entered.cpu.esp
  esp : returned.cpu.esp = entered.cpu.esp + 4
  saved : ∀ index < 16, returned.cpu.mem (slot (entered.cpu.esp + 4) index) =
    entered.cpu.mem (slot (entered.cpu.esp + 4) index)
  frame : ∀ index < (w.frame s.cpu).length + 1,
    returned.cpu.mem (slot (w.entering s.cpu).esp index) =
      entered.cpu.mem (slot (w.entering s.cpu).esp index)

/-- A C call of the wrapper from `s` to `after`, with the service from `entered` to `returned`. -/
structure RoundTrip (w : Wrapper) (s : State) (entered returned after : Cpu) : Prop where
  sees : Holds entered.mem (entered.esp + 4)
    ((List.range w.args).map fun index => s.cpu.mem (slot (s.cpu.esp + 4) index))
  eip : after.eip = s.cpu.mem s.cpu.esp
  esp : after.esp = s.cpu.esp + 4
  ebx : after.ebx = s.cpu.ebx
  esi : after.esi = s.cpu.esi
  edi : after.edi = s.cpu.edi
  ebp : after.ebp = s.cpu.ebp
  ds : after.ds = s.cpu.ds
  es : after.es = s.cpu.es
  fs : after.fs = s.cpu.fs
  gs : after.gs = s.cpu.gs
  eax : after.eax = if w.Fails returned.eax then -1 else returned.eax
  errno : w.Fails returned.eax → after.mem UserImage.errno = -returned.eax
  /-- The caller's stack, but for what the service itself writes to it. -/
  stack : ∀ address, s.cpu.esp.toNat ≤ address.toNat →
    returned.mem address = entered.mem address →
    (w.Fails returned.eax → address ≠ UserImage.errno) →
      after.mem address = s.cpu.mem address
  goingIn : ∀ address, ¬ OnFrames s address → entered.mem address = s.cpu.mem address
  comingOut : ∀ address, ¬ OnFrames s address →
    (w.Fails returned.eax → address ≠ UserImage.errno) →
      after.mem address = returned.mem address

omit [UserImage] in
theorem OnSaveArea.below {t : Task} {address : DWord} (on : OnSaveArea (taskAddr t PAGE_SIZE) address) :
    address.toNat < L_USER_START := by
  obtain ⟨index, bound, rfl⟩ := on
  have page := taskPage_lt t
  have bottom : taskAddr t PAGE_SIZE - 68 = taskAddr t (PAGE_SIZE - 68) :=
    taskAddr_sub t PAGE_SIZE 68 (by decide) (Nat.le_refl _)
  have place : slot (taskAddr t (PAGE_SIZE - 68)) index = taskAddr t (PAGE_SIZE - 68 + 4 * index) :=
    taskAddr_add t _ _ (by simp; omega)
  rw [bottom, place, taskAddr_toNat t (by simp; omega)]
  simp at page ⊢
  omega

omit [UserImage] in
theorem not_onFrames (kernel : OnTop s) (room : L_USER_START + 28 ≤ s.cpu.esp.toNat)
    {address : DWord} (above : s.cpu.esp.toNat ≤ address.toNat) : ¬ OnFrames s address := by
  rintro (on | ⟨index, bound, rfl⟩)
  · rw [kernel] at on
    have low := on.below
    omega
  · have stack := s.cpu.esp.isLt
    simp only [L_USER_START] at room
    rw [slot, BitVec.toNat_add, BitVec.toNat_sub, BitVec.toNat_ofNat] at above
    have words : (28 : DWord).toNat = 28 := rfl
    rw [words] at above
    omega

omit [Image] in
theorem HasRoom.user {cpu : Cpu} (hasRoom : HasRoom cpu) {index : Nat} (bound : index < 8) :
    L_USER_START ≤ (slot (cpu.esp - 28) index).toNat := by
  have room := hasRoom.room
  have stack := cpu.esp.isLt
  simp only [L_USER_START] at room ⊢
  rw [slot, BitVec.toNat_add, BitVec.toNat_sub, BitVec.toNat_ofNat]
  have words : (28 : DWord).toNat = 28 := rfl
  rw [words]
  omega

omit [Image] in
theorem HasRoom.errno_apart {cpu : Cpu} (hasRoom : HasRoom cpu) (w : Wrapper) {index : Nat}
    (bound : index < (w.frame cpu).length + 1) :
    slot (w.entering cpu).esp index ≠ UserImage.errno := by
  have length := frame_length w cpu
  rw [frame_slot]
  exact hasRoom.errno _ (by omega)

omit [Image] in
theorem frame_top (w : Wrapper) (cpu : Cpu) :
    slot (w.entering cpu).esp ((w.frame cpu).length + 1) = cpu.esp + 4 := by
  have bottom := cpu.pushAll_esp (w.frame cpu)
  rw [← bottom, slot, slot, Nat.mul_add, BitVec.ofNat_add, BitVec.add_assoc]
  rfl

theorem Calls.above (calls : Calls s) {index : Nat} (bound : index < 8) :
    ¬ OnSaveArea s.esp0 (slot (s.cpu.esp - 28) index) := by
  intro on
  rw [calls.kernel] at on
  have low := on.below
  have high := calls.user bound
  omega

omit [Image] in
theorem atSysenter_cpu (few : w.args ≤ 3) : (w.atSysenter s).cpu = w.entering s.cpu :=
  Wrapper.exec_enter few

/-- The handler finds the address `syscall_sysenter` pushed. -/
theorem Calls.returnWord (calls : Calls s) (few : w.args ≤ 3) :
    Zeos.returnWord (w.atSysenter s).sysenter.cpu = UserImage.SYSENTER_RETURN := by
  have length := frame_length w s.cpu
  have holds := entering_holds w s.cpu
  have place : (w.entering s.cpu).esp + 4 = slot (s.cpu.esp - 28) (1 + (7 - (w.frame s.cpu).length)) := by
    rw [← frame_slot]
    rfl
  have outside := calls.above (show 1 + (7 - (w.frame s.cpu).length) < 8 by omega)
  have word : (w.entering s.cpu).mem ((w.entering s.cpu).esp + 4) = UserImage.SYSENTER_RETURN := by
    unfold Wrapper.frame at holds
    rw [List.reverse_append] at holds
    exact holds.2.1
  have base : (w.atSysenter s).sysenter.cpu.ebp = (w.entering s.cpu).esp := by
    rw [State.sysenter, atSysenter_cpu few]
    rfl
  have mem : (w.atSysenter s).sysenter.cpu.mem = (w.entering s.cpu).mem := by
    rw [State.sysenter, atSysenter_cpu few]
  have top : (w.atSysenter s).sysenter.cpu.esp = s.esp0 := rfl
  generalize (w.atSysenter s).sysenter.cpu = cpu at base mem top ⊢
  rw [← place] at outside
  rw [returnWord_eq cpu, mem, base, word]
  intro index bound same
  refine outside ⟨index + 13, by omega, ?_⟩
  rw [← base, same, top]
  simp only [slot]
  bv_omega

/-- What the service is called with: its return address, the save area, and the memory
of the process. -/
theorem Calls.entered_spec (calls : Calls s) (few : w.args ≤ 3) :
    (w.entered s).cpu.mem (w.entered s).cpu.esp = Image.systemCallRet ∧
      Holds (w.entered s).cpu.mem ((w.entered s).cpu.esp + 4)
        (savedArea (w.atSysenter s).sysenter.cpu UserImage.SYSENTER_RETURN).words ∧
      slot ((w.entered s).cpu.esp + 4) 16 = s.esp0 ∧
      ∀ address, ¬ OnSaveArea s.esp0 address →
        (w.entered s).cpu.mem address = (w.entering s.cpu).mem address := by
  obtain ⟨saved, place, _, others⟩ := Zeos.entered_spec (w.atSysenter s)
  have place : slot (w.atSysenter s).entered.esp 16 = s.esp0 := place
  have shape : (w.entered s).cpu = (w.atSysenter s).entered.pushAll [Image.systemCallRet] := rfl
  rw [calls.returnWord few] at saved
  rw [atSysenter_cpu few] at others
  rw [shape]
  generalize (w.atSysenter s).entered = cpu at saved place others ⊢
  have called := saved.pushAll [Image.systemCallRet] (by simp [SaveArea.words])
  have back : (cpu.pushAll [Image.systemCallRet]).esp + 4 = cpu.esp := BitVec.sub_add_cancel _ _
  obtain ⟨below, area⟩ := onSaveArea_slot place
  refine ⟨called.1, called.2, by rw [back]; exact place, fun address outside => ?_⟩
  refine (Function.update_of_ne ?_ ..).trans (others address fun index bound same => outside ?_)
  · rintro rfl
    exact outside below
  · rw [same]
    exact area index bound

/-- What the process has at `sysenter`, as `SAVE_ALL` saves it. -/
def Wrapper.area (w : Wrapper) (s : State) : SaveArea where
  ebx := w.arg s.cpu 0 s.cpu.ebx
  ecx := w.arg s.cpu 1 s.cpu.ecx
  edx := w.arg s.cpu 2 s.cpu.edx
  esi := s.cpu.esi
  edi := s.cpu.edi
  ebp := (w.entering s.cpu).esp
  eax := w.number
  ds := s.cpu.ds
  es := s.cpu.es
  fs := s.cpu.fs
  gs := s.cpu.gs
  eip := UserImage.SYSENTER_RETURN
  cs := USER_CS
  eflags := s.cpu.eflags &&& ~~~0x200
  oldesp := (w.entering s.cpu).esp
  oldss := USER_DS

omit [Image] in
theorem savedArea_atSysenter (few : w.args ≤ 3) :
    savedArea (w.atSysenter s).sysenter.cpu UserImage.SYSENTER_RETURN = w.area s := by
  have registers := s.cpu.pushAll_eq (w.frame s.cpu)
  have start := @atSysenter_cpu _ w s few
  have flags : (w.atSysenter s).sysenter.cpu = { (w.atSysenter s).cpu with
    cs := KERNEL_CS, ss := KERNEL_DS, esp := s.esp0
    eflags := (w.atSysenter s).cpu.eflags &&& ~~~0x200 } := rfl
  rw [flags, start, Wrapper.area, Wrapper.entering]
  generalize s.cpu.pushAll (w.frame s.cpu) = pushed at registers ⊢
  rw [registers]
  rfl

theorem Calls.sees (calls : Calls s) (few : w.args ≤ 3) :
    Holds (w.entered s).cpu.mem ((w.entered s).cpu.esp + 4)
      ((List.range w.args).map fun index => s.cpu.mem (slot (s.cpu.esp + 4) index)) := by
  obtain ⟨_, saved, _⟩ := calls.entered_spec few
  rw [savedArea_atSysenter few] at saved
  obtain ⟨first, second, third, -⟩ := saved
  change _ = w.arg s.cpu 0 _ at first
  change _ = w.arg s.cpu 1 _ at second
  change _ = w.arg s.cpu 2 _ at third
  generalize (w.entered s).cpu = cpu at *
  unfold Wrapper.arg at first second third
  obtain ⟨number, args, tests⟩ := w
  have count : args = 0 ∨ args = 1 ∨ args = 2 ∨ args = 3 := by
    simp only at few
    omega
  rcases count with rfl | rfl | rfl | rfl
  · exact trivial
  · exact ⟨first, trivial⟩
  · exact ⟨first, second, trivial⟩
  · exact ⟨first, second, third, trivial⟩

/-- In user mode again, with the result in EAX and the frame of `syscall_sysenter` on top. -/
theorem Calls.landed (calls : Calls s) (few : w.args ≤ 3)
    (obeys : Obeys w s (w.entered s) returned) :
    ∃ eflags place, OnSaveArea s.esp0 place ∧ returned.serviceReturn = { returned with
      cpu := (w.area s).resume returned.cpu.eax eflags
        (Function.update returned.cpu.mem place returned.cpu.eax) } := by
  obtain ⟨address, saved, top, _⟩ := calls.entered_spec few
  rw [savedArea_atSysenter few] at saved
  have kept : Holds returned.cpu.mem returned.cpu.esp (w.area s).words := by
    rw [obeys.esp]
    exact saved.congr obeys.saved
  have back := exec_sysenterFin returned.cpu kept
  have arrived : returned.cpu.eip = Image.systemCallRet := obeys.eip.trans address
  refine ⟨returned.cpu.eflags ||| 0x200, slot returned.cpu.esp 6, ?_, ?_⟩
  · rw [obeys.esp]
    exact (onSaveArea_slot top).2 6 (by decide)
  · rw [State.serviceReturn, if_pos arrived]
    exact congrArg (fun cpu => { returned with cpu := cpu }) back

theorem Calls.frame_kept (calls : Calls s) (few : w.args ≤ 3)
    (obeys : Obeys w s (w.entered s) returned) :
    Holds returned.cpu.mem (w.entering s.cpu).esp
      ((w.frame s.cpu).reverse ++ [s.cpu.mem s.cpu.esp]) := by
  obtain ⟨_, _, _, others⟩ := calls.entered_spec few
  have length := frame_length w s.cpu
  refine (entering_holds w s.cpu).congr fun index bound => ?_
  rw [List.length_append, List.length_reverse, List.length_singleton] at bound
  refine (obeys.frame index bound).trans (others _ ?_)
  rw [frame_slot]
  exact calls.above (by omega)

theorem Calls.back (calls : Calls s) (few : w.args ≤ 3)
    (obeys : Obeys w s (w.entered s) returned) : ∃ eflags place, OnSaveArea s.esp0 place ∧
      w.back returned.serviceReturn.cpu =
        { (w.area s).resume returned.cpu.eax eflags
            (Function.update returned.cpu.mem place returned.cpu.eax) with
          ecx := w.arg s.cpu 1 s.cpu.ecx, edx := w.arg s.cpu 2 s.cpu.edx
          ebx := s.cpu.ebx, ebp := s.cpu.ebp, eip := s.cpu.mem s.cpu.esp, esp := s.cpu.esp + 4
          eax := if w.Fails returned.cpu.eax then -1 else returned.cpu.eax
          mem := if w.Fails returned.cpu.eax then Function.update
              (Function.update returned.cpu.mem place returned.cpu.eax) UserImage.errno
                (-returned.cpu.eax)
            else Function.update returned.cpu.mem place returned.cpu.eax } := by
  obtain ⟨eflags, place, onArea, landed⟩ := calls.landed few obeys
  refine ⟨eflags, place, onArea, ?_⟩
  have length := frame_length w s.cpu
  have apart : ∀ index < (w.frame s.cpu).length + 1, slot (w.entering s.cpu).esp index ≠ place := by
    intro index bound same
    rw [frame_slot] at same
    rw [← same] at onArea
    exact calls.above (by omega) onArea
  have ebx : (if 0 < w.args then s.cpu.ebx else w.arg s.cpu 0 s.cpu.ebx) = s.cpu.ebx := by
    unfold Wrapper.arg
    split
    · rfl
    · rfl
  have holds : Holds (Function.update returned.cpu.mem place returned.cpu.eax) (w.entering s.cpu).esp
      ((w.frame s.cpu).reverse ++ [s.cpu.mem s.cpu.esp]) :=
    (calls.frame_kept few obeys).congr fun index bound =>
      Function.update_of_ne (apart index (by simpa using bound)) ..
  generalize Function.update returned.cpu.mem place returned.cpu.eax = mem at landed holds ⊢
  have result := @Wrapper.back_spec _ w s.cpu
    ((w.area s).resume returned.cpu.eax eflags mem) _ rfl holds fun index bound => calls.errno_apart w bound
  have bottom : ((w.area s).resume returned.cpu.eax eflags mem).esp = (w.entering s.cpu).esp := rfl
  have first : ((w.area s).resume returned.cpu.eax eflags mem).ebx = w.arg s.cpu 0 s.cpu.ebx := rfl
  rw [bottom, frame_top, first, ebx] at result
  rw [landed]
  exact result

theorem Calls.roundTrip (calls : Calls s) (few : w.args ≤ 3)
    (obeys : Obeys w s (w.entered s) returned) :
    RoundTrip w s (w.entered s).cpu returned.cpu (w.back returned.serviceReturn.cpu) := by
  obtain ⟨_, _, _, others⟩ := calls.entered_spec few
  obtain ⟨eflags, place, onArea, result⟩ := calls.back few obeys
  have goingIn : ∀ address, ¬ OnFrames s address →
      (w.entered s).cpu.mem address = s.cpu.mem address := by
    intro address off
    refine (others address fun on => off (.inl on)).trans (entering_mem w s.cpu ?_)
    exact fun index bound same => off (.inr ⟨index, bound, same⟩)
  have comingOut : ∀ address, ¬ OnFrames s address →
      (w.Fails returned.cpu.eax → address ≠ UserImage.errno) →
        (w.back returned.serviceReturn.cpu).mem address = returned.cpu.mem address := by
    intro address off apart
    have stored : Function.update returned.cpu.mem place returned.cpu.eax address =
        returned.cpu.mem address := by
      refine Function.update_of_ne ?_ ..
      rintro rfl
      exact off (.inl onArea)
    rw [result]
    dsimp only
    split
    · rename_i fails
      exact (Function.update_of_ne (apart fails) ..).trans stored
    · exact stored
  refine ⟨calls.sees few, ?_, ?_, ?_, ?_, ?_, ?_, ?_, ?_, ?_, ?_, ?_, ?_, ?_, goingIn, comingOut⟩
  case refine_13 =>
    intro address above same apart
    have off := not_onFrames calls.kernel calls.room above
    exact (comingOut address off apart).trans (same.trans (goingIn address off))
  case refine_12 =>
    intro fails
    rw [result]
    dsimp only
    rw [if_pos fails]
    exact Function.update_self ..
  all_goals rw [result]
  all_goals rfl

def Wrapper.services : List (Wrapper × Service) :=
  [(.write, .sysWrite), (.read, .sysRead), (.setSchedPolicy, .sysSetSchedPolicy),
    (.gettime, .sysGettime), (.getpid, .sysGetpid), (.fork, .sysFork), (.exit, .sysExit),
    (.yield, .sysYield), (.getStats, .sysGetStats)]

omit [UserImage] [Image] in
theorem services_number (pair : (w, name) ∈ Wrapper.services) : w.args ≤ 3 ∧
    dispatch w.number = .call name ∧ name ≠ .sysNiSyscall := by
  have each : ∀ pair ∈ Wrapper.services, pair.1.args ≤ 3 ∧
      dispatch pair.1.number = .call pair.2 ∧ pair.2 ≠ .sysNiSyscall := by decide
  exact each _ pair

theorem handler_enters (pair : (w, name) ∈ Wrapper.services) :
    (w.atSysenter s).systemCallPushed = .service name (w.entered s) := by
  obtain ⟨few, dispatched, real⟩ := services_number pair
  have number : (w.atSysenter s).cpu.eax = w.number := by
    rw [atSysenter_cpu few]
    rfl
  rw [systemCallPushed_eq, number, dispatched]
  cases name with
  | sysNiSyscall => exact absurd rfl real
  | _ => rfl

theorem call_eq (pair : (w, name) ∈ Wrapper.services) (services : Service → State → State) :
    (w.call services s).cpu = w.back (services name (w.entered s)).serviceReturn.cpu := by
  rw [Wrapper.call, handler_enters pair]

/-- In every reachable state and for every processor, a wrapper takes its C arguments to
its service and the result back, if the service obeys. -/
theorem system_call_round_trip {installed : Installed} {memory : State}
    (reachable : (kernel installed memory).Reachable s) (cpu : Cpu) (hasRoom : HasRoom cpu)
    (pair : (w, name) ∈ Wrapper.services) (services : Service → State → State)
    (obeys : Obeys w { s with cpu := cpu } (w.entered { s with cpu := cpu })
      (services name (w.entered { s with cpu := cpu }))) :
    (w.atSysenter { s with cpu := cpu }).systemCallPushed =
        .service name (w.entered { s with cpu := cpu }) ∧
      RoundTrip w { s with cpu := cpu } (w.entered { s with cpu := cpu }).cpu
        (services name (w.entered { s with cpu := cpu })).cpu
        (w.call services { s with cpu := cpu }).cpu := by
  have top := onTop_of_reachable reachable
  have calls : Calls { s with cpu := cpu } := ⟨hasRoom, top⟩
  obtain ⟨few, _⟩ := services_number pair
  rw [call_eq pair]
  exact ⟨handler_enters pair, calls.roundTrip few obeys⟩

end

end

abbrev UserImage.sample : UserImage where
  SYSENTER_RETURN := 0x100100
  errno := 0x11C000
  afterCall _ := 0x100200

def returning (result : DWord) (s : State) : State :=
  { s with cpu := { s.cpu with eax := result }.exec [.ret] }

theorem returning_obeys [Image] [UserImage] (w : Wrapper) (s : State) (result : DWord) :
    Obeys w s (w.entered s) (returning result (w.entered s)) := by
  generalize w.entered s = entered
  exact ⟨rfl, rfl, fun _ _ => rfl, fun _ _ => rfl⟩

def callsWrapper : Cpu := { State.blank.cpu with esp := 0x11F000 }

theorem callsWrapper_hasRoom : @HasRoom UserImage.sample callsWrapper := by
  refine @HasRoom.mk UserImage.sample _ (by decide) ?_
  decide

/-- A `write` that is refused gives -1 and EBADF. -/
theorem refused_write_round_trip :
    (@Wrapper.call UserImage.sample Image.sample .write (fun _ => returning (-9))
        { sampleBoot with cpu := callsWrapper }).cpu.eax = -1 ∧
      (@Wrapper.call UserImage.sample Image.sample .write (fun _ => returning (-9))
        { sampleBoot with cpu := callsWrapper }).cpu.mem 0x11C000 = 9 := by
  have obeys := @returning_obeys Image.sample UserImage.sample .write
    { sampleBoot with cpu := callsWrapper } (-9)
  obtain ⟨_, trip⟩ := @system_call_round_trip UserImage.sample Image.sample .write sampleBoot .sysWrite
    .RR State.blank (.initial rfl) callsWrapper callsWrapper_hasRoom (by decide) (fun _ => returning (-9)) obeys
  have fails : Wrapper.write.Fails (-9) := by decide
  have eax := @RoundTrip.eax UserImage.sample _ _ _ _ _ trip
  have errno := @RoundTrip.errno UserImage.sample _ _ _ _ _ trip
  generalize @Wrapper.call UserImage.sample Image.sample .write (fun _ => returning (-9))
    { sampleBoot with cpu := callsWrapper } = after at eax errno ⊢
  have result : ∀ entered, (returning (-9) entered).cpu.eax = -9 := fun _ => rfl
  rw [result] at eax errno
  exact ⟨eax.trans (if_pos fails), errno fails⟩

end Zeos
