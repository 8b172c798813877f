import Zeos.Kernel.System
import Zeos.Syscall.SaveArea

/-!
# Dispatch of system calls

`system_call_handler` compares EAX with the number of entries of the table where
it should compare with the last index, so one value calls through the word after
the table. For every other value the call is in bounds, and what is not a service
is refused. Before that it pushes the word above the EBP it is passed, and faults if
nothing is mapped there.
-/

namespace Zeos

open Library Library.X86

def Implemented (eax : DWord) : Prop :=
  ∃ service, sysCallTable[eax.toNat]? = some service ∧ service ≠ .sysNiSyscall

/-- The words `system_call_handler` and its call may write: those below `top`. -/
def OnSaveArea (top address : DWord) : Prop := ∃ index < 17, address = slot (top - 68) index

/-- Back in user mode with `-ENOSYS`, the registers and the stack pointer as at entry, and
nothing of the kernel changed. -/
structure Refused (s after : State) : Prop where
  eax : after.cpu.eax = -ENOSYS
  ebx : after.cpu.ebx = s.cpu.ebx
  esi : after.cpu.esi = s.cpu.esi
  edi : after.cpu.edi = s.cpu.edi
  ebp : after.cpu.ebp = s.cpu.ebp
  esp : after.cpu.esp = s.cpu.esp
  same : after = { s with cpu := after.cpu }
  memory : ∀ address, ¬ OnSaveArea s.esp0 address → after.cpu.mem address = s.cpu.mem address

theorem slt_zero_iff (eax : DWord) : eax.slt 0 = true ↔ 2 ^ 31 ≤ eax.toNat := by
  rw [BitVec.slt_iff_toInt_lt, BitVec.toInt_eq_toNat_cond]
  have := eax.isLt
  simp
  omega

theorem max_slt_iff (eax : DWord) :
    MAX_SYSCALL.slt eax = true ↔ 36 < eax.toNat ∧ eax.toNat < 2 ^ 31 := by
  rw [BitVec.slt_iff_toInt_lt, BitVec.toInt_eq_toNat_cond eax]
  have := eax.isLt
  have max : MAX_SYSCALL.toInt = 36 := by decide
  rw [max]
  split <;> omega

theorem dispatch_eq (eax : DWord) : dispatch eax =
    match sysCallTable[eax.toNat]? with
    | some service => .call service
    | none => if eax = MAX_SYSCALL then .outside eax.toNat else .sysenterErr := by
  have negative := slt_zero_iff eax
  have above := max_slt_iff eax
  have bits := eax.isLt
  have length : sysCallTable.length = 36 := rfl
  unfold dispatch
  cases entry : sysCallTable[eax.toNat]? with
  | some service =>
      have inside := (List.getElem?_eq_some_iff.mp entry).1
      rw [if_neg (by rw [negative]; omega), if_neg (by rw [above]; omega)]
  | none =>
      have outside := List.getElem?_eq_none_iff.mp entry
      by_cases isMax : eax = MAX_SYSCALL
      · subst isMax
        rfl
      · have apart : eax.toNat ≠ 36 := fun same => isMax (BitVec.eq_of_toNat_eq same)
        rw [if_neg isMax]
        by_cases big : 2 ^ 31 ≤ eax.toNat
        · rw [if_pos (negative.mpr big)]
        · rw [if_neg (by rw [negative]; exact big), if_pos (above.mpr (by omega))]

section

variable [Image]

/-- The call goes through an entry of the table or is refused, and what is not a
service is refused. -/
structure Dispatched (s : State) : Prop where
  bounded : (∃ after, s.systemCallHandler = .user after ∧ after.cpu.eax = -ENOSYS) ∨
    ∃ service entered, s.systemCallHandler = .service service entered ∧
      sysCallTable[s.cpu.eax.toNat]? = some service
  refused : ¬ Implemented s.cpu.eax → ∃ after, s.systemCallHandler = .user after ∧ Refused s after

variable {s : State}

def State.entered (s : State) : Cpu := s.sysenter.cpu.exec systemCallEnter

omit [Image] in
theorem entered_spec (s : State) :
    Holds s.entered.mem s.entered.esp
        (savedArea s.sysenter.cpu (returnWord s.sysenter.cpu)).words ∧
      slot s.entered.esp 16 = s.esp0 ∧ s.entered.eax = s.cpu.eax ∧
      ∀ address, (∀ index < 16, address ≠ slot s.entered.esp index) →
        s.entered.mem address = s.cpu.mem address := by
  have entered := exec_systemCallEnter s.sysenter.cpu
  generalize returnWord s.sysenter.cpu = eip at entered ⊢
  have empty : Holds s.sysenter.cpu.mem s.sysenter.cpu.esp [] := trivial
  have saved := empty.pushAll (savedArea s.sysenter.cpu eip).words.reverse
    (by simp [SaveArea.words])
  have place := s.sysenter.cpu.pushAll_esp (savedArea s.sysenter.cpu eip).words.reverse
  have eax := congrArg Cpu.eax
    (s.sysenter.cpu.pushAll_eq (savedArea s.sysenter.cpu eip).words.reverse)
  have others := fun address =>
    @Cpu.pushAll_mem s.sysenter.cpu (savedArea s.sysenter.cpu eip).words.reverse address
  rw [List.reverse_reverse, List.append_nil] at saved
  rw [State.entered, entered]
  exact ⟨saved, place, eax, others⟩

omit [Image] in
theorem onSaveArea_slot {esp top : DWord} (place : slot esp 16 = top) :
    OnSaveArea top (esp - 4) ∧ ∀ index < 16, OnSaveArea top (slot esp index) := by
  have bottom : top - 68 = esp - 4 := by
    rw [← place, slot]
    bv_omega
  refine ⟨⟨0, by decide, by rw [bottom, slot_zero]⟩, fun index bound => ?_⟩
  refine ⟨index + 1, by omega, ?_⟩
  rw [bottom, ← slot_succ, BitVec.sub_add_cancel]

omit [Image] in
/-- Through `sysenter_fin` with `-ENOSYS`, on the stack that EBP points at. -/
theorem refused_of_saved {cpu : Cpu} {eip : DWord}
    (saved : Holds cpu.mem cpu.esp (savedArea s.sysenter.cpu eip).words)
    (place : slot cpu.esp 16 = s.esp0)
    (others : ∀ address, ¬ OnSaveArea s.esp0 address → cpu.mem address = s.cpu.mem address) :
    (State.sysenterFin { s with cpu := cpu } (-ENOSYS)).cpu.eax = -ENOSYS ∧
      (Refused s (State.sysenterFin { s with cpu := cpu } (-ENOSYS)) ↔ s.cpu.ebp = s.cpu.esp) := by
  have back := exec_sysenterFin { cpu with eax := -ENOSYS } saved
  have result : (State.sysenterFin { s with cpu := cpu } (-ENOSYS)).cpu = _ := back
  refine ⟨by rw [result]; rfl, fun refused => ?_, fun pointer => ?_⟩
  · have esp := refused.esp
    rw [result] at esp
    exact esp
  · refine ⟨?_, ?_, ?_, ?_, ?_, ?_, rfl, fun address outside => ?_⟩
    all_goals rw [result]
    · rfl
    · rfl
    · rfl
    · rfl
    · rfl
    · exact pointer
    · refine (Function.update_of_ne ?_ ..).trans (others address outside)
      rintro rfl
      exact outside ((onSaveArea_slot place).2 6 (by decide))

omit [Image] in
theorem refused_error :
    (State.sysenterFin { s with cpu := s.entered } (-ENOSYS)).cpu.eax = -ENOSYS ∧
      (Refused s (State.sysenterFin { s with cpu := s.entered } (-ENOSYS)) ↔
        s.cpu.ebp = s.cpu.esp) := by
  obtain ⟨saved, place, _, others⟩ := entered_spec s
  refine refused_of_saved saved place fun address outside => ?_
  refine others address fun index bound same => outside ?_
  rw [same]
  exact (onSaveArea_slot place).2 index bound

theorem callNiSyscall_eq (s : State) (cpu : Cpu) : ∃ eip,
    State.callNiSyscall { s with cpu := cpu } = { s with
      cpu := { cpu with
        eax := -ENOSYS, esp := cpu.esp - 4 + 4, eip := eip
        mem := (cpu.pushAll [Image.systemCallRet]).mem } } := ⟨_, rfl⟩

theorem refused_niSyscall :
    (State.sysenterFin (State.callNiSyscall { s with cpu := s.entered }) (-ENOSYS)).cpu.eax =
        -ENOSYS ∧
      (Refused s (State.sysenterFin (State.callNiSyscall { s with cpu := s.entered }) (-ENOSYS)) ↔
        s.cpu.ebp = s.cpu.esp) := by
  obtain ⟨saved, place, _, others⟩ := entered_spec s
  generalize s.entered = cpu at *
  obtain ⟨next, result⟩ := callNiSyscall_eq s cpu
  have called := saved.pushAll [Image.systemCallRet] (by simp [SaveArea.words])
  have back : cpu.esp - 4 + 4 = cpu.esp := BitVec.sub_add_cancel _ _
  rw [result]
  refine refused_of_saved called.2 (by rw [back]; exact place) fun address outside => ?_
  obtain ⟨below, area⟩ := onSaveArea_slot place
  refine (Function.update_of_ne ?_ ..).trans (others address fun index bound => ?_)
  · rintro rfl
    exact outside below
  · rintro rfl
    exact outside (area index bound)

theorem systemCallPushed_eq (s : State) : s.systemCallPushed =
    match dispatch s.cpu.eax with
    | .sysenterErr => .user (State.sysenterFin { s with cpu := s.entered } (-ENOSYS))
    | .call .sysNiSyscall =>
        .user (State.sysenterFin (State.callNiSyscall { s with cpu := s.entered }) (-ENOSYS))
    | .call service =>
        .service service { s with cpu := s.entered.exec [.push (.imm Image.systemCallRet)] }
    | .outside slot =>
        .outside slot { s with cpu := s.entered.exec [.push (.imm Image.systemCallRet)] } := by
  obtain ⟨_, _, eax, _⟩ := entered_spec s
  have number : (s.sysenter.cpu.exec systemCallEnter).eax = s.cpu.eax := eax
  unfold State.systemCallPushed
  simp only [number]
  cases dispatch s.cpu.eax with
  | sysenterErr => rfl
  | call service => cases service <;> rfl
  | outside slot => rfl

theorem pushed_goes_on (s : State) : s.systemCallPushed ≠ .fault := by
  rw [systemCallPushed_eq]
  cases dispatch s.cpu.eax with
  | sysenterErr => exact nofun
  | call service => cases service <;> exact nofun
  | outside slot => exact nofun

theorem handler_of_readable (readable : s.Readable (s.cpu.ebp + 4)) :
    s.systemCallHandler = s.systemCallPushed := if_pos readable

theorem Dispatched.readable (dispatched : Dispatched s) : s.Readable (s.cpu.ebp + 4) := by
  by_contra unreadable
  have faults : s.systemCallHandler = .fault := if_neg unreadable
  rcases dispatched.bounded with ⟨after, user, _⟩ | ⟨service, entered, called, _⟩
  · exact absurd (faults.symm.trans user) nofun
  · exact absurd (faults.symm.trans called) nofun

/-- With the number of entries in EAX the call goes through the word after the table. -/
theorem not_dispatched_of_max (isMax : s.cpu.eax = MAX_SYSCALL) : ¬ Dispatched s := by
  intro dispatched
  have handler := systemCallPushed_eq s
  have outside : dispatch s.cpu.eax = .outside 36 := by
    rw [isMax]
    rfl
  rw [outside, ← handler_of_readable dispatched.readable] at handler
  rcases dispatched.bounded with ⟨after, user, _⟩ | ⟨service, entered, called, _⟩
  · exact absurd (handler.symm.trans user) nofun
  · exact absurd (handler.symm.trans called) nofun

/-- What is no service is sent back with `-ENOSYS`, on the stack that EBP points at. -/
theorem handler_sendsBack (readable : s.Readable (s.cpu.ebp + 4)) (notMax : s.cpu.eax ≠ MAX_SYSCALL)
    (unknown : ¬ Implemented s.cpu.eax) : ∃ after, s.systemCallHandler = .user after ∧
      after.cpu.eax = -ENOSYS ∧ (Refused s after ↔ s.cpu.ebp = s.cpu.esp) := by
  have handler := systemCallPushed_eq s
  rw [dispatch_eq, ← handler_of_readable readable] at handler
  cases entry : sysCallTable[s.cpu.eax.toNat]? with
  | none =>
      simp only [entry, if_neg notMax] at handler
      exact ⟨_, handler, refused_error⟩
  | some service =>
      obtain rfl : service = .sysNiSyscall := by
        by_contra real
        exact unknown ⟨service, entry, real⟩
      simp only [entry] at handler
      exact ⟨_, handler, refused_niSyscall⟩

theorem handler_calls (readable : s.Readable (s.cpu.ebp + 4)) {service : Service}
    (entry : sysCallTable[s.cpu.eax.toNat]? = some service) (real : service ≠ .sysNiSyscall) :
    ∃ entered, s.systemCallHandler = .service service entered := by
  have handler := systemCallPushed_eq s
  rw [dispatch_eq, ← handler_of_readable readable] at handler
  rw [handler, entry]
  cases service with
  | sysNiSyscall => exact absurd rfl real
  | _ => exact ⟨_, rfl⟩

/-- The handler refuses or calls through the table for every value of EAX but one, if the
word above the one EBP points at can be read. What it refuses it sends back to where it came
from if EBP holds the stack pointer, as `syscall_sysenter` has it. -/
theorem dispatched_iff (s : State) : Dispatched s ↔ s.Readable (s.cpu.ebp + 4) ∧
    s.cpu.eax ≠ MAX_SYSCALL ∧ (Implemented s.cpu.eax ∨ s.cpu.ebp = s.cpu.esp) := by
  constructor
  · intro dispatched
    have readable := dispatched.readable
    have notMax : s.cpu.eax ≠ MAX_SYSCALL := fun isMax => not_dispatched_of_max isMax dispatched
    refine ⟨readable, notMax, or_iff_not_imp_left.mpr fun unknown => ?_⟩
    obtain ⟨after, handler, _, exactly⟩ := handler_sendsBack readable notMax unknown
    obtain ⟨other, same, refused⟩ := dispatched.refused unknown
    obtain rfl := Outcome.user.inj (handler.symm.trans same)
    exact exactly.mp refused
  · rintro ⟨readable, notMax, known⟩
    by_cases unknown : Implemented s.cpu.eax
    · obtain ⟨service, entry, real⟩ := unknown
      obtain ⟨entered, result⟩ := handler_calls readable entry real
      exact ⟨.inr ⟨service, entered, result, entry⟩, fun unknown => absurd ⟨service, entry, real⟩ unknown⟩
    · obtain ⟨after, handler, eax, exactly⟩ := handler_sendsBack readable notMax unknown
      exact ⟨.inl ⟨after, handler, eax⟩,
        fun _ => ⟨after, handler, exactly.mpr (known.resolve_left unknown)⟩⟩

end

/-- The first process of the sample with `MAX_SYSCALL` in EAX, on its own stack. -/
def callsPastTable : State :=
  { sampleBoot with cpu := { sampleBoot.cpu with
      eax := MAX_SYSCALL, ebp := 0x11BFE0, esp := 0x11BFE0 } }

/-- Nothing but the number is wrong with the call. -/
theorem not_dispatched_callsPastTable :
    callsPastTable.Readable (callsPastTable.cpu.ebp + 4) ∧
      callsPastTable.cpu.ebp = callsPastTable.cpu.esp ∧
        ¬ @Dispatched Image.sample callsPastTable :=
  ⟨by decide +kernel, rfl, @not_dispatched_of_max Image.sample callsPastTable rfl⟩

end Zeos
