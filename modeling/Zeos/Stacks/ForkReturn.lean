import Zeos.Stacks.Runs
import Zeos.Syscall.SaveArea

/-!
# `sys_fork` returns twice

A child waits, untouched, until it is first dispatched. The frame `sys_fork` built
then takes it through `ret_from_fork` to where its parent's `sys_fork` returns, over
the same save area.
-/

namespace Zeos

open Library Library.X86

section

variable [Image]

variable {installed : Installed} {memory s middle after : State} {queues later : Queues} {op : Op}
  {code : Nat → Nat} {back : Prop} {t child new : Task} {depth below above : Nat}

/-- The task is not touched, and a switch to it finds what it waits for. -/
structure Passes (s after : State) (t : Task) : Prop where
  untouched : Untouched s after t
  dispatched : Resumable s t → after.current = t →
    ReturnsTo t (s.saved t) after.cpu

theorem Passes.after_untouched (passes : Passes middle after t) (first : Untouched s middle t) :
    Passes s after t where
  untouched := first.trans passes.untouched
  dispatched resumable current := by
    rw [← first.saved]
    exact passes.dispatched (resumable.congr first) current

theorem Untouched.passes (untouched : Untouched s after t) (off : t ≠ after.current) :
    Passes s after t := ⟨untouched, fun _ current => absurd current.symm off⟩

theorem State.Quiet.passes (quiet : s.Quiet after) (off : t ≠ s.current) : Passes s after t :=
  (quiet.untouched t).passes (by rwa [quiet.current])

theorem AtSite.passes (site : AtSite s depth) (new : Task) (off : t ≠ s.current) :
    Passes s (s.taskSwitch new) t := by
  refine ⟨site.untouched new off, fun resumable dispatched => ?_⟩
  have whole := taskSwitch_spec s new
  generalize s.taskSwitch new = after at *
  obtain ⟨argument, spec⟩ := whole
  obtain rfl : new = t := spec.current.symm.trans dispatched
  obtain ⟨body, landed⟩ := spec.cpu
  rw [landed]
  exact resumable.returns (site.pushed_mem new argument (Ne.symm off))

theorem HandsOver.passes (handsOver : HandsOver installed back s after later)
    (site : AtSite s depth) (off : t ≠ s.current) : Passes s after t := by
  obtain ⟨middle, new, quiet, _, _, result⟩ := handsOver
  rw [result]
  exact ((site.quiet quiet).passes new (by rwa [quiet.current])).after_untouched (quiet.untouched t)

theorem Leaves.passes (leaves : Leaves installed s queues later after)
    (site : AtSite s depth) (off : t ≠ s.current) : Passes s after t := by
  rcases leaves.2 with quiet | handsOver
  · exact quiet.passes off
  · exact handsOver.passes site off

theorem Exits.passes (exits : Exits s queues later after)
    (site : AtSite s depth) (off : t ≠ s.current) : Passes s after t := by
  obtain ⟨_, middle, new, quiet, _, result⟩ := exits
  have freed : AtSite { s with mm := exitMemory s } depth := ⟨site.esp, site.room, site.fits⟩
  have apart : t ≠ middle.current := by rwa [quiet.current]
  have kept : Untouched s { s with mm := exitMemory s } t := ⟨rfl, rfl, fun _ _ _ => rfl⟩
  rw [result]
  exact ((freed.quiet quiet).passes new apart).after_untouched (kept.trans (quiet.untouched t))

theorem Spaced.passes (spaced : Spaced code s queues) (sched : Sched installed s queues)
    (enabled : s.Enabled op) (effect : Effect installed s queues later after op)
    (notFree : t ∉ queues.on .freequeue) (off : t ≠ s.current) :
    t ∉ later.on .freequeue ∧ Passes s after t := by
  have remains : SameFree queues later → t ∉ later.on .freequeue := fun free inFree =>
    notFree ((free t).mp inFree)
  cases op with
  | fork site =>
      obtain ⟨forks, rfl⟩ := effect
      have entered := enterFork_untouched s site off
      rcases (spaced.enterFork site).fork_cases (sched.enterFork site) enabled forks with
        ⟨_, same, result⟩ | ⟨child, free, mm, _, slots, result⟩
      · rw [result, same]
        exact ⟨notFree, entered.passes off⟩
      · have first := site.firstFrame s child mm
        have apart : t ≠ child := fun same => notFree (same ▸ free)
        rw [result]
        refine ⟨fun inFree => notFree ((slots t).mp inFree).2,
          (entered.trans (first.others t apart)).passes ?_⟩
        rw [first.current]
        exact off
  | exit site =>
      have passes := Exits.passes effect (site.atSite s) off
      refine ⟨fun inFree => ?_, passes.after_untouched (enter_untouched s site off)⟩
      rcases (effect.1 t).mp inFree with old | own
      · exact notFree old
      · exact off own
  | yield site =>
      have passes := effect.2.passes (site.atSite s) off
      exact ⟨remains effect.1, passes.after_untouched (enter_untouched s site off)⟩
  | block site n | unblock site blocked | tick site =>
      have passes := Leaves.passes effect (site.atSite s) off
      exact ⟨remains effect.1, passes.after_untouched (enter_untouched s site off)⟩
  | charge v => exact ⟨remains effect.1, effect.2.passes off⟩
  | touch page =>
      obtain ⟨free, rfl⟩ := effect
      have kept : Untouched s { s with mm := (s.mm.translate page).2 } t :=
        ⟨rfl, rfl, fun _ _ _ => rfl⟩
      exact ⟨remains free, kept.passes off⟩

structure Pending (installed : Installed) (code : Nat → Nat) (origin : State) (t : Task)
    (s : State) : Prop where
  live : ∃ queues, Sched installed s queues ∧ Spaced code s queues ∧ t ∉ queues.on .freequeue
  off : t ≠ s.current
  untouched : Untouched origin s t

theorem Pending.step {origin : State} (pending : Pending installed code origin t s)
    (enabled : s.Enabled op) (resumable : Resumable origin t) :
    (t ≠ (s.step installed.policy op).current →
      Pending installed code origin t (s.step installed.policy op)) ∧
    ((s.step installed.policy op).current = t →
      ReturnsTo t (origin.saved t) (s.step installed.policy op).cpu) := by
  obtain ⟨⟨queues, sched, spaced, notFree⟩, off, untouched⟩ := pending
  obtain ⟨later, after, effect⟩ := sched.step enabled
  obtain ⟨live, passes⟩ := spaced.passes sched enabled effect notFree off
  have whole := passes.after_untouched untouched
  exact ⟨fun still => ⟨⟨later, after, spaced.step sched enabled effect, live⟩, still,
    whole.untouched⟩, whole.dispatched resumable⟩

/-- `sysenter_fin` and `sysexit` bring back what the save area holds. -/
def ReturnsToUser (area : SaveArea) (eax : DWord) (cpu : Cpu) : Prop :=
  ∃ eflags mem, sysexit (cpu.exec sysenterFin) = area.resume eax eflags mem

omit [Image] in
theorem returnsToUser (cpu : Cpu) {area : SaveArea} (saved : Holds cpu.mem cpu.esp area.words) :
    ReturnsToUser area cpu.eax cpu := ⟨_, _, exec_sysenterFin cpu saved⟩

omit [Image] in
theorem exec_retFromFork (cpu : Cpu) : cpu.exec retFromFork = { cpu with
    eax := 0, eip := cpu.mem cpu.esp, esp := cpu.esp + 4
    mem := Function.update cpu.mem (cpu.esp - 4) cpu.ebp } := by
  have back : cpu.esp - 4 + 4 = cpu.esp := BitVec.sub_add_cancel _ _
  have apart : cpu.esp ≠ cpu.esp - 4 := by bv_omega
  simp only [retFromFork, Cpu.exec_cons, Cpu.exec_nil, Cpu.step, Cpu.store, Cpu.read, Cpu.write,
    Cpu.get, Cpu.set, back, Function.update_self, Function.update_of_ne apart]

omit [Image] in
theorem exec_sysForkLeave (cpu : Cpu) : cpu.exec sysForkLeave = { cpu with
    ebp := cpu.mem cpu.ebp, eip := cpu.mem (cpu.ebp + 4), esp := cpu.ebp + 4 + 4 } := by
  simp only [sysForkLeave, Cpu.exec_cons, Cpu.exec_nil, Cpu.step, Cpu.read, Cpu.write, Cpu.get,
    Cpu.set]

/-- At `address`, back from `sys_fork` with `result`: above the stack pointer is the
save area of the call. -/
structure BackFromFork (area : SaveArea) (cpu : Cpu) (ebp address esp result : DWord) : Prop where
  eip : cpu.eip = address
  ebp : cpu.ebp = ebp
  esp : cpu.esp = esp
  eax : cpu.eax = result
  user : ReturnsToUser area result cpu

variable {ebp address : DWord} {area : SaveArea} {cpu : Cpu}

omit [Image] in
theorem SaveArea.length_words (area : SaveArea) : area.words.length = 16 := rfl

/-- The child, from its first dispatch through `ret_from_fork`. -/
theorem FirstFrame.child_back (first : FirstFrame s child depth after) (room : 60 ≤ depth)
    (fits : depth + 72 ≤ PAGE_SIZE)
    (stack : Holds s.cpu.mem (taskAddr s.current depth) (ebp :: address :: area.words))
    (returns : ReturnsTo child (after.saved child) cpu) :
    cpu.eip = Image.retFromFork ∧
      BackFromFork area (cpu.exec retFromFork) ebp address (taskAddr child (depth + 8)) 0 := by
  rw [first.saved] at returns
  obtain ⟨esp, eip, frame, above⟩ := returns
  have esp : cpu.esp = taskAddr child (depth + 4) := esp
  have frame : cpu.ebp = s.cpu.mem (taskAddr s.current depth) := frame
  have same : ∀ place, depth + 4 ≤ place → place < PAGE_SIZE →
      cpu.mem (taskAddr child place) = s.cpu.mem (taskAddr s.current place) := by
    intro place high bound
    rw [← first.stack place high bound]
    refine above place bound ?_
    show (taskAddr child (depth + 4)).toNat ≤ _
    rw [taskAddr_toNat child (by omega), taskAddr_toNat child (Nat.le_of_lt bound)]
    omega
  have next : taskAddr child (depth + 4) + 4 = taskAddr child (depth + 8) :=
    taskAddr_add child _ 4 (by omega)
  have pushed : taskAddr child (depth + 4) - 4 = taskAddr child depth :=
    taskAddr_sub child _ 4 (by omega) (by omega)
  have addressWord : s.cpu.mem (taskAddr s.current (depth + 4)) = address := by
    rw [← taskAddr_add s.current _ 4 (by omega)]
    exact stack.2.1
  have saved : Holds (Function.update cpu.mem (taskAddr child depth) cpu.ebp)
      (taskAddr child (depth + 8)) area.words := by
    refine (stack.drop 2).move fun index bound => ?_
    have bound : index < 16 := bound
    rw [slot_taskAddr (by omega), slot_taskAddr (by omega), slot_taskAddr (by omega),
      Function.update_of_ne (taskAddr_ne (by omega) (by omega) (.inr (by omega))),
      same _ (by omega) (by omega)]
  refine ⟨eip, ?_⟩
  have result := exec_retFromFork cpu
  rw [esp, next, pushed] at result
  rw [result]
  refine ⟨(same _ (Nat.le_refl _) (by omega)).trans addressWord, frame.trans stack.1, rfl, rfl, ?_⟩
  exact returnsToUser { cpu with
    eax := 0, eip := cpu.mem (taskAddr child (depth + 4)), esp := taskAddr child (depth + 8)
    mem := Function.update cpu.mem (taskAddr child depth) cpu.ebp } saved

theorem FirstFrame.parent_back (first : FirstFrame s child depth after) (apart : s.current ≠ child)
    (framed : s.cpu.ebp = taskAddr s.current depth) (fits : depth + 72 ≤ PAGE_SIZE)
    (stack : Holds s.cpu.mem (taskAddr s.current depth) (ebp :: address :: area.words))
    (result : DWord) :
    BackFromFork area (Cpu.exec { after.cpu with eax := result } sysForkLeave) ebp address
      (taskAddr s.current (depth + 8)) result := by
  have same := (first.others s.current apart).stack
  have kept : Holds after.cpu.mem (taskAddr s.current depth) (ebp :: address :: area.words) :=
    holds_sameStack stack (by
      simp only [List.length_cons, SaveArea.length_words]
      omega) fun place _ bound => same place (Nat.zero_le _) bound
  have next : taskAddr s.current depth + 4 + 4 = taskAddr s.current (depth + 8) := by
    rw [BitVec.add_assoc]
    exact taskAddr_add s.current _ 8 (by omega)
  rw [exec_sysForkLeave]
  have base : ({ after.cpu with eax := result } : Cpu).ebp = taskAddr s.current depth :=
    first.ebp.trans framed
  rw [base, next]
  refine ⟨kept.2.1, kept.1, rfl, rfl, ?_⟩
  refine returnsToUser { after.cpu with
    eax := result, ebp := after.cpu.mem (taskAddr s.current depth)
    eip := after.cpu.mem (taskAddr s.current depth + 4), esp := taskAddr s.current (depth + 8) } ?_
  show Holds after.cpu.mem (taskAddr s.current (depth + 8)) area.words
  have above := kept.drop 2
  rwa [slot_taskAddr (by omega)] at above

/-- After a run from `start` in which `child` never ran, a step dispatches it. -/
def FirstDispatch (installed : Installed) (memory start : State) (child : Task)
    (dispatched : State) : Prop :=
  ∃ ops op, (kernel installed memory).Runs start ops ∧
    (kernel installed memory).Always (fun s => child ≠ s.current) start ops ∧
    ((kernel installed memory).run start ops).Enabled op ∧
    dispatched = ((kernel installed memory).run start ops).step installed.policy op ∧
    dispatched.current = child

theorem FirstDispatch.of_step (asleep : child ≠ s.current) (enabled : s.Enabled op)
    (dispatched : (s.step installed.policy op).current = child) :
    FirstDispatch installed memory s child (s.step installed.policy op) :=
  ⟨[], op, trivial, asleep, enabled, rfl, dispatched⟩

theorem Pending.first_dispatch {origin start dispatched : State}
    (pending : Pending installed code origin t start) (resumable : Resumable origin t)
    (first : FirstDispatch installed memory start t dispatched) :
    ReturnsTo t (origin.saved t) dispatched.cpu := by
  obtain ⟨ops, op, runs, asleep, enabled, result, current⟩ := first
  have kept : ∀ s op, Pending installed code origin t s → s.Enabled op →
      t ≠ (s.step installed.policy op).current →
      Pending installed code origin t (s.step installed.policy op) :=
    fun _ _ pending enabled still => (pending.step enabled resumable).1 still
  have last := System.Always.holds_final kept asleep runs pending
  rw [result] at current ⊢
  exact (last.step enabled resumable).2 current

/-- The parent of a `sys_fork` leaves it with the PID of the child; the child, whenever
it is first dispatched, runs `ret_from_fork` and is back at the same address, with the
same frame pointer and over the same save area, with 0. -/
def ReturnsTwice (installed : Installed) (memory s : State) (site : ForkSite) (pid : DWord)
    (ebp address : DWord) (area : SaveArea) : Prop :=
  ∃ child, s.OnQueue child .freequeue ∧
    ((s.step installed.policy (.fork site)).task child).PID = pid ∧
    BackFromFork area (Cpu.exec
      { (s.step installed.policy (.fork site)).cpu with eax := pid } sysForkLeave)
      ebp address (taskAddr s.current (site.depth + 8)) pid ∧
    ∀ dispatched, FirstDispatch installed memory (s.step installed.policy (.fork site)) child
        dispatched →
      dispatched.cpu.eip = Image.retFromFork ∧
        BackFromFork area (dispatched.cpu.exec retFromFork) ebp address
          (taskAddr child (site.depth + 8)) 0

/-- A successful `sys_fork` returns twice, from any stack. -/
theorem fork_returns_twice (reachable : (kernel installed memory).Reachable s)
    (process : s.current ≠ s.idleTask) (site : ForkSite) {pid : DWord}
    (forked : (s.enterFork site).sysFork.1 = .ok pid)
    (stack : Holds (s.enterFork site).cpu.mem (taskAddr s.current site.depth)
      (ebp :: address :: area.words)) :
    ReturnsTwice installed memory s site pid ebp address area := by
  obtain ⟨queues, sched, spaced⟩ := spaced_of_reachable reachable
  have entered := sched.enterFork site
  obtain ⟨later, afterSched, forks, _⟩ := entered.sysFork
  have afterSpaced := ((spaced.enterFork site).sysFork entered process forks).1
  rcases (spaced.enterFork site).fork_cases entered process forks with
    ⟨_, _, result⟩ | ⟨child, free, mm, _, slots, result⟩
  · rw [result] at forked
    exact absurd forked nofun
  have room := site.room
  have fits := site.fits
  have first := site.firstFrame s child mm
  have apart : s.current ≠ child := (entered.free_apart free).1
  have identified := forkFinish_ok (forkMapped (s.enterFork site) child mm) child
  rw [← result, forked, result] at identified
  have after : s.step installed.policy (.fork site) =
    ((forkMapped (s.enterFork site) child mm).forkFinish child).2 := congrArg Prod.snd result
  rw [result] at afterSched afterSpaced
  unfold ReturnsTwice
  rw [after]
  generalize (forkMapped (s.enterFork site) child mm).forkFinish child = outcome at *
  have pending : Pending installed (codeFrame memory) outcome.2 child outcome.2 := by
    refine ⟨⟨later, afterSched, afterSpaced, fun inFree => ((slots child).mp inFree).1 rfl⟩, ?_,
      ⟨rfl, rfl, fun _ _ _ => rfl⟩⟩
    rw [first.current]
    exact apart.symm
  refine ⟨child, sched.represents.on_iff.mpr free, ?_, ?_, fun dispatched dispatch => ?_⟩
  · exact (Except.ok.inj identified).symm
  · exact first.parent_back apart rfl fits stack pid
  · exact first.child_back room fits stack
      (pending.first_dispatch (first.resumable room (by omega)) dispatch)

def RestoresAll (area : SaveArea) (user : Cpu) : Prop :=
  ∃ eax mem, user = { area.resume eax area.eflags mem with ecx := area.ecx, edx := area.edx }

/-- What `RestoresAll` would have to be true of: the child of any fork, back in user mode. -/
def ChildRestoresAll (installed : Installed) (memory s : State) : Prop :=
  ∀ (site : ForkSite) (pid ebp address : DWord) (area : SaveArea) (child : Task)
    (dispatched : State), (s.enterFork site).sysFork.1 = .ok pid →
    Holds (s.enterFork site).cpu.mem (taskAddr s.current site.depth)
      (ebp :: address :: area.words) →
    FirstDispatch installed memory (s.step installed.policy (.fork site)) child dispatched →
    RestoresAll area (sysexit ((dispatched.cpu.exec retFromFork).exec sysenterFin))

end

def ForkSite.numbered : ForkSite where
  cpu := { State.blank.cpu with mem := fun address => address }
  depth := 3976
  aligned := by decide
  room := by decide
  fits := by decide

def SaveArea.numbered : SaveArea where
  ebx := 0x22F90
  ecx := 0x22F94
  edx := 0x22F98
  esi := 0x22F9C
  edi := 0x22FA0
  ebp := 0x22FA4
  eax := 0x22FA8
  ds := 0x22FAC
  es := 0x22FB0
  fs := 0x22FB4
  gs := 0x22FB8
  eip := 0x22FBC
  cs := 0x22FC0
  eflags := 0x22FC4
  oldesp := 0x22FC8
  oldss := 0x22FCC

theorem numbered_stack :
    Holds (@State.enterFork Image.sample sampleBoot ForkSite.numbered).cpu.mem
      (@taskAddr Image.sample sampleBoot.current ForkSite.numbered.depth)
      (0x22F88 :: 0x22F8C :: SaveArea.numbered.words) := by
  decide +kernel

theorem numbered_forked :
    (@State.sysFork Image.sample
      (@State.enterFork Image.sample sampleBoot ForkSite.numbered)).1 = .ok 1001 := by
  decide +kernel

theorem fork_returns_twice_numbered :
    @ReturnsTwice Image.sample .RR State.blank sampleBoot ForkSite.numbered 1001 0x22F88 0x22F8C
      SaveArea.numbered :=
  @fork_returns_twice Image.sample .RR State.blank sampleBoot 0x22F88 0x22F8C SaveArea.numbered
    (.initial rfl) (by decide) ForkSite.numbered 1001 numbered_forked numbered_stack

def numberedFork : State :=
  @State.step Image.sample (@Installed.policy Image.sample .RR) sampleBoot (.fork ForkSite.numbered)

def numberedDispatch : State :=
  @State.step Image.sample (@Installed.policy Image.sample .RR) numberedFork (.yield SwitchSite.top)

theorem numbered_firstDispatch :
    @FirstDispatch Image.sample .RR State.blank numberedFork 2 numberedDispatch := by
  have asleep : 2 ≠ numberedFork.current := by decide +kernel
  have process : numberedFork.current ≠ numberedFork.idleTask := by decide +kernel
  have dispatched : numberedDispatch.current = 2 := by decide +kernel
  exact @FirstDispatch.of_step Image.sample _ _ _ _ _ asleep process dispatched

/-- `sysexit` needs ECX and EDX for itself: the child finds its stack pointer in ECX. -/
theorem child_not_all_restored :
    ¬ ∀ s, (sampleKernel .RR).Reachable s →
      @ChildRestoresAll Image.sample .RR State.blank s := by
  intro always
  obtain ⟨eax, mem, same⟩ := always sampleBoot (.initial rfl) ForkSite.numbered 1001 0x22F88 0x22F8C
    SaveArea.numbered 2 numberedDispatch numbered_forked numbered_stack numbered_firstDispatch
  have found : (sysexit ((numberedDispatch.cpu.exec retFromFork).exec sysenterFin)).ecx =
      SaveArea.numbered.oldesp := by decide +kernel
  rw [same] at found
  have kept : SaveArea.numbered.ecx = SaveArea.numbered.oldesp := found
  exact absurd kept (by decide)

end Zeos
