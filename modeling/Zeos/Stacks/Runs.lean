import Zeos.Schedule.Idle
import Zeos.Stacks.Child

/-!
# Switches over whole runs

Tasks off the processor stay resumable, whatever happens, so every switch returns
where it should, but for one: `sched_next_rr` may choose the running task itself,
and then `register_esp` is read before `switch_stack` has saved it.
-/

namespace Zeos

open Library Library.X86

section

variable [Image]

def Stacked (s : State) (queues : Queues) : Prop :=
  ∀ t ∉ queues.on .freequeue, t ≠ s.current → Resumable s t

def SwitchesReturn (s : State) : Prop := ∀ event ∈ s.switches, event.Returns

variable {installed : Installed} {memory s after : State} {queues later : Queues} {op : Op}
  {code : Nat → Nat} {back : Prop} {t u new child : Task} {depth below above : Nat}

theorem Stacked.mono (stacked : Stacked s queues)
    (fewer : ∀ t ∉ later.on .freequeue, t ∉ queues.on .freequeue) : Stacked s later :=
  fun t notFree => stacked t (fewer t notFree)

omit [Image] in
theorem SameFree.notFree (free : SameFree queues later) (notFree : t ∉ later.on .freequeue) :
    t ∉ queues.on .freequeue := fun inFree => notFree ((free t).mpr inFree)

theorem SwitchesReturn.congr_iff (same : after.switches = s.switches) :
    SwitchesReturn after ↔ SwitchesReturn s := by
  rw [SwitchesReturn, SwitchesReturn, same]

theorem Stacked.quiet (stacked : Stacked s queues) (quiet : s.Quiet after) :
    Stacked after queues := by
  intro t notFree off
  rw [quiet.current] at off
  exact (stacked t notFree off).congr (quiet.untouched t)

theorem AtSite.quiet (site : AtSite s depth) (quiet : s.Quiet after) : AtSite after depth where
  esp := by
    rw [quiet.cpu, quiet.current]
    exact site.esp
  room := site.room
  fits := site.fits

theorem AtSite.untouched (site : AtSite s depth) (new : Task) (off : u ≠ s.current) :
    Untouched s (s.taskSwitch new) u := by
  have whole := taskSwitch_spec s new
  generalize s.taskSwitch new = after at *
  obtain ⟨argument, spec⟩ := whole
  have registerEsp := spec.registerEsp u
  rw [if_neg off] at registerEsp
  refine ⟨?_, registerEsp, ?_⟩
  · rw [spec.saved, Function.update_of_ne off]
  · rw [spec.mem]
    exact site.pushed_mem new argument off.symm

theorem AtSite.suspended (site : AtSite s depth) (new : Task) :
    Resumable (s.taskSwitch new) s.current := by
  have whole := taskSwitch_spec s new
  generalize s.taskSwitch new = after at *
  obtain ⟨argument, spec⟩ := whole
  have registerEsp := spec.registerEsp s.current
  rw [if_pos rfl] at registerEsp
  refine (site.suspends new argument).resumable ?_ spec.mem registerEsp
  rw [spec.saved, Function.update_self]

theorem AtSite.stacked (site : AtSite s depth) (stacked : Stacked s queues) (new : Task) :
    Stacked (s.taskSwitch new) queues := by
  intro u notFree _
  by_cases running : u = s.current
  · rw [running]
    exact site.suspended new
  · exact (stacked u notFree running).congr (site.untouched new running)

theorem AtSite.returns_other (site : AtSite s depth) (apart : new ≠ s.current)
    (resumable : Resumable s new) (argument : DWord) : Event.Returns (.taskSwitch new
      (Function.update s.saved s.current (.gaveUp (s.switchEntry new)) new)
      (switchReturns s new argument)) := by
  intro body
  rw [Function.update_of_ne apart]
  exact resumable.returns (site.pushed_mem new argument (Ne.symm apart))

/-- A switch to the running task itself returns to its caller only with the right
`register_esp`. -/
theorem AtSite.returns_self_iff (site : AtSite s depth) (argument : DWord) :
    Event.Returns (.taskSwitch s.current
      (Function.update s.saved s.current (.gaveUp (s.switchEntry s.current)) s.current)
      (switchReturns s s.current argument)) ↔
        OwnFrame (s.task s.current).registerEsp s.current depth := by
  rw [Function.update_self]
  exact (site.suspends s.current argument).returns_iff (fun _ => rfl) fun _ => rfl

/-- The stack pointer `switch_stack` installs when the running task is switched to. -/
def FindsOwnFrame (s : State) (depth : Nat) : Prop :=
  OwnFrame (s.task s.current).registerEsp s.current depth

theorem AtSite.switchesReturn_iff (site : AtSite s depth)
    (resumable : new ≠ s.current → Resumable s new) :
    SwitchesReturn (s.taskSwitch new) ↔
      SwitchesReturn s ∧ (new = s.current → FindsOwnFrame s depth) := by
  have whole := taskSwitch_spec s new
  generalize s.taskSwitch new = after at *
  obtain ⟨argument, spec⟩ := whole
  rw [SwitchesReturn, spec.switches, List.forall_mem_cons, and_comm]
  refine and_congr_right fun _ => ?_
  by_cases self : new = s.current
  · subst self
    rw [site.returns_self_iff]
    exact ⟨fun finds _ => finds, fun finds => finds rfl⟩
  · exact iff_of_true (site.returns_other self (resumable self) argument) fun same => absurd same self

theorem SwitchSite.atSite (s : State) (site : SwitchSite) :
    AtSite (s.enter site) site.depth where
  esp := rfl
  room := site.room
  fits := site.fits

theorem enter_untouched (s : State) (site : CallSite below above) (off : t ≠ s.current) :
    Untouched s (s.enter site) t := by
  refine ⟨rfl, rfl, fun place _ bound => ?_⟩
  show (if PH_PAGE (taskAddr t place) = taskPage s.current then site.cpu.mem _ else _) = _
  rw [PH_PAGE_taskAddr t bound, if_neg fun same => off (taskPage_injective same)]

theorem enterFork_untouched (s : State) (site : ForkSite) (off : t ≠ s.current) :
    Untouched s (s.enterFork site) t :=
  (enter_untouched s site off).trans ⟨rfl, rfl, fun _ _ _ => rfl⟩

theorem Stacked.enter (stacked : Stacked s queues) (site : CallSite below above) :
    Stacked (s.enter site) queues :=
  fun t notFree off => (stacked t notFree off).congr (enter_untouched s site off)

theorem Stacked.enterFork (stacked : Stacked s queues) (site : ForkSite) :
    Stacked (s.enterFork site) queues :=
  fun t notFree off => (stacked t notFree off).congr (enterFork_untouched s site off)

theorem Stacked.setMemory (stacked : Stacked s queues) (mm : Mm) :
    Stacked { s with mm := mm } queues :=
  fun t notFree off => (stacked t notFree off).congr ⟨rfl, rfl, fun _ _ _ => rfl⟩

/-- The processor is handed over; round robin gives it back exactly if `back`. -/
theorem Stacked.handsOver (stacked : Stacked s queues) (site : AtSite s depth)
    (free : SameFree queues later) (handsOver : HandsOver installed back s after later) :
    Stacked after later ∧ (installed = .RR →
      (SwitchesReturn after ↔ SwitchesReturn s ∧ (back → FindsOwnFrame s depth))) := by
  obtain ⟨middle, t, quiet, notFree, self, result⟩ := handsOver
  have kept : Stacked middle later := (stacked.quiet quiet).mono fun _ => free.notFree
  have there := site.quiet quiet
  have own : FindsOwnFrame middle depth ↔ FindsOwnFrame s depth := by
    rw [FindsOwnFrame, FindsOwnFrame, quiet.current, quiet.registerEsp]
  rw [result]
  refine ⟨there.stacked kept t, fun round => ?_⟩
  rw [there.switchesReturn_iff (kept t notFree), SwitchesReturn.congr_iff quiet.switches, own,
    quiet.current, self round]

theorem Stacked.leaves (stacked : Stacked s queues) (site : AtSite s depth)
    (leaves : Leaves installed s queues later after) :
    Stacked after later ∧ (installed = .RR → (SwitchesReturn after ↔ SwitchesReturn s)) := by
  obtain ⟨free, quiet | handsOver⟩ := leaves
  · exact ⟨(stacked.quiet quiet).mono fun _ => free.notFree,
      fun _ => SwitchesReturn.congr_iff quiet.switches⟩
  · obtain ⟨kept, returns⟩ := stacked.handsOver site free handsOver
    exact ⟨kept, fun round => by rw [returns round]; exact and_iff_left False.elim⟩

theorem Stacked.exits (stacked : Stacked s queues) (site : AtSite s depth)
    (exits : Exits s queues later after) :
    Stacked after later ∧ (SwitchesReturn after ↔ SwitchesReturn s) := by
  obtain ⟨free, middle, t, quiet, notFree, result⟩ := exits
  have freed : AtSite { s with mm := exitMemory s } depth := ⟨site.esp, site.room, site.fits⟩
  have there := freed.quiet quiet
  have kept : Stacked middle later := ((stacked.setMemory _).quiet quiet).mono fun u notFree inFree =>
    notFree ((free u).mpr (.inl inFree))
  have other : t ≠ middle.current := by
    rw [quiet.current]
    exact fun same => notFree ((free t).mpr (.inr same))
  have same : SwitchesReturn middle ↔ SwitchesReturn s := SwitchesReturn.congr_iff quiet.switches
  rw [result]
  refine ⟨there.stacked kept t, ?_⟩
  rw [there.switchesReturn_iff (kept t notFree), same]
  exact and_iff_left fun self => absurd self other

theorem Stacked.forked (stacked : Stacked s queues) (first : FirstFrame s child depth after)
    (room : 60 ≤ depth) (fits : depth + 4 ≤ PAGE_SIZE)
    (slots : ∀ t, t ∈ later.on .freequeue ↔ t ≠ child ∧ t ∈ queues.on .freequeue) :
    Stacked after later := by
  intro t notFree off
  rw [first.current] at off
  by_cases isChild : t = child
  · rw [isChild]
    exact first.resumable room fits
  · exact (stacked t (fun inFree => notFree ((slots t).mpr ⟨isChild, inFree⟩)) off).congr
      (first.others t isChild)

theorem ForkSite.firstFrame (s : State) (site : ForkSite) (child : Task) (mm : Mm) :
    FirstFrame (s.enterFork site) child site.depth
      ((forkMapped (s.enterFork site) child mm).forkFinish child).2 := by
  have fits := site.fits
  exact forkFinish_firstFrame mm rfl site.room (by omega)

/-- No process that runs alone yields, or it finds its own frame by chance. -/
def KeepsOwnFrame (s : State) : Op → Prop
  | .yield site => s.listEmpty .readyqueue = true → FindsOwnFrame (s.enter site) site.depth
  | _ => True

/-- One step: tasks off the processor stay resumable, and under round robin every
switch returns where it should unless the process yields to itself. -/
theorem Stacked.step (stacked : Stacked s queues) (sched : Sched installed s queues)
    (spaced : Spaced code s queues) (enabled : s.Enabled op)
    (effect : Effect installed s queues later after op) :
    Stacked after later ∧ (installed = .RR →
      (SwitchesReturn after ↔ SwitchesReturn s ∧ KeepsOwnFrame s op)) := by
  cases op with
  | fork site =>
      obtain ⟨forks, rfl⟩ := effect
      have entered := stacked.enterFork site
      rcases (spaced.enterFork site).fork_cases (sched.enterFork site) enabled forks with
        ⟨_, same, result⟩ | ⟨child, _, mm, _, slots, result⟩
      · rw [result, same]
        exact ⟨entered, fun _ => (and_iff_left trivial).symm⟩
      · have first := site.firstFrame s child mm
        have fits := site.fits
        rw [result]
        refine ⟨entered.forked first site.room (by omega) slots, fun _ => ?_⟩
        exact (SwitchesReturn.congr_iff first.switches).trans (and_iff_left trivial).symm
  | exit site =>
      obtain ⟨kept, returns⟩ := (stacked.enter site).exits (site.atSite s) effect
      exact ⟨kept, fun _ => returns.trans (and_iff_left trivial).symm⟩
  | yield site =>
      obtain ⟨kept, returns⟩ := (stacked.enter site).handsOver (site.atSite s) effect.1 effect.2
      refine ⟨kept, fun round => ?_⟩
      rw [returns round, KeepsOwnFrame, State.listEmpty, sched.represents.listEmpty_iff]
      exact .rfl
  | block site n =>
      obtain ⟨kept, returns⟩ := (stacked.enter site).leaves (site.atSite s) effect
      exact ⟨kept, fun round => (returns round).trans (and_iff_left trivial).symm⟩
  | unblock site blocked =>
      obtain ⟨kept, returns⟩ := (stacked.enter site).leaves (site.atSite s) effect
      exact ⟨kept, fun round => (returns round).trans (and_iff_left trivial).symm⟩
  | tick site =>
      obtain ⟨kept, returns⟩ := (stacked.enter site).leaves (site.atSite s) effect
      exact ⟨kept, fun round => (returns round).trans (and_iff_left trivial).symm⟩
  | charge v =>
      have same := SwitchesReturn.congr_iff effect.2.switches
      exact ⟨(stacked.quiet effect.2).mono fun _ => effect.1.notFree,
        fun _ => same.trans (and_iff_left trivial).symm⟩
  | touch page =>
      obtain ⟨free, rfl⟩ := effect
      exact ⟨(stacked.setMemory _).mono fun _ => free.notFree, fun _ => (and_iff_left trivial).symm⟩

def Settled (installed : Installed) (code : Nat → Nat) (s : State) : Prop :=
  ∃ queues, Sched installed s queues ∧ Spaced code s queues ∧ Stacked s queues

theorem boot_settled (installed : Installed) (memory : State) :
    Settled installed (codeFrame memory) memory.boot := by
  refine ⟨_, boot_sched installed memory, (boot_spaced memory).2, fun t notFree off => ?_⟩
  rw [State.boot_current] at off
  have idle : t = 0 := by
    by_contra process
    exact notFree (Queues.mem_boot.mpr ⟨rfl, process, off⟩)
  rw [idle]
  exact boot_resumable memory

theorem Settled.step (settled : Settled installed code s) (enabled : s.Enabled op) :
    Settled installed code (s.step installed.policy op) := by
  obtain ⟨queues, sched, spaced, stacked⟩ := settled
  obtain ⟨later, after, effect⟩ := sched.step enabled
  exact ⟨later, after, spaced.step sched enabled effect,
    (stacked.step sched spaced enabled effect).1⟩

theorem Settled.switchesReturn_iff (settled : Settled .RR code s) (returned : SwitchesReturn s)
    (enabled : s.Enabled op) : SwitchesReturn (s.step .rr op) ↔ KeepsOwnFrame s op := by
  obtain ⟨queues, sched, spaced, stacked⟩ := settled
  obtain ⟨later, _, effect⟩ := sched.step enabled
  have exact_step := (stacked.step sched spaced enabled effect).2 rfl
  exact exact_step.trans (and_iff_right returned)

theorem boot_switchesReturn (memory : State) : SwitchesReturn memory.boot :=
  fun _ member => absurd member List.not_mem_nil

/-- Round robin: every switch of a run returns inside the task it switches to, with
the stack and the registers that task had, exactly when no process that runs alone
yields without finding its own frame. -/
theorem always_switchesReturn_iff (memory : State) {ops : List Op}
    (runs : (kernel .RR memory).Runs memory.boot ops) :
    (kernel .RR memory).Always SwitchesReturn memory.boot ops ↔
      (kernel .RR memory).Each KeepsOwnFrame memory.boot ops := by
  have kept : ∀ s op, Settled .RR (codeFrame memory) s → s.Enabled op →
      Settled .RR (codeFrame memory) (s.step .rr op) := fun _ _ settled enabled => settled.step enabled
  exact System.always_iff_each kept
    (fun _ _ settled returned enabled => settled.switchesReturn_iff returned enabled) runs
    (boot_settled .RR memory) (boot_switchesReturn memory)

/-- The first process may yield at once, with nothing else ready. -/
theorem first_yield_returns_iff (memory : State) (site : SwitchSite) :
    SwitchesReturn ((kernel .RR memory).run memory.boot [.yield site]) ↔
      KeepsOwnFrame memory.boot (.yield site) := by
  rw [kernel_run_single]
  refine (boot_settled .RR memory).switchesReturn_iff (boot_switchesReturn memory) ?_
  show memory.boot.current ≠ memory.boot.idleTask
  rw [State.boot_current, State.boot_idleTask]
  decide

end

theorem always_switchesReturn_iff_wokenInIdle :
    (sampleKernel .RR).Always (@SwitchesReturn Image.sample) sampleBoot wokenInIdle ↔
      (sampleKernel .RR).Each (@KeepsOwnFrame Image.sample) sampleBoot wokenInIdle :=
  @always_switchesReturn_iff Image.sample State.blank _ (wokenInIdle_runs .RR)

def yieldsAlone : List Op := [.yield SwitchSite.top]

theorem yieldsAlone_runs : (sampleKernel .RR).Runs sampleBoot yieldsAlone := by
  have process : sampleBoot.current ≠ sampleBoot.idleTask := by decide
  exact ⟨process, trivial⟩

theorem yieldsAlone_loses_frame :
    ¬ @KeepsOwnFrame Image.sample sampleBoot (.yield SwitchSite.top) := by
  intro keeps
  have alone : sampleBoot.listEmpty .readyqueue = true := by decide
  have finds := keeps alone
  have stale : (sampleBoot.task sampleBoot.current).registerEsp = 0 := by decide
  exact absurd (stale.symm.trans finds) (by decide)

/-- `switch_stack` can install a stack pointer that was never saved. -/
theorem yield_alone_returns_elsewhere :
    ¬ ∀ s, (sampleKernel .RR).Reachable s → @SwitchesReturn Image.sample s := by
  intro always
  have returns := always _ (System.Reachable.run (.initial rfl) yieldsAlone_runs)
  exact yieldsAlone_loses_frame
    ((@first_yield_returns_iff Image.sample State.blank SwitchSite.top).mp returns)

end Zeos
