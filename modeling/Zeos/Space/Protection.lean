import Zeos.Space.Accounts

/-!
# Protection of the kernel and isolation of processes

Both hold of every table `init_mm` and `init_task1` build. `sys_fork` maps the
child's kernel and code pages through `set_ss_pag`, which makes any page present,
writable and the user's, so both end with the first fork.
-/

namespace Zeos

open Library

section

variable [Image]

variable {installed : Installed} {memory s after : State} {queues later : Queues} {op : Op}
  {code : Nat → Nat} {back : Prop} {child : Task}

/-- The kernel half of every live task's table is as `init_table_pages` left it, and
no page it can use in user mode lies in a frame of the kernel. -/
structure Protected (s : State) : Prop where
  entries : ∀ t, s.Live t → ∀ page < NUM_PAG_KERNEL, s.entry t page = Mm.initTableEntry page
  reach : ∀ t, s.Live t → ∀ page, (s.entry t page).present = true →
    (s.entry t page).user = true → NUM_PAG_KERNEL ≤ (s.entry t page).pbaseAddr

omit [Image] in
/-- No frame a live task can write in user mode is mapped for another one. -/
def Isolated (s : State) : Prop :=
  ∀ a b, s.Live a → s.Live b → a ≠ b → ∀ p ≥ USER_FIRST_PAGE, ∀ q ≥ USER_FIRST_PAGE,
    (s.entry a p).present = true → (s.entry a p).user = true → (s.entry a p).rw = true →
      ¬ ((s.entry b q).present = true ∧ (s.entry b q).user = true ∧
        (s.entry b q).pbaseAddr = (s.entry a p).pbaseAddr)

def NoFork (_ : State) (op : Op) : Prop := op.isFork = false

/-- What is live after the step was live before, with the same table. -/
def KeepsTables (s after : State) (queues later : Queues) : Prop :=
  ∀ t ∉ later.on .freequeue, t ∉ queues.on .freequeue ∧
    after.mm.pagusrTable t = s.mm.pagusrTable t

omit [Image] in
theorem KeepsTables.of_quiet (quiet : s.Quiet after) (free : SameFree queues later) :
    KeepsTables s after queues later := fun t notFree =>
  ⟨fun inFree => notFree ((free t).mpr inFree), by rw [quiet.mm]⟩

theorem KeepsTables.of_handsOver (s : State) (free : SameFree queues later)
    (handsOver : HandsOver installed back s after later) : KeepsTables s after queues later := by
  obtain ⟨middle, next, quiet, _, _, rfl⟩ := handsOver
  intro t notFree
  obtain ⟨old, same⟩ := KeepsTables.of_quiet quiet free t notFree
  obtain ⟨_, _, _, loaded⟩ := middle.taskSwitch_frame next
  rw [loaded]
  exact ⟨old, same⟩

theorem Leaves.keepsTables (s : State) (leaves : Leaves installed s queues later after) :
    KeepsTables s after queues later := by
  obtain ⟨free, quiet | handsOver⟩ := leaves
  · exact .of_quiet quiet free
  · exact .of_handsOver s free handsOver

theorem Spaced.exits_keepsTables (spaced : Spaced code s queues)
    (sched : Sched installed s queues) (process : s.current ≠ s.idleTask)
    (exits : Exits s queues later after) : KeepsTables s after queues later := by
  obtain ⟨free, middle, next, quiet, _, rfl⟩ := exits
  have live : queues.Process s.idleTask s.current :=
    ⟨sched.current_off .freequeue, process⟩
  intro t notFree
  rw [free, not_or] at notFree
  refine ⟨notFree.1, ?_⟩
  have emptied := spaced.space.pool.freeData s.current NUM_PAG_DATA
    (fun pag bound => ⟨live, bound, rfl⟩) (fun pag bound => spaced.space.data_above live bound)
  obtain ⟨_, _, _, loaded⟩ := middle.taskSwitch_frame next
  have memory : middle.mm = s.mm.freeData s.current NUM_PAG_DATA := by
    rw [quiet.mm]
    simp only [exitMemory, spaced.getPT live.1]
  rw [loaded, memory]
  exact funext fun page => emptied.remaps.entry t page fun inside => notFree.2 inside.1

omit [Image] in
theorem Mm.translate_pagusrTable (mm : Mm) (page : Nat) :
    (mm.translate page).2.pagusrTable = mm.pagusrTable := by
  unfold Mm.translate
  dsimp only
  split
  · rfl
  · split <;> rfl

theorem Spaced.keepsTables (spaced : Spaced code s queues) (sched : Sched installed s queues)
    (enabled : s.Enabled op) (effect : Effect installed s queues later after op)
    (noFork : NoFork s op) : KeepsTables s after queues later := by
  cases op with
  | fork site => exact Bool.noConfusion noFork
  | exit site => exact (spaced.enter site).exits_keepsTables (sched.enter site) enabled effect
  | yield site => exact .of_handsOver (s.enter site) effect.1 effect.2
  | block site n => exact Leaves.keepsTables (s.enter site) effect
  | unblock site blocked => exact Leaves.keepsTables (s.enter site) effect
  | tick site => exact Leaves.keepsTables (s.enter site) effect
  | charge v => exact .of_quiet effect.2 effect.1
  | touch page =>
      obtain ⟨free, rfl⟩ := effect
      exact fun t notFree => ⟨fun inFree => notFree ((free t).mpr inFree),
        congrFun (s.mm.translate_pagusrTable page) t⟩

theorem KeepsTables.entry (keeps : KeepsTables s after queues later)
    (sched : Sched installed s queues) (spaced : Spaced code s queues)
    (afterSched : Sched installed after later) (result : Spaced code after later) {t : Task}
    (live : after.Live t) : s.Live t ∧ ∀ page, after.entry t page = s.entry t page := by
  have notFree := afterSched.live_iff.mp live
  obtain ⟨old, same⟩ := keeps t notFree
  exact ⟨sched.live_iff.mpr old, fun page => by
    rw [result.entry notFree, spaced.entry old, same]⟩

theorem Protected.keeps (good : Protected s)
    (same : ∀ t, after.Live t → s.Live t ∧ ∀ page, after.entry t page = s.entry t page) :
    Protected after := by
  constructor
  · intro t live page bound
    obtain ⟨old, entries⟩ := same t live
    rw [entries]
    exact good.entries t old page bound
  · intro t live page
    obtain ⟨old, entries⟩ := same t live
    rw [entries]
    exact good.reach t old page

omit [Image] in
theorem Isolated.keeps (good : Isolated s)
    (same : ∀ t, after.Live t → s.Live t ∧ ∀ page, after.entry t page = s.entry t page) :
    Isolated after := by
  intro a b liveA liveB apart p pUser q qUser
  obtain ⟨oldA, entriesA⟩ := same a liveA
  obtain ⟨oldB, entriesB⟩ := same b liveB
  rw [entriesA, entriesB]
  exact good a b oldA oldB apart p pUser q qUser

/-- A forked process can use the page of the null pointer. -/
theorem Spaced.forked_not_protected (spaced : Spaced code s queues)
    (sched : Sched installed s queues) {t : Task} (live : t ∉ queues.on .freequeue)
    (forked : s.mm.Forked code t) : ¬ Protected s := by
  intro good
  have first := good.entries t (sched.live_iff.mpr live) 0 (by decide)
  rw [spaced.entry live, forked.kernel 0 (by decide)] at first
  exact absurd first (by simp [Mm.initTableEntry, PageTableEntry.zero])

/-- And it can write the code it shares with any other process. -/
theorem Spaced.forked_not_isolated (spaced : Spaced code s queues)
    (sched : Sched installed s queues) {a b : Task} (first : queues.Process s.idleTask a)
    (second : queues.Process s.idleTask b) (apart : a ≠ b) (forked : s.mm.Forked code a) :
    ¬ Isolated s := by
  intro good
  have writes := forked.code 0 (by decide)
  have reads : (s.mm.pagusrTable b (PAG_LOG_INIT_CODE + 0)).present = true ∧
      (s.mm.pagusrTable b (PAG_LOG_INIT_CODE + 0)).user = true ∧
      (s.mm.pagusrTable b (PAG_LOG_INIT_CODE + 0)).pbaseAddr = code 0 := by
    rcases spaced.space.layout b second with original | other
    · rw [original.code 0 (by decide)]
      exact ⟨rfl, rfl, rfl⟩
    · rw [other.code 0 (by decide)]
      exact ⟨rfl, rfl, rfl⟩
  have shared := good a b (sched.live_iff.mpr first.1) (sched.live_iff.mpr second.1) apart
    (PAG_LOG_INIT_CODE + 0) (Nat.le_refl _) (PAG_LOG_INIT_CODE + 0) (Nat.le_refl _)
  rw [spaced.entry first.1, spaced.entry second.1, writes] at shared
  exact shared rfl rfl rfl reads

theorem Spaced.full_forked (spaced : Spaced code s queues) (full : queues.on .freequeue = [])
    : ∃ a b, queues.Process s.idleTask a ∧ queues.Process s.idleTask b ∧ a ≠ b ∧
      s.mm.Forked code a := by
  have process : ∀ t, t ≠ s.idleTask → queues.Process s.idleTask t := fun t notIdle =>
    ⟨by simp [full], notIdle⟩
  obtain ⟨a, b, notA, notB, apart⟩ :
      ∃ a b : Task, a ≠ s.idleTask ∧ b ≠ s.idleTask ∧ a ≠ b := by
    generalize s.idleTask = idle
    revert idle
    decide
  rcases spaced.space.layout a (process a notA) with original | forked
  · rcases spaced.space.layout b (process b notB) with other | forked
    · exact absurd (spaced.space.original (process a notA) (process b notB) original other) apart
    · exact ⟨b, a, process b notB, process a notA, apart.symm, forked⟩
  · exact ⟨a, b, process a notA, process b notB, apart, forked⟩

theorem Spaced.sysFork_forked (spaced : Spaced code s queues) (sched : Sched installed s queues)
    (process : s.current ≠ s.idleTask) (forks : Forks s queues later s.sysFork)
    (idle : s.sysFork.2.idleTask = s.idleTask) :
    ∃ a b, later.Process s.sysFork.2.idleTask a ∧ later.Process s.sysFork.2.idleTask b ∧ a ≠ b ∧
      s.sysFork.2.mm.Forked code a := by
  obtain ⟨result, ⟨none, full⟩ | ⟨child, free, _, slots, duplicates⟩⟩ :=
    spaced.sysFork sched process forks
  · cases forks with
    | full _ same _ =>
        rw [full]
        subst same
        exact spaced.full_forked none
    | refused free _ => exact absurd free (by simp [none])
    | forked free _ _ _ => exact absurd free (by simp [none])
  · obtain ⟨apart, notIdle, _⟩ := sched.free_apart free
    rw [idle]
    refine ⟨child, s.current, ⟨?_, notIdle.symm⟩, ⟨?_, process⟩, apart.symm, duplicates.forked⟩
    · exact fun inFree => ((slots child).mp inFree).1 rfl
    · exact fun inFree => sched.current_off _ ((slots _).mp inFree).2

theorem fork_breaks (sched : Sched installed s queues) (spaced : Spaced code s queues)
    {site : ForkSite} (process : s.Enabled (.fork site)) (policy : Policy) :
    ¬ Protected (s.step policy (.fork site)) ∧ ¬ Isolated (s.step policy (.fork site)) := by
  have entered := sched.enterFork site
  obtain ⟨later, afterSched, forks, _, _, idle⟩ := entered.sysFork
  have result := ((spaced.enterFork site).sysFork entered process forks).1
  obtain ⟨a, b, first, second, apart, forked⟩ :=
    (spaced.enterFork site).sysFork_forked entered process forks idle
  exact ⟨result.forked_not_protected afterSched first.1 forked,
    result.forked_not_isolated afterSched first second apart forked⟩

theorem Mm.initTableEntry_user (page : Nat) : (Mm.initTableEntry page).user = false := by
  unfold Mm.initTableEntry
  split <;> rfl

theorem Mm.initTableEntry_above {page : Nat} (above : NUM_PAG_KERNEL ≤ page) :
    Mm.initTableEntry page = .zero := if_pos (.inr above)

/-- Every page a process of the boot can use lies above the kernel. -/
theorem Spaced.original_reach (spaced : Spaced code s queues) {t : Task}
    (live : queues.Process s.idleTask t) (original : s.mm.Original code t) (page : Nat)
    (present : (s.mm.pagusrTable t page).present = true)
    (user : (s.mm.pagusrTable t page).user = true) :
    NUM_PAG_KERNEL ≤ (s.mm.pagusrTable t page).pbaseAddr := by
  cases pageKind page with
  | kernel low =>
      rw [original.kernel page low, Mm.initTableEntry_user] at user
      exact Bool.noConfusion user
  | code bound =>
      have entry := congrArg PageTableEntry.pbaseAddr (original.code _ bound)
      rw [entry]
      exact (spaced.space.code_inUse bound).1
  | data bound => exact (spaced.space.data_inUse live bound).1
  | beyond high =>
      rw [spaced.space.beyond t page high] at present
      exact Bool.noConfusion present

theorem Spaced.protected (spaced : Spaced code s queues) (sched : Sched installed s queues)
    (originals : ∀ t, queues.Process s.idleTask t → s.mm.Original code t) : Protected s := by
  constructor
  · intro t live page bound
    have notFree := sched.live_iff.mp live
    rw [spaced.entry notFree]
    by_cases isIdle : t = s.idleTask
    · rw [isIdle, spaced.space.idle]
    · exact (originals t ⟨notFree, isIdle⟩).kernel page bound
  · intro t live page
    have notFree := sched.live_iff.mp live
    rw [spaced.entry notFree]
    by_cases isIdle : t = s.idleTask
    · rw [isIdle, spaced.space.idle, Mm.initTableEntry_user]
      exact fun _ user => Bool.noConfusion user
    · exact spaced.original_reach ⟨notFree, isIdle⟩ (originals t ⟨notFree, isIdle⟩) page

theorem Spaced.isolated (spaced : Spaced code s queues) (sched : Sched installed s queues)
    (originals : ∀ t, queues.Process s.idleTask t → s.mm.Original code t) : Isolated s := by
  intro a b liveA liveB apart p pUser q qUser presentA _ _ mapped
  have notFreeA := sched.live_iff.mp liveA
  have notFreeB := sched.live_iff.mp liveB
  rw [spaced.entry notFreeA] at presentA
  have presentB := mapped.1
  rw [spaced.entry notFreeB] at presentB
  by_cases idleA : a = s.idleTask
  · rw [idleA, spaced.space.idle, Mm.initTableEntry_above pUser] at presentA
    exact Bool.noConfusion presentA
  by_cases idleB : b = s.idleTask
  · rw [idleB, spaced.space.idle, Mm.initTableEntry_above qUser] at presentB
    exact Bool.noConfusion presentB
  exact apart (spaced.space.original ⟨notFreeA, idleA⟩ ⟨notFreeB, idleB⟩
    (originals a ⟨notFreeA, idleA⟩) (originals b ⟨notFreeB, idleB⟩))

theorem boot_originals (memory : State) {t : Task}
    (process : Queues.boot.Process memory.boot.idleTask t) :
    memory.boot.mm.Original (codeFrame memory) t := by
  rw [State.boot_idleTask, Queues.process_boot] at process
  rw [process]
  exact (boot_spaced memory).1

theorem first_fork_breaks (installed : Installed) (memory : State) (site : ForkSite) :
    ¬ Protected ((kernel installed memory).run memory.boot [.fork site]) ∧
      ¬ Isolated ((kernel installed memory).run memory.boot [.fork site]) := by
  have process : memory.boot.current ≠ memory.boot.idleTask := by
    rw [State.boot_current, State.boot_idleTask]
    decide
  have sched := boot_sched installed memory
  have spaced := (boot_spaced memory).2
  generalize memory.boot = s at *
  exact fork_breaks sched spaced process installed.policy

theorem keeps_of_noFork (sched : Sched installed s queues) (spaced : Spaced code s queues)
    (enabled : s.Enabled op) (noFork : NoFork s op) :
    (Protected s → Protected (s.step installed.policy op)) ∧
      (Isolated s → Isolated (s.step installed.policy op)) := by
  obtain ⟨later, afterSched, effect⟩ := sched.step enabled
  have keeps := spaced.keepsTables sched enabled effect noFork
  have result := spaced.step sched enabled effect
  have same : ∀ t, (s.step installed.policy op).Live t → s.Live t ∧
      ∀ page, (s.step installed.policy op).entry t page = s.entry t page :=
    fun t live => keeps.entry sched spaced afterSched result live
  exact ⟨fun good => good.keeps same, fun good => good.keeps same⟩

theorem protection_step_iff (sched : Sched installed s queues) (spaced : Spaced code s queues)
    (enabled : s.Enabled op) :
    (Protected s → (Protected (s.step installed.policy op) ↔ NoFork s op)) ∧
      (Isolated s → (Isolated (s.step installed.policy op) ↔ NoFork s op)) := by
  by_cases noFork : NoFork s op
  · obtain ⟨unharmed, apart⟩ := keeps_of_noFork sched spaced enabled noFork
    exact ⟨fun good => iff_of_true (unharmed good) noFork, fun good => iff_of_true (apart good) noFork⟩
  · cases op with
    | fork site =>
        obtain ⟨unprotected, shared⟩ := fork_breaks sched spaced enabled installed.policy
        exact ⟨fun _ => iff_of_false unprotected noFork, fun _ => iff_of_false shared noFork⟩
    | _ => exact absurd rfl noFork

theorem ordered_step (s : State) (op : Op)
    (ordered : ∃ queues, Sched installed s queues ∧ Spaced code s queues)
    (enabled : s.Enabled op) : ∃ queues, Sched installed (s.step installed.policy op) queues ∧
      Spaced code (s.step installed.policy op) queues := by
  obtain ⟨queues, sched, spaced⟩ := ordered
  obtain ⟨later, after, effect⟩ := sched.step enabled
  exact ⟨later, after, spaced.step sched enabled effect⟩

/-- The kernel's pages are protected in every state of a run exactly when the run
never forks. -/
theorem always_protected_iff (installed : Installed) (memory : State) {ops : List Op}
    (runs : (kernel installed memory).Runs memory.boot ops) :
    (kernel installed memory).Always Protected memory.boot ops ↔
      (kernel installed memory).Each NoFork memory.boot ops := by
  have spaced := (boot_spaced memory).2
  have sched := boot_sched installed memory
  refine System.always_iff_each ordered_step ?_ runs ⟨_, sched, spaced⟩
    (spaced.protected sched fun t process => boot_originals memory process)
  rintro s op ⟨queues, sched, spaced⟩ good enabled
  exact (protection_step_iff sched spaced enabled).1 good

/-- Processes are isolated in every state of a run exactly when the run never forks. -/
theorem always_isolated_iff (installed : Installed) (memory : State) {ops : List Op}
    (runs : (kernel installed memory).Runs memory.boot ops) :
    (kernel installed memory).Always Isolated memory.boot ops ↔
      (kernel installed memory).Each NoFork memory.boot ops := by
  have spaced := (boot_spaced memory).2
  have sched := boot_sched installed memory
  refine System.always_iff_each ordered_step ?_ runs ⟨_, sched, spaced⟩
    (spaced.isolated sched fun t process => boot_originals memory process)
  rintro s op ⟨queues, sched, spaced⟩ good enabled
  exact (protection_step_iff sched spaced enabled).2 good

end

def forksOnce : List Op := [.fork ForkSite.top]

theorem forksOnce_runs (installed : Installed) :
    (sampleKernel installed).Runs sampleBoot forksOnce := by
  have process : sampleBoot.current ≠ sampleBoot.idleTask := by decide
  exact ⟨process, trivial⟩

theorem always_protected_iff_forksOnce :
    (sampleKernel .RR).Always (@Protected Image.sample) sampleBoot forksOnce ↔
      (sampleKernel .RR).Each NoFork sampleBoot forksOnce :=
  @always_protected_iff Image.sample .RR State.blank _ (forksOnce_runs .RR)

theorem always_isolated_iff_forksOnce :
    (sampleKernel .RR).Always Isolated sampleBoot forksOnce ↔
      (sampleKernel .RR).Each NoFork sampleBoot forksOnce :=
  @always_isolated_iff Image.sample .RR State.blank _ (forksOnce_runs .RR)

theorem forksOnce_breaks :
    ¬ @Protected Image.sample ((sampleKernel .RR).run sampleBoot forksOnce) ∧
      ¬ Isolated ((sampleKernel .RR).run sampleBoot forksOnce) :=
  @first_fork_breaks Image.sample .RR State.blank ForkSite.top

/-- The child of the first fork can use kernel pages. -/
theorem kernel_unprotected :
    ¬ ∀ s, (sampleKernel .RR).Reachable s → @Protected Image.sample s := fun always =>
  forksOnce_breaks.1 (always _ (System.Reachable.run (.initial rfl) (forksOnce_runs .RR)))

/-- It can write the code its parent runs. -/
theorem processes_not_isolated :
    ¬ ∀ s, (sampleKernel .RR).Reachable s → Isolated s := fun always =>
  forksOnce_breaks.2 (always _ (System.Reachable.run (.initial rfl) (forksOnce_runs .RR)))

end Zeos
