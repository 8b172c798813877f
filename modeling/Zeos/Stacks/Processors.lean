import Zeos.Space.Images
import Zeos.Stacks.Frames

/-!
# Every process has a processor of its own

The kernel shares one processor. Whatever the order of interrupts, calls and switches,
each process finds its registers as if it had run alone.
-/

namespace Zeos

open Library Library.X86

section

variable [Image] [HandlerImage]

variable {memory s : State} {host : Host} {start view : Processor} {queues later : Queues}
  {t : Task} {mode : Mode} {activity : Activity} {regs : Reg → DWord} {cpu : Cpu}

structure Inside (s : State) (t : Task) (mode : Mode) (view : Processor) : Prop where
  goesOn : GoesOn s t (view.activity t)
  framed : Framed s.cpu.mem t (view.regs t) mode (view.activity t)

structure Outside (s : State) (view : Processor) : Prop where
  regs : s.cpu.get = view.regs s.current
  computing : view.activity s.current = .computing
  level : level s.cpu.cs ≠ 0

/-- The kernel keeps the registers of all processes. -/
structure Carries (memory : State) (host : Host) (view : Processor) (queues : Queues) : Prop where
  sched : Sched .RR host.state queues
  spaced : Spaced (codeFrame memory) host.state queues
  stacked : Stacked host.state queues
  top : OnTop host.state
  returned : SwitchesReturn host.state
  alive : ∀ t, view.alive t ↔ queues.Process host.state.idleTask t
  idle : host.mode host.state.idleTask ≠ .user
  user : host.mode host.current = .user → Outside host.state view
  kernel : ∀ t, queues.Process host.state.idleTask t →
    (t = host.current → host.mode t ≠ .user) → Inside host.state t (host.mode t) view

theorem Carries.live (carries : Carries memory host view queues)
    (process : host.current ≠ host.state.idleTask) : view.alive host.current :=
  (carries.alive _).mpr ⟨carries.sched.current_off .freequeue, process⟩

theorem Carries.process (carries : Carries memory host view queues)
    (user : host.mode host.current = .user) : host.current ≠ host.state.idleTask := by
  intro same
  rw [same] at user
  exact carries.idle user

theorem Inside.moves {before : Processor} (inside : Inside s t mode before) (off : t ≠ s.current)
    (spares : SparesOthers s cpu) (sameActivity : view.activity t = before.activity t)
    (sameRegs : view.regs t = before.regs t) : Inside { s with cpu := cpu } t mode view := by
  obtain ⟨goesOn, framed⟩ := inside
  refine ⟨?_, ?_⟩
  · unfold GoesOn at *
    rw [if_neg off] at goesOn
    rw [sameActivity]
    exact (if_neg off).mpr goesOn
  · rw [sameActivity, sameRegs]
    exact framed.congr fun place _ bound => spares t off place (Nat.zero_le _) bound

theorem Carries.moves (carries : Carries memory host view queues)
    (process : host.current ≠ host.state.idleTask) (spares : SparesOthers host.state cpu)
    (user : mode = .user → cpu.get = regs ∧ activity = .computing ∧ level cpu.cs ≠ 0)
    (kernel : mode ≠ .user → GoesOn { host.state with cpu := cpu } host.current activity ∧
      Framed cpu.mem host.current regs mode activity) :
    Carries memory (host.turn mode { host.state with cpu := cpu })
      (view.give host.current activity regs) queues where
  sched := carries.sched.setCpu cpu
  spaced := carries.spaced.setCpu cpu
  stacked := spares.stacked carries.stacked
  top := carries.top
  returned := carries.returned
  alive := carries.alive
  idle := by
    show Function.update host.mode host.current mode host.state.idleTask ≠ .user
    rw [Function.update_of_ne process.symm]
    exact carries.idle
  user isUser := by
    have same : mode = .user := (Function.update_self ..).symm.trans isUser
    obtain ⟨registers, computing, level⟩ := user same
    exact ⟨registers.trans (Processors.give_regs ..).symm,
      (Processors.give_activity ..).trans computing, level⟩
  kernel t live inKernel := by
    show Inside _ t (Function.update host.mode host.current mode t) _
    by_cases own : t = host.current
    · subst own
      have isKernel := inKernel rfl
      change Function.update host.mode host.current mode host.current ≠ .user at isKernel
      rw [Function.update_self] at isKernel ⊢
      obtain ⟨goesOn, framed⟩ := kernel isKernel
      refine ⟨?_, ?_⟩
      · rw [Processors.give_activity]
        exact goesOn
      · rw [Processors.give_activity, Processors.give_regs]
        exact framed
    · rw [Function.update_of_ne own]
      exact (carries.kernel t live fun same => absurd same own).moves own spares
        (Processors.give_activity_of_ne _ _ _ own) (Processors.give_regs_of_ne _ _ _ own)

theorem Carries.stays (carries : Carries memory host view queues)
    (process : host.current ≠ host.state.idleTask) (spares : SparesOthers host.state cpu)
    (computing : view.activity host.current = .computing)
    (user : mode = .user → cpu.get = view.regs host.current ∧ level cpu.cs ≠ 0)
    (kernel : mode ≠ .user → ¬ State.Starts { host.state with cpu := cpu } ∧
      Framed cpu.mem host.current (view.regs host.current) mode .computing) :
    Carries memory (host.turn mode { host.state with cpu := cpu }) view queues := by
  have moved : Carries memory (host.turn mode { host.state with cpu := cpu })
      (view.give host.current .computing (view.regs host.current)) queues := by
    refine carries.moves process spares
      (fun isUser => ⟨(user isUser).1, rfl, (user isUser).2⟩) fun isKernel => ?_
    obtain ⟨starts, framed⟩ := kernel isKernel
    exact ⟨goesOn_current.mpr (iff_of_false starts Activity.noConfusion), framed⟩
  rwa [← computing, Processors.give_self] at moved

theorem Carries.charge (carries : Carries memory host view queues) (v : Counter) :
    Carries memory { host with state := host.state.updateStats host.state.current v } view queues := by
  have accounts := host.state.updateStats_accounts host.state.current v
  have same := SwitchesReturn.congr_iff accounts.quiet.switches
  refine ⟨carries.sched.accounts accounts, carries.spaced.quiet accounts.quiet fun _ => .rfl,
    carries.stacked.quiet accounts.quiet, carries.top, same.mpr carries.returned, carries.alive,
    carries.idle, fun isUser => ?_, fun t live inKernel => ?_⟩
  · obtain ⟨regs, computing, level⟩ := carries.user isUser
    exact ⟨regs, computing, level⟩
  · obtain ⟨goesOn, framed⟩ := carries.kernel t live inKernel
    exact ⟨goesOn, framed⟩

theorem Carries.turned (carries : Carries memory (host.turn mode s) view queues)
    (same : host.mode host.current = mode) : Carries memory { host with state := s } view queues := by
  subst same
  unfold Host.turn at carries
  rwa [Function.update_eq_self] at carries

theorem Carries.compute (carries : Carries memory host view queues)
    (enabled : host.Enabled (.compute cpu)) :
    (Processors.each sysenterConvention start).Runs view (host.tells .rr (.compute cpu)) ∧
      Carries memory (host.next .rr (.compute cpu))
        ((Processors.each sysenterConvention start).run view (host.tells .rr (.compute cpu)))
        queues := by
  obtain ⟨user, level, spared⟩ := enabled
  have process := carries.process user
  have outside := carries.user user
  have moved := carries.moves process (fun t _ => spared t)
    (fun _ => ⟨rfl, rfl, level⟩) (fun other : Mode.user ≠ .user => absurd rfl other)
  exact ⟨⟨⟨carries.live process, outside.computing⟩, trivial⟩, moved.turned user⟩

theorem Carries.interrupt (carries : Carries memory host view queues) {handler : Handler}
    (enabled : host.Enabled (.interrupt handler cpu)) :
    Carries memory (host.next .rr (.interrupt handler cpu)) view queues := by
  obtain ⟨user, returns, spares⟩ := enabled
  have process := carries.process user
  obtain ⟨regs, computing, level⟩ := carries.user user
  obtain ⟨found, eip, kept⟩ := carries.top.interrupt level rfl returns spares
  refine (carries.charge .userTicks).stays process kept computing
    (fun isUser : Mode.inInterrupt = .user => absurd isUser Mode.noConfusion) fun _ => ⟨?_, ?_⟩
  · rintro ⟨start, _⟩
    exact HandlerImage.routine_apart handler (eip.symm.trans start)
  · exact Framed.interrupt handler host.state.cpu level regs found

theorem Carries.sysenter (carries : Carries memory host view queues)
    (enabled : host.Enabled .sysenter) :
    (Processors.each sysenterConvention start).Runs view (host.tells .rr .sysenter) ∧
      Carries memory (host.next .rr .sysenter)
        ((Processors.each sysenterConvention start).run view (host.tells .rr .sysenter)) queues := by
  obtain ⟨user, bounded, readable⟩ := enabled
  have process := carries.process user
  have live := carries.live process
  have handler := handler_of_readable readable
  obtain ⟨regs, computing, level⟩ := carries.user user
  cases outcome : host.state.systemCallPushed with
  | user after =>
      obtain ⟨cpu, rfl, spares, outer, _, answered⟩ := carries.top.refused outcome
      have told : host.tells .rr .sysenter =
          [.call host.current (returnWord host.state.sysenter.cpu),
            .answer host.current (cpu.eax, cpu.eflags)] := by
        rw [Host.tells, handler, outcome]
        rfl
      have goes : host.next .rr .sysenter = { host with state := { host.state with cpu := cpu } } := by
        rw [Host.next, handler, outcome]
        rfl
      have moved := carries.moves process spares (fun _ => ⟨answered, rfl, outer⟩)
        (fun other : Mode.user ≠ .user => absurd rfl other)
      rw [regs] at moved
      rw [told, goes, Processors.run_call_answer]
      exact ⟨⟨⟨live, computing⟩, ⟨live, .inl (Processors.give_activity ..)⟩, trivial⟩,
        moved.turned user⟩
  | service name entered =>
      have told : host.tells .rr .sysenter =
          [.call host.current (returnWord host.state.sysenter.cpu)] := by
        rw [Host.tells, handler, outcome]
      obtain ⟨cpu, rfl, called⟩ := service_entered outcome
      obtain ⟨found, spares⟩ := carries.top.enterCall called
      have goes : host.next .rr .sysenter = host.turn .inCall
          { host.state with cpu := { cpu with eip := HandlerImage.service name } } := by
        rw [Host.next, handler, outcome]
        rfl
      have starts : ¬ State.Starts
          { host.state with cpu := { cpu with eip := HandlerImage.service name } } :=
        fun starts => HandlerImage.service_apart name starts.1
      have spared : SparesOthers host.state { cpu with eip := HandlerImage.service name } := spares
      have waits : Activity.calling ≠ .computing := Activity.noConfusion
      have moved := carries.moves process spared
        (fun isUser : Mode.inCall = .user => absurd isUser Mode.noConfusion) fun _ =>
        ⟨goesOn_current.mpr (iff_of_false starts Activity.noConfusion),
          Framed.call _ waits found (answered_resume host.state _)⟩
      rw [told, goes]
      rw [regs] at moved
      exact ⟨⟨⟨live, computing⟩, trivial⟩, moved⟩
  | outside slot entered => exact absurd (max_of_outside outcome) bounded
  | fault => exact absurd outcome (pushed_goes_on host.state)

theorem Carries.inKernel (carries : Carries memory host view queues)
    (process : host.current ≠ host.state.idleTask) (kernel : host.mode host.current ≠ .user) :
    Inside host.state host.current (host.mode host.current) view :=
  carries.kernel _ ⟨carries.sched.current_off .freequeue, process⟩ fun _ => kernel

theorem Carries.leave (carries : Carries memory host view queues) {returned charged : Cpu}
    (enabled : host.Enabled (.leave returned charged)) :
    (Processors.each sysenterConvention start).Runs view (host.tells .rr (.leave returned charged)) ∧
      Carries memory (host.next .rr (.leave returned charged))
        ((Processors.each sysenterConvention start).run view
          (host.tells .rr (.leave returned charged))) queues := by
  obtain ⟨process, kernel, returns, charges⟩ := enabled
  have live := carries.live process
  have inside := carries.inKernel process kernel
  have goesOn : host.state.Starts ↔ view.activity host.current = .born :=
    goesOn_current.mp inside.goesOn
  have spares : SparesOthers host.state returned := returns.1
  obtain ⟨eip, esp, own, inner, child⟩ := returns.back carries.returned
  have framed := inside.framed
  generalize place : host.mode host.current = mode at framed
  generalize doing : view.activity host.current = activity at framed goesOn
  cases framed with
  | call area waits found answers =>
      obtain ⟨address, words⟩ := found_back found own esp
      rw [address] at eip
      obtain ⟨cpu, result, spared, outer, eax, regs⟩ :=
        @sysenterFin_spec _ { host.state with cpu := returned } area _ returned.eax esp words answers
      have goes : host.next .rr (.leave returned charged) =
          host.turn .user { host.state with cpu := cpu } := by
        rw [Host.next, Host.leave, if_pos eip, result]
      have told : host.tells .rr (.leave returned charged) =
          [.answer host.current (cpu.eax, cpu.eflags)] := by
        rw [Host.tells, if_pos place, goes]
        rfl
      have answered : activity = .calling ∨
          activity = .born ∧ sysenterConvention.forChild (cpu.eax, cpu.eflags) := by
        cases activity with
        | computing => exact absurd rfl waits
        | calling => exact .inl rfl
        | born => exact .inr ⟨rfl, eax.trans (child (goesOn.mpr rfl))⟩
      rw [← doing] at answered
      rw [told, goes]
      exact ⟨⟨⟨live, answered⟩, trivial⟩, carries.moves process (spares.trans spared)
        (fun _ => ⟨regs, rfl, outer⟩) fun other : Mode.user ≠ .user => absurd rfl other⟩
  | interrupt handler user outer same found =>
      obtain ⟨address, words⟩ := found_back found own esp
      rw [address] at eip
      obtain ⟨other, goesOnAt⟩ := handlerAt_routineRet handler
      rw [← eip] at goesOnAt
      obtain ⟨obeys, sparing⟩ := charges other goesOnAt
      have starts : ¬ host.state.Starts := fun starts => Activity.noConfusion (goesOn.mp starts)
      obtain ⟨left, spared⟩ := @interruptReturn_spec _ host.state _ user returned charged other esp
        (inner starts) outer words obeys sparing
      have notCall : returned.eip ≠ Image.systemCallRet := by
        rw [eip]
        exact HandlerImage.ret_apart handler
      have goes : host.next .rr (.leave returned charged) =
          host.interruptReturn other returned charged := by
        rw [Host.next, Host.leave, if_neg notCall, goesOnAt]
      have told : host.tells .rr (.leave returned charged) = [] := by
        rw [Host.tells, if_neg (by rw [place]; exact Mode.noConfusion)]
      rw [told, goes]
      have back : SparesOthers host.state (handlerLeave charged) := by
        rw [left]
        exact spares.trans spared
      have registers : (handlerLeave charged).get = view.regs host.current ∧
          level (handlerLeave charged).cs ≠ 0 := by
        rw [left]
        exact ⟨same, outer⟩
      exact ⟨trivial, (carries.charge .systemTicks).stays process back doing (fun _ => registers)
        fun other : Mode.user ≠ .user => absurd rfl other⟩

variable {after : State} {op : Op}

theorem Passes.inside (passes : Passes s after t) (off : t ≠ s.current)
    (resumable : Resumable s t) (inside : Inside s t mode view) : Inside after t mode view where
  goesOn := passes.goesOn off resumable inside.goesOn
  framed := inside.framed.congr fun place _ bound =>
    passes.untouched.stack place (Nat.zero_le _) bound

theorem LeavesBehind.inside (leaves : LeavesBehind s after) (starts : ¬ s.Starts)
    (returned : SwitchesReturn after) (inside : Inside s s.current mode view) :
    Inside after s.current mode view where
  goesOn := leaves.goesOn (fun born => starts ((goesOn_current.mp inside.goesOn).mpr born)) returned
  framed := inside.framed.congr leaves.frame

theorem Carries.reached {host : Host} (sched : Sched .RR host.state queues)
    (spaced : Spaced (codeFrame memory) host.state queues) (stacked : Stacked host.state queues)
    (top : OnTop host.state) (returned : SwitchesReturn host.state)
    (alive : ∀ t, view.alive t ↔ queues.Process host.state.idleTask t)
    (idle : host.mode host.state.idleTask ≠ .user)
    (inside : ∀ t, queues.Process host.state.idleTask t →
      Inside host.state t (host.mode t) view) : Carries memory host view queues := by
  refine ⟨sched, spaced, stacked, top, returned, alive, idle, fun user => ?_,
    fun t live _ => inside t live⟩
  by_cases isIdle : host.current = host.state.idleTask
  · rw [isIdle] at user
    exact absurd user idle
  · exact absurd user (inside _ ⟨sched.current_off .freequeue, isIdle⟩).framed.not_user

/-- Whatever is done, it is done in the kernel. -/
theorem Carries.allInside (carries : Carries memory host view queues)
    (kernel : host.mode host.current ≠ .user) (live : queues.Process host.state.idleTask t) :
    Inside host.state t (host.mode t) view :=
  carries.kernel t live fun same => same ▸ kernel

omit [HandlerImage] in
theorem Host.Works.cases (works : host.Works op) (noTouch : ∀ page, op ≠ .touch page) :
    (host.current = host.state.idleTask ∧ Mode.inInterrupt.does op) ∨
      (host.current ≠ host.state.idleTask ∧ (host.mode host.current).does op ∧
        op.Below host.state ∧ ¬ host.state.Starts) := by
  cases op with
  | touch page => exact absurd rfl (noTouch page)
  | _ => exact works

omit [HandlerImage] in
theorem Host.Works.inKernel (works : host.Works op) (noTouch : ∀ page, op ≠ .touch page)
    (idle : host.mode host.state.idleTask ≠ .user) : host.mode host.current ≠ .user := by
  intro user
  rcases works.cases noTouch with ⟨isIdle, _⟩ | ⟨_, does, _⟩
  · rw [isIdle] at user
    exact idle user
  · rw [user] at does
    cases op with
    | touch page => exact absurd rfl (noTouch page)
    | _ => exact does

structure StepsTo (memory s after : State) (queues later : Queues) (op : Op) : Prop where
  sched : Sched .RR after later
  effect : Effect .RR s queues later after op
  spaced : Spaced (codeFrame memory) after later
  stacked : Stacked after later
  top : OnTop after
  returned : SwitchesReturn after
  idle : after.idleTask = s.idleTask

theorem Carries.steps (carries : Carries memory host view queues)
    (enabled : host.state.Enabled op) (keeps : KeepsOwnFrame host.state op) :
    ∃ later, StepsTo memory host.state (host.state.step Installed.RR.policy op) queues later op := by
  obtain ⟨later, sched, effect⟩ := carries.sched.step enabled
  have spaced := carries.spaced.step carries.sched enabled effect
  have top : OnTop (host.state.step Installed.RR.policy op) := carries.top.step
  have idle := carries.sched.step_idleTask enabled
  obtain ⟨stacked, returned⟩ := carries.stacked.step carries.sched carries.spaced enabled effect
  exact ⟨later, sched, effect, spaced, stacked, top, (returned rfl).mpr ⟨carries.returned, keeps⟩,
    idle⟩

/-- A process that is neither made nor gone stays in the kernel. -/
theorem Carries.remains (carries : Carries memory host view queues) (works : host.Works op)
    (noTouch : ∀ page, op ≠ .touch page) (enabled : host.state.Enabled op)
    (steps : StepsTo memory host.state after queues later op)
    (leaves : t = host.current → op.Below host.state → ¬ host.state.Starts →
      LeavesBehind host.state after)
    (live : queues.Process host.state.idleTask t) : Inside after t (host.mode t) view := by
  have inside := carries.allInside (works.inKernel noTouch carries.idle) live
  by_cases own : t = host.current
  · subst own
    rcases works.cases noTouch with ⟨isIdle, _⟩ | ⟨_, _, low, starts⟩
    · exact absurd isIdle live.2
    · exact (leaves rfl low starts).inside starts steps.returned inside
  · obtain ⟨_, passes⟩ := carries.spaced.passes carries.sched enabled steps.effect live.1 own
    exact passes.inside own (carries.stacked t live.1 own) inside

omit [HandlerImage] in
theorem Effect.sameFree (effect : Effect .RR s queues later after op) (noFork : op.isFork = false)
    (noExit : ∀ site, op ≠ .exit site) : SameFree queues later := by
  cases op with
  | fork site => exact Bool.noConfusion noFork
  | exit site => exact absurd rfl (noExit site)
  | yield site | charge v | touch page => exact effect.1
  | block site n | unblock site blocked | tick site => exact effect.1

theorem Carries.quiet (carries : Carries memory host view queues) (works : host.Works op)
    (noTouch : ∀ page, op ≠ .touch page) (noFork : op.isFork = false)
    (noExit : ∀ site, op ≠ .exit site) (enabled : host.state.Enabled op)
    (steps : StepsTo memory host.state after queues later op) :
    Carries memory { host with state := after } view later := by
  have free := steps.effect.sameFree noFork noExit
  have same : ∀ t, later.Process after.idleTask t ↔ queues.Process host.state.idleTask t := by
    intro t
    rw [steps.idle]
    exact free.process _ t
  refine .reached steps.sched steps.spaced steps.stacked steps.top steps.returned
    (fun t => (carries.alive t).trans (same t).symm) ?_ fun t live => ?_
  · show host.mode after.idleTask ≠ .user
    rw [steps.idle]
    exact carries.idle
  · exact carries.remains works noTouch enabled steps
      (fun _ low starts => steps.effect.leavesBehind low starts noFork noExit) ((same t).mp live)

theorem Carries.exit (carries : Carries memory host view queues) {site : SwitchSite}
    (works : host.Works (.exit site)) (process : host.state.Enabled (.exit site))
    (steps : StepsTo memory host.state after queues later (.exit site)) :
    Carries memory { host with state := after }
      (view.next sysenterConvention (.exit host.current)) later := by
  have free : ∀ t, t ∈ later.on .freequeue ↔ t ∈ queues.on .freequeue ∨ t = host.current :=
    steps.effect.1
  have same : ∀ t, later.Process after.idleTask t ↔
      queues.Process host.state.idleTask t ∧ t ≠ host.current := by
    intro t
    rw [steps.idle, Queues.Process, Queues.Process, free, not_or]
    exact and_right_comm
  refine .reached steps.sched steps.spaced steps.stacked steps.top steps.returned
    (fun t => ?_) ?_ fun t live => ?_
  · rw [same]
    exact and_congr_left fun _ => carries.alive t
  · show host.mode after.idleTask ≠ .user
    rw [steps.idle]
    exact carries.idle
  · obtain ⟨before, apart⟩ := (same t).mp live
    obtain ⟨goesOn, framed⟩ := carries.remains works (fun _ => Op.noConfusion) process steps
      (fun own => absurd own apart) before
    exact ⟨goesOn, framed⟩

omit [HandlerImage] in
theorem ForkSite.full_leavesBehind (site : ForkSite) (low : site.Below s) :
    LeavesBehind s (s.enterFork site) where
  frame := low.frame
  stays _ _ starts := by
    have place : taskAddr s.current site.depth = taskAddr s.current (PAGE_SIZE - 68) := starts.2
    have below := low.1
    exact taskAddr_apart (by omega) place
  waits other := absurd rfl other

omit [HandlerImage] in
theorem forked_child {site : ForkSite} {child : Task} {rest : List Task} {pid : DWord}
    (sched : Sched .RR s queues) (first : queues.on .freequeue = child :: rest)
    (forked : (s.enterFork site).sysFork.1 = .ok pid) : s.forked (.fork site) = some child := by
  have taken : (s.enterFork site).listFirst .freequeue = .node child :=
    sched.represents.listFirst _ first
  rw [State.forked, forked, taken]
  rfl

theorem Inside.calling (inside : Inside s s.current .inCall view) (starts : ¬ s.Starts) :
    view.activity s.current = .calling := by
  obtain ⟨goesOn, framed⟩ := inside
  have notBorn := fun born => starts ((goesOn_current.mp goesOn).mpr born)
  generalize view.activity s.current = activity at framed notBorn
  cases framed with
  | call area waits found answers =>
      cases activity with
      | computing => exact absurd rfl waits
      | calling => rfl
      | born => exact absurd rfl notBorn

theorem Carries.forkFails (carries : Carries memory host view queues) {site : ForkSite}
    (works : host.Works (.fork site)) (process : host.state.Enabled (.fork site))
    (low : site.Below host.state)
    (steps : StepsTo memory host.state (host.state.enterFork site) queues queues (.fork site)) :
    Carries memory { host with state := host.state.enterFork site } view queues := by
  refine .reached steps.sched steps.spaced steps.stacked steps.top steps.returned carries.alive
    carries.idle fun t live => ?_
  exact carries.remains works (fun _ => Op.noConfusion) process steps (fun _ _ _ => site.full_leavesBehind low) live

theorem Carries.forkMakes (carries : Carries memory host view queues) {site : ForkSite}
    {child : Task} {mm : Mm} (works : host.Works (.fork site))
    (process : host.state.Enabled (.fork site)) (inCall : host.mode host.current = .inCall)
    (depth : site.depth = PAGE_SIZE - 72) (low : site.Below host.state)
    (free : child ∈ queues.on .freequeue)
    (slots : ∀ t, t ∈ later.on .freequeue ↔ t ≠ child ∧ t ∈ queues.on .freequeue)
    (made : after = ((forkMapped (host.state.enterFork site) child mm).forkFinish child).2)
    (steps : StepsTo memory host.state after queues later (.fork site)) :
    Carries memory { state := after, mode := Function.update host.mode child .inCall }
      (view.next sysenterConvention (.fork host.current child)) later := by
  have isProcess : host.current ≠ host.state.idleTask := process
  have first := site.firstFrame host.state child mm
  rw [← made, depth] at first
  have apart : host.current ≠ child := by
    rintro rfl
    exact carries.sched.current_off .freequeue free
  have notIdle : child ≠ host.state.idleTask := carries.sched.fits _ child free
  have leaves := @ForkSite.leavesBehind _ host.state child mm site low apart
  rw [← made] at leaves
  have current := carries.inKernel isProcess (by rw [inCall]; exact Mode.noConfusion)
  have slot : ∀ t, later.Process after.idleTask t ↔
      queues.Process host.state.idleTask t ∨ t = child := by
    intro t
    rw [steps.idle, Queues.Process, Queues.Process, slots]
    by_cases own : t = child
    · subst own
      exact iff_of_true ⟨fun inFree => inFree.1 rfl, notIdle⟩ (.inr rfl)
    · simp only [ne_eq, own, not_false_eq_true, true_and, or_false]
  refine .reached steps.sched steps.spaced steps.stacked steps.top steps.returned
    (fun t => ?_) ?_ fun t live => ?_
  · rw [slot]
    exact or_congr (carries.alive t) .rfl
  · show Function.update host.mode child .inCall after.idleTask ≠ .user
    rw [steps.idle, Function.update_of_ne notIdle.symm]
    exact carries.idle
  · show Inside after t (Function.update host.mode child .inCall t) _
    rcases (slot t).mp live with before | rfl
    · have other : t ≠ child := fun same => before.1 (same ▸ free)
      obtain ⟨goesOn, framed⟩ := carries.remains works (fun _ => Op.noConfusion) process steps
        (fun _ _ _ => leaves) before
      rw [Function.update_of_ne other]
      refine ⟨?_, ?_⟩
      · rw [Processors.next, Processors.give_activity_of_ne _ _ _ other]
        exact goesOn
      · rw [Processors.next, Processors.give_activity_of_ne _ _ _ other,
          Processors.give_regs_of_ne _ _ _ other]
        exact framed
    · have framed := current.framed
      rw [inCall] at framed
      rw [Function.update_self]
      refine ⟨?_, ?_⟩
      · rw [Processors.next, Processors.give_activity]
        exact first.born apart.symm
      · rw [Processors.next, Processors.give_activity, Processors.give_regs]
        refine framed.child fun place high bound => ?_
        refine (first.stack place (by simp only [PAGE_SIZE] at high ⊢; omega) bound).trans ?_
        exact low.frame place high bound

theorem Host.tells_fork (host : Host) (policy : Policy) (site : ForkSite) :
    host.tells policy (.work (.fork site)) =
      (host.state.forked (.fork site)).toList.map (.fork host.current) := rfl

theorem Carries.fork (carries : Carries memory host view queues) {site : ForkSite}
    (works : host.Works (.fork site)) (process : host.state.Enabled (.fork site))
    (steps : StepsTo memory host.state (host.state.step Installed.RR.policy (.fork site)) queues
      later (.fork site)) :
    (Processors.each sysenterConvention start).Runs view (host.tells .rr (.work (.fork site))) ∧
      Carries memory (host.next .rr (.work (.fork site)))
        ((Processors.each sysenterConvention start).run view
          (host.tells .rr (.work (.fork site)))) later := by
  rcases works.cases fun _ => Op.noConfusion with ⟨_, nothing⟩ | ⟨_, does, ⟨depth, low⟩, starts⟩
  · exact absurd nothing id
  have inCall : host.mode host.current = .inCall := by
    generalize host.mode host.current = mode at does
    cases mode with
    | inCall => rfl
    | _ => exact absurd does id
  have isProcess : host.current ≠ host.state.idleTask := process
  have entered := carries.sched.enterFork site
  have ready := carries.spaced.enterFork site
  rcases ready.fork_cases entered process steps.effect.1 with
    ⟨_, rfl, full⟩ | ⟨child, free, mm, _, slots, made⟩
  · have none : host.state.forked (.fork site) = none := by
      rw [State.forked, full]
    have result : host.state.step Installed.RR.policy (.fork site) = host.state.enterFork site := by
      show (host.state.enterFork site).sysFork.2 = _
      rw [full]
    have goes : host.next .rr (.work (.fork site)) =
        { host with state := host.state.step Installed.RR.policy (.fork site) } := by
      rw [Host.next, none]
      rfl
    have told : host.tells .rr (.work (.fork site)) = [] := by
      rw [Host.tells_fork, none]
      rfl
    rw [told, goes]
    rw [result] at steps ⊢
    exact ⟨trivial, carries.forkFails works process low steps⟩
  · obtain ⟨first, rest, queue⟩ := List.exists_cons_of_ne_nil (List.ne_nil_of_mem free)
    have sched : Sched .RR (host.state.enterFork site).sysFork.2 later := steps.sched
    obtain rfl := ready.fork_child entered process queue sched slots
    obtain ⟨pid, succeeds⟩ : ∃ pid, (host.state.enterFork site).sysFork.1 = .ok pid := by
      rw [made]
      exact ⟨_, forkFinish_ok (forkMapped (host.state.enterFork site) first mm) first⟩
    have some := forked_child carries.sched queue succeeds
    have goes : host.next .rr (.work (.fork site)) =
        { state := host.state.step Installed.RR.policy (.fork site)
          mode := Function.update host.mode first .inCall } := by
      rw [Host.next, some]
      rfl
    have told : host.tells .rr (.work (.fork site)) = [.fork host.current first] := by
      rw [Host.tells_fork, some]
      rfl
    have current := carries.inKernel isProcess (by rw [inCall]; exact Mode.noConfusion)
    rw [inCall] at current
    have enabled : view.Enabled sysenterConvention (.fork host.current first) :=
      ⟨carries.live isProcess, current.calling starts,
        fun alive => ((carries.alive first).mp alive).1 free⟩
    rw [told, goes]
    exact ⟨⟨enabled, trivial⟩, carries.forkMakes works process inCall depth low free slots
      (congrArg Prod.snd made) steps⟩

theorem Carries.touch (carries : Carries memory host view queues) {page : Nat}
    (mapped : host.state.Mapped page) :
    Carries memory { host with state := { host.state with mm := (host.state.mm.translate page).2 } }
      view queues := by
  refine ⟨carries.sched.setMemory _, carries.spaced.touch mapped, carries.stacked.setMemory _,
    carries.top, carries.returned, carries.alive, carries.idle, fun user => ?_,
    fun t live inKernel => ?_⟩
  · obtain ⟨regs, computing, level⟩ := carries.user user
    exact ⟨regs, computing, level⟩
  · obtain ⟨goesOn, framed⟩ := carries.kernel t live inKernel
    exact ⟨goesOn, framed⟩

theorem Carries.work (carries : Carries memory host view queues)
    (enabled : host.Enabled (.work op)) :
    (Processors.each sysenterConvention start).Runs view (host.tells .rr (.work op)) ∧
      ∃ later, Carries memory (host.next .rr (.work op))
        ((Processors.each sysenterConvention start).run view (host.tells .rr (.work op))) later := by
  obtain ⟨works, allowed, keeps⟩ := enabled
  obtain ⟨later, steps⟩ := carries.steps allowed keeps
  cases op with
  | fork site =>
      obtain ⟨runs, after⟩ := carries.fork works allowed steps
      exact ⟨runs, later, after⟩
  | exit site =>
      have process : host.current ≠ host.state.idleTask := allowed
      exact ⟨⟨carries.live process, trivial⟩, later, carries.exit works allowed steps⟩
  | touch page => exact ⟨trivial, queues, carries.touch allowed⟩
  | yield site => exact ⟨trivial, later, carries.quiet works (fun _ => Op.noConfusion) rfl (fun _ => Op.noConfusion)
      allowed steps⟩
  | block site n => exact ⟨trivial, later, carries.quiet works (fun _ => Op.noConfusion) rfl (fun _ => Op.noConfusion)
      allowed steps⟩
  | unblock site blocked =>
      exact ⟨trivial, later, carries.quiet works (fun _ => Op.noConfusion) rfl (fun _ => Op.noConfusion)
      allowed steps⟩
  | tick site => exact ⟨trivial, later, carries.quiet works (fun _ => Op.noConfusion) rfl (fun _ => Op.noConfusion)
      allowed steps⟩
  | charge v => exact ⟨trivial, later, carries.quiet works (fun _ => Op.noConfusion) rfl (fun _ => Op.noConfusion)
      allowed steps⟩

end

end Zeos
