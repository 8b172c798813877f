import Zeos.Stacks.Processors

/-!
# Runs of processes and interrupts

From the boot on, the machine is a refinement of one that has a processor for each
process.
-/

namespace Zeos

open Library Library.X86

section

variable [Image] [HandlerImage]

variable {memory : State} {first : Cpu} {host : Host} {start view : Processor} {queues : Queues}
  {t : Task} {moves : List Move} {move : Move}

structure Fresh (memory : State) (first : Cpu) : Prop where
  user : level first.cs ≠ 0
  stack : ∀ t, SameStack t 0 first.mem memory.boot.cpu.mem

theorem Carries.begin {s : State} (sched : Sched .RR s queues)
    (spaced : Spaced (codeFrame memory) s queues) (stacked : Stacked s queues) (top : OnTop s)
    (returned : SwitchesReturn s) (process : s.current ≠ s.idleTask)
    (only : ∀ t, queues.Process s.idleTask t ↔ t = s.current) (user : level first.cs ≠ 0)
    (spares : SparesOthers s first) :
    Carries memory
      { state := { s with cpu := first }
        mode := fun t => if t = s.idleTask then .idling else .user }
      { alive := fun t => t = s.current
        activity := fun _ => .computing
        regs := fun _ => first.get } queues where
  sched := sched.setCpu first
  spaced := spaced.setCpu first
  stacked := spares.stacked stacked
  top := top
  returned := returned
  alive t := (only t).symm
  idle := by
    show (if s.idleTask = s.idleTask then Mode.idling else .user) ≠ .user
    rw [if_pos rfl]
    exact Mode.noConfusion
  user _ := ⟨rfl, rfl, user⟩
  kernel t live inKernel := by
    have same := (only t).mp live
    subst same
    have running : (if s.current = s.idleTask then Mode.idling else .user) = .user := if_neg process
    exact absurd running (inKernel rfl)

theorem boot_carries (fresh : Fresh memory first) :
    Carries memory (.boot memory first) (firstProcessor memory first) Queues.boot := by
  have apart : memory.boot.current ≠ memory.boot.idleTask := by
    rw [State.boot_current, State.boot_idleTask]
    decide
  have mine : ∀ t, Queues.boot.Process memory.boot.idleTask t ↔ t = memory.boot.current := by
    intro t
    rw [State.boot_idleTask, State.boot_current]
    exact Queues.process_boot
  have stacked : Stacked memory.boot Queues.boot := by
    intro t notFree off
    by_cases idle : t = memory.boot.idleTask
    · rw [idle, State.boot_idleTask]
      exact boot_resumable memory
    · exact absurd ((mine t).mp ⟨notFree, idle⟩) off
  exact .begin (boot_sched .RR memory) (boot_spaced memory).2 stacked
    (task1_onTop memory.prepare.initIdle _) (boot_switchesReturn memory) apart mine fresh.user
    fun t _ => fresh.stack t

theorem Carries.next (carries : Carries memory host view queues) (enabled : host.Enabled move) :
    (Processors.each sysenterConvention start).Runs view (host.tells .rr move) ∧
      ∃ later, Carries memory (host.next .rr move)
        ((Processors.each sysenterConvention start).run view (host.tells .rr move)) later := by
  cases move with
  | compute cpu =>
      obtain ⟨possible, after⟩ := carries.compute enabled
      exact ⟨possible, queues, after⟩
  | interrupt handler returned => exact ⟨trivial, queues, carries.interrupt enabled⟩
  | sysenter =>
      obtain ⟨possible, after⟩ := carries.sysenter enabled
      exact ⟨possible, queues, after⟩
  | work op => exact carries.work enabled
  | leave returned charged =>
      obtain ⟨possible, after⟩ := carries.leave enabled
      exact ⟨possible, queues, after⟩

/-- The kernel on one processor implements processors for all. -/
theorem sharing_refines (fresh : Fresh memory first) :
    System.Refines (sharing memory first)
      (Processors.each sysenterConvention (firstProcessor memory first))
      (fun host move => host.tells .rr move)
      (fun host view => ∃ queues, Carries memory host view queues) where
  start := by
    rintro host rfl
    exact ⟨_, rfl, _, boot_carries fresh⟩
  step move := by
    rintro ⟨queues, carries⟩ enabled
    exact carries.next enabled

/-- What a process finds when it is back, and where it is until then. -/
structure HasProcessor (host : Host) (view : Processor) : Prop where
  alive : ∀ t, view.alive t ↔ host.state.Process t
  runs : host.mode host.current = .user →
    view.alive host.current ∧ view.activity host.current = .computing ∧
      host.state.cpu.get = view.regs host.current
  waits : ∀ t, host.state.Process t → (t = host.current → host.mode t ≠ .user) →
    Framed host.state.cpu.mem t (view.regs t) (host.mode t) (view.activity t)

theorem Carries.hasProcessor (carries : Carries memory host view queues) :
    HasProcessor host view := by
  refine ⟨fun t => (carries.alive t).trans carries.sched.process_iff.symm, fun user => ?_,
    fun t process inKernel => ?_⟩
  · obtain ⟨regs, computing, _⟩ := carries.user user
    exact ⟨carries.live (carries.process user), computing, regs⟩
  · exact (carries.kernel t (carries.sched.process_iff.mp process) inKernel).framed

/-- For a process, an interrupt and a switch to others never happened. -/
theorem each_has_processor (fresh : Fresh memory first)
    (runs : (sharing memory first).Runs (.boot memory first) moves) :
    (Processors.each sysenterConvention (firstProcessor memory first)).Runs
        (firstProcessor memory first)
        ((sharing memory first).told (fun host move => host.tells .rr move)
          (.boot memory first) moves) ∧
      HasProcessor ((sharing memory first).run (.boot memory first) moves)
        ((Processors.each sysenterConvention (firstProcessor memory first)).run
          (firstProcessor memory first)
          ((sharing memory first).told (fun host move => host.tells .rr move)
            (.boot memory first) moves)) := by
  obtain ⟨possible, queues, carries⟩ :=
    (sharing_refines fresh).run ⟨_, boot_carries fresh⟩ runs
  exact ⟨possible, carries.hasProcessor⟩

/-- The process does nothing in user mode but being interrupted. -/
def OnlyInterrupted (t : Task) (host : Host) (move : Move) : Prop :=
  host.current = t → host.mode t = .user → ∃ handler returned, move = .interrupt handler returned

theorem Carries.spares {regs : Reg → DWord} (carries : Carries memory host view queues)
    (has : view.Has t .computing regs) (enabled : host.Enabled move)
    (only : OnlyInterrupted t host move) :
    ∀ event ∈ host.tells .rr move, Processors.Spares t event := by
  obtain ⟨possible, _⟩ := @Carries.next _ _ memory host view view queues move carries enabled
  have notCalling : host.mode host.current = .inCall → t ≠ host.current := by
    rintro inCall rfl
    have framed := (carries.allInside (t := host.current) (by rw [inCall]; exact Mode.noConfusion)
      ((carries.alive _).mp has.alive)).framed
    rw [inCall, has.activity] at framed
    cases framed with
    | call _ waits _ _ => exact waits rfl
  have notUser : host.mode host.current = .user →
      (∀ handler returned, move ≠ .interrupt handler returned) → t ≠ host.current := by
    rintro user other rfl
    obtain ⟨handler, returned, same⟩ := only rfl user
    exact other _ _ same
  cases move with
  | compute cpu =>
      have apart := notUser enabled.1 fun _ _ => Move.noConfusion
      intro event member
      rw [List.mem_singleton.mp member]
      exact apart
  | interrupt handler returned => exact fun _ member => absurd member List.not_mem_nil
  | sysenter =>
      have apart := notUser enabled.1 fun _ _ => Move.noConfusion
      rw [Host.tells]
      intro event member
      rcases List.mem_cons.mp member with rfl | answers
      · exact apart
      · cases outcome : host.state.systemCallHandler with
        | user after =>
            rw [outcome] at answers
            rw [List.mem_singleton.mp answers]
            exact apart
        | service name entered =>
            rw [outcome] at answers
            exact absurd answers List.not_mem_nil
        | outside slot entered =>
            rw [outcome] at answers
            exact absurd answers List.not_mem_nil
        | fault =>
            rw [outcome] at answers
            exact absurd answers List.not_mem_nil
  | work op =>
      intro event member
      cases op with
      | fork site =>
          rw [Host.tells_fork] at member possible
          cases forked : host.state.forked (.fork site) with
          | none =>
              rw [forked] at member
              exact absurd member List.not_mem_nil
          | some child =>
              rw [forked] at member possible
              rw [List.mem_singleton.mp member]
              rintro rfl
              exact possible.1.2.2 has.alive
      | exit site =>
          rw [List.mem_singleton.mp member]
          rcases enabled.1.cases fun _ => Op.noConfusion with ⟨_, nothing⟩ | ⟨_, does, _⟩
          · exact absurd nothing id
          · refine notCalling ?_
            generalize host.mode host.current = mode at does
            cases mode with
            | inCall => rfl
            | _ => exact absurd does id
      | _ => exact absurd member List.not_mem_nil
  | leave returned charged =>
      rw [Host.tells]
      intro event member
      by_cases inCall : host.mode host.current = .inCall
      · rw [if_pos inCall] at member
        rw [List.mem_singleton.mp member]
        exact notCalling inCall
      · rw [if_neg inCall] at member
        exact absurd member List.not_mem_nil

theorem Carries.rests {regs : Reg → DWord} (carries : Carries memory host view queues)
    (has : view.Has t .computing regs) (runs : (sharing memory first).Runs host moves)
    (only : (sharing memory first).Each (OnlyInterrupted t) host moves) :
    ∃ later view, Carries memory ((sharing memory first).run host moves) view later ∧
      view.Has t .computing regs := by
  induction moves generalizing host view queues with
  | nil => exact ⟨queues, view, carries, has⟩
  | cons move rest inductionHypothesis =>
      obtain ⟨_, later, after⟩ :=
        @Carries.next _ _ memory host view view queues move carries runs.1
      exact inductionHypothesis after (has.run (carries.spares has runs.1 only.1)) runs.2 only.2

/-- However often it is interrupted, and whatever the others do meanwhile, a process
finds its registers as they were. -/
theorem unchanged_by_interrupts {before meanwhile : List Move} (fresh : Fresh memory first)
    (earlier : (sharing memory first).Runs (.boot memory first) before)
    (left : host = (sharing memory first).run (.boot memory first) before)
    (user : host.mode host.current = .user)
    (runs : (sharing memory first).Runs host meanwhile)
    (only : (sharing memory first).Each (OnlyInterrupted host.current) host meanwhile)
    (back : ((sharing memory first).run host meanwhile).current = host.current)
    (again : ((sharing memory first).run host meanwhile).mode host.current = .user) :
    ((sharing memory first).run host meanwhile).state.cpu.get = host.state.cpu.get := by
  obtain ⟨_, queues, carries⟩ := (sharing_refines fresh).run ⟨_, boot_carries fresh⟩ earlier
  rw [← left] at carries
  obtain ⟨regs, computing, _⟩ := carries.user user
  obtain ⟨later, view, rests, has⟩ :=
    carries.rests ⟨carries.live (carries.process user), computing, regs.symm⟩ runs only
  rw [← back] at again has
  exact (rests.user again).regs.trans has.regs

omit [HandlerImage] in
/-- Back to the handler, whatever is still on the stack. -/
def unwound (s : State) (eax : DWord) : Cpu :=
  { s.cpu with
    eax := eax
    eip := s.cpu.mem (taskAddr s.current (PAGE_SIZE - 68))
    esp := taskAddr s.current (PAGE_SIZE - 64) }

omit [HandlerImage] in
theorem unwinds_unwound {s : State} (kernel : level s.cpu.cs = 0) (eax : DWord) :
    Unwinds s (unwound s eax) :=
  ⟨rfl, rfl, kernel, fun _ _ _ => rfl⟩

omit [HandlerImage] in
/-- `ret_from_fork` writes on the stack of the child. -/
theorem State.Starts.spares {s : State} (starts : s.Starts) :
    SparesOthers s (s.cpu.exec retFromFork) := by
  refine .of_writes (· = s.cpu.esp - 4) ?_ fun address apart => ?_
  · rintro address rfl
    refine ⟨PAGE_SIZE - 68 - 4, by decide, ?_⟩
    rw [starts.2]
    exact taskAddr_sub s.current (PAGE_SIZE - 68) 4 (by decide) (by decide)
  · rw [exec_retFromFork]
    exact Function.update_of_ne apart ..

/-- What happens next, if user code and the C functions of the kernel do as little as they can. -/
inductive Action where
  | compute (regs : Cpu)
  | interrupt (handler : Handler)
  | sysenter
  | fork
  | tick
  | ret (eax : DWord)
  /-- A child returns from `ret_from_fork`. -/
  | start

namespace Action

/-- Right below the return address to the handler. -/
def tickSite (host : Host) : SwitchSite where
  cpu := host.state.cpu
  depth := PAGE_SIZE - 72
  aligned := by decide
  room := by decide
  fits := by decide

def forkSite (host : Host) : ForkSite where
  cpu := host.state.cpu
  depth := PAGE_SIZE - 72
  aligned := by decide
  room := by decide
  fits := by decide

/-- `system_to_user` only returns. -/
def leaves (returned : Cpu) : Move :=
  .leave returned ((returned.exec (handlerCharge .clock)).exec [.pop .eip])

def toMove (host : Host) : Action → Move
  | .compute regs => .compute { regs with mem := host.state.cpu.mem }
  | .interrupt handler => .interrupt handler ((host.interrupted handler).cpu.exec [.pop .eip])
  | .sysenter => .sysenter
  | .fork => .work (.fork (forkSite host))
  | .tick => .work (.tick (tickSite host))
  | .ret eax => leaves (unwound host.state eax)
  | .start => leaves (host.state.cpu.exec retFromFork)

def Running (host : Host) (t : Task) (mode : Mode) : Prop :=
  host.current = t ∧ host.state.idleTask ≠ t ∧ host.mode t = mode

instance (host : Host) (t : Task) (mode : Mode) : Decidable (Running host t mode) :=
  inferInstanceAs (Decidable (_ ∧ _))

def Possible (host : Host) (t : Task) : Action → Prop
  | .compute regs => Running host t .user ∧ level regs.cs ≠ 0
  | .interrupt _ => Running host t .user
  | .sysenter =>
      Running host t .user ∧ host.state.cpu.eax ≠ MAX_SYSCALL ∧
        host.state.Readable (host.state.cpu.ebp + 4)
  | .fork => Running host t .inCall ∧ host.state.cpu.eip ≠ Image.retFromFork
  | .tick => Running host t .inInterrupt ∧ host.state.cpu.eip ≠ Image.retFromFork
  | .ret _ =>
      (Running host t .inCall ∨ Running host t .inInterrupt) ∧
        host.state.cpu.eip ≠ Image.retFromFork ∧
        level host.state.cpu.cs = 0 ∧ handlerAt (unwound host.state 0).eip ≠ some .keyboard
  | .start =>
      Running host t .inCall ∧ host.state.cpu.eip = Image.retFromFork ∧
        host.state.cpu.esp = taskAddr t (PAGE_SIZE - 68) ∧
        handlerAt (host.state.cpu.exec retFromFork).eip = none

instance (host : Host) (t : Task) : (action : Action) → Decidable (action.Possible host t)
  | .compute _ | .sysenter | .fork | .tick | .ret _ | .start =>
      inferInstanceAs (Decidable (_ ∧ _))
  | .interrupt _ => inferInstanceAs (Decidable (Running _ _ _))

theorem Possible.enabled {action : Action} (possible : action.Possible host t) :
    host.Enabled (action.toMove host) := by
  cases action with
  | compute regs =>
      obtain ⟨⟨rfl, _, user⟩, outside⟩ := possible
      exact ⟨user, outside, fun _ _ _ _ => rfl⟩
  | interrupt handler =>
      obtain ⟨rfl, _, user⟩ := possible
      exact ⟨user, .ret 17 _, fun _ _ _ _ _ => rfl⟩
  | sysenter =>
      obtain ⟨⟨rfl, _, user⟩, known, readable⟩ := possible
      exact ⟨user, known, readable⟩
  | fork =>
      obtain ⟨⟨rfl, process, inCall⟩, apart⟩ := possible
      refine ⟨.inr ⟨process.symm, ?_, ⟨rfl, Nat.le_refl _, fun _ _ _ => rfl⟩,
        fun starts => apart starts.1⟩, process.symm, trivial⟩
      rw [inCall]
      trivial
  | tick =>
      obtain ⟨⟨rfl, process, inInterrupt⟩, apart⟩ := possible
      refine ⟨.inr ⟨process.symm, ?_, ⟨Nat.le_refl _, fun _ _ _ => rfl⟩,
        fun starts => apart starts.1⟩, trivial, trivial⟩
      rw [inInterrupt]
      trivial
  | ret eax =>
      obtain ⟨inside, apart, kernel, notKeyboard⟩ := possible
      obtain ⟨rfl, process, notUser⟩ :
          host.current = t ∧ host.state.idleTask ≠ t ∧ host.mode t ≠ .user := by
        rcases inside with ⟨runs, process, mode⟩ | ⟨runs, process, mode⟩
        · exact ⟨runs, process, by rw [mode]; exact Mode.noConfusion⟩
        · exact ⟨runs, process, by rw [mode]; exact Mode.noConfusion⟩
      refine ⟨process.symm, notUser, ⟨fun _ _ _ _ _ => rfl, fun starts => absurd starts.1 apart,
        fun _ _ => unwinds_unwound kernel eax⟩, fun handler found => ?_⟩
      cases handler with
      | keyboard => exact absurd found notKeyboard
      | clock => exact ⟨.ret 17 _, fun _ _ _ _ _ => rfl⟩
  | start =>
      obtain ⟨⟨rfl, process, inCall⟩, first, place, noHandler⟩ := possible
      have starts : host.state.Starts := ⟨first, place⟩
      refine ⟨process.symm, by rw [inCall]; exact Mode.noConfusion,
        ⟨starts.spares, fun _ => rfl, fun _ goesOn => absurd starts goesOn⟩, fun handler found => ?_⟩
      rw [noHandler] at found
      cases found

def byUser : Action → Bool
  | .compute _ | .sysenter => true
  | .interrupt _ | .fork | .tick | .ret _ | .start => false

theorem Possible.onlyInterrupted {action : Action} {runs : Task}
    (possible : action.Possible host runs) (idle : runs = t → action.byUser = false) :
    OnlyInterrupted t host (action.toMove host) := by
  have inside : ∀ {mode}, Running host runs mode → mode ≠ .user → host.current = t →
      host.mode t = .user → False := by
    rintro mode ⟨rfl, _, found⟩ apart rfl user
    exact apart (found.symm.trans user)
  have asleep : host.current = t → Running host runs .user → action.byUser = false :=
    fun current running => idle (running.1.symm.trans current)
  intro current user
  cases action with
  | compute regs => exact absurd (asleep current possible.1) Bool.noConfusion
  | interrupt handler => exact ⟨_, _, rfl⟩
  | sysenter => exact absurd (asleep current possible.1) Bool.noConfusion
  | fork => exact (inside possible.1 Mode.noConfusion current user).elim
  | tick => exact (inside possible.1 Mode.noConfusion current user).elim
  | ret eax =>
      rcases possible.1 with inCall | inInterrupt
      · exact (inside inCall Mode.noConfusion current user).elim
      · exact (inside inInterrupt Mode.noConfusion current user).elim
  | start => exact (inside possible.1 Mode.noConfusion current user).elim

end Action

def play (system : System Host Move) : Host → List (Task × Action) → List Move
  | _, [] => []
  | host, (_, action) :: rest =>
      action.toMove host :: play system (system.next host (action.toMove host)) rest

def Plays (system : System Host Move) : Host → List (Task × Action) → Prop
  | _, [] => True
  | host, (t, action) :: rest =>
      action.Possible host t ∧ Plays system (system.next host (action.toMove host)) rest

instance decidablePlays (system : System Host Move) (host : Host) :
    (actions : List (Task × Action)) → Decidable (Plays system host actions)
  | [] => .isTrue trivial
  | (_, action) :: rest =>
      have := decidablePlays system (system.next host (action.toMove host)) rest
      inferInstanceAs (Decidable (_ ∧ _))

variable {actions : List (Task × Action)}

theorem Plays.runs (plays : Plays (sharing memory first) host actions) :
    (sharing memory first).Runs host (play (sharing memory first) host actions) := by
  induction actions generalizing host with
  | nil => trivial
  | cons action rest inductionHypothesis =>
      exact ⟨plays.1.enabled, inductionHypothesis plays.2⟩

theorem Plays.onlyInterrupted (plays : Plays (sharing memory first) host actions)
    (idle : ∀ entry ∈ actions, entry.1 = t → entry.2.byUser = false) :
    (sharing memory first).Each (OnlyInterrupted t) host
      (play (sharing memory first) host actions) := by
  induction actions generalizing host with
  | nil => trivial
  | cons entry rest inductionHypothesis =>
      obtain ⟨now, later⟩ := List.forall_mem_cons.mp idle
      exact ⟨plays.1.onlyInterrupted now, inductionHypothesis plays.2 later⟩

end

/-- The first process calls `fork`. -/
def sampleFirst : Cpu :=
  { sampleBoot.cpu with
    eax := 2, ebx := 0x11, ecx := 0x22, edx := 0x33, esi := 0x44, edi := 0x55
    ebp := 0x11BF00, esp := 0x11BF00, eip := 0x100010, eflags := 0x202
    cs := USER_CS, ss := USER_DS, ds := USER_DS, es := USER_DS }

def sampleSharing : System Host Move :=
  @sharing Image.sample HandlerImage.sample State.blank sampleFirst

def sampleHost : Host := @Host.boot Image.sample State.blank sampleFirst

def forks : List (Task × Action) := [(1, .sysenter), (1, .fork), (1, .ret 1001)]

def clockTick (t : Task) : List (Task × Action) := [(t, .interrupt .clock), (t, .tick), (t, .ret 0)]

/-- A quantum for the parent and one for the child, which computes. -/
def takeTurns : List (Task × Action) :=
  (List.replicate 9 (clockTick 1)).flatten ++
    [(1, .interrupt .clock), (1, .tick), (2, .start),
      (2, .compute { sampleFirst with ebx := 0x99, eip := 0x100040 })] ++
    (List.replicate 9 (clockTick 2)).flatten ++ [(2, .interrupt .clock), (2, .tick), (1, .ret 0)]

def sampleMoves (host : Host) (actions : List (Task × Action)) : List Move :=
  @play Image.sample HandlerImage.sample sampleSharing host actions

def forkedHost : Host := sampleSharing.run sampleHost (sampleMoves sampleHost forks)

def sampleTold (moves : List Move) : List ProcessorStep :=
  sampleSharing.told
    (fun host => @Host.tells Image.sample HandlerImage.sample host (@Policy.rr Image.sample))
    sampleHost moves

def sampleProcessor : Processor := @firstProcessor Image.sample State.blank sampleFirst

theorem sample_fresh : @Fresh Image.sample State.blank sampleFirst :=
  @Fresh.mk Image.sample State.blank sampleFirst (by decide) fun _ _ _ _ => rfl

theorem forks_runs : sampleSharing.Runs sampleHost (sampleMoves sampleHost forks) :=
  @Plays.runs Image.sample HandlerImage.sample State.blank sampleFirst sampleHost forks
    (by decide +kernel)

theorem takeTurns_plays :
    @Plays Image.sample HandlerImage.sample sampleSharing forkedHost takeTurns := by
  decide +kernel

theorem forks_takeTurns_plays :
    @Plays Image.sample HandlerImage.sample sampleSharing sampleHost (forks ++ takeTurns) := by
  decide +kernel

def twoProcesses : List Move := sampleMoves sampleHost (forks ++ takeTurns)

theorem twoProcesses_runs : sampleSharing.Runs sampleHost twoProcesses :=
  @Plays.runs Image.sample HandlerImage.sample State.blank sampleFirst sampleHost _
    forks_takeTurns_plays

theorem each_has_processor_takeTurns :
    @HasProcessor Image.sample HandlerImage.sample (sampleSharing.run sampleHost twoProcesses)
      ((Processors.each sysenterConvention sampleProcessor).run sampleProcessor
        (sampleTold twoProcesses)) :=
  (@each_has_processor Image.sample HandlerImage.sample State.blank sampleFirst twoProcesses
    sample_fresh twoProcesses_runs).2

theorem unchanged_by_interrupts_takeTurns :
    ((@sharing Image.sample HandlerImage.sample State.blank sampleFirst).run forkedHost
      (sampleMoves forkedHost takeTurns)).state.cpu.get = forkedHost.state.cpu.get := by
  have runs : forkedHost.current = 1 := by decide +kernel
  have user : forkedHost.mode 1 = .user := by decide +kernel
  have back : ((@sharing Image.sample HandlerImage.sample State.blank sampleFirst).run forkedHost
      (sampleMoves forkedHost takeTurns)).current = 1 := by decide +kernel
  have again : ((@sharing Image.sample HandlerImage.sample State.blank sampleFirst).run forkedHost
      (sampleMoves forkedHost takeTurns)).mode 1 = .user := by decide +kernel
  have idle : ∀ entry ∈ takeTurns, entry.1 = 1 → entry.2.byUser = false := by decide
  exact @unchanged_by_interrupts Image.sample HandlerImage.sample State.blank sampleFirst forkedHost
    (sampleMoves sampleHost forks) (sampleMoves forkedHost takeTurns) sample_fresh forks_runs rfl
    ((congrArg forkedHost.mode runs).trans user)
    (@Plays.runs Image.sample HandlerImage.sample State.blank sampleFirst forkedHost takeTurns
      takeTurns_plays)
    (@Plays.onlyInterrupted Image.sample HandlerImage.sample State.blank sampleFirst forkedHost
      forkedHost.current takeTurns takeTurns_plays
      fun entry member same => idle entry member (same.trans runs))
    (back.trans runs.symm) ((congrArg _ runs).trans again)

end Zeos
