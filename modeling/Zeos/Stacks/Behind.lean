import Zeos.Stacks.Host

/-!
# What the kernel leaves of a task

Everything the kernel does for a process happens below the frame of its handler.
Where a task goes on says whether it is a child that has not run.
-/

namespace Zeos

open Library Library.X86

section

variable [Image]

variable {s middle after : State} {queues later : Queues} {op : Op} {t new : Task}
  {depth below above : Nat} {activity : Activity} {installed : Installed} {back : Prop}
  {code : Nat → Nat}

/-- A child waits at `ret_from_fork`, and only a child does. -/
def Saved.Suits (saved : Saved) (t : Task) (activity : Activity) : Prop :=
  match saved with
  | .gaveUp cpu => activity ≠ .born ∧ cpu.esp + 4 ≠ taskAddr t (PAGE_SIZE - 68)
  | .built cpu =>
      activity = .born ∧ cpu.eip = Image.retFromFork ∧ cpu.esp = taskAddr t (PAGE_SIZE - 68)

/-- A task in the kernel goes on at `ret_from_fork` if it is a child, and only then. -/
def GoesOn (s : State) (t : Task) (activity : Activity) : Prop :=
  if t = s.current then (s.Starts ↔ activity = .born) else (s.saved t).Suits t activity

theorem goesOn_current : GoesOn s s.current activity ↔ (s.Starts ↔ activity = .born) := by
  unfold GoesOn
  rw [if_pos rfl]

theorem Saved.Suits.starts_iff {saved : Saved} {cpu : Cpu} (suits : saved.Suits t activity)
    (returns : ReturnsTo t saved cpu) :
    cpu.eip = Image.retFromFork ∧ cpu.esp = taskAddr t (PAGE_SIZE - 68) ↔ activity = .born := by
  cases saved with
  | gaveUp entry =>
      obtain ⟨notBorn, apart⟩ := suits
      have esp : cpu.esp = entry.esp + 4 := returns.1.esp
      exact iff_of_false (fun starts => apart (esp.symm.trans starts.2)) notBorn
  | built frame =>
      obtain ⟨isBorn, eip, esp⟩ := suits
      exact iff_of_true ⟨returns.eip.trans eip, returns.esp.trans esp⟩ isBorn

structure LeavesBehind (s after : State) : Prop where
  frame : SameStack s.current (PAGE_SIZE - 68) after.cpu.mem s.cpu.mem
  stays : after.current = s.current → SwitchesReturn after → ¬ after.Starts
  waits : after.current ≠ s.current →
    ∀ activity, activity ≠ .born → (after.saved s.current).Suits s.current activity

theorem taskAddr_apart {place : Nat} (low : place < PAGE_SIZE - 68) :
    taskAddr t place ≠ taskAddr t (PAGE_SIZE - 68) := by
  simp only [PAGE_SIZE] at low
  exact taskAddr_ne (by simp only [PAGE_SIZE]; omega) (by decide) (.inr (by
    simp only [PAGE_SIZE]
    omega))

theorem AtSite.entry_above (site : AtSite s depth) (new : Task) :
    (s.switchEntry new).esp + 4 = taskAddr s.current (depth - 4) := by
  have room := site.room
  have fits := site.fits
  rw [site.entry new]
  have up := taskAddr_add s.current (depth - 8) 4 (by omega)
  rwa [show depth - 8 + 4 = depth - 4 by omega] at up

theorem AtSite.leavesBehind (site : AtSite s depth) (low : depth + 72 ≤ PAGE_SIZE) (new : Task) :
    LeavesBehind s (s.taskSwitch new) := by
  have room := site.room
  have fits := site.fits
  have entry := site.entry_above new
  have apart : taskAddr s.current (depth - 4) ≠ taskAddr s.current (PAGE_SIZE - 68) :=
    taskAddr_apart (by omega)
  have whole := taskSwitch_spec s new
  generalize s.taskSwitch new = after at *
  obtain ⟨argument, spec⟩ := whole
  constructor
  · intro place high bound
    rw [spec.mem, site.pushed_entry_mem new argument bound (.inr (by omega))]
    exact pushAll_taskAddr_mem site.esp [taskAddr new 0, s.cpu.eip]
      (by simp only [List.length_cons, List.length_nil]; omega) fits bound (.inr (by omega))
  · rintro same returns ⟨_, esp⟩
    have self : new = s.current := spec.current.symm.trans same
    have event := returns _ (by rw [spec.switches]; exact List.mem_cons_self)
    subst self
    rw [Function.update_self] at event
    obtain ⟨body, landing⟩ := spec.cpu
    have landed : after.cpu.esp = (s.switchEntry s.current).esp + 4 := by
      rw [landing]
      exact (event body).1.esp
    rw [same, landed, entry] at esp
    exact apart esp
  · intro other activity notBorn
    rw [spec.saved, Function.update_self]
    exact ⟨notBorn, entry.trans_ne apart⟩

theorem State.Quiet.leavesBehind (quiet : s.Quiet after) (starts : ¬ s.Starts) :
    LeavesBehind s after where
  frame := by
    rw [quiet.cpu]
    exact fun _ _ _ => rfl
  stays _ _ := by
    rw [State.Starts, quiet.cpu, quiet.current]
    exact starts
  waits other := absurd quiet.current other

theorem State.Quiet.then_leavesBehind (quiet : s.Quiet middle)
    (leaves : LeavesBehind middle after) : LeavesBehind s after := by
  obtain ⟨frame, stays, waits⟩ := leaves
  rw [quiet.current] at frame stays waits
  rw [quiet.cpu] at frame
  exact ⟨frame, stays, waits⟩

theorem HandsOver.leavesBehind (handsOver : HandsOver installed back s after later)
    (site : AtSite s depth) (low : depth + 72 ≤ PAGE_SIZE) : LeavesBehind s after := by
  obtain ⟨middle, new, quiet, _, _, result⟩ := handsOver
  rw [result]
  exact quiet.then_leavesBehind ((site.quiet quiet).leavesBehind low new)

theorem AtSite.not_starts (site : AtSite s depth) (low : depth + 72 ≤ PAGE_SIZE) : ¬ s.Starts := by
  rintro ⟨_, esp⟩
  rw [site.esp] at esp
  have fits := site.fits
  exact taskAddr_apart (by omega) esp

theorem Leaves.leavesBehind (leaves : Leaves installed s queues later after)
    (site : AtSite s depth) (low : depth + 72 ≤ PAGE_SIZE) : LeavesBehind s after := by
  rcases leaves.2 with quiet | handsOver
  · exact quiet.leavesBehind (site.not_starts low)
  · exact handsOver.leavesBehind site low

theorem Passes.goesOn (passes : Passes s after t) (off : t ≠ s.current)
    (resumable : Resumable s t) (goesOn : GoesOn s t activity) : GoesOn after t activity := by
  unfold GoesOn at *
  rw [if_neg off] at goesOn
  by_cases on : t = after.current
  · rw [if_pos on, State.Starts, ← on]
    exact goesOn.starts_iff (passes.dispatched resumable on.symm)
  · rw [if_neg on, passes.untouched.saved]
    exact goesOn

theorem LeavesBehind.goesOn (leaves : LeavesBehind s after) (notBorn : activity ≠ .born)
    (returned : SwitchesReturn after) : GoesOn after s.current activity := by
  unfold GoesOn
  by_cases same : s.current = after.current
  · rw [if_pos same]
    exact iff_of_false (leaves.stays same.symm returned) notBorn
  · rw [if_neg same]
    exact leaves.waits (Ne.symm same) activity notBorn

theorem CallSite.Below.frame {site : CallSite below above} (low : site.Below s) :
    SameStack s.current (PAGE_SIZE - 68) (s.enter site).cpu.mem s.cpu.mem := by
  intro place high bound
  refine Eq.trans ?_ (low.2 place high bound)
  exact if_pos (PH_PAGE_taskAddr s.current bound)

theorem CallSite.Below.leavesBehind {site : CallSite below above} (low : site.Below s)
    (leaves : LeavesBehind (s.enter site) after) : LeavesBehind s after where
  frame place high bound := (leaves.frame place high bound).trans (low.frame place high bound)
  stays := leaves.stays
  waits := leaves.waits

/-- The running task, where it is neither forked nor gone. -/
theorem Effect.leavesBehind (effect : Effect installed s queues later after op)
    (low : op.Below s) (starts : ¬ s.Starts) (noFork : op.isFork = false)
    (noExit : ∀ site, op ≠ .exit site) : LeavesBehind s after := by
  cases op with
  | fork site => exact Bool.noConfusion noFork
  | exit site => exact absurd rfl (noExit site)
  | yield site =>
      exact CallSite.Below.leavesBehind low (effect.2.leavesBehind (site.atSite s) low.1)
  | block site n | unblock site blocked | tick site =>
      exact CallSite.Below.leavesBehind low (Leaves.leavesBehind effect (site.atSite s) low.1)
  | charge v => exact effect.2.leavesBehind starts
  | touch page =>
      obtain ⟨_, rfl⟩ := effect
      exact ⟨fun _ _ _ => rfl, fun _ _ => starts, fun other => absurd rfl other⟩

variable {child : Task} {mm : Mm}

theorem forkFinish_esp (mm : Mm) (ebp : s.cpu.ebp = taskAddr s.current depth) (room : 60 ≤ depth)
    (fits : depth + 4 ≤ PAGE_SIZE) :
    ((forkMapped s child mm).forkFinish child).2.cpu.esp = s.cpu.esp := by
  obtain ⟨before, finish⟩ := forkFinish_eq (forkMapped s child mm) child
  have result := forkStack_eq (forkMapped s child mm) child ebp room fits
  have mapped : (forkMapped s child mm).cpu = { s.cpu with mem := (forkCopied s child).cpu.mem } := rfl
  rw [finish.result]
  show before.cpu.esp = _
  rw [finish.cpu, result, mapped]

theorem ForkSite.leavesBehind (site : ForkSite) (low : site.Below s) (apart : s.current ≠ child) :
    LeavesBehind s ((forkMapped (s.enterFork site) child mm).forkFinish child).2 := by
  have first := site.firstFrame s child mm
  have fits := site.fits
  have esp := @forkFinish_esp _ (s.enterFork site) site.depth child mm rfl site.room (by omega)
  generalize ((forkMapped (s.enterFork site) child mm).forkFinish child).2 = after at *
  have current : after.current = s.current := first.current
  have kept := (first.others s.current apart).stack
  refine ⟨fun place high bound => ?_, fun _ _ starts => ?_, fun other => absurd current other⟩
  · exact (kept place (Nat.zero_le _) bound).trans (low.frame place high bound)
  · have top := starts.2
    rw [esp, current] at top
    have place : taskAddr s.current site.depth = taskAddr s.current (PAGE_SIZE - 68) := top
    have below := low.1
    exact taskAddr_apart (by omega) place

/-- The child waits at `ret_from_fork`, under the frame its parent is under. -/
theorem FirstFrame.born (first : FirstFrame s child (PAGE_SIZE - 72) after)
    (off : child ≠ s.current) : GoesOn after child .born := by
  unfold GoesOn
  rw [first.current, if_neg off, first.saved]
  exact ⟨rfl, rfl, rfl⟩

end

end Zeos
