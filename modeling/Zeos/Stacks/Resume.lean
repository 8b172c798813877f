import Zeos.Schedule.Effects
import Zeos.Stacks.Switch

/-!
# What lies on the stacks of the tasks off the processor

Every live task but the running one can be resumed: at its saved stack pointer
are the frames it left, or the frame it was built with, and above them the stack
it had. Switches write only below the stack pointer of the running task.
-/

namespace Zeos

open Library Library.X86

section

variable [Image]

variable {t u : Task} {depth : Nat}

theorem slot_taskAddr {index : Nat} (inside : depth + 4 * index ≤ PAGE_SIZE) :
    slot (taskAddr t depth) index = taskAddr t (depth + 4 * index) := taskAddr_add t _ _ inside

theorem taskAddr_ne {first second : Nat} (firstBound : first < PAGE_SIZE)
    (secondBound : second < PAGE_SIZE) (apart : t ≠ u ∨ first ≠ second) :
    taskAddr t first ≠ taskAddr u second := by
  intro same
  have pages := congrArg PH_PAGE same
  rw [PH_PAGE_taskAddr t firstBound, PH_PAGE_taskAddr u secondBound] at pages
  obtain rfl := taskPage_injective pages
  rcases apart with other | other
  · exact other rfl
  · exact other ((taskAddr_inj (Nat.le_of_lt firstBound) (Nat.le_of_lt secondBound)).mp same)

theorem pushAll_taskAddr {cpu : Cpu} (esp : cpu.esp = taskAddr t depth) (values : List DWord)
    (room : 4 * values.length ≤ depth) (fits : depth ≤ PAGE_SIZE) :
    (cpu.pushAll values).esp = taskAddr t (depth - 4 * values.length) := by
  have top := cpu.pushAll_esp values
  rw [← taskAddr_sub t _ _ room fits, ← esp, ← top, slot]
  exact (BitVec.add_sub_cancel _ _).symm

/-- Pushing changes nothing above the stack pointer, and nothing on other stacks. -/
theorem pushAll_taskAddr_mem {cpu : Cpu} (esp : cpu.esp = taskAddr t depth) (values : List DWord)
    (room : 4 * values.length ≤ depth) (fits : depth ≤ PAGE_SIZE) {place : Nat}
    (bound : place < PAGE_SIZE) (apart : t ≠ u ∨ depth ≤ place) :
    (cpu.pushAll values).mem (taskAddr u place) = cpu.mem (taskAddr u place) := by
  refine cpu.pushAll_mem values fun index below => ?_
  rw [pushAll_taskAddr esp values room fits, slot_taskAddr (by omega)]
  refine taskAddr_ne bound (by omega) ?_
  rcases apart with other | above
  · exact .inl other.symm
  · exact .inr (by omega)

/-- The stack of `t` from `depth` on is the same in both memories. -/
def SameStack (t : Task) (depth : Nat) (mem other : DWord → DWord) : Prop :=
  ∀ place, depth ≤ place → place < PAGE_SIZE → mem (taskAddr t place) = other (taskAddr t place)

/-- The saved stack pointer of `t` points at `words`, above which the stack is that
of `cpu`, whose stack pointer is just above them. -/
structure Rests (s : State) (t : Task) (depth : Nat) (words : List DWord) (cpu : Cpu) : Prop where
  fits : depth + 4 * words.length ≤ PAGE_SIZE
  esp : cpu.esp = taskAddr t (depth + 4 * words.length)
  registerEsp : (s.task t).registerEsp = taskAddr t depth
  found : Holds s.cpu.mem (taskAddr t depth) words
  above : SameStack t (depth + 4 * words.length) s.cpu.mem cpu.mem

/-- The frames of a task that called `task_switch`, up to the stack pointer of the
call. -/
def gaveUpWords (cpu : Cpu) (base argument : DWord) : List DWord :=
  [base, Image.innerTaskSwitchRet, argument, cpu.ebx, cpu.edi, cpu.esi, cpu.ebp]

@[irreducible] def Resumable (s : State) (t : Task) : Prop :=
  match s.saved t with
  | .gaveUp cpu => ∃ depth base argument, depth + 32 ≤ PAGE_SIZE ∧
      Rests s t depth (gaveUpWords cpu base argument) cpu
  | .built cpu => cpu.eip ≠ Image.innerTaskSwitchRet ∧
      ∃ depth, Rests s t depth [cpu.ebp, cpu.eip] cpu

variable {s after : State} {cpu : Cpu} {words : List DWord}

theorem holds_sameStack {mem other : DWord → DWord} (holds : Holds mem (taskAddr t depth) words)
    (fits : depth + 4 * words.length ≤ PAGE_SIZE) (same : SameStack t depth other mem) :
    Holds other (taskAddr t depth) words := by
  refine holds.congr fun index bound => ?_
  rw [slot_taskAddr (by omega)]
  exact same _ (Nat.le_add_right _ _) (by omega)

structure Untouched (s after : State) (t : Task) : Prop where
  saved : after.saved t = s.saved t
  registerEsp : (after.task t).registerEsp = (s.task t).registerEsp
  stack : SameStack t 0 after.cpu.mem s.cpu.mem

theorem Untouched.trans {middle : State} (first : Untouched s middle t)
    (second : Untouched middle after t) : Untouched s after t where
  saved := second.saved.trans first.saved
  registerEsp := second.registerEsp.trans first.registerEsp
  stack place above bound := (second.stack place above bound).trans (first.stack place above bound)

theorem State.Quiet.untouched (quiet : s.Quiet after) (t : Task) : Untouched s after t where
  saved := by rw [quiet.saved]
  registerEsp := quiet.registerEsp t
  stack := by
    rw [quiet.cpu]
    exact fun _ _ _ => rfl

theorem Rests.congr (rests : Rests s t depth words cpu) (untouched : Untouched s after t) :
    Rests after t depth words cpu where
  fits := rests.fits
  esp := rests.esp
  registerEsp := untouched.registerEsp.trans rests.registerEsp
  found := holds_sameStack rests.found rests.fits fun place _ bound =>
    untouched.stack place (Nat.zero_le _) bound
  above place above bound :=
    (untouched.stack place (Nat.zero_le _) bound).trans (rests.above place above bound)

theorem Resumable.congr (resumable : Resumable s t) (untouched : Untouched s after t) :
    Resumable after t := by
  unfold Resumable at *
  rw [untouched.saved]
  cases history : s.saved t with
  | gaveUp cpu =>
      rw [history] at resumable
      obtain ⟨depth, base, argument, fits, rests⟩ := resumable
      exact ⟨depth, base, argument, fits, rests.congr untouched⟩
  | built cpu =>
      rw [history] at resumable
      obtain ⟨apart, depth, rests⟩ := resumable
      exact ⟨apart, depth, rests.congr untouched⟩

/-- On the stack of `t`, as `cpu` had it, with the stack pointer and the frame
pointer that belong there. -/
structure Continues (t : Task) (cpu returned : Cpu) (esp eip : DWord) : Prop where
  esp : returned.esp = esp
  eip : returned.eip = eip
  ebp : returned.ebp = cpu.ebp
  stack : ∀ place < PAGE_SIZE, cpu.esp.toNat ≤ (taskAddr t place).toNat →
    returned.mem (taskAddr t place) = cpu.mem (taskAddr t place)

/-- A switch to a task that gave up the processor returns to the caller there, with
its callee-saved registers; a switch to a task that never ran, to its first frame. -/
def ReturnsTo (new : Task) (saved : Saved) (returned : Cpu) : Prop :=
  match saved with
  | .gaveUp cpu =>
      Continues new cpu returned (cpu.esp + 4) (cpu.mem cpu.esp) ∧
        returned.ebx = cpu.ebx ∧ returned.esi = cpu.esi ∧ returned.edi = cpu.edi
  | .built cpu => Continues new cpu returned cpu.esp cpu.eip

/-- It does so whatever the body of `inner_task_switch` left in the registers. -/
def Event.Returns : Event → Prop
  | .taskSwitch new saved returned => ∀ body, ReturnsTo new saved (returned body)
  | _ => True

theorem SameStack.above {mem other : DWord → DWord} (same : SameStack t depth mem other)
    (fits : depth ≤ PAGE_SIZE) {place : Nat} (bound : place < PAGE_SIZE)
    (above : (taskAddr t depth).toNat ≤ (taskAddr t place).toNat) :
    mem (taskAddr t place) = other (taskAddr t place) := by
  rw [taskAddr_toNat t fits, taskAddr_toNat t (Nat.le_of_lt bound)] at above
  exact same place (by omega) bound

theorem returns_gaveUp {landed : Cpu} {base argument : DWord}
    (fits : depth + 32 ≤ PAGE_SIZE) (esp : cpu.esp = taskAddr t (depth + 28))
    (found : Holds landed.mem (taskAddr t depth) (gaveUpWords cpu base argument))
    (above : SameStack t (depth + 28) landed.mem cpu.mem) :
    ReturnsTo t (.gaveUp cpu) (leaveSwitch (landing landed (taskAddr t depth))) := by
  have top : slot (taskAddr t depth) 7 = taskAddr t (depth + 28) := slot_taskAddr (by omega)
  have ret : landed.mem (taskAddr t (depth + 28)) = cpu.mem cpu.esp := by
    rw [esp]
    exact above _ (Nat.le_refl _) (by omega)
  have next : landed.mem (slot (taskAddr t depth) (gaveUpWords cpu base argument).length) =
      cpu.mem cpu.esp := by
    show landed.mem (slot (taskAddr t depth) 7) = _
    rw [top, ret]
  have frames := found.concat next
  have after : taskAddr t depth + 32 = cpu.esp + 4 := by
    rw [esp]
    exact (taskAddr_add t _ 32 (by omega)).trans (taskAddr_add t _ 4 (by omega)).symm
  rw [leaveSwitch_frames frames]
  refine ⟨⟨after, rfl, rfl, fun place bound high => ?_⟩, rfl, rfl, rfl⟩
  rw [esp] at high
  exact above.above (by omega) bound high

theorem returns_built {landed : Cpu} (fits : depth + 8 ≤ PAGE_SIZE)
    (esp : cpu.esp = taskAddr t (depth + 8)) (apart : cpu.eip ≠ Image.innerTaskSwitchRet)
    (found : Holds landed.mem (taskAddr t depth) [cpu.ebp, cpu.eip])
    (above : SameStack t (depth + 8) landed.mem cpu.mem) :
    ReturnsTo t (.built cpu) (leaveSwitch (landing landed (taskAddr t depth))) := by
  have after : taskAddr t depth + 8 = cpu.esp := by
    rw [esp]
    exact taskAddr_add t _ 8 (by omega)
  rw [leaveSwitch_built found apart]
  refine ⟨after, rfl, rfl, fun place bound high => ?_⟩
  rw [esp] at high
  exact above.above (by omega) bound high

theorem Resumable.returns {landed : Cpu} (resumable : Resumable s t)
    (same : SameStack t 0 landed.mem s.cpu.mem) :
    ReturnsTo t (s.saved t) (leaveSwitch (landing landed (s.task t).registerEsp)) := by
  have kept : ∀ depth other, SameStack t depth s.cpu.mem other → SameStack t depth landed.mem other :=
    fun depth other rest place above bound =>
      (same place (Nat.zero_le _) bound).trans (rest place above bound)
  unfold Resumable at resumable
  cases history : s.saved t with
  | gaveUp cpu =>
      rw [history] at resumable
      obtain ⟨depth, base, argument, fits, rests⟩ := resumable
      rw [rests.registerEsp]
      exact returns_gaveUp fits rests.esp (holds_sameStack rests.found rests.fits
        fun place _ bound => same place (Nat.zero_le _) bound) (kept _ _ rests.above)
  | built cpu =>
      rw [history] at resumable
      obtain ⟨apart, depth, rests⟩ := resumable
      rw [rests.registerEsp]
      exact returns_built rests.fits rests.esp apart (holds_sameStack rests.found rests.fits
        fun place _ bound => same place (Nat.zero_le _) bound) (kept _ _ rests.above)

structure AtSite (s : State) (depth : Nat) : Prop where
  esp : s.cpu.esp = taskAddr s.current depth
  room : 104 ≤ depth
  fits : depth ≤ PAGE_SIZE

variable {new : Task} {argument : DWord}

theorem AtSite.entry (site : AtSite s depth) (new : Task) :
    (s.switchEntry new).esp = taskAddr s.current (depth - 8) :=
  pushAll_taskAddr site.esp [taskAddr new 0, s.cpu.eip]
    (by have := site.room; simp only [List.length_cons, List.length_nil]; omega) site.fits

theorem AtSite.pushed (site : AtSite s depth) (new : Task) (argument : DWord) :
    (switchPushed s new argument).esp = taskAddr s.current (depth - 48) := by
  have room := site.room
  have fits := site.fits
  have pushed := pushAll_taskAddr (site.entry new) (switchFrames (s.switchEntry new) argument
    (s.task new).registerEsp (taskAddr s.current 16)) (by simp [switchFrames]; omega)
    (by simp at fits ⊢; omega)
  refine pushed.trans (congrArg _ ?_)
  simp only [switchFrames, List.length_cons, List.length_nil]
  omega

/-- Memory above the call, and on other stacks, is that of the call. -/
theorem AtSite.pushed_entry_mem (site : AtSite s depth) (new : Task) (argument : DWord)
    {place : Nat} (bound : place < PAGE_SIZE) (apart : s.current ≠ u ∨ depth - 8 ≤ place) :
    (switchPushed s new argument).mem (taskAddr u place) =
      (s.switchEntry new).mem (taskAddr u place) := by
  have room := site.room
  have fits := site.fits
  exact pushAll_taskAddr_mem (site.entry new) _ (by simp [switchFrames]; omega)
    (by simp at fits ⊢; omega) bound apart

theorem AtSite.pushed_mem (site : AtSite s depth) (new : Task) (argument : DWord)
    (apart : s.current ≠ u) : SameStack u 0 (switchPushed s new argument).mem s.cpu.mem := by
  intro place _ bound
  have room := site.room
  refine (site.pushed_entry_mem new argument bound (.inl apart)).trans ?_
  exact pushAll_taskAddr_mem site.esp [taskAddr new 0, s.cpu.eip]
    (by simp only [List.length_cons, List.length_nil]; omega) site.fits bound (.inl apart)

/-- What a call of `task_switch` at `entry` leaves on the stack of `t`, once the
processor is at `switch_stack`. -/
structure Suspends (t : Task) (depth : Nat) (entry pushed : Cpu) : Prop where
  room : 104 ≤ depth
  fits : depth ≤ PAGE_SIZE
  esp : entry.esp = taskAddr t (depth - 8)
  frames : ∃ base argument,
    Holds pushed.mem (taskAddr t (depth - 36)) (gaveUpWords entry base argument)
  above : SameStack t (depth - 8) pushed.mem entry.mem

theorem AtSite.suspends (site : AtSite s depth) (new : Task) (argument : DWord) :
    Suspends s.current depth (s.switchEntry new) (switchPushed s new argument) := by
  have room := site.room
  have fits := site.fits
  have frames := switchPushed_holds s new argument
  rw [site.pushed new argument] at frames
  have saved := frames.drop 3
  rw [slot_taskAddr (by omega), show depth - 48 + 4 * 3 = depth - 36 by omega] at saved
  exact ⟨room, fits, site.entry new, ⟨_, _, saved⟩,
    fun place above bound => site.pushed_entry_mem new argument bound (.inr above)⟩

theorem Suspends.resumable {entry pushed : Cpu}
    (suspends : Suspends t depth entry pushed) (saved : s.saved t = .gaveUp entry)
    (mem : s.cpu.mem = pushed.mem) (registerEsp : (s.task t).registerEsp = entry.esp - 28) :
    Resumable s t := by
  have room := suspends.room
  have fits := suspends.fits
  have start : depth - 36 + 4 * 7 = depth - 8 := by omega
  obtain ⟨base, argument, frames⟩ := suspends.frames
  unfold Resumable
  rw [saved]
  refine ⟨depth - 36, base, argument, by omega, ?_, ?_, ?_, ?_, ?_⟩
  · show depth - 36 + 4 * 7 ≤ PAGE_SIZE
    omega
  · show _ = taskAddr t (depth - 36 + 4 * 7)
    rw [start, suspends.esp]
  · rw [registerEsp, suspends.esp]
    have saved := taskAddr_sub t (depth - 8) 28 (by omega) (by omega)
    rwa [show depth - 8 - 28 = depth - 36 by omega] at saved
  · rw [mem]
    exact frames
  · show SameStack t (depth - 36 + 4 * 7) _ _
    rw [start, mem]
    exact suspends.above

/-- What `switch_stack` must find in `register_esp` to return to its own caller: the
stack pointer it is about to save. -/
def OwnFrame (registerEsp : DWord) (t : Task) (depth : Nat) : Prop :=
  registerEsp = taskAddr t (depth - 36)

variable {entry pushed : Cpu} {sp : DWord}

theorem Suspends.returns_saved (suspends : Suspends t depth entry pushed) {landed : Cpu}
    (mem : landed.mem = pushed.mem) :
    ReturnsTo t (.gaveUp entry) (leaveSwitch (landing landed (taskAddr t (depth - 36)))) := by
  have room := suspends.room
  have fits := suspends.fits
  have top : depth - 36 + 28 = depth - 8 := by omega
  obtain ⟨base, argument, frames⟩ := suspends.frames
  rw [← mem] at frames
  refine returns_gaveUp (by omega) ?_ frames ?_
  · rw [top]
    exact suspends.esp
  · rw [top, mem]
    exact suspends.above

/-- The stack pointer the switch ends with tells where it landed. -/
theorem Suspends.landed (suspends : Suspends t depth entry pushed) {landed : Cpu}
    (returns : ReturnsTo t (.gaveUp entry) (leaveSwitch (landing landed sp))) :
    OwnFrame sp t depth ∨ landed.ebx = entry.ebx := by
  have room := suspends.room
  have fits := suspends.fits
  obtain ⟨⟨esp, _, _, _⟩, ebx, _⟩ := returns
  have after : entry.esp + 4 = taskAddr t (depth - 4) := by
    rw [suspends.esp]
    have up := taskAddr_add t (depth - 8) 4 (by omega)
    rwa [show depth - 8 + 4 = depth - 4 by omega] at up
  by_cases inner : landed.mem (sp + 4) = Image.innerTaskSwitchRet
  · left
    rw [leaveSwitch_landing_esp, if_pos inner, after] at esp
    have back := taskAddr_sub t (depth - 4) 32 (by omega) (by omega)
    rw [show depth - 4 - 32 = depth - 36 by omega, ← esp] at back
    rw [OwnFrame, ← back]
    exact (BitVec.add_sub_cancel _ _).symm
  · right
    have outside : (landing landed sp).eip ≠ Image.innerTaskSwitchRet := inner
    rw [leaveSwitch, if_neg outside] at ebx
    exact ebx

/-- Past the pops of `task_switch` the registers are what the body left, so only the stack
pointer about to be saved will do for every body. -/
theorem Suspends.returns_iff (suspends : Suspends t depth entry pushed)
    {landed : Cpu.CalleeSaved → Cpu} (mem : ∀ body, (landed body).mem = pushed.mem)
    (left : ∀ body, (landed body).ebx = body.ebx) :
    (∀ body, ReturnsTo t (.gaveUp entry) (leaveSwitch (landing (landed body) sp))) ↔
      OwnFrame sp t depth := by
  constructor
  · intro returns
    have other : entry.ebx + 1 ≠ entry.ebx := by bv_omega
    have body := suspends.landed (returns ⟨entry.ebx + 1, 0, 0⟩)
    rw [left] at body
    exact body.resolve_right other
  · rintro rfl body
    exact suspends.returns_saved (mem body)

end

end Zeos
