import Zeos.Identity.Answers
import Zeos.Space.Protection
import Zeos.Space.Reuse
import Zeos.Space.View

/-!
# What processes see of memory

Between two kernel entries the running process loads and stores through the
processor. Behind tables, frames and a translation buffer that come and go, each
process has data pages of its own, a child starts with a copy of its parent's, and
all run one code. Accesses to pages of the kernel are left out here.
-/

namespace Zeos

open Library

/-- A kernel entry, the one service that writes to its caller, or an access of the
running process in user mode. -/
inductive Act where
  | kernel (op : Op)
  | getStats (pid st : DWord)
  | load (address : DWord)
  | store (address : DWord) (byte : Byte)

namespace Mm

structure Grants (mm : Mm) (write : Bool) (page : Nat) : Prop where
  present : (mm.dirPages mm.cr3).present = true ∧
    (mm.pagusrTable (mm.dirPages mm.cr3).pbaseAddr page).present = true
  user : (mm.dirPages mm.cr3).user = true ∧
    (mm.pagusrTable (mm.dirPages mm.cr3).pbaseAddr page).user = true
  rw : write = true → (mm.dirPages mm.cr3).rw = true ∧
    (mm.pagusrTable (mm.dirPages mm.cr3).pbaseAddr page).rw = true

end Mm

section

variable [Image]

namespace State

def userLoad (s : State) (address : DWord) : Byte × State :=
  let (byte, mm) := (Mm.bus s.kernelByte).load s.mm address
  (byte, { s with mm := mm })

def userStore (s : State) (address : DWord) (byte : Byte) : State :=
  { s with mm := (Mm.bus s.kernelByte).store s.mm address byte }

/-- The processor lets the running process access the page. That it is none of the kernel's,
which `set_ss_pag` opens to a child, is asked of a run. -/
def MayAccess (s : State) (write : Bool) (address : DWord) : Prop :=
  s.mm.Grants write (PH_PAGE address) ∧ NUM_PAG_KERNEL ≤ PH_PAGE address

/-- Where the copy of `sys_get_stats` faults, the call does not come back. -/
def AllowsAct (s : State) : Act → Prop
  | .kernel op => s.Enabled op
  | .getStats pid st => s.current ≠ s.idleTask ∧ (s.sysGetStats pid st).2.mm.fault = false
  | .load address => s.MayAccess false address
  | .store address _ => s.MayAccess true address

def act (policy : Policy) (s : State) : Act → State
  | .kernel op => s.step policy op
  | .getStats pid st => (s.sysGetStats pid st).2
  | .load address => (s.userLoad address).2
  | .store address byte => s.userStore address byte

def statsTask (s : State) (pid st : DWord) : Option Task :=
  if accessOk VERIFY_WRITE st (BitVec.ofNat 32 SIZEOF_STATS) = false then none
  else if pid.slt 0 then none
  else (List.finRange NR_TASKS).find? fun i => (s.task i).PID = pid

def receives (s : State) (st : DWord) (stats : Stats) : List ViewEvent :=
  storeEvents (fun index => userOwner s.current (PH_PAGE (offset st index)))
    (fun index => (offset st index).toNat % PAGE_SIZE) (byteOfWords stats.words) SIZEOF_STATS

/-- What an act means to the processes. -/
def tells (s : State) : Act → List ViewEvent
  | .kernel (.fork _) =>
      if s.listEmpty .freequeue then []
      else [.fork s.current (listHeadToTaskStruct (s.listFirst .freequeue))]
  | .kernel (.exit _) => [.exit s.current]
  | .kernel _ => []
  | .getStats pid st =>
      (s.statsTask pid st).elim [] fun t => s.receives st (s.reported t)
  | .load _ => []
  | .store address byte =>
      [storeEvent (userOwner s.current (PH_PAGE address)) (address.toNat % PAGE_SIZE) byte]

def view (s : State) (code : Nat → Nat) (alive : Task → Prop) : View where
  alive := alive
  shared place := s.mm.frames (code place.1) place.2
  own t place := s.mm.frames (s.mm.getFrame t (PAG_LOG_INIT_DATA + place.1)) place.2

end State

def machine (installed : Installed) (memory : State) : System State Act where
  initial s := s = memory.boot
  enabled := State.AllowsAct
  next := State.act installed.policy

def bootView (memory : State) : View := memory.boot.view (codeFrame memory) (· = 1)

structure Shows (code : Nat → Nat) (s : State) (queues : Queues) (view : View) : Prop where
  alive : ∀ t, view.alive t ↔ queues.Process s.idleTask t
  find : ∀ owner frame, s.mm.Owns code (queues.Process s.idleTask) owner frame →
    ∀ place < PAGE_SIZE, s.mm.frames frame place = view.find owner place

variable {installed : Installed} {memory s after : State} {queues later : Queues} {op : Op}
  {code : Nat → Nat} {view next : View} {child : Task} {back : Prop} {page : Nat}

omit [Image] in
theorem KeepsTables.owns (keeps : KeepsTables s after queues later)
    (idle : after.idleTask = s.idleTask) {owner : Owner} {frame : Nat}
    (owns : after.mm.Owns code (later.Process after.idleTask) owner frame) :
    s.mm.Owns code (queues.Process s.idleTask) owner frame := by
  cases owner with
  | code pag => exact owns
  | data t pag =>
      obtain ⟨process, bound, place⟩ := owns
      rw [idle] at process
      obtain ⟨notFree, same⟩ := keeps t process.1
      rw [Mm.getFrame, same] at place
      exact ⟨⟨notFree, process.2⟩, bound, place⟩

/-- The step stores nothing in user frames. -/
def KeepsFrames (s after : State) : Prop :=
  after.mm.frames = s.mm.frames ∧ after.idleTask = s.idleTask

omit [Image] in
theorem Shows.keeps (shows : Shows code s queues view) (tables : KeepsTables s after queues later)
    (frames : KeepsFrames s after) (alive : ∀ t, next.alive t ↔ later.Process s.idleTask t)
    (same : next.find = view.find) : Shows code after later next where
  alive t := by
    rw [frames.2]
    exact alive t
  find owner frame owns place inside := by
    rw [frames.1, same]
    exact shows.find owner frame (tables.owns frames.2 owns) place inside

omit [Image] in
theorem KeepsFrames.of_quiet (quiet : s.Quiet after) : KeepsFrames s after :=
  ⟨by rw [quiet.mm], quiet.idleTask⟩

theorem KeepsFrames.taskSwitch (keeps : KeepsFrames s after) (t : Task) :
    KeepsFrames s (after.taskSwitch t) := by
  obtain ⟨_, _, idle, memory⟩ := after.taskSwitch_frame t
  exact ⟨by rw [memory]; exact keeps.1, idle.trans keeps.2⟩

theorem KeepsFrames.of_handsOver (handsOver : HandsOver installed back s after later) :
    KeepsFrames s after := by
  obtain ⟨middle, t, quiet, _, _, rfl⟩ := handsOver
  exact (KeepsFrames.of_quiet quiet).taskSwitch t

theorem KeepsFrames.of_leaves (leaves : Leaves installed s queues later after) :
    KeepsFrames s after := by
  obtain ⟨_, quiet | handsOver⟩ := leaves
  · exact .of_quiet quiet
  · exact .of_handsOver handsOver

omit [Image] in
theorem Mm.freeData_frames (table : Task) (count : Nat) (mm : Mm) :
    (Mm.freeData table count mm).frames = mm.frames := by
  induction count with
  | zero => rfl
  | succ count inductionHypothesis =>
      rw [← inductionHypothesis]
      simp only [Mm.freeData, Mm.delSsPag, Mm.setEntry, Mm.freeFrame]
      split <;> rfl

theorem KeepsFrames.of_exits (exits : Exits s queues later after) : KeepsFrames s after := by
  obtain ⟨_, middle, t, quiet, _, rfl⟩ := exits
  have first : KeepsFrames s middle := by
    refine ⟨?_, quiet.idleTask⟩
    rw [quiet.mm]
    exact Mm.freeData_frames _ _ _
  exact first.taskSwitch t

omit [Image] in
theorem Mm.translate_frames (mm : Mm) (page : Nat) : (mm.translate page).2.frames = mm.frames := by
  unfold Mm.translate
  dsimp only
  split
  · rfl
  · split <;> rfl

theorem KeepsFrames.of_effect (effect : Effect installed s queues later after op)
    (noFork : NoFork s op) : KeepsFrames s after := by
  cases op with
  | fork site => exact Bool.noConfusion noFork
  | exit site => exact KeepsFrames.of_exits (s := s.enter site) effect
  | yield site => exact KeepsFrames.of_handsOver (s := s.enter site) effect.2
  | block site n => exact KeepsFrames.of_leaves (s := s.enter site) effect
  | unblock site blocked => exact KeepsFrames.of_leaves (s := s.enter site) effect
  | tick site => exact KeepsFrames.of_leaves (s := s.enter site) effect
  | charge v => exact .of_quiet effect.2
  | touch page =>
      obtain ⟨_, rfl⟩ := effect
      exact ⟨s.mm.translate_frames page, rfl⟩

theorem Sched.step_idleTask (sched : Sched installed s queues) (enabled : s.Enabled op) :
    (s.step installed.policy op).idleTask = s.idleTask := by
  by_cases noFork : NoFork s op
  · obtain ⟨_, _, effect⟩ := sched.step enabled
    exact (KeepsFrames.of_effect effect noFork).2
  · cases op with
    | fork site =>
        obtain ⟨_, _, _, _, _, idle⟩ := (sched.enterFork site).sysFork
        exact idle
    | _ => exact absurd rfl noFork

theorem Shows.noFork (shows : Shows code s queues view) (spaced : Spaced code s queues)
    (sched : Sched installed s queues) (enabled : s.Enabled op)
    (effect : Effect installed s queues later after op) (noFork : NoFork s op)
    (alive : ∀ t, next.alive t ↔ later.Process s.idleTask t) (same : next.find = view.find) :
    Shows code after later next :=
  shows.keeps (spaced.keepsTables sched enabled effect noFork)
    (KeepsFrames.of_effect effect noFork) alive same

theorem Shows.forked (shows : Shows code s queues view)
    (spaced : Spaced code s queues) (live : queues.Process s.idleTask s.current)
    (free : child ∈ queues.on .freequeue) (notIdle : child ≠ s.idleTask)
    (idle : after.idleTask = s.idleTask)
    (slots : ∀ t, t ∈ later.on .freequeue ↔ t ≠ child ∧ t ∈ queues.on .freequeue)
    (duplicates : s.mm.Duplicates code (queues.Process s.idleTask) s.current child after.mm) :
    Shows code after later (view.next (.fork s.current child)) := by
  have processes : ∀ t, later.Process s.idleTask t ↔ queues.Process s.idleTask t ∨ t = child := by
    intro t
    simp only [Queues.Process, slots, not_and_or, not_not]
    constructor
    · rintro ⟨rfl | notFree, process⟩
      · exact .inr rfl
      · exact .inl ⟨notFree, process⟩
    · rintro (⟨notFree, process⟩ | rfl)
      · exact ⟨.inr notFree, process⟩
      · exact ⟨.inl rfl, notIdle⟩
  -- the child's frames are nobody else's
  have fresh : ∀ owner frame, s.mm.Owns code (queues.Process s.idleTask) owner frame →
      ∀ pag < NUM_PAG_DATA, frame ≠ after.mm.getFrame child (PAG_LOG_INIT_DATA + pag) := by
    intro owner frame owns pag bound same
    have mine := duplicates.pool.accounted.exclusive (.inl owns) (.inr ⟨pag, bound, rfl, same⟩)
    rw [mine] at owns
    exact owns.1.1 free
  constructor
  · intro t
    rw [idle, processes, ← shows.alive]
    rfl
  · intro owner frame owns place inside
    cases owner with
    | code pag =>
        have before : s.mm.Owns code (queues.Process s.idleTask) (.code pag) frame := owns
        rw [duplicates.others _ (spaced.space.pool.inUse before).1 (fresh _ _ before)]
        exact shows.find _ _ before place inside
    | data t pag =>
        obtain ⟨process, bound, rfl⟩ := owns
        rw [idle, processes] at process
        by_cases isChild : t = child
        · subst isChild
          rw [duplicates.bytes pag bound place inside,
            shows.find (.data s.current pag) _ ⟨live, bound, rfl⟩ place inside]
          simp [Images.next, View.find]
        · have member := process.resolve_right isChild
          have before : s.mm.Owns code (queues.Process s.idleTask) (.data t pag)
              (after.mm.getFrame t (PAG_LOG_INIT_DATA + pag)) := by
            rw [Mm.getFrame, duplicates.tables t isChild]
            exact ⟨member, bound, rfl⟩
          rw [duplicates.others _ (spaced.space.pool.inUse before).1 (fresh _ _ before),
            shows.find _ _ before place inside]
          simp [Images.next, View.find, isChild]

/-- In user mode processes get at their code and their data, and idle at nothing. -/
theorem Spaced.grants (spaced : Spaced code s queues) (sched : Sched installed s queues)
    {write : Bool} (grants : s.mm.Grants write page) (user : NUM_PAG_KERNEL ≤ page) :
    queues.Process s.idleTask s.current ∧ Mm.OwnPage page := by
  have row := spaced.space.rows s.mm.cr3
  obtain ⟨⟨_, present⟩, ⟨_, allowed⟩, _⟩ := grants
  rw [row, spaced.loaded] at present allowed
  have process : s.current ≠ s.idleTask := by
    intro isIdle
    rw [isIdle, spaced.space.idle, Mm.initTableEntry_user] at allowed
    exact Bool.noConfusion allowed
  refine ⟨⟨sched.current_off .freequeue, process⟩, user, ?_⟩
  by_contra high
  rw [spaced.space.beyond _ _ (Nat.le_of_not_lt high)] at present
  exact Bool.noConfusion present

theorem Spaced.maps (spaced : Spaced code s queues) (mapped : s.Mapped page) :
    s.mm.Maps page (s.mm.getFrame s.current page) := by
  have row := spaced.space.rows s.mm.cr3
  refine ⟨mapped, by rw [row, spaced.loaded]; rfl, ?_⟩
  rintro entry member rfl
  rw [← (spaced.coherent entry member).2, row, spaced.loaded]
  rfl

theorem Spaced.loadedMap_own (spaced : Spaced code s queues)
    (live : queues.Process s.idleTask s.current) (own : Mm.OwnPage page) :
    s.mm.loadedMap page = some (s.mm.getFrame s.current page) := by
  obtain ⟨_, mapped, _⟩ := spaced.user_page live own.1 own.2
  rw [spaced.loadedMap] at mapped ⊢
  split at mapped
  · rename_i present
    rw [if_pos present]
  · exact absurd mapped nofun

theorem Spaced.owns (spaced : Spaced code s queues)
    (live : queues.Process s.idleTask s.current) (own : Mm.OwnPage page) :
    s.mm.Owns code (queues.Process s.idleTask) (userOwner s.current page)
      (s.mm.getFrame s.current page) := by
  obtain ⟨frame, mapped, _, owns⟩ := spaced.user_page live own.1 own.2
  rw [Option.some.inj ((spaced.loadedMap_own live own).symm.trans mapped)]
  exact owns

omit [Image] in
theorem Mm.Owns.unique {mm : Mm} {process : Task → Prop} {owner : Owner} {first second : Nat}
    (one : mm.Owns code process owner first) (other : mm.Owns code process owner second) :
    first = second := by
  cases owner with
  | code pag => exact one.2.trans other.2.symm
  | data t pag => exact one.2.2.trans other.2.2.symm

theorem Shows.userLoad (shows : Shows code s queues view) (spaced : Spaced code s queues)
    (sched : Sched installed s queues) {address : DWord} (may : s.MayAccess false address) :
    (s.userLoad address).1 =
      view.find (userOwner s.current (PH_PAGE address)) (address.toNat % PAGE_SIZE) := by
  obtain ⟨live, own⟩ := spaced.grants sched may.1 may.2
  obtain ⟨_, _, result, _⟩ := Mm.translate_of_maps (spaced.maps may.1.present.2)
  have owns := spaced.owns live own
  rw [← shows.find _ _ owns _ (Nat.mod_lt _ (by decide))]
  simp only [State.userLoad, Mm.bus, result, if_neg (Nat.not_lt.mpr (spaced.space.pool.inUse owns).1)]

theorem Spaced.userStore_eq (spaced : Spaced code s queues) {address : DWord}
    (mapped : s.Mapped (PH_PAGE address)) (byte : Byte) :
    s.userStore address byte =
      State.withFrames { s with mm := (s.mm.translate (PH_PAGE address)).2 }
        (Function.update s.mm.frames (s.mm.getFrame s.current (PH_PAGE address))
          (Function.update (s.mm.frames (s.mm.getFrame s.current (PH_PAGE address)))
            (address.toNat % PAGE_SIZE) byte)) := by
  obtain ⟨_, _, result, _⟩ := Mm.translate_of_maps (spaced.maps mapped)
  simp only [State.userStore, Mm.bus, result]
  rfl

omit [Image] in
/-- Where memory was written it shows what was written, and nothing else changed. -/
theorem Shows.writes (shows : Shows code s queues view) (alive : next.alive = view.alive)
    (tables : after.mm.pagusrTable = s.mm.pagusrTable) (idle : after.idleTask = s.idleTask)
    (bytes : ∀ owner frame, s.mm.Owns code (queues.Process s.idleTask) owner frame →
      ∀ place < PAGE_SIZE, (after.mm.frames frame place = next.find owner place) ∨
        (after.mm.frames frame place = s.mm.frames frame place ∧
          next.find owner place = view.find owner place)) :
    Shows code after queues next := by
  constructor
  · intro t
    rw [alive, idle]
    exact shows.alive t
  · intro owner frame owns place inside
    have before : s.mm.Owns code (queues.Process s.idleTask) owner frame :=
      KeepsTables.owns (fun t notFree => ⟨notFree, by rw [tables]⟩) idle owns
    rcases bytes owner frame before place inside with written | ⟨kept, same⟩
    · exact written
    · rw [kept, same]
      exact shows.find owner frame before place inside

theorem Shows.userStore (shows : Shows code s queues view) (spaced : Spaced code s queues)
    (live : queues.Process s.idleTask s.current) {address : DWord}
    (own : Mm.OwnPage (PH_PAGE address)) (mapped : s.Mapped (PH_PAGE address)) (byte : Byte) :
    Shows code (s.userStore address byte) queues (view.next (storeEvent
      (userOwner s.current (PH_PAGE address)) (address.toNat % PAGE_SIZE) byte)) := by
  rw [spaced.userStore_eq mapped]
  refine shows.writes (View.alive_store _ _ _ _) (s.mm.translate_pagusrTable _) rfl ?_
  intro owner frame owns place inside
  have mine := spaced.owns live own
  rw [View.find_store]
  simp only [State.withFrames]
  by_cases same : owner = userOwner s.current (PH_PAGE address)
  · subst same
    rw [owns.unique mine, Function.update_self, Function.update_apply]
    by_cases here : place = address.toNat % PAGE_SIZE
    · simp [here]
    · simp [here]
  · have apart : frame ≠ s.mm.getFrame s.current (PH_PAGE address) := by
      rintro rfl
      exact same (spaced.space.pool.accounted.exclusive owns mine)
    rw [Function.update_of_ne apart, if_neg fun both => same both.1]
    exact .inr ⟨rfl, rfl⟩

omit [Image] in
theorem Mm.Delivers.kept {mm : Mm} {source dest : DWord} {size frame place : Nat}
    (delivers : mm.Delivers source dest size) (coherent : mm.Coherent)
    (kernel : Nat → Nat → Byte) (above : NUM_PAG_KERNEL ≤ frame)
    (apart : ∀ index < size, mm.loadedMap (PH_PAGE (offset dest index)) = some frame →
      (offset dest index).toNat % PAGE_SIZE ≠ place) :
    (copyToUser (Mm.bus kernel) source dest size mm).2.frames frame place =
      mm.frames frame place := by
  have kept := (delivers.copied coherent kernel).frame (frame, place) fun index bound same => by
    obtain ⟨other, mapped, _⟩ := delivers.writes index bound
    rw [Mm.loadedMap_place coherent kernel mapped, Prod.mk.injEq] at same
    exact apart index bound (by rw [mapped, same.1]) same.2.symm
  have bytes : ∀ any : Mm,
      (mm.window kernel mm.loadedMap coherent.maps).cell any (frame, place) = any.frames frame place :=
    fun any => if_neg (Nat.not_lt.mpr above)
  rwa [bytes, bytes] at kept

theorem statsTask_none {pid st : DWord} (none : s.statsTask pid st = none) :
    (s.sysGetStats pid st).2 = s := by
  unfold State.statsTask at none
  unfold State.sysGetStats
  split at none
  · rename_i refused
    rw [if_pos refused]
  · rename_i accepted
    rw [if_neg accepted]
    split at none
    · rename_i negative
      rw [if_pos negative]
    · rename_i number
      rw [if_neg number, none]

theorem statsTask_some {pid st : DWord} {t : Task} (found : s.statsTask pid st = some t) :
    Accepted st ∧ (s.sysGetStats pid st).2 = statsAnswered s t st := by
  unfold State.statsTask at found
  split at found
  · exact absurd found nofun
  · rename_i accepted
    split at found
    · exact absurd found nofun
    · rename_i number
      refine ⟨(Bool.not_eq_false _).mp accepted, ?_⟩
      unfold State.sysGetStats
      rw [if_neg accepted, if_neg number, found]
      unfold statsAnswered statsCopied State.refreshed
      dsimp only

theorem Shows.getStats (start : View) (shows : Shows code s queues view)
    (spaced : Spaced code s queues) (live : queues.Process s.idleTask s.current) {st : DWord}
    (inUser : InUserPages st) (t : Task) :
    Shows code (statsAnswered s t st) queues
      ((Images.family start).run view (s.receives st (s.reported t))) := by
  have own : ∀ index < SIZEOF_STATS, Mm.OwnPage (PH_PAGE (offset st index)) := fun index bound =>
    inUser.user_page bound
  have delivers := spaced.stats_delivers live inUser t
  obtain ⟨⟨_, _, _, _, shape⟩, _⟩ := statsCopied_accessed spaced.coherent t st
  have tables : (statsAnswered s t st).mm.pagusrTable = s.mm.pagusrTable := by
    rw [statsAnswered_mm, shape]
  have distinct : ∀ i < SIZEOF_STATS, ∀ j < SIZEOF_STATS,
      userOwner s.current (PH_PAGE (offset st i)) = userOwner s.current (PH_PAGE (offset st j)) →
      (offset st i).toNat % PAGE_SIZE = (offset st j).toNat % PAGE_SIZE → i = j := by
    intro i iBound j jBound owners places
    have pages := userOwner_inj (own i iBound).1 (own j jBound).1 owners
    exact delivers.apart i iBound j jBound (by rw [pages]) places
  refine shows.writes (View.alive_stores start _) tables rfl ?_
  intro owner frame owns place inside
  by_cases hit : ∃ index < SIZEOF_STATS, owner = userOwner s.current (PH_PAGE (offset st index)) ∧
      place = (offset st index).toNat % PAGE_SIZE
  · obtain ⟨index, bound, rfl, rfl⟩ := hit
    have byte := spaced.statsAnswered_bytes live inUser t bound
    have mapped : (statsAnswered s t st).mm.loadedMap (PH_PAGE (offset st index)) =
        s.mm.loadedMap (PH_PAGE (offset st index)) := by
      rw [statsAnswered_mm, shape]
      rfl
    rw [State.userByte, mapped, spaced.loadedMap_own live (own index bound), Option.map_some,
      Option.some.injEq] at byte
    rw [owns.unique (spaced.owns live (own index bound)), byte]
    exact .inl (View.find_stores start distinct bound).symm
  · right
    constructor
    · rw [statsAnswered_mm, statsCopied_eq]
      refine delivers.kept spaced.coherent _ (spaced.space.pool.inUse owns).1 ?_
      intro index bound mapped same
      rw [spaced.loadedMap_own live (own index bound), Option.some.injEq] at mapped
      have mine := spaced.owns live (own index bound)
      rw [mapped] at mine
      exact hit ⟨index, bound, spaced.space.pool.accounted.exclusive owns mine, same.symm⟩
    · exact View.find_stores_other start fun index bound both => hit ⟨index, bound, both⟩

def Presents (installed : Installed) (code : Nat → Nat) (s : State) (view : View) : Prop :=
  ∃ queues, Sched installed s queues ∧ Spaced code s queues ∧ Shows code s queues view

omit [Image] in
theorem Shows.self (alive : Task → Prop) (same : ∀ t, alive t ↔ queues.Process s.idleTask t) :
    Shows code s queues (s.view code alive) := by
  refine ⟨same, ?_⟩
  rintro (pag | ⟨t, pag⟩) frame owns place inside
  · rw [owns.2]
    rfl
  · rw [owns.2.2]
    rfl

theorem boot_presents (installed : Installed) (memory : State) :
    Presents installed (codeFrame memory) memory.boot (bootView memory) := by
  refine ⟨_, boot_sched installed memory, (boot_spaced memory).2, Shows.self _ fun t => ?_⟩
  rw [State.boot_idleTask]
  exact Queues.process_boot.symm

theorem Presents.fork (start : View) (sched : Sched installed s queues)
    (spaced : Spaced code s queues) (shows : Shows code s queues view) (site : ForkSite)
    (process : s.Enabled (.fork site)) :
    (Images.family start).Runs view (s.tells (.kernel (.fork site))) ∧
      Presents installed code (s.step installed.policy (.fork site))
        ((Images.family start).run view (s.tells (.kernel (.fork site)))) := by
  have entered := sched.enterFork site
  have ready := spaced.enterFork site
  have live : queues.Process s.idleTask s.current := ⟨sched.current_off .freequeue, process⟩
  obtain ⟨later, afterSched, forks, _, _, idle⟩ := entered.sysFork
  obtain ⟨result, ⟨none, full⟩ | ⟨child, free, _, slots, duplicates⟩⟩ :=
    ready.sysFork entered process forks
  · have empty : s.listEmpty .freequeue = true := (sched.represents.listEmpty_iff _).mpr none
    have after : s.step installed.policy (.fork site) = s.enterFork site := by
      show (s.enterFork site).sysFork.2 = _
      rw [full]
    rw [State.tells, if_pos empty, after]
    exact ⟨trivial, queues, entered, ready, shows.alive, shows.find⟩
  · obtain ⟨first, rest, queue⟩ := List.exists_cons_of_ne_nil (List.ne_nil_of_mem free)
    obtain rfl := ready.fork_child entered process queue afterSched slots
    have some : ¬ s.listEmpty .freequeue = true := by
      rw [State.listEmpty, sched.represents.listEmpty_iff, queue]
      exact List.cons_ne_nil _ _
    have taken : s.listFirst .freequeue = .node first := sched.represents.listFirst _ queue
    have enabled : view.Enabled (.fork s.current first) :=
      ⟨(shows.alive _).mpr live, fun alive => ((shows.alive _).mp alive).1 free⟩
    rw [State.tells, if_neg some, taken]
    exact ⟨⟨enabled, trivial⟩, later, afterSched, result,
      shows.forked spaced live free (sched.fits _ first free) idle slots duplicates⟩

theorem Presents.exit (start : View) (sched : Sched installed s queues)
    (spaced : Spaced code s queues) (shows : Shows code s queues view) (site : SwitchSite)
    (process : s.Enabled (.exit site)) :
    (Images.family start).Runs view [.exit s.current] ∧
      Presents installed code (s.step installed.policy (.exit site))
        (view.next (.exit s.current)) := by
  have live : queues.Process s.idleTask s.current := ⟨sched.current_off .freequeue, process⟩
  have enabled : s.Enabled (.exit site) := process
  obtain ⟨later, afterSched, effect⟩ := sched.step enabled
  refine ⟨⟨(shows.alive _).mpr live, trivial⟩, later, afterSched,
    spaced.step sched process effect, shows.noFork spaced sched process effect rfl (fun t => ?_)
      rfl⟩
  have slots : t ∈ later.on .freequeue ↔ t ∈ queues.on .freequeue ∨ t = s.current := effect.1 t
  simp only [Images.next, shows.alive, Queues.Process, slots, not_or]
  exact and_right_comm

/-- The other kernel entries mean nothing to the processes. -/
theorem Presents.quiet (sched : Sched installed s queues) (spaced : Spaced code s queues)
    (shows : Shows code s queues view) (enabled : s.Enabled op) (noFork : NoFork s op)
    (free : ∀ later after, Effect installed s queues later after op → SameFree queues later) :
    Presents installed code (s.step installed.policy op) view := by
  obtain ⟨later, afterSched, effect⟩ := sched.step enabled
  refine ⟨later, afterSched, spaced.step sched enabled effect,
    shows.noFork spaced sched enabled effect noFork (fun t => ?_) rfl⟩
  rw [shows.alive, (free later _ effect).process]

theorem Presents.kernel (start : View) (presents : Presents installed code s view)
    (enabled : s.Enabled op) :
    (Images.family start).Runs view (s.tells (.kernel op)) ∧
      Presents installed code (s.step installed.policy op)
        ((Images.family start).run view (s.tells (.kernel op))) := by
  obtain ⟨queues, sched, spaced, shows⟩ := presents
  cases op with
  | fork site => exact Presents.fork start sched spaced shows site enabled
  | exit site => exact Presents.exit start sched spaced shows site enabled
  | yield site => exact ⟨trivial, .quiet sched spaced shows enabled rfl fun _ _ effect => effect.1⟩
  | block site n =>
      exact ⟨trivial, .quiet sched spaced shows enabled rfl fun _ _ effect => effect.1⟩
  | unblock site blocked =>
      exact ⟨trivial, .quiet sched spaced shows enabled rfl fun _ _ effect => effect.1⟩
  | tick site => exact ⟨trivial, .quiet sched spaced shows enabled rfl fun _ _ effect => effect.1⟩
  | charge v => exact ⟨trivial, .quiet sched spaced shows enabled rfl fun _ _ effect => effect.1⟩
  | touch page =>
      exact ⟨trivial, .quiet sched spaced shows enabled rfl fun _ _ effect => effect.1⟩

theorem Presents.load (presents : Presents installed code s view) {address : DWord}
    (may : s.MayAccess false address) : Presents installed code (s.userLoad address).2 view := by
  obtain ⟨queues, sched, spaced, shows⟩ := presents
  have after : (s.userLoad address).2 =
      { s with mm := (s.mm.translate (PH_PAGE address)).2 } := by
    obtain ⟨_, _, result, _⟩ := Mm.translate_of_maps (spaced.maps may.1.present.2)
    simp only [State.userLoad, Mm.bus, result]
  rw [after]
  refine ⟨queues, sched.setMemory _, spaced.touch may.1.present.2, ?_⟩
  refine shows.keeps (fun t notFree => ⟨notFree, ?_⟩) ⟨s.mm.translate_frames _, rfl⟩ shows.alive rfl
  rw [Mm.translate_pagusrTable]

theorem Presents.getStats (start : View) (presents : Presents installed code s view)
    {pid st : DWord} (process : s.current ≠ s.idleTask)
    (returned : (s.sysGetStats pid st).2.mm.fault = false) :
    (Images.family start).Runs view (s.tells (.getStats pid st)) ∧
      Presents installed code (s.sysGetStats pid st).2
        ((Images.family start).run view (s.tells (.getStats pid st))) := by
  obtain ⟨queues, sched, spaced, shows⟩ := presents
  have live : queues.Process s.idleTask s.current := ⟨sched.current_off .freequeue, process⟩
  rw [State.tells]
  cases found : s.statsTask pid st with
  | none =>
      rw [statsTask_none found]
      exact ⟨trivial, queues, sched, spaced, shows⟩
  | some t =>
      obtain ⟨accepted, result⟩ := statsTask_some found
      rw [result, statsAnswered_mm] at returned
      have inUser := (spaced.statsCopied_fault live accepted t).mp returned
      rw [result, Option.elim_some]
      refine ⟨View.stores_run start _ fun index bound u pag mine => ?_, queues,
        sched.statsAnswered t st, spaced.statsAnswered t st returned,
        shows.getStats start spaced live inUser t⟩
      have owns := spaced.owns live (inUser.user_page bound)
      rw [mine] at owns
      exact (shows.alive u).mpr owns.1

theorem Presents.store (start : View) (presents : Presents installed code s view) {address : DWord}
    (may : s.MayAccess true address) (byte : Byte) :
    (Images.family start).Runs view (s.tells (.store address byte)) ∧
      Presents installed code (s.userStore address byte)
        ((Images.family start).run view (s.tells (.store address byte))) := by
  obtain ⟨queues, sched, spaced, shows⟩ := presents
  obtain ⟨live, own⟩ := spaced.grants sched may.1 may.2
  have stored := shows.userStore spaced live own may.1.present.2 byte
  have owns := spaced.owns live own
  refine ⟨⟨?_, trivial⟩, queues, ?_, ?_, stored⟩
  · cases known : userOwner s.current (PH_PAGE address) with
    | code pag => trivial
    | data t pag =>
        rw [known] at owns
        exact (shows.alive t).mpr owns.1
  · rw [spaced.userStore_eq may.1.present.2]
    exact (sched.setMemory _).withFrames _
  · rw [spaced.userStore_eq may.1.present.2]
    exact (spaced.touch may.1.present.2).withFrames _

/-- The kernel, its tables and its translation buffer implement processes with memory of
their own. -/
theorem machine_refines (installed : Installed) (memory : State) :
    System.Refines (machine installed memory) (Images.family (bootView memory)) State.tells
      (Presents installed (codeFrame memory)) where
  start := by
    rintro s rfl
    exact ⟨_, rfl, boot_presents installed memory⟩
  step act presents allowed := by
    cases act with
    | kernel op => exact presents.kernel _ allowed
    | getStats pid st => exact presents.getStats _ allowed.1 allowed.2
    | load address => exact ⟨trivial, presents.load allowed⟩
    | store address byte => exact presents.store _ allowed byte

/-- With this history, latest event first, all processes find what they should. -/
structure SeesOwnMemory (memory s : State) (history : List ViewEvent) : Prop where
  loads : ∀ address, s.MayAccess false address → (s.userLoad address).1 =
    lastStored (bootView memory) history (userOwner s.current (PH_PAGE address))
      (address.toNat % PAGE_SIZE)
  keeps : ∀ t, s.Process t → ∀ pag < NUM_PAG_DATA, ∀ place < PAGE_SIZE,
    s.mm.frames (s.dataFrame t pag) place =
      lastStored (bootView memory) history (.data t pag) place
  reads_iff : ∀ page ≥ NUM_PAG_KERNEL, s.mm.Grants false page ↔
    s.current ≠ s.idleTask ∧ page < PAG_LOG_INIT_DATA + NUM_PAG_DATA
  writes_data : s.current ≠ s.idleTask → ∀ pag < NUM_PAG_DATA,
    s.mm.Grants true (PAG_LOG_INIT_DATA + pag)
  fault : s.mm.fault = false

theorem Spaced.reads (spaced : Spaced code s queues)
    (live : queues.Process s.idleTask s.current) (own : Mm.OwnPage page) :
    s.mm.Grants false page := by
  have row := spaced.space.rows s.mm.cr3
  have bits : (s.mm.pagusrTable s.current page).present = true ∧
      (s.mm.pagusrTable s.current page).user = true := by
    cases pageKind page with
    | kernel low => exact absurd own.1 (Nat.not_le.mpr low)
    | code bound =>
        rcases spaced.space.layout _ live with original | forked
        · rw [original.code _ bound]
          exact ⟨rfl, rfl⟩
        · rw [forked.code _ bound]
          exact ⟨rfl, rfl⟩
    | data bound =>
        rw [spaced.space.data _ live _ bound]
        exact ⟨rfl, rfl⟩
    | beyond high => exact absurd own.2 (Nat.not_lt.mpr high)
  constructor
  · rw [row, spaced.loaded]
    exact ⟨rfl, bits.1⟩
  · rw [row, spaced.loaded]
    exact ⟨rfl, bits.2⟩
  · exact nofun

theorem Spaced.writes_data (spaced : Spaced code s queues)
    (live : queues.Process s.idleTask s.current) {pag : Nat} (bound : pag < NUM_PAG_DATA) :
    s.mm.Grants true (PAG_LOG_INIT_DATA + pag) := by
  have row := spaced.space.rows s.mm.cr3
  have entry := spaced.space.data _ live pag bound
  constructor
  · rw [row, spaced.loaded, entry]
    exact ⟨rfl, rfl⟩
  · rw [row, spaced.loaded, entry]
    exact ⟨rfl, rfl⟩
  · rw [row, spaced.loaded, entry]
    exact fun _ => ⟨rfl, rfl⟩

theorem Presents.seesOwnMemory {events : List ViewEvent} (presents : Presents installed code s
    ((Images.family (bootView memory)).run (bootView memory) events)) :
    SeesOwnMemory memory s events.reverse := by
  obtain ⟨queues, sched, spaced, shows⟩ := presents
  constructor
  · intro address may
    rw [shows.userLoad spaced sched may, View.find_run]
  · intro t process pag bound place inside
    have live := sched.process_iff.mp process
    rw [spaced.dataFrame live.1, ← View.find_run]
    exact shows.find (.data t pag) _ ⟨live, bound, rfl⟩ place inside
  · intro page user
    constructor
    · intro grants
      obtain ⟨live, own⟩ := spaced.grants sched grants user
      exact ⟨live.2, own.2⟩
    · rintro ⟨process, high⟩
      exact spaced.reads ⟨sched.current_off .freequeue, process⟩ ⟨user, high⟩
  · intro process pag bound
    exact spaced.writes_data ⟨sched.current_off .freequeue, process⟩ bound
  · exact spaced.space.fault

/-- Over any run under one policy of kernel entries, calls of `sys_get_stats` and accesses in
user mode to the user pages, whatever the translation buffer keeps: a process finds in its data what was last stored
there on the line of forks that leads to it, and in its code what was last stored there. -/
theorem memory_by_lineage {acts : List Act}
    (runs : (machine installed memory).Runs memory.boot acts) :
    (Images.family (bootView memory)).Runs (bootView memory)
        ((machine installed memory).told State.tells memory.boot acts) ∧
      SeesOwnMemory memory ((machine installed memory).run memory.boot acts)
        ((machine installed memory).told State.tells memory.boot acts).reverse := by
  obtain ⟨possible, presents⟩ :=
    (machine_refines installed memory).run (boot_presents installed memory) runs
  exact ⟨possible, presents.seesOwnMemory⟩

end

def sampleMachine : System State Act := @machine Image.sample .RR State.blank

/-- The first process stores a byte and forks. -/
def storesAndForks : List Act := [.store 0x108000 7, .kernel (.fork ForkSite.top)]

theorem storesAndForks_runs (allowed : @State.MayAccess sampleBoot true 0x108000) :
    sampleMachine.Runs sampleBoot storesAndForks := by
  have process : sampleBoot.current ≠ sampleBoot.idleTask := by decide
  exact ⟨allowed, process, trivial⟩

theorem memory_by_lineage_storesAndForks : @SeesOwnMemory Image.sample State.blank
    (sampleMachine.run sampleBoot storesAndForks)
    (sampleMachine.told State.tells sampleBoot storesAndForks).reverse := by
  have process : sampleBoot.current ≠ sampleBoot.idleTask := by decide
  have start := (@memory_by_lineage Image.sample .RR State.blank [] trivial).2
  have allowed := @SeesOwnMemory.writes_data Image.sample _ _ _ start process 0 (by decide)
  exact (@memory_by_lineage Image.sample .RR State.blank storesAndForks
    (storesAndForks_runs ⟨allowed, by decide⟩)).2

end Zeos
