import Zeos.Identity.Registry
import Zeos.Space.Rollback

/-!
# A failing `sys_fork`

The rollback gives the slot and its frames back. Two things stay behind: the slot keeps
the PID that was copied from the parent, and the lowest frame, if the loop got it, stays
marked as used.
-/

namespace Zeos

open Library

/-- The structure `sys_get_stats` copies, if it finds the PID. -/
def State.statsFound (s : State) (pid : DWord) : Option Stats :=
  ((List.finRange NR_TASKS).find? fun i => (s.task i).PID = pid).map s.reported

structure WellFormed (s : State) (queues : Queues) : Prop where
  represents : Represents s.links queues
  running : queues.Off s.current
  freePids : ∀ t ∈ queues.on .freequeue, (s.task t).PID = -1
  used : ∀ t ∉ queues.on .freequeue, t ≠ s.idleTask → ∀ pag < NUM_PAG_DATA,
    s.mm.physMem (s.dataFrame t pag) = USED_FRAME
  rows : ∀ t, (s.mm.dirPages t).pbaseAddr = t
  unmapped : ∀ t ∈ queues.on .freequeue, ∀ pag < NUM_PAG_DATA,
    s.mm.pagusrTable t (PAG_LOG_INIT_DATA + pag) = .zero

variable {s after : State} {queues : Queues} {child : Task} {mm : Mm}

theorem WellFormed.live_iff (wellFormed : WellFormed s queues) {t : Task} :
    s.Live t ↔ t ∉ queues.on .freequeue := not_congr wellFormed.represents.on_iff

theorem statsFound_congr (quantum : after.remainingQuantum = s.remainingQuantum)
    (tasks : ∀ t, after.task t = s.task t ∨ (after.task t).PID = -1 ∧ (s.task t).PID = -1)
    {pid : DWord} (number : 0 ≤ pid.toInt) : after.statsFound pid = s.statsFound pid := by
  have notNumber : (-1 : DWord) ≠ pid := by
    rintro rfl
    exact absurd number (by decide)
  have same : ∀ t, (after.task t).PID = pid ↔ (s.task t).PID = pid := by
    intro t
    rcases tasks t with equal | ⟨first, second⟩
    · rw [equal]
    · rw [first, second]
  have scan : (fun i => decide ((after.task i).PID = pid)) =
      fun i => decide ((s.task i).PID = pid) := funext fun i => decide_eq_decide.mpr (same i)
  unfold State.statsFound
  rw [scan]
  cases found : (List.finRange NR_TASKS).find? fun i => (s.task i).PID = pid with
  | none => rfl
  | some t =>
      have chosen := List.find?_some found
      have named : (s.task t).PID = pid := of_decide_eq_true chosen
      rcases tasks t with equal | ⟨_, free⟩
      · simp only [Option.map_some, State.reported, equal, quantum]
      · exact absurd (free.symm.trans named) notNumber

section

variable [Image]

/-- Everything is as it was, but for the order of the free slots. -/
structure ForkUndone (s after : State) : Prop where
  free : ∀ t, after.OnQueue t .freequeue ↔ s.OnQueue t .freequeue
  queues : ∀ queue, queue ≠ .freequeue → ∀ cells, s.links.Ring (.head queue) cells →
    after.links.Ring (.head queue) cells
  physMem : after.mm.physMem = s.mm.physMem
  globalPID : after.globalPID = s.globalPID
  liveTask : ∀ t, s.Live t → after.task t = s.task t ∧
    after.links.next (.node t) = s.links.next (.node t) ∧
    after.links.prev (.node t) = s.links.prev (.node t)
  liveTable : ∀ t, s.Live t → ∀ page, after.entry t page = s.entry t page
  freeTable : ∀ t, ¬ s.Live t → ∀ pag < NUM_PAG_DATA,
    after.mm.pagusrTable t (PAG_LOG_INIT_DATA + pag) = s.mm.pagusrTable t (PAG_LOG_INIT_DATA + pag)
  freePids : ∀ t, ¬ s.Live t → (after.task t).PID = -1
  answers : ∀ pid st, (after.sysGetStats pid st).1 = (s.sysGetStats pid st).1
  stats : ∀ pid : DWord, 0 ≤ pid.toInt → after.statsFound pid = s.statsFound pid

theorem sysGetStats_answer (same : ∀ pid : DWord, 0 ≤ pid.toInt →
      after.statsFound pid = s.statsFound pid) (pid st : DWord) :
    (after.sysGetStats pid st).1 = (s.sysGetStats pid st).1 := by
  have answer : ∀ s : State, (s.sysGetStats pid st).1 =
      if accessOk VERIFY_WRITE st (BitVec.ofNat 32 SIZEOF_STATS) = false then .error EFAULT
      else if pid.slt 0 then .error EINVAL
      else if (s.statsFound pid).isSome then .ok 0 else .error ESRCH := by
    intro s
    unfold State.sysGetStats State.statsFound
    split
    · rfl
    · split
      · rfl
      · cases (List.finRange NR_TASKS).find? fun i => (s.task i).PID = pid with
        | none => rfl
        | some t => rfl
  rw [answer, answer]
  split
  · rfl
  · split
    · rfl
    · rename_i nonneg
      rw [same pid (Int.not_lt.mp fun below => nonneg (decide_eq_true below))]

/-- The state `sys_fork` leaves when memory runs out. -/
def forkRefused (s : State) (child : Task) (mm : Mm) : State :=
  State.listAddTail { forkCopied s child with mm := mm } (.node child) .freequeue

theorem WellFormed.fork_error (wellFormed : WellFormed s queues) {code : DWord}
    (failed : s.sysFork.1 = .error code) :
    (s.listEmpty .freequeue = true ∧ s.sysFork.2 = s) ∨
      s.listEmpty .freequeue = false ∧ ∃ child ∈ queues.on .freequeue, ∃ mm,
        s.mm.RolledBack mm ∧ s.sysFork.2 = forkRefused s child mm := by
  have empty := wellFormed.represents.listEmpty_iff .freequeue
  rcases sysFork_cases wellFormed.represents with ⟨none, result⟩ | ⟨child, rest, first, result⟩
  · exact .inl ⟨empty.mpr none, by rw [result]⟩
  · have free : child ∈ queues.on .freequeue := Queues.mem_of_first first
    refine .inr ⟨?_, child, free, ?_⟩
    · rw [State.listEmpty, ← Bool.not_eq_true, empty, first]
      exact List.cons_ne_nil _ _
    · have table : (forkCopied s child).getPT child = child := by
        have directory : ((forkCopied s child).task child).dirPagesBaseAddr = child := by
          simp [forkCopied, State.forkCopy, State.allocateDIR, State.setTask]
        rw [State.getPT, directory]
        exact wellFormed.rows child
      have memory : (forkCopied s child).mm = s.mm := rfl
      rw [result] at failed ⊢
      cases allocated : s.mm.allocData child NUM_PAG_DATA with
      | ok mm =>
          rw [@forkInto_ok s _ child mm (by rw [table, memory]; exact allocated)] at failed
          have made : ((forkMapped s child mm).forkFinish child).1 = .ok _ := rfl
          rw [made] at failed
          cases failed
      | error stopped =>
          obtain ⟨mm, pag⟩ := stopped
          refine ⟨mm.freeData child pag,
            Mm.allocData_rolledBack (wellFormed.unmapped child free) allocated, ?_⟩
          rw [@forkInto_error s _ child mm pag (by rw [table, memory]; exact allocated), table]
          rfl

theorem forkRefused_task (s : State) (child : Task) (mm : Mm) (t : Task) :
    (forkRefused s child mm).task t =
      if t = child then { s.task s.current with dirPagesBaseAddr := child } else s.task t := by
  by_cases same : t = child
  · subst same
    simp [forkRefused, forkCopied, State.forkCopy, State.copyTaskUnion, State.allocateDIR,
      State.setTask, State.listAddTail, State.listDel]
  · simp [forkRefused, forkCopied, State.forkCopy, State.copyTaskUnion, State.allocateDIR,
      State.setTask, State.listAddTail, State.listDel, same]

theorem WellFormed.forkRefused_links (wellFormed : WellFormed s queues)
    (free : child ∈ queues.on .freequeue) :
    (forkRefused s child mm).links =
      Zeos.listAddTail (Zeos.listDel s.links (.node child)) (.node child) (.head .freequeue) := by
  have removed := wellFormed.represents.remove .freequeue free
  have parent := removed.off (Queues.off_remove.mpr (.inr wellFormed.running))
  have own := removed.off (queues.off_remove_self child)
  have copied : (forkCopied s child).links = Zeos.listDel s.links (.node child) :=
    copyTaskUnion_links (s.listDel (.node child)) parent.1 parent.2 own.1 own.2
  show Zeos.listAddTail (forkCopied s child).links _ _ = _
  rw [copied]

theorem WellFormed.represents_refused (wellFormed : WellFormed s queues)
    (free : child ∈ queues.on .freequeue) :
    Represents (forkRefused s child mm).links
      ((queues.remove child).push child .freequeue (queues.off_remove_self child)) := by
  rw [wellFormed.forkRefused_links free]
  exact (wellFormed.represents.remove .freequeue free).push (queues.off_remove_self child)

theorem WellFormed.refused_node (wellFormed : WellFormed s queues)
    (free : child ∈ queues.on .freequeue) {t : Task} (live : t ∉ queues.on .freequeue) :
    (forkRefused s child mm).links.next (.node t) = s.links.next (.node t) ∧
      (forkRefused s child mm).links.prev (.node t) = s.links.prev (.node t) := by
  have removed := (wellFormed.represents.remove .freequeue free).ring .freequeue
  obtain ⟨left, right, split⟩ := List.append_of_mem free
  have ring := wellFormed.represents.ring .freequeue
  rw [split, List.map_append, List.map_cons] at ring
  have apart : t ≠ child := fun same => live (same ▸ free)
  have absent : ∀ cells : List Task, (∀ u ∈ cells, u ∈ queues.on .freequeue) →
      Link.node t ≠ Heap.lastOf (.head .freequeue) (cells.map .node) ∧
        Link.node t ≠ Heap.headOf (.head .freequeue) (cells.map .node) := by
    intro cells inside
    refine ⟨fun last => live (inside t (Represents.mem_of_lastOf last)), fun first => ?_⟩
    cases cells with
    | nil => exact Link.noConfusion first
    | cons head rest => exact live (inside t (Link.node.inj first ▸ List.mem_cons_self))
  have ofLeft := absent left fun u member => by simp [split, member]
  have ofRight := absent right fun u member => by simp [split, member]
  have ofRest := absent ((queues.remove child).on .freequeue) fun u member =>
    (Queues.mem_remove.mp member).2
  rw [wellFormed.forkRefused_links free, listAddTail_next removed, listAddTail_prev removed,
    listDel_next ring, listDel_prev ring]
  simp [apart, ofLeft.1, ofRight.2, ofRest.1]

theorem WellFormed.refused_free (wellFormed : WellFormed s queues)
    (free : child ∈ queues.on .freequeue) (t : Task) :
    (forkRefused s child mm).OnQueue t .freequeue ↔ s.OnQueue t .freequeue := by
  rw [State.OnQueue, State.OnQueue, (wellFormed.represents_refused free).on_iff,
    wellFormed.represents.on_iff, Queues.mem_push, Queues.mem_remove]
  by_cases same : t = child
  · subst same
    simp [free]
  · simp [same]

theorem WellFormed.refused_queue (wellFormed : WellFormed s queues)
    (free : child ∈ queues.on .freequeue) {queue : Queue} (apart : queue ≠ .freequeue) :
    (forkRefused s child mm).links.Ring (.head queue) ((queues.on queue).map .node) := by
  have kept : ((queues.remove child).push child .freequeue (queues.off_remove_self child)).on queue =
      queues.on queue := by
    have elsewhere : child ∉ queues.on queue := fun member => apart (queues.apart member free)
    simp [Queues.push, Queues.remove, apart, List.erase_of_not_mem elsewhere]
  rw [← kept]
  exact (wellFormed.represents_refused free).ring queue

/-- The rollback undoes the fork up to the PID of the slot and the lowest frame. -/
theorem WellFormed.undone_iff (wellFormed : WellFormed s queues)
    (free : child ∈ queues.on .freequeue) (rolledBack : s.mm.RolledBack mm) :
    ForkUndone s (forkRefused s child mm) ↔
      (s.task s.current).PID = -1 ∧ s.mm.physMem NUM_PAG_KERNEL ≠ FREE_FRAME := by
  have childFree : ¬ s.Live child := fun live => wellFormed.live_iff.mp live free
  have memory : (forkRefused s child mm).mm = mm := rfl
  constructor
  · intro undone
    have pid := undone.freePids child childFree
    have lowest := congrFun undone.physMem NUM_PAG_KERNEL
    rw [forkRefused_task, if_pos rfl] at pid
    exact ⟨pid, rolledBack.lowest.mp lowest⟩
  · rintro ⟨pid, used⟩
    obtain ⟨physMem, freed, shape⟩ := rolledBack.same
    have others : ∀ t, t ≠ child → (forkRefused s child mm).task t = s.task t := by
      intro t apart
      rw [forkRefused_task, if_neg apart]
    have pids : ∀ t, (forkRefused s child mm).task t = s.task t ∨
        ((forkRefused s child mm).task t).PID = -1 ∧ (s.task t).PID = -1 := by
      intro t
      by_cases same : t = child
      · subst same
        rw [forkRefused_task, if_pos rfl]
        exact .inr ⟨pid, wellFormed.freePids t free⟩
      · exact .inl (others t same)
    have quantum : (forkRefused s child mm).remainingQuantum = s.remainingQuantum := rfl
    have stats : ∀ pid : DWord, 0 ≤ pid.toInt →
        (forkRefused s child mm).statsFound pid = s.statsFound pid :=
      fun pid number => statsFound_congr quantum pids number
    have liveTask : ∀ t, s.Live t → (forkRefused s child mm).task t = s.task t :=
      fun t live => others t fun same => childFree (same ▸ live)
    refine ⟨wellFormed.refused_free free, fun queue apart cells ring => ?_, ?_, rfl, fun t live => ?_,
      fun t live page => ?_, fun t _ pag _ => ?_, fun t notLive => ?_, sysGetStats_answer stats, stats⟩
    · rw [ring.unique (wellFormed.represents.ring queue)]
      exact wellFormed.refused_queue free apart
    · funext frame
      by_cases lowest : frame = NUM_PAG_KERNEL
      · rw [lowest]
        exact rolledBack.lowest.mpr used
      · exact rolledBack.physMem frame lowest
    · exact ⟨liveTask t live, wellFormed.refused_node free (wellFormed.live_iff.mp live)⟩
    · rw [State.entry, State.entry, State.getPT, State.getPT, liveTask t live, memory, shape]
    · rw [memory, shape]
    · rcases pids t with same | numbers
      · rw [same]
        exact wellFormed.freePids t (by_contra fun notFree => notLive (wellFormed.live_iff.mpr notFree))
      · exact numbers.1

/-- A failing `sys_fork` of a well-formed kernel changes nothing exactly when no slot was
free, or the caller has no number and the lowest frame was not free. -/
theorem fork_undone_iff (wellFormed : WellFormed s queues) {code : DWord}
    (failed : s.sysFork.1 = .error code) :
    ForkUndone s s.sysFork.2 ↔ s.listEmpty .freequeue = true ∨
      (s.task s.current).PID = -1 ∧ s.mm.physMem NUM_PAG_KERNEL ≠ FREE_FRAME := by
  rcases wellFormed.fork_error failed with ⟨empty, result⟩ | ⟨some, child, free, mm, rolledBack, result⟩
  · rw [result]
    refine ⟨fun _ => .inl empty, fun _ => ?_⟩
    exact ⟨fun _ => .rfl, fun _ _ _ ring => ring, rfl, rfl, fun _ _ => ⟨rfl, rfl, rfl⟩,
      fun _ _ _ => rfl, fun _ _ _ _ => rfl,
      fun t notLive => wellFormed.freePids t (by_contra fun notFree =>
        notLive (wellFormed.live_iff.mpr notFree)), fun _ _ => rfl, fun _ _ => rfl⟩
  · rw [result, wellFormed.undone_iff free rolledBack, some]
    exact (or_iff_right Bool.noConfusion).symm

end

def State.withPhysMem (s : State) (physMem : Nat → Byte) : State :=
  { s with mm := { s.mm with physMem := physMem } }

theorem WellFormed.withPhysMem {s : State} {queues : Queues} (wellFormed : WellFormed s queues)
    (physMem : Nat → Byte)
    (used : ∀ t, ∀ pag < NUM_PAG_DATA, physMem (s.dataFrame t pag) = USED_FRAME) :
    WellFormed (s.withPhysMem physMem) queues :=
  ⟨wellFormed.represents, wellFormed.running, wellFormed.freePids, fun t _ _ => used t,
    wellFormed.rows, wellFormed.unmapped⟩

theorem sampleBoot_wellFormed : ∃ queues, WellFormed sampleBoot queues := by
  obtain ⟨queues, sched, ⟨⟨rows, _⟩, _⟩, numbered⟩ := @boot_registered Image.sample .RR State.blank
  have running : queues.Off sampleBoot.current := sched.offQueues _ (Set.mem_singleton _)
  have placed : sampleBoot.current = 1 := by decide
  have used : ∀ t : Task, ∀ pag < NUM_PAG_DATA,
      sampleBoot.mm.physMem (sampleBoot.dataFrame t pag) = USED_FRAME := by
    decide +kernel
  have tables : ∀ t : Task, t ≠ 1 → ∀ pag < NUM_PAG_DATA,
      sampleBoot.mm.pagusrTable t (PAG_LOG_INIT_DATA + pag) = .zero := by
    decide +kernel
  refine ⟨queues, sched.represents, running, numbered.free, fun t _ _ => used t, fun t => ?_,
    fun t free => tables t fun same => ?_⟩
  · exact congrArg DirEntry.pbaseAddr (rows t)
  · rw [same, ← placed] at free
    exact running .freequeue free

def oneFrameLeft : State :=
  sampleBoot.withPhysMem fun frame => if frame = 1022 then FREE_FRAME else USED_FRAME

theorem oneFrameLeft_wellFormed : ∃ queues, WellFormed oneFrameLeft queues := by
  have data : ∀ t : Task, ∀ pag < NUM_PAG_DATA, sampleBoot.dataFrame t pag ≠ 1022 := by
    decide +kernel
  obtain ⟨queues, wellFormed⟩ := sampleBoot_wellFormed
  exact ⟨queues, wellFormed.withPhysMem _ fun t pag bound => if_neg (data t pag bound)⟩

theorem oneFrameLeft_fails : (@State.sysFork Image.sample oneFrameLeft).1 = .error EAGAIN := by
  decide +kernel

/-- There one frame is taken and given back. -/
theorem fork_undone_iff_oneFrameLeft :
    @ForkUndone Image.sample oneFrameLeft (@State.sysFork Image.sample oneFrameLeft).2 ↔
      oneFrameLeft.listEmpty .freequeue = true ∨
        (oneFrameLeft.task oneFrameLeft.current).PID = -1 ∧
          oneFrameLeft.mm.physMem NUM_PAG_KERNEL ≠ FREE_FRAME := by
  obtain ⟨queues, wellFormed⟩ := oneFrameLeft_wellFormed
  exact @fork_undone_iff oneFrameLeft queues Image.sample wellFormed EAGAIN oneFrameLeft_fails

/-- The slot keeps the number of the first process. -/
theorem failed_fork_keeps_pid : ¬ ∀ s queues, WellFormed s queues → ∀ code,
    (@State.sysFork Image.sample s).1 = .error code →
      @ForkUndone Image.sample s (@State.sysFork Image.sample s).2 := by
  intro always
  obtain ⟨queues, wellFormed⟩ := oneFrameLeft_wellFormed
  have undone := always oneFrameLeft queues wellFormed EAGAIN oneFrameLeft_fails
  have some : oneFrameLeft.listEmpty .freequeue ≠ true := by decide
  have number : (oneFrameLeft.task oneFrameLeft.current).PID ≠ -1 := by decide
  rcases @WellFormed.fork_error _ queues Image.sample wellFormed _ oneFrameLeft_fails with
    ⟨empty, _⟩ | ⟨_, child, free, mm, rolledBack, result⟩
  · exact some empty
  · rw [result] at undone
    exact number ((@WellFormed.undone_iff _ queues _ _ Image.sample wellFormed free rolledBack).mp undone).1

end Zeos
