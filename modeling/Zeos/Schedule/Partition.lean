import Zeos.Schedule.Effects

/-!
# The queues partition the tasks

What `Sched` comes to for round robin: well-formed disjoint lists, every task in
exactly one situation, no list operation on a node it must not be applied to.
-/

namespace Zeos

open Library

section

variable [Image]

variable {memory s : State} {queues : Queues}

inductive Situation where
  | free
  | ready
  | blocked (n : Nat)
  | running
  | idling

def InSituation (s : State) (task : Task) : Situation → Prop
  | .free => s.OnQueue task .freequeue
  | .ready => s.OnQueue task .readyqueue ∧ (s.task task).state = .ST_READY
  | .blocked n => s.OnQueue task (.blocking n) ∧ (s.task task).state = .ST_BLOCKED
  | .running =>
      task = s.current ∧ (s.task task).state = .ST_RUN ∧ ∀ queue, ¬ s.OnQueue task queue
  | .idling => task = s.idleTask ∧ task ≠ s.current ∧ ∀ queue, ¬ s.OnQueue task queue

def Situation.onQueue : Queue → Situation
  | .freequeue => .free
  | .readyqueue => .ready
  | .blocking n => .blocked n

/-- The queues are disjoint circular lists, every task is in exactly one
situation, and every list operation so far was on a node in the right place. -/
structure Partitioned (s : State) : Prop where
  lists : ∃ queues : Queues, ∀ queue, s.links.Ring (.head queue) ((queues.on queue).map .node)
  situations : ∀ task, ∃! situation, InSituation s task situation
  operations : ∀ event ∈ s.trace, event.Proper

omit [Image] in
theorem Sched.onQueue_iff (sched : Sched installed s queues) {task : Task} {queue : Queue} :
    s.OnQueue task queue ↔ task ∈ queues.on queue := sched.represents.on_iff

omit [Image] in
theorem Sched.situation_of_mem (sched : Sched .RR s queues) {task : Task} {queue : Queue}
    (member : task ∈ queues.on queue) : ∃! situation, InSituation s task situation := by
  have fits := sched.fits queue task member
  have only : ∀ other, s.OnQueue task other → other = queue :=
    fun other on => queues.apart (sched.onQueue_iff.mp on) member
  have on := sched.onQueue_iff.mpr member
  refine ⟨.onQueue queue, ?_, fun other there => ?_⟩
  · cases queue with
    | freequeue => exact on
    | readyqueue => exact ⟨on, fits⟩
    | blocking n => exact ⟨on, fits.2 rfl⟩
  · cases other with
    | free =>
        rw [← only _ there]
        rfl
    | ready =>
        rw [← only _ there.1]
        rfl
    | blocked n =>
        rw [← only _ there.1]
        rfl
    | running => exact absurd on (there.2.2 queue)
    | idling => exact absurd on (there.2.2 queue)

omit [Image] in
theorem Sched.situation_of_off (sched : Sched .RR s queues) {task : Task}
    (off : queues.Off task) : ∃! situation, InSituation s task situation := by
  have none : ∀ queue, ¬ s.OnQueue task queue :=
    fun queue on => off queue (sched.onQueue_iff.mp on)
  by_cases current : task = s.current
  · subst current
    refine ⟨.running, ⟨rfl, sched.running rfl, none⟩, fun other there => ?_⟩
    cases other with
    | free => exact absurd there (none _)
    | ready => exact absurd there.1 (none _)
    | blocked n => exact absurd there.1 (none _)
    | running => rfl
    | idling => exact absurd rfl there.2.1
  · have idle : task = s.idleTask := by
      rcases sched.covered task with running | idle | ⟨queue, member⟩
      · exact absurd running current
      · exact idle
      · exact absurd member (off queue)
    refine ⟨.idling, ⟨idle, current, none⟩, fun other there => ?_⟩
    cases other with
    | free => exact absurd there (none _)
    | ready => exact absurd there.1 (none _)
    | blocked n => exact absurd there.1 (none _)
    | running => exact absurd there.1 current
    | idling => rfl

/-- Round robin loses no task, queues none twice, and never corrupts a list. -/
theorem partitioned_of_reachable (reachable : (kernel .RR memory).Reachable s) :
    Partitioned s := by
  obtain ⟨queues, sched⟩ := sched_of_reachable reachable
  refine ⟨⟨queues, sched.represents.ring⟩, fun task => ?_, sched.proper rfl⟩
  by_cases off : queues.Off task
  · exact sched.situation_of_off off
  · obtain ⟨queue, member⟩ := not_forall_not.mp off
    exact sched.situation_of_mem member

end

/-- After a fork the child is ready and its parent runs. -/
theorem partitioned_after_fork :
    Partitioned ((sampleKernel .RR).next sampleBoot (.fork ForkSite.top)) := by
  have process : sampleBoot.current ≠ sampleBoot.idleTask := by decide
  exact @partitioned_of_reachable Image.sample State.blank _ (.step (.initial rfl) process)

end Zeos
