import Mathlib.Order.BooleanAlgebra.Set
import Zeos.Kernel.System
import Zeos.Schedule.Queues
import Zeos.Schedule.Quiet

/-!
# Where every task is

`Placed` says which queue each task is on, for a given set of tasks on none.
Between two kernel entries that set is the running task; inside an entry it
shrinks and grows by one task at a time, and each list operation is one rule.
-/

namespace Zeos

open Library

/-- A list operation on a node that is, or is not, on a list as it must be. -/
def Event.Proper : Event → Prop
  | .listDel entry links => ∃ queue, links.On (.head queue) entry
  | .listAddTail new links => ∀ queue, ¬ links.On (.head queue) new
  | .taskSwitch .. => True

/-- What being on a queue asks of a task. Only round robin keeps the state field. -/
def Fits (installed : Installed) (s : State) (task : Task) : Queue → Prop
  | .freequeue => task ≠ s.idleTask
  | .readyqueue =>
      match installed with
      | .RR => (s.task task).state = .ST_READY
      | .FCFS => task ≠ s.idleTask
  | .blocking _ => task ≠ s.idleTask ∧ (installed = .RR → (s.task task).state = .ST_BLOCKED)

/-- The tasks of `off` are on no queue, and all others but idle are on one. -/
structure Placed (installed : Installed) (s : State) (queues : Queues) (off : Set Task) :
    Prop where
  represents : Represents s.links queues
  offQueues : ∀ task ∈ off, queues.Off task
  covered : ∀ task, task ∈ off ∨ task = s.idleTask ∨ ∃ queue, task ∈ queues.on queue
  fits : ∀ queue, ∀ task ∈ queues.on queue, Fits installed s task queue
  proper : installed = .RR → ∀ event ∈ s.trace, event.Proper

structure Sched (installed : Installed) (s : State) (queues : Queues) : Prop extends
    Placed installed s queues {s.current} where
  running : installed = .RR → (s.task s.current).state = .ST_RUN

variable {installed : Installed} {s after : State} {queues : Queues} {off : Set Task}
  {task : Task} {queue : Queue}

theorem Fits.congr {task : Task} {queue : Queue} (fits : Fits installed s task queue)
    (idle : after.idleTask = s.idleTask) (state : (after.task task).state = (s.task task).state) :
    Fits installed after task queue := by
  cases queue <;> cases installed <;> simpa [Fits, idle, state] using fits

namespace Placed

/-- Only queues, idle, the history of list operations and the states of the
queued tasks matter. -/
theorem congr (placed : Placed installed s queues off) (links : after.links = s.links)
    (trace : after.trace = s.trace) (idle : after.idleTask = s.idleTask)
    (state : ∀ task ∉ off, (after.task task).state = (s.task task).state) :
    Placed installed after queues off where
  represents := by
    rw [links]
    exact placed.represents
  offQueues := placed.offQueues
  covered := by
    rw [idle]
    exact placed.covered
  fits queue task member := (placed.fits queue task member).congr idle
    (state task fun inOff => placed.offQueues task inOff queue member)
  proper := by
    rw [trace]
    exact placed.proper

theorem accounts (placed : Placed installed s queues off) (accounts : s.Accounts after) :
    Placed installed after queues off :=
  placed.congr accounts.links accounts.trace accounts.idleTask fun task _ => accounts.state task

theorem setState (placed : Placed installed s queues off) (member : task ∈ off)
    (state : TaskState) : Placed installed (s.setState task state) queues off := by
  refine placed.congr rfl rfl rfl fun other outside => ?_
  have apart : other ≠ task := fun same => outside (same ▸ member)
  simp [apart]

theorem push (placed : Placed installed s queues off) (queue : Queue) (outside : queues.Off task)
    (fits : Fits installed s task queue) :
    Placed installed (s.listAddTail (.node task) queue) (queues.push task queue outside)
      (off \ {task}) where
  represents := placed.represents.push outside
  offQueues other member := by
    rw [Queues.off_push member.2]
    exact placed.offQueues other member.1
  covered other := by
    by_cases same : other = task
    · exact .inr (.inr ⟨queue, Queues.mem_push.mpr (.inr ⟨rfl, same⟩)⟩)
    · rcases placed.covered other with inOff | idle | ⟨place, member⟩
      · exact .inl ⟨inOff, same⟩
      · exact .inr (.inl idle)
      · exact .inr (.inr ⟨place, Queues.mem_push.mpr (.inl member)⟩)
  fits place other member := by
    rcases Queues.mem_push.mp member with old | ⟨rfl, rfl⟩
    · exact (placed.fits place other old).congr rfl rfl
    · exact fits.congr rfl rfl
  proper round event member := by
    rcases List.mem_cons.mp member with rfl | old
    · intro place on
      exact outside place (placed.represents.on_iff.mp on)
    · exact placed.proper round event old

theorem remove (placed : Placed installed s queues off) (member : task ∈ queues.on queue) :
    Placed installed (s.listDel (.node task)) (queues.remove task) (insert task off) where
  represents := placed.represents.remove _ member
  offQueues other inOff := by
    rw [Queues.off_remove]
    exact (Set.mem_insert_iff.mp inOff).imp_right (placed.offQueues other)
  covered other := by
    by_cases same : other = task
    · exact .inl (Set.mem_insert_iff.mpr (.inl same))
    · rcases placed.covered other with inOff | idle | ⟨place, inside⟩
      · exact .inl (Set.mem_insert_of_mem _ inOff)
      · exact .inr (.inl idle)
      · exact .inr (.inr ⟨place, Queues.mem_remove.mpr ⟨same, inside⟩⟩)
  fits place other inside :=
    (placed.fits place other (Queues.mem_remove.mp inside).2).congr rfl rfl
  proper round event inTrace := by
    rcases List.mem_cons.mp inTrace with rfl | old
    · exact ⟨queue, placed.represents.on_iff.mpr member⟩
    · exact placed.proper round event old

end Placed

theorem Sched.accounts (sched : Sched installed s queues) (accounts : s.Accounts after) :
    Sched installed after queues where
  toPlaced := by
    rw [accounts.current]
    exact sched.toPlaced.accounts accounts
  running round := by
    rw [accounts.current, accounts.state]
    exact sched.running round

theorem Sched.current_off (sched : Sched installed s queues) : queues.Off s.current :=
  sched.offQueues s.current rfl

end Zeos
