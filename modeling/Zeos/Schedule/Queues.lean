import Mathlib.Data.List.Basic
import Zeos.Kernel.List

/-!
# Queues as lists of tasks

What the pointers of `list.c` are for: every queue is a list of tasks, no task
is listed twice. `Represents` connects the pointers to the lists, and the list
routines to appending and to removal.
-/

namespace Zeos

open Library

structure Queues where
  on : Queue → List Task
  nodup : ∀ queue, (on queue).Nodup
  apart : ∀ {queue other task}, task ∈ on queue → task ∈ on other → queue = other

namespace Queues

def Off (queues : Queues) (task : Task) : Prop := ∀ queue, task ∉ queues.on queue

variable {queues : Queues} {task other : Task} {queue place : Queue}

def push (queues : Queues) (task : Task) (queue : Queue) (off : queues.Off task) : Queues where
  on := Function.update queues.on queue (queues.on queue ++ [task])
  nodup := by
    intro place
    by_cases same : place = queue
    · subst same
      simpa [List.nodup_append] using
        ⟨queues.nodup place, fun other member equal => off place (equal ▸ member)⟩
    · simpa [same] using queues.nodup place
  apart := by
    have member : ∀ {place other},
        other ∈ Function.update queues.on queue (queues.on queue ++ [task]) place →
        other ∈ queues.on place ∨ (place = queue ∧ other = task) := by
      intro place other inside
      by_cases same : place = queue
      · subst same
        simpa using inside
      · simp only [Function.update_of_ne same] at inside
        exact .inl inside
    intro first second other inFirst inSecond
    rcases member inFirst with old | ⟨rfl, rfl⟩ <;> rcases member inSecond with older | ⟨rfl, equal⟩
    · exact queues.apart old older
    · exact absurd (equal ▸ old) (off first)
    · exact absurd older (off second)
    · rfl

theorem mem_of_first {rest : List Task} (first : queues.on queue = task :: rest) :
    task ∈ queues.on queue := by
  rw [first]
  exact List.mem_cons_self

def remove (queues : Queues) (task : Task) : Queues where
  on queue := (queues.on queue).erase task
  nodup queue := (queues.nodup queue).erase task
  apart first second := queues.apart (List.mem_of_mem_erase first) (List.mem_of_mem_erase second)

theorem mem_push {off : queues.Off task} :
    other ∈ (queues.push task queue off).on place ↔
      other ∈ queues.on place ∨ (place = queue ∧ other = task) := by
  by_cases same : place = queue
  · subst same
    simp [push]
  · simp [push, same]

theorem mem_remove :
    other ∈ (queues.remove task).on queue ↔ other ≠ task ∧ other ∈ queues.on queue :=
  (queues.nodup queue).mem_erase_iff

theorem off_push {off : queues.Off task} (apart : other ≠ task) :
    (queues.push task queue off).Off other ↔ queues.Off other := by
  simp [Off, mem_push, apart]

theorem off_remove : (queues.remove task).Off other ↔ other = task ∨ queues.Off other := by
  by_cases same : other = task <;> simp [Off, mem_remove, same]

theorem off_remove_self (queues : Queues) (task : Task) : (queues.remove task).Off task :=
  off_remove.mpr (.inl rfl)

end Queues

/-- The pointers of the kernel form the queues, and the nodes that are on none
of them hold null pointers. -/
structure Represents (links : Heap Link) (queues : Queues) : Prop where
  ring : ∀ queue, links.Ring (.head queue) ((queues.on queue).map .node)
  off : ∀ {task}, queues.Off task →
    links.next (.node task) = none ∧ links.prev (.node task) = none

namespace Represents

variable {links : Heap Link} {queues : Queues} {task : Task} {queue : Queue}

theorem unique {others : Queues} (represents : Represents links queues)
    (other : Represents links others) (queue : Queue) : queues.on queue = others.on queue := by
  have injective : Function.Injective Link.node := fun _ _ same => Link.node.inj same
  exact List.map_injective_iff.mpr injective
    ((represents.ring queue).unique (other.ring queue))

theorem on_iff (represents : Represents links queues) :
    links.On (.head queue) (.node task) ↔ task ∈ queues.on queue := by
  rw [(represents.ring queue).on_iff]
  simp

theorem listEmpty_iff (represents : Represents links queues) (queue : Queue) :
    listEmpty links (.head queue) = true ↔ queues.on queue = [] := by
  rw [Zeos.listEmpty_iff (represents.ring queue), List.map_eq_nil_iff]

theorem listFirst (represents : Represents links queues) (rest : List Task)
    (first : queues.on queue = task :: rest) :
    listFirst links (.head queue) = .node task := by
  have ring := represents.ring queue
  rw [first, List.map_cons] at ring
  exact listFirst_cons ring

theorem next_eq_none_iff (represents : Represents links queues) :
    links.next (.node task) = none ↔ queues.Off task := by
  refine ⟨fun null queue member => ?_, fun off => (represents.off off).1⟩
  obtain ⟨left, right, split⟩ := List.append_of_mem member
  have ring := represents.ring queue
  rw [split, List.map_append, List.map_cons] at ring
  rw [ring.around.1] at null
  exact Option.some_ne_none _ null

theorem disjoint (queues : Queues) {queue other : Queue} (apart : other ≠ queue) :
    ∀ cell ∈ Link.head other :: (queues.on other).map .node,
      cell ∉ Link.head queue :: (queues.on queue).map .node := by
  intro cell inOther inQueue
  simp only [List.mem_cons, List.mem_map] at inOther inQueue
  rcases inOther with rfl | ⟨first, firstMember, rfl⟩
  · rcases inQueue with same | ⟨second, _, same⟩
    · exact apart (Link.head.inj same)
    · exact Link.noConfusion same
  · rcases inQueue with same | ⟨second, secondMember, same⟩
    · exact Link.noConfusion same
    · obtain rfl := Link.node.inj same
      exact apart (queues.apart firstMember secondMember)

theorem mem_of_lastOf {tasks : List Task}
    (last : Link.node task = Heap.lastOf (.head queue) (tasks.map .node)) : task ∈ tasks := by
  have member := Heap.lastOf_mem (Link.head queue) (tasks.map .node)
  rw [← last] at member
  simpa using member

theorem push (represents : Represents links queues) (off : queues.Off task) :
    Represents (listAddTail links (.node task) (.head queue)) (queues.push task queue off) := by
  have fresh : ∀ place, Link.node task ∉ Link.head place :: (queues.on place).map .node := by
    intro place member
    simp only [List.mem_cons, reduceCtorEq, List.mem_map, Link.node.injEq, exists_eq_right,
      false_or] at member
    exact off place member
  constructor
  · intro place
    by_cases same : place = queue
    · subst same
      simpa [Queues.push] using listAddTail_ring (represents.ring place) (fresh place)
    · simpa [Queues.push, same] using listAddTail_other (represents.ring queue)
        (represents.ring place) (fresh place) (disjoint queues same)
  · intro other otherOff
    have apart : other ≠ task := by
      rintro rfl
      exact otherOff queue (Queues.mem_push.mpr (.inr ⟨rfl, rfl⟩))
    have before : queues.Off other := (Queues.off_push apart).mp otherOff
    have notLast : Link.node other ≠ Heap.lastOf (.head queue) ((queues.on queue).map .node) :=
      fun last => before queue (mem_of_lastOf last)
    have ring := represents.ring queue
    simpa [listAddTail_next ring, listAddTail_prev ring, notLast, apart] using
      represents.off before

theorem remove (represents : Represents links queues) (queue : Queue) (member : task ∈ queues.on queue) :
    Represents (listDel links (.node task)) (queues.remove task) := by
  obtain ⟨left, right, split⟩ := List.append_of_mem member
  have ring := represents.ring queue
  rw [split, List.map_append, List.map_cons] at ring
  have notLeft : task ∉ left := by
    have nodup := queues.nodup queue
    rw [split, List.nodup_append'] at nodup
    exact fun inLeft => nodup.2.2 inLeft (by simp)
  constructor
  · intro place
    by_cases same : place = queue
    · subst same
      have rest := listDel_ring ring
      simpa [Queues.remove, split, List.erase_append_right _ notLeft] using rest
    · have absent : task ∉ queues.on place := fun inPlace => same (queues.apart inPlace member)
      have kept := disjoint queues same
      rw [split, List.map_append, List.map_cons] at kept
      simpa [Queues.remove, List.erase_of_not_mem absent] using
        listDel_other ring (represents.ring place) kept
  · intro other otherOff
    by_cases same : other = task
    · subst same
      simp [listDel_next ring, listDel_prev ring]
    · have before : queues.Off other := (Queues.off_remove.mp otherOff).resolve_left same
      have absent := before queue
      rw [split] at absent
      have notLast : Link.node other ≠ Heap.lastOf (.head queue) (left.map .node) :=
        fun last => absent (List.mem_append_left _ (mem_of_lastOf last))
      have notFirst : Link.node other ≠ Heap.headOf (.head queue) (right.map .node) := by
        intro equal
        cases right with
        | nil => simp [Heap.headOf] at equal
        | cons first rest =>
            obtain rfl : other = first := by simpa [Heap.headOf] using equal
            simp at absent
      simpa [listDel_next ring, listDel_prev ring, notLast, notFirst, same] using
        represents.off before

end Represents

end Zeos
