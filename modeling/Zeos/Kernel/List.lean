import Zeos.Kernel.Types

/-!
# `list.c`

The list routines as stores through the pointers they follow. On the well-formed
circular lists of the library they append at the tail and take out a member.
-/

namespace Zeos

open Library

def initListHead (heap : Heap Link) (list : Link) : Heap Link :=
  (heap.setNext (some list) (some list)).setPrev (some list) (some list)

def listInsert (heap : Heap Link) (new : Link) (prev next : Option Link) : Heap Link :=
  let heap := heap.setPrev next (some new)
  let heap := heap.setNext (some new) next
  let heap := heap.setPrev (some new) prev
  heap.setNext prev (some new)

def listAddTail (heap : Heap Link) (new head : Link) : Heap Link :=
  listInsert heap new (heap.prev head) (some head)

/-- `list_del`. On a null pointer the stores of `__list_del` go to page 0, where
no modelled data lies (or fault there). -/
def listDel (heap : Heap Link) (entry : Link) : Heap Link :=
  let prev := heap.prev entry
  let next := heap.next entry
  let heap := heap.setPrev next prev
  let heap := heap.setNext prev next
  let heap := heap.setNext (some entry) none
  heap.setPrev (some entry) none

def listEmpty (heap : Heap Link) (head : Link) : Bool :=
  heap.next head = some head

/-- `list_first`; the `next` of an initialised head is never null. -/
def listFirst (heap : Heap Link) (head : Link) : Link :=
  (heap.next head).getD head

/-- `list_head_to_task_struct`; of a list head it would be no task. -/
def listHeadToTaskStruct : Link → Task
  | .node task => task
  | .head _ => 0

variable {heap : Heap Link} {head new : Link} {cells left right : List Link}

theorem initListHead_ring (heap : Heap Link) (list : Link) :
    (initListHead heap list).Ring list [] := by
  refine ⟨⟨?_, ?_⟩, by simp⟩ <;> simp [initListHead]

theorem initListHead_other (heap : Heap Link) {list other : Link} (apart : other ≠ list) :
    (initListHead heap list).next other = heap.next other ∧
      (initListHead heap list).prev other = heap.prev other := by
  simp [initListHead, apart]

theorem listEmpty_iff (ring : heap.Ring head cells) : listEmpty heap head = true ↔ cells = [] := by
  rw [listEmpty, decide_eq_true_iff]
  exact ring.next_head_eq_head_iff

theorem listFirst_cons {first : Link} (ring : heap.Ring head (first :: cells)) :
    listFirst heap head = first := by
  rw [listFirst, ring.next_head]
  rfl

theorem listAddTail_next (ring : heap.Ring head cells) (cell : Link) :
    (listAddTail heap new head).next cell =
      if cell = Heap.lastOf head cells then some new
      else if cell = new then some head else heap.next cell := by
  simp [listAddTail, listInsert, ring.prev_head]

theorem listAddTail_prev (ring : heap.Ring head cells) (cell : Link) :
    (listAddTail heap new head).prev cell =
      if cell = new then some (Heap.lastOf head cells)
      else if cell = head then some new else heap.prev cell := by
  simp [listAddTail, listInsert, ring.prev_head]

theorem listAddTail_ring (ring : heap.Ring head cells) (fresh : new ∉ head :: cells) :
    (listAddTail heap new head).Ring head (cells ++ [new]) := by
  have apart : head ≠ new := fun same => fresh (by simp [same])
  refine ring.append fresh (listAddTail_next ring) ?_
  intro cell
  rw [listAddTail_prev ring]
  by_cases isHead : cell = head
  · simp [isHead, apart]
  · simp [isHead]

theorem listAddTail_other {other : Link} {others : List Link} (ring : heap.Ring head cells)
    (kept : heap.Ring other others) (fresh : new ∉ other :: others)
    (apart : ∀ cell ∈ other :: others, cell ∉ head :: cells) :
    (listAddTail heap new head).Ring other others := by
  refine kept.congr ?_ ?_
  · intro cell member
    have notLast : cell ≠ Heap.lastOf head cells :=
      fun same => apart cell member (same ▸ Heap.lastOf_mem head cells)
    have notNew : cell ≠ new := fun same => fresh (same ▸ member)
    rw [listAddTail_next ring, if_neg notLast, if_neg notNew]
  · intro cell member
    have notHead : cell ≠ head := fun same => apart cell member (by simp [same])
    have notNew : cell ≠ new := fun same => fresh (same ▸ member)
    rw [listAddTail_prev ring, if_neg notNew, if_neg notHead]

theorem listDel_next {entry : Link} (ring : heap.Ring head (left ++ entry :: right))
    (cell : Link) :
    (listDel heap entry).next cell =
      if cell = entry then none
      else if cell = Heap.lastOf head left then some (Heap.headOf head right)
      else heap.next cell := by
  obtain ⟨next, prev⟩ := ring.around
  simp [listDel, next, prev]

theorem listDel_prev {entry : Link} (ring : heap.Ring head (left ++ entry :: right))
    (cell : Link) :
    (listDel heap entry).prev cell =
      if cell = entry then none
      else if cell = Heap.headOf head right then some (Heap.lastOf head left)
      else heap.prev cell := by
  obtain ⟨next, prev⟩ := ring.around
  simp [listDel, next, prev]

theorem listDel_ring {entry : Link} (ring : heap.Ring head (left ++ entry :: right)) :
    (listDel heap entry).Ring head (left ++ right) :=
  ring.remove
    (fun cell apart => by rw [listDel_next ring, if_neg apart])
    (fun cell apart => by rw [listDel_prev ring, if_neg apart])

theorem listDel_other {entry other : Link} {others : List Link}
    (ring : heap.Ring head (left ++ entry :: right)) (kept : heap.Ring other others)
    (apart : ∀ cell ∈ other :: others, cell ∉ head :: (left ++ entry :: right)) :
    (listDel heap entry).Ring other others := by
  have lastMember : Heap.lastOf head left ∈ head :: (left ++ entry :: right) := by
    rcases List.mem_cons.mp (Heap.lastOf_mem head left) with isHead | inLeft
    · simp [isHead]
    · simp [inLeft]
  have headMember : Heap.headOf head right ∈ head :: (left ++ entry :: right) := by
    cases right with
    | nil => simp [Heap.headOf]
    | cons first rest => simp [Heap.headOf]
  refine kept.congr ?_ ?_
  · intro cell member
    have notEntry : cell ≠ entry := fun same => apart cell member (by simp [same])
    have notLast : cell ≠ Heap.lastOf head left := fun same => apart cell member (same ▸ lastMember)
    rw [listDel_next ring, if_neg notEntry, if_neg notLast]
  · intro cell member
    have notEntry : cell ≠ entry := fun same => apart cell member (by simp [same])
    have notFirst : cell ≠ Heap.headOf head right :=
      fun same => apart cell member (same ▸ headMember)
    rw [listDel_prev ring, if_neg notEntry, if_neg notFirst]

theorem listDel_null {entry : Link} (next : heap.next entry = none)
    (prev : heap.prev entry = none) : listDel heap entry = heap := by
  have nextSame : Function.update heap.next entry none = heap.next := by
    rw [← next, Function.update_eq_self]
  have prevSame : Function.update heap.prev entry none = heap.prev := by
    rw [← prev, Function.update_eq_self]
  simp [listDel, next, prev, Heap.setNext, Heap.setPrev, nextSame, prevSame]

end Zeos
