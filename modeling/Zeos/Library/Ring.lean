import Mathlib.Data.List.Nodup
import Mathlib.Logic.Function.Basic
import Mathlib.Logic.Relation

/-!
# Circular doubly linked lists in a pointer heap

A heap gives every cell a `next` and a `prev` pointer; `none` is the null
pointer. `Ring heap head cells` says that following `next` from `head` visits
exactly `cells` and comes back, and that `prev` is the inverse. Insertion and
removal are described by the pointers they leave, so any program whose stores
leave those pointers may use the two rules.
-/

namespace Library

universe u

variable {Cell : Type u}

structure Heap (Cell : Type u) where
  next : Cell → Option Cell
  prev : Cell → Option Cell

namespace Heap

variable [DecidableEq Cell]

/-- Store through a pointer to a cell's `next` field; a null pointer has no cell. -/
def setNext (heap : Heap Cell) (pointer value : Option Cell) : Heap Cell :=
  match pointer with
  | none => heap
  | some cell => { heap with next := Function.update heap.next cell value }

/-- Store through a pointer to a cell's `prev` field. -/
def setPrev (heap : Heap Cell) (pointer value : Option Cell) : Heap Cell :=
  match pointer with
  | none => heap
  | some cell => { heap with prev := Function.update heap.prev cell value }

@[simp] theorem setNext_prev (heap : Heap Cell) (pointer value : Option Cell) :
    (heap.setNext pointer value).prev = heap.prev := by cases pointer <;> rfl

@[simp] theorem setPrev_next (heap : Heap Cell) (pointer value : Option Cell) :
    (heap.setPrev pointer value).next = heap.next := by cases pointer <;> rfl

@[simp] theorem setNext_next (heap : Heap Cell) (cell other : Cell) (value : Option Cell) :
    (heap.setNext (some cell) value).next other =
      if other = cell then value else heap.next other := by
  simp [setNext, Function.update_apply]

@[simp] theorem setPrev_prev (heap : Heap Cell) (cell other : Cell) (value : Option Cell) :
    (heap.setPrev (some cell) value).prev other =
      if other = cell then value else heap.prev other := by
  simp [setPrev, Function.update_apply]

omit [DecidableEq Cell]

def Linked (heap : Heap Cell) (first second : Cell) : Prop :=
  heap.next first = some second ∧ heap.prev second = some first

/-- The cells strictly between `first` and `last`, in order. -/
def Segment (heap : Heap Cell) : Cell → List Cell → Cell → Prop
  | first, [], last => heap.Linked first last
  | first, cell :: rest, last => heap.Linked first cell ∧ Segment heap cell rest last

def headOf (last : Cell) : List Cell → Cell
  | [] => last
  | cell :: _ => cell

def lastOf (first : Cell) : List Cell → Cell
  | [] => first
  | cell :: rest => lastOf cell rest

theorem lastOf_mem (first : Cell) (cells : List Cell) :
    lastOf first cells ∈ first :: cells := by
  induction cells generalizing first with
  | nil => simp [lastOf]
  | cons head rest inductionHypothesis =>
      exact List.mem_cons_of_mem _ (inductionHypothesis head)

theorem segment_append {heap : Heap Cell} {first last middle : Cell} {left right : List Cell} :
    heap.Segment first (left ++ middle :: right) last ↔
      heap.Segment first left middle ∧ heap.Segment middle right last := by
  induction left generalizing first with
  | nil => rfl
  | cons head rest inductionHypothesis =>
      simp only [List.cons_append, Segment, inductionHypothesis, and_assoc]

theorem Segment.congr {heap other : Heap Cell} {first last : Cell} {cells : List Cell}
    (segment : heap.Segment first cells last)
    (next : ∀ cell ∈ first :: cells, other.next cell = heap.next cell)
    (prev : ∀ cell, cell = last ∨ cell ∈ cells → other.prev cell = heap.prev cell) :
    other.Segment first cells last := by
  induction cells generalizing first with
  | nil =>
      exact ⟨(next first (by simp)).trans segment.1, (prev last (by simp)).trans segment.2⟩
  | cons head rest inductionHypothesis =>
      refine ⟨⟨(next first (by simp)).trans segment.1.1,
        (prev head (by simp)).trans segment.1.2⟩, inductionHypothesis segment.2 ?_ ?_⟩
      · exact fun cell member => next cell (List.mem_cons_of_mem _ member)
      · intro cell choice
        exact prev cell (choice.imp_right (List.mem_cons_of_mem _))

/-- Turning the last pointer of a segment towards another cell. -/
theorem Segment.redirect {heap other : Heap Cell} {first last : Cell}
    {cells : List Cell} (segment : heap.Segment first cells last) (target : Cell)
    (nodup : (first :: cells).Nodup)
    (next : ∀ cell ∈ first :: cells, cell ≠ lastOf first cells →
      other.next cell = heap.next cell)
    (prev : ∀ cell ∈ cells, other.prev cell = heap.prev cell)
    (joined : other.Linked (lastOf first cells) target) :
    other.Segment first cells target := by
  induction cells generalizing first with
  | nil => exact joined
  | cons head rest inductionHypothesis =>
      have apart : first ≠ lastOf head rest := by
        intro same
        exact (List.nodup_cons.mp nodup).1 (same ▸ lastOf_mem head rest)
      refine ⟨⟨(next first (by simp) apart).trans segment.1.1,
        (prev head (by simp)).trans segment.1.2⟩, ?_⟩
      refine inductionHypothesis segment.2 (List.nodup_cons.mp nodup).2 ?_ ?_ joined
      · exact fun cell member => next cell (List.mem_cons_of_mem _ member)
      · exact fun cell member => prev cell (List.mem_cons_of_mem _ member)

theorem Segment.prev_last {heap : Heap Cell} {first last : Cell} {cells : List Cell}
    (segment : heap.Segment first cells last) :
    heap.prev last = some (lastOf first cells) := by
  induction cells generalizing first with
  | nil => exact segment.2
  | cons head rest inductionHypothesis => exact inductionHypothesis segment.2

theorem Segment.next_first {heap : Heap Cell} {first last : Cell} {cells : List Cell}
    (segment : heap.Segment first cells last) :
    heap.next first = some (headOf last cells) := by
  cases cells with
  | nil => exact segment.1
  | cons head rest => exact segment.1.1

theorem Segment.unique {heap : Heap Cell} {first last : Cell} {cells others : List Cell}
    (segment : heap.Segment first cells last) (other : heap.Segment first others last)
    (fresh : last ∉ cells) (freshOther : last ∉ others) : cells = others := by
  have next := segment.next_first.symm.trans other.next_first
  induction cells generalizing first others with
  | nil =>
      cases others with
      | nil => rfl
      | cons head rest =>
          obtain rfl : last = head := Option.some.inj next
          exact absurd List.mem_cons_self freshOther
  | cons head rest inductionHypothesis =>
      cases others with
      | nil =>
          obtain rfl : head = last := Option.some.inj next
          exact absurd List.mem_cons_self fresh
      | cons otherHead otherRest =>
          obtain rfl : head = otherHead := Option.some.inj next
          exact congrArg _ (inductionHypothesis segment.2 other.2
            (fun member => fresh (List.mem_cons_of_mem _ member))
            (fun member => freshOther (List.mem_cons_of_mem _ member))
            (segment.2.next_first.symm.trans other.2.next_first))

theorem Segment.next_mem {heap : Heap Cell} {first last cell : Cell} {cells : List Cell}
    (segment : heap.Segment first cells last) (member : cell ∈ first :: cells) :
    ∃ successor, heap.next cell = some successor ∧ (successor = last ∨ successor ∈ cells) := by
  induction cells generalizing first with
  | nil =>
      obtain rfl : cell = first := by simpa using member
      exact ⟨last, segment.1, .inl rfl⟩
  | cons head rest inductionHypothesis =>
      rcases List.mem_cons.mp member with rfl | inRest
      · exact ⟨head, segment.1.1, .inr (by simp)⟩
      · obtain ⟨successor, equality, place⟩ := inductionHypothesis segment.2 inRest
        exact ⟨successor, equality, place.imp_right (List.mem_cons_of_mem _)⟩

/-- A well-formed circular list: `next` visits `cells` and returns to `head`. -/
structure Ring (heap : Heap Cell) (head : Cell) (cells : List Cell) : Prop where
  segment : heap.Segment head cells head
  nodup : (head :: cells).Nodup

namespace Ring

variable {heap other : Heap Cell} {head : Cell} {cells left right : List Cell}

theorem unique {others : List Cell} (ring : heap.Ring head cells) (other : heap.Ring head others) :
    cells = others :=
  ring.segment.unique other.segment (List.nodup_cons.mp ring.nodup).1
    (List.nodup_cons.mp other.nodup).1

theorem next_head (ring : heap.Ring head cells) :
    heap.next head = some (headOf head cells) := ring.segment.next_first

theorem prev_head (ring : heap.Ring head cells) :
    heap.prev head = some (lastOf head cells) := ring.segment.prev_last

/-- The emptiness test of such lists reads the head's `next` pointer. -/
theorem next_head_eq_head_iff (ring : heap.Ring head cells) :
    heap.next head = some head ↔ cells = [] := by
  rw [ring.next_head]
  cases cells with
  | nil => simp [headOf]
  | cons cell rest =>
      have apart : head ∉ cell :: rest := (List.nodup_cons.mp ring.nodup).1
      simp only [headOf, Option.some.injEq, reduceCtorEq, iff_false]
      exact fun same => apart (by simp [same])

theorem around {cell : Cell} (ring : heap.Ring head (left ++ cell :: right)) :
    heap.next cell = some (headOf head right) ∧ heap.prev cell = some (lastOf head left) := by
  have parts := segment_append.mp ring.segment
  exact ⟨parts.2.next_first, parts.1.prev_last⟩

theorem congr (ring : heap.Ring head cells)
    (next : ∀ cell ∈ head :: cells, other.next cell = heap.next cell)
    (prev : ∀ cell ∈ head :: cells, other.prev cell = heap.prev cell) :
    other.Ring head cells := by
  refine ⟨ring.segment.congr next ?_, ring.nodup⟩
  intro cell place
  exact prev cell (by rcases place with rfl | member <;> simp [*])

/-- Insertion before the head: the list grows at its tail. -/
theorem append [DecidableEq Cell] {fresh : Cell} (ring : heap.Ring head cells)
    (new : fresh ∉ head :: cells)
    (next : ∀ cell, other.next cell =
      if cell = lastOf head cells then some fresh
      else if cell = fresh then some head else heap.next cell)
    (prev : ∀ cell, other.prev cell =
      if cell = head then some fresh
      else if cell = fresh then some (lastOf head cells) else heap.prev cell) :
    other.Ring head (cells ++ [fresh]) := by
  have freshNotLast : fresh ≠ lastOf head cells :=
    fun same => new (same ▸ lastOf_mem head cells)
  have freshNotHead : fresh ≠ head := fun same => new (by simp [same])
  have headNotMember : head ∉ cells := (List.nodup_cons.mp ring.nodup).1
  constructor
  · refine segment_append.mpr ⟨?_, ?_⟩
    · refine ring.segment.redirect _ ring.nodup ?_ ?_ ⟨by simp [next], ?_⟩
      · intro cell member notLast
        have notFresh : cell ≠ fresh := fun same => new (same ▸ member)
        simp [next, notLast, notFresh]
      · intro cell member
        have notHead : cell ≠ head := fun same => headNotMember (same ▸ member)
        have notFresh : cell ≠ fresh := fun same => new (by simp [← same, member])
        simp [prev, notHead, notFresh]
      · simp [prev, freshNotHead]
    · exact ⟨by simp [next, freshNotLast], by simp [prev]⟩
  · rw [← List.cons_append]
    refine List.nodup_append'.mpr ⟨ring.nodup, by simp, ?_⟩
    simpa using new

/-- Removal: the neighbours point at each other. -/
theorem remove [DecidableEq Cell] {cell : Cell}
    (ring : heap.Ring head (left ++ cell :: right))
    (next : ∀ place, place ≠ cell → other.next place =
      if place = lastOf head left then some (headOf head right) else heap.next place)
    (prev : ∀ place, place ≠ cell → other.prev place =
      if place = headOf head right then some (lastOf head left) else heap.prev place) :
    other.Ring head (left ++ right) := by
  obtain ⟨before, after⟩ := segment_append.mp ring.segment
  have nodup : (head :: left ++ cell :: right).Nodup := ring.nodup
  obtain ⟨leftNodup, rightNodup, disjoint⟩ := List.nodup_append'.mp nodup
  have cellNotRight : cell ∉ right := (List.nodup_cons.mp rightNodup).1
  have rest : (right).Nodup := (List.nodup_cons.mp rightNodup).2
  have notCell : ∀ place ∈ head :: left, place ≠ cell := by
    rintro place member rfl
    exact disjoint member (by simp)
  have notRight : ∀ place ∈ head :: left, place ∉ right :=
    fun place member inRight => disjoint member (by simp [inRight])
  have headNotLeft : head ∉ left := (List.nodup_cons.mp leftNodup).1
  have lastNotCell := notCell _ (lastOf_mem head left)
  have joined : other.Linked (lastOf head left) (headOf head right) := by
    have succNotCell : headOf head right ≠ cell := by
      cases right with
      | nil => exact notCell head (by simp)
      | cons first tail => exact fun same => cellNotRight (by simp [← same, headOf])
    exact ⟨by simp [next _ lastNotCell], by simp [prev _ succNotCell]⟩
  have innerNext : ∀ place ∈ head :: left, place ≠ lastOf head left →
      other.next place = heap.next place := by
    intro place member notLast
    simp [next _ (notCell place member), notLast]
  have innerPrev : ∀ place ∈ left, other.prev place = heap.prev place := by
    intro place member
    have inLeft : place ∈ head :: left := by simp [member]
    have notSucc : place ≠ headOf head right := by
      cases right with
      | nil =>
          rintro rfl
          exact headNotLeft member
      | cons first tail =>
          rintro rfl
          exact notRight _ inLeft (by simp)
    simp only [prev _ (notCell place inLeft), if_neg notSucc]
  have joinedLeft := before.redirect (headOf head right) leftNodup
    innerNext innerPrev joined
  constructor
  · cases right with
    | nil => simpa [headOf] using joinedLeft
    | cons first tail =>
        refine segment_append.mpr ⟨joinedLeft, ?_⟩
        refine Segment.congr after.2 ?_ ?_
        · intro place member
          have notSelf : place ≠ cell := fun same => cellNotRight (same ▸ member)
          have notLast : place ≠ lastOf head left :=
            fun same => notRight _ (lastOf_mem head left) (same ▸ member)
          simp [next _ notSelf, notLast]
        · intro place choice
          have notSelf : place ≠ cell := by
            rcases choice with rfl | member
            · exact notCell place (by simp)
            · exact fun same => cellNotRight (by simp [← same, member])
          have notFirst : place ≠ first := by
            rcases choice with rfl | member
            · exact fun same => notRight place (by simp) (by simp [same])
            · exact fun same => (List.nodup_cons.mp rest).1 (same ▸ member)
          simp [prev _ notSelf, headOf, notFirst]
  · rw [← List.cons_append]
    exact List.nodup_append'.mpr ⟨leftNodup, rest,
      fun place member inRight => notRight place member inRight⟩

end Ring

/-- `cell` is a member of the list at `head`: following `next` from the head
arrives at it. -/
def On (heap : Heap Cell) (head cell : Cell) : Prop :=
  cell ≠ head ∧ Relation.ReflTransGen (fun first second => heap.next first = some second) head cell

theorem Segment.reaches {heap : Heap Cell} {first last cell : Cell} {cells : List Cell}
    (segment : heap.Segment first cells last) (member : cell ∈ cells) :
    Relation.ReflTransGen (fun first second => heap.next first = some second) first cell := by
  induction cells generalizing first with
  | nil => simp at member
  | cons head rest inductionHypothesis =>
      rcases List.mem_cons.mp member with rfl | inRest
      · exact .single segment.1.1
      · exact .head segment.1.1 (inductionHypothesis segment.2 inRest)

theorem Ring.on_iff {heap : Heap Cell} {head cell : Cell} {cells : List Cell}
    (ring : heap.Ring head cells) : heap.On head cell ↔ cell ∈ cells := by
  constructor
  · rintro ⟨notHead, path⟩
    have closed : cell ∈ head :: cells := by
      clear notHead
      induction path with
      | refl => simp
      | tail _ edge inductionHypothesis =>
          obtain ⟨successor, equality, place⟩ := ring.segment.next_mem inductionHypothesis
          obtain rfl : successor = _ := Option.some.inj (equality.symm.trans edge)
          exact List.mem_cons.mpr place
    exact (List.mem_cons.mp closed).resolve_left notHead
  · intro member
    exact ⟨fun same => (List.nodup_cons.mp ring.nodup).1 (same ▸ member),
      ring.segment.reaches member⟩

end Heap

end Library
