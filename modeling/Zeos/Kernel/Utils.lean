import Zeos.Kernel.Types
import Zeos.Library.Bus

/-!
# `utils.c`: the copy routines and the user pointer check

The three copy routines have the same two loops: words while more than four
bytes are left, then bytes. They run on any bus; `size` is a C `int`.
-/

namespace Zeos

open Library

universe u v

variable {State : Type u}

def byteLoop (bus : Bus State) : Nat → DWord → DWord → State → State
  | 0, _, _, state => state
  | size + 1, p1, q1, state => byteLoop bus size (p1 + 1) (q1 + 1) (bus.move 1 p1 q1 state)

/-- `while (size > 4)`: one word at a time, the rest by bytes. -/
def wordLoop (bus : Bus State) : Nat → DWord → DWord → State → State
  | size + 5, p, q, state => wordLoop bus (size + 1) (p + 4) (q + 4) (bus.move 4 p q state)
  | size, p, q, state => byteLoop bus size p q state

def copyData (bus : Bus State) (start dest : DWord) (size : Int) (state : State) : State :=
  wordLoop bus size.toNat start dest state

def copyFromUser (bus : Bus State) (start dest : DWord) (size : Int) (state : State) :
    DWord × State :=
  (0, wordLoop bus size.toNat start dest state)

def copyToUser (bus : Bus State) (start dest : DWord) (size : Int) (state : State) :
    DWord × State :=
  (0, wordLoop bus size.toNat start dest state)

section

variable {bus : Bus State} {Place : Type v} {window : bus.Window Place}

open Bus

theorem byteLoop_copied (size : Nat) {source dest : DWord} {state : State}
    (holds : window.holds state) (reads : Covers window.readable source size)
    (writes : Covers window.writable dest size) (forward : window.Forward source dest size) :
    window.Copied source dest size state (byteLoop bus size source dest state) := by
  induction size generalizing source dest state with
  | zero => exact .zero holds
  | succ size inductionHypothesis =>
      rw [Nat.add_comm] at reads writes forward ⊢
      have head := Window.move_copied 1 holds (reads.mono (by omega)) (writes.mono (by omega))
        (forward.mono (by omega))
      have tail := inductionHypothesis head.holds reads.shift writes.shift forward.shift
      have whole := head.append forward tail
      rwa [Nat.add_comm 1 size] at whole ⊢

/-- Every routine is an exact copy, wherever the two loops meet. -/
theorem wordLoop_copied (size : Nat) {source dest : DWord} {state : State}
    (holds : window.holds state) (reads : Covers window.readable source size)
    (writes : Covers window.writable dest size) (forward : window.Forward source dest size) :
    window.Copied source dest size state (wordLoop bus size source dest state) := by
  fun_induction wordLoop bus size source dest state with
  | case1 size p q state inductionHypothesis =>
      have split : size.succ.succ.succ.succ.succ = 4 + (size + 1) := by omega
      rw [split] at reads writes forward ⊢
      have head := Window.move_copied 4 holds (reads.mono (by omega)) (writes.mono (by omega))
        (forward.mono (by omega))
      exact head.append forward
        (inductionHypothesis head.holds reads.shift writes.shift forward.shift)
  | case2 size p q state small =>
      exact byteLoop_copied size holds reads writes forward

/-! Whatever the addresses, the loops only access memory. -/

variable {inv bad : State → Prop}

theorem byteLoop_keeps (keeps : bus.Keeps inv) (size : Nat) {source dest : DWord} {state : State}
    (holds : inv state) : inv (byteLoop bus size source dest state) := by
  induction size generalizing source dest state with
  | zero => exact holds
  | succ size inductionHypothesis => exact inductionHypothesis (keeps.move 1 holds)

theorem wordLoop_keeps (keeps : bus.Keeps inv) (size : Nat) {source dest : DWord} {state : State}
    (holds : inv state) : inv (wordLoop bus size source dest state) := by
  fun_induction wordLoop bus size source dest state with
  | case1 size p q state inductionHypothesis => exact inductionHypothesis (keeps.move 4 holds)
  | case2 size p q state small => exact byteLoop_keeps keeps size holds

theorem byteLoop_trips (keeps : bus.Keeps inv) (stuck : bus.Keeps bad) (size : Nat)
    {source dest : DWord} {state : State} (holds : inv state) {index : Nat} (bound : index < size)
    (trips : ∀ first width state, inv state → first ≤ index → index < first + width →
      bad (bus.move width (offset source first) (offset dest first) state)) :
    bad (byteLoop bus size source dest state) := by
  induction size generalizing source dest state index with
  | zero => exact absurd bound (Nat.not_lt_zero index)
  | succ size inductionHypothesis =>
      cases index with
      | zero =>
          have here := trips 0 1 state holds (Nat.le_refl 0) Nat.one_pos
          rw [offset_zero, offset_zero] at here
          exact byteLoop_keeps stuck size here
      | succ index =>
          refine inductionHypothesis (keeps.move 1 holds) (Nat.lt_of_succ_lt_succ bound) ?_
          intro first width state holds low high
          rw [offset_succ, offset_succ]
          exact trips (first + 1) width state holds (Nat.succ_le_succ low) (by omega)

theorem wordLoop_trips (keeps : bus.Keeps inv) (stuck : bus.Keeps bad) (size : Nat)
    {source dest : DWord} {state : State} (holds : inv state) {index : Nat} (bound : index < size)
    (trips : ∀ first width state, inv state → first ≤ index → index < first + width →
      bad (bus.move width (offset source first) (offset dest first) state)) :
    bad (wordLoop bus size source dest state) := by
  fun_induction wordLoop bus size source dest state generalizing index with
  | case1 size p q state inductionHypothesis =>
      by_cases early : index < 4
      · have here := trips 0 4 state holds (Nat.zero_le index) (by omega)
        rw [offset_zero, offset_zero] at here
        exact wordLoop_keeps stuck _ here
      · obtain ⟨later, rfl⟩ := Nat.exists_eq_add_of_le (Nat.le_of_not_lt early)
        refine inductionHypothesis (keeps.move 4 holds) (show later < size + 1 by omega) ?_
        intro first width state holds low high
        have here := trips (4 + first) width state holds (by omega) (by omega)
        rw [← offset_add, ← offset_add] at here
        exact here
  | case2 size p q state small => exact byteLoop_trips keeps stuck size holds bound trips

theorem wordLoop_bad (keeps : bus.Keeps inv) (stuck : bus.Keeps bad) (size : Nat)
    {source dest : DWord} {state : State} (holds : inv state) {index : Nat} (bound : index < size)
    (trips : ∀ state byte, inv state → bad (bus.store state (offset dest index) byte)) :
    bad (wordLoop bus size source dest state) := by
  refine wordLoop_trips keeps stuck size holds bound fun first width state holds low high => ?_
  obtain ⟨later, rfl⟩ := Nat.exists_eq_add_of_le low
  rw [← offset_add] at trips
  exact keeps.move_bad stuck holds (Nat.lt_of_add_lt_add_left high) trips

theorem wordLoop_bad_load (keeps : bus.Keeps inv) (stuck : bus.Keeps bad) (size : Nat)
    {source dest : DWord} {state : State} (holds : inv state) {index : Nat} (bound : index < size)
    (trips : ∀ state, inv state → bad (bus.load state (offset source index)).2) :
    bad (wordLoop bus size source dest state) := by
  refine wordLoop_trips keeps stuck size holds bound fun first width state holds low high => ?_
  obtain ⟨later, rfl⟩ := Nat.exists_eq_add_of_le low
  rw [← offset_add] at trips
  exact keeps.move_bad_load stuck holds (Nat.lt_of_add_lt_add_left high) trips

end

abbrev VERIFY_READ : DWord := 0
abbrev VERIFY_WRITE : DWord := 1

/-- `access_ok`. The `VERIFY_WRITE` case has no `break`: where its own test
fails, the test of the `default` case decides. -/
def accessOk (type addr size : DWord) : Bool :=
  let addrIni := addr.toNat / PAGE_SIZE
  let addrFin := (addr + size).toNat / PAGE_SIZE
  if addrFin < addrIni then false
  else if type = VERIFY_WRITE ∧ USER_FIRST_PAGE + NUM_PAG_CODE ≤ addrIni ∧
      addrFin ≤ USER_FIRST_PAGE + NUM_PAG_CODE + NUM_PAG_DATA then true
  else decide (USER_FIRST_PAGE ≤ addrIni ∧
    addrFin ≤ USER_FIRST_PAGE + NUM_PAG_CODE + NUM_PAG_DATA)

theorem accessOk_type (type addr size : DWord) :
    accessOk type addr size = accessOk VERIFY_READ addr size := by
  unfold accessOk
  dsimp only
  generalize addr.toNat / PAGE_SIZE = first
  generalize (addr + size).toNat / PAGE_SIZE = last
  have notWrite : VERIFY_READ ≠ VERIFY_WRITE := by decide
  simp only [notWrite, false_and, if_false]
  split
  · rfl
  · split
    · rename_i strict
      have := strict.2
      simp only [USER_FIRST_PAGE, L_USER_START, PAGE_SIZE, NUM_PAG_CODE, NUM_PAG_DATA] at *
      exact (decide_eq_true (by omega)).symm
    · rfl

end Zeos
