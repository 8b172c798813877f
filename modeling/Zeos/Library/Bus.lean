import Mathlib.Tactic.Common

/-!
# Byte buses and exact copies

A bus loads and stores bytes at 32-bit addresses and may change its own state
at any access (a translation buffer, a fault flag). A `Window` is a set of
addresses through which the bus behaves as a memory of cells. Copies are
described by `Copied`, which composes, so that a copy loop is verified by one
rule for its body and one for going on.
-/

namespace Library

universe u v

structure Bus (State : Type u) where
  load : State → BitVec 32 → BitVec 8 × State
  store : State → BitVec 32 → BitVec 8 → State

abbrev offset (pointer : BitVec 32) (index : Nat) : BitVec 32 :=
  pointer + BitVec.ofNat 32 index

theorem offset_add (pointer : BitVec 32) (first second : Nat) :
    offset (offset pointer first) second = offset pointer (first + second) := by
  simp [offset, BitVec.ofNat_add, BitVec.add_assoc]

theorem offset_succ (pointer : BitVec 32) (index : Nat) :
    offset (pointer + 1) index = offset pointer (index + 1) := by
  have added := offset_add pointer 1 index
  rwa [Nat.add_comm 1 index] at added

@[simp] theorem offset_zero (pointer : BitVec 32) : offset pointer 0 = pointer := by
  simp [offset]

namespace Bus

variable {State : Type u} (bus : Bus State)

def loadMany : Nat → BitVec 32 → State → List (BitVec 8) × State
  | 0, _, state => ([], state)
  | count + 1, address, state =>
      let first := bus.load state address
      let rest := loadMany count (address + 1) first.2
      (first.1 :: rest.1, rest.2)

def storeMany : List (BitVec 8) → BitVec 32 → State → State
  | [], _, state => state
  | byte :: bytes, address, state =>
      storeMany bytes (address + 1) (bus.store state address byte)

/-- One register-wide transfer: all loads come before all stores. -/
def move (width : Nat) (source dest : BitVec 32) (state : State) : State :=
  let loaded := bus.loadMany width source state
  bus.storeMany loaded.1 dest loaded.2

structure Keeps (inv : State → Prop) : Prop where
  load : ∀ state address, inv state → inv (bus.load state address).2
  store : ∀ state address byte, inv state → inv (bus.store state address byte)

section

variable {bus} {inv bad : State → Prop}

theorem Keeps.loadMany (keeps : bus.Keeps inv) (count : Nat) {source : BitVec 32} {state : State}
    (holds : inv state) : inv (bus.loadMany count source state).2 := by
  induction count generalizing source state with
  | zero => exact holds
  | succ count inductionHypothesis => exact inductionHypothesis (keeps.load _ _ holds)

theorem Keeps.storeMany (keeps : bus.Keeps inv) (bytes : List (BitVec 8)) {dest : BitVec 32}
    {state : State} (holds : inv state) : inv (bus.storeMany bytes dest state) := by
  induction bytes generalizing dest state with
  | nil => exact holds
  | cons byte bytes inductionHypothesis => exact inductionHypothesis (keeps.store _ _ _ holds)

theorem Keeps.move (keeps : bus.Keeps inv) (width : Nat) {source dest : BitVec 32} {state : State}
    (holds : inv state) : inv (bus.move width source dest state) :=
  keeps.storeMany _ (keeps.loadMany width holds)

theorem loadMany_length (count : Nat) (source : BitVec 32) (state : State) :
    (bus.loadMany count source state).1.length = count := by
  induction count generalizing source state with
  | zero => rfl
  | succ count inductionHypothesis => exact congrArg (· + 1) (inductionHypothesis _ _)

theorem Keeps.storeMany_bad (keeps : bus.Keeps inv) (stuck : bus.Keeps bad)
    (bytes : List (BitVec 8)) {dest : BitVec 32} {state : State} (holds : inv state) {index : Nat}
    (bound : index < bytes.length)
    (trips : ∀ state byte, inv state → bad (bus.store state (offset dest index) byte)) :
    bad (bus.storeMany bytes dest state) := by
  induction bytes generalizing dest state index with
  | nil => exact absurd bound (Nat.not_lt_zero index)
  | cons byte bytes inductionHypothesis =>
      cases index with
      | zero =>
          rw [offset_zero] at trips
          exact stuck.storeMany bytes (trips _ _ holds)
      | succ index =>
          rw [← offset_succ] at trips
          exact inductionHypothesis (keeps.store _ _ _ holds) (Nat.lt_of_succ_lt_succ bound) trips

theorem Keeps.loadMany_bad (keeps : bus.Keeps inv) (stuck : bus.Keeps bad) (count : Nat)
    {source : BitVec 32} {state : State} (holds : inv state) {index : Nat} (bound : index < count)
    (trips : ∀ state, inv state → bad (bus.load state (offset source index)).2) :
    bad (bus.loadMany count source state).2 := by
  induction count generalizing source state index with
  | zero => exact absurd bound (Nat.not_lt_zero index)
  | succ count inductionHypothesis =>
      cases index with
      | zero =>
          rw [offset_zero] at trips
          exact stuck.loadMany count (trips _ holds)
      | succ index =>
          rw [← offset_succ] at trips
          exact inductionHypothesis (keeps.load _ _ holds) (Nat.lt_of_succ_lt_succ bound) trips

theorem Keeps.move_bad_load (keeps : bus.Keeps inv) (stuck : bus.Keeps bad) {width : Nat}
    {source dest : BitVec 32} {state : State} (holds : inv state) {index : Nat}
    (bound : index < width)
    (trips : ∀ state, inv state → bad (bus.load state (offset source index)).2) :
    bad (bus.move width source dest state) :=
  stuck.storeMany _ (keeps.loadMany_bad stuck width holds bound trips)

theorem Keeps.move_bad (keeps : bus.Keeps inv) (stuck : bus.Keeps bad) {width : Nat}
    {source dest : BitVec 32} {state : State} (holds : inv state) {index : Nat}
    (bound : index < width)
    (trips : ∀ state byte, inv state → bad (bus.store state (offset dest index) byte)) :
    bad (bus.move width source dest state) :=
  keeps.storeMany_bad stuck _ (keeps.loadMany width holds) (by rwa [loadMany_length]) trips

end

/-- Addresses through which the bus is a memory of cells, as long as `holds`. -/
structure Window (Place : Type v) where
  holds : State → Prop
  cell : State → Place → BitVec 8
  place : BitVec 32 → Place
  readable : BitVec 32 → Prop
  writable : BitVec 32 → Prop
  load_value : ∀ {state address}, holds state → readable address →
    (bus.load state address).1 = cell state (place address)
  load_holds : ∀ {state address}, holds state → readable address →
    holds (bus.load state address).2
  load_cell : ∀ {state address}, holds state → readable address →
    cell (bus.load state address).2 = cell state
  store_holds : ∀ {state address} byte, holds state → writable address →
    holds (bus.store state address byte)
  store_same : ∀ {state address} byte, holds state → writable address →
    cell (bus.store state address byte) (place address) = byte
  store_other : ∀ {state address} byte {other}, holds state → writable address →
    other ≠ place address → cell (bus.store state address byte) other = cell state other

variable {bus} {Place : Type v} (window : bus.Window Place)

/-- The first `count` addresses from `pointer` all satisfy `inside`. -/
def Covers (inside : BitVec 32 → Prop) (pointer : BitVec 32) (count : Nat) : Prop :=
  ∀ index < count, inside (offset pointer index)

theorem Covers.mono {inside : BitVec 32 → Prop} {pointer : BitVec 32} {small large : Nat}
    (covers : Covers inside pointer large) (le : small ≤ large) :
    Covers inside pointer small :=
  fun index bound => covers index (Nat.lt_of_lt_of_le bound le)

theorem Covers.shift {inside : BitVec 32 → Prop} {pointer : BitVec 32} {first second : Nat}
    (covers : Covers inside pointer (first + second)) :
    Covers inside (offset pointer first) second := by
  intro index bound
  rw [offset_add]
  exact covers (first + index) (by omega)

theorem Covers.head {inside : BitVec 32 → Prop} {pointer : BitVec 32} {count : Nat}
    (covers : Covers inside pointer (count + 1)) : inside pointer := by
  simpa using covers 0 (by omega)

theorem Covers.tail {inside : BitVec 32 → Prop} {pointer : BitVec 32} {count : Nat}
    (covers : Covers inside pointer (count + 1)) : Covers inside (pointer + 1) count := by
  intro index bound
  rw [offset_succ]
  exact covers (index + 1) (by omega)

namespace Window

/-- The destination cells are distinct, and none of them is a source cell that
a forward copy has still to read. -/
structure Forward (source dest : BitVec 32) (count : Nat) : Prop where
  injective : ∀ i < count, ∀ j < count,
    window.place (offset dest i) = window.place (offset dest j) → i = j
  behind : ∀ i < count, ∀ j < count,
    window.place (offset dest i) = window.place (offset source j) → j ≤ i

/-- `after` is `before` with `count` bytes copied and nothing else changed. -/
structure Copied (source dest : BitVec 32) (count : Nat) (before after : State) : Prop where
  holds : window.holds after
  bytes : ∀ index < count, window.cell after (window.place (offset dest index)) =
    window.cell before (window.place (offset source index))
  frame : ∀ place, (∀ index < count, place ≠ window.place (offset dest index)) →
    window.cell after place = window.cell before place

variable {window}

theorem Forward.mono {source dest : BitVec 32} {small large : Nat}
    (forward : window.Forward source dest large) (le : small ≤ large) :
    window.Forward source dest small :=
  ⟨fun i hi j hj => forward.injective i (Nat.lt_of_lt_of_le hi le) j (Nat.lt_of_lt_of_le hj le),
    fun i hi j hj => forward.behind i (Nat.lt_of_lt_of_le hi le) j (Nat.lt_of_lt_of_le hj le)⟩

theorem Forward.shift {source dest : BitVec 32} {first second : Nat}
    (forward : window.Forward source dest (first + second)) :
    window.Forward (offset source first) (offset dest first) second := by
  constructor
  · intro i hi j hj same
    rw [offset_add, offset_add] at same
    have := forward.injective (first + i) (by omega) (first + j) (by omega) same
    omega
  · intro i hi j hj same
    rw [offset_add, offset_add] at same
    have := forward.behind (first + i) (by omega) (first + j) (by omega) same
    omega

theorem Copied.zero {source dest : BitVec 32} {state : State} (holds : window.holds state) :
    window.Copied source dest 0 state state :=
  ⟨holds, fun index bound => absurd bound (Nat.not_lt_zero index), fun _ _ => rfl⟩

theorem Copied.append {source dest : BitVec 32} {first second : Nat}
    {before middle after : State} (forward : window.Forward source dest (first + second))
    (head : window.Copied source dest first before middle)
    (tail : window.Copied (offset source first) (offset dest first) second middle after) :
    window.Copied source dest (first + second) before after := by
  refine ⟨tail.holds, ?_, ?_⟩
  · intro index bound
    by_cases early : index < first
    · rw [tail.frame, head.bytes index early]
      intro later laterBound same
      rw [offset_add] at same
      have := forward.injective index bound (first + later) (by omega) same
      omega
    · obtain ⟨later, rfl⟩ := Nat.exists_eq_add_of_le (Nat.le_of_not_lt early)
      have copied := tail.bytes later (by omega)
      rw [offset_add, offset_add] at copied
      rw [copied, head.frame]
      intro earlier earlierBound same
      have := forward.behind earlier (by omega) (first + later) bound same.symm
      omega
  · intro place untouched
    rw [tail.frame, head.frame]
    · exact fun index bound => untouched index (by omega)
    · intro index bound
      rw [offset_add]
      exact untouched (first + index) (by omega)

theorem loadMany_spec (count : Nat) {source : BitVec 32} {state : State}
    (holds : window.holds state) (covers : Covers window.readable source count) :
    window.holds (bus.loadMany count source state).2 ∧
      window.cell (bus.loadMany count source state).2 = window.cell state ∧
      (bus.loadMany count source state).1.length = count ∧
      ∀ index < count, (bus.loadMany count source state).1[index]? =
        some (window.cell state (window.place (offset source index))) := by
  induction count generalizing source state with
  | zero => exact ⟨holds, rfl, rfl, fun index bound => absurd bound (Nat.not_lt_zero index)⟩
  | succ count inductionHypothesis =>
      have here := covers.head
      obtain ⟨held, cells, length, values⟩ :=
        inductionHypothesis (window.load_holds holds here) covers.tail
      refine ⟨held, cells.trans (window.load_cell holds here), by simpa [loadMany] using length, ?_⟩
      intro index bound
      cases index with
      | zero => simp [loadMany, window.load_value holds here]
      | succ index =>
          have value := values index (by omega)
          rw [window.load_cell holds here, offset_succ] at value
          simpa only [loadMany, List.getElem?_cons_succ] using value

theorem storeMany_spec (bytes : List (BitVec 8)) {dest : BitVec 32} {state : State}
    (holds : window.holds state) (covers : Covers window.writable dest bytes.length)
    (injective : ∀ i < bytes.length, ∀ j < bytes.length,
      window.place (offset dest i) = window.place (offset dest j) → i = j) :
    window.holds (bus.storeMany bytes dest state) ∧
      (∀ index < bytes.length, bytes[index]? =
        some (window.cell (bus.storeMany bytes dest state) (window.place (offset dest index)))) ∧
      ∀ place, (∀ index < bytes.length, place ≠ window.place (offset dest index)) →
        window.cell (bus.storeMany bytes dest state) place = window.cell state place := by
  induction bytes generalizing dest state with
  | nil => exact ⟨holds, fun index bound => absurd bound (Nat.not_lt_zero index), fun _ _ => rfl⟩
  | cons byte bytes inductionHypothesis =>
      have here := covers.head
      obtain ⟨held, values, frame⟩ := inductionHypothesis
        (window.store_holds byte holds here) covers.tail (by
          intro i hi j hj same
          rw [offset_succ, offset_succ] at same
          have := injective (i + 1) (by simpa using hi) (j + 1) (by simpa using hj) same
          omega)
      refine ⟨held, ?_, ?_⟩
      · intro index bound
        cases index with
        | zero =>
            simp only [storeMany, offset_zero, List.getElem?_cons_zero, Option.some.injEq]
            rw [frame, window.store_same byte holds here]
            intro later laterBound same
            rw [offset_succ, ← offset_zero dest, offset_add, Nat.zero_add] at same
            have := injective 0 (by simp) (later + 1) (by simpa using laterBound) same
            omega
        | succ index =>
            have value := values index (by simpa using bound)
            rw [offset_succ] at value
            simpa [storeMany] using value
      · intro place untouched
        simp only [storeMany]
        rw [frame, window.store_other byte holds here]
        · simpa using untouched 0 (by simp)
        · intro index bound
          rw [offset_succ]
          exact untouched (index + 1) (by simpa using bound)

theorem move_copied (width : Nat) {source dest : BitVec 32} {state : State}
    (holds : window.holds state) (reads : Covers window.readable source width)
    (writes : Covers window.writable dest width) (forward : window.Forward source dest width) :
    window.Copied source dest width state (bus.move width source dest state) := by
  obtain ⟨held, cells, length, values⟩ := loadMany_spec width holds reads
  obtain ⟨after, stored, frame⟩ := storeMany_spec (bus.loadMany width source state).1 held
    (by rwa [length]) (by rw [length]; exact forward.injective)
  rw [length] at stored frame
  refine ⟨after, ?_, ?_⟩
  · intro index bound
    have value := values index bound
    exact Option.some.inj ((stored index bound).symm.trans value)
  · intro place untouched
    exact (frame place untouched).trans (congrFun cells place)

end Window

/-- A state with a local array, and whether a store missed the array. -/
structure Local (State : Type u) where
  outer : State
  cells : Nat → BitVec 8
  overrun : Bool

def intoLocal (bus : Bus State) (base : BitVec 32) (size : Nat) : Bus (Local State) where
  load state address :=
    let loaded := bus.load state.outer address
    (loaded.1, { state with outer := loaded.2 })
  store state address byte :=
    let index := (address - base).toNat
    if index < size then { state with cells := Function.update state.cells index byte }
    else { state with overrun := true }

theorem Keeps.intoLocal {inv : State → Prop} (keeps : bus.Keeps inv) (base : BitVec 32)
    (size : Nat) : (bus.intoLocal base size).Keeps fun state => inv state.outer where
  load state address holds := keeps.load state.outer address holds
  store state address byte holds := by
    unfold Bus.intoLocal
    dsimp only
    split <;> exact holds

/-- The array, and what the bus shows outside of it. -/
def Window.intoLocal (window : bus.Window Place) (base : BitVec 32) (size : Nat) :
    (bus.intoLocal base size).Window (Place ⊕ Nat) where
  holds state := window.holds state.outer ∧ state.overrun = false
  cell state := Sum.elim (window.cell state.outer) state.cells
  place address :=
    if (address - base).toNat < size then .inr (address - base).toNat
    else .inl (window.place address)
  readable address := window.readable address ∧ ¬ (address - base).toNat < size
  writable address := (address - base).toNat < size
  load_value := by
    rintro state address ⟨holds, _⟩ ⟨inside, outside⟩
    rw [if_neg outside]
    exact window.load_value holds inside
  load_holds := by
    rintro state address ⟨holds, inBounds⟩ ⟨inside, _⟩
    exact ⟨window.load_holds holds inside, inBounds⟩
  load_cell := by
    rintro state address ⟨holds, _⟩ ⟨inside, _⟩
    exact congrArg (Sum.elim · state.cells) (window.load_cell holds inside)
  store_holds := by
    rintro state address byte ⟨holds, inBounds⟩ inside
    unfold Bus.intoLocal
    dsimp only
    rw [if_pos inside]
    exact ⟨holds, inBounds⟩
  store_same := by
    rintro state address byte _ inside
    unfold Bus.intoLocal
    dsimp only
    rw [if_pos inside, if_pos inside]
    exact Function.update_self ..
  store_other := by
    rintro state address byte other _ inside apart
    unfold Bus.intoLocal
    dsimp only
    rw [if_pos inside] at apart ⊢
    cases other with
    | inl place => rfl
    | inr index => exact Function.update_of_ne (fun same => apart (congrArg Sum.inr same)) ..

def plain : Bus (BitVec 32 → BitVec 8) where
  load memory address := (memory address, memory)
  store memory address byte := Function.update memory address byte

def plainWindow : plain.Window (BitVec 32) where
  holds _ := True
  cell memory address := memory address
  place address := address
  readable _ := True
  writable _ := True
  load_value _ _ := rfl
  load_holds _ _ := trivial
  load_cell _ _ := rfl
  store_holds _ _ _ := trivial
  store_same _ _ _ := Function.update_self ..
  store_other := fun _ _ _ _ apart => Function.update_of_ne apart ..

theorem offset_toNat {pointer : BitVec 32} {count index : Nat}
    (fits : pointer.toNat + count ≤ 0x100000000) (bound : index < count) :
    (offset pointer index).toNat = pointer.toNat + index := by
  rw [offset, BitVec.toNat_add, BitVec.toNat_ofNat]
  omega

/-- Ranges that do not wrap, and are apart or go down. -/
theorem plain_forward {source dest : BitVec 32} {count : Nat}
    (sourceFits : source.toNat + count ≤ 0x100000000)
    (destFits : dest.toNat + count ≤ 0x100000000)
    (order : dest.toNat ≤ source.toNat ∨ source.toNat + count ≤ dest.toNat) :
    plainWindow.Forward source dest count := by
  constructor
  · intro i iBound j jBound same
    have values : (offset dest i).toNat = (offset dest j).toNat := congrArg BitVec.toNat same
    rw [offset_toNat destFits iBound, offset_toNat destFits jBound] at values
    omega
  · intro i iBound j jBound same
    have values : (offset dest i).toNat = (offset source j).toNat := congrArg BitVec.toNat same
    rw [offset_toNat destFits iBound, offset_toNat sourceFits jBound] at values
    omega

end Bus

end Library
