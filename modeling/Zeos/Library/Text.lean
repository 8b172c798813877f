import Mathlib.Data.Nat.Digits.Lemmas
import Mathlib.Logic.Function.Basic

/-!
# Text in memory

Zero-terminated strings in a memory that records its stores, and decimal numbers as
strings. `Writes` bounds what a piece of code stores and composes along it, so that a
string is found again after later stores elsewhere.
-/

namespace Library

/-- The bytes of a memory, and the places of all stores, latest first. -/
structure Chars where
  bytes : Nat → BitVec 8
  stores : List Nat

namespace Chars

def put (chars : Chars) (place : Nat) (char : BitVec 8) : Chars :=
  ⟨Function.update chars.bytes place char, place :: chars.stores⟩

@[simp] theorem put_bytes_self (chars : Chars) (place : Nat) (char : BitVec 8) :
    (chars.put place char).bytes place = char := Function.update_self ..

theorem put_bytes_ne (chars : Chars) {place other : Nat} (char : BitVec 8)
    (apart : other ≠ place) : (chars.put place char).bytes other = chars.bytes other :=
  Function.update_of_ne apart ..

/-- All stores in between are to places from `low` up to `high`, and nothing else changed. -/
structure Writes (low high : Nat) (before after : Chars) : Prop where
  places : ∃ stores, after.stores = stores ++ before.stores ∧
    ∀ place ∈ stores, low ≤ place ∧ place < high
  frame : ∀ place, (place < low ∨ high ≤ place) → after.bytes place = before.bytes place

variable {low high first : Nat} {before middle after chars : Chars} {text more : List (BitVec 8)}

theorem Writes.refl (low high : Nat) (chars : Chars) : Writes low high chars chars :=
  ⟨⟨[], rfl, fun _ member => absurd member List.not_mem_nil⟩, fun _ _ => rfl⟩

theorem Writes.trans (one : Writes low high before middle) (two : Writes low high middle after) :
    Writes low high before after := by
  obtain ⟨old, oldStores, oldInside⟩ := one.places
  obtain ⟨new, newStores, newInside⟩ := two.places
  refine ⟨⟨new ++ old, ?_, fun place member => ?_⟩, fun place outside => ?_⟩
  · rw [newStores, oldStores, List.append_assoc]
  · rcases List.mem_append.mp member with late | early
    · exact newInside place late
    · exact oldInside place early
  · exact (two.frame place outside).trans (one.frame place outside)

theorem Writes.mono (writes : Writes low high before after) {wideLow wideHigh : Nat}
    (down : wideLow ≤ low) (up : high ≤ wideHigh) : Writes wideLow wideHigh before after := by
  obtain ⟨stores, same, inside⟩ := writes.places
  refine ⟨⟨stores, same, fun place member => ?_⟩, fun place outside => writes.frame place ?_⟩
  · have bounds := inside place member
    omega
  · omega

theorem Writes.put (chars : Chars) {place : Nat} (char : BitVec 8) (above : low ≤ place)
    (below : place < high) : Writes low high chars (chars.put place char) := by
  refine ⟨⟨[place], rfl, fun other member => ?_⟩, fun other outside => ?_⟩
  · rw [List.mem_singleton.mp member]
    exact ⟨above, below⟩
  · exact chars.put_bytes_ne char (by omega)

/-- Every store in between is below `high`. -/
theorem Writes.stores_lt (writes : Writes low high before after) (fresh : before.stores = []) :
    ∀ place ∈ after.stores, place < high := by
  obtain ⟨stores, same, inside⟩ := writes.places
  rw [same, fresh, List.append_nil]
  exact fun place member => (inside place member).2

def Holds (chars : Chars) (first : Nat) (text : List (BitVec 8)) : Prop :=
  ∀ index (bound : index < text.length), chars.bytes (first + index) = text[index]

/-- The text stands there with its terminator. -/
structure IsString (chars : Chars) (first : Nat) (text : List (BitVec 8)) : Prop where
  holds : chars.Holds first text
  terminated : chars.bytes (first + text.length) = 0
  nonzero : ∀ char ∈ text, char ≠ 0

theorem Holds.nil (chars : Chars) (first : Nat) : chars.Holds first [] :=
  fun _ bound => absurd bound (Nat.not_lt_zero _)

theorem Holds.append (one : chars.Holds first text)
    (two : chars.Holds (first + text.length) more) : chars.Holds first (text ++ more) := by
  intro index bound
  by_cases early : index < text.length
  · rw [List.getElem_append_left early]
    exact one index early
  · obtain ⟨later, rfl⟩ := Nat.exists_eq_add_of_le (Nat.le_of_not_lt early)
    rw [List.length_append] at bound
    have found := two later (by omega)
    rw [List.getElem_append_right (Nat.le_add_right _ _), ← Nat.add_assoc, found]
    exact getElem_congr_idx (Nat.add_sub_cancel_left _ _).symm

theorem Holds.frame (holds : before.Holds first text) (writes : Writes low high before after)
    (beside : first + text.length ≤ low ∨ high ≤ first) : after.Holds first text := by
  intro index bound
  rw [writes.frame _ (by omega)]
  exact holds index bound

theorem Holds.read (holds : chars.Holds first text) :
    (List.range text.length).map (fun index => chars.bytes (first + index)) = text := by
  apply List.ext_getElem
  · rw [List.length_map, List.length_range]
  · intro index _ bound
    rw [List.getElem_map, List.getElem_range]
    exact holds index bound

theorem IsString.unique (one : chars.IsString first text) (other : chars.IsString first more) :
    text = more := by
  have notLonger : ∀ {short long : List (BitVec 8)}, chars.IsString first short →
      chars.IsString first long → long.length ≤ short.length := by
    intro short long shortString longString
    by_contra longer
    have inside := Nat.lt_of_not_le longer
    refine longString.nonzero _ (List.getElem_mem inside) ?_
    rw [← longString.holds _ inside]
    exact shortString.terminated
  have length : text.length = more.length := Nat.le_antisymm (notLonger other one) (notLonger one other)
  refine List.ext_getElem length fun index bound otherBound => ?_
  rw [← one.holds index bound, ← other.holds index otherBound]

/-- Overwriting the terminator continues the text. -/
theorem IsString.extend (string : chars.IsString first text) (char : BitVec 8) :
    (chars.put (first + text.length) char).Holds first (text ++ [char]) := by
  refine Holds.append ?_ ?_
  · refine string.holds.frame (Writes.put chars char (Nat.le_refl _) (Nat.lt_succ_self _)) ?_
    exact .inl (Nat.le_refl _)
  · intro index bound
    obtain rfl : index = 0 := by simpa using bound
    exact chars.put_bytes_self ..

def putMany (chars : Chars) (place : Nat) : List (BitVec 8) → Chars
  | [] => chars
  | char :: text => putMany (chars.put place char) (place + 1) text

def putString (chars : Chars) (place : Nat) (text : List (BitVec 8)) : Chars :=
  (chars.putMany place text).put (place + text.length) 0

def readString (chars : Chars) (first : Nat) : Nat → List (BitVec 8)
  | 0 => []
  | rounds + 1 =>
      if chars.bytes first = 0 then []
      else chars.bytes first :: readString chars (first + 1) rounds

/-- The part of a text before its first zero. -/
def untilZero : List (BitVec 8) → List (BitVec 8)
  | [] => []
  | char :: text => if char = 0 then [] else char :: untilZero text

theorem untilZero_of_nonzero {text : List (BitVec 8)} (nonzero : ∀ char ∈ text, char ≠ 0) :
    untilZero text = text := by
  induction text with
  | nil => rfl
  | cons char text inductionHypothesis =>
      obtain ⟨first, rest⟩ := List.forall_mem_cons.mp nonzero
      rw [untilZero, if_neg first, inductionHypothesis rest]

theorem putMany_stores (chars : Chars) (place other : Nat) (text : List (BitVec 8)) :
    other ∈ (chars.putMany place text).stores ↔
      (place ≤ other ∧ other < place + text.length) ∨ other ∈ chars.stores := by
  induction text generalizing chars place with
  | nil =>
      refine ⟨.inr, fun either => either.resolve_left fun inside => ?_⟩
      exact absurd inside.2 (Nat.not_lt.mpr inside.1)
  | cons char text inductionHypothesis =>
      rw [putMany, inductionHypothesis, put, List.mem_cons, List.length_cons]
      constructor
      · rintro (inside | rfl | old)
        · exact .inl (by omega)
        · exact .inl (by omega)
        · exact .inr old
      · rintro (inside | old)
        · by_cases first : other = place
          · exact .inr (.inl first)
          · exact .inl (by omega)
        · exact .inr (.inr old)

theorem putString_stores (chars : Chars) (place other : Nat) (text : List (BitVec 8)) :
    other ∈ (chars.putString place text).stores ↔
      (place ≤ other ∧ other ≤ place + text.length) ∨ other ∈ chars.stores := by
  rw [putString, put, List.mem_cons, putMany_stores]
  constructor
  · rintro (rfl | inside | old)
    · exact .inl (by omega)
    · exact .inl (by omega)
    · exact .inr old
  · rintro (inside | old)
    · by_cases last : other = place + text.length
      · exact .inl last
      · exact .inr (.inl (by omega))
    · exact .inr (.inr old)

theorem putMany_frame (chars : Chars) (place : Nat) (text : List (BitVec 8)) {other : Nat}
    (below : other < place) : (chars.putMany place text).bytes other = chars.bytes other := by
  induction text generalizing chars place with
  | nil => rfl
  | cons char text inductionHypothesis =>
      rw [putMany, inductionHypothesis _ _ (Nat.lt_succ_of_lt below)]
      exact chars.put_bytes_ne char (Nat.ne_of_lt below)

theorem putMany_holds (chars : Chars) (place : Nat) (text : List (BitVec 8)) :
    (chars.putMany place text).Holds place text := by
  induction text generalizing chars place with
  | nil => exact .nil _ _
  | cons char text inductionHypothesis =>
      intro index bound
      cases index with
      | zero =>
          rw [Nat.add_zero, putMany, putMany_frame _ _ _ (Nat.lt_succ_self place)]
          exact chars.put_bytes_self ..
      | succ index =>
          have found := inductionHypothesis (chars.put place char) (place + 1) index
            (Nat.lt_of_succ_lt_succ bound)
          rwa [Nat.add_assoc, Nat.add_comm 1 index] at found

theorem readString_of_holds {rounds : Nat} (holds : chars.Holds first text)
    (terminated : chars.bytes (first + text.length) = 0) (enough : text.length < rounds) :
    chars.readString first rounds = untilZero text := by
  induction text generalizing first rounds with
  | nil =>
      cases rounds with
      | zero => rfl
      | succ rounds => exact if_pos terminated
  | cons char text inductionHypothesis =>
      cases rounds with
      | zero => exact absurd enough (Nat.not_lt_zero _)
      | succ rounds =>
          have here : chars.bytes first = char := holds 0 (Nat.succ_pos _)
          have tail : chars.Holds (first + 1) text := by
            intro index bound
            have found : chars.bytes (first + (index + 1)) = text[index] :=
              holds (index + 1) (Nat.succ_lt_succ bound)
            rwa [Nat.add_comm index 1, ← Nat.add_assoc] at found
          have zero : chars.bytes (first + 1 + text.length) = 0 := by
            rw [← terminated, List.length_cons]
            exact congrArg chars.bytes (by omega)
          rw [readString, untilZero, here,
            inductionHypothesis tail zero (Nat.lt_of_succ_lt_succ enough)]

theorem readString_putString (chars : Chars) (place : Nat) (text : List (BitVec 8)) {rounds : Nat}
    (enough : text.length < rounds) :
    (chars.putString place text).readString place rounds = untilZero text := by
  have terminator := Writes.put (chars.putMany place text) 0 (Nat.le_refl (place + text.length))
    (Nat.lt_succ_self _)
  have holds := (chars.putMany_holds place text).frame terminator (.inl (Nat.le_refl _))
  exact readString_of_holds holds (put_bytes_self ..) enough

end Chars

def digitChar (digit : Nat) : BitVec 8 := BitVec.ofNat 8 (48 + digit)

def decimal (n : Nat) : List (BitVec 8) :=
  if n = 0 then [digitChar 0] else (Nat.digits 10 n).reverse.map digitChar

def IsDigit (char : BitVec 8) : Prop := 48 ≤ char.toNat ∧ char.toNat ≤ 57

instance (char : BitVec 8) : Decidable (IsDigit char) := inferInstanceAs (Decidable (_ ∧ _))

def decimalValue (text : List (BitVec 8)) : Nat :=
  text.foldl (fun value char => 10 * value + (char.toNat - 48)) 0

/-- A number in decimal notation, or nothing. -/
def parseDecimal (text : List (BitVec 8)) : Option Nat :=
  if text ≠ [] ∧ ∀ char ∈ text, IsDigit char then some (decimalValue text) else none

structure IsDecimal (text : List (BitVec 8)) (n : Nat) : Prop where
  nonempty : text ≠ []
  digits : ∀ char ∈ text, IsDigit char
  canonical : text.head? = some (digitChar 0) → text = [digitChar 0]
  value : decimalValue text = n

variable {digit n : Nat}

theorem digitChar_toNat (small : digit < 10) : (digitChar digit).toNat = 48 + digit := by
  rw [digitChar, BitVec.toNat_ofNat]
  omega

theorem isDigit_digitChar (small : digit < 10) : IsDigit (digitChar digit) := by
  rw [IsDigit, digitChar_toNat small]
  omega

theorem IsDigit.ne_zero {char : BitVec 8} (digit : IsDigit char) : char ≠ 0 := by
  rintro rfl
  exact absurd digit.1 (by decide)

theorem decimal_of_pos (positive : n ≠ 0) :
    decimal n = (Nat.digits 10 n).reverse.map digitChar := if_neg positive

theorem decimal_isDigit (n : Nat) : ∀ char ∈ decimal n, IsDigit char := by
  intro char member
  unfold decimal at member
  split at member
  · rw [List.mem_singleton.mp member]
    exact isDigit_digitChar (by decide)
  · obtain ⟨digit, inDigits, rfl⟩ := List.mem_map.mp member
    exact isDigit_digitChar (Nat.digits_lt_base (by decide) (List.mem_reverse.mp inDigits))

theorem decimal_ne_nil (n : Nat) : decimal n ≠ [] := by
  unfold decimal
  split
  · exact List.cons_ne_nil _ _
  · rename_i positive
    rw [Ne, List.map_eq_nil_iff, List.reverse_eq_nil_iff]
    exact Nat.digits_ne_nil_iff_ne_zero.mpr positive

theorem decimalValue_reverse_map (digits : List Nat) (small : ∀ digit ∈ digits, digit < 10) :
    decimalValue (digits.reverse.map digitChar) = Nat.ofDigits 10 digits := by
  induction digits with
  | nil => rfl
  | cons digit digits inductionHypothesis =>
      have tail := inductionHypothesis fun other member => small other (.tail _ member)
      rw [decimalValue] at tail ⊢
      rw [List.reverse_cons, List.map_append, List.foldl_append, tail, Nat.ofDigits_cons]
      simp only [List.map_cons, List.map_nil, List.foldl_cons, List.foldl_nil,
        digitChar_toNat (small digit List.mem_cons_self), Nat.add_sub_cancel_left]
      exact Nat.add_comm _ _

theorem decimalValue_decimal (n : Nat) : decimalValue (decimal n) = n := by
  by_cases zero : n = 0
  · subst zero
    rfl
  · rw [decimal_of_pos zero, decimalValue_reverse_map _ fun digit member =>
      Nat.digits_lt_base (by decide) member]
    exact Nat.ofDigits_digits 10 n

/-- The first digit is a zero in the notation of zero only. -/
theorem decimal_canonical (n : Nat) (zero : (decimal n).head? = some (digitChar 0)) :
    decimal n = [digitChar 0] := by
  by_cases positive : n = 0
  · subst positive
    rfl
  · have nonempty : Nat.digits 10 n ≠ [] := Nat.digits_ne_nil_iff_ne_zero.mpr positive
    have last := Nat.getLast_digit_ne_zero 10 positive
    have small := Nat.digits_lt_base (by decide) (List.getLast_mem nonempty)
    rw [decimal_of_pos positive, List.head?_map, List.head?_reverse,
      List.getLast?_eq_getLast_of_ne_nil nonempty, Option.map_some, Option.some.injEq] at zero
    have values := congrArg BitVec.toNat zero
    rw [digitChar_toNat small, digitChar_toNat (by decide)] at values
    omega

theorem isDecimal_decimal (n : Nat) : IsDecimal (decimal n) n :=
  ⟨decimal_ne_nil n, decimal_isDigit n, decimal_canonical n, decimalValue_decimal n⟩

theorem parseDecimal_decimal (n : Nat) : parseDecimal (decimal n) = some n := by
  rw [parseDecimal, if_pos ⟨decimal_ne_nil n, decimal_isDigit n⟩, decimalValue_decimal]

theorem decimal_injective : Function.Injective decimal := by
  intro first second same
  rw [← decimalValue_decimal first, same, decimalValue_decimal]

theorem decimal_nonzero (n : Nat) : ∀ char ∈ decimal n, char ≠ 0 :=
  fun char member => (decimal_isDigit n char member).ne_zero

theorem decimal_length_pos (n : Nat) : 0 < (decimal n).length :=
  List.length_pos_iff.mpr (decimal_ne_nil n)

theorem decimal_length_le {count : Nat} (positive : 0 < count) (small : n < 10 ^ count) :
    (decimal n).length ≤ count := by
  by_cases zero : n = 0
  · subst zero
    exact positive
  · rw [decimal_of_pos zero, List.length_map, List.length_reverse]
    exact (Nat.digits_length_le_iff (by decide) n).mpr small

end Library
