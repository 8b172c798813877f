import Zeos.Library.Text

/-!
# `libc.c`: `itoa` and `strlen`

`itoa` stores the digits of a positive number from the last one on and then turns them
around in place. A negative number leaves its first loop at once and becomes the empty
string.
-/

namespace Zeos

open Library

/-- `while (a>0)` of `itoa`; returns `i`. -/
def digitLoop (b : Nat) (a : Int) (i : Nat) (chars : Chars) : Nat × Chars :=
  if 0 < a then
    digitLoop b (a.tdiv 10) (i + 1) (chars.put (b + i) (BitVec.ofInt 8 (a.tmod 10 + 48)))
  else (i, chars)
termination_by a.toNat
decreasing_by
  rw [Int.tdiv_eq_ediv_of_nonneg (by omega)]
  omega

/-- `for (i1=0; i1<i/2; i1++)` of `itoa`, up to `i1`. -/
def swapLoop (b i : Nat) : Nat → Chars → Chars
  | 0, chars => chars
  | i1 + 1, chars =>
      let chars := swapLoop b i i1 chars
      let c := chars.bytes (b + i1)
      let chars := chars.put (b + i1) (chars.bytes (b + (i - i1 - 1)))
      chars.put (b + (i - i1 - 1)) c

def itoa (a : Int) (b : Nat) (chars : Chars) : Chars :=
  if a = 0 then (chars.put b (digitChar 0)).put (b + 1) 0
  else
    let (i, chars) := digitLoop b a 0 chars
    let chars := swapLoop b i (i / 2) chars
    chars.put (b + i) 0

/-- `while (a[i]!=0) i++;` of `strlen`, for so many rounds. -/
def strlenLoop (chars : Chars) (a : Nat) : Nat → Nat → Option Nat
  | 0, _ => none
  | rounds + 1, i =>
      if chars.bytes (a + i) ≠ 0 then strlenLoop chars a rounds (i + 1) else some i

def strlen (rounds : Nat) (a : Nat) (chars : Chars) : Option Nat := strlenLoop chars a rounds 0

variable {a b i i1 n first : Nat} {chars before after : Chars} {text : List (BitVec 8)}

theorem strlenLoop_of_holds (rest : List (BitVec 8)) {rounds : Nat}
    (holds : chars.Holds (a + i) rest) (terminated : chars.bytes (a + i + rest.length) = 0)
    (nonzero : ∀ char ∈ rest, char ≠ 0) (enough : rest.length < rounds) :
    strlenLoop chars a rounds i = some (i + rest.length) := by
  induction rest generalizing i rounds with
  | nil =>
      cases rounds with
      | zero => exact absurd enough (Nat.not_lt_zero _)
      | succ rounds => exact if_neg fun unequal => unequal terminated
  | cons char rest inductionHypothesis =>
      cases rounds with
      | zero => exact absurd enough (Nat.not_lt_zero _)
      | succ rounds =>
          have here : chars.bytes (a + i) = char := holds 0 (Nat.succ_pos _)
          have goesOn : chars.bytes (a + i) ≠ 0 := by
            rw [here]
            exact nonzero char List.mem_cons_self
          have tail : chars.Holds (a + (i + 1)) rest := by
            intro index bound
            have found := holds (index + 1) (Nat.succ_lt_succ bound)
            rwa [← Nat.add_assoc, Nat.add_assoc (a + i), Nat.add_comm 1 index]
          have zero : chars.bytes (a + (i + 1) + rest.length) = 0 := by
            rw [← terminated, List.length_cons]
            exact congrArg chars.bytes (by omega)
          rw [strlenLoop, if_pos goesOn, inductionHypothesis tail zero
            (fun other member => nonzero other (.tail _ member)) (Nat.lt_of_succ_lt_succ enough)]
          exact congrArg some (by rw [List.length_cons]; omega)

theorem strlen_of_isString (string : chars.IsString a text) {rounds : Nat}
    (enough : text.length < rounds) : strlen rounds a chars = some text.length := by
  have whole := strlenLoop_of_holds text (i := 0) string.holds string.terminated string.nonzero
    enough
  rwa [Nat.zero_add] at whole

theorem digitLoop_succ (b : Nat) {n : Nat} (positive : 0 < n) (i : Nat) (chars : Chars) :
    digitLoop b n i chars =
      digitLoop b (n / 10 : Nat) (i + 1) (chars.put (b + i) (digitChar (n % 10))) := by
  have char : BitVec.ofInt 8 ((n : Int).tmod 10 + 48) = digitChar (n % 10) := by
    rw [Int.tmod_eq_emod_of_nonneg (Int.natCast_nonneg n), digitChar, ← BitVec.ofInt_natCast]
    exact congrArg (BitVec.ofInt 8) (by omega)
  have rest : (n : Int).tdiv 10 = (n / 10 : Nat) := Int.tdiv_eq_ediv_of_nonneg (by omega)
  rw [digitLoop, if_pos (Int.natCast_pos.mpr positive), char, rest]

theorem digitLoop_of_nonpos (b : Nat) {a : Int} (nonpos : a ≤ 0) (i : Nat) (chars : Chars) :
    digitLoop b a i chars = (i, chars) := by
  rw [digitLoop, if_neg (Int.not_lt.mpr nonpos)]

theorem digitLoop_spec (b n i : Nat) (chars : Chars) :
    (digitLoop b n i chars).1 = i + (Nat.digits 10 n).length ∧
      (digitLoop b n i chars).2.Holds (b + i) ((Nat.digits 10 n).map digitChar) ∧
      chars.Writes (b + i) (b + i + (Nat.digits 10 n).length) (digitLoop b n i chars).2 := by
  induction n using Nat.strong_induction_on generalizing i chars with
  | _ n inductionHypothesis =>
      rcases Nat.eq_zero_or_pos n with rfl | positive
      · have done : digitLoop b (0 : Nat) i chars = (i, chars) :=
          digitLoop_of_nonpos b (Int.le_refl 0) i chars
        rw [done, Nat.digits_zero]
        exact ⟨rfl, .nil _ _, .refl _ _ _⟩
      · obtain ⟨count, holds, writes⟩ := inductionHypothesis (n / 10) (by omega) (i + 1)
          (chars.put (b + i) (digitChar (n % 10)))
        rw [digitLoop_succ b positive, Nat.digits_def' (by decide) positive, List.map_cons,
          List.length_cons]
        generalize digitLoop b (n / 10 : Nat) (i + 1) _ = result at *
        have put := Chars.Writes.put chars (digitChar (n % 10)) (Nat.le_refl (b + i))
          (Nat.lt_add_of_pos_right (Nat.succ_pos (Nat.digits 10 (n / 10)).length))
        refine ⟨by omega, ?_, put.trans (writes.mono (by omega) (by omega))⟩
        intro index bound
        cases index with
        | zero =>
            rw [Nat.add_zero, writes.frame _ (.inl (by omega))]
            exact chars.put_bytes_self ..
        | succ index =>
            have found := holds index (Nat.lt_of_succ_lt_succ bound)
            rw [List.getElem_cons_succ, ← found]
            exact congrArg result.2.bytes (by omega)

def swapped (i i1 j : Nat) : Nat := if j < i1 ∨ i - i1 ≤ j then i - j - 1 else j

theorem swapLoop_spec (b : Nat) (chars : Chars) (half : i1 ≤ i / 2) :
    (∀ j < i, (swapLoop b i i1 chars).bytes (b + j) = chars.bytes (b + swapped i i1 j)) ∧
      chars.Writes b (b + i) (swapLoop b i i1 chars) := by
  induction i1 with
  | zero =>
      refine ⟨fun j bound => ?_, .refl _ _ _⟩
      rw [swapped, if_neg (by omega)]
      rfl
  | succ i1 inductionHypothesis =>
      obtain ⟨moved, writes⟩ := inductionHypothesis (by omega)
      have low := moved i1 (by omega)
      have high := moved (i - i1 - 1) (by omega)
      rw [swapped, if_neg (by omega)] at low high
      constructor
      · intro j bound
        simp only [swapLoop]
        by_cases isHigh : j = i - i1 - 1
        · rw [isHigh, Chars.put_bytes_self, low, swapped, if_pos (by omega)]
          exact congrArg chars.bytes (by omega)
        · rw [Chars.put_bytes_ne _ _ (by omega)]
          by_cases isLow : j = i1
          · rw [isLow, Chars.put_bytes_self, high, swapped, if_pos (by omega)]
          · rw [Chars.put_bytes_ne _ _ (by omega), moved j bound]
            have same : swapped i i1 j = swapped i (i1 + 1) j := by
              unfold swapped
              by_cases outer : j < i1 ∨ i - i1 ≤ j
              · rw [if_pos outer, if_pos (by omega)]
              · rw [if_neg outer, if_neg (by omega)]
            rw [same]
      · simp only [swapLoop]
        generalize swapLoop b i i1 chars = turned at *
        have lower := Chars.Writes.put turned (turned.bytes (b + (i - i1 - 1)))
          (Nat.le_add_right b i1) (show b + i1 < b + i by omega)
        refine writes.trans (lower.trans (.put _ _ (Nat.le_add_right _ _) ?_))
        omega

theorem swapLoop_reverse (holds : chars.Holds b text) :
    (swapLoop b text.length (text.length / 2) chars).Holds b text.reverse := by
  intro index bound
  rw [List.length_reverse] at bound
  have source : swapped text.length (text.length / 2) index = text.length - 1 - index := by
    unfold swapped
    split
    · omega
    · omega
  rw [(swapLoop_spec b chars (Nat.le_refl _)).1 index bound, source, List.getElem_reverse]
  exact holds _ (by omega)

theorem itoa_nat (n b : Nat) (chars : Chars) :
    (itoa n b chars).IsString b (decimal n) ∧
      chars.Writes b (b + (decimal n).length + 1) (itoa n b chars) := by
  rcases Nat.eq_zero_or_pos n with rfl | positive
  · have zero : itoa (0 : Nat) b chars = (chars.put b (digitChar 0)).put (b + 1) 0 := if_pos rfl
    have first : chars.Writes b (b + 1 + 1) (chars.put b (digitChar 0)) :=
      .put _ _ (Nat.le_refl _) (by omega)
    rw [zero]
    refine ⟨⟨?_, Chars.put_bytes_self .., decimal_nonzero 0⟩,
      first.trans (.put _ _ (Nat.le_succ b) (Nat.lt_succ_self (b + 1)))⟩
    intro index bound
    obtain rfl : index = 0 := Nat.lt_one_iff.mp bound
    rw [Chars.put_bytes_ne _ _ (by omega)]
    exact Chars.put_bytes_self ..
  · obtain ⟨count, holds, digits⟩ := digitLoop_spec b n 0 chars
    rw [itoa, if_neg (Int.natCast_ne_zero.mpr (Nat.ne_of_gt positive))]
    generalize digitLoop b n 0 chars = result at *
    obtain ⟨i, stored⟩ := result
    have notation_eq := decimal_of_pos (Nat.ne_of_gt positive)
    have length : (decimal n).length = i := by
      rw [notation_eq, List.length_map, List.length_reverse]
      omega
    have textLength : ((Nat.digits 10 n).map digitChar).length = i := by
      rw [List.length_map]
      omega
    have turned := swapLoop_reverse holds
    have swaps := (swapLoop_spec b stored (Nat.le_refl (i / 2))).2
    rw [textLength, Nat.add_zero, ← List.map_reverse, ← notation_eq] at turned
    have last := Chars.Writes.put (swapLoop b i (i / 2) stored) 0 (Nat.le_refl (b + i))
      (Nat.lt_succ_self _)
    refine ⟨⟨turned.frame last (.inl (by omega)), ?_, decimal_nonzero n⟩, ?_⟩
    · rw [length]
      exact Chars.put_bytes_self ..
    · rw [length]
      refine (digits.mono (by omega) (by omega)).trans (.trans (swaps.mono (by omega) (by omega)) ?_)
      exact last.mono (by omega) (Nat.le_refl _)

theorem itoa_negative {a : Int} (negative : a < 0) (b : Nat) (chars : Chars) :
    (itoa a b chars).IsString b [] ∧ chars.Writes b (b + 1) (itoa a b chars) := by
  rw [itoa, if_neg (Int.ne_of_lt negative), digitLoop_of_nonpos b (Int.le_of_lt negative)]
  refine ⟨⟨.nil _ _, Chars.put_bytes_self .., fun _ member => absurd member List.not_mem_nil⟩, ?_⟩
  exact .put _ _ (Nat.le_refl _) (Nat.lt_succ_self _)

/-- On the non-negative range `itoa` is decimal notation, within eleven bytes; `strlen`
gives the number of digits, and no other number of the range leaves the same string. -/
theorem itoa_decimal {a : Int} (nonneg : 0 ≤ a) (int : a ≤ 2147483647) (b : Nat)
    (chars : Chars) : ∃ text, IsDecimal text a.toNat ∧ (itoa a b chars).IsString b text ∧
      chars.Writes b (b + 11) (itoa a b chars) ∧
      (∀ rounds, text.length < rounds → strlen rounds b (itoa a b chars) = some text.length) ∧
      ∀ other : Int, 0 ≤ other → other ≤ 2147483647 → ∀ old,
        (itoa other b old).IsString b text → other = a := by
  obtain ⟨n, rfl⟩ := Int.eq_ofNat_of_zero_le nonneg
  obtain ⟨string, writes⟩ := itoa_nat n b chars
  have digits : (decimal n).length ≤ 10 := decimal_length_le (by decide) (by omega)
  refine ⟨decimal n, isDecimal_decimal n, string, writes.mono (Nat.le_refl b) (by omega),
    fun rounds enough => strlen_of_isString string enough, ?_⟩
  intro other otherNonneg _ old found
  obtain ⟨m, rfl⟩ := Int.eq_ofNat_of_zero_le otherNonneg
  rw [decimal_injective (found.unique (itoa_nat m b old).1)]

/-- The largest number. -/
theorem itoa_decimal_largest : ∃ text, IsDecimal text (2147483647 : Int).toNat ∧
    (itoa 2147483647 0 ⟨fun _ => 0, []⟩).IsString 0 text ∧
    Chars.Writes 0 (0 + 11) ⟨fun _ => 0, []⟩ (itoa 2147483647 0 ⟨fun _ => 0, []⟩) ∧
    (∀ rounds, text.length < rounds →
      strlen rounds 0 (itoa 2147483647 0 ⟨fun _ => 0, []⟩) = some text.length) ∧
    ∀ other : Int, 0 ≤ other → other ≤ 2147483647 → ∀ old,
      (itoa other 0 old).IsString 0 text → other = 2147483647 :=
  itoa_decimal (by decide) (by decide) 0 ⟨fun _ => 0, []⟩

end Zeos
