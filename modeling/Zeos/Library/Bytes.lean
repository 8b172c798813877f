import Mathlib.Data.List.Basic

/-!
# Bytes in files and in memory

Numbers of several bytes, low byte first; overwriting part of a file; storing a block in
memory.
-/

namespace Library

namespace Bytes

def value : List (BitVec 8) → Nat
  | [] => 0
  | byte :: bytes => byte.toNat + 256 * value bytes

variable {file bytes : List (BitVec 8)} {position index : Nat}

/-- Seek and write: the file grows, over a gap of zeros if need be. -/
def patch (file : List (BitVec 8)) (position : Nat) (bytes : List (BitVec 8)) :
    List (BitVec 8) :=
  file.take position ++ (List.replicate (position - file.length) 0 ++
    (bytes ++ file.drop (position + bytes.length)))

theorem patch_eq (inside : position ≤ file.length) :
    patch file position bytes =
      file.take position ++ (bytes ++ file.drop (position + bytes.length)) := by
  rw [patch, Nat.sub_eq_zero_of_le inside]
  rfl

theorem patch_length (inside : position + bytes.length ≤ file.length) :
    (patch file position bytes).length = file.length := by
  rw [patch_eq (by omega)]
  simp only [List.length_append, List.length_take, List.length_drop]
  omega

theorem patch_here (inside : position ≤ file.length) (bound : index < bytes.length) :
    (patch file position bytes)[position + index]? = bytes[index]? := by
  have before : (file.take position).length = position := List.length_take_of_le inside
  rw [patch_eq inside, List.getElem?_append_right (by omega), before, Nat.add_sub_cancel_left,
    List.getElem?_append_left bound]

theorem patch_before (inside : position ≤ file.length) (before : index < position) :
    (patch file position bytes)[index]? = file[index]? := by
  have taken : (file.take position).length = position := List.length_take_of_le inside
  rw [patch_eq inside, List.getElem?_append_left (by omega), List.getElem?_take_of_lt before]

theorem patch_after (inside : position ≤ file.length) (after : position + bytes.length ≤ index) :
    (patch file position bytes)[index]? = file[index]? := by
  have taken : (file.take position).length = position := List.length_take_of_le inside
  rw [patch_eq inside, List.getElem?_append_right (by omega),
    List.getElem?_append_right (by omega), List.getElem?_drop, taken]
  congr 1
  omega

theorem slice_eq (same : ∀ index < bytes.length, file[position + index]? = bytes[index]?) :
    (file.drop position).take bytes.length = bytes := by
  apply List.ext_getElem?
  intro index
  by_cases bound : index < bytes.length
  · rw [List.getElem?_take_of_lt bound, List.getElem?_drop, same index bound]
  · have after := Nat.le_of_not_lt bound
    rw [List.getElem?_eq_none after, List.getElem?_eq_none]
    exact Nat.le_trans (List.length_take_le ..) after

section

variable {Byte : Type} {memory data : Nat → Byte} {start first second address : Nat}

def block (memory : Nat → Byte) (start count : Nat) (data : Nat → Byte) : Nat → Byte :=
  fun address => if start ≤ address ∧ address < start + count then data (address - start)
    else memory address

theorem block_inside (low : start ≤ address) (high : address < start + first) :
    block memory start first data address = data (address - start) := if_pos ⟨low, high⟩

theorem block_outside (outside : address < start ∨ start + first ≤ address) :
    block memory start first data address = memory address := by
  apply if_neg
  omega

theorem block_zero (memory : Nat → Byte) (start : Nat) (data : Nat → Byte) :
    block memory start 0 data = memory := by
  funext address
  apply block_outside
  omega

theorem block_append (memory data : Nat → Byte) (start first second : Nat) :
    block (block memory start first data) (start + first) second
        (fun index => data (first + index)) =
      block memory start (first + second) data := by
  funext address
  by_cases inSecond : start + first ≤ address ∧ address < start + first + second
  · rw [block_inside inSecond.1 inSecond.2, block_inside (by omega) (by omega)]
    congr 1
    omega
  · rw [block_outside (by omega)]
    by_cases inFirst : start ≤ address ∧ address < start + first
    · rw [block_inside inFirst.1 inFirst.2, block_inside inFirst.1 (by omega)]
    · rw [block_outside (by omega), block_outside (by omega)]

end

end Bytes

end Library
