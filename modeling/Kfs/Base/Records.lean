/-
**Records packed into blocks.**

Records of `size` bytes, `per` of them to a block: record `i` starts at byte `i % per * size` of block
`i / per`. Each lies inside its block (`recordStart_add_le`), two of them have no byte in common
(`records_apart`), and `count` of them take `blocksFor per count` blocks (`recordBlock_lt`).
-/

import Mathlib.Tactic

namespace Kfs

/-- The block of a record. -/
def recordBlock (per i : Nat) : Nat := i / per

/-- The first byte of a record in its block. -/
def recordStart (per size i : Nat) : Nat := i % per * size

/-- The blocks that `count` records take. -/
def blocksFor (per count : Nat) : Nat := (count + per - 1) / per

section Records

variable {per size block i j x count : Nat}

theorem row_of_lt (inside : x < per) : (i * per + x) / per = i := by
  have positive : 0 < per := by omega
  rw [Nat.mul_comm, Nat.mul_add_div positive, Nat.div_eq_of_lt inside, Nat.add_zero]

theorem column_of_lt (inside : x < per) : (i * per + x) % per = x := by
  rw [Nat.mul_comm, Nat.mul_add_mod, Nat.mod_eq_of_lt inside]

theorem recordStart_add_le (some : 0 < per) (fits : per * size ≤ block) :
    recordStart per size i + size ≤ block := by
  have small : i % per + 1 ≤ per := Nat.mod_lt i some
  calc recordStart per size i + size = (i % per + 1) * size := by rw [recordStart, Nat.succ_mul]
    _ ≤ per * size := Nat.mul_le_mul_right size small
    _ ≤ block := fits

/-- **Two records share no byte.** -/
theorem records_apart (other : i ≠ j) : recordBlock per i ≠ recordBlock per j ∨
    recordStart per size i + size ≤ recordStart per size j ∨
    recordStart per size j + size ≤ recordStart per size i := by
  by_cases block : recordBlock per i = recordBlock per j
  · refine .inr ?_
    have column : i % per ≠ j % per := by
      intro same
      refine other ?_
      rw [← Nat.div_add_mod i per, ← Nat.div_add_mod j per, same]
      exact congrArg (fun row => per * row + j % per) block
    unfold recordStart
    rcases Nat.lt_or_gt_of_ne column with before | after
    · left
      calc i % per * size + size = (i % per + 1) * size := (Nat.succ_mul _ _).symm
        _ ≤ j % per * size := Nat.mul_le_mul_right size before
    · right
      calc j % per * size + size = (j % per + 1) * size := (Nat.succ_mul _ _).symm
        _ ≤ i % per * size := Nat.mul_le_mul_right size after
  · exact .inl block

theorem recordBlock_lt (some : 0 < per) (inside : i < count) : recordBlock per i < blocksFor per count := by
  unfold recordBlock blocksFor
  calc i / per < i / per + 1 := Nat.lt_succ_self _
    _ = (i + per) / per := (Nat.add_div_right i some).symm
    _ ≤ (count + per - 1) / per := Nat.div_le_div_right (by omega)

end Records

end Kfs
