/-
**Byte-addressed memory.**

A memory is a total map from byte addresses to bytes. A 32-bit word is stored least significant byte
first. The laws are the usual ones: a word read back after a store at the same address is the stored
value modulo `2 ^ 32` (`load32_store32`), a store leaves every byte outside its footprint alone
(`store32_eqOn`, `store8_eqOn`, `fill_eqOn`, `writeBytes_eqOn`), and a word read depends only on its
own four bytes (`load32_congr`).

Frames are stated with `Set.EqOn` over address sets, so that they compose by `Set.EqOn.trans` and
weaken by `Set.EqOn.mono`.
-/

import Mathlib.Data.Set.Function
import Mathlib.Order.Interval.Set.Basic
import Mathlib.Tactic

namespace Kfs

/-- A memory: one byte per address. -/
abbrev Memory := Nat → UInt8

namespace Memory

/-- The 32-bit little-endian word at `a`. -/
def load32 (m : Memory) (a : Nat) : Nat :=
  (m a).toNat + 2 ^ 8 * (m (a + 1)).toNat + 2 ^ 16 * (m (a + 2)).toNat + 2 ^ 24 * (m (a + 3)).toNat

/-- Write one byte. -/
def store8 (m : Memory) (a : Nat) (v : UInt8) : Memory :=
  fun x => if x = a then v else m x

/-- Write the low 32 bits of `v` at `a`, little-endian. -/
def store32 (m : Memory) (a v : Nat) : Memory :=
  fun x =>
    if x = a then UInt8.ofNat v
    else if x = a + 1 then UInt8.ofNat (v / 2 ^ 8)
    else if x = a + 2 then UInt8.ofNat (v / 2 ^ 16)
    else if x = a + 3 then UInt8.ofNat (v / 2 ^ 24)
    else m x

/-- Write the bytes `f 0 … f (n - 1)` at `a`. -/
def writeBytes (m : Memory) (a n : Nat) (f : Nat → UInt8) : Memory :=
  fun x => if a ≤ x ∧ x < a + n then f (x - a) else m x

/-- `memset`: `n` copies of one byte at `a`. -/
def fill (m : Memory) (a : Nat) (v : UInt8) (n : Nat) : Memory :=
  m.writeBytes a n fun _ => v

/-- `memcpy` between two ranges. -/
def copy (m : Memory) (dst src n : Nat) : Memory :=
  m.writeBytes dst n fun i => m (src + i)

/-- Byte `i` of the little-endian words `f 0, f 1, …`. -/
def wordByte (f : Nat → Nat) (i : Nat) : UInt8 :=
  UInt8.ofNat (f (i / 4) / 2 ^ (8 * (i % 4)))

/-- Write the words `f 0 … f (n - 1)` at `a`. -/
def writeWords (m : Memory) (a n : Nat) (f : Nat → Nat) : Memory :=
  m.writeBytes a (4 * n) (wordByte f)

/-! ### Frames -/

theorem store8_eqOn (m : Memory) (a : Nat) (v : UInt8) :
    Set.EqOn (m.store8 a v) m {x | x ≠ a} :=
  fun _ other => if_neg other

theorem store32_eqOn (m : Memory) (a v : Nat) :
    Set.EqOn (m.store32 a v) m {x | x < a ∨ a + 4 ≤ x} := by
  intro x outside
  simp only [Set.mem_ofPred_eq] at outside
  simp only [store32]
  split_ifs <;> first | rfl | omega

theorem writeBytes_eqOn (m : Memory) (a n : Nat) (f : Nat → UInt8) :
    Set.EqOn (m.writeBytes a n f) m {x | x < a ∨ a + n ≤ x} := by
  intro x outside
  simp only [Set.mem_ofPred_eq] at outside
  exact if_neg (by omega)

theorem writeBytes_inside (m : Memory) (a n : Nat) (f : Nat → UInt8) {i : Nat} (inside : i < n) :
    m.writeBytes a n f (a + i) = f i := by
  simp only [writeBytes]
  rw [if_pos ⟨by omega, by omega⟩, Nat.add_sub_cancel_left]

theorem fill_eqOn (m : Memory) (a : Nat) (v : UInt8) (n : Nat) :
    Set.EqOn (m.fill a v n) m {x | x < a ∨ a + n ≤ x} :=
  writeBytes_eqOn m a n _

theorem copy_eqOn (m : Memory) (dst src n : Nat) :
    Set.EqOn (m.copy dst src n) m {x | x < dst ∨ dst + n ≤ x} :=
  writeBytes_eqOn m dst n _

theorem writeWords_eqOn (m : Memory) (a n : Nat) (f : Nat → Nat) :
    Set.EqOn (m.writeWords a n f) m {x | x < a ∨ a + 4 * n ≤ x} :=
  writeBytes_eqOn m a _ _

/-! ### Words -/

theorem load32_lt (m : Memory) (a : Nat) : m.load32 a < 2 ^ 32 := by
  have b0 := (m a).toNat_lt
  have b1 := (m (a + 1)).toNat_lt
  have b2 := (m (a + 2)).toNat_lt
  have b3 := (m (a + 3)).toNat_lt
  simp only [load32]
  omega

/-- A word depends only on its four bytes. -/
theorem load32_congr {m m' : Memory} {a : Nat} (same : Set.EqOn m' m (Set.Ico a (a + 4))) :
    m'.load32 a = m.load32 a := by
  have b0 := same (x := a) (by simp)
  have b1 := same (x := a + 1) (by simp)
  have b2 := same (x := a + 2) (by simp)
  have b3 := same (x := a + 3) (by simp)
  simp only [load32, b0, b1, b2, b3]

/-- **A stored word is read back**, modulo `2 ^ 32`. -/
theorem load32_store32 (m : Memory) (a v : Nat) : (m.store32 a v).load32 a = v % 2 ^ 32 := by
  simp only [load32, store32, if_true, show a + 1 ≠ a by omega, show a + 2 ≠ a by omega,
    show a + 3 ≠ a by omega, show a + 2 ≠ a + 1 by omega, show a + 3 ≠ a + 1 by omega,
    show a + 3 ≠ a + 2 by omega, if_false, UInt8.toNat_ofNat']
  omega

/-- Only the low 32 bits of a stored value matter. -/
theorem store32_add_two_pow (m : Memory) (a v : Nat) : m.store32 a (v + 2 ^ 32) = m.store32 a v := by
  have byte : ∀ k < 4, UInt8.ofNat ((v + 2 ^ 32) / 2 ^ (8 * k)) = UInt8.ofNat (v / 2 ^ (8 * k)) := by
    intro k small
    apply UInt8.toNat_inj.mp
    rw [UInt8.toNat_ofNat', UInt8.toNat_ofNat']
    interval_cases k <;> omega
  have b0 := byte 0 (by omega)
  have b1 := byte 1 (by omega)
  have b2 := byte 2 (by omega)
  have b3 := byte 3 (by omega)
  simp only [Nat.mul_zero, pow_zero, Nat.div_one, Nat.mul_one] at b0 b1
  funext x
  simp only [store32, b0, b1]
  rw [b2, b3]

theorem load32_store32_of_disjoint (m : Memory) {a b : Nat} (v : Nat)
    (apart : a + 4 ≤ b ∨ b + 4 ≤ a) : (m.store32 a v).load32 b = m.load32 b :=
  load32_congr ((store32_eqOn m a v).mono fun x inside => by
    simp only [Set.mem_Ico, Set.mem_ofPred_eq] at *
    omega)

theorem load32_store8_of_disjoint (m : Memory) {a b : Nat} (v : UInt8)
    (apart : a < b ∨ b + 4 ≤ a) : (m.store8 a v).load32 b = m.load32 b :=
  load32_congr ((store8_eqOn m a v).mono fun x inside => by
    simp only [Set.mem_Ico, Set.mem_ofPred_eq] at *
    omega)

theorem store32_of_disjoint (m : Memory) {a b : Nat} (v : Nat) (apart : b < a ∨ a + 4 ≤ b) :
    m.store32 a v b = m b :=
  store32_eqOn m a v apart

@[simp] theorem store8_self (m : Memory) (a : Nat) (v : UInt8) : m.store8 a v a = v :=
  if_pos rfl

theorem store8_of_ne (m : Memory) {a b : Nat} (v : UInt8) (other : b ≠ a) : m.store8 a v b = m b :=
  if_neg other

/-- The words of an array write. -/
theorem load32_writeWords (m : Memory) (a n : Nat) (f : Nat → Nat) {i : Nat} (inside : i < n) :
    (m.writeWords a n f).load32 (a + 4 * i) = f i % 2 ^ 32 := by
  have byte : ∀ k < 4, m.writeWords a n f (a + 4 * i + k) = UInt8.ofNat (f i / 2 ^ (8 * k)) := by
    intro k small
    rw [writeWords, Nat.add_assoc, writeBytes_inside _ _ _ _ (by omega), wordByte,
      show (4 * i + k) / 4 = i by omega, show (4 * i + k) % 4 = k by omega]
  have b0 := byte 0 (by omega)
  have b1 := byte 1 (by omega)
  have b2 := byte 2 (by omega)
  have b3 := byte 3 (by omega)
  simp only [Nat.add_zero, Nat.mul_zero, pow_zero, Nat.div_one, Nat.mul_one] at b0 b1
  simp only [load32, b0, b1, b2, b3, UInt8.toNat_ofNat']
  omega

/-- Every word of a zeroed range is zero. -/
theorem load32_fill_zero (m : Memory) {a n b : Nat} (low : a ≤ b) (high : b + 4 ≤ a + n) :
    (m.fill a 0 n).load32 b = 0 := by
  have byte : ∀ k < 4, m.fill a 0 n (b + k) = 0 := fun k small =>
    if_pos ⟨by omega, by omega⟩
  have b0 := byte 0 (by omega)
  have b1 := byte 1 (by omega)
  have b2 := byte 2 (by omega)
  have b3 := byte 3 (by omega)
  rw [Nat.add_zero] at b0
  simp [load32, b0, b1, b2, b3]

end Memory

end Kfs
