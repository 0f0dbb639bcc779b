/-
**Numerals.**

A number in a base, as letters with the most significant digit first. `readDigits` evaluates letters from the
left. Where the letters stand for the digits below the base (`Letters`), the numeral of a number reads back
as the number, it has no leading zero, and no other row of letters with that value is shorter.
-/

import Mathlib.Data.Nat.Digits.Lemmas

namespace Kfs

variable {α : Type}

/-- The numeral of a number. -/
def numeral (digit : Nat → α) (base n : Nat) : List α :=
  if n = 0 then [digit 0] else ((Nat.digits base n).map digit).reverse

/-- Go on reading digits, with the value so far. -/
def readDigits (value : α → Option Nat) (base : Nat) : (acc : Nat) → List α → Option Nat
  | acc, [] => some acc
  | acc, c :: rest => (value c).bind fun d => readDigits value base (acc * base + d) rest

/-- The value of a numeral: one digit or more. -/
def readNumeral (value : α → Option Nat) (base : Nat) : List α → Option Nat
  | [] => none
  | c :: rest => readDigits value base 0 (c :: rest)

/-- The letters stand for the digits below the base. -/
structure Letters (digit : Nat → α) (value : α → Option Nat) (base : Nat) : Prop where
  wide : 1 < base
  reads : ∀ d < base, value (digit d) = some d
  small : ∀ c d, value c = some d → d < base

section Numerals

variable {digit : Nat → α} {value : α → Option Nat} {base acc n : Nat} {chars : List α} {c : α}

theorem readNumeral_of_ne_nil (filled : chars ≠ []) :
    readNumeral value base chars = readDigits value base 0 chars := by
  cases chars with
  | nil => exact absurd rfl filled
  | cons c rest => rfl

theorem readDigits_concat : readDigits value base acc (chars ++ [c]) =
    (readDigits value base acc chars).bind fun v => (value c).map (v * base + ·) := by
  induction chars generalizing acc with
  | nil =>
      show ((value c).bind fun d => some (acc * base + d)) = _
      cases value c with
      | none => rfl
      | some d => rfl
  | cons e rest ih =>
      rw [List.cons_append, readDigits, readDigits]
      cases value e with
      | none => rfl
      | some d => exact ih

/-- **The digits of a number are read back**, the last one first in the list. -/
theorem readDigits_ofDigits (letters : Letters digit value base) (ds : List Nat) (small : ∀ d ∈ ds, d < base) :
    readDigits value base 0 (ds.map digit).reverse = some (Nat.ofDigits base ds) := by
  induction ds with
  | nil => rfl
  | cons d ds ih =>
      rw [List.map_cons, List.reverse_cons, readDigits_concat,
        ih fun e member => small e (List.mem_cons_of_mem _ member), Option.bind_some,
        letters.reads d (small d List.mem_cons_self), Option.map_some, Nat.ofDigits_cons, Nat.mul_comm,
        Nat.add_comm]

/-- Rows of `k` digits have values below `base ^ k`. -/
theorem readDigits_lt (letters : Letters digit value base) {v : Nat}
    (read : readDigits value base acc chars = some v) : v < (acc + 1) * base ^ chars.length := by
  induction chars generalizing acc with
  | nil =>
      cases read
      rw [List.length_nil, pow_zero, mul_one]
      exact Nat.lt_succ_self _
  | cons c rest ih =>
      obtain ⟨d, here, read⟩ := Option.bind_eq_some_iff.mp read
      have small := letters.small c d here
      calc v < (acc * base + d + 1) * base ^ rest.length := ih read
        _ ≤ ((acc + 1) * base) * base ^ rest.length := by
            refine Nat.mul_le_mul_right _ ?_
            rw [Nat.add_mul]
            omega
        _ = (acc + 1) * base ^ (c :: rest).length := by
            rw [List.length_cons, pow_succ', Nat.mul_assoc]

theorem numeral_ne_nil (n : Nat) : numeral digit base n ≠ [] := by
  unfold numeral
  by_cases zero : n = 0
  · rw [if_pos zero]
    exact List.cons_ne_nil _ _
  · rw [if_neg zero]
    have filled : Nat.digits base n ≠ [] := Nat.digits_ne_nil_iff_ne_zero.mpr zero
    exact fun empty => filled (List.map_eq_nil_iff.mp (List.reverse_eq_nil_iff.mp empty))

/-- **A numeral reads back.** -/
theorem readNumeral_numeral (letters : Letters digit value base) (n : Nat) :
    readNumeral value base (numeral digit base n) = some n := by
  rw [readNumeral_of_ne_nil (numeral_ne_nil n)]
  unfold numeral
  by_cases zero : n = 0
  · have positive : 0 < base := Nat.zero_lt_of_lt letters.wide
    rw [if_pos zero, zero, readDigits, letters.reads 0 positive, Option.bind_some]
    show some (0 * base + 0) = _
    rw [Nat.zero_mul]
  · rw [if_neg zero, readDigits_ofDigits letters _ fun d member => Nat.digits_lt_base letters.wide member,
      Nat.ofDigits_digits]

/-- **No row of letters with the same value is shorter.** -/
theorem numeral_shortest (letters : Letters digit value base) (read : readNumeral value base chars = some n) :
    (numeral digit base n).length ≤ chars.length := by
  cases chars with
  | nil => cases read
  | cons c rest =>
      have below : n < base ^ (c :: rest).length := by
        have bound := readDigits_lt letters read
        rwa [Nat.zero_add, Nat.one_mul] at bound
      unfold numeral
      by_cases zero : n = 0
      · rw [if_pos zero, List.length_singleton, List.length_cons]
        exact Nat.succ_le_succ (Nat.zero_le _)
      · rw [if_neg zero, List.length_reverse, List.length_map]
        exact (Nat.digits_length_le_iff letters.wide n).mpr below

/-- **No leading zero**, but in the numeral of 0. -/
theorem numeral_head (letters : Letters digit value base) (head : (numeral digit base n).head? = some c)
    (zero : value c = some 0) : n = 0 := by
  by_contra positive
  unfold numeral at head
  have filled : Nat.digits base n ≠ [] := Nat.digits_ne_nil_iff_ne_zero.mpr positive
  rw [if_neg positive, List.head?_reverse, List.getLast?_map, List.getLast?_eq_some_getLast filled] at head
  cases head
  have member := List.getLast_mem filled
  rw [letters.reads _ (Nat.digits_lt_base letters.wide member)] at zero
  exact Nat.getLast_digit_ne_zero base positive (Option.some.inj zero)

end Numerals

end Kfs
