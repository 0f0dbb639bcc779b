/-
**`strncpy` and `strchr`: `string.c`.**

The functions of the source on memory cells. `strncpy` stores exactly `n` cells: the first characters of the
string, and NUL behind it (`strncpy_inside`, `strncpy_outside`). `strchr` gives the first place of a
character (`strchr_some`, `strchr_none`).
-/

import Kfs.Base.Outcome
import Kfs.Base.Text

namespace Kfs.Strings

/-- The second loop of `strncpy`. -/
def fillNul (cells : Nat → Char) (dest : Nat) : (n : Nat) → Nat → Char
  | 0 => cells
  | n + 1 => fillNul (Function.update cells dest nul) (dest + 1) n

/-- `strncpy`. -/
def strncpy (cells : Nat → Char) (dest src : Nat) : (n : Nat) → Nat → Char
  | 0 => cells
  | n + 1 =>
      if cells src = nul then fillNul cells dest (n + 1)
      else strncpy (Function.update cells dest (cells src)) (dest + 1) (src + 1) n

/-- `strchr`, `none` for NULL. No string has `fuel` characters. -/
def strchr (cells : Nat → Char) (c : Char) : (fuel s : Nat) → Outcome (Option Nat)
  | 0, _ => .diverge
  | fuel + 1, s =>
      if cells s ≠ nul then if cells s = c then .ok (some s) else strchr cells c fuel (s + 1)
      else .ok (if c = nul then some s else none)

section Copy

variable {cells : Nat → Char} {dest src n : Nat} {s : List Char}

theorem fillNul_eq (cells : Nat → Char) (dest n x : Nat) :
    fillNul cells dest n x = if dest ≤ x ∧ x < dest + n then nul else cells x := by
  induction n generalizing cells dest with
  | zero => rw [fillNul, if_neg (by omega)]
  | succ n ih =>
      rw [fillNul, ih]
      by_cases here : x = dest
      · rw [if_neg (by omega), if_pos (by omega), here, Function.update_self]
      · rw [Function.update_of_ne here]
        by_cases inside : dest ≤ x ∧ x < dest + (n + 1)
        · rw [if_pos inside, if_pos (by omega)]
        · rw [if_neg inside, if_neg (by omega)]

/-- **Outside the destination** nothing changes. -/
theorem strncpy_outside (cells : Nat → Char) (dest src n : Nat) {x : Nat} (outside : x < dest ∨ dest + n ≤ x) :
    strncpy cells dest src n x = cells x := by
  induction n generalizing cells dest src with
  | zero => rfl
  | succ n ih =>
      rw [strncpy]
      split
      · rw [fillNul_eq, if_neg (by omega)]
      · rw [ih _ _ _ (by omega), Function.update_of_ne (by omega)]

/-- **Inside it** stand the characters of the string, and NUL behind them. -/
theorem strncpy_inside (string : StringAt nul cells src s) (apart : src + s.length < dest ∨ dest + n ≤ src)
    {k : Nat} (inside : k < n) : strncpy cells dest src n (dest + k) = s.getD k nul := by
  induction n generalizing cells dest src s k with
  | zero => exact absurd inside (Nat.not_lt_zero k)
  | succ n ih =>
      rw [strncpy]
      cases s with
      | nil =>
          rw [if_pos (stringAt_nil.mp string), fillNul_eq, if_pos (by omega)]
          rfl
      | cons c s =>
          obtain ⟨here, visible, later⟩ := stringAt_cons.mp string
          rw [List.length_cons] at apart
          rw [here, if_neg visible]
          cases k with
          | zero =>
              show strncpy (Function.update cells dest c) (dest + 1) (src + 1) n dest = c
              rw [strncpy_outside _ _ _ _ (.inl (Nat.lt_succ_self dest)), Function.update_self]
          | succ k =>
              have kept : StringAt nul (Function.update cells dest c) (src + 1) s :=
                later.congr fun j _ => Function.update_of_ne (by omega) _ _
              rw [show dest + (k + 1) = dest + 1 + k by omega, ih kept (by omega) (Nat.lt_of_succ_lt_succ inside)]
              rfl

/-- **A copy that is ended** is the string, cut to `n` characters. -/
theorem strncpy_string (string : StringAt nul cells src s)
    (apart : src + s.length < dest ∨ dest + n ≤ src) :
    StringAt nul (Function.update (strncpy cells dest src n) (dest + n) nul) dest (s.take n) where
  spells := by
    intro k less
    rw [List.length_take] at less
    rw [Function.update_of_ne (by omega), strncpy_inside string apart (by omega), List.getElem?_take,
      if_pos (by omega), List.getD_eq_getElem?_getD, List.getElem?_eq_getElem (by omega), Option.getD_some]
  clean := fun member => string.clean (List.mem_of_mem_take member)
  ends := by
    rw [List.length_take]
    by_cases cut : n ≤ s.length
    · rw [Nat.min_eq_left cut, Function.update_self]
    · rw [Nat.min_eq_right (by omega), Function.update_of_ne (by omega),
        strncpy_inside string apart (by omega), List.getD_eq_getElem?_getD, List.getElem?_eq_none le_rfl]
      rfl

end Copy

section Search

variable {cells : Nat → Char} {c : Char} {fuel p : Nat} {word rest : List Char}

theorem strchr_none (string : StringAt nul cells p word) (absent : c ∉ word) (visible : c ≠ nul)
    (enough : word.length < fuel) : strchr cells c fuel p = .ok none := by
  induction word generalizing p fuel with
  | nil =>
      obtain ⟨fuel, rfl⟩ := Nat.exists_eq_succ_of_ne_zero (Nat.ne_zero_of_lt enough)
      rw [strchr, if_neg (not_not.mpr (stringAt_nil.mp string)), if_neg visible]
  | cons d word ih =>
      obtain ⟨fuel, rfl⟩ := Nat.exists_eq_succ_of_ne_zero (Nat.ne_zero_of_lt enough)
      obtain ⟨here, some, later⟩ := stringAt_cons.mp string
      rw [List.mem_cons, not_or] at absent
      rw [strchr, here, if_pos some, if_neg (Ne.symm absent.1)]
      exact ih later absent.2 (Nat.lt_of_succ_lt_succ enough)

/-- **The first place of a character.** -/
theorem strchr_some (string : StringAt nul cells p (word ++ c :: rest)) (first : c ∉ word)
    (enough : word.length < fuel) : strchr cells c fuel p = .ok (some (p + word.length)) := by
  induction word generalizing p fuel with
  | nil =>
      obtain ⟨fuel, rfl⟩ := Nat.exists_eq_succ_of_ne_zero (Nat.ne_zero_of_lt enough)
      obtain ⟨here, visible, -⟩ := stringAt_cons.mp string
      rw [strchr, here, if_pos visible, if_pos rfl, List.length_nil, Nat.add_zero]
  | cons d word ih =>
      obtain ⟨fuel, rfl⟩ := Nat.exists_eq_succ_of_ne_zero (Nat.ne_zero_of_lt enough)
      obtain ⟨here, visible, later⟩ := stringAt_cons.mp string
      rw [List.mem_cons, not_or] at first
      rw [strchr, here, if_pos visible, if_neg (Ne.symm first.1),
        ih later first.2 (Nat.lt_of_succ_lt_succ enough), List.length_cons, Nat.add_assoc, Nat.add_comm 1]

end Search

end Kfs.Strings
