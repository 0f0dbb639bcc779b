/-
**Comparing C strings: `string.c`.**

A string is the bytes at a pointer; behind the last one stands a NUL, and a NUL among them ends the string
earlier. On strings without a NUL, `strcmp` and `strncmp` of the whole length are 0 exactly for equal
strings (`strcmp_eq_zero`, `strncmp_eq_zero`).
-/

import Mathlib.Tactic

namespace Kfs.Strings

/-- The byte a pointer points to. -/
def at0 (s : List UInt8) : UInt8 := s.headD 0

/-- `strlen`. -/
def strlen : List UInt8 → Nat
  | [] => 0
  | c :: s => if c = 0 then 0 else strlen s + 1

/-- `strcmp`. -/
def strcmp : List UInt8 → List UInt8 → Int
  | [], t => 0 - ((at0 t).toNat : Int)
  | c :: s, t =>
      if c ≠ 0 ∧ c = at0 t then strcmp s t.tail else (c.toNat : Int) - ((at0 t).toNat : Int)

/-- `strncmp`. -/
def strncmp : Nat → List UInt8 → List UInt8 → Int
  | 0, _, _ => 0
  | n + 1, s, t =>
      if at0 s ≠ 0 ∧ at0 s = at0 t then strncmp n s.tail t.tail
      else ((at0 s).toNat : Int) - ((at0 t).toNat : Int)

section

variable {s t : List UInt8} {c d : UInt8}

@[simp] theorem at0_nil : at0 [] = 0 := rfl

@[simp] theorem at0_cons : at0 (c :: s) = c := rfl

theorem sub_toNat_eq_zero : (c.toNat : Int) - (d.toNat : Int) = 0 ↔ c = d := by
  rw [sub_eq_zero, Nat.cast_inj, UInt8.toNat_inj]

theorem strlen_eq (ended : 0 ∉ s) : strlen s = s.length := by
  induction s with
  | nil => rfl
  | cons c s ih =>
      have some : c ≠ 0 := fun zero => ended (by simp [zero])
      rw [strlen, if_neg some, ih fun member => ended (List.mem_cons_of_mem _ member), List.length_cons]

theorem strcmp_eq_zero (first : 0 ∉ s) (second : 0 ∉ t) : strcmp s t = 0 ↔ s = t := by
  induction s generalizing t with
  | nil =>
      cases t with
      | nil => simp [strcmp]
      | cons d t =>
          have some : d ≠ 0 := fun zero => second (by simp [zero])
          have positive : d.toNat ≠ 0 := fun zero => some (UInt8.toNat_inj.mp zero)
          simp only [strcmp, at0_cons]
          constructor
          · intro zero
            omega
          · intro same
            cases same
  | cons c s ih =>
      have some : c ≠ 0 := fun zero => first (by simp [zero])
      cases t with
      | nil =>
          rw [strcmp, if_neg (by simp [some]), at0_nil, sub_toNat_eq_zero]
          simp [some]
      | cons d t =>
          rw [strcmp, at0_cons]
          by_cases same : c = d
          · rw [if_pos ⟨some, same⟩, List.tail_cons, List.cons.injEq,
              ih (fun member => first (List.mem_cons_of_mem _ member))
                (fun member => second (List.mem_cons_of_mem _ member))]
            simp [same]
          · rw [if_neg (by simp [same]), sub_toNat_eq_zero]
            simp [same]

theorem at0_eq_zero (ended : 0 ∉ t) (zero : at0 t = 0) : t = [] := by
  cases t with
  | nil => rfl
  | cons d t => exact absurd (show 0 ∈ d :: t from zero ▸ List.mem_cons_self) ended

/-- What `strcmp` takes for equal to a string is no shorter, whatever stands behind it. -/
theorem strcmp_length (ended : 0 ∉ t) (equal : strcmp s t = 0) : t.length ≤ s.length := by
  induction s generalizing t with
  | nil =>
      have zero : at0 t = 0 := by
        rw [strcmp, zero_sub, neg_eq_zero, Int.natCast_eq_zero] at equal
        exact UInt8.toNat_inj.mp equal
      exact le_of_eq (congrArg List.length (at0_eq_zero ended zero))
  | cons c s ih =>
      rw [strcmp] at equal
      split at equal
      · have shorter := ih (fun member => ended (List.mem_of_mem_tail member)) equal
        rw [List.length_tail] at shorter
        rw [List.length_cons]
        omega
      · rename_i other
        have same : c = at0 t := sub_toNat_eq_zero.mp equal
        have zero : c = 0 := not_not.mp fun some => other ⟨some, same⟩
        rw [at0_eq_zero ended (same.symm.trans zero)]
        exact Nat.zero_le _

theorem strncmp_eq_zero (first : 0 ∉ s) (length : s.length = t.length) :
    strncmp s.length s t = 0 ↔ s = t := by
  induction s generalizing t with
  | nil =>
      have empty : t = [] := List.length_eq_zero_iff.mp length.symm
      simp [strncmp, empty]
  | cons c s ih =>
      have some : c ≠ 0 := fun zero => first (by simp [zero])
      cases t with
      | nil => cases length
      | cons d t =>
          rw [List.length_cons, strncmp, at0_cons, at0_cons]
          by_cases same : c = d
          · rw [if_pos ⟨some, same⟩, List.tail_cons, List.tail_cons, List.cons.injEq,
              ih (fun member => first (List.mem_cons_of_mem _ member)) (Nat.succ.inj length)]
            simp [same]
          · rw [if_neg (by simp [same]), sub_toNat_eq_zero]
            simp [same]

end

end Kfs.Strings
