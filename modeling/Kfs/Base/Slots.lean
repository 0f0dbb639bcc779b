/-
**Arrays with a count.**

The first `count` cells of an array hold a list (`Slots.toList`). Storing behind the last one appends
(`push_toList`); the search loop finds the first element with a property (`first_eq`); moving the cells
behind an element down by one takes it out (`remove_toList`).
-/

import Mathlib.Tactic

namespace Kfs

variable {α : Type}

/-- An array and the number of its cells in use. -/
structure Slots (α : Type) where
  cell : Nat → α
  count : Nat

namespace Slots

/-- The elements, in order. -/
def toList (s : Slots α) : List α := (List.range s.count).map s.cell

/-- Store behind the last element. -/
def push (s : Slots α) (x : α) : Slots α := ⟨Function.update s.cell s.count x, s.count + 1⟩

/-- The first of `left` cells from `i` on that has a property. -/
def firstFrom (p : α → Bool) (cell : Nat → α) : (left i : Nat) → Option Nat
  | 0, _ => none
  | left + 1, i => if p (cell i) then some i else firstFrom p cell left (i + 1)

/-- The first element that has a property. -/
def first (p : α → Bool) (s : Slots α) : Option Nat := firstFrom p s.cell s.count 0

/-- Move the `left` cells behind `j` down by one. -/
def shiftFrom (cell : Nat → α) : (left j : Nat) → Nat → α
  | 0, _ => cell
  | left + 1, j => shiftFrom (Function.update cell j (cell (j + 1))) left (j + 1)

/-- Take the element `i` out by moving down those behind it. -/
def remove (s : Slots α) (i : Nat) : Slots α := ⟨shiftFrom s.cell (s.count - 1 - i) i, s.count - 1⟩

section

variable {s : Slots α} {p : α → Bool} {cell : Nat → α} {left i j k : Nat} {x : α}

@[simp] theorem toList_length : s.toList.length = s.count := by
  rw [toList, List.length_map, List.length_range]

theorem toList_getElem? : s.toList[k]? = if k < s.count then some (s.cell k) else none := by
  rw [toList, List.getElem?_map]
  split
  · rename_i below
    rw [List.getElem?_range below]
    rfl
  · rename_i past
    rw [List.getElem?_eq_none (by rw [List.length_range]; omega)]
    rfl

theorem mem_toList : x ∈ s.toList ↔ ∃ k < s.count, s.cell k = x := by
  rw [toList, List.mem_map]
  exact exists_congr fun k => and_congr_left fun _ => List.mem_range

/-- **Storing behind the last element appends.** -/
theorem push_toList : (s.push x).toList = s.toList ++ [x] := by
  rw [toList, push, List.range_succ, List.map_append]
  congr 1
  · refine List.map_congr_left fun k member => ?_
    exact Function.update_of_ne (Nat.ne_of_lt (List.mem_range.mp member)) _ _
  · exact congrArg (fun y => [y]) (Function.update_self _ _ _)

theorem firstFrom_eq : firstFrom p cell left i =
    (((List.range left).map fun k => cell (i + k)).findIdx? p).map (i + ·) := by
  induction left generalizing i with
  | zero => rfl
  | succ left ih =>
      rw [firstFrom, List.range_succ_eq_map, List.map_cons, List.findIdx?_cons]
      by_cases here : p (cell i) = true
      · simp [here]
      · have shifted : ((List.range left).map Nat.succ).map (fun k => cell (i + k)) =
            (List.range left).map fun k => cell (i + 1 + k) := by
          rw [List.map_map]
          refine List.map_congr_left fun k _ => ?_
          rw [Function.comp_apply, Nat.succ_eq_add_one, Nat.add_right_comm, Nat.add_assoc]
        simp only [Nat.add_zero, if_neg here, ih, shifted, Option.map_map]
        congr 1
        funext k
        simp only [Function.comp_apply]
        omega

/-- **The search finds the first element.** -/
theorem first_eq : s.first p = s.toList.findIdx? p := by
  rw [first, firstFrom_eq]
  simp only [Nat.zero_add, Option.map_id']
  rfl

theorem shiftFrom_eq : shiftFrom cell left j k = if j ≤ k ∧ k < j + left then cell (k + 1) else cell k := by
  induction left generalizing cell j with
  | zero => rw [shiftFrom, if_neg (by omega)]
  | succ left ih =>
      rw [shiftFrom, ih]
      by_cases here : k = j
      · rw [if_neg (by omega), if_pos (by omega), here, Function.update_self]
      · by_cases inside : j + 1 ≤ k ∧ k < j + 1 + left
        · rw [if_pos inside, if_pos (by omega), Function.update_of_ne (by omega)]
        · rw [if_neg inside, if_neg (by omega), Function.update_of_ne here]

/-- **Moving the later elements down takes one out.** -/
theorem remove_toList (inside : i < s.count) : (s.remove i).toList = s.toList.eraseIdx i := by
  refine List.ext_getElem? fun k => ?_
  rw [toList_getElem?, List.getElem?_eraseIdx, toList_getElem?, toList_getElem?]
  simp only [remove, shiftFrom_eq]
  by_cases before : k < i
  · have low : ¬ (i ≤ k ∧ k < i + (s.count - 1 - i)) := by omega
    rw [if_pos before, if_neg low, if_pos (show k < s.count - 1 by omega), if_pos (show k < s.count by omega)]
  · rw [if_neg before]
    by_cases below : k + 1 < s.count
    · have moved : i ≤ k ∧ k < i + (s.count - 1 - i) := by omega
      rw [if_pos below, if_pos moved, if_pos (show k < s.count - 1 by omega)]
    · rw [if_neg below, if_neg (show ¬ k < s.count - 1 by omega)]

/-- The search and the removal together. -/
theorem first_some (found : s.first p = some i) :
    i < s.count ∧ p (s.cell i) = true ∧ (s.remove i).toList = s.toList.eraseP p := by
  rw [first_eq] at found
  obtain ⟨below, holds, -⟩ := List.findIdx?_eq_some_iff_getElem.mp found
  rw [toList_length] at below
  have cell : s.toList[i] = s.cell i := by simp [toList]
  refine ⟨below, cell ▸ holds, ?_⟩
  rw [remove_toList below, List.eraseP_eq_eraseIdx, found]

theorem first_none : s.first p = none ↔ ∀ x ∈ s.toList, ¬ p x = true := by
  rw [first_eq, List.findIdx?_eq_none_iff]
  simp

end

end Slots

end Kfs
