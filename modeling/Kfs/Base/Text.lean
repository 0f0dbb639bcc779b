/-
**Texts in arrays.**

A text lies in an array from a cell on (`Spells`); a string is a text without the mark that stands behind
it (`StringAt`). A cell determines its string. Storing behind a text prolongs it, and storing elsewhere
does not matter. `Held` is a line that is edited at its end.
-/

import Mathlib.Tactic

namespace Kfs

variable {α : Type} {cells cells' : Nat → α} {start i : Nat} {mark a : α} {s t : List α}

/-- `'\0'`, the mark of C strings. -/
def nul : Char := '\x00'

/-- The cells from `start` on hold the text `s`. -/
def Spells (cells : Nat → α) (start : Nat) (s : List α) : Prop :=
  ∀ k < s.length, s[k]? = some (cells (start + k))

/-- **A string**: a text, and the mark behind it and nowhere in it. -/
structure StringAt (mark : α) (cells : Nat → α) (start : Nat) (s : List α) : Prop where
  spells : Spells cells start s
  clean : mark ∉ s
  ends : cells (start + s.length) = mark

/-- What is read from a cell up to the mark, of at most `fuel` cells. -/
def readString [DecidableEq α] (mark : α) (cells : Nat → α) : (fuel start : Nat) → List α
  | 0, _ => []
  | fuel + 1, start =>
      if cells start = mark then [] else cells start :: readString mark cells fuel (start + 1)

/-- A store into an array of `size` cells, `none` when it falls outside. -/
def storeCell (size : Nat) (cells : Nat → α) (i : Nat) (a : α) : Option (Nat → α) :=
  if i < size then some (Function.update cells i a) else none

theorem storeCell_of_lt {size : Nat} (inside : i < size) :
    storeCell size cells i a = some (Function.update cells i a) := if_pos inside

/-! ### Texts -/

theorem spells_nil : Spells cells start [] := fun _ less => absurd less (Nat.not_lt_zero _)

theorem spells_cons : Spells cells start (a :: s) ↔ cells start = a ∧ Spells cells (start + 1) s := by
  constructor
  · intro spells
    refine ⟨(Option.some.inj (spells 0 (Nat.zero_lt_succ _))).symm, fun k less => ?_⟩
    have next := spells (k + 1) (Nat.succ_lt_succ less)
    rwa [List.getElem?_cons_succ, Nat.add_comm k 1, ← Nat.add_assoc] at next
  · rintro ⟨first, rest⟩ k less
    cases k with
    | zero => exact congrArg some first.symm
    | succ k =>
        rw [List.getElem?_cons_succ, Nat.add_comm k 1, ← Nat.add_assoc]
        exact rest k (Nat.lt_of_succ_lt_succ less)

theorem Spells.congr (spells : Spells cells start s)
    (same : ∀ k < s.length, cells' (start + k) = cells (start + k)) : Spells cells' start s :=
  fun k less => (spells k less).trans (congrArg some (same k less).symm)

theorem Spells.append (first : Spells cells start s) (second : Spells cells (start + s.length) t) :
    Spells cells start (s ++ t) := by
  induction s generalizing start with
  | nil => exact second
  | cons a s ih =>
      obtain ⟨here, rest⟩ := spells_cons.mp first
      refine spells_cons.mpr ⟨here, ih rest ?_⟩
      rwa [Nat.add_assoc, Nat.add_comm 1]

theorem Spells.left (spells : Spells cells start (s ++ t)) : Spells cells start s := by
  intro k less
  rw [← spells k (by rw [List.length_append]; omega), List.getElem?_append_left less]

theorem Spells.right (spells : Spells cells start (s ++ t)) : Spells cells (start + s.length) t := by
  induction s generalizing start with
  | nil => exact spells
  | cons a s ih =>
      have rest := ih (spells_cons.mp spells).2
      rwa [Nat.add_assoc, Nat.add_comm 1] at rest

/-- A store outside a text leaves it as it is. -/
theorem Spells.update (spells : Spells cells start s) (outside : i < start ∨ start + s.length ≤ i) (a : α) :
    Spells (Function.update cells i a) start s :=
  spells.congr fun k less => Function.update_of_ne (by omega) _ _

/-- **A store behind a text** prolongs it. -/
theorem Spells.snoc (spells : Spells cells start s) (a : α) :
    Spells (Function.update cells (start + s.length) a) start (s ++ [a]) := by
  refine (spells.update (.inr le_rfl) a).append (spells_cons.mpr ⟨?_, spells_nil⟩)
  exact Function.update_self _ _ _

/-- The mark behind a text makes it a string. -/
theorem Spells.ended (spells : Spells cells start s) (clean : mark ∉ s) :
    StringAt mark (Function.update cells (start + s.length) mark) start s where
  spells := spells.update (.inr le_rfl) mark
  clean := clean
  ends := Function.update_self _ _ _

/-! ### Strings -/

theorem stringAt_nil : StringAt mark cells start [] ↔ cells start = mark :=
  ⟨fun string => string.ends, fun ends => ⟨spells_nil, List.not_mem_nil, ends⟩⟩

theorem stringAt_cons :
    StringAt mark cells start (a :: s) ↔ cells start = a ∧ a ≠ mark ∧ StringAt mark cells (start + 1) s := by
  have place : start + (a :: s).length = start + 1 + s.length := by
    rw [List.length_cons]
    omega
  constructor
  · rintro ⟨spells, clean, ends⟩
    obtain ⟨here, rest⟩ := spells_cons.mp spells
    rw [place] at ends
    exact ⟨here, fun same => clean (by simp [same]), rest,
      fun member => clean (List.mem_cons_of_mem _ member), ends⟩
  · rintro ⟨here, visible, spells, clean, ends⟩
    rw [← place] at ends
    exact ⟨spells_cons.mpr ⟨here, spells⟩, by simpa using ⟨visible.symm, clean⟩, ends⟩

/-- **A text with the mark behind it** is a string up to the first mark. -/
theorem Spells.upTo [DecidableEq α] (spells : Spells cells start s) (ends : cells (start + s.length) = mark) :
    StringAt mark cells start (s.takeWhile fun a => decide (a ≠ mark)) := by
  induction s generalizing start with
  | nil => exact stringAt_nil.mpr ends
  | cons a s ih =>
      obtain ⟨here, rest⟩ := spells_cons.mp spells
      by_cases hidden : a = mark
      · rw [List.takeWhile_cons_of_neg (by simpa using hidden)]
        exact stringAt_nil.mpr (here.trans hidden)
      · rw [List.takeWhile_cons_of_pos (by simpa using hidden)]
        rw [List.length_cons, Nat.add_comm s.length 1, ← Nat.add_assoc] at ends
        exact stringAt_cons.mpr ⟨here, hidden, ih rest ends⟩

/-- **A cell determines its string.** -/
theorem StringAt.unique (first : StringAt mark cells start s) (second : StringAt mark cells start t) :
    s = t := by
  induction s generalizing start t with
  | nil =>
      cases t with
      | nil => rfl
      | cons b t =>
          obtain ⟨here, visible, -⟩ := stringAt_cons.mp second
          exact absurd (here.symm.trans (stringAt_nil.mp first)) visible
  | cons a s ih =>
      obtain ⟨here, visible, rest⟩ := stringAt_cons.mp first
      cases t with
      | nil => exact absurd (here.symm.trans (stringAt_nil.mp second)) visible
      | cons b t =>
          obtain ⟨there, -, rest'⟩ := stringAt_cons.mp second
          rw [← here, ← there, ih rest rest']

theorem StringAt.congr (string : StringAt mark cells start s)
    (same : ∀ k ≤ s.length, cells' (start + k) = cells (start + k)) : StringAt mark cells' start s where
  spells := string.spells.congr fun k less => same k less.le
  clean := string.clean
  ends := (same s.length le_rfl).trans string.ends

/-- Reading a string gives it. -/
theorem StringAt.read [DecidableEq α] (string : StringAt mark cells start s) {fuel : Nat}
    (room : s.length < fuel) : readString mark cells fuel start = s := by
  induction s generalizing start fuel with
  | nil =>
      cases fuel with
      | zero => exact absurd room (Nat.not_lt_zero _)
      | succ fuel => rw [readString, if_pos (stringAt_nil.mp string)]
  | cons a s ih =>
      obtain ⟨here, visible, rest⟩ := stringAt_cons.mp string
      cases fuel with
      | zero => exact absurd room (Nat.not_lt_zero _)
      | succ fuel => rw [readString, here, if_neg visible, ih rest (Nat.lt_of_succ_lt_succ room)]

/-! ### Lines edited at the end -/

/-- The first `pos` cells hold a line. -/
structure Held (cells : Nat → α) (pos : Nat) (line : List α) : Prop where
  length : pos = line.length
  spells : Spells cells 0 line

namespace Held

variable {pos : Nat} {line : List α}

theorem nil (cells : Nat → α) : Held cells 0 [] := ⟨rfl, spells_nil⟩

theorem push (held : Held cells pos line) (a : α) :
    Held (Function.update cells pos a) (pos + 1) (line ++ [a]) := by
  refine ⟨by rw [held.length, List.length_append, List.length_singleton], ?_⟩
  have longer := held.spells.snoc a
  rwa [Nat.zero_add, ← held.length] at longer

theorem erase (held : Held cells pos line) : Held cells (pos - 1) line.dropLast := by
  refine ⟨by rw [held.length, List.length_dropLast], ?_⟩
  cases line using List.reverseRecOn with
  | nil => exact spells_nil
  | append_singleton line a =>
      rw [List.dropLast_concat]
      exact held.spells.left

/-- Cells behind the line do not matter. -/
theorem update (held : Held cells pos line) (behind : pos ≤ i) (a : α) :
    Held (Function.update cells i a) pos line :=
  ⟨held.length, held.spells.update (.inr (by rw [Nat.zero_add, ← held.length]; exact behind)) a⟩

/-- **Ending a line** with the mark makes it the string of the array. -/
theorem ended (held : Held cells pos line) (clean : mark ∉ line) :
    StringAt mark (Function.update cells pos mark) 0 line := by
  have string := held.spells.ended clean
  rwa [Nat.zero_add, ← held.length] at string

end Held

end Kfs
