/-
**The text display: `vga.c`.**

The display is its cells, the cursor of the driver, the colour, and the cursor position in the registers of
the hardware. Between calls the cursor is on the screen and the registers agree with it (`Vga.Valid`):
`vgaInit_valid`, `vgaPutchar_valid`, `vgaSetCursorPosition_valid`.
-/

import Mathlib.Tactic

namespace Kfs.Console

/-- `VGA_WIDTH`. -/
def vgaWidth : Nat := 80

/-- `VGA_HEIGHT`. -/
def vgaHeight : Nat := 25

/-- The cells of a screen: a character and its colour each. -/
abbrev Cells := Fin (vgaWidth * vgaHeight) → UInt16

/-- Video memory, `vga_row`, `vga_column`, `vga_color`, and the cursor registers. -/
structure Vga where
  cells : Cells
  row : Nat
  column : Nat
  color : UInt8
  cursor : Nat

/-- `vga_entry_color`. -/
def vgaEntryColor (fg bg : UInt8) : UInt8 := fg ||| bg <<< 4

/-- `vga_entry`. -/
def vgaEntry (c color : UInt8) : UInt16 := c.toUInt16 ||| color.toUInt16 <<< 8

/-- `vga_update_cursor`. -/
def vgaUpdateCursor (v : Vga) : Vga := { v with cursor := (v.row * vgaWidth + v.column) % 2 ^ 16 }

/-- `vga_putentryat`. -/
def vgaPutentryat (v : Vga) (c color : UInt8) (x y : Nat) : Vga :=
  { v with cells := fun i => if i.val = y * vgaWidth + x then vgaEntry c color else v.cells i }

/-- `vga_clear`. -/
def vgaClear (v : Vga) : Vga := { v with cells := fun _ => vgaEntry 32 v.color, row := 0, column := 0 }

/-- `vga_init`, whatever video memory holds. -/
def vgaInit (cells : Cells) : Vga :=
  vgaUpdateCursor (vgaClear ⟨cells, 0, 0, vgaEntryColor 7 0, 0⟩)

/-- `vga_scroll`: every line moves up, and the last one is cleared. -/
def vgaScroll (v : Vga) : Vga :=
  { v with cells := fun i =>
      if next : i.val + vgaWidth < vgaWidth * vgaHeight then v.cells ⟨i.val + vgaWidth, next⟩
      else vgaEntry 32 v.color }

/-- The first part of `vga_putchar`: what the character does. -/
def putCell (v : Vga) (c : UInt8) : Vga :=
  if c = 10 then { v with column := 0, row := v.row + 1 }
  else if c = 13 then { v with column := 0 }
  else if c = 9 then { v with column := (v.column + 4) / 4 * 4 }
  else { vgaPutentryat v c v.color v.column v.row with column := v.column + 1 }

/-- The end of a line, and the end of the screen. -/
def wrapLine (v : Vga) : Vga :=
  let v := if v.column ≥ vgaWidth then { v with column := 0, row := v.row + 1 } else v
  if v.row ≥ vgaHeight then { vgaScroll v with row := vgaHeight - 1 } else v

/-- `vga_putchar`. -/
def vgaPutchar (v : Vga) (c : UInt8) : Vga := vgaUpdateCursor (wrapLine (putCell v c))

/-- `vga_set_cursor_position`. -/
def vgaSetCursorPosition (v : Vga) (row col : Nat) : Vga :=
  if row < vgaHeight ∧ col < vgaWidth then vgaUpdateCursor { v with row := row, column := col } else v

/-- `vga_set_color`. -/
def vgaSetColor (v : Vga) (fg bg : UInt8) : Vga := { v with color := vgaEntryColor fg bg }

/-- The cursor is on the screen, and the hardware shows it there. -/
structure Vga.Valid (v : Vga) : Prop where
  row : v.row < vgaHeight
  column : v.column < vgaWidth
  cursor : v.cursor = v.row * vgaWidth + v.column

section Driver

variable {v : Vga}

theorem vgaUpdateCursor_valid (row : v.row < vgaHeight) (column : v.column < vgaWidth) :
    (vgaUpdateCursor v).Valid := by
  refine ⟨row, column, Nat.mod_eq_of_lt ?_⟩
  unfold vgaHeight at row
  unfold vgaWidth at *
  omega

theorem vgaInit_valid (cells : Cells) : (vgaInit cells).Valid :=
  vgaUpdateCursor_valid (show 0 < vgaHeight by decide) (show 0 < vgaWidth by decide)

/-- Wherever the character has left it, the cursor is brought back on the screen. -/
theorem wrapLine_bounds (v : Vga) : (wrapLine v).row < vgaHeight ∧ (wrapLine v).column < vgaWidth := by
  unfold wrapLine
  by_cases full : v.column ≥ vgaWidth
  · simp only [if_pos full]
    split
    · exact ⟨show vgaHeight - 1 < vgaHeight by decide, show 0 < vgaWidth by decide⟩
    · rename_i inside
      exact ⟨not_le.mp inside, show 0 < vgaWidth by decide⟩
  · simp only [if_neg full]
    split
    · exact ⟨show vgaHeight - 1 < vgaHeight by decide, not_le.mp full⟩
    · rename_i inside
      exact ⟨not_le.mp inside, not_le.mp full⟩

/-- **A character leaves the cursor on the screen.** -/
theorem vgaPutchar_valid (v : Vga) (c : UInt8) : (vgaPutchar v c).Valid := by
  obtain ⟨row, column⟩ := wrapLine_bounds (putCell v c)
  exact vgaUpdateCursor_valid row column

theorem vgaSetCursorPosition_valid (valid : v.Valid) (row col : Nat) :
    (vgaSetCursorPosition v row col).Valid := by
  unfold vgaSetCursorPosition
  split
  · rename_i inside
    exact vgaUpdateCursor_valid inside.1 inside.2
  · exact valid

theorem vgaPutchar_color (v : Vga) (c : UInt8) : (vgaPutchar v c).color = v.color := by
  have first : (putCell v c).color = v.color := by
    unfold putCell
    split
    · rfl
    · split
      · rfl
      · split <;> rfl
  rw [← first]
  unfold vgaPutchar vgaUpdateCursor wrapLine
  simp only
  split
  · split <;> rfl
  · split <;> rfl

theorem vgaSetCursorPosition_color (v : Vga) (row col : Nat) :
    (vgaSetCursorPosition v row col).color = v.color := by
  unfold vgaSetCursorPosition
  split <;> rfl

end Driver

end Kfs.Console
