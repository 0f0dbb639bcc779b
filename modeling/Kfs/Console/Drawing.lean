/-
**Drawing into video memory: the loops of `vga.c`.**

Here video memory is the memory from `VGA_MEMORY` on, with no end, and every index that is stored to is
recorded. `vga_clear` and `vga_scroll` are their loops, store by store. As long as the cursor is on the
screen, every store is to one of the 2000 cells, and the display does what `Vga` says:
`vgaPutchar_inBounds`, `vgaPutchar_view`.
-/

import Kfs.Base.Loops
import Kfs.Console.Vga

namespace Kfs.Console

/-- The memory at `vga_buffer`, `vga_row`, `vga_column`, `vga_color`, the cursor registers, and the indices
stored to so far. -/
structure Raster where
  memory : Nat → UInt16
  row : Nat
  column : Nat
  color : UInt8
  cursor : Nat
  written : List Nat

/-- What is done to the display. -/
inductive DrawOp where
  | setColor (fg bg : UInt8)
  | putchar (c : UInt8)
  deriving DecidableEq

namespace Raster

/-- `vga_buffer[index] = entry`. -/
def store (d : Raster) (index : Nat) (entry : UInt16) : Raster :=
  { d with memory := Function.update d.memory index entry, written := index :: d.written }

/-- `vga_update_cursor`. -/
def vgaUpdateCursor (d : Raster) : Raster := { d with cursor := (d.row * vgaWidth + d.column) % 2 ^ 16 }

/-- `vga_clear`. -/
def vgaClear (d : Raster) : Raster :=
  { forTo (fun y => forTo (fun x d => d.store (y * vgaWidth + x) (vgaEntry 32 d.color)) vgaWidth)
      vgaHeight d with row := 0, column := 0 }

/-- `vga_set_color`. -/
def vgaSetColor (d : Raster) (fg bg : UInt8) : Raster := { d with color := vgaEntryColor fg bg }

/-- `vga_putentryat`. -/
def vgaPutentryat (d : Raster) (c color : UInt8) (x y : Nat) : Raster :=
  d.store (y * vgaWidth + x) (vgaEntry c color)

/-- The first loop of `vga_scroll`: all lines move up. -/
def moveLines (d : Raster) : Raster :=
  forTo (fun y => forTo (fun x d => d.store (y * vgaWidth + x) (d.memory ((y + 1) * vgaWidth + x))) vgaWidth)
    (vgaHeight - 1) d

/-- The second loop of `vga_scroll`: the last line is cleared. -/
def clearLast (d : Raster) : Raster :=
  forTo (fun x d => d.store ((vgaHeight - 1) * vgaWidth + x) (vgaEntry 32 d.color)) vgaWidth d

/-- `vga_scroll`. -/
def vgaScroll (d : Raster) : Raster := d.moveLines.clearLast

/-- The first part of `vga_putchar`: what the character does. -/
def putCell (d : Raster) (c : UInt8) : Raster :=
  if c = 10 then { d with column := 0, row := d.row + 1 }
  else if c = 13 then { d with column := 0 }
  else if c = 9 then { d with column := (d.column + 4) / 4 * 4 }
  else { d.vgaPutentryat c d.color d.column d.row with column := d.column + 1 }

/-- The end of a line, and the end of the screen. -/
def wrapLine (d : Raster) : Raster :=
  let d := if d.column ≥ vgaWidth then { d with column := 0, row := d.row + 1 } else d
  if d.row ≥ vgaHeight then { d.vgaScroll with row := vgaHeight - 1 } else d

/-- `vga_putchar`. -/
def vgaPutchar (d : Raster) (c : UInt8) : Raster := (d.putCell c).wrapLine.vgaUpdateCursor

/-- One call. -/
def exec (d : Raster) : DrawOp → Raster
  | .setColor fg bg => d.vgaSetColor fg bg
  | .putchar c => d.vgaPutchar c

/-- Calls one after the other. -/
def run (d : Raster) (ops : List DrawOp) : Raster := ops.foldl exec d

/-- The display after `vga_clear`, with nothing stored to before. -/
def cleared (memory : Nat → UInt16) (row column : Nat) (color : UInt8) (cursor : Nat) : Raster :=
  vgaClear ⟨memory, row, column, color, cursor, []⟩

/-- The display as `Vga` has it: the cells of the screen. -/
def view (d : Raster) : Vga := ⟨fun i => d.memory i, d.row, d.column, d.color, d.cursor⟩

/-- The cursor is on the screen, and every store was to a cell of the screen. -/
structure InBounds (d : Raster) : Prop where
  row : d.row < vgaHeight
  column : d.column < vgaWidth
  written : ∀ index ∈ d.written, index < vgaWidth * vgaHeight

/-- A range of cells painted with `f`. -/
def paint (d : Raster) (lo n : Nat) (f : Nat → UInt16) : Raster :=
  { d with
    memory := fun i => if lo ≤ i ∧ i < lo + n then f i else d.memory i
    written := (List.range' lo n).reverse ++ d.written }

section Loops

variable {d : Raster} {f : Nat → UInt16} {g : Nat → Raster → UInt16} {lo n : Nat}

@[simp] theorem paint_row : (d.paint lo n f).row = d.row := rfl

@[simp] theorem paint_column : (d.paint lo n f).column = d.column := rfl

@[simp] theorem paint_color : (d.paint lo n f).color = d.color := rfl

theorem paint_zero (d : Raster) (lo : Nat) (f : Nat → UInt16) : d.paint lo 0 f = d := by
  have same : (fun i => if lo ≤ i ∧ i < lo + 0 then f i else d.memory i) = d.memory :=
    funext fun i => if_neg (by omega)
  unfold paint
  rw [same]
  rfl

/-- One more cell. -/
theorem paint_store (d : Raster) (lo n : Nat) (f : Nat → UInt16) :
    (d.paint lo n f).store (lo + n) (f (lo + n)) = d.paint lo (n + 1) f := by
  have memory : Function.update (d.paint lo n f).memory (lo + n) (f (lo + n)) =
      (d.paint lo (n + 1) f).memory := by
    funext i
    by_cases last : i = lo + n
    · rw [last, Function.update_self]
      exact (if_pos (by omega)).symm
    · rw [Function.update_of_ne last]
      exact if_congr (by omega) rfl rfl
  have written : (lo + n) :: (d.paint lo n f).written = (d.paint lo (n + 1) f).written := by
    simp [paint, List.range'_concat]
  unfold store
  rw [memory, written]
  rfl

/-- **A loop of stores paints its range**, when every round finds the value it is to store. -/
theorem forTo_store (found : ∀ i < n, g i (d.paint lo i f) = f (lo + i)) :
    forTo (fun i d => d.store (lo + i) (g i d)) n d = d.paint lo n f := by
  have rounds : ∀ m ≤ n, forTo (fun i d => d.store (lo + i) (g i d)) m d = d.paint lo m f := by
    intro m
    induction m with
    | zero => exact fun _ => (paint_zero d lo f).symm
    | succ m ih =>
        intro inside
        rw [forTo_succ, ih (by omega), found m (by omega), paint_store]
  exact rounds n le_rfl

theorem clearLoop_eq (d : Raster) :
    forTo (fun y => forTo (fun x d => d.store (y * vgaWidth + x) (vgaEntry 32 d.color)) vgaWidth)
      vgaHeight d = d.paint 0 (vgaHeight * vgaWidth) fun _ => vgaEntry 32 d.color := by
  have flat : forTo (fun y => forTo (fun x d => d.store (y * vgaWidth + x) (vgaEntry 32 d.color)) vgaWidth)
      vgaHeight d = forTo (fun i d => d.store (0 + i) (vgaEntry 32 d.color)) (vgaHeight * vgaWidth) d := by
    rw [← forTo_mul]
    refine forTo_congr (fun y d _ => forTo_congr (fun x d _ => ?_) d) d
    rw [Nat.zero_add]
  rw [flat]
  exact forTo_store fun _ _ => rfl

/-- What `vga_clear` does. -/
theorem vgaClear_eq (d : Raster) :
    d.vgaClear =
      { d.paint 0 (vgaHeight * vgaWidth) fun _ => vgaEntry 32 d.color with row := 0, column := 0 } := by
  unfold vgaClear
  rw [clearLoop_eq]

/-- The lines move up: the cell a line further down has not been stored to when it is read. -/
theorem moveLines_eq (d : Raster) :
    d.moveLines = d.paint 0 ((vgaHeight - 1) * vgaWidth) fun i => d.memory (i + vgaWidth) := by
  have flat : d.moveLines =
      forTo (fun i d => d.store (0 + i) (d.memory (i + vgaWidth))) ((vgaHeight - 1) * vgaWidth) d := by
    rw [← forTo_mul]
    unfold moveLines
    refine forTo_congr (fun y d _ => forTo_congr (fun x d _ => ?_) d) d
    rw [Nat.zero_add, Nat.succ_mul, Nat.add_right_comm]
  rw [flat]
  refine forTo_store fun i _ => ?_
  rw [Nat.zero_add]
  exact if_neg (by unfold vgaWidth; omega)

theorem clearLast_eq (d : Raster) :
    d.clearLast = d.paint ((vgaHeight - 1) * vgaWidth) vgaWidth fun _ => vgaEntry 32 d.color :=
  forTo_store fun _ _ => rfl

end Loops

section Bounds

variable {d : Raster} {lo n : Nat} {f : Nat → UInt16}

theorem paint_written (inside : lo + n ≤ vgaWidth * vgaHeight)
    (before : ∀ index ∈ d.written, index < vgaWidth * vgaHeight) :
    ∀ index ∈ (d.paint lo n f).written, index < vgaWidth * vgaHeight := by
  intro index member
  rcases List.mem_append.mp member with new | old
  · have range := List.mem_range'_1.mp (List.mem_reverse.mp new)
    omega
  · exact before index old

theorem vgaScroll_written (before : ∀ index ∈ d.written, index < vgaWidth * vgaHeight) :
    ∀ index ∈ d.vgaScroll.written, index < vgaWidth * vgaHeight := by
  unfold vgaScroll
  rw [clearLast_eq, moveLines_eq]
  exact paint_written (by decide) (paint_written (by decide) before)

theorem cleared_inBounds (memory : Nat → UInt16) (row column : Nat) (color : UInt8) (cursor : Nat) :
    (cleared memory row column color cursor).InBounds := by
  unfold cleared
  rw [vgaClear_eq]
  refine ⟨show 0 < vgaHeight by decide, show 0 < vgaWidth by decide, ?_⟩
  exact paint_written (f := fun _ => vgaEntry 32 color) (by decide) (by simp)

/-- What a character stores to is the cell at the cursor. -/
theorem putCell_written (d : Raster) (c : UInt8) :
    (d.putCell c).written = d.written ∨
      (d.putCell c).written = (d.row * vgaWidth + d.column) :: d.written := by
  unfold putCell
  split
  · exact .inl rfl
  · split
    · exact .inl rfl
    · split
      · exact .inl rfl
      · exact .inr rfl

theorem wrapLine_written (before : ∀ index ∈ d.written, index < vgaWidth * vgaHeight) :
    ∀ index ∈ d.wrapLine.written, index < vgaWidth * vgaHeight := by
  have bottom : ∀ e : Raster, (∀ index ∈ e.written, index < vgaWidth * vgaHeight) → ∀ index ∈
      (if e.row ≥ vgaHeight then { e.vgaScroll with row := vgaHeight - 1 } else e).written,
      index < vgaWidth * vgaHeight := by
    intro e inside
    by_cases below : e.row ≥ vgaHeight
    · have scrolled := vgaScroll_written inside
      rw [if_pos below]
      exact scrolled
    · rw [if_neg below]
      exact inside
  refine bottom _ ?_
  by_cases full : d.column ≥ vgaWidth
  · rw [if_pos full]
    exact before
  · rw [if_neg full]
    exact before

end Bounds

section View

variable {d : Raster}

theorem vgaScroll_view (d : Raster) : d.vgaScroll.view = Console.vgaScroll d.view := by
  have cells : (fun i : Fin (vgaWidth * vgaHeight) => d.vgaScroll.memory i) =
      (Console.vgaScroll d.view).cells := by
    funext i
    have inside : i.val < vgaWidth * vgaHeight := i.isLt
    unfold vgaScroll
    rw [clearLast_eq, moveLines_eq]
    unfold Console.vgaScroll
    by_cases next : i.val + vgaWidth < vgaWidth * vgaHeight
    · have upper : i.val < (vgaHeight - 1) * vgaWidth := by
        unfold vgaWidth vgaHeight at *
        omega
      simp [paint, next, upper, view, Nat.not_le.mpr upper]
    · have last : (vgaHeight - 1) * vgaWidth ≤ i.val := by
        unfold vgaWidth vgaHeight at *
        omega
      have upTo : i.val < (vgaHeight - 1) * vgaWidth + vgaWidth := by
        unfold vgaWidth vgaHeight at *
        omega
      simp [paint, next, last, upTo, view]
  have rest : d.vgaScroll.row = d.row ∧ d.vgaScroll.column = d.column ∧ d.vgaScroll.color = d.color ∧
      d.vgaScroll.cursor = d.cursor := by
    unfold vgaScroll
    rw [clearLast_eq, moveLines_eq]
    exact ⟨rfl, rfl, rfl, rfl⟩
  unfold view
  rw [cells, rest.1, rest.2.1, rest.2.2.1, rest.2.2.2]
  rfl

theorem vgaPutentryat_view (d : Raster) (c color : UInt8) (x y : Nat) :
    (d.vgaPutentryat c color x y).view = Console.vgaPutentryat d.view c color x y := by
  have cells : (fun i : Fin (vgaWidth * vgaHeight) => (d.vgaPutentryat c color x y).memory i) =
      (Console.vgaPutentryat d.view c color x y).cells := by
    funext i
    show Function.update d.memory (y * vgaWidth + x) (vgaEntry c color) i.val = _
    unfold Console.vgaPutentryat
    by_cases here : i.val = y * vgaWidth + x
    · simp [here]
    · simp [here, view]
  unfold view
  rw [cells]
  rfl

theorem putCell_view (d : Raster) (c : UInt8) : (d.putCell c).view = Console.putCell d.view c := by
  unfold putCell Console.putCell
  split
  · rfl
  · split
    · rfl
    · split
      · rfl
      · exact congrArg (fun v : Vga => { v with column := d.column + 1 })
          (vgaPutentryat_view d c d.color d.column d.row)

theorem wrapLine_view (d : Raster) : d.wrapLine.view = Console.wrapLine d.view := by
  unfold wrapLine Console.wrapLine
  by_cases full : d.column ≥ vgaWidth
  · have full' : d.view.column ≥ vgaWidth := full
    simp only [if_pos full, if_pos full']
    by_cases bottom : d.row + 1 ≥ vgaHeight
    · have bottom' : d.view.row + 1 ≥ vgaHeight := bottom
      rw [if_pos bottom, if_pos bottom']
      exact congrArg (fun v : Vga => { v with row := vgaHeight - 1 })
        (vgaScroll_view { d with column := 0, row := d.row + 1 })
    · have bottom' : ¬ d.view.row + 1 ≥ vgaHeight := bottom
      rw [if_neg bottom, if_neg bottom']
      rfl
  · have full' : ¬ d.view.column ≥ vgaWidth := full
    simp only [if_neg full, if_neg full']
    by_cases bottom : d.row ≥ vgaHeight
    · have bottom' : d.view.row ≥ vgaHeight := bottom
      rw [if_pos bottom, if_pos bottom']
      exact congrArg (fun v : Vga => { v with row := vgaHeight - 1 }) (vgaScroll_view d)
    · have bottom' : ¬ d.view.row ≥ vgaHeight := bottom
      rw [if_neg bottom, if_neg bottom']

/-- **The display does what `Vga` says.** -/
theorem vgaPutchar_view (d : Raster) (c : UInt8) :
    (d.vgaPutchar c).view = Console.vgaPutchar d.view c := by
  have same : (d.putCell c).wrapLine.view = Console.wrapLine (Console.putCell d.view c) := by
    rw [wrapLine_view, putCell_view]
  exact congrArg Console.vgaUpdateCursor same

/-- **A character leaves the cursor on the screen, and stores only to the screen.** -/
theorem vgaPutchar_inBounds (here : d.InBounds) (c : UInt8) : (d.vgaPutchar c).InBounds := by
  have valid := vgaPutchar_valid d.view c
  rw [← vgaPutchar_view] at valid
  refine ⟨valid.row, valid.column, wrapLine_written fun index member => ?_⟩
  rcases putCell_written d c with nothing | cell
  · exact here.written index (nothing ▸ member)
  · rw [cell] at member
    rcases List.mem_cons.mp member with new | old
    · have row := here.row
      have column := here.column
      unfold vgaWidth vgaHeight at *
      omega
    · exact here.written index old

theorem exec_inBounds (here : d.InBounds) (op : DrawOp) : (d.exec op).InBounds := by
  cases op with
  | setColor fg bg => exact ⟨here.row, here.column, here.written⟩
  | putchar c => exact vgaPutchar_inBounds here c

theorem run_inBounds (here : d.InBounds) (ops : List DrawOp) : (d.run ops).InBounds := by
  induction ops generalizing d with
  | nil => exact here
  | cons op ops ih => exact ih (exec_inBounds here op)

/-- After `vga_clear` the screen is blank in the current colour. -/
theorem cleared_view (memory : Nat → UInt16) (row column : Nat) (color : UInt8) (cursor : Nat) :
    (cleared memory row column color cursor).view =
      Console.vgaClear ⟨fun i => memory i, row, column, color, cursor⟩ := by
  have cells : (fun i : Fin (vgaWidth * vgaHeight) => (cleared memory row column color cursor).memory i) =
      fun _ => vgaEntry 32 color := by
    funext i
    have inside : i.val < 0 + vgaHeight * vgaWidth := by
      have bound : i.val < vgaWidth * vgaHeight := i.isLt
      unfold vgaWidth vgaHeight at *
      omega
    unfold cleared
    rw [vgaClear_eq]
    exact if_pos ⟨Nat.zero_le _, inside⟩
  unfold view
  rw [cells]
  unfold cleared
  rw [vgaClear_eq]
  rfl

end View

end Raster

end Kfs.Console
