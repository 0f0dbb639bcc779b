/-
**The console as the end of an unbounded page.**

A page is what a terminal of 80 columns without an end would hold: all its lines are kept, and the cursor
opens a new one, blank in the current colour, when it goes past the last. The screen shows the last 25 lines
of the page of everything that was printed: `screen_shows_page`.
-/

import Kfs.Console.Drawing

namespace Kfs.Console

/-- The lines of a terminal without an end, the cursor in them, and the colour. -/
structure Page where
  cells : Nat → Nat → UInt16
  height : Nat
  row : Nat
  column : Nat
  color : UInt8

namespace Page

/-- A page of one screen of blank lines. -/
def cleared (color : UInt8) : Page := ⟨fun _ _ => vgaEntry 32 color, vgaHeight, 0, 0, color⟩

/-- Put a character at the cursor. -/
def write (p : Page) (c : UInt8) : Page :=
  { p with cells := Function.update p.cells p.row (Function.update (p.cells p.row) p.column (vgaEntry c p.color)) }

/-- Type a character: a newline, a carriage return, a tab to the next stop, or a character that is seen. -/
def type (p : Page) (c : UInt8) : Page :=
  if c = 10 then { p with column := 0, row := p.row + 1 }
  else if c = 13 then { p with column := 0 }
  else if c = 9 then { p with column := (p.column / 4 + 1) * 4 }
  else { p.write c with column := p.column + 1 }

/-- Go on in the next line after the last column. -/
def wrap (p : Page) : Page := if p.column < vgaWidth then p else { p with column := 0, row := p.row + 1 }

/-- Open a line after the last one. -/
def openLine (p : Page) : Page :=
  if p.row < p.height then p
  else { p with cells := Function.update p.cells p.height fun _ => vgaEntry 32 p.color, height := p.height + 1 }

/-- One call. -/
def exec (p : Page) : DrawOp → Page
  | .setColor fg bg => { p with color := vgaEntryColor fg bg }
  | .putchar c => (p.type c).wrap.openLine

/-- Calls one after the other. -/
def run (p : Page) (ops : List DrawOp) : Page := ops.foldl exec p

/-- The last 25 lines. -/
def shown (p : Page) : Cells := fun i => p.cells (p.height - vgaHeight + i.val / vgaWidth) (i.val % vgaWidth)

end Page

/-- The display shows the end of the page, with the cursor in the same place. -/
structure Shows (v : Vga) (p : Page) : Prop where
  cells : v.cells = p.shown
  row : p.height + v.row = p.row + vgaHeight
  column : v.column = p.column
  color : v.color = p.color
  tall : vgaHeight ≤ p.height

section Shown

variable {v : Vga} {p : Page}

theorem Shows.cleared (v : Vga) : Shows (vgaClear v) (.cleared v.color) :=
  ⟨rfl, rfl, rfl, rfl, le_rfl⟩

/-- The cell of the screen at the cursor is the cell of the page at the cursor. -/
theorem Shows.putentry (agrees : Shows v p) (column : v.column < vgaWidth) (c : UInt8) :
    (vgaPutentryat v c v.color v.column v.row).cells = (p.write c).shown := by
  funext i
  have row := agrees.row
  have tall := agrees.tall
  have before : v.cells i = p.shown i := congrFun agrees.cells i
  show (if i.val = v.row * vgaWidth + v.column then vgaEntry c v.color else v.cells i) =
    Function.update p.cells p.row (Function.update (p.cells p.row) p.column (vgaEntry c p.color))
      (p.height - vgaHeight + i.val / vgaWidth) (i.val % vgaWidth)
  unfold vgaWidth at column
  by_cases line : p.height - vgaHeight + i.val / vgaWidth = p.row
  · rw [line, Function.update_self]
    by_cases here : i.val % vgaWidth = p.column
    · have cell : i.val = v.row * vgaWidth + v.column := by
        rw [agrees.column, ← here]
        unfold vgaWidth at *
        omega
      rw [if_pos cell, here, Function.update_self, agrees.color]
    · have cell : i.val ≠ v.row * vgaWidth + v.column := by
        rw [agrees.column] at *
        unfold vgaWidth at *
        omega
      rw [if_neg cell, Function.update_of_ne here, before, ← line]
      rfl
  · have cell : i.val ≠ v.row * vgaWidth + v.column := by
      unfold vgaWidth at *
      omega
    rw [if_neg cell, Function.update_of_ne line, before]
    rfl

theorem Shows.type (agrees : Shows v p) (column : v.column < vgaWidth) (c : UInt8) :
    Shows (putCell v c) (p.type c) := by
  unfold putCell Page.type
  have row := agrees.row
  by_cases newline : c = 10
  · rw [if_pos newline, if_pos newline]
    exact ⟨agrees.cells, by show p.height + (v.row + 1) = p.row + 1 + vgaHeight; omega, rfl, agrees.color,
      agrees.tall⟩
  rw [if_neg newline, if_neg newline]
  by_cases back : c = 13
  · rw [if_pos back, if_pos back]
    exact ⟨agrees.cells, row, rfl, agrees.color, agrees.tall⟩
  rw [if_neg back, if_neg back]
  by_cases tab : c = 9
  · rw [if_pos tab, if_pos tab]
    refine ⟨agrees.cells, row, ?_, agrees.color, agrees.tall⟩
    show (v.column + 4) / 4 * 4 = (p.column / 4 + 1) * 4
    rw [agrees.column, Nat.add_div_right _ (by decide)]
  · rw [if_neg tab, if_neg tab]
    exact ⟨agrees.putentry column c, row, congrArg (· + 1) agrees.column, agrees.color, agrees.tall⟩

/-- A character moves the cursor down by at most one line, and to the first column if it does. -/
theorem type_row (p : Page) (c : UInt8) :
    (p.type c).height = p.height ∧
      ((p.type c).row = p.row ∨ ((p.type c).row = p.row + 1 ∧ (p.type c).column = 0)) := by
  unfold Page.type
  split
  · exact ⟨rfl, .inr ⟨rfl, rfl⟩⟩
  · split
    · exact ⟨rfl, .inl rfl⟩
    · split
      · exact ⟨rfl, .inl rfl⟩
      · exact ⟨rfl, .inl rfl⟩

/-- The first part of `wrapLine`. -/
def nextLine (v : Vga) : Vga := if v.column ≥ vgaWidth then { v with column := 0, row := v.row + 1 } else v

/-- The second part of `wrapLine`. -/
def nextScreen (v : Vga) : Vga := if v.row ≥ vgaHeight then { vgaScroll v with row := vgaHeight - 1 } else v

theorem wrapLine_parts (v : Vga) : wrapLine v = nextScreen (nextLine v) := rfl

theorem Shows.wrap (agrees : Shows v p) : Shows (nextLine v) p.wrap := by
  have row := agrees.row
  unfold nextLine Page.wrap
  by_cases inside : p.column < vgaWidth
  · rw [if_pos inside, if_neg (by rw [agrees.column]; exact not_le.mpr inside)]
    exact agrees
  · rw [if_neg inside, if_pos (by rw [agrees.column]; exact not_lt.mp inside)]
    exact ⟨agrees.cells, by show p.height + (v.row + 1) = p.row + 1 + vgaHeight; omega, rfl, agrees.color,
      agrees.tall⟩

/-- After the end of a line the cursor is at most one line past the page. -/
theorem wrap_row (inside : p.row < p.height) (c : UInt8) :
    (p.type c).wrap.row ≤ (p.type c).wrap.height := by
  obtain ⟨height, row | ⟨row, column⟩⟩ := type_row p c
  · unfold Page.wrap
    split
    · rw [row, height]
      exact inside.le
    · show (p.type c).row + 1 ≤ (p.type c).height
      rw [row, height]
      exact inside
  · unfold Page.wrap
    rw [if_pos (by rw [column]; decide), row, height]
    exact inside

/-- **The screen scrolls when the page grows**: the lines shown move up by one, and the last one is the
new line of the page. -/
theorem Shows.openLine (agrees : Shows v p) (next : p.row ≤ p.height) : Shows (nextScreen v) p.openLine := by
  have row := agrees.row
  have tall := agrees.tall
  unfold nextScreen Page.openLine
  by_cases inside : p.row < p.height
  · rw [if_pos inside, if_neg (by omega)]
    exact agrees
  have below : v.row ≥ vgaHeight := by omega
  rw [if_neg inside, if_pos below]
  refine ⟨?_, ?_, agrees.column, agrees.color, Nat.le_succ_of_le tall⟩
  · funext i
    have bound : i.val < vgaWidth * vgaHeight := i.isLt
    show (if next : i.val + vgaWidth < vgaWidth * vgaHeight then v.cells ⟨i.val + vgaWidth, next⟩
        else vgaEntry 32 v.color) =
      Function.update p.cells p.height (fun _ => vgaEntry 32 p.color)
        (p.height + 1 - vgaHeight + i.val / vgaWidth) (i.val % vgaWidth)
    by_cases upper : i.val + vgaWidth < vgaWidth * vgaHeight
    · have line : p.height + 1 - vgaHeight + i.val / vgaWidth =
          p.height - vgaHeight + (i.val + vgaWidth) / vgaWidth := by
        unfold vgaWidth at *
        omega
      have old : p.height - vgaHeight + (i.val + vgaWidth) / vgaWidth ≠ p.height := by
        unfold vgaWidth vgaHeight at *
        omega
      rw [dif_pos upper, line, Function.update_of_ne old, agrees.cells, ← Nat.add_mod_right]
      rfl
    · have last : p.height + 1 - vgaHeight + i.val / vgaWidth = p.height := by
        unfold vgaWidth vgaHeight at *
        omega
      rw [dif_neg upper, last, Function.update_self, agrees.color]
  · show p.height + 1 + (vgaHeight - 1) = p.row + vgaHeight
    have positive : 0 < vgaHeight := by decide
    omega

theorem openLine_row (next : p.row ≤ p.height) : p.openLine.row < p.openLine.height := by
  unfold Page.openLine
  by_cases inside : p.row < p.height
  · rw [if_pos inside]
    exact inside
  · rw [if_neg inside]
    exact Nat.lt_succ_of_le next

/-- **One call.** -/
theorem Shows.putchar (agrees : Shows v p) (inside : p.row < p.height) (column : v.column < vgaWidth)
    (c : UInt8) : Shows (vgaPutchar v c) (p.exec (.putchar c)) := by
  have printed : Shows (wrapLine (putCell v c)) (p.type c).wrap.openLine := by
    rw [wrapLine_parts]
    exact ((agrees.type column c).wrap).openLine (wrap_row inside c)
  exact ⟨printed.cells, printed.row, printed.column, printed.color, printed.tall⟩

theorem exec_row (inside : p.row < p.height) (op : DrawOp) : (p.exec op).row < (p.exec op).height := by
  cases op with
  | setColor fg bg => exact inside
  | putchar c => exact openLine_row (wrap_row inside c)

end Shown

/-- **What the screen shows after any calls is the end of the page of the same calls.** -/
theorem run_shows {d : Raster} {p : Page} (bounds : d.InBounds) (agrees : Shows d.view p)
    (inside : p.row < p.height) (ops : List DrawOp) : Shows (d.run ops).view (p.run ops) := by
  induction ops generalizing d p with
  | nil => exact agrees
  | cons op ops ih =>
      refine ih (Raster.exec_inBounds bounds op) ?_ (exec_row inside op)
      cases op with
      | setColor fg bg => exact ⟨agrees.cells, agrees.row, agrees.column, rfl, agrees.tall⟩
      | putchar c =>
          show Shows (d.vgaPutchar c).view (p.exec (.putchar c))
          rw [Raster.vgaPutchar_view]
          exact agrees.putchar inside bounds.column c

/-- **The console shows the last 25 rows of an unbounded terminal**: from a cleared screen, after any
calls, the cursor is on the screen, only cells of the screen have been stored to, and row `y` of the screen
is line `height - 25 + y` of the page. -/
theorem screen_shows_page (memory : Nat → UInt16) (row column : Nat) (color : UInt8) (cursor : Nat)
    (ops : List DrawOp) :
    let d := (Raster.cleared memory row column color cursor).run ops
    let p := (Page.cleared color).run ops
    d.row < 25 ∧ d.column < 80 ∧ (∀ index ∈ d.written, index < 2000) ∧ 25 ≤ p.height ∧
      ∀ y < 25, ∀ x < 80, d.memory (y * 80 + x) = p.cells (p.height - 25 + y) x := by
  intro d p
  have bounds : d.InBounds := Raster.run_inBounds (Raster.cleared_inBounds memory row column color cursor) ops
  have start : Shows (Raster.cleared memory row column color cursor).view (.cleared color) := by
    rw [Raster.cleared_view]
    exact .cleared _
  have agrees : Shows d.view p :=
    run_shows (Raster.cleared_inBounds memory row column color cursor) start (show 0 < vgaHeight by decide) ops
  refine ⟨bounds.row, bounds.column, bounds.written, agrees.tall, fun y inY x inX => ?_⟩
  have cell : y * 80 + x < vgaWidth * vgaHeight := by
    unfold vgaWidth vgaHeight
    omega
  have same := congrFun agrees.cells ⟨y * 80 + x, cell⟩
  have line : (y * 80 + x) / vgaWidth = y := by
    unfold vgaWidth
    omega
  have place : (y * 80 + x) % vgaWidth = x := by
    unfold vgaWidth
    omega
  calc d.memory (y * 80 + x) = p.cells (p.height - vgaHeight + (y * 80 + x) / vgaWidth)
        ((y * 80 + x) % vgaWidth) := same
    _ = p.cells (p.height - 25 + y) x := by
        rw [line, place]
        rfl

end Kfs.Console
