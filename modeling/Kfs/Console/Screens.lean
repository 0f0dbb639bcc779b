/-
**Virtual screens: `screen.c`, `handle_screen_switch`.**

The screen that is shown lives in video memory and in the variables of the driver; the others are kept in
buffers. What a reader of screen `j` would see is `Screens.screen`: the display while `j` is shown, its
buffer otherwise. Read so, the driver is a panel of four displays with a shared colour
(`exec_view`, `run_view`), and a screen depends on nothing that is done while it is not shown
(`screens_independent`).
-/

import Kfs.Base.Panel
import Kfs.Console.Vga

namespace Kfs.Console

/-- `MAX_SCREENS`. -/
abbrev maxScreens : Nat := 4

/-- The driver, `screen_buffers`, `current_screen` and `screen_cursors`. -/
structure Screens where
  vga : Vga
  buffers : Fin maxScreens → Cells
  current : Fin maxScreens
  cursors : Fin maxScreens → Nat × Nat

/-- `screen_num < 0 || screen_num >= MAX_SCREENS` refuses a number, and the others are screens. -/
def screenIndex (screen_num : Int) : Option (Fin maxScreens) :=
  if inside : 0 ≤ screen_num ∧ screen_num < maxScreens then some ⟨screen_num.toNat, by omega⟩ else none

/-- The blank cell of `screen_init`. -/
def blank : UInt16 := (32 : UInt16) ||| (0x07 : UInt16) <<< (8 : UInt16)

/-- `screen_init`. -/
def screenInit (v : Vga) : Screens where
  vga := v
  buffers := Function.update (fun _ _ => blank) 0 v.cells
  current := 0
  cursors := fun _ => (0, 0)

/-- `screen_save`. -/
def screenSave (s : Screens) : Screens :=
  { s with
    buffers := Function.update s.buffers s.current s.vga.cells
    cursors := Function.update s.cursors s.current (s.vga.row, s.vga.column) }

/-- `screen_restore`. -/
def screenRestore (s : Screens) (screen_num : Int) : Screens :=
  match screenIndex screen_num with
  | none => s
  | some k =>
      { s with
        vga := vgaSetCursorPosition { s.vga with cells := s.buffers k } (s.cursors k).1 (s.cursors k).2 }

/-- `screen_switch`. -/
def screenSwitch (s : Screens) (screen_num : Int) : Screens :=
  match screenIndex screen_num with
  | none => s
  | some k =>
      if k = s.current then s else screenRestore { screenSave s with current := k } screen_num

/-- `handle_screen_switch`. -/
def handleScreenSwitch (s : Screens) (screen_num : Int) : Screens :=
  if screen_num < maxScreens then screenSwitch (screenSave s) screen_num else s

/-- What is done to the screens. -/
inductive ScreenOp where
  | putchar (c : UInt8)
  | setCursorPosition (row col : Nat)
  | setColor (fg bg : UInt8)
  | handleScreenSwitch (k : Fin maxScreens)
  deriving DecidableEq

/-- One operation. -/
def Screens.exec (s : Screens) : ScreenOp → Screens
  | .putchar c => { s with vga := vgaPutchar s.vga c }
  | .setCursorPosition row col => { s with vga := vgaSetCursorPosition s.vga row col }
  | .setColor fg bg => { s with vga := vgaSetColor s.vga fg bg }
  | .handleScreenSwitch k => Console.handleScreenSwitch s k.val

/-- Operations one after the other. -/
def Screens.run (s : Screens) (ops : List ScreenOp) : Screens := ops.foldl Screens.exec s

/-! ### Displays -/

/-- What is seen of a screen: its cells and its cursor. -/
structure Display where
  cells : Cells
  row : Nat
  column : Nat

/-- What the driver shows. -/
def Vga.display (v : Vga) : Display := ⟨v.cells, v.row, v.column⟩

/-- A driver that shows a display. -/
def Display.vga (d : Display) (color : UInt8) : Vga :=
  ⟨d.cells, d.row, d.column, color, d.row * vgaWidth + d.column⟩

/-- The display of a screen that was never shown. -/
def Display.blank : Display := ⟨fun _ => Console.blank, 0, 0⟩

/-- Output to a display. -/
inductive Output where
  | char (c : UInt8)
  | cursor (row col : Nat)
  deriving DecidableEq

/-- Output on a display of its own, in a given colour. -/
def Display.act (color : UInt8) : Output → Display → Display
  | .char c, d => (vgaPutchar (d.vga color) c).display
  | .cursor row col, d => (vgaSetCursorPosition (d.vga color) row col).display

/-- Four displays behind a selector, sharing a colour. -/
abbrev Displays := Panel (Fin maxScreens) UInt8 Display

/-- The operation on four displays that an operation on the screens stands for. -/
def ScreenOp.panelOp : ScreenOp → PanelOp (Fin maxScreens) UInt8 Output
  | .putchar c => .act (.char c)
  | .setCursorPosition row col => .act (.cursor row col)
  | .setColor fg bg => .share (vgaEntryColor fg bg)
  | .handleScreenSwitch k => .select k

/-- Screen `j`: the display while it is shown, what was saved of it otherwise. -/
def Screens.screen (s : Screens) (j : Fin maxScreens) : Display :=
  if j = s.current then s.vga.display else ⟨s.buffers j, (s.cursors j).1, (s.cursors j).2⟩

/-- The four displays. -/
def Screens.view (s : Screens) : Displays := ⟨s.current, s.vga.color, s.screen⟩

/-- The four displays when the screens are set up over a driver. -/
def startDisplays (v : Vga) : Displays := ⟨0, v.color, Function.update (fun _ => .blank) 0 v.display⟩

/-- The cursor of every screen is on the screen, and the hardware shows the one of the driver. -/
structure Screens.Valid (s : Screens) : Prop where
  vga : s.vga.Valid
  cursors : ∀ j, (s.cursors j).1 < vgaHeight ∧ (s.cursors j).2 < vgaWidth

section Steps

variable {v : Vga} {s : Screens}

theorem Vga.Valid.display_vga (valid : v.Valid) : v.display.vga v.color = v := by
  obtain ⟨cells, row, column, color, cursor⟩ := v
  have shown : cursor = row * vgaWidth + column := valid.cursor
  rw [shown]
  rfl

theorem screenIndex_val (k : Fin maxScreens) : screenIndex k.val = some k := by
  have inside : 0 ≤ (k.val : Int) ∧ (k.val : Int) < maxScreens :=
    ⟨Int.natCast_nonneg _, Int.ofNat_lt.mpr k.isLt⟩
  rw [screenIndex, dif_pos inside]
  rfl

theorem screenSave_valid (valid : s.Valid) : (screenSave s).Valid := by
  refine ⟨valid.vga, fun j => ?_⟩
  by_cases mine : j = s.current
  · subst mine
    simp only [screenSave, Function.update_self]
    exact ⟨valid.vga.row, valid.vga.column⟩
  · simp only [screenSave, Function.update_of_ne mine]
    exact valid.cursors j

/-- Saving is seen on no screen. -/
theorem screenSave_view (s : Screens) : (screenSave s).view = s.view := by
  have same : (screenSave s).screen = s.screen := by
    funext j
    by_cases mine : j = s.current
    · subst mine
      simp only [Screens.screen, screenSave, if_true]
    · simp only [Screens.screen, screenSave, if_neg mine, Function.update_of_ne mine]
  simp only [Screens.view, same]
  rfl

/-- The current screen is saved twice before another one is shown. -/
theorem screenSave_twice (s : Screens) : screenSave (screenSave s) = screenSave s := by
  simp only [screenSave, Function.update_idem]

/-- What a switch does: nothing beyond saving for the screen that is shown, and for another one its
buffer and its cursor are put on the display. -/
theorem handleScreenSwitch_eq (s : Screens) (k : Fin maxScreens) :
    handleScreenSwitch s k.val =
      if k = s.current then screenSave s
      else
        { screenSave s with
          current := k
          vga := vgaSetCursorPosition { s.vga with cells := s.buffers k } (s.cursors k).1
            (s.cursors k).2 } := by
  have inside : (k.val : Int) < maxScreens := Int.ofNat_lt.mpr k.isLt
  rw [handleScreenSwitch, if_pos inside]
  simp only [screenSwitch, screenIndex_val]
  by_cases same : k = s.current
  · rw [if_pos (show k = (screenSave s).current from same), if_pos same]
  · rw [if_neg (show k ≠ (screenSave s).current from same), if_neg same, screenSave_twice]
    simp only [screenRestore, screenIndex_val]
    simp only [screenSave, Function.update_of_ne same]

/-- Showing a screen whose cursor is on the screen shows its cells and that cursor. -/
theorem restored (cells : Cells) {row col : Nat} (row_lt : row < vgaHeight) (col_lt : col < vgaWidth) :
    (vgaSetCursorPosition { v with cells := cells } row col).display = ⟨cells, row, col⟩ ∧
      (vgaSetCursorPosition { v with cells := cells } row col).Valid := by
  rw [vgaSetCursorPosition, if_pos ⟨row_lt, col_lt⟩]
  exact ⟨rfl, vgaUpdateCursor_valid row_lt col_lt⟩

theorem handleScreenSwitch_valid (valid : s.Valid) (k : Fin maxScreens) :
    (handleScreenSwitch s k.val).Valid := by
  rw [handleScreenSwitch_eq]
  have saved := screenSave_valid valid
  obtain ⟨row, column⟩ := valid.cursors k
  split
  · exact saved
  · exact ⟨(restored _ row column).2, saved.cursors⟩

/-- **A switch selects the screen, and is seen on no screen.** -/
theorem handleScreenSwitch_view (valid : s.Valid) (k : Fin maxScreens) :
    (handleScreenSwitch s k.val).view = { s.view with selected := k } := by
  rw [handleScreenSwitch_eq]
  by_cases same : k = s.current
  · rw [if_pos same, screenSave_view, same]
    rfl
  · rw [if_neg same]
    obtain ⟨row, column⟩ := valid.cursors k
    have shown := (restored (v := s.vga) (s.buffers k) row column).1
    have screens : ∀ j, Screens.screen { screenSave s with
        current := k
        vga := vgaSetCursorPosition { s.vga with cells := s.buffers k } (s.cursors k).1
          (s.cursors k).2 } j = s.screen j := by
      intro j
      by_cases mine : j = k
      · subst mine
        simp only [Screens.screen, if_true, if_neg same]
        exact shown
      · by_cases left : j = s.current
        · subst left
          simp only [Screens.screen, screenSave, if_neg mine, if_true, Function.update_self]
          rfl
        · simp only [Screens.screen, screenSave, if_neg mine, if_neg left,
            Function.update_of_ne left]
    simp only [Screens.view, funext screens, vgaSetCursorPosition_color]

/-- Output is seen on the screen that is shown only. -/
theorem output_view (vga : Vga) (color : vga.color = s.vga.color) :
    Screens.view { s with vga := vga } =
      { s.view with part := Function.update s.view.part s.current vga.display } := by
  have screens : Screens.screen { s with vga := vga } =
      Function.update s.screen s.current vga.display := by
    funext j
    by_cases mine : j = s.current
    · subst mine
      simp only [Screens.screen, if_true, Function.update_self]
    · simp only [Screens.screen, if_neg mine, Function.update_of_ne mine]
  simp only [Screens.view, screens, color]

theorem Screens.Valid.exec (valid : s.Valid) (op : ScreenOp) : (s.exec op).Valid := by
  cases op with
  | putchar c => exact ⟨vgaPutchar_valid s.vga c, valid.cursors⟩
  | setCursorPosition row col => exact ⟨vgaSetCursorPosition_valid valid.vga row col, valid.cursors⟩
  | setColor fg bg => exact ⟨⟨valid.vga.row, valid.vga.column, valid.vga.cursor⟩, valid.cursors⟩
  | handleScreenSwitch k => exact handleScreenSwitch_valid valid k

/-- **One operation on the screens is one operation on four displays.** -/
theorem exec_view (valid : s.Valid) (op : ScreenOp) :
    (s.exec op).view = s.view.exec Display.act op.panelOp := by
  have shown : s.screen s.current = s.vga.display := if_pos rfl
  cases op with
  | putchar c =>
      show Screens.view { s with vga := vgaPutchar s.vga c } = _
      rw [output_view _ (vgaPutchar_color s.vga c)]
      simp only [ScreenOp.panelOp, Panel.exec, Screens.view, Display.act, shown,
        valid.vga.display_vga]
  | setCursorPosition row col =>
      show Screens.view { s with vga := vgaSetCursorPosition s.vga row col } = _
      rw [output_view _ (vgaSetCursorPosition_color s.vga row col)]
      simp only [ScreenOp.panelOp, Panel.exec, Screens.view, Display.act, shown,
        valid.vga.display_vga]
  | setColor fg bg => rfl
  | handleScreenSwitch k => exact handleScreenSwitch_view valid k

end Steps

section Runs

variable {v : Vga} {s : Screens}

theorem screenInit_valid (valid : v.Valid) : (screenInit v).Valid :=
  ⟨valid, fun _ => ⟨show 0 < vgaHeight by decide, show 0 < vgaWidth by decide⟩⟩

theorem screenInit_view (v : Vga) : (screenInit v).view = startDisplays v := by
  have screens : (screenInit v).screen = Function.update (fun _ => .blank) 0 v.display := by
    funext j
    by_cases first : j = 0
    · subst first
      rfl
    · simp only [Screens.screen, screenInit, if_neg first, Function.update_of_ne first]
      rfl
  simp only [Screens.view, startDisplays, screens]
  rfl

theorem Screens.Valid.run (valid : s.Valid) (ops : List ScreenOp) : (s.run ops).Valid := by
  induction ops generalizing s with
  | nil => exact valid
  | cons op ops ih => exact ih (valid.exec op)

/-- **A run on the screens is a run on four displays.** -/
theorem run_view (valid : s.Valid) (ops : List ScreenOp) :
    (s.run ops).view = s.view.run Display.act (ops.map ScreenOp.panelOp) := by
  induction ops generalizing s with
  | nil => rfl
  | cons op ops ih =>
      show ((s.exec op).run ops).view = _
      rw [ih (valid.exec op), exec_view valid op]
      rfl

theorem run_append (s : Screens) (first second : List ScreenOp) :
    s.run (first ++ second) = (s.run first).run second := List.foldl_append

theorem select_mem {j : Fin maxScreens} {ops : List ScreenOp}
    (never : .handleScreenSwitch j ∉ ops) : .select j ∉ ops.map ScreenOp.panelOp := by
  intro found
  obtain ⟨op, member, equal⟩ := List.mem_map.mp found
  cases op with
  | putchar c => cases equal
  | setCursorPosition row col => cases equal
  | setColor fg bg => cases equal
  | handleScreenSwitch k =>
      cases equal
      exact never member

/-- A screen that is not shown, and not switched to, stays as it is. -/
theorem screen_away (valid : s.Valid) {j : Fin maxScreens} {ops : List ScreenOp}
    (other : j ≠ s.current) (never : .handleScreenSwitch j ∉ ops) :
    (s.run ops).screen j = s.screen j := by
  have away : ((s.view.run Display.act (ops.map ScreenOp.panelOp)).part j = s.view.part j) :=
    (Panel.run_part_away other (select_mem never)).1
  rwa [← run_view valid] at away

theorem switch_current (valid : s.Valid) (k : Fin maxScreens) :
    (s.exec (.handleScreenSwitch k)).current = k :=
  congrArg Panel.selected (handleScreenSwitch_view valid k)

theorem switch_screen (valid : s.Valid) (k : Fin maxScreens) :
    (s.exec (.handleScreenSwitch k)).screen = s.screen :=
  congrArg Panel.part (handleScreenSwitch_view valid k)

/-- Switching to a screen shows it. -/
theorem switch_shows (valid : s.Valid) (j : Fin maxScreens) :
    (s.exec (.handleScreenSwitch j)).vga.display = s.screen j := by
  rw [← switch_screen valid j, Screens.screen, if_pos (switch_current valid j).symm]

/-- A screen comes back as it was left. -/
theorem switch_returns (valid : s.Valid) {k : Fin maxScreens} {rest : List ScreenOp}
    (different : s.current ≠ k) (never : .handleScreenSwitch s.current ∉ rest) :
    (s.run (.handleScreenSwitch k :: rest ++ [.handleScreenSwitch s.current])).vga.display =
      s.vga.display := by
  have moved := valid.exec (.handleScreenSwitch k)
  have other : s.current ≠ (s.exec (.handleScreenSwitch k)).current := by
    rwa [switch_current valid k]
  rw [run_append]
  show (((s.exec (.handleScreenSwitch k)).run rest).exec
    (.handleScreenSwitch s.current)).vga.display = _
  rw [switch_shows (moved.run rest), screen_away moved other never, switch_screen valid]
  exact if_pos rfl

/-- **Virtual screens do not interfere.** Whatever is written, wherever the cursor is set and in whatever
order the screens are shown, the driver shows the selected one of four displays that share the colour;
each of them is what was output while it was shown makes of it; an operation changes the screen that is
shown only; a screen comes back as it was left; and one that was never shown comes up blank, with the
cursor at the origin. -/
theorem screens_independent (valid : v.Valid) :
    (∀ ops, ((screenInit v).run ops).view =
        (startDisplays v).run Display.act (ops.map ScreenOp.panelOp) ∧
      ((screenInit v).run ops).vga.display =
        ((screenInit v).run ops).screen ((screenInit v).run ops).current ∧
      ((screenInit v).run ops).vga.cursor =
        ((screenInit v).run ops).vga.row * vgaWidth + ((screenInit v).run ops).vga.column) ∧
    (∀ ops j, ((screenInit v).run ops).screen j =
      Panel.replay Display.act (if j = 0 then v.display else .blank)
        (Panel.actions j 0 v.color (ops.map ScreenOp.panelOp))) ∧
    (∀ ops op j, j ≠ ((screenInit v).run ops).current →
      ((screenInit v).run (ops ++ [op])).screen j = ((screenInit v).run ops).screen j) ∧
    (∀ before k rest j, ((screenInit v).run before).current = j → j ≠ k →
      .handleScreenSwitch j ∉ rest →
      ((screenInit v).run
          (before ++ .handleScreenSwitch k :: rest ++ [.handleScreenSwitch j])).vga.display =
        ((screenInit v).run before).vga.display) ∧
    (∀ ops j, j ≠ 0 → .handleScreenSwitch j ∉ ops →
      ((screenInit v).run (ops ++ [.handleScreenSwitch j])).vga.display = .blank) := by
  have start := screenInit_valid valid
  have view : ∀ ops, ((screenInit v).run ops).view =
      (startDisplays v).run Display.act (ops.map ScreenOp.panelOp) := fun ops => by
    rw [run_view start, screenInit_view]
  refine ⟨fun ops => ⟨view ops, (if_pos rfl).symm, (start.run ops).vga.cursor⟩, fun ops j => ?_,
    fun ops op j other => ?_, fun before k rest j shown different never => ?_,
    fun ops j first never => ?_⟩
  · have part : ((screenInit v).run ops).screen j = _ := congrFun (congrArg Panel.part (view ops)) j
    rw [part, Panel.run_part]
    simp only [startDisplays, Function.update_apply]
  · rw [run_append]
    show (((screenInit v).run ops).exec op).view.part j = _
    rw [exec_view (start.run ops)]
    exact Panel.exec_part_other other _
  · subst shown
    rw [List.append_assoc, run_append]
    exact switch_returns (start.run before) different never
  · rw [run_append]
    show (((screenInit v).run ops).exec (.handleScreenSwitch j)).vga.display = _
    rw [switch_shows (start.run ops), screen_away start first never]
    have part : (screenInit v).screen j = (startDisplays v).part j :=
      congrFun (congrArg Panel.part (screenInit_view v)) j
    rw [part]
    simp only [startDisplays, Function.update_of_ne first]

/-- A letter on the first screen is still there, and alone, after one was written on the second. -/
theorem screens_independent_letters :
    (vgaInit fun _ => 0).Valid ∧
      ((screenInit (vgaInit fun _ => 0)).run [.putchar 65, .handleScreenSwitch 1, .putchar 66,
          .handleScreenSwitch 0]).vga.display =
        ((screenInit (vgaInit fun _ => 0)).run [.putchar 65]).vga.display := by
  have valid := vgaInit_valid fun _ => 0
  exact ⟨valid, (screens_independent valid).2.2.2.1 [.putchar 65] 1 [.putchar 66] 0 rfl (by decide)
    (by decide)⟩

end Runs

end Kfs.Console
