/-
**Scrolling back: `scrollback.c`.**

Lines go into a ring of 200. The first call that scrolls up saves the screen and shows lines of the ring in
its place; scrolling down to the bottom puts the screen back. Where a call goes past the bottom the driver
has already cleared `is_scrolled` when it asks for the screen to be put back, and nothing is. The screen is
restored after every call in exactly the runs without such a call: `scroll_restores_iff`.
-/

import Kfs.Base.Trace
import Kfs.Console.Screens

namespace Kfs.Console

/-- `SCROLLBACK_LINES`. -/
def scrollbackLines : Nat := 200

/-- A line of the screen. -/
abbrev Line := Fin vgaWidth → UInt16

theorem column_lt (i : Fin (vgaWidth * vgaHeight)) : i.val % vgaWidth < vgaWidth := Nat.mod_lt _ (by decide)

/-- The column of a cell. -/
def columnOf (i : Fin (vgaWidth * vgaHeight)) : Fin vgaWidth := ⟨i.val % vgaWidth, column_lt i⟩

/-- Video memory, `scrollback_buffer`, `scrollback_head`, `scrollback_count`, `scrollback_offset`,
`saved_screen` and `is_scrolled`. -/
structure Scrollback where
  vga : Cells
  buffer : Nat → Line
  head : Nat
  count : Nat
  offset : Int
  saved : Cells
  isScrolled : Bool

namespace Scrollback

/-- `scrollback_init`. -/
def scrollbackInit (s : Scrollback) : Scrollback :=
  { s with
    buffer := fun i => if i < scrollbackLines then fun _ => blank else s.buffer i
    head := 0
    count := 0
    offset := 0
    isScrolled := false }

/-- `scrollback_add_line`. -/
def scrollbackAddLine (s : Scrollback) (lineData : Line) : Scrollback :=
  if s.isScrolled then s
  else
    { s with
      buffer := Function.update s.buffer s.head lineData
      head := (s.head + 1) % scrollbackLines
      count := if s.count < scrollbackLines then s.count + 1 else s.count }

/-- `scrollback_reset`. -/
def scrollbackReset (s : Scrollback) : Scrollback :=
  let s := if s.isScrolled then { s with vga := s.saved, isScrolled := false } else s
  { s with offset := 0 }

/-- `scrollback_offset + delta`. -/
def moved (s : Scrollback) (delta : Int32) : Int := (s.offset + delta.toInt).bmod (2 ^ 32)

/-- `max_offset`. -/
def maxOffset (s : Scrollback) : Int :=
  if (s.count : Int) - vgaHeight < 0 then 0 else (s.count : Int) - vgaHeight

/-- Character `i` of the indicator. -/
def indicatorCell (i : Nat) : UInt16 :=
  ("[SCROLL]".toList.getD i '\x00').toNat.toUInt16 ||| (14 : UInt16) <<< (8 : UInt16)

/-- `start_line`. -/
def startLine (s : Scrollback) : Nat := ((s.count : Int) - vgaHeight - s.offset).toNat

/-- The view: the lines from `start_line` on, and the indicator in the first row. -/
def rendered (s : Scrollback) : Cells := fun i =>
  if vgaWidth - 8 ≤ i.val ∧ i.val < vgaWidth then indicatorCell (i.val - (vgaWidth - 8))
  else if s.startLine + i.val / vgaWidth < s.count then
    s.buffer ((s.startLine + i.val / vgaWidth) % scrollbackLines) (columnOf i)
  else blank

/-- The screen is saved when scrolling starts. -/
def saveScreen (s : Scrollback) (delta : Int32) : Scrollback :=
  if s.isScrolled = false ∧ 0 < delta.toInt then { s with saved := s.vga, isScrolled := true } else s

/-- The offset is changed and clamped. Past the bottom, `is_scrolled` is cleared before the reset. -/
def moveOffset (s : Scrollback) (delta : Int32) : Scrollback :=
  let offset := s.moved delta
  if offset < 0 then
    if delta.toInt < 0 then { s with offset := 0, isScrolled := false }.scrollbackReset
    else { s with offset := 0 }
  else if s.maxOffset < offset then { s with offset := s.maxOffset }
  else { s with offset := offset }

/-- The saved screen at the bottom, a view of the ring above it. -/
def redraw (s : Scrollback) : Scrollback :=
  if s.isScrolled ∧ s.offset = 0 then { s with vga := s.saved, isScrolled := false }
  else if s.isScrolled then { s with vga := s.rendered }
  else s

/-- `scrollback_scroll`. -/
def scrollbackScroll (s : Scrollback) (delta : Int32) : Scrollback :=
  if delta = 0 then s else ((s.saveScreen delta).moveOffset delta).redraw

/-- The screen and the lines added since `scrollback_init`. -/
def afterLines (s : Scrollback) (lines : List Line) : Scrollback :=
  lines.foldl scrollbackAddLine s.scrollbackInit

/-- One call of `scrollback_scroll`. -/
def ScrollStep (s : Scrollback) (delta : Int32) (t : Scrollback) : Prop := s.scrollbackScroll delta = t

/-- At the bottom the screen is what it was, and the offset is 0. -/
def AtBottom (screen : Cells) (s : Scrollback) : Prop := s.isScrolled = false → s.vga = screen ∧ s.offset = 0

/-- The call does not go past the bottom from a view of the ring, unless the view looks like the screen. -/
def Lands (s : Scrollback) (delta : Int32) : Prop :=
  s.isScrolled = true → delta.toInt < 0 → s.offset + delta.toInt < 0 → s.vga = s.saved

/-- Between calls: the count and the offset are in their ranges, and the saved screen is the one before
the first scroll. -/
structure Inv (screen : Cells) (s : Scrollback) : Prop where
  count : s.count ≤ scrollbackLines
  nonneg : 0 ≤ s.offset
  most : s.offset ≤ s.maxOffset
  saved : s.isScrolled = true → s.saved = screen

section Scrolling

variable {s t : Scrollback} {delta : Int32} {screen : Cells} {lines : List Line} {line : Line}

theorem maxOffset_nonneg (s : Scrollback) : 0 ≤ s.maxOffset := by
  unfold maxOffset
  split
  · exact le_rfl
  · omega

theorem maxOffset_le (count : s.count ≤ scrollbackLines) : s.maxOffset ≤ 175 := by
  unfold maxOffset vgaHeight scrollbackLines at *
  split
  · decide
  · omega

/-- The sum does not overflow on the way down. -/
theorem Inv.moved_eq (inv : Inv screen s) (down : delta.toInt < 0) : s.moved delta = s.offset + delta.toInt := by
  have nonneg := inv.nonneg
  have most := inv.most.trans (maxOffset_le inv.count)
  have least := Int32.le_toInt delta
  exact Int.bmod_eq_of_le (by omega) (by omega)

theorem saveScreen_down (down : delta.toInt < 0) : s.saveScreen delta = s :=
  if_neg fun both => absurd both.2 (by omega)

/-- The screen is saved, or scrolling has started before or goes down. -/
theorem saveScreen_cases (s : Scrollback) (delta : Int32) :
    (s.isScrolled = false ∧ s.saveScreen delta = { s with saved := s.vga, isScrolled := true }) ∨
      ((s.isScrolled = true ∨ delta.toInt ≤ 0) ∧ s.saveScreen delta = s) := by
  unfold saveScreen
  by_cases starts : s.isScrolled = false ∧ 0 < delta.toInt
  · exact .inl ⟨starts.1, if_pos starts⟩
  · refine .inr ⟨?_, if_neg starts⟩
    by_contra neither
    obtain ⟨up, positive⟩ := not_or.mp neither
    exact starts ⟨Bool.eq_false_iff.mpr up, not_le.mp positive⟩

theorem Inv.saveScreen (inv : Inv screen s) (bottom : AtBottom screen s) (delta : Int32) :
    Inv screen (s.saveScreen delta) := by
  rcases saveScreen_cases s delta with ⟨idle, same⟩ | ⟨_, same⟩
  · rw [same]
    exact ⟨inv.count, inv.nonneg, inv.most, fun _ => (bottom idle).1⟩
  · rw [same]
    exact inv

/-- Past the bottom, or to an offset within the history. -/
theorem moveOffset_cases (s : Scrollback) (delta : Int32) :
    (delta.toInt < 0 ∧ s.moved delta < 0 ∧ s.moveOffset delta = { s with offset := 0, isScrolled := false }) ∨
      ∃ offset, 0 ≤ offset ∧ offset ≤ s.maxOffset ∧ (delta.toInt < 0 → 0 ≤ s.moved delta) ∧
        s.moveOffset delta = { s with offset := offset } := by
  unfold moveOffset
  by_cases below : s.moved delta < 0
  · simp only [if_pos below]
    by_cases down : delta.toInt < 0
    · rw [if_pos down]
      exact .inl ⟨down, below, rfl⟩
    · rw [if_neg down]
      exact .inr ⟨0, le_rfl, maxOffset_nonneg s, fun wrong => absurd wrong down, rfl⟩
  · simp only [if_neg below]
    by_cases above : s.maxOffset < s.moved delta
    · rw [if_pos above]
      exact .inr ⟨s.maxOffset, maxOffset_nonneg s, le_rfl, fun _ => not_lt.mp below, rfl⟩
    · rw [if_neg above]
      exact .inr ⟨s.moved delta, not_lt.mp below, not_lt.mp above, fun _ => not_lt.mp below, rfl⟩

/-- The screen is put back, a view is drawn, or nothing is scrolled. -/
theorem redraw_cases (s : Scrollback) :
    (s.isScrolled = true ∧ s.offset = 0 ∧ s.redraw = { s with vga := s.saved, isScrolled := false }) ∨
      (s.isScrolled = true ∧ s.offset ≠ 0 ∧ s.redraw = { s with vga := s.rendered }) ∨
      (s.isScrolled = false ∧ s.redraw = s) := by
  unfold redraw
  cases scrolled : s.isScrolled with
  | false => exact .inr (.inr ⟨rfl, by simp⟩)
  | true =>
      by_cases bottom : s.offset = 0
      · exact .inl ⟨rfl, bottom, if_pos ⟨rfl, bottom⟩⟩
      · refine .inr (.inl ⟨rfl, bottom, ?_⟩)
        rw [if_neg fun both => bottom both.2]
        exact if_pos rfl

/-- **What a call does**: nothing, a step past the bottom, or a redraw at an offset within the history. -/
theorem scroll_cases (s : Scrollback) (delta : Int32) :
    (delta = 0 ∧ s.scrollbackScroll delta = s) ∨
      (delta.toInt < 0 ∧ s.moved delta < 0 ∧
        s.scrollbackScroll delta = { s with offset := 0, isScrolled := false }) ∨
      ∃ offset, 0 ≤ offset ∧ offset ≤ s.maxOffset ∧ delta ≠ 0 ∧ (delta.toInt < 0 → 0 ≤ s.moved delta) ∧
        s.scrollbackScroll delta = { s.saveScreen delta with offset := offset }.redraw := by
  by_cases zero : delta = 0
  · exact .inl ⟨zero, if_pos zero⟩
  have unfolded : s.scrollbackScroll delta = ((s.saveScreen delta).moveOffset delta).redraw := if_neg zero
  have history : (s.saveScreen delta).maxOffset = s.maxOffset ∧ (s.saveScreen delta).moved delta = s.moved delta := by
    unfold saveScreen
    split
    · exact ⟨rfl, rfl⟩
    · exact ⟨rfl, rfl⟩
  rw [unfolded]
  rcases moveOffset_cases (s.saveScreen delta) delta with ⟨down, below, past⟩ | ⟨offset, least, most, lands, here⟩
  · rw [past, saveScreen_down down]
    exact .inr (.inl ⟨down, history.2 ▸ below, rfl⟩)
  · rw [here]
    exact .inr (.inr ⟨offset, least, history.1 ▸ most, zero, fun down => history.2 ▸ lands down, rfl⟩)

/-- The redraw keeps the invariant. -/
theorem Inv.redraw (inv : Inv screen s) : Inv screen s.redraw := by
  rcases redraw_cases s with ⟨_, _, same⟩ | ⟨_, _, same⟩ | ⟨_, same⟩
  · rw [same]
    exact ⟨inv.count, inv.nonneg, inv.most, fun wrong => by cases wrong⟩
  · rw [same]
    exact ⟨inv.count, inv.nonneg, inv.most, inv.saved⟩
  · rw [same]
    exact inv

theorem Inv.scroll (inv : Inv screen s) (bottom : AtBottom screen s) (delta : Int32) :
    Inv screen (s.scrollbackScroll delta) := by
  rcases scroll_cases s delta with ⟨_, same⟩ | ⟨_, _, same⟩ | ⟨offset, least, most, _, _, same⟩
  · rw [same]
    exact inv
  · rw [same]
    exact ⟨inv.count, le_rfl, maxOffset_nonneg s, fun wrong => by cases wrong⟩
  · rw [same]
    have saved := inv.saveScreen bottom delta
    have history : (s.saveScreen delta).maxOffset = s.maxOffset := by
      unfold Scrollback.saveScreen
      split <;> rfl
    exact Inv.redraw ⟨saved.count, least, most.trans history.ge, saved.saved⟩

/-- A call that draws has found a scrolled screen or has saved it. -/
theorem Inv.saveScreen_scrolled (inv : Inv screen s) (level : s.isScrolled = false → s.offset = 0)
    (zero : delta ≠ 0) (lands : delta.toInt < 0 → 0 ≤ s.moved delta) :
    (s.saveScreen delta).isScrolled = true := by
  rcases saveScreen_cases s delta with ⟨_, started⟩ | ⟨either, kept⟩
  · rw [started]
  · rw [kept]
    by_contra idle
    have idle : s.isScrolled = false := Bool.eq_false_iff.mpr idle
    have bottom := level idle
    have down : delta.toInt < 0 := by
      rcases either with up | notUp
      · exact absurd (up.symm.trans idle) (by decide)
      · have nonzero : delta.toInt ≠ 0 := fun same => zero (Int32.toInt_inj.mp same)
        omega
    have moved := lands down
    rw [inv.moved_eq down] at moved
    omega

/-- **One call.** -/
theorem atBottom_iff (inv : Inv screen s) (bottom : AtBottom screen s) (delta : Int32) :
    AtBottom screen (s.scrollbackScroll delta) ↔ Lands s delta := by
  rcases scroll_cases s delta with ⟨zero, same⟩ | ⟨down, below, same⟩ | ⟨offset, least, most, zero, lands, same⟩
  · rw [same]
    exact iff_of_true bottom fun _ down => absurd down (by rw [zero]; decide)
  · -- past the bottom: the screen stays as it is
    rw [inv.moved_eq down] at below
    rw [same]
    constructor
    · intro after scrolled _ _
      exact (after rfl).1.trans (inv.saved scrolled).symm
    · intro lands _
      cases scrolled : s.isScrolled with
      | false => exact ⟨(bottom scrolled).1, rfl⟩
      | true => exact ⟨(lands scrolled down below).trans (inv.saved scrolled), rfl⟩
  · have fits : Lands s delta := by
      intro _ down below
      have moved := lands down
      rw [inv.moved_eq down] at moved
      omega
    refine iff_of_true ?_ fits
    rw [same]
    have saved := inv.saveScreen bottom delta
    rcases redraw_cases { s.saveScreen delta with offset := offset } with
      ⟨scrolled, home, restored⟩ | ⟨scrolled, _, viewed⟩ | ⟨idle, unchanged⟩
    · rw [restored]
      exact fun _ => ⟨saved.saved scrolled, home⟩
    · rw [viewed]
      exact fun wrong => absurd (scrolled.symm.trans wrong) (by decide)
    · have up := inv.saveScreen_scrolled (fun idle => (bottom idle).2) zero lands
      exact absurd (up.symm.trans idle) (by decide)

theorem addLine_idle (idle : s.isScrolled = false) (line : Line) :
    s.scrollbackAddLine line =
      { s with
        buffer := Function.update s.buffer s.head line
        head := (s.head + 1) % scrollbackLines
        count := if s.count < scrollbackLines then s.count + 1 else s.count } :=
  if_neg (by rw [idle]; decide)

theorem addLine_count (count : s.count ≤ scrollbackLines) (line : Line) :
    (s.scrollbackAddLine line).count ≤ scrollbackLines := by
  unfold scrollbackAddLine
  split
  · exact count
  · show (if s.count < scrollbackLines then s.count + 1 else s.count) ≤ scrollbackLines
    split
    · assumption
    · exact count

/-- Adding lines leaves the screen as it is. -/
theorem addLines_live (idle : s.isScrolled = false) (level : s.offset = 0) (count : s.count ≤ scrollbackLines)
    (lines : List Line) : Inv s.vga (lines.foldl scrollbackAddLine s) ∧
      AtBottom s.vga (lines.foldl scrollbackAddLine s) := by
  induction lines generalizing s with
  | nil =>
      exact ⟨⟨count, level.ge, level.le.trans (maxOffset_nonneg s),
        fun wrong => absurd (wrong.symm.trans idle) (by decide)⟩, fun _ => ⟨rfl, level⟩⟩
  | cons line lines ih =>
      have next := addLine_idle idle line
      have kept := ih (s := s.scrollbackAddLine line) (by rw [next]; exact idle) (by rw [next]; exact level)
        (addLine_count count line)
      have screen : (s.scrollbackAddLine line).vga = s.vga := by rw [next]
      rw [screen] at kept
      exact kept

end Scrolling

/-- **Exactly when scrolling back restores the screen**: for every history, the runs of `scrollback_scroll`
in which the screen is back after every call that ends at the bottom are those in which no call goes past
the bottom from a view that differs from the screen. -/
theorem scroll_restores_iff (s t : Scrollback) (lines : List Line) (deltas : List Int32) :
    Run (fun x delta y => ScrollStep x delta y ∧ AtBottom s.vga y) (s.afterLines lines) deltas t ↔
      Run (Guarded Lands ScrollStep) (s.afterLines lines) deltas t := by
  have empty : s.scrollbackInit.count ≤ scrollbackLines := Nat.zero_le _
  obtain ⟨inv, bottom⟩ := addLines_live (s := s.scrollbackInit) rfl rfl empty lines
  refine Run.good_iff (Inv s.vga) (AtBottom s.vga) ?_ ?_ inv bottom
  · rintro x delta y here level rfl
    exact here.scroll level delta
  · rintro x delta y here level rfl
    exact atBottom_iff here level delta

/-- A driver with a blank screen, and the cell in the corner of it. -/
def atPowerOn : Scrollback := ⟨fun _ => 0, fun _ _ => 0, 0, 0, 0, fun _ => 0, false⟩

theorem cells_pos : 0 < vgaWidth * vgaHeight := by decide

/-- **Past the bottom**: 26 lines, one line up, five lines down. The display is at the bottom and still
shows the view. -/
theorem scroll_overshoots :
    let start := atPowerOn.afterLines (List.replicate 26 fun _ => 0x0761)
    let t := (start.scrollbackScroll 1).scrollbackScroll (-5)
    t.isScrolled = false ∧ t.vga ⟨0, cells_pos⟩ = 0x0761 ∧ start.vga ⟨0, cells_pos⟩ = 0 ∧
      ¬ AtBottom atPowerOn.vga t := by
  intro start t
  have facts : t.isScrolled = false ∧ t.vga ⟨0, cells_pos⟩ = 0x0761 ∧ start.vga ⟨0, cells_pos⟩ = 0 := by
    decide +kernel
  refine ⟨facts.1, facts.2.1, facts.2.2, fun bottom => ?_⟩
  have same := congrFun (bottom facts.1).1 ⟨0, cells_pos⟩
  rw [facts.2.1] at same
  exact absurd same (by decide)

end Scrollback

end Kfs.Console
