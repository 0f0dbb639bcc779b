/-
**The history on the screen: `scrollback_add_line` and the view.**

A session is the driver with the lines that it has taken since `scrollback_init`. The ring holds the last 200
of them, each at its number modulo 200, but the view counts from the start of the buffer as if the oldest
line were there. So the rows of every view are consecutive lines of the history exactly when the ring has not
wrapped, or has come round to its start: `history_in_order_iff`.
-/

import Kfs.Console.Scrollback

namespace Kfs.Console

/-- What is done to the driver. -/
inductive HistoryOp where
  | addLine (line : Line)
  | scroll (delta : Int32)

/-- The driver, and the lines that were added while the screen was live. -/
structure Session where
  driver : Scrollback
  lines : List Line

namespace Session

/-- After `scrollback_init`. -/
def start (s : Scrollback) : Session := ⟨s.scrollbackInit, []⟩

/-- One call. -/
def exec (x : Session) : HistoryOp → Session
  | .addLine line =>
      ⟨x.driver.scrollbackAddLine line, if x.driver.isScrolled then x.lines else x.lines ++ [line]⟩
  | .scroll delta => ⟨x.driver.scrollbackScroll delta, x.lines⟩

/-- Calls one after the other. -/
def run (x : Session) (ops : List HistoryOp) : Session := ops.foldl exec x

/-- The cells of the indicator. -/
def InIndicator (i : Fin (vgaWidth * vgaHeight)) : Prop := vgaWidth - 8 ≤ i.val ∧ i.val < vgaWidth

/-- **The view is the history in order**: at offset `k`, the cells of row `r` are those of line
`n - 25 - k + r`. -/
def ShowsHistory (x : Session) : Prop :=
  ∀ k : Nat, 0 < k → x.driver.offset = k → vgaHeight + k ≤ min x.lines.length scrollbackLines →
    ∀ i : Fin (vgaWidth * vgaHeight), ¬ InIndicator i →
      ∃ line, x.lines[x.lines.length - vgaHeight - k + i.val / vgaWidth]? = some line ∧
        x.driver.vga i = line (columnOf i)

/-- Between calls: the ring holds the last lines, each at its number modulo 200, and the screen shows the
lines from `start_line` on while it is scrolled. -/
structure Inv (x : Session) : Prop where
  head : x.driver.head = x.lines.length % scrollbackLines
  count : x.driver.count = min x.lines.length scrollbackLines
  ring : ∀ i < x.lines.length, x.lines.length ≤ i + scrollbackLines →
    x.lines[i]? = some (x.driver.buffer (i % scrollbackLines))
  nonneg : 0 ≤ x.driver.offset
  most : x.driver.offset ≤ x.driver.maxOffset
  level : x.driver.isScrolled = false → x.driver.offset = 0
  view : 0 < x.driver.offset → x.driver.vga = x.driver.rendered

section Shown

variable {x : Session} {s : Scrollback} {line : Line} {delta : Int32} {ops more : List HistoryOp}

open Scrollback

theorem Inv.start (s : Scrollback) : Inv (start s) :=
  ⟨rfl, rfl, fun i inside => absurd inside (Nat.not_lt_zero i), le_rfl, Scrollback.maxOffset_nonneg _,
    fun _ => rfl, fun wrong => absurd wrong (lt_irrefl 0)⟩

theorem Inv.count_le (inv : Inv x) : x.driver.count ≤ scrollbackLines :=
  inv.count.le.trans (min_le_right _ _)

/-- The driver keeps its own invariant. -/
theorem Inv.driver (inv : Inv x) : Scrollback.Inv x.driver.saved x.driver :=
  ⟨inv.count_le, inv.nonneg, inv.most, fun _ => rfl⟩

/-- A line is stored behind the lines before it, in the place of the oldest when the ring is full. -/
theorem Inv.addLine (inv : Inv x) (line : Line) : Inv (x.exec (.addLine line)) := by
  cases scrolled : x.driver.isScrolled with
  | true =>
      have same : x.exec (.addLine line) = x := by
        unfold exec scrollbackAddLine
        simp [scrolled]
      rw [same]
      exact inv
  | false =>
      have level := inv.level scrolled
      have stored := addLine_idle scrolled line
      have grown : (x.lines ++ [line]).length = x.lines.length + 1 := by simp
      have same : x.exec (.addLine line) = ⟨x.driver.scrollbackAddLine line, x.lines ++ [line]⟩ := by
        unfold exec
        simp [scrolled]
      rw [same, stored]
      refine ⟨?_, ?_, ?_, level.ge, level.le.trans (Scrollback.maxOffset_nonneg _), fun _ => level, ?_⟩
      · show (x.driver.head + 1) % scrollbackLines = (x.lines ++ [line]).length % scrollbackLines
        rw [inv.head, grown, Nat.mod_add_mod]
      · show (if x.driver.count < scrollbackLines then x.driver.count + 1 else x.driver.count) =
          min (x.lines ++ [line]).length scrollbackLines
        rw [inv.count, grown]
        split <;> omega
      · intro i inside recent
        show (x.lines ++ [line])[i]? =
          some (Function.update x.driver.buffer x.driver.head line (i % scrollbackLines))
        rw [grown] at inside recent
        by_cases last : i = x.lines.length
        · rw [last, inv.head, Function.update_self, List.getElem?_concat_length]
        · have before : i < x.lines.length := by omega
          have other : i % scrollbackLines ≠ x.driver.head := by
            rw [inv.head]
            unfold scrollbackLines at *
            omega
          rw [Function.update_of_ne other, List.getElem?_append_left before]
          exact inv.ring i before (by omega)
      · intro wrong
        exact absurd (wrong.trans_le level.le) (lt_irrefl 0)

/-- What a call of `scrollback_scroll` keeps, and what it shows. -/
theorem Inv.scroll (inv : Inv x) (delta : Int32) : Inv (x.exec (.scroll delta)) := by
  rcases scroll_cases x.driver delta with ⟨_, same⟩ | ⟨_, _, same⟩ | ⟨offset, least, most, zero, lands, same⟩
  · unfold exec
    simp only [same]
    exact inv
  · unfold exec
    simp only [same]
    exact ⟨inv.head, inv.count, inv.ring, le_rfl, Scrollback.maxOffset_nonneg _, fun _ => rfl,
      fun wrong => absurd wrong (lt_irrefl 0)⟩
  · have up := inv.driver.saveScreen_scrolled inv.level zero lands
    have frame : ∃ saved flag, x.driver.saveScreen delta = { x.driver with saved := saved, isScrolled := flag } := by
      unfold saveScreen
      split
      · exact ⟨_, _, rfl⟩
      · exact ⟨_, _, rfl⟩
    obtain ⟨saved, flag, frame⟩ := frame
    rw [frame] at same up
    unfold exec
    simp only [same]
    rcases redraw_cases { x.driver with saved := saved, isScrolled := flag, offset := offset } with
      ⟨_, home, restored⟩ | ⟨_, away, viewed⟩ | ⟨idle, _⟩
    · rw [restored]
      exact ⟨inv.head, inv.count, inv.ring, least, most, fun _ => home, fun wrong => absurd wrong home.not_gt⟩
    · rw [viewed]
      exact ⟨inv.head, inv.count, inv.ring, least, most, fun wrong => absurd (up.symm.trans wrong) (by decide),
        fun _ => rfl⟩
    · exact absurd (up.symm.trans idle) (by decide)

theorem Inv.run (inv : Inv x) (ops : List HistoryOp) : Inv (x.run ops) := by
  induction ops generalizing x with
  | nil => exact inv
  | cons op ops ih =>
      cases op with
      | addLine line => exact ih (inv.addLine line)
      | scroll delta => exact ih (inv.scroll delta)

/-- What a cell of a view shows. -/
theorem Inv.shown (inv : Inv x) {k : Nat} (positive : 0 < k) (offset : x.driver.offset = k)
    (full : vgaHeight + k ≤ min x.lines.length scrollbackLines) {i : Fin (vgaWidth * vgaHeight)}
    (outside : ¬ InIndicator i) :
    x.driver.vga i =
      x.driver.buffer (min x.lines.length scrollbackLines - vgaHeight - k + i.val / vgaWidth) (columnOf i) := by
  have bound : i.val < vgaWidth * vgaHeight := i.isLt
  have row : i.val / vgaWidth < vgaHeight := Nat.div_lt_of_lt_mul bound
  have first : x.driver.startLine = min x.lines.length scrollbackLines - vgaHeight - k := by
    unfold startLine
    rw [inv.count, offset]
    omega
  have view := inv.view (by omega)
  rw [view]
  unfold rendered
  have inside : x.driver.startLine + i.val / vgaWidth < x.driver.count := by
    rw [first, inv.count]
    omega
  have small : x.driver.startLine + i.val / vgaWidth < scrollbackLines := inside.trans_le inv.count_le
  have elsewhere : ¬ (vgaWidth - 8 ≤ i.val ∧ i.val < vgaWidth) := outside
  rw [if_neg elsewhere, if_pos inside, Nat.mod_eq_of_lt small, first]

/-- The lines of a view are among those of the ring, and sit where the view reads if the ring starts at the
start of the buffer. -/
theorem view_place {n k r : Nat} (full : vgaHeight + k ≤ min n scrollbackLines) (row : r < vgaHeight) :
    n - vgaHeight - k + r < n ∧ n ≤ n - vgaHeight - k + r + scrollbackLines ∧
      (n ≤ scrollbackLines ∨ scrollbackLines ∣ n →
        (n - vgaHeight - k + r) % scrollbackLines = min n scrollbackLines - vgaHeight - k + r) := by
  unfold scrollbackLines vgaHeight at *
  refine ⟨by omega, by omega, fun aligned => ?_⟩
  omega

/-- **A ring that starts at the start of the buffer is shown in order.** -/
theorem Inv.showsHistory (inv : Inv x)
    (aligned : x.lines.length ≤ scrollbackLines ∨ scrollbackLines ∣ x.lines.length) : ShowsHistory x := by
  intro k positive offset full i outside
  have row : i.val / vgaWidth < vgaHeight := Nat.div_lt_of_lt_mul i.isLt
  obtain ⟨inside, recent, place⟩ := view_place full row
  refine ⟨_, inv.ring _ inside recent, ?_⟩
  rw [inv.shown positive offset full outside, place aligned]

/-- One line up from the bottom, with more than a screen of history. -/
theorem scroll_up (idle : s.isScrolled = false) (level : s.offset = 0) (many : vgaHeight < s.count) :
    (s.scrollbackScroll 1).offset = 1 := by
  have one : (1 : Int32).toInt = 1 := by decide
  have start : s.saveScreen 1 = { s with saved := s.vga, isScrolled := true } :=
    if_pos ⟨idle, by rw [one]; decide⟩
  have moved : Scrollback.moved { s with saved := s.vga, isScrolled := true } 1 = 1 := by
    show (s.offset + (1 : Int32).toInt).bmod (2 ^ 32) = 1
    rw [level, one]
    decide
  have most : 1 ≤ Scrollback.maxOffset { s with saved := s.vga, isScrolled := true } := by
    show 1 ≤ if (s.count : Int) - vgaHeight < 0 then 0 else (s.count : Int) - vgaHeight
    rw [if_neg (by omega)]
    omega
  have offset : Scrollback.moveOffset { s with saved := s.vga, isScrolled := true } 1 =
      { s with saved := s.vga, isScrolled := true, offset := 1 } := by
    unfold moveOffset
    rw [moved]
    simp only
    rw [if_neg (by decide), if_neg (not_lt.mpr most)]
  have drawn : s.scrollbackScroll 1 =
      Scrollback.redraw { s with saved := s.vga, isScrolled := true, offset := 1 } := by
    unfold scrollbackScroll
    rw [if_neg (by decide), start, offset]
  rw [drawn]
  rcases redraw_cases { s with saved := s.vga, isScrolled := true, offset := 1 } with
    ⟨_, home, _⟩ | ⟨_, _, viewed⟩ | ⟨wrong, _⟩
  · exact absurd home one_ne_zero
  · rw [viewed]
  · cases wrong

/-- Line number `i`. -/
def numbered (i : Nat) : Line := fun _ => UInt16.ofNat i

/-- `n` lines, and one line up. -/
def pageUp (n : Nat) : List HistoryOp := (List.range n).map (fun i => .addLine (numbered i)) ++ [.scroll 1]

theorem run_append (x : Session) (ops more : List HistoryOp) : x.run (ops ++ more) = (x.run ops).run more :=
  List.foldl_append

/-- After `n` numbered lines. -/
theorem run_numbered (s : Scrollback) (n : Nat) :
    let x := (Session.start s).run ((List.range n).map fun i => .addLine (numbered i))
    x.lines = (List.range n).map numbered ∧ x.driver.isScrolled = false := by
  induction n with
  | zero => exact ⟨rfl, rfl⟩
  | succ n ih =>
      obtain ⟨lines, idle⟩ := ih
      simp only [List.range_succ, List.map_append, List.map_cons, List.map_nil, run_append] at *
      rw [← lines]
      refine ⟨if_neg (by rw [idle]; decide), ?_⟩
      show (Scrollback.scrollbackAddLine _ _).isScrolled = false
      rw [addLine_idle idle]
      exact idle

theorem numbered_at {n i : Nat} (inside : i < n) : ((List.range n).map numbered)[i]? = some (numbered i) := by
  rw [List.getElem?_map, List.getElem?_range inside, Option.map_some]

/-- After `n` numbered lines and one line up: all lines are taken, and the view is one line up. -/
theorem run_pageUp (s : Scrollback) {n : Nat} (many : vgaHeight < n) :
    ((start s).run (pageUp n)).lines = (List.range n).map numbered ∧
      ((start s).run (pageUp n)).driver.offset = (1 : Nat) := by
  obtain ⟨lines, idle⟩ := run_numbered s n
  have inv := (Inv.start s).run ((List.range n).map fun i => .addLine (numbered i))
  have last : (start s).run (pageUp n) =
      ((start s).run ((List.range n).map fun i => .addLine (numbered i))).exec (.scroll 1) :=
    run_append _ _ _
  rw [last]
  refine ⟨lines, scroll_up idle (inv.level idle) ?_⟩
  rw [inv.count, lines, List.length_map, List.length_range]
  exact lt_min many (by decide)

/-- **A ring that has wrapped shows other lines**: the first row of the view one line up. -/
theorem pageUp_wrong (s : Scrollback) {n : Nat} (wrapped : scrollbackLines < n)
    (apart : ¬ scrollbackLines ∣ n) :
    ((start s).run (pageUp n)).lines.length = n ∧ ¬ ShowsHistory ((start s).run (pageUp n)) := by
  have screen : vgaHeight < scrollbackLines := by decide
  obtain ⟨lines, offset⟩ := run_pageUp s (screen.trans wrapped)
  have inv := (Inv.start s).run (pageUp n)
  have length : ((start s).run (pageUp n)).lines.length = n := by rw [lines, List.length_map, List.length_range]
  refine ⟨length, fun history => ?_⟩
  have full : vgaHeight + 1 ≤ min ((start s).run (pageUp n)).lines.length scrollbackLines := by
    rw [length]
    exact le_min (screen.trans wrapped) screen
  have outside : ¬ InIndicator ⟨0, cells_pos⟩ := by unfold InIndicator; decide
  obtain ⟨line, expected, cell⟩ := history 1 one_pos offset full ⟨0, cells_pos⟩ outside
  rw [inv.shown one_pos offset full outside] at cell
  obtain ⟨inside, _, _⟩ := view_place full (show 0 / vgaWidth < vgaHeight by decide)
  rw [length] at expected cell inside
  rw [lines, numbered_at inside] at expected
  cases expected
  -- the line of the history that sits where the view reads
  have slot : n - 1 - (n - 175) % scrollbackLines < n := by omega
  have place : (n - 1 - (n - 175) % scrollbackLines) % scrollbackLines =
      min n scrollbackLines - vgaHeight - 1 + 0 / vgaWidth := by
    unfold scrollbackLines vgaHeight vgaWidth at *
    omega
  have found := inv.ring (n - 1 - (n - 175) % scrollbackLines) (by rw [length]; exact slot)
    (by rw [length]; unfold scrollbackLines at *; omega)
  rw [place, lines, numbered_at slot] at found
  rw [← Option.some.inj found] at cell
  have same := congrArg UInt16.toNat cell
  unfold numbered at same
  rw [UInt16.toNat_ofNat', UInt16.toNat_ofNat'] at same
  have corner : 0 / vgaWidth = 0 := by decide
  rw [corner] at same
  unfold scrollbackLines vgaHeight at *
  omega

end Shown

/-- **Exactly when the view is the history in order**: for `n` lines, in every session. -/
theorem history_in_order_iff (s : Scrollback) (n : Nat) :
    (∀ ops, ((start s).run ops).lines.length = n → ShowsHistory ((start s).run ops)) ↔
      n ≤ scrollbackLines ∨ scrollbackLines ∣ n := by
  constructor
  · intro all
    by_contra neither
    obtain ⟨wrapped, apart⟩ := not_or.mp neither
    obtain ⟨length, wrong⟩ := pageUp_wrong s (not_le.mp wrapped) apart
    exact wrong (all _ length)
  · rintro aligned ops rfl
    exact ((Inv.start s).run ops).showsHistory aligned

/-- 201 numbered lines, and one line up. -/
def wrapped : Session := (start Scrollback.atPowerOn).run (pageUp 201)

/-- **A ring that has wrapped by one line**: the first row of the view is line 174, and line 175 is due. -/
theorem history_wraps : wrapped.driver.vga ⟨0, Scrollback.cells_pos⟩ = 174 ∧ wrapped.lines[175]? = some (numbered 175) ∧
    ¬ ShowsHistory wrapped := by
  have due : wrapped.lines[175]? = some (numbered 175) := by
    have lines := (run_pageUp Scrollback.atPowerOn (show vgaHeight < 201 by decide)).1
    exact lines ▸ numbered_at (show 175 < 201 by decide)
  exact ⟨by decide +kernel, due,
    (pageUp_wrong Scrollback.atPowerOn (show scrollbackLines < 201 by decide) (by decide)).2⟩

end Session

end Kfs.Console
