/-
**Drivers and their lines: `timer.c`, `keyboard.c`, `mouse.c`.**

The drivers register handlers and unmask lines. What they do is a sequence of port accesses and stores to the
table of handlers, and an interrupt may come between any two of them.

* `unmasked_handled`: from `idt_init` on, at every moment of every run of the drivers, an unmasked line has
  the handler of its own driver, and no line of the slave gets through, since nothing unmasks line 2 of the
  master.
* `deliverable_acknowledged`: so every interrupt of a line that gets through is acknowledged, although
  `mouse_handler` sends no end of interrupt.
-/

import Kfs.Interrupt.Pic

namespace Kfs.Interrupt

open Kfs.Shell

/-! ### The functions of the source -/

/-- `idt_register_handler`. -/
def idtRegisterHandler (num : Nat) (handler : Handler) : PortProg HandlerStore Unit := store ⟨num, some handler⟩

/-- `idt_unregister_handler`. -/
def idtUnregisterHandler (num : Nat) : PortProg HandlerStore Unit := store ⟨num, none⟩

/-- `IDT_ENTRIES`. -/
def idtEntries : Nat := 256

/-- `interrupt_handlers[i] = NULL`, for the numbers below `n`. -/
def clearHandlers : (n : Nat) → PortProg HandlerStore Unit
  | 0 => return
  | n + 1 => do
      clearHandlers n
      store ⟨n, none⟩

/-- What `idt_init` does to the controllers and to the handlers. -/
def idtInit : PortProg HandlerStore Unit := do
  clearHandlers idtEntries
  picInit
  picDisableAll

/-- `PIT_FREQUENCY`. -/
def pitFrequency : Nat := 1193182

/-- The divisor of `timer_init`, for a frequency other than 0. -/
def timerDivisor (frequency : Nat) : Nat :=
  let divisor := pitFrequency / frequency
  let divisor := if divisor > 0xFFFF then 0xFFFF else divisor
  if divisor < 1 then 1 else divisor

/-- `PIT_COMMAND`. -/
def pitCommand : Nat := 0x43

/-- `PIT_CHANNEL0`. -/
def pitChannel0 : Nat := 0x40

/-- `PIT_CMD_CHANNEL0 | PIT_CMD_RW_BOTH | PIT_CMD_MODE3 | PIT_CMD_BINARY`. -/
def pitCommandByte : UInt8 := 0x36

/-- `timer_init`, for a frequency other than 0. -/
def timerInit (frequency : Nat) : PortProg HandlerStore Unit := do
  let divisor := timerDivisor frequency
  idtRegisterHandler 0x20 .timer
  outb pitCommand pitCommandByte
  outb pitChannel0 (UInt8.ofNat (divisor &&& 0xFF))
  outb pitChannel0 (UInt8.ofNat ((divisor >>> 8) &&& 0xFF))
  picUnmaskIrq 0

/-- `keyboard_enable_interrupts`. -/
def keyboardEnableInterrupts : PortProg HandlerStore Unit := do
  idtRegisterHandler 0x21 .keyboard
  picUnmaskIrq 1

/-- `keyboard_disable_interrupts`. -/
def keyboardDisableInterrupts : PortProg HandlerStore Unit := do
  picMaskIrq 1
  idtUnregisterHandler 0x21

/-- `PS2_COMMAND_PORT`. -/
def ps2CommandPort : Nat := 0x64

/-- The polls of `mouse_wait_input` and `mouse_wait_output`, until a bit of the status has a value. -/
def mousePoll (mask value : UInt8) : (timeout : Nat) → PortProg HandlerStore Unit
  | 0 => return
  | timeout + 1 => do
      let status ← inb ps2StatusPort
      if status &&& mask = value then return else mousePoll mask value timeout

/-- The number of polls. -/
def mouseTimeout : Nat := 100000

/-- `mouse_wait_input`. -/
def mouseWaitInput : PortProg HandlerStore Unit := mousePoll 2 0 mouseTimeout

/-- `mouse_wait_output`. -/
def mouseWaitOutput : PortProg HandlerStore Unit := mousePoll 1 1 mouseTimeout

/-- `mouse_write`. -/
def mouseWrite (data : UInt8) : PortProg HandlerStore Unit := do
  mouseWaitInput
  outb ps2CommandPort 0xD4
  mouseWaitInput
  outb ps2DataPort data

/-- `mouse_read`. -/
def mouseRead : PortProg HandlerStore UInt8 := do
  mouseWaitOutput
  inb ps2DataPort

/-- `mouse_init` up to the registration of the handler. -/
def mouseSetUp : PortProg HandlerStore Unit := do
  mouseWaitInput
  outb ps2CommandPort 0x20
  mouseWaitOutput
  let _config ← inb ps2DataPort
  mouseWaitInput
  outb ps2CommandPort 0xA8
  mouseWaitInput
  outb ps2CommandPort 0x20
  mouseWaitOutput
  let status ← inb ps2DataPort
  mouseWaitInput
  outb ps2CommandPort 0x60
  mouseWaitInput
  outb ps2DataPort (status ||| 0x02 ||| 0x01)
  mouseWrite 0xF6
  let _ ← mouseRead
  mouseWrite 0xF3
  let _ ← mouseRead
  mouseWrite 200
  let _ ← mouseRead
  mouseWrite 0xF3
  let _ ← mouseRead
  mouseWrite 100
  let _ ← mouseRead
  mouseWrite 0xF3
  let _ ← mouseRead
  mouseWrite 80
  let _ ← mouseRead
  mouseWrite 0xF2
  let _ ← mouseRead
  let _ ← mouseRead
  mouseWrite 0xF4
  let _ ← mouseRead

/-- `mouse_init`. -/
def mouseInit : PortProg HandlerStore Unit := do
  mouseSetUp
  idtRegisterHandler 0x2C .mouse

/-- `mouse_enable_interrupts`. -/
def mouseEnableInterrupts : PortProg HandlerStore Unit := do
  let mask ← inb 0xA1
  outb 0xA1 (mask &&& ~~~ lineBit 4)

/-- `mouse_disable_interrupts`. -/
def mouseDisableInterrupts : PortProg HandlerStore Unit := do
  let mask ← inb 0xA1
  outb 0xA1 (mask ||| lineBit 4)

/-! ### Runs of the drivers -/

/-- A call of a driver that registers a handler or changes a mask. -/
inductive DriverOp where
  | timerInit (frequency : Nat)
  | keyboardEnableInterrupts
  | keyboardDisableInterrupts
  | mouseInit
  | mouseEnableInterrupts
  | mouseDisableInterrupts
  deriving DecidableEq, Repr

/-- The call. -/
def DriverOp.prog : DriverOp → PortProg HandlerStore Unit
  | timerInit frequency => Interrupt.timerInit frequency
  | keyboardEnableInterrupts => Interrupt.keyboardEnableInterrupts
  | keyboardDisableInterrupts => Interrupt.keyboardDisableInterrupts
  | mouseInit => Interrupt.mouseInit
  | mouseEnableInterrupts => Interrupt.mouseEnableInterrupts
  | mouseDisableInterrupts => Interrupt.mouseDisableInterrupts

/-- Calls one after the other. -/
def DriverOp.progs : List DriverOp → PortProg HandlerStore Unit
  | [] => return
  | op :: ops => do
      op.prog
      progs ops

/-- `mouse_enable_interrupts` is called after `mouse_init` only; `mouse` says whether that was called
before. -/
def MouseFirst : (mouse : Bool) → List DriverOp → Prop
  | _, [] => True
  | mouse, op :: ops =>
      (op = .mouseEnableInterrupts → mouse = true) ∧ MouseFirst (mouse || decide (op = .mouseInit)) ops

namespace Board

variable {ρ : Type}

/-- An interrupt of the line gets to the CPU: through line 2 of the master for a line of the slave. -/
def Deliverable (s : Board ρ) (line : Fin 16) : Prop :=
  line ∉ s.masked ∧ (8 ≤ line.val → ∀ cascade : Fin 16, cascade.val = 2 → cascade ∉ s.masked)

/-- **Unmasked lines have their handlers**, and the mouse's is registered once `mouse_init` was called. -/
structure Owned (mouse : Bool) (s : Board ρ) : Prop where
  ready : s.Ready
  handled : ∀ line, line ∉ s.masked →
    ∃ h, s.interruptHandlers (32 + line.val) = some h ∧ h.vector = 32 + line.val
  mouse : mouse = true → s.interruptHandlers 44 = some .mouse

/-- The parts of a board that interrupts depend on. -/
def SameLines (s t : Board ρ) : Prop :=
  t.master = s.master ∧ t.slave = s.slave ∧ t.interruptHandlers = s.interruptHandlers

namespace Owned

variable {mouse : Bool} {s t : Board ρ}

theorem congr (owned : s.Owned mouse) (same : s.SameLines t) : t.Owned mouse := by
  obtain ⟨master, slave, interruptHandlers, rest⟩ := s
  obtain ⟨master', slave', interruptHandlers', rest'⟩ := t
  obtain ⟨rfl, rfl, rfl⟩ := same
  exact ⟨owned.ready, owned.handled, owned.mouse⟩

/-- The lines that may be unmasked. -/
theorem line (owned : s.Owned mouse) {line : Fin 16} (open' : line ∉ s.masked) :
    line = 0 ∨ line = 1 ∨ line = 12 := by
  obtain ⟨h, -, vector⟩ := owned.handled line open'
  cases h with
  | timer => exact .inl (Fin.ext (by simpa [Handler.vector] using vector.symm))
  | keyboard => exact .inr (.inl (Fin.ext (by simp only [Handler.vector] at vector; omega)))
  | mouse => exact .inr (.inr (Fin.ext (by simp only [Handler.vector] at vector; omega)))

/-- **Only the timer and the keyboard get through.** -/
theorem deliverable (owned : s.Owned mouse) {line : Fin 16} (through : s.Deliverable line) :
    line = 0 ∨ line = 1 := by
  rcases owned.line through.1 with first | second | rfl
  · exact .inl first
  · exact .inr second
  · rcases owned.line (through.2 (by decide) 2 rfl) with no | no | no <;> exact absurd no (by decide)

/-- A handler is registered where it belongs. -/
theorem register (owned : s.Owned mouse) (h : Handler) :
    ({ s with interruptHandlers := Function.update s.interruptHandlers h.vector (some h) } : Board ρ).Owned
      (mouse || decide (h = .mouse)) := by
  refine ⟨owned.ready, fun line open' => ?_, fun now => ?_⟩
  · by_cases here : 32 + line.val = h.vector
    · refine ⟨h, ?_, here.symm⟩
      show Function.update s.interruptHandlers h.vector (some h) (32 + line.val) = some h
      rw [here, Function.update_self]
    · obtain ⟨h', found, vector⟩ := owned.handled line open'
      exact ⟨h', (Function.update_of_ne here _ _).trans found, vector⟩
  · by_cases here : h = .mouse
    · subst here
      show Function.update s.interruptHandlers 44 (some Handler.mouse) 44 = some Handler.mouse
      exact Function.update_self _ _ _
    · rw [decide_eq_false here, Bool.or_false] at now
      refine (Function.update_of_ne ?_ _ _).trans (owned.mouse now)
      cases h with
      | timer => decide
      | keyboard => decide
      | mouse => exact absurd rfl here

/-- The masks change so that no line without its handler is unmasked. -/
theorem withMasks (owned : s.Owned mouse) {low high : UInt8}
    (lines : ∀ line, line ∉ (s.withMasks low high).masked → line ∉ s.masked ∨
      ∃ h, s.interruptHandlers (32 + line.val) = some h ∧ h.vector = 32 + line.val) :
    (s.withMasks low high).Owned mouse :=
  ⟨owned.ready, fun line open' => (lines line open').elim (owned.handled line) id, owned.mouse⟩

/-- Fewer lines are unmasked. -/
theorem masksMore (owned : s.Owned mouse) {low high : UInt8}
    (more : s.masked ⊆ (s.withMasks low high).masked) : (s.withMasks low high).Owned mouse :=
  owned.withMasks fun _ open' => .inl fun masked => open' (more masked)

end Owned

end Board

/-! ### What the drivers keep -/

/-- An access that does not go to a controller and stores nothing. -/
def Elsewhere : Access HandlerStore → Prop
  | .outb port _ => port ≠ pic1Command ∧ port ≠ pic1Data ∧ port ≠ pic2Command ∧ port ≠ pic2Data
  | .inb port => port ≠ pic1Command ∧ port ≠ pic2Command
  | .store _ => False
  | _ => True

section Keep

variable {ρ : Type} {peripherals : PortDevice Empty ρ} {s : Board ρ} {mouse : Bool}

theorem elsewhere_sameLines (r : Access HandlerStore) (elsewhere : Elsewhere r) (s : Board ρ) :
    s.SameLines (board peripherals r s).2 := by
  cases r with
  | outb port value =>
      obtain ⟨a, b, c, d⟩ := elsewhere
      simp only [board, if_neg a, if_neg b, if_neg c, if_neg d]
      exact ⟨rfl, rfl, rfl⟩
  | inb port =>
      simp only [board]
      split_ifs <;> exact ⟨rfl, rfl, rfl⟩
  | outw port value => exact ⟨rfl, rfl, rfl⟩
  | inw port => exact ⟨rfl, rfl, rfl⟩
  | store what => exact absurd elsewhere id

/-- **Accesses elsewhere keep every line with its handler.** -/
theorem along_elsewhere {α : Type} {p : PortProg HandlerStore α} (made : p.Makes Elsewhere)
    (owned : s.Owned mouse) : Prog.Along (board peripherals) (Board.Owned mouse) p s
      fun _ t => t.Owned mouse ∧ t.interruptHandlers = s.interruptHandlers := by
  have keep : ∀ r (t : Board ρ), Elsewhere r → t.Owned mouse ∧ t.interruptHandlers = s.interruptHandlers →
      (board peripherals r t).2.Owned mouse ∧
        (board peripherals r t).2.interruptHandlers = s.interruptHandlers := by
    intro r t elsewhere here
    have same : t.SameLines (board peripherals r t).2 := elsewhere_sameLines r elsewhere t
    exact ⟨here.1.congr same, same.2.2.trans here.2⟩
  exact (Prog.Along.of_makes made keep ⟨owned, rfl⟩).mono (fun t both => both.1) fun _ t both => both

theorem makes_outb {port : Nat} (value : UInt8)
    (other : port ≠ pic1Command ∧ port ≠ pic1Data ∧ port ≠ pic2Command ∧ port ≠ pic2Data) :
    (outb port value : PortProg HandlerStore Unit).Makes Elsewhere := .ask other fun _ => .done _

theorem makes_inb {port : Nat} (other : port ≠ pic1Command ∧ port ≠ pic2Command) :
    (inb port : PortProg HandlerStore UInt8).Makes Elsewhere := .ask other fun _ => .done _

theorem makes_mousePoll (mask value : UInt8) (timeout : Nat) : (mousePoll mask value timeout).Makes Elsewhere := by
  induction timeout with
  | zero => exact .done _
  | succ timeout ih =>
      refine .bind (makes_inb (by decide)) fun status => ?_
      split
      · exact .done _
      · exact ih

theorem makes_mouseWrite (data : UInt8) : (mouseWrite data).Makes Elsewhere :=
  .bind (makes_mousePoll _ _ _) fun _ => .bind (makes_outb _ (by decide)) fun _ =>
    .bind (makes_mousePoll _ _ _) fun _ => makes_outb _ (by decide)

theorem makes_mouseRead : mouseRead.Makes Elsewhere :=
  .bind (makes_mousePoll _ _ _) fun _ => makes_inb (by decide)

theorem makes_mouseSetUp : mouseSetUp.Makes Elsewhere := by
  have poll : ∀ mask value, (mousePoll mask value mouseTimeout).Makes Elsewhere :=
    fun mask value => makes_mousePoll mask value _
  have command : ∀ value, (outb ps2CommandPort value : PortProg HandlerStore Unit).Makes Elsewhere :=
    fun value => makes_outb value (by decide)
  have data : ∀ value, (outb ps2DataPort value : PortProg HandlerStore Unit).Makes Elsewhere :=
    fun value => makes_outb value (by decide)
  have read : (inb ps2DataPort : PortProg HandlerStore UInt8).Makes Elsewhere := makes_inb (by decide)
  unfold mouseSetUp mouseWaitInput mouseWaitOutput
  refine .bind (poll _ _) fun _ => .bind (command _) fun _ => .bind (poll _ _) fun _ => .bind read fun _ =>
    .bind (poll _ _) fun _ => .bind (command _) fun _ => .bind (poll _ _) fun _ => .bind (command _) fun _ =>
    .bind (poll _ _) fun _ => .bind read fun _ => .bind (poll _ _) fun _ => .bind (command _) fun _ =>
    .bind (poll _ _) fun _ => .bind (data _) fun _ => ?_
  refine .bind (makes_mouseWrite _) fun _ => .bind makes_mouseRead fun _ =>
    .bind (makes_mouseWrite _) fun _ => .bind makes_mouseRead fun _ =>
    .bind (makes_mouseWrite _) fun _ => .bind makes_mouseRead fun _ =>
    .bind (makes_mouseWrite _) fun _ => .bind makes_mouseRead fun _ =>
    .bind (makes_mouseWrite _) fun _ => .bind makes_mouseRead fun _ =>
    .bind (makes_mouseWrite _) fun _ => .bind makes_mouseRead fun _ =>
    .bind (makes_mouseWrite _) fun _ => .bind makes_mouseRead fun _ =>
    .bind (makes_mouseWrite _) fun _ => .bind makes_mouseRead fun _ => .bind makes_mouseRead fun _ =>
    .bind (makes_mouseWrite _) fun _ => .bind makes_mouseRead fun _ => .done _

/-- **Registering a handler.** -/
theorem along_register (owned : s.Owned mouse) (h : Handler) :
    Prog.Along (board peripherals) (Board.Owned mouse) (idtRegisterHandler h.vector h) s
      fun _ t => t.Owned (mouse || decide (h = .mouse)) ∧ t.interruptHandlers h.vector = some h := by
  have after := owned.register h
  refine .ask owned (.pure ⟨after.ready, after.handled, fun now => ?_⟩ ⟨after, Function.update_self _ _ _⟩)
  exact after.mouse (by rw [now, Bool.true_or])

/-- Registering a handler that is not the mouse's. -/
theorem along_register_other (owned : s.Owned mouse) (h : Handler) (other : h ≠ .mouse) :
    Prog.Along (board peripherals) (Board.Owned mouse) (idtRegisterHandler h.vector h) s
      fun _ t => t.Owned mouse ∧ t.interruptHandlers h.vector = some h := by
  refine (along_register owned h).mono (fun _ => id) fun _ t both => ⟨?_, both.2⟩
  rw [← Bool.or_false mouse, ← decide_eq_false other]
  exact both.1

/-- **One mask is read and written.** -/
theorem along_master (owned : s.Owned mouse) (f : UInt8 → UInt8)
    (after : (s.withMasks (f s.master.imr) s.slave.imr).Owned mouse) :
    Prog.Along (board peripherals) (Board.Owned mouse)
      (do let value ← inb pic1Data; outb pic1Data (f value)) s
      fun _ t => t = s.withMasks (f s.master.imr) s.slave.imr := by
  have written : (board peripherals (.outb pic1Data (f s.master.imr)) s).2 =
      s.withMasks (f s.master.imr) s.slave.imr := by
    show ({ s with master := s.master.data (f s.master.imr) } : Board ρ) = _
    rw [Controller.data_mask owned.ready.1]
    rfl
  exact .ask owned (.ask owned (.pure (written ▸ after) written))

theorem along_slave (owned : s.Owned mouse) (f : UInt8 → UInt8)
    (after : (s.withMasks s.master.imr (f s.slave.imr)).Owned mouse) :
    Prog.Along (board peripherals) (Board.Owned mouse)
      (do let value ← inb pic2Data; outb pic2Data (f value)) s
      fun _ t => t = s.withMasks s.master.imr (f s.slave.imr) := by
  have written : (board peripherals (.outb pic2Data (f s.slave.imr)) s).2 =
      s.withMasks s.master.imr (f s.slave.imr) := by
    show ({ s with slave := s.slave.data (f s.slave.imr) } : Board ρ) = _
    rw [Controller.data_mask owned.ready.2]
    rfl
  exact .ask owned (.ask owned (.pure (written ▸ after) written))

/-- **Unmasking the line of a registered handler.** -/
theorem along_unmask {irq : Nat} {h : Handler} (owned : s.Owned mouse)
    (registered : s.interruptHandlers (32 + irq) = some h) (place : h.vector = 32 + irq) :
    Prog.Along (board peripherals) (Board.Owned mouse) (picUnmaskIrq irq) s fun _ t => t.Owned mouse := by
  have handled : ∀ line : Fin 16,
      line ∉ ((picUnmaskIrq irq).run (board peripherals) s).2.masked → line ∉ s.masked ∨
        ∃ h, s.interruptHandlers (32 + line.val) = some h ∧ h.vector = 32 + line.val := by
    intro line open'
    rw [masked_unmaskIrq owned.ready, Set.mem_sdiff, not_and_or, not_not] at open'
    rcases open' with before | (now : line.val = irq)
    · exact .inl before
    · rw [now]
      exact .inr ⟨h, registered, place⟩
  rw [run_picUnmaskIrq owned.ready] at handled
  by_cases low : irq < 8
  · rw [if_pos low] at handled
    have after := owned.withMasks handled
    have along := @along_master ρ peripherals s mouse owned (· &&& ~~~ lineBit irq) after
    unfold picUnmaskIrq
    simp only [if_pos low]
    exact along.mono (fun _ => id) fun _ t same => same ▸ after
  · rw [if_neg low] at handled
    have after := owned.withMasks handled
    have along := @along_slave ρ peripherals s mouse owned (· &&& ~~~ lineBit (irq - 8)) after
    unfold picUnmaskIrq
    simp only [if_neg low]
    exact along.mono (fun _ => id) fun _ t same => same ▸ after

/-- **Masking a line.** -/
theorem along_mask (owned : s.Owned mouse) (irq : Nat) :
    Prog.Along (board peripherals) (Board.Owned mouse) (picMaskIrq irq) s
      fun _ t => t.Owned mouse ∧ t.masked = s.masked ∪ {line | line.val = irq} := by
  have more := @masked_maskIrq ρ peripherals s owned.ready irq
  rw [run_picMaskIrq owned.ready] at more
  by_cases low : irq < 8
  · rw [if_pos low] at more
    have after := owned.masksMore (more ▸ Set.subset_union_left)
    have along := @along_master ρ peripherals s mouse owned (· ||| lineBit irq) after
    unfold picMaskIrq
    simp only [if_pos low]
    exact along.mono (fun _ => id) fun _ t same => same ▸ ⟨after, more⟩
  · rw [if_neg low] at more
    have after := owned.masksMore (more ▸ Set.subset_union_left)
    have along := @along_slave ρ peripherals s mouse owned (· ||| lineBit (irq - 8)) after
    unfold picMaskIrq
    simp only [if_neg low]
    exact along.mono (fun _ => id) fun _ t same => same ▸ ⟨after, more⟩

/-- A byte written elsewhere, the handler of a line being registered. -/
theorem along_outb {port num : Nat} {h : Handler} (value : UInt8)
    (other : port ≠ pic1Command ∧ port ≠ pic1Data ∧ port ≠ pic2Command ∧ port ≠ pic2Data)
    (both : s.Owned mouse ∧ s.interruptHandlers num = some h) :
    Prog.Along (board peripherals) (Board.Owned mouse) (outb port value) s
      fun _ t => t.Owned mouse ∧ t.interruptHandlers num = some h :=
  (along_elsewhere (makes_outb value other) both.1).mono (fun _ => id)
    fun _ _ kept => ⟨kept.1, kept.2 ▸ both.2⟩

theorem along_timerInit (owned : s.Owned mouse) (frequency : Nat) :
    Prog.Along (board peripherals) (Board.Owned mouse) (timerInit frequency) s fun _ t => t.Owned mouse := by
  refine .bind (along_register_other owned .timer (by decide)) fun _ t first => ?_
  refine .bind (along_outb _ (by decide) first) fun _ t second => ?_
  refine .bind (along_outb _ (by decide) second) fun _ t third => ?_
  refine .bind (along_outb _ (by decide) third) fun _ t last => ?_
  exact @along_unmask ρ peripherals t mouse 0 .timer last.1 last.2 rfl

theorem along_keyboardEnableInterrupts (owned : s.Owned mouse) :
    Prog.Along (board peripherals) (Board.Owned mouse) keyboardEnableInterrupts s fun _ t => t.Owned mouse := by
  refine .bind (along_register_other owned .keyboard (by decide)) fun _ t last => ?_
  exact @along_unmask ρ peripherals t mouse 1 .keyboard last.1 last.2 rfl

/-- The line is masked before its handler goes. -/
theorem along_keyboardDisableInterrupts (owned : s.Owned mouse) :
    Prog.Along (board peripherals) (Board.Owned mouse) keyboardDisableInterrupts s fun _ t => t.Owned mouse := by
  refine .bind (along_mask owned 1) fun _ t both => ?_
  obtain ⟨here, masked⟩ := both
  have after : ({ t with interruptHandlers := Function.update t.interruptHandlers 0x21 none } : Board ρ).Owned
      mouse := by
    refine ⟨here.ready, fun line open' => ?_, fun now => ?_⟩
    · obtain ⟨h, found, place⟩ := here.handled line open'
      have other : 32 + line.val ≠ 0x21 := by
        intro same
        have hidden : line ∈ t.masked := by
          rw [masked]
          exact .inr (show line.val = 1 by omega)
        exact open' hidden
      exact ⟨h, (Function.update_of_ne other _ _).trans found, place⟩
    · show Function.update t.interruptHandlers 0x21 none 44 = some .mouse
      rw [Function.update_of_ne (by decide)]
      exact here.mouse now
  exact .ask here (.pure after after)

theorem along_mouseInit (owned : s.Owned mouse) :
    Prog.Along (board peripherals) (Board.Owned mouse) mouseInit s fun _ t => t.Owned true := by
  refine .bind (along_elsewhere makes_mouseSetUp owned) fun _ t kept => ?_
  refine (along_register kept.1 .mouse).mono (fun _ => id) fun _ t both => ?_
  have all : (mouse || decide (Handler.mouse = .mouse)) = true := by simp
  exact all ▸ both.1

/-- **Every call of a driver keeps every unmasked line with its handler**, at every moment. -/
theorem DriverOp.along (owned : s.Owned mouse) (op : DriverOp)
    (first : op = .mouseEnableInterrupts → mouse = true) :
    Prog.Along (board peripherals) (Board.Owned mouse) op.prog s
      fun _ t => t.Owned (mouse || decide (op = .mouseInit)) := by
  have keeps : op ≠ .mouseInit → ∀ t : Board ρ, t.Owned mouse → t.Owned (mouse || decide (op = .mouseInit)) := by
    intro other t here
    rwa [decide_eq_false other, Bool.or_false]
  cases op with
  | timerInit frequency =>
      exact (along_timerInit owned frequency).mono (fun _ => id) fun _ => keeps fun same => by cases same
  | keyboardEnableInterrupts =>
      exact (along_keyboardEnableInterrupts owned).mono (fun _ => id) fun _ => keeps fun same => by cases same
  | keyboardDisableInterrupts =>
      exact (along_keyboardDisableInterrupts owned).mono (fun _ => id) fun _ => keeps fun same => by cases same
  | mouseInit =>
      refine (along_mouseInit owned).mono (fun _ => id) fun _ t here => ?_
      have all : (mouse || decide (DriverOp.mouseInit = .mouseInit)) = true := by simp
      exact all ▸ here
  | mouseEnableInterrupts =>
      exact (@along_unmask ρ peripherals s mouse 12 .mouse owned (owned.mouse (first rfl)) rfl).mono (fun _ => id)
        fun _ => keeps fun same => by cases same
  | mouseDisableInterrupts =>
      exact (along_mask owned 12).mono (fun _ => id) fun _ t both => keeps (fun same => by cases same) t both.1

/-- **Over a run.** -/
theorem DriverOp.along_progs (owned : s.Owned mouse) {ops : List DriverOp} (first : MouseFirst mouse ops) :
    Prog.Along (board peripherals) (Board.Owned false) (DriverOp.progs ops) s fun _ _ => True := by
  have weaker : ∀ (m : Bool) (t : Board ρ), t.Owned m → t.Owned false :=
    fun m t strong => ⟨strong.ready, strong.handled, fun now => by cases now⟩
  induction ops generalizing s mouse with
  | nil => exact .pure (weaker _ s owned) trivial
  | cons op ops ih =>
      refine .bind ((op.along owned first.1).mono (weaker mouse) fun _ _ => id) fun _ t here => ?_
      exact ih here first.2

/-- **After `idt_init` every line is masked**, whatever state the controllers were in. -/
theorem idtInit_masks (s : Board ρ) :
    (idtInit.run (board peripherals) s).2.Ready ∧ (idtInit.run (board peripherals) s).2.masked = Set.univ := by
  have ready : (picInit.run (board peripherals)
      ((clearHandlers idtEntries).run (board peripherals) s).2).2.Ready := by
    obtain ⟨rest, ran⟩ := @run_picInit ρ peripherals
      ((clearHandlers idtEntries).run (board peripherals) s).2
    rw [ran]
    exact ⟨rfl, rfl⟩
  simp only [idtInit, Prog.run_bind]
  refine ⟨?_, masked_disableAll ready⟩
  rw [picDisableAll, run_masks ready]
  exact ready

/-- So it starts a run with every unmasked line handled. -/
theorem idtInit_owned (s : Board ρ) : (idtInit.run (board peripherals) s).2.Owned false := by
  obtain ⟨ready, masked⟩ := @idtInit_masks ρ peripherals s
  refine ⟨ready, fun line open' => absurd ?_ open', fun now => by cases now⟩
  rw [masked]
  exact Set.mem_univ line

end Keep

/-- **Unmasked lines are handled.** From any state of the controllers and whatever the peripherals do, at every
moment of every run of the drivers after `idt_init`, between any two accesses: an unmasked line has the handler
of its own driver registered, and the only lines that get through to the CPU are those of the timer and of the
keyboard. -/
theorem unmasked_handled {ρ : Type} (peripherals : PortDevice Empty ρ) (s : Board ρ) {ops : List DriverOp}
    (first : MouseFirst false ops) :
    ∀ t ∈ (DriverOp.progs ops).passes (board peripherals) (idtInit.run (board peripherals) s).2, ∀ line,
      (line ∉ t.masked → ∃ h, t.interruptHandlers (32 + line.val) = some h ∧ h.vector = 32 + line.val) ∧
        (t.Deliverable line → line = 0 ∨ line = 1) := by
  intro t member line
  have here := (DriverOp.along_progs (idtInit_owned s) first).passes t member
  exact ⟨here.handled line, here.deliverable⟩

/-- `mouse_init`, `mouse_enable_interrupts` and what `kmain` does. -/
def allDrivers : List DriverOp := [.timerInit 100, .keyboardEnableInterrupts, .mouseInit, .mouseEnableInterrupts]

theorem allDrivers_first : MouseFirst false allDrivers := by
  simp [allDrivers, MouseFirst]

/-- With all drivers running, the mouse does not get through. -/
theorem unmasked_handled_all :
    ¬ ((DriverOp.progs allDrivers).run (board openBus) (idtInit.run (board openBus) firmwareBoard).2).2.Deliverable
      12 := fun through =>
  absurd ((unmasked_handled openBus firmwareBoard allDrivers_first _ (Prog.end_mem_passes _) 12).2 through)
    (by decide)

/-! ### Interrupts while the drivers run -/

/-- What an access does to the state that interrupts work on: a store changes the table of handlers. -/
def Irqs.afterAccess {Fs : Type} (t : Irqs Fs) : Access HandlerStore → Irqs Fs
  | .store what => t.idtRegisterHandler what.num what.handler
  | _ => t

/-- The rest of what the kernel does, the board, and what interrupts work on. -/
structure Running (ρ Fs : Type) where
  prog : PortProg HandlerStore Unit
  board : Board ρ
  irqs : Irqs Fs

/-- The next access of the kernel, or an interrupt of a line that gets through, with what the ports return
during it. -/
inductive RunningStep {ρ Fs : Type} (peripherals : PortDevice Empty ρ) :
    Running ρ Fs → Option (Fin 16 × (Nat → UInt8)) → Running ρ Fs → Prop
  | access (r : Access HandlerStore) (next : r.Answer → PortProg HandlerStore Unit) (b : Board ρ) (t : Irqs Fs) :
      RunningStep peripherals ⟨.ask r next, b, t⟩ none
        ⟨next (Interrupt.board peripherals r b).1, (Interrupt.board peripherals r b).2, t.afterAccess r⟩
  | interrupt {p : PortProg HandlerStore Unit} {b : Board ρ} {t t' : Irqs Fs} {irq : Fin 16}
      {inb : Nat → UInt8} (through : b.Deliverable irq) (handled : t.exec (.interrupt irq inb) = .ok t') :
      RunningStep peripherals ⟨p, b, t⟩ (some (irq, inb)) ⟨p, b, t'⟩

/-- A store puts a handler where it belongs, if it stores one. -/
def Placed : Access HandlerStore → Prop
  | .store what => ∀ h ∈ what.handler, what.num = h.vector
  | _ => True

section Running

variable {ρ Fs : Type} {peripherals : PortDevice Empty ρ} {c d : Running ρ Fs}
  {event : Option (Fin 16 × (Nat → UInt8))} {t : Irqs Fs}

theorem Elsewhere.placed (r : Access HandlerStore) (elsewhere : Elsewhere r) : Placed r := by
  cases r with
  | store what => exact absurd elsewhere id
  | _ => trivial

theorem makes_register (h : Handler) : (idtRegisterHandler h.vector h).Makes Placed :=
  .ask (fun _ same => congrArg Handler.vector (Option.some.inj same)) fun _ => .done _

theorem placed_outb (port : Nat) (value : UInt8) : (outb port value : PortProg HandlerStore Unit).Makes Placed :=
  .ask trivial fun _ => .done _

theorem placed_unmask (irq : Nat) : (picUnmaskIrq irq : PortProg HandlerStore Unit).Makes Placed := by
  unfold picUnmaskIrq
  split
  exact .ask trivial fun _ => placed_outb _ _

theorem placed_mask (irq : Nat) : (picMaskIrq irq : PortProg HandlerStore Unit).Makes Placed := by
  unfold picMaskIrq
  split
  exact .ask trivial fun _ => placed_outb _ _

/-- **The drivers put handlers where they belong.** -/
theorem DriverOp.placed (op : DriverOp) : op.prog.Makes Placed := by
  cases op with
  | timerInit frequency =>
      exact .bind (makes_register .timer) fun _ => .bind (placed_outb _ _) fun _ => .bind (placed_outb _ _)
        fun _ => .bind (placed_outb _ _) fun _ => placed_unmask 0
  | keyboardEnableInterrupts => exact .bind (makes_register .keyboard) fun _ => placed_unmask 1
  | keyboardDisableInterrupts =>
      exact .bind (placed_mask 1) fun _ => .ask (fun _ never => by cases never) fun _ => .done _
  | mouseInit => exact .bind (makes_mouseSetUp.mono Elsewhere.placed) fun _ => makes_register .mouse
  | mouseEnableInterrupts => exact placed_unmask 12
  | mouseDisableInterrupts => exact placed_mask 12

theorem DriverOp.placed_progs (ops : List DriverOp) : (DriverOp.progs ops).Makes Placed := by
  induction ops with
  | nil => exact .done _
  | cons op ops ih => exact .bind op.placed fun _ => ih

/-- What every step keeps: all lines that will get through are the timer's and the keyboard's, handlers are
stored where they belong, and every interrupt so far was acknowledged. -/
structure Running.Sound (peripherals : PortDevice Empty ρ) (c : Running ρ Fs) : Prop where
  owned : ∀ b ∈ c.prog.passes (Interrupt.board peripherals) c.board, b.Owned false
  placed : c.prog.Makes Placed
  irqs : c.irqs.Sound
  acknowledged : ∀ h ∈ c.irqs.history, h.Acknowledged

theorem Irqs.Sound.afterAccess (sound : t.Sound) {r : Access HandlerStore} (placed : Placed r) :
    (t.afterAccess r).Sound := by
  cases r with
  | store what =>
      refine ⟨fun n h found => ?_, sound.clear⟩
      have found : Function.update t.interruptHandlers what.num what.handler n = some h := found
      by_cases here : n = what.num
      · rw [here, Function.update_self] at found
        rw [here]
        exact placed h found
      · rw [Function.update_of_ne here] at found
        exact sound.vectors n h found
  | _ => exact sound

theorem Irqs.afterAccess_history (t : Irqs Fs) (r : Access HandlerStore) :
    (t.afterAccess r).history = t.history := by
  cases r <;> rfl

/-- **One step.** -/
theorem Running.Sound.step (sound : c.Sound peripherals) (step : RunningStep peripherals c event d) :
    d.Sound peripherals := by
  cases step with
  | access r next b t =>
      have kind := sound.placed
      cases kind with
      | ask here rest =>
          refine ⟨fun u member => sound.owned u (List.mem_cons_of_mem _ member), rest _,
            sound.irqs.afterAccess here, ?_⟩
          rw [Irqs.afterAccess_history]
          exact sound.acknowledged
  | @interrupt p b t t' irq inb through handled =>
      have line := (sound.owned b (Prog.start_mem_passes p)).deliverable through
      have silent : MouseSilent t (.interrupt irq inb) := by
        rintro rfl
        rcases line with no | no <;> exact absurd no (by decide)
      obtain ⟨after, keeps⟩ := sound.irqs.step handled
      exact ⟨sound.owned, sound.placed, after, keeps.mpr ⟨sound.acknowledged, silent⟩⟩

/-- **Over a run**, from any board whose unmasked lines are handled. -/
theorem Running.acknowledged {b : Board ρ} {session : Session Fs} {keyboard : Keyboard} {mouse : Mouse}
    {ops : List DriverOp} {events : List (Option (Fin 16 × (Nat → UInt8)))} (owned : b.Owned false)
    (first : MouseFirst false ops)
    (run : Run (RunningStep peripherals) ⟨DriverOp.progs ops, b, .boot session keyboard mouse⟩ events d) :
    ∀ h ∈ d.irqs.history, h.Acknowledged := by
  have start : Running.Sound peripherals ⟨DriverOp.progs ops, b, .boot session keyboard mouse⟩ :=
    ⟨(DriverOp.along_progs owned first).passes, DriverOp.placed_progs ops,
      ⟨(fun n h found => by cases found), fun _ => rfl⟩, fun h member => absurd member List.not_mem_nil⟩
  exact (run.invariant _ (fun _ _ _ here step => here.step step) start).acknowledged

end Running

/-- **Every interrupt that gets through is acknowledged**, in every run that interleaves the accesses of the
drivers after `idt_init` with interrupts of lines that get through, whatever the controllers held before and
whatever the ports return. -/
theorem deliverable_acknowledged {ρ Fs : Type} {peripherals : PortDevice Empty ρ} {s : Board ρ}
    {session : Session Fs} {keyboard : Keyboard} {mouse : Mouse} {ops : List DriverOp}
    {events : List (Option (Fin 16 × (Nat → UInt8)))} {d : Running ρ Fs} (first : MouseFirst false ops)
    (run : Run (RunningStep peripherals)
      ⟨DriverOp.progs ops, (idtInit.run (board peripherals) s).2, .boot session keyboard mouse⟩ events d) :
    ∀ h ∈ d.irqs.history, h.Acknowledged :=
  Running.acknowledged (idtInit_owned s) first run

/-- The keyboard's line gets through once its driver has unmasked it. -/
theorem key_run {b : Board Unit} (ready : b.Ready) : ∃ d : Running Unit Empty,
    Run (RunningStep openBus) ⟨DriverOp.progs [.keyboardEnableInterrupts], b, bootIrqs⟩
      [none, none, none, some (1, fun _ => 0x1E)] d ∧ d.irqs.history.length = 1 := by
  have through : ((picUnmaskIrq 1).run (board openBus)
      (board openBus (.store ⟨0x21, some .keyboard⟩) b).2).2.Deliverable 1 := by
    refine ⟨?_, fun slave => absurd slave (by decide)⟩
    rw [masked_unmaskIrq (s := (board openBus (.store ⟨0x21, some .keyboard⟩) b).2) ready]
    exact fun both => both.2 rfl
  exact ⟨_, .cons (.access _ _ _ _) (.cons (.access _ _ _ _) (.cons (.access _ _ _ _)
    (.cons (.interrupt through rfl) (.nil _)))), rfl⟩

/-- A key. -/
theorem deliverable_acknowledged_key : ∃ d,
    Run (RunningStep openBus) ⟨DriverOp.progs [.keyboardEnableInterrupts],
        (idtInit.run (board openBus) firmwareBoard).2, bootIrqs⟩
      [none, none, none, some (1, fun _ => 0x1E)] d ∧
      d.irqs.history.length = 1 ∧ ∀ h ∈ d.irqs.history, h.Acknowledged := by
  obtain ⟨d, run, once⟩ := key_run (@idtInit_masks Unit openBus firmwareBoard).1
  exact ⟨d, run, once, deliverable_acknowledged (by simp [MouseFirst]) run⟩

end Kfs.Interrupt
