/-
**Hardware interrupts and their acknowledgement: `idt.c`, `pic.c`.**

`interrupt_handler_common` calls the handler registered for an interrupt, or `default_irq_handler`. The
interrupt controllers hold an in-service bit for each line being served and clear the lowest one at an end
of interrupt; a line of the slave is served through line 2 of the master. The handler that runs has to send
the end of interrupt: the timer's, the keyboard's and the default one do, `mouse_handler` does not, on any
of its paths.

`irqs_acknowledged`: in a run from boot every interrupt is acknowledged exactly when no interrupt of the
mouse comes while its handler is registered.
-/

import Kfs.Base.Trace
import Kfs.Interrupt.Devices
import Kfs.Shell.Session

namespace Kfs.Interrupt

open Kfs.Shell

/-! ### The interrupt controllers -/

/-- The two controllers. -/
inductive Pic where
  | master
  | slave
  deriving DecidableEq, Repr

/-- The in-service registers. -/
structure InService where
  master : BitVec 8
  slave : BitVec 8
  deriving DecidableEq, Repr

/-- No line is in service. -/
def InService.quiet : InService := ⟨0, 0⟩

/-- The CPU takes an interrupt: the bit of its line is set, through line 2 for a line of the slave. -/
def InService.take (r : InService) (irq : Nat) : InService :=
  if irq < 8 then { r with master := r.master ||| 1#8 <<< irq }
  else ⟨r.master ||| 1#8 <<< 2, r.slave ||| 1#8 <<< (irq - 8)⟩

/-- The register after an end of interrupt: the lowest bit is cleared. -/
def clearLowest (x : BitVec 8) : BitVec 8 := x &&& (x - 1)

/-! ### The kernel's side -/

/-- The handlers of the repository. -/
inductive Handler where
  | timer
  | keyboard
  | mouse
  deriving DecidableEq, Repr

/-- The interrupt a handler is registered for: `IRQ0`, `IRQ1` and `IRQ12`. -/
def Handler.vector : Handler → Nat
  | timer => 0x20
  | keyboard => 0x21
  | mouse => 0x2C

/-- An interrupt that was served: the ends of interrupt its handler sent, and what is in service when the
handler returns. -/
structure Served where
  irq : Nat
  eois : List Pic
  left : InService
  deriving DecidableEq, Repr

/-- The state interrupts work on. `eois` are those of the interrupt being served, `scrolled` the calls of
`scrollback_scroll`, and `history` the interrupts served, the last one first. -/
structure Irqs (Fs : Type) where
  session : Session Fs
  keyboard : Keyboard
  mouse : Mouse
  scrolled : List Int
  interruptHandlers : Nat → Option Handler
  inService : InService
  eois : List Pic
  history : List Served

namespace Irqs

variable {Fs : Type}

/-- `idt_register_handler`, and `idt_unregister_handler` for none. -/
def idtRegisterHandler (t : Irqs Fs) (num : Nat) (handler : Option Handler) : Irqs Fs :=
  { t with interruptHandlers := Function.update t.interruptHandlers num handler }

/-- `outb(PIC1_COMMAND, PIC_EOI)` or `outb(PIC2_COMMAND, PIC_EOI)`. -/
def outbEoi (t : Irqs Fs) (pic : Pic) : Irqs Fs :=
  { t with
    eois := pic :: t.eois
    inService := match pic with
      | .master => { t.inService with master := clearLowest t.inService.master }
      | .slave => { t.inService with slave := clearLowest t.inService.slave } }

/-- `pic_send_eoi`. -/
def picSendEoi (t : Irqs Fs) (irq : Nat) : Irqs Fs :=
  let t := if irq ≥ 8 then t.outbEoi .slave else t
  t.outbEoi .master

/-- `default_irq_handler`. -/
def defaultIrqHandler (t : Irqs Fs) (intNo : Nat) : Irqs Fs :=
  if 32 ≤ intNo ∧ intNo ≤ 47 then t.picSendEoi (intNo - 32) else t

/-- `timer_irq_handler`, the end of interrupt included. -/
def timerHandler (t : Irqs Fs) : Outcome (Irqs Fs) := do
  let session ← timerIrqHandler t.session
  return { t with session := session }.picSendEoi 0

/-- `keyboard_irq_handler`. -/
def keyboardIrqHandler (t : Irqs Fs) (inb : Nat → UInt8) : Irqs Fs :=
  { t with keyboard := t.keyboard.keyboardInterruptHandler inb }.picSendEoi 1

/-- `mouse_handler`. -/
def mouseHandler (t : Irqs Fs) (inb : Nat → UInt8) : Irqs Fs :=
  let (mouse, delta) := t.mouse.mouseHandler inb
  { t with mouse := mouse, scrolled := delta.toList ++ t.scrolled }

/-- `interrupt_handler_common`. `default_exception_handler` halts the system. -/
def interruptHandlerCommon (t : Irqs Fs) (intNo : Nat) (inb : Nat → UInt8) : Outcome (Irqs Fs) :=
  match t.interruptHandlers intNo with
  | some .timer => t.timerHandler
  | some .keyboard => .ok (t.keyboardIrqHandler inb)
  | some .mouse => .ok (t.mouseHandler inb)
  | none =>
      if intNo < 32 then .diverge
      else if 32 ≤ intNo ∧ intNo ≤ 47 then .ok (t.defaultIrqHandler intNo)
      else .ok t

end Irqs

/-- What happens: an interrupt of a line, with what the ports return during it, or a handler is registered
or unregistered by the driver it belongs to. -/
inductive IrqOp where
  | interrupt (irq : Fin 16) (inb : Nat → UInt8)
  | timerInit
  | keyboardEnableInterrupts
  | keyboardDisableInterrupts
  | mouseInit

namespace Irqs

variable {Fs : Type}

/-- One step. -/
def exec (t : Irqs Fs) : IrqOp → Outcome (Irqs Fs)
  | .interrupt irq inb => do
      let t := { t with eois := [], inService := t.inService.take irq }
      let t ← t.interruptHandlerCommon (32 + irq) inb
      return { t with history := ⟨irq, t.eois, t.inService⟩ :: t.history }
  | .timerInit => .ok (t.idtRegisterHandler Handler.timer.vector (some .timer))
  | .keyboardEnableInterrupts => .ok (t.idtRegisterHandler Handler.keyboard.vector (some .keyboard))
  | .keyboardDisableInterrupts => .ok (t.idtRegisterHandler Handler.keyboard.vector none)
  | .mouseInit =>
      .ok ({ t with mouse := { t.mouse with mouseCycle := 0 } }.idtRegisterHandler Handler.mouse.vector
        (some .mouse))

/-- One step that returns. -/
def Step (t : Irqs Fs) (op : IrqOp) (t' : Irqs Fs) : Prop := t.exec op = .ok t'

/-- After `idt_init`, with nothing in service. -/
def boot (session : Session Fs) (keyboard : Keyboard) (mouse : Mouse) : Irqs Fs where
  session := session
  keyboard := keyboard
  mouse := mouse
  scrolled := []
  interruptHandlers := fun _ => none
  inService := .quiet
  eois := []
  history := []

end Irqs

/-- **An interrupt is acknowledged**: one end of interrupt to the master, one to the slave if the line is the
slave's, and nothing is left in service. -/
structure Served.Acknowledged (h : Served) : Prop where
  master : h.eois.count .master = 1
  slave : h.eois.count .slave = if 8 ≤ h.irq then 1 else 0
  clear : h.left = .quiet

/-- No interrupt of the mouse while its handler is registered. -/
def MouseSilent {Fs : Type} (t : Irqs Fs) : IrqOp → Prop
  | .interrupt irq _ => irq = 12 → t.interruptHandlers 44 ≠ some .mouse
  | _ => True

/-! ### One interrupt -/

section Steps

variable {Fs : Type} {t t' : Irqs Fs} {op : IrqOp}

/-- **One end of interrupt for a line** that is alone in service leaves nothing in service. -/
theorem picSendEoi_acknowledges (t : Irqs Fs) (irq : Fin 16) (none : t.eois = [])
    (alone : t.inService = InService.quiet.take irq) :
    Served.Acknowledged ⟨irq, (t.picSendEoi irq).eois, (t.picSendEoi irq).inService⟩ := by
  have clears : ∀ irq : Fin 16,
      (if 8 ≤ irq.val then
        (⟨clearLowest (InService.quiet.take irq).master, clearLowest (InService.quiet.take irq).slave⟩ :
          InService)
      else { InService.quiet.take irq with master := clearLowest (InService.quiet.take irq).master }) =
        .quiet := by decide
  by_cases high : 8 ≤ irq.val
  · have here := clears irq
    rw [if_pos high] at here
    have eois : (t.picSendEoi irq).eois = [.master, .slave] := by
      simp [Irqs.picSendEoi, Irqs.outbEoi, high, none]
    refine ⟨by rw [eois]; rfl, by rw [eois, if_pos high]; rfl, ?_⟩
    rw [← here, ← alone]
    simp [Irqs.picSendEoi, Irqs.outbEoi, high]
  · have here := clears irq
    rw [if_neg high] at here
    have eois : (t.picSendEoi irq).eois = [.master] := by
      simp [Irqs.picSendEoi, Irqs.outbEoi, high, none]
    refine ⟨by rw [eois]; rfl, by rw [eois, if_neg high]; rfl, ?_⟩
    rw [← here, ← alone]
    simp [Irqs.picSendEoi, Irqs.outbEoi, high]

/-- Handlers are where their drivers register them, and the last interrupt left nothing in service if all
were acknowledged. -/
structure Irqs.Sound (t : Irqs Fs) : Prop where
  vectors : ∀ n h, t.interruptHandlers n = some h → n = h.vector
  clear : (∀ h ∈ t.history, h.Acknowledged) → t.inService = .quiet

/-- Registering a handler where it belongs. -/
theorem Irqs.Sound.register (sound : t.Sound) (handler : Handler) (registered : Option Handler)
    (own : ∀ h ∈ registered, h = handler) :
    (t.idtRegisterHandler handler.vector registered).Sound := by
  refine ⟨fun n h found => ?_, sound.clear⟩
  by_cases here : n = handler.vector
  · have found : Function.update t.interruptHandlers handler.vector registered n = some h := found
    rw [here, Function.update_self] at found
    rw [here, own h found]
  · exact sound.vectors n h ((Function.update_of_ne here _ _).symm.trans found)

/-- The parts that handlers leave alone until the end of interrupt. -/
structure Irqs.SameLines (t u : Irqs Fs) : Prop where
  handlers : u.interruptHandlers = t.interruptHandlers
  inService : u.inService = t.inService
  eois : u.eois = t.eois
  history : u.history = t.history

theorem picSendEoi_kept (t : Irqs Fs) (irq : Nat) :
    (t.picSendEoi irq).interruptHandlers = t.interruptHandlers ∧ (t.picSendEoi irq).history = t.history := by
  unfold Irqs.picSendEoi
  simp only
  split <;> exact ⟨rfl, rfl⟩

/-- **What handling an interrupt does**: one end of interrupt for its line at the end, or none when it goes
to the mouse. -/
theorem interruptHandlerCommon_cases
    (vectors : ∀ n h, t.interruptHandlers n = some h → n = h.vector) {irq : Fin 16} {inb : Nat → UInt8}
    (done : t.interruptHandlerCommon (32 + irq) inb = .ok t') :
    (∃ u, t' = u.picSendEoi irq ∧ t.SameLines u ∧ ¬ (irq = 12 ∧ t.interruptHandlers 44 = some .mouse)) ∨
      (irq = 12 ∧ t.interruptHandlers 44 = some .mouse) ∧ t.SameLines t' := by
  unfold Irqs.interruptHandlerCommon at done
  cases registered : t.interruptHandlers (32 + irq) with
  | none =>
      simp only [registered] at done
      rw [if_neg (by omega), if_pos (by omega)] at done
      cases done
      refine .inl ⟨t, ?_, ⟨rfl, rfl, rfl, rfl⟩, ?_⟩
      · rw [Irqs.defaultIrqHandler, if_pos (by omega), Nat.add_sub_cancel_left]
      · rintro ⟨rfl, mouse⟩
        cases registered.symm.trans mouse
  | some handler =>
      have place := vectors _ _ registered
      simp only [registered] at done
      cases handler with
      | timer =>
          have line : irq = 0 := Fin.ext (by simpa [Handler.vector] using place)
          subst line
          obtain ⟨session, -, done⟩ := Outcome.bind_eq_ok.mp done
          cases done
          exact .inl ⟨{ t with session := session }, rfl, ⟨rfl, rfl, rfl, rfl⟩,
            fun both => absurd both.1 (by decide)⟩
      | keyboard =>
          have line : irq = 1 := Fin.ext (by simp only [Handler.vector] at place; omega)
          subst line
          cases done
          exact .inl ⟨{ t with keyboard := t.keyboard.keyboardInterruptHandler inb }, rfl,
            ⟨rfl, rfl, rfl, rfl⟩, fun both => absurd both.1 (by decide)⟩
      | mouse =>
          have line : irq = 12 := Fin.ext (by simp only [Handler.vector] at place; omega)
          subst line
          cases done
          exact .inr ⟨⟨rfl, registered⟩, ⟨rfl, rfl, rfl, rfl⟩⟩

/-- **One step**: everything stays acknowledged exactly when the step is no interrupt for the mouse. -/
theorem Irqs.Sound.step (sound : t.Sound) (step : t.Step op t') :
    t'.Sound ∧ ((∀ h ∈ t'.history, h.Acknowledged) ↔
      (∀ h ∈ t.history, h.Acknowledged) ∧ MouseSilent t op) := by
  cases op with
  | interrupt irq inb =>
      obtain ⟨u, handled, last⟩ := Outcome.bind_eq_ok.mp step
      cases last
      rcases interruptHandlerCommon_cases
          (t := { t with eois := [], inService := t.inService.take irq }) sound.vectors handled with
        ⟨v, rfl, same, silent⟩ | ⟨mouse, same⟩
      · have handlers : (v.picSendEoi irq).interruptHandlers = t.interruptHandlers :=
          (picSendEoi_kept v irq).1.trans same.handlers
        have history : (v.picSendEoi irq).history = t.history :=
          (picSendEoi_kept v irq).2.trans same.history
        refine ⟨⟨fun n h found => sound.vectors n h (handlers ▸ found),
          fun all => (all _ List.mem_cons_self).clear⟩, ⟨fun all => ⟨fun h member => ?_, ?_⟩, ?_⟩⟩
        · exact all h (List.mem_cons_of_mem _ (history ▸ member))
        · exact fun line mouse => silent ⟨line, mouse⟩
        · rintro ⟨all, -⟩ h member
          rcases List.mem_cons.mp member with rfl | old
          · refine picSendEoi_acknowledges v irq same.eois ?_
            rw [same.inService]
            exact congrArg (InService.take · irq) (sound.clear all)
          · exact all h (history ▸ old)
      · refine ⟨⟨fun n h found => sound.vectors n h (same.handlers ▸ found),
          fun all => (all _ List.mem_cons_self).clear⟩, ⟨fun all => ?_, fun both => ?_⟩⟩
        · have sent : u.eois.count .master = 1 := (all _ List.mem_cons_self).master
          rw [same.eois] at sent
          cases sent
        · exact absurd mouse.2 (both.2 mouse.1)
  | timerInit =>
      cases step
      exact ⟨sound.register .timer _ fun h same => (Option.some.inj same).symm, (and_iff_left trivial).symm⟩
  | keyboardEnableInterrupts =>
      cases step
      exact ⟨sound.register .keyboard _ fun h same => (Option.some.inj same).symm, (and_iff_left trivial).symm⟩
  | keyboardDisableInterrupts =>
      cases step
      exact ⟨sound.register .keyboard _ nofun, (and_iff_left trivial).symm⟩
  | mouseInit =>
      cases step
      have kept : Irqs.Sound { t with mouse := { t.mouse with mouseCycle := 0 } } :=
        ⟨sound.vectors, sound.clear⟩
      exact ⟨kept.register .mouse _ fun h same => (Option.some.inj same).symm,
        (and_iff_left trivial).symm⟩

/-- **Over a run.** -/
theorem Irqs.Sound.run {ops : List IrqOp} (sound : t.Sound) (run : Run Irqs.Step t ops t') :
    t'.Sound ∧ ((∀ h ∈ t'.history, h.Acknowledged) ↔
      (∀ h ∈ t.history, h.Acknowledged) ∧ Run (Guarded MouseSilent Irqs.Step) t ops t') := by
  induction run with
  | nil t => exact ⟨sound, (and_iff_left (.nil t)).symm⟩
  | @cons t u v op ops step rest ih =>
      obtain ⟨after, first⟩ := sound.step step
      obtain ⟨last, later⟩ := ih after
      refine ⟨last, ?_⟩
      rw [later, first]
      constructor
      · rintro ⟨⟨all, silent⟩, run⟩
        exact ⟨all, .cons ⟨silent, step⟩ run⟩
      · rintro ⟨all, run⟩
        cases run with
        | cons here run =>
            obtain rfl := Outcome.ok.inj (here.2.symm.trans step)
            exact ⟨⟨all, here.1⟩, run⟩

end Steps

/-- **Every interrupt is acknowledged exactly when none comes for the mouse while its handler is
registered**, in every run from boot: one end of interrupt to the master, one to the slave for the lines of
the slave only, and nothing in service when a handler returns. -/
theorem irqs_acknowledged {Fs : Type} {session : Session Fs} {keyboard : Keyboard} {mouse : Mouse}
    {ops : List IrqOp} {t : Irqs Fs} (run : Run Irqs.Step (.boot session keyboard mouse) ops t) :
    (∀ h ∈ t.history, h.Acknowledged) ↔
      Run (Guarded MouseSilent Irqs.Step) (.boot session keyboard mouse) ops t := by
  have sound : (Irqs.boot session keyboard mouse).Sound := ⟨nofun, fun _ => rfl⟩
  have none : ∀ h ∈ (Irqs.boot session keyboard mouse).history, h.Acknowledged :=
    fun h member => absurd member List.not_mem_nil
  rw [(sound.run run).2, and_iff_right none]

/-- The machine when the shell starts. -/
def bootIrqs : Irqs Empty :=
  .boot (.start Vfs.vfsInit 0 shellKernel) ⟨false, false, false, .qwerty, fun _ => 0, 0, 0⟩
    ⟨0, fun _ => 0⟩

/-- A key is pressed. -/
theorem irqs_acknowledged_key : ∃ t,
    Run Irqs.Step bootIrqs [.keyboardEnableInterrupts, .interrupt 1 fun _ => 0x1E] t ∧
      t.history.length = 1 ∧ ∀ h ∈ t.history, h.Acknowledged := by
  have run : Run (Guarded MouseSilent Irqs.Step) bootIrqs
      [.keyboardEnableInterrupts, .interrupt 1 fun _ => 0x1E] _ :=
    .cons ⟨trivial, rfl⟩ (.cons ⟨fun same => absurd same (by decide), rfl⟩ (.nil _))
  have plain := run.mono fun _ _ _ step => step.2
  exact ⟨_, plain, rfl, (irqs_acknowledged plain).mpr run⟩

/-- The mouse sends a byte: nothing is acknowledged, and line 2 and the mouse's line stay in service. -/
theorem mouse_unacknowledged : ∃ t,
    Run Irqs.Step bootIrqs [.mouseInit, .interrupt 12 fun _ => 0x28] t ∧
      t.inService = ⟨4, 16⟩ ∧ ¬ ∀ h ∈ t.history, h.Acknowledged := by
  refine ⟨_, .cons rfl (.cons rfl (.nil _)), rfl, fun all => ?_⟩
  have sent := (all _ List.mem_cons_self).master
  cases sent

end Kfs.Interrupt
