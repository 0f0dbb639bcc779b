/-
**The interrupt controllers: `pic.c`.**

The functions of `pic.c` are programs on ports, and the board behind the ports has two 8259 controllers and
any other peripherals. A controller takes the first byte with bit 4 on its command port as the start of an
initialisation; the bytes on its data port are then the vector offset, the cascade and the mode, and from
there on its mask.

`pic_refines`: whatever functions of `pic.c` are called, in whatever order, and whatever the peripherals do,
the pair of mask registers is a set of lines that each call changes as it says, and every call leaves both
controllers ready for the next one. `pic_init` leaves the masks alone and has line `i` raise vector `32 + i`.
-/

import Kfs.Base.Ports
import Kfs.Interrupt.Irq

namespace Kfs.Interrupt

/-! ### The board -/

/-- What a controller takes the next byte on its data port for. -/
inductive Expects where
  | mask
  | icw2
  | icw3
  | icw4
  deriving DecidableEq, Repr

/-- An 8259: its mask, the first vector of its lines, its cascade and mode bytes, the first byte of its last
initialisation, what it expects, its request register and the lines in service. -/
structure Controller where
  imr : UInt8
  offset : UInt8
  cascade : UInt8
  mode : UInt8
  icw1 : UInt8
  expects : Expects
  requests : UInt8
  inService : BitVec 8
  deriving DecidableEq, Repr

namespace Controller

/-- A byte on the command port: an initialisation starts, an end of interrupt, or neither. -/
def command (c : Controller) (value : UInt8) : Controller :=
  if value.toBitVec.getLsbD 4 then
    { c with imr := 0, mode := 0, icw1 := value, expects := .icw2, inService := 0 }
  else if value = 0x20 then { c with inService := clearLowest c.inService }
  else c

/-- What follows the bytes of an initialisation: the mode, if the first byte announced it. -/
def afterCascade (c : Controller) : Expects := if c.icw1.toBitVec.getLsbD 0 then .icw4 else .mask

/-- A byte on the data port. -/
def data (c : Controller) (value : UInt8) : Controller :=
  match c.expects with
  | .mask => { c with imr := value }
  | .icw2 =>
      { c with
        offset := value &&& 0xF8
        expects := if c.icw1.toBitVec.getLsbD 1 then c.afterCascade else .icw3 }
  | .icw3 => { c with cascade := value, expects := c.afterCascade }
  | .icw4 => { c with mode := value, expects := .mask }

end Controller

/-- The stores that interrupts can see: `interrupt_handlers[num] = handler`. -/
structure HandlerStore where
  num : Nat
  handler : Option Handler

/-- The controllers, the handlers of `idt.c`, and whatever else is behind the ports. -/
structure Board (ρ : Type) where
  master : Controller
  slave : Controller
  interruptHandlers : Nat → Option Handler
  rest : ρ

/-- `PIC1_COMMAND`. -/
def pic1Command : Nat := 0x20

/-- `PIC1_DATA`. -/
def pic1Data : Nat := 0x21

/-- `PIC2_COMMAND`. -/
def pic2Command : Nat := 0xA0

/-- `PIC2_DATA`. -/
def pic2Data : Nat := 0xA1

/-- The board behind the ports, with peripherals that may do anything. -/
def board {ρ : Type} (peripherals : PortDevice Empty ρ) : PortDevice HandlerStore (Board ρ)
  | .outb port value, s =>
      if port = pic1Command then ((), { s with master := s.master.command value })
      else if port = pic1Data then ((), { s with master := s.master.data value })
      else if port = pic2Command then ((), { s with slave := s.slave.command value })
      else if port = pic2Data then ((), { s with slave := s.slave.data value })
      else ((), { s with rest := (peripherals (.outb port value) s.rest).2 })
  | .inb port, s =>
      if port = pic1Command then (s.master.requests, s)
      else if port = pic1Data then (s.master.imr, s)
      else if port = pic2Command then (s.slave.requests, s)
      else if port = pic2Data then (s.slave.imr, s)
      else ((peripherals (.inb port) s.rest).1, { s with rest := (peripherals (.inb port) s.rest).2 })
  | .outw port value, s => ((), { s with rest := (peripherals (.outw port value) s.rest).2 })
  | .inw port, s => ((peripherals (.inw port) s.rest).1, { s with rest := (peripherals (.inw port) s.rest).2 })
  | .store what, s =>
      ((), { s with interruptHandlers := Function.update s.interruptHandlers what.num what.handler })

/-! ### The functions of the source -/

section Source

variable {Store : Type}

/-- `PIC_EOI`. -/
def picEoi : UInt8 := 0x20

/-- `ICW1_INIT`. -/
def icw1Init : UInt8 := 0x10

/-- `ICW1_ICW4`. -/
def icw1Icw4 : UInt8 := 0x01

/-- `ICW4_8086`. -/
def icw48086 : UInt8 := 0x01

/-- `PIC1_OFFSET`. -/
def pic1Offset : UInt8 := 0x20

/-- `PIC2_OFFSET`. -/
def pic2Offset : UInt8 := 0x28

/-- `pic_wait`. -/
def picWait : PortProg Store Unit := outb 0x80 0

/-- `pic_init`. -/
def picInit : PortProg Store Unit := do
  let mask1 ← inb pic1Data
  let mask2 ← inb pic2Data
  outb pic1Command (icw1Init ||| icw1Icw4)
  picWait
  outb pic2Command (icw1Init ||| icw1Icw4)
  picWait
  outb pic1Data pic1Offset
  picWait
  outb pic2Data pic2Offset
  picWait
  outb pic1Data 0x04
  picWait
  outb pic2Data 0x02
  picWait
  outb pic1Data icw48086
  picWait
  outb pic2Data icw48086
  picWait
  outb pic1Data mask1
  outb pic2Data mask2

/-- `pic_send_eoi`. -/
def picSendEoi (irq : Nat) : PortProg Store Unit := do
  if irq ≥ 8 then outb pic2Command picEoi
  outb pic1Command picEoi

/-- `1 << irq`, as much of it as a byte holds. -/
def lineBit (irq : Nat) : UInt8 := UInt8.ofNat (1 <<< irq)

/-- `pic_mask_irq`. -/
def picMaskIrq (irq : Nat) : PortProg Store Unit := do
  let (port, irq) := if irq < 8 then (pic1Data, irq) else (pic2Data, irq - 8)
  let value ← inb port
  outb port (value ||| lineBit irq)

/-- `pic_unmask_irq`. -/
def picUnmaskIrq (irq : Nat) : PortProg Store Unit := do
  let (port, irq) := if irq < 8 then (pic1Data, irq) else (pic2Data, irq - 8)
  let value ← inb port
  outb port (value &&& ~~~ lineBit irq)

/-- `pic_disable_all`. -/
def picDisableAll : PortProg Store Unit := do
  outb pic1Data 0xFF
  outb pic2Data 0xFF

/-- `pic_get_mask`. -/
def picGetMask : PortProg Store UInt16 := do
  let low ← inb pic1Data
  let high ← inb pic2Data
  return low.toUInt16 ||| (high.toUInt16 <<< 8)

/-- `pic_set_mask`. -/
def picSetMask (mask : UInt16) : PortProg Store Unit := do
  outb pic1Data (mask &&& 0xFF).toUInt8
  outb pic2Data ((mask >>> 8) &&& 0xFF).toUInt8

end Source

/-! ### Sets of lines -/

/-- A set of lines. -/
abbrev Lines : Type := Set (Fin 16)

/-- The lines whose bits are set in a word. -/
def linesOf (mask : UInt16) : Lines := {line | mask.toBitVec.getLsbD line}

/-- A call of a function of `pic.c`. A line to mask or unmask is below 40: `1 << (irq - 8)` is defined for an
`int` of 32 bits. -/
inductive PicOp where
  | init
  | sendEoi (irq : UInt8)
  | maskIrq (irq : Fin 40)
  | unmaskIrq (irq : Fin 40)
  | disableAll
  | getMask
  | setMask (mask : UInt16)
  deriving DecidableEq, Repr

namespace PicOp

/-- The call, with the mask it returns. -/
def prog {Store : Type} : PicOp → PortProg Store (List UInt16)
  | init => do picInit; return []
  | sendEoi irq => do picSendEoi irq.toNat; return []
  | maskIrq irq => do picMaskIrq irq; return []
  | unmaskIrq irq => do picUnmaskIrq irq; return []
  | disableAll => do picDisableAll; return []
  | getMask => do return [← picGetMask]
  | setMask mask => do picSetMask mask; return []

/-- Calls one after the other, with the masks they return. -/
def progs {Store : Type} : List PicOp → PortProg Store (List UInt16)
  | [] => return []
  | op :: ops => do
      let first ← op.prog
      let later ← progs ops
      return first ++ later

/-- **What a call is for**: the masked lines after it. A number that is no line's changes nothing. -/
def masks (masked : Lines) : PicOp → Lines
  | init | sendEoi _ | getMask => masked
  | maskIrq irq => masked ∪ {line | line.val = irq.val}
  | unmaskIrq irq => masked \ {line | line.val = irq.val}
  | disableAll => Set.univ
  | setMask mask => linesOf mask

/-- What a call returns, as a set of lines. -/
def answers (masked : Lines) : PicOp → List Lines
  | getMask => [masked]
  | _ => []

/-- The masked lines after some calls. -/
def masksAll (masked : Lines) : List PicOp → Lines
  | [] => masked
  | op :: ops => masksAll (op.masks masked) ops

/-- What they return. -/
def answersAll (masked : Lines) : List PicOp → List Lines
  | [] => []
  | op :: ops => op.answers masked ++ answersAll (op.masks masked) ops

end PicOp

namespace Board

variable {ρ : Type}

/-- The line is masked. -/
def Masked (s : Board ρ) (line : Fin 16) : Prop :=
  if line.val < 8 then s.master.imr.toBitVec.getLsbD line else s.slave.imr.toBitVec.getLsbD (line - 8)

/-- The masked lines. -/
def masked (s : Board ρ) : Lines := {line | s.Masked line}

/-- The vector a line raises. -/
def vector (s : Board ρ) (line : Fin 16) : Nat :=
  if line.val < 8 then s.master.offset.toNat + line else s.slave.offset.toNat + (line - 8)

/-- Both controllers take the next byte on their data port for a mask. -/
def Ready (s : Board ρ) : Prop := s.master.expects = .mask ∧ s.slave.expects = .mask

end Board

/-! ### Bits of the masks -/

section Bits

variable {v low high : UInt8} {mask : UInt16} {irq i : Nat}

theorem ones_bit : ∀ i, (inside : i < 8) → (255#8)[i] = true := by decide

theorem lineBit_bit : (lineBit irq).toBitVec.getLsbD i = decide (i < 8 ∧ i = irq) := by
  rw [lineBit, UInt8.toBitVec_ofNat', BitVec.getLsbD_ofNat, Nat.one_shiftLeft, Nat.testBit_two_pow]
  by_cases inside : i < 8 <;> simp [inside, eq_comm]

theorem setBit_bit : (v ||| lineBit irq).toBitVec.getLsbD i =
    (v.toBitVec.getLsbD i || decide (i < 8 ∧ i = irq)) := by
  rw [UInt8.toBitVec_or, BitVec.getLsbD_or, lineBit_bit]

theorem clearBit_bit : (v &&& ~~~ lineBit irq).toBitVec.getLsbD i =
    (v.toBitVec.getLsbD i && decide (i ≠ irq)) := by
  rw [UInt8.toBitVec_and, BitVec.getLsbD_and, UInt8.toBitVec_not, BitVec.getLsbD_not, lineBit_bit]
  by_cases inside : i < 8
  · simp [inside]
  · simp [inside, BitVec.getLsbD_of_ge, Nat.not_lt.mp inside]

theorem joined_bit : (low.toUInt16 ||| (high.toUInt16 <<< 8)).toBitVec.getLsbD i =
    if i < 8 then low.toBitVec.getLsbD i else high.toBitVec.getLsbD (i - 8) := by
  by_cases inside : i < 8
  · simp [inside, UInt16.toBitVec_or, show i < 16 by omega]
  · have none : low.toBitVec.getLsbD i = false := BitVec.getLsbD_of_ge _ _ (Nat.not_lt.mp inside)
    by_cases below : i < 16
    · simp [inside, UInt16.toBitVec_or, below, none]
    · have past : high.toBitVec.getLsbD (i - 8) = false := BitVec.getLsbD_of_ge _ _ (by omega)
      simp [inside, UInt16.toBitVec_or, below, none, past]

theorem lowByte_bit (inside : i < 8) : (mask &&& 0xFF).toUInt8.toBitVec.getLsbD i = mask.toBitVec.getLsbD i := by
  simp [inside, show i < 16 by omega, ones_bit i inside]

theorem highByte_bit (inside : i < 8) :
    ((mask >>> 8) &&& 0xFF).toUInt8.toBitVec.getLsbD i = mask.toBitVec.getLsbD (i + 8) := by
  simp [inside, show i < 16 by omega, ones_bit i inside, Nat.add_comm 8]

end Bits

/-! ### One call -/

section Calls

variable {ρ : Type} {peripherals : PortDevice Empty ρ} {s : Board ρ} {irq : Nat} {op : PicOp}

theorem run_pic1Data (value : UInt8) : (outb pic1Data value).run (board peripherals) s =
    ((), { s with master := s.master.data value }) := rfl

theorem run_pic2Data (value : UInt8) : (outb pic2Data value).run (board peripherals) s =
    ((), { s with slave := s.slave.data value }) := rfl

theorem run_pic1Command (value : UInt8) : (outb pic1Command value).run (board peripherals) s =
    ((), { s with master := s.master.command value }) := rfl

theorem run_pic2Command (value : UInt8) : (outb pic2Command value).run (board peripherals) s =
    ((), { s with slave := s.slave.command value }) := rfl

theorem run_inb_pic1Data : (inb pic1Data).run (board peripherals) s = (s.master.imr, s) := rfl

theorem run_inb_pic2Data : (inb pic2Data).run (board peripherals) s = (s.slave.imr, s) := rfl

/-- What the port of `pic_wait` is connected to is not a controller. -/
theorem run_picWait : (picWait : PortProg HandlerStore Unit).run (board peripherals) s =
    ((), { s with rest := (peripherals (.outb 0x80 0) s.rest).2 }) := rfl

/-- A ready controller takes a mask. -/
theorem Controller.data_mask {c : Controller} (ready : c.expects = .mask) (value : UInt8) :
    c.data value = { c with imr := value } := by
  rw [Controller.data, ready]

/-- A controller after its initialisation. -/
def Controller.initialised (c : Controller) (offset cascade mode mask : UInt8) : Controller :=
  { c with
    imr := mask
    offset := offset &&& 0xF8
    cascade := cascade
    mode := mode
    icw1 := icw1Init ||| icw1Icw4
    expects := .mask
    inService := 0 }

/-- **The five bytes of an initialisation**, from any state of the controller. -/
theorem Controller.initialise (c : Controller) (offset cascade mode mask : UInt8) :
    (((((c.command (icw1Init ||| icw1Icw4)).data offset).data cascade).data mode).data mask) =
      c.initialised offset cascade mode mask := by
  have first : (icw1Init ||| icw1Icw4).toBitVec.getLsbD 4 = true := by decide
  have single : (icw1Init ||| icw1Icw4).toBitVec.getLsbD 1 = false := by decide
  have last : (icw1Init ||| icw1Icw4).toBitVec.getLsbD 0 = true := by decide
  simp only [Controller.command, first, if_true, Controller.data, single, Controller.afterCascade, last,
    Controller.initialised]
  rfl

/-- **`pic_init`**: both controllers initialised, with the masks they had. -/
theorem run_picInit (s : Board ρ) : ∃ rest, picInit.run (board peripherals) s =
    ((), { s with
      master := s.master.initialised pic1Offset 0x04 icw48086 s.master.imr
      slave := s.slave.initialised pic2Offset 0x02 icw48086 s.slave.imr
      rest := rest }) := by
  simp only [← Controller.initialise]
  exact ⟨_, rfl⟩

theorem run_picSendEoi (s : Board ρ) (irq : Nat) : ((picSendEoi irq).run (board peripherals) s).2 =
    { s with
      master := s.master.command picEoi
      slave := if irq ≥ 8 then s.slave.command picEoi else s.slave } := by
  unfold picSendEoi
  by_cases high : irq ≥ 8
  · simp only [if_pos high]
    rfl
  · simp only [if_neg high]
    rfl

/-- Where an end of interrupt leaves everything but the lines in service alone. -/
theorem Controller.command_picEoi (c : Controller) :
    c.command picEoi = { c with inService := clearLowest c.inService } := by
  rw [Controller.command, if_neg (by decide), if_pos (by decide)]

/-- The mask registers hold two bytes. -/
def Board.withMasks (s : Board ρ) (low high : UInt8) : Board ρ :=
  { s with master := { s.master with imr := low }, slave := { s.slave with imr := high } }

/-- **Masking reads and writes the mask of the line's controller.** -/
theorem run_picMaskIrq (ready : s.Ready) (irq : Nat) : ((picMaskIrq irq).run (board peripherals) s).2 =
    if irq < 8 then s.withMasks (s.master.imr ||| lineBit irq) s.slave.imr
    else s.withMasks s.master.imr (s.slave.imr ||| lineBit (irq - 8)) := by
  unfold picMaskIrq
  by_cases low : irq < 8
  · simp only [if_pos low, Prog.run_bind, run_inb_pic1Data, run_pic1Data, Controller.data_mask ready.1]
    rfl
  · simp only [if_neg low, Prog.run_bind, run_inb_pic2Data, run_pic2Data, Controller.data_mask ready.2]
    rfl

theorem run_picUnmaskIrq (ready : s.Ready) (irq : Nat) : ((picUnmaskIrq irq).run (board peripherals) s).2 =
    if irq < 8 then s.withMasks (s.master.imr &&& ~~~ lineBit irq) s.slave.imr
    else s.withMasks s.master.imr (s.slave.imr &&& ~~~ lineBit (irq - 8)) := by
  unfold picUnmaskIrq
  by_cases low : irq < 8
  · simp only [if_pos low, Prog.run_bind, run_inb_pic1Data, run_pic1Data, Controller.data_mask ready.1]
    rfl
  · simp only [if_neg low, Prog.run_bind, run_inb_pic2Data, run_pic2Data, Controller.data_mask ready.2]
    rfl

/-- Both mask registers written one after the other. -/
theorem run_masks (ready : s.Ready) (low high : UInt8) :
    ((do outb pic1Data low; outb pic2Data high : PortProg HandlerStore Unit).run (board peripherals) s).2 =
      s.withMasks low high := by
  simp only [Prog.run_bind, run_pic1Data, run_pic2Data, Controller.data_mask ready.1,
    Controller.data_mask ready.2]
  rfl

theorem mem_withMasks {low high : UInt8} {line : Fin 16} : line ∈ (s.withMasks low high).masked ↔
    if line.val < 8 then low.toBitVec.getLsbD line else high.toBitVec.getLsbD (line - 8) := Iff.rfl

theorem mem_masked {line : Fin 16} : line ∈ s.masked ↔
    if line.val < 8 then s.master.imr.toBitVec.getLsbD line else s.slave.imr.toBitVec.getLsbD (line - 8) :=
  Iff.rfl

/-- **Masking adds the line.** -/
theorem masked_maskIrq (ready : s.Ready) (irq : Nat) :
    ((picMaskIrq irq).run (board peripherals) s).2.masked = s.masked ∪ {line | line.val = irq} := by
  ext line
  rw [run_picMaskIrq ready, Set.mem_union, Set.mem_ofPred_eq]
  by_cases low : irq < 8
  · rw [if_pos low, mem_withMasks, mem_masked (s := s)]
    by_cases first : line.val < 8
    · rw [if_pos first, if_pos first, setBit_bit, Bool.or_eq_true, decide_eq_true_eq, and_iff_right first]
    · rw [if_neg first, if_neg first, or_iff_left (by omega)]
  · rw [if_neg low, mem_withMasks, mem_masked (s := s)]
    by_cases first : line.val < 8
    · rw [if_pos first, if_pos first, or_iff_left (by omega)]
    · rw [if_neg first, if_neg first, setBit_bit, Bool.or_eq_true, decide_eq_true_eq,
        show line.val - 8 < 8 ∧ line.val - 8 = irq - 8 ↔ line.val = irq by omega]

/-- **Unmasking takes the line out.** -/
theorem masked_unmaskIrq (ready : s.Ready) (irq : Nat) :
    ((picUnmaskIrq irq).run (board peripherals) s).2.masked = s.masked \ {line | line.val = irq} := by
  ext line
  rw [run_picUnmaskIrq ready, Set.mem_sdiff, Set.mem_ofPred_eq]
  by_cases low : irq < 8
  · rw [if_pos low, mem_withMasks, mem_masked (s := s)]
    by_cases first : line.val < 8
    · rw [if_pos first, if_pos first, clearBit_bit, Bool.and_eq_true, decide_eq_true_eq]
    · rw [if_neg first, if_neg first, and_iff_left (by omega)]
  · rw [if_neg low, mem_withMasks, mem_masked (s := s)]
    by_cases first : line.val < 8
    · rw [if_pos first, if_pos first, and_iff_left (by omega)]
    · rw [if_neg first, if_neg first, clearBit_bit, Bool.and_eq_true, decide_eq_true_eq,
        show line.val - 8 ≠ irq - 8 ↔ ¬ line.val = irq by omega]

/-- Two bytes written to the masks, as one word. -/
theorem masked_setMask (ready : s.Ready) (mask : UInt16) :
    ((picSetMask mask).run (board peripherals) s).2.masked = linesOf mask := by
  ext line
  rw [picSetMask, run_masks ready, mem_withMasks]
  by_cases first : line.val < 8
  · rw [if_pos first, lowByte_bit first]
    rfl
  · rw [if_neg first, highByte_bit (by omega), Nat.sub_add_cancel (by omega)]
    rfl

theorem masked_disableAll (ready : s.Ready) :
    (picDisableAll.run (board peripherals) s).2.masked = Set.univ := by
  have ones : ∀ i < 8, (0xFF : UInt8).toBitVec.getLsbD i = true := by decide
  ext line
  rw [picDisableAll, run_masks ready, mem_withMasks, iff_true_right (Set.mem_univ line)]
  by_cases first : line.val < 8
  · rw [if_pos first]
    exact ones _ first
  · rw [if_neg first]
    exact ones _ (by omega)

/-- **The word returned** has the bits of the masked lines. -/
theorem picGetMask_lines (s : Board ρ) :
    linesOf (picGetMask.run (board peripherals) s).1 = s.masked ∧
      (picGetMask.run (board peripherals) s).2 = s := by
  refine ⟨?_, rfl⟩
  ext line
  rw [mem_masked]
  show (s.master.imr.toUInt16 ||| (s.slave.imr.toUInt16 <<< 8)).toBitVec.getLsbD line = true ↔ _
  rw [joined_bit]

/-- What calls leave of the board besides the masks, and the vector of a line. -/
structure Does (s t : Board ρ) (answers : List UInt16) (op : PicOp) : Prop where
  ready : t.Ready
  masked : t.masked = op.masks s.masked
  answers : answers.map linesOf = op.answers s.masked
  handlers : t.interruptHandlers = s.interruptHandlers
  vectors : ∀ line, t.vector line = if op = .init then 32 + line.val else s.vector line

/-- A call that writes masks and nothing else. -/
theorem Does.of_masks {op : PicOp} {t : Board ρ} (ready : s.Ready) (other : op ≠ .init)
    (wrote : ∃ low high, t = s.withMasks low high) (masked : t.masked = op.masks s.masked)
    (silent : op.answers s.masked = []) : Does s t [] op := by
  obtain ⟨low, high, rfl⟩ := wrote
  exact ⟨ready, masked, silent.symm, rfl, fun line => (if_neg other).symm⟩

/-- **Every call does what it is for.** -/
theorem PicOp.does (ready : s.Ready) (op : PicOp) :
    Does s (op.prog.run (board peripherals) s).2 (op.prog.run (board peripherals) s).1 op := by
  cases op with
  | init =>
      obtain ⟨rest, ran⟩ := @run_picInit ρ peripherals s
      have low : (pic1Offset &&& 0xF8).toNat = 32 := by decide
      have high : (pic2Offset &&& 0xF8).toNat = 40 := by decide
      simp only [PicOp.prog, Prog.run_bind, ran, Prog.run_pure]
      refine ⟨⟨rfl, rfl⟩, rfl, rfl, rfl, fun line => ?_⟩
      simp only [Board.vector, Controller.initialised, low, high, if_true]
      split <;> omega
  | sendEoi irq =>
      simp only [PicOp.prog, Prog.run_bind, Prog.run_pure, run_picSendEoi, Controller.command_picEoi]
      by_cases high : irq.toNat ≥ 8
      · simp only [if_pos high]
        exact ⟨ready, rfl, rfl, rfl, fun line => (if_neg fun same => by cases same).symm⟩
      · simp only [if_neg high]
        exact ⟨ready, rfl, rfl, rfl, fun line => (if_neg fun same => by cases same).symm⟩
  | maskIrq irq =>
      simp only [PicOp.prog, Prog.run_bind, Prog.run_pure]
      refine .of_masks ready (fun same => by cases same) ?_ (masked_maskIrq ready irq) rfl
      rw [run_picMaskIrq ready]
      split <;> exact ⟨_, _, rfl⟩
  | unmaskIrq irq =>
      simp only [PicOp.prog, Prog.run_bind, Prog.run_pure]
      refine .of_masks ready (fun same => by cases same) ?_ (masked_unmaskIrq ready irq) rfl
      rw [run_picUnmaskIrq ready]
      split <;> exact ⟨_, _, rfl⟩
  | disableAll =>
      simp only [PicOp.prog, Prog.run_bind, Prog.run_pure]
      exact .of_masks ready (fun same => by cases same) ⟨_, _, run_masks ready _ _⟩ (masked_disableAll ready) rfl
  | getMask =>
      obtain ⟨lines, same⟩ := @picGetMask_lines ρ peripherals s
      simp only [PicOp.prog, Prog.run_bind, Prog.run_pure, same]
      exact ⟨ready, rfl, congrArg (fun x => [x]) lines, rfl, fun line => (if_neg fun same => by cases same).symm⟩
  | setMask mask =>
      simp only [PicOp.prog, Prog.run_bind, Prog.run_pure]
      exact .of_masks ready (fun same => by cases same) ⟨_, _, run_masks ready _ _⟩ (masked_setMask ready mask) rfl

end Calls

/-- **The interrupt controllers hold a set of masked lines.** From any board with ready controllers and for any
peripherals, after any calls of functions of `pic.c` the masked lines are what the calls say one after the
other, every mask returned is the set of that moment, the controllers are ready again, and no handler has
changed; once `pic_init` was called line `i` raises vector `32 + i`, and before that the vectors are the old
ones. -/
theorem pic_refines {ρ : Type} {peripherals : PortDevice Empty ρ} {s t : Board ρ} {answers : List UInt16}
    (ready : s.Ready) (ops : List PicOp)
    (ran : (PicOp.progs ops).run (board peripherals) s = (answers, t)) :
    t.Ready ∧ t.masked = PicOp.masksAll s.masked ops ∧
      answers.map linesOf = PicOp.answersAll s.masked ops ∧ t.interruptHandlers = s.interruptHandlers ∧
      ∀ line, t.vector line = if .init ∈ ops then 32 + line.val else s.vector line := by
  induction ops generalizing s answers with
  | nil =>
      cases ran
      exact ⟨ready, rfl, rfl, rfl, fun line => (if_neg List.not_mem_nil).symm⟩
  | cons op ops ih =>
      have first := @PicOp.does ρ peripherals s ready op
      simp only [PicOp.progs, Prog.run_bind, Prog.run_pure] at ran
      cases ran
      obtain ⟨last, masked, returned, handlers, vectors⟩ := ih first.ready rfl
      refine ⟨last, ?_, ?_, handlers.trans first.handlers, fun line => ?_⟩
      · rw [masked, first.masked]
        rfl
      · rw [List.map_append, first.answers, returned, first.masked]
        rfl
      · rw [vectors, first.vectors]
        by_cases later : .init ∈ ops
        · rw [if_pos later, if_pos (List.mem_cons_of_mem op later)]
        · by_cases now : op = .init
          · rw [if_neg later, if_pos now, if_pos (List.mem_cons.mpr (.inl now.symm))]
          · have never : .init ∉ op :: ops := fun member =>
              (List.mem_cons.mp member).elim (fun same => now same.symm) later
            rw [if_neg later, if_neg now, if_neg never]

/-- **Ends of interrupt on the ports are those of the handlers.** -/
theorem picSendEoi_refines {ρ Fs : Type} {peripherals : PortDevice Empty ρ} {s : Board ρ} {t : Irqs Fs}
    (irq : Nat) (same : t.inService = ⟨s.master.inService, s.slave.inService⟩) :
    (t.picSendEoi irq).inService =
      ⟨((picSendEoi irq).run (board peripherals) s).2.master.inService,
        ((picSendEoi irq).run (board peripherals) s).2.slave.inService⟩ := by
  rw [run_picSendEoi, Controller.command_picEoi, Controller.command_picEoi]
  by_cases high : irq ≥ 8
  · simp [Irqs.picSendEoi, Irqs.outbEoi, high, same]
  · simp [Irqs.picSendEoi, Irqs.outbEoi, high, same]

/-- Ports with nothing behind them. -/
def openBus : PortDevice Empty Unit
  | .outb _ _, s => ((), s)
  | .inb _, s => ((0xFF : UInt8), s)
  | .outw _ _, s => ((), s)
  | .inw _, s => ((0xFFFF : UInt16), s)
  | .store _, s => ((), s)

/-- Controllers as the firmware may leave them: every line but the keyboard's masked. -/
def firmwareBoard : Board Unit where
  master := ⟨0xFD, 0x08, 0x04, 0x01, 0x11, .mask, 0, 0⟩
  slave := ⟨0xFF, 0x70, 0x02, 0x01, 0x11, .mask, 0, 0⟩
  interruptHandlers := fun _ => none
  rest := ()

/-- `idt_init` and `timer_init`: only the timer's line is left, and it raises vector 32. -/
theorem pic_refines_firmware : ∃ answers t,
    (PicOp.progs [.init, .disableAll, .unmaskIrq 0, .getMask]).run (board openBus) firmwareBoard = (answers, t) ∧
      t.masked = Set.univ \ {line : Fin 16 | line.val = 0} ∧ t.vector 0 = 32 ∧ answers.length = 1 := by
  obtain ⟨-, masked, -, -, vectors⟩ := @pic_refines Unit openBus firmwareBoard _ _ ⟨rfl, rfl⟩
    [.init, .disableAll, .unmaskIrq 0, .getMask] rfl
  exact ⟨_, _, rfl, masked, vectors 0, rfl⟩

end Kfs.Interrupt
