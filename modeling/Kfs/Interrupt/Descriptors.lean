/-
**From a vector to its handler: `gdt.c`, `idt.c`, `interrupt.s`.**

`gdt_init` and `idt_init` write descriptors as packed structures, and the CPU reads them as words of 64 bits.
`segment_fields` and `gate_fields` say that it reads what was meant, of a limit the low 20 bits. So `gdt_init`
makes five flat segments, and every gate leads into the first one.

`interrupt_dispatched`: after these two functions and any registrations and removals of handlers, an exception, an
interrupt from outside or an `INT` ends in `interrupt_handler_common` with its own number and its error code, and
from there in the handler registered last for it. A vector without a gate is a general protection fault that names
it. The one exception is an `INT` with the number of a fault that has an error code: it pushes none, and the stub
counts on one.
-/

import Kfs.Interrupt.Frame

namespace Kfs.Interrupt

/-! ### Descriptors -/

/-- `struct gdt_entry`. -/
structure GdtEntry where
  limitLow : UInt16
  baseLow : UInt16
  baseMiddle : UInt8
  access : UInt8
  granularity : UInt8
  baseHigh : UInt8
  deriving DecidableEq, Repr

/-- The packed structure as the word that the CPU reads. -/
def GdtEntry.word (e : GdtEntry) : Nat :=
  e.limitLow.toNat + 2 ^ 16 * e.baseLow.toNat + 2 ^ 32 * e.baseMiddle.toNat + 2 ^ 40 * e.access.toNat +
    2 ^ 48 * e.granularity.toNat + 2 ^ 56 * e.baseHigh.toNat

/-- The entry that `gdt_set_gate` stores. -/
def gdtGate (base limit : UInt32) (access gran : UInt8) : GdtEntry where
  baseLow := (base &&& 0xFFFF).toUInt16
  baseMiddle := ((base >>> 16) &&& 0xFF).toUInt8
  baseHigh := ((base >>> 24) &&& 0xFF).toUInt8
  limitLow := (limit &&& 0xFFFF).toUInt16
  granularity := ((limit >>> 16) &&& 0x0F).toUInt8 ||| (gran &&& 0xF0)
  access := access

/-- `struct idt_entry`. -/
structure IdtEntry where
  offsetLow : UInt16
  selector : UInt16
  zero : UInt8
  typeAttr : UInt8
  offsetHigh : UInt16
  deriving DecidableEq, Repr

/-- The packed structure as a word. -/
def IdtEntry.word (e : IdtEntry) : Nat :=
  e.offsetLow.toNat + 2 ^ 16 * e.selector.toNat + 2 ^ 32 * e.zero.toNat + 2 ^ 40 * e.typeAttr.toNat +
    2 ^ 48 * e.offsetHigh.toNat

/-- `IDT_PRESENT`. -/
def idtPresent : UInt8 := 0x80

/-- The entry that `idt_set_gate` stores. -/
def idtGate (handler : UInt32) (selector : UInt16) (flags : UInt8) : IdtEntry where
  offsetLow := (handler &&& 0xFFFF).toUInt16
  offsetHigh := ((handler >>> 16) &&& 0xFFFF).toUInt16
  selector := selector
  zero := 0
  typeAttr := flags ||| idtPresent

/-- The access byte of a descriptor: present, its ring, code or data. -/
def accessOf (word : Nat) : Nat := word / 2 ^ 40 % 2 ^ 8

def isPresent (word : Nat) : Bool := (accessOf word).testBit 7

def ringOf (word : Nat) : Nat := accessOf word / 2 ^ 5 % 4

/-- A code segment: no system descriptor, and executable. -/
def isCode (word : Nat) : Bool := (accessOf word).testBit 4 && (accessOf word).testBit 3

/-- The base of a segment, in its two places. -/
def baseOf (word : Nat) : Nat := word / 2 ^ 16 % 2 ^ 24 + 2 ^ 24 * (word / 2 ^ 56 % 2 ^ 8)

/-- The last offset of a segment: 20 bits, of bytes or of pages. -/
def limitOf (word : Nat) : Nat :=
  let limit := word % 2 ^ 16 + 2 ^ 16 * (word / 2 ^ 48 % 2 ^ 4)
  if (word / 2 ^ 55) % 2 = 1 then limit * 2 ^ 12 + (2 ^ 12 - 1) else limit

/-- The type of a gate, with its system bit. -/
def gateType (word : Nat) : Nat := accessOf word % 2 ^ 5

/-- The offset of a gate, in its two places. -/
def offsetOf (word : Nat) : Nat := word % 2 ^ 16 + 2 ^ 16 * (word / 2 ^ 48 % 2 ^ 16)

/-- The selector of a gate. -/
def selectorOf (word : Nat) : Nat := word / 2 ^ 16 % 2 ^ 16

section Fields

variable {a b c d e f : Nat}

/-- **The parts of a packed structure** of two words and four bytes. -/
theorem packed_parts (ha : a < 2 ^ 16) (hb : b < 2 ^ 16) (hc : c < 2 ^ 8) (hd : d < 2 ^ 8) (he : e < 2 ^ 8)
    (hf : f < 2 ^ 8) {w : Nat} (sum : w = a + 2 ^ 16 * b + 2 ^ 32 * c + 2 ^ 40 * d + 2 ^ 48 * e + 2 ^ 56 * f) :
    w % 2 ^ 16 = a ∧ w / 2 ^ 16 % 2 ^ 24 = b + 2 ^ 16 * c ∧ w / 2 ^ 40 % 2 ^ 8 = d ∧ w / 2 ^ 48 % 2 ^ 4 = e % 2 ^ 4 ∧
      w / 2 ^ 55 % 2 = e / 2 ^ 7 ∧ w / 2 ^ 56 % 2 ^ 8 = f := by
  subst sum
  refine ⟨by omega, by omega, by omega, by omega, by omega, by omega⟩

theorem gate_parts (ha : a < 2 ^ 16) (hb : b < 2 ^ 16) (hd : d < 2 ^ 8) (he : e < 2 ^ 16) {w : Nat}
    (sum : w = a + 2 ^ 16 * b + 2 ^ 40 * d + 2 ^ 48 * e) :
    w % 2 ^ 16 = a ∧ w / 2 ^ 16 % 2 ^ 16 = b ∧ w / 2 ^ 40 % 2 ^ 8 = d ∧ w / 2 ^ 48 % 2 ^ 16 = e := by
  subst sum
  refine ⟨by omega, by omega, by omega, by omega⟩

theorem low16 (x : UInt32) : (x &&& 0xFFFF).toUInt16.toNat = x.toNat % 2 ^ 16 := by
  simp [Nat.and_two_pow_sub_one_eq_mod _ 16]

theorem high16 (x : UInt32) : ((x >>> 16) &&& 0xFFFF).toUInt16.toNat = x.toNat / 2 ^ 16 := by
  have word := x.toNat_lt
  simp [Nat.and_two_pow_sub_one_eq_mod _ 16, Nat.shiftRight_eq_div_pow]
  omega

theorem byte2 (x : UInt32) : ((x >>> 16) &&& 0xFF).toUInt8.toNat = x.toNat / 2 ^ 16 % 2 ^ 8 := by
  simp [Nat.and_two_pow_sub_one_eq_mod _ 8, Nat.shiftRight_eq_div_pow]

theorem byte3 (x : UInt32) : ((x >>> 24) &&& 0xFF).toUInt8.toNat = x.toNat / 2 ^ 24 := by
  have word := x.toNat_lt
  simp [Nat.and_two_pow_sub_one_eq_mod _ 8, Nat.shiftRight_eq_div_pow]
  omega

theorem nibble (x : UInt32) : ((x >>> 16) &&& 0x0F).toUInt8.toNat = x.toNat / 2 ^ 16 % 2 ^ 4 := by
  simp [Nat.and_two_pow_sub_one_eq_mod _ 4, Nat.shiftRight_eq_div_pow]

theorem high_nibble (x : UInt8) : (x &&& 0xF0).toNat = 2 ^ 4 * (x.toNat / 2 ^ 4) := by
  have all : ∀ n < 256, n &&& 0xF0 = 2 ^ 4 * (n / 2 ^ 4) := by decide +kernel
  rw [UInt8.toNat_and]
  exact all _ x.toNat_lt

/-- The two halves of the granularity byte. -/
theorem granularity_toNat (limit : UInt32) (gran : UInt8) :
    (((limit >>> 16) &&& 0x0F).toUInt8 ||| (gran &&& 0xF0)).toNat =
      2 ^ 4 * (gran.toNat / 2 ^ 4) + limit.toNat / 2 ^ 16 % 2 ^ 4 := by
  rw [UInt8.toNat_or, nibble, high_nibble, Nat.or_comm]
  exact (Nat.two_pow_add_eq_or_of_lt (Nat.mod_lt _ (by decide)) _).symm

/-- **The CPU reads a segment as it was meant**, of the limit the low 20 bits. -/
theorem segment_fields (base limit : UInt32) (access gran : UInt8) :
    baseOf (gdtGate base limit access gran).word = base.toNat ∧
      accessOf (gdtGate base limit access gran).word = access.toNat ∧
      limitOf (gdtGate base limit access gran).word =
        if gran.toNat / 2 ^ 7 = 1 then limit.toNat % 2 ^ 20 * 2 ^ 12 + (2 ^ 12 - 1) else limit.toNat % 2 ^ 20 := by
  obtain ⟨low, middle, access_eq, raw, large, high⟩ := packed_parts
    (gdtGate base limit access gran).limitLow.toNat_lt (gdtGate base limit access gran).baseLow.toNat_lt
    (gdtGate base limit access gran).baseMiddle.toNat_lt (gdtGate base limit access gran).access.toNat_lt
    (gdtGate base limit access gran).granularity.toNat_lt (gdtGate base limit access gran).baseHigh.toNat_lt
    (rfl : (gdtGate base limit access gran).word = _)
  have halves : (gdtGate base limit access gran).granularity.toNat = _ := granularity_toNat limit gran
  have word := base.toNat_lt
  have byte := gran.toNat_lt
  refine ⟨?_, access_eq, ?_⟩
  · unfold baseOf
    rw [middle, high]
    show ((base &&& 0xFFFF).toUInt16.toNat + 2 ^ 16 * ((base >>> 16) &&& 0xFF).toUInt8.toNat) +
      2 ^ 24 * ((base >>> 24) &&& 0xFF).toUInt8.toNat = base.toNat
    rw [low16, byte2, byte3]
    omega
  · have bits : (gdtGate base limit access gran).limitLow.toNat = limit.toNat % 2 ^ 16 := low16 limit
    unfold limitOf
    dsimp only
    rw [low, raw, large, halves, bits]
    have top : (2 ^ 4 * (gran.toNat / 2 ^ 4) + limit.toNat / 2 ^ 16 % 2 ^ 4) / 2 ^ 7 = gran.toNat / 2 ^ 7 := by omega
    have whole : limit.toNat % 2 ^ 16 + 2 ^ 16 * ((2 ^ 4 * (gran.toNat / 2 ^ 4) + limit.toNat / 2 ^ 16 % 2 ^ 4) %
        2 ^ 4) = limit.toNat % 2 ^ 20 := by omega
    rw [top, whole]

/-- **The CPU reads a gate as it was meant.** -/
theorem gate_fields (handler : UInt32) (selector : UInt16) (flags : UInt8) :
    offsetOf (idtGate handler selector flags).word = handler.toNat ∧
      selectorOf (idtGate handler selector flags).word = selector.toNat ∧
      accessOf (idtGate handler selector flags).word = (flags ||| idtPresent).toNat := by
  have low : (idtGate handler selector flags).offsetLow.toNat = handler.toNat % 2 ^ 16 := low16 handler
  have high : (idtGate handler selector flags).offsetHigh.toNat = handler.toNat / 2 ^ 16 := high16 handler
  have sum : (idtGate handler selector flags).word = (idtGate handler selector flags).offsetLow.toNat +
      2 ^ 16 * selector.toNat + 2 ^ 40 * (flags ||| idtPresent).toNat +
        2 ^ 48 * (idtGate handler selector flags).offsetHigh.toNat := rfl
  obtain ⟨first, second, third, last⟩ := gate_parts (idtGate handler selector flags).offsetLow.toNat_lt
    selector.toNat_lt (flags ||| idtPresent).toNat_lt (idtGate handler selector flags).offsetHigh.toNat_lt sum
  have word := handler.toNat_lt
  refine ⟨?_, second, third⟩
  unfold offsetOf
  rw [first, last, low, high]
  omega

end Fields

/-! ### The tables of the source -/

/-- `gdt_set_gate`. -/
def gdtSetGate (t : Nat → GdtEntry) (num : Nat) (base limit : UInt32) (access gran : UInt8) : Nat → GdtEntry :=
  Function.update t num (gdtGate base limit access gran)

/-- `GDT_ENTRIES`. -/
def gdtEntries : Nat := 6

/-- `GDT_GRAN_4K | GDT_GRAN_32BIT | GDT_GRAN_LIMIT_HIGH`. -/
def flatGran : UInt8 := 0x80 ||| 0x40 ||| 0x0F

/-- The entries that `gdt_init` stores. -/
def gdtInit (t : Nat → GdtEntry) : Nat → GdtEntry :=
  let t := gdtSetGate t 0 0 0 0 0
  let t := gdtSetGate t 1 0 0xFFFFFFFF (0x80 ||| 0x00 ||| 0x18 ||| 0x08 ||| 0x02) flatGran
  let t := gdtSetGate t 2 0 0xFFFFFFFF (0x80 ||| 0x00 ||| 0x10 ||| 0x02) flatGran
  let t := gdtSetGate t 3 0 0xFFFFFFFF (0x80 ||| 0x00 ||| 0x10 ||| 0x02) flatGran
  let t := gdtSetGate t 4 0 0xFFFFFFFF (0x80 ||| 0x60 ||| 0x18 ||| 0x08 ||| 0x02) flatGran
  gdtSetGate t 5 0 0xFFFFFFFF (0x80 ||| 0x60 ||| 0x10 ||| 0x02) flatGran

/-- The labels of `interrupt.s`. -/
inductive Label where
  | isr (num : Nat)
  | irq (num : Nat)
  deriving DecidableEq, Repr

/-- `IDT_INTERRUPT`. -/
def idtInterrupt : UInt8 := 0x0E

/-- `IDT_RING3`. -/
def idtRing3 : UInt8 := 0x60

/-- `idt_set_gate`. -/
def idtSetGate (t : Nat → IdtEntry) (num : Nat) (handler : UInt32) (selector : UInt16) (flags : UInt8) :
    Nat → IdtEntry := Function.update t num (idtGate handler selector flags)

/-- The gates of the exceptions below `n`. -/
def installIsrs (address : Label → UInt32) (t : Nat → IdtEntry) : (n : Nat) → Nat → IdtEntry
  | 0 => t
  | n + 1 => idtSetGate (installIsrs address t n) n (address (.isr n)) 0x08 idtInterrupt

/-- The gates of the lines below `n`. -/
def installIrqs (address : Label → UInt32) (t : Nat → IdtEntry) : (n : Nat) → Nat → IdtEntry
  | 0 => t
  | n + 1 => idtSetGate (installIrqs address t n) (32 + n) (address (.irq n)) 0x08 idtInterrupt

/-- The entries that `idt_init` stores, for the addresses of the labels. -/
def idtTable (address : Label → UInt32) : Nat → IdtEntry :=
  let t := installIsrs address (fun _ => ⟨0, 0, 0, 0, 0⟩) 20
  let t := installIrqs address t 16
  idtSetGate t 128 (address (.isr 128)) 0x08 (idtInterrupt ||| idtRing3)

/-- The label that a vector leads to. -/
def labelOf (n : Nat) : Option Label :=
  if n < 20 then some (.isr n)
  else if 32 ≤ n ∧ n < 48 then some (.irq (n - 32))
  else if n = 128 then some (.isr 128)
  else none

/-- `ISR_NOERRCODE`. -/
def isrNoerrcode (num : UInt32) : List Instr := [.cli, .pushImm 0, .pushImm num]

/-- `ISR_ERRCODE`. -/
def isrErrcode (num : UInt32) : List Instr := [.cli, .pushImm num]

/-- `IRQ`. -/
def irqStub (irqNum : UInt32) : List Instr := [.cli, .pushImm 0, .pushImm irqNum]

/-- What stands at a label, up to the jump. -/
def body : Label → List Instr
  | .isr num =>
      if num ∈ [8, 10, 11, 12, 13, 14, 17] then isrErrcode (UInt32.ofNat num) else isrNoerrcode (UInt32.ofNat num)
  | .irq num => irqStub (UInt32.ofNat (32 + num))

/-! ### The CPU -/

/-- A table of descriptors: the last byte of it, and its words. -/
structure DescriptorTable where
  limit : Nat
  words : Nat → Nat

/-- A descriptor, if all of it is in the table. -/
def DescriptorTable.fetch (t : DescriptorTable) (i : Nat) : Option Nat :=
  if 8 * i + 7 ≤ t.limit then some (t.words i) else none

/-- The registers for the two tables. -/
structure Cpu where
  gdt : DescriptorTable
  idt : DescriptorTable

/-- A general protection fault. -/
def protection (code : Nat) : Vector := ⟨13, some (UInt32.ofNat code)⟩

/-- A segment or a gate that is not present. -/
def notPresent (code : Nat) : Vector := ⟨11, some (UInt32.ofNat code)⟩

/-- A far transfer to a code segment of ring 0: the linear address. `ext` is the last bit of an error code. -/
def Cpu.code (cpu : Cpu) (selector offset ext : Nat) : Except Vector UInt32 :=
  if selector / 8 = 0 then .error (protection ext)
  else if selector / 4 % 2 = 1 then .error (protection (selector / 4 * 4 + ext))
  else
    match cpu.gdt.fetch (selector / 8) with
    | none => .error (protection (selector / 4 * 4 + ext))
    | some w =>
        if isCode w = false ∨ ringOf w ≠ 0 then .error (protection (selector / 4 * 4 + ext))
        else if isPresent w = false then .error (notPresent (selector / 4 * 4 + ext))
        else if limitOf w < offset then .error (protection ext)
        else .ok (UInt32.ofNat (baseOf w + offset))

/-- Through the gate of a vector: EIP, and the linear address of the code there. -/
def Cpu.enter (cpu : Cpu) (num ext : Nat) : Except Vector (UInt32 × UInt32) :=
  match cpu.idt.fetch num with
  | none => .error (protection (8 * num + 2 + ext))
  | some w =>
      -- interrupt gates of 32 bits are the only ones that the kernel makes
      if gateType w ≠ 0x0E then .error (protection (8 * num + 2 + ext))
      else if isPresent w = false then .error (notPresent (8 * num + 2 + ext))
      else (cpu.code (selectorOf w) (offsetOf w) ext).map fun linear => (UInt32.ofNat (offsetOf w), linear)

/-- What makes the CPU leave a program: an exception, with the code it pushes if the exception has one, an
interrupt from outside, or `INT`. -/
inductive Event where
  | exception (num : UInt8) (code : UInt32)
  | external (num : UInt8)
  | software (num : UInt8)
  deriving DecidableEq, Repr

/-- The exceptions with an error code. -/
def pushesCode (num : UInt8) : Bool := num ∈ [8, 10, 11, 12, 13, 14, 17]

namespace Event

def num : Event → UInt8
  | exception num _ | external num | software num => num

/-- The last bit of the error code of a fault on the way: the program did not ask for the interrupt. -/
def ext : Event → Nat
  | software _ => 0
  | exception _ _ | external _ => 1

/-- The vector, with the error code that is pushed. -/
def vector : Event → Vector
  | exception num code => ⟨num.toUInt32, if pushesCode num then some code else none⟩
  | external num | software num => ⟨num.toUInt32, none⟩

end Event

/-- An event is delivered, in ring 0; a fault on the way is delivered in its place, and a fault on the way of that is
a double fault. After a third one the CPU stops. -/
def Cpu.raise (cpu : Cpu) (e : Event) : Option (Vector × UInt32 × UInt32) :=
  match cpu.enter e.num.toNat e.ext with
  | .ok target => some (e.vector, target)
  | .error v =>
      match cpu.enter v.num.toNat 1 with
      | .ok target => some (v, target)
      | .error _ =>
          match cpu.enter 8 1 with
          | .ok target => some (⟨8, some 0⟩, target)
          | .error _ => none

/-- The words that `interrupt_handler_common` gets, for the code at each address. -/
def Cpu.arrive (cpu : Cpu) (text : UInt32 → List Instr) (e : Event) (m : Machine) : Option Words :=
  (cpu.raise e).map fun raised => fun i =>
    (run id ⟨0, 0, 0, 0⟩ (text raised.2.2 ++ isrSave) (deliver raised.1 raised.2.1 m)).stack (i + 1)

/-- The CPU after `gdt_init` and `idt_init`. -/
def bootedCpu (address : Label → UInt32) (t : Nat → GdtEntry) : Cpu where
  gdt := ⟨8 * gdtEntries - 1, fun i => (gdtInit t i).word⟩
  idt := ⟨8 * 256 - 1, fun i => (idtTable address i).word⟩

/-- The code of the stubs stands at their addresses. -/
def Linked (address : Label → UInt32) (text : UInt32 → List Instr) : Prop :=
  ∀ n label, labelOf n = some label → text (address label) = body label

/-! ### Handlers -/

/-- A call of `idt_register_handler` or `idt_unregister_handler`. -/
inductive Registration where
  | register (num : UInt8) (handler : Words → Words)
  | unregister (num : UInt8)

namespace Registration

def num : Registration → UInt8
  | register num _ | unregister num => num

/-- What the table holds for the number afterwards. -/
def handler : Registration → Option (Words → Words)
  | register _ handler => some handler
  | unregister _ => none

/-- `interrupt_handlers` after some calls. -/
def table (ops : List Registration) : UInt8 → Option (Words → Words) :=
  ops.foldl (fun t op => Function.update t op.num op.handler) fun _ => none

/-- **The handler of a number**: that of the last call for it. -/
def last (ops : List Registration) (num : UInt8) : Option (Words → Words) :=
  (ops.filter fun op => decide (op.num = num)).getLast?.bind handler

end Registration

section Dispatch

variable {address : Label → UInt32} {text : UInt32 → List Instr} {t : Nat → GdtEntry} {n : Nat} {label : Label}
  {e : Event} {ops : List Registration} {cpu : Cpu} {v : Vector} {target : UInt32 × UInt32}

theorem table_eq_last (ops : List Registration) (num : UInt8) :
    Registration.table ops num = Registration.last ops num := by
  induction ops using List.reverseRecOn with
  | nil => rfl
  | append_singleton ops op ih =>
      unfold Registration.table Registration.last at ih ⊢
      rw [List.foldl_append, List.filter_append, List.foldl_cons, List.foldl_nil]
      by_cases mine : op.num = num
      · subst mine
        rw [Function.update_self, List.filter_cons_of_pos (by simp), List.filter_nil, List.getLast?_concat]
        rfl
      · rw [Function.update_of_ne (Ne.symm mine), List.filter_cons_of_neg (by simpa using mine), List.filter_nil,
          List.append_nil]
        exact ih

/-- The flags of a gate. -/
def gateFlags (n : Nat) : UInt8 := if n = 128 then idtInterrupt ||| idtRing3 else idtInterrupt

theorem installIsrs_eq (u : Nat → IdtEntry) (k : Nat) : installIsrs address u k n =
    if n < k then idtGate (address (.isr n)) 0x08 idtInterrupt else u n := by
  induction k with
  | zero => rfl
  | succ k ih =>
      show Function.update _ k _ n = _
      by_cases last : n = k
      · rw [last, Function.update_self, if_pos (Nat.lt_succ_self k)]
      · rw [Function.update_of_ne last, ih]
        exact if_congr (by omega) rfl rfl

theorem installIrqs_eq (u : Nat → IdtEntry) (k : Nat) : installIrqs address u k n =
    if 32 ≤ n ∧ n < 32 + k then idtGate (address (.irq (n - 32))) 0x08 idtInterrupt else u n := by
  induction k with
  | zero =>
      rw [if_neg (by omega)]
      rfl
  | succ k ih =>
      show Function.update _ (32 + k) _ n = _
      by_cases last : n = 32 + k
      · rw [last, Function.update_self, if_pos (by omega), Nat.add_sub_cancel_left]
      · rw [Function.update_of_ne last, ih]
        exact if_congr (by omega) rfl rfl

/-- **The gates of the table.** -/
theorem idtTable_eq (address : Label → UInt32) (n : Nat) : idtTable address n =
    match labelOf n with
    | some label => idtGate (address label) 0x08 (gateFlags n)
    | none => ⟨0, 0, 0, 0, 0⟩ := by
  unfold idtTable labelOf gateFlags
  show Function.update _ 128 _ n = _
  by_cases last : n = 128
  · rw [last, Function.update_self]
    rfl
  · rw [Function.update_of_ne last, installIrqs_eq, installIsrs_eq, if_neg last, if_neg last]
    by_cases first : n < 20
    · rw [if_pos first, if_neg (by omega), if_pos first]
    · rw [if_neg first, if_neg first]
      by_cases line : 32 ≤ n ∧ n < 48
      · rw [if_pos line, if_pos (by omega)]
      · rw [if_neg line, if_neg (by omega)]

theorem kernelCode : gdtInit t 1 = gdtGate 0 0xFFFFFFFF 0x9A flatGran := by
  unfold gdtInit gdtSetGate
  rw [Function.update_of_ne (by decide), Function.update_of_ne (by decide), Function.update_of_ne (by decide),
    Function.update_of_ne (by decide), Function.update_self]
  rfl

/-- **The kernel's code segment is flat.** -/
theorem code_flat {offset : Nat} (word : offset < 2 ^ 32) (ext : Nat) :
    (bootedCpu address t).code 0x08 offset ext = .ok (UInt32.ofNat offset) := by
  have fetched : (bootedCpu address t).gdt.fetch 1 = some (gdtGate 0 0xFFFFFFFF 0x9A flatGran).word := by
    show some (gdtInit t 1).word = _
    rw [kernelCode]
  obtain ⟨base, access, limit⟩ := segment_fields 0 0xFFFFFFFF 0x9A flatGran
  generalize (gdtGate 0 0xFFFFFFFF 0x9A flatGran).word = w at fetched base access limit
  have ring : ringOf w = 0 := by
    rw [ringOf, access]
    decide
  have code : isCode w = true := by
    rw [isCode, access]
    decide
  have present : isPresent w = true := by
    rw [isPresent, access]
    decide
  have last : limitOf w = 2 ^ 32 - 1 := by
    rw [limit]
    decide
  have zero : baseOf w + offset = offset := by
    rw [base]
    exact Nat.zero_add offset
  have first : ¬ (8 / 8 = 0) := by decide
  have table : ¬ (8 / 4 % 2 = 1) := by decide
  have kind : ¬ (isCode w = false ∨ ringOf w ≠ 0) := by
    rw [code, ring]
    decide
  unfold Cpu.code
  rw [if_neg first, if_neg table, show 8 / 8 = 1 from rfl, fetched]
  dsimp only
  rw [if_neg kind, present, if_neg (by decide), if_neg (by omega), zero]

theorem fetch_idt (inside : n < 256) : (bootedCpu address t).idt.fetch n = some (idtTable address n).word := by
  refine if_pos ?_
  show 8 * n + 7 ≤ 8 * 256 - 1
  omega

/-- **An installed vector leads to its label.** -/
theorem enter_installed (found : labelOf n = some label) (ext : Nat) :
    (bootedCpu address t).enter n ext = .ok (address label, address label) := by
  have inside : n < 256 := by
    unfold labelOf at found
    split_ifs at found <;> omega
  obtain ⟨offset, selector, access⟩ := gate_fields (address label) 0x08 (gateFlags n)
  have fetched : (bootedCpu address t).idt.fetch n = some (idtGate (address label) 0x08 (gateFlags n)).word := by
    rw [fetch_idt inside, idtTable_eq, found]
  generalize (idtGate (address label) 0x08 (gateFlags n)).word = w at fetched offset selector access
  have flags : gateFlags n = 0x0E ∨ gateFlags n = 0x6E := by
    unfold gateFlags
    split
    · exact .inr rfl
    · exact .inl rfl
  have type : gateType w = 0x0E := by
    rw [gateType, access]
    rcases flags with same | same <;> rw [same] <;> decide
  have present : isPresent w = true := by
    rw [isPresent, access]
    rcases flags with same | same <;> rw [same] <;> decide
  have kernel : selectorOf w = 0x08 := selector
  unfold Cpu.enter
  rw [fetched]
  dsimp only
  rw [if_neg (not_not.mpr type), present, if_neg (by decide), offset, kernel,
    code_flat (address label).toNat_lt, UInt32.ofNat_toNat]
  rfl

/-- **A vector without a gate** is a general protection fault. -/
theorem enter_missing (inside : n < 256) (missing : labelOf n = none) (ext : Nat) :
    (bootedCpu address t).enter n ext = .error (protection (8 * n + 2 + ext)) := by
  have fetched : (bootedCpu address t).idt.fetch n = some 0 := by
    rw [fetch_idt inside, idtTable_eq, missing]
    rfl
  unfold Cpu.enter
  rw [fetched]
  exact if_pos (by decide)

/-- What the stubs are told of an event: itself, or the fault in its place. -/
def Event.reported (e : Event) : Vector :=
  if (labelOf e.num.toNat).isSome then e.vector else protection (8 * e.num.toNat + 2 + e.ext)

/-- The CPU pushes an error code exactly when the number is that of an exception with one. -/
def Event.Fits (e : Event) : Prop := e.vector.error.isSome = pushesCode e.num

theorem vector_num (e : Event) : e.vector.num.toNat = e.num.toNat := by
  cases e with
  | exception num code => exact UInt8.toNat_toUInt32 num
  | external num => exact UInt8.toNat_toUInt32 num
  | software num => exact UInt8.toNat_toUInt32 num

theorem raise_entered (entered : cpu.enter e.num.toNat e.ext = .ok target) :
    cpu.raise e = some (e.vector, target) := by
  unfold Cpu.raise
  rw [entered]

theorem raise_faulted (faulted : cpu.enter e.num.toNat e.ext = .error v)
    (entered : cpu.enter v.num.toNat 1 = .ok target) : cpu.raise e = some (v, target) := by
  unfold Cpu.raise
  rw [faulted]
  dsimp only
  rw [entered]

theorem reported_installed (found : labelOf e.num.toNat = some label) : e.reported = e.vector := by
  unfold Event.reported
  rw [found, Option.isSome_some, if_pos rfl]

theorem reported_missing (missing : labelOf e.num.toNat = none) :
    e.reported = protection (8 * e.num.toNat + 2 + e.ext) := by
  unfold Event.reported
  rw [missing, Option.isSome_none, if_neg Bool.false_ne_true]

theorem protection_num (code : Nat) : (protection code).num.toNat = 13 := by
  have thirteen : (13 : UInt32).toNat = 13 := by decide
  exact thirteen

theorem fault_label : labelOf 13 = some (.isr 13) := by decide

/-- **An event gets to the label of what is reported.** -/
theorem raise_booted (e : Event) : ∃ label, labelOf e.reported.num.toNat = some label ∧
    (bootedCpu address t).raise e = some (e.reported, address label, address label) := by
  have inside : e.num.toNat < 256 := e.num.toNat_lt
  generalize size : bootedCpu address t = cpu
  cases found : labelOf e.num.toNat with
  | some label =>
      refine ⟨label, ?_, ?_⟩
      · rw [reported_installed found, vector_num, found]
      · rw [reported_installed found, ← size]
        exact raise_entered (enter_installed found e.ext)
  | none =>
      refine ⟨.isr 13, ?_, ?_⟩
      · rw [reported_missing found, protection_num, fault_label]
      · rw [reported_missing found, ← size]
        apply raise_faulted (enter_missing inside found e.ext)
        rw [protection_num]
        exact enter_installed fault_label 1


/-- **What stands at a label** of the table. -/
theorem body_eq (found : labelOf n = some label) :
    body label = if n ∈ [8, 10, 11, 12, 13, 14, 17] then isrErrcode (UInt32.ofNat n)
      else isrNoerrcode (UInt32.ofNat n) := by
  unfold labelOf at found
  split_ifs at found with first line last
  · cases found
    rfl
  · cases found
    have high : n ∉ [8, 10, 11, 12, 13, 14, 17] := by
      intro member
      simp only [List.mem_cons, List.not_mem_nil, or_false] at member
      omega
    rw [if_neg high, body, Nat.add_sub_cancel' line.1]
    rfl
  · cases found
    rw [last]
    rfl

theorem listed_iff (num : UInt8) : num.toNat ∈ [8, 10, 11, 12, 13, 14, 17] ↔ pushesCode num = true := by
  have all : ∀ k < 256, (k ∈ [8, 10, 11, 12, 13, 14, 17] ↔ pushesCode (UInt8.ofNat k) = true) := by decide +kernel
  have here := all num.toNat num.toNat_lt
  rwa [UInt8.ofNat_toNat] at here

theorem stub_none (missing : v.error = none) : stub v = isrNoerrcode v.num := by
  unfold stub isrNoerrcode
  rw [missing]

theorem stub_some {code : UInt32} (pushed : v.error = some code) : stub v = isrErrcode v.num := by
  unfold stub isrErrcode
  rw [pushed]

/-- **The stub is the one for what the CPU has pushed.** -/
theorem body_stub (fits : e.Fits) (found : labelOf e.reported.num.toNat = some label) :
    body label = stub e.reported := by
  cases installed : labelOf e.num.toNat with
  | none =>
      have fault : e.reported = protection (8 * e.num.toNat + 2 + e.ext) := reported_missing installed
      have thirteen : e.reported.num.toNat = 13 := by rw [fault, protection_num]
      rw [body_eq found, thirteen, if_pos (by decide), fault]
      rfl
  | some own =>
      rw [body_eq found, reported_installed installed, vector_num]
      have number : UInt32.ofNat e.num.toNat = e.vector.num := by
        rw [← vector_num, UInt32.ofNat_toNat]
      unfold Event.Fits at fits
      rw [number]
      cases code : e.vector.error with
      | none =>
          rw [code, Option.isSome_none] at fits
          have clean : e.num.toNat ∉ [8, 10, 11, 12, 13, 14, 17] := by
            intro member
            rw [(listed_iff e.num).mp member] at fits
            cases fits
          rw [if_neg clean, stub_none code]
      | some c =>
          rw [code, Option.isSome_some] at fits
          rw [if_pos ((listed_iff e.num).mpr fits.symm), stub_some code]

/-- What a number ends in: its handler, or the default one, which halts after an exception. -/
def ended (handler : Option (Words → Words)) (num : UInt32) (w : Words) : Outcome Words :=
  match handler with
  | some handler => .ok (handler w)
  | none => if num < 32 then .diverge else .ok w

theorem common_ended (registered : UInt32 → Option (Words → Words)) (w : Words) :
    interruptHandlerCommon registered w =
      ended (registered (InterruptFrame.read w).intNo) (InterruptFrame.read w).intNo w := by
  unfold interruptHandlerCommon ended
  cases registered (InterruptFrame.read w).intNo with
  | none => rfl
  | some handler => rfl

theorem arrive_eq (linked : Linked address text) (fits : e.Fits) (m : Machine) :
    ∃ label, labelOf e.reported.num.toNat = some label ∧
      (bootedCpu address t).arrive text e m = some (frameWords e.reported (address label) m) := by
  obtain ⟨label, found, raised⟩ := @raise_booted address t e
  refine ⟨label, found, ?_⟩
  unfold Cpu.arrive
  rw [raised, Option.map_some, linked _ _ found, body_stub fits found]
  unfold frameWords entered
  rfl

end Dispatch

/-! ### Events end in their handlers -/

/-- **Every event is dispatched to the last handler registered for it.** After `gdt_init` and `idt_init`, with the
stubs linked anywhere and after any calls of `idt_register_handler` and `idt_unregister_handler`, an event that
pushes an error code exactly when its number is that of an exception with one gets to `interrupt_handler_common`.
There it has its own number and code, or, if its vector has no gate, those of the general protection fault that
names the vector; the handler is the one registered last for that number, and without one an exception halts and
anything else is ignored. -/
theorem interrupt_dispatched {address : Label → UInt32} {text : UInt32 → List Instr} (linked : Linked address text)
    (t : Nat → GdtEntry) (ops : List Registration) {e : Event} (fits : e.Fits) (m : Machine) :
    ∃ w, (bootedCpu address t).arrive text e m = some w ∧
      (InterruptFrame.read w).intNo = e.reported.num ∧
      (InterruptFrame.read w).errCode = e.reported.error.getD 0 ∧
      (InterruptFrame.read w).eip = m.regs.eip ∧ (InterruptFrame.read w).cs = m.regs.cs.toUInt32 ∧
      (InterruptFrame.read w).eflags = m.regs.eflags ∧
      interruptHandlerCommon (fun num => Registration.table ops num.toUInt8) w =
        ended (Registration.last ops e.reported.num.toUInt8) e.reported.num w := by
  obtain ⟨label, found, arrived⟩ := @arrive_eq address text t e linked fits m
  have number : (InterruptFrame.read (frameWords e.reported (address label) m)).intNo = e.reported.num := by
    rw [read_frameWords]
    rfl
  refine ⟨_, arrived, number, ?_, ?_, ?_, ?_, ?_⟩
  · rw [read_frameWords]
    rfl
  · rw [read_frameWords]
    rfl
  · rw [read_frameWords]
    rfl
  · rw [read_frameWords]
    rfl
  · rw [common_ended, number, table_eq_last]

/-- Stubs of 16 bytes each. -/
def spacedAddress : Label → UInt32
  | .isr n => UInt32.ofNat (0x100000 + 16 * n)
  | .irq n => UInt32.ofNat (0x200000 + 16 * n)

def spacedText (a : UInt32) : List Instr :=
  if a < 0x200000 then body (.isr ((a.toNat - 0x100000) / 16)) else body (.irq ((a.toNat - 0x200000) / 16))

theorem spaced_linked : Linked spacedAddress spacedText := by
  intro n label found
  have small : ∀ k < 256, ∀ label ∈ labelOf k, spacedText (spacedAddress label) = body label := by decide +kernel
  have inside : n < 256 := by
    unfold labelOf at found
    split_ifs at found <;> omega
  exact small n inside label found

/-- A program in the kernel's segments. -/
def quietMachine : Machine :=
  ⟨⟨1, 2, 3, 4, 0x9000, 5, 6, 7, 0x10, 0x10, 0x10, 0x10, 0x08, 0x100000, 0x202⟩, fun _ => 0⟩

/-- `INT 50` has no gate, and the handler of the general protection fault is the one registered last. -/
theorem interrupt_dispatched_missing : ∃ w,
    (bootedCpu spacedAddress fun _ => ⟨0, 0, 0, 0, 0, 0⟩).arrive spacedText (.software 50) quietMachine = some w ∧
      (InterruptFrame.read w).intNo = 13 ∧ (InterruptFrame.read w).errCode = 402 ∧
      interruptHandlerCommon (fun num => Registration.table
        [.register 13 id, .register 14 id, .register 13 fun w i => w i + 1, .unregister 14] num.toUInt8) w =
          .ok fun i => w i + 1 := by
  have fits : (Event.software 50).Fits := by
    unfold Event.Fits
    decide
  have reported : (Event.software 50).reported = ⟨13, some 402⟩ := by decide
  obtain ⟨w, arrived, number, code, -, -, -, handled⟩ := interrupt_dispatched spaced_linked
    (fun _ => ⟨0, 0, 0, 0, 0, 0⟩)
    [.register 13 id, .register 14 id, .register 13 fun w i => w i + 1, .unregister 14] fits quietMachine
  rw [reported] at number code handled
  exact ⟨w, arrived, number, code, handled⟩

end Kfs.Interrupt
