/-
**The interrupt frame: `interrupt.s`, `idt.h`, `syscall.c`.**

The stubs of `interrupt.s` are kept as lists of instructions and run on a machine with the 32-bit
registers, the segment registers and the stack, so that the order of the pushes is the source's. The
stack is the words from ESP upwards. No task state segment is ever loaded, so an interrupt never
changes the privilege level: the CPU pushes EFLAGS, CS and EIP, and an error code for some vectors.

`struct interrupt_frame` puts the eight words of `pushal` first and the segment registers after them,
but the stub pushes the segment registers last, so they are at the lower addresses. Every register
field is read from the slot of another register, and the result of a system call goes to the slot that
`popal` discards. `frame_roundTrip_iff` says exactly for which registers that goes unnoticed.
-/

import Kfs.Base.Outcome

namespace Kfs.Interrupt

/-! ### The machine -/

/-- The registers an interrupt has to preserve. -/
structure Regs where
  eax : UInt32
  ecx : UInt32
  edx : UInt32
  ebx : UInt32
  esp : UInt32
  ebp : UInt32
  esi : UInt32
  edi : UInt32
  ds : UInt16
  es : UInt16
  fs : UInt16
  gs : UInt16
  cs : UInt16
  eip : UInt32
  eflags : UInt32
  deriving DecidableEq, Repr

/-- Words of memory, counted upwards from some address. -/
abbrev Words := Nat → UInt32

/-- The registers and the words from ESP upwards. -/
@[ext] structure Machine where
  regs : Regs
  stack : Words

/-- The segment registers the stub saves. -/
inductive Seg where
  | ds
  | es
  | fs
  | gs
  deriving DecidableEq, Repr

def Regs.seg (r : Regs) : Seg → UInt16
  | .ds => r.ds
  | .es => r.es
  | .fs => r.fs
  | .gs => r.gs

def Regs.setSeg (r : Regs) (s : Seg) (value : UInt16) : Regs :=
  match s with
  | .ds => { r with ds := value }
  | .es => { r with es := value }
  | .fs => { r with fs := value }
  | .gs => { r with gs := value }

namespace Machine

/-- Push one word. -/
def push (m : Machine) (word : UInt32) : Machine :=
  ⟨{ m.regs with esp := m.regs.esp - 4 }, fun
    | 0 => word
    | i + 1 => m.stack i⟩

@[simp] theorem push_regs (m : Machine) (word : UInt32) :
    (m.push word).regs = { m.regs with esp := m.regs.esp - 4 } := rfl

@[simp] theorem push_stack_zero (m : Machine) (word : UInt32) : (m.push word).stack 0 = word := rfl

@[simp] theorem push_stack_succ (m : Machine) (word : UInt32) (i : Nat) :
    (m.push word).stack (i + 1) = m.stack i := rfl

/-- The word on top. -/
def top (m : Machine) : UInt32 := m.stack 0

/-- Drop `n` words. -/
def drop (m : Machine) (n : Nat) : Machine :=
  ⟨{ m.regs with esp := m.regs.esp + 4 * UInt32.ofNat n }, fun i => m.stack (i + n)⟩

end Machine

/-- What a C call may leave in the registers its caller has to save, and in the flags. -/
structure Clobber where
  eax : UInt32
  ecx : UInt32
  edx : UInt32
  eflags : UInt32

/-- The instructions of `interrupt.s`. `call` is the call of `interrupt_handler_common`. -/
inductive Instr where
  | cli
  | pushImm (value : UInt32)
  | pushal
  | pushSeg (s : Seg)
  | movAx (value : UInt16)
  | movSegAx (s : Seg)
  | pushEsp
  | call (returnAddress : UInt32)
  | addEsp (bytes : Nat)
  | popSeg (s : Seg)
  | popal
  | iret
  deriving DecidableEq, Repr

/-- The interrupt flag of EFLAGS. -/
def interruptFlag : UInt32 := 0x200

/-- `pushal`: EAX, ECX, EDX, EBX, the ESP from before, EBP, ESI, EDI. -/
def pushal (m : Machine) : Machine :=
  let r := m.regs
  ((((((((m.push r.eax).push r.ecx).push r.edx).push r.ebx).push r.esp).push r.ebp).push
    r.esi).push r.edi)

/-- `popal`: the reverse of `pushal`, the word of ESP discarded. -/
def popal (m : Machine) : Machine :=
  let s := m.stack
  let m := m.drop 8
  ⟨{ m.regs with
      edi := s 0
      esi := s 1
      ebp := s 2
      ebx := s 4
      edx := s 5
      ecx := s 6
      eax := s 7 }, m.stack⟩

/-- `iret` to the same privilege level. -/
def iret (m : Machine) : Machine :=
  let s := m.stack
  let m := m.drop 3
  ⟨{ m.regs with eip := s 0, cs := (s 1).toUInt16, eflags := s 2 }, m.stack⟩

/-- One instruction. `handler` is what the C code does to the words from its argument upwards. -/
def exec (handler : Words → Words) (clobber : Clobber) (i : Instr) (m : Machine) : Machine :=
  match i with
  | .cli => ⟨{ m.regs with eflags := m.regs.eflags &&& ~~~interruptFlag }, m.stack⟩
  | .pushImm value => m.push value
  | .pushal => pushal m
  | .pushSeg s => m.push (m.regs.seg s).toUInt32
  | .movAx value =>
      ⟨{ m.regs with eax := (m.regs.eax &&& 0xffff0000) ||| value.toUInt32 }, m.stack⟩
  | .movSegAx s => ⟨m.regs.setSeg s m.regs.eax.toUInt16, m.stack⟩
  | .pushEsp => m.push m.regs.esp
  | .call _ =>
      -- the argument on top points at the word above it; the return address comes and goes
      let frame := handler fun i => m.stack (i + 1)
      ⟨{ m.regs with
          eax := clobber.eax
          ecx := clobber.ecx
          edx := clobber.edx
          eflags := clobber.eflags }, fun
        | 0 => m.stack 0
        | i + 1 => frame i⟩
  | .addEsp bytes => m.drop (bytes / 4)
  | .popSeg s => ⟨(m.drop 1).regs.setSeg s m.top.toUInt16, (m.drop 1).stack⟩
  | .popal => popal m
  | .iret => iret m

/-- Run a list of instructions. -/
def run (handler : Words → Words) (clobber : Clobber) (code : List Instr) (m : Machine) : Machine :=
  code.foldl (fun m i => exec handler clobber i m) m

/-! ### The stubs -/

/-- `isr_common_stub` up to the call. -/
def isrSave : List Instr :=
  [.pushal,
    .pushSeg .ds, .pushSeg .es, .pushSeg .fs, .pushSeg .gs,
    .movAx 0x10, .movSegAx .ds, .movSegAx .es, .movSegAx .fs, .movSegAx .gs,
    .pushEsp]

/-- `isr_common_stub` after the call. -/
def isrRestore : List Instr :=
  [.addEsp 4,
    .popSeg .gs, .popSeg .fs, .popSeg .es, .popSeg .ds,
    .popal,
    .addEsp 8,
    .iret]

/-- `isr_common_stub`. -/
def isrCommonStub (returnAddress : UInt32) : List Instr :=
  isrSave ++ [.call returnAddress] ++ isrRestore

/-- An interrupt: its number, and the error code the CPU pushes for some exceptions. -/
structure Vector where
  num : UInt32
  error : Option UInt32
  deriving DecidableEq, Repr

/-- `INT 0x80`. -/
def Vector.syscall : Vector := ⟨0x80, none⟩

/-- The stub of a vector: `ISR_NOERRCODE` and `IRQ`, or `ISR_ERRCODE`. -/
def stub (v : Vector) : List Instr :=
  match v.error with
  | none => [.cli, .pushImm 0, .pushImm v.num]
  | some _ => [.cli, .pushImm v.num]

/-- What the CPU does before the stub: the frame, and an interrupt gate into the kernel's code. -/
def deliver (v : Vector) (handlerAddress : UInt32) (m : Machine) : Machine :=
  let r := m.regs
  let m := ((m.push r.eflags).push r.cs.toUInt32).push r.eip
  let m := match v.error with
    | none => m
    | some code => m.push code
  ⟨{ m.regs with
      cs := 0x08
      eip := handlerAddress
      eflags := r.eflags &&& ~~~interruptFlag }, m.stack⟩

/-- The machine when `interrupt_handler_common` is entered: its argument is on top. -/
def entered (v : Vector) (handlerAddress : UInt32) (m : Machine) : Machine :=
  run id ⟨0, 0, 0, 0⟩ (stub v ++ isrSave) (deliver v handlerAddress m)

/-- The words the argument of `interrupt_handler_common` points at. -/
def frameWords (v : Vector) (handlerAddress : UInt32) (m : Machine) : Words :=
  fun i => (entered v handlerAddress m).stack (i + 1)

/-- A whole interrupt, with a handler that returns. -/
def interrupt (handler : Words → Words) (clobber : Clobber) (v : Vector)
    (handlerAddress returnAddress : UInt32) (m : Machine) : Machine :=
  run handler clobber (stub v ++ isrCommonStub returnAddress) (deliver v handlerAddress m)

/-! ### The frame of the C code -/

/-- `struct interrupt_frame`, field by field. -/
structure InterruptFrame where
  edi : UInt32
  esi : UInt32
  ebp : UInt32
  esp : UInt32
  ebx : UInt32
  edx : UInt32
  ecx : UInt32
  eax : UInt32
  ds : UInt32
  es : UInt32
  fs : UInt32
  gs : UInt32
  intNo : UInt32
  errCode : UInt32
  eip : UInt32
  cs : UInt32
  eflags : UInt32
  userEsp : UInt32
  userSs : UInt32
  deriving DecidableEq, Repr

/-- The packed structure over the words at a pointer. -/
def InterruptFrame.read (w : Words) : InterruptFrame where
  edi := w 0
  esi := w 1
  ebp := w 2
  esp := w 3
  ebx := w 4
  edx := w 5
  ecx := w 6
  eax := w 7
  ds := w 8
  es := w 9
  fs := w 10
  gs := w 11
  intNo := w 12
  errCode := w 13
  eip := w 14
  cs := w 15
  eflags := w 16
  userEsp := w 17
  userSs := w 18

/-- `frame->eax = value`. -/
def storeEax (value : UInt32) (w : Words) : Words := fun i => if i = 7 then value else w i

/-- `MAX_SYSCALLS`. -/
def maxSyscalls : UInt32 := 256

/-- The table of system calls: five arguments to a result. -/
abbrev SyscallTable := UInt32 → Option (UInt32 → UInt32 → UInt32 → UInt32 → UInt32 → UInt32)

/-- The result of a system call: -1 for a number without a handler. -/
def syscallResult (handlers : SyscallTable) (num a b c d e : UInt32) : UInt32 :=
  if num ≥ maxSyscalls then -1
  else
    match handlers num with
    | none => -1
    | some handler => handler a b c d e

/-- `syscall_dispatcher`. -/
def syscallDispatcher (handlers : SyscallTable) (w : Words) : Words :=
  let frame := InterruptFrame.read w
  storeEax (syscallResult handlers frame.eax frame.ebx frame.ecx frame.edx frame.esi frame.edi) w

/-- `interrupt_handler_common`: the registered handler, else a default one. The default exception
handler halts, the default IRQ handler acknowledges the interrupt. -/
def interruptHandlerCommon (registered : UInt32 → Option (Words → Words)) (w : Words) :
    Outcome Words :=
  match registered (InterruptFrame.read w).intNo with
  | some handler => .ok (handler w)
  | none => if (InterruptFrame.read w).intNo < 32 then .diverge else .ok w

/-! ### What the frame holds -/

section Decode

variable (v : Vector) (handlerAddress returnAddress : UInt32) (m : Machine)

/-- The frame with every field holding the register it is named after: ESP as `pushal` found it. The
last two words belong to the interrupted stack. -/
def InterruptFrame.named : InterruptFrame where
  edi := m.regs.edi
  esi := m.regs.esi
  ebp := m.regs.ebp
  esp := m.regs.esp - 20
  ebx := m.regs.ebx
  edx := m.regs.edx
  ecx := m.regs.ecx
  eax := m.regs.eax
  ds := m.regs.ds.toUInt32
  es := m.regs.es.toUInt32
  fs := m.regs.fs.toUInt32
  gs := m.regs.gs.toUInt32
  intNo := v.num
  errCode := v.error.getD 0
  eip := m.regs.eip
  cs := m.regs.cs.toUInt32
  eflags := m.regs.eflags
  userEsp := m.stack 0
  userSs := m.stack 1

attribute [local simp] frameWords entered interrupt run stub isrCommonStub isrSave isrRestore exec
  deliver pushal popal iret Machine.drop Machine.top storeEax Regs.seg Regs.setSeg

theorem five_pushes (esp : UInt32) : esp - 4 - 4 - 4 - 4 - 4 = esp - 20 := by grind

/-- **What the fields really hold.** -/
theorem read_frameWords :
    InterruptFrame.read (frameWords v handlerAddress m) =
      { InterruptFrame.named v m with
        edi := m.regs.gs.toUInt32
        esi := m.regs.fs.toUInt32
        ebp := m.regs.es.toUInt32
        esp := m.regs.ds.toUInt32
        ebx := m.regs.edi
        edx := m.regs.esi
        ecx := m.regs.ebp
        eax := m.regs.esp - 20
        ds := m.regs.ebx
        es := m.regs.edx
        fs := m.regs.ecx
        gs := m.regs.eax } := by
  obtain ⟨num, error⟩ := v
  rw [← five_pushes]
  cases error with
  | none => simp [InterruptFrame.read, InterruptFrame.named]
  | some code => simp [InterruptFrame.read, InterruptFrame.named]

/-- What the pushes of one interrupt take off ESP, the pops give back. -/
theorem esp_restored (esp : UInt32) :
    esp - 4 - 4 - 4 - 4 - 4 - 4 - 4 - 4 - 4 - 4 - 4 - 4 - 4 + 32 + 8 + 12 = esp := by grind

/-- **A result stored in `frame->eax` is lost**: the interrupted program goes on as it was. -/
theorem interrupt_storeEax (clobber : Clobber) (result : UInt32) :
    interrupt (storeEax result) clobber v handlerAddress returnAddress m = m := by
  obtain ⟨num, error⟩ := v
  obtain ⟨⟨eax, ecx, edx, ebx, esp, ebp, esi, edi, ds, es, fs, gs, cs, eip, eflags⟩, stack⟩ := m
  cases error with
  | none =>
      ext1
      · simp [esp_restored]
      · funext i
        simp
  | some code =>
      ext1
      · simp [esp_restored]
      · funext i
        simp

end Decode

/-! ### The round trip -/

/-- What the stubs and the C code have to agree on, for a handler that stores `result`. -/
structure FrameRoundTrip (v : Vector) (handlerAddress returnAddress : UInt32) (clobber : Clobber)
    (m : Machine) (result : UInt32) : Prop where
  fields : InterruptFrame.read (frameWords v handlerAddress m) = InterruptFrame.named v m
  dispatch : ∀ registered handlers, registered v.num = some (syscallDispatcher handlers) →
    interruptHandlerCommon registered (frameWords v handlerAddress m) =
      .ok (storeEax (syscallResult handlers m.regs.eax m.regs.ebx m.regs.ecx m.regs.edx m.regs.esi
        m.regs.edi) (frameWords v handlerAddress m))
  returned : interrupt (storeEax result) clobber v handlerAddress returnAddress m =
    ⟨{ m.regs with eax := result }, m.stack⟩

/-- The registers whose slots are exchanged hold the same words, and the result is what EAX holds
anyway. -/
structure SlotsAgree (r : Regs) (result : UInt32) : Prop where
  edi : r.edi = r.gs.toUInt32
  ebx : r.ebx = r.gs.toUInt32
  ds : r.ds = r.gs
  esp : r.esp - 20 = r.gs.toUInt32
  eax : r.eax = r.gs.toUInt32
  esi : r.esi = r.fs.toUInt32
  edx : r.edx = r.fs.toUInt32
  es : r.es = r.fs
  ebp : r.ebp = r.fs.toUInt32
  ecx : r.ecx = r.fs.toUInt32
  result : result = r.eax

/-- **Exactly when the interrupt frame makes the round trip**: for every vector, every value of the
registers, every stack, every result and whatever the C code leaves in its own registers. -/
theorem frame_roundTrip_iff (v : Vector) (handlerAddress returnAddress : UInt32)
    (clobber : Clobber) (m : Machine) (result : UInt32) :
    FrameRoundTrip v handlerAddress returnAddress clobber m result ↔ SlotsAgree m.regs result := by
  constructor
  · rintro ⟨fields, _, returned⟩
    rw [read_frameWords] at fields
    rw [interrupt_storeEax] at returned
    simp only [InterruptFrame.named, InterruptFrame.mk.injEq] at fields
    obtain ⟨edi, esi, ebp, esp, ebx, edx, ecx, eax, ds, es, fs, gs, _⟩ := fields
    have kept : m.regs.eax = result := congrArg (fun x => x.regs.eax) returned
    have first : m.regs.ds.toUInt32 = m.regs.gs.toUInt32 := by rw [← ds, ← ebx, ← edi]
    have second : m.regs.es.toUInt32 = m.regs.fs.toUInt32 := by rw [← es, ← edx, ← esi]
    exact {
      edi := edi.symm
      ebx := (edi.trans ebx).symm
      ds := UInt16.toUInt32_inj.mp first
      esp := esp.symm.trans first
      eax := gs
      esi := esi.symm
      edx := (esi.trans edx).symm
      es := UInt16.toUInt32_inj.mp second
      ebp := ebp.symm.trans second
      ecx := fs
      result := kept.symm }
  · intro agree
    have fields : InterruptFrame.read (frameWords v handlerAddress m) =
        InterruptFrame.named v m := by
      rw [read_frameWords]
      simp only [InterruptFrame.named, agree.edi, agree.ebx, agree.ds, agree.esp, agree.eax,
        agree.esi, agree.edx, agree.es, agree.ebp, agree.ecx]
    refine ⟨fields, fun registered handlers found => ?_, ?_⟩
    · have number : (InterruptFrame.read (frameWords v handlerAddress m)).intNo = v.num := by
        rw [fields]
        rfl
      rw [interruptHandlerCommon, number, found]
      simp only [syscallDispatcher, fields, InterruptFrame.named]
    · rw [interrupt_storeEax, agree.result]

/-- `sys_write(1, buf, 22)` through `INT 0x80`, as the shell's test makes it. -/
def sysWriteCall : Machine :=
  ⟨{ eax := 1, ecx := 0x110000, edx := 22, ebx := 1, esp := 0x120000, ebp := 0x120040, esi := 0,
      edi := 0, ds := 0x10, es := 0x10, fs := 0x10, gs := 0x10, cs := 0x08, eip := 0x101000,
      eflags := 0x202 }, fun _ => 0⟩

/-- The dispatcher does not see call number 1, and the caller does not get its result. -/
theorem sysWrite_lost :
    (InterruptFrame.read (frameWords .syscall 0x100000 sysWriteCall)).eax = 0x11ffec ∧
      (interrupt (storeEax 22) ⟨0, 0, 0, 0⟩ .syscall 0x100000 0x100800 sysWriteCall).regs.eax = 1 ∧
      ¬ FrameRoundTrip .syscall 0x100000 0x100800 ⟨0, 0, 0, 0⟩ sysWriteCall 22 := by
  refine ⟨by rw [read_frameWords]; decide, by rw [interrupt_storeEax]; decide, fun trip => ?_⟩
  have eax := congrArg InterruptFrame.eax trip.fields
  rw [read_frameWords] at eax
  exact absurd eax (by decide)

end Kfs.Interrupt
