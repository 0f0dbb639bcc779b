/-
**System calls through `INT 0x80`: `syscall.c`.**
The table of system calls holds what was registered last, and nothing beyond 256 (`SyscallOp.table_eq`,
`SyscallOp.table_small`). The dispatcher takes the number from the field of the frame that the stub fills with
ESP - 20. So which system call is made depends on the stack pointer alone: `syscall_number_is_esp`. With a stack at 276
or above no handler ever runs, whatever is in the table and in the registers, and the program goes on as if it had made
no call.
-/

import Kfs.Interrupt.Descriptors

namespace Kfs.Interrupt

/-- The system calls of the kernel. -/
inductive SysCall where
  | sysExit | sysWrite | sysRead | sysKill | sysFork | sysWait | sysGetuid | sysMmap | sysBrk | sysSocket | sysBind
  | sysListen | sysAccept | sysConnect | sysSend | sysRecv
  deriving DecidableEq, Repr

/-- `SYS_EXIT` and so on. -/
def SysCall.number : SysCall → UInt32
  | sysExit => 0
  | sysWrite => 1
  | sysRead => 2
  | sysKill => 8
  | sysFork => 9
  | sysWait => 10
  | sysGetuid => 11
  | sysMmap => 12
  | sysBrk => 13
  | sysSocket => 14
  | sysBind => 15
  | sysListen => 16
  | sysAccept => 17
  | sysConnect => 18
  | sysSend => 19
  | sysRecv => 20

section Table

variable {H : Type}

/-- `syscall_register`, for a number and a handler or NULL. -/
def syscallRegister (t : UInt32 → Option H) (num : UInt32) (handler : Option H) : (UInt32 → Option H) × Int :=
  if num ≥ maxSyscalls then (t, -1) else (Function.update t num handler, 0)

/-- `syscall_unregister`. -/
def syscallUnregister (t : UInt32 → Option H) (num : UInt32) : (UInt32 → Option H) × Int := syscallRegister t num none

/-- The order in which `syscall_init` registers. -/
def initialCalls : List SysCall :=
  [.sysWrite, .sysRead, .sysExit, .sysFork, .sysWait, .sysGetuid, .sysKill, .sysMmap, .sysBrk, .sysSocket, .sysBind,
    .sysListen, .sysAccept, .sysConnect, .sysSend, .sysRecv]

/-- `syscall_init`; `code` says where the functions are. -/
def syscallInit (code : SysCall → H) : UInt32 → Option H :=
  initialCalls.foldl (fun t call => (syscallRegister t call.number (some (code call))).1) fun _ => none

/-- A call of `syscall_register` or of `syscall_unregister`. -/
inductive SyscallOp (H : Type) where
  | register (num : UInt32) (handler : Option H)
  | unregister (num : UInt32)

namespace SyscallOp

def num : SyscallOp H → UInt32
  | register num _ | unregister num => num

/-- What the table holds for the number afterwards. -/
def handler : SyscallOp H → Option H
  | register _ handler => handler
  | unregister _ => none

def exec (t : UInt32 → Option H) : SyscallOp H → (UInt32 → Option H) × Int
  | register num handler => syscallRegister t num handler
  | unregister num => syscallUnregister t num

/-- The table after some calls. -/
def table (t : UInt32 → Option H) (ops : List (SyscallOp H)) : UInt32 → Option H :=
  ops.foldl (fun t op => (op.exec t).1) t

/-- The last call for a number. -/
def last (ops : List (SyscallOp H)) (num : UInt32) : Option (SyscallOp H) :=
  (ops.filter fun op => decide (op.num = num)).getLast?

variable {t : UInt32 → Option H} {ops : List (SyscallOp H)} {num : UInt32}

theorem exec_eq (t : UInt32 → Option H) (op : SyscallOp H) : op.exec t = syscallRegister t op.num op.handler := by
  cases op with
  | register num handler => rfl
  | unregister num => rfl

/-- **One call** changes one entry, if its number is small enough. -/
theorem exec_apply (t : UInt32 → Option H) (op : SyscallOp H) (num : UInt32) :
    (op.exec t).1 num = if op.num = num ∧ num < maxSyscalls then op.handler else t num := by
  rw [exec_eq, syscallRegister]
  by_cases large : op.num ≥ maxSyscalls
  · have skipped : ¬ (op.num = num ∧ num < maxSyscalls) := fun both =>
      absurd both.2 (UInt32.not_lt.mpr (both.1 ▸ large))
    rw [if_pos large, if_neg skipped]
  · rw [if_neg large]
    by_cases mine : op.num = num
    · subst mine
      rw [if_pos ⟨rfl, UInt32.not_le.mp large⟩]
      exact Function.update_self _ _ _
    · have other : ¬ (op.num = num ∧ num < maxSyscalls) := fun both => mine both.1
      rw [if_neg other]
      exact Function.update_of_ne (Ne.symm mine) _ _

/-- **The table holds what was registered last.** -/
theorem table_eq (t : UInt32 → Option H) (ops : List (SyscallOp H)) (small : num < maxSyscalls) :
    table t ops num = ((last ops num).map handler).getD (t num) := by
  induction ops using List.reverseRecOn with
  | nil => rfl
  | append_singleton ops op ih =>
      unfold table last at ih ⊢
      rw [List.foldl_append, List.filter_append, List.foldl_cons, List.foldl_nil, exec_apply]
      by_cases mine : op.num = num
      · rw [if_pos ⟨mine, small⟩, List.filter_cons_of_pos (by simpa using mine), List.filter_nil, List.getLast?_concat]
        rfl
      · rw [if_neg fun both => mine both.1, List.filter_cons_of_neg (by simpa using mine), List.filter_nil,
          List.append_nil]
        exact ih

/-- **Nothing is beyond 256.** -/
theorem table_small (empty : ∀ num, maxSyscalls ≤ num → t num = none) (ops : List (SyscallOp H))
    (large : maxSyscalls ≤ num) : table t ops num = none := by
  induction ops using List.reverseRecOn with
  | nil => exact empty num large
  | append_singleton ops op ih =>
      unfold table at ih ⊢
      rw [List.foldl_append, List.foldl_cons, List.foldl_nil, exec_apply,
        if_neg fun both => absurd both.2 (UInt32.not_lt.mpr large)]
      exact ih

end SyscallOp

/-- `syscall_init` registers, like any other. -/
theorem syscallInit_table (code : SysCall → H) : syscallInit code =
    SyscallOp.table (fun _ => none) (initialCalls.map fun call => .register call.number (some (code call))) := by
  unfold syscallInit SyscallOp.table
  rw [List.foldl_map]
  rfl

theorem syscallInit_small (code : SysCall → H) {num : UInt32} (large : maxSyscalls ≤ num) :
    syscallInit code num = none := by
  rw [syscallInit_table]
  exact SyscallOp.table_small (fun _ _ => rfl) _ large

/-- **The kernel's own system calls** are found under their numbers. -/
theorem syscallInit_number (code : SysCall → H) (call : SysCall) : syscallInit code call.number = some (code call) := by
  cases call <;> rfl

end Table

section Dispatch

variable {H : Type} {t : UInt32 → Option H}

/-- The handler that the dispatcher calls. -/
def syscallCalled (t : UInt32 → Option H) (w : Words) : Option H :=
  if (InterruptFrame.read w).eax ≥ maxSyscalls then none else t (InterruptFrame.read w).eax

/-- `syscall_dispatcher`, on a table of functions that `exec` runs. -/
def syscallHandler (exec : H → UInt32 → UInt32 → UInt32 → UInt32 → UInt32 → UInt32) (t : UInt32 → Option H) :
    Words → Words := syscallDispatcher fun num => (t num).map exec

/-- Without a handler the result is -1. -/
theorem syscallHandler_none {exec : H → UInt32 → UInt32 → UInt32 → UInt32 → UInt32 → UInt32} {w : Words}
    (none : syscallCalled t w = none) : syscallHandler exec t w = storeEax (-1) w := by
  unfold syscallCalled at none
  unfold syscallHandler syscallDispatcher syscallResult
  dsimp only
  by_cases large : (InterruptFrame.read w).eax ≥ maxSyscalls
  · rw [if_pos large]
  · rw [if_neg large] at none
    rw [if_neg large, none]
    rfl

end Dispatch

section Stored

attribute [local simp] frameWords entered interrupt run stub isrCommonStub isrSave isrRestore Interrupt.exec
  deliver pushal popal iret Machine.drop Machine.top storeEax Regs.seg Regs.setSeg

/-- **Whatever a handler stores in `frame->eax`**, the program goes on as it was. -/
theorem interrupt_stores (result : Words → UInt32) (clobber : Clobber) (v : Vector)
    (handlerAddress returnAddress : UInt32) (m : Machine) :
    interrupt (fun w => storeEax (result w) w) clobber v handlerAddress returnAddress m = m := by
  obtain ⟨num, error⟩ := v
  obtain ⟨⟨eax, ecx, edx, ebx, esp, ebp, esi, edi, ds, es, fs, gs, cs, eip, eflags⟩, stack⟩ := m
  cases error with
  | none =>
      ext1
      · simp [esp_restored]
      · funext i
        simp
  | some code =>
      ext1
      · simp [esp_restored]
      · funext i
        simp

end Stored

/-- **`INT 0x80` makes the system call with number ESP - 20.** After `gdt_init`, `idt_init` and `syscall_init`, with
any later registrations of interrupts other than 0x80 and of system calls, and for every program: the interrupt gets
to the dispatcher, which calls the handler of number ESP - 20 if there is one. With the stack at 276 or above there is
none. And whatever is called, the program goes on with the registers and the stack it had. -/
theorem syscall_number_is_esp {H : Type} {address : Label → UInt32} {text : UInt32 → List Instr}
    (linked : Linked address text) (gdt : Nat → GdtEntry)
    (exec : H → UInt32 → UInt32 → UInt32 → UInt32 → UInt32 → UInt32) (code : SysCall → H) (calls : List (SyscallOp H))
    {ops : List Registration}
    (kept : Registration.last ops 0x80 = some (syscallHandler exec (SyscallOp.table (syscallInit code) calls)))
    (m : Machine) :
    ∃ w, (bootedCpu address gdt).arrive text (.software 0x80) m = some w ∧
      interruptHandlerCommon (fun num => Registration.table ops num.toUInt8) w =
        .ok (syscallHandler exec (SyscallOp.table (syscallInit code) calls) w) ∧
      syscallCalled (SyscallOp.table (syscallInit code) calls) w =
        SyscallOp.table (syscallInit code) calls (m.regs.esp - 20) ∧
      (276 ≤ m.regs.esp → syscallCalled (SyscallOp.table (syscallInit code) calls) w = none) ∧
      ∀ clobber handlerAddress returnAddress,
        interrupt (syscallHandler exec (SyscallOp.table (syscallInit code) calls)) clobber .syscall handlerAddress
          returnAddress m = m := by
  have fits : (Event.software 0x80).Fits := by
    unfold Event.Fits
    decide
  have reported : (Event.software 0x80).reported = .syscall := by decide
  obtain ⟨label, found, arrived⟩ := @arrive_eq address text gdt (.software 0x80) linked fits m
  rw [reported] at found arrived
  have frame := read_frameWords .syscall (address label) m
  have number : (InterruptFrame.read (frameWords .syscall (address label) m)).intNo = 0x80 := by
    rw [frame]
    rfl
  have eax : (InterruptFrame.read (frameWords .syscall (address label) m)).eax = m.regs.esp - 20 := by
    rw [frame]
  have called : syscallCalled (SyscallOp.table (syscallInit code) calls) (frameWords .syscall (address label) m) =
      SyscallOp.table (syscallInit code) calls (m.regs.esp - 20) := by
    unfold syscallCalled
    rw [eax]
    split
    · rename_i large
      exact (SyscallOp.table_small (fun _ => syscallInit_small code) calls large).symm
    · rfl
  refine ⟨_, arrived, ?_, called, fun high => ?_, fun clobber handlerAddress returnAddress => ?_⟩
  · rw [common_ended, number, table_eq_last]
    show ended (Registration.last ops 0x80) 0x80 _ = _
    rw [kept]
    rfl
  · rw [called]
    apply SyscallOp.table_small (fun _ => syscallInit_small code) calls
    have taken : (m.regs.esp - 20).toNat = m.regs.esp.toNat - 20 :=
      UInt32.toNat_sub_of_le _ _ (UInt32.le_trans (by decide) high)
    have enough : (276 : UInt32).toNat ≤ m.regs.esp.toNat := UInt32.le_iff_toNat_le.mp high
    rw [UInt32.le_iff_toNat_le, taken]
    have least : (276 : UInt32).toNat = 276 := by decide
    have limit : maxSyscalls.toNat = 256 := by decide
    omega
  · exact interrupt_stores _ clobber .syscall handlerAddress returnAddress m

/-- The calls of the kernel that return their first argument. -/
def echoHandler (t : UInt32 → Option SysCall) : Words → Words := syscallHandler (fun _ a _ _ _ _ => a) t

/-- One more system call is registered, and then the keyboard: a stack at 0x9000 finds no handler. -/
theorem syscall_number_is_esp_high : ∃ w,
    (bootedCpu spacedAddress fun _ => ⟨0, 0, 0, 0, 0, 0⟩).arrive spacedText (.software 0x80) quietMachine = some w ∧
      syscallCalled (SyscallOp.table (syscallInit id) [.register 7 (some .sysExit)]) w = none := by
  have kept : Registration.last
      [.register 0x80 (echoHandler (SyscallOp.table (syscallInit id) [.register 7 (some .sysExit)])),
        .register 0x21 id] 0x80 =
      some (echoHandler (SyscallOp.table (syscallInit id) [.register 7 (some .sysExit)])) := rfl
  obtain ⟨w, arrived, -, -, nobody, -⟩ := syscall_number_is_esp spaced_linked (fun _ => ⟨0, 0, 0, 0, 0, 0⟩)
    (fun _ a _ _ _ _ => a) id [.register 7 (some .sysExit)] kept quietMachine
  exact ⟨w, arrived, nobody (by decide)⟩

end Kfs.Interrupt
