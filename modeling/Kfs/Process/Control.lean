/-
**Process control: `process.c`.**

Exit and wait, the scheduler, and the signal queues. The functions that only read and write the process
table take the table; those that also allocate, free or switch directories take the whole kernel.

The children of a process are a list through `next_sibling`. The walks along it carry fuel and `diverge`
without it: the table has `maxProcesses` slots, so a walk that visits more goes round for ever.
`process_wait` removes a child through a pointer to the field that points at it; `Link` names such a
field.

A signal queue is a list of heap entries, `signal` at offset 0 and `next` at offset 4. A delivery is
reported as the signal with the handler that was called, 0 when there is none and a message is printed.
What a handler does is not part of this code.
-/

import Kfs.Process.Pcb

namespace Kfs.Process

open Kfs.Heap Kfs.Paging Memory

/-- `process_table`. -/
abbrev Table := Slot → Pcb

/-- Change one control block. -/
def Table.modify (table : Table) (i : Slot) (f : Pcb → Pcb) : Table :=
  Function.update table i (f (table i))

theorem Table.modify_apply (table : Table) (i j : Slot) (f : Pcb → Pcb) :
    table.modify i f j = if j = i then f (table i) else table j :=
  Function.update_apply table i (f (table i)) j

/-- `for (int i = 0; i < MAX_PROCESSES; i++)`. -/
def slots : List Slot := List.finRange maxProcesses

/-- `process_get_by_pid`. -/
def processGetByPid (table : Table) (pid : Nat) : Option Slot :=
  slots.find? fun i => (table i).state ≠ .unused ∧ (table i).pid = pid

/-! ### Exit -/

/-- The loop of `process_exit` that orphans the children. -/
def orphanChildren : (fuel : Nat) → Table → (child : Option Slot) → Outcome Table
  | _, table, none => .ok table
  | 0, _, some _ => .diverge
  | fuel + 1, table, some child =>
      orphanChildren fuel (table.modify child fun proc => { proc with parent := none })
        (table child).nextSibling

/-- `process_exit`, where it destroys the directory. -/
def exitDirectory (s : Kernel) (i : Slot) : Outcome Kernel :=
  if (s.table i).pageDirectory ≠ 0 then do
    let p ← pagingDestroyDirectory s.paging (s.table i).pageDirectory
    return (s.withPaging p).modify i fun proc => { proc with pageDirectory := 0 }
  else .ok s

/-- `process_exit`, where it frees the kernel stack. -/
def exitStack (s : Kernel) (i : Slot) : Outcome Kernel :=
  if (s.table i).kernelStack ≠ 0 then do
    let h ← kfree s.paging.heap (s.table i).kernelStack
    return (s.withHeap h).modify i fun proc => { proc with kernelStack := 0 }
  else .ok s

/-- `process_exit`. -/
def processExit (s : Kernel) (proc : Option Slot) (status : Int) : Outcome Kernel :=
  match proc with
  | none => .ok s
  | some i => do
      let s := s.modify i fun proc => { proc with exitStatus := status, state := .zombie }
      let s ← exitDirectory s i
      let s ← exitStack s i
      let table ← orphanChildren maxProcesses s.table (s.table i).children
      return { s with table := table }

/-! ### Wait -/

/-- `process_t **prev`: the field that holds a pointer to a child. -/
inductive Link where
  | children (proc : Slot)
  | nextSibling (proc : Slot)
  deriving DecidableEq, Repr

/-- `*prev`. -/
def Table.read (table : Table) : Link → Option Slot
  | .children proc => (table proc).children
  | .nextSibling proc => (table proc).nextSibling

/-- `*prev = value`. -/
def Table.write (table : Table) (link : Link) (value : Option Slot) : Table :=
  match link with
  | .children proc => table.modify proc fun p => { p with children := value }
  | .nextSibling proc => table.modify proc fun p => { p with nextSibling := value }

/-- The loop of `process_wait` that looks for a zombie. -/
def findZombie (table : Table) : (fuel : Nat) → (child : Option Slot) → Outcome (Option Slot)
  | _, none => .ok none
  | 0, some _ => .diverge
  | fuel + 1, some child =>
      if (table child).state = .zombie then .ok (some child)
      else findZombie table fuel (table child).nextSibling

/-- `while (*prev && *prev != child) prev = &(*prev)->next_sibling;`. -/
def seekLink (table : Table) (child : Slot) : (fuel : Nat) → (prev : Link) → Outcome Link
  | fuel, prev =>
      match table.read prev with
      | none => .ok prev
      | some c =>
          if c = child then .ok prev
          else match fuel with
            | 0 => .diverge
            | fuel + 1 => seekLink table child fuel (.nextSibling c)

/-- `return -1` as 32 bits. -/
def noChild : Nat := 0xFFFFFFFF

/-- `process_wait`: the table, the returned 32 bits, and what is stored through `status`. -/
def processWait (table : Table) (parent : Option Slot) : Outcome (Table × Nat × Option Int) :=
  match parent with
  | none => .ok (table, noChild, none)
  | some p => do
      match ← findZombie table maxProcesses (table p).children with
      | none => return (table, noChild, none)
      | some child =>
          let prev ← seekLink table child maxProcesses (.children p)
          let after := if (table.read prev).isSome then table.write prev (table child).nextSibling
            else table
          return (after.modify child fun proc => { proc with state := .unused },
            (table child).pid, some (table child).exitStatus)

/-! ### Signals -/

/-- `sizeof(signal_queue_entry_t)`. -/
def entrySize : Nat := 8

/-- `entry->signal`. -/
def entrySignal (m : Memory) (entry : Nat) : Nat := m.load32 entry

/-- `entry->next`. -/
def entryNext (m : Memory) (entry : Nat) : Nat := m.load32 (entry + 4)

/-- `process_signal_send`. -/
def processSignalSend (s : Kernel) (proc : Option Slot) (signal : Int) : Outcome (Kernel × Int) :=
  match proc with
  | none => .ok (s, -1)
  | some i =>
      if signal < 0 ∨ 32 ≤ signal then .ok (s, -1)
      else do
        let (h, entry) ← kmalloc s.paging.heap entrySize
        let s := s.withHeap h
        if entry = 0 then return (s, -1)
        let m := s.paging.mem.store32 entry signal.toNat
        let m := m.store32 (entry + 4) (s.table i).signalQueue
        let s := s.withPaging (s.paging.write m)
        return (s.modify i fun proc => { proc with signalQueue := entry }, 0)

/-- A signal that reached a process, with the handler called for it (0 for none). -/
structure Delivery where
  signal : Nat
  handler : Nat
  deriving DecidableEq, Repr

/-- The loop of `process_signal_process`. -/
def signalLoop (handlers : Nat → Nat) : (fuel : Nat) → HeapState → (queue : Nat) →
    Outcome (HeapState × List Delivery)
  | 0, _, _ => .diverge
  | fuel + 1, h, queue =>
      if queue = 0 then .ok (h, [])
      else do
        let next := entryNext h.mem queue
        let signal := entrySignal h.mem queue
        let h ← kfree h queue
        let (h, later) ← signalLoop handlers fuel h next
        return (h, ⟨signal, handlers signal⟩ :: later)

/-- `process_signal_process`, with what it delivered. -/
def processSignalProcess (s : Kernel) (proc : Option Slot) : Outcome (Kernel × List Delivery) :=
  match proc with
  | none => .ok (s, [])
  | some i => do
      let (h, delivered) ←
        signalLoop (s.table i).signalHandlers walkFuel s.paging.heap (s.table i).signalQueue
      return ((s.withHeap h).modify i fun proc => { proc with signalQueue := 0 }, delivered)

/-- `(int)x` of 32 bits. -/
def toInt (x : Nat) : Int := if x < 2 ^ 31 then x else x - 2 ^ 32

/-- `sys_kill`, through `process_kill`: what the sending returns is dropped. -/
def sysKill (s : Kernel) (pid signal : Nat) : Outcome (Kernel × Int) :=
  match processGetByPid s.table pid with
  | none => .ok (s, -1)
  | some i => do
      let (s, _) ← processSignalSend s (some i) (toInt signal)
      return (s, 0)

/-! ### The scheduler -/

/-- The search of `process_schedule`: the ready slots after the current one, then those before it, then
the current one itself. -/
def pickNext (table : Table) (current : Option Slot) : Option Slot :=
  match current with
  | some cur =>
      match slots.find? fun i => cur < i ∧ (table i).state = .ready with
      | some next => some next
      | none =>
          match slots.find? fun i => i < cur ∧ (table i).state = .ready with
          | some next => some next
          | none => if (table cur).state = .ready then some cur else none
  | none => slots.find? fun i => (table i).state = .ready

/-- `process_switch` up to the pending signals. -/
def switchTo (s : Kernel) (next : Slot) : Kernel :=
  let s := match s.currentProcess with
    | some j =>
        if (s.table j).state = ProcessState.running then
          s.modify j fun proc => { proc with state := .ready }
        else s
    | none => s
  let s := { s with currentProcess := some next }
  let s := s.modify next fun proc => { proc with state := .running }
  s.withPaging (pagingSwitchDirectory s.paging (s.table next).pageDirectory)

/-- `process_switch`. -/
def processSwitch (s : Kernel) (next : Slot) : Outcome (Kernel × List Delivery) :=
  processSignalProcess (switchTo s next) (some next)

/-- `process_schedule`, with the deliveries of the switch it makes. -/
def processSchedule (s : Kernel) : Outcome (Kernel × List Delivery) :=
  match pickNext s.table s.currentProcess with
  | none => .ok (s, [])
  | some next => if some next ≠ s.currentProcess then processSwitch s next else .ok (s, [])

/-- `process_set_current` with its NULL argument. -/
def processSetCurrentOr (s : Kernel) : (proc : Option Slot) → Kernel
  | some i => processSetCurrent s i
  | none =>
      let s := match s.currentProcess with
        | some j => s.modify j fun proc => { proc with state := .ready }
        | none => s
      { s with currentProcess := none }

end Kfs.Process
