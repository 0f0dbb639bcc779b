/-
**The process table on its own.**

Creating, forking, ending and scheduling processes move two kinds of state: the process table with the
current process, the PID counter and the loaded directory, and the memory behind it. `Procs` is the first
kind. Its operations follow the source line by line and take from the memory functions only what they
return (`Supply`): any allocation may fail, and releasing memory has no result.

`Process/Refine.lean` connects the two: each call of the kernel is the call on the table with some supply.
So what holds in every run of the table, for every supply, holds in every run of the kernel; and it holds
as well for a kernel whose `kfree` would release the memory it is given.

No operation here registers a signal handler, so a switch empties the queue of the process it switches to
and does nothing else to the table.
-/

import Kfs.Base.Links
import Kfs.Base.Trace
import Kfs.Process.Control

namespace Kfs.Process

open Kfs.Heap Kfs.Paging

/-- The process table, `current_process`, `next_pid` and `current_directory`. -/
structure Procs where
  table : Table
  currentProcess : Option Slot
  nextPid : Nat
  currentDirectory : Nat

/-- What the memory functions return to `process_create` and `process_fork`: the new directory, the
kernel stack and the page of the user stack, 0 for NULL. -/
structure Supply where
  directory : Nat
  kernelStack : Nat
  userPage : Nat
  deriving DecidableEq, Repr

/-- Memory for one more process. -/
def sampleSupply : Supply := ⟨0x501000, 0x502020, 0x503030⟩

namespace Procs

/-- Change one control block. -/
def modify (s : Procs) (i : Slot) (f : Pcb → Pcb) : Procs := { s with table := s.table.modify i f }

/-- The slot is given back. -/
def discard (s : Procs) (i : Slot) : Procs := s.modify i fun proc => { proc with state := .unused }

/-- `process_init`, with the kernel's own directory loaded. -/
def init (kernelDirectory : Nat) : Procs where
  table := fun _ => Pcb.zero
  currentProcess := none
  nextPid := 1
  currentDirectory := kernelDirectory

/-- `process_alloc_slot`. -/
def allocSlot (s : Procs) : Option Slot := slots.find? fun i => (s.table i).state = .unused

/-- `process_alloc_pid`: the counter moves on. -/
def allocPid (s : Procs) : Procs := { s with nextPid := (s.nextPid + 1) % 2 ^ 32 }

/-- `process_create` in a free slot. -/
def createAt (s : Procs) (i : Slot) (entryPoint uid : Nat) (mem : Supply) : Procs × Option Slot :=
  let s := s.allocPid.modify i fun _ =>
    { Pcb.zero with pid := s.nextPid, state := .ready, uid := uid, gid := uid }
  let s := s.modify i fun proc => { proc with pageDirectory := mem.directory }
  if mem.directory = 0 then (s.discard i, none)
  else
    let s := s.modify i fun proc => { proc with kernelStack := mem.kernelStack }
    if mem.kernelStack = 0 then (s.discard i, none)
    else if mem.userPage = 0 then (s.discard i, none)
    else (s.modify i fun proc => proc.setUp entryPoint, some i)

/-- `process_create`. -/
def create (s : Procs) (entryPoint uid : Nat) (mem : Supply) : Procs × Option Slot :=
  match s.allocSlot with
  | none => (s, none)
  | some i => s.createAt i entryPoint uid mem

/-- What `paging_clone_directory` returns: NULL for NULL. -/
def cloned (source : Nat) (mem : Supply) : Nat := if source = 0 then 0 else mem.directory

/-- `process_fork` up to the point where the child is in its parent's list. -/
def linked (s : Procs) (p c : Slot) : Procs :=
  let s := s.allocPid.modify c fun _ =>
    { s.table p with pid := s.nextPid, state := .ready, parent := some p, children := none }
  let s := s.modify c fun proc => { proc with nextSibling := (s.table p).children }
  s.modify p fun proc => { proc with children := some c }

/-- `process_fork` into a free slot. -/
def forkAt (s : Procs) (p c : Slot) (mem : Supply) : Procs × Option Slot :=
  let s := s.linked p c
  let dir := cloned (s.table p).pageDirectory mem
  let s := s.modify c fun proc => { proc with pageDirectory := dir }
  if dir = 0 then (s.discard c, none)
  else
    let s := s.modify c fun proc => { proc with kernelStack := mem.kernelStack }
    if mem.kernelStack = 0 then (s.discard c, none)
    else (s.modify c fun proc => { proc with context := { proc.context with eax := 0 } }, some c)

/-- `process_fork`. -/
def fork (s : Procs) (parent : Option Slot) (mem : Supply) : Procs × Option Slot :=
  match parent, s.allocSlot with
  | none, _ => (s, none)
  | _, none => (s, none)
  | some p, some c => s.forkAt p c mem

/-- `process_exit`, once the directory and the kernel stack are released. -/
def exit (s : Procs) (proc : Option Slot) (status : Int) : Outcome Procs :=
  match proc with
  | none => .ok s
  | some i => do
      let s := s.modify i fun proc =>
        { proc with exitStatus := status, state := .zombie, pageDirectory := 0, kernelStack := 0 }
      let table ← orphanChildren maxProcesses s.table (s.table i).children
      return { s with table := table }

/-- `process_wait`. -/
def wait (s : Procs) (parent : Option Slot) : Outcome (Procs × Nat × Option Int) := do
  let (table, pid, status) ← processWait s.table parent
  return ({ s with table := table }, pid, status)

/-- `paging_switch_directory`. -/
def switchDirectory (s : Procs) (dir : Nat) : Procs :=
  if dir = 0 then s else { s with currentDirectory := dir }

/-- `process_switch`, once the pending signals are delivered. -/
def switch (s : Procs) (next : Slot) : Procs :=
  let s := match s.currentProcess with
    | some j =>
        if (s.table j).state = ProcessState.running then
          s.modify j fun proc => { proc with state := .ready }
        else s
    | none => s
  let s := { s with currentProcess := some next }
  let s := s.modify next fun proc => { proc with state := .running }
  let s := s.switchDirectory (s.table next).pageDirectory
  s.modify next fun proc => { proc with signalQueue := 0 }

/-- `process_schedule`. -/
def schedule (s : Procs) : Procs :=
  match pickNext s.table s.currentProcess with
  | none => s
  | some next => if some next ≠ s.currentProcess then s.switch next else s

/-- `process_set_current`. -/
def setCurrent (s : Procs) (proc : Option Slot) : Procs :=
  let s := match s.currentProcess with
    | some j => if some j ≠ proc then s.modify j fun proc => { proc with state := .ready } else s
    | none => s
  let s := { s with currentProcess := proc }
  match proc with
  | none => s
  | some i =>
      let s := s.modify i fun proc => { proc with state := .running }
      s.switchDirectory (s.table i).pageDirectory

end Procs

/-! ### Operations and what they leave behind -/

/-- A call, with the supply it gets from memory. -/
inductive ProcOp where
  | create (entryPoint uid : Nat) (mem : Supply)
  | fork (parent : Option Slot) (mem : Supply)
  | exit (proc : Option Slot) (status : Int)
  | wait (parent : Option Slot)
  | schedule
  | setCurrent (proc : Option Slot)
  deriving DecidableEq, Repr

/-- What a call did, by PIDs: a PID was given to a new process in a slot, or to none because the call
failed; a process exited; a parent reaped a child. -/
inductive Event where
  | created (pid : Nat) (slot : Slot)
  | forked (parent pid : Nat) (slot : Slot)
  | failed (pid : Nat)
  | exited (pid : Nat) (status : Int)
  | reaped (parent pid : Nat) (status : Int)
  deriving DecidableEq, Repr

namespace Procs

/-- Run one operation; the event is for bookkeeping only. -/
def exec (s : Procs) : ProcOp → Outcome (Procs × Option Event)
  | .create entryPoint uid mem =>
      let (s', result) := s.create entryPoint uid mem
      .ok (s', s.allocSlot.map fun _ =>
        match result with
        | some i => .created s.nextPid i
        | none => .failed s.nextPid)
  | .fork parent mem =>
      let (s', result) := s.fork parent mem
      .ok (s', match parent, s.allocSlot with
        | some p, some _ => some (match result with
            | some c => .forked (s.table p).pid s.nextPid c
            | none => .failed s.nextPid)
        | _, _ => none)
  | .exit proc status => do
      let s' ← s.exit proc status
      return (s', proc.map fun i => .exited (s.table i).pid status)
  | .wait parent => do
      let (s', pid, status) ← s.wait parent
      match parent, status with
      | some p, some status => return (s', some (.reaped (s.table p).pid pid status))
      | _, _ => return (s', none)
  | .schedule => .ok (s.schedule, none)
  | .setCurrent proc => .ok (s.setCurrent proc, none)

end Procs

/-! ### What each operation can do

Apart from the slot it is about, an operation changes other control blocks only in their links. -/

/-- Being live depends on the state only. -/
theorem live_iff {a b : Pcb} (same : a.state = b.state) : a.live ↔ b.live := by
  rw [Pcb.live, Pcb.live, same]

/-- The same control block up to its place in the tree. -/
def Pcb.Relinked (a b : Pcb) : Prop :=
  ∃ parent children next, b = { a with parent := parent, children := children, nextSibling := next }

namespace Pcb.Relinked

variable {a b c : Pcb}

theorem rfl' : Relinked a a := ⟨a.parent, a.children, a.nextSibling, rfl⟩

theorem trans (first : Relinked a b) (second : Relinked b c) : Relinked a c := by
  obtain ⟨_, _, _, rfl⟩ := first
  obtain ⟨parent, children, next, rfl⟩ := second
  exact ⟨parent, children, next, rfl⟩

theorem state (h : Relinked a b) : b.state = a.state := by
  obtain ⟨_, _, _, rfl⟩ := h
  rfl

theorem pid (h : Relinked a b) : b.pid = a.pid := by
  obtain ⟨_, _, _, rfl⟩ := h
  rfl

theorem exitStatus (h : Relinked a b) : b.exitStatus = a.exitStatus := by
  obtain ⟨_, _, _, rfl⟩ := h
  rfl

theorem pageDirectory (h : Relinked a b) : b.pageDirectory = a.pageDirectory := by
  obtain ⟨_, _, _, rfl⟩ := h
  rfl

end Pcb.Relinked

namespace Procs

variable {s s' : Procs} {i j p c : Slot}

@[simp] theorem modify_table (s : Procs) (i : Slot) (f : Pcb → Pcb) (j : Slot) :
    (s.modify i f).table j = if j = i then f (s.table i) else s.table j :=
  Table.modify_apply s.table i j f

@[simp] theorem modify_currentProcess (s : Procs) (i : Slot) (f : Pcb → Pcb) :
    (s.modify i f).currentProcess = s.currentProcess := rfl

@[simp] theorem modify_nextPid (s : Procs) (i : Slot) (f : Pcb → Pcb) :
    (s.modify i f).nextPid = s.nextPid := rfl

@[simp] theorem modify_currentDirectory (s : Procs) (i : Slot) (f : Pcb → Pcb) :
    (s.modify i f).currentDirectory = s.currentDirectory := rfl

@[simp] theorem allocPid_table (s : Procs) : s.allocPid.table = s.table := rfl

@[simp] theorem allocPid_currentProcess (s : Procs) :
    s.allocPid.currentProcess = s.currentProcess := rfl

@[simp] theorem allocPid_nextPid (s : Procs) : s.allocPid.nextPid = (s.nextPid + 1) % 2 ^ 32 := rfl

@[simp] theorem allocPid_currentDirectory (s : Procs) :
    s.allocPid.currentDirectory = s.currentDirectory := rfl

theorem allocSlot_unused (found : s.allocSlot = some i) : (s.table i).state = .unused := by
  simpa using List.find?_some found

theorem createAt_others (entryPoint uid : Nat) (mem : Supply) (other : j ≠ i) :
    (s.createAt i entryPoint uid mem).1.table j = s.table j := by
  unfold createAt
  split
  · simp [discard, other]
  · split
    · simp [discard, other]
    · split
      · simp [discard, other]
      · simp [other]

/-- A slot was taken for a new process, or tried and given back. -/
structure Birth (s s' : Procs) (i : Slot) (directory : Nat) (result : Option Slot) : Prop where
  unused : (s.table i).state = .unused
  currentProcess : s'.currentProcess = s.currentProcess
  currentDirectory : s'.currentDirectory = s.currentDirectory
  nextPid : s'.nextPid = (s.nextPid + 1) % 2 ^ 32
  others : ∀ j, j ≠ i → (s.table j).Relinked (s'.table j)
  pid : (s'.table i).pid = s.nextPid
  born : result = some i ∧ (s'.table i).state = .ready ∧ directory ≠ 0 ∧
      (s'.table i).pageDirectory = directory ∨
    result = none ∧ (s'.table i).state = .unused

theorem createAt_birth (unused : (s.table i).state = .unused) (entryPoint uid : Nat) (mem : Supply) :
    Birth s (s.createAt i entryPoint uid mem).1 i mem.directory
      (s.createAt i entryPoint uid mem).2 := by
  unfold createAt
  by_cases directory : mem.directory = 0
  · simp only [directory, if_true]
    exact ⟨unused, rfl, rfl, rfl, fun j other => by simp [discard, other, Pcb.Relinked.rfl'],
      by simp [discard], .inr ⟨rfl, by simp [discard]⟩⟩
  · simp only [directory, if_false]
    by_cases kernelStack : mem.kernelStack = 0
    · simp only [kernelStack, if_true]
      exact ⟨unused, rfl, rfl, rfl, fun j other => by simp [discard, other, Pcb.Relinked.rfl'],
        by simp [discard], .inr ⟨rfl, by simp [discard]⟩⟩
    · simp only [kernelStack, if_false]
      by_cases userPage : mem.userPage = 0
      · simp only [userPage, if_true]
        exact ⟨unused, rfl, rfl, rfl, fun j other => by simp [discard, other, Pcb.Relinked.rfl'],
          by simp [discard], .inr ⟨rfl, by simp [discard]⟩⟩
      · simp only [userPage, if_false]
        exact ⟨unused, rfl, rfl, rfl, fun j other => by simp [other, Pcb.Relinked.rfl'],
          by simp [Pcb.setUp], .inl ⟨rfl, by simp [Pcb.setUp], directory, by simp [Pcb.setUp]⟩⟩

theorem linked_others (s : Procs) (p : Slot) (other : j ≠ c) :
    (s.table j).Relinked ((s.linked p c).table j) := by
  by_cases parent : j = p
  · subst parent
    exact ⟨(s.table j).parent, some c, (s.table j).nextSibling, by simp [linked, other]⟩
  · simp [linked, other, parent, Pcb.Relinked.rfl']

theorem forkAt_others (mem : Supply) (notChild : j ≠ c) (notParent : j ≠ p) :
    (s.forkAt p c mem).1.table j = s.table j := by
  have start : (s.linked p c).table j = s.table j := by simp [linked, notChild, notParent]
  simp only [forkAt, discard]
  by_cases directory : cloned ((s.linked p c).table p).pageDirectory mem = 0
  · simp [directory, notChild, start]
  · by_cases kernelStack : mem.kernelStack = 0
    · simp [directory, kernelStack, notChild, start]
    · simp [directory, kernelStack, notChild, start]

theorem linked_child (s : Procs) (p c : Slot) :
    ((s.linked p c).table c).pid = s.nextPid ∧ ((s.linked p c).table c).state = .ready := by
  by_cases self : c = p
  · subst self
    simp [linked]
  · simp [linked, self]

theorem linked_directory (s : Procs) (p c : Slot) :
    ((s.linked p c).table p).pageDirectory = (s.table p).pageDirectory := by
  by_cases self : p = c
  · subst self
    simp [linked]
  · simp [linked, self]

theorem forkAt_birth (unused : (s.table c).state = .unused) (p : Slot) (mem : Supply) :
    Birth s (s.forkAt p c mem).1 c (cloned (s.table p).pageDirectory mem) (s.forkAt p c mem).2 := by
  have source := s.linked_directory p c
  have child := s.linked_child p c
  have others := fun j (other : j ≠ c) => s.linked_others p other
  simp only [forkAt, source]
  by_cases directory : cloned (s.table p).pageDirectory mem = 0
  · simp only [directory, if_true]
    exact ⟨unused, rfl, rfl, rfl, fun j other => by simpa [discard, other] using others j other,
      by simpa [discard] using child.1, .inr ⟨rfl, by simp [discard]⟩⟩
  · simp only [directory, if_false]
    by_cases kernelStack : mem.kernelStack = 0
    · simp only [kernelStack, if_true]
      exact ⟨unused, rfl, rfl, rfl, fun j other => by simpa [discard, other] using others j other,
        by simpa [discard] using child.1, .inr ⟨rfl, by simp [discard]⟩⟩
    · simp only [kernelStack, if_false]
      exact ⟨unused, rfl, rfl, rfl, fun j other => by simpa [other] using others j other,
        by simpa using child.1, .inl ⟨rfl, by simpa using child.2, directory, by simp⟩⟩

end Procs

/-- Orphaning changes parent pointers only. -/
theorem orphanChildren_relinked {fuel : Nat} {table after : Table} {child : Option Slot}
    (done : orphanChildren fuel table child = .ok after) (j : Slot) :
    (table j).Relinked (after j) := by
  induction fuel generalizing table child with
  | zero =>
      cases child with
      | none =>
          cases done
          exact .rfl'
      | some child => cases done
  | succ fuel ih =>
      cases child with
      | none =>
          cases done
          exact .rfl'
      | some child =>
          refine .trans ?_ (ih done)
          rw [Table.modify_apply]
          by_cases here : j = child
          · subst here
            rw [if_pos rfl]
            exact ⟨none, (table j).children, (table j).nextSibling, rfl⟩
          · rw [if_neg here]
            exact .rfl'

theorem write_relinked (table : Table) (link : Link) (value : Option Slot) (j : Slot) :
    (table j).Relinked (table.write link value j) := by
  cases link with
  | children proc =>
      rw [Table.write, Table.modify_apply]
      split
      · rename_i here
        subst here
        exact ⟨(table j).parent, value, (table j).nextSibling, rfl⟩
      · exact .rfl'
  | nextSibling proc =>
      rw [Table.write, Table.modify_apply]
      split
      · rename_i here
        subst here
        exact ⟨(table j).parent, (table j).children, value, rfl⟩
      · exact .rfl'

theorem findZombie_zombie {table : Table} {fuel : Nat} {from' : Option Slot} {child : Slot}
    (found : findZombie table fuel from' = .ok (some child)) : (table child).state = .zombie := by
  induction fuel generalizing from' with
  | zero => cases from' <;> cases found
  | succ fuel ih =>
      cases from' with
      | none => cases found
      | some c =>
          rw [findZombie] at found
          split at found
          · rename_i zombie
            cases found
            exact zombie
          · exact ih found

/-- **What `process_wait` can do**: nothing, or free the slot of one zombie. -/
theorem processWait_cases {table after : Table} {parent : Option Slot} {pid : Nat} {status : Option Int}
    (done : processWait table parent = .ok (after, pid, status)) :
    (after = table ∧ pid = noChild ∧ status = none) ∨
    ∃ p child, parent = some p ∧ (table child).state = .zombie ∧ pid = (table child).pid ∧
      status = some (table child).exitStatus ∧ (∀ j, j ≠ child → (table j).Relinked (after j)) ∧
      { table child with state := .unused }.Relinked (after child) := by
  cases parent with
  | none =>
      cases done
      exact .inl ⟨rfl, rfl, rfl⟩
  | some p =>
      obtain ⟨found, _, rest⟩ := Outcome.bind_eq_ok.mp done
      cases found with
      | none =>
          cases rest
          exact .inl ⟨rfl, rfl, rfl⟩
      | some child =>
          obtain ⟨prev, _, rest⟩ := Outcome.bind_eq_ok.mp rest
          cases rest
          have relinked : ∀ j, (table j).Relinked
              ((if (table.read prev).isSome then table.write prev (table child).nextSibling
                else table) j) := fun j => by
            split
            · exact write_relinked _ _ _ _
            · exact .rfl'
          refine .inr ⟨p, child, rfl, ?_, rfl, rfl, fun j other => ?_, ?_⟩
          · exact findZombie_zombie ‹_›
          · rw [Table.modify_apply, if_neg other]
            exact relinked j
          · rw [Table.modify_apply, if_pos rfl]
            obtain ⟨_, _, _, same⟩ := relinked child
            rw [same]
            exact ⟨_, _, _, rfl⟩

namespace Procs

/-- A process ended: a zombie without memory. -/
structure Ended (s s' : Procs) (i : Slot) (status : Int) : Prop where
  currentProcess : s'.currentProcess = s.currentProcess
  currentDirectory : s'.currentDirectory = s.currentDirectory
  nextPid : s'.nextPid = s.nextPid
  others : ∀ j, j ≠ i → (s.table j).Relinked (s'.table j)
  self : { s.table i with
    exitStatus := status, state := .zombie, pageDirectory := 0, kernelStack := 0 }.Relinked (s'.table i)

theorem exit_ended {status : Int} (done : s.exit (some i) status = .ok s') : Ended s s' i status := by
  obtain ⟨table, orphaned, rest⟩ := Outcome.bind_eq_ok.mp done
  cases rest
  refine ⟨rfl, rfl, rfl, fun j other => ?_, ?_⟩
  · simpa [other] using orphanChildren_relinked orphaned j
  · simpa using orphanChildren_relinked orphaned i

@[simp] theorem switchDirectory_table (s : Procs) (dir : Nat) :
    (s.switchDirectory dir).table = s.table := by
  unfold switchDirectory
  split <;> rfl

@[simp] theorem switchDirectory_currentProcess (s : Procs) (dir : Nat) :
    (s.switchDirectory dir).currentProcess = s.currentProcess := by
  unfold switchDirectory
  split <;> rfl

@[simp] theorem switchDirectory_nextPid (s : Procs) (dir : Nat) :
    (s.switchDirectory dir).nextPid = s.nextPid := by
  unfold switchDirectory
  split <;> rfl

@[simp] theorem switchDirectory_currentDirectory (s : Procs) (dir : Nat) :
    (s.switchDirectory dir).currentDirectory = if dir = 0 then s.currentDirectory else dir := by
  unfold switchDirectory
  split <;> rfl

theorem switch_table (s : Procs) (next j : Slot) :
    (s.switch next).table j =
      if j = next then { s.table j with state := .running, signalQueue := 0 }
      else if s.currentProcess = some j ∧ (s.table j).state = .running then
        { s.table j with state := .ready }
      else s.table j := by
  cases current : s.currentProcess with
  | none => by_cases here : j = next <;> simp [switch, current, here]
  | some k =>
      by_cases running : (s.table k).state = .running
      · by_cases here : j = next
        · subst here
          by_cases self : j = k <;> simp [switch, current, running, self]
        · by_cases self : j = k
          · subst self
            simp [switch, current, running, here]
          · simp [switch, current, running, here, self, Ne.symm self]
      · by_cases here : j = next
        · simp [switch, current, running, here]
        · by_cases self : j = k
          · subst self
            simp [switch, current, running, here]
          · simp [switch, current, running, here, Ne.symm self]

theorem switch_pid (s : Procs) (next j : Slot) :
    ((s.switch next).table j).pid = (s.table j).pid := by
  rw [switch_table]
  split
  · rfl
  · split <;> rfl

@[simp] theorem switch_currentProcess (s : Procs) (next : Slot) :
    (s.switch next).currentProcess = some next := by
  simp [switch]

theorem switch_nextPid (s : Procs) (next : Slot) : (s.switch next).nextPid = s.nextPid := by
  cases current : s.currentProcess with
  | none => simp [switch, current]
  | some k => by_cases running : (s.table k).state = .running <;> simp [switch, current, running]

theorem switch_currentDirectory (s : Procs) (next : Slot) :
    (s.switch next).currentDirectory =
      if (s.table next).pageDirectory = 0 then s.currentDirectory
      else (s.table next).pageDirectory := by
  cases current : s.currentProcess with
  | none => simp [switch, current]
  | some k =>
      by_cases running : (s.table k).state = .running
      · by_cases self : next = k <;> simp [switch, current, running, self]
      · simp [switch, current, running]

theorem setCurrent_table (s : Procs) (proc : Option Slot) (j : Slot) :
    (s.setCurrent proc).table j =
      if proc = some j then { s.table j with state := .running }
      else if s.currentProcess = some j then { s.table j with state := .ready }
      else s.table j := by
  cases current : s.currentProcess with
  | none =>
      cases proc with
      | none => simp [setCurrent, current]
      | some i =>
          by_cases here : j = i
          · simp [setCurrent, current, here]
          · simp [setCurrent, current, here, Ne.symm here]
  | some k =>
      cases proc with
      | none =>
          by_cases self : j = k
          · simp [setCurrent, current, self]
          · simp [setCurrent, current, self, Ne.symm self]
      | some i =>
          by_cases here : j = i
          · subst here
            by_cases self : j = k
            · simp [setCurrent, current, self]
            · simp [setCurrent, current, self, Ne.symm self]
          · by_cases self : j = k
            · subst self
              simp [setCurrent, current, here, Ne.symm here]
            · by_cases same : k = i
              · simp [setCurrent, current, here, Ne.symm here, same]
              · simp [setCurrent, current, here, Ne.symm here, self, Ne.symm self, same]

theorem setCurrent_pid (s : Procs) (proc : Option Slot) (j : Slot) :
    ((s.setCurrent proc).table j).pid = (s.table j).pid := by
  rw [setCurrent_table]
  split
  · rfl
  · split <;> rfl

@[simp] theorem setCurrent_currentProcess (s : Procs) (proc : Option Slot) :
    (s.setCurrent proc).currentProcess = proc := by
  cases proc <;> simp [setCurrent]

theorem setCurrent_nextPid (s : Procs) (proc : Option Slot) :
    (s.setCurrent proc).nextPid = s.nextPid := by
  cases current : s.currentProcess with
  | none => cases proc <;> simp [setCurrent, current]
  | some k =>
      cases proc with
      | none => simp [setCurrent, current]
      | some i => by_cases same : k = i <;> simp [setCurrent, current, same]

theorem setCurrent_currentDirectory (s : Procs) (proc : Option Slot) :
    (s.setCurrent proc).currentDirectory =
      match proc with
      | none => s.currentDirectory
      | some i =>
          if (s.table i).pageDirectory = 0 then s.currentDirectory
          else (s.table i).pageDirectory := by
  cases current : s.currentProcess with
  | none => cases proc <;> simp [setCurrent, current]
  | some k =>
      cases proc with
      | none => simp [setCurrent, current]
      | some i =>
          by_cases same : k = i
          · simp [setCurrent, current, same]
          · simp [setCurrent, current, same, Ne.symm same]

/-- `process_schedule` picks a ready slot. -/
theorem pickNext_ready {table : Table} {current : Option Slot} (picked : pickNext table current = some i) :
    (table i).state = .ready := by
  unfold pickNext at picked
  split at picked
  · split at picked
    · rename_i found
      cases picked
      exact (by simpa using List.find?_some found : _ ∧ _).2
    · split at picked
      · rename_i found
        cases picked
        exact (by simpa using List.find?_some found : _ ∧ _).2
      · split at picked
        · rename_i ready
          cases picked
          exact ready
        · cases picked
  · simpa using List.find?_some picked

/-- A zombie was reaped: its slot is free. -/
structure Reaped (s s' : Procs) (child : Slot) : Prop where
  currentProcess : s'.currentProcess = s.currentProcess
  currentDirectory : s'.currentDirectory = s.currentDirectory
  nextPid : s'.nextPid = s.nextPid
  zombie : (s.table child).state = .zombie
  others : ∀ j, j ≠ child → (s.table j).Relinked (s'.table j)
  self : { s.table child with state := .unused }.Relinked (s'.table child)

theorem Ended.zombie {status : Int} (ended : Ended s s' i status) : (s'.table i).state = .zombie :=
  ended.self.state

theorem Reaped.unused (reaped : Reaped s s' i) : (s'.table i).state = .unused := reaped.self.state

/-- What a call can do to the table, and what is noted about it. -/
inductive Change (s : Procs) : ProcOp → Procs → Option Event → Prop
  | nothing (op : ProcOp) : Change s op s none
  | created {s' : Procs} {i : Slot} {entryPoint uid : Nat} {mem : Supply} :
      Birth s s' i mem.directory (some i) →
      Change s (.create entryPoint uid mem) s' (some (.created s.nextPid i))
  | createFailed {s' : Procs} {i : Slot} {entryPoint uid : Nat} {mem : Supply} :
      Birth s s' i mem.directory none →
      Change s (.create entryPoint uid mem) s' (some (.failed s.nextPid))
  | forked {s' : Procs} {p c : Slot} {mem : Supply} :
      Birth s s' c (cloned (s.table p).pageDirectory mem) (some c) →
      Change s (.fork (some p) mem) s' (some (.forked (s.table p).pid s.nextPid c))
  | forkFailed {s' : Procs} {p c : Slot} {mem : Supply} :
      Birth s s' c (cloned (s.table p).pageDirectory mem) none →
      Change s (.fork (some p) mem) s' (some (.failed s.nextPid))
  | exited {s' : Procs} {i : Slot} {status : Int} :
      Ended s s' i status → Change s (.exit (some i) status) s' (some (.exited (s.table i).pid status))
  | reaped {s' : Procs} {p child : Slot} :
      Reaped s s' child → Change s (.wait (some p)) s'
        (some (.reaped (s.table p).pid (s.table child).pid (s.table child).exitStatus))
  | switched {next : Slot} :
      pickNext s.table s.currentProcess = some next → Change s .schedule (s.switch next) none
  | setCurrent (proc : Option Slot) : Change s (.setCurrent proc) (s.setCurrent proc) none

theorem Birth.result {directory : Nat} {result : Option Slot} (birth : Birth s s' i directory result) :
    result = some i ∨ result = none := by
  rcases birth.born with ⟨made, -⟩ | ⟨failed, -⟩
  · exact .inl made
  · exact .inr failed

theorem Birth.state {directory : Nat} {result : Option Slot} (birth : Birth s s' i directory result) :
    (s'.table i).state = .ready ∨ (s'.table i).state = .unused := by
  rcases birth.born with ⟨-, ready, -⟩ | ⟨-, unused⟩
  · exact .inl ready
  · exact .inr unused

theorem Birth.notZombie {directory : Nat} {result : Option Slot}
    (birth : Birth s s' i directory result) : (s'.table i).state ≠ .zombie := by
  rcases birth.state with here | here
  · simp [here]
  · simp [here]

theorem Birth.ready {directory : Nat} (birth : Birth s s' i directory (some i)) :
    (s'.table i).state = .ready := by
  rcases birth.born with ⟨-, ready, -⟩ | ⟨failed, -⟩
  · exact ready
  · cases failed

/-- **What every call can do.** -/
theorem exec_change {op : ProcOp} {event : Option Event} (done : s.exec op = .ok (s', event)) :
    Change s op s' event := by
  cases op with
  | create entryPoint uid mem =>
      cases done
      cases found : s.allocSlot with
      | none => exact .nothing _
      | some i =>
          have birth := createAt_birth (allocSlot_unused found) entryPoint uid mem
          simp only [Option.map_some]
          rcases birth.result with made | failed
          · rw [made] at birth ⊢
            exact .created birth
          · rw [failed] at birth ⊢
            exact .createFailed birth
  | fork parent mem =>
      cases done
      cases parent with
      | none => exact .nothing _
      | some p =>
          cases found : s.allocSlot with
          | none => exact .nothing _
          | some c =>
              have birth := forkAt_birth (allocSlot_unused found) p mem
              simp only
              rcases birth.result with made | failed
              · rw [made] at birth ⊢
                exact .forked birth
              · rw [failed] at birth ⊢
                exact .forkFailed birth
  | exit proc status =>
      obtain ⟨after, exited, rest⟩ := Outcome.bind_eq_ok.mp done
      cases rest
      cases proc with
      | none =>
          cases exited
          exact .nothing _
      | some i => exact .exited (exit_ended exited)
  | wait parent =>
      obtain ⟨⟨after, pid, status⟩, waited, rest⟩ := Outcome.bind_eq_ok.mp done
      obtain ⟨⟨table, pid', status'⟩, waited, last⟩ := Outcome.bind_eq_ok.mp waited
      cases last
      rcases processWait_cases waited with ⟨rfl, rfl, rfl⟩ | ⟨p, child, rfl, zombie, rfl, rfl, others, self⟩
      · cases parent <;> cases rest <;> exact .nothing _
      · cases rest
        exact .reaped ⟨rfl, rfl, rfl, zombie, others, self⟩
  | schedule =>
      cases done
      unfold schedule
      cases picked : pickNext s.table s.currentProcess with
      | none => exact .nothing _
      | some next =>
          by_cases other : some next ≠ s.currentProcess
          · simp only [if_pos other]
            exact .switched picked
          · simp only [if_neg other]
            exact .nothing _
  | setCurrent proc =>
      cases done
      exact .setCurrent proc

end Procs

/-! ### Runs with their history -/

/-- The table and the events so far, the last one first. -/
structure Traced where
  procs : Procs
  history : List Event

/-- `process_init`, and no event yet. -/
def Traced.init (kernelDirectory : Nat) : Traced := ⟨.init kernelDirectory, []⟩

/-- Run one operation and note what it did. -/
def Traced.exec (t : Traced) (op : ProcOp) : Outcome Traced := do
  let (procs, event) ← t.procs.exec op
  return ⟨procs, event.toList ++ t.history⟩

/-- One call that returns. -/
def TracedStep (t : Traced) (op : ProcOp) (t' : Traced) : Prop := t.exec op = .ok t'

/-- The PID an event took from the counter. -/
def Event.drawn : Event → Option Nat
  | .created pid _ => some pid
  | .forked _ pid _ => some pid
  | .failed pid => some pid
  | .exited _ _ => none
  | .reaped _ _ _ => none

/-- The PIDs taken from the counter. -/
def drawn (history : List Event) : List Nat := history.filterMap Event.drawn

theorem drawn_append (first second : List Event) : drawn (first ++ second) = drawn first ++ drawn second :=
  List.filterMap_append

theorem TracedStep.change {t t' : Traced} {op : ProcOp} (step : TracedStep t op t') :
    ∃ event, t.procs.Change op t'.procs event ∧ t'.history = event.toList ++ t.history := by
  obtain ⟨⟨procs, event⟩, done, rest⟩ := Outcome.bind_eq_ok.mp step
  cases rest
  exact ⟨event, Procs.exec_change done, rfl⟩

theorem TracedStep.drawn_le {t t' : Traced} {op : ProcOp} (step : TracedStep t op t') :
    (drawn t.history).length ≤ (drawn t'.history).length := by
  obtain ⟨event, -, grown⟩ := step.change
  rw [grown, drawn_append, List.length_append]
  exact Nat.le_add_left _ _

/-- The counter and the PIDs in the table, against the number of PIDs drawn. -/
structure Counted (t : Traced) : Prop where
  nextPid : t.procs.nextPid = ((drawn t.history).length + 1) % 2 ^ 32
  pid_le : ∀ i, (t.procs.table i).pid ≤ (drawn t.history).length

theorem Counted.init {kernelDirectory : Nat} : Counted (.init kernelDirectory) :=
  ⟨rfl, fun _ => le_rfl⟩

theorem Counted.birth {t : Traced} (counted : Counted t) {s' : Procs} {i : Slot} {directory : Nat}
    {result : Option Slot} (birth : t.procs.Birth s' i directory result) {event : Event}
    (drew : event.drawn = some t.procs.nextPid) : Counted ⟨s', event :: t.history⟩ := by
  have more : drawn (event :: t.history) = t.procs.nextPid :: drawn t.history := by
    rw [drawn, List.filterMap_cons, drew]
    rfl
  constructor
  · rw [birth.nextPid, more, List.length_cons, counted.nextPid, Nat.mod_add_mod]
  · intro j
    rw [more, List.length_cons]
    by_cases here : j = i
    · subst here
      rw [birth.pid, counted.nextPid]
      exact Nat.mod_le _ _
    · rw [(birth.others j here).pid]
      exact (counted.pid_le j).trans (Nat.le_succ _)

/-- Calls that draw no PID leave the PIDs alone. -/
theorem Counted.same {t t' : Traced} (counted : Counted t) (nextPid : t'.procs.nextPid = t.procs.nextPid)
    (pids : ∀ i, (t'.procs.table i).pid = (t.procs.table i).pid)
    (history : drawn t'.history = drawn t.history) : Counted t' := by
  constructor
  · rw [nextPid, history, counted.nextPid]
  · intro i
    rw [pids, history]
    exact counted.pid_le i

theorem Counted.step {t t' : Traced} {op : ProcOp} (counted : Counted t) (step : TracedStep t op t') :
    Counted t' := by
  obtain ⟨event, change, grown⟩ := step.change
  obtain ⟨procs, history⟩ := t'
  simp only at change grown
  subst grown
  cases change with
  | nothing => exact counted
  | created birth => exact counted.birth birth rfl
  | createFailed birth => exact counted.birth birth rfl
  | forked birth => exact counted.birth birth rfl
  | forkFailed birth => exact counted.birth birth rfl
  | @exited _ i _ ended =>
      refine counted.same ended.nextPid (fun j => ?_) rfl
      by_cases here : j = i
      · subst here
        exact ended.self.pid
      · exact (ended.others j here).pid
  | @reaped _ _ child reaped =>
      refine counted.same reaped.nextPid (fun j => ?_) rfl
      by_cases here : j = child
      · subst here
        exact reaped.self.pid
      · exact (reaped.others j here).pid
  | switched _ => exact counted.same (Procs.switch_nextPid _ _) (Procs.switch_pid _ _) rfl
  | setCurrent proc => exact counted.same (Procs.setCurrent_nextPid _ _) (Procs.setCurrent_pid _ _) rfl

end Kfs.Process
