/-
**Processes and their memory: `process.c`.**

The process table, and the functions that give processes memory: `process_create`, `process_fork`,
`process_mmap`, `process_munmap`, `process_brk`, with `process_set_current`, which decides the directory
the unmapping functions work in. Pointers to processes are slot numbers, `none` for NULL; all other
pointers are addresses. The failure paths are those of the source: they free what was allocated and
leave the slot unused.

`exec` runs one operation. The messages that only reach the screen (`printk`, `kernel_info`) are left
out.
-/

import Kfs.Paging.Tables

namespace Kfs.Process

open Kfs.Heap Kfs.Paging Memory

/-- `MAX_PROCESSES`. -/
def maxProcesses : Nat := 256

/-- A pointer into the process table. -/
abbrev Slot := Fin maxProcesses

theorem maxProcesses_pos : 0 < maxProcesses := by decide

/-- The first entry of the process table. -/
def firstSlot : Slot := ⟨0, maxProcesses_pos⟩

/-- The second entry of the process table. -/
def secondSlot : Slot := ⟨1, by decide⟩

/-- `process_state_t`. -/
inductive ProcessState where
  | unused
  | running
  | ready
  | blocked
  | zombie
  deriving DecidableEq, Repr

/-- `process_context_t`. -/
structure Context where
  eax : Nat
  ebx : Nat
  ecx : Nat
  edx : Nat
  esi : Nat
  edi : Nat
  ebp : Nat
  esp : Nat
  eip : Nat
  eflags : Nat
  cs : Nat
  ds : Nat
  es : Nat
  fs : Nat
  gs : Nat
  ss : Nat
  deriving DecidableEq, Repr

/-- `process_section_t`. -/
structure Section where
  startAddr : Nat
  size : Nat
  flags : Nat
  deriving DecidableEq, Repr

/-- `SECTION_READ`. -/
def sectionRead : Nat := 0x1

/-- `SECTION_WRITE`. -/
def sectionWrite : Nat := 0x2

/-- `SECTION_EXEC`. -/
def sectionExec : Nat := 0x4

/-- `process_t`, the process control block. -/
structure Pcb where
  pid : Nat
  state : ProcessState
  parent : Option Slot
  children : Option Slot
  nextSibling : Option Slot
  pageDirectory : Nat
  kernelStack : Nat
  userStack : Nat
  textSection : Section
  dataSection : Section
  bssSection : Section
  rodataSection : Section
  heapStart : Nat
  heapEnd : Nat
  context : Context
  signalQueue : Nat
  signalHandlers : Nat → Nat
  uid : Nat
  gid : Nat
  exitStatus : Int
  pwd : List Char

/-- A control block after `memset(proc, 0, sizeof(process_t))`. -/
def Pcb.zero : Pcb where
  pid := 0
  state := .unused
  parent := none
  children := none
  nextSibling := none
  pageDirectory := 0
  kernelStack := 0
  userStack := 0
  textSection := ⟨0, 0, 0⟩
  dataSection := ⟨0, 0, 0⟩
  bssSection := ⟨0, 0, 0⟩
  rodataSection := ⟨0, 0, 0⟩
  heapStart := 0
  heapEnd := 0
  context := ⟨0, 0, 0, 0, 0, 0, 0, 0, 0, 0, 0, 0, 0, 0, 0, 0⟩
  signalQueue := 0
  signalHandlers := fun _ => 0
  uid := 0
  gid := 0
  exitStatus := 0
  pwd := []

/-- A process that exists and has not exited. -/
def Pcb.live (proc : Pcb) : Prop := proc.state ≠ .unused ∧ proc.state ≠ .zombie

instance {proc : Pcb} : Decidable proc.live := inferInstanceAs (Decidable (_ ∧ _))

/-- Paging with the process table, the current process and the PID counter. -/
structure Kernel where
  paging : PagingState
  table : Slot → Pcb
  currentProcess : Option Slot
  nextPid : Nat

namespace Kernel

/-- Change one control block. -/
def modify (s : Kernel) (i : Slot) (f : Pcb → Pcb) : Kernel :=
  { s with table := Function.update s.table i (f (s.table i)) }

/-- Change the paging state. -/
def withPaging (s : Kernel) (p : PagingState) : Kernel := { s with paging := p }

/-- Change the heap. -/
def withHeap (s : Kernel) (h : HeapState) : Kernel := { s with paging := s.paging.withHeap h }

theorem modify_table (s : Kernel) (i j : Slot) (f : Pcb → Pcb) :
    (s.modify i f).table j = if j = i then f (s.table i) else s.table j :=
  Function.update_apply s.table i (f (s.table i)) j

@[simp] theorem modify_self (s : Kernel) (i : Slot) (f : Pcb → Pcb) :
    (s.modify i f).table i = f (s.table i) := by
  rw [modify_table, if_pos rfl]

@[simp] theorem modify_paging (s : Kernel) (i : Slot) (f : Pcb → Pcb) :
    (s.modify i f).paging = s.paging := rfl

@[simp] theorem modify_currentProcess (s : Kernel) (i : Slot) (f : Pcb → Pcb) :
    (s.modify i f).currentProcess = s.currentProcess := rfl

@[simp] theorem withPaging_paging (s : Kernel) (p : PagingState) : (s.withPaging p).paging = p := rfl

@[simp] theorem withPaging_table (s : Kernel) (p : PagingState) :
    (s.withPaging p).table = s.table := rfl

@[simp] theorem withHeap_paging (s : Kernel) (h : HeapState) :
    (s.withHeap h).paging = s.paging.withHeap h := rfl

@[simp] theorem withHeap_table (s : Kernel) (h : HeapState) : (s.withHeap h).table = s.table := rfl

end Kernel

/-- `process_init`, after `paging_init` set the current directory. -/
def processInit (image : KernelImage) (h : HeapState) : Kernel where
  paging := ⟨h, image.directory, []⟩
  table := fun _ => Pcb.zero
  currentProcess := none
  nextPid := 1

/-- `process_alloc_slot`. -/
def processAllocSlot (s : Kernel) : Option Slot :=
  (List.finRange maxProcesses).find? fun i => (s.table i).state = .unused

/-- `process_alloc_pid`, with the PID it returns. -/
def processAllocPid (s : Kernel) : Kernel × Nat :=
  ({ s with nextPid := (s.nextPid + 1) % 2 ^ 32 }, s.nextPid)

/-- The page `process_create` maps the user stack at. -/
def userStackVirt : Nat := 0x10000000

/-- The last part of `process_create`: stack, sections, heap, context, signals and directory. -/
def Pcb.setUp (proc : Pcb) (entryPoint : Nat) : Pcb :=
  let userStack := userStackVirt + pageSize - 4
  { proc with
    userStack := userStack
    textSection := ⟨0x08048000, 0, sectionRead ||| sectionExec⟩
    rodataSection := ⟨0x08050000, 0, sectionRead⟩
    dataSection := ⟨0x08060000, 0, sectionRead ||| sectionWrite⟩
    bssSection := ⟨0x08070000, 0, sectionRead ||| sectionWrite⟩
    heapStart := 0x08080000
    heapEnd := 0x08080000
    context := { proc.context with
      eip := entryPoint
      esp := userStack
      ebp := userStack
      eflags := 0x202 }
    signalHandlers := fun _ => 0
    signalQueue := 0
    pwd := ['/'] }

/-- The slot is given back. -/
def Kernel.discard (s : Kernel) (i : Slot) : Kernel :=
  s.modify i fun proc => { proc with state := .unused }

/-- `process_create`. -/
def processCreate (image : KernelImage) (s : Kernel) (entryPoint uid : Nat) :
    Outcome (Kernel × Option Slot) :=
  match processAllocSlot s with
  | none => .ok (s, none)
  | some i => do
      let (s, pid) := processAllocPid s
      let s := s.modify i fun _ =>
        { Pcb.zero with pid := pid, state := .ready, uid := uid, gid := uid }
      let (p, dir) ← pagingCreateDirectory image s.paging
      let s := (s.withPaging p).modify i fun proc => { proc with pageDirectory := dir }
      if dir = 0 then return (s.discard i, none)
      let (h, kernelStack) ← kmalloc s.paging.heap pageSize
      let s := (s.withHeap h).modify i fun proc => { proc with kernelStack := kernelStack }
      if kernelStack = 0 then
        let p ← pagingDestroyDirectory s.paging dir
        return ((s.withPaging p).discard i, none)
      let (h, userStackPhys) ← kmalloc s.paging.heap pageSize
      let s := s.withHeap h
      if userStackPhys = 0 then
        let h ← kfree s.paging.heap kernelStack
        let p ← pagingDestroyDirectory (s.paging.withHeap h) dir
        return ((s.withPaging p).discard i, none)
      let p ← pagingMapPageInDirectory s.paging dir userStackVirt userStackPhys (pageWrite ||| pageUser)
      return ((s.withPaging p).modify i fun proc => proc.setUp entryPoint, some i)

/-- `process_fork`. -/
def processFork (s : Kernel) (parent : Option Slot) : Outcome (Kernel × Option Slot) :=
  match parent, processAllocSlot s with
  | none, _ => .ok (s, none)
  | _, none => .ok (s, none)
  | some p, some c => do
      let (s, pid) := processAllocPid s
      let s := s.modify c fun _ =>
        { s.table p with pid := pid, state := .ready, parent := some p, children := none }
      let s := s.modify c fun proc => { proc with nextSibling := (s.table p).children }
      let s := s.modify p fun proc => { proc with children := some c }
      let (pg, dir) ← pagingCloneDirectory s.paging (s.table p).pageDirectory
      let s := (s.withPaging pg).modify c fun proc => { proc with pageDirectory := dir }
      if dir = 0 then return (s.discard c, none)
      let (h, kernelStack) ← kmalloc s.paging.heap pageSize
      let s := (s.withHeap h).modify c fun proc => { proc with kernelStack := kernelStack }
      if kernelStack = 0 then
        let pg ← pagingDestroyDirectory s.paging dir
        return ((s.withPaging pg).discard c, none)
      let m := s.paging.mem.copy kernelStack (s.table p).kernelStack pageSize
      let s := (s.withPaging (s.paging.write m)).modify c fun proc =>
        { proc with context := { proc.context with eax := 0 } }
      return (s, some c)

/-- `PROT_READ`. -/
def protRead : Nat := 0x1

/-- `PROT_WRITE`. -/
def protWrite : Nat := 0x2

/-- `MAP_PRIVATE`. -/
def mapPrivate : Nat := 0x02

/-- `MAP_ANONYMOUS`. -/
def mapAnonymous : Nat := 0x20

/-- `(void *)-1`, and the 32 bits of `(int)-1`. -/
def mapFailed : Nat := 0xFFFFFFFF

/-- `(length + PAGE_SIZE - 1) / PAGE_SIZE`. -/
def pagesNeeded (length : Nat) : Nat := (length + pageSize - 1) % 2 ^ 32 / pageSize

/-- `virt_addr + (i * PAGE_SIZE)`. -/
def pageVirt (virt i : Nat) : Nat := (virt + i * pageSize) % 2 ^ 32

/-- The body of the cleanup loop of `process_mmap`. -/
def mmapCleanup (virt j : Nat) (p : PagingState) : Outcome (Round PagingState PagingState) := do
  let phys := pagingGetPhysicalAddress p (pageVirt virt j)
  let h ← if phys ≠ 0 then kfree p.heap phys else .ok p.heap
  return .next (pagingUnmapPage (p.withHeap h) (pageVirt virt j))

/-- The body of the loop of `process_mmap`; leaving the loop is its failure. -/
def mmapPage (dir virt pageFlags flags i : Nat) (p : PagingState) :
    Outcome (Round PagingState PagingState) := do
  let (h, physPage) ← kmalloc p.heap pageSize
  let p := p.withHeap h
  if physPage = 0 then
    match ← forLoop (mmapCleanup virt) 0 i p with
    | .next p => return .exit p
    | .exit p => return .exit p
  else
    let p := if flags &&& mapAnonymous ≠ 0 then p.write (p.mem.fill physPage 0 pageSize) else p
    let p ← pagingMapPageInDirectory p dir (pageVirt virt i) physPage pageFlags
    return .next p

/-- The virtual address `process_mmap` maps at. -/
def mmapVirt (proc : Pcb) (addr : Nat) : Nat := if addr ≠ 0 then frame addr else proc.heapEnd

/-- `process_mmap`. -/
def processMmap (s : Kernel) (proc : Option Slot) (addr length prot flags : Nat) :
    Outcome (Kernel × Nat) :=
  match proc with
  | none => .ok (s, mapFailed)
  | some i =>
      if length = 0 then .ok (s, mapFailed)
      else do
        let totalSize := pagesNeeded length * pageSize % 2 ^ 32
        let virt := mmapVirt (s.table i) addr
        let pageFlags := if prot &&& protWrite ≠ 0 then pageUser ||| pageWrite else pageUser
        match ← forLoop (mmapPage (s.table i).pageDirectory virt pageFlags flags) 0
            (pagesNeeded length) s.paging with
        | .exit p => return (s.withPaging p, mapFailed)
        | .next p =>
            let stop := (virt + totalSize) % 2 ^ 32
            let s := s.withPaging p
            if (s.table i).heapEnd < stop then
              return (s.modify i fun proc => { proc with heapEnd := stop }, virt)
            else return (s, virt)

/-- The body of the loop of `process_munmap`. -/
def munmapPage (virt i : Nat) (p : PagingState) : Outcome (Round PagingState PagingState) :=
  let phys := pagingGetPhysicalAddress p (pageVirt virt i)
  if phys ≠ 0 then do
    let h ← kfree p.heap phys
    return .next (pagingUnmapPage (p.withHeap h) (pageVirt virt i))
  else .ok (.next p)

/-- `process_munmap`. -/
def processMunmap (s : Kernel) (proc : Option Slot) (addr length : Nat) : Outcome (Kernel × Int) :=
  if proc = none ∨ addr = 0 ∨ length = 0 then .ok (s, -1)
  else do
    match ← forLoop (munmapPage (frame addr)) 0 (pagesNeeded length) s.paging with
    | .next p => return (s.withPaging p, 0)
    | .exit p => return (s.withPaging p, 0)

/-- `(new_brk + PAGE_SIZE - 1) & ~(PAGE_SIZE - 1)`. -/
def newBrk (addr : Nat) : Nat := frame ((addr + pageSize - 1) % 2 ^ 32)

/-- `process_brk`: the new end of the heap, or -1, as 32 bits. -/
def processBrk (s : Kernel) (proc : Option Slot) (addr : Nat) : Outcome (Kernel × Nat) :=
  match proc with
  | none => .ok (s, mapFailed)
  | some i =>
      if addr = 0 then .ok (s, (s.table i).heapEnd)
      else if (s.table i).heapEnd < newBrk addr then do
        let (s, result) ← processMmap s (some i) (s.table i).heapEnd
          (newBrk addr - (s.table i).heapEnd) (protRead ||| protWrite) (mapPrivate ||| mapAnonymous)
        if result = mapFailed then return (s, mapFailed)
        return (s, (s.table i).heapEnd)
      else if newBrk addr < (s.table i).heapEnd then do
        let (s, _) ← processMunmap s (some i) (newBrk addr) ((s.table i).heapEnd - newBrk addr)
        let s := s.modify i fun proc => { proc with heapEnd := newBrk addr }
        return (s, (s.table i).heapEnd)
      else .ok (s, (s.table i).heapEnd)

/-- `sys_mmap`. -/
def sysMmap (s : Kernel) (addr length prot flags : Nat) : Outcome (Kernel × Nat) :=
  processMmap s s.currentProcess addr length prot flags

/-- `sys_brk`. -/
def sysBrk (s : Kernel) (addr : Nat) : Outcome (Kernel × Nat) := processBrk s s.currentProcess addr

/-- `process_set_current`, without the NULL argument that only forgets the current process. -/
def processSetCurrent (s : Kernel) (i : Slot) : Kernel :=
  let s := match s.currentProcess with
    | some j => if j ≠ i then s.modify j fun proc => { proc with state := .ready } else s
    | none => s
  let s := { s with currentProcess := some i }
  let s := s.modify i fun proc => { proc with state := .running }
  s.withPaging (pagingSwitchDirectory s.paging (s.table i).pageDirectory)

/-! ### Operations -/

/-- A call into process memory management. -/
inductive MemOp where
  | create (entryPoint uid : Nat)
  | fork (parent : Slot)
  | mmap (proc : Slot) (addr length prot flags : Nat)
  | munmap (proc : Slot) (addr length : Nat)
  | brk (proc : Slot) (addr : Nat)
  | sysMmap (addr length prot flags : Nat)
  | sysBrk (addr : Nat)
  | setCurrent (proc : Slot)
  deriving DecidableEq, Repr

/-- Run one operation. -/
def exec (image : KernelImage) (s : Kernel) : MemOp → Outcome Kernel
  | .create entryPoint uid => do
      let (s, _) ← processCreate image s entryPoint uid
      return s
  | .fork parent => do
      let (s, _) ← processFork s (some parent)
      return s
  | .mmap proc addr length prot flags => do
      let (s, _) ← processMmap s (some proc) addr length prot flags
      return s
  | .munmap proc addr length => do
      let (s, _) ← processMunmap s (some proc) addr length
      return s
  | .brk proc addr => do
      let (s, _) ← processBrk s (some proc) addr
      return s
  | .sysMmap addr length prot flags => do
      let (s, _) ← sysMmap s addr length prot flags
      return s
  | .sysBrk addr => do
      let (s, _) ← sysBrk s addr
      return s
  | .setCurrent proc => return processSetCurrent s proc

end Kfs.Process
