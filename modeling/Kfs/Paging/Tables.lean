/-
**Page directories and page tables: `paging.c`.**

Directories and tables are pages of 1024 words in memory. The kernel's own directory and the two tables
that identity map the first 8 MB are static data of the kernel; every other directory or table comes
from `kmalloc_aligned`. The kernel runs in the identity-mapped part, so the addresses it follows are
physical ones.

`made` is bookkeeping: which address from the allocator was handed to the paging code for which virtual
page. No code reads it. `invlpg` and the loads of CR3 act on the processor only and are left out.
-/

import Kfs.Heap.Stray

namespace Kfs.Paging

open Kfs.Heap Memory

/-- `PAGE_ENTRIES`. -/
def pageEntries : Nat := 1024

/-- `PAGE_PRESENT`. -/
def pagePresent : Nat := 0x1

/-- `PAGE_WRITE`. -/
def pageWrite : Nat := 0x2

/-- `PAGE_USER`. -/
def pageUser : Nat := 0x4

/-! ### Entries -/

/-- `entry & ~0xFFF`. -/
def frame (e : Nat) : Nat := e / pageSize * pageSize

/-- `entry & 0xFFF`. -/
def flagBits (e : Nat) : Nat := e % pageSize

/-- `entry & PAGE_PRESENT`. -/
def present (e : Nat) : Bool := e.testBit 0

/-- `entry & PAGE_USER`. -/
def user (e : Nat) : Bool := e.testBit 2

/-- `table->entries[i]`. -/
def entry (m : Memory) (table i : Nat) : Nat := m.load32 (table + 4 * i)

/-- `table->entries[i] = v`. -/
def setEntry (m : Memory) (table i v : Nat) : Memory := m.store32 (table + 4 * i) v

/-- `virt_addr >> 22`. -/
def dirIndex (virt : Nat) : Nat := virt / 2 ^ 22

/-- `(virt_addr >> 12) & 0x3FF`. -/
def tableIndex (virt : Nat) : Nat := virt / 2 ^ 12 % pageEntries

/-! ### The state -/

/-- Where the linker put `kernel_directory`, `kernel_table_0` and `kernel_table_1`: page-aligned pages
of the kernel's data, below the heap. -/
structure KernelImage where
  directory : Nat
  table0 : Nat
  table1 : Nat
  aligned : pageSize ∣ directory ∧ pageSize ∣ table0 ∧ pageSize ∣ table1
  distinct : directory ≠ table0 ∧ directory ≠ table1 ∧ table0 ≠ table1
  nonzero : 0 < directory ∧ 0 < table0 ∧ 0 < table1
  low : directory + pageSize ≤ heapStart ∧ table0 + pageSize ≤ heapStart ∧
    table1 + pageSize ≤ heapStart

/-- An address from the allocator, mapped at a virtual page of a directory. -/
structure Made where
  directory : Nat
  page : Nat
  ptr : Nat
  deriving DecidableEq, Repr

/-- The heap with the memory it lives in, `current_directory`, and the pages handed over so far. -/
structure PagingState where
  heap : HeapState
  current : Nat
  made : List Made

namespace PagingState

/-- The memory. -/
def mem (s : PagingState) : Memory := s.heap.mem

/-- Change the memory. -/
def write (s : PagingState) (m : Memory) : PagingState := { s with heap := { s.heap with mem := m } }

/-- Change the heap. -/
def withHeap (s : PagingState) (h : HeapState) : PagingState := { s with heap := h }

/-- Note which allocation is mapped at a page. -/
def note (s : PagingState) (dir page ptr : Nat) : PagingState :=
  { s with made := ⟨dir, page, ptr⟩ :: s.made }

@[simp] theorem mem_write (s : PagingState) (m : Memory) : (s.write m).mem = m := rfl

@[simp] theorem mem_withHeap (s : PagingState) (h : HeapState) : (s.withHeap h).mem = h.mem := rfl

@[simp] theorem mem_note (s : PagingState) (dir page ptr : Nat) :
    (s.note dir page ptr).mem = s.mem := rfl

@[simp] theorem current_write (s : PagingState) (m : Memory) : (s.write m).current = s.current := rfl

@[simp] theorem current_withHeap (s : PagingState) (h : HeapState) :
    (s.withHeap h).current = s.current := rfl

@[simp] theorem current_note (s : PagingState) (dir page ptr : Nat) :
    (s.note dir page ptr).current = s.current := rfl

@[simp] theorem heap_withHeap (s : PagingState) (h : HeapState) : (s.withHeap h).heap = h := rfl

/-- The allocation last made for a page. -/
def madeFor (s : PagingState) (dir page : Nat) : Option Nat :=
  (s.made.find? fun r => r.directory = dir ∧ r.page = page).map Made.ptr

end PagingState

/-! ### The functions -/

/-- `paging_init` on memory: the three pages cleared, the tables filled, two directory entries. -/
def pagingInit (image : KernelImage) (m : Memory) : Memory :=
  let m := m.fill image.directory 0 pageSize
  let m := m.fill image.table0 0 pageSize
  let m := m.fill image.table1 0 pageSize
  let m := m.writeWords image.table0 pageEntries fun i => i * pageSize ||| pagePresent ||| pageWrite
  let m := m.writeWords image.table1 pageEntries fun i =>
    (pageEntries + i) * pageSize ||| pagePresent ||| pageWrite
  let m := setEntry m image.directory 0 (image.table0 ||| pagePresent ||| pageWrite)
  setEntry m image.directory 1 (image.table1 ||| pagePresent ||| pageWrite)

/-- `paging_unmap_page`, in the current directory. -/
def pagingUnmapPage (s : PagingState) (virt : Nat) : PagingState :=
  if present (entry s.mem s.current (dirIndex virt)) then
    let table := frame (entry s.mem s.current (dirIndex virt))
    s.write (setEntry s.mem table (tableIndex virt) 0)
  else s

/-- `paging_get_physical_address`, in the current directory; 0 when the page is not mapped. -/
def pagingGetPhysicalAddress (s : PagingState) (virt : Nat) : Nat :=
  if present (entry s.mem s.current (dirIndex virt)) then
    let table := frame (entry s.mem s.current (dirIndex virt))
    if present (entry s.mem table (tableIndex virt)) then
      frame (entry s.mem table (tableIndex virt)) ||| virt % pageSize
    else 0
  else 0

/-- `paging_alloc_table`: a zeroed page table, 0 for NULL. -/
def pagingAllocTable (s : PagingState) : Outcome (PagingState × Nat) := do
  let (h, table) ← kmallocAligned s.heap pageSize pageSize
  if table = 0 then return (s.withHeap h, 0)
  return (s.withHeap { h with mem := h.mem.fill table 0 pageSize }, table)

/-- `paging_create_directory`: empty, with the kernel's first two entries. -/
def pagingCreateDirectory (image : KernelImage) (s : PagingState) : Outcome (PagingState × Nat) := do
  let (h, dir) ← kmallocAligned s.heap pageSize pageSize
  if dir = 0 then return (s.withHeap h, 0)
  let m := h.mem.fill dir 0 pageSize
  let m := setEntry m dir 0 (entry m image.directory 0)
  let m := setEntry m dir 1 (entry m image.directory 1)
  return (s.withHeap { h with mem := m }, dir)

/-- The body of the inner loop of `paging_destroy_directory`. -/
def destroyPage (table j : Nat) (s : PagingState) : Outcome (Round PagingState PagingState) :=
  if present (entry s.mem table j) then do
    let h ← kfree s.heap (frame (entry s.mem table j))
    return .next (s.withHeap h)
  else .ok (.next s)

/-- The body of the outer loop of `paging_destroy_directory`. -/
def destroyTable (dir i : Nat) (s : PagingState) : Outcome (Round PagingState PagingState) :=
  if present (entry s.mem dir i) then do
    let table := frame (entry s.mem dir i)
    match ← forLoop (destroyPage table) 0 pageEntries s with
    | .exit s => return .exit s
    | .next s => do
        let h ← kfree s.heap table
        return .next (s.withHeap h)
  else .ok (.next s)

/-- `paging_destroy_directory`. -/
def pagingDestroyDirectory (s : PagingState) (dir : Nat) : Outcome PagingState :=
  if dir = 0 then .ok s
  else do
    match ← forLoop (destroyTable dir) 2 (pageEntries - 2) s with
    | .exit s => return s
    | .next s => do
        let h ← kfree s.heap dir
        return s.withHeap h

/-- The body of the inner loop of `paging_clone_directory`; leaving the loop is its second failure. -/
def clonePage (dst i srcTable dstTable j : Nat) (s : PagingState) :
    Outcome (Round PagingState PagingState) :=
  if present (entry s.mem srcTable j) then do
    let (h, newPhys) ← kmalloc s.heap pageSize
    let s := s.withHeap h
    if newPhys = 0 then do
      let h ← kfree s.heap dstTable
      let s ← pagingDestroyDirectory (s.withHeap h) dst
      return .exit s
    else
      let srcPhys := frame (entry s.mem srcTable j)
      let m := s.mem.copy newPhys srcPhys pageSize
      let m := setEntry m dstTable j (newPhys ||| flagBits (entry m srcTable j))
      return .next ((s.write m).note dst (pageEntries * i + j) newPhys)
  else .ok (.next (s.write (setEntry s.mem dstTable j 0)))

/-- The body of the outer loop of `paging_clone_directory`. -/
def cloneTable (src dst i : Nat) (s : PagingState) : Outcome (Round PagingState PagingState) :=
  if present (entry s.mem src i) then do
    let srcTable := frame (entry s.mem src i)
    let (s, dstTable) ← pagingAllocTable s
    if dstTable = 0 then do
      let s ← pagingDestroyDirectory s dst
      return .exit s
    else
      match ← forLoop (clonePage dst i srcTable dstTable) 0 pageEntries s with
      | .exit s => return .exit s
      | .next s =>
          return .next (s.write (setEntry s.mem dst i (dstTable ||| flagBits (entry s.mem src i))))
  else .ok (.next s)

/-- `paging_clone_directory`; 0 for NULL. -/
def pagingCloneDirectory (s : PagingState) (src : Nat) : Outcome (PagingState × Nat) :=
  if src = 0 then .ok (s, 0)
  else do
    let (h, dst) ← kmallocAligned s.heap pageSize pageSize
    if dst = 0 then return (s.withHeap h, 0)
    let m := h.mem.fill dst 0 pageSize
    let m := setEntry m dst 0 (entry m src 0)
    let m := setEntry m dst 1 (entry m src 1)
    match ← forLoop (cloneTable src dst) 2 (pageEntries - 2) (s.withHeap { h with mem := m }) with
    | .next s => return (s, dst)
    | .exit s => return (s, 0)

/-- The message of the panic when no table can be had. -/
def noTable : String := "Cannot allocate page table"

/-- The first half of `paging_map_page_in_directory`: a table for the address. -/
def ensureTable (s : PagingState) (dir virt flags : Nat) : Outcome PagingState :=
  if present (entry s.mem dir (dirIndex virt)) then .ok s
  else do
    let (s, table) ← pagingAllocTable s
    if table = 0 then .panic noTable
    else
      return s.write (setEntry s.mem dir (dirIndex virt) (table ||| pagePresent ||| pageWrite ||| flags))

/-- What it does when it returns: nothing if the table is there, else it links a new one. -/
theorem ensureTable_cases {s s' : PagingState} {dir virt flags : Nat}
    (done : ensureTable s dir virt flags = .ok s') :
    (present (entry s.mem dir (dirIndex virt)) = true ∧ s' = s) ∨
      (present (entry s.mem dir (dirIndex virt)) = false ∧
        ∃ s₁ table, pagingAllocTable s = .ok (s₁, table) ∧ table ≠ 0 ∧ s' =
          s₁.write (setEntry s₁.mem dir (dirIndex virt) (table ||| pagePresent ||| pageWrite ||| flags))) := by
  unfold ensureTable at done
  cases here : present (entry s.mem dir (dirIndex virt)) with
  | true =>
      rw [here, if_pos rfl] at done
      exact .inl ⟨rfl, (Outcome.ok.inj done).symm⟩
  | false =>
      rw [here, if_neg (by decide)] at done
      obtain ⟨⟨s₁, table⟩, taken, rest⟩ := Outcome.bind_eq_ok.mp done
      simp only at rest
      by_cases null : table = 0
      · rw [if_pos null] at rest
        cases rest
      · rw [if_neg null] at rest
        exact .inr ⟨rfl, s₁, table, taken, null, (Outcome.ok.inj rest).symm⟩

/-- `paging_map_page_in_directory`. -/
def pagingMapPageInDirectory (s : PagingState) (dir virt phys flags : Nat) : Outcome PagingState :=
  if dir = 0 then .ok s
  else do
    let s ← ensureTable s dir virt flags
    let table := frame (entry s.mem dir (dirIndex virt))
    let m := setEntry s.mem table (tableIndex virt) (frame phys ||| flagBits flags ||| pagePresent)
    return (s.write m).note dir (virt / pageSize) phys

/-- `paging_switch_directory`. -/
def pagingSwitchDirectory (s : PagingState) (dir : Nat) : PagingState :=
  if dir = 0 then s else { s with current := dir }

/-! ### Laws of entries -/

section Entries

variable {m m' : Memory} {e e' f i j table table' v : Nat}

theorem frame_le : frame e ≤ e := Nat.div_mul_le_self e pageSize

theorem dvd_frame : pageSize ∣ frame e := Dvd.intro_left _ rfl

theorem lt_frame_add : e < frame e + pageSize := by
  simp only [frame, pageSize]
  omega

theorem frame_of_dvd (aligned : pageSize ∣ e) : frame e = e := Nat.div_mul_cancel aligned

/-- Flags below the page size do not change the frame. -/
theorem frame_or (small : f < pageSize) : frame (e ||| f) = frame e := by
  have high := @Nat.shiftRight_or_distrib 12 e f
  simp only [Nat.shiftRight_eq_div_pow] at high
  rw [Nat.div_eq_of_lt (show f < 2 ^ 12 from small), Nat.or_zero] at high
  simp only [frame, pageSize]
  rw [show (0x1000 : Nat) = 2 ^ 12 by rfl, high]

theorem flagBits_lt : flagBits e < pageSize := Nat.mod_lt _ (by decide)

@[simp] theorem present_or : present (e ||| f) = (present e || present f) := Nat.testBit_or _ _ _

@[simp] theorem user_or : user (e ||| f) = (user e || user f) := Nat.testBit_or _ _ _

@[simp] theorem present_flagBits : present (flagBits e) = present e := by
  rw [present, flagBits, show pageSize = 2 ^ 12 by rfl, Nat.testBit_mod_two_pow]
  rfl

theorem user_of_dvd (aligned : pageSize ∣ e) : user e = false := by
  obtain ⟨q, rfl⟩ := aligned
  rw [user, Nat.mul_comm, show pageSize = 2 ^ 12 by rfl, Nat.testBit_mul_two_pow]
  rfl

theorem or_lt (first : e < 2 ^ 32) (second : f < pageSize) : e ||| f < 2 ^ 32 :=
  Nat.or_lt_two_pow first (lt_trans second (by decide))

theorem entry_lt : entry m table i < 2 ^ 32 := load32_lt m _

/-- An entry depends only on its table. -/
theorem entry_congr (same : Set.EqOn m' m (Set.Ico table (table + pageSize)))
    (index : i < pageEntries) : entry m' table i = entry m table i := by
  refine load32_congr (same.mono fun x inside => ?_)
  simp only [Set.mem_Ico, pageSize, pageEntries] at *
  omega

/-- **Setting an entry** changes that entry of that table only. -/
theorem entry_setEntry (aligned : pageSize ∣ table) (aligned' : pageSize ∣ table')
    (index : i < pageEntries) (index' : j < pageEntries) :
    entry (setEntry m table i v) table' j =
      if table' = table ∧ j = i then v % 2 ^ 32 else entry m table' j := by
  by_cases same : table' = table ∧ j = i
  · rw [if_pos same, same.1, same.2]
    exact load32_store32 m _ v
  · rw [if_neg same]
    refine load32_store32_of_disjoint m v ?_
    simp only [pageSize, pageEntries] at *
    omega

end Entries

end Kfs.Paging
