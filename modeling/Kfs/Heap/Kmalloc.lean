/-
**The kernel heap: `kmalloc.c`.**

The heap is one in-place list of blocks in physical memory. A block header is four fields at fixed
offsets, the payload follows it:

```
  0  size     the block, header included
  4  is_free  one byte; three bytes of padding follow
  8  next     address of the next header, 0 at the end
  12 magic    0xDEADBEEF
```

The functions are those of the source, over an explicit memory. Every pointer is a number and every
header field is read from and written to memory, so that a stale header, a client's bytes or a
wrapped size act as they do in the machine. The two list walks carry fuel and `diverge` without it.
Messages that only reach the screen (`kernel_info`, `kernel_warning`, `printk`) are left out;
`kernel_panic` is the outcome `panic`.
-/

import Kfs.Base.Memory
import Kfs.Base.Outcome

namespace Kfs.Heap

/-- `HEAP_START`: 5 MB. -/
def heapStart : Nat := 0x00500000

/-- `HEAP_SIZE`: 1 MB. -/
def heapSize : Nat := 0x00100000

/-- `HEAP_END`. -/
def heapEnd : Nat := heapStart + heapSize

/-- `BLOCK_MAGIC`. -/
def blockMagic : Nat := 0xDEADBEEF

/-- `BLOCK_HEADER_SIZE`: `sizeof(mem_block_t)`. -/
def blockHeaderSize : Nat := 16

/-- A bound on the rounds of a list walk: no list of 32-bit addresses is longer. -/
def walkFuel : Nat := 2 ^ 32

/-- `PAGE_SIZE`, the size of the requests of the paging code. -/
def pageSize : Nat := 0x1000

/-! ### The header fields of `mem_block_t` -/

namespace Header

/-- `block->size`. -/
def size (m : Memory) (block : Nat) : Nat := m.load32 block

/-- `block->is_free`. -/
def isFree (m : Memory) (block : Nat) : Bool := m (block + 4) != 0

/-- `block->next`. -/
def next (m : Memory) (block : Nat) : Nat := m.load32 (block + 8)

/-- `block->magic`. -/
def magic (m : Memory) (block : Nat) : Nat := m.load32 (block + 12)

def setSize (m : Memory) (block value : Nat) : Memory := m.store32 block value

def setFree (m : Memory) (block : Nat) (value : Bool) : Memory :=
  m.store8 (block + 4) (if value then 1 else 0)

def setNext (m : Memory) (block value : Nat) : Memory := m.store32 (block + 8) value

def setMagic (m : Memory) (block value : Nat) : Memory := m.store32 (block + 12) value

end Header

/-- The allocator's static variables and the memory it works on. -/
structure HeapState where
  mem : Memory
  start : Nat
  initialized : Bool
  totalAllocated : Nat
  totalFreed : Nat
  numAllocations : Nat

/-- The static variables at power-on. -/
def HeapState.boot (mem : Memory) : HeapState := ⟨mem, 0, false, 0, 0, 0⟩

/-- `kmalloc_init`: one large free block. -/
def kmallocInit (h : HeapState) : HeapState :=
  if h.initialized then h
  else
    let m := Header.setSize h.mem heapStart heapSize
    let m := Header.setFree m heapStart true
    let m := Header.setNext m heapStart 0
    let m := Header.setMagic m heapStart blockMagic
    { h with mem := m, start := heapStart, initialized := true }

/-- `find_free_block`: the first free block of at least `size` bytes, or NULL. -/
def findFreeBlock (m : Memory) (size : Nat) : (fuel current : Nat) → Outcome Nat
  | 0, _ => .diverge
  | fuel + 1, current =>
      if current = 0 then .ok 0
      else if Header.isFree m current ∧ size ≤ Header.size m current then .ok current
      else findFreeBlock m size fuel (Header.next m current)

/-- `split_block`: give back what is left of a block when a header and 16 bytes remain. -/
def splitBlock (m : Memory) (block size : Nat) : Memory :=
  if (size + blockHeaderSize + 16) % 2 ^ 32 ≤ Header.size m block then
    let newBlock := (block + size) % 2 ^ 32
    let m := Header.setSize m newBlock (Header.size m block + 2 ^ 32 - size)
    let m := Header.setFree m newBlock true
    let m := Header.setNext m newBlock (Header.next m block)
    let m := Header.setMagic m newBlock blockMagic
    let m := Header.setSize m block size
    Header.setNext m block newBlock
  else m

/-- `merge_free_blocks`, from the block `current`. -/
def mergeFreeBlocks : (fuel : Nat) → Memory → (current : Nat) → Outcome Memory
  | 0, _, _ => .diverge
  | fuel + 1, m, current =>
      if current = 0 then .ok m
      else if Header.next m current = 0 then .ok m
      else if Header.isFree m current ∧ Header.isFree m (Header.next m current) then
        let m := Header.setSize m current
          (Header.size m current + Header.size m (Header.next m current))
        let m := Header.setNext m current (Header.next m (Header.next m current))
        mergeFreeBlocks fuel m current
      else mergeFreeBlocks fuel m (Header.next m current)

/-- `(size + 3) & ~3`. -/
def round4 (size : Nat) : Nat := (size + 3) % 2 ^ 32 / 4 * 4

/-- The block size `kmalloc` asks for: the rounded request and a header. -/
def totalSize (size : Nat) : Nat := (round4 size + blockHeaderSize) % 2 ^ 32

/-- `kmalloc`: the payload address, 0 for NULL. -/
def kmalloc (h : HeapState) (size : Nat) : Outcome (HeapState × Nat) := do
  let h := kmallocInit h
  if size = 0 then return (h, 0)
  let block ← findFreeBlock h.mem (totalSize size) walkFuel h.start
  if block = 0 then return (h, 0)
  let m := splitBlock h.mem block (totalSize size)
  let m := Header.setFree m block false
  return ({ h with
      mem := m
      totalAllocated := (h.totalAllocated + round4 size) % 2 ^ 32
      numAllocations := (h.numAllocations + 1) % 2 ^ 32 },
    (block + blockHeaderSize) % 2 ^ 32)

/-- `(addr + align - 1) & ~(align - 1)` for a power of two `align`. -/
def alignUp (addr align : Nat) : Nat := (addr + align - 1) % 2 ^ 32 / align * align

/-- `kmalloc_aligned`: allocate `align` bytes more and move up inside the payload. -/
def kmallocAligned (h : HeapState) (size align : Nat) : Outcome (HeapState × Nat) := do
  let (h, ptr) ← kmalloc h ((size + align) % 2 ^ 32)
  if ptr = 0 then return (h, 0)
  return (h, alignUp ptr align)

/-- The message of the invalid-pointer panic. -/
def invalidPointer : String := "kfree: Invalid pointer or corrupted heap"

/-- `kfree`. A block already free is left alone (the source warns about the double free). -/
def kfree (h : HeapState) (ptr : Nat) : Outcome HeapState := do
  if ptr = 0 then return h
  let block := (ptr + 2 ^ 32 - blockHeaderSize) % 2 ^ 32
  if Header.magic h.mem block ≠ blockMagic then .panic invalidPointer
  else if Header.isFree h.mem block then return h
  else
    let m := Header.setFree h.mem block true
    let freed := (h.totalFreed + (Header.size m block + 2 ^ 32 - blockHeaderSize)) % 2 ^ 32
    let m ← mergeFreeBlocks walkFuel m h.start
    return { h with mem := m, totalFreed := freed }

/-- `ksize`: the payload size of a block, 0 when the pointer is NULL or has no header. -/
def ksize (h : HeapState) (ptr : Nat) : Nat :=
  if ptr = 0 then 0
  else
    let block := (ptr + 2 ^ 32 - blockHeaderSize) % 2 ^ 32
    if Header.magic h.mem block ≠ blockMagic then 0
    else (Header.size h.mem block + 2 ^ 32 - blockHeaderSize) % 2 ^ 32

end Kfs.Heap
