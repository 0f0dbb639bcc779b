/-
**The superblock and the group descriptors: `ext2.c`.**

The superblock is read into a stack buffer, the descriptors into a block of the kernel heap. A division
by zero is the CPU exception that stops the kernel.

`ext2_read_group_descriptors` takes block 2 when `s_first_data_block` is 0 and block 1 otherwise, while
the table is in block `s_first_data_block + 1`: the two choices are exchanged. So what it loads is right
exactly when the disk happens to hold the same bytes in both places: `groupDescriptors_iff`.
-/

import Kfs.Disk.Ide
import Kfs.Heap.Runs

namespace Kfs.Disk

open Heap

/-- The fields of `ext2_superblock_t` the driver's geometry comes from. -/
structure Superblock where
  blocksCount : Nat
  firstDataBlock : Nat
  logBlockSize : Nat
  blocksPerGroup : Nat
  inodesPerGroup : Nat
  magic : Nat
  deriving DecidableEq, Repr

/-- `ext2_filesystem_t` without the device and the descriptors. -/
structure Ext2Fs where
  superblock : Superblock
  blockSize : Nat
  blocksPerGroup : Nat
  inodesPerGroup : Nat
  groupsCount : Nat
  rootInode : Nat
  deriving DecidableEq, Repr

/-- `EXT2_MAGIC`. -/
def ext2Magic : Nat := 0xef53

/-- `sizeof(ext2_group_desc_t)`. -/
def groupDescSize : Nat := 32

/-- The fields at their offsets in the packed structure. -/
def Superblock.parse (m : Memory) (buffer : Nat) : Superblock where
  blocksCount := m.load32 (buffer + 4)
  firstDataBlock := m.load32 (buffer + 20)
  logBlockSize := m.load32 (buffer + 24)
  blocksPerGroup := m.load32 (buffer + 32)
  inodesPerGroup := m.load32 (buffer + 40)
  magic := m.load32 (buffer + 56) % 2 ^ 16

/-- `ext2_get_block_size`: `1024 << s_log_block_size`, the shift count taken modulo 32. -/
def ext2GetBlockSize (sb : Superblock) : Nat := 1024 * 2 ^ (sb.logBlockSize % 32) % 2 ^ 32

/-- Unsigned division, stopping the kernel on a zero divisor. -/
def divide (a b : Nat) : Outcome Nat := if b = 0 then .panic "Division By Zero" else .ok (a / b)

/-- `ext2_read_superblock`, `none` for -1. The stack buffer is a memory of its own. -/
def ext2ReadSuperblock (d : Drive) : Outcome (Option Ext2Fs) := do
  let (buffer, result) := ideReadSectors d (fun _ => 0) 2 2 0
  if result ≠ 0 then return none
  let sb := Superblock.parse buffer 0
  if sb.magic ≠ ext2Magic then return none
  let groups ← divide ((sb.blocksCount + sb.blocksPerGroup + (2 ^ 32 - 1)) % 2 ^ 32) sb.blocksPerGroup
  return some {
    superblock := sb
    blockSize := ext2GetBlockSize sb
    blocksPerGroup := sb.blocksPerGroup
    inodesPerGroup := sb.inodesPerGroup
    groupsCount := groups
    rootInode := 2 }

/-- `ext2_read_block`. -/
def ext2ReadBlock (d : Drive) (fs : Ext2Fs) (m : Memory) (blockNum buffer : Nat) : Memory × Int :=
  ideReadSectors d m (blockNum * (fs.blockSize / sectorSize) % 2 ^ 32) (fs.blockSize / sectorSize)
    buffer

/-- `gd_block`: where `ext2_read_group_descriptors` looks for the table. -/
def gdBlock (fs : Ext2Fs) : Nat := if fs.superblock.firstDataBlock = 0 then 2 else 1

/-- `gd_size`. -/
def gdSize (fs : Ext2Fs) : Nat := fs.groupsCount * groupDescSize % 2 ^ 32

/-- One round of the loop that reads the table. -/
def readGdBlock (d : Drive) (fs : Ext2Fs) (buffer i : Nat) (m : Memory) :
    Outcome (Round Memory Memory) :=
  match ext2ReadBlock d fs m (gdBlock fs + i) (buffer + i * fs.blockSize) with
  | (m, result) => if result ≠ 0 then .ok (.exit m) else .ok (.next m)

/-- `ext2_read_group_descriptors`: the heap and `group_descriptors`, `none` for -1. -/
def ext2ReadGroupDescriptors (d : Drive) (h : HeapState) (fs : Ext2Fs) :
    Outcome (HeapState × Option Nat) := do
  let gdBlocks ← divide ((gdSize fs + fs.blockSize + (2 ^ 32 - 1)) % 2 ^ 32) fs.blockSize
  let (h, buffer) ← kmalloc h (gdSize fs)
  if buffer = 0 then return (h, none)
  match ← forLoop (readGdBlock d fs buffer) 0 gdBlocks h.mem with
  | .next m => return ({ h with mem := m }, some buffer)
  | .exit m => do
      let h ← kfree { h with mem := m } buffer
      return (h, none)

/-! ### What is loaded -/

/-- The descriptors in memory are inside their buffer, and each is the one of the table in the block
after the superblock's. -/
structure DescriptorsRight (d : Drive) (fs : Ext2Fs) (h : HeapState) (buffer : Nat) : Prop where
  inside : groupDescSize * fs.groupsCount ≤ ksize h buffer
  bytes : ∀ g < fs.groupsCount, ∀ k < groupDescSize,
    h.mem (buffer + (groupDescSize * g + k)) =
      d.bytes ((fs.superblock.firstDataBlock + 1) * fs.blockSize + (groupDescSize * g + k))

/-- The size of the table does not wrap, and the disk holds the same table where the driver looks for
it and where it is. -/
structure TablesAgree (d : Drive) (fs : Ext2Fs) : Prop where
  fits : fs.groupsCount * groupDescSize < 2 ^ 32
  same : ∀ x < groupDescSize * fs.groupsCount,
    d.bytes (gdBlock fs * fs.blockSize + x) =
      d.bytes ((fs.superblock.firstDataBlock + 1) * fs.blockSize + x)

section Geometry

variable {d : Drive} {fs : Ext2Fs}

theorem divide_eq_ok {a b q : Nat} : divide a b = .ok q ↔ b ≠ 0 ∧ q = a / b := by
  unfold divide
  by_cases zero : b = 0
  · simp [zero]
  · simp [zero, eq_comm]

/-- What an accepted superblock says about the filesystem. -/
theorem ext2ReadSuperblock_ok (accepted : ext2ReadSuperblock d = .ok (some fs)) :
    fs.blockSize = ext2GetBlockSize fs.superblock ∧ fs.groupsCount < 2 ^ 32 := by
  unfold ext2ReadSuperblock at accepted
  simp only at accepted
  split at accepted
  · cases accepted
  · split at accepted
    · cases accepted
    · obtain ⟨groups, divided, rest⟩ := Outcome.bind_eq_ok.mp accepted
      cases rest
      refine ⟨rfl, ?_⟩
      obtain ⟨_, rfl⟩ := divide_eq_ok.mp divided
      exact lt_of_le_of_lt (Nat.div_le_self _ _) (Nat.mod_lt _ (by decide))

/-- A filesystem whose blocks are a few sectors long. -/
structure FewSectors (fs : Ext2Fs) : Prop where
  whole : fs.blockSize = sectorSize * (fs.blockSize / sectorSize)
  byte : fs.blockSize / sectorSize < 2 ^ 8

/-- A block size is a power of two that fits, or zero. -/
theorem blockSize_bounds (sb : Superblock) (nonzero : ext2GetBlockSize sb ≠ 0) :
    2 ^ 10 ≤ ext2GetBlockSize sb ∧ ext2GetBlockSize sb < 2 ^ 32 - 2 ^ 20 := by
  revert nonzero
  unfold ext2GetBlockSize
  have small : sb.logBlockSize % 32 < 32 := Nat.mod_lt _ (by decide)
  interval_cases sb.logBlockSize % 32 <;> decide

/-- A block whose sectors a one-byte count can hold is a few sectors long. -/
theorem fewSectors (geometry : fs.blockSize = ext2GetBlockSize fs.superblock)
    (counted : fs.blockSize / sectorSize % 2 ^ 8 ≠ 0) : FewSectors fs := by
  have both : fs.blockSize = sectorSize * (fs.blockSize / sectorSize) ∧
      fs.blockSize / sectorSize < 2 ^ 8 := by
    rw [geometry] at counted ⊢
    revert counted
    unfold ext2GetBlockSize
    have small : fs.superblock.logBlockSize % 32 < 32 := Nat.mod_lt _ (by decide)
    interval_cases fs.superblock.logBlockSize % 32 <;> decide
  exact ⟨both.1, both.2⟩

/-- Where a block near the start of the disk begins. -/
theorem FewSectors.start (few : FewSectors fs) {blockNum : Nat}
    (near : blockNum * (fs.blockSize / sectorSize) < 2 ^ 28) :
    sectorSize * (blockNum * (fs.blockSize / sectorSize) % 2 ^ 32 % 2 ^ 28) = blockNum * fs.blockSize := by
  rw [Nat.mod_eq_of_lt (lt_trans near (by decide)), Nat.mod_eq_of_lt near, Nat.mul_left_comm,
    ← few.whole]

/-- **A block read near the start of the disk stores that block.** -/
theorem ext2ReadBlock_ok (few : FewSectors fs) {m m' : Memory} {blockNum buffer : Nat}
    (near : blockNum * (fs.blockSize / sectorSize) < 2 ^ 28)
    (done : ext2ReadBlock d fs m blockNum buffer = (m', 0)) :
    (∀ x < fs.blockSize, m' (buffer + x) = d.bytes (blockNum * fs.blockSize + x)) ∧
      Set.EqOn m' m {x | x < buffer ∨ buffer + fs.blockSize ≤ x} := by
  obtain ⟨_, inside, outside⟩ := ideReadSectors_ok done
  rw [Nat.mod_eq_of_lt few.byte, ← few.whole, few.start near] at inside
  rw [Nat.mod_eq_of_lt few.byte, ← few.whole] at outside
  exact ⟨inside, outside⟩

/-- **The loop loads consecutive blocks**, and writes nothing below the buffer. -/
theorem readTable_ok (few : FewSectors fs) {m₀ m : Memory} {buffer n : Nat}
    (near : ∀ i < n, (gdBlock fs + i) * (fs.blockSize / sectorSize) < 2 ^ 28)
    (done : forLoop (readGdBlock d fs buffer) 0 n m₀ = .ok (.next m)) :
    (∀ x < n * fs.blockSize, m (buffer + x) = d.bytes (gdBlock fs * fs.blockSize + x)) ∧
      Set.EqOn m m₀ {x | x < buffer} := by
  have kept := @forLoop_inv _ _ (readGdBlock d fs buffer)
    (fun i m => (∀ x < i * fs.blockSize,
      m (buffer + x) = d.bytes (gdBlock fs * fs.blockSize + x)) ∧ Set.EqOn m m₀ {x | x < buffer})
    (fun _ => True) 0 n m₀ ⟨fun x none => by omega, Set.eqOn_refl _ _⟩ ?_ _ done
  · simpa using kept
  · intro i m₁ round _ small before step
    unfold readGdBlock at step
    split at step
    rename_i m₂ result read
    split at step
    · cases step
      trivial
    · rename_i zero
      cases step
      rw [not_not.mp zero] at read
      obtain ⟨inside, outside⟩ := ext2ReadBlock_ok few (near i (by omega)) read
      refine ⟨fun x high => ?_, fun x below => ?_⟩
      · by_cases earlier : x < i * fs.blockSize
        · rw [outside (Or.inl (by omega))]
          exact before.1 x earlier
        · obtain ⟨k, rfl⟩ := Nat.exists_eq_add_of_le (not_lt.mp earlier)
          rw [Nat.add_mul, Nat.one_mul] at high
          have place : (gdBlock fs + i) * fs.blockSize + k =
              gdBlock fs * fs.blockSize + (i * fs.blockSize + k) := by
            rw [Nat.add_mul, Nat.add_assoc]
          rw [← Nat.add_assoc, ← place]
          exact inside k (by omega)
      · rw [outside (Or.inl (lt_of_lt_of_le below (Nat.le_add_right _ _)))]
        exact before.2 below

end Geometry

section Descriptors

variable {d : Drive} {fs : Ext2Fs} {c : Client}

theorem gdSize_noWrap (fs : Ext2Fs) : NoWrap (gdSize fs) := by
  unfold NoWrap gdSize groupDescSize blockHeaderSize
  omega

/-- Rounding a size of at most a megabyte up to blocks. -/
theorem blocks_bounds {size bs : Nat} (some : 0 < size) (small : size ≤ 2 ^ 20) (large : 2 ^ 10 ≤ bs)
    (fits : bs < 2 ^ 32 - 2 ^ 20) {n : Nat} (blocks : n = (size + bs + (2 ^ 32 - 1)) % 2 ^ 32 / bs) :
    0 < n ∧ n ≤ 1025 ∧ size ≤ n * bs := by
  have sum : (size + bs + (2 ^ 32 - 1)) % 2 ^ 32 = size + bs - 1 := by omega
  rw [sum] at blocks
  have positive : 0 < bs := by omega
  have parts := Nat.div_add_mod (size + bs - 1) bs
  have rest := Nat.mod_lt (size + bs - 1) positive
  rw [← blocks, Nat.mul_comm] at parts
  refine ⟨?_, ?_, by omega⟩
  · by_contra zero
    rw [Nat.eq_zero_of_not_pos zero] at parts
    omega
  · by_contra many
    have : 1026 * bs ≤ n * bs := Nat.mul_le_mul_right bs (by omega)
    omega

/-- `ksize` depends only on the header below the pointer. -/
theorem ksize_congr {h h' : HeapState} {ptr : Nat} (low : 16 ≤ ptr) (high : ptr < 2 ^ 32)
    (same : Set.EqOn h'.mem h.mem {x | x < ptr}) : ksize h' ptr = ksize h ptr := by
  have block : (ptr + 2 ^ 32 - blockHeaderSize) % 2 ^ 32 = ptr - 16 := by
    unfold blockHeaderSize
    omega
  have header : Set.EqOn h'.mem h.mem (Set.Ico (ptr - 16) (ptr - 16 + 16)) :=
    same.mono fun x inside => by
      simp only [Set.mem_Ico, Set.mem_ofPred_eq] at *
      omega
  obtain ⟨size, _, _, magic⟩ := Header.congr header
  unfold ksize
  simp only [block, size, magic]

/-- The first round of a loop that ran to its end succeeded. -/
theorem readTable_first {m₀ m : Memory} {buffer n : Nat} (some : 0 < n)
    (done : forLoop (readGdBlock d fs buffer) 0 n m₀ = .ok (.next m)) :
    fs.blockSize / sectorSize % 2 ^ 8 ≠ 0 := by
  obtain ⟨n, rfl⟩ := Nat.exists_eq_succ_of_ne_zero (Nat.pos_iff_ne_zero.mp some)
  obtain ⟨round, first, rest⟩ := Outcome.bind_eq_ok.mp done
  unfold readGdBlock at first
  split at first
  rename_i m₁ result read
  split at first
  · cases first
    cases rest
  · rename_i zero
    rw [not_not.mp zero] at read
    exact (ideReadSectors_ok read).1

/-- `gd_blocks`. -/
def gdBlocks (fs : Ext2Fs) : Nat := (gdSize fs + fs.blockSize + (2 ^ 32 - 1)) % 2 ^ 32 / fs.blockSize

/-- A load that succeeds is an allocation and a loop. -/
theorem ext2ReadGroupDescriptors_split {h h' : HeapState} {buffer : Nat}
    (loaded : ext2ReadGroupDescriptors d h fs = .ok (h', some buffer)) :
    fs.blockSize ≠ 0 ∧ ∃ h₁ m, kmalloc h (gdSize fs) = .ok (h₁, buffer) ∧ buffer ≠ 0 ∧
      forLoop (readGdBlock d fs buffer) 0 (gdBlocks fs) h₁.mem = .ok (.next m) ∧
      h' = { h₁ with mem := m } := by
  obtain ⟨blocks, divided, rest⟩ := Outcome.bind_eq_ok.mp loaded
  obtain ⟨nonzero, rfl⟩ : fs.blockSize ≠ 0 ∧ blocks = gdBlocks fs := divide_eq_ok.mp divided
  obtain ⟨⟨h₁, ptr⟩, taken, rest⟩ := Outcome.bind_eq_ok.mp rest
  simp only at rest
  split at rest
  · cases rest
  · rename_i given
    obtain ⟨round, loop, rest⟩ := Outcome.bind_eq_ok.mp rest
    cases round with
    | next m =>
        cases rest
        exact ⟨nonzero, h₁, m, taken, given, loop, rfl⟩
    | exit m =>
        obtain ⟨_, _, last⟩ := Outcome.bind_eq_ok.mp rest
        cases last

/-- **What a successful load has done**: a buffer of at least `gd_size` bytes and less than the heap,
filled from the block the driver chose. -/
theorem ext2ReadGroupDescriptors_ok (accepted : ext2ReadSuperblock d = .ok (some fs))
    (reach : Reachable c) {h : HeapState} {buffer : Nat}
    (loaded : ext2ReadGroupDescriptors d c.heap fs = .ok (h, some buffer)) :
    gdSize fs ≤ ksize h buffer ∧ ksize h buffer < 2 ^ 32 ∧
      ∀ x < gdSize fs, h.mem (buffer + x) = d.bytes (gdBlock fs * fs.blockSize + x) := by
  obtain ⟨l, inv⟩ := reach.inv
  obtain ⟨geometry, _⟩ := ext2ReadSuperblock_ok accepted
  obtain ⟨nonzero, h₁, m, taken, given, looped, rfl⟩ := ext2ReadGroupDescriptors_split loaded
  obtain ⟨some, l', b, heap, member, -, rfl, room⟩ := kmalloc_block inv.heap (gdSize_noWrap fs) taken given
  have inside := heap.bounds member
  simp only [heapEnd, heapStart, heapSize] at inside
  obtain ⟨large, fits⟩ := blockSize_bounds fs.superblock (geometry ▸ nonzero)
  rw [← geometry] at large fits
  obtain ⟨first, few, enough⟩ := @blocks_bounds _ _ some (by omega) large fits (gdBlocks fs) rfl
  have sectors := fewSectors geometry (readTable_first first looped)
  have near : ∀ i < gdBlocks fs, (gdBlock fs + i) * (fs.blockSize / sectorSize) < 2 ^ 28 := by
    intro i small
    have block : gdBlock fs ≤ 2 := by
      unfold gdBlock
      split <;> omega
    calc (gdBlock fs + i) * (fs.blockSize / sectorSize)
        ≤ 1027 * 2 ^ 8 := Nat.mul_le_mul (by omega) sectors.byte.le
      _ < 2 ^ 28 := by decide
  obtain ⟨bytes, below⟩ := readTable_ok sectors near looped
  have header : ksize { h₁ with mem := m } (b.addr + 16) = b.size - 16 := by
    rw [ksize_congr (by omega) (by omega) below]
    exact ksize_eq heap member
  rw [header]
  exact ⟨by omega, by omega, fun x small => bytes x (by omega)⟩

end Descriptors

/-- **Exactly when the group descriptors come from the right place**: for every disk whose superblock
is accepted, every reachable heap, and a load that returned 0. -/
theorem groupDescriptors_iff {d : Drive} {fs : Ext2Fs} {c : Client} {h : HeapState} {buffer : Nat}
    (accepted : ext2ReadSuperblock d = .ok (some fs)) (reach : Reachable c)
    (loaded : ext2ReadGroupDescriptors d c.heap fs = .ok (h, some buffer)) :
    DescriptorsRight d fs h buffer ↔ TablesAgree d fs := by
  obtain ⟨enough, small, bytes⟩ := ext2ReadGroupDescriptors_ok accepted reach loaded
  constructor
  · intro right
    have inside := right.inside
    have fits : fs.groupsCount * groupDescSize < 2 ^ 32 := by
      rw [Nat.mul_comm]
      omega
    refine ⟨fits, fun x below => ?_⟩
    rw [← bytes x (by rw [gdSize, Nat.mod_eq_of_lt fits, Nat.mul_comm]; exact below)]
    have split : groupDescSize * (x / groupDescSize) + x % groupDescSize = x :=
      Nat.div_add_mod x groupDescSize
    have found := right.bytes (x / groupDescSize)
      (Nat.div_lt_of_lt_mul below) (x % groupDescSize) (Nat.mod_lt x (by decide))
    rwa [split] at found
  · intro agree
    have size : gdSize fs = groupDescSize * fs.groupsCount := by
      rw [gdSize, Nat.mod_eq_of_lt agree.fits, Nat.mul_comm]
    refine ⟨by rwa [← size], fun g group k small => ?_⟩
    have below : groupDescSize * g + k < groupDescSize * fs.groupsCount :=
      calc groupDescSize * g + k < groupDescSize * (g + 1) := by
            rw [Nat.mul_add, Nat.mul_one]
            omega
        _ ≤ groupDescSize * fs.groupsCount := Nat.mul_le_mul_left _ group
    rw [bytes _ (by rwa [size])]
    exact agree.same _ below

/-- A disk of 64 blocks of 1024 bytes in one group, with `table` in block 2. -/
def smallDisk (table : Nat → UInt8) : Drive where
  present := true
  ready := fun _ => true
  drq := fun _ _ => true
  bytes := fun x =>
    if x = 1024 then 16
    else if x = 1028 then 64
    else if x = 1044 then 1
    else if x = 1057 then 0x20
    else if x = 1064 then 16
    else if x = 1080 then 0x53
    else if x = 1081 then 0xef
    else if 2048 ≤ x ∧ x < 2080 then table (x - 2048)
    else 0

/-- Its geometry. -/
def smallFs : Ext2Fs where
  superblock := ⟨64, 1, 0, 0x2000, 16, 0xef53⟩
  blockSize := 1024
  blocksPerGroup := 0x2000
  inodesPerGroup := 16
  groupsCount := 1
  rootInode := 2

theorem smallDisk_accepted (table : Nat → UInt8) :
    ext2ReadSuperblock (smallDisk table) = .ok (some smallFs) := by
  obtain ⟨m, read⟩ : ∃ m, ideReadSectors (smallDisk table) (fun _ => 0) 2 2 0 = (m, 0) := ⟨_, rfl⟩
  obtain ⟨_, stored, _⟩ := ideReadSectors_ok read
  have byte : ∀ x < 1024, m x = (smallDisk table).bytes (1024 + x) := fun x small => by
    have := stored x small
    rwa [Nat.zero_add] at this
  have parsed : Superblock.parse m 0 = smallFs.superblock := by
    simp [Superblock.parse, Memory.load32, byte, smallDisk, smallFs]
  simp only [ext2ReadSuperblock, read, parsed]
  rfl

theorem smallDisk_loaded (table : Nat → UInt8) :
    ∃ h, ext2ReadGroupDescriptors (smallDisk table) (Client.init fun _ => 0).heap smallFs =
      .ok (h, some (heapStart + 16)) := by
  have heap := (clientInv_init fun _ => 0).heap
  have allocated := @kmalloc_some _ [] [] _ (gdSize smallFs) heap (by decide) (by simp) (by decide)
  unfold ext2ReadGroupDescriptors
  rw [show divide _ smallFs.blockSize = .ok 1 from rfl, Outcome.ok_bind, allocated]
  exact ⟨_, rfl⟩

theorem groupDescriptors_copied : ∃ h,
    ext2ReadGroupDescriptors (smallDisk fun k => (smallDisk 0).bytes (1024 + k))
      (Client.init fun _ => 0).heap smallFs = .ok (h, some (heapStart + 16)) ∧
    DescriptorsRight (smallDisk fun k => (smallDisk 0).bytes (1024 + k)) smallFs h
      (heapStart + 16) := by
  obtain ⟨h, loaded⟩ := smallDisk_loaded fun k => (smallDisk 0).bytes (1024 + k)
  refine ⟨h, loaded, (groupDescriptors_iff (smallDisk_accepted _) ⟨_, [], .nil _⟩ loaded).mpr ?_⟩
  refine ⟨by decide, fun x small => ?_⟩
  have few : x < 32 := small
  interval_cases x <;> decide

/-- A disk in the usual layout: the first descriptor has its block bitmap in block 3. The driver
reads the superblock in its place. -/
theorem groupDescriptors_superblock : ∃ h,
    ext2ReadGroupDescriptors (smallDisk fun k => if k = 0 then 3 else 0)
      (Client.init fun _ => 0).heap smallFs = .ok (h, some (heapStart + 16)) ∧
    ext2ReadSuperblock (smallDisk fun k => if k = 0 then 3 else 0) = .ok (some smallFs) ∧
    h.mem (heapStart + 16) = 16 ∧
    ¬ DescriptorsRight (smallDisk fun k => if k = 0 then 3 else 0) smallFs h (heapStart + 16) := by
  obtain ⟨h, loaded⟩ := smallDisk_loaded fun k => if k = 0 then 3 else 0
  have accepted := smallDisk_accepted fun k => if k = 0 then 3 else 0
  obtain ⟨_, _, bytes⟩ := ext2ReadGroupDescriptors_ok accepted ⟨_, [], .nil _⟩ loaded
  have first : h.mem (heapStart + 16) = 16 := bytes 0 (by decide)
  refine ⟨h, loaded, accepted, first, fun right => ?_⟩
  have expected := right.bytes 0 (by decide) 0 (by decide)
  rw [show heapStart + 16 + (groupDescSize * 0 + 0) = heapStart + 16 from rfl, first] at expected
  exact absurd expected (by decide)

end Kfs.Disk
