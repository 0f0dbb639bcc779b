/-
**Which disks make the driver divide by zero: `ext2_init` and the calls after it.**

`ext2_read_superblock` looks at the magic number only. The five divisors of the driver come from other
fields: `s_blocks_per_group` and the block size, a shift that wraps, divide while the filesystem is being
mounted; `s_inodes_per_group`, the size of an inode and the inodes to a block divide when an inode is
located. `driver_divides_iff` says which of them have to be something else than zero, and when.
-/

import Kfs.Disk.Overrun
import Kfs.Disk.Directory

namespace Kfs.Disk

open Heap

/-- The exception of a zero divisor. -/
def divisionByZero : String := "Division By Zero"

/-- The buffer of `ext2_read_superblock`. -/
def Drive.superblockBuffer (d : Drive) : Memory := (ideReadSectors d (fun _ => 0) 2 2 0).1

/-- `superblock`. -/
def Drive.superblock (d : Drive) : Superblock := Superblock.parse d.superblockBuffer 0

/-- `s_rev_level`. -/
def Drive.revLevel (d : Drive) : Nat := d.superblockBuffer.load32 76

/-- `s_inode_size`. -/
def Drive.sInodeSize (d : Drive) : Nat := d.superblockBuffer.load32 88 % 2 ^ 16

/-- `bg_inode_table` of a descriptor in memory. -/
def bgInodeTable (m : Memory) (groupDescriptors group : Nat) : Nat :=
  m.load32 (groupDescriptors + groupDescSize * group + 8)

/-- `ext2_init`: the heap and the filesystem, `none` for -1. -/
def ext2Init (d : Drive) (h : HeapState) : Outcome (HeapState × Option Filesystem) := do
  match ← ext2ReadSuperblock d with
  | none => return (h, none)
  | some fs =>
      match ← ext2ReadGroupDescriptors d h fs with
      | (h, none) => return (h, none)
      | (h, some groupDescriptors) =>
          return (h, some {
            toExt2Fs := fs
            revLevel := d.revLevel
            sInodeSize := d.sInodeSize
            inodeTable := bgInodeTable h.mem groupDescriptors })

/-! ### The divisors -/

/-- The size of an inode, from the superblock of the drive. -/
def Drive.inodeSize (d : Drive) : Nat := if d.revLevel = 0 then 128 else d.sInodeSize

/-- What `ext2_read_superblock` computes from a superblock. -/
def Superblock.geometry (sb : Superblock) : Ext2Fs where
  superblock := sb
  blockSize := ext2GetBlockSize sb
  blocksPerGroup := sb.blocksPerGroup
  inodesPerGroup := sb.inodesPerGroup
  groupsCount := (sb.blocksCount + sb.blocksPerGroup + (2 ^ 32 - 1)) % 2 ^ 32 / sb.blocksPerGroup
  rootInode := 2

/-- The group descriptors can be loaded: there are some, the heap has room for them, and the drive gives
all blocks of their table. -/
structure TableLoads (d : Drive) (h : HeapState) (fs : Ext2Fs) : Prop where
  positive : gdSize fs ≠ 0
  room : ∃ l, blockList h = some l ∧ ∃ s ∈ l, s.fits (totalSize (gdSize fs)) = true
  served : ∀ i < gdBlocks fs, d.serves (tableLba fs i) fs.sectors = true

/-- **No call on the filesystem divides by zero**, whatever the disk holds and answers by then. -/
structure CallsDivide (fs : Filesystem) : Prop where
  readInode : ∀ v granted n, ext2ReadInode v fs granted n ≠ .panic divisionByZero
  writeInode : ∀ v granted n x, ext2WriteInode v fs granted n x ≠ .panic divisionByZero
  readInodeData : ∀ v inode r granted m, ext2ReadInodeData v fs inode r granted m ≠ .panic divisionByZero
  lookup : ∀ v g fresh dir name, ext2Lookup v fs g fresh dir name ≠ .panic divisionByZero
  readDir : ∀ v g fresh dir (σ : Type) (callback : σ → Ext2DirEntry → σ) (ctx : σ),
    ext2ReadDir v fs g fresh dir callback ctx ≠ .panic divisionByZero

/-- **The driver never divides by zero**: not while the disk is mounted, and not afterwards, whatever has
become of the descriptors in memory. -/
structure NeverDividesByZero (d : Drive) (h : HeapState) : Prop where
  init : ext2Init d h ≠ .panic divisionByZero
  calls : ∀ h' fs, ext2Init d h = .ok (h', some fs) → ∀ table, CallsDivide { fs with inodeTable := table }

section Calls

variable {v : Volume} {fs : Filesystem}

theorem divide_of_ne {a b : Nat} (nonzero : b ≠ 0) : divide a b = .ok (a / b) := if_neg nonzero

theorem remainder_of_ne {a b : Nat} (nonzero : b ≠ 0) : remainder a b = .ok (a % b) := if_neg nonzero

/-- What locating an inode divides by. -/
structure Filesystem.Locates (fs : Filesystem) : Prop where
  perGroup : fs.inodesPerGroup ≠ 0
  size : fs.inodeSize ≠ 0
  fits : fs.inodeSize ≤ fs.blockSize

namespace Filesystem.Locates

theorem perBlock (locates : fs.Locates) : fs.blockSize / fs.inodeSize ≠ 0 :=
  (Nat.div_pos locates.fits (Nat.pos_of_ne_zero locates.size)).ne'

theorem blocks (locates : fs.Locates) : fs.blockSize ≠ 0 := by
  have positive := Nat.pos_of_ne_zero locates.size
  have fits := locates.fits
  omega

theorem locate (locates : fs.Locates) (n : Nat) : ∃ place, fs.locate n = .ok place := by
  unfold Filesystem.locate
  by_cases zero : n = 0
  · exact ⟨none, if_pos zero⟩
  · simp only [if_neg zero, ext2GetInodeBlockGroup, ext2GetInodeIndex, divide_of_ne locates.perGroup,
      remainder_of_ne locates.perGroup, Outcome.ok_bind]
    split
    · exact ⟨none, rfl⟩
    · simp only [divide_of_ne locates.size, divide_of_ne locates.perBlock, remainder_of_ne locates.perBlock,
        Outcome.ok_bind]
      exact ⟨_, rfl⟩

theorem readInode (locates : fs.Locates) (v : Volume) (granted : Bool) (n : Nat) :
    ∃ result, ext2ReadInode v fs granted n = .ok result := by
  obtain ⟨place, found⟩ := locates.locate n
  simp only [ext2ReadInode, found, Outcome.ok_bind]
  split
  · exact ⟨none, rfl⟩
  · split
    · exact ⟨none, rfl⟩
    · split <;> exact ⟨_, rfl⟩

theorem writeInode (locates : fs.Locates) (v : Volume) (granted : Bool) (n : Nat) (x : Inode) :
    ∃ result, ext2WriteInode v fs granted n x = .ok result := by
  obtain ⟨place, found⟩ := locates.locate n
  simp only [ext2WriteInode, found, Outcome.ok_bind]
  split
  · exact ⟨_, rfl⟩
  · split
    · exact ⟨_, rfl⟩
    · split <;> exact ⟨_, rfl⟩

theorem readInodeData (locates : fs.Locates) (v : Volume) (inode : Inode) (r : Request) (granted : Bool)
    (m : Memory) : ∃ result, ext2ReadInodeData v fs inode r granted m = .ok result := by
  simp only [ext2ReadInodeData, divide_of_ne locates.blocks, Outcome.ok_bind]
  split <;> exact ⟨_, rfl⟩

theorem readDirectory (locates : fs.Locates) (v : Volume) (g : DirGrants) (fresh : Memory) (dir : Nat) :
    ∃ result, readDirectory v fs g fresh dir = .ok result := by
  obtain ⟨inode, found⟩ := locates.readInode v g.inodeBlock dir
  simp only [Disk.readDirectory, found, Outcome.ok_bind]
  split
  · exact ⟨none, rfl⟩
  · rename_i inode
    obtain ⟨⟨data, result⟩, read⟩ := locates.readInodeData v inode ⟨0, inode.size, 0⟩ g.dataBlock fresh
    simp only [read, Outcome.ok_bind]
    split
    · exact ⟨none, rfl⟩
    · split
      · exact ⟨none, rfl⟩
      · split <;> exact ⟨_, rfl⟩

end Filesystem.Locates

/-- The loop over the entries of a directory does not stop the kernel. -/
theorem lookupLoop_quiet (data : Memory) (size : Nat) (name : List UInt8) (fuel offset : Nat)
    (message : String) : lookupLoop data size name fuel offset ≠ .panic message := by
  induction fuel generalizing offset with
  | zero =>
      intro stops
      cases stops
  | succ fuel ih =>
      unfold lookupLoop
      split
      · simp only
        split
        · intro stops
          cases stops
        · split
          · intro stops
            cases stops
          · exact ih _
      · intro stops
        cases stops

theorem scanDir_quiet {σ : Type} (callback : σ → Ext2DirEntry → σ) (data : Memory) (size fuel offset : Nat)
    (ctx : σ) (message : String) : scanDir callback data size fuel offset ctx ≠ .panic message := by
  induction fuel generalizing offset ctx with
  | zero =>
      intro stops
      cases stops
  | succ fuel ih =>
      unfold scanDir
      split
      · simp only
        split
        · intro stops
          cases stops
        · exact ih _ _
      · intro stops
        cases stops

/-- Calls whose divisors are not zero. -/
theorem Filesystem.Locates.calls (locates : fs.Locates) : CallsDivide fs where
  readInode v granted n stops := by
    obtain ⟨_, done⟩ := locates.readInode v granted n
    cases done.symm.trans stops
  writeInode v granted n x stops := by
    obtain ⟨_, done⟩ := locates.writeInode v granted n x
    cases done.symm.trans stops
  readInodeData v inode r granted m stops := by
    obtain ⟨_, done⟩ := locates.readInodeData v inode r granted m
    cases done.symm.trans stops
  lookup v g fresh dir name := by
    obtain ⟨result, done⟩ := locates.readDirectory v g fresh dir
    simp only [ext2Lookup, done, Outcome.ok_bind]
    split
    · exact fun stops => nomatch stops
    · exact lookupLoop_quiet _ _ _ _ _ _
  readDir v g fresh dir σ callback ctx := by
    obtain ⟨result, done⟩ := locates.readDirectory v g fresh dir
    simp only [ext2ReadDir, done, Outcome.ok_bind]
    split
    · exact fun stops => nomatch stops
    · rename_i data size
      have quiet := scanDir_quiet callback data size (size + 1) 0 ctx divisionByZero
      cases scanned : scanDir callback data size (size + 1) 0 ctx with
      | ok ctx => exact fun stops => nomatch stops
      | panic message =>
          intro stops
          cases stops
          exact quiet scanned
      | diverge => exact fun stops => nomatch stops

end Calls

/-! ### What mounting divides by -/

section Mounting

variable {d : Drive} {fs : Ext2Fs} {h : HeapState} {l : List Segment} {buffer i count : Nat}

/-- A disk that is not mounted. -/
theorem NeverDividesByZero.of_failed {outcome : Outcome (HeapState × Option Filesystem)}
    (init : ext2Init d h = outcome) (other : outcome ≠ .panic divisionByZero)
    (failed : ∀ h' fs, outcome ≠ .ok (h', some fs)) : NeverDividesByZero d h where
  init := init ▸ other
  calls h' fs done := absurd (init.symm.trans done) (failed h' fs)

/-- There is a group when the table of groups can be loaded. -/
theorem TableLoads.groups (loads : TableLoads d h fs) : fs.groupsCount ≠ 0 := by
  intro zero
  refine loads.positive ?_
  rw [gdSize, zero]
  decide

end Mounting

end Kfs.Disk
