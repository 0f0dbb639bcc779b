/-
**The inode table: `ext2_read_inode` and `ext2_write_inode`.**

The disk is a store of blocks (`Volume`): which blocks can be read and written, and their bytes. An inode
number leads to a group, an index in it, a block of that group's table and an offset there, by divisions
that both functions make alike (`locate`); a zero divisor is the CPU exception that stops the kernel.

`inode_store`: under the geometry of the tables (`InodeTables`), a write is read back, every other inode
reads as before, no byte of the disk outside the inode changes, and numbers outside the table are refused
with the disk untouched. Separation is that of records packed into blocks (`records_apart`) inside a
group, and that of the tables between groups.
-/

import Kfs.Base.Records
import Kfs.Disk.Ext2

namespace Kfs.Disk

/-- A disk as a store of blocks, by block number and offset. A write that fails has stored the first
`torn` bytes. -/
structure Volume where
  readable : Nat → Bool
  writable : Nat → Bool
  torn : Nat → Nat
  byte : Nat → Nat → UInt8

/-- `ext2_filesystem_t` with what the inode functions read besides: `s_rev_level`, `s_inode_size` and
`bg_inode_table` of each group descriptor. -/
structure Filesystem extends Ext2Fs where
  revLevel : Nat
  sInodeSize : Nat
  inodeTable : Nat → Nat

/-- `sizeof(ext2_inode_t)`. -/
def inodeBytes : Nat := 128

/-- `ext2_inode_t`. -/
abbrev Inode := Fin inodeBytes → UInt8

/-- Its bytes as memory. -/
def Inode.byte (x : Inode) (k : Nat) : UInt8 := if inside : k < inodeBytes then x ⟨k, inside⟩ else 0

/-- `ext2_read_block` into a buffer of its own, `none` for -1. -/
def Volume.readBlock (v : Volume) (blockNum : Nat) : Option Memory :=
  if v.readable blockNum then some (v.byte blockNum) else none

/-- The first `count` bytes of a block are replaced. -/
def Volume.store (v : Volume) (blockNum count : Nat) (buffer : Memory) : Volume :=
  { v with byte := fun b x => if b = blockNum ∧ x < count then buffer x else v.byte b x }

/-- `ext2_write_block`. -/
def Volume.writeBlock (v : Volume) (blockSize blockNum : Nat) (buffer : Memory) : Volume × Int :=
  if v.writable blockNum then (v.store blockNum blockSize buffer, 0)
  else (v.store blockNum (min (v.torn blockNum) blockSize) buffer, -1)

/-- Unsigned remainder, stopping the kernel on a zero divisor. -/
def remainder (a b : Nat) : Outcome Nat := if b = 0 then .panic "Division By Zero" else .ok (a % b)

namespace Filesystem

/-- `inode_size`. -/
def inodeSize (fs : Filesystem) : Nat := if fs.revLevel = 0 then 128 else fs.sInodeSize

/-- `ext2_get_inode_block_group`. -/
def ext2GetInodeBlockGroup (fs : Filesystem) (inodeNum : Nat) : Outcome Nat :=
  divide ((inodeNum + (2 ^ 32 - 1)) % 2 ^ 32) fs.inodesPerGroup

/-- `ext2_get_inode_index`. -/
def ext2GetInodeIndex (fs : Filesystem) (inodeNum : Nat) : Outcome Nat :=
  remainder ((inodeNum + (2 ^ 32 - 1)) % 2 ^ 32) fs.inodesPerGroup

/-- The part that `ext2_read_inode` and `ext2_write_inode` have in common: `block_num` and `block_offset`,
`none` for -1. -/
def locate (fs : Filesystem) (inodeNum : Nat) : Outcome (Option (Nat × Nat)) := do
  if inodeNum = 0 then return none
  let group ← fs.ext2GetInodeBlockGroup inodeNum
  let index ← fs.ext2GetInodeIndex inodeNum
  if group ≥ fs.groupsCount then return none
  let inodesPerBlock ← divide fs.blockSize fs.inodeSize
  let row ← divide index inodesPerBlock
  let column ← remainder index inodesPerBlock
  return some ((fs.inodeTable group + row) % 2 ^ 32, column * fs.inodeSize % 2 ^ 32)

end Filesystem

/-- `ext2_read_inode`, `none` for -1; `granted` says whether the block buffer could be allocated. -/
def ext2ReadInode (v : Volume) (fs : Filesystem) (granted : Bool) (inodeNum : Nat) :
    Outcome (Option Inode) := do
  match ← fs.locate inodeNum with
  | none => return none
  | some (blockNum, blockOffset) =>
      if granted = false then return none
      match v.readBlock blockNum with
      | none => return none
      | some buffer => return some fun k => buffer (blockOffset + k)

/-- `ext2_write_inode`. -/
def ext2WriteInode (v : Volume) (fs : Filesystem) (granted : Bool) (inodeNum : Nat) (inode : Inode) :
    Outcome (Volume × Int) := do
  match ← fs.locate inodeNum with
  | none => return (v, -1)
  | some (blockNum, blockOffset) =>
      if granted = false then return (v, -1)
      match v.readBlock blockNum with
      | none => return (v, -1)
      | some buffer =>
          return v.writeBlock fs.blockSize blockNum (buffer.writeBytes blockOffset inodeBytes inode.byte)

/-! ### Where an inode lies -/

namespace Filesystem

/-- Inodes to a block. -/
def perBlock (fs : Filesystem) : Nat := fs.blockSize / fs.inodeSize

/-- The blocks of one group's table. -/
def tableBlocks (fs : Filesystem) : Nat := blocksFor fs.perBlock fs.inodesPerGroup

/-- The block that holds an inode. -/
def blockOf (fs : Filesystem) (n : Nat) : Nat :=
  fs.inodeTable ((n - 1) / fs.inodesPerGroup) + recordBlock fs.perBlock ((n - 1) % fs.inodesPerGroup)

/-- Its first byte there. -/
def startOf (fs : Filesystem) (n : Nat) : Nat :=
  recordStart fs.perBlock fs.inodeSize ((n - 1) % fs.inodesPerGroup)

/-- The inode numbers of the filesystem. -/
def Numbers (fs : Filesystem) (n : Nat) : Prop :=
  1 ≤ n ∧ n ≤ fs.groupsCount * fs.inodesPerGroup ∧ n < 2 ^ 32

instance (fs : Filesystem) (n : Nat) : Decidable (fs.Numbers n) := inferInstanceAs (Decidable (_ ∧ _ ∧ _))

/-- The bytes of an inode on the disk. -/
def Covers (fs : Filesystem) (n block offset : Nat) : Prop :=
  block = fs.blockOf n ∧ fs.startOf n ≤ offset ∧ offset < fs.startOf n + inodeBytes

end Filesystem

/-- **The geometry**: an inode fits in a block, block numbers do not wrap, and the tables of different
groups have no block in common. -/
structure InodeTables (fs : Filesystem) : Prop where
  least : 128 ≤ fs.inodeSize
  most : fs.inodeSize ≤ fs.blockSize
  word : fs.blockSize < 2 ^ 32
  fits : ∀ g < fs.groupsCount, fs.inodeTable g + fs.tableBlocks ≤ 2 ^ 32
  apart : ∀ g < fs.groupsCount, ∀ h < fs.groupsCount, g ≠ h →
    fs.inodeTable g + fs.tableBlocks ≤ fs.inodeTable h ∨ fs.inodeTable h + fs.tableBlocks ≤ fs.inodeTable g

/-- Blocks can be read and written. -/
structure Sound (v : Volume) : Prop where
  reads : ∀ b, v.readable b = true
  writes : ∀ b, v.writable b = true

section Location

variable {fs : Filesystem} {n m : Nat}

theorem InodeTables.perBlock_pos (tables : InodeTables fs) : 0 < fs.perBlock := by
  have := tables.least
  exact Nat.div_pos tables.most (by omega)

theorem Filesystem.Numbers.perGroup_pos (number : fs.Numbers n) : 0 < fs.inodesPerGroup := by
  rcases Nat.eq_zero_or_pos fs.inodesPerGroup with zero | positive
  · have := number.2.1
    rw [zero, Nat.mul_zero] at this
    have := number.1
    omega
  · exact positive

theorem Filesystem.Numbers.group_lt (number : fs.Numbers n) : (n - 1) / fs.inodesPerGroup < fs.groupsCount := by
  refine Nat.div_lt_of_lt_mul ?_
  rw [Nat.mul_comm]
  have := number.1
  have := number.2.1
  omega

theorem Filesystem.Numbers.index_lt (number : fs.Numbers n) :
    (n - 1) % fs.inodesPerGroup < fs.inodesPerGroup :=
  Nat.mod_lt _ number.perGroup_pos

/-- Every inode ends before its block does. -/
theorem InodeTables.startOf_le (tables : InodeTables fs) : fs.startOf n + inodeBytes ≤ fs.blockSize := by
  have inside : fs.startOf n + fs.inodeSize ≤ fs.blockSize :=
    recordStart_add_le tables.perBlock_pos (Nat.div_mul_le_self _ _)
  have := tables.least
  unfold inodeBytes
  omega

theorem InodeTables.blockOf_lt (tables : InodeTables fs) (number : fs.Numbers n) :
    fs.blockOf n < fs.inodeTable ((n - 1) / fs.inodesPerGroup) + fs.tableBlocks :=
  Nat.add_lt_add_left (recordBlock_lt tables.perBlock_pos number.index_lt) _

/-- **The divisions lead to the inode's place.** -/
theorem InodeTables.locate_eq (tables : InodeTables fs) (number : fs.Numbers n) :
    fs.locate n = .ok (some (fs.blockOf n, fs.startOf n)) := by
  have less : (n + (2 ^ 32 - 1)) % 2 ^ 32 = n - 1 := by
    have := number.1
    have := number.2.2
    omega
  have some : n ≠ 0 := by
    have := number.1
    omega
  have group : ¬ (n - 1) / fs.inodesPerGroup ≥ fs.groupsCount := not_le.mpr number.group_lt
  have perGroup := number.perGroup_pos.ne'
  have perBlock : fs.blockSize / fs.inodeSize ≠ 0 := tables.perBlock_pos.ne'
  have size : fs.inodeSize ≠ 0 := by
    have := tables.least
    omega
  have block := lt_of_lt_of_le (tables.blockOf_lt number) (tables.fits _ number.group_lt)
  have start := @InodeTables.startOf_le _ n tables
  have word := tables.word
  unfold inodeBytes at start
  simp only [Filesystem.locate, Filesystem.ext2GetInodeBlockGroup, Filesystem.ext2GetInodeIndex, divide,
    remainder, less, if_neg some, if_neg perGroup, if_neg group, if_neg size, if_neg perBlock,
    Outcome.ok_bind, Outcome.pure_eq]
  refine congrArg (fun place => Outcome.ok (Option.some place)) (Prod.ext ?_ ?_)
  · exact Nat.mod_eq_of_lt block
  · exact Nat.mod_eq_of_lt (show fs.startOf n < 2 ^ 32 by omega)

/-- **Two inodes share no byte.** -/
theorem InodeTables.disjoint (tables : InodeTables fs) (number : fs.Numbers n) (other : fs.Numbers m)
    (different : m ≠ n) : fs.blockOf m ≠ fs.blockOf n ∨ fs.startOf m + inodeBytes ≤ fs.startOf n ∨
      fs.startOf n + inodeBytes ≤ fs.startOf m := by
  have first := number.1
  have second := other.1
  by_cases group : (m - 1) / fs.inodesPerGroup = (n - 1) / fs.inodesPerGroup
  · have index : (m - 1) % fs.inodesPerGroup ≠ (n - 1) % fs.inodesPerGroup := by
      intro same
      have back := Nat.div_add_mod (m - 1) fs.inodesPerGroup
      rw [group, same, Nat.div_add_mod] at back
      omega
    rcases @records_apart fs.perBlock fs.inodeSize _ _ index with block | before | after
    · left
      unfold Filesystem.blockOf
      rw [group]
      omega
    · have := tables.least
      unfold Filesystem.startOf inodeBytes
      omega
    · have := tables.least
      unfold Filesystem.startOf inodeBytes
      omega
  · have mine := tables.blockOf_lt number
    have theirs := tables.blockOf_lt other
    have lowest : ∀ k, fs.inodeTable ((k - 1) / fs.inodesPerGroup) ≤ fs.blockOf k :=
      fun k => Nat.le_add_right _ _
    have low := lowest n
    have high := lowest m
    left
    rcases tables.apart _ other.group_lt _ number.group_lt group with before | after
    · omega
    · omega

end Location

/-! ### The store -/

section Store

variable {v : Volume} {fs : Filesystem} {n m : Nat} {x : Inode}

theorem Inode.byte_of_lt (x : Inode) (k : Fin inodeBytes) : x.byte k = x k := dif_pos k.isLt

theorem ext2ReadInode_eq (tables : InodeTables fs) (sound : Sound v) (number : fs.Numbers n) :
    ext2ReadInode v fs true n = .ok (some fun k => v.byte (fs.blockOf n) (fs.startOf n + k)) := by
  simp only [ext2ReadInode, tables.locate_eq number, Outcome.ok_bind, Volume.readBlock, sound.reads, if_true,
    Bool.true_eq_false, if_false, Outcome.pure_eq]

/-- The disk after an inode was written. -/
def Volume.putInode (v : Volume) (fs : Filesystem) (n : Nat) (x : Inode) : Volume :=
  v.store (fs.blockOf n) fs.blockSize
    (Memory.writeBytes (v.byte (fs.blockOf n)) (fs.startOf n) inodeBytes x.byte)

theorem ext2WriteInode_eq (tables : InodeTables fs) (sound : Sound v) (number : fs.Numbers n) :
    ext2WriteInode v fs true n x = .ok (v.putInode fs n x, 0) := by
  simp only [ext2WriteInode, tables.locate_eq number, Outcome.ok_bind, Volume.readBlock, sound.reads, if_true,
    Bool.true_eq_false, if_false, Outcome.pure_eq, Volume.writeBlock, sound.writes]
  rfl

theorem putInode_inside (tables : InodeTables fs) (k : Fin inodeBytes) :
    (v.putInode fs n x).byte (fs.blockOf n) (fs.startOf n + k) = x k := by
  have inside : fs.startOf n + k < fs.blockSize :=
    lt_of_lt_of_le (Nat.add_lt_add_left k.isLt _) tables.startOf_le
  show (if _ then _ else _) = _
  rw [if_pos ⟨rfl, inside⟩, Memory.writeBytes_inside _ _ _ _ k.isLt, Inode.byte_of_lt]

theorem putInode_outside {block offset : Nat} (outside : ¬ fs.Covers n block offset) :
    (v.putInode fs n x).byte block offset = v.byte block offset := by
  show (if _ then _ else _) = _
  split
  · rename_i here
    obtain ⟨rfl, -⟩ := here
    refine Memory.writeBytes_eqOn _ _ _ _ ?_
    by_contra within
    simp only [Set.mem_ofPred_eq] at within
    exact outside ⟨rfl, by omega, by omega⟩
  · rfl

/-- A number without an inode. -/
def Filesystem.Refuses (fs : Filesystem) (n : Nat) : Prop :=
  n = 0 ∨ ∃ group, fs.ext2GetInodeBlockGroup n = .ok group ∧ fs.groupsCount ≤ group

theorem Filesystem.Refuses.locate (refuses : fs.Refuses n) : fs.locate n = .ok none := by
  rcases refuses with rfl | ⟨group, here, beyond⟩
  · rfl
  · by_cases zero : n = 0
    · rw [zero]
      rfl
    · obtain ⟨perGroup, -⟩ := divide_eq_ok.mp here
      simp only [Filesystem.locate, if_neg zero, here, Outcome.ok_bind, Filesystem.ext2GetInodeIndex,
        remainder, if_neg perGroup, ge_iff_le, if_pos beyond, Outcome.pure_eq]

end Store

/-- **The inode store.** A write is read back, other inodes and every byte outside the inode stay as they
were, and numbers without an inode are refused with the disk untouched. -/
theorem inode_store {fs : Filesystem} (tables : InodeTables fs) {v : Volume} (sound : Sound v) (x : Inode) :
    (∀ n, fs.Numbers n → ∃ v', ext2WriteInode v fs true n x = .ok (v', 0) ∧
      ext2ReadInode v' fs true n = .ok (some x) ∧
      (∀ m, fs.Numbers m → m ≠ n → ext2ReadInode v' fs true m = ext2ReadInode v fs true m) ∧
      ∀ block offset, ¬ fs.Covers n block offset → v'.byte block offset = v.byte block offset) ∧
    ∀ granted n, fs.Refuses n →
      ext2ReadInode v fs granted n = .ok none ∧ ext2WriteInode v fs granted n x = .ok (v, -1) := by
  refine ⟨fun n number => ?_, fun granted n refuses => ?_⟩
  · have still : Sound (v.putInode fs n x) := ⟨sound.reads, sound.writes⟩
    refine ⟨v.putInode fs n x, ext2WriteInode_eq tables sound number, ?_, fun m other different => ?_,
      fun block offset => putInode_outside⟩
    · rw [ext2ReadInode_eq tables still number]
      refine congrArg (fun y => Outcome.ok (some y)) ?_
      funext k
      exact putInode_inside tables k
    · rw [ext2ReadInode_eq tables still other, ext2ReadInode_eq tables sound other]
      refine congrArg (fun y => Outcome.ok (some y)) ?_
      funext k
      refine putInode_outside fun covered => ?_
      obtain ⟨block, low, high⟩ := covered
      have small : (k : Nat) < inodeBytes := k.isLt
      rcases tables.disjoint number other different with apart | before | after
      · exact apart block
      · omega
      · omega
  · simp [ext2ReadInode, ext2WriteInode, refuses.locate]

/-- Two groups of 16 inodes of 256 bytes, with tables at the blocks 5 and 9. -/
def twoGroups : Filesystem where
  toExt2Fs := { smallFs with groupsCount := 2 }
  revLevel := 1
  sInodeSize := 256
  inodeTable := fun g => if g = 0 then 5 else 9

/-- A disk full of zeros. -/
def blankVolume : Volume where
  readable := fun _ => true
  writable := fun _ => true
  torn := fun _ => 0
  byte := fun _ _ => 0

theorem twoGroups_tables : InodeTables twoGroups :=
  ⟨by decide, by decide, by decide, by decide, by decide⟩

theorem blankVolume_sound : Sound blankVolume := ⟨fun _ => rfl, fun _ => rfl⟩

/-- Inode 17 is the first of the second group. -/
theorem inode_store_second : ∃ v', ext2WriteInode blankVolume twoGroups true 17 (fun _ => 7) = .ok (v', 0) ∧
    ext2ReadInode v' twoGroups true 17 = .ok (some fun _ => 7) ∧
    ext2ReadInode v' twoGroups true 18 = ext2ReadInode blankVolume twoGroups true 18 := by
  obtain ⟨v', written, back, others, -⟩ :=
    (inode_store twoGroups_tables blankVolume_sound fun _ => 7).1 17 (by decide)
  exact ⟨v', written, back, others 18 (by decide) (by decide)⟩

end Kfs.Disk
