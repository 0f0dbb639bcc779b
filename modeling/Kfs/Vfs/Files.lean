/-
**Reading files: `vfs_read` and its two backends.**

A node made from an inode reads through `ext2_read_inode_data`, a virtual file copies out of its content.
The contract is that of `vfs_virtual_read`: as many bytes as were asked for and the file still has, and
nothing stored beyond them (`ReadContract`). The ext2 backend does not look at the size of the file. So it
meets the contract exactly when the request ends inside the file; and a virtual file made without content
has no read operation at all: `read_contract_iff`.
-/

import Kfs.Disk.Data
import Kfs.Vfs.Mount

namespace Kfs.Vfs

open Kfs.Heap Kfs.Disk

/-- What `node->read` points to. -/
inductive ReadOp where
  | ext2
  | virtual
  deriving DecidableEq, Repr

/-- The fields of `vfs_node_t` that reading uses, with the content that `node->inode` of a virtual file
points to. -/
structure FileNode where
  type : FileType
  size : Nat
  ext2Inode : Inode
  data : Option (List UInt8)
  read : Option ReadOp

namespace FileNode

/-- `sizeof(vfs_node_t)`. -/
def nodeBytes : Nat := 456

/-- `sizeof(virtual_file_data_t)`. -/
def dataBytes : Nat := 8

/-- `vfs_create_node_from_ext2`, `none` for NULL. The arguments `buffer` and `node` say whether the block
buffer and the node could be allocated. -/
def vfsCreateNodeFromExt2 (v : Volume) (fs : Filesystem) (buffer node : Bool) (inodeNum : Nat) :
    Outcome (Option FileNode) := do
  match ← ext2ReadInode v fs buffer inodeNum with
  | none => return none
  | some inode =>
      if node = false then return none
      return some {
        type := ext2ToVfsType inode.mode
        size := inode.size
        ext2Inode := inode
        data := none
        read := some .ext2 }

/-- A node of a virtual file before its content is stored. -/
def blank : FileNode where
  type := .regular
  size := 0
  ext2Inode := fun _ => 0
  data := none
  read := none

/-- `vfs_create_virtual_file`, for a content of NULL or a C string. -/
def vfsCreateVirtualFile (h : HeapState) (content : Option (List UInt8)) :
    Outcome (HeapState × Option FileNode) := do
  let (h, node) ← kmalloc h nodeBytes
  if node = 0 then return (h, none)
  match content with
  | none => return (h, some blank)
  | some content => do
      let (h, data) ← kmalloc h dataBytes
      if data = 0 then return (h, some blank)
      let (h, text) ← kmalloc h (content.length + 1)
      if text = 0 then do
        let h ← kfree h data
        return (h, some blank)
      else
        return (h, some { blank with
          size := content.length
          data := some content
          read := some .virtual })

/-- `vfs_virtual_read`. -/
def vfsVirtualRead (node : FileNode) (r : Request) (m : Memory) : Memory × Int :=
  if r.buffer = 0 then (m, -1)
  else
    match node.data with
    | none => (m, 0)
    | some content =>
        if r.offset ≥ content.length then (m, 0)
        else
          let toRead :=
            if (r.offset + r.size) % 2 ^ 32 > content.length then content.length - r.offset else r.size
          (m.writeBytes r.buffer toRead fun k => content.getD (r.offset + k) 0, asInt toRead)

/-- `vfs_read`; `granted` says whether `ext2_read_inode_data` gets its block buffer. -/
def vfsRead (v : Volume) (fs : Filesystem) (node : FileNode) (r : Request) (granted : Bool) (m : Memory) :
    Outcome (Memory × Int) :=
  if r.buffer = 0 then .ok (m, -1)
  else
    match node.read with
    | none => .ok (m, -1)
    | some .ext2 => ext2ReadInodeData v fs node.ext2Inode r granted m
    | some .virtual => .ok (node.vfsVirtualRead r m)

/-- A regular file: made from an inode whose blocks are direct or singly indirect, or virtual. -/
inductive Regular (v : Volume) (fs : Filesystem) : FileNode → Prop
  | ext2 {node : FileNode} {inodeNum : Nat}
      (made : vfsCreateNodeFromExt2 v fs true true inodeNum = .ok (some node))
      (regular : node.type = .regular)
      (mapped : node.size ≤ (12 + fs.blockSize / 4) * fs.blockSize) : Regular v fs node
  | virtual {node : FileNode} {c : Client} {h : HeapState} {content : Option (List UInt8)}
      (reach : Reachable c) (text : ∀ s ∈ content, Heap.NoWrap (s.length + 1))
      (made : vfsCreateVirtualFile c.heap content = .ok (h, some node)) : Regular v fs node

/-- The bytes that a request gets from a file. -/
def available (node : FileNode) (r : Request) : Nat :=
  if r.offset < node.size then min r.size (node.size - r.offset) else 0

/-- **The read contract**: what is asked for and there is returned, and nothing beyond it is stored. -/
def ReadContract (v : Volume) (fs : Filesystem) (node : FileNode) (r : Request) (granted : Bool)
    (m : Memory) : Prop :=
  ∃ m', vfsRead v fs node r granted m = .ok (m', (node.available r : Int)) ∧
    Set.EqOn m' m {x | x < r.buffer ∨ r.buffer + node.available r ≤ x}

/-- The request ends inside a file on disk and gets its buffer, or the file is virtual with a content. -/
def Serves (node : FileNode) (r : Request) (granted : Bool) : Prop :=
  match node.read with
  | none => False
  | some .ext2 => granted = true ∧ (r.size = 0 ∨ r.offset + r.size ≤ node.size)
  | some .virtual => True

end FileNode

/-- The disk of a mounted filesystem whose blocks can be read: a block has the size the superblock says,
and a request for it fits the sector count of one byte. -/
structure ReadableDisk (v : Volume) (fs : Filesystem) : Prop where
  reads : ∀ b, v.readable b = true
  size : fs.blockSize = ext2GetBlockSize fs.superblock
  counted : fs.blockSize / sectorSize % 2 ^ 8 ≠ 0

section Read

variable {v : Volume} {fs : Filesystem} {node : FileNode} {r : Request} {granted : Bool} {m : Memory}
  {c : Client} {h : HeapState}

/-- What direct and singly indirect blocks can hold is less than 2 GiB. -/
theorem ReadableDisk.mapped_lt (disk : ReadableDisk v fs) :
    0 < fs.blockSize ∧ (12 + fs.blockSize / 4) * fs.blockSize < 2 ^ 31 := by
  have counted := disk.counted
  rw [disk.size] at counted ⊢
  revert counted
  unfold ext2GetBlockSize
  have small : fs.superblock.logBlockSize % 32 < 32 := Nat.mod_lt _ (by decide)
  interval_cases fs.superblock.logBlockSize % 32 <;> decide

/-- A block of the heap is no larger than the heap. -/
theorem kmalloc_bounded {l : List Segment} {h' : HeapState} {size ptr : Nat} (inv : HeapInv h l)
    (fits : Heap.NoWrap size) (done : kmalloc h size = .ok (h', ptr)) (given : ptr ≠ 0) :
    size ≤ heapSize := by
  obtain ⟨-, l', b, heap, member, -, rfl, room⟩ := kmalloc_block inv fits done given
  have inside := heap.bounds member
  simp only [heapEnd] at inside
  omega

theorem kmalloc_keeps {l : List Segment} {h' : HeapState} {size ptr : Nat} (inv : HeapInv h l)
    (fits : Heap.NoWrap size) (done : kmalloc h size = .ok (h', ptr)) : ∃ l', HeapInv h' l' := by
  rcases kmalloc_cases inv fits done with ⟨-, rfl⟩ | ⟨_, _, _, _, _, _, _, _, after⟩
  · exact ⟨l, inv⟩
  · exact ⟨_, after⟩

namespace FileNode

/-- **The two kinds of virtual files**: without a read operation and empty, or with a content that fits the
heap. -/
theorem vfsCreateVirtualFile_cases {h' : HeapState} {content : Option (List UInt8)} (reach : Reachable c)
    (text : ∀ s ∈ content, Heap.NoWrap (s.length + 1))
    (made : vfsCreateVirtualFile c.heap content = .ok (h', some node)) :
    node.read = none ∧ node.size = 0 ∨
      ∃ s, node.read = some .virtual ∧ node.data = some s ∧ node.size = s.length ∧ s.length < 2 ^ 31 := by
  obtain ⟨l, inv⟩ := reach.inv
  unfold vfsCreateVirtualFile at made
  obtain ⟨⟨h₁, ptr⟩, first, made⟩ := Outcome.bind_eq_ok.mp made
  simp only at made
  split at made
  · cases made
  · cases content with
    | none =>
        cases made
        exact .inl ⟨rfl, rfl⟩
    | some s =>
        obtain ⟨⟨h₂, data⟩, second, made⟩ := Outcome.bind_eq_ok.mp made
        simp only at made
        split at made
        · cases made
          exact .inl ⟨rfl, rfl⟩
        · obtain ⟨⟨h₃, ptr'⟩, third, made⟩ := Outcome.bind_eq_ok.mp made
          simp only at made
          split at made
          · obtain ⟨h₄, -, made⟩ := Outcome.bind_eq_ok.mp made
            cases made
            exact .inl ⟨rfl, rfl⟩
          · rename_i given
            cases made
            obtain ⟨l₁, inv₁⟩ := kmalloc_keeps inv.heap (by decide) first
            obtain ⟨l₂, inv₂⟩ := kmalloc_keeps inv₁ (by decide) second
            have bound := kmalloc_bounded inv₂ (text s rfl) third given
            simp only [heapSize] at bound
            exact .inr ⟨s, rfl, rfl, rfl, by omega⟩

theorem vfsCreateNodeFromExt2_read {buffer granted : Bool} {inodeNum : Nat}
    (made : vfsCreateNodeFromExt2 v fs buffer granted inodeNum = .ok (some node)) :
    node.read = some .ext2 := by
  unfold vfsCreateNodeFromExt2 at made
  obtain ⟨inode, -, made⟩ := Outcome.bind_eq_ok.mp made
  cases inode with
  | none => cases made
  | some inode =>
      simp only at made
      split at made
      · cases made
      · cases made
        rfl

/-- A virtual file with a content meets the contract. -/
theorem virtual_contract {s : List UInt8} (stored : r.buffer ≠ 0) (nowrap : r.NoWrap fs)
    (read : node.read = some .virtual) (data : node.data = some s) (size : node.size = s.length)
    (small : s.length < 2 ^ 31) : ReadContract v fs node r granted m := by
  unfold ReadContract
  simp only [vfsRead, if_neg stored, read, vfsVirtualRead, data, available, size]
  by_cases beyond : r.offset ≥ s.length
  · rw [if_pos beyond, if_neg (not_lt.mpr beyond)]
    exact ⟨m, rfl, Set.eqOn_refl _ _⟩
  · have end_lt : (r.offset + r.size) % 2 ^ 32 = r.offset + r.size := by
      unfold Request.NoWrap at nowrap
      omega
    have count : (if (r.offset + r.size) % 2 ^ 32 > s.length then s.length - r.offset else r.size) =
        min r.size (s.length - r.offset) := by
      rw [end_lt]
      split <;> omega
    rw [if_neg beyond, if_pos (not_le.mp beyond), count, asInt_of_lt (by omega)]
    exact ⟨_, rfl, Memory.writeBytes_eqOn _ _ _ _⟩

/-- **The ext2 backend** returns what was asked for. -/
theorem ext2_contract_iff (disk : ReadableDisk v fs) (stored : r.buffer ≠ 0) (nowrap : r.NoWrap fs)
    (read : node.read = some .ext2) (mapped : node.size ≤ (12 + fs.blockSize / 4) * fs.blockSize) :
    ReadContract v fs node r granted m ↔
      granted = true ∧ (r.size = 0 ∨ r.offset + r.size ≤ node.size) := by
  obtain ⟨positive, bound⟩ := disk.mapped_lt
  unfold ReadContract
  simp only [vfsRead, if_neg stored, read]
  cases granted with
  | false =>
      have failed : ext2ReadInodeData v fs node.ext2Inode r false m = .ok (m, -1) := by
        simp [ext2ReadInodeData, divide, positive.ne']
      rw [failed]
      constructor
      · rintro ⟨m', returned, -⟩
        have := (Prod.mk.inj (Outcome.ok.inj returned)).2
        omega
      · rintro ⟨none, -⟩
        cases none
  | true =>
      obtain ⟨m', done, frame⟩ := @readInodeData_whole _ _ node.ext2Inode _ disk.reads positive nowrap m
      rw [done]
      unfold Request.NoWrap at nowrap
      constructor
      · rintro ⟨m'', returned, -⟩
        have count := asInt_eq_natCast (by omega) (Prod.mk.inj (Outcome.ok.inj returned)).2
        refine ⟨rfl, ?_⟩
        unfold available at count
        split at count <;> omega
      · rintro ⟨-, inside⟩
        have count : node.available r = r.size := by
          unfold available
          split <;> omega
        refine ⟨m', ?_, ?_⟩
        · rw [count, asInt_of_lt (by omega)]
        · rw [count]
          exact frame

end FileNode

/-- **Exactly when a read honours the contract.** -/
theorem read_contract_iff (disk : ReadableDisk v fs) (file : node.Regular v fs) (stored : r.buffer ≠ 0)
    (nowrap : r.NoWrap fs) : node.ReadContract v fs r granted m ↔ node.Serves r granted := by
  cases file with
  | ext2 made regular mapped =>
      have read := FileNode.vfsCreateNodeFromExt2_read made
      rw [FileNode.ext2_contract_iff disk stored nowrap read mapped]
      simp only [FileNode.Serves, read]
  | virtual reach text made =>
      rcases FileNode.vfsCreateVirtualFile_cases reach text made with
        ⟨none, empty⟩ | ⟨s, read, data, size, small⟩
      · simp only [FileNode.Serves, none, iff_false, FileNode.ReadContract, FileNode.vfsRead, if_neg stored]
        rintro ⟨m', returned, -⟩
        have := (Prod.mk.inj (Outcome.ok.inj returned)).2
        omega
      · simp only [FileNode.Serves, read, iff_true]
        exact FileNode.virtual_contract stored nowrap read data size small

end Read

/-- A disk on which inode 1 is a regular file of five bytes in block 20. -/
def fiveByteDisk : Volume :=
  { blankVolume with
    byte := fun b x =>
      if b = 5 then if x = 1 then 0x80 else if x = 4 then 5 else if x = 40 then 20 else 0
      else if b = 20 then UInt8.ofNat (x + 1)
      else 0 }

/-- The node of that file. -/
def fiveBytes : FileNode where
  type := .regular
  size := 5
  ext2Inode := fun k => fiveByteDisk.byte 5 k
  data := none
  read := some .ext2

theorem fiveBytes_made :
    FileNode.vfsCreateNodeFromExt2 fiveByteDisk twoGroups true true 1 = .ok (some fiveBytes) := by
  have read : ext2ReadInode fiveByteDisk twoGroups true 1 = .ok (some fiveBytes.ext2Inode) := by
    rw [ext2ReadInode_eq twoGroups_tables ⟨fun _ => rfl, fun _ => rfl⟩ (by decide)]
    refine congrArg (fun y => Outcome.ok (some y)) ?_
    funext k
    exact congrArg (fiveByteDisk.byte 5) (Nat.zero_add _)
  have type : ext2ToVfsType (Inode.mode fiveBytes.ext2Inode) = .regular := by decide +kernel
  have size : Inode.size fiveBytes.ext2Inode = 5 := by decide +kernel
  simp only [FileNode.vfsCreateNodeFromExt2, read, Outcome.ok_bind, type, size]
  rfl

theorem fiveBytes_regular : fiveBytes.Regular fiveByteDisk twoGroups :=
  .ext2 fiveBytes_made rfl (by decide)

theorem fiveByteDisk_readable : ReadableDisk fiveByteDisk twoGroups := ⟨fun _ => rfl, by decide, by decide⟩

theorem read_contract_inside : fiveBytes.ReadContract fiveByteDisk twoGroups ⟨2, 3, 0x1000⟩ true (fun _ => 0) :=
  (read_contract_iff fiveByteDisk_readable fiveBytes_regular (by decide) (by decide)).mpr
    ⟨rfl, .inr (by decide)⟩

/-- A read of ten bytes of that file returns ten. -/
theorem read_past_end : fiveBytes.Regular fiveByteDisk twoGroups ∧ ReadableDisk fiveByteDisk twoGroups ∧
    Request.NoWrap ⟨0, 10, 0x1000⟩ twoGroups ∧
    (∃ m', fiveBytes.vfsRead fiveByteDisk twoGroups ⟨0, 10, 0x1000⟩ true (fun _ => 0) = .ok (m', 10)) ∧
    ¬ fiveBytes.ReadContract fiveByteDisk twoGroups ⟨0, 10, 0x1000⟩ true (fun _ => 0) := by
  obtain ⟨m', done, -⟩ := @readInodeData_whole _ twoGroups fiveBytes.ext2Inode ⟨0, 10, 0x1000⟩
    fiveByteDisk_readable.reads (by decide) (by decide) fun _ => 0
  refine ⟨fiveBytes_regular, fiveByteDisk_readable, by decide, ⟨m', done⟩, ?_⟩
  rintro ⟨m'', returned, -⟩
  have equal := done.symm.trans returned
  exact absurd (Prod.mk.inj (Outcome.ok.inj equal)).2 (by decide)

end Kfs.Vfs
