/-
**Mounting and unmounting with the nodes in the heap.**

Here a node is the pointer that `kmalloc` gave for it, and the mount table is the array of the source with
its count. `vfs_mount` stores behind the last entry; `vfs_unmount` frees the node of the first entry with
the path and moves the entries behind it down.

The entries of a reachable table designate live nodes, no two the same (`MountTable.keeps`). So unmounting
takes out the entry just mounted exactly when the path was not mounted before, and the VFS root is left
dangling exactly by unmounting the entry it was taken from: `unmount_undoes_iff`. That entry exists only if
`vfs_init` could not allocate its virtual root (`vfsInit_initial`, `root_live_of_virtual`). On the paths and
filesystems of the table the functions on lists are refined (`vfsMount_refines`, `vfsUnmount_refines`).
-/

import Kfs.Base.Slots
import Kfs.Heap.Payload
import Kfs.Vfs.Files
import Kfs.Vfs.Mount

namespace Kfs.Vfs

open Kfs.Heap Kfs.Disk

/-- `vfs_mount_t`, with the pointers to the node and to the filesystem. -/
structure MountSlot where
  path : CString
  node : Nat
  fs : Nat
  deriving DecidableEq, Repr

/-- `vfs_state_t` with the pointer to the root, and the kernel heap. -/
structure MountTable where
  heap : Client
  root : Nat
  mounts : Slots MountSlot

namespace MountTable

section Functions

/-- `ext2_read_inode` with its block buffer from the heap. What is stored in the buffer is inside it, and left
out. -/
def ext2ReadInodeIn (c : Client) (v : Volume) (fs : Filesystem) (inodeNum : Nat) :
    Outcome (Client × Option Inode) := do
  match ← fs.locate inodeNum with
  | none => return (c, none)
  | some (blockNum, blockOffset) => do
      let (c, blockBuffer) ← c.take fs.blockSize
      if blockBuffer = 0 then return (c, none)
      match v.readBlock blockNum with
      | none => do
          let c ← c.give blockBuffer
          return (c, none)
      | some buffer => do
          let c ← c.give blockBuffer
          return (c, some fun k => buffer (blockOffset + k))

/-- `vfs_create_node_from_ext2`: the pointer to the node, 0 for NULL. -/
def vfsCreateNodeFromExt2 (c : Client) (v : Volume) (fs : Filesystem) (inodeNum : Nat) :
    Outcome (Client × Nat) := do
  let (c, inode) ← ext2ReadInodeIn c v fs inodeNum
  match inode with
  | none => return (c, 0)
  | some _ => c.take FileNode.nodeBytes

/-- What stands at a pointer to an `ext2_filesystem_t`, with the disk it is on. -/
abbrev Disks := Nat → Volume × Filesystem

variable (disks : Disks) (t : MountTable)

/-- `vfs_mount`; `none` is a path of NULL. -/
def vfsMount (path : Option CString) (fs : Nat) : Outcome (MountTable × Int) := do
  match path with
  | none => return (t, -1)
  | some path => do
      if fs = 0 ∨ t.mounts.count ≥ maxMounts then return (t, -1)
      let (c, rootNode) ← vfsCreateNodeFromExt2 t.heap (disks fs).1 (disks fs).2 (disks fs).2.rootInode
      if rootNode = 0 then return ({ t with heap := c }, -1)
      return ({
        heap := c
        root := if path = ['/'] ∧ t.root = 0 then rootNode else t.root
        mounts := t.mounts.push ⟨field path, rootNode, fs⟩ }, 0)

/-- `vfs_unmount`. -/
def vfsUnmount (path : Option CString) : Outcome (MountTable × Int) := do
  match path with
  | none => return (t, -1)
  | some path =>
      match t.mounts.first fun slot => slot.path = path with
      | none => return (t, -1)
      | some i => do
          let c ← t.heap.give (t.mounts.cell i).node
          return ({ t with heap := c, mounts := t.mounts.remove i }, 0)

/-- `vfs_create_virtual_dir`: the pointer to the node. -/
def vfsCreateVirtualDir (c : Client) : Outcome (Client × Nat) := c.take FileNode.nodeBytes

/-- `vfs_create_virtual_file` of a content of some length. -/
def vfsCreateVirtualFile (c : Client) (length : Nat) : Outcome (Client × Nat) := do
  let (c, node) ← c.take FileNode.nodeBytes
  if node = 0 then return (c, 0)
  let (c, data) ← c.take FileNode.dataBytes
  if data = 0 then return (c, node)
  let (c, content) ← c.take (length + 1)
  if content = 0 then do
    let c ← c.give data
    return (c, node)
  else return (c, node)

/-- `vfs_init`: a virtual root, three directories and a file of 39 characters. -/
def vfsInit (c : Client) : Outcome MountTable := do
  let (c, root) ← vfsCreateVirtualDir c
  let (c, _) ← vfsCreateVirtualDir c
  let (c, _) ← vfsCreateVirtualDir c
  let (c, _) ← vfsCreateVirtualDir c
  let (c, _) ← vfsCreateVirtualFile c 39
  return ⟨c, root, ⟨fun _ => ⟨[], 0, 0⟩, 0⟩⟩

end Functions

/-- An operation on the table. -/
inductive Op where
  | mount (path : Option CString) (fs : Nat)
  | unmount (path : Option CString)
  deriving DecidableEq, Repr

/-- Run one operation. -/
def Op.exec (disks : Disks) (t : MountTable) : Op → Outcome (MountTable × Int)
  | mount path fs => t.vfsMount disks path fs
  | unmount path => t.vfsUnmount path

/-- One operation that returns. -/
def Step (disks : Disks) (t : MountTable) (op : Op) (t' : MountTable) : Prop :=
  ∃ result, op.exec disks t = .ok (t', result)

/-- An empty table, as `vfs_init` leaves it: the virtual root is NULL if it could not be allocated. -/
structure Initial (t : MountTable) : Prop where
  reach : Reachable t.heap
  empty : t.mounts.count = 0
  root : t.root = 0 ∨ t.root ∈ t.heap.live

/-- **A mount table**: its entries designate live nodes, no two the same. -/
structure Inv (t : MountTable) : Prop where
  reach : Reachable t.heap
  most : t.mounts.count ≤ maxMounts
  live : ∀ slot ∈ t.mounts.toList, slot.node ∈ t.heap.live
  nodup : (t.mounts.toList.map MountSlot.node).Nodup

/-- The VFS root is NULL or designates a live node. -/
def RootLive (t : MountTable) : Prop := t.root = 0 ∨ t.root ∈ t.heap.live

/-- The entry that an operation takes out is not the one whose node is the VFS root. -/
def KeepsRoot (t : MountTable) (op : Op) : Prop :=
  ∀ path i, op = .unmount (some path) → (t.mounts.first fun slot => slot.path = path) = some i →
    (t.mounts.cell i).node ≠ t.root

/-- Unmounting a path after a mount restores the table. -/
def Undone (t t' : MountTable) (path : CString) : Prop :=
  ∃ t'', t'.vfsUnmount (some path) = .ok (t'', 0) ∧ t''.mounts.toList = t.mounts.toList

/-- The filesystems have the block size that `ext2_init` computes. -/
def Sized (disks : Disks) : Prop := ∀ fs, (disks fs).2.blockSize = ext2GetBlockSize (disks fs).2.superblock

section Steps

variable {disks : Disks} {t t' : MountTable} {c d : Client} {v : Volume} {fs : Filesystem}
  {inodeNum ptr : Nat} {result : Int}

/-- A block size is a power of two, or 0. -/
theorem noWrap_blockSize (sized : fs.blockSize = ext2GetBlockSize fs.superblock) :
    Heap.NoWrap fs.blockSize := by
  rw [sized, ext2GetBlockSize, show (1024 : Nat) = 2 ^ 10 from rfl, ← pow_add]
  generalize fs.superblock.logBlockSize % 32 = k
  unfold Heap.NoWrap blockHeaderSize
  rcases Nat.lt_or_ge (10 + k) 32 with low | high
  · have most : 2 ^ (10 + k) ≤ 2 ^ 31 := Nat.pow_le_pow_right (by decide) (by omega)
    have less := Nat.mod_le (2 ^ (10 + k)) (2 ^ 32)
    omega
  · have zero : 2 ^ (10 + k) % 2 ^ 32 = 0 := Nat.mod_eq_zero_of_dvd (pow_dvd_pow 2 high)
    omega

/-- **`ext2_read_inode`** gives its block buffer back. -/
theorem ext2ReadInodeIn_ok {inode : Option Inode} (reach : Reachable c) (fits : Heap.NoWrap fs.blockSize)
    (read : ext2ReadInodeIn c v fs inodeNum = .ok (d, inode)) : Reachable d ∧ d.live = c.live := by
  have back : ∀ {x y : Client} {b : Nat}, Reachable x → x.live = b :: c.live → x.give b = .ok y →
      Reachable y ∧ y.live = c.live := by
    intro x y b reach' live given
    obtain ⟨reached, erased⟩ := Client.give_ok reach' (live ▸ List.mem_cons_self) given
    exact ⟨reached, by rw [erased, live, List.erase_cons_head]⟩
  unfold ext2ReadInodeIn at read
  obtain ⟨place, _, read⟩ := Outcome.bind_eq_ok.mp read
  cases place with
  | none =>
      cases read
      exact ⟨reach, rfl⟩
  | some place =>
      obtain ⟨⟨x, b⟩, taken, read⟩ := Outcome.bind_eq_ok.mp read
      obtain ⟨reach', books⟩ := Client.take_ok reach fits taken
      simp only at read
      rcases books with ⟨null, live⟩ | ⟨some', -, live⟩
      · rw [if_pos null] at read
        cases read
        exact ⟨reach', live⟩
      · rw [if_neg some'] at read
        split at read
        · obtain ⟨y, given, last⟩ := Outcome.bind_eq_ok.mp read
          cases last
          exact back reach' live given
        · obtain ⟨y, given, last⟩ := Outcome.bind_eq_ok.mp read
          cases last
          exact back reach' live given

/-- **Refinement of `ext2_read_inode`**: the heap decides whether the buffer is granted. -/
theorem ext2ReadInodeIn_refines {inode : Option Inode} (read : ext2ReadInodeIn c v fs inodeNum = .ok (d, inode)) :
    ∃ granted, ext2ReadInode v fs granted inodeNum = .ok inode := by
  unfold ext2ReadInodeIn at read
  obtain ⟨place, located, read⟩ := Outcome.bind_eq_ok.mp read
  cases place with
  | none =>
      cases read
      exact ⟨true, by rw [ext2ReadInode, located]; rfl⟩
  | some place =>
      obtain ⟨⟨x, b⟩, -, read⟩ := Outcome.bind_eq_ok.mp read
      simp only at read
      split at read
      · cases read
        exact ⟨false, by rw [ext2ReadInode, located]; rfl⟩
      · refine ⟨true, ?_⟩
        rw [ext2ReadInode, located]
        split at read
        · rename_i unread
          obtain ⟨y, -, last⟩ := Outcome.bind_eq_ok.mp read
          cases last
          simp [unread]
        · rename_i buffer stored
          obtain ⟨y, -, last⟩ := Outcome.bind_eq_ok.mp read
          cases last
          simp [stored]

/-- **A new node** is none of the live blocks. -/
theorem vfsCreateNodeFromExt2_ok (reach : Reachable c) (fits : Heap.NoWrap fs.blockSize)
    (made : vfsCreateNodeFromExt2 c v fs inodeNum = .ok (d, ptr)) :
    Reachable d ∧ (ptr = 0 ∧ d.live = c.live ∨ ptr ≠ 0 ∧ ptr ∉ c.live ∧ d.live = ptr :: c.live) := by
  obtain ⟨⟨x, inode⟩, read, made⟩ := Outcome.bind_eq_ok.mp made
  obtain ⟨reach', live⟩ := ext2ReadInodeIn_ok reach fits read
  cases inode with
  | none =>
      cases made
      exact ⟨reach', .inl ⟨rfl, live⟩⟩
  | some inode =>
      rw [← live]
      exact Client.take_ok reach' (by decide) made

/-- **What `vfs_mount` does**: nothing to the table, or a new entry behind the last. -/
theorem vfsMount_cases {path : Option CString} {fs : Nat} (reach : Reachable t.heap) (sized : Sized disks)
    (done : t.vfsMount disks path fs = .ok (t', result)) :
    Reachable t'.heap ∧
      (result = -1 ∧ t'.mounts = t.mounts ∧ t'.root = t.root ∧ t'.heap.live = t.heap.live ∨
        ∃ p node, path = some p ∧ result = 0 ∧ t.mounts.count < maxMounts ∧ node ≠ 0 ∧ node ∉ t.heap.live ∧
          t'.heap.live = node :: t.heap.live ∧ t'.mounts = t.mounts.push ⟨field p, node, fs⟩ ∧
          t'.root = if p = ['/'] ∧ t.root = 0 then node else t.root) := by
  unfold vfsMount at done
  cases path with
  | none =>
      cases done
      exact ⟨reach, .inl ⟨rfl, rfl, rfl, rfl⟩⟩
  | some p =>
      simp only at done
      by_cases refused : fs = 0 ∨ t.mounts.count ≥ maxMounts
      · rw [if_pos refused] at done
        cases done
        exact ⟨reach, .inl ⟨rfl, rfl, rfl, rfl⟩⟩
      · rw [if_neg refused] at done
        obtain ⟨⟨d, node⟩, made, done⟩ := Outcome.bind_eq_ok.mp done
        obtain ⟨reach', books⟩ := vfsCreateNodeFromExt2_ok reach (noWrap_blockSize (sized fs)) made
        simp only at done
        rcases books with ⟨null, live⟩ | ⟨some', fresh, live⟩
        · rw [if_pos null] at done
          cases done
          exact ⟨reach', .inl ⟨rfl, rfl, rfl, live⟩⟩
        · rw [if_neg some'] at done
          cases done
          exact ⟨reach', .inr ⟨p, node, rfl, rfl, by omega, some', fresh, live, rfl, rfl⟩⟩

/-- **What `vfs_unmount` does**: nothing, or it frees the node of the first entry with the path and takes
the entry out. -/
theorem vfsUnmount_cases {path : Option CString} (inv : t.Inv)
    (done : t.vfsUnmount path = .ok (t', result)) :
    (result = -1 ∧ t' = t ∧ ∀ p, path = some p → (t.mounts.first fun slot => slot.path = p) = none) ∨
      ∃ p i, path = some p ∧ result = 0 ∧ (t.mounts.first fun slot => slot.path = p) = some i ∧
        i < t.mounts.count ∧ Reachable t'.heap ∧
        t'.heap.live = t.heap.live.erase (t.mounts.cell i).node ∧ t'.mounts = t.mounts.remove i ∧
        t'.root = t.root := by
  unfold vfsUnmount at done
  cases path with
  | none =>
      cases done
      exact .inl ⟨rfl, rfl, fun p same => by cases same⟩
  | some p =>
      simp only at done
      split at done
      · rename_i none'
        cases done
        exact .inl ⟨rfl, rfl, fun q same => Option.some.inj same ▸ none'⟩
      · rename_i i found
        obtain ⟨below, -, -⟩ := Slots.first_some found
        obtain ⟨d, given, last⟩ := Outcome.bind_eq_ok.mp done
        cases last
        obtain ⟨reach', live⟩ :=
          Client.give_ok inv.reach (inv.live _ (Slots.mem_toList.mpr ⟨i, below, rfl⟩)) given
        exact .inr ⟨p, i, rfl, rfl, found, below, reach', live, rfl, rfl⟩

end Steps

section Invariant

variable {disks : Disks} {t t' : MountTable} {op : Op} {result : Int}

theorem Initial.inv (initial : t.Initial) : t.Inv := by
  have none' : t.mounts.toList = [] := List.length_eq_zero_iff.mp (Slots.toList_length.trans initial.empty)
  refine ⟨initial.reach, by rw [initial.empty]; exact Nat.zero_le _, fun slot member => ?_, ?_⟩
  · rw [none'] at member
    cases member
  · rw [none']
    exact List.nodup_nil

/-- Allocations leave what is live alone. -/
structure Keeps (c d : Client) : Prop where
  reach : Reachable d
  live : c.live ⊆ d.live

theorem Keeps.trans {c d e : Client} (first : Keeps c d) (second : Keeps d e) : Keeps c e :=
  ⟨second.reach, List.Subset.trans first.live second.live⟩

theorem take_keeps {c d : Client} {size ptr : Nat} (reach : Reachable c) (fits : Heap.NoWrap size)
    (taken : c.take size = .ok (d, ptr)) : Keeps c d ∧ (ptr = 0 ∨ ptr ∈ d.live) := by
  obtain ⟨reach', ⟨null, live⟩ | ⟨-, -, live⟩⟩ := Client.take_ok reach fits taken
  · exact ⟨⟨reach', by rw [live]; exact List.Subset.refl _⟩, .inl null⟩
  · exact ⟨⟨reach', by rw [live]; exact List.subset_cons_self _ _⟩, .inr (live ▸ List.mem_cons_self)⟩

theorem vfsCreateVirtualFile_keeps {c d : Client} {length ptr : Nat} (reach : Reachable c)
    (fits : Heap.NoWrap (length + 1)) (made : vfsCreateVirtualFile c length = .ok (d, ptr)) : Keeps c d := by
  unfold vfsCreateVirtualFile at made
  obtain ⟨⟨c₁, node⟩, first, made⟩ := Outcome.bind_eq_ok.mp made
  obtain ⟨keeps₁, -⟩ := take_keeps reach (by decide) first
  simp only at made
  split at made
  · cases made
    exact keeps₁
  · obtain ⟨⟨c₂, data⟩, second, made⟩ := Outcome.bind_eq_ok.mp made
    obtain ⟨reach₂, books⟩ := Client.take_ok keeps₁.reach (by decide) second
    obtain ⟨keeps₂, -⟩ := take_keeps keeps₁.reach (by decide) second
    simp only at made
    split at made
    · cases made
      exact keeps₁.trans keeps₂
    · rename_i some'
      obtain ⟨⟨c₃, content⟩, third, made⟩ := Outcome.bind_eq_ok.mp made
      obtain ⟨keeps₃, -⟩ := take_keeps reach₂ fits third
      simp only at made
      split at made
      · obtain ⟨c₄, given, last⟩ := Outcome.bind_eq_ok.mp made
        cases last
        obtain ⟨null, -⟩ | ⟨-, fresh, live⟩ := books
        · exact absurd null some'
        · obtain ⟨reach₄, erased⟩ :=
            Client.give_ok keeps₃.reach (keeps₃.live (live ▸ List.mem_cons_self)) given
          refine ⟨reach₄, fun p member => ?_⟩
          have old := keeps₁.live member
          rw [erased]
          have other : p ≠ data := by
            rintro rfl
            exact fresh old
          refine (List.mem_erase_of_ne other).mpr (keeps₃.live ?_)
          exact live ▸ List.mem_cons_of_mem _ old
      · cases made
        exact (keeps₁.trans keeps₂).trans keeps₃

/-- **`vfs_init` leaves an empty table.** -/
theorem vfsInit_initial {c : Client} (reach : Reachable c) (done : vfsInit c = .ok t) : t.Initial := by
  unfold vfsInit vfsCreateVirtualDir at done
  obtain ⟨⟨c₁, root⟩, first, done⟩ := Outcome.bind_eq_ok.mp done
  obtain ⟨⟨c₂, dev⟩, second, done⟩ := Outcome.bind_eq_ok.mp done
  obtain ⟨⟨c₃, tmp⟩, third, done⟩ := Outcome.bind_eq_ok.mp done
  obtain ⟨⟨c₄, home⟩, fourth, done⟩ := Outcome.bind_eq_ok.mp done
  obtain ⟨⟨c₅, test⟩, fifth, done⟩ := Outcome.bind_eq_ok.mp done
  cases done
  obtain ⟨keeps₁, live⟩ := take_keeps reach (by decide) first
  obtain ⟨keeps₂, -⟩ := take_keeps keeps₁.reach (by decide) second
  obtain ⟨keeps₃, -⟩ := take_keeps keeps₂.reach (by decide) third
  obtain ⟨keeps₄, -⟩ := take_keeps keeps₃.reach (by decide) fourth
  have keeps₅ := vfsCreateVirtualFile_keeps keeps₄.reach (by decide) fifth
  have kept := ((keeps₂.trans keeps₃).trans keeps₄).trans keeps₅
  exact ⟨keeps₅.reach, rfl, live.imp_right fun member => kept.live member⟩

/-- A mounted entry is new. -/
theorem Inv.mount {path : Option CString} {fs : Nat} (inv : t.Inv) (sized : Sized disks)
    (done : t.vfsMount disks path fs = .ok (t', result)) : t'.Inv := by
  obtain ⟨reach, same | ⟨p, node, -, -, room, -, fresh, live, mounts, -⟩⟩ :=
    vfsMount_cases inv.reach sized done
  · obtain ⟨-, mounts, -, live⟩ := same
    exact ⟨reach, mounts ▸ inv.most, by rw [mounts, live]; exact inv.live, mounts ▸ inv.nodup⟩
  · have entries : t'.mounts.toList = t.mounts.toList ++ [⟨field p, node, fs⟩] := by
      rw [mounts, Slots.push_toList]
    refine ⟨reach, ?_, fun slot member => ?_, ?_⟩
    · rw [mounts]
      exact room
    · rw [live]
      rw [entries] at member
      rcases List.mem_append.mp member with old | new
      · exact List.mem_cons_of_mem _ (inv.live slot old)
      · rw [List.mem_singleton.mp new]
        exact List.mem_cons_self
    · rw [entries, List.map_append, List.nodup_append_comm]
      refine List.nodup_cons.mpr ⟨fun member => ?_, inv.nodup⟩
      obtain ⟨slot, old, same⟩ := List.mem_map.mp member
      have live' := inv.live slot old
      rw [same] at live'
      exact fresh live'

/-- The entries that an unmount leaves have other nodes than the one it frees. -/
theorem Inv.unmount {path : Option CString} (inv : t.Inv)
    (done : t.vfsUnmount path = .ok (t', result)) : t'.Inv := by
  rcases vfsUnmount_cases inv done with ⟨-, rfl, -⟩ | ⟨p, i, -, -, -, below, reach, live, mounts, -⟩
  · exact inv
  · have entries : t'.mounts.toList = t.mounts.toList.eraseIdx i := by rw [mounts, Slots.remove_toList below]
    have sub : t'.mounts.toList.Sublist t.mounts.toList := entries ▸ List.eraseIdx_sublist _ _
    have cell : (t.mounts.toList)[i]? = some (t.mounts.cell i) := by rw [Slots.toList_getElem?, if_pos below]
    refine ⟨reach, ?_, fun slot member => ?_, inv.nodup.sublist (sub.map _)⟩
    · have fewer : t'.mounts.count ≤ t.mounts.count := by rw [mounts]; exact Nat.sub_le _ _
      exact le_trans fewer inv.most
    · have other : slot.node ≠ (t.mounts.cell i).node := by
        rw [entries] at member
        obtain ⟨j, away, at_j⟩ := List.mem_eraseIdx_iff_getElem?.mp member
        intro same
        have nodes : (t.mounts.toList.map MountSlot.node)[j]? = (t.mounts.toList.map MountSlot.node)[i]? := by
          rw [List.getElem?_map, List.getElem?_map, at_j, cell, Option.map_some, Option.map_some, same]
        have small : j < (t.mounts.toList.map MountSlot.node).length := by
          rw [List.length_map]
          exact (List.getElem?_eq_some_iff.mp at_j).1
        exact away ((List.getElem?_inj small inv.nodup).mp nodes)
      rw [live]
      exact (List.mem_erase_of_ne other).mpr (inv.live slot (sub.subset member))

/-- **Every operation keeps the mount table well formed.** -/
theorem Step.inv (step : Step disks t op t') (inv : t.Inv) (sized : Sized disks) : t'.Inv := by
  obtain ⟨result, done⟩ := step
  cases op with
  | mount path fs => exact inv.mount sized done
  | unmount path => exact inv.unmount done

/-- **The VFS root stays live** exactly when its entry is not taken out. -/
theorem Step.root_iff (step : Step disks t op t') (inv : t.Inv) (sized : Sized disks) (root : t.RootLive) :
    t'.RootLive ↔ t.KeepsRoot op := by
  obtain ⟨result, done⟩ := step
  cases op with
  | mount path fs =>
      refine iff_of_true ?_ fun p i same => by cases same
      obtain ⟨-, same | ⟨p, node, -, -, -, -, -, live, -, root'⟩⟩ := vfsMount_cases inv.reach sized done
      · unfold RootLive
        rw [same.2.2.1, same.2.2.2]
        exact root
      · unfold RootLive
        rw [root', live]
        split
        · exact .inr List.mem_cons_self
        · exact root.imp_right (List.mem_cons_of_mem _)
  | unmount path =>
      rcases vfsUnmount_cases inv done with ⟨-, rfl, missing⟩ | ⟨p, i, rfl, -, found, below, -, live, -, root'⟩
      · refine iff_of_true root fun p i same found => ?_
        cases same
        rw [missing p rfl] at found
        cases found
      · unfold RootLive
        rw [root', live]
        have freed := inv.live _ (Slots.mem_toList.mpr ⟨i, below, rfl⟩)
        constructor
        · rintro live' q j same found'
          cases same
          obtain rfl := Option.some.inj (found.symm.trans found')
          intro here
          rcases live' with null | member
          · exact Client.live_ne_zero inv.reach freed (here.trans null)
          · rw [here] at member
            exact (Client.live_nodup inv.reach).not_mem_erase member
        · intro keeps
          have other := keeps p i rfl found
          exact root.imp_right fun member => (List.mem_erase_of_ne (Ne.symm other)).mpr member

/-- A VFS root that is live and no entry's node stays so. -/
theorem Step.root_apart (step : Step disks t op t') (inv : t.Inv) (sized : Sized disks) (some' : t.root ≠ 0)
    (live : t.root ∈ t.heap.live) (other : ∀ slot ∈ t.mounts.toList, slot.node ≠ t.root) :
    t'.root = t.root ∧ ∀ slot ∈ t'.mounts.toList, slot.node ≠ t'.root := by
  obtain ⟨result, done⟩ := step
  cases op with
  | mount path fs =>
      obtain ⟨-, same | ⟨p, node, -, -, -, -, fresh, -, mounts, root'⟩⟩ := vfsMount_cases inv.reach sized done
      · rw [same.2.1, same.2.2.1]
        exact ⟨rfl, other⟩
      · rw [if_neg fun both => some' both.2] at root'
        refine ⟨root', fun slot member => ?_⟩
        rw [root']
        rw [mounts, Slots.push_toList] at member
        rcases List.mem_append.mp member with old | new
        · exact other slot old
        · rw [List.mem_singleton.mp new]
          exact fun same => fresh (show node ∈ _ from (show node = t.root from same) ▸ live)
  | unmount path =>
      rcases vfsUnmount_cases inv done with ⟨-, rfl, -⟩ | ⟨p, i, -, -, -, below, -, -, mounts, root'⟩
      · exact ⟨rfl, other⟩
      · refine ⟨root', fun slot member => ?_⟩
        rw [mounts, Slots.remove_toList below] at member
        rw [root']
        exact other slot (List.mem_of_mem_eraseIdx member)

/-- **A virtual root stays**: if `vfs_init` could allocate it, no entry is ever taken from it. -/
theorem root_live_of_virtual {init : MountTable} {ops : List Op} (initial : init.Initial) (sized : Sized disks)
    (virtual : init.root ≠ 0) (run : Run (Step disks) init ops t) : t.root = init.root ∧ t.RootLive := by
  have apart : t.Inv ∧ t.root = init.root ∧ t.RootLive ∧ ∀ slot ∈ t.mounts.toList, slot.node ≠ t.root := by
    refine run.invariant (fun x => x.Inv ∧ x.root = init.root ∧ x.RootLive ∧
      ∀ slot ∈ x.mounts.toList, slot.node ≠ x.root) ?_ ⟨initial.inv, rfl, initial.root, fun slot member => ?_⟩
    · rintro x op y ⟨inv, kept, root, other⟩ step
      have live : x.root ∈ x.heap.live := root.resolve_left (kept ▸ virtual)
      have keeps : x.KeepsRoot op := fun path i _ found =>
        other _ (Slots.mem_toList.mpr ⟨i, (Slots.first_some found).1, rfl⟩)
      obtain ⟨same, others⟩ := step.root_apart inv sized (kept ▸ virtual) live other
      exact ⟨step.inv inv sized, same.trans kept, (step.root_iff inv sized root).mpr keeps, others⟩
    · rw [List.length_eq_zero_iff.mp (Slots.toList_length.trans initial.empty)] at member
      cases member
  exact ⟨apart.2.1, apart.2.2.1⟩

/-- **Unmounting undoes mounting** exactly when the path was not mounted before. -/
theorem Inv.undone_iff {path : CString} {fs : Nat} (inv : t.Inv) (sized : Sized disks)
    (short : path.length < 256) (done : t.vfsMount disks (some path) fs = .ok (t', 0)) :
    Undone t t' path ↔ ∀ slot ∈ t.mounts.toList, slot.path ≠ path := by
  have inv' := inv.mount sized done
  obtain ⟨-, same | ⟨p, node, named, -, -, -, fresh, live, mounts, -⟩⟩ := vfsMount_cases inv.reach sized done
  · exact absurd same.1 (by decide)
  · cases named
    have whole : field path = path := List.take_of_length_le (by omega)
    have entries : t'.mounts.toList = t.mounts.toList ++ [⟨path, node, fs⟩] := by
      rw [mounts, Slots.push_toList, whole]
    have unmounts : ∃ t'', t'.vfsUnmount (some path) = .ok (t'', 0) ∧
        t''.mounts.toList =
          (t.mounts.toList ++ [(⟨path, node, fs⟩ : MountSlot)]).eraseP fun slot => slot.path = path := by
      cases found : t'.mounts.first fun slot => slot.path = path with
      | none =>
          rw [Slots.first_none, entries] at found
          exact absurd (decide_eq_true rfl) (found ⟨path, node, fs⟩ (by simp))
      | some i =>
          obtain ⟨below, -, removed⟩ := Slots.first_some found
          obtain ⟨d, given⟩ :=
            Client.give_returns inv'.reach (inv'.live _ (Slots.mem_toList.mpr ⟨i, below, rfl⟩))
          refine ⟨_, by simp only [vfsUnmount, found, given, Outcome.ok_bind, Outcome.pure_eq]; rfl, ?_⟩
          rw [← entries]
          exact removed
    obtain ⟨t'', done', left⟩ := unmounts
    constructor
    · rintro ⟨t₀, done₀, restored⟩ slot member same
      obtain rfl := (Prod.mk.inj (Outcome.ok.inj (done'.symm.trans done₀))).1
      rw [left, List.eraseP_append_left (p := fun slot : MountSlot => decide (slot.path = path))
        (decide_eq_true same) _ member] at restored
      have inside : (⟨path, node, fs⟩ : MountSlot) ∈ t.mounts.toList := by
        rw [← restored]
        simp
      exact fresh (inv.live _ inside)
    · intro other
      refine ⟨t'', done', ?_⟩
      rw [left, List.eraseP_append_right _ fun slot member => by simpa using other slot member]
      simp

end Invariant

section Refinement

variable {t t' : MountTable} {st : VfsState Nat} {result : Int}

/-- A list of mounts with the paths and the filesystems of the table. -/
def Lists (t : MountTable) (st : VfsState Nat) : Prop :=
  t.mounts.toList.map (fun slot => (slot.path, slot.fs)) = st.mounts.map fun m => (m.path, m.fs)

/-- Taking out the first with a path goes through the projection. -/
theorem eraseP_path {α : Type} {l : List α} {path : CString} (f : α → CString × Nat) :
    (l.map f).eraseP (fun e => e.1 = path) = (l.eraseP fun x => (f x).1 = path).map f := by
  rw [List.eraseP_map]
  rfl

/-- **Refinement of `vfs_unmount`**: the entry with the path that the list has first goes. -/
theorem vfsUnmount_refines {path : CString} (inv : t.Inv) (lists : t.Lists st)
    (done : t.vfsUnmount (some path) = .ok (t', result)) :
    result = (Vfs.vfsUnmount st path).2 ∧ t'.Lists (Vfs.vfsUnmount st path).1 := by
  have any : (st.mounts.any fun m => m.path = path) = t.mounts.toList.any fun slot => slot.path = path := by
    have same := congrArg (fun l : List (CString × Nat) => l.any fun e => e.1 = path) lists
    simp only [List.any_map] at same
    exact same.symm
  rcases vfsUnmount_cases inv done with ⟨fails, rfl, missing⟩ | ⟨p, i, named, returns, found, below, -, -, left, -⟩
  · have none' := Slots.first_none.mp (missing path rfl)
    have absent : ¬ (st.mounts.any fun m => m.path = path) = true := by
      rw [any, List.any_eq_true]
      rintro ⟨slot, member, same⟩
      exact none' slot member same
    rw [Vfs.vfsUnmount, if_neg absent]
    exact ⟨fails, lists⟩
  · cases named
    obtain ⟨-, holds, removed⟩ := Slots.first_some found
    have present : (st.mounts.any fun m => m.path = path) = true := by
      rw [any, List.any_eq_true]
      exact ⟨_, Slots.mem_toList.mpr ⟨i, below, rfl⟩, holds⟩
    rw [Vfs.vfsUnmount, if_pos present]
    refine ⟨returns, ?_⟩
    have erased := congrArg (fun l : List (CString × Nat) => l.eraseP fun e => e.1 = path) lists
    simp only [eraseP_path] at erased
    unfold Lists
    rw [left, removed]
    exact erased

/-- **Refinement of a successful `vfs_mount`**: an entry is added at the end. -/
theorem vfsMount_refines {disks : Disks} {view : Nat → Ext2View} {path : CString} {fs : Nat}
    {st' : VfsState Nat} (reach : Reachable t.heap) (sized : Sized disks) (lists : t.Lists st)
    (done : t.vfsMount disks (some path) fs = .ok (t', 0))
    (mounted : Vfs.vfsMount view st path fs true = (st', 0)) : t'.Lists st' := by
  obtain ⟨-, same | ⟨p, node, named, -, -, -, -, -, mounts, -⟩⟩ := vfsMount_cases reach sized done
  · exact absurd same.1 (by decide)
  · cases named
    obtain ⟨rootNode, -, -, mounts'⟩ := vfsMount_ok mounted
    unfold Lists
    rw [mounts, mounts', Slots.push_toList, List.map_append, List.map_append, lists]
    rfl

end Refinement

end MountTable

open MountTable in
/-- **When unmounting undoes mounting, and when nothing freed stays designated.** The table is restored
exactly when the path was not mounted before. In every run there are at most 16 entries and all designate
live nodes. The runs in which the VFS root never designates a freed node are those that never unmount the
entry it was taken from. -/
theorem unmount_undoes_iff {disks : Disks} (sized : Sized disks) :
    (∀ (t t' : MountTable) (path : CString) (fs : Nat), t.Inv → path.length < 256 →
        t.vfsMount disks (some path) fs = .ok (t', 0) →
        (Undone t t' path ↔ ∀ slot ∈ t.mounts.toList, slot.path ≠ path)) ∧
      (∀ (init t : MountTable) (ops : List Op), init.Initial → Run (Step disks) init ops t →
        t.mounts.count ≤ 16 ∧ ∀ slot ∈ t.mounts.toList, slot.node ∈ t.heap.live) ∧
      ∀ (init t : MountTable) (ops : List Op), init.Initial →
        (Run (fun x op y => Step disks x op y ∧ y.RootLive) init ops t ↔
          Run (Guarded KeepsRoot (Step disks)) init ops t) := by
  refine ⟨fun t t' path fs inv short done => inv.undone_iff sized short done,
    fun init t ops initial run => ?_, fun init t ops initial => ?_⟩
  · have inv := run.invariant Inv (fun x op y here step => Step.inv step here sized) initial.inv
    exact ⟨inv.most, inv.live⟩
  · exact Run.good_iff Inv RootLive (fun x op y here _ step => Step.inv step here sized)
      (fun x op y here root step => Step.root_iff step here sized root) initial.inv initial.root

/-- One disk behind every pointer. -/
def oneDisk : MountTable.Disks := fun _ => (fiveByteDisk, twoGroups)

/-- An empty table without a VFS root, and a new heap. -/
def emptyTable : MountTable := ⟨Client.init fun _ => 0, 0, ⟨fun _ => ⟨[], 0, 0⟩, 0⟩⟩

theorem emptyTable_initial : emptyTable.Initial := ⟨⟨_, [], .nil _⟩, rfl, .inl rfl⟩

/-- The table after one more mount. -/
def mounted (t : MountTable) (path : CString) : MountTable := ((t.vfsMount oneDisk (some path) 1).getD (t, -1)).1

/-- The table after an unmount. -/
def unmounted (t : MountTable) (path : CString) : MountTable := ((t.vfsUnmount (some path)).getD (t, -1)).1

theorem eq_ok_pair {outcome : Outcome (MountTable × Int)} {t : MountTable} (returns : outcome.isOk = true)
    (zero : (outcome.getD (t, -1)).2 = 0) : outcome = .ok ((outcome.getD (t, -1)).1, 0) :=
  (Outcome.eq_ok_getD returns (t, -1)).trans (congrArg Outcome.ok (Prod.ext rfl zero))

theorem oneDisk_sized : MountTable.Sized oneDisk := fun _ => fiveByteDisk_readable.size

theorem mounted_once : emptyTable.vfsMount oneDisk (some ['/', 'm']) 1 =
    .ok (mounted emptyTable ['/', 'm'], 0) :=
  eq_ok_pair (by decide +kernel) (by decide +kernel)

theorem unmount_undoes_first :
    MountTable.Undone emptyTable (mounted emptyTable ['/', 'm']) ['/', 'm'] :=
  ((unmount_undoes_iff oneDisk_sized).1 _ _ _ _ emptyTable_initial.inv (by decide)
    mounted_once).mpr fun slot member => by cases member

/-- **Two defects.** Unmounting a path that was mounted twice takes out the first entry, and unmounting `/`
leaves the VFS root that was taken from it dangling. -/
theorem unmount_takes_other :
    (∃ t t' : MountTable, t.Inv ∧ t.vfsMount oneDisk (some ['/', 'm']) 1 = .ok (t', 0) ∧
        ¬ MountTable.Undone t t' ['/', 'm']) ∧
      ∃ t t' : MountTable, emptyTable.vfsMount oneDisk (some ['/']) 1 = .ok (t, 0) ∧
        t.vfsUnmount (some ['/']) = .ok (t', 0) ∧ t'.root ≠ 0 ∧ t'.root ∉ t'.heap.live := by
  have inv : (mounted emptyTable ['/', 'm']).Inv :=
    emptyTable_initial.inv.mount oneDisk_sized mounted_once
  have twice : (mounted emptyTable ['/', 'm']).vfsMount oneDisk (some ['/', 'm']) 1 =
      .ok (mounted (mounted emptyTable ['/', 'm']) ['/', 'm'], 0) :=
    eq_ok_pair (by decide +kernel) (by decide +kernel)
  have back : (mounted (mounted emptyTable ['/', 'm']) ['/', 'm']).vfsUnmount (some ['/', 'm']) =
      .ok (unmounted (mounted (mounted emptyTable ['/', 'm']) ['/', 'm']) ['/', 'm'], 0) :=
    eq_ok_pair (by decide +kernel) (by decide +kernel)
  have slash : emptyTable.vfsMount oneDisk (some ['/']) 1 = .ok (mounted emptyTable ['/'], 0) :=
    eq_ok_pair (by decide +kernel) (by decide +kernel)
  have gone : (mounted emptyTable ['/']).vfsUnmount (some ['/']) =
      .ok (unmounted (mounted emptyTable ['/']) ['/'], 0) :=
    eq_ok_pair (by decide +kernel) (by decide +kernel)
  refine ⟨⟨_, _, inv, twice, ?_⟩, _, _, slash, gone, by decide +kernel, by decide +kernel⟩
  rintro ⟨t, done, restored⟩
  obtain rfl := (Prod.mk.inj (Outcome.ok.inj (back.symm.trans done))).1
  exact absurd restored (by decide +kernel)

end Kfs.Vfs
