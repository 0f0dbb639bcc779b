/-
**Virtual files in memory: `vfs_create_virtual_file` and `vfs_virtual_read`.**

A virtual file has its content in one heap block and the address and length of the content in another, to
which the inode field of its node points. Reading follows the two pointers and hands an address and a count
to `memcpy`. The count is clamped by the 32-bit sum of offset and size. So a read gives the content and
nothing else exactly when the offset is past the end or that sum does not wrap: `virtual_read_iff`. For
such reads the functions on lists of bytes are refined (`read_refines`).
-/

import Kfs.Heap.Payload
import Kfs.Vfs.Files

namespace Kfs.Vfs

open Kfs.Heap Kfs.Disk

/-- The fields of `vfs_node_t` that a virtual file uses; `inode` holds the address of its
`virtual_file_data_t`, and `read` says whether `node->read` is set. -/
structure VirtualNode where
  size : Nat
  inode : Nat
  read : Bool
  deriving DecidableEq, Repr

/-- `memcpy`. -/
def memcpy (m : Memory) (dest src : Nat) : (num : Nat) → Memory
  | 0 => m
  | num + 1 => memcpy (m.store8 dest (m src)) (dest + 1) (src + 1) num

namespace VirtualNode

/-- The field `content` of a `virtual_file_data_t`. -/
def contentOf (m : Memory) (data : Nat) : Nat := m.load32 data

/-- Its field `size`. -/
def sizeOf (m : Memory) (data : Nat) : Nat := m.load32 (data + 4)

/-- A node before its content is stored. -/
def blank : VirtualNode := ⟨0, 0, false⟩

/-- `strcpy` of a string. -/
def strcpy (m : Memory) (dest : Nat) (s : List UInt8) : Memory :=
  m.writeBytes dest (s.length + 1) fun k => s.getD k 0

/-- `vfs_create_virtual_file` of a content. -/
def vfsCreateVirtualFile (h : HeapState) (content : List UInt8) :
    Outcome (HeapState × Option VirtualNode) := do
  let (h, node) ← kmalloc h FileNode.nodeBytes
  if node = 0 then return (h, none)
  let (h, data) ← kmalloc h FileNode.dataBytes
  if data = 0 then return (h, some blank)
  let h := { h with mem := h.mem.store32 (data + 4) content.length }
  let (h, text) ← kmalloc h (content.length + 1)
  let h := { h with mem := h.mem.store32 data text }
  if text = 0 then do
    let h ← kfree h data
    return (h, some blank)
  else
    let h := { h with mem := strcpy h.mem text content }
    return (h, some ⟨content.length, data, true⟩)

/-- What `vfs_virtual_read` hands to `memcpy`, the source and the count, or the value it returns at once. -/
def virtualCopy (m : Memory) (node : VirtualNode) (r : Request) : Except Int (Nat × Nat) :=
  if r.buffer = 0 then .error (-1)
  else if node.inode = 0 ∨ contentOf m node.inode = 0 then .error 0
  else if r.offset ≥ sizeOf m node.inode then .error 0
  else .ok (contentOf m node.inode + r.offset,
    if (r.offset + r.size) % 2 ^ 32 > sizeOf m node.inode then sizeOf m node.inode - r.offset else r.size)

/-- `vfs_virtual_read`. -/
def vfsVirtualRead (m : Memory) (node : VirtualNode) (r : Request) : Memory × Int :=
  match virtualCopy m node r with
  | .error result => (m, result)
  | .ok (src, toRead) => (memcpy m r.buffer src toRead, asInt toRead)

/-- `vfs_read` on the node of a virtual file. -/
def vfsRead (m : Memory) (node : VirtualNode) (r : Request) : Memory × Int :=
  if r.buffer = 0 then (m, -1) else if node.read = false then (m, -1) else vfsVirtualRead m node r

/-- The number of bytes from the offset to the end of the request or of the content. -/
def served (content : List UInt8) (r : Request) : Nat := min (r.offset + r.size) content.length - r.offset

/-- **A read gives the content**: the bytes from the offset to the end of the request or of the content are
stored in the buffer and counted, and `memcpy` reads inside the content. -/
structure ReadsContent (m : Memory) (node : VirtualNode) (r : Request) (content : List UInt8) : Prop where
  result : vfsRead m node r =
    (m.writeBytes r.buffer (served content r) fun k => content.getD (r.offset + k) 0, (served content r : Int))
  inside : ∀ src toRead, virtualCopy m node r = .ok (src, toRead) →
    contentOf m node.inode ≤ src ∧ src + toRead ≤ contentOf m node.inode + content.length

/-- The two blocks of a virtual file: its data, and its content with the NUL. -/
def footprint (m : Memory) (node : VirtualNode) (content : List UInt8) : Set Nat :=
  {x | node.inode ≤ x ∧ x < node.inode + 8 ∨
    contentOf m node.inode ≤ x ∧ x ≤ contentOf m node.inode + content.length}

/-- A memory with a virtual file of some content. -/
structure Stores (m : Memory) (node : VirtualNode) (content : List UInt8) : Prop where
  read : node.read = true
  data : node.inode ≠ 0
  text : contentOf m node.inode ≠ 0
  size : sizeOf m node.inode = content.length
  bytes : ∀ k < content.length, m (contentOf m node.inode + k) = content.getD k 0
  small : content.length < 2 ^ 31

end VirtualNode

section Copy

variable {m : Memory} {dest src num : Nat}

/-- **`memcpy` between ranges that are apart.** -/
theorem memcpy_eq_copy (apart : src + num ≤ dest ∨ dest + num ≤ src) :
    memcpy m dest src num = m.copy dest src num := by
  induction num generalizing m dest src with
  | zero =>
      funext x
      exact (if_neg (by omega)).symm
  | succ num ih =>
      rw [memcpy, ih (by omega)]
      funext x
      simp only [Memory.copy, Memory.writeBytes]
      by_cases first : x = dest
      · rw [if_neg (by omega), if_pos (by omega), first, Memory.store8_self, Nat.sub_self, Nat.add_zero]
      · by_cases inside : dest ≤ x ∧ x < dest + (num + 1)
        · rw [if_pos inside, if_pos (by omega), Memory.store8_of_ne _ _ (by omega)]
          congr 1
          omega
        · rw [if_neg inside, if_neg (by omega), Memory.store8_of_ne _ _ first]

end Copy

namespace VirtualNode

section Create

variable {c : Client} {h : HeapState} {m : Memory} {node : VirtualNode} {r : Request} {content : List UInt8}

/-- A string stored elsewhere leaves a word alone. -/
theorem load32_strcpy {dest a : Nat} (apart : a + 4 ≤ dest ∨ dest + (content.length + 1) ≤ a) :
    (strcpy m dest content).load32 a = m.load32 a :=
  Memory.load32_congr ((Memory.writeBytes_eqOn _ _ _ _).mono fun x inside => by
    simp only [Set.mem_Ico, Set.mem_ofPred_eq] at *
    omega)

/-- **A virtual file as it is created**, when the allocations succeed. -/
theorem vfsCreateVirtualFile_stores (reach : Reachable c) (fits : Heap.NoWrap (content.length + 1))
    (made : vfsCreateVirtualFile c.heap content = .ok (h, some node)) (whole : node.read = true) :
    Stores h.mem node content := by
  obtain ⟨l, inv⟩ := reach.inv
  unfold vfsCreateVirtualFile at made
  obtain ⟨⟨h₁, ptr⟩, first, made⟩ := Outcome.bind_eq_ok.mp made
  simp only at made
  split at made
  · cases made
  · rename_i given
    obtain ⟨l₁, b₁, inv₁, -⟩ := kmalloc_others inv.heap (by decide) first given
    obtain ⟨⟨h₂, data⟩, second, made⟩ := Outcome.bind_eq_ok.mp made
    simp only at made
    split at made
    · cases made
      cases whole
    · rename_i some
      obtain ⟨l₂, b₂, inv₂, member₂, used₂, rfl, room₂, -⟩ := kmalloc_others inv₁ (by decide) second some
      simp only [FileNode.dataBytes] at room₂
      have inv₂' : HeapInv { h₂ with mem := h₂.mem.store32 (b₂.addr + 16 + 4) content.length } l₂ :=
        inv₂.write ((Memory.store32_eqOn _ _ _).mono fun x outside => by
          have apart := outside b₂ member₂ used₂
          simp only [Set.mem_ofPred_eq]
          omega)
      obtain ⟨⟨h₃, text⟩, third, made⟩ := Outcome.bind_eq_ok.mp made
      simp only at made
      split at made
      · obtain ⟨h₄, -, made⟩ := Outcome.bind_eq_ok.mp made
        cases made
        cases whole
      · rename_i more
        cases made
        obtain ⟨l₃, b₃, inv₃, member₃, -, rfl, room₃, kept⟩ := kmalloc_others inv₂' fits third more
        obtain ⟨member₂', other, same⟩ := kept b₂ member₂ used₂
        have apart := inv₃.tiles.disjoint member₂' member₃ other
        have bounds := inv₃.bounds member₃
        simp only [heapEnd, heapStart, heapSize] at bounds
        have address : contentOf (strcpy (h₃.mem.store32 (b₂.addr + 16) (b₃.addr + 16)) (b₃.addr + 16) content)
            (b₂.addr + 16) = b₃.addr + 16 := by
          rw [contentOf, load32_strcpy (by omega), Memory.load32_store32, Nat.mod_eq_of_lt (by omega)]
        refine ⟨rfl, by simp, by rw [address]; omega, ?_, fun k less => ?_, by omega⟩
        · have stored : Set.EqOn h₃.mem (h₂.mem.store32 (b₂.addr + 16 + 4) content.length)
              (Set.Ico (b₂.addr + 16 + 4) (b₂.addr + 16 + 4 + 4)) := same.mono fun x inside => by
            simp only [Set.mem_Ico, Set.mem_ofPred_eq] at *
            omega
          show (strcpy _ _ content).load32 (b₂.addr + 16 + 4) = content.length
          rw [load32_strcpy (by omega), Memory.load32_store32_of_disjoint _ _ (by omega),
            Memory.load32_congr stored, Memory.load32_store32, Nat.mod_eq_of_lt (by omega)]
        · rw [address]
          exact Memory.writeBytes_inside _ _ (content.length + 1) (fun k => content.getD k 0) (by omega)

/-- Only the two blocks matter. -/
theorem Stores.congr {m' : Memory} (stores : Stores m node content)
    (same : Set.EqOn m' m (footprint m node content)) :
    Stores m' node content ∧ contentOf m' node.inode = contentOf m node.inode := by
  have low : Set.EqOn m' m (Set.Ico node.inode (node.inode + 4)) := same.mono fun x inside => by
    simp only [Set.mem_Ico, footprint, Set.mem_ofPred_eq] at *
    omega
  have high : Set.EqOn m' m (Set.Ico (node.inode + 4) (node.inode + 4 + 4)) := same.mono fun x inside => by
    simp only [Set.mem_Ico, footprint, Set.mem_ofPred_eq] at *
    omega
  have address : contentOf m' node.inode = contentOf m node.inode := Memory.load32_congr low
  refine ⟨⟨stores.read, stores.data, ?_, ?_, fun k less => ?_, stores.small⟩, address⟩
  · rw [address]
    exact stores.text
  · exact (Memory.load32_congr high).trans stores.size
  · rw [address, same (.inr ⟨by omega, by omega⟩), stores.bytes k less]

end Create

section Read

variable {m : Memory} {node : VirtualNode} {r : Request} {content : List UInt8}

/-- The clamped count, where the sum does not wrap. -/
theorem clamp_eq (nowrap : r.offset + r.size < 2 ^ 32) (inside : r.offset < content.length) :
    (if (r.offset + r.size) % 2 ^ 32 > content.length then content.length - r.offset else r.size) =
      served content r := by
  rw [Nat.mod_eq_of_lt nowrap, served]
  split <;> omega

/-- What a request gets `memcpy` to do. -/
theorem Stores.virtualCopy_eq (stores : Stores m node content) (stored : r.buffer ≠ 0) :
    virtualCopy m node r =
      if r.offset ≥ content.length then .error 0
      else .ok (contentOf m node.inode + r.offset,
        if (r.offset + r.size) % 2 ^ 32 > content.length then content.length - r.offset else r.size) := by
  have there : ¬ (node.inode = 0 ∨ contentOf m node.inode = 0) := not_or.mpr ⟨stores.data, stores.text⟩
  rw [virtualCopy, if_neg stored, if_neg there, stores.size]

/-- A read on the node of a virtual file is `vfs_virtual_read`. -/
theorem Stores.vfsRead_eq (stores : Stores m node content) (stored : r.buffer ≠ 0) :
    vfsRead m node r = vfsVirtualRead m node r := by
  have set : ¬ node.read = false := by simp [stores.read]
  rw [vfsRead, if_neg stored, if_neg set]

/-- A request from the end of the content on gets nothing. -/
theorem Stores.reads_past (stores : Stores m node content) (stored : r.buffer ≠ 0)
    (past : content.length ≤ r.offset) : ReadsContent m node r content := by
  have copies : virtualCopy m node r = .error 0 := by rw [stores.virtualCopy_eq stored, if_pos past]
  have none' : served content r = 0 := by
    unfold served
    omega
  refine ⟨?_, fun src toRead copied => ?_⟩
  · rw [stores.vfsRead_eq stored, vfsVirtualRead, copies, none']
    refine Prod.ext (funext fun x => ?_) rfl
    exact (if_neg (by omega)).symm
  · rw [copies] at copied
    cases copied

/-- A request whose end does not wrap gets what it asks for and there is. -/
theorem Stores.reads_inside (stores : Stores m node content) (stored : r.buffer ≠ 0)
    (inside : r.offset < content.length) (nowrap : r.offset + r.size < 2 ^ 32)
    (apart : contentOf m node.inode + content.length ≤ r.buffer ∨
      r.buffer + served content r ≤ contentOf m node.inode) : ReadsContent m node r content := by
  have copies : virtualCopy m node r = .ok (contentOf m node.inode + r.offset, served content r) := by
    rw [stores.virtualCopy_eq stored, if_neg (not_le.mpr inside), clamp_eq nowrap inside]
  have within : r.offset + served content r ≤ content.length := by
    unfold served
    omega
  have small := stores.small
  refine ⟨?_, fun src toRead copied => ?_⟩
  · rw [stores.vfsRead_eq stored, vfsVirtualRead, copies]
    refine Prod.ext (funext fun x => ?_) (asInt_of_lt (by omega))
    show memcpy m r.buffer (contentOf m node.inode + r.offset) (served content r) x = _
    rw [memcpy_eq_copy (by omega)]
    simp only [Memory.copy, Memory.writeBytes]
    split
    · rename_i covered
      rw [Nat.add_assoc]
      exact stores.bytes _ (by omega)
    · rfl
  · rw [copies] at copied
    obtain ⟨rfl, rfl⟩ := Prod.mk.inj (Except.ok.inj copied)
    omega

/-- A request from inside the content whose end wraps is answered with a count that is too large. -/
theorem Stores.miscounts (stores : Stores m node content) (stored : r.buffer ≠ 0)
    (inside : r.offset < content.length) (offset_lt : r.offset < 2 ^ 32) (size_lt : r.size < 2 ^ 32)
    (wraps : 2 ^ 32 ≤ r.offset + r.size) : ¬ ReadsContent m node r content := by
  intro reads
  have back : (r.offset + r.size) % 2 ^ 32 = r.offset + r.size - 2 ^ 32 := by
    rw [Nat.mod_eq_sub_mod wraps]
    exact Nat.mod_eq_of_lt (by omega)
  have count : ¬ (r.offset + r.size) % 2 ^ 32 > content.length := by omega
  have copies : virtualCopy m node r = .ok (contentOf m node.inode + r.offset, r.size) := by
    rw [stores.virtualCopy_eq stored, if_neg (not_le.mpr inside), if_neg count]
  have result := congrArg Prod.snd reads.result
  rw [stores.vfsRead_eq stored, vfsVirtualRead, copies] at result
  have equal := asInt_eq_natCast size_lt result
  unfold served at equal
  have small := stores.small
  omega

end Read

end VirtualNode

open VirtualNode in
/-- **A read of a virtual file gives the content** exactly when the offset is at or past its end, or the
32-bit sum of offset and size does not wrap. -/
theorem virtual_read_iff {c : Client} {h : HeapState} {m : Memory} {node : VirtualNode} {r : Request}
    {content : List UInt8} (reach : Reachable c) (fits : Heap.NoWrap (content.length + 1))
    (made : vfsCreateVirtualFile c.heap content = .ok (h, some node)) (whole : node.read = true)
    (same : Set.EqOn m h.mem (footprint h.mem node content)) (stored : r.buffer ≠ 0)
    (offset_lt : r.offset < 2 ^ 32) (size_lt : r.size < 2 ^ 32)
    (apart : contentOf h.mem node.inode + content.length ≤ r.buffer ∨
      r.buffer + served content r ≤ contentOf h.mem node.inode) :
    ReadsContent m node r content ↔ content.length ≤ r.offset ∨ r.offset + r.size < 2 ^ 32 := by
  obtain ⟨stores, address⟩ := (vfsCreateVirtualFile_stores reach fits made whole).congr same
  rw [← address] at apart
  rcases Nat.lt_or_ge r.offset content.length with inside | past
  · rcases Nat.lt_or_ge (r.offset + r.size) (2 ^ 32) with nowrap | wraps
    · exact iff_of_true (stores.reads_inside stored inside nowrap apart) (.inr nowrap)
    · exact iff_of_false (stores.miscounts stored inside offset_lt size_lt wraps) (by omega)
  · exact iff_of_true (stores.reads_past stored past) (.inl past)

/-- **Refinement**: where the count does not wrap, a read of the node in memory is the read of the node that
carries its content. -/
theorem VirtualNode.read_refines {m : Memory} {node : VirtualNode} {file : FileNode} {r : Request}
    {content : List UInt8} (stores : Stores m node content) (stored : r.buffer ≠ 0)
    (carries : file.data = some content) (nowrap : r.offset + r.size < 2 ^ 32)
    (apart : contentOf m node.inode + content.length ≤ r.buffer ∨
      r.buffer + served content r ≤ contentOf m node.inode) :
    vfsRead m node r = file.vfsVirtualRead r m := by
  have small := stores.small
  rcases Nat.lt_or_ge r.offset content.length with inside | past
  · rw [(stores.reads_inside stored inside nowrap apart).result]
    have within : served content r < 2 ^ 31 := by
      unfold served
      omega
    simp only [FileNode.vfsVirtualRead, if_neg stored, carries, if_neg (not_le.mpr inside),
      clamp_eq nowrap inside, asInt_of_lt within]
  · rw [stores.vfsRead_eq stored, vfsVirtualRead, stores.virtualCopy_eq stored, if_pos past]
    simp only [FileNode.vfsVirtualRead, if_neg stored, carries, if_pos past]

/-- A content of five bytes. -/
def hello : List UInt8 := [104, 101, 108, 108, 111]

/-- A file with that content, made in a new heap. -/
def helloMade : Outcome (HeapState × Option VirtualNode) :=
  VirtualNode.vfsCreateVirtualFile (Client.init fun _ => 0).heap hello

def helloHeap : HeapState := (helloMade.getD ((Client.init fun _ => 0).heap, none)).1

def helloNode : VirtualNode := ⟨5, 0x5001E8, true⟩

theorem hello_made : VirtualNode.vfsCreateVirtualFile (Client.init fun _ => 0).heap hello =
    .ok (helloHeap, some helloNode) := by
  have node : (helloMade.getD ((Client.init fun _ => 0).heap, none)).2 = some helloNode := by decide +kernel
  calc helloMade = .ok (helloMade.getD ((Client.init fun _ => 0).heap, none)) :=
        Outcome.eq_ok_getD (by decide +kernel) _
    _ = .ok (helloHeap, some helloNode) := by rw [← node]; rfl

theorem hello_content : VirtualNode.contentOf helloHeap.mem helloNode.inode = 0x500200 := by decide +kernel

theorem virtual_read_hello : VirtualNode.ReadsContent helloHeap.mem helloNode ⟨1, 2, 0x1000⟩ hello :=
  (virtual_read_iff ⟨_, [], .nil _⟩ (by decide) hello_made rfl (Set.eqOn_refl _ _) (by decide) (by decide)
    (by decide) (.inr (by rw [hello_content]; decide))).mpr (.inr (by decide))

/-- **A count that wraps.** From offset 1, `2 ^ 32 - 1` bytes are copied, where four are left. -/
theorem virtual_read_overruns :
    VirtualNode.vfsCreateVirtualFile (Client.init fun _ => 0).heap hello = .ok (helloHeap, some helloNode) ∧
      VirtualNode.served hello ⟨1, 2 ^ 32 - 1, 0x1000⟩ = 4 ∧
      VirtualNode.virtualCopy helloHeap.mem helloNode ⟨1, 2 ^ 32 - 1, 0x1000⟩ =
        .ok (0x500201, 2 ^ 32 - 1) ∧
      (VirtualNode.vfsRead helloHeap.mem helloNode ⟨1, 2 ^ 32 - 1, 0x1000⟩).2 = -1 ∧
      ¬ VirtualNode.ReadsContent helloHeap.mem helloNode ⟨1, 2 ^ 32 - 1, 0x1000⟩ hello := by
  have stores := VirtualNode.vfsCreateVirtualFile_stores ⟨_, [], .nil _⟩ (by decide) hello_made rfl
  have copies : VirtualNode.virtualCopy helloHeap.mem helloNode ⟨1, 2 ^ 32 - 1, 0x1000⟩ =
      .ok (0x500201, 2 ^ 32 - 1) := by
    rw [stores.virtualCopy_eq (by decide), hello_content]
    rfl
  refine ⟨hello_made, rfl, copies, ?_, stores.miscounts (by decide) (by decide) (by decide) (by decide)
    (by decide)⟩
  rw [stores.vfsRead_eq (by decide), VirtualNode.vfsVirtualRead, copies]
  rfl

end Kfs.Vfs
