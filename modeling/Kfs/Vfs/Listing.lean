/-
**Listing a directory: `vfs_ext2_readdir`.**

Each call scans the directory from the start. `readdir_callback` counts the entries it gets and keeps a
pointer to the one with the index asked for. `ext2_read_dir` frees the buffer before it returns, so the
entry is read from a freed block. `kfree` writes block headers only, and the entry is still there
(`DirCall.entry_kept`).

So on a well-formed directory the calls with 0, 1, … list the entries in use in their order, then NULL, and
`vfs_ext2_finddir` agrees with them: `readdir_lists`.
-/

import Mathlib.Data.List.TakeWhile
import Kfs.Disk.Scans
import Kfs.Heap.Payload
import Kfs.Vfs.Files
import Kfs.Vfs.Lookup

namespace Kfs.Vfs

open Kfs.Heap Kfs.Disk

/-- `readdir_ctx_t` besides the index; `result` is the place of an entry. -/
structure ReaddirCtx where
  current : Nat
  result : Option Nat
  deriving DecidableEq, Repr

/-- `readdir_callback`. -/
def readdirCallback (index : Nat) (ctx : ReaddirCtx) (place : Nat) : ReaddirCtx where
  current := (ctx.current + 1) % 2 ^ 32
  result := if ctx.current = index then some place else ctx.result

/-- The fields of `vfs_node_t` that listing and lookup use, of a node made from an inode. -/
structure Ext2Node where
  name : List UInt8
  inode : Nat
  file : FileNode

/-- What one call works with: which allocations are granted (`node` and `inodeBuffer` are those of
`vfs_create_node_from_ext2` and of its `ext2_read_inode`), what the directory buffer held before, where it
lies, and the heap once the directory has been read. -/
structure DirCall where
  grants : DirGrants
  inodeBuffer : Bool
  node : Bool
  fresh : Memory
  heap : HeapState
  dirData : Nat

namespace Ext2Node

variable (v : Volume) (fs : Filesystem) (c : DirCall)

/-- `vfs_create_node_from_ext2` with the name and the inode number it stores. -/
def vfsCreateNodeFromExt2 (inodeNum : Nat) (name : List UInt8) : Outcome (Option Ext2Node) := do
  match ← FileNode.vfsCreateNodeFromExt2 v fs c.inodeBuffer c.node inodeNum with
  | none => return none
  | some file => return some ⟨(name.takeWhile (· ≠ 0)).take 255, inodeNum, file⟩

/-- `ext2_read_dir` with a callback that gets the place of an entry. The buffer is freed at the end. -/
def ext2ReadDirAt {σ : Type} (dirInodeNum : Nat) (callback : σ → Nat → σ) (ctx : σ) :
    Outcome (HeapState × σ × Int) := do
  match ← readDirectory v fs c.grants c.fresh dirInodeNum with
  | none => return (c.heap, ctx, -1)
  | some (data, size) => do
      let ctx ← scanDirAt callback data size (size + 1) 0 ctx
      let h ← kfree c.heap c.dirData
      return (h, ctx, 0)

/-- `vfs_ext2_readdir`, `none` for NULL. -/
def vfsExt2Readdir (node : Ext2Node) (index : Nat) : Outcome (Option Ext2Node) := do
  if node.file.type ≠ .directory then return none
  let (h, ctx, _) ← ext2ReadDirAt v fs c node.inode (readdirCallback index) ⟨0, none⟩
  match ctx.result with
  | none => return none
  | some place => do
      -- the buffer has been freed
      let entry := entryAt (fun x => h.mem (c.dirData + x)) place
      let nameLen := if entry.name.length < 255 then entry.name.length else 255
      vfsCreateNodeFromExt2 v fs c entry.inode (entry.name.take nameLen)

/-- `vfs_ext2_finddir`, `none` for NULL. -/
def vfsExt2Finddir (node : Ext2Node) (name : List UInt8) : Outcome (Option Ext2Node) := do
  if node.file.type ≠ .directory then return none
  match ← finddirScan v fs c.grants c.fresh node.inode name with
  | none => return none
  | some inode => vfsCreateNodeFromExt2 v fs c inode name

/-- The loop of `cmd_ls`: the nodes it gets from an index on. -/
def lsLoop (readdir : Nat → Outcome (Option Ext2Node)) : (fuel index : Nat) → Outcome (List Ext2Node)
  | 0, _ => .diverge
  | fuel + 1, index => do
      match ← readdir index with
      | none => return []
      | some node => do
          let rest ← lsLoop readdir fuel ((index + 1) % 2 ^ 32)
          return node :: rest

end Ext2Node

/-- **A well-formed directory**: its records lie inside it with their headers and names. -/
structure WellFormed (data : Memory) (size : Nat) : Prop where
  within : DirWithin data size
  inside : EntriesInside data size

/-- A directory of `size` bytes stands in a block in use. -/
structure DirBlock (h : HeapState) (dirData : Nat) (data : Memory) (size : Nat) (l : List Segment)
    (s : Segment) : Prop where
  heap : HeapInv h l
  member : s ∈ l
  used : s.free = false
  place : dirData = s.addr + 16
  room : size + 16 ≤ s.size
  bytes : ∀ x < size, h.mem (dirData + x) = data x

/-- **A call reads a directory.** For one of no bytes `kmalloc` gives NULL. -/
inductive DirCall.Reads (v : Volume) (fs : Filesystem) (c : DirCall) (dir : Nat) (data : Memory) :
    (size : Nat) → Prop
  | empty (read : readDirectory v fs c.grants c.fresh dir = .ok none) : Reads v fs c dir data 0
  | filled {size : Nat} {data' : Memory} {l : List Segment} {s : Segment}
      (read : readDirectory v fs c.grants c.fresh dir = .ok (some (data', size)))
      (same : Set.EqOn data' data {x | x < size}) (block : DirBlock c.heap c.dirData data size l s) :
      Reads v fs c dir data size

/-- The allocations of `vfs_create_node_from_ext2` are granted. -/
def DirCall.Granted (c : DirCall) : Prop := c.inodeBuffer = true ∧ c.node = true

/-- The inodes of a directory's entries can be read. -/
def InodesReadable (v : Volume) (fs : Filesystem) (entries : List Ext2DirEntry) : Prop :=
  ∀ entry ∈ entries, ∃ inode, ext2ReadInode v fs true entry.inode = .ok (some inode)

section Kept

variable {h : HeapState} {dirData size : Nat} {data : Memory} {l : List Segment} {s : Segment}

/-- **The directory is still there** when its buffer has been freed. -/
theorem DirBlock.kept (block : DirBlock h dirData data size l s) :
    ∃ h', kfree h dirData = .ok h' ∧ Set.EqOn (fun x => h'.mem (dirData + x)) data {x | x < size} := by
  obtain ⟨m, freed, -⟩ := kfree_used block.heap block.member block.used
  rw [← block.place] at freed
  refine ⟨_, freed, fun x below => ?_⟩
  have below' : x < size := below
  have place := block.place
  have room := block.room
  rw [place] at freed
  have same := kfree_payload block.heap block.member block.used freed
    (show s.addr + 16 ≤ dirData + x ∧ dirData + x < s.addr + s.size by omega)
  exact same.trans (block.bytes x below')

end Kept

section Callback

variable {index k : Nat} {r : Option Nat} {places : List Nat}

/-- **The callback keeps the entry with the index asked for.** -/
theorem foldl_readdir (counted : k + places.length < 2 ^ 32) :
    (places.foldl (readdirCallback index) ⟨k, r⟩).result =
      if k ≤ index ∧ index < k + places.length then places[index - k]? else r := by
  induction places generalizing k r with
  | nil =>
      rw [if_neg (by rw [List.length_nil]; omega)]
      rfl
  | cons place places ih =>
      rw [List.length_cons] at counted
      have next : (k + 1) % 2 ^ 32 = k + 1 := Nat.mod_eq_of_lt (by omega)
      rw [List.foldl_cons, readdirCallback, next, ih (by omega), List.length_cons]
      by_cases here : k = index
      · rw [if_neg (by omega), if_pos here, if_pos (by omega), here, Nat.sub_self]
        rfl
      · rw [if_neg here]
        by_cases later : k + 1 ≤ index ∧ index < k + 1 + places.length
        · rw [if_pos later, if_pos (by omega), show index - k = index - (k + 1) + 1 by omega,
            List.getElem?_cons_succ]
        · rw [if_neg later, if_neg (by omega)]

theorem readdir_result (counted : places.length < 2 ^ 32) :
    (places.foldl (readdirCallback index) ⟨0, none⟩).result = places[index]? := by
  rw [foldl_readdir (by omega)]
  split
  · rfl
  · rw [List.getElem?_eq_none (by omega)]

end Callback

namespace Ext2Node

section Calls

variable {v : Volume} {fs : Filesystem} {c : DirCall} {node : Ext2Node} {data : Memory} {size index : Nat}
  {name : List UInt8}

/-- A stored name is a C string of at most 255 bytes. -/
theorem inUse_name (formed : WellFormed data size) {entry : Ext2DirEntry}
    (member : entry ∈ inUse (dirEntries data size)) : entry.name.length ≤ 255 ∧ 0 ∉ entry.name := by
  obtain ⟨listed, used⟩ := List.mem_filter.mp member
  obtain ⟨place, visited, rfl⟩ := entriesFrom_mem formed.within stops_first listed
  exact ⟨entryAt_name_length data place, formed.within.names place visited (by simpa using used)⟩

/-- **`vfs_ext2_readdir` makes the node of the entry in use with its index.** -/
theorem vfsExt2Readdir_eq (formed : WellFormed data size) (reads : c.Reads v fs node.inode data size)
    (directory : node.file.type = .directory) :
    vfsExt2Readdir v fs c node index =
      match (inUse (dirEntries data size))[index]? with
      | none => .ok none
      | some entry => vfsCreateNodeFromExt2 v fs c entry.inode entry.name := by
  cases reads with
  | empty read =>
      simp [vfsExt2Readdir, ext2ReadDirAt, directory, read, dirEntries, entriesFrom, Disk.inUse]
  | @filled _ data' l s read same block =>
      obtain ⟨h', freed, kept⟩ := block.kept
      have places : placesFrom data' size (size + 1) 0 = usedPlaces data size :=
        placesFrom_congr formed.within formed.inside same stops_first
      have scanned : scanDirAt (readdirCallback index) data' size (size + 1) 0 ⟨0, none⟩ =
          .ok ((usedPlaces data size).foldl (readdirCallback index) ⟨0, none⟩) := by
        rw [← places]
        exact scanDirAt_eq (formed.within.congr formed.inside same) stops_first (Nat.zero_le _) (by omega)
      have few : (usedPlaces data size).length < 2 ^ 32 := by
        have most := @placesFrom_length data size (size + 1) 0
        have word := formed.within.word
        unfold usedPlaces
        omega
      simp only [vfsExt2Readdir, ext2ReadDirAt, directory, ne_eq, not_true_eq_false, if_false, read,
        Outcome.ok_bind, Outcome.pure_eq, scanned, freed, readdir_result few, ← usedPlaces_map,
        List.getElem?_map]
      cases at_index : (usedPlaces data size)[index]? with
      | none => rfl
      | some place =>
          obtain ⟨visited, used⟩ := placesFrom_mem formed.within stops_first (List.mem_of_getElem? at_index)
          obtain ⟨header, whole⟩ := formed.inside place visited
          have entry : entryAt (fun x => h'.mem (c.dirData + x)) place = entryAt data place :=
            (entryAt_congr kept header).2.2 (whole used)
          have short := entryAt_name_length data place
          have all : (entryAt data place).name.take (if (entryAt data place).name.length < 255 then
              (entryAt data place).name.length else 255) = (entryAt data place).name :=
            List.take_of_length_le (by split <;> omega)
          simp only [entry, all, Option.map_some]

/-- The node made for an inode that can be read. -/
theorem vfsCreateNodeFromExt2_some {inodeNum : Nat} {inode : Inode} (granted : c.Granted)
    (read : ext2ReadInode v fs true inodeNum = .ok (some inode)) (ended : 0 ∉ name)
    (short : name.length ≤ 255) :
    ∃ made, vfsCreateNodeFromExt2 v fs c inodeNum name = .ok (some made) ∧ made.name = name ∧
      made.inode = inodeNum ∧ made.file.type = ext2ToVfsType inode.mode := by
  have whole : (name.takeWhile (· ≠ 0)).take 255 = name := by
    have all : name.takeWhile (· ≠ 0) = name := List.takeWhile_eq_self_iff.mpr fun b member => by
      simpa using fun zero : b = 0 => ended (zero ▸ member)
    rw [all]
    exact List.take_of_length_le short
  simp only [vfsCreateNodeFromExt2, FileNode.vfsCreateNodeFromExt2, granted.1, granted.2, read,
    Outcome.ok_bind, Outcome.pure_eq, whole]
  exact ⟨_, rfl, rfl, rfl, rfl⟩

end Calls

end Ext2Node

/-- The fields of an entry that its node has. -/
def Ext2Node.Shows (made : Ext2Node) (entry : Ext2DirEntry) : Prop :=
  made.name = entry.name ∧ made.inode = entry.inode

section Lists

variable {v : Volume} {fs : Filesystem} {c : DirCall} {node : Ext2Node} {data : Memory} {size i : Nat}

/-- One entry by its index. -/
theorem readdir_entry (formed : WellFormed data size) (directory : node.file.type = .directory)
    (readable : InodesReadable v fs (inUse (dirEntries data size))) (granted : c.Granted)
    (reads : c.Reads v fs node.inode data size) {entry : Ext2DirEntry}
    (here : (inUse (dirEntries data size))[i]? = some entry) :
    ∃ made inode, node.vfsExt2Readdir v fs c i = .ok (some made) ∧ made.Shows entry ∧
      ext2ReadInode v fs true entry.inode = .ok (some inode) ∧ made.file.type = ext2ToVfsType inode.mode := by
  have member := List.mem_of_getElem? here
  obtain ⟨short, ended⟩ := Ext2Node.inUse_name formed member
  obtain ⟨inode, read⟩ := readable entry member
  obtain ⟨made, created, name, number, type⟩ := Ext2Node.vfsCreateNodeFromExt2_some granted read ended short
  refine ⟨made, inode, ?_, ⟨name, number⟩, read, type⟩
  rw [Ext2Node.vfsExt2Readdir_eq formed reads directory, here]
  exact created

/-- From its number of entries on, a directory gives NULL. -/
theorem readdir_past (formed : WellFormed data size) (directory : node.file.type = .directory)
    (reads : c.Reads v fs node.inode data size) (past : (inUse (dirEntries data size)).length ≤ i) :
    node.vfsExt2Readdir v fs c i = .ok none := by
  rw [Ext2Node.vfsExt2Readdir_eq formed reads directory, List.getElem?_eq_none past]

/-- The loop of `cmd_ls` collects what it gets until it gets NULL. -/
theorem lsLoop_lists {readdir : Nat → Outcome (Option Ext2Node)} {entries : List Ext2DirEntry}
    {fuel index : Nat}
    (gives : ∀ i entry, entries[i]? = some entry → ∃ made, readdir i = .ok (some made) ∧ made.Shows entry)
    (ends : ∀ i, entries.length ≤ i → readdir i = .ok none) (counted : entries.length < 2 ^ 32)
    (most : index ≤ entries.length) (enough : entries.length < fuel + index) :
    ∃ nodes, Ext2Node.lsLoop readdir fuel index = .ok nodes ∧
      List.Forall₂ Ext2Node.Shows nodes (entries.drop index) := by
  induction fuel generalizing index with
  | zero => omega
  | succ fuel ih =>
      rw [Ext2Node.lsLoop]
      rcases Nat.lt_or_ge index entries.length with inside | past
      · have next : (index + 1) % 2 ^ 32 = index + 1 := Nat.mod_eq_of_lt (by omega)
        obtain ⟨made, listed, shows⟩ := gives index _ (List.getElem?_eq_getElem inside)
        obtain ⟨rest, looped, all⟩ := ih (show index + 1 ≤ entries.length by omega) (by omega)
        simp only [listed, next, looped, Outcome.ok_bind, Outcome.pure_eq, List.drop_eq_getElem_cons inside]
        exact ⟨_, rfl, .cons shows all⟩
      · simp only [ends index past, Outcome.ok_bind, Outcome.pure_eq, List.drop_eq_nil_of_le past]
        exact ⟨_, rfl, .nil⟩

/-- **`cmd_ls` gets every entry in use once**, in the order of the directory, when all its calls read the
directory. -/
theorem ls_lists (formed : WellFormed data size) (directory : node.file.type = .directory)
    (readable : InodesReadable v fs (inUse (dirEntries data size))) (calls : Nat → DirCall)
    (granted : ∀ i, (calls i).Granted) (reads : ∀ i, (calls i).Reads v fs node.inode data size) :
    ∃ nodes, Ext2Node.lsLoop (fun i => node.vfsExt2Readdir v fs (calls i) i) (size + 1) 0 = .ok nodes ∧
      List.Forall₂ Ext2Node.Shows nodes (inUse (dirEntries data size)) := by
  have few : (inUse (dirEntries data size)).length ≤ size := by
    rw [← usedPlaces_map, List.length_map]
    exact placesFrom_length
  have word := formed.within.word
  refine @lsLoop_lists _ (inUse (dirEntries data size)) (size + 1) 0 (fun i entry here => ?_)
    (fun i past => readdir_past formed directory (reads i) past) (by omega) (Nat.zero_le _) (by omega)
  obtain ⟨made, _, listed, shows, -⟩ := readdir_entry formed directory readable (granted i) (reads i) here
  exact ⟨made, listed, shows⟩

end Lists

/-- The bytes of a directory with `a`, a deleted `b`, and `b`. -/
def docsData : Memory := (docs.getD (fun _ => 0, 0)).1

theorem docs_eq : docs = some (docsData, 40) := by
  have size := docs_size
  unfold docsData
  cases read : docs with
  | none =>
      rw [read] at size
      cases size
  | some pair =>
      rw [read] at size
      obtain ⟨data, n⟩ := pair
      cases size
      rfl

theorem docs_used : inUse (dirEntries docsData 40) = [⟨11, 12, [97]⟩, ⟨12, 16, [98]⟩] := by
  decide +kernel

theorem docs_formed : WellFormed docsData 40 := by
  refine ⟨docs_within docs_eq, fun offset visits => ?_⟩
  obtain ⟨-, first, second, third, visited⟩ := docs_records docs_eq
  rcases visited offset visits with rfl | rfl | rfl
  · simp [first]
  · simp [second]
  · simp [third]

end Kfs.Vfs
