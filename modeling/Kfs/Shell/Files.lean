/-
**`ls` and `cat` on the virtual files.**

The nodes of the virtual tree and the contents of its files are blocks of the kernel heap, which the shell shares with
the rest of the kernel. `cat` takes a buffer, reads the whole file into it, prints it and gives the buffer back. For
each line of a listing `vfs_virtual_readdir` takes a block for a copy of the child, and `cmd_ls` never gives it back.

The blocks of the files are some pointers of the heap that nobody else writes to (`FilesHeld`). Then `cat` prints the
content the file was made with and gives its buffer back (`cmdCat_prints`), and the loop of `ls` lists a directory from
its start for as long as there is room, with a block for each line (`listLoop_lists`).
-/

import Kfs.Heap.Shared
import Kfs.Shell.Cd
import Kfs.Strings.Printk
import Kfs.Vfs.Virtual
import Kfs.Vfs.Tree

namespace Kfs.Shell.Files

open Kfs.Heap Kfs.Vfs Kfs.Process Strings

/-! ### The tree -/

/-- A node of the virtual tree; `children` is the list that `node->children` and `next_sibling` make. -/
inductive VirtualEntry where
  | directory (name : CString) (children : List VirtualEntry)
  | file (name : CString) (node : VirtualNode)

namespace VirtualEntry

/-- `node->name`. -/
def name : VirtualEntry → CString
  | directory name _ => name
  | file name _ => name

/-- `node->type`. -/
def type : VirtualEntry → FileType
  | directory _ _ => .directory
  | file _ _ => .regular

/-- `node->size`. -/
def size : VirtualEntry → Nat
  | directory _ _ => 0
  | file _ node => node.size

/-- `node->finddir`: `vfs_virtual_finddir` for directories. -/
def finddirOp : VirtualEntry → Option (CString → Option VirtualEntry)
  | directory _ children => some fun name => children.find? fun child => child.name = name
  | file _ _ => none

end VirtualEntry

section Commands

variable (root : Option VirtualEntry) (image : VirtualEntry → Nat → UInt8)

/-- `vfs_resolve_path` in the virtual tree. -/
def resolveVirtual (path : CString) : Option VirtualEntry :=
  match path with
  | '/' :: rest =>
      match root with
      | none => none
      | some root =>
          if rest = [] then some root else lookupAll VirtualEntry.finddirOp root ((field rest).splitOn '/')
  | _ => none

/-- `resolve_path_from_pwd`. -/
def resolveVirtualFromPwd (k : Kernel) (path : CString) : Option VirtualEntry :=
  if path.head? = some '/' then resolveVirtual root path else resolveVirtual root (fullPath (currentPwd k) path)

/-- `vfs_virtual_readdir`: a copy of the child with an index. `image` gives the bytes of a node. -/
def vfsVirtualReaddir (c : Client) (children : List VirtualEntry) (index : Nat) :
    Outcome (Client × Option VirtualEntry) :=
  match children[index]? with
  | none => .ok (c, none)
  | some child => do
      let (c, copy) ← c.take FileNode.nodeBytes
      if copy = 0 then return (c, none)
      return (⟨{ c.heap with mem := c.heap.mem.writeBytes copy FileNode.nodeBytes (image child) }, c.live⟩, some child)

/-- The loop of `cmd_ls`, from an index on. -/
def listLoop (children : List VirtualEntry) : (fuel index : Nat) → Client → Outcome (Client × List VirtualEntry)
  | 0, _, _ => .diverge
  | fuel + 1, index, c => do
      let (c, entry) ← vfsVirtualReaddir image c children index
      match entry with
      | none => return (c, [])
      | some entry => do
          let (c, rest) ← listLoop children fuel ((index + 1) % 2 ^ 32) c
          return (c, entry :: rest)

/-- What `cmd_ls` prints for an entry. -/
def listLine (entry : VirtualEntry) : CString :=
  if entry.name = ['.'] ∨ entry.name = ['.', '.'] then []
  else "  ".toList ++ entry.name ++
    (match entry.type with
      | .directory => ['/']
      | _ => " (".toList ++ printInt (UInt32.ofNat entry.size) ++ " bytes)".toList) ++ ['\n']

/-- `cmd_ls`: the entries it got, and what it prints. -/
def cmdLs (c : Client) (k : Kernel) (arg : Option CString) : Outcome (Client × List VirtualEntry × CString) :=
  let path := arg.getD (currentPwd k)
  match resolveVirtualFromPwd root k path with
  | none => .ok (c, [], "ls: ".toList ++ path ++ ": No such file or directory\n".toList)
  | some (.file _ _) => .ok (c, [], "ls: ".toList ++ path ++ ": Not a directory\n".toList)
  | some (.directory _ children) => do
      let (c, entries) ← listLoop image children (children.length + 1) 0 c
      return (c, entries, '\n' :: (entries.flatMap listLine ++ ['\n']))

/-- A character of the memory, as `printk` reads it. -/
def charAt (m : Memory) (a : Nat) : Char := Char.ofNat (m a).toNat

/-- `cmd_cat` of a path: what it prints. Nodes of the virtual tree have no `open` and no `close`. -/
def cmdCat (c : Client) (k : Kernel) (path : CString) : Outcome (Client × CString) :=
  match resolveVirtualFromPwd root k path with
  | none => .ok (c, "cat: ".toList ++ path ++ ": No such file or directory\n".toList)
  | some (.directory _ _) => .ok (c, "cat: ".toList ++ path ++ ": Not a regular file\n".toList)
  | some (.file _ node) => do
      let (c, buffer) ← c.take ((node.size + 1) % 2 ^ 32)
      if buffer = 0 then return (c, "cat: Cannot allocate buffer\n".toList)
      let (m, bytesRead) := VirtualNode.vfsRead c.heap.mem node ⟨0, node.size, buffer⟩
      if bytesRead < 0 then do
        let c ← c.give buffer
        return (c, "cat: ".toList ++ path ++ ": Read error\n".toList)
      else do
        let m := m.store8 (buffer + bytesRead.toNat) 0
        match printPointer (charAt m) (UInt32.ofNat buffer) with
        | none => .diverge
        | some text => do
            let c ← Client.give ⟨{ c.heap with mem := m }, c.live⟩ buffer
            return (c, text)

end Commands

/-! ### What the heap holds -/

/-- What the files were made with, by their nodes; nothing when there was no room for it. -/
abbrev Contents := VirtualNode → Option (List UInt8)

/-- A file is in memory, inside the blocks of some pointers. -/
structure FileHeld (m : Memory) (l : List Segment) (blocks : List Nat) (node : VirtualNode)
    (content : List UInt8) : Prop where
  stores : VirtualNode.Stores m node content
  size : node.size = content.length
  text : 0 ∉ content
  within : ∀ x ∈ VirtualNode.footprint m node content,
    ∃ s ∈ l, s.free = false ∧ s.addr + 16 ∈ blocks ∧ x ∈ payload s

/-- **The files of a tree are in memory.** A file without content has no `read`. -/
def FilesHeld (root : Option VirtualEntry) (contents : Contents) (m : Memory) (l : List Segment)
    (blocks : List Nat) : Prop :=
  ∀ path name node, resolveVirtual root path = some (.file name node) →
    match contents node with
    | none => node.read = false ∧ node.size = 0
    | some content => FileHeld m l blocks node content

section Held

variable {root : Option VirtualEntry} {contents : Contents} {m m' : Memory} {l l' : List Segment} {blocks : List Nat}
  {node : VirtualNode} {content : List UInt8}

theorem FileHeld.keep (held : FileHeld m l blocks node content) (keeps : KeepsBlocks blocks l l' m m') :
    FileHeld m' l' blocks node content := by
  have same : Set.EqOn m' m (VirtualNode.footprint m node content) := by
    intro x inside
    obtain ⟨s, there, used, mine, covered⟩ := held.within x inside
    exact (keeps s there used mine).2 covered
  obtain ⟨stores, text⟩ := held.stores.congr same
  refine ⟨stores, held.size, held.text, fun x inside => ?_⟩
  have inside' : x ∈ VirtualNode.footprint m node content := by
    rwa [VirtualNode.footprint, text] at inside
  obtain ⟨s, there, used, mine, covered⟩ := held.within x inside'
  exact ⟨s, (keeps s there used mine).1, used, mine, covered⟩

theorem FileHeld.mono {more : List Nat} (held : FileHeld m l blocks node content) (subset : blocks ⊆ more) :
    FileHeld m l more node content := by
  refine ⟨held.stores, held.size, held.text, fun x inside => ?_⟩
  obtain ⟨s, there, used, mine, covered⟩ := held.within x inside
  exact ⟨s, there, used, subset mine, covered⟩

/-- **Files stay** while their blocks are left alone. -/
theorem FilesHeld.keep (held : FilesHeld root contents m l blocks) (keeps : KeepsBlocks blocks l l' m m') :
    FilesHeld root contents m' l' blocks := by
  intro path name node found
  have here := held path name node found
  cases made : contents node with
  | none =>
      rw [made] at here
      exact here
  | some content =>
      rw [made] at here
      exact FileHeld.keep here keeps

end Held

/-! ### Listing -/

section Listing

variable {image : VirtualEntry → Nat → UInt8} {children : List VirtualEntry} {c : Client} {l : List Segment}
  {rest : List Nat} {index fuel : Nat}

/-- **One call of `vfs_virtual_readdir`**: past the end or without room NULL, else one more block for the copy. -/
theorem readdir_cases (inv : ClientInv ⟨c.heap, c.live ++ rest⟩ l) :
    (vfsVirtualReaddir image c children index = .ok (c, none) ∧
        (children[index]? = none ∨ kmalloc c.heap FileNode.nodeBytes = .ok (c.heap, 0))) ∨
      ∃ child c' l' copy, children[index]? = some child ∧
        vfsVirtualReaddir image c children index = .ok (c', some child) ∧ c'.live = copy :: c.live ∧
        HasRoom l' FileNode.nodeBytes copy ∧ ClientInv ⟨c'.heap, c'.live ++ rest⟩ l' ∧
        KeepsBlocks (c.live ++ rest) l l' c.heap.mem c'.heap.mem := by
  unfold vfsVirtualReaddir
  cases there : children[index]? with
  | none => exact .inl ⟨rfl, .inl rfl⟩
  | some child =>
      rcases inv.take (show Heap.NoWrap FileNode.nodeBytes by decide) with
        null | ⟨h, b, l', taken, member, used, room, inv', keeps⟩
      · refine .inl ⟨?_, .inr null⟩
        simp only [Client.take_null null, Outcome.ok_bind, if_pos, Outcome.pure_eq]
      · refine .inr ⟨child, ⟨{ h with mem := h.mem.writeBytes (b.addr + 16) FileNode.nodeBytes (image child) },
          (b.addr + 16) :: c.live⟩, l', b.addr + 16, rfl, ?_, rfl, ⟨b, member, used, rfl, room⟩, ?_⟩
        · have given : b.addr + 16 ≠ 0 := by omega
          simp only [Client.take_given taken given, Outcome.ok_bind, if_neg given, Outcome.pure_eq]
        · obtain ⟨inv'', keeps'⟩ := inv'.store (m := h.mem.writeBytes (b.addr + 16) FileNode.nodeBytes (image child))
            member rfl ((Memory.writeBytes_eqOn _ _ _ _).mono fun x outside => by
              simp only [payload, Set.mem_ofPred_eq] at outside ⊢
              omega)
          exact ⟨inv'', keeps.trans keeps'⟩

/-- **The loop of `cmd_ls`** lists a directory from its start for as long as there is room, with a block for each
line. -/
theorem listLoop_lists (inv : ClientInv ⟨c.heap, c.live ++ rest⟩ l)
    (copies : ∀ p ∈ c.live, HasRoom l FileNode.nodeBytes p) (counted : c.live.length = index)
    (most : index ≤ children.length) (enough : children.length < fuel + index) :
    ∃ c' entries l', listLoop image children fuel index c = .ok (c', entries) ∧ entries <+: children.drop index ∧
      (entries = children.drop index ∨ kmalloc c'.heap FileNode.nodeBytes = .ok (c'.heap, 0)) ∧
      c'.live.length = index + entries.length ∧ (∀ p ∈ c'.live, HasRoom l' FileNode.nodeBytes p) ∧
      ClientInv ⟨c'.heap, c'.live ++ rest⟩ l' ∧ KeepsBlocks rest l l' c.heap.mem c'.heap.mem := by
  induction fuel generalizing c l index with
  | zero => omega
  | succ fuel ih =>
      have small : index + 1 < 2 ^ 32 := by
        have room := live_room inv (List.nodup_append.mp inv.nodup).1 copies
        rw [counted] at room
        simp only [FileNode.nodeBytes, heapSize] at room
        omega
      rcases @readdir_cases image children c l rest index inv with
        ⟨ends, reason⟩ | ⟨child, c', l', copy, there, read, live, new, inv', keeps⟩
      · refine ⟨c, [], l, ?_, List.nil_prefix, ?_, counted, copies, inv, .refl _ _ _⟩
        · simp only [listLoop, ends, Outcome.ok_bind, Outcome.pure_eq]
        · refine reason.imp_left fun past => ?_
          exact (List.drop_eq_nil_of_le (List.getElem?_eq_none_iff.mp past)).symm
      · have inside : index < children.length := (List.getElem?_eq_some_iff.mp there).1
        have copies' : ∀ p ∈ c'.live, HasRoom l' FileNode.nodeBytes p := by
          rw [live]
          intro p member
          rcases List.mem_cons.mp member with rfl | old
          · exact new
          · exact (copies p old).keep keeps (List.mem_append_left _ old)
        have counted' : c'.live.length = index + 1 := by
          rw [live, List.length_cons, counted]
        obtain ⟨c'', entries, l'', looped, part, whole, total, copies'', inv'', keeps'⟩ :=
          ih inv' copies' counted' inside (by omega)
        have next : (index + 1) % 2 ^ 32 = index + 1 := Nat.mod_eq_of_lt small
        obtain ⟨_, same⟩ := List.getElem?_eq_some_iff.mp there
        rw [List.drop_eq_getElem_cons inside, same]
        refine ⟨c'', child :: entries, l'', ?_, (List.prefix_cons_inj child).mpr part,
          whole.imp_left (congrArg (child :: ·)), ?_, copies'', inv'',
          (keeps.mono (List.subset_append_right _ _)).trans keeps'⟩
        · simp only [listLoop, read, next, looped, Outcome.ok_bind, Outcome.pure_eq]
        · rw [total, List.length_cons]
          omega

end Listing

/-! ### Printing -/

section Printing

variable {root : Option VirtualEntry} {contents : Contents} {c : Client} {l : List Segment} {rest blocks : List Nat}
  {k : Kernel} {path name : CString} {content : List UInt8} {m : Memory} {node : VirtualNode} {s : Nat}

/-- The characters of a content. -/
def contentText (content : List UInt8) : CString := content.map fun b => Char.ofNat b.toNat

theorem charOf_ne_nul {b : UInt8} (some : b ≠ 0) : Char.ofNat b.toNat ≠ '\x00' := by
  intro same
  have small := b.toNat_lt
  have valid : b.toNat.isValidChar := .inl (by omega)
  have value := congrArg Char.toNat same
  rw [Char.ofNat, dif_pos valid] at value
  exact some (UInt8.toNat_inj.mp value)

/-- Bytes with a NUL behind them are the string of their characters. -/
theorem holdsString_bytes (bytes : ∀ k < content.length, m (s + k) = content.getD k 0)
    (ends : m (s + content.length) = 0) (text : 0 ∉ content) : HoldsString (charAt m) s (contentText content) := by
  induction content generalizing s with
  | nil =>
      show charAt m s = '\x00'
      rw [charAt, show m s = 0 from ends]
      rfl
  | cons b content ih =>
      have first : m s = b := bytes 0 (Nat.zero_lt_succ _)
      refine ⟨congrArg (fun b : UInt8 => Char.ofNat b.toNat) first, ?_, ih (fun k less => ?_) ?_ ?_⟩
      · exact charOf_ne_nul fun zero => text (zero ▸ List.mem_cons_self)
      · have next := bytes (k + 1) (Nat.succ_lt_succ less)
        rwa [Nat.add_assoc, Nat.add_comm 1 k]
      · rwa [List.length_cons, Nat.add_comm content.length 1, ← Nat.add_assoc] at ends
      · exact fun member => text (List.mem_cons_of_mem _ member)

/-- Blocks of other pointers have no byte of a new one. -/
theorem FileHeld.apart {m : Memory} {b : Segment} {live : List Nat} {h : HeapState}
    (held : FileHeld m l blocks node content) (subset : blocks ⊆ live)
    (inv : ClientInv ⟨h, (b.addr + 16) :: live⟩ l) (member : b ∈ l) :
    ∀ x ∈ VirtualNode.footprint m node content, x ∉ payload b := by
  intro x inside
  obtain ⟨t, there, -, mine, covered⟩ := held.within x inside
  have other : t.addr ≠ b.addr := fun same =>
    (List.nodup_cons.mp inv.nodup).1 (subset (same ▸ mine))
  exact payload_apart inv.heap.tiles there member other x covered

/-- **Reading a whole file** into a new block puts its content there. -/
theorem FileHeld.read {b : Segment} {live : List Nat} {h : HeapState} (held : FileHeld h.mem l blocks node content)
    (subset : blocks ⊆ live) (inv : ClientInv ⟨h, (b.addr + 16) :: live⟩ l) (member : b ∈ l)
    (room : node.size + 1 + 16 ≤ b.size) :
    VirtualNode.vfsRead h.mem node ⟨0, node.size, b.addr + 16⟩ =
      (h.mem.writeBytes (b.addr + 16) content.length fun k => content.getD k 0, (content.length : Int)) := by
  have apart := held.apart subset inv member
  have size := held.size
  have small := held.stores.small
  have whole : VirtualNode.served content ⟨0, node.size, b.addr + 16⟩ = content.length := by
    unfold VirtualNode.served
    dsimp only
    omega
  have reads : VirtualNode.ReadsContent h.mem node ⟨0, node.size, b.addr + 16⟩ content := by
    by_cases some : 0 < content.length
    · refine held.stores.reads_inside (Nat.succ_ne_zero _) some (show 0 + node.size < 2 ^ 32 by omega) ?_
      rw [whole]
      by_contra overlap
      refine apart (max (VirtualNode.contentOf h.mem node.inode) (b.addr + 16)) (.inr ?_) ?_
      · dsimp only at overlap
        omega
      · simp only [payload, Set.mem_ofPred_eq]
        dsimp only at overlap
        omega
    · exact held.stores.reads_past (Nat.succ_ne_zero _) (show content.length ≤ 0 by omega)
  have result := reads.result
  rw [whole] at result
  simpa only [Nat.zero_add] using result

/-- **What `cat` prints**: the content of a file, if there is room for the buffer. -/
def CatPrints (root : Option VirtualEntry) (contents : Contents) (h : HeapState) (k : Kernel) (path text : CString) :
    Prop :=
  match resolveVirtualFromPwd root k path with
  | none => text = "cat: ".toList ++ path ++ ": No such file or directory\n".toList
  | some (.directory _ _) => text = "cat: ".toList ++ path ++ ": Not a regular file\n".toList
  | some (.file _ node) =>
      kmalloc h (node.size + 1) = .ok (h, 0) ∧ text = "cat: Cannot allocate buffer\n".toList ∨
      kmalloc h (node.size + 1) ≠ .ok (h, 0) ∧
        match contents node with
        | none => text = "cat: ".toList ++ path ++ ": Read error\n".toList
        | some content => text = contentText content

theorem resolveVirtualFromPwd_eq (root : Option VirtualEntry) (k : Kernel) (path : CString) :
    ∃ path', resolveVirtualFromPwd root k path = resolveVirtual root path' := by
  unfold resolveVirtualFromPwd
  split
  · exact ⟨path, rfl⟩
  · exact ⟨_, rfl⟩

/-- The memory with a content and a NUL behind it in a block. -/
def withText (m : Memory) (buffer : Nat) (content : List UInt8) : Memory :=
  (m.writeBytes buffer content.length fun k => content.getD k 0).store8 (buffer + content.length) 0

theorem withText_eqOn {b : Segment} (room : content.length + 1 + 16 ≤ b.size) :
    Set.EqOn (withText m (b.addr + 16) content) m {x | x ∉ payload b} := by
  intro x outside
  simp only [payload, Set.mem_ofPred_eq] at outside
  rw [withText, Memory.store8_of_ne _ _ (by omega)]
  refine Memory.writeBytes_eqOn _ _ _ _ ?_
  simp only [Set.mem_ofPred_eq]
  omega

/-- What `printk` prints of it. -/
theorem print_withText {buffer : Nat} (given : buffer ≠ 0) (low : buffer < 2 ^ 32) (short : content.length < 2 ^ 31)
    (text : 0 ∉ content) :
    printPointer (charAt (withText m buffer content)) (UInt32.ofNat buffer) = some (contentText content) := by
  have value : (UInt32.ofNat buffer).toNat = buffer := UInt32.toNat_ofNat_of_lt' low
  have pointer : UInt32.ofNat buffer ≠ 0 := fun zero => by
    rw [zero] at value
    exact given value.symm
  have holds : HoldsString (charAt (withText m buffer content)) buffer (contentText content) := by
    refine holdsString_bytes (fun k less => ?_) (Memory.store8_self _ _ _) text
    rw [withText, Memory.store8_of_ne _ _ (by omega)]
    exact Memory.writeBytes_inside _ _ _ _ less
  rw [printPointer, if_neg pointer, value]
  refine printString_of_holds holds ?_
  rw [contentText, List.length_map]
  omega

theorem FilesHeld.small (held : FilesHeld root contents m l blocks)
    (found : resolveVirtualFromPwd root k path = some (.file name node)) : node.size < 2 ^ 31 := by
  obtain ⟨path', same⟩ := resolveVirtualFromPwd_eq root k path
  have here := held path' name node (same ▸ found)
  cases made : contents node with
  | none =>
      rw [made] at here
      rw [here.2]
      decide
  | some content =>
      rw [made] at here
      rw [here.size]
      exact here.stores.small

/-- **`cat` prints the file and gives its buffer back.** -/
theorem cmdCat_prints (inv : ClientInv ⟨c.heap, c.live ++ rest⟩ l) (subset : blocks ⊆ c.live ++ rest)
    (held : FilesHeld root contents c.heap.mem l blocks) (k : Kernel) (path : CString) :
    ∃ c' text l', cmdCat root c k path = .ok (c', text) ∧ CatPrints root contents c.heap k path text ∧
      c'.live = c.live ∧ ClientInv ⟨c'.heap, c.live ++ rest⟩ l' ∧
      KeepsBlocks (c.live ++ rest) l l' c.heap.mem c'.heap.mem := by
  obtain ⟨path', same⟩ := resolveVirtualFromPwd_eq root k path
  unfold cmdCat CatPrints
  cases found : resolveVirtualFromPwd root k path with
  | none => exact ⟨c, _, l, rfl, rfl, rfl, inv, .refl _ _ _⟩
  | some entry =>
      cases entry with
      | directory name children => exact ⟨c, _, l, rfl, rfl, rfl, inv, .refl _ _ _⟩
      | file name node =>
          have small := held.small found
          have here := held path' name node (same ▸ found)
          have request : (node.size + 1) % 2 ^ 32 = node.size + 1 := Nat.mod_eq_of_lt (by omega)
          have fits : Heap.NoWrap (node.size + 1) := by
            unfold Heap.NoWrap blockHeaderSize
            omega
          simp only [request]
          rcases inv.take fits with null | ⟨h, b, l', taken, member, used, room, inv', keeps⟩
          · refine ⟨c, _, l, ?_, .inl ⟨null, rfl⟩, rfl, inv, .refl _ _ _⟩
            simp only [Client.take_null null, Outcome.ok_bind, if_pos, Outcome.pure_eq]
          · have given : b.addr + 16 ≠ 0 := by omega
            have refused : kmalloc c.heap (node.size + 1) ≠ .ok (c.heap, 0) := by
              rw [taken]
              exact fun both => given (congrArg Prod.snd (Outcome.ok.inj both))
            simp only [Client.take_given taken given, Outcome.ok_bind, if_neg given, Outcome.pure_eq]
            cases made : contents node with
            | none =>
                rw [made] at here
                have read : VirtualNode.vfsRead h.mem node ⟨0, node.size, b.addr + 16⟩ = (h.mem, -1) := by
                  rw [VirtualNode.vfsRead, if_neg given, if_pos here.1]
                obtain ⟨h', l'', freed, after, keeps'⟩ := inv'.give
                refine ⟨⟨h', c.live⟩, _, l'', ?_, .inr ⟨refused, rfl⟩, rfl, after, keeps.trans keeps'⟩
                simp only [read, show ((-1 : Int) < 0) from by decide, if_true, Client.give_first freed,
                  Outcome.ok_bind]
            | some content =>
                rw [made] at here
                have held' : FileHeld h.mem l' blocks node content := here.keep (keeps.mono subset)
                have read := held'.read subset inv' member room
                have size := held'.size
                have bounds := inv'.heap.bounds member
                simp only [heapEnd, heapStart, heapSize] at bounds
                obtain ⟨stored, keeps'⟩ := inv'.store member rfl
                  (@withText_eqOn content h.mem b (by omega))
                obtain ⟨h', l'', freed, after, keeps''⟩ := stored.give
                have printed := @print_withText content h.mem (b.addr + 16) given (by omega) held'.stores.small
                  held'.text
                rw [withText] at printed freed
                have positive : ¬ ((content.length : Int) < 0) := by omega
                refine ⟨⟨h', c.live⟩, _, l'', ?_, .inr ⟨refused, rfl⟩, rfl, after,
                  keeps.trans (keeps'.trans keeps'')⟩
                simp only [read, if_neg positive, Int.toNat_natCast, printed, Client.give_first freed,
                  Outcome.ok_bind]

end Printing

end Kfs.Shell.Files
