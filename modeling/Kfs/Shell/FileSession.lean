/-
**A session with the virtual files.**

`vfs_init` makes the tree in blocks of its own. From then on the shell and the rest of the kernel take turns with the
heap (`FileStep`). What holds at each moment is `Kept`: the files are in memory, the copies that `ls` has made
have their blocks, and all blocks are apart. A step keeps it (`Kept.step`), so a whole session does
(`Kept.run`), and `files_in_session` says what every `cat` and every `ls` of a session prints, and how many
lines can be listed: a heap of 1 MB has room for 2221 copies.
-/

import Kfs.Shell.Files

namespace Kfs.Shell.Files

open Kfs.Heap Kfs.Vfs Kfs.Process Strings

/-! ### The tree that `vfs_init` makes -/

section Boot

/-- The client with other bytes in the memory. -/
def withMem (c : Client) (m : Memory) : Client := ⟨{ c.heap with mem := m }, c.live⟩

/-- `vfs_create_virtual_dir`. What is stored in the node is inside its block, and left out. -/
def vfsCreateVirtualDir (c : Client) (name : CString) : Outcome (Client × Option VirtualEntry) := do
  let (c, node) ← c.take FileNode.nodeBytes
  if node = 0 then return (c, none)
  return (c, some (.directory name []))

/-- The part of `vfs_create_virtual_file` that has its `virtual_file_data_t`. -/
def storeContent (c : Client) (name : CString) (content : List UInt8) (data : Nat) :
    Outcome (Client × Option VirtualEntry) := do
  let c := withMem c (c.heap.mem.store32 (data + 4) content.length)
  let (c, text) ← c.take (content.length + 1)
  let c := withMem c (c.heap.mem.store32 data text)
  if text = 0 then do
    let c ← c.give data
    return (c, some (.file name VirtualNode.blank))
  else
    let c := withMem c (VirtualNode.strcpy c.heap.mem text content)
    return (c, some (.file name ⟨content.length, data, true⟩))

/-- `vfs_create_virtual_file`. -/
def vfsCreateVirtualFile (c : Client) (name : CString) (content : List UInt8) :
    Outcome (Client × Option VirtualEntry) := do
  let (c, node) ← c.take FileNode.nodeBytes
  if node = 0 then return (c, none)
  let (c, data) ← c.take FileNode.dataBytes
  if data = 0 then return (c, some (.file name VirtualNode.blank))
  storeContent c name content data

/-- The text of `readme.txt`. -/
def welcomeText : CString := "Welcome to KFS-6!\nThis is a test file.\n".toList

/-- `vfs_init`: the root of the tree. Each child is put in front of the others. -/
def vfsInit (c : Client) : Outcome (Client × Option VirtualEntry) := do
  let (c, root) ← vfsCreateVirtualDir c ['/']
  let (c, dev) ← vfsCreateVirtualDir c "dev".toList
  let (c, tmp) ← vfsCreateVirtualDir c "tmp".toList
  let (c, home) ← vfsCreateVirtualDir c "home".toList
  let (c, test) ← vfsCreateVirtualFile c "readme.txt".toList (nameBytes welcomeText)
  match root with
  | none => return (c, none)
  | some _ => return (c, some (.directory ['/'] ([test, home, tmp, dev].filterMap id)))

/-- Every file has that text, if there was room for it. -/
def bootContents : Contents := fun node => if node.read then some (nameBytes welcomeText) else none

variable {c : Client} {l : List Segment} {name : CString} {content : List UInt8} {root : Option VirtualEntry}

/-- **A directory is made**, or there is no room for it. -/
theorem vfsCreateVirtualDir_cases (inv : ClientInv c l) (name : CString) :
    ∃ c' l' entry new, vfsCreateVirtualDir c name = .ok (c', entry) ∧ c'.live = new ++ c.live ∧ ClientInv c' l' ∧
      (entry = none ∨ entry = some (.directory name [])) := by
  unfold vfsCreateVirtualDir
  rcases inv.take (show Heap.NoWrap FileNode.nodeBytes by decide) with
    null | ⟨h, b, l', taken, member, used, room, inv', keeps⟩
  · refine ⟨c, l, none, [], ?_, rfl, inv, .inl rfl⟩
    simp only [Client.take_null null, Outcome.ok_bind, if_pos, Outcome.pure_eq]
  · have given : b.addr + 16 ≠ 0 := by omega
    refine ⟨_, l', _, [b.addr + 16], ?_, rfl, inv', .inr rfl⟩
    simp only [Client.take_given taken given, Outcome.ok_bind, if_neg given, Outcome.pure_eq]

/-- A word inside a block. -/
theorem store32_inside {m : Memory} {b : Segment} {a v : Nat} (low : b.addr + 16 ≤ a) (high : a + 4 ≤ b.addr + b.size) :
    Set.EqOn (m.store32 a v) m {x | x ∉ payload b} := by
  refine (Memory.store32_eqOn m a v).mono ?_
  intro x outside
  simp only [payload, Set.mem_ofPred_eq] at outside ⊢
  omega

/-- **What a new file holds**: its size and the address of its text in one block, the text in another. -/
theorem fileHeld_new {m m' : Memory} {l : List Segment} {b t : Segment} {blocks : List Nat} (text : 0 ∉ content)
    (short : content.length < 2 ^ 31) (tiles : Tiles heapStart heapEnd l) (inside : b ∈ l) (used : b.free = false)
    (room : 8 + 16 ≤ b.size) (inside' : t ∈ l) (used' : t.free = false) (room' : content.length + 1 + 16 ≤ t.size)
    (other : b.addr ≠ t.addr) (mine : b.addr + 16 ∈ blocks) (mine' : t.addr + 16 ∈ blocks)
    (size : m.load32 (b.addr + 16 + 4) = content.length)
    (stored : m' = VirtualNode.strcpy (m.store32 (b.addr + 16) (t.addr + 16)) (t.addr + 16) content) :
    FileHeld m' l blocks ⟨content.length, b.addr + 16, true⟩ content := by
  have apart := tiles.disjoint inside inside' other
  have bounds := tiles.bounds inside'
  simp only [heapEnd, heapStart, heapSize] at bounds
  have address : VirtualNode.contentOf m' (b.addr + 16) = t.addr + 16 := by
    rw [VirtualNode.contentOf, stored, VirtualNode.load32_strcpy (by omega), Memory.load32_store32,
      Nat.mod_eq_of_lt (by omega)]
  refine ⟨⟨rfl, Nat.succ_ne_zero _, ?_, ?_, fun k less => ?_, short⟩, rfl, text, fun x covered => ?_⟩
  · rw [address]
    exact Nat.succ_ne_zero _
  · show VirtualNode.sizeOf m' (b.addr + 16) = content.length
    rw [VirtualNode.sizeOf, stored, VirtualNode.load32_strcpy (by omega),
      Memory.load32_store32_of_disjoint _ _ (by omega), size]
  · rw [address, stored]
    exact Memory.writeBytes_inside _ _ (content.length + 1) (fun k => content.getD k 0) (by omega)
  · rw [VirtualNode.footprint, address] at covered
    rcases covered with data | chars
    · refine ⟨b, inside, used, mine, ?_⟩
      simp only [payload, Set.mem_ofPred_eq]
      dsimp only at data
      omega
    · refine ⟨t, inside', used', mine', ?_⟩
      simp only [payload, Set.mem_ofPred_eq]
      omega

/-- **A content is stored**, or its block is given back. -/
theorem storeContent_cases {h : HeapState} {b : Segment} {live : List Nat}
    (inv : ClientInv ⟨h, (b.addr + 16) :: live⟩ l) (member : b ∈ l) (used : b.free = false) (room : 8 + 16 ≤ b.size)
    (name : CString) (text : 0 ∉ content) (short : content.length < 2 ^ 31) :
    ∃ c' l' node new, storeContent ⟨h, (b.addr + 16) :: live⟩ name content (b.addr + 16) =
        .ok (c', some (.file name node)) ∧ c'.live = new ++ live ∧ ClientInv c' l' ∧
      (node = VirtualNode.blank ∨ node.read = true ∧ FileHeld c'.heap.mem l' new node content) := by
  obtain ⟨inv', -⟩ := inv.store member rfl
    (@store32_inside h.mem b (b.addr + 16 + 4) content.length (by omega) (by omega))
  -- the heap with the length in it gets a name: nothing below looks inside
  obtain ⟨h', made⟩ : ∃ h', h' = { h with mem := h.mem.store32 (b.addr + 16 + 4) content.length } := ⟨_, rfl⟩
  have started : withMem ⟨h, (b.addr + 16) :: live⟩ (h.mem.store32 (b.addr + 16 + 4) content.length) =
      ⟨h', (b.addr + 16) :: live⟩ := by
    rw [made]
    rfl
  have word : h'.mem.load32 (b.addr + 16 + 4) = content.length := by
    rw [made]
    exact (Memory.load32_store32 _ _ _).trans (Nat.mod_eq_of_lt (by omega))
  rw [← made] at inv'
  clear made
  have fits : Heap.NoWrap (content.length + 1) := by
    unfold Heap.NoWrap blockHeaderSize
    omega
  unfold storeContent
  simp only [started]
  rcases inv'.take fits with null | ⟨h₃, t, l₃, taken, member', used', room', inv₃, keeps⟩
  · obtain ⟨inv₃, -⟩ := inv'.store member rfl (@store32_inside h'.mem b (b.addr + 16) 0 (by omega) (by omega))
    obtain ⟨h₄, l₄, freed, inv₄, -⟩ := inv₃.give
    have refused : Client.take ⟨h', (b.addr + 16) :: live⟩ (content.length + 1) =
        .ok (⟨h', (b.addr + 16) :: live⟩, 0) := Client.take_null null
    have dropped : Client.give (withMem ⟨h', (b.addr + 16) :: live⟩ (h'.mem.store32 (b.addr + 16) 0)) (b.addr + 16) =
        .ok ⟨h₄, live⟩ := Client.give_first freed
    refine ⟨⟨h₄, live⟩, l₄, VirtualNode.blank, [], ?_, rfl, inv₄, .inl rfl⟩
    rw [refused, Outcome.ok_bind]
    refine (if_pos rfl).trans ?_
    rw [dropped]
    rfl
  · have given : t.addr + 16 ≠ 0 := by omega
    have obtained := Client.take_given (c := ⟨h', (b.addr + 16) :: live⟩) taken given
    obtain ⟨there, same⟩ := keeps b member used List.mem_cons_self
    have other : b.addr ≠ t.addr := fun equal =>
      (List.nodup_cons.mp inv₃.nodup).1 (equal ▸ List.mem_cons_self)
    obtain ⟨inv₄, -⟩ := (inv₃.perm (List.Perm.swap _ _ _)).store there rfl
      (@store32_inside h₃.mem b (b.addr + 16) (t.addr + 16) (by omega) (by omega))
    obtain ⟨inv₅, -⟩ := (inv₄.perm (List.Perm.swap _ _ _)).store
      (m := VirtualNode.strcpy (h₃.mem.store32 (b.addr + 16) (t.addr + 16)) (t.addr + 16) content) member' rfl
      ((Memory.writeBytes_eqOn _ _ _ _).mono fun x outside => by
        simp only [payload, Set.mem_ofPred_eq] at outside ⊢
        omega)
    have size : h₃.mem.load32 (b.addr + 16 + 4) = content.length := by
      refine (Memory.load32_congr (same.mono fun x inside => ?_)).trans word
      simp only [Set.mem_Ico, payload, Set.mem_ofPred_eq] at inside ⊢
      omega
    have held := fileHeld_new text short inv₅.heap.tiles there used room member' used' room' other
      (show b.addr + 16 ∈ [t.addr + 16, b.addr + 16] from List.mem_cons_of_mem _ List.mem_cons_self)
      (show t.addr + 16 ∈ [t.addr + 16, b.addr + 16] from List.mem_cons_self) size rfl
    refine ⟨withMem (withMem ⟨h₃, (t.addr + 16) :: (b.addr + 16) :: live⟩ (h₃.mem.store32 (b.addr + 16) (t.addr + 16)))
      (VirtualNode.strcpy (h₃.mem.store32 (b.addr + 16) (t.addr + 16)) (t.addr + 16) content), l₃,
      ⟨content.length, b.addr + 16, true⟩, [t.addr + 16, b.addr + 16], ?_, rfl, inv₅, .inr ⟨rfl, held⟩⟩
    simp only [obtained, Outcome.ok_bind, if_neg given, Outcome.pure_eq]
    rfl

/-- **A file is made**, with its content if there is room for that, or not at all. -/
theorem vfsCreateVirtualFile_cases (inv : ClientInv c l) (name : CString) (text : 0 ∉ content)
    (short : content.length < 2 ^ 31) :
    ∃ c' l' entry new, vfsCreateVirtualFile c name content = .ok (c', entry) ∧ c'.live = new ++ c.live ∧
      ClientInv c' l' ∧ (entry = none ∨ entry = some (.file name VirtualNode.blank) ∨
        ∃ node, entry = some (.file name node) ∧ node.read = true ∧ FileHeld c'.heap.mem l' new node content) := by
  unfold vfsCreateVirtualFile
  rcases inv.take (show Heap.NoWrap FileNode.nodeBytes by decide) with
    null | ⟨h₁, b₁, l₁, taken₁, -, -, -, inv₁, -⟩
  · refine ⟨c, l, none, [], ?_, rfl, inv, .inl rfl⟩
    simp only [Client.take_null null, Outcome.ok_bind, if_pos, Outcome.pure_eq]
  have given₁ : b₁.addr + 16 ≠ 0 := by omega
  simp only [Client.take_given taken₁ given₁, Outcome.ok_bind, if_neg given₁]
  rcases inv₁.take (show Heap.NoWrap FileNode.dataBytes by decide) with
    null | ⟨h₂, b₂, l₂, taken₂, member₂, used₂, room₂, inv₂, -⟩
  · refine ⟨⟨h₁, (b₁.addr + 16) :: c.live⟩, l₁, some (.file name VirtualNode.blank), [b₁.addr + 16], ?_, rfl, inv₁,
      .inr (.inl rfl)⟩
    simp only [@Client.take_null ⟨h₁, (b₁.addr + 16) :: c.live⟩ _ null, Outcome.ok_bind, if_pos, Outcome.pure_eq]
  have given₂ : b₂.addr + 16 ≠ 0 := by omega
  simp only [@Client.take_given ⟨h₁, (b₁.addr + 16) :: c.live⟩ _ _ _ taken₂ given₂, Outcome.ok_bind, if_neg given₂]
  obtain ⟨c', l', node, new, stored, live, inv', kind⟩ :=
    storeContent_cases inv₂ member₂ used₂ room₂ name text short
  refine ⟨c', l', some (.file name node), new ++ [b₁.addr + 16], stored, ?_, inv', .inr ?_⟩
  · rw [live, List.append_assoc, List.singleton_append]
  · rcases kind with rfl | ⟨read, held⟩
    · exact .inl rfl
    · exact .inr ⟨node, rfl, read, held.mono (List.subset_append_left _ _)⟩

/-! ### The files are children of the root -/

section Tree

variable {children : List VirtualEntry} {names : List CString} {top : CString} {node : VirtualNode} {path : CString}

/-- Below a directory whose directories are empty, names lead to one of its own files. -/
theorem lookup_children (bare : ∀ n below, VirtualEntry.directory n below ∈ children → below = [])
    (found : lookupAll VirtualEntry.finddirOp (.directory top children) names = some (.file name node)) :
    VirtualEntry.file name node ∈ children := by
  cases names with
  | nil =>
      rw [lookupAll] at found
      cases found
  | cons first names =>
      simp only [lookupAll, VirtualEntry.finddirOp] at found
      cases child : children.find? fun child => decide (child.name = first) with
      | none =>
          rw [child] at found
          dsimp only at found
          cases found
      | some entry =>
          rw [child] at found
          have member := List.mem_of_find?_eq_some child
          dsimp only at found
          cases names with
          | nil =>
              rw [lookupAll] at found
              exact Option.some.inj found ▸ member
          | cons second names =>
              cases entry with
              | file => simp only [lookupAll, VirtualEntry.finddirOp, reduceCtorEq] at found
              | directory n below =>
                  obtain rfl := bare n below member
                  simp only [lookupAll, VirtualEntry.finddirOp, List.find?_nil, reduceCtorEq] at found

theorem resolveVirtual_children (bare : ∀ n below, VirtualEntry.directory n below ∈ children → below = [])
    (found : resolveVirtual (some (.directory top children)) path = some (.file name node)) :
    VirtualEntry.file name node ∈ children := by
  unfold resolveVirtual at found
  split at found
  · dsimp only at found
    split at found
    · cases found
    · exact lookup_children bare found
  · cases found

theorem resolveVirtual_none (path : CString) : resolveVirtual none path = none := by
  unfold resolveVirtual
  split <;> rfl

end Tree

theorem welcomeText_string : (0 : UInt8) ∉ nameBytes welcomeText ∧ (nameBytes welcomeText).length < 2 ^ 31 := by decide

/-- A directory that was made is empty. -/
theorem directory_made {made : Option VirtualEntry} {entry : VirtualEntry}
    (kind : made = none ∨ made = some (.directory name [])) (here : some entry = made) :
    entry = .directory name [] := by
  rcases kind with gone | made
  · rw [gone] at here
    cases here
  · rw [made] at here
    exact Option.some.inj here

/-- A child of the root is the file that was made, or an empty directory. -/
theorem made_children {test home tmp dev : Option VirtualEntry} {first second third : CString} {entry : VirtualEntry}
    (kind : home = none ∨ home = some (.directory first [])) (kind' : tmp = none ∨ tmp = some (.directory second []))
    (kind'' : dev = none ∨ dev = some (.directory third [])) (inside : entry ∈ [test, home, tmp, dev].filterMap id) :
    some entry = test ∨ ∃ n, entry = .directory n [] := by
  obtain ⟨made, here, same⟩ := List.mem_filterMap.mp inside
  rw [show made = some entry from same] at here
  simp only [List.mem_cons, List.not_mem_nil, or_false] at here
  rcases here with here | here | here | here
  · exact .inl here
  · exact .inr ⟨_, directory_made kind here⟩
  · exact .inr ⟨_, directory_made kind' here⟩
  · exact .inr ⟨_, directory_made kind'' here⟩

/-- **What `vfs_init` leaves**: a tree with its files in memory, in blocks of its own. -/
theorem vfsInit_held (inv : ClientInv c l) :
    ∃ c' l' root tree, vfsInit c = .ok (c', root) ∧ c'.live = tree ++ c.live ∧ ClientInv c' l' ∧
      FilesHeld root bootContents c'.heap.mem l' tree := by
  obtain ⟨c₁, l₁, top, new₁, made₁, live₁, inv₁, kind₁⟩ := vfsCreateVirtualDir_cases inv ['/']
  obtain ⟨c₂, l₂, dev, new₂, made₂, live₂, inv₂, kind₂⟩ := vfsCreateVirtualDir_cases inv₁ "dev".toList
  obtain ⟨c₃, l₃, tmp, new₃, made₃, live₃, inv₃, kind₃⟩ := vfsCreateVirtualDir_cases inv₂ "tmp".toList
  obtain ⟨c₄, l₄, home, new₄, made₄, live₄, inv₄, kind₄⟩ := vfsCreateVirtualDir_cases inv₃ "home".toList
  obtain ⟨c₅, l₅, test, new₅, made₅, live₅, inv₅, kind₅⟩ :=
    vfsCreateVirtualFile_cases inv₄ "readme.txt".toList welcomeText_string.1 welcomeText_string.2
  have live : c₅.live = new₅ ++ (new₄ ++ (new₃ ++ (new₂ ++ new₁))) ++ c.live := by
    simp only [live₅, live₄, live₃, live₂, live₁, List.append_assoc]
  rcases kind₁ with rfl | rfl
  · refine ⟨c₅, l₅, none, _, ?_, live, inv₅, fun path name node found => ?_⟩
    · simp only [vfsInit, made₁, made₂, made₃, made₄, made₅, Outcome.ok_bind, Outcome.pure_eq]
    · rw [resolveVirtual_none] at found
      cases found
  · refine ⟨c₅, l₅, some (.directory ['/'] ([test, home, tmp, dev].filterMap id)), _, ?_, live, inv₅,
      fun path name node found => ?_⟩
    · simp only [vfsInit, made₁, made₂, made₃, made₄, made₅, Outcome.ok_bind, Outcome.pure_eq]
    have member := resolveVirtual_children (fun n below inside => by
      rcases made_children kind₄ kind₃ kind₂ inside with same | ⟨_, same⟩
      · rcases kind₅ with rfl | rfl | ⟨_, rfl, -⟩ <;> cases same
      · cases same
        rfl) found
    rcases made_children kind₄ kind₃ kind₂ member with same | ⟨_, same⟩
    · rcases kind₅ with rfl | rfl | ⟨made, rfl, read, held⟩
      · cases same
      · cases same
        show VirtualNode.blank.read = false ∧ VirtualNode.blank.size = 0
        exact ⟨rfl, rfl⟩
      · have here : node = made := by
          cases same
          rfl
        have filled : bootContents made = some (nameBytes welcomeText) := if_pos read
        rw [here, filled]
        exact held.mono (List.subset_append_left _ _)
    · cases same

end Boot

/-! ### A session -/

/-- The heap in a session: the copies that `ls` has made, and the pointers of the rest of the kernel. -/
structure FileShell where
  heap : HeapState
  copies : List Nat
  others : List Nat

/-- A command, or what the rest of the kernel does with the heap. -/
inductive FileOp where
  | ls (k : Kernel) (arg : Option CString)
  | cat (k : Kernel) (path : CString)
  | kernel (op : HeapOp)

/-- One step of a session. -/
inductive FileStep (root : Option VirtualEntry) (image : VirtualEntry → Nat → UInt8) :
    FileShell → FileOp → FileShell → Prop
  | ls {s : FileShell} {k : Kernel} {arg : Option CString} {c : Client} {entries : List VirtualEntry} {text : CString}
      (done : cmdLs root image ⟨s.heap, []⟩ k arg = .ok (c, entries, text)) :
      FileStep root image s (.ls k arg) ⟨c.heap, c.live ++ s.copies, s.others⟩
  | cat {s : FileShell} {k : Kernel} {path : CString} {c : Client} {text : CString}
      (done : cmdCat root ⟨s.heap, []⟩ k path = .ok (c, text)) :
      FileStep root image s (.cat k path) ⟨c.heap, c.live ++ s.copies, s.others⟩
  | kernel {s : FileShell} {op : HeapOp} {c : Client} (done : HeapStep ⟨s.heap, s.others⟩ op c) :
      FileStep root image s (.kernel op) ⟨c.heap, s.copies, c.live⟩

/-- **What `ls` prints**: a directory from its start, all of it if there is room for the copies. -/
def LsPrints (root : Option VirtualEntry) (h : HeapState) (k : Kernel) (arg : Option CString)
    (entries : List VirtualEntry) (text : CString) : Prop :=
  match resolveVirtualFromPwd root k (arg.getD (currentPwd k)) with
  | none => entries = [] ∧ text = "ls: ".toList ++ arg.getD (currentPwd k) ++ ": No such file or directory\n".toList
  | some (.file _ _) => entries = [] ∧ text = "ls: ".toList ++ arg.getD (currentPwd k) ++ ": Not a directory\n".toList
  | some (.directory _ children) =>
      entries <+: children ∧ (entries = children ∨ kmalloc h FileNode.nodeBytes = .ok (h, 0)) ∧
        text = '\n' :: (entries.flatMap listLine ++ ['\n'])

/-- **What holds in a session**: all blocks are in order, the files are in memory and the copies have their blocks. -/
structure Kept (root : Option VirtualEntry) (contents : Contents) (tree : List Nat) (s : FileShell)
    (l : List Segment) : Prop where
  inv : ClientInv ⟨s.heap, s.copies ++ (tree ++ s.others)⟩ l
  held : FilesHeld root contents s.heap.mem l tree
  copies : ∀ p ∈ s.copies, HasRoom l FileNode.nodeBytes p

section Session

variable {root : Option VirtualEntry} {image : VirtualEntry → Nat → UInt8} {contents : Contents} {tree rest : List Nat}
  {s t : FileShell} {l : List Segment} {op : FileOp} {ops : List FileOp} {h : HeapState} {c : Client}

/-- **`ls` lists a directory from its start**, with a block for each line that it keeps. -/
theorem cmdLs_lists (inv : ClientInv ⟨h, rest⟩ l) (k : Kernel) (arg : Option CString) :
    ∃ c entries text l', cmdLs root image ⟨h, []⟩ k arg = .ok (c, entries, text) ∧
      LsPrints root c.heap k arg entries text ∧ c.live.length = entries.length ∧
      (∀ p ∈ c.live, HasRoom l' FileNode.nodeBytes p) ∧ ClientInv ⟨c.heap, c.live ++ rest⟩ l' ∧
      KeepsBlocks rest l l' h.mem c.heap.mem := by
  have empty : ∀ p ∈ ([] : List Nat), HasRoom l FileNode.nodeBytes p := fun p none => absurd none List.not_mem_nil
  unfold cmdLs LsPrints
  dsimp only
  cases resolveVirtualFromPwd root k (arg.getD (currentPwd k)) with
  | none => exact ⟨⟨h, []⟩, [], _, l, rfl, ⟨rfl, rfl⟩, rfl, empty, inv, .refl _ _ _⟩
  | some entry =>
      cases entry with
      | file name node => exact ⟨⟨h, []⟩, [], _, l, rfl, ⟨rfl, rfl⟩, rfl, empty, inv, .refl _ _ _⟩
      | directory name children =>
          obtain ⟨c, entries, l', looped, part, whole, total, copies, inv', keeps⟩ :=
            @listLoop_lists image children ⟨h, []⟩ l rest 0 (children.length + 1) inv empty rfl (Nat.zero_le _)
              (Nat.lt_succ_self _)
          rw [List.drop_zero] at part whole
          rw [Nat.zero_add] at total
          refine ⟨c, entries, '\n' :: (entries.flatMap listLine ++ ['\n']), l', ?_, ⟨part, whole, rfl⟩, total, copies,
            inv', keeps⟩
          simp only [looped, Outcome.ok_bind, Outcome.pure_eq]

theorem FileShell.tree_subset (s : FileShell) (tree : List Nat) : tree ⊆ s.copies ++ (tree ++ s.others) :=
  fun _ member => List.mem_append_right _ (List.mem_append_left _ member)

/-- The copies stay when their blocks are kept. -/
theorem Kept.keep_copies {m m' : Memory} {l' : List Segment} (kept : Kept root contents tree s l)
    (keeps : KeepsBlocks (s.copies ++ rest) l l' m m') : ∀ p ∈ s.copies, HasRoom l' FileNode.nodeBytes p :=
  fun p member => (kept.copies p member).keep keeps (List.mem_append_left _ member)

/-- **One step of a session** keeps it in order. -/
theorem Kept.step (kept : Kept root contents tree s l) (step : FileStep root image s op t) :
    ∃ l', Kept root contents tree t l' := by
  have mine := s.tree_subset tree
  cases step with
  | @ls k arg c entries text done =>
      obtain ⟨c', entries', text', l', listed, -, -, copies, inv, keeps⟩ :=
        @cmdLs_lists root image _ l s.heap kept.inv k arg
      rw [done] at listed
      cases listed
      refine ⟨l', ?_, kept.held.keep (keeps.mono mine), fun p member => ?_⟩
      · rwa [← List.append_assoc] at inv
      · rcases List.mem_append.mp member with new | old
        · exact copies p new
        · exact kept.keep_copies keeps p old
  | @cat k path c text done =>
      obtain ⟨c', text', l', printed, -, live, inv, keeps⟩ :=
        @cmdCat_prints root contents ⟨s.heap, []⟩ l _ tree kept.inv mine kept.held k path
      rw [done] at printed
      cases printed
      have none : c.live = [] := live
      have keeps : KeepsBlocks (s.copies ++ (tree ++ s.others)) l l' s.heap.mem c.heap.mem := keeps
      rw [none, List.nil_append]
      exact ⟨l', inv, kept.held.keep (keeps.mono mine), kept.keep_copies keeps⟩
  | @kernel op c done =>
      have order : (s.copies ++ (tree ++ s.others)).Perm (s.others ++ (s.copies ++ tree)) := by
        rw [← List.append_assoc]
        exact List.perm_append_comm
      obtain ⟨l', inv, keeps⟩ := done.others (kept.inv.perm order)
      refine ⟨l', inv.perm ?_, kept.held.keep (keeps.mono (List.subset_append_right _ _)), kept.keep_copies keeps⟩
      show (c.live ++ (s.copies ++ tree)).Perm (s.copies ++ (tree ++ c.live))
      rw [← List.append_assoc s.copies]
      exact List.perm_append_comm

/-- **And so does a whole session.** -/
theorem Kept.run (kept : Kept root contents tree s l) (run : Run (FileStep root image) s ops t) :
    ∃ l', Kept root contents tree t l' := by
  refine run.invariant (fun x => ∃ l', Kept root contents tree x l') ?_ ⟨l, kept⟩
  intro x op y here step
  obtain ⟨l', kept'⟩ := here
  exact kept'.step step

/-- **Files in a session.** From any heap that the kernel can have, `vfs_init` makes its tree. In every session after
it, `cat` of a path prints the content its file was made with, or that there is no room for the buffer, and keeps no
block; `ls` lists a directory from its start, and the whole of it as long as `kmalloc` has room, and keeps a block for
each line. Those blocks, of all listings since boot, are in the heap together: it is full after 2221 lines. -/
theorem files_in_session (reach : Heap.Reachable c) :
    ∃ c' root tree, vfsInit c = .ok (c', root) ∧ c'.live = tree ++ c.live ∧
      ∀ image ops s, Run (FileStep root image) ⟨c'.heap, [], c.live⟩ ops s →
        (∀ k path, ∃ d text, cmdCat root ⟨s.heap, []⟩ k path = .ok (d, text) ∧ d.live = [] ∧
          CatPrints root bootContents s.heap k path text) ∧
        (∀ k arg, ∃ d entries text, cmdLs root image ⟨s.heap, []⟩ k arg = .ok (d, entries, text) ∧
          d.live.length = entries.length ∧ LsPrints root d.heap k arg entries text) ∧
        s.copies.length ≤ 2221 := by
  obtain ⟨l, inv⟩ := reach.inv
  obtain ⟨c', l', root, tree, made, live, inv', held⟩ := vfsInit_held inv
  refine ⟨c', root, tree, made, live, fun image ops s run => ?_⟩
  have start : Kept root bootContents tree ⟨c'.heap, [], c.live⟩ l' := by
    refine ⟨?_, held, fun p none => absurd none List.not_mem_nil⟩
    rw [List.nil_append, ← live]
    exact inv'
  obtain ⟨l'', kept⟩ := start.run run
  refine ⟨fun k path => ?_, fun k arg => ?_, ?_⟩
  · obtain ⟨d, text, -, printed, prints, none, -⟩ := @cmdCat_prints root bootContents ⟨s.heap, []⟩ l'' _ tree kept.inv
      (s.tree_subset tree) kept.held k path
    exact ⟨d, text, printed, none, prints⟩
  · obtain ⟨d, entries, text, -, listed, prints, total, -⟩ := @cmdLs_lists root image _ l'' s.heap kept.inv k arg
    exact ⟨d, entries, text, listed, total, prints⟩
  · have room := live_room kept.inv (List.nodup_append.mp kept.inv.nodup).1 kept.copies
    simp only [FileNode.nodeBytes, heapSize] at room
    omega

end Session

/-- A session in the middle of which a file is printed: from the heap with several blocks, both commands return,
in whatever directory the shell is. -/
theorem files_in_session_severalLive :
    severalLive.live ≠ [] ∧ ∃ c root, vfsInit severalLive = .ok (c, root) ∧ ∀ k, ∃ s,
      Run (FileStep root fun _ _ => 0) ⟨c.heap, [], severalLive.live⟩
        [.ls k (some ['/']), .cat k "/readme.txt".toList, .ls k none] s ∧
      s.copies.length ≤ 2221 ∧
      ∃ d text, cmdCat root ⟨s.heap, []⟩ k "/readme.txt".toList = .ok (d, text) ∧ d.live = [] ∧
        CatPrints root bootContents s.heap k "/readme.txt".toList text := by
  obtain ⟨c, root, tree, made, -, session⟩ := files_in_session severalLive_reachable
  refine ⟨by decide +kernel, c, root, made, fun k => ?_⟩
  obtain ⟨-, lists, -⟩ := session (fun _ _ => 0) [] _ (.nil _)
  obtain ⟨d₁, entries₁, text₁, listed, -, -⟩ := lists k (some ['/'])
  have one : Run (FileStep root fun _ _ => 0) _ [.ls k (some ['/'])] _ := .cons (.ls listed) (.nil _)
  obtain ⟨cats, -, -⟩ := session _ _ _ one
  obtain ⟨d₂, text₂, printed, -, -⟩ := cats k "/readme.txt".toList
  have two : Run (FileStep root fun _ _ => 0) _ [.ls k (some ['/']), .cat k "/readme.txt".toList] _ :=
    .cons (.ls listed) (.cons (.cat printed) (.nil _))
  obtain ⟨-, lists, -⟩ := session _ _ _ two
  obtain ⟨d₃, entries₃, text₃, again, -, -⟩ := lists k none
  have three : Run (FileStep root fun _ _ => 0) ⟨c.heap, [], severalLive.live⟩
      [.ls k (some ['/']), .cat k "/readme.txt".toList, .ls k none] _ :=
    .cons (.ls listed) (.cons (.cat printed) (.cons (.ls again) (.nil _)))
  obtain ⟨cats, -, few⟩ := session _ _ _ three
  exact ⟨_, three, few, cats k "/readme.txt".toList⟩

end Kfs.Shell.Files
