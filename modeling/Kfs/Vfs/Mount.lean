/-
**Mounting and path resolution: `vfs.c`.**

Nodes are values: a virtual directory with its children, a virtual file, or a node made from an inode
of a filesystem. What the VFS asks of a filesystem (`ext2_read_inode`, and the entries `ext2_read_dir`
passes to its callback) is an interface, so that every directory tree is covered. Strings are the
characters before the NUL; the kernel heap serves every node a lookup makes, and the answer to the one
request of `vfs_mount` is an argument.

`vfs_resolve_path` starts at the VFS root and never looks at the mount table. So a mount is visible
exactly when it becomes the VFS root: `mount_visible_iff`.
-/

import Kfs.Base.Trace

namespace Kfs.Vfs

/-- A C string: the characters before the NUL. -/
abbrev CString := List Char

/-- The fields of `ext2_inode_t` a VFS node is filled from. -/
structure Ext2Inode where
  mode : Nat
  uid : Nat
  gid : Nat
  size : Nat
  linksCount : Nat
  deriving DecidableEq, Repr

/-- An entry as `ext2_read_dir` passes it on: `name_len` bytes of name, and the inode number. -/
structure DirEntry where
  name : List Char
  inode : Nat
  deriving DecidableEq, Repr

/-- What the VFS asks of an `ext2_filesystem_t`. -/
structure Ext2View where
  rootInode : Nat
  readInode : Nat → Option Ext2Inode
  readDir : Nat → List DirEntry

/-- `vfs_file_type_t`. -/
inductive FileType where
  | unknown
  | regular
  | directory
  | chardev
  | blockdev
  | fifo
  | socket
  | symlink
  deriving DecidableEq, Repr

/-- `ext2_to_vfs_type`: the type bits of an inode's mode. -/
def ext2ToVfsType (mode : Nat) : FileType :=
  match mode % 2 ^ 16 / 2 ^ 12 with
  | 0x8 => .regular
  | 0x4 => .directory
  | 0x2 => .chardev
  | 0x6 => .blockdev
  | 0x1 => .fifo
  | 0xc => .socket
  | 0xa => .symlink
  | _ => .unknown

/-- `vfs_node_t`, by what it was made from. -/
inductive VfsNode (Fs : Type) where
  | virtualDir (name : CString) (children : List (VfsNode Fs))
  | virtualFile (name content : CString)
  | ext2 (fs : Fs) (inodeNum : Nat) (inode : Ext2Inode) (name : CString)

/-- `node->name`. -/
def VfsNode.name {Fs : Type} : VfsNode Fs → CString
  | virtualDir name _ => name
  | virtualFile name _ => name
  | ext2 _ _ _ name => name

/-- `vfs_mount_t`. -/
structure MountEntry (Fs : Type) where
  path : CString
  node : VfsNode Fs
  fs : Fs

/-- `vfs_state_t`. -/
structure VfsState (Fs : Type) where
  root : Option (VfsNode Fs)
  mounts : List (MountEntry Fs)

/-- Size of the mount table. -/
def maxMounts : Nat := 16

/-- `strncpy` of a name or path into a field of 256 bytes. -/
def field (s : CString) : CString := s.take 255

section

variable {Fs : Type} (view : Fs → Ext2View)

/-- `vfs_create_node_from_ext2`, the node being allocated. -/
def vfsCreateNodeFromExt2 (fs : Fs) (inodeNum : Nat) (name : CString) : Option (VfsNode Fs) :=
  ((view fs).readInode inodeNum).map fun inode => .ext2 fs inodeNum inode (field name)

/-- The name of an entry as `finddir_callback` compares it. -/
def DirEntry.cname (entry : DirEntry) : CString :=
  (entry.name.take 255).takeWhile (· ≠ '\x00')

/-- `vfs_ext2_finddir`, on a node whose type is a directory. -/
def vfsExt2Finddir (fs : Fs) (inodeNum : Nat) (name : CString) : Option (VfsNode Fs) :=
  match ((view fs).readDir inodeNum).find? (·.cname = name) with
  | none => none
  | some entry => vfsCreateNodeFromExt2 view fs entry.inode name

/-- `vfs_virtual_finddir`: the first child of that name. -/
def vfsVirtualFinddir (children : List (VfsNode Fs)) (name : CString) : Option (VfsNode Fs) :=
  children.find? (·.name = name)

/-- `current->finddir(current, token)`, or NULL for a node without that operation. -/
def finddir (node : VfsNode Fs) (token : CString) : Option (VfsNode Fs) :=
  match node with
  | .virtualDir _ children => vfsVirtualFinddir children token
  | .virtualFile _ _ => none
  | .ext2 fs inodeNum inode _ =>
      if ext2ToVfsType inode.mode = .directory then vfsExt2Finddir view fs inodeNum token else none

/-- The loop of `vfs_resolve_path` over the tokens of its path. -/
def walk (current : VfsNode Fs) : List CString → Option (VfsNode Fs)
  | [] => some current
  | token :: rest =>
      match finddir view current token with
      | none => none
      | some child => walk child rest

/-- `vfs_resolve_path`. The path is copied without its first slash to a buffer of 256 bytes and cut at
the slashes left. -/
def vfsResolvePath (st : VfsState Fs) (path : CString) : Option (VfsNode Fs) :=
  match path with
  | '/' :: rest =>
      match st.root with
      | none => none
      | some root =>
          if rest = [] then some root else walk view root ((field rest).splitOn '/')
  | _ => none

/-- `vfs_mount`; `granted` says whether the root node could be allocated. -/
def vfsMount (st : VfsState Fs) (path : CString) (fs : Fs) (granted : Bool) : VfsState Fs × Int :=
  if st.mounts.length ≥ maxMounts then (st, -1)
  else
    match vfsCreateNodeFromExt2 view fs (view fs).rootInode ['/'], granted with
    | some rootNode, true =>
        (⟨if path = ['/'] ∧ st.root.isNone then some rootNode else st.root,
          st.mounts ++ [⟨field path, rootNode, fs⟩]⟩, 0)
    | _, _ => (st, -1)

/-- `vfs_unmount`: the first entry of that path is removed. The VFS root stays what it is. -/
def vfsUnmount (st : VfsState Fs) (path : CString) : VfsState Fs × Int :=
  if st.mounts.any (·.path = path) then
    (⟨st.root, st.mounts.eraseP (·.path = path)⟩, 0)
  else (st, -1)

/-- `vfs_init`: a virtual root with three directories and a file. -/
def vfsInit : VfsState Fs :=
  ⟨some (.virtualDir "/".toList
    [.virtualFile "readme.txt".toList "Welcome to KFS-6!\nThis is a test file.\n".toList,
      .virtualDir "home".toList [], .virtualDir "tmp".toList [], .virtualDir "dev".toList []]), []⟩

/-! ### Visibility -/

/-- A path of a mount point and a path below it; below `/` no slash is repeated. -/
def joinPath (path rest : CString) : CString :=
  if path = ['/'] then '/' :: rest else path ++ '/' :: rest

/-- The components of a path relative to some directory. -/
def components (rest : CString) : List CString := if rest = [] then [] else rest.splitOn '/'

/-- The mount at `path` of a filesystem with root node `rootNode` is seen: the path gives the root
node, and every path below it that fits the resolver's buffer gives what the filesystem has there. -/
def Visible (st : VfsState Fs) (path : CString) (rootNode : VfsNode Fs) : Prop :=
  vfsResolvePath view st path = some rootNode ∧
    ∀ rest, (joinPath path rest).length ≤ 256 →
      vfsResolvePath view st (joinPath path rest) = walk view rootNode (components rest)

/-- A path at or below a mount point. -/
def UnderMount (st : VfsState Fs) (q : CString) : Prop :=
  ∃ m ∈ st.mounts, q = m.path ∨ ∃ rest, q = joinPath m.path rest

/-- Operations on the mount table. -/
inductive VfsOp (Fs : Type) where
  | mount (path : CString) (fs : Fs) (granted : Bool)
  | unmount (path : CString)

/-- One operation. -/
inductive VfsStep : VfsState Fs → VfsOp Fs → VfsState Fs → Prop
  | mount (st : VfsState Fs) (path : CString) (fs : Fs) (granted : Bool) :
      VfsStep st (.mount path fs granted) (vfsMount view st path fs granted).1
  | unmount (st : VfsState Fs) (path : CString) :
      VfsStep st (.unmount path) (vfsUnmount st path).1

/-- A mount does what it is for: it stays visible until it is unmounted, and paths that are not under
a mount point resolve as before. -/
structure MountEffective (st st' : VfsState Fs) (path : CString) (rootNode : VfsNode Fs) : Prop where
  visible : ∀ ops later, Run (VfsStep view) st' ops later → (∀ op ∈ ops, op ≠ .unmount path) →
    Visible view later path rootNode
  others : ∀ q, ¬ UnderMount st' q → vfsResolvePath view st' q = vfsResolvePath view st q

/-- The mount becomes the VFS root, or is the VFS root already. -/
def BecomesRoot (st : VfsState Fs) (path : CString) (rootNode : VfsNode Fs) : Prop :=
  path = ['/'] ∧ (st.root = none ∨ st.root = some rootNode)

/-! ### What the resolver can find -/

theorem slash_not_mem_splitOn {path token : CString} (member : token ∈ path.splitOn '/') :
    '/' ∉ token := by
  induction path generalizing token with
  | nil =>
      rw [List.splitOn_nil, List.mem_singleton] at member
      simp [member]
  | cons x rest ih =>
      rw [List.splitOn_cons_eq_if_modifyHead] at member
      split at member
      · rcases List.mem_cons.mp member with rfl | inside
        · simp
        · exact ih inside
      · rename_i other
        obtain ⟨first, more, shape⟩ := List.exists_cons_of_ne_nil (List.splitOn_ne_nil '/' rest)
        rw [shape, List.modifyHead_cons] at member
        rcases List.mem_cons.mp member with rfl | inside
        · have plain : '/' ∉ first := ih (by simp [shape])
          simp only [List.mem_cons, not_or]
          exact ⟨fun same => other (by simp [← same]), plain⟩
        · exact ih (by simp [shape, inside])

variable {view}

/-- A node found under a token has a name without slashes. -/
theorem finddir_name {node child : VfsNode Fs} {token : CString} (plain : '/' ∉ token)
    (found : finddir view node token = some child) : '/' ∉ child.name := by
  cases node with
  | virtualDir name children =>
      have same := List.find?_some (show children.find? (·.name = token) = some child from found)
      rw [decide_eq_true_eq] at same
      rwa [same]
  | virtualFile name content => cases found
  | ext2 fs inodeNum inode name =>
      simp only [finddir] at found
      split at found
      · unfold vfsExt2Finddir at found
        split at found
        · cases found
        · obtain ⟨record, _, rfl⟩ := Option.map_eq_some_iff.mp found
          exact fun member => plain (List.mem_of_mem_take member)
      · cases found

/-- **A node reached by at least one lookup has a name without slashes.** -/
theorem walk_name {tokens : List CString} :
    ∀ {node last : VfsNode Fs}, tokens ≠ [] → (∀ t ∈ tokens, '/' ∉ t) →
      walk view node tokens = some last → '/' ∉ last.name := by
  induction tokens with
  | nil =>
      intro node last nonempty
      exact absurd rfl nonempty
  | cons token rest ih =>
      intro node last _ plain reached
      unfold walk at reached
      split at reached
      · cases reached
      · rename_i child found
        have named := finddir_name (plain token List.mem_cons_self) found
        cases rest with
        | nil =>
            cases reached
            exact named
        | cons next rest =>
            exact ih (by simp) (fun t member => plain t (List.mem_cons_of_mem _ member)) reached

variable {st st' : VfsState Fs} {path : CString} {rootNode : VfsNode Fs}

/-- No path but `/` resolves to a node named `/`. -/
theorem resolve_name {node : VfsNode Fs} (other : path ≠ ['/'])
    (found : vfsResolvePath view st path = some node) : '/' ∉ node.name := by
  unfold vfsResolvePath at found
  split at found
  · rename_i rest
    split at found
    · cases found
    · rw [if_neg (fun none => other (by rw [none]))] at found
      exact walk_name (List.splitOn_ne_nil _ _) (fun t => slash_not_mem_splitOn) found
  · cases found

theorem createRoot_name {fs : Fs} {inodeNum : Nat}
    (created : vfsCreateNodeFromExt2 view fs inodeNum ['/'] = some rootNode) :
    rootNode.name = ['/'] := by
  obtain ⟨record, _, rfl⟩ := Option.map_eq_some_iff.mp created
  rfl

/-- **What a successful mount does.** -/
theorem vfsMount_ok {fs : Fs} {granted : Bool}
    (mounted : vfsMount view st path fs granted = (st', 0)) :
    ∃ rootNode, vfsCreateNodeFromExt2 view fs (view fs).rootInode ['/'] = some rootNode ∧
      st'.root = (if path = ['/'] ∧ st.root.isNone then some rootNode else st.root) ∧
      st'.mounts = st.mounts ++ [⟨field path, rootNode, fs⟩] := by
  unfold vfsMount at mounted
  split at mounted
  · cases mounted
  · split at mounted
    · rename_i rootNode created
      cases mounted
      exact ⟨rootNode, created, rfl, rfl⟩
    · cases mounted

/-- With the root node as VFS root the mount at `/` is visible. -/
theorem visible_root (root : st.root = some rootNode) : Visible view st ['/'] rootNode := by
  have whole : vfsResolvePath view st ['/'] = some rootNode := by
    simp [vfsResolvePath, root]
  refine ⟨whole, fun rest fits => ?_⟩
  rw [joinPath, if_pos rfl] at fits ⊢
  by_cases none : rest = []
  · rw [none, whole]
    rfl
  · have short : field rest = rest := by
      simp only [List.length_cons] at fits
      exact List.take_of_length_le (by omega)
    simp [vfsResolvePath, root, none, components, short]

/-- No operation changes a VFS root that is there. -/
theorem VfsStep.root {op : VfsOp Fs} (step : VfsStep view st op st')
    (root : st.root = some rootNode) : st'.root = some rootNode := by
  cases step with
  | mount path fs granted =>
      unfold vfsMount
      split
      · exact root
      · split
        · simp [root]
        · exact root
  | unmount path =>
      unfold vfsUnmount
      split <;> exact root

/-- Paths outside every mount point resolve as before a mount. -/
theorem others_kept {fs : Fs} {granted : Bool}
    (mounted : vfsMount view st path fs granted = (st', 0)) {q : CString}
    (outside : ¬ UnderMount st' q) : vfsResolvePath view st' q = vfsResolvePath view st q := by
  obtain ⟨rootNode, _, root, mounts⟩ := vfsMount_ok mounted
  by_cases slash : path = ['/']
  · -- everything absolute is under `/`
    subst slash
    unfold vfsResolvePath
    split
    · rename_i rest
      exfalso
      refine outside ⟨⟨field ['/'], rootNode, fs⟩, by simp [mounts], Or.inr ⟨rest, ?_⟩⟩
      rfl
    · rfl
  · rw [if_neg fun both => slash both.1] at root
    unfold vfsResolvePath
    rw [root]

end

/-- **Exactly when a mount is effective.** For every filesystem interface, mount table and directory
tree, after a `vfs_mount` that returned 0: the mount stays visible until it is
unmounted, whatever else is mounted and unmounted, and other paths are left alone, exactly when the
path is `/` and the VFS had no root or had this filesystem's root as its own. -/
theorem mount_visible_iff {Fs : Type} {view : Fs → Ext2View} {st st' : VfsState Fs}
    {path : CString} {fs : Fs} {granted : Bool} {rootNode : VfsNode Fs}
    (mounted : vfsMount view st path fs granted = (st', 0))
    (created : vfsCreateNodeFromExt2 view fs (view fs).rootInode ['/'] = some rootNode) :
    MountEffective view st st' path rootNode ↔ BecomesRoot st path rootNode := by
  obtain ⟨made, created', root, _⟩ := vfsMount_ok mounted
  obtain rfl : rootNode = made := Option.some.inj (created.symm.trans created')
  constructor
  · intro effective
    obtain ⟨resolved, _⟩ := effective.visible [] st' (.nil st') (by simp)
    have slash : path = ['/'] := by
      by_contra other
      apply resolve_name other resolved
      rw [createRoot_name created]
      exact List.mem_singleton_self '/'
    subst slash
    refine ⟨rfl, ?_⟩
    cases before : st.root with
    | none => exact Or.inl rfl
    | some old =>
        rw [before] at root
        have : st'.root = some old := by simpa using root
        simp only [vfsResolvePath, this] at resolved
        exact Or.inr (by simpa using resolved)
  · rintro ⟨rfl, before⟩
    have start : st'.root = some rootNode := by
      rcases before with none | same
      · simp [root, none]
      · simp [root, same]
    refine ⟨fun ops later run _ => ?_, fun q outside => others_kept mounted outside⟩
    refine visible_root (run.invariant (fun x => x.root = some rootNode) ?_ start)
    exact fun x op y here step => step.root here

/-- A disk with `readme.txt` in its root directory. -/
def readmeDisk : Unit → Ext2View := fun _ =>
  { rootInode := 2
    readInode := fun n =>
      if n = 2 then some ⟨0x41ed, 0, 0, 1024, 3⟩
      else if n = 12 then some ⟨0x81a4, 0, 0, 23, 1⟩
      else none
    readDir := fun n =>
      if n = 2 then [⟨".".toList, 2⟩, ⟨"..".toList, 2⟩, ⟨"readme.txt".toList, 12⟩] else [] }

/-- The root node `vfs_mount` makes for that disk. -/
def readmeRoot : VfsNode Unit := .ext2 () 2 ⟨0x41ed, 0, 0, 1024, 3⟩ ['/']

theorem mount_visible_first :
    BecomesRoot (⟨none, []⟩ : VfsState Unit) ['/'] readmeRoot ∧
      MountEffective readmeDisk ⟨none, []⟩ ⟨some readmeRoot, [⟨['/'], readmeRoot, ()⟩]⟩ ['/']
        readmeRoot :=
  have becomes : BecomesRoot (⟨none, []⟩ : VfsState Unit) ['/'] readmeRoot := ⟨rfl, Or.inl rfl⟩
  have mounted : vfsMount readmeDisk ⟨none, []⟩ ['/'] () true =
      (⟨some readmeRoot, [⟨['/'], readmeRoot, ()⟩]⟩, 0) := rfl
  ⟨becomes, (mount_visible_iff mounted rfl).mpr becomes⟩

/-- `mount hda0 /mnt; ls /mnt`: the mount succeeds and the path does not resolve. -/
theorem mount_mnt_invisible : ∃ st', vfsMount readmeDisk vfsInit "/mnt".toList () true = (st', 0) ∧
    vfsResolvePath readmeDisk st' "/mnt".toList = none ∧
    ¬ MountEffective readmeDisk vfsInit st' "/mnt".toList readmeRoot := by
  refine ⟨_, rfl, rfl, fun effective => ?_⟩
  have resolved := (effective.visible [] _ (.nil _) (by simp)).1
  cases resolved

end Kfs.Vfs
