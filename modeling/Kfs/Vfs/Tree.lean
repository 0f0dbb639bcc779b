/-
**Trees on a volume: from a path to the bytes of a file.**

A tree is given by inode numbers: each stands for the bytes of a file, or for the names and inode numbers of a
directory (`Objects`). A volume holds a tree when every object is stored under its number (`Holds`): directories are
well formed, and their entries lead to objects again. Blocks may be shared, files may have holes, and a directory may
be its own entry.

`vfs_ext2_finddir` is the lookup in the tree (`Holds.finddir`), so the loop of `vfs_resolve_path` is the walk along its
names (`Holds.walk`), and `vfs_read` of the node it ends at gives the bytes of that file: `path_reads_tree`. Each lookup
has buffers of its own, with any bytes in them.
-/

import Kfs.Disk.Holes
import Kfs.Vfs.Listing
import Kfs.Vfs.Walk

namespace Kfs.Vfs

open Kfs.Disk Strings

/-! ### Trees -/

/-- What an inode number stands for: the bytes of a file, the entries of a directory in their order, or something that
is neither. -/
inductive Object where
  | file (content : List UInt8)
  | directory (entries : List (List UInt8 × Nat))
  | other (type : FileType)

/-- The objects of a tree, by inode numbers. -/
abbrev Objects := Nat → Option Object

namespace Objects

/-- The first entry of a name. -/
def lookup (objects : Objects) (i : Nat) (name : List UInt8) : Option Nat :=
  match objects i with
  | some (.directory entries) => (entries.find? fun entry => entry.1 = name).map Prod.snd
  | _ => none

/-- Names are looked up one after the other. -/
def resolve (objects : Objects) (i : Nat) : List (List UInt8) → Option Nat
  | [] => some i
  | name :: names =>
      match objects.lookup i name with
      | none => none
      | some j => objects.resolve j names

end Objects

section Storage

variable (v : Volume) (fs : Filesystem)

/-- The bytes of a file, up to its size. -/
def fileBytes (inode : Inode) : List UInt8 := (List.range inode.size).map (fileByte v fs inode)

/-- The names and inode numbers of a directory's entries in use. -/
def fileEntries (inode : Inode) : List (List UInt8 × Nat) :=
  (inUse (dirEntries (fileByte v fs inode) inode.size)).map fun entry => (entry.name, entry.inode)

/-- The driver can read the whole file, and its size is one of an `int`. -/
structure Readable (inode : Inode) : Prop where
  served : Request.Served v fs inode ⟨0, inode.size, 0⟩
  small : inode.size < 2 ^ 31

/-- **An inode stores an object.** A directory has a block at least. -/
inductive Stored (inode : Inode) : Object → Prop
  | file (type : ext2ToVfsType inode.mode = .regular) (readable : Readable v fs inode) :
      Stored inode (.file (fileBytes v fs inode))
  | directory (type : ext2ToVfsType inode.mode = .directory) (readable : Readable v fs inode)
      (some : 0 < inode.size) (formed : WellFormed (fileByte v fs inode) inode.size) :
      Stored inode (.directory (fileEntries v fs inode))
  | other {type : FileType} (same : ext2ToVfsType inode.mode = type) (regular : type ≠ .regular)
      (directory : type ≠ .directory) : Stored inode (.other type)

/-- **A volume holds a tree**: every object is stored under its number, and entries lead to objects. -/
structure Holds (objects : Objects) : Prop where
  stored : ∀ i object, objects i = some object →
    ∃ inode, ext2ReadInode v fs true i = .ok (some inode) ∧ Stored v fs inode object
  closed : ∀ i entries, objects i = some (.directory entries) → ∀ entry ∈ entries, (objects entry.2).isSome

/-- The node that `vfs_create_node_from_ext2` fills in. -/
def inodeNode (inode : Inode) : FileNode where
  type := ext2ToVfsType inode.mode
  size := inode.size
  ext2Inode := inode
  data := none
  read := some .ext2

/-- A node is the one of an inode number. -/
structure Ext2Node.Of (i : Nat) (node : Ext2Node) : Prop where
  number : node.inode = i
  made : FileNode.vfsCreateNodeFromExt2 v fs true true i = .ok (some node.file)

/-- A read returns all that was asked for, with the bytes of a content there. -/
def FileNode.ReadsBack (node : FileNode) (content : List UInt8) (r : Request) (m : Memory) : Prop :=
  ∃ m', node.vfsRead v fs r true m = .ok (m', (r.size : Int)) ∧
    ∀ k < r.size, m' (r.buffer + k) = content.getD (r.offset + k) 0

/-- **Reading a node gives an object**: of a file its bytes, exactly when the request starts right. No read stores
anything outside its buffer. -/
def FileNode.Gives (node : FileNode) : Object → Prop
  | .file content => node.type = .regular ∧ node.size = content.length ∧
      (∀ r : Request, ∀ m : Memory, r.buffer ≠ 0 → r.offset + r.size ≤ content.length →
        (node.ReadsBack v fs content r m ↔ r.StartsRight v fs node.ext2Inode)) ∧
      ∀ r : Request, ∀ m m' : Memory, ∀ n : Int, node.vfsRead v fs r true m = .ok (m', n) →
        Set.EqOn m' m {x | x < r.buffer ∨ r.buffer + r.size ≤ x}
  | .directory _ => node.type = .directory
  | .other type => node.type = type

end Storage

/-- Every buffer of a lookup is granted. -/
structure DirCall.Served (c : DirCall) : Prop where
  grants : c.grants = ⟨true, true, true⟩
  granted : c.Granted

/-! ### Walks over nodes -/

/-- The bytes of a name. -/
def nameBytes (name : CString) : List UInt8 := name.map fun c => UInt8.ofNat c.toNat

/-- `node->finddir` of a node with the number of lookups made before. Each lookup is a call of its own. -/
def finddirOn (v : Volume) (fs : Filesystem) (calls : Nat → DirCall) (node : Ext2Node × Nat) :
    Option (CString → Option (Ext2Node × Nat)) :=
  if node.1.file.type = .directory then
    some fun name => ((node.1.vfsExt2Finddir v fs (calls node.2) (nameBytes name)).getD none).map
      fun child => (child, node.2 + 1)
  else none

section Parts

variable {v : Volume} {fs : Filesystem} {inode : Inode} {r : Request} {size : Nat}

/-- A part of a request that is served is served. -/
theorem served_part (served : Request.Served v fs inode ⟨0, size, 0⟩) (inside : r.offset + r.size ≤ size) :
    r.Served v fs inode := by
  have nowrap : 0 + size + fs.blockSize - 1 < 2 ^ 32 := served.nowrap
  refine ⟨served.blocks, by omega, fun k small => ?_, fun k small => ?_, fun k small => ?_⟩
  · have mapped := served.mapped (r.offset + k) (show r.offset + k < size by omega)
    rwa [Nat.zero_add] at mapped
  · have indirect := served.indirect (r.offset + k) (show r.offset + k < size by omega)
    rwa [Nat.zero_add] at indirect
  · have readable := served.readable (r.offset + k) (show r.offset + k < size by omega)
    rwa [Nat.zero_add] at readable

theorem fileBytes_getD {x : Nat} (inside : x < inode.size) :
    (fileBytes v fs inode).getD x 0 = fileByte v fs inode x := by
  rw [fileBytes, List.getD_eq_getElem?_getD, List.getElem?_map, List.getElem?_range inside]
  rfl

theorem mode_of_directory (type : ext2ToVfsType inode.mode = .directory) : inode.mode / 2 ^ 12 = 0x4 := by
  have whole : inode.mode % 2 ^ 16 = inode.mode := Nat.mod_mod _ _
  unfold ext2ToVfsType at type
  rw [whole] at type
  split at type
  · cases type
  · assumption
  all_goals cases type

/-- A read stores in its buffer only. -/
theorem readInodeData_frame {m m' : Memory} {n : Int} (blocks : 0 < fs.blockSize)
    (done : ext2ReadInodeData v fs inode r true m = .ok (m', n)) :
    Set.EqOn m' m {x | x < r.buffer ∨ r.buffer + r.size ≤ x} := by
  rw [readInodeData_eq blocks] at done
  generalize looped : readLoop v fs inode r (r.last fs - r.offset / fs.blockSize) (r.offset / fs.blockSize) (m, 0) =
    s at done
  obtain ⟨stored, count⟩ := s
  obtain ⟨rfl, -⟩ := Prod.mk.inj (Outcome.ok.inj done)
  obtain ⟨-, most, frame⟩ := readLoop_frame (Nat.zero_le _) looped
  refine frame.mono fun x outside => ?_
  simp only [Set.mem_ofPred_eq] at outside ⊢
  omega

/-- A well-formed directory is one by its bytes. -/
theorem WellFormed.congr {data data' : Memory} (formed : WellFormed data size)
    (same : Set.EqOn data' data {x | x < size}) : WellFormed data' size :=
  ⟨formed.within.congr formed.inside same, formed.inside.congr same⟩

end Parts

section Lookups

variable {v : Volume} {fs : Filesystem} {objects : Objects} {inode : Inode} {node root : Ext2Node} {c : DirCall}
  {calls : Nat → DirCall} {i : Nat} {name : List UInt8}

/-- **The buffer of a directory** holds its bytes. -/
theorem readDirectory_stored (read : ext2ReadInode v fs true i = .ok (some inode))
    (type : ext2ToVfsType inode.mode = .directory) (readable : Readable v fs inode) (fresh : Memory) :
    ∃ data, readDirectory v fs ⟨true, true, true⟩ fresh i = .ok (some (data, inode.size)) ∧
      Set.EqOn data (fileByte v fs inode) {x | x < inode.size} := by
  obtain ⟨data, stored, bytes⟩ := readInodeData_base readable.served fresh
  refine ⟨data, ?_, fun x inside => ?_⟩
  · have positive : ¬ asInt inode.size < 0 := by
      rw [asInt_of_lt readable.small]
      omega
    have directory : ¬ inode.mode / 2 ^ 12 ≠ 0x4 := by
      rw [mode_of_directory type]
      decide
    simp only [readDirectory, read, Outcome.ok_bind, if_neg directory, Bool.true_eq_false, if_false, stored,
      if_neg positive, Outcome.pure_eq]
  · have here := bytes x inside
    have base : Request.base v fs inode ⟨0, inode.size, 0⟩ = 0 :=
      Nat.le_zero.mp (Request.base_le v fs inode ⟨0, inode.size, 0⟩)
    simp only [base, Nat.zero_add] at here
    exact here

/-- The first entry of a name is the one of the directory's entries in use. -/
theorem firstNamed_entries : firstNamed (fileByte v fs inode) inode.size name =
    ((fileEntries v fs inode).find? fun entry => entry.1 = name).map Prod.snd := by
  rw [firstNamed, fileEntries, List.find?_map, Option.map_map]
  rfl

/-- The node made for an inode number. -/
theorem Ext2Node.Of.inode_eq (of : node.Of v fs i) (read : ext2ReadInode v fs true i = .ok (some inode)) :
    node.file = inodeNode inode := by
  have made := of.made
  rw [FileNode.vfsCreateNodeFromExt2, read] at made
  exact (Option.some.inj (Outcome.ok.inj made)).symm

theorem create_of (served : c.Served) (read : ext2ReadInode v fs true i = .ok (some inode)) :
    ∃ child, Ext2Node.vfsCreateNodeFromExt2 v fs c i name = .ok (some child) ∧ child.Of v fs i := by
  have made : FileNode.vfsCreateNodeFromExt2 v fs true true i = .ok (some (inodeNode inode)) := by
    rw [FileNode.vfsCreateNodeFromExt2, read]
    rfl
  refine ⟨⟨(name.takeWhile (· ≠ 0)).take 255, i, _⟩, ?_, rfl, made⟩
  rw [Ext2Node.vfsCreateNodeFromExt2, served.granted.1, served.granted.2, made]
  rfl

/-- What the scan of a directory finds. -/
theorem finddirScan_stored (served : c.Served) (read : ext2ReadInode v fs true i = .ok (some inode))
    (type : ext2ToVfsType inode.mode = .directory) (readable : Readable v fs inode)
    (formed : WellFormed (fileByte v fs inode) inode.size) (ended : 0 ∉ name) :
    finddirScan v fs c.grants c.fresh i name =
      .ok (((fileEntries v fs inode).find? fun entry => entry.1 = name).map Prod.snd) := by
  obtain ⟨data, stored, same⟩ := readDirectory_stored read type readable c.fresh
  rw [served.grants, finddirScan_eq ended stored (formed.congr same).within, ← firstNamed_entries, firstNamed,
    inUse_congr formed.within formed.inside same, firstNamed]

/-- **`vfs_ext2_finddir` is the lookup in the tree.** -/
theorem Holds.finddir (holds : Holds v fs objects) (of : node.Of v fs i) (known : (objects i).isSome)
    (served : c.Served) (ended : 0 ∉ name) :
    (objects.lookup i name = none ∧ node.vfsExt2Finddir v fs c name = .ok none) ∨
      ∃ j child, objects.lookup i name = some j ∧ node.vfsExt2Finddir v fs c name = .ok (some child) ∧
        child.Of v fs j ∧ (objects j).isSome := by
  obtain ⟨object, here⟩ := Option.isSome_iff_exists.mp known
  obtain ⟨inode, read, stored⟩ := holds.stored i object here
  have kind : node.file.type = ext2ToVfsType inode.mode := congrArg FileNode.type (of.inode_eq read)
  have other (no : ext2ToVfsType inode.mode ≠ .directory) : node.vfsExt2Finddir v fs c name = .ok none := by
    rw [Ext2Node.vfsExt2Finddir, kind, if_pos no]
    rfl
  cases stored with
  | file type readable =>
      refine .inl ⟨by rw [Objects.lookup, here], other ?_⟩
      rw [type]
      decide
  | other same regular directory =>
      exact .inl ⟨by rw [Objects.lookup, here], other (same ▸ directory)⟩
  | directory type readable positive formed =>
      have scanned := finddirScan_stored served read type readable formed ended
      have looked : node.vfsExt2Finddir v fs c name =
          match ((fileEntries v fs inode).find? fun entry => entry.1 = name).map Prod.snd with
          | none => .ok none
          | some j => Ext2Node.vfsCreateNodeFromExt2 v fs c j name := by
        rw [Ext2Node.vfsExt2Finddir, kind, if_neg (not_not.mpr type), of.number, scanned]
        rfl
      have abstract : objects.lookup i name =
          ((fileEntries v fs inode).find? fun entry => entry.1 = name).map Prod.snd := by
        rw [Objects.lookup, here]
      cases found : (fileEntries v fs inode).find? fun entry => entry.1 = name with
      | none =>
          rw [found] at looked abstract
          exact .inl ⟨abstract, looked⟩
      | some entry =>
          rw [found] at looked abstract
          have closed := holds.closed i _ here entry (List.mem_of_find?_eq_some found)
          obtain ⟨child, there⟩ := Option.isSome_iff_exists.mp closed
          obtain ⟨inode', read', -⟩ := holds.stored entry.2 child there
          obtain ⟨made, created, of'⟩ := @create_of v fs inode' c entry.2 name served read'
          exact .inr ⟨entry.2, made, abstract, looked.trans created, of', closed⟩

/-- A node whose type is no directory has no entry in the tree. -/
theorem Holds.lookup_none (holds : Holds v fs objects) (of : node.Of v fs i) (known : (objects i).isSome)
    (kind : node.file.type ≠ .directory) (name : List UInt8) : objects.lookup i name = none := by
  obtain ⟨object, here⟩ := Option.isSome_iff_exists.mp known
  obtain ⟨inode, read, stored⟩ := holds.stored i object here
  cases stored with
  | file type readable => rw [Objects.lookup, here]
  | other same regular directory => rw [Objects.lookup, here]
  | directory type readable positive formed =>
      rw [of.inode_eq read] at kind
      exact absurd type kind

/-- **The walk over nodes is the walk along the names in the tree.** -/
theorem Holds.walk (holds : Holds v fs objects) (served : ∀ n, (calls n).Served) {names : List CString} {n : Nat}
    (of : node.Of v fs i) (known : (objects i).isSome) (ended : ∀ name ∈ names, 0 ∉ nameBytes name) :
    (objects.resolve i (names.map nameBytes) = none ∧ lookupAll (finddirOn v fs calls) (node, n) names = none) ∨
      ∃ j last, objects.resolve i (names.map nameBytes) = some j ∧
        lookupAll (finddirOn v fs calls) (node, n) names = some (last, n + names.length) ∧
        last.Of v fs j ∧ (objects j).isSome := by
  induction names generalizing node i n with
  | nil => exact .inr ⟨i, node, rfl, rfl, of, known⟩
  | cons name names ih =>
      have none_of (missing : objects.lookup i (nameBytes name) = none) :
          objects.resolve i ((name :: names).map nameBytes) = none := by
        rw [List.map_cons, Objects.resolve, missing]
      by_cases directory : node.file.type = .directory
      · have operation : finddirOn v fs calls (node, n) = some fun name =>
            ((node.vfsExt2Finddir v fs (calls n) (nameBytes name)).getD none).map fun child => (child, n + 1) :=
          if_pos directory
        rcases holds.finddir of known (served n) (ended name List.mem_cons_self) with
          ⟨missing, looked⟩ | ⟨j, child, found, looked, of', known'⟩
        · refine .inl ⟨none_of missing, ?_⟩
          simp only [lookupAll, operation, looked, Outcome.getD, Option.map_none]
        · have rest : lookupAll (finddirOn v fs calls) (node, n) (name :: names) =
              lookupAll (finddirOn v fs calls) (child, n + 1) names := by
            simp only [lookupAll, operation, looked, Outcome.getD, Option.map_some]
          have tree : objects.resolve i ((name :: names).map nameBytes) =
              objects.resolve j (names.map nameBytes) := by
            rw [List.map_cons, Objects.resolve, found]
          rw [rest, tree, List.length_cons, Nat.add_comm names.length 1, ← Nat.add_assoc]
          exact ih of' known' fun other member => ended other (List.mem_cons_of_mem _ member)
      · refine .inl ⟨none_of (holds.lookup_none of known directory _), ?_⟩
        have operation : finddirOn v fs calls (node, n) = none := if_neg directory
        simp only [lookupAll, operation]

/-- **A node gives the object of its number.** -/
theorem Holds.gives (holds : Holds v fs objects) (of : node.Of v fs i) {object : Object}
    (here : objects i = some object) : node.file.Gives v fs object := by
  obtain ⟨inode, read, stored⟩ := holds.stored i object here
  rw [of.inode_eq read]
  cases stored with
  | file type readable =>
      have length : (fileBytes v fs inode).length = inode.size := by
        rw [fileBytes, List.length_map, List.length_range]
      refine ⟨type, length.symm, fun r m buffer inside => ?_, fun r m m' n done => ?_⟩
      · rw [length] at inside
        have small : asInt r.size = r.size := asInt_of_lt (by have := readable.small; omega)
        have right := readInodeData_iff (served_part readable.served inside) m
        rw [small] at right
        refine Iff.trans ?_ right
        simp only [FileNode.ReadsBack, FileNode.vfsRead, if_neg buffer]
        constructor
        · rintro ⟨m', done, bytes⟩
          refine ⟨m', done, fun k less => ?_⟩
          rw [bytes k less, fileBytes_getD (by omega)]
        · rintro ⟨m', done, bytes⟩
          refine ⟨m', done, fun k less => ?_⟩
          rw [bytes k less, fileBytes_getD (by omega)]
      · by_cases buffer : r.buffer = 0
        · rw [FileNode.vfsRead, if_pos buffer] at done
          obtain ⟨rfl, -⟩ := Prod.mk.inj (Outcome.ok.inj done)
          exact Set.eqOn_refl _ _
        · rw [FileNode.vfsRead, if_neg buffer] at done
          exact readInodeData_frame readable.served.blocks done
  | other same regular directory => exact same
  | directory type readable positive formed => exact type

end Lookups

/-! ### From a path to the bytes -/

/-- The characters of a component are characters of the path. -/
theorem mem_of_mem_splitOn {path token : CString} {c : Char} (member : token ∈ path.splitOn '/')
    (inside : c ∈ token) : c ∈ path := by
  induction path generalizing token with
  | nil =>
      rw [List.splitOn_nil, List.mem_singleton] at member
      rw [member] at inside
      cases inside
  | cons x rest ih =>
      rw [List.splitOn_cons_eq_if_modifyHead] at member
      split at member
      · rcases List.mem_cons.mp member with rfl | later
        · cases inside
        · exact List.mem_cons_of_mem _ (ih later inside)
      · obtain ⟨first, more, shape⟩ := List.exists_cons_of_ne_nil (List.splitOn_ne_nil '/' rest)
        rw [shape, List.modifyHead_cons] at member
        rcases List.mem_cons.mp member with rfl | later
        · rcases List.mem_cons.mp inside with rfl | here
          · exact List.mem_cons_self
          · exact List.mem_cons_of_mem _ (ih (shape ▸ List.mem_cons_self) here)
        · exact List.mem_cons_of_mem _ (ih (shape ▸ List.mem_cons_of_mem _ later) inside)

/-- A component of a path of bytes has no NUL byte. -/
theorem component_ended {path token : CString} (bytes : ∀ c ∈ path, c ≠ nul ∧ c.toNat < 256)
    (member : token ∈ components path) : 0 ∉ nameBytes token := by
  intro zero
  obtain ⟨c, inside, same⟩ := List.mem_map.mp zero
  unfold components at member
  split at member
  · cases member
  · obtain ⟨other, small⟩ := bytes c (mem_of_mem_splitOn member inside)
    have none : c.toNat = 0 := by
      have value := congrArg UInt8.toNat same
      rwa [UInt8.toNat_ofNat', Nat.mod_eq_of_lt small] at value
    refine other (Char.ext (UInt32.toNat_inj.mp ?_))
    rw [show c.val.toNat = c.toNat from rfl, none]
    rfl

section Paths

variable {v : Volume} {fs : Filesystem} {objects : Objects} {root : Ext2Node} {calls : Nat → DirCall} {i : Nat}
  {cells : Nat → Char} {path pathCopy : Nat} {rest : CString}

/-- **From a path in memory to the bytes of a file.** On every volume that holds a tree, the loop of `vfs_resolve_path`
gets from the node of a directory to the node of the inode number that the names of the path have in the tree, and to
NULL when they have none; whatever the buffers of the lookups held. The node has the kind and the size of the object of
that number; and a `vfs_read` inside a file returns all of what was asked for with the bytes of the file there, exactly
when it starts in no hole or a hole's bytes are what it asks for. -/
theorem path_reads_tree (holds : Holds v fs objects) (of : root.Of v fs i) (known : (objects i).isSome)
    (served : ∀ n, (calls n).Served) (string : StringAt nul cells path ('/' :: rest))
    (bytes : ∀ c ∈ rest, c.toNat < 256) (valid : path ≠ 0)
    (apart : path + rest.length + 1 < pathCopy ∨ pathCopy + pathCopySize ≤ path) :
    ∃ cells' found,
      resolvePathAt (finddirOn v fs calls) (some (root, 0)) pathCopy cells path = .ok (cells', found) ∧
      (found.map fun node => node.1.inode) = objects.resolve i ((components (field rest)).map nameBytes) ∧
      ∀ node ∈ found, ∀ object, objects node.1.inode = some object → node.1.file.Gives v fs object := by
  have chars : ∀ c ∈ field rest, c ≠ nul ∧ c.toNat < 256 := fun c member =>
    have inside : c ∈ rest := List.mem_of_mem_take member
    ⟨(fun same => string.clean (List.mem_cons_of_mem _ (same ▸ inside))), bytes c inside⟩
  obtain ⟨cells', resolved, -⟩ := @resolvePathAt_eq _ (finddirOn v fs calls) cells (root, 0) path pathCopy rest
    string valid apart
  have walked : (if rest = [] then some (root, 0)
      else lookupAll (finddirOn v fs calls) (root, 0) ((field rest).splitOn '/')) =
        lookupAll (finddirOn v fs calls) (root, 0) (components (field rest)) := by
    cases rest with
    | nil => rfl
    | cons c rest => rfl
  rw [walked] at resolved
  refine ⟨cells', _, resolved, ?_⟩
  rcases holds.walk served of known (fun name member => component_ended chars member) with
    ⟨missing, looked⟩ | ⟨j, last, found, looked, of', known'⟩
  · rw [looked, missing]
    exact ⟨rfl, fun node member => by cases member⟩
  · rw [looked, found]
    refine ⟨congrArg some of'.number, fun node member object here => ?_⟩
    obtain rfl := Option.some.inj member
    rw [of'.number] at here
    exact holds.gives of' here

end Paths

/-- A disk on which inode 2 is the directory `docs`, and its entry `b` a file of five bytes. -/
def treeDisk : Volume :=
  { docsDisk with
    byte := fun b x =>
      if b = 7 then if x = 769 then 0x80 else if x = 772 then 5 else if x = 808 then 21 else 0
      else if b = 21 then UInt8.ofNat (x + 1)
      else docsDisk.byte b x }

/-- Its inodes. -/
def treeInode (i : Nat) : Inode := ((ext2ReadInode treeDisk twoGroups true i).getD none).getD fun _ => 0

/-- The tree on it. -/
def treeObjects : Objects := fun i =>
  if i = 2 then some (.directory [([97], 11), ([98], 12)])
  else if i = 11 then some (.other .unknown)
  else if i = 12 then some (.file [1, 2, 3, 4, 5])
  else none

/-- The node of its root directory. -/
def treeRoot : Ext2Node := ⟨[47], 2, inodeNode (treeInode 2)⟩

/-- A lookup with all of its buffers. -/
def treeCall : DirCall := ⟨⟨true, true, true⟩, true, true, fun _ => 0xAA, (Heap.Client.init fun _ => 0).heap, 0⟩

/-- `/b` in memory. -/
def treePath (x : Nat) : Char := ['\x00', '/', 'b'].getD x nul

theorem treeInode_read {i : Nat} (returns : (ext2ReadInode treeDisk twoGroups true i).isOk = true)
    (gives : ((ext2ReadInode treeDisk twoGroups true i).getD none).isSome = true) :
    ext2ReadInode treeDisk twoGroups true i = .ok (some (treeInode i)) := by
  obtain ⟨inode, found⟩ := Option.isSome_iff_exists.mp gives
  rw [treeInode, found]
  exact (Outcome.eq_ok_getD returns none).trans (congrArg Outcome.ok found)

/-- A file within the direct blocks of that disk. -/
theorem treeInode_readable {i size : Nat} (same : (treeInode i).size = size) (small : size ≤ 12 * 1024) :
    Readable treeDisk twoGroups (treeInode i) := by
  have block : twoGroups.blockSize = 1024 := rfl
  refine ⟨⟨by decide, ?_, fun k inside => ?_, fun k inside far => ?_, fun k inside used => rfl⟩, ?_⟩
  · simp only [same, block]
    omega
  · have inside : k < (treeInode i).size := inside
    simp only [block]
    omega
  · have inside : k < (treeInode i).size := inside
    simp only [block] at far
    omega
  · omega

theorem treeDisk_holds : Holds treeDisk twoGroups treeObjects := by
  constructor
  · intro i object here
    unfold treeObjects at here
    split_ifs at here with root first second
    · subst root
      cases here
      refine ⟨treeInode 2, treeInode_read (by decide +kernel) (by decide +kernel), ?_⟩
      have size : (treeInode 2).size = 40 := by decide +kernel
      have same : Set.EqOn (fileByte treeDisk twoGroups (treeInode 2)) docsData {x | x < 40} := by
        have all : ∀ x < 40, fileByte treeDisk twoGroups (treeInode 2) x = docsData x := by decide +kernel
        exact fun x inside => all x inside
      have formed : WellFormed (fileByte treeDisk twoGroups (treeInode 2)) (treeInode 2).size := by
        rw [size]
        exact docs_formed.congr same
      have entries : fileEntries treeDisk twoGroups (treeInode 2) = [([97], 11), ([98], 12)] := by
        rw [fileEntries, size, inUse_congr docs_formed.within docs_formed.inside same, docs_used]
        rfl
      rw [← entries]
      exact .directory (by decide +kernel) (treeInode_readable size (by decide)) (by rw [size]; decide) formed
    · subst first
      cases here
      exact ⟨treeInode 11, treeInode_read (by decide +kernel) (by decide +kernel),
        .other (by decide +kernel) (by decide) (by decide)⟩
    · subst second
      cases here
      have bytes : fileBytes treeDisk twoGroups (treeInode 12) = [1, 2, 3, 4, 5] := by decide +kernel
      refine ⟨treeInode 12, treeInode_read (by decide +kernel) (by decide +kernel), ?_⟩
      rw [← bytes]
      exact .file (by decide +kernel) (@treeInode_readable 12 5 (by decide +kernel) (by decide))
  · intro i entries here
    unfold treeObjects at here
    split_ifs at here with root first second
    · cases here
      decide
    · cases here
    · cases here

/-- **`/b` is found, and the last three of its bytes are read.** -/
theorem path_reads_tree_b : ∃ cells' node m',
    resolvePathAt (finddirOn treeDisk twoGroups fun _ => treeCall) (some (treeRoot, 0)) 1000 treePath 1 =
        .ok (cells', some node) ∧
      node.1.inode = 12 ∧ node.1.file.size = 5 ∧
      node.1.file.vfsRead treeDisk twoGroups ⟨2, 3, 0x5000⟩ true (fun _ => 0) = .ok (m', 3) ∧
      m' 0x5000 = 3 ∧ m' 0x5001 = 4 ∧ m' 0x5002 = 5 := by
  have of : treeRoot.Of treeDisk twoGroups 2 := by
    refine ⟨rfl, ?_⟩
    rw [FileNode.vfsCreateNodeFromExt2, treeInode_read (by decide +kernel) (by decide +kernel)]
    rfl
  have string : StringAt nul treePath 1 ['/', 'b'] :=
    stringAt_cons.mpr ⟨rfl, by decide, stringAt_cons.mpr ⟨rfl, by decide, stringAt_nil.mpr rfl⟩⟩
  have bytes : ∀ c ∈ ['b'], c.toNat < 256 := by
    intro c member
    rw [List.mem_singleton] at member
    subst member
    decide
  obtain ⟨cells', found, resolved, number, gives⟩ := @path_reads_tree treeDisk twoGroups treeObjects treeRoot
    (fun _ => treeCall) 2 treePath 1 1000 ['b'] treeDisk_holds of rfl (fun _ => ⟨rfl, rfl, rfl⟩) string bytes
    (by decide) (by decide)
  have target : treeObjects.resolve 2 ((components (field ['b'])).map nameBytes) = some 12 := by decide +kernel
  rw [target] at number
  obtain ⟨node, same, twelve⟩ := Option.map_eq_some_iff.mp number
  subst same
  obtain ⟨-, size, reads, -⟩ := gives node rfl (.file [1, 2, 3, 4, 5]) (by rw [twelve]; rfl)
  obtain ⟨m', done, bytes⟩ := (reads ⟨2, 3, 0x5000⟩ (fun _ => 0) (by decide) (by decide)).mpr
    (Request.startsRight_of_hole (.inr (show 2 % 1024 + 3 ≤ 1024 by decide)))
  exact ⟨cells', node, m', resolved, twelve, size, done, bytes 0 (by decide), bytes 1 (by decide),
    bytes 2 (by decide)⟩

end Kfs.Vfs
