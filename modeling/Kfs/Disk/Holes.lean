/-
**Files with holes.**

A block of a file whose pointer is 0 is a hole and reads as zeros (`fileByte`). `ext2_read_inode_data`
computes the length to store of a data block from the offset in it, but that of a hole from the size of a
whole block, also for the first block. So when the block that holds `offset` is a hole, the read starts
at the beginning of that block: `readInodeData_base`. The bytes are the right ones exactly when the first
block is no hole or the file has the same bytes there: `readInodeData_iff`.
-/

import Kfs.Disk.Data

namespace Kfs.Disk

section Files

variable (v : Volume) (fs : Filesystem) (inode : Inode) (r : Request)

/-- The block that holds the block `i` of a file, 0 for a hole: a direct pointer, or one in the indirect
block. -/
def filePointer (i : Nat) : Nat :=
  if i < 12 then inode.block i
  else if inode.block 12 = 0 then 0
  else Memory.load32 (v.byte (inode.block 12)) (4 * (i - 12))

/-- The byte `x` of a file. -/
def fileByte (x : Nat) : UInt8 :=
  if filePointer v inode (x / fs.blockSize) = 0 then 0
  else v.byte (filePointer v inode (x / fs.blockSize)) (x % fs.blockSize)

/-- A request within the blocks the driver knows, whose end does not wrap and whose blocks can be read. -/
structure Request.Served : Prop where
  blocks : 0 < fs.blockSize
  nowrap : r.offset + r.size + fs.blockSize - 1 < 2 ^ 32
  mapped : ∀ k < r.size, (r.offset + k) / fs.blockSize < 12 + fs.blockSize / 4
  indirect : ∀ k < r.size, 12 ≤ (r.offset + k) / fs.blockSize → inode.block 12 ≠ 0 →
    v.readable (inode.block 12) = true
  readable : ∀ k < r.size, filePointer v inode ((r.offset + k) / fs.blockSize) ≠ 0 →
    v.readable (filePointer v inode ((r.offset + k) / fs.blockSize)) = true

/-- Where a read really begins: at the start of the first block when that is a hole. -/
def Request.base : Nat :=
  if filePointer v inode (r.offset / fs.blockSize) = 0 then r.offset / fs.blockSize * fs.blockSize
  else r.offset

/-- The loop has stored the file's bytes from `base` on, up to the block `i` or to the end. -/
structure Filled (i : Nat) (s : Memory × Nat) : Prop where
  below : s.2 ≤ r.size
  started : r.offset / fs.blockSize ≤ i
  place : s.2 = r.size ∨ r.base v fs inode + s.2 = i * fs.blockSize ∨
    i = r.offset / fs.blockSize ∧ s.2 = 0
  bytes : ∀ k < s.2, s.1 (r.buffer + k) = fileByte v fs inode (r.base v fs inode + k)

end Files

section Loop

variable {v : Volume} {fs : Filesystem} {inode : Inode} {r : Request} {i n n' count k : Nat}
  {m m' : Memory}

theorem Request.base_le (v : Volume) (fs : Filesystem) (inode : Inode) (r : Request) :
    r.base v fs inode ≤ r.offset := by
  unfold Request.base
  split
  · exact Nat.div_mul_le_self _ _
  · exact le_rfl

/-- The driver finds the block of the file. -/
theorem Request.Served.blockNumber_eq (served : r.Served v fs inode) (inside : k < r.size) :
    blockNumber v fs inode ((r.offset + k) / fs.blockSize) =
      filePointer v inode ((r.offset + k) / fs.blockSize) := by
  unfold blockNumber filePointer
  by_cases direct : (r.offset + k) / fs.blockSize < 12
  · rw [if_pos direct, if_pos direct]
  · rw [if_neg direct, if_neg direct, if_pos (served.mapped k inside)]
    by_cases absent : inode.block 12 = 0
    · rw [if_neg (not_not.mpr absent), if_pos absent]
    · have read : v.readBlock (inode.block 12) = some (v.byte (inode.block 12)) :=
        if_pos (served.indirect k inside (not_lt.mp direct) absent)
      rw [if_pos absent, if_neg absent, read]

/-- The block a round works on holds a byte of the request. -/
theorem Filled.touched (filled : Filled v fs inode r i (m, n)) (more : n < r.size)
    (blocks : 0 < fs.blockSize) : ∃ k < r.size, (r.offset + k) / fs.blockSize = i := by
  by_cases first : i = r.offset / fs.blockSize
  · exact ⟨0, by omega, by rw [first, Nat.add_zero]⟩
  · have place : r.base v fs inode + n = i * fs.blockSize := by
      rcases filled.place with whole | place | ⟨same, -⟩
      · exact absurd whole more.ne
      · exact place
      · exact absurd same first
    have started := filled.started
    have later : r.offset < i * fs.blockSize := by
      have next : (r.offset / fs.blockSize + 1) * fs.blockSize ≤ i * fs.blockSize :=
        Nat.mul_le_mul_right _ (by omega)
      have parts := Nat.div_add_mod r.offset fs.blockSize
      have rest := Nat.mod_lt r.offset blocks
      rw [Nat.add_mul, Nat.one_mul, Nat.mul_comm] at next
      omega
    have base := r.base_le v fs inode
    refine ⟨i * fs.blockSize - r.offset, by omega, ?_⟩
    rw [Nat.add_sub_cancel' later.le, Nat.mul_div_cancel _ blocks]

/-- A byte of block `i`. -/
theorem fileByte_at (v : Volume) (inode : Inode) {x : Nat} (inside : x < fs.blockSize) :
    fileByte v fs inode (i * fs.blockSize + x) =
      if filePointer v inode i = 0 then 0 else v.byte (filePointer v inode i) x :=
  mappedByte_at v (filePointer v inode) inside

theorem Filled.laid (filled : Filled v fs inode r i (m, n)) :
    Laid fs r (r.base v fs inode) (fileByte v fs inode) i (m, n) :=
  ⟨filled.below, filled.place, filled.bytes⟩

/-- **One round** stores the bytes of block `i`. -/
theorem Filled.round (filled : Filled v fs inode r i (m, n)) (served : r.Served v fs inode)
    (more : n < r.size) : Filled v fs inode r (i + 1) (readRound v fs inode r i (m, n)) := by
  have blocks := served.blocks
  have laid := filled.laid
  have started := filled.started
  obtain ⟨k, inside, here⟩ := filled.touched more blocks
  have number := served.blockNumber_eq inside
  have reads := served.readable k inside
  rw [here] at number reads
  have next : Laid fs r (r.base v fs inode) (fileByte v fs inode) (i + 1)
      (readRound v fs inode r i (m, n)) := by
    by_cases hole : filePointer v inode i = 0
    · have place : r.base v fs inode + n = i * fs.blockSize + 0 := by
        rcases laid.place with whole | place | ⟨same, none⟩
        · exact absurd whole more.ne
        · exact place
        · have none : n = 0 := none
          rw [Request.base, ← same, if_pos hole, none]
      refine laid.hole (number.trans hole) place (.inl rfl) fun x small => ?_
      rw [fileByte_at v inode small, if_pos hole]
    · have found : blockNumber v fs inode i ≠ 0 := fun none => hole (number.symm.trans none)
      refine laid.data more blocks (fun same => ?_) found (number ▸ reads hole) fun x small => ?_
      · rw [Request.base, ← same, if_neg hole]
      · rw [fileByte_at v inode small, if_neg hole, number]
  exact ⟨next.below, Nat.le_succ_of_le started, next.place, next.bytes⟩

/-- **The whole loop.** -/
theorem Filled.loop (filled : Filled v fs inode r i (m, n)) (served : r.Served v fs inode)
    (done : readLoop v fs inode r count i (m, n) = (m', n')) :
    Filled v fs inode r (i + count) (m', n') := by
  have started := filled.started
  have laid := filled.laid.loop (fun j m n low _ more laid => by
    have here : Filled v fs inode r j (m, n) := ⟨laid.below, started.trans low, laid.place, laid.bytes⟩
    exact (here.round served more).laid) done
  exact ⟨laid.below, started.trans (Nat.le_add_right _ _), laid.place, laid.bytes⟩

theorem Request.Served.covers (served : r.Served v fs inode) :
    r.offset + r.size ≤ r.last fs * fs.blockSize := by
  have blocks := served.blocks
  have nowrap := served.nowrap
  exact r.last_covers (by omega) blocks

/-- **What a read stores**: `size` bytes of the file, from `base` on. -/
theorem readInodeData_base (served : r.Served v fs inode) (m : Memory) :
    ∃ m', ext2ReadInodeData v fs inode r true m = .ok (m', asInt r.size) ∧
      ∀ k < r.size, m' (r.buffer + k) = fileByte v fs inode (r.base v fs inode + k) := by
  have start : Filled v fs inode r (r.offset / fs.blockSize) (m, 0) :=
    ⟨Nat.zero_le _, le_rfl, .inr (.inr ⟨rfl, rfl⟩), fun k small => absurd small (Nat.not_lt_zero k)⟩
  rcases done : readLoop v fs inode r (r.last fs - r.offset / fs.blockSize) (r.offset / fs.blockSize)
    (m, 0) with ⟨m', n'⟩
  have filled := start.loop served done
  have covers := served.covers
  have base := r.base_le v fs inode
  have whole : n' = r.size := by
    have first : r.offset / fs.blockSize * fs.blockSize ≤ r.offset := Nat.div_mul_le_self _ _
    have below : n' ≤ r.size := filled.below
    by_cases order : r.offset / fs.blockSize ≤ r.last fs
    · rcases filled.place with whole | place | ⟨same, none⟩
      · exact whole
      · have place : r.base v fs inode + n' =
            (r.offset / fs.blockSize + (r.last fs - r.offset / fs.blockSize)) * fs.blockSize := place
        rw [Nat.add_sub_cancel' order] at place
        omega
      · rw [Nat.add_sub_cancel' order] at same
        rw [same] at covers
        have none : n' = 0 := none
        omega
    · have fewer : r.last fs * fs.blockSize ≤ r.offset / fs.blockSize * fs.blockSize :=
        Nat.mul_le_mul_right _ (by omega)
      omega
  refine ⟨m', ?_, fun k small => filled.bytes k (by rw [whole]; exact small)⟩
  rw [readInodeData_eq served.blocks, done, whole]

/-- The first block of the request is no hole, or the file has the same bytes from its start on. -/
def Request.StartsRight (v : Volume) (fs : Filesystem) (inode : Inode) (r : Request) : Prop :=
  filePointer v inode (r.offset / fs.blockSize) ≠ 0 ∨
    ∀ k < r.size, fileByte v fs inode (r.offset / fs.blockSize * fs.blockSize + k) =
      fileByte v fs inode (r.offset + k)

/-- **A read assembles the bytes of the file exactly when it starts right.** -/
theorem readInodeData_iff (served : r.Served v fs inode) (m : Memory) :
    (∃ m', ext2ReadInodeData v fs inode r true m = .ok (m', asInt r.size) ∧
      ∀ k < r.size, m' (r.buffer + k) = fileByte v fs inode (r.offset + k)) ↔
      r.StartsRight v fs inode := by
  obtain ⟨m', done, bytes⟩ := readInodeData_base served m
  unfold Request.StartsRight
  by_cases hole : filePointer v inode (r.offset / fs.blockSize) = 0
  · rw [Request.base, if_pos hole] at bytes
    constructor
    · rintro ⟨m'', again, right⟩
      cases done.symm.trans again
      exact .inr fun k small => (bytes k small).symm.trans (right k small)
    · intro same
      exact ⟨m', done, fun k small =>
        (bytes k small).trans (same.resolve_left (not_not.mpr hole) k small)⟩
  · rw [Request.base, if_neg hole] at bytes
    exact iff_of_true ⟨m', done, bytes⟩ (.inl hole)

/-- A file whose first block is a hole and whose second one is block 7. -/
def holeThenData : Inode := fun k => if k.val = 44 then 7 else 0

/-- A disk full of ones. -/
def fullVolume : Volume := { blankVolume with byte := fun _ _ => 0xFF }

theorem holeThenData_served (r : Request) (small : r.offset + r.size ≤ 2048) :
    r.Served fullVolume twoGroups holeThenData := by
  have size : twoGroups.blockSize = 1024 := rfl
  refine ⟨by decide, ?_, fun k inside => ?_, fun _ _ _ _ => rfl, fun _ _ _ => rfl⟩
  · rw [size]
    omega
  · rw [size]
    omega

theorem readInodeData_data : ∃ m',
    ext2ReadInodeData fullVolume twoGroups holeThenData ⟨1030, 10, 0x1000⟩ true (fun _ => 0) = .ok (m', 10) ∧
      ∀ k < 10, m' (0x1000 + k) = fileByte fullVolume twoGroups holeThenData (1030 + k) :=
  (readInodeData_iff (holeThenData_served ⟨1030, 10, 0x1000⟩ (by decide)) fun _ => 0).mpr
    (.inl (by decide +kernel))

/-- A read from byte 1 of the hole to the first byte of the data returns zeros only. -/
theorem readInodeData_hole :
    Request.Served fullVolume twoGroups holeThenData ⟨1, 1024, 0x1000⟩ ∧
      fileByte fullVolume twoGroups holeThenData 1024 = 0xFF ∧
      (∃ m', ext2ReadInodeData fullVolume twoGroups holeThenData ⟨1, 1024, 0x1000⟩ true (fun _ => 0) =
        .ok (m', 1024) ∧ m' (0x1000 + 1023) = 0) ∧
      ¬ ∃ m', ext2ReadInodeData fullVolume twoGroups holeThenData ⟨1, 1024, 0x1000⟩ true (fun _ => 0) =
        .ok (m', 1024) ∧
          ∀ k < 1024, m' (0x1000 + k) = fileByte fullVolume twoGroups holeThenData (1 + k) := by
  have served := holeThenData_served ⟨1, 1024, 0x1000⟩ (by decide)
  obtain ⟨m', done, bytes⟩ := readInodeData_base served fun _ => 0
  have zero : m' (0x1000 + 1023) = 0 := (bytes 1023 (by decide)).trans (by decide +kernel)
  have ones : fileByte fullVolume twoGroups holeThenData 1024 = 0xFF := by decide +kernel
  refine ⟨served, ones, ⟨m', done, zero⟩, ?_⟩
  rintro ⟨m'', again, right⟩
  cases done.symm.trans again
  have wrong := (right 1023 (by decide)).symm.trans zero
  rw [show 1 + 1023 = 1024 from rfl, ones] at wrong
  exact absurd wrong (by decide)

/-- A hole is read right from its start on, or when the request does not leave it. -/
theorem Request.startsRight_of_hole (within : r.offset % fs.blockSize = 0 ∨
      r.offset % fs.blockSize + r.size ≤ fs.blockSize) : r.StartsRight v fs inode := by
  by_cases hole : filePointer v inode (r.offset / fs.blockSize) = 0
  · refine .inr fun k small => ?_
    have parts := Nat.div_add_mod r.offset fs.blockSize
    rw [Nat.mul_comm] at parts
    rcases within with aligned | short
    · rw [aligned, Nat.add_zero] at parts
      rw [parts]
    · have there : r.offset + k =
          r.offset / fs.blockSize * fs.blockSize + (r.offset % fs.blockSize + k) := by omega
      rw [there, fileByte_at v inode (by omega), fileByte_at v inode (by omega), if_pos hole, if_pos hole]
  · exact .inl hole

end Loop

end Kfs.Disk
