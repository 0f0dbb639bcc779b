/-
**Doubly indirect blocks.**

An inode leads to the blocks of its file through `i_block`: directly, or along a path of one, two or three
pointer blocks (`ext2Path`). `ext2_read_inode_data` knows the first two kinds. Every block behind the singly
indirect ones is a hole to it, and reads as zeros without an error, so a block of a large file is returned
right exactly when it is one of the first `12 + n`, or all zeros: `block_mapping_iff`. A read that begins
inside a hole and goes on behind it is stored from the start of the hole, and has a condition of its own.
-/

import Kfs.Disk.Holes

namespace Kfs.Disk

/-! ### Where EXT2 keeps the blocks of a file -/

/-- Pointers in a block. -/
def Ext2Fs.pointers (fs : Ext2Fs) : Nat := fs.blockSize / 4

/-- Where the pointer to the block `i` of a file is: an index into `i_block`, and the entries of the pointer
blocks on the way. -/
def ext2Path (fs : Filesystem) (i : Nat) : Nat × List Nat :=
  let n := fs.pointers
  if i < 12 then (i, [])
  else if i < 12 + n then (12, [i - 12])
  else if i < 12 + n + n * n then (13, [(i - 12 - n) / n, (i - 12 - n) % n])
  else (14, [(i - 12 - n - n * n) / (n * n), (i - 12 - n - n * n) / n % n, (i - 12 - n - n * n) % n])

/-- An entry of a pointer block; no pointer block has no pointers. -/
def pointerEntry (v : Volume) (block k : Nat) : Nat :=
  if block = 0 then 0 else Memory.load32 (v.byte block) (4 * k)

/-- The pointer at the end of a path. -/
def follow (v : Volume) : (block : Nat) → List Nat → Nat
  | block, [] => block
  | block, k :: path => follow v (pointerEntry v block k) path

/-- The block that EXT2 assigns to the block `i` of a file, 0 for a hole. -/
def ext2Pointer (v : Volume) (fs : Filesystem) (inode : Inode) (i : Nat) : Nat :=
  follow v (inode.block (ext2Path fs i).1) (ext2Path fs i).2

/-- The byte `x` of a file. -/
def ext2Byte (v : Volume) (fs : Filesystem) (inode : Inode) : Nat → UInt8 :=
  mappedByte v fs (ext2Pointer v fs inode)

/-! ### What is returned for a block -/

section Requests

variable (v : Volume) (fs : Filesystem) (inode : Inode) (r : Request)

/-- All block reads of a request succeed. -/
structure Request.ReadsSucceed : Prop where
  indirect : ∀ i, r.offset / fs.blockSize ≤ i → i < r.last fs → 12 ≤ i → i < 12 + fs.pointers →
    inode.block 12 ≠ 0 → v.readable (inode.block 12) = true
  data : ∀ i, r.offset / fs.blockSize ≤ i → i < r.last fs → blockNumber v fs inode i ≠ 0 →
    v.readable (blockNumber v fs inode i) = true

/-- A request that begins with a block, stays in one, or finds data in its first one. One that begins inside
a hole and goes on behind it is stored from the start of the hole: `readInodeData_base`. -/
def Request.Anchored : Prop :=
  r.offset % fs.blockSize = 0 ∨ r.offset % fs.blockSize + r.size ≤ fs.blockSize ∨
    blockNumber v fs inode (r.offset / fs.blockSize) ≠ 0

/-- The bytes that a request returns for the block `i` of a file are its own. -/
def Request.Returns (i : Nat) : Prop :=
  ∀ granted m m' returned, ext2ReadInodeData v fs inode r granted m = .ok (m', returned) →
    ∀ k : Nat, (k : Int) < returned → (r.offset + k) / fs.blockSize = i →
      m' (r.buffer + k) = ext2Byte v fs inode (r.offset + k)

/-- How many bytes a request asks for in the blocks it goes through, counted from the start of the first. -/
def Request.reach : Nat := min r.size ((r.last fs - r.offset / fs.blockSize) * fs.blockSize)

/-- The bytes a request would return for the block `i` if it began with its first block are those of the
block itself. -/
def Request.Unmoved (i : Nat) : Prop :=
  ∀ k : Nat, (k : Int) < asInt (r.reach fs) → (r.offset + k) / fs.blockSize = i →
    mappedByte v fs (blockNumber v fs inode) (r.offset / fs.blockSize * fs.blockSize + k) =
      ext2Byte v fs inode (r.offset + k)

end Requests

/-- **The bytes that are returned for the block `i` of a file are its own**, in every anchored request whose
block reads succeed. -/
def ReturnsBlock (v : Volume) (fs : Filesystem) (inode : Inode) (i : Nat) : Prop :=
  ∀ r : Request, r.offset < 2 ^ 32 → r.size < 2 ^ 32 → r.ReadsSucceed v fs inode → r.Anchored v fs inode →
    r.Returns v fs inode i

section Mapping

variable {v : Volume} {fs : Filesystem} {inode : Inode} {r : Request} {i k x n n' count : Nat}
  {m m' : Memory} {pointer other : Nat → Nat} {granted : Bool} {returned : Int}

theorem mappedByte_congr (same : pointer (x / fs.blockSize) = other (x / fs.blockSize)) :
    mappedByte v fs pointer x = mappedByte v fs other x := by
  rw [mappedByte, mappedByte, same]

/-- The driver finds direct blocks, and those of an indirect block that can be read. -/
theorem blockNumber_eq (near : i < 12 + fs.pointers)
    (reads : 12 ≤ i → inode.block 12 ≠ 0 → v.readable (inode.block 12) = true) :
    blockNumber v fs inode i = ext2Pointer v fs inode i := by
  unfold blockNumber ext2Pointer ext2Path
  by_cases direct : i < 12
  · simp only [if_pos direct]
    rfl
  · have near' : i < 12 + fs.blockSize / 4 := near
    simp only [if_neg direct, if_pos near, if_pos near', follow, pointerEntry]
    by_cases absent : inode.block 12 = 0
    · rw [if_neg (not_not.mpr absent), if_pos absent]
    · have read : v.readBlock (inode.block 12) = some (v.byte (inode.block 12)) :=
        if_pos (reads (not_lt.mp direct) absent)
      rw [if_pos absent, if_neg absent, read]

/-- **Every block behind the singly indirect ones is a hole to the driver.** -/
theorem blockNumber_beyond (far : 12 + fs.pointers ≤ i) : blockNumber v fs inode i = 0 := by
  unfold Ext2Fs.pointers at far
  unfold blockNumber
  rw [if_neg (by omega), if_neg (by omega)]

/-- A round goes at most to the end of its block. -/
theorem readRound_within (anchored : r.Anchored v fs inode) (blocks : 0 < fs.blockSize)
    (within : r.offset + n ≤ i * fs.blockSize ∨ i = r.offset / fs.blockSize ∧ n = 0) :
    r.offset + (readRound v fs inode r i (m, n)).2 ≤ (i + 1) * fs.blockSize := by
  have parts := Nat.div_add_mod r.offset fs.blockSize
  have rest := Nat.mod_lt r.offset blocks
  rw [Nat.mul_comm] at parts
  rw [Nat.add_mul, Nat.one_mul]
  by_cases hole : blockNumber v fs inode i = 0
  · simp only [readRound, if_pos hole]
    rcases within with before | ⟨rfl, rfl⟩
    · split <;> omega
    · rcases anchored with aligned | short | found
      · split <;> omega
      · split <;> omega
      · exact absurd hole found
  · cases read : v.readBlock (blockNumber v fs inode i) with
    | none =>
        simp only [readRound, if_neg hole, read]
        rcases within with before | ⟨rfl, rfl⟩
        · omega
        · omega
    | some block =>
        simp only [readRound, if_neg hole, read]
        rcases within with before | ⟨rfl, rfl⟩
        · split <;> split <;> omega
        · simp only [if_true]
          split <;> omega

/-- The bytes a read returns are of the blocks it goes through. -/
theorem readLoop_within (anchored : r.Anchored v fs inode) (blocks : 0 < fs.blockSize)
    (within : r.offset + n ≤ i * fs.blockSize ∨ i = r.offset / fs.blockSize ∧ n = 0)
    (done : readLoop v fs inode r count i (m, n) = (m', n')) :
    r.offset + n' ≤ (i + count) * fs.blockSize ∨ n' = 0 := by
  induction count generalizing i m n with
  | zero =>
      cases done
      exact within.imp id And.right
  | succ count ih =>
      rw [readLoop] at done
      split at done
      · have next := @readRound_within _ _ _ _ i n m anchored blocks within
        rw [show i + (count + 1) = i + 1 + count by omega]
        exact ih (.inl next) done
      · cases done
        refine within.imp (fun before => before.trans ?_) And.right
        exact Nat.mul_le_mul_right _ (Nat.le_add_right _ _)

/-- **What a read stores**: the bytes of the blocks the driver finds, at their places. -/
theorem readLoop_laid (reads : r.ReadsSucceed v fs inode) (anchored : r.Anchored v fs inode)
    (blocks : 0 < fs.blockSize)
    (done : readLoop v fs inode r (r.last fs - r.offset / fs.blockSize) (r.offset / fs.blockSize) (m, 0) =
      (m', n')) :
    ∀ k < n', m' (r.buffer + k) = mappedByte v fs (blockNumber v fs inode) (r.offset + k) := by
  refine ((Laid.start fs r r.offset _ m).loop (fun j m n low high more laid => ?_) done).bytes
  by_cases hole : blockNumber v fs inode j = 0
  · have zeros : ∀ x < fs.blockSize,
        mappedByte v fs (blockNumber v fs inode) (j * fs.blockSize + x) = 0 := fun x inside => by
      rw [mappedByte_at v _ inside, if_pos hole]
    rcases laid.place with whole | place | ⟨rfl, none⟩
    · exact absurd whole more.ne
    · exact laid.hole hole place (.inl rfl) zeros
    · have parts := Nat.div_add_mod r.offset fs.blockSize
      rw [Nat.mul_comm] at parts
      have none : n = 0 := none
      have place : r.offset + n = r.offset / fs.blockSize * fs.blockSize + r.offset % fs.blockSize := by
        omega
      refine laid.hole hole place ?_ zeros
      rcases anchored with aligned | short | found
      · exact .inl aligned
      · exact .inr (by omega)
      · exact absurd hole found
  · refine laid.data more blocks (fun _ => rfl) hole (reads.data j low (by omega) hole) fun x inside => ?_
    rw [mappedByte_at v _ inside, if_neg hole]

/-- A read that returns something went through its loop. -/
theorem readInodeData_returned (blocks : 0 < fs.blockSize)
    (done : ext2ReadInodeData v fs inode r granted m = .ok (m', returned)) (some : (k : Int) < returned) :
    granted = true ∧ ∃ n', k < n' ∧ returned = asInt n' ∧
      readLoop v fs inode r (r.last fs - r.offset / fs.blockSize) (r.offset / fs.blockSize) (m, 0) =
        (m', n') := by
  cases granted with
  | true =>
      rcases loop : readLoop v fs inode r (r.last fs - r.offset / fs.blockSize) (r.offset / fs.blockSize)
        (m, 0) with ⟨m₁, n₁⟩
      rw [readInodeData_eq blocks, loop] at done
      obtain ⟨rfl, rfl⟩ := Prod.mk.inj (Outcome.ok.inj done)
      exact ⟨rfl, n₁, lt_of_lt_asInt some, rfl, rfl⟩
  | false =>
      simp only [ext2ReadInodeData, divide, if_neg blocks.ne', Outcome.ok_bind, if_true] at done
      cases done
      omega

/-- The blocks of a mounted filesystem divide the range of offsets. -/
theorem blockSize_dvd (geometry : fs.blockSize = ext2GetBlockSize fs.superblock)
    (blocks : fs.blockSize ≠ 0) : fs.blockSize ∣ 2 ^ 32 := by
  rw [geometry] at blocks ⊢
  revert blocks
  unfold ext2GetBlockSize
  have small : fs.superblock.logBlockSize % 32 < 32 := Nat.mod_lt _ (by decide)
  interval_cases fs.superblock.logBlockSize % 32 <;> decide

/-- The last block of a request begins before the offsets end. -/
theorem last_mul_lt (r : Request) (fs : Filesystem) : r.last fs * fs.blockSize < 2 ^ 32 :=
  lt_of_le_of_lt (Nat.div_mul_le_self _ _) (Nat.mod_lt _ (by decide))

/-- A block that the driver finds, that no request reaches, or that is all zeros, is returned right. -/
theorem ReturnsBlock.of_found (blocks : 0 < fs.blockSize)
    (found : i < 12 + fs.pointers ∨ 2 ^ 32 ≤ (i + 1) * fs.blockSize ∨
      ∀ x < fs.blockSize, ext2Byte v fs inode (i * fs.blockSize + x) = 0) : ReturnsBlock v fs inode i := by
  intro r _ _ reads anchored granted m m' returned done k below here
  obtain ⟨rfl, n', small, -, loop⟩ := readInodeData_returned blocks done below
  have stored := readLoop_laid reads anchored blocks loop k small
  have first : r.offset / fs.blockSize ≤ i := here ▸ Nat.div_le_div_right (Nat.le_add_right _ _)
  have reached : i < r.last fs := by
    rcases readLoop_within anchored blocks (.inr ⟨rfl, rfl⟩) loop with before | nothing
    · have order : r.offset / fs.blockSize ≤ r.last fs := by
        by_contra behind
        rw [Nat.sub_eq_zero_of_le (not_le.mp behind).le] at loop
        cases loop
        omega
      rw [Nat.add_sub_cancel' order] at before
      rw [← here]
      exact Nat.div_lt_of_lt_mul (by rw [Nat.mul_comm]; omega)
    · omega
  rw [stored]
  by_cases near : i < 12 + fs.pointers
  · refine mappedByte_congr ?_
    rw [here]
    exact blockNumber_eq near fun indirect => reads.indirect i first reached indirect near
  · have driver : mappedByte v fs (blockNumber v fs inode) (r.offset + k) = 0 := by
      rw [mappedByte, here, if_pos (blockNumber_beyond (not_lt.mp near))]
    rcases found with near' | beyond | zeros
    · exact absurd near' near
    · have last := last_mul_lt r fs
      have up : (i + 1) * fs.blockSize ≤ r.last fs * fs.blockSize := Nat.mul_le_mul_right _ reached
      omega
    · have parts := Nat.div_add_mod (r.offset + k) fs.blockSize
      rw [here, Nat.mul_comm] at parts
      rw [driver, ← parts, zeros _ (Nat.mod_lt _ blocks)]

/-- The byte of a block behind the singly indirect ones, read alone, is zero. -/
theorem read_beyond (geometry : fs.blockSize = ext2GetBlockSize fs.superblock) (blocks : fs.blockSize ≠ 0)
    (far : 12 + fs.pointers ≤ i) (small : (i + 1) * fs.blockSize < 2 ^ 32) (inside : x < fs.blockSize) :
    Request.ReadsSucceed v fs inode ⟨i * fs.blockSize + x, 1, 0⟩ ∧
      Request.Anchored v fs inode ⟨i * fs.blockSize + x, 1, 0⟩ ∧
      i * fs.blockSize + x < 2 ^ 32 ∧
      ∃ m', ext2ReadInodeData v fs inode ⟨i * fs.blockSize + x, 1, 0⟩ true (fun _ => 0) = .ok (m', 1) ∧
        m' 0 = 0 := by
  have positive := Nat.pos_of_ne_zero blocks
  have hole := @blockNumber_beyond v fs inode i far
  have row : (i * fs.blockSize + x) / fs.blockSize = i := row_of_lt inside
  have column : (i * fs.blockSize + x) % fs.blockSize = x := column_of_lt inside
  -- the whole of the next block is below the end of the offsets
  have room : (i + 1) * fs.blockSize + fs.blockSize ≤ 2 ^ 32 := by
    obtain ⟨q, total⟩ := blockSize_dvd geometry blocks
    rw [total, Nat.mul_comm fs.blockSize] at small ⊢
    have next : i + 1 + 1 ≤ q := Nat.lt_of_mul_lt_mul_right small
    have := Nat.mul_le_mul_right fs.blockSize next
    rwa [Nat.add_mul (i + 1), Nat.one_mul] at this
  have ends : (i + 1) * fs.blockSize = i * fs.blockSize + fs.blockSize := by
    rw [Nat.add_mul, Nat.one_mul]
  have last : Request.last ⟨i * fs.blockSize + x, 1, 0⟩ fs = i + 1 := by
    have sum : (i * fs.blockSize + x + 1 + fs.blockSize + (2 ^ 32 - 1)) % 2 ^ 32 =
        (i + 1) * fs.blockSize + x := by omega
    rw [Request.last]
    simp only [sum]
    exact row_of_lt inside
  refine ⟨⟨fun j low high _ near => ?_, fun j low high found => ?_⟩, ?_, by omega, ?_⟩
  · simp only [row, last] at low high
    omega
  · simp only [row, last] at low high
    obtain rfl : j = i := by omega
    exact absurd hole found
  · right
    left
    simp only [column]
    omega
  · rw [readInodeData_eq positive]
    have one : (if 1 - 0 > fs.blockSize then fs.blockSize else 1 - 0) = 1 := if_neg (by omega)
    simp only [row, last, Nat.add_sub_cancel_left, readLoop, readRound, if_pos hole, one]
    exact ⟨_, rfl, rfl⟩

/-- A round adds no more than a block. -/
theorem readRound_le : (readRound v fs inode r i (m, n)).2 ≤ n + fs.blockSize := by
  by_cases hole : blockNumber v fs inode i = 0
  · simp only [readRound, if_pos hole]
    split <;> omega
  · cases read : v.readBlock (blockNumber v fs inode i) with
    | none =>
        simp only [readRound, if_neg hole, read]
        omega
    | some block =>
        simp only [readRound, if_neg hole, read]
        split <;> split <;> omega

theorem readLoop_le (done : readLoop v fs inode r count i (m, n) = (m', n')) :
    n' ≤ n + count * fs.blockSize := by
  induction count generalizing i m n with
  | zero =>
      cases done
      exact Nat.le_add_right _ _
  | succ count ih =>
      have round := @readRound_le v fs inode r i n m
      rw [readLoop] at done
      rw [Nat.add_mul, Nat.one_mul]
      split at done
      · have rest : n' ≤ (readRound v fs inode r i (m, n)).2 + count * fs.blockSize := ih done
        omega
      · cases done
        omega

/-- **A read that begins in a hole**, as the driver sees it, stores what is there from the start of the hole
on. -/
theorem readLoop_from_hole (reads : r.ReadsSucceed v fs inode) (blocks : 0 < fs.blockSize)
    (first : blockNumber v fs inode (r.offset / fs.blockSize) = 0) (m : Memory) :
    ∃ m', readLoop v fs inode r (r.last fs - r.offset / fs.blockSize) (r.offset / fs.blockSize) (m, 0) =
        (m', r.reach fs) ∧
      ∀ k < r.reach fs, m' (r.buffer + k) =
        mappedByte v fs (blockNumber v fs inode) (r.offset / fs.blockSize * fs.blockSize + k) := by
  rcases done : readLoop v fs inode r (r.last fs - r.offset / fs.blockSize) (r.offset / fs.blockSize) (m, 0)
    with ⟨m', n'⟩
  have laid := (Laid.start fs r (r.offset / fs.blockSize * fs.blockSize)
    (mappedByte v fs (blockNumber v fs inode)) m).loop (fun j m n low high more laid => by
      have place : r.offset / fs.blockSize * fs.blockSize + n = j * fs.blockSize + 0 := by
        rcases laid.place with whole | place | ⟨rfl, none⟩
        · exact absurd whole more.ne
        · exact place
        · exact congrArg _ none
      by_cases hole : blockNumber v fs inode j = 0
      · refine laid.hole hole place (.inl rfl) fun x inside => ?_
        rw [mappedByte_at v _ inside, if_pos hole]
      · refine laid.data more blocks (fun same => ?_) hole (reads.data j low (by omega) hole) fun x inside => ?_
        · exact absurd (same ▸ first) hole
        · rw [mappedByte_at v _ inside, if_neg hole]) done
  have whole : n' = r.reach fs := by
    have below : n' ≤ r.size := laid.below
    have most := readLoop_le done
    rw [Nat.zero_add] at most
    unfold Request.reach
    rcases laid.place with all | place | ⟨same, none⟩
    · have all : n' = r.size := all
      omega
    · have place : r.offset / fs.blockSize * fs.blockSize + n' =
          (r.offset / fs.blockSize + (r.last fs - r.offset / fs.blockSize)) * fs.blockSize := place
      rw [Nat.add_mul] at place
      omega
    · have none : n' = 0 := none
      have nothing : r.last fs - r.offset / fs.blockSize = 0 := by omega
      rw [nothing, Nat.zero_mul]
      omega
  exact ⟨m', by rw [whole], fun k small => laid.bytes k (whole ▸ small)⟩

/-- What is right of a read that begins inside a hole and goes on behind it. -/
theorem Request.returns_iff (reads : r.ReadsSucceed v fs inode) (blocks : 0 < fs.blockSize)
    (loose : ¬ r.Anchored v fs inode) : r.Returns v fs inode i ↔ r.Unmoved v fs inode i := by
  have first : blockNumber v fs inode (r.offset / fs.blockSize) = 0 :=
    not_not.mp fun found => loose (.inr (.inr found))
  constructor
  · intro returns k below here
    obtain ⟨m', loop, bytes⟩ := readLoop_from_hole reads blocks first fun _ => 0
    have done : ext2ReadInodeData v fs inode r true (fun _ => 0) = .ok (m', asInt (r.reach fs)) := by
      rw [readInodeData_eq blocks, loop]
    rw [← bytes k (lt_of_lt_asInt below)]
    exact returns _ _ _ _ done k below here
  · intro unmoved granted m m' returned done k below here
    obtain ⟨rfl, n', small, rfl, loop⟩ := readInodeData_returned blocks done below
    obtain ⟨m₁, again, bytes⟩ := readLoop_from_hole reads blocks first m
    cases loop.symm.trans again
    rw [bytes k small]
    exact unmoved k below here

/-- **Exactly which blocks of a file are returned right**: the direct and singly indirect ones, those that no
request reaches, and those that are all zeros. A read that begins inside a hole and goes on behind it returns
them right exactly when they are the same bytes from the start of the hole on. -/
theorem block_mapping_iff (geometry : fs.blockSize = ext2GetBlockSize fs.superblock)
    (blocks : fs.blockSize ≠ 0) (v : Volume) (inode : Inode) (i : Nat) :
    (ReturnsBlock v fs inode i ↔ i < 12 + fs.pointers ∨ 2 ^ 32 ≤ (i + 1) * fs.blockSize ∨
      ∀ x < fs.blockSize, ext2Byte v fs inode (i * fs.blockSize + x) = 0) ∧
    ∀ r : Request, r.ReadsSucceed v fs inode → ¬ r.Anchored v fs inode →
      (r.Returns v fs inode i ↔ r.Unmoved v fs inode i) := by
  have positive := Nat.pos_of_ne_zero blocks
  refine ⟨⟨fun returns => ?_, ReturnsBlock.of_found positive⟩,
    fun r reads loose => r.returns_iff reads positive loose⟩
  by_cases near : i < 12 + fs.pointers
  · exact .inl near
  · by_cases beyond : 2 ^ 32 ≤ (i + 1) * fs.blockSize
    · exact .inr (.inl beyond)
    · refine .inr (.inr fun x inside => ?_)
      obtain ⟨reads, anchored, word, m', done, zero⟩ :=
        @read_beyond v fs inode i x geometry blocks (not_lt.mp near) (not_le.mp beyond) inside
      have row : (i * fs.blockSize + x + 0) / fs.blockSize = i := row_of_lt inside
      have right := returns ⟨i * fs.blockSize + x, 1, 0⟩ word (by simp) reads anchored _ _ _ _ done 0
        (by decide) row
      exact right.symm.trans zero

end Mapping

/-- A file whose doubly indirect block is block 7. -/
def largeFile : Inode := fun k => if k.val = 92 then 7 else 0

/-- A disk whose block 7 lists block 8, which lists block 9 and is the same in all of its entries. -/
def listingVolume : Volume :=
  { blankVolume with
    byte := fun b x =>
      if b = 7 then (if x = 0 then 8 else 0) else if b = 8 then (if x % 4 = 0 then 9 else 0) else 0xFF }

theorem block_mapping_last : ReturnsBlock listingVolume twoGroups largeFile 267 :=
  (block_mapping_iff (by decide) (by decide) listingVolume largeFile 267).1.mpr (.inl (by decide))

/-- **The first doubly indirect block of that file** is block 9, full of ones. It is read as zeros. -/
theorem large_file_zeros : ext2Pointer listingVolume twoGroups largeFile 268 = 9 ∧
    ext2Byte listingVolume twoGroups largeFile (268 * 1024) = 0xFF ∧
    (∃ m', ext2ReadInodeData listingVolume twoGroups largeFile ⟨268 * 1024, 1, 0⟩ true (fun _ => 0) =
      .ok (m', 1) ∧ m' 0 = 0) ∧
    ¬ ReturnsBlock listingVolume twoGroups largeFile 268 := by
  obtain ⟨reads, anchored, word, m', done, zero⟩ :=
    @read_beyond listingVolume twoGroups largeFile 268 0 (by decide) (by decide) (by decide) (by decide)
      (by decide)
  have size : twoGroups.blockSize = 1024 := rfl
  rw [size, Nat.add_zero] at reads anchored word done
  have ones : ext2Byte listingVolume twoGroups largeFile (268 * 1024) = 0xFF := by decide +kernel
  refine ⟨by decide +kernel, ones, ⟨m', done, zero⟩, fun returns => ?_⟩
  have right := returns ⟨268 * 1024, 1, 0⟩ word (by decide) reads anchored _ _ _ _ done 0 (by decide)
    (by decide)
  exact absurd ((right.symm.trans zero).symm.trans ones) (by decide)

end Kfs.Disk
