/-
**The data of an inode: `ext2_read_inode_data`.**

The loop goes block by block from the one that holds `offset` to the one that holds the end of the range,
until `size` bytes are stored. A block number of 0 stands for a block of zeros, and so does every block
beyond the singly indirect ones. The stored bytes are consecutive, and nothing outside them changes
(`readLoop_frame`).

The size of the file plays no part. When the blocks can be read, the loop stores `size` bytes, whatever
the file is: `readInodeData_whole`.
-/

import Kfs.Disk.Inodes

namespace Kfs.Disk

/-- `i_mode`. -/
def Inode.mode (x : Inode) : Nat := Memory.load32 x.byte 0 % 2 ^ 16

/-- `i_size`. -/
def Inode.size (x : Inode) : Nat := Memory.load32 x.byte 4

/-- `i_block[i]`. -/
def Inode.block (x : Inode) (i : Nat) : Nat := Memory.load32 x.byte (40 + 4 * i)

/-- Conversion of a `uint32_t` to `int`. -/
def asInt (n : Nat) : Int := if n < 2 ^ 31 then n else (n : Int) - 2 ^ 32

theorem asInt_of_lt {n : Nat} (small : n < 2 ^ 31) : asInt n = n := if_pos small

theorem asInt_eq_natCast {n k : Nat} (word : n < 2 ^ 32) (equal : asInt n = k) : n = k := by
  unfold asInt at equal
  split at equal <;> omega

theorem lt_of_lt_asInt {n k : Nat} (below : (k : Int) < asInt n) : k < n := by
  unfold asInt at below
  split at below
  · exact Int.ofNat_lt.mp below
  · exact Int.ofNat_lt.mp (lt_of_lt_of_le below (sub_le_self _ (by positivity)))

/-- A read of `size` bytes from `offset` into memory at `buffer`. -/
structure Request where
  offset : Nat
  size : Nat
  buffer : Nat
  deriving DecidableEq, Repr

section Loop

variable (v : Volume) (fs : Filesystem) (inode : Inode) (r : Request)

/-- `block_num` for the block `i` of the file. The buffer for the indirect block is taken as allocated. -/
def blockNumber (i : Nat) : Nat :=
  if i < 12 then inode.block i
  else if i < 12 + fs.blockSize / 4 then
    if inode.block 12 ≠ 0 then
      match v.readBlock (inode.block 12) with
      | some data => data.load32 (4 * (i - 12))
      | none => 0
    else 0
  else 0

/-- One round of the loop: memory and `bytes_read`. -/
def readRound (i : Nat) (s : Memory × Nat) : Memory × Nat :=
  let blockNum := blockNumber v fs inode i
  if blockNum = 0 then
    let toCopy := if r.size - s.2 > fs.blockSize then fs.blockSize else r.size - s.2
    (s.1.fill (r.buffer + s.2) 0 toCopy, s.2 + toCopy)
  else
    match v.readBlock blockNum with
    | none => s
    | some block =>
        let blockOffset := if i = r.offset / fs.blockSize then r.offset % fs.blockSize else 0
        let toCopy :=
          if fs.blockSize - blockOffset > r.size - s.2 then r.size - s.2 else fs.blockSize - blockOffset
        (s.1.writeBytes (r.buffer + s.2) toCopy fun k => block (blockOffset + k), s.2 + toCopy)

/-- The loop, from block `i`. -/
def readLoop : (count i : Nat) → Memory × Nat → Memory × Nat
  | 0, _, s => s
  | count + 1, i, s => if s.2 < r.size then readLoop count (i + 1) (readRound v fs inode r i s) else s

/-- `ext2_read_inode_data`; `granted` says whether the block buffer could be allocated. -/
def ext2ReadInodeData (granted : Bool) (m : Memory) : Outcome (Memory × Int) := do
  let startBlock ← divide r.offset fs.blockSize
  let endBlock ← divide ((r.offset + r.size + fs.blockSize + (2 ^ 32 - 1)) % 2 ^ 32) fs.blockSize
  if granted = false then return (m, -1)
  let s := readLoop v fs inode r (endBlock - startBlock) startBlock (m, 0)
  return (s.1, asInt s.2)

end Loop

section Rounds

variable {v : Volume} {fs : Filesystem} {inode : Inode} {r : Request} {i count n n' : Nat}
  {m m' : Memory}

/-- **What a round does**: store some bytes behind those stored before, or nothing. -/
theorem readRound_cases (v : Volume) (fs : Filesystem) (inode : Inode) (r : Request) (i n : Nat) (m : Memory) :
    ∃ f, ∃ toCopy ≤ r.size - n,
      readRound v fs inode r i (m, n) = (m.writeBytes (r.buffer + n) toCopy f, n + toCopy) := by
  by_cases hole : blockNumber v fs inode i = 0
  · refine ⟨fun _ => 0, if r.size - n > fs.blockSize then fs.blockSize else r.size - n, ?_, ?_⟩
    · split <;> omega
    · simp only [readRound, if_pos hole]
      rfl
  · cases read : v.readBlock (blockNumber v fs inode i) with
    | none =>
        refine ⟨fun _ => 0, 0, Nat.zero_le _, ?_⟩
        simp only [readRound, if_neg hole, read]
        refine Prod.ext ?_ rfl
        funext x
        exact (if_neg (by omega)).symm
    | some block =>
        let blockOffset := if i = r.offset / fs.blockSize then r.offset % fs.blockSize else 0
        refine ⟨fun k => block (blockOffset + k),
          if fs.blockSize - blockOffset > r.size - n then r.size - n else fs.blockSize - blockOffset, ?_,
          ?_⟩
        · split <;> omega
        · simp only [readRound, if_neg hole, read]
          rfl

/-- The bytes stored are consecutive, and nothing else changes. -/
theorem readLoop_frame (below : n ≤ r.size) (done : readLoop v fs inode r count i (m, n) = (m', n')) :
    n ≤ n' ∧ n' ≤ r.size ∧ Set.EqOn m' m {x | x < r.buffer + n ∨ r.buffer + n' ≤ x} := by
  induction count generalizing i m n with
  | zero =>
      cases done
      exact ⟨le_rfl, below, Set.eqOn_refl _ _⟩
  | succ count ih =>
      rw [readLoop] at done
      split at done
      · obtain ⟨f, toCopy, most, round⟩ := readRound_cases v fs inode r i n m
        rw [round] at done
        obtain ⟨grows, most', rest⟩ := ih (by omega) done
        refine ⟨by omega, most', fun x outside => ?_⟩
        simp only [Set.mem_ofPred_eq] at outside
        rw [rest (show x < r.buffer + (n + toCopy) ∨ r.buffer + n' ≤ x by omega)]
        exact Memory.writeBytes_eqOn _ _ _ _ (show _ ∨ _ by omega)
      · cases done
        exact ⟨le_rfl, below, Set.eqOn_refl _ _⟩

/-- A round ends the request or reaches the end of its block. -/
theorem readRound_reaches (reads : ∀ b, v.readable b = true) (some : 0 < fs.blockSize)
    (more : n < r.size) (start : i = r.offset / fs.blockSize → n = 0)
    (reached : i * fs.blockSize ≤ r.offset + n) :
    (readRound v fs inode r i (m, n)).2 = r.size ∨
      (i + 1) * fs.blockSize ≤ r.offset + (readRound v fs inode r i (m, n)).2 := by
  rw [Nat.add_mul, Nat.one_mul]
  by_cases hole : blockNumber v fs inode i = 0
  · simp only [readRound, if_pos hole]
    split <;> omega
  · have read : v.readBlock (blockNumber v fs inode i) = .some (v.byte (blockNumber v fs inode i)) :=
      if_pos (reads _)
    simp only [readRound, if_neg hole, read]
    by_cases first : i = r.offset / fs.blockSize
    · have parts := Nat.div_add_mod r.offset fs.blockSize
      have rest := Nat.mod_lt r.offset some
      have zero := start first
      rw [← first, Nat.mul_comm] at parts
      simp only [if_pos first]
      split <;> omega
    · simp only [if_neg first]
      split <;> omega

theorem readLoop_reaches (reads : ∀ b, v.readable b = true) (some : 0 < fs.blockSize) (below : n ≤ r.size)
    (from_start : r.offset / fs.blockSize ≤ i) (start : i = r.offset / fs.blockSize → n = 0)
    (reached : n = r.size ∨ i * fs.blockSize ≤ r.offset + n)
    (done : readLoop v fs inode r count i (m, n) = (m', n')) :
    n' = r.size ∨ (i + count) * fs.blockSize ≤ r.offset + n' := by
  induction count generalizing i m n with
  | zero =>
      cases done
      exact reached
  | succ count ih =>
      rw [readLoop] at done
      split at done
      · rename_i more
        have more : n < r.size := more
        have next := @readRound_reaches _ _ inode _ i _ m reads some more start (by omega)
        obtain ⟨f, toCopy, most, round⟩ := readRound_cases v fs inode r i n m
        rw [round] at done next
        have := ih (by omega) (by omega) (by omega) next done
        rwa [show i + (count + 1) = i + 1 + count by omega]
      · rename_i enough
        have whole : n = r.size := le_antisymm below (not_lt.mp enough)
        cases done
        exact .inl whole

end Rounds

section Data

variable {v : Volume} {fs : Filesystem} {inode : Inode} {r : Request} {m m' : Memory} {returned : Int}

/-- The end of the range does not wrap. -/
def Request.NoWrap (r : Request) (fs : Filesystem) : Prop := r.offset + r.size + fs.blockSize < 2 ^ 32

instance (r : Request) (fs : Filesystem) : Decidable (r.NoWrap fs) := inferInstanceAs (Decidable (_ < _))

/-- The block behind the last one of a request. -/
def Request.last (r : Request) (fs : Filesystem) : Nat :=
  (r.offset + r.size + fs.blockSize + (2 ^ 32 - 1)) % 2 ^ 32 / fs.blockSize

/-- The blocks of a request hold all of its bytes. -/
theorem Request.last_covers (nowrap : r.offset + r.size + fs.blockSize ≤ 2 ^ 32) (some : 0 < fs.blockSize) :
    r.offset + r.size ≤ r.last fs * fs.blockSize := by
  have sum : (r.offset + r.size + fs.blockSize + (2 ^ 32 - 1)) % 2 ^ 32 =
      r.offset + r.size + fs.blockSize - 1 := by omega
  have parts := Nat.div_add_mod (r.offset + r.size + fs.blockSize - 1) fs.blockSize
  have rest := Nat.mod_lt (r.offset + r.size + fs.blockSize - 1) some
  rw [Request.last, sum, Nat.mul_comm]
  omega

theorem Request.NoWrap.covers (nowrap : r.NoWrap fs) (some : 0 < fs.blockSize) :
    r.offset + r.size ≤ r.last fs * fs.blockSize :=
  r.last_covers (le_of_lt nowrap) some

/-- The loop of a read stores everything. -/
theorem readLoop_whole (reads : ∀ b, v.readable b = true) (some : 0 < fs.blockSize) {last n' : Nat}
    (covers : r.offset + r.size ≤ last * fs.blockSize)
    (done : readLoop v fs inode r (last - r.offset / fs.blockSize) (r.offset / fs.blockSize) (m, 0) =
      (m', n')) : n' = r.size := by
  have first : r.offset / fs.blockSize * fs.blockSize ≤ r.offset := Nat.div_mul_le_self _ _
  obtain ⟨-, most, -⟩ := readLoop_frame (Nat.zero_le _) done
  rcases readLoop_reaches reads some (Nat.zero_le _) le_rfl (fun _ => rfl) (.inr first) done with
    whole | reached
  · exact whole
  · by_cases order : r.offset / fs.blockSize ≤ last
    · rw [Nat.add_sub_cancel' order] at reached
      omega
    · have fewer : last * fs.blockSize ≤ r.offset / fs.blockSize * fs.blockSize :=
        Nat.mul_le_mul_right _ (by omega)
      omega

theorem readInodeData_eq (some : 0 < fs.blockSize) : ext2ReadInodeData v fs inode r true m =
    .ok ((readLoop v fs inode r (r.last fs - r.offset / fs.blockSize) (r.offset / fs.blockSize) (m, 0)).1,
      asInt (readLoop v fs inode r (r.last fs - r.offset / fs.blockSize) (r.offset / fs.blockSize)
        (m, 0)).2) := by
  simp only [ext2ReadInodeData, divide, if_neg some.ne', Outcome.ok_bind, Bool.true_eq_false, if_false,
    Outcome.pure_eq, Request.last]

/-- **A read of readable blocks stores and returns all of what was asked for.** -/
theorem readInodeData_whole (reads : ∀ b, v.readable b = true) (some : 0 < fs.blockSize)
    (nowrap : r.NoWrap fs) (m : Memory) :
    ∃ m', ext2ReadInodeData v fs inode r true m = .ok (m', asInt r.size) ∧
      Set.EqOn m' m {x | x < r.buffer ∨ r.buffer + r.size ≤ x} := by
  rcases done : readLoop v fs inode r (r.last fs - r.offset / fs.blockSize) (r.offset / fs.blockSize)
    (m, 0) with ⟨m', n'⟩
  have whole := readLoop_whole reads some (nowrap.covers some) done
  obtain ⟨-, -, frame⟩ := readLoop_frame (Nat.zero_le _) done
  rw [whole] at frame
  refine ⟨m', ?_, frame⟩
  rw [readInodeData_eq some, done, whole]

end Data

/-! ### What the loop has stored -/

/-- The byte `x` of a file whose blocks are given by `pointer`, with zeros for the holes. -/
def mappedByte (v : Volume) (fs : Filesystem) (pointer : Nat → Nat) (x : Nat) : UInt8 :=
  if pointer (x / fs.blockSize) = 0 then 0 else v.byte (pointer (x / fs.blockSize)) (x % fs.blockSize)

theorem mappedByte_at {fs : Filesystem} {i x : Nat} (v : Volume) (pointer : Nat → Nat)
    (inside : x < fs.blockSize) : mappedByte v fs pointer (i * fs.blockSize + x) =
      if pointer i = 0 then 0 else v.byte (pointer i) x := by
  rw [mappedByte, row_of_lt inside, column_of_lt inside]

/-- The loop has stored `content` from `origin` on, up to the block `i` or to the end. -/
structure Laid (fs : Filesystem) (r : Request) (origin : Nat) (content : Nat → UInt8) (i : Nat)
    (s : Memory × Nat) : Prop where
  below : s.2 ≤ r.size
  place : s.2 = r.size ∨ origin + s.2 = i * fs.blockSize ∨ i = r.offset / fs.blockSize ∧ s.2 = 0
  bytes : ∀ k < s.2, s.1 (r.buffer + k) = content (origin + k)

namespace Laid

variable {v : Volume} {fs : Filesystem} {inode : Inode} {r : Request} {origin i count n n' : Nat}
  {content : Nat → UInt8} {m m' : Memory}

theorem start (fs : Filesystem) (r : Request) (origin : Nat) (content : Nat → UInt8) (m : Memory) :
    Laid fs r origin content (r.offset / fs.blockSize) (m, 0) :=
  ⟨Nat.zero_le _, .inr (.inr ⟨rfl, rfl⟩), fun k none => absurd none (Nat.not_lt_zero k)⟩

/-- A loop that has everything stays as it is. -/
theorem later {j : Nat} (laid : Laid fs r origin content i (m, n)) (enough : ¬ n < r.size) :
    Laid fs r origin content j (m, n) :=
  ⟨laid.below, .inl (le_antisymm laid.below (not_lt.mp enough)), laid.bytes⟩

/-- **Storing part of a block** behind what is stored. -/
theorem store (laid : Laid fs r origin content i (m, n)) {blockOffset toCopy : Nat} {f : Nat → UInt8}
    (place : origin + n = i * fs.blockSize + blockOffset) (most : toCopy ≤ r.size - n)
    (ends : n + toCopy = r.size ∨ blockOffset + toCopy = fs.blockSize)
    (data : ∀ k < toCopy, f k = content (i * fs.blockSize + (blockOffset + k))) :
    Laid fs r origin content (i + 1) (m.writeBytes (r.buffer + n) toCopy f, n + toCopy) := by
  have below : n ≤ r.size := laid.below
  refine ⟨by show n + toCopy ≤ r.size; omega, ?_, fun k small => ?_⟩
  · rcases ends with whole | full
    · exact .inl whole
    · refine .inr (.inl ?_)
      rw [Nat.add_mul, Nat.one_mul]
      show origin + (n + toCopy) = _
      omega
  · show m.writeBytes (r.buffer + n) toCopy f (r.buffer + k) = _
    by_cases old : k < n
    · rw [Memory.writeBytes_eqOn _ _ _ _ (show _ ∨ _ by omega)]
      exact laid.bytes k old
    · obtain ⟨j, rfl⟩ := Nat.exists_eq_add_of_le (not_lt.mp old)
      have new : j < toCopy := by
        have small : n + j < n + toCopy := small
        omega
      rw [← Nat.add_assoc r.buffer, Memory.writeBytes_inside _ _ _ _ new, data j new]
      exact congrArg content (by omega)

/-- Where a round that finds data begins in its block. -/
theorem place_data (laid : Laid fs r origin content i (m, n)) (more : n < r.size)
    (first : i = r.offset / fs.blockSize → origin = r.offset) : origin + n = i * fs.blockSize +
      if i = r.offset / fs.blockSize then r.offset % fs.blockSize else 0 := by
  by_cases here : i = r.offset / fs.blockSize
  · have parts := Nat.div_add_mod r.offset fs.blockSize
    rw [Nat.mul_comm, ← here] at parts
    rw [if_pos here, first here]
    rcases laid.place with whole | place | ⟨-, none⟩
    · exact absurd whole more.ne
    · rw [first here] at place
      have place : r.offset + n = i * fs.blockSize := place
      omega
    · have none : n = 0 := none
      omega
  · rw [if_neg here, Nat.add_zero]
    rcases laid.place with whole | place | ⟨same, -⟩
    · exact absurd whole more.ne
    · exact place
    · exact absurd same here

/-- **A round that finds data.** -/
theorem data (laid : Laid fs r origin content i (m, n)) (more : n < r.size) (blocks : 0 < fs.blockSize)
    (first : i = r.offset / fs.blockSize → origin = r.offset) (found : blockNumber v fs inode i ≠ 0)
    (reads : v.readable (blockNumber v fs inode i) = true)
    (bytes : ∀ x < fs.blockSize, v.byte (blockNumber v fs inode i) x = content (i * fs.blockSize + x)) :
    Laid fs r origin content (i + 1) (readRound v fs inode r i (m, n)) := by
  have read : v.readBlock (blockNumber v fs inode i) = some (v.byte (blockNumber v fs inode i)) :=
    if_pos reads
  have place := laid.place_data more first
  have column : (if i = r.offset / fs.blockSize then r.offset % fs.blockSize else 0) < fs.blockSize := by
    have rest := Nat.mod_lt r.offset blocks
    split
    · exact rest
    · exact blocks
  simp only [readRound, if_neg found, read]
  generalize (if i = r.offset / fs.blockSize then r.offset % fs.blockSize else 0) = blockOffset at *
  refine laid.store place ?_ ?_ fun j small => bytes _ ?_
  · split <;> omega
  · split <;> omega
  · split at small <;> omega

/-- **A round that finds a hole**, at the start of its block or with all of the rest in it. -/
theorem hole (laid : Laid fs r origin content i (m, n)) {blockOffset : Nat}
    (none : blockNumber v fs inode i = 0) (place : origin + n = i * fs.blockSize + blockOffset)
    (inside : blockOffset = 0 ∨ blockOffset + (r.size - n) ≤ fs.blockSize)
    (zeros : ∀ x < fs.blockSize, content (i * fs.blockSize + x) = 0) :
    Laid fs r origin content (i + 1) (readRound v fs inode r i (m, n)) := by
  have below : n ≤ r.size := laid.below
  simp only [readRound, if_pos none]
  refine laid.store place ?_ ?_ fun j small => (zeros _ ?_).symm
  · split <;> omega
  · split <;> omega
  · split at small <;> omega

/-- **The whole loop.** -/
theorem loop (laid : Laid fs r origin content i (m, n))
    (step : ∀ j m n, i ≤ j → j < i + count → n < r.size → Laid fs r origin content j (m, n) →
      Laid fs r origin content (j + 1) (readRound v fs inode r j (m, n)))
    (done : readLoop v fs inode r count i (m, n) = (m', n')) :
    Laid fs r origin content (i + count) (m', n') := by
  induction count generalizing i m n with
  | zero =>
      cases done
      exact laid
  | succ count ih =>
      rw [readLoop] at done
      split at done
      · rename_i more
        have next := ih (step i m n le_rfl (by omega) more laid)
          (fun j m n low high => step j m n (by omega) (by omega)) done
        rwa [Nat.add_assoc, Nat.add_comm 1] at next
      · rename_i enough
        cases done
        exact laid.later enough

end Laid

end Kfs.Disk
