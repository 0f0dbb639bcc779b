/-
**Reads that meet blocks that fail.**

A data block that cannot be read is passed over: nothing is stored for it, the loop goes on, and what the
next block holds takes its place. An indirect block that cannot be read makes holes of all of its blocks. So
what a read returns is the beginning of what it was asked for exactly when it finds all of its blocks and
only the last ones of them fail: `short_read_begins`.
-/

import Kfs.Disk.Indirect

namespace Kfs.Disk

/-! ### Files with other contents -/

/-- The pointer blocks on a path. -/
def pointerBlocks (v : Volume) : (block : Nat) → List Nat → List Nat
  | _, [] => []
  | block, k :: path => block :: pointerBlocks v (pointerEntry v block k) path

/-- The pointer blocks that lead to the block `i` of a file. -/
def mapBlocks (v : Volume) (fs : Filesystem) (inode : Inode) (i : Nat) : List Nat :=
  pointerBlocks v (inode.block (ext2Path fs i).1) (ext2Path fs i).2

/-- The blocks that a request goes through. -/
def Request.Reaches (r : Request) (fs : Filesystem) (i : Nat) : Prop :=
  r.offset / fs.blockSize ≤ i ∧ i < r.last fs

section Requests

variable (v : Volume) (fs : Filesystem) (inode : Inode) (r : Request)

/-- No block of the request is a hole. -/
def Request.NoHoles : Prop := ∀ i, r.Reaches fs i → ext2Pointer v fs inode i ≠ 0

/-- No block of the request is a pointer block of the file. -/
def Request.Apart : Prop :=
  ∀ i j, r.Reaches fs i → r.Reaches fs j → ext2Pointer v fs inode i ∉ mapBlocks v fs inode j

/-- A disk with the same failing blocks and the same pointer blocks. -/
structure SameMap (v' : Volume) : Prop where
  readable : v'.readable = v.readable
  maps : ∀ i, r.Reaches fs i → ∀ b ∈ mapBlocks v fs inode i, v'.byte b = v.byte b

/-- **What is returned is the beginning of what was asked for**, whatever the data blocks hold. -/
def ReturnsBeginning : Prop :=
  ∀ v', SameMap v fs inode r v' → ∀ granted m m' returned,
    ext2ReadInodeData v' fs inode r granted m = .ok (m', returned) →
    ∀ k : Nat, (k : Int) < returned → m' (r.buffer + k) = ext2Byte v' fs inode (r.offset + k)

/-- The driver finds the block: it is a direct one, or the indirect block can be read. -/
def Finds (i : Nat) : Prop :=
  i < 12 ∨ i < 12 + fs.pointers ∧ v.readable (inode.block 12) = true

/-- The driver finds all blocks of the request, and none that can be read comes behind one that fails. -/
structure Request.FailsAtEnd : Prop where
  finds : ∀ i, r.Reaches fs i → Finds v fs inode i
  ordered : ∀ i j, r.Reaches fs i → r.Reaches fs j → i ≤ j →
    v.readable (ext2Pointer v fs inode j) = true → v.readable (ext2Pointer v fs inode i) = true

end Requests

section Contents

variable {v v' : Volume} {fs : Filesystem} {inode : Inode} {r : Request} {block i : Nat} {path : List Nat}

theorem follow_congr (same : ∀ b ∈ pointerBlocks v block path, v'.byte b = v.byte b) :
    follow v' block path = follow v block path := by
  induction path generalizing block with
  | nil => rfl
  | cons k path ih =>
      have here : v'.byte block = v.byte block := same block List.mem_cons_self
      have entry : pointerEntry v' block k = pointerEntry v block k := by
        unfold pointerEntry
        rw [here]
      rw [follow, follow, entry]
      exact ih fun b member => same b (List.mem_cons_of_mem _ member)

theorem SameMap.refl (v : Volume) (fs : Filesystem) (inode : Inode) (r : Request) : SameMap v fs inode r v :=
  ⟨rfl, fun _ _ _ _ => rfl⟩

theorem SameMap.pointer (same : SameMap v fs inode r v') (reaches : r.Reaches fs i) :
    ext2Pointer v' fs inode i = ext2Pointer v fs inode i :=
  follow_congr (same.maps i reaches)

theorem SameMap.finds (same : SameMap v fs inode r v') : Finds v' fs inode i ↔ Finds v fs inode i := by
  unfold Finds
  rw [same.readable]

/-- A block that is found is found there too, and fails there if it fails. -/
theorem SameMap.found (same : SameMap v fs inode r v') (noHoles : r.NoHoles v fs inode)
    (reaches : r.Reaches fs i) (finds : Finds v fs inode i) :
    Finds v' fs inode i ∧ ext2Pointer v' fs inode i ≠ 0 ∧
      v'.readable (ext2Pointer v' fs inode i) = v.readable (ext2Pointer v fs inode i) := by
  rw [same.pointer reaches, same.readable]
  exact ⟨same.finds.mpr finds, noHoles i reaches, rfl⟩

theorem Finds.blockNumber (finds : Finds v fs inode i) :
    blockNumber v fs inode i = ext2Pointer v fs inode i := by
  rcases finds with direct | ⟨near, reads⟩
  · exact blockNumber_eq (by omega) fun indirect => absurd direct (not_lt.mpr indirect)
  · exact blockNumber_eq near fun _ _ => reads

/-- **A block that the driver does not find is a hole to it.** -/
theorem blockNumber_lost (lost : ¬ Finds v fs inode i) : blockNumber v fs inode i = 0 := by
  obtain ⟨indirect, other⟩ := not_or.mp lost
  by_cases near : i < 12 + fs.pointers
  · have failed : v.readBlock (inode.block 12) = none := if_neg fun reads => other ⟨near, reads⟩
    have near' : i < 12 + fs.blockSize / 4 := near
    unfold Kfs.Disk.blockNumber
    rw [if_neg indirect, if_pos near', failed]
    split <;> rfl
  · exact blockNumber_beyond (not_lt.mp near)

/-- The data blocks of a file can hold anything: all ones in one of them, and zeros in the others. -/
theorem exists_contents (apart : r.Apart v fs inode) (reaches : r.Reaches fs i) :
    ∃ v', SameMap v fs inode r v' ∧ (∀ x, v'.byte (ext2Pointer v fs inode i) x = 0xFF) ∧
      ∀ j, r.Reaches fs j → ext2Pointer v fs inode j ≠ ext2Pointer v fs inode i →
        ∀ x, v'.byte (ext2Pointer v fs inode j) x = 0 := by
  classical
  let map : Nat → Prop := fun b => ∃ j, r.Reaches fs j ∧ b ∈ mapBlocks v fs inode j
  have data : ∀ j, r.Reaches fs j → ¬ map (ext2Pointer v fs inode j) := by
    rintro j here ⟨k, there, member⟩
    exact apart j k here there member
  refine ⟨{ v with
      byte := fun b x => if map b then v.byte b x else if b = ext2Pointer v fs inode i then 0xFF else 0 },
    ⟨rfl, fun j here b member => ?_⟩, fun x => ?_, fun j here other x => ?_⟩
  · funext x
    exact if_pos ⟨j, here, member⟩
  · show (if map _ then _ else _) = _
    rw [if_neg (data i reaches), if_pos rfl]
  · show (if map _ then _ else _) = _
    rw [if_neg (data j here), if_neg other]

end Contents

/-! ### The loop -/

section Loop

variable {v : Volume} {fs : Filesystem} {inode : Inode} {r : Request} {i count n n' : Nat} {m m' : Memory}
  {s : Memory × Nat}

theorem readLoop_full (count i : Nat) (enough : ¬ s.2 < r.size) : readLoop v fs inode r count i s = s := by
  cases count with
  | zero => rfl
  | succ count => rw [readLoop, if_neg enough]

/-- A loop is its first rounds and the others. -/
theorem readLoop_add (v : Volume) (fs : Filesystem) (inode : Inode) (r : Request) (a b i : Nat)
    (s : Memory × Nat) : readLoop v fs inode r (a + b) i s =
      readLoop v fs inode r b (i + a) (readLoop v fs inode r a i s) := by
  induction a generalizing i s with
  | zero => rw [Nat.zero_add, readLoop, Nat.add_zero]
  | succ a ih =>
      rw [show a + 1 + b = a + b + 1 by omega, readLoop, readLoop]
      by_cases more : s.2 < r.size
      · rw [if_pos more, if_pos more, ih, show i + 1 + a = i + (a + 1) by omega]
      · rw [if_neg more, if_neg more, readLoop_full _ _ more]

/-- Blocks that are found and cannot be read are passed over. -/
theorem readLoop_skips (skipped : ∀ j, i ≤ j → j < i + count → blockNumber v fs inode j ≠ 0 ∧
    v.readable (blockNumber v fs inode j) ≠ true) : readLoop v fs inode r count i s = s := by
  induction count generalizing i s with
  | zero => rfl
  | succ count ih =>
      obtain ⟨found, fails⟩ := skipped i le_rfl (by omega)
      have failed : v.readBlock (blockNumber v fs inode i) = none := if_neg fails
      have round : readRound v fs inode r i s = s := by
        simp only [readRound, if_neg found, failed]
      rw [readLoop, round, ih fun j low high => skipped j (by omega) (by omega)]
      exact ite_self s

/-- **A read whose failing blocks are at the end** stores the beginning of the file's bytes. -/
theorem readLoop_begins (blocks : 0 < fs.blockSize)
    (laid : Laid fs r r.offset (ext2Byte v fs inode) i (m, n))
    (finds : ∀ j, i ≤ j → j < i + count → Finds v fs inode j ∧ ext2Pointer v fs inode j ≠ 0)
    (ordered : ∀ a b, i ≤ a → a ≤ b → b < i + count → v.readable (ext2Pointer v fs inode b) = true →
      v.readable (ext2Pointer v fs inode a) = true)
    (done : readLoop v fs inode r count i (m, n) = (m', n')) :
    ∀ k < n', m' (r.buffer + k) = ext2Byte v fs inode (r.offset + k) := by
  induction count generalizing i m n with
  | zero =>
      cases done
      exact laid.bytes
  | succ count ih =>
      obtain ⟨here, some⟩ := finds i le_rfl (by omega)
      have number := here.blockNumber
      by_cases reads : v.readable (ext2Pointer v fs inode i) = true
      · rw [readLoop] at done
        split at done
        · rename_i more
          have next := laid.data more blocks (fun _ => rfl) (number ▸ some) (number ▸ reads)
            fun x inside => by rw [ext2Byte, mappedByte_at v _ inside, if_neg some, number]
          exact ih next (fun j low high => finds j (by omega) (by omega))
            (fun a b low order high => ordered a b (by omega) order (by omega)) done
        · cases done
          exact laid.bytes
      · rw [readLoop_skips fun j low high => ?_] at done
        · cases done
          exact laid.bytes
        · obtain ⟨there, other⟩ := finds j low high
          rw [there.blockNumber]
          exact ⟨other, fun readable => reads (ordered i j le_rfl low high readable)⟩

/-- Blocks that can be read are stored. -/
theorem readLoop_stores (blocks : 0 < fs.blockSize)
    (laid : Laid fs r r.offset (ext2Byte v fs inode) i (m, n))
    (good : ∀ j, i ≤ j → j < i + count → Finds v fs inode j ∧ ext2Pointer v fs inode j ≠ 0 ∧
      v.readable (ext2Pointer v fs inode j) = true)
    (done : readLoop v fs inode r count i (m, n) = (m', n')) :
    Laid fs r r.offset (ext2Byte v fs inode) (i + count) (m', n') := by
  refine laid.loop (fun j m n low high more laid => ?_) done
  obtain ⟨finds, some, reads⟩ := good j low high
  have number := finds.blockNumber
  refine laid.data more blocks (fun _ => rfl) (number ▸ some) (number ▸ reads) fun x inside => ?_
  rw [ext2Byte, mappedByte_at v _ inside, if_neg some, number]

/-- A request begins or goes on in every block it goes through. -/
theorem Request.Reaches.lt (reaches : r.Reaches fs i) (some : 0 < r.size) (blocks : 0 < fs.blockSize) :
    i * fs.blockSize < r.offset + r.size := by
  have next : (i + 1) * fs.blockSize ≤ r.last fs * fs.blockSize := Nat.mul_le_mul_right _ reaches.2
  have ends : r.last fs * fs.blockSize ≤ (r.offset + r.size + fs.blockSize + (2 ^ 32 - 1)) % 2 ^ 32 :=
    Nat.div_mul_le_self _ _
  rw [Nat.add_mul, Nat.one_mul] at next
  omega

/-- The next byte to store is of the block the loop has come to. -/
theorem Laid.next_byte {content : Nat → UInt8} (laid : Laid fs r r.offset content i (m, n))
    (more : n < r.size) (blocks : 0 < fs.blockSize) : (r.offset + n) / fs.blockSize = i := by
  rcases laid.place with whole | place | ⟨same, none⟩
  · exact absurd whole more.ne
  · have place : r.offset + n = i * fs.blockSize := place
    rw [place, Nat.mul_div_cancel _ blocks]
  · have none : n = 0 := none
    rw [none, Nat.add_zero, same]

/-- A round that finds a hole or a block of zeros stores a zero. -/
theorem readRound_zero (more : n < r.size) (blocks : 0 < fs.blockSize)
    (zeros : blockNumber v fs inode i = 0 ∨ v.readable (blockNumber v fs inode i) = true ∧
      ∀ x, v.byte (blockNumber v fs inode i) x = 0) :
    ∃ m' n', readRound v fs inode r i (m, n) = (m', n') ∧ n < n' ∧ n' ≤ r.size ∧ m' (r.buffer + n) = 0 := by
  by_cases hole : blockNumber v fs inode i = 0
  · simp only [readRound, if_pos hole]
    refine ⟨_, _, rfl, ?_, ?_, ?_⟩
    · split <;> omega
    · split <;> omega
    · refine (Memory.writeBytes_inside m (r.buffer + n) _ _ (i := 0) ?_)
      split <;> omega
  · obtain ⟨reads, bytes⟩ := zeros.resolve_left hole
    have read : v.readBlock (blockNumber v fs inode i) = some (v.byte (blockNumber v fs inode i)) :=
      if_pos reads
    have column : (if i = r.offset / fs.blockSize then r.offset % fs.blockSize else 0) < fs.blockSize := by
      have rest := Nat.mod_lt r.offset blocks
      split
      · exact rest
      · exact blocks
    simp only [readRound, if_neg hole, read]
    generalize (if i = r.offset / fs.blockSize then r.offset % fs.blockSize else 0) = blockOffset at *
    refine ⟨_, _, rfl, ?_, ?_, ?_⟩
    · split <;> omega
    · split <;> omega
    · refine (Memory.writeBytes_inside m (r.buffer + n) _ _ (i := 0) ?_).trans (bytes _)
      split <;> omega

/-- Where the loop has come to before it has stored everything. -/
theorem readLoop_more {f : Nat} (blocks : 0 < fs.blockSize) (some : 0 < r.size) (reaches : r.Reaches fs f)
    (good : ∀ j, r.offset / fs.blockSize ≤ j → j < f → Finds v fs inode j ∧ ext2Pointer v fs inode j ≠ 0)
    (done : readLoop v fs inode r (f - r.offset / fs.blockSize) (r.offset / fs.blockSize) (m, 0) =
      (m', n')) : n' < r.size := by
  by_cases first : f = r.offset / fs.blockSize
  · rw [first, Nat.sub_self] at done
    cases done
    exact some
  · have before := reaches.1
    obtain ⟨finds, pointed⟩ := good _ le_rfl (by omega)
    have anchored : r.Anchored v fs inode := .inr (.inr (by rw [finds.blockNumber]; exact pointed))
    have ends := reaches.lt some blocks
    rcases readLoop_within anchored blocks (.inr ⟨rfl, rfl⟩) done with within | none
    · rw [Nat.add_sub_cancel' before] at within
      omega
    · omega

/-- **The first block that is not passed over takes the place of one that fails.** -/
theorem wrong_byte {f b : Nat} (blocks : 0 < fs.blockSize) (some : 0 < r.size) (here : r.Reaches fs f)
    (there : r.Reaches fs b) (order : f ≤ b)
    (good : ∀ j, r.offset / fs.blockSize ≤ j → j < f → Finds v fs inode j ∧ ext2Pointer v fs inode j ≠ 0 ∧
      v.readable (ext2Pointer v fs inode j) = true)
    (skipped : ∀ j, f ≤ j → j < b → Finds v fs inode j ∧ ext2Pointer v fs inode j ≠ 0 ∧
      v.readable (ext2Pointer v fs inode j) ≠ true)
    (zeros : blockNumber v fs inode b = 0 ∨ v.readable (blockNumber v fs inode b) = true ∧
      ∀ x, v.byte (blockNumber v fs inode b) x = 0) :
    ∃ m' n' k, readLoop v fs inode r (r.last fs - r.offset / fs.blockSize) (r.offset / fs.blockSize)
      ((fun _ => 0), 0) = (m', n') ∧ k < n' ∧ n' ≤ r.size ∧ (r.offset + k) / fs.blockSize = f ∧
        m' (r.buffer + k) = 0 := by
  obtain ⟨before, -⟩ := here
  have behind := there.2
  rcases first : readLoop v fs inode r (f - r.offset / fs.blockSize) (r.offset / fs.blockSize)
    ((fun _ => 0), 0) with ⟨m₁, n₁⟩
  have laid := readLoop_stores blocks (Laid.start fs r r.offset _ _)
    (fun j low high => good j low (by omega)) first
  rw [Nat.add_sub_cancel' before] at laid
  have more := readLoop_more blocks some ⟨before, lt_of_le_of_lt order behind⟩
    (fun j low high => ⟨(good j low high).1, (good j low high).2.1⟩) first
  obtain ⟨m₂, n₂, round, grows, most, zero⟩ := @readRound_zero v fs inode r b n₁ m₁ more blocks zeros
  rcases last : readLoop v fs inode r (r.last fs - b - 1) (b + 1) (m₂, n₂) with ⟨m₃, n₃⟩
  obtain ⟨later, whole, frame⟩ := readLoop_frame most last
  refine ⟨m₃, n₃, n₁, ?_, by omega, whole, laid.next_byte more blocks, ?_⟩
  · have parts : r.last fs - r.offset / fs.blockSize =
        f - r.offset / fs.blockSize + (b - f + (r.last fs - b - 1 + 1)) := by omega
    have passed : readLoop v fs inode r (b - f) f (m₁, n₁) = (m₁, n₁) := by
      refine readLoop_skips fun j low high => ?_
      obtain ⟨finds, pointed, fails⟩ := skipped j low (by omega)
      rw [finds.blockNumber]
      exact ⟨pointed, fails⟩
    rw [parts, readLoop_add, first, Nat.add_sub_cancel' before, readLoop_add, passed,
      Nat.add_sub_cancel' order, readLoop, if_pos (show n₁ < r.size from more), round, last]
  · rw [frame (show r.buffer + n₁ < r.buffer + n₂ ∨ _ from .inl (by omega)), zero]

end Loop

section Reads

variable {v : Volume} {fs : Filesystem} {inode : Inode} {r : Request}

/-- Reads that fail at the end only return a beginning. -/
theorem Request.FailsAtEnd.returns (fails : r.FailsAtEnd v fs inode) (blocks : 0 < fs.blockSize)
    (noHoles : r.NoHoles v fs inode) : ReturnsBeginning v fs inode r := by
  intro v' same granted m m' returned done k below
  obtain ⟨rfl, n', small, -, loop⟩ := readInodeData_returned blocks done below
  refine readLoop_begins blocks (Laid.start fs r r.offset _ m) (fun j low high => ?_)
    (fun a b low order high reads => ?_) loop k small
  · have reaches : r.Reaches fs j := ⟨low, by omega⟩
    obtain ⟨finds, pointed, -⟩ := same.found noHoles reaches (fails.finds j reaches)
    exact ⟨finds, pointed⟩
  · have first : r.Reaches fs a := ⟨low, by omega⟩
    have second : r.Reaches fs b := ⟨low.trans order, by omega⟩
    rw [same.readable, same.pointer second] at reads
    rw [same.readable, same.pointer first]
    exact fails.ordered a b first second order reads

/-- A request that does not only fail at the end comes to a block that fails or is not found, and behind it
to one that is not passed over. -/
theorem exists_trouble (trouble : ¬ r.FailsAtEnd v fs inode) : ∃ f b, r.Reaches fs f ∧ r.Reaches fs b ∧ f ≤ b ∧
    (∀ j, r.offset / fs.blockSize ≤ j → j < f →
      Finds v fs inode j ∧ v.readable (ext2Pointer v fs inode j) = true) ∧
    ¬ (Finds v fs inode f ∧ v.readable (ext2Pointer v fs inode f) = true) ∧
    (∀ j, f ≤ j → j < b → Finds v fs inode j ∧ v.readable (ext2Pointer v fs inode j) ≠ true) ∧
    ¬ (Finds v fs inode b ∧ v.readable (ext2Pointer v fs inode b) ≠ true) := by
  classical
  obtain ⟨g, t, first, second, order, bad, kept⟩ : ∃ g t, r.Reaches fs g ∧ r.Reaches fs t ∧ g ≤ t ∧
      ¬ (Finds v fs inode g ∧ v.readable (ext2Pointer v fs inode g) = true) ∧
      ¬ (Finds v fs inode t ∧ v.readable (ext2Pointer v fs inode t) ≠ true) := by
    by_contra none
    push Not at none
    refine trouble ⟨fun i reaches => ?_, fun i j here there order reads => ?_⟩
    · by_contra lost
      exact lost (none i i reaches reaches le_rfl (fun found => absurd found lost)).1
    · by_contra fails
      exact (none i j here there order fun _ => fails).2 reads
  have someBad : ∃ f, r.offset / fs.blockSize ≤ f ∧
      ¬ (Finds v fs inode f ∧ v.readable (ext2Pointer v fs inode f) = true) := ⟨g, first.1, bad⟩
  have someKept : ∃ b, Nat.find someBad ≤ b ∧
      ¬ (Finds v fs inode b ∧ v.readable (ext2Pointer v fs inode b) ≠ true) :=
    ⟨t, (Nat.find_min' someBad ⟨first.1, bad⟩).trans order, kept⟩
  obtain ⟨low, notGood⟩ := Nat.find_spec someBad
  obtain ⟨above, notSkipped⟩ := Nat.find_spec someKept
  have least : Nat.find someBad ≤ g := Nat.find_min' someBad ⟨first.1, bad⟩
  have most : Nat.find someKept ≤ t := Nat.find_min' someKept ⟨least.trans order, kept⟩
  refine ⟨Nat.find someBad, Nat.find someKept, ⟨low, lt_of_le_of_lt least first.2⟩,
    ⟨low.trans above, lt_of_le_of_lt most second.2⟩, above, fun j from_start below => ?_, notGood,
    fun j from_bad below => ?_, notSkipped⟩
  · by_contra other
    exact Nat.find_min someBad below ⟨from_start, other⟩
  · by_contra other
    exact Nat.find_min someKept below ⟨from_bad, other⟩

/-- **Exactly which reads return the beginning of what they were asked for**, of a file without holes in the
range: those that find all of their blocks and whose failing blocks are the last ones. That is enough for
every request. The converse is for requests below 2 GiB, whose result cannot be taken for an error, and
files whose data blocks are not pointer blocks too. -/
theorem short_read_begins (blocks : 0 < fs.blockSize) (noHoles : r.NoHoles v fs inode) :
    (r.size = 0 ∨ r.FailsAtEnd v fs inode → ReturnsBeginning v fs inode r) ∧
    (r.size < 2 ^ 31 → r.Apart v fs inode → ReturnsBeginning v fs inode r →
      r.size = 0 ∨ r.FailsAtEnd v fs inode) := by
  constructor
  · rintro (empty | fails)
    · intro v' _ granted m m' returned done k below
      obtain ⟨rfl, n', small, -, loop⟩ := readInodeData_returned blocks done below
      obtain ⟨-, most, -⟩ := readLoop_frame (Nat.zero_le _) loop
      omega
    · exact fails.returns blocks noHoles
  · intro short apart returns
    by_contra neither
    obtain ⟨some, trouble⟩ := not_or.mp neither
    obtain ⟨f, b, here, there, order, good, notGood, skipped, notSkipped⟩ := exists_trouble trouble
    obtain ⟨v', same, ones, zeros⟩ := exists_contents apart here
    have inRange : ∀ j, r.offset / fs.blockSize ≤ j → j ≤ b → r.Reaches fs j :=
      fun j low high => ⟨low, lt_of_le_of_lt high there.2⟩
    obtain ⟨m', n', k, loop, small, most, row, zero⟩ :=
      @wrong_byte v' fs inode r f b blocks (Nat.pos_of_ne_zero some) here there order
        (fun j low high => by
          obtain ⟨finds, reads⟩ := good j low high
          obtain ⟨finds', pointed, answer⟩ := same.found noHoles (inRange j low (by omega)) finds
          exact ⟨finds', pointed, answer.trans reads⟩)
        (fun j low high => by
          obtain ⟨finds, fails⟩ := skipped j low high
          obtain ⟨finds', pointed, answer⟩ :=
            same.found noHoles (inRange j (here.1.trans low) high.le) finds
          exact ⟨finds', pointed, answer ▸ fails⟩)
        (by
          by_cases finds : Finds v fs inode b
          · right
            have reads : v.readable (ext2Pointer v fs inode b) = true := by
              by_contra fails
              exact notSkipped ⟨finds, fails⟩
            have other : ext2Pointer v fs inode b ≠ ext2Pointer v fs inode f := by
              intro equal
              rcases eq_or_lt_of_le order with rfl | less
              · exact notGood ⟨finds, reads⟩
              · exact (skipped f le_rfl less).2 (equal ▸ reads)
            rw [(same.finds.mpr finds).blockNumber, same.pointer there, same.readable]
            exact ⟨reads, zeros b there other⟩
          · exact .inl (blockNumber_lost fun finds' => finds (same.finds.mp finds')))
    have done := @readInodeData_eq v' fs inode r (fun _ => 0) blocks
    rw [loop] at done
    have result : asInt n' = n' := asInt_of_lt (by omega)
    have right : m' (r.buffer + k) = ext2Byte v' fs inode (r.offset + k) :=
      returns v' same true _ _ _ done k (by rw [result]; exact Int.ofNat_lt.mpr small)
    rw [zero, ext2Byte, mappedByte, row, same.pointer here, if_neg (noHoles f here), ones] at right
    exact absurd right (by decide)

end Reads

/-- A file of the blocks 7 and 8. -/
def twoBlocks : Inode := fun k => if k.val = 40 then 7 else if k.val = 44 then 8 else 0

/-- A disk that fails to read one block. -/
def failingVolume (failing : Nat) : Volume :=
  { blankVolume with
    readable := fun b => decide (b ≠ failing)
    byte := fun b _ => if b = 8 then 0xFF else 0 }

theorem twoBlocks_reaches {i : Nat} : Request.Reaches ⟨0, 2048, 0⟩ twoGroups i ↔ i < 2 := by
  have last : Request.last ⟨0, 2048, 0⟩ twoGroups = 2 := by decide
  unfold Request.Reaches
  rw [last]
  simp

theorem twoBlocks_pointer (v : Volume) {i : Nat} (inside : i < 2) :
    ext2Pointer v twoGroups twoBlocks i = 7 + i := by
  have direct : i < 12 := by omega
  simp only [ext2Pointer, ext2Path, if_pos direct, follow]
  interval_cases i <;> decide

theorem twoBlocks_noHoles (v : Volume) : Request.NoHoles v twoGroups twoBlocks ⟨0, 2048, 0⟩ := by
  intro i reaches
  rw [twoBlocks_pointer v (twoBlocks_reaches.mp reaches)]
  omega

theorem short_read_begins_last : ReturnsBeginning (failingVolume 8) twoGroups twoBlocks ⟨0, 2048, 0⟩ := by
  refine (short_read_begins (by decide) (twoBlocks_noHoles _)).1 (.inr ⟨fun i reaches => ?_, ?_⟩)
  · have := twoBlocks_reaches.mp reaches
    exact .inl (by omega)
  · intro i j here there order reads
    have first := twoBlocks_reaches.mp here
    have second := twoBlocks_reaches.mp there
    rw [twoBlocks_pointer _ second] at reads
    rw [twoBlocks_pointer _ first]
    have other : 7 + j ≠ 8 := of_decide_eq_true reads
    exact decide_eq_true (by omega)

/-- **When the first block fails**, what the second one holds is returned in its place. -/
theorem short_read_joins : Request.NoHoles (failingVolume 7) twoGroups twoBlocks ⟨0, 2048, 0⟩ ∧
    ext2Byte (failingVolume 7) twoGroups twoBlocks 0 = 0 ∧
    (∃ m', ext2ReadInodeData (failingVolume 7) twoGroups twoBlocks ⟨0, 2048, 0⟩ true (fun _ => 0) =
      .ok (m', 1024) ∧ m' 0 = 0xFF) ∧
    ¬ ReturnsBeginning (failingVolume 7) twoGroups twoBlocks ⟨0, 2048, 0⟩ := by
  have byte : ext2Byte (failingVolume 7) twoGroups twoBlocks 0 = 0 := by decide +kernel
  obtain ⟨m', done, ones⟩ : ∃ m',
      ext2ReadInodeData (failingVolume 7) twoGroups twoBlocks ⟨0, 2048, 0⟩ true (fun _ => 0) = .ok (m', 1024) ∧
        m' 0 = 0xFF := by
    have last : Request.last ⟨0, 2048, 0⟩ twoGroups = 2 := by decide
    rw [readInodeData_eq (by decide), last]
    refine ⟨_, congrArg (fun result => Outcome.ok (_, result)) ?_, ?_⟩
    · decide +kernel
    · decide +kernel
  refine ⟨twoBlocks_noHoles _, byte, ⟨m', done, ones⟩, fun returns => ?_⟩
  have right := returns _ (SameMap.refl _ _ _ _) true _ _ _ done 0 (by decide)
  exact absurd ((byte.symm.trans (right.symm.trans ones)) : (0 : UInt8) = 0xFF) (by decide)

end Kfs.Disk
